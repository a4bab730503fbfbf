import Imconee.Handlers.Connection

/-!
# Where the pipes in the slots come from

No operation on a thread makes up a pipe: whatever the calls of a pipe keep of it holds of
all pipes in the slots as long as it holds of those that are added.
-/

set_option autoImplicit false

namespace Imconee.Handlers

open Imconee.Netkit

variable {P : Type} {impl : PipeImpl P} {good1 good2 : P → Prop}

variable (good1 good2) in
/-- Both pipes of every slot. -/
def EverySlot (slots : ℕ → Bridged P) : Prop := ∀ i, (slots i).Both good1 good2

theorem Bridged.both_empty (mask1 mask2 : BitVec 64) :
    ({ mask1, mask2 } : Bridged P).Both good1 good2 := by
  constructor <;> simp

namespace EverySlot

variable {slots : ℕ → Bridged P}

theorem mono {more1 more2 : P → Prop} (every : EverySlot good1 good2 slots)
    (imp1 : ∀ pipe, good1 pipe → more1 pipe) (imp2 : ∀ pipe, good2 pipe → more2 pipe) :
    EverySlot more1 more2 slots := by
  intro i
  constructor
  · intro pipe there
    exact imp1 pipe ((every i).1 pipe there)
  · intro pipe there
    exact imp2 pipe ((every i).2 pipe there)

theorem update (every : EverySlot good1 good2 slots) {slot : Bridged P}
    (both : slot.Both good1 good2) (i : ℕ) :
    EverySlot good1 good2 (Function.update slots i slot) := by
  intro j
  rw [Function.update_apply]
  split
  · exact both
  · exact every j

theorem moveslot (every : EverySlot good1 good2 slots) (dest source : ℕ) :
    EverySlot good1 good2 (Handlers.moveslot slots dest source) := by
  rw [Handlers.moveslot]
  apply update
  · split
    · exact every.update (every source) dest
    · exact every
  · exact Bridged.both_empty _ _

theorem registerSlots (keeps1 : KeepsFitting impl (fun _ _ => True) good1)
    (keeps2 : KeepsFitting impl (fun _ _ => True) good2) (fuel i : ℕ) {s : Registering P}
    (every : EverySlot good1 good2 s.slots) :
    EverySlot good1 good2 (Handlers.registerSlots impl fuel i s).slots := by
  induction fuel generalizing i s with
  | zero => exact every
  | succ fuel ih =>
      have prepared := every.update (keeps1.prepareWait keeps2 (every i) s.waiter) i
      simp only [Handlers.registerSlots]
      split
      · split
        · exact ih (i + 1) prepared
        · exact ih (i + 1) (prepared.moveslot i (s.ns - 1))
      · exact every

theorem processSlots (keeps1 : KeepsFitting impl (fun _ _ => True) good1)
    (keeps2 : KeepsFitting impl (fun _ _ => True) good2) {curNumslots fuel : ℕ} {s last : Pass P}
    (every : EverySlot good1 good2 s.slots)
    (done : Handlers.processSlots impl curNumslots fuel s = some last) :
    EverySlot good1 good2 last.slots := by
  induction fuel generalizing s with
  | zero => cases done
  | succ fuel ih =>
      rw [Handlers.processSlots] at done
      split at done
      · have processed : ((s.slots s.index).process impl s.masks).1.stops = false →
            EverySlot good1 good2
              (Function.update s.slots s.index ((s.slots s.index).process impl s.masks).2.1) := by
          intro goesOn
          apply every.update
          apply keeps1.process keeps2 (every s.index) _ goesOn
          intro pipe1 pipe2 there1 there2
          exact ⟨fun _ => trivial, fun _ => trivial⟩
        cases result : ((s.slots s.index).process impl s.masks).1 with
        | dead =>
            simp only [result] at done
            exact ih (every.update (Bridged.both_empty _ _) s.index) done
        | unwound =>
            simp only [result] at done
            cases done
        | processes =>
            simp only [result] at done
            exact ih (processed (by rw [result]; rfl)) done
        | skipped =>
            simp only [result] at done
            exact ih (processed (by rw [result]; rfl)) done
      · cases done
        exact every

theorem compactSlots (count i : ℕ) {s : Compaction P} (every : EverySlot good1 good2 s.slots) :
    EverySlot good1 good2 (Handlers.compactSlots count i s).slots := by
  induction count generalizing i s with
  | zero => exact every
  | succ count ih =>
      apply ih
      rw [Compaction.close]
      split
      · exact every
      · apply update
        · exact every.update (every i) _
        · exact Bridged.both_empty _ _

end EverySlot

namespace ProcessingThread

variable {self : ProcessingThread P}

theorem everySlot_tryAddBridge (every : EverySlot good1 good2 self.slots) {pipe1 pipe2 : Option P}
    (both : ({ pipe1, pipe2 } : Bridged P).Both good1 good2) :
    EverySlot good1 good2 (self.tryAddBridge pipe1 pipe2).2.slots := by
  rw [ProcessingThread.tryAddBridge]
  split
  · exact every
  · split
    · exact every.update both _
    · exact every

theorem everySlot_register (keeps1 : KeepsFitting impl (fun _ _ => True) good1)
    (keeps2 : KeepsFitting impl (fun _ _ => True) good2)
    (every : EverySlot good1 good2 self.slots) :
    EverySlot good1 good2 (self.register impl).2.slots := by
  have registered := EverySlot.registerSlots keeps1 keeps2 self.numslots.toNat 0
    (show EverySlot good1 good2
      ({ ns := self.numslots.toNat, slots := self.slots } : Registering P).slots from every)
  simp only [ProcessingThread.register]
  split
  · exact registered
  · exact registered

theorem everySlot_finishTick (keeps1 : KeepsFitting impl (fun _ _ => True) good1)
    (keeps2 : KeepsFitting impl (fun _ _ => True) good2) (every : EverySlot good1 good2 self.slots)
    {curNumslots : ℕ} {masks : Mask} {finished : Finished P}
    (finishes : self.finishTick impl curNumslots masks = some finished) :
    EverySlot good1 good2 finished.thread.slots := by
  rcases Option.map_eq_some_iff.mp finishes with ⟨last, passed, rfl⟩
  have processed := EverySlot.processSlots keeps1 keeps2 every passed
  have kept : ∀ (ns rv : ℕ) {slots : ℕ → Bridged P}, EverySlot good1 good2 slots →
      EverySlot good1 good2 (Finished.ofSlots ns rv slots last.dead).thread.slots := by
    intro ns rv slots every
    rw [Finished.ofSlots]
    split
    · exact every
    · exact every
  simp only [compact]
  split
  · exact kept _ _ processed
  · exact kept _ _ (EverySlot.compactSlots _ _ processed)

theorem everySlot_forward (every : EverySlot good1 good2 self.slots) {next : ProcessingThread P}
    (everyNext : EverySlot good1 good2 next.slots) (slot : ℕ) :
    EverySlot good1 good2 (self.forward slot next).2.1.slots ∧
      EverySlot good1 good2 (self.forward slot next).2.2.slots := by
  have added := everySlot_tryAddBridge everyNext
    (show ({ pipe1 := (self.slots slot).pipe1, pipe2 := (self.slots slot).pipe2 } :
      Bridged P).Both good1 good2 from every slot)
  simp only [ProcessingThread.forward]
  split
  · split
    · exact ⟨every.moveslot _ _, added⟩
    · exact ⟨every.moveslot _ _, added⟩
  · exact ⟨every, everyNext⟩

end ProcessingThread

end Imconee.Handlers
