import Imconee.Handlers.Pass

/-!
# Slots with both pipes

Between its ticks a thread counts only slots that have both pipes. In a tick the pass over the
slots clears those that are dead, and until the compaction only the slots before the first of
them are known to have their pipes. The index that the pass finds is not behind that slot.
-/

set_option autoImplicit false

namespace Imconee.Handlers

open Imconee.Netkit

variable {P : Type}

namespace Bridged

variable (impl : PipeImpl P)

theorem isNone_register (waiter : PipeWaiter) (pipe : Option P) :
    (register impl waiter pipe).2.2.isNone = pipe.isNone := by
  cases pipe with
  | none => rfl
  | some pipe => rfl

theorem isEmpty_prepareWait (self : Bridged P) (waiter : PipeWaiter) :
    (self.prepareWait impl waiter).2.1.isEmpty = self.isEmpty := by
  simp only [prepareWait]
  split
  · simp only [isEmpty, isNone_register]
  · split
    · simp only [isEmpty, isNone_register]
    · simp only [isEmpty, isNone_register]

theorem isEmpty_process (self : Bridged P) (masks : Mask) :
    (self.process impl masks).2.1.isEmpty = self.isEmpty := by
  rcases self with ⟨pipe1, pipe2, mask1, mask2⟩
  cases pipe1 with
  | none => rfl
  | some pipe1 =>
      cases pipe2 with
      | none => rfl
      | some pipe2 => rfl

theorem isEmpty_mark1 (self : Bridged P) (w : Waitable) :
    ({ self with pipe1 := self.pipe1.map fun pipe => impl.setWaitable pipe w } :
      Bridged P).isEmpty = self.isEmpty := by
  simp [isEmpty]

theorem isEmpty_mark2 (self : Bridged P) (w : Waitable) :
    ({ self with pipe2 := self.pipe2.map fun pipe => impl.setWaitable pipe w } :
      Bridged P).isEmpty = self.isEmpty := by
  simp [isEmpty]

end Bridged

/-- The first slots have both pipes. -/
def Full (count : ℕ) (slots : ℕ → Bridged P) : Prop := ∀ i < count, (slots i).isEmpty = false

theorem ns_registerSlots (impl : PipeImpl P) (fuel i : ℕ) (s : Registering P) :
    (registerSlots impl fuel i s).ns ≤ s.ns := by
  induction fuel generalizing i s with
  | zero => exact Nat.le_refl _
  | succ fuel ih =>
      simp only [registerSlots]
      split
      · split
        · exact ih _ _
        · exact Nat.le_trans (ih _ _) (Nat.sub_le _ _)
      · exact Nat.le_refl _

namespace Full

variable {count : ℕ} {slots : ℕ → Bridged P}

theorem zero (slots : ℕ → Bridged P) : Full 0 slots := by
  intro i inside
  omega

theorem update (full : Full count slots) (i : ℕ) {slot : Bridged P}
    (same : slot.isEmpty = (slots i).isEmpty) : Full count (Function.update slots i slot) := by
  intro j inside
  rw [Function.update_apply]
  split
  · rename_i here
    rw [same, ← here]
    exact full j inside
  · exact full j inside

theorem push (full : Full count slots) {slot : Bridged P} (some : slot.isEmpty = false) :
    Full (count + 1) (Function.update slots count slot) := by
  intro j inside
  rw [Function.update_apply]
  split
  · exact some
  · exact full j (by omega)

/-- The last slot takes the place of one that is given up. -/
theorem moveslot (full : Full (count + 1) slots) {i : ℕ} (inside : i ≤ count) :
    Full count (Handlers.moveslot slots i count) := by
  intro j before
  rw [Handlers.moveslot, Function.update_of_ne (by omega)]
  split
  · rw [Function.update_apply]
    split
    · exact full count (by omega)
    · exact full j (by omega)
  · exact full j (by omega)

theorem registerSlots (impl : PipeImpl P) (fuel i : ℕ) {s : Registering P}
    (full : Full s.ns s.slots) :
    Full (Handlers.registerSlots impl fuel i s).ns
      (Handlers.registerSlots impl fuel i s).slots := by
  induction fuel generalizing i s with
  | zero => exact full
  | succ fuel ih =>
      simp only [Handlers.registerSlots]
      split
      · rename_i inside
        have prepared : Full s.ns (Function.update s.slots i
            ((s.slots i).prepareWait impl s.waiter).2.1) := by
          apply full.update
          exact Bridged.isEmpty_prepareWait impl _ _
        split
        · exact ih (i + 1) prepared
        · apply ih
          have last : s.ns = s.ns - 1 + 1 := by omega
          rw [last] at prepared
          exact prepared.moveslot (by omega)
      · exact full

/-- Closing the gaps: the slots before the next gap have their pipes. -/
theorem compactSlots {count i : ℕ} {s : Compaction P} (full : Full s.wasDel s.slots)
    (gap : s.wasDel < i) :
    Full (Handlers.compactSlots count i s).wasDel (Handlers.compactSlots count i s).slots := by
  induction count generalizing i s with
  | zero => exact full
  | succ count ih =>
      rw [Handlers.compactSlots, Compaction.close]
      split
      · exact ih full (by omega)
      · rename_i some
        refine ih ?_ (Nat.succ_lt_succ gap)
        intro j inside
        dsimp only at inside ⊢
        rw [Function.update_of_ne (by omega), Function.update_apply]
        split
        · simpa using some
        · exact full j (by omega)

end Full

namespace Compaction

/-- An index that is not among the slots that move stays what it is. -/
theorem rv_compactSlots {count i : ℕ} {s : Compaction P} (apart : s.rv < i ∨ i + count ≤ s.rv) :
    (compactSlots count i s).rv = s.rv := by
  induction count generalizing i s with
  | zero => rfl
  | succ count ih =>
      rw [compactSlots, close]
      split
      · exact ih (by omega)
      · have same : (if s.rv = i then s.wasDel else s.rv) = s.rv := if_neg (by omega)
        rw [ih (by dsimp only; omega)]
        exact same

theorem lt_compactSlots {count i : ℕ} {s : Compaction P} (gap : s.wasDel < i) :
    s.wasDel ≤ (compactSlots count i s).wasDel ∧
      (∀ j, i ≤ j → j < i + count → (s.slots j).isEmpty = false →
        s.wasDel < (compactSlots count i s).wasDel) ∧
      (compactSlots count i s).wasDel < i + count := by
  induction count generalizing i s with
  | zero =>
      refine ⟨Nat.le_refl _, ?_, gap⟩
      intro j after before
      omega
  | succ count ih =>
      rw [compactSlots, close]
      split
      · rename_i empty
        rcases ih (show s.wasDel < i + 1 by omega) with ⟨more, moves, inside⟩
        refine ⟨more, ?_, by omega⟩
        intro j after before some
        apply moves j _ (by omega) some
        by_contra same
        rw [show j = i by omega, empty] at some
        cases some
      · rcases ih (i := i + 1) (s := { slots := _, rv := _, wasDel := s.wasDel + 1 })
          (Nat.succ_lt_succ gap) with ⟨more, -, inside⟩
        exact ⟨Nat.le_of_succ_le more, fun _ _ _ _ => more, by omega⟩

end Compaction

namespace ProcessingThread

variable {self : ProcessingThread P}

/-- Every slot that is counted has both pipes. -/
structure Filled (thread : ProcessingThread P) : Prop where
  bound : thread.numslots ≤ maximumSlots
  full : Full thread.numslots.toNat thread.slots

/-- What is known after the pass, before the compaction. -/
structure Gapped (thread : ProcessingThread P) (pass : Pass P) : Prop where
  bound : thread.numslots ≤ maximumSlots
  alive : pass.wasDel = none → Full thread.numslots.toNat thread.slots
  dead : ∀ first, pass.wasDel = some first → Full first thread.slots ∧ first < thread.numslots
  index : pass.rv < maximumSlots → pass.rv < thread.numslots ∧
    ∀ first, pass.wasDel = some first → pass.rv ≤ first

/-- An offer of a pair is refused, or the pair is in the slot behind those in use. -/
theorem tryAddBridge_eq (pipe1 pipe2 : P) :
    (self.tryAddBridge (some pipe1) (some pipe2)).2 = self ∨
      0 ≤ self.numslots ∧ self.numslots < maximumSlots ∧
        (self.tryAddBridge (some pipe1) (some pipe2)).2 =
          { numslots := self.numslots + 1
            slots := Function.update self.slots self.numslots.toNat
              { pipe1 := some pipe1, pipe2 := some pipe2 } } := by
  rw [tryAddBridge]
  split
  · exact Or.inl rfl
  · split
    · rename_i nonneg room
      exact Or.inr ⟨by omega, room, rfl⟩
    · exact Or.inl rfl

theorem Filled.add (filled : self.Filled) (pipe1 pipe2 : P) :
    (self.tryAddBridge (some pipe1) (some pipe2)).2.Filled := by
  rcases @tryAddBridge_eq _ self pipe1 pipe2 with same | ⟨nonneg, room, same⟩
  · rw [same]
    exact filled
  · rw [same]
    constructor
    · exact room
    · dsimp only
      rw [show (self.numslots + 1).toNat = self.numslots.toNat + 1 by omega]
      exact filled.full.push rfl

theorem Gapped.add {pass : Pass P} (gapped : self.Gapped pass) (pipe1 pipe2 : P) :
    (self.tryAddBridge (some pipe1) (some pipe2)).2.Gapped pass := by
  rcases @tryAddBridge_eq _ self pipe1 pipe2 with same | ⟨nonneg, room, same⟩
  · rw [same]
    exact gapped
  · rw [same]
    refine ⟨room, ?_, ?_, ?_⟩
    · intro unset
      dsimp only
      rw [show (self.numslots + 1).toNat = self.numslots.toNat + 1 by omega]
      exact (gapped.alive unset).push rfl
    · intro first set
      rcases gapped.dead first set with ⟨full, inside⟩
      refine ⟨?_, by dsimp only; omega⟩
      intro i before
      dsimp only
      rw [Function.update_of_ne (by omega)]
      exact full i before
    · intro small
      rcases gapped.index small with ⟨inside, upto⟩
      exact ⟨by dsimp only; omega, upto⟩

theorem numslots_le_add (pipe1 pipe2 : P) :
    self.numslots ≤ (self.tryAddBridge (some pipe1) (some pipe2)).2.numslots := by
  rcases @tryAddBridge_eq _ self pipe1 pipe2 with same | ⟨-, -, same⟩
  · exact Int.le_of_eq (congrArg _ same.symm)
  · rw [same]
    exact Int.le_add_one (Int.le_refl _)

section

variable (impl : PipeImpl P)

theorem Filled.register (filled : self.Filled) : (self.register impl).2.Filled ∧
    ((self.register impl).1 = true → 0 < (self.register impl).2.numslots) := by
  have bound := filled.bound
  have fewer := ns_registerSlots impl self.numslots.toNat 0
    { ns := self.numslots.toNat, slots := self.slots }
  have full := Full.registerSlots impl self.numslots.toNat 0
    (s := { ns := self.numslots.toNat, slots := self.slots }) filled.full
  dsimp only at fewer
  simp only [ProcessingThread.register]
  split
  · refine ⟨⟨by simp [maximumSlots], Full.zero _⟩, ?_⟩
    simp
  · rw [maximumSlots] at bound
    refine ⟨⟨?_, full⟩, ?_⟩
    · simp only [maximumSlots]
      omega
    · intro _
      dsimp only
      omega

theorem register_of_nonpos (none : self.numslots ≤ 0) :
    self.register impl = (false, { self with numslots := -1 }) := by
  rw [ProcessingThread.register, Int.toNat_of_nonpos none]
  rfl

variable {impl} {masks : Mask} {last : Pass P}

theorem Filled.pass (filled : self.Filled)
    (passed : ProcessingThread.pass impl self.slots self.numslots.toNat masks = some last) :
    ({ self with slots := last.slots } : ProcessingThread P).Gapped last := by
  have bound := filled.bound
  rcases Pass.Visited.processSlots_eq (by omega) Pass.visited_start passed with
    ⟨count, visited, -⟩
  have inside := visited.inside
  have position := visited.index
  have kept : ∀ i < self.numslots.toNat,
      ¬(i < count ∧ resultAt impl self.slots masks i = .dead) →
        (last.slots i).isEmpty = false := by
    intro i used alive
    rw [visited.table]
    split
    · rename_i before
      have lives : resultAt impl self.slots masks i ≠ .dead := by
        intro dead
        exact alive ⟨before, dead⟩
      rw [slotAt, if_neg lives, Bridged.isEmpty_process]
      exact filled.full i used
    · exact filled.full i used
  refine ⟨bound, ?_, ?_, ?_⟩
  · intro unset i used
    rcases visited.wasDel with ⟨-, alive⟩ | ⟨first, set, -⟩
    · exact kept i used fun dead => alive i dead.1 dead.2
    · rw [unset] at set
      cases set
  · intro first set
    rcases visited.wasDel with ⟨unset, -⟩ | ⟨other, same, before, -, alive⟩
    · rw [unset] at set
      cases set
    · rw [set] at same
      cases same
      refine ⟨?_, by dsimp only; omega⟩
      intro i earlier
      exact kept i (by omega) fun dead => alive i earlier dead.2
  · intro small
    rcases visited.rv with ⟨unset, -⟩ | ⟨processed, busy, -⟩
    · omega
    · refine ⟨by dsimp only; omega, ?_⟩
      intro first set
      rcases visited.wasDel with ⟨unset, -⟩ | ⟨other, same, -, dead, -⟩
      · rw [unset] at set
        cases set
      · rw [set] at same
        cases same
        by_contra behind
        rw [busy first (by omega)] at dead
        cases dead

theorem pass_zero (slots : ℕ → Bridged P)
    (passed : ProcessingThread.pass impl slots 0 masks = some last) :
    last = { slots, masks } := by
  rw [ProcessingThread.pass, processSlots, if_neg (by simp)] at passed
  cases passed
  rfl

end

/-- The index that the pass has found is not that of a dead slot with nothing behind it. -/
def Survives (self : ProcessingThread P) (pass : Pass P) : Prop :=
  pass.wasDel = some pass.rv → pass.rv = 0 ∨
    ∃ i : ℕ, pass.rv < i ∧ i < self.numslots ∧ (self.slots i).isEmpty = false

/-- An index that is returned to be forwarded is that of a slot in use. -/
def Finished.Inside (finished : Finished P) : Prop :=
  0 ≤ finished.rv → finished.rv < maximumSlots → finished.rv < finished.thread.numslots

theorem Filled.ofSlots {ns rv : ℕ} {slots : ℕ → Bridged P} (bound : ns ≤ maximumSlots)
    (full : Full ns slots) (dead : List (Bridged P)) :
    (Finished.ofSlots ns rv slots dead).thread.Filled ∧
      ((0 < ns → rv < maximumSlots → rv < ns) → (Finished.ofSlots ns rv slots dead).Inside) := by
  rw [Finished.ofSlots]
  split
  · refine ⟨⟨by simp [maximumSlots], Full.zero _⟩, ?_⟩
    intro _ nonneg
    exact absurd nonneg (by simp)
  · refine ⟨⟨by dsimp only; omega, full⟩, ?_⟩
    intro index _ small
    dsimp only at small ⊢
    have := index (by omega) (by omega)
    omega

theorem Gapped.compact {pass : Pass P} (gapped : self.Gapped pass) :
    (ProcessingThread.compact self.numslots { pass with slots := self.slots }).thread.Filled ∧
      (self.Survives pass →
        (ProcessingThread.compact self.numslots { pass with slots := self.slots }).Inside) := by
  have bound := gapped.bound
  simp only [ProcessingThread.compact]
  cases set : pass.wasDel with
  | none =>
      have finished := @Filled.ofSlots _ _ pass.rv _ (show self.numslots.toNat ≤ _ by omega)
        (gapped.alive set) pass.dead
      refine ⟨finished.1, fun _ => finished.2 ?_⟩
      intro _ small
      have := (gapped.index small).1
      omega
  | some first =>
      rcases gapped.dead first set with ⟨full, inside⟩
      dsimp only
      generalize compaction : ({ slots := self.slots, rv := pass.rv, wasDel := first } :
        Compaction P) = s
      have parts : s.slots = self.slots ∧ s.rv = pass.rv ∧ s.wasDel = first := by
        rw [← compaction]
        exact ⟨rfl, rfl, rfl⟩
      rcases parts with ⟨slots, rv, rfl⟩
      have gap := Nat.lt_succ_self s.wasDel
      have closed := @Full.compactSlots _ (self.numslots.toNat - (s.wasDel + 1)) _ s
        (slots ▸ full) gap
      rcases @Compaction.lt_compactSlots _ (self.numslots.toNat - (s.wasDel + 1)) _ s gap with
        ⟨more, moves, fewer⟩
      have index := gapped.index
      have same := @Compaction.rv_compactSlots _ (self.numslots.toNat - (s.wasDel + 1))
        (s.wasDel + 1) s (by
          by_cases small : pass.rv < maximumSlots
          · have := (index small).2 s.wasDel set
            omega
          · omega)
      have finished := @Filled.ofSlots _ _ (compactSlots (self.numslots.toNat - (s.wasDel + 1))
        (s.wasDel + 1) s).rv _ (by omega) closed pass.dead
      refine ⟨finished.1, fun survives => finished.2 ?_⟩
      rw [same, rv]
      intro some small
      have upto := (index small).2 s.wasDel set
      by_cases before : pass.rv < s.wasDel
      · omega
      · -- the slot at the index is the first dead one
        have here : pass.rv = s.wasDel := by omega
        rcases survives (by rw [set, here]) with zero | ⟨i, behind, used, left⟩
        · omega
        · have := moves i (by omega) (by omega) (slots ▸ left)
          omega

/-- Without slots the compaction ends the thread, unless slots have been found dead behind
the first one. -/
theorem compact_of_nonpos {pass : Pass P} (none : self.numslots ≤ 0)
    (first : ∀ first, pass.wasDel = some first → first = 0) :
    (ProcessingThread.compact self.numslots pass).rv = -1 ∧
      (ProcessingThread.compact self.numslots pass).thread.numslots = -1 := by
  simp only [ProcessingThread.compact, Int.toNat_of_nonpos none]
  cases set : pass.wasDel with
  | none => exact ⟨rfl, rfl⟩
  | some dead =>
      rw [first dead set]
      exact ⟨rfl, rfl⟩

theorem Filled.forward (filled : self.Filled) {slot : ℕ} (inside : slot < self.numslots)
    (next : ProcessingThread P) :
    (self.forward slot next).2.1.Filled ∧ ∃ pipe1 pipe2,
      (self.forward slot next).2.2 = (next.tryAddBridge (some pipe1) (some pipe2)).2 := by
  have bound := filled.bound
  have both := filled.full slot (by omega)
  rcases given : self.slots slot with ⟨pipe1, pipe2, mask1, mask2⟩
  rw [given] at both
  cases pipe1 with
  | none => cases both
  | some pipe1 =>
      cases pipe2 with
      | none => cases both
      | some pipe2 =>
          have rest : Full (self.numslots - 1).toNat
              (moveslot self.slots slot (self.numslots - 1).toNat) := by
            apply Full.moveslot
            · rw [show (self.numslots - 1).toNat + 1 = self.numslots.toNat by omega]
              exact filled.full
            · omega
          simp only [ProcessingThread.forward, given]
          split
          · split
            · exact ⟨⟨by simp [maximumSlots], Full.zero _⟩, pipe1, pipe2, rfl⟩
            · exact ⟨⟨by dsimp only; omega, rest⟩, pipe1, pipe2, rfl⟩
          · refine ⟨filled, pipe1, pipe2, ?_⟩
            rcases @tryAddBridge_eq _ next pipe1 pipe2 with same | ⟨nonneg, room, -⟩
            · exact same.symm
            · rename_i refused
              rw [tryAddBridge, if_neg (by omega), if_pos room] at refused
              exact absurd Int.zero_lt_one refused

end ProcessingThread

end Imconee.Handlers
