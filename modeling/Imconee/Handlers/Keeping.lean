import Imconee.Handlers.Bridged

/-!
# What slots keep

A property of pipes that every call keeps is kept by the slots. A read may have to fit for
that, and it counts only if it returns data: `process` stops after any other. The two pipes
of a slot may each have a property of their own.
-/

set_option autoImplicit false

namespace Imconee.Handlers

open Imconee.Netkit

variable {P : Type} {impl : PipeImpl P}

namespace Bridged

variable (impl) in
/-- The reads that `process` makes, each in the state in which it is made. -/
def ReadsFit (fits : P → ℤ → Prop) (self : Bridged P) (masks : Mask) : Prop :=
  ∀ pipe1 pipe2, self.pipe1 = some pipe1 → self.pipe2 = some pipe2 →
    let s := Processing.checkClosed self.mask1 self.mask2 { pipe1, pipe2, masks }
    ((s.masks.haveRead self.mask1).1 = true → fits s.pipe1 (rcvsize impl s.pipe2)) ∧
    let next := Processing.read1 impl self.mask1 self.mask2 s
    ((next.masks.haveRead self.mask2).1 = true → fits next.pipe2 (rcvsize impl next.pipe1))

end Bridged

/-- What every call keeps, `recv` if it fits and returns data. -/
structure KeepsFitting (impl : PipeImpl P) (fits : P → ℤ → Prop) (good : P → Prop) : Prop where
  send : ∀ pipe data, good pipe → good (impl.send pipe data).2
  recv : ∀ pipe size bytes, good pipe → fits pipe size → (impl.recv pipe size).1 = .data bytes →
    good (impl.recv pipe size).2
  getWaitable : ∀ pipe, good pipe → good (impl.getWaitable pipe).2
  setWaitable : ∀ pipe w, good pipe → good (impl.setWaitable pipe w)

/-- Both pipes of a slot. -/
def Bridged.Both (good1 good2 : P → Prop) (self : Bridged P) : Prop :=
  (∀ pipe, self.pipe1 = some pipe → good1 pipe) ∧ ∀ pipe, self.pipe2 = some pipe → good2 pipe

namespace KeepsFitting

variable {fits : P → ℤ → Prop} {good good1 good2 : P → Prop}

theorem relay (keeps1 : KeepsFitting impl fits good1) (keeps2 : KeepsFitting impl fits good2)
    {source target : P} (sourceGood : good1 source) (targetGood : good2 target)
    (fine : fits source (rcvsize impl target))
    (goesOn : (relay impl source target).rv.stops = false) :
    good1 (Handlers.relay impl source target).source ∧
      good2 (Handlers.relay impl source target).target := by
  have asked := keeps2.send target none targetGood
  revert goesOn
  simp only [Handlers.relay]
  cases result : (impl.recv source (rcvsize impl target)).1 with
  | data bytes =>
      have sourceKept := keeps1.recv source _ bytes sourceGood fine result
      have targetKept := keeps2.send _ (some bytes) asked
      dsimp only
      split
      · split
        · simp [ProcessResult.stops]
        · exact fun _ => ⟨sourceKept, targetKept⟩
        · exact fun _ => ⟨sourceKept, targetKept⟩
        · simp [ProcessResult.stops]
      · exact fun _ => ⟨sourceKept, asked⟩
  | failed => simp [ProcessResult.stops]
  | threw exception => simp [ProcessResult.stops]
  | blocked => simp [ProcessResult.stops]

theorem flush (keeps : KeepsFitting impl fits good) {pipe : P} (kept : good pipe) :
    good (flush impl pipe).2 := by
  have sent := keeps.send pipe (some []) kept
  simp only [Handlers.flush]
  split <;> exact sent

section

variable {mask1 mask2 : BitVec 64} {s : Processing P}

theorem read1 (keeps1 : KeepsFitting impl fits good1) (keeps2 : KeepsFitting impl fits good2)
    (kept1 : good1 s.pipe1) (kept2 : good2 s.pipe2)
    (fine : (s.masks.haveRead mask1).1 = true → fits s.pipe1 (rcvsize impl s.pipe2))
    (goesOn : (s.read1 impl mask1 mask2).rv.stops = false) :
    good1 (s.read1 impl mask1 mask2).pipe1 ∧ good2 (s.read1 impl mask1 mask2).pipe2 := by
  rw [Processing.read1] at goesOn ⊢
  dsimp only at goesOn ⊢
  split
  · rename_i asked
    rw [if_pos asked] at goesOn
    exact keeps1.relay keeps2 kept1 kept2 (fine asked) goesOn
  · exact ⟨kept1, kept2⟩

theorem read2 (keeps1 : KeepsFitting impl fits good1) (keeps2 : KeepsFitting impl fits good2)
    (kept1 : good1 s.pipe1) (kept2 : good2 s.pipe2)
    (fine : (s.masks.haveRead mask2).1 = true → fits s.pipe2 (rcvsize impl s.pipe1))
    (goesOn : (s.read2 impl mask1 mask2).rv.stops = false) :
    good1 (s.read2 impl mask1 mask2).pipe1 ∧ good2 (s.read2 impl mask1 mask2).pipe2 := by
  rw [Processing.read2] at goesOn ⊢
  dsimp only at goesOn ⊢
  split
  · rename_i asked
    rw [if_pos asked] at goesOn
    exact (keeps2.relay keeps1 kept2 kept1 (fine asked) goesOn).symm
  · exact ⟨kept1, kept2⟩

theorem write1 (keeps1 : KeepsFitting impl fits good1) (kept1 : good1 s.pipe1)
    (kept2 : good2 s.pipe2) :
    good1 (s.write1 impl mask1).pipe1 ∧ good2 (s.write1 impl mask1).pipe2 := by
  rw [Processing.write1]
  dsimp only
  split
  · exact ⟨keeps1.flush kept1, kept2⟩
  · exact ⟨kept1, kept2⟩

theorem write2 (keeps2 : KeepsFitting impl fits good2) (kept1 : good1 s.pipe1)
    (kept2 : good2 s.pipe2) :
    good1 (s.write2 impl mask2).pipe1 ∧ good2 (s.write2 impl mask2).pipe2 := by
  rw [Processing.write2]
  dsimp only
  split
  · exact ⟨kept1, keeps2.flush kept2⟩
  · exact ⟨kept1, kept2⟩

end

theorem process (keeps1 : KeepsFitting impl fits good1) (keeps2 : KeepsFitting impl fits good2)
    {self : Bridged P} {masks : Mask} (both : self.Both good1 good2)
    (fine : self.ReadsFit impl fits masks) (goesOn : (self.process impl masks).1.stops = false) :
    (self.process impl masks).2.1.Both good1 good2 := by
  cases there1 : self.pipe1 with
  | none => simpa only [Bridged.process, there1] using both
  | some pipe1 =>
      cases there2 : self.pipe2 with
      | none => simpa only [Bridged.process, there1, there2] using both
      | some pipe2 =>
          rcases fine pipe1 pipe2 there1 there2 with ⟨fine1, fine2⟩
          simp only [Bridged.process, there1, there2, Processing.stages] at goesOn ⊢
          rcases Processing.run_cons goesOn with ⟨-, first⟩
          rw [first] at goesOn ⊢
          rcases Processing.run_cons goesOn with ⟨fine1', second⟩
          rw [second] at goesOn ⊢
          rcases Processing.run_cons goesOn with ⟨fine2', third⟩
          rw [third] at goesOn ⊢
          rcases Processing.run_cons goesOn with ⟨-, fourth⟩
          rw [fourth] at goesOn ⊢
          rcases Processing.run_cons goesOn with ⟨-, fifth⟩
          rw [fifth]
          rcases keeps1.read1 keeps2 (both.1 pipe1 there1) (both.2 pipe2 there2) fine1 fine1' with
            ⟨kept1, kept2⟩
          rcases keeps1.read2 keeps2 kept1 kept2 fine2 fine2' with ⟨kept1, kept2⟩
          rcases keeps1.write1 kept1 kept2 with ⟨kept1, kept2⟩
          rcases keeps2.write2 kept1 kept2 with ⟨kept1, kept2⟩
          refine ⟨?_, ?_⟩
          · rintro _ ⟨⟩
            exact kept1
          · rintro _ ⟨⟩
            exact kept2

theorem register (keeps : KeepsFitting impl fits good) {pipe : Option P} (waiter : PipeWaiter)
    (kept : ∀ p, pipe = some p → good p) :
    ∀ p, (Bridged.register impl waiter pipe).2.2 = some p → good p := by
  cases pipe with
  | none => exact kept
  | some pipe =>
      rintro _ ⟨⟩
      exact keeps.getWaitable pipe (kept pipe rfl)

theorem prepareWait (keeps1 : KeepsFitting impl fits good1)
    (keeps2 : KeepsFitting impl fits good2) {self : Bridged P} (both : self.Both good1 good2)
    (waiter : PipeWaiter) : (self.prepareWait impl waiter).2.1.Both good1 good2 := by
  have first := keeps1.register waiter both.1
  simp only [Bridged.prepareWait]
  split
  · exact ⟨first, both.2⟩
  · have second := keeps2.register (Bridged.register impl waiter self.pipe1).2.1 both.2
    split
    · exact ⟨first, second⟩
    · exact ⟨first, second⟩

theorem mark1 (keeps : KeepsFitting impl fits good1) {self : Bridged P}
    (both : self.Both good1 good2) (w : Waitable) : ({ self with
      pipe1 := self.pipe1.map fun pipe => impl.setWaitable pipe w } : Bridged P).Both
        good1 good2 := by
  refine ⟨?_, both.2⟩
  intro pipe there
  rcases Option.map_eq_some_iff.mp there with ⟨before, same, rfl⟩
  exact keeps.setWaitable before w (both.1 before same)

theorem mark2 (keeps : KeepsFitting impl fits good2) {self : Bridged P}
    (both : self.Both good1 good2) (w : Waitable) : ({ self with
      pipe2 := self.pipe2.map fun pipe => impl.setWaitable pipe w } : Bridged P).Both
        good1 good2 := by
  refine ⟨both.1, ?_⟩
  intro pipe there
  rcases Option.map_eq_some_iff.mp there with ⟨before, same, rfl⟩
  exact keeps.setWaitable before w (both.2 before same)

theorem run (keeps1 : KeepsFitting impl fits good1) (keeps2 : KeepsFitting impl fits good2)
    {start self : Bridged P} (run : Bridged.Run impl (Bridged.ReadsFit impl fits) start self)
    (both : start.Both good1 good2) : self.Both good1 good2 := by
  induction run with
  | start => exact both
  | prepareWait waiter run ih => exact keeps1.prepareWait keeps2 ih waiter
  | mark1 w run ih => exact keeps1.mark1 ih w
  | mark2 w run ih => exact keeps2.mark2 ih w
  | process run fine goesOn ih => exact keeps1.process keeps2 ih fine goesOn

end KeepsFitting

namespace Bridged

/-- A pipe is registered for the next bit, or not at all. -/
theorem register_cases (impl : PipeImpl P) (waiter : PipeWaiter) (pipe : Option P) :
    ((register impl waiter pipe).1 = 0 ∧ (register impl waiter pipe).2.1 = waiter) ∨
    ∃ p w, pipe = some p ∧ (impl.getWaitable p).1 = some w ∧
      (register impl waiter pipe).1 = bit waiter.numw ∧
      (register impl waiter pipe).2.1 = (waiter.reg (some w)).2 := by
  cases pipe with
  | none => exact Or.inl ⟨rfl, rfl⟩
  | some pipe =>
      cases there : (impl.getWaitable pipe).1 with
      | none => exact Or.inl (by simp [register, there, PipeWaiter.reg])
      | some w => exact Or.inr ⟨pipe, w, rfl, there, by simp [register, there, PipeWaiter.reg]⟩

/-- A slot is registered for the next two bits, or not at all. -/
theorem prepareWait_cases (impl : PipeImpl P) (self : Bridged P) {waiter : PipeWaiter}
    (small : waiter.numw + 2 ≤ 64) :
    ((self.prepareWait impl waiter).1 = false ∧ ((self.prepareWait impl waiter).2.2 = waiter ∨
      ∃ w, (self.prepareWait impl waiter).2.2 = (waiter.reg (some w)).2.unregLast)) ∨
    ∃ pipe1 pipe2 w1 w2, self.pipe1 = some pipe1 ∧ self.pipe2 = some pipe2 ∧
      (impl.getWaitable pipe1).1 = some w1 ∧ (impl.getWaitable pipe2).1 = some w2 ∧
      (self.prepareWait impl waiter).2.1.mask1 = bit waiter.numw ∧
      (self.prepareWait impl waiter).2.1.mask2 = bit (waiter.numw + 1) ∧
      (self.prepareWait impl waiter).2.2 = ((waiter.reg (some w1)).2.reg (some w2)).2 := by
  rcases register_cases impl waiter self.pipe1 with
    ⟨zero, same⟩ | ⟨pipe1, w1, there1, waits1, mask1, next1⟩
  · left
    simp only [prepareWait, zero, if_true]
    exact ⟨trivial, Or.inl same⟩
  · have some1 : bit waiter.numw ≠ 0 := bit_ne_zero (by omega)
    rcases register_cases impl (register impl waiter self.pipe1).2.1 self.pipe2 with
      ⟨zero, same⟩ | ⟨pipe2, w2, there2, waits2, mask2, next2⟩
    · left
      simp only [prepareWait, mask1, some1, zero, if_true, if_false]
      exact ⟨trivial, Or.inr ⟨w1, by rw [same, next1]⟩⟩
    · right
      rw [next1] at mask2 next2
      have some2 : bit (waiter.reg (some w1)).2.numw ≠ 0 :=
        bit_ne_zero (show waiter.numw + 1 < 64 by omega)
      simp only [prepareWait, next1, mask1, some1, mask2, some2, if_false]
      exact ⟨pipe1, pipe2, w1, w2, there1, there2, waits1, waits2, trivial, rfl, next2⟩

end Bridged

end Imconee.Handlers
