import Imconee.Handlers.Readiness
import Imconee.Handlers.ProcessingThread

/-!
# Registering the slots

The bits a slot waits for are the positions of its pipes in the waiter. The loop of `tick`
puts the last slot in the place of one that fails and goes on behind it, so that the slot
moved there keeps the bits of an earlier tick, which may be those of another slot by now.
-/

set_option autoImplicit false

namespace Imconee.Handlers

open Imconee.Netkit Imconee.Shadowsocks

/-- Which of the two pipes of a slot. -/
inductive Side where
  | first
  | second
  deriving DecidableEq

/-- `pipe_waiter` with its array `pipes`, of which the first `numw` are registered. A pipe is
known by the slot it is in. -/
structure Roster where
  waiter : PipeWaiter := {}
  pipes : ℕ → Option (ℕ × Side) := fun _ => none

namespace Roster

/-- `reg` -/
def reg (roster : Roster) (pipe : ℕ × Side) (w : Option Waitable) : BitVec 64 × Roster :=
  ((roster.waiter.reg w).1,
    { waiter := (roster.waiter.reg w).2
      pipes := Function.update roster.pipes roster.waiter.numw (some pipe) })

/-- `unreg_last` -/
def unregLast (roster : Roster) : Roster := { roster with waiter := roster.waiter.unregLast }

/-- The pipe is registered at this position. -/
def Seats (roster : Roster) (pipe : ℕ × Side) (position : ℕ) : Prop :=
  position < roster.waiter.numw ∧ roster.pipes position = some pipe

end Roster

variable {P : Type} (impl : PipeImpl P)

namespace Bridged

/-- `register`, with the array. -/
def enrollPipe (roster : Roster) (seat : ℕ × Side) (pipe : Option P) :
    BitVec 64 × Roster × Option P :=
  match pipe with
  | none => (0, roster, none)
  | some pipe =>
      let w := impl.getWaitable pipe
      ((roster.reg seat w.1).1, (roster.reg seat w.1).2, some w.2)

/-- `prepare_wait` of the slot at `index`, with the array. -/
def enroll (self : Bridged P) (index : ℕ) (roster : Roster) : Bool × Bridged P × Roster :=
  let first := enrollPipe impl roster (index, .first) self.pipe1
  let self := { self with pipe1 := first.2.2, mask1 := first.1 }
  if first.1 = 0 then (false, self, first.2.1)
  else
    let second := enrollPipe impl first.2.1 (index, .second) self.pipe2
    let self := { self with pipe2 := second.2.2, mask2 := second.1 }
    if second.1 = 0 then (false, self, second.2.1.unregLast) else (true, self, second.2.1)

/-- Both pipes have a waitable. -/
def Waits (self : Bridged P) : Prop :=
  (∃ pipe, self.pipe1 = some pipe ∧ (impl.getWaitable pipe).1.isSome) ∧
    ∃ pipe, self.pipe2 = some pipe ∧ (impl.getWaitable pipe).1.isSome

end Bridged

/-- The state of the loop of `tick` that registers the slots, with the array. -/
structure Enrolling (P : Type) where
  ns : ℕ
  slots : ℕ → Bridged P
  roster : Roster := {}

/-- The loop of `tick` that registers the slots, with the array. -/
def enrollSlots : ℕ → ℕ → Enrolling P → Enrolling P
  | 0, _, s => s
  | fuel + 1, i, s =>
      if i < s.ns then
        let prepared := (s.slots i).enroll impl i s.roster
        let slots := Function.update s.slots i prepared.2.1
        if prepared.1 then
          enrollSlots fuel (i + 1) { s with slots, roster := prepared.2.2 }
        else
          enrollSlots fuel (i + 1)
            { ns := s.ns - 1, slots := moveslot slots i (s.ns - 1), roster := prepared.2.2 }
      else s

/-- The masks have the same bits at a position. -/
structure SameAt (position : ℕ) (masks next : Mask) : Prop where
  readm : next.readm.getLsbD position = masks.readm.getLsbD position
  closem : next.closem.getLsbD position = masks.closem.getLsbD position
  writem : next.writem.getLsbD position = masks.writem.getLsbD position

/-- Every slot has been registered in this tick and waits under the bits of its own pipes; so
it leaves the bits of the others alone. -/
structure UnderOwnBits (s : Enrolling P) : Prop where
  own : ∀ i < s.ns, ∃ position1 position2, s.roster.Seats (i, .first) position1 ∧
    s.roster.Seats (i, .second) position2 ∧ position1 ≠ position2 ∧ position1 < 64 ∧
    position2 < 64 ∧ (s.slots i).mask1 = bit position1 ∧ (s.slots i).mask2 = bit position2
  apart : ∀ i < s.ns, ∀ j < s.ns, i ≠ j →
    ((s.slots i).mask1 ||| (s.slots i).mask2) &&& ((s.slots j).mask1 ||| (s.slots j).mask2) = 0
  consumes : ∀ i < s.ns, ∀ j side position, s.roster.Seats (j, side) position → i ≠ j →
    ∀ masks, SameAt position masks ((s.slots i).process impl masks).2.2

variable {impl}

/-! ### The array is only recorded -/

theorem enrollPipe_forget (roster : Roster) (seat : ℕ × Side) (pipe : Option P) :
    (Bridged.enrollPipe impl roster seat pipe).1 =
        (Bridged.register impl roster.waiter pipe).1 ∧
      (Bridged.enrollPipe impl roster seat pipe).2.1.waiter =
        (Bridged.register impl roster.waiter pipe).2.1 ∧
      (Bridged.enrollPipe impl roster seat pipe).2.2 =
        (Bridged.register impl roster.waiter pipe).2.2 := by
  cases pipe with
  | none => exact ⟨rfl, rfl, rfl⟩
  | some pipe => exact ⟨rfl, rfl, rfl⟩

theorem enroll_forget (self : Bridged P) (index : ℕ) (roster : Roster) :
    (self.enroll impl index roster).1 = (self.prepareWait impl roster.waiter).1 ∧
      (self.enroll impl index roster).2.1 = (self.prepareWait impl roster.waiter).2.1 ∧
      (self.enroll impl index roster).2.2.waiter =
        (self.prepareWait impl roster.waiter).2.2 := by
  rcases @enrollPipe_forget P impl roster (index, .first) self.pipe1 with ⟨mask1, waiter1, pipe1⟩
  rcases @enrollPipe_forget P impl (Bridged.enrollPipe impl roster (index, .first) self.pipe1).2.1
    (index, .second) self.pipe2 with ⟨mask2, waiter2, pipe2⟩
  rw [waiter1] at mask2 waiter2 pipe2
  simp only [Bridged.enroll, Bridged.prepareWait, mask1, pipe1, mask2, pipe2]
  split
  · exact ⟨rfl, rfl, waiter1⟩
  · split
    · exact ⟨rfl, rfl, by rw [Roster.unregLast, waiter2]⟩
    · exact ⟨rfl, rfl, waiter2⟩

/-- What `tick` computes is the loop without the array. -/
theorem enrollSlots_forget (fuel i : ℕ) (s : Enrolling P) :
    registerSlots impl fuel i { ns := s.ns, slots := s.slots, waiter := s.roster.waiter } =
      { ns := (enrollSlots impl fuel i s).ns
        slots := (enrollSlots impl fuel i s).slots
        waiter := (enrollSlots impl fuel i s).roster.waiter } := by
  induction fuel generalizing i s with
  | zero => rfl
  | succ fuel ih =>
      rcases @enroll_forget P impl (s.slots i) i s.roster with ⟨result, slot, waiter⟩
      rw [registerSlots, enrollSlots]
      dsimp only
      split
      · rw [← result, ← slot, ← waiter]
        generalize (s.slots i).enroll impl i s.roster = prepared
        rcases prepared with ⟨fine, slot, roster⟩
        dsimp only
        split
        · exact ih (i + 1) ⟨s.ns, Function.update s.slots i slot, roster⟩
        · exact ih (i + 1)
            ⟨s.ns - 1, moveslot (Function.update s.slots i slot) i (s.ns - 1), roster⟩
      · rfl

/-! ### One slot -/

/-- A pipe is registered at the next position, or not at all. -/
theorem enrollPipe_cases (roster : Roster) (seat : ℕ × Side) (pipe : Option P) :
    let enrolled := Bridged.enrollPipe impl roster seat pipe
    (∀ position < roster.waiter.numw, enrolled.2.1.pipes position = roster.pipes position) ∧
      ((∃ p, pipe = some p ∧ (impl.getWaitable p).1.isSome) ∧
          enrolled.1 = bit roster.waiter.numw ∧
          enrolled.2.1.waiter.numw = roster.waiter.numw + 1 ∧
          enrolled.2.1.pipes roster.waiter.numw = some seat ∨
        ¬(∃ p, pipe = some p ∧ (impl.getWaitable p).1.isSome) ∧ enrolled.1 = 0 ∧
          enrolled.2.1.waiter.numw = roster.waiter.numw) := by
  cases pipe with
  | none => exact ⟨fun _ _ => rfl, Or.inr ⟨by simp, rfl, rfl⟩⟩
  | some pipe =>
      refine ⟨fun position before => Function.update_of_ne (Nat.ne_of_lt before) _ _, ?_⟩
      simp only [Bridged.enrollPipe, Roster.reg, PipeWaiter.reg]
      cases there : (impl.getWaitable pipe).1 with
      | none =>
          refine Or.inr ⟨?_, rfl, rfl⟩
          rintro ⟨p, same, some⟩
          cases same
          rw [there] at some
          cases some
      | some w =>
          exact Or.inl ⟨⟨pipe, rfl, by rw [there]; rfl⟩, rfl, rfl, Function.update_self ..⟩

/-- What registering a slot makes of the waiter if both pipes have a waitable. -/
structure Roster.Enrolls (roster : Roster) (index : ℕ) (next : Bridged P) (after : Roster) :
    Prop where
  mask1 : next.mask1 = bit roster.waiter.numw
  mask2 : next.mask2 = bit (roster.waiter.numw + 1)
  numw : after.waiter.numw = roster.waiter.numw + 2
  first : after.pipes roster.waiter.numw = some (index, .first)
  second : after.pipes (roster.waiter.numw + 1) = some (index, .second)

theorem enroll_cases (self : Bridged P) (index : ℕ) {roster : Roster}
    (small : roster.waiter.numw + 2 ≤ 64) :
    let enrolled := self.enroll impl index roster
    (∀ position < roster.waiter.numw, enrolled.2.2.pipes position = roster.pipes position) ∧
      (self.Waits impl ∧ enrolled.1 = true ∧
          roster.Enrolls index enrolled.2.1 enrolled.2.2 ∨
        ¬self.Waits impl ∧ enrolled.1 = false ∧
          enrolled.2.2.waiter.numw = roster.waiter.numw) := by
  rcases @enrollPipe_cases P impl roster (index, .first) self.pipe1 with
    ⟨kept1, ⟨waits1, mask1, numw1, seat1⟩ | ⟨fails1, mask1, numw1⟩⟩
  · have some1 : bit roster.waiter.numw ≠ 0 := bit_ne_zero (by omega)
    rcases @enrollPipe_cases P impl (Bridged.enrollPipe impl roster (index, .first) self.pipe1).2.1
      (index, .second) self.pipe2 with
      ⟨kept2, ⟨waits2, mask2, numw2, seat2⟩ | ⟨fails2, mask2, numw2⟩⟩
    · rw [numw1] at kept2 mask2 numw2 seat2
      have some2 : bit (roster.waiter.numw + 1) ≠ 0 := bit_ne_zero (by omega)
      simp only [Bridged.enroll, mask1, mask2, some1, some2, if_false]
      refine ⟨fun position before => ?_, Or.inl ⟨⟨waits1, waits2⟩, trivial, rfl, rfl, numw2,
        ?_, seat2⟩⟩
      · rw [kept2 position (by omega), kept1 position before]
      · rw [kept2 _ (Nat.lt_succ_self _), seat1]
    · rw [numw1] at kept2 numw2
      simp only [Bridged.enroll, mask1, mask2, some1, if_false, if_true]
      refine ⟨fun position before => ?_, Or.inr ⟨fun waits => fails2 waits.2, trivial, ?_⟩⟩
      · rw [Roster.unregLast, kept2 position (by omega), kept1 position before]
      · simp only [Roster.unregLast, PipeWaiter.unregLast, numw2, Nat.add_sub_cancel]
  · simp only [Bridged.enroll, mask1, if_true]
    exact ⟨kept1, Or.inr ⟨fun waits => fails1 waits.1, trivial, numw1⟩⟩

/-! ### The bits that `process` takes -/

namespace SameAt

variable {position : ℕ} {masks next last : Mask} {m m1 m2 : BitVec 64}

theorem refl (masks : Mask) : SameAt position masks masks := ⟨rfl, rfl, rfl⟩

theorem trans (first : SameAt position masks next) (second : SameAt position next last) :
    SameAt position masks last :=
  ⟨second.readm.trans first.readm, second.closem.trans first.closem,
    second.writem.trans first.writem⟩

theorem cleared (bits : BitVec 64) (other : m.getLsbD position = false) :
    (bits &&& ~~~m).getLsbD position = bits.getLsbD position := by
  rw [BitVec.getLsbD_and, BitVec.getLsbD_not, other, Bool.not_false, Bool.and_true]
  by_cases small : position < 64
  · rw [decide_eq_true small, Bool.and_true]
  · rw [BitVec.getLsbD_of_ge _ _ (by omega), Bool.false_and]

theorem takeBits (bits : BitVec 64) (other : m.getLsbD position = false) :
    (Mask.takeBits bits m).2.getLsbD position = bits.getLsbD position := by
  rw [Mask.takeBits]
  split
  · exact cleared bits other
  · rfl

theorem haveRead (masks : Mask) (other : m.getLsbD position = false) :
    SameAt position masks (masks.haveRead m).2 := ⟨takeBits _ other, rfl, rfl⟩

theorem haveClosed (masks : Mask) (other : m.getLsbD position = false) :
    SameAt position masks (masks.haveClosed m).2 := ⟨rfl, takeBits _ other, rfl⟩

theorem haveWrite (masks : Mask) (other : m.getLsbD position = false) :
    SameAt position masks (masks.haveWrite m).2 := ⟨rfl, rfl, takeBits _ other⟩

theorem removeWrite (masks : Mask) (other : m.getLsbD position = false) :
    SameAt position masks (masks.removeWrite m) := ⟨rfl, rfl, cleared _ other⟩

theorem stage (other1 : m1.getLsbD position = false) (other2 : m2.getLsbD position = false)
    {stage : Processing P → Processing P} (member : stage ∈ Processing.stages impl m1 m2)
    (s : Processing P) : SameAt position s.masks (stage s).masks := by
  simp only [Processing.stages, List.mem_cons, List.not_mem_nil, or_false] at member
  rcases member with rfl | rfl | rfl | rfl | rfl
  · exact haveClosed s.masks (by simp [other1, other2])
  · have read := haveRead s.masks other1
    rw [Processing.read1]
    split
    · dsimp only
      split
      · exact read.trans (removeWrite _ other2)
      · exact read
    · exact read
  · have read := haveRead s.masks other2
    rw [Processing.read2]
    split
    · dsimp only
      split
      · exact read.trans (removeWrite _ other1)
      · exact read
    · exact read
  · have write := haveWrite s.masks other1
    rw [Processing.write1]
    split <;> exact write
  · have write := haveWrite s.masks other2
    rw [Processing.write2]
    split <;> exact write

theorem run {stages : List (Processing P → Processing P)}
    (keeps : ∀ stage ∈ stages, ∀ s : Processing P, SameAt position s.masks (stage s).masks)
    (s : Processing P) : SameAt position s.masks (Processing.run stages s).masks := by
  induction stages generalizing s with
  | nil => exact refl s.masks
  | cons first rest ih =>
      have here := keeps first List.mem_cons_self s
      rw [Processing.run]
      split
      · exact here
      · exact here.trans (ih (fun stage member => keeps stage (List.mem_cons_of_mem _ member)) _)

theorem process {self : Bridged P} (other1 : self.mask1.getLsbD position = false)
    (other2 : self.mask2.getLsbD position = false) (masks : Mask) :
    SameAt position masks (self.process impl masks).2.2 := by
  rw [Bridged.process]
  split
  · rename_i pipe1 pipe2 _ _
    exact run (fun _ member s => SameAt.stage other1 other2 member s) { pipe1, pipe2, masks }
  · exact refl masks

end SameAt

/-! ### The whole loop -/

namespace Enrolling

variable {i n : ℕ} {s : Enrolling P}

/-- All slots before `i` have been registered, two positions for each. -/
structure Seated (i : ℕ) (s : Enrolling P) : Prop where
  numw : s.roster.waiter.numw = 2 * i
  mask1 : ∀ j < i, (s.slots j).mask1 = bit (2 * j)
  mask2 : ∀ j < i, (s.slots j).mask2 = bit (2 * j + 1)
  first : ∀ j < i, s.roster.pipes (2 * j) = some (j, .first)
  second : ∀ j < i, s.roster.pipes (2 * j + 1) = some (j, .second)

/-- The slot at `i` is in use, and neither of its pipes is registered. -/
structure Missing (i : ℕ) (s : Enrolling P) : Prop where
  inside : i < s.ns
  absent : ∀ position side, ¬s.roster.Seats (i, side) position

theorem Seated.seats_slot (seated : s.Seated i) {j position : ℕ} {side : Side}
    (seats : s.roster.Seats (j, side) position) :
    j < i ∧ position = 2 * j + if side = .first then 0 else 1 := by
  rcases seats with ⟨inside, there⟩
  rw [seated.numw] at inside
  rcases Nat.mod_two_eq_zero_or_one position with even | odd
  · have first := seated.first (position / 2) (by omega)
    rw [show 2 * (position / 2) = position by omega, there] at first
    cases first
    exact ⟨by omega, by simp; omega⟩
  · have second := seated.second (position / 2) (by omega)
    rw [show 2 * (position / 2) + 1 = position by omega, there] at second
    cases second
    exact ⟨by omega, by simp; omega⟩

theorem Seated.next (seated : s.Seated i) {slot : Bridged P} {roster : Roster}
    (enrolls : s.roster.Enrolls i slot roster)
    (kept : ∀ position < s.roster.waiter.numw,
      roster.pipes position = s.roster.pipes position) :
    Seated (i + 1) ⟨s.ns, Function.update s.slots i slot, roster⟩ := by
  have numw := seated.numw
  have same : ∀ j < i, Function.update s.slots i slot j = s.slots j := fun j before =>
    Function.update_of_ne (Nat.ne_of_lt before) _ _
  refine ⟨?_, Nat.forall_lt_succ_right.mpr ⟨fun j before => ?_, ?_⟩,
    Nat.forall_lt_succ_right.mpr ⟨fun j before => ?_, ?_⟩,
    Nat.forall_lt_succ_right.mpr ⟨fun j before => ?_, ?_⟩,
    Nat.forall_lt_succ_right.mpr ⟨fun j before => ?_, ?_⟩⟩ <;> dsimp only
  · rw [enrolls.numw, numw]
    omega
  · rw [same j before, seated.mask1 j before]
  · rw [Function.update_self, enrolls.mask1, numw]
  · rw [same j before, seated.mask2 j before]
  · rw [Function.update_self, enrolls.mask2, numw]
  · rw [kept _ (by omega), seated.first j before]
  · rw [← numw, enrolls.first]
  · rw [kept _ (by omega), seated.second j before]
  · rw [← numw, enrolls.second]

/-- If all slots have been registered, they wait under their own bits. -/
theorem Seated.underOwnBits (seated : s.Seated s.ns) (small : s.ns ≤ maximumSlots) :
    UnderOwnBits impl s := by
  have small : s.ns ≤ 30 := small
  have own : ∀ {i position}, i < s.ns → position < 64 → position / 2 ≠ i →
      (s.slots i).mask1.getLsbD position = false ∧
        (s.slots i).mask2.getLsbD position = false := by
    intro i position inside _ other
    rw [seated.mask1 i inside, seated.mask2 i inside, getLsbD_bit, getLsbD_bit,
      decide_eq_false (show ¬2 * i = position by omega),
      decide_eq_false (show ¬2 * i + 1 = position by omega)]
    simp
  refine ⟨fun i inside => ⟨2 * i, 2 * i + 1, ⟨?_, seated.first i inside⟩,
    ⟨?_, seated.second i inside⟩, by omega, by omega, by omega, seated.mask1 i inside,
    seated.mask2 i inside⟩, fun i inside j inside' different => ?_,
    fun i inside j side position seats different masks => ?_⟩
  · rw [seated.numw]
    omega
  · rw [seated.numw]
    omega
  · ext position small
    simp only [BitVec.getLsbD_and, BitVec.getLsbD_or, ← BitVec.getLsbD_eq_getElem]
    by_cases mine : position / 2 = i
    · rcases own inside' small (by omega) with ⟨other1, other2⟩
      simp [other1, other2]
    · rcases own inside small mine with ⟨other1, other2⟩
      simp [other1, other2]
  · rcases seated.seats_slot seats with ⟨before, at'⟩
    have range : position / 2 = j := by
      split at at' <;> omega
    rcases own inside (by omega) (show position / 2 ≠ i by omega) with ⟨other1, other2⟩
    exact SameAt.process other1 other2 masks

theorem Seated.fails (seated : s.Seated i) {slot : Bridged P} {roster : Roster} (inside : i < s.ns)
    (same : roster.waiter.numw = s.roster.waiter.numw)
    (kept : ∀ position < s.roster.waiter.numw,
      roster.pipes position = s.roster.pipes position) :
    Seated i ⟨s.ns - 1, moveslot (Function.update s.slots i slot) i (s.ns - 1), roster⟩ := by
  have numw := seated.numw
  have before : ∀ j < i,
      moveslot (Function.update s.slots i slot) i (s.ns - 1) j = s.slots j := by
    intro j before
    rw [moveslot, Function.update_of_ne (by omega)]
    split
    · rw [Function.update_of_ne (by omega), Function.update_of_ne (by omega)]
    · rw [Function.update_of_ne (by omega)]
  refine ⟨same.trans numw, fun j less => ?_, fun j less => ?_, fun j less => ?_,
    fun j less => ?_⟩ <;> dsimp only
  · rw [before j less, seated.mask1 j less]
  · rw [before j less, seated.mask2 j less]
  · rw [kept _ (by omega), seated.first j less]
  · rw [kept _ (by omega), seated.second j less]

theorem enrollSlots_of_ns_le (fuel : ℕ) (done : s.ns ≤ i) : enrollSlots impl fuel i s = s := by
  cases fuel with
  | zero => rfl
  | succ fuel => rw [Handlers.enrollSlots, if_neg (Nat.not_lt.mpr done)]

/-- A slot that is missing stays so: the loop is behind it. -/
theorem Missing.enrollSlots (fuel : ℕ) {k : ℕ} (missing : s.Missing i) (behind : i < k)
    (numw : s.roster.waiter.numw ≤ 2 * k) (small : s.ns ≤ maximumSlots) :
    (enrollSlots impl fuel k s).Missing i := by
  have small' : s.ns ≤ 30 := small
  induction fuel generalizing k s with
  | zero => exact missing
  | succ fuel ih =>
      rw [Handlers.enrollSlots]
      split
      · rename_i more
        have inside := missing.inside
        rcases @enroll_cases P impl (s.slots k) k s.roster (by omega) with
          ⟨kept, ⟨-, fine, enrolls⟩ | ⟨-, failed, numw'⟩⟩
        · dsimp only
          rw [if_pos fine]
          refine ih ⟨inside, ?_⟩ (by omega) ?_ small small'
          · rintro position side ⟨before, there⟩
            dsimp only at before there
            rw [enrolls.numw] at before
            rcases Nat.lt_trichotomy position s.roster.waiter.numw with early | rfl | late
            · rw [kept position early] at there
              exact missing.absent position side ⟨early, there⟩
            · rw [enrolls.first] at there
              cases there
              omega
            · rw [show position = s.roster.waiter.numw + 1 by omega, enrolls.second] at there
              cases there
              omega
          · dsimp only
            rw [enrolls.numw]
            omega
        · dsimp only
          rw [failed, if_neg (by simp)]
          refine ih ⟨?_, ?_⟩ (by omega) ?_ ?_ ?_
          · dsimp only
            omega
          · rintro position side ⟨before, there⟩
            dsimp only at before there
            rw [numw'] at before
            rw [kept position before] at there
            exact missing.absent position side ⟨before, there⟩
          · dsimp only
            omega
          · exact Nat.le_trans (Nat.sub_le _ _) small
          · exact Nat.le_trans (Nat.sub_le _ _) small'
      · exact missing

/-- The loop, from a slot on before which all have been registered. -/
theorem Seated.enrollSlots (fuel : ℕ) (seated : s.Seated i) (inside : i ≤ s.ns)
    (enough : s.ns ≤ i + fuel) (small : s.ns ≤ maximumSlots) :
    UnderOwnBits impl (enrollSlots impl fuel i s) ↔
      ∀ j, i ≤ j → j + 1 < s.ns → (s.slots j).Waits impl := by
  induction fuel generalizing i s with
  | zero =>
      have done : i = s.ns := by omega
      rw [Handlers.enrollSlots]
      exact iff_of_true ((done ▸ seated).underOwnBits small) fun j after before => by omega
  | succ fuel ih =>
      have small' : s.ns ≤ 30 := small
      rw [Handlers.enrollSlots]
      split
      · rename_i more
        have numw := seated.numw
        rcases @enroll_cases P impl (s.slots i) i s.roster (by omega) with
          ⟨kept, ⟨waits, fine, enrolls⟩ | ⟨fails, failed, numw'⟩⟩
        · dsimp only
          rw [if_pos fine, ih (seated.next enrolls kept) more (by dsimp only; omega) small]
          dsimp only
          constructor
          · intro later j after before
            rcases Nat.eq_or_lt_of_le after with rfl | after
            · exact waits
            · have waits := later j after before
              rwa [Function.update_of_ne (by omega)] at waits
          · intro all j after before
            rw [Function.update_of_ne (by omega)]
            exact all j (by omega) before
        · generalize (s.slots i).enroll impl i s.roster = enrolled at *
          rcases enrolled with ⟨fine, slot, roster⟩
          dsimp only at kept failed numw' ⊢
          have before : Seated i
              ⟨s.ns - 1, moveslot (Function.update s.slots i slot) i (s.ns - 1), roster⟩ :=
            seated.fails more numw' kept
          rw [failed, if_neg (by simp)]
          by_cases last : i + 1 = s.ns
          · -- the last slot is taken off the table
            have short : s.ns - 1 = i := by omega
            rw [short] at before ⊢
            rw [enrollSlots_of_ns_le fuel (Nat.le_succ i)]
            exact iff_of_true (before.underOwnBits (by dsimp only; omega))
              fun j after before => by omega
          · -- the slot moved to `i` is passed over
            have missing : Missing i
                ⟨s.ns - 1, moveslot (Function.update s.slots i slot) i (s.ns - 1), roster⟩ := by
              refine ⟨by dsimp only; omega, fun position side seats => ?_⟩
              exact absurd (before.seats_slot seats).1 (Nat.lt_irrefl i)
            have missing : (Handlers.enrollSlots impl fuel (i + 1) _).Missing i :=
              missing.enrollSlots fuel (Nat.lt_succ_self i) (by dsimp only; omega)
                (Nat.le_trans (Nat.sub_le _ _) small)
            refine iff_of_false (fun under => ?_) fun all =>
              fails (all i (Nat.le_refl i) (by omega))
            rcases under.own i missing.inside with ⟨position, -, seats, -⟩
            exact missing.absent position .first seats
      · rename_i done
        have done : i = s.ns := by omega
        exact iff_of_true ((done ▸ seated).underOwnBits small) fun j after before => by omega

end Enrolling

/-- The slots wait under their own bits exactly if none before the last one fails. -/
theorem underOwnBits_iff (impl : PipeImpl P) (slots : ℕ → Bridged P) {n : ℕ}
    (small : n ≤ maximumSlots) :
    UnderOwnBits impl (enrollSlots impl n 0 { ns := n, slots }) ↔
      ∀ i, i + 1 < n → (slots i).Waits impl := by
  have seated : Enrolling.Seated 0 ({ ns := n, slots } : Enrolling P) :=
    ⟨rfl, by simp, by simp, by simp, by simp⟩
  rw [seated.enrollSlots n (Nat.zero_le n) (Nat.le_add_left n 0) small]
  exact ⟨fun all i before => all i (Nat.zero_le i) before, fun all i _ before => all i before⟩

/-- A pipe on a socket, and a `crypto_pipe` that has lost its own. -/
def socketPipe : AnyPipe MemorySocket Unit := .inl { socket := {} }

def lostPipe : AnyPipe MemorySocket Unit :=
  .inr { pipe := none, crypto := (), encryptedData := [], masterKey := [], keySize := 0 }

/-- Two bridges, the first of which has lost a pipe. -/
def lostBridges : ℕ → Bridged (AnyPipe MemorySocket Unit)
  | 0 => { pipe1 := some lostPipe, pipe2 := some socketPipe }
  | 1 => { pipe1 := some socketPipe, pipe2 := some socketPipe }
  | _ => {}

/-- The other bridge is not registered. -/
theorem not_underOwnBits_lost :
    ¬UnderOwnBits (anyPipe memorySocket noneCryptor (fun _ _ => []) 0 1)
      (enrollSlots (anyPipe memorySocket noneCryptor (fun _ _ => []) 0 1) 2 0
        { ns := 2, slots := lostBridges }) := by
  intro under
  rcases under.own 0 (by decide) with ⟨position, -, ⟨before, -⟩, -⟩
  exact absurd before (Nat.not_lt_zero position)

/-- Two bridges that are in order. -/
theorem underOwnBits_iff_two :
    UnderOwnBits memoryPipe (enrollSlots memoryPipe 2 0
      { ns := 2, slots := fun _ => { pipe1 := some {}, pipe2 := some {} } }) :=
  (underOwnBits_iff memoryPipe (fun _ => { pipe1 := some {}, pipe2 := some {} })
    (show 2 ≤ maximumSlots by decide)).mpr fun _ _ => ⟨⟨{}, rfl, rfl⟩, ⟨{}, rfl, rfl⟩⟩

end Imconee.Handlers
