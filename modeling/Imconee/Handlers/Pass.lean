import Imconee.Handlers.ProcessingThread

/-!
# A pass over the slots

What the loop of `tick` does can be told from the slots and the mask it begins with: slot for
slot `process` returns some result and leaves some bits to the next. The loop comes to an end
before the first slot that finds no bits.
-/

set_option autoImplicit false

namespace Imconee.Handlers

open Imconee.Netkit

variable {P : Type}

section

variable (impl : PipeImpl P) (slots : ℕ → Bridged P) (masks : Mask)

/-- The bits that the slots before one leave to it. -/
def maskAt : ℕ → Mask
  | 0 => masks
  | index + 1 => ((slots index).process impl (maskAt index)).2.2

/-- What `process` returns of a slot. -/
def resultAt (index : ℕ) : ProcessResult :=
  ((slots index).process impl (maskAt impl slots masks index)).1

/-- What becomes of a slot. -/
def slotAt (index : ℕ) : Bridged P :=
  if resultAt impl slots masks index = .dead then {}
  else ((slots index).process impl (maskAt impl slots masks index)).2.1

end

namespace Pass

variable {impl : PipeImpl P} {slots : ℕ → Bridged P} {masks : Mask} {curNumslots : ℕ}

variable (impl slots masks curNumslots) in
/-- The state of the loop after `count` slots have been processed, the last of which may have
died and is about to be processed again. -/
structure Visited (count : ℕ) (s : Pass P) : Prop where
  index : s.index = count ∨ s.index + 1 = count ∧ resultAt impl slots masks s.index = .dead
  inside : count ≤ curNumslots
  pending : ∀ i < count, (maskAt impl slots masks i).isEmpty = false
  returned : ∀ i < count, resultAt impl slots masks i ≠ .unwound
  table : ∀ i, s.slots i = if i < count then slotAt impl slots masks i else slots i
  left : s.masks = maskAt impl slots masks count
  revisited : ∀ i < s.index, resultAt impl slots masks i = .dead →
    (maskAt impl slots masks (i + 1)).isEmpty = false
  rv : (s.rv = maximumSlots + 1 ∧ ∀ i < s.index, resultAt impl slots masks i = .processes) ∨
    s.rv < s.index ∧ (∀ i < s.rv, resultAt impl slots masks i = .processes) ∧
      resultAt impl slots masks s.rv ≠ .processes
  wasDel : (s.wasDel = none ∧ ∀ i < count, resultAt impl slots masks i ≠ .dead) ∨
    ∃ first, s.wasDel = some first ∧ first < count ∧
      resultAt impl slots masks first = .dead ∧
      ∀ i < first, resultAt impl slots masks i ≠ .dead
  dead : s.dead = ((List.range count).filter
    fun i => resultAt impl slots masks i = .dead).map slots

theorem visited_start : Visited impl slots masks curNumslots 0 { slots, masks } where
  index := Or.inl rfl
  inside := Nat.zero_le _
  pending := by simp
  returned := by simp
  table := by simp
  left := rfl
  revisited := by simp
  rv := Or.inl ⟨rfl, by simp⟩
  wasDel := Or.inl ⟨rfl, by simp⟩
  dead := rfl

namespace Visited

variable {count : ℕ} {s : Pass P}

theorem process_eq (visited : Visited impl slots masks curNumslots count s)
    (first : s.index = count) : (s.slots s.index).process impl s.masks =
      (slots count).process impl (maskAt impl slots masks count) := by
  rw [visited.table, if_neg (by omega), visited.left, first]

theorem result_eq (visited : Visited impl slots masks curNumslots count s)
    (first : s.index = count) : ((s.slots s.index).process impl s.masks).1 =
      resultAt impl slots masks count := by
  rw [visited.process_eq first, resultAt]

/-- The index to be returned, once `process` has returned a result for the slot at hand. -/
theorem next_rv (visited : Visited impl slots masks curNumslots count s)
    (bound : curNumslots ≤ maximumSlots) {idle : Prop} [Decidable idle]
    (result : idle ↔ resultAt impl slots masks s.index ≠ .processes) :
    let rv := if maximumSlots < s.rv ∧ idle then s.index else s.rv
    (rv = maximumSlots + 1 ∧ ∀ i < s.index + 1, resultAt impl slots masks i = .processes) ∨
      rv < s.index + 1 ∧ (∀ i < rv, resultAt impl slots masks i = .processes) ∧
        resultAt impl slots masks rv ≠ .processes := by
  have index := visited.index
  have inside := visited.inside
  rcases visited.rv with ⟨unset, busy⟩ | ⟨before, busy, other⟩
  · by_cases stands : idle
    · rw [if_pos ⟨by omega, stands⟩]
      exact Or.inr ⟨Nat.lt_succ_self _, busy, result.mp stands⟩
    · rw [if_neg fun both => stands both.2]
      exact Or.inl ⟨unset, Nat.forall_lt_succ_right.mpr
        ⟨busy, not_not.mp fun other => stands (result.mpr other)⟩⟩
  · rw [if_neg fun both => by omega]
    exact Or.inr ⟨Nat.lt_succ_of_lt before, busy, other⟩

/-- A slot dies: it is cleared, and is the next one to be processed. -/
theorem dies (visited : Visited impl slots masks curNumslots count s)
    (first : s.index = count) (more : count < curNumslots) (pending : s.masks.isEmpty = false)
    (dead : resultAt impl slots masks count = .dead) :
    Visited impl slots masks curNumslots (count + 1)
      { s with
        slots := Function.update s.slots s.index {}
        masks := ((s.slots s.index).process impl s.masks).2.2
        wasDel := s.wasDel <|> some s.index
        dead := s.dead ++ [s.slots s.index] } where
  index := Or.inr ⟨by dsimp only; omega, first ▸ dead⟩
  inside := more
  pending := Nat.forall_lt_succ_right.mpr ⟨visited.pending, visited.left ▸ pending⟩
  returned := Nat.forall_lt_succ_right.mpr ⟨visited.returned, by simp [dead]⟩
  table i := by
    have table := visited.table i
    have cleared : slotAt impl slots masks count = {} := by rw [slotAt, if_pos dead]
    simp only [Function.update_apply, first]
    grind
  left := by
    rw [visited.process_eq first]
    rfl
  revisited := visited.revisited
  rv := visited.rv
  wasDel := by
    right
    rcases visited.wasDel with ⟨none, alive⟩ | ⟨del, some, inside, died, alive⟩
    · exact ⟨count, by simp [none, first], Nat.lt_succ_self count, dead, alive⟩
    · exact ⟨del, by simp [some], Nat.lt_succ_of_lt inside, died, alive⟩
  dead := by
    have same : s.slots s.index = slots count := by rw [visited.table, first, if_neg (by omega)]
    simp [visited.dead, same, List.range_succ, dead]

theorem livesOn (visited : Visited impl slots masks curNumslots count s)
    (first : s.index = count) (more : count < curNumslots) (bound : curNumslots ≤ maximumSlots)
    (pending : s.masks.isEmpty = false) {result : ProcessResult}
    (same : resultAt impl slots masks count = result) (goesOn : result.stops = false) :
    Visited impl slots masks curNumslots (count + 1)
      { s with
        slots := Function.update s.slots s.index ((s.slots s.index).process impl s.masks).2.1
        masks := ((s.slots s.index).process impl s.masks).2.2
        index := s.index + 1
        rv := if maximumSlots < s.rv ∧ result = .skipped then s.index else s.rv } := by
  have alive : resultAt impl slots masks count ≠ .dead := by
    rintro dead
    rw [same] at dead
    simp [dead, ProcessResult.stops] at goesOn
  have returns : resultAt impl slots masks count ≠ .unwound := by
    rintro unwound
    rw [same] at unwound
    simp [unwound, ProcessResult.stops] at goesOn
  refine ⟨Or.inl (congrArg Nat.succ first), more,
    Nat.forall_lt_succ_right.mpr ⟨visited.pending, visited.left ▸ pending⟩,
    Nat.forall_lt_succ_right.mpr ⟨visited.returned, returns⟩, fun i => ?_, ?_, ?_, ?_, ?_, ?_⟩
  · have table := visited.table i
    have kept : slotAt impl slots masks count =
        ((slots count).process impl (maskAt impl slots masks count)).2.1 := by
      rw [slotAt, if_neg alive]
    rw [visited.process_eq first]
    simp only [Function.update_apply, first]
    grind
  · rw [visited.process_eq first]
    rfl
  · rw [first]
    exact Nat.forall_lt_succ_right.mpr
      ⟨first ▸ visited.revisited, fun dead => absurd dead alive⟩
  · refine visited.next_rv bound ?_
    rw [first, same]
    cases result with
    | processes => simp
    | skipped => simp
    | dead => cases goesOn
    | unwound => cases goesOn
  · rcases visited.wasDel with ⟨none, before⟩ | ⟨del, some, inside, rest⟩
    · exact Or.inl ⟨none, Nat.forall_lt_succ_right.mpr ⟨before, alive⟩⟩
    · exact Or.inr ⟨del, some, Nat.lt_succ_of_lt inside, rest⟩
  · simp [visited.dead, List.range_succ, alive]

/-- A slot that has died is skipped when it is processed again. -/
theorem skips (visited : Visited impl slots masks curNumslots count s)
    (again : s.index + 1 = count) (bound : curNumslots ≤ maximumSlots)
    (dead : resultAt impl slots masks s.index = .dead)
    (pending : s.masks.isEmpty = false) :
    (s.slots s.index).process impl s.masks = (.skipped, {}, s.masks) ∧
    Visited impl slots masks curNumslots count
      { s with
        slots := Function.update s.slots s.index {}
        index := s.index + 1
        rv := if maximumSlots < s.rv ∧ ProcessResult.skipped = .skipped then s.index
          else s.rv } := by
  have cleared : s.slots s.index = {} := by
    rw [visited.table, if_pos (by omega), slotAt, if_pos dead]
  refine ⟨by rw [cleared]; rfl, Or.inl again, visited.inside, visited.pending,
    visited.returned, ?_, visited.left, ?_, ?_, visited.wasDel, visited.dead⟩
  · rw [← cleared, Function.update_eq_self]
    exact visited.table
  · refine Nat.forall_lt_succ_right.mpr ⟨visited.revisited, fun _ => ?_⟩
    rw [again, ← visited.left]
    exact pending
  · exact visited.next_rv bound (by simp [dead])

/-- The loop goes on as long as there are bits and slots. -/
theorem processSlots_step (visited : Visited impl slots masks curNumslots count s)
    (bound : curNumslots ≤ maximumSlots) (fuel : ℕ)
    (more : s.index < curNumslots ∧ s.masks.isEmpty = false) :
    (resultAt impl slots masks s.index = .unwound ∧
      processSlots impl curNumslots (fuel + 1) s = none) ∨
    ∃ next count', processSlots impl curNumslots (fuel + 1) s =
        processSlots impl curNumslots fuel next ∧
      Visited impl slots masks curNumslots count' next ∧
      2 * s.index + (count - s.index) < 2 * next.index + (count' - next.index) := by
  rcases visited.index with first | ⟨again, dead⟩
  · have result := visited.result_eq first
    cases same : resultAt impl slots masks count with
    | dead =>
        right
        have next := visited.dies first (by omega) more.2 same
        rw [processSlots, if_pos more]
        simp only [result.trans same]
        exact ⟨_, count + 1, rfl, next, by dsimp only; omega⟩
    | unwound =>
        left
        rw [processSlots, if_pos more]
        simp only [result.trans same]
        exact ⟨first ▸ same, trivial⟩
    | processes =>
        right
        have next := visited.livesOn first (by omega) bound more.2 same rfl
        rw [processSlots, if_pos more]
        simp only [result.trans same]
        exact ⟨_, count + 1, rfl, next, by dsimp only; omega⟩
    | skipped =>
        right
        have next := visited.livesOn first (by omega) bound more.2 same rfl
        rw [processSlots, if_pos more]
        simp only [result.trans same, and_true] at next ⊢
        exact ⟨_, count + 1, rfl, next, by dsimp only; omega⟩
  · right
    rcases visited.skips again bound dead more.2 with ⟨skipped, next⟩
    rw [processSlots, if_pos more]
    simp only [skipped, and_true] at next ⊢
    exact ⟨_, count, rfl, next, by dsimp only; omega⟩

theorem processSlots_eq (bound : curNumslots ≤ maximumSlots) {fuel : ℕ} {last : Pass P}
    (visited : Visited impl slots masks curNumslots count s)
    (done : processSlots impl curNumslots fuel s = some last) :
    ∃ count', Visited impl slots masks curNumslots count' last ∧
      ¬(last.index < curNumslots ∧ last.masks.isEmpty = false) := by
  induction fuel generalizing s count with
  | zero => cases done
  | succ fuel ih =>
      by_cases more : s.index < curNumslots ∧ s.masks.isEmpty = false
      · rcases visited.processSlots_step bound fuel more with
          ⟨-, none⟩ | ⟨next, count', same, next', -⟩
        · rw [none] at done
          cases done
        · exact ih next' (same ▸ done)
      · rw [processSlots, if_neg more] at done
        cases done
        exact ⟨count, visited, more⟩

/-- The loop comes to an end, unless a pipe throws or does not return. -/
theorem processSlots_isSome (bound : curNumslots ≤ maximumSlots) {fuel : ℕ}
    (returns : ∀ i < curNumslots, resultAt impl slots masks i ≠ .unwound)
    (visited : Visited impl slots masks curNumslots count s)
    (enough : 2 * curNumslots < fuel + (2 * s.index + (count - s.index))) :
    (processSlots impl curNumslots fuel s).isSome := by
  induction fuel generalizing s count with
  | zero =>
      have index := visited.index
      have inside := visited.inside
      omega
  | succ fuel ih =>
      by_cases more : s.index < curNumslots ∧ s.masks.isEmpty = false
      · rcases visited.processSlots_step bound fuel more with
          ⟨unwound, -⟩ | ⟨next, count', same, next', further⟩
        · exact absurd unwound (returns _ more.1)
        · rw [same]
          exact ih next' (by omega)
      · rw [processSlots, if_neg more]
        rfl

end Visited

end Pass

end Imconee.Handlers
