import Mathlib.Algebra.Group.Nat.Defs
import Mathlib.Data.List.Basic
import Mathlib.Tactic.Common

/-!
# A buffer that is filled again

A generator hands its items out in batches; requests are served from the batch at hand, and
what one request leaves of it waits for the next. What is still to come is a sequence, each
request takes the front of it, and neither the size of the batches nor the cut of the
requests shows.
-/

set_option autoImplicit false

namespace Imconee.Lib

variable {σ α ι β : Type*}

/-- The first items of a sequence. -/
def firsts (ahead : ℕ → α) (count : ℕ) : List α := (List.range count).map ahead

@[simp]
theorem length_firsts (ahead : ℕ → α) (count : ℕ) : (firsts ahead count).length = count := by
  simp [firsts]

theorem firsts_add (ahead : ℕ → α) (first second : ℕ) :
    firsts ahead (first + second) =
      firsts ahead first ++ firsts (fun index => ahead (first + index)) second := by
  simp [firsts, List.range_add, Function.comp_def]

theorem firsts_succ (ahead : ℕ → α) (count : ℕ) :
    firsts ahead (count + 1) = ahead 0 :: firsts (fun index => ahead (index + 1)) count := by
  simp [firsts, List.range_succ_eq_map, Function.comp_def]

theorem firsts_congr {left right : ℕ → α} {count : ℕ}
    (same : ∀ index, index < count → left index = right index) :
    firsts left count = firsts right count := by
  apply List.map_congr_left
  intro index mem
  exact same index (List.mem_range.mp mem)

theorem take_firsts (ahead : ℕ → α) {count total : ℕ} (le : count ≤ total) :
    (firsts ahead total).take count = firsts ahead count := by
  rcases Nat.exists_eq_add_of_le le with ⟨rest, rfl⟩
  rw [firsts_add, List.take_left' (length_firsts ahead count)]

theorem zipWith_firsts (mix : ι → α → β) (items : List ι) (ahead : ℕ → α) {count : ℕ}
    (enough : items.length ≤ count) :
    List.zipWith mix items (firsts ahead count) =
      List.zipWith mix items (firsts ahead items.length) := by
  rcases Nat.exists_eq_add_of_le enough with ⟨rest, rfl⟩
  have cut : List.zipWith mix (items ++ [])
      (firsts ahead items.length ++ firsts (fun index => ahead (items.length + index)) rest) =
        _ ++ List.zipWith mix [] _ :=
    List.zipWith_append (length_firsts ahead items.length).symm
  rwa [List.append_nil, ← firsts_add, List.zipWith_nil_left, List.append_nil] at cut

/-- `ahead state` is all that a generator hands out from `state` on, in batches of `size`. -/
structure Produces (refill : σ → List α × σ) (size : ℕ) (ahead : σ → ℕ → α) : Prop where
  batch : ∀ state, (refill state).1 = firsts (ahead state) size
  rest : ∀ state index, ahead (refill state).2 index = ahead state (size + index)

/-- A batch of the first generator and then one of the second -/
def followed (first second : σ → List α × σ) (state : σ) : List α × σ :=
  ((first state).1 ++ (second (first state).2).1, (second (first state).2).2)

/-- Batches one after another -/
def batches (refill : σ → List α × σ) : ℕ → σ → List α × σ
  | 0 => fun state => ([], state)
  | count + 1 => followed refill (batches refill count)

theorem batches_add (refill : σ → List α × σ) (first second : ℕ) :
    followed (batches refill first) (batches refill second) = batches refill (first + second) := by
  induction first with
  | zero => rw [Nat.zero_add]; rfl
  | succ first ih =>
      rw [Nat.succ_add, batches, batches, ← ih]
      funext state
      simp only [followed, List.append_assoc]

/-- Batches of batches -/
theorem batches_batches (refill : σ → List α × σ) (width count : ℕ) :
    batches (batches refill width) count = batches refill (width * count) := by
  induction count with
  | zero => rfl
  | succ count ih => rw [batches, ih, batches_add, Nat.mul_succ, Nat.add_comm]

namespace Produces

variable {refill first second : σ → List α × σ} {size firstSize secondSize : ℕ}
  {ahead : σ → ℕ → α}

theorem nothing (ahead : σ → ℕ → α) : Produces (fun state => ([], state)) 0 ahead := by
  constructor <;> simp [firsts]

theorem followed (before : Produces first firstSize ahead)
    (after : Produces second secondSize ahead) :
    Produces (followed first second) (firstSize + secondSize) ahead := by
  constructor
  · intro state
    rw [Lib.followed, firsts_add, before.batch, after.batch,
      firsts_congr fun index _ => before.rest state index]
  · intro state index
    rw [Lib.followed, after.rest, before.rest, Nat.add_assoc]

theorem batches (produces : Produces refill size ahead) (count : ℕ) :
    Produces (batches refill count) (count * size) ahead := by
  induction count with
  | zero => rw [Nat.zero_mul]; exact nothing ahead
  | succ count ih =>
      have total : (count + 1) * size = size + count * size := by
        rw [Nat.succ_mul, Nat.add_comm]
      rw [total]
      exact produces.followed ih

end Produces

/-- A generator and what is left of its last batch. -/
structure Buffered (σ α : Type*) where
  state : σ
  buffer : List α
  position : ℕ
  within : position < buffer.length

namespace Buffered

def available (source : Buffered σ α) : ℕ := source.buffer.length - source.position

theorem available_pos (source : Buffered σ α) : 0 < source.available :=
  Nat.sub_pos_of_lt source.within

/-- What is left of the batch, and behind it what the generator still has. -/
def ahead (future : σ → ℕ → α) (source : Buffered σ α) (index : ℕ) : α :=
  (source.buffer.drop source.position)[index]?.getD
    (future source.state (index - source.available))

variable {refill : σ → List α × σ} {size : ℕ} {future : σ → ℕ → α}

/-- A fresh batch -/
def filled (filling : ∀ state, 0 < (refill state).1.length) (state : σ) : Buffered σ α where
  state := (refill state).2
  buffer := (refill state).1
  position := 0
  within := filling state

@[simp]
theorem available_filled (filling : ∀ state, 0 < (refill state).1.length) (state : σ) :
    (filled filling state).available = (refill state).1.length := rfl

/-- Serves a request: as long as it reaches the end of the batch, the rest of the batch goes
into it and the next batch comes. -/
def draw (filling : ∀ state, 0 < (refill state).1.length) (mix : ι → α → β)
    (items : List ι) (source : Buffered σ α) : List β × Buffered σ α :=
  let left := source.buffer.drop source.position
  if fits : source.available ≤ items.length then
    let others := draw filling mix (items.drop source.available) (filled filling source.state)
    (List.zipWith mix (items.take source.available) left ++ others.1, others.2)
  else
    (List.zipWith mix items left,
      { source with
        position := source.position + items.length
        within := Nat.add_lt_of_lt_sub' (Nat.lt_of_not_le fits) })
termination_by items.length
decreasing_by
  have positive := source.available_pos
  rw [List.length_drop]
  omega

theorem ahead_of_lt (future : σ → ℕ → α) (source : Buffered σ α) {index : ℕ}
    (near : index < source.available) :
    some (source.ahead future index) = (source.buffer.drop source.position)[index]? := by
  have inside : index < (source.buffer.drop source.position).length := by
    rwa [List.length_drop]
  rw [ahead, List.getElem?_eq_getElem inside, Option.getD_some]

theorem ahead_of_le (source : Buffered σ α) {index : ℕ} (far : source.available ≤ index) :
    source.ahead future index = future source.state (index - source.available) := by
  have outside : (source.buffer.drop source.position).length ≤ index := by
    rwa [List.length_drop]
  rw [ahead, List.getElem?_eq_none outside, Option.getD_none]

/-- The rest of the batch is the front of what is ahead. -/
theorem drop_eq_firsts (future : σ → ℕ → α) (source : Buffered σ α) :
    source.buffer.drop source.position = firsts (source.ahead future) source.available := by
  apply List.ext_getElem?
  intro index
  by_cases near : index < source.available
  · rw [← ahead_of_lt future source near, firsts, List.getElem?_map,
      List.getElem?_range near, Option.map_some]
  · rw [List.getElem?_eq_none, List.getElem?_eq_none] <;> simp [available] at near ⊢ <;> omega

theorem ahead_filled (filling : ∀ state, 0 < (refill state).1.length)
    (produces : Produces refill size future) (state : σ) :
    (filled filling state).ahead future = future state := by
  funext index
  have batch := produces.batch state
  have whole : (refill state).1.length = size := by rw [batch, length_firsts]
  by_cases near : index < size
  · have inside : index < (filled filling state).available := by
      rwa [available_filled, whole]
    have cut := ahead_of_lt future (filled filling state) inside
    apply Option.some.inj
    rw [cut]
    simp [filled, batch, firsts, near]
  · rw [ahead_of_le _ (by rw [available_filled, whole]; omega), available_filled, whole]
    calc
      future (refill state).2 (index - size) = future state (size + (index - size)) :=
        produces.rest state (index - size)
      _ = future state index := by rw [Nat.add_sub_of_le (by omega)]

/-- What is ahead behind a request that stays within the batch. -/
theorem ahead_advance (source : Buffered σ α) {count : ℕ}
    (within : source.position + count < source.buffer.length) (index : ℕ) :
    ahead future { source with position := source.position + count, within := within } index =
      source.ahead future (count + index) := by
  have left : source.available - count = source.buffer.length - (source.position + count) := by
    rw [available, Nat.sub_sub]
  simp only [ahead, ← List.drop_drop, List.getElem?_drop]
  congr 2
  rw [available, ← left, available]
  omega

/-- What a request gets and what it leaves. -/
theorem draw_spec (filling : ∀ state, 0 < (refill state).1.length)
    (produces : Produces refill size future) (mix : ι → α → β) (items : List ι)
    (source : Buffered σ α) :
    (draw filling mix items source).1 =
        List.zipWith mix items (firsts (source.ahead future) items.length) ∧
      ∀ index, (draw filling mix items source).2.ahead future index =
        source.ahead future (items.length + index) := by
  induction count : items.length using Nat.strongRecOn generalizing items source with
  | _ count ih =>
      subst count
      rw [draw]
      by_cases fits : source.available ≤ items.length
      · have positive := source.available_pos
        have reach : source.available + (items.drop source.available).length = items.length := by
          rw [List.length_drop]
          omega
        have next : ∀ index, (filled filling source.state).ahead future index =
            source.ahead future (source.available + index) := by
          intro index
          rw [ahead_filled filling produces, ahead_of_le source (by omega),
            Nat.add_sub_cancel_left]
        rcases ih _ (by omega) (items.drop source.available) (filled filling source.state) rfl
          with ⟨got, left⟩
        simp only [dif_pos fits]
        constructor
        · rw [got, drop_eq_firsts future, firsts_congr fun index _ => next index,
            ← List.zipWith_append (by simp [fits]), List.take_append_drop, ← firsts_add, reach]
        · intro index
          rw [left, next, ← Nat.add_assoc, reach]
      · simp only [dif_neg fits]
        constructor
        · rw [drop_eq_firsts future, zipWith_firsts mix items _ (by omega)]
        · exact ahead_advance source _

end Buffered

end Imconee.Lib
