import Mathlib.Data.List.Basic
import Mathlib.Tactic.Common

/-!
# Streams taken in blocks

A stream arrives in pieces of any length and is taken in blocks of one size; what does not
fill a block waits. With `hold = 1` a block also waits while nothing stands behind it, so
that the last one is never taken. How the stream is cut into blocks does not depend on the
pieces, and so neither does what a machine makes of it that is fed with the blocks.
-/

set_option autoImplicit false

namespace Imconee.Lib

universe u v

variable {α : Type u} {σ : Type v} {size hold : ℕ}

/-- How many blocks are taken of so many items -/
def blockCount (size hold length : ℕ) : ℕ := (length - hold) / size

def blocksOf (size hold : ℕ) (items : List α) : List (List α) :=
  (List.range (blockCount size hold items.length)).map fun i => (items.drop (i * size)).take size

def restOf (size hold : ℕ) (items : List α) : List α :=
  items.drop (blockCount size hold items.length * size)

/-- Items cut into blocks and a rest. -/
structure Cut (size hold : ℕ) (items : List α) (blocks : List (List α)) (rest : List α) :
    Prop where
  whole : blocks.flatten ++ rest = items
  full : ∀ block ∈ blocks, block.length = size
  short : rest.length < size + hold
  held : blocks = [] ∨ hold ≤ rest.length

theorem length_flatten_of_full {blocks : List (List α)}
    (full : ∀ block ∈ blocks, block.length = size) :
    blocks.flatten.length = blocks.length * size := by
  induction blocks with
  | nil => simp
  | cons block blocks ih =>
      have first := full block List.mem_cons_self
      have others := ih fun other mem => full other (List.mem_cons_of_mem _ mem)
      rw [List.flatten_cons, List.length_append, first, others, List.length_cons, Nat.succ_mul,
        Nat.add_comm]

theorem eq_of_flatten_append {left right : List (List α)} {leftRest rightRest : List α}
    (leftFull : ∀ block ∈ left, block.length = size)
    (rightFull : ∀ block ∈ right, block.length = size) (count : left.length = right.length)
    (same : left.flatten ++ leftRest = right.flatten ++ rightRest) :
    left = right ∧ leftRest = rightRest := by
  induction left generalizing right with
  | nil =>
      have none := List.length_eq_zero_iff.mp count.symm
      subst none
      exact ⟨rfl, by simpa using same⟩
  | cons block left ih =>
      cases right with
      | nil => simp at count
      | cons other right =>
          simp only [List.flatten_cons, List.append_assoc] at same
          have first : block.length = other.length := by
            rw [leftFull block List.mem_cons_self, rightFull other List.mem_cons_self]
          rcases List.append_inj same first with ⟨rfl, behind⟩
          have others := ih (fun _ mem => leftFull _ (List.mem_cons_of_mem _ mem))
            (fun _ mem => rightFull _ (List.mem_cons_of_mem _ mem)) (by simpa using count) behind
          exact ⟨by rw [others.1], others.2⟩

theorem Cut.count {items : List α} {blocks : List (List α)} {rest : List α} (positive : 0 < size)
    (cut : Cut size hold items blocks rest) :
    blocks.length = blockCount size hold items.length := by
  have total := congrArg List.length cut.whole
  rw [List.length_append, length_flatten_of_full cut.full] at total
  have short := cut.short
  rw [blockCount, ← total]
  rcases cut.held with none | held
  · subst none
    simp only [List.length_nil, Nat.zero_mul, Nat.zero_add]
    exact (Nat.div_eq_of_lt (by omega)).symm
  · have split : blocks.length * size + rest.length - hold =
        (rest.length - hold) + blocks.length * size := by omega
    rw [split, Nat.add_mul_div_right _ _ (by omega), Nat.div_eq_of_lt (by omega), Nat.zero_add]

/-- There is one way to cut. -/
theorem Cut.unique {items : List α} {left right : List (List α)} {leftRest rightRest : List α}
    (positive : 0 < size) (first : Cut size hold items left leftRest)
    (second : Cut size hold items right rightRest) :
    left = right ∧ leftRest = rightRest := by
  apply eq_of_flatten_append first.full second.full
  · rw [first.count positive, second.count positive]
  · rw [first.whole, second.whole]

theorem flatten_range_take (items : List α) (size count : ℕ) (fits : count * size ≤ items.length) :
    ((List.range count).map fun i => (items.drop (i * size)).take size).flatten =
      items.take (count * size) := by
  induction count with
  | zero => simp
  | succ count ih =>
      rw [Nat.succ_mul] at fits
      rw [List.range_succ, List.map_append, List.flatten_append, ih (by omega), Nat.succ_mul,
        List.take_add]
      simp

/-- The computed blocks cut the items. -/
theorem cut_blocksOf (hold : ℕ) (positive : 0 < size) (items : List α) :
    Cut size hold items (blocksOf size hold items) (restOf size hold items) := by
  have fits : blockCount size hold items.length * size ≤ items.length - hold :=
    Nat.div_mul_le_self _ _
  refine ⟨?_, ?_, ?_, ?_⟩
  · rw [blocksOf, restOf, flatten_range_take _ _ _ (by omega), List.take_append_drop]
  · intro block mem
    rw [blocksOf, List.mem_map] at mem
    rcases mem with ⟨i, i_mem, rfl⟩
    rw [List.mem_range] at i_mem
    have inside := Nat.mul_le_mul_right size (Nat.succ_le_of_lt i_mem)
    rw [Nat.succ_mul] at inside
    rw [List.length_take, List.length_drop]
    omega
  · rw [restOf, List.length_drop]
    have below := @Nat.lt_div_mul_add (items.length - hold) _ positive
    rw [blockCount] at *
    omega
  · rcases Nat.eq_zero_or_pos (blockCount size hold items.length) with none | some
    · left
      rw [blocksOf, none]
      rfl
    · right
      have inside := Nat.mul_le_mul_right size (Nat.succ_le_of_lt some)
      rw [Nat.succ_mul] at inside
      rw [restOf, List.length_drop]
      omega

theorem Cut.blocksOf_eq {items : List α} {blocks : List (List α)} {rest : List α}
    (positive : 0 < size) (cut : Cut size hold items blocks rest) :
    blocksOf size hold items = blocks ∧ restOf size hold items = rest :=
  (cut_blocksOf hold positive items).unique positive cut

/-- Blocks may be taken from the front as long as enough stands behind them. -/
theorem Cut.behind {blocks later : List (List α)} {items last : List α}
    (full : ∀ block ∈ blocks, block.length = size) (held : blocks = [] ∨ hold ≤ items.length)
    (cut : Cut size hold items later last) :
    Cut size hold (blocks.flatten ++ items) (blocks ++ later) last := by
  refine ⟨?_, ?_, cut.short, ?_⟩
  · rw [List.flatten_append, List.append_assoc, cut.whole]
  · intro block mem
    rcases List.mem_append.mp mem with mem | mem
    · exact full block mem
    · exact cut.full block mem
  · rcases cut.held with none | last_held
    · subst none
      rcases held with rfl | held
      · exact Or.inl rfl
      · right
        have whole := cut.whole
        rw [List.flatten_nil, List.nil_append] at whole
        rwa [whole]
    · exact Or.inr last_held

theorem cut_short {items : List α} (short : items.length < size + hold) :
    Cut size hold items [] items :=
  ⟨rfl, by simp, short, Or.inl rfl⟩

/-- A machine that takes blocks, with what waits for the next one. -/
structure Absorbed (σ : Type v) (α : Type u) where
  state : σ
  pending : List α

namespace Absorbed

variable (size hold) (compress : σ → List α → σ)

def absorb (self : Absorbed σ α) (input : List α) : Absorbed σ α where
  state := (blocksOf size hold (self.pending ++ input)).foldl compress self.state
  pending := restOf size hold (self.pending ++ input)

variable {size hold} {compress}

theorem absorb_of_cut (positive : 0 < size) {self : Absorbed σ α} {input : List α}
    {blocks : List (List α)} {rest : List α}
    (cut : Cut size hold (self.pending ++ input) blocks rest) :
    self.absorb size hold compress input = ⟨blocks.foldl compress self.state, rest⟩ := by
  rcases cut.blocksOf_eq positive with ⟨taken, left⟩
  rw [absorb, taken, left]

theorem absorb_nil (positive : 0 < size) {self : Absorbed σ α}
    (short : self.pending.length < size + hold) :
    self.absorb size hold compress [] = self := by
  have cut : Cut size hold (self.pending ++ []) [] self.pending := by
    rw [List.append_nil]
    exact cut_short short
  rw [absorb_of_cut positive cut]
  rfl

/-- A machine that has taken blocks from the front goes on with what stands behind them. -/
theorem absorb_of_taken (positive : 0 < size) {self : Absorbed σ α} {input later : List α}
    (blocks : List (List α)) {pending : List α}
    (whole : self.pending ++ input = blocks.flatten ++ (pending ++ later))
    (full : ∀ block ∈ blocks, block.length = size)
    (held : blocks = [] ∨ hold ≤ (pending ++ later).length) :
    self.absorb size hold compress input =
      absorb size hold compress ⟨blocks.foldl compress self.state, pending⟩ later := by
  have cut := (cut_blocksOf hold positive (pending ++ later)).behind full held
  rw [← whole] at cut
  rw [absorb_of_cut positive cut, List.foldl_append]
  rfl

/-- Two pieces are as good as one. -/
theorem absorb_absorb (positive : 0 < size) (self : Absorbed σ α) (first second : List α) :
    (self.absorb size hold compress first).absorb size hold compress second =
      self.absorb size hold compress (first ++ second) := by
  have cut := cut_blocksOf hold positive (self.pending ++ first)
  symm
  apply absorb_of_taken positive (blocksOf size hold (self.pending ++ first))
  · rw [← List.append_assoc, ← List.append_assoc, cut.whole]
  · exact cut.full
  · apply cut.held.imp_right
    intro held
    rw [List.length_append]
    omega

end Absorbed

end Imconee.Lib
