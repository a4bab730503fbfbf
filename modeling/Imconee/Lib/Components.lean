import Mathlib.Data.List.Basic
import Mathlib.Tactic.Common

/-!
# Paths as lists of components

A path is read into its normal form from the left, by a stack that a step up pops. It can also be
cleaned from the right, where a component meets the part behind it that is clean already. Both
give the same normal form, and only a path whose components cancel out is cleaned to nothing.
-/

set_option autoImplicit false

namespace Imconee.Lib

universe u

/-- The components that stand for something else than a name -/
structure Marks (σ : Type u) where
  blank : σ
  here : σ
  up : σ
  here_ne_blank : here ≠ blank
  up_ne_blank : up ≠ blank
  up_ne_here : up ≠ here

namespace Marks

variable {σ : Type u} [DecidableEq σ] (marks : Marks σ)

/-- A component that is the name of something -/
def Named (segment : σ) : Prop :=
  segment ≠ marks.blank ∧ segment ≠ marks.here ∧ segment ≠ marks.up

/-! ### The normal form -/

/-- The names passed so far, the last one first, after one more component -/
def advance (absolute : Bool) (stack : List σ) (segment : σ) : List σ :=
  if segment = marks.blank ∨ segment = marks.here then stack
  else if segment = marks.up then
    match stack with
    | [] => if absolute then [] else [marks.up]
    | top :: below => if top = marks.up then marks.up :: top :: below else below
  else segment :: stack

/-- The lexical normal form of a path -/
def normal (absolute : Bool) (segments : List σ) : List σ :=
  (segments.foldl (marks.advance absolute) []).reverse

/-! ### Cleaning from the right -/

/-- A component put before a clean path. A blank one stays only at the end. -/
def push (segment : σ) (tail : List σ) : List σ :=
  if segment = marks.blank then
    if tail = [] then [segment] else tail
  else if segment = marks.here then tail
  else if segment ≠ marks.up ∧ tail.head? = some marks.up then tail.tail
  else segment :: tail

def clean (segments : List σ) : List σ := segments.foldr marks.push []

/-- The first component of a path put before the rest, which is clean. A blank one is the root. -/
def front (segment : σ) (tail : List σ) : Option (List σ) :=
  if segment = marks.blank then some (segment :: tail)
  else if marks.push segment tail = [] then none
  else some (marks.push segment tail)

/-- A clean path: `here` is nowhere, a blank only at the end, and no name before a step up. -/
def Clean : List σ → Prop
  | [] => True
  | segment :: tail =>
      segment ≠ marks.here ∧ (segment = marks.blank → tail = []) ∧
        (marks.Named segment → tail.head? ≠ some marks.up) ∧ Clean tail

/--
Read from the right, with so many steps up to be undone, the components cancel out: a name undoes
a step up, and a blank component is ignored only where a step up is left.
-/
def Cancels : ℕ → List σ → Prop
  | pending, [] => pending = 0
  | 0, segment :: left =>
      segment ≠ marks.blank ∧
        if segment = marks.here then Cancels 0 left
        else segment = marks.up ∧ Cancels 1 left
  | pending + 1, segment :: left =>
      if segment = marks.blank ∨ segment = marks.here then Cancels (pending + 1) left
      else if segment = marks.up then Cancels (pending + 2) left
      else Cancels pending left

/-- The components of a path, after the root if it has one, cancel out. -/
def Vanishes (segment : σ) (rest : List σ) : Prop :=
  if segment = marks.blank then marks.Cancels 0 rest.reverse
  else marks.Cancels 0 (segment :: rest).reverse

instance decidableCancels : (pending : ℕ) → (left : List σ) → Decidable (marks.Cancels pending left)
  | pending, [] => inferInstanceAs (Decidable (pending = 0))
  | 0, segment :: left =>
      have := decidableCancels 0 left
      have := decidableCancels 1 left
      inferInstanceAs (Decidable (segment ≠ marks.blank ∧
        if segment = marks.here then marks.Cancels 0 left
        else segment = marks.up ∧ marks.Cancels 1 left))
  | pending + 1, segment :: left =>
      have := decidableCancels (pending + 1) left
      have := decidableCancels (pending + 2) left
      have := decidableCancels pending left
      inferInstanceAs (Decidable (if segment = marks.blank ∨ segment = marks.here then
        marks.Cancels (pending + 1) left
        else if segment = marks.up then marks.Cancels (pending + 2) left
        else marks.Cancels pending left))

instance (segment : σ) (rest : List σ) : Decidable (marks.Vanishes segment rest) :=
  inferInstanceAs (Decidable (if segment = marks.blank then marks.Cancels 0 rest.reverse
    else marks.Cancels 0 (segment :: rest).reverse))

/-! ### The cases of a component -/

variable {marks}

omit [DecidableEq σ] in
theorem cases_segment (marks : Marks σ) (segment : σ) :
    segment = marks.blank ∨ segment = marks.here ∨ segment = marks.up ∨ marks.Named segment := by
  simp only [Named]
  tauto

@[simp]
theorem push_here (tail : List σ) : marks.push marks.here tail = tail := by
  simp [push, marks.here_ne_blank]

@[simp]
theorem push_up (tail : List σ) : marks.push marks.up tail = marks.up :: tail := by
  simp [push, marks.up_ne_blank, marks.up_ne_here]

@[simp]
theorem push_blank_nil : marks.push marks.blank [] = [marks.blank] := by
  simp [push]

theorem push_blank {tail : List σ} (some : tail ≠ []) : marks.push marks.blank tail = tail := by
  simp [push, some]

theorem push_name_up {segment : σ} (named : marks.Named segment) (tail : List σ) :
    marks.push segment (marks.up :: tail) = tail := by
  rcases named with ⟨not_blank, not_here, not_up⟩
  simp [push, not_blank, not_here, not_up]

theorem push_name {segment : σ} (named : marks.Named segment) {tail : List σ}
    (other : tail.head? ≠ some marks.up) : marks.push segment tail = segment :: tail := by
  rcases named with ⟨not_blank, not_here, not_up⟩
  simp [push, not_blank, not_here, other]

/-- Cleaning makes up no component. -/
theorem mem_push {segment other : σ} {tail : List σ} (inside : other ∈ marks.push segment tail) :
    other = segment ∨ other ∈ tail := by
  simp only [push] at inside
  split_ifs at inside
  · exact Or.inl (by simpa using inside)
  · exact Or.inr inside
  · exact Or.inr inside
  · exact Or.inr (List.mem_of_mem_tail inside)
  · simpa using inside

theorem mem_clean {other : σ} {segments : List σ} (inside : other ∈ marks.clean segments) :
    other ∈ segments := by
  induction segments with
  | nil => exact inside
  | cons segment segments ih =>
      rcases mem_push inside with rfl | behind
      · simp
      · simp [ih behind]

theorem mem_front {segment other : σ} {rest whole : List σ}
    (kept : marks.front segment (marks.clean rest) = some whole) (inside : other ∈ whole) :
    other ∈ segment :: rest := by
  have pushed : other = segment ∨ other ∈ marks.clean rest := by
    simp only [front] at kept
    split_ifs at kept
    · simp only [Option.some.injEq] at kept
      simpa [← kept] using inside
    · simp only [Option.some.injEq] at kept
      rw [← kept] at inside
      exact mem_push inside
  rcases pushed with rfl | behind
  · simp
  · simp [mem_clean behind]

/-! ### The normal form stays -/

theorem advance_push (absolute : Bool) (stack : List σ) (segment : σ) (tail : List σ) :
    (marks.push segment tail).foldl (marks.advance absolute) stack =
      (segment :: tail).foldl (marks.advance absolute) stack := by
  rcases cases_segment marks segment with rfl | rfl | rfl | named
  · rcases eq_or_ne tail [] with rfl | nonempty
    · simp
    · simp [push_blank nonempty, advance]
  · simp [advance]
  · simp
  · by_cases other : tail.head? = some marks.up
    · obtain ⟨behind, rfl⟩ : ∃ behind, tail = marks.up :: behind := by
        rcases tail with _ | ⟨first, behind⟩
        · simp at other
        · exact ⟨behind, by simpa using other⟩
      rcases named with ⟨not_blank, not_here, not_up⟩
      simp [push, advance, not_blank, not_here, not_up, marks.up_ne_blank, marks.up_ne_here]
    · simp [push_name named other]

/-- Cleaning keeps the normal form, whatever stands before the path. -/
theorem advance_clean (absolute : Bool) (segments : List σ) (stack : List σ) :
    (marks.clean segments).foldl (marks.advance absolute) stack =
      segments.foldl (marks.advance absolute) stack := by
  induction segments generalizing stack with
  | nil => rfl
  | cons segment segments ih =>
      calc
        (marks.clean (segment :: segments)).foldl (marks.advance absolute) stack
            = (segment :: marks.clean segments).foldl (marks.advance absolute) stack :=
          advance_push ..
        _ = (segment :: segments).foldl (marks.advance absolute) stack := ih _

theorem normal_front {absolute : Bool} {segment : σ} {rest whole : List σ}
    (kept : marks.front segment (marks.clean rest) = some whole) :
    marks.normal absolute whole = marks.normal absolute (segment :: rest) := by
  have cleaned : (segment :: marks.clean rest).foldl (marks.advance absolute) [] =
      (segment :: rest).foldl (marks.advance absolute) [] := advance_clean absolute rest _
  simp only [front] at kept
  split_ifs at kept with root nothing
  · simp only [Option.some.injEq] at kept
    simp only [normal, ← kept, cleaned]
  · simp only [Option.some.injEq] at kept
    simp only [normal, ← kept, advance_push, cleaned]

/-! ### A clean path stays -/

omit [DecidableEq σ] in
theorem clean_tail {tail : List σ} (clean : marks.Clean tail) : marks.Clean tail.tail := by
  rcases tail with _ | ⟨first, behind⟩
  · trivial
  · exact clean.2.2.2

theorem clean_push (segment : σ) {tail : List σ} (clean : marks.Clean tail) :
    marks.Clean (marks.push segment tail) := by
  rcases cases_segment marks segment with rfl | rfl | rfl | named
  · rcases eq_or_ne tail [] with rfl | nonempty
    · simp [Clean, Named, Ne.symm marks.here_ne_blank]
    · simpa [push_blank nonempty] using clean
  · simpa using clean
  · simpa [Clean, Named, marks.up_ne_blank, marks.up_ne_here] using clean
  · by_cases other : tail.head? = some marks.up
    · rcases tail with _ | ⟨first, behind⟩
      · simp at other
      · have first_up : first = marks.up := by simpa using other
        simpa [first_up, push_name_up named] using clean_tail clean
    · simpa [push_name named other, Clean, named.1, named.2.1, other] using clean

theorem clean_clean (segments : List σ) : marks.Clean (marks.clean segments) := by
  induction segments with
  | nil => trivial
  | cons segment segments ih => exact clean_push segment ih

theorem push_of_clean {segment : σ} {tail : List σ} (clean : marks.Clean (segment :: tail)) :
    marks.push segment tail = segment :: tail := by
  rcases clean with ⟨not_here, alone, other, -⟩
  rcases cases_segment marks segment with rfl | rfl | rfl | named
  · simp [alone rfl]
  · exact absurd rfl not_here
  · simp
  · exact push_name named (other named)

theorem clean_of_clean {segments : List σ} (clean : marks.Clean segments) :
    marks.clean segments = segments := by
  induction segments with
  | nil => rfl
  | cons segment segments ih =>
      have rest : marks.clean segments = segments := ih clean.2.2.2
      calc
        marks.clean (segment :: segments) = marks.push segment (marks.clean segments) := rfl
        _ = segment :: segments := by rw [rest, push_of_clean clean]

/-- A path that has been cleaned is not changed by being cleaned. -/
theorem front_again {segment : σ} {rest whole : List σ}
    (kept : marks.front segment (marks.clean rest) = some whole) :
    ∃ first behind, whole = first :: behind ∧
      marks.front first (marks.clean behind) = some whole := by
  have rest_clean : marks.Clean (marks.clean rest) := clean_clean rest
  simp only [front] at kept
  split_ifs at kept with root nothing
  · simp only [Option.some.injEq] at kept
    exact ⟨segment, marks.clean rest, kept.symm, by
      simp [front, root, ← kept, clean_of_clean rest_clean]⟩
  · simp only [Option.some.injEq] at kept
    have whole_clean : marks.Clean whole := by
      rw [← kept]
      exact clean_push segment rest_clean
    rcases whole with _ | ⟨first, behind⟩
    · exact absurd kept nothing
    · refine ⟨first, behind, rfl, ?_⟩
      simp only [front, clean_of_clean whole_clean.2.2.2, push_of_clean whole_clean]
      simp

/-! ### What is cleaned to nothing -/

/-- The last component is not a step up, and no component to the left of it takes it away. -/
def Stuck (tail : List σ) : Prop := ∃ last ∈ tail.getLast?, last ≠ marks.up

theorem stuck_push {segment : σ} {tail : List σ} (stuck : marks.Stuck tail) :
    marks.Stuck (marks.push segment tail) := by
  rcases stuck with ⟨last, ends, not_up⟩
  have nonempty : tail ≠ [] := by
    rintro rfl
    simp at ends
  have before (segment : σ) : marks.Stuck (segment :: tail) :=
    ⟨last, by simp [List.getLast?_cons, Option.mem_def.mp ends], not_up⟩
  rcases cases_segment marks segment with rfl | rfl | rfl | named
  · simpa [push_blank nonempty] using ⟨last, ends, not_up⟩
  · simpa using ⟨last, ends, not_up⟩
  · simpa using before marks.up
  · by_cases other : tail.head? = some marks.up
    · rcases tail with _ | ⟨first, behind⟩
      · simp at other
      · have first_up : first = marks.up := by simpa using other
        subst first_up
        rcases behind with _ | ⟨second, behind⟩
        · exact absurd (by simpa using ends.symm) not_up
        · simpa [push_name_up named] using ⟨last, by simpa using ends, not_up⟩
    · simpa [push_name named other] using before segment

theorem stuck_foldl {left tail : List σ} (stuck : marks.Stuck tail) :
    left.foldl (fun tail segment => marks.push segment tail) tail ≠ [] := by
  induction left generalizing tail with
  | nil =>
      rcases stuck with ⟨last, ends, -⟩
      rintro rfl
      simp at ends
  | cons segment left ih => exact ih (stuck_push stuck)

/-- Only steps up can be undone, so what is left of them is all there is. -/
theorem foldl_eq_nil_iff (pending : ℕ) (left : List σ) :
    left.foldl (fun tail segment => marks.push segment tail) (List.replicate pending marks.up) =
      [] ↔ marks.Cancels pending left := by
  induction left generalizing pending with
  | nil => cases pending <;> simp [Cancels]
  | cons segment left ih =>
      rcases pending with _ | pending
      · rcases cases_segment marks segment with rfl | rfl | rfl | named
        · have stuck : marks.Stuck [marks.blank] := ⟨marks.blank, by simp, marks.up_ne_blank.symm⟩
          simpa [Cancels] using stuck_foldl stuck
        · simpa [Cancels, marks.here_ne_blank] using ih 0
        · simpa [Cancels, marks.up_ne_blank, marks.up_ne_here] using ih 1
        · have stuck : marks.Stuck [segment] := ⟨segment, by simp, named.2.2⟩
          have alone : marks.push segment [] = [segment] := push_name named (by simp)
          simpa [Cancels, alone, named.1, named.2.1, named.2.2] using stuck_foldl stuck
      · have nonempty : List.replicate (pending + 1) marks.up ≠ [] := by simp
        rcases cases_segment marks segment with rfl | rfl | rfl | named
        · simpa [Cancels, push_blank nonempty] using ih (pending + 1)
        · simpa [Cancels] using ih (pending + 1)
        · simpa [Cancels, marks.up_ne_blank, marks.up_ne_here, List.replicate_succ]
            using ih (pending + 2)
        · simpa [Cancels, List.replicate_succ, push_name_up named, named.1, named.2.1, named.2.2]
            using ih pending

theorem clean_eq_nil_iff (segments : List σ) :
    marks.clean segments = [] ↔ marks.Cancels 0 segments.reverse := by
  have turned : segments.reverse.foldl (fun tail segment => marks.push segment tail) [] =
      marks.clean segments := by
    simp [clean]
  rw [← turned]
  exact foldl_eq_nil_iff 0 segments.reverse

/-- Nothing is left of a path, or nothing behind its root, exactly if its components cancel out. -/
theorem vanishes_iff (segment : σ) (rest : List σ) :
    marks.Vanishes segment rest ↔
      ∀ whole, marks.front segment (marks.clean rest) = some whole →
        segment = marks.blank ∧ whole = [segment] := by
  by_cases root : segment = marks.blank
  · simp [Vanishes, front, root, ← clean_eq_nil_iff]
  · have cleaned : marks.clean (segment :: rest) = marks.push segment (marks.clean rest) := rfl
    simp only [Vanishes, root, if_false, ← clean_eq_nil_iff, cleaned, front, false_and]
    split_ifs with nothing
    · simp [nothing]
    · simp [nothing]

end Marks

end Imconee.Lib
