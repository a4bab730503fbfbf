import Imconee.Tools.Strings
import Mathlib.Data.List.DropRight

/-!
# `str::trim`

Both forms of `trim`, with the loops of the source. The one in place leaves the longest part of
a text with no white space at its ends. The one of a view goes back by one character before it
cuts off the front, and so the last of the blanks there stays.
-/

set_option autoImplicit false

namespace Imconee.Str

/-- The loops down to the last character that stays; the place is the one behind it. -/
def rtrimLoop (s : List UInt8) : ℕ → ℕ
  | 0 => 0
  | i + 1 => if isSpace (s.getD i 0) then rtrimLoop s i else i + 1

/-- The loop of the `ltrim` of a view, with so many characters to come -/
def ltrimLoop (s : List UInt8) : ℕ → ℕ → ℕ
  | 0, i => i
  | left + 1, i => if isSpace (s.getD i 0) then ltrimLoop s left (i + 1) else i

/-! ### The forms of `trim` -/

namespace InPlace

/-- `erase` up to what `find_if` finds -/
def ltrim (s : List UInt8) : List UInt8 := s.drop (s.findIdx fun ch => !isSpace ch)

def rtrim (s : List UInt8) : List UInt8 :=
  let i := rtrimLoop s s.length
  if i < s.length then s.take i else s

def trim (s : List UInt8) : List UInt8 := ltrim (rtrim s)

end InPlace

namespace View

def ltrim (s : List UInt8) : List UInt8 :=
  let i : ℤ := ltrimLoop s s.length 0 - 1
  if 0 ≤ i then s.drop i.toNat else s

def rtrim (s : List UInt8) : List UInt8 :=
  let i := rtrimLoop s s.length
  if i < s.length then s.take i else s

def trim (s : List UInt8) : List UInt8 := ltrim (rtrim s)

end View

/-- No white space at the ends -/
def Bare (s : List UInt8) : Prop :=
  (∀ c ∈ s.head?, isSpace c = false) ∧ ∀ c ∈ s.getLast?, isSpace c = false

/-- The longest part of a text that has no white space at its ends: all of them are in it. -/
def Core (s core : List UInt8) : Prop :=
  core <:+: s ∧ Bare core ∧ ∀ part, part <:+: s → Bare part → part <:+: core

/-! ### What the loops do -/

theorem rtrimLoop_append {s : List UInt8} (back : List UInt8) {i : ℕ} (inside : i ≤ s.length) :
    rtrimLoop (s ++ back) i = rtrimLoop s i := by
  induction i with
  | zero => rfl
  | succ i ih =>
      have same : (s ++ back).getD i 0 = s.getD i 0 := by
        simp [List.getD, List.getElem?_append_left (show i < s.length by omega)]
      simp only [rtrimLoop, same, ih (by omega)]

theorem rtrim_eq (s : List UInt8) : InPlace.rtrim s = s.rdropWhile isSpace := by
  induction s using List.reverseRecOn with
  | nil => rfl
  | append_singleton s c ih =>
      have loop : rtrimLoop (s ++ [c]) (s ++ [c]).length =
          if isSpace c then rtrimLoop s s.length else s.length + 1 := by
        simp [rtrimLoop, rtrimLoop_append]
      have most : rtrimLoop s s.length ≤ s.length := by
        generalize s.length = i
        induction i with
        | zero => exact Nat.le_refl 0
        | succ i ih =>
            simp only [rtrimLoop]
            split <;> omega
      simp only [List.rdropWhile_concat, ← ih, InPlace.rtrim, loop]
      split
      · have taken : (s ++ [c]).take (rtrimLoop s s.length) = s.take (rtrimLoop s s.length) :=
          List.take_append_of_le_length most
        simp only [List.length_append, List.length_singleton, taken,
          Nat.lt_succ_of_le most, ↓reduceIte]
        split
        · rfl
        · exact List.take_of_length_le (by omega)
      · simp

theorem ltrimLoop_cons (c : UInt8) (s : List UInt8) (left i : ℕ) :
    ltrimLoop (c :: s) left (i + 1) = ltrimLoop s left i + 1 := by
  induction left generalizing i with
  | zero => rfl
  | succ left ih =>
      simp only [ltrimLoop, List.getD_cons_succ, ih]
      split <;> rfl

theorem ltrimLoop_eq (s : List UInt8) :
    ltrimLoop s s.length 0 = (s.takeWhile isSpace).length := by
  induction s with
  | nil => rfl
  | cons c s ih =>
      simp only [List.length_cons, ltrimLoop, List.getD_cons_zero, ltrimLoop_cons, ih,
        List.takeWhile_cons]
      split <;> rfl

theorem ltrim_eq (s : List UInt8) : InPlace.ltrim s = s.dropWhile isSpace := by
  induction s with
  | nil => rfl
  | cons c s ih =>
      simp only [InPlace.ltrim] at ih
      simp only [InPlace.ltrim, List.findIdx_cons, List.dropWhile_cons, ← ih]
      cases isSpace c <;> rfl

theorem view_ltrim_eq (s : List UInt8) : View.ltrim s = ltrimView s := by
  simp only [View.ltrim, ltrimLoop_eq, ltrimView]
  cases (s.takeWhile isSpace).length with
  | zero => rfl
  | succ blanks => simp

theorem view_trim_eq (s : List UInt8) : View.trim s = trimView s := by
  have same : View.rtrim s = InPlace.rtrim s := rfl
  simp only [View.trim, view_ltrim_eq, same, rtrim_eq, trimView, rtrim, List.rdropWhile]

/-! ### What is left -/

theorem rdropWhile_of_bare {part : List UInt8} (bare : Bare part) (some : part ≠ [])
    (front back : List UInt8) :
    ∃ rest, (front ++ part ++ back).rdropWhile isSpace = front ++ part ++ rest := by
  induction back using List.reverseRecOn with
  | nil =>
      refine ⟨[], ?_⟩
      rw [List.append_nil, List.rdropWhile_eq_self_iff]
      intro nonempty
      have last := bare.2 (part.getLast some) (List.getLast?_eq_some_getLast some)
      simp [List.getLast_append_of_ne_nil _ some, last]
  | append_singleton back c ih =>
      simp only [← List.append_assoc, List.rdropWhile_concat]
      split
      · exact ih
      · exact ⟨back ++ [c], by simp only [List.append_assoc]⟩

theorem dropWhile_of_bare {part : List UInt8} (bare : Bare part) (some : part ≠ [])
    (front back : List UInt8) :
    ∃ rest, (front ++ part ++ back).dropWhile isSpace = rest ++ part ++ back := by
  induction front with
  | nil =>
      refine ⟨[], ?_⟩
      rcases List.exists_cons_of_ne_nil some with ⟨c, tail, rfl⟩
      have first := bare.1 c rfl
      simp [first]
  | cons c front ih =>
      simp only [List.cons_append, List.dropWhile_cons]
      split
      · simpa using ih
      · exact ⟨c :: front, by simp⟩

theorem bare_trim (s : List UInt8) : Bare (InPlace.trim s) := by
  simp only [InPlace.trim, ltrim_eq, rtrim_eq]
  constructor
  · intro c mem
    have first := List.head?_dropWhile_not isSpace (s.rdropWhile isSpace)
    rw [mem] at first
    simpa using first
  · intro c mem
    -- the end is that of what `rtrim` has left
    have suffix : (s.rdropWhile isSpace).dropWhile isSpace <:+ s.rdropWhile isSpace :=
      List.dropWhile_suffix _
    rcases suffix with ⟨front, whole⟩
    have same : (s.rdropWhile isSpace).getLast? = some c := by
      rw [← whole, List.getLast?_append, mem, Option.some_or]
    have nonempty : s.rdropWhile isSpace ≠ [] := by
      intro nothing
      rw [nothing] at same
      cases same
    have last := List.rdropWhile_last_not isSpace s nonempty
    rw [List.getLast?_eq_some_getLast nonempty, Option.some.injEq] at same
    simpa [same] using last

/-- What `trim` leaves in place is the longest part without white space at its ends. -/
theorem core_trim (s : List UInt8) : Core s (InPlace.trim s) := by
  refine ⟨?_, bare_trim s, ?_⟩
  · simp only [InPlace.trim, ltrim_eq, rtrim_eq]
    exact (List.dropWhile_suffix _).isInfix.trans (List.rdropWhile_prefix _ _).isInfix
  · rintro part ⟨front, back, rfl⟩ bare
    by_cases some : part = []
    · simp [some]
    · rcases rdropWhile_of_bare bare some front back with ⟨rest, right⟩
      rcases dropWhile_of_bare bare some front rest with ⟨before, left⟩
      simp only [InPlace.trim, ltrim_eq, rtrim_eq, right, left]
      exact ⟨before, rest, rfl⟩

/-- A text without white space at its ends is its own longest part. -/
theorem trim_of_bare {s : List UInt8} (bare : Bare s) : InPlace.trim s = s := by
  rcases core_trim s with ⟨inside, -, longest⟩
  exact inside.eq_of_length_le (longest s (List.infix_refl s) bare).length_le

/-! ### The view -/

/-- One blank goes if there is another one behind it. -/
theorem ltrimView_cons (c : UInt8) (s : List UInt8) :
    ltrimView (c :: s) =
      if isSpace c = true ∧ s.takeWhile isSpace ≠ [] then ltrimView s else c :: s := by
  simp only [ltrimView, List.takeWhile_cons]
  cases space : isSpace c with
  | false => simp
  | true =>
      cases more : s.takeWhile isSpace with
      | nil => simp
      | cons d rest => simp

theorem ltrimView_ltrimView (s : List UInt8) : ltrimView (ltrimView s) = ltrimView s := by
  induction s with
  | nil => rfl
  | cons c s ih =>
      by_cases more : isSpace c = true ∧ s.takeWhile isSpace ≠ []
      · simp only [ltrimView_cons, if_pos more, ih]
      · simp only [ltrimView_cons, if_neg more]

theorem ltrimView_suffix (s : List UInt8) : ltrimView s <:+ s := List.drop_suffix _ _

/-- The two cut the same off the front if there is nothing to cut off. -/
theorem ltrimView_eq_dropWhile_iff {s : List UInt8}
    (last : ∀ nonempty : s ≠ [], isSpace (s.getLast nonempty) = false) :
    ltrimView s = s.dropWhile isSpace ↔ ∀ c ∈ s.head?, isSpace c = false := by
  cases s with
  | nil => exact iff_of_true rfl (by simp)
  | cons c s =>
      have whole := List.takeWhile_append_dropWhile (p := isSpace) (l := c :: s)
      constructor
      · intro same d mem
        cases mem
        by_contra space
        rw [Bool.not_eq_false] at space
        have cut : (c :: s).dropWhile isSpace =
            (c :: s).drop ((c :: s).takeWhile isSpace).length := by
          conv_rhs => arg 2; rw [← whole]
          exact List.drop_left.symm
        have blanks : 0 < ((c :: s).takeWhile isSpace).length := by simp [space]
        have short := (List.takeWhile_prefix isSpace (l := c :: s)).length_le
        have lengths := congrArg List.length (same.trans cut)
        simp only [ltrimView, List.length_drop] at lengths
        omega
      · intro first
        have front := first c rfl
        simp [ltrimView, front]

theorem view_trim_trim (s : List UInt8) : View.trim (View.trim s) = View.trim s := by
  simp only [view_trim_eq, trimView]
  have same : rtrim (ltrimView (rtrim s)) = ltrimView (rtrim s) := by
    rw [show rtrim (ltrimView (rtrim s)) = (ltrimView (rtrim s)).rdropWhile isSpace from rfl,
      List.rdropWhile_eq_self_iff]
    intro nonempty
    have some : s.rdropWhile isSpace ≠ [] := fun nothing =>
      nonempty (List.suffix_nil.mp (nothing ▸ ltrimView_suffix (rtrim s)))
    have last := List.rdropWhile_last_not isSpace s some
    rw [(ltrimView_suffix (rtrim s)).getLast nonempty]
    exact last
  rw [same, ltrimView_ltrimView]

/-- The two forms of `trim` agree on a text that does not begin with white space, and on one
that has nothing else. -/
theorem trims_agree_iff (s : List UInt8) :
    (View.trim s = InPlace.trim s ∧ Core s (InPlace.trim s) ∧
      InPlace.trim (InPlace.trim s) = InPlace.trim s ∧ View.trim (View.trim s) = View.trim s) ↔
      (∀ c ∈ s.head?, isSpace c = false) ∨ ∀ c ∈ s, isSpace c = true := by
  have others : Core s (InPlace.trim s) ∧ InPlace.trim (InPlace.trim s) = InPlace.trim s ∧
      View.trim (View.trim s) = View.trim s :=
    ⟨core_trim s, trim_of_bare (bare_trim s), view_trim_trim s⟩
  have agree : View.trim s = InPlace.trim s ↔
      ltrimView (s.rdropWhile isSpace) = (s.rdropWhile isSpace).dropWhile isSpace := by
    rw [view_trim_eq, InPlace.trim, ltrim_eq, rtrim_eq]
    rfl
  rw [and_iff_left others, agree, ltrimView_eq_dropWhile_iff]
  · by_cases nothing : s.rdropWhile isSpace = []
    · refine iff_of_true (by simp [nothing]) (Or.inr ?_)
      exact List.rdropWhile_eq_nil_iff.mp nothing
    · have front : (s.rdropWhile isSpace).head? = s.head? := by
        rcases List.rdropWhile_prefix isSpace s with ⟨rest, whole⟩
        conv_rhs => rw [← whole]
        rw [List.head?_append_of_ne_nil _ nothing]
      rw [front, or_iff_left fun blank => nothing (List.rdropWhile_eq_nil_iff.mpr blank)]
  · intro nonempty
    simpa using List.rdropWhile_last_not isSpace s nonempty

/-- A blank in front of a letter stays in the view. -/
theorem not_trims_agree :
    ¬(View.trim (ascii [' ', 'a']) = InPlace.trim (ascii [' ', 'a']) ∧
      Core (ascii [' ', 'a']) (InPlace.trim (ascii [' ', 'a'])) ∧
      InPlace.trim (InPlace.trim (ascii [' ', 'a'])) = InPlace.trim (ascii [' ', 'a']) ∧
      View.trim (View.trim (ascii [' ', 'a'])) = View.trim (ascii [' ', 'a'])) := fun agree =>
  absurd agree.1 (by decide)

end Imconee.Str
