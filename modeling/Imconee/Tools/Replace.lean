import Imconee.Tools.Strings

/-!
# `str::replace_all`

Each place at which a text is found is replaced, and the search goes on behind what has been put
there. For a text of one character this is a replacement character by character.
-/

set_option autoImplicit false

namespace Imconee.Str

/-- The loop of `replace_all`, with fuel that is more than what is left behind `f` -/
def replaceAllLoop (s1 s2 : List UInt8) : ℕ → List UInt8 → ℕ → List UInt8
  | 0, s, _ => s
  | fuel + 1, s, f =>
      match findText s1 (s.drop f) with
      | none => s
      | some found =>
          let f := f + found
          replaceAllLoop s1 s2 fuel (s.take f ++ s2 ++ s.drop (f + s1.length)) (f + s2.length)

/-- `replace_all` of a text that is not empty -/
def replaceAll (s s1 s2 : List UInt8) : List UInt8 := replaceAllLoop s1 s2 (s.length + 1) s 0

theorem flatMap_of_not_mem {c : UInt8} {s : List UInt8} (s2 : List UInt8) (absent : c ∉ s) :
    (s.flatMap fun d => if d = c then s2 else [d]) = s := by
  induction s with
  | nil => rfl
  | cons d s ih =>
      have other : d ≠ c := fun same => absent (by simp [same])
      have rest : c ∉ s := fun inside => absent (by simp [inside])
      simp [other, ih rest]

theorem replaceAllLoop_eq (c : UInt8) (s2 front rest : List UInt8) {fuel : ℕ}
    (enough : rest.length < fuel) :
    replaceAllLoop [c] s2 fuel (front ++ rest) front.length =
      front ++ rest.flatMap fun d => if d = c then s2 else [d] := by
  induction fuel generalizing front rest with
  | zero => omega
  | succ fuel ih =>
      have behind : (front ++ rest).drop front.length = rest := List.drop_left
      by_cases inside : c ∈ rest
      · rcases List.eq_append_cons_of_mem inside with ⟨before, after, rfl, absent⟩
        have found : findText [c] (before ++ c :: after) = some before.length := by
          have start : findText [c] (c :: after) = some 0 := by simp [findText]
          simpa [start] using findText_append absent [] (c :: after)
        have upTo : (front ++ (before ++ c :: after)).take (front.length + before.length) =
            front ++ before := by
          rw [← List.length_append, ← List.append_assoc, List.take_left]
        have onward : (front ++ (before ++ c :: after)).drop
            (front.length + before.length + [c].length) = after := by
          have split : front ++ (before ++ c :: after) = (front ++ before ++ [c]) ++ after := by
            simp
          rw [split]
          exact List.drop_left' (by simp; omega)
        have later := ih (front ++ before ++ s2) after (by simp at enough; omega)
        simp only [List.length_append] at later
        simp only [replaceAllLoop, behind, found, upTo, onward, later]
        simp [flatMap_of_not_mem s2 absent]
      · have nowhere : findText [c] rest = none := findText_eq_none (by simp) inside
        simp only [replaceAllLoop, behind, nowhere, flatMap_of_not_mem s2 inside]

/-- A text of one character is replaced wherever that character stands. -/
theorem replaceAll_eq (c : UInt8) (s s2 : List UInt8) :
    replaceAll s [c] s2 = s.flatMap fun d => if d = c then s2 else [d] := by
  simpa [replaceAll] using replaceAllLoop_eq c s2 [] s (Nat.lt_succ_self _)

end Imconee.Str
