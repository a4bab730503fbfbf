import Imconee.Fsys.CleanUp

/-!
# A clean path means the same

`__remove_crap` keeps what a path means, except where its components cancel out: then it throws,
or leaves nothing of a path that was absolute. The last of these components stands at the end of
the path, as nothing that ends with a slash cancels out.
-/

set_option autoImplicit false

namespace Imconee.Fsys

open Str Lib

/-- The path begins at the root. -/
def isAbsolute (path : List UInt8) : Bool := path.head? = some nativeSlash

/-- What a path means: whether it is absolute, and its components in normal form -/
def normalise (path : List UInt8) : Bool × List (List UInt8) :=
  (isAbsolute path, marks.normal (isAbsolute path) (components path))

/-- `__remove_crap` throws nothing, keeps the meaning and the root, and is done at once. -/
def Preserved (path : List UInt8) : Prop :=
  ∃ result, removeCrap path = .ok result ∧ normalise result = normalise path ∧
    (isAbsolute path → result ≠ [] ∧ isAbsolute result) ∧ removeCrap result = .ok result

/-- The components cancel out; there is always a first one. -/
def Vanish : List (List UInt8) → Prop
  | [] => False
  | first :: rest => marks.Vanishes first rest

/-- The components of the path, after its root, cancel out. -/
def CancelsOut (path : List UInt8) : Prop := Vanish (components path)

instance decidableVanish : (segments : List (List UInt8)) → Decidable (Vanish segments)
  | [] => inferInstanceAs (Decidable False)
  | first :: rest => inferInstanceAs (Decidable (marks.Vanishes first rest))

instance (path : List UInt8) : Decidable (CancelsOut path) :=
  inferInstanceAs (Decidable (Vanish (components path)))

/-! ### Components and text -/

theorem intercalate_eq (first : List UInt8) (rest : List (List UInt8)) :
    [nativeSlash].intercalate (first :: rest) = first ++ behind rest := by
  induction rest generalizing first with
  | nil => simp
  | cons second rest ih => simp [List.intercalate_cons_cons, ih]

/-- A path is the text of its components. -/
theorem components_eq (path : List UInt8) :
    ∃ first rest, components path = first :: rest ∧ path = first ++ behind rest := by
  rcases List.exists_cons_of_ne_nil (List.splitOn_ne_nil nativeSlash path) with ⟨first, rest, split⟩
  refine ⟨first, rest, split, ?_⟩
  calc
    path = [nativeSlash].intercalate (path.splitOn nativeSlash) :=
      (List.intercalate_splitOn nativeSlash).symm
    _ = first ++ behind rest := by rw [split, intercalate_eq]

theorem not_mem_splitOn {c : UInt8} {path segment : List UInt8}
    (inside : segment ∈ path.splitOn c) : c ∉ segment := by
  induction path generalizing segment with
  | nil =>
      obtain rfl : segment = [] := by simpa using inside
      simp
  | cons d path ih =>
      rcases List.exists_cons_of_ne_nil (List.splitOn_ne_nil c path) with ⟨first, rest, split⟩
      simp only [split] at ih
      simp only [List.splitOn_cons_eq_if_modifyHead, split, beq_iff_eq] at inside
      split_ifs at inside with same
      · rcases List.mem_cons.mp inside with rfl | inside
        · simp
        · exact ih inside
      · rcases List.mem_cons.mp inside with rfl | inside
        · simpa [Ne.symm same] using ih List.mem_cons_self
        · exact ih (List.mem_cons_of_mem first inside)

theorem mem_text {c : UInt8} {first segment : List UInt8} {rest : List (List UInt8)}
    (inside : segment ∈ first :: rest) (char : c ∈ segment) : c ∈ first ++ behind rest := by
  rcases List.mem_cons.mp inside with rfl | inside
  · simp [char]
  · simp only [List.mem_append, behind, List.mem_flatMap]
    exact Or.inr ⟨segment, inside, by simp [char]⟩

/-- A path in which no separator of the other kind stands is split at every slash. -/
theorem solid_components {path : List UInt8} (separators : enemySlash ∉ path) :
    ∃ first rest, components path = first :: rest ∧ path = first ++ behind rest ∧
      ∀ segment ∈ first :: rest, ∀ c ∈ segment, isSlash c = false := by
  rcases components_eq path with ⟨first, rest, split, text⟩
  refine ⟨first, rest, split, text, ?_⟩
  intro segment inside c char
  apply isSlash_eq_false
  · rintro rfl
    rw [← split] at inside
    exact not_mem_splitOn inside char
  · rintro rfl
    exact separators (text ▸ mem_text inside char)

theorem components_text {first : List UInt8} {rest : List (List UInt8)}
    (solid : ∀ segment ∈ first :: rest, ∀ c ∈ segment, isSlash c = false) :
    components (first ++ behind rest) = first :: rest := by
  rw [components, ← intercalate_eq]
  apply List.splitOn_intercalate
  · intro segment inside slash
    simpa [isSlash] using solid segment inside nativeSlash slash
  · simp

theorem enemySlash_not_mem {first : List UInt8} {rest : List (List UInt8)}
    (solid : ∀ segment ∈ first :: rest, ∀ c ∈ segment, isSlash c = false) :
    enemySlash ∉ first ++ behind rest := by
  have apart : enemySlash ≠ nativeSlash := by decide
  intro inside
  simp only [List.mem_append, behind, List.mem_flatMap, List.mem_cons] at inside
  rcases inside with char | ⟨segment, inside, same | char⟩
  · simpa [isSlash] using solid first (by simp) enemySlash char
  · exact apart same
  · simpa [isSlash] using solid segment (by simp [inside]) enemySlash char

/-- An absolute path is one whose first component is blank, and not the only one. -/
theorem isAbsolute_text {first : List UInt8} {rest : List (List UInt8)}
    (solid : ∀ segment ∈ first :: rest, ∀ c ∈ segment, isSlash c = false) :
    isAbsolute (first ++ behind rest) = decide (first = [] ∧ rest ≠ []) := by
  rcases first with _ | ⟨c, first⟩
  · rcases rest with _ | ⟨second, rest⟩ <;> simp [isAbsolute]
  · have char := solid (c :: first) (by simp) c (by simp)
    have other : c ≠ nativeSlash := by
      rintro rfl
      simp [isSlash] at char
    simp [isAbsolute, other]

/-! ### What is kept -/

/-- A clean path is absolute exactly if the path was, unless nothing is left behind the root. -/
theorem front_absolute {first other : List UInt8} {rest more : List (List UInt8)}
    (kept : marks.front first (marks.clean rest) = some (other :: more))
    (left : ¬(first = marks.blank ∧ other :: more = [first])) :
    (other = [] ∧ more ≠ []) ↔ first = [] := by
  have blank : marks.blank = [] := rfl
  by_cases root : first = marks.blank
  · obtain ⟨rfl, rfl⟩ : first = other ∧ marks.clean rest = more := by
      simpa [Marks.front, root] using kept
    simpa [root, blank] using left
  · have clean : marks.Clean (other :: more) := by
      have pushed : marks.push first (marks.clean rest) = other :: more := by
        by_cases nothing : marks.push first (marks.clean rest) = []
        · simp [Marks.front, root, nothing] at kept
        · simpa [Marks.front, root, nothing] using kept
      rw [← pushed]
      exact Marks.clean_push first (Marks.clean_clean rest)
    simp only [blank] at root
    simp only [root, iff_false, not_and, not_not]
    exact clean.2.1

/-- Where the components cancel out, the root goes as well, or an exception is thrown. -/
theorem not_preserved {path first : List UInt8} {rest : List (List UInt8)} (nonempty : path ≠ [])
    (separators : enemySlash ∉ path) (text : path = first ++ behind rest)
    (solid : ∀ segment ∈ first :: rest, ∀ c ∈ segment, isSlash c = false)
    (vanishes : marks.Vanishes first rest) : ¬Preserved path := by
  rintro ⟨result, done, -, root, -⟩
  rw [removeCrap_eq separators text solid] at done
  rcases kept : marks.front first (marks.clean rest) with _ | whole
  · simp [kept] at done
  · rcases (Marks.vanishes_iff first rest).mp vanishes whole kept with ⟨blank, rfl⟩
    obtain rfl : first = [] := blank
    have absolute : isAbsolute path := by
      rcases rest with _ | ⟨second, rest⟩
      · exact absurd (by simpa using text) nonempty
      · simp [text, isAbsolute]
    have nothing : result = [] := by
      simpa [kept] using done.symm
    exact (root absolute).1 nothing

/-- Otherwise the scan leaves a path in normal form that means the same. -/
theorem preserved {path first : List UInt8} {rest : List (List UInt8)} (nonempty : path ≠ [])
    (separators : enemySlash ∉ path) (text : path = first ++ behind rest)
    (split : components path = first :: rest)
    (solid : ∀ segment ∈ first :: rest, ∀ c ∈ segment, isSlash c = false)
    (vanishes : ¬marks.Vanishes first rest) : Preserved path := by
  simp only [Marks.vanishes_iff, not_forall] at vanishes
  rcases vanishes with ⟨whole, kept, left⟩
  rcases Marks.front_again kept with ⟨other, more, rfl, again⟩
  have still_solid : ∀ segment ∈ other :: more, ∀ c ∈ segment, isSlash c = false :=
    fun segment inside => solid segment (Marks.mem_front kept inside)
  have absolute : isAbsolute (other ++ behind more) = isAbsolute path := by
    have rooted : first = [] → rest ≠ [] := by
      rintro rfl rfl
      exact nonempty (by simpa using text)
    rw [text, isAbsolute_text solid, isAbsolute_text still_solid]
    simp only [front_absolute kept left, decide_eq_decide]
    tauto
  refine ⟨other ++ behind more, ?_, ?_, ?_, ?_⟩
  · simp [removeCrap_eq separators text solid, kept]
  · simp only [normalise, absolute, components_text still_solid, split,
      Marks.normal_front kept]
  · intro root
    rw [absolute]
    refine ⟨?_, root⟩
    intro nothing
    rw [← absolute, nothing] at root
    simp [isAbsolute] at root
  · simp [removeCrap_eq (enemySlash_not_mem still_solid) rfl still_solid, again]

/--
`__remove_crap` throws nothing, keeps the meaning and the root of a path and is done at once
exactly if the components of the path, after its root, do not cancel out.
-/
theorem preserved_iff {path : List UInt8} (nonempty : path ≠ [])
    (separators : enemySlash ∉ path) : Preserved path ↔ ¬CancelsOut path := by
  rcases solid_components separators with ⟨first, rest, split, text, solid⟩
  have cancels : CancelsOut path ↔ marks.Vanishes first rest := by
    simp only [CancelsOut, split, Vanish]
  rw [cancels]
  constructor
  · intro kept vanishes
    exact not_preserved nonempty separators text solid vanishes kept
  · exact preserved nonempty separators text split solid

/-- `/a/../../b//./c` -/
theorem preserved_iff_absolute :
    Preserved (ascii ['/', 'a', '/', '.', '.', '/', '.', '.', '/', 'b', '/', '/', '.', '/', 'c']) ↔
      ¬CancelsOut
        (ascii ['/', 'a', '/', '.', '.', '/', '.', '.', '/', 'b', '/', '/', '.', '/', 'c']) :=
  preserved_iff (by decide) (by decide)

/-- `a/..` -/
theorem not_preserved_up : ¬∀ path, path ≠ [] → enemySlash ∉ path → Preserved path := by
  intro always
  rcases always (ascii ['a', '/', '.', '.']) (by decide) (by decide) with ⟨result, done, -⟩
  have thrown : removeCrap (ascii ['a', '/', '.', '.']) = .error .outOfRange := by
    decide +kernel
  rw [thrown] at done
  cases done

end Imconee.Fsys
