import Imconee.Config.Layout

/-!
# One element of a stored block

What a call of `read_sts` finds behind a name: a value as it has been written, a block, or both,
and what is behind them.
-/

set_option autoImplicit false

namespace Imconee.Config

open Lib Traced Str

variable {memory : ℕ → UInt8} {limit : ℕ}

/-! ### A value and what is behind it -/

/-- White space, and a token behind which a value without quotes ends -/
def EndsBare (space : List UInt8) (d : UInt8) : Prop :=
  space.head? = some '\r'.toUInt8 ∨ space = [] ∧ (d = '{'.toUInt8 ∨ d = '}'.toUInt8)

/-- The white space and the token stand from a place on; the token is at the second place. -/
structure Ahead (memory : ℕ → UInt8) (limit next place : ℕ) (space : List UInt8) (d : UInt8)
    (more : List UInt8) : Prop where
  holds : Holds memory next (space ++ d :: more)
  blank : ∀ c ∈ space, tokenCheck c = false
  reached : next + space.length = place
  token : StartsToken d ∧ d ≠ '`'.toUInt8
  inside : place < limit

section Ahead

variable {next place : ℕ} {space more : List UInt8} {d : UInt8}

theorem Ahead.starts (ahead : Ahead memory limit next place space d more) :
    Gives memory (tokenStart limit next) (some place) := by
  rcases ahead with ⟨holds, blank, rfl, token, inside⟩
  have text : Holds memory next (space ++ [d] ++ more) := by simpa using holds
  exact tokenStart_token (holds_append.mp text).1 blank token.1 inside

theorem Ahead.at_place (ahead : Ahead memory limit next place space d more) :
    Ahead memory limit place place [] d more := by
  rcases ahead with ⟨holds, blank, rfl, token, inside⟩
  exact ⟨(holds_append.mp holds).2, by simp, rfl, token, inside⟩

theorem tokenCheck_of_isBlank {c : UInt8} (blank : IsBlank c) : tokenCheck c = false := by
  rcases blank with rfl | rfl <;> decide

theorem commentBehind_space (blank : ∀ c ∈ space, tokenCheck c = false) :
    commentBehind space = none := by
  have nothing : trim space = [] := by simp [trim, rtrim_space blank, ltrim]
  simp [commentBehind, nothing, keptComment]

/-- The character at the place is neither a blank nor a quote. -/
theorem Ahead.first (ahead : Ahead memory limit next place space d more)
    (unblank : ∀ c ∈ space.head?, ¬IsBlank c) :
    ¬IsBlank (memory next) ∧ memory next ≠ '`'.toUInt8 := by
  rcases ahead with ⟨holds, blank, -, token, -⟩
  rcases space with _ | ⟨c, space⟩
  · rw [holds.1]
    refine ⟨?_, token.2⟩
    intro isBlank
    have separator := tokenCheck_of_isBlank isBlank
    simp [token.1.1] at separator
  · rw [holds.1]
    refine ⟨unblank c rfl, ?_⟩
    rintro rfl
    exact absurd (blank _ List.mem_cons_self) (by decide)

theorem Ahead.stops (ahead : Ahead memory limit next place space d more)
    (ends : EndsBare space d) : Stops memory limit '}'.toUInt8 next := by
  rcases ahead with ⟨holds, -, rfl, -, inside⟩
  refine Or.inr ⟨by omega, ?_⟩
  rcases space with _ | ⟨c, space⟩
  · rw [holds.1]
    exact Or.inr (Or.inr (by simpa [EndsBare] using ends))
  · rw [holds.1]
    simp only [EndsBare, List.head?_cons, Option.some.injEq, reduceCtorEq, false_and,
      or_false] at ends
    exact Or.inl ends

/-- What `store_value` has written is read as the value, up to what is behind it. -/
theorem readValue_written {p : ℕ} {value blanks : List UInt8} {allowUnquoted : Bool}
    (stored : Holds memory (p + 1) (storeValue value allowUnquoted ++ blanks))
    (behind : next = p + 1 + (storeValue value allowUnquoted ++ blanks).length)
    (ahead : Ahead memory limit next place space d more)
    (blank : ∀ c ∈ blanks, IsBlank c) (unblank : ∀ c ∈ space.head?, ¬IsBlank c)
    (nothing : value = [] → blanks = [])
    (ends : allowUnquoted = true → EndsBare space d) :
    ∃ after kept, Gives memory (readValue limit p) { value, result := .goOn after } ∧
      Ahead memory limit after place kept d more ∧ next ≤ after := by
  have reached := ahead.reached
  have inside := ahead.inside
  rcases storeValue_cases value allowUnquoted with ⟨plain, allowed, bare⟩ | quoted
  · rw [plain] at stored behind
    have silent : commentBehind (blanks ++ space) = none := by
      apply commentBehind_space
      intro c char
      rcases List.mem_append.mp char with char | char
      · exact tokenCheck_of_isBlank (blank c char)
      · exact ahead.blank c char
    have rest : Holds memory (p + 1 + value.length) (blanks ++ space) := by
      have before := (holds_append.mp stored).2
      have after := (holds_append.mp ahead.holds).1
      refine holds_append.mpr ⟨before, ?_⟩
      have same : p + 1 + value.length + blanks.length = next := by
        simp [behind]
        omega
      rwa [same]
    have found := @readValue_bare memory limit p (p + 1) [] value blanks (blanks ++ space)
      (some place) (fun c char => (bare.plain c char).1) bare.quiet bare.first bare.endsWord
      trivial rfl stored (by simp) blank nothing (by simp at behind; omega)
      (by simpa only [← behind] using ahead.stops (ends allowed))
      (by simpa only [← behind] using ahead.starts) rest (by
        simp only [List.length_append] at behind ⊢
        simp only [Option.getD_some]
        omega)
    rw [silent] at found
    exact ⟨place, [], found, ahead.at_place, by omega⟩
  · rw [quoted] at stored behind
    have length : next = p + (doubled value).length + 3 + blanks.length := by
      simp [behind]
      omega
    have found := @readValue_quoted memory limit p value blanks stored blank (by omega) (by
      intro _
      simpa only [← length] using ahead.first unblank)
    rw [← length] at found
    exact ⟨next, space, found, ahead, Nat.le_refl next⟩

end Ahead

/-! ### One element of a stored block -/

namespace Sts

variable {value : List UInt8} {done : List (ElementName × Sts)} {name : ElementName} {sts : Sts}

theorem modifyChild_last (change : Sts → Sts) :
    (mk value (done ++ [(name, sts)])).modifyChild done.length change =
      mk value (done ++ [(name, change sts)]) := by
  have last : (done ++ [(name, sts)]).modify done.length (fun element =>
      (element.1, change element.2)) = done ++ [(name, change sts)] := by
    induction done with
    | nil => rfl
    | cons first done ih => simpa using ih
  simp only [modifyChild, elements, last, Sts.value]

theorem child_last : (mk value (done ++ [(name, sts)])).child done.length = sts := by
  simp [child, elements]

theorem addBlock_fresh {word : List UInt8} (some : word ≠ [])
    (fresh : ∀ element ∈ done, element.1 ≠ .named word) :
    (mk value done).addBlock word = (mk value (done ++ [(.named word, new)]), done.length) := by
  have absent : done.findIdx? (fun element => element.1 = .named word) = none := by
    simpa [List.findIdx?_eq_none_iff] using fun name sts inside => fresh (name, sts) inside
  simp only [addBlock, some, if_false, elements, absent]
  rfl

end Sts

section Element

variable {load : Sts → Option ℕ → Parser (Sts × Option ℕ)} {p next place : ℕ}
  {outer : List UInt8} {done : List (ElementName × Sts)} {name : ElementName}
  {value blanks space more : List UInt8} {d : UInt8} {allowUnquoted : Bool}

theorem Ahead.memory_eq_brace (ahead : Ahead memory limit next place space d more)
    (brace : memory next = '{'.toUInt8) : space = [] ∧ d = '{'.toUInt8 := by
  rcases ahead with ⟨holds, blank, -, -, -⟩
  rcases space with _ | ⟨c, space⟩
  · exact ⟨rfl, holds.1.symm.trans brace⟩
  · have same : c = '{'.toUInt8 := holds.1.symm.trans brace
    exact absurd (blank c List.mem_cons_self) (by rw [same]; decide)

/-- An element takes a value, and no block begins behind it. -/
theorem readElement_value {after : ℕ} (equals : memory p = '='.toUInt8)
    (found : Gives memory (readValue limit p) { value, result := .goOn after })
    (noBlock : memory after ≠ '{'.toUInt8) :
    Gives memory (readElement load limit (.mk outer (done ++ [(name, .new)])) done.length p)
      (.mk outer (done ++ [(name, .mk value [])]), .goOn after) := by
  refine (peek_gives equals).bind ?_
  simp only [if_true]
  refine found.bind ?_
  simp only [Sts.modifyChild_last, Option.elim_none]
  split
  · refine (peek_gives rfl).bind ?_
    simp only [noBlock, if_false]
    exact Gives.pure _
  · exact Gives.pure _

/-- An element with a value that has been written, behind which no block begins -/
theorem readElement_leaf (equals : memory p = '='.toUInt8)
    (stored : Holds memory (p + 1) (storeValue value allowUnquoted ++ blanks))
    (behind : next = p + 1 + (storeValue value allowUnquoted ++ blanks).length)
    (ahead : Ahead memory limit next place space d more)
    (blank : ∀ c ∈ blanks, IsBlank c) (unblank : ∀ c ∈ space.head?, ¬IsBlank c)
    (nothing : value = [] → blanks = []) (ends : allowUnquoted = true → EndsBare space d)
    (other : d ≠ '{'.toUInt8) :
    ∃ after kept, Gives memory
        (readElement load limit (.mk outer (done ++ [(name, .new)])) done.length p)
        (.mk outer (done ++ [(name, .mk value [])]), .goOn after) ∧
      Ahead memory limit after place kept d more ∧ next ≤ after := by
  rcases readValue_written stored behind ahead blank unblank nothing ends with
      ⟨after, kept, found, ahead, le⟩
  refine ⟨after, kept, readElement_value equals found ?_, ahead, le⟩
  exact fun brace => other (ahead.memory_eq_brace brace).2

/-- A block is read, and the element takes what has been read. -/
theorem readBlock_last {sts read : Sts} {after : ℕ}
    (loaded : Gives memory (load sts (some (place + 1))) (read, some after)) :
    Gives memory (readBlock load (.mk outer (done ++ [(name, sts)])) done.length place)
      (.mk outer (done ++ [(name, read)]), .goOn after) := by
  simp only [readBlock, Sts.child_last]
  refine loaded.bind ?_
  simp only [Sts.modifyChild_last]
  exact Gives.pure _

/-- An element with a value and with a block -/
theorem readElement_both {read : Sts} {after : ℕ} (equals : memory p = '='.toUInt8)
    (stored : Holds memory (p + 1) (storeValue value allowUnquoted ++ blanks))
    (behind : place = p + 1 + (storeValue value allowUnquoted ++ blanks).length)
    (ahead : Ahead memory limit place place [] '{'.toUInt8 more)
    (blank : ∀ c ∈ blanks, IsBlank c) (some : value ≠ [])
    (loaded : Gives memory (load (.mk value []) (Option.some (place + 1)))
      (read, Option.some after)) :
    Gives memory (readElement load limit (.mk outer (done ++ [(name, .new)])) done.length p)
      (.mk outer (done ++ [(name, read)]), .goOn after) := by
  rcases readValue_written stored behind ahead blank (by simp) (fun empty => absurd empty some)
      fun _ => Or.inr ⟨rfl, Or.inl rfl⟩ with ⟨next, kept, found, ahead, le⟩
  obtain rfl : next = place := by
    have reached := ahead.reached
    omega
  obtain rfl : kept = [] := by
    have reached := ahead.reached
    simpa using reached
  refine (peek_gives equals).bind ?_
  simp only [if_true]
  refine found.bind ?_
  have brace : memory next = '{'.toUInt8 := ahead.holds.1
  simp only [ahead.inside, if_true, Sts.modifyChild_last, Option.elim_none]
  refine (peek_gives brace).bind ?_
  simp only [if_true]
  exact readBlock_last loaded

/-- An element with nothing but a block -/
theorem readElement_block {read : Sts} {after : ℕ} (brace : memory place = '{'.toUInt8)
    (loaded : Gives memory (load .new (some (place + 1))) (read, some after)) :
    Gives memory (readElement load limit (.mk outer (done ++ [(name, .new)])) done.length place)
      (.mk outer (done ++ [(name, read)]), .goOn after) := by
  refine (peek_gives brace).bind ?_
  have other : '{'.toUInt8 ≠ '='.toUInt8 := by decide
  simpa only [other, if_false, if_true] using readBlock_last loaded

/-! ### The end of the text -/

theorem tokenStart_end : Gives memory (tokenStart limit limit) none :=
  @tokenStart_nothing memory limit limit [] trivial (by simp) rfl

/-- The value behind an `=` that is the last character of the text -/
theorem readValue_end (last : p + 1 = limit) :
    ∃ result, Gives memory (readValue limit p) { value := [], result := .stop result } := by
  have start : Gives memory (valueStart limit p) (limit, memory limit) := by
    have begins := @valueStart_gives memory limit p [] trivial (by simp) (by simp [last])
      (by simp [last])
    simpa [last] using begins
  by_cases quote : memory limit = '`'.toUInt8
  · refine ⟨some (limit + 1), start.bind ?_⟩
    have loop : Gives memory (quotedLoop limit (limit - (limit + 1) + 1) (limit + 1) (limit + 1) [])
        ([], limit + 1) := by
      have outside : ¬limit + 1 < limit := by omega
      simp only [quotedLoop, outside, if_false]
      exact Gives.pure _
    simp only [quote, if_true]
    refine loop.bind ?_
    have outside : limit ≤ limit + 1 := by omega
    simp only [outside, if_true]
    exact Gives.pure _
  · refine ⟨none, start.bind ?_⟩
    simp only [quote, if_false]
    have found : Gives memory (tokenEnd limit '}'.toUInt8 limit) (limit, none) := by
      have ends := @tokenEnd_gives memory limit '}'.toUInt8 limit [] [] none (by decide)
        (by decide) trivial (by simp) trivial (by simp [EndsWord]) (by simp) (by simp)
        (Or.inl rfl) tokenStart_end
      simpa using ends
    exact @bareValue_gives memory limit limit limit [] [] none found trivial (by simp) trivial
      (by simp)

/-- What is written at the end of the text is read as the value. -/
theorem readValue_last (stored : Holds memory (p + 1) (storeValue value allowUnquoted))
    (last : p + 1 + (storeValue value allowUnquoted).length = limit) :
    ∃ result, Gives memory (readValue limit p) { value, result } ∧
      (result = .goOn limit ∨ ∃ after, result = .stop after) := by
  rcases storeValue_cases value allowUnquoted with ⟨plain, -, bare⟩ | quoted
  · rw [plain] at stored last
    rcases eq_or_ne value [] with rfl | some
    · rcases @readValue_end memory limit p (by simpa using last) with ⟨result, found⟩
      exact ⟨_, found, Or.inr ⟨result, rfl⟩⟩
    · have long := List.length_pos_iff.mpr some
      have found := @readValue_bare memory limit p (p + 1) [] value [] [] none
        (fun c char => (bare.plain c char).1) bare.quiet bare.first bare.endsWord trivial rfl
        (by simpa using stored) (by simp) (by simp) (by simp) (by omega)
        (Or.inl (by simpa using last)) (by simpa [last] using tokenStart_end) trivial
        (by simp [last])
      exact ⟨_, found, Or.inr ⟨none, rfl⟩⟩
  · rw [quoted] at stored last
    have length : p + (doubled value).length + 3 = limit := by
      simp at last
      omega
    have found := @readValue_quoted memory limit p value [] (by simpa using stored) (by simp)
      (by simp [length]) (by simp [length])
    simp only [List.length_nil, Nat.add_zero, length] at found
    exact ⟨_, found, Or.inl rfl⟩

/-- The last element of the text, with a value -/
theorem readElement_last (equals : memory p = '='.toUInt8)
    (stored : Holds memory (p + 1) (storeValue value allowUnquoted))
    (last : p + 1 + (storeValue value allowUnquoted).length = limit) :
    ∃ result, Gives memory
        (readElement load limit (.mk outer (done ++ [(name, .new)])) done.length p)
        (.mk outer (done ++ [(name, .mk value [])]), result) ∧
      (result = .goOn limit ∨ ∃ after, result = .stop after) := by
  rcases readValue_last stored last with ⟨result, found, ends⟩
  refine ⟨result, (peek_gives equals).bind ?_, ends⟩
  simp only [if_true]
  refine found.bind ?_
  simp only [Sts.modifyChild_last, Option.elim_none]
  rcases ends with rfl | ⟨after, rfl⟩
  · simp only [Nat.lt_irrefl, if_false]
    exact Gives.pure _
  · exact Gives.pure _

end Element

end Imconee.Config
