import Imconee.Config.Bounds
import Imconee.Config.Scanning
import Imconee.Tools.Replace

/-!
# How values are written

A value that is written for a text is found there again: it is put in quotes wherever the reader
would stop within it, or would take a blank at one of its ends for something else.
-/

set_option autoImplicit false

namespace Imconee.Config

open Lib Traced Str

/-! ### `store_value` -/

/-- Whether there is a comment mark in a text, as the loop of `store_value` looks for it -/
def findCommentMark : List UInt8 → Bool
  | c :: next :: value =>
      (c = '/'.toUInt8 && (next = '/'.toUInt8 || next = '*'.toUInt8)) ||
        findCommentMark (next :: value)
  | _ => false

/-- Any of these symbols mean that a text must be quoted. -/
def mustQuote : List UInt8 := ascii [' ', '\t', '\r', '\n', '`', '{', '}']

def storeValue (value : List UInt8) (allowUnquoted : Bool) : List UInt8 :=
  if allowUnquoted && !(value.any (mustQuote.contains ·)) && !findCommentMark value then value
  else '`'.toUInt8 :: replaceAll value ['`'.toUInt8] ['`'.toUInt8, '`'.toUInt8] ++ ['`'.toUInt8]

/-- A value that can do without quotes -/
structure IsBare (value : List UInt8) : Prop where
  plain : ∀ c ∈ value, Plain '}'.toUInt8 c ∧ ¬IsBlank c ∧ c ≠ '`'.toUInt8
  quiet : Quiet value

theorem quiet_of_findCommentMark {value : List UInt8} (absent : findCommentMark value = false) :
    Quiet value := by
  induction value with
  | nil => trivial
  | cons c value ih =>
      rcases value with _ | ⟨next, value⟩
      · trivial
      · simp only [findCommentMark, Bool.or_eq_false_iff] at absent
        refine ⟨?_, ih absent.2⟩
        rintro ⟨slash, mark⟩
        rcases mark with mark | mark <;> simp [slash, mark] at absent

theorem not_mem_mustQuote {c : UInt8} (free : c ∉ mustQuote) :
    Plain '}'.toUInt8 c ∧ ¬IsBlank c ∧ c ≠ '`'.toUInt8 := by
  simp only [mustQuote, ascii, List.map_cons, List.map_nil, List.mem_cons, List.not_mem_nil,
    or_false, not_or] at free
  simp only [Plain, IsBlank]
  tauto

/-- A value is written as it is where it can do without quotes, and else in quotes. -/
theorem storeValue_cases (value : List UInt8) (allowUnquoted : Bool) :
    (storeValue value allowUnquoted = value ∧ allowUnquoted = true ∧ IsBare value) ∨
      storeValue value allowUnquoted = '`'.toUInt8 :: doubled value ++ ['`'.toUInt8] := by
  simp only [storeValue]
  split
  · rename_i free
    simp only [Bool.and_eq_true, Bool.not_eq_eq_eq_not, Bool.not_true, List.any_eq_false,
      List.contains_iff_mem] at free
    refine Or.inl ⟨rfl, free.1.1, ?_, quiet_of_findCommentMark free.2⟩
    exact fun c inside => not_mem_mustQuote (free.1.2 c inside)
  · right
    have same : doubled value =
        value.flatMap fun d => if d = '`'.toUInt8 then ['`'.toUInt8, '`'.toUInt8] else [d] := by
      simp only [doubled]
      congr 1
      funext d
      split <;> simp_all
    rw [replaceAll_eq, same]

/-! ### The reader keeps the value of the block it is in -/

section Keeping

variable {memory : ℕ → UInt8} {limit : ℕ} {self : Sts}

@[simp]
theorem Sts.value_modifyChild (place : ℕ) (change : Sts → Sts) :
    (self.modifyChild place change).value = self.value := by
  simp only [modifyChild, value]

@[simp]
theorem Sts.value_addBlock (name : List UInt8) : (self.addBlock name).1.value = self.value := by
  simp only [addBlock]
  split
  · rfl
  · split <;> rfl

@[simp]
theorem Sts.value_comment (comment : Option (List UInt8)) :
    (comment.elim self self.addComment).value = self.value := by
  cases comment <;> rfl

theorem readBlock_keeps {load : Sts → Option ℕ → Parser (Sts × Option ℕ)} {sts s : ℕ} :
    Keeps memory (readBlock load self sts s) (·.1.value = self.value) := by
  apply Keeps.bind
  rintro ⟨child, next⟩
  cases next <;> exact Keeps.pure rfl

theorem commentBefore_keeps {start s : ℕ} :
    Keeps memory (commentBefore self start s) (·.value = self.value) := by
  apply Keeps.ite
  · intro _
    apply Keeps.bind
    intro comment
    apply Keeps.pure
    simp
  · exact fun _ => Keeps.pure rfl

theorem readElement_keeps {load : Sts → Option ℕ → Parser (Sts × Option ℕ)} {sts s : ℕ} :
    Keeps memory (readElement load limit self sts s) (·.1.value = self.value) := by
  apply Keeps.bind
  intro c
  apply Keeps.ite
  · intro _
    apply Keeps.bind
    intro v
    dsimp only
    split
    · exact Keeps.pure (by simp)
    · apply Keeps.ite
      · intro _
        apply Keeps.bind
        intro c
        apply Keeps.ite
        · intro _ r gives
          simpa using readBlock_keeps r gives
        · exact fun _ => Keeps.pure (by simp)
      · exact fun _ => Keeps.pure (by simp)
  · intro _
    apply Keeps.ite
    · exact fun _ => readBlock_keeps
    · exact fun _ => Keeps.pure rfl

theorem readSts_keeps {load : Sts → Option ℕ → Parser (Sts × Option ℕ)} {start : ℕ} :
    Keeps memory (readSts load limit self start) (·.1.value = self.value) := by
  apply Keeps.bind
  intro found
  cases found with
  | none => exact Keeps.pure rfl
  | some s =>
      refine Keeps.bind_of commentBefore_keeps ?_
      intro commented same
      apply Keeps.bind
      intro c
      apply Keeps.ite
      · exact fun _ => Keeps.pure same
      · intro _
        apply Keeps.bind
        rintro ⟨t, next⟩
        apply Keeps.bind
        intro name
        have added : (commented.addBlock name).1.value = self.value := by simp [same]
        generalize commented.addBlock name = block at added ⊢
        rcases block with ⟨self', sts⟩
        cases next with
        | none => exact Keeps.pure added
        | some next =>
            intro r gives
            exact (readElement_keeps r gives).trans added

theorem load_keeps {fuel : ℕ} {data : Option ℕ} :
    Keeps memory (load limit fuel self data) (·.1.value = self.value) := by
  induction fuel generalizing self data with
  | zero => exact Keeps.stuck
  | succ fuel ih =>
      cases data with
      | none => exact Keeps.pure rfl
      | some s =>
          refine Keeps.bind_of readSts_keeps ?_
          rintro ⟨next, result⟩ same
          apply Keeps.bind
          rintro ⟨⟩
          cases result with
          | goOn s =>
              intro r gives
              exact (ih r gives).trans same
          | stop s => exact Keeps.pure same

end Keeping

/-! ### One value -/

section Value

variable {memory : ℕ → UInt8} {limit : ℕ}

theorem IsBare.first {value : List UInt8} (bare : IsBare value) :
    ∀ c ∈ value.head?, ¬IsBlank c ∧ c ≠ '`'.toUInt8 := by
  intro c first
  exact (bare.plain c (List.mem_of_mem_head? first)).2

theorem IsBare.endsWord {value : List UInt8} (bare : IsBare value) : EndsWord value := by
  intro c last
  exact (bare.plain c (List.mem_of_getLast? last)).2.1

theorem readValue_quoted {p : ℕ} {value blanks : List UInt8}
    (holds : Holds memory (p + 1) ('`'.toUInt8 :: doubled value ++ ['`'.toUInt8] ++ blanks))
    (blank : ∀ c ∈ blanks, IsBlank c)
    (inside : p + (doubled value).length + 3 + blanks.length ≤ limit)
    (stops : p + (doubled value).length + 3 + blanks.length < limit →
      ¬IsBlank (memory (p + (doubled value).length + 3 + blanks.length)) ∧
        memory (p + (doubled value).length + 3 + blanks.length) ≠ '`'.toUInt8) :
    Gives memory (readValue limit p)
      { value, result := .goOn (p + (doubled value).length + 3 + blanks.length) } := by
  have first : memory (p + 1) = '`'.toUInt8 := holds.1
  have start : Gives memory (valueStart limit p) (p + 1, memory (p + 1)) := by
    apply @valueStart_gives memory limit p []
    · trivial
    · simp
    · simp
      omega
    · intro _
      simp only [List.length_nil, Nat.add_zero, first]
      decide
  have place : p + 2 + (doubled value).length + 1 + blanks.length =
      p + (doubled value).length + 3 + blanks.length := by omega
  have quoted : Gives memory (quotedValue limit (p + 2))
      { value, result := .goOn (p + 2 + (doubled value).length + 1 + blanks.length) } := by
    apply quotedValue_gives
    · simpa using holds.2
    · exact blank
    · omega
    · simpa only [place] using stops
  rw [place] at quoted
  refine start.bind ?_
  simpa only [first, if_true] using quoted

/-- What stops a bare value is neither a blank nor a quote. -/
theorem Stops.not_blank {p : ℕ} (stops : Stops memory limit '}'.toUInt8 p) (inside : p < limit) :
    ¬IsBlank (memory p) ∧ memory p ≠ '`'.toUInt8 := by
  rcases stops with last | ⟨-, stop | stop | stop | stop⟩
  · omega
  all_goals
    rw [stop]
    decide

theorem quiet_append_blanks {value blanks : List UInt8} (quiet : Quiet value)
    (blank : ∀ c ∈ blanks, IsBlank c) : Quiet (value ++ blanks) := by
  have alone : Quiet blanks := by
    induction blanks with
    | nil => trivial
    | cons c blanks ih =>
        have later := ih fun c inside => blank c (by simp [inside])
        rcases blanks with _ | ⟨next, blanks⟩
        · trivial
        · refine ⟨?_, later⟩
          rintro ⟨rfl, -⟩
          exact absurd (blank _ List.mem_cons_self) (by decide)
  induction value with
  | nil => exact alone
  | cons c value ih =>
      have later := ih quiet.tail
      rcases value with _ | ⟨next, value⟩
      · rcases blanks with _ | ⟨b, blanks⟩
        · trivial
        · refine ⟨?_, alone⟩
          rintro ⟨-, rfl | rfl⟩
          · exact absurd (blank _ List.mem_cons_self) (by decide)
          · exact absurd (blank _ List.mem_cons_self) (by decide)
      · exact ⟨quiet.1, later⟩

theorem plain_of_isBlank {addc c : UInt8} (other : ¬IsBlank addc) (blank : IsBlank c) :
    Plain addc c := by
  have apart : c ≠ addc := by
    rintro rfl
    exact other blank
  rcases blank with rfl | rfl
  · exact ⟨by decide, by decide, by decide, apart⟩
  · exact ⟨by decide, by decide, by decide, apart⟩

/-- A value without quotes, with blanks before and behind it -/
theorem readValue_bare {p start : ℕ} {lead value blanks behind : List UInt8} {next : Option ℕ}
    (bare : ∀ c ∈ value, Plain '}'.toUInt8 c) (quiet : Quiet value)
    (first : ∀ c ∈ value.head?, ¬IsBlank c ∧ c ≠ '`'.toUInt8) (ends : EndsWord value)
    (leading : Holds memory (p + 1) lead) (place : start = p + 1 + lead.length)
    (holds : Holds memory start (value ++ blanks))
    (before : ∀ c ∈ lead, IsBlank c) (blank : ∀ c ∈ blanks, IsBlank c)
    (nothing : value = [] → blanks = []) (inside : start < limit)
    (stops : Stops memory limit '}'.toUInt8 (start + (value ++ blanks).length))
    (starts : Gives memory (tokenStart limit (start + (value ++ blanks).length)) next)
    (rest : Holds memory (start + value.length) behind)
    (reach : next.getD limit = start + value.length + behind.length) :
    Gives memory (readValue limit p)
      ⟨value, commentBehind behind, ReadResult.of next⟩ := by
  have other : ¬IsBlank (memory start) ∧ memory start ≠ '`'.toUInt8 := by
    rcases value with _ | ⟨c, value⟩
    · simp only [nothing rfl, List.append_nil, List.length_nil, Nat.add_zero] at stops
      exact stops.not_blank inside
    · rw [holds.1]
      exact first c rfl
  have begins : Gives memory (valueStart limit p) (start, memory start) := by
    subst place
    apply valueStart_gives leading before (by omega)
    exact fun _ => other.1
  have found : Gives memory (tokenEnd limit '}'.toUInt8 start) (start + value.length, next) := by
    apply tokenEnd_gives (by decide) (by decide) holds
    · intro c char
      rcases List.mem_append.mp char with char | char
      · exact bare c char
      · exact plain_of_isBlank (by decide) (blank c char)
    · exact quiet_append_blanks quiet blank
    · exact ends
    · exact blank
    · exact nothing
    · exact stops
    · exact starts
  refine begins.bind ?_
  simp only [other.2, if_false]
  exact bareValue_gives found (holds_append.mp holds).1 rfl rest reach

end Value

end Imconee.Config
