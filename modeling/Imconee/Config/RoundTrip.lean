import Imconee.Config.StoredElements

/-!
# A stored tree is read again

The elements of a stored block are read one after the other, and the blocks within it by
induction on the tree. The tree that has been stored comes back if no element in a line is
without a value before the last one; where the values in such a line are tame it does not.
-/

set_option autoImplicit false

namespace Imconee.Config

open Lib Traced Str

/-! ### The rest of a line as a value -/

/-- A text that a value without quotes can go over, from a character that begins no comment -/
structure Passes (text : List UInt8) : Prop where
  plain : ∀ c ∈ text, Plain '}'.toUInt8 c
  quiet : Quiet text
  first : ∀ c ∈ text.head?, c ≠ '*'.toUInt8 ∧ c ≠ '/'.toUInt8

theorem quiet_cons {c : UInt8} {text : List UInt8} (quiet : Quiet text)
    (first : ∀ d ∈ text.head?, ¬CommentMark c d) : Quiet (c :: text) := by
  rcases text with _ | ⟨d, text⟩
  · trivial
  · exact ⟨first d rfl, quiet⟩

theorem quiet_append {text more : List UInt8} (quiet : Quiet text) (next : Quiet more)
    (first : ∀ c ∈ more.head?, c ≠ '*'.toUInt8 ∧ c ≠ '/'.toUInt8) : Quiet (text ++ more) := by
  induction text with
  | nil => exact next
  | cons c text ih =>
      refine quiet_cons (ih quiet.tail) ?_
      intro d leads
      rcases text with _ | ⟨e, text⟩
      · rintro ⟨-, star | slash⟩
        · exact (first d leads).1 star
        · exact (first d leads).2 slash
      · obtain rfl : e = d := by simpa using leads
        exact quiet.1

theorem Passes.append {text more : List UInt8} (passes : Passes text) (next : Passes more) :
    Passes (text ++ more) := by
  refine ⟨?_, quiet_append passes.quiet next.quiet next.first, ?_⟩
  · intro c inside
    rcases List.mem_append.mp inside with inside | inside
    · exact passes.plain c inside
    · exact next.plain c inside
  · rcases text with _ | ⟨d, text⟩
    · exact next.first
    · exact passes.first

theorem Passes.nil : Passes [] := ⟨by simp, trivial, by simp⟩

/-- A character that begins no comment, before a text that can be gone over -/
theorem Passes.cons {c : UInt8} {text : List UInt8} (plain : Plain '}'.toUInt8 c)
    (star : c ≠ '*'.toUInt8) (slash : c ≠ '/'.toUInt8) (tame : IsTame text) :
    Passes (c :: text) := by
  refine ⟨?_, quiet_cons tame.2 fun d _ mark => slash mark.1, by simpa using ⟨star, slash⟩⟩
  intro d inside
  rcases List.mem_cons.mp inside with rfl | inside
  · exact plain
  · exact tame.1 d inside

theorem passes_of_word {name : List UInt8} (word : IsWord name) : Passes name := by
  refine ⟨?_, quiet_of_word word.chars, ?_⟩
  · intro c inside
    have char := plain_of_isWordChar (word.chars c inside)
    exact ⟨char.1.1, char.1.2.1, char.1.2.2.1, char.2.2.2⟩
  · intro c first
    have char := word.chars c (List.mem_of_mem_head? first)
    exact ⟨isWordChar_ne char (by decide), isWordChar_ne char (by decide)⟩

theorem doubled_cons (c : UInt8) (value : List UInt8) :
    doubled (c :: value) = (if c = '`'.toUInt8 then [c, c] else [c]) ++ doubled value := rfl

theorem head_doubled (value : List UInt8) : (doubled value).head? = value.head? := by
  rcases value with _ | ⟨c, value⟩
  · rfl
  · rw [doubled_cons]
    split <;> rfl

theorem IsTame.cons {c : UInt8} {text : List UInt8} (plain : Plain '}'.toUInt8 c)
    (tame : IsTame text) (first : ∀ d ∈ text.head?, ¬CommentMark c d) : IsTame (c :: text) := by
  refine ⟨?_, quiet_cons tame.2 first⟩
  intro d inside
  rcases List.mem_cons.mp inside with rfl | inside
  · exact plain
  · exact tame.1 d inside

theorem tame_doubled {value : List UInt8} (tame : IsTame value) : IsTame (doubled value) := by
  induction value with
  | nil => exact tame
  | cons c value ih =>
      rcases tame with ⟨plain, quiet⟩
      have rest := ih ⟨fun c inside => plain c (by simp [inside]), quiet.tail⟩
      have first := plain c (by simp)
      rw [doubled_cons]
      split
      · rename_i quote
        have silent : ∀ d, ¬CommentMark c d := by
          rintro d ⟨slash, -⟩
          rw [quote] at slash
          exact absurd slash (by decide)
        exact (rest.cons first fun d _ => silent d).cons first fun d _ => silent d
      · change IsTame (c :: doubled value)
        refine rest.cons first ?_
        intro d leads
        rw [head_doubled] at leads
        rcases value with _ | ⟨e, value⟩
        · simp at leads
        · obtain rfl : e = d := by simpa using leads
          exact quiet.1

/-- A tame value is written so that it can be gone over. -/
theorem passes_stored {value : List UInt8} {allowUnquoted : Bool} (tame : IsTame value) :
    IsTame (storeValue value allowUnquoted) := by
  rcases storeValue_cases value allowUnquoted with ⟨plain, -, -⟩ | quoted
  · rwa [plain]
  · have closing : Passes ['`'.toUInt8] :=
      Passes.cons ⟨by decide, by decide, by decide, by decide⟩ (by decide) (by decide)
        ⟨by simp, trivial⟩
    have inside := tame_doubled tame
    rw [quoted]
    refine IsTame.cons ⟨by decide, by decide, by decide, by decide⟩ ?_ ?_
    · refine ⟨?_, quiet_append inside.2 closing.quiet closing.first⟩
      intro c char
      rcases List.mem_append.mp char with char | char
      · exact inside.1 c char
      · exact closing.plain c char
    · rintro d - ⟨slash, -⟩
      exact absurd slash (by decide)

/-- The elements of a line can be gone over if their values are tame. -/
theorem passes_inner {level : ℕ} {elements : List (ElementName × Sts)}
    (named : ∀ element ∈ elements, ∃ name, element.1 = .named name ∧ IsWord name)
    (leaves : ∀ element ∈ elements, element.2.elements = [])
    (tame : ∀ element ∈ elements, IsTame element.2.value) :
    Passes (Sts.inner level true elements) := by
  induction elements with
  | nil => exact Passes.nil
  | cons element elements ih =>
      rcases element with ⟨name, sts⟩
      rcases named _ List.mem_cons_self with ⟨word, rfl, isWord⟩
      have rest := ih (fun element inside => named element (by simp [inside]))
        (fun element inside => leaves element (by simp [inside]))
        (fun element inside => tame element (by simp [inside]))
      have leaf : sts.elements = [] := leaves _ List.mem_cons_self
      have value : Passes (Sts.valueText (!true || elements.isEmpty) sts) := by
        simp only [Sts.valueText, leaf, if_true]
        split
        · exact Passes.cons ⟨by decide, by decide, by decide, by decide⟩ (by decide) (by decide)
            ⟨by simp, trivial⟩
        · exact Passes.cons ⟨by decide, by decide, by decide, by decide⟩ (by decide) (by decide)
            (passes_stored (tame _ List.mem_cons_self))
      have space : Passes (Sts.between level true elements) := by
        simp only [Sts.between]
        split
        · exact Passes.nil
        · exact Passes.cons ⟨by decide, by decide, by decide, by decide⟩ (by decide) (by decide)
            ⟨by simp, trivial⟩
      have whole := (passes_of_word isWord).append (value.append (space.append rest))
      simpa [Sts.inner, Sts.braced, leaf, Sts.nameText, Sts.key] using whole

theorem endsWord_append {text more : List UInt8} (ends : EndsWord more) (some : more ≠ []) :
    EndsWord (text ++ more) := by
  intro c last
  rw [List.getLast?_append_of_ne_nil text some] at last
  exact ends c last

theorem endsWord_stored {value : List UInt8} (allowUnquoted : Bool) :
    EndsWord ('='.toUInt8 :: storeValue value allowUnquoted) := by
  rcases storeValue_cases value allowUnquoted with ⟨plain, -, bare⟩ | quoted
  · rw [plain]
    rcases eq_or_ne value [] with rfl | some
    · intro c last
      obtain rfl : '='.toUInt8 = c := by simpa using last
      decide
    · exact @endsWord_append ['='.toUInt8] _ bare.endsWord some
  · rw [quoted]
    refine @endsWord_append ('='.toUInt8 :: '`'.toUInt8 :: doubled value) _ ?_ (by simp)
    intro c last
    obtain rfl : '`'.toUInt8 = c := by simpa using last
    decide

theorem inner_ne_nil {level : ℕ} {oneLine : Bool} {elements : List (ElementName × Sts)}
    (named : ∀ element ∈ elements, ∃ name, element.1 = .named name ∧ IsWord name)
    (some : elements ≠ []) :
    ∃ d more, Sts.inner level oneLine elements = d :: more ∧ isWordChar d = true := by
  rcases List.exists_cons_of_ne_nil some with ⟨⟨name, sts⟩, rest, rfl⟩
  rcases named _ List.mem_cons_self with ⟨word, rfl, isWord⟩
  rcases List.exists_cons_of_ne_nil isWord.nonempty with ⟨d, more, rfl⟩
  exact ⟨d, _, rfl, isWord.chars d List.mem_cons_self⟩

/-- A line ends with no blank. -/
theorem endsWord_inner {level : ℕ} {elements : List (ElementName × Sts)}
    (named : ∀ element ∈ elements, ∃ name, element.1 = .named name ∧ IsWord name)
    (leaves : ∀ element ∈ elements, element.2.elements = []) :
    EndsWord (Sts.inner level true elements) := by
  induction elements with
  | nil =>
      intro c last
      simp [Sts.inner] at last
  | cons element elements ih =>
      rcases element with ⟨name, sts⟩
      have leaf : sts.elements = [] := leaves _ List.mem_cons_self
      rcases eq_or_ne elements [] with rfl | more
      · have value : EndsWord (Sts.valueText true sts) ∧ Sts.valueText true sts ≠ [] := by
          simp only [Sts.valueText, leaf, if_true]
          split
          · exact ⟨@endsWord_stored [] true, by simp⟩
          · exact ⟨endsWord_stored true, by simp⟩
        simpa [Sts.inner, Sts.braced, Sts.between, leaf] using
          @endsWord_append (Sts.nameText name) _ value.1 value.2
      · have others : ∀ element ∈ elements, ∃ name, element.1 = .named name ∧ IsWord name :=
          fun element inside => named element (by simp [inside])
        rcases @inner_ne_nil level true _ others more with ⟨d, text, whole, -⟩
        have rest := ih others fun element inside => leaves element (by simp [inside])
        have nonempty : Sts.inner level true elements ≠ [] := by simp [whole]
        simp only [Sts.inner, ← List.append_assoc]
        exact endsWord_append rest nonempty

/-! ### Calls of `read_sts` in a row -/

section Load

variable {memory : ℕ → UInt8} {limit fuel s : ℕ} {self next : Sts}

theorem load_goOn {after : ℕ} {result : Sts × Option ℕ}
    (first : Gives memory (readSts (load limit fuel) limit self s) (next, .goOn after))
    (rest : Gives memory (load limit fuel next (some after)) result) :
    Gives memory (load limit (fuel + 1) self (some s)) result := by
  have marked : Gives memory (mark (.call s (.goOn after)) : Parser Unit) () := Gives.look _ _
  exact first.bind (marked.bind rest)

theorem load_stop {after : Option ℕ}
    (first : Gives memory (readSts (load limit fuel) limit self s) (next, .stop after)) :
    Gives memory (load limit (fuel + 1) self (some s)) (next, after) := by
  have marked : Gives memory (mark (.call s (.stop after)) : Parser Unit) () := Gives.look _ _
  exact first.bind (marked.bind (Gives.pure _))

/-- The end of a block -/
theorem readSts_close {place : ℕ} {space more : List UInt8}
    (ahead : Ahead memory limit s place space '}'.toUInt8 more) :
    Gives memory (readSts (load limit fuel) limit self s) (self, .stop (some (place + 1))) := by
  have closing : memory place = '}'.toUInt8 := ahead.at_place.holds.1
  have skipped : Gives memory (commentBefore self s place) self :=
    commentBefore_gives (holds_append.mp ahead.holds).1 ahead.blank ahead.reached.symm
  refine ahead.starts.bind (skipped.bind ((peek_gives closing).bind ?_))
  simp only [if_true]
  exact Gives.pure _

/-- The end of the text -/
theorem readSts_end {space : List UInt8} (holds : Holds memory s space)
    (blank : ∀ c ∈ space, tokenCheck c = false) (last : s + space.length = limit) :
    Gives memory (readSts (load limit fuel) limit self s) (self, .stop none) :=
  (tokenStart_nothing holds blank last).bind (Gives.pure _)

end Load

/-! ### A block -/

/-- What ends the text of a block -/
def closing (level : ℕ) : List UInt8 := if 0 < level then ['}'.toUInt8] else []

/-- The text of the block that is stored is read as it is to be read, wherever it stands. -/
def ReadsBack (level : ℕ) (sts : Sts) : Prop :=
  ∀ (memory : ℕ → UInt8) (value : List UInt8) (limit start stop fuel : ℕ),
    Holds memory start (sts.store level ++ ['}'.toUInt8]) →
    stop = start + (sts.store level ++ ['}'.toUInt8]).length → stop ≤ limit →
    limit - start < fuel →
    Gives memory (load limit fuel (.mk value []) (some start))
      (.mk value (sts.reread level).elements, some stop)

section Block

variable {memory : ℕ → UInt8} {limit level : ℕ} {oneLine : Bool} {outer : List UInt8}

theorem tokenCheck_newLine (level : ℕ) : ∀ c ∈ Sts.newLine level, tokenCheck c = false := by
  intro c inside
  simp only [Sts.newLine, List.mem_append, List.mem_cons, List.not_mem_nil, or_false,
    List.mem_replicate] at inside
  rcases inside with (rfl | rfl) | ⟨-, rfl⟩ <;> decide

theorem tokenCheck_between (others : List (ElementName × Sts)) :
    ∀ c ∈ Sts.between level oneLine others, tokenCheck c = false := by
  simp only [Sts.between]
  split
  · split
    · exact tokenCheck_newLine _
    · simp
  · split
    · intro c inside
      obtain rfl : c = ' '.toUInt8 := by simpa using inside
      decide
    · exact tokenCheck_newLine _

/-- What comes behind an element: the next one, or the end of the block, if not of the text -/
theorem rest_cases {elements : List (ElementName × Sts)}
    (named : ∀ element ∈ elements, ∃ name, element.1 = .named name ∧ IsWord name) :
    (elements = [] ∧ level = 0) ∨
      ∃ d more, Sts.inner level oneLine elements ++ closing level = d :: more ∧
        (StartsToken d ∧ d ≠ '`'.toUInt8) ∧ d ≠ '{'.toUInt8 ∧
          (elements = [] → d = '}'.toUInt8 ∧ more = []) := by
  rcases eq_or_ne elements [] with rfl | some
  · rcases Nat.eq_zero_or_pos level with outermost | inside
    · exact Or.inl ⟨rfl, outermost⟩
    · refine Or.inr ⟨'}'.toUInt8, [], by simp [Sts.inner, closing, inside], ?_, by decide, by simp⟩
      exact ⟨⟨by decide, by decide⟩, by decide⟩
  · rcases @inner_ne_nil level oneLine _ named some with ⟨d, more, whole, char⟩
    have word := plain_of_isWordChar char
    refine Or.inr ⟨d, more ++ closing level, by simp [whole], ⟨word.2.2.1, ?_⟩, word.1.2.2.1, ?_⟩
    · exact isWordChar_ne char (by decide)
    · exact fun none => absurd none some

/-- What is between an element and what comes next: blanks that a value in quotes has behind it,
or what ends a value. -/
theorem between_cases {others : List (ElementName × Sts)} {d : UInt8}
    (last : others = [] → 0 < level ∧ d = '}'.toUInt8) :
    ∃ blanks space, Sts.between level oneLine others = blanks ++ space ∧
      (∀ c ∈ blanks, IsBlank c) ∧ (∀ c ∈ space.head?, ¬IsBlank c) ∧
      ((!oneLine || others.isEmpty) = true → blanks = [] ∧ EndsBare space d) := by
  have line (level : ℕ) : ∀ c ∈ (Sts.newLine level).head?, ¬IsBlank c := by
    intro c leads
    obtain rfl : '\r'.toUInt8 = c := by simpa [Sts.newLine] using leads
    decide
  rcases eq_or_ne others [] with rfl | some
  · rcases last rfl with ⟨inside, rfl⟩
    cases oneLine with
    | true =>
        exact ⟨[], [], by simp [Sts.between], by simp, by simp,
          fun _ => ⟨rfl, Or.inr ⟨rfl, by simp⟩⟩⟩
    | false =>
        refine ⟨[], Sts.newLine (level - 1), by simp [Sts.between, inside], by simp, line _, ?_⟩
        exact fun _ => ⟨rfl, Or.inl rfl⟩
  · cases oneLine with
    | true =>
        refine ⟨[' '.toUInt8], [], by simp [Sts.between, some], ?_, by simp, by simp [some]⟩
        intro c inside
        obtain rfl : c = ' '.toUInt8 := by simpa using inside
        decide
    | false =>
        refine ⟨[], Sts.newLine level, by simp [Sts.between, some], by simp, line _, ?_⟩
        exact fun _ => ⟨rfl, Or.inl rfl⟩

/-- A call of `read_sts` that goes on, with white space before the rest of the block -/
def GoesOn (memory : ℕ → UInt8) (limit fuel s : ℕ) (self next : Sts) (rest : List UInt8)
    (stop : ℕ) : Prop :=
  ∃ after kept, Gives memory (readSts (load limit fuel) limit self s) (next, .goOn after) ∧
    Holds memory after (kept ++ rest) ∧ (∀ c ∈ kept, tokenCheck c = false) ∧
    after + (kept ++ rest).length = stop ∧ s < after

variable {fuel s stop : ℕ} {space name : List UInt8} {sts : Sts}
  {done others : List (ElementName × Sts)} {rest : List UInt8}

/-- The text at the mark behind a name -/
theorem split_name (blanks : List UInt8) {c : UInt8}
    (holds : Holds memory s (space ++ (name ++ (blanks ++ c :: rest))))
    (reached : s + (space ++ (name ++ (blanks ++ c :: rest))).length = stop) :
    ∃ p, p = s + (space ++ (name ++ blanks)).length ∧
      Holds memory s (space ++ (name ++ blanks) ++ [c]) ∧ memory p = c ∧
      Holds memory (p + 1) rest ∧ p + 1 + rest.length = stop := by
  have whole : Holds memory s ((space ++ (name ++ blanks) ++ [c]) ++ rest) := by
    simpa using holds
  rcases holds_append.mp whole with ⟨front, behind⟩
  have length : s + (space ++ (name ++ blanks) ++ [c]).length =
      s + (space ++ (name ++ blanks)).length + 1 := by
    rw [List.length_append, List.length_singleton, Nat.add_assoc]
  rw [length] at behind
  refine ⟨_, rfl, front, memory_eq front, behind, ?_⟩
  simp only [List.length_append, List.length_cons] at reached ⊢
  omega

/-- A name that has not been there yet -/
theorem readSts_fresh {blanks : List UInt8} {c : UInt8} {place : ℕ} {result : Sts × ReadResult}
    (holds : Holds memory s (space ++ (name ++ blanks) ++ [c]))
    (blank : ∀ c ∈ space, tokenCheck c = false) (isWord : IsWord name)
    (isBlank : ∀ c ∈ blanks, IsBlank c) (ends : c = '='.toUInt8 ∨ c = '{'.toUInt8)
    (behind : place = s + (space ++ (name ++ blanks)).length) (inside : place < limit)
    (fresh : ∀ element ∈ done, element.1 ≠ .named name)
    (next : Gives memory (readElement (load limit fuel) limit
      (.mk outer (done ++ [(.named name, .new)])) done.length place) result) :
    Gives memory (readSts (load limit fuel) limit (.mk outer done) s) result := by
  apply readSts_name holds blank isWord isBlank ends behind inside
  simpa only [Sts.addBlock_fresh isWord.nonempty fresh] using next

/-- An element without a block, and something behind it -/
theorem goesOn_leaf {d : UInt8} {more : List UInt8}
    (holds : Holds memory s (space ++ (name ++ ('='.toUInt8 ::
      (storeValue sts.value (!oneLine || others.isEmpty) ++
        (Sts.between level oneLine others ++ d :: more))))))
    (reached : s + (space ++ (name ++ ('='.toUInt8 ::
      (storeValue sts.value (!oneLine || others.isEmpty) ++
        (Sts.between level oneLine others ++ d :: more))))).length = stop)
    (inside : stop ≤ limit) (blank : ∀ c ∈ space, tokenCheck c = false) (isWord : IsWord name)
    (fresh : ∀ element ∈ done, element.1 ≠ .named name)
    (token : StartsToken d ∧ d ≠ '`'.toUInt8) (other : d ≠ '{'.toUInt8)
    (last : others = [] → 0 < level ∧ d = '}'.toUInt8)
    (written : sts.value = [] → (!oneLine || others.isEmpty) = true) :
    GoesOn memory limit fuel s (.mk outer done)
      (.mk outer (done ++ [(.named name, .mk sts.value [])])) (d :: more) stop := by
  rcases @between_cases level oneLine _ _ last with ⟨blanks, kept, split, isBlank, unblank, ends⟩
  have allSpace : ∀ c ∈ kept, tokenCheck c = false := by
    intro c char
    exact tokenCheck_between others c (by rw [split]; exact List.mem_append_right blanks char)
  rw [split] at holds reached
  set stored := storeValue sts.value (!oneLine || others.isEmpty) with stored_eq
  rcases split_name [] holds reached with ⟨p, p_eq, front, equals, behind, total⟩
  have whole : Holds memory (p + 1) ((stored ++ blanks) ++ (kept ++ d :: more)) := by
    simpa using behind
  rcases holds_append.mp whole with ⟨value, after⟩
  set next := p + 1 + (stored ++ blanks).length with next_eq
  have before : s ≤ p := by omega
  have length : next + kept.length + 1 + more.length = stop := by
    simp only [List.length_append, List.length_cons, next_eq] at total ⊢
    omega
  have ahead : Ahead memory limit next (next + kept.length) kept d more :=
    ⟨after, allSpace, rfl, token, by omega⟩
  rcases @readElement_leaf memory limit (load limit fuel) p next (next + kept.length) outer done
      (.named name) sts.value blanks kept more d (!oneLine || others.isEmpty) equals value next_eq
      ahead isBlank unblank (fun empty => (ends (written empty)).1) (fun alone => (ends alone).2)
      other with ⟨final, left, read, ahead', le⟩
  have moved : s < next := by omega
  refine ⟨final, left, ?_, ahead'.holds, ahead'.blank, ?_, by omega⟩
  · exact readSts_fresh front blank isWord (by simp) (Or.inl rfl) p_eq (by omega) fresh read
  · have placed := ahead'.reached
    simp only [List.length_append, List.length_cons]
    omega

/-- The last element of the text, without a block -/
theorem stops_leaf {allowUnquoted : Bool}
    (holds : Holds memory s
      (space ++ (name ++ ('='.toUInt8 :: storeValue sts.value allowUnquoted))))
    (reached : s + (space ++ (name ++ ('='.toUInt8 :: storeValue sts.value allowUnquoted))).length =
      limit)
    (blank : ∀ c ∈ space, tokenCheck c = false) (isWord : IsWord name)
    (fresh : ∀ element ∈ done, element.1 ≠ .named name) :
    ∃ result, Gives memory (readSts (load limit fuel) limit (.mk outer done) s)
        (.mk outer (done ++ [(.named name, .mk sts.value [])]), result) ∧
      (result = .goOn limit ∧ s < limit ∨ ∃ after, result = .stop after) := by
  rcases split_name [] holds reached with ⟨p, p_eq, front, equals, value, last⟩
  rcases @readElement_last memory limit (load limit fuel) p outer done (.named name) sts.value
      allowUnquoted equals value last with ⟨result, read, ends⟩
  refine ⟨result, ?_, ends.imp_left fun same => ⟨same, by omega⟩⟩
  exact readSts_fresh front blank isWord (by simp) (Or.inl rfl) p_eq (by omega) fresh read

/-- An element with a block, and perhaps with a value -/
theorem goesOn_block (reads : ReadsBack (level + 1) sts)
    (holds : Holds memory s (space ++ (name ++ ((if sts.value = [] then []
      else '='.toUInt8 :: storeValue sts.value true) ++ (' '.toUInt8 :: '{'.toUInt8 ::
        (sts.store (level + 1) ++ ['}'.toUInt8]) ++ (Sts.between level false others ++ rest))))))
    (reached : s + (space ++ (name ++ ((if sts.value = [] then []
      else '='.toUInt8 :: storeValue sts.value true) ++ (' '.toUInt8 :: '{'.toUInt8 ::
        (sts.store (level + 1) ++ ['}'.toUInt8]) ++
          (Sts.between level false others ++ rest))))).length = stop)
    (inside : stop ≤ limit) (enough : limit - (s + 1) < fuel)
    (blank : ∀ c ∈ space, tokenCheck c = false) (isWord : IsWord name)
    (fresh : ∀ element ∈ done, element.1 ≠ .named name) :
    GoesOn memory limit fuel s (.mk outer done)
      (.mk outer (done ++ [(.named name, sts.reread (level + 1))])) rest stop := by
  set child := sts.store (level + 1) ++ ['}'.toUInt8] with child_eq
  have reread : Sts.mk sts.value (sts.reread (level + 1)).elements = sts.reread (level + 1) := by
    cases sts
    rfl
  rcases eq_or_ne sts.value [] with nothing | valued
  · simp only [nothing, if_true, List.nil_append, List.cons_append] at holds reached
    rcases split_name [' '.toUInt8] holds reached with ⟨p, p_eq, front, brace, behind, total⟩
    rcases holds_append.mp behind with ⟨inner, after⟩
    rw [List.length_append, ← Nat.add_assoc] at total
    have loaded := reads memory [] limit (p + 1) (p + 1 + child.length) fuel inner rfl (by omega)
      (by omega)
    rw [← nothing, reread] at loaded
    refine ⟨p + 1 + child.length, Sts.between level false others, ?_, after,
      tokenCheck_between others, total, by omega⟩
    apply readSts_fresh front blank isWord _ (Or.inr rfl) p_eq (by omega) fresh
    · exact readElement_block brace (by rwa [nothing] at loaded)
    · intro c inside
      obtain rfl : c = ' '.toUInt8 := by simpa using inside
      decide
  · simp only [valued, if_false, List.cons_append] at holds reached
    rcases split_name [] holds reached with ⟨p, p_eq, front, equals, behind, total⟩
    set stored := storeValue sts.value true with stored_eq
    have whole : Holds memory (p + 1) ((stored ++ [' '.toUInt8]) ++ ('{'.toUInt8 ::
        (child ++ (Sts.between level false others ++ rest)))) := by
      simpa using behind
    rcases holds_append.mp whole with ⟨value, braced⟩
    set q := p + 1 + (stored ++ [' '.toUInt8]).length with q_eq
    rcases holds_append.mp braced.2 with ⟨inner, after⟩
    have length : q + 1 + child.length + (Sts.between level false others ++ rest).length =
        stop := by
      simp only [List.length_append, List.length_cons, List.length_nil, q_eq] at total ⊢
      omega
    have loaded := reads memory sts.value limit (q + 1) (q + 1 + child.length) fuel inner rfl
      (by omega) (by omega)
    rw [reread] at loaded
    have ahead : Ahead memory limit q q [] '{'.toUInt8
        (child ++ (Sts.between level false others ++ rest)) :=
      ⟨braced, by simp, by simp, ⟨⟨by decide, by decide⟩, by decide⟩, by omega⟩
    refine ⟨q + 1 + child.length, Sts.between level false others, ?_, after,
      tokenCheck_between others, length, by omega⟩
    apply readSts_fresh front blank isWord (by simp) (Or.inl rfl) p_eq (by omega) fresh
    apply readElement_both equals value q_eq ahead _ valued loaded
    intro c inside
    obtain rfl : c = ' '.toUInt8 := by simpa using inside
    decide

/-- An element without a value in a line takes the rest of the line for its value. -/
theorem goesOn_cut
    (holds : Holds memory s (space ++ (name ++ ('='.toUInt8 :: ' '.toUInt8 ::
      (Sts.inner level true others ++ ['}'.toUInt8])))))
    (reached : s + (space ++ (name ++ ('='.toUInt8 :: ' '.toUInt8 ::
      (Sts.inner level true others ++ ['}'.toUInt8])))).length = stop)
    (inside : stop ≤ limit) (blank : ∀ c ∈ space, tokenCheck c = false) (isWord : IsWord name)
    (fresh : ∀ element ∈ done, element.1 ≠ .named name)
    (named : ∀ element ∈ others, ∃ name, element.1 = .named name ∧ IsWord name)
    (leaves : ∀ element ∈ others, element.2.elements = [])
    (tame : ∀ element ∈ others, IsTame element.2.value) (more : others ≠ []) :
    GoesOn memory limit fuel s (.mk outer done)
      (.mk outer (done ++ [(.named name, .mk (Sts.inner level true others) [])])) ['}'.toUInt8]
      stop := by
  rcases @inner_ne_nil level true _ named more with ⟨d, behind, whole, char⟩
  have passes := @passes_inner level _ named leaves tame
  have ends := @endsWord_inner level _ named leaves
  set line := Sts.inner level true others with line_eq
  rcases split_name [] holds reached with ⟨p, p_eq, front, equals, after, total⟩
  rcases after with ⟨separator, after⟩
  rcases holds_append.mp after with ⟨value, closing⟩
  set place := p + 2 + line.length with place_eq
  have total : place + 1 = stop := by
    simp only [List.length_append, List.length_cons, List.length_nil, place_eq] at total ⊢
    omega
  have ahead : Ahead memory limit place place [] '}'.toUInt8 [] :=
    ⟨closing, by simp, rfl, ⟨⟨by decide, by decide⟩, by decide⟩, by omega⟩
  have first : ∀ c ∈ line.head?, ¬IsBlank c ∧ c ≠ '`'.toUInt8 := by
    intro c leads
    obtain rfl : d = c := by simpa [whole] using leads
    exact ⟨(plain_of_isWordChar char).2.1, isWordChar_ne char (by decide)⟩
  have found := @readValue_bare memory limit p (p + 2) [' '.toUInt8] line [] [] (some place)
    passes.plain passes.quiet first ends ⟨separator, trivial⟩ rfl (by simpa using value) (by
      intro c inside
      obtain rfl : c = ' '.toUInt8 := by simpa using inside
      decide) (by simp) (by simp) (by omega)
    (by simpa [← place_eq] using ahead.stops (Or.inr ⟨rfl, Or.inr rfl⟩))
    (by simpa [← place_eq] using ahead.starts) trivial (by simp [place_eq])
  have noBlock : memory place ≠ '{'.toUInt8 := by
    rw [closing.1]
    decide
  refine ⟨place, [], ?_, closing, by simp, by simpa using total, by omega⟩
  exact readSts_fresh front blank isWord (by simp) (Or.inl rfl) p_eq (by omega) fresh
    (readElement_value equals found noBlock)

/-- Nothing but the end of the block is left. -/
theorem load_close {self : Sts} (holds : Holds memory s (space ++ closing level))
    (blank : ∀ c ∈ space, tokenCheck c = false)
    (reached : s + (space ++ closing level).length = stop) (inside : stop ≤ limit)
    (outermost : level = 0 → stop = limit) (enough : limit - s < fuel) :
    ∃ final, Gives memory (load limit fuel self (some s)) (self, final) ∧
      (0 < level → final = some stop) := by
  obtain ⟨fuel, rfl⟩ : ∃ less, fuel = less + 1 := ⟨fuel - 1, by omega⟩
  rcases Nat.eq_zero_or_pos level with top | inner
  · simp only [closing, top, Nat.lt_irrefl, if_false, List.append_nil] at holds reached
    have last : s + space.length = limit := by
      have same := outermost top
      omega
    exact ⟨none, load_stop (readSts_end holds blank last), fun inner => by omega⟩
  · simp only [closing, inner, if_true] at holds reached
    have total : s + space.length + 1 = stop := by
      simp at reached
      omega
    have ahead : Ahead memory limit s (s + space.length) space '}'.toUInt8 [] :=
      ⟨holds, blank, rfl, ⟨⟨by decide, by decide⟩, by decide⟩, by omega⟩
    refine ⟨some stop, ?_, fun _ => rfl⟩
    rw [← total]
    exact load_stop (readSts_close ahead)

/-- What is known of the elements of a block -/
structure Legible (level : ℕ) (oneLine : Bool) (elements : List (ElementName × Sts)) : Prop where
  leaves : oneLine = true → 0 < level ∧ ∀ element ∈ elements, element.2.elements = []
  tame : oneLine = true → (∀ element ∈ elements.dropLast, element.2.value ≠ []) ∨
    ∀ element ∈ elements, IsTame element.2.value
  named : ∀ element ∈ elements, ∃ name, element.1 = .named name ∧ IsWord name
  children : ∀ element ∈ elements, WellNamed element.2
  reads : ∀ element ∈ elements, ReadsBack (level + 1) element.2

theorem Legible.tail {element : ElementName × Sts}
    (legible : Legible level oneLine (element :: others)) : Legible level oneLine others where
  leaves line := by
    rcases legible.leaves line with ⟨inner, leaves⟩
    exact ⟨inner, fun element inside => leaves element (by simp [inside])⟩
  tame line := by
    rcases legible.tame line with valued | tame
    · left
      intro element inside
      apply valued element
      rcases others with _ | ⟨second, others⟩
      · simp at inside
      · simp [inside]
    · exact Or.inr fun element inside => tame element (by simp [inside])
  named element inside := legible.named element (by simp [inside])
  children element inside := legible.children element (by simp [inside])
  reads element inside := legible.reads element (by simp [inside])

/-- How an element without a block is written, if it does not take the rest of a line -/
theorem valueText_leaf (leaf : sts.elements = [])
    (written : sts.value = [] → (!oneLine || others.isEmpty) = true) :
    Sts.valueText (!oneLine || others.isEmpty) sts =
      '='.toUInt8 :: storeValue sts.value (!oneLine || others.isEmpty) := by
  simp only [Sts.valueText, leaf, if_true]
  split
  · rename_i nothing
    rw [nothing, written nothing]
    rfl
  · rfl

theorem reread_leaf (leaf : sts.elements = []) : sts.reread level = .mk sts.value [] := by
  cases sts
  rcases leaf with rfl
  rfl

/-- What is left of a block is read: the elements that it gives, and where the call ends. -/
def ReadsRest (memory : ℕ → UInt8) (limit level fuel s : ℕ) (outer : List UInt8)
    (done elements : List (ElementName × Sts)) (stop : ℕ) : Prop :=
  ∃ final, Gives memory (load limit fuel (.mk outer done) (some s))
      (.mk outer (done ++ elements), final) ∧
    (0 < level → final = some stop)

/-- An element is read first, and then what it leaves. -/
theorem ReadsRest.goOn {place : ℕ} {element : ElementName × Sts}
    (read : Gives memory (readSts (load limit fuel) limit (.mk outer done) s)
      (.mk outer (done ++ [element]), .goOn place))
    (left : ReadsRest memory limit level fuel place outer (done ++ [element]) others stop) :
    ReadsRest memory limit level (fuel + 1) s outer done (element :: others) stop := by
  rcases left with ⟨final, loaded, ends⟩
  exact ⟨final, load_goOn read (by simpa using loaded), ends⟩

/-- An element without a value in a line is the last one that is read of the block. -/
theorem readsRest_cut
    (holds : Holds memory s (space ++ (name ++ (Sts.valueText (!true || others.isEmpty) sts ++
      (Sts.braced level sts ++ (Sts.between level true others ++
        (Sts.inner level true others ++ closing level)))))))
    (blank : ∀ c ∈ space, tokenCheck c = false)
    (reached : s + (space ++ (name ++ (Sts.valueText (!true || others.isEmpty) sts ++
      (Sts.braced level sts ++ (Sts.between level true others ++
        (Sts.inner level true others ++ closing level)))))).length = stop)
    (inside : stop ≤ limit) (outermost : level = 0 → stop = limit) (enough : limit - s < fuel + 1)
    (isWord : IsWord name) (fresh : ∀ element ∈ done, element.1 ≠ .named name)
    (legible : Legible level true ((.named name, sts) :: others)) (nothing : sts.value = [])
    (more : others ≠ []) :
    ReadsRest memory limit level (fuel + 1) s outer done
      [(.named name, .mk (Sts.inner level true others) [])] stop := by
  rcases legible.leaves rfl with ⟨inner, leaves⟩
  have leaf : sts.elements = [] := leaves _ List.mem_cons_self
  have tame : ∀ element ∈ others, IsTame element.2.value := by
    rcases legible.tame rfl with valued | tame
    · have early : (ElementName.named name, sts) ∈
          ((ElementName.named name, sts) :: others).dropLast := by
        simp [List.dropLast_cons_of_ne_nil more]
      exact absurd nothing (valued _ early)
    · exact fun element among => tame element (by simp [among])
  simp only [Sts.valueText, Sts.braced, Sts.between, nothing, leaf, more, closing, inner,
    if_true, if_false, List.nil_append, List.cons_append] at holds reached
  rcases @goesOn_cut memory limit level outer fuel s stop space name done others holds reached
      inside blank isWord fresh legible.tail.named
      (fun element among => leaves element (by simp [among])) tame more with
    ⟨after, kept, read, holds, blank, reached, moved⟩
  apply ReadsRest.goOn read
  simpa [ReadsRest] using @load_close memory limit level fuel after stop kept
    (.mk outer (done ++ [(.named name, .mk (Sts.inner level true others) [])]))
    (by simpa [closing, inner] using holds) blank (by simpa [closing, inner] using reached)
    inside outermost (by omega)

/-- The last element of the text ends the call, unless it is a value in quotes. -/
theorem readsRest_last {allowUnquoted : Bool}
    (holds : Holds memory s
      (space ++ (name ++ ('='.toUInt8 :: storeValue sts.value allowUnquoted))))
    (reached : s + (space ++ (name ++ ('='.toUInt8 :: storeValue sts.value allowUnquoted))).length =
      limit)
    (blank : ∀ c ∈ space, tokenCheck c = false) (enough : limit - s < fuel + 1)
    (isWord : IsWord name) (fresh : ∀ element ∈ done, element.1 ≠ .named name) :
    ReadsRest memory limit 0 (fuel + 1) s outer done [(.named name, .mk sts.value [])] stop := by
  obtain ⟨result, read, ends⟩ :=
    @stops_leaf memory limit outer fuel s space name sts done _ holds reached blank isWord fresh
  rcases ends with ⟨rfl, moved⟩ | ⟨after, rfl⟩
  · rcases @load_close memory limit 0 fuel limit limit []
      (.mk outer (done ++ [(.named name, .mk sts.value [])])) trivial (by simp) rfl
      (Nat.le_refl limit) (fun _ => rfl) (by omega) with ⟨final, loaded, -⟩
    exact ⟨final, load_goOn read loaded, fun inner => by omega⟩
  · exact ⟨after, load_stop read, fun inner => by omega⟩

/-- The elements that are left of a block are read as they are to be read. -/
theorem load_inner {elements : List (ElementName × Sts)}
    (legible : Legible level oneLine elements)
    (distinct : ((done ++ elements).map Prod.fst).Nodup)
    (holds : Holds memory s (space ++ (Sts.inner level oneLine elements ++ closing level)))
    (blank : ∀ c ∈ space, tokenCheck c = false)
    (reached : s + (space ++ (Sts.inner level oneLine elements ++ closing level)).length = stop)
    (inside : stop ≤ limit) (outermost : level = 0 → stop = limit) (enough : limit - s < fuel) :
    ReadsRest memory limit level fuel s outer done
      (Sts.rereadElements level oneLine elements) stop := by
  induction elements generalizing done s fuel space with
  | nil =>
      simp only [Sts.inner, List.nil_append] at holds reached
      simpa [ReadsRest, Sts.rereadElements] using
        @load_close memory limit level fuel s stop space (.mk outer done) holds blank reached inside
          outermost enough
  | cons element others ih =>
      rcases element with ⟨name, sts⟩
      rcases legible.named _ List.mem_cons_self with ⟨word, rfl, isWord⟩
      obtain ⟨fuel, rfl⟩ : ∃ less, fuel = less + 1 := ⟨fuel - 1, by omega⟩
      have namedOthers := legible.tail.named
      have fresh : ∀ element ∈ done, element.1 ≠ .named word := by
        intro element among same
        have apart := (List.nodup_append.mp (by simpa using distinct)).2.2
        exact apart element.1 (List.mem_map_of_mem among) (.named word) (by simp) same
      -- what comes behind an element is read by the induction hypothesis
      have next : ∀ {sts'}, GoesOn memory limit fuel s (.mk outer done)
          (.mk outer (done ++ [(.named word, sts')]))
          (Sts.inner level oneLine others ++ closing level) stop →
          ReadsRest memory limit level (fuel + 1) s outer done
            ((.named word, sts') :: Sts.rereadElements level oneLine others) stop := by
        rintro sts' ⟨after, kept, read, holds, blank, reached, moved⟩
        apply ReadsRest.goOn read
        exact ih legible.tail (by simpa using distinct) holds blank reached (by omega)
      simp only [Sts.inner, Sts.nameText, Sts.key, Option.getD_some, List.append_assoc]
        at holds reached
      by_cases cut : (oneLine && sts.value.isEmpty && !others.isEmpty) = true
      · obtain ⟨⟨rfl, nothing⟩, more⟩ : (oneLine = true ∧ sts.value = []) ∧ others ≠ [] := by
          simpa using cut
        have line : Sts.storeElements level true false others = Sts.inner level true others := by
          simpa [Sts.before] using
            @Sts.storeElements_eq level true false others namedOthers legible.tail.children more
        simp only [Sts.rereadElements, cut, if_true, line]
        exact readsRest_cut holds blank reached inside outermost enough isWord fresh legible nothing
          more
      · have kept : Sts.rereadElements level oneLine ((.named word, sts) :: others) =
            (.named word, sts.reread (level + 1)) :: Sts.rereadElements level oneLine others := by
          simp only [Sts.rereadElements, cut, Bool.false_eq_true, if_false]
          rfl
        rw [kept]
        by_cases leaf : sts.elements = []
        · have written : sts.value = [] → (!oneLine || others.isEmpty) = true := by
            intro nothing
            simp only [nothing] at cut
            cases oneLine <;> simp_all
          simp only [valueText_leaf leaf written, Sts.braced, leaf, if_true, List.nil_append,
            List.cons_append] at holds reached
          rw [reread_leaf leaf]
          rcases @rest_cases level oneLine _ namedOthers with
            ⟨rfl, rfl⟩ | ⟨d, more, rest, token, other, last⟩
          · have single : oneLine = false := by
              by_contra line
              have inner := (legible.leaves (by simpa using line)).1
              omega
            simp only [single, Sts.between, Sts.inner, closing, List.append_nil, if_true,
              Nat.lt_irrefl, decide_false, Bool.and_false, Bool.false_eq_true, if_false]
              at holds reached
            exact readsRest_last holds (reached.trans (outermost rfl)) blank enough isWord fresh
          · apply next
            rw [rest] at holds reached ⊢
            apply goesOn_leaf holds reached inside blank isWord fresh token other _ written
            intro none
            refine ⟨?_, (last none).1⟩
            by_contra top
            simp [none, Sts.inner, closing, top] at rest
        · have single : oneLine = false := by
            by_contra line
            exact leaf ((legible.leaves (by simpa using line)).2 _ List.mem_cons_self)
          subst single
          simp only [Sts.valueText, Sts.braced, leaf, if_false, Bool.not_false, Bool.true_or,
            List.cons_append] at holds reached
          have moved : s < stop := by
            have long := List.length_pos_iff.mpr isWord.nonempty
            simp only [List.length_append] at reached
            omega
          apply next
          exact goesOn_block (legible.reads _ List.mem_cons_self) (by simpa using holds)
            (by simpa using reached) inside (by omega) blank isWord fresh

end Block

/-! ### The whole tree -/

theorem text_eq {level : ℕ} {value : List UInt8} {elements : List (ElementName × Sts)}
    (distinct : WellNamed (.mk value elements)) :
    ∃ space, (Sts.mk value elements).store level =
        space ++ Sts.inner level (Sts.oneLine level value elements) elements ∧
      (∀ c ∈ space, tokenCheck c = false) := by
  rcases distinct with ⟨-, named, children⟩
  rcases eq_or_ne elements [] with rfl | some
  · exact ⟨[], rfl, by simp⟩
  · refine ⟨Sts.before level (Sts.oneLine level value elements) true, ?_, ?_⟩
    · exact Sts.storeElements_eq named children some
    · simp only [Sts.before]
      split
      · exact tokenCheck_newLine level
      · simp

/-- Any block within a tree is read as it is to be read. -/
theorem readsBack {sts : Sts} (named : WellNamed sts) {level : ℕ} (inner : 0 < level)
    (tame : TameLines level sts) : ReadsBack level sts := by
  induction named generalizing level with
  | @mk value elements distinct named children ih =>
      rcases tame with ⟨here, within⟩
      intro memory outer limit start stop fuel holds reached inside enough
      rcases @text_eq level value elements (.mk distinct named children) with ⟨space, text, blank⟩
      have legible : Legible level (Sts.oneLine level value elements) elements :=
        ⟨fun line => ⟨inner, (Sts.oneLine_leaf line).2⟩, here, named, children,
          fun element among => ih element among (Nat.succ_pos level) (within element among)⟩
      have ending : closing level = ['}'.toUInt8] := by simp [closing, inner]
      rw [text, List.append_assoc, ← ending] at holds reached
      rcases @load_inner memory limit level _ outer fuel start stop space
        [] elements legible (by simpa using distinct) holds blank reached.symm inside (by omega)
        enough with ⟨final, loaded, ends⟩
      rw [ends inner] at loaded
      exact loaded

/-- The text of a tree is read as it is to be read. -/
theorem load_store {self : Sts} (named : WellNamed self) (tame : TameLines 0 self)
    {memory : ℕ → UInt8} {limit start fuel : ℕ} (holds : Holds memory start (self.store 0))
    (whole : limit = start + (self.store 0).length) (enough : limit - start < fuel) :
    ∃ final, Gives memory (load limit fuel .new (some start))
      (.mk [] (self.reread 0).elements, final) := by
  obtain ⟨space, text, blank⟩ : ∃ space, self.store 0 = space ++ (Sts.inner 0
      (Sts.oneLine 0 self.value self.elements) self.elements ++ closing 0) ∧
      ∀ c ∈ space, tokenCheck c = false := by
    cases self
    simpa [closing, Sts.value, Sts.elements] using @text_eq 0 _ _ named
  cases named with
  | @mk value elements distinct words children =>
      rcases tame with ⟨here, within⟩
      have legible : Legible 0 (Sts.oneLine 0 value elements) elements :=
        ⟨fun line => absurd (Sts.oneLine_leaf line).1 (Nat.lt_irrefl 0), here, words, children,
          fun element among => readsBack (children element among) (Nat.succ_pos 0)
            (within element among)⟩
      rw [text] at holds whole
      rcases @load_inner memory limit 0 _ [] fuel start limit space []
        elements legible (by simpa using distinct) holds blank whole.symm (Nat.le_refl limit)
        (fun _ => rfl) enough with ⟨final, loaded, -⟩
      exact ⟨final, loaded⟩

/-! ### The tree that comes back -/

section Reread

variable {level : ℕ} {elements : List (ElementName × Sts)}

/-- Where no element is without a value before the last one, nothing is cut off. -/
theorem rereadElements_eq {oneLine : Bool}
    (valued : oneLine = true → ∀ element ∈ elements.dropLast, element.2.value ≠ [])
    (same : ∀ element ∈ elements, element.2.reread (level + 1) = element.2) :
    Sts.rereadElements level oneLine elements = elements := by
  induction elements with
  | nil => rfl
  | cons element others ih =>
      rcases element with ⟨name, sts⟩
      have kept : ¬(oneLine && sts.value.isEmpty && !others.isEmpty) = true := by
        simp only [Bool.and_eq_true, Bool.not_eq_true', List.isEmpty_eq_false_iff,
          List.isEmpty_iff]
        rintro ⟨⟨line, nothing⟩, more⟩
        have early : (name, sts) ∈ ((name, sts) :: others).dropLast := by
          simp [List.dropLast_cons_of_ne_nil more]
        exact valued line _ early nothing
      have rest := ih (fun line element among => valued line element (by
          rcases others with _ | ⟨second, others⟩
          · simp at among
          · simp [among])) fun element among => same element (by simp [among])
      have child : Sts.rereadElement level (name, sts) = (name, sts) := by
        simp only [Sts.rereadElement, same (name, sts) List.mem_cons_self]
      simp only [Sts.rereadElements, kept, Bool.false_eq_true, if_false, child, rest]

theorem valued_of_rereadElements {oneLine : Bool}
    (same : Sts.rereadElements level oneLine elements = elements) :
    (oneLine = true → ∀ element ∈ elements.dropLast, element.2.value ≠ []) ∧
      ∀ element ∈ elements, element.2.reread (level + 1) = element.2 := by
  induction elements with
  | nil => simp
  | cons element others ih =>
      rcases element with ⟨name, sts⟩
      simp only [Sts.rereadElements] at same
      split at same
      · rename_i cut
        simp only [Bool.and_eq_true, Bool.not_eq_true', List.isEmpty_eq_false_iff] at cut
        simp only [List.cons.injEq] at same
        exact absurd same.2.symm cut.2
      · rename_i kept
        simp only [List.cons.injEq, Sts.rereadElement, Prod.mk.injEq, true_and] at same
        rcases ih same.2 with ⟨valued, children⟩
        refine ⟨?_, ?_⟩
        · intro line element among
          rcases eq_or_ne others [] with rfl | more
          · simp at among
          · rw [List.dropLast_cons_of_ne_nil more] at among
            rcases List.mem_cons.mp among with rfl | among
            · intro nothing
              simp [line, nothing, more] at kept
            · exact valued line element among
        · intro element among
          rcases List.mem_cons.mp among with rfl | among
          · exact same.1
          · exact children element among

end Reread

theorem reread_of_nothingEarly {level : ℕ} {sts : Sts} (early : NothingEarly level sts) :
    sts.reread level = sts := by
  induction early with
  | mk here _ ih => simp only [Sts.reread, rereadElements_eq here ih]

theorem nothingEarly_of_reread {sts : Sts} (named : WellNamed sts) {level : ℕ}
    (same : sts.reread level = sts) : NothingEarly level sts := by
  induction named generalizing level with
  | mk _ _ _ ih =>
      simp only [Sts.reread, Sts.mk.injEq, true_and] at same
      rcases valued_of_rereadElements same with ⟨valued, children⟩
      exact .mk valued fun element among => ih element among (children element among)

theorem tameLines_of_nothingEarly {level : ℕ} {sts : Sts} (early : NothingEarly level sts) :
    TameLines level sts := by
  induction early with
  | mk here _ ih => exact .mk (fun line => Or.inl (here line)) ih

/-- The elements that are read of the text of a tree, wherever it stands, are those of the tree. -/
def RoundTrips (self : Sts) : Prop :=
  ∀ (memory : ℕ → UInt8) (limit start fuel : ℕ), Holds memory start (self.store 0) →
    limit = start + (self.store 0).length → limit - start < fuel →
    ∃ read, Gives memory (load limit fuel .new (some start)) read ∧
      read.1.elements = self.elements

theorem holds_textAt_append (front text : List UInt8) (behind : UInt8) :
    Holds (textAt (front ++ text) behind) front.length text := by
  induction text generalizing front with
  | nil => trivial
  | cons c text ih =>
      refine ⟨by simp [textAt], ?_⟩
      simpa using ih (front ++ [c])

theorem holds_textAt (text : List UInt8) (behind : UInt8) : Holds (textAt text behind) 0 text :=
  holds_textAt_append [] text behind

/--
A stored tree is read again if each element in a line has a value, up to the last one of the
line; and only then, if in a line in which it is not so the values are tame.
-/
theorem roundTrips_iff {self : Sts} (named : WellNamed self) :
    (NothingEarly 0 self → RoundTrips self) ∧
      (TameLines 0 self → RoundTrips self → NothingEarly 0 self) := by
  constructor
  · intro early memory limit start fuel holds whole enough
    rcases load_store named (tameLines_of_nothingEarly early) holds whole enough with
        ⟨final, loaded⟩
    refine ⟨_, loaded, ?_⟩
    rw [reread_of_nothingEarly early]
    rfl
  · intro tame trips
    rcases trips (textAt (self.store 0) 0) (self.store 0).length 0
      ((self.store 0).length + 1) (holds_textAt _ 0) (by simp) (by omega) with ⟨read, gives, same⟩
    rcases load_store named tame (holds_textAt (self.store 0) 0)
      (by simp) (show (self.store 0).length - 0 < (self.store 0).length + 1 by omega) with
      ⟨final, loaded⟩
    have reread : (self.reread 0).elements = self.elements := by
      rw [← same, gives.unique loaded]
      rfl
    apply nothingEarly_of_reread named
    cases self
    simp only [Sts.reread, Sts.elements] at reread ⊢
    rw [reread]

/-- `k {a=x b=y}` -/
def valuedTree : Sts :=
  .mk [] [(.named (ascii ['k']), .mk []
    [(.named (ascii ['a']), .mk (ascii ['x']) []), (.named (ascii ['b']), .mk (ascii ['y']) [])])]

/-- `k {a= b=x}` -/
def earlyTree : Sts :=
  .mk [] [(.named (ascii ['k']), .mk []
    [(.named (ascii ['a']), .new), (.named (ascii ['b']), .mk (ascii ['x']) [])])]

theorem wellNamed_leaf (value : List UInt8) : WellNamed (.mk value []) :=
  .mk (by simp) (by simp) (by simp)

theorem wellNamed_line {k a b first second : List UInt8} (wordK : IsWord k) (wordA : IsWord a)
    (wordB : IsWord b) (apart : a ≠ b) :
    WellNamed
      (.mk [] [(.named k, .mk [] [(.named a, .mk first []), (.named b, .mk second [])])]) := by
  refine .mk (by simp) (by simpa using wordK) ?_
  intro block inside
  rcases List.mem_singleton.mp inside with rfl
  refine .mk (by simpa using apart) (by simpa using ⟨wordA, wordB⟩) ?_
  intro leaf inside
  rcases List.mem_pair.mp inside with rfl | rfl
  · exact wellNamed_leaf first
  · exact wellNamed_leaf second

theorem wellNamed_valuedTree : WellNamed valuedTree :=
  wellNamed_line (by decide +kernel) (by decide +kernel) (by decide +kernel) (by decide +kernel)

theorem wellNamed_earlyTree : WellNamed earlyTree :=
  wellNamed_line (by decide +kernel) (by decide +kernel) (by decide +kernel) (by decide +kernel)

theorem roundTrips_valuedTree : RoundTrips valuedTree :=
  (roundTrips_iff wellNamed_valuedTree).1 (nothingEarly_of_reread wellNamed_valuedTree rfl)

/-- The text of the tree -/
def earlyText : List UInt8 :=
  ascii ['k', ' ', '{', 'a', '=', ' ', 'b', '=', 'x', '}']

theorem not_roundTrips : ¬∀ self, WellNamed self → RoundTrips self := by
  intro trips
  have stored : earlyTree.store 0 = earlyText := by decide +kernel
  rcases trips earlyTree wellNamed_earlyTree (textAt earlyText 0) 10 0 11
    (by rw [stored]; exact holds_textAt earlyText 0) (by rw [stored]; rfl) (by decide) with
    ⟨read, gives, same⟩
  have loaded : Gives (textAt earlyText 0) (load 10 11 .new (some 0))
      (.mk [] [(.named (ascii ['k']), .mk []
        [(.named (ascii ['a']), .mk (ascii ['b', '=', 'x']) [])])], none) := ⟨_, rfl⟩
  rw [gives.unique loaded] at same
  simp [earlyTree, Sts.elements] at same

end Imconee.Config
