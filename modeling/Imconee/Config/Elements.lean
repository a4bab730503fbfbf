import Imconee.Config.Quoting
import Mathlib.Data.FinEnum
import Mathlib.Data.List.TakeWhile

/-!
# One element of a text

A call of `read_sts` on a name, with white space before it, makes the element of that name and
reads on behind the name. A value that `store_value` has written is found there as it was.
-/

set_option autoImplicit false

namespace Imconee.Config

open Lib Traced Str

/-- Letters, digits, `-` and `_` -/
def isWordChar (c : UInt8) : Bool :=
  ('a'.toUInt8 ≤ c && c ≤ 'z'.toUInt8) || ('A'.toUInt8 ≤ c && c ≤ 'Z'.toUInt8) || isDigit c ||
    c = '-'.toUInt8 || c = '_'.toUInt8

/-- A name of one word -/
structure IsWord (name : List UInt8) : Prop where
  nonempty : name ≠ []
  chars : ∀ c ∈ name, isWordChar c = true

instance (name : List UInt8) : Decidable (IsWord name) :=
  decidable_of_iff (name ≠ [] ∧ ∀ c ∈ name, isWordChar c = true)
    ⟨fun word => ⟨word.1, word.2⟩, fun word => ⟨word.1, word.2⟩⟩

theorem isWordChar_ne {c other : UInt8} (word : isWordChar c = true)
    (separator : isWordChar other = false) : c ≠ other := by
  rintro rfl
  simp [word] at separator

theorem plain_of_isWordChar {c : UInt8} (word : isWordChar c = true) :
    Plain '='.toUInt8 c ∧ ¬IsBlank c ∧ StartsToken c ∧ c ≠ '}'.toUInt8 := by
  have space := @isWordChar_ne _ ' '.toUInt8 word (by decide)
  have tab := @isWordChar_ne _ '\t'.toUInt8 word (by decide)
  have cr := @isWordChar_ne _ '\r'.toUInt8 word (by decide)
  have lf := @isWordChar_ne _ '\n'.toUInt8 word (by decide)
  have brace := @isWordChar_ne _ '{'.toUInt8 word (by decide)
  have closing := @isWordChar_ne _ '}'.toUInt8 word (by decide)
  have equals := @isWordChar_ne _ '='.toUInt8 word (by decide)
  have slash := @isWordChar_ne _ '/'.toUInt8 word (by decide)
  simp only [Plain, IsBlank, StartsToken, tokenCheck]
  simp [space, tab, cr, lf, brace, closing, equals, slash]

theorem quiet_of_word {name : List UInt8} (chars : ∀ c ∈ name, isWordChar c = true) :
    Quiet name := by
  induction name with
  | nil => trivial
  | cons c name ih =>
      have later := ih fun c inside => chars c (by simp [inside])
      rcases name with _ | ⟨next, name⟩
      · trivial
      · refine ⟨?_, later⟩
        rintro ⟨rfl, -⟩
        exact absurd (chars _ List.mem_cons_self) (by decide)

section Element

variable {memory : ℕ → UInt8} {limit : ℕ} {self : Sts}

theorem rtrim_space {spaces : List UInt8} (space : ∀ c ∈ spaces, tokenCheck c = false) :
    rtrim spaces = [] := by
  have blank : ∀ c ∈ spaces.reverse, isSpace c = true := by
    intro c inside
    have separator := space c (List.mem_reverse.mp inside)
    simp only [tokenCheck, Bool.and_eq_false_iff, decide_eq_false_iff_not, not_not] at separator
    rcases separator with ((rfl | rfl) | rfl) | rfl <;> decide
  have nothing : spaces.reverse.dropWhile isSpace = [] := List.dropWhile_eq_nil_iff.mpr blank
  simp [rtrim, nothing]

theorem commentBefore_gives {start s : ℕ} {spaces : List UInt8}
    (holds : Holds memory start spaces) (space : ∀ c ∈ spaces, tokenCheck c = false)
    (place : s = start + spaces.length) : Gives memory (commentBefore self start s) self := by
  simp only [commentBefore]
  split
  · refine (slice_gives holds place).bind ?_
    have nothing : trimView spaces = [] := by simp [trimView, rtrim_space space, ltrimView]
    simp only [nothing, keptComment, if_true]
    exact Gives.pure self
  · exact Gives.pure self

/-- A name is read, and what follows it comes next. -/
theorem readSts_name {load : Sts → Option ℕ → Parser (Sts × Option ℕ)} {start place : ℕ}
    {spaces name blanks : List UInt8} {c : UInt8} {result : Sts × ReadResult}
    (holds : Holds memory start (spaces ++ (name ++ blanks) ++ [c]))
    (space : ∀ c ∈ spaces, tokenCheck c = false) (word : IsWord name)
    (blank : ∀ c ∈ blanks, IsBlank c) (ends : c = '='.toUInt8 ∨ c = '{'.toUInt8)
    (behind : place = start + (spaces ++ (name ++ blanks)).length) (inside : place < limit)
    (next : Gives memory
      (readElement load limit (self.addBlock name).1 (self.addBlock name).2 place)
      result) :
    Gives memory (readSts load limit self start) result := by
  rcases holds_append.mp holds with ⟨text, last, -⟩
  rcases holds_append.mp text with ⟨before, named⟩
  rcases List.exists_cons_of_ne_nil word.nonempty with ⟨first, more, split⟩
  have firstChar := plain_of_isWordChar (word.chars first (by simp [split]))
  have reached : start + spaces.length + (name ++ blanks).length = place := by
    simp [behind]
    omega
  rw [← behind] at last
  have here : memory (start + spaces.length) = first := by
    rw [split] at named
    exact named.1
  have starts : Gives memory (tokenStart limit start) (some (start + spaces.length)) := by
    apply @tokenStart_token memory limit start spaces first _ space firstChar.2.2.1
    · simp [split] at reached
      omega
    · exact holds_append.mpr ⟨before, here, trivial⟩
  have token : StartsToken c := by
    rcases ends with rfl | rfl <;> exact ⟨by decide, by decide⟩
  have after : Gives memory (tokenStart limit place) (some place) :=
    @tokenStart_token memory limit place [] c ⟨last, trivial⟩ (by simp) token (by simpa)
  have nameEnd : Gives memory (tokenEnd limit '='.toUInt8 (start + spaces.length))
      (start + spaces.length + name.length, some place) := by
    apply tokenEnd_gives (by decide) (by decide) named
    · intro d char
      rcases List.mem_append.mp char with char | char
      · exact (plain_of_isWordChar (word.chars d char)).1
      · exact plain_of_isBlank (by decide) (blank d char)
    · exact quiet_append_blanks (quiet_of_word word.chars) blank
    · intro d ends
      exact (plain_of_isWordChar (word.chars d (List.mem_of_getLast? ends))).2.1
    · exact blank
    · exact fun empty => absurd empty word.nonempty
    · rw [reached, Stops, last]
      right
      rcases ends with rfl | rfl <;> simp [inside]
    · rw [reached]
      exact after
  refine starts.bind ((commentBefore_gives before space rfl).bind ?_)
  refine (peek_gives here).bind ?_
  simp only [firstChar.2.2.2, if_false]
  refine nameEnd.bind ?_
  exact (slice_gives (holds_append.mp named).1 rfl).bind next

/-! ### A value that has been written -/

theorem findIdx_new (name : List UInt8) :
    ((Sts.new.elements).findIdx? fun element => element.1 = .named name) = none := rfl

theorem addBlock_new {name : List UInt8} (some : name ≠ []) :
    Sts.new.addBlock name = (.mk [] [(.named name, .new)], 0) := by
  simp only [Sts.addBlock, some, if_false, findIdx_new]
  rfl

/-- The element of the name is the first one and has the value; the others are comments. -/
def Stored (name value : List UInt8) (self : Sts) : Prop :=
  ∃ sts comments, self.elements = (.named name, sts) :: comments ∧ sts.value = value ∧
    ∀ element ∈ comments, element.1 = .comment

theorem Stored.modifyChild {name value : List UInt8} {change : Sts → Sts}
    (stored : Stored name value self)
    (kept : ∀ sts, sts.value = value → (change sts).value = value) :
    Stored name value (self.modifyChild 0 change) := by
  rcases stored with ⟨sts, comments, elements, found, others⟩
  refine ⟨change sts, comments, ?_, kept sts found, others⟩
  simp only [Sts.modifyChild, elements]
  rfl

theorem Stored.child {name value : List UInt8} (stored : Stored name value self) :
    (self.child 0).value = value := by
  rcases stored with ⟨sts, comments, elements, found, -⟩
  simp [Sts.child, elements, found]

theorem Stored.comment {name value : List UInt8} (stored : Stored name value self)
    (comment : Option (List UInt8)) : Stored name value (comment.elim self self.addComment) := by
  rcases stored with ⟨sts, comments, elements, found, others⟩
  cases comment with
  | none => exact ⟨sts, comments, elements, found, others⟩
  | some text =>
      refine ⟨sts, comments ++ [(.comment, Sts.new.setValue text)], ?_, found, ?_⟩
      · change self.elements ++ _ = _
        rw [elements]
        rfl
      · intro element inside
        rcases List.mem_append.mp inside with inside | inside
        · exact others element inside
        · cases List.mem_singleton.mp inside
          rfl

/-- A block behind the value leaves it as it is. -/
theorem readBlock_stored {fuel s : ℕ} {name value : List UInt8} (stored : Stored name value self)
    (enough : limit - (s + 1) < fuel) :
    ∃ result, Gives memory (readBlock (load limit fuel) self 0 s) result ∧
      Stored name value result.1 ∧ result.2.Behind s := by
  have ends : Ends memory (s + 1) limit (load limit fuel (self.child 0) (some (s + 1))) _ :=
    load_ends (Nat.le_refl _) enough
  rcases ends.gives with ⟨⟨child, next⟩, loaded, behind⟩
  dsimp only at behind
  have kept : child.value = (self.child 0).value := load_keeps _ loaded
  have inside : Stored name value (self.modifyChild 0 fun _ => child) :=
    stored.modifyChild fun _ _ => kept.trans stored.child
  cases next with
  | none => exact ⟨_, loaded.bind (Gives.pure _), inside, nofun⟩
  | some next =>
      refine ⟨_, loaded.bind (Gives.pure _), inside, ?_⟩
      exact Nat.le_of_succ_le (behind next rfl)

/-- The element has the value that is read behind the `=`, and the cursor is not before its end. -/
theorem readElement_stored {fuel p stop : ℕ} {name : List UInt8} {v : ReadValue}
    (equals : memory p = '='.toUInt8) (found : Gives memory (readValue limit p) v)
    (behind : v.result.Behind stop) (enough : limit - (stop + 1) < fuel) :
    ∃ result, Gives memory
        (readElement (load limit fuel) limit (.mk [] [(.named name, .new)]) 0 p) result ∧
      Stored name v.value result.1 ∧ result.2.Behind stop := by
  rcases v with ⟨value, comment, result⟩
  dsimp only at behind ⊢
  set valued := (Sts.mk [] [(.named name, .new)]).modifyChild 0 fun sts => sts.setValue value
    with valued_eq
  set written := comment.elim valued valued.addComment with written_eq
  have first : Stored name value valued := ⟨Sts.new.setValue value, [], rfl, rfl, by simp⟩
  have stored : Stored name value written := first.comment comment
  cases result with
  | stop s =>
      refine ⟨(written, .stop s), (peek_gives equals).bind ?_, stored, behind⟩
      simp only [if_true]
      exact found.bind (Gives.pure _)
  | goOn s =>
      have le : stop ≤ s := behind
      by_cases block : s < limit ∧ memory s = '{'.toUInt8
      · rcases @readBlock_stored memory limit written fuel s name value stored (by omega) with
            ⟨result, loaded, kept, further⟩
        refine ⟨result, (peek_gives equals).bind ?_, kept, further.mono le⟩
        simp only [if_true]
        refine found.bind ?_
        simp only [block.1, if_true]
        refine (peek_gives block.2).bind ?_
        simpa only [if_true] using loaded
      · refine ⟨(written, .goOn s), (peek_gives equals).bind ?_, stored, le⟩
        simp only [if_true]
        refine found.bind ?_
        dsimp only
        split
        · rename_i inside
          have other : memory s ≠ '{'.toUInt8 := fun brace => block ⟨inside, brace⟩
          refine (peek_gives rfl).bind ?_
          simp only [other, if_false]
          exact Gives.pure _
        · exact Gives.pure _

theorem holds_self (p n : ℕ) : Holds memory p ((List.range' p n).map memory) := by
  induction n generalizing p with
  | zero => trivial
  | succ n ih => exact ⟨rfl, ih (p + 1)⟩

/-- What `store_value` has written is read as the value, up to a line break behind it. -/
theorem readValue_storeValue {p : ℕ} {value following : List UInt8} {allowUnquoted : Bool}
    (holds : Holds memory (p + 1) (storeValue value allowUnquoted ++ following))
    (breaks : following.head? = some '\r'.toUInt8 ∨ following.head? = some '\n'.toUInt8)
    (whole : limit = p + 1 + (storeValue value allowUnquoted ++ following).length) :
    ∃ v, Gives memory (readValue limit p) v ∧ v.value = value ∧
      v.result.Behind (p + 1 + (storeValue value allowUnquoted).length) := by
  rcases holds_append.mp holds with ⟨stored, rest⟩
  obtain ⟨c, more, rfl⟩ : ∃ c more, following = c :: more := by
    rcases following with _ | ⟨c, more⟩
    · simp at breaks
    · exact ⟨c, more, rfl⟩
  set stop := p + 1 + (storeValue value allowUnquoted).length with stop_eq
  have inside : stop < limit := by
    simp only [List.length_append, List.length_cons] at whole
    omega
  have line : memory stop = '\r'.toUInt8 ∨ memory stop = '\n'.toUInt8 := by
    simpa [rest.1] using breaks
  rcases storeValue_cases value allowUnquoted with ⟨plain, -, bare⟩ | quoted
  · rw [plain] at stored stop_eq
    rcases (@tokenStart_ends memory 0 limit _ (Nat.zero_le stop)).gives with ⟨next, starts, from'⟩
    have reach : stop ≤ next.getD limit := by
      cases next with
      | none => exact Nat.le_of_lt inside
      | some s => exact (from' s rfl).1
    have found := @readValue_bare memory limit p (p + 1) [] value [] _ next
      (fun c inside => (bare.plain c inside).1) bare.quiet bare.first bare.endsWord trivial
      (by simp) (by simpa using stored) (by simp) (by simp) (by simp) (by omega)
      (Or.inr ⟨by simpa [← stop_eq] using inside, by
        simp only [List.append_nil, ← stop_eq]
        tauto⟩) (by simpa [← stop_eq] using starts)
      (holds_self (p + 1 + value.length) (next.getD limit - stop)) (by
        simp only [List.length_map, List.length_range']
        omega)
    refine ⟨_, found, rfl, ?_⟩
    cases next with
    | none => exact nofun
    | some s => exact (from' s rfl).1
  · have length : stop = p + (doubled value).length + 3 := by
      simp [stop_eq, quoted]
      omega
    rw [quoted] at stored
    have found := @readValue_quoted memory limit p value [] (by simpa using stored) (by simp)
      (by simp only [List.length_nil]; omega) (by
        intro _
        simp only [List.length_nil, Nat.add_zero, ← length]
        rcases line with line | line <;> rw [line] <;> decide)
    refine ⟨_, found, rfl, ?_⟩
    exact Nat.le_of_eq length

end Element

/--
One call of `read_sts` on a name, `=` and a value as `store_value` writes it, before a line
break, makes the element of that name with that value; its cursor is not within the value.
-/
theorem read_storeValue (memory : ℕ → UInt8) {limit start fuel : ℕ}
    {name value following : List UInt8} {allowUnquoted : Bool} (word : IsWord name)
    (breaks : following.head? = some '\r'.toUInt8 ∨ following.head? = some '\n'.toUInt8)
    (holds : Holds memory start
      (name ++ '='.toUInt8 :: (storeValue value allowUnquoted ++ following)))
    (whole : limit = start +
      (name ++ '='.toUInt8 :: (storeValue value allowUnquoted ++ following)).length)
    (enough : limit - start ≤ fuel) :
    ∃ result, Gives memory (readSts (load limit fuel) limit .new start) result ∧
      Stored name value result.1 ∧
      result.2.Behind (start + (name ++ '='.toUInt8 :: storeValue value allowUnquoted).length) := by
  rcases holds_append.mp holds with ⟨named, equals, rest⟩
  set stop := start + name.length + 1 + (storeValue value allowUnquoted).length with stop_eq
  have place : start + (name ++ '='.toUInt8 :: storeValue value allowUnquoted).length = stop := by
    simp only [List.length_append, List.length_cons, stop_eq]
    omega
  have inside : stop ≤ limit ∧ limit = start + name.length + 1 +
      (storeValue value allowUnquoted ++ following).length := by
    simp only [List.length_append, List.length_cons] at whole ⊢
    omega
  rcases readValue_storeValue rest breaks inside.2 with ⟨v, found, rfl, behind⟩
  rcases @readElement_stored memory limit fuel (start + name.length) stop name v equals found behind
      (by omega) with ⟨result, read, stored, further⟩
  rw [place]
  refine ⟨result, ?_, stored, further⟩
  have text : Holds memory start (name ++ ['='.toUInt8]) :=
    holds_append.mpr ⟨named, equals, trivial⟩
  apply @readSts_name memory limit .new _ start (start + name.length) [] name [] _ result
    (by simpa using text) (by simp) word (by simp) (Or.inl rfl) (by simp) (by omega)
  simpa only [addBlock_new word.nonempty] using read

/-- A value in quotes that ends with a quote, and a block in the next line -/
theorem read_storeValue_quoted :
    ∃ result, Gives (textAt (ascii ['n', '=', '`', 'a', '`', '`', '`', '\n', '{', '}']) 0)
        (readSts (load 10 10) 10 .new 0) result ∧
      Stored (ascii ['n']) (ascii ['a', '`']) result.1 ∧
      result.2.Behind
        (0 + (ascii ['n'] ++ '='.toUInt8 :: storeValue (ascii ['a', '`']) true).length) :=
  @read_storeValue (textAt (ascii ['n', '=', '`', 'a', '`', '`', '`', '\n', '{', '}']) 0) 10 0 10
    (ascii ['n']) (ascii ['a', '`']) (ascii ['\n', '{', '}']) true (by decide +kernel)
    (by decide +kernel) (by decide +kernel) (by decide +kernel) (by decide)

end Imconee.Config
