import Imconee.Config.Reader

/-!
# The loops of the reader on a known text

What the loops of the reader find where it is known which characters the memory holds. Each of
them is run over a word, and stops at what comes behind it.
-/

set_option autoImplicit false

namespace Imconee.Config

open Lib Traced Str

variable {memory : ℕ → UInt8} {limit : ℕ}

/-- The memory holds a text from the place on. -/
def Holds (memory : ℕ → UInt8) : ℕ → List UInt8 → Prop
  | _, [] => True
  | p, c :: text => memory p = c ∧ Holds memory (p + 1) text

instance decidableHolds : (p : ℕ) → (text : List UInt8) → Decidable (Holds memory p text)
  | _, [] => inferInstanceAs (Decidable True)
  | p, c :: text =>
      have := decidableHolds (p + 1) text
      inferInstanceAs (Decidable (memory p = c ∧ Holds memory (p + 1) text))

theorem holds_append {p : ℕ} {text more : List UInt8} :
    Holds memory p (text ++ more) ↔ Holds memory p text ∧ Holds memory (p + text.length) more := by
  induction text generalizing p with
  | nil => simp [Holds]
  | cons c text ih =>
      have place : p + 1 + text.length = p + (c :: text).length := by
        simp only [List.length_cons]
        omega
      simp only [List.cons_append, Holds, ih, place, and_assoc]

theorem peek_gives {p : ℕ} {c : UInt8} (holds : memory p = c) : Gives memory (peek p) c := by
  subst holds
  exact Gives.look _ _

theorem slice_gives {start stop : ℕ} {text : List UInt8} (holds : Holds memory start text)
    (length : stop = start + text.length) : Gives memory (slice start stop) text := by
  have found : (List.range' start (stop - start)).map memory = text := by
    have size : stop - start = text.length := by omega
    rw [size]
    clear length size
    induction text generalizing start with
    | nil => rfl
    | cons c text ih =>
        rcases holds with ⟨first, rest⟩
        simp only [List.length_cons, List.range'_succ, List.map_cons, first, ih rest]
  rw [← found]
  exact Gives.look _ _

theorem nextIs_gives {s : ℕ} {p : UInt8 → Bool} {b : Bool}
    (holds : s + 1 < limit → p (memory (s + 1)) = b) (last : ¬s + 1 < limit → b = false) :
    Gives memory (nextIs limit s p) b := by
  by_cases inside : s + 1 < limit
  · simp only [nextIs, inside, if_true]
    exact (peek_gives rfl).bind (by rw [← holds inside]; exact Gives.pure _)
  · simp only [nextIs, inside, if_false, last inside]
    exact Gives.pure false

/-! ### `token_start` -/

/-- A character at which a token can start, and no comment -/
def StartsToken (c : UInt8) : Prop := tokenCheck c = true ∧ c ≠ '/'.toUInt8

theorem ne_slash_of_space {c : UInt8} (space : tokenCheck c = false) : c ≠ '/'.toUInt8 := by
  rintro rfl
  revert space
  decide

theorem behindSlash_gives {t : ℕ} {c : UInt8} (other : c ≠ '/'.toUInt8) :
    Gives memory (behindSlash t c) 0 := by
  simp only [behindSlash, other, if_false]
  exact Gives.pure 0

theorem lastToken_gives {t : ℕ} {c : UInt8} (inside : t < limit) (holds : memory t = c) :
    Gives memory (lastToken limit t) (if tokenCheck c then some t else none) := by
  simp only [lastToken, inside, if_true]
  exact (peek_gives holds).bind (Gives.pure _)

theorem tokenStartLoop_space {fuel t : ℕ} {c : UInt8} {found : Option ℕ} (holds : memory t = c)
    (space : tokenCheck c = false) (inside : t + 1 < limit)
    (next : Gives memory (tokenStartLoop limit fuel (t + 1)) found) :
    Gives memory (tokenStartLoop limit (fuel + 1) t) found := by
  have other := ne_slash_of_space space
  simp only [tokenStartLoop, inside, if_true]
  refine (peek_gives holds).bind ((behindSlash_gives other).bind ?_)
  simpa [other, space] using next

theorem tokenStartLoop_token {fuel t : ℕ} {c : UInt8} (holds : memory t = c)
    (token : StartsToken c) (inside : t < limit) :
    Gives memory (tokenStartLoop limit (fuel + 1) t) (some t) := by
  by_cases more : t + 1 < limit
  · simp only [tokenStartLoop, more, if_true]
    refine (peek_gives holds).bind ((behindSlash_gives token.2).bind ?_)
    simp only [token.1, token.2, false_and, if_false, if_true]
    exact Gives.pure _
  · have last := lastToken_gives inside holds
    simpa only [tokenStartLoop, more, if_false, token.1, if_true] using last

theorem tokenStart_token {t : ℕ} {spaces : List UInt8} {c : UInt8}
    (holds : Holds memory t (spaces ++ [c])) (blank : ∀ b ∈ spaces, tokenCheck b = false)
    (token : StartsToken c) (inside : t + spaces.length < limit) :
    Gives memory (tokenStart limit t) (some (t + spaces.length)) := by
  have enough : spaces.length < limit - t + 1 := by omega
  unfold tokenStart
  generalize limit - t + 1 = fuel at enough
  induction spaces generalizing t fuel with
  | nil =>
      obtain ⟨fuel, rfl⟩ : ∃ less, fuel = less + 1 := ⟨fuel - 1, by simp at enough; omega⟩
      exact tokenStartLoop_token holds.1 token inside
  | cons b spaces ih =>
      simp only [List.length_cons] at inside enough
      obtain ⟨fuel, rfl⟩ : ∃ less, fuel = less + 1 := ⟨fuel - 1, by omega⟩
      apply tokenStartLoop_space holds.1 (blank b (by simp)) (by omega)
      have later := ih holds.2 (fun b inside => blank b (by simp [inside])) (by omega) fuel
        (by omega)
      simpa [Nat.add_comm, Nat.add_left_comm] using later

theorem tokenStart_nothing {t : ℕ} {spaces : List UInt8} (holds : Holds memory t spaces)
    (blank : ∀ b ∈ spaces, tokenCheck b = false) (last : t + spaces.length = limit) :
    Gives memory (tokenStart limit t) none := by
  have enough : spaces.length < limit - t + 1 := by omega
  unfold tokenStart
  generalize limit - t + 1 = fuel at enough
  induction spaces generalizing t fuel with
  | nil =>
      obtain ⟨fuel, rfl⟩ : ∃ less, fuel = less + 1 := ⟨fuel - 1, by simp at enough; omega⟩
      simp only [List.length_nil, Nat.add_zero] at last
      subst last
      simp only [tokenStartLoop, lastToken]
      simpa using Gives.pure none
  | cons b spaces ih =>
      simp only [List.length_cons] at last enough
      obtain ⟨fuel, rfl⟩ : ∃ less, fuel = less + 1 := ⟨fuel - 1, by omega⟩
      by_cases more : t + 1 < limit
      · apply tokenStartLoop_space holds.1 (blank b (by simp)) more
        exact ih holds.2 (fun b inside => blank b (by simp [inside])) (by omega) fuel (by omega)
      · have found := @lastToken_gives memory limit t b (by omega) holds.1
        simpa [tokenStartLoop, more, blank b] using found

/-! ### `token_end` -/

/-- The place is behind the text, or there is a character that ends a token. -/
def Stops (memory : ℕ → UInt8) (limit : ℕ) (addc : UInt8) (p : ℕ) : Prop :=
  p = limit ∨ p < limit ∧ (memory p = '\r'.toUInt8 ∨ memory p = '\n'.toUInt8 ∨
    memory p = '{'.toUInt8 ∨ memory p = addc)

/-- A character over which `token_end` goes -/
def Plain (addc c : UInt8) : Prop :=
  c ≠ '\r'.toUInt8 ∧ c ≠ '\n'.toUInt8 ∧ c ≠ '{'.toUInt8 ∧ c ≠ addc

/-- Two characters in a row that begin a comment -/
def CommentMark (c next : UInt8) : Prop :=
  c = '/'.toUInt8 ∧ (next = '*'.toUInt8 ∨ next = '/'.toUInt8)

instance (c next : UInt8) : Decidable (CommentMark c next) :=
  inferInstanceAs (Decidable (_ ∧ (_ ∨ _)))

/-- No comment begins within the text. -/
def Quiet : List UInt8 → Prop
  | [] => True
  | [_] => True
  | c :: next :: text => ¬CommentMark c next ∧ Quiet (next :: text)

theorem Quiet.tail {c : UInt8} {text : List UInt8} (quiet : Quiet (c :: text)) : Quiet text := by
  rcases text with _ | ⟨next, text⟩
  · trivial
  · exact quiet.2

theorem opensComment_gives {s : ℕ} {c : UInt8}
    (quiet : s + 1 < limit → ¬CommentMark c (memory (s + 1))) :
    Gives memory (opensComment limit s c) false := by
  by_cases slash : c = '/'.toUInt8
  · simp only [opensComment, slash, if_true]
    apply nextIs_gives
    · intro inside
      have other := quiet inside
      simp only [CommentMark, slash, true_and] at other
      simpa using other
    · exact fun _ => rfl
  · simp only [opensComment, slash, if_false]
    exact Gives.pure false

theorem Stops.not_commentMark {addc c : UInt8} {p : ℕ} (stops : Stops memory limit addc p)
    (star : addc ≠ '*'.toUInt8) (slash : addc ≠ '/'.toUInt8) (inside : p < limit) :
    ¬CommentMark c (memory p) := by
  rintro ⟨-, mark⟩
  rcases stops with last | ⟨-, stop⟩
  · omega
  · rcases mark with mark | mark <;> rw [mark] at stop
    · rcases stop with stop | stop | stop | stop
      · revert stop; decide
      · revert stop; decide
      · revert stop; decide
      · exact star stop.symm
    · rcases stop with stop | stop | stop | stop
      · revert stop; decide
      · revert stop; decide
      · revert stop; decide
      · exact slash stop.symm

theorem tokenEndLoop_gives {addc : UInt8} {fuel s : ℕ} {text : List UInt8}
    (star : addc ≠ '*'.toUInt8) (slash : addc ≠ '/'.toUInt8) (holds : Holds memory s text)
    (plain : ∀ c ∈ text, Plain addc c) (quiet : Quiet text)
    (stops : Stops memory limit addc (s + text.length)) (enough : text.length < fuel) :
    Gives memory (tokenEndLoop limit addc fuel s) (s + text.length) := by
  induction text generalizing s fuel with
  | nil =>
      obtain ⟨fuel, rfl⟩ : ∃ less, fuel = less + 1 := ⟨fuel - 1, by simp at enough; omega⟩
      simp only [List.length_nil, Nat.add_zero] at stops ⊢
      rcases stops with last | ⟨inside, stop⟩
      · simp only [tokenEndLoop, last, Nat.lt_irrefl, if_false]
        exact Gives.pure limit
      · simp only [tokenEndLoop, inside, if_true]
        refine (peek_gives rfl).bind ?_
        have stopped : ¬(memory s ≠ '\r'.toUInt8 ∧ memory s ≠ '\n'.toUInt8 ∧
            memory s ≠ '{'.toUInt8 ∧ memory s ≠ addc) := by tauto
        simp only [stopped, if_false]
        exact Gives.pure s
  | cons c text ih =>
      have length : s + (c :: text).length = s + 1 + text.length := by
        simp only [List.length_cons]
        omega
      rw [length] at stops ⊢
      simp only [List.length_cons] at enough
      obtain ⟨fuel, rfl⟩ : ∃ less, fuel = less + 1 := ⟨fuel - 1, by omega⟩
      have inside : s < limit := by
        rcases stops with last | ⟨inside, -⟩ <;> omega
      have comment : s + 1 < limit → ¬CommentMark c (memory (s + 1)) := by
        intro more
        rcases text with _ | ⟨next, text⟩
        · exact stops.not_commentMark star slash more
        · rw [holds.2.1]
          exact quiet.1
      have passed : c ≠ '\r'.toUInt8 ∧ c ≠ '\n'.toUInt8 ∧ c ≠ '{'.toUInt8 ∧ c ≠ addc :=
        plain c (by simp)
      simp only [tokenEndLoop, inside, if_true]
      refine (peek_gives holds.1).bind ?_
      rw [if_pos passed]
      refine (opensComment_gives comment).bind ?_
      simpa using ih holds.2 (fun c inside => plain c (by simp [inside])) quiet.tail stops
        (by omega)

/-- What `token_end` and the reader skip -/
def IsBlank (c : UInt8) : Prop := c = ' '.toUInt8 ∨ c = '\t'.toUInt8

instance (c : UInt8) : Decidable (IsBlank c) := inferInstanceAs (Decidable (_ ∨ _))

/-- The last character of the text, if it has one, is no blank. -/
def EndsWord (text : List UInt8) : Prop := ∀ c ∈ text.getLast?, ¬IsBlank c

theorem memory_eq {p : ℕ} {text more : List UInt8} {c : UInt8}
    (holds : Holds memory p (text ++ c :: more)) : memory (p + text.length) = c :=
  (holds_append.mp holds).2.1

theorem trimBlanks_gives {start : ℕ} {word blanks : List UInt8}
    (holds : Holds memory start (word ++ blanks)) (ends : EndsWord word)
    (blank : ∀ c ∈ blanks, IsBlank c) (nothing : word = [] → blanks = []) :
    Gives memory (trimBlanks start (start + (word ++ blanks).length)) (start + word.length) := by
  induction blanks using List.reverseRecOn with
  | nil =>
      rcases word.eq_nil_or_concat with rfl | ⟨word, c, rfl⟩
      · simp only [List.append_nil, List.length_nil, Nat.add_zero]
        rcases start with _ | start
        · exact Gives.pure 0
        · have behind : ¬start + 1 < start := by omega
          simp only [trimBlanks, behind, if_false]
          exact Gives.pure _
      · simp only [List.concat_eq_append, List.append_nil] at holds ends ⊢
        have last : memory (start + word.length) = c := memory_eq holds
        have other : ¬(c = ' '.toUInt8 ∨ c = '\t'.toUInt8) := ends c (by simp)
        have place : start + (word ++ [c]).length = start + word.length + 1 := by simp; omega
        rw [place]
        simp only [trimBlanks]
        split
        · refine (peek_gives last).bind ?_
          simp only [other, if_false]
          exact Gives.pure _
        · exact Gives.pure _
  | append_singleton blanks b ih =>
      have more : word ≠ [] := fun empty => by simpa using nothing empty
      have long := List.length_pos_iff.mpr more
      rw [← List.append_assoc] at holds ⊢
      have last : memory (start + (word ++ blanks).length) = b := memory_eq holds
      have isBlank : b = ' '.toUInt8 ∨ b = '\t'.toUInt8 := blank b (by simp)
      have place : start + (word ++ blanks ++ [b]).length =
          start + (word ++ blanks).length + 1 := by simp; omega
      have behind : start < start + (word ++ blanks).length := by simp; omega
      rw [place]
      simp only [trimBlanks, behind, if_true]
      refine (peek_gives last).bind ?_
      simp only [isBlank, if_true]
      exact ih (holds_append.mp holds).1 (fun c inside => blank c (by simp [inside]))
        fun empty => absurd empty more

theorem tokenEnd_gives {addc : UInt8} {start : ℕ} {word blanks : List UInt8} {next : Option ℕ}
    (star : addc ≠ '*'.toUInt8) (slash : addc ≠ '/'.toUInt8)
    (holds : Holds memory start (word ++ blanks)) (plain : ∀ c ∈ word ++ blanks, Plain addc c)
    (quiet : Quiet (word ++ blanks)) (ends : EndsWord word) (blank : ∀ c ∈ blanks, IsBlank c)
    (nothing : word = [] → blanks = [])
    (stops : Stops memory limit addc (start + (word ++ blanks).length))
    (starts : Gives memory (tokenStart limit (start + (word ++ blanks).length)) next) :
    Gives memory (tokenEnd limit addc start) (start + word.length, next) := by
  have inside : start + (word ++ blanks).length ≤ limit := by
    rcases stops with last | ⟨inside, -⟩ <;> omega
  refine (tokenEndLoop_gives star slash holds plain quiet stops (by omega)).bind ?_
  refine (trimBlanks_gives holds ends blank nothing).bind ?_
  exact starts.bind (Gives.pure _)

/-! ### Values -/

theorem skipSeparators_gives {fuel s : ℕ} {blanks : List UInt8} (holds : Holds memory s blanks)
    (blank : ∀ c ∈ blanks, IsBlank c) (inside : s + blanks.length ≤ limit)
    (stops : s + blanks.length < limit → ¬IsBlank (memory (s + blanks.length)))
    (enough : blanks.length < fuel) :
    Gives memory (skipSeparators limit fuel s) (s + blanks.length) := by
  induction blanks generalizing s fuel with
  | nil =>
      obtain ⟨fuel, rfl⟩ : ∃ less, fuel = less + 1 := ⟨fuel - 1, by simp at enough; omega⟩
      simp only [List.length_nil, Nat.add_zero] at stops ⊢
      simp only [skipSeparators]
      split
      · rename_i more
        refine (peek_gives rfl).bind ?_
        have stopped := stops more
        simp only [IsBlank, not_or] at stopped
        rw [if_pos stopped]
        exact Gives.pure s
      · exact Gives.pure s
  | cons c blanks ih =>
      have length : s + (c :: blanks).length = s + 1 + blanks.length := by
        simp only [List.length_cons]
        omega
      rw [length] at stops inside ⊢
      simp only [List.length_cons] at enough
      obtain ⟨fuel, rfl⟩ : ∃ less, fuel = less + 1 := ⟨fuel - 1, by omega⟩
      have more : s < limit := by omega
      have passed : ¬(c ≠ ' '.toUInt8 ∧ c ≠ '\t'.toUInt8) := by
        have isBlank := blank c (by simp)
        simp only [IsBlank] at isBlank
        tauto
      simp only [skipSeparators, more, if_true]
      refine (peek_gives holds.1).bind ?_
      rw [if_neg passed]
      exact ih holds.2 (fun c inside => blank c (by simp [inside])) inside stops (by omega)

/-- A text with every back-quote doubled -/
def doubled (value : List UInt8) : List UInt8 :=
  value.flatMap fun c => if c = '`'.toUInt8 then [c, c] else [c]

section Quoted

variable {fuel start s : ℕ} {v piece : List UInt8} {result : List UInt8 × ℕ}

theorem quotedLoop_other {c : UInt8} (here : memory s = c) (inside : s < limit)
    (other : c ≠ '`'.toUInt8)
    (next : Gives memory (quotedLoop limit fuel start (s + 1) v) result) :
    Gives memory (quotedLoop limit (fuel + 1) start s v) result := by
  simp only [quotedLoop, inside, if_true]
  refine (peek_gives here).bind ?_
  simpa only [other, if_false] using next

theorem quotedLoop_double (here : memory s = '`'.toUInt8) (again : memory (s + 1) = '`'.toUInt8)
    (inside : s + 1 < limit) (holds : Holds memory start piece)
    (place : s + 1 = start + piece.length)
    (next : Gives memory (quotedLoop limit fuel (s + 2) (s + 2) (v ++ piece)) result) :
    Gives memory (quotedLoop limit (fuel + 1) start s v) result := by
  have first : s < limit := by omega
  have quoted : Gives memory (nextIs limit s fun next => decide (next = '`'.toUInt8)) true :=
    nextIs_gives (fun _ => by simp [again]) fun out => absurd inside out
  simp only [quotedLoop, first, if_true]
  refine (peek_gives here).bind ?_
  simp only [if_true]
  refine quoted.bind ?_
  simp only [if_true]
  exact (slice_gives holds place).bind next

theorem quotedLoop_end (here : memory s = '`'.toUInt8) (inside : s < limit)
    (single : s + 1 < limit → memory (s + 1) ≠ '`'.toUInt8) (holds : Holds memory start piece)
    (place : s = start + piece.length) :
    Gives memory (quotedLoop limit (fuel + 1) start s v) (v ++ piece, s) := by
  have closing : Gives memory (nextIs limit s fun next => decide (next = '`'.toUInt8)) false :=
    nextIs_gives (fun more => by simpa using single more) fun _ => rfl
  simp only [quotedLoop, inside, if_true]
  refine (peek_gives here).bind ?_
  simp only [if_true]
  refine closing.bind ?_
  simp only [Bool.false_eq_true, if_false]
  exact (slice_gives holds place).bind (Gives.pure _)

/-- The loop over a quoted value, of which `piece` has been passed but not taken yet -/
theorem quotedLoop_gives {value : List UInt8}
    (holds : Holds memory start (piece ++ doubled value ++ ['`'.toUInt8]))
    (place : s = start + piece.length) (inside : s + (doubled value).length < limit)
    (single : s + (doubled value).length + 1 < limit →
      memory (s + (doubled value).length + 1) ≠ '`'.toUInt8)
    (enough : limit - s < fuel) :
    Gives memory (quotedLoop limit fuel start s v)
      (v ++ piece ++ value, s + (doubled value).length) := by
  induction value generalizing start s v piece fuel with
  | nil =>
      obtain ⟨fuel, rfl⟩ : ∃ less, fuel = less + 1 := ⟨fuel - 1, by omega⟩
      simp only [doubled, List.flatMap_nil, List.append_nil, List.length_nil, Nat.add_zero] at *
      have here : memory s = '`'.toUInt8 := by
        rw [place]
        exact memory_eq holds
      exact quotedLoop_end here inside single (holds_append.mp holds).1 place
  | cons c value ih =>
      obtain ⟨fuel, rfl⟩ : ∃ less, fuel = less + 1 := ⟨fuel - 1, by omega⟩
      by_cases quote : c = '`'.toUInt8
      · have text : doubled (c :: value) = c :: c :: doubled value := by
          simp [doubled, quote]
        have length : s + (doubled (c :: value)).length = s + 2 + (doubled value).length := by
          rw [text]
          simp only [List.length_cons]
          omega
        rw [length] at inside single ⊢
        have split : Holds memory start
            ((piece ++ [c]) ++ (c :: (doubled value ++ ['`'.toUInt8]))) := by
          simpa [text] using holds
        rcases holds_append.mp split with ⟨front, again, rest⟩
        have reached : start + (piece ++ [c]).length = s + 1 := by simp [place]; omega
        rw [reached] at again rest
        have here : memory s = c := by
          rw [place]
          exact memory_eq front
        have later : Gives memory (quotedLoop limit fuel (s + 2) (s + 2) (v ++ (piece ++ [c])))
            (v ++ (piece ++ [c]) ++ [] ++ value, s + 2 + (doubled value).length) :=
          ih (by simpa using rest) (by simp) (by omega) single (by omega)
        refine quotedLoop_double (here.trans quote) (again.trans quote) (by omega) front
          reached.symm ?_
        simpa using later
      · have text : doubled (c :: value) = c :: doubled value := by
          simp [doubled, quote]
        have length : s + (doubled (c :: value)).length = s + 1 + (doubled value).length := by
          rw [text]
          simp only [List.length_cons]
          omega
        rw [length] at inside single ⊢
        have split : Holds memory start ((piece ++ [c]) ++ doubled value ++ ['`'.toUInt8]) := by
          simpa [text] using holds
        have here : memory s = c := by
          rw [place]
          exact memory_eq (holds_append.mp (holds_append.mp split).1).1
        have later : Gives memory (quotedLoop limit fuel start (s + 1) v)
            (v ++ (piece ++ [c]) ++ value, s + 1 + (doubled value).length) :=
          ih split (by simp [place]; omega) inside single (by omega)
        exact quotedLoop_other here (by omega) quote (by simpa using later)

end Quoted

theorem quotedValue_gives {s : ℕ} {value blanks : List UInt8}
    (holds : Holds memory s (doubled value ++ '`'.toUInt8 :: blanks))
    (blank : ∀ c ∈ blanks, IsBlank c)
    (inside : s + (doubled value).length + 1 + blanks.length ≤ limit)
    (stops : s + (doubled value).length + 1 + blanks.length < limit →
      ¬IsBlank (memory (s + (doubled value).length + 1 + blanks.length)) ∧
        memory (s + (doubled value).length + 1 + blanks.length) ≠ '`'.toUInt8) :
    Gives memory (quotedValue limit s)
      { value, result := .goOn (s + (doubled value).length + 1 + blanks.length) } := by
  have text : Holds memory s ([] ++ doubled value ++ ['`'.toUInt8] ++ blanks) := by
    simpa using holds
  rcases holds_append.mp text with ⟨quoted, behind⟩
  have place : s + ([] ++ doubled value ++ ['`'.toUInt8]).length =
      s + (doubled value).length + 1 := by simp; omega
  rw [place] at behind
  have single : s + (doubled value).length + 1 < limit →
      memory (s + (doubled value).length + 1) ≠ '`'.toUInt8 := by
    intro more
    rcases blanks with _ | ⟨b, blanks⟩
    · exact (stops more).2
    · rw [behind.1]
      rintro rfl
      exact absurd (blank _ List.mem_cons_self) (by decide)
  have loop : Gives memory (quotedLoop limit (limit - s + 1) s s [])
      ([] ++ [] ++ value, s + (doubled value).length) :=
    quotedLoop_gives quoted rfl (by omega) single (by omega)
  refine loop.bind ?_
  have closed : ¬limit ≤ s + (doubled value).length := by omega
  simp only [closed, if_false]
  have skip : Gives memory (skipSeparators limit (limit - (s + (doubled value).length) + 1)
      (s + (doubled value).length + 1)) (s + (doubled value).length + 1 + blanks.length) :=
    skipSeparators_gives behind blank inside (fun more => (stops more).1) (by omega)
  exact skip.bind (Gives.pure _)

/-- What is taken for a comment behind a value -/
def commentBehind (text : List UInt8) : Option (List UInt8) :=
  if 2 ≤ text.length then keptComment (trim text) else none

/-- How it goes on behind a value that is not in quotes -/
def ReadResult.of : Option ℕ → ReadResult
  | none => .stop none
  | some s => .goOn s

theorem bareValue_gives {start stop : ℕ} {value behind : List UInt8} {next : Option ℕ}
    (found : Gives memory (tokenEnd limit '}'.toUInt8 start) (stop, next))
    (holds : Holds memory start value) (place : stop = start + value.length)
    (rest : Holds memory stop behind) (reach : next.getD limit = stop + behind.length) :
    Gives memory (bareValue limit start)
      ⟨value, commentBehind behind, ReadResult.of next⟩ := by
  refine found.bind ?_
  refine (slice_gives holds place).bind ?_
  refine (slice_gives rest reach).bind ?_
  cases next <;> exact Gives.pure _

theorem valueStart_gives {p : ℕ} {blanks : List UInt8} (holds : Holds memory (p + 1) blanks)
    (blank : ∀ c ∈ blanks, IsBlank c) (inside : p + 1 + blanks.length ≤ limit)
    (stops : p + 1 + blanks.length < limit → ¬IsBlank (memory (p + 1 + blanks.length))) :
    Gives memory (valueStart limit p) (p + 1 + blanks.length, memory (p + 1 + blanks.length)) := by
  have marked : Gives memory (mark (.value p) : Parser Unit) () := Gives.look _ _
  have skip : Gives memory (skipSeparators limit (limit - p + 1) (p + 1))
      (p + 1 + blanks.length) :=
    skipSeparators_gives holds blank inside stops (by omega)
  exact marked.bind (skip.bind ((peek_gives rfl).bind (Gives.pure _)))

end Imconee.Config
