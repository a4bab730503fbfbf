import Imconee.Config.Reader

/-!
# Where the reader looks, and that it comes to its end

Each call of `read_sts` that returns true has moved the cursor forward, and so there is an end to
them. What it looks at is inside of the text, except that the character behind `=` and blanks is
looked at even if the text ends there.
-/

set_option autoImplicit false

namespace Imconee.Config

open Lib Traced Str

variable {memory : ℕ → UInt8} {lo limit : ℕ}

/-- Behind the place there is nothing else than separators. -/
def OnlyBlanks (memory : ℕ → UInt8) (limit q : ℕ) : Prop :=
  ∀ p, q < p → p < limit → memory p = ' '.toUInt8 ∨ memory p = '\t'.toUInt8

/-- What holds of a trace: a look that goes too far is one behind such an `=`. -/
structure Fair (memory : ℕ → UInt8) (lo limit : ℕ) (trace : List Event) : Prop where
  reads : ∀ p, .read p ∈ trace → (lo ≤ p ∧ p < limit) ∨
    (p = limit ∧ ∃ q, .value q ∈ trace ∧ OnlyBlanks memory limit q)
  marks : ∀ q, .value q ∈ trace → q < limit ∧ memory q = '='.toUInt8
  values : ∀ q, .value q ∈ trace → OnlyBlanks memory limit q → .read limit ∈ trace
  calls : ∀ s after, .call s (.goOn after) ∈ trace → s < after

def fair (memory : ℕ → UInt8) (lo limit : ℕ) : Law Event where
  holds := Fair memory lo limit
  nil := ⟨nofun, nofun, nofun, nofun⟩
  append := by
    intro first second fairFirst fairSecond
    constructor
    · intro p mem
      rcases List.mem_append.mp mem with mem | mem
      · rcases fairFirst.reads p mem with inside | ⟨end', q, value, blanks⟩
        · exact Or.inl inside
        · exact Or.inr ⟨end', q, List.mem_append_left _ value, blanks⟩
      · rcases fairSecond.reads p mem with inside | ⟨end', q, value, blanks⟩
        · exact Or.inl inside
        · exact Or.inr ⟨end', q, List.mem_append_right _ value, blanks⟩
    · intro q mem
      rcases List.mem_append.mp mem with mem | mem
      · exact fairFirst.marks q mem
      · exact fairSecond.marks q mem
    · intro q mem blanks
      rcases List.mem_append.mp mem with mem | mem
      · exact List.mem_append_left _ (fairFirst.values q mem blanks)
      · exact List.mem_append_right _ (fairSecond.values q mem blanks)
    · intro s after mem
      rcases List.mem_append.mp mem with mem | mem
      · exact fairFirst.calls s after mem
      · exact fairSecond.calls s after mem

theorem fair_reads {places : List ℕ} (inside : ∀ p ∈ places, lo ≤ p ∧ p < limit) :
    Fair memory lo limit (places.map .read) := by
  constructor
  · intro p mem
    rcases List.mem_map.mp mem with ⟨other, among, same⟩
    cases same
    exact Or.inl (inside p among)
  · intro q mem
    simp at mem
  · intro q mem
    simp at mem
  · intro s after mem
    simp at mem

/-- A program comes to its end with a fair trace. -/
abbrev Ends (memory : ℕ → UInt8) (lo limit : ℕ) {α : Type} (x : Parser α) (post : α → Prop) :
    Prop :=
  Meets (fair memory lo limit) memory x post

theorem peek_ends {p : ℕ} (least : lo ≤ p) (most : p < limit) :
    Ends memory lo limit (peek p) (· = memory p) := by
  apply Meets.look
  · apply @fair_reads memory lo limit [p]
    intro q mem
    cases List.mem_singleton.mp mem
    exact ⟨least, most⟩
  · rfl

theorem slice_ends {start stop : ℕ} (least : lo ≤ start) (most : stop ≤ limit) :
    Ends memory lo limit (slice start stop) fun _ => True := by
  apply Meets.look
  · apply fair_reads
    intro p mem
    rw [List.mem_range'_1] at mem
    omega
  · trivial

theorem nextIs_ends {s : ℕ} (least : lo ≤ s) (p : UInt8 → Bool) :
    Ends memory lo limit (nextIs limit s p) fun b =>
      b = true → s + 1 < limit ∧ p (memory (s + 1)) = true := by
  apply Meets.ite
  · intro inside
    apply Meets.bind (peek_ends (Nat.le_succ_of_le least) inside)
    rintro _ rfl
    exact Meets.pure fun holds => ⟨inside, holds⟩
  · exact fun _ => Meets.pure nofun

/-! ### `token_start` and `token_end` -/

theorem seekCommentEnd_ends {fuel t : ℕ} (least : lo ≤ t) (enough : limit - t < fuel) :
    Ends memory lo limit (seekCommentEnd limit fuel t) (t ≤ ·) := by
  induction fuel generalizing t with
  | zero => omega
  | succ fuel ih =>
      have next : t + 1 < limit →
          Ends memory lo limit (seekCommentEnd limit fuel (t + 1)) (t ≤ ·) := by
        intro inside
        apply (ih (Nat.le_succ_of_le least) (by omega)).mono
        intro r le
        omega
      apply Meets.ite
      · intro inside
        apply Meets.bind (peek_ends least (by omega))
        rintro _ rfl
        apply Meets.ite
        · intro star
          apply Meets.bind (peek_ends (Nat.le_succ_of_le least) inside)
          rintro _ rfl
          apply Meets.ite
          · exact fun _ => Meets.pure (Nat.le_refl t)
          · exact fun _ => next inside
        · exact fun _ => next inside
      · exact fun _ => Meets.pure (Nat.le_refl t)

theorem seekLineEnd_ends {fuel t : ℕ} (least : lo ≤ t) (enough : limit - t < fuel) :
    Ends memory lo limit (seekLineEnd limit fuel t) (t ≤ ·) := by
  induction fuel generalizing t with
  | zero => omega
  | succ fuel ih =>
      apply Meets.ite
      · intro inside
        apply Meets.bind (peek_ends least inside)
        rintro _ rfl
        apply Meets.ite
        · intro goesOn
          apply (ih (Nat.le_succ_of_le least) (by omega)).mono
          intro r le
          omega
        · exact fun _ => Meets.pure (Nat.le_refl t)
      · exact fun _ => Meets.pure (Nat.le_refl t)

/-- A place at which `token_start` stops: no blank and no comment. -/
structure TokenAt (memory : ℕ → UInt8) (limit p : ℕ) : Prop where
  inside : p < limit
  check : tokenCheck (memory p) = true
  noComment : p + 1 < limit → memory p = '/'.toUInt8 →
    memory (p + 1) ≠ '*'.toUInt8 ∧ memory (p + 1) ≠ '/'.toUInt8

/-- The place, if there is one, is not before `t`. -/
def StartsFrom (memory : ℕ → UInt8) (limit t : ℕ) (found : Option ℕ) : Prop :=
  ∀ p, found = some p → t ≤ p ∧ TokenAt memory limit p

theorem StartsFrom.mono {t later : ℕ} {found : Option ℕ} (le : t ≤ later)
    (starts : StartsFrom memory limit later found) : StartsFrom memory limit t found := by
  intro p same
  exact ⟨Nat.le_trans le (starts p same).1, (starts p same).2⟩

theorem lastToken_ends {t : ℕ} (least : lo ≤ t) (last : limit ≤ t + 1) :
    Ends memory lo limit (lastToken limit t) (StartsFrom memory limit t) := by
  apply Meets.ite
  · intro inside
    apply Meets.bind (peek_ends least inside)
    rintro _ rfl
    apply Meets.pure
    intro p same
    split at same
    · rename_i check
      cases same
      exact ⟨Nat.le_refl t, inside, check, fun more => absurd more (by omega)⟩
    · cases same
  · exact fun _ => Meets.pure nofun

theorem behindSlash_ends {t : ℕ} (least : lo ≤ t) (inside : t + 1 < limit) {c : UInt8} :
    Ends memory lo limit (behindSlash t c) fun next => c = '/'.toUInt8 → next = memory (t + 1) := by
  apply Meets.ite
  · intro slash
    apply (peek_ends (Nat.le_succ_of_le least) inside).mono
    exact fun next same _ => same
  · exact fun other => Meets.pure fun slash => absurd slash other

theorem tokenStartLoop_ends {fuel t : ℕ} (least : lo ≤ t) (enough : limit - t < fuel) :
    Ends memory lo limit (tokenStartLoop limit fuel t) (StartsFrom memory limit t) := by
  induction fuel generalizing t with
  | zero => omega
  | succ fuel ih =>
      have later : ∀ r, t < r → t < limit →
          Ends memory lo limit (tokenStartLoop limit fuel r) (StartsFrom memory limit t) := by
        intro r lt inside
        apply (ih (by omega) (by omega)).mono
        intro found starts
        exact starts.mono (Nat.le_of_lt lt)
      apply Meets.ite
      · intro inside
        apply Meets.bind (peek_ends least (by omega))
        rintro _ rfl
        apply Meets.bind (behindSlash_ends least inside)
        intro next isNext
        apply Meets.ite
        · rintro ⟨slash, star⟩
          apply Meets.bind (seekCommentEnd_ends (Nat.le_add_right_of_le least) (by omega))
          intro r le
          apply Meets.ite
          · intro last
            apply (lastToken_ends (by omega) (by omega)).mono
            exact fun found starts => starts.mono (by omega)
          · exact fun _ => later (r + 2) (by omega) (by omega)
        · intro noComment
          apply Meets.ite
          · rintro ⟨slash, again⟩
            apply Meets.bind (seekLineEnd_ends (Nat.le_add_right_of_le least) (by omega))
            intro r le
            exact later (r + 1) (by omega) (by omega)
          · intro noLine
            apply Meets.ite
            · intro check
              apply Meets.pure
              intro p same
              cases same
              refine ⟨Nat.le_refl t, by omega, check, fun _ slash => ?_⟩
              rw [← isNext slash]
              exact ⟨fun star => noComment ⟨slash, star⟩, fun again => noLine ⟨slash, again⟩⟩
            · exact fun _ => later (t + 1) (by omega) (by omega)
      · intro outside
        exact lastToken_ends least (by omega)

theorem tokenStart_ends {t : ℕ} (least : lo ≤ t) :
    Ends memory lo limit (tokenStart limit t) (StartsFrom memory limit t) :=
  tokenStartLoop_ends least (by omega)

theorem opensComment_ends {s : ℕ} (least : lo ≤ s) :
    Ends memory lo limit (opensComment limit s (memory s)) fun comment =>
      comment = true → ¬TokenAt memory limit s := by
  apply Meets.ite
  · intro slash
    apply (nextIs_ends least _).mono
    intro comment opens isComment token
    rcases opens isComment with ⟨inside, next⟩
    rcases token.noComment inside slash with ⟨noStar, noSlash⟩
    simp [noStar, noSlash] at next
  · intro other
    exact Meets.pure nofun

/-- From a token on, the loop of `token_end` makes at least one step unless it stops there. -/
theorem tokenEndLoop_ends {addc : UInt8} {fuel s : ℕ} (least : lo ≤ s) (most : s ≤ limit)
    (enough : limit - s < fuel) :
    Ends memory lo limit (tokenEndLoop limit addc fuel s) fun r => s ≤ r ∧ r ≤ limit ∧
      (TokenAt memory limit s → memory s ≠ '{'.toUInt8 → memory s ≠ addc → s < r) := by
  induction fuel generalizing s with
  | zero => omega
  | succ fuel ih =>
      have next : s < limit → Ends memory lo limit (tokenEndLoop limit addc fuel (s + 1))
          fun r => s ≤ r ∧ r ≤ limit ∧
            (TokenAt memory limit s → memory s ≠ '{'.toUInt8 → memory s ≠ addc → s < r) := by
        intro inside
        apply (ih (by omega) (by omega) (by omega)).mono
        rintro r ⟨le, most, -⟩
        exact ⟨by omega, most, fun _ _ _ => by omega⟩
      apply Meets.ite
      · intro inside
        apply Meets.bind (peek_ends least inside)
        rintro _ rfl
        apply Meets.ite
        · intro goesOn
          apply Meets.bind (opensComment_ends least)
          intro comment isComment
          apply Meets.ite
          · intro holds
            apply Meets.pure
            exact ⟨Nat.le_refl s, most, fun token => absurd token (isComment holds)⟩
          · exact fun _ => next inside
        · intro stops
          apply Meets.pure
          refine ⟨Nat.le_refl s, most, fun token noBlock noAddc => absurd ?_ stops⟩
          have check := token.check
          simp only [tokenCheck, Bool.and_eq_true, decide_eq_true_eq] at check
          exact ⟨check.1.2, check.2, noBlock, noAddc⟩
      · intro outside
        apply Meets.pure
        exact ⟨Nat.le_refl s, most, fun token => absurd token.inside outside⟩

theorem trimBlanks_ends {start stop : ℕ} (least : lo ≤ start) (le : start ≤ stop)
    (most : stop ≤ limit) :
    Ends memory lo limit (trimBlanks start stop) fun t => start ≤ t ∧ t ≤ stop := by
  induction stop with
  | zero => exact Meets.pure ⟨le, Nat.le_refl 0⟩
  | succ t ih =>
      apply Meets.ite
      · intro behind
        apply Meets.bind (peek_ends (by omega) (by omega))
        rintro _ rfl
        apply Meets.ite
        · intro blank
          apply (ih (by omega) (by omega)).mono
          rintro r ⟨least, most⟩
          exact ⟨least, by omega⟩
        · exact fun _ => Meets.pure ⟨le, Nat.le_refl _⟩
      · exact fun _ => Meets.pure ⟨le, Nat.le_refl _⟩

theorem tokenEnd_ends {addc : UInt8} {start : ℕ} (least : lo ≤ start) (most : start ≤ limit) :
    Ends memory lo limit (tokenEnd limit addc start) fun r =>
      start ≤ r.1 ∧ r.1 ≤ limit ∧ StartsFrom memory limit start r.2 ∧
        (TokenAt memory limit start → memory start ≠ '{'.toUInt8 → memory start ≠ addc →
          ∀ p, r.2 = some p → start < p) := by
  apply Meets.bind (tokenEndLoop_ends least most (by omega))
  rintro s ⟨le, inside, moves⟩
  apply Meets.bind (trimBlanks_ends least le inside)
  rintro t ⟨leStart, leStop⟩
  apply Meets.bind (tokenStart_ends (Nat.le_trans least le))
  intro found starts
  apply Meets.pure
  refine ⟨leStart, by omega, starts.mono le, fun token noBlock noAddc p same => ?_⟩
  exact Nat.lt_of_lt_of_le (moves token noBlock noAddc) (starts p same).1

/-! ### Values -/

theorem skipSeparators_ends {fuel s : ℕ} (least : lo ≤ s) (most : s ≤ limit)
    (enough : limit - s < fuel) :
    Ends memory lo limit (skipSeparators limit fuel s) fun r => s ≤ r ∧ r ≤ limit ∧
      (∀ p, s ≤ p → p < r → memory p = ' '.toUInt8 ∨ memory p = '\t'.toUInt8) ∧
      (r < limit → ¬(memory r = ' '.toUInt8 ∨ memory r = '\t'.toUInt8)) := by
  induction fuel generalizing s with
  | zero => omega
  | succ fuel ih =>
      apply Meets.ite
      · intro inside
        apply Meets.bind (peek_ends least inside)
        rintro _ rfl
        apply Meets.ite
        · rintro ⟨noSpace, noTab⟩
          apply Meets.pure
          exact ⟨Nat.le_refl s, most, fun p => by omega, fun _ blank =>
            blank.elim noSpace noTab⟩
        · intro blank
          apply (ih (by omega) (by omega) (by omega)).mono
          rintro r ⟨le, most, blanks, stops⟩
          refine ⟨by omega, most, fun p least before => ?_, stops⟩
          rcases Nat.eq_or_lt_of_le least with rfl | behind
          · by_contra none
            rw [not_or] at none
            exact blank none
          · exact blanks p behind before
      · intro outside
        apply Meets.pure
        exact ⟨Nat.le_refl s, most, fun p => by omega, fun inside => absurd inside outside⟩

/-- The look behind `=` and separators is the one that may go too far. -/
theorem Fair.valueStart {trace : List Event} {q s : ℕ} (obeys : Fair memory lo limit trace)
    (inside : q < limit) (equals : memory q = '='.toUInt8) (least : lo ≤ s) (most : s ≤ limit)
    (atEnd : OnlyBlanks memory limit q ↔ s = limit) :
    Fair memory lo limit (.value q :: (trace ++ [.read s])) := by
  constructor
  · intro p mem
    simp only [List.mem_cons, reduceCtorEq, false_or, List.mem_append, List.not_mem_nil, or_false,
      Event.read.injEq] at mem
    rcases mem with mem | rfl
    · rcases obeys.reads p mem with inside | ⟨last, other, value, blanks⟩
      · exact Or.inl inside
      · exact Or.inr ⟨last, other, by simp [value], blanks⟩
    · by_cases last : p = limit
      · exact Or.inr ⟨last, q, by simp, atEnd.mpr last⟩
      · exact Or.inl ⟨least, Nat.lt_of_le_of_ne most last⟩
  · intro other mem
    simp only [List.mem_cons, Event.value.injEq, List.mem_append, reduceCtorEq, List.not_mem_nil,
      or_false] at mem
    rcases mem with rfl | mem
    · exact ⟨inside, equals⟩
    · exact obeys.marks other mem
  · intro other mem blanks
    simp only [List.mem_cons, Event.value.injEq, List.mem_append, reduceCtorEq, List.not_mem_nil,
      or_false] at mem
    rcases mem with rfl | mem
    · simp [atEnd.mp blanks]
    · simp [obeys.values other mem blanks]
  · intro other after mem
    simp only [List.mem_cons, reduceCtorEq, false_or, List.mem_append, List.not_mem_nil,
      or_false] at mem
    exact obeys.calls other after mem

theorem valueStart_ends {q : ℕ} (least : lo ≤ q) (inside : q < limit)
    (equals : memory q = '='.toUInt8) :
    Ends memory lo limit (valueStart limit q) fun r => q < r.1 ∧ r.1 ≤ limit := by
  have skips : Ends memory lo limit (skipSeparators limit (limit - q + 1) (q + 1)) _ :=
    skipSeparators_ends (Nat.le_succ_of_le least) inside (by omega)
  rcases skips with ⟨s, trace, run, obeys, le, most, blanks, stops⟩
  have runs : valueStart limit q memory =
      some ((s, memory s), [.value q] ++ (trace ++ ([.read s] ++ []))) :=
    bind_eq_some rfl (bind_eq_some run (bind_eq_some rfl rfl))
  have atEnd : OnlyBlanks memory limit q ↔ s = limit := by
    constructor
    · intro all
      by_contra early
      exact stops (by omega) (all s le (by omega))
    · rintro rfl p behind before
      exact blanks p behind before
  exact ⟨(s, memory s), _, runs, obeys.valueStart inside equals (by omega) most atEnd, le, most⟩

/-- The cursor, if there is one, is not before `s`. -/
def ReadResult.Behind (s : ℕ) : ReadResult → Prop
  | .goOn next => s ≤ next
  | .stop next => ∀ p, next = some p → s ≤ p

theorem ReadResult.Behind.mono {s later : ℕ} {result : ReadResult} (le : s ≤ later)
    (behind : result.Behind later) : result.Behind s := by
  cases result with
  | goOn next => exact Nat.le_trans le behind
  | stop next => exact fun p same => Nat.le_trans le (behind p same)

theorem quotedLoop_ends {fuel start s : ℕ} {v : List UInt8} (least : lo ≤ start) (le : start ≤ s)
    (enough : limit - s < fuel) :
    Ends memory lo limit (quotedLoop limit fuel start s v) (s ≤ ·.2) := by
  induction fuel generalizing start s v with
  | zero => omega
  | succ fuel ih =>
      apply Meets.ite
      · intro inside
        apply Meets.bind (peek_ends (by omega) inside)
        rintro _ rfl
        apply Meets.ite
        · intro quote
          apply Meets.bind (nextIs_ends (by omega) _)
          intro quoted _
          apply Meets.ite
          · intro double
            apply Meets.bind (slice_ends least inside)
            rintro piece -
            apply (ih (by omega) (Nat.le_refl _) (by omega)).mono
            intro r behind
            omega
          · intro single
            apply Meets.bind (slice_ends least (Nat.le_of_lt inside))
            rintro piece -
            exact Meets.pure (Nat.le_refl s)
        · intro other
          apply (ih least (by omega) (by omega)).mono
          intro r behind
          omega
      · exact fun _ => Meets.pure (Nat.le_refl s)

theorem quotedValue_ends {s : ℕ} (least : lo ≤ s) :
    Ends memory lo limit (quotedValue limit s) (·.result.Behind s) := by
  apply Meets.bind (quotedLoop_ends least (Nat.le_refl s) (by omega))
  rintro ⟨v, r⟩ le
  dsimp only at le
  apply Meets.ite
  · intro unclosed
    apply Meets.pure
    rintro p same
    cases same
    exact le
  · intro closed
    apply Meets.bind (skipSeparators_ends (by omega) (by omega) (by omega))
    rintro next ⟨behind, -⟩
    apply Meets.pure
    exact Nat.le_trans le (Nat.le_of_succ_le behind)

theorem bareValue_ends {start : ℕ} (least : lo ≤ start) (most : start ≤ limit) :
    Ends memory lo limit (bareValue limit start) (·.result.Behind start) := by
  apply Meets.bind (tokenEnd_ends least most)
  rintro ⟨t, found⟩ ⟨le, inside, starts, -⟩
  dsimp only at le inside starts
  apply Meets.bind (slice_ends least inside)
  rintro value -
  have stops : found.getD limit ≤ limit := by
    cases found with
    | none => exact Nat.le_refl limit
    | some p => exact Nat.le_of_lt (starts p rfl).2.inside
  apply Meets.bind (slice_ends (Nat.le_trans least le) stops)
  rintro comment -
  cases found with
  | none => exact Meets.pure nofun
  | some p => exact Meets.pure (starts p rfl).1

theorem readValue_ends {q : ℕ} (least : lo ≤ q) (inside : q < limit)
    (equals : memory q = '='.toUInt8) :
    Ends memory lo limit (readValue limit q) (·.result.Behind (q + 1)) := by
  apply Meets.bind (valueStart_ends least inside equals)
  rintro ⟨s, c⟩ ⟨behind, most⟩
  dsimp only at behind most
  apply Meets.ite
  · intro quote
    apply (quotedValue_ends (by omega)).mono
    exact fun v later => later.mono (by omega)
  · intro bare
    apply (bareValue_ends (by omega) most).mono
    exact fun v later => later.mono behind

/-! ### `read_sts` and `load` -/

/-- What is known of `load`: the cursor does not go back. -/
def Loads (memory : ℕ → UInt8) (lo limit start : ℕ)
    (load : Sts → Option ℕ → Parser (Sts × Option ℕ)) : Prop :=
  ∀ self s, start < s → start < limit →
    Ends memory lo limit (load self (some s)) fun r => ∀ p, r.2 = some p → s ≤ p

variable {load : Sts → Option ℕ → Parser (Sts × Option ℕ)} {self : Sts} {start : ℕ}

theorem readBlock_ends (loads : Loads memory lo limit start load) {sts s : ℕ} (le : start ≤ s)
    (inside : s < limit) :
    Ends memory lo limit (readBlock load self sts s) (·.2.Behind (start + 1)) := by
  apply Meets.bind (loads _ _ (Nat.lt_succ_of_le le) (by omega))
  rintro ⟨child, next⟩ behind
  dsimp only at behind
  cases next with
  | none => exact Meets.pure nofun
  | some p =>
      apply Meets.pure
      have further := behind p rfl
      change start + 1 ≤ p
      omega

/-- What follows a name that is not empty is behind its begin. -/
theorem readElement_ends (loads : Loads memory lo limit start load) {sts s : ℕ} (least : lo ≤ s)
    (le : start ≤ s) (inside : s < limit)
    (moved : memory s ≠ '='.toUInt8 → memory s ≠ '{'.toUInt8 → start < s) :
    Ends memory lo limit (readElement load limit self sts s) (·.2.Behind (start + 1)) := by
  apply Meets.bind (peek_ends least inside)
  rintro _ rfl
  apply Meets.ite
  · intro value
    apply Meets.bind (readValue_ends least inside value)
    rintro ⟨v, comment, result⟩ behind
    dsimp only at behind ⊢
    cases result with
    | stop next =>
        apply Meets.pure
        exact behind.mono (Nat.succ_le_succ le)
    | goOn next =>
        change s + 1 ≤ next at behind
        have later : start + 1 ≤ next := by omega
        apply Meets.ite
        · intro more
          apply Meets.bind (peek_ends (by omega) more)
          rintro _ rfl
          apply Meets.ite
          · exact fun _ => readBlock_ends loads (by omega) more
          · exact fun _ => Meets.pure later
        · exact fun _ => Meets.pure later
  · intro noValue
    apply Meets.ite
    · exact fun _ => readBlock_ends loads le inside
    · exact fun noBlock => Meets.pure (moved noValue noBlock)

theorem commentBefore_ends {s : ℕ} (least : lo ≤ start) (most : s ≤ limit) :
    Ends memory lo limit (commentBefore self start s) fun _ => True := by
  apply Meets.ite
  · intro long
    apply Meets.bind (slice_ends least most)
    exact fun comment _ => Meets.pure trivial
  · exact fun _ => Meets.pure trivial

/-- A call that goes on has moved the cursor forward, from inside of the text. -/
theorem readSts_ends (loads : Loads memory lo limit start load) (least : lo ≤ start) :
    Ends memory lo limit (readSts load limit self start) fun r =>
      r.2.Behind (start + 1) ∧ ∀ p, r.2 = .goOn p → start < limit := by
  apply Meets.bind (tokenStart_ends least)
  intro found starts
  cases found with
  | none => exact Meets.pure ⟨nofun, nofun⟩
  | some s =>
      rcases starts s rfl with ⟨le, token⟩
      have inside := token.inside
      apply Meets.bind (commentBefore_ends least (Nat.le_of_lt inside))
      rintro commented -
      apply Meets.bind (peek_ends (by omega) inside)
      rintro _ rfl
      apply Meets.ite
      · intro closes
        apply Meets.pure
        refine ⟨?_, nofun⟩
        rintro p same
        cases same
        exact Nat.succ_le_succ le
      · intro named
        apply Meets.bind (tokenEnd_ends (Nat.le_trans least le) (Nat.le_of_lt inside))
        rintro ⟨t, next⟩ ⟨leStop, most, starts, moves⟩
        dsimp only at leStop most starts moves
        apply Meets.bind (slice_ends (Nat.le_trans least le) most)
        rintro name -
        cases next with
        | none => exact Meets.pure ⟨nofun, nofun⟩
        | some next =>
            rcases starts next rfl with ⟨further, nextToken⟩
            have moved : memory next ≠ '='.toUInt8 → memory next ≠ '{'.toUInt8 → start < next := by
              intro noValue noBlock
              rcases Nat.eq_or_lt_of_le further with rfl | behind
              · exact Nat.lt_of_le_of_lt le (moves token noBlock noValue _ rfl)
              · omega
            apply (readElement_ends loads (by omega) (by omega) nextToken.inside moved).mono
            exact fun r behind => ⟨behind, fun _ _ => by omega⟩

theorem load_ends {fuel : ℕ} (least : lo ≤ start) (enough : limit - start < fuel) :
    Ends memory lo limit (Config.load limit fuel self (some start)) fun r =>
      ∀ p, r.2 = some p → start ≤ p := by
  induction fuel generalizing self start with
  | zero => omega
  | succ fuel ih =>
      have loads : Loads memory lo limit start (Config.load limit fuel) := by
        intro self s behind inside
        exact ih (by omega) (by omega)
      apply Meets.bind (readSts_ends loads least)
      rintro ⟨next, result⟩ ⟨behind, inside⟩
      dsimp only at behind inside
      have called : Ends memory lo limit (mark (.call start result)) fun _ => True := by
        apply Meets.look
        · constructor
          · simp
          · simp
          · simp
          · intro s after mem
            simp only [List.mem_singleton, Event.call.injEq] at mem
            rcases mem with ⟨rfl, rfl⟩
            exact behind
        · trivial
      apply Meets.bind called
      rintro ⟨⟩ -
      cases result with
      | goOn s =>
          have fewer := inside s rfl
          change start + 1 ≤ s at behind
          apply (ih (by omega) (by omega)).mono
          intro r later p same
          have le := later p same
          omega
      | stop s =>
          apply Meets.pure
          intro p same
          exact Nat.le_of_succ_le (behind p same)

/-- The reader returns, and every call of `read_sts` that has returned true, at whatever depth,
has moved the cursor forward. -/
theorem load_returns (memory : ℕ → UInt8) (limit : ℕ) (self : Sts) (data : Option ℕ) {fuel : ℕ}
    (enough : limit - data.getD limit < fuel) :
    ∃ result trace, Config.load limit fuel self data memory = some (result, trace) ∧
      ∀ s after, .call s (.goOn after) ∈ trace → s < after := by
  cases data with
  | none =>
      cases fuel with
      | zero => omega
      | succ fuel => exact ⟨(self, none), [], rfl, nofun⟩
  | some start =>
      have ends : Ends memory start limit (Config.load limit fuel self (some start)) _ :=
        load_ends (Nat.le_refl start) enough
      rcases ends with ⟨result, trace, run, obeys, -⟩
      exact ⟨result, trace, run, obeys.calls⟩

theorem not_onlyBlanks_iff {q : ℕ} : ¬OnlyBlanks memory limit q ↔
    ∃ p, q < p ∧ p < limit ∧ memory p ≠ ' '.toUInt8 ∧ memory p ≠ '\t'.toUInt8 := by
  simp only [OnlyBlanks, not_forall, not_or, exists_prop]

/-- A look goes too far exactly if a value has been begun at an `=` with blanks behind it. -/
theorem Fair.inside_iff {trace : List Event} (obeys : Fair memory lo limit trace) :
    (∀ p, .read p ∈ trace → lo ≤ p ∧ p < limit) ↔
      ∀ q, .value q ∈ trace → ¬OnlyBlanks memory limit q := by
  constructor
  · intro inside q value blanks
    exact absurd (inside limit (obeys.values q value blanks)).2 (Nat.lt_irrefl limit)
  · intro more p looked
    rcases obeys.reads p looked with inside | ⟨-, q, value, blanks⟩
    · exact inside
    · exact absurd blanks (more q value)

/-- All looks are inside of the text exactly if there is more than blanks behind each `=` at
which a value is begun. -/
theorem load_inside_iff (memory : ℕ → UInt8) (limit : ℕ) (self : Sts) (data : ℕ) {fuel : ℕ}
    (enough : limit - data < fuel) :
    ∃ result trace, Config.load limit fuel self (some data) memory = some (result, trace) ∧
      ((∀ p, .read p ∈ trace → data ≤ p ∧ p < limit) ↔
        ∀ q, .value q ∈ trace →
          ∃ p, q < p ∧ p < limit ∧ memory p ≠ ' '.toUInt8 ∧ memory p ≠ '\t'.toUInt8) := by
  have ends : Ends memory data limit (Config.load limit fuel self (some data)) _ :=
    load_ends (Nat.le_refl data) enough
  rcases ends with ⟨result, trace, run, obeys, -⟩
  refine ⟨result, trace, run, obeys.inside_iff.trans ?_⟩
  simp only [not_onlyBlanks_iff]

/-- In a text with more than blanks behind every `=` all looks are inside. -/
theorem load_inside {self : Sts} {data fuel : ℕ} (enough : limit - data < fuel)
    (more : ∀ q, q < limit → memory q = '='.toUInt8 → ¬OnlyBlanks memory limit q) :
    ∃ result trace, Config.load limit fuel self (some data) memory = some (result, trace) ∧
      ∀ p, .read p ∈ trace → data ≤ p ∧ p < limit := by
  have ends : Ends memory data limit (Config.load limit fuel self (some data)) _ :=
    load_ends (Nat.le_refl data) enough
  rcases ends with ⟨result, trace, run, obeys, -⟩
  refine ⟨result, trace, run, obeys.inside_iff.mpr fun q value => ?_⟩
  rcases obeys.marks q value with ⟨inside, equals⟩
  exact more q inside equals

/-- A text, and what is found behind it -/
def textAt (s : List UInt8) (behind : UInt8) (p : ℕ) : UInt8 := s.getD p behind

/-- A block with a value in it -/
def blockText : ℕ → UInt8 := textAt (ascii ['a', '{', 'b', '=', '1', '}']) 0

theorem load_returns_block :
    ∃ result trace, Config.load 6 7 .new (some 0) blockText = some (result, trace) ∧
      ∀ s after, .call s (.goOn after) ∈ trace → s < after :=
  load_returns blockText 6 .new (some 0) (by decide)

theorem load_inside_iff_block :
    ∃ result trace, Config.load 6 7 .new (some 0) blockText = some (result, trace) ∧
      ((∀ p, .read p ∈ trace → 0 ≤ p ∧ p < 6) ↔
        ∀ q, .value q ∈ trace →
          ∃ p, q < p ∧ p < 6 ∧ blockText p ≠ ' '.toUInt8 ∧ blockText p ≠ '\t'.toUInt8) :=
  load_inside_iff blockText 6 .new 0 (by decide)

/-- The text `a=` -/
theorem not_load_inside :
    ¬∀ result trace,
      Config.load 2 3 .new (some 0) (textAt (ascii ['a', '=']) 0) = some (result, trace) →
        ∀ p, .read p ∈ trace → 0 ≤ p ∧ p < 2 := by
  intro inside
  have looked := inside _ _ rfl 2 (by decide +kernel)
  exact absurd looked.2 (Nat.lt_irrefl 2)

end Imconee.Config
