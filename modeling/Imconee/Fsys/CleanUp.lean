import Imconee.Fsys.RemoveCrap

/-!
# What `__remove_crap` makes of a path

Between two slashes the scan does what cleaning from the right does with one component: the text
behind the last slash is a clean path, and the slashes remembered tell whether it begins with a
step up. So the scan is cleaning, with an exception where the whole path cancels out.
-/

set_option autoImplicit false

namespace Imconee.Fsys

open Str Lib

/-- The components of a path -/
def marks : Marks (List UInt8) where
  blank := []
  here := [dot]
  up := [dot, dot]
  here_ne_blank := by decide
  up_ne_blank := by decide
  up_ne_here := by decide

/-- What stands between the slashes -/
def components (path : List UInt8) : List (List UInt8) := path.splitOn nativeSlash

/-- The text of components, each of them with the slash before it -/
def behind (tail : List (List UInt8)) : List UInt8 :=
  tail.flatMap fun segment => nativeSlash :: segment

@[simp]
theorem behind_nil : behind [] = [] := List.flatMap_nil

@[simp]
theorem behind_cons (segment : List UInt8) (tail : List (List UInt8)) :
    behind (segment :: tail) = nativeSlash :: (segment ++ behind tail) := List.flatMap_cons

/-! ### Places in a text -/

@[simp]
theorem ok_bind {α β : Type} (a : α) (next : α → Except Fault β) : (.ok a >>= next) = next a := by
  simp only [bind, Except.bind]

@[simp]
theorem error_bind {α β : Type} (fault : Fault) (next : α → Except Fault β) :
    (.error fault >>= next) = .error fault := by
  simp only [bind, Except.bind]

@[simp]
theorem map_ok {α β : Type} (a : α) (f : α → β) :
    f <$> (.ok a : Except Fault α) = .ok (f a) := by
  simp only [Functor.map, Except.map]

theorem charAt_append {path front back : List UInt8} {c : UInt8} {i : ℤ}
    (whole : path = front ++ c :: back) (place : i = front.length) : charAt path i = .ok c := by
  subst whole place
  simp [charAt]
  omega

theorem charAt_inside {path : List UInt8} {i : ℤ} (low : 0 ≤ i) (high : i ≤ path.length) :
    charAt path i = .ok (path.getD i.toNat 0) := by
  simp [charAt, low, high]

theorem erase_append {path front middle back : List UInt8} {pos n : ℤ}
    (whole : path = front ++ middle ++ back) (place : pos = front.length)
    (size : n = middle.length) : erase path pos n = .ok (front ++ back) := by
  subst whole place size
  have inside : (front.length : ℤ) ≤ (front ++ middle ++ back).length := by
    simp only [List.length_append]
    omega
  have rest : ((front.length : ℤ) + middle.length).toNat = (front ++ middle).length := by
    simp only [List.length_append]
    omega
  simp only [erase, rest, inside, Int.toNat_natCast]
  simp

theorem erase_end {path : List UInt8} {pos n : ℤ} (place : pos = path.length) (size : 0 ≤ n) :
    erase path pos n = .ok path := by
  have rest : path.length ≤ (pos + n).toNat := by omega
  subst place
  simp [erase, size, List.drop_eq_nil_of_le rest]

theorem erase_before {path : List UInt8} {n : ℤ} : erase path (-1) n = .error .outOfRange := by
  simp [erase]

theorem dotsBefore_append {path front back : List UInt8} {x y : UInt8} {i : ℤ}
    (whole : path = front ++ x :: y :: back) (place : i = front.length + 2) :
    dotsBefore path i = .ok (decide ([x, y] = marks.up)) := by
  have second : charAt path (i - 1) = .ok y :=
    @charAt_append _ (front ++ [x]) back _ _ (by simp [whole]) (by simp [place]; omega)
  have first : charAt path (i - 2) = .ok x := charAt_append whole (by omega)
  by_cases point : y = dot
  · simp [dotsBefore, second, first, point, marks, pure, Except.pure]
  · simp [dotsBefore, second, point, marks, pure, Except.pure]

/-- The left one of two slashes goes if it is the native one. -/
@[simp]
theorem keepsLeft_nativeSlash (path : List UInt8) (i : ℤ) :
    keepsLeft nativeSlash path i = .ok true := by
  have other : nativeSlash ≠ enemySlash := by decide
  simp [keepsLeft, other]

/-! ### What the slashes tell -/

/-- The slashes passed last, and the steps up that wait, where the text behind is a clean path -/
structure Passed (s : Scan) (cch : ℤ) (tail : List (List UInt8)) : Prop where
  prevSlash : s.prevSlash = cch
  gap : ∀ first ∈ tail.head?, s.prevPrevSlash = cch + 1 + first.length ∨
    first ≠ marks.up ∧ s.prevPrevSlash ≤ cch
  end_gap : tail = [] → s.prevPrevSlash ≤ cch
  doubledot : s.doubledot = ((tail.takeWhile (· = marks.up)).length - 1 : ℕ)

/-- The scan is behind `left`, and the rest of its text is clean. -/
structure At (s : Scan) (left : List UInt8) (tail : List (List UInt8)) : Prop where
  path : s.path = left ++ behind tail
  passed : Passed s left.length tail

/-- Where text goes between the two slashes and the end of `left`, both come nearer. -/
theorem Passed.shift {s : Scan} {cch : ℤ} {tail : List (List UInt8)} (passed : Passed s cch tail)
    (path : List UInt8) (less : ℤ) :
    Passed ⟨path, s.prevPrevSlash - less, cch - less, s.doubledot⟩ (cch - less) tail where
  prevSlash := rfl
  gap first leads := by
    rcases passed.gap first leads with gap | ⟨not_up, low⟩
    · left
      simp only [gap]
      omega
    · exact Or.inr ⟨not_up, by simpa using low⟩
  end_gap nothing := by simpa using passed.end_gap nothing
  doubledot := passed.doubledot

/-- A slash at the end of the path -/
theorem Passed.blank {s : Scan} {cch : ℤ} (passed : Passed s cch []) :
    Passed s cch (marks.push marks.blank []) where
  prevSlash := passed.prevSlash
  gap first leads := by
    obtain rfl : first = marks.blank := by simpa using leads.symm
    exact Or.inr ⟨marks.up_ne_blank.symm, passed.end_gap rfl⟩
  end_gap nothing := by simp at nothing
  doubledot := by simpa [marks.up_ne_blank.symm] using passed.doubledot

section Tests

variable {s : Scan} {before segment : List UInt8} {tail : List (List UInt8)} {cch : ℤ}

/-- The first test finds `.` between the slashes. -/
theorem isHere_eq (place : At s (before ++ segment) tail) (start : cch + 1 = before.length) :
    isHere cch s = .ok (decide (segment = marks.here)) := by
  have length : s.prevSlash = before.length + segment.length := by
    simpa using place.passed.prevSlash
  rcases segment with _ | ⟨c, _ | ⟨second, more⟩⟩
  · have other : s.prevSlash - 2 ≠ cch := by
      simp at length
      omega
    simp [isHere, other, marks]
  · have one : s.prevSlash - 2 = cch := by
      simp at length
      omega
    have char : charAt s.path (cch + 1) = .ok c :=
      charAt_append (by simpa using place.path) start
    simp [isHere, one, char, marks, Except.map]
  · have other : s.prevSlash - 2 ≠ cch := by
      simp at length
      omega
    simp [isHere, other, marks]

theorem length_up {segment : List UInt8} (up : segment = marks.up) : segment.length = 2 := by
  simp [up, marks]

/-- The second one finds `..` behind the slash passed last. -/
theorem isUp_eq (place : At s (before ++ segment) tail) (start : cch + 1 = before.length) :
    isUp cch s = .ok (decide (tail.head? = some marks.up)) := by
  have length : s.prevSlash = before.length + segment.length := by
    simpa using place.passed.prevSlash
  have far (other : s.prevPrevSlash - 3 ≠ s.prevSlash) : isUp cch s = .ok false := by
    simp [isUp, other]
  rcases tail with _ | ⟨first, rest⟩
  · have low := place.passed.end_gap rfl
    simpa using far (by simp at low; omega)
  · rcases place.passed.gap first rfl with gap | ⟨not_up, low⟩
    · have gap_length : s.prevPrevSlash = s.prevSlash + 1 + first.length := by
        simp at gap
        omega
      by_cases two : first.length = 2
      · rcases List.length_eq_two.mp two with ⟨x, y, rfl⟩
        have text : s.path = before ++ segment ++ [nativeSlash] ++ x :: y :: behind rest := by
          simp [place.path]
        have dots : dotsBefore s.path s.prevPrevSlash = .ok (decide ([x, y] = marks.up)) :=
          dotsBefore_append text (by simp [gap_length, length]; omega)
        have reached : s.prevPrevSlash - 3 = s.prevSlash ∧ cch < s.prevSlash := by
          simp at gap_length
          omega
        simpa [isUp, reached] using dots
      · have not_up : first ≠ marks.up := fun up => two (length_up up)
        simpa [not_up] using far (by omega)
    · simpa [not_up] using far (by simp at low; omega)

theorem isUpAgain_eq (place : At s (before ++ segment) tail) (start : cch + 1 = before.length) :
    isUpAgain cch s = .ok (decide (segment = marks.up)) := by
  have length : s.prevSlash = before.length + segment.length := by
    simpa using place.passed.prevSlash
  by_cases two : segment.length = 2
  · rcases List.length_eq_two.mp two with ⟨x, y, rfl⟩
    have text : s.path = before ++ x :: y :: behind tail := by
      simp [place.path]
    have dots : dotsBefore s.path s.prevSlash = .ok (decide ([x, y] = marks.up)) :=
      dotsBefore_append text (by simp [length])
    have reached : s.prevSlash - 3 = cch := by
      simp at length
      omega
    simpa [isUpAgain, reached] using dots
  · have not_up : segment ≠ marks.up := fun up => two (length_up up)
    have far : s.prevSlash - 3 ≠ cch := by omega
    simp [isUpAgain, far, not_up]

/-- What the scan does with a component that is not blank -/
theorem meetSlash_eq (place : At s (before ++ segment) tail) (start : cch + 1 = before.length)
    (nonblank : segment ≠ []) :
    meetSlash cch nativeSlash s =
      if segment = marks.here then some <$> removeHere cch nativeSlash s
      else if tail.head? = some marks.up then
        if segment = marks.up then
          .ok (some { s with
            doubledot := s.doubledot + 1, prevPrevSlash := s.prevSlash, prevSlash := cch })
        else some <$> removeSubfolder cch nativeSlash s
      else .ok (some { s with prevPrevSlash := s.prevSlash, prevSlash := cch }) := by
  have length : s.prevSlash = before.length + segment.length := by
    simpa using place.passed.prevSlash
  have apart : s.prevSlash - 1 ≠ cch := by
    have := List.length_pos_iff.mpr nonblank
    omega
  simp [meetSlash, apart, isHere_eq place start, isUp_eq place start, isUpAgain_eq place start,
    pure, Except.pure]

end Tests

/-! ### One component -/

section Component

variable {s : Scan} {before segment : List UInt8} {tail : List (List UInt8)} {cch : ℤ}

theorem waiting_eq_zero (other : tail.head? ≠ some marks.up) :
    (tail.takeWhile (· = marks.up)).length = 0 := by
  rcases tail with _ | ⟨first, rest⟩
  · rfl
  · have not_up : first ≠ marks.up := by simpa using other
    simp [not_up]

/-- Behind a folder that goes together with its step up, the next step up is looked for. -/
theorem nextDoubledot_eq {path : List UInt8} {waiting : ℤ}
    (start : cch + 1 = before.length) (text : path = before ++ (behind tail).tail)
    (count : waiting = ((tail.takeWhile (· = marks.up)).length : ℕ)) :
    ∃ s', nextDoubledot cch ⟨path, cch, cch, waiting⟩ = .ok s' ∧ s'.path = path ∧
      Passed s' cch tail := by
  by_cases other : tail.head? = some marks.up
  · obtain ⟨rest, rfl⟩ : ∃ rest, tail = marks.up :: rest := by
      rcases tail with _ | ⟨first, rest⟩
      · simp at other
      · exact ⟨rest, by simpa using other⟩
    have some_waits : waiting ≠ 0 := by
      simp at count
      omega
    have read : charAt path (cch + 3) = .ok (path.getD (cch + 3).toNat 0) := by
      apply charAt_inside
      · omega
      · simp [text, marks]
        omega
    have dots : dotsBefore path (cch + 3) = .ok true := by
      refine (@dotsBefore_append _ before (behind rest) dot dot _ ?_ (by omega)).trans ?_
      · simpa [marks] using text
      · simp [marks]
    refine ⟨⟨path, cch + 3, cch, waiting - 1⟩, ?_, rfl, rfl, ?_, by simp, ?_⟩
    · simp only [nextDoubledot, some_waits, if_false, read, ok_bind, dots]
      split <;> rfl
    · simp [marks]
      omega
    · simp at count ⊢
      omega
  · have none_waits : waiting = 0 := by
      simp [count, waiting_eq_zero other]
    refine ⟨⟨path, cch, cch, waiting⟩, ?_, rfl, rfl, ?_, by simp, ?_⟩
    · simp [nextDoubledot, none_waits]
    · intro first leads
      exact Or.inr ⟨fun up => other (by simpa [up] using leads), le_refl cch⟩
    · simp [none_waits, waiting_eq_zero other]

/-- The scan goes on before a clean path that is not empty. -/
def GoesOn (s : Scan) (before : List UInt8) (cch : ℤ) (tail : List (List UInt8)) : Prop :=
  ∃ s', meetSlash cch nativeSlash s = .ok (some s') ∧
    s'.path = before ++ (behind tail).tail ∧ Passed s' cch tail

/-- A component `.` goes. -/
theorem meet_here (place : At s (before ++ marks.here) tail) (start : cch + 1 = before.length)
    (more : tail ≠ []) : GoesOn s before cch tail := by
  have length : s.prevSlash = before.length + 1 := by
    simpa [marks] using place.passed.prevSlash
  rcases List.exists_cons_of_ne_nil more with ⟨first, rest, rfl⟩
  have text : s.path = before ++ [dot, nativeSlash] ++ (first ++ behind rest) := by
    simp [place.path, marks]
  have inside : s.prevSlash < s.path.length := by
    simp [length, text]
    omega
  have erased : erase s.path (s.prevSlash - 1) 2 = .ok (before ++ (first ++ behind rest)) :=
    erase_append text (by simp [length]) rfl
  have back : ((before ++ marks.here).length : ℤ) - 2 = cch := by
    simp [marks]
    omega
  have passed := place.passed.shift (before ++ (first ++ behind rest)) 2
  rw [back] at passed
  refine ⟨_, ?_, ?_, passed⟩
  · simp [meetSlash_eq place start (by simp [marks]), removeHere, inside, erased, pure,
      Except.pure]
  · simp

/-- A step up in front of another one waits. -/
theorem meet_up_again (place : At s (before ++ marks.up) (marks.up :: tail))
    (start : cch + 1 = before.length) :
    GoesOn s before cch (marks.up :: marks.up :: tail) := by
  have length : s.prevSlash = before.length + marks.up.length := by
    simpa using place.passed.prevSlash
  have waits : s.doubledot = ((tail.takeWhile (· = marks.up)).length : ℕ) := by
    simpa [List.takeWhile_cons] using place.passed.doubledot
  refine ⟨⟨s.path, s.prevSlash, cch, s.doubledot + 1⟩, ?_, ?_, rfl, ?_, by simp, ?_⟩
  · simp [meetSlash_eq place start (by simp [marks]), marks.up_ne_here]
  · simp [place.path]
  · intro first leads
    left
    simp only [List.head?_cons, Option.mem_def, Option.some.injEq] at leads
    simp only [length, ← leads]
    omega
  · simp [waits]

/-- Where a step up stands behind, its end is remembered. -/
theorem prevPrevSlash_eq {left : List UInt8} (place : At s left (marks.up :: tail)) :
    s.prevPrevSlash = left.length + 3 := by
  have gap := place.passed.gap marks.up rfl
  simp [marks] at gap
  omega

/-- A folder goes together with the step up behind it. -/
theorem meet_subfolder (place : At s (before ++ segment) (marks.up :: tail))
    (start : cch + 1 = before.length) (named : marks.Named segment) (more : tail ≠ []) :
    GoesOn s before cch tail := by
  have waits : s.doubledot = ((tail.takeWhile (· = marks.up)).length : ℕ) := by
    simpa [List.takeWhile_cons] using place.passed.doubledot
  have last := prevPrevSlash_eq place
  rcases List.exists_cons_of_ne_nil more with ⟨first, rest, rfl⟩
  have text : s.path =
      before ++ (segment ++ [nativeSlash, dot, dot, nativeSlash]) ++ (first ++ behind rest) := by
    simp [place.path, marks]
  have inside : s.prevPrevSlash < s.path.length := by
    simp [last, text]
    omega
  have erased : erase s.path (cch + 1) (s.prevPrevSlash - cch) =
      .ok (before ++ (first ++ behind rest)) :=
    erase_append text start (by simp [last]; omega)
  rcases @nextDoubledot_eq before (first :: rest) cch (before ++ (first ++ behind rest)) _ start
      (by simp) waits with ⟨s', next, path, passed⟩
  refine ⟨s', ?_, path, passed⟩
  simp [meetSlash_eq place start named.1, named.2.1, named.2.2, removeSubfolder, inside, erased,
    next]

/-- Any other component stays. -/
theorem meet_other (place : At s (before ++ segment) tail) (start : cch + 1 = before.length)
    (nonblank : segment ≠ []) (not_here : segment ≠ marks.here)
    (other : tail.head? ≠ some marks.up) : GoesOn s before cch (segment :: tail) := by
  have length : s.prevSlash = before.length + segment.length := by
    simpa using place.passed.prevSlash
  have none_waits : s.doubledot = 0 := by
    simp [place.passed.doubledot, waiting_eq_zero other]
  refine ⟨⟨s.path, s.prevSlash, cch, s.doubledot⟩, ?_, ?_, rfl, ?_, by simp, ?_⟩
  · simp [meetSlash_eq place start nonblank, not_here, other]
  · simp [place.path]
  · simp [length]
    omega
  · rcases eq_or_ne segment marks.up with up | not_up
    · simp [up, none_waits, waiting_eq_zero other]
    · simp [not_up, none_waits]

/-- A component that leaves something of the text behind -/
theorem meet_kept (place : At s (before ++ segment) tail) (start : cch + 1 = before.length)
    (nonblank : segment ≠ []) (kept : marks.push segment tail ≠ []) :
    GoesOn s before cch (marks.push segment tail) := by
  by_cases here : segment = marks.here
  · subst here
    simp only [Marks.push_here] at kept ⊢
    exact meet_here place start kept
  · by_cases other : tail.head? = some marks.up
    · obtain ⟨rest, rfl⟩ : ∃ rest, tail = marks.up :: rest := by
        rcases tail with _ | ⟨first, rest⟩
        · simp at other
        · exact ⟨rest, by simpa using other⟩
      by_cases up : segment = marks.up
      · subst up
        simpa using meet_up_again place start
      · have named : marks.Named segment := ⟨nonblank, here, up⟩
        simp only [Marks.push_name_up named] at kept ⊢
        exact meet_subfolder place start named kept
    · have whole : marks.push segment tail = segment :: tail := by
        simp [Marks.push, other, here, show segment ≠ marks.blank from nonblank]
      simpa only [whole] using meet_other place start nonblank here other

/-- A component that takes all of the text behind with it, and the slash before it -/
theorem meet_gone (place : At s (before ++ segment) tail) (start : cch + 1 = before.length)
    (nonblank : segment ≠ []) (gone : marks.push segment tail = []) :
    ∃ prevPrevSlash ≤ cch, meetSlash cch nativeSlash s =
      (fun path => some ⟨path, prevPrevSlash, cch, 0⟩) <$>
        erase s.path cch (s.path.length - cch) := by
  rcases Marks.cases_segment marks segment with blank | rfl | rfl | named
  · exact absurd blank nonblank
  · obtain rfl : tail = [] := by simpa using gone
    have length : s.prevSlash = before.length + 1 := by
      simpa [marks] using place.passed.prevSlash
    have text : s.path.length = before.length + 1 := by
      simp [place.path, marks]
    have size : (before.length : ℤ) + 1 - cch = 2 := by omega
    have low := place.passed.end_gap rfl
    have none_waits : s.doubledot = 0 := by simpa using place.passed.doubledot
    refine ⟨s.prevPrevSlash - 2, ?_, ?_⟩
    · simp [marks] at low
      omega
    · simp [meetSlash_eq place start nonblank, removeHere, length, text, none_waits, size]
  · simp at gone
  · by_cases other : tail.head? = some marks.up
    · obtain rfl : tail = [marks.up] := by
        rcases tail with _ | ⟨first, rest⟩
        · simp at other
        · obtain rfl : first = marks.up := by simpa using other
          simpa [Marks.push_name_up named] using gone
      have last := prevPrevSlash_eq place
      have length : (s.path.length : ℤ) = s.prevPrevSlash := by
        simp [place.path, last, marks]
        omega
      have none_waits : s.doubledot = 0 := by simpa using place.passed.doubledot
      refine ⟨cch, le_refl cch, ?_⟩
      rw [meetSlash_eq place start nonblank, length]
      cases erased : erase s.path cch (s.prevPrevSlash - cch) <;>
        simp [named.2.1, named.2.2, removeSubfolder, length, nextDoubledot, none_waits, erased]
    · simp [Marks.push_name named other] at gone

/-- A blank component, with the slash before it -/
theorem meet_blank {left : List UInt8} (place : At s (left ++ [nativeSlash]) tail) :
    ∃ s', meetSlash left.length nativeSlash s = .ok (some s') ∧
      At s' left (marks.push marks.blank tail) := by
  have length : s.prevSlash = left.length + 1 := by
    simpa using place.passed.prevSlash
  have passed (path : List UInt8) := place.passed.shift path 1
  have reached : ((left ++ [nativeSlash]).length : ℤ) - 1 = left.length := by simp
  rw [reached] at passed
  have inside : ¬(left.length : ℤ) < 0 := by omega
  rcases eq_or_ne tail [] with rfl | more
  · have erased : erase s.path (left.length + 1) 1 = .ok s.path :=
      erase_end (by simp [place.path]) (by omega)
    refine ⟨_, ?_, ?_, passed s.path |>.blank⟩
    · simp [meetSlash, removeDouble, length, inside, erased, pure, Except.pure]
    · simp [place.path, marks, Marks.push]
  · rcases List.exists_cons_of_ne_nil more with ⟨first, rest, rfl⟩
    have text : s.path = left ++ [nativeSlash] ++ [nativeSlash] ++ (first ++ behind rest) := by
      simp [place.path]
    have erased : erase s.path (left.length + 1) 1 =
        .ok (left ++ [nativeSlash] ++ (first ++ behind rest)) :=
      erase_append text (by simp) rfl
    rw [Marks.push_blank more]
    refine ⟨_, ?_, ?_, passed (left ++ [nativeSlash] ++ (first ++ behind rest))⟩
    · simp [meetSlash, removeDouble, length, inside, erased, pure, Except.pure]
    · simp

end Component

/-! ### The whole scan -/

section Loop

variable {s : Scan} {left segment : List UInt8} {tail : List (List UInt8)}

/-- `__remove_crap` with so many characters to the left -/
def scanFrom (left : List UInt8) (s : Scan) : Except Fault (List UInt8) :=
  scanLoop (-1) (left.length + 1) s

theorem visit_slash {more : List UInt8} (text : s.path = left ++ nativeSlash :: more) :
    visit left.length s = meetSlash left.length nativeSlash s := by
  have read : charAt s.path left.length = .ok nativeSlash := charAt_append text rfl
  simp [visit, read, isSlash]

theorem scanFrom_slash {more : List UInt8} (text : s.path = left ++ nativeSlash :: more) {s' : Scan}
    (met : meetSlash left.length nativeSlash s = .ok (some s')) :
    scanFrom (left ++ [nativeSlash]) s = scanFrom left s' := by
  have length : (left ++ [nativeSlash]).length = left.length + 1 := by simp
  have index : (-1 : ℤ) + (left.length + 1 : ℕ) = left.length := by simp
  rw [scanFrom, length, scanLoop, index, visit_slash text, met]
  rfl

theorem scanFrom_char {c : UInt8} {more : List UInt8} (text : s.path = left ++ c :: more)
    (other : isSlash c = false) : scanFrom (left ++ [c]) s = scanFrom left s := by
  have read : charAt s.path left.length = .ok c := charAt_append text rfl
  have length : (left ++ [c]).length = left.length + 1 := by simp
  have index : (-1 : ℤ) + (left.length + 1 : ℕ) = left.length := by simp
  have passed : visit left.length s = .ok (some s) := by
    simp [visit, read, other, pure, Except.pure]
  rw [scanFrom, length, scanLoop, index, passed]
  rfl

/-- Nothing happens between two slashes. -/
theorem scanFrom_segment {more : List UInt8} (text : s.path = left ++ segment ++ more)
    (solid : ∀ c ∈ segment, isSlash c = false) :
    scanFrom (left ++ segment) s = scanFrom left s := by
  induction segment using List.reverseRecOn generalizing more with
  | nil => simp
  | append_singleton segment c ih =>
      calc
        scanFrom (left ++ (segment ++ [c])) s = scanFrom (left ++ segment ++ [c]) s := by simp
        _ = scanFrom (left ++ segment) s :=
          @scanFrom_char _ _ _ more (by simpa using text) (solid c (by simp))
        _ = scanFrom left s :=
          @ih (c :: more) (by simpa using text) fun c inside => solid c (by simp [inside])

/-- Cleaning one component from the right -/
theorem scanFrom_push (place : At s (left ++ nativeSlash :: segment) tail)
    (solid : ∀ c ∈ segment, isSlash c = false) :
    ∃ s', scanFrom (left ++ nativeSlash :: segment) s = scanFrom left s' ∧
      At s' left (marks.push segment tail) := by
  have text : s.path = left ++ nativeSlash :: (segment ++ behind tail) := by
    simp [place.path]
  have start : scanFrom (left ++ nativeSlash :: segment) s =
      scanFrom (left ++ [nativeSlash]) s := by
    have split : left ++ nativeSlash :: segment = left ++ [nativeSlash] ++ segment := by simp
    rw [split]
    exact @scanFrom_segment _ _ _ (behind tail) (by simp [text]) solid
  have place : At s (left ++ [nativeSlash] ++ segment) tail := by simpa using place
  have index : (left.length : ℤ) + 1 = (left ++ [nativeSlash]).length := by simp
  rw [start]
  rcases eq_or_ne segment [] with rfl | nonblank
  · rcases meet_blank (by simpa using place) with ⟨s', met, place⟩
    exact ⟨s', scanFrom_slash text met, place⟩
  · by_cases gone : marks.push segment tail = []
    · rcases meet_gone place index nonblank gone with ⟨prevPrevSlash, low, met⟩
      have erased : erase s.path left.length (s.path.length - left.length) = .ok left := by
        have whole := @erase_append s.path left (nativeSlash :: (segment ++ behind tail)) []
          left.length (s.path.length - left.length) (by simp [text]) rfl (by simp [text])
        simpa using whole
      simp only [erased, map_ok] at met
      refine ⟨_, scanFrom_slash text met, ?_⟩
      rw [gone]
      exact ⟨by simp, rfl, by simp, fun _ => low, by simp⟩
    · rcases meet_kept place index nonblank gone with ⟨s', met, path, passed⟩
      refine ⟨s', scanFrom_slash text met, ?_, passed⟩
      rcases List.exists_cons_of_ne_nil gone with ⟨first, rest, whole⟩
      simp [path, whole]

/-- The slash before the path -/
theorem scanFrom_nil (s : Scan) :
    scanFrom [] s = (meetSlash (-1) nativeSlash s).bind fun met =>
      match met with
      | none => .ok s.path
      | some s' => .ok s'.path := by
  simp only [scanFrom, scanLoop, visit]
  simp [isSlash]
  rfl

/-- The first component, before which the scan sees one more slash -/
theorem scanFrom_front (place : At s segment tail) (solid : ∀ c ∈ segment, isSlash c = false) :
    scanFrom segment s =
      match marks.front segment tail with
      | some whole => .ok (behind whole).tail
      | none => .error .outOfRange := by
  have start : scanFrom segment s = scanFrom [] s := by
    simpa using @scanFrom_segment _ [] segment (behind tail)
      (by simpa using place.path) solid
  rw [start, scanFrom_nil]
  rcases eq_or_ne segment [] with rfl | nonblank
  · have met : meetSlash (-1) nativeSlash s = .ok none := by
      simp [meetSlash, place.passed.prevSlash]
    simp [met, Except.bind, Marks.front, place.path, show marks.blank = [] from rfl]
  · have not_blank : segment ≠ marks.blank := nonblank
    have place : At s ([] ++ segment) tail := by simpa using place
    have index : (-1 : ℤ) + 1 = ([] : List UInt8).length := by simp
    by_cases gone : marks.push segment tail = []
    · rcases meet_gone place index nonblank gone with ⟨prevPrevSlash, low, met⟩
      simp [met, erase_before, Marks.front, gone, not_blank]
      rfl
    · rcases meet_kept place index nonblank gone with ⟨s', met, path, passed⟩
      simp [met, Except.bind, Marks.front, gone, not_blank, path]

/-- The scan does what `Marks` says to the components, from the last one to the first. -/
theorem scanFrom_components {first : List UInt8} {rest : List (List UInt8)}
    (place : At s (first ++ behind rest) tail)
    (solid : ∀ segment ∈ first :: rest, ∀ c ∈ segment, isSlash c = false) :
    scanFrom (first ++ behind rest) s =
      match marks.front first (rest.foldr marks.push tail) with
      | some whole => .ok (behind whole).tail
      | none => .error .outOfRange := by
  induction rest using List.reverseRecOn generalizing s tail with
  | nil =>
      simp only [behind_nil, List.append_nil] at place ⊢
      exact scanFrom_front place (solid first (by simp))
  | append_singleton rest segment ih =>
      have text : first ++ behind (rest ++ [segment]) =
          first ++ behind rest ++ nativeSlash :: segment := by
        simp [behind]
      rw [text] at place ⊢
      rcases scanFrom_push place (solid segment (by simp)) with ⟨s', step, place⟩
      rw [step, List.foldr_append]
      exact ih place fun segment inside => solid segment (by
        simp only [List.mem_cons, List.mem_append] at inside ⊢
        tauto)

end Loop

/-! ### The end of the path -/

/-- Before the first slash nothing is remembered, and so nothing is done. -/
theorem meetSlash_first (path : List UInt8) {cch : ℤ} (low : -1 ≤ cch) :
    meetSlash cch nativeSlash ⟨path, -1, -1, 0⟩ = .ok (some ⟨path, -1, cch, 0⟩) := by
  have apart : (-1 : ℤ) - 1 ≠ cch := by omega
  have not_here : (-1 : ℤ) - 2 ≠ cch := by omega
  simp only [meetSlash, apart, isHere, not_here, isUp, if_false, ok_bind]
  simp [pure, Except.pure]

/-- A component that does not end with a point is kept at the end of the path. -/
theorem push_last {segment : List UInt8} (other : getLastChar segment ≠ dot) :
    segment ≠ marks.up ∧ marks.push segment [] = [segment] := by
  have not_here : segment ≠ marks.here := by
    rintro rfl
    exact other rfl
  have not_up : segment ≠ marks.up := by
    rintro rfl
    exact other rfl
  simp [Marks.push, not_here, not_up]

/-- The scan down to the last slash of the path -/
theorem scanFrom_initial {left segment path : List UInt8}
    (text : path = left ++ nativeSlash :: segment) (other : segment ≠ marks.up)
    (solid : ∀ c ∈ segment, isSlash c = false) :
    ∃ s', scanFrom path ⟨path, -1, -1, 0⟩ = scanFrom left s' ∧ At s' left [segment] := by
  have split : path = left ++ [nativeSlash] ++ segment := by simp [text]
  have start : scanFrom (left ++ [nativeSlash] ++ segment) ⟨path, -1, -1, 0⟩ =
      scanFrom (left ++ [nativeSlash]) ⟨path, -1, -1, 0⟩ :=
    @scanFrom_segment _ (left ++ [nativeSlash]) segment [] (by simp [split]) solid
  refine ⟨⟨path, -1, left.length, 0⟩, ?_, ?_⟩
  · calc
      scanFrom path ⟨path, -1, -1, 0⟩
          = scanFrom (left ++ [nativeSlash] ++ segment) ⟨path, -1, -1, 0⟩ := by rw [← split]
      _ = scanFrom (left ++ [nativeSlash]) ⟨path, -1, -1, 0⟩ := start
      _ = scanFrom left ⟨path, -1, left.length, 0⟩ :=
        scanFrom_slash text (meetSlash_first path (by omega))
  · refine ⟨by simp [text], rfl, ?_, by simp, by simp [other]⟩
    intro first leads
    obtain rfl : segment = first := by simpa using leads
    refine Or.inr ⟨other, ?_⟩
    simp only
    omega

/-- So it does if no dot is at the end, where it has not yet passed a slash. -/
theorem scanFrom_last {first : List UInt8} {rest : List (List UInt8)}
    (other : getLastChar (first ++ behind rest) ≠ dot)
    (solid : ∀ segment ∈ first :: rest, ∀ c ∈ segment, isSlash c = false) :
    scanFrom (first ++ behind rest) ⟨first ++ behind rest, -1, -1, 0⟩ =
      match marks.front first (marks.clean rest) with
      | some whole => .ok (behind whole).tail
      | none => .error .outOfRange := by
  rcases rest.eq_nil_or_concat with rfl | ⟨rest, segment, rfl⟩
  · simp only [behind_nil, List.append_nil] at other ⊢
    have start : scanFrom first ⟨first, -1, -1, 0⟩ = scanFrom [] ⟨first, -1, -1, 0⟩ :=
      @scanFrom_segment _ [] first [] (by simp) (solid first (by simp))
    have alone : marks.front first [] = some [first] := by
      simp [Marks.front, (push_last other).2]
    rw [start, scanFrom_nil, meetSlash_first first (le_refl _)]
    simp [Except.bind, Marks.clean, alone]
  · rw [List.concat_eq_append] at other solid ⊢
    have text : first ++ behind (rest ++ [segment]) =
        first ++ behind rest ++ nativeSlash :: segment := by
      simp [behind]
    have last : getLastChar segment ≠ dot := by
      rcases segment.eq_nil_or_concat with rfl | ⟨front, c, rfl⟩
      · decide
      · rw [text] at other
        simpa [getLastChar, List.getLast?_cons] using other
    rcases push_last last with ⟨not_up, kept⟩
    rcases scanFrom_initial text not_up (solid segment (by simp)) with ⟨s', step, place⟩
    have cleaned : marks.clean (rest ++ [segment]) = rest.foldr marks.push [segment] := by
      simp [Marks.clean, kept]
    rw [step, cleaned]
    exact scanFrom_components place fun segment inside => solid segment (by
      simp only [List.mem_cons, List.mem_append] at inside ⊢
      tauto)

/-! ### The path -/

theorem startsWith_unc {path : List UInt8} (separators : enemySlash ∉ path) :
    startsWith path [enemySlash, enemySlash] = false := by
  rcases path with _ | ⟨c, path⟩
  · rfl
  · have other : c ≠ enemySlash := fun same => separators (by simp [same])
    rcases path with _ | ⟨d, path⟩ <;> simp [startsWith, other]

theorem isSlash_eq_false {c : UInt8} (native : c ≠ nativeSlash) (enemy : c ≠ enemySlash) :
    isSlash c = false := by
  simp [isSlash, native, enemy]

/-- `__remove_crap` cleans the components of the path, and throws where nothing is left. -/
theorem removeCrap_eq {path first : List UInt8} {rest : List (List UInt8)}
    (separators : enemySlash ∉ path) (text : path = first ++ behind rest)
    (solid : ∀ segment ∈ first :: rest, ∀ c ∈ segment, isSlash c = false) :
    removeCrap path =
      match marks.front first (marks.clean rest) with
      | some whole => .ok (behind whole).tail
      | none => .error .outOfRange := by
  have count : ((path.length : ℤ) - -1).toNat = path.length + 1 := by omega
  by_cases point : getLastChar path = dot
  · have start : removeCrap path = scanFrom path ⟨path, path.length, path.length, 0⟩ := by
      simp only [removeCrap, startsWith_unc separators, point, if_true, Bool.false_eq_true,
        if_false, count]
      rfl
    rw [start, text]
    exact scanFrom_components ⟨by simp, rfl, by simp, fun _ => le_refl _, by simp⟩ solid
  · have start : removeCrap path = scanFrom path ⟨path, -1, -1, 0⟩ := by
      simp only [removeCrap, startsWith_unc separators, point, if_false, Bool.false_eq_true,
        count]
      rfl
    rw [start, text]
    exact scanFrom_last (by rwa [text] at point) solid

end Imconee.Fsys
