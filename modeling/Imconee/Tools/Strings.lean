import Imconee.Lib.Numeral

/-!
# `str`, and numbers in texts

The helpers of `str`, with what the standard library has for finding a text in another one and
for numbers. A `char` is a byte.
-/

set_option autoImplicit false

namespace Imconee.Str

open Lib Numeral

def ascii (s : List Char) : List UInt8 := s.map Char.toUInt8

/-- `find` of a character; `none` is `npos`. -/
def findChar (s : List UInt8) (c : UInt8) : Option ℕ := s.findIdx? (· = c)

/-- `find` of a text. -/
def findText (pattern : List UInt8) : List UInt8 → Option ℕ
  | [] => if pattern = [] then some 0 else none
  | c :: s => if pattern <+: c :: s then some 0 else (findText pattern s).map (· + 1)

/-- `substr(pos, n)`, in which `none` is `npos` -/
def substr (s : List UInt8) (pos : ℕ) (n : Option ℕ) : List UInt8 :=
  match n with
  | none => s.drop pos
  | some n => (s.drop pos).take n

def getLastChar (s : List UInt8) : UInt8 := s.getLastD 0

def startsWith (s ss : List UInt8) : Bool :=
  if s.length < ss.length then false else s.take ss.length == ss

def isDigit (c : UInt8) : Bool := 48 ≤ c && c ≤ 57

/-- The characters that `token` has passed since its begin are `tkn`. -/
def tokensFrom (separator : UInt8) : List UInt8 → List UInt8 → List (List UInt8)
  | tkn, [] => [tkn]
  | tkn, c :: str =>
      if c = separator then
        tkn :: if str = [] then [] else tokensFrom separator [] str
      else tokensFrom separator (tkn ++ [c]) str

/-- `token`; it is at its end where nothing is left of the text. -/
def tokens (separator : UInt8) (str : List UInt8) : List (List UInt8) :=
  if str = [] then [] else tokensFrom separator [] str

def cc : List UInt8 :=
  ascii ['0', '1', '2', '3', '4', '5', '6', '7', '8', '9', 'a', 'b', 'c', 'd', 'e', 'f']

/-- The loop of `append_hex`, with so many digits to come. -/
def appendHexLoop (v : ℕ) : ℕ → Bool → List UInt8 → List UInt8
  | 0, skipz, s => if skipz then s ++ [cc.getD 0 0] else s
  | left + 1, skipz, s =>
      let hex := (v >>> (4 * left)) &&& 0xf
      if skipz ∧ hex = 0 then appendHexLoop v left skipz s
      else appendHexLoop v left false (s ++ [cc.getD hex 0])

/-- `append_hex` of a value of `size` bytes -/
def appendHex (size : ℕ) (s : List UInt8) (v : ℕ) : List UInt8 := appendHexLoop v (2 * size) true s

/-- `is_space` -/
def isSpace (c : UInt8) : Bool :=
  c = 32 || c = '\n'.toUInt8 || c = '\r'.toUInt8 || c = '\t'.toUInt8

def ltrim (s : List UInt8) : List UInt8 := s.dropWhile isSpace

def rtrim (s : List UInt8) : List UInt8 := (s.reverse.dropWhile isSpace).reverse

def trim (s : List UInt8) : List UInt8 := ltrim (rtrim s)

/-- `ltrim` of a view, which goes back by one character -/
def ltrimView (s : List UInt8) : List UInt8 := s.drop ((s.takeWhile isSpace).length - 1)

def trimView (s : List UInt8) : List UInt8 := ltrimView (rtrim s)

/-! ### Numbers of the standard library -/

/-- `std::to_string` -/
def toString (v : ℕ) : List UInt8 := print 10 v

/-- What the digits at the front of a text make up. -/
def leadingNumber (s : List UInt8) : Option ℕ :=
  if s.takeWhile isDigit = [] then none
  else some (value 10 ((s.takeWhile isDigit).map fun c => c.toNat - 48))

/-- `std::errc` -/
inductive Errc where
  | none
  | invalidArgument
  | resultOutOfRange
  deriving DecidableEq

/-- `std::from_chars` into a `u16`; what it cannot read leaves the number as it was. -/
def fromCharsU16 (s : List UInt8) (before : UInt16) : UInt16 :=
  match leadingNumber s with
  | some n => if n < 65536 then UInt16.ofNat n else before
  | none => before

/-- `std::from_chars` into a `signed_t` of 64 bits -/
def fromCharsSigned (s : List UInt8) (before : ℤ) : ℤ × Errc :=
  let minus := s.head? = some 45
  match leadingNumber (if minus then s.tail else s) with
  | some n =>
      let v : ℤ := if minus then -n else n
      if -(2 ^ 63) ≤ v ∧ v < 2 ^ 63 then (v, .none) else (before, .resultOutOfRange)
  | none => (before, .invalidArgument)

/-- `isspace` -/
def isspace (c : UInt8) : Bool := c = 32 || (9 ≤ c && c ≤ 13)

/-- `std::stoi`; what it throws is the error. -/
def stoi (s : List UInt8) : Except Errc ℤ :=
  let s := s.dropWhile isspace
  let minus := s.head? = some 45
  match leadingNumber (if minus ∨ s.head? = some 43 then s.tail else s) with
  | some n =>
      let v : ℤ := if minus then -n else n
      if -(2 ^ 31) ≤ v ∧ v < 2 ^ 31 then .ok v else .error .resultOutOfRange
  | none => .error .invalidArgument

/-! ### `append_hex` prints a number -/

theorem cc_getD {digit : ℕ} (small : digit < 16) : cc.getD digit 0 = digitChar digit := by
  interval_cases digit <;> rfl

theorem hex_eq (v left : ℕ) : (v >>> (4 * left)) &&& 0xf = v / 16 ^ left % 16 := by
  rw [Nat.shiftRight_eq_div_pow, Nat.pow_mul]
  exact Nat.and_two_pow_sub_one_eq_mod _ 4

/-- The last digits of a number, with leading zeros. -/
def lastDigits (v : ℕ) : ℕ → List ℕ
  | 0 => []
  | left + 1 => v / 16 ^ left % 16 :: lastDigits v left

@[simp]
theorem length_lastDigits (v left : ℕ) : (lastDigits v left).length = left := by
  induction left with
  | zero => rfl
  | succ left ih => rw [lastDigits, List.length_cons, ih]

theorem lt_of_mem_lastDigits {v left digit : ℕ} (mem : digit ∈ lastDigits v left) :
    digit < 16 := by
  induction left with
  | zero => cases mem
  | succ left ih =>
      rcases List.mem_cons.mp mem with rfl | mem
      · exact Nat.mod_lt _ (by decide)
      · exact ih mem

theorem value_lastDigits (v left : ℕ) : value 16 (lastDigits v left) = v % 16 ^ left := by
  induction left with
  | zero => rw [lastDigits, Nat.pow_zero, Nat.mod_one, value, List.foldl_nil]
  | succ left ih =>
      rw [lastDigits, value_cons, ih, length_lastDigits, Nat.pow_succ, Nat.mod_mul,
        Nat.mul_comm, Nat.add_comm]

theorem appendHexLoop_false (v left : ℕ) (s : List UInt8) :
    appendHexLoop v left false s = s ++ (lastDigits v left).map digitChar := by
  induction left generalizing s with
  | zero => exact (List.append_nil s).symm
  | succ left ih =>
      have small : v / 16 ^ left % 16 < 16 := Nat.mod_lt _ (by decide)
      simp only [appendHexLoop, Bool.false_eq_true, false_and, ↓reduceIte]
      rw [ih, hex_eq, cc_getD small, lastDigits, List.map_cons, List.append_assoc,
        List.singleton_append]

theorem appendHexLoop_true (v left : ℕ) (s : List UInt8) :
    appendHexLoop v left true s = s ++ print 16 (v % 16 ^ left) := by
  induction left with
  | zero => rw [Nat.pow_zero, Nat.mod_one]; rfl
  | succ left ih =>
      have small : v / 16 ^ left % 16 < 16 := Nat.mod_lt _ (by decide)
      have all := value_lastDigits v (left + 1)
      simp only [appendHexLoop, true_and, hex_eq]
      split
      · rename_i zero
        rw [lastDigits, value_cons, zero, Nat.zero_mul, Nat.zero_add, value_lastDigits] at all
        rw [ih, all]
      · rename_i nonzero
        rw [appendHexLoop_false, cc_getD small, ← all, print, lastDigits, digits_value (by decide)]
        · rw [List.map_cons, List.append_assoc, List.singleton_append]
        · exact fun digit mem => @lt_of_mem_lastDigits v (left + 1) digit mem
        · exact nonzero

/-- A number that fits is printed without leading zeros. -/
theorem appendHex_eq {size v : ℕ} (fits : v < 16 ^ (2 * size)) (s : List UInt8) :
    appendHex size s v = s ++ print 16 v := by
  rw [appendHex, appendHexLoop_true, Nat.mod_eq_of_lt fits]

/-! ### Numbers are read back -/

theorem isDigit_digitChar {digit : ℕ} (small : digit < 10) : isDigit (digitChar digit) = true := by
  interval_cases digit <;> rfl

theorem isDigit_of_mem_print {n : ℕ} {c : UInt8} (mem : c ∈ print 10 n) : isDigit c = true := by
  rcases mem_print (by decide) mem with ⟨digit, small, rfl⟩
  exact isDigit_digitChar small

theorem notMem_print {n : ℕ} {c : UInt8} (other : isDigit c = false) : c ∉ print 10 n := fun mem =>
  absurd (isDigit_of_mem_print mem) (by rw [other]; exact Bool.false_ne_true)

theorem leadingNumber_print (n : ℕ) {rest : List UInt8} (ends : rest.takeWhile isDigit = []) :
    leadingNumber (print 10 n ++ rest) = some n := by
  have front : (print 10 n ++ rest).takeWhile isDigit = print 10 n := by
    rw [List.takeWhile_append_of_pos fun c mem => isDigit_of_mem_print mem, ends, List.append_nil]
  have back : (print 10 n).map (fun c => c.toNat - 48) = digits 10 n := by
    rw [print, List.map_map]
    refine (List.map_congr_left fun digit mem => ?_).trans (List.map_id _)
    have small : digit < 10 := lt_of_mem_digits (by decide) mem
    interval_cases digit <;> rfl
  rw [leadingNumber, front, if_neg (print_ne_nil 10 n), back, value_digits]

theorem stoi_print {n : ℕ} (small : n < 2 ^ 31) : stoi (print 10 n) = .ok n := by
  rcases List.exists_cons_of_ne_nil (print_ne_nil 10 n) with ⟨c, rest, begins⟩
  have digit : isDigit c = true := isDigit_of_mem_print (begins ▸ List.mem_cons_self)
  simp only [isDigit, Bool.and_eq_true, decide_eq_true_eq, UInt8.le_iff_toNat_le,
    UInt8.reduceToNat] at digit
  have noSpace : isspace c = false := by
    simp only [isspace, Bool.or_eq_false_iff, decide_eq_false_iff_not, Bool.and_eq_false_iff,
      UInt8.le_iff_toNat_le, UInt8.reduceToNat, ← UInt8.toNat_inj]
    omega
  have noSign : c ≠ 45 ∧ c ≠ 43 := by
    simp only [ne_eq, ← UInt8.toNat_inj, UInt8.reduceToNat]
    omega
  have same : (print 10 n).dropWhile isspace = print 10 n := by
    rw [begins, List.dropWhile_cons_of_neg (by rw [noSpace]; exact Bool.false_ne_true)]
  have minus : (print 10 n).head? ≠ some 45 := by simp [begins, noSign.1]
  have plus : (print 10 n).head? ≠ some 43 := by simp [begins, noSign.2]
  have number := @leadingNumber_print n [] rfl
  rw [List.append_nil] at number
  simp only [stoi, same, minus, plus, or_self, ↓reduceIte, number]
  rw [if_pos (by omega)]

/-! ### Tokens -/

theorem tokensFrom_single {separator : UInt8} {piece : List UInt8} (single : separator ∉ piece)
    (tkn : List UInt8) : tokensFrom separator tkn piece = [tkn ++ piece] := by
  induction piece generalizing tkn with
  | nil => rw [tokensFrom, List.append_nil]
  | cons c piece ih =>
      rw [List.mem_cons, not_or] at single
      rw [tokensFrom, if_neg (Ne.symm single.1), ih single.2, List.append_assoc,
        List.singleton_append]

theorem tokensFrom_append {separator : UInt8} {piece : List UInt8} (single : separator ∉ piece)
    {rest : List UInt8} (more : rest ≠ []) (tkn : List UInt8) :
    tokensFrom separator tkn (piece ++ separator :: rest) =
      (tkn ++ piece) :: tokensFrom separator [] rest := by
  induction piece generalizing tkn with
  | nil => rw [List.nil_append, tokensFrom, if_pos rfl, if_neg more, List.append_nil]
  | cons c piece ih =>
      rw [List.mem_cons, not_or] at single
      rw [List.cons_append, tokensFrom, if_neg (Ne.symm single.1), ih single.2, List.append_assoc,
        List.singleton_append]

/-- Pieces with separators between them are the tokens, if none of them is empty. -/
theorem tokens_intercalate {separator : UInt8} {pieces : List (List UInt8)}
    (proper : ∀ piece ∈ pieces, separator ∉ piece ∧ piece ≠ []) :
    tokens separator ([separator].intercalate pieces) = pieces := by
  induction pieces with
  | nil => rfl
  | cons piece pieces ih =>
      rcases proper piece List.mem_cons_self with ⟨single, nonempty⟩
      have rest := ih fun other mem => proper other (List.mem_cons_of_mem piece mem)
      cases pieces with
      | nil =>
          rw [List.intercalate_singleton, tokens, if_neg nonempty, tokensFrom_single single,
            List.nil_append]
      | cons next pieces =>
          have more : [separator].intercalate (next :: pieces) ≠ [] := fun none => by
            rw [none] at rest
            cases rest
          rw [tokens, if_neg more] at rest
          rw [List.intercalate_cons_cons, List.append_assoc, List.singleton_append, tokens,
            if_neg (by simp), tokensFrom_append single more, List.nil_append, rest]

/-! ### What is found -/

theorem findChar_eq_none {s : List UInt8} {c : UInt8} (absent : c ∉ s) : findChar s c = none := by
  rw [findChar, List.findIdx?_eq_none_iff]
  intro other mem
  exact decide_eq_false fun same => absent (same ▸ mem)

theorem exists_findChar {s : List UInt8} {c : UInt8} (mem : c ∈ s) :
    ∃ place, findChar s c = some place := by
  cases found : findChar s c with
  | none => exact absurd (List.findIdx?_eq_none_iff.mp found c mem) (by simp)
  | some place => exact ⟨place, rfl⟩

theorem findChar_append {front : List UInt8} {c : UInt8} (absent : c ∉ front) (s : List UInt8) :
    findChar (front ++ c :: s) c = some front.length := by
  induction front with
  | nil => simp [findChar, List.findIdx?_cons]
  | cons other front ih =>
      rw [List.mem_cons, not_or] at absent
      have apart : decide (other = c) = false := decide_eq_false (Ne.symm absent.1)
      rw [findChar] at ih ⊢
      rw [List.cons_append, List.findIdx?_cons, apart, ih absent.2]
      rfl

theorem findText_isSome_iff {pattern s : List UInt8} :
    (findText pattern s).isSome ↔ pattern <:+: s := by
  induction s with
  | nil =>
      rw [findText, List.infix_nil]
      split
      · rename_i nothing
        exact iff_of_true rfl nothing
      · rename_i some
        exact iff_of_false Bool.false_ne_true some
  | cons c s ih =>
      rw [findText, List.infix_cons_iff, ← ih]
      split
      · rename_i front
        exact iff_of_true rfl (Or.inl front)
      · rename_i front
        rw [Option.isSome_map, or_iff_right front]

theorem findText_eq_none {pattern s : List UInt8} {c : UInt8} (needed : c ∈ pattern)
    (absent : c ∉ s) : findText pattern s = none := by
  induction s with
  | nil => rw [findText, if_neg (List.ne_nil_of_mem needed)]
  | cons other s ih =>
      have not : ¬pattern <+: other :: s := fun front => absent (front.subset needed)
      rw [findText, if_neg not, ih fun mem => absent (List.mem_cons_of_mem other mem)]
      rfl

theorem findText_append {c : UInt8} {front : List UInt8} (absent : c ∉ front)
    (pattern s : List UInt8) :
    findText (c :: pattern) (front ++ s) =
      (findText (c :: pattern) s).map (· + front.length) := by
  induction front with
  | nil => simp
  | cons other front ih =>
      rw [List.mem_cons, not_or] at absent
      have not : ¬c :: pattern <+: other :: (front ++ s) := fun begins =>
        absent.1 (List.cons_prefix_cons.mp begins).1
      rw [List.cons_append, findText, if_neg not, ih absent.2, Option.map_map]
      rfl

theorem findText_le {pattern s : List UInt8} {place : ℕ} (found : findText pattern s = some place) :
    place + pattern.length ≤ s.length := by
  induction s generalizing place with
  | nil =>
      rw [findText] at found
      split at found
      · rename_i nothing
        cases found
        simp [nothing]
      · cases found
  | cons c s ih =>
      rw [findText] at found
      split at found
      · rename_i front
        cases found
        rw [Nat.zero_add]
        exact front.length_le
      · rcases Option.map_eq_some_iff.mp found with ⟨earlier, first, rfl⟩
        have le := ih first
        rw [List.length_cons]
        omega

end Imconee.Str
