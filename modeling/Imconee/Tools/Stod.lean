import Imconee.Lib.Binary64
import Imconee.Tools.Strings

/-!
# `std::stod`

What `strtod` reads at the front of a text in the locale of C: a decimal or a hexadecimal number
with an exponent, an infinity, or no number at all. `stod` throws where nothing is read, and where
what is read is out of range.
-/

set_option autoImplicit false

namespace Imconee.Str

open Lib Numeral

/-- `tolower` -/
def toLower (c : UInt8) : UInt8 := if 65 ≤ c && c ≤ 90 then c + 32 else c

/-- A text begins with the word, in letters of either case. -/
def startsWord (s word : List UInt8) : Bool := startsWith (s.map toLower) word

/-- The text behind a sign -/
def withoutSign (s : List UInt8) : List UInt8 :=
  if s.head? = some 45 ∨ s.head? = some 43 then s.tail else s

/-- What an exponent behind `mark` is; there need not be one. -/
def readExponent (mark : UInt8) : List UInt8 → ℤ
  | [] => 0
  | c :: s =>
      if toLower c = mark then
        match leadingNumber (withoutSign s) with
        | some n => if s.head? = some 45 then -n else n
        | none => 0
      else 0

/-- Digits with a point among them, and an exponent -/
def readDigits (base exponentBase : ℕ) (digit : UInt8 → Bool) (mark : UInt8) (s : List UInt8) :
    Option ℚ :=
  let whole := s.takeWhile digit
  let rest := s.dropWhile digit
  let point := rest.head? = some '.'.toUInt8
  let fraction := if point then rest.tail.takeWhile digit else []
  let rest := if point then rest.tail.dropWhile digit else rest
  if whole = [] ∧ fraction = [] then none
  else some (value base (charDigits (whole ++ fraction)) / base ^ fraction.length *
    exponentBase ^ readExponent mark rest)

def readDecimal (s : List UInt8) : Option ℚ := readDigits 10 10 isDigit 'e'.toUInt8 s

/-- A number behind `0x`; without one it is the zero before the `x` that is read. -/
def readMagnitude (s : List UInt8) : Option ℚ :=
  if startsWord s (ascii ['0', 'x']) then
    (readDigits 16 2 (fun c => (charDigit c).isSome) 'p'.toUInt8 (s.drop 2)).or (readDecimal s)
  else readDecimal s

/-- `strtod`: the number, if there is one, and whether it is out of range -/
def strtod (s : List UInt8) : Option (Binary64 × Bool) :=
  let s := (s.takeWhile (· ≠ 0)).dropWhile isspace
  let minus := s.head? = some 45
  let s := withoutSign s
  if startsWord s (ascii ['i', 'n', 'f']) then some (.infinity minus, false)
  else if startsWord s (ascii ['n', 'a', 'n']) then some (.nan, false)
  else (readMagnitude s).map fun q => Binary64.ofRat (if minus then -q else q)

/-- `std::stod`; what it throws is the error. -/
def stod (s : List UInt8) : Except Errc Binary64 :=
  match strtod s with
  | none => .error .invalidArgument
  | some (d, outside) => if outside then .error .resultOutOfRange else .ok d

/-- A number is at the front of the text, and it is in range. -/
def IsNumber (s : List UInt8) : Prop := ∃ d, strtod s = some (d, false)

/-- The number at the front of a text, as an integer -/
def numberOf (s : List UInt8) : ℤ := ((strtod s).map fun read => read.1.toInt64).getD 0

theorem stod_of_isNumber {s : List UInt8} (number : IsNumber s) :
    ∃ d, stod s = .ok d ∧ d.toInt64 = numberOf s := by
  rcases number with ⟨d, read⟩
  exact ⟨d, by simp [stod, read], by simp [numberOf, read]⟩

theorem stod_of_not_isNumber {s : List UInt8} (noNumber : ¬IsNumber s) :
    ∃ thrown, stod s = .error thrown := by
  cases read : strtod s with
  | none => exact ⟨.invalidArgument, by simp [stod, read]⟩
  | some found =>
      rcases found with ⟨d, outside⟩
      cases outside with
      | false => exact absurd ⟨d, read⟩ noNumber
      | true => exact ⟨.resultOutOfRange, by simp [stod, read]⟩

end Imconee.Str
