import Imconee.Config.Tree
import Imconee.Tools.Stod

/-!
# Values by name

What `sts_t` has for reading an element: its text, or the number at the front of its text. In a
tree that has been read no value is `value_not_specified`, so that an element without a value has
the empty text, of which `stod` makes no number.
-/

set_option autoImplicit false

namespace Imconee.Config.Sts

open Lib Str

def get (self : Sts) (name : List UInt8) : Option Sts :=
  (self.elements.find? fun element => element.1 = .named name).map Prod.snd

def getString (self : Sts) (name : List UInt8) : List UInt8 := (self.get name).elim [] value

/-- `get_int`; an integer becomes a `double` and the same integer again. -/
def getInt (self : Sts) (name : List UInt8) (dflt : ℤ) : Except Errc ℤ :=
  match self.get name with
  | none => .ok dflt
  | some sts => (stod sts.value).map Binary64.toInt64

/-- An element of that name, if there is one, has a number. -/
def IsNumberAt (self : Sts) (name : List UInt8) : Prop :=
  ∀ sts, self.get name = some sts → IsNumber sts.value

/-- The number of an element, if it has one -/
def numberAt (self : Sts) (name : List UInt8) (dflt : ℤ) : ℤ :=
  (self.get name).elim dflt fun sts => numberOf sts.value

theorem getInt_of_isNumberAt {self : Sts} {name : List UInt8} (number : self.IsNumberAt name)
    (dflt : ℤ) : self.getInt name dflt = .ok (self.numberAt name dflt) := by
  cases found : self.get name with
  | none => simp [getInt, numberAt, found]
  | some sts =>
      rcases stod_of_isNumber (number sts found) with ⟨d, read, same⟩
      simp [getInt, numberAt, found, read, same, Except.map]

theorem getInt_of_not_isNumberAt {self : Sts} {name : List UInt8}
    (noNumber : ¬self.IsNumberAt name) (dflt : ℤ) :
    ∃ thrown, self.getInt name dflt = .error thrown := by
  simp only [IsNumberAt, not_forall] at noNumber
  rcases noNumber with ⟨sts, found, text⟩
  rcases stod_of_not_isNumber text with ⟨thrown, read⟩
  exact ⟨thrown, by simp [getInt, found, read, Except.map]⟩

end Imconee.Config.Sts
