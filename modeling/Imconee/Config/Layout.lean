import Imconee.Config.Elements
import Imconee.Config.Store

/-!
# The text of a block, element by element

The text of a block whose elements have words for names is that of its elements with white space
between them. What the reader makes of it is the block, up to the first element without a value
in a line with others behind it: that one takes the rest of the line for its value.
-/

set_option autoImplicit false

namespace Imconee.Config

open Str

/-- A tree whose names are words, distinct within a block, and in which there is no comment -/
inductive WellNamed : Sts → Prop
  | mk {value : List UInt8} {elements : List (ElementName × Sts)}
      (distinct : (elements.map Prod.fst).Nodup)
      (named : ∀ element ∈ elements, ∃ name, element.1 = .named name ∧ IsWord name)
      (children : ∀ element ∈ elements, WellNamed element.2) : WellNamed (.mk value elements)

/-- In a block that is stored in one line there is a value for each element before the last. -/
inductive NothingEarly : ℕ → Sts → Prop
  | mk {level : ℕ} {value : List UInt8} {elements : List (ElementName × Sts)}
      (here : Sts.oneLine level value elements = true →
        ∀ element ∈ elements.dropLast, element.2.value ≠ [])
      (children : ∀ element ∈ elements, NothingEarly (level + 1) element.2) :
      NothingEarly level (.mk value elements)

/-- A value in which nothing stands that ends a value without quotes -/
def IsTame (value : List UInt8) : Prop := (∀ c ∈ value, Plain '}'.toUInt8 c) ∧ Quiet value

/-- Where a line has an element without a value before its last one, its values are tame. -/
inductive TameLines : ℕ → Sts → Prop
  | mk {level : ℕ} {value : List UInt8} {elements : List (ElementName × Sts)}
      (here : Sts.oneLine level value elements = true →
        (∀ element ∈ elements.dropLast, element.2.value ≠ []) ∨
          ∀ element ∈ elements, IsTame element.2.value)
      (children : ∀ element ∈ elements, TameLines (level + 1) element.2) :
      TameLines level (.mk value elements)

namespace Sts

mutual

/-- What is read of the text of a tree -/
def reread (level : ℕ) : Sts → Sts
  | mk value elements => mk value (rereadElements level (oneLine level value elements) elements)

def rereadElements (level : ℕ) (oneLine : Bool) :
    List (ElementName × Sts) → List (ElementName × Sts)
  | [] => []
  | element :: elements =>
      if oneLine && element.2.value.isEmpty && !elements.isEmpty then
        [(element.1, mk (storeElements level true false elements) [])]
      else rereadElement level element :: rereadElements level oneLine elements

def rereadElement (level : ℕ) : ElementName × Sts → ElementName × Sts
  | (name, sts) => (name, reread (level + 1) sts)

end

/-! ### Lines -/

theorem fitsLine_leaf {totalLen : ℕ} {elements : List (ElementName × Sts)}
    (fits : fitsLine totalLen elements = true) : ∀ element ∈ elements, element.2.elements = [] := by
  induction elements generalizing totalLen with
  | nil => simp
  | cons element elements ih =>
      rcases element with ⟨name, sts⟩
      simp only [fitsLine] at fits
      split at fits
      · cases fits
      · rename_i leaf
        split at fits
        · cases fits
        · simp only [Bool.not_eq_eq_eq_not, Bool.not_true, Bool.not_eq_false,
            List.isEmpty_iff] at leaf
          simpa [leaf] using ih fits

/-- A block in one line is not the outermost one, and there is no block in it. -/
theorem oneLine_leaf {level : ℕ} {value : List UInt8} {elements : List (ElementName × Sts)}
    (line : oneLine level value elements = true) :
    0 < level ∧ ∀ element ∈ elements, element.2.elements = [] := by
  simp only [oneLine] at line
  split at line
  · cases line
  · rename_i short
    simp only [Bool.or_eq_true, decide_eq_true_eq, not_or] at short
    exact ⟨Nat.pos_of_ne_zero short.1.2, fitsLine_leaf line⟩

theorem findComment_of_wellNamed {sts : Sts} (named : WellNamed sts) :
    findComment sts.elements = none := by
  rcases named with ⟨-, words, -⟩
  simp only [findComment, elements, Option.map_eq_none_iff, List.find?_eq_none]
  intro element inside
  rcases words element inside with ⟨name, isNamed, -⟩
  simp [isNamed]

/-! ### The parts of a line -/

/-- What follows the name of an element up to its block -/
def valueText (allowUnquoted : Bool) (sts : Sts) : List UInt8 :=
  if sts.value = [] then if sts.elements = [] then ['='.toUInt8] else []
  else '='.toUInt8 :: storeValue sts.value allowUnquoted

def braced (level : ℕ) (sts : Sts) : List UInt8 :=
  if sts.elements = [] then []
  else ' '.toUInt8 :: '{'.toUInt8 :: store (level + 1) sts ++ ['}'.toUInt8]

/-- The white space behind an element, before the others -/
def between (level : ℕ) (oneLine : Bool) (others : List (ElementName × Sts)) : List UInt8 :=
  if others = [] then if !oneLine && 0 < level then newLine (level - 1) else []
  else if oneLine then [' '.toUInt8]
  else newLine level

/-- The elements with what is between and behind them -/
def inner (level : ℕ) (oneLine : Bool) : List (ElementName × Sts) → List UInt8
  | [] => []
  | (name, sts) :: elements =>
      nameText name ++ (valueText (!oneLine || elements.isEmpty) sts ++
        (braced level sts ++ (between level oneLine elements ++ inner level oneLine elements)))

/-- The white space before the first element -/
def before (level : ℕ) (oneLine first : Bool) : List UInt8 :=
  if !oneLine && (0 < level || !first) then newLine level else []

theorem storeHead_eq (name : List UInt8) (sts : Sts) (allowUnquoted : Bool) :
    storeHead (.named name) sts allowUnquoted = name ++ valueText allowUnquoted sts := by
  simp only [storeHead, valueText, nameText, key, Option.getD_some]
  by_cases nothing : sts.value = [] <;> by_cases leaf : sts.elements = [] <;> simp [nothing, leaf]

theorem storeElement_eq {level : ℕ} {oneLine first last : Bool} {name : List UInt8} {sts : Sts}
    (isWord : IsWord name) (noComment : findComment sts.elements = none) :
    storeElement level oneLine first last (.named name, sts) =
      before level oneLine first ++ (name ++ (valueText (!oneLine || last) sts ++
        (braced level sts ++ if !last then if oneLine then [' '.toUInt8] else []
        else if !oneLine && 0 < level then newLine (level - 1) else []))) := by
  have alone : loneComment sts.elements = none := by simp [loneComment, noComment]
  have named : ¬(name ++ valueText (!oneLine || last) sts).isEmpty = true := by
    simp [isWord.nonempty]
  simp only [storeElement, storeHead_eq, alone, named, before, braced]
  by_cases leaf : sts.elements = [] <;> simp [leaf]

theorem storeElements_eq {level : ℕ} {oneLine first : Bool}
    {elements : List (ElementName × Sts)}
    (named : ∀ element ∈ elements, ∃ name, element.1 = .named name ∧ IsWord name)
    (children : ∀ element ∈ elements, WellNamed element.2) (some : elements ≠ []) :
    storeElements level oneLine first elements =
      before level oneLine first ++ inner level oneLine elements := by
  induction elements generalizing first with
  | nil => exact absurd rfl some
  | cons element elements ih =>
      rcases element with ⟨name, sts⟩
      rcases named _ List.mem_cons_self with ⟨word, rfl, isWord⟩
      have noComment := findComment_of_wellNamed (children _ List.mem_cons_self)
      rw [storeElements, storeElement_eq isWord noComment]
      rcases eq_or_ne elements [] with rfl | more
      · simp [storeElements, inner, between, nameText, key]
      · have rest := @ih false (fun element inside => named element (by simp [inside]))
          (fun element inside => children element (by simp [inside])) more
        rw [rest]
        cases oneLine <;> simp [inner, between, before, nameText, key, more]

end Sts

end Imconee.Config
