import Imconee.Config.Quoting
import Mathlib.Data.List.Dedup

/-!
# `sts_t::store`

The text of a tree. A block with few and short elements stands in one line, and there its values
are in quotes up to the last one; in any other block each element has a line of its own. The
values have been given as texts, so that there is none that is not specified, and the elements
have names, as the length of a null name cannot be asked for.
-/

set_option autoImplicit false

namespace Imconee.Config

open Str

namespace Sts

/-- What the map of the elements has for one of them -/
def key : ElementName → Option (List UInt8)
  | .none => none
  | .comment => some []
  | .named name => some name

/-- `elements.size()` -/
def mapSize (elements : List (ElementName × Sts)) : ℕ :=
  (elements.filterMap fun element => key element.1).dedup.length

/-- `has_comment`, with what it finds -/
def findComment (elements : List (ElementName × Sts)) : Option (List UInt8) :=
  (elements.find? fun element => element.1 = .comment).map fun element => element.2.value

/-- A comment that is all there is in a block -/
def loneComment (elements : List (ElementName × Sts)) : Option (List UInt8) :=
  if mapSize elements = 1 then findComment elements else none

def nameText (name : ElementName) : List UInt8 := (key name).getD []

/-- `ONE_LINE_LIMIT` -/
def oneLineLimit : ℕ := 40

/-- The loop that adds up the lengths -/
def fitsLine : ℕ → List (ElementName × Sts) → Bool
  | _, [] => true
  | totalLen, (name, sts) :: elements =>
      if !sts.elements.isEmpty then false
      else
        let totalLen := totalLen + ((nameText name).length + sts.value.length)
        if oneLineLimit < totalLen then false else fitsLine totalLen elements

/-- `can be block stored as single line?` -/
def oneLine (level : ℕ) (value : List UInt8) (elements : List (ElementName × Sts)) : Bool :=
  if 3 < mapSize elements || level = 0 || (findComment elements).isSome then false
  else fitsLine value.length elements

def newLine (level : ℕ) : List UInt8 :=
  ['\r'.toUInt8, '\n'.toUInt8] ++ List.replicate level '\t'.toUInt8

/-- The name and the value -/
def storeHead (name : ElementName) (sts : Sts) (allowUnquoted : Bool) : List UInt8 :=
  nameText name ++
    if !sts.value.isEmpty then '='.toUInt8 :: storeValue sts.value allowUnquoted
    else if name ≠ .none && sts.elements.isEmpty then ['='.toUInt8]
    else []

mutual

/-- `store` -/
def store (level : ℕ) : Sts → List UInt8
  | mk value elements => storeElements level (oneLine level value elements) true elements

/-- The loop over the elements -/
def storeElements (level : ℕ) (oneLine first : Bool) : List (ElementName × Sts) → List UInt8
  | [] => []
  | element :: elements =>
      storeElement level oneLine first elements.isEmpty element ++
        storeElements level oneLine false elements

def storeElement (level : ℕ) (oneLine first last : Bool) : ElementName × Sts → List UInt8
  | (.comment, sts) => ' '.toUInt8 :: sts.value
  | (name, sts) =>
      (if !oneLine && (0 < level || !first) then newLine level else []) ++
      storeHead name sts (!oneLine || last) ++
      (match loneComment sts.elements with
      | some comment => ' '.toUInt8 :: comment
      | none =>
          if sts.elements.isEmpty then []
          else
            (if (storeHead name sts (!oneLine || last)).isEmpty then [] else [' '.toUInt8]) ++
              '{'.toUInt8 :: store (level + 1) sts ++ ['}'.toUInt8]) ++
      (if !last then if oneLine then [' '.toUInt8] else []
      else if !oneLine && 0 < level then newLine (level - 1) else [])

end

end Sts

end Imconee.Config
