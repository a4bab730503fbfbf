import Imconee.Lib.Components
import Imconee.Tools.Strings

/-!
# `__remove_crap`

A path is cleaned in place, from its end to its begin. The scan remembers the last two slashes
that it has passed and how many steps up wait for a component to undo. The places are signed, and
there is a slash before the path and, behind a point at its end, one after it.
-/

set_option autoImplicit false

namespace Imconee.Fsys

open Str Lib

/-- `NATIVE_SLASH`, where the program is not for Windows -/
def nativeSlash : UInt8 := '/'.toUInt8

/-- `ENEMY_SLASH` -/
def enemySlash : UInt8 := '\\'.toUInt8

/-- The character that the special components are made of -/
def dot : UInt8 := '.'.toUInt8

/-- Either of the two slashes -/
def isSlash (c : UInt8) : Bool := c = nativeSlash || c = enemySlash

/-- What goes wrong with a place that is not in the string -/
inductive Fault where
  | outOfRange
  | outside
  deriving DecidableEq

/-- `operator[]`, which has a zero at the end of the string -/
def charAt (path : List UInt8) (i : ℤ) : Except Fault UInt8 :=
  if 0 ≤ i ∧ i ≤ path.length then .ok (path.getD i.toNat 0) else .error .outside

/-- `erase`, which throws where the place is not in the string -/
def erase (path : List UInt8) (pos n : ℤ) : Except Fault (List UInt8) :=
  if 0 ≤ pos ∧ pos ≤ path.length then
    .ok (path.take pos.toNat ++ if 0 ≤ n then path.drop (pos + n).toNat else [])
  else .error .outOfRange

/-- `find_first_of` the slashes -/
def findSlash (path : List UInt8) (pos : ℕ) : ℤ :=
  match (path.drop pos).findIdx? isSlash with
  | some i => pos + i
  | none => -1

/-- The variables of the loop: the text as it is by then, the two slashes passed last, and how
many steps up have still to find a folder -/
structure Scan where
  path : List UInt8
  prevPrevSlash : ℤ
  prevSlash : ℤ
  doubledot : ℤ
  deriving DecidableEq

/-- `c != ENEMY_SLASH || path[i] == ENEMY_SLASH` -/
def keepsLeft (c : UInt8) (path : List UInt8) (i : ℤ) : Except Fault Bool :=
  if c ≠ enemySlash then .ok true else (charAt path i).map fun c => decide (c = enemySlash)

/-- `path[i - 1] == '.' && path[i - 2] == '.'` -/
def dotsBefore (path : List UInt8) (i : ℤ) : Except Fault Bool := do
  let last ← charAt path (i - 1)
  if last = dot then return decide ((← charAt path (i - 2)) = dot) else return false

/-- `//` -/
def removeDouble (cch : ℤ) (c : UInt8) (s : Scan) : Except Fault Scan := do
  let path ← if ← keepsLeft c s.path s.prevSlash then erase s.path s.prevSlash 1
    else erase s.path cch 1
  return { s with path, prevPrevSlash := s.prevPrevSlash - 1, prevSlash := cch }

/-- `/./` -/
def removeHere (cch : ℤ) (c : UInt8) (s : Scan) : Except Fault Scan := do
  let left ← if s.prevSlash < s.path.length then keepsLeft c s.path s.prevSlash else .ok false
  let path ← if left then erase s.path (s.prevSlash - 1) 2 else erase s.path cch 2
  return { s with path, prevPrevSlash := s.prevPrevSlash - 2, prevSlash := cch }

/-- The step up that waits next, which an assertion looks at -/
def nextDoubledot (cch : ℤ) (s : Scan) : Except Fault Scan :=
  if s.doubledot = 0 then .ok s
  else do
    if isSlash (← charAt s.path (cch + 3)) then discard (dotsBefore s.path (cch + 3))
    return { s with doubledot := s.doubledot - 1, prevPrevSlash := cch + 3 }

/-- `/subfolder/..` -/
def removeSubfolder (cch : ℤ) (c : UInt8) (s : Scan) : Except Fault Scan := do
  let n := s.prevPrevSlash - cch
  let left ← if s.prevPrevSlash < s.path.length then keepsLeft c s.path s.prevPrevSlash
    else .ok false
  let path ← if left then erase s.path (cch + 1) n else erase s.path cch n
  nextDoubledot cch { s with path, prevPrevSlash := cch, prevSlash := cch }

/-- `prev_slash - 2 == cch && path[cch + 1] == '.'` -/
def isHere (cch : ℤ) (s : Scan) : Except Fault Bool :=
  if s.prevSlash - 2 = cch then (charAt s.path (cch + 1)).map fun c => decide (c = dot)
  else .ok false

/-- What stands between the two slashes is a step up. -/
def isUp (cch : ℤ) (s : Scan) : Except Fault Bool :=
  if s.prevPrevSlash - 3 = s.prevSlash ∧ cch < s.prevSlash then dotsBefore s.path s.prevPrevSlash
  else .ok false

/-- `prev_slash - 3 == cch && path[prev_slash - 1] == '.' && path[prev_slash - 2] == '.'` -/
def isUpAgain (cch : ℤ) (s : Scan) : Except Fault Bool :=
  if s.prevSlash - 3 = cch then dotsBefore s.path s.prevSlash else .ok false

/-- A slash that the scan meets; `none` where it ends at once. -/
def meetSlash (cch : ℤ) (c : UInt8) (s : Scan) : Except Fault (Option Scan) :=
  if s.prevSlash - 1 = cch then
    if cch < 0 then .ok none else some <$> removeDouble cch c s
  else do
    if ← isHere cch s then some <$> removeHere cch c s
    else if ← isUp cch s then
      if ← isUpAgain cch s then
        return some { s with
          doubledot := s.doubledot + 1, prevPrevSlash := s.prevSlash, prevSlash := cch }
      else some <$> removeSubfolder cch c s
    else return some { s with prevPrevSlash := s.prevSlash, prevSlash := cch }

/-- One character -/
def visit (cch : ℤ) (s : Scan) : Except Fault (Option Scan) := do
  let c ← if 0 ≤ cch then charAt s.path cch else .ok nativeSlash
  if isSlash c then meetSlash cch c s else return some s

/-- The loop, with so many characters to come down to the place `limit` -/
def scanLoop (limit : ℤ) : ℕ → Scan → Except Fault (List UInt8)
  | 0, s => .ok s.path
  | left + 1, s => do
      match ← visit (limit + left) s with
      | none => return s.path
      | some s => scanLoop limit left s

/-- `__remove_crap`. Behind a dot the end of the path counts as a slash, and the front of a UNC
path stays as it is. -/
def removeCrap (path : List UInt8) : Except Fault (List UInt8) :=
  let prevSlash : ℤ := if getLastChar path = dot then path.length else -1
  let limit : ℤ := if startsWith path [enemySlash, enemySlash] then findSlash path 2 else -1
  scanLoop limit (path.length - limit).toNat ⟨path, prevSlash, prevSlash, 0⟩

end Imconee.Fsys
