import Mathlib.Data.List.Basic
import Mathlib.Tactic.Common

/-!
# `sts_t`

A tree of named texts. Elements stay where they have been added, so that a reference to one of
them is its place in the list.
-/

set_option autoImplicit false

namespace Imconee.Config

/-- The name of an element: a null pointer, that of comments, or one of its own. -/
inductive ElementName where
  | none
  | comment
  | named (name : List UInt8)
  deriving DecidableEq

/-- `sts_t`, with `value` and the elements in their order -/
inductive Sts where
  | mk (value : List UInt8) (elements : List (ElementName × Sts))

namespace Sts

def value : Sts → List UInt8
  | mk value _ => value

def elements : Sts → List (ElementName × Sts)
  | mk _ elements => elements

/-- `sts_t(parent)` -/
def new : Sts := mk [] []

/-- The element that is added last -/
def append (self : Sts) (name : ElementName) (sts : Sts) : Sts :=
  mk self.value (self.elements ++ [(name, sts)])

def setValue (self : Sts) (val : List UInt8) : Sts := mk val self.elements

def addComment (self : Sts) (comment : List UInt8) : Sts :=
  self.append .comment (new.setValue comment)

/-- `add_block`: an element of that name, which is a new one if there is none or if the name is
empty, and where it is. -/
def addBlock (self : Sts) (name : List UInt8) : Sts × ℕ :=
  if name = [] then (self.append .none new, self.elements.length)
  else
    match self.elements.findIdx? fun element => element.1 = .named name with
    | some place => (self, place)
    | none => (self.append (.named name) new, self.elements.length)

/-- What a reference refers to. -/
def child (self : Sts) (place : ℕ) : Sts := (self.elements[place]?.map Prod.snd).getD new

/-- A change of what a reference refers to -/
def modifyChild (self : Sts) (place : ℕ) (change : Sts → Sts) : Sts :=
  mk self.value (self.elements.modify place fun element => (element.1, change element.2))

end Sts

end Imconee.Config
