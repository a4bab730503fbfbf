import Imconee.Lib.Traced
import Imconee.Config.Tree
import Imconee.Tools.Strings

/-!
# `sts_t::load`

The reader of a text between two places of a memory. Each look at the memory is in the trace,
with the places at which a value has been begun and with what each call of `read_sts` has
returned. The loops have fuel, which is more than the text is long.
-/

set_option autoImplicit false

namespace Imconee.Config

open Lib Traced Str

/-- What `read_sts` returns: `true` with the cursor, or `false` with the cursor, which may be
null. -/
inductive ReadResult where
  | goOn (s : ℕ)
  | stop (s : Option ℕ)
  deriving DecidableEq

/-- A look at a character, a value that begins behind the `=` at a place, and a call of
`read_sts` -/
inductive Event where
  | read (p : ℕ)
  | value (p : ℕ)
  | call (s : ℕ) (result : ReadResult)
  deriving DecidableEq

/-- What reads the characters of a memory -/
abbrev Parser (α : Type) := Traced (ℕ → UInt8) Event α

def peek (p : ℕ) : Parser UInt8 := look (fun memory => memory p) [.read p]

/-- The text from `start` to `stop` -/
def slice (start stop : ℕ) : Parser (List UInt8) :=
  look (fun memory => (List.range' start (stop - start)).map memory)
    ((List.range' start (stop - start)).map .read)

/-- Whether there is a next character, and it is such a one -/
def nextIs (limit s : ℕ) (p : UInt8 → Bool) : Parser Bool :=
  if s + 1 < limit then do
    let c ← peek (s + 1)
    pure (p c)
  else pure false

/-! ### `token_start` and `token_end` -/

def tokenCheck (c : UInt8) : Bool :=
  c ≠ ' '.toUInt8 && c ≠ '\t'.toUInt8 && c ≠ '\r'.toUInt8 && c ≠ '\n'.toUInt8

/-- `seek for comment end` -/
def seekCommentEnd (limit : ℕ) : ℕ → ℕ → Parser ℕ
  | 0, _ => stuck
  | fuel + 1, t =>
      if t + 1 < limit then do
        let c ← peek t
        if c = '*'.toUInt8 then
          let next ← peek (t + 1)
          if next = '/'.toUInt8 then pure t else seekCommentEnd limit fuel (t + 1)
        else seekCommentEnd limit fuel (t + 1)
      else pure t

def seekLineEnd (limit : ℕ) : ℕ → ℕ → Parser ℕ
  | 0, _ => stuck
  | fuel + 1, t =>
      if t < limit then do
        let c ← peek t
        if c ≠ '\r'.toUInt8 ∧ c ≠ '\n'.toUInt8 then seekLineEnd limit fuel (t + 1) else pure t
      else pure t

/-- Behind the loop of `token_start` -/
def lastToken (limit t : ℕ) : Parser (Option ℕ) :=
  if t < limit then do
    let c ← peek t
    pure (if tokenCheck c then some t else none)
  else pure none

/-- The character behind a slash at `t` -/
def behindSlash (t : ℕ) (c : UInt8) : Parser UInt8 :=
  if c = '/'.toUInt8 then peek (t + 1) else pure 0

def tokenStartLoop (limit : ℕ) : ℕ → ℕ → Parser (Option ℕ)
  | 0, _ => stuck
  | fuel + 1, t =>
      if t + 1 < limit then do
        let c ← peek t
        let next ← behindSlash t c
        if c = '/'.toUInt8 ∧ next = '*'.toUInt8 then
          let t ← seekCommentEnd limit (limit - t + 1) (t + 2)
          -- an unclosed comment ends before the last character
          if t + 1 = limit then lastToken limit t else tokenStartLoop limit fuel (t + 2)
        else if c = '/'.toUInt8 ∧ next = '/'.toUInt8 then
          let t ← seekLineEnd limit (limit - t + 1) (t + 2)
          tokenStartLoop limit fuel (t + 1)
        else if tokenCheck c then pure (some t)
        else tokenStartLoop limit fuel (t + 1)
      else lastToken limit t

def tokenStart (limit t : ℕ) : Parser (Option ℕ) := tokenStartLoop limit (limit - t + 1) t

/-- Whether a comment begins at `s` -/
def opensComment (limit s : ℕ) (c : UInt8) : Parser Bool :=
  if c = '/'.toUInt8 then
    nextIs limit s fun next => next = '*'.toUInt8 || next = '/'.toUInt8
  else pure false

def tokenEndLoop (limit : ℕ) (addc : UInt8) : ℕ → ℕ → Parser ℕ
  | 0, _ => stuck
  | fuel + 1, s =>
      if s < limit then do
        let c ← peek s
        if c ≠ '\r'.toUInt8 ∧ c ≠ '\n'.toUInt8 ∧ c ≠ '{'.toUInt8 ∧ c ≠ addc then
          let comment ← opensComment limit s c
          if comment then pure s else tokenEndLoop limit addc fuel (s + 1)
        else pure s
      else pure s

/-- The loop of `token_end` back over blanks; the place is the one behind `t`. -/
def trimBlanks (start : ℕ) : ℕ → Parser ℕ
  | 0 => pure 0
  | t + 1 =>
      if start < t then do
        let c ← peek t
        if c = ' '.toUInt8 ∨ c = '\t'.toUInt8 then trimBlanks start t else pure (t + 1)
      else pure (t + 1)

/-- `token_end`: the end of the token, and the cursor. -/
def tokenEnd (limit : ℕ) (addc : UInt8) (start : ℕ) : Parser (ℕ × Option ℕ) := do
  let s ← tokenEndLoop limit addc (limit - start + 1) start
  let t ← trimBlanks start s
  let s ← tokenStart limit s
  pure (t, s)

/-! ### `read_sts` and `load` -/

/-- `SKIP_SEPARATORS(true)` -/
def skipSeparators (limit : ℕ) : ℕ → ℕ → Parser ℕ
  | 0, _ => stuck
  | fuel + 1, s =>
      if s < limit then do
        let c ← peek s
        if c ≠ ' '.toUInt8 ∧ c ≠ '\t'.toUInt8 then pure s else skipSeparators limit fuel (s + 1)
      else pure s

/-- The loop over a quoted value: the value, and the cursor. -/
def quotedLoop (limit : ℕ) : ℕ → ℕ → ℕ → List UInt8 → Parser (List UInt8 × ℕ)
  | 0, _, _, _ => stuck
  | fuel + 1, start, s, v =>
      if s < limit then do
        let c ← peek s
        if c = '`'.toUInt8 then
          let quoted ← nextIs limit s fun next => next = '`'.toUInt8
          if quoted then
            let piece ← slice start (s + 1)
            quotedLoop limit fuel (s + 2) (s + 2) (v ++ piece)
          else
            let piece ← slice start s
            pure (v ++ piece, s)
        else quotedLoop limit fuel start (s + 1) v
      else pure (v, s)

/-- What has been read of a value: the value, a comment behind it, and how to go on -/
structure ReadValue where
  value : List UInt8
  comment : Option (List UInt8) := none
  result : ReadResult

/-- A value in quotes, from behind the first one on. -/
def quotedValue (limit s : ℕ) : Parser ReadValue := do
  let (v, s) ← quotedLoop limit (limit - s + 1) s s []
  if limit ≤ s then pure { value := v, result := .stop (some s) }
  else
    let s ← skipSeparators limit (limit - s + 1) (s + 1)
    pure { value := v, result := .goOn s }

/-- A comment is kept if there is something in it. -/
def keptComment (comment : List UInt8) : Option (List UInt8) :=
  if comment = [] then none else some comment

/-- A value that is not in quotes. -/
def bareValue (limit start : ℕ) : Parser ReadValue := do
  let (t, s) ← tokenEnd limit '}'.toUInt8 start
  let value ← slice start t
  let comment ← slice t (s.getD limit)
  let comment := if 2 ≤ comment.length then keptComment (trim comment) else none
  match s with
  | none => pure { value, comment, result := .stop none }
  | some s => pure { value, comment, result := .goOn s }

/-- What is found behind the `=` at `p`: the first character that is no separator, or whatever
is at the end. -/
def valueStart (limit p : ℕ) : Parser (ℕ × UInt8) := do
  mark (.value p)
  let s ← skipSeparators limit (limit - p + 1) (p + 1)
  let c ← peek s
  pure (s, c)

def readValue (limit p : ℕ) : Parser ReadValue := do
  let (s, c) ← valueStart limit p
  if c = '`'.toUInt8 then quotedValue limit (s + 1) else bareValue limit s

/-- The block behind the `{` at `s` -/
def readBlock (load : Sts → Option ℕ → Parser (Sts × Option ℕ)) (self : Sts) (sts s : ℕ) :
    Parser (Sts × ReadResult) := do
  let (child, next) ← load (self.child sts) (some (s + 1))
  let self := self.modifyChild sts fun _ => child
  match next with
  | none => pure (self, .stop none)
  | some s => pure (self, .goOn s)

/-- The comment before a name -/
def commentBefore (self : Sts) (start s : ℕ) : Parser Sts :=
  if start + 2 ≤ s then do
    let comment ← slice start s
    pure ((keptComment (trimView comment)).elim self self.addComment)
  else pure self

/-- What follows a name, at `s`: `sts` is the element of that name. -/
def readElement (load : Sts → Option ℕ → Parser (Sts × Option ℕ)) (limit : ℕ) (self : Sts)
    (sts s : ℕ) : Parser (Sts × ReadResult) := do
  let c ← peek s
  if c = '='.toUInt8 then
    let v ← readValue limit s
    let self := self.modifyChild sts fun sts => sts.setValue v.value
    let self := v.comment.elim self self.addComment
    match v.result with
    | .stop s => pure (self, .stop s)
    | .goOn s =>
        if s < limit then
          let c ← peek s
          if c = '{'.toUInt8 then readBlock load self sts s else pure (self, .goOn s)
        else pure (self, .goOn s)
  else if c = '{'.toUInt8 then readBlock load self sts s
  -- `'=' or '{' expected`
  else pure (self, .goOn s)

def readSts (load : Sts → Option ℕ → Parser (Sts × Option ℕ)) (limit : ℕ) (self : Sts)
    (start : ℕ) : Parser (Sts × ReadResult) := do
  match ← tokenStart limit start with
  | none => pure (self, .stop none)
  | some s =>
      let self ← commentBefore self start s
      let c ← peek s
      if c = '}'.toUInt8 then pure (self, .stop (some (s + 1)))
      else
        let (t, next) ← tokenEnd limit '='.toUInt8 s
        let name ← slice s t
        let (self, sts) := self.addBlock name
        match next with
        | none => pure (self, .stop none)
        | some s => readElement load limit self sts s

/-- `load`: the tree, and the cursor. -/
def load (limit : ℕ) : ℕ → Sts → Option ℕ → Parser (Sts × Option ℕ)
  | 0, _, _ => stuck
  | _ + 1, self, none => pure (self, none)
  | fuel + 1, self, some s => do
      let (self, result) ← readSts (load limit fuel) limit self s
      mark (.call s result)
      match result with
      | .goOn s => load limit fuel self (some s)
      | .stop s => pure (self, s)

end Imconee.Config
