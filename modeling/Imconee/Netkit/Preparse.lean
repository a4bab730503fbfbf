import Imconee.Lib.Ip6Text
import Imconee.Netkit.Endpoint
import Imconee.Tools.Strings

/-!
# `endpoint::preparse`

A host, a host with a port, or an address in brackets, behind `tcp://` or not. The brackets are
taken off only where a port follows.
-/

set_option autoImplicit false

namespace Imconee.Netkit

open Lib Numeral Str

/-- The text behind `tcp://` -/
def withoutTcp (a : List UInt8) : List UInt8 :=
  if startsWith a (ascii ['t', 'c', 'p', ':', '/', '/']) then a.drop 6 else a

namespace Endpoint

/-- The end of `preparse`: the host is the text before `dv`, the port that from `porti` on. -/
def setHostPort (self : Endpoint) (a : List UInt8) (dv : Option ℕ) (porti : ℕ) : Endpoint :=
  { self with
    domain := substr a 0 dv
    ip := { self.ip with port := fromCharsU16 (substr a porti none) self.ip.port }
    type := .tcpDomain }

/-- `preparse` of what is left behind the scheme. -/
def preparseRest (self : Endpoint) (a : List UInt8) : Endpoint :=
  match findChar a ':'.toUInt8 with
  | none => self.setDomain a
  | some dv =>
      let porti := dv + 1
      if a.getD 0 0 = '['.toUInt8 then
        match findText (ascii [']', ':']) a with
        | none =>
            if a.getD (a.length - 1) 0 ≠ ']'.toUInt8 then self else self.setHostPort a none porti
        | some dv =>
            let a := substr a 1 none
            let dv := dv - 1
            let porti := dv + 2
            self.setHostPort a (some dv) porti
      else self.setHostPort a (some dv) porti

def preparse (self : Endpoint) (aRaw : List UInt8) : Endpoint :=
  let a := withoutTcp aRaw
  if findText (ascii [':', '/', '/']) a ≠ none then self else self.preparseRest a

/-- A new endpoint -/
def new (getipDef : GetIp) : Endpoint := { ip := .clear getipDef }

end Endpoint

/-- A host text. -/
structure HostText (h : List UInt8) : Prop where
  noColon : ':'.toUInt8 ∉ h
  noBracket : '['.toUInt8 ∉ h
  noSlash : '/'.toUInt8 ∉ h

/-- What may stand in brackets; the texts of IPv6 addresses are among these. -/
structure BracketText (v : List UInt8) : Prop where
  noBracket : ']'.toUInt8 ∉ v
  noSlash : '/'.toUInt8 ∉ v

/-- The forms of a text. -/
inductive AddrForm where
  | host (h : List UInt8)
  | hostPort (h : List UInt8) (p : ℕ)
  | bracketPort (v : List UInt8) (p : ℕ)
  | bracket (v : List UInt8)

namespace AddrForm

def text : AddrForm → List UInt8
  | host h => h
  | hostPort h p => h ++ ascii [':'] ++ Str.toString p
  | bracketPort v p => ascii ['['] ++ v ++ ascii [']', ':'] ++ Str.toString p
  | bracket v => ascii ['['] ++ v ++ ascii [']']

def domain : AddrForm → List UInt8
  | host h | hostPort h _ => h
  | bracketPort v _ | bracket v => v

def port : AddrForm → ℕ
  | host _ | bracket _ => 0
  | hostPort _ p | bracketPort _ p => p

def Proper : AddrForm → Prop
  | host h => HostText h
  | hostPort h p => HostText h ∧ 0 < p ∧ p < 65536
  | bracketPort v p => BracketText v ∧ 0 < p ∧ p < 65536
  | bracket v => BracketText v

/-- An address in brackets, and no port. -/
def Bare : AddrForm → Prop
  | bracket _ => True
  | _ => False

end AddrForm

def scheme (tcp : Bool) : List UInt8 :=
  if tcp then ascii ['t', 'c', 'p', ':', '/', '/'] else []

theorem withoutTcp_scheme (tcp : Bool) {text : List UInt8} (noSlash : '/'.toUInt8 ∉ text) :
    withoutTcp (scheme tcp ++ text) = text := by
  cases tcp with
  | true =>
      have starts :
          startsWith (scheme true ++ text) (ascii ['t', 'c', 'p', ':', '/', '/']) = true := by
        simp [startsWith, scheme, ascii]
      rw [withoutTcp, starts]
      rfl
  | false =>
      have starts : startsWith text (ascii ['t', 'c', 'p', ':', '/', '/']) = false := by
        rw [startsWith]
        split
        · rfl
        · refine beq_eq_false_iff_ne.mpr fun same => ?_
          have mem : '/'.toUInt8 ∈ text.take 6 := by
            rw [show text.take 6 = _ from same]
            decide
          exact noSlash (List.mem_of_mem_take mem)
      rw [scheme, if_neg Bool.false_ne_true, List.nil_append, withoutTcp, starts]
      rfl

namespace AddrForm

theorem noSlash_text {form : AddrForm} (proper : form.Proper) : '/'.toUInt8 ∉ form.text := by
  have number (p : ℕ) : '/'.toUInt8 ∉ Str.toString p := notMem_print rfl
  cases form with
  | host h => exact proper.noSlash
  | hostPort h p =>
      simp only [text, List.mem_append, number, proper.1.noSlash, or_false, false_or]
      decide
  | bracketPort v p =>
      simp only [text, List.mem_append, number, proper.1.noSlash, or_false]
      decide
  | bracket v =>
      simp only [text, List.mem_append, proper.noSlash, or_false]
      decide

theorem withoutTcp_text {form : AddrForm} (proper : form.Proper) (tcp : Bool) :
    withoutTcp (scheme tcp ++ form.text) = form.text ∧
      findText (ascii [':', '/', '/']) form.text = none :=
  ⟨withoutTcp_scheme tcp (noSlash_text proper),
    findText_eq_none (show '/'.toUInt8 ∈ _ by decide) (noSlash_text proper)⟩

end AddrForm

namespace Endpoint

/-- The endpoint has the domain and the port. -/
def Names (self : Endpoint) (domain : List UInt8) (port : ℕ) : Prop :=
  self.type = .tcpDomain ∧ self.domain = domain ∧ self.port.toNat = port

variable {self : Endpoint}

theorem preparse_text (self : Endpoint) {form : AddrForm} (proper : form.Proper) (tcp : Bool) :
    self.preparse (scheme tcp ++ form.text) = self.preparseRest form.text := by
  rcases AddrForm.withoutTcp_text proper tcp with ⟨rest, single⟩
  rw [preparse, rest, single]
  rfl

theorem fromCharsU16_toString {p : ℕ} (small : p < 65536) (before : UInt16) :
    (fromCharsU16 (Str.toString p) before).toNat = p := by
  have number := @leadingNumber_print p [] rfl
  rw [List.append_nil] at number
  rw [fromCharsU16, Str.toString, number]
  dsimp only
  rw [if_pos small]
  exact UInt16.toNat_ofNat_of_lt' small

theorem preparseRest_host {h : List UInt8} (proper : HostText h) (fresh : self.port = 0) :
    (self.preparseRest h).Names h 0 := by
  rw [preparseRest, findChar_eq_none proper.noColon]
  exact ⟨rfl, rfl, congrArg UInt16.toNat fresh⟩

theorem preparseRest_hostPort {h : List UInt8} (proper : HostText h) {p : ℕ} (small : p < 65536) :
    (self.preparseRest (AddrForm.hostPort h p).text).Names h p := by
  have form : (AddrForm.hostPort h p).text = h ++ ':'.toUInt8 :: Str.toString p := by
    simp [AddrForm.text, ascii]
  have noBracket : (h ++ ':'.toUInt8 :: Str.toString p).getD 0 0 ≠ '['.toUInt8 := by
    cases h with
    | nil => exact show ':'.toUInt8 ≠ '['.toUInt8 by decide
    | cons c h =>
        have absent := proper.noBracket
        rw [List.mem_cons, not_or] at absent
        exact Ne.symm absent.1
  rw [form, preparseRest, findChar_append proper.noColon]
  dsimp only
  rw [if_neg noBracket]
  refine ⟨rfl, ?_, ?_⟩
  · simp [setHostPort, substr]
  · simp [setHostPort, substr, port, fromCharsU16_toString small]

theorem preparseRest_bracketPort {v : List UInt8} (proper : BracketText v) {p : ℕ}
    (small : p < 65536) :
    (self.preparseRest (AddrForm.bracketPort v p).text).Names v p := by
  have form : (AddrForm.bracketPort v p).text =
      ('['.toUInt8 :: v) ++ ']'.toUInt8 :: ':'.toUInt8 :: Str.toString p := by
    simp [AddrForm.text, ascii]
  have absent : ']'.toUInt8 ∉ '['.toUInt8 :: v := by
    rw [List.mem_cons, not_or]
    exact ⟨by decide, proper.noBracket⟩
  have found :
      findText (ascii [']', ':']) (AddrForm.bracketPort v p).text = some (v.length + 1) := by
    rw [form]
    exact (findText_append absent _ _).trans (by simp [findText])
  have mem : ':'.toUInt8 ∈ (AddrForm.bracketPort v p).text := by
    rw [form]
    simp
  rcases exists_findChar mem with ⟨dv, first⟩
  rw [preparseRest, first]
  dsimp only
  rw [if_pos (show (AddrForm.bracketPort v p).text.getD 0 0 = '['.toUInt8 by rw [form]; rfl), found]
  refine ⟨rfl, ?_, ?_⟩
  · simp [setHostPort, substr, form]
  · simp [setHostPort, substr, port, form, fromCharsU16_toString small]

theorem preparseRest_bracket {v : List UInt8} (proper : BracketText v) :
    (self.preparseRest (AddrForm.bracket v).text).domain = (AddrForm.bracket v).text := by
  have form : (AddrForm.bracket v).text = ('['.toUInt8 :: v) ++ [']'.toUInt8] := by
    simp [AddrForm.text, ascii]
  have absent : ']'.toUInt8 ∉ '['.toUInt8 :: v := by
    rw [List.mem_cons, not_or]
    exact ⟨by decide, proper.noBracket⟩
  have nowhere : findText (ascii [']', ':']) (AddrForm.bracket v).text = none := by
    rw [form]
    exact (findText_append absent _ _).trans (by simp [findText])
  rw [preparseRest]
  split
  · rfl
  · dsimp only
    rw [if_pos (show (AddrForm.bracket v).text.getD 0 0 = '['.toUInt8 by rw [form]; rfl), nowhere]
    dsimp only
    rw [if_neg (by rw [form]; simp)]
    rfl

/-- Every form but that in brackets without a port is read as its host and its port, and no
text with another scheme is. -/
theorem preparse_iff (getipDef : GetIp) :
    (∀ form : AddrForm, form.Proper → ∀ tcp : Bool,
      (((new getipDef).preparse (scheme tcp ++ form.text)).Names form.domain form.port ↔
        ¬form.Bare)) ∧
    ∀ a : List UInt8, ascii [':', '/', '/'] <:+: withoutTcp a →
      (new getipDef).preparse a = new getipDef ∧ (new getipDef).type = .error := by
  constructor
  · intro form proper tcp
    rw [preparse_text _ proper tcp]
    cases form with
    | host h => exact iff_of_true (preparseRest_host proper rfl) id
    | hostPort h p => exact iff_of_true (preparseRest_hostPort proper.1 proper.2.2) id
    | bracketPort v p => exact iff_of_true (preparseRest_bracketPort proper.1 proper.2.2) id
    | bracket v =>
        refine iff_of_false (fun names => ?_) (not_not_intro trivial)
        have same := congrArg List.length (names.2.1.symm.trans (preparseRest_bracket proper))
        simp only [AddrForm.domain, AddrForm.text, ascii, List.length_append, List.length_map,
          List.length_singleton] at same
        omega
  · intro a more
    rw [preparse, if_pos (by rw [Option.ne_none_iff_isSome]; exact findText_isSome_iff.mpr more)]
    exact ⟨rfl, rfl⟩

/-- `[::1]` -/
theorem not_names_bracket :
    ¬((new .prior4).preparse (AddrForm.bracket (ascii [':', ':', '1'])).text).Names
      (ascii [':', ':', '1']) 0 := by
  rw [Names]
  decide +kernel

/-- `tcp://[::1]:999` -/
theorem preparse_iff_bracketPort :
    ((new .prior4).preparse
      (scheme true ++ (AddrForm.bracketPort (ascii [':', ':', '1']) 999).text)).Names
        (ascii [':', ':', '1']) 999 ∧
      (new .prior4).preparse (ascii ['u', 'd', 'p', ':', '/', '/', 'h']) = new .prior4 := by
  constructor
  · exact ((preparse_iff .prior4).1 (.bracketPort (ascii [':', ':', '1']) 999)
      ⟨⟨by decide, by decide⟩, by decide, by decide⟩ true).mpr id
  · exact ((preparse_iff .prior4).2 _ ⟨ascii ['u', 'd', 'p'], ascii ['h'], rfl⟩).1

end Endpoint

end Imconee.Netkit
