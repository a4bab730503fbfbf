import Imconee.Netkit.Preparse

/-!
# `conn::is_valid_addr`

The check of an address with a port, and where what it has accepted is read in the same way by
`endpoint::preparse`. The check takes the number behind the first colon for the port, of
whatever size, and knows no brackets.
-/

set_option autoImplicit false

namespace Imconee.Conn

open Str Netkit

/-- The loop over the tokens of what may be an IPv4 address, `cnt` of which have been seen. -/
def isIp4 (cnt : ℕ) : List (List UInt8) → Bool
  | [] => true
  | tkn :: tkns =>
      let (x, ec) := fromCharsSigned tkn (-1)
      if ec = .invalidArgument ∨ x < 0 ∨ 255 < x then false
      else if 4 < cnt + 1 then false
      else isIp4 (cnt + 1) tkns

/-- `rfind` of a character -/
def rfindChar (s : List UInt8) (c : UInt8) : Option ℕ :=
  (findChar s.reverse c).map fun place => s.length - 1 - place

/-- What `is_valid_addr` requires of the host. -/
def isValidHost (dm : List UInt8) : Bool :=
  if dm = [] ∨ dm.any (fun c => c ∈ ascii [' ', ':', '?']) then false
  else if dm.getD 0 0 = '.'.toUInt8 ∨ getLastChar dm = '.'.toUInt8 then false
  else
    match rfindChar dm '.'.toUInt8 with
    | some dmp =>
        if 0 < dmp ∧ isDigit (dm.getD (dmp + 1) 0) = true then isIp4 0 (tokens '.'.toUInt8 dm)
        else true
    | none => true

/-- The port that `is_valid_addr` finds, if it comes so far. -/
def foundPort (aRaw : List UInt8) : Option ℤ :=
  let a := withoutTcp aRaw
  if findText (ascii [':', '/', '/']) a ≠ none then none
  else
    match findChar a ':'.toUInt8 with
    | none => none
    | some dv =>
        if isValidHost (substr a 0 (some dv)) then
          some (fromCharsSigned (substr a (dv + 1) none) 0).1
        else none

def isValidAddr (aRaw : List UInt8) : Bool :=
  match foundPort aRaw with
  | some port => 0 < port
  | none => false

/-- The endpoint has a domain, and the port that has been found. -/
def Agrees (ep : Endpoint) (aRaw : List UInt8) : Prop :=
  ep.type = .tcpDomain ∧ ep.domain ≠ [] ∧
    foundPort aRaw = some (ep.port.toNat : ℤ) ∧ 1 ≤ ep.port.toNat ∧ ep.port.toNat ≤ 65535

/-- Where the two read the same: the port fits, and so it does behind brackets. -/
def Alike (aRaw : List UInt8) : Prop :=
  let a := withoutTcp aRaw
  ∃ dv n, findChar a ':'.toUInt8 = some dv ∧ leadingNumber (a.drop (dv + 1)) = some n ∧
    n ≤ 65535 ∧
    (a.getD 0 0 = '['.toUInt8 →
      (findText (ascii [']', ':']) a = none ∧ a.getD (a.length - 1) 0 = ']'.toUInt8) ∨
        ∃ bracket, findText (ascii [']', ':']) a = some bracket ∧ 2 ≤ bracket ∧
          leadingNumber (a.drop (bracket + 2)) = some n)

/-- A port that is positive is the number that digits at the front make up. -/
theorem leadingNumber_of_fromCharsSigned {s : List UInt8} {port : ℤ}
    (read : (fromCharsSigned s 0).1 = port) (positive : 0 < port) :
    ∃ n : ℕ, leadingNumber s = some n ∧ port = n := by
  subst read
  rw [fromCharsSigned] at positive ⊢
  by_cases minus : s.head? = some 45
  · -- a number behind a sign is not positive, and none at all leaves the port at zero
    simp only [minus, ↓reduceIte] at positive
    split at positive
    · split at positive
      · simp only at positive
        omega
      · exact absurd positive (lt_irrefl 0)
    · exact absurd positive (lt_irrefl 0)
  · simp only [minus, ↓reduceIte] at positive ⊢
    cases number : leadingNumber s with
    | none =>
        rw [number] at positive
        exact absurd positive (lt_irrefl 0)
    | some n =>
        refine ⟨n, rfl, ?_⟩
        rw [number] at positive
        dsimp only at positive ⊢
        split
        · rfl
        · rename_i outside
          rw [if_neg outside] at positive
          exact absurd positive (lt_irrefl 0)

/-- What has been accepted has a host and a positive number behind its first colon. -/
theorem of_isValidAddr {s : List UInt8} (valid : isValidAddr s = true) :
    findText (ascii [':', '/', '/']) (withoutTcp s) = none ∧
      ∃ (dv n : ℕ), findChar (withoutTcp s) ':'.toUInt8 = some dv ∧
        substr (withoutTcp s) 0 (some dv) ≠ [] ∧ 0 < n ∧
        leadingNumber ((withoutTcp s).drop (dv + 1)) = some n ∧ foundPort s = some (n : ℤ) := by
  rw [isValidAddr] at valid
  split at valid
  · rename_i port found
    have same := found
    rw [foundPort] at found
    split at found
    · cases found
    · rename_i single
      split at found
      · cases found
      · rename_i dv first
        split at found
        · rename_i host
          have positive : 0 < port := by simpa using valid
          rcases leadingNumber_of_fromCharsSigned (Option.some.inj found) positive with
            ⟨n, number, rfl⟩
          refine ⟨not_not.mp single, dv, n, first, fun nothing => ?_, by simpa using valid, number,
            same⟩
          rw [isValidHost, if_pos (Or.inl nothing)] at host
          cases host
        · cases found
  · cases valid

variable {s : List UInt8} {n : ℕ}

/-- An endpoint that has been set agrees if its host is not empty and its port is the one that
has been found. -/
theorem agrees_setHostPort (found : foundPort s = some (n : ℤ)) (positive : 0 < n)
    (getipDef : GetIp) (a : List UInt8) (dv : Option ℕ) (porti : ℕ) :
    Agrees ((Endpoint.new getipDef).setHostPort a dv porti) s ↔
      substr a 0 dv ≠ [] ∧ leadingNumber (a.drop porti) = some n ∧ n ≤ 65535 := by
  have portEq : ((Endpoint.new getipDef).setHostPort a dv porti).port =
      fromCharsU16 (a.drop porti) 0 := rfl
  rw [Agrees, portEq, found, Option.some.injEq, Nat.cast_inj]
  refine ⟨fun agrees => ?_, fun alike => ?_⟩
  · rcases agrees with ⟨-, domain, same, least, most⟩
    refine ⟨domain, ?_, same ▸ most⟩
    rw [fromCharsU16] at same
    split at same
    · rename_i m number
      split at same
      · rename_i fits
        rw [number, same, UInt16.toNat_ofNat_of_lt' fits]
      · exact absurd same (Nat.ne_of_gt positive)
    · exact absurd same (Nat.ne_of_gt positive)
  · rcases alike with ⟨domain, number, most⟩
    have port : (fromCharsU16 (a.drop porti) 0).toNat = n := by
      rw [fromCharsU16, number]
      dsimp only
      rw [if_pos (by omega)]
      exact UInt16.toNat_ofNat_of_lt' (show n < 65536 by omega)
    rw [port]
    exact ⟨rfl, domain, rfl, positive, most⟩

theorem alike_iff {dv : ℕ} (first : findChar (withoutTcp s) ':'.toUInt8 = some dv)
    (number : leadingNumber ((withoutTcp s).drop (dv + 1)) = some n) :
    Alike s ↔ n ≤ 65535 ∧ ((withoutTcp s).getD 0 0 = '['.toUInt8 →
      (findText (ascii [']', ':']) (withoutTcp s) = none ∧
          (withoutTcp s).getD ((withoutTcp s).length - 1) 0 = ']'.toUInt8) ∨
        ∃ bracket, findText (ascii [']', ':']) (withoutTcp s) = some bracket ∧ 2 ≤ bracket ∧
          leadingNumber ((withoutTcp s).drop (bracket + 2)) = some n) := by
  simp only [Alike, first, Option.some.injEq, ↓existsAndEq, true_and, number]

/-- What has been accepted is read alike exactly where it is written alike. -/
theorem agrees_iff (getipDef : GetIp) (s : List UInt8) (valid : isValidAddr s = true) :
    Agrees ((Endpoint.new getipDef).preparse s) s ↔ Alike s := by
  rcases of_isValidAddr valid with ⟨single, dv, n, first, host, positive, number, found⟩
  rw [alike_iff first number, Endpoint.preparse, single, if_neg (not_not.mpr rfl),
    Endpoint.preparseRest, first]
  dsimp only
  by_cases bracket : (withoutTcp s).getD 0 0 = '['.toUInt8
  · rw [if_pos bracket]
    split
    · rename_i nowhere
      by_cases last : (withoutTcp s).getD ((withoutTcp s).length - 1) 0 = ']'.toUInt8
      · rw [if_neg (not_not.mpr last), agrees_setHostPort found positive]
        have whole : substr (withoutTcp s) 0 none ≠ [] := fun nothing => by
          rw [substr, show (withoutTcp s).drop 0 = [] from nothing, List.take_nil] at host
          exact host rfl
        constructor
        · exact fun agrees => ⟨agrees.2.2, fun _ => Or.inl ⟨nowhere, last⟩⟩
        · exact fun alike => ⟨whole, number, alike.1⟩
      · rw [if_pos last]
        refine iff_of_false (fun agrees => ?_) fun alike => ?_
        · cases agrees.1
        · rcases alike.2 bracket with ⟨-, ends⟩ | ⟨place, somewhere, -⟩
          · exact last ends
          · rw [nowhere] at somewhere
            cases somewhere
    · rename_i place somewhere
      rw [agrees_setHostPort found positive]
      have room := findText_le somewhere
      rw [show (ascii [']', ':']).length = 2 from rfl] at room
      have domain :
          substr (substr (withoutTcp s) 1 none) 0 (some (place - 1)) ≠ [] ↔ 2 ≤ place := by
        rw [← List.length_pos_iff]
        simp only [substr, List.drop_zero, List.length_take, List.length_drop]
        omega
      rw [domain]
      constructor
      · rintro ⟨behind, same, most⟩
        refine ⟨most, fun _ => Or.inr ⟨place, somewhere, behind, ?_⟩⟩
        rw [substr, List.drop_drop] at same
        rwa [show place + 2 = 1 + (place - 1 + 2) by omega]
      · rintro ⟨most, reads⟩
        rcases reads bracket with ⟨nowhere, -⟩ | ⟨other, found, behind, same⟩
        · rw [nowhere] at somewhere
          cases somewhere
        · rw [somewhere, Option.some.injEq] at found
          subst found
          refine ⟨behind, ?_, most⟩
          rw [substr, List.drop_drop]
          rwa [show 1 + (place - 1 + 2) = place + 2 by omega]
  · rw [if_neg bracket, agrees_setHostPort found positive]
    constructor
    · exact fun agrees => ⟨agrees.2.2, fun begins => absurd begins bracket⟩
    · exact fun alike => ⟨host, number, alike.1⟩

def hostPort : List UInt8 := ascii ['h', ':', '8', '0']

theorem agrees_iff_hostPort :
    Agrees ((Endpoint.new .prior4).preparse hostPort) hostPort :=
  (agrees_iff .prior4 hostPort (by decide)).mpr ⟨1, 80, by decide⟩

def largePort : List UInt8 := ascii ['h', ':', '7', '0', '0', '0', '0']

/-- The number is accepted, and leaves the port of the endpoint at zero. -/
theorem not_agrees_largePort :
    isValidAddr largePort = true ∧
      ¬Agrees ((Endpoint.new .prior4).preparse largePort) largePort := by
  rw [Agrees]
  decide +kernel

end Imconee.Conn
