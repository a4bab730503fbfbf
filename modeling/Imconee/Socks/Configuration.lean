import Imconee.Socks.Gate

/-!
# Configured credentials

What the constructor of `handler_socks` makes of its settings. It splits the credentials at
the first colon; those that are too long, or have no name, are dropped, and then anybody is
admitted.
-/

set_option autoImplicit false

namespace Imconee.Socks

open Lib Netkit Dialogue

/-- What the constructor looks up in its `asts`. `anon` is the number that is kept there. -/
structure Settings where
  userid : Option (List UInt8) := none
  auth : Option (List UInt8) := none
  anon : Option ℤ := none

/-- `get_string` -/
def getString (value : Option (List UInt8)) : List UInt8 := value.getD []

/-- `get_bool` -/
def getBool (value : Option ℤ) : Bool := value.getD 0 ≠ 0

/-- What stands before the first colon. -/
def nameOf (auth : List UInt8) : List UInt8 := auth.takeWhile (· ≠ 58)

/-- What stands behind it. -/
def passwordOf (auth : List UInt8) : List UInt8 := (auth.dropWhile (· ≠ 58)).drop 1

/-- The constructor. `st` is what the type has behind `socks`. -/
def handlerSocks (bb : Settings) (st : List UInt8) : HandlerSocks :=
  let login := nameOf (getString bb.auth)
  let pass := passwordOf (getString bb.auth)
  let dropped : Prop := 254 < login.length ∨ 254 < pass.length
  let login := if dropped then [] else login
  let pass := if dropped then [] else pass
  { userid := getString bb.userid
    login
    pass
    socks5AllowAnon := login = [] ∨ getBool bb.anon
    allow5 := st ≠ [52] -- '4'
    allow4 := st ≠ [53] } -- '5'

namespace HandlerSocks

/-- A client that has presented a user and a password. -/
inductive Presented : List UInt8 → Prop where
  | intro {count userlen passlen : UInt8} {methods user pass request : List UInt8}
      (counted : methods.length = count.toNat) (userLength : user.length = userlen.toNat)
      (passLength : pass.length = passlen.toNat) :
      Presented (5 :: count :: (methods ++ 1 :: userlen :: (user ++ passlen :: pass) ++ request))

/-- In no run is the anonymous method agreed upon, or `connect` reached over SOCKS 5 without a
user and a password. -/
def Guarded (self : HandlerSocks) : Prop :=
  ∀ host heard told last, Talks (self.handshake host) heard told last →
    [5, 0] ∉ told ∧ ∀ call, last = value call → heard.head? = some 5 → Presented heard

variable {self : HandlerSocks} {host : Host}

/-! ### What is sent -/

/-- No answer but the one that agrees to the anonymous method. -/
def Reserved (message : List UInt8) : Prop := message ≠ [5, 0]

theorem only_readUid (fuel : ℕ) (uid : List UInt8) : (readUid fuel uid).Only Reserved := by
  induction fuel generalizing uid with
  | zero => trivial
  | succ fuel ih =>
      apply (only_read 1).bind
      intro packet
      dsimp only
      split
      · trivial
      · exact ih _

theorem only_handshake4 : (self.handshake4 host).Only Reserved := by
  rw [handshake4]
  split
  · apply (only_read 7).bind
    intro packet
    split
    · apply (only_readUid 257 []).bind
      intro uid
      split
      · trivial
      · exact (only_tell (by simp [Reserved])).bind fun _ => trivial
    · trivial
  · trivial

theorem selectMethod_ne_zero (closed : self.socks5AllowAnon = false) (methods : List UInt8) :
    self.selectMethod methods 0xff ≠ 0 := by
  intro anonymous
  rcases selectMethod_cases methods (by rw [anonymous]; decide) with ⟨-, allowed, -⟩ | ⟨two, -⟩
  · rw [closed] at allowed
    cases allowed
  · rw [anonymous] at two
    cases two

theorem only_negotiate (closed : self.socks5AllowAnon = false) :
    self.negotiate.Only Reserved := by
  apply (only_read 1).bind
  intro count
  apply (only_read _).bind
  intro methods
  dsimp only
  apply (only_tell ?_).bind
  · intro taken
    split <;> trivial
  · intro same
    exact selectMethod_ne_zero closed methods (List.cons.inj (List.cons.inj same).2).1

theorem only_authenticate : self.authenticate.Only Reserved := by
  apply (only_read 2).bind
  intro packet
  split
  · apply (only_read _).bind
    intro name
    dsimp only
    apply (only_read _).bind
    intro word
    split
    · exact (only_tell (by simp [Reserved])).bind fun _ => trivial
    · exact (only_tell (by simp [Reserved])).bind fun _ => trivial
  · trivial

theorem only_failAnswer {α : Type} (code : UInt8) : (failAnswer code : Dialogue α).Only Reserved :=
  (only_tell (by simp [Reserved])).bind fun _ => trivial

theorem only_readAddress (packet : List UInt8) : (readAddress host packet).Only Reserved := by
  rw [readAddress]
  split
  · exact (only_read _).bind fun _ => trivial
  · exact (only_read _).bind fun _ => trivial
  · exact (only_read _).bind fun _ => trivial
  · trivial

theorem only_request5 : (request5 host).Only Reserved := by
  apply (only_tryRead 5).bind
  intro received
  split
  · exact only_failAnswer 1
  · split
    · split
      · apply (only_readAddress _).bind
        intro ep
        exact (only_read 2).bind fun _ => trivial
      · exact only_failAnswer 7
    · exact only_failAnswer 1

theorem only_handshake (closed : self.socks5AllowAnon = false ∨ self.allow5 = false) :
    (self.handshake host).Only Reserved := by
  apply (only_read 1).bind
  intro packet
  split
  · exact only_handshake4
  · split
    · rw [handshake5]
      split
      · rename_i allowed
        apply (only_negotiate (closed.resolve_right (by simp [allowed]))).bind
        intro rauth
        dsimp only
        split
        · exact only_authenticate.bind fun _ => only_request5
        · exact only_request5
      · trivial
    · trivial

/-! ### Who reaches `connect` -/

theorem presented_of_admitted (closed : self.socks5AllowAnon = false ∨ self.allow5 = false)
    {bytes : List UInt8} (admitted : self.Admitted (5 :: bytes)) : Presented (5 :: bytes) := by
  generalize start : 5 :: bytes = stream at admitted ⊢
  cases admitted with
  | socks4 allowed twoBytes fourBytes name => cases (List.cons.inj start).1
  | @socks5 count methods auth request allowed counted authenticated =>
      rcases closed with anonymous | refused
      · cases authenticated with
        | anonymous free offered =>
            rw [anonymous] at free
            cases free
        | password needed offered login pass => exact .intro counted login pass
      · rw [refused] at allowed
        cases allowed

theorem presented_of_reads (closed : self.socks5AllowAnon = false ∨ self.allow5 = false)
    {heard : List UInt8} {call : Call} (reads : Reads (self.handshake host) heard call)
    (five : heard.head? = some 5) : Presented heard := by
  rcases reads_bind reads with ⟨first, second, packet, rfl, byte, rest⟩
  rw [reads_byte byte] at five ⊢
  have version : packet.getD 0 0 = 5 := Option.some.inj five
  rw [version] at rest ⊢
  exact presented_of_admitted closed (reads_handshake5 rest)

theorem guarded_of_closed (closed : self.socks5AllowAnon = false ∨ self.allow5 = false) :
    self.Guarded := by
  intro host heard told last talks
  constructor
  · intro agreed
    exact (only_handshake closed).told talks [5, 0] agreed rfl
  · rintro call rfl five
    exact presented_of_reads closed talks.reads five

/-- A client that offers nothing but the anonymous method is answered. -/
theorem not_guarded_of_free (free : self.socks5AllowAnon = true) (allow5 : self.allow5 = true) :
    ¬self.Guarded := by
  intro guarded
  have greets : ∃ last, Talks (self.handshake {}) ([5] ++ ([1] ++ ([0] ++ []))) [[5, 0]] last := by
    have agrees : Talks self.negotiate ([1] ++ ([0] ++ [])) [[5, 0]] (value 0) := by
      refine .afterRead rfl (.afterRead rfl ?_)
      rw [show self.selectMethod [0] 0xff = 0 by simp [selectMethod, free]]
      exact .afterTell (.here _)
    have five : ∃ last, Talks (self.handshake5 {}) ([1] ++ ([0] ++ [])) [[5, 0]] last := by
      rw [handshake5, if_pos allow5]
      exact ⟨_, agrees.bind _⟩
    rcases five with ⟨last, talks⟩
    exact ⟨last, .afterRead rfl talks⟩
  rcases greets with ⟨last, talks⟩
  exact (guarded {} _ _ last talks).1 (List.mem_singleton_self _)

end HandlerSocks

theorem handlerSocks_allow5 (bb : Settings) (st : List UInt8) :
    (handlerSocks bb st).allow5 = false ↔ st = [52] := by
  simp [handlerSocks]

/-- Where it is not asked for, everybody is admitted if the credentials have been dropped. -/
theorem handlerSocks_closed {bb : Settings} {auth : List UInt8} (given : bb.auth = some auth)
    (anon : bb.anon = none ∨ bb.anon = some 0) (st : List UInt8) :
    (handlerSocks bb st).socks5AllowAnon = false ↔
      nameOf auth ≠ [] ∧ (nameOf auth).length ≤ 254 ∧ (passwordOf auth).length ≤ 254 := by
  have asked : getBool bb.anon = false := by
    rcases anon with none | zero
    · rw [none]
      rfl
    · rw [zero]
      rfl
  simp only [handlerSocks, asked, given, getString, Option.getD_some, Bool.false_eq_true, or_false,
    decide_eq_false_iff_not]
  by_cases long : 254 < (nameOf auth).length ∨ 254 < (passwordOf auth).length
  · rw [if_pos long]
    constructor
    · exact fun absent => absurd rfl absent
    · rintro ⟨-, name, password⟩
      omega
  · rw [if_neg long]
    rw [not_or, Nat.not_lt, Nat.not_lt] at long
    exact ⟨fun named => ⟨named, long⟩, fun kept => kept.1⟩

/-- A handler with credentials is guarded by them if it does not speak SOCKS 5, or if they have
a name and neither the name nor the password is too long. -/
theorem guarded_iff {bb : Settings} {auth : List UInt8} (given : bb.auth = some auth)
    (anon : bb.anon = none ∨ bb.anon = some 0) (st : List UInt8) :
    (handlerSocks bb st).Guarded ↔ st = [52] ∨ nameOf auth ≠ [] ∧
      (nameOf auth).length ≤ 254 ∧ (passwordOf auth).length ≤ 254 := by
  rw [← handlerSocks_allow5 bb st, ← handlerSocks_closed given anon st]
  constructor
  · intro guarded
    by_contra dropped
    rw [not_or, Bool.not_eq_false, Bool.not_eq_false] at dropped
    exact HandlerSocks.not_guarded_of_free dropped.2 dropped.1 guarded
  · intro kept
    exact HandlerSocks.guarded_of_closed kept.symm

/-- The credentials admin:secret. -/
def keptSettings : Settings where
  auth := some [97, 100, 109, 105, 110, 58, 115, 101, 99, 114, 101, 116]

theorem guarded_iff_kept : (handlerSocks keptSettings []).Guarded := by
  apply (@guarded_iff keptSettings _ rfl (Or.inl rfl) []).mpr
  exact Or.inr (by decide)

/-- The name a, and a password of 255 bytes. -/
def longSettings : Settings where
  auth := some (97 :: 58 :: List.replicate 255 98)

theorem not_guarded_long : ¬(handlerSocks longSettings []).Guarded := by
  have long : 254 < (passwordOf (97 :: 58 :: List.replicate 255 98)).length := by
    rw [show passwordOf (97 :: 58 :: List.replicate 255 98) = List.replicate 255 98 from rfl,
      List.length_replicate]
    decide
  apply HandlerSocks.not_guarded_of_free
  · rw [← Bool.not_eq_false, handlerSocks_closed rfl (Or.inl rfl)]
    exact fun kept => Nat.not_lt.mpr kept.2.2 long
  · rfl

end Imconee.Socks
