import Imconee.Netkit.Arrival
import Imconee.Socks.Agreement
import Imconee.Socks.Encoding

/-!
# Replies of any proxy

The client reads a reply of RFC 1928, in whatever pieces it arrives. All of its reads wait for
all of their bytes but the one for the name and the port of a bound address: that one takes
what is at hand.
-/

set_option autoImplicit false

namespace Imconee.Socks

open Lib Netkit Dialogue

/-- What the proxy sends before its reply. -/
def preface (auth : List UInt8) : List UInt8 :=
  [5, method auth] ++ if authpacket auth = [] then [] else [1, 0]

/-- The read for the name and the port, which does not wait. -/
def readName (count : ℕ) : Dialogue Unit :=
  Dialogue.receive ((count + 2 : ℕ) : ℤ) .value >>= fun rest =>
    if rest.map List.length = some (count + 2) then value () else quit

section

variable {host : Host} {auth : List UInt8} {addr : Endpoint}

theorem advances_preface (known : addr.type ≠ .error) (port : addr.port ≠ 0) :
    ∃ output, Advances (prepare5 host auth addr) (preface auth) output readAnswer := by
  have greets : Advances (prepare5 host auth addr) [] ([5, 1, method auth] ++ [])
      (readMethod host auth addr) := by
    rw [prepare5, if_neg (not_or.mpr ⟨known, port⟩)]
    exact .afterTell (.here _)
  have agrees := greets.trans (@advances_readMethod host auth addr _ rfl)
  by_cases anonymous : authpacket auth = []
  · rw [if_pos anonymous, if_pos anonymous] at agrees
    rw [preface, if_pos anonymous]
    exact ⟨_, agrees⟩
  · rw [if_neg anonymous, if_neg anonymous] at agrees
    rw [preface, if_neg anonymous]
    exact ⟨_, agrees.trans advances_readPassed⟩

theorem length_preface (auth : List UInt8) : (preface auth).length ≤ 4 := by
  rw [preface]
  split <;> simp

/-! ### The reply -/

/-- How many bytes of the name and the port are asked for at once. -/
def Address.nameSize : Address → Option ℕ
  | domain name _ => some name.length
  | _ => none

theorem advances_reply (address : Address) (port : UInt16) :
    match address.nameSize with
    | none => Advances readAnswer (message 0 address port) [] (value ())
    | some count => ∃ front rest, message 0 address port = front ++ rest ∧
        rest.length = count + 2 ∧ Advances readAnswer front [] (readName count) := by
  cases address with
  | ip4 octets size =>
      have long : (octets ++ push16 port).length = 6 := by
        rw [List.length_append, size]
        rfl
      have reads := advances_readAnswer long
      rw [List.append_nil] at reads
      exact reads
  | ip6 octets size =>
      have long : (octets ++ push16 port).length = 18 := by
        rw [List.length_append, size]
        rfl
      have reads : Advances readAnswer ([5, 0] ++ ([0, 4] ++ ((octets ++ push16 port) ++ []))) []
          (value ()) := by
        refine .afterTryRead rfl ?_
        dsimp only [Option.getD_some]
        rw [if_pos ⟨rfl, rfl⟩]
        exact .afterTryRead rfl (.afterRead long (.here _))
      rw [List.append_nil] at reads
      exact reads
  | domain name short =>
      have length : (UInt8.ofNat name.length).toNat = name.length := by
        rw [UInt8.toNat_ofNat']
        omega
      refine ⟨[5, 0] ++ ([0, 3] ++ ([UInt8.ofNat name.length] ++ [])), name ++ push16 port,
        rfl, ?_, ?_⟩
      · rw [List.length_append]
        rfl
      · refine .afterTryRead rfl ?_
        dsimp only [Option.getD_some]
        rw [if_pos ⟨rfl, rfl⟩,
          show readName name.length = readName (UInt8.ofNat name.length).toNat by rw [length]]
        exact .afterTryRead rfl (.afterRead rfl (.here _))

end

/-! ### The name and the port -/

section

variable {fuel count : ℕ} {pipe : TcpPipe Arriving}

theorem hasty_readName (impl : PipeImpl (TcpPipe Arriving)) (pipe : TcpPipe Arriving) :
    hasty impl (readName count) pipe = some (count + 2, pipe) := by
  change hasty impl (.receive ((count + 2 : ℕ) : ℤ) _) pipe = _
  rw [hasty, if_pos (by omega), Int.toNat_natCast]

/-- They are taken for the reply if all of them are at hand. -/
theorem conclude_readName (usable : TcpPipe.Usable fuel pipe) (short : count + 2 ≤ 47851) :
    ∃ result last, conclude (tcpPipe arriving fuel) (readName count) pipe = some (result, last) ∧
      (result = some () ↔
        count + 2 ≤ (pipe.stream Arriving.incoming).length ∧
          count + 2 ≤ pipe.atHand arriving (count + 2)) ∧
      (result = some () →
        last.stream Arriving.incoming = (pipe.stream Arriving.incoming).drop (count + 2)) := by
  change ∃ result last, conclude (tcpPipe arriving fuel) (.receive ((count + 2 : ℕ) : ℤ) _) pipe =
    some (result, last) ∧ _
  rw [conclude]
  rcases usable.recv_now short with ⟨out, next, answer, long, same⟩ | ⟨ended, next, answer⟩
  · rw [show (tcpPipe arriving fuel).recv pipe ((count + 2 : ℕ) : ℤ) = (.data out, next)
      from answer]
    have whole := congrArg List.length same
    rw [List.length_append] at whole
    change ∃ result last, conclude (tcpPipe arriving fuel)
      (if some out.length = some (count + 2) then value () else quit) next =
        some (result, last) ∧ _
    by_cases all : out.length = count + 2
    · rw [if_pos (congrArg some all)]
      refine ⟨some (), next, rfl, ⟨fun _ => by omega, fun _ => rfl⟩, fun _ => ?_⟩
      rw [same, ← all, List.drop_left]
    · rw [if_neg fun same => all (Option.some.inj same)]
      refine ⟨none, next, rfl, ⟨?_, ?_⟩, ?_⟩
      · intro taken
        cases taken
      · rintro ⟨-, there⟩
        omega
      · intro taken
        cases taken
  · rw [show (tcpPipe arriving fuel).recv pipe ((count + 2 : ℕ) : ℤ) = (.failed, next)
      from answer]
    refine ⟨none, next, rfl, ⟨?_, ?_⟩, ?_⟩
    · intro taken
      cases taken
    · rintro ⟨there, -⟩
      omega
    · intro taken
      cases taken

end

/-! ### Whole replies, and replies that are cut short -/

section

variable {host : Host} {auth : List UInt8} {addr : Endpoint} {address : Address} {port : UInt16}
  {tail : List UInt8} {socket : Arriving} {fuel : ℕ}

/-- The client returns the pipe, and has left the bytes behind the reply in the stream. -/
def Returned (impl : PipeImpl (TcpPipe Arriving)) (host : Host) (auth : List UInt8)
    (addr : Endpoint) (pipe : TcpPipe Arriving) (tail : List UInt8) : Prop :=
  ∃ last, conclude impl (prepare5 host auth addr) pipe = some (some (), last) ∧
    last.stream Arriving.incoming = tail

/-- The client returns no pipe. -/
def Rejected (impl : PipeImpl (TcpPipe Arriving)) (host : Host) (auth : List UInt8)
    (addr : Endpoint) (pipe : TcpPipe Arriving) : Prop :=
  ∃ last, conclude impl (prepare5 host auth addr) pipe = some (none, last)

/-- A call of `recv` that does not wait finds all that it asks for at hand. -/
def Prompt (fuel : ℕ) (host : Host) (auth : List UInt8) (addr : Endpoint)
    (pipe : TcpPipe Arriving) : Prop :=
  ∀ size asked, hasty (tcpPipe arriving fuel) (prepare5 host auth addr) pipe =
    some (size, asked) → size ≤ asked.atHand arriving size

theorem returned_iff (known : addr.type ≠ .error) (given : addr.port ≠ 0)
    (enough : socket.coming.length + 2 ≤ fuel)
    (stream : socket.incoming = preface auth ++ message 0 address port ++ tail) :
    Returned (tcpPipe arriving fuel) host auth addr { socket } tail ↔
      Prompt fuel host auth addr { socket } := by
  rcases @advances_preface host auth addr known given with ⟨output, greets⟩
  have short := length_preface auth
  have long := length_message 0 address port
  have replies := advances_reply address port
  split at replies
  · rcases (answering_arriving fuel).advances (greets.trans replies) (TcpPipe.usable_new enough)
      stream (by rw [List.length_append]; omega) with ⟨last, -, left, ends, asks⟩
    constructor
    · intro _ size asked first
      rw [asks] at first
      cases first
    · exact fun _ => ⟨last, ends, left⟩
  · rename_i count named
    rcases replies with ⟨front, rest, whole, size, reads⟩
    have parts := congrArg List.length whole
    rw [List.length_append] at parts
    rw [whole, ← List.append_assoc, List.append_assoc] at stream
    rcases (answering_arriving fuel).advances (greets.trans reads) (TcpPipe.usable_new enough)
      stream (by rw [List.length_append]; omega) with ⟨asked, usable, left, ends, asks⟩
    rcases conclude_readName usable (show count + 2 ≤ 47851 by omega) with
      ⟨result, last, concludes, taken, dropped⟩
    have there : count + 2 ≤ (asked.stream Arriving.incoming).length := by
      rw [left, List.length_append]
      omega
    rw [hasty_readName] at asks
    constructor
    · rintro ⟨last', returned, -⟩ size asked' first
      rw [asks] at first
      cases first
      rw [ends, concludes] at returned
      cases returned
      exact (taken.mp rfl).2
    · intro prompt
      have done := taken.mpr ⟨there, prompt _ _ asks⟩
      refine ⟨last, ?_, ?_⟩
      · rw [ends, concludes, done]
      · rw [dropped done, left, ← size, List.drop_left]

/-- The rest of the answer, behind a code that says that it has been granted. -/
def readBound (received : Option (List UInt8)) : Dialogue Unit :=
  match (received.getD [5, 0]).getD 1 0 with
  | 1 => Dialogue.read 6 >>= fun _ => value ()
  | 3 => Dialogue.read 1 >>= fun length => readName (length.getD 0 0).toNat
  | 4 => Dialogue.read 18 >>= fun _ => value ()
  | _ => quit

theorem advances_granted : Advances readAnswer ([5, 0] ++ []) [] (tryRead 2 >>= readBound) := by
  refine .afterTryRead rfl ?_
  dsimp only [Option.getD_some]
  rw [if_pos ⟨rfl, rfl⟩]
  exact .here _

theorem rejects_start {pipe : TcpPipe Arriving} (usable : TcpPipe.Usable fuel pipe)
    (stream : (pipe.stream Arriving.incoming) = [] ∨ pipe.stream Arriving.incoming = [5] ∨
      pipe.stream Arriving.incoming = [5, 0] ∨ pipe.stream Arriving.incoming = [5, 0, 0]) :
    ∃ last, conclude (tcpPipe arriving fuel) readAnswer pipe = some (none, last) := by
  have early : (pipe.stream Arriving.incoming).length < 2 →
      ∃ last, conclude (tcpPipe arriving fuel) readAnswer pipe = some (none, last) := by
    intro ended
    rcases (answering_arriving fuel).starves usable (by decide) ended _ with ⟨next, ends⟩
    exact ⟨next, ends⟩
  have late : ∀ rest, rest.length < 2 → pipe.stream Arriving.incoming = ([5, 0] ++ []) ++ rest →
      ∃ last, conclude (tcpPipe arriving fuel) readAnswer pipe = some (none, last) := by
    intro rest ended whole
    rcases (answering_arriving fuel).advances advances_granted usable whole (by decide) with
      ⟨between, usable', left, ends, -⟩
    rw [← left] at ended
    rcases (answering_arriving fuel).starves usable' (by decide) ended readBound with ⟨next, ends'⟩
    exact ⟨next, ends.trans ends'⟩
  rcases stream with none | one | two | three
  · exact early (by rw [none]; decide)
  · exact early (by rw [one]; decide)
  · exact late [] (by decide) two
  · exact late [0] (by decide) three

/-- The answer ends behind them, within the address or the port. -/
theorem rejects_bound {pipe : TcpPipe Arriving} {more missing : List UInt8} {atyp : UInt8}
    (usable : TcpPipe.Usable fuel pipe) (whole : address.bytes ++ push16 port =
      atyp :: (more ++ missing)) (cut : missing ≠ [])
    (stream : pipe.stream Arriving.incoming = more) :
    ∃ last, conclude (tcpPipe arriving fuel) (readBound (some [0, atyp])) pipe =
      some (none, last) := by
  have some := List.length_pos_iff.mpr cut
  have size := congrArg List.length whole
  cases address with
  | ip4 octets four =>
      cases (List.cons.inj whole).1
      simp only [Address.bytes, push16, List.length_append, List.length_cons, List.length_nil,
        four] at size
      exact (answering_arriving fuel).starves_read usable (show 6 ≤ 47851 by decide)
        (by rw [stream]; omega) fun _ => value ()
  | ip6 octets sixteen =>
      cases (List.cons.inj whole).1
      simp only [Address.bytes, push16, List.length_append, List.length_cons, List.length_nil,
        sixteen] at size
      exact (answering_arriving fuel).starves_read usable (show 18 ≤ 47851 by decide)
        (by rw [stream]; omega) fun _ => value ()
  | domain name short =>
      cases (List.cons.inj whole).1
      rcases more with _ | ⟨length, more⟩
      · exact (answering_arriving fuel).starves_read usable (show 1 ≤ 47851 by decide)
          (by rw [stream]; decide) fun length => readName (length.getD 0 0).toNat
      · cases (List.cons.inj (List.cons.inj whole).2).1
        simp only [Address.bytes, push16, List.length_append, List.length_cons,
          List.length_nil] at size
        have count : (UInt8.ofNat name.length).toNat = name.length := by
          rw [UInt8.toNat_ofNat']
          omega
        have reads : Advances (readBound (Option.some [0, 3])) ([UInt8.ofNat name.length] ++ []) []
            (readName (UInt8.ofNat name.length).toNat) := .afterRead rfl (.here _)
        rcases (answering_arriving fuel).advances reads usable stream (by simp) with
          ⟨between, usable', left, ends, -⟩
        rw [count] at ends
        rcases conclude_readName usable' (show name.length + 2 ≤ 47851 by omega) with
          ⟨result, last, concludes, taken, -⟩
        refine ⟨last, ?_⟩
        rw [ends, concludes]
        cases result with
        | none => rfl
        | some done =>
            have there := (taken.mp rfl).1
            rw [left] at there
            omega

theorem rejects_cut {pipe : TcpPipe Arriving} {cut missing : List UInt8}
    (usable : TcpPipe.Usable fuel pipe) (whole : message 0 address port = cut ++ missing)
    (some : missing ≠ []) (stream : pipe.stream Arriving.incoming = cut) :
    ∃ last, conclude (tcpPipe arriving fuel) readAnswer pipe = Option.some (none, last) := by
  have parts : 5 :: 0 :: 0 :: (address.bytes ++ push16 port) = cut ++ missing := whole
  rcases cut with _ | ⟨ver, _ | ⟨rep, _ | ⟨rsv, _ | ⟨atyp, more⟩⟩⟩⟩
  · exact rejects_start usable (Or.inl stream)
  · cases (List.cons.inj parts).1
    exact rejects_start usable (Or.inr (Or.inl stream))
  · cases (List.cons.inj parts).1
    cases (List.cons.inj (List.cons.inj parts).2).1
    exact rejects_start usable (Or.inr (Or.inr (Or.inl stream)))
  · cases (List.cons.inj parts).1
    cases (List.cons.inj (List.cons.inj parts).2).1
    cases (List.cons.inj (List.cons.inj (List.cons.inj parts).2).2).1
    exact rejects_start usable (Or.inr (Or.inr (Or.inr stream)))
  · simp only [List.cons_append, List.cons.injEq] at parts
    rcases parts with ⟨rfl, rfl, rfl, bound⟩
    have reads : Advances (tryRead 2 >>= readBound) ([0, atyp] ++ []) []
        (readBound (Option.some [0, atyp])) := .afterTryRead rfl (.here _)
    rcases (answering_arriving fuel).advances (advances_granted.trans reads) usable stream
      (by simp) with ⟨between, usable', left, ends, -⟩
    rcases rejects_bound usable' bound some left with ⟨last, ends'⟩
    exact ⟨last, ends.trans ends'⟩

theorem rejected_of_cut {cut missing : List UInt8} (known : addr.type ≠ .error)
    (given : addr.port ≠ 0) (enough : socket.coming.length + 2 ≤ fuel)
    (whole : message 0 address port = cut ++ missing) (some : missing ≠ [])
    (stream : socket.incoming = preface auth ++ cut) :
    Rejected (tcpPipe arriving fuel) host auth addr { socket } := by
  rcases @advances_preface host auth addr known given with ⟨output, greets⟩
  have short := length_preface auth
  rcases (answering_arriving fuel).advances greets (TcpPipe.usable_new enough) stream (by omega)
    with ⟨between, usable, left, ends, -⟩
  rcases rejects_cut usable whole some left with ⟨last, ends'⟩
  exact ⟨last, ends.trans ends'⟩

/-- A success reply is read off exactly where the calls that do not wait find all that they ask
for, and one that is cut short is never taken for one. -/
theorem reply_iff (address : Address) (port : UInt16) (known : addr.type ≠ .error)
    (given : addr.port ≠ 0) (enough : socket.coming.length + 2 ≤ fuel) :
    (∀ tail, socket.incoming = preface auth ++ message 0 address port ++ tail →
      (Returned (tcpPipe arriving fuel) host auth addr { socket } tail ↔
        Prompt fuel host auth addr { socket })) ∧
    ∀ cut missing, message 0 address port = cut ++ missing → missing ≠ [] →
      socket.incoming = preface auth ++ cut →
      Rejected (tcpPipe arriving fuel) host auth addr { socket } := by
  constructor
  · intro tail stream
    exact returned_iff known given enough stream
  · intro cut missing whole some stream
    exact rejected_of_cut known given enough whole some stream

end

/-- The endpoint example, port 80. -/
def namedEndpoint : Endpoint where
  domain := [101, 120, 97, 109, 112, 108, 101]
  ip := { v4 := true, octets := [0, 0, 0, 0], port := 80, size := rfl }
  type := .tcpDomain

/-- A proxy whose reply names 10.0.0.1, port 80, in two pieces. -/
def ip4Reply : Arriving where
  coming := [[5, 0, 5, 0, 0, 1, 10], [0, 0, 1, 0, 80, 71]]

theorem reply_iff_ip4 :
    Returned (tcpPipe arriving 8) {} [] namedEndpoint { socket := ip4Reply } [71] := by
  have reads := @reply_iff {} [] namedEndpoint ip4Reply 8 (.ip4 [10, 0, 0, 1] rfl) 80 (by decide)
    (by decide) (by decide)
  apply (reads.1 [71] rfl).mpr
  intro size asked first
  have waits : hasty (tcpPipe arriving 8) (prepare5 {} [] namedEndpoint)
    { socket := ip4Reply } = none := rfl
  rw [waits] at first
  cases first

/-- A proxy whose reply names the address a, port 80, and whose last byte arrives apart. -/
def splitReply : Arriving where
  coming := [[5, 0, 5, 0, 0, 3, 1, 97, 0], [], [], [], [80]]

theorem not_returned_split :
    splitReply.incoming = preface [] ++ message 0 (.domain [97] (by decide)) 80 ++ [] ∧
      ¬Returned (tcpPipe arriving 8) {} [] namedEndpoint { socket := splitReply } [] := by
  refine ⟨rfl, ?_⟩
  rintro ⟨last, ends, -⟩
  have fails : (conclude (tcpPipe arriving 8) (prepare5 {} [] namedEndpoint)
    { socket := splitReply }).map Prod.fst = some none := rfl
  rw [ends] at fails
  cases fails

end Imconee.Socks
