import Imconee.Lib.Schedule
import Mathlib.Data.List.Basic
import Mathlib.Data.Int.Notation

/-!
# Dialogues

A program that sends and receives over a stream of bytes, as a tree: it has a value, has
quit, asks for bytes or sends some. A negative size asks for exactly that many bytes and any
other one for at most that many. Two programs at the ends of a pair of streams talk to each
other; what one sends is on its way and arrives byte by byte.
-/

set_option autoImplicit false

namespace Imconee.Lib

/-- `receive` goes on with what has come, or with nothing if the call fails; `send` with
whether it has been taken. -/
inductive Dialogue (α : Type) where
  | value (a : α)
  | quit
  | receive (size : ℤ) (next : Option (List UInt8) → Dialogue α)
  | send (bytes : List UInt8) (next : Bool → Dialogue α)

namespace Dialogue

variable {α β : Type}

protected def bind : Dialogue α → (α → Dialogue β) → Dialogue β
  | value a, f => f a
  | quit, _ => quit
  | receive size next, f => receive size fun received => (next received).bind f
  | send bytes next, f => send bytes fun taken => (next taken).bind f

instance : Monad Dialogue where
  pure := value
  bind := Dialogue.bind

theorem bind_assoc {γ : Type} (d : Dialogue α) (f : α → Dialogue β) (g : β → Dialogue γ) :
    (d >>= f) >>= g = d >>= fun a => f a >>= g := by
  induction d with
  | value a => rfl
  | quit => rfl
  | receive size next ih => exact congrArg (receive size) (funext ih)
  | send bytes next ih => exact congrArg (send bytes) (funext ih)

theorem bind_value (d : Dialogue α) : d >>= value = d := by
  induction d with
  | value a => rfl
  | quit => rfl
  | receive size next ih => exact congrArg (receive size) (funext ih)
  | send bytes next ih => exact congrArg (send bytes) (funext ih)

/-- The answer to a request for so many bytes. -/
def Answers (size : ℤ) (bytes : List UInt8) : Prop :=
  (size < 0 → (bytes.length : ℤ) = -size) ∧ (0 ≤ size → (bytes.length : ℤ) ≤ size)

/-- A dialogue can come to a value having received these bytes, whatever else fails. -/
inductive Reads : Dialogue α → List UInt8 → α → Prop where
  | value (a : α) : Reads (value a) [] a
  | received {size : ℤ} {next : Option (List UInt8) → Dialogue α} {bytes more : List UInt8}
      {a : α} (answers : Answers size bytes) (rest : Reads (next (some bytes)) more a) :
      Reads (receive size next) (bytes ++ more) a
  | failed {size : ℤ} {next : Option (List UInt8) → Dialogue α} {more : List UInt8} {a : α}
      (rest : Reads (next none) more a) : Reads (receive size next) more a
  | sent {bytes : List UInt8} {next : Bool → Dialogue α} {more : List UInt8} {a : α}
      (taken : Bool) (rest : Reads (next taken) more a) : Reads (send bytes next) more a

/-- The first dialogue, with what it needs, sends something and goes on as the other one. -/
inductive Advances : Dialogue α → List UInt8 → List UInt8 → Dialogue α → Prop where
  | here (d : Dialogue α) : Advances d [] [] d
  | receive {size : ℤ} {next : Option (List UInt8) → Dialogue α} {bytes input output : List UInt8}
      {last : Dialogue α} (exact : size = -(bytes.length : ℤ))
      (rest : Advances (next (some bytes)) input output last) :
      Advances (receive size next) (bytes ++ input) output last
  | send {bytes input output : List UInt8} {next : Bool → Dialogue α} {last : Dialogue α}
      (rest : Advances (next true) input output last) :
      Advances (send bytes next) input (bytes ++ output) last

/-- A dialogue that is not about to ask for what there is. -/
def Sure : Dialogue α → Prop
  | receive size _ => size ≤ 0
  | _ => True

/-- A dialogue that has a value or has quit. -/
def Over : Dialogue α → Prop
  | value _ => True
  | quit => True
  | _ => False

theorem Over.sure {d : Dialogue α} (ended : d.Over) : d.Sure := by
  cases d with
  | value a => trivial
  | quit => trivial
  | receive size next => exact ended.elim
  | send bytes next => exact ended.elim

/-- Reading exactly so many bytes, or quitting. -/
def read (count : ℕ) : Dialogue (List UInt8) :=
  receive (-(count : ℤ)) fun received =>
    match received with
    | some bytes => if bytes.length = count then value bytes else quit
    | none => quit

/-- What a call returns. -/
def tryRead (count : ℕ) : Dialogue (Option (List UInt8)) := receive (-(count : ℤ)) value

/-- Sending, and whether that has been taken. -/
def tell (bytes : List UInt8) : Dialogue Bool := send bytes value

/-- A dialogue of which one knows whether it has quit. -/
def attempt : Dialogue α → Dialogue (Option α)
  | value a => value (some a)
  | quit => value none
  | receive size next => receive size fun received => (next received).attempt
  | send bytes next => send bytes fun taken => (next taken).attempt

theorem reads_value {a b : α} {bytes : List UInt8} (reads : Reads (value a) bytes b) :
    bytes = [] ∧ b = a := by
  cases reads
  exact ⟨rfl, rfl⟩

theorem not_reads_quit {a : α} {bytes : List UInt8} : ¬Reads (quit : Dialogue α) bytes a := by
  intro reads
  cases reads

theorem reads_bind {d : Dialogue α} {f : α → Dialogue β} {bytes : List UInt8} {b : β}
    (reads : Reads (d >>= f) bytes b) :
    ∃ first second a, bytes = first ++ second ∧ Reads d first a ∧ Reads (f a) second b := by
  induction d generalizing bytes with
  | value a => exact ⟨[], bytes, a, rfl, .value a, reads⟩
  | quit => exact absurd reads not_reads_quit
  | receive size next ih =>
      cases reads with
      | received answers rest =>
          rcases ih _ rest with ⟨first, second, a, rfl, before, after⟩
          exact ⟨_, second, a, (List.append_assoc _ _ _).symm, .received answers before, after⟩
      | failed rest =>
          rcases ih _ rest with ⟨first, second, a, rfl, before, after⟩
          exact ⟨first, second, a, rfl, .failed before, after⟩
  | send message next ih =>
      cases reads with
      | sent taken rest =>
          rcases ih _ rest with ⟨first, second, a, rfl, before, after⟩
          exact ⟨first, second, a, rfl, .sent taken before, after⟩

theorem reads_read {count : ℕ} {bytes result : List UInt8}
    (reads : Reads (read count) bytes result) :
    bytes = result ∧ result.length = count := by
  cases reads with
  | received answers rest =>
      dsimp only at rest
      split at rest
      · rename_i long
        rcases reads_value rest with ⟨rfl, rfl⟩
        exact ⟨List.append_nil _, long⟩
      · exact absurd rest not_reads_quit
  | failed rest => exact absurd rest not_reads_quit

theorem reads_tryRead {count : ℕ} {bytes : List UInt8} {result : Option (List UInt8)}
    (reads : Reads (tryRead count) bytes result) :
    (result = some bytes ∧ bytes.length = count) ∨ (result = none ∧ bytes = []) := by
  cases reads with
  | received answers rest =>
      rcases reads_value rest with ⟨rfl, rfl⟩
      left
      refine ⟨by rw [List.append_nil], ?_⟩
      rw [List.append_nil]
      rcases answers with ⟨exact, atMost⟩
      omega
  | failed rest =>
      rcases reads_value rest with ⟨rfl, rfl⟩
      exact Or.inr ⟨rfl, rfl⟩

theorem reads_tell {message bytes : List UInt8} {taken : Bool}
    (reads : Reads (tell message) bytes taken) : bytes = [] := by
  cases reads with
  | sent taken rest => exact (reads_value rest).1

namespace Advances

theorem trans {first second third : Dialogue α} {input more output others : List UInt8}
    (left : Advances first input output second) (right : Advances second more others third) :
    Advances first (input ++ more) (output ++ others) third := by
  induction left with
  | here d => exact right
  | receive exact rest ih =>
      rw [List.append_assoc]
      exact .receive exact (ih right)
  | send rest ih =>
      rw [List.append_assoc]
      exact .send (ih right)

theorem bind {d last : Dialogue α} {input output : List UInt8}
    (advances : Advances d input output last) (f : α → Dialogue β) :
    Advances (d >>= f) input output (last >>= f) := by
  induction advances with
  | here d => exact .here _
  | receive exact rest ih => exact .receive exact ih
  | send rest ih => exact .send ih

theorem attempt {d last : Dialogue α} {input output : List UInt8}
    (advances : Advances d input output last) : Advances d.attempt input output last.attempt := by
  induction advances with
  | here d => exact .here _
  | receive exact rest ih => exact .receive exact ih
  | send rest ih => exact .send ih

/-- The first dialogue comes to a value, with which the second one goes on. -/
theorem andThen {d : Dialogue α} {f : α → Dialogue β} {a : α} {last : Dialogue β}
    {input more output others : List UInt8} (first : Advances d input output (value a))
    (second : Advances (f a) more others last) :
    Advances (d >>= f) (input ++ more) (output ++ others) last :=
  (first.bind f).trans second

/-- What takes a dialogue to a value is what it reads. -/
theorem reads {d : Dialogue α} {a : α} {input output : List UInt8}
    (advances : Advances d input output (value a)) : Reads d input a := by
  generalize ends : value a = last at advances
  induction advances with
  | here d =>
      subst ends
      exact .value a
  | receive exact rest ih => exact .received (by constructor <;> intro <;> omega) (ih ends)
  | send rest ih => exact .sent true (ih ends)

theorem afterRead {count : ℕ} {f : List UInt8 → Dialogue β} {bytes more output : List UInt8}
    {last : Dialogue β} (long : bytes.length = count) (rest : Advances (f bytes) more output last) :
    Advances (read count >>= f) (bytes ++ more) output last := by
  refine .receive (by rw [long]) ?_
  dsimp only
  rw [if_pos long]
  exact rest

theorem afterTryRead {count : ℕ} {f : Option (List UInt8) → Dialogue β}
    {bytes more output : List UInt8} {last : Dialogue β} (long : bytes.length = count)
    (rest : Advances (f (some bytes)) more output last) :
    Advances (tryRead count >>= f) (bytes ++ more) output last :=
  .receive (by rw [long]) rest

theorem afterTell {f : Bool → Dialogue β} {message input output : List UInt8} {last : Dialogue β}
    (rest : Advances (f true) input output last) :
    Advances (tell message >>= f) input (message ++ output) last := .send rest

theorem tells {f : Bool → Dialogue β} (message : List UInt8) :
    Advances (tell message >>= f) [] message (f true) := by
  have sends : Advances (tell message >>= f) [] (message ++ []) (f true) := .afterTell (.here _)
  rwa [List.append_nil] at sends

end Advances

/-- One run of a dialogue, with any answers and up to any point: what it has heard, the
messages it has sent or tried to send, and what it goes on as. -/
inductive Talks : Dialogue α → List UInt8 → List (List UInt8) → Dialogue α → Prop where
  | here (d : Dialogue α) : Talks d [] [] d
  | received {size : ℤ} {next : Option (List UInt8) → Dialogue α} {bytes heard : List UInt8}
      {told : List (List UInt8)} {last : Dialogue α} (answers : Answers size bytes)
      (rest : Talks (next (some bytes)) heard told last) :
      Talks (receive size next) (bytes ++ heard) told last
  | failed {size : ℤ} {next : Option (List UInt8) → Dialogue α} {heard : List UInt8}
      {told : List (List UInt8)} {last : Dialogue α} (rest : Talks (next none) heard told last) :
      Talks (receive size next) heard told last
  | sent {message heard : List UInt8} {next : Bool → Dialogue α} {told : List (List UInt8)}
      {last : Dialogue α} (taken : Bool) (rest : Talks (next taken) heard told last) :
      Talks (send message next) heard (message :: told) last

namespace Talks

variable {d last : Dialogue α} {heard : List UInt8} {told : List (List UInt8)}

theorem reads {a : α} (talks : Talks d heard told (value a)) : Reads d heard a := by
  generalize ends : value a = last at talks
  induction talks with
  | here d =>
      subst ends
      exact .value a
  | received answers rest ih => exact .received answers (ih ends)
  | failed rest ih => exact .failed (ih ends)
  | sent taken rest ih => exact .sent taken (ih ends)

/-- A run of two dialogues has not come to the second one, or it has run through the first. -/
theorem of_bind {f : α → Dialogue β} {last : Dialogue β}
    (talks : Talks (d >>= f) heard told last) :
    (∃ between, Talks d heard told between ∧ last = between >>= f) ∨
      ∃ first second before after a, heard = first ++ second ∧ told = before ++ after ∧
        Talks d first before (value a) ∧ Talks (f a) second after last := by
  induction d generalizing heard told with
  | value a => exact Or.inr ⟨[], heard, [], told, a, rfl, rfl, .here _, talks⟩
  | quit =>
      cases talks
      exact Or.inl ⟨quit, .here _, rfl⟩
  | receive size next ih =>
      cases talks with
      | here => exact Or.inl ⟨_, .here _, rfl⟩
      | received answers rest =>
          rcases ih _ rest with
            ⟨between, early, ends⟩ | ⟨first, second, before, after, a, rfl, rfl, early, late⟩
          · exact Or.inl ⟨between, .received answers early, ends⟩
          · exact Or.inr ⟨_, second, before, after, a, (List.append_assoc _ _ _).symm, rfl,
              .received answers early, late⟩
      | failed rest =>
          rcases ih _ rest with
            ⟨between, early, ends⟩ | ⟨first, second, before, after, a, rfl, rfl, early, late⟩
          · exact Or.inl ⟨between, .failed early, ends⟩
          · exact Or.inr ⟨first, second, before, after, a, rfl, rfl, .failed early, late⟩
  | send message next ih =>
      cases talks with
      | here => exact Or.inl ⟨_, .here _, rfl⟩
      | sent taken rest =>
          rcases ih _ rest with
            ⟨between, early, ends⟩ | ⟨first, second, before, after, a, rfl, rfl, early, late⟩
          · exact Or.inl ⟨between, .sent taken early, ends⟩
          · exact Or.inr ⟨first, second, message :: before, after, a, rfl, rfl,
              .sent taken early, late⟩

theorem of_quit (talks : Talks (quit : Dialogue α) heard told last) : told = [] := by
  cases talks
  rfl

theorem of_value {a : α} (talks : Talks (value a) heard told last) : told = [] := by
  cases talks
  rfl

/-- Behind an exact read: nothing has been sent, or it has been answered. -/
theorem of_read {count : ℕ} {f : List UInt8 → Dialogue β} {last : Dialogue β}
    (talks : Talks (read count >>= f) heard told last) :
    told = [] ∨ ∃ bytes more, heard = bytes ++ more ∧ bytes.length = count ∧
      Talks (f bytes) more told last := by
  rcases of_bind talks with
    ⟨between, early, -⟩ | ⟨bytes, more, before, after, result, rfl, rfl, early, late⟩
  · left
    cases early with
    | here => rfl
    | received answers rest =>
        dsimp only at rest
        split at rest
        · exact of_value rest
        · exact of_quit rest
    | failed rest => exact of_quit rest
  · right
    rcases reads_read early.reads with ⟨rfl, long⟩
    cases early with
    | received answers rest =>
        dsimp only at rest
        split at rest
        · rw [of_value rest]
          exact ⟨_, more, rfl, long, late⟩
        · cases rest
    | failed rest => cases rest

theorem of_tell {message : List UInt8} {f : Bool → Dialogue β} {last : Dialogue β}
    (talks : Talks (tell message >>= f) heard told last) :
    told = [] ∨ ∃ taken more, told = message :: more ∧ Talks (f taken) heard more last := by
  cases talks with
  | here => exact Or.inl rfl
  | sent taken rest => exact Or.inr ⟨taken, _, rfl, rest⟩

theorem afterRead {count : ℕ} {f : List UInt8 → Dialogue β} {bytes : List UInt8}
    {last : Dialogue β} (long : bytes.length = count) (rest : Talks (f bytes) heard told last) :
    Talks (read count >>= f) (bytes ++ heard) told last := by
  refine .received (by constructor <;> intro <;> omega) ?_
  dsimp only
  rw [if_pos long]
  exact rest

theorem afterTell {message : List UInt8} {f : Bool → Dialogue β} {last : Dialogue β}
    (rest : Talks (f true) heard told last) :
    Talks (tell message >>= f) heard (message :: told) last := .sent true rest

end Talks

theorem Talks.bind {d last : Dialogue α} {heard : List UInt8} {told : List (List UInt8)}
    (talks : Talks d heard told last) (f : α → Dialogue β) :
    Talks (d >>= f) heard told (last >>= f) := by
  induction talks with
  | here d => exact .here _
  | received answers rest ih => exact .received answers ih
  | failed rest ih => exact .failed ih
  | sent taken rest ih => exact .sent taken ih

/-- A dialogue that only sends such messages. -/
def Only (allowed : List UInt8 → Prop) : Dialogue α → Prop
  | value _ => True
  | quit => True
  | receive _ next => ∀ answer, Only allowed (next answer)
  | send message next => allowed message ∧ ∀ taken, Only allowed (next taken)

section

variable {allowed : List UInt8 → Prop}

theorem Only.told {d last : Dialogue α} {heard : List UInt8} {told : List (List UInt8)}
    (only : d.Only allowed) (talks : Talks d heard told last) :
    ∀ message ∈ told, allowed message := by
  induction talks with
  | here d =>
      intro message sent
      cases sent
  | received answers rest ih => exact ih (only _)
  | failed rest ih => exact ih (only _)
  | sent taken rest ih =>
      intro message sent
      rcases List.mem_cons.mp sent with rfl | later
      · exact only.1
      · exact ih (only.2 taken) message later

theorem Only.bind {d : Dialogue α} {f : α → Dialogue β} (first : d.Only allowed)
    (second : ∀ a, (f a).Only allowed) : (d >>= f).Only allowed := by
  induction d with
  | value a => exact second a
  | quit => trivial
  | receive size next ih => exact fun answer => ih answer (first answer)
  | send message next ih => exact ⟨first.1, fun taken => ih taken (first.2 taken)⟩

theorem only_read (count : ℕ) : (read count).Only allowed := by
  intro answer
  cases answer with
  | none => trivial
  | some bytes =>
      dsimp only
      split <;> trivial

theorem only_tryRead (count : ℕ) : (tryRead count).Only allowed := fun _ => trivial

theorem only_tell {message : List UInt8} (fine : allowed message) : (tell message).Only allowed :=
  ⟨fine, fun _ => trivial⟩

end

/-- A dialogue that sends nothing. -/
def Silent : Dialogue α → Prop := Only fun _ => False

theorem Silent.told {d last : Dialogue α} {heard : List UInt8} {told : List (List UInt8)}
    (silent : d.Silent) (talks : Talks d heard told last) : told = [] :=
  List.eq_nil_iff_forall_not_mem.mpr (Only.told silent talks)

end Dialogue

end Imconee.Lib
