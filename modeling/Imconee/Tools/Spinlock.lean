import Imconee.Lib.Interleaving
import Mathlib.Data.Nat.Bitwise

/-!
# `spinlock`

The reader/writer lock. Its word holds the number of readers, the number of times that the
writer has taken it, and the thread of the writer. A writer announces itself, which keeps new
readers out, and then waits for those that are there. Each access to the word is one step of a
thread.
-/

set_option autoImplicit false

namespace Imconee.Tools.Spinlock

open Lib

/-- `RWLOCKVALUE` -/
abbrev Word := BitVec 64

def lockReadMask : Word := 0xFFFF000000000000#64
def lockWriteMask : Word := 0x0000FF0000000000#64
def lockThreadMask : Word := 0x000000FFFFFFFFFF#64
def lockWriteVal : Word := 0x0000010000000000#64
def lockReadVal : Word := 0x0001000000000000#64

/-- `SLxInterlockedCompareExchange64`: the word after it, and what is returned. -/
def compareExchange (lock new expected : Word) : Word × Word :=
  (if lock = expected then new else lock, lock)

/-- Where a thread is. The values are those of its local variables. -/
inductive Point where
  | idle
  | lockWrite
  | lockWriteAgain -- second lock same thread
  | lockWriteLoop (val : Word) -- initial lock
  | lockWriteWait -- until all readers are gone
  | lockRead
  | lockReadAgain
  | lockReadLoop (val : Word)
  | tryLockRead
  | tryLockReadAgain
  | tryLockReadSwap (val : Word)
  | tryLockWrite
  | tryLockWriteAgain
  | tryLockWriteSwap
  | unlockWrite
  | unlockWriteSwap (tmp : Word)
  | unlockRead
  | unlockReadAdd
  | stopped -- `SLERROR`
  deriving DecidableEq

/-- A thread, and how many read and write holds it has been given. A writer that has announced
itself counts from then on. -/
structure Local where
  point : Point := .idle
  reads : ℕ := 0
  writes : ℕ := 0

/-- One access to the word. -/
def advance (tid lock : Word) (self : Local) : Word × Local :=
  match self.point with
  | .idle => (lock, self)
  | .lockWrite =>
      (lock, if lock &&& lockThreadMask = tid then { self with point := .lockWriteAgain }
        else { self with point := .lockWriteLoop lock })
  | .lockWriteAgain =>
      (lock + lockWriteVal, { self with point := .idle, writes := self.writes + 1 })
  | .lockWriteLoop val =>
      let tmp := val &&& lockReadMask
      let swapped := compareExchange lock (tmp ||| (tid ||| lockWriteVal)) tmp
      (swapped.1, if swapped.2 = tmp then
          -- no more writers - set current thread to block new readers
          { self with point := .lockWriteWait, writes := self.writes + 1 }
        else { self with point := .lockWriteLoop swapped.2 })
  | .lockWriteWait =>
      (lock, if lock &&& lockReadMask = 0 then { self with point := .idle } else self)
  | .lockRead =>
      (lock, if lock &&& lockThreadMask = tid then { self with point := .lockReadAgain }
        else { self with point := .lockReadLoop lock })
  | .lockReadAgain =>
      (lock + lockReadVal, { self with point := .idle, reads := self.reads + 1 })
  | .lockReadLoop val =>
      let tmp := val &&& lockReadMask
      let swapped := compareExchange lock (tmp + lockReadVal) tmp
      (swapped.1, if swapped.2 = tmp then { self with point := .idle, reads := self.reads + 1 }
        else { self with point := .lockReadLoop swapped.2 })
  | .tryLockRead =>
      (lock, if lock &&& lockThreadMask = tid then { self with point := .tryLockReadAgain }
        else { self with point := .tryLockReadSwap lock })
  | .tryLockReadAgain =>
      (lock + lockReadVal, { self with point := .idle, reads := self.reads + 1 })
  | .tryLockReadSwap val =>
      let tmp := val &&& lockReadMask
      let swapped := compareExchange lock (tmp + lockReadVal) tmp
      (swapped.1, if swapped.2 = tmp then { self with point := .idle, reads := self.reads + 1 }
        else { self with point := .idle })
  | .tryLockWrite =>
      (lock, if lock &&& lockThreadMask = tid then { self with point := .tryLockWriteAgain }
        else { self with point := .tryLockWriteSwap })
  | .tryLockWriteAgain =>
      (lock + lockWriteVal, { self with point := .idle, writes := self.writes + 1 })
  | .tryLockWriteSwap =>
      let swapped := compareExchange lock (tid ||| lockWriteVal) 0
      (swapped.1, if swapped.2 = 0 then { self with point := .idle, writes := self.writes + 1 }
        else { self with point := .idle })
  | .unlockWrite =>
      (lock, if lock &&& lockThreadMask ≠ tid ∨ lock &&& lockWriteMask = 0 then
          { self with point := .stopped }
        else { self with point := .unlockWriteSwap lock })
  | .unlockWriteSwap tmp =>
      let val := tmp - lockWriteVal
      let val := if val &&& lockWriteMask = 0 then val &&& lockReadMask else val
      -- what the call returns is not looked at
      ((compareExchange lock val tmp).1, { self with point := .idle, writes := self.writes - 1 })
  | .unlockRead =>
      (lock, if lock &&& lockReadMask = 0 then { self with point := .stopped }
        else { self with point := .unlockReadAdd })
  | .unlockReadAdd =>
      (lock + ~~~(lockReadVal - 1), { self with point := .idle, reads := self.reads - 1 })
  | .stopped => (lock, self)

/-- What a thread can call. -/
inductive Op where
  | lockWrite
  | lockRead
  | tryLockRead
  | tryLockWrite
  | unlockWrite
  | unlockRead

namespace Op

/-- Where a call begins. -/
def start : Op → Point
  | lockWrite => .lockWrite
  | lockRead => .lockRead
  | tryLockRead => .tryLockRead
  | tryLockWrite => .tryLockWrite
  | unlockWrite => .unlockWrite
  | unlockRead => .unlockRead

/-- A thread releases what it holds, and does not wait for the write lock while it only reads. -/
def Allowed (self : Local) : Op → Prop
  | lockWrite => 0 < self.reads → 0 < self.writes
  | unlockWrite => 0 < self.writes
  | unlockRead => 0 < self.reads
  | _ => True

end Op

/-- A move of a thread: a call, or the next access to the word. -/
inductive Move (tid : Word) : Word → Local → Word → Local → Prop where
  | call {lock : Word} {self : Local} (op : Op) (idle : self.point = .idle)
      (allowed : op.Allowed self) : Move tid lock self lock { self with point := op.start }
  | access {lock : Word} {self : Local} :
      Move tid lock self (advance tid lock self).1 (advance tid lock self).2

/-! ### The word -/

/-- The word with these fields. -/
def word (readers writes thread : ℕ) : Word :=
  BitVec.ofNat 64 (readers * 2 ^ 48 + writes * 2 ^ 40 + thread)

theorem and_field (x low width : ℕ) :
    x &&& (2 ^ width - 1) * 2 ^ low = x / 2 ^ low % 2 ^ width * 2 ^ low := by
  apply Nat.eq_of_testBit_eq
  intro i
  rw [Nat.testBit_and, Nat.testBit_mul_two_pow, Nat.testBit_mul_two_pow, Nat.testBit_mod_two_pow,
    Nat.testBit_two_pow_sub_one, Nat.testBit_div_two_pow]
  by_cases high : low ≤ i
  · rw [Nat.sub_add_cancel high]
    cases x.testBit i <;> simp [high]
  · simp [high]

section

variable {readers writes thread : ℕ}

structure Fits (readers writes thread : ℕ) : Prop where
  readers : readers < 2 ^ 16
  writes : writes < 2 ^ 8
  thread : thread < 2 ^ 40

theorem Fits.none : Fits 0 0 0 := ⟨Nat.two_pow_pos 16, Nat.two_pow_pos 8, Nat.two_pow_pos 40⟩

theorem Fits.only_readers (fits : Fits readers writes thread) : Fits readers 0 0 :=
  ⟨fits.readers, none.writes, none.thread⟩

theorem Fits.only_writes (fits : Fits readers writes thread) : Fits 0 writes 0 :=
  ⟨none.readers, fits.writes, none.thread⟩

theorem Fits.only_thread (fits : Fits readers writes thread) : Fits 0 0 thread :=
  ⟨none.readers, none.writes, fits.thread⟩

theorem toNat_word (fits : Fits readers writes thread) :
    (word readers writes thread).toNat = readers * 2 ^ 48 + writes * 2 ^ 40 + thread := by
  rcases fits with ⟨readersLt, writesLt, threadLt⟩
  rw [word, BitVec.toNat_ofNat]
  omega

theorem and_lockReadMask (fits : Fits readers writes thread) :
    word readers writes thread &&& lockReadMask = word readers 0 0 := by
  apply BitVec.eq_of_toNat_eq
  rw [BitVec.toNat_and, toNat_word fits, toNat_word fits.only_readers,
    show lockReadMask.toNat = (2 ^ 16 - 1) * 2 ^ 48 from rfl, and_field]
  rcases fits with ⟨readersLt, writesLt, threadLt⟩
  omega

theorem and_lockWriteMask (fits : Fits readers writes thread) :
    word readers writes thread &&& lockWriteMask = word 0 writes 0 := by
  apply BitVec.eq_of_toNat_eq
  rw [BitVec.toNat_and, toNat_word fits, toNat_word fits.only_writes,
    show lockWriteMask.toNat = (2 ^ 8 - 1) * 2 ^ 40 from rfl, and_field]
  rcases fits with ⟨readersLt, writesLt, threadLt⟩
  omega

theorem and_lockThreadMask (fits : Fits readers writes thread) :
    word readers writes thread &&& lockThreadMask = word 0 0 thread := by
  apply BitVec.eq_of_toNat_eq
  rw [BitVec.toNat_and, toNat_word fits, toNat_word fits.only_thread,
    show lockThreadMask.toNat = (2 ^ 40 - 1) * 2 ^ 0 from rfl, and_field]
  rcases fits with ⟨readersLt, writesLt, threadLt⟩
  omega

theorem word_inj {readers' writes' thread' : ℕ} (fits : Fits readers writes thread)
    (fits' : Fits readers' writes' thread')
    (same : word readers writes thread = word readers' writes' thread') :
    readers = readers' ∧ writes = writes' ∧ thread = thread' := by
  have number := congrArg BitVec.toNat same
  rw [toNat_word fits, toNat_word fits'] at number
  rcases fits with ⟨readersLt, writesLt, threadLt⟩
  rcases fits' with ⟨readersLt', writesLt', threadLt'⟩
  omega

theorem or_announced (readersLt : readers < 2 ^ 16) (threadLt : thread < 2 ^ 40) :
    word readers 0 0 ||| (word 0 0 thread ||| lockWriteVal) = word readers 1 thread := by
  have fits : Fits readers 1 thread := ⟨readersLt, by decide, threadLt⟩
  apply BitVec.eq_of_toNat_eq
  rw [BitVec.toNat_or, BitVec.toNat_or, toNat_word fits.only_readers, toNat_word fits.only_thread,
    toNat_word fits, show lockWriteVal.toNat = 2 ^ 40 * 1 from rfl, Nat.or_comm _ (2 ^ 40 * 1),
    Nat.zero_mul, Nat.zero_mul, Nat.zero_add, Nat.add_zero,
    ← Nat.two_pow_add_eq_or_of_lt threadLt, Nat.mul_comm readers,
    ← Nat.two_pow_add_eq_or_of_lt (by omega)]
  omega

theorem add_lockReadVal : word readers writes thread + lockReadVal =
    word (readers + 1) writes thread := by
  apply BitVec.eq_of_toNat_eq
  rw [word, word, BitVec.toNat_add, BitVec.toNat_ofNat, BitVec.toNat_ofNat,
    show lockReadVal.toNat = 2 ^ 48 from rfl]
  omega

theorem add_lockWriteVal : word readers writes thread + lockWriteVal =
    word readers (writes + 1) thread := by
  apply BitVec.eq_of_toNat_eq
  rw [word, word, BitVec.toNat_add, BitVec.toNat_ofNat, BitVec.toNat_ofNat,
    show lockWriteVal.toNat = 2 ^ 40 from rfl]
  omega

theorem sub_lockWriteVal : word readers (writes + 1) thread - lockWriteVal =
    word readers writes thread := by
  rw [← add_lockWriteVal, BitVec.add_sub_cancel]

theorem add_not_lockReadVal : word (readers + 1) writes thread + ~~~(lockReadVal - 1) =
    word readers writes thread := by
  rw [← add_lockReadVal, BitVec.add_assoc, show lockReadVal + ~~~(lockReadVal - 1) = 0#64 from rfl,
    BitVec.add_zero]

end

/-! ### What holds in every state -/

section

variable {ι : Type}

def readers [Fintype ι] (locals : ι → Local) : ℕ := ∑ u, (locals u).reads

/-- There is no writer, or one of them has all the write holds. -/
inductive Owner (tid : ι → ℕ) (locals : ι → Local) : ℕ → ℕ → Prop where
  | nobody (none : ∀ u, (locals u).writes = 0) : Owner tid locals 0 0
  | owner (o : ι) (holds : 0 < (locals o).writes) (others : ∀ u, u ≠ o → (locals u).writes = 0) :
      Owner tid locals (locals o).writes (tid o)

/-- A thread that has the write lock, for which it does not wait any more. -/
def Local.Exclusive (self : Local) : Prop := 0 < self.writes ∧ self.point ≠ .lockWriteWait

/-- What a thread relies on where it is. -/
def Local.Relies (lock : Word) (self : Local) : Prop :=
  match self.point with
  | .lockWrite => 0 < self.reads → 0 < self.writes
  | .lockWriteLoop _ => self.reads = 0
  | .lockWriteWait => 0 < self.writes ∧ self.reads = 0
  | .lockWriteAgain => 0 < self.writes
  | .lockReadAgain => 0 < self.writes
  | .tryLockReadAgain => 0 < self.writes
  | .tryLockWriteAgain => 0 < self.writes
  | .unlockWrite => 0 < self.writes
  | .unlockWriteSwap tmp => 0 < self.writes ∧ lock = tmp
  | .unlockRead => 0 < self.reads
  | .unlockReadAdd => 0 < self.reads
  | .stopped => False
  | _ => True

/-- The holds fit into the fields of the word. -/
def Bounded [Fintype ι] (_ : Word) (locals : ι → Local) : Prop :=
  readers locals < 2 ^ 16 ∧ ∀ u, (locals u).writes < 2 ^ 8

instance [Fintype ι] (lock : Word) (locals : ι → Local) : Decidable (Bounded lock locals) :=
  inferInstanceAs (Decidable (_ ∧ ∀ u, (locals u).writes < 2 ^ 8))

/-- The word says what the threads hold. -/
structure Valid [Fintype ι] (tid : ι → ℕ) (lock : Word) (locals : ι → Local) : Prop where
  fields : ∃ writes thread, lock = word (readers locals) writes thread ∧
    Owner tid locals writes thread
  excluded : ∀ u, (locals u).Exclusive → ∀ v, v ≠ u → (locals v).reads = 0
  relies : ∀ u, (locals u).Relies lock

structure Ids (tid : ι → ℕ) : Prop where
  injective : Function.Injective tid
  positive : ∀ u, 0 < tid u
  small : ∀ u, tid u < 2 ^ 40

theorem Ids.fits {tid : ι → ℕ} (ids : Ids tid) (t : ι) : Fits 0 0 (tid t) :=
  ⟨Fits.none.readers, Fits.none.writes, ids.small t⟩

/-! ### What a thread learns from the word -/

variable {tid : ι → ℕ} {locals : ι → Local} {t : ι} {writes thread : ℕ} {lock next : Word}
  {self : Local}

theorem Owner.of_holds (owner : Owner tid locals writes thread) (holds : 0 < (locals t).writes) :
    writes = (locals t).writes ∧ thread = tid t ∧ ∀ u, u ≠ t → (locals u).writes = 0 := by
  cases owner with
  | nobody none =>
      rw [none t] at holds
      exact absurd holds (Nat.lt_irrefl 0)
  | owner o there others =>
      by_cases same : t = o
      · subst same
        exact ⟨rfl, rfl, others⟩
      · rw [others t same] at holds
        exact absurd holds (Nat.lt_irrefl 0)

theorem Owner.of_thread (owner : Owner tid locals writes thread) (ids : Ids tid)
    (none : thread = 0) : writes = 0 ∧ ∀ u, (locals u).writes = 0 := by
  cases owner with
  | nobody free => exact ⟨rfl, free⟩
  | owner o holds others => exact absurd none (Nat.ne_of_gt (ids.positive o))

theorem not_exclusive (none : self.writes = 0) : ¬self.Exclusive := by
  rintro ⟨holds, -⟩
  rw [none] at holds
  exact Nat.lt_irrefl 0 holds

/-- A thread that is about to swap the word has the write lock; the others do not care. -/
theorem Local.Relies.of_other (relies : self.Relies lock) (free : ¬self.Exclusive) :
    self.Relies next := by
  rcases self with ⟨point, reads, writes⟩
  cases point with
  | unlockWriteSwap tmp => exact absurd ⟨relies.1, by simp⟩ free
  | _ => exact relies

section

variable [DecidableEq ι]

theorem others_update (none : ∀ u, u ≠ t → (locals u).writes = 0) (u : ι) (other : u ≠ t) :
    (Function.update locals t self u).writes = 0 := by
  rw [Function.update_of_ne other]
  exact none u other

theorem Owner.updated (holds : 0 < self.writes) (none : ∀ u, u ≠ t → (locals u).writes = 0) :
    Owner tid (Function.update locals t self) self.writes (tid t) := by
  have owner := @Owner.owner ι tid (Function.update locals t self) t
  rw [Function.update_self] at owner
  exact owner holds (others_update none)

theorem Owner.emptied (released : self.writes = 0) (none : ∀ u, u ≠ t → (locals u).writes = 0) :
    Owner tid (Function.update locals t self) 0 0 := by
  apply Owner.nobody
  intro u
  by_cases first : u = t
  · subst first
    rw [Function.update_self]
    exact released
  · exact others_update none u first

theorem Owner.kept (owner : Owner tid locals writes thread)
    (same : self.writes = (locals t).writes) :
    Owner tid (Function.update locals t self) writes thread := by
  have all : ∀ u, (Function.update locals t self u).writes = (locals u).writes := by
    intro u
    by_cases first : u = t
    · subst first
      rw [Function.update_self]
      exact same
    · rw [Function.update_of_ne first]
  cases owner with
  | nobody none => exact .nobody fun u => (all u).trans (none u)
  | owner o holds others =>
      have there := @Owner.owner ι tid (Function.update locals t self) o
      rw [all] at there
      exact there holds fun u other => (all u).trans (others u other)

end

variable [Fintype ι]

theorem Owner.fits (owner : Owner tid locals writes thread) (bounded : Bounded lock locals)
    (ids : Ids tid) : Fits (readers locals) writes thread := by
  cases owner with
  | nobody none => exact ⟨bounded.1, Fits.none.writes, Fits.none.thread⟩
  | owner o holds others => exact ⟨bounded.1, bounded.2 o, ids.small o⟩

theorem Valid.own (valid : Valid tid lock locals) (bounded : Bounded lock locals)
    (ids : Ids tid) (t : ι) :
    lock &&& lockThreadMask = word 0 0 (tid t) ↔ 0 < (locals t).writes := by
  rcases valid.fields with ⟨writes, thread, rfl, owner⟩
  have fits := owner.fits bounded ids
  rw [and_lockThreadMask fits]
  constructor
  · intro same
    have named := (word_inj fits.only_thread (ids.fits t) same).2.2
    cases owner with
    | nobody none => exact absurd named.symm (Nat.ne_of_gt (ids.positive t))
    | owner o holds others =>
        rw [ids.injective named] at holds
        exact holds
  · intro holds
    rw [(owner.of_holds holds).2.1]

theorem zero_eq_word : (0 : Word) = word 0 0 0 := rfl

theorem Valid.no_readers (valid : Valid tid lock locals) (bounded : Bounded lock locals)
    (ids : Ids tid) : lock &&& lockReadMask = 0 ↔ readers locals = 0 := by
  rcases valid.fields with ⟨writes, thread, rfl, owner⟩
  have fits := owner.fits bounded ids
  rw [and_lockReadMask fits]
  constructor
  · intro none
    exact (word_inj fits.only_readers Fits.none (none.trans zero_eq_word)).1
  · intro none
    rw [none]
    rfl

theorem reads_of_no_readers (none : readers locals = 0) (u : ι) : (locals u).reads = 0 :=
  Finset.sum_eq_zero_iff.mp none u (Finset.mem_univ u)

/-- A word in which there are only readers has no writer. -/
theorem Valid.free (valid : Valid tid lock locals) (bounded : Bounded lock locals)
    (ids : Ids tid) (thread : lock &&& lockThreadMask = 0) :
    (∀ u, (locals u).writes = 0) ∧ lock = word (readers locals) 0 0 := by
  rcases valid.fields with ⟨writes, thread', fields, owner⟩
  have fits := owner.fits bounded ids
  rw [fields, and_lockThreadMask fits] at thread
  have none := (word_inj fits.only_thread Fits.none (thread.trans zero_eq_word)).2.2
  rcases owner.of_thread ids none with ⟨free, all⟩
  rw [free, none] at fields
  exact ⟨all, fields⟩

theorem masked_thread (val : Word) : val &&& lockReadMask &&& lockThreadMask = 0 := by
  rw [BitVec.and_assoc, show lockReadMask &&& lockThreadMask = 0#64 from rfl, BitVec.and_zero]
  rfl

theorem readers_start : readers (fun _ : ι => ({} : Local)) = 0 :=
  Finset.sum_eq_zero fun _ _ => rfl

theorem Valid.others (valid : Valid tid lock locals) (holds : 0 < (locals t).writes) {u : ι}
    (other : u ≠ t) : (locals u).writes = 0 := by
  rcases valid.fields with ⟨writes, thread, fields, owner⟩
  exact (owner.of_holds holds).2.2 u other

theorem Valid.written (valid : Valid tid lock locals) (bounded : Bounded lock locals)
    (ids : Ids tid) {t : ι} (holds : 0 < (locals t).writes) : lock &&& lockWriteMask ≠ 0 := by
  rcases valid.fields with ⟨writes, thread, rfl, owner⟩
  have fits := owner.fits bounded ids
  rw [and_lockWriteMask fits]
  intro none
  rw [← (owner.of_holds holds).1] at holds
  have gone := (word_inj fits.only_writes Fits.none (none.trans zero_eq_word)).2.1
  exact Nat.ne_of_gt holds gone

/-! ### What follows from it -/

/-- What is expected of the lock. -/
structure Safe (tid : ι → ℕ) (lock : Word) (locals : ι → Local) : Prop where
  /-- One writer, and nobody besides it. -/
  exclusive : ∀ u, (locals u).Exclusive → ∀ v, v ≠ u → (locals v).reads = 0 ∧ (locals v).writes = 0
  read_field : (lock &&& lockReadMask).toNat = readers locals * lockReadVal.toNat
  write_field : ∀ u, 0 < (locals u).writes →
    (lock &&& lockWriteMask).toNat = (locals u).writes * lockWriteVal.toNat ∧
      (lock &&& lockThreadMask).toNat = tid u
  no_writer : (∀ u, (locals u).writes = 0) →
    lock &&& lockWriteMask = 0 ∧ lock &&& lockThreadMask = 0
  /-- The swap of `unlock_write` finds what it expects. -/
  swaps : ∀ u tmp, (locals u).point = .unlockWriteSwap tmp →
    ∀ val, (compareExchange lock val tmp).2 = tmp

theorem Valid.safe (valid : Valid tid lock locals) (bounded : Bounded lock locals)
    (ids : Ids tid) : Safe tid lock locals where
  exclusive u exclusive v other :=
    ⟨valid.excluded u exclusive v other, valid.others exclusive.1 other⟩
  read_field := by
    rcases valid.fields with ⟨writes, thread, rfl, owner⟩
    have fits := owner.fits bounded ids
    rw [and_lockReadMask fits, toNat_word fits.only_readers,
      show lockReadVal.toNat = 2 ^ 48 from rfl, Nat.zero_mul]
    exact Nat.add_zero _
  write_field u holds := by
    rcases valid.fields with ⟨writes, thread, rfl, owner⟩
    have fits := owner.fits bounded ids
    rcases owner.of_holds holds with ⟨rfl, rfl, -⟩
    rw [and_lockWriteMask fits, toNat_word fits.only_writes, and_lockThreadMask fits,
      toNat_word fits.only_thread, show lockWriteVal.toNat = 2 ^ 40 from rfl]
    omega
  no_writer none := by
    rcases valid.fields with ⟨writes, thread, rfl, owner⟩
    have fits := owner.fits bounded ids
    cases owner with
    | nobody none =>
        rw [and_lockWriteMask fits, and_lockThreadMask fits]
        exact ⟨rfl, rfl⟩
    | owner o holds others => exact absurd (none o) (Nat.ne_of_gt holds)
  swaps u tmp there val := by
    have relies := valid.relies u
    rw [Local.Relies, there] at relies
    exact relies.2

theorem Bounded.start : Bounded 0 fun _ : ι => ({} : Local) := by
  constructor
  · rw [readers_start]
    decide
  · intro u
    exact Nat.two_pow_pos 8

theorem Valid.start (tid : ι → ℕ) : Valid tid 0 fun _ => ({} : Local) where
  fields := by
    refine ⟨0, 0, ?_, .nobody fun _ => rfl⟩
    rw [readers_start]
    rfl
  excluded u exclusive := absurd exclusive.1 (Nat.lt_irrefl 0)
  relies _ := trivial

/-! ### Moves -/

theorem Valid.excludes {old : Point} {reads writes : ℕ} (valid : Valid tid lock locals)
    (here : locals t = ⟨old, reads, writes⟩) (busy : old ≠ .lockWriteWait) (holds : 0 < writes) :
    ∀ u, u ≠ t → (locals u).reads = 0 := by
  apply valid.excluded t
  rw [here]
  exact ⟨holds, busy⟩

variable [DecidableEq ι]

/-- One thread moves. The others keep what they rely on if nothing but its place changes, or
none of them has the write lock. -/
theorem Valid.update (valid : Valid tid lock locals) (t : ι)
    (fields : ∃ writes thread, next = word (readers (Function.update locals t self)) writes thread ∧
      Owner tid (Function.update locals t self) writes thread)
    (apart : (next = lock ∧ self.reads = (locals t).reads) ∨ ∀ u, u ≠ t → ¬(locals u).Exclusive)
    (excluded : self.Exclusive → ∀ u, u ≠ t → (locals u).reads = 0) (relies : self.Relies next) :
    Valid tid next (Function.update locals t self) where
  fields := fields
  excluded u exclusive v other := by
    by_cases first : u = t
    · subst first
      rw [Function.update_self] at exclusive
      rw [Function.update_of_ne other]
      exact excluded exclusive v other
    · rw [Function.update_of_ne first] at exclusive
      rcases apart with ⟨-, same⟩ | alone
      · by_cases second : v = t
        · subst second
          rw [Function.update_self, same]
          exact valid.excluded u exclusive v other
        · rw [Function.update_of_ne second]
          exact valid.excluded u exclusive v other
      · exact absurd exclusive (alone u first)
  relies u := by
    by_cases first : u = t
    · subst first
      rw [Function.update_self]
      exact relies
    · rw [Function.update_of_ne first]
      rcases apart with ⟨rfl, -⟩ | alone
      · exact valid.relies u
      · exact (valid.relies u).of_other (alone u first)

theorem readers_update (locals : ι → Local) (t : ι) (self : Local) :
    readers (Function.update locals t self) + (locals t).reads = readers locals + self.reads :=
  sum_update Local.reads locals t self

variable {old point : Point} {reads writes : ℕ}

theorem Valid.stay (valid : Valid tid lock locals) (here : locals t = ⟨old, reads, writes⟩)
    (busy : old ≠ .lockWriteWait) (relies : (⟨point, reads, writes⟩ : Local).Relies lock) :
    Valid tid lock (Function.update locals t ⟨point, reads, writes⟩) := by
  have sums := readers_update locals t ⟨point, reads, writes⟩
  rw [here] at sums
  rcases valid.fields with ⟨held, thread, fields, owner⟩
  refine valid.update t ?_ (Or.inl ⟨rfl, by rw [here]⟩) ?_ relies
  · refine ⟨held, thread, ?_, owner.kept (by rw [here])⟩
    rw [fields, Nat.add_right_cancel sums]
  · rintro ⟨holds, -⟩
    exact valid.excludes here busy holds

theorem Valid.enter (valid : Valid tid lock locals) (here : locals t = ⟨old, reads, writes⟩)
    (none : readers locals = 0) :
    Valid tid lock (Function.update locals t ⟨.idle, reads, writes⟩) := by
  have sums := readers_update locals t ⟨.idle, reads, writes⟩
  rw [here] at sums
  rcases valid.fields with ⟨held, thread, fields, owner⟩
  refine valid.update t ?_ (Or.inl ⟨rfl, by rw [here]⟩) ?_ trivial
  · refine ⟨held, thread, ?_, owner.kept (by rw [here])⟩
    rw [fields, Nat.add_right_cancel sums]
  · exact fun _ u _ => reads_of_no_readers none u

theorem Valid.readMore (valid : Valid tid lock locals) (here : locals t = ⟨old, reads, writes⟩)
    (busy : old ≠ .lockWriteWait) (none : ∀ u, u ≠ t → (locals u).writes = 0) :
    Valid tid (lock + lockReadVal) (Function.update locals t ⟨.idle, reads + 1, writes⟩) := by
  have sums := readers_update locals t ⟨.idle, reads + 1, writes⟩
  rw [here] at sums
  dsimp only at sums
  rcases valid.fields with ⟨held, thread, fields, owner⟩
  refine valid.update t ?_ (Or.inr fun u other => not_exclusive (none u other)) ?_ trivial
  · refine ⟨held, thread, ?_, owner.kept (by rw [here])⟩
    rw [fields, add_lockReadVal]
    congr 1
    omega
  · rintro ⟨holds, -⟩
    exact valid.excludes here busy holds

theorem Valid.readLess (valid : Valid tid lock locals) (here : locals t = ⟨old, reads + 1, writes⟩)
    (busy : old ≠ .lockWriteWait) :
    Valid tid (lock + ~~~(lockReadVal - 1)) (Function.update locals t ⟨.idle, reads, writes⟩) := by
  have sums := readers_update locals t ⟨.idle, reads, writes⟩
  rw [here] at sums
  dsimp only at sums
  rcases valid.fields with ⟨held, thread, fields, owner⟩
  refine valid.update t ?_ (Or.inr ?_) ?_ trivial
  · refine ⟨held, thread, ?_, owner.kept (by rw [here])⟩
    rw [fields, show readers locals =
      readers (Function.update locals t ⟨.idle, reads, writes⟩) + 1 by omega, add_not_lockReadVal]
  · intro u other exclusive
    have none := valid.excluded u exclusive t other.symm
    rw [here] at none
    cases none
  · rintro ⟨holds, -⟩
    exact valid.excludes here busy holds

theorem Valid.writeMore (valid : Valid tid lock locals) (here : locals t = ⟨old, reads, writes⟩)
    (busy : old ≠ .lockWriteWait) (holds : 0 < writes) :
    Valid tid (lock + lockWriteVal) (Function.update locals t ⟨.idle, reads, writes + 1⟩) := by
  have sums := readers_update locals t ⟨.idle, reads, writes + 1⟩
  rw [here] at sums
  rcases valid.fields with ⟨held, thread, fields, owner⟩
  rcases owner.of_holds (show 0 < (locals t).writes by rw [here]; exact holds) with ⟨rfl, rfl, none⟩
  refine valid.update t ?_ (Or.inr fun u other => not_exclusive (none u other)) ?_ trivial
  · refine ⟨_, _, ?_, Owner.updated (Nat.succ_pos _) none⟩
    rw [fields, add_lockWriteVal, Nat.add_right_cancel sums, here]
  · rintro -
    exact valid.excludes here busy holds

/-- A write hold less. With the last one the thread is taken out of the word. -/
theorem Valid.writeLess (valid : Valid tid lock locals) (bounded : Bounded lock locals)
    (ids : Ids tid) (here : locals t = ⟨old, reads, writes + 1⟩) (busy : old ≠ .lockWriteWait) :
    Valid tid (if lock - lockWriteVal &&& lockWriteMask = 0
        then lock - lockWriteVal &&& lockReadMask else lock - lockWriteVal)
      (Function.update locals t ⟨.idle, reads, writes⟩) := by
  have sums := readers_update locals t ⟨.idle, reads, writes⟩
  have small := bounded.2 t
  rw [here] at sums small
  dsimp only at small
  rcases valid.fields with ⟨held, thread, fields, owner⟩
  rcases owner.of_holds (show 0 < (locals t).writes by rw [here]; exact Nat.succ_pos _) with
    ⟨rfl, rfl, none⟩
  rw [here] at fields
  have less : lock - lockWriteVal = word (readers locals) writes (tid t) := by
    rw [fields, sub_lockWriteVal]
  have fits : Fits (readers locals) writes (tid t) := ⟨bounded.1, by omega, ids.small t⟩
  have zero : lock - lockWriteVal &&& lockWriteMask = 0 ↔ writes = 0 := by
    rw [less, and_lockWriteMask fits]
    constructor
    · intro nothing
      exact (word_inj fits.only_writes Fits.none (nothing.trans zero_eq_word)).2.1
    · intro nothing
      rw [nothing]
      rfl
  refine valid.update t ?_ (Or.inr fun u other => not_exclusive (none u other)) ?_ trivial
  · rw [Nat.add_right_cancel sums]
    split
    · rename_i last
      refine ⟨0, 0, ?_, Owner.emptied (zero.mp last) none⟩
      rw [less, and_lockReadMask fits]
    · rename_i more
      exact ⟨_, _, less, Owner.updated (Nat.pos_of_ne_zero fun last => more (zero.mpr last)) none⟩
  · rintro -
    exact valid.excludes here busy (Nat.succ_pos _)

theorem Valid.swapRead (valid : Valid tid lock locals) (bounded : Bounded lock locals)
    (ids : Ids tid) {val : Word} (here : locals t = ⟨old, reads, writes⟩)
    (busy : old ≠ .lockWriteWait) (same : lock = val &&& lockReadMask) :
    Valid tid ((val &&& lockReadMask) + lockReadVal)
      (Function.update locals t ⟨.idle, reads + 1, writes⟩) := by
  rcases valid.free bounded ids (by rw [same]; exact masked_thread val) with ⟨free, -⟩
  rw [← same]
  exact valid.readMore here busy fun u _ => free u

/-- A swap that puts a writer into a word in which there are only readers. -/
theorem Valid.swapWrite (valid : Valid tid lock locals) (bounded : Bounded lock locals)
    (ids : Ids tid) {tmp : Word} (here : locals t = ⟨old, reads, writes⟩)
    (masked : tmp &&& lockThreadMask = 0) (same : lock = tmp)
    (alone : point ≠ .lockWriteWait → ∀ u, u ≠ t → (locals u).reads = 0)
    (relies : ∀ next, (⟨point, reads, writes + 1⟩ : Local).Relies next) :
    Valid tid (tmp ||| (word 0 0 (tid t) ||| lockWriteVal))
      (Function.update locals t ⟨point, reads, writes + 1⟩) := by
  rcases valid.free bounded ids (by rw [same]; exact masked) with ⟨free, fields⟩
  have none := free t
  have sums := readers_update locals t ⟨point, reads, writes + 1⟩
  rw [here] at none sums
  dsimp only at none
  rw [← same, fields, or_announced bounded.1 (ids.small t)]
  refine valid.update t ?_ (Or.inr fun u _ => not_exclusive (free u)) ?_ (relies _)
  · refine ⟨_, _, ?_, Owner.updated (Nat.succ_pos _) fun u _ => free u⟩
    rw [Nat.add_right_cancel sums, none]
  · rintro ⟨-, there⟩
    exact alone there

theorem Valid.look (valid : Valid tid lock locals) (bounded : Bounded lock locals) (ids : Ids tid)
    (here : locals t = ⟨old, reads, writes⟩) (busy : old ≠ .lockWriteWait) {again other : Point}
    (mine : 0 < writes → (⟨again, reads, writes⟩ : Local).Relies lock)
    (foreign : ¬0 < writes → (⟨other, reads, writes⟩ : Local).Relies lock) :
    Valid tid lock (Function.update locals t
      (if lock &&& lockThreadMask = word 0 0 (tid t) then ⟨again, reads, writes⟩
        else ⟨other, reads, writes⟩)) := by
  have own := valid.own bounded ids t
  rw [here] at own
  split
  · rename_i same
    exact valid.stay here busy (mine (own.mp same))
  · rename_i differ
    exact valid.stay here busy (foreign fun holds => differ (own.mpr holds))

/-- A thread tries to put a reader into the word, and goes on from `fails` if it has changed. -/
theorem Valid.trySwapRead (valid : Valid tid lock locals) (bounded : Bounded lock locals)
    (ids : Ids tid) (val : Word) (here : locals t = ⟨old, reads, writes⟩)
    (busy : old ≠ .lockWriteWait) {fails : Point}
    (relies : (⟨fails, reads, writes⟩ : Local).Relies lock) :
    Valid tid (if lock = val &&& lockReadMask then (val &&& lockReadMask) + lockReadVal else lock)
      (Function.update locals t (if lock = val &&& lockReadMask then ⟨.idle, reads + 1, writes⟩
        else ⟨fails, reads, writes⟩)) := by
  split
  · rename_i swapped
    exact valid.swapRead bounded ids here busy swapped
  · exact valid.stay here busy relies

theorem Valid.advance (valid : Valid tid lock locals) (bounded : Bounded lock locals)
    (ids : Ids tid) (t : ι) :
    Valid tid (advance (word 0 0 (tid t)) lock (locals t)).1
      (Function.update locals t (advance (word 0 0 (tid t)) lock (locals t)).2) := by
  have relies := valid.relies t
  have others := fun holds u other => @Valid.others _ _ _ t _ _ valid holds u other
  rcases here : locals t with ⟨point, reads, writes⟩
  have unmoved : Function.update locals t ⟨point, reads, writes⟩ = locals := by
    rw [← here]
    exact Function.update_eq_self t locals
  rw [here] at relies others
  cases point with
  | idle =>
      rw [Spinlock.advance, unmoved]
      exact valid
  | lockWrite =>
      apply valid.look bounded ids here nofun id
      intro none
      exact Nat.eq_zero_of_not_pos fun some => none (relies some)
  | lockWriteAgain => exact valid.writeMore here nofun relies
  | lockWriteLoop val =>
      rw [Spinlock.advance]
      dsimp only [compareExchange]
      split
      · rename_i swapped
        -- there may be readers still, for which the thread waits
        apply valid.swapWrite bounded ids here (masked_thread val) swapped
        · exact fun other => absurd rfl other
        · exact fun _ => ⟨Nat.succ_pos _, relies⟩
      · exact valid.stay here nofun relies
  | lockWriteWait =>
      rw [Spinlock.advance]
      dsimp only
      split
      · rename_i gone
        exact valid.enter here ((valid.no_readers bounded ids).mp gone)
      · rw [unmoved]
        exact valid
  | lockRead => exact valid.look bounded ids here nofun id fun _ => trivial
  | lockReadAgain => exact valid.readMore here nofun (others relies)
  | lockReadLoop val => exact valid.trySwapRead bounded ids val here nofun trivial
  | tryLockRead => exact valid.look bounded ids here nofun id fun _ => trivial
  | tryLockReadAgain => exact valid.readMore here nofun (others relies)
  | tryLockReadSwap val => exact valid.trySwapRead bounded ids val here nofun trivial
  | tryLockWrite => exact valid.look bounded ids here nofun id fun _ => trivial
  | tryLockWriteAgain => exact valid.writeMore here nofun relies
  | tryLockWriteSwap =>
      rw [Spinlock.advance]
      dsimp only [compareExchange]
      split
      · rename_i swapped
        -- an empty word has no readers either
        have gone := (valid.no_readers bounded ids).mp (by rw [swapped]; rfl)
        have entered := @Valid.swapWrite _ _ _ t _ _ _ _ .idle _ _ valid bounded ids 0#64 here rfl
          swapped (fun _ u _ => reads_of_no_readers gone u) fun _ => trivial
        rw [BitVec.zero_or] at entered
        exact entered
      · exact valid.stay here nofun trivial
  | unlockWrite =>
      have holds : 0 < (locals t).writes := by
        rw [here]
        exact relies
      rw [Spinlock.advance]
      dsimp only
      split
      · rename_i wrong
        rcases wrong with foreign | none
        · exact absurd ((valid.own bounded ids t).mpr holds) foreign
        · exact absurd none (valid.written bounded ids holds)
      · exact valid.stay here nofun ⟨relies, rfl⟩
  | unlockWriteSwap tmp =>
      -- nobody has changed the word since the thread has read it
      rcases relies with ⟨holds, rfl⟩
      rcases writes with _ | writes
      · cases holds
      · rw [Spinlock.advance]
        dsimp only [compareExchange]
        rw [if_pos rfl]
        exact valid.writeLess bounded ids here nofun
  | unlockRead =>
      rw [Spinlock.advance]
      dsimp only
      split
      · rename_i none
        have gone := reads_of_no_readers ((valid.no_readers bounded ids).mp none) t
        rw [here] at gone
        exact absurd gone (Nat.ne_of_gt relies)
      · exact valid.stay here nofun relies
  | unlockReadAdd =>
      rcases reads with _ | reads
      · cases relies
      · exact valid.readLess here nofun
  | stopped => exact relies.elim

theorem Valid.move (valid : Valid tid lock locals) (bounded : Bounded lock locals) (ids : Ids tid)
    (moves : Move (word 0 0 (tid t)) lock (locals t) next self) :
    Valid tid next (Function.update locals t self) := by
  cases moves with
  | call op idle allowed =>
      have here : locals t = ⟨.idle, (locals t).reads, (locals t).writes⟩ := by
        rw [← idle]
      apply valid.stay here (by simp)
      cases op with
      | lockWrite => exact allowed
      | lockRead => trivial
      | tryLockRead => trivial
      | tryLockWrite => trivial
      | unlockWrite => exact allowed
      | unlockRead => exact allowed
  | access => exact valid.advance bounded ids t

/-! ### Every run -/

/-- All threads at work on a lock that starts free. -/
abbrev Run (tid : ι → ℕ) : Word → (ι → Local) → Prop :=
  Interleaved (fun t => Move (word 0 0 (tid t))) Bounded 0 fun _ => {}

theorem Run.bounded (run : Run tid lock locals) : Bounded lock locals :=
  run.met_of_start Bounded.start

theorem Run.valid (ids : Ids tid) (run : Run tid lock locals) : Valid tid lock locals := by
  have both : Valid tid lock locals ∧ Bounded lock locals := by
    apply run.invariant ⟨Valid.start tid, Bounded.start⟩
    intro t lock next locals self before moves bounded
    exact ⟨before.1.move before.2 ids moves, bounded⟩
  exact both.1

/-- The lock is safe in every run. -/
theorem safe_of_run (ids : Ids tid) (run : Run tid lock locals) : Safe tid lock locals :=
  (run.valid ids).safe run.bounded ids

/-- One thread takes the lock for writing and the other one begins to read. -/
theorem safe_of_run_entered : Safe (fun t : Fin 2 => t.val + 1) (word 0 1 1)
    fun t => if t = 0 then ⟨.idle, 0, 1⟩ else ⟨.lockRead, 0, 0⟩ := by
  have ids : Ids fun t : Fin 2 => t.val + 1 := ⟨by decide, by decide, by decide⟩
  have called := @Interleaved.start (Fin 2) _ _ _ (fun t => Move (word 0 0 (t.val + 1))) Bounded 0
    (fun _ => {}) |>.step 0 (.call .tryLockWrite rfl trivial) (by decide)
  have looked := called.step 0 .access (by decide)
  have entered := looked.step 0 .access (by decide)
  have reads := entered.step 1 (.call .lockRead rfl trivial) (by decide)
  convert safe_of_run ids reads using 1
  · rfl
  · funext t
    match t with
    | 0 => rfl
    | 1 => rfl

end

end Imconee.Tools.Spinlock
