import Imconee.Tools.CircularBuffer

/-!
# When a `circular_buffer` is full

There are three tests for it. They differ where the data begins at the second cell and ends
with the array: nothing more fits there, and `is_full` does not say so.
-/

set_option autoImplicit false

namespace Imconee.Tools.CircularBuffer

variable {size : ℕ}

/-- The calls that move the ends of the data. -/
inductive Move where
  | confirm (sz : ℕ)
  | peek (outsize : ℕ)
  | clear
  deriving DecidableEq

def move (buffer : CircularBuffer size) : Move → CircularBuffer size
  | .confirm sz => buffer.confirm sz
  | .peek outsize => (buffer.peek outsize).2
  | .clear => buffer.clear

/-- No more is confirmed than `get_1st_free` gives. -/
def Admits (buffer : CircularBuffer size) : Move → Prop
  | .confirm sz => sz ≤ buffer.get1stFree.2
  | _ => True

/-- Each call of a run is admitted. -/
def Admitted : CircularBuffer size → List Move → Prop
  | _, [] => True
  | buffer, next :: moves => buffer.Admits next ∧ Admitted (buffer.move next) moves

/-- The three tests say the same. -/
def TestsAgree (buffer : CircularBuffer size) : Prop :=
  (buffer.isFull = true ↔ buffer.getFreeSize = 0) ∧
    (buffer.getFreeSize = 0 ↔ buffer.get1stFree.2 = 0)

/-- So they do before and after each call of a run. -/
def AlwaysAgree : CircularBuffer size → List Move → Prop
  | buffer, [] => buffer.TestsAgree
  | buffer, next :: moves => buffer.TestsAgree ∧ AlwaysAgree (buffer.move next) moves

/-- The data begins at the second cell and ends with the array. -/
def Stranded (buffer : CircularBuffer size) : Prop := buffer.start = 1 ∧ buffer.stop = size

/-- A single byte is read from a full array, or the array is filled up behind one. -/
def Strands (buffer : CircularBuffer size) : Move → Prop
  | .confirm sz => buffer.start = 1 ∧ 1 ≤ buffer.stop ∧ buffer.stop + sz = size
  | .peek outsize => outsize = 1 ∧ buffer.start = 0 ∧ buffer.stop = size
  | .clear => False

/-- No call of a run does so. -/
def NeverStrands : CircularBuffer size → List Move → Prop
  | _, [] => True
  | buffer, next :: moves => ¬buffer.Strands next ∧ NeverStrands (buffer.move next) moves

variable {buffer : CircularBuffer size}

theorem testsAgree_iff (large : 1 < size) (wellFormed : buffer.WellFormed) :
    buffer.TestsAgree ↔ ¬buffer.Stranded := by
  have start_lt := wellFormed.start_lt
  have stop_le := wellFormed.stop_le
  simp only [TestsAgree, isFull, getFreeSize, get1stFree, Stranded, Bool.or_eq_true,
    Bool.and_eq_true, decide_eq_true_eq]
  by_cases flat : buffer.start ≤ buffer.stop
  · by_cases atEnd : size - buffer.stop = 0
    · rw [if_pos flat, if_pos flat, if_pos atEnd]
      dsimp only
      omega
    · rw [if_pos flat, if_pos flat, if_neg atEnd]
      dsimp only
      omega
  · rw [if_neg flat, if_neg flat]
    dsimp only
    omega

theorem wellFormed_move (wellFormed : buffer.WellFormed) {next : Move}
    (admits : buffer.Admits next) : (buffer.move next).WellFormed := by
  have start_lt := wellFormed.start_lt
  have stop_le := wellFormed.stop_le
  cases next with
  | confirm sz =>
      have most : (buffer.confirm sz).stop ≤ size := by
        simp only [Admits, get1stFree] at admits
        simp only [confirm]
        split at admits
        · rename_i flat
          rw [if_pos flat]
          split
          · dsimp only
            omega
          · split at admits
            · dsimp only at admits ⊢
              omega
            · dsimp only at admits ⊢
              omega
        · rename_i wrapped
          rw [if_neg wrapped]
          dsimp only at admits ⊢
          omega
      have same : (buffer.confirm sz).start = buffer.start := by
        simp only [confirm]
        split
        · split <;> rfl
        · rfl
      exact ⟨same ▸ start_lt, most⟩
  | peek outsize => exact (peek_spec wellFormed outsize).2.1
  | clear => exact wellFormed_clear (by omega)

/-- Where a call leaves the buffer stranded -/
theorem stranded_move_iff (large : 1 < size) (wellFormed : buffer.WellFormed)
    (free : ¬buffer.Stranded) {next : Move} (admits : buffer.Admits next) :
    (buffer.move next).Stranded ↔ buffer.Strands next := by
  have start_lt := wellFormed.start_lt
  have stop_le := wellFormed.stop_le
  simp only [Stranded] at free
  cases next with
  | confirm sz =>
      simp only [Admits, get1stFree] at admits
      simp only [move, confirm, Stranded, Strands]
      by_cases flat : buffer.start ≤ buffer.stop
      · by_cases fits : sz ≤ size - buffer.stop
        · simp only [flat, fits, if_true]
          omega
        · simp only [flat, fits, if_true, if_false] at admits ⊢
          split at admits
          · simp only at admits
            omega
          · simp only at admits
            omega
      · simp only [flat, if_false] at admits ⊢
        omega
  | peek outsize =>
      simp only [move, peek, Stranded, Strands]
      by_cases flat : buffer.start ≤ buffer.stop
      · simp only [flat, if_true]
        by_cases inside : outsize ≤ buffer.stop - buffer.start
        · simp only [inside, if_true]
          split
          · simp only [clear]
            omega
          · simp only
            omega
        · simp only [inside, if_false]
          split
          · simp only [clear]
            omega
          · simp only
            omega
      · simp only [flat, if_false]
        split
        · simp only
          split <;> omega
        · split
          · simp only
            omega
          · simp only
            omega
  | clear => simp [move, clear, Stranded, Strands]

theorem alwaysAgree_iff (large : 1 < size) {moves : List Move} (wellFormed : buffer.WellFormed)
    (free : ¬buffer.Stranded) (admitted : Admitted buffer moves) :
    AlwaysAgree buffer moves ↔ NeverStrands buffer moves := by
  induction moves generalizing buffer with
  | nil => exact iff_of_true ((testsAgree_iff large wellFormed).mpr free) trivial
  | cons next moves ih =>
      rcases admitted with ⟨admits, rest⟩
      have after := wellFormed_move wellFormed admits
      have here := (testsAgree_iff large wellFormed).mpr free
      have strands := stranded_move_iff large wellFormed free admits
      by_cases stays : buffer.Strands next
      · -- the tests differ right behind the call
        refine iff_of_false (fun agree => ?_) fun never => never.1 stays
        have first : (buffer.move next).TestsAgree := by
          have later := agree.2
          cases moves with
          | nil => exact later
          | cons _ _ => exact later.1
        exact (testsAgree_iff large after).mp first (strands.mpr stays)
      · have still : ¬(buffer.move next).Stranded := fun stranded => stays (strands.mp stranded)
        simp only [AlwaysAgree, NeverStrands, ih after still rest]
        exact ⟨fun agree => ⟨stays, agree.2⟩, fun never => ⟨here, never.2⟩⟩

/-- In a run from a new buffer the three tests agree all the time if and only if no call takes
a single byte from the full array, or fills up the array behind one that has been taken. -/
theorem fullness_iff (large : 1 < size) {moves : List Move}
    (admitted : Admitted ({} : CircularBuffer size) moves) :
    AlwaysAgree ({} : CircularBuffer size) moves ↔
      NeverStrands ({} : CircularBuffer size) moves := by
  apply alwaysAgree_iff large (wellFormed_empty (by omega)) _ admitted
  simp [Stranded]

/-- Two bytes of four are taken. -/
theorem fullness_iff_two :
    AlwaysAgree ({} : CircularBuffer 4) [.confirm 4, .peek 2] := by
  apply (fullness_iff (by decide) _).mpr
  · simp [NeverStrands, Strands, move, confirm]
  · simp [Admitted, Admits, get1stFree]

/-- One byte of four is taken: nothing more fits, and the buffer is not full. -/
theorem not_alwaysAgree_one :
    Admitted ({} : CircularBuffer 4) [.confirm 4, .peek 1] ∧
      ¬AlwaysAgree ({} : CircularBuffer 4) [.confirm 4, .peek 1] := by
  constructor
  · simp [Admitted, Admits, get1stFree]
  · simp [AlwaysAgree, TestsAgree, move, confirm, peek, isFull, getFreeSize]

end Imconee.Tools.CircularBuffer
