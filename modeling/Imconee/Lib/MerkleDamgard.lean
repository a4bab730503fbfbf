import Imconee.Lib.Absorb

/-!
# Merkle–Damgård

A hash function takes a message in blocks. Behind the message stand a mark, as many blanks as
are needed, and the length of the message, so that the whole is a number of blocks. How the
message arrived plays no part in this: what counts is the state behind the blocks that are
full, and what is left over.
-/

set_option autoImplicit false

namespace Imconee.Lib

universe u v w

@[ext]
structure MerkleDamgard (σ : Type v) (α : Type u) (β : Type w) where
  size : ℕ
  init : σ
  compress : σ → List α → σ
  mark : α
  blank : α
  /-- What is written at the end for a message of so many items -/
  trailer : ℕ → List α
  output : σ → β

namespace MerkleDamgard

variable {σ : Type v} {α : Type u} {β : Type w} (self : MerkleDamgard σ α β)

/-- How many blanks stand between the mark and the trailer -/
def blanks (length : ℕ) : ℕ :=
  (self.size - (length + 1 + (self.trailer length).length) % self.size) % self.size

def padding (length : ℕ) : List α :=
  self.mark :: List.replicate (self.blanks length) self.blank ++ self.trailer length

def hash (message : List α) : β :=
  self.output ((blocksOf self.size 0 (message ++ self.padding message.length)).foldl
    self.compress self.init)

variable {self}

/-- The blanks fill a block if they are fewer than a block. -/
theorem blanks_eq {length count : ℕ} (few : count < self.size)
    (whole : (length + 1 + (self.trailer length).length + count) % self.size = 0) :
    self.blanks length = count := by
  have positive : 0 < self.size := Nat.zero_lt_of_lt few
  simp only [blanks]
  generalize length + 1 + (self.trailer length).length = used at whole ⊢
  have below := Nat.mod_lt used positive
  have sum : (used % self.size + count) % self.size = 0 := by
    simpa only [Nat.add_mod, Nat.mod_mod] using whole
  rcases Nat.lt_or_ge (used % self.size + count) self.size with less | enough
  · have none : used % self.size + count = 0 := by
      simpa only [Nat.mod_eq_of_lt less] using sum
    have aligned : used % self.size = 0 := by omega
    simp only [aligned, Nat.sub_zero, Nat.mod_self]
    omega
  · have exact : used % self.size + count - self.size = 0 := by
      have again := sum
      rw [Nat.mod_eq_sub_mod enough, Nat.mod_eq_of_lt (by omega)] at again
      exact again
    have difference : self.size - used % self.size = count := by omega
    simp only [difference, Nat.mod_eq_of_lt few]

/-- The last blocks are what is left over of the message and the padding. -/
theorem hash_eq (positive : 0 < self.size) {message : List α} {last : List (List α)}
    (whole : last.flatten = restOf self.size 0 message ++ self.padding message.length)
    (full : ∀ block ∈ last, block.length = self.size) :
    self.hash message = self.output (last.foldl self.compress
      ((blocksOf self.size 0 message).foldl self.compress self.init)) := by
  have message_cut := cut_blocksOf 0 positive message
  have padded : message ++ self.padding message.length =
      (blocksOf self.size 0 message ++ last).flatten ++ [] := by
    calc message ++ self.padding message.length
        = (blocksOf self.size 0 message).flatten ++ restOf self.size 0 message ++
            self.padding message.length := by rw [message_cut.whole]
      _ = (blocksOf self.size 0 message ++ last).flatten ++ [] := by
            simp only [List.flatten_append, whole, List.append_assoc, List.append_nil]
  have cut : Cut self.size 0 (message ++ self.padding message.length)
      (blocksOf self.size 0 message ++ last) [] := by
    refine ⟨padded.symm, ?_, positive, Or.inr (Nat.zero_le _)⟩
    intro block mem
    rcases List.mem_append.mp mem with mem | mem
    · exact message_cut.full block mem
    · exact full block mem
  simp only [hash, (cut.blocksOf_eq positive).1, List.foldl_append]

end MerkleDamgard

end Imconee.Lib
