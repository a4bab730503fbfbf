import Imconee.Tools.ByteQueue

/-!
# `chunk_buffer::assign`

New content for a buffer, in the chunks that it has already. Those behind the last one that is
needed are freed. If the first one is enough, `last` is not set, and goes on pointing to one
that has been freed.
-/

set_option autoImplicit false

namespace Imconee.Tools

open Imconee.Lib

namespace ChunkBuffer

variable {size : ℕ} {buffer : ChunkBuffer size} {data : List UInt8}

/-! ### What `assign` makes of the chain -/

/-- What is left of the loop of `assign` that begins with a chain: the addresses in it are old
ones or new ones. -/
structure Rebuilt (buffer final : ChunkBuffer size) (chain rebuilt : List Chunk)
    (data : List UInt8) : Prop where
  wellFormed : ({ final with chain := rebuilt } : ChunkBuffer size).WellFormed
  content : ({ final with chain := rebuilt } : ChunkBuffer size).content = data
  firstSkip : final.firstSkip = 0
  nonempty : rebuilt ≠ []
  fresher : buffer.fresh ≤ final.fresh
  origin : ∀ chunk ∈ rebuilt,
    chunk.address ∈ chain.map Chunk.address ∨ buffer.fresh ≤ chunk.address

/-- A whole chunk in front of what has been rebuilt -/
theorem Rebuilt.cons (positive : 0 < size) {buffer after final : ChunkBuffer size}
    {chunk : Chunk} {next chain rebuilt : List Chunk} {data rest : List UInt8}
    (behind : Rebuilt after final chain rebuilt rest) (fresher : buffer.fresh ≤ after.fresh)
    (inside : ∀ other ∈ chain, other.address ∈ next.map Chunk.address ∨
      buffer.fresh ≤ other.address)
    (apart : chunk.address ∉ next.map Chunk.address) (addressLt : chunk.address < buffer.fresh)
    (whole : data.length = size) :
    Rebuilt buffer final (chunk :: next) (chunk.copy 0 data :: rebuilt) (data ++ rest) := by
  have written : (chunk.copy 0 data).data.read 0 size = data := by
    have read := Memory.read_write chunk.data 0 data
    rwa [whole] at read
  have origin : ∀ other ∈ rebuilt, other.address ∈ next.map Chunk.address ∨
      buffer.fresh ≤ other.address := by
    intro other mem
    rcases behind.origin other mem with old | new
    · rcases List.mem_map.mp old with ⟨source, sourceMem, same⟩
      rw [← same]
      exact inside source sourceMem
    · exact Or.inr (Nat.le_trans fresher new)
  have notIn : (chunk.copy 0 data).address ∉ rebuilt.map Chunk.address := by
    intro mem
    rcases List.mem_map.mp mem with ⟨other, otherMem, same⟩
    rw [Chunk.address_copy] at same
    rcases origin other otherMem with old | new
    · exact apart (same ▸ old)
    · omega
  have final_le := Nat.le_trans fresher behind.fresher
  have front := @wellFormed_cons _ _ positive behind.wellFormed behind.nonempty behind.firstSkip
    (chunk.copy 0 data) (Nat.lt_of_lt_of_le addressLt final_le) notIn
  constructor
  · exact front.1
  · rw [front.2, behind.content, written]
  · exact behind.firstSkip
  · simp
  · exact final_le
  · intro other mem
    rcases List.mem_cons.mp mem with rfl | old
    · simp
    · rcases origin other old with old | new
      · exact Or.inl (List.mem_cons_of_mem _ old)
      · exact Or.inr new

/-- The loop of `assign` from a chunk on, with those that are behind it. -/
theorem rebuilt_assignLoop (positive : 0 < size) {fuel : ℕ} {buffer final : ChunkBuffer size}
    {chunk : Chunk} {next rebuilt : List Chunk} {data : List UInt8}
    (loop : assignLoop fuel buffer chunk next data = (final, rebuilt)) (nonempty : data ≠ [])
    (rounds : data.length ≤ fuel) (last : buffer.last = some chunk.address ∨ size < data.length)
    (skip : buffer.firstSkip = 0) (nodup : ((chunk :: next).map Chunk.address).Nodup)
    (addressLt : ∀ other ∈ chunk :: next, other.address < buffer.fresh) :
    Rebuilt buffer final (chunk :: next) rebuilt data := by
  induction fuel generalizing buffer chunk next data final rebuilt with
  | zero => exact absurd (List.length_eq_zero_iff.mp (by omega)) nonempty
  | succ fuel ih =>
      have dataPos : 0 < data.length := List.length_pos_iff.mpr nonempty
      rw [List.map_cons, List.nodup_cons] at nodup
      have chunkLt := addressLt chunk List.mem_cons_self
      by_cases more : 0 < (data.drop (min size data.length)).length
      · have large : size < data.length := by
          rw [List.length_drop] at more
          omega
        have whole : min size data.length = size := Nat.min_eq_left (Nat.le_of_lt large)
        have taken : (data.take size).length = size := by simp [Nat.le_of_lt large]
        have rounds' : (data.drop size).length ≤ fuel := by
          rw [List.length_drop]
          omega
        rw [whole] at more
        have rest : data.drop size ≠ [] := List.length_pos_iff.mp more
        rw [← List.take_append_drop size data]
        simp only [assignLoop, whole, more, if_true] at loop
        cases next with
        | nil =>
            simp only [Prod.mk.injEq] at loop
            generalize run : assignLoop fuel _ _ _ _ = inner at loop
            rcases loop with ⟨rfl, rfl⟩
            have behind := ih run rest rounds' (Or.inl rfl) skip (by simp) (by
              intro other mem
              cases List.mem_singleton.mp mem
              exact Nat.lt_succ_self _)
            exact behind.cons positive (Nat.le_succ _)
              (by simp [newChunk]) nodup.1 chunkLt taken
        | cons following next =>
            simp only [Prod.mk.injEq] at loop
            generalize run : assignLoop fuel _ _ _ _ = inner at loop
            rcases loop with ⟨rfl, rfl⟩
            have behind := ih run rest rounds' (Or.inl rfl) skip nodup.2
              fun other mem => addressLt other (List.mem_cons_of_mem _ mem)
            exact behind.cons positive (Nat.le_refl _)
              (fun other mem => Or.inl (List.mem_map_of_mem mem)) nodup.1 chunkLt taken
      · have short : data.length ≤ size := by
          rw [List.length_drop] at more
          omega
        have here := last.resolve_right (Nat.not_lt.mpr short)
        have all : min size data.length = data.length := Nat.min_eq_right short
        simp only [assignLoop, more, if_false, Prod.mk.injEq] at loop
        rcases loop with ⟨rfl, rfl⟩
        constructor
        · refine ⟨by simpa using here, by simp, by simpa using chunkLt, ?_, ?_⟩
          · simp only
            omega
          · simp only [SkipFits, skip]
            omega
        · simp [content, skip, filled, here, all, Chunk.copy, Memory.read_write]
        · exact skip
        · simp
        · exact Nat.le_refl _
        · simp

/-- The chunks that are needed reach behind the first one, or there is no other one. -/
def Fits (buffer : ChunkBuffer size) (data : List UInt8) : Prop :=
  buffer.chain.length ≤ 1 ∨ data = [] ∨ size < data.length

theorem assign_spec (positive : 0 < size) (wellFormed : buffer.WellFormed)
    (fits : buffer.Fits data) :
    (buffer.assign data).WellFormed ∧ (buffer.assign data).content = data ∧
      (buffer.assign data).firstSkip = 0 := by
  by_cases none : data = []
  · refine ⟨?_, by simp [assign, none, content], by simp [assign, none]⟩
    constructor <;> simp [assign, none, SkipFits]
  · have length : data.length ≠ 0 := by simpa using none
    have skip := wellFormed.skipFits
    have last := wellFormed.last_eq
    have nodup := wellFormed.nodup
    have addressLt := wellFormed.address_lt
    rcases chain : buffer.chain with _ | ⟨first, next⟩
    · rw [chain] at skip
      simp only [assign, length, if_false, chain]
      generalize run : assignLoop _ _ _ _ _ = result
      have rebuilt := rebuilt_assignLoop positive run none (Nat.le_succ _) (Or.inl rfl) skip
        (by simp) (by
          intro other mem
          cases List.mem_singleton.mp mem
          exact Nat.lt_succ_self _)
      exact ⟨rebuilt.wellFormed, rebuilt.content, rebuilt.firstSkip⟩
    · rw [chain] at last nodup addressLt
      have here : buffer.last = some first.address ∨ size < data.length := by
        rcases fits with single | nothing | large
        · have alone : next = [] := by simpa [chain] using single
          exact Or.inl (by simp [last, alone])
        · exact absurd nothing none
        · exact Or.inr large
      simp only [assign, length, if_false, chain]
      generalize run : assignLoop _ _ _ _ _ = result
      have rebuilt := rebuilt_assignLoop positive run none (Nat.le_succ _) here rfl nodup addressLt
      exact ⟨rebuilt.wellFormed, rebuilt.content, rebuilt.firstSkip⟩

/-! ### What can be seen of a buffer -/

/-- Nothing that is asked of the buffers tells them apart. -/
structure Alike (buffer other : ChunkBuffer size) : Prop where
  get1stChunk : buffer.get1stChunk = other.get1stChunk
  peek : ∀ sv, (buffer.peek sv).1 = (other.peek sv).1
  peekAll : buffer.peekAll.1 = other.peekAll.1
  isEmpty : buffer.isEmpty = other.isEmpty
  enough : ∀ sz, buffer.enough sz = other.enough sz
  enoughFor : ∀ sz, buffer.enoughFor sz = other.enoughFor sz

/-- `last` designates the last chunk that is still in the chain. -/
def LastInChain (buffer : ChunkBuffer size) : Prop :=
  buffer.last = buffer.chain.getLast?.map Chunk.address

/-- After `assign` the buffer is like a new one to which the data has been appended. -/
def Replaces (buffer : ChunkBuffer size) (data : List UInt8) : Prop :=
  (buffer.assign data).Alike (({} : ChunkBuffer size).append data) ∧
    (buffer.assign data).peekAll.1 = data ∧ (buffer.assign data).LastInChain

theorem get1stChunk_of_unskipped (wellFormed : buffer.WellFormed) (skip : buffer.firstSkip = 0) :
    buffer.get1stChunk = buffer.content.take size := by
  have last := wellFormed.last_eq
  have nodup := wellFormed.nodup
  have lastSizeLe := wellFormed.lastSize_le
  rcases chain : buffer.chain with _ | ⟨first, _ | ⟨second, next⟩⟩
  · simp [get1stChunk, content, chain]
  · rw [chain] at last
    simp [get1stChunk, content, chain, skip, filled_single last, Memory.take_read,
      Nat.min_eq_right lastSizeLe]
  · rw [chain] at last nodup
    have whole : (first.data.read 0 size).length = size := Memory.length_read ..
    simp only [get1stChunk, content, chain, skip, filled_first last nodup, List.flatMap_cons,
      List.drop_zero, Nat.sub_zero]
    rw [List.take_append_of_le_length (Nat.le_of_eq whole.symm),
      List.take_of_length_le (Nat.le_of_eq whole)]

/-- Buffers that hold the same and of which nothing has been skipped are alike. -/
theorem alike_of_content (wellFormed : buffer.WellFormed) {other : ChunkBuffer size}
    (wellFormedOther : other.WellFormed) (same : buffer.content = other.content)
    (skip : buffer.firstSkip = 0) (skipOther : other.firstSkip = 0) : buffer.Alike other := by
  constructor
  · rw [get1stChunk_of_unskipped wellFormed skip, same,
      get1stChunk_of_unskipped wellFormedOther skipOther]
  · intro sv
    rw [(peek_spec wellFormed sv).1, same, (peek_spec wellFormedOther sv).1]
  · rw [(peekAll_spec wellFormed).1, same, (peekAll_spec wellFormedOther).1]
  · apply Bool.eq_iff_iff.mpr
    simp only [isEmpty_iff wellFormed, isEmpty_iff wellFormedOther, same]
  · intro sz
    apply Bool.eq_iff_iff.mpr
    simp only [enough_iff wellFormed, enough_iff wellFormedOther, same]
  · intro sz
    apply Bool.eq_iff_iff.mpr
    simp only [enoughFor_iff wellFormed, enoughFor_iff wellFormedOther, same]

theorem firstSkip_appendRound (buffer : ChunkBuffer size) (data : List UInt8) :
    (buffer.appendRound data).firstSkip = buffer.firstSkip := by
  simp only [appendRound]
  split <;> rfl

theorem firstSkip_append (buffer : ChunkBuffer size) (data : List UInt8) :
    (buffer.append data).firstSkip = buffer.firstSkip := by
  have loop : ∀ fuel (buffer : ChunkBuffer size) data,
      (appendLoop fuel buffer data).firstSkip = buffer.firstSkip := by
    intro fuel
    induction fuel with
    | zero => intro buffer data; rfl
    | succ fuel ih =>
        intro buffer data
        simp only [appendLoop]
        split
        · simp only [ih, firstSkip_appendRound]
        · rfl
  simp only [append, loop]
  split <;> rfl

/-- `assign` replaces the content if and only if the data fits the chain so. -/
theorem replaces_iff (positive : 0 < size) (wellFormed : buffer.WellFormed) :
    buffer.Replaces data ↔ buffer.Fits data := by
  constructor
  · rintro ⟨-, -, last⟩
    by_contra misfit
    simp only [Fits, not_or, Nat.not_le, Nat.not_lt] at misfit
    rcases misfit with ⟨several, some, short⟩
    have length : data.length ≠ 0 := by simpa using some
    have before := wellFormed.last_eq
    have nodup := wellFormed.nodup
    rcases chain : buffer.chain with _ | ⟨first, _ | ⟨second, next⟩⟩
    · simp [chain] at several
    · simp [chain] at several
    · rw [chain] at before nodup
      have all : min size data.length = data.length := Nat.min_eq_right short
      have one : buffer.assign data = { buffer with
          chain := [first.copy 0 data]
          firstSkip := 0
          lastSize := data.length } := by
        simp [assign, length, chain, assignLoop, all]
      simp only [LastInChain, one, List.getLast?_singleton, Option.map_some,
        Chunk.address_copy] at last
      exact last_ne_first before nodup last
  · intro fits
    rcases assign_spec positive wellFormed fits with ⟨assigned, content, skip⟩
    rcases append_spec positive wellFormed_empty data with ⟨appended, appendedContent⟩
    rw [content_empty, List.nil_append] at appendedContent
    refine ⟨?_, ?_, assigned.last_eq⟩
    · exact alike_of_content assigned appended (content.trans appendedContent.symm) skip
        (firstSkip_append _ _)
    · rw [(peekAll_spec assigned).1, content]

/-! ### Runs -/

/-- The calls on a `chunk_buffer`, and those of `assign`. -/
inductive Call where
  | op (op : Op)
  | assign (data : List UInt8)

/-- Each `skip` of a run is one of a content that is there. -/
def Admitted : ChunkBuffer size → List Call → Prop
  | _, [] => True
  | buffer, .op op :: calls => buffer.Allows op ∧ Admitted (buffer.step op) calls
  | buffer, .assign data :: calls => Admitted (buffer.assign data) calls

/-- Each `assign` of a run replaces the content. -/
def AlwaysReplaces : ChunkBuffer size → List Call → Prop
  | _, [] => True
  | buffer, .op op :: calls => AlwaysReplaces (buffer.step op) calls
  | buffer, .assign data :: calls =>
      buffer.Replaces data ∧ AlwaysReplaces (buffer.assign data) calls

/-- The data of each `assign` of a run fits the chain. -/
def AlwaysFits : ChunkBuffer size → List Call → Prop
  | _, [] => True
  | buffer, .op op :: calls => AlwaysFits (buffer.step op) calls
  | buffer, .assign data :: calls => buffer.Fits data ∧ AlwaysFits (buffer.assign data) calls

theorem alwaysReplaces_iff (positive : 0 < size) {calls : List Call}
    (wellFormed : buffer.WellFormed) (admitted : Admitted buffer calls) :
    AlwaysReplaces buffer calls ↔ AlwaysFits buffer calls := by
  induction calls generalizing buffer with
  | nil => exact Iff.rfl
  | cons next calls ih =>
      cases next with
      | op op =>
          have stepped : (buffer.step op).WellFormed :=
            (Represents.step positive ⟨wellFormed, rfl⟩ admitted.1).wellFormed
          exact ih stepped admitted.2
      | assign data =>
          simp only [AlwaysReplaces, AlwaysFits, replaces_iff positive wellFormed]
          apply and_congr_right
          intro fits
          exact ih (assign_spec positive wellFormed fits).1 admitted

end ChunkBuffer

/-- In a run from an empty buffer each `assign` replaces the content if and only if none of
them keeps the first of several chunks alone. -/
theorem chunkBuffer_assign_iff {size : ℕ} (positive : 0 < size) {calls : List ChunkBuffer.Call}
    (admitted : ChunkBuffer.Admitted ({} : ChunkBuffer size) calls) :
    ChunkBuffer.AlwaysReplaces ({} : ChunkBuffer size) calls ↔
      ChunkBuffer.AlwaysFits ({} : ChunkBuffer size) calls :=
  ChunkBuffer.alwaysReplaces_iff positive ChunkBuffer.wellFormed_empty admitted

/-- Three bytes in place of three, which are in two chunks. -/
theorem chunkBuffer_assign_iff_three :
    ChunkBuffer.AlwaysReplaces ({} : ChunkBuffer 2)
      [.op (.append [1, 2, 3]), .assign [4, 5, 6]] := by
  apply (chunkBuffer_assign_iff (by decide) ?_).mpr
  · exact ⟨Or.inr (Or.inr (by decide)), trivial⟩
  · exact ⟨trivial, trivial⟩

/-- One byte in place of three: `get_1st_chunk` gives a byte of the old content with it. -/
theorem not_replaces_one :
    ChunkBuffer.Admitted ({} : ChunkBuffer 2) [.op (.append [1, 2, 3]), .assign [4]] ∧
      ((({} : ChunkBuffer 2).append [1, 2, 3]).assign [4]).get1stChunk = [4, 2] ∧
      ¬ChunkBuffer.AlwaysReplaces ({} : ChunkBuffer 2)
        [.op (.append [1, 2, 3]), .assign [4]] := by
  refine ⟨⟨trivial, trivial⟩, by decide, ?_⟩
  rintro ⟨⟨alike, -⟩, -⟩
  exact absurd alike.get1stChunk (by decide)

end Imconee.Tools
