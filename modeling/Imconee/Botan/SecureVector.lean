import Mathlib.Algebra.Group.Nat.Defs
import Mathlib.Data.List.Basic
import Mathlib.Data.List.TakeDrop
import Mathlib.Logic.Function.Basic
import Mathlib.Tactic.Common

/-!
# `secure_vector<uint8_t>`

The replacement of a `std::vector` by which the ciphers keep their bytes, beside the vector
that it stands for. What the allocator returns holds bytes of any kind; `rs` keeps those of
the old block. Both vectors are kept under names and run through the same operations. Where
an operation exposes bytes that nobody has written, a vector has zeros and the replacement
what has been there before.
-/

set_option autoImplicit false

namespace Imconee.Botan

/-- The bytes that happen to be at each offset of a new block. -/
abbrev Junk := ℕ → UInt8

/-- `ma::ma` -/
def ma (junk : Junk) (size : ℕ) : List UInt8 := (List.range size).map junk

/-- `ma::rs` for a block that grows. A null pointer is a block of no bytes. -/
def rs (junk : Junk) (block : List UInt8) (size : ℕ) : List UInt8 :=
  (List.range size).map fun offset => block.getD offset (junk offset)

/-- `memcpy(block + offset, bytes)` -/
def memcpy (block : List UInt8) (offset : ℕ) (bytes : List UInt8) : List UInt8 :=
  block.take offset ++ bytes ++ block.drop (offset + bytes.length)

/-- `secure_vector<uint8_t>` -/
structure SecureVector where
  buf : List UInt8
  sz : ℕ
  cap : ℕ

namespace SecureVector

/-- `(sz + 31) & ~31`, in a `size_t` -/
def capsize (sz : ℕ) : ℕ := (sz + 31) % 2 ^ 64 / 32 * 32

/-- What is left of a vector that has been moved from. -/
def null : SecureVector where
  buf := []
  sz := 0
  cap := 0

/-- The constructor without arguments -/
def construct (junk : Junk) : SecureVector where
  buf := ma junk 32
  sz := 0
  cap := 32

/-- The constructor that takes a size; the bytes are not written to. -/
def sized (junk : Junk) (fillCnt : ℕ) : SecureVector where
  buf := ma junk (capsize fillCnt)
  sz := fillCnt
  cap := capsize fillCnt

/-- The constructor that takes two iterators -/
def range (junk : Junk) (bytes : List UInt8) : SecureVector where
  buf := memcpy (ma junk (capsize bytes.length)) 0 bytes
  sz := bytes.length
  cap := capsize bytes.length

/-- `assign`, which never makes the block smaller -/
def assign (junk : Junk) (bytes : List UInt8) (self : SecureVector) : SecureVector :=
  if bytes.length ≤ self.cap then
    { self with buf := memcpy self.buf 0 bytes, sz := bytes.length }
  else
    { buf := memcpy (rs junk self.buf (capsize bytes.length)) 0 bytes
      sz := bytes.length
      cap := capsize bytes.length }

/-- `operator=(const secure_vector& ov)` -/
def copyFrom (junk : Junk) (ov self : SecureVector) : SecureVector :=
  if ov.sz ≤ self.cap then { self with buf := memcpy self.buf 0 (ov.buf.take ov.sz), sz := ov.sz }
  else
    { buf := memcpy (rs junk self.buf (capsize ov.sz)) 0 (ov.buf.take ov.sz)
      sz := ov.sz
      cap := capsize ov.sz }

/-- `operator+=` -/
def append (junk : Junk) (bytes : List UInt8) (self : SecureVector) : SecureVector :=
  if bytes.length + self.sz ≤ self.cap then
    { self with buf := memcpy self.buf self.sz bytes, sz := self.sz + bytes.length }
  else
    let nsz := self.sz + bytes.length
    { buf := memcpy (rs junk self.buf (capsize nsz)) self.sz bytes
      sz := self.sz + bytes.length
      cap := capsize nsz }

/-- `resize`; new bytes are not written to. -/
def resize (junk : Junk) (nsz : ℕ) (self : SecureVector) : SecureVector :=
  if nsz ≤ self.cap then { self with sz := nsz }
  else { buf := rs junk self.buf (capsize nsz), sz := nsz, cap := capsize nsz }

/-- `reserve` -/
def reserve (junk : Junk) (size : ℕ) (self : SecureVector) : SecureVector :=
  if self.cap < size then { self with buf := rs junk self.buf (capsize size), cap := capsize size }
  else self

/-- `clear`, which leaves the bytes in the block -/
def clear (self : SecureVector) : SecureVector := { self with sz := 0 }

/-- Zeros in the place of all bytes -/
def zeroise (self : SecureVector) : SecureVector :=
  { self with buf := memcpy self.buf 0 (List.replicate self.sz 0) }

/-- `operator[]`, to write to -/
def set (index : ℕ) (byte : UInt8) (self : SecureVector) : SecureVector :=
  { self with buf := self.buf.set index byte }

end SecureVector

/-! ### Vectors under names -/

/-- What a class of vectors can do. -/
structure VectorImpl (V : Type) where
  construct : Junk → V
  sized : Junk → ℕ → V
  range : Junk → List UInt8 → V
  null : V -- what is left by a move
  assign : Junk → List UInt8 → V → V
  copyFrom : Junk → V → V → V
  append : Junk → List UInt8 → V → V
  resize : Junk → ℕ → V → V
  reserve : Junk → ℕ → V → V
  clear : V → V
  zeroise : V → V
  set : ℕ → UInt8 → V → V

/-- `secure_vector<uint8_t>` as a class of vectors -/
def secureVector : VectorImpl SecureVector where
  construct := SecureVector.construct
  sized := SecureVector.sized
  range := SecureVector.range
  null := SecureVector.null
  assign := SecureVector.assign
  copyFrom := SecureVector.copyFrom
  append := SecureVector.append
  resize := SecureVector.resize
  reserve := SecureVector.reserve
  clear := SecureVector.clear
  zeroise := SecureVector.zeroise
  set := SecureVector.set

/-- `std::vector<uint8_t>`, by its elements -/
def stdVector : VectorImpl (List UInt8) where
  construct _ := []
  sized _ fillCnt := List.replicate fillCnt 0
  range _ bytes := bytes
  null := []
  assign _ bytes _ := bytes
  copyFrom _ ov _ := ov
  append _ bytes self := self ++ bytes
  resize _ nsz self := self.take nsz ++ List.replicate (nsz - self.length) 0
  reserve _ _ self := self
  clear _ := []
  zeroise self := List.replicate self.length 0
  set index byte self := self.set index byte

/-- An operation on the vectors with these names. -/
inductive VectorOp (Name : Type) where
  | construct (i : Name)
  | sized (i : Name) (fillCnt : ℕ)
  | range (i : Name) (bytes : List UInt8)
  | moved (i j : Name) -- `i` is constructed by move from `j`
  | destroy (i : Name)
  | assign (i : Name) (bytes : List UInt8)
  | append (i : Name) (bytes : List UInt8)
  | copy (i j : Name)
  | move (i j : Name)
  | resize (i : Name) (nsz : ℕ)
  | reserve (i : Name) (size : ℕ)
  | clear (i : Name)
  | zeroise (i : Name)
  | set (i : Name) (index : ℕ) (byte : UInt8)

variable {Name V : Type} [DecidableEq Name]

/-- A name for a new vector. -/
def create (s : Name → Option V) (i : Name) (v : V) : Option (Name → Option V) :=
  match s i with
  | some _ => none
  | none => some (Function.update s i (some v))

/-- A vector that there is. -/
def modify (s : Name → Option V) (i : Name) (f : V → V) : Option (Name → Option V) :=
  (s i).map fun v => Function.update s i (some (f v))

/-- What an operation makes of the vectors, where it can be called. -/
def VectorOp.step (impl : VectorImpl V) (junk : Junk) (s : Name → Option V) :
    VectorOp Name → Option (Name → Option V)
  | construct i => create s i (impl.construct junk)
  | sized i fillCnt => create s i (impl.sized junk fillCnt)
  | range i bytes => create s i (impl.range junk bytes)
  | moved i j => (s j).bind fun v => create (Function.update s j (some impl.null)) i v
  | destroy i => (s i).map fun _ => Function.update s i none
  | assign i bytes => modify s i (impl.assign junk bytes)
  | append i bytes => modify s i (impl.append junk bytes)
  | copy i j => (s j).bind fun v => modify s i (impl.copyFrom junk v)
  | move i j => (s j).bind fun v =>
      (s i).map fun _ => Function.update (Function.update s i (some v)) j (some impl.null)
  | resize i nsz => modify s i (impl.resize junk nsz)
  | reserve i size => modify s i (impl.reserve junk size)
  | clear i => modify s i impl.clear
  | zeroise i => modify s i impl.zeroise
  | set i index byte => modify s i (impl.set index byte)

/-- `max_size`. A vector throws where it would get longer. -/
def maxSize : ℕ := 2 ^ 63 - 1

/-- An operation which a vector does not refuse, at an index that it has. -/
def VectorOp.Admitted (r : Name → Option (List UInt8)) : VectorOp Name → Prop
  | sized _ fillCnt => fillCnt ≤ maxSize
  | range _ bytes => bytes.length ≤ maxSize
  | assign _ bytes => bytes.length ≤ maxSize
  | append i bytes => ∀ self, r i = some self → self.length + bytes.length ≤ maxSize
  | resize _ nsz => nsz ≤ maxSize
  | reserve _ size => size ≤ maxSize
  | set i index _ => ∀ self, r i = some self → index < self.length
  | _ => True

/-- The bytes that an operation exposes without anybody having written them are zero: those of
the new block, or of what the old one holds behind the elements. -/
def VectorOp.Clean (junk : Junk) (s : Name → Option SecureVector) : VectorOp Name → Prop
  | sized _ fillCnt => ∀ offset < fillCnt, junk offset = 0
  | resize i nsz => ∀ self, s i = some self →
      ∀ offset, self.sz ≤ offset → offset < nsz → self.buf.getD offset (junk offset) = 0
  | _ => True

/-- The replacement has the size and the elements of the vector, and room for them. -/
structure Represents (v : SecureVector) (l : List UInt8) : Prop where
  size : v.sz = l.length
  elements : v.buf.take v.sz = l
  fits : v.sz ≤ v.cap
  block : v.buf.length = v.cap
  small : l.length ≤ maxSize

/-- The same names, with vectors that represent each other. -/
def Same (s : Name → Option SecureVector) (r : Name → Option (List UInt8)) : Prop :=
  ∀ i, Option.Rel Represents (s i) (r i)

/-! ### Each operation -/

section

variable {junk : Junk} {block bytes self : List UInt8} {size offset : ℕ}

theorem length_ma : (ma junk size).length = size := by simp [ma]

theorem length_rs : (rs junk block size).length = size := by simp [rs]

/-- A block that grows keeps its bytes. -/
theorem getD_rs (inside : offset < size) (byte : UInt8) :
    (rs junk block size).getD offset byte = block.getD offset (junk offset) := by
  simp [rs, List.getD_eq_getElem?_getD, inside]

theorem getD_inside (inside : offset < block.length) (byte other : UInt8) :
    block.getD offset byte = block.getD offset other := by
  rw [← List.getElem_eq_getD (h := inside) byte, ← List.getElem_eq_getD (h := inside) other]

theorem take_rs {count : ℕ} (there : count ≤ block.length) (room : count ≤ size) :
    (rs junk block size).take count = block.take count := by
  apply List.ext_getElem
  · rw [List.length_take, List.length_take, length_rs]
    omega
  · intro offset inside inside'
    rw [List.length_take] at inside'
    have here : offset < block.length := by omega
    simp [rs, here]

theorem length_memcpy (room : offset + bytes.length ≤ block.length) :
    (memcpy block offset bytes).length = block.length := by
  rw [memcpy, List.length_append, List.length_append, List.length_take, List.length_drop]
  omega

theorem take_memcpy (room : offset ≤ block.length) :
    (memcpy block offset bytes).take (offset + bytes.length) = block.take offset ++ bytes := by
  have long : (block.take offset ++ bytes).length = offset + bytes.length := by
    rw [List.length_append, List.length_take]
    omega
  rw [memcpy, ← long, List.take_left]

/-- Behind its elements a block holds zeros, up to some size. -/
theorem take_eq_append_zeros {count : ℕ} (less : size ≤ count) (there : count ≤ block.length) :
    block.take count = block.take size ++ List.replicate (count - size) 0 ↔
      ∀ offset, size ≤ offset → offset < count → block.getD offset 0 = 0 := by
  have parts : block.take count = block.take size ++ (block.drop size).take (count - size) := by
    rw [← List.take_add]
    congr 1
    omega
  rw [parts, List.append_cancel_left_eq, List.eq_replicate_iff]
  constructor
  · rintro ⟨-, zeros⟩ offset low high
    apply zeros
    rw [List.mem_iff_getElem?]
    refine ⟨offset - size, ?_⟩
    rw [List.getElem?_take_of_lt (by omega), List.getElem?_drop, List.getD_eq_getElem?_getD,
      show size + (offset - size) = offset by omega, List.getElem?_eq_getElem (by omega)]
    rfl
  · intro zeros
    refine ⟨by rw [List.length_take, List.length_drop]; omega, ?_⟩
    intro byte inside
    rcases List.mem_iff_getElem.mp inside with ⟨index, short, rfl⟩
    rw [List.length_take, List.length_drop] at short
    have zero := zeros (size + index) (by omega) (by omega)
    rw [List.getD_eq_getElem?_getD, List.getElem?_eq_getElem (by omega)] at zero
    rw [List.getElem_take, List.getElem_drop]
    exact zero

end

namespace SecureVector

variable {junk : Junk} {bytes : List UInt8} {v w : SecureVector} {l m : List UInt8} {size : ℕ}

/-- There is room for what is asked for, where it is not nearly all of the address space. -/
theorem le_capsize (small : size ≤ maxSize) : size ≤ capsize size := by
  rw [maxSize] at small
  rw [capsize]
  omega

theorem represents_null : Represents null [] :=
  ⟨rfl, rfl, Nat.le_refl 0, rfl, Nat.zero_le _⟩

theorem represents_construct : Represents (construct junk) [] :=
  ⟨rfl, rfl, Nat.zero_le _, length_ma, Nat.zero_le _⟩

/-- A block into which the elements have just been written. -/
theorem represents_written {block : List UInt8} (small : bytes.length ≤ maxSize)
    (room : bytes.length ≤ block.length) :
    Represents ⟨memcpy block 0 bytes, bytes.length, block.length⟩ bytes where
  size := rfl
  elements := by
    have written := @take_memcpy block bytes 0 (Nat.zero_le _)
    rw [Nat.zero_add] at written
    exact written
  fits := room
  block := length_memcpy (by omega)
  small := small

theorem represents_range (small : bytes.length ≤ maxSize) :
    Represents (range junk bytes) bytes := by
  have room := le_capsize small
  have written := @represents_written bytes (ma junk (capsize bytes.length)) small
  rw [length_ma] at written
  exact written room

/-- `assign` leaves nothing of what has been there. -/
theorem represents_assign (valid : Represents v l) (small : bytes.length ≤ maxSize) :
    Represents (assign junk bytes v) bytes := by
  rw [assign]
  split
  · rename_i room
    have written := @represents_written bytes v.buf small
    rw [valid.block] at written
    exact written room
  · have written := @represents_written bytes (rs junk v.buf (capsize bytes.length)) small
    rw [length_rs] at written
    exact written (le_capsize small)

theorem copyFrom_eq (valid : Represents w m) : copyFrom junk w v = assign junk m v := by
  rw [copyFrom, assign, valid.elements, valid.size]

theorem represents_copyFrom (source : Represents w m) (valid : Represents v l) :
    Represents (copyFrom junk w v) m := by
  rw [copyFrom_eq source]
  exact represents_assign valid source.small

/-- A block behind whose elements some more have just been written. -/
theorem represents_appended {block : List UInt8} (small : l.length + bytes.length ≤ maxSize)
    (elements : block.take l.length = l) (room : l.length + bytes.length ≤ block.length) :
    Represents ⟨memcpy block l.length bytes, l.length + bytes.length, block.length⟩
      (l ++ bytes) where
  size := List.length_append.symm
  elements := by
    have written := @take_memcpy block bytes l.length (by omega)
    rw [elements] at written
    exact written
  fits := room
  block := length_memcpy room
  small := by
    rw [List.length_append]
    exact small

/-- New bytes are behind the old ones. -/
theorem represents_append (valid : Represents v l) (small : l.length + bytes.length ≤ maxSize) :
    Represents (append junk bytes v) (l ++ bytes) := by
  have elements := valid.elements
  have fits := valid.fits
  rw [valid.size] at elements fits
  rw [append, valid.size]
  split
  · rename_i room
    have written := @represents_appended bytes l v.buf small elements
    rw [valid.block] at written
    exact written (by omega)
  · have grown := le_capsize small
    have written := @represents_appended bytes l
      (rs junk v.buf (capsize (l.length + bytes.length))) small
    rw [length_rs, take_rs (by rw [valid.block]; omega) (by omega)] at written
    exact written elements grown

theorem represents_reserve (valid : Represents v l) (small : size ≤ maxSize) :
    Represents (reserve junk size v) l := by
  rw [reserve]
  split
  · rename_i less
    have fits := valid.fits
    have grown := le_capsize small
    refine ⟨valid.size, ?_, ?_, length_rs, valid.small⟩
    · dsimp only
      rw [take_rs (by rw [valid.block]; exact fits) (by omega)]
      exact valid.elements
    · dsimp only
      omega
  · exact valid

theorem represents_clear (valid : Represents v l) : Represents (clear v) [] :=
  ⟨rfl, rfl, Nat.zero_le _, valid.block, Nat.zero_le _⟩

/-- `zeroise` leaves as many zeros. -/
theorem represents_zeroise (valid : Represents v l) :
    Represents (zeroise v) (List.replicate l.length 0) := by
  have fits := valid.fits
  have small := valid.small
  have written := @represents_written (List.replicate v.sz 0) v.buf
  rw [List.length_replicate, valid.block] at written
  rw [← valid.size] at small ⊢
  exact written small fits

/-- One byte is written, and the others stay. -/
theorem represents_set {index : ℕ} (byte : UInt8) (valid : Represents v l) :
    Represents (set index byte v) (l.set index byte) where
  size := valid.size.trans List.length_set.symm
  elements := by
    rw [set, ← valid.elements, List.take_set]
  fits := valid.fits
  block := List.length_set.trans valid.block
  small := Nat.le_trans (Nat.le_of_eq List.length_set) valid.small

theorem represents_exposed {block : List UInt8} (small : size ≤ maxSize)
    (elements : block.take l.length = l) (less : l.length ≤ size) (room : size ≤ block.length) :
    Represents ⟨block, size, block.length⟩ (l ++ List.replicate (size - l.length) 0) ↔
      ∀ offset, l.length ≤ offset → offset < size → block.getD offset 0 = 0 := by
  rw [← take_eq_append_zeros less room, elements]
  constructor
  · exact fun represents => represents.elements
  · intro same
    have long : (l ++ List.replicate (size - l.length) 0).length = size := by
      rw [List.length_append, List.length_replicate]
      omega
    exact ⟨long.symm, same, room, rfl, Nat.le_trans (Nat.le_of_eq long) small⟩

/-- A vector of a given size has the bytes that the new block holds. -/
theorem represents_sized (small : size ≤ maxSize) :
    Represents (sized junk size) (List.replicate size 0) ↔ ∀ offset < size, junk offset = 0 := by
  have room := le_capsize small
  have exposed := @represents_exposed [] size (ma junk (capsize size)) small rfl (Nat.zero_le _)
  rw [length_ma, List.nil_append, List.length_nil, Nat.sub_zero] at exposed
  refine Iff.trans (exposed room) ?_
  constructor
  · intro zeros offset inside
    have zero := zeros offset (Nat.zero_le _) inside
    simpa [ma, List.getD_eq_getElem?_getD, show offset < capsize size by omega] using zero
  · intro zeros offset _ inside
    simpa [ma, List.getD_eq_getElem?_getD, show offset < capsize size by omega] using
      zeros offset inside

/-- A vector that gets longer has the bytes behind its elements. -/
theorem represents_resize (valid : Represents v l) (small : size ≤ maxSize) :
    Represents (resize junk size v) (l.take size ++ List.replicate (size - l.length) 0) ↔
      ∀ offset, v.sz ≤ offset → offset < size → v.buf.getD offset (junk offset) = 0 := by
  have elements := valid.elements
  have fits := valid.fits
  rw [valid.size] at elements fits ⊢
  have grown := le_capsize small
  rw [resize]
  by_cases less : l.length ≤ size
  · rw [List.take_of_length_le less]
    split
    · rename_i room
      have exposed := @represents_exposed l size v.buf small elements less
      rw [valid.block] at exposed
      refine Iff.trans (exposed room) ?_
      constructor
      · intro zeros offset low high
        rw [getD_inside (by rw [valid.block]; omega) (junk offset) 0]
        exact zeros offset low high
      · intro zeros offset low high
        rw [getD_inside (by rw [valid.block]; omega) 0 (junk offset)]
        exact zeros offset low high
    · have exposed := @represents_exposed l size (rs junk v.buf (capsize size)) small
      rw [length_rs, take_rs (by rw [valid.block]; exact fits) (by omega)] at exposed
      refine Iff.trans (exposed elements less grown) ?_
      constructor
      · intro zeros offset low high
        rw [← getD_rs (show offset < capsize size by omega) 0]
        exact zeros offset low high
      · intro zeros offset low high
        rw [getD_rs (by omega)]
        exact zeros offset low high
  · rw [if_pos (by omega), Nat.sub_eq_zero_of_le (by omega), List.replicate_zero, List.append_nil]
    constructor
    · intro _ offset low high
      omega
    · intro _
      refine ⟨?_, ?_, ?_, valid.block, ?_⟩
      · rw [List.length_take]
        dsimp only
        omega
      · dsimp only
        rw [← elements, List.take_take]
        congr 1
        omega
      · dsimp only
        omega
      · rw [List.length_take]
        omega

end SecureVector

/-! ### Runs -/

section

variable {Name : Type} {s : Name → Option SecureVector} {r r' : Name → Option (List UInt8)}

/-- What is there has the same bytes. -/
theorem Same.get (same : Same s r) {i : Name} {l : List UInt8} (here : r i = some l) :
    ∃ v, s i = some v ∧ Represents v l := by
  have related := same i
  rw [here] at related
  cases found : s i with
  | none =>
      rw [found] at related
      cases related
  | some v =>
      rw [found] at related
      cases related with
      | some represents => exact ⟨v, rfl, represents⟩

theorem Same.get_none (same : Same s r) {i : Name} (here : r i = none) : s i = none := by
  have related := same i
  rw [here] at related
  cases found : s i with
  | none => rfl
  | some v =>
      rw [found] at related
      cases related

variable [DecidableEq Name]

theorem Same.update (same : Same s r) (i : Name) {v : SecureVector} {l : List UInt8} :
    Same (Function.update s i (some v)) (Function.update r i (some l)) ↔ Represents v l := by
  constructor
  · intro updated
    have related := updated i
    rw [Function.update_self, Function.update_self] at related
    cases related with
    | some represents => exact represents
  · intro represents j
    by_cases here : j = i
    · subst here
      rw [Function.update_self, Function.update_self]
      exact .some represents
    · rw [Function.update_of_ne here, Function.update_of_ne here]
      exact same j

/-- A new vector under a name -/
theorem Same.create (same : Same s r) {i : Name} {v : SecureVector} {l : List UInt8}
    (created : create r i l = some r') : ∃ s', Botan.create s i v = some s' ∧
      (Same s' r' ↔ Represents v l) := by
  rw [Botan.create] at created
  split at created
  · cases created
  · rename_i free
    cases created
    refine ⟨_, ?_, same.update i⟩
    rw [Botan.create, same.get_none free]

theorem Same.modify (same : Same s r) {i : Name} {f : SecureVector → SecureVector}
    {g : List UInt8 → List UInt8} (modified : modify r i g = some r') :
    ∃ v l s', s i = some v ∧ r i = some l ∧ Represents v l ∧ Botan.modify s i f = some s' ∧
      (Same s' r' ↔ Represents (f v) (g l)) := by
  rcases Option.map_eq_some_iff.mp modified with ⟨l, here, rfl⟩
  rcases same.get here with ⟨v, there, represents⟩
  refine ⟨v, l, _, there, here, represents, ?_, same.update i⟩
  rw [Botan.modify, there]
  rfl

/-- A change that is right whatever the memory holds. -/
theorem Same.modify_always (same : Same s r) {i : Name} {f : SecureVector → SecureVector}
    {g : List UInt8 → List UInt8} (modified : Botan.modify r i g = some r')
    (kept : ∀ v l, r i = some l → Represents v l → Represents (f v) (g l)) :
    ∃ s', Botan.modify s i f = some s' ∧ (Same s' r' ↔ True) := by
  rcases same.modify modified with ⟨v, l, s', there, here, represents, modified, related⟩
  exact ⟨s', modified, related.trans (iff_of_true (kept v l here represents) trivial)⟩

variable {junk : Junk}

/-- One operation that the vectors admit. It can be called on the replacements, and leaves them
the same if it is clean. -/
theorem Same.step (same : Same s r) {op : VectorOp Name} (admitted : op.Admitted r)
    (stepped : op.step stdVector junk r = some r') :
    ∃ s', op.step secureVector junk s = some s' ∧ (Same s' r' ↔ op.Clean junk s) := by
  cases op with
  | construct i =>
      rcases same.create stepped with ⟨s', created, related⟩
      exact ⟨s', created, related.trans (iff_of_true SecureVector.represents_construct trivial)⟩
  | sized i fillCnt =>
      rcases same.create stepped with ⟨s', created, related⟩
      exact ⟨s', created, related.trans (SecureVector.represents_sized admitted)⟩
  | range i bytes =>
      rcases same.create stepped with ⟨s', created, related⟩
      exact ⟨s', created,
        related.trans (iff_of_true (SecureVector.represents_range admitted) trivial)⟩
  | moved i j =>
      rcases Option.bind_eq_some_iff.mp stepped with ⟨l, here, created⟩
      rcases same.get here with ⟨v, there, represents⟩
      have left := (same.update j).mpr SecureVector.represents_null
      rcases left.create created with ⟨s', created', related⟩
      refine ⟨s', ?_, related.trans (iff_of_true represents trivial)⟩
      rw [VectorOp.step, there]
      exact created'
  | destroy i =>
      rcases Option.map_eq_some_iff.mp stepped with ⟨l, here, rfl⟩
      rcases same.get here with ⟨v, there, represents⟩
      refine ⟨Function.update s i none, ?_, iff_of_true ?_ trivial⟩
      · rw [VectorOp.step, there]
        rfl
      · intro j
        by_cases it : j = i
        · subst it
          rw [Function.update_self, Function.update_self]
          exact .none
        · rw [Function.update_of_ne it, Function.update_of_ne it]
          exact same j
  | assign i bytes =>
      apply same.modify_always stepped
      intro v l here represents
      exact SecureVector.represents_assign represents admitted
  | append i bytes =>
      apply same.modify_always stepped
      intro v l here represents
      exact SecureVector.represents_append represents (admitted l here)
  | copy i j =>
      rcases Option.bind_eq_some_iff.mp stepped with ⟨m, source, copied⟩
      rcases same.get source with ⟨w, source', original⟩
      rcases same.modify copied with ⟨v, l, s', there, here, represents, modified, related⟩
      refine ⟨s', ?_, related.trans (iff_of_true ?_ trivial)⟩
      · rw [VectorOp.step, source']
        exact modified
      · exact SecureVector.represents_copyFrom original represents
  | move i j =>
      rcases Option.bind_eq_some_iff.mp stepped with ⟨l, source, moved⟩
      rcases Option.map_eq_some_iff.mp moved with ⟨old, here, rfl⟩
      rcases same.get source with ⟨v, source', represents⟩
      rcases same.get here with ⟨w, there, -⟩
      refine ⟨_, ?_, iff_of_true (Iff.mpr (Same.update ((same.update i).mpr represents) j)
        SecureVector.represents_null) trivial⟩
      rw [VectorOp.step, source', there]
      rfl
  | resize i nsz =>
      rcases same.modify stepped with ⟨v, l, s', there, here, represents, modified, related⟩
      refine ⟨s', modified, related.trans ?_⟩
      refine Iff.trans (SecureVector.represents_resize represents admitted) ?_
      constructor
      · intro zeros self found
        rw [there] at found
        cases found
        exact zeros
      · exact fun clean => clean v there
  | reserve i size =>
      apply same.modify_always stepped
      intro v l here represents
      exact SecureVector.represents_reserve represents admitted
  | clear i =>
      apply same.modify_always stepped
      intro v l here represents
      exact SecureVector.represents_clear represents
  | zeroise i =>
      apply same.modify_always stepped
      intro v l here represents
      exact SecureVector.represents_zeroise represents
  | set i index byte =>
      apply same.modify_always stepped
      intro v l here represents
      exact SecureVector.represents_set byte represents

/-- In every state of a run the names have the same vectors; it goes on as long as the vectors
admit it. -/
def Refines : List (VectorOp Name × Junk) → (Name → Option SecureVector) →
    (Name → Option (List UInt8)) → Prop
  | [], s, r => Same s r
  | (op, junk) :: rest, s, r => Same s r ∧
      ∀ r', op.Admitted r → op.step stdVector junk r = some r' →
        ∃ s', op.step secureVector junk s = some s' ∧ Refines rest s' r'

/-- Every operation of a run is clean. -/
def CleanRun : List (VectorOp Name × Junk) → (Name → Option SecureVector) →
    (Name → Option (List UInt8)) → Prop
  | [], _, _ => True
  | (op, junk) :: rest, s, r =>
      ∀ r' s', op.Admitted r → op.step stdVector junk r = some r' →
        op.step secureVector junk s = some s' → op.Clean junk s ∧ CleanRun rest s' r'

theorem Refines.same {steps : List (VectorOp Name × Junk)} (refines : Refines steps s r) :
    Same s r := by
  cases steps with
  | nil => exact refines
  | cons step rest => exact refines.1

theorem Same.refines_congr (same : Same s r) (steps : List (VectorOp Name × Junk)) :
    Refines steps s r ↔ CleanRun steps s r := by
  induction steps generalizing s r with
  | nil => exact iff_of_true same trivial
  | cons head rest ih =>
      rcases head with ⟨op, junk⟩
      constructor
      · rintro ⟨-, goesOn⟩ r' s' admitted stepped stepped'
        rcases goesOn r' admitted stepped with ⟨next, there, refines⟩
        rw [stepped'] at there
        cases there
        rcases same.step admitted stepped with ⟨next, there, clean⟩
        rw [stepped'] at there
        cases there
        exact ⟨clean.mp refines.same, (ih refines.same).mp refines⟩
      · intro run
        refine ⟨same, ?_⟩
        intro r' admitted stepped
        rcases same.step admitted stepped with ⟨s', stepped', clean⟩
        rcases run r' s' admitted stepped stepped' with ⟨zeros, others⟩
        exact ⟨s', stepped', (ih (clean.mpr zeros)).mpr others⟩

/-- From no vectors at all, the replacement stays the same as the vectors in the clean runs. -/
theorem refines_iff (steps : List (VectorOp Name × Junk)) :
    Refines steps (fun _ => none) (fun _ => none) ↔
      CleanRun steps (fun _ => none) (fun _ => none) :=
  Same.refines_congr (fun _ => .none) steps

end

/-- A block of 16 bytes that has not been zero, as a key schedule asks for. -/
theorem not_refines_dirty :
    ¬Refines [(.sized 0 16, fun _ => 1)] (fun _ : ℕ => none) (fun _ => none) := by
  rintro ⟨-, goesOn⟩
  rcases goesOn _ (show 16 ≤ maxSize by decide) rfl with ⟨s', stepped, same⟩
  cases stepped
  have here := same 0
  rw [Function.update_self, Function.update_self] at here
  cases here with
  | some represents =>
      have zeros := (SecureVector.represents_sized (by decide)).mp represents
      cases zeros 0 (by decide)

end Imconee.Botan
