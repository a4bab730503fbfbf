import Imconee.Botan.Mask
import Imconee.Botan.MdxHash
import Imconee.Lib.Hmac

/-!
# `Botan::HMAC`

An object holds another one for the hash function, which has always been fed with the inner
key already. How long a key is does not show in the branches of `key_schedule`; what it
computes is the key in a block all the same. `none` is an exception, or a read outside the key.
-/

set_option autoImplicit false

namespace Imconee.Botan

open Imconee.Lib

/-- A `HashFunction`: what its objects can do, and its sizes, which are a `size_t` -/
structure HashFunction (τ : Type) extends BufferedComputation τ UInt8 (List UInt8) where
  clear : τ → τ
  newObject : τ
  outputLength : ℕ
  hashBlockSize : ℕ
  hashBlockSize_lt : hashBlockSize < 2 ^ 64

/-- An object for a function of the bytes it is fed with, also when it has been cleared. -/
structure HashFunction.Hashes {τ : Type} (H : HashFunction τ) (hash : List UInt8 → List UInt8)
    (Holds : τ → List UInt8 → Prop) : Prop where
  computes : H.Computes hash Holds
  new : Holds H.newObject []
  cleared : ∀ object : τ, Holds (H.clear object) []
  length : ∀ message : List UInt8, (hash message).length = H.outputLength
  outputLength_le : H.outputLength ≤ H.hashBlockSize
  positive : 0 < H.outputLength

namespace MerkleDamgardHash

variable {Digest : Type} {MD : MdHashImplementation Digest}

/-- `MD` as a class of hash functions -/
def hashFunction (MD : MdHashImplementation Digest) (fits : MD.blockBytes < 2 ^ 64) :
    HashFunction (MerkleDamgardHash MD) where
  update := update
  final := final
  clear := clear
  newObject := new MD
  outputLength := MD.outputBytes
  hashBlockSize := MD.blockBytes
  hashBlockSize_lt := fits

/-- A class of hash functions that computes a function by blocks -/
theorem hashes {fits : MD.blockBytes < 2 ^ 64} (positive : 0 < MD.outputBytes)
    {scheme : MerkleDamgard Digest UInt8 (List UInt8)}
    {Holds : MerkleDamgardHash MD → List UInt8 → Prop}
    (computes : (buffered MD).Computes scheme.hash Holds)
    (cleared : ∀ object : MerkleDamgardHash MD, Holds object.clear [])
    (length : ∀ digest : Digest, (scheme.output digest).length = MD.outputBytes) :
    (hashFunction MD fits).Hashes scheme.hash Holds :=
  ⟨computes, cleared _, cleared, fun _ => length _, MD.outputBytes_le, positive⟩

end MerkleDamgardHash

/-- `HMAC` -/
structure Hmac (τ : Type) where
  hash : τ
  ikey : List UInt8
  okey : List UInt8

namespace Hmac

/-- The loop over the bytes of a key that fits into a block. `key[i % length]` is read without
a division, and set to zero behind the key. -/
def keyBytes (key : List UInt8) : ℕ → BitVec 64 → BitVec 64 → Option (List UInt8)
  | 0, _, _ => some []
  | count + 1, i, iModLength =>
      let needsReduction := Mask.isLte (BitVec.ofNat 64 key.length) iModLength
      let iModLength := needsReduction.select 0 iModLength
      key[iModLength.toNat]?.bind fun kb =>
        let inRange := Mask.isLt i (BitVec.ofNat 64 key.length)
        let byte := UInt8.ofBitVec ((inRange.ifSetReturn (kb.toBitVec.setWidth 64)).setWidth 8)
        (keyBytes key count (i + 1) (iModLength + 1)).map (byte :: ·)

/-- What the inner key is masked with -/
def ipad : UInt8 := 0x36

/-- What the outer key is masked with -/
def opad : UInt8 := 0x5C

variable {τ : Type} (H : HashFunction τ)

/-- The constructor, with a new object for the hash function -/
def new : Option (Hmac τ) :=
  if H.outputLength ≤ H.hashBlockSize then some ⟨H.newObject, [], []⟩ else none

variable (self : Hmac τ)

/-- `m_ikey` before it is xored, and the object for the hash function -/
def placeKey (hash : τ) (key : List UInt8) : Option (List UInt8 × τ) :=
  let zeros := List.replicate H.hashBlockSize 0
  if H.hashBlockSize < key.length then do
    let updated ← H.update hash key
    let hashed ← H.final updated
    return (hashed.1 ++ zeros.drop hashed.1.length, hashed.2)
  else if key ≠ [] then (keyBytes key H.hashBlockSize 0 0).map fun bytes => (bytes, hash)
  else some (zeros, hash)

/-- `key_schedule` -/
def keySchedule (key : List UInt8) : Option (Hmac τ) := do
  let hash := H.clear self.hash
  let placed ← placeKey H hash key
  let ikey := placed.1.map (· ^^^ ipad)
  let okey := ikey.map fun byte => byte ^^^ ipad ^^^ opad
  let hash ← H.update placed.2 ikey
  return { hash, ikey, okey }

/-- The longest key that `key_spec` admits -/
def maximumKeylength : ℕ := 4096

/-- `set_key`, which throws if the key is too long -/
def setKey (key : List UInt8) : Option (Hmac τ) :=
  if key.length ≤ maximumKeylength then self.keySchedule H key else none

/-- `add_data`, which throws without a key -/
def addData (input : List UInt8) : Option (Hmac τ) :=
  if self.okey = [] then none
  else (H.update self.hash input).map fun hash => { self with hash }

/-- `final_result`: it leaves the object ready for the next message. -/
def finalResult : Option (List UInt8 × Hmac τ) :=
  if self.okey = [] then none
  else do
    let inner ← H.final self.hash
    let hash ← H.update inner.2 self.okey
    let hash ← H.update hash (inner.1.take H.outputLength)
    let outer ← H.final hash
    let hash ← H.update outer.2 self.ikey
    return (outer.1, { self with hash })

/-- HMAC as something that is fed and asked -/
def buffered : BufferedComputation (Hmac τ) UInt8 (List UInt8) where
  update := addData H
  final := finalResult H

/-! ### The key in a block -/

theorem toNat_add_one {number : BitVec 64} {bound : ℕ} (below : number.toNat < bound)
    (small : bound < 2 ^ 64) : (number + 1).toNat = number.toNat + 1 := by
  have one : (1 : BitVec 64).toNat = 1 := rfl
  simp only [BitVec.toNat_add, one]
  omega

/-- Up to the end of the key the two counters are the same; behind it the second one only has to
stay inside the key. -/
theorem keyBytes_eq {key : List UInt8} (some_key : key ≠ []) (small : key.length < 2 ^ 64)
    (count : ℕ) (i iModLength : BitVec 64) (fits : i.toNat + count < 2 ^ 64)
    (inside : iModLength.toNat ≤ key.length)
    (same : i.toNat ≤ key.length → iModLength = i) :
    keyBytes key count i iModLength =
      some ((List.range' i.toNat count).map fun index => key.getD index 0) := by
  induction count generalizing i iModLength with
  | zero => rfl
  | succ count ih =>
      have positive : 0 < key.length := List.length_pos_iff.mpr some_key
      have length : (BitVec.ofNat 64 key.length).toNat = key.length := by
        simp only [BitVec.toNat_ofNat, Nat.mod_eq_of_lt small]
      have reduced := (Mask.means_isLte (BitVec.ofNat 64 key.length) iModLength).select 0 iModLength
      have ranged := Mask.means_isLt i (BitVec.ofNat 64 key.length)
      simp only [decide_eq_true_eq, BitVec.le_def, length] at reduced
      simp only [keyBytes, reduced]
      generalize chosen : (if key.length ≤ iModLength.toNat then 0 else iModLength) = place
      have place_lt : place.toNat < key.length := by
        rcases Nat.lt_or_ge iModLength.toNat key.length with less | more
        · simp only [← chosen, if_neg (Nat.not_le_of_lt less)]
          exact less
        · simp only [← chosen, if_pos more]
          exact positive
      have next_i : (i + 1).toNat = i.toNat + 1 := by
        apply @toNat_add_one i (i.toNat + 1) (Nat.lt_succ_self _)
        omega
      have next_place : (place + 1).toNat = place.toNat + 1 := toNat_add_one place_lt small
      have others := ih (i + 1) (place + 1) (by omega) (by omega) (by
        intro within
        have before : i.toNat < key.length := by omega
        have here : iModLength = i := same (by omega)
        subst here
        simp only [if_neg (Nat.not_le_of_lt before)] at chosen
        rw [chosen])
      have byte : UInt8.ofBitVec (((Mask.isLt i (BitVec.ofNat 64 key.length)).ifSetReturn
          (key[place.toNat].toBitVec.setWidth 64)).setWidth 8) = key.getD i.toNat 0 := by
        simp only [ranged.ifSetReturn, decide_eq_true_eq, BitVec.lt_def, length]
        rcases Nat.lt_or_ge i.toNat key.length with before | behind
        · have here : iModLength = i := same (Nat.le_of_lt before)
          subst here
          simp only [if_neg (Nat.not_le_of_lt before)] at chosen
          subst chosen
          simp [before, List.getD_eq_getElem?_getD]
        · simp [Nat.not_lt_of_le behind, List.getD_eq_getElem?_getD]
      simp only [List.getElem?_eq_getElem place_lt, Option.bind_some, others, Option.map_some, byte,
        next_i, List.range'_succ, List.map_cons]

/-- What is behind the key is zero. -/
theorem map_getD_range (key : List UInt8) {size : ℕ} (fits : key.length ≤ size) :
    ((List.range' 0 size).map fun index => key.getD index 0) =
      key ++ List.replicate (size - key.length) 0 := by
  apply List.ext_getElem
  · simp only [List.length_map, List.length_range', List.length_append, List.length_replicate]
    omega
  · intro index left right
    simp only [List.getElem_map, List.getElem_range', List.getElem_append]
    split
    · rename_i within
      simp [List.getD_eq_getElem?_getD, within]
    · rename_i beyond
      simp [List.getD_eq_getElem?_getD, Nat.le_of_not_lt beyond]

/-! ### The keyed function -/

variable {H self} {hash : List UInt8 → List UInt8} {Holds : τ → List UInt8 → Prop}

section

variable (H hash Holds)

/-- The object has this key and has been fed with the message. -/
structure Keyed (key : List UInt8) (object : Hmac τ) (message : List UInt8) : Prop where
  ikey : object.ikey = Lib.Hmac.padded hash H.hashBlockSize ipad key
  okey : object.okey = Lib.Hmac.padded hash H.hashBlockSize opad key
  fed : Holds object.hash (Lib.Hmac.padded hash H.hashBlockSize ipad key ++ message)

end

variable (hashes : H.Hashes hash Holds)

include hashes

/-- A key that is longer than a block is hashed first, and zeros fill up the rest. -/
theorem placeKey_spec {object : τ} (holds : Holds object []) {key : List UInt8}
    (small : key.length < 2 ^ 64) :
    ∃ next, placeKey H object key = some (Lib.Hmac.keyBlock hash H.hashBlockSize key, next) ∧
      Holds next [] := by
  simp only [placeKey, Lib.Hmac.keyBlock]
  rcases Nat.lt_or_ge H.hashBlockSize key.length with long | short
  · rcases hashes.computes.fed holds key with ⟨updated, feeds, updated_holds⟩
    rcases hashes.computes.answered updated_holds with ⟨next, answers, next_holds⟩
    refine ⟨next, ?_, next_holds⟩
    simp only [if_pos long, feeds, Option.bind_eq_bind, Option.bind_some, answers, List.nil_append,
      List.drop_replicate, Option.pure_def]
  · refine ⟨object, ?_, holds⟩
    simp only [if_neg (Nat.not_lt_of_le short)]
    by_cases none : key = []
    · simp [none]
    · have fits := H.hashBlockSize_lt
      have bytes := keyBytes_eq none small H.hashBlockSize 0 0 (by simpa using fits)
        (Nat.zero_le _) (fun _ => rfl)
      have zero : (0 : BitVec 64).toNat = 0 := rfl
      simp only [if_pos none, bytes, zero, map_getD_range key short, Option.map_some]

/-- Whatever the object has been used for before -/
theorem setKey_spec (self : Hmac τ) {key : List UInt8} (short : key.length ≤ maximumKeylength) :
    ∃ next, self.setKey H key = some next ∧ Keyed H hash Holds key next [] := by
  have small : key.length < 2 ^ 64 := Nat.lt_of_le_of_lt short (by decide)
  rcases placeKey_spec hashes (hashes.cleared self.hash) small with ⟨placed, places, empty⟩
  rcases hashes.computes.fed empty (Lib.Hmac.padded hash H.hashBlockSize ipad key) with
    ⟨fed, feeds, holds⟩
  have okey : (Lib.Hmac.padded hash H.hashBlockSize ipad key).map
      (fun byte => byte ^^^ ipad ^^^ opad) = Lib.Hmac.padded hash H.hashBlockSize opad key := by
    simp only [Lib.Hmac.padded, List.map_map]
    apply List.map_congr_left
    intro byte _
    have cancels : byte ^^^ ipad ^^^ ipad = byte := by
      simp only [UInt8.xor_assoc, UInt8.xor_self, UInt8.xor_zero]
    simp only [Function.comp, cancels]
  refine ⟨⟨fed, Lib.Hmac.padded hash H.hashBlockSize ipad key,
    Lib.Hmac.padded hash H.hashBlockSize opad key⟩, ?_, rfl, rfl, by simpa using holds⟩
  simp only [Lib.Hmac.padded] at feeds okey ⊢
  simp only [setKey, if_pos short, keySchedule, places, Option.bind_eq_bind, Option.bind_some,
    feeds, okey, Option.pure_def]

theorem Keyed.okey_ne_nil {key : List UInt8} {object : Hmac τ} {message : List UInt8}
    (keyed : Keyed H hash Holds key object message) : object.okey ≠ [] := by
  have positive := Nat.lt_of_lt_of_le hashes.positive hashes.outputLength_le
  intro none
  have length := congrArg List.length (keyed.okey.symm.trans none)
  simp only [Lib.Hmac.padded, Lib.Hmac.keyBlock, List.length_map, List.length_append,
    List.length_replicate, List.length_nil] at length
  omega

/-- An object with a key computes HMAC under it. -/
theorem computes (key : List UInt8) :
    (buffered H).Computes (Lib.Hmac.mac hash H.hashBlockSize key) (Keyed H hash Holds key) := by
  constructor
  · intro object message keyed input
    rcases hashes.computes.fed keyed.fed input with ⟨next, feeds, holds⟩
    refine ⟨{ object with hash := next }, ?_, keyed.ikey, keyed.okey, ?_⟩
    · simp only [buffered, addData, if_neg (keyed.okey_ne_nil hashes), feeds, Option.map_some]
    · simpa only [List.append_assoc] using holds
  · intro object message keyed
    rcases hashes.computes.answered keyed.fed with ⟨first, inner, first_holds⟩
    rcases hashes.computes.fed first_holds object.okey with ⟨second, outer, second_holds⟩
    rcases hashes.computes.fed second_holds
        (hash (Lib.Hmac.padded hash H.hashBlockSize ipad key ++ message)) with
      ⟨third, both, third_holds⟩
    rcases hashes.computes.answered third_holds with ⟨fourth, answer, fourth_holds⟩
    rcases hashes.computes.fed fourth_holds object.ikey with ⟨last, again, last_holds⟩
    have whole : (hash (Lib.Hmac.padded hash H.hashBlockSize ipad key ++ message)).take
        H.outputLength = hash (Lib.Hmac.padded hash H.hashBlockSize ipad key ++ message) := by
      apply List.take_of_length_le
      exact Nat.le_of_eq (hashes.length _)
    have value : hash ([] ++ object.okey ++
        hash (Lib.Hmac.padded hash H.hashBlockSize ipad key ++ message)) =
          Lib.Hmac.mac hash H.hashBlockSize key message := by
      simp only [List.nil_append, keyed.okey]
      rfl
    refine ⟨{ object with hash := last }, ?_, keyed.ikey, keyed.okey, ?_⟩
    · simp only [buffered, finalResult, if_neg (keyed.okey_ne_nil hashes), inner, outer, whole,
        both, answer, again, value, Option.bind_eq_bind, Option.bind_some, Option.pure_def]
    · simpa only [List.nil_append, List.append_nil, keyed.ikey] using last_holds

/-- Keys one after another, and under each of them the answers to some requests -/
def session (H : HashFunction τ) : Hmac τ →
    List (List UInt8 × List (BufferedComputation.Request UInt8)) → Option (List (List (List UInt8)))
  | _, [] => some []
  | object, (key, requests) :: others =>
      (object.setKey H key).bind fun keyed =>
        ((buffered H).serve keyed requests).bind fun served =>
          (session H served.2 others).map (served.1 :: ·)

/-- What is left of one key and its messages does not show under the next. -/
theorem macs_of_session (object : Hmac τ)
    {keyings : List (List UInt8 × List (BufferedComputation.Request UInt8))}
    (short : ∀ keying ∈ keyings, keying.1.length ≤ maximumKeylength) :
    session H object keyings = some (keyings.map fun keying =>
      BufferedComputation.answers (Lib.Hmac.mac hash H.hashBlockSize keying.1) [] keying.2) := by
  induction keyings generalizing object with
  | nil => rfl
  | cons keying keyings ih =>
      rcases setKey_spec hashes object (short keying List.mem_cons_self) with ⟨keyed, sets, holds⟩
      rcases (computes hashes keying.1).serve holds keying.2 with ⟨last, served⟩
      have others := ih last fun other mem => short other (List.mem_cons_of_mem _ mem)
      simp only [session, sets, served, Option.bind_some, others, Option.map_some, List.map_cons]

end Hmac

end Imconee.Botan
