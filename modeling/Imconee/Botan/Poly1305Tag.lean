import Imconee.Botan.Poly1305Limbs

/-!
# Poly1305 tags

The tag of a message that is given in any pieces, beside the tag of RFC 8439. The two differ
in one case: where the lower 88 bits of the polynomial are within 5 of being full, the tag
of the library is 5 too large.
-/

set_option autoImplicit false

namespace Imconee.Botan.Poly1305

open Imconee.Lib

/-- `r &= 0xffffffc0ffffffc0ffffffc0fffffff` -/
def clampMask : ℕ := 0x0ffffffc0ffffffc0ffffffc0fffffff

/-- The key of the polynomial -/
def clampedR (key : List UInt8) : ℕ := LittleEndian.decode (key.take 16) &&& clampMask

/-- A block with the bit that stands behind its last byte -/
def withHibit (block : List UInt8) : ℕ := LittleEndian.decode (block ++ [1])

/-- The polynomial of a message, in Horner's form -/
def polynomial (r : ℕ) (message : List UInt8) : ℕ :=
  let rest := restOf 16 0 message
  (blocksOf 16 0 message ++ if rest = [] then [] else [rest]).foldl
    (fun residue block => (residue + withHibit block) * r % p) 0

/-- The tag of RFC 8439 -/
def rfcTag (key message : List UInt8) : List UInt8 :=
  LittleEndian.encode 16
    (polynomial (clampedR key) message + LittleEndian.decode (key.drop 16))

/-- The tag of the library -/
def tag (key message : List UInt8) : List UInt8 :=
  LittleEndian.encode 16
    (selected (polynomial (clampedR key) message) + LittleEndian.decode (key.drop 16))

theorem foldl_lt (r : ℕ) (blocks : List (List UInt8)) :
    blocks.foldl (fun residue block => (residue + withHibit block) * r % p) 0 < p := by
  have positive : 0 < p := by norm_num [p]
  rcases List.eq_nil_or_concat blocks with rfl | ⟨front, last, rfl⟩
  · exact positive
  · rw [List.concat_eq_append, List.foldl_append]
    exact Nat.mod_lt _ positive

/-- The polynomial is reduced. -/
theorem polynomial_lt (r : ℕ) (message : List UInt8) : polynomial r message < p := foldl_lt _ _

/-- The tags agree as long as the lower 88 bits are not nearly full. -/
theorem tag_eq_iff (key message : List UInt8) :
    tag key message = rfcTag key message ↔
      polynomial (clampedR key) message % 2 ^ 88 < 2 ^ 88 - 5 := by
  have width : (256 : ℕ) ^ 16 = 2 ^ 128 := by norm_num
  rw [tag, rfcTag, selected]
  split
  · rename_i full
    constructor
    · intro same
      have numbers := congrArg LittleEndian.decode same
      rw [LittleEndian.decode_encode, LittleEndian.decode_encode, width] at numbers
      omega
    · intro free
      omega
  · rename_i free
    exact iff_of_true rfl (by omega)

theorem and_limbs {k a b c d : ℕ} (a_lt : a < 2 ^ k) (c_lt : c < 2 ^ k) :
    (2 ^ k * b + a) &&& (2 ^ k * d + c) = 2 ^ k * (b &&& d) + (a &&& c) := by
  apply Nat.eq_of_testBit_eq
  intro j
  have low : a &&& c < 2 ^ k := Nat.lt_of_le_of_lt Nat.and_le_left a_lt
  rw [Nat.testBit_and, Nat.testBit_two_pow_mul_add _ a_lt, Nat.testBit_two_pow_mul_add _ c_lt,
    Nat.testBit_two_pow_mul_add _ low]
  split
  · rw [Nat.testBit_and]
  · rw [Nat.testBit_and]

theorem and_eq_mod_and {k c : ℕ} (c_lt : c < 2 ^ k) (a : ℕ) : a &&& c = a % 2 ^ k &&& c := by
  have limbs := @and_limbs k (a % 2 ^ k) (a / 2 ^ k) c 0 (Nat.mod_lt _ (Nat.two_pow_pos k)) c_lt
  rw [Nat.div_add_mod, Nat.mul_zero, Nat.zero_add, Nat.and_zero, Nat.mul_zero,
    Nat.zero_add] at limbs
  exact limbs

/-- The words of the key of the polynomial as one number, and what they are as limbs -/
theorem toNat_clamped {t0 t1 : UInt64} {number : ℕ} (low : t0.toNat = number % 2 ^ 64)
    (high : t1.toNat = number / 2 ^ 64) :
    (t0 &&& 0xffc0fffffff).toNat +
        2 ^ 44 * (((t0 >>> 44) ||| (t1 <<< 20)) &&& 0xfffffc0ffff).toNat +
        2 ^ 88 * ((t1 >>> 24) &&& 0x00ffffffc0f).toNat = number &&& clampMask := by
  have shifted : (t1 >>> 24).toNat = t1.toNat / 2 ^ 24 := by
    rw [UInt64.toNat_shiftRight, Nat.shiftRight_eq_div_pow]
    rfl
  have first : (t0 &&& 0xffc0fffffff).toNat = number % 2 ^ 44 &&& 0xffc0fffffff := by
    have limb := @and_eq_mod_and 44 0xffc0fffffff (by norm_num) t0.toNat
    rw [UInt64.toNat_and]
    refine limb.trans (congrArg (· &&& 0xffc0fffffff) ?_)
    rw [low]
    omega
  have second : (((t0 >>> 44) ||| (t1 <<< 20)) &&& 0xfffffc0ffff).toNat =
      number / 2 ^ 44 % 2 ^ 44 &&& 0xfffffc0ffff := by
    have limb := @and_eq_mod_and 44 0xfffffc0ffff (by norm_num)
      ((t0 >>> 44) ||| (t1 <<< 20)).toNat
    rw [UInt64.toNat_and]
    refine limb.trans (congrArg (· &&& 0xfffffc0ffff) ?_)
    rw [toNat_middle, low, high]
    omega
  have third : ((t1 >>> 24) &&& 0x00ffffffc0f).toNat = number / 2 ^ 88 &&& 0x00ffffffc0f := by
    have divided : number / 2 ^ 64 / 2 ^ 24 = number / 2 ^ 88 := by omega
    rw [UInt64.toNat_and, shifted, high, divided]
    rfl
  have inner := @and_limbs 44 (number / 2 ^ 44 % 2 ^ 44) (number / 2 ^ 88) 0xfffffc0ffff
    0x00ffffffc0f (Nat.mod_lt _ (by norm_num)) (by norm_num)
  have outer := @and_limbs 44 (number % 2 ^ 44) (number / 2 ^ 44) 0xffc0fffffff
    (2 ^ 44 * 0x00ffffffc0f + 0xfffffc0ffff) (Nat.mod_lt _ (by norm_num)) (by norm_num)
  have mask : 2 ^ 44 * (2 ^ 44 * 0x00ffffffc0f + 0xfffffc0ffff) + 0xffc0fffffff = clampMask := by
    norm_num [clampMask]
  have upper : 2 ^ 44 * (number / 2 ^ 88) + number / 2 ^ 44 % 2 ^ 44 = number / 2 ^ 44 := by omega
  rw [mask, Nat.div_add_mod] at outer
  rw [upper] at inner
  rw [first, second, third, outer, inner]
  ring

/-- The limbs of a key -/
theorem poly1305Init_spec {key : List UInt8} (full : key.length = 32) :
    (poly1305Init key).Bounded ∧ (poly1305Init key).r = clampedR key ∧
      (poly1305Init key).h = 0 ∧ (poly1305Init key).pad = LittleEndian.decode (key.drop 16) := by
  have first : (key.take 16).length = 16 := by
    rw [List.length_take]
    omega
  have second : (key.drop 16).length = 16 := by
    rw [List.length_drop]
    omega
  rcases words_of_block first with ⟨low, high⟩
  rcases words_of_block second with ⟨pad_low, pad_high⟩
  have front : ∀ index, 8 * index + 8 ≤ 16 →
      loadLe64 key index = loadLe64 (key.take 16) index := by
    intro index inside
    have whole := @loadLe64_append (key.take 16) index (by omega) (key.drop 16)
    rwa [List.take_append_drop] at whole
  have bounded : ∀ (x mask : UInt64), (x &&& mask).toNat ≤ mask.toNat := by
    intro x mask
    rw [UInt64.toNat_and]
    exact Nat.and_le_right
  refine ⟨⟨?_, ?_, ?_, Nat.two_pow_pos 44, by norm_num [poly1305Init], Nat.two_pow_pos 42⟩,
    ?_, rfl, ?_⟩
  · exact Nat.lt_of_le_of_lt (bounded _ _) (by decide)
  · exact Nat.lt_of_le_of_lt (bounded _ _) (by decide)
  · exact Nat.lt_of_le_of_lt (bounded _ _) (by decide)
  · rw [clampedR, ← toNat_clamped low high, ← front 0 (by omega), ← front 1 (by omega)]
    rfl
  · have same : LittleEndian.decode (key.drop 16) =
        LittleEndian.decode (key.drop 16) % 2 ^ 64 +
          2 ^ 64 * (LittleEndian.decode (key.drop 16) / 2 ^ 64) := (Nat.mod_add_div _ _).symm
    rw [same, ← pad_low, ← pad_high, loadLe64, loadLe64, List.drop_drop, List.drop_drop]
    rfl

/-- `poly1305_blocks` takes one block after another. -/
theorem blockwise_poly1305Blocks :
    AlignmentBuffer.Blockwise 16 (poly1305Blocks false) (poly1305Block false) := by
  intro X blocks full
  induction blocks generalizing X with
  | nil => rfl
  | cons block blocks ih =>
      have first := full block List.mem_cons_self
      have others := fun other mem => full other (List.mem_cons_of_mem _ mem)
      have reads : ∀ index, 8 * index + 8 ≤ 16 →
          loadLe64 (block ++ blocks.flatten) index = loadLe64 block index := by
        intro index inside
        exact loadLe64_append (by omega) _
      have behind : (block ++ blocks.flatten).drop 16 = blocks.flatten := by
        rw [← first, List.drop_left]
      have taken : poly1305Block false X (block ++ blocks.flatten) =
          poly1305Block false X block := by
        rw [poly1305Block, reads 0 (by omega), reads 1 (by omega)]
        rfl
      rw [List.flatten_cons, List.length_cons, poly1305Blocks, behind, taken, ih _ others]
      rfl

/-- The limbs keep the residue of the blocks that have been taken. -/
structure Carries (key : List UInt8) (X : Limbs) (residue : ℕ) : Prop where
  bounded : X.Bounded
  r : X.r = clampedR key
  pad : X.pad = LittleEndian.decode (key.drop 16)
  residue : X.h % p = residue % p

theorem blockValue_eq {block : List UInt8} (full : block.length = 16) :
    blockValue false block = withHibit block := by
  rw [blockValue, withHibit, LittleEndian.decode_append, full]
  rfl

/-- A block goes one step on in the polynomial. -/
theorem Carries.block {key : List UInt8} {X : Limbs} {residue : ℕ}
    (carries : Carries key X residue) (isFinal : Bool) {block : List UInt8}
    (full : block.length = 16) :
    Carries key (poly1305Block isFinal X block)
      ((residue + blockValue isFinal block) * clampedR key % p) := by
  rcases poly1305Block_spec carries.bounded isFinal full with ⟨bounded, r, pad, value⟩
  refine ⟨bounded, r.trans carries.r, pad.trans carries.pad, ?_⟩
  rw [value, carries.r, Nat.mod_mod, Nat.mul_mod, Nat.add_mod, carries.residue, ← Nat.add_mod,
    ← Nat.mul_mod]

theorem Carries.blocks {key : List UInt8} {X : Limbs} {residue : ℕ}
    (carries : Carries key X residue) {blocks : List (List UInt8)}
    (full : ∀ block ∈ blocks, block.length = 16) :
    Carries key (blocks.foldl (poly1305Block false) X)
      (blocks.foldl (fun residue block => (residue + withHibit block) * clampedR key % p)
        residue) := by
  induction blocks generalizing X residue with
  | nil => exact carries
  | cons block blocks ih =>
      have first := full block List.mem_cons_self
      have next := carries.block false first
      rw [blockValue_eq first] at next
      exact ih next fun other mem => full other (List.mem_cons_of_mem _ mem)

/-- The last step: complete reduction, but for the case in which it is one too many -/
theorem Carries.finish {key : List UInt8} {X : Limbs} {residue : ℕ}
    (carries : Carries key X residue) (reduced : residue < p) :
    poly1305Finish X =
      LittleEndian.encode 16 (selected residue + LittleEndian.decode (key.drop 16)) := by
  have bounded := carries.bounded
  rcases @carryPass_spec (X.h0, X.h1, X.h2) bounded.h0_lt bounded.h1_lt bounded.h2_lt with
    ⟨first0, first1, first2, -, first⟩
  generalize pass : carryPass (X.h0, X.h1, X.h2) = once at *
  rcases carryPass_spec first0 (by omega) first2 with ⟨second0, -, second2, second1, second⟩
  have second1 := second1 first1
  generalize passes : carryPass once = twice at *
  rcases selectReduced_spec second0 second1 second2 with ⟨select0, select1, select⟩
  rcases addPad_spec select0 select1 X.pad0 X.pad1 with ⟨pad0, pad1, -, padded⟩
  have tag : poly1305Finish X = storeMac (addPad (selectReduced twice) X.pad0 X.pad1) := by
    rw [← passes, ← pass]
    rfl
  have width : (256 : ℕ) ^ 16 = 2 ^ 128 := by norm_num
  have five := p_add_five
  have value : twice.value % p = residue := by
    rw [second, first]
    exact carries.residue.trans (Nat.mod_eq_of_lt reduced)
  have small : twice.value < 2 ^ 130 := by
    rw [Limbs3.value]
    omega
  have pad : X.pad0.toNat + 2 ^ 64 * X.pad1.toNat = LittleEndian.decode (key.drop 16) := carries.pad
  rw [tag, storeMac_spec pad0 pad1, padded, pad]
  apply LittleEndian.encode_congr
  rw [width]
  have same : selected twice.value % 2 ^ 128 = selected residue % 2 ^ 128 := by
    by_cases less : twice.value < p
    · rw [Nat.mod_eq_of_lt less] at value
      rw [value]
    · -- `5 - 2 ^ 130` is what `p` is taken away with
      have once : twice.value = residue + p := by
        rw [Nat.mod_eq_sub_mod (by omega), Nat.mod_eq_of_lt (by omega)] at value
        omega
      rw [selected, selected, if_pos (by omega), if_neg (by omega)]
      omega
  rw [Limbs3.value]
  omega

/-- An object that has been keyed and given a message. -/
structure Holds (mac : Poly1305) (key message : List UInt8) : Prop where
  wellFormed : mac.buffer.WellFormed
  settled : mac.buffer.Settled
  poly : ∃ X, mac.poly = some X ∧
    AlignmentBuffer.absorbed X mac.buffer =
      Absorbed.absorb 16 0 (poly1305Block false) ⟨poly1305Init key, []⟩ message

/-- Behind `set_key` there is no message yet. -/
theorem holds_setKey {self : Poly1305} {key : List UInt8} (full : key.length = 32) :
    ∃ next, self.setKey key = some next ∧ Holds next key [] := by
  refine ⟨_, if_pos full, @AlignmentBuffer.wellFormed_clear _ _ self.buffer, Nat.zero_lt_succ _,
    _, rfl, ?_⟩
  rw [Absorbed.absorb_nil (by norm_num) (by simp)]
  rfl

/-- `add_data` goes on with the message. -/
theorem Holds.addData {self : Poly1305} {key message : List UInt8} (holds : Holds self key message)
    (input : List UInt8) :
    ∃ next, self.addData input = some next ∧ Holds next key (message ++ input) := by
  rcases holds.poly with ⟨X, poly, absorbed⟩
  rcases AlignmentBuffer.addData_spec (by norm_num) blockwise_poly1305Blocks holds.wellFormed
    holds.settled X input with ⟨following, buffer, added, wellFormed, settled, comes⟩
  refine ⟨{ poly := some following, buffer }, ?_, wellFormed, settled, following, rfl, ?_⟩
  · rw [Poly1305.addData, poly, Option.bind_eq_bind, Option.bind_some, added]
    rfl
  · rw [comes, absorbed]
    exact Absorbed.absorb_absorb (by norm_num) _ _ _

theorem Holds.updates {self : Poly1305} {key message : List UInt8} (holds : Holds self key message)
    (inputs : List (List UInt8)) :
    ∃ next, inputs.foldlM Poly1305.addData self = some next ∧
      Holds next key (message ++ inputs.flatten) := by
  induction inputs generalizing self message with
  | nil => exact ⟨self, rfl, by simpa using holds⟩
  | cons input inputs ih =>
      rcases holds.addData input with ⟨next, added, next_holds⟩
      rcases ih next_holds with ⟨last, updated, last_holds⟩
      refine ⟨last, ?_, by simpa using last_holds⟩
      rw [List.foldlM_cons, added]
      exact updated

/-- The padded last block -/
theorem blockValue_padded (rest : List UInt8) (count : ℕ) :
    blockValue true (rest ++ [1] ++ List.replicate count 0) = withHibit rest := by
  rw [blockValue, LittleEndian.decode_append, LittleEndian.decode_replicate_zero]
  simp [withHibit]

/-- `final_result` gives the tag, and forgets the key. -/
theorem Holds.finalResult {self : Poly1305} {key message : List UInt8} (full : key.length = 32)
    (holds : Holds self key message) :
    ∃ last, self.finalResult = some (tag key message, last) ∧ last.poly = none := by
  rcases holds.poly with ⟨X, poly, absorbed⟩
  rcases poly1305Init_spec full with ⟨bounded, r, h, pad⟩
  have taken : X = (blocksOf 16 0 message).foldl (poly1305Block false) (poly1305Init key) ∧
      self.buffer.content = restOf 16 0 message := by
    simp only [AlignmentBuffer.absorbed, Absorbed.absorb, List.nil_append,
      Absorbed.mk.injEq] at absorbed
    exact absorbed
  have cut := cut_blocksOf 0 (show 0 < 16 by norm_num) message
  have carries : Carries key X ((blocksOf 16 0 message).foldl
      (fun residue block => (residue + withHibit block) * clampedR key % p) 0) := by
    rw [taken.1]
    apply Carries.blocks
    · exact ⟨bounded, r, pad, by rw [h]⟩
    · exact cut.full
  have whole_lt : (blocksOf 16 0 message).foldl
      (fun residue block => (residue + withHibit block) * clampedR key % p) 0 < p := foldl_lt _ _
  have content_length := holds.wellFormed.length_content
  have settled : self.buffer.position < 16 := holds.settled
  rw [Poly1305.finalResult, poly, Option.bind_eq_bind, Option.bind_some]
  by_cases aligned : self.buffer.position = 0
  · have empty : restOf 16 0 message = [] := by
      rw [← taken.2]
      apply List.eq_nil_of_length_eq_zero
      rw [content_length, aligned]
    have polynomial_eq : polynomial (clampedR key) message = (blocksOf 16 0 message).foldl
        (fun residue block => (residue + withHibit block) * clampedR key % p) 0 := by
      simp [polynomial, empty]
    refine ⟨{ poly := none, buffer := self.buffer.clear }, ?_, rfl⟩
    rw [if_pos (by simpa [AlignmentBuffer.inAlignment] using aligned), carries.finish whole_lt,
      tag, polynomial_eq]
    rfl
  · have some : restOf 16 0 message ≠ [] := by
      rw [← taken.2]
      intro empty
      rw [empty] at content_length
      exact aligned content_length.symm
    have fits : [(0x01 : UInt8)].length ≤ self.buffer.elementsUntilAlignment := by
      rw [AlignmentBuffer.elementsUntilAlignment, List.length_singleton]
      omega
    rcases AlignmentBuffer.append_spec holds.wellFormed fits with
      ⟨marked, appended, marked_wellFormed, marked_position, marked_content⟩
    rcases AlignmentBuffer.fillUpWithZeros_spec marked_wellFormed with
      ⟨filled_wellFormed, filled_position, filled_content⟩
    rcases AlignmentBuffer.consume_spec filled_wellFormed filled_position with
      ⟨last, consumed, -, -, -⟩
    have length := filled_wellFormed.length_content
    rw [filled_position] at length
    have next := carries.block true length
    rw [marked_content, taken.2] at filled_content
    rw [filled_content, blockValue_padded] at next
    refine ⟨{ poly := none, buffer := last.clear }, ?_, rfl⟩
    rw [if_neg (by simpa [AlignmentBuffer.inAlignment] using aligned), appended,
      Option.bind_eq_bind, Option.bind_some, consumed, Option.bind_eq_bind, Option.bind_some,
      filled_content]
    have polynomial_eq : polynomial (clampedR key) message =
        ((blocksOf 16 0 message).foldl
          (fun residue block => (residue + withHibit block) * clampedR key % p) 0 +
            withHibit (restOf 16 0 message)) * clampedR key % p := by
      simp [polynomial, some]
    rw [← polynomial_eq] at next
    rw [tag, ← next.finish (polynomial_lt _ _)]
    rfl

/-- `set_key`, the calls of `update` and `final` -/
def process (self : Poly1305) (key : List UInt8) (inputs : List (List UInt8)) :
    Option (List UInt8 × Poly1305) := do
  let keyed ← self.setKey key
  let updated ← inputs.foldlM Poly1305.addData keyed
  updated.finalResult

/-- A message that is given in any pieces gets the tag of the whole, and the object is not keyed
any more. The tag is that of RFC 8439 but for the one case. -/
theorem tag_of_updates {key : List UInt8} (full : key.length = 32) (self : Poly1305)
    (inputs : List (List UInt8)) :
    ∃ last, self.process key inputs = some (tag key inputs.flatten, last) ∧ last.poly = none ∧
      (tag key inputs.flatten = rfcTag key inputs.flatten ↔
        polynomial (clampedR key) inputs.flatten % 2 ^ 88 < 2 ^ 88 - 5) := by
  rcases @holds_setKey self key full with ⟨keyed, set, keyed_holds⟩
  rcases keyed_holds.updates inputs with ⟨updated, all, updated_holds⟩
  rw [List.nil_append] at updated_holds
  rcases updated_holds.finalResult full with ⟨last, final, used⟩
  refine ⟨last, ?_, used, tag_eq_iff _ _⟩
  rw [process, set, Option.bind_eq_bind, Option.bind_some, all]
  exact final

/-- Under the key 1 a block of eleven full bytes is tagged 5 too high. -/
theorem tag_of_updates_full :
    ∃ last, process { poly := none, buffer := ⟨List.replicate 16 0, 0⟩ }
        (1 :: List.replicate 31 0) [List.replicate 11 255, List.replicate 5 0] =
          some ([4, 0, 0, 0, 0, 0, 0, 0, 0, 0, 0, 1, 0, 0, 0, 0], last) ∧
      rfcTag (1 :: List.replicate 31 0) (List.replicate 11 255 ++ List.replicate 5 0) =
        List.replicate 11 255 ++ List.replicate 5 0 := by
  rcases @tag_of_updates (1 :: List.replicate 31 0) rfl
    { poly := none, buffer := ⟨List.replicate 16 0, 0⟩ }
    [List.replicate 11 255, List.replicate 5 0] with ⟨last, made, -, -⟩
  refine ⟨last, made.trans ?_, by decide +kernel⟩
  have five : tag (1 :: List.replicate 31 0)
      [List.replicate 11 255, List.replicate 5 0].flatten =
        [4, 0, 0, 0, 0, 0, 0, 0, 0, 0, 0, 1, 0, 0, 0, 0] := by decide +kernel
  rw [five]

end Imconee.Botan.Poly1305
