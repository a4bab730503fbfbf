import Imconee.Botan.Hmac

/-!
# `Botan::HKDF`

Keys of any length out of a secret, over HMAC of a hash function. `none` is an exception. The
loop of `HKDF_Expand` counts its blocks in a byte, and ends before that runs over.
-/

set_option autoImplicit false

namespace Imconee.Botan

open Imconee.Lib

namespace Hkdf

variable {τ : Type} (H : HashFunction τ)

/-- `HKDF_Extract::kdf`: what it writes to the key -/
def extract (keyLen : ℕ) (secret salt label : List UInt8) : Option (List UInt8) :=
  if keyLen = 0 then some []
  else if H.outputLength < keyLen then none
  else if 0 < label.length then none
  else do
    let prf ← Hmac.new H
    let keyed ← prf.setKey H (if salt = [] then List.replicate H.outputLength 0 else salt)
    let fed ← keyed.addData H secret
    let prk ← fed.finalResult H
    return prk.1.take keyLen

/-- The loop of `HKDF_Expand::kdf`, with so many bytes of the key still to be written -/
def expandLoop (salt label : List UInt8) :
    ℕ → Hmac τ → UInt8 → List UInt8 → ℕ → Option (List UInt8)
  | 0, _, _, _, left => if left = 0 then some [] else none
  | fuel + 1, prf, counter, h, left =>
      if left = 0 then some []
      else do
        let withBlock ← prf.addData H h
        let withLabel ← withBlock.addData H label
        let withSalt ← withLabel.addData H salt
        let withCounter ← withSalt.addData H [counter]
        let answered ← withCounter.finalResult H
        let written := min answered.1.length left
        let rest ← expandLoop salt label fuel answered.2 (counter + 1) answered.1 (left - written)
        return answered.1.take written ++ rest

/-- `HKDF_Expand::kdf`; each round writes at least one byte. -/
def expand (keyLen : ℕ) (secret salt label : List UInt8) : Option (List UInt8) :=
  if keyLen = 0 then some []
  else if H.outputLength * 255 < keyLen then none
  else do
    let prf ← Hmac.new H
    let keyed ← prf.setKey H secret
    expandLoop H salt label keyLen keyed 1 [] keyLen

/-- `HKDF::kdf`, which `derive_key` calls -/
def kdf (keyLen : ℕ) (secret salt label : List UInt8) : Option (List UInt8) := do
  let prk ← extract H H.outputLength secret salt []
  expand H keyLen prk [] label

variable {H} {hash : List UInt8 → List UInt8} {Holds : τ → List UInt8 → Prop}
  (hashes : H.Hashes hash Holds)

include hashes

theorem new_eq : Hmac.new H = some ⟨H.newObject, [], []⟩ := if_pos hashes.outputLength_le

theorem length_mac (key message : List UInt8) :
    (Lib.Hmac.mac hash H.hashBlockSize key message).length = H.outputLength :=
  hashes.length _

theorem length_block (key info : List UInt8) (number : ℕ) :
    (Lib.Hkdf.block (Lib.Hmac.mac hash H.hashBlockSize) key info (number + 1)).length =
      H.outputLength :=
  hashes.length _

/-- `HKDF_Extract` computes what the standard has. -/
theorem extract_eq (secret : List UInt8) {salt : List UInt8}
    (short : salt.length ≤ Hmac.maximumKeylength) (small : H.outputLength ≤ Hmac.maximumKeylength) :
    extract H H.outputLength secret salt [] =
      some (Lib.Hkdf.extract (Lib.Hmac.mac hash H.hashBlockSize) H.outputLength salt secret) := by
  have key_short : (if salt = [] then List.replicate H.outputLength 0 else salt).length ≤
      Hmac.maximumKeylength := by
    split
    · simpa using small
    · exact short
  rcases Hmac.setKey_spec hashes ⟨H.newObject, [], []⟩ key_short with ⟨keyed, sets, keyed_holds⟩
  have computes := Hmac.computes hashes
    (if salt = [] then List.replicate H.outputLength 0 else salt)
  rcases computes.fed keyed_holds secret with ⟨fed, feeds, fed_holds⟩
  rcases computes.answered fed_holds with ⟨last, answers, -⟩
  simp only [Hmac.buffered] at feeds answers
  have whole := List.take_of_length_le (Nat.le_of_eq (length_mac hashes
    (if salt = [] then List.replicate H.outputLength 0 else salt) ([] ++ secret)))
  have positive : H.outputLength ≠ 0 := Nat.ne_of_gt hashes.positive
  simp only [extract, if_neg positive, Nat.lt_irrefl, if_false, List.length_nil, new_eq hashes,
    sets, feeds, answers, whole, Option.bind_eq_bind, Option.bind_some, Option.pure_def]
  rfl

/-- The loop with some blocks written already -/
theorem expandLoop_eq {key label : List UInt8} (count : ℕ) (prf : Hmac τ) (first fuel left : ℕ)
    (keyed : Hmac.Keyed H hash Holds key prf []) (enough : left ≤ count * H.outputLength)
    (fuelled : left ≤ fuel) :
    expandLoop H [] label fuel prf (UInt8.ofNat (first + 1))
        (Lib.Hkdf.block (Lib.Hmac.mac hash H.hashBlockSize) key label first) left =
      some (((List.range' first count).flatMap fun number =>
        Lib.Hkdf.block (Lib.Hmac.mac hash H.hashBlockSize) key label (number + 1)).take left) := by
  induction count generalizing prf first fuel left with
  | zero =>
      have none : left = 0 := by simpa using enough
      subst none
      cases fuel <;> simp [expandLoop]
  | succ count ih =>
      by_cases done : left = 0
      · subst done
        cases fuel <;> simp [expandLoop]
      · rcases fuel with _ | fuel
        · exact absurd (Nat.le_zero.mp fuelled) done
        have positive := hashes.positive
        have computes := Hmac.computes hashes key
        rcases computes.fed keyed (Lib.Hkdf.block (Lib.Hmac.mac hash H.hashBlockSize) key label
          first) with ⟨withBlock, block_feeds, block_holds⟩
        rcases computes.fed block_holds label with ⟨withLabel, label_feeds, label_holds⟩
        rcases computes.fed label_holds [] with ⟨withSalt, salt_feeds, salt_holds⟩
        rcases computes.fed salt_holds [UInt8.ofNat (first + 1)] with
          ⟨withCounter, counter_feeds, counter_holds⟩
        rcases computes.answered counter_holds with ⟨last, answers, last_holds⟩
        have value : Lib.Hmac.mac hash H.hashBlockSize key
            ([] ++ Lib.Hkdf.block (Lib.Hmac.mac hash H.hashBlockSize) key label first ++ label ++
              [] ++ [UInt8.ofNat (first + 1)]) =
                Lib.Hkdf.block (Lib.Hmac.mac hash H.hashBlockSize) key label (first + 1) := by
          simp only [List.nil_append, List.append_nil]
          rfl
        have length := length_block hashes key label first
        have next : UInt8.ofNat (first + 1) + 1 = UInt8.ofNat (first + 1 + 1) :=
          (UInt8.ofNat_add (first + 1) 1).symm
        rw [Nat.succ_mul] at enough
        have others := ih last (first + 1) fuel (left - min H.outputLength left) last_holds
          (by omega) (by omega)
        simp only [Hmac.buffered] at block_feeds label_feeds salt_feeds counter_feeds answers
        simp only [expandLoop, if_neg done, block_feeds, label_feeds, salt_feeds, counter_feeds,
          answers, value, length, next, others, Option.bind_eq_bind, Option.bind_some,
          Option.pure_def]
        exact congrArg some (Lib.Hkdf.take_blocks_succ key label length count left).symm

omit hashes in
theorem le_blocks {length : ℕ} (positive : 0 < length) (wanted : ℕ) :
    wanted ≤ (wanted + length - 1) / length * length := by
  have below := @Nat.lt_div_mul_add (wanted + length - 1) _ positive
  omega

/-- When it gives a key, and which -/
theorem kdf_eq (small : H.outputLength ≤ Hmac.maximumKeylength) (keyLen : ℕ)
    (secret salt label : List UInt8) :
    kdf H keyLen secret salt label =
      if salt.length ≤ Hmac.maximumKeylength ∧ keyLen ≤ H.outputLength * 255 then
        some (Lib.Hkdf.expand (Lib.Hmac.mac hash H.hashBlockSize) H.outputLength
          (Lib.Hkdf.extract (Lib.Hmac.mac hash H.hashBlockSize) H.outputLength salt secret) label
          keyLen)
      else none := by
  by_cases short : salt.length ≤ Hmac.maximumKeylength
  · have extracted := extract_eq hashes secret short small
    have prk_short : (Lib.Hkdf.extract (Lib.Hmac.mac hash H.hashBlockSize) H.outputLength salt
        secret).length ≤ Hmac.maximumKeylength :=
      (Nat.le_of_eq (length_mac hashes _ _)).trans small
    rcases Hmac.setKey_spec hashes ⟨H.newObject, [], []⟩ prk_short with ⟨keyed, sets, holds⟩
    simp only [kdf, extracted, Option.bind_eq_bind, Option.bind_some, expand, short, true_and]
    generalize Lib.Hkdf.extract (Lib.Hmac.mac hash H.hashBlockSize) H.outputLength salt secret =
      prk at sets holds ⊢
    by_cases none : keyLen = 0
    · simp [none, Lib.Hkdf.expand]
    · by_cases long : H.outputLength * 255 < keyLen
      · simp only [if_neg none, if_pos long, if_neg (Nat.not_le_of_lt long)]
      · have loop := @expandLoop_eq _ _ _ _ hashes prk label
          ((keyLen + H.outputLength - 1) / H.outputLength) keyed 0 keyLen keyLen holds
          (le_blocks hashes.positive keyLen) (Nat.le_refl _)
        simp only [if_neg none, if_neg long, if_pos (Nat.le_of_not_lt long), new_eq hashes, sets,
          Option.bind_some, Lib.Hkdf.expand, List.range_eq_range']
        exact loop
  · have refused : salt ≠ [] := by
      intro nothing
      exact short (by simp [nothing])
    have positive : H.outputLength ≠ 0 := Nat.ne_of_gt hashes.positive
    simp only [kdf, extract, if_neg positive, Nat.lt_irrefl, if_false, List.length_nil,
      new_eq hashes, if_neg refused, Hmac.setKey, short, false_and, Option.bind_eq_bind,
      Option.bind_some, Option.bind_none]

end Hkdf

end Imconee.Botan
