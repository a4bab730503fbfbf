import Imconee.Botan.Hkdf
import Imconee.Botan.Md5
import Imconee.Botan.Sha1Class
import Imconee.Startup.Build

/-!
# The keys of shadowsocks

`evpBytesToKey` makes the master key out of the password with MD5, and `deriveAeadSubkey` the key
of one direction out of the master key and a salt with HKDF over SHA-1, both with the objects of
the library.
-/

set_option autoImplicit false

namespace Imconee.Shadowsocks

open Imconee.Lib Imconee.Botan Imconee.Startup

/-! ### The master key -/

/-- `md5Hash`: what `final` writes to `out` -/
def md5Hash (input : List UInt8) : Option (List UInt8) := do
  let updated ← (MerkleDamgardHash.new MD5.md).update input
  let digest ← updated.final
  return digest.1

/-- The MD5 of a text -/
def md5Digest (input : List UInt8) : Vector UInt8 16 where
  toArray := (Lib.Md5.scheme.hash input).toArray
  size_toArray := by
    simp [MerkleDamgard.hash, Lib.Md5.scheme, Lib.Md5.output]

theorem md5Hash_eq (input : List UInt8) : md5Hash input = some (md5Digest input).toList := by
  have start : MerkleDamgardHash.Holds Lib.Md5.compress (MerkleDamgardHash.new MD5.md) [] :=
    MerkleDamgardHash.holds_clear
  rcases MD5.computes.fed start input with ⟨updated, updates, holds⟩
  rcases MD5.computes.answered holds with ⟨last, answers, -⟩
  simp only [MerkleDamgardHash.buffered] at updates answers
  simp only [md5Hash, updates, answers, Option.bind_eq_bind, Option.bind_some, Option.pure_def]
  rfl

section

variable (md5 : List UInt8 → Vector UInt8 16) (password : List UInt8)

/-- Each digest is that of the one before and the password. -/
def digestAt : ℕ → List UInt8
  | 0 => (md5 password).toList
  | number + 1 => (md5 (digestAt number ++ password)).toList

def digests (count : ℕ) : List UInt8 := (List.range count).flatMap (digestAt md5 password)

variable {md5 password}

theorem length_digestAt (number : ℕ) : (digestAt md5 password number).length = 16 := by
  cases number <;> simp [digestAt]

theorem digests_succ (count : ℕ) :
    digests md5 password (count + 1) =
      digests md5 password count ++ digestAt md5 password count := by
  simp [digests, List.range_succ]

theorem length_digests (count : ℕ) : (digests md5 password count).length = count * 16 := by
  induction count with
  | zero => rfl
  | succ count ih =>
      simp only [digests_succ, List.length_append, ih, length_digestAt, Nat.succ_mul]

/-- More digests than are needed do not change the key. -/
theorem take_digests {keyLen fewer : ℕ} (enough : keyLen ≤ fewer * 16) {more : ℕ}
    (order : fewer ≤ more) :
    (digests md5 password more).take keyLen = (digests md5 password fewer).take keyLen := by
  rcases Nat.exists_eq_add_of_le order with ⟨others, rfl⟩
  simp only [digests, List.range_add, List.flatMap_append]
  apply List.take_append_of_le_length
  have length := @length_digests md5 password fewer
  simp only [digests] at length
  omega

/-- The loop with some digests in the key already -/
theorem evpLoop_eq {keyLen wanted : ℕ} (enough : keyLen ≤ wanted * 16) (count : ℕ)
    (prevm : List UInt8) (next : (md5 (prevm ++ password)).toList = digestAt md5 password count) :
    evpLoop md5 keyLen password (digests md5 password count) prevm =
      (digests md5 password wanted).take keyLen := by
  induction left : keyLen - count * 16 using Nat.strongRecOn generalizing count prevm with
  | _ left ih =>
      have length := @length_digests md5 password (count + 1)
      rw [evpLoop]
      simp only [next, ← digests_succ, length]
      split
      · rename_i filled
        rcases Nat.le_total (count + 1) wanted with fewer | more
        · exact (take_digests filled fewer).symm
        · exact take_digests enough more
      · rename_i short
        exact ih (keyLen - (count + 1) * 16) (by omega) (count + 1) _ rfl rfl

end

/-- The master key is made of the digests of the library, one after another. -/
theorem master_of_password (keyLen : ℕ) (password : List UInt8) :
    (∀ input, md5Hash input = some (md5Digest input).toList) ∧
      evpBytesToKey md5Digest keyLen password =
        (digests (fun text => md5Digest text) password ((keyLen + 15) / 16)).take keyLen := by
  refine ⟨md5Hash_eq, ?_⟩
  exact evpLoop_eq (by omega) 0 [] rfl

/-! ### The key of a session -/

/-- `SHA_1` as a class of hash functions -/
def sha1 (cpu : SHA1.Cpu) : HashFunction (MerkleDamgardHash (SHA1.md cpu)) :=
  MerkleDamgardHash.hashFunction (SHA1.md cpu) (SHA1.blockBytes_lt cpu)

theorem outputLength_sha1 (cpu : SHA1.Cpu) : (sha1 cpu).outputLength = 20 := rfl

theorem hashBlockSize_sha1 (cpu : SHA1.Cpu) : (sha1 cpu).hashBlockSize = 64 := rfl

/-- Whatever the processor is -/
theorem hashes_sha1 (cpu : SHA1.Cpu) :
    (sha1 cpu).Hashes Lib.Sha1.scheme.hash (MerkleDamgardHash.Holds Lib.Sha1.compress) := by
  apply MerkleDamgardHash.hashes (SHA1.outputBytes_pos cpu) (SHA1.computes cpu)
  · intro object
    exact MerkleDamgardHash.holds_clear
  · intro digest
    simp [Lib.Sha1.scheme, Lib.Sha1.output, SHA1.md]

/-- A processor with the SHA instructions -/
def shaCpu : SHA1.Cpu where
  hasSse2 := true
  shaBit := true

theorem macs_of_session_sha1 :
    Hmac.session (sha1 shaCpu) ⟨(sha1 shaCpu).newObject, [], []⟩
        [([], [.update [97], .final]), ([1, 2], [.update [98], .update [99], .final, .final])] =
      some [[Lib.Hmac.mac Lib.Sha1.scheme.hash (sha1 shaCpu).hashBlockSize [] [97]],
        [Lib.Hmac.mac Lib.Sha1.scheme.hash (sha1 shaCpu).hashBlockSize [1, 2] [98, 99],
          Lib.Hmac.mac Lib.Sha1.scheme.hash (sha1 shaCpu).hashBlockSize [1, 2] []]] :=
  Hmac.macs_of_session (hashes_sha1 shaCpu) ⟨(sha1 shaCpu).newObject, [], []⟩ (by decide)

/-- `ss-subkey` -/
def subkeyLabel : List UInt8 := Str.ascii ['s', 's', '-', 's', 'u', 'b', 'k', 'e', 'y']

/-- `deriveAeadSubkey` -/
def deriveAeadSubkey (cpu : SHA1.Cpu) (length : ℕ) (masterKey salt : List UInt8) :
    Option (List UInt8) :=
  Hkdf.kdf (sha1 cpu) length masterKey salt subkeyLabel

/-- HMAC with SHA-1 -/
def hmacSha1 : List UInt8 → List UInt8 → List UInt8 := Lib.Hmac.mac Lib.Sha1.scheme.hash 64

/-- When there is a key, and that it is the one of HKDF, whatever the processor is. -/
theorem subkey_of_master (cpu : SHA1.Cpu) (length : ℕ) (masterKey salt : List UInt8) :
    deriveAeadSubkey cpu length masterKey salt =
      if salt.length ≤ 4096 ∧ length ≤ 5100 then
        some (Lib.Hkdf.expand hmacSha1 20 (Lib.Hkdf.extract hmacSha1 20 salt masterKey)
          subkeyLabel length)
      else none := by
  have small : (sha1 cpu).outputLength ≤ Hmac.maximumKeylength := by
    rw [outputLength_sha1]
    decide
  have whole := Hkdf.kdf_eq (hashes_sha1 cpu) small length masterKey salt subkeyLabel
  rwa [outputLength_sha1, hashBlockSize_sha1] at whole

end Imconee.Shadowsocks
