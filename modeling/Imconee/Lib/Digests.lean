import Imconee.Lib.LittleEndian
import Imconee.Lib.MerkleDamgard

/-!
# MD5 and SHA-1

The two functions as RFC 1321 and FIPS 180-4 have them: each step is one of a loop, and the
variables change their names with every step.
-/

set_option autoImplicit false

namespace Imconee.Lib

/-- The circular left shift -/
def rotateLeft (shift word : UInt32) : UInt32 := (word <<< shift) ||| (word >>> (32 - shift))

/-- A block of bytes as words -/
def wordsLe (block : List UInt8) : List UInt32 :=
  (List.range 16).map fun index =>
    UInt32.ofNat (LittleEndian.decode ((block.drop (4 * index)).take 4))

def wordsBe (block : List UInt8) : List UInt32 :=
  (List.range 16).map fun index =>
    UInt32.ofNat (LittleEndian.decode ((block.drop (4 * index)).take 4).reverse)

/-- A number of 64 bits at the end of the padding -/
def lengthLe (length : ℕ) : List UInt8 := LittleEndian.encode 8 (length * 8)

def lengthBe (length : ℕ) : List UInt8 := (LittleEndian.encode 8 (length * 8)).reverse

namespace Md5

@[ext]
structure Words where
  a : UInt32
  b : UInt32
  c : UInt32
  d : UInt32
  deriving DecidableEq, Repr

def init : Words := ⟨0x67452301, 0xefcdab89, 0x98badcfe, 0x10325476⟩

/-- F, G, H and I -/
def mix (round : ℕ) (x y z : UInt32) : UInt32 :=
  match round with
  | 0 => (x &&& y) ||| (~~~x &&& z)
  | 1 => (x &&& z) ||| (y &&& ~~~z)
  | 2 => x ^^^ y ^^^ z
  | _ => y ^^^ (x ||| ~~~z)

/-- Which word of the block a step takes -/
def index (i : ℕ) : ℕ :=
  match i / 16 with
  | 0 => i
  | 1 => (5 * i + 1) % 16
  | 2 => (3 * i + 5) % 16
  | _ => 7 * i % 16

def shift (i : ℕ) : UInt32 :=
  match i / 16 with
  | 0 => [7, 12, 17, 22].getD (i % 4) 0
  | 1 => [5, 9, 14, 20].getD (i % 4) 0
  | 2 => [4, 11, 16, 23].getD (i % 4) 0
  | _ => [6, 10, 15, 21].getD (i % 4) 0

/-- The integer parts of 4294967296 times the sines of 1, 2 and so on -/
def sines : List UInt32 := [
    0xD76AA478, 0xE8C7B756, 0x242070DB, 0xC1BDCEEE, 0xF57C0FAF, 0x4787C62A,
    0xA8304613, 0xFD469501, 0x698098D8, 0x8B44F7AF, 0xFFFF5BB1, 0x895CD7BE,
    0x6B901122, 0xFD987193, 0xA679438E, 0x49B40821, 0xF61E2562, 0xC040B340,
    0x265E5A51, 0xE9B6C7AA, 0xD62F105D, 0x02441453, 0xD8A1E681, 0xE7D3FBC8,
    0x21E1CDE6, 0xC33707D6, 0xF4D50D87, 0x455A14ED, 0xA9E3E905, 0xFCEFA3F8,
    0x676F02D9, 0x8D2A4C8A, 0xFFFA3942, 0x8771F681, 0x6D9D6122, 0xFDE5380C,
    0xA4BEEA44, 0x4BDECFA9, 0xF6BB4B60, 0xBEBFBC70, 0x289B7EC6, 0xEAA127FA,
    0xD4EF3085, 0x04881D05, 0xD9D4D039, 0xE6DB99E5, 0x1FA27CF8, 0xC4AC5665,
    0xF4292244, 0x432AFF97, 0xAB9423A7, 0xFC93A039, 0x655B59C3, 0x8F0CCC92,
    0xFFEFF47D, 0x85845DD1, 0x6FA87E4F, 0xFE2CE6E0, 0xA3014314, 0x4E0811A1,
    0xF7537E82, 0xBD3AF235, 0x2AD7D2BB, 0xEB86D391]

def step (block : List UInt32) (v : Words) (i : ℕ) : Words where
  a := v.d
  b := v.b + rotateLeft (shift i)
    (v.a + mix (i / 16) v.b v.c v.d + block.getD (index i) 0 + sines.getD i 0)
  c := v.b
  d := v.c

def Words.add (v w : Words) : Words := ⟨v.a + w.a, v.b + w.b, v.c + w.c, v.d + w.d⟩

def compress (v : Words) (block : List UInt8) : Words :=
  v.add ((List.range 64).foldl (step (wordsLe block)) v)

def output (v : Words) : List UInt8 :=
  [v.a, v.b, v.c, v.d].flatMap fun word => LittleEndian.encode 4 word.toNat

def scheme : MerkleDamgard Words UInt8 (List UInt8) where
  size := 64
  init := init
  compress := compress
  mark := 0x80
  blank := 0
  trailer := lengthLe
  output := output

end Md5

namespace Sha1

@[ext]
structure Words where
  a : UInt32
  b : UInt32
  c : UInt32
  d : UInt32
  e : UInt32
  deriving DecidableEq, Repr

def init : Words := ⟨0x67452301, 0xefcdab89, 0x98badcfe, 0x10325476, 0xc3d2e1f0⟩

/-- Ch, Parity and Maj -/
def mix (round : ℕ) (x y z : UInt32) : UInt32 :=
  match round with
  | 0 => (x &&& y) ^^^ (~~~x &&& z)
  | 2 => (x &&& y) ^^^ (x &&& z) ^^^ (y &&& z)
  | _ => x ^^^ y ^^^ z

def constant (round : ℕ) : UInt32 :=
  match round with
  | 0 => 0x5a827999
  | 1 => 0x6ed9eba1
  | 2 => 0x8f1bbcdc
  | _ => 0xca62c1d6

/-- The word `t` of the message schedule, behind the words that are there already -/
def scheduled (words : List UInt32) (t : ℕ) : UInt32 :=
  rotateLeft 1 (words.getD (t - 3) 0 ^^^ words.getD (t - 8) 0 ^^^ words.getD (t - 14) 0 ^^^
    words.getD (t - 16) 0)

/-- The message schedule up to the word before `t` -/
def schedule (block : List UInt8) (t : ℕ) : List UInt32 :=
  (List.range' 16 (t - 16)).foldl (fun words t => words ++ [scheduled words t]) (wordsBe block)

def step (words : List UInt32) (v : Words) (t : ℕ) : Words where
  a := rotateLeft 5 v.a + mix (t / 20) v.b v.c v.d + v.e + constant (t / 20) + words.getD t 0
  b := v.a
  c := rotateLeft 30 v.b
  d := v.c
  e := v.d

def Words.add (v w : Words) : Words :=
  ⟨v.a + w.a, v.b + w.b, v.c + w.c, v.d + w.d, v.e + w.e⟩

def compress (v : Words) (block : List UInt8) : Words :=
  v.add ((List.range 80).foldl (step (schedule block 80)) v)

def output (v : Words) : List UInt8 :=
  [v.a, v.b, v.c, v.d, v.e].flatMap fun word => (LittleEndian.encode 4 word.toNat).reverse

def scheme : MerkleDamgard Words UInt8 (List UInt8) where
  size := 64
  init := init
  compress := compress
  mark := 0x80
  blank := 0
  trailer := lengthBe
  output := output

end Sha1

end Imconee.Lib
