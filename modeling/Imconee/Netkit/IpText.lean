import Imconee.Lib.Ip6Text
import Imconee.Netkit.Endpoint
import Imconee.Tools.Strings

/-!
# `ipap::to_string`

The text of an IPv6 address is written in one pass over its words: groups until the first zero,
two colons for the zeros that follow, and groups from there on. That text is one of the address,
in lower case and without leading zeros.
-/

set_option autoImplicit false

namespace Imconee.Netkit

open Lib Numeral Str Ip6Group Ip6Text

/-- The words that octets make up, as `to_he` gives them. -/
def wordsOf : List UInt8 → List UInt16
  | high :: low :: octets => portOf high low :: wordsOf octets
  | _ => []

@[simp]
theorem length_wordsOf (octets : List UInt8) : (wordsOf octets).length = octets.length / 2 := by
  fun_induction wordsOf octets with
  | case1 high low octets ih =>
      simp only [List.length_cons, ih]
      omega
  | case2 octets short =>
      rcases octets with - | ⟨octet, - | ⟨next, octets⟩⟩
      · rfl
      · exact (Nat.div_eq_of_lt (Nat.lt_succ_self 1)).symm
      · exact absurd rfl (short octet next octets)

@[simp]
theorem wordsOf_push16 (words : List UInt16) : wordsOf (words.flatMap push16) = words := by
  induction words with
  | nil => rfl
  | cons word words ih =>
      rw [List.flatMap_cons, push16, List.cons_append, List.cons_append, List.nil_append, wordsOf,
        portOf_bytes, ih]

/-- Two bytes are what is pushed of the port that they make up. -/
theorem push16_portOf (high low : UInt8) : push16 (portOf high low) = [high, low] := by
  have highLt := high.toNat_lt
  have lowLt := low.toNat_lt
  have shifted : high.toNat <<< 8 % 65536 = high.toNat * 256 := by
    rw [Nat.shiftLeft_eq]
    omega
  have joined : (portOf high low).toNat = high.toNat * 256 + low.toNat := by
    rw [← Nat.shiftLeft_eq high.toNat 8, Nat.shiftLeft_add_eq_or_of_lt lowLt, Nat.shiftLeft_eq,
      ← shifted]
    simp [portOf, UInt16.toNat_or, UInt16.toNat_shiftLeft]
  rw [push16, highByte, lowByte]
  congr 1
  · apply UInt8.toNat_inj.mp
    rw [UInt16.toNat_toUInt8, UInt16.toNat_shiftRight, joined]
    change (high.toNat * 256 + low.toNat) >>> 8 % 256 = high.toNat
    rw [Nat.shiftRight_eq_div_pow]
    omega
  · congr 1
    apply UInt8.toNat_inj.mp
    rw [UInt16.toNat_toUInt8, joined]
    omega

/-- The octets that are written for words are those that they came from. -/
theorem push16_wordsOf {octets : List UInt8} (even : octets.length % 2 = 0) :
    (wordsOf octets).flatMap push16 = octets := by
  fun_induction wordsOf octets with
  | case1 high low octets ih =>
      rw [List.flatMap_cons, push16_portOf, ih]
      · rfl
      · simpa only [List.length_cons, Nat.add_assoc, Nat.add_mod_right] using even
  | case2 octets short =>
      rcases octets with - | ⟨octet, - | ⟨next, octets⟩⟩
      · rfl
      · cases even
      · exact absurd rfl (short octet next octets)

namespace Ipap

/-- `words`, in the order of the host -/
def words (self : Ipap) : List UInt16 := if self.v4 then [] else wordsOf self.octets

/-- The loop of `to_string` over the words from the `i`-th on. -/
def toStringLoop (i : ℕ) (col clp needz : Bool) (s : List UInt8) : List UInt16 → List UInt8
  | [] => s
  | w :: ww =>
      if w = 0 ∧ ¬needz then
        let s := if ¬col then if clp then s ++ ascii [':'] else s ++ ascii [':', ':'] else s
        toStringLoop (i + 1) true clp needz s ww
      else
        let needz := if col then true else needz
        let s := appendHex 2 s w.toNat
        if i < 7 then toStringLoop (i + 1) col true needz (s ++ ascii [':']) ww
        else toStringLoop (i + 1) col clp needz s ww

/-- `to_string` -/
def toString (self : Ipap) (withPort : Bool) : List UInt8 :=
  if self.v4 then
    let s := Str.toString (self.octets.getD 0 0).toNat
    let s := s ++ ascii ['.'] ++ Str.toString (self.octets.getD 1 0).toNat
    let s := s ++ ascii ['.'] ++ Str.toString (self.octets.getD 2 0).toNat
    let s := s ++ ascii ['.'] ++ Str.toString (self.octets.getD 3 0).toNat
    if withPort then s ++ ascii [':'] ++ Str.toString self.port.toNat else s
  else
    let s := if withPort then ascii ['['] else []
    let s := toStringLoop 0 false false false s self.words
    if withPort then s ++ ascii [']', ':'] ++ Str.toString self.port.toNat else s

variable {self : Ipap} {ww : List UInt16} {i : ℕ} {w : UInt16}

theorem appendHex_word (s : List UInt8) (w : UInt16) :
    appendHex 2 s w.toNat = s ++ (ofWord w).chars :=
  appendHex_eq w.toNat_lt s

theorem eight_tail (eight : i + (w :: ww).length = 8) : i + 1 + ww.length = 8 := by
  rw [List.length_cons] at eight
  omega

/-- A word that is not skipped, and all behind it where none is. -/
theorem toStringLoop_cons {col clp needz : Bool} {s : List UInt8} {tail : List UInt8}
    (pushed : ¬(w = 0 ∧ ¬needz = true)) (eight : i + (w :: ww).length = 8)
    (more : ∀ t, toStringLoop (i + 1) col true (col || needz) (t ++ ascii [':']) ww =
      t ++ ascii [':'] ++ tail) :
    toStringLoop i col clp needz s (w :: ww) =
      s ++ (ofWord w).chars ++ if ww = [] then [] else colon :: tail := by
  rw [List.length_cons] at eight
  rw [toStringLoop, if_neg pushed, appendHex_word]
  cases ww with
  | nil =>
      rw [List.length_nil] at eight
      rw [if_neg (show ¬i < 7 by omega), toStringLoop, if_pos rfl, List.append_nil]
  | cons next ww =>
      rw [List.length_cons] at eight
      have flag : (if col = true then true else needz) = (col || needz) := by
        cases col <;> rfl
      rw [if_pos (show i < 7 by omega), if_neg (List.cons_ne_nil next ww), flag, more,
        List.append_assoc _ (ascii [':'])]
      rfl

/-- Behind the zeros that have been skipped every word is pushed. -/
theorem toStringLoop_needz (col clp : Bool) (s : List UInt8) (eight : i + ww.length = 8) :
    toStringLoop i col clp true s ww = s ++ render (groups ww) := by
  induction ww generalizing i clp s with
  | nil => exact (List.append_nil s).symm
  | cons w ww ih =>
      have next := eight_tail eight
      rw [toStringLoop_cons (by simp) eight fun t => by rw [Bool.or_true]; exact ih true _ next,
        List.append_assoc, render_groups_cons]

theorem toStringLoop_col (clp : Bool) (s : List UInt8) (eight : i + ww.length = 8) :
    toStringLoop i true clp false s ww =
      s ++ render (groups (ww.dropWhile (· = 0))) := by
  induction ww generalizing i with
  | nil => exact (List.append_nil s).symm
  | cons w ww ih =>
      have next := eight_tail eight
      by_cases zero : w = 0
      · rw [List.dropWhile_cons_of_pos (by simpa using zero), ← ih next]
        simp [toStringLoop, zero]
      · rw [List.dropWhile_cons_of_neg (by simpa using zero), render_groups_cons,
          toStringLoop_cons (by simp [zero]) eight fun t => toStringLoop_needz true true _ next,
          List.append_assoc]

/-- What is written from a word on, behind a colon or at the start of the text. -/
def written (clp : Bool) (ww : List UInt16) : List UInt8 :=
  if 0 ∈ ww then
    render (groups (beforeZeros ww)) ++
      ((if beforeZeros ww = [] ∧ clp = true then ascii [':'] else ascii [':', ':']) ++
        render (groups (behindZeros ww)))
  else render (groups ww)

theorem written_zero (clp : Bool) (ww : List UInt16) :
    written clp (0 :: ww) =
      (if clp = true then ascii [':'] else ascii [':', ':']) ++
        render (groups (ww.dropWhile (· = 0))) := by
  rw [written, if_pos (List.mem_cons_self), beforeZeros_zero, behindZeros_zero]
  simp only [true_and]
  rfl

/-- The colon behind the last word before the zeros is one of the two. -/
theorem written_cons (clp : Bool) {w : UInt16} (nonzero : w ≠ 0) (ww : List UInt16) :
    written clp (w :: ww) =
      (ofWord w).chars ++ if ww = [] then [] else colon :: written true ww := by
  by_cases zero : 0 ∈ ww
  · have more : ww ≠ [] := List.ne_nil_of_mem zero
    rw [written, if_pos (List.mem_cons_of_mem w zero), beforeZeros_cons nonzero,
      behindZeros_cons nonzero, render_groups_cons, if_neg more, written, if_pos zero]
    by_cases last : beforeZeros ww = []
    · rw [last, if_pos rfl, if_neg (by simp), if_pos (by simp), List.append_nil]
      rfl
    · simp [last]
  · rw [written, if_neg (by simp [zero, Ne.symm nonzero]), written, if_neg zero, render_groups_cons]

/-- From the start words are pushed until there is a zero. -/
theorem toStringLoop_start (clp : Bool) (s : List UInt8) (eight : i + ww.length = 8) :
    toStringLoop i false clp false s ww = s ++ written clp ww := by
  induction ww generalizing i clp s with
  | nil => exact (List.append_nil s).symm
  | cons w ww ih =>
      have next := eight_tail eight
      by_cases zero : w = 0
      · subst zero
        rw [toStringLoop, if_pos ⟨rfl, by decide⟩, written_zero]
        simp only [toStringLoop_col clp _ next]
        cases clp <;> simp
      · rw [toStringLoop_cons (by simp [zero]) eight fun t => ih true _ next, written_cons clp zero,
          List.append_assoc]

theorem length_words (v6 : self.v4 = false) : self.words.length = 8 := by
  have size := self.size
  rw [v6] at size
  rw [words, v6, if_neg Bool.false_ne_true, length_wordsOf, size]
  rfl

theorem push16_words (v6 : self.v4 = false) : self.words.flatMap push16 = self.octets := by
  have size := self.size
  rw [v6] at size
  rw [words, v6, if_neg Bool.false_ne_true, push16_wordsOf (by rw [size]; rfl)]

theorem toString_eq_text (v6 : self.v4 = false) :
    self.toString false = (Ip6Text.ofWords self.words (length_words v6)).text := by
  have eight : 0 + self.words.length = 8 := by rw [length_words v6]
  rw [toString, v6, if_neg Bool.false_ne_true]
  simp only [Bool.false_eq_true, ↓reduceIte]
  rw [toStringLoop_start false [] eight, List.nil_append, written, ofWords]
  split
  · rw [text, if_neg (by simp)]
    rfl
  · rfl

theorem toString_withPort (v6 : self.v4 = false) :
    self.toString true =
      ascii ['['] ++ self.toString false ++ ascii [']', ':'] ++ Str.toString self.port.toNat := by
  have eight : 0 + self.words.length = 8 := by rw [length_words v6]
  simp only [toString, v6, Bool.false_eq_true, ↓reduceIte]
  rw [toStringLoop_start false _ eight, toStringLoop_start false [] eight, List.nil_append]

/-- The text of an IPv6 address is one in lower case and without leading zeros, and denotes
that address and no other one. -/
theorem toString_denotes (self : Ipap) (v6 : self.v4 = false) :
    (∃ t : Ip6Text, t.text = self.toString false ∧ t.Plain ∧ t.words = self.words) ∧
      (Ip6Text.read (self.toString false)).map (·.flatMap push16) = some self.octets ∧
      (∀ other : Ipap, other.v4 = false → other.toString false = self.toString false →
        other.octets = self.octets) ∧
      self.toString true =
        ascii ['['] ++ self.toString false ++ ascii [']', ':'] ++
          Str.toString self.port.toNat := by
  have denotes : ∀ ip : Ipap, ip.v4 = false →
      (Ip6Text.read (ip.toString false)).map (·.flatMap push16) = some ip.octets := by
    intro ip v6
    rw [toString_eq_text v6, read_text, words_ofWords, Option.map_some, push16_words v6]
  refine ⟨⟨_, (toString_eq_text v6).symm, plain_ofWords _, words_ofWords _⟩, denotes self v6, ?_,
    toString_withPort v6⟩
  intro other otherV6 same
  have both := denotes other otherV6
  rw [same, denotes self v6] at both
  exact (Option.some.inj both).symm

/-- `2001:db8::1`, with the port 80 -/
def documentation : Ipap where
  v4 := false
  octets := [0x20, 0x01, 0x0d, 0xb8, 0, 0, 0, 0, 0, 0, 0, 0, 0, 0, 0, 1]
  port := 80
  size := rfl

theorem toString_denotes_documentation :
    (Ip6Text.read (documentation.toString false)).map (·.flatMap push16) =
      some documentation.octets :=
  (toString_denotes documentation rfl).2.1

example : documentation.toString true =
    ascii ['[', '2', '0', '0', '1', ':', 'd', 'b', '8', ':', ':', '1', ']', ':', '8', '0'] := by
  decide +kernel

end Ipap

end Imconee.Netkit
