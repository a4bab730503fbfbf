import Imconee.Netkit.Scan6

/-!
# `ipap::parse`

A text with two colons goes to `parse6`. One with fewer colons is four numbers with dots between
them, which are written to where the octets are: a new `ipap` has them only where `getip_def` is
for IPv4.
-/

set_option autoImplicit false

namespace Imconee.Netkit

open Lib Numeral Str Ip6Group Ip6Text

/-- How `parse` ends if it does not return: a write to where a null pointer points, or what
`stoi` throws. -/
inductive ParseFault where
  | nullWrite
  | thrown (error : Errc)
  deriving DecidableEq

namespace Ipap

/-- `ipap(false)` with its words -/
def ofWords (words : List UInt16) (eight : words.length = 8) : Ipap where
  v4 := false
  octets := words.flatMap push16
  size := by simp [push16, eight]

def parse6 (getipDef : GetIp) (s : List UInt8) : Ipap :=
  match Scan6.loop {} s with
  | none => clear getipDef
  | some scan => ofWords scan.flush.words scan.flush.length_words

/-- A write to an octet; the fifth one is behind the address. -/
def setOctet (self : Ipap) (dst : ℕ) (octet : UInt8) : Ipap where
  v4 := self.v4
  octets := self.octets.set dst octet
  port := self.port
  size := (List.length_set ..).trans self.size

/-- `ipv4.s_addr = 0` -/
def zeroOctets (self : Ipap) : Ipap where
  v4 := self.v4
  octets := List.replicate (if self.v4 then 4 else 16) 0
  port := self.port
  size := List.length_replicate

/-- The loop of `parse` over the tokens: the address, and where it has been written. `dst` is an
offset from `octets`, which is null where the address is not for IPv4. -/
def octetLoop (rv : Ipap) (dst : ℕ) (stores : List ℕ) :
    List (List UInt8) → Except ParseFault (Ipap × List ℕ)
  | [] => .ok (rv, stores)
  | tkn :: tkns =>
      match stoi tkn with
      | .error thrown => .error (.thrown thrown)
      | .ok v =>
          if rv.v4 then
            let rv := rv.setOctet dst (UInt8.ofInt v)
            if 4 < dst + 1 then .ok (rv.zeroOctets, stores ++ [dst])
            else octetLoop rv (dst + 1) (stores ++ [dst]) tkns
          else .error .nullWrite

/-- `parse`: the address, and the offsets of the octets that have been written. -/
def parse (getipDef : GetIp) (s : List UInt8) : Except ParseFault (Ipap × List ℕ) :=
  if 2 ≤ s.count colon then .ok (parse6 getipDef s, [])
  else octetLoop (clear getipDef) 0 [] (tokens '.'.toUInt8 s)

theorem ofWords_inj {words other : List UInt16} {eight : words.length = 8}
    {otherEight : other.length = 8} :
    ofWords words eight = ofWords other otherEight ↔ words = other := by
  constructor
  · intro same
    have octets := congrArg (fun ip => wordsOf ip.octets) same
    simpa [ofWords] using octets
  · rintro rfl
    rfl

theorem two_le_count_text (t : Ip6Text) : 2 ≤ t.text.count colon := by
  cases t with
  | full groups eight =>
      match groups, eight with
      | [a, b, c, d, e, f, g, h], _ =>
          simp only [text, render_cons_cons, List.count_append, List.count_cons_self]
          omega
  | compressed left right fewer =>
      simp only [text, List.count_append, List.count_cons_self]
      omega

theorem parse_text (getipDef : GetIp) (t : Ip6Text) :
    ∃ eight, parse getipDef t.text = .ok (ofWords (Scan6.scanned t) eight, []) := by
  rcases Option.map_eq_some_iff.mp (Scan6.loop_text t) with ⟨scan, looped, words⟩
  refine ⟨words ▸ scan.flush.length_words, ?_⟩
  rw [parse, if_pos (two_le_count_text t), parse6, looped]
  dsimp only
  congr 2
  exact ofWords_inj.mpr words

theorem parse_text_iff (getipDef : GetIp) (t : Ip6Text) :
    parse getipDef t.text = .ok (ofWords t.words t.length_words, []) ↔ Scan6.ReadRight t := by
  rcases parse_text getipDef t with ⟨eight, parsed⟩
  rw [parsed, Except.ok.injEq, Prod.mk.injEq, and_iff_left rfl, ofWords_inj, Scan6.scanned_eq_iff]

theorem ne_zero_of_mem_beforeZeros {words : List UInt16} {w : UInt16}
    (mem : w ∈ beforeZeros words) : w ≠ 0 := by
  simpa using List.all_eq_true.mp List.all_takeWhile w mem

theorem length_beforeZeros_le_two {words : List UInt16} (zero : 0 ∈ words) :
    (beforeZeros words).length ≤ 2 ↔ 0 ∈ words.take 3 := by
  rcases append_zeros zero with ⟨count, same⟩
  constructor
  · intro few
    rw [same, List.take_append, List.replicate_succ, List.cons_append,
      show 3 - (beforeZeros words).length = (2 - (beforeZeros words).length) + 1 by omega,
      List.take_succ_cons]
    exact List.mem_append_right _ List.mem_cons_self
  · intro early
    by_contra many
    rw [same, List.take_append_of_le_length (by omega)] at early
    exact ne_zero_of_mem_beforeZeros (List.mem_of_mem_take early) rfl

/-- What `to_string` has written is read right if its zeros begin at one of the first three
words, or if there are none. -/
theorem readRight_ofWords {words : List UInt16} (eight : words.length = 8) :
    Scan6.ReadRight (Ip6Text.ofWords words eight) ↔
      0 ∈ words.take 3 ∨ 0 ∉ words ∧ words.getD 6 0 = words.getD 7 0 := by
  rw [Ip6Text.ofWords]
  split
  · rename_i zero
    rw [Scan6.ReadRight, length_groups, map_word_groups, ← length_beforeZeros_le_two zero,
      or_iff_left fun none => none.1 zero]
    split
    · rename_i seven
      refine iff_of_false (fun bad => ?_) (by omega)
      have mem : (beforeZeros words).getD 6 0 ∈ beforeZeros words := by
        rw [List.getD_eq_getElem?_getD, List.getElem?_eq_getElem (by omega), Option.getD_some]
        exact List.getElem_mem _
      exact ne_zero_of_mem_beforeZeros mem bad
    · constructor
      · intro zeros
        by_contra many
        have third : 2 < (groups (beforeZeros words)).length := by
          rw [length_groups]
          omega
        have mem : (groups (beforeZeros words))[2] ∈ (groups (beforeZeros words)).drop 2 := by
          rw [List.drop_eq_getElem_cons third]
          exact List.mem_cons_self
        have among := List.mem_map_of_mem (f := word) (List.mem_of_mem_drop mem)
        rw [map_word_groups, zeros _ mem] at among
        exact ne_zero_of_mem_beforeZeros among rfl
      · intro few
        rw [List.drop_eq_nil_of_le (by simpa using few)]
        simp
  · rename_i none
    rw [Scan6.ReadRight, map_word_groups]
    constructor
    · exact fun same => Or.inr ⟨none, same⟩
    · rintro (early | ⟨-, same⟩)
      · exact absurd (List.mem_of_mem_take early) none
      · exact same

/-- The text of an address is read as that address exactly if the scanner does not go wrong
about it; so is what `to_string` has written. -/
theorem parse_text_iff_readRight (getipDef : GetIp) :
    (∀ t : Ip6Text,
      parse getipDef t.text = .ok (ofWords t.words t.length_words, []) ↔ Scan6.ReadRight t) ∧
    ∀ ip : Ipap, ip.v4 = false →
      (parse getipDef (ip.toString false) = .ok ({ ip with port := 0 }, []) ↔
        0 ∈ ip.words.take 3 ∨ 0 ∉ ip.words ∧ ip.words.getD 6 0 = ip.words.getD 7 0) := by
  refine ⟨parse_text_iff getipDef, fun ip v6 => ?_⟩
  have same : ({ ip with port := 0 } : Ipap) =
      ofWords (Ip6Text.ofWords ip.words (length_words v6)).words (Ip6Text.length_words _) := by
    simp only [ofWords, words_ofWords, push16_words v6, v6]
  rw [toString_eq_text v6, ← readRight_ofWords (length_words v6), ← parse_text_iff getipDef, same]

/-- The zeros of this address begin at its third word. -/
theorem parse_text_documentation :
    parse .prior4 (documentation.toString false) = .ok ({ documentation with port := 0 }, []) :=
  ((parse_text_iff_readRight .prior4).2 documentation rfl).mpr (Or.inl (by decide))

/-- The text `1:2:3:4:5:6:7:8` -/
def eightGroups : List UInt8 :=
  ascii ['1', ':', '2', ':', '3', ':', '4', ':', '5', ':', '6', ':', '7', ':', '8']

theorem not_parse_eightGroups :
    Ip6Text.read eightGroups = some [1, 2, 3, 4, 5, 6, 7, 8] ∧
      parse .prior4 eightGroups ≠ .ok (ofWords [1, 2, 3, 4, 5, 6, 7, 8] rfl, []) := by
  decide +kernel

/-! ### IPv4 -/

/-- The text of an IPv4 address is its four numbers with dots between them. -/
theorem toString_v4 {ip : Ipap} (v4 : ip.v4 = true) :
    ip.toString false =
      ['.'.toUInt8].intercalate (ip.octets.map fun octet => print 10 octet.toNat) := by
  rcases ip with ⟨isV4, octets, port, size⟩
  dsimp only at v4
  subst v4
  match octets, size with
  | [a, b, c, d], _ =>
      simp [toString, Str.toString, ascii, List.intercalate_cons_cons]

theorem colon_notMem_toString {ip : Ipap} (v4 : ip.v4 = true) : colon ∉ ip.toString false := by
  have digits (octet : UInt8) : colon ∉ Str.toString octet.toNat := notMem_print rfl
  have dot : colon ∉ ascii ['.'] := by decide
  rw [toString, if_pos v4]
  simp only [Bool.false_eq_true, ↓reduceIte, List.mem_append, digits, dot, or_self,
    not_false_eq_true]

theorem stoi_octet (octet : UInt8) : stoi (print 10 octet.toNat) = .ok octet.toNat :=
  stoi_print (Nat.lt_trans octet.toNat_lt (by decide))

@[simp]
theorem ofInt_octet (octet : UInt8) : UInt8.ofInt octet.toNat = octet := by
  have lt := octet.toNat_lt
  have same : ((octet.toNat : ℤ) % 2 ^ 8).toNat = octet.toNat := by omega
  rw [UInt8.ofInt, same]
  exact UInt8.ofNat_toNat

/-- Each of the four octets is written, and nothing else. -/
theorem octetLoop_v4 {rv : Ipap} (v4 : rv.v4 = true) (a b c d : UInt8) :
    octetLoop rv 0 [] ([a, b, c, d].map fun octet => print 10 octet.toNat) =
      .ok (⟨rv.v4, [a, b, c, d], rv.port, by rw [v4]; rfl⟩, [0, 1, 2, 3]) := by
  rcases rv with ⟨isV4, octets, port, size⟩
  dsimp only at v4
  subst v4
  match octets, size with
  | [_, _, _, _], _ => simp [octetLoop, stoi_octet, setOctet]

/-- The text of an IPv4 address is read as that address if `getip_def` is for IPv4; else the first
octet is written to where a null pointer points. -/
theorem parse_v4 (getipDef : GetIp) {ip : Ipap} (v4 : ip.v4 = true) :
    parse getipDef (ip.toString false) =
      if getipDef.v4 then .ok ({ ip with port := 0 }, [0, 1, 2, 3]) else .error .nullWrite := by
  have proper : ∀ piece ∈ ip.octets.map fun octet => print 10 octet.toNat,
      '.'.toUInt8 ∉ piece ∧ piece ≠ [] := by
    intro piece mem
    rcases List.mem_map.mp mem with ⟨octet, -, rfl⟩
    exact ⟨notMem_print rfl, print_ne_nil 10 octet.toNat⟩
  rw [parse, List.count_eq_zero.mpr (colon_notMem_toString v4), if_neg (by decide),
    toString_v4 v4, tokens_intercalate proper]
  rcases ip with ⟨isV4, octets, port, size⟩
  dsimp only at v4
  subst v4
  match octets, size with
  | [a, b, c, d], _ =>
      dsimp only
      split
      · rename_i family
        rw [octetLoop_v4 family]
        simp only [family, clear]
      · rename_i family
        simp [octetLoop, stoi_octet, clear, family]

theorem parse_v4_iff (getipDef : GetIp) (ip : Ipap) (v4 : ip.v4 = true) :
    parse getipDef (ip.toString false) = .ok ({ ip with port := 0 }, [0, 1, 2, 3]) ↔
      getipDef.v4 = true := by
  rw [parse_v4 getipDef v4]
  split
  · rename_i family
    exact iff_of_true rfl family
  · rename_i family
    exact iff_of_false (by simp) family

/-- `127.0.0.1` -/
def localhost : Ipap where
  v4 := true
  octets := [127, 0, 0, 1]
  size := rfl

theorem parse_v4_iff_localhost :
    parse .prior4 (localhost.toString false) = .ok (localhost, [0, 1, 2, 3]) :=
  (parse_v4_iff .prior4 localhost rfl).mpr rfl

/-- On a machine that is configured for IPv6 -/
theorem not_parse_localhost :
    localhost.toString false = ascii ['1', '2', '7', '.', '0', '.', '0', '.', '1'] ∧
      parse .only6 (localhost.toString false) = .error .nullWrite ∧
      parse .only6 (localhost.toString false) ≠ .ok (localhost, [0, 1, 2, 3]) := by
  decide +kernel

end Ipap

end Imconee.Netkit
