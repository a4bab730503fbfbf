import Imconee.Netkit.IpText

/-!
# `ipap::parse6`

A scanner with groups before and behind the place where the zeros are left out. It takes the
second colon of a text for the second of two in a row, whatever is between them: the groups from
the third one on always go to the end of the address.
-/

set_option autoImplicit false

namespace Imconee.Netkit

open Lib Numeral Str Ip6Group Ip6Text

/-- What the loop of `parse6` keeps. The arrays are what has been written to them, the words in
the order of the host. -/
structure Scan6 where
  colon : Bool := false
  fillright : Bool := false
  somedigits : ℕ := 0
  left : List UInt16 := []
  rite : List UInt16 := []
  current : UInt16 := 0

/-- The lambda `hexdig` -/
def hexdig (c : UInt8) : UInt8 :=
  if 48 ≤ c ∧ c ≤ 57 then c - 48
  else if 97 ≤ c ∧ c ≤ 102 then c - 97 + 10
  else if 65 ≤ c ∧ c ≤ 70 then c - 65 + 10
  else 255

namespace Scan6

/-- The lambda `pushdig` -/
def pushdig (self : Scan6) : Bool × Scan6 :=
  if self.fillright then
    let self := { self with rite := self.rite ++ [self.current] }
    (self.left.length + self.rite.length = 7, self)
  else
    let self := { self with left := self.left ++ [self.current] }
    (self.left.length = 8, self)

/-- The loop of `parse6`; `none` is the return of a new `ipap`. -/
def loop : Scan6 → List UInt8 → Option Scan6
  | self, [] => some self
  | self, c :: s =>
      if c = Lib.colon then
        let pushed := if 0 < self.somedigits then self.pushdig else (false, self)
        if pushed.1 then some pushed.2
        else
          let self := pushed.2
          loop { self with
            fillright := if self.colon then true else self.fillright
            colon := true
            current := 0
            somedigits := 0 } s
      else
        let hd := hexdig c
        if hd = 255 then none
        else
          let self := { self with
            current := (self.current <<< 4) + hd.toUInt16
            somedigits := self.somedigits + 1 }
          if self.somedigits = 5 then none else loop self s

/-- The group that is open at the end -/
def flush (self : Scan6) : Scan6 := if self.somedigits ≠ 0 then self.pushdig.2 else self

/-- What is copied to the words of the address. -/
def words (self : Scan6) : List UInt16 :=
  (self.left ++ List.replicate (8 - self.rite.length - self.left.length) 0 ++ self.rite).take 8

theorem length_words (self : Scan6) : self.words.length = 8 := by
  simp only [words, List.length_take, List.length_append, List.length_replicate]
  omega

end Scan6

theorem hexdig_of_charDigit {c : UInt8} {digit : ℕ} (stands : charDigit c = some digit) :
    (hexdig c).toNat = digit := by
  simp only [charDigit, UInt8.le_iff_toNat_le, UInt8.reduceToNat] at stands
  simp only [hexdig, UInt8.le_iff_toNat_le, UInt8.reduceToNat]
  have lt := c.toNat_lt
  split_ifs at stands ⊢ <;> cases stands <;>
    simp only [UInt8.toNat_add, UInt8.toNat_sub, UInt8.reduceToNat] <;> omega

namespace Scan6

variable {self : Scan6}

theorem shift_add (n : ℕ) {c : UInt8} {digit : ℕ} (stands : charDigit c = some digit) :
    (UInt16.ofNat n <<< 4) + (hexdig c).toUInt16 = UInt16.ofNat (16 * n + digit) := by
  apply UInt16.toNat_inj.mp
  simp only [UInt16.toNat_add, UInt16.toNat_shiftLeft, UInt8.toNat_toUInt16,
    hexdig_of_charDigit stands, UInt16.toNat_ofNat', Nat.shiftLeft_eq]
  change (n % 65536 * 2 ^ 4 % 65536 + digit) % 65536 = (16 * n + digit) % 65536
  omega

theorem loop_digits {chars : List UInt8} (rest : List UInt8) {n : ℕ}
    (hex : ∀ c ∈ chars, (charDigit c).isSome) (few : self.somedigits + chars.length ≤ 4)
    (open' : self.current = UInt16.ofNat n) :
    loop self (chars ++ rest) =
      loop { self with
        current := UInt16.ofNat
          ((charDigits chars).foldl (fun number digit => 16 * number + digit) n)
        somedigits := self.somedigits + chars.length } rest := by
  induction chars generalizing self n with
  | nil => rw [charDigits, List.map_nil, List.foldl_nil, ← open']; rfl
  | cons c chars ih =>
      rcases Option.isSome_iff_exists.mp (hex c List.mem_cons_self) with ⟨digit, stands⟩
      have other : c ≠ Lib.colon := fun isColon => by
        rw [isColon, charDigit_colon] at stands
        cases stands
      have digitLt := charDigit_lt stands
      have isDigit : hexdig c ≠ 255 := fun bad => by
        have same := hexdig_of_charDigit stands
        rw [bad] at same
        change 255 = digit at same
        omega
      rw [List.length_cons] at few
      have next : (self.current <<< 4) + (hexdig c).toUInt16 = UInt16.ofNat (16 * n + digit) := by
        rw [open']
        exact shift_add n stands
      rw [List.cons_append, loop, if_neg other, if_neg isDigit]
      dsimp only
      rw [if_neg (show self.somedigits + 1 ≠ 5 by omega), ih
        (fun c mem => hex c (List.mem_cons_of_mem _ mem)) (by dsimp only; omega) next]
      simp only [charDigits, List.map_cons, List.foldl_cons, stands, Option.getD_some,
        List.length_cons, Nat.add_assoc, Nat.add_comm 1]

theorem loop_group (group : Ip6Group) (rest : List UInt8) (closed : self.somedigits = 0)
    (zero : self.current = 0) :
    loop self (group.chars ++ rest) =
      loop { self with current := group.word, somedigits := group.chars.length } rest := by
  have few : self.somedigits + group.chars.length ≤ 4 := by
    rw [closed, Nat.zero_add]
    exact group.short
  rw [loop_digits rest group.hex few zero, closed, Nat.zero_add]
  rfl

/-- Behind the colons that are taken for two in a row. -/
def filling (left rite : List UInt16) : Scan6 := { colon := true, fillright := true, left, rite }

variable {left rite : List UInt16} {group : Ip6Group} {rest : List UInt8}

theorem loop_filling_group :
    loop (filling left rite) (group.chars ++ Lib.colon :: rest) =
      if left.length + (rite.length + 1) = 7 then
        some { filling left (rite ++ [group.word]) with
          current := group.word, somedigits := group.chars.length }
      else loop (filling left (rite ++ [group.word])) rest := by
  have some := List.length_pos_iff.mpr group.nonempty
  rw [loop_group group _ rfl rfl, loop, if_pos rfl]
  simp only [filling, pushdig, some, ↓reduceIte, List.length_append, List.length_singleton,
    decide_eq_true_eq]

theorem loop_filling_colon :
    loop (filling left rite) (Lib.colon :: rest) = loop (filling left rite) rest := rfl

/-- Groups with a colon behind each of them. -/
def trail (groups : List Ip6Group) : List UInt8 :=
  groups.flatMap fun group => group.chars ++ [Lib.colon]

theorem render_append_singleton (groups : List Ip6Group) (last : Ip6Group) :
    render (groups ++ [last]) = trail groups ++ last.chars := by
  induction groups with
  | nil => exact render_singleton last
  | cons group groups ih =>
      rw [List.cons_append, render_cons, if_neg (by simp), ih, trail, trail, List.flatMap_cons]
      simp

theorem render_append_colon {groups : List Ip6Group} (some : groups ≠ []) :
    render groups ++ Lib.colon :: rest = trail groups ++ rest := by
  rw [← List.dropLast_append_getLast some, render_append_singleton]
  simp [trail]

theorem loop_filling_trail {groups : List Ip6Group}
    (few : left.length + rite.length + groups.length ≤ 6) :
    loop (filling left rite) (trail groups ++ rest) =
      loop (filling left (rite ++ groups.map word)) rest := by
  induction groups generalizing rite with
  | nil => rw [List.map_nil, List.append_nil]; rfl
  | cons group groups ih =>
      rw [List.length_cons] at few
      have fewer : left.length + (rite ++ [group.word]).length + groups.length ≤ 6 := by
        rw [List.length_append, List.length_singleton]
        omega
      rw [trail, List.flatMap_cons, List.append_assoc, List.append_assoc, List.singleton_append,
        loop_filling_group, if_neg (by omega)]
      rw [← trail, ih fewer, List.map_cons, List.append_assoc, List.singleton_append]

theorem loop_filling_render {groups : List Ip6Group}
    (few : left.length + rite.length + groups.length ≤ 7) :
    (loop (filling left rite) (render groups)).map (fun scan => scan.flush.words) =
      some (filling left (rite ++ groups.map word)).words := by
  rcases groups.eq_nil_or_concat with rfl | ⟨front, last, rfl⟩
  · rw [List.map_nil, List.append_nil]
    rfl
  · rw [List.concat_eq_append, List.length_append, List.length_singleton] at few
    have some := List.length_pos_iff.mpr last.nonempty
    rw [List.concat_eq_append, render_append_singleton, loop_filling_trail (by omega),
      ← List.append_nil last.chars, loop_group last [] rfl rfl, loop, Option.map_some, flush,
      if_pos (Nat.ne_of_gt some)]
    simp [pushdig, filling, words]

theorem loop_start_one : loop {} (group.chars ++ Lib.colon :: rest) =
    loop { colon := true, left := [group.word] } rest := by
  have some := List.length_pos_iff.mpr group.nonempty
  rw [loop_group group _ rfl rfl, loop, if_pos rfl]
  simp [pushdig, some]

theorem loop_start_two (group next : Ip6Group) :
    loop {} (group.chars ++ Lib.colon :: (next.chars ++ Lib.colon :: rest)) =
      loop (filling [group.word, next.word] []) rest := by
  have some := List.length_pos_iff.mpr next.nonempty
  rw [loop_start_one, loop_group next _ rfl rfl, loop, if_pos rfl]
  simp [pushdig, some, filling]

/-- Seven groups and a colon are enough for the loop; the last one is pushed once more behind
it. -/
theorem loop_filling_seven {groups : List Ip6Group}
    (seven : left.length + rite.length + groups.length = 6) :
    (loop (filling left rite) (trail groups ++ (group.chars ++ Lib.colon :: rest))).map
        (fun scan => scan.flush.words) =
      some (filling left (rite ++ groups.map word ++ [group.word, group.word])).words := by
  have some := List.length_pos_iff.mpr group.nonempty
  rw [loop_filling_trail (Nat.le_of_eq seven), loop_filling_group, if_pos (by
    rw [List.length_append, List.length_map]
    omega), Option.map_some, flush, if_pos (Nat.ne_of_gt some)]
  simp [pushdig, filling, words]

/-- The words that are read of a text. -/
def scanned : Ip6Text → List UInt16
  | full groups _ => (groups.map word).take 7 ++ [(groups.map word).getD 6 0]
  | compressed left right _ =>
      if left.length = 7 then left.map word ++ [(left.map word).getD 6 0]
      else
        (left.map word).take 2 ++ (List.replicate (8 - left.length - right.length) 0 ++
          ((left.map word).drop 2 ++ right.map word))

theorem words_filling (few : left.length + rite.length ≤ 8) :
    (filling left rite).words =
      left ++ (List.replicate (8 - left.length - rite.length) 0 ++ rite) := by
  rw [words, filling]
  dsimp only
  rw [List.append_assoc, Nat.sub_right_comm]
  refine List.take_of_length_le ?_
  rw [List.length_append, List.length_append, List.length_replicate]
  omega

theorem loop_full (groups : List Ip6Group) (eight : groups.length = 8) :
    (loop {} (full groups eight).text).map (fun scan => scan.flush.words) =
      some (scanned (full groups eight)) := by
  match groups, eight with
  | [a, b, c, d, e, f, g, h], _ =>
      have form : render [a, b, c, d, e, f, g, h] = a.chars ++ Lib.colon :: (b.chars ++ Lib.colon ::
          (trail [c, d, e, f] ++ (g.chars ++ Lib.colon :: h.chars))) := by
        simp [trail]
      rw [text, form, loop_start_two, loop_filling_seven rfl]
      rfl

theorem loop_compressed_nil (right : List Ip6Group) (few : right.length ≤ 7)
    (fewer : ([] : List Ip6Group).length + right.length ≤ 7) :
    (loop {} (compressed [] right fewer).text).map (fun scan => scan.flush.words) =
      some (scanned (compressed [] right fewer)) := by
  have start : loop {} (Lib.colon :: Lib.colon :: render right) =
      loop (filling [] []) (render right) := rfl
  rw [text, render_nil, List.nil_append, start, loop_filling_render (by simpa using few),
    words_filling (by simp; omega)]
  simp [scanned]

theorem loop_compressed_one (a : Ip6Group) (right : List Ip6Group) (few : 1 + right.length ≤ 7)
    (fewer : [a].length + right.length ≤ 7) :
    (loop {} (compressed [a] right fewer).text).map (fun scan => scan.flush.words) =
      some (scanned (compressed [a] right fewer)) := by
  have start : loop {} (a.chars ++ Lib.colon :: Lib.colon :: render right) =
      loop (filling [a.word] []) (render right) := loop_start_one
  rw [text, render_singleton, start, loop_filling_render (by simpa using few),
    words_filling (by simp; omega)]
  simp [scanned]

/-- The two groups, and then the rest on the right. -/
theorem loop_compressed_two (a b : Ip6Group) (more right : List Ip6Group)
    (fewer : (a :: b :: more).length + right.length ≤ 7) :
    loop {} (compressed (a :: b :: more) right fewer).text =
      loop (filling [a.word, b.word] []) (trail more ++ Lib.colon :: render right) := by
  have form : render (a :: b :: more) ++ Lib.colon :: Lib.colon :: render right =
      a.chars ++ Lib.colon :: (b.chars ++ Lib.colon ::
        (trail more ++ Lib.colon :: render right)) := by
    rw [render_append_colon (List.cons_ne_nil _ _)]
    simp [trail]
  rw [text, form, loop_start_two]

/-- Seven groups before the zeros: the last of them is read again for the zeros. -/
theorem loop_filling_five {a b : UInt16} {more : List Ip6Group} (five : more.length = 5) :
    (loop (filling [a, b] []) (trail more ++ Lib.colon :: render [])).map
        (fun scan => scan.flush.words) =
      some (a :: b :: more.map word ++ [(more.map word).getD 4 0]) := by
  match more, five with
  | [c, d, e, f, g], _ =>
      have seven : trail [c, d, e, f, g] ++ Lib.colon :: render [] =
          trail [c, d, e, f] ++ (g.chars ++ Lib.colon :: Lib.colon :: render []) := by
        simp [trail]
      rw [seven, loop_filling_seven rfl]
      rfl

/-- Up to two groups before the zeros are on the left, and the others on the right. -/
theorem loop_compressed (left right : List Ip6Group) (fewer : left.length + right.length ≤ 7) :
    (loop {} (compressed left right fewer).text).map (fun scan => scan.flush.words) =
      some (scanned (compressed left right fewer)) := by
  rcases left with _ | ⟨a, _ | ⟨b, more⟩⟩
  · exact loop_compressed_nil right (by simpa using fewer) fewer
  · exact loop_compressed_one a right (by simpa using fewer) fewer
  · have few : more.length + right.length ≤ 5 := by
      simp only [List.length_cons] at fewer
      omega
    rw [loop_compressed_two]
    by_cases five : more.length = 5
    · have none : right = [] := List.length_eq_zero_iff.mp (by omega)
      subst none
      rw [loop_filling_five five, scanned, if_pos (by simp [five])]
      rfl
    · have form : 2 + more.length ≤ 6 := by omega
      rw [loop_filling_trail (by simpa using form), loop_filling_colon,
        loop_filling_render (by simp; omega), words_filling (by simp; omega)]
      have notSeven : (a :: b :: more).length ≠ 7 := by
        simp only [List.length_cons]
        omega
      have zeros : 8 - 2 - (more.length + right.length) =
          8 - (a :: b :: more).length - right.length := by
        simp only [List.length_cons]
        omega
      rw [scanned, if_neg notSeven, ← zeros]
      simp

theorem loop_text (t : Ip6Text) :
    (loop {} t.text).map (fun scan => scan.flush.words) = some (scanned t) := by
  cases t with
  | full groups eight => exact loop_full groups eight
  | compressed left right fewer => exact loop_compressed left right fewer

/-- The texts that are read right. Of eight groups the last two are equal. Of fewer ones those
from the third one on that stand before the zeros are zeros too; of seven, the last one is. -/
def ReadRight : Ip6Text → Prop
  | full groups _ => (groups.map word).getD 6 0 = (groups.map word).getD 7 0
  | compressed left _ _ =>
      if left.length = 7 then (left.map word).getD 6 0 = 0
      else ∀ group ∈ left.drop 2, group.word = 0

theorem replicate_append_comm_iff {count : ℕ} (positive : 0 < count) (words : List UInt16) :
    List.replicate count 0 ++ words = words ++ List.replicate count 0 ↔ ∀ w ∈ words, w = 0 := by
  constructor
  · intro same
    induction words with
    | nil => simp
    | cons w words ih =>
        rcases Nat.exists_eq_succ_of_ne_zero (Nat.ne_of_gt positive) with ⟨fewer, rfl⟩
        have split := same
        rw [List.replicate_succ, List.cons_append, List.cons_append, List.cons.injEq] at split
        have zero : w = 0 := split.1.symm
        subst zero
        have rest : List.replicate (fewer + 1) 0 ++ words =
            words ++ List.replicate (fewer + 1) 0 := by
          rw [List.replicate_succ', List.append_assoc, List.singleton_append,
            ← List.replicate_succ', List.replicate_succ]
          exact split.2
        intro w mem
        rcases List.mem_cons.mp mem with rfl | mem
        · rfl
        · exact ih rest w mem
  · intro zeros
    rw [List.eq_replicate_of_mem zeros, List.replicate_append_replicate,
      List.replicate_append_replicate, Nat.add_comm]

theorem scanned_eq_iff (t : Ip6Text) : scanned t = t.words ↔ ReadRight t := by
  cases t with
  | full groups eight =>
      match groups, eight with
      | [a, b, c, d, e, f, g, h], _ => simp [scanned, Ip6Text.words, ReadRight]
  | compressed left right fewer =>
      rw [scanned, ReadRight, Ip6Text.words]
      by_cases seven : left.length = 7
      · rw [if_pos seven, if_pos seven]
        have none : right = [] := List.length_eq_zero_iff.mp (by omega)
        rw [none, seven, List.map_nil, List.append_nil, List.append_cancel_left_eq]
        simp
      · have zeros : 0 < 8 - left.length - right.length := by omega
        rw [if_neg seven, if_neg seven, List.append_assoc]
        nth_rewrite 3 [← List.take_append_drop 2 (left.map word)]
        rw [List.append_assoc, List.append_cancel_left_eq, ← List.append_assoc, ← List.append_assoc,
          List.append_cancel_right_eq, replicate_append_comm_iff zeros, ← List.map_drop,
          List.forall_mem_map]

end Scan6

end Imconee.Netkit
