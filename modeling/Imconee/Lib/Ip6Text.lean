import Imconee.Lib.Numeral
import Mathlib.Data.FinEnum
import Mathlib.Data.List.TakeDrop

/-!
# Texts of IPv6 addresses

Eight groups of one to four hexadecimal digits with colons between them, or fewer groups with
one pair of colons that stands for at least one group of zeros. A text of that form and the
address that it denotes are read in one way.
-/

set_option autoImplicit false

namespace Imconee.Lib

open Numeral

def colon : UInt8 := 58

theorem charDigit_colon : charDigit colon = none := rfl

/-- One to four hexadecimal digits. -/
structure Ip6Group where
  chars : List UInt8
  nonempty : chars ≠ []
  short : chars.length ≤ 4
  hex : ∀ c ∈ chars, (charDigit c).isSome

namespace Ip6Group

def value (group : Ip6Group) : ℕ := Numeral.value 16 (charDigits group.chars)

def word (group : Ip6Group) : UInt16 := UInt16.ofNat group.value

theorem colon_notMem (group : Ip6Group) : colon ∉ group.chars := fun mem =>
  absurd (group.hex colon mem) (by rw [charDigit_colon]; exact Bool.false_ne_true)

/-- The digits are in lower case, and the first of several ones is not zero. -/
def Plain (group : Ip6Group) : Prop :=
  (∀ c ∈ group.chars, ∃ digit < 16, c = digitChar digit) ∧
    (group.chars.head? = some (digitChar 0) → group.chars.length = 1)

/-- The group that is printed for a word. -/
def ofWord (word : UInt16) : Ip6Group where
  chars := print 16 word.toNat
  nonempty := print_ne_nil 16 word.toNat
  short := by
    rw [print, List.length_map]
    exact length_digits_le (by decide) word.toNat_lt (by decide)
  hex c mem := by
    rcases mem_print (by decide) mem with ⟨digit, small, rfl⟩
    rw [charDigit_digitChar small]
    rfl

@[simp]
theorem word_ofWord (word : UInt16) : (ofWord word).word = word := by
  rw [Ip6Group.word, value, ofWord, charDigits_print (by decide) (Nat.le_refl 16), value_digits,
    UInt16.ofNat_toNat]

theorem digitChar_eq_zero {digit : ℕ} (small : digit < 16) :
    digitChar digit = digitChar 0 ↔ digit = 0 := by
  interval_cases digit <;> decide

theorem plain_ofWord (word : UInt16) : (ofWord word).Plain := by
  refine ⟨fun c mem => mem_print (by decide) mem, fun zero => ?_⟩
  dsimp only [ofWord, print] at zero ⊢
  by_cases isZero : word.toNat = 0
  · rw [isZero]
    rfl
  · rw [List.head?_map, Option.map_eq_some_iff] at zero
    rcases zero with ⟨digit, head, same⟩
    have small := lt_of_mem_digits (by decide) (List.mem_of_mem_head? head)
    rw [(digitChar_eq_zero small).mp same] at head
    exact absurd head (head_digits_ne_zero isZero)

/-- Groups with colons between them. -/
def render (groups : List Ip6Group) : List UInt8 := [colon].intercalate (groups.map chars)

@[simp]
theorem render_nil : render [] = [] := rfl

@[simp]
theorem render_singleton (group : Ip6Group) : render [group] = group.chars :=
  List.intercalate_singleton

@[simp]
theorem render_cons_cons (group next : Ip6Group) (groups : List Ip6Group) :
    render (group :: next :: groups) = group.chars ++ colon :: render (next :: groups) := by
  simp only [render, List.map_cons, List.intercalate_cons_cons, List.append_assoc,
    List.singleton_append]

theorem render_cons (group : Ip6Group) (groups : List Ip6Group) :
    render (group :: groups) =
      group.chars ++ if groups = [] then [] else colon :: render groups := by
  cases groups with
  | nil => rw [if_pos rfl, render_singleton, List.append_nil]
  | cons next groups => rw [if_neg (List.cons_ne_nil next groups), render_cons_cons]

theorem render_head {groups : List Ip6Group} (some : groups ≠ []) :
    ∃ c rest, render groups = c :: rest ∧ c ≠ colon := by
  rcases List.exists_cons_of_ne_nil some with ⟨group, groups, rfl⟩
  rcases List.exists_cons_of_ne_nil group.nonempty with ⟨c, chars, same⟩
  have apart : c ≠ colon := fun isColon => group.colon_notMem (by simp [same, isColon])
  cases groups with
  | nil => exact ⟨c, chars, by rw [render_singleton, same], apart⟩
  | cons next groups => exact ⟨c, _, by rw [render_cons_cons, same, List.cons_append], apart⟩

end Ip6Group

open Ip6Group

/-- The form of a text. -/
inductive Ip6Text where
  | full (groups : List Ip6Group) (eight : groups.length = 8)
  | compressed (left right : List Ip6Group) (fewer : left.length + right.length ≤ 7)

namespace Ip6Text

def text : Ip6Text → List UInt8
  | full groups _ => render groups
  | compressed left right _ => render left ++ colon :: colon :: render right

/-- The address, as its eight words. -/
def words : Ip6Text → List UInt16
  | full groups _ => groups.map word
  | compressed left right _ =>
      left.map word ++ List.replicate (8 - left.length - right.length) 0 ++ right.map word

theorem length_words (t : Ip6Text) : t.words.length = 8 := by
  cases t with
  | full groups eight => rw [words, List.length_map, eight]
  | compressed left right fewer =>
      simp only [words, List.length_append, List.length_map, List.length_replicate]
      omega

/-! ### Reading -/

/-- The texts before and behind the first two colons in a row. -/
def breakDouble : List UInt8 → Option (List UInt8 × List UInt8)
  | [] => none
  | [_] => none
  | c :: next :: rest =>
      if c = colon ∧ next = colon then some ([], rest)
      else (breakDouble (next :: rest)).map fun (before, behind) => (c :: before, behind)

def readGroup (chars : List UInt8) : Option Ip6Group :=
  if fine : chars ≠ [] ∧ chars.length ≤ 4 ∧ ∀ c ∈ chars, (charDigit c).isSome then
    some ⟨chars, fine.1, fine.2.1, fine.2.2⟩
  else none

/-- Groups between colons, or none at all. -/
def readGroups (s : List UInt8) : Option (List Ip6Group) :=
  if s = [] then some [] else (s.splitOn colon).mapM readGroup

/-- The form of a text, if it is one of an address. -/
def recognize (s : List UInt8) : Option Ip6Text :=
  match breakDouble s with
  | none =>
      match readGroups s with
      | some groups => if eight : groups.length = 8 then some (full groups eight) else none
      | none => none
  | some (before, behind) =>
      match readGroups before, readGroups behind with
      | some left, some right =>
          if fewer : left.length + right.length ≤ 7 then some (compressed left right fewer)
          else none
      | _, _ => none

/-- The address that a text denotes. -/
def read (s : List UInt8) : Option (List UInt16) := (recognize s).map words

theorem breakDouble_cons {c : UInt8} (other : c ≠ colon) (rest : List UInt8) :
    breakDouble (c :: rest) =
      (breakDouble rest).map fun (before, behind) => (c :: before, behind) := by
  cases rest with
  | nil => rfl
  | cons next rest => rw [breakDouble, if_neg fun both => other both.1]

theorem breakDouble_append {chars : List UInt8} (single : colon ∉ chars) (rest : List UInt8) :
    breakDouble (chars ++ rest) =
      (breakDouble rest).map fun (before, behind) => (chars ++ before, behind) := by
  induction chars with
  | nil => exact Option.map_id'.symm
  | cons c chars ih =>
      rw [List.mem_cons, not_or] at single
      rw [List.cons_append, breakDouble_cons (Ne.symm single.1), ih single.2, Option.map_map]
      rfl

/-- There are no two colons in a row within groups, nor behind them. -/
theorem breakDouble_render {groups : List Ip6Group} (some : groups ≠ []) (rest : List UInt8) :
    breakDouble (render groups ++ rest) =
      (breakDouble rest).map fun (before, behind) => (render groups ++ before, behind) := by
  induction groups with
  | nil => exact absurd rfl some
  | cons group groups ih =>
      by_cases last : groups = []
      · rw [last, render_singleton]
        exact breakDouble_append group.colon_notMem rest
      · rcases render_head last with ⟨c, tail, begins, apart⟩
        rw [render_cons, if_neg last, List.append_assoc, breakDouble_append group.colon_notMem,
          List.cons_append, begins, List.cons_append, breakDouble, if_neg fun both => apart both.2,
          ← List.cons_append, ← begins, ih last, Option.map_map, Option.map_map]
        congr 1
        funext pair
        simp

@[simp]
theorem readGroup_chars (group : Ip6Group) : readGroup group.chars = some group :=
  dif_pos ⟨group.nonempty, group.short, group.hex⟩

theorem mapM_readGroup (groups : List Ip6Group) :
    (groups.map chars).mapM readGroup = some groups := by
  induction groups with
  | nil => rfl
  | cons group groups ih => simp [List.mapM_cons, ih]

@[simp]
theorem readGroups_render (groups : List Ip6Group) : readGroups (render groups) = some groups := by
  cases groups with
  | nil => rfl
  | cons group groups =>
      rcases render_head (List.cons_ne_nil group groups) with ⟨c, rest, begins, -⟩
      have pieces : (render (group :: groups)).splitOn colon = (group :: groups).map chars := by
        refine List.splitOn_intercalate colon (fun piece mem => ?_) (List.cons_ne_nil _ _)
        rcases List.mem_map.mp mem with ⟨group, -, rfl⟩
        exact group.colon_notMem
      have nonempty : render (group :: groups) ≠ [] := by
        rw [begins]
        exact List.cons_ne_nil c rest
      rw [readGroups, if_neg nonempty, pieces, mapM_readGroup]

/-- A text is recognized as what it is. -/
@[simp]
theorem recognize_text (t : Ip6Text) : recognize t.text = some t := by
  cases t with
  | full groups eight =>
      have some : groups ≠ [] := fun none => by simp [none] at eight
      have single := breakDouble_render some []
      rw [List.append_nil] at single
      rw [text, recognize, single]
      simp [breakDouble, eight]
  | compressed left right fewer =>
      have double : breakDouble (render left ++ colon :: colon :: render right) =
          some (render left, render right) := by
        by_cases none : left = []
        · rw [none, render_nil, List.nil_append, breakDouble, if_pos ⟨rfl, rfl⟩]
        · rw [breakDouble_render none, breakDouble, if_pos ⟨rfl, rfl⟩]
          simp
      rw [text, recognize, double]
      simp [fewer]

@[simp]
theorem read_text (t : Ip6Text) : read t.text = some t.words := by
  rw [read, recognize_text, Option.map_some]

/-- Every group is in lower case and has no leading zeros. -/
def Plain : Ip6Text → Prop
  | full groups _ => ∀ group ∈ groups, group.Plain
  | compressed left right _ => ∀ group ∈ left ++ right, group.Plain

/-! ### Printing -/

/-- The groups that are printed for words. -/
def groups (words : List UInt16) : List Ip6Group := words.map ofWord

@[simp]
theorem length_groups (words : List UInt16) : (groups words).length = words.length :=
  List.length_map _

@[simp]
theorem map_word_groups (words : List UInt16) : (groups words).map word = words := by
  rw [groups, List.map_map]
  exact (List.map_congr_left fun w _ => word_ofWord w).trans (List.map_id words)

theorem render_groups_cons (w : UInt16) (words : List UInt16) :
    render (groups (w :: words)) =
      (ofWord w).chars ++ if words = [] then [] else colon :: render (groups words) := by
  rw [groups, List.map_cons, render_cons, groups]
  simp only [List.map_eq_nil_iff]

/-- The words before the first zero, and those behind the zeros that begin there. -/
def beforeZeros (words : List UInt16) : List UInt16 := words.takeWhile (· ≠ 0)

def behindZeros (words : List UInt16) : List UInt16 :=
  (words.dropWhile (· ≠ 0)).dropWhile (· = 0)

@[simp]
theorem beforeZeros_zero (words : List UInt16) : beforeZeros (0 :: words) = [] := rfl

theorem beforeZeros_cons {w : UInt16} (nonzero : w ≠ 0) (words : List UInt16) :
    beforeZeros (w :: words) = w :: beforeZeros words :=
  List.takeWhile_cons_of_pos (by simpa using nonzero)

@[simp]
theorem behindZeros_zero (words : List UInt16) :
    behindZeros (0 :: words) = words.dropWhile (· = 0) := rfl

theorem behindZeros_cons {w : UInt16} (nonzero : w ≠ 0) (words : List UInt16) :
    behindZeros (w :: words) = behindZeros words := by
  rw [behindZeros, List.dropWhile_cons_of_pos (by simpa using nonzero), behindZeros]

theorem zeros_append (words : List UInt16) :
    ∃ count, words = List.replicate count 0 ++ words.dropWhile (· = 0) := by
  induction words with
  | nil => exact ⟨0, rfl⟩
  | cons w words ih =>
      by_cases zero : w = 0
      · rcases ih with ⟨count, same⟩
        refine ⟨count + 1, ?_⟩
        rw [List.dropWhile_cons_of_pos (by simpa using zero), List.replicate_succ, List.cons_append,
          ← same, zero]
      · exact ⟨0, by rw [List.dropWhile_cons_of_neg (by simpa using zero)]; rfl⟩

/-- Between them is at least one zero. -/
theorem append_zeros {words : List UInt16} (zero : 0 ∈ words) :
    ∃ count, words =
      beforeZeros words ++ (List.replicate (count + 1) 0 ++ behindZeros words) := by
  induction words with
  | nil => cases zero
  | cons w words ih =>
      by_cases first : w = 0
      · subst first
        rcases zeros_append words with ⟨count, same⟩
        refine ⟨count, ?_⟩
        rw [beforeZeros_zero, behindZeros_zero, List.nil_append, List.replicate_succ,
          List.cons_append, ← same]
      · rcases ih ((List.mem_cons.mp zero).resolve_left (Ne.symm first)) with ⟨count, same⟩
        refine ⟨count, ?_⟩
        rw [beforeZeros_cons first, behindZeros_cons first, List.cons_append, ← same]

theorem length_beforeZeros {words : List UInt16} (zero : 0 ∈ words) :
    (beforeZeros words).length + (behindZeros words).length < words.length := by
  rcases append_zeros zero with ⟨count, same⟩
  have lengths := congrArg List.length same
  rw [List.length_append, List.length_append, List.length_replicate] at lengths
  omega

/-- The text that is printed for an address: its first zeros are left out. -/
def ofWords (words : List UInt16) (eight : words.length = 8) : Ip6Text :=
  if zero : 0 ∈ words then
    compressed (groups (beforeZeros words)) (groups (behindZeros words)) <| by
      have lt := length_beforeZeros zero
      simp only [length_groups]
      omega
  else full (groups words) ((length_groups words).trans eight)

@[simp]
theorem words_ofWords {words : List UInt16} (eight : words.length = 8) :
    (ofWords words eight).words = words := by
  rw [ofWords]
  split
  · rename_i zero
    rcases append_zeros zero with ⟨count, same⟩
    have lengths := congrArg List.length same
    rw [List.length_append, List.length_append, List.length_replicate, eight] at lengths
    have zeros : 8 - (beforeZeros words).length - (behindZeros words).length = count + 1 := by
      omega
    rw [Ip6Text.words, map_word_groups, map_word_groups, length_groups, length_groups, zeros,
      List.append_assoc]
    exact same.symm
  · rw [Ip6Text.words, map_word_groups]

theorem plain_ofWords {words : List UInt16} (eight : words.length = 8) :
    (ofWords words eight).Plain := by
  rw [ofWords]
  split
  · intro group mem
    rcases List.mem_append.mp mem with mem | mem
    · rcases List.mem_map.mp mem with ⟨w, -, rfl⟩
      exact plain_ofWord w
    · rcases List.mem_map.mp mem with ⟨w, -, rfl⟩
      exact plain_ofWord w
  · intro group mem
    rcases List.mem_map.mp mem with ⟨w, -, rfl⟩
    exact plain_ofWord w

end Ip6Text

end Imconee.Lib
