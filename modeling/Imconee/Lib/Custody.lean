import Mathlib.Data.List.Nodup
import Mathlib.Logic.Function.Basic
import Mathlib.Tactic.Common

/-!
# Custody

Holders keep items. An item is taken in once, may pass from one holder to another, and is
given up in the end. Whatever happens in between, an item that has been taken in and not
given up is with exactly one holder, and there only once.
-/

set_option autoImplicit false

namespace Imconee.Lib

universe u v

/-- Who holds which items, which have been taken in, and which have been given up. -/
structure Custody (Holder : Type u) (Item : Type v) where
  held : Holder → List Item
  taken : List Item
  ended : List Item
  nodup : ∀ holder, (held holder).Nodup
  apart : ∀ holder other item, item ∈ held holder → item ∈ held other → holder = other
  holds : ∀ item, (∃ holder, item ∈ held holder) ↔ item ∈ taken ∧ item ∉ ended
  ended_taken : ∀ item ∈ ended, item ∈ taken

namespace Custody

variable {Holder : Type u} {Item : Type v}

/-- Nobody holds anything. -/
def empty : Custody Holder Item where
  held := fun _ => []
  taken := []
  ended := []
  nodup := by simp
  apart := by simp
  holds := by simp
  ended_taken := by simp

theorem taken_of_held (self : Custody Holder Item) {holder : Holder} {item : Item}
    (held : item ∈ self.held holder) : item ∈ self.taken ∧ item ∉ self.ended :=
  (self.holds item).mp ⟨holder, held⟩

/-- An item that has been taken in and not given up is with exactly one holder. -/
theorem existsUnique_holder (self : Custody Holder Item) {item : Item}
    (taken : item ∈ self.taken) (going : item ∉ self.ended) :
    ∃! holder, item ∈ self.held holder := by
  rcases (self.holds item).mpr ⟨taken, going⟩ with ⟨holder, held⟩
  exact ⟨holder, held, fun other held' => self.apart other holder item held' held⟩

variable [DecidableEq Holder]

theorem mem_update {held : Holder → List Item} {holder other : Holder} {items : List Item}
    {item : Item} : item ∈ Function.update held holder items other ↔
      (other = holder ∧ item ∈ items) ∨ (other ≠ holder ∧ item ∈ held other) := by
  rw [Function.update_apply]
  split <;> simp_all

theorem nodup_update {held : Holder → List Item} (nodup : ∀ holder, (held holder).Nodup)
    {holder : Holder} {items : List Item} (fine : items.Nodup) (other : Holder) :
    (Function.update held holder items other).Nodup := by
  rw [Function.update_apply]
  split
  · exact fine
  · exact nodup other

/-- A holder takes in an item that has never been seen. -/
def take (self : Custody Holder Item) (holder : Holder) (item : Item)
    (fresh : item ∉ self.taken) : Custody Holder Item where
  held := Function.update self.held holder (self.held holder ++ [item])
  taken := self.taken ++ [item]
  ended := self.ended
  nodup := by
    refine nodup_update self.nodup ?_
    rw [List.nodup_append]
    refine ⟨self.nodup holder, List.nodup_singleton item, ?_⟩
    rintro _ held _ (_ | _) rfl
    · exact fresh (self.taken_of_held held).1
    · contradiction
  apart one other kept held held' := by
    have known := fun holder => @taken_of_held _ _ self holder kept
    have apart := self.apart one other kept
    simp only [mem_update, List.mem_append, List.mem_singleton] at held held'
    grind
  holds kept := by
    have same := self.holds kept
    have known := self.ended_taken kept
    simp only [mem_update, List.mem_append, List.mem_singleton]
    grind
  ended_taken kept ended := List.mem_append_left _ (self.ended_taken kept ended)

/-- A holder gives some of its items up. -/
def release (self : Custody Holder Item) (holder : Holder) (kept gone : List Item)
    (parts : (self.held holder).Perm (kept ++ gone)) : Custody Holder Item where
  held := Function.update self.held holder kept
  taken := self.taken
  ended := self.ended ++ gone
  nodup := nodup_update self.nodup (parts.nodup_iff.mp (self.nodup holder)).of_append_left
  apart one other item held held' := by
    have apart := self.apart one other item
    have known := fun item => parts.mem_iff (a := item)
    simp only [mem_update, List.mem_append] at held held' known
    grind
  holds item := by
    have same := self.holds item
    have known := parts.mem_iff (a := item)
    have disjoint := List.disjoint_of_nodup_append (parts.nodup_iff.mp (self.nodup holder))
    have apart := fun other => self.apart other holder item
    simp only [mem_update, List.mem_append] at known ⊢
    grind [List.Disjoint]
  ended_taken item ended := by
    rcases List.mem_append.mp ended with ended | gone
    · exact self.ended_taken item ended
    · exact (self.taken_of_held (parts.mem_iff.mpr (List.mem_append_right _ gone))).1

/-- A holder passes an item on to another one. -/
def pass (self : Custody Holder Item) (holder next : Holder) (different : next ≠ holder)
    (kept : List Item) (item : Item) (parts : (self.held holder).Perm (item :: kept)) :
    Custody Holder Item where
  held := Function.update (Function.update self.held holder kept) next (self.held next ++ [item])
  taken := self.taken
  ended := self.ended
  nodup := by
    have nodup := parts.nodup_iff.mp (self.nodup holder)
    refine nodup_update (nodup_update self.nodup nodup.of_cons) ?_
    rw [List.nodup_append]
    refine ⟨self.nodup next, List.nodup_singleton item, ?_⟩
    rintro _ held _ (_ | _) rfl
    · exact different (self.apart _ _ _ held (parts.mem_iff.mpr List.mem_cons_self))
    · contradiction
  apart one other found held held' := by
    have apart := fun one other => self.apart one other found
    have known := parts.mem_iff (a := found)
    have alone := (List.nodup_cons.mp (parts.nodup_iff.mp (self.nodup holder))).1
    simp only [mem_update, List.mem_append, List.mem_singleton] at held held'
    grind
  holds found := by
    have same := self.holds found
    have known := parts.mem_iff (a := found)
    have apart := fun other => self.apart other holder found
    simp only [mem_update, List.mem_append, List.mem_singleton]
    grind
  ended_taken := self.ended_taken

end Custody

end Imconee.Lib
