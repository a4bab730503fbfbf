import Imconee.Handlers.SlotTable

/-!
# The end of a tick

The pass leaves gaps where slots have died and the compaction closes them, so that the table
is in order again. The index that is returned follows its slot, unless the slot it names is
a gap itself: a cleared slot is skipped when it is processed again, and counts as idle.
-/

set_option autoImplicit false

namespace Imconee.Handlers

open Imconee.Netkit

variable {P : Type} {impl : PipeImpl P} {live : P → Prop}

/-- The slots before the first gap are in use, and those from there up to `i` are vacant. -/
structure Compaction.Upto (live : P → Prop) (i : ℕ) (s : Compaction (PipePtr P)) : Prop where
  gap : s.wasDel < i
  used : ∀ j < s.wasDel, ∃ connection, (s.slots j).Holds live connection
  vacant : ∀ j, s.wasDel ≤ j → j < i → (s.slots j).Vacant

/-- The compaction of `count` slots from `i` on. -/
structure Compacts (live : P → Prop) (count i : ℕ) (s next : Compaction (PipePtr P)) : Prop where
  upto : next.Upto live (i + count)
  more : s.wasDel ≤ next.wasDel
  beyond : ∀ j, i + count ≤ j → next.slots j = s.slots j
  survivor : ∀ j, i ≤ j → j < i + count → ¬(s.slots j).Vacant → s.wasDel < next.wasDel
  connections : connectionsOf next.slots 0 next.wasDel =
    connectionsOf s.slots 0 s.wasDel ++ connectionsOf s.slots i count
  rv_before : s.rv < i → next.rv = s.rv
  rv_beyond : i + count ≤ s.rv → next.rv = s.rv

namespace Compacts

variable {count more i : ℕ} {s next last : Compaction (PipePtr P)}

theorem refl (upto : s.Upto live i) : Compacts live 0 i s s where
  upto := upto
  more := Nat.le_refl _
  beyond _ _ := rfl
  survivor j after before := by omega
  connections := by simp [connectionsOf]
  rv_before _ := rfl
  rv_beyond _ := rfl

theorem trans (first : Compacts live count i s next)
    (second : Compacts live more (i + count) next last) :
    Compacts live (count + more) i s last where
  upto := Nat.add_assoc i count more ▸ second.upto
  more := Nat.le_trans first.more second.more
  beyond j after := by rw [second.beyond j (by omega), first.beyond j (by omega)]
  survivor j after before full := by
    by_cases early : j < i + count
    · exact Nat.lt_of_lt_of_le (first.survivor j after early full) second.more
    · have later := second.survivor j (by omega) (by omega)
      rw [first.beyond j (by omega)] at later
      exact Nat.lt_of_le_of_lt first.more (later full)
  connections := by
    have rest : connectionsOf next.slots (i + count) more =
        connectionsOf s.slots (i + count) more :=
      connectionsOf_congr fun j after _ => by rw [first.beyond j after]
    rw [second.connections, first.connections, connectionsOf_add, List.append_assoc, rest]
  rv_before before := by
    have same := first.rv_before before
    rw [second.rv_before (by omega), same]
  rv_beyond after := by
    have same := first.rv_beyond (by omega)
    rw [second.rv_beyond (by omega), same]

theorem close (upto : s.Upto live i)
    (slot : (s.slots i).Vacant ∨ ∃ connection, (s.slots i).Holds live connection) :
    Compacts live 1 i s (s.close i) := by
  have gap := upto.gap
  rcases slot with vacant | ⟨connection, holds⟩
  · rw [Compaction.close, if_pos vacant.isEmpty]
    have only : ∀ {j}, i ≤ j → j < i + 1 → (s.slots j).Vacant := fun {j} after before => by
      rwa [show j = i by omega]
    exact
      { upto := ⟨by omega, upto.used, fun j after before => by
          by_cases early : j < i
          · exact upto.vacant j after early
          · exact only (by omega) before⟩
        more := Nat.le_refl _
        beyond := fun _ _ => rfl
        survivor := fun j after before full => absurd (only after before) full
        connections := by
          rw [connectionsOf_one, vacant.connection, Option.toList_none, List.append_nil]
        rv_before := fun _ => rfl
        rv_beyond := fun _ => rfl }
  · rw [Compaction.close, if_neg (by simp [holds.1])]
    have filled : Function.update (Function.update s.slots s.wasDel (s.slots i)) i
        (s.slots i).movedFrom s.wasDel = s.slots i := by
      rw [Function.update_of_ne (by omega), Function.update_self]
    have other : ∀ {j}, j ≠ i → j ≠ s.wasDel → Function.update (Function.update s.slots s.wasDel
        (s.slots i)) i (s.slots i).movedFrom j = s.slots j := fun different different' => by
      rw [Function.update_of_ne different, Function.update_of_ne different']
    refine ⟨⟨Nat.succ_lt_succ gap, fun j before => ?_, fun j after before => ?_⟩,
      Nat.le_succ _, fun j after => other (by omega) (by omega), fun _ _ _ _ => Nat.lt_succ_self _,
      ?_, fun before => if_neg (by omega), fun after => if_neg (by omega)⟩
    · dsimp only
      rcases Nat.lt_succ_iff_lt_or_eq.mp before with before | rfl
      · rw [other (by omega) (by omega)]
        exact upto.used j before
      · rw [filled]
        exact ⟨connection, holds⟩
    · dsimp only at after ⊢
      by_cases same : j = i
      · rw [same, Function.update_self]
        exact Bridged.vacant_movedFrom _
      · rw [other same (by omega)]
        exact upto.vacant j (by omega) (by omega)
    · have kept : connectionsOf (Function.update (Function.update s.slots s.wasDel (s.slots i)) i
          (s.slots i).movedFrom) 0 s.wasDel = connectionsOf s.slots 0 s.wasDel :=
        connectionsOf_congr fun j _ before => by rw [other (by omega) (by omega)]
      dsimp only
      rw [connectionsOf_add, connectionsOf_one, connectionsOf_one, Nat.zero_add, filled, kept]

end Compacts

theorem compacts {count i : ℕ} {s : Compaction (PipePtr P)} (upto : s.Upto live i)
    (ahead : ∀ j, i ≤ j → j < i + count →
      (s.slots j).Vacant ∨ ∃ connection, (s.slots j).Holds live connection) :
    Compacts live count i s (compactSlots count i s) := by
  induction count generalizing i s with
  | zero => exact .refl upto
  | succ count ih =>
      have first := Compacts.close upto (ahead i (Nat.le_refl i) (by omega))
      have rest := ih first.upto fun j after before => by
        rw [first.beyond j after]
        exact ahead j (by omega) (by omega)
      rw [compactSlots, Nat.add_comm]
      exact first.trans rest

section

variable {slots : ℕ → Bridged (PipePtr P)} {masks : Mask} {curNumslots count : ℕ}
  {last : Pass (PipePtr P)}

/-- A slot that the pass has left alive holds what it has held. -/
theorem Pass.Visited.holds (lasting : impl.Lasting live)
    (visited : Pass.Visited impl.ptr slots masks curNumslots count last) {i : ℕ}
    {connection : ℕ × ℕ} (holds : (slots i).Holds live connection)
    (alive : ¬(i < count ∧ resultAt impl.ptr slots masks i = .dead)) :
    (last.slots i).Holds live connection := by
  rw [visited.table]
  split
  · rename_i inside
    have returned := visited.returned i inside
    have alive : resultAt impl.ptr slots masks i ≠ .dead := fun dead => alive ⟨inside, dead⟩
    rw [slotAt, if_neg alive]
    refine holds.process lasting ?_
    rw [← resultAt]
    cases same : resultAt impl.ptr slots masks i with
    | dead => exact absurd same alive
    | unwound => exact absurd same returned
    | processes => rfl
    | skipped => rfl
  · exact holds

theorem Pass.Visited.vacant
    (visited : Pass.Visited impl.ptr slots masks curNumslots count last) {i : ℕ}
    (inside : i < count) (dead : resultAt impl.ptr slots masks i = .dead) :
    (last.slots i).Vacant := by
  rw [visited.table, if_pos inside, slotAt, if_pos dead]
  exact ⟨rfl, rfl⟩

/-- What was in some slots is still there, apart from those that have been cleared. -/
theorem connectionsOf_cleared {other : ℕ → Bridged (PipePtr P)} {cleared : ℕ → Bool} {n : ℕ}
    (vacant : ∀ i < n, cleared i = true → (other i).Vacant)
    (kept : ∀ i < n, cleared i = false → (other i).connection = (slots i).connection) :
    (connectionsOf slots 0 n).Perm (connectionsOf other 0 n ++
      (((List.range n).filter cleared).map slots).flatMap fun slot => slot.connection.toList) := by
  induction n with
  | zero => simp [connectionsOf]
  | succ n ih =>
      have ih := ih (fun i inside => vacant i (by omega)) (fun i inside => kept i (by omega))
      simp only [connectionsOf_add, connectionsOf_one, Nat.zero_add, List.range_succ,
        List.filter_append, List.map_append, List.flatMap_append]
      cases gone : cleared n with
      | true =>
          rw [(vacant n (Nat.lt_succ_self n) gone).connection]
          simpa [gone, ← List.append_assoc] using ih.append_right _
      | false =>
          rw [kept n (Nat.lt_succ_self n) gone]
          simp only [List.filter_cons, gone, Bool.false_eq_true, if_false, List.filter_nil,
            List.map_nil, List.flatMap_nil, List.append_nil]
          refine (ih.append_right _).trans ?_
          rw [List.append_assoc, List.append_assoc]
          exact List.perm_append_comm.append_left _

/-- The connections that the pass leaves, and those that it gives up. -/
theorem Pass.Visited.connections (lasting : impl.Lasting live)
    (visited : Pass.Visited impl.ptr slots masks curNumslots count last) {n : ℕ}
    (inside : count ≤ n)
    (used : ∀ i < n, ∃ connection, (slots i).Holds live connection) :
    (connectionsOf slots 0 n).Perm (connectionsOf last.slots 0 n ++
      last.dead.flatMap fun slot => slot.connection.toList) := by
  rcases Nat.exists_eq_add_of_le inside with ⟨more, rfl⟩
  have rest : connectionsOf last.slots (0 + count) more = connectionsOf slots (0 + count) more :=
    connectionsOf_congr fun i after _ => by rw [visited.table, if_neg (by omega)]
  have first := @connectionsOf_cleared _ slots last.slots
    (fun i => decide (resultAt impl.ptr slots masks i = .dead)) count
    (fun i before dead => visited.vacant before (of_decide_eq_true dead))
    (fun i before alive => by
      rcases used i (by omega) with ⟨connection, holds⟩
      have kept := visited.holds lasting holds fun dead => of_decide_eq_false alive dead.2
      rw [holds.connection_eq, kept.connection_eq])
  rw [visited.dead, connectionsOf_add, connectionsOf_add, rest]
  refine (first.append_right _).trans ?_
  rw [List.append_assoc, List.append_assoc]
  exact List.perm_append_comm.append_left _

end

namespace ProcessingThread

variable {self : ProcessingThread (PipePtr P)} {curNumslots : ℕ} {masks : Mask}

variable (impl) in
/-- All slots behind some slot but the first die, this one first and with bits left; those
before it are busy. -/
def TakesDown (self : ProcessingThread P) (curNumslots : ℕ) (masks : Mask) : Prop :=
  self.numslots = curNumslots ∧ ∃ first, 0 < first ∧ first < curNumslots ∧
    (∀ i < first, resultAt impl self.slots masks i = .processes) ∧
    (∀ i, first ≤ i → i < curNumslots → resultAt impl self.slots masks i = .dead) ∧
    ∀ i, i < curNumslots ∨ i = first + 1 → (maskAt impl self.slots masks i).isEmpty = false

theorem Table.ofSlots {n rv : ℕ} {slots : ℕ → Bridged (PipePtr P)}
    {dead : List (Bridged (PipePtr P))} (table : Table live { numslots := (n : ℤ), slots }) :
    let finished := Finished.ofSlots n rv slots dead
    finished.thread.Table live ∧ finished.thread.connections = connectionsOf slots 0 n ∧
      finished.dead = dead ∧
      ((n = 0 ∧ finished.rv = -1 ∧ finished.thread.numslots = -1) ∨
        0 < n ∧ finished.rv = rv ∧ finished.thread.numslots = n) := by
  simp only [Finished.ofSlots]
  split
  · rename_i none
    have all := @Table.locked _ live _ fun i => table.vacant i (by dsimp only; omega)
    exact ⟨all.1, by rw [all.2, none]; rfl, rfl, Or.inl ⟨none, rfl, rfl⟩⟩
  · exact ⟨table, rfl, rfl, Or.inr ⟨by omega, rfl, rfl⟩⟩

/-- What the second part of `tick` does. -/
structure Finishes (impl : PipeImpl P) (live : P → Prop) (thread : ProcessingThread (PipePtr P))
    (curNumslots : ℕ) (masks : Mask) (finished : Finished (PipePtr P)) : Prop where
  table : finished.thread.Table live
  connections : thread.connections.Perm (finished.thread.connections ++
    finished.dead.flatMap fun slot => slot.connection.toList)
  index : (finished.rv = -1 ∧ finished.thread.numslots = -1) ∨
    0 < finished.thread.numslots ∧ 0 ≤ finished.rv ∧ (finished.rv < maximumSlots →
      finished.rv < finished.thread.numslots ∨ thread.TakesDown impl.ptr curNumslots masks)

theorem Table.finishes_of_none (lasting : impl.Lasting live) (table : self.Table live)
    (inside : (curNumslots : ℤ) ≤ self.numslots) {count : ℕ} {last : Pass (PipePtr P)}
    (visited : Pass.Visited impl.ptr self.slots masks curNumslots count last)
    (alive : ∀ i < count, resultAt impl.ptr self.slots masks i ≠ .dead)
    (none : last.wasDel = .none) :
    Finishes impl live self curNumslots masks (compact self.numslots last) := by
  have bound := table.bound
  have small := visited.inside
  have next : Table live { numslots := (self.numslots.toNat : ℤ), slots := last.slots } := by
    refine ⟨by dsimp only; omega, fun i before => ?_, fun i outside => ?_⟩
    · rcases table.used i (by dsimp only at before; omega) with ⟨connection, holds⟩
      exact ⟨connection, visited.holds lasting holds fun dead => alive i dead.1 dead.2⟩
    · dsimp only at outside ⊢
      rw [visited.table, if_neg (by omega)]
      exact table.vacant i (by omega)
  have parts := visited.connections lasting (show count ≤ self.numslots.toNat by omega)
    fun i before => table.used i (by omega)
  rw [compact, none]
  rcases @Table.ofSlots _ _ _ last.rv _ last.dead next with ⟨kept, connections, dead, index⟩
  refine ⟨kept, by rwa [connections, dead], ?_⟩
  rcases index with ⟨-, rv, numslots⟩ | ⟨some, rv, numslots⟩
  · exact Or.inl ⟨rv, numslots⟩
  · right
    rw [rv, numslots]
    refine ⟨by omega, by omega, fun index => Or.inl ?_⟩
    have position := visited.index
    rcases visited.rv with ⟨unset, -⟩ | ⟨before, -⟩ <;> omega

/-- The compaction that follows when slots have been found dead, the first of them at `first`. -/
theorem Table.compacts (lasting : impl.Lasting live) (table : self.Table live)
    (inside : (curNumslots : ℤ) ≤ self.numslots) {count first : ℕ} {last : Pass (PipePtr P)}
    (visited : Pass.Visited impl.ptr self.slots masks curNumslots count last)
    (early : first < count) (dead : resultAt impl.ptr self.slots masks first = .dead)
    (alive : ∀ i < first, resultAt impl.ptr self.slots masks i ≠ .dead) :
    Compacts live (self.numslots.toNat - (first + 1)) (first + 1)
      { slots := last.slots, rv := last.rv, wasDel := first }
      (compactSlots (self.numslots.toNat - (first + 1)) (first + 1)
        { slots := last.slots, rv := last.rv, wasDel := first }) := by
  have small := visited.inside
  refine Handlers.compacts ⟨Nat.lt_succ_self first, fun i before => ?_, fun i after before => ?_⟩
    fun i after before => ?_
  · rcases table.used i (by dsimp only at before; omega) with ⟨connection, holds⟩
    exact ⟨connection, visited.holds lasting holds fun gone => alive i before gone.2⟩
  · obtain rfl : i = first := by dsimp only at after; omega
    exact visited.vacant early dead
  · by_cases gone : i < count ∧ resultAt impl.ptr self.slots masks i = .dead
    · exact Or.inl (visited.vacant gone.1 gone.2)
    · rcases table.used i (by omega) with ⟨connection, holds⟩
      exact Or.inr ⟨connection, visited.holds lasting holds gone⟩

/-- If nothing is left behind the first slot that is not busy, and that one is dead, then all
behind it are. -/
theorem Table.takesDown (lasting : impl.Lasting live) (table : self.Table live)
    (inside : (curNumslots : ℤ) ≤ self.numslots) {count : ℕ} {last : Pass (PipePtr P)}
    (visited : Pass.Visited impl.ptr self.slots masks curNumslots count last)
    (processed : last.rv < last.index) (positive : 0 < last.rv)
    (within : (last.rv : ℤ) < self.numslots)
    (busy : ∀ i < last.rv, resultAt impl.ptr self.slots masks i = .processes)
    (dead : resultAt impl.ptr self.slots masks last.rv = .dead)
    (gone : ∀ i, last.rv < i → (i : ℤ) < self.numslots → (last.slots i).Vacant) :
    self.TakesDown impl.ptr curNumslots masks := by
  have position := visited.index
  have small := visited.inside
  have reached : (count : ℤ) = self.numslots := by
    by_contra short
    rcases table.used (self.numslots.toNat - 1) (by omega) with ⟨connection, holds⟩
    have kept := visited.holds lasting holds fun gone => by omega
    exact kept.not_vacant (gone _ (by omega) (by omega))
  refine ⟨by omega, last.rv, positive, by omega, busy, fun i after inside => ?_,
    fun i pending => ?_⟩
  · by_contra alive
    rcases table.used i (by omega) with ⟨connection, holds⟩
    have kept := visited.holds lasting holds fun gone => alive gone.2
    rcases Nat.lt_or_eq_of_le after with after | rfl
    · exact kept.not_vacant (gone i after (by omega))
    · exact alive dead
  · rcases pending with inside | rfl
    · exact visited.pending i (by omega)
    · exact visited.revisited _ processed dead

/-- A tick that has found slots dead, the first of them at `first`. -/
theorem Table.finishes_of_some (lasting : impl.Lasting live) (table : self.Table live)
    (inside : (curNumslots : ℤ) ≤ self.numslots) {count first : ℕ} {last : Pass (PipePtr P)}
    (visited : Pass.Visited impl.ptr self.slots masks curNumslots count last)
    (early : first < count) (dead : resultAt impl.ptr self.slots masks first = .dead)
    (alive : ∀ i < first, resultAt impl.ptr self.slots masks i ≠ .dead)
    (some : last.wasDel = .some first) :
    Finishes impl live self curNumslots masks (compact self.numslots last) := by
  have bound := table.bound
  have small := visited.inside
  have compacts := table.compacts lasting inside visited early dead alive
  rcases Int.eq_ofNat_of_zero_le (show 0 ≤ self.numslots by omega) with ⟨ns, same⟩
  rw [same, Int.toNat_natCast] at compacts
  rw [compact, some, same, Int.toNat_natCast]
  dsimp only
  generalize compactSlots (ns - (first + 1)) (first + 1)
    { slots := last.slots, rv := last.rv, wasDel := first } = closed at compacts ⊢
  have gap := compacts.upto.gap
  have more := compacts.more
  have survivor := compacts.survivor
  have before := compacts.rv_before
  have beyond := compacts.rv_beyond
  have kept := compacts.connections
  dsimp only at more survivor before beyond kept
  have next : Table live { numslots := (closed.wasDel : ℤ), slots := closed.slots } := by
    refine ⟨by dsimp only; omega, fun i before => compacts.upto.used i (by simpa using before),
      fun i outside => ?_⟩
    dsimp only at outside ⊢
    by_cases before : i < first + 1 + (ns - (first + 1))
    · exact compacts.upto.vacant i (by omega) before
    · rw [compacts.beyond i (by omega)]
      dsimp only
      rw [visited.table, if_neg (by omega)]
      exact table.vacant i (by omega)
  rcases @Table.ofSlots _ _ _ closed.rv _ last.dead next with ⟨nextTable, connections, gone, index⟩
  refine ⟨nextTable, ?_, ?_⟩
  · have parts := visited.connections lasting (show count ≤ ns by omega)
      fun i before => table.used i (by omega)
    rw [connections, gone, kept, ProcessingThread.connections, same, Int.toNat_natCast]
    have whole : connectionsOf last.slots 0 ns = connectionsOf last.slots 0 first ++
        connectionsOf last.slots (first + 1) (ns - (first + 1)) := by
      calc connectionsOf last.slots 0 ns
          = connectionsOf last.slots 0 (first + (1 + (ns - (first + 1)))) := by
            rw [show first + (1 + (ns - (first + 1))) = ns by omega]
        _ = _ := by
            rw [connectionsOf_add, connectionsOf_add, connectionsOf_one, Nat.zero_add,
              (visited.vacant early dead).connection, Option.toList_none, List.nil_append]
    rwa [← whole]
  · rcases index with ⟨-, rv, numslots⟩ | ⟨some, rv, numslots⟩
    · exact Or.inl ⟨rv, numslots⟩
    · right
      rw [rv, numslots]
      refine ⟨by omega, by omega, fun index => ?_⟩
      rcases visited.rv with ⟨unset, -⟩ | ⟨processed, busy, idle⟩
      · omega
      · have position := visited.index
        have first_idle : ¬first < last.rv := fun after => by
          rw [busy first after] at dead
          cases dead
        rw [before (by omega)] at index ⊢
        by_cases survives : last.rv < closed.wasDel
        · exact Or.inl (by omega)
        · right
          obtain rfl : last.rv = first := by omega
          -- nothing behind the first dead slot is left
          refine table.takesDown lasting inside visited processed (by omega) (by omega) busy dead
            fun i after inside => ?_
          by_contra full
          have := survivor i after (by omega) full
          omega

theorem Table.finishTick (lasting : impl.Lasting live) (table : self.Table live)
    (inside : (curNumslots : ℤ) ≤ self.numslots) {finished : Finished (PipePtr P)}
    (finishes : self.finishTick impl.ptr curNumslots masks = .some finished) :
    Finishes impl live self curNumslots masks finished := by
  have bound := table.bound
  rcases Option.map_eq_some_iff.mp finishes with ⟨last, passed, rfl⟩
  rcases Pass.Visited.processSlots_eq (by omega) Pass.visited_start passed with ⟨count, visited, -⟩
  rcases visited.wasDel with ⟨none, alive⟩ | ⟨first, some, early, dead, alive⟩
  · exact table.finishes_of_none lasting inside visited alive none
  · exact table.finishes_of_some lasting inside visited early dead alive some

end ProcessingThread

end Imconee.Handlers
