import Imconee.Handlers.Connection
import Imconee.Handlers.Pass
import Mathlib.Data.List.Nodup

/-!
# The slot table

Between its steps a thread has its first `numslots` slots in use and the others vacant. Each
operation keeps this, and what it does to the connections in the table is a permutation of
what it gains, keeps and gives up.
-/

set_option autoImplicit false

namespace Imconee.Handlers

open Imconee.Netkit

variable {P : Type} {impl : PipeImpl P} {live : P → Prop}

/-- The connections in a run of slots. -/
def connectionsOf (slots : ℕ → Bridged (PipePtr P)) (first count : ℕ) : List (ℕ × ℕ) :=
  (List.range' first count).flatMap fun i => (slots i).connection.toList

section

variable {slots other : ℕ → Bridged (PipePtr P)}

theorem connectionsOf_congr {first count : ℕ}
    (same : ∀ i, first ≤ i → i < first + count → (slots i).connection = (other i).connection) :
    connectionsOf slots first count = connectionsOf other first count := by
  refine List.flatMap_congr fun i inside => ?_
  rcases List.mem_range'_1.mp inside with ⟨after, before⟩
  rw [same i after before]

theorem connectionsOf_add (slots : ℕ → Bridged (PipePtr P)) (first count more : ℕ) :
    connectionsOf slots first (count + more) =
      connectionsOf slots first count ++ connectionsOf slots (first + count) more := by
  rw [connectionsOf, ← List.range'_append_1, List.flatMap_append]
  rfl

theorem connectionsOf_one (slots : ℕ → Bridged (PipePtr P)) (first : ℕ) :
    connectionsOf slots first 1 = (slots first).connection.toList := by
  simp [connectionsOf]

variable (slots) in
theorem connectionsOf_update {count index : ℕ} (inside : index < count)
    (slot : Bridged (PipePtr P)) :
    (connectionsOf (Function.update slots index slot) 0 count).Perm
      (slot.connection.toList ++ connectionsOf (Function.update slots index {}) 0 count) := by
  rcases Nat.exists_eq_add_of_lt inside with ⟨more, rfl⟩
  have before : ∀ slot : Bridged (PipePtr P),
      connectionsOf (Function.update slots index slot) 0 index = connectionsOf slots 0 index :=
    fun slot => connectionsOf_congr fun i _ inside => by
      rw [Function.update_of_ne (by omega)]
  have after : ∀ slot : Bridged (PipePtr P),
      connectionsOf (Function.update slots index slot) (index + 1) more =
        connectionsOf slots (index + 1) more :=
    fun slot => connectionsOf_congr fun i outside _ => by
      rw [Function.update_of_ne (by omega)]
  rw [show index + more + 1 = index + 1 + more by omega]
  simp only [connectionsOf_add, connectionsOf_one, Nat.zero_add, before, after,
    Function.update_self]
  rw [show (({} : Bridged (PipePtr P)).connection) = none from rfl, Option.toList_none,
    List.append_nil, ← List.append_assoc]
  exact List.perm_append_comm.append_right _

theorem mem_connectionsOf {count : ℕ} {connection : ℕ × ℕ} :
    connection ∈ connectionsOf slots 0 count ↔
      ∃ i < count, (slots i).connection = some connection := by
  simp [connectionsOf]

/-- A connection that is in the table once is in one slot. -/
theorem index_unique {count i j : ℕ} {connection : ℕ × ℕ}
    (nodup : (connectionsOf slots 0 count).Nodup) (inside : i < count) (inside' : j < count)
    (there : (slots i).connection = some connection)
    (there' : (slots j).connection = some connection) : i = j := by
  by_contra different
  have parts := connectionsOf_update slots inside (slots i)
  rw [Function.update_eq_self, there] at parts
  refine (List.nodup_cons.mp (parts.nodup_iff.mp nodup)).1 (mem_connectionsOf.mpr ⟨j, inside', ?_⟩)
  rw [Function.update_of_ne (Ne.symm different), there']

end

namespace ProcessingThread

/-- The connections of a thread. -/
def connections (self : ProcessingThread (PipePtr P)) : List (ℕ × ℕ) :=
  connectionsOf self.slots 0 self.numslots.toNat

variable (live) in
/-- The first `numslots` slots are in use, the others are vacant. -/
structure Table (thread : ProcessingThread (PipePtr P)) : Prop where
  bound : thread.numslots ≤ maximumSlots
  used : ∀ i : ℕ, (i : ℤ) < thread.numslots →
    ∃ connection, (thread.slots i).Holds live connection
  vacant : ∀ i : ℕ, thread.numslots ≤ i → (thread.slots i).Vacant

namespace Table

variable {self : ProcessingThread (PipePtr P)}

theorem new : Table live ({} : ProcessingThread (PipePtr P)) where
  bound := by simp [maximumSlots]
  used i inside := absurd inside (by simp)
  vacant _ _ := ⟨rfl, rfl⟩

theorem isEmpty_iff (table : self.Table live) (i : ℕ) :
    (self.slots i).isEmpty = false ↔ (i : ℤ) < self.numslots := by
  constructor
  · intro full
    by_contra outside
    rw [(table.vacant i (by omega)).isEmpty] at full
    cases full
  · intro inside
    rcases table.used i inside with ⟨connection, holds⟩
    exact holds.1

/-- What happens to the slots one by one, without changing what they hold. -/
theorem congr (table : self.Table live) {slots : ℕ → Bridged (PipePtr P)}
    (kept : ∀ i connection, (self.slots i).Holds live connection →
      (slots i).Holds live connection)
    (vacant : ∀ i, (self.slots i).Vacant → (slots i).Vacant) :
    Table live { self with slots } ∧
      ({ self with slots } : ProcessingThread (PipePtr P)).connections = self.connections := by
  refine ⟨⟨table.bound, fun i inside => ?_, fun i outside => vacant i (table.vacant i outside)⟩, ?_⟩
  · rcases table.used i inside with ⟨connection, holds⟩
    exact ⟨connection, kept i connection holds⟩
  · refine connectionsOf_congr fun i _ inside => ?_
    rcases table.used i (by dsimp only at inside; omega) with ⟨connection, holds⟩
    rw [holds.connection_eq, (kept i connection holds).connection_eq]

/-- A bridge is added behind the slots in use, or the thread stays as it is. -/
theorem tryAddBridge (table : self.Table live) {pipe1 pipe2 : PipePtr P}
    (live1 : live pipe1.pipe) (live2 : live pipe2.pipe) :
    let added := self.tryAddBridge (some pipe1) (some pipe2)
    (added.1 ≤ 0 ∧ added.2 = self) ∨
      0 < added.1 ∧ 0 ≤ self.numslots ∧ added.2.numslots = self.numslots + 1 ∧
        added.2.Table live ∧
        added.2.connections = self.connections ++ [(pipe1.address, pipe2.address)] := by
  simp only [ProcessingThread.tryAddBridge]
  split
  · exact Or.inl ⟨by omega, rfl⟩
  · split
    · rename_i open_ room
      rcases Int.eq_ofNat_of_zero_le (Int.not_lt.mp open_) with ⟨ns, same⟩
      have slot : Bridged.Holds live { pipe1 := some pipe1, pipe2 := some pipe2 }
          (pipe1.address, pipe2.address) :=
        ⟨rfl, by rintro _ ⟨⟩; exact ⟨rfl, live1⟩, by rintro _ ⟨⟩; exact ⟨rfl, live2⟩⟩
      refine Or.inr ⟨by omega, by omega, rfl, ⟨?_, fun i inside => ?_, fun i outside => ?_⟩, ?_⟩
      · dsimp only
        omega
      · simp only [same, Int.toNat_natCast, Function.update_apply]
        split
        · exact ⟨_, slot⟩
        · exact table.used i (by dsimp only at inside; omega)
      · dsimp only at outside ⊢
        rw [Function.update_of_ne (by omega)]
        exact table.vacant i (by omega)
      · simp only [connections, same, Int.toNat_natCast, Int.toNat_natCast_add_one]
        rw [connectionsOf_add, connectionsOf_one, Nat.zero_add, Function.update_self,
          slot.connection_eq, Option.toList_some, connectionsOf_congr]
        intro i _ inside
        rw [Function.update_of_ne (by omega)]
    · exact Or.inl ⟨by omega, rfl⟩

/-- Moving the last slot to the place of another one takes this one out of the table. -/
theorem moveslot (table : self.Table live) {slot ns : ℕ} {connection : ℕ × ℕ}
    (count : self.numslots = ns + 1) (inside : slot ≤ ns)
    (holds : (self.slots slot).Holds live connection) :
    let next : ProcessingThread (PipePtr P) :=
      { numslots := ns, slots := moveslot self.slots slot ns }
    next.Table live ∧ self.connections.Perm (connection :: next.connections) := by
  have below : ∀ i < ns, Handlers.moveslot self.slots slot ns i =
      Function.update self.slots slot (self.slots ns) i := by
    intro i before
    rw [Handlers.moveslot, Function.update_of_ne (by omega)]
    split
    · rfl
    · rw [Function.update_of_ne (by omega)]
  refine ⟨⟨?_, fun i before => ?_, fun i outside => ?_⟩, ?_⟩
  · have bound := table.bound
    dsimp only
    omega
  · dsimp only at before ⊢
    rw [below i (by omega), Function.update_apply]
    split
    · exact table.used ns (by omega)
    · exact table.used i (by omega)
  · dsimp only at outside ⊢
    rw [Handlers.moveslot, Function.update_apply]
    split
    · exact Bridged.vacant_movedFrom _
    · split
      · rw [Function.update_of_ne (by omega)]
        exact table.vacant i (by omega)
      · exact table.vacant i (by omega)
  · have last : self.connections =
        connectionsOf self.slots 0 ns ++ (self.slots ns).connection.toList := by
      rw [connections, count, Int.toNat_natCast_add_one, connectionsOf_add, connectionsOf_one,
        Nat.zero_add]
    have next : connectionsOf (Handlers.moveslot self.slots slot ns) 0 ns =
        connectionsOf (Function.update self.slots slot (self.slots ns)) 0 ns :=
      connectionsOf_congr fun i _ before => by rw [below i (by omega)]
    rw [last, connections, Int.toNat_natCast, next]
    rcases Nat.lt_or_eq_of_le inside with before | rfl
    · have gone := connectionsOf_update self.slots before (self.slots slot)
      have come := connectionsOf_update self.slots before (self.slots ns)
      rw [Function.update_eq_self, holds.connection_eq, Option.toList_some,
        List.singleton_append] at gone
      exact (gone.append_right _).trans
        ((List.perm_append_comm.trans come.symm).cons connection)
    · rw [Function.update_eq_self, holds.connection_eq]
      exact List.perm_append_comm

theorem registerSlots (lasting : impl.Lasting live) (fuel : ℕ) {i : ℕ}
    {s : Registering (PipePtr P)} (small : s.ns ≤ maximumSlots) (numw : s.waiter.numw = 2 * i)
    (used : ∀ j < s.ns, ∃ connection, (s.slots j).Holds live connection) :
    let registered := Handlers.registerSlots impl.ptr fuel i s
    registered.ns = s.ns ∧
      (∀ j connection, (s.slots j).Holds live connection →
        (registered.slots j).Holds live connection) ∧
      ∀ j, (s.slots j).Vacant → (registered.slots j).Vacant := by
  induction fuel generalizing i s with
  | zero => exact ⟨rfl, fun _ _ holds => holds, fun _ vacant => vacant⟩
  | succ fuel ih =>
      simp only [Handlers.registerSlots]
      split
      · rename_i inside
        rw [maximumSlots] at small
        rcases used i inside with ⟨connection, holds⟩
        rcases holds.prepareWait lasting (show s.waiter.numw + 2 ≤ 64 by omega) with
            ⟨registered, next, numw'⟩
        have kept : ∀ j connection, (s.slots j).Holds live connection →
            (Function.update s.slots i ((s.slots i).prepareWait impl.ptr s.waiter).2.1 j).Holds live
              connection := by
          intro j other holdsOther
          rw [Function.update_apply]
          split
          · rename_i same
            subst same
            rwa [holdsOther.unique holds]
          · exact holdsOther
        rw [if_pos registered]
        rcases @ih (i + 1)
          { s with
            slots := Function.update s.slots i ((s.slots i).prepareWait impl.ptr s.waiter).2.1
            waiter := ((s.slots i).prepareWait impl.ptr s.waiter).2.2 }
          (by rwa [maximumSlots]) (by dsimp only; omega)
          (fun j inside => (used j inside).imp fun connection => kept j connection) with
          ⟨ns, keeps, vacant⟩
        refine ⟨ns, fun j other holdsOther => keeps j other (kept j other holdsOther),
          fun j free => vacant j ?_⟩
        dsimp only
        rwa [Function.update_of_ne (by rintro rfl; exact holds.not_vacant free)]
      · exact ⟨rfl, fun _ _ holds => holds, fun _ vacant => vacant⟩

theorem locked {slots : ℕ → Bridged (PipePtr P)} (vacant : ∀ i, (slots i).Vacant) :
    Table live { numslots := -1, slots } ∧
      ({ numslots := -1, slots } : ProcessingThread (PipePtr P)).connections = [] :=
  ⟨⟨by simp [maximumSlots], fun i inside => absurd inside (by dsimp only; omega),
    fun i _ => vacant i⟩, rfl⟩

theorem connections_of_numslots (count : self.numslots ≤ 0) : self.connections = [] := by
  rw [connections, Int.toNat_of_nonpos count]
  rfl

theorem register (lasting : impl.Lasting live) (table : self.Table live) :
    let registered := self.register impl.ptr
    registered.2.Table live ∧ registered.2.connections = self.connections ∧
      (registered.1 = true → registered.2.numslots = self.numslots ∧ 0 < self.numslots) := by
  rcases registerSlots lasting self.numslots.toNat
    (show ({ ns := self.numslots.toNat, slots := self.slots } : Registering _).ns ≤ maximumSlots by
      have bound := table.bound; dsimp only; omega)
    (show _ = 2 * 0 from rfl) (fun j inside => table.used j (by dsimp only at inside; omega)) with
    ⟨same, kept, vacant⟩
  dsimp only at same kept vacant
  simp only [ProcessingThread.register, same]
  split
  · have all := @locked _ live _ fun i => vacant i (table.vacant i (by omega))
    exact ⟨all.1, all.2.trans (connections_of_numslots (by omega)).symm, by simp⟩
  · rcases table.congr kept vacant with ⟨next, same⟩
    rw [Int.toNat_of_nonneg (by omega)]
    exact ⟨next, same, fun _ => ⟨rfl, by omega⟩⟩

/-- `forward` passes the connection in a slot on, or does nothing. -/
theorem forward (table : self.Table live) {next : ProcessingThread (PipePtr P)}
    (nextTable : next.Table live) {slot : ℕ} (inside : (slot : ℤ) < self.numslots) :
    let forwarded := self.forward slot next
    forwarded = (false, self, next) ∨
      ∃ connection, forwarded.2.1.Table live ∧ forwarded.2.2.Table live ∧
        self.connections.Perm (connection :: forwarded.2.1.connections) ∧
        forwarded.2.2.connections = next.connections ++ [connection] ∧
        0 ≤ next.numslots ∧ forwarded.2.2.numslots = next.numslots + 1 := by
  rcases table.used slot inside with ⟨connection, holds⟩
  rcases holds.pipes with ⟨pipe1, pipe2, there1, there2, at1, at2⟩
  simp only [ProcessingThread.forward, there1, there2]
  rcases nextTable.tryAddBridge at1.2 at2.2 with
    ⟨refused, -⟩ | ⟨added, open_, count, addedTable, addedConnections⟩
  · rw [if_neg (by omega)]
    exact Or.inl rfl
  · rw [if_pos added]
    rcases Int.eq_ofNat_of_zero_le (show 0 ≤ self.numslots - 1 by omega) with ⟨ns, same⟩
    rcases table.moveslot (show self.numslots = ns + 1 by omega)
      (by omega) holds with ⟨moved, parts⟩
    rw [at1.1, at2.1] at addedConnections
    rw [same, Int.toNat_natCast]
    split
    · rename_i none
      have all := @locked _ live _ fun i => moved.vacant i (none ▸ Int.natCast_nonneg i)
      have gone : (ProcessingThread.mk (ns : ℤ) (Handlers.moveslot self.slots slot ns)).connections
          = [] := connections_of_numslots (Int.le_of_eq none)
      rw [gone] at parts
      exact Or.inr ⟨connection, all.1, addedTable, by rwa [all.2], addedConnections, open_, count⟩
    · exact Or.inr ⟨connection, moved, addedTable, parts, addedConnections, open_, count⟩

end Table

end ProcessingThread

end Imconee.Handlers
