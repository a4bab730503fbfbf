import Imconee.Handlers.Filled
import Imconee.Handlers.Tick

/-!
# The order of the slots

A tick takes the connections that have died out of the table and leaves the others in their
order, those in front that have been added while it waited and processed. What the pipes do
does not matter, as long as `process` returns.
-/

set_option autoImplicit false

namespace Imconee.Handlers

open Imconee.Netkit

variable {P : Type} {impl : PipeImpl P}

/-- Any pipe. -/
abbrev Pipes (_ : P) : Prop := True

namespace Bridged

/-- A pipe keeps its address, whatever is done with it. -/
theorem keeps_address (impl : PipeImpl P) (address : ℕ) :
    KeepsFitting impl.ptr (fun _ _ => True) (PipePtr.At Pipes address) where
  send _ _ at_ := ⟨at_.1, trivial⟩
  recv _ _ _ at_ _ _ := ⟨at_.1, trivial⟩
  getWaitable _ at_ := ⟨at_.1, trivial⟩
  setWaitable _ _ at_ := ⟨at_.1, trivial⟩

/-- A slot that is processed holds its connection, if it lives on. -/
theorem holds_process {self : Bridged (PipePtr P)} {connection : ℕ × ℕ}
    (holds : self.Holds Pipes connection) {masks : Mask}
    (goesOn : (self.process impl.ptr masks).1.stops = false) :
    (self.process impl.ptr masks).2.1.Holds Pipes connection := by
  refine ⟨?_, ?_⟩
  · rw [isEmpty_process]
    exact holds.1
  · apply (keeps_address impl _).process (keeps_address impl _) holds.2
    · exact fun _ _ _ _ => ⟨fun _ => trivial, fun _ => trivial⟩
    · exact goesOn

end Bridged

section

variable (impl) (slots : ℕ → Bridged (PipePtr P)) (masks : Mask) (curNumslots : ℕ)

/-- In this pass `process` returns `SLOT_DEAD` of a slot: there are bits left for it. -/
def Marked (i : ℕ) : Prop :=
  i < curNumslots ∧ (∀ j ≤ i, (maskAt impl.ptr slots masks j).isEmpty = false) ∧
    resultAt impl.ptr slots masks i = .dead

instance (i : ℕ) : Decidable (Marked impl slots masks curNumslots i) :=
  inferInstanceAs (Decidable (_ ∧ _ ∧ _))

/-- The connections that are left, in their order. -/
def survivors (count : ℕ) : List (ℕ × ℕ) :=
  (List.range count).flatMap fun i =>
    if Marked impl slots masks curNumslots i then [] else (slots i).connection.toList

end

namespace ProcessingThread

/-- Calls of `try_add_bridge`: the pairs that have been added, and the thread. -/
def addBridges : List (PipePtr P × PipePtr P) → ProcessingThread (PipePtr P) →
    List (ℕ × ℕ) × ProcessingThread (PipePtr P)
  | [], self => ([], self)
  | (pipe1, pipe2) :: rest, self =>
      let added := self.tryAddBridge (some pipe1) (some pipe2)
      let others := addBridges rest added.2
      (if 0 < added.1 then (pipe1.address, pipe2.address) :: others.1 else others.1, others.2)

end ProcessingThread

section pass

variable {slots : ℕ → Bridged (PipePtr P)} {masks : Mask} {curNumslots count : ℕ}
  {last : Pass (PipePtr P)}

/-- When the loop is over, the slots that have been found dead are the marked ones. -/
theorem Pass.Visited.marked_iff
    (visited : Pass.Visited impl.ptr slots masks curNumslots count last)
    (done : ¬(last.index < curNumslots ∧ last.masks.isEmpty = false)) (i : ℕ) :
    Marked impl slots masks curNumslots i ↔
      i < count ∧ resultAt impl.ptr slots masks i = .dead := by
  have position := visited.index
  have small := visited.inside
  constructor
  · rintro ⟨inside, pending, dead⟩
    refine ⟨?_, dead⟩
    by_contra outside
    apply done
    refine ⟨by omega, ?_⟩
    rw [visited.left]
    exact pending count (by omega)
  · rintro ⟨inside, dead⟩
    exact ⟨by omega, fun j before => visited.pending j (by omega), dead⟩

/-- The pass empties the marked slots, and leaves the other ones what they hold. -/
theorem Pass.Visited.slot
    (visited : Pass.Visited impl.ptr slots masks curNumslots count last)
    (done : ¬(last.index < curNumslots ∧ last.masks.isEmpty = false)) {i : ℕ}
    {connection : ℕ × ℕ} (holds : (slots i).Holds Pipes connection) :
    if Marked impl slots masks curNumslots i then (last.slots i).Vacant
      else (last.slots i).Holds Pipes connection := by
  split
  · rename_i marked
    rcases (visited.marked_iff done i).mp marked with ⟨inside, dead⟩
    exact visited.vacant inside dead
  · rename_i alive
    rw [visited.marked_iff done] at alive
    rw [visited.table]
    split
    · rename_i inside
      have returned := visited.returned i inside
      have survives : resultAt impl.ptr slots masks i ≠ .dead := fun dead => alive ⟨inside, dead⟩
      rw [slotAt, if_neg survives]
      apply Bridged.holds_process holds
      rw [← resultAt]
      cases same : resultAt impl.ptr slots masks i with
      | dead => exact absurd same survives
      | unwound => exact absurd same returned
      | processes => rfl
      | skipped => rfl
    · exact holds

theorem Pass.Visited.survivors_eq
    (visited : Pass.Visited impl.ptr slots masks curNumslots count last)
    (done : ¬(last.index < curNumslots ∧ last.masks.isEmpty = false)) {n : ℕ}
    (used : ∀ i < n, ∃ connection, (slots i).Holds Pipes connection) :
    connectionsOf last.slots 0 n = survivors impl slots masks curNumslots n := by
  rw [connectionsOf, survivors, List.range_eq_range']
  apply List.flatMap_congr
  intro i member
  rcases List.mem_range'_1.mp member with ⟨-, inside⟩
  rcases used i (by omega) with ⟨connection, holds⟩
  have slot := visited.slot done holds
  split
  · rename_i marked
    rw [if_pos marked] at slot
    rw [slot.connection, Option.toList_none]
  · rename_i alive
    rw [if_neg alive] at slot
    rw [slot.connection_eq, holds.connection_eq]

end pass

theorem length_connectionsOf {slots : ℕ → Bridged (PipePtr P)} {n : ℕ}
    (used : ∀ i < n, ∃ connection, (slots i).Holds Pipes connection) :
    (connectionsOf slots 0 n).length = n := by
  induction n with
  | zero => rfl
  | succ n ih =>
      rcases used n (Nat.lt_succ_self n) with ⟨connection, holds⟩
      rw [connectionsOf_add, connectionsOf_one, Nat.zero_add, List.length_append, ih]
      · rw [holds.connection_eq]
        rfl
      · exact fun i inside => used i (by omega)

namespace ProcessingThread

variable {self : ProcessingThread (PipePtr P)}

/-- Slots in front that are in use or vacant, the first gap as the pass has found it, and
nothing behind them. -/
structure Gaps (ns : ℕ) (pass : Pass (PipePtr P)) : Prop where
  bound : ns ≤ maximumSlots
  slot : ∀ i < ns, (pass.slots i).Vacant ∨ ∃ connection, (pass.slots i).Holds Pipes connection
  beyond : ∀ i, ns ≤ i → (pass.slots i).Vacant
  whole : pass.wasDel = none → ∀ i < ns, ∃ connection, (pass.slots i).Holds Pipes connection
  gap : ∀ first, pass.wasDel = some first → first < ns ∧ (pass.slots first).Vacant ∧
    ∀ i < first, ∃ connection, (pass.slots i).Holds Pipes connection

/-- The compaction closes the gaps and keeps the order. -/
theorem Gaps.compact {ns : ℕ} {pass : Pass (PipePtr P)} (gapped : Gaps ns pass) :
    (compact ns pass).thread.Table Pipes ∧
      (compact ns pass).thread.connections = connectionsOf pass.slots 0 ns ∧
      (compact ns pass).thread.numslots ≠ 0 := by
  have bound := gapped.bound
  rw [ProcessingThread.compact, Int.toNat_natCast]
  cases found : pass.wasDel with
  | none =>
      have table : Table Pipes { numslots := (ns : ℤ), slots := pass.slots } := by
        refine ⟨by dsimp only; omega, fun i inside => ?_, fun i outside => ?_⟩
        · exact gapped.whole found i (by dsimp only at inside; omega)
        · exact gapped.beyond i (by dsimp only at outside; omega)
      rcases @Table.ofSlots _ _ _ pass.rv _ pass.dead table with ⟨kept, connections, -, index⟩
      refine ⟨kept, connections, ?_⟩
      dsimp only at index ⊢
      omega
  | some first =>
      rcases gapped.gap first found with ⟨inside, vacant, before⟩
      dsimp only
      have upto : Compaction.Upto Pipes (first + 1)
          { slots := pass.slots, rv := pass.rv, wasDel := first } := by
        refine ⟨Nat.lt_succ_self first, before, fun i after upTo => ?_⟩
        obtain rfl : i = first := by dsimp only at after; omega
        exact vacant
      have compacts := @compacts _ _ (ns - (first + 1)) _ _ upto
        fun i _ inside => gapped.slot i (by omega)
      generalize compactSlots (ns - (first + 1)) (first + 1)
        { slots := pass.slots, rv := pass.rv, wasDel := first } = closed at compacts ⊢
      have room := compacts.upto.gap
      have table : Table Pipes { numslots := (closed.wasDel : ℤ), slots := closed.slots } := by
        refine ⟨by dsimp only; omega, fun i used => ?_, fun i outside => ?_⟩
        · exact compacts.upto.used i (by dsimp only at used; omega)
        · dsimp only at outside ⊢
          by_cases early : i < first + 1 + (ns - (first + 1))
          · exact compacts.upto.vacant i (by omega) early
          · rw [compacts.beyond i (by omega)]
            exact gapped.beyond i (by omega)
      rcases @Table.ofSlots _ _ _ closed.rv _ pass.dead table with ⟨kept, connections, -, index⟩
      refine ⟨kept, ?_, by omega⟩
      have parts : ns = first + (1 + (ns - (first + 1))) := by omega
      calc _ = connectionsOf closed.slots 0 closed.wasDel := connections
        _ = connectionsOf pass.slots 0 first ++
            connectionsOf pass.slots (first + 1) (ns - (first + 1)) := compacts.connections
        _ = connectionsOf pass.slots 0 (first + (1 + (ns - (first + 1)))) := by
            rw [connectionsOf_add, connectionsOf_add, connectionsOf_one, Nat.zero_add,
              vacant.connection, Option.toList_none, List.nil_append]
        _ = connectionsOf pass.slots 0 ns := by rw [← parts]

/-- Bridges that are added go behind the slots that are counted, which stay as they are. -/
theorem addBridges_spec {ns : ℕ} (bound : ns ≤ maximumSlots) (slots : ℕ → Bridged (PipePtr P))
    (pairs : List (PipePtr P × PipePtr P)) :
    ∃ more, (addBridges pairs { numslots := ns, slots }).2.numslots = (ns + more : ℕ) ∧
      ns + more ≤ maximumSlots ∧
      (∀ i, i < ns ∨ ns + more ≤ i →
        (addBridges pairs { numslots := ns, slots }).2.slots i = slots i) ∧
      (∀ i, ns ≤ i → i < ns + more → ∃ connection,
        ((addBridges pairs { numslots := ns, slots }).2.slots i).Holds Pipes connection) ∧
      connectionsOf (addBridges pairs { numslots := ns, slots }).2.slots ns more =
        (addBridges pairs { numslots := ns, slots }).1 := by
  induction pairs generalizing ns slots with
  | nil => exact ⟨0, rfl, bound, fun _ _ => rfl, fun i after before => by omega, rfl⟩
  | cons pair rest ih =>
      rcases pair with ⟨pipe1, pipe2⟩
      have open_ : ¬(ns : ℤ) < 0 := by omega
      by_cases room : (ns : ℤ) < maximumSlots
      · have added : ProcessingThread.tryAddBridge { numslots := ns, slots } (some pipe1)
            (some pipe2) =
            (1, { numslots := (ns + 1 : ℕ)
                  slots := Function.update slots ns { pipe1 := pipe1, pipe2 := pipe2 } }) := by
          rw [tryAddBridge, if_neg open_, if_pos room]
          rfl
        have slot : Bridged.Holds Pipes { pipe1 := some pipe1, pipe2 := some pipe2 }
            (pipe1.address, pipe2.address) :=
          ⟨rfl, by rintro _ ⟨⟩; exact ⟨rfl, trivial⟩, by rintro _ ⟨⟩; exact ⟨rfl, trivial⟩⟩
        rcases @ih (ns + 1) (by omega)
          (Function.update slots ns { pipe1 := pipe1, pipe2 := pipe2 }) with
          ⟨more, count, fits, same, new, connections⟩
        have first := same ns (Or.inl (Nat.lt_succ_self ns))
        rw [Function.update_self] at first
        rw [addBridges, added]
        refine ⟨more + 1, ?_, by omega, fun i outside => ?_, fun i after before => ?_, ?_⟩
        · rw [count]
          congr 1
          omega
        · rw [same i (by omega), Function.update_of_ne (by omega)]
        · by_cases here : i = ns
          · rw [here, first]
            exact ⟨_, slot⟩
          · exact new i (by omega) (by omega)
        · rw [Nat.add_comm more, connectionsOf_add, connectionsOf_one, connections, first,
            slot.connection_eq]
          rfl
      · have refused : ProcessingThread.tryAddBridge { numslots := ns, slots } (some pipe1)
            (some pipe2) = (0, { numslots := ns, slots }) := by
          rw [tryAddBridge, if_neg open_, if_neg room]
        rw [addBridges, refused]
        exact ih bound slots

/-- What the second part of `tick` does when bridges are added before the slots are counted and
while they are processed: the bridges, the slots as they have been counted, and the end. -/
structure Among (P : Type) where
  before : List (ℕ × ℕ)
  counted : ProcessingThread (PipePtr P)
  during : List (ℕ × ℕ)
  finished : Finished (PipePtr P)

/-- What follows the pass. -/
def Among.ofPass (before : List (ℕ × ℕ)) (counted : ProcessingThread (PipePtr P))
    (during : List (PipePtr P × PipePtr P)) (last : Pass (PipePtr P)) : Among P :=
  let added := addBridges during { counted with slots := last.slots }
  { before
    counted
    during := added.1
    finished := compact added.2.numslots { last with slots := added.2.slots } }

variable (impl) in
/-- The pass only touches the slots that have been counted, and `try_add_bridge` only others. -/
def finishAmong (self : ProcessingThread (PipePtr P)) (masks : Mask)
    (before during : List (PipePtr P × PipePtr P)) : Option (Among P) :=
  let added := addBridges before self
  (pass impl.ptr added.2.slots added.2.numslots.toNat masks).map
    (.ofPass added.1 added.2 during)

/-- The slots in use hold these connections, one after the other, the others are empty, and
`numslots` is their number. -/
structure Lists (thread : ProcessingThread (PipePtr P)) (connections : List (ℕ × ℕ)) : Prop where
  order : thread.connections = connections
  used : ∀ i : ℕ, (i : ℤ) < thread.numslots → (thread.slots i).isEmpty = false
  empty : ∀ i : ℕ, thread.numslots ≤ i → (thread.slots i).Vacant
  number : thread.numslots = if connections = [] then -1 else (connections.length : ℤ)

theorem Table.lists (table : self.Table Pipes) (some : self.numslots ≠ 0)
    (least : -1 ≤ self.numslots) : self.Lists self.connections := by
  refine ⟨rfl, fun i inside => (table.isEmpty_iff i).mpr inside, table.vacant, ?_⟩
  have number : self.connections.length = self.numslots.toNat :=
    length_connectionsOf fun i inside => table.used i (by omega)
  split
  · rename_i none
    rw [none, List.length_nil] at number
    omega
  · rename_i more
    have positive := List.length_pos_iff.mpr more
    omega

theorem numslots_compact (ns : ℕ) (pass : Pass (PipePtr P)) :
    -1 ≤ (compact ns pass).thread.numslots := by
  have least : ∀ n rv slots dead,
      -1 ≤ (Finished.ofSlots n rv slots dead : Finished (PipePtr P)).thread.numslots := by
    intro n rv slots dead
    rw [Finished.ofSlots]
    split
    · exact Int.le_refl _
    · dsimp only
      omega
  rw [compact]
  cases pass.wasDel with
  | none => exact least _ _ _ _
  | some first => exact least _ _ _ _

theorem Table.addBridges {n : ℕ} (count : self.numslots = n) (table : self.Table Pipes)
    (pairs : List (PipePtr P × PipePtr P)) :
    (ProcessingThread.addBridges pairs self).2.Table Pipes ∧
      (∃ m : ℕ, (ProcessingThread.addBridges pairs self).2.numslots = m) ∧
      (ProcessingThread.addBridges pairs self).2.connections =
        self.connections ++ (ProcessingThread.addBridges pairs self).1 := by
  rcases self with ⟨numslots, slots⟩
  dsimp only at count
  subst count
  have bound := table.bound
  rcases addBridges_spec (show n ≤ maximumSlots by dsimp only at bound; omega) slots pairs with
    ⟨more, number, fits, same, new, connections⟩
  generalize ProcessingThread.addBridges pairs { numslots := n, slots } = added at *
  refine ⟨⟨by omega, fun i inside => ?_, fun i outside => ?_⟩, ⟨n + more, number⟩, ?_⟩
  · by_cases old : i < n
    · rw [same i (Or.inl old)]
      exact table.used i (by dsimp only; omega)
    · exact new i (by omega) (by omega)
  · rw [same i (Or.inr (by omega))]
    exact table.vacant i (by dsimp only; omega)
  · rw [ProcessingThread.connections, number, Int.toNat_natCast, connectionsOf_add, Nat.zero_add,
      connections]
    congr 1
    exact connectionsOf_congr fun i _ inside => by rw [same i (by omega)]

theorem gaps_of_pass {n : ℕ} {slots : ℕ → Bridged (PipePtr P)} {masks : Mask}
    (table : Table Pipes { numslots := (n : ℤ), slots }) {count : ℕ} {last : Pass (PipePtr P)}
    (visited : Pass.Visited impl.ptr slots masks n count last)
    (done : ¬(last.index < n ∧ last.masks.isEmpty = false))
    (pairs : List (PipePtr P × PipePtr P)) :
    ∃ ns : ℕ, (addBridges pairs { numslots := n, slots := last.slots }).2.numslots = ns ∧
      Gaps ns { last with
        slots := (addBridges pairs { numslots := n, slots := last.slots }).2.slots } ∧
      connectionsOf (addBridges pairs { numslots := n, slots := last.slots }).2.slots 0 ns =
        survivors impl slots masks n n ++
          (addBridges pairs { numslots := n, slots := last.slots }).1 := by
  have bound := table.bound
  have small := visited.inside
  have used : ∀ i < n, ∃ connection, (slots i).Holds Pipes connection :=
    fun i inside => table.used i (by dsimp only; omega)
  have beyond : ∀ i, n ≤ i → (last.slots i).Vacant := by
    intro i outside
    rw [visited.table, if_neg (by omega)]
    exact table.vacant i (by dsimp only; omega)
  have slot : ∀ i < n, if Marked impl slots masks n i then (last.slots i).Vacant
      else ∃ connection, (last.slots i).Holds Pipes connection := by
    intro i inside
    rcases used i inside with ⟨connection, holds⟩
    have slot := visited.slot done holds
    split
    · rename_i marked
      rwa [if_pos marked] at slot
    · rename_i alive
      rw [if_neg alive] at slot
      exact ⟨connection, slot⟩
  rcases addBridges_spec (show n ≤ maximumSlots by dsimp only at bound; omega) last.slots pairs with
    ⟨more, number, fits, same, new, connections⟩
  generalize addBridges pairs { numslots := n, slots := last.slots } = added at *
  refine ⟨n + more, number, ?_, ?_⟩
  · refine ⟨fits, fun i inside => ?_, fun i outside => ?_, fun whole i inside => ?_,
      fun first found => ?_⟩
    · by_cases old : i < n
      · have slot := slot i old
        dsimp only
        rw [same i (Or.inl old)]
        split at slot
        · exact Or.inl slot
        · exact Or.inr slot
      · exact Or.inr (new i (by omega) inside)
    · dsimp only
      rw [same i (Or.inr outside)]
      exact beyond i (by omega)
    · by_cases old : i < n
      · have slot := slot i old
        dsimp only
        rw [same i (Or.inl old)]
        rcases visited.wasDel with ⟨-, alive⟩ | ⟨first, found, -⟩
        · rwa [if_neg] at slot
          rw [visited.marked_iff done]
          exact fun dead => alive i dead.1 dead.2
        · rw [found] at whole
          cases whole
      · exact new i (by omega) inside
    · rcases visited.wasDel with ⟨none, -⟩ | ⟨first', found', inside, dead, alive⟩
      · rw [none] at found
        cases found
      · obtain rfl : first' = first := Option.some.inj (found'.symm.trans found)
        dsimp only
        refine ⟨by omega, ?_, fun i before => ?_⟩
        · have slot := slot first' (by omega)
          rw [if_pos ((visited.marked_iff done _).mpr ⟨inside, dead⟩)] at slot
          rwa [same first' (by omega)]
        · have slot := slot i (by omega)
          rw [if_neg] at slot
          · rwa [same i (by omega)]
          · rw [visited.marked_iff done]
            exact fun dead => alive i before dead.2
  · rw [connectionsOf_add, Nat.zero_add, connections, ← visited.survivors_eq done used]
    congr 1
    exact connectionsOf_congr fun i _ inside => by rw [same i (by omega)]

/-- A tick takes out the connections that have died and keeps the others in their order, with
those behind them that have been added. -/
theorem lists_of_tick {n : ℕ} (count : self.numslots = n) (table : self.Table Pipes)
    (masks : Mask) (before during : List (PipePtr P × PipePtr P))
    (returns : ∀ i < (addBridges before self).2.numslots.toNat,
      resultAt impl.ptr (addBridges before self).2.slots masks i ≠ .unwound) :
    ∃ among : Among P, finishAmong impl self masks before during = some among ∧
      among.counted.connections = self.connections ++ among.before ∧
      among.finished.thread.Lists
        (survivors impl among.counted.slots masks among.counted.numslots.toNat
          among.counted.numslots.toNat ++ among.during) := by
  rcases table.addBridges count before with ⟨counted, number, connections⟩
  rw [finishAmong]
  generalize addBridges before self = early at *
  rcases early with ⟨early, ⟨ns, slots⟩⟩
  rcases number with ⟨m, rfl⟩
  have bound := counted.bound
  have small : m ≤ maximumSlots := by
    dsimp only at bound
    omega
  rw [Int.toNat_natCast] at returns
  rcases Option.isSome_iff_exists.mp (Pass.visited_start.processSlots_isSome small returns
    (show 2 * m < 2 * m + 1 + (2 * 0 + (0 - 0)) by omega)) with ⟨last, passed⟩
  rcases Pass.Visited.processSlots_eq small Pass.visited_start passed with ⟨_, visited, done⟩
  rcases gaps_of_pass counted visited done during with ⟨locked, same, gaps, order⟩
  rcases gaps.compact with ⟨closed, kept, some⟩
  have lists := closed.lists some (numslots_compact _ _)
  rw [kept] at lists
  dsimp only at lists
  rw [order] at lists
  refine ⟨.ofPass early { numslots := m, slots } during last, ?_, connections, ?_⟩
  · exact congrArg (Option.map (Among.ofPass early { numslots := m, slots } during)) passed
  · rw [Among.ofPass, same]
    exact lists

/-- Three bridges that are registered. -/
def threeBridges : ProcessingThread (PipePtr MemoryPipe) where
  numslots := (3 : ℕ)
  slots i :=
    if i < 3 then
      { pipe1 := some ⟨2 * i, {}⟩
        pipe2 := some ⟨2 * i + 1, {}⟩
        mask1 := bit (2 * i)
        mask2 := bit (2 * i + 1) }
    else {}

theorem table_threeBridges : threeBridges.Table Pipes where
  bound := by decide
  used i inside := by
    have inside : i < 3 := Int.ofNat_lt.mp inside
    rw [threeBridges]
    dsimp only
    rw [if_pos inside]
    exact ⟨(2 * i, 2 * i + 1), rfl, by rintro _ ⟨⟩; exact ⟨rfl, trivial⟩,
      by rintro _ ⟨⟩; exact ⟨rfl, trivial⟩⟩
  vacant i outside := by
    have outside : ¬i < 3 := Nat.not_lt.mpr (Int.ofNat_le.mp outside)
    rw [threeBridges]
    dsimp only
    rw [if_neg outside]
    exact ⟨rfl, rfl⟩

/-- The second of three bridges is closed, and another one is added while it is processed. -/
theorem lists_of_tick_threeBridges :
    ∃ among : Among MemoryPipe, finishAmong memoryPipe threeBridges
        { readm := bit 0, closem := bit 2 } [] [(⟨6, {}⟩, ⟨7, {}⟩)] = some among ∧
      among.finished.thread.Lists [(0, 1), (4, 5), (6, 7)] := by
  rcases @lists_of_tick _ memoryPipe threeBridges 3 rfl table_threeBridges
    { readm := bit 0, closem := bit 2 } [] [(⟨6, {}⟩, ⟨7, {}⟩)] (by decide +kernel) with
    ⟨among, ends, -, lists⟩
  have order : some [(0, 1), (4, 5), (6, 7)] = (some among).map fun among =>
      survivors memoryPipe among.counted.slots { readm := bit 0, closem := bit 2 }
        among.counted.numslots.toNat among.counted.numslots.toNat ++ among.during := by
    rw [← ends]
    decide +kernel
  refine ⟨among, ends, ?_⟩
  rw [Option.some.inj order]
  exact lists

end ProcessingThread

end Imconee.Handlers
