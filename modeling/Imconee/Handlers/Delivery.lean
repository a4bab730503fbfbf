import Imconee.Handlers.Bridged
import Imconee.Netkit.Sound

/-!
# Delivery

A bridge between two `tcp_pipe`s, as long as it goes on, neither loses nor adds a byte in
either direction. It goes on until the masks report a close or a socket says that it is over
or takes nothing more. That does not wait: the slot is discarded with whatever is then still
in the source's `rcvbuf`, in its socket and in the target's `outbuf`.
-/

set_option autoImplicit false

namespace Imconee.Handlers

open Imconee.Netkit Imconee.Tools

variable {K : Type} {kernel : Kernel K} {incoming accepted : K → List UInt8}
  {ended refused : K → Prop} {fuel : ℕ}

variable (incoming accepted) in
/-- Of what goes forth, a part has been taken by the target and the rest is still to be
received by the source; and the other way round. -/
structure Conserved (forth back : List UInt8) (source target : TcpPipe K) : Prop where
  sourceFormed : source.WellFormed
  targetFormed : target.WellFormed
  forth : target.taken accepted ++ source.stream incoming = forth
  back : source.taken accepted ++ target.stream incoming = back

namespace Conserved

variable {forth back : List UInt8} {source target : TcpPipe K}

theorem symm (conserved : Conserved incoming accepted forth back source target) :
    Conserved incoming accepted back forth target source :=
  ⟨conserved.targetFormed, conserved.sourceFormed, conserved.back, conserved.forth⟩

variable (fuel) in
/-- One relay: either it goes on, or neither socket has taken anything more. -/
theorem relay (stream : kernel.Stream incoming accepted)
    (conserved : Conserved incoming accepted forth back source target) :
    let relayed := relay (tcpPipe kernel fuel) source target
    (relayed.rv.stops = false →
      Conserved incoming accepted forth back relayed.source relayed.target) ∧
    (relayed.rv = .dead → accepted relayed.source.socket = accepted source.socket ∧
      accepted relayed.target.socket = accepted target.socket) := by
  have receives := TcpPipe.recv_receives stream fuel conserved.sourceFormed.rcvbuf
    (rcvsize (tcpPipe kernel fuel) target)
  have asked : ((tcpPipe kernel fuel).send target none).2 = target := rfl
  rcases read : (tcpPipe kernel fuel).recv source (rcvsize (tcpPipe kernel fuel) target) with
    ⟨result, next⟩
  rw [show source.recv kernel fuel (rcvsize (tcpPipe kernel fuel) target) = (result, next) from
    read] at receives
  simp only [Handlers.relay, asked, read]
  cases result with
  | data bytes =>
      have nextFormed := receives.wellFormed conserved.sourceFormed
      rcases receives with ⟨arrived, moved, -⟩
      have sends := TcpPipe.send_sends stream conserved.targetFormed.outbuf (some bytes)
      have kept : ∀ {result after}, TcpPipe.Sends incoming accepted bytes target result after →
          result ≠ .fail → Conserved incoming accepted forth back next after := by
        intro result after sends sent
        refine ⟨nextFormed, ⟨sends.rcvbuf ▸ conserved.targetFormed.rcvbuf, sends.outbuf⟩, ?_, ?_⟩
        · rw [sends.taken_of_sent sent, ← conserved.forth, moved.stream, List.append_assoc]
        · rw [moved.taken, sends.stream, conserved.back]
      by_cases some : 0 < bytes.length
      · rcases sent : (tcpPipe kernel fuel).send target (Option.some bytes) with ⟨outcome, after⟩
        rw [show target.send kernel (Option.some bytes) = (outcome, after) from sent] at sends
        simp only [some, if_true, sent]
        cases outcome with
        | ok => exact ⟨fun _ => kept sends (by simp), by simp⟩
        | fail =>
            exact ⟨by simp [ProcessResult.stops], fun _ => ⟨moved.accepted, sends.failed rfl⟩⟩
        | bufferfull => exact ⟨fun _ => kept sends (by simp), by simp⟩
        | threw exception => exact ⟨by simp [ProcessResult.stops], by simp⟩
      · have nil : bytes = [] := by simpa using some
        subst nil
        have still : Conserved incoming accepted forth back next target := by
          refine ⟨nextFormed, conserved.targetFormed, ?_, ?_⟩
          · rw [← conserved.forth, moved.stream, List.nil_append]
          · rw [moved.taken, conserved.back]
        exact ⟨fun _ => still, by simp⟩
  | failed =>
      rcases receives with ⟨between, arrived, moved, rfl⟩
      exact ⟨by simp [ProcessResult.stops], fun _ => ⟨moved.accepted, rfl⟩⟩
  | threw exception => exact receives.elim
  | blocked => exact ⟨by simp [ProcessResult.stops], by simp⟩

variable (fuel) in
/-- A flush: either it goes on, or the socket has taken nothing more. -/
theorem flush (stream : kernel.Stream incoming accepted)
    (conserved : Conserved incoming accepted forth back source target) :
    let flushed := flush (tcpPipe kernel fuel) target
    (flushed.1.stops = false → Conserved incoming accepted forth back source flushed.2) ∧
      (flushed.1 = .dead → accepted flushed.2.socket = accepted target.socket) := by
  have sends := TcpPipe.send_sends stream conserved.targetFormed.outbuf (some [])
  rcases sent : (tcpPipe kernel fuel).send target (some []) with ⟨outcome, after⟩
  rw [show target.send kernel (some []) = (outcome, after) from sent] at sends
  have kept : outcome ≠ .fail → Conserved incoming accepted forth back source after := by
    intro fine
    refine ⟨conserved.sourceFormed,
      ⟨sends.rcvbuf ▸ conserved.targetFormed.rcvbuf, sends.outbuf⟩, ?_, ?_⟩
    · rw [sends.taken_of_sent fine, ← conserved.forth]
      simp
    · rw [sends.stream, conserved.back]
  simp only [Handlers.flush, sent]
  cases outcome with
  | ok => exact ⟨fun _ => kept (by simp), by simp⟩
  | fail => exact ⟨by simp [ProcessResult.stops], fun _ => sends.failed rfl⟩
  | bufferfull => exact ⟨fun _ => kept (by simp), by simp⟩
  | threw exception => exact ⟨by simp [ProcessResult.stops], by simp⟩

theorem mark (conserved : Conserved incoming accepted forth back source target) (w : Waitable) :
    Conserved incoming accepted forth back { source with waitable := w } target where
  sourceFormed := ⟨conserved.sourceFormed.rcvbuf, conserved.sourceFormed.outbuf⟩
  targetFormed := conserved.targetFormed
  forth := conserved.forth
  back := conserved.back

end Conserved

section

variable {forth back : List UInt8} {mask1 mask2 : BitVec 64}

variable (incoming accepted forth back) in
/-- Between the stages of `process`, with `pipe1` as the source. -/
def Processing.Conserved (s : Processing (TcpPipe K)) : Prop :=
  Handlers.Conserved incoming accepted forth back s.pipe1 s.pipe2

/-- A stage goes on and conserves, or discards and takes nothing. -/
theorem Processing.Conserved.stage (stream : kernel.Stream incoming accepted)
    {s : Processing (TcpPipe K)} (conserved : s.Conserved incoming accepted forth back)
    {stage : Processing (TcpPipe K) → Processing (TcpPipe K)}
    (member : stage ∈ Processing.stages (tcpPipe kernel fuel) mask1 mask2) :
    ((stage s).rv.stops = false → (stage s).Conserved incoming accepted forth back) ∧
    ((stage s).rv = .dead → accepted (stage s).pipe1.socket = accepted s.pipe1.socket ∧
      accepted (stage s).pipe2.socket = accepted s.pipe2.socket) := by
  have still : ∀ {s' : Processing (TcpPipe K)}, s'.pipe1 = s.pipe1 → s'.pipe2 = s.pipe2 →
      (s'.rv.stops = false → s'.Conserved incoming accepted forth back) ∧
      (s'.rv = .dead → accepted s'.pipe1.socket = accepted s.pipe1.socket ∧
        accepted s'.pipe2.socket = accepted s.pipe2.socket) := by
    intro s' same1 same2
    rw [Processing.Conserved, same1, same2]
    exact ⟨fun _ => conserved, fun _ => ⟨rfl, rfl⟩⟩
  simp only [Processing.stages, List.mem_cons, List.not_mem_nil, or_false] at member
  rcases member with rfl | rfl | rfl | rfl | rfl
  · exact still rfl rfl
  · simp only [Processing.read1]
    split
    · exact Handlers.Conserved.relay fuel stream conserved
    · exact still rfl rfl
  · simp only [Processing.read2]
    split
    · rcases Handlers.Conserved.relay fuel stream (Handlers.Conserved.symm conserved) with
        ⟨goesOn, discards⟩
      exact ⟨fun fine => (goesOn fine).symm, fun dead => (discards dead).symm⟩
    · exact still rfl rfl
  · simp only [Processing.write1]
    split
    · rcases Handlers.Conserved.flush fuel stream (Handlers.Conserved.symm conserved) with
        ⟨goesOn, discards⟩
      exact ⟨fun fine => (goesOn fine).symm, fun dead => ⟨discards dead, rfl⟩⟩
    · exact still rfl rfl
  · simp only [Processing.write2]
    split
    · rcases Handlers.Conserved.flush fuel stream conserved with ⟨goesOn, discards⟩
      exact ⟨goesOn, fun dead => ⟨rfl, discards dead⟩⟩
    · exact still rfl rfl

/-- What the target has taken is all there was, just if nothing was left. -/
theorem Conserved.accepted_iff {forth back : List UInt8} {source target : TcpPipe K}
    (conserved : Conserved incoming accepted forth back source target) :
    accepted target.socket = forth ↔
      target.outbuf.content = [] ∧ source.stream incoming = [] := by
  rw [← conserved.forth, TcpPipe.taken, List.append_assoc, List.self_eq_append_right,
    List.append_eq_nil_iff]

end

/-! ### What ends a bridge -/

/-- One relay between sound pipes goes on, or the source is over, or the target refuses. -/
theorem relay_sound (tells : kernel.Tells ended refused) {source target : TcpPipe K}
    (sourceSound : source.Sound ended refused) (targetSound : target.Sound ended refused) :
    let relayed := relay (tcpPipe kernel fuel) source target
    relayed.rv.stops = false ∧ relayed.source.Sound ended refused ∧
        relayed.target.Sound ended refused ∨
      relayed.rv = .dead ∧ (ended relayed.source.socket ∨ refused relayed.target.socket) := by
  have asked : 0 ≤ rcvsize (tcpPipe kernel fuel) target := by
    rw [rcvsize]
    split <;> decide
  have same : ((tcpPipe kernel fuel).send target none).2 = target := rfl
  simp only [Handlers.relay, same]
  rcases TcpPipe.recv_sound tells fuel sourceSound asked with
    ⟨bytes, read, sourceNext⟩ | ⟨read, ends⟩
  · simp only [show ((tcpPipe kernel fuel).recv source _).1 = _ from read]
    split
    · rcases TcpPipe.send_sound tells targetSound (some bytes) with
        ⟨sent | sent, targetNext⟩ | ⟨sent, refuses⟩
      · simp only [show ((tcpPipe kernel fuel).send target _).1 = _ from sent]
        exact Or.inl ⟨rfl, sourceNext, targetNext⟩
      · simp only [show ((tcpPipe kernel fuel).send target _).1 = _ from sent]
        exact Or.inl ⟨rfl, sourceNext, targetNext⟩
      · simp only [show ((tcpPipe kernel fuel).send target _).1 = _ from sent]
        exact Or.inr ⟨trivial, Or.inr refuses⟩
    · exact Or.inl ⟨rfl, sourceNext, targetSound⟩
  · simp only [show ((tcpPipe kernel fuel).recv source _).1 = _ from read]
    exact Or.inr ⟨trivial, Or.inl ends⟩

/-- A flush of a sound pipe goes on, or the pipe refuses. -/
theorem flush_sound (tells : kernel.Tells ended refused) {pipe : TcpPipe K}
    (sound : pipe.Sound ended refused) :
    let flushed := flush (tcpPipe kernel fuel) pipe
    flushed.1.stops = false ∧ flushed.2.Sound ended refused ∨
      flushed.1 = .dead ∧ refused flushed.2.socket := by
  simp only [Handlers.flush]
  rcases TcpPipe.send_sound tells sound (some []) with ⟨sent | sent, next⟩ | ⟨sent, refuses⟩
  · simp only [show ((tcpPipe kernel fuel).send pipe _).1 = _ from sent]
    exact Or.inl ⟨rfl, next⟩
  · simp only [show ((tcpPipe kernel fuel).send pipe _).1 = _ from sent]
    exact Or.inl ⟨rfl, next⟩
  · simp only [show ((tcpPipe kernel fuel).send pipe _).1 = _ from sent]
    exact Or.inr ⟨trivial, refuses⟩

section

variable {mask1 mask2 : BitVec 64}

variable (ended refused) in
/-- Between the stages of `process`: two sound pipes. -/
def Processing.Sound (s : Processing (TcpPipe K)) : Prop :=
  s.pipe1.Sound ended refused ∧ s.pipe2.Sound ended refused

namespace Processing.Sound

variable {s : Processing (TcpPipe K)}

theorem checkClosed (sound : s.Sound ended refused) :
    (Processing.checkClosed mask1 mask2 s).Sound ended refused := sound

theorem read1 (tells : kernel.Tells ended refused) (sound : s.Sound ended refused)
    (running : s.rv.stops = false) :
    let next := Processing.read1 (tcpPipe kernel fuel) mask1 mask2 s
    next.rv.stops = false ∧ next.Sound ended refused ∨
      next.rv = .dead ∧ (ended next.pipe1.socket ∨ refused next.pipe2.socket) := by
  simp only [Processing.read1]
  split
  · exact relay_sound tells sound.1 sound.2
  · exact Or.inl ⟨running, sound⟩

theorem read2 (tells : kernel.Tells ended refused) (sound : s.Sound ended refused)
    (running : s.rv.stops = false) :
    let next := Processing.read2 (tcpPipe kernel fuel) mask1 mask2 s
    next.rv.stops = false ∧ next.Sound ended refused ∨
      next.rv = .dead ∧ (ended next.pipe2.socket ∨ refused next.pipe1.socket) := by
  simp only [Processing.read2]
  split
  · rcases relay_sound tells sound.2 sound.1 with ⟨goesOn, next2, next1⟩ | dead
    · exact Or.inl ⟨goesOn, next1, next2⟩
    · exact Or.inr dead
  · exact Or.inl ⟨running, sound⟩

theorem write1 (tells : kernel.Tells ended refused) (sound : s.Sound ended refused)
    (running : s.rv.stops = false) :
    let next := Processing.write1 (tcpPipe kernel fuel) mask1 s
    next.rv.stops = false ∧ next.Sound ended refused ∨
      next.rv = .dead ∧ refused next.pipe1.socket := by
  simp only [Processing.write1]
  split
  · rcases flush_sound tells sound.1 with ⟨goesOn, next⟩ | dead
    · exact Or.inl ⟨goesOn, next, sound.2⟩
    · exact Or.inr dead
  · exact Or.inl ⟨running, sound⟩

theorem write2 (tells : kernel.Tells ended refused) (sound : s.Sound ended refused)
    (running : s.rv.stops = false) :
    let next := Processing.write2 (tcpPipe kernel fuel) mask2 s
    next.rv.stops = false ∧ next.Sound ended refused ∨
      next.rv = .dead ∧ refused next.pipe2.socket := by
  simp only [Processing.write2]
  split
  · rcases flush_sound tells sound.2 with ⟨goesOn, next⟩ | dead
    · exact Or.inl ⟨goesOn, sound.1, next⟩
    · exact Or.inr dead
  · exact Or.inl ⟨running, sound⟩

/-- A stage that goes on leaves two sound pipes, and one that stops discards. -/
theorem stage (tells : kernel.Tells ended refused) (sound : s.Sound ended refused)
    (running : s.rv.stops = false) {stage : Processing (TcpPipe K) → Processing (TcpPipe K)}
    (member : stage ∈ Processing.stages (tcpPipe kernel fuel) mask1 mask2) :
    ((stage s).rv.stops = false → (stage s).Sound ended refused) ∧
      ((stage s).rv.stops = true → (stage s).rv = .dead) := by
  have either : ∀ {next : Processing (TcpPipe K)} {cause : Prop},
      next.rv.stops = false ∧ next.Sound ended refused ∨ next.rv = .dead ∧ cause →
      (next.rv.stops = false → next.Sound ended refused) ∧
        (next.rv.stops = true → next.rv = .dead) := by
    rintro next cause (⟨goesOn, sound⟩ | ⟨dead, -⟩)
    · exact ⟨fun _ => sound, fun stops => absurd stops (by simp [goesOn])⟩
    · exact ⟨fun goesOn => absurd goesOn (by simp [dead, ProcessResult.stops]), fun _ => dead⟩
  simp only [Processing.stages, List.mem_cons, List.not_mem_nil, or_false] at member
  rcases member with rfl | rfl | rfl | rfl | rfl
  · refine ⟨fun _ => sound.checkClosed, fun stops => ?_⟩
    simp only [Processing.checkClosed] at stops ⊢
    split at stops
    · rename_i closed
      exact if_pos closed
    · rw [running] at stops
      cases stops
  · exact either (sound.read1 tells running)
  · exact either (sound.read2 tells running)
  · exact either (sound.write1 tells running)
  · exact either (sound.write2 tells running)

/-- Behind a run of stages that does not stop both pipes are sound. -/
theorem run (tells : kernel.Tells ended refused) (sound : s.Sound ended refused)
    (running : s.rv.stops = false) {before : List (Processing (TcpPipe K) → Processing (TcpPipe K))}
    (members : ∀ stage ∈ before, stage ∈ Processing.stages (tcpPipe kernel fuel) mask1 mask2)
    (goesOn : (Processing.run before s).rv.stops = false) :
    (Processing.run before s).Sound ended refused := by
  have keeps : ∀ stage ∈ before, ∀ s : Processing (TcpPipe K),
      s.rv.stops = false ∧ s.Sound ended refused → (stage s).rv.stops = false →
      (stage s).rv.stops = false ∧ (stage s).Sound ended refused := by
    intro stage member s ⟨running, sound⟩ goesOn
    exact ⟨goesOn, (sound.stage tells running (members stage member)).1 goesOn⟩
  exact (Processing.run_invariant keeps ⟨running, sound⟩ goesOn).2

end Processing.Sound

/-! ### What waits on the way from one pipe to the other -/

variable (incoming) in
/-- Nothing waits on the way from one pipe to the other. -/
def Drained (source target : TcpPipe K) : Prop :=
  target.outbuf.content = [] ∧ source.stream incoming = []

variable (incoming) in
/-- What waits on the way from one pipe to the other is what waited before. -/
def Waits (source target nextSource nextTarget : TcpPipe K) : Prop :=
  nextTarget.outbuf = target.outbuf ∧ nextSource.stream incoming = source.stream incoming

theorem Waits.drained {source target nextSource nextTarget : TcpPipe K}
    (waits : Waits incoming source target nextSource nextTarget)
    (drained : Drained incoming source target) : Drained incoming nextSource nextTarget :=
  ⟨waits.1 ▸ drained.1, waits.2.trans drained.2⟩

/-- A relay that goes on has taken some bytes from the source. It leaves alone what waits on the
way back, and the target too where there have been none. -/
theorem relay_moves (stream : kernel.Stream incoming accepted) {source target : TcpPipe K}
    (sourceFormed : source.WellFormed) (targetFormed : target.WellFormed)
    (goesOn : (relay (tcpPipe kernel fuel) source target).rv.stops = false) :
    ∃ bytes, source.stream incoming =
        bytes ++ (relay (tcpPipe kernel fuel) source target).source.stream incoming ∧
      Waits incoming target source (relay (tcpPipe kernel fuel) source target).target
        (relay (tcpPipe kernel fuel) source target).source ∧
      (bytes = [] → (relay (tcpPipe kernel fuel) source target).target = target) := by
  have receives := TcpPipe.recv_receives stream fuel sourceFormed.rcvbuf
    (rcvsize (tcpPipe kernel fuel) target)
  revert goesOn
  simp only [Handlers.relay]
  cases read : ((tcpPipe kernel fuel).recv source (rcvsize (tcpPipe kernel fuel) target)).1 with
  | data bytes =>
      rw [show (source.recv kernel fuel _).1 = _ from read] at receives
      rcases receives with ⟨arrived, moved, -⟩
      have sends := TcpPipe.send_sends stream targetFormed.outbuf (some bytes)
      dsimp only
      split
      · rename_i some
        have any : bytes ≠ [] := List.ne_nil_of_length_pos some
        split
        · simp [ProcessResult.stops]
        · exact fun _ => ⟨bytes, moved.stream, ⟨moved.outbuf, sends.stream⟩, (absurd · any)⟩
        · exact fun _ => ⟨bytes, moved.stream, ⟨moved.outbuf, sends.stream⟩, (absurd · any)⟩
        · simp [ProcessResult.stops]
      · exact fun _ => ⟨bytes, moved.stream, ⟨moved.outbuf, rfl⟩, fun _ => rfl⟩
  | failed => simp [ProcessResult.stops]
  | threw exception => simp [ProcessResult.stops]
  | blocked => simp [ProcessResult.stops]

/-- A relay that goes on moves nothing on the way back. -/
theorem relay_waits (stream : kernel.Stream incoming accepted) {source target : TcpPipe K}
    (sourceFormed : source.WellFormed) (targetFormed : target.WellFormed)
    (goesOn : (relay (tcpPipe kernel fuel) source target).rv.stops = false) :
    Waits incoming target source (relay (tcpPipe kernel fuel) source target).target
      (relay (tcpPipe kernel fuel) source target).source := by
  rcases relay_moves stream sourceFormed targetFormed goesOn with ⟨bytes, -, waits, -⟩
  exact waits

/-- Where nothing waits, a relay that goes on moves nothing forth. -/
theorem Drained.relay (stream : kernel.Stream incoming accepted) {source target : TcpPipe K}
    (sourceFormed : source.WellFormed) (targetFormed : target.WellFormed)
    (drained : Drained incoming source target)
    (goesOn : (relay (tcpPipe kernel fuel) source target).rv.stops = false) :
    Drained incoming (Handlers.relay (tcpPipe kernel fuel) source target).source
      (Handlers.relay (tcpPipe kernel fuel) source target).target := by
  rcases relay_moves stream sourceFormed targetFormed goesOn with ⟨bytes, moved, -, same⟩
  rw [drained.2] at moved
  rcases List.append_eq_nil_iff.mp moved.symm with ⟨nothing, rest⟩
  rw [same nothing]
  exact ⟨drained.1, rest⟩

/-- Where nothing waits, there is nothing to flush. -/
theorem flush_drained {pipe : TcpPipe K} (formed : pipe.WellFormed)
    (nothing : pipe.outbuf.content = []) : (flush (tcpPipe kernel fuel) pipe).2 = pipe := by
  have empty := (ChunkBuffer.isEmpty_iff formed.outbuf).mpr nothing
  have sent : pipe.send kernel (some []) = (.ok, pipe) := by
    simp [TcpPipe.send, TcpPipe.sendDirect, empty]
  simp only [flush, show (tcpPipe kernel fuel).send pipe (some []) = _ from sent]

/-- A flush leaves alone what the pipe has still to receive. -/
theorem flush_stream (stream : kernel.Stream incoming accepted) {pipe : TcpPipe K}
    (formed : pipe.WellFormed) :
    (flush (tcpPipe kernel fuel) pipe).2.stream incoming = pipe.stream incoming := by
  have sends := TcpPipe.send_sends stream formed.outbuf (some [])
  simp only [flush]
  split <;> exact sends.stream

section

variable {s : Processing (TcpPipe K)}

/-- Nothing waits on the way from `pipe1` to `pipe2` behind a stage that goes on, where nothing
has waited before. -/
theorem Drained.stage1 (stream : kernel.Stream incoming accepted) (formed1 : s.pipe1.WellFormed)
    (formed2 : s.pipe2.WellFormed) (drained : Drained incoming s.pipe1 s.pipe2)
    {stage : Processing (TcpPipe K) → Processing (TcpPipe K)}
    (member : stage ∈ Processing.stages (tcpPipe kernel fuel) mask1 mask2)
    (goesOn : (stage s).rv.stops = false) :
    Drained incoming (stage s).pipe1 (stage s).pipe2 := by
  simp only [Processing.stages, List.mem_cons, List.not_mem_nil, or_false] at member
  rcases member with rfl | rfl | rfl | rfl | rfl
  · exact drained
  · simp only [Processing.read1] at goesOn ⊢
    split at goesOn
    · rename_i asked
      rw [if_pos asked]
      exact drained.relay stream formed1 formed2 goesOn
    · rename_i asked
      rw [if_neg asked]
      exact drained
  · simp only [Processing.read2] at goesOn ⊢
    split at goesOn
    · rename_i asked
      rw [if_pos asked]
      exact (relay_waits stream formed2 formed1 goesOn).drained drained
    · rename_i asked
      rw [if_neg asked]
      exact drained
  · simp only [Processing.write1]
    split
    · exact ⟨drained.1, (flush_stream stream formed1).trans drained.2⟩
    · exact drained
  · simp only [Processing.write2]
    split
    · rwa [flush_drained formed2 drained.1]
    · exact drained

/-- Nothing waits on the way from `pipe2` to `pipe1` behind a stage that goes on, where nothing
has waited before. -/
theorem Drained.stage2 (stream : kernel.Stream incoming accepted) (formed1 : s.pipe1.WellFormed)
    (formed2 : s.pipe2.WellFormed) (drained : Drained incoming s.pipe2 s.pipe1)
    {stage : Processing (TcpPipe K) → Processing (TcpPipe K)}
    (member : stage ∈ Processing.stages (tcpPipe kernel fuel) mask1 mask2)
    (goesOn : (stage s).rv.stops = false) :
    Drained incoming (stage s).pipe2 (stage s).pipe1 := by
  simp only [Processing.stages, List.mem_cons, List.not_mem_nil, or_false] at member
  rcases member with rfl | rfl | rfl | rfl | rfl
  · exact drained
  · simp only [Processing.read1] at goesOn ⊢
    split at goesOn
    · rename_i asked
      rw [if_pos asked]
      exact (relay_waits stream formed1 formed2 goesOn).drained drained
    · rename_i asked
      rw [if_neg asked]
      exact drained
  · simp only [Processing.read2] at goesOn ⊢
    split at goesOn
    · rename_i asked
      rw [if_pos asked]
      exact drained.relay stream formed2 formed1 goesOn
    · rename_i asked
      rw [if_neg asked]
      exact drained
  · simp only [Processing.write1]
    split
    · rwa [flush_drained formed1 drained.1]
    · exact drained
  · simp only [Processing.write2]
    split
    · exact ⟨drained.1, (flush_stream stream formed2).trans drained.2⟩
    · exact drained

end

/-- Behind a run of stages that does not stop the pipes conserve, and nothing waits where
nothing has waited before. -/
theorem Processing.Conserved.run (stream : kernel.Stream incoming accepted)
    {forth back : List UInt8} {s : Processing (TcpPipe K)}
    (conserved : s.Conserved incoming accepted forth back)
    {before : List (Processing (TcpPipe K) → Processing (TcpPipe K))}
    (members : ∀ stage ∈ before, stage ∈ Processing.stages (tcpPipe kernel fuel) mask1 mask2)
    (goesOn : (Processing.run before s).rv.stops = false) :
    (Processing.run before s).Conserved incoming accepted forth back ∧
      (Drained incoming s.pipe1 s.pipe2 →
        Drained incoming (Processing.run before s).pipe1 (Processing.run before s).pipe2) ∧
      (Drained incoming s.pipe2 s.pipe1 →
        Drained incoming (Processing.run before s).pipe2 (Processing.run before s).pipe1) := by
  have keeps : ∀ stage ∈ before, ∀ t : Processing (TcpPipe K),
      (t.Conserved incoming accepted forth back ∧
        (Drained incoming s.pipe1 s.pipe2 → Drained incoming t.pipe1 t.pipe2) ∧
        (Drained incoming s.pipe2 s.pipe1 → Drained incoming t.pipe2 t.pipe1)) →
      (stage t).rv.stops = false →
      (stage t).Conserved incoming accepted forth back ∧
        (Drained incoming s.pipe1 s.pipe2 → Drained incoming (stage t).pipe1 (stage t).pipe2) ∧
        (Drained incoming s.pipe2 s.pipe1 → Drained incoming (stage t).pipe2 (stage t).pipe1) := by
    rintro stage member t ⟨kept, drains1, drains2⟩ on
    have member := members stage member
    refine ⟨(kept.stage stream member).1 on, fun nothing => ?_, fun nothing => ?_⟩
    · exact (drains1 nothing).stage1 stream kept.sourceFormed kept.targetFormed member on
    · exact (drains2 nothing).stage2 stream kept.sourceFormed kept.targetFormed member on
  exact Processing.run_invariant keeps ⟨conserved, id, id⟩ goesOn

/-- The first stage stops just if the masks report a close. -/
theorem Processing.checkClosed_stops {s : Processing (TcpPipe K)} (running : s.rv.stops = false) :
    (Processing.checkClosed mask1 mask2 s).rv.stops =
      (s.masks.haveClosed (mask1 ||| mask2)).1 := by
  simp only [Processing.checkClosed]
  cases (s.masks.haveClosed (mask1 ||| mask2)).1 with
  | true => rfl
  | false => exact running

variable (incoming ended refused) in
/-- Why a call of `process` that begins in `s` discards: what has been waiting on each of the
ways is known in the state `t` in which the stage that discards begins. -/
inductive Cause (closed : Bool) (s t last : Processing (TcpPipe K)) : Prop where
  | closed (closed : closed = true) (way1 : Waits incoming s.pipe1 s.pipe2 t.pipe1 t.pipe2)
      (way2 : Waits incoming s.pipe2 s.pipe1 t.pipe2 t.pipe1)
  | ended1 (ended : ended last.pipe1.socket)
      (way1 : Waits incoming s.pipe1 s.pipe2 t.pipe1 t.pipe2)
  | ended2 (ended : ended last.pipe2.socket)
      (way2 : Waits incoming s.pipe2 s.pipe1 t.pipe2 t.pipe1)
  | refused1 (refused : refused last.pipe1.socket)
  | refused2 (refused : refused last.pipe2.socket)

/-- A call of `process` that stops has a cause, and up to the stage that discards it goes on. -/
theorem Processing.Sound.cause (stream : kernel.Stream incoming accepted)
    (tells : kernel.Tells ended refused) {forth back : List UInt8} {s : Processing (TcpPipe K)}
    (conserved : s.Conserved incoming accepted forth back) (sound : s.Sound ended refused)
    (running : s.rv.stops = false)
    (stops : (Processing.run (Processing.stages (tcpPipe kernel fuel) mask1 mask2) s).rv.stops
      = true) :
    ∃ before stage, (∀ other ∈ before ++ [stage],
        other ∈ Processing.stages (tcpPipe kernel fuel) mask1 mask2) ∧
      (Processing.run before s).rv.stops = false ∧
      Processing.run (Processing.stages (tcpPipe kernel fuel) mask1 mask2) s =
        stage (Processing.run before s) ∧
      Cause incoming ended refused (s.masks.haveClosed (mask1 ||| mask2)).1 s
        (Processing.run before s) (stage (Processing.run before s)) := by
  rcases Processing.run_of_stops running stops with ⟨before, stage, after, all, goesOn, last⟩
  have members : ∀ other ∈ before ++ [stage],
      other ∈ Processing.stages (tcpPipe kernel fuel) mask1 mask2 := by
    intro other member
    rw [all]
    rcases List.mem_append.mp member with there | there
    · exact List.mem_append_left _ there
    · exact List.mem_append_right _ (by simpa using Or.inl (List.mem_singleton.mp there))
  refine ⟨before, stage, members, goesOn, last, ?_⟩
  have reached : (Processing.run before s).Sound ended refused :=
    sound.run tells running (fun other member => members other (List.mem_append_left _ member))
      goesOn
  rw [last] at stops
  have still : Waits incoming s.pipe1 s.pipe2 s.pipe1 s.pipe2 := ⟨rfl, rfl⟩
  -- the stage that discards, by its place
  rw [Processing.stages] at all
  rcases before with _ | ⟨first, _ | ⟨second, _ | ⟨third, _ | ⟨fourth, _ | ⟨fifth, before⟩⟩⟩⟩⟩
  · cases all
    refine .closed ?_ still ⟨rfl, rfl⟩
    rwa [← Processing.checkClosed_stops running]
  · cases all
    rcases Processing.run_cons goesOn with ⟨-, checked⟩
    rcases reached.read1 tells goesOn with ⟨on, -⟩ | ⟨-, ends | refuses⟩
    · rw [on] at stops
      cases stops
    · rw [checked] at ends ⊢
      exact .ended1 ends still
    · exact .refused2 refuses
  · cases all
    rcases reached.read2 tells goesOn with ⟨on, -⟩ | ⟨-, ends | refuses⟩
    · rw [on] at stops
      cases stops
    · rcases Processing.run_cons goesOn with ⟨-, checked⟩
      rw [checked] at ends goesOn ⊢
      rcases Processing.run_cons goesOn with ⟨on, read⟩
      rw [read] at ends ⊢
      apply Cause.ended2 ends
      simp only [Processing.read1] at on ⊢
      split at on
      · rename_i asked
        rw [if_pos asked]
        exact relay_waits stream conserved.sourceFormed conserved.targetFormed on
      · rename_i asked
        rw [if_neg asked]
        exact ⟨rfl, rfl⟩
    · exact .refused1 refuses
  · cases all
    rcases reached.write1 tells goesOn with ⟨on, -⟩ | ⟨-, refuses⟩
    · rw [on] at stops
      cases stops
    · exact .refused1 refuses
  · cases all
    rcases reached.write2 tells goesOn with ⟨on, -⟩ | ⟨-, refuses⟩
    · rw [on] at stops
      cases stops
    · exact .refused2 refuses
  · cases before with
    | nil => cases all
    | cons sixth before => cases all

variable (incoming accepted ended refused) in
/-- What a call of `process` with the result `rv` makes of the way from one pipe to the other:
`content` is what the source had to receive at first, and `closed` whether the masks report a
close. -/
structure Delivers (content : List UInt8) (closed : Bool) (rv : ProcessResult)
    (source target nextSource nextTarget : TcpPipe K) : Prop where
  goesOn : rv ≠ .dead → nextTarget.taken accepted ++ nextSource.stream incoming = content
  discards : rv = .dead ↔
    closed = true ∨ ended nextSource.socket ∨ refused nextSource.socket
  delivered : rv = .dead → Drained incoming source target → accepted nextTarget.socket = content
  exact : rv = .dead → ¬ refused nextSource.socket →
    (accepted nextTarget.socket = content ↔ Drained incoming source target)

variable (incoming accepted ended refused) in
/-- Both ways, each as long as its target has neither ended nor refused. -/
def DeliversBoth (forth back : List UInt8) (closed : Bool) (rv : ProcessResult)
    (pipe1 pipe2 next1 next2 : TcpPipe K) : Prop :=
  (¬ ended next2.socket → ¬ refused next2.socket →
    Delivers incoming accepted ended refused forth closed rv pipe1 pipe2 next1 next2) ∧
  (¬ ended next1.socket → ¬ refused next1.socket →
    Delivers incoming accepted ended refused back closed rv pipe2 pipe1 next2 next1)

section

variable {content : List UInt8} {closed : Bool} {rv : ProcessResult}
  {source target nextSource nextTarget : TcpPipe K}

theorem Delivers.of_goesOn (on : rv.stops = false)
    (conserved : nextTarget.taken accepted ++ nextSource.stream incoming = content)
    (opened : closed = false) (sound : nextSource.Sound ended refused) :
    Delivers incoming accepted ended refused content closed rv source target nextSource
      nextTarget := by
  have alive : rv ≠ .dead := by
    intro dead
    rw [dead] at on
    cases on
  refine ⟨fun _ => conserved, ⟨fun dead => absurd dead alive, ?_⟩, fun dead => absurd dead alive,
    fun dead => absurd dead alive⟩
  rintro (closed | ends | refuses)
  · rw [opened] at closed
    cases closed
  · exact absurd ends sound.ended
  · exact absurd refuses sound.refused

/-- The state in which the stage that discards begins says what has been delivered. -/
theorem Delivers.of_dead {back : List UInt8} {lastSource lastTarget : TcpPipe K}
    (dead : rv = .dead)
    (conserved : Conserved incoming accepted content back lastSource lastTarget)
    (same : accepted nextTarget.socket = accepted lastTarget.socket)
    (drains : Drained incoming source target → Drained incoming lastSource lastTarget)
    (cause : (closed = true ∨ ended nextSource.socket) ∧
      Waits incoming source target lastSource lastTarget ∨ refused nextSource.socket) :
    Delivers incoming accepted ended refused content closed rv source target nextSource
      nextTarget where
  goesOn alive := absurd dead alive
  discards := by
    refine ⟨fun _ => ?_, fun _ => dead⟩
    rcases cause with ⟨closed | ends, -⟩ | refuses
    · exact Or.inl closed
    · exact Or.inr (Or.inl ends)
    · exact Or.inr (Or.inr refuses)
  delivered _ drained := same.trans (conserved.accepted_iff.mpr (drains drained))
  exact _ fine := by
    rcases cause with ⟨-, outbuf, rest⟩ | refuses
    · rw [same, conserved.accepted_iff, outbuf, rest]
      exact Iff.rfl
    · exact absurd refuses fine

end

/-- One call of `process`. -/
theorem Processing.Sound.delivers (stream : kernel.Stream incoming accepted)
    (tells : kernel.Tells ended refused) {forth back : List UInt8} {s : Processing (TcpPipe K)}
    (conserved : s.Conserved incoming accepted forth back) (sound : s.Sound ended refused)
    (running : s.rv.stops = false) :
    let last := Processing.run (Processing.stages (tcpPipe kernel fuel) mask1 mask2) s
    DeliversBoth incoming accepted ended refused forth back
      (s.masks.haveClosed (mask1 ||| mask2)).1 last.rv s.pipe1 s.pipe2 last.pipe1 last.pipe2 := by
  intro last
  cases stops : last.rv.stops with
  | false =>
      have kept := (conserved.run stream (fun _ member => member) stops).1
      have still := sound.run tells running (fun _ member => member) stops
      have opened : (s.masks.haveClosed (mask1 ||| mask2)).1 = false := by
        rw [← Processing.checkClosed_stops running]
        exact (Processing.run_cons stops).1
      exact ⟨fun _ _ => .of_goesOn stops kept.forth opened still.1,
        fun _ _ => .of_goesOn stops kept.back opened still.2⟩
  | true =>
      rcases sound.cause stream tells conserved running stops with
        ⟨before, stage, members, goesOn, ends, cause⟩
      have beforeMembers := fun other member => members other (List.mem_append_left _ member)
      have stageMember := members stage (by simp)
      rcases conserved.run stream beforeMembers goesOn with ⟨kept, drains1, drains2⟩
      have reached := sound.run tells running beforeMembers goesOn
      have dead : last.rv = .dead := by
        rw [show last = stage (Processing.run before s) from ends] at stops ⊢
        exact (reached.stage tells goesOn stageMember).2 stops
      rcases (kept.stage stream stageMember).2 (by rw [← ends]; exact dead) with ⟨same1, same2⟩
      rw [← ends] at same1 same2 cause
      constructor
      · intro fine2 takes2
        apply Delivers.of_dead dead kept same2 drains1
        cases cause with
        | closed closed way1 way2 => exact Or.inl ⟨Or.inl closed, way1⟩
        | ended1 ended way1 => exact Or.inl ⟨Or.inr ended, way1⟩
        | ended2 ended way2 => exact absurd ended fine2
        | refused1 refused => exact Or.inr refused
        | refused2 refused => exact absurd refused takes2
      · intro fine1 takes1
        apply Delivers.of_dead dead kept.symm same1 drains2
        cases cause with
        | closed closed way1 way2 => exact Or.inl ⟨Or.inl closed, way2⟩
        | ended1 ended way1 => exact absurd ended fine1
        | ended2 ended way2 => exact Or.inl ⟨Or.inr ended, way2⟩
        | refused1 refused => exact absurd refused takes1
        | refused2 refused => exact Or.inr refused

end

section

variable {forth back : List UInt8}

variable (incoming accepted ended refused forth back) in
/-- A slot with two sound pipes that conserve. -/
def Bridged.Intact (self : Bridged (TcpPipe K)) : Prop :=
  ∃ pipe1 pipe2, self.pipe1 = some pipe1 ∧ self.pipe2 = some pipe2 ∧
    Conserved incoming accepted forth back pipe1 pipe2 ∧
    pipe1.Sound ended refused ∧ pipe2.Sound ended refused

theorem Bridged.Intact.process (stream : kernel.Stream incoming accepted)
    (tells : kernel.Tells ended refused) {self : Bridged (TcpPipe K)}
    (intact : self.Intact incoming accepted ended refused forth back) {masks : Mask}
    (goesOn : (self.process (tcpPipe kernel fuel) masks).1.stops = false) :
    (self.process (tcpPipe kernel fuel) masks).2.1.Intact incoming accepted ended refused forth
      back := by
  rcases intact with ⟨pipe1, pipe2, there1, there2, conserved, sound⟩
  simp only [Bridged.process, there1, there2] at goesOn ⊢
  have kept := Processing.Conserved.run stream (s := { pipe1, pipe2, masks }) conserved
    (fun _ member => member) goesOn
  have still := Processing.Sound.run tells (s := { pipe1, pipe2, masks }) sound rfl
    (fun _ member => member) goesOn
  exact ⟨_, _, rfl, rfl, kept.1, still⟩

/-- What becomes of a slot as long as no call of `process` stops. -/
theorem Bridged.Intact.run (stream : kernel.Stream incoming accepted)
    (tells : kernel.Tells ended refused) {allowed : Bridged (TcpPipe K) → Mask → Prop}
    {start self : Bridged (TcpPipe K)}
    (run : Bridged.Run (tcpPipe kernel fuel) allowed start self)
    (intact : start.Intact incoming accepted ended refused forth back) :
    self.Intact incoming accepted ended refused forth back := by
  induction run with
  | start => exact intact
  | prepareWait waiter run ih =>
      rcases ih with ⟨pipe1, pipe2, there1, there2, rest⟩
      refine ⟨pipe1, pipe2, ?_, ?_, rest⟩
      all_goals
        simp only [Bridged.prepareWait, there1, there2, Bridged.register, tcpPipe]
        split
        · rfl
        · split <;> rfl
  | mark1 w run ih =>
      rcases ih with ⟨pipe1, pipe2, there1, there2, conserved, sound1, sound2⟩
      exact ⟨_, pipe2, by rw [there1]; rfl, there2, conserved.mark w,
        ⟨sound1.connected, sound1.ended, sound1.refused⟩, sound2⟩
  | mark2 w run ih =>
      rcases ih with ⟨pipe1, pipe2, there1, there2, conserved, sound1, sound2⟩
      exact ⟨pipe1, _, there1, by rw [there2]; rfl, (conserved.symm.mark w).symm, sound1,
        ⟨sound2.connected, sound2.ended, sound2.refused⟩⟩
  | process run fine goesOn ih => exact ih.process stream tells goesOn

/-- Delivery at the end of the stream, on each of the ways whose target neither ends nor
refuses a send. As long as the slot is not discarded, what the source had to receive is what
the target has taken since and what is still to be received. The slot is discarded where the
masks report a close, or the source's socket says in the call that it is over or refuses a
send. If before that call nothing was waiting in the target's `outbuf`, in the source's `rcvbuf`
or at its socket, all has been delivered, and only then, unless the source's socket has refused
a send: then what was waiting may have gone over in an earlier stage of the same call. -/
theorem delivered_iff (stream : kernel.Stream incoming accepted)
    (tells : kernel.Tells ended refused) {first second : TcpPipe K}
    (firstFormed : first.WellFormed) (secondFormed : second.WellFormed)
    (firstSound : first.Sound ended refused) (secondSound : second.Sound ended refused)
    {self : Bridged (TcpPipe K)}
    (run : Bridged.Run (tcpPipe kernel fuel) (fun _ _ => True)
      { pipe1 := some first, pipe2 := some second } self) (masks : Mask) :
    ∃ pipe1 pipe2 next1 next2, self.pipe1 = some pipe1 ∧ self.pipe2 = some pipe2 ∧
      (self.process (tcpPipe kernel fuel) masks).2.1.pipe1 = some next1 ∧
      (self.process (tcpPipe kernel fuel) masks).2.1.pipe2 = some next2 ∧
      DeliversBoth incoming accepted ended refused
        (second.taken accepted ++ first.stream incoming)
        (first.taken accepted ++ second.stream incoming)
        (masks.haveClosed (self.mask1 ||| self.mask2)).1
        (self.process (tcpPipe kernel fuel) masks).1 pipe1 pipe2 next1 next2 := by
  have start : Bridged.Intact incoming accepted ended refused
      (second.taken accepted ++ first.stream incoming)
      (first.taken accepted ++ second.stream incoming)
      { pipe1 := some first, pipe2 := some second } :=
    ⟨first, second, rfl, rfl, ⟨firstFormed, secondFormed, rfl, rfl⟩, firstSound, secondSound⟩
  rcases start.run stream tells run with ⟨pipe1, pipe2, there1, there2, conserved, sound⟩
  simp only [Bridged.process, there1, there2]
  exact ⟨pipe1, pipe2, _, _, rfl, rfl, rfl, rfl,
    Processing.Sound.delivers stream tells (s := { pipe1, pipe2, masks }) conserved sound rfl⟩

/-- A bridge whose first pipe has a byte and the end of its stream to receive and whose second
pipe is not taking anything for now. -/
def endingBridge : Bridged (TcpPipe (Watched MemorySocket)) where
  pipe1 := some { socket := { socket := { incoming := [[1]], ended := true } } }
  pipe2 := some { socket := { socket := { room := 0 } } }

/-- The same bridge registered, read once, and found readable once more. -/
def endedBridge : Bridged (TcpPipe (Watched MemorySocket)) :=
  let read := ((endingBridge.prepareWait (tcpPipe memorySocket.watched 0) {}).2.1.process
    (tcpPipe memorySocket.watched 0) { readm := bit 0 }).2.1
  { read with pipe1 := read.pipe1.map fun pipe =>
      (tcpPipe memorySocket.watched 0).setWaitable pipe { ready := readySystem } }

theorem run_endedBridge : Bridged.Run (tcpPipe memorySocket.watched 0) (fun _ _ => True)
    endingBridge endedBridge :=
  .mark1 _ (.process (.prepareWait {} .start) trivial (by decide))

theorem delivered_iff_memory :
    ∃ pipe1 pipe2 next1 next2, endedBridge.pipe1 = some pipe1 ∧ endedBridge.pipe2 = some pipe2 ∧
      (endedBridge.process (tcpPipe memorySocket.watched 0) { readm := bit 0 }).2.1.pipe1 =
        some next1 ∧
      (endedBridge.process (tcpPipe memorySocket.watched 0) { readm := bit 0 }).2.1.pipe2 =
        some next2 ∧
      DeliversBoth (fun k => k.socket.incoming.flatten) (fun k => k.socket.outgoing)
        (fun k => k.ended = true) (fun k => k.refused = true) [1] [] false
        (endedBridge.process (tcpPipe memorySocket.watched 0) { readm := bit 0 }).1
        pipe1 pipe2 next1 next2 :=
  delivered_iff stream_memorySocket.watched (tells_watched memorySocket)
    (TcpPipe.wellFormed_new _) (TcpPipe.wellFormed_new _) ⟨rfl, by simp, by simp⟩
    ⟨rfl, by simp, by simp⟩ run_endedBridge { readm := bit 0 }

/-- The end of the stream is read while the byte before it is waiting to be sent, at a socket
that has neither ended nor refused a send. -/
theorem loss_at_end :
    Bridged.Run (tcpPipe memorySocket.watched 0) (fun _ _ => True) endingBridge endedBridge ∧
      (endedBridge.process (tcpPipe memorySocket.watched 0) { readm := bit 0 }).1 = .dead ∧
      ((endedBridge.process (tcpPipe memorySocket.watched 0) { readm := bit 0 }).2.1.pipe2.map
        fun pipe => (pipe.socket.socket.outgoing, pipe.outbuf.content, pipe.socket.ended,
          pipe.socket.refused)) = some ([], [1], false, false) ∧
      (endingBridge.pipe1.map fun pipe => pipe.stream fun k => k.socket.incoming.flatten) =
        some [1] :=
  ⟨run_endedBridge, by decide, by decide, by decide⟩

end

end Imconee.Handlers
