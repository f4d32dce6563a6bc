import Tun2Http.Tcp.Counting

/-! Client data is acknowledged when `send()` took it. A failed `send()` breaks
this: the clamp turns `-1` into the length, and the data is dropped. -/
namespace Tun2Http

open Machine

/-- A turn of the forward loop counts what `send()` took, leaves everything
alone where it is to be retried, and otherwise closes the session. -/
def TurnSound (K : Kernel) (t : Cell) : Prop :=
  ∀ seg rest, t.tcp.forward = seg :: rest →
    let d := (forwardTurn K seg rest t).1
    match K.send t.calls with
    | .accepted count => ∃ (taken : Nat) (hTaken : taken ≤ seg.unsent), taken ≤ count ∧
        d.tcp.remoteSeq = t.tcp.remoteSeq + BitVec.ofNat 32 taken ∧
        d.tcp.forward = if taken = seg.unsent then rest else seg.advance taken hTaken :: rest
    | .error errno => d.tcp.remoteSeq = t.tcp.remoteSeq ∧
        if errno = eintr ∨ errno = eagain then d.tcp.forward = t.tcp.forward
        else d.tcp.state = .closing

/-- The head of the queue in a turn is the next expected data. -/
theorem forwardTurns_head {K : Kernel} {queue : List Segment} {bufferSize : U32} {c t : Cell}
    (hQueue : c.tcp.forward = queue) (ht : t ∈ forwardTurns K queue bufferSize c) :
    t.tcp.dest = c.tcp.dest ∧ ∃ seg rest, t.tcp.forward = seg :: rest ∧
      seg.seq + BitVec.ofNat 32 seg.sent = t.tcp.remoteSeq := by
  induction queue generalizing bufferSize c with
  | nil => simp [forwardTurns] at ht
  | cons seg rest ih =>
      rw [forwardTurns] at ht
      split_ifs at ht with hForward
      · rcases List.mem_cons.mp ht with rfl | ht
        · exact ⟨rfl, seg, rest, hQueue, hForward.1⟩
        · rw [forwardTurn_eq] at ht
          by_cases hAll : counted K seg c = seg.unsent
          · simp only [hAll, if_true] at ht
            exact ih (c := (sentOn K seg c).setForward rest) rfl ht
          · simp only [hAll, if_false, List.not_mem_nil] at ht
      · simp at ht

theorem turns_head {c t : Cell} {input : Kernel × Input} (ht : t ∈ turns c input) :
    t.tcp.dest = c.tcp.dest ∧ ∃ seg rest, t.tcp.forward = seg :: rest ∧
      seg.seq + BitVec.ofNat 32 seg.sent = t.tcp.remoteSeq := by
  unfold turns at ht
  split at ht
  · split_ifs at ht
    · obtain ⟨hDest, hHead⟩ := forwardTurns_head rfl ht
      exact ⟨hDest.trans (silent_getReceiveBuffer _ c).dest, hHead⟩
    · simp at ht
  · simp at ht

variable {K : Kernel} {i : Input} {s c d : Cell}

/-- A turn in which `send()` takes anything, or nothing, is sound. -/
theorem turnSound_of_accepted {input : Kernel × Input} (ht : d ∈ turns c input)
    {count : Nat} (hAnswer : input.1.send d.calls = .accepted count) :
    TurnSound input.1 d := by
  obtain ⟨-, seg, rest, hQueue, hNext⟩ := turns_head ht
  intro head tail hHead
  rw [hQueue] at hHead
  cases hHead
  have hCounted : counted input.1 seg d = min count seg.unsent :=
    counted_of_accepted hAnswer
  rw [hAnswer, forwardTurn_eq]
  refine ⟨counted input.1 seg d, counted_le input.1 seg d, ?_, ?_, ?_⟩
  · rw [hCounted]
    exact Nat.min_le_left _ _
  · have hSent : (sentOn input.1 seg d).tcp.remoteSeq =
        d.tcp.remoteSeq + BitVec.ofNat 32 (counted input.1 seg d) := by
      simp only [sentOn, Cell.call_tcp]
      rw [← hNext]
      bv_omega
    split_ifs <;> exact hSent
  · split_ifs <;> rfl

/-- A failed `send()` drops the rest of the head: no retry finds it again. -/
theorem not_turnSound_of_error {input : Kernel × Input} (ht : d ∈ turns c input) {errno : Nat}
    (hAnswer : input.1.send d.calls = .error errno) (hRetry : errno = eintr ∨ errno = eagain) :
    ¬ TurnSound input.1 d := by
  obtain ⟨-, seg, rest, hQueue, -⟩ := turns_head ht
  intro hSound
  have hSame := hSound seg rest hQueue
  rw [hAnswer, forwardTurn_eq, if_pos (counted_of_error hAnswer)] at hSame
  have hForward := hSame.2
  rw [if_pos hRetry, hQueue] at hForward
  simpa using congrArg List.length hForward

/-- No `send()` of the forward loop fails in the step. -/
def SendsTaken (c : Cell) (input : Kernel × Input) : Prop :=
  ∀ t ∈ turns c input, ∀ errno, input.1.send t.calls ≠ .error errno

/-- A move changes neither the port of a session nor where its stream starts. -/
theorem move_fixed (hMove : Move K i s c d) :
    d.tcp.dest = c.tcp.dest ∧ d.tcp.remoteStart = c.tcp.remoteStart := by
  obtain ⟨hEnds, hStart, -⟩ := move_kept hMove
  exact ⟨congrArg (fun ends => ends.2.2.2.2) hEnds, hStart⟩

theorem step_dest (c : Cell) (input : Kernel × Input) : (step c input).tcp.dest = c.tcp.dest :=
  moves_invariant (I := fun d => d.tcp.dest = c.tcp.dest) (step_moves c input.1 input.2) rfl
    fun _ _ hSame hMove => (move_fixed hMove).1.trans hSame

theorem Counting.of_newSession {info : SynInfo} {hdr : TcpHdr} {data : Payload}
    (hNew : newSession K info hdr data = some c) : Counting c := by
  obtain ⟨-, hLog, window, hTcp⟩ := newSession_eq hNew
  constructor
  · simp [hTcp, synSession, hLog, accepted, Tun2Http.syns, Tun2Http.fins]
  · simp [hLog, Tun2Http.syns]
  · simp [hLog, Tun2Http.syns]
  · simp [hLog, Tun2Http.fins]
  · simp [hLog, Tun2Http.fins]
  · simp [hLog, AcksSound, AckSound]

/-- What holds between the steps of a run whose stream starts at `base`. -/
structure Forwarding (base : U32) (c : Cell) : Prop where
  life : Lifecycle c
  port : c.tcp.dest ≠ 80
  start : c.tcp.remoteStart = base
  counting : Counting c

theorem Forwarding.step {base : U32} (h : Forwarding base c) (input : Kernel × Input)
    (hOk : SendsTaken c input ∧ ¬ CountsAgain c input) :
    Forwarding base (Tun2Http.step c input) := by
  apply moves_invariant (step_moves c input.1 input.2) h
  intro a b hInv hMove
  obtain ⟨hDest, hStart⟩ := move_fixed hMove
  exact ⟨hInv.life.move hMove, hDest ▸ hInv.port, hStart.trans hInv.start,
    hInv.counting.move hInv.life hInv.port hOk.1 hOk.2 hMove⟩

theorem Forwarding.of_newSession {info : SynInfo} {hdr : TcpHdr} {data : Payload}
    (hNew : newSession K info hdr data = some c) (hPort : hdr.dest ≠ 80) :
    Forwarding hdr.seq c := by
  obtain ⟨-, -, window, hTcp⟩ := newSession_eq hNew
  exact ⟨lifecycle_newSession hNew, by rw [hTcp]; exact hPort, by rw [hTcp]; rfl, .of_newSession hNew⟩

/-- In every run without a failed `send()`, and without a second count of the
SYN, every turn is sound and no acknowledgement goes past what was taken. -/
theorem forwarding_sound {info : SynInfo} {hdr : TcpHdr} {data : Payload} {start : Cell}
    (hNew : newSession K info hdr data = some start) (hPort : hdr.dest ≠ 80)
    (inputs : List (Kernel × Input))
    (hRun : Along step (fun c input => SendsTaken c input ∧ ¬ CountsAgain c input) start inputs) :
    Along step (fun c input => ∀ t ∈ turns c input, TurnSound input.1 t) start inputs ∧
      AcksSound hdr.seq (run step start inputs).log := by
  have hStart := Forwarding.of_newSession hNew hPort
  constructor
  · apply along_of_invariant hStart hRun (fun c input hc hOk => hc.step input hOk)
    intro c input hc hOk t ht
    cases hAnswer : input.1.send t.calls with
    | error errno => exact absurd hAnswer (hOk.1 t ht errno)
    | accepted count => exact turnSound_of_accepted ht hAnswer
  · have hEnd := run_invariant hStart hRun fun c input hc hOk => hc.step input hOk
    rw [← hEnd.start]
    exact hEnd.counting.acks

/-- A willing kernel takes the two bytes. -/
theorem forwarding_sound_upload :
    Along step (fun c input => ∀ t ∈ turns c input, TurnSound input.1 t) (clientCell 22 .empty)
        (uploadRun ++ [(.willing, .event { epollout := true })]) ∧
      AcksSound 5000 (run step (clientCell 22 .empty)
        (uploadRun ++ [(.willing, .event { epollout := true })])).log := by
  apply forwarding_sound (newSession_client 22 .empty) (by decide) _
  refine ⟨⟨?_, fun h => h.1 (by decide)⟩, ⟨?_, fun h => absurd h.2.1 (by decide)⟩,
    ⟨?_, fun h => absurd h.2.1 (by decide)⟩, ⟨?_, fun h => absurd h.2.1 (by decide)⟩, trivial⟩ <;>
  exact fun _ _ _ h => by cases h

/-- `EAGAIN` for the two bytes: they leave the queue and are acknowledged. -/
theorem failed_send_acknowledged : ∃ inputs input,
    let c := run step (clientCell 22 .empty) inputs
    ¬ (∀ t ∈ turns c input, TurnSound input.1 t) ∧ ¬ AcksSound 5000 (step c input).log := by
  refine ⟨uploadRun, ({ Kernel.willing with send := fun _ => .error eagain },
    .event { epollout := true }), fun hSound => ?_, fun hAcks => ?_⟩
  · have hTurn := List.head_mem (show turns (run step (clientCell 22 .empty) uploadRun)
      ({ Kernel.willing with send := fun _ => .error eagain }, .event { epollout := true }) ≠ [] by
        decide)
    exact not_turnSound_of_error hTurn rfl (Or.inr rfl) (hSound _ hTurn)
  · exact absurd (hAcks.2.1 rfl) (by decide)

end Tun2Http
