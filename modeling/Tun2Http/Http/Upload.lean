import Tun2Http.Http.PartialSend
import Tun2Http.Tcp.Reassembly

/-! Rewriting through the rewriting. A session reads the stream of its client in pieces, one for
each `send()`, and what it passes on is the text of the piece: the piece itself, or for port 80
what `patch_http_url` makes of it. -/
namespace Tun2Http

open Machine Machine.Stream

/-- The calls of `send()`, oldest first, with how many bytes the socket took. -/
def sendCalls : List Io → List (List UInt8 × Nat)
  | [] => []
  | .send data answer :: before => sendCalls before ++ [(data, answer.count)]
  | _ :: before => sendCalls before

/-- One `send()` for a segment: what was left of it, what lies behind that in memory, and how
many bytes the socket took. -/
structure Upload where
  rest : List UInt8
  short : rest.length < 2 ^ 16
  behind : Memory
  taken : Nat

namespace Upload

/-- What a session to `port` passes to `send()`. -/
def text (port : U16) (upload : Upload) : List UInt8 :=
  if port = 80 then
    ((patchHttpUrl upload.rest.length).value (inFrontOf upload.rest upload.behind)).getD upload.rest
  else upload.rest

/-- The call of `send()`. -/
def call (port : U16) (upload : Upload) : List UInt8 × Nat := (upload.text port, upload.taken)

/-- What counts as sent: as many bytes of the segment as the socket took of the text. -/
def counted (upload : Upload) : List UInt8 := upload.rest.take upload.taken

theorem length_le_text (port : U16) (upload : Upload) : upload.rest.length ≤ (upload.text port).length := by
  unfold text
  split_ifs
  · cases hPatch : (patchHttpUrl upload.rest.length).value (inFrontOf upload.rest upload.behind) with
    | none => exact le_rfl
    | some request => exact (length_patchHttpUrl (upload.short.trans (by decide)) hPatch).1
  · exact le_rfl

/-- Where the text is taken whole, so is the piece. -/
theorem counted_of_whole {port : U16} {upload : Upload}
    (hWhole : (upload.text port).length ≤ upload.taken) : upload.counted = upload.rest :=
  List.take_of_length_le ((upload.length_le_text port).trans hWhole)

end Upload

/-- What a session has read of the stream of its client, and what it holds of it. -/
structure Rewriting (stream : List UInt8) (c : Cell) (uploads : List Upload) : Prop where
  calls : sendCalls c.log = uploads.map (Upload.call c.tcp.dest)
  read : uploads.flatMap Upload.counted <+: stream
  seq : c.tcp.remoteSeq = c.tcp.remoteStart +
    BitVec.ofNat 32 (syns c.log + (uploads.flatMap Upload.counted).length + fins c.log)
  pieces : ∀ seg ∈ c.tcp.forward, seg.data ≠ [] → Piece stream c.tcp.remoteStart seg.seq seg.data
  sent : ∀ seg ∈ c.tcp.forward, seg.sent ≤ (uploads.flatMap Upload.counted).length

variable {K : Kernel} {i : Input} {s c d : Cell} {stream : List UInt8} {uploads : List Upload}

/-- What the socket has taken, call by call. -/
theorem accepted_eq_sendCalls (log : List Io) :
    accepted log = (sendCalls log).flatMap fun call => call.1.take call.2 := by
  induction log with
  | nil => rfl
  | cons entry before ih => cases entry <;> simp [accepted, sendCalls, ih]

theorem sendCalls_quiet (h : Quiet c d) : sendCalls d.log = sendCalls c.log :=
  h.log_eq sendCalls fun entry log hEntry => by cases entry <;> simp_all [Io.quiet, sendCalls]

theorem sendCalls_writeRst (c : Cell) : sendCalls (writeRst K c).log = sendCalls c.log := by
  by_cases hState : c.tcp.state = .listen
  · simp [writeRst_of_listen K c hState, sendCalls]
  · rw [writeRst_of_ne_listen K c hState]
    split_ifs <;> simp [sendCalls]

/-- What lies behind the rest of a segment. -/
def behindRest (K : Kernel) (c : Cell) (seg : Segment) : Memory := fun offset =>
  forwardMemory K c seg (seg.unsent + offset)

theorem inFrontOf_behindRest (K : Kernel) (c : Cell) (seg : Segment) :
    inFrontOf seg.rest (behindRest K c seg) = forwardMemory K c seg := by
  funext offset
  by_cases hInside : offset < seg.rest.length
  · have hUnsent : offset < seg.unsent := seg.length_rest ▸ hInside
    have hData : seg.sent + offset < seg.data.length := by
      have hLen := seg.len_le
      unfold Segment.unsent at hUnsent
      omega
    rw [inFrontOf, dif_pos hInside, forwardMemory, dif_pos hData]
    simp [Segment.rest]
  · have hOffset : seg.unsent + (offset - seg.rest.length) = offset := by
      rw [seg.length_rest] at hInside ⊢
      omega
    rw [inFrontOf, dif_neg hInside, behindRest, hOffset]

/-- The upload of a turn of the forward loop. -/
def turnUpload (K : Kernel) (seg : Segment) (c : Cell) : Upload where
  rest := seg.rest
  short := seg.length_rest ▸ seg.unsent_lt
  behind := behindRest K c seg
  taken := (sendAnswer K seg c).count

theorem text_turnUpload (K : Kernel) (seg : Segment) (c : Cell) :
    (turnUpload K seg c).text c.tcp.dest = forwardRequest K c seg := by
  unfold Upload.text forwardRequest turnUpload
  rw [inFrontOf_behindRest, seg.length_rest]

theorem counted_turnUpload {seg : Segment} {count : Nat} (hAnswer : K.send c.calls = .accepted count) :
    (turnUpload K seg c).counted = seg.rest.take (counted K seg c) := by
  have hShort := (length_forwardRequest K c seg).1
  have hTaken : (turnUpload K seg c).taken = min count (forwardRequest K c seg).length := by
    simp [turnUpload, sendAnswer, hAnswer, SendResult.clamp, SendResult.count]
  rw [Upload.counted, hTaken, counted_of_accepted hAnswer]
  apply List.take_eq_take_iff.mpr
  show min _ seg.rest.length = min _ seg.rest.length
  rw [seg.length_rest]
  omega

/-- The numbers of `c`, as if the socket had taken `got` as it is, with `seg` alone queued. -/
def plainly (got : List UInt8) (seg : Segment) (c : Cell) : Cell :=
  { c with
    tcp := { c.tcp with state := .established, forward := [seg] }
    log := .send got (.accepted got.length) :: List.replicate (syns c.log) .countSyn }

theorem accepted_plainly (got : List UInt8) (seg : Segment) (c : Cell) :
    accepted (plainly got seg c).log = got := by
  have hNone : ∀ n, accepted (List.replicate n .countSyn) = [] := by
    intro n
    induction n with
    | zero => rfl
    | succ n ih => exact ih
  simp [plainly, accepted, hNone, SendResult.count]

theorem counting_plainly {got : List UInt8} (seg : Segment) (hSyns : syns c.log ≤ 1)
    (hSeq : c.tcp.remoteSeq = c.tcp.remoteStart + BitVec.ofNat 32 (syns c.log + got.length)) :
    Counting (plainly got seg c) := by
  have hCounts : syns (plainly got seg c).log = syns c.log ∧ fins (plainly got seg c).log = 0 := by
    simp [plainly, syns, fins, List.count_replicate]
  have hAcks : ∀ n, AcksSound c.tcp.remoteStart (List.replicate n .countSyn) := by
    intro n
    induction n with
    | zero => trivial
    | succ n ih => exact ⟨trivial, ih⟩
  have hOpen : (plainly got seg c).tcp.state ≠ .listen := TcpState.noConfusion
  refine ⟨?_, by rwa [hCounts.1], fun h => absurd h hOpen, by simp [hCounts.2], Or.inl hCounts.2,
    ⟨trivial, hAcks _⟩⟩
  rw [hCounts.1, hCounts.2, accepted_plainly]
  exact hSeq

namespace Rewriting

/-- A step that sends nothing, and counts as often as `remote_seq` moves. -/
theorem same (h : Rewriting stream c uploads) (hMove : Move K i s c d) (moved : Nat)
    (hForward : d.tcp.forward = c.tcp.forward) (hCalls : sendCalls d.log = sendCalls c.log)
    (hSeq : d.tcp.remoteSeq = c.tcp.remoteSeq + BitVec.ofNat 32 moved)
    (hCounts : syns d.log + fins d.log = syns c.log + fins c.log + moved) :
    Rewriting stream d uploads := by
  obtain ⟨hDest, hStart⟩ := move_fixed hMove
  refine ⟨?_, h.read, ?_, ?_, ?_⟩
  · rw [hCalls, hDest]
    exact h.calls
  · have hBefore := h.seq
    rw [hStart, hSeq, hBefore]
    bv_omega
  · rw [hForward, hStart]
    exact h.pieces
  · rw [hForward]
    exact h.sent

/-- The part of the head that a turn counts continues what was read. -/
theorem head (h : Rewriting stream c uploads) (hSyn : SynOnce c) (hFin : FinOnce c)
    (hLength : stream.length < 2 ^ 31) {seg : Segment} {rest : List Segment}
    (hQueue : c.tcp.forward = seg :: rest)
    (hNext : seg.seq + BitVec.ofNat 32 seg.sent = c.tcp.remoteSeq)
    (hFirst : syns c.log ≠ 0 ∨ seg.seq = c.tcp.remoteStart) (count : Nat) :
    uploads.flatMap Upload.counted ++ seg.rest.take count <+: stream := by
  by_cases hData : seg.data = []
  · have hNothing : seg.rest.take count = [] := by simp [Segment.rest, hData]
    rw [hNothing, List.append_nil]
    exact h.read
  · have hNone := hFin.none_of_queue (by rw [hQueue]; simp)
    have hSeq := h.seq
    rw [hNone, Nat.add_zero] at hSeq
    have hMem : seg ∈ c.tcp.forward := by rw [hQueue]; exact List.mem_cons_self ..
    have hAccepted := accepted_plainly (uploads.flatMap Upload.counted) seg c
    have hReads : Reassembly stream (plainly (uploads.flatMap Upload.counted) seg c) := by
      refine ⟨hAccepted.symm ▸ h.read, fun other hOther => ?_, fun other hOther => ?_⟩
      · rw [List.mem_singleton.mp hOther]
        exact h.pieces seg hMem hData
      · rw [List.mem_singleton.mp hOther, hAccepted]
        exact h.sent seg hMem
    have hCounted : syns (plainly (uploads.flatMap Upload.counted) seg c).log = syns c.log := by
      simp [plainly, syns]
    have hAlone : (plainly (uploads.flatMap Upload.counted) seg c).tcp.forward = [seg] := rfl
    obtain ⟨position, hSlice, hPosition⟩ := hReads.head (counting_plainly seg hSyn.syns hSeq) hLength
      hAlone hNext (hFirst.imp_left hCounted.trans_ne)
    rw [hAccepted] at hPosition
    apply deliver_prefix h.read hSlice hPosition
    exact (List.take_prefix _ _).trans (List.take_prefix _ _)

/-- A turn passes on the text of the next piece of the stream. -/
theorem forward (h : Rewriting stream c uploads) (hSyn : SynOnce c) (hFin : FinOnce c)
    (hLength : stream.length < 2 ^ 31) {seg : Segment} {rest : List Segment}
    (hQueue : c.tcp.forward = seg :: rest)
    (hNext : seg.seq + BitVec.ofNat 32 seg.sent = c.tcp.remoteSeq)
    (hFirst : syns c.log ≠ 0 ∨ seg.seq = c.tcp.remoteStart) {count : Nat}
    (hAnswer : K.send c.calls = .accepted count) :
    Rewriting stream (forwardTurn K seg rest c).1 (uploads ++ [turnUpload K seg c]) := by
  have hRead := h.head hSyn hFin hLength hQueue hNext hFirst (counted K seg c)
  have hFlat : (uploads ++ [turnUpload K seg c]).flatMap Upload.counted =
      uploads.flatMap Upload.counted ++ seg.rest.take (counted K seg c) := by
    simp [counted_turnUpload hAnswer]
  have hLengths : ((uploads ++ [turnUpload K seg c]).flatMap Upload.counted).length =
      (uploads.flatMap Upload.counted).length + counted K seg c := by
    have hCounted := counted_le K seg c
    simp [hFlat, hCounted]
  have hSent : ∀ queue : List Segment, (∀ other ∈ queue,
      (other.data ≠ [] → Piece stream c.tcp.remoteStart other.seq other.data) ∧
        other.sent ≤ (uploads.flatMap Upload.counted).length + counted K seg c) →
      Rewriting stream ((sentOn K seg c).setForward queue) (uploads ++ [turnUpload K seg c]) := by
    intro queue hQueued
    refine ⟨?_, hFlat ▸ hRead, ?_, fun other hOther => (hQueued other hOther).1, fun other hOther => ?_⟩
    · rw [List.map_append, List.map_singleton, Upload.call]
      show sendCalls c.log ++ [(forwardRequest K c seg, (sendAnswer K seg c).count)] =
        uploads.map (Upload.call c.tcp.dest) ++ [((turnUpload K seg c).text c.tcp.dest, _)]
      rw [h.calls, text_turnUpload]
      rfl
    · have hSeq := h.seq
      rw [hLengths]
      simp only [Cell.setForward_tcp, Cell.setForward_log, sentOn, Cell.call_tcp, Cell.call_log,
        syns_cons, fins_cons, reduceCtorEq, if_false]
      bv_omega
    · rw [hLengths]
      exact (hQueued other hOther).2
  have hRest : ∀ other ∈ rest, (other.data ≠ [] → Piece stream c.tcp.remoteStart other.seq other.data) ∧
      other.sent ≤ (uploads.flatMap Upload.counted).length + counted K seg c := by
    intro other hOther
    have hMem : other ∈ c.tcp.forward := by rw [hQueue]; exact List.mem_cons_of_mem _ hOther
    exact ⟨h.pieces other hMem, (h.sent other hMem).trans (Nat.le_add_right _ _)⟩
  have hHead : seg ∈ c.tcp.forward := by rw [hQueue]; exact List.mem_cons_self ..
  rw [forwardTurn_eq]
  split_ifs
  · exact hSent rest hRest
  · refine hSent _ fun other hOther => ?_
    rcases List.mem_cons.mp hOther with rfl | hOther
    · refine ⟨h.pieces seg hHead, ?_⟩
      have hBefore := h.sent seg hHead
      rw [Segment.advance_sent]
      omega
    · exact hRest other hOther

theorem queue (h : Rewriting stream c uploads) {hdr : TcpHdr} {data : Payload}
    (hCarries : Carries stream c.tcp.remoteStart hdr data) :
    Rewriting stream (c.setForward (insertSegment hdr data c.tcp.forward)) uploads := by
  refine ⟨h.calls, h.read, h.seq, fun seg hSeg hData => ?_,
    insertSegment_forall h.sent (Nat.zero_le _) fun _ hSent _ => hSent⟩
  rcases insertSegment_mem hSeg with hOld | rfl | ⟨old, hMem, hSeq, hSmaller, rfl⟩
  · exact h.pieces seg hOld hData
  · exact hCarries.piece hData
  · exact (congrArg (Piece stream _ · _) hSeq).mpr (hCarries.piece hData)

/-- A reset counts the SYN where it comes in `TCP_LISTEN`. -/
theorem writeRst (h : Rewriting stream c uploads) (hMove : Move K i s c (writeRst K c)) :
    Rewriting stream (writeRst K c) uploads := by
  have hForward := (writeRst_tcp (K := K) c).1
  by_cases hState : c.tcp.state = .listen
  · refine h.same hMove 1 hForward (sendCalls_writeRst c) ?_ ?_
    · rw [writeRst_of_listen K c hState]
      rfl
    · rw [writeRst_of_listen K c hState]
      simp
      omega
  · refine h.same hMove 0 hForward (sendCalls_writeRst c) ?_ ?_
    · rw [writeRst_of_ne_listen K c hState]
      split_ifs <;> simp
    · rw [writeRst_of_ne_listen K c hState]
      split_ifs <;> simp

theorem relay (h : Rewriting stream c uploads) (bytes : List UInt8) (size : Nat)
    (hMove : Move K i s c (relay K bytes (recvFrom K c size).1)) :
    Rewriting stream (Tun2Http.relay K bytes (recvFrom K c size).1) uploads := by
  obtain ⟨e, whole, hBefore, hAfter⟩ := relay_quiet (K := K) bytes c size
  refine h.same hMove 0 ?_ ?_ ?_ ?_
  · rw [hAfter.forward, afterWrite_tcp]
    exact hBefore.forward
  · rw [sendCalls_quiet hAfter, afterWrite_log]
    exact sendCalls_quiet hBefore
  · rw [hAfter.remoteSeq, afterWrite_tcp]
    exact hBefore.remoteSeq.trans (by simp)
  · rw [syns_quiet hAfter, fins_quiet hAfter, afterWrite_log]
    simp [syns_quiet hBefore, fins_quiet hBefore]

/-- A move reads on in the stream. -/
theorem move (h : Rewriting stream c uploads) (hSyn : SynOnce c) (hFin : FinOnce c)
    (hLength : stream.length < 2 ^ 31)
    (hInput : ∀ hdr data, i = .segment hdr data → Carries stream c.tcp.remoteStart hdr data)
    (hSend : SendsTaken s (K, i)) (hFirst : SynFirst s (K, i)) (hMove : Move K i s c d) :
    ∃ more, Rewriting stream d (uploads ++ more) := by
  have hSame : Rewriting stream d uploads → ∃ more, Rewriting stream d (uploads ++ more) := fun hD =>
    ⟨[], by rwa [List.append_nil]⟩
  have hSteps := hMove
  cases hMove with
  | quiet hSilent =>
      have hQuiet := hSilent.toQuiet
      exact hSame (h.same hSteps 0 hQuiet.forward (sendCalls_quiet hQuiet)
        (hQuiet.remoteSeq.trans (by simp)) (by rw [syns_quiet hQuiet, fins_quiet hQuiet, Nat.add_zero]))
  | write back fin whole =>
      cases whole <;> exact hSame (h.same hSteps 0 rfl rfl (BitVec.add_zero _).symm (by simp [afterWrite]))
  | relay bytes => exact hSame (h.relay bytes _ hSteps)
  | reset => exact hSame (h.writeRst hSteps)
  | synAck ev whole => cases whole <;> exact hSame (h.same hSteps 1 rfl rfl rfl (by simp; omega))
  | forward seg rest hTurn hQueue hNext hState hSocket =>
      cases hAnswer : K.send c.calls with
      | error errno => exact absurd hAnswer (hSend c hTurn errno)
      | accepted count =>
          have hHead := (hFirst c hTurn).imp_right fun hHead => hHead seg rest hQueue
          exact ⟨_, h.forward hSyn hFin hLength hQueue hNext hHead hAnswer⟩
  | confirmFin => exact hSame (h.same hSteps 1 rfl rfl rfl (by simp; omega))
  | queue hdr data hSegment => exact hSame (h.queue (hInput hdr data hSegment))
  | fin next whole => cases whole <;> exact hSame (h.same hSteps 1 rfl rfl rfl (by simp; omega))
  | shutdown next =>
      exact hSame (h.same hSteps 0 rfl rfl (BitVec.add_zero _).symm (by simp [Tun2Http.closeSocket]))
  | closeSocket =>
      exact hSame (h.same hSteps 0 rfl rfl (BitVec.add_zero _).symm (by simp [Tun2Http.closeSocket]))
  | _ => exact hSame (h.same hSteps 0 rfl rfl (by simp) (by simp))

end Rewriting

/-- What holds between the steps of a run that carries `stream` after the SYN at `base`. -/
structure RewritingRun (stream : List UInt8) (base : U32) (port : U16) (c : Cell) : Prop where
  life : Lifecycle c
  start : c.tcp.remoteStart = base
  port : c.tcp.dest = port
  syn : SynOnce c
  fin : FinOnce c
  reads : ∃ uploads, Rewriting stream c uploads

namespace RewritingRun

theorem step {base : U32} {port : U16} (h : RewritingRun stream base port c) (hLength : stream.length < 2 ^ 31)
    (input : Kernel × Input)
    (hInput : ∀ hdr data, input.2 = .segment hdr data → Carries stream base hdr data)
    (hOk : SendsTaken c input ∧ SynFirst c input ∧ ¬ CountsAgain c input) :
    RewritingRun stream base port (Tun2Http.step c input) := by
  apply moves_invariant (step_moves c input.1 input.2) h
  intro a b hInv hMove
  obtain ⟨uploads, hRewriting⟩ := hInv.reads
  obtain ⟨more, hMore⟩ :=
    hRewriting.move hInv.syn hInv.fin hLength (hInv.start ▸ hInput) hOk.1 hOk.2.1 hMove
  obtain ⟨hDest, hStart⟩ := move_fixed hMove
  exact ⟨hInv.life.move hMove, hStart.trans hInv.start, hDest.trans hInv.port, hInv.syn.move hOk.2.2 hMove,
    hInv.fin.move hInv.life hMove, _, hMore⟩

theorem of_newSession {info : SynInfo} {hdr : TcpHdr} {data : Payload}
    (hNew : newSession K info hdr data = some c) (hData : data.val <+: stream) :
    RewritingRun stream hdr.seq hdr.dest c := by
  obtain ⟨-, hLog, window, hTcp⟩ := newSession_eq hNew
  have hCounting := Counting.of_newSession hNew
  have hStart : c.tcp.remoteStart = hdr.seq := by rw [hTcp]; rfl
  have hQueue : ∀ seg ∈ c.tcp.forward, seg.seq = hdr.seq ∧ seg.data = data.val ∧ seg.sent = 0 := by
    intro seg hSeg
    rw [hTcp] at hSeg
    simp only [synSession] at hSeg
    split_ifs at hSeg
    · rw [List.mem_singleton.mp hSeg]
      exact ⟨rfl, rfl, rfl⟩
    · simp at hSeg
  refine ⟨lifecycle_newSession hNew, hStart, by rw [hTcp]; rfl, ⟨hCounting.syns, hCounting.listen⟩,
    ⟨hCounting.fins, hCounting.done⟩, [], ?_, List.nil_prefix, ?_, fun seg hSeg _ => ?_, fun seg hSeg => ?_⟩
  · rw [hLog]
    rfl
  · have hSeq := hCounting.seq
    rw [hLog] at hSeq ⊢
    exact hSeq
  · obtain ⟨hSeq, hBytes, -⟩ := hQueue seg hSeg
    rw [hSeq, hBytes, hStart]
    exact Or.inl ⟨rfl, hData⟩
  · rw [(hQueue seg hSeg).2.2]
    exact Nat.zero_le _

end RewritingRun

/-- Whatever the port, the calls of `send()` pass on the texts of pieces of the client's stream
that follow each other without a gap, so what a socket that takes each text whole has is the
stream, piece by piece, as it is or as `patch_http_url` rewrites it. This is so as long as
`send()` never fails, the SYN is not counted again, and no data but the SYN's own is handed to
`send()` before the SYN is counted. -/
theorem uploads_rewritten {info : SynInfo} {hdr : TcpHdr} {data : Payload} {start : Cell}
    (hNew : newSession K info hdr data = some start) (hLength : stream.length < 2 ^ 31)
    (hData : data.val <+: stream) (inputs : List (Kernel × Input))
    (hSegments : ∀ input ∈ inputs, ∀ hdr' data', input.2 = .segment hdr' data' →
      Carries stream hdr.seq hdr' data')
    (hRun : Along step (fun c input => SendsTaken c input ∧ SynFirst c input ∧ ¬ CountsAgain c input)
      start inputs) :
    let c := run step start inputs
    ∃ uploads : List Upload, sendCalls c.log = uploads.map (Upload.call hdr.dest) ∧
      uploads.flatMap Upload.counted <+: stream ∧
      (syns c.log ≠ 0 → fins c.log = 0 → c.tcp.remoteSeq - hdr.seq - 1 =
        BitVec.ofNat 32 (uploads.flatMap Upload.counted).length) ∧
      ((∀ upload ∈ uploads, (upload.text hdr.dest).length ≤ upload.taken) →
        accepted c.log = uploads.flatMap (Upload.text hdr.dest) ∧
          uploads.flatMap Upload.rest <+: stream) := by
  intro c
  have hEnd := run_invariant (RewritingRun.of_newSession hNew hData) ((along_of_forall start hSegments).and hRun)
    fun d input (hd : RewritingRun stream hdr.seq hdr.dest d) hOk => hd.step hLength input hOk.1 hOk.2
  obtain ⟨-, hStart, hPort, hSyn, -, uploads, hRewriting⟩ := hEnd
  have hCalls := hRewriting.calls
  rw [hPort] at hCalls
  refine ⟨uploads, hCalls, hRewriting.read, fun hBegun hFin => ?_, fun hWhole => ⟨?_, ?_⟩⟩
  · have hSeq : c.tcp.remoteSeq = c.tcp.remoteStart + _ := hRewriting.seq
    have hOnce : syns c.log ≤ 1 := hSyn.syns
    have hStart : c.tcp.remoteStart = hdr.seq := hStart
    rw [hStart, hFin, show syns c.log = 1 by omega] at hSeq
    rw [hSeq]
    bv_omega
  · rw [accepted_eq_sendCalls, hCalls, List.flatMap_map]
    exact List.flatMap_congr fun upload hIn => List.take_of_length_le (hWhole upload hIn)
  · rw [← List.flatMap_congr fun upload hIn => Upload.counted_of_whole (hWhole upload hIn)]
    exact hRewriting.read

/-- A request for port 80, and room to send it. -/
def requestRun : List (Kernel × Input) :=
  [(.willing, .event { epollout := true }), (.willing, .segment (clientSegment 80 1 1001) .empty),
    (.willing, .segment (clientSegment 80 1 1001) getRequest), (.willing, .event { epollout := true })]

theorem uploads_rewritten_request :
    let c := run step (clientCell 80 .empty) requestRun
    ∃ uploads : List Upload, sendCalls c.log = uploads.map (Upload.call 80) ∧
      uploads.flatMap Upload.counted <+: getRequest.val ∧
      (syns c.log ≠ 0 → fins c.log = 0 → c.tcp.remoteSeq - 5000 - 1 =
        BitVec.ofNat 32 (uploads.flatMap Upload.counted).length) ∧
      ((∀ upload ∈ uploads, (upload.text 80).length ≤ upload.taken) →
        accepted c.log = uploads.flatMap (Upload.text 80) ∧
          uploads.flatMap Upload.rest <+: getRequest.val) := by
  refine uploads_rewritten (newSession_client 80 .empty) (by decide) List.nil_prefix _
    (fun input hInput hdr data hSegment => ?_) ?_
  · simp only [requestRun, List.mem_cons, List.not_mem_nil, or_false] at hInput
    rcases hInput with rfl | rfl | rfl | rfl <;> cases hSegment
    · exact carries_data 0 rfl (by decide) (by decide)
    · exact carries_data 0 rfl (by decide) (by decide)
  · refine ⟨⟨?_, ?_, ?_⟩, ⟨?_, ?_, ?_⟩, ⟨?_, ?_, ?_⟩, ⟨?_, ?_, ?_⟩, trivial⟩
    all_goals first
      | exact fun _ _ _ h => by cases h
      | exact fun h => absurd h.2.1 (by decide)
      | exact fun h => absurd h.1 (by decide)
      | exact fun t ht => Or.inl (by revert t; decide)

end Tun2Http
