import Tun2Http.Http.RequestLine
import Tun2Http.Tcp.Upstream

/-! Sending a segment in parts. What the socket takes of the rewritten text is
counted as bytes of the segment, and the rewriting starts anew on what is left. -/
namespace Tun2Http

open Machine

/-- One `send()` for a segment: what was passed, how much of it the socket took,
and by how much `remote_seq` moved. -/
structure Sent where
  request : List UInt8
  taken : Nat
  counted : Nat
  deriving DecidableEq

/-- The bytes that the socket took. -/
def Sent.accepted (sent : Sent) : List UInt8 := sent.request.take sent.taken

/-- The sends for the segment at the head of the queue, over successive events,
until it leaves the queue; `none` if it does not, or if a send fails. -/
def headSends : Cell → List (Kernel × EpollEvents) → Option (List Sent)
  | _, [] => none
  | c, (K, ev) :: more =>
      match turns c (K, .event ev) with
      | [] => headSends (step c (K, .event ev)) more
      | t :: _ =>
          match t.tcp.forward with
          | [] => none
          | seg :: _ =>
              match sendAnswer K seg t with
              | .error _ => none
              | .accepted count =>
                  let sent : Sent := ⟨forwardRequest K t seg, count, counted K seg t⟩
                  if counted K seg t = seg.unsent then some [sent]
                  else (headSends (step c (K, .event ev)) more).map (sent :: ·)

/-- The socket took the text of the first send, and `remote_seq` moved by `length`. -/
def Whole (length : Nat) (sends : List Sent) : Prop :=
  sends.flatMap Sent.accepted = (sends.head?.map Sent.request).getD [] ∧
    (sends.map Sent.counted).sum = length

/-- `seg` has not been sent in part, and is the segment of the payload `d`. -/
def Fresh (d : Payload) (seg : Segment) : Prop := seg.data = d.val ∧ seg.len = d.val.length ∧ seg.sent = 0

/-- Whenever a segment with the payload `d` is at the head of a session for port
80, and however much `send()` takes at each event, the socket gets the text of
its rewriting, and `remote_seq` passes the segment. -/
def SentWhole (d : Payload) : Prop :=
  ∀ c seg rest, Reachable c → c.tcp.dest = 80 → c.tcp.forward = seg :: rest → Fresh d seg →
    ∀ events sends, headSends c events = some sends → Whole d.val.length sends

variable {K : Kernel} {c d t : Cell} {ev : EpollEvents} {mem : Memory}

/-- A rewritten text is longer. -/
theorem length_lt_of_patch {dataLen : Nat} (hSmall : dataLen < 2 ^ 16) {request : List UInt8}
    (hPatch : (patchHttpUrl dataLen).value mem = some request) : dataLen < request.length := by
  rw [value_patchHttpUrl] at hPatch
  obtain ⟨host, -, hPatch⟩ := Option.bind_eq_some_iff.mp hPatch
  obtain ⟨⟨place, word⟩, hFound, hPatch⟩ := Option.bind_eq_some_iff.mp hPatch
  obtain ⟨-, hOccurs, hFour, hEight, -⟩ := space_of_wordText hFound
  have hInside := hOccurs.lt
  split_ifs at hPatch
  rw [← Option.some.inj hPatch, patched]
  simp only [List.length_take, List.length_append, length_readBytes, schemeSlashes, ascii,
    List.length_map, List.length_cons, List.length_nil]
  omega

/-! The head of the queue over events. -/

/-- An event without a turn leaves the queue alone. -/
theorem forward_of_no_turn (h : turns c (K, .event ev) = []) :
    (step c (K, .event ev)).tcp.forward = c.tcp.forward := by
  apply moves_invariant (I := fun d => d.tcp.forward = c.tcp.forward)
    (step_moves c K (.event ev)) rfl
  intro a b hSame hMove
  cases hMove with
  | quiet hSilent => exact hSilent.forward.trans hSame
  | write => rwa [afterWrite_tcp]
  | relay bytes =>
      obtain ⟨e, whole, hBefore, hAfter⟩ := relay_quiet (K := K) bytes a (readSize a.tcp)
      rw [hAfter.forward, afterWrite_tcp]
      exact hBefore.forward.trans hSame
  | reset => exact (writeRst_tcp a).1.trans hSame
  | synAck ev whole => cases whole <;> exact hSame
  | forward seg rest hTurn =>
      rw [h] at hTurn
      cases hTurn
  | queue hdr data hInput => cases hInput
  | fin next whole => cases whole <;> exact hSame
  | _ => exact hSame

theorem forward_readyTaken (hWritable : ev.epollout = true) :
    (readyTaken K ev c).tcp.forward = (forwardData K c).1.tcp.forward := by
  have hStored := (frame_storeWindow K 0 (forwardData K c).1).forward
  unfold readyTaken
  rw [if_pos hWritable]
  dsimp only [confirmFin]
  split_ifs
  · exact hStored
  · exact hStored

/-- The first turn of an event is on the head of the queue. -/
theorem first_turn {more : List Cell} (ht : turns c (K, .event ev) = t :: more) :
    0 ≤ c.socket ∧ ev.epollerr = false ∧ c.tcp.state ≠ .listen ∧ ev.epollout = true ∧
      t = (getReceiveBuffer K c).1 ∧ ∃ seg rest, c.tcp.forward = seg :: rest ∧
        canForward t seg (BitVec.ofInt 32 (getReceiveBuffer K c).2) := by
  unfold turns at ht
  dsimp only at ht
  split_ifs at ht with hLoop
  obtain ⟨hSocket, hError, hState, hWritable⟩ := hLoop
  refine ⟨hSocket, by simpa using hError, hState, hWritable, ?_⟩
  rw [getReceiveBuffer_tcp] at ht
  cases hQueue : c.tcp.forward with
  | nil =>
      rw [hQueue, forwardTurns] at ht
      cases ht
  | cons seg rest =>
      rw [hQueue, forwardTurns] at ht
      split_ifs at ht with hForward
      obtain ⟨rfl, -⟩ := List.cons.inj ht
      exact ⟨rfl, seg, rest, rfl, hForward⟩

/-- What such an event forwards. -/
theorem forwardData_of_partial {more : List Cell} {seg : Segment} {rest : List Segment}
    (ht : turns c (K, .event ev) = t :: more) (hQueue : c.tcp.forward = seg :: rest)
    (hPart : counted K seg t ≠ seg.unsent) :
    forwardData K c = ((sentOn K seg t).setForward
      (seg.advance (counted K seg t) (counted_le K seg t) :: rest), true) := by
  obtain ⟨-, -, -, -, rfl, head, tail, hHead, hForward⟩ := first_turn ht
  obtain ⟨rfl, rfl⟩ := List.cons.inj (hHead.symm.trans hQueue)
  rw [forwardData, getReceiveBuffer_tcp, hHead, forwardLoop, if_pos hForward, forwardTurn_eq,
    if_neg hPart]
  rfl

theorem step_of_turn {more : List Cell} (ht : turns c (K, .event ev) = t :: more) :
    step c (K, .event ev) = socketReady K ev c := by
  obtain ⟨hSocket, hError, hState, -⟩ := first_turn ht
  simp only [step, hSocket, if_true, checkTcpSocket, hError, hState, if_false, Bool.false_eq_true]

/-- After a turn that sends a part, the rest of the segment is at the head. -/
theorem forward_of_partial {more : List Cell} {seg : Segment} {rest : List Segment}
    (ht : turns c (K, .event ev) = t :: more) (hQueue : c.tcp.forward = seg :: rest)
    (hPart : counted K seg t ≠ seg.unsent) :
    (step c (K, .event ev)).tcp.forward =
      seg.advance (counted K seg t) (counted_le K seg t) :: rest := by
  obtain ⟨-, -, -, hWritable, -⟩ := first_turn ht
  rw [step_of_turn ht, (repeats_socketReady K ev c).forward, forward_readyTaken hWritable,
    forwardData_of_partial ht hQueue hPart]
  rfl

/-! A payload without anything to rewrite. -/

/-- Nothing is found in any tail of the payload, whatever lies behind it. -/
def Plain (d : List UInt8) : Prop :=
  ∀ tail behind, tail <:+ d → tail ≠ [] → NothingFound (inFrontOf tail behind) tail.length

/-- `seg` is what is left of the payload `d`. -/
def LeftOf (d : Payload) (seg : Segment) : Prop := seg.data = d.val ∧ seg.len = d.val.length

theorem LeftOf.rest {d : Payload} {seg : Segment} (h : LeftOf d seg) :
    seg.rest = d.val.drop seg.sent := by
  rw [Segment.rest, Segment.unsent, h.1, h.2]
  exact List.take_of_length_le (by rw [List.length_drop])

theorem LeftOf.memory {d : Payload} {seg : Segment} (h : LeftOf d seg) (K : Kernel) (c : Cell) :
    forwardMemory K c seg = inFrontOf (d.val.drop seg.sent) (K.behind c.calls) := by
  funext offset
  have hSent := seg.sent_le
  rw [h.2] at hSent
  simp only [forwardMemory, inFrontOf, h.1]
  by_cases hInside : seg.sent + offset < d.val.length
  · have hDropped : offset < (d.val.drop seg.sent).length := by
      rw [List.length_drop]
      omega
    rw [dif_pos hInside, dif_pos hDropped, List.getElem_drop]
  · have hDropped : ¬ offset < (d.val.drop seg.sent).length := by
      rw [List.length_drop]
      omega
    rw [dif_neg hInside, dif_neg hDropped, List.length_drop]
    congr 1
    omega

/-- Without anything to rewrite the rest is passed on as it is. -/
theorem forwardRequest_of_nothing {seg : Segment}
    (h : NothingFound (forwardMemory K c seg) seg.unsent) : forwardRequest K c seg = seg.rest := by
  unfold forwardRequest
  rw [value_patch_eq_none_iff.mpr h]
  split_ifs <;> rfl

theorem forwardRequest_plain {d : Payload} (hPlain : Plain d.val) {seg : Segment}
    (hLeft : LeftOf d seg) (K : Kernel) (c : Cell) : forwardRequest K c seg = seg.rest := by
  have hLength : seg.unsent = (d.val.drop seg.sent).length := by
    rw [← hLeft.rest, Segment.length_rest]
  apply forwardRequest_of_nothing
  rw [hLeft.memory, hLength]
  by_cases hEmpty : d.val.drop seg.sent = []
  · rw [hEmpty]
    exact Or.inl rfl
  · exact hPlain _ _ (List.drop_suffix ..) hEmpty

/-- Over any events the socket gets what is left of the payload. -/
theorem headSends_plain {d : Payload} (hPlain : Plain d.val) {events : List (Kernel × EpollEvents)}
    {seg : Segment} {rest : List Segment} {sends : List Sent} (hQueue : c.tcp.forward = seg :: rest)
    (hLeft : LeftOf d seg) (hSends : headSends c events = some sends) :
    sends.flatMap Sent.accepted = seg.rest ∧ (sends.map Sent.counted).sum = seg.unsent ∧
      (sends.head?.map Sent.request).getD [] = seg.rest := by
  induction events generalizing c seg sends with
  | nil => cases hSends
  | cons event more ih =>
      obtain ⟨K, ev⟩ := event
      rw [headSends] at hSends
      cases hTurns : turns c (K, .event ev) with
      | nil =>
          rw [hTurns] at hSends
          exact ih ((forward_of_no_turn hTurns).trans hQueue) hLeft hSends
      | cons t later =>
          have hHead : t.tcp.forward = seg :: rest := by
            obtain ⟨-, -, -, -, rfl, -⟩ := first_turn hTurns
            rwa [getReceiveBuffer_tcp]
          rw [hTurns] at hSends
          dsimp only at hSends
          rw [hHead] at hSends
          dsimp only at hSends
          have hRequest := forwardRequest_plain hPlain hLeft K t
          cases hSend : K.send t.calls with
          | error errno => simp [sendAnswer, hSend, SendResult.clamp] at hSends
          | accepted taken =>
              have hCounted : counted K seg t = min taken seg.unsent := counted_of_accepted hSend
              have hAnswer : sendAnswer K seg t = .accepted (counted K seg t) := by
                rw [sendAnswer, hSend, SendResult.clamp, hRequest, Segment.length_rest, hCounted]
              rw [hAnswer, hRequest] at hSends
              dsimp only at hSends
              by_cases hAll : counted K seg t = seg.unsent
              · rw [if_pos hAll] at hSends
                obtain rfl := Option.some.inj hSends
                simp [Sent.accepted, hAll, ← Segment.length_rest]
              · rw [if_neg hAll] at hSends
                obtain ⟨others, hOthers, rfl⟩ := Option.map_eq_some_iff.mp hSends
                have hNext := forward_of_partial hTurns hQueue hAll
                obtain ⟨hBytes, hSum, -⟩ := ih hNext hLeft hOthers
                have hLe := counted_le K seg t
                have hLeft' : LeftOf d (seg.advance (counted K seg t) hLe) := hLeft
                have hRest : (seg.advance (counted K seg t) hLe).rest =
                    seg.rest.drop (counted K seg t) := by
                  rw [hLeft'.rest, hLeft.rest, List.drop_drop]
                  rfl
                refine ⟨?_, ?_, rfl⟩
                · rw [List.flatMap_cons, hBytes, hRest]
                  exact List.take_append_drop ..
                · rw [List.map_cons, List.sum_cons, hSum]
                  show counted K seg t + (seg.len - (seg.sent + counted K seg t)) = seg.len - seg.sent
                  unfold Segment.unsent at hLe
                  omega

/-! Sends that take what they are told to. -/

/-- Room for any segment, and `send()` takes `count` bytes. -/
def taking (count : Nat) (behind : Memory) : Kernel :=
  { Kernel.willing with
    sndbuf := fun _ => 2 ^ 20
    send := fun _ => .accepted count
    behind := fun _ => behind }

def writable : EpollEvents := { epollout := true }

/-- With room for it, the head of the queue gets a turn. -/
theorem turns_taking {seg : Segment} {rest : List Segment} (count : Nat) (behind : Memory)
    (hSocket : 0 ≤ c.socket) (hState : c.tcp.state = .established)
    (hQueue : c.tcp.forward = seg :: rest)
    (hNext : seg.seq + BitVec.ofNat 32 seg.sent = c.tcp.remoteSeq) :
    ∃ t more, turns c (taking count behind, .event writable) = t :: more ∧
      t.tcp = c.tcp ∧ t.socket = c.socket := by
  have hListen : c.tcp.state ≠ .listen := by rw [hState]; decide
  have hUnsent := seg.unsent_lt
  have hBuffer : BitVec.ofInt 32 (getReceiveBuffer (taking count behind) c).2 = 524288#32 := by
    rw [getReceiveBuffer, if_neg (not_lt.mpr hSocket)]
    rfl
  have hRoom : BitVec.ofNat 32 seg.unsent < 524288#32 := by
    bv_omega
  set t := (getReceiveBuffer (taking count behind) c).1 with hT
  have hTcp : t.tcp = c.tcp := getReceiveBuffer_tcp _ c
  have hForward : canForward t seg 524288#32 := ⟨by rw [hNext, hTcp], hRoom⟩
  have hTurns : turns c (taking count behind, .event writable) =
      forwardTurns (taking count behind) (seg :: rest) 524288#32 t := by
    rw [turns]
    dsimp only
    rw [if_pos ⟨hSocket, by decide, hListen, rfl⟩, hBuffer, ← hT, hTcp, hQueue]
  rw [forwardTurns, if_pos hForward] at hTurns
  exact ⟨t, _, hTurns, hTcp, getReceiveBuffer_socket _ c⟩

/-- The session goes on with the rest of the segment. -/
theorem step_of_partial {more : List Cell} {seg : Segment} {rest : List Segment} {count : Nat}
    {behind : Memory} (ht : turns c (taking count behind, .event writable) = t :: more)
    (hQueue : c.tcp.forward = seg :: rest)
    (hPart : counted (taking count behind) seg t ≠ seg.unsent) :
    let next := step c (taking count behind, .event writable)
    next.socket = c.socket ∧ next.tcp.state = c.tcp.state ∧ next.tcp.dest = c.tcp.dest ∧
      next.tcp.remoteSeq = seg.seq + BitVec.ofNat 32 (seg.sent + counted (taking count behind) seg t) := by
  have hForwarded := forwardData_of_partial ht hQueue hPart
  have hStep := step_of_turn ht
  obtain ⟨-, -, -, -, rfl, -⟩ := first_turn ht
  have hRead : ∀ d, socketRead (taking count behind) writable d = d := fun d =>
    if_neg fun h => Bool.noConfusion h.1
  set head := seg.advance (counted (taking count behind) seg _) (counted_le _ seg _)
  have hWrite : ∀ d, writeAck (taking count behind) d =
      (d.call (.tun (buildTcp d.tcp [] false true false false) true), true) := fun d => rfl
  have hKeep : ∀ d, confirmFin true (storeWindow (taking count behind)
      ((sentOn (taking count behind) seg d).setForward (head :: rest))) =
      storeWindow (taking count behind)
        ((sentOn (taking count behind) seg d).setForward (head :: rest)) := fun d =>
    if_neg fun h => by
      have hEmpty := h.2.1
      rw [(frame_storeWindow _ 0 _).forward] at hEmpty
      cases hEmpty
  have hOut : writable.epollout = true := rfl
  intro next
  set answered := storeWindow (taking count behind) ((sentOn (taking count behind) seg
    (getReceiveBuffer (taking count behind) c).1).setForward (head :: rest)) with hAnswered
  have hNext : next = touch (taking count behind)
      (answered.call (.tun (buildTcp answered.tcp [] false true false false) true)) := by
    rw [show next = _ from hStep, socketReady_eq, hRead, ite_self, beforeRead, if_pos hOut,
      hForwarded]
    dsimp only
    rw [if_pos (Or.inl rfl), acknowledge_eq, hKeep]
    rw [hWrite]
    rfl
  rw [hNext, hAnswered]
  simp [storeWindow, sentOn]

/-- The first of such sends, and what follows where it takes a part. -/
theorem headSends_taking {seg : Segment} {rest : List Segment} (count : Nat) (behind : Memory)
    (hSocket : 0 ≤ c.socket) (hState : c.tcp.state = .established)
    (hQueue : c.tcp.forward = seg :: rest)
    (hNext : seg.seq + BitVec.ofNat 32 seg.sent = c.tcp.remoteSeq)
    (more : List (Kernel × EpollEvents)) :
    ∃ t, t.tcp = c.tcp ∧
      let request := forwardRequest (taking count behind) t seg
      let sent : Sent := ⟨request, min count request.length, min count seg.unsent⟩
      headSends c ((taking count behind, writable) :: more) =
        if min count seg.unsent = seg.unsent then some [sent]
        else (headSends (step c (taking count behind, .event writable)) more).map (sent :: ·) := by
  obtain ⟨t, later, hTurns, hTcp, -⟩ := turns_taking count behind hSocket hState hQueue
    hNext
  have hHead : t.tcp.forward = seg :: rest := by rw [hTcp, hQueue]
  have hCounted : counted (taking count behind) seg t = min count seg.unsent :=
    counted_of_accepted rfl
  have hAnswer : sendAnswer (taking count behind) seg t =
      .accepted (min count (forwardRequest (taking count behind) t seg).length) := rfl
  refine ⟨t, hTcp, ?_⟩
  rw [headSends, hTurns]
  dsimp only
  rw [hHead]
  dsimp only
  rw [hAnswer, hCounted]

/-- After the handshake on port 80 nothing is queued. -/
def webCell : Cell :=
  Machine.run step (clientCell 80 .empty)
    [(.willing, .event writable), (.willing, .segment (clientSegment 80 1 1001) .empty)]

/-- Then the client sends the payload. -/
def uploadCell (d : Payload) : Cell :=
  step webCell (.willing, .segment (clientSegment 80 1 1001) d)

/-- The payload is all that the session has to send. -/
structure Holding (d : Payload) (seg : Segment) (c : Cell) : Prop where
  reachable : Reachable c
  socket : 0 ≤ c.socket
  state : c.tcp.state = .established
  dest : c.tcp.dest = 80
  fresh : Fresh d seg
  next : seg.seq + BitVec.ofNat 32 seg.sent = c.tcp.remoteSeq
  forward : c.tcp.forward = [seg]

theorem holding (d : Payload) (hSome : d.val ≠ []) :
    Holding d (Segment.ofPayload 5001 true d) (uploadCell d) := by
  have hReachable : Reachable (uploadCell d) :=
    reachable_client 80 .empty [(.willing, .event writable),
      (.willing, .segment (clientSegment 80 1 1001) .empty),
      (.willing, .segment (clientSegment 80 1 1001) d)]
  have hSocket : webCell.socket = 3 := by decide
  have hState : webCell.tcp.state = .established := by decide
  have hDest : webCell.tcp.dest = 80 := by decide
  have hNext : webCell.tcp.remoteSeq = 5001 := by decide
  have hLocal : webCell.tcp.localSeq = 1001 := by decide
  have hQueue : webCell.tcp.forward = [] := by decide
  refine ⟨hReachable, ?_, ?_, ?_, ⟨rfl, rfl, rfl⟩, ?_, ?_⟩
  all_goals
    simp [uploadCell, step, existingSession, tunnelSegment, handleSegment, refresh, queueTcp,
      handleFlags, handleAck, clientSegment, clientSyn, insertSegment, Segment.ofPayload, hSocket,
      hState, hDest, hNext, hLocal, hQueue, hSome, compareU32]

/-- Where something is found in what is left, more is passed to `send()` than is left. -/
theorem length_of_found {d : Payload} {seg : Segment} (hLeft : LeftOf d seg) {count : Nat}
    {behind : Memory} (hDest : c.tcp.dest = 80)
    (hFound : ¬ NothingFound (inFrontOf (d.val.drop seg.sent) behind) seg.unsent) :
    seg.unsent < (forwardRequest (taking count behind) c seg).length := by
  have hUnsent := seg.unsent_lt
  have hMemory := hLeft.memory (taking count behind) c
  cases hPatch : (patchHttpUrl seg.unsent).value (forwardMemory (taking count behind) c seg) with
  | none =>
      rw [value_patch_eq_none_iff, hMemory] at hPatch
      exact absurd hPatch hFound
  | some request =>
      have hLonger := length_lt_of_patch hUnsent hPatch
      unfold forwardRequest
      rw [if_pos hDest, hPatch]
      exact hLonger

variable {seg : Segment}

/-- One send that takes as many bytes as the payload has: all of the text only
where nothing was rewritten. -/
theorem nothingFound_of_whole {d : Payload} (hHolding : Holding d seg c) (hWhole : SentWhole d)
    (behind : Memory) : NothingFound (inFrontOf d.val behind) d.val.length := by
  obtain ⟨hData, hLen, hSent⟩ := hHolding.fresh
  have hUnsent : seg.unsent = d.val.length := by
    rw [Segment.unsent, hLen, hSent, Nat.sub_zero]
  obtain ⟨t, hTcp, hSends⟩ := headSends_taking d.val.length behind
    hHolding.socket hHolding.state hHolding.forward hHolding.next []
  dsimp only at hSends
  rw [hUnsent, Nat.min_self, if_pos rfl] at hSends
  set request := forwardRequest (taking d.val.length behind) t seg with hRequest
  obtain ⟨hBytes, -⟩ := hWhole c seg [] hHolding.reachable hHolding.dest hHolding.forward
    hHolding.fresh _ _ hSends
  have hTaken : request.take (min d.val.length request.length) = request := by
    simpa [Sent.accepted] using hBytes
  by_contra hFound
  have hLonger : seg.unsent < request.length :=
    length_of_found (d := d) ⟨hData, hLen⟩ (by rw [hTcp, hHolding.dest])
      (by rwa [hSent, hUnsent])
  have hLength := congrArg List.length hTaken
  rw [List.length_take] at hLength
  omega

/-- A send of the first bytes, and one that takes all of what follows: no more
than the payload only where nothing was rewritten there. -/
theorem nothingFound_of_whole_rest {d : Payload} (hHolding : Holding d seg c)
    (hWhole : SentWhole d) (behind : Memory) {taken : Nat} (hLess : taken < d.val.length) :
    NothingFound (inFrontOf (d.val.drop taken) behind) (d.val.length - taken) := by
  obtain ⟨hData, hLen, hSent⟩ := hHolding.fresh
  have hUnsent : seg.unsent = d.val.length := by
    rw [Segment.unsent, hLen, hSent, Nat.sub_zero]
  -- the first event sends the first bytes as they are
  obtain ⟨t, more, hTurns, -⟩ := turns_taking taken behind
    hHolding.socket hHolding.state hHolding.forward hHolding.next
  have hCounted : counted (taking taken behind) seg t = taken := by
    rw [counted_of_accepted rfl, hUnsent]
    omega
  have hPart : counted (taking taken behind) seg t ≠ seg.unsent := by
    rw [hCounted, hUnsent]
    omega
  obtain ⟨hSocket, hState, hDest, hNext⟩ := step_of_partial hTurns hHolding.forward hPart
  have hQueue := forward_of_partial hTurns hHolding.forward hPart
  set e := step c (taking taken behind, .event writable)
  set left := seg.advance (counted (taking taken behind) seg t) (counted_le _ seg t) with hLeft
  have hLeftSent : left.sent = taken := by
    rw [hLeft, Segment.advance_sent, hSent, hCounted, Nat.zero_add]
  have hLeftUnsent : left.unsent = d.val.length - taken := by
    rw [Segment.unsent, hLeftSent, hLeft, Segment.advance_len, hLen]
  have hLeftLt := left.unsent_lt
  -- the second takes all that is passed
  obtain ⟨u, hLastTcp, hLast⟩ := headSends_taking 100000 behind
    (le_of_le_of_eq hHolding.socket hSocket.symm) (hState.trans hHolding.state) hQueue hNext.symm []
  dsimp only at hLast
  rw [min_eq_right (by omega : left.unsent ≤ 100000), if_pos rfl] at hLast
  set request := forwardRequest (taking 100000 behind) u left with hRequest
  obtain ⟨t', hTcp', hFirst⟩ := headSends_taking taken behind
    hHolding.socket hHolding.state hHolding.forward hHolding.next [(taking 100000 behind, writable)]
  dsimp only at hFirst
  rw [if_neg (by omega), hLast, Option.map_some] at hFirst
  have hWholeMemory := (show LeftOf d seg from ⟨hData, hLen⟩).memory (taking taken behind) t'
  have hPlainRequest : forwardRequest (taking taken behind) t' seg = seg.rest := by
    apply forwardRequest_of_nothing
    rw [hWholeMemory, hSent, hUnsent]
    exact nothingFound_of_whole hHolding hWhole behind
  obtain ⟨hBytes, -⟩ := hWhole c seg [] hHolding.reachable hHolding.dest hHolding.forward
    hHolding.fresh _ _ hFirst
  by_contra hFound
  have hLonger : left.unsent < request.length := by
    have hRest : LeftOf d left := ⟨hData, hLen⟩
    apply length_of_found hRest (by rw [hLastTcp, hDest, hHolding.dest])
    rwa [hLeftSent, hLeftUnsent]
  have hMost : request.length ≤ left.unsent + 518 := (length_forwardRequest _ _ _).2
  have hLength := congrArg List.length hBytes
  simp only [List.flatMap_cons, List.flatMap_nil, List.append_nil, Sent.accepted, List.length_append,
    List.length_take, List.head?_cons, Option.map_some, Option.getD_some, hPlainRequest,
    Segment.length_rest] at hLength
  omega

/-- A payload goes out whole over partial sends just when no tail of it has
anything to rewrite. -/
theorem partial_sends_iff (d : Payload) : SentWhole d ↔ Plain d.val := by
  constructor
  · intro hWhole tail behind hSuffix hTail
    obtain ⟨front, hFront⟩ := hSuffix
    have hLength : d.val.length = front.length + tail.length := by
      rw [← hFront, List.length_append]
    have hSome := List.length_pos_iff.mpr hTail
    have hHolding := holding d (List.ne_nil_of_length_pos (by omega))
    have hRest := nothingFound_of_whole_rest hHolding hWhole behind
      (by omega : front.length < d.val.length)
    rwa [← hFront, List.drop_left, List.length_append, Nat.add_sub_cancel_left] at hRest
  · intro hPlain c seg rest _ _ hQueue hFresh events sends hSends
    obtain ⟨hBytes, hSum, hFirst⟩ :=
      headSends_plain hPlain hQueue (d := d) ⟨hFresh.1, hFresh.2.1⟩ hSends
    have hUnsent : seg.unsent = d.val.length := by
      rw [Segment.unsent, hFresh.2.1, hFresh.2.2, Nat.sub_zero]
    exact ⟨hBytes.trans hFirst.symm, hSum.trans hUnsent⟩

/-- A plain request. -/
def getRequest : Payload :=
  ⟨ascii ['G', 'E', 'T', ' ', '/', ' ', 'H', 'T', 'T', 'P', '/', '1', '.', '1', '\r', '\n',
    'H', 'o', 's', 't', ':', ' ', 'a', '\r', '\n', '\r', '\n'], by decide⟩

/-- The socket takes as many bytes as the request has. The segment is counted as
sent, and the end of the rewritten text is not. -/
theorem partial_send_cut : ∃ request,
    headSends (uploadCell getRequest) [(taking 27 fun _ => 0, writable)] =
        some [⟨request, 27, getRequest.val.length⟩] ∧
      (patchHttpUrl getRequest.val.length).value (inFrontOf getRequest.val fun _ => 0) =
        some request ∧
      request.length = 35 ∧ ¬ SentWhole getRequest := by
  refine ⟨ascii ['G', 'E', 'T', ' ', 'h', 't', 't', 'p', ':', '/', '/', 'a', '/', ' ', 'H', 'T',
    'T', 'P', '/', '1', '.', '1', '\r', '\n', 'H', 'o', 's', 't', ':', ' ', 'a', '\r', '\n',
    '\r', '\n'], by decide, by decide, by decide, ?_⟩
  intro hWhole
  have hNothing := nothingFound_of_whole (holding getRequest (by decide)) hWhole fun _ => 0
  rw [← value_patch_eq_none_iff] at hNothing
  revert hNothing
  decide

end Tun2Http
