import Tun2Http.Native.Util

/-! `tcp.c`: `queue_tcp`, which keeps client data that cannot be forwarded
yet, and the windows that follow from the queue. -/
namespace Tun2Http

/-- The fields of the TCP header that the session code reads, in host order. -/
structure TcpHdr where
  source : U16
  dest : U16
  seq : U32
  ackSeq : U32
  window : U16
  syn : Bool
  ack : Bool
  psh : Bool
  fin : Bool
  rst : Bool
  urg : Bool
  deriving DecidableEq

/-- The walk of `queue_tcp` through the list and what it does where it ends. -/
def insertSegment (hdr : TcpHdr) (data : Payload) : List Segment → List Segment
  | [] => [Segment.ofPayload hdr.seq hdr.psh data]
  | s :: rest =>
      if compareU32 s.seq hdr.seq < 0 then s :: insertSegment hdr data rest
      else if compareU32 s.seq hdr.seq > 0 then
        Segment.ofPayload hdr.seq hdr.psh data :: s :: rest
      else if s.seq = hdr.seq then
        if s.len = data.val.length then s :: rest -- segment already queued
        else if h : s.len < data.val.length then s.replaceData data h :: rest -- segment smaller
        else s :: rest -- segment larger
      else s :: rest

/-- What the walk leaves in the list: what was there, the new packet, or a
segment of the same start with its block exchanged. -/
theorem insertSegment_mem {hdr : TcpHdr} {data : Payload} {queue : List Segment} {seg : Segment}
    (hSeg : seg ∈ insertSegment hdr data queue) :
    seg ∈ queue ∨ seg = Segment.ofPayload hdr.seq hdr.psh data ∨
      ∃ old ∈ queue, old.seq = hdr.seq ∧ ∃ h, seg = old.replaceData data h := by
  induction queue with
  | nil => exact Or.inr (Or.inl (List.mem_singleton.mp hSeg))
  | cons s rest ih =>
      unfold insertSegment at hSeg
      split_ifs at hSeg with hBefore hAfter hSeq hSame hSmaller
      · rcases List.mem_cons.mp hSeg with rfl | hRest
        · exact Or.inl (List.mem_cons_self ..)
        · rcases ih hRest with hOld | hNew | ⟨old, hMem, hReplaced⟩
          · exact Or.inl (List.mem_cons_of_mem _ hOld)
          · exact Or.inr (Or.inl hNew)
          · exact Or.inr (Or.inr ⟨old, List.mem_cons_of_mem _ hMem, hReplaced⟩)
      · rcases List.mem_cons.mp hSeg with hNew | hOld
        · exact Or.inr (Or.inl hNew)
        · exact Or.inl hOld
      · exact Or.inl hSeg
      · rcases List.mem_cons.mp hSeg with hReplaced | hRest
        · exact Or.inr (Or.inr ⟨s, List.mem_cons_self .., hSeq, hSmaller, hReplaced⟩)
        · exact Or.inl (List.mem_cons_of_mem _ hRest)
      · exact Or.inl hSeg
      · exact Or.inl hSeg

/-- What holds of the queue and of the new packet, and does not depend on the
block, holds after the walk. -/
theorem insertSegment_forall {P : Segment → Prop} {hdr : TcpHdr} {data : Payload}
    {queue : List Segment} (hQueue : ∀ s ∈ queue, P s)
    (hNew : P (Segment.ofPayload hdr.seq hdr.psh data))
    (hBlock : ∀ s, P s → ∀ h, P (s.replaceData data h)) :
    ∀ s ∈ insertSegment hdr data queue, P s := by
  intro s hS
  rcases insertSegment_mem hS with hOld | rfl | ⟨old, hMem, -, hSmaller, rfl⟩
  · exact hQueue s hOld
  · exact hNew
  · exact hBlock old (hQueue old hMem) hSmaller

/-- `queue_tcp`. -/
def queueTcp (hdr : TcpHdr) (data : Payload) (c : Cell) : Cell :=
  if compareU32 hdr.seq c.tcp.remoteSeq < 0 then c -- already forwarded
  else c.setForward (insertSegment hdr data c.tcp.forward)

/-- `get_send_window`. -/
def getSendWindow (cur : TcpSession) : U32 :=
  let behind := if compareU32 cur.acked cur.localSeq ≤ 0 then cur.localSeq - cur.acked else cur.acked
  if behind < cur.sendWindow then cur.sendWindow - behind else 0

/-- `get_receive_buffer`, with the session in which its calls are recorded. -/
def getReceiveBuffer (K : Kernel) (c : Cell) : Cell × Int :=
  if c.socket < 0 then (c, 0)
  else
    let sndbuf := K.sndbuf c.calls
    let unsent := K.outq c.calls
    let sendbuf := if sndbuf = 0 then 16384 else sndbuf -- safe default
    (c.call (.buffer sndbuf unsent),
      if unsent < sendbuf.tdiv 2 then sendbuf.tdiv 2 - unsent else 0)

/-- The queued bytes still to be sent, as the `uint32_t` sum of the source. -/
def toForward (queue : List Segment) : U32 :=
  (queue.map fun s => BitVec.ofNat 32 s.unsent).sum

/-- `get_receive_window`. -/
def getReceiveWindow (K : Kernel) (c : Cell) : Cell × U32 :=
  let buffer := getReceiveBuffer K c
  let window : U32 := BitVec.ofInt 32 buffer.2
  let scale := c.tcp.recvScale.toNat
  let max : U32 := 0xFFFF#32 <<< scale
  let window := if max < window then max else window
  let forward := toForward c.tcp.forward
  let window := if forward < window then window - forward else 0
  (buffer.1, if window >>> scale = 0 then 0 else window)

/-- Reading the buffer sizes is recorded and changes nothing else. -/
theorem getReceiveBuffer_cases (K : Kernel) (c : Cell) :
    (getReceiveBuffer K c).1 = c ∨
      (getReceiveBuffer K c).1 = c.call (.buffer (K.sndbuf c.calls) (K.outq c.calls)) := by
  unfold getReceiveBuffer
  split_ifs
  · exact Or.inl rfl
  · exact Or.inr rfl

@[simp] theorem getReceiveWindow_fst (K : Kernel) (c : Cell) :
    (getReceiveWindow K c).1 = (getReceiveBuffer K c).1 := rfl

@[simp] theorem getReceiveBuffer_tcp (K : Kernel) (c : Cell) :
    (getReceiveBuffer K c).1.tcp = c.tcp := by
  rcases getReceiveBuffer_cases K c with h | h <;> simp [h]

@[simp] theorem getReceiveBuffer_socket (K : Kernel) (c : Cell) :
    (getReceiveBuffer K c).1.socket = c.socket := by
  rcases getReceiveBuffer_cases K c with h | h <;> simp [h]

end Tun2Http
