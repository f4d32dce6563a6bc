import Tun2Http.Machine.Pointers
import Tun2Http.Native.TcpRun

/-! `tcp.c` on the heap: what `queue_tcp`, the forward loop, the loops that only look at
the queue, a SYN with data and `clear_tcp_data` do to the blocks of `struct segment` and to
those of their data. What `malloc` returns is an argument. -/
namespace Tun2Http

open Machine

/-- The fields of a `struct segment`, but for `next`. `data` is an address. -/
structure SegmentFields where
  seq : U32
  len : Nat
  sent : Nat
  psh : Bool
  data : Nat

/-- A block that `malloc` has returned: a `struct segment`, or the data of one. -/
inductive Chunk where
  | segment (fields : SegmentFields)
  | bytes (data : List UInt8)

/-- The head of a queue, and the heap. -/
abbrev QueueHeap := Option Nat × Heap Chunk

/-- Reads a `struct segment`, and its `next`. -/
def loadSegment (heap : Heap Chunk) (address : Nat) : Except Fault (SegmentFields × Option Nat) := do
  let node ← heap.load address
  match node.value with
  | .segment fields => .ok (fields, node.next)
  | .bytes _ => .error .access

/-- Reads the block with the data of a segment. -/
def loadBlock (heap : Heap Chunk) (address : Nat) : Except Fault (List UInt8) := do
  let node ← heap.load address
  match node.value with
  | .segment _ => .error .access
  | .bytes data => .ok data

/-- `malloc` and the fields of a new segment, then `malloc` and `memcpy` of its data. -/
def newSegment (hdr : TcpHdr) (data : Payload) (n d : Nat) (next : Option Nat) (heap : Heap Chunk) :
    Except Fault (Heap Chunk) := do
  let heap ← heap.allocate n ⟨.segment ⟨hdr.seq, data.val.length, 0, hdr.psh, d⟩, next⟩
  heap.allocate d ⟨.bytes data.val, none⟩

/-- The test of the walk of `queue_tcp`. -/
def Chunk.before (seq : U32) : Chunk → Bool
  | segment fields => decide (compareU32 fields.seq seq < 0)
  | bytes _ => false

/-- `queue_tcp`, with the numbers that it looks at. -/
def queueTcpHeap (turns : Nat) (hdr : TcpHdr) (data : Payload) (remoteSeq : U32) (n d : Nat)
    (queue : QueueHeap) : Except Fault QueueHeap :=
  if compareU32 hdr.seq remoteSeq < 0 then .ok queue -- already forwarded
  else do
    let (forward, heap) := queue
    let insert := fun (p s : Option Nat) => do
      let heap ← newSegment hdr data n d s heap
      heap.relink forward p (some n)
    let (p, s) ← heap.walk (Chunk.before hdr.seq) turns none forward
    match s with
    | none => insert p none
    | some address =>
        let (fields, next) ← loadSegment heap address
        if compareU32 fields.seq hdr.seq > 0 then insert p (some address)
        else if fields.seq = hdr.seq then
          if fields.len = data.val.length then .ok (forward, heap) -- segment already queued
          else if fields.len < data.val.length then do -- segment smaller
            let heap ← heap.release fields.data
            let heap ← heap.allocate d ⟨.bytes data.val, none⟩
            let heap ← heap.write address ⟨.segment { fields with data := d }, next⟩
            .ok (forward, heap)
          else .ok (forward, heap) -- segment larger
        else .ok (forward, heap)

/-- `forward` is there, and is next, and the buffer has room for it. -/
def testHeap (remoteSeq bufferSize : U32) (queue : QueueHeap) : Except Fault Bool :=
  match queue.1 with
  | none => .ok false
  | some p => do
      let (fields, _) ← loadSegment queue.2 p
      .ok (decide (fields.seq + BitVec.ofNat 32 fields.sent = remoteSeq ∧
        BitVec.ofNat 32 (fields.len - fields.sent) < bufferSize))

/-- The memory from `data + sent` on: the block, and what is `behind` it. -/
def blockMemory (data : List UInt8) (sent : Nat) (behind : Nat → UInt8) : Memory := fun offset =>
  if h : sent + offset < data.length then data[sent + offset] else behind (sent + offset - data.length)

/-- What is passed to `send()`. On port 80 `patch_http_url` looks at it before, which may
look behind the block. A last copy of negative length is one of nearly 2^32 bytes, and does. -/
def requestHeap (port : U16) (behind : Nat → UInt8) (data : List UInt8) (len sent : Nat) :
    Except Fault (List UInt8) :=
  let rest := (data.drop sent).take (len - sent)
  if data.length < len then .error .access
  else if port = 80 then
    let mem := blockMemory data sent behind
    let patched := patchHttpUrl (len - sent)
    if (patched.reads mem).all (· < data.length - sent) then .ok ((patched.value mem).getD rest)
    else .error .access
  else .ok rest

/-- A turn of the forward loop on the head: it passes `request` to `send()`, and counts
`count` bytes as sent. -/
def sendHeap (port : U16) (behind : Nat → UInt8) (request : List UInt8) (count : Nat) (queue : QueueHeap) :
    Except Fault QueueHeap := do
  let (forward, heap) := queue
  match forward with
  | none => .error .access
  | some p =>
      let (fields, next) ← loadSegment heap p
      let data ← loadBlock heap fields.data
      let found ← requestHeap port behind data fields.len fields.sent
      expect request found
      let fields := { fields with sent := fields.sent + count }
      if fields.len = fields.sent then do
        let heap ← heap.release fields.data
        let heap ← heap.release p
        .ok (next, heap)
      else do
        let heap ← heap.write p ⟨.segment fields, next⟩
        .ok (forward, heap)

/-- The data of a SYN, which begins the queue of its session. -/
def synHeap (hdr : TcpHdr) (data : Payload) (n d : Nat) (heap : Heap Chunk) : Except Fault QueueHeap :=
  if data.val ≠ [] then do
    let heap ← newSegment hdr data n d none heap
    .ok (some n, heap)
  else .ok (none, heap)

/-- `clear_tcp_data`. -/
def clearTcpData : Nat → QueueHeap → Except Fault (Heap Chunk)
  | 0, _ => .error .turns
  | _ + 1, (none, heap) => .ok heap
  | turns + 1, (some p, heap) => do
      let (fields, next) ← loadSegment heap p
      let heap ← heap.release fields.data
      let heap ← heap.release p
      clearTcpData turns (next, heap)

/-- The loop of `get_receive_window` over the queue. -/
def toForwardHeap (heap : Heap Chunk) : Nat → Option Nat → Except Fault U32
  | 0, _ => .error .turns
  | _ + 1, none => .ok 0
  | turns + 1, some q => do
      let (fields, next) ← loadSegment heap q
      let later ← toForwardHeap heap turns next
      .ok (BitVec.ofNat 32 (fields.len - fields.sent) + later)

/-! What a step of a session does to its queue. -/

/-- What a step does with the queue, and what it finds there: `queue_tcp` with what it looks
at, the comparison of the head with what is next and with the room in the buffer, a turn of
the forward loop, and a loop that adds up what is unsent. -/
inductive ForwardOp where
  | queue (hdr : TcpHdr) (data : Payload) (remoteSeq : U32)
  | test (remoteSeq bufferSize : U32) (passes : Bool)
  | send (port : U16) (behind : Nat → UInt8) (request : List UInt8) (count : Nat)
  | total (sum : U32)

/-- The comparison on the list. -/
def headPasses (remoteSeq bufferSize : U32) : List Segment → Bool
  | [] => false
  | seg :: _ => decide (seg.seq + BitVec.ofNat 32 seg.sent = remoteSeq ∧
      BitVec.ofNat 32 seg.unsent < bufferSize)

/-- What is passed to `send()` of a segment. -/
def segmentRequest (port : U16) (behind : Nat → UInt8) (seg : Segment) : List UInt8 :=
  if port = 80 then
    ((patchHttpUrl seg.unsent).value (blockMemory seg.data seg.sent behind)).getD seg.rest
  else seg.rest

namespace ForwardOp

/-- On the list of the segments. -/
def apply (queue : List Segment) : ForwardOp → List Segment
  | .queue hdr data remoteSeq =>
      if compareU32 hdr.seq remoteSeq < 0 then queue else insertSegment hdr data queue
  | send _ _ _ count => match queue with
      | [] => []
      | seg :: rest =>
          if h : count ≤ seg.unsent then
            if count = seg.unsent then rest else seg.advance count h :: rest
          else seg :: rest
  | _ => queue

/-- On the heap, where it has to find the same. -/
def onHeap (turns n d : Nat) (queue : QueueHeap) : ForwardOp → Except Fault QueueHeap
  | .queue hdr data remoteSeq => queueTcpHeap turns hdr data remoteSeq n d queue
  | test remoteSeq bufferSize passes => do
      let found ← testHeap remoteSeq bufferSize queue
      expect passes found
      .ok queue
  | send port behind request count => sendHeap port behind request count queue
  | total sum => do
      let found ← toForwardHeap queue.2 turns queue.1
      expect sum found
      .ok queue

/-- What it finds is there in the list, and the head has so many bytes. -/
def Fits (queue : List Segment) : ForwardOp → Prop
  | .queue _ _ _ => True
  | test remoteSeq bufferSize passes => headPasses remoteSeq bufferSize queue = passes
  | send port behind request count => ∃ seg rest, queue = seg :: rest ∧ count ≤ seg.unsent ∧
      segmentRequest port behind seg = request
  | total sum => toForward queue = sum

/-- `patch_http_url` stays in the block of the head. -/
def Inside (queue : List Segment) : ForwardOp → Prop
  | send port behind _ _ => ∀ seg rest, queue = seg :: rest → port = 80 →
      (patchHttpUrl seg.unsent).Within (seg.data.length - seg.sent) (blockMemory seg.data seg.sent behind)
  | _ => True

end ForwardOp

/-- The session as it is where a segment of it reaches `queue_tcp`. -/
def queuedIn (K : Kernel) (hdr : TcpHdr) (data : Payload) (c : Cell) : Option Cell :=
  if hdr.urg then none
  else
    let rport := c.tcp.dest
    let c := if rport = 443 then connectPhase K data c else c
    if rport = 443 ∧ c.tcp.connectSent ≠ .established then some c
    else if c.tcp.state = .closing ∨ c.tcp.state = .close then none
    else
      let c := refresh K hdr c
      if data.val ≠ [] ∧ ¬ c.socket < 0 ∧ c.tcp.state ≠ .closeWait then some c else none

/-- The turns of the forward loop. -/
def sendOps (K : Kernel) : List Segment → U32 → Cell → List ForwardOp
  | [], bufferSize, c => [.test c.tcp.remoteSeq bufferSize false]
  | seg :: rest, bufferSize, c =>
      if canForward c seg bufferSize then
        .test c.tcp.remoteSeq bufferSize true ::
          .send c.tcp.dest (K.behind c.calls) (forwardRequest K c seg) (counted K seg c) ::
            match forwardTurn K seg rest c with
            | (_, .stop _) => []
            | (c, .popped count) => sendOps K rest (bufferSize - BitVec.ofNat 32 count) c
      else [.test c.tcp.remoteSeq bufferSize false]

/-- What `check_tcp_socket` does with the queue on a writable socket. What is left is
written to the log. -/
def forwardDataOps (K : Kernel) (c : Cell) : List ForwardOp :=
  let buffer := getReceiveBuffer K c
  sendOps K buffer.1.tcp.forward (BitVec.ofInt 32 buffer.2) buffer.1 ++
    [.total (toForward (forwardData K c).1.tcp.forward)]

/-- What `monitor_tcp_session` looks at. -/
def monitorOps (K : Kernel) (c : Cell) : List ForwardOp :=
  if c.tcp.state = .established ∨ c.tcp.state = .closeWait then
    let c := if 0 < getSendWindow c.tcp then c else keepAliveProbe K c
    let bufferSize := BitVec.ofInt 32 (getReceiveBuffer K c).2
    [.test c.tcp.remoteSeq bufferSize (headPasses c.tcp.remoteSeq bufferSize c.tcp.forward)]
  else []

/-- What a step does with the queue. -/
def forwardOps (c : Cell) (input : Kernel × Input) : List ForwardOp :=
  match input.2 with
  | .segment hdr data => match queuedIn input.1 hdr data c with
      | some d => [.queue hdr data d.tcp.remoteSeq]
      | none => []
  | .event ev =>
      if 0 ≤ c.socket ∧ ¬ev.epollerr ∧ c.tcp.state ≠ .listen then
        if ev.epollout then
          forwardDataOps input.1 c ++ [.total (toForward (forwardData input.1 c).1.tcp.forward)]
        else [.total (toForward c.tcp.forward)]
      else []
  | .monitor => if 0 ≤ c.socket then monitorOps input.1 c else []
  | _ => []

/-- A step of a session on the heap; of a new segment `malloc` returns `n` and `d`. -/
def stepHeap (turns n d : Nat) (c : Cell) (input : Kernel × Input) (queue : QueueHeap) :
    Except Fault QueueHeap :=
  (forwardOps c input).foldlM (ForwardOp.onHeap turns n d) queue

/-- In some turn of the step `patch_http_url` looks behind the block. -/
def Overreads (c : Cell) (input : Kernel × Input) : Prop :=
  ¬ Along ForwardOp.apply ForwardOp.Inside c.tcp.forward (forwardOps c input)

end Tun2Http
