import Mathlib.Logic.Function.Basic
import Tun2Http.Native.Session
import Tun2Http.Native.TcpHeap

/-! `handle_events` on the heap: the queues of all sessions, from the packets that open
them to the sweep and to `clear`, which free them. The loop itself is the one that has its
queues as lists. Whatever it finds in a list the heap has to say too, or the step is a fault. -/
namespace Tun2Http

open Machine

/-- The heap, and `s->tcp.forward` of the session at a pointer. -/
structure Blocks where
  heap : Heap Chunk
  forward : Nat → Option Nat

namespace Blocks

/-- Nothing is allocated. -/
def init : Blocks := ⟨fun _ => none, fun _ => none⟩

/-- A step of the TCP session at `pointer`. -/
def treat (turns n d pointer : Nat) (c : Cell) (input : Kernel × Input) (W : Blocks) :
    Except Fault Blocks := do
  let (forward, heap) ← stepHeap turns n d c input (W.forward pointer, W.heap)
  .ok ⟨heap, Function.update W.forward pointer forward⟩

/-- `clear_tcp_data` for the session at `pointer`. -/
def clear (turns : Nat) (W : Blocks) (pointer : Nat) : Except Fault Blocks := do
  let heap ← clearTcpData turns (W.forward pointer, W.heap)
  .ok { W with heap := heap }

/-- A SYN. Where there is no socket the session is freed, and its `forward` is forgotten;
else the queue is looked at for the window. -/
def openTcp (turns n d pointer : Nat) (K : Kernel) (info : SynInfo) (hdr : TcpHdr) (data : Payload)
    (W : Blocks) : Except Fault Blocks := do
  let (forward, heap) ← synHeap hdr data n d W.heap
  match newSession K info hdr data with
  | some c => do
      let (forward, heap) ← ForwardOp.onHeap turns n d (forward, heap) (.total (toForward c.tcp.forward))
      .ok ⟨heap, Function.update W.forward pointer forward⟩
  | none => .ok { W with heap := heap }

end Blocks

namespace EventLoop

/-- The SYN of no session that `handle_tcp` finds in a packet. -/
def synTcp (L : EventLoop) (pkt : Packet) (version payload : Nat) : Option (SynInfo × TcpHdr × Payload) :=
  match (Tun2Http.handleTcp L.context pkt.turns pkt.length version payload).value pkt.mem with
  | none => none -- URG
  | some span =>
      let hdr := (readTcpHdr payload).value pkt.mem
      match L.search (pkt.key ipprotoTcp version payload) with
      | some _ => none
      | none => if hdr.syn then (pkt.synInfo version payload).map (·, hdr, pkt.payload span) else none

/-- The SYN of no session in a packet. -/
def syn (L : EventLoop) (pkt : Packet) : Option (SynInfo × TcpHdr × Payload) :=
  match (Tun2Http.handleIp L.context pkt.turns pkt.length).value pkt.mem with
  | .handler version protocol payload =>
      if protocol = ipprotoIcmp ∨ protocol = ipprotoIcmpv6 then none
      else if protocol = ipprotoUdp then none
      else L.synTcp pkt version payload
  | _ => none

/-- The segment of a packet for a TCP session that exists. -/
def segmentTcp (L : EventLoop) (pkt : Packet) (version payload : Nat) :
    Option (Nat × Cell × TcpHdr × Payload) :=
  match (Tun2Http.handleTcp L.context pkt.turns pkt.length version payload).value pkt.mem with
  | none => none -- URG
  | some span => match L.search (pkt.key ipprotoTcp version payload) with
      | some ⟨pointer, .tcp c⟩ => some (pointer, c, (readTcpHdr payload).value pkt.mem, pkt.payload span)
      | _ => none

def segment (L : EventLoop) (pkt : Packet) : Option (Nat × Cell × TcpHdr × Payload) :=
  match (Tun2Http.handleIp L.context pkt.turns pkt.length).value pkt.mem with
  | .handler version protocol payload =>
      if protocol = ipprotoIcmp ∨ protocol = ipprotoIcmpv6 then none
      else if protocol = ipprotoUdp then none
      else L.segmentTcp pkt version payload
  | _ => none

/-- The TCP sessions of the list, with their pointers. -/
def tcpCells (L : EventLoop) : List (Nat × Cell) :=
  L.ngSession.filterMap fun s => match s.data with
    | .tcp c => some (s.pointer, c)
    | _ => none

/-- The TCP sessions that the sweep of a pass frees. -/
def sweptTcp (L : EventLoop) (kernels : Nat → Kernel) : List Nat :=
  let counted := L.pass kernels false
  counted.ngSession.filterMap fun s => match s.data with
    | .tcp c =>
        if (checkTcpSession (kernels s.pointer) counted.sessions counted.maxsessions c).2 then
          some s.pointer
        else none
    | _ => none

/-- The TCP sessions of the list. -/
def tcpPointers (L : EventLoop) : List Nat := L.tcpCells.map Prod.fst

attribute [local instance] decideRegistered

/-- `monitor_tcp_session` for the sessions one after the other. -/
def monitorBlocks (turns n d : Nat) (L : EventLoop) (kernels : Nat → Kernel) (W : Blocks) : Except Fault Blocks :=
  L.tcpCells.foldlM (fun W s => W.treat turns n d s.1 s.2 (kernels s.1, .monitor)) W

/-- A step of the loop on the heap. What `malloc` returns in it is `n`, and then `d`. -/
def stepBlocks (turns n d : Nat) (L : EventLoop) (W : Blocks) : LoopInput → Except Fault Blocks
  | .start _ _ _ => .ok W -- of those sessions only UDP sessions are freed
  | .pass kernels check => do
      let W ← L.monitorBlocks turns n d kernels W
      if check then (L.sweptTcp kernels).foldlM (Blocks.clear turns) W else .ok W
  | .packet K pkt => match L.segment pkt with
      | some (pointer, c, hdr, data) => W.treat turns n d pointer c (K, .segment hdr data)
      | none => match L.syn pkt with
          | some (info, hdr, data) => W.openTcp turns n d L.next K info hdr data
          | none => .ok W
  | .event K registration ev =>
      if registration ∈ L.epoll then
        match L.ngSession.find? (·.pointer = registration.2) with
        | some ⟨pointer, .tcp c⟩ => W.treat turns n d pointer c (K, .event ev)
        | _ => .ok W
      else .ok W
  | .clear => L.tcpPointers.foldlM (Blocks.clear turns) W

end EventLoop

/-- A step of the loop, with the heap, and with what `malloc` returns. -/
def stepMemory (turns : Nat) (S : EventLoop × Blocks) (input : LoopInput × Nat × Nat) :
    Except Fault (EventLoop × Blocks) := do
  let W ← S.1.stepBlocks turns input.2.1 input.2.2 S.2 input.1
  .ok (stepLoop S.1 input.1, W)

end Tun2Http
