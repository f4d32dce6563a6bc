import Tun2Http.Native.Session

/-! The set-up of a session in `handle_icmp`, `handle_udp` and `handle_tcp`, with
what it takes from the system: a node of the list, blocks for the data of a SYN,
and a descriptor. -/
namespace Tun2Http

/-- A block of the heap: a `struct ng_session`, a `struct segment`, or the data of one. -/
inductive HeapBlock where
  | session
  | segment (seq : U32) (len : Nat) (psh : Bool)
  | data (bytes : List UInt8)
  deriving DecidableEq

/-- The open descriptors of the process, and its blocks, the newest first. -/
structure Holdings where
  descriptors : List Int
  heap : List HeapBlock
  deriving DecidableEq

namespace Holdings

def malloc (h : Holdings) (block : HeapBlock) : Holdings := { h with heap := block :: h.heap }

def free (h : Holdings) (block : HeapBlock) : Holdings := { h with heap := h.heap.erase block }

/-- `socket()` where it succeeds. -/
def socket (h : Holdings) (descriptor : Int) : Holdings :=
  { h with descriptors := descriptor :: h.descriptors }

/-- `open_icmp_socket`. -/
def openIcmpSocket (K : Kernel) (h : Holdings) : Holdings × Int :=
  let sock := K.socket 0
  if sock < 0 then (h, -1)
  else
    let h := h.socket sock
    if ¬K.protect 0 then (h, -1) else (h, sock)

/-- `open_udp_socket`. A failing `setsockopt` is only logged. -/
def openUdpSocket (K : Kernel) (h : Holdings) : Holdings × Int := openIcmpSocket K h

/-- `open_tcp_socket`. -/
def openTcpSocket (K : Kernel) (h : Holdings) : Holdings × Int :=
  let sock := K.socket 0
  if sock < 0 then (h, -1)
  else
    let h := h.socket sock
    if ¬K.protect 0 then (h, -1)
    else if ¬K.fcntl 0 then (h, -1)
    else match K.connect 0 with
      | some errno => if errno ≠ einprogress then (h, -1) else (h, sock)
      | none => (h, sock)

/-- A new session: its node, what is queued for it, and its socket. Where that
cannot be opened the node is freed. -/
def setUp (h : Holdings) (queued : List HeapBlock) (opens : Holdings → Holdings × Int) :
    Holdings × Int :=
  let opened := opens (queued.foldl malloc (h.malloc .session))
  if opened.2 < 0 then (opened.1.free .session, opened.2) else opened

end Holdings

/-- What `handle_tcp` queues of a SYN. -/
def synBlocks (hdr : TcpHdr) (data : Payload) : List HeapBlock :=
  if data.val ≠ [] then [.segment hdr.seq data.val.length hdr.psh, .data data.val] else []

/-- The session that a packet asks for. -/
inductive Attempt where
  | icmp
  | udp
  | tcp (hdr : TcpHdr) (data : Payload)

namespace Attempt

/-- What is queued for it before there is a socket. -/
def queued : Attempt → List HeapBlock
  | icmp | udp => []
  | tcp hdr data => synBlocks hdr data

/-- Its set-up, up to where the socket is open or the attempt is given up. -/
def setUp (K : Kernel) (h : Holdings) (attempt : Attempt) : Holdings × Int :=
  h.setUp attempt.queued <| match attempt with
    | icmp => Holdings.openIcmpSocket K
    | udp => Holdings.openUdpSocket K
    | tcp _ _ => Holdings.openTcpSocket K

end Attempt

end Tun2Http
