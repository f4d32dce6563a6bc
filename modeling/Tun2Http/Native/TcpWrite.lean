import Tun2Http.Native.Util

/-! `tcp.c`: building TCP segments for the tun and the `write_*` helpers,
which close the session when the tun does not take the whole packet. -/
namespace Tun2Http

/-- `get_mtu`. -/
def getMtu : Nat := 10000

/-- `get_default_mss`. -/
def getDefaultMss (version : Nat) : U16 :=
  if version = 4 then BitVec.ofNat 16 (getMtu - 20 - 20) else BitVec.ofNat 16 (getMtu - 40 - 20)

/-- The member of the address union that `version` selects. -/
def addressOf (version : Nat) (address : List UInt8) : List UInt8 :=
  if version = 4 then address.take 4 else address.take 16

/-- The options of a SYN. The MSS is stored in host order. -/
def synOptions (cur : TcpSession) : List UInt8 :=
  let mss := (getDefaultMss cur.version).toNat
  [2, 4, (mss % 256).toUInt8, (mss / 256).toUInt8, 3, 3, cur.recvScale.toNat.toUInt8, 0]

/-- The packet that `write_tcp` builds. -/
def buildTcp (cur : TcpSession) (payload : List UInt8) (syn ack fin rst : Bool) : TcpPacket where
  version := cur.version
  saddr := addressOf cur.version cur.daddr
  daddr := addressOf cur.version cur.saddr
  source := cur.dest
  dest := cur.source
  seq := cur.localSeq
  ackSeq := if ack then cur.remoteSeq else 0
  window := (cur.recvWindow >>> cur.recvScale.toNat).setWidth 16
  syn := syn
  ack := ack
  fin := fin
  rst := rst
  options := if syn then synOptions cur else []
  payload := payload

/-- `write_tcp`. The flag tells whether the whole packet was written. -/
def writeTcp (K : Kernel) (c : Cell) (payload : List UInt8) (syn ack fin rst : Bool) :
    Cell × Bool :=
  let whole := K.tunWrite c.calls
  (c.call (.tun (buildTcp c.tcp payload syn ack fin rst) whole), whole)

/-- The common body of the helpers below. -/
def writeOrClose (K : Kernel) (c : Cell) (payload : List UInt8) (syn fin : Bool) : Cell × Bool :=
  let result := writeTcp K c payload syn true fin false
  if result.2 then (result.1, true) else (result.1.setState .closing, false)

def writeSynAck (K : Kernel) (c : Cell) : Cell × Bool := writeOrClose K c [] true false

def writeAck (K : Kernel) (c : Cell) : Cell × Bool := writeOrClose K c [] false false

def writeData (K : Kernel) (c : Cell) (buffer : List UInt8) : Cell × Bool :=
  writeOrClose K c buffer false false

def writeFinAck (K : Kernel) (c : Cell) : Cell × Bool := writeOrClose K c [] false true

/-- `write_rst`. In `TCP_LISTEN` the reset also acknowledges the SYN. -/
def writeRst (K : Kernel) (c : Cell) : Cell :=
  let ack := decide (c.tcp.state = .listen)
  let c := if ack then c.countSyn else c
  let c := (writeTcp K c [] false ack false true).1
  if c.tcp.state ≠ .close then c.setState .closing else c

/-- A reset outside `TCP_LISTEN` changes nothing but the state and the log. -/
theorem writeRst_of_ne_listen (K : Kernel) (c : Cell) (hState : c.tcp.state ≠ .listen) :
    writeRst K c =
      if c.tcp.state = .close then
        c.call (.tun (buildTcp c.tcp [] false false false true) (K.tunWrite c.calls))
      else
        (c.call (.tun (buildTcp c.tcp [] false false false true) (K.tunWrite c.calls))).setState
          .closing := by
  simp only [writeRst, writeTcp, hState, decide_false, Bool.false_eq_true, if_false, Cell.call_tcp]
  split_ifs <;> simp_all

/-- A reset in `TCP_LISTEN` counts the SYN first. -/
theorem writeRst_of_listen (K : Kernel) (c : Cell) (hState : c.tcp.state = .listen) :
    writeRst K c =
      (c.countSyn.call (.tun (buildTcp c.countSyn.tcp [] false true false true)
        (K.tunWrite c.countSyn.calls))).setState .closing := by
  simp [writeRst, writeTcp, hState]

/-- After a reset the session is closed or closing. -/
theorem writeRst_state (K : Kernel) (c : Cell) :
    (writeRst K c).tcp.state = if c.tcp.state = .close then .close else .closing := by
  by_cases hState : c.tcp.state = .listen
  · simp [writeRst_of_listen K c hState, hState]
  · rw [writeRst_of_ne_listen K c hState]
    split_ifs with hClose <;> simp [hClose]

end Tun2Http
