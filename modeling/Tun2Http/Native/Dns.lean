import Tun2Http.Machine.Buffer
import Tun2Http.Machine.Loop
import Tun2Http.Native.Util

/-! `dns.c`: names in DNS messages, and the two functions that walk through a
message with them. The memory is the message, and what lies behind it. -/
namespace Tun2Http

open Machine

/-- `DNS_QNAME_MAX`. -/
def dnsQnameMax : Nat := 255

/-- The local variables of `get_qname` at the head of its loop. -/
structure QnameState where
  c : Bool
  off : Nat
  ptr : Nat
  len : UInt8
  noff : Nat
  qname : Buffer

/-- One turn of the loop of `get_qname`. `off` and `ptr` are `uint16_t`, and
`noff` is `uint8_t`. -/
def qnameTurn (datalen : Nat) (s : QnameState) : Reader (LoopTurn QnameState QnameState) :=
  if s.len = 0 then pure (.leave s)
  else if s.len &&& 0xC0 ≠ 0 then do
    let low ← Reader.byte (s.ptr + 1)
    let ptr := (s.len &&& 0x3F).toNat * 256 + low.toNat
    let len ← Reader.byte ptr
    let off := if s.c then s.off else (s.off + 2) % 2 ^ 16
    pure (.next { s with c := true, off := off, ptr := ptr, len := len })
  else if s.ptr + 1 + s.len.toNat ≤ datalen ∧ s.noff + s.len.toNat ≤ dnsQnameMax then do
    let label ← readBytes (s.ptr + 1) s.len.toNat
    let qname := (s.qname.copy s.noff label).put (s.noff + s.len.toNat) 46 -- '.'
    let noff := (s.noff + (s.len.toNat + 1)) % 2 ^ 8
    let ptr := (s.ptr + (s.len.toNat + 1)) % 2 ^ 16
    let len ← Reader.byte ptr
    pure (.next { s with ptr := ptr, len := len, noff := noff, qname := qname })
  else pure (.leave s)

/-- What `get_qname` makes of the loop's last state. -/
def qnameResult (s : QnameState) : Int × Buffer :=
  let ptr : Nat := (s.ptr + 1) % 2 ^ 16
  if s.len ≠ 0 ∨ s.noff = 0 then (-1, s.qname)
  else ((if s.c then s.off else ptr : Nat), s.qname.put (s.noff - 1) 0)

/-- `get_qname`: the value returned and the buffer `qname`, or `none` where
the loop has not ended within `turns` turns. -/
def getQname (turns datalen : Nat) (off : U16) (qname : Buffer) : Reader (Option (Int × Buffer)) := do
  let len ← Reader.byte off.toNat
  let ended ← loop (qnameTurn datalen) turns
    { c := false, off := off.toNat, ptr := off.toNat, len := len, noff := 0, qname := qname.put 0 0 }
  pure (ended.map qnameResult)

/-- `dns->qr`. -/
def dnsQr (flags : UInt8) : Nat := flags.toNat / 128

/-- `dns->opcode`. -/
def dnsOpcode (flags : UInt8) : Nat := flags.toNat / 8 % 16

/-- `sizeof(struct dns_header)`. -/
def dnsHeaderLength : Nat := 12

/-- `get_dns_query` behind its check of the header. -/
def queryQuestion (turns datalen : Nat) (qname : Buffer) :
    Reader (Option (Option (Nat × Nat) × Buffer)) := do
  let named ← getQname turns datalen (BitVec.ofNat 16 dnsHeaderLength) qname
  match named with
  | none => pure none
  | some (off, qname) =>
      if 0 < off ∧ off + 4 = datalen then do
        let qtype ← be16 off.toNat
        let qclass ← be16 (off.toNat + 2)
        pure (some (some (qtype, qclass), qname))
      else pure (some (none, qname))

/-- `get_dns_query`: type and class of the question, or `none` where it
returns `-1`; and the buffer `qname`. -/
def getDnsQuery (turns datalen : Nat) (qname : Buffer) :
    Reader (Option (Option (Nat × Nat) × Buffer)) :=
  if datalen < dnsHeaderLength + 1 then pure (some (none, qname))
  else do
    let qcount ← be16 4
    let flags ← Reader.byte 2
    if dnsQr flags = 0 ∧ dnsOpcode flags = 0 ∧ 0 < qcount then queryQuestion turns datalen qname
    else pure (some (none, qname))

/-- `DNS_QCLASS_IN`, `DNS_QTYPE_A` and `DNS_QTYPE_AAAA`. -/
def dnsQclassIn : Nat := 1
def dnsQtypeA : Nat := 1
def dnsQtypeAaaa : Nat := 28

/-- What `inet_ntop` reads of the record data. -/
def rdataRead (qclass qtype : Nat) : Nat :=
  if qclass = dnsQclassIn ∧ qtype = dnsQtypeA then 4
  else if qclass = dnsQclassIn ∧ qtype = dnsQtypeAaaa then 16
  else 0

/-- What `parse_dns_response` does with an answer whose name ends at `off`: the
offset of the next answer, or `none` where it returns. What it finds goes to the log. -/
def parseRecord (datalen : Nat) (off : Int) : Reader (Option Int) :=
  if 0 < off ∧ off + 10 ≤ datalen then do
    let qtype ← be16 off.toNat
    let qclass ← be16 (off.toNat + 2)
    let _ttl ← be32 (off.toNat + 4)
    let rdlength ← be16 (off.toNat + 8)
    let off := off + 10
    if off + rdlength ≤ datalen then do
      let _rd ← readBytes off.toNat (rdataRead qclass qtype)
      pure (some (off + rdlength))
    else pure none
  else pure none

/-- The loop of `parse_dns_response` over the answers that are left, with the
buffer `name`. -/
def parseAnswers (turns datalen : Nat) : Nat → Int → Buffer → Reader (Option Buffer)
  | 0, _, name => pure (some name)
  | count + 1, off, name => do
      let named ← getQname turns datalen (BitVec.ofInt 16 off) name
      match named with
      | none => pure none
      | some (off, name) => do
          let next ← parseRecord datalen off
          match next with
          | some off => parseAnswers turns datalen count off name
          | none => pure (some name)

/-- What `parse_dns_response` does with a question whose name ends at `off`: the
offset of the first answer, or `none` where it returns. -/
def parseQuestion (datalen : Nat) (off : Int) : Reader (Option Int) :=
  if 0 < off ∧ off + 4 ≤ datalen then do
    let _qtype ← be16 off.toNat
    let _qclass ← be16 (off.toNat + 2)
    pure (some (off + 4))
  else pure none

/-- `parse_dns_response` behind its check of the header. -/
def parseRecords (turns datalen acount : Nat) (name : Buffer) : Reader (Option Buffer) := do
  let named ← getQname turns datalen (BitVec.ofNat 16 dnsHeaderLength) name
  match named with
  | none => pure none
  | some (off, name) => do
      let answers ← parseQuestion datalen off
      match answers with
      | some off => parseAnswers turns datalen acount off name
      | none => pure (some name)

/-- `parse_dns_response`: the buffer `name` when it returns, or `none` where a
name has not ended within `turns` turns. -/
def parseDnsResponse (turns datalen : Nat) (name : Buffer) : Reader (Option Buffer) :=
  if datalen < dnsHeaderLength + 1 then pure (some name)
  else do
    let qcount ← be16 4
    let acount ← be16 6
    let flags ← Reader.byte 2
    if dnsQr flags = 1 ∧ dnsOpcode flags = 0 ∧ 0 < qcount ∧ 0 < acount then
      parseRecords turns datalen acount name
    else pure (some name)

/-- As many turns as `c`, `ptr` and `noff` have values. A name that has not ended by then
never does. -/
def qnameTurns : Nat := 2 * 2 ^ 16 * 2 ^ 8

/-- `get_dns_query` returns. What it returns goes to the log. -/
def dnsQueryReturns (mem : Memory) (datalen : Nat) : Bool :=
  ((getDnsQuery qnameTurns datalen (.fresh fun _ => 0)).value mem).isSome

/-- `parse_dns_response` returns. -/
def dnsResponseReturns (mem : Memory) (datalen : Nat) : Bool :=
  ((parseDnsResponse qnameTurns datalen (.fresh fun _ => 0)).value mem).isSome

end Tun2Http
