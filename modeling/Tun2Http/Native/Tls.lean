import Tun2Http.Native.Util

/-! `tls.c`: the server name of a ClientHello. Each function returns the
name it stores in `hostname`, or `none` where it leaves `hostname` alone. -/
namespace Tun2Http

open Machine

def fqdnMax : Nat := 255

/-- `strncpy` and the terminator written behind: the C string that results. -/
def strncpy (src : Nat) : Nat → Reader (List UInt8)
  | 0 => pure []
  | count + 1 => do
      let first ← Reader.byte src
      if first = 0 then pure []
      else do
        let rest ← strncpy (src + 1) count
        pure (first :: rest)

/-- The loop of `parse_server_name_extension` over the name list. Every turn
moves `pos` on by three or more, so `dataLen` turns are enough. -/
def parseServerNames (data dataLen : Nat) : Nat → Nat → Reader (Option (List UInt8))
  | 0, _ => pure none
  | turns + 1, pos =>
      if pos + 3 < dataLen then do
        let len ← be16 (data + pos + 1)
        if pos + 3 + len > dataLen then pure none
        else do
          let nameType ← Reader.byte (data + pos)
          if nameType = 0x00 then do
            let name ← strncpy (data + pos + 3) (min len fqdnMax)
            pure (some name)
          else parseServerNames data dataLen turns (pos + 3 + len)
      else pure none

/-- `parse_server_name_extension`; the name list length is skipped. -/
def parseServerNameExtension (data dataLen : Nat) : Reader (Option (List UInt8)) :=
  parseServerNames data dataLen dataLen 2

/-- The loop of `parse_extensions`; every turn moves `pos` on by four or more. -/
def parseExtensionList (data dataLen : Nat) : Nat → Nat → Reader (Option (List UInt8))
  | 0, _ => pure none
  | turns + 1, pos =>
      if pos + 4 ≤ dataLen then do
        let len ← be16 (data + pos + 2)
        let kind ← be16 (data + pos)
        if kind = 0 then
          if pos + 4 + len > dataLen then pure none
          else parseServerNameExtension (data + pos + 4) len
        else parseExtensionList data dataLen turns (pos + 4 + len)
      else pure none

/-- `parse_extensions`. -/
def parseExtensions (data dataLen : Nat) : Reader (Option (List UInt8)) :=
  parseExtensionList data dataLen dataLen 0

/-- The part of `parse_tls_header` behind the record header: session id,
cipher suites, compression methods, extensions. -/
def parseClientHello (data dataLen : Nat) (versionMajor versionMinor : UInt8) :
    Reader (Option (List UInt8)) := do
  let pos := 5 + 38
  if pos + 1 > dataLen then pure none
  else do
    let sessionId ← Reader.byte (data + pos)
    let pos := pos + 1 + sessionId.toNat
    if pos + 2 > dataLen then pure none
    else do
      let cipherSuites ← be16 (data + pos)
      let pos := pos + 2 + cipherSuites
      if pos + 1 > dataLen then pure none
      else do
        let compression ← Reader.byte (data + pos)
        let pos := pos + 1 + compression.toNat
        if pos = dataLen ∧ versionMajor = 3 ∧ versionMinor = 0 then pure none
        else if pos + 2 > dataLen then pure none
        else do
          let len ← be16 (data + pos)
          let pos := pos + 2
          if pos + len > dataLen then pure none else parseExtensions (data + pos) len

/-- `parse_tls_header`. `char` is unsigned on the target. -/
def parseTlsHeader (data dataLen : Nat) : Reader (Option (List UInt8)) :=
  if dataLen < 5 then pure none
  else do
    let contentType ← Reader.byte data
    let sslType ← Reader.byte (data + 2)
    -- SSL 2.0 compatible Client Hello
    if contentType &&& 0x80 ≠ 0 ∧ sslType = 1 then pure none
    else if contentType ≠ 0x16 then pure none
    else do
      let versionMajor ← Reader.byte (data + 1)
      let versionMinor ← Reader.byte (data + 2)
      if versionMajor < 3 then pure none
      else do
        let recordLen ← be16 (data + 3)
        let len := recordLen + 5
        let dataLen := min dataLen len
        if dataLen < len then pure none
        else if 5 + 1 > dataLen then pure none
        else do
          let handshakeType ← Reader.byte (data + 5)
          if handshakeType ≠ 0x01 then pure none
          else parseClientHello data dataLen versionMajor versionMinor

end Tun2Http
