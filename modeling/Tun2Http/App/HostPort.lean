import Tun2Http.Native.Basic

/-! The proxy, from the text that is entered to the address of the socket: the text is
read by `parseAndSaveHostPort` of `MainActivity`, passed on by `startNative` of the
service, and copied by `jni_start` and by `handle_tcp`. -/
namespace Tun2Http

/-- A `String` of Java: its UTF-16 code units. -/
abbrev JavaString := List UInt16

def colon : UInt16 := 0x3a

def dot : UInt16 := 0x2e

namespace JavaString

/-- Parts that are empty are dropped from the end. -/
def dropTrailing : List JavaString → List JavaString
  | [] => []
  | part :: rest =>
      match dropTrailing rest with
      | [] => if part = [] then [] else [part]
      | later => part :: later

/-- `split`, by one character. -/
def split (separator : UInt16) (text : JavaString) : List JavaString :=
  if separator ∈ text then dropTrailing (text.splitOn separator) else [text]

/-- The zeros of the decimal digits of Unicode that are one code unit. -/
def digitZeros : List Nat :=
  [0x30, 0x660, 0x6f0, 0x7c0, 0x966, 0x9e6, 0xa66, 0xae6, 0xb66, 0xbe6, 0xc66, 0xce6, 0xd66, 0xde6,
    0xe50, 0xed0, 0xf20, 0x1040, 0x1090, 0x17e0, 0x1810, 0x1946, 0x19d0, 0x1a80, 0x1a90, 0x1b50,
    0x1bb0, 0x1c40, 0x1c50, 0xa620, 0xa8d0, 0xa900, 0xa9d0, 0xa9f0, 0xaa50, 0xabf0, 0xff10]

/-- `Character.digit(ch, 10)`. -/
def characterDigit (ch : UInt16) : Option Nat :=
  (digitZeros.find? fun first => first ≤ ch.toNat ∧ ch.toNat < first + 10).map (ch.toNat - ·)

/-- The number that digits write, where there is one at least. -/
def parseDigits (text : JavaString) : Option Nat :=
  if text = [] then none
  else text.foldlM (fun value ch => (characterDigit ch).map (10 * value + ·)) 0

/-- `Integer.parseInt`, where `none` is the exception. -/
def parseInt : JavaString → Option Int
  | [] => none
  | first :: rest =>
      if first = 0x2d then
        (parseDigits rest).bind fun value => if value ≤ 2 ^ 31 then some (-value) else none
      else
        (parseDigits (if first = 0x2b then rest else first :: rest)).bind fun value =>
          if value < 2 ^ 31 then some value else none

/-- A code unit in the modified UTF-8 of JNI, which has no zero byte and writes the halves
of a surrogate pair each for itself. -/
def encodeUnit (ch : UInt16) : List UInt8 :=
  let code := ch.toNat
  if 0 < code ∧ code < 0x80 then [UInt8.ofNat code]
  else if code < 0x800 then [UInt8.ofNat (0xc0 + code / 0x40), UInt8.ofNat (0x80 + code % 0x40)]
  else [UInt8.ofNat (0xe0 + code / 0x1000), UInt8.ofNat (0x80 + code / 0x40 % 0x40),
    UInt8.ofNat (0x80 + code % 0x40)]

/-- `GetStringUTFChars`, without the zero byte at its end. -/
def getStringUTFChars (text : JavaString) : List UInt8 := text.flatMap encodeUnit

end JavaString

open JavaString

/-- The settings `PREF_PROXY_HOST` and `PREF_PROXY_PORT`. -/
structure ProxySettings where
  host : JavaString
  port : Int
  deriving DecidableEq

/-- What becomes of a text: its settings are saved and the result is true, or the field
shows `enter_host` and it is false, or an exception goes on to the caller. -/
inductive Entered where
  | saved (settings : ProxySettings)
  | refused
  | thrown
  deriving DecidableEq

/-- `parseAndSaveHostPort`. The text `:` has no part at all, and reading the first one throws. -/
def parseAndSaveHostPort (hostPort : JavaString) : Entered :=
  if hostPort = [] then .refused
  else
    let parts := split colon hostPort
    let port := match parts[1]? with
      | some text => parseInt text
      | none => some 0
    match port with
    | none => .refused
    | some port =>
        match parts[0]? with
        | none => .thrown
        | some host => if (split dot host).length ≠ 4 then .refused else .saved ⟨host, port⟩

/-- `loadHostPort`: the text that the field shows at first. -/
def loadHostPort (settings : ProxySettings) : Option JavaString :=
  if settings.host = [] then none
  else if settings.port = 80 then some settings.host
  else some (settings.host ++ colon :: (toString settings.port).toList.map fun ch => UInt16.ofNat ch.toNat)

/-- `startNative`: the arguments of `jni_start`, where it is called. -/
def startNative (settings : ProxySettings) : Option (JavaString × Int) :=
  if settings.port ≠ 0 ∧ settings.host ≠ [] then some (settings.host, settings.port) else none

/-- `strcpy` to an array of `size` bytes; `none` where it writes beyond it. -/
def strcpy (size : Nat) (string : List UInt8) : Option (List UInt8) :=
  if string.length < size then some string else none

/-- The proxy in `struct arguments`. -/
structure ProxyArguments where
  proxyIp : List UInt8
  proxyPort : Int
  deriving DecidableEq

/-- `jni_start`. -/
def jniStart (proxyIp : JavaString) (proxyPort : Int) : Option ProxyArguments :=
  (strcpy 128 (getStringUTFChars proxyIp)).map fun copy => ⟨copy, proxyPort⟩

/-- `struct allowed`. -/
structure Allowed where
  raddr : List UInt8
  rport : U16
  deriving DecidableEq

/-- The redirect that `handle_tcp` makes of it; its port is a `uint16_t`. -/
def redirectOf (args : ProxyArguments) : Option Allowed :=
  (strcpy 47 args.proxyIp).map fun copy => ⟨copy, BitVec.ofInt 16 args.proxyPort⟩

/-- The version in `open_tcp_socket`: 6 where the address has a colon. -/
def Allowed.version (redirect : Allowed) : Nat := if 0x3a ∈ redirect.raddr then 6 else 4

/-- `inet_pton(AF_INET, …)` behind the octets that are read, and the digits of the next
one: four decimal numbers of at most three digits, up to 255. -/
def inetPtonFrom : List UInt8 → List Nat → Nat → Nat → Option (List Nat)
  | [], octets, digits, value => if octets.length = 3 ∧ 0 < digits then some (octets ++ [value]) else none
  | ch :: rest, octets, digits, value =>
      if 0x30 ≤ ch ∧ ch ≤ 0x39 then
        let new := 10 * value + (ch.toNat - 0x30)
        if digits = 3 ∨ 255 < new then none else inetPtonFrom rest octets (digits + 1) new
      else if ch = 0x2e ∧ 0 < digits ∧ octets.length < 3 then inetPtonFrom rest (octets ++ [value]) 0 0
      else none

def inetPton (src : List UInt8) : Option (List Nat) := inetPtonFrom src [] 0 0

end Tun2Http
