import Tun2Http.Machine.Scan
import Tun2Http.Native.Ip
import Tun2Http.Native.TcpSocket

/-! `get_uid` of `ip.c`: the user that a packet is from is looked up in the tables of sockets
that the kernel prints as text files, with `hex2bytes` of `util.c`. -/
namespace Tun2Http

open Machine Machine.Scan

/-- `char2nible`. -/
def char2nible (c : UInt8) : UInt8 :=
  if 48 ≤ c ∧ c ≤ 57 then c - 48
  else if 97 ≤ c ∧ c ≤ 102 then c - 97 + 10
  else if 65 ≤ c ∧ c ≤ 70 then c - 65 + 10
  else 255

/-- `hex2bytes`. Behind the last character there is the end of the string. -/
def hex2bytes : List UInt8 → List UInt8
  | [] => []
  | [high] => [char2nible high <<< 4 ||| char2nible 0]
  | high :: low :: rest => (char2nible high <<< 4 ||| char2nible low) :: hex2bytes rest

/-- `htonl` on each word of an address. -/
def htonlWords : List UInt8 → List UInt8
  | a :: b :: c :: d :: rest => d :: c :: b :: a :: htonlWords rest
  | rest => rest

/-- The files of `/proc/net`. -/
inductive ProcFile where
  | icmp
  | icmp6
  | tcp
  | tcp6
  | udp
  | udp6
  deriving DecidableEq

/-- The file that `get_uid_sub` opens. -/
def procFile (version : Nat) (protocol : UInt8) : Option ProcFile :=
  if protocol = ipprotoIcmp ∧ version = 4 then some .icmp
  else if protocol = ipprotoIcmpv6 ∧ version = 6 then some .icmp6
  else if protocol = ipprotoTcp then some (if version = 4 then .tcp else .tcp6)
  else if protocol = ipprotoUdp then some (if version = 4 then .udp else .udp6)
  else none

/-- The characters of an address in a line of these files. -/
def hexWidth (version : Nat) : Nat := if version = 4 then 8 else 32

/-- `"%*d: %*X:%X %8s:%X %*X %*lX:%*lX %*X:%*X %*X %d %*d %*ld"`, and with `%32s` for IPv6. -/
def uidFormat (version : Nat) : List Directive :=
  [.number 10 false, .char 58, .space, .number 16 false, .char 58, .number 16 true, .space,
    .word (hexWidth version) true, .char 58, .number 16 true, .space, .number 16 false, .space,
    .number 16 false, .char 58, .number 16 false, .space, .number 16 false, .char 58,
    .number 16 false, .space, .number 16 false, .space, .number 10 true, .space, .number 10 false,
    .space, .number 10 false]

/-- What `%d` stores: the limits of `strtoimax`, in an `int`. -/
def storeDecimal (value : Int) : Int :=
  (BitVec.ofInt 32 (max (-2 ^ 63) (min value (2 ^ 63 - 1)))).toInt

/-- What `%X` stores: the limit of `strtoumax`, in an `int`. -/
def storeHex (value : Int) : Int :=
  (BitVec.ofInt 32 (if 2 ^ 64 ≤ |value| then 2 ^ 64 - 1 else value)).toInt

/-- What a line says of its socket. -/
structure UidEntry where
  sport : Int
  daddr : List UInt8
  dport : Int
  uid : Int
  deriving DecidableEq

/-- A line of the file, where all four fields are found and make sense. -/
def uidEntry (version : Nat) (line : List UInt8) : Option UidEntry :=
  match scan (uidFormat version) (cString line) with
  | [.number sport, .word hex, .number dport, .number uid] =>
      if hex.length = hexWidth version ∧ 0 < storeHex sport ∧ 0 ≤ storeDecimal uid then
        some
          { sport := storeHex sport
            daddr := htonlWords (hex2bytes hex)
            dport := storeHex dport
            uid := storeDecimal uid }
      else none
  | _ => none

/-- The loop over the lines. A line with the source port gives its user, and one with the whole
key ends the search. -/
def searchUid (version sport dport : Nat) (daddr : List UInt8) : List (List UInt8) → Int → Int
  | [], uid => uid
  | line :: rest, uid =>
      match uidEntry version line with
      | none => searchUid version sport dport daddr rest uid
      | some entry =>
          if entry.sport = sport then
            if entry.dport = dport ∧ entry.daddr = daddr then entry.uid
            else searchUid version sport dport daddr rest entry.uid
          else searchUid version sport dport daddr rest uid

/-- `get_uid_sub`, with what the files hold; `none` where one cannot be opened. The first line is
the heading. -/
def getUidSub (proc : ProcFile → Option (List UInt8)) (version : Nat) (protocol : UInt8) (sport : Nat)
    (daddr : List UInt8) (dport : Nat) : Int :=
  match (procFile version protocol).bind proc with
  | none => -1
  | some file => searchUid version sport dport daddr (getLines 249 [] file).tail (-1)

/-- `get_uid`. An IPv4 packet is looked for among the IPv6 sockets first. -/
def getUid (proc : ProcFile → Option (List UInt8)) (version : Nat) (protocol : UInt8) (sport : Nat)
    (daddr : List UInt8) (dport : Nat) : Int :=
  let uid :=
    if version = 4 then
      getUidSub proc 6 protocol sport (List.replicate 10 0 ++ [255, 255] ++ daddr) dport
    else -1
  if uid < 0 then getUidSub proc version protocol sport daddr dport else uid

end Tun2Http
