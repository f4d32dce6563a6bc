import Tun2Http.Native.Tls

/-! The grammar of a TLS record with a ClientHello, written down as an encoder,
and the server name that it carries. -/
namespace Tun2Http

open Machine

/-- A vector whose length is below `limit`, so that it fits its length field. -/
abbrev Block (limit : Nat) := {bytes : List UInt8 // bytes.length < limit}

/-- A name as it is stored: cut at 255 bytes, and at the first NUL. -/
def cutName (name : List UInt8) : List UInt8 := (name.take fqdnMax).takeWhile (· ≠ 0)

/-- An entry of the server name list. -/
structure NameEntry where
  nameType : UInt8
  name : Block (2 ^ 16)
  nonempty : name.val ≠ []

namespace NameEntry

def encode (entry : NameEntry) : List UInt8 :=
  entry.nameType :: (field16 entry.name.val.length ++ entry.name.val)

def encodeAll (entries : List NameEntry) : List UInt8 := entries.flatMap encode

/-- The first name of type `host_name`. -/
def hostName (entries : List NameEntry) : Option (List UInt8) :=
  (entries.find? (·.nameType = 0)).map (·.name.val)

theorem length_encode (entry : NameEntry) :
    entry.encode.length = 3 + entry.name.val.length := by
  simp only [encode, List.length_cons, List.length_append, length_field16]
  omega

@[simp] theorem encodeAll_cons (entry : NameEntry) (rest : List NameEntry) :
    encodeAll (entry :: rest) = entry.encode ++ encodeAll rest := rfl

theorem hostName_cons (entry : NameEntry) (rest : List NameEntry) :
    hostName (entry :: rest) =
      if entry.nameType = 0 then some entry.name.val else hostName rest := by
  unfold hostName
  split_ifs with hType <;> simp [hType]

end NameEntry

/-- An extension: a list of server names, or anything of another type. -/
inductive HelloExtension where
  | serverName (entries : List NameEntry) (fits : (NameEntry.encodeAll entries).length + 2 < 2 ^ 16)
  | other (kind : U16) (hKind : kind ≠ 0) (body : Block (2 ^ 16))

namespace HelloExtension

def kind : HelloExtension → U16
  | serverName _ _ => 0
  | other kind _ _ => kind

def body : HelloExtension → List UInt8
  | serverName entries _ =>
      field16 (NameEntry.encodeAll entries).length ++ NameEntry.encodeAll entries
  | other _ _ body => body.val

def encode (extension : HelloExtension) : List UInt8 :=
  field16 extension.kind.toNat ++ (field16 extension.body.length ++ extension.body)

def encodeAll (extensions : List HelloExtension) : List UInt8 := extensions.flatMap encode

/-- The entries of the first `server_name` extension. -/
def serverNames : List HelloExtension → List NameEntry
  | [] => []
  | serverName entries _ :: _ => entries
  | other _ _ _ :: rest => serverNames rest

theorem body_lt (extension : HelloExtension) : extension.body.length < 2 ^ 16 := by
  cases extension with
  | serverName entries fits =>
      simp only [body, List.length_append, length_field16]
      omega
  | other kind hKind block => exact block.property

theorem length_encode (extension : HelloExtension) :
    extension.encode.length = 4 + extension.body.length := by
  simp only [encode, List.length_append, length_field16]
  omega

@[simp] theorem encodeAll_cons (extension : HelloExtension) (rest : List HelloExtension) :
    encodeAll (extension :: rest) = extension.encode ++ encodeAll rest := rfl

end HelloExtension

/-- The extensions with their length, where there are any. -/
def extensionBlock : Option (List HelloExtension) → List UInt8
  | none => []
  | some extensions =>
      field16 (HelloExtension.encodeAll extensions).length ++ HelloExtension.encodeAll extensions

/-- The fields of a ClientHello, with the version of the record around it. -/
structure HelloFields where
  major : UInt8
  minor : UInt8
  version : List UInt8
  random : List UInt8
  sessionId : Block 256
  cipherSuites : Block (2 ^ 16)
  compression : Block 256
  extensions : Option (List HelloExtension)

namespace HelloFields

/-- What follows the random bytes. -/
def tail (hello : HelloFields) : List UInt8 :=
  hello.sessionId.val.length.toUInt8 :: (hello.sessionId.val ++
    (field16 hello.cipherSuites.val.length ++ (hello.cipherSuites.val ++
      (hello.compression.val.length.toUInt8 :: (hello.compression.val ++
        extensionBlock hello.extensions)))))

def message (hello : HelloFields) : List UInt8 := hello.version ++ (hello.random ++ hello.tail)

/-- The handshake message with its type and its length, which has three bytes. -/
def handshake (hello : HelloFields) : List UInt8 :=
  0x01 :: 0 :: (field16 hello.message.length ++ hello.message)

end HelloFields

/-- A ClientHello that one record can hold. -/
structure ClientHello extends HelloFields where
  major_ge : 3 ≤ major
  version_length : version.length = 2
  random_length : random.length = 32
  fits : toHelloFields.handshake.length < 2 ^ 16

namespace ClientHello

/-- The record. -/
def record (hello : ClientHello) : List UInt8 :=
  0x16 :: hello.major :: hello.minor ::
    (field16 hello.toHelloFields.handshake.length ++ hello.toHelloFields.handshake)

theorem length_record (hello : ClientHello) :
    hello.record.length = hello.toHelloFields.handshake.length + 5 := rfl

/-- The name to be stored: the first of type `host_name` in the first
`server_name` extension. -/
def serverName (hello : ClientHello) : Option (List UInt8) :=
  (NameEntry.hostName (HelloExtension.serverNames (hello.extensions.getD []))).map cutName

end ClientHello

/-! Where the length fields of any bytes put such an entry. -/

/-- Items lie one behind the other; those in front of `stop` are skipped. -/
inductive Walk (size : Nat → Nat) (skip : Nat → Prop) : Nat → Nat → Prop where
  | here (pos : Nat) : Walk size skip pos pos
  | next {pos stop : Nat} (hSkip : skip pos) (hRest : Walk size skip (pos + size pos) stop) :
      Walk size skip pos stop

theorem Walk.le {size : Nat → Nat} {skip : Nat → Prop} {pos stop : Nat}
    (h : Walk size skip pos stop) : pos ≤ stop := by
  induction h with
  | here pos => exact Nat.le_refl pos
  | next hSkip hRest ih => omega

/-- There is one first item that is not skipped. -/
theorem Walk.unique {size : Nat → Nat} {skip : Nat → Prop} {pos stop stop' : Nat}
    (h : Walk size skip pos stop) (h' : Walk size skip pos stop') (hStop : ¬ skip stop)
    (hStop' : ¬ skip stop') : stop = stop' := by
  induction h with
  | here pos =>
      cases h' with
      | here => rfl
      | next hSkip => exact absurd hSkip hStop
  | next hSkip hRest ih =>
      cases h' with
      | here => exact absurd hSkip hStop'
      | next _ hRest' => exact ih hRest' hStop

variable (mem : Memory)

/-- The bytes of the extension at `pos`, with its header. -/
def extensionSize (pos : Nat) : Nat := 4 + (be16 (pos + 2)).value mem

/-- The bytes of the name entry at `pos`, with its header. -/
def entrySize (pos : Nat) : Nat := 3 + (be16 (pos + 1)).value mem

/-- The name in the entry at `pos`. -/
def entryName (pos : Nat) : List UInt8 :=
  (readBytes (pos + 3) ((be16 (pos + 1)).value mem)).value mem

/-- The length of the cipher suites, behind the session id. -/
def cipherSuitesAt (data : Nat) : Nat := data + 44 + (mem (data + 43)).toNat

/-- The length of the compression methods, behind the cipher suites. -/
def compressionAt (data : Nat) : Nat :=
  cipherSuitesAt mem data + 2 + (be16 (cipherSuitesAt mem data)).value mem

/-- The length of the extensions, behind the compression methods. -/
def extensionsAt (data : Nat) : Nat :=
  compressionAt mem data + 1 + (mem (compressionAt mem data)).toNat

/-- The record at `data` is whole, and a ClientHello with room for its extensions. -/
structure HelloAt (data dataLen : Nat) : Prop where
  handshake : mem data = 0x16
  version : 3 ≤ mem (data + 1)
  clientHello : mem (data + 5) = 0x01
  record : (be16 (data + 3)).value mem + 5 ≤ dataLen
  block : extensionsAt mem data + 2 + (be16 (extensionsAt mem data)).value mem ≤
    data + ((be16 (data + 3)).value mem + 5)

/-- The extension at `extension` is the first `server_name` one in a block. -/
structure FirstServerName (start stop extension : Nat) : Prop where
  extensions : Walk (extensionSize mem) (fun pos => (be16 pos).value mem ≠ 0) start extension
  serverName : (be16 extension).value mem = 0
  extension_end : extension + extensionSize mem extension ≤ stop

/-- The entry at `entry` is the first of type `host_name` in a list. Where it
ends the list it is not empty. -/
structure FirstHostName (start stop entry : Nat) : Prop where
  entries : Walk (entrySize mem) (fun pos => mem pos ≠ 0) start entry
  hostName : mem entry = 0
  entry_end : entry + entrySize mem entry ≤ stop
  entry_inside : entry + 3 < stop

/-- The entry at `entry` has the server name of the ClientHello at `data`. -/
def HostNameAt (data dataLen entry : Nat) : Prop :=
  HelloAt mem data dataLen ∧ ∃ extension,
    FirstServerName mem (extensionsAt mem data + 2)
      (extensionsAt mem data + 2 + (be16 (extensionsAt mem data)).value mem) extension ∧
    FirstHostName mem (extension + 6) (extension + extensionSize mem extension) entry

/-- The bytes determine the entry. -/
theorem HostNameAt.unique {mem : Memory} {data dataLen entry entry' : Nat}
    (h : HostNameAt mem data dataLen entry) (h' : HostNameAt mem data dataLen entry') :
    entry = entry' := by
  obtain ⟨-, extension, hExtension, hEntry⟩ := h
  obtain ⟨-, extension', hExtension', hEntry'⟩ := h'
  have hSame : extension = extension' :=
    hExtension.extensions.unique hExtension'.extensions (not_not.mpr hExtension.serverName)
      (not_not.mpr hExtension'.serverName)
  subst hSame
  exact hEntry.entries.unique hEntry'.entries (not_not.mpr hEntry.hostName)
    (not_not.mpr hEntry'.hostName)

end Tun2Http
