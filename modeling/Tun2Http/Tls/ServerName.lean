import Tun2Http.Tls.Grammar

/-! `parse_tls_header` and the grammar: from a record with a ClientHello it
takes the server name that was put there, and from any bytes only a name at
the place that their length fields give. -/
namespace Tun2Http

open Machine

variable {mem : Memory}

theorem value_strncpy (src count : Nat) :
    (strncpy src count).value mem = ((readBytes src count).value mem).takeWhile (· ≠ 0) := by
  induction count generalizing src with
  | zero => rfl
  | succ count ih =>
      simp only [strncpy, readBytes, Reader.value_bind, Reader.value_byte, Reader.value_pure,
        List.takeWhile_cons]
      by_cases hZero : mem src = 0
      · simp [hZero]
      · simp [hZero, ih]

theorem take_readBytes (src count limit : Nat) :
    ((readBytes src count).value mem).take limit = (readBytes src (min count limit)).value mem := by
  induction count generalizing src limit with
  | zero => simp [readBytes]
  | succ count ih =>
      cases limit with
      | zero => simp [readBytes]
      | succ limit =>
          rw [Nat.succ_min_succ]
          simp only [readBytes, Reader.value_bind, Reader.value_byte, Reader.value_pure,
            List.take_succ_cons, ih]

/-- What is copied from an entry is its name, cut. -/
theorem value_strncpy_entry (pos : Nat) :
    (strncpy (pos + 3) (min ((be16 (pos + 1)).value mem) fqdnMax)).value mem =
      cutName (entryName mem pos) := by
  rw [value_strncpy, cutName, entryName, take_readBytes]

/-! One turn of each loop. -/

/-- A turn over the name list, at `data + pos`. -/
theorem parseServerNames_succ (data dataLen turns pos : Nat) :
    (parseServerNames data dataLen (turns + 1) pos).value mem =
      if pos + 3 < dataLen ∧ pos + entrySize mem (data + pos) ≤ dataLen then
        if mem (data + pos) = 0 then some (cutName (entryName mem (data + pos)))
        else (parseServerNames data dataLen turns (pos + entrySize mem (data + pos))).value mem
      else none := by
  rw [parseServerNames, Reader.value_ite]
  by_cases hInside : pos + 3 < dataLen
  · simp only [hInside, if_true, true_and]
    rw [Reader.value_bind, Reader.value_ite]
    have hSize : pos + 3 + (be16 (data + pos + 1)).value mem =
        pos + entrySize mem (data + pos) := by
      unfold entrySize
      omega
    by_cases hFits : pos + entrySize mem (data + pos) ≤ dataLen
    · rw [if_neg (by omega), if_pos hFits, Reader.value_bind, Reader.value_ite, Reader.value_byte,
        Reader.value_bind, Reader.value_pure, value_strncpy_entry, hSize]
    · rw [if_pos (by omega), if_neg hFits, Reader.value_pure]
  · simp [hInside]

/-- A turn over the extensions, at `data + pos`. -/
theorem parseExtensionList_succ (data dataLen turns pos : Nat) :
    (parseExtensionList data dataLen (turns + 1) pos).value mem =
      if pos + 4 ≤ dataLen then
        if (be16 (data + pos)).value mem = 0 then
          if pos + extensionSize mem (data + pos) ≤ dataLen then
            (parseServerNameExtension (data + pos + 4)
              ((be16 (data + pos + 2)).value mem)).value mem
          else none
        else
          (parseExtensionList data dataLen turns (pos + extensionSize mem (data + pos))).value mem
      else none := by
  rw [parseExtensionList, Reader.value_ite]
  by_cases hInside : pos + 4 ≤ dataLen
  · rw [if_pos hInside, if_pos hInside, Reader.value_bind, Reader.value_bind, Reader.value_ite]
    have hSize : pos + 4 + (be16 (data + pos + 2)).value mem =
        pos + extensionSize mem (data + pos) := by
      unfold extensionSize
      omega
    rw [Reader.value_ite, hSize, Reader.value_pure]
    by_cases hFits : pos + extensionSize mem (data + pos) ≤ dataLen
    · rw [if_neg (not_lt.mpr hFits), if_pos hFits]
    · rw [if_pos (not_le.mp hFits), if_neg hFits]
  · rw [if_neg hInside, if_neg hInside, Reader.value_pure]

/-- Behind the fixed fields only the last bound counts: the offsets grow. -/
theorem value_parseClientHello (data dataLen : Nat) (major minor : UInt8) :
    (parseClientHello data dataLen major minor).value mem =
      if extensionsAt mem data + 2 + (be16 (extensionsAt mem data)).value mem ≤ data + dataLen then
        (parseExtensions (extensionsAt mem data + 2)
          ((be16 (extensionsAt mem data)).value mem)).value mem
      else none := by
  -- The offsets from `data`, as the source counts them.
  obtain ⟨ciphers, hCiphers⟩ : ∃ ciphers, cipherSuitesAt mem data = data + ciphers :=
    ⟨44 + (mem (data + 43)).toNat, by unfold cipherSuitesAt; omega⟩
  obtain ⟨methods, hMethods⟩ : ∃ methods, compressionAt mem data = data + methods :=
    ⟨ciphers + 2 + (be16 (data + ciphers)).value mem, by rw [compressionAt, hCiphers]; omega⟩
  obtain ⟨extensions, hExtensions⟩ : ∃ extensions, extensionsAt mem data = data + extensions :=
    ⟨methods + 1 + (mem (data + methods)).toNat, by rw [extensionsAt, hMethods]; omega⟩
  have hSession : 5 + 38 + 1 + (mem (data + (5 + 38))).toNat = ciphers := by
    have : cipherSuitesAt mem data = data + 44 + (mem (data + (5 + 38))).toNat := rfl
    omega
  have hSuites : ciphers + 2 + (be16 (data + ciphers)).value mem = methods := by
    rw [compressionAt, hCiphers] at hMethods
    omega
  have hCompression : methods + 1 + (mem (data + methods)).toNat = extensions := by
    rw [extensionsAt, hMethods] at hExtensions
    omega
  unfold parseClientHello
  simp only [Reader.value_ite, Reader.value_bind, Reader.value_byte, Reader.value_pure, hSession,
    hSuites, hCompression, hExtensions]
  split_ifs <;> first | rfl | omega

/-- The check for SSL 2.0 is dead: its first byte is no handshake record. -/
theorem value_parseTlsHeader (data dataLen : Nat) [Decidable (HelloAt mem data dataLen)] :
    (parseTlsHeader data dataLen).value mem =
      if HelloAt mem data dataLen then
        (parseExtensions (extensionsAt mem data + 2)
          ((be16 (extensionsAt mem data)).value mem)).value mem
      else none := by
  rw [parseTlsHeader, Reader.value_ite, Reader.value_bind, Reader.value_bind, Reader.value_ite,
    Reader.value_ite, Reader.value_bind, Reader.value_bind, Reader.value_ite, Reader.value_bind,
    Reader.value_ite, Reader.value_ite, Reader.value_bind, Reader.value_ite,
    value_parseClientHello, Reader.value_byte, Reader.value_byte, Reader.value_byte,
    Reader.value_byte, Reader.value_pure]
  by_cases hHello : HelloAt mem data dataLen
  · rw [if_pos hHello]
    obtain ⟨hType, hMajor, hKind, hRecord, hBlock⟩ := hHello
    have hBehind : data + 45 ≤ extensionsAt mem data := by
      unfold extensionsAt compressionAt cipherSuitesAt
      omega
    have hSsl : ¬ (mem data &&& 0x80 ≠ 0 ∧ mem (data + 2) = 1) := fun hBoth =>
      absurd (hType ▸ hBoth.1) (by decide)
    rw [Nat.min_eq_right hRecord, if_neg (by omega), if_neg hSsl, if_neg (not_not.mpr hType),
      if_neg (UInt8.not_lt.mpr hMajor), if_neg (by omega), if_neg (by omega),
      if_neg (not_not.mpr hKind), if_pos hBlock]
  · rw [if_neg hHello]
    -- Where all checks pass it is a ClientHello after all.
    refine ite_eq_left_iff.mpr fun _ => ite_eq_left_iff.mpr fun _ => ite_eq_left_iff.mpr fun hType =>
      ite_eq_left_iff.mpr fun hMajor => ite_eq_left_iff.mpr fun hRecord => ite_eq_left_iff.mpr fun _ =>
      ite_eq_left_iff.mpr fun hKind => if_neg fun hBlock => hHello ?_
    exact ⟨not_not.mp hType, UInt8.not_lt.mp hMajor, not_not.mp hKind, by omega, by omega⟩

/-! Soundness and completeness of the loops. -/

theorem parseServerNames_some {data dataLen turns pos : Nat} {name : List UInt8}
    (h : (parseServerNames data dataLen turns pos).value mem = some name) :
    ∃ entry, FirstHostName mem (data + pos) (data + dataLen) entry ∧
      name = cutName (entryName mem entry) := by
  induction turns generalizing pos with
  | zero => cases h
  | succ turns ih =>
      rw [parseServerNames_succ] at h
      split_ifs at h with hInside hType
      · obtain ⟨hStart, hEnd⟩ := hInside
        refine ⟨data + pos, ⟨.here _, hType, by omega, by omega⟩, ?_⟩
        exact (Option.some.inj h).symm
      · obtain ⟨entry, hFirst, hName⟩ := ih h
        refine ⟨entry, ⟨.next hType ?_, hFirst.hostName, hFirst.entry_end, hFirst.entry_inside⟩,
          hName⟩
        rw [Nat.add_assoc]
        exact hFirst.entries

theorem parseServerNames_of_first {data dataLen turns pos entry : Nat}
    (hFirst : FirstHostName mem (data + pos) (data + dataLen) entry) (hTurns : dataLen < pos + turns) :
    (parseServerNames data dataLen turns pos).value mem = some (cutName (entryName mem entry)) := by
  induction turns generalizing pos with
  | zero =>
      have := hFirst.entries.le
      have := hFirst.entry_inside
      omega
  | succ turns ih =>
      obtain ⟨hEntries, hHost, hEnd, hInside⟩ := hFirst
      rw [parseServerNames_succ]
      cases hEntries with
      | here =>
          rw [if_pos ⟨by omega, by omega⟩, if_pos hHost]
      | next hType hRest =>
          have hLe := hRest.le
          have hSize : 3 ≤ entrySize mem (data + pos) := Nat.le_add_right ..
          rw [if_pos ⟨by omega, by omega⟩, if_neg hType]
          refine ih ⟨?_, hHost, hEnd, hInside⟩ (by omega)
          rwa [← Nat.add_assoc]

/-- The loop over a name list finds its first host name, and nothing else. -/
theorem parseServerNameExtension_eq_some_iff (data dataLen : Nat) (name : List UInt8) :
    (parseServerNameExtension data dataLen).value mem = some name ↔
      ∃ entry, FirstHostName mem (data + 2) (data + dataLen) entry ∧
        name = cutName (entryName mem entry) := by
  refine ⟨parseServerNames_some, ?_⟩
  rintro ⟨entry, hFirst, rfl⟩
  exact parseServerNames_of_first hFirst (by omega)

theorem add_extensionSize (pos : Nat) :
    pos + extensionSize mem pos = pos + 4 + (be16 (pos + 2)).value mem :=
  (Nat.add_assoc ..).symm

theorem parseExtensionList_some {data dataLen turns pos : Nat} {name : List UInt8}
    (h : (parseExtensionList data dataLen turns pos).value mem = some name) :
    ∃ extension, FirstServerName mem (data + pos) (data + dataLen) extension ∧
      ∃ entry, FirstHostName mem (extension + 6) (extension + extensionSize mem extension) entry ∧
        name = cutName (entryName mem entry) := by
  induction turns generalizing pos with
  | zero => cases h
  | succ turns ih =>
      rw [parseExtensionList_succ] at h
      split_ifs at h with hInside hKind hEnd
      · rw [parseServerNameExtension_eq_some_iff, ← add_extensionSize] at h
        exact ⟨data + pos, ⟨.here _, hKind, by omega⟩, h⟩
      · obtain ⟨extension, hFirst, hEntry⟩ := ih h
        refine ⟨extension, ⟨.next hKind ?_, hFirst.serverName, hFirst.extension_end⟩, hEntry⟩
        rw [Nat.add_assoc]
        exact hFirst.extensions

theorem parseExtensionList_of_first {data dataLen turns pos extension entry : Nat}
    (hExtension : FirstServerName mem (data + pos) (data + dataLen) extension)
    (hEntry : FirstHostName mem (extension + 6) (extension + extensionSize mem extension) entry)
    (hTurns : dataLen ≤ pos + turns) :
    (parseExtensionList data dataLen turns pos).value mem =
      some (cutName (entryName mem entry)) := by
  have hSize (pos : Nat) : 4 ≤ extensionSize mem pos := Nat.le_add_right ..
  have hHead := hSize extension
  induction turns generalizing pos with
  | zero =>
      have := hExtension.extensions.le
      have := hExtension.extension_end
      omega
  | succ turns ih =>
      obtain ⟨hExtensions, hKind, hEnd⟩ := hExtension
      rw [parseExtensionList_succ]
      cases hExtensions with
      | here =>
          rw [if_pos (by omega), if_pos hKind, if_pos (by omega),
            parseServerNameExtension_eq_some_iff, ← add_extensionSize]
          exact ⟨entry, hEntry, rfl⟩
      | next hOther hRest =>
          have hLe := hRest.le
          have hSkipped := hSize (data + pos)
          rw [if_pos (by omega), if_neg hOther]
          refine ih ⟨?_, hKind, hEnd⟩ (by omega)
          rwa [← Nat.add_assoc]

theorem parseExtensions_eq_some_iff (data dataLen : Nat) (name : List UInt8) :
    (parseExtensions data dataLen).value mem = some name ↔
      ∃ extension, FirstServerName mem data (data + dataLen) extension ∧
        ∃ entry, FirstHostName mem (extension + 6) (extension + extensionSize mem extension) entry ∧
          name = cutName (entryName mem entry) := by
  refine ⟨parseExtensionList_some, ?_⟩
  rintro ⟨extension, hExtension, entry, hEntry, rfl⟩
  exact parseExtensionList_of_first hExtension hEntry (by omega)

/-- Any name that `parse_tls_header` stores comes from such an entry, and it
stores the name of every such entry. -/
theorem parseTlsHeader_eq_some_iff (data dataLen : Nat) (name : List UInt8) :
    (parseTlsHeader data dataLen).value mem = some name ↔
      ∃ entry, HostNameAt mem data dataLen entry ∧ name = cutName (entryName mem entry) := by
  classical
  rw [value_parseTlsHeader]
  split_ifs with hHello
  · rw [parseExtensions_eq_some_iff]
    constructor
    · rintro ⟨extension, hExtension, entry, hEntry, hName⟩
      exact ⟨entry, ⟨hHello, extension, hExtension, hEntry⟩, hName⟩
    · rintro ⟨entry, ⟨-, extension, hExtension, hEntry⟩, hName⟩
      exact ⟨extension, hExtension, entry, hEntry, hName⟩
  · constructor
    · intro h
      cases h
    · rintro ⟨entry, hName, -⟩
      exact absurd hName.1 hHello

/-! The loops on what the encoder writes. -/

/-- The header of an entry, where it lies in the memory. -/
theorem entry_of_holds {pos : Nat} {entry : NameEntry} (h : Holds mem pos entry.encode) :
    mem pos = entry.nameType ∧ entrySize mem pos = entry.encode.length ∧
      entryName mem pos = entry.name.val := by
  obtain ⟨hType, hRest⟩ := h
  rw [holds_append] at hRest
  have hLen := value_be16_of_holds hRest.1 entry.name.property
  refine ⟨hType, ?_, ?_⟩
  · rw [entrySize, hLen, NameEntry.length_encode]
  · rw [entryName, hLen]
    exact value_readBytes_of_holds hRest.2

theorem parseServerNames_encode {data dataLen turns pos : Nat} {entries : List NameEntry}
    (hHolds : Holds mem (data + pos) (NameEntry.encodeAll entries))
    (hLen : dataLen = pos + (NameEntry.encodeAll entries).length) (hTurns : dataLen < pos + turns) :
    (parseServerNames data dataLen turns pos).value mem =
      (NameEntry.hostName entries).map cutName := by
  induction entries generalizing turns pos with
  | nil =>
      cases turns with
      | zero => rfl
      | succ turns =>
          rw [parseServerNames_succ, if_neg (by simp [hLen, NameEntry.encodeAll])]
          rfl
  | cons entry rest ih =>
      rw [NameEntry.encodeAll_cons, holds_append] at hHolds
      rw [NameEntry.encodeAll_cons, List.length_append] at hLen
      obtain ⟨hType, hSize, hName⟩ := entry_of_holds hHolds.1
      have hNonempty := List.length_pos_of_ne_nil entry.nonempty
      have hLength := entry.length_encode
      cases turns with
      | zero => omega
      | succ turns =>
          rw [parseServerNames_succ, hSize, hType, hName, if_pos ⟨by omega, by omega⟩,
            NameEntry.hostName_cons]
          split_ifs
          · rfl
          · refine ih ?_ (by omega) (by omega)
            rw [← Nat.add_assoc]
            exact hHolds.2

/-- The header of an extension, where it lies in the memory. -/
theorem extension_of_holds {pos : Nat} {extension : HelloExtension}
    (h : Holds mem pos extension.encode) :
    (be16 pos).value mem = extension.kind.toNat ∧
      (be16 (pos + 2)).value mem = extension.body.length ∧ Holds mem (pos + 4) extension.body := by
  rw [HelloExtension.encode, holds_append, holds_append] at h
  obtain ⟨hKind, hLen, hBody⟩ := h
  exact ⟨value_be16_of_holds hKind extension.kind.isLt, value_be16_of_holds hLen extension.body_lt,
    hBody⟩

/-- The list of a `server_name` extension, from its body. -/
theorem parseServerNameExtension_encode {data : Nat} {entries : List NameEntry}
    (fits : (NameEntry.encodeAll entries).length + 2 < 2 ^ 16)
    (hHolds : Holds mem data (HelloExtension.serverName entries fits).body) :
    (parseServerNameExtension data (HelloExtension.serverName entries fits).body.length).value mem =
      (NameEntry.hostName entries).map cutName := by
  have hLen : (HelloExtension.serverName entries fits).body.length =
      2 + (NameEntry.encodeAll entries).length := by
    simp only [HelloExtension.body, List.length_append, length_field16]
  rw [HelloExtension.body, holds_append] at hHolds
  exact parseServerNames_encode hHolds.2 hLen (by omega)

theorem parseExtensionList_encode {data dataLen turns pos : Nat} {extensions : List HelloExtension}
    (hHolds : Holds mem (data + pos) (HelloExtension.encodeAll extensions))
    (hLen : dataLen = pos + (HelloExtension.encodeAll extensions).length)
    (hTurns : dataLen ≤ pos + turns) :
    (parseExtensionList data dataLen turns pos).value mem =
      (NameEntry.hostName (HelloExtension.serverNames extensions)).map cutName := by
  induction extensions generalizing turns pos with
  | nil =>
      cases turns with
      | zero => rfl
      | succ turns =>
          rw [parseExtensionList_succ, if_neg (by simp [hLen, HelloExtension.encodeAll])]
          rfl
  | cons extension rest ih =>
      rw [HelloExtension.encodeAll_cons, holds_append] at hHolds
      rw [HelloExtension.encodeAll_cons, List.length_append] at hLen
      obtain ⟨hKind, hBodyLen, hBody⟩ := extension_of_holds hHolds.1
      have hLength := extension.length_encode
      have hSize : extensionSize mem (data + pos) = extension.encode.length := by
        rw [extensionSize, hBodyLen, hLength]
      cases turns with
      | zero => omega
      | succ turns =>
          rw [parseExtensionList_succ, hKind, hSize, hBodyLen, if_pos (by omega)]
          cases extension with
          | serverName entries fits =>
              have hServerName : (HelloExtension.serverName entries fits).kind.toNat = 0 := rfl
              rw [if_pos hServerName, if_pos (by omega)]
              exact parseServerNameExtension_encode fits hBody
          | other kind hOther body =>
              have hKindNe : (HelloExtension.other kind hOther body).kind.toNat ≠ 0 :=
                fun h => hOther (BitVec.eq_of_toNat_eq h)
              rw [if_neg hKindNe]
              refine ih ?_ (by omega) (by omega)
              rw [← Nat.add_assoc]
              exact hHolds.2

/-! The record. -/

/-- Where the fields of a ClientHello lie, from its session id on. -/
theorem tail_of_holds {data : Nat} {hello : HelloFields}
    (hHolds : Holds mem (data + 43) hello.tail) :
    Holds mem (extensionsAt mem data) (extensionBlock hello.extensions) ∧
      data + 43 + hello.tail.length =
        extensionsAt mem data + (extensionBlock hello.extensions).length := by
  have hLength : hello.tail.length = 4 + hello.sessionId.val.length +
      hello.cipherSuites.val.length + hello.compression.val.length +
        (extensionBlock hello.extensions).length := by
    simp only [HelloFields.tail, List.length_cons, List.length_append, length_field16]
    omega
  rw [HelloFields.tail, holds_cons, holds_append, holds_append, holds_append, holds_cons,
    holds_append, length_field16] at hHolds
  obtain ⟨hSession, -, hCiphersLen, -, hMethodsLen, -, hBlock⟩ := hHolds
  have hCiphers : cipherSuitesAt mem data = data + 43 + 1 + hello.sessionId.val.length := by
    have hSmall := hello.sessionId.property
    rw [cipherSuitesAt, hSession, Nat.toUInt8_eq, UInt8.toNat_ofNat']
    omega
  have hMethods : compressionAt mem data =
      data + 43 + 1 + hello.sessionId.val.length + 2 + hello.cipherSuites.val.length := by
    rw [compressionAt, hCiphers, value_be16_of_holds hCiphersLen hello.cipherSuites.property]
  have hExtensions : extensionsAt mem data = data + 43 + 1 + hello.sessionId.val.length + 2 +
      hello.cipherSuites.val.length + 1 + hello.compression.val.length := by
    have hSmall := hello.compression.property
    rw [extensionsAt, hMethods, hMethodsLen, Nat.toUInt8_eq, UInt8.toNat_ofNat']
    omega
  rw [hExtensions]
  exact ⟨hBlock, by omega⟩

/-- The header of a record, and its fields from the session id on. -/
theorem record_of_holds {data : Nat} {hello : ClientHello} (hHolds : Holds mem data hello.record) :
    mem data = 0x16 ∧ 3 ≤ mem (data + 1) ∧ mem (data + 5) = 0x01 ∧
      (be16 (data + 3)).value mem + 5 = hello.record.length ∧
      Holds mem (data + 43) hello.tail ∧ hello.record.length = 43 + hello.tail.length := by
  have hVersion := hello.version_length
  have hRandom := hello.random_length
  obtain ⟨hType, hMajor, -, hRest⟩ := hHolds
  rw [holds_append] at hRest
  obtain ⟨hLen, hKind, -, hMessage⟩ := hRest
  rw [holds_append, HelloFields.message, holds_append, holds_append, hVersion, hRandom] at hMessage
  refine ⟨hType, hMajor.symm ▸ hello.major_ge, hKind, ?_, hMessage.2.2.2, ?_⟩
  · rw [value_be16_of_holds hLen hello.fits, hello.length_record]
  · simp only [ClientHello.record, HelloFields.handshake, HelloFields.message, List.length_cons,
      List.length_append, length_field16, hVersion, hRandom]
    omega

/-- `parse_tls_header` on a record, whatever follows it. -/
theorem parseTlsHeader_record {data dataLen : Nat} {hello : ClientHello}
    (hHolds : Holds mem data hello.record) (hLen : hello.record.length ≤ dataLen) :
    (parseTlsHeader data dataLen).value mem = hello.serverName := by
  classical
  obtain ⟨hType, hMajor, hKind, hRecord, hTail, hLength⟩ := record_of_holds hHolds
  obtain ⟨hBlock, hEnd⟩ := tail_of_holds hTail
  rw [value_parseTlsHeader, ClientHello.serverName]
  cases hExtensions : hello.extensions with
  | none =>
      -- The record ends where the length of the extensions would be.
      rw [hExtensions] at hEnd
      have hNoBlock : ¬ HelloAt mem data dataLen := fun hHello => by
        have := hHello.block
        simp only [extensionBlock, List.length_nil] at hEnd
        omega
      rw [if_neg hNoBlock]
      rfl
  | some extensions =>
      rw [hExtensions, extensionBlock, holds_append] at hBlock
      rw [hExtensions, extensionBlock, List.length_append, length_field16] at hEnd
      have hFits := hello.fits
      have hRecordLen := hello.length_record
      have hBlockLen : (be16 (extensionsAt mem data)).value mem =
          (HelloExtension.encodeAll extensions).length := by
        have hBehind : data + 43 ≤ extensionsAt mem data := by
          unfold extensionsAt compressionAt cipherSuitesAt
          omega
        exact value_be16_of_holds hBlock.1 (by omega)
      rw [if_pos ⟨hType, hMajor, hKind, by omega, by omega⟩, hBlockLen]
      exact parseExtensionList_encode hBlock.2 (Nat.zero_add _).symm (by omega)

/-- From a record with a ClientHello `parse_tls_header` stores the first host
name of the first `server_name` extension, cut, and nothing where there is
none; and whatever the bytes, what it stores is the name of an entry at the
place that the length fields determine. -/
theorem server_name_exact (mem : Memory) (data dataLen : Nat) :
    (∀ hello : ClientHello, Holds mem data hello.record → hello.record.length ≤ dataLen →
      (parseTlsHeader data dataLen).value mem = hello.serverName) ∧
    (∀ name, (parseTlsHeader data dataLen).value mem = some name →
      ∃ entry, HostNameAt mem data dataLen entry ∧ name = cutName (entryName mem entry)) :=
  ⟨fun _ hHolds hLen => parseTlsHeader_record hHolds hLen,
    fun name h => (parseTlsHeader_eq_some_iff data dataLen name).mp h⟩

/-- A ClientHello for `a.b`, with an extension in front and an entry of another type. -/
def sampleHello : ClientHello where
  major := 3
  minor := 1
  version := [3, 3]
  random := List.replicate 32 7
  sessionId := ⟨[], by decide⟩
  cipherSuites := ⟨[0x13, 0x01], by decide⟩
  compression := ⟨[0], by decide⟩
  extensions := some
    [.other 23 (by decide) ⟨[], by decide⟩,
      .serverName [⟨1, ⟨[9], by decide⟩, by decide⟩, ⟨0, ⟨[97, 46, 98], by decide⟩, by decide⟩]
        (by decide)]
  major_ge := by decide
  version_length := rfl
  random_length := rfl
  fits := by decide

theorem server_name_exact_sample :
    (parseTlsHeader 0 sampleHello.record.length).value
      (fun offset => sampleHello.record.getD offset 0) = some [97, 46, 98] :=
  (server_name_exact _ 0 _).1 sampleHello (holds_getD _) (Nat.le_refl _)

end Tun2Http
