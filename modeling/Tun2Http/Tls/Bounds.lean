import Tun2Http.Machine.Buffer
import Tun2Http.Machine.Loop
import Tun2Http.Tls.ServerName

/-! The ClientHello parser with the buffer that it stores into, its loops as
loops: whatever the length fields claim, it reads in the data, ends, and
stores in the 256 bytes of `hostname`. -/
namespace Tun2Http

open Machine

/-- `strncpy` into `hostname`, and the terminator. Behind the end of the name
`strncpy` stores zeros. -/
def strncpyInto (hostname : Buffer) (src count : Nat) : Reader Buffer := do
  let name ← strncpy src count
  pure ((hostname.copy 0 (name ++ List.replicate (count - name.length) 0)).put count 0)

/-- One turn of the loop of `parse_server_name_extension`. -/
def serverNameTurn (data dataLen : Nat) (hostname : Buffer) (pos : Nat) :
    Reader (LoopTurn Nat Buffer) :=
  if pos + 3 < dataLen then do
    let len ← be16 (data + pos + 1)
    if pos + 3 + len > dataLen then pure (.leave hostname)
    else do
      let nameType ← Reader.byte (data + pos)
      if nameType = 0x00 then do
        let hostname ← strncpyInto hostname (data + pos + 3) (min len fqdnMax)
        pure (.leave hostname)
      else pure (.next (pos + 3 + len))
  else pure (.leave hostname)

/-- One turn of the loop of `parse_extensions`, which leaves it with place and
length of a server name extension. -/
def extensionTurn (data dataLen pos : Nat) : Reader (LoopTurn Nat (Option (Nat × Nat))) :=
  if pos + 4 ≤ dataLen then do
    let len ← be16 (data + pos + 2)
    let kind ← be16 (data + pos)
    if kind = 0 then
      if pos + 4 + len > dataLen then pure (.leave none)
      else pure (.leave (some (data + pos + 4, len)))
    else pure (.next (pos + 4 + len))
  else pure (.leave none)

/-- `parse_extensions` with what it stores, or `none` where a loop has not
ended within `turns` turns. -/
def parseExtensionsInto (turns : Nat) (hostname : Buffer) (data dataLen : Nat) :
    Reader (Option Buffer) := do
  let found ← loop (extensionTurn data dataLen) turns 0
  match found with
  | none => pure none
  | some none => pure (some hostname)
  | some (some (extension, len)) => loop (serverNameTurn extension len hostname) turns 2

section Frame

variable {α : Type} (stop : α) (extensions : Nat → Nat → Reader α)

/-- `parse_tls_header` behind the record header, whatever it makes of the extensions. -/
def parseClientHelloWith (data dataLen : Nat) (versionMajor versionMinor : UInt8) : Reader α := do
  let pos := 5 + 38
  if pos + 1 > dataLen then pure stop
  else do
    let sessionId ← Reader.byte (data + pos)
    let pos := pos + 1 + sessionId.toNat
    if pos + 2 > dataLen then pure stop
    else do
      let cipherSuites ← be16 (data + pos)
      let pos := pos + 2 + cipherSuites
      if pos + 1 > dataLen then pure stop
      else do
        let compression ← Reader.byte (data + pos)
        let pos := pos + 1 + compression.toNat
        if pos = dataLen ∧ versionMajor = 3 ∧ versionMinor = 0 then pure stop
        else if pos + 2 > dataLen then pure stop
        else do
          let len ← be16 (data + pos)
          let pos := pos + 2
          if pos + len > dataLen then pure stop else extensions (data + pos) len

/-- `parse_tls_header`, whatever it makes of the extensions. -/
def parseTlsHeaderWith (data dataLen : Nat) : Reader α :=
  if dataLen < 5 then pure stop
  else do
    let contentType ← Reader.byte data
    let sslType ← Reader.byte (data + 2)
    if contentType &&& 0x80 ≠ 0 ∧ sslType = 1 then pure stop
    else if contentType ≠ 0x16 then pure stop
    else do
      let versionMajor ← Reader.byte (data + 1)
      let versionMinor ← Reader.byte (data + 2)
      if versionMajor < 3 then pure stop
      else do
        let recordLen ← be16 (data + 3)
        let len := recordLen + 5
        let dataLen := min dataLen len
        if dataLen < len then pure stop
        else if 5 + 1 > dataLen then pure stop
        else do
          let handshakeType ← Reader.byte (data + 5)
          if handshakeType ≠ 0x01 then pure stop
          else parseClientHelloWith stop extensions data dataLen versionMajor versionMinor

end Frame

theorem parseTlsHeader_eq_with (data dataLen : Nat) :
    parseTlsHeader data dataLen = parseTlsHeaderWith none parseExtensions data dataLen := rfl

/-- `parse_tls_header` with what it stores in `hostname`. -/
def parseTlsHeaderInto (turns data dataLen : Nat) (hostname : Buffer) : Reader (Option Buffer) :=
  parseTlsHeaderWith (some hostname) (parseExtensionsInto turns hostname) data dataLen

variable {mem : Memory} {length : Nat}

section Frame

variable {α : Type} {stop : α} {extensions : Nat → Nat → Reader α} {P : α → Prop}

/-- All checks in front of the extensions keep the position in the data. -/
theorem meets_parseClientHelloWith {data dataLen : Nat} (hLength : data + dataLen ≤ length)
    (hStop : P stop) (hExtensions : ∀ start len, start + len ≤ length →
      (extensions start len).Meets length P mem) (versionMajor versionMinor : UInt8) :
    (parseClientHelloWith stop extensions data dataLen versionMajor versionMinor).Meets length P
      mem := by
  have hLeft : (pure stop : Reader α).Meets length P mem := Reader.meets_pure hStop
  unfold parseClientHelloWith
  refine Reader.meets_ite (fun _ => hLeft) fun hSession => ?_
  refine Reader.meets_bind ((Reader.within_byte ..).mpr (by omega)) ?_
  generalize (Reader.byte (data + (5 + 38))).value mem = sessionId
  refine Reader.meets_ite (fun _ => hLeft) fun hSuites => ?_
  refine Reader.meets_bind ((within_be16 ..).mpr (by omega)) ?_
  generalize (be16 _).value mem = cipherSuites
  refine Reader.meets_ite (fun _ => hLeft) fun hMethods => ?_
  refine Reader.meets_bind ((Reader.within_byte ..).mpr (by omega)) ?_
  generalize (Reader.byte _).value mem = compression
  refine Reader.meets_ite (fun _ => hLeft) fun _ => ?_
  refine Reader.meets_ite (fun _ => hLeft) fun hLen => ?_
  refine Reader.meets_bind ((within_be16 ..).mpr (by omega)) ?_
  generalize (be16 _).value mem = len
  exact Reader.meets_ite (fun _ => hLeft) fun hBlock => hExtensions _ _ (by omega)

theorem meets_parseTlsHeaderWith {data dataLen : Nat} (hLength : data + dataLen ≤ length)
    (hStop : P stop) (hExtensions : ∀ start len, start + len ≤ length →
      (extensions start len).Meets length P mem) :
    (parseTlsHeaderWith stop extensions data dataLen).Meets length P mem := by
  have hLeft : (pure stop : Reader α).Meets length P mem := Reader.meets_pure hStop
  unfold parseTlsHeaderWith
  refine Reader.meets_ite (fun _ => hLeft) fun hHeader => ?_
  refine Reader.meets_bind ((Reader.within_byte ..).mpr (by omega)) ?_
  refine Reader.meets_bind ((Reader.within_byte ..).mpr (by omega)) ?_
  refine Reader.meets_ite (fun _ => hLeft) fun _ => Reader.meets_ite (fun _ => hLeft) fun _ => ?_
  refine Reader.meets_bind ((Reader.within_byte ..).mpr (by omega)) ?_
  refine Reader.meets_bind ((Reader.within_byte ..).mpr (by omega)) ?_
  refine Reader.meets_ite (fun _ => hLeft) fun _ => ?_
  refine Reader.meets_bind ((within_be16 ..).mpr (by omega)) ?_
  generalize (be16 (data + 3)).value mem = recordLen
  refine Reader.meets_ite (fun _ => hLeft) fun _ => Reader.meets_ite (fun _ => hLeft) fun hType => ?_
  refine Reader.meets_bind ((Reader.within_byte ..).mpr (by omega)) ?_
  refine Reader.meets_ite (fun _ => hLeft) fun _ => ?_
  exact meets_parseClientHelloWith (by omega) hStop hExtensions _ _

end Frame

theorem within_strncpy {src count : Nat} (h : src + count ≤ length) :
    (strncpy src count).Within length mem := by
  induction count generalizing src with
  | zero => exact Reader.within_pure _ _ _
  | succ count ih =>
      rw [strncpy, Reader.within_bind, Reader.within_byte, Reader.within_ite]
      refine ⟨by omega, ?_⟩
      split_ifs
      · exact Reader.within_pure _ _ _
      · rw [Reader.within_bind]
        exact ⟨ih (by omega), Reader.within_pure _ _ _⟩

theorem length_strncpy_le (src count : Nat) : ((strncpy src count).value mem).length ≤ count := by
  induction count generalizing src with
  | zero => exact Nat.le_refl 0
  | succ count ih =>
      rw [strncpy, Reader.value_bind, Reader.value_ite]
      split_ifs
      · exact Nat.zero_le _
      · rw [Reader.value_bind, Reader.value_pure, List.length_cons]
        exact Nat.succ_le_succ (ih _)

/-- What has been stored in `hostname` lies in its 256 bytes, and is no more than that. -/
def HostnameFits (hostname : Buffer) : Prop :=
  hostname.Within (fqdnMax + 1) ∧ hostname.written.length ≤ fqdnMax + 1

/-- A name is stored once, into a buffer that nothing was stored in. -/
theorem meets_strncpyInto {bytes : Memory} {src count : Nat} (hCount : count ≤ fqdnMax)
    (hSrc : src + count ≤ length) :
    (strncpyInto (.fresh bytes) src count).Meets length HostnameFits mem := by
  refine Reader.meets_bind (within_strncpy hSrc) (Reader.meets_pure ?_)
  have hName : ((strncpy src count).value mem).length ≤ count := length_strncpy_le src count
  generalize (strncpy src count).value mem = name at hName ⊢
  have hLength : (name ++ List.replicate (count - name.length) 0).length = count := by
    rw [List.length_append, List.length_replicate]
    omega
  constructor
  · rw [Buffer.within_put, Buffer.within_copy_iff, hLength]
    exact ⟨⟨Buffer.within_fresh _ _, Or.inr (by omega)⟩, by omega⟩
  · rw [Buffer.length_written_put, Buffer.length_written_copy, hLength]
    exact Nat.succ_le_succ (by simpa [Buffer.fresh] using hCount)

/-- The loop over the names ends in as many turns as there are bytes. -/
theorem meets_serverNames {bytes : Memory} {data dataLen turns : Nat}
    (hLength : data + dataLen ≤ length) (hTurns : dataLen < turns) :
    (loop (serverNameTurn data dataLen (.fresh bytes)) turns 2).Meets length
      (fun ended => ∃ hostname, ended = some hostname ∧ HostnameFits hostname) mem := by
  have hFresh : HostnameFits (.fresh bytes) := ⟨Buffer.within_fresh _ _, Nat.zero_le _⟩
  refine meets_loop (I := fun _ => True) (fun pos => dataLen - pos) (fun pos _ => ?_) trivial (by omega)
  unfold serverNameTurn
  refine Reader.meets_ite (fun hInside => ?_) fun _ => Reader.meets_pure hFresh
  refine Reader.meets_bind ((within_be16 ..).mpr (by omega)) ?_
  generalize (be16 (data + pos + 1)).value mem = len
  refine Reader.meets_ite (fun _ => Reader.meets_pure hFresh) fun hName => ?_
  refine Reader.meets_bind ((Reader.within_byte ..).mpr (by omega)) ?_
  refine Reader.meets_ite (fun _ => ?_) fun _ => Reader.meets_pure ⟨trivial, by omega⟩
  have hStore : (strncpyInto (.fresh bytes) (data + pos + 3) (min len fqdnMax)).Meets length
      HostnameFits mem := meets_strncpyInto (Nat.min_le_right len fqdnMax) (by omega)
  exact Reader.meets_bind hStore.1 (Reader.meets_pure hStore.2)

theorem meets_parseExtensionsInto {bytes : Memory} {data dataLen turns : Nat}
    (hLength : data + dataLen ≤ length) (hTurns : length < turns) :
    (parseExtensionsInto turns (.fresh bytes) data dataLen).Meets length
      (fun ended => ∃ hostname, ended = some hostname ∧ HostnameFits hostname) mem := by
  have hFound : (loop (extensionTurn data dataLen) turns 0).Meets length
      (fun ended => ∃ found, ended = some found ∧
        ∀ extension len, found = some (extension, len) → extension + len ≤ length) mem := by
    refine meets_loop (I := fun _ => True) (fun pos => dataLen - pos) (fun pos _ => ?_) trivial
      (by omega)
    unfold extensionTurn
    refine Reader.meets_ite (fun hInside => ?_) fun _ => Reader.meets_pure nofun
    refine Reader.meets_bind ((within_be16 ..).mpr (by omega)) ?_
    generalize (be16 (data + pos + 2)).value mem = len
    refine Reader.meets_bind ((within_be16 ..).mpr (by omega)) ?_
    refine Reader.meets_ite (fun _ => ?_) fun _ => Reader.meets_pure ⟨trivial, by omega⟩
    refine Reader.meets_ite (fun _ => Reader.meets_pure nofun) fun hFits => Reader.meets_pure ?_
    rintro _ _ ⟨⟩
    omega
  refine Reader.meets_bind hFound.1 ?_
  obtain ⟨found, hValue, hPlace⟩ := hFound.2
  rw [hValue]
  cases found with
  | none => exact Reader.meets_pure ⟨_, rfl, Buffer.within_fresh _ _, Nat.zero_le _⟩
  | some place =>
      obtain ⟨extension, len⟩ := place
      have hInside : extension + len ≤ length := hPlace extension len rfl
      exact meets_serverNames hInside (by omega)

/-- From data given with its true length the parser reads there only; its
loops have ended after as many turns as there are bytes, and what it stores
fits into `hostname`. -/
theorem parseTlsHeader_safe (mem : Memory) (dataLen : Nat) (bytes : Memory) :
    (parseTlsHeaderInto (dataLen + 1) 0 dataLen (.fresh bytes)).Within dataLen mem ∧
      ∃ hostname,
        (parseTlsHeaderInto (dataLen + 1) 0 dataLen (.fresh bytes)).value mem = some hostname ∧
          hostname.Within (fqdnMax + 1) ∧ hostname.written.length ≤ fqdnMax + 1 :=
  meets_parseTlsHeaderWith (Nat.zero_add dataLen).le
    ⟨_, rfl, Buffer.within_fresh _ _, Nat.zero_le _⟩
    fun _ _ hInside => meets_parseExtensionsInto hInside (Nat.lt_succ_self _)

/-! What is in `hostname` is the name that the parser returns without it. -/

/-- The buffer holds the name as a C string, or is as it was. -/
def Stores (hostname : Buffer) (name : Option (List UInt8)) (stored : Buffer) : Prop :=
  match name with
  | none => stored = hostname
  | some name => Holds stored.bytes 0 (name ++ [0])

section Frame

variable {α β γ : Type} {R : α → β → Prop} {stop : α} {stop' : β}
  {extensions : Nat → Nat → Reader α} {extensions' : Nat → Nat → Reader β}

theorem rel_ite {p : Prop} [Decidable p] {x y : Reader α} {x' y' : Reader β}
    (hThen : R (x.value mem) (x'.value mem)) (hElse : R (y.value mem) (y'.value mem)) :
    R ((if p then x else y).value mem) ((if p then x' else y').value mem) := by
  split_ifs
  · exact hThen
  · exact hElse

theorem rel_bind {x : Reader γ} {f : γ → Reader α} {g : γ → Reader β}
    (h : R ((f (x.value mem)).value mem) ((g (x.value mem)).value mem)) :
    R ((x >>= f).value mem) ((x >>= g).value mem) := h

/-- The checks in front of the extensions are the same whatever follows them. -/
theorem parseTlsHeaderWith_rel (hStop : R stop stop')
    (hExtensions : ∀ start len,
      R ((extensions start len).value mem) ((extensions' start len).value mem))
    (data dataLen : Nat) :
    R ((parseTlsHeaderWith stop extensions data dataLen).value mem)
      ((parseTlsHeaderWith stop' extensions' data dataLen).value mem) := by
  have hHello : ∀ dataLen major minor,
      R ((parseClientHelloWith stop extensions data dataLen major minor).value mem)
        ((parseClientHelloWith stop' extensions' data dataLen major minor).value mem) := by
    intro dataLen major minor
    unfold parseClientHelloWith
    refine rel_ite hStop (rel_bind (rel_ite hStop (rel_bind (rel_ite hStop (rel_bind ?_)))))
    exact rel_ite hStop (rel_ite hStop (rel_bind (rel_ite hStop (hExtensions _ _))))
  unfold parseTlsHeaderWith
  refine rel_ite hStop (rel_bind (rel_bind (rel_ite hStop (rel_ite hStop (rel_bind (rel_bind ?_))))))
  exact rel_ite hStop (rel_bind (rel_ite hStop (rel_ite hStop (rel_bind (rel_ite hStop
    (hHello _ _ _))))))

end Frame

theorem stores_strncpyInto (hostname : Buffer) (src count : Nat) :
    Stores hostname (some ((strncpy src count).value mem))
      ((strncpyInto hostname src count).value mem) := by
  rw [strncpyInto, Reader.value_bind, Reader.value_pure]
  have hLength : ((strncpy src count).value mem).length ≤ count := length_strncpy_le src count
  generalize (strncpy src count).value mem = name at hLength ⊢
  have hCopied : Holds (hostname.copy 0 (name ++ List.replicate (count - name.length) 0)).bytes 0
      (name ++ List.replicate (count - name.length) 0) := Buffer.holds_copy
  rcases Nat.lt_or_eq_of_le hLength with hShort | hFull
  · -- The zero behind the name is one of `strncpy`.
    obtain ⟨more, hMore⟩ : ∃ more, count - name.length = more + 1 := ⟨count - name.length - 1, by omega⟩
    rw [hMore, List.replicate_succ] at hCopied ⊢
    have hSplit : name ++ 0 :: List.replicate more 0 = (name ++ [0]) ++ List.replicate more 0 := by simp
    rw [hSplit] at hCopied ⊢
    exact Buffer.holds_put_of_le (holds_append.mp hCopied).1
      (by rw [List.length_append, List.length_singleton]; omega)
  · rw [hFull, Nat.sub_self, List.replicate_zero, List.append_nil] at hCopied ⊢
    rw [Stores, holds_append, Nat.zero_add, hFull]
    exact ⟨Buffer.holds_put_of_le hCopied (by omega), Buffer.bytes_put_self _, trivial⟩

theorem stores_serverNames {data dataLen turns pos : Nat} {hostname stored : Buffer}
    (h : (loop (serverNameTurn data dataLen hostname) turns pos).value mem = some stored) :
    Stores hostname ((parseServerNames data dataLen turns pos).value mem) stored := by
  induction turns generalizing pos with
  | zero => cases h
  | succ turns ih =>
      rw [loop, serverNameTurn, Reader.value_bind, Reader.value_ite] at h
      rw [parseServerNames, Reader.value_ite]
      by_cases hInside : pos + 3 < dataLen
      · rw [if_pos hInside, Reader.value_bind, Reader.value_ite] at h ⊢
        by_cases hName : pos + 3 + (be16 (data + pos + 1)).value mem > dataLen
        · rw [if_pos hName] at h ⊢
          exact (Option.some.inj h).symm
        · rw [if_neg hName, Reader.value_bind, Reader.value_ite] at h ⊢
          by_cases hType : (Reader.byte (data + pos)).value mem = 0
          · rw [if_pos hType, Reader.value_bind] at h ⊢
            cases Option.some.inj h
            exact stores_strncpyInto hostname _ _
          · rw [if_neg hType] at h ⊢
            exact ih h
      · rw [if_neg hInside] at h ⊢
        exact (Option.some.inj h).symm

/-- More turns than there are bytes find no other name. -/
theorem parseServerNames_enough {data dataLen turns pos : Nat} (hTurns : dataLen ≤ pos + turns)
    (more : Nat) : (parseServerNames data dataLen (turns + more) pos).value mem =
      (parseServerNames data dataLen turns pos).value mem := by
  induction turns generalizing pos with
  | zero =>
      cases more with
      | zero => rfl
      | succ more => rw [Nat.zero_add, parseServerNames_succ, if_neg (by omega)]; rfl
  | succ turns ih =>
      have hSize : 3 ≤ entrySize mem (data + pos) := Nat.le_add_right ..
      rw [Nat.succ_add, parseServerNames_succ, parseServerNames_succ, ih (by omega)]

theorem parseExtensionList_enough {data dataLen turns pos : Nat} (hTurns : dataLen ≤ pos + turns)
    (more : Nat) : (parseExtensionList data dataLen (turns + more) pos).value mem =
      (parseExtensionList data dataLen turns pos).value mem := by
  induction turns generalizing pos with
  | zero =>
      cases more with
      | zero => rfl
      | succ more => rw [Nat.zero_add, parseExtensionList_succ, if_neg (by omega)]; rfl
  | succ turns ih =>
      have hSize : 4 ≤ extensionSize mem (data + pos) := Nat.le_add_right ..
      rw [Nat.succ_add, parseExtensionList_succ, parseExtensionList_succ, ih (by omega)]

/-- Where the loop over the extensions has ended, the name is looked for in
the server name extension that it found. -/
theorem parseExtensionList_of_loop {data dataLen turns pos : Nat} {found : Option (Nat × Nat)}
    (h : (loop (extensionTurn data dataLen) turns pos).value mem = some found) :
    (parseExtensionList data dataLen turns pos).value mem =
      found.bind fun place => (parseServerNameExtension place.1 place.2).value mem := by
  induction turns generalizing pos with
  | zero => cases h
  | succ turns ih =>
      rw [loop, extensionTurn, Reader.value_bind, Reader.value_ite] at h
      rw [parseExtensionList, Reader.value_ite]
      by_cases hInside : pos + 4 ≤ dataLen
      · rw [if_pos hInside, Reader.value_bind, Reader.value_bind, Reader.value_ite] at h ⊢
        by_cases hKind : (be16 (data + pos)).value mem = 0
        · rw [if_pos hKind, Reader.value_ite] at h ⊢
          by_cases hFits : pos + 4 + (be16 (data + pos + 2)).value mem > dataLen
          · rw [if_pos hFits] at h ⊢
            cases Option.some.inj h
            rfl
          · rw [if_neg hFits] at h ⊢
            cases Option.some.inj h
            rfl
        · rw [if_neg hKind] at h ⊢
          exact ih h
      · rw [if_neg hInside] at h ⊢
        cases Option.some.inj h
        rfl

theorem stores_parseExtensionsInto {turns data dataLen : Nat} {hostname stored : Buffer}
    (h : (parseExtensionsInto turns hostname data dataLen).value mem = some stored) :
    Stores hostname ((parseExtensions data dataLen).value mem) stored := by
  rw [parseExtensionsInto, Reader.value_bind] at h
  cases hFound : (loop (extensionTurn data dataLen) turns 0).value mem with
  | none =>
      rw [hFound] at h
      cases h
  | some found =>
      rw [hFound] at h
      -- As many turns more as there are bytes make the two loops comparable.
      have hList := parseExtensionList_of_loop (loop_add hFound dataLen).1
      rw [Nat.add_comm, parseExtensionList_enough (by omega)] at hList
      rw [parseExtensions, hList]
      cases found with
      | none => exact (Option.some.inj h).symm
      | some place =>
          obtain ⟨extension, len⟩ := place
          have hNames := stores_serverNames (loop_add h len).1
          rw [Nat.add_comm, parseServerNames_enough (by omega)] at hNames
          exact hNames

/-- What the parser stores is the name that it finds, or nothing. -/
theorem stores_parseTlsHeaderInto {turns data dataLen : Nat} {hostname stored : Buffer}
    (h : (parseTlsHeaderInto turns data dataLen hostname).value mem = some stored) :
    Stores hostname ((parseTlsHeader data dataLen).value mem) stored := by
  rw [parseTlsHeader_eq_with]
  exact parseTlsHeaderWith_rel
    (R := fun name ended => ∀ stored, ended = some stored → Stores hostname name stored)
    (fun stored hStored => show Stores hostname none stored from (Option.some.inj hStored).symm)
    (fun _ _ _ hStored => stores_parseExtensionsInto hStored) data dataLen stored h

end Tun2Http
