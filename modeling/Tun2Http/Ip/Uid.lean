import Tun2Http.Native.Icmp
import Tun2Http.Native.Uid

/-! The user of a packet. From tables of sockets as the kernel prints them, `get_uid` reads back
the sockets, and finds the user of the socket that the packet is from. -/
namespace Tun2Http

open Machine Machine.Scan

/-- An address as `%08X` prints its words. -/
def hexAddress (address : List U32) : List UInt8 := address.flatMap fun word => padded 16 8 word.toNat

/-- A socket in a table, with all that its line shows. The addresses are in words as the host
loads them, and `rest` is what comes after the user. -/
structure SocketLine (words : Nat) where
  width : Nat
  slot : Nat
  localAddress : List U32
  localPort : U16
  remoteAddress : List U32
  remotePort : U16
  state : UInt8
  sendQueue : U32
  receiveQueue : U32
  timer : UInt8
  expires : Nat
  retransmits : U32
  uid : U32
  rest : List UInt8
  localWords : localAddress.length = words
  remoteWords : remoteAddress.length = words
  plain : ∀ c ∈ rest, c ≠ 10 ∧ c ≠ 0

namespace SocketLine

variable {words : Nat}

/-- `"%4d: %08X:%04X %08X:%04X %02X %08X:%08X %02X:%08lX %08X %5u "` and what comes after it; an
address is printed with `"%08X%08X%08X%08X"` for IPv6. -/
def columns (l : SocketLine words) : List (List UInt8) :=
  [spaced 10 l.width l.slot, [58], [32], hexAddress l.localAddress, [58],
    padded 16 4 l.localPort.toNat, [32], hexAddress l.remoteAddress, [58],
    padded 16 4 l.remotePort.toNat, [32], padded 16 2 l.state.toNat, [32],
    padded 16 8 l.sendQueue.toNat, [58], padded 16 8 l.receiveQueue.toNat, [32],
    padded 16 2 l.timer.toNat, [58], padded 16 8 l.expires, [32],
    padded 16 8 l.retransmits.toNat, [32], spaced 10 5 l.uid.toNat, [32], l.rest]

def text (l : SocketLine words) : List UInt8 := l.columns.flatten

/-- What `get_uid_sub` looks at: a socket with a port, of a user that is not negative as an `int`. -/
def Shown (l : SocketLine words) : Prop := l.localPort ≠ 0 ∧ l.uid.toNat < 2 ^ 31

instance (l : SocketLine words) : Decidable l.Shown := inferInstanceAs (Decidable (_ ∧ _))

/-- Such a socket is from `sport`. -/
def From (l : SocketLine words) (sport : Nat) : Prop := l.Shown ∧ l.localPort.toNat = sport

/-- It is the socket that talks to `daddr` and `dport`. -/
def TalksTo (l : SocketLine words) (daddr : List UInt8) (dport : Nat) : Prop :=
  l.remoteAddress.flatMap le32Bytes = daddr ∧ l.remotePort.toNat = dport

instance (l : SocketLine words) (sport : Nat) : Decidable (l.From sport) :=
  inferInstanceAs (Decidable (_ ∧ _))

instance (l : SocketLine words) (daddr : List UInt8) (dport : Nat) : Decidable (l.TalksTo daddr dport) :=
  inferInstanceAs (Decidable (_ ∧ _))

end SocketLine

/-- The user of the first socket with the whole key, or of the last one with the source port. -/
def owner {words : Nat} (lines : List (SocketLine words)) (sport : Nat) (daddr : List UInt8)
    (dport : Nat) : Option Nat :=
  ((lines.find? fun l => l.From sport ∧ l.TalksTo daddr dport).or
    (lines.reverse.find? fun l => l.From sport)).map fun l => l.uid.toNat

/-- A table under its heading. Its lines fit into the buffer of `get_uid_sub`. -/
structure SocketTable (words : Nat) where
  heading : List UInt8
  lines : List (SocketLine words)
  heading_plain : 10 ∉ heading
  heading_short : heading.length < 249
  lines_short : ∀ l ∈ lines, l.text.length < 249

/-- The file that shows it. -/
def SocketTable.text {words : Nat} (t : SocketTable words) : List UInt8 :=
  (t.heading :: t.lines.map SocketLine.text).flatMap (· ++ [10])

/-- The words of an address in a file. -/
def ProcFile.words : ProcFile → Nat
  | .icmp | .tcp | .udp => 1
  | .icmp6 | .tcp6 | .udp6 => 4

/-- The owner in the table that `get_uid_sub` looks into. -/
def owned (tables : (file : ProcFile) → Option (SocketTable file.words)) (version : Nat) (protocol : UInt8)
    (sport : Nat) (daddr : List UInt8) (dport : Nat) : Option Nat :=
  (procFile version protocol).bind fun file =>
    (tables file).bind fun table => owner table.lines sport daddr dport

/-! Characters. -/

/-- A line goes on, and so does a string. -/
def Inner (text : List UInt8) : Prop := ∀ c ∈ text, c ≠ 10 ∧ c ≠ 0

theorem inner_numeral {base n : Nat} {text : List UInt8} (h : Numeral base text n) : Inner text := by
  intro c hc
  have hDigit := h.digits c hc
  constructor
  · exact fun hEq => hDigit.ne.2.2.2.2 (hEq ▸ Or.inr (by decide))
  · rintro rfl
    exact not_isDigit_of_value (by decide) (by decide) (by decide) hDigit

theorem numeral_hex (width n : Nat) : Numeral 16 (padded 16 width n) n :=
  numeral_padded (by decide) (by decide) width n

theorem inner_spaced (width n : Nat) : Inner (spaced 10 width n) := by
  obtain ⟨blanks, text, hText, hBlanks, hNumeral⟩ : ∃ blanks text, spaced 10 width n = blanks ++ text ∧
    (∀ c ∈ blanks, c = 32) ∧ Numeral 10 text n := spaced_eq (by decide) (by decide) width n
  intro c hc
  rw [hText] at hc
  rcases List.mem_append.mp hc with hBlank | hDigit
  · rw [hBlanks c hBlank]
    decide
  · exact inner_numeral hNumeral c hDigit

theorem digits_hexAddress (address : List U32) : ∀ c ∈ hexAddress address, IsDigit 16 c := by
  intro c hc
  obtain ⟨word, -, hIn⟩ := List.mem_flatMap.mp hc
  exact (numeral_hex 8 word.toNat).digits c hIn

theorem length_hexAddress (address : List U32) : (hexAddress address).length = 8 * address.length := by
  induction address with
  | nil => rfl
  | cons word address ih =>
      have hWord : (padded 16 8 word.toNat).length = 8 := length_padded (by decide) word.isLt
      rw [hexAddress, List.flatMap_cons, List.length_append, hWord]
      simp only [List.length_cons]
      have := ih
      unfold hexAddress at this
      omega

theorem numeral_hexAddress {address : List U32} (hSome : address ≠ []) :
    ∃ n, Numeral 16 (hexAddress address) n := by
  refine ⟨_, fun hNone => hSome ?_, digits_hexAddress address, rfl⟩
  have hLength := length_hexAddress address
  rw [hNone] at hLength
  exact List.length_eq_zero_iff.mp (by simpa using hLength.symm)

/-! Addresses. -/

theorem byte_of_digits : ∀ a < 16, ∀ b < 16,
    char2nible (digit a) <<< 4 ||| char2nible (digit b) = (16 * a + b).toUInt8 := by decide

/-- A printed word is read back byte by byte, as it is in memory. -/
theorem htonl_hex_word (word : U32) (rest : List UInt8) :
    htonlWords (hex2bytes (padded 16 8 word.toNat ++ rest)) =
      le32Bytes word ++ htonlWords (hex2bytes rest) := by
  have hText : padded 16 8 word.toNat = digits 16 8 word.toNat := by
    have hSize : size 16 word.toNat ≤ 8 := Nat.log_lt_of_lt_pow' (by decide) word.isLt
    rw [padded, max_eq_left hSize]
  have hLt := word.isLt
  rw [hText]
  simp only [digits, List.nil_append, List.cons_append, hex2bytes, htonlWords, le32Bytes]
  generalize word.toNat = n at hLt
  have hNibbles : ∀ a b, char2nible (digit (a % 16)) <<< 4 ||| char2nible (digit (b % 16)) =
      (16 * (a % 16) + b % 16).toUInt8 := fun a b =>
    byte_of_digits _ (Nat.mod_lt _ (by decide)) _ (Nat.mod_lt _ (by decide))
  rw [hNibbles, hNibbles, hNibbles, hNibbles,
    show 16 * (n / 16 % 16) + n % 16 = n % 256 by omega,
    show 16 * (n / 16 / 16 / 16 % 16) + n / 16 / 16 % 16 = n / 256 % 256 by omega,
    show 16 * (n / 16 / 16 / 16 / 16 / 16 % 16) + n / 16 / 16 / 16 / 16 % 16 = n / 65536 % 256 by omega,
    show 16 * (n / 16 / 16 / 16 / 16 / 16 / 16 / 16 % 16) + n / 16 / 16 / 16 / 16 / 16 / 16 % 16 =
      n / 16777216 by omega]

theorem htonl_hexAddress (address : List U32) :
    htonlWords (hex2bytes (hexAddress address)) = address.flatMap le32Bytes := by
  induction address with
  | nil => rfl
  | cons word address ih => rw [hexAddress, List.flatMap_cons, htonl_hex_word, ← hexAddress, ih]; rfl

/-! A line. -/

theorem toInt_ofInt_small {n : Nat} (h : n < 2 ^ 31) : (BitVec.ofInt 32 (n : Int)).toInt = n :=
  BitVec.toInt_ofInt_eq_self (by decide) (by omega) (by omega)

theorem storeDecimal_word (word : U32) : storeDecimal word.toNat = word.toInt := by
  have hLt := word.isLt
  rw [storeDecimal, show max (-2 ^ 63) (min (word.toNat : Int) (2 ^ 63 - 1)) = word.toNat by omega,
    BitVec.ofInt_natCast, BitVec.ofNat_toNat, BitVec.setWidth_eq]

theorem storeHex_small {n : Nat} (h : n < 2 ^ 31) : storeHex n = n := by
  rw [storeHex, if_neg (by rw [abs_of_nonneg] <;> omega)]
  exact toInt_ofInt_small h

theorem ends_sign {base : Nat} {c : UInt8} {rest : List UInt8} (hSign : c = 58 ∨ c = 32) :
    Ends base ([c] ++ rest) := by
  apply ends_append
  · rcases hSign with rfl | rfl <;> exact not_isDigit_of_value (by decide) (by decide) (by decide)
  · rcases hSign with rfl | rfl <;> decide

namespace SocketLine

variable {words : Nat}

theorem inner_text (l : SocketLine words) : Inner l.text := by
  have hHex : ∀ width n, Inner (padded 16 width n) := fun width n => inner_numeral (numeral_hex width n)
  have hAddress : ∀ address, Inner (hexAddress address) := by
    intro address c hc
    obtain ⟨word, -, hIn⟩ := List.mem_flatMap.mp hc
    exact hHex 8 _ c hIn
  have hSigns : Inner [58] ∧ Inner [32] := by simp [Inner]
  have hColumns : ∀ column ∈ l.columns, Inner column := by
    simp only [columns, List.forall_mem_cons, hHex, hAddress, inner_spaced, hSigns, true_and]
    exact ⟨l.plain, nofun⟩
  intro c hc
  obtain ⟨column, hColumn, hIn⟩ := List.mem_flatten.mp hc
  exact hColumns column hColumn c hIn

/-- The four fields of a line. -/
theorem scan_text {version : Nat} (l : SocketLine words) (hWords : hexWidth version = 8 * words)
    (hSome : words ≠ 0) (tail : List UInt8) : scan (uidFormat version) (l.text ++ tail) =
      [.number l.localPort.toNat, .word (hexAddress l.remoteAddress), .number l.remotePort.toNat,
        .number l.uid.toNat] := by
  obtain ⟨slotBlanks, slot, hSlot, hSlotBlanks, hSlotNumber⟩ : ∃ blanks text,
    spaced 10 l.width l.slot = blanks ++ text ∧ (∀ c ∈ blanks, c = 32) ∧ Numeral 10 text l.slot :=
    spaced_eq (by decide) (by decide) _ _
  obtain ⟨uidBlanks, uid, hUid, hUidBlanks, hUidNumber⟩ : ∃ blanks text,
    spaced 10 5 l.uid.toNat = blanks ++ text ∧ (∀ c ∈ blanks, c = 32) ∧ Numeral 10 text l.uid.toNat :=
    spaced_eq (by decide) (by decide) _ _
  have hHex : ∀ width n, Numeral 16 (padded 16 width n) n := numeral_hex
  have hColon : ∀ base rest, Ends base ([58] ++ rest) := fun base rest => ends_sign (Or.inl rfl)
  have hBlank : ∀ base rest, Ends base ([32] ++ rest) := fun base rest => ends_sign (Or.inr rfl)
  have hLocalSome : l.localAddress ≠ [] := List.ne_nil_of_length_pos (by have := l.localWords; omega)
  obtain ⟨m, hLocal⟩ := numeral_hexAddress hLocalSome
  have hRemote : (hexAddress l.remoteAddress).length = hexWidth version := by
    rw [length_hexAddress, l.remoteWords, hWords]
  have hRemoteSome : hexAddress l.remoteAddress ≠ [] :=
    List.ne_nil_of_length_pos (by rw [hRemote, hWords]; omega)
  have hBeforeUid : ∀ c ∈ [32] ++ uidBlanks, IsSpace c := by
    intro c hc
    rcases List.mem_append.mp hc with hFirst | hMore
    · exact Or.inl (List.mem_singleton.mp hFirst)
    · exact Or.inl (hUidBlanks c hMore)
  simp only [text, columns, uidFormat, List.flatten_cons, List.flatten_nil, List.append_assoc, hSlot, hUid,
    ← hRemote]
  rw [scan_number (fun c hc => Or.inl (hSlotBlanks c hc)) hSlotNumber (hColon _ _), scan_char,
    scan_blank_number hLocal (hColon _ _), scan_char_number 58 (hHex _ _) (hBlank _ _), scan_space_word,
    scan_word isSpace_blank (fun c hc => (digits_hexAddress _ c hc).ne.2.2.2.2) hRemoteSome,
    scan_char_number 58 (hHex _ _) (hBlank _ _), scan_blank_number (hHex _ _) (hBlank _ _),
    scan_blank_number (hHex _ _) (hColon _ _), scan_char_number 58 (hHex _ _) (hBlank _ _),
    scan_blank_number (hHex _ _) (hColon _ _), scan_char_number 58 (hHex _ _) (hBlank _ _),
    scan_blank_number (hHex _ _) (hBlank _ _), scan_space_number, ← List.append_assoc [32] uidBlanks,
    scan_number hBeforeUid hUidNumber (hBlank _ _), scan_unkept (by decide)]
  rfl

/-- A line is read back, where there is a port and the user fits. -/
theorem uidEntry_text {version : Nat} (l : SocketLine words) (hWords : hexWidth version = 8 * words)
    (hSome : words ≠ 0) : uidEntry version (l.text ++ [10]) =
      if l.Shown then
        some
          { sport := l.localPort.toNat
            daddr := l.remoteAddress.flatMap le32Bytes
            dport := l.remotePort.toNat
            uid := l.uid.toNat }
      else none := by
  have hString : cString (l.text ++ [10]) = l.text ++ [10] := by
    rw [cString, List.takeWhile_eq_self_iff]
    intro c hc
    rcases List.mem_append.mp hc with hIn | hEnd
    · simpa using (l.inner_text c hIn).2
    · rw [List.mem_singleton.mp hEnd]
      decide
  have hPorts : ∀ port : U16, storeHex port.toNat = port.toNat := fun port =>
    storeHex_small (port.isLt.trans (by decide))
  have hWidth : (hexAddress l.remoteAddress).length = hexWidth version := by
    rw [length_hexAddress, l.remoteWords, hWords]
  have hPort : (0 < (l.localPort.toNat : Int)) ↔ l.localPort ≠ 0 := by
    rw [ne_eq, ← BitVec.toNat_inj]
    show _ ↔ ¬ l.localPort.toNat = 0
    omega
  have hUser : 0 ≤ l.uid.toInt ↔ l.uid.toNat < 2 ^ 31 := by
    have hLt := l.uid.isLt
    rw [BitVec.toInt_eq_toNat_cond]
    split_ifs <;> omega
  rw [uidEntry, hString, scan_text l hWords hSome]
  simp only [hPorts, storeDecimal_word, hWidth, htonl_hexAddress, hPort, hUser, true_and]
  by_cases hShown : l.Shown
  · have hBoth : l.localPort ≠ 0 ∧ l.uid.toNat < 2 ^ 31 := hShown
    have hSmall : 2 * l.uid.toNat < 2 ^ 32 := by have := hBoth.2; omega
    rw [if_pos hShown, if_pos hBoth, BitVec.toInt_eq_toNat_of_lt hSmall]
  · have hNot : ¬ (l.localPort ≠ 0 ∧ l.uid.toNat < 2 ^ 31) := hShown
    rw [if_neg hShown, if_neg hNot]

end SocketLine

/-! The search. -/

section Search

variable {words version sport dport : Nat} {daddr : List UInt8}

theorem owner_cons (l : SocketLine words) (lines : List (SocketLine words)) :
    owner (l :: lines) sport daddr dport =
      if l.From sport then
        if l.TalksTo daddr dport then some l.uid.toNat
        else some ((owner lines sport daddr dport).getD l.uid.toNat)
      else owner lines sport daddr dport := by
  unfold owner
  rw [List.find?_cons, List.reverse_cons, List.find?_append, List.find?_singleton]
  by_cases hFrom : l.From sport
  · by_cases hTalks : l.TalksTo daddr dport
    · simp [hFrom, hTalks]
    · simp only [hFrom, hTalks, and_false, decide_false, decide_true, if_true, if_false]
      cases lines.find? fun l => l.From sport ∧ l.TalksTo daddr dport with
      | some other => simp
      | none =>
          cases lines.reverse.find? fun l => l.From sport with
          | some other => simp
          | none => simp
  · simp [hFrom]

/-- The loop finds the owner, or keeps what it started with. -/
theorem searchUid_lines (hWords : hexWidth version = 8 * words) (hSome : words ≠ 0)
    (lines : List (SocketLine words)) (uid : Int) :
    searchUid version sport dport daddr (lines.map fun l => l.text ++ [10]) uid =
      ((owner lines sport daddr dport).map Int.ofNat).getD uid := by
  induction lines generalizing uid with
  | nil => rfl
  | cons l lines ih =>
      rw [List.map_cons, searchUid, l.uidEntry_text hWords hSome, owner_cons]
      by_cases hShown : ¬ l.Shown
      · have hFrom : ¬ l.From sport := fun h => hShown h.1
        rw [if_neg hShown, if_neg hFrom]
        exact ih uid
      · rw [not_not] at hShown
        have hFrom : l.From sport ↔ (l.localPort.toNat : Int) = sport := by
          rw [Nat.cast_inj]
          exact and_iff_right hShown
        have hTalks : l.TalksTo daddr dport ↔
            (l.remotePort.toNat : Int) = dport ∧ l.remoteAddress.flatMap le32Bytes = daddr := by
          rw [Nat.cast_inj]
          exact and_comm
        rw [if_pos hShown]
        dsimp only
        simp only [← hFrom, ← hTalks, ih]
        split_ifs
        · rfl
        · cases owner lines sport daddr dport <;> rfl
        · rfl

end Search

theorem hexWidth_of_procFile {version : Nat} {protocol : UInt8} {file : ProcFile}
    (h : procFile version protocol = some file) : hexWidth version = 8 * file.words ∧ file.words ≠ 0 := by
  unfold procFile at h
  unfold hexWidth
  split_ifs at h with hIcmp hIcmp6 hTcp hUdp
  all_goals
    cases h
    split_ifs <;> simp_all [ProcFile.words]

/-- `get_uid_sub` finds the owner in its table. -/
theorem getUidSub_tables (tables : (file : ProcFile) → Option (SocketTable file.words)) (version : Nat)
    (protocol : UInt8) (sport : Nat) (daddr : List UInt8) (dport : Nat) :
    getUidSub (fun file => (tables file).map SocketTable.text) version protocol sport daddr dport =
      ((owned tables version protocol sport daddr dport).map Int.ofNat).getD (-1) := by
  unfold getUidSub owned
  cases hFile : procFile version protocol with
  | none => rfl
  | some file =>
      obtain ⟨hWords, hSome⟩ := hexWidth_of_procFile hFile
      cases hTable : tables file with
      | none => simp [hTable]
      | some table =>
          have hLines : getLines 249 [] table.text =
              (table.heading :: table.lines.map SocketLine.text).map (· ++ [10]) := by
            apply getLines_file
            intro line hIn
            rcases List.mem_cons.mp hIn with rfl | hIn
            · exact ⟨table.heading_plain, table.heading_short⟩
            · obtain ⟨l, hl, rfl⟩ := List.mem_map.mp hIn
              exact ⟨fun hTen => (l.inner_text 10 hTen).1 rfl, table.lines_short l hl⟩
          simp only [hTable, Option.bind_some, Option.map_some, hLines, List.map_cons, List.tail_cons,
            List.map_map]
          exact searchUid_lines hWords hSome table.lines (-1)

/-- From the tables of the kernel, whichever of them can be read, `get_uid` finds the user of the
packet: for IPv4 first among the IPv6 sockets, under the mapped address, and then in the table of
its own version; in each table the socket with the whole key, or else the last one with the
source port. A socket of a user from 2^31 on is passed over. -/
theorem uid_of_owner (tables : (file : ProcFile) → Option (SocketTable file.words)) (version : Nat)
    (protocol : UInt8) (sport : Nat) (daddr : List UInt8) (dport : Nat) :
    getUid (fun file => (tables file).map SocketTable.text) version protocol sport daddr dport =
      (((if version = 4 then
          owned tables 6 protocol sport (List.replicate 10 0 ++ [255, 255] ++ daddr) dport
        else none).or (owned tables version protocol sport daddr dport)).map Int.ofNat).getD (-1) := by
  unfold getUid
  dsimp only
  simp only [getUidSub_tables]
  by_cases hVersion : version = 4
  · rw [if_pos hVersion, if_pos hVersion]
    cases owned tables 6 protocol sport (List.replicate 10 0 ++ [255, 255] ++ daddr) dport with
    | none => exact if_pos (by decide)
    | some uid => exact if_neg (not_lt.mpr (Int.natCast_nonneg uid))
  · rw [if_neg hVersion, if_neg hVersion]
    exact if_pos (by decide)

/-- A line of the user `uid`. -/
def browserLine {words : Nat} (localAddress remoteAddress : List U32) (localPort remotePort : U16) (uid : U32)
    (hLocal : localAddress.length = words) (hRemote : remoteAddress.length = words) : SocketLine words where
  width := 4
  slot := 0
  localAddress := localAddress
  localPort := localPort
  remoteAddress := remoteAddress
  remotePort := remotePort
  state := 1
  sendQueue := 0
  receiveQueue := 0
  timer := 0
  expires := 0
  retransmits := 0
  uid := uid
  rest := [32, 48]
  localWords := hLocal
  remoteWords := hRemote
  plain := by simp

/-- Three sockets with the source port 4000: one to another server, the one of the packet, and one
of a user that does not fit. -/
def browserTable : SocketTable 1 where
  heading := [32, 115, 108]
  lines :=
    [browserLine [0x0100007F#32] [0x01010101#32] 4000 80 10010 rfl rfl,
      browserLine [0x0100007F#32] [0x04030201#32] 4000 80 10020 rfl rfl,
      browserLine [0x0100007F#32] [0x04030201#32] 4000 80 0xFFFFFFFE#32 rfl rfl]
  heading_plain := by simp
  heading_short := by simp
  lines_short := by decide

/-- A socket of version 6 with another source port. -/
def browserTable6 : SocketTable 4 where
  heading := [32, 115, 108]
  lines :=
    [browserLine [0, 0, 0xFFFF0000#32, 0x0100007F#32] [0, 0, 0xFFFF0000#32, 0x04030201#32] 4001 80 10030 rfl rfl]
  heading_plain := by simp
  heading_short := by simp
  lines_short := by decide +kernel

/-- The tables for UDP and ICMP cannot be read. -/
def browserTables : (file : ProcFile) → Option (SocketTable file.words)
  | .tcp => some browserTable
  | .tcp6 => some browserTable6
  | _ => none

/-- The packet to 1.2.3.4 is of the second socket of version 4. -/
theorem uid_of_owner_browser :
    getUid (fun file => (browserTables file).map SocketTable.text) 4 ipprotoTcp 4000 [1, 2, 3, 4] 80 =
      10020 := by
  rw [uid_of_owner]
  decide

end Tun2Http
