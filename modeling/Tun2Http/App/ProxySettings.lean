import Tun2Http.App.HostPort
import Mathlib.Data.List.TakeWhile

/-! Which settings are usable of those that are saved. -/
namespace Tun2Http

open JavaString

/-! ### Dotted quads -/

/-- A digit of ASCII. -/
def AsciiDigit (ch : UInt16) : Prop := 0x30 ≤ ch.toNat ∧ ch.toNat ≤ 0x39

/-- The number that digits of ASCII write behind `value`. -/
def decimalFrom (value : Nat) (text : JavaString) : Nat :=
  text.foldl (fun value ch => 10 * value + (ch.toNat - 0x30)) value

/-- One decimal number of an address, from 0 to 255 and with at most three digits. -/
structure Octet (text : JavaString) : Prop where
  digits : ∀ ch ∈ text, AsciiDigit ch
  nonempty : text ≠ []
  three : text.length ≤ 3
  byte : decimalFrom 0 text ≤ 255

/-- Four of them, with dots between. -/
def DottedQuad (text : JavaString) : Prop :=
  (text.splitOn dot).length = 4 ∧ ∀ part ∈ text.splitOn dot, Octet part

theorem DottedQuad.parts {text : JavaString} (h : DottedQuad text) : ∃ a b c d : JavaString,
    Octet a ∧ Octet b ∧ Octet c ∧ Octet d ∧
      text = a ++ dot :: (b ++ dot :: (c ++ dot :: d)) := by
  obtain ⟨hFour, hOctets⟩ := h
  match hSplit : text.splitOn dot with
  | [] | [_] | [_, _] | [_, _, _] | _ :: _ :: _ :: _ :: _ :: _ => simp [hSplit] at hFour
  | [a, b, c, d] =>
      simp only [hSplit, List.forall_mem_cons] at hOctets
      obtain ⟨ha, hb, hc, hd, -⟩ := hOctets
      refine ⟨a, b, c, d, ha, hb, hc, hd, ?_⟩
      have hJoin : [dot].intercalate (text.splitOn dot) = text := List.intercalate_splitOn dot
      rw [hSplit] at hJoin
      simpa [List.intercalate] using hJoin.symm

theorem DottedQuad.length_le {text : JavaString} (h : DottedQuad text) : text.length ≤ 15 := by
  obtain ⟨a, b, c, d, ha, hb, hc, hd, hText⟩ := h.parts
  have := ha.three
  have := hb.three
  have := hc.three
  have := hd.three
  rw [hText]
  simp only [List.length_append, List.length_cons]
  omega

theorem DottedQuad.ne_nil {text : JavaString} (h : DottedQuad text) : text ≠ [] := by
  rintro rfl
  exact absurd h.1 (by decide)

/-- It is made of digits and dots. -/
theorem DottedQuad.units {text : JavaString} (h : DottedQuad text) :
    ∀ ch ∈ text, AsciiDigit ch ∨ ch = dot := by
  obtain ⟨a, b, c, d, ha, hb, hc, hd, hText⟩ := h.parts
  intro ch hch
  rw [hText] at hch
  simp only [List.mem_append, List.mem_cons] at hch
  rcases hch with hch | hch | hch | hch | hch | hch | hch
  · exact Or.inl (ha.digits ch hch)
  · exact Or.inr hch
  · exact Or.inl (hb.digits ch hch)
  · exact Or.inr hch
  · exact Or.inl (hc.digits ch hch)
  · exact Or.inr hch
  · exact Or.inl (hd.digits ch hch)

/-! ### What `inet_pton` makes of it -/

/-- The bytes of an ASCII text. -/
def asciiBytes (text : JavaString) : List UInt8 := text.map fun ch => UInt8.ofNat ch.toNat

theorem getStringUTFChars_ascii {text : JavaString} (h : ∀ ch ∈ text, 0 < ch.toNat ∧ ch.toNat < 0x80) :
    getStringUTFChars text = asciiBytes text := by
  induction text with
  | nil => rfl
  | cons ch rest ih =>
      have hFirst := h ch (List.mem_cons_self ..)
      have hRest := ih fun other hOther => h other (List.mem_cons_of_mem _ hOther)
      unfold getStringUTFChars asciiBytes at hRest ⊢
      rw [List.flatMap_cons, hRest, encodeUnit, if_pos hFirst]
      rfl

theorem le_decimalFrom (value : Nat) (text : JavaString) : value ≤ decimalFrom value text := by
  induction text generalizing value with
  | nil => exact Nat.le_refl _
  | cons ch rest ih =>
      have hRest := ih (10 * value + (ch.toNat - 0x30))
      change value ≤ decimalFrom (10 * value + (ch.toNat - 0x30)) rest
      omega

theorem inetPtonFrom_digits {text : JavaString} (hDigits : ∀ ch ∈ text, AsciiDigit ch)
    (value digits : Nat) (hThree : digits + text.length ≤ 3) (hByte : decimalFrom value text ≤ 255)
    (rest : List UInt8) (octets : List Nat) :
    inetPtonFrom (asciiBytes text ++ rest) octets digits value =
      inetPtonFrom rest octets (digits + text.length) (decimalFrom value text) := by
  induction text generalizing value digits with
  | nil => rfl
  | cons ch more ih =>
      obtain ⟨hLow, hHigh⟩ := hDigits ch (List.mem_cons_self ..)
      rw [List.length_cons] at hThree ⊢
      change decimalFrom (10 * value + (ch.toNat - 0x30)) more ≤ 255 at hByte
      have hNew : 10 * value + (ch.toNat - 0x30) ≤ 255 := (le_decimalFrom _ more).trans hByte
      have hToNat : (UInt8.ofNat ch.toNat).toNat = ch.toNat := by
        rw [UInt8.toNat_ofNat']
        omega
      have hDigit : (0x30 : UInt8) ≤ UInt8.ofNat ch.toNat ∧ UInt8.ofNat ch.toNat ≤ 0x39 := by
        rw [UInt8.le_iff_toNat_le, UInt8.le_iff_toNat_le, hToNat]
        exact ⟨hLow, hHigh⟩
      have hMore := ih (fun other hOther => hDigits other (List.mem_cons_of_mem _ hOther)) _
        (digits + 1) (by omega) hByte
      change inetPtonFrom (UInt8.ofNat ch.toNat :: (asciiBytes more ++ rest)) octets digits value = _
      rw [inetPtonFrom, if_pos hDigit]
      dsimp only
      rw [hToNat, if_neg (by omega), hMore]
      congr 1
      omega

theorem inetPtonFrom_octet {text : JavaString} (h : Octet text) {octets : List Nat}
    (hOctets : octets.length < 3) (rest : List UInt8) :
    inetPtonFrom (asciiBytes text ++ 0x2e :: rest) octets 0 0 =
      inetPtonFrom rest (octets ++ [decimalFrom 0 text]) 0 0 := by
  have hSome : 0 < 0 + text.length := by
    have := List.length_pos_iff.mpr h.nonempty
    omega
  rw [inetPtonFrom_digits h.digits 0 0 (by have := h.three; omega) h.byte, inetPtonFrom,
    if_neg (by decide), if_pos ⟨rfl, hSome, hOctets⟩]

theorem DottedQuad.inetPton {text : JavaString} (h : DottedQuad text) :
    (inetPton (asciiBytes text)).isSome = true := by
  obtain ⟨a, b, c, d, ha, hb, hc, hd, hText⟩ := h.parts
  have hBytes : asciiBytes text = asciiBytes a ++ 0x2e :: (asciiBytes b ++ 0x2e ::
      (asciiBytes c ++ 0x2e :: asciiBytes d)) := by
    rw [hText]
    simp only [asciiBytes, List.map_append, List.map_cons]
    rfl
  have hLast := inetPtonFrom_digits hd.digits 0 0 (by have := hd.three; omega) hd.byte []
    [decimalFrom 0 a, decimalFrom 0 b, decimalFrom 0 c]
  have hSome := List.length_pos_iff.mpr hd.nonempty
  rw [List.append_nil, inetPtonFrom, if_pos ⟨rfl, by omega⟩] at hLast
  rw [Tun2Http.inetPton, hBytes, inetPtonFrom_octet ha (by decide), inetPtonFrom_octet hb (by simp),
    inetPtonFrom_octet hc (by simp)]
  exact hLast ▸ rfl

/-! ### The parts of a text -/

theorem dropTrailing_eq_nil {parts : List JavaString} :
    dropTrailing parts = [] ↔ ∀ part ∈ parts, part = [] := by
  induction parts with
  | nil => simp [dropTrailing]
  | cons part rest ih =>
      rw [List.forall_mem_cons, ← ih, dropTrailing]
      cases dropTrailing rest with
      | nil => split_ifs with hPart <;> simp [hPart]
      | cons later more => simp

theorem head?_dropTrailing {parts : List JavaString} (h : dropTrailing parts ≠ []) :
    (dropTrailing parts).head? = parts.head? := by
  cases parts with
  | nil => exact absurd rfl h
  | cons part rest =>
      rw [dropTrailing] at h ⊢
      cases hRest : dropTrailing rest with
      | nil =>
          rw [hRest] at h
          dsimp only at h ⊢
          split_ifs at h ⊢ with hPart
          · exact absurd rfl h
          · rfl
      | cons later more => rfl

theorem dropTrailing_of_nonempty {parts : List JavaString} (h : ∀ part ∈ parts, part ≠ []) :
    dropTrailing parts = parts := by
  induction parts with
  | nil => rfl
  | cons part rest ih =>
      rw [List.forall_mem_cons] at h
      rw [dropTrailing, ih h.2]
      cases rest with
      | nil => exact if_neg h.1
      | cons later more => rfl

theorem head?_splitOn (ch : UInt16) (text : JavaString) :
    (text.splitOn ch).head? = some (text.takeWhile (· ≠ ch)) := by
  induction text with
  | nil => rfl
  | cons first rest ih =>
      rw [List.splitOn_cons_eq_if_modifyHead]
      by_cases hFirst : first = ch
      · simp [hFirst]
      · rw [if_neg (by simpa using hFirst), List.head?_modifyHead, ih]
        simp [hFirst]

theorem splitOn_all_nil {ch : UInt16} {text : JavaString} :
    (∀ part ∈ text.splitOn ch, part = []) ↔ ∀ other ∈ text, other = ch := by
  induction text with
  | nil => simp
  | cons first rest ih =>
      rw [List.splitOn_cons_eq_if_modifyHead]
      by_cases hFirst : first = ch
      · simp [hFirst, ← ih]
      · rw [if_neg (by simpa using hFirst)]
        refine iff_of_false (fun hAll => ?_) fun hAll => hFirst (hAll first (List.mem_cons_self ..))
        cases hSplit : rest.splitOn ch with
        | nil => exact List.splitOn_ne_nil ch rest hSplit
        | cons part more => simp [hSplit] at hAll

/-- The text before the first colon. -/
def hostPart (text : JavaString) : JavaString := text.takeWhile (· ≠ colon)

/-- The text between the first colon and the next one, where other characters follow. -/
def portPart (text : JavaString) : Option JavaString :=
  match text.dropWhile (· ≠ colon) with
  | [] => none
  | _ :: tail => if tail.all (· = colon) then none else some (tail.takeWhile (· ≠ colon))

/-- A text with a colon, at its first one. -/
theorem dropWhile_colon {text tail : JavaString} {ch : UInt16}
    (hTail : text.dropWhile (· ≠ colon) = ch :: tail) :
    text = hostPart text ++ colon :: tail ∧ colon ∉ hostPart text := by
  have hJoin := List.takeWhile_append_dropWhile (p := (· ≠ colon)) (l := text)
  have hFirst := List.head_dropWhile_not (· ≠ colon) (l := text) (hTail ▸ List.cons_ne_nil _ _)
  obtain rfl : ch = colon := by
    simpa only [hTail, List.head_cons, decide_eq_false_iff_not, not_not] using hFirst
  refine ⟨?_, fun hIn => ?_⟩
  · rw [hTail] at hJoin
    exact hJoin.symm
  · simpa using List.mem_takeWhile_imp hIn

theorem split_colon {text : JavaString} (h : ¬ ∀ ch ∈ text, ch = colon) :
    (split colon text)[0]? = some (hostPart text) ∧ (split colon text)[1]? = portPart text := by
  cases hTail : text.dropWhile (· ≠ colon) with
  | nil =>
      have hNone : ∀ ch ∈ text, ch ≠ colon := by simpa using List.dropWhile_eq_nil_iff.mp hTail
      have hHost : hostPart text = text := List.takeWhile_eq_self_iff.mpr (by simpa using hNone)
      rw [split, if_neg fun hIn => hNone colon hIn rfl, hHost, portPart, hTail]
      exact ⟨rfl, rfl⟩
  | cons ch tail =>
      obtain ⟨hText, hHost⟩ := dropWhile_colon hTail
      have hIn : colon ∈ text := by
        rw [hText]
        simp
      have hSplit : split colon text = dropTrailing (hostPart text :: tail.splitOn colon) := by
        rw [split, if_pos hIn]
        conv_lhs => rw [hText]
        rw [List.splitOn_append_cons_self_of_not_mem hHost]
      rw [hSplit, dropTrailing, portPart, hTail]
      dsimp only
      by_cases hAll : ∀ other ∈ tail, other = colon
      · have hSome : hostPart text ≠ [] := by
          intro hEmpty
          rw [hEmpty, List.nil_append] at hText
          exact h fun other hOther => by
            rw [hText] at hOther
            exact (List.mem_cons.mp hOther).elim id (hAll other)
        have hColons : tail.all (· = colon) = true := by simpa using hAll
        rw [dropTrailing_eq_nil.mpr (splitOn_all_nil.mpr hAll), if_pos hColons]
        dsimp only
        rw [if_neg hSome]
        exact ⟨rfl, rfl⟩
      · have hNot : dropTrailing (tail.splitOn colon) ≠ [] := fun hNil =>
          hAll (splitOn_all_nil.mp (dropTrailing_eq_nil.mp hNil))
        have hHead := (head?_dropTrailing hNot).trans (head?_splitOn colon tail)
        have hOther : ¬ tail.all (· = colon) = true := by simpa using hAll
        rw [if_neg hOther, ← hHead]
        cases hLater : dropTrailing (tail.splitOn colon) with
        | nil => exact absurd hLater hNot
        | cons part more => exact ⟨rfl, rfl⟩

/-- Java splits it in four, too. -/
theorem DottedQuad.split {text : JavaString} (h : DottedQuad text) : (split dot text).length = 4 := by
  have hParts := dropTrailing_of_nonempty fun part hPart => (h.2 part hPart).nonempty
  unfold JavaString.split
  split_ifs with hDot
  · rw [hParts]
    exact h.1
  · have hOne := h.1
    rw [List.splitOn_eq_singleton hDot] at hOne
    cases hOne

/-! ### The settings -/

/-- The text is refused, or throws: its port is not a number, or its host is not in four
parts. -/
def NotSaved (text : JavaString) : Prop :=
  (∃ port, portPart text = some port ∧ parseInt port = none) ∨ (split dot (hostPart text)).length ≠ 4

/-- The text has an address and a port. -/
def Complete (text : JavaString) : Prop :=
  DottedQuad (hostPart text) ∧
    ∃ port value, portPart text = some port ∧ parseInt port = some value ∧ 1 ≤ value ∧ value ≤ 65535

/-- The port that is saved. -/
def portOf (text : JavaString) : Option Int :=
  match portPart text with
  | some port => parseInt port
  | none => some 0

theorem parseAndSaveHostPort_eq {text : JavaString} (h : ¬ ∀ ch ∈ text, ch = colon) :
    parseAndSaveHostPort text = match portOf text with
      | none => .refused
      | some port =>
          if (split dot (hostPart text)).length ≠ 4 then .refused else .saved ⟨hostPart text, port⟩ := by
  obtain ⟨hHost, hPort⟩ := split_colon h
  have hSome : text ≠ [] := fun hNil => h (by simp [hNil])
  unfold parseAndSaveHostPort
  rw [if_neg hSome]
  dsimp only
  rw [hHost, hPort]
  rfl

/-- A text of colons has no part. -/
theorem parseAndSaveHostPort_colons {text : JavaString} (h : ∀ ch ∈ text, ch = colon)
    (hSome : text ≠ []) : parseAndSaveHostPort text = .thrown := by
  have hParts : split colon text = [] := by
    obtain ⟨ch, hch⟩ := List.exists_mem_of_ne_nil text hSome
    rw [split, if_pos (h ch hch ▸ hch)]
    exact dropTrailing_eq_nil.mpr (splitOn_all_nil.mpr h)
  unfold parseAndSaveHostPort
  rw [if_neg hSome, hParts]
  rfl

theorem parseAndSaveHostPort_saved {text : JavaString} {settings : ProxySettings} :
    parseAndSaveHostPort text = .saved settings ↔
      settings.host = hostPart text ∧ portOf text = some settings.port ∧
        (split dot (hostPart text)).length = 4 := by
  by_cases hAll : ∀ ch ∈ text, ch = colon
  · have hNever : parseAndSaveHostPort text ≠ .saved settings := by
      by_cases hEmpty : text = []
      · subst hEmpty
        exact fun hSaved => by cases hSaved
      · rw [parseAndSaveHostPort_colons hAll hEmpty]
        exact fun hSaved => by cases hSaved
    have hHost : hostPart text = [] := by
      cases text with
      | nil => rfl
      | cons ch rest => simp [hostPart, hAll ch (List.mem_cons_self ..)]
    refine iff_of_false hNever fun hParts => ?_
    rw [hHost] at hParts
    exact absurd hParts.2.2 (by decide)
  · rw [parseAndSaveHostPort_eq hAll]
    obtain ⟨host, port⟩ := settings
    cases portOf text with
    | none => simp
    | some number =>
        dsimp only
        split_ifs with hFour
        · exact iff_of_false (fun hSaved => by cases hSaved) fun hParts => hFour hParts.2.2
        · rw [Entered.saved.injEq, ProxySettings.mk.injEq, Option.some.injEq]
          exact ⟨fun h => ⟨h.1.symm, h.2, not_not.mp hFour⟩, fun h => ⟨h.1.symm, h.2.1⟩⟩

/-- What takes the settings on can use them: `startNative` calls `jni_start`, the copies fit,
`inet_pton` reads the address, and the port is the same as 16 bits. -/
structure Usable (settings : ProxySettings) : Prop where
  quad : DottedQuad settings.host ∧ settings.host.length ≤ 15
  port : 1 ≤ settings.port ∧ settings.port ≤ 65535
  started : startNative settings = some (settings.host, settings.port)
  redirected : ∃ args redirect, jniStart settings.host settings.port = some args ∧
    redirectOf args = some redirect ∧ redirect.version = 4 ∧
      (inetPton redirect.raddr).isSome = true ∧ (redirect.rport.toNat : Int) = settings.port

theorem usable_iff {settings : ProxySettings} : Usable settings ↔
    DottedQuad settings.host ∧ 1 ≤ settings.port ∧ settings.port ≤ 65535 := by
  refine ⟨fun h => ⟨h.quad.1, h.port⟩, fun ⟨hQuad, hLow, hHigh⟩ => ?_⟩
  have hUnits : ∀ ch ∈ settings.host, 0x2e ≤ ch.toNat ∧ ch.toNat ≤ 0x39 := by
    intro ch hch
    rcases hQuad.units ch hch with hDigit | rfl
    · exact ⟨by have := hDigit.1; omega, hDigit.2⟩
    · decide
  have hBytes : getStringUTFChars settings.host = asciiBytes settings.host :=
    getStringUTFChars_ascii fun ch hch => by have := hUnits ch hch; omega
  have hLength : (asciiBytes settings.host).length ≤ 15 := by
    rw [asciiBytes, List.length_map]
    exact hQuad.length_le
  have hVersion : (0x3a : UInt8) ∉ asciiBytes settings.host := by
    intro hIn
    obtain ⟨ch, hch, hColon⟩ := List.mem_map.mp hIn
    have hToNat := congrArg UInt8.toNat hColon
    have := hUnits ch hch
    rw [UInt8.toNat_ofNat', Nat.mod_eq_of_lt (by omega)] at hToNat
    rw [hToNat] at this
    exact absurd this (by decide)
  refine ⟨⟨hQuad, hQuad.length_le⟩, ⟨hLow, hHigh⟩, ?_, ?_⟩
  · exact if_pos ⟨by omega, hQuad.ne_nil⟩
  · refine ⟨⟨asciiBytes settings.host, settings.port⟩,
      ⟨asciiBytes settings.host, BitVec.ofInt 16 settings.port⟩, ?_, ?_, if_neg hVersion, hQuad.inetPton, ?_⟩
    · rw [jniStart, hBytes, strcpy, if_pos (by omega)]
      rfl
    · rw [redirectOf, strcpy, if_pos (by dsimp only; omega)]
      rfl
    · rw [BitVec.toNat_ofInt]
      omega

/-- Which texts are refused or give usable settings. -/
theorem saved_usable_iff (text : JavaString) :
    (∀ settings, parseAndSaveHostPort text = .saved settings → Usable settings) ↔
      NotSaved text ∨ Complete text := by
  constructor
  · intro hUsable
    by_contra hNeither
    obtain ⟨hKept, hIncomplete⟩ := not_or.mp hNeither
    obtain ⟨hNumber, hFour⟩ := not_or.mp hKept
    cases hPort : portOf text with
    | none =>
        unfold portOf at hPort
        split at hPort
        · rename_i port hText
          exact hNumber ⟨port, hText, hPort⟩
        · cases hPort
    | some value =>
        have hSaved : parseAndSaveHostPort text = .saved ⟨hostPart text, value⟩ :=
          parseAndSaveHostPort_saved.mpr ⟨rfl, hPort, not_not.mp hFour⟩
        obtain ⟨hQuad, hLow, hHigh⟩ := usable_iff.mp (hUsable _ hSaved)
        unfold portOf at hPort
        split at hPort
        · rename_i port hText
          exact hIncomplete ⟨hQuad, port, value, hText, hPort, hLow, hHigh⟩
        · cases hPort
          exact absurd hLow (by simp)
  · rintro hEither settings hSaved
    obtain ⟨hHost, hPort, hFour⟩ := parseAndSaveHostPort_saved.mp hSaved
    rcases hEither with (⟨port, hText, hNumber⟩ | hParts) | ⟨hQuad, port, value, hText, hNumber, hRange⟩
    · simp [portOf, hText, hNumber] at hPort
    · exact absurd hFour hParts
    · have hValue : value = settings.port := by simpa [portOf, hText, hNumber] using hPort
      rw [usable_iff, hHost, ← hValue]
      exact ⟨hQuad, hRange⟩

/-- A host alone is read with the port 0. -/
theorem parse_host {host : JavaString} (hHost : ∀ ch ∈ host, ch ≠ colon)
    (hFour : (split dot host).length = 4) : parseAndSaveHostPort host = .saved ⟨host, 0⟩ := by
  have hTake : hostPart host = host := List.takeWhile_eq_self_iff.mpr (by simpa using hHost)
  have hNone : portPart host = none := by
    rw [portPart, List.dropWhile_eq_nil_iff.mpr (by simpa using hHost)]
  rw [parseAndSaveHostPort_saved, hTake, portOf, hNone]
  exact ⟨rfl, rfl, hFour⟩

/-- `loadHostPort` shows the port 80 as none, and that is read back as the port 0. -/
theorem loadHostPort_http {host : JavaString} (hQuad : DottedQuad host) :
    ∃ text, loadHostPort ⟨host, 80⟩ = some text ∧
      parseAndSaveHostPort text = .saved ⟨host, 0⟩ := by
  have hNone : ∀ ch ∈ host, ch ≠ colon := by
    rintro ch hch rfl
    rcases hQuad.units colon hch with hDigit | hDot
    · exact absurd hDigit.2 (by decide)
    · exact absurd hDot (by decide)
  exact ⟨host, by rw [loadHostPort, if_neg hQuad.ne_nil]; rfl, parse_host hNone hQuad.split⟩

/-- The text `1.2.3.4`. -/
def hostAlone : JavaString := [0x31, dot, 0x32, dot, 0x33, dot, 0x34]

/-- An address without a port is saved with the port 0, and nothing is started. -/
theorem saved_not_usable : parseAndSaveHostPort hostAlone = .saved ⟨hostAlone, 0⟩ ∧
    startNative ⟨hostAlone, 0⟩ = none ∧ ¬ Usable ⟨hostAlone, 0⟩ := by
  refine ⟨by decide, rfl, fun hUsable => ?_⟩
  exact absurd hUsable.port.1 (by decide)

end Tun2Http
