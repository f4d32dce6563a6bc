import Tun2Http.App.ProxySettings

/-! Settings that are shown again. `loadHostPort` writes what `parseAndSaveHostPort`
has saved, and leaves out the port 80; the parser takes a port that is left out for 0. -/
namespace Tun2Http

open JavaString

/-- The text is refused, or its settings are saved again when they are shown. -/
def SavedAgain (text : JavaString) : Prop :=
  ∀ settings, parseAndSaveHostPort text = .saved settings →
    ∃ shown, loadHostPort settings = some shown ∧ parseAndSaveHostPort shown = .saved settings

/-! ### Numbers that are written and read -/

/-- A text of characters that are one code unit each. -/
def units (chars : List Char) : JavaString := chars.map fun ch => UInt16.ofNat ch.toNat

theorem characterDigit_digitChar : ∀ digit < 10,
    characterDigit (UInt16.ofNat (Nat.digitChar digit).toNat) = some digit := by
  decide

theorem foldlM_toDigits (n : Nat) : (units (Nat.toDigits 10 n)).foldlM
    (fun value ch => (characterDigit ch).map (10 * value + ·)) 0 = some n := by
  induction n using Nat.strongRecOn with
  | ind n ih =>
      by_cases hSmall : n < 10
      · rw [Nat.toDigits_of_lt_base hSmall, units, List.map_singleton, List.foldlM_cons,
          characterDigit_digitChar n hSmall]
        simp
      · have hDigit := characterDigit_digitChar (n % 10) (Nat.mod_lt _ (by decide))
        have hFront := ih (n / 10) (by omega)
        unfold units at hFront ⊢
        rw [Nat.toDigits_of_base_le (by decide) (not_lt.mp hSmall), List.map_append, List.foldlM_append,
          hFront, List.map_singleton]
        simp only [Option.bind_eq_bind, Option.bind_some, List.foldlM_cons, hDigit, Option.map_some,
          List.foldlM_nil]
        exact congrArg some (Nat.div_add_mod n 10)

theorem asciiDigit_units (n : Nat) : ∀ ch ∈ units (Nat.toDigits 10 n), AsciiDigit ch := by
  intro ch hch
  obtain ⟨c, hIn, rfl⟩ := List.mem_map.mp hch
  obtain ⟨hLow, hHigh⟩ := Char.isDigit_iff_toNat.mp
    (Nat.isDigit_of_mem_toDigits (by decide) (by decide) hIn)
  have hZero : '0'.toNat = 0x30 := rfl
  have hNine : '9'.toNat = 0x39 := rfl
  unfold AsciiDigit
  rw [UInt16.toNat_ofNat']
  omega

theorem AsciiDigit.ne {ch other : UInt16} (h : AsciiDigit ch)
    (hOther : other.toNat < 0x30 ∨ 0x39 < other.toNat) : ch ≠ other := by
  rintro rfl
  obtain ⟨hLow, hHigh⟩ := h
  omega

theorem parseDigits_toDigits (n : Nat) : parseDigits (units (Nat.toDigits 10 n)) = some n := by
  have hSome : units (Nat.toDigits 10 n) ≠ [] := by
    simp [units]
  rw [parseDigits, if_neg hSome, foldlM_toDigits]

/-- An `int` is read as it is written. -/
theorem parseInt_toString {port : Int} (hLow : -2 ^ 31 ≤ port) (hHigh : port < 2 ^ 31) :
    parseInt (units (toString port).toList) = some port := by
  rw [Int.toString_eq_repr, Int.repr_eq_if]
  split_ifs with hSign
  · rw [Nat.toList_repr]
    have hDigits := asciiDigit_units port.toNat
    have hParse := parseDigits_toDigits port.toNat
    cases hText : units (Nat.toDigits 10 port.toNat) with
    | nil => simp [hText, parseDigits] at hParse
    | cons first rest =>
        rw [hText] at hDigits hParse
        have hFirst := hDigits first (List.mem_cons_self ..)
        rw [parseInt, if_neg (hFirst.ne (by decide)), if_neg (hFirst.ne (by decide)), hParse,
          Option.bind_some, if_pos (by omega), Int.toNat_of_nonneg hSign]
  · have hMinus : units ("-" ++ (-port).toNat.repr).toList =
        0x2d :: units (Nat.toDigits 10 (-port).toNat) := by
      rw [String.toList_append, Nat.toList_repr]
      rfl
    rw [hMinus, parseInt, if_pos rfl, parseDigits_toDigits, Option.bind_some, if_pos (by omega)]
    have hBack : (((-port).toNat : Nat) : Int) = -port := Int.toNat_of_nonneg (by omega)
    rw [hBack, neg_neg]

/-- What is read is an `int`. -/
theorem parseInt_range {text : JavaString} {value : Int} (h : parseInt text = some value) :
    -2 ^ 31 ≤ value ∧ value < 2 ^ 31 := by
  cases text with
  | nil => cases h
  | cons first rest =>
      rw [parseInt] at h
      split_ifs at h
      all_goals
        obtain ⟨number, -, hNumber⟩ := Option.bind_eq_some_iff.mp h
        split_ifs at hNumber with hBound
        obtain rfl := Option.some.inj hNumber
        omega

/-- It has no colon. -/
theorem ne_colon_of_mem_toString (port : Int) : ∀ ch ∈ units (toString port).toList, ch ≠ colon := by
  have hDigits : ∀ n, ∀ ch ∈ units (Nat.toDigits 10 n), ch ≠ colon := fun n ch hch =>
    (asciiDigit_units n ch hch).ne (by decide)
  rw [Int.toString_eq_repr, Int.repr_eq_if]
  split_ifs with hSign
  · rw [Nat.toList_repr]
    exact hDigits _
  · rw [String.toList_append, Nat.toList_repr]
    intro ch hch
    rcases List.mem_cons.mp hch with rfl | hRest
    · decide
    · exact hDigits _ ch hRest

/-! ### The text that is shown -/

theorem portOf_range {text : JavaString} {port : Int} (h : portOf text = some port) :
    -2 ^ 31 ≤ port ∧ port < 2 ^ 31 := by
  unfold portOf at h
  split at h
  · exact parseInt_range h
  · obtain rfl := Option.some.inj h
    decide

/-- A host and a port are read as they are shown, with a colon between. -/
theorem parse_hostPort {host : JavaString} {port : Int} (hHost : ∀ ch ∈ host, ch ≠ colon)
    (hFour : (split dot host).length = 4) (hPort : -2 ^ 31 ≤ port ∧ port < 2 ^ 31) :
    parseAndSaveHostPort (host ++ colon :: units (toString port).toList) = .saved ⟨host, port⟩ := by
  have hNone := ne_colon_of_mem_toString port
  have hParse := parseInt_toString hPort.1 hPort.2
  have hTake : hostPart (host ++ colon :: units (toString port).toList) = host := by
    rw [hostPart, List.takeWhile_append_of_pos (by simpa using hHost)]
    simp
  have hDrop : (host ++ colon :: units (toString port).toList).dropWhile (· ≠ colon) =
      colon :: units (toString port).toList := by
    rw [List.dropWhile_append_of_pos (by simpa using hHost)]
    simp
  have hSome : ¬ (units (toString port).toList).all (· = colon) = true := by
    cases hText : units (toString port).toList with
    | nil =>
        rw [hText] at hParse
        cases hParse
    | cons first rest =>
        have hFirst := hNone first (hText ▸ List.mem_cons_self ..)
        simp [hFirst]
  have hText : portPart (host ++ colon :: units (toString port).toList) =
      some (units (toString port).toList) := by
    rw [portPart, hDrop]
    dsimp only
    rw [if_neg hSome, List.takeWhile_eq_self_iff.mpr (by simpa using hNone)]
  rw [parseAndSaveHostPort_saved, hTake, portOf, hText]
  exact ⟨rfl, hParse, hFour⟩

theorem ne_colon_of_mem_hostPart (text : JavaString) : ∀ ch ∈ hostPart text, ch ≠ colon := by
  intro ch hch
  simpa using List.mem_takeWhile_imp hch

/-- Settings that are saved are saved again, except those with the port 80. -/
theorem shown_saved_iff {text : JavaString} {settings : ProxySettings}
    (hSaved : parseAndSaveHostPort text = .saved settings) :
    (∃ shown, loadHostPort settings = some shown ∧ parseAndSaveHostPort shown = .saved settings) ↔
      settings.port ≠ 80 := by
  obtain ⟨hHost, hPort, hFour⟩ := parseAndSaveHostPort_saved.mp hSaved
  obtain ⟨host, port⟩ := settings
  dsimp only at hHost hPort ⊢
  have hNone : ∀ ch ∈ host, ch ≠ colon := hHost ▸ ne_colon_of_mem_hostPart text
  rw [← hHost] at hFour
  have hSome : host ≠ [] := by
    rintro rfl
    exact absurd hFour (by decide)
  unfold loadHostPort
  dsimp only
  rw [if_neg hSome]
  split_ifs with hHttp
  · refine iff_of_false ?_ (not_not.mpr hHttp)
    rintro ⟨shown, hShown, hAgain⟩
    obtain rfl := Option.some.inj hShown
    rw [parse_host hNone hFour, hHttp] at hAgain
    cases hAgain
  · exact iff_of_true ⟨_, rfl, parse_hostPort hNone hFour (portOf_range hPort)⟩ hHttp

/-- The settings of a text survive exactly if it is not one that is accepted with
the port 80 written out. -/
theorem saved_again_iff (text : JavaString) : SavedAgain text ↔
    ¬ ((split dot (hostPart text)).length = 4 ∧
      ∃ port, portPart text = some port ∧ parseInt port = some 80) := by
  have hEighty : (∃ port, portPart text = some port ∧ parseInt port = some 80) ↔
      portOf text = some 80 := by
    unfold portOf
    cases portPart text with
    | none => simp
    | some port => simp
  rw [hEighty]
  constructor
  · rintro hAgain ⟨hFour, hPort⟩
    have hSaved : parseAndSaveHostPort text = .saved ⟨hostPart text, 80⟩ :=
      parseAndSaveHostPort_saved.mpr ⟨rfl, hPort, hFour⟩
    exact (shown_saved_iff hSaved).mp (hAgain _ hSaved) rfl
  · intro hNot settings hSaved
    obtain ⟨-, hPort, hFour⟩ := parseAndSaveHostPort_saved.mp hSaved
    refine (shown_saved_iff hSaved).mpr fun hHttp => hNot ⟨hFour, ?_⟩
    rw [hPort, hHttp]

/-- The text `1.2.3.4:80` is shown without its port. -/
theorem http_not_saved_again : ¬ SavedAgain (hostAlone ++ [colon, 0x38, 0x30]) := by
  intro hAgain
  have hSaved : parseAndSaveHostPort (hostAlone ++ [colon, 0x38, 0x30]) = .saved ⟨hostAlone, 80⟩ := by
    decide
  exact (shown_saved_iff hSaved).mp (hAgain _ hSaved) rfl

end Tun2Http
