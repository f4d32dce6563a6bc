import Tun2Http.Ip.Bounds

/-! The option loop of `handle_tcp`: how long it runs, what it reads, and what
it finds in a list of options that is written as it should be. -/
namespace Tun2Http

open Machine

/-- An option of a TCP header. An MSS or a window scale of another length is
`other` as well. -/
inductive TcpOption where
  | nop
  | mss (value : U16)
  | windowScale (shift : UInt8)
  | other (kind : UInt8) (body : List UInt8) (hKind : kind ≠ 0 ∧ kind ≠ 1)
      (hLength : body.length + 2 < 256) (hMss : ¬ (kind = 2 ∧ body.length = 2))
      (hScale : ¬ (kind = 3 ∧ body.length = 1))

namespace TcpOption

def encode : TcpOption → List UInt8
  | nop => [1]
  | mss value => 2 :: 4 :: field16 value.toNat
  | windowScale shift => [3, 3, shift]
  | other kind body _ _ _ _ => kind :: (body.length + 2).toUInt8 :: body

def encodeAll (options : List TcpOption) : List UInt8 := options.flatMap encode

def mss? : TcpOption → Option U16
  | mss value => some value
  | _ => none

def windowScale? : TcpOption → Option UInt8
  | windowScale shift => some shift
  | _ => none

/-- The last MSS, or `standard` where there is none. -/
def lastMss (options : List TcpOption) (standard : U16) : U16 :=
  (options.filterMap mss?).getLastD standard

/-- The last window scale, or `standard` where there is none. -/
def lastScale (options : List TcpOption) (standard : BitVec 8) : BitVec 8 :=
  ((options.filterMap windowScale?).map UInt8.toBitVec).getLastD standard

@[simp] theorem encodeAll_cons (option : TcpOption) (rest : List TcpOption) :
    encodeAll (option :: rest) = option.encode ++ encodeAll rest := rfl

theorem length_le_encodeAll (options : List TcpOption) :
    options.length ≤ (encodeAll options).length := by
  induction options with
  | nil => rfl
  | cons option rest ih =>
      have hSome : 1 ≤ option.encode.length := by
        cases option <;> simp [encode]
      rw [encodeAll_cons, List.length_append, List.length_cons]
      omega

end TcpOption

/-- The area that follows the header: options, and where they end early a zero with
anything behind it. -/
structure OptionList where
  options : List TcpOption
  ending : Option (List UInt8)

def OptionList.bytes (list : OptionList) : List UInt8 :=
  TcpOption.encodeAll list.options ++ match list.ending with
    | none => []
    | some padding => 0 :: padding

/-- The loop over the `size` bytes at `options`: it ends, reads nothing else, and
finds what a proper list says. A last turn sees that nothing is left. -/
structure OptionLoopSound (mem : Memory) (options size : Nat) (mss : U16) (ws : BitVec 8) : Prop where
  ends : ((decodeOptions (size + 1) options size mss ws).value mem).isSome = true
  inside : ∀ turns, ∀ offset ∈ (decodeOptions turns options size mss ws).reads mem,
    options ≤ offset ∧ offset < options + size
  found : ∀ list : OptionList, list.bytes.length = size → Holds mem options list.bytes →
    (decodeOptions (size + 1) options size mss ws).value mem =
      some (TcpOption.lastMss list.options mss, TcpOption.lastScale list.options ws)

/-- The loop goes on behind the option, or ends there. -/
def Advances (mem : Memory) (options : Nat) : Prop :=
  mem options = 0 ∨ mem options = 1 ∨ mem (options + 1) ≠ 0

/-- Every option that the loop comes to lies in the area with what is read of it,
and has a length. -/
def OptionsSound (mem : Memory) (options size : Nat) : Prop :=
  ∀ found, OptionAt mem (options + size) options found →
    OptionInside (options + size) mem found ∧ Advances mem found

variable {mem : Memory} {options stop : Nat} {mss : U16} {ws : BitVec 8}

theorem nextOption_eq_self_iff (hKind : mem options ≠ 0) :
    nextOption mem options = options ↔ ¬ Advances mem options := by
  unfold nextOption Advances
  split_ifs with hSkip
  · simp [hSkip]
  · simp only [hKind, hSkip, false_or, not_not, Nat.add_eq_left]
    exact ⟨fun h => UInt8.toNat_inj.mp h, fun h => by simp [h]⟩

theorem le_nextOption (mem : Memory) (options : Nat) : options ≤ nextOption mem options := by
  unfold nextOption
  split_ifs <;> omega

/-- A turn takes one option and goes on behind it. -/
theorem value_decodeOptions_succ (hInside : options < stop) (turns : Nat) :
    (decodeOptions (turns + 1) options (stop - options) mss ws).value mem =
      if mem options = 0 then some (mss, ws)
      else (decodeOptions turns (nextOption mem options) (stop - (nextOption mem options : Nat))
        ((optionMss (mem options) (mem (options + 1)) options mss).value mem)
        ((optionScale (mem options) (mem (options + 1)) options ws).value mem)).value mem := by
  rw [decodeOptions, if_pos (by omega), Reader.value_bind, Reader.value_bind, Reader.value_byte,
    Reader.value_byte, Reader.value_ite]
  by_cases hKind : mem options = 0
  · rw [if_pos hKind, if_pos hKind]
    rfl
  · rw [if_neg hKind, if_neg hKind, Reader.value_bind, Reader.value_bind, nextOption]
    by_cases hSkip : mem options = 1
    · rw [if_pos hSkip, if_pos hSkip, Int.sub_sub, Nat.cast_add, Nat.cast_one]
    · rw [if_neg hSkip, if_neg hSkip, Int.sub_sub, Nat.cast_add]

theorem value_decodeOptions_done (hDone : stop ≤ options) (turns : Nat) :
    (decodeOptions (turns + 1) options (stop - options) mss ws).value mem = some (mss, ws) := by
  rw [decodeOptions, if_neg (by omega)]
  rfl

/-- An option without a length holds the loop up. -/
theorem value_decodeOptions_stuck (hInside : options < stop) (hStuck : ¬ Advances mem options)
    (turns : Nat) : (decodeOptions turns options (stop - options) mss ws).value mem = none := by
  have hKind : mem options ≠ 0 := fun h => hStuck (Or.inl h)
  induction turns generalizing mss ws with
  | zero => rfl
  | succ turns ih =>
      rw [value_decodeOptions_succ hInside, if_neg hKind, (nextOption_eq_self_iff hKind).mpr hStuck]
      exact ih

/-- Where each option has a length the loop ends, a byte for each turn at least. -/
theorem isSome_decodeOptions
    (hAdvances : ∀ found, OptionAt mem stop options found → Advances mem found) {turns : Nat}
    (hTurns : stop - options < turns) :
    ((decodeOptions turns options (stop - options) mss ws).value mem).isSome = true := by
  induction turns generalizing options mss ws with
  | zero => omega
  | succ turns ih =>
      by_cases hInside : options < stop
      · rw [value_decodeOptions_succ hInside]
        split_ifs with hKind
        · rfl
        · have hNext : nextOption mem options ≠ options := fun h =>
            (nextOption_eq_self_iff hKind).mp h (hAdvances options (.here hInside))
          have hLe := le_nextOption mem options
          apply ih fun found hFound => hAdvances found (.later hInside hKind hFound)
          omega
      · rw [value_decodeOptions_done (not_lt.mp hInside)]
        rfl

theorem isSome_decodeOptions_iff :
    ((decodeOptions (stop - options + 1) options (stop - options) mss ws).value mem).isSome = true ↔
      ∀ found, OptionAt mem stop options found → Advances mem found := by
  refine ⟨fun hSome found hFound => ?_, fun hAdvances => isSome_decodeOptions hAdvances (by omega)⟩
  have hEnds : ∃ turns, ((decodeOptions turns options (stop - options) mss ws).value mem).isSome =
      true := ⟨_, hSome⟩
  clear hSome
  obtain ⟨turns, hSome⟩ := hEnds
  induction hFound generalizing turns mss ws with
  | here hInside =>
      by_contra hStuck
      rw [value_decodeOptions_stuck hInside hStuck] at hSome
      cases hSome
  | later hInside hKind hRest ih =>
      cases turns with
      | zero => cases hSome
      | succ turns =>
          rw [value_decodeOptions_succ hInside, if_neg hKind] at hSome
          exact ih turns hSome

/-- Nothing in front of an option is read of it. -/
theorem le_of_mem_reads_optionMss {kind len : UInt8} :
    ∀ offset ∈ (optionMss kind len options mss).reads mem, options ≤ offset := by
  unfold optionMss
  split_ifs
  · simp [be16]
    omega
  · simp

theorem le_of_mem_reads_optionScale {kind len : UInt8} :
    ∀ offset ∈ (optionScale kind len options ws).reads mem, options ≤ offset := by
  unfold optionScale
  split_ifs <;> simp

theorem le_of_mem_reads (optlen : Int) (turns : Nat) :
    ∀ offset ∈ (decodeOptions turns options optlen mss ws).reads mem, options ≤ offset := by
  induction turns generalizing options optlen mss ws with
  | zero => simp [decodeOptions]
  | succ turns ih =>
      have hBehind : ∀ {count : Nat} {optlen mss ws},
          ∀ offset ∈ (decodeOptions turns (options + count) optlen mss ws).reads mem,
            options ≤ offset := fun offset hOffset =>
        (Nat.le_add_right _ _).trans (ih _ offset hOffset)
      rw [decodeOptions, Reader.reads_ite]
      split_ifs with hInside
      · rw [Reader.reads_bind, Reader.reads_bind, Reader.value_byte, Reader.value_byte,
          Reader.reads_ite]
        simp only [Reader.reads_byte, List.mem_append, List.mem_singleton]
        rintro offset (rfl | rfl | hOffset)
        · exact Nat.le_refl _
        · exact Nat.le_succ _
        · split_ifs at hOffset with hKind hSkip
          · cases hOffset
          all_goals
            rw [Reader.reads_bind, Reader.reads_bind, List.mem_append, List.mem_append] at hOffset
            rcases hOffset with hMss | hScale | hRest
            · exact le_of_mem_reads_optionMss offset hMss
            · exact le_of_mem_reads_optionScale offset hScale
            · exact hBehind offset hRest
      · simp

/-! A proper list. -/

/-- A turn on an option of the list. -/
theorem value_decodeOptions_cons {option : TcpOption} {rest : List UInt8}
    (hHolds : Holds mem options (option.encode ++ rest))
    (hStop : stop = options + (option.encode ++ rest).length) (turns : Nat) :
    (decodeOptions (turns + 1) options (stop - options) mss ws).value mem =
      (decodeOptions turns (options + option.encode.length)
        (stop - (options + option.encode.length : Nat)) (option.mss?.getD mss)
        ((option.windowScale?.map UInt8.toBitVec).getD ws)).value mem := by
  have hOption := (holds_append.mp hHolds).1
  rw [List.length_append] at hStop
  have hInside : options < stop := by
    have hSome : 1 ≤ option.encode.length := by
      cases option <;> simp [TcpOption.encode]
    omega
  rw [value_decodeOptions_succ hInside]
  cases option with
  | nop =>
      have hSkip : mem options = 1 := hOption.1
      simp [nextOption, hSkip, optionMss, optionScale, TcpOption.mss?, TcpOption.windowScale?,
        TcpOption.encode]
  | mss value =>
      obtain ⟨hKind, hLen, hValue⟩ := hOption
      have hRead : (be16 (options + 2)).value mem = value.toNat :=
        value_be16_of_holds hValue value.isLt
      simp [nextOption, hKind, hLen, hRead, optionMss, optionScale, TcpOption.mss?,
        TcpOption.windowScale?, TcpOption.encode, -value_be16]
  | windowScale shift =>
      obtain ⟨hKind, hLen, hValue, -⟩ := hOption
      simp [nextOption, hKind, hLen, hValue, optionMss, optionScale, TcpOption.mss?,
        TcpOption.windowScale?, TcpOption.encode]
  | other kind body hKind hLength hMss hScale =>
      obtain ⟨hFirst, hLen, -⟩ := hOption
      have hSize : (mem (options + 1)).toNat = body.length + 2 := by
        rw [hLen, Nat.toUInt8_eq, UInt8.toNat_ofNat', Nat.mod_eq_of_lt hLength]
      have hNoMss : ¬ (mem options = 2 ∧ mem (options + 1) = 4) := by
        rintro ⟨h, hFour⟩
        rw [hFour] at hSize
        exact hMss ⟨hFirst ▸ h, by simpa using hSize.symm⟩
      have hNoScale : ¬ (mem options = 3 ∧ mem (options + 1) = 3) := by
        rintro ⟨h, hThree⟩
        rw [hThree] at hSize
        exact hScale ⟨hFirst ▸ h, by simpa using hSize.symm⟩
      have hEncoded : (TcpOption.other kind body hKind hLength hMss hScale).encode.length =
          body.length + 2 := rfl
      rw [if_neg (hFirst ▸ hKind.1), nextOption, if_neg (hFirst ▸ hKind.2), hSize, hEncoded]
      simp [optionMss, optionScale, hNoMss, hNoScale, TcpOption.mss?, TcpOption.windowScale?]

/-- The first option of a list may be overruled by a later one. -/
theorem TcpOption.lastMss_cons (option : TcpOption) (rest : List TcpOption) (standard : U16) :
    lastMss (option :: rest) standard = lastMss rest (option.mss?.getD standard) := by
  unfold lastMss
  cases hMss : option.mss? with
  | none => rw [List.filterMap_cons_none hMss, Option.getD_none]
  | some value => rw [List.filterMap_cons_some hMss, List.getLastD_cons, Option.getD_some]

theorem TcpOption.lastScale_cons (option : TcpOption) (rest : List TcpOption)
    (standard : BitVec 8) : lastScale (option :: rest) standard =
      lastScale rest ((option.windowScale?.map UInt8.toBitVec).getD standard) := by
  unfold lastScale
  cases hScale : option.windowScale? with
  | none => rw [List.filterMap_cons_none hScale, Option.map_none, Option.getD_none]
  | some shift =>
      rw [List.filterMap_cons_some hScale, List.map_cons, List.getLastD_cons, Option.map_some,
        Option.getD_some]

/-- The loop finds the last values of a proper list. -/
theorem value_decodeOptions_list (list : List TcpOption) (ending : Option (List UInt8))
    (hHolds : Holds mem options (OptionList.mk list ending).bytes)
    (hStop : stop = options + (OptionList.mk list ending).bytes.length) {turns : Nat}
    (hTurns : list.length < turns) :
    (decodeOptions turns options (stop - options) mss ws).value mem =
      some (TcpOption.lastMss list mss, TcpOption.lastScale list ws) := by
  induction list generalizing options turns mss ws with
  | nil =>
      cases turns with
      | zero => omega
      | succ turns =>
          cases ending with
          | none => exact value_decodeOptions_done (by simp [hStop, OptionList.bytes,
              TcpOption.encodeAll]) turns
          | some padding =>
              have hEnd : mem options = 0 := hHolds.1
              have hInside : options < stop := by
                simp [hStop, OptionList.bytes, TcpOption.encodeAll]
              rw [value_decodeOptions_succ hInside, if_pos hEnd]
              rfl
  | cons option rest ih =>
      have hBytes : (OptionList.mk (option :: rest) ending).bytes =
          option.encode ++ (OptionList.mk rest ending).bytes := by
        simp [OptionList.bytes]
      rw [hBytes] at hHolds hStop
      cases turns with
      | zero => omega
      | succ turns =>
          rw [value_decodeOptions_cons hHolds hStop, TcpOption.lastMss_cons, TcpOption.lastScale_cons]
          rw [List.length_append, ← Nat.add_assoc] at hStop
          exact ih (holds_append.mp hHolds).2 hStop (Nat.lt_of_succ_lt_succ hTurns)

theorem OptionList.length_options_le (list : OptionList) :
    list.options.length ≤ list.bytes.length := by
  have hLe := TcpOption.length_le_encodeAll list.options
  rw [OptionList.bytes, List.length_append]
  omega

/-- The option loop is sound exactly on the option areas where every option
that it comes to lies inside and has a length. -/
theorem option_loop_sound_iff (mem : Memory) (payload version : Nat) :
    OptionLoopSound mem (payload + 20) (optLen (mem (payload + 12) >>> 4)) (getDefaultMss version) 0 ↔
      OptionsSound mem (payload + 20) (optLen (mem (payload + 12) >>> 4)) := by
  generalize payload + 20 = options
  generalize optLen (mem (payload + 12) >>> 4) = size
  have hSize : ((size : Nat) : Int) = ((options + size : Nat) : Int) - (options : Int) := by omega
  have hLeft : options + size - options = size := Nat.add_sub_cancel_left ..
  have hEnds := @isSome_decodeOptions_iff mem options (options + size) (getDefaultMss version) 0
  have hWithin := @within_decodeOptions_iff (options + size) mem options (options + size)
    (getDefaultMss version) 0
  rw [← hSize] at hWithin
  rw [hLeft, ← hSize] at hEnds
  constructor
  · intro hSound found hFound
    refine ⟨hWithin.mp (fun turns offset hOffset => ?_) found hFound, hEnds.mp hSound.ends found hFound⟩
    exact (hSound.inside turns offset hOffset).2
  · intro hOptions
    refine ⟨hEnds.mpr fun found hFound => (hOptions found hFound).2, fun turns offset hOffset => ?_,
      fun list hLength hHolds => ?_⟩
    · have hInside := hWithin.mpr fun found hFound => (hOptions found hFound).1
      exact ⟨le_of_mem_reads size turns offset hOffset, hInside turns offset hOffset⟩
    · have hTurns := list.length_options_le
      rw [hSize]
      exact value_decodeOptions_list list.options list.ending hHolds (by rw [← hLength]) (by omega)

/-- A SYN with one word of options. -/
def optionSyn (word : List UInt8) : Memory :=
  packetMemory (List.replicate 12 0 ++ [0x60, 0x02] ++ List.replicate 6 0 ++ word)

/-- An MSS option of length 0 is not left any more; behind four NOPs the byte behind
the options is read. -/
theorem option_loop_unsound :
    ¬ OptionLoopSound (optionSyn [2, 0, 0, 0]) 20 (optLen (optionSyn [2, 0, 0, 0] 12 >>> 4))
        (getDefaultMss 4) 0 ∧
      ¬ OptionLoopSound (optionSyn [1, 1, 1, 1]) 20 (optLen (optionSyn [1, 1, 1, 1] 12 >>> 4))
        (getDefaultMss 4) 0 := by
  constructor
  · exact fun h => absurd h.ends (by decide)
  · exact fun h => absurd (h.inside 5 24 (by decide)).2 (by decide)

end Tun2Http
