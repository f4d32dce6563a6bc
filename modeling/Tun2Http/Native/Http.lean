import Tun2Http.Native.Util

/-! `http.c`: the request line of a plain HTTP request is made absolute. The
scan works on the memory behind the data pointer, which does not end with
the segment. -/
namespace Tun2Http

open Machine

/-- The bytes of a string literal. -/
def ascii (text : List Char) : List UInt8 := text.map fun c => c.toNat.toUInt8

/-- `tolower` in the C locale. -/
def toLower (b : UInt8) : UInt8 := if 65 ≤ b ∧ b ≤ 90 then b + 32 else b

/-- `strncasecmp(value, data, strlen(value)) == 0`. -/
def caseEqual : List UInt8 → Nat → Reader Bool
  | [], _ => pure true
  | v :: rest, pos => do
      let b ← Reader.byte pos
      if toLower v = toLower b then caseEqual rest (pos + 1) else pure false

/-- The inner loop of `find_data`: skip to the first byte of the word. The
byte is read before the remaining length is looked at. -/
def skipTo (first : UInt8) : Nat → Nat → Reader (Nat × Nat)
  | 0, pos => do
      let _ ← Reader.byte pos
      pure (pos, 0)
  | len + 1, pos => do
      let b ← Reader.byte pos
      if b ≠ first ∧ len + 1 > 2 then skipTo first len (pos + 1) else pure (pos, len + 1)

/-- The outer loop of `find_data`. Every turn shortens the remaining length,
so `dataLen` turns are enough. -/
def findFrom (value : List UInt8) : Nat → Nat → Nat → Reader (Option Nat)
  | 0, _, _ => pure none
  | turns + 1, len, pos =>
      if len > 2 then do
        let (pos, len) ← skipTo (value.headD 0) len pos
        let found ← caseEqual value pos
        if found then pure (some pos) else findFrom value turns (len - 1) (pos + 1)
      else pure none

/-- `find_data`: the offset of the match, or `none`. -/
def findData (dataLen : Nat) (value : List UInt8) : Reader (Option Nat) :=
  findFrom value dataLen dataLen 0

/-- The copy of the Host value: up to a carriage return or 511 bytes. -/
def copyHost (host : Nat) : Nat → Reader (List UInt8)
  | 0 => do
      let _ ← Reader.byte host
      pure []
  | left + 1 => do
      let b ← Reader.byte host
      if b = 13 then pure []
      else do
        let rest ← copyHost (host + 1) left
        pure (b :: rest)

theorem length_copyHost_le (host left : Nat) (mem : Memory) :
    ((copyHost host left).value mem).length ≤ left := by
  induction left generalizing host with
  | zero => simp [copyHost]
  | succ left ih =>
      simp only [copyHost, Reader.value_bind, Reader.value_ite]
      split_ifs
      · simp
      · simpa using ih (host + 1)

/-- The methods in the order in which `patch_http_url` looks for them. -/
def httpWords : List (List UInt8) :=
  [ascii ['G', 'E', 'T', ' '], ascii ['P', 'O', 'S', 'T', ' '], ascii ['P', 'U', 'T', ' '],
   ascii ['D', 'E', 'L', 'E', 'T', 'E', ' '], ascii ['H', 'E', 'A', 'D', ' '],
   ascii ['O', 'P', 'T', 'I', 'O', 'N', 'S', ' '], ascii ['P', 'A', 'T', 'C', 'H', ' ']]

/-- The first word that `find_data` finds, with its offset. -/
def findWord (dataLen : Nat) : List (List UInt8) → Reader (Option (Nat × List UInt8))
  | [] => pure none
  | word :: rest => do
      let pos ← findData dataLen word
      match pos with
      | some pos => pure (some (pos, word))
      | none => findWord dataLen rest

/-- The comparison of the request target with a text, byte by byte. -/
def targetIs : List UInt8 → Nat → Reader Bool
  | [], _ => pure true
  | v :: rest, pos => do
      let b ← Reader.byte pos
      if b = v then targetIs rest (pos + 1) else pure false

/-- `patch_http_url`: the new data with its new length, or `none` where the
source returns null. The remaining length is a `size_t` difference. Where it
wraps, the copy goes on for nearly 2^32 bytes and the process dies in it: such a
result has reads that are out of bounds, and means nothing. -/
def patchHttpUrl (dataLen : Nat) : Reader (Option (List UInt8)) := do
  let host ← findData dataLen (ascii ['H', 'o', 's', 't', ':', ' '])
  match host with
  | none => pure none
  | some host => do
      let hostname ← copyHost (host + 6) 511
      let found ← findWord dataLen httpWords
      match found with
      | none => pure none
      | some (pos, word) => do
          let pos1 := pos + word.length
          let patched ← targetIs (ascii ['h', 't', 't', 'p', ':']) pos1
          if patched then pure none
          else do
            let before ← readBytes 0 pos1
            let after ← readBytes pos1 ((dataLen + 2 ^ 32 - pos1) % 2 ^ 32)
            let buffer := before ++ ascii ['h', 't', 't', 'p', ':', '/', '/'] ++ hostname ++ after
            pure (some (buffer.take (dataLen + 7 + hostname.length)))

/-- The new data is never shorter: the scheme and the host go between. -/
theorem length_patchHttpUrl {dataLen : Nat} (hLen : dataLen < 2 ^ 32) {mem : Memory}
    {request : List UInt8} (hPatch : (patchHttpUrl dataLen).value mem = some request) :
    dataLen ≤ request.length ∧ request.length ≤ dataLen + 518 := by
  unfold patchHttpUrl at hPatch
  rw [Reader.value_bind] at hPatch
  cases hHost : (findData dataLen (ascii ['H', 'o', 's', 't', ':', ' '])).value mem with
  | none => simp [hHost] at hPatch
  | some host =>
      rw [hHost] at hPatch
      simp only [Reader.value_bind] at hPatch
      cases hWord : (findWord dataLen httpWords).value mem with
      | none => simp [hWord] at hPatch
      | some found =>
          obtain ⟨pos, word⟩ := found
          rw [hWord] at hPatch
          dsimp only at hPatch
          -- The remaining length stays opaque: it is a difference modulo 2^32.
          obtain ⟨count, hCount⟩ :
              ∃ count, count = (dataLen + 2 ^ 32 - (pos + word.length)) % 2 ^ 32 := ⟨_, rfl⟩
          rw [← hCount] at hPatch
          rw [Reader.value_bind, Reader.value_ite] at hPatch
          split_ifs at hPatch
          · cases hPatch
          · have hHostname := length_copyHost_le (host + 6) 511 mem
            simp only [Reader.value_bind, Reader.value_pure, Option.some.injEq] at hPatch
            rw [← hPatch]
            simp only [List.length_take, List.length_append, length_readBytes, ascii,
              List.length_map, List.length_cons, List.length_nil]
            omega

end Tun2Http
