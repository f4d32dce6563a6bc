import Tun2Http.Native.Ip

/-! IPv6 extension headers. The loop of `handle_ip` never ends at an upper
layer protocol, takes lengths as bytes, and has no bound but the packet's
own bytes. -/
namespace Tun2Http

open Machine

/-- A chain of hop-by-hop, destination options or routing headers, of
`8 + 8 * len` bytes each, from the header `protocol` at `off` to the transport
header `upper` at `stop`. -/
inductive ExtensionChain (mem : Memory) : Nat → UInt8 → Nat → UInt8 → Prop where
  | upper {off : Nat} {protocol : UInt8}
      (hUpper : protocol = ipprotoTcp ∨ protocol = ipprotoUdp ∨ protocol = ipprotoIcmpv6) :
      ExtensionChain mem off protocol off protocol
  | header {off stop : Nat} {protocol upper : UInt8}
      (hHeader : protocol = 0 ∨ protocol = 60 ∨ protocol = 43)
      (hRest : ExtensionChain mem (off + 8 + 8 * (mem (off + 1)).toNat) (mem off) stop upper) :
      ExtensionChain mem off protocol stop upper

/-- The fixed part of a transport header. -/
def transportSize (protocol : UInt8) : Nat := if protocol = ipprotoTcp then 20 else 8

/-- The loop of the source, from `off` on, meets a header that is not of the
lower layer before it leaves the packet. -/
inductive WalkStops (length : Nat) (mem : Memory) : Nat → Prop where
  | stop {off : Nat} (hInside : off < length) (hEnd : ¬ isLowerLayer (mem off)) :
      WalkStops length mem off
  | next {off : Nat} (hInside : off + 1 < length) (hLower : isLowerLayer (mem off))
      (hRest : WalkStops length mem (off + 8 + (mem (off + 1)).toNat)) : WalkStops length mem off

/-- Every chain that fits leads to the handler of its transport protocol, with
the payload behind the last extension header. -/
def Dispatches (X : IpContext) (length : Nat) (mem : Memory) : Prop :=
  ∀ stop upper, ExtensionChain mem 40 (mem 6) stop upper → stop + transportSize upper ≤ length →
    ∃ turns, (handleIp X turns length).value mem = .handler 6 upper stop

/-- The loop stays in the packet and ends. -/
def WalkSafe (length : Nat) (mem : Memory) : Prop :=
  (∀ turns, (ip6Payload turns).Within length mem) ∧ ∃ turns, (ip6Payload turns).value mem ≠ none

variable {X : IpContext} {length : Nat} {mem : Memory}

theorem not_upper_of_lower {protocol : UInt8} (h : isLowerLayer protocol) :
    ¬ isUpperLayer protocol := by
  rcases h with rfl | rfl | rfl | rfl | rfl | rfl | rfl <;> decide

/-- Inside a packet the 16-bit offset does not wrap. -/
theorem extension_offset (off : U16) (hOff : off.toNat < length) (hLength : length ≤ getMtu)
    (len : UInt8) : (off + 8 + BitVec.ofNat 16 len.toNat).toNat = off.toNat + 8 + len.toNat := by
  have hLen := len.toNat_lt
  unfold getMtu at hLength
  bv_omega

/-- The loop ends with a lower layer protocol, or the one it started with. -/
theorem skipExtensions_not_upper {turns : Nat} {off off' : U16} {protocol protocol' : UInt8}
    (hUpper : ¬ isUpperLayer protocol)
    (hValue : (skipExtensions turns off protocol).value mem = some (off', protocol')) :
    ¬ isUpperLayer protocol' := by
  induction turns generalizing off protocol with
  | zero => cases hValue
  | succ turns ih =>
      rw [skipExtensions, Reader.value_bind, Reader.value_ite] at hValue
      split_ifs at hValue with hLower
      · exact ih (not_upper_of_lower hLower.1) hValue
      · cases hValue
        exact hUpper

theorem WalkStops.within {start : Nat} (h : WalkStops length mem start) (hLength : length ≤ getMtu)
    {off : U16} (hOff : off.toNat = start) (protocol : UInt8) (turns : Nat) :
    (skipExtensions turns off protocol).Within length mem := by
  induction h generalizing off protocol turns with
  | stop hInside hEnd =>
      cases turns with
      | zero => exact Reader.within_pure _ _ _
      | succ turns =>
          rw [skipExtensions, Reader.within_bind, Reader.within_ite, Reader.value_byte, hOff,
            if_neg fun hLower => hEnd hLower.1]
          exact ⟨(Reader.within_byte _ _ _).mpr hInside, Reader.within_pure _ _ _⟩
  | next hInside hLower hRest ih =>
      cases turns with
      | zero => exact Reader.within_pure _ _ _
      | succ turns =>
          rw [skipExtensions, Reader.within_bind, Reader.within_ite, Reader.value_byte, hOff]
          refine ⟨(Reader.within_byte _ _ _).mpr (by omega), ?_⟩
          split_ifs
          · rw [Reader.within_bind]
            refine ⟨(Reader.within_byte _ _ _).mpr hInside, ih ?_ _ turns⟩
            rw [extension_offset _ (by omega) hLength, hOff]
            rfl
          · exact Reader.within_pure _ _ _

theorem WalkStops.ends {start : Nat} (h : WalkStops length mem start) (hLength : length ≤ getMtu)
    {off : U16} (hOff : off.toNat = start) (protocol : UInt8) :
    ∃ turns, (skipExtensions turns off protocol).value mem ≠ none := by
  induction h generalizing off protocol with
  | stop hInside hEnd =>
      refine ⟨1, ?_⟩
      rw [skipExtensions, Reader.value_bind, Reader.value_ite, Reader.value_byte, hOff,
        if_neg fun hLower => hEnd hLower.1]
      simp
  | next hInside hLower hRest ih =>
      subst hOff
      have hNext := extension_offset off (by omega) hLength (mem (off.toNat + 1))
      obtain ⟨turns, hEnds⟩ := ih hNext (mem off.toNat)
      refine ⟨turns + 1, ?_⟩
      rw [skipExtensions, Reader.value_bind, Reader.value_ite]
      split_ifs
      · exact hEnds
      · simp

/-- The loop stays in the packet exactly where it stops there. -/
theorem within_skipExtensions_iff (hLength : length ≤ getMtu) {off : U16} {protocol : UInt8}
    (hUpper : ¬ isUpperLayer protocol) :
    (∀ turns, (skipExtensions turns off protocol).Within length mem) ↔
      WalkStops length mem off.toNat := by
  refine ⟨fun hWithin => ?_, fun h turns => h.within hLength rfl protocol turns⟩
  -- Every turn moves on by at least eight bytes, so the packet bounds the loop.
  induction hLeft : length - off.toNat using Nat.strong_induction_on generalizing off protocol with
  | _ left ih =>
      have hTurn : ∀ turns, off.toNat < length ∧ (isLowerLayer (mem off.toNat) →
          off.toNat + 1 < length ∧
            (skipExtensions turns (off + 8 + BitVec.ofNat 16 (mem (off.toNat + 1)).toNat)
              (mem off.toNat)).Within length mem) := by
        intro turns
        have hNext := hWithin (turns + 1)
        rw [skipExtensions, Reader.within_bind, Reader.within_ite, Reader.value_byte,
          Reader.within_byte] at hNext
        refine ⟨hNext.1, fun hLower => ?_⟩
        have hRest := hNext.2
        rwa [if_pos ⟨hLower, hUpper⟩, Reader.within_bind, Reader.within_byte,
          Reader.value_byte] at hRest
      have hInside := (hTurn 0).1
      by_cases hLower : isLowerLayer (mem off.toNat)
      · have hOffset := extension_offset off hInside hLength (mem (off.toNat + 1))
        refine .next ((hTurn 0).2 hLower).1 hLower ?_
        rw [← hOffset]
        refine ih _ ?_ (not_upper_of_lower hLower) (fun turns => ((hTurn turns).2 hLower).2) rfl
        omega
      · exact .stop hInside hLower

/-- Without an upper layer in the fixed header no handler is called. -/
theorem afterExtensions_not_upper {nxt : UInt8} {off : U16} {protocol : UInt8}
    (hProtocol : ¬ isUpperLayer protocol) :
    afterExtensions nxt (some (off, protocol)) = some (nxt, 40) := by
  rw [afterExtensions, if_neg hProtocol]

theorem ip6Payload_of_not_upper (turns : Nat) (hUpper : ¬ isUpperLayer (mem 6)) :
    (ip6Payload turns).value mem = none ∨ (ip6Payload turns).value mem = some (mem 6, 40) := by
  rw [ip6Payload, Reader.value_bind, Reader.value_ite, Reader.value_byte, if_neg hUpper,
    Reader.value_bind]
  cases hValue : (skipExtensions turns 40 (mem 6)).value mem with
  | none => exact Or.inl rfl
  | some walked =>
      obtain ⟨off, protocol⟩ := walked
      exact Or.inr (afterExtensions_not_upper (skipExtensions_not_upper hUpper hValue))

/-- The IPv6 branch of `handle_ip`. -/
theorem handleIp_of_ip6 (turns : Nat) (hVersion : mem 0 >>> 4 = 6) (hLength : 40 ≤ length) :
    (handleIp X turns length).value mem =
      (handleIp6 X length ((ip6Payload turns).value mem)).value mem := by
  rw [handleIp, Reader.value_bind, Reader.value_byte, hVersion, if_neg (by decide), if_pos rfl,
    if_neg (by omega)]
  rfl

theorem not_handler_of_not_upper {turns stop : Nat} {upper : UInt8} (hVersion : mem 0 >>> 4 = 6)
    (hLength : 40 ≤ length) (hUpper : ¬ isUpperLayer (mem 6)) :
    (handleIp X turns length).value mem ≠ .handler 6 upper stop := by
  rw [handleIp_of_ip6 turns hVersion hLength]
  rcases ip6Payload_of_not_upper turns hUpper with h | h <;> rw [h, handleIp6]
  · simp
  · rw [value_handlePayload, if_neg fun hAdmitted => hUpper hAdmitted.upper]
    simp

/-- An upper layer protocol in the fixed header ends the chain there. -/
theorem chain_of_upper {stop : Nat} {upper : UInt8} (hUpper : isUpperLayer (mem 6))
    (hChain : ExtensionChain mem 40 (mem 6) stop upper) :
    (stop = 40 ∧ upper = mem 6) ∧
      (mem 6 = ipprotoTcp ∨ mem 6 = ipprotoUdp ∨ mem 6 = ipprotoIcmpv6) := by
  generalize mem 6 = nxt at hChain hUpper
  cases hChain with
  | upper hProtocol => exact ⟨⟨rfl, rfl⟩, hProtocol⟩
  | header hHeader =>
      rcases hHeader with rfl | rfl | rfl <;> exact absurd hUpper (by decide)

/-- The search for the payload stays in the packet exactly where the loop stops
there. -/
theorem within_ip6Payload_iff (hLength : 40 ≤ length) (hMtu : length ≤ getMtu)
    (hUpper : ¬ isUpperLayer (mem 6)) :
    (∀ turns, (ip6Payload turns).Within length mem) ↔ WalkStops length mem 40 := by
  have hByte : 6 < length := by omega
  have hWalk : ∀ turns, (ip6Payload turns).Within length mem ↔
      (skipExtensions turns 40 (mem 6)).Within length mem := by
    intro turns
    rw [ip6Payload, Reader.within_bind, Reader.within_ite, Reader.value_byte, if_neg hUpper,
      Reader.within_bind, Reader.within_byte]
    simp [hByte]
  simp only [hWalk]
  exact within_skipExtensions_iff hMtu hUpper

theorem walkSafe_iff (hLength : 40 ≤ length) (hMtu : length ≤ getMtu)
    (hUpper : ¬ isUpperLayer (mem 6)) : WalkSafe length mem ↔ WalkStops length mem 40 := by
  rw [WalkSafe, within_ip6Payload_iff hLength hMtu hUpper]
  apply and_iff_left_of_imp
  intro hStops
  have hStart : (40 : U16).toNat = 40 := rfl
  obtain ⟨turns, hEnds⟩ := hStops.ends hMtu hStart (mem 6)
  refine ⟨turns, fun hNone => hEnds ?_⟩
  rw [ip6Payload, Reader.value_bind, Reader.value_ite, Reader.value_byte, if_neg hUpper,
    Reader.value_bind] at hNone
  cases hValue : (skipExtensions turns 40 (mem 6)).value mem with
  | none => rfl
  | some walked =>
      rw [hValue] at hNone
      rw [Reader.value_pure, afterExtensions] at hNone
      split_ifs at hNone

theorem walkSafe_of_upper (hLength : 40 ≤ length) (hUpper : isUpperLayer (mem 6)) :
    WalkSafe length mem := by
  have hByte : 6 < length := by omega
  constructor
  · intro turns
    rw [ip6Payload, Reader.within_bind, Reader.within_ite, Reader.value_byte, if_pos hUpper,
      Reader.within_byte]
    exact ⟨hByte, Reader.within_pure _ _ _⟩
  · refine ⟨0, ?_⟩
    rw [ip6Payload, Reader.value_bind, Reader.value_ite, Reader.value_byte, if_pos hUpper]
    simp

/-- Without extension headers the handler is called, where the code finds the
transport header long enough. -/
theorem value_handleIp_of_upper (turns : Nat) (hVersion : mem 0 >>> 4 = 6) (hLength : 40 ≤ length)
    (hUpper : isUpperLayer (mem 6)) :
    (handleIp X turns length).value mem =
      if Admitted X length 6 mem (mem 6) 40 then .handler 6 (mem 6) 40 else .dropped := by
  have hFound : (ip6Payload turns).value mem = some (mem 6, 40) := by
    rw [ip6Payload, Reader.value_bind, Reader.value_ite, Reader.value_byte, if_pos hUpper]
    rfl
  rw [handleIp_of_ip6 turns hVersion hLength, hFound, handleIp6, value_handlePayload]

/-- Without extension headers a message of ICMPv6 can be too short for the code. -/
theorem dispatches_of_upper_iff (hVersion : mem 0 >>> 4 = 6) (hLength : 40 ≤ length)
    (hMtu : length ≤ getMtu) (hSessions : X.sessions < X.maxsessions)
    (hUpper : isUpperLayer (mem 6)) :
    Dispatches X length mem ↔ (mem 6 = ipprotoIcmpv6 → 48 ≤ length → 68 ≤ length) := by
  have hRemaining : remaining length 40 = length - 40 := remaining_of_le hLength hMtu
  constructor
  · intro hDispatches hIcmp hFits
    obtain ⟨turns, hHandler⟩ := hDispatches 40 (mem 6) (.upper (Or.inr (Or.inr hIcmp)))
      (by rw [hIcmp]; exact hFits)
    rw [value_handleIp_of_upper turns hVersion hLength hUpper] at hHandler
    split_ifs at hHandler with hAdmitted
    rw [Admitted, if_pos (Or.inr hIcmp), hRemaining] at hAdmitted
    omega
  · intro hShort stop upper hChain hFits
    obtain ⟨⟨rfl, rfl⟩, hProtocol⟩ := chain_of_upper hUpper hChain
    refine ⟨0, ?_⟩
    rw [value_handleIp_of_upper 0 hVersion hLength hUpper, if_pos]
    rw [Admitted, hRemaining]
    rcases hProtocol with hTcp | hUdp | hIcmp
    · rw [hTcp] at hFits ⊢
      exact ⟨Nat.le_sub_of_add_le' hFits, Or.inl hSessions⟩
    · rw [hUdp] at hFits ⊢
      exact ⟨Nat.le_sub_of_add_le' hFits, Or.inl hSessions⟩
    · have hLong := hShort hIcmp (by rw [hIcmp] at hFits; exact hFits)
      rw [hIcmp]
      exact ⟨Nat.le_sub_of_add_le' hLong, hSessions⟩

/-- With extension headers only what has no chain to follow goes the right way. -/
theorem dispatches_of_not_upper_iff (hVersion : mem 0 >>> 4 = 6) (hLength : 40 ≤ length)
    (hUpper : ¬ isUpperLayer (mem 6)) :
    Dispatches X length mem ↔ ∀ stop upper, ExtensionChain mem 40 (mem 6) stop upper →
      length < stop + transportSize upper := by
  constructor
  · intro hDispatches stop upper hChain
    by_contra hFits
    obtain ⟨turns, hHandler⟩ := hDispatches stop upper hChain (not_lt.mp hFits)
    exact not_handler_of_not_upper hVersion hLength hUpper hHandler
  · intro hNone stop upper hChain hFits
    exact absurd (hNone stop upper hChain) (not_lt.mpr hFits)

/-- A packet for IPv6 goes the right way, and the loop stays in it, exactly where
it has no extension headers (and not a short ICMPv6 message), or where it has
no chain to follow and the loop happens to stop. -/
theorem ip6_dispatch_iff (hVersion : mem 0 >>> 4 = 6) (hLength : 40 ≤ length)
    (hMtu : length ≤ getMtu) (hSessions : X.sessions < X.maxsessions) :
    Dispatches X length mem ∧ WalkSafe length mem ↔
      if isUpperLayer (mem 6) then mem 6 = ipprotoIcmpv6 → 48 ≤ length → 68 ≤ length
      else WalkStops length mem 40 ∧ ∀ stop upper, ExtensionChain mem 40 (mem 6) stop upper →
        length < stop + transportSize upper := by
  split_ifs with hUpper
  · rw [and_iff_left (walkSafe_of_upper hLength hUpper)]
    exact dispatches_of_upper_iff hVersion hLength hMtu hSessions hUpper
  · rw [walkSafe_iff hLength hMtu hUpper, and_comm]
    exact and_congr_right fun _ => dispatches_of_not_upper_iff hVersion hLength hUpper

/-- The fixed header of an IPv6 packet. -/
def ip6Bytes (nxt : UInt8) : List UInt8 := [0x60, 0, 0, 0, 0, 0, nxt, 64] ++ List.replicate 32 1

/-- A UDP header without data behind the fixed header. -/
theorem ip6_dispatch_iff_udp :
    let mem := packetMemory (ip6Bytes 17 ++ List.replicate 8 0)
    Dispatches idleContext 48 mem ∧ WalkSafe 48 mem ↔
      if isUpperLayer (mem 6) then mem 6 = ipprotoIcmpv6 → 48 ≤ 48 → 68 ≤ 48
      else WalkStops 48 mem 40 ∧ ∀ stop upper, ExtensionChain mem 40 (mem 6) stop upper →
        48 < stop + transportSize upper :=
  ip6_dispatch_iff (by decide) (by decide) (by decide) (by decide)

/-- One hop-by-hop header of 8 bytes before a UDP header: the packet is dropped. -/
theorem ip6_not_dispatched : ∃ (length : Nat) (mem : Memory), mem 0 >>> 4 = 6 ∧ 40 ≤ length ∧
    length ≤ getMtu ∧ ¬ (Dispatches idleContext length mem ∧ WalkSafe length mem) := by
  refine ⟨56, packetMemory (ip6Bytes 0 ++ [17, 0, 0, 0, 0, 0, 0, 0] ++ List.replicate 8 0),
    by decide, by decide, by decide, fun hRight => ?_⟩
  obtain ⟨turns, hValue⟩ := hRight.1 48 17
    (.header (Or.inl rfl) (.upper (Or.inr (Or.inl rfl)))) (by decide)
  exact not_handler_of_not_upper (by decide) (by decide) (by decide) hValue

end Tun2Http
