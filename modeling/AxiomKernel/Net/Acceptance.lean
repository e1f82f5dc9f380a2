import Mathlib
import AxiomKernel.Net.Frames

/-!
# What the parsers accept

No parser reads outside the slice it is given, whatever the slice holds, and what it
returns is a suffix of it; so the receive path returns on every frame.

`Ipv4Header::parse` looks at the header length alone: it reads neither the version nor the
total length, and it takes a header length below twenty bytes.  So it returns what the
packet says it carries only where those fields happen to agree with the slice.
-/

set_option autoImplicit false

namespace AxiomKernel.Net

open ByteStrings ByteSlices

/-! ## The fields that delimit a packet -/

def version (bytes : List U8) : Nat := (bytes.getD 0 0).toNat / 16

def ihl (bytes : List U8) : Nat := (bytes.getD 0 0).toNat % 16

def totalLength (bytes : List U8) : Nat :=
  (bytes.getD 2 0).toNat * 256 + (bytes.getD 3 0).toNat

/-- The bytes begin with an IPv4 packet. -/
def HoldsPacket (bytes : List U8) : Prop :=
  20 ≤ bytes.length ∧ version bytes = 4 ∧ 5 ≤ ihl bytes ∧
    4 * ihl bytes ≤ totalLength bytes ∧ totalLength bytes ≤ bytes.length

instance (bytes : List U8) : Decidable (HoldsPacket bytes) := by
  unfold HoldsPacket
  infer_instance

/-- `bytes[4 * ihl..total_len]`. -/
def packetPayload (bytes : List U8) : List U8 :=
  (bytes.drop (4 * ihl bytes)).take (totalLength bytes - 4 * ihl bytes)

/-- The parser accepts the bytes exactly if they begin with a packet, and delimits the
packet's payload. -/
def ParsesPacket (bytes : List U8) : Prop :=
  ((∃ header payload, Ipv4Header.parse bytes = some (some (header, payload))) ↔
    HoldsPacket bytes) ∧
  ∀ header payload, Ipv4Header.parse bytes = some (some (header, payload)) →
    payload = packetPayload bytes

/-! ## The parser -/

theorem headerLength_eq_ihl {bytes : List U8} {header : Ipv4Header}
    (held : HasAt bytes 0 header.encode) : header.headerLength = 4 * ihl bytes := by
  have nibble : (header.versionIhl &&& 0xF).toNat = header.versionIhl.toNat % 16 :=
    Nat.and_two_pow_sub_one_eq_mod _ 4
  have first := ((Ipv4Header.hasAt_encode_iff header).mp held).1.byte
  rw [Ipv4Header.headerLength, nibble, ihl, first, Nat.mul_comm]

theorem parse_of_short {bytes : List U8} (short : bytes.length < 20) :
    Ipv4Header.parse bytes = some none := by
  rw [Ipv4Header.parse, if_pos short]
  rfl

/-- The parser accepts what is as long as its header says. -/
theorem parse_of_long {bytes : List U8} (long : 20 ≤ bytes.length) :
    ∃ header, Ipv4Header.parse bytes = some (if bytes.length < 4 * ihl bytes then none
      else some (header, bytes.drop (4 * ihl bytes))) := by
  obtain ⟨header, canonical, held⟩ := Ipv4Header.exists_hasAt long
  refine ⟨header, ?_⟩
  rw [Ipv4Header.parse_of_hasAt canonical held, headerLength_eq_ihl held]

/-! ## The receive path -/

/-- The parser returns on every slice, and what it leaves is a suffix of the slice. -/
def ReturnsSuffix {Header : Type}
    (parse : List U8 → Option (Option (Header × List U8))) : Prop :=
  ∀ bytes, ∃ answer, parse bytes = some answer ∧
    ∀ header rest, answer = some (header, rest) → rest <:+ bytes

theorem returnsSuffix_of_drop {Header : Type}
    {parse : List U8 → Option (Option (Header × List U8))}
    (drops : ∀ bytes, parse bytes = some none ∨
      ∃ header n, parse bytes = some (some (header, bytes.drop n))) : ReturnsSuffix parse := by
  intro bytes
  rcases drops bytes with refused | accepted
  · refine ⟨none, refused, ?_⟩
    intro header rest impossible
    cases impossible
  · obtain ⟨header, n, parsed⟩ := accepted
    refine ⟨some (header, bytes.drop n), parsed, ?_⟩
    intro found rest same
    obtain ⟨rfl, rfl⟩ := Prod.mk.inj (Option.some.inj same)
    exact List.drop_suffix n bytes

theorem EtherFrame.parse_returnsSuffix : ReturnsSuffix EtherFrame.parse := by
  apply returnsSuffix_of_drop
  intro bytes
  by_cases short : bytes.length < 14
  · left
    rw [EtherFrame.parse, if_pos short]
    rfl
  · obtain ⟨frame, canonical, held⟩ := EtherFrame.exists_hasAt (Nat.not_lt.mp short)
    exact Or.inr ⟨frame, 14, EtherFrame.parse_of_hasAt canonical held⟩

theorem Ipv4Header.parse_returnsSuffix : ReturnsSuffix Ipv4Header.parse := by
  apply returnsSuffix_of_drop
  intro bytes
  by_cases short : bytes.length < 20
  · exact Or.inl (parse_of_short short)
  · obtain ⟨header, parsed⟩ := parse_of_long (Nat.not_lt.mp short)
    rw [parsed]
    by_cases outside : bytes.length < 4 * ihl bytes
    · rw [if_pos outside]
      exact Or.inl rfl
    · rw [if_neg outside]
      exact Or.inr ⟨header, _, rfl⟩

theorem UdpHeader.parse_returnsSuffix : ReturnsSuffix UdpHeader.parse := by
  apply returnsSuffix_of_drop
  intro bytes
  by_cases short : bytes.length < 8
  · left
    rw [UdpHeader.parse, if_pos short]
    rfl
  · obtain ⟨header, held⟩ := UdpHeader.exists_hasAt (Nat.not_lt.mp short)
    exact Or.inr ⟨header, 8, UdpHeader.parse_of_hasAt held⟩

theorem processFrame_returns (frameBytes : List U8) :
    ∃ answer, processFrame frameBytes = some answer := by
  obtain ⟨ethAnswer, ethParsed, -⟩ := EtherFrame.parse_returnsSuffix frameBytes
  rw [processFrame, ethParsed]
  cases ethAnswer with
  | none => exact ⟨_, rfl⟩
  | some found =>
      obtain ⟨eth, payload⟩ := found
      obtain ⟨ipAnswer, ipParsed, -⟩ := Ipv4Header.parse_returnsSuffix payload
      simp only [Option.bind_eq_bind, Option.bind_some, ipParsed]
      cases eth.ethertype with
      | arp => exact ⟨_, rfl⟩
      | ipv6 => exact ⟨_, rfl⟩
      | other value => exact ⟨_, rfl⟩
      | ipv4 =>
          cases ipAnswer with
          | none => exact ⟨_, rfl⟩
          | some packet =>
              obtain ⟨ip, ipPayload⟩ := packet
              obtain ⟨udpAnswer, udpParsed, -⟩ := UdpHeader.parse_returnsSuffix ipPayload
              simp only [udpParsed]
              cases ip.protocol with
              | icmp => exact ⟨_, rfl⟩
              | tcp => exact ⟨_, rfl⟩
              | other value => exact ⟨_, rfl⟩
              | udp => cases udpAnswer <;> exact ⟨_, rfl⟩

theorem ReturnsSuffix.suffix {Header : Type}
    {parse : List U8 → Option (Option (Header × List U8))} (returns : ReturnsSuffix parse)
    {bytes rest : List U8} {header : Header} (parsed : parse bytes = some (some (header, rest))) :
    rest <:+ bytes := by
  obtain ⟨answer, answered, suffix⟩ := returns bytes
  exact suffix header rest (Option.some.inj (answered.symm.trans parsed))

/-- What the pipeline hands from one parser to the next, and what the last one leaves, is part
of the frame. -/
def HandsOnSuffixes (frameBytes : List U8) : Prop :=
  ∀ eth payload, EtherFrame.parse frameBytes = some (some (eth, payload)) →
    payload <:+ frameBytes ∧
      ∀ ip ipPayload, Ipv4Header.parse payload = some (some (ip, ipPayload)) →
        ipPayload <:+ frameBytes ∧
          ∀ udp data, UdpHeader.parse ipPayload = some (some (udp, data)) → data <:+ frameBytes

/-- The parsers and the pipeline return on every frame, and read nothing outside it. -/
theorem receive_path_safe :
    ReturnsSuffix EtherFrame.parse ∧ ReturnsSuffix Ipv4Header.parse ∧
      ReturnsSuffix UdpHeader.parse ∧
      ∀ frameBytes, (∃ answer, processFrame frameBytes = some answer) ∧
        HandsOnSuffixes frameBytes := by
  refine ⟨EtherFrame.parse_returnsSuffix, Ipv4Header.parse_returnsSuffix,
    UdpHeader.parse_returnsSuffix, ?_⟩
  intro frameBytes
  refine ⟨processFrame_returns frameBytes, ?_⟩
  intro eth payload ethParsed
  have inFrame := EtherFrame.parse_returnsSuffix.suffix ethParsed
  refine ⟨inFrame, ?_⟩
  intro ip ipPayload ipParsed
  have ipInFrame := (Ipv4Header.parse_returnsSuffix.suffix ipParsed).trans inFrame
  refine ⟨ipInFrame, ?_⟩
  intro udp data udpParsed
  exact (UdpHeader.parse_returnsSuffix.suffix udpParsed).trans ipInFrame

/-! ## The packet and its payload -/

theorem parsesPacket_of_refused {bytes : List U8} (refused : Ipv4Header.parse bytes = some none) :
    ParsesPacket bytes ↔ ¬ HoldsPacket bytes := by
  simp [ParsesPacket, refused]

theorem parsesPacket_of_accepted {bytes rest : List U8} {header : Ipv4Header}
    (accepted : Ipv4Header.parse bytes = some (some (header, rest))) :
    ParsesPacket bytes ↔ HoldsPacket bytes ∧ rest = packetPayload bytes := by
  simp [ParsesPacket, accepted]

theorem drop_eq_packetPayload_iff {bytes : List U8} (holds : HoldsPacket bytes) :
    bytes.drop (4 * ihl bytes) = packetPayload bytes ↔ totalLength bytes = bytes.length := by
  obtain ⟨-, -, -, header, inside⟩ := holds
  rw [packetPayload, eq_comm, List.take_eq_self_iff, List.length_drop]
  omega

/-- The parser is right where it refuses, and where the packet fills the slice. -/
theorem ipv4_parse_exact_iff (bytes : List U8) :
    ParsesPacket bytes ↔
      bytes.length < 20 ∨ bytes.length < 4 * ihl bytes ∨
        (version bytes = 4 ∧ 5 ≤ ihl bytes ∧ totalLength bytes = bytes.length) := by
  by_cases short : bytes.length < 20
  · rw [parsesPacket_of_refused (parse_of_short short), HoldsPacket]
    omega
  obtain ⟨header, parsed⟩ := parse_of_long (Nat.not_lt.mp short)
  by_cases outside : bytes.length < 4 * ihl bytes
  · rw [if_pos outside] at parsed
    rw [parsesPacket_of_refused parsed, HoldsPacket]
    omega
  · rw [if_neg outside] at parsed
    rw [parsesPacket_of_accepted parsed]
    constructor
    · intro ⟨holds, delimited⟩
      have full := (drop_eq_packetPayload_iff holds).mp delimited
      obtain ⟨-, isIpv4, enough, -, -⟩ := holds
      exact .inr (.inr ⟨isIpv4, enough, full⟩)
    · intro condition
      have holds : HoldsPacket bytes := by
        rw [HoldsPacket]
        omega
      have full : totalLength bytes = bytes.length := by omega
      exact ⟨holds, (drop_eq_packetPayload_iff holds).mpr full⟩

/-- A header that says it is no words long. -/
def lengthlessHeader : List U8 :=
  [0x40, 0, 0, 20, 0, 0, 0, 0, 64, 17, 0, 0, 10, 0, 0, 1, 10, 0, 0, 2]

/-- An empty datagram in a frame of the least size, which ends in eighteen bytes of padding. -/
def paddedPacket : List U8 :=
  [0x45, 0, 0, 28, 0, 0, 0, 0, 64, 17, 0, 0, 10, 0, 0, 1, 10, 0, 0, 2] ++
    [0x23, 0x28, 0x23, 0x29, 0, 8, 0, 0] ++ List.replicate 18 0

/-- The header itself is handed on as a datagram, and so is the padding as its data. -/
theorem ipv4_parse_hands_on_header_and_padding :
    (¬ HoldsPacket lengthlessHeader ∧
      (∃ header, Ipv4Header.parse lengthlessHeader = some (some (header, lengthlessHeader))) ∧
      ∃ udp data, UdpHeader.parse lengthlessHeader = some (some (udp, data))) ∧
    (HoldsPacket paddedPacket ∧ packetPayload paddedPacket = [0x23, 0x28, 0x23, 0x29, 0, 8, 0, 0] ∧
      ∃ header payload udp, Ipv4Header.parse paddedPacket = some (some (header, payload)) ∧
        UdpHeader.parse payload = some (some (udp, List.replicate 18 0))) := by
  constructor
  · exact ⟨by decide, ⟨_, rfl⟩, _, _, rfl⟩
  · exact ⟨by decide, rfl, _, _, _, rfl, rfl⟩

end AxiomKernel.Net
