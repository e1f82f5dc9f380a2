import Mathlib
import AxiomKernel.Net.Frames

/-!
# A transmitted datagram

Model of `transmit_eipc_udp`.  The frame it builds is the encoding of an Ethernet, an
IPv4 and a UDP header followed by the payload, so the receive path reads those headers
and that payload.  The two length fields are truncated to 16 bits.
-/

set_option autoImplicit false

namespace AxiomKernel.Net

open ByteStrings ByteSlices

/-- The writes into the frame, in their order. -/
def writeFrame (srcIp dstIp : Bytes 4) (srcPort dstPort : U16) (payload frame : List U8) :
    Option (List U8) := do
  -- Ethernet header
  let frame ← writeRange 0 6 (List.replicate 6 0xFF) frame
  let frame ← writeRange 6 12 [0x52, 0x54, 0x00, 0x12, 0x34, 0x56] frame
  let frame ← writeRange 12 14 (toBeBytes 2 (0x0800 : U16)) frame
  -- IPv4 header
  let frame ← writeByte 14 0x45 frame
  let frame ← writeRange 16 18 (toBeBytes 2 (BitVec.ofNat 16 (20 + 8 + payload.length))) frame
  let frame ← writeByte 22 64 frame
  let frame ← writeByte 23 17 frame
  let frame ← writeRange 26 30 srcIp.toList frame
  let frame ← writeRange 30 34 dstIp.toList frame
  -- UDP header
  let frame ← writeRange 34 36 (toBeBytes 2 srcPort) frame
  let frame ← writeRange 36 38 (toBeBytes 2 dstPort) frame
  let frame ← writeRange 38 40 (toBeBytes 2 (BitVec.ofNat 16 (8 + payload.length))) frame
  writeRange 42 (42 + payload.length) payload frame

/-- The frame `transmit_eipc_udp` builds; a slice is at most `isize::MAX` bytes long, so
that no sum overflows. -/
def transmitEipcUdp (srcIp dstIp : Bytes 4) (srcPort dstPort : U16) (payload : List U8) :
    Option (List U8) :=
  let total := 14 + 20 + 8 + payload.length
  writeFrame srcIp dstIp srcPort dstPort payload (List.replicate total 0)

/-! ## The headers that are sent -/

def sentEther : EtherFrame where
  dst := ⟨Vector.replicate 6 0xFF⟩
  src := ⟨Array.toVector #[0x52, 0x54, 0x00, 0x12, 0x34, 0x56]⟩
  ethertype := .ipv4

def sentIpv4 (srcIp dstIp : Bytes 4) (payloadLen : Nat) : Ipv4Header where
  versionIhl := 0x45
  dscpEcn := 0
  totalLen := BitVec.ofNat 16 (20 + 8 + payloadLen)
  id := 0
  flagsFrag := 0
  ttl := 64
  protocol := .udp
  checksum := 0
  src := ⟨srcIp⟩
  dst := ⟨dstIp⟩

def sentUdp (srcPort dstPort : U16) (payloadLen : Nat) : UdpHeader where
  srcPort := srcPort
  dstPort := dstPort
  length := BitVec.ofNat 16 (8 + payloadLen)
  checksum := 0

variable (srcIp dstIp : Bytes 4) (srcPort dstPort : U16) (payload : List U8)

/-- The bytes of the frame. -/
def sentFrame : List U8 :=
  sentEther.encode ++ ((sentIpv4 srcIp dstIp payload.length).encode ++
    ((sentUdp srcPort dstPort payload.length).encode ++ payload))

theorem writeFrame_appends :
    Appends 0 (42 + payload.length) (writeFrame srcIp dstIp srcPort dstPort payload)
      (sentFrame srcIp dstIp srcPort dstPort payload) := by
  unfold writeFrame
  apply Appends.congr
  case appends =>
    apply Appends.bind (writeRange_appends (by decide) (by simp))
    apply Appends.bind (writeRange_appends (by decide) (by simp))
    apply Appends.bind (writeRange_appends (by decide) (by simp))
    apply Appends.bind (writeByte_appends (by decide))
    apply Appends.bind (writeRange_appends (by decide) (by simp))
    apply Appends.bind (writeByte_appends (by decide))
    apply Appends.bind (writeByte_appends (by decide))
    apply Appends.bind (writeRange_appends (by decide) (by simp))
    apply Appends.bind (writeRange_appends (by decide) (by simp))
    apply Appends.bind (writeRange_appends (by decide) (by simp))
    apply Appends.bind (writeRange_appends (by decide) (by simp))
    apply Appends.bind (writeRange_appends (by decide) (by simp))
    exact writeRange_appends (by decide) rfl
  case same =>
    have skipped : toBeBytes 2 0#16 = [0#8, 0#8] := rfl
    simp [sentFrame, sentEther, sentIpv4, sentUdp, EtherFrame.encode, Ipv4Header.encode,
      UdpHeader.encode, EtherType.toU16, IpProto.toU8, skipped]

theorem transmitEipcUdp_eq :
    transmitEipcUdp srcIp dstIp srcPort dstPort payload =
      some (sentFrame srcIp dstIp srcPort dstPort payload) :=
  (writeFrame_appends srcIp dstIp srcPort dstPort payload).fills

/-! ## What the receive path reads -/

theorem parse_sentFrame :
    EtherFrame.parse (sentFrame srcIp dstIp srcPort dstPort payload) =
      some (some (sentEther, (sentIpv4 srcIp dstIp payload.length).encode ++
        ((sentUdp srcPort dstPort payload.length).encode ++ payload))) := by
  have canonical : sentEther.Canonical := (by decide : EtherType.fromU16 0x0800 = .ipv4)
  rw [sentFrame, EtherFrame.parse_append canonical]

theorem parse_sentPacket (payloadLen : Nat) (datagram : List U8) :
    Ipv4Header.parse ((sentIpv4 srcIp dstIp payloadLen).encode ++ datagram) =
      some (some (sentIpv4 srcIp dstIp payloadLen, datagram)) := by
  have held := hasAt_self_append (sentIpv4 srcIp dstIp payloadLen).encode datagram
  have headerLength : (sentIpv4 srcIp dstIp payloadLen).headerLength = 20 :=
    (by decide : ((0x45 : U8) &&& 0xF).toNat * 4 = 20)
  have canonical : (sentIpv4 srcIp dstIp payloadLen).Canonical :=
    (by decide : IpProto.fromU8 17 = .udp)
  have long := Ipv4Header.long_of_hasAt held
  rw [Ipv4Header.parse_of_hasAt canonical held, headerLength, if_neg (Nat.not_lt.mpr long),
    List.drop_left' (Ipv4Header.encode_length _)]

theorem processFrame_sentFrame :
    processFrame (sentFrame srcIp dstIp srcPort dstPort payload) = some "UDP datagram" := by
  have ethertype : sentEther.ethertype = .ipv4 := rfl
  have protocol : (sentIpv4 srcIp dstIp payload.length).protocol = .udp := rfl
  rw [processFrame, parse_sentFrame]
  simp only [Option.bind_eq_bind, Option.bind_some, ethertype, parse_sentPacket, protocol,
    UdpHeader.parse_append]
  rfl

/-- The receive path reads the addresses, the ports and the payload, with the right
lengths, from the frame. -/
structure ReadsBack (frame : List U8) : Prop where
  reads : ∃ eth ipBytes ip udpBytes udp,
    EtherFrame.parse frame = some (some (eth, ipBytes)) ∧
    Ipv4Header.parse ipBytes = some (some (ip, udpBytes)) ∧
    UdpHeader.parse udpBytes = some (some (udp, payload)) ∧
    eth.ethertype = .ipv4 ∧
    ip.protocol = .udp ∧ ip.src = ⟨srcIp⟩ ∧ ip.dst = ⟨dstIp⟩ ∧
    ip.totalLen.toNat = 28 + payload.length ∧
    udp.srcPort = srcPort ∧ udp.dstPort = dstPort ∧ udp.length.toNat = 8 + payload.length
  answers : processFrame frame = some "UDP datagram"

theorem readsBack_sentFrame_iff :
    ReadsBack srcIp dstIp srcPort dstPort payload
        (sentFrame srcIp dstIp srcPort dstPort payload) ↔ 28 + payload.length < 2 ^ 16 := by
  constructor
  · intro back
    obtain ⟨_, _, ip, _, _, -, -, -, -, -, -, -, length, -⟩ := back.reads
    have bound := ip.totalLen.isLt
    omega
  · intro short
    refine ⟨⟨_, _, _, _, _, parse_sentFrame .., parse_sentPacket .., UdpHeader.parse_append .., rfl,
      rfl, rfl, rfl, ?_, rfl, rfl, ?_⟩, processFrame_sentFrame ..⟩
    · rw [sentIpv4, BitVec.toNat_ofNat, Nat.mod_eq_of_lt short]
    · rw [sentUdp, BitVec.toNat_ofNat, Nat.mod_eq_of_lt (by omega)]

/-- Every frame is read back except for the two lengths, which are right as long as the
packet's length fits its field. -/
theorem transmitted_frame_read_back_iff :
    (∃ frame, transmitEipcUdp srcIp dstIp srcPort dstPort payload = some frame ∧
      ReadsBack srcIp dstIp srcPort dstPort payload frame) ↔ 28 + payload.length < 2 ^ 16 := by
  rw [transmitEipcUdp_eq]
  constructor
  · intro ⟨frame, same, back⟩
    obtain rfl := Option.some.inj same
    exact (readsBack_sentFrame_iff ..).mp back
  · intro short
    exact ⟨_, rfl, (readsBack_sentFrame_iff ..).mpr short⟩

/-- With a payload of 65508 bytes the packet's length is sent as zero. -/
theorem transmitted_length_zero :
    ∃ frame eth ipBytes ip udpBytes,
      transmitEipcUdp #v[10, 0, 0, 1] #v[10, 0, 0, 2] 9000 9001 (List.replicate 65508 0) =
        some frame ∧
      EtherFrame.parse frame = some (some (eth, ipBytes)) ∧
      Ipv4Header.parse ipBytes = some (some (ip, udpBytes)) ∧ ip.totalLen = 0 := by
  refine ⟨_, _, _, _, _, transmitEipcUdp_eq .., parse_sentFrame .., parse_sentPacket .., ?_⟩
  rw [List.length_replicate]
  rfl

end AxiomKernel.Net
