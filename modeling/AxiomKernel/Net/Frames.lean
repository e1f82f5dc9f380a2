import Mathlib
import AxiomKernel.Lib.Bytes
import AxiomKernel.Lib.Slices

/-!
# Ethernet, IPv4 and UDP headers

Model of the header types of `net.rs`, their parsers and `process_frame`.  A parser
returns a header and the rest or nothing; around that, `none` is a panic on a slice.

The encodings are the wire formats.  Each parser is characterised by its encoding:
it returns a header exactly when the header's bytes stand at the beginning.
-/

set_option autoImplicit false

namespace AxiomKernel.Net

open ByteStrings ByteSlices

/-! ## Ethernet -/

structure MacAddr where
  octets : Bytes 6
  deriving DecidableEq

inductive EtherType where
  | ipv4
  | arp
  | ipv6
  | other (value : U16)
  deriving DecidableEq

def EtherType.fromU16 (v : U16) : EtherType :=
  if v = 0x0800 then .ipv4
  else if v = 0x0806 then .arp
  else if v = 0x86DD then .ipv6
  else .other v

/-- The `match` of `serialize`. -/
def EtherType.toU16 : EtherType → U16
  | .ipv4 => 0x0800
  | .arp => 0x0806
  | .ipv6 => 0x86DD
  | .other v => v

structure EtherFrame where
  dst : MacAddr
  src : MacAddr
  ethertype : EtherType
  deriving DecidableEq

namespace EtherFrame

def parse (bytes : List U8) : Option (Option (EtherFrame × List U8)) := do
  if bytes.length < 14 then return none
  let dst ← readArray 6 bytes 0
  let src ← readArray 6 bytes 6
  let et ← readU16 bytes 12
  let rest ← readRange bytes 14 bytes.length
  return some (⟨⟨dst⟩, ⟨src⟩, EtherType.fromU16 et⟩, rest)

/-- The buffer after `serialize`. -/
def serialize (frame : EtherFrame) (dstBuf : List U8) : Option (List U8) := do
  let dstBuf ← writeRange 0 6 frame.dst.octets.toList dstBuf
  let dstBuf ← writeRange 6 12 frame.src.octets.toList dstBuf
  writeRange 12 14 (toBeBytes 2 frame.ethertype.toU16) dstBuf

def encode (frame : EtherFrame) : List U8 :=
  frame.dst.octets.toList ++ frame.src.octets.toList ++ toBeBytes 2 frame.ethertype.toU16

end EtherFrame

/-- A type that has a name is not written as a number. -/
def EtherFrame.Canonical (frame : EtherFrame) : Prop :=
  EtherType.fromU16 frame.ethertype.toU16 = frame.ethertype

/-! ## IPv4 -/

structure Ipv4Addr where
  octets : Bytes 4
  deriving DecidableEq

inductive IpProto where
  | icmp
  | tcp
  | udp
  | other (value : U8)
  deriving DecidableEq

def IpProto.fromU8 (v : U8) : IpProto :=
  if v = 1 then .icmp else if v = 6 then .tcp else if v = 17 then .udp else .other v

def IpProto.toU8 : IpProto → U8
  | .icmp => 1
  | .tcp => 6
  | .udp => 17
  | .other v => v

structure Ipv4Header where
  versionIhl : U8
  dscpEcn : U8
  totalLen : U16
  id : U16
  flagsFrag : U16
  ttl : U8
  protocol : IpProto
  checksum : U16
  src : Ipv4Addr
  dst : Ipv4Addr
  deriving DecidableEq

namespace Ipv4Header

def parse (bytes : List U8) : Option (Option (Ipv4Header × List U8)) := do
  if bytes.length < 20 then return none
  let ihl := ((← readByte bytes 0) &&& 0xF).toNat * 4
  if bytes.length < ihl then return none
  let header : Ipv4Header :=
    { versionIhl := ← readByte bytes 0
      dscpEcn := ← readByte bytes 1
      totalLen := ← readU16 bytes 2
      id := ← readU16 bytes 4
      flagsFrag := ← readU16 bytes 6
      ttl := ← readByte bytes 8
      protocol := IpProto.fromU8 (← readByte bytes 9)
      checksum := ← readU16 bytes 10
      src := ⟨← readArray 4 bytes 12⟩
      dst := ⟨← readArray 4 bytes 16⟩ }
  let rest ← readRange bytes ihl bytes.length
  return some (header, rest)

def encode (header : Ipv4Header) : List U8 :=
  [header.versionIhl] ++ [header.dscpEcn] ++ toBeBytes 2 header.totalLen ++ toBeBytes 2 header.id ++
    toBeBytes 2 header.flagsFrag ++ [header.ttl] ++ [header.protocol.toU8] ++
    toBeBytes 2 header.checksum ++ header.src.octets.toList ++ header.dst.octets.toList

/-- A protocol that has a name is not written as a number. -/
def Canonical (header : Ipv4Header) : Prop :=
  IpProto.fromU8 header.protocol.toU8 = header.protocol

/-- The length of the header in bytes, as the parser computes it. -/
def headerLength (header : Ipv4Header) : Nat := (header.versionIhl &&& 0xF).toNat * 4

end Ipv4Header

/-! ## UDP -/

structure UdpHeader where
  srcPort : U16
  dstPort : U16
  length : U16
  checksum : U16
  deriving DecidableEq

namespace UdpHeader

def parse (bytes : List U8) : Option (Option (UdpHeader × List U8)) := do
  if bytes.length < 8 then return none
  let header : UdpHeader :=
    { srcPort := ← readU16 bytes 0
      dstPort := ← readU16 bytes 2
      length := ← readU16 bytes 4
      checksum := ← readU16 bytes 6 }
  let rest ← readRange bytes 8 bytes.length
  return some (header, rest)

def encode (header : UdpHeader) : List U8 :=
  toBeBytes 2 header.srcPort ++ toBeBytes 2 header.dstPort ++ toBeBytes 2 header.length ++
    toBeBytes 2 header.checksum

end UdpHeader

/-! ## The pipeline -/

def processFrame (frameBytes : List U8) : Option String := do
  let some (eth, payload) ← EtherFrame.parse frameBytes | return "invalid frame"
  match eth.ethertype with
  | .arp => return "ARP"
  | .ipv4 =>
      let some (ip, ipPayload) ← Ipv4Header.parse payload | return "invalid IPv4"
      match ip.protocol with
      | .udp =>
          let some _ ← UdpHeader.parse ipPayload | return "invalid UDP"
          return "UDP datagram"
      | .icmp => return "ICMP"
      | .tcp => return "TCP (not supported)"
      | .other _ => return "unknown IP proto"
  | _ => return "unknown ethertype"

/-! ## What the parsers accept -/

@[simp] theorem EtherType.toU16_fromU16 (v : U16) : (EtherType.fromU16 v).toU16 = v := by
  rw [fromU16]
  split_ifs with isIpv4 isArp isIpv6
  · exact isIpv4.symm
  · exact isArp.symm
  · exact isIpv6.symm
  · rfl

@[simp] theorem IpProto.toU8_fromU8 (v : U8) : (IpProto.fromU8 v).toU8 = v := by
  rw [fromU8]
  split_ifs with isIcmp isTcp isUdp
  · exact isIcmp.symm
  · exact isTcp.symm
  · exact isUdp.symm
  · rfl

theorem EtherFrame.encode_length (frame : EtherFrame) : frame.encode.length = 14 := by
  simp [encode]

theorem Ipv4Header.encode_length (header : Ipv4Header) : header.encode.length = 20 := by
  simp [encode]

theorem UdpHeader.encode_length (header : UdpHeader) : header.encode.length = 8 := by
  simp [encode]

namespace EtherFrame

variable {bytes : List U8}

theorem hasAt_encode_iff (frame : EtherFrame) :
    HasAt bytes 0 frame.encode ↔
      HasAt bytes 0 frame.dst.octets.toList ∧ HasAt bytes 6 frame.src.octets.toList ∧
        HasAt bytes 12 (toBeBytes 2 frame.ethertype.toU16) := by
  simp only [encode, hasAt_append, List.length_append, Vector.length_toList, Nat.zero_add,
    Nat.reduceAdd, and_assoc]

theorem exists_hasAt (long : 14 ≤ bytes.length) :
    ∃ frame : EtherFrame, frame.Canonical ∧ HasAt bytes 0 frame.encode := by
  obtain ⟨dst, dstAt⟩ := exists_hasAt_array (by decide : 0 < 6) (by omega : 0 + 6 ≤ bytes.length)
  obtain ⟨src, srcAt⟩ := exists_hasAt_array (by decide : 0 < 6) (by omega : 6 + 6 ≤ bytes.length)
  obtain ⟨et, etAt⟩ := exists_hasAt_u16 (by omega : 12 + 1 < bytes.length)
  refine ⟨⟨⟨dst⟩, ⟨src⟩, EtherType.fromU16 et⟩, ?_, ?_⟩
  · rw [Canonical, EtherType.toU16_fromU16]
  · rw [hasAt_encode_iff, EtherType.toU16_fromU16]
    exact ⟨dstAt, srcAt, etAt⟩

/-- The parser returns the frame whose bytes are there. -/
theorem parse_of_hasAt {frame : EtherFrame} (canonical : frame.Canonical)
    (held : HasAt bytes 0 frame.encode) :
    parse bytes = some (some (frame, bytes.drop 14)) := by
  have long : 14 ≤ bytes.length := by
    simpa using held.length_le frame.encode_length (by decide)
  obtain ⟨dstAt, srcAt, etAt⟩ := (hasAt_encode_iff frame).mp held
  have dst := (readArray_eq_some_iff bytes 0 _ (by decide)).mpr dstAt
  have src := (readArray_eq_some_iff bytes 6 _ (by decide)).mpr srcAt
  have et := (readU16_eq_some_iff bytes 12 _).mpr etAt
  rw [Canonical] at canonical
  rw [parse, if_neg (Nat.not_lt.mpr long), dst, src, et, readRange_to_end long]
  simp only [Option.bind_eq_bind, Option.bind_some, canonical]
  rfl

theorem parse_append {frame : EtherFrame} (canonical : frame.Canonical) (rest : List U8) :
    parse (frame.encode ++ rest) = some (some (frame, rest)) := by
  rw [parse_of_hasAt canonical (hasAt_self_append _ _), List.drop_left' (encode_length frame)]

theorem serialize_eq (frame : EtherFrame) (long : 14 ≤ bytes.length) :
    frame.serialize bytes = some (frame.encode ++ bytes.drop 14) := by
  have dst := writeRange_append (rfl : ([] : List U8).length = 0)
    (by simp : 0 + frame.dst.octets.toList.length = 6) (by omega : 6 - 0 ≤ bytes.length)
  have src := writeRange_append (by simp : frame.dst.octets.toList.length = 6)
    (by simp : 6 + frame.src.octets.toList.length = 12)
    (by rw [List.length_drop]; omega : 12 - 6 ≤ (bytes.drop 6).length)
  have ethertype := writeRange_append
    (by simp : (frame.dst.octets.toList ++ frame.src.octets.toList).length = 12)
    (by simp : 12 + (toBeBytes 2 frame.ethertype.toU16).length = 14)
    (by rw [List.length_drop]; omega : 14 - 12 ≤ (bytes.drop 12).length)
  simp only [List.nil_append, List.length_nil, List.drop_drop, Nat.reduceSub, Nat.reduceAdd]
    at dst src ethertype
  simp only [serialize, dst, Option.bind_eq_bind, Option.bind_some, src, ethertype, encode]

/-- A frame that was parsed serializes to the bytes it was parsed from. -/
theorem serialize_of_parse {frame : EtherFrame} {rest : List U8}
    (parsed : parse bytes = some (some (frame, rest))) : frame.serialize bytes = some bytes := by
  by_cases short : bytes.length < 14
  · rw [parse, if_pos short] at parsed
    cases parsed
  · have long := Nat.not_lt.mp short
    obtain ⟨found, canonical, held⟩ := exists_hasAt long
    rw [parse_of_hasAt canonical held, Option.some.injEq, Option.some.injEq,
      Prod.mk.injEq] at parsed
    obtain ⟨rfl, rfl⟩ := parsed
    have whole := held.eq_append
    rw [encode_length] at whole
    rw [serialize_eq _ long, ← whole]

end EtherFrame

namespace Ipv4Header

variable {bytes : List U8}

theorem hasAt_encode_iff (header : Ipv4Header) :
    HasAt bytes 0 header.encode ↔
      HasAt bytes 0 [header.versionIhl] ∧ HasAt bytes 1 [header.dscpEcn] ∧
        HasAt bytes 2 (toBeBytes 2 header.totalLen) ∧ HasAt bytes 4 (toBeBytes 2 header.id) ∧
        HasAt bytes 6 (toBeBytes 2 header.flagsFrag) ∧ HasAt bytes 8 [header.ttl] ∧
        HasAt bytes 9 [header.protocol.toU8] ∧ HasAt bytes 10 (toBeBytes 2 header.checksum) ∧
        HasAt bytes 12 header.src.octets.toList ∧ HasAt bytes 16 header.dst.octets.toList := by
  simp only [encode, hasAt_append, List.length_append, List.length_singleton, toBeBytes_length,
    Vector.length_toList, Nat.zero_add, Nat.reduceAdd, and_assoc]

theorem exists_hasAt (long : 20 ≤ bytes.length) :
    ∃ header : Ipv4Header, header.Canonical ∧ HasAt bytes 0 header.encode := by
  obtain ⟨versionIhl, versionIhlAt⟩ := exists_hasAt_byte (by omega : 0 < bytes.length)
  obtain ⟨dscpEcn, dscpEcnAt⟩ := exists_hasAt_byte (by omega : 1 < bytes.length)
  obtain ⟨totalLen, totalLenAt⟩ := exists_hasAt_u16 (by omega : 2 + 1 < bytes.length)
  obtain ⟨id, idAt⟩ := exists_hasAt_u16 (by omega : 4 + 1 < bytes.length)
  obtain ⟨flagsFrag, flagsFragAt⟩ := exists_hasAt_u16 (by omega : 6 + 1 < bytes.length)
  obtain ⟨ttl, ttlAt⟩ := exists_hasAt_byte (by omega : 8 < bytes.length)
  obtain ⟨protocol, protocolAt⟩ := exists_hasAt_byte (by omega : 9 < bytes.length)
  obtain ⟨checksum, checksumAt⟩ := exists_hasAt_u16 (by omega : 10 + 1 < bytes.length)
  obtain ⟨src, srcAt⟩ := exists_hasAt_array (by decide : 0 < 4) (by omega : 12 + 4 ≤ bytes.length)
  obtain ⟨dst, dstAt⟩ := exists_hasAt_array (by decide : 0 < 4) (by omega : 16 + 4 ≤ bytes.length)
  refine ⟨⟨versionIhl, dscpEcn, totalLen, id, flagsFrag, ttl, IpProto.fromU8 protocol, checksum,
    ⟨src⟩, ⟨dst⟩⟩, ?_, ?_⟩
  · rw [Canonical, IpProto.toU8_fromU8]
  · rw [hasAt_encode_iff, IpProto.toU8_fromU8]
    exact ⟨versionIhlAt, dscpEcnAt, totalLenAt, idAt, flagsFragAt, ttlAt, protocolAt, checksumAt,
      srcAt, dstAt⟩

theorem long_of_hasAt {header : Ipv4Header} (held : HasAt bytes 0 header.encode) :
    20 ≤ bytes.length := by
  simpa using held.length_le header.encode_length (by decide)

/-- The parser returns the header whose bytes are there, if its own length is in the
slice, and the rest from that length on. -/
theorem parse_of_hasAt {header : Ipv4Header} (canonical : header.Canonical)
    (held : HasAt bytes 0 header.encode) :
    parse bytes = some (if bytes.length < header.headerLength then none
      else some (header, bytes.drop header.headerLength)) := by
  obtain ⟨versionIhlAt, dscpEcnAt, totalLenAt, idAt, flagsFragAt, ttlAt, protocolAt, checksumAt,
    srcAt, dstAt⟩ := (hasAt_encode_iff header).mp held
  have versionIhl := (readByte_eq_some_iff bytes 0 _).mpr versionIhlAt
  have dscpEcn := (readByte_eq_some_iff bytes 1 _).mpr dscpEcnAt
  have totalLen := (readU16_eq_some_iff bytes 2 _).mpr totalLenAt
  have id := (readU16_eq_some_iff bytes 4 _).mpr idAt
  have flagsFrag := (readU16_eq_some_iff bytes 6 _).mpr flagsFragAt
  have ttl := (readByte_eq_some_iff bytes 8 _).mpr ttlAt
  have protocol := (readByte_eq_some_iff bytes 9 _).mpr protocolAt
  have checksum := (readU16_eq_some_iff bytes 10 _).mpr checksumAt
  have src := (readArray_eq_some_iff bytes 12 _ (by decide)).mpr srcAt
  have dst := (readArray_eq_some_iff bytes 16 _ (by decide)).mpr dstAt
  rw [Canonical] at canonical
  rw [parse, if_neg (Nat.not_lt.mpr (long_of_hasAt held)), versionIhl, dscpEcn, totalLen, id,
    flagsFrag, ttl, protocol, checksum, src, dst]
  have ihl : (header.versionIhl &&& 0xF).toNat * 4 = header.headerLength := rfl
  simp only [Option.bind_eq_bind, Option.bind_some, canonical, ihl]
  by_cases short : bytes.length < header.headerLength
  · rw [if_pos short, if_pos short]
    rfl
  · rw [if_neg short, if_neg short, readRange_to_end (Nat.not_lt.mp short)]
    rfl

end Ipv4Header

namespace UdpHeader

variable {bytes : List U8}

theorem hasAt_encode_iff (header : UdpHeader) :
    HasAt bytes 0 header.encode ↔
      HasAt bytes 0 (toBeBytes 2 header.srcPort) ∧ HasAt bytes 2 (toBeBytes 2 header.dstPort) ∧
        HasAt bytes 4 (toBeBytes 2 header.length) ∧
        HasAt bytes 6 (toBeBytes 2 header.checksum) := by
  simp only [encode, hasAt_append, List.length_append, toBeBytes_length, Nat.zero_add,
    Nat.reduceAdd, and_assoc]

theorem exists_hasAt (long : 8 ≤ bytes.length) :
    ∃ header : UdpHeader, HasAt bytes 0 header.encode := by
  obtain ⟨srcPort, srcPortAt⟩ := exists_hasAt_u16 (by omega : 0 + 1 < bytes.length)
  obtain ⟨dstPort, dstPortAt⟩ := exists_hasAt_u16 (by omega : 2 + 1 < bytes.length)
  obtain ⟨length, lengthAt⟩ := exists_hasAt_u16 (by omega : 4 + 1 < bytes.length)
  obtain ⟨checksum, checksumAt⟩ := exists_hasAt_u16 (by omega : 6 + 1 < bytes.length)
  refine ⟨⟨srcPort, dstPort, length, checksum⟩, ?_⟩
  rw [hasAt_encode_iff]
  exact ⟨srcPortAt, dstPortAt, lengthAt, checksumAt⟩

theorem parse_of_hasAt {header : UdpHeader} (held : HasAt bytes 0 header.encode) :
    parse bytes = some (some (header, bytes.drop 8)) := by
  have long : 8 ≤ bytes.length := by
    simpa using held.length_le header.encode_length (by decide)
  obtain ⟨srcPortAt, dstPortAt, lengthAt, checksumAt⟩ := (hasAt_encode_iff header).mp held
  have srcPort := (readU16_eq_some_iff bytes 0 _).mpr srcPortAt
  have dstPort := (readU16_eq_some_iff bytes 2 _).mpr dstPortAt
  have length := (readU16_eq_some_iff bytes 4 _).mpr lengthAt
  have checksum := (readU16_eq_some_iff bytes 6 _).mpr checksumAt
  rw [parse, if_neg (Nat.not_lt.mpr long), srcPort, dstPort, length, checksum,
    readRange_to_end long]
  rfl

theorem parse_append (header : UdpHeader) (rest : List U8) :
    parse (header.encode ++ rest) = some (some (header, rest)) := by
  rw [parse_of_hasAt (hasAt_self_append _ _), List.drop_left' (encode_length header)]

end UdpHeader

end AxiomKernel.Net
