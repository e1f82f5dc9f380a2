import Mathlib
import AxiomKernel.Lib.Bytes
import AxiomKernel.Aead.Rfc8439
import AxiomKernel.Aead.SealOpen
import AxiomKernel.Eipc.Channel

/-!
# What an accepted EIPC message authenticates

The sender seals each text under the session key with a nonce made from its
sequence number; the receiver opens what the channel hands over with the nonce
that stands in the message.  The tag covers the nonce, a constant and the
ciphertext, so `seq` and `sender_id` are not covered unless they are compared
with the nonce and the sender.
-/

set_option autoImplicit false

namespace AxiomKernel.Eipc

open ByteStrings Aead

/-! ## Sender and receiver -/

/-- `[0; 4] ++ (seq as u64).to_le_bytes()`. -/
def makeNonce (seq : U32) : Bytes 12 :=
  copyFromSlice (Vector.replicate 12 0) 4 (toLeBytes 8 (seq.setWidth 64))

/-- The bytes of `"AXIOM-EIPC-v1"`. -/
def eipcAad : List U8 :=
  [0x41, 0x58, 0x49, 0x4f, 0x4d, 0x2d, 0x45, 0x49, 0x50, 0x43, 0x2d, 0x76, 0x31]

/-- The message the sender hands to the kernel; `none` is the slice
`ct_buf[..pt.len()]` of a text that is too long. -/
def buildMessage (sessionKey : Bytes 32) (seq : U32) (pt : List U8) : Option EipcMessage :=
  if pt.length ≤ 64 then do
    let nonce := makeNonce seq
    let (ct, tag) ← chacha20Poly1305Seal sessionKey nonce eipcAad pt (List.replicate pt.length 0)
    return { senderId := 1
             seq
             nonce
             ct := copyFromSlice (Vector.replicate 64 0) 0 ct
             ctLen := BitVec.ofNat 64 pt.length
             tag }
  else none

def EipcMessage.ciphertext (m : EipcMessage) : Option (List U8) :=
  if m.ctLen.toNat ≤ 64 then some (m.ct.toList.take m.ctLen.toNat) else none

/-- The receiver's call of `open`: its answer and the plaintext buffer. -/
def openMessage (sessionKey : Bytes 32) (m : EipcMessage) : Option (Bool × List U8) := do
  let ct ← m.ciphertext
  chacha20Poly1305Open sessionKey m.nonce eipcAad ct m.tag (List.replicate m.ctLen.toNat 0)

def Accepts (sessionKey : Bytes 32) (m : EipcMessage) : Prop :=
  ∃ pt, openMessage sessionKey m = some (true, pt)

/-! ## What the sender built -/

/-- The texts sealed so far, each under its sequence number. -/
abbrev Sent := Set (U32 × List U8)

def Built (sessionKey : Bytes 32) (sent : Sent) (b : EipcMessage) : Prop :=
  ∃ seq pt, (seq, pt) ∈ sent ∧ buildMessage sessionKey seq pt = some b

structure SameSeal (m b : EipcMessage) : Prop where
  nonce : m.nonce = b.nonce
  ciphertext : m.ciphertext = b.ciphertext
  tag : m.tag = b.tag

/-- `open` accepts `m` only when its tag was produced by `seal`. -/
def Unforged (sessionKey : Bytes 32) (sent : Sent) (m : EipcMessage) : Prop :=
  Accepts sessionKey m → ∃ b, Built sessionKey sent b ∧ SameSeal m b

/-- Sender, sequence number, nonce, ciphertext and length are those of one message. -/
def Authentic (sessionKey : Bytes 32) (sent : Sent) (m : EipcMessage) : Prop :=
  ∃ b, Built sessionKey sent b ∧ m.senderId = b.senderId ∧ m.seq = b.seq ∧ m.nonce = b.nonce ∧
    m.ciphertext = b.ciphertext ∧ m.ctLen = b.ctLen

/-! ## Nonces and ciphertexts -/

theorem makeNonce_injective {left right : U32} (same : makeNonce left = makeNonce right) :
    left = right := by
  have counter : ∀ seq, slice (makeNonce seq) 4 8 = toLeBytes 8 (seq.setWidth 64) := by
    intro seq
    exact slice_copyFromSlice_self _ 4 8 _ (by simp) (by norm_num)
  have bytes : toLeBytes 8 (left.setWidth 64) = toLeBytes 8 (right.setWidth 64) := by
    rw [← counter, ← counter, same]
  have wide := congrArg BitVec.toNat (toLeBytes_injective (by norm_num) bytes)
  apply BitVec.eq_of_toNat_eq
  have leftLt := left.isLt
  have rightLt := right.isLt
  rw [BitVec.toNat_setWidth, BitVec.toNat_setWidth] at wide
  omega

theorem buildMessage_returns (sessionKey : Bytes 32) (seq : U32) (pt : List U8)
    (short : pt.length ≤ 64) : ∃ b, buildMessage sessionKey seq pt = some b := by
  obtain ⟨tag, sealed, -⟩ := seal_conforms sessionKey (makeNonce seq) eipcAad pt
    (List.replicate pt.length 0) (short.trans (by decide)) List.length_replicate
  apply Option.isSome_iff_exists.mp
  rw [buildMessage, if_pos short]
  simp only [sealed, Option.bind_eq_bind, Option.bind_some]
  rfl

theorem buildMessage_parts {sessionKey : Bytes 32} {seq : U32} {pt : List U8} {b : EipcMessage}
    (built : buildMessage sessionKey seq pt = some b) :
    b.senderId = 1 ∧ b.seq = seq ∧ b.nonce = makeNonce seq ∧
      b.ciphertext = some (Rfc8439.chacha20Encrypt sessionKey 1 (makeNonce seq) pt) ∧
      b.tag.toList = Rfc8439.aeadTag sessionKey (makeNonce seq) eipcAad
        (Rfc8439.chacha20Encrypt sessionKey 1 (makeNonce seq) pt) := by
  rw [buildMessage] at built
  split at built
  case isFalse => cases built
  case isTrue short =>
    obtain ⟨tag, sealed, tagEq⟩ := seal_conforms sessionKey (makeNonce seq) eipcAad pt
      (List.replicate pt.length 0) (short.trans (by decide)) List.length_replicate
    simp only [sealed, Option.bind_eq_bind, Option.bind_some] at built
    obtain rfl := Option.some.inj built
    refine ⟨rfl, rfl, rfl, ?_, tagEq⟩
    have length := chacha20Encrypt_length sessionKey 1 (makeNonce seq) pt
    have fits : (Rfc8439.chacha20Encrypt sessionKey 1 (makeNonce seq) pt).length ≤ 64 := by
      rw [length]
      exact short
    have ctLen : (BitVec.ofNat 64 pt.length).toNat = pt.length := by
      rw [BitVec.toNat_ofNat, Nat.mod_eq_of_lt (by omega)]
    rw [EipcMessage.ciphertext, ctLen, if_pos short, copyFromSlice_replicate _ _ fits,
      List.take_left' length]

theorem EipcMessage.ciphertext_length {m : EipcMessage} {ct : List U8}
    (sliced : m.ciphertext = some ct) : ct.length = m.ctLen.toNat ∧ ct.length ≤ 64 := by
  rw [EipcMessage.ciphertext] at sliced
  split at sliced
  case isTrue short =>
    obtain rfl := Option.some.inj sliced
    rw [List.length_take, Vector.length_toList, Nat.min_eq_left short]
    exact ⟨rfl, short⟩
  case isFalse => cases sliced

theorem Built.parts {sessionKey : Bytes 32} {sent : Sent} {b : EipcMessage}
    (built : Built sessionKey sent b) :
    b.senderId = 1 ∧ b.nonce = makeNonce b.seq ∧ ∃ ct, b.ciphertext = some ct := by
  obtain ⟨seq, pt, -, built⟩ := built
  obtain ⟨senderId, rfl, nonce, ciphertext, -⟩ := buildMessage_parts built
  exact ⟨senderId, nonce, _, ciphertext⟩

/-- What was sealed is accepted, whatever stands in the other fields. -/
theorem accepts_of_sameSeal {sessionKey : Bytes 32} {sent : Sent} {m b : EipcMessage}
    (built : Built sessionKey sent b) (same : SameSeal m b) : Accepts sessionKey m := by
  obtain ⟨seq, pt, -, built⟩ := built
  obtain ⟨-, -, nonce, ciphertext, tagEq⟩ := buildMessage_parts built
  have sliced := same.ciphertext.trans ciphertext
  obtain ⟨length, short⟩ := EipcMessage.ciphertext_length sliced
  have opened := open_conforms sessionKey (makeNonce seq) eipcAad _
    (List.replicate m.ctLen.toNat 0) b.tag (short.trans (by decide))
    (by rw [List.length_replicate, length])
  rw [if_pos tagEq, chacha20Encrypt_involutive] at opened
  have received : openMessage sessionKey m = some (true, pt) := by
    rw [openMessage, sliced, Option.bind_eq_bind, Option.bind_some, same.nonce, nonce, same.tag,
      opened]
  exact ⟨pt, received⟩

/-! ## The condition -/

/-- An accepted message is one the sender built exactly when, if it carries a seal of
the sender, its sender is the sender and its nonce is that of its sequence number. -/
theorem accepted_authentic_iff (sessionKey : Bytes 32) (sent : Sent) (m : EipcMessage)
    (unforged : Unforged sessionKey sent m) :
    (Accepts sessionKey m → Authentic sessionKey sent m) ↔
      ((∃ b, Built sessionKey sent b ∧ SameSeal m b) →
        m.senderId = 1 ∧ m.nonce = makeNonce m.seq) := by
  constructor
  · rintro authentic ⟨b, built, same⟩
    obtain ⟨b', built', senderId, seq, nonce, -⟩ := authentic (accepts_of_sameSeal built same)
    obtain ⟨sender, counter, -⟩ := built'.parts
    exact ⟨senderId.trans sender, by rw [nonce, counter, seq]⟩
  · intro checked accepts
    obtain ⟨b, built, same⟩ := unforged accepts
    obtain ⟨senderId, nonce⟩ := checked ⟨b, built, same⟩
    obtain ⟨sender, counter, ct, ciphertext⟩ := built.parts
    have seq : m.seq = b.seq := by
      apply makeNonce_injective
      rw [← nonce, same.nonce, counter]
    have sliced := same.ciphertext.trans ciphertext
    have ctLen : m.ctLen = b.ctLen := by
      apply BitVec.eq_of_toNat_eq
      rw [← (EipcMessage.ciphertext_length sliced).1, (EipcMessage.ciphertext_length ciphertext).1]
    exact ⟨b, built, senderId.trans sender.symm, seq, same.nonce, same.ciphertext, ctLen⟩

/-! ## A message with another sequence number -/

def oneText : Sent := {(1, [0x41])}

theorem oneText_built (sessionKey : Bytes 32) :
    ∃ b, buildMessage sessionKey 1 [0x41] = some b ∧ Built sessionKey oneText b := by
  obtain ⟨b, built⟩ := buildMessage_returns sessionKey 1 [0x41] (by decide)
  exact ⟨b, built, 1, [0x41], rfl, built⟩

/-- The kernel changes `seq` and `sender_id` of the message, and it is accepted. -/
theorem accepts_changed_seq_and_sender :
    ∃ b m, buildMessage (Vector.replicate 32 0) 1 [0x41] = some b ∧
      m = { b with seq := 7, senderId := 2 } ∧
      Unforged (Vector.replicate 32 0) oneText m ∧ Accepts (Vector.replicate 32 0) m ∧
      ¬ Authentic (Vector.replicate 32 0) oneText m := by
  obtain ⟨b, built, isBuilt⟩ := oneText_built (Vector.replicate 32 0)
  have same : SameSeal { b with seq := 7, senderId := 2 } b := ⟨rfl, rfl, rfl⟩
  refine ⟨b, _, built, rfl, fun _ => ⟨b, isBuilt, same⟩, accepts_of_sameSeal isBuilt same, ?_⟩
  rintro ⟨other, otherBuilt, sender, -⟩
  have wrong : (2 : U32) = 1 := sender.trans otherBuilt.parts.1
  exact absurd wrong (by decide)

theorem accepted_authentic_iff_oneText :
    ∃ b, buildMessage (Vector.replicate 32 0) 1 [0x41] = some b ∧
      ((Accepts (Vector.replicate 32 0) b → Authentic (Vector.replicate 32 0) oneText b) ↔
        ((∃ other, Built (Vector.replicate 32 0) oneText other ∧ SameSeal b other) →
          b.senderId = 1 ∧ b.nonce = makeNonce b.seq)) := by
  obtain ⟨b, built, isBuilt⟩ := oneText_built (Vector.replicate 32 0)
  exact ⟨b, built, accepted_authentic_iff (Vector.replicate 32 0) oneText b
    fun _ => ⟨b, isBuilt, rfl, rfl, rfl⟩⟩

end AxiomKernel.Eipc
