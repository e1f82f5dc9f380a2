import Mathlib
import AxiomKernel.Lib.Bytes
import AxiomKernel.Lib.BlockStream
import AxiomKernel.Crypto.Sha256
import AxiomKernel.Crypto.Fips180

/-!
# The kernel's SHA-256 conforms to FIPS 180-4

First the compression function: the constant tables are the standard's root
bits, the word array is the standard's schedule and each loop iteration is one
round of the standard.  Then the streaming hasher: every `update` keeps the
buffer invariant for the concatenation of all chunks, and `finalize` closes it
with the standard's padding.
-/

set_option autoImplicit false

namespace AxiomKernel.Crypto

open ByteStrings BlockStreams

/-! ## Constants and message schedule -/

private theorem K_table : ∀ t : Fin 64, K[t] = Fips180.roundConstant t.val := by
  decide +kernel

private theorem H0_table :
    ∀ t : Fin 8, H0[t] = Fips180.rootBits 2 (Fips180.primes.getD t.val 0) := by
  decide +kernel

theorem K_getElem (t : Nat) (bound : t < 64) : K[t] = Fips180.roundConstant t :=
  K_table ⟨t, bound⟩

theorem H0_eq_initialHash : H0 = Fips180.initialHash := by
  apply Vector.ext
  intro i bound
  rw [Fips180.initialHash, Vector.getElem_ofFn]
  exact H0_table ⟨i, bound⟩

theorem loadWords_getElem (block : Bytes 64) (t : Nat) (bound : t < 16) (inside : t < 64) :
    (loadWords block)[t] = Fips180.W block t := by
  have blockWord_eq : ∀ k (kBound : k < 16), Fips180.blockWord block k =
      fromBeBytes 32 [block[k * 4], block[k * 4 + 1], block[k * 4 + 2], block[k * 4 + 3]] := by
    intro k kBound
    rw [Fips180.blockWord, Nat.mul_comm 4 k]
    exact congrArg (fromBeBytes 32) (slice_four block (k * 4) (by omega))
  unfold loadWords
  -- after `k` iterations the first `k` words are in place
  refine forLoop_invariant _ _
    (fun k w => ∀ t (tBound : t < 16), t < k → w[t] = Fips180.W block t) ?_ ?_ t bound bound
  · intro t _ impossible
    omega
  · intro k kBound w loaded t tBound tLe
    rw [Vector.getElem_set]
    by_cases last : k = t
    · subst last
      rw [if_pos rfl, Fips180.W, if_pos kBound, blockWord_eq k kBound]
    · rw [if_neg last]
      exact loaded t tBound (by omega)

/-- The expansion step writes word `j + 16` and keeps every other one. -/
theorem expandWord_getElem (j : Nat) (bound : j < 48) (w : Vector U32 64) (t : Nat)
    (tBound : t < 64) :
    (expandWord j bound w)[t] =
      if j + 16 = t then
        Fips180.smallSigma1 w[j + 14] + w[j + 9] + Fips180.smallSigma0 w[j + 1] + w[j]
      else w[t] := by
  rw [expandWord, Vector.getElem_set]
  split
  · simp only [Fips180.smallSigma0, Fips180.smallSigma1, show j + 16 - 15 = j + 1 by omega,
      show j + 16 - 2 = j + 14 by omega, show j + 16 - 7 = j + 9 by omega,
      show j + 16 - 16 = j by omega]
    ac_rfl
  · rfl

theorem messageWords_getElem (block : Bytes 64) (t : Nat) (bound : t < 64) :
    (messageWords block)[t] = Fips180.W block t := by
  unfold messageWords
  -- the first `16 + k` words are final after `k` iterations
  refine forLoop_invariant _ _
    (fun k w => ∀ t (tBound : t < 64), t < 16 + k → w[t] = Fips180.W block t)
    ?_ ?_ t bound (by omega)
  · intro t _ tLt
    exact loadWords_getElem block t tLt (by omega)
  · intro k kBound w expanded t tBound tLt
    rw [expandWord_getElem]
    split
    · rename_i last
      subst last
      rw [Fips180.W, if_neg (by omega), expanded (k + 14) (by omega) (by omega),
        expanded (k + 9) (by omega) (by omega), expanded (k + 1) (by omega) (by omega),
        expanded k (by omega) (by omega)]
      rfl
    · exact expanded t tBound (by omega)

/-! ## Rounds -/

def Working.toVariables (v : Working) : Fips180.Variables :=
  ⟨v.a, v.b, v.c, v.d, v.e, v.f, v.g, v.h⟩

theorem compressRound_toVariables (block : Bytes 64) (i : Nat) (bound : i < 64) (v : Working) :
    (compressRound (messageWords block) i bound v).toVariables =
      Fips180.round block i v.toVariables := by
  simp only [compressRound, Working.toVariables, Fips180.round, K_getElem, messageWords_getElem,
    Fips180.bigSigma0, Fips180.bigSigma1, Fips180.ch, Fips180.maj]

theorem compressRounds_toVariables (block : Bytes 64) (v : Working) :
    (compressRounds (messageWords block) v).toVariables =
      Fips180.rounds block 64 v.toVariables := by
  unfold compressRounds
  refine forLoop_invariant _ _
    (fun k (current : Working) =>
      current.toVariables = Fips180.rounds block k v.toVariables) rfl ?_
  intro k kBound current sofar
  rw [compressRound_toVariables, sofar, Fips180.rounds]

private theorem addState_eq (s0 s1 s2 s3 s4 s5 s6 s7 : U32) (v : Working) (u : Fips180.Variables)
    (same : v.toVariables = u) :
    #v[s0 + v.a, s1 + v.b, s2 + v.c, s3 + v.d, s4 + v.e, s5 + v.f, s6 + v.g, s7 + v.h] =
      #v[u.a + s0, u.b + s1, u.c + s2, u.d + s3, u.e + s4, u.f + s5, u.g + s6, u.h + s7] := by
  subst same
  simp only [Working.toVariables, BitVec.add_comm]

theorem compress_eq_hashBlock : compress = Fips180.hashBlock := by
  funext state block
  have words : ∀ i (inside : i < 8), state[i]! = state[i] := fun i inside =>
    getElem!_pos state i inside
  simp (disch := decide) only [Fips180.hashBlock, words]
  exact addState_eq _ _ _ _ _ _ _ _ _ _ (compressRounds_toVariables block _)

/-! ## The streaming hasher -/

/-- The buffer of the hasher represents the text consumed so far. -/
def Sha256.Holds (hasher : Sha256) (text : List U8) : Prop :=
  Buffered compress H0 text hasher.state hasher.buf hasher.bufLen.val

theorem Sha256.new_holds : Sha256.new.Holds [] :=
  Buffered.start compress H0 (Vector.replicate 64 0) (by decide)

/-- One iteration moves a front part of the data into the consumed text. -/
theorem Sha256.absorb_holds (hasher : Sha256) (text data : List U8) (held : hasher.Holds text) :
    ∃ taken, taken ++ (hasher.absorb data).2 = data ∧
      ((hasher.absorb data).2.length < data.length ∨ data = []) ∧
      (hasher.absorb data).1.Holds (text ++ taken) ∧
      (hasher.absorb data).1.totalLen = hasher.totalLen := by
  have room := hasher.bufLen.isLt
  let take := min (64 - hasher.bufLen.val) data.length
  have takenLength : (data.take take).length = take := by
    rw [List.length_take]
    omega
  have progress : (data.drop take).length < data.length ∨ data = [] := by
    rw [List.length_drop]
    rcases data.eq_nil_or_concat with empty | ⟨_, _, nonempty⟩
    · exact Or.inr empty
    · have : 0 < data.length := by simp [nonempty]
      omega
  refine ⟨data.take take, ?_⟩
  by_cases full : hasher.bufLen.val + take = 64
  · have equation : hasher.absorb data = (_, data.drop take) := dif_pos full
    rw [equation]
    refine ⟨List.take_append_drop take data, progress, ?_, rfl⟩
    have filled := copyFromSlice_take hasher.buf hasher.bufLen.val (data.take take) (by omega)
    rw [takenLength, full, List.take_of_length_le (by simp)] at filled
    exact held.complete _ _ _ filled
  · have equation : hasher.absorb data = (_, data.drop take) := dif_neg full
    rw [equation]
    refine ⟨List.take_append_drop take data, progress, ?_, rfl⟩
    have extended := Buffered.extend held (data.take take) (by omega)
    rwa [takenLength] at extended

theorem Sha256.absorbAll_holds (fuel : Nat) (hasher : Sha256) (text data : List U8)
    (held : hasher.Holds text) (enough : data.length ≤ fuel) :
    (Sha256.absorbAll fuel hasher data).Holds (text ++ data) ∧
      (Sha256.absorbAll fuel hasher data).totalLen = hasher.totalLen := by
  induction fuel generalizing hasher text data with
  | zero =>
      have empty : data = [] := List.length_eq_zero_iff.mp (by omega)
      subst empty
      exact ⟨by simpa [Sha256.absorbAll] using held, rfl⟩
  | succ fuel inductionHypothesis =>
      by_cases empty : data = []
      · subst empty
        exact ⟨by simpa [Sha256.absorbAll] using held, by simp [Sha256.absorbAll]⟩
      · obtain ⟨taken, splitData, progress, absorbed, sameTotal⟩ :=
          hasher.absorb_holds text data held
        have shorter : (hasher.absorb data).2.length ≤ fuel := by
          rcases progress with progress | progress
          · omega
          · exact absurd progress empty
        obtain ⟨rest, restTotal⟩ := inductionHypothesis _ _ _ absorbed shorter
        rw [List.append_assoc, splitData] at rest
        rw [Sha256.absorbAll, if_neg (by simpa using empty)]
        exact ⟨rest, restTotal.trans sameTotal⟩

theorem Sha256.update_holds (hasher : Sha256) (text data : List U8) (held : hasher.Holds text) :
    (hasher.update data).Holds (text ++ data) :=
  (Sha256.absorbAll_holds data.length
    { hasher with totalLen := hasher.totalLen + BitVec.ofNat 64 data.length }
    text data held le_rfl).1

theorem Sha256.update_totalLen (hasher : Sha256) (text data : List U8)
    (held : hasher.Holds text) :
    (hasher.update data).totalLen = hasher.totalLen + BitVec.ofNat 64 data.length :=
  (Sha256.absorbAll_holds data.length
    { hasher with totalLen := hasher.totalLen + BitVec.ofNat 64 data.length }
    text data held le_rfl).2

/-- A whole sequence of updates holds the concatenation and its length. -/
theorem Sha256.updates_hold (chunks : List (List U8)) (hasher : Sha256) (text : List U8)
    (held : hasher.Holds text) (counted : hasher.totalLen = BitVec.ofNat 64 text.length) :
    (chunks.foldl Sha256.update hasher).Holds (text ++ chunks.flatten) ∧
      (chunks.foldl Sha256.update hasher).totalLen =
        BitVec.ofNat 64 (text ++ chunks.flatten).length := by
  induction chunks generalizing hasher text with
  | nil => simpa using ⟨held, counted⟩
  | cons chunk rest inductionHypothesis =>
      have nextCounted : (hasher.update chunk).totalLen =
          BitVec.ofNat 64 (text ++ chunk).length := by
        rw [hasher.update_totalLen text chunk held, counted, List.length_append,
          BitVec.ofNat_add]
      have next := inductionHypothesis (hasher.update chunk) (text ++ chunk)
        (hasher.update_holds text chunk held) nextCounted
      rw [List.append_assoc] at next
      simpa only [List.foldl_cons, List.flatten_cons] using next

/-! ## Padding -/

theorem zeroRange_take (buf : Bytes 64) (start stop : Nat) (ordered : start ≤ stop)
    (inside : stop ≤ 64) :
    (zeroRange buf start stop).toList.take stop =
      buf.toList.take start ++ List.replicate (stop - start) 0 := by
  have copied := copyFromSlice_take buf start (List.replicate (stop - start) 0)
    (by rw [List.length_replicate]; omega)
  rwa [List.length_replicate, Nat.add_sub_cancel' ordered] at copied

theorem zeroRange_set (buf : Bytes 64) (fill stop : Nat) (byte : U8) (room : fill < stop)
    (inside : stop ≤ 64) (bound : fill < 64) :
    (zeroRange (buf.set fill byte) (fill + 1) stop).toList.take stop =
      buf.toList.take fill ++ ([byte] ++ List.replicate (stop - (fill + 1)) 0) := by
  have marked : (buf.set fill byte).toList.take (fill + 1) = buf.toList.take fill ++ [byte] := by
    rw [Vector.toList_set, List.take_add_one, List.take_set_of_le le_rfl]
    simp [bound]
  rw [zeroRange_take _ (fill + 1) stop room inside, marked, List.append_assoc]

/-- The length field takes the last eight bytes of the final block. -/
theorem copyLength_toList (buf : Bytes 64) (length : Nat) :
    (copyFromSlice buf 56 (beBytes 8 length)).toList =
      buf.toList.take 56 ++ beBytes 8 length := by
  rw [copyFromSlice_toList buf 56 _ (by simp), List.drop_of_length_le (by simp),
    List.append_nil]

theorem serialiseState_toList (state : Vector U32 8) :
    (serialiseState state).toList = state.toList.flatMap (toBeBytes 4) :=
  copyWords_toList (toBeBytes 4) (toBeBytes_length 4) state (Vector.replicate (8 * 4) 0)

/-- The marker, the zeros and the length fit behind the buffered bytes. -/
theorem Sha256.pad_fits (hasher : Sha256) (text : List U8) (held : hasher.Holds text)
    (fits : hasher.bufLen.val + 1 ≤ 56) :
    foldBlocks compress ((Fips180.pad text).length / 64) H0 (Fips180.pad text) =
      compress hasher.state
        (copyFromSlice
          (zeroRange (hasher.buf.set hasher.bufLen.val 0x80) (hasher.bufLen.val + 1) 56)
          56 (beBytes 8 (8 * text.length))) := by
  have fillEq : hasher.bufLen.val = text.length % 64 := held.fill_eq
  have zeros : Fips180.paddingZeros text.length = 56 - (hasher.bufLen.val + 1) := by
    rw [Fips180.paddingZeros]
    omega
  have marked := zeroRange_set hasher.buf hasher.bufLen.val 56 0x80 fits (by decide)
    hasher.bufLen.isLt
  have filled : (copyFromSlice
        (zeroRange (hasher.buf.set hasher.bufLen.val 0x80) (hasher.bufLen.val + 1) 56)
        56 (beBytes 8 (8 * text.length))).toList =
      hasher.buf.toList.take hasher.bufLen.val ++
        ([0x80] ++ List.replicate (Fips180.paddingZeros text.length) 0 ++
          beBytes 8 (8 * text.length)) := by
    rw [copyLength_toList, marked, zeros, List.append_assoc]
  exact (Buffered.complete held _ _ hasher.buf filled).closed

/-- The marker leaves no room for the length: it ends the buffered block, and
the length ends a block of zeros. -/
theorem Sha256.pad_spills (hasher : Sha256) (text : List U8) (held : hasher.Holds text)
    (spill : hasher.bufLen.val + 1 > 56) :
    foldBlocks compress ((Fips180.pad text).length / 64) H0 (Fips180.pad text) =
      compress
        (compress hasher.state
          (zeroRange (hasher.buf.set hasher.bufLen.val 0x80) (hasher.bufLen.val + 1) 64))
        (copyFromSlice
          (zeroRange
            (zeroRange (hasher.buf.set hasher.bufLen.val 0x80) (hasher.bufLen.val + 1) 64) 0 56)
          56 (beBytes 8 (8 * text.length))) := by
  have fillEq : hasher.bufLen.val = text.length % 64 := held.fill_eq
  have room := hasher.bufLen.isLt
  have zeros : Fips180.paddingZeros text.length = 64 - (hasher.bufLen.val + 1) + 56 := by
    rw [Fips180.paddingZeros]
    omega
  have marked := zeroRange_set hasher.buf hasher.bufLen.val 64 0x80 room le_rfl room
  rw [List.take_of_length_le (by simp)] at marked
  generalize zeroRange (hasher.buf.set hasher.bufLen.val 0x80) (hasher.bufLen.val + 1) 64 =
    first at marked ⊢
  have filled : (copyFromSlice (zeroRange first 0 56) 56 (beBytes 8 (8 * text.length))).toList =
      first.toList.take 0 ++ (List.replicate 56 0 ++ beBytes 8 (8 * text.length)) := by
    rw [copyLength_toList, zeroRange_take first 0 56 (by decide) (by decide), List.append_assoc]
  have absorbed := (Buffered.complete held _ first first marked).complete _ _ first filled
  have padded : text ++ ([0x80] ++ List.replicate (64 - (hasher.bufLen.val + 1)) 0) ++
      (List.replicate 56 0 ++ beBytes 8 (8 * text.length)) = Fips180.pad text := by
    rw [Fips180.pad, zeros, List.replicate_add]
    simp only [List.append_assoc]
  rw [← padded]
  exact absorbed.closed

/-- The length field keeps 64 bits on both sides, so this needs no bound on the text. -/
theorem Sha256.finalize_conforms (hasher : Sha256) (text : List U8) (held : hasher.Holds text)
    (counted : hasher.totalLen = BitVec.ofNat 64 text.length) :
    hasher.finalize.toList = Fips180.sha256 text := by
  have lengthField : toBeBytes 8 (hasher.totalLen * 8) = beBytes 8 (8 * text.length) := by
    have bits : (hasher.totalLen * 8).toNat ≡ 8 * text.length [MOD 256 ^ 8] := by
      rw [counted, BitVec.toNat_mul, BitVec.toNat_ofNat]
      change text.length % 2 ^ 64 * 8 % 2 ^ 64 % 256 ^ 8 = 8 * text.length % 256 ^ 8
      omega
    rw [toBeBytes, beBytes, beBytes, leBytes_congr bits]
  have digest : (serialiseState (foldBlocks compress ((Fips180.pad text).length / 64) H0
      (Fips180.pad text))).toList = Fips180.sha256 text := by
    rw [serialiseState_toList, Fips180.sha256, compress_eq_hashBlock, H0_eq_initialHash]
  rw [← digest]
  unfold Sha256.finalize
  by_cases spill : hasher.bufLen.val + 1 > 56
  · simp only [if_pos spill, lengthField]
    rw [hasher.pad_spills text held spill]
  · simp only [if_neg spill, lengthField]
    rw [hasher.pad_fits text held (by omega)]

/-! ## Main theorem -/

/-- The running length never wraps while the total stays below `2^61` bytes. -/
theorem Sha256.updates_totalLen (chunks : List (List U8))
    (short : chunks.flatten.length < 2 ^ 61) :
    (chunks.foldl Sha256.update Sha256.new).totalLen.toNat = chunks.flatten.length := by
  have counted := (Sha256.updates_hold chunks Sha256.new [] Sha256.new_holds rfl).2
  rw [counted, List.nil_append, BitVec.toNat_ofNat]
  omega

theorem Sha256.updates_conform (chunks : List (List U8)) :
    (chunks.foldl Sha256.update Sha256.new).finalize.toList =
      Fips180.sha256 chunks.flatten := by
  obtain ⟨held, counted⟩ := Sha256.updates_hold chunks Sha256.new [] Sha256.new_holds rfl
  exact Sha256.finalize_conforms _ _ held counted

/-- Neither a running total nor the final count of bits leaves its 64 bits. -/
def Sha256.LengthsFit (chunks : List (List U8)) : Prop :=
  (∀ front chunk back, chunks = front ++ chunk :: back →
    (front.foldl Sha256.update Sha256.new).totalLen.toNat + chunk.length < 2 ^ 64) ∧
  (chunks.foldl Sha256.update Sha256.new).totalLen.toNat * 8 < 2 ^ 64

theorem Sha256.lengthsFit_of_short (chunks : List (List U8))
    (short : chunks.flatten.length < 2 ^ 61) : Sha256.LengthsFit chunks := by
  constructor
  · intro front chunk back split
    subst split
    simp only [List.flatten_append, List.flatten_cons, List.length_append] at short
    rw [Sha256.updates_totalLen front (by omega)]
    omega
  · rw [Sha256.updates_totalLen chunks short]
    omega

/-- Any sequence of updates, closed by `finalize`, is the FIPS 180-4 digest of
the concatenation, whatever the chunking; neither the length additions nor the
final multiplication by eight overflows on the way. -/
theorem streaming_sha256_conforms (chunks : List (List U8))
    (short : chunks.flatten.length < 2 ^ 61) :
    (chunks.foldl Sha256.update Sha256.new).finalize.toList =
        Fips180.sha256 chunks.flatten ∧
      (∀ others : List (List U8), others.flatten = chunks.flatten →
        (others.foldl Sha256.update Sha256.new).finalize =
          (chunks.foldl Sha256.update Sha256.new).finalize) ∧
      (∀ front chunk back, chunks = front ++ chunk :: back →
        (front.foldl Sha256.update Sha256.new).totalLen.toNat + chunk.length < 2 ^ 64) ∧
      (chunks.foldl Sha256.update Sha256.new).totalLen.toNat * 8 < 2 ^ 64 := by
  refine ⟨Sha256.updates_conform chunks, ?_, Sha256.lengthsFit_of_short chunks short⟩
  intro others same
  apply Vector.toList_inj.mp
  rw [Sha256.updates_conform chunks, Sha256.updates_conform others, same]

theorem streaming_sha256_conforms_abc :
    ([[0x61], [], [0x62, 0x63]].foldl Sha256.update Sha256.new).finalize.toList =
      Fips180.sha256 [0x61, 0x62, 0x63] :=
  (streaming_sha256_conforms [[0x61], [], [0x62, 0x63]] (by decide)).1

theorem sha256_conforms (data : List U8) : (sha256 data).toList = Fips180.sha256 data := by
  have once := Sha256.updates_conform [data]
  simpa [sha256] using once

end AxiomKernel.Crypto
