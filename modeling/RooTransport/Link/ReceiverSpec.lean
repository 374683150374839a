import RooTransport.Link.Receiver

/-!
# What the receiver operations do to the window

One description for each operation of `receiver.cpp`, in terms of the interval of
positions the window spans and of the buffer kept for each position. All later results
about the receiver are derived from these.
-/

namespace RooTransport.Link

open RooTransport.Base RingBuffer

namespace Receiver

variable {n : LinkBufferSize}

/-- The buffer kept for a position. -/
def bufferAt (r : Receiver n) (p : Int) : InBuffer := r.inBuffers (slotAt n p)

/-- The packet of a position has been received. -/
def Received (r : Receiver n) (p : Int) : Prop := (r.bufferAt p).type ≠ .unset

/-- The buffer of a sequence number is that of its position. -/
@[simp] theorem getInBuffer_ofPos (r : Receiver n) (p : Int) :
    r.getInBuffer (.ofPos p) = r.bufferAt p := by
  rw [getInBuffer, offsetFor_ofPos, bufferAt]

private theorem update_slotAt_ne {α : Type} (f : Slots n α) (x : α) {p q : Int} (hne : p ≠ q)
    (hl : -2 ^ n.val < p - q) (hu : p - q < 2 ^ n.val) :
    Function.update f (slotAt n q) x (slotAt n p) = f (slotAt n p) :=
  Function.update_of_ne (slotAt_ne hne hl hu) x f

/-! ### Arriving packets -/

/-- Making room clears the new slots and touches nothing else. -/
theorem extend_ok (k : Nat) : ∀ (r : Receiver n) {b e : Int}, r.inRing.Spans b e →
    e + k ≤ b + 2 ^ n.val → ∃ ring bufs,
      extend k r = .ok { r with inRing := ring, inBuffers := bufs } ∧
      ring.Spans b (e + k) ∧
      (∀ p, e ≤ p → p < e + k → (bufs (slotAt n p)).type = .unset) ∧
      (∀ i, (∀ p, e ≤ p → p < e + k → slotAt n p ≠ i) → bufs i = r.inBuffers i) := by
  induction k with
  | zero =>
    intro r b e hs hk
    exact ⟨r.inRing, r.inBuffers, rfl, by simpa using hs, by omega, fun _ _ ↦ rfl⟩
  | succ k ih =>
    intro r b e hs hk
    push_cast at hk
    obtain ⟨ring, hp, hr⟩ := hs.push_ok (by omega)
    have hle := hs.le
    obtain ⟨ring', bufs, he, hs', hnew, hold⟩ := ih { r with
      inRing := ring
      inBuffers := Function.update r.inBuffers (ring.offsetFor (.ofPos e))
        (r.inBuffers (ring.offsetFor (.ofPos e))).clear } hr (by omega)
    simp only [offsetFor_ofPos] at hold
    refine ⟨ring', bufs, ?_, ?_, ?_, ?_⟩
    · simp only [extend, hp]
      exact he
    · push_cast
      rwa [show e + (k + 1 : Int) = e + 1 + k by omega]
    · intro p hb hpe
      push_cast at hpe
      by_cases hpe' : p = e
      · subst hpe'
        rw [hold _ fun p' hp' hpk ↦ slotAt_ne (by omega) (by omega) (by omega),
          Function.update_self, InBuffer.clear_type]
      · exact hnew p (by omega) (by omega)
    · intro i hi
      rw [hold i fun p hp hpk ↦ hi p (by omega) (by push_cast; omega)]
      exact Function.update_of_ne (Ne.symm (hi e (by omega) (by push_cast; omega))) _ _

/-- Closing the input drops all that is buffered. -/
theorem markInputClosed_ok {r : Receiver n} {b e : Int} (hs : r.inRing.Spans b e) :
    ∃ due ready, r.markInputClosed = .ok ({ r with
      selfClosed := true
      recvHimarkUpdateExpiration := due
      inRing := .new n (.ofPos e) }, ready) := by
  unfold markInputClosed
  dsimp only
  split
  · next hempty =>
    obtain rfl := hs.empty_iff.mp hempty
    exact ⟨r.recvHimarkUpdateExpiration, false, by rw [← hs.eq_new]⟩
  · rw [hs.popAll_ok]
    exact ⟨0, true, rfl⟩

/-- Moving past received packets stops at the first gap or at the end of the window. -/
theorem advanceUnack_spec (fuel : Nat) : ∀ (r : Receiver n) {b e u : Int}, r.inRing.Spans b e →
    r.unackSeq = .ofPos u → b ≤ u → u < e → e - u ≤ fuel → r.Received u →
    ∃ u' received, advanceUnack fuel r =
        { r with unackSeq := .ofPos u', packetsReceived := received } ∧
      u < u' ∧ u' ≤ e ∧ (∀ p, u ≤ p → p < u' → r.Received p) ∧ (u' < e → ¬ r.Received u') := by
  induction fuel with
  | zero => intro r b e u hs hu hb he hf; omega
  | succ fuel ih =>
    intro r b e u hs hu hb he hf hr
    have hcap := capacity_le n
    have hus := hs.used
    have hn : r.unackSeq.next = .ofPos (u + 1) := by rw [hu, SeqNum.ofPos_next]
    have hc := hs.contains_iff (p := u + 1) (by omega) (by omega)
    rw [advanceUnack]
    simp only [hn]
    split
    · next hin =>
      obtain ⟨hin, hset⟩ := hin
      have hlt := (hc.mp hin).2
      have hrec : r.Received (u + 1) := by
        rw [getInBuffer, offsetFor_ofPos] at hset
        exact hset
      obtain ⟨u', received, heq, hlt', hle', hall, hgap⟩ :=
        ih { r with unackSeq := .ofPos (u + 1), packetsReceived := r.packetsReceived + 1 } hs rfl
          (by omega) hlt (by push_cast at hf; omega) hrec
      refine ⟨u', received, heq, by omega, hle', ?_, hgap⟩
      intro p hp hp'
      by_cases hpu : p = u
      · subst hpu; exact hr
      · exact hall p (by omega) hp'
    · next hout =>
      refine ⟨u + 1, _, rfl, by omega, by omega, ?_, ?_⟩
      · intro p hp hp'
        have hpu : p = u := by omega
        subst hpu
        exact hr
      · intro hlt hrec
        apply hout
        refine ⟨hc.mpr ⟨by omega, hlt⟩, ?_⟩
        rw [getInBuffer, offsetFor_ofPos]
        exact hrec

/-- Draining moves the window up to the first packet that is still missing. -/
theorem drain_ok (fuel : Nat) : ∀ (r : Receiver n) {b e u : Int}, r.inRing.Spans b e →
    r.unackSeq = .ofPos u → b ≤ u → u ≤ e → u - b ≤ fuel →
    ∃ ring, drain fuel r = .ok { r with inRing := ring } ∧ ring.Spans u e := by
  induction fuel with
  | zero =>
    intro r b e u hs hu hb he hf
    have hbu : b = u := by omega
    subst hbu
    exact ⟨r.inRing, rfl, hs⟩
  | succ fuel ih =>
    intro r b e u hs hu hb he hf
    have hcap := capacity_le n
    have hus := hs.used
    have hlt : r.inRing.begin_ < r.unackSeq ↔ b < u := by
      rw [hs.begin_eq, hu, SeqNum.ofPos_lt (by omega) (by omega)]
    rw [drain]
    split
    · next hin =>
      have hbu := hlt.mp hin.2
      obtain ⟨ring, hp, hr⟩ := hs.pop_ok (by omega)
      simp only [hp]
      exact ih { r with inRing := ring } hr hu (by omega) he (by push_cast at hf; omega)
    · next hout =>
      have hbu : b = u := by
        by_contra hne
        apply hout
        refine ⟨hs.empty_eq_false.mpr (by omega), hlt.mpr (by omega)⟩
      subst hbu
      exact ⟨r.inRing, rfl, hs⟩

/-- The type of buffer a packet is stored as. -/
def storedType (isFinal : Bool) : InBufferType := if isFinal then .fin else .data

/-- The effect of taking in the packet at position `q` on a window spanning `b` to `e`: the
window reaches past `q`, slots up to `q` open as gaps, a copy received earlier is kept,
and a packet filling the oldest gap moves `unackSeq` to the next one. -/
structure Accepted (r : Receiver n) (b e q : Int) (payload : List UInt8) (isFinal : Bool)
    (r' : Receiver n) (b' : Int) : Prop where
  spans : r'.inRing.Spans b' (max e (q + 1))
  frame : r' = { r with
    inRing := r'.inRing
    inBuffers := r'.inBuffers
    unackSeq := r'.unackSeq
    packetsReceived := r'.packetsReceived
    peerClosed := r.peerClosed || isFinal
    needsAck := true }
  kept : ∀ p, b ≤ p → p < e → p ≠ q → r'.bufferAt p = r.bufferAt p
  others : ∀ i, (∀ p, e ≤ p → p ≤ q → slotAt n p ≠ i) → slotAt n q ≠ i →
    r'.inBuffers i = r.inBuffers i
  gap : ∀ p, e ≤ p → p < q → ¬ r'.Received p
  duplicate : q < e → r.Received q → r'.bufferAt q = r.bufferAt q
  stored : (q < e → ¬ r.Received q) → ∃ old : InBuffer,
    old.set (storedType isFinal) payload = .ok (r'.bufferAt q)
  unack : (r.unackSeq ≠ .ofPos q ∧ r'.unackSeq = r.unackSeq ∧ b' = b) ∨
    (r.unackSeq = .ofPos q ∧ ∃ u', r'.unackSeq = .ofPos u' ∧ q < u' ∧ u' ≤ max e (q + 1) ∧
      (∀ p, q ≤ p → p < u' → r'.Received p) ∧ (u' < max e (q + 1) → ¬ r'.Received u') ∧
      b' = if r.selfClosed then u' else b)

/-- After it was taken in, the packet counts as received. -/
theorem Accepted.received {r r' : Receiver n} {b e q b' : Int} {payload : List UInt8}
    {isFinal : Bool} (h : Accepted r b e q payload isFinal r' b') : r'.Received q := by
  by_cases hd : q < e ∧ r.Received q
  · rw [Received, h.duplicate hd.1 hd.2]
    exact hd.2
  · obtain ⟨old, hset⟩ := h.stored (fun hq hr ↦ hd ⟨hq, hr⟩)
    rw [Received, InBuffer.type_of_set hset]
    cases isFinal <;> simp [storedType]

/-- A slot of the new window holds what it held, is open, or has just been filled. -/
theorem Accepted.buffer {r r' : Receiver n} {b e q b' : Int} {payload : List UInt8}
    {isFinal : Bool} (h : Accepted r b e q payload isFinal r' b') {p : Int} (hb : b ≤ p)
    (hp : p < max e (q + 1)) :
    (p < e ∧ r'.bufferAt p = r.bufferAt p) ∨ ¬ r'.Received p ∨
      (p = q ∧ (q < e → ¬ r.Received q) ∧ ∃ old : InBuffer,
        old.set (storedType isFinal) payload = .ok (r'.bufferAt q)) := by
  by_cases hpq : p = q
  · subst hpq
    by_cases hd : p < e ∧ r.Received p
    · exact .inl ⟨hd.1, h.duplicate hd.1 hd.2⟩
    · have hnew : p < e → ¬ r.Received p := fun hq hr ↦ hd ⟨hq, hr⟩
      exact .inr (.inr ⟨rfl, hnew, h.stored hnew⟩)
  · by_cases hpe : p < e
    · exact .inl ⟨hpe, h.kept p hb hpe hpq⟩
    · exact .inr (.inl (h.gap p (by omega) (by omega)))

/-- While the input is open, only reading moves the start of the window. -/
theorem Accepted.begin_eq {r r' : Receiver n} {b e q b' : Int} {payload : List UInt8}
    {isFinal : Bool} (h : Accepted r b e q payload isFinal r' b') (hsc : r.selfClosed = false) :
    b = b' := by
  rcases h.unack with ⟨-, -, hb⟩ | ⟨-, _, -, -, -, -, -, hb⟩
  · exact hb.symm
  · rw [hb, if_neg (by rw [hsc]; decide)]

/-- The buffer `buf` holds the packet at position `q`, or the copy of it that came first. -/
structure Filled (r : Receiver n) (q : Int) (payload : List UInt8) (isFinal : Bool)
    (buf : InBuffer) : Prop where
  duplicate : r.Received q → buf = r.bufferAt q
  stored : ¬ r.Received q → (r.bufferAt q).set (storedType isFinal) payload = .ok buf

private theorem Filled.type_ne {r : Receiver n} {q : Int} {payload : List UInt8} {isFinal : Bool}
    {buf : InBuffer} (h : r.Filled q payload isFinal buf) :
    (Function.update r.inBuffers (slotAt n q) buf (slotAt n q)).type ≠ .unset := by
  rw [Function.update_self]
  by_cases hr : r.Received q
  · rw [h.duplicate hr]
    exact hr
  · rw [InBuffer.type_of_set (h.stored hr)]
    cases isFinal <;> simp [storedType]

private theorem store_ok {r r' : Receiver n} {q : Int} {payload : List UInt8} {isFinal : Bool}
    (h : r.store (.ofPos q) payload isFinal = .ok r') : ∃ buf, r.Filled q payload isFinal buf ∧
      r' = { r with inBuffers := Function.update r.inBuffers (slotAt n q) buf } := by
  unfold store at h
  simp only [offsetFor_ofPos] at h
  split at h
  · next hu =>
    have hn : ¬ r.Received q := fun hr ↦ hr hu
    cases hset : (r.inBuffers (slotAt n q)).set (storedType isFinal) payload with
    | error c =>
      rw [storedType] at hset
      rw [hset] at h
      cases h
    | ok buf =>
      rw [storedType] at hset
      rw [hset] at h
      cases h
      exact ⟨buf, ⟨fun hr ↦ absurd hr hn, fun _ ↦ hset⟩, rfl⟩
  · next hu =>
    cases h
    refine ⟨r.bufferAt q, ⟨fun _ ↦ rfl, fun hn ↦ absurd hu hn⟩, ?_⟩
    rw [bufferAt, Function.update_eq_self]

-- What is left to show of a packet within the window: the ring, the frame and `unackSeq`.
private theorem Filled.accepted {r r' : Receiver n} {b e q b' : Int} {payload : List UInt8}
    {isFinal : Bool} {buf : InBuffer} (h : r.Filled q payload isFinal buf)
    (hs : r.inRing.Spans b e) (hb : b ≤ q) (he : q < e)
    (hbufs : r'.inBuffers = Function.update r.inBuffers (slotAt n q) buf)
    (hs' : r'.inRing.Spans b' e)
    (hframe : r' = { r with
      inRing := r'.inRing
      inBuffers := r'.inBuffers
      unackSeq := r'.unackSeq
      packetsReceived := r'.packetsReceived
      peerClosed := r.peerClosed || isFinal
      needsAck := true })
    (hunack : (r.unackSeq ≠ .ofPos q ∧ r'.unackSeq = r.unackSeq ∧ b' = b) ∨
      (r.unackSeq = .ofPos q ∧ ∃ u', r'.unackSeq = .ofPos u' ∧ q < u' ∧ u' ≤ e ∧
        (∀ p, q ≤ p → p < u' → r'.Received p) ∧ (u' < e → ¬ r'.Received u') ∧
        b' = if r.selfClosed then u' else b)) :
    Accepted r b e q payload isFinal r' b' := by
  have hmax : max e (q + 1) = e := by omega
  have hus := hs.used
  have hself : r'.bufferAt q = buf := by rw [bufferAt, hbufs, Function.update_self]
  refine ⟨by rwa [hmax], hframe, fun p hp hp' hne ↦ ?_, fun i _ hi ↦ ?_, by omega,
    fun _ hr ↦ hself.trans (h.duplicate hr), fun hn ↦ ⟨r.bufferAt q, ?_⟩, by rwa [hmax]⟩
  · rw [bufferAt, hbufs]
    exact update_slotAt_ne _ _ hne (by omega) (by omega)
  · rw [hbufs]
    exact Function.update_of_ne (Ne.symm hi) _ _
  · rw [hself]
    exact h.stored (hn he)

private theorem accept_spec {r r' : Receiver n} {b e q : Int} {payload : List UInt8}
    {isFinal ack new : Bool} (hs : r.inRing.Spans b e) (hb : b ≤ q) (he : q < e)
    (h : r.accept (.ofPos q) payload isFinal = .ok (r', ack, new)) :
    ack = true ∧ new = (decide (r.unackSeq = .ofPos q) && !r.selfClosed) ∧
      ∃ b', Accepted r b e q payload isFinal r' b' := by
  unfold accept at h
  cases hst : r.store (.ofPos q) payload isFinal with
  | error c => rw [hst] at h; cases h
  | ok r1 =>
    obtain ⟨buf, hfill, rfl⟩ := store_ok hst
    rw [hst] at h
    have hused := hs.slotsUsed_eq
    dsimp only at h
    split at h
    · next hq =>
      obtain ⟨u', received, heq, hlt, hle, hall, hgap⟩ := advanceUnack_spec r.inRing.slotsUsed
        { r with
          inBuffers := Function.update r.inBuffers (slotAt n q) buf
          peerClosed := r.peerClosed || isFinal
          needsAck := true } hs hq.symm hb he (by omega) hfill.type_ne
      rw [heq] at h
      dsimp only at h
      split at h
      · next hsc =>
        obtain ⟨ring, hd, hr⟩ := drain_ok r.inRing.slotsUsed
          { r with
            inBuffers := Function.update r.inBuffers (slotAt n q) buf
            peerClosed := r.peerClosed || isFinal
            needsAck := true
            unackSeq := .ofPos u'
            packetsReceived := received } hs rfl (by omega) hle (by omega)
        rw [hd] at h
        cases h
        exact ⟨rfl, by simp [hsc], u', hfill.accepted hs hb he rfl hr rfl
          (.inr ⟨hq.symm, u', rfl, hlt, hle, hall, hgap, (if_pos hsc).symm⟩)⟩
      · next hsc =>
        cases h
        exact ⟨rfl, by simp [hsc, hq], b, hfill.accepted hs hb he rfl hs rfl
          (.inr ⟨hq.symm, u', rfl, hlt, hle, hall, hgap, (if_neg hsc).symm⟩)⟩
    · next hq =>
      cases h
      exact ⟨rfl, by simp [Ne.symm hq], b,
        hfill.accepted hs hb he rfl hs rfl (.inl ⟨Ne.symm hq, rfl, rfl⟩)⟩

private theorem accepted_of_extended {r r' : Receiver n} {b e q b' : Int} {payload : List UInt8}
    {isFinal : Bool} {ring : RingBuffer n} {bufs : Slots n InBuffer} (he : e ≤ q)
    (hnew : ∀ p, e ≤ p → p < q + 1 → (bufs (slotAt n p)).type = .unset)
    (hold : ∀ i, (∀ p, e ≤ p → p < q + 1 → slotAt n p ≠ i) → bufs i = r.inBuffers i)
    (hb : b ≤ e) (hroom : q < b + 2 ^ n.val)
    (h : Accepted { r with inRing := ring, inBuffers := bufs } b (q + 1) q payload isFinal r' b') :
    Accepted r b e q payload isFinal r' b' := by
  have hm : max (q + 1) (q + 1) = max e (q + 1) := by omega
  refine ⟨hm ▸ h.spans, h.frame, ?_, ?_, ?_, by omega, ?_, ?_⟩
  · intro p hp hp' hne
    exact (h.kept p hp (by omega) hne).trans
      (hold _ fun p' hpe hpq ↦ slotAt_ne (by omega) (by omega) (by omega))
  · intro i hi hq
    exact (h.others i (fun p hp hpq ↦ hi p (by omega) hpq) hq).trans
      (hold i fun p hp hpq ↦ hi p hp (by omega))
  · intro p hp hp' hr
    apply hr
    rw [h.kept p (by omega) (by omega) (by omega)]
    exact hnew p hp (by omega)
  · intro _
    exact h.stored fun _ hr ↦ hr (hnew q he (by omega))
  · rw [← hm]
    exact h.unack

/-- Why a data packet leaves no trace: the receiver is not connected, the packet is its own
echo, or its position lies past a window that may not or cannot grow that far. -/
def Ignored (r : Receiver n) (b e : Int) (controlBit : Bool) (seqId : BitVec 16) : Prop :=
  r.state = .connecting ∨ r.state = .idle ∨ controlBit = r.controlBit ∨
    ∃ q, r.inRing.restorePosHighBits seqId 12 = .ofPos q ∧ e ≤ q ∧ q < b + 2048 ∧
      (r.peerClosed = true ∨ b + 2 ^ n.val ≤ q)

/-- A packet is expanded to one position only. -/
theorem position_unique {r : Receiver n} {b q q' : Int} {seqId : BitVec 16}
    (hq : r.inRing.restorePosHighBits seqId 12 = .ofPos q)
    (hq' : r.inRing.restorePosHighBits seqId 12 = .ofPos q')
    (hl : b - 2048 ≤ q) (hu : q < b + 2048) (hl' : b - 2048 ≤ q') (hu' : q' < b + 2048) : q = q' :=
  (SeqNum.ofPos_eq (by omega) (by omega)).mp (hq.symm.trans hq')

/-- An admissible packet is ignored only for its position. -/
theorem Ignored.beyond {r : Receiver n} {b e q : Int} {controlBit : Bool} {seqId : BitVec 16}
    (h : Ignored r b e controlBit seqId) (hs : r.inRing.Spans b e)
    (hc : r.state ≠ .connecting) (hi : r.state ≠ .idle)
    (hcb : controlBit ≠ r.controlBit) (hq : r.inRing.restorePosHighBits seqId 12 = .ofPos q)
    (hl : b - 2048 ≤ q) (hu : q < b + 2048) :
    e ≤ q ∧ (r.peerClosed = true ∨ b + 2 ^ n.val ≤ q) := by
  have hle := hs.le
  rcases h with hst | hst | hcb' | ⟨q', hq', he, hu', hno⟩
  · exact absurd hst hc
  · exact absurd hst hi
  · exact absurd hcb' hcb
  · obtain rfl := position_unique hq hq' hl hu (by omega) hu'
    exact ⟨he, hno⟩

/-- The three fates of a data packet: ignored, known to be consumed already, or taken in. -/
inductive Arrival (r : Receiver n) (b e : Int) (controlBit : Bool) (seqId : BitVec 16)
    (payload : List UInt8) (isFinal : Bool) : Receiver n → Bool → Bool → Prop
  | ignored : Ignored r b e controlBit seqId →
      Arrival r b e controlBit seqId payload isFinal r false false
  | consumed (q : Int) : r.state ≠ .connecting → r.state ≠ .idle → controlBit ≠ r.controlBit →
      r.inRing.restorePosHighBits seqId 12 = .ofPos q → b - 2048 ≤ q → q < b →
      Arrival r b e controlBit seqId payload isFinal { r with needsAck := true } true false
  | accepted (q b' : Int) (r' : Receiver n) :
      r.state ≠ .connecting → r.state ≠ .idle → controlBit ≠ r.controlBit →
      r.inRing.restorePosHighBits seqId 12 = .ofPos q → b ≤ q → q < b + 2 ^ n.val →
      (e ≤ q → r.peerClosed = false) → Accepted r b e q payload isFinal r' b' →
      Arrival r b e controlBit seqId payload isFinal r' true
        (decide (r.unackSeq = .ofPos q) && !r.selfClosed)

/-- Every packet that fails no check meets one of the three fates. -/
theorem handleDataPacket_arrival {r r' : Receiver n} {b e : Int} {controlBit : Bool}
    {seqId : BitVec 16} {payload : List UInt8} {isFinal ack new : Bool}
    (hs : r.inRing.Spans b e)
    (h : r.handleDataPacket controlBit seqId payload isFinal = .ok (r', ack, new)) :
    Arrival r b e controlBit seqId payload isFinal r' ack new := by
  have hcap := capacity_le n
  have hus := hs.used
  have hle := hs.le
  obtain ⟨q, hq, hql, hqu⟩ := hs.restore_near seqId
  have hc := hs.contains_iff (p := q) (by omega) (by omega)
  have hlt : SeqNum.ofPos q < r.inRing.begin_ ↔ q < b := by
    rw [hs.begin_eq, SeqNum.ofPos_lt (by omega) (by omega)]
  unfold handleDataPacket at h
  split at h
  · next hst =>
    cases h
    exact .ignored (hst.elim .inl fun hidle ↦ .inr (.inl hidle))
  next hst =>
  rw [not_or] at hst
  split at h
  · next hcb => cases h; exact .ignored (.inr (.inr (.inl hcb)))
  next hcb =>
  simp only [hq] at h
  split at h
  · next hin =>
    obtain ⟨hb, he⟩ := hc.mp hin
    obtain ⟨rfl, rfl, b', hacc⟩ := accept_spec hs hb he h
    exact .accepted q b' r' hst.1 hst.2 hcb hq hb (by omega) (by omega) hacc
  next hin =>
  split at h
  · next hold =>
    cases h
    exact .consumed q hst.1 hst.2 hcb hq hql (hlt.mp hold)
  next hold =>
  have hb : b ≤ q := by rw [hlt] at hold; omega
  have he : e ≤ q := by rw [hc] at hin; omega
  split at h
  · next hpc =>
    cases h
    exact .ignored (.inr (.inr (.inr ⟨q, hq, he, hqu, .inl hpc⟩)))
  next hpc =>
  have hadv : ((SeqNum.ofPos q).diff r.inRing.end_ + 1) % 2 ^ 32 = q + 1 - e := by
    rw [hs.end_eq, SeqNum.diff_ofPos (by omega) (by omega)]
    omega
  rw [hadv] at h
  have hfr := hs.slotsFree_eq
  split at h
  · next hfree =>
    cases h
    exact .ignored (.inr (.inr (.inr ⟨q, hq, he, hqu, .inr (by omega)⟩)))
  next hfree =>
  have hroom : q + 1 ≤ b + 2 ^ n.val := by omega
  obtain ⟨ring, bufs, hext, hs', hclr, hkeep⟩ :=
    extend_ok (q + 1 - e).toNat r hs (by omega)
  have hn : e + ((q + 1 - e).toNat : Int) = q + 1 := by omega
  rw [hn] at hs' hclr hkeep
  rw [hext] at h
  obtain ⟨rfl, rfl, b', hacc⟩ := accept_spec (e := q + 1) hs' hb (by omega) h
  exact .accepted q b' r' hst.1 hst.2 hcb hq hb (by omega) (fun _ ↦ by simpa using hpc)
    (accepted_of_extended he hclr hkeep hle (by omega) hacc)

private theorem accept_total {r : Receiver n} {b e q : Int} {payload : List UInt8}
    {isFinal : Bool} (hs : r.inRing.Spans b e) (hb : b ≤ q) (he : q < e)
    (hlen : payload.length ≤ 248) : ∃ out, r.accept (.ofPos q) payload isFinal = .ok out := by
  have hst : ∃ r1, r.store (.ofPos q) payload isFinal = .ok r1 := by
    unfold store
    simp only [offsetFor_ofPos]
    split
    · obtain ⟨buf, hset, -⟩ := InBuffer.set_ok (r.inBuffers (slotAt n q)) (storedType isFinal)
        payload hlen
      rw [storedType] at hset
      exact ⟨_, by rw [hset]⟩
    · exact ⟨r, rfl⟩
  obtain ⟨r1, hst⟩ := hst
  obtain ⟨buf, hfill, rfl⟩ := store_ok hst
  have hused := hs.slotsUsed_eq
  unfold accept
  rw [hst]
  dsimp only
  split
  · next hq =>
    obtain ⟨u', received, heq, hlt, hle, -, -⟩ := advanceUnack_spec r.inRing.slotsUsed
      { r with
        inBuffers := Function.update r.inBuffers (slotAt n q) buf
        peerClosed := r.peerClosed || isFinal
        needsAck := true } hs hq.symm hb he (by omega) hfill.type_ne
    rw [heq]
    dsimp only
    split
    · obtain ⟨ring, hd, -⟩ := drain_ok r.inRing.slotsUsed
        { r with
          inBuffers := Function.update r.inBuffers (slotAt n q) buf
          peerClosed := r.peerClosed || isFinal
          needsAck := true
          unackSeq := .ofPos u'
          packetsReceived := received } hs rfl (by omega) hle (by omega)
      exact ⟨_, by rw [hd]⟩
    · exact ⟨_, rfl⟩
  · exact ⟨_, rfl⟩

/-- No packet of protocol size fails a check on arrival. -/
theorem handleDataPacket_total (r : Receiver n) (controlBit : Bool) (seqId : BitVec 16)
    (payload : List UInt8) (isFinal : Bool) (hlen : payload.length ≤ 248) :
    ∃ out, r.handleDataPacket controlBit seqId payload isFinal = .ok out := by
  obtain ⟨b, e, hs⟩ := r.inRing.exists_spans
  have hcap := capacity_le n
  have hus := hs.used
  have hle := hs.le
  obtain ⟨q, hq, hql, hqu⟩ := hs.restore_near seqId
  have hc := hs.contains_iff (p := q) (by omega) (by omega)
  unfold handleDataPacket
  split
  · exact ⟨_, rfl⟩
  split
  · exact ⟨_, rfl⟩
  simp only [hq]
  split
  · next hin => exact accept_total hs (hc.mp hin).1 (hc.mp hin).2 hlen
  next hin =>
  split
  · exact ⟨_, rfl⟩
  next hold =>
  have hb : b ≤ q := by
    rw [hs.begin_eq, SeqNum.ofPos_lt (by omega) (by omega)] at hold
    omega
  have he : e ≤ q := by rw [hc] at hin; omega
  split
  · exact ⟨_, rfl⟩
  have hadv : ((SeqNum.ofPos q).diff r.inRing.end_ + 1) % 2 ^ 32 = q + 1 - e := by
    rw [hs.end_eq, SeqNum.diff_ofPos (by omega) (by omega)]
    omega
  rw [hadv]
  have hfr := hs.slotsFree_eq
  split
  · exact ⟨_, rfl⟩
  next hfree =>
  obtain ⟨ring, bufs, hext, hs', -, -⟩ := extend_ok (q + 1 - e).toNat r hs (by omega)
  rw [hext]
  exact accept_total hs' hb (by omega) hlen

/-! ### What holds of every slot -/

/-- A property of buffers that clearing and storing keep. -/
structure SlotKept (P : InBuffer → Prop) : Prop where
  clear : ∀ {x : InBuffer}, P x → P x.clear
  set : ∀ {x y : InBuffer} {type : InBufferType} {payload : List UInt8}, P x →
    x.set type payload = .ok y → P y

private theorem advanceUnack_slots (fuel : Nat) : ∀ r : Receiver n,
    (advanceUnack fuel r).inBuffers = r.inBuffers := by
  induction fuel with
  | zero => intro r; rfl
  | succ fuel ih =>
    intro r
    rw [advanceUnack]
    dsimp only
    split
    · exact ih _
    · rfl

private theorem drain_slots (fuel : Nat) : ∀ {r r' : Receiver n}, drain fuel r = .ok r' →
    r'.inBuffers = r.inBuffers := by
  induction fuel with
  | zero =>
    intro r r' h
    cases h
    rfl
  | succ fuel ih =>
    intro r r' h
    rw [drain] at h
    split at h
    · split at h
      · cases h
      · exact (ih h).trans rfl
    · cases h
      rfl

/-- A slot that is replaced by a good one leaves all slots good. -/
theorem forall_update {P : InBuffer → Prop} {bufs : Slots n InBuffer} (h : ∀ i, P (bufs i))
    {j : Fin (2 ^ n.val)} {x : InBuffer} (hx : P x) : ∀ i, P (Function.update bufs j x i) := by
  intro i
  by_cases hij : i = j
  · subst hij
    rwa [Function.update_self]
  · rw [Function.update_of_ne hij]
    exact h i

section Slots

variable {P : InBuffer → Prop} (hP : SlotKept P)

include hP

private theorem extend_slots (k : Nat) : ∀ {r r' : Receiver n}, extend k r = .ok r' →
    (∀ i, P (r.inBuffers i)) → ∀ i, P (r'.inBuffers i) := by
  induction k with
  | zero =>
    intro r r' h hr
    cases h
    exact hr
  | succ k ih =>
    intro r r' h hr
    rw [extend] at h
    split at h
    · cases h
    · exact ih h (forall_update hr (hP.clear (hr _)))

private theorem accept_slots {r r' : Receiver n} {seq : SeqNum} {payload : List UInt8}
    {isFinal ack new : Bool} (h : r.accept seq payload isFinal = .ok (r', ack, new))
    (hr : ∀ i, P (r.inBuffers i)) : ∀ i, P (r'.inBuffers i) := by
  obtain ⟨p, rfl⟩ : ∃ p, seq = .ofPos p := ⟨seq.raw.toNat, (SeqNum.ofPos_raw seq).symm⟩
  unfold accept at h
  cases hst : r.store (.ofPos p) payload isFinal with
  | error c => rw [hst] at h; cases h
  | ok r1 =>
    rw [hst] at h
    have h1 : ∀ i, P (r1.inBuffers i) := by
      obtain ⟨buf, hfill, rfl⟩ := store_ok hst
      refine forall_update hr ?_
      by_cases hrec : r.Received p
      · rw [hfill.duplicate hrec]
        exact hr _
      · exact hP.set (hr _) (hfill.stored hrec)
    dsimp only at h
    split at h
    · split at h
      · split at h
        · cases h
        · next r2 hd =>
          cases h
          rw [drain_slots _ hd, advanceUnack_slots]
          exact h1
      · cases h
        rw [advanceUnack_slots]
        exact h1
    · cases h
      exact h1

/-- Packet arrival keeps what holds of every slot. -/
theorem handleDataPacket_slots {r r' : Receiver n} {controlBit : Bool} {seqId : BitVec 16}
    {payload : List UInt8} {isFinal ack new : Bool}
    (h : r.handleDataPacket controlBit seqId payload isFinal = .ok (r', ack, new))
    (hr : ∀ i, P (r.inBuffers i)) : ∀ i, P (r'.inBuffers i) := by
  unfold handleDataPacket at h
  split at h
  · cases h; exact hr
  split at h
  · cases h; exact hr
  dsimp only at h
  split at h
  · exact accept_slots hP h hr
  split at h
  · cases h; exact hr
  split at h
  · cases h; exact hr
  split at h
  · cases h; exact hr
  split at h
  · cases h
  · next r1 he => exact accept_slots hP h (extend_slots hP _ he hr)

/-- Resetting keeps what holds of every slot. -/
theorem clearLoop_slots (fuel : Nat) : ∀ {r r' : Receiver n}, clearLoop fuel r = .ok r' →
    (∀ i, P (r.inBuffers i)) → ∀ i, P (r'.inBuffers i) := by
  induction fuel with
  | zero =>
    intro r r' h hr
    cases h
    exact hr
  | succ fuel ih =>
    intro r r' h hr
    rw [clearLoop] at h
    split at h
    · cases h
      exact hr
    · dsimp only at h
      split at h
      · cases h
      · exact ih h (forall_update hr (hP.clear (hr _)))

end Slots

end Receiver

end RooTransport.Link
