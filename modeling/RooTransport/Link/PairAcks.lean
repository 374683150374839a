import RooTransport.Link.Pair

/-!
# What acknowledgements may take away

The transmitter stops sending a packet once it is dropped from `out_ring_` or marked as
acknowledged (`transmitter.cpp:222–295`). The bitmap of an acknowledgement counts from the
sequence number next to it but is applied from the start of the window as it is when it
arrives, so that a late one can mark packets that were never received.
-/

namespace RooTransport.Link

open RooTransport.Base RingBuffer

namespace Transmitter

variable {n : LinkBufferSize}

/-- A packet is marked as received only by an effect that says so. -/
theorem Moves.acked {t t' : Transmitter n} {b e b' e' q : Int} {eff : Effect}
    (h : Moves (t, b, e) eff (t', b', e')) (hs : t.outRing.Spans b e) (hl : b' ≤ q) (hu : q < e')
    (ha : (t'.bufferAt q).acked = true) :
    (b ≤ q ∧ q < e ∧ (t.bufferAt q).acked = true) ∨ eff = .skip q := by
  -- A packet just queued is not marked yet.
  have hpush {x : OutBuffer} (hx : x.acked = false) (hroom : e < b + 2 ^ n.val) (hl : b ≤ q)
      (hu : q < e + 1) (ha : ((t.withBuffer e x).bufferAt q).acked = true) :
      b ≤ q ∧ q < e ∧ (t.bufferAt q).acked = true := by
    obtain ⟨-, heq⟩ | ⟨hlt, heq⟩ := bufferAt_pushed rfl hroom hl hu
    · rw [heq, hx] at ha
      cases ha
    · rw [heq] at ha
      exact ⟨hl, hlt, ha⟩
  cases h with
  | alloc ring _ _ _ _ hroom => exact .inl (hpush rfl hroom hl hu ha)
  | closeNow ring _ hroom => exact .inl (hpush rfl hroom hl hu ha)
  | lateEos ring _ hroom => exact .inl (hpush rfl hroom hl hu ha)
  | write i bytes =>
    refine .inl ⟨hl, hu, (field_update OutBuffer.acked ?_ _).symm.trans ha⟩
    unfold OutBuffer.extended
    split
    · rfl
    · rfl
  | flush | finish | rush =>
    refine .inl ⟨hl, hu, (field_update OutBuffer.acked ?_ _).symm.trans ha⟩
    rfl
  | send =>
    refine .inl ⟨hl, hu, (field_update OutBuffer.acked ?_ _).symm.trans ha⟩
    exact finishBuffer_acked _
  | @skip _ _ _ p hbp hpe =>
    by_cases hq : q = p
    · exact .inr (hq ▸ rfl)
    · have hus := hs.used
      rw [bufferAt_withBuffer_ne t _ hq (by omega) (by omega)] at ha
      exact .inl ⟨hl, hu, ha⟩
  | pop => exact .inl ⟨by omega, hu, ha⟩
  | release | closeLater | himark | calm => exact .inl ⟨hl, hu, ha⟩
  | reset => omega
  | stray => omega

private theorem path_acked {t t' : Transmitter n} {b e b' e' : Int} {effs : List Effect}
    (hp : Path Moves (t, b, e) effs (t', b', e')) (hs : t.outRing.Spans b e) {q : Int}
    (hl : b' ≤ q) (hu : q < e') (ha : (t'.bufferAt q).acked = true) :
    (b ≤ q ∧ q < e ∧ (t.bufferAt q).acked = true) ∨ .skip q ∈ effs := by
  refine (hp.invariant (fun x ↦ x.1.outRing.Spans x.2.1 x.2.2 ∧ (x.2.1 ≤ q → q < x.2.2 →
    (x.1.bufferAt q).acked = true →
      (b ≤ q ∧ q < e ∧ (t.bufferAt q).acked = true) ∨ .skip q ∈ effs)) ?_
    ⟨hs, fun hl hu ha ↦ .inl ⟨hl, hu, ha⟩⟩).2 hl hu ha
  intro x eff y heff ⟨hs1, hx⟩ hm
  refine ⟨hm.spans hs1, fun hl hu ha ↦ ?_⟩
  rcases hm.acked hs1 hl hu ha with ⟨hl', hu', ha'⟩ | rfl
  · exact hx hl' hu' ha'
  · exact .inr heff

end Transmitter

namespace Pair

variable {m n : LinkBufferSize}

/-- Every position the transmitter has dropped or marked as acknowledged is stored. -/
def AcksStored (p : Pair m n) : Prop :=
  (∀ q, q < p.txBegin → p.Stored q) ∧
    ∀ q, p.txBegin ≤ q → q < p.txBegin + p.tx.outRing.slotsUsed →
      (p.tx.bufferAt q).acked = true → p.Stored q

/-- Packets are delivered within reach, and an acknowledgement only if it is not behind the
start of `out_ring_` or if its bitmap is empty. -/
def AckGuard (p : Pair m n) (a : Act) : Prop :=
  WithinReach p a ∧ match a with
    | .deliverAck i => ∀ x ∈ p.acks[i]?, p.txBegin ≤ x.pos ∨ x.bytes.drop 2 = []
    | _ => True

instance (p : Pair m n) (a : Act) : Decidable (AckGuard p a) :=
  match a with
  | .deliverAck _ => inferInstanceAs (Decidable (_ ∧ ∀ x ∈ _, _ ∨ _))
  | .tryWrite _ | .flush | .close | .getBufferToSend _ _ _ | .tryRead _ | .peek
  | .availableForRead | .ack | .updateRecvHimark _ _ | .deliverData _ | .deliverHimark _ =>
    inferInstanceAs (Decidable (_ ∧ True))

section

variable {p p' : Pair m n} {s : Int} {controlBit : Bool} {e sent u w : Int}
  {log : Int → List UInt8} {fin : Option Int}

/-- An acknowledgement that is not behind the window marks what it was sent for. -/
theorem Linked.stored_of_skip (h : p.Linked s controlBit e sent u w log fin) {a : Act}
    {effs : List Effect} (hm : p.Marks a effs) (hg : AckGuard p a) {q : Int}
    (hl : p.txBegin ≤ q) (hu : q < p.txBegin + 4096) (hq : .skip q ∈ effs) : p.Stored q := by
  rcases hm with hno | ⟨i, x, pos, rfl, hx, hrestore, hlow, hhigh, hk⟩
  · exact absurd hq (hno q)
  have hreach : InReach p.txBegin x.pos := hg.1 x hx
  obtain ⟨j, hbit, hj⟩ := hk _ hq
  obtain ⟨hxu, bitmap, hbytes, hstored⟩ := h.acks x (List.mem_of_getElem? hx)
  rw [hbytes, drop_storeBeU16] at hbit
  rcases hg.2 x hx with hge | hnil
  · rw [hbytes, loadBeU16_store, getPacketSeq_format,
      h.tx.source.queue.spans.restore_exact hreach.1 (by have := hreach.2; omega),
      SeqNum.ofPos_eq (by omega) (by have := hreach.2; omega)] at hrestore
    subst hrestore
    have hst := hstored j hbit
    have hlt : x.pos + 1 + j < p.txBegin + 2048 := by
      have := (h.stored_iff _).mp hst
      have hcm := capacity_le m
      have hus := h.tx.source.queue.spans.used
      have hbw := h.rx.window.spans.le
      have hwe := h.received.trans h.tx.pace.le_end
      omega
    rw [max_eq_right hge, SeqNum.ofPos_eq (by omega) (by omega)] at hj
    rwa [hj]
  · rw [hbytes, drop_storeBeU16] at hnil
    rw [hnil] at hbit
    cases hbit

private theorem AcksStored.step {a : Act} (h : p.AcksStored) (hs : p.Sound s controlBit)
    (hg : AckGuard p a) (hstep : p.step a = .ok p') : p'.AcksStored := by
  obtain ⟨⟨e', sent', u', w', log', fin', hl'⟩, hkeep⟩ := hs.step hg.1 hstep
  obtain ⟨e, sent, u, w, log, fin, hl⟩ := hs
  obtain ⟨hnear, effs, e1, hpath, hmarks⟩ := step_tx hl.tx.source.queue.spans hstep
  have hs1 := Transmitter.path_spans hpath hl.tx.source.queue.spans
  have hmono := Transmitter.path_mono hpath hl.tx.source.queue.spans
  have hcap := capacity_le m
  have hused := hl.tx.source.queue.spans.slotsUsed_eq
  have hused' := hs1.slotsUsed_eq
  have hus := hs1.used
  refine ⟨fun q hq ↦ hl'.stored_of_lt (lt_of_lt_of_le hq hl'.acked), fun q hq hq' hacked ↦ ?_⟩
  apply hkeep
  rcases Transmitter.path_acked hpath hl.tx.source.queue.spans hq (by omega) hacked with
    ⟨hl1, hu1, hold⟩ | hskip
  · exact h.2 q hl1 (by omega) hold
  · exact hl.stored_of_skip hmarks hg (by omega) (by omega) hskip

end

/-! ### Every run -/

/-- In every run whose acknowledgements are delivered before `out_ring_` has moved past them,
or carry no bitmap, what the transmitter drops or marks is stored. -/
theorem acksStored_of_reachable {t : Transmitter m} {txStreamId rxStreamId : UInt32} {s : SeqNum}
    {peerReceiveBufferSize : Nat} {controlBit : Bool} {p0 p : Pair m n}
    (h0 : start t n txStreamId rxStreamId s peerReceiveBufferSize controlBit = .ok p0)
    (hr : Reachable step AckGuard p0 p) : p.AcksStored := by
  have h := linked_start h0
  refine (hr.invariant (fun p ↦ p.Sound s.raw.toNat controlBit ∧ p.AcksStored)
    ⟨⟨_, _, _, _, _, _, h⟩, fun q hq ↦ h.stored_of_lt (lt_of_lt_of_le hq h.acked),
      fun q hq hq' ↦ ?_⟩
    fun p a p' ⟨hp, ha⟩ hg hstep ↦ ⟨(hp.step hg.1 hstep).1, ha.step hp hg hstep⟩).2
  have hused := h.tx.source.queue.spans.slotsUsed_eq
  have hstart := h.tx.source.start_le
  omega

/-- One packet written and sent. -/
def sendOne (byte : UInt8) : List Act := [.tryWrite [byte], .flush, .getBufferToSend 0 0 0]

/-- An acknowledgement with a bitmap, in time, marks a packet that was received. -/
theorem acksStored_after_gap : ∃ p : Pair 2 2,
    start (Transmitter.new 2) 2 1 2 ⟨0⟩ 4 false = .ok (connectedAtZero 2 2 4) ∧
      Reachable step AckGuard (connectedAtZero 2 2 4) p ∧ (p.tx.bufferAt 1).acked = true ∧
        p.AcksStored := by
  obtain ⟨p, hp, ht⟩ := Reachable.of_test step AckGuard (connectedAtZero 2 2 4)
    (sendOne 1 ++ sendOne 2 ++ [.deliverData 1, .ack, .deliverAck 0])
    (fun p ↦ (p.tx.bufferAt 1).acked) (by decide) (by decide)
  have hstart : start (Transmitter.new 2) 2 1 2 ⟨0⟩ 4 false = .ok (connectedAtZero 2 2 4) := rfl
  exact ⟨p, hstart, hp, ht, acksStored_of_reachable hstart hp⟩

/-- An acknowledgement of position 0 that names position 1 arrives after positions 0 and 1
were dropped, and marks position 3, which the receiver has never seen. -/
theorem late_bitmap_marks_unreceived : ∃ p : Pair 2 2,
    start (Transmitter.new 2) 2 1 2 ⟨0⟩ 4 false = .ok (connectedAtZero 2 2 4) ∧
      Reachable step WithinReach (connectedAtZero 2 2 4) p ∧ p.txBegin = 2 ∧
        (p.tx.bufferAt 3).acked = true ∧
      p.rx.inRing.end_ = ⟨2⟩ ∧ ¬ p.AcksStored := by
  obtain ⟨p, hp, ht⟩ := Reachable.of_test step WithinReach (connectedAtZero 2 2 4)
    (sendOne 1 ++ sendOne 2 ++ sendOne 3 ++ sendOne 4 ++
      [.deliverData 1, .ack, .deliverData 0, .ack, .deliverAck 1, .deliverAck 0])
    (fun p ↦ p.txBegin = 2 ∧ (p.tx.bufferAt 3).acked = true ∧ p.rx.inRing.end_ = ⟨2⟩ ∧
      p.rxBegin = 0 ∧ p.rx.inRing.slotsUsed = 2 ∧ p.tx.outRing.slotsUsed = 2)
    (by decide) (by decide)
  obtain ⟨hb, hacked, hend, hrb, hused, hused'⟩ := of_decide_eq_true ht
  refine ⟨p, rfl, hp, hb, hacked, hend, fun h ↦ ?_⟩
  rcases h.2 3 (by omega) (by omega) hacked with hlt | ⟨hlt, -⟩
  · omega
  · omega

end Pair

end RooTransport.Link
