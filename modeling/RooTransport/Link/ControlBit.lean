import RooTransport.Link.ReceiverChecks
import RooTransport.Link.TransmitterChecks

/-!
# The control bit of both halves

`protocol.h:46–60`: the control bit tells the packets of the peer from our own. A packet is
queued with the bit of that moment (`out_buffer.cpp:22–31`), while the bit of a connection is
known only once it is made. Data waits for the connection, but the final packet of a stream
may not, and a receiver that hears it under the other bit takes it for the peer's.
-/

namespace RooTransport.Link

open RooTransport.Base RingBuffer

/-! ### The control bit of what is queued -/

namespace Transmitter

variable {n : LinkBufferSize}

/-- The packet has room in a frame, and is final or carries the control bit of the
connection. -/
def Bears (t : Transmitter n) (x : OutBuffer) : Prop :=
  x.payload.length ≤ 248 ∧
    (getPacketType x.header = some .fin ∨
      getPacketType x.header = some .data ∧ getPacketControlBit x.header = t.controlBit ∧
        t.state ≠ .connecting)

/-- While a stream is connecting it has no credit, so nothing but its final packet can be
queued before the control bit is known. -/
structure Marked (t : Transmitter n) (b e : Int) : Prop where
  spans : t.outRing.Spans b e
  bears : ∀ p, b ≤ p → p < e → t.Bears (t.bufferAt p)
  credit : t.state = .connecting → t.recvHimark = .ofPos b ∧ (e = b ∨ t.endOfStream = true)
  pending : t.hasPendingEof = true → t.endOfStream = true

section

variable {t t' : Transmitter n} {b e b' e' : Int}

private theorem Marked.of_empty (hs : t.outRing.Spans b b)
    (hcredit : t.state = .connecting → t.recvHimark = .ofPos b)
    (hpend : t.hasPendingEof = true → t.endOfStream = true) : t.Marked b b :=
  ⟨hs, fun _ hl hu ↦ by omega, fun hst ↦ ⟨hcredit hst, .inl rfl⟩, hpend⟩

private theorem Marked.slots (h : t.Marked b e) (hphase : SamePhase t t')
    (hring : t'.outRing = t.outRing)
    (hbuf : ∀ i, (t'.outBuffers i).header = (t.outBuffers i).header)
    (hlen : ∀ i, (t.outBuffers i).payload.length ≤ 248 → (t'.outBuffers i).payload.length ≤ 248) :
    t'.Marked b e := by
  refine ⟨hring ▸ h.spans, fun p hl hu ↦ ?_, ?_, ?_⟩
  · have hb := h.bears p hl hu
    rw [Bears, bufferAt] at hb ⊢
    rw [hbuf, hphase.controlBit, hphase.state]
    exact ⟨hlen _ hb.1, hb.2⟩
  · rw [hphase.state, hphase.recvHimark, hphase.endOfStream]
    exact h.credit
  · rw [hphase.hasPendingEof, hphase.endOfStream]
    exact h.pending

private theorem Marked.push {x : OutBuffer} (h : t.Marked b e) (hroom : e < b + 2 ^ n.val)
    (hs : t'.outRing.Spans b (e + 1)) (hbit : t'.controlBit = t.controlBit)
    (hst : t'.state = t.state) (hhim : t'.recvHimark = t.recvHimark)
    (hbuf : t'.outBuffers = (t.withBuffer e x).outBuffers) (hx : t.Bears x)
    (hcredit : t.state = .connecting → t'.endOfStream = true)
    (hpend : t'.hasPendingEof = true → t'.endOfStream = true) : t'.Marked b (e + 1) := by
  have hbears (y : OutBuffer) : t'.Bears y ↔ t.Bears y := by rw [Bears, Bears, hbit, hst]
  refine ⟨hs, fun p hl hu ↦ ?_, fun hc ↦ ?_, hpend⟩
  · rw [hbears]
    obtain ⟨-, heq⟩ | ⟨hlt, heq⟩ := bufferAt_pushed hbuf hroom hl hu
    · rw [heq]
      exact hx
    · rw [heq]
      exact h.bears p hl hlt
  · rw [hst] at hc
    exact ⟨hhim.trans (h.credit hc).1, .inr (hcredit hc)⟩

private theorem bears_fin (t : Transmitter n) (pos : SeqNum) (controlBit : Bool) :
    t.Bears (OutBuffer.init pos controlBit).markFinal.finish := by
  refine ⟨by simp [OutBuffer.init, OutBuffer.markFinal, OutBuffer.finish], .inl ?_⟩
  exact (congrArg getPacketType (setPacketHeaderTypeFin_format pos controlBit)).trans
    (getPacketType_format ..)

private theorem bears_data (t : Transmitter n) (pos : SeqNum) (hst : t.state ≠ .connecting) :
    t.Bears (OutBuffer.init pos t.controlBit) :=
  ⟨by simp [OutBuffer.init], .inr ⟨getPacketType_format .., getPacketControlBit_format .., hst⟩⟩

/-- Every elementary effect keeps the marks. -/
theorem Marked.moves {eff : Effect} (h : t.Marked b e)
    (hm : Moves (t, b, e) eff (t', b', e')) : t'.Marked b' e' := by
  have hkept {i : Fin (2 ^ n.val)} {x : OutBuffer} (hx : x.payload = (t.outBuffers i).payload)
      (j : Fin (2 ^ n.val)) (hj : (t.outBuffers j).payload.length ≤ 248) :
      (Function.update t.outBuffers i x j).payload.length ≤ 248 := by
    rw [field_update OutBuffer.payload hx]
    exact hj
  cases hm with
  | alloc ring ho _ _ hne hroom hr =>
    have hst : t.state ≠ .connecting := fun hc ↦ by
      obtain ⟨hhim, hend⟩ := h.credit hc
      rcases hend with rfl | heos
      · exact hne (hhim.trans h.spans.end_eq.symm)
      · exact nomatch ho.1.symm.trans heos
    exact h.push hroom hr rfl rfl rfl rfl (bears_data t _ hst) (fun hc ↦ absurd hc hst) h.pending
  | closeNow ring ho hroom hr =>
    exact h.push hroom hr rfl rfl rfl rfl (bears_fin t _ _) (fun _ ↦ rfl) fun _ ↦ rfl
  | lateEos ring hpend hroom hr =>
    exact h.push hroom hr rfl rfl rfl rfl (bears_fin t _ _) (fun _ ↦ h.pending hpend)
      fun _ ↦ h.pending hpend
  | closeLater => exact ⟨h.spans, h.bears, fun hc ↦ ⟨(h.credit hc).1, .inr rfl⟩, fun _ ↦ rfl⟩
  | pop ring hst _ hr =>
    exact ⟨hr, fun p hl hu ↦ h.bears p (by omega) hu, fun hc ↦ (nomatch hst.symm.trans hc),
      h.pending⟩
  | himark hst => exact ⟨h.spans, h.bears, fun hc ↦ (nomatch hst.symm.trans hc), h.pending⟩
  | reset ring hr => exact .of_empty hr (fun hc ↦ nomatch hc) (by simp)
  | calm hst =>
    refine ⟨h.spans, fun p hl hu ↦ ?_, fun hc ↦ (nomatch hc), h.pending⟩
    obtain ⟨hlen, hfin | ⟨hdata, hbit, -⟩⟩ := h.bears p hl hu
    · exact ⟨hlen, .inl hfin⟩
    · exact ⟨hlen, .inr ⟨hdata, hbit, fun hc ↦ nomatch hc⟩⟩
  | stray => exact .of_empty h.spans (fun hc ↦ (h.credit hc).1) h.pending
  | write i bytes _ _ _ _ hroom =>
    refine h.slots ⟨rfl, rfl, rfl, rfl, rfl, rfl, rfl⟩ rfl (field_update OutBuffer.header (by simp))
      fun j hj ↦ ?_
    by_cases hji : j = i
    · rw [hji]
      simp only [Function.update_self, OutBuffer.payload_extended, List.length_append]
      exact hroom
    · simp only [Function.update_of_ne hji]
      exact hj
  | release => exact h.slots ⟨rfl, rfl, rfl, rfl, rfl, rfl, rfl⟩ rfl (fun _ ↦ rfl) fun _ hj ↦ hj
  | send now draw fast =>
    exact h.slots ⟨rfl, rfl, rfl, rfl, rfl, rfl, rfl⟩ rfl
      (field_update OutBuffer.header (finishBuffer_header _)) (hkept (finishBuffer_payload _))
  | flush | finish | skip | rush =>
    exact h.slots ⟨rfl, rfl, rfl, rfl, rfl, rfl, rfl⟩ rfl (field_update OutBuffer.header rfl)
      (hkept rfl)

private theorem Marked.path {effs : List Effect} (h : t.Marked b e)
    (hp : Path Moves (t, b, e) effs (t', b', e')) : t'.Marked b' e' :=
  hp.invariant (fun x ↦ x.1.Marked x.2.1 x.2.2) (fun _ _ _ _ h hm ↦ h.moves hm) h

/-- Every step within a stream keeps the transmitter marked. -/
theorem Marked.step {a : Act} (h : t.Marked b e) (ha : a.InStream) (hstep : t.step a = .ok t') :
    ∃ b' e', t'.Marked b' e' := by
  cases step_spec h.spans hstep with
  | init => exact ha.elim
  | connected => exact ha.elim
  | broken => exact ha.elim
  | moved effs hpath => exact ⟨_, _, h.path hpath⟩

/-- A stream that begins is marked. -/
theorem marked_init {id : UInt32} {start : SeqNum} (h : t.init id start = .ok t') :
    ∃ b, t'.Marked b b := by
  rw [init_ok] at h
  cases h
  obtain ⟨p, rfl⟩ : ∃ p, start = .ofPos p := ⟨_, (SeqNum.ofPos_raw start).symm⟩
  exact ⟨p, .of_empty (spans_new n p) (fun _ ↦ rfl) (by simp)⟩

/-- Connecting sets the control bit with no data queued. -/
theorem Marked.setConnected (h : t.Marked b e) (hst : t.state = .connecting) (size : Nat)
    (controlBit : Bool) : (t.setConnected size controlBit).Marked b e := by
  refine ⟨h.spans, fun p hl hu ↦ ?_, fun hc ↦ (nomatch hc), h.pending⟩
  obtain ⟨hlen, hfin | ⟨-, -, hno⟩⟩ := h.bears p hl hu
  · exact ⟨hlen, .inl hfin⟩
  · exact absurd hst hno

/-- What is sent fits a frame, and is final or carries the control bit of the connection. -/
theorem Marked.send (h : t.Marked b e) {now : Uptime} {draw next : Nat}
    (hqueued : ¬ (t.outRing.empty = true ∧ t.outRing.contains t.nextToSend = true))
    (hne : (t.send now draw next).2.1 ≠ []) :
    t.state = .connected ∧ ∃ x, t.Bears x ∧ (t.send now draw next).2.1 = x.data := by
  have hsend := getBufferToSend_path h.spans now draw next
  unfold Transmitter.send at hne ⊢
  revert hne hsend
  rcases t.getBufferToSend now draw next with ⟨t', - | pos, next'⟩
  · exact fun hne _ ↦ absurd rfl hne
  · intro _ hsend
    have hsame := hsend.sameStream
    cases hsend with
    | sent effs fast hpath _ hm hl hu =>
      have hb := ((h.path hpath).moves hm).bears _ hl hu
      rw [Bears, hsame.controlBit, hsame.state] at hb
      refine ⟨?_, _, hb, ?_⟩
      · cases hm with
        | send _ _ _ hst => exact hsame.state.symm.trans hst
      · dsimp only
        rw [getOutBuffer_ofPos]
    | stray hbe hc => exact absurd ⟨h.spans.empty_iff.mpr hbe, hc⟩ hqueued

end

end Transmitter

/-! ### Final packets that leave no trace -/

namespace Receiver

variable {n : LinkBufferSize}

/-- `receiver.cpp:243–275`: a final packet under the control bit of the peer that changes
nothing. It was received before and is still to be acknowledged, or lies past a window that may
not or cannot grow that far. -/
def IgnoresFin (r : Receiver n) (seqId : BitVec 16) : Prop :=
  let seq := r.inRing.restorePosHighBits seqId 12
  if r.inRing.contains seq = true then
    (r.getInBuffer seq).type ≠ .unset ∧ r.peerClosed = true ∧ r.needsAck = true ∧
      seq ≠ r.unackSeq
  else if seq < r.inRing.begin_ then r.needsAck = true
  else r.peerClosed = true ∨
    r.inRing.slotsFree < ((seq.diff r.inRing.end_ + 1) % 2 ^ 32).toNat

instance (r : Receiver n) (seqId : BitVec 16) : Decidable (r.IgnoresFin seqId) :=
  inferInstanceAs (Decidable (ite _ _ _))

section

variable {r r' : Receiver n} {b e q : Int} {payload : List UInt8} {controlBit ack new : Bool}
  {seqId : BitVec 16}

private theorem advance_eq (hs : r.inRing.Spans b e) (hl : e ≤ q) (hu : q < b + 2048) :
    r.inRing.slotsFree < (((SeqNum.ofPos q).diff r.inRing.end_ + 1) % 2 ^ 32).toNat ↔
      b + 2 ^ n.val ≤ q := by
  have hcap := capacity_le n
  have hle := hs.le
  have hfree := hs.slotsFree_eq
  rw [hs.end_eq, SeqNum.diff_ofPos (by omega) (by omega)]
  omega

-- A final packet under the control bit of the peer that left no trace.
private theorem ignoresFin_of_same (hst : r.state = .connected) (hbit : controlBit ≠ r.controlBit)
    (h : r.handleDataPacket controlBit seqId payload true = .ok (r', ack, new)) (hr : r' = r) :
    r.IgnoresFin seqId := by
  obtain ⟨b, e, hs⟩ := r.inRing.exists_spans
  obtain ⟨q, hq, hql, hqu⟩ := hs.restore_near seqId
  have hcap := capacity_le n
  have hus := hs.used
  have hle := hs.le
  have hc := hs.contains_iff (p := q) (by omega) (by omega)
  have hlt : SeqNum.ofPos q < r.inRing.begin_ ↔ q < b := by
    rw [hs.begin_eq, SeqNum.ofPos_lt (by omega) (by omega)]
  unfold IgnoresFin
  dsimp only
  rw [hq]
  cases handleDataPacket_arrival hs h with
  | ignored hno =>
    obtain ⟨he, hfull⟩ := hno.beyond hs (by simp [hst]) (by simp [hst]) hbit hq hql hqu
    rw [if_neg (by rw [hc]; omega), if_neg (by rw [hlt]; omega), advance_eq hs he hqu]
    exact hfull
  | consumed q' _ _ _ hq' hl' hu' =>
    obtain rfl := position_unique hq hq' hql hqu hl' (by omega)
    rw [if_neg (by rw [hc]; omega), if_pos (hlt.mpr hu')]
    exact (congrArg Receiver.needsAck hr).symm
  | accepted q' b' _ _ _ _ hq' hl' hu' hopen hacc =>
    obtain rfl := position_unique hq hq' hql hqu (by omega) (by omega)
    subst hr
    have hclosed := congrArg Receiver.peerClosed hacc.frame
    rw [Bool.or_true] at hclosed
    have he : q < e := by
      by_contra hge
      exact nomatch hclosed.symm.trans (hopen (by omega))
    rw [if_pos (hc.mpr ⟨hl', he⟩), getInBuffer, offsetFor_ofPos]
    refine ⟨hacc.received, hclosed, congrArg Receiver.needsAck hacc.frame, fun hu ↦ ?_⟩
    rcases hacc.unack with ⟨hne, -, -⟩ | ⟨-, u', hu', hlt', hle', -, -, -⟩
    · exact hne hu.symm
    · rw [← hu, SeqNum.ofPos_eq (by omega) (by omega)] at hu'
      omega

private theorem accept_duplicate {seq : SeqNum} (hset : (r.getInBuffer seq).type ≠ .unset)
    (hclosed : r.peerClosed = true) (hack : r.needsAck = true) (hne : seq ≠ r.unackSeq) :
    r.accept seq payload true = .ok (r, true, false) := by
  have hsame : ({ r with peerClosed := r.peerClosed || true, needsAck := true } : Receiver n) =
      r := by
    cases r with
    | mk =>
      dsimp only at hclosed hack
      rw [hclosed, hack, Bool.true_or]
  rw [getInBuffer] at hset
  rw [accept, store, if_neg hset]
  dsimp only
  rw [if_neg hne, hsame]

/-- A final packet under the control bit of the peer leaves a connected receiver alone exactly
in these cases. -/
theorem handleDataPacket_fin_iff (hst : r.state = .connected) (hbit : controlBit ≠ r.controlBit) :
    (∃ ack new, r.handleDataPacket controlBit seqId payload true = .ok (r, ack, new)) ↔
      r.IgnoresFin seqId := by
  refine ⟨fun ⟨ack, new, h⟩ ↦ ignoresFin_of_same hst hbit h rfl, fun h ↦ ?_⟩
  unfold IgnoresFin at h
  unfold handleDataPacket
  rw [if_neg (by simp [hst]), if_neg hbit]
  dsimp only at h ⊢
  split at h
  · next hin =>
    rw [if_pos hin]
    exact ⟨true, false, accept_duplicate h.1 h.2.1 h.2.2.1 h.2.2.2⟩
  next hin =>
  rw [if_neg hin]
  split at h
  · next hold =>
    rw [if_pos hold]
    exact ⟨true, false, by rw [← h]⟩
  next hold =>
  rw [if_neg hold]
  split
  · exact ⟨false, false, rfl⟩
  · next hopen =>
    rw [if_pos (h.resolve_left hopen)]
    exact ⟨false, false, rfl⟩

end

end Receiver

end RooTransport.Link
