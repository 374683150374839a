import RooTransport.Link.Wire

/-!
# Reconstruction of sequence numbers

Over an ordered medium the numbers of data packets and acknowledgements are always expanded
to what their sender meant. A himark lies up to a receiving window past the end of a sending
window, and with windows of 1024 slots on both sides that is half the range of the twelve
bits (`ring_buffer.h:65–75`).
-/

namespace RooTransport.Link

open RooTransport.Base RingBuffer

namespace Wire

variable {m n : LinkBufferSize}

section

variable {w : Wire m n} {b e sent h rb re u : Int}

private theorem Ordered.takesData (ho : w.Ordered b e sent h rb re u) {x : Sent} (hx : x ∈ w.toRx) :
    w.TakesData x := by
  obtain ⟨q, hc, hl, hq⟩ := ho.data.exists_of_mem hx
  rw [TakesData, hc.seq_eq]
  exact (ho.restore_data hc hl hq).1

private theorem Ordered.takesAck (ho : w.Ordered b e sent h rb re u) {x : Sent} {a : Int}
    (hc : Carries x a) (htype : x.type = some .dataAck) (hl : b ≤ a) (ha : a ≤ u) :
    w.TakesReply x ∧ x.seq ≠ w.tx.outRing.begin_.add 2048 := by
  have hm := capacity_le m
  have hus := ho.tx.spans.used
  obtain ⟨hrestore, hae, -⟩ := ho.restore_ack hc hl ha
  refine ⟨⟨hrestore.trans hc.seq_eq.symm, fun _ hbogus ↦ ?_, fun hhi ↦ ?_⟩, fun hfar ↦ ?_⟩
  · rw [Transmitter.BogusAck, hrestore, ho.tx.spans.end_eq,
      SeqNum.ofPos_gt (by omega) (by omega)] at hbogus
    omega
  · rw [htype] at hhi
    cases hhi
  · rw [hc.seq_eq, ho.tx.spans.begin_eq, SeqNum.ofPos_add,
      SeqNum.ofPos_eq (by omega) (by omega)] at hfar
    omega

private theorem Ordered.takesHimark (ho : w.Ordered b e sent h rb re u) {x : Sent} {k : Int}
    (hc : Carries x k) (htype : x.type = some .flowControl) (hl : b ≤ k) (hh : h ≤ k)
    (hroom : k ≤ rb + 2 ^ n.val) :
    w.TakesReply x ↔ x.seq ≠ w.tx.outRing.begin_.add 2048 := by
  have hm := capacity_le m
  have hn := capacity_le n
  have hus := ho.tx.spans.used
  have hbe := ho.tx.spans.le
  have hend := ho.credit.end_le
  obtain ⟨hke, hkb⟩ := ho.himark_near hroom
  have hfar : x.seq = w.tx.outRing.begin_.add 2048 ↔ k = b + 2048 := by
    rw [hc.seq_eq, ho.tx.spans.begin_eq, SeqNum.ofPos_add, SeqNum.ofPos_eq (by omega) (by omega)]
  rw [ne_eq, hfar]
  constructor
  · rintro ⟨hrestore, -⟩ rfl
    rw [hc.seqId_eq, ho.tx.spans.restore_half, hc.seq_eq,
      SeqNum.ofPos_eq (by omega) (by omega)] at hrestore
    omega
  · intro hne
    have hrestore : w.tx.outRing.restorePosHighBits x.seqId 12 = .ofPos k := by
      rw [hc.seqId_eq]
      exact ho.tx.spans.restore_exact (by omega) (by omega)
    refine ⟨hrestore.trans hc.seq_eq.symm, fun hack ↦ ?_, fun _ hbogus ↦ ?_⟩
    · rw [htype] at hack
      cases hack
    · have hsize : ((2 ^ n.val : Nat) : Int) = 2 ^ n.val := by norm_num
      rw [Transmitter.BogusHimark, hrestore, ho.credit.himark_eq, ho.tx.spans.end_eq, ho.size_eq,
        SeqNum.ofPos_add, hsize, SeqNum.ofPos_lt (by omega) (by omega),
        SeqNum.ofPos_gt (by omega) (by omega)] at hbogus
      omega

/-- A reply is taken for what it is unless it lies half the range ahead, which it does only
with both windows at their largest. -/
theorem Ordered.takesReply_iff (ho : w.Ordered b e sent h rb re u) {x : Sent} (hx : x ∈ w.toTx) :
    (w.TakesReply x ↔ x.seq ≠ w.tx.outRing.begin_.add 2048) ∧
      (2 ^ m.val + 2 ^ n.val < 2048 → w.TakesReply x) := by
  obtain ⟨y, hy, hwithin⟩ := ho.replies.exists_of_mem hx
  cases y with
  | ack a =>
    have hack := ho.takesAck hy.1 hy.2 hwithin.1 hwithin.2
    exact ⟨iff_of_true hack.1 hack.2, fun _ ↦ hack.1⟩
  | himark k =>
    have hiff := ho.takesHimark hy.1 hy.2 hwithin.1 hwithin.2.1 hwithin.2.2
    refine ⟨hiff, fun hsmall ↦ hiff.mpr fun hfar ↦ ?_⟩
    have hkb := (ho.himark_near hwithin.2.2).2
    have hsmall' : (2 : Int) ^ m.val + 2 ^ n.val < 2048 := by exact_mod_cast hsmall
    have hl := hwithin.1
    rw [hy.1.seq_eq, ho.tx.spans.begin_eq, SeqNum.ofPos_add,
      SeqNum.ofPos_eq (by omega) (by omega)] at hfar
    omega

end

/-- In every state reached, whatever is lost, every number under way is reconstructed unless a
himark lies exactly half the range ahead of the transmitter's window. The numbers of data
packets always are. With windows of less than 2048 slots together, all are. -/
theorem reconstructs_iff {t : Transmitter m} {r : Receiver n} {txStreamId rxStreamId : UInt32}
    {s : SeqNum} {controlBit closedEarly : Bool} {w0 w : Wire m n}
    (h0 : start t r txStreamId rxStreamId s controlBit closedEarly = .ok w0)
    (hr : Reachable step anyStep w0 w) :
    (w.Reconstructs ↔ ∀ x ∈ w.toTx, x.seq ≠ w.tx.outRing.begin_.add 2048) ∧
      (∀ x ∈ w.toRx, w.TakesData x) ∧ (2 ^ m.val + 2 ^ n.val < 2048 → w.Reconstructs) := by
  obtain ⟨b, e, sent, h, rb, re, u, ho⟩ := hr.invariant Sound (sound_start h0)
    fun _ _ _ hw _ hs ↦ hw.step hs
  have hdata : ∀ x ∈ w.toRx, w.TakesData x := fun x hx ↦ ho.takesData hx
  refine ⟨⟨fun hw x hx ↦ ?_, fun hfar ↦ ⟨hdata, fun x hx ↦ ?_⟩⟩, hdata,
    fun hsmall ↦ ⟨hdata, fun x hx ↦ ?_⟩⟩
  · exact (ho.takesReply_iff hx).1.mp (hw.2 x hx)
  · exact (ho.takesReply_iff hx).1.mpr (hfar x hx)
  · exact (ho.takesReply_iff hx).2 hsmall

/-- A data packet, an acknowledgement and a himark under way at the same time. -/
theorem reconstructs_data_and_replies : ∃ w : Wire 10 10,
    (∃ w0, start (Transmitter.new 10) (Receiver.new 10) 1 2 ⟨65535⟩ false false = .ok w0 ∧
      Reachable step anyStep w0 w) ∧
      w.toRx.map Sent.seq = [⟨0⟩] ∧ w.toTx.map Sent.seq = [⟨0⟩, ⟨1023⟩] ∧ w.Reconstructs := by
  obtain ⟨w0, h0⟩ : ∃ w0 : Wire 10 10,
      start (Transmitter.new 10) (Receiver.new 10) 1 2 ⟨65535⟩ false false = .ok w0 := ⟨_, rfl⟩
  obtain ⟨w, hw, ht⟩ := Reachable.of_test step anyStep w0
    [.tryWrite [7], .flush, .getBufferToSend 0 0 0, .deliverToRx, .tryWrite [8], .flush,
      .getBufferToSend 0 0 0, .ack, .updateRecvHimark 0 0]
    (fun w ↦ w.toRx.map Sent.seq = [⟨0⟩] ∧ w.toTx.map Sent.seq = [⟨0⟩, ⟨1023⟩] ∧
      w.tx.outRing.begin_ = ⟨65535⟩)
    (meets_anyStep _ _ _) (by cases h0; decide)
  obtain ⟨hdata, hreplies, hb⟩ := of_decide_eq_true ht
  refine ⟨w, ⟨w0, h0, hw⟩, hdata, hreplies, (reconstructs_iff h0 hw).1.mpr fun x hx hfar ↦ ?_⟩
  have hmem := List.mem_map_of_mem (f := Sent.seq) hx
  rw [hreplies, hfar, hb] at hmem
  revert hmem
  decide

end Wire

/-! ### A window read before it is acknowledged -/

namespace Transmitter

variable {n : LinkBufferSize} {t : Transmitter n} {b e h : Int}

/-- The buffer of a packet filled in one go. -/
def fullBuffer (t : Transmitter n) (e : Int) (buf : List UInt8) : OutBuffer :=
  { OutBuffer.init (.ofPos e) t.controlBit with payload := buf, flushed := true, finished := true }

/-- With credit and a free slot, a whole packet is taken at once. -/
theorem tryWrite_full (ho : t.Open) (hs : t.outRing.Spans b e) (hroom : e < b + 2 ^ n.val)
    (hcur : t.currentOutBuffer = none) (hh : t.recvHimark = .ofPos h) (hlt : e < h)
    (hle : h ≤ e + 1024) {buf : List UInt8} (hlen : buf.length = 248) :
    ∃ ring, ring.Spans b (e + 1) ∧ t.tryWrite buf = .ok
      ({ t.withBuffer e (t.fullBuffer e buf) with outRing := ring }, 248, true) := by
  obtain ⟨ring, hp, hring⟩ := hs.push_ok hroom
  have hfree : t.outRing.slotsFree ≠ 0 := by
    have := hs.slotsFree_eq
    omega
  have hge : t.recvHimark.Ge t.outRing.end_ := by
    rw [hh, hs.end_eq, SeqNum.ofPos_ge (by omega) (by omega)]
    omega
  have hne : t.recvHimark ≠ t.outRing.end_ := by
    rw [hh, hs.end_eq, ne_eq, SeqNum.ofPos_eq (by omega) (by omega)]
    omega
  refine ⟨ring, hring, ?_⟩
  have hprov : t.provideBuffer = .ok (some (slotAt n e, { t with
      outRing := ring
      currentOutBuffer := some (slotAt n e)
      outBuffers := Function.update t.outBuffers (slotAt n e)
        (OutBuffer.init (.ofPos e) t.controlBit) })) := by
    rw [provideBuffer, if_neg (not_not.mpr hge), hcur]
    dsimp only
    rw [if_neg hne, if_neg hfree, hp]
    simp only [offsetFor_ofPos]
  have hempty : (OutBuffer.init (.ofPos e) t.controlBit).write buf =
      .ok (248, t.fullBuffer e buf) := by
    simp [OutBuffer.write, OutBuffer.init, fullBuffer, hlen]
  rw [tryWrite, if_neg (by omega), if_neg (by simp [ho.1]), if_neg (by simp [ho.2]), tryWriteLoop,
    hprov]
  simp only [fill, Function.update_self, hempty, Function.update_idem]
  simp [hlen, withBuffer, fullBuffer, hcur]

private theorem getBufferToSend_full (hst : t.state = .connected) (hs : t.outRing.Spans b (e + 1))
    (hle : b ≤ e) (hn : t.nextToSend = .ofPos e) {buf : List UInt8}
    (hbuf : t.bufferAt e = t.fullBuffer e buf) :
    t.getBufferToSend 0 0 0 = ({ t.withBuffer e ((t.fullBuffer e buf).markSent 0 0) with
      nextToSend := .ofPos (e + 1), packetsSent := t.packetsSent + 1 }, some (.ofPos e), 0) := by
  have hcap := capacity_le n
  have hus := hs.used
  have hcont : t.outRing.contains t.nextToSend = true := by
    rw [hn, hs.contains_iff (by omega) (by omega)]
    omega
  have hsend : t.sendNext 0 0 =
      (t.handOut (.ofPos e) (t.fullBuffer e buf) 0 0, some (.ofPos e)) := by
    rw [sendNext, if_pos hcont, hn, getOutBuffer_ofPos, hbuf]
    rfl
  rw [getBufferToSend, if_neg (not_not.mpr hst), hsend]
  dsimp only
  rw [handOut, setOutBuffer_ofPos, SeqNum.ofPos_next]

/-- A whole packet is taken and sent at once. -/
theorem write_send (ho : t.Open) (hst : t.state = .connected) (hs : t.outRing.Spans b e)
    (hroom : e < b + 2 ^ n.val) (hcur : t.currentOutBuffer = none) (hn : t.nextToSend = .ofPos e)
    (hh : t.recvHimark = .ofPos h) (hlt : e < h) (hle : h ≤ e + 1024) {buf : List UInt8}
    (hlen : buf.length = 248) :
    ∃ t1 t2, t.tryWrite buf = .ok (t1, 248, true) ∧
      t1.getBufferToSend 0 0 0 = (t2, some (.ofPos e), 0) ∧ SamePhase t t2 ∧
      t2.outRing.Spans b (e + 1) ∧ t2.currentOutBuffer = none ∧ t2.nextToSend = .ofPos (e + 1) ∧
      (t2.getOutBuffer (.ofPos e)).data =
        storeBeU16 (formatPacketHeader (.ofPos e) .data t.controlBit) ++ buf := by
  obtain ⟨ring, hring, hwrite⟩ := tryWrite_full ho hs hroom hcur hh hlt hle hlen
  have hsend := getBufferToSend_full
    (t := { t.withBuffer e (t.fullBuffer e buf) with outRing := ring }) hst hring hs.le hn
    (bufferAt_withBuffer t e _)
  refine ⟨_, _, hwrite, hsend, { SamePhase.refl t with }, hring, hcur, rfl, ?_⟩
  rw [getOutBuffer_ofPos, bufferAt]
  dsimp only [withBuffer]
  rw [Function.update_self]
  rfl

end Transmitter

namespace Receiver

variable {n : LinkBufferSize} {r : Receiver n} {b : Int}

/-- The only packet of the window is handed over in one go. -/
theorem tryRead_only (hst : r.state = .connected) (hs : r.inRing.Spans b (b + 1))
    (hcur : r.currentInBuffer = none) (htype : (r.bufferAt b).type = .data) :
    ∃ ring, ring.Spans (b + 1) (b + 1) ∧ r.tryRead (r.bufferAt b).size =
      .ok (r.released b ring false, (r.bufferAt b).content, true) := by
  have hoff : r.offset = 0 := by rw [offset, hcur]
  have hspec := readRound_spec hs (.inl hcur) (r.bufferAt b).size
  rw [tryRead, if_neg (by simp [hst]), tryReadLoop]
  revert hspec
  generalize r.readRound (r.bufferAt b).size = out
  intro hspec
  cases hspec with
  | drained hbe => omega
  | gap _ hno => exact absurd htype (by simpa [Received] using fun h ↦ hno (by simp [Received, h]))
  | part _ _ hlt => omega
  | data ring _ _ _ _ hring =>
    refine ⟨ring, hring, ?_⟩
    simp [hoff]
  | fin ring _ hfin => rw [htype] at hfin; cases hfin
  | badPosition _ _ hlt => omega
  | finInside hlt => omega

/-- A receiver that has handed over everything it received takes the next packet in. -/
theorem handleDataPacket_next (hst : r.state = .connected) (hs : r.inRing.Spans b b)
    (hun : r.unackSeq = .ofPos b) (hself : r.selfClosed = false) (hpeer : r.peerClosed = false)
    {payload : List UInt8} (hlen : payload.length ≤ 248) :
    ∃ r' ack new, r.handleDataPacket (!r.controlBit) ((SeqNum.ofPos b).raw &&& 0x0FFF#16) payload
        false = .ok (r', ack, new) ∧ r'.inRing.Spans b (b + 1) ∧ r'.unackSeq = .ofPos (b + 1) ∧
      (r'.bufferAt b).type = .data ∧ (r'.bufferAt b).size = payload.length ∧
      r' = { r with
        inRing := r'.inRing
        inBuffers := r'.inBuffers
        unackSeq := r'.unackSeq
        packetsReceived := r'.packetsReceived
        needsAck := true } := by
  have hone := one_le_capacity n
  have hrestore := hs.restore_exact (p := b) (by omega) (by omega)
  obtain ⟨⟨r', ack, new⟩, hh⟩ := r.handleDataPacket_total (!r.controlBit)
    ((SeqNum.ofPos b).raw &&& 0x0FFF#16) payload false hlen
  have harr := handleDataPacket_arrival hs hh
  cases harr with
  | ignored hig =>
    obtain ⟨-, hclosed | hfull⟩ := hig.beyond hs (by simp [hst]) (by simp [hst]) (by simp) hrestore
      (by omega) (by omega)
    · exact absurd (hpeer.symm.trans hclosed) (by decide)
    · omega
  | consumed q _ _ _ hq hl hu =>
    have := position_unique hrestore hq (by omega) (by omega) hl (by omega)
    omega
  | accepted q b' _ _ _ _ hq hl hu _ ha =>
    have hcap := capacity_le n
    obtain rfl : q = b :=
      position_unique (b := b) hq hrestore (by omega) (by omega) (by omega) (by omega)
    rcases ha.unack with ⟨hne, -, -⟩ | ⟨-, u', hun', hlt, hle, -, -, hb'⟩
    · exact absurd hun hne
    rw [hself, if_neg (by decide)] at hb'
    obtain ⟨old, hset⟩ := ha.stored fun hq ↦ absurd hq (lt_irrefl _)
    have hsize := (InBuffer.of_set hset).1
    have hspans := ha.spans
    have hmax : max q (q + 1) = q + 1 := by omega
    rw [hmax] at hspans hle
    rw [hb'] at hspans
    obtain rfl : u' = q + 1 := by omega
    refine ⟨r', true, _, hh, hspans, hun', InBuffer.type_of_set hset, ?_, ?_⟩
    · rw [hsize]
      omega
    · exact ha.frame.trans (by rw [hpeer]; rfl)

end Receiver

namespace Wire

variable {m n : LinkBufferSize}

/-- Everything sent since the connection was made, up to position `k`, was received and read,
and nothing of it was acknowledged. -/
structure ReadUnacked (w : Wire m n) (k : Int) : Prop where
  txState : w.tx.state = .connected
  txOpen : w.tx.endOfStream = false
  txCurrent : w.tx.currentOutBuffer = none
  txSpans : w.tx.outRing.Spans 0 k
  txNext : w.tx.nextToSend = .ofPos k
  txHimark : w.tx.recvHimark = .ofPos (2 ^ n.val)
  bits : w.rx.controlBit = !w.tx.controlBit
  rxState : w.rx.state = .connected
  rxOpen : w.rx.selfClosed = false ∧ w.rx.peerClosed = false
  rxCurrent : w.rx.currentInBuffer = none
  rxSpans : w.rx.inRing.Spans k k
  rxUnack : w.rx.unackSeq = .ofPos k
  rxDue : w.rx.recvHimarkUpdateExpiration = 0
  toRx : w.toRx = []
  toTx : w.toTx = []

private theorem readUnacked_start {w0 : Wire m n} {txStreamId rxStreamId : UInt32}
    (h0 : start (.new m) (.new n) txStreamId rxStreamId (.ofPos 0) false false = .ok w0) :
    w0.ReadUnacked 0 := by
  obtain ⟨t0, hinit, hrest⟩ := bind_eq_ok.mp h0
  obtain ⟨t1, hclose, hrest⟩ := bind_eq_ok.mp hrest
  obtain ⟨rx, hrx, rfl⟩ := map_eq_ok.mp hrest
  rw [Transmitter.init_ok] at hinit
  rw [Receiver.reconnect_ok] at hrx
  cases hinit
  cases hclose
  cases hrx
  exact {
    txState := rfl
    txOpen := rfl
    txCurrent := rfl
    txSpans := spans_new m 0
    txNext := rfl
    txHimark := by
      refine (SeqNum.ofPos_add 0 _).trans ?_
      simp
    bits := rfl
    rxState := rfl
    rxOpen := ⟨rfl, rfl⟩
    rxCurrent := rfl
    rxSpans := spans_new n 0
    rxUnack := rfl
    rxDue := rfl
    toRx := rfl
    toTx := rfl }

/-- One more packet is written, sent, received and read. -/
theorem ReadUnacked.next {w0 w : Wire m n} {k : Int} {buf : List UInt8}
    (h : w.ReadUnacked k) (hr : Reachable step anyStep w0 w) (hm : k < 2 ^ m.val)
    (hn : k < 2 ^ n.val) (hlen : buf.length = 248) :
    ∃ w', Reachable step anyStep w0 w' ∧ w'.ReadUnacked (k + 1) := by
  have hcap := capacity_le n
  have hk := h.txSpans.le
  have hopen : w.tx.Open := ⟨h.txOpen, by simp [h.txState], by simp [h.txState]⟩
  obtain ⟨t1, t2, hwrite, hsend, hsame, hs2, hcur2, hnext2, hdata⟩ := Transmitter.write_send hopen
    h.txState h.txSpans (by omega) h.txCurrent h.txNext h.txHimark hn (by omega) hlen
  obtain ⟨r1, ack, new, hh, hs1, hun1, htype, hsize, hframe⟩ := Receiver.handleDataPacket_next
    h.rxState h.rxSpans h.rxUnack h.rxOpen.1 h.rxOpen.2 hlen.le
  have hst1 := (congrArg Receiver.state hframe).trans h.rxState
  have hcur1 := (congrArg Receiver.currentInBuffer hframe).trans h.rxCurrent
  obtain ⟨ring, hring, hread⟩ := Receiver.tryRead_only hst1 hs1 hcur1 htype
  have hw1 : w.step (.tryWrite buf) = .ok { w with tx := t1 } :=
    map_eq_ok.mpr ⟨_, hwrite, rfl⟩
  have hw2 : { w with tx := t1 }.step (.getBufferToSend 0 0 0) = .ok { w with
      tx := t2
      toRx := [⟨.ofPos k,
        storeBeU16 (formatPacketHeader (.ofPos k) .data w.tx.controlBit) ++ buf⟩] } := by
    rw [step, hsend]
    dsimp only
    rw [hdata, h.toRx, post, if_neg (by simp [storeBeU16, beBytes]), List.nil_append]
  have hw3 : Wire.step { w with
      tx := t2
      toRx := [⟨.ofPos k,
        storeBeU16 (formatPacketHeader (.ofPos k) .data w.tx.controlBit) ++ buf⟩] }
      .deliverToRx = .ok { w with tx := t2, rx := r1, toRx := [] } := by
    rw [step]
    dsimp only
    rw [receiveData, if_neg (by simp [storeBeU16, hlen]), map_eq_ok]
    refine ⟨(r1, ack, new), ?_, rfl⟩
    rw [Sent.seqId, Sent.type, loadBeU16_store, drop_storeBeU16, getPacketSeq_format,
      getPacketType_format, getPacketControlBit_format]
    rw [h.bits, Bool.not_not] at hh
    exact hh
  have hw4 : { w with tx := t2, rx := r1, toRx := [] }.step (.tryRead (r1.bufferAt k).size) =
      .ok { w with tx := t2, rx := r1.released k ring false, toRx := [] } :=
    map_eq_ok.mpr ⟨_, hread, rfl⟩
  refine ⟨_, (((hr.next trivial hw1).next trivial hw2).next trivial hw3).next trivial hw4, ?_⟩
  have hbit1 := congrArg Receiver.controlBit hframe
  have hopen1 : r1.selfClosed = false ∧ r1.peerClosed = false := by
    rw [hframe]
    exact h.rxOpen
  exact {
    txState := hsame.state.trans h.txState
    txOpen := hsame.endOfStream.trans h.txOpen
    txCurrent := hcur2
    txSpans := hs2
    txNext := hnext2
    txHimark := hsame.recvHimark.trans h.txHimark
    bits := by rw [hsame.controlBit]; exact hbit1.trans h.bits
    rxState := hst1
    rxOpen := hopen1
    rxCurrent := rfl
    rxSpans := hring
    rxUnack := hun1
    rxDue := rfl
    toRx := rfl
    toTx := h.toTx }

/-- A whole window can be sent, received and read before the first acknowledgement. -/
theorem ReadUnacked.window {w0 : Wire m n} (h : w0.ReadUnacked 0) (buf : List UInt8)
    (hlen : buf.length = 248) (k : Nat) (hm : k ≤ 2 ^ m.val) (hn : k ≤ 2 ^ n.val) :
    ∃ w, Reachable step anyStep w0 w ∧ w.ReadUnacked k := by
  induction k with
  | zero => exact ⟨w0, .start, h⟩
  | succ k ih =>
    obtain ⟨w, hr, hw⟩ := ih (by omega) (by omega)
    have hm' : (k : Int) < 2 ^ m.val := by exact_mod_cast hm
    have hn' : (k : Int) < 2 ^ n.val := by exact_mod_cast hn
    exact hw.next hr hm' hn' hlen

/-- A himark sent then lies two windows past the transmitter's. -/
theorem ReadUnacked.himark {w0 w : Wire m n} {k : Int} (h : w.ReadUnacked k)
    (hr : Reachable step anyStep w0 w) :
    ∃ w', Reachable step anyStep w0 w' ∧ w'.tx = w.tx ∧ ∃ x ∈ w'.toTx,
      x.seq = .ofPos (k + 2 ^ n.val) := by
  have hstep : w.step (.updateRecvHimark 0 0) = .ok { w with
      rx := { w.rx with recvHimark := .ofPos (k + 2 ^ n.val), recvHimarkUpdateExpiration := 100000 }
      toTx := [⟨.ofPos (k + 2 ^ n.val), storeBeU16
        (formatPacketHeader (.ofPos (k + 2 ^ n.val)) .flowControl w.rx.controlBit)⟩] } := by
    rw [step, Receiver.updateRecvHimark, if_neg (by simp [h.rxState]),
      if_neg (by rw [h.rxDue]; exact lt_irrefl 0),
      h.rxSpans.begin_add_capacity]
    dsimp only
    rw [post, if_neg (by simp [storeBeU16, beBytes]), h.toTx, List.nil_append]
  exact ⟨_, hr.next trivial hstep, rfl, _, List.mem_singleton_self _, rfl⟩

/-- With 1024 slots on both sides, the receiver has read a window of which the transmitter
knows nothing yet. The himark that says so is taken for an old one and refused. -/
theorem himark_half_range_ahead : ∃ w0 w : Wire 10 10,
    start (Transmitter.new 10) (Receiver.new 10) 1 2 ⟨0⟩ false false = .ok w0 ∧
      Reachable step anyStep w0 w ∧ (∃ x ∈ w.toTx, x.seq = ⟨2048⟩ ∧ ¬ w.TakesReply x) ∧
      ¬ w.Reconstructs := by
  obtain ⟨w0, h0⟩ : ∃ w0 : Wire 10 10,
      start (Transmitter.new 10) (Receiver.new 10) 1 2 ⟨0⟩ false false = .ok w0 := ⟨_, rfl⟩
  obtain ⟨w1, hr1, hw1⟩ :=
    (readUnacked_start h0).window (List.replicate 248 0) List.length_replicate 1024
    (by decide) (by decide)
  obtain ⟨w, hr, htx, x, hx, hseq⟩ := hw1.himark hr1
  obtain ⟨b, e, sent, h, rb, re, u, ho⟩ := hr.invariant Sound (sound_start h0)
    fun _ _ _ hw _ hs ↦ hw.step hs
  have hrefused : ¬ w.TakesReply x := by
    rw [(ho.takesReply_iff hx).1, not_not, hseq, htx, hw1.txSpans.begin_eq]
    decide
  exact ⟨w0, w, h0, hr, ⟨x, hx, hseq.trans (by decide), hrefused⟩, fun hw ↦ hrefused (hw.2 x hx)⟩

end Wire

end RooTransport.Link
