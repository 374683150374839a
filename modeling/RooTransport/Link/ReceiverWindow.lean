import RooTransport.Base.Run
import RooTransport.Link.ReceiverRead

/-!
# The receive window

The operations a connected receiver can be asked for, as the steps of one system, and the
relation they keep between `in_ring_`, the slots and `unack_seq_` (`receiver.h:131–157`):
what lies before `unack_seq_` is received and `unack_seq_` itself is the oldest gap.
-/

namespace RooTransport.Link

open RooTransport.Base RingBuffer

namespace Receiver

variable {n : LinkBufferSize}

/-- The calls made on a receiver while a connection lasts. -/
inductive Act where
  | handleDataPacket (controlBit : Bool) (seqId : BitVec 16) (payload : List UInt8)
      (isFinal : Bool)
  | tryRead (count : Nat)
  | peek
  | availableForRead
  | ack
  | updateRecvHimark (now : Uptime) (nextSendMicros : Nat)
  | markInputClosed
  deriving DecidableEq, Repr

/-- What a call hands back. -/
inductive Out where
  | handled (hasAck hasNewData : Bool)
  | read (bytes : List UInt8) (outgoingDataReady : Bool)
  | peeked (byte : Int)
  | available (count : Nat)
  | packet (bytes : List UInt8)
  | himark (bytes : List UInt8) (nextSendMicros : Nat)
  | inputClosed (outgoingDataReady : Bool)
  deriving DecidableEq, Repr

/-- One call with its result. -/
def perform (r : Receiver n) : Act → Except Check (Receiver n × Out)
  | .handleDataPacket controlBit seqId payload isFinal =>
    (r.handleDataPacket controlBit seqId payload isFinal).map fun (r, ack, new) ↦
      (r, .handled ack new)
  | .tryRead count => (r.tryRead count).map fun (r, bytes, ready) ↦ (r, .read bytes ready)
  | .peek => .ok (r.peek.1, .peeked r.peek.2)
  | .availableForRead => .ok (r.availableForRead.1, .available r.availableForRead.2)
  | .ack => .ok (r.ack.1, .packet r.ack.2)
  | .updateRecvHimark now next =>
    .ok ((r.updateRecvHimark now next).1,
      .himark (r.updateRecvHimark now next).2.1 (r.updateRecvHimark now next).2.2)
  | .markInputClosed => r.markInputClosed.map fun (r, ready) ↦ (r, .inputClosed ready)

/-- One call, keeping only the state it leaves. -/
def step (r : Receiver n) (a : Act) : Except Check (Receiver n) := (r.perform a).map Prod.fst

/-- The step of a data packet is the call without its answer. -/
theorem step_handleDataPacket (r : Receiver n) (controlBit : Bool) (seqId : BitVec 16)
    (payload : List UInt8) (isFinal : Bool) :
    r.step (.handleDataPacket controlBit seqId payload isFinal) =
      (r.handleDataPacket controlBit seqId payload isFinal).map Prod.fst := by
  rw [step, perform]
  cases r.handleDataPacket controlBit seqId payload isFinal <;> rfl

/-- The step of a read is the call without its answer. -/
theorem step_tryRead (r : Receiver n) (count : Nat) :
    r.step (.tryRead count) = (r.tryRead count).map Prod.fst := by
  rw [step, perform]
  cases r.tryRead count <;> rfl

/-- The step of a closed input is the call without its answer. -/
theorem step_markInputClosed (r : Receiver n) :
    r.step .markInputClosed = r.markInputClosed.map Prod.fst := by
  rw [step, perform]
  cases r.markInputClosed <;> rfl

/-- Sending an acknowledgement at most says that none is needed. -/
theorem ack_fst (r : Receiver n) :
    r.ack.1 = r ∨ (r.needsAck = true ∧ r.ack.1 = { r with needsAck := false }) := by
  unfold ack
  split
  · exact .inl rfl
  · next h => exact .inr ⟨by simpa using fun hn ↦ h (.inr hn), rfl⟩

/-- An acknowledgement that is sent carries `unackSeq`. -/
theorem ack_snd {r : Receiver n} (h : r.ack.2 ≠ []) : ∃ bitmap, r.ack.2 =
    storeBeU16 (formatPacketHeader r.unackSeq .dataAck r.controlBit) ++ bitmap := by
  unfold ack at h ⊢
  split at h
  · exact absurd rfl h
  · next hsend =>
    rw [if_neg hsend]
    exact ⟨_, rfl⟩

/-- `updateRecvHimark` sends nothing, or the end of the room it has. -/
theorem updateRecvHimark_cases (r : Receiver n) (now : Uptime) (next : Nat) :
    ((r.updateRecvHimark now next).1 = r ∧ (r.updateRecvHimark now next).2.1 = []) ∨
      ((r.updateRecvHimark now next).1 = { r with
          recvHimark := r.inRing.begin_.add r.inRing.capacity
          recvHimarkUpdateExpiration := now + 100000 } ∧
        (r.updateRecvHimark now next).2.1 = storeBeU16 (formatPacketHeader
          (r.inRing.begin_.add r.inRing.capacity) .flowControl r.controlBit)) := by
  unfold updateRecvHimark
  split
  · exact .inl ⟨rfl, rfl⟩
  · split
    · exact .inl ⟨rfl, rfl⟩
    · exact .inr ⟨rfl, rfl⟩

/-- What a call leaves behind, call by call. Sending an acknowledgement or a flow-control
packet touches only what is noted about having sent it. -/
inductive Stepped (r : Receiver n) : Act → Receiver n → Prop
  | handled {controlBit : Bool} {seqId : BitVec 16} {payload : List UInt8}
      {isFinal ack new : Bool} {r' : Receiver n} :
      r.handleDataPacket controlBit seqId payload isFinal = .ok (r', ack, new) →
      Stepped r (.handleDataPacket controlBit seqId payload isFinal) r'
  | read {count : Nat} {bytes : List UInt8} {ready : Bool} {r' : Receiver n} :
      r.tryRead count = .ok (r', bytes, ready) → Stepped r (.tryRead count) r'
  | peeked : Stepped r .peek r.look
  | available : Stepped r .availableForRead r.look
  | sent {a : Act} (needsAck : Bool) (recvHimark : SeqNum) (expiration : Uptime) :
      Stepped r a { r with
        needsAck := needsAck
        recvHimark := recvHimark
        recvHimarkUpdateExpiration := expiration }
  | closed {ready : Bool} {r' : Receiver n} :
      r.markInputClosed = .ok (r', ready) → Stepped r .markInputClosed r'

/-- Every step that fails no check is one of these. -/
theorem step_spec {r r' : Receiver n} {a : Act} (h : r.step a = .ok r') : Stepped r a r' := by
  obtain ⟨⟨r1, out⟩, hp, rfl⟩ := map_eq_ok.mp h
  cases a with
  | handleDataPacket controlBit seqId payload isFinal =>
    obtain ⟨⟨r2, ack, new⟩, hh, heq⟩ := map_eq_ok.mp hp
    cases heq
    exact .handled hh
  | tryRead count =>
    obtain ⟨⟨r2, bytes, ready⟩, hh, heq⟩ := map_eq_ok.mp hp
    cases heq
    exact .read hh
  | peek =>
    cases hp
    rw [peek_fst]
    exact .peeked
  | availableForRead =>
    cases hp
    rw [availableForRead_fst]
    exact .available
  | ack =>
    cases hp
    rcases r.ack_fst with he | ⟨-, he⟩
    · rw [he]; exact .sent r.needsAck r.recvHimark r.recvHimarkUpdateExpiration
    · rw [he]; exact .sent false r.recvHimark r.recvHimarkUpdateExpiration
  | updateRecvHimark now next =>
    cases hp
    rcases r.updateRecvHimark_cases now next with ⟨he, -⟩ | ⟨he, -⟩
    · rw [he]; exact .sent r.needsAck r.recvHimark r.recvHimarkUpdateExpiration
    · rw [he]; exact .sent r.needsAck _ _
  | markInputClosed =>
    obtain ⟨⟨r2, ready⟩, hh, heq⟩ := map_eq_ok.mp hp
    cases heq
    exact .closed hh

/-- `init` followed by `setConnected`. -/
def reconnect (r : Receiver n) (myStreamId : UInt32) (peerSeqNum : SeqNum) (controlBit : Bool) :
    Except Check (Receiver n) :=
  (r.init myStreamId).bind (·.setConnected peerSeqNum controlBit)

/-- What reconnecting leaves: slots and cursor are those of the earlier connections. -/
def reconnected (r : Receiver n) (myStreamId : UInt32) (peerSeqNum : SeqNum) (controlBit : Bool) :
    Receiver n :=
  { r with
    inRing := RingBuffer.new n peerSeqNum
    myStreamId := myStreamId
    peerClosed := false
    selfClosed := false
    endOfStream := false
    state := .connected
    unackSeq := peerSeqNum
    controlBit := controlBit }

/-- A reconnection never fails. -/
theorem reconnect_ok (r : Receiver n) (myStreamId : UInt32) (peerSeqNum : SeqNum)
    (controlBit : Bool) : r.reconnect myStreamId peerSeqNum controlBit =
      .ok (r.reconnected myStreamId peerSeqNum controlBit) := by
  obtain ⟨b, e, hs⟩ := r.inRing.exists_spans
  have hs' := spans_new n e
  simp only [reconnect, init, hs.popAll_ok, Except.bind, setConnected, hs'.empty_iff.mpr,
    hs'.reset_ok, if_true]
  rfl

/-- On a window from `b` to `e`, the packets before `u` are received and `u` is the first
that is not. -/
structure Window (r : Receiver n) (b u e : Int) : Prop where
  spans : r.inRing.Spans b e
  unack_eq : r.unackSeq = .ofPos u
  begin_le : b ≤ u
  le_end : u ≤ e
  received : ∀ p, b ≤ p → p < u → r.Received p
  gap : u < e → ¬ r.Received u

/-- The window is determined by the ring, the slots and `unackSeq`. -/
theorem Window.congr {r r' : Receiver n} {b u e : Int} (h : r.Window b u e)
    (hring : r'.inRing = r.inRing) (hbufs : r'.inBuffers = r.inBuffers)
    (hun : r'.unackSeq = r.unackSeq) : r'.Window b u e := by
  have hrec (p : Int) : r'.Received p ↔ r.Received p := by
    rw [Received, Received, bufferAt, bufferAt, hbufs]
  exact ⟨hring ▸ h.spans, hun ▸ h.unack_eq, h.begin_le, h.le_end,
    fun p hb hu ↦ (hrec p).mpr (h.received p hb hu), fun hlt hr ↦ h.gap hlt ((hrec u).mp hr)⟩

/-- Connecting starts an empty window at the peer's first sequence number. -/
theorem window_setConnected {r r' : Receiver n} {p : Int} {controlBit : Bool}
    (h : r.setConnected (.ofPos p) controlBit = .ok r') : r'.Window p p p := by
  unfold setConnected at h
  split at h
  · next hemp =>
    obtain ⟨b, e, hs⟩ := r.inRing.exists_spans
    obtain rfl := hs.empty_iff.mp hemp
    rw [hs.reset_ok] at h
    cases h
    exact ⟨spans_new n p, rfl, le_refl _, le_refl _, by omega, by omega⟩
  · cases h

/-- Taking in a packet keeps the window, moving its ends only forward. -/
theorem Window.accepted {r r' : Receiver n} {b u e q b' : Int} {payload : List UInt8}
    {isFinal : Bool} (h : r.Window b u e) (hb : b ≤ q) (hq : q < b + 2 ^ n.val)
    (ha : Accepted r b e q payload isFinal r' b') :
    ∃ u', r'.Window b' u' (max e (q + 1)) ∧ b ≤ b' ∧ u ≤ u' ∧ (u = q → u < u') := by
  have hcap := capacity_le n
  have hus := h.spans.used
  have hbu := h.begin_le
  have hue := h.le_end
  have hqu : r.unackSeq = .ofPos q ↔ u = q := by
    rw [h.unack_eq, SeqNum.ofPos_eq (by omega) (by omega)]
  have hold : ∀ p, b ≤ p → p < u → r'.Received p := by
    intro p hp hpu
    by_cases hpq : p = q
    · exact hpq ▸ ha.received
    · rw [Received, ha.kept p hp (by omega) hpq]
      exact h.received p hp hpu
  rcases ha.unack with ⟨hne, hun, rfl⟩ | ⟨heq, u', hun, hlt, hle, hall, hgap, hb'⟩
  · rw [ne_eq, hqu] at hne
    refine ⟨u, ⟨ha.spans, hun.trans h.unack_eq, hbu, by omega, hold, ?_⟩, le_refl _, le_refl _,
      fun hq ↦ absurd hq hne⟩
    intro hlt
    by_cases hue' : u < e
    · rw [Received, ha.kept u hbu hue' hne]
      exact h.gap hue'
    · exact ha.gap u (by omega) (by omega)
  · obtain rfl := hqu.mp heq
    have hbb : b ≤ b' ∧ b' ≤ u' := by
      rw [hb']
      split <;> omega
    refine ⟨u', ⟨ha.spans, hun, hbb.2, hle, ?_, hgap⟩, hbb.1, by omega, fun _ ↦ hlt⟩
    intro p hp hpu
    by_cases hpq : p < u
    · exact hold p (by omega) hpq
    · exact hall p (by omega) hpu

/-- Packet arrival keeps the window. -/
theorem Window.handleDataPacket {r r' : Receiver n} {b u e : Int} {controlBit : Bool}
    {seqId : BitVec 16} {payload : List UInt8} {isFinal ack new : Bool} (h : r.Window b u e)
    (hh : r.handleDataPacket controlBit seqId payload isFinal = .ok (r', ack, new)) :
    ∃ b' u' e', r'.Window b' u' e' ∧ b ≤ b' ∧ u ≤ u' ∧ e ≤ e' := by
  cases handleDataPacket_arrival h.spans hh with
  | ignored => exact ⟨b, u, e, h, le_refl _, le_refl _, le_refl _⟩
  | consumed => exact ⟨b, u, e, h.congr rfl rfl rfl, le_refl _, le_refl _, le_refl _⟩
  | accepted q b' _ _ _ _ _ hb hq _ ha =>
    obtain ⟨u', hw, hbb, huu, -⟩ := h.accepted hb hq ha
    exact ⟨b', u', _, hw, hbb, huu, le_max_left _ _⟩

/-- Releasing the first packet of the window keeps the rest. -/
theorem Window.released {r : Receiver n} {b u e : Int} (h : r.Window b u e) (hlt : b < e)
    (hr : r.Received b) {ring : RingBuffer n} (hring : ring.Spans (b + 1) e) (last : Bool) :
    (r.released b ring last).Window (b + 1) u e ∧ b < u := by
  have hus := h.spans.used
  have hue := h.le_end
  have hbu : b < u := by
    rcases eq_or_lt_of_le h.begin_le with rfl | hbu
    · exact absurd hr (h.gap hlt)
    · exact hbu
  have hkept : ∀ p, b < p → p < b + 2 ^ n.val →
      (r.released b ring last).bufferAt p = r.bufferAt p :=
    fun p hp hpb ↦ Function.update_of_ne (slotAt_ne (by omega) (by omega) (by omega)) _ _
  refine ⟨⟨hring, h.unack_eq, by omega, hue, ?_, ?_⟩, hbu⟩
  · intro p hp hpu
    rw [Received, hkept p (by omega) (by omega)]
    exact h.received p (by omega) hpu
  · intro hlt'
    rw [Received, hkept u hbu (by omega)]
    exact h.gap hlt'

/-- A round of reading keeps the window. -/
theorem Window.readRound {r : Receiver n} {b u e : Int} {count : Nat} {round : Round n}
    (h : r.Window b u e) (hc : r.CursorAtFront) (hr : r.readRound count = .ok round) :
    ∃ b', round.receiver.Window b' u e ∧ b ≤ b' := by
  have hspec := readRound_spec h.spans hc count
  rw [hr] at hspec
  cases hspec with
  | drained =>
    refine ⟨b, ?_, le_refl _⟩
    dsimp only
    split
    · exact h.congr rfl rfl rfl
    · exact h
  | gap => exact ⟨b, h.congr rfl rfl rfl, le_refl _⟩
  | part => exact ⟨b, h.congr rfl rfl rfl, le_refl _⟩
  | data ring hlt ht _ _ hring =>
    have hrec : r.Received b := by rw [Received, ht]; decide
    exact ⟨b + 1, (h.released hlt hrec hring false).1, by omega⟩
  | fin ring hlast ht _ _ hring =>
    have hrec : r.Received b := by rw [Received, ht]; decide
    exact ⟨b + 1, (h.released (by omega) hrec hring true).1, by omega⟩

/-- Reading keeps the window and leaves the cursor at its front. -/
theorem Window.tryRead {r r' : Receiver n} {b u e : Int} {count : Nat} {bytes : List UInt8}
    {ready : Bool} (h : r.Window b u e) (hc : r.CursorAtFront)
    (hr : r.tryRead count = .ok (r', bytes, ready)) :
    ∃ b', r'.Window b' u e ∧ r'.CursorAtFront ∧ b ≤ b' := by
  have hround (s : Receiver n) (k : Nat) (round : Round n)
      (hi : ∃ b', s.Window b' u e ∧ s.CursorAtFront ∧ b ≤ b') (hk : s.readRound k = .ok round) :
      ∃ b', round.receiver.Window b' u e ∧ round.receiver.CursorAtFront ∧ b ≤ b' := by
    obtain ⟨b1, hw, hc1, hb1⟩ := hi
    obtain ⟨b2, hw2, hb2⟩ := hw.readRound hc1 hk
    exact ⟨b2, hw2, hc1.readRound hk, by omega⟩
  refine tryRead_rule (I := fun s _ _ ↦ ∃ b', s.Window b' u e ∧ s.CursorAtFront ∧ b ≤ b')
    (Q := fun s _ ↦ ∃ b', s.Window b' u e ∧ s.CursorAtFront ∧ b ≤ b')
    (fun s k _ round hi hk _ _ ↦ hround s k round hi hk)
    (fun s k _ round hi hk _ ↦ hround s k round hi hk)
    ⟨b, h, hc, le_refl _⟩ (fun _ ↦ ⟨b, h, hc, le_refl _⟩) hr

/-- Closing the input keeps the window if nothing is missing in it. -/
theorem Window.markInputClosed {r r' : Receiver n} {b e : Int} {ready : Bool}
    (h : r.Window b e e) (hc : r.markInputClosed = .ok (r', ready)) :
    ∃ b', r'.Window b' e e ∧ b ≤ b' := by
  obtain ⟨due, ready', hok⟩ := markInputClosed_ok h.spans
  rw [hok] at hc
  cases hc
  exact ⟨e, ⟨spans_new n e, h.unack_eq, le_refl _, le_refl _, by omega, by omega⟩, h.spans.le⟩

/-- Looking at the front of the window keeps it. -/
theorem Window.look {r : Receiver n} {b u e : Int} (h : r.Window b u e) : r.look.Window b u e :=
  h.congr r.look_inRing r.look_inBuffers r.look_sameLink.unackSeq

private theorem setConnected_state {r r' : Receiver n} {seq : SeqNum} {controlBit : Bool}
    (h : r.setConnected seq controlBit = .ok r') : r'.state = .connected := by
  unfold setConnected at h
  split at h
  · split at h
    · cases h
    · cases h; rfl
  · cases h

private theorem markInputClosed_state {r r' : Receiver n} {ready : Bool}
    (h : r.markInputClosed = .ok (r', ready)) : r'.state = r.state := by
  obtain ⟨b, e, hs⟩ := r.inRing.exists_spans
  obtain ⟨due, ready', hok⟩ := markInputClosed_ok hs
  rw [hok] at h
  cases h
  rfl

/-- Packet arrival keeps the connection as it is. -/
theorem handleDataPacket_same {r r' : Receiver n} {controlBit : Bool} {seqId : BitVec 16}
    {payload : List UInt8} {isFinal ack new : Bool}
    (h : r.handleDataPacket controlBit seqId payload isFinal = .ok (r', ack, new)) :
    r'.state = r.state ∧ r'.selfClosed = r.selfClosed ∧ r'.controlBit = r.controlBit := by
  obtain ⟨b, e, hs⟩ := r.inRing.exists_spans
  cases handleDataPacket_arrival hs h with
  | ignored => exact ⟨rfl, rfl, rfl⟩
  | consumed => exact ⟨rfl, rfl, rfl⟩
  | accepted q b' _ _ _ _ _ _ _ _ ha =>
    rw [ha.frame]
    exact ⟨rfl, rfl, rfl⟩

/-! ### Every run of a connection -/

/-- The receive window in the terms of the source: `in_ring_`, the slots and `unack_seq_`. A
retransmission of the packet at `unack_seq_` is recognised as missing, and moves
`unack_seq_` on if there is room for it. -/
structure WindowOk (r : Receiver n) : Prop where
  begin_le : r.inRing.begin_ ≤ r.unackSeq
  le_end : r.unackSeq ≤ r.inRing.end_
  used_le : r.inRing.slotsUsed ≤ r.inRing.capacity
  received : ∀ i < forwardDist r.unackSeq.raw r.inRing.begin_.raw,
    (r.getInBuffer (r.inRing.begin_.add i)).type ≠ .unset
  gap : r.unackSeq ≠ r.inRing.end_ → (r.getInBuffer r.unackSeq).type = .unset
  recognised : r.inRing.restorePosHighBits (r.unackSeq.raw &&& 0xFFF) 12 = r.unackSeq ∧
    ¬ r.unackSeq < r.inRing.begin_
  advances : ∀ payload isFinal, payload.length ≤ 248 →
    r.unackSeq ≠ r.inRing.end_ ∨ (r.peerClosed = false ∧ 0 < r.inRing.slotsFree) →
    ∃ r' new, r.handleDataPacket (!r.controlBit) (r.unackSeq.raw &&& 0xFFF) payload isFinal =
      .ok (r', true, new) ∧ r'.unackSeq.Gt r.unackSeq

/-- The steps that keep the window: reading with no stale cursor, and closing the input with
nothing missing. -/
def WindowGuard (r : Receiver n) : Act → Prop
  | .tryRead _ => r.CursorAtFront
  | .markInputClosed => r.unackSeq = r.inRing.end_
  | _ => True

instance (r : Receiver n) (a : Act) : Decidable (WindowGuard r a) := by
  cases a <;> (unfold WindowGuard; infer_instance)

private theorem Window.restore {r : Receiver n} {b u e : Int} (h : r.Window b u e) :
    r.inRing.restorePosHighBits (r.unackSeq.raw &&& 0xFFF) 12 = .ofPos u := by
  have hcap := capacity_le n
  have hus := h.spans.used
  have hbu := h.begin_le
  have hue := h.le_end
  rw [h.unack_eq]
  exact h.spans.restore_exact (by omega) (by omega)

private theorem Window.advances {r : Receiver n} {b u e : Int} (h : r.Window b u e)
    (hc : r.state = .connected) {payload : List UInt8} {isFinal : Bool}
    (hlen : payload.length ≤ 248)
    (hroom : u < e ∨ (r.peerClosed = false ∧ e < b + 2 ^ n.val)) :
    ∃ r' new, r.handleDataPacket (!r.controlBit) (r.unackSeq.raw &&& 0xFFF) payload isFinal =
      .ok (r', true, new) ∧ r'.unackSeq.Gt r.unackSeq := by
  have hcap := capacity_le n
  have hus := h.spans.used
  have hbu := h.begin_le
  have hue := h.le_end
  obtain ⟨⟨r', ack, new⟩, hok⟩ := handleDataPacket_total r (!r.controlBit)
    (r.unackSeq.raw &&& 0xFFF) payload isFinal hlen
  have huniq {q : Int} (hq : r.inRing.restorePosHighBits (r.unackSeq.raw &&& 0xFFF) 12 = .ofPos q)
      (hl : b - 2048 ≤ q) (hu : q < b + 2048) : u = q :=
    (SeqNum.ofPos_eq (by omega) (by omega)).mp (h.restore.symm.trans hq)
  cases handleDataPacket_arrival h.spans hok with
  | ignored hign =>
    rcases hign with hst | hst | hcb | ⟨q, hq, hqe, hqu, hno⟩
    · rw [hc] at hst; cases hst
    · rw [hc] at hst; cases hst
    · simp at hcb
    · obtain rfl := huniq hq (by omega) hqu
      rcases hroom with hlt | ⟨hpc, hlt⟩
      · omega
      · rw [hpc] at hno
        simp only [Bool.false_eq_true, false_or] at hno
        omega
  | consumed q _ _ _ hq hl hlt =>
    obtain rfl := huniq hq hl (by omega)
    omega
  | accepted q b' _ _ _ _ hq hb hub _ ha =>
    obtain rfl := huniq hq (by omega) (by omega)
    obtain ⟨u', hw, -, -, hgt⟩ := h.accepted hb hub ha
    refine ⟨_, _, hok, ?_⟩
    have hus' := hw.spans.used
    have hle' := hw.le_end
    have hlt' := hgt rfl
    rw [hw.unack_eq, h.unack_eq, SeqNum.ofPos_gt (by omega) (by omega)]
    exact hlt'

private theorem Window.ok {r : Receiver n} {b u e : Int} (h : r.Window b u e)
    (hc : r.state = .connected) : r.WindowOk := by
  have hcap := capacity_le n
  have hus := h.spans.used
  have hbu := h.begin_le
  have hue := h.le_end
  have hne : r.unackSeq ≠ r.inRing.end_ → u < e := by
    intro hne
    rw [h.unack_eq, h.spans.end_eq, ne_eq, SeqNum.ofPos_eq (by omega) (by omega)] at hne
    omega
  refine ⟨?_, ?_, r.inRing.used_le, ?_, ?_, ⟨h.restore.trans h.unack_eq.symm, ?_⟩, ?_⟩
  · rw [h.spans.begin_eq, h.unack_eq, SeqNum.ofPos_le (by omega) (by omega)]
    exact hbu
  · rw [h.spans.end_eq, h.unack_eq, SeqNum.ofPos_le (by omega) (by omega)]
    exact hue
  · intro i hi
    have hd : (forwardDist r.unackSeq.raw r.inRing.begin_.raw : Int) = u - b := by
      rw [h.unack_eq, h.spans.begin_eq]
      exact forwardDist_wrap hbu (by omega)
    rw [h.spans.begin_eq, SeqNum.ofPos_add, getInBuffer_ofPos]
    exact h.received _ (by omega) (by omega)
  · intro hu
    rw [h.unack_eq, getInBuffer_ofPos]
    exact not_not.mp (h.gap (hne hu))
  · rw [h.spans.begin_eq, h.unack_eq, SeqNum.ofPos_lt (by omega) (by omega)]
    omega
  · intro payload isFinal hlen hroom
    refine h.advances hc hlen (hroom.imp hne fun ⟨hpc, hfree⟩ ↦ ⟨hpc, ?_⟩)
    have := h.spans.slotsFree_eq
    omega

private theorem window_step {r r' : Receiver n} {a : Act} {b u e : Int} (h : r.Window b u e)
    (hc : r.state = .connected) (hg : WindowGuard r a) (hs : r.step a = .ok r') :
    (∃ b' u' e', r'.Window b' u' e') ∧ r'.state = .connected := by
  have hlook := (r.look_sameLink.state (by rw [hc]; decide)).1.trans hc
  cases step_spec hs with
  | handled hh =>
    obtain ⟨b', u', e', hw, -⟩ := h.handleDataPacket hh
    exact ⟨⟨b', u', e', hw⟩, (handleDataPacket_same hh).1.trans hc⟩
  | read hh =>
    obtain ⟨b', hw, -⟩ := h.tryRead hg hh
    exact ⟨⟨b', u, e, hw⟩, ((tryRead_sameLink hh).state (by rw [hc]; decide)).1.trans hc⟩
  | peeked => exact ⟨⟨b, u, e, h.look⟩, hlook⟩
  | available => exact ⟨⟨b, u, e, h.look⟩, hlook⟩
  | sent => exact ⟨⟨b, u, e, h.congr rfl rfl rfl⟩, hc⟩
  | closed hh =>
    have hcap := capacity_le n
    have hus := h.spans.used
    have hbu := h.begin_le
    have hue := h.le_end
    have huend : u = e := by
      have hg' : r.unackSeq = r.inRing.end_ := hg
      rwa [h.unack_eq, h.spans.end_eq, SeqNum.ofPos_eq (by omega) (by omega)] at hg'
    subst huend
    obtain ⟨b', hw, -⟩ := h.markInputClosed hh
    exact ⟨⟨b', u, u, hw⟩, (markInputClosed_state hh).trans hc⟩

/-- In every run of a connection whose steps read with no stale cursor and close the input
only with nothing missing, the receive window is as `receiver.h` describes it. -/
theorem windowOk_of_reachable {r r0 s : Receiver n} {seq : SeqNum} {controlBit : Bool}
    (h0 : r.setConnected seq controlBit = .ok r0)
    (hr : Reachable step WindowGuard r0 s) : s.WindowOk := by
  obtain ⟨p, rfl⟩ : ∃ p, seq = .ofPos p := ⟨seq.raw.toNat, (SeqNum.ofPos_raw seq).symm⟩
  have hstart : (∃ b u e, r0.Window b u e) ∧ r0.state = .connected :=
    ⟨⟨p, p, p, window_setConnected h0⟩, setConnected_state h0⟩
  obtain ⟨⟨b, u, e, hw⟩, hc⟩ := hr.invariant
    (fun s ↦ (∃ b u e, s.Window b u e) ∧ s.state = .connected) hstart
    fun s a s' ⟨⟨b, u, e, hw⟩, hc⟩ hg hs ↦ window_step hw hc hg hs
  exact hw.ok hc

/-- A receiver of four slots, connected at sequence number zero. -/
def connectedAtZero : Receiver 2 := { Receiver.new 2 with myStreamId := 1, state := .connected }

/-- Two packets read in order meet the condition. -/
theorem windowOk_after_two_reads : ∃ s : Receiver 2,
    (Receiver.new 2).reconnect 1 ⟨0⟩ false = .ok connectedAtZero ∧
      Reachable step WindowGuard connectedAtZero s ∧ s.inRing.begin_ = ⟨2⟩ ∧ s.WindowOk := by
  obtain ⟨s, hs, ht⟩ := Reachable.of_test step WindowGuard connectedAtZero
    [.handleDataPacket true 1 [8] false, .handleDataPacket true 0 [7] false, .tryRead 2]
    (fun s ↦ s.inRing.begin_ = ⟨2⟩) (by decide) (by decide)
  have hc : { Receiver.new 2 with myStreamId := 1, state := .connecting }.setConnected ⟨0⟩ false =
      .ok connectedAtZero := rfl
  exact ⟨s, rfl, hs, of_decide_eq_true ht, windowOk_of_reachable hc hs⟩

/-- Closing the input pops a gap together with the packet behind it: the window then starts
past the oldest packet that was never received. -/
theorem markInputClosed_passes_gap : ∃ s : Receiver 2,
    (Receiver.new 2).reconnect 1 ⟨0⟩ false = .ok connectedAtZero ∧
      Reachable step anyStep connectedAtZero s ∧ s.inRing.begin_ = ⟨2⟩ ∧ s.unackSeq = ⟨0⟩ ∧
      ¬ s.WindowOk := by
  obtain ⟨s, hs, ht⟩ := Reachable.of_test step anyStep connectedAtZero
    [.handleDataPacket true 1 [8] false, .markInputClosed]
    (fun s ↦ s.inRing.begin_ = ⟨2⟩ ∧ s.unackSeq = ⟨0⟩) (meets_anyStep _ _ _) (by decide)
  obtain ⟨hb, hu⟩ := of_decide_eq_true ht
  refine ⟨s, rfl, hs, hb, hu, fun h ↦ ?_⟩
  have := h.begin_le
  rw [hb, hu] at this
  revert this
  decide

end Receiver

end RooTransport.Link
