import RooTransport.Link.ControlBit
import RooTransport.Link.DisconnectCallbacks
import RooTransport.Link.Handshake

/-!
# Cross-talk

`protocol.h:46–65`: a channel may hear its own packets. Data, acknowledgements and flow
control are told from those of the peer by the control bit, handshakes by the stream id and
the first sequence number of the send window. A channel is recorded here with all packets it
has sent since its last `connect`, and any of them comes back to it.
-/

namespace RooTransport.Link

open RooTransport.Base

namespace Channel

variable {m n : LinkBufferSize}

/-- What holds of a channel in a stream. The control bits of both halves are that of the
stream as soon as each is connected. -/
structure Paired (c : Channel m n) : Prop where
  transmitter : ∃ b e, c.transmitter.Marked b e
  receiver : c.receiver.state = .connecting ∨ c.receiver.state = .connected
  waiting : c.receiver.state = .connecting → c.myStreamIdAckedByPeer = false
  unacked : c.myStreamIdAckedByPeer = false → c.transmitter.state = .connecting
  opened : c.receiver.state = .connected →
    c.peerStreamId ≠ c.myStreamId ∧ c.receiver.controlBit = c.myControlBit
  acked : c.myStreamIdAckedByPeer = true → c.transmitter.controlBit = c.myControlBit

/-- The same stream, a step later: a peer that is known is not exchanged for another. -/
structure Continues (c c' : Channel m n) : Prop where
  stream : c'.myStreamId = c.myStreamId
  opened : c.receiver.state = .connected →
    c'.receiver.state = .connected ∧ c'.peerStreamId = c.peerStreamId
  acked : c.myStreamIdAckedByPeer = true →
    c'.myStreamIdAckedByPeer = true ∧ c'.peerStreamId = c.peerStreamId

-- A channel whose stream was acknowledged has opened its receiver before.
private theorem Paired.receiver_connected {c : Channel m n} (h : c.Paired)
    (hack : c.myStreamIdAckedByPeer = true) : c.receiver.state = .connected := by
  refine h.receiver.resolve_left fun hc ↦ ?_
  exact nomatch hack.symm.trans (h.waiting hc)

private theorem Continues.refl (c : Channel m n) : Continues c c :=
  ⟨rfl, fun h ↦ ⟨h, rfl⟩, fun h ↦ ⟨h, rfl⟩⟩

section

variable {c c' : Channel m n}

private theorem Paired.connect {id : { id : UInt32 // id ≠ 0 }} {draw : UInt32}
    {fn out : Option Callback} (h : c.connect id draw fn = .ok (c', out)) : c'.Paired := by
  obtain ⟨-, -, hack, htx, hrx, -⟩ := connect_spec h
  obtain ⟨t, ht, h⟩ := bind_eq_ok.mp h
  obtain ⟨r, -, h⟩ := bind_eq_ok.mp h
  cases h
  obtain ⟨b, hmarked⟩ := Transmitter.marked_init ht
  exact {
    transmitter := ⟨b, b, hmarked⟩
    receiver := .inl hrx
    waiting := fun _ ↦ hack
    unacked := fun _ ↦ htx
    opened := fun hst ↦ nomatch hrx.symm.trans hst
    acked := fun hyes ↦ nomatch hack.symm.trans hyes }

private theorem Paired.receiver_step (h : c.Paired) {r : Receiver n}
    (hst : r.state = c.receiver.state) (hbit : r.controlBit = c.receiver.controlBit) :
    ({ c with receiver := r } : Channel m n).Paired ∧ Continues c { c with receiver := r } := by
  refine ⟨{ h with
    receiver := by rw [hst]; exact h.receiver
    waiting := fun hc ↦ h.waiting (hst.symm.trans hc)
    opened := fun hc ↦ ?_ }, rfl, fun hc ↦ ⟨hst.trans hc, rfl⟩, fun hack ↦ ⟨hack, rfl⟩⟩
  obtain ⟨hpeer, hown⟩ := h.opened (hst.symm.trans hc)
  exact ⟨hpeer, hbit.trans hown⟩

private theorem Paired.transmitter_step (h : c.Paired) {a : Transmitter.Act} {t : Transmitter m}
    (ha : a.InStream) (ht : c.transmitter.step a = .ok t) :
    ({ c with transmitter := t } : Channel m n).Paired ∧
      Continues c { c with transmitter := t } := by
  obtain ⟨b, e, hmarked⟩ := h.transmitter
  exact ⟨{ h with
    transmitter := hmarked.step ha ht
    unacked := fun hack ↦ (Transmitter.step_connecting ha (h.unacked hack) ht).1
    acked := fun hack ↦ (Transmitter.step_inStream ha ht).2.trans (h.acked hack) },
    rfl, fun hst ↦ ⟨hst, rfl⟩, fun hack ↦ ⟨hack, rfl⟩⟩

private theorem Paired.hear (h : c.Paired) (hst : c.receiver.state = .connected)
    (hack : c.myStreamIdAckedByPeer = false) (size : Nat) (needsAck : Bool) :
    ({ c.acked size with needsHandshakeAck := needsAck } : Channel m n).Paired := by
  obtain ⟨b, e, hmarked⟩ := h.transmitter
  exact {
    transmitter := ⟨b, e, hmarked.setConnected (h.unacked hack) size c.myControlBit⟩
    receiver := h.receiver
    waiting := fun hc ↦ nomatch hst.symm.trans hc
    unacked := fun hno ↦ nomatch hno
    opened := h.opened
    acked := fun _ ↦ rfl }

private theorem Paired.open (h : c.Paired) {peer : UInt32} {r : Receiver n} (needsAck : Bool)
    (hold : c.receiver.state = .connecting) (hst : r.state = .connected)
    (hbit : r.controlBit = decide (peer < c.myStreamId)) (hne : peer ≠ c.myStreamId) :
    ({ c with
      peerStreamId := peer
      receiver := r
      needsHandshakeAck := needsAck } : Channel m n).Paired where
  transmitter := h.transmitter
  receiver := .inr hst
  waiting := fun hc ↦ nomatch hst.symm.trans hc
  unacked := h.unacked
  opened := fun _ ↦ ⟨hne, hbit⟩
  acked := fun hack ↦ nomatch (h.waiting hold).symm.trans hack

-- A handshake under our own stream id opens nothing.
private theorem same_of_ownId {h : Handshake} {ready : Bool} {fn : Option Callback}
    (hok : c.handleHandshakePacket h = .ok (c', ready, fn)) (hst : c.receiver.state = .connecting)
    (hid : h.peerStreamId = c.myStreamId) : c' = c ∨ c'.myStreamId = 0 := by
  unfold handleHandshakePacket at hok
  split at hok
  · cases hok
    exact .inl rfl
  rw [hst] at hok
  dsimp only at hok
  unfold handshakeConnecting at hok
  split at hok
  · cases hok
    exact .inl rfl
  · obtain ⟨t, -, hok⟩ := bind_eq_ok.mp hok
    cases hok
    exact .inr rfl

private theorem Paired.handshake (h : c.Paired) {hs : Handshake} {ready : Bool}
    {fn : Option Callback} (hok : c.handleHandshakePacket hs = .ok (c', ready, fn))
    (hid : c'.myStreamId ≠ 0) : c'.Paired ∧ Continues c c' := by
  have hpeer (hst : c.receiver.state = .connecting) (hst' : c'.receiver.state = .connected) :
      hs.peerStreamId ≠ c.myStreamId := fun heq ↦ by
    rcases same_of_ownId hok hst heq with rfl | h0
    · exact nomatch hst.symm.trans hst'
    · exact hid h0
  have hwait (hst : c.receiver.state = .connecting) {c1 : Channel m n}
      (hsame : c1.myStreamId = c.myStreamId) : Continues c c1 :=
    ⟨hsame, fun hc ↦ (nomatch hst.symm.trans hc),
      fun hack ↦ (nomatch (h.waiting hst).symm.trans hack)⟩
  cases handleHandshakePacket_spec hok with
  | ignored => exact ⟨h, .refl c⟩
  | noted => exact ⟨{ h with }, rfl, fun hst ↦ ⟨hst, rfl⟩, fun hack ↦ ⟨hack, rfl⟩⟩
  | aborted hst heq =>
    rcases same_of_ownId hok hst heq with rfl | h0
    · exact ⟨h, .refl _⟩
    · exact absurd h0 hid
  | broken => exact absurd rfl hid
  | opened r hst _ hst' hbit _ _ =>
    exact ⟨h.open _ hst hst' hbit (hpeer hst hst'), hwait hst rfl⟩
  | openedAcked r hst hst' hbit _ _ =>
    have hopen := h.open c.needsHandshakeAck hst hst' hbit (hpeer hst hst')
    exact ⟨hopen.hear hst' (h.waiting hst) _ _, hwait hst rfl⟩
  | acked hst _ _ hack =>
    exact ⟨h.hear hst hack _ _, rfl, fun hc ↦ ⟨hc, rfl⟩,
      fun hyes ↦ (nomatch hack.symm.trans hyes)⟩

/-- A step starts a stream or continues it, as long as it leaves one. -/
theorem Paired.step {a : Act} (h : c.myStreamId ≠ 0 → c.Paired) (hstep : c.step a = .ok c')
    (hid : c'.myStreamId ≠ 0) :
    c'.Paired ∧ ((∃ id draw fn, a = .connect id draw fn) ∨ c.myStreamId ≠ 0 ∧ Continues c c') := by
  have hspec := step_spec c a
  rw [hstep] at hspec
  generalize hout : (Except.ok c' : Except Check (Channel m n)) = out at hspec
  cases hspec with
  | noted needsAck retries update =>
    cases hout
    have hp := h hid
    exact ⟨{ hp with }, .inr ⟨hid, rfl, fun hst ↦ ⟨hst, rfl⟩, fun hack ↦ ⟨hack, rfl⟩⟩⟩
  | receiver call _ =>
    obtain ⟨r, hr, rfl⟩ := map_eq_ok.mp hout.symm
    have hp := h hid
    have hnot : c.receiver.state ≠ .broken := by
      rcases hp.receiver with hst | hst
      · rw [hst]; decide
      · rw [hst]; decide
    obtain ⟨hst, hbit⟩ := Receiver.step_same hnot hr
    obtain ⟨hp', hc⟩ := hp.receiver_step hst hbit
    exact ⟨hp', .inr ⟨hid, hc⟩⟩
  | transmitter call hcall =>
    obtain ⟨t, ht, rfl⟩ := map_eq_ok.mp hout.symm
    obtain ⟨hp', hc⟩ := (h hid).transmitter_step hcall ht
    exact ⟨hp', .inr ⟨hid, hc⟩⟩
  | connect id draw fn ha =>
    obtain ⟨⟨c1, out⟩, hc, rfl⟩ := map_eq_ok.mp hout.symm
    exact ⟨.connect hc, .inl ⟨id, draw, fn, ha⟩⟩
  | disconnect id =>
    obtain ⟨⟨c1, out⟩, hc, rfl⟩ := map_eq_ok.mp hout.symm
    rcases disconnect_spec hc with rfl | ⟨t, r, -, -, rfl⟩
    · exact ⟨h hid, .inr ⟨hid, .refl _⟩⟩
    · exact absurd rfl hid
  | handshake buf hs _ _ _ _ =>
    obtain ⟨⟨c1, ready, fn⟩, hc, rfl⟩ := map_eq_ok.mp hout.symm
    have hold : c.myStreamId ≠ 0 := by
      rcases handleHandshakePacket_callback hc with ⟨heq, -⟩ | ⟨-, h0, -⟩
      · rw [← heq]
        exact hid
      · exact absurd h0 hid
    obtain ⟨hp', hcont⟩ := (h hold).handshake hc hid
    exact ⟨hp', .inr ⟨hold, hcont⟩⟩

end

/-- The packet that a step hands to the packet sender, none for no bytes. -/
def packet (c : Channel m n) : Act → List UInt8
  | .conn now draw next => (c.conn now draw next).2.1
  | .sendAck => c.receiver.ack.2
  | .sendHimark now next => (c.receiver.updateRecvHimark now next).2.1
  | .send now draw next => (c.transmitter.send now draw next).2.1
  | _ => []

/-- No packet is asked for while `out_ring_` is empty and yet contains `next_to_send_`. -/
def SendsQueued (c : Channel m n) : Act → Prop
  | .send _ _ _ => ¬ (c.transmitter.outRing.empty = true ∧
      c.transmitter.outRing.contains c.transmitter.nextToSend = true)
  | _ => True

instance (c : Channel m n) (a : Act) : Decidable (c.SendsQueued a) :=
  match a with
  | .send _ _ _ => inferInstanceAs (Decidable (¬ (_ ∧ _)))
  | .connect _ _ _ | .disconnect _ | .read _ _ | .readTurn _ _ | .tryRead _ _ | .peek _
  | .availableForRead _ | .closeInput _ | .write _ _ | .writeTurn _ _ | .tryWrite _ _ | .flush _
  | .close _ | .conn _ _ _ | .sendAck | .sendHimark _ _ | .packetReceived _ => .isTrue trivial

/-- What a packet sent in the current stream is. -/
inductive Own (c : Channel m n) : List UInt8 → Prop
  | handshake (front : SeqNum) (ackStreamId : UInt32) (wantAck : Bool) :
      Own c (formatHandshake front c.myStreamId ackStreamId wantAck n)
  | final {p : List UInt8} : 2 ≤ p.length → p.length ≤ 250 →
      getPacketType (loadBeU16 p) = some .fin → Own c p
  | data {p : List UInt8} : c.myStreamIdAckedByPeer = true →
      getPacketType (loadBeU16 p) = some .data →
      getPacketControlBit (loadBeU16 p) = c.myControlBit → Own c p
  | control {p : List UInt8} : c.receiver.state = .connected →
      getPacketType (loadBeU16 p) = some .dataAck ∨
        getPacketType (loadBeU16 p) = some .flowControl →
      getPacketControlBit (loadBeU16 p) = c.myControlBit → Own c p

section

variable {c c' : Channel m n} {p : List UInt8}

private theorem Own.continues (h : c.Own p) (hc : Continues c c') : c'.Own p := by
  have hbit (hpeer : c'.peerStreamId = c.peerStreamId) : c'.myControlBit = c.myControlBit := by
    rw [myControlBit, hc.stream, hpeer, myControlBit]
  cases h with
  | handshake front ackStreamId wantAck =>
    rw [← hc.stream]
    exact .handshake front ackStreamId wantAck
  | final hlo hhi ht => exact .final hlo hhi ht
  | data hack ht hown =>
    obtain ⟨hack', hpeer⟩ := hc.acked hack
    exact .data hack' ht (hown.trans (hbit hpeer).symm)
  | control hst ht hown =>
    obtain ⟨hst', hpeer⟩ := hc.opened hst
    exact .control hst' ht (hown.trans (hbit hpeer).symm)

private theorem Paired.ack_own (h : c.Paired) (hne : c.receiver.ack.2 ≠ []) :
    c.Own c.receiver.ack.2 := by
  unfold Receiver.ack at hne ⊢
  split at hne
  · exact absurd rfl hne
  next hdue =>
  rw [if_neg hdue]
  dsimp only
  rw [not_or, not_and_or] at hdue
  have hst : c.receiver.state = .connected := by
    rcases h.receiver with hst | hst
    · simp [hst] at hdue
    · exact hst
  refine .control hst (.inl ?_) ?_
  · rw [loadBeU16_store, getPacketType_format]
  · rw [loadBeU16_store, getPacketControlBit_format]
    exact (h.opened hst).2

private theorem Paired.himark_own (h : c.Paired) {now : Uptime} {next : Nat}
    (hne : (c.receiver.updateRecvHimark now next).2.1 ≠ []) :
    c.Own (c.receiver.updateRecvHimark now next).2.1 := by
  unfold Receiver.updateRecvHimark at hne ⊢
  split at hne
  · exact absurd rfl hne
  next hst =>
  split at hne
  · exact absurd rfl hne
  next hdue =>
  rw [if_neg hst, if_neg hdue]
  dsimp only
  rw [not_or] at hst
  have hconn : c.receiver.state = .connected := h.receiver.resolve_left hst.1
  rw [← List.append_nil (storeBeU16 _)]
  refine .control hconn (.inr ?_) ?_
  · rw [loadBeU16_store, getPacketType_format]
  · rw [loadBeU16_store, getPacketControlBit_format]
    exact (h.opened hconn).2

private theorem Paired.send_own (h : c.Paired) {now : Uptime} {draw next : Nat}
    (hg : c.SendsQueued (.send now draw next))
    (hne : (c.transmitter.send now draw next).2.1 ≠ []) :
    c.Own (c.transmitter.send now draw next).2.1 := by
  obtain ⟨b, e, hmarked⟩ := h.transmitter
  obtain ⟨hst, x, ⟨hlen, hkind⟩, hx⟩ := hmarked.send hg hne
  have hack : c.myStreamIdAckedByPeer = true := by
    by_contra hno
    exact nomatch hst.symm.trans (h.unacked (by simpa using hno))
  rw [hx, OutBuffer.data]
  have hsize : (storeBeU16 x.header ++ x.payload).length = 2 + x.payload.length := by
    rw [List.length_append, storeBeU16, length_beBytes]
  rcases hkind with hfin | ⟨hdata, hbit, -⟩
  · refine .final (by omega) (by omega) ?_
    rw [loadBeU16_store]
    exact hfin
  · refine .data hack ?_ ?_
    · rw [loadBeU16_store]
      exact hdata
    · rw [loadBeU16_store, hbit]
      exact h.acked hack

/-- What a step sends is of one of the kinds listed. -/
theorem Paired.packet_own (h : c.Paired) {a : Act} (hg : c.SendsQueued a)
    (hne : c.packet a ≠ []) : c.Own (c.packet a) := by
  cases a with
  | conn now draw next =>
    rw [packet] at hne ⊢
    rw [(conn_packet c now draw next hne).2]
    exact .handshake _ _ _
  | sendAck => exact h.ack_own hne
  | sendHimark now next => exact h.himark_own hne
  | send now draw next => exact h.send_own hg hne
  | _ => exact absurd rfl hne

end

/-! ### Echoes -/

/-- `channel.cpp:363–371` and `419–468`: a handshake under our own stream id changes nothing of
a connected channel if it carries the present front of the send window. Else it must not look
like the first one of a new stream, and ask for an acknowledgement only if one is due. -/
def IgnoresHandshake (c : Channel m n) (h : Handshake) : Prop :=
  h.peerSeqNum = c.transmitter.outRing.begin_.raw ∨
    ¬ (h.wantAck = true ∧ h.ackStreamId = 0) ∧ c.needsHandshakeAck = h.wantAck

instance (c : Channel m n) (h : Handshake) : Decidable (c.IgnoresHandshake h) :=
  inferInstanceAs (Decidable (_ ∨ _ ∧ _))

/-- The packets of its own that a connected channel does not react to. -/
def IgnoresEcho (c : Channel m n) (p : List UInt8) : Prop :=
  (getPacketType (loadBeU16 p) = some .handshake →
    ∀ h ∈ parseHandshake p, c.IgnoresHandshake h) ∧
  (getPacketType (loadBeU16 p) = some .fin →
    getPacketControlBit (loadBeU16 p) = c.receiver.controlBit ∨
      c.receiver.IgnoresFin (getPacketSeq (loadBeU16 p)))

instance (c : Channel m n) (p : List UInt8) : Decidable (c.IgnoresEcho p) :=
  inferInstanceAs (Decidable ((_ → _) ∧ (_ → _)))

section

variable {c c' : Channel m n} {p : List UInt8}

private theorem handleHandshakePacket_iff (h : c.Paired) (hid : c.myStreamId ≠ 0)
    (hack : c.myStreamIdAckedByPeer = true) {hs : Handshake}
    (hown : hs.peerStreamId = c.myStreamId) :
    (∃ ready, c.handleHandshakePacket hs = .ok (c, ready, none)) ↔ c.IgnoresHandshake hs := by
  have hst := h.receiver_connected hack
  have hne : c.peerStreamId ≠ hs.peerStreamId := by
    rw [hown]
    exact (h.opened hst).1
  unfold handleHandshakePacket IgnoresHandshake
  by_cases hfront : hs.peerSeqNum = c.transmitter.outRing.begin_.raw
  · rw [if_pos ⟨hown, hfront⟩]
    exact ⟨fun _ ↦ .inl hfront, fun _ ↦ ⟨false, rfl⟩⟩
  rw [if_neg fun hecho ↦ hfront hecho.2, hst]
  dsimp only
  unfold handshakeConnected
  by_cases hnew : hs.wantAck = true ∧ hs.ackStreamId = 0
  · rw [if_pos ⟨hnew.1, hne, hnew.2⟩]
    exact ⟨fun ⟨_, hok⟩ ↦ absurd (peerReconnected_callback hok).1 hid,
      fun hor ↦ absurd hnew (hor.resolve_left hfront).1⟩
  · have hfirst : ¬ (hs.ackStreamId = c.myStreamId ∧ c.myStreamIdAckedByPeer = false) :=
      fun hf ↦ nomatch hack.symm.trans hf.2
    rw [if_neg fun hbreak ↦ hnew ⟨hbreak.1, hbreak.2.2⟩, if_neg hfirst]
    constructor
    · rintro ⟨ready, hok⟩
      refine .inr ⟨hnew, ?_⟩
      exact (congrArg (fun out ↦ out.1.needsHandshakeAck) (Except.ok.inj hok)).symm
    · intro hor
      refine ⟨false, ?_⟩
      rw [← (hor.resolve_left hfront).2]

private theorem handleDataPacket_own (r : Receiver n) (seqId : BitVec 16) (payload : List UInt8)
    (isFinal : Bool) :
    r.handleDataPacket r.controlBit seqId payload isFinal = .ok (r, false, false) := by
  unfold Receiver.handleDataPacket
  split
  · rfl
  · rw [if_pos rfl]

private theorem ack_own (t : Transmitter m) (seqId : BitVec 16) (bitmap : List UInt8) :
    t.ack t.controlBit seqId bitmap = .ok (t, false) := by
  unfold Transmitter.ack
  split
  · rfl
  · rw [if_pos rfl]

private theorem himark_own (t : Transmitter m) (himark : BitVec 16) :
    t.updateRecvHimark t.controlBit himark = (t, false) := by
  unfold Transmitter.updateRecvHimark
  split
  · rfl
  · rw [if_pos rfl]

private theorem packetReceived_data
    (ht : getPacketType (loadBeU16 p) = some .data)
    (hbit : getPacketControlBit (loadBeU16 p) = c.receiver.controlBit) :
    c.packetReceived p = .ok (c, false, none) := by
  unfold packetReceived
  split
  · rfl
  dsimp only
  rw [ht]
  dsimp only
  split
  · rfl
  · rw [hbit, handleDataPacket_own]
    rfl

private theorem packetReceived_control
    (ht : getPacketType (loadBeU16 p) = some .dataAck ∨
      getPacketType (loadBeU16 p) = some .flowControl)
    (hbit : getPacketControlBit (loadBeU16 p) = c.transmitter.controlBit) :
    c.packetReceived p = .ok (c, false, none) := by
  unfold packetReceived
  split
  · rfl
  dsimp only
  rcases ht with ht | ht
  · rw [ht, hbit]
    dsimp only
    rw [ack_own]
    rfl
  · rw [ht, hbit]
    dsimp only
    rw [himark_own]
    split
    · rfl
    · rfl

private theorem packetReceived_fin_iff (hlo : 2 ≤ p.length) (hhi : p.length ≤ 250)
    (ht : getPacketType (loadBeU16 p) = some .fin) (hst : c.receiver.state = .connected) :
    (∃ ready, c.packetReceived p = .ok (c, ready, none)) ↔
      getPacketControlBit (loadBeU16 p) = c.receiver.controlBit ∨
        c.receiver.IgnoresFin (getPacketSeq (loadBeU16 p)) := by
  have hrecv : c.packetReceived p =
      (c.receiver.handleDataPacket (getPacketControlBit (loadBeU16 p))
        (getPacketSeq (loadBeU16 p)) (p.drop 2) true).map
          fun out ↦ ({ c with receiver := out.1 }, out.2.1, none) := by
    unfold packetReceived
    rw [if_neg (by omega)]
    dsimp only
    rw [ht]
    dsimp only
    cases c.receiver.handleDataPacket _ _ _ _ with
    | error => rfl
    | ok => rfl
  rw [hrecv]
  by_cases hbit : getPacketControlBit (loadBeU16 p) = c.receiver.controlBit
  · rw [hbit, handleDataPacket_own]
    exact ⟨fun _ ↦ .inl rfl, fun _ ↦ ⟨false, rfl⟩⟩
  · rw [or_iff_right hbit, ← Receiver.handleDataPacket_fin_iff hst hbit]
    constructor
    · rintro ⟨ready, hok⟩
      obtain ⟨⟨r, ack, new⟩, hdata, heq⟩ := map_eq_ok.mp hok
      obtain rfl : r = c.receiver := congrArg (fun out ↦ out.1.receiver) heq
      exact ⟨ack, new, hdata⟩
    · rintro ⟨ack, new, hdata⟩
      rw [hdata]
      exact ⟨ack, rfl⟩

/-- A handshake packet says that it is one. -/
theorem getPacketType_formatHandshake (front : SeqNum) (id ackStreamId : UInt32)
    (wantAck : Bool) :
    getPacketType (loadBeU16 (formatHandshake front id ackStreamId wantAck n)) =
      some .handshake := by
  simp [formatHandshake]

private theorem packetReceived_handshake_iff (h : c.Paired) (hid : c.myStreamId ≠ 0)
    (hack : c.myStreamIdAckedByPeer = true) (front : SeqNum) (ackStreamId : UInt32)
    (wantAck : Bool) :
    (∃ ready, c.packetReceived (formatHandshake front c.myStreamId ackStreamId wantAck n) =
        .ok (c, ready, none)) ↔
      ∀ hs ∈ parseHandshake (formatHandshake front c.myStreamId ackStreamId wantAck n),
        c.IgnoresHandshake hs := by
  have hlen : (formatHandshake front c.myStreamId ackStreamId wantAck n).length = 11 := by
    simp [formatHandshake, storeBeU16]
  unfold packetReceived
  rw [if_neg (by omega)]
  dsimp only
  rw [getPacketType_formatHandshake]
  dsimp only
  rw [parseHandshake_format]
  simp only [Option.mem_some_iff, forall_eq']
  exact handleHandshakePacket_iff h hid hack rfl

end

/-- A channel and the packets it has sent since its last `connect`. -/
structure Talk (m n : LinkBufferSize) where
  channel : Channel m n
  sent : List (List UInt8)

namespace Talk

/-- A new channel, which has sent nothing. -/
def new (m n : LinkBufferSize) : Talk m n := ⟨.new m n, []⟩

/-- A call on the channel, and the packet that it sends. -/
def step (s : Talk m n) (a : Act) : Except Check (Talk m n) :=
  (s.channel.step a).map fun c ↦
    { channel := c
      sent :=
        match a with
        | .connect _ _ _ => []
        | _ => s.sent ++ [s.channel.packet a].filter (· ≠ []) }

/-- What `Channel.SendsQueued` asks of the channel. -/
def SendsQueued (s : Talk m n) (a : Act) : Prop := s.channel.SendsQueued a

instance (s : Talk m n) (a : Act) : Decidable (s.SendsQueued a) :=
  inferInstanceAs (Decidable (Channel.SendsQueued _ _))

variable {s s' : Talk m n}

private theorem mem_sent {a : Act} (h : s.step a = .ok s') {p : List UInt8} (hp : p ∈ s'.sent) :
    p ∈ s.sent ∨ p = s.channel.packet a ∧ p ≠ [] := by
  obtain ⟨c, -, rfl⟩ := map_eq_ok.mp h
  dsimp only at hp
  split at hp
  · cases hp
  · rw [List.mem_append, List.mem_filter, List.mem_singleton, decide_eq_true_iff] at hp
    exact hp

private theorem sent_connect {id : { id : UInt32 // id ≠ 0 }} {draw : UInt32}
    {fn : Option Callback} (h : s.step (.connect id draw fn) = .ok s') : s'.sent = [] := by
  obtain ⟨c, -, rfl⟩ := map_eq_ok.mp h
  rfl

/-- In a stream, every packet sent is one of its own. -/
theorem own_of_reachable (h : Reachable step SendsQueued (new m n) s)
    (hid : s.channel.myStreamId ≠ 0) :
    s.channel.Paired ∧ ∀ p ∈ s.sent, s.channel.Own p := by
  refine h.invariant (fun s ↦ s.channel.myStreamId ≠ 0 →
    s.channel.Paired ∧ ∀ p ∈ s.sent, s.channel.Own p) (fun h0 ↦ absurd rfl h0) ?_ hid
  intro s a s' hs hg hstep hid'
  obtain ⟨c, hc, heq⟩ := map_eq_ok.mp hstep
  have hchannel : s'.channel = c := by rw [← heq]
  rw [hchannel] at hid' ⊢
  obtain ⟨hp, ⟨id, draw, fn, rfl⟩ | ⟨hold, hcont⟩⟩ := Paired.step (fun h0 ↦ (hs h0).1) hc hid'
  · refine ⟨hp, fun p hmem ↦ ?_⟩
    rw [sent_connect hstep] at hmem
    cases hmem
  · obtain ⟨hpaired, hown⟩ := hs hold
    refine ⟨hp, fun p hmem ↦ Own.continues ?_ hcont⟩
    rcases mem_sent hstep hmem with hmem | ⟨rfl, hne⟩
    · exact hown p hmem
    · exact hpaired.packet_own hg hne

/-- A connected channel is left as it is by a packet of its own that comes back exactly if it
is none of the two kinds of packets that the code takes for the peer's. -/
theorem echo_ignored_iff (h : Reachable step SendsQueued (new m n) s)
    (hconn : s.channel.getLinkStatus s.channel.myStreamId = .connected) {p : List UInt8}
    (hp : p ∈ s.sent) :
    (∃ ready, s.channel.packetReceived p = .ok (s.channel, ready, none)) ↔
      s.channel.IgnoresEcho p := by
  have hid : s.channel.myStreamId ≠ 0 := fun h0 ↦ by simp [getLinkStatus, h0] at hconn
  have hack : s.channel.myStreamIdAckedByPeer = true := by
    by_contra hno
    simp [getLinkStatus, hid, hno] at hconn
  obtain ⟨hpaired, hown⟩ := own_of_reachable h hid
  have hst := hpaired.receiver_connected hack
  have hother (ht : getPacketType (loadBeU16 p) ≠ some .handshake)
      (ht' : getPacketType (loadBeU16 p) ≠ some .fin)
      (hok : s.channel.packetReceived p = .ok (s.channel, false, none)) :
      (∃ ready, s.channel.packetReceived p = .ok (s.channel, ready, none)) ↔
        s.channel.IgnoresEcho p :=
    ⟨fun _ ↦ ⟨fun hc ↦ absurd hc ht, fun hc ↦ absurd hc ht'⟩, fun _ ↦ ⟨false, hok⟩⟩
  cases hown p hp with
  | handshake front ackStreamId wantAck =>
    rw [packetReceived_handshake_iff hpaired hid hack, IgnoresEcho, getPacketType_formatHandshake]
    simp
  | final hlo hhi ht =>
    rw [packetReceived_fin_iff hlo hhi ht hst, IgnoresEcho]
    simp [ht]
  | data _ ht hbit =>
    exact hother (by simp [ht]) (by simp [ht])
      (packetReceived_data ht (hbit.trans (hpaired.opened hst).2.symm))
  | control _ ht hbit =>
    refine hother ?_ ?_ (packetReceived_control ht (hbit.trans (hpaired.acked hack).symm))
    · rcases ht with ht | ht <;> simp [ht]
    · rcases ht with ht | ht <;> simp [ht]

/-- Right after the handshake, the first packet of it is recognised. -/
theorem echo_ignored_at_first : ∃ s : Talk 2 2, Reachable step SendsQueued (new 2 2) s ∧
    s.channel.getLinkStatus s.channel.myStreamId = .connected ∧
    [0x30, 0, 0, 0, 0, 7, 0, 0, 0, 0, 0x82] ∈ s.sent ∧
    ∃ ready, s.channel.packetReceived [0x30, 0, 0, 0, 0, 7, 0, 0, 0, 0, 0x82] =
      .ok (s.channel, ready, none) := by
  obtain ⟨s, hr, ht⟩ := Reachable.of_test step SendsQueued (new 2 2)
    [.connect ⟨7, by decide⟩ 0 none, .conn 0 0 0,
      .packetReceived [0x30, 0, 0, 0, 0, 9, 0, 0, 0, 7, 0x02]]
    (fun s ↦ s.channel.getLinkStatus s.channel.myStreamId = .connected ∧
      [0x30, 0, 0, 0, 0, 7, 0, 0, 0, 0, 0x82] ∈ s.sent ∧
      s.channel.IgnoresEcho [0x30, 0, 0, 0, 0, 7, 0, 0, 0, 0, 0x82])
    (by decide +kernel) (by decide +kernel)
  obtain ⟨hconn, hp, hignores⟩ := of_decide_eq_true ht
  exact ⟨s, hr, hconn, hp, (echo_ignored_iff hr hconn hp).mpr hignores⟩

/-- After a packet was acknowledged, the first packet of the handshake ends the connection when
it comes back, and its callback is run. The final packet of a stream that was closed while
connecting closes the input. -/
theorem echo_taken_for_peer :
    (∃ s : Talk 2 2, Reachable step SendsQueued (new 2 2) s ∧
      s.channel.getLinkStatus s.channel.myStreamId = .connected ∧ ∃ p ∈ s.sent,
      (s.channel.packetReceived p).toOption.map (fun out ↦ (out.1.myStreamId, out.2.2)) =
        some (0, some 5)) ∧
    ∃ s : Talk 2 2, Reachable step SendsQueued (new 2 2) s ∧
      s.channel.getLinkStatus s.channel.myStreamId = .connected ∧
      s.channel.receiver.peerClosed = false ∧ ∃ p ∈ s.sent,
      (s.channel.packetReceived p).toOption.map (fun out ↦ out.1.receiver.peerClosed) =
        some true := by
  constructor
  · obtain ⟨s, hr, ht⟩ := Reachable.of_test step SendsQueued (new 2 2)
      [.connect ⟨7, by decide⟩ 0 (some 5), .conn 0 0 0,
        .packetReceived [0x30, 0, 0, 0, 0, 9, 0, 0, 0, 7, 0x02],
        .tryWrite [1] 7, .flush 7, .send 0 0 0, .packetReceived [0xA0, 1]]
      (fun s ↦ s.channel.getLinkStatus s.channel.myStreamId = .connected ∧ ∃ p ∈ s.sent,
        (s.channel.packetReceived p).toOption.map (fun out ↦ (out.1.myStreamId, out.2.2)) =
          some (0, some 5))
      (by decide +kernel) (by decide +kernel)
    exact ⟨s, hr, of_decide_eq_true ht⟩
  · obtain ⟨s, hr, ht⟩ := Reachable.of_test step SendsQueued (new 2 2)
      [.connect ⟨9, by decide⟩ 0 none, .close 9,
        .packetReceived [0x30, 0, 0, 0, 0, 7, 0, 0, 0, 9, 0x02], .send 0 0 0]
      (fun s ↦ s.channel.getLinkStatus s.channel.myStreamId = .connected ∧
        s.channel.receiver.peerClosed = false ∧ ∃ p ∈ s.sent,
        (s.channel.packetReceived p).toOption.map (fun out ↦ out.1.receiver.peerClosed) =
          some true)
      (by decide +kernel) (by decide +kernel)
    exact ⟨s, hr, of_decide_eq_true ht⟩

end Talk

end Channel

end RooTransport.Link
