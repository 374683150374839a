import RooTransport.Link.ChannelChecks

/-!
# Handshakes between two channels

Two channels that connect and reconnect at will, with the handshake packets of
`channel.cpp:297–345` travelling between them in order, as far as they are not lost. Each
connection attempt is an incarnation with a stream id of its own. A channel is connected
once its receiver was opened by a packet of the peer and its stream was acknowledged by
one; whether both came from the same incarnation of the peer is what the handshake has to
settle.
-/

namespace RooTransport.Link

open RooTransport.Base RingBuffer

namespace Channel

variable {m n : LinkBufferSize}

/-- Everything a handshake packet can do to a channel. -/
inductive Shaken (c : Channel m n) (h : Handshake) : Channel m n → Prop
  | ignored : Shaken c h c
  | noted : Shaken c h { c with needsHandshakeAck := h.wantAck }
  /-- Both ends have the same stream id. -/
  | aborted {c' : Channel m n} : c.receiver.state = .connecting →
      h.peerStreamId = c.myStreamId → Shaken c h c'
  /-- The peer has opened another stream. -/
  | broken (t : Transmitter m) (r : Receiver n) : c.receiver.state = .connected →
      t.state = .idle ∨ t.state = .broken → r.state = .idle ∨ r.state = .connected →
      Shaken c h { c with transmitter := t, receiver := r, myStreamId := 0, disconnectFn := none }
  | opened (r : Receiver n) : c.receiver.state = .connecting →
      h.ackStreamId = 0 ∨ h.ackStreamId = c.myStreamId → r.state = .connected →
      r.controlBit = decide (h.peerStreamId < c.myStreamId) →
      r.inRing.begin_ = ⟨h.peerSeqNum⟩ → h.ackStreamId ≠ c.myStreamId →
      Shaken c h { c with
        peerStreamId := h.peerStreamId
        receiver := r
        needsHandshakeAck := h.wantAck }
  | openedAcked (r : Receiver n) : c.receiver.state = .connecting → r.state = .connected →
      r.controlBit = decide (h.peerStreamId < c.myStreamId) →
      r.inRing.begin_ = ⟨h.peerSeqNum⟩ → h.ackStreamId = c.myStreamId →
      Shaken c h { ({ c with peerStreamId := h.peerStreamId, receiver := r } : Channel m n).acked
        h.peerReceiveBufferSize with needsHandshakeAck := h.wantAck }
  | acked : c.receiver.state = .connected → h.ackStreamId = c.myStreamId → c.myStreamId ≠ 0 →
      c.myStreamIdAckedByPeer = false →
      Shaken c h { c.acked h.peerReceiveBufferSize with needsHandshakeAck := h.wantAck }

section

variable {c c' : Channel m n} {h : Handshake} {ready : Bool} {fn : Option Callback}

private theorem setConnected_spec {r r' : Receiver n} {seq : SeqNum} {controlBit : Bool}
    (hr : r.setConnected seq controlBit = .ok r') :
    r'.state = .connected ∧ r'.controlBit = controlBit ∧ r'.inRing.begin_ = seq := by
  unfold Receiver.setConnected at hr
  split at hr
  · cases hring : r.inRing.reset seq with
    | error c => rw [hring] at hr; cases hr
    | ok ring =>
      rw [hring] at hr
      cases hr
      unfold RingBuffer.reset at hring
      split at hring
      · cases hring; exact ⟨rfl, rfl, rfl⟩
      · cases hring
  · cases hr

private theorem handshakeConnecting_spec (hst : c.receiver.state = .connecting)
    (hh : c.handshakeConnecting h = .ok (c', ready, fn)) : Shaken c h c' := by
  unfold handshakeConnecting at hh
  split at hh
  · cases hh; exact .ignored
  next hack =>
  split at hh
  · next hid => exact .aborted hst hid
  dsimp only at hh
  split at hh
  · cases hh
  obtain ⟨r, hr, hh⟩ := bind_eq_ok.mp hh
  obtain ⟨hst', hbit, hseq⟩ := setConnected_spec hr
  split at hh
  · next heq =>
    cases hh
    exact .openedAcked r hst hst' hbit hseq heq
  · next hne =>
    cases hh
    refine .opened r hst ?_ hst' hbit hseq hne
    by_contra hno
    rw [not_or] at hno
    exact hack hno

private theorem reset_state {t t' : Transmitter m} (hr : t.reset = .ok t') : t'.state = .idle := by
  obtain ⟨b, e, hs⟩ := t.outRing.exists_spans
  obtain ⟨t1, hr1, hm⟩ := Transmitter.reset_ok hs
  obtain rfl : t1 = t' := Except.ok.inj (hr1.symm.trans hr)
  cases hm with
  | reset => rfl

private theorem breakTransmitter_state {t t' : Transmitter m} (hb : breakTransmitter t = .ok t') :
    t'.state = .idle ∨ t'.state = .broken := by
  unfold breakTransmitter at hb
  split at hb
  · obtain ⟨b, e, hs⟩ := t.outRing.exists_spans
    rw [Transmitter.setBroken_ok hs] at hb
    cases hb
    exact .inr rfl
  · exact .inl (reset_state hb)

private theorem receiver_reset_state {r r' : Receiver n} (hr : r.reset = .ok r') :
    r'.state = .idle := by
  obtain ⟨b, e, hs⟩ := r.inRing.exists_spans
  obtain ⟨r1, hr1, -, hst⟩ := Receiver.reset_ok hs
  obtain rfl : r1 = r' := Except.ok.inj (hr1.symm.trans hr)
  exact hst

private theorem peerReconnected_spec (hst : c.receiver.state = .connected)
    (hh : c.peerReconnected = .ok (c', ready, fn)) : Shaken c h c' := by
  unfold peerReconnected at hh
  split at hh
  · obtain ⟨t, ht, hh⟩ := bind_eq_ok.mp hh
    cases hh
    refine .broken t _ hst (breakTransmitter_state ht) ?_
    unfold Receiver.setBroken
    split
    · exact .inl rfl
    · exact .inr hst
  · obtain ⟨t, ht, hh⟩ := bind_eq_ok.mp hh
    obtain ⟨r, hr, hh⟩ := bind_eq_ok.mp hh
    cases hh
    exact .broken t r hst (.inl (reset_state ht)) (.inl (receiver_reset_state hr))

/-- A handshake packet that fails no check does one of the things listed. -/
theorem handleHandshakePacket_spec (hh : c.handleHandshakePacket h = .ok (c', ready, fn)) :
    Shaken c h c' := by
  unfold handleHandshakePacket at hh
  split at hh
  · cases hh; exact .ignored
  split at hh
  · next hst => exact handshakeConnecting_spec hst hh
  · next hst =>
    unfold handshakeConnected at hh
    split at hh
    · exact peerReconnected_spec hst hh
    split at hh
    · next hack =>
      split at hh
      · cases hh
      · next hid => cases hh; exact .acked hst hack.1 hid hack.2
    · cases hh; exact .noted
  · cases hh; exact .ignored
  · cases hh; exact .ignored

/-- `conn` changes nothing but what it notes about having sent. -/
theorem conn_fst (c : Channel m n) (now : Uptime) (draw next : Nat) :
    ∃ needsAck retries update, (c.conn now draw next).1 = { c with
      needsHandshakeAck := needsAck
      successiveHandshakeRetries := retries
      nextScheduledHandshakeUpdate := update } := by
  unfold conn
  split
  · exact ⟨_, _, _, rfl⟩
  · exact ⟨_, _, _, rfl⟩
  · split
    · exact ⟨_, _, _, rfl⟩
    · exact ⟨_, _, _, rfl⟩
  · split
    · exact ⟨_, _, _, rfl⟩
    · exact ⟨_, _, _, rfl⟩

/-- A packet is sent by a stream that is connecting or connected, and says which. -/
theorem conn_packet (c : Channel m n) (now : Uptime) (draw next : Nat)
    (hne : (c.conn now draw next).2.1 ≠ []) :
    (c.transmitter.state = .connecting ∨ c.transmitter.state = .connected) ∧
      (c.conn now draw next).2.1 = formatHandshake c.transmitter.outRing.begin_ c.myStreamId
        c.peerStreamId (c.transmitter.state ≠ .connected) n := by
  unfold conn at hne ⊢
  split at hne
  · exact absurd rfl hne
  · exact absurd rfl hne
  · next hst =>
    split at hne
    · exact absurd rfl hne
    · next hack =>
      simp only [hst, if_neg hack]
      exact ⟨.inr trivial, by rw [sendHandshake, hst]⟩
  · next hst =>
    split at hne
    · exact absurd rfl hne
    · next hdue =>
      simp only [hst, if_neg hdue]
      exact ⟨.inl trivial, by rw [sendHandshake, hst]⟩

/-- What `connect` leaves. -/
theorem connect_spec {c c' : Channel m n} {id : { id : UInt32 // id ≠ 0 }} {draw : UInt32}
    {fn out : Option Callback} (h : c.connect id draw fn = .ok (c', out)) :
    c'.myStreamId = id ∧ c'.peerStreamId = 0 ∧ c'.myStreamIdAckedByPeer = false ∧
      c'.transmitter.state = .connecting ∧ c'.receiver.state = .connecting ∧
      c'.transmitter.outRing.begin_ = initialSeq draw := by
  obtain ⟨t, ht, h⟩ := bind_eq_ok.mp h
  obtain ⟨r, hr, h⟩ := bind_eq_ok.mp h
  cases h
  rw [Transmitter.init_ok] at ht
  cases ht
  refine ⟨rfl, rfl, rfl, rfl, ?_, rfl⟩
  obtain ⟨b, e, hs⟩ := c.receiver.inRing.exists_spans
  unfold Receiver.init at hr
  rw [hs.popAll_ok] at hr
  cases hr
  rfl

/-- What `disconnect` leaves. -/
theorem disconnect_spec {c c' : Channel m n} {id : UInt32} {out : Option Callback}
    (h : c.disconnect id = .ok (c', out)) : c' = c ∨ ∃ t r, t.state = .idle ∧ r.state = .idle ∧
      c' = { c with
        transmitter := t
        receiver := r
        myStreamId := 0
        myStreamIdAckedByPeer := false
        peerStreamId := 0
        disconnectFn := none } := by
  unfold disconnect at h
  split at h
  · cases h
    exact .inl rfl
  · obtain ⟨t, ht, h⟩ := bind_eq_ok.mp h
    obtain ⟨r, hr, h⟩ := bind_eq_ok.mp h
    cases h
    exact .inr ⟨t, r, reset_state ht, receiver_reset_state hr, rfl⟩

end

end Channel

/-! ### Two parties -/

/-- A handshake packet under way, and the stream id its sender had then. -/
structure Emitted where
  bytes : List UInt8
  source : UInt32
  deriving DecidableEq, Repr

/-- A channel with its past: the incarnations it had and the sequence number each started
with, the packets it has under way, the incarnation of the peer that acknowledged its
stream, and where its receive window was opened. -/
structure Party (m n : LinkBufferSize) where
  channel : Channel m n
  initialSeq : UInt32 → Option SeqNum
  outbox : List Emitted
  ackedBy : UInt32
  openedAt : SeqNum

/-- Two channels facing each other. -/
structure Parties (m n m' n' : LinkBufferSize) where
  near : Party m n
  far : Party m' n'

/-- What happens at one end. -/
inductive PartyAct where
  /-- A step of the channel by itself, or a packet that is no handshake. -/
  | call (a : Channel.Act)
  /-- The oldest handshake packet of the peer arrives. -/
  | deliver
  /-- The oldest handshake packet of the peer is lost. -/
  | lose
  deriving DecidableEq, Repr

namespace Party

variable {m n : LinkBufferSize}

/-- A party that was never connected. -/
def new (m n : LinkBufferSize) : Party m n := ⟨.new m n, fun _ ↦ none, [], 0, ⟨0⟩⟩

/-- A step of the channel: `connect` starts an incarnation, `conn` may emit a packet. -/
def perform (x : Party m n) (a : Channel.Act) : Except Check (Party m n) :=
  (x.channel.step a).map fun c ↦ { x with
    channel := c
    initialSeq :=
      match a with
      | .connect _ _ _ =>
        Function.update x.initialSeq c.myStreamId (some c.transmitter.outRing.begin_)
      | _ => x.initialSeq
    outbox :=
      match a with
      | .conn now draw next =>
        let packet := (x.channel.conn now draw next).2.1
        if packet = [] then x.outbox else x.outbox ++ [⟨packet, x.channel.myStreamId⟩]
      | _ => x.outbox }

/-- A packet of the peer has arrived and has left the channel as `c`. -/
def received (x : Party m n) (c : Channel m n) (source : UInt32) : Party m n :=
  { x with
    channel := c
    ackedBy :=
      if x.channel.myStreamIdAckedByPeer = false ∧ c.myStreamIdAckedByPeer = true then source
      else x.ackedBy
    openedAt :=
      if x.channel.receiver.state = .connecting ∧ c.receiver.state = .connected then
        c.receiver.inRing.begin_
      else x.openedAt }

end Party

/-! ### What each end can rely on -/

namespace Party

variable {m n m' n' : LinkBufferSize}

/-- What a packet under way from `x` to `y` says is so: a first packet carries the initial
sequence number of its incarnation, and one that knows the peer was sent after the receiver
had been opened. -/
structure Genuine (x : Party m n) (y : Party m' n') (p : Emitted) (h : Handshake) : Prop where
  parsed : parseHandshake p.bytes = some h
  source : h.peerStreamId = p.source
  known : x.initialSeq p.source ≠ none
  first : h.wantAck = true → x.initialSeq p.source = some ⟨h.peerSeqNum⟩
  target : h.ackStreamId = 0 ∨ y.initialSeq h.ackStreamId ≠ none
  asks : h.ackStreamId = 0 → h.wantAck = true
  answered : h.wantAck = false → h.ackStreamId = y.channel.myStreamId →
    y.channel.receiver.state ≠ .connecting
  knows : h.ackStreamId ≠ 0 → p.source = x.channel.myStreamId →
    x.channel.receiver.state ≠ .connecting

/-- What holds at one end, `x`, of a handshake with `y`. -/
structure Coherent (x : Party m n) (y : Party m' n') : Prop where
  not_broken : x.channel.receiver.state ≠ .broken
  current : x.channel.myStreamId ≠ 0 → x.initialSeq x.channel.myStreamId ≠ none
  active : x.channel.transmitter.state = .connecting ∨ x.channel.transmitter.state = .connected →
    x.channel.myStreamId ≠ 0
  start : x.channel.transmitter.state = .connecting →
    x.initialSeq x.channel.myStreamId = some x.channel.transmitter.outRing.begin_
  connected : x.channel.transmitter.state = .connected → x.channel.myStreamIdAckedByPeer = true
  waiting : x.channel.receiver.state = .connecting →
    x.channel.peerStreamId = 0 ∧ x.channel.myStreamId ≠ 0
  opened : x.channel.receiver.state = .connected → x.channel.peerStreamId ≠ 0
  peer : x.channel.peerStreamId ≠ 0 → y.initialSeq x.channel.peerStreamId = some x.openedAt
  acked : x.channel.myStreamIdAckedByPeer = true →
    x.channel.peerStreamId ≠ 0 ∧ x.ackedBy = x.channel.peerStreamId
  rxBit : x.channel.myStreamId ≠ 0 → x.channel.peerStreamId ≠ 0 →
    x.channel.receiver.controlBit = x.channel.myControlBit
  txBit : x.channel.myStreamId ≠ 0 → x.channel.myStreamIdAckedByPeer = true →
    x.channel.transmitter.controlBit = x.channel.myControlBit
  settled : x.channel.transmitter.state = .connected →
    x.channel.peerStreamId = y.channel.myStreamId → y.channel.receiver.state ≠ .connecting
  outbox : ∀ p ∈ x.outbox, ∃ h, Genuine x y p h
  nonzero : x.initialSeq 0 = none
  short : ∀ a seq, x.initialSeq a = some seq → seq.raw &&& 0x0FFF#16 = seq.raw
  apart : ∀ a, x.initialSeq a ≠ none → y.initialSeq a = none

private theorem coherent_new (m n m' n' : LinkBufferSize) : (new m n).Coherent (new m' n') where
  not_broken := by simp [new, Channel.new, Receiver.new]
  current := fun h ↦ absurd rfl h
  active := fun h ↦ by simp [new, Channel.new, Transmitter.new] at h
  start := fun h ↦ nomatch h
  connected := fun h ↦ nomatch h
  waiting := fun h ↦ nomatch h
  opened := fun h ↦ nomatch h
  peer := fun h ↦ absurd rfl h
  acked := fun h ↦ nomatch h
  rxBit := fun h ↦ absurd rfl h
  txBit := fun h ↦ absurd rfl h
  settled := fun h ↦ nomatch h
  outbox := fun p hp ↦ nomatch hp
  nonzero := rfl
  short := fun a seq h ↦ nomatch h
  apart := fun a h ↦ absurd rfl h

/-- A step that starts no incarnation: the stream stays or is given up, and nobody waits for
the peer who did not before. -/
structure Steady (x x' : Party m n) : Prop where
  initialSeq : x'.initialSeq = x.initialSeq
  stream : x'.channel.myStreamId = x.channel.myStreamId ∨ x'.channel.myStreamId = 0
  waits : x'.channel.receiver.state = .connecting → x.channel.receiver.state = .connecting

section

variable {x x' : Party m n} {y y' : Party m' n'}

private theorem Coherent.source_ne {p : Emitted} {h : Handshake} (hx : x.Coherent y)
    (hg : Genuine x y p h) : h.peerStreamId ≠ 0 := fun h0 ↦
  hg.known (by rw [← hg.source, h0]; exact hx.nonzero)

private theorem Genuine.of_steady {p : Emitted} {h : Handshake} (hg : Genuine y x p h)
    (hs : Steady x x') : Genuine y x' p h := by
  refine { hg with target := ?_, answered := fun hwant hack hst ↦ ?_ }
  · rw [hs.initialSeq]
    exact hg.target
  · rcases hs.stream with heq | h0
    · exact hg.answered hwant (hack.trans heq) (hs.waits hst)
    · rw [hg.asks (hack.trans h0)] at hwant
      cases hwant

/-- The peer of a party that takes a steady step. -/
theorem Coherent.of_steady (hy : y.Coherent x) (hs : Steady x x') : y.Coherent x' := by
  refine { hy with
    peer := ?_, settled := fun hst hpeer hwait ↦ ?_, outbox := fun p hp ↦ ?_, apart := ?_ }
  · rw [hs.initialSeq]
    exact hy.peer
  · rcases hs.stream with heq | h0
    · exact hy.settled hst (hpeer.trans heq) (hs.waits hwait)
    · exact (hy.acked (hy.connected hst)).1 (hpeer.trans h0)
  · obtain ⟨h, hg⟩ := hy.outbox p hp
    exact ⟨h, hg.of_steady hs⟩
  · rw [hs.initialSeq]
    exact hy.apart

private theorem Coherent.of_fewer (hx : x.Coherent y) {rest : List Emitted}
    (hsub : ∀ p ∈ rest, p ∈ x.outbox) : ({ x with outbox := rest } : Party m n).Coherent y := by
  refine { hx with outbox := fun p hp ↦ ?_ }
  obtain ⟨h, hg⟩ := hx.outbox p (hsub p hp)
  exact ⟨h, { hg with }⟩

/-- Losing packets, or having them delivered, takes nothing from the peer's end. -/
theorem Coherent.of_outbox (hx : x.Coherent y) (hch : y'.channel = y.channel)
    (hinit : y'.initialSeq = y.initialSeq) : x.Coherent y' :=
  hx.of_steady ⟨hinit, .inl (by rw [hch]), by rw [hch]; exact id⟩

/-! ### A new incarnation -/

/-- A first position has at most twelve bits. -/
theorem initialSeq_short (draw : UInt32) :
    (Channel.initialSeq draw).raw &&& 0x0FFF#16 = (Channel.initialSeq draw).raw := by
  apply BitVec.eq_of_toNat_eq
  have hlt : draw.toNat % 0x0FFF < 2 ^ 12 := by omega
  have hmask : (0x0FFF#16).toNat = 2 ^ 12 - 1 := rfl
  rw [BitVec.toNat_and, hmask, Nat.and_two_pow_sub_one_eq_mod, Channel.initialSeq,
    BitVec.toNat_ofNat, Nat.mod_eq_of_lt (a := draw.toNat % 0x0FFF) (by omega),
    Nat.mod_eq_of_lt hlt]

/-- The party after a `connect` that has left the channel as `c`. -/
def reborn (x : Party m n) (c : Channel m n) : Party m n :=
  { x with
    channel := c
    initialSeq := Function.update x.initialSeq c.myStreamId (some c.transmitter.outRing.begin_) }

section Reborn

variable {c : Channel m n} {id : { id : UInt32 // id ≠ 0 }} {draw : UInt32}
  {fn out : Option Callback} (hc : x.channel.connect id draw fn = .ok (c, out))

include hc

private theorem reborn_known (hfresh : x.initialSeq id = none) {a : UInt32}
    (ha : x.initialSeq a ≠ none) : a ≠ c.myStreamId ∧
      (x.reborn c).initialSeq a = x.initialSeq a := by
  have hne : a ≠ c.myStreamId := by
    rintro rfl
    rw [(Channel.connect_spec hc).1] at ha
    exact ha hfresh
  exact ⟨hne, Function.update_of_ne hne _ _⟩

private theorem Genuine.reborn (hfresh : x.initialSeq id = none) {p : Emitted} {h : Handshake}
    (hg : Genuine x y p h) : Genuine (x.reborn c) y p h := by
  obtain ⟨hne, heq⟩ := reborn_known hc hfresh hg.known
  refine ⟨hg.parsed, hg.source, ?_, ?_, hg.target, hg.asks, hg.answered,
    fun _ hsrc ↦ absurd hsrc hne⟩
  · rw [heq]
    exact hg.known
  · rw [heq]
    exact hg.first

private theorem Genuine.of_reborn (hfresh : x.initialSeq id = none) {p : Emitted} {h : Handshake}
    (hg : Genuine y x p h) : Genuine y (x.reborn c) p h := by
  refine { hg with target := ?_, answered := fun hwant hack ↦ ?_ }
  · rcases hg.target with h0 | hknown
    · exact .inl h0
    · exact .inr (by rw [(reborn_known hc hfresh hknown).2]; exact hknown)
  · rcases hg.target with h0 | hknown
    · rw [hg.asks h0] at hwant
      cases hwant
    · exact absurd hack (reborn_known hc hfresh hknown).1

private theorem Coherent.reborn (hx : x.Coherent y) (hfresh : x.initialSeq id = none)
    (hfar : y.initialSeq id = none) : (x.reborn c).Coherent y := by
  obtain ⟨hid, hpeer, hack, htx, hrx, hseq⟩ := Channel.connect_spec hc
  have hnew : (x.reborn c).initialSeq c.myStreamId = some c.transmitter.outRing.begin_ :=
    Function.update_self ..
  have hne : c.myStreamId ≠ 0 := by rw [hid]; exact id.2
  refine {
    not_broken := fun hst ↦ (nomatch hrx.symm.trans hst)
    current := fun _ hnone ↦ (nomatch hnew.symm.trans hnone)
    active := fun _ ↦ hne
    start := fun _ ↦ hnew
    connected := fun hst ↦ (nomatch htx.symm.trans hst)
    waiting := fun _ ↦ ⟨hpeer, hne⟩
    opened := fun hst ↦ (nomatch hrx.symm.trans hst)
    peer := fun h ↦ absurd hpeer h
    acked := fun h ↦ (nomatch hack.symm.trans h)
    rxBit := fun _ h ↦ absurd hpeer h
    txBit := fun _ h ↦ (nomatch hack.symm.trans h)
    settled := fun hst ↦ (nomatch htx.symm.trans hst)
    outbox := fun p hp ↦ ?_
    nonzero := (Function.update_of_ne hne.symm _ _).trans hx.nonzero
    short := fun a seq ha ↦ ?_
    apart := fun a ha ↦ ?_ }
  · obtain ⟨h, hg⟩ := hx.outbox p hp
    exact ⟨h, hg.reborn hc hfresh⟩
  · by_cases hac : a = c.myStreamId
    · rw [hac, hnew] at ha
      cases ha
      rw [hseq]
      exact initialSeq_short draw
    · exact hx.short a seq ((Function.update_of_ne hac _ _).symm.trans ha)
  · by_cases hac : a = c.myStreamId
    · rw [hac, hid]
      exact hfar
    · exact hx.apart a fun hnone ↦ ha ((Function.update_of_ne hac _ _).trans hnone)

private theorem Coherent.of_reborn (hy : y.Coherent x) (hfresh : x.initialSeq id = none)
    (hfar : y.initialSeq id = none) : y.Coherent (x.reborn c) := by
  have hpeer (h0 : y.channel.peerStreamId ≠ 0) : x.initialSeq y.channel.peerStreamId ≠ none := by
    rw [hy.peer h0]
    exact Option.some_ne_none _
  refine { hy with
    peer := fun h0 ↦ ?_
    settled := fun hst heq ↦ ?_
    outbox := fun p hp ↦ ?_
    apart := fun a ha ↦ ?_ }
  · rw [(reborn_known hc hfresh (hpeer h0)).2]
    exact hy.peer h0
  · exact absurd heq (reborn_known hc hfresh (hpeer (hy.acked (hy.connected hst)).1)).1
  · obtain ⟨h, hg⟩ := hy.outbox p hp
    exact ⟨h, hg.of_reborn hc hfresh⟩
  · have hac : a ≠ c.myStreamId := by
      rintro rfl
      rw [(Channel.connect_spec hc).1] at ha
      exact ha hfar
    exact (Function.update_of_ne hac _ _).trans (hy.apart a ha)

end Reborn

/-! ### Steps within an incarnation -/

private theorem Genuine.steady {p : Emitted} {h : Handshake} (hg : Genuine x y p h)
    (hx : x.Coherent y) (hs : Steady x x') : Genuine x' y p h := by
  refine { hg with known := ?_, first := ?_, knows := fun hack hsrc hst ↦ ?_ }
  · rw [hs.initialSeq]
    exact hg.known
  · rw [hs.initialSeq]
    exact hg.first
  · rcases hs.stream with heq | h0
    · exact hg.knows hack (hsrc.trans heq) (hs.waits hst)
    · exact hg.known (by rw [hsrc, h0]; exact hx.nonzero)

private theorem Coherent.outbox_steady (hx : x.Coherent y) (x' : Party m n) (hs : Steady x x')
    (hsame : x'.outbox = x.outbox) : ∀ p ∈ x'.outbox, ∃ h, Genuine x' y p h := by
  intro p hp
  rw [hsame] at hp
  obtain ⟨h, hg⟩ := hx.outbox p hp
  exact ⟨h, hg.steady hx hs⟩

private theorem Coherent.receiver (hx : x.Coherent y) {r : Receiver n}
    (hst : r.state = x.channel.receiver.state)
    (hbit : r.controlBit = x.channel.receiver.controlBit) :
    ({ x with channel := { x.channel with receiver := r } } : Party m n).Coherent y := by
  refine { hx with
    not_broken := fun h ↦ hx.not_broken (hst.symm.trans h)
    waiting := fun h ↦ hx.waiting (hst.symm.trans h)
    opened := fun h ↦ hx.opened (hst.symm.trans h)
    rxBit := fun hid hpeer ↦ hbit.trans (hx.rxBit hid hpeer)
    outbox := hx.outbox_steady _ ⟨rfl, .inl rfl, fun h ↦ hst.symm.trans h⟩ rfl }

private theorem Coherent.transmitter (hx : x.Coherent y) {t : Transmitter m}
    (hst : t.state = x.channel.transmitter.state ∨ t.state = .idle)
    (hbit : t.controlBit = x.channel.transmitter.controlBit)
    (hbegin : x.channel.transmitter.state = .connecting →
      t.outRing.begin_ = x.channel.transmitter.outRing.begin_) :
    ({ x with channel := { x.channel with transmitter := t } } : Party m n).Coherent y := by
  have hback {s : ConnState} (hne : s ≠ .idle) (h : t.state = s) :
      x.channel.transmitter.state = s := by
    rcases hst with heq | hidle
    · exact heq.symm.trans h
    · exact absurd (h.symm.trans hidle) hne
  refine { hx with
    active := fun h ↦ hx.active (h.imp (hback (by decide)) (hback (by decide)))
    start := fun h ↦ ?_
    connected := fun h ↦ hx.connected (hback (by decide) h)
    txBit := fun hid hack ↦ hbit.trans (hx.txBit hid hack)
    settled := fun h ↦ hx.settled (hback (by decide) h)
    outbox := hx.outbox_steady _ ⟨rfl, .inl rfl, fun h ↦ h⟩ rfl }
  have hconn := hback (by decide) h
  exact (hx.start hconn).trans (congrArg some (hbegin hconn).symm)

/-- The connection is given up, on our side or because of the peer. -/
theorem Coherent.given_up (hx : x.Coherent y) {t : Transmitter m} {r : Receiver n}
    {acked : Bool} {peer : UInt32} {fn : Option Callback}
    (ht : t.state = .idle ∨ t.state = .broken) (hr : r.state = .idle ∨ r.state = .connected)
    (hpeer : peer = 0 ∧ acked = false ∧ r.state = .idle ∨
      peer = x.channel.peerStreamId ∧ acked = x.channel.myStreamIdAckedByPeer ∧
        x.channel.receiver.state = .connected) :
    ({ x with channel := { x.channel with
      transmitter := t
      receiver := r
      myStreamId := 0
      myStreamIdAckedByPeer := acked
      peerStreamId := peer
      disconnectFn := fn } } : Party m n).Coherent y := by
  have hrest : r.state ≠ .connecting := by rcases hr with h | h <;> rw [h] <;> decide
  have htx {s : ConnState} (hne : s ≠ .idle ∧ s ≠ .broken) : t.state ≠ s := by
    rcases ht with h | h
    · rw [h]; exact hne.1.symm
    · rw [h]; exact hne.2.symm
  refine {
    not_broken := by rcases hr with h | h <;> rw [h] <;> decide
    current := fun h ↦ absurd rfl h
    active := fun h ↦ (h.elim (htx (by decide)) (htx (by decide))).elim
    start := fun h ↦ absurd h (htx (by decide))
    connected := fun h ↦ absurd h (htx (by decide))
    waiting := fun h ↦ absurd h hrest
    opened := ?_
    peer := ?_
    acked := ?_
    rxBit := fun h ↦ absurd rfl h
    txBit := fun h ↦ absurd rfl h
    settled := fun h ↦ absurd h (htx (by decide))
    outbox := hx.outbox_steady _ ⟨rfl, .inr rfl, fun h ↦ absurd h hrest⟩ rfl
    nonzero := hx.nonzero
    short := hx.short
    apart := hx.apart }
  · rcases hpeer with ⟨-, -, hidle⟩ | ⟨rfl, -, hst⟩
    · exact fun h ↦ (nomatch hidle.symm.trans h)
    · exact fun _ ↦ hx.opened hst
  · rcases hpeer with ⟨rfl, -, -⟩ | ⟨rfl, -, -⟩
    · exact fun h ↦ absurd rfl h
    · exact hx.peer
  · rcases hpeer with ⟨-, rfl, -⟩ | ⟨rfl, rfl, -⟩
    · exact fun h ↦ (nomatch h)
    · exact hx.acked

/-! ### Packets of the peer -/

private theorem received_same {c : Channel m n} (source : UInt32)
    (hack : c.myStreamIdAckedByPeer = true → x.channel.myStreamIdAckedByPeer = true)
    (hst : c.receiver.state = .connected → x.channel.receiver.state ≠ .connecting) :
    x.received c source = { x with channel := c } := by
  have hno : ¬ (x.channel.myStreamIdAckedByPeer = false ∧ c.myStreamIdAckedByPeer = true) :=
    fun h ↦ nomatch h.1.symm.trans (hack h.2)
  have hno' : ¬ (x.channel.receiver.state = .connecting ∧ c.receiver.state = .connected) :=
    fun h ↦ hst h.2 h.1
  rw [received, if_neg hno, if_neg hno']

/-- A receiver that waits is opened by a first packet of an incarnation of the peer. -/
theorem Genuine.opens {p : Emitted} {h : Handshake} (hg : Genuine y x p h)
    (hst : x.channel.receiver.state = .connecting)
    (hack : h.ackStreamId = 0 ∨ h.ackStreamId = x.channel.myStreamId) :
    y.initialSeq h.peerStreamId = some ⟨h.peerSeqNum⟩ := by
  rw [hg.source]
  refine hg.first ?_
  by_contra hwant
  rw [Bool.not_eq_true] at hwant
  rcases hack with h0 | hid
  · exact nomatch hwant.symm.trans (hg.asks h0)
  · exact hg.answered hwant hid hst

/-- A step of the channel starts an incarnation, takes in a handshake packet, or changes
nothing of the handshake but to give it up. -/
theorem Coherent.step_cases (hx : x.Coherent y) {a : Channel.Act} {c : Channel m n}
    (hstep : x.channel.step a = .ok c) :
    (∃ id draw fn out, a = .connect id draw fn ∧ x.channel.connect id draw fn = .ok (c, out)) ∨
    (∃ buf h, a = .packetReceived buf ∧ getPacketType (loadBeU16 buf) = some .handshake ∧
      parseHandshake buf = some h ∧ Channel.Shaken x.channel h c) ∨
    (({ x with channel := c } : Party m n).Coherent y ∧ Steady x { x with channel := c } ∧
      ∀ source, x.received c source = { x with channel := c }) := by
  have hdiff (h : x.channel.receiver.state = .connected) :
      x.channel.receiver.state ≠ .connecting := by rw [h]; decide
  have hspec := Channel.step_spec x.channel a
  rw [hstep] at hspec
  generalize hout : (Except.ok c : Except Check (Channel m n)) = out at hspec
  cases hspec with
  | noted needsAck retries update =>
    cases hout
    have hsteady : Steady x { x with channel := { x.channel with
        needsHandshakeAck := needsAck
        successiveHandshakeRetries := retries
        nextScheduledHandshakeUpdate := update } } := ⟨rfl, .inl rfl, fun h ↦ h⟩
    exact .inr (.inr ⟨{ hx with outbox := hx.outbox_steady _ hsteady rfl }, hsteady,
      fun source ↦ received_same source id hdiff⟩)
  | receiver call _ =>
    obtain ⟨r, hr, rfl⟩ := map_eq_ok.mp hout.symm
    obtain ⟨hst, hbit⟩ := Receiver.step_same hx.not_broken hr
    exact .inr (.inr ⟨hx.receiver hst hbit, ⟨rfl, .inl rfl, fun h ↦ hst.symm.trans h⟩,
      fun source ↦ received_same source id fun h ↦ hdiff (hst.symm.trans h)⟩)
  | transmitter call hcall =>
    obtain ⟨t, ht, rfl⟩ := map_eq_ok.mp hout.symm
    obtain ⟨hst, hbit⟩ := Transmitter.step_inStream hcall ht
    exact .inr (.inr ⟨hx.transmitter hst hbit
      fun h ↦ (Transmitter.step_connecting hcall h ht).2, ⟨rfl, .inl rfl, fun h ↦ h⟩,
      fun source ↦ received_same source id hdiff⟩)
  | connect id draw fn ha =>
    obtain ⟨⟨c1, out⟩, hc, rfl⟩ := map_eq_ok.mp hout.symm
    exact .inl ⟨id, draw, fn, out, ha, hc⟩
  | disconnect id =>
    obtain ⟨⟨c1, out⟩, hc, rfl⟩ := map_eq_ok.mp hout.symm
    rcases Channel.disconnect_spec hc with rfl | ⟨t, r, ht, hr, rfl⟩
    · exact .inr (.inr ⟨hx, ⟨rfl, .inl rfl, fun h ↦ h⟩,
        fun source ↦ received_same source (fun h ↦ h) hdiff⟩)
    · exact .inr (.inr ⟨hx.given_up (.inl ht) (.inl hr) (.inl ⟨rfl, rfl, hr⟩),
        ⟨rfl, .inr rfl, fun h ↦ (nomatch hr.symm.trans h)⟩,
        fun source ↦ received_same source (fun h ↦ nomatch h) fun h ↦ (nomatch hr.symm.trans h)⟩)
  | handshake buf h ha htype hparse _ =>
    obtain ⟨⟨c1, ready, fn⟩, hc, rfl⟩ := map_eq_ok.mp hout.symm
    exact .inr (.inl ⟨buf, h, ha, htype, hparse, Channel.handleHandshakePacket_spec hc⟩)

section Delivery

variable {p : Emitted} {h : Handshake} (hx : x.Coherent y) (hy : y.Coherent x)
  (hg : Genuine y x p h)

include hx hy hg

private theorem Coherent.openedBy {r : Receiver n} (source : UInt32)
    (hst : x.channel.receiver.state = .connecting)
    (hack : h.ackStreamId = 0 ∨ h.ackStreamId = x.channel.myStreamId)
    (hr : r.state = .connected)
    (hbit : r.controlBit = decide (h.peerStreamId < x.channel.myStreamId)) :
    ({ x with
      channel := { x.channel with
        peerStreamId := h.peerStreamId
        receiver := r
        needsHandshakeAck := h.wantAck }
      ackedBy := source
      openedAt := ⟨h.peerSeqNum⟩ } : Party m n).Coherent y := by
  obtain ⟨hpeer, hid⟩ := hx.waiting hst
  have hno : x.channel.myStreamIdAckedByPeer ≠ true := fun h ↦ (hx.acked h).1 hpeer
  have htx : x.channel.transmitter.state ≠ .connected := fun h ↦ hno (hx.connected h)
  exact { hx with
    not_broken := fun h ↦ (nomatch hr.symm.trans h)
    waiting := fun h ↦ (nomatch hr.symm.trans h)
    opened := fun _ ↦ hy.source_ne hg
    peer := fun _ ↦ hg.opens hst hack
    acked := fun h ↦ absurd h hno
    rxBit := fun _ _ ↦ hbit
    txBit := fun _ h ↦ absurd h hno
    settled := fun h ↦ absurd h htx
    outbox := hx.outbox_steady _ ⟨rfl, .inl rfl, fun h ↦ (nomatch hr.symm.trans h)⟩ rfl }

-- The stream is acknowledged by the incarnation of the peer that opened the receiver.
private theorem Coherent.ackedBy (size : Nat) (hid : x.channel.myStreamId ≠ 0)
    (hack : h.ackStreamId = x.channel.myStreamId)
    (hpeer : h.peerStreamId = x.channel.peerStreamId) :
    ({ x with
      channel := x.channel.acked size
      ackedBy := p.source } : Party m n).Coherent y := by
  have hne : x.channel.peerStreamId ≠ 0 := by
    rw [← hpeer]
    exact hy.source_ne hg
  exact { hx with
    active := fun _ ↦ hid
    start := fun h ↦ nomatch h
    connected := fun _ ↦ rfl
    acked := fun _ ↦ ⟨hne, hg.source.symm.trans hpeer⟩
    txBit := fun _ _ ↦ rfl
    settled := fun _ hmine ↦ hg.knows (by rw [hack]; exact hid)
      (hg.source.symm.trans (hpeer.trans hmine))
    outbox := hx.outbox_steady _ ⟨rfl, .inl rfl, fun h ↦ h⟩ rfl }

/-- What a packet of the peer leaves, unless it acknowledges the stream for another
incarnation than the one the receiver was opened by. -/
theorem Coherent.shaken {c : Channel m n} (hs : Channel.Shaken x.channel h c)
    (hsame : x.channel.receiver.state = .connected → h.ackStreamId = x.channel.myStreamId →
      x.channel.myStreamId ≠ 0 → x.channel.myStreamIdAckedByPeer = false →
      h.peerStreamId = x.channel.peerStreamId) :
    (x.received c p.source).Coherent y ∧ Steady x (x.received c p.source) := by
  have hdiff (h : x.channel.receiver.state = .connected) :
      x.channel.receiver.state ≠ .connecting := by rw [h]; decide
  cases hs with
  | ignored =>
    rw [received_same p.source id hdiff]
    exact ⟨hx, rfl, .inl rfl, fun h ↦ h⟩
  | noted =>
    rw [received_same (c := { x.channel with needsHandshakeAck := h.wantAck }) p.source id hdiff]
    have hst : Steady x { x with channel := { x.channel with needsHandshakeAck := h.wantAck } } :=
      ⟨rfl, .inl rfl, fun h ↦ h⟩
    exact ⟨{ hx with outbox := hx.outbox_steady _ hst rfl }, hst⟩
  | aborted hst hid =>
    -- Stream ids of the two ends are never the same.
    refine absurd (hx.apart _ (hx.current (hx.waiting hst).2)) ?_
    rw [← hid, hg.source]
    exact hg.known
  | broken t r hst ht hr =>
    rw [received_same (c := { x.channel with
      transmitter := t, receiver := r, myStreamId := 0, disconnectFn := none }) p.source id
      fun _ ↦ hdiff hst]
    refine ⟨hx.given_up ht hr (.inr ⟨rfl, rfl, hst⟩), rfl, .inr rfl, fun h ↦ ?_⟩
    rcases hr with hr | hr
    · exact nomatch hr.symm.trans h
    · exact nomatch hr.symm.trans h
  | opened r hst hack hr hbit hseq hne =>
    have hno : ¬ (x.channel.myStreamIdAckedByPeer = false ∧
        x.channel.myStreamIdAckedByPeer = true) := fun h ↦ nomatch h.1.symm.trans h.2
    have hopen := hx.openedBy hy hg x.ackedBy hst hack hr hbit
    rw [← hseq] at hopen
    rw [received, if_neg hno, if_pos ⟨hst, hr⟩]
    exact ⟨hopen, rfl, .inl rfl, fun h ↦ (nomatch hr.symm.trans h)⟩
  | openedAcked r hst hr hbit hseq hack =>
    have hidle : x.channel.myStreamIdAckedByPeer = false := by
      by_contra h
      exact (hx.acked (by simpa using h)).1 (hx.waiting hst).1
    have hopen := hx.openedBy hy hg x.ackedBy hst (.inr hack) hr hbit
    have hsteady : Steady x { x with
        channel := { x.channel with
          peerStreamId := h.peerStreamId
          receiver := r
          needsHandshakeAck := h.wantAck }
        openedAt := ⟨h.peerSeqNum⟩ } := ⟨rfl, .inl rfl, fun h ↦ (nomatch hr.symm.trans h)⟩
    have hacked := hopen.ackedBy (hy.of_steady hsteady) (hg.of_steady hsteady)
      h.peerReceiveBufferSize (hx.waiting hst).2 hack rfl
    rw [← hseq] at hacked
    rw [received, if_pos ⟨hidle, rfl⟩, if_pos ⟨hst, hr⟩]
    exact ⟨hacked, rfl, .inl rfl, fun h ↦ (nomatch hr.symm.trans h)⟩
  | acked hst hack hid hidle =>
    have hacked := hx.ackedBy hy hg h.peerReceiveBufferSize hid hack (hsame hst hack hid hidle)
    rw [received, if_pos ⟨hidle, rfl⟩, if_neg]
    · refine ⟨{ hacked with outbox := ?_ }, rfl, .inl rfl, fun h ↦ h⟩
      exact hacked.outbox_steady _ ⟨rfl, .inl rfl, fun h ↦ h⟩ rfl
    · exact fun h ↦ hdiff hst h.1

end Delivery

/-! ### The channel by itself -/

/-- The packet a coherent party emits is genuine. -/
theorem Coherent.emits (hx : x.Coherent y)
    (hst : x.channel.transmitter.state = .connecting ∨ x.channel.transmitter.state = .connected)
    {p : Emitted} (hsource : p.source = x.channel.myStreamId)
    (hbytes : p.bytes = formatHandshake x.channel.transmitter.outRing.begin_ x.channel.myStreamId
      x.channel.peerStreamId (x.channel.transmitter.state ≠ .connected) n) :
    ∃ h, Genuine x y p h := by
  refine ⟨_, by rw [hbytes]; exact parseHandshake_format .., hsource.symm, ?_, ?_, ?_, ?_, ?_, ?_⟩
  · rw [hsource]
    exact hx.current (hx.active hst)
  · intro hwant
    have hconn : x.channel.transmitter.state = .connecting :=
      hst.resolve_right (by simpa using hwant)
    have hstart := hx.start hconn
    rw [hsource, hstart]
    exact congrArg some (congrArg SeqNum.mk (hx.short _ _ hstart).symm)
  · by_cases h0 : x.channel.peerStreamId = 0
    · exact .inl h0
    · exact .inr (by rw [hx.peer h0]; exact Option.some_ne_none _)
  · intro h0
    rw [decide_eq_true_eq]
    exact fun hconn ↦ (hx.acked (hx.connected hconn)).1 h0
  · intro hwant hmine
    exact hx.settled (by simpa using hwant) hmine
  · intro hne _ hwait
    exact hne (hx.waiting hwait).1

private theorem Coherent.conn (hx : x.Coherent y) {x' : Party m n} {now : Uptime} {draw next : Nat}
    (hstep : x.perform (.conn now draw next) = .ok x') : x'.Coherent y ∧ Steady x x' := by
  obtain ⟨c, hc, rfl⟩ := map_eq_ok.mp hstep
  cases hc
  obtain ⟨needsAck, retries, update, hfst⟩ := x.channel.conn_fst now draw next
  dsimp only
  have hsteady (q : List Emitted) : Steady x { x with
      channel := (x.channel.conn now draw next).1, outbox := q } := by
    rw [hfst]
    exact ⟨rfl, .inl rfl, fun h ↦ h⟩
  refine ⟨?_, hsteady _⟩
  rw [hfst] at hsteady ⊢
  refine { hx with outbox := fun p hp ↦ ?_ }
  have hmem : p ∈ x.outbox ∨ (x.channel.conn now draw next).2.1 ≠ [] ∧
      p = ⟨(x.channel.conn now draw next).2.1, x.channel.myStreamId⟩ := by
    dsimp only at hp
    split at hp
    · exact .inl hp
    · next hne =>
      rcases List.mem_append.mp hp with hp | hp
      · exact .inl hp
      · exact .inr ⟨hne, List.mem_singleton.mp hp⟩
  rcases hmem with hmem | ⟨hne, rfl⟩
  · obtain ⟨h, hg⟩ := hx.outbox p hmem
    exact ⟨h, hg.steady hx (hsteady _)⟩
  · obtain ⟨hst, hbytes⟩ := x.channel.conn_packet now draw next hne
    obtain ⟨h, hg⟩ := hx.emits hst (p := ⟨_, x.channel.myStreamId⟩) rfl hbytes
    exact ⟨h, hg.steady hx (hsteady _)⟩

private theorem perform_plain {x' : Party m n} {a : Channel.Act} (h : x.perform a = .ok x')
    (hconnect : ∀ id draw fn, a ≠ .connect id draw fn)
    (hconn : ∀ now draw next, a ≠ .conn now draw next) :
    ∃ c, x.channel.step a = .ok c ∧ x' = { x with channel := c } := by
  obtain ⟨c, hc, rfl⟩ := map_eq_ok.mp h
  refine ⟨c, hc, ?_⟩
  cases a with
  | connect id draw fn => exact absurd rfl (hconnect id draw fn)
  | conn now draw next => exact absurd rfl (hconn now draw next)
  | _ => rfl

end

end Party

namespace Parties

variable {m n m' n' : LinkBufferSize}

/-- Two parties that were never connected. -/
def start (m n m' n' : LinkBufferSize) : Parties m n m' n' := ⟨.new m n, .new m' n'⟩

/-- The same two, looked at from the other end. -/
def swap (w : Parties m n m' n') : Parties m' n' m n := ⟨w.far, w.near⟩

/-- A step at the near end. -/
def stepNear (w : Parties m n m' n') : PartyAct → Except Check (Parties m n m' n')
  | .call a => (w.near.perform a).map fun x ↦ { w with near := x }
  | .deliver =>
    match w.far.outbox with
    | [] => .ok w
    | p :: rest => (w.near.channel.step (.packetReceived p.bytes)).map fun c ↦
        { near := w.near.received c p.source, far := { w.far with outbox := rest } }
  | .lose => .ok { w with far := { w.far with outbox := w.far.outbox.tail } }

/-- What happens, and at which end. -/
inductive Act where
  | near (a : PartyAct)
  | far (a : PartyAct)
  deriving DecidableEq, Repr

/-- A step of one of the parties. -/
def step (w : Parties m n m' n') : Act → Except Check (Parties m n m' n')
  | .near a => w.stepNear a
  | .far a => (w.swap.stepNear a).map swap

/-- Stream ids are fresh, and handshake packets come from the peer. -/
def AllowedNear (w : Parties m n m' n') : PartyAct → Prop
  | .call (.connect id _ _) => w.near.initialSeq id = none ∧ w.far.initialSeq id = none
  | .call (.packetReceived buf) => getPacketType (loadBeU16 buf) ≠ some .handshake
  | _ => True

instance (w : Parties m n m' n') (a : PartyAct) : Decidable (w.AllowedNear a) := by
  unfold AllowedNear; split <;> infer_instance

/-- What the parties may do. -/
def Allowed (w : Parties m n m' n') : Act → Prop
  | .near a => w.AllowedNear a
  | .far a => w.swap.AllowedNear a

instance (w : Parties m n m' n') (a : Act) : Decidable (w.Allowed a) := by
  unfold Allowed; split <;> infer_instance

/-- The packet about to arrive does not acknowledge the stream of a channel whose receiver was
opened by another incarnation of the peer. -/
def SamePeerNear (w : Parties m n m' n') : PartyAct → Prop
  | .deliver => ∀ p ∈ w.far.outbox.head?, ∀ h ∈ parseHandshake p.bytes,
      w.near.channel.receiver.state = .connected → h.ackStreamId = w.near.channel.myStreamId →
      w.near.channel.myStreamId ≠ 0 → w.near.channel.myStreamIdAckedByPeer = false →
      h.peerStreamId = w.near.channel.peerStreamId
  | _ => True

instance (w : Parties m n m' n') (a : PartyAct) : Decidable (w.SamePeerNear a) := by
  unfold SamePeerNear; split <;> infer_instance

/-- What `SamePeerNear` asks of either end. -/
def SamePeer (w : Parties m n m' n') : Act → Prop
  | .near a => w.SamePeerNear a
  | .far a => w.swap.SamePeerNear a

instance (w : Parties m n m' n') (a : Act) : Decidable (w.SamePeer a) := by
  unfold SamePeer; split <;> infer_instance

/-- Both ends are coherent. -/
def Coherent (w : Parties m n m' n') : Prop := w.near.Coherent w.far ∧ w.far.Coherent w.near

private theorem Coherent.call {w : Parties m n m' n'} {x : Party m n} {a : Channel.Act}
    (hw : w.Coherent) (hok : w.AllowedNear (.call a)) (hstep : w.near.perform a = .ok x) :
    Coherent { w with near := x } := by
  obtain ⟨hx, hy⟩ := hw
  by_cases hconnect : ∃ id draw fn, a = .connect id draw fn
  · obtain ⟨id, draw, fn, rfl⟩ := hconnect
    obtain ⟨c, hc, rfl⟩ := map_eq_ok.mp hstep
    obtain ⟨⟨c1, out⟩, hc1, rfl⟩ := map_eq_ok.mp hc
    exact ⟨hx.reborn hc1 hok.1 hok.2, hy.of_reborn hc1 hok.1 hok.2⟩
  by_cases hconn : ∃ now draw next, a = .conn now draw next
  · obtain ⟨now, draw, next, rfl⟩ := hconn
    obtain ⟨hx', hs⟩ := hx.conn hstep
    exact ⟨hx', hy.of_steady hs⟩
  obtain ⟨c, hc, rfl⟩ := Party.perform_plain hstep (fun id draw fn h ↦ hconnect ⟨id, draw, fn, h⟩)
    fun now draw next h ↦ hconn ⟨now, draw, next, h⟩
  rcases hx.step_cases hc with ⟨id, draw, fn, -, ha, -⟩ | ⟨buf, h, rfl, htype, -⟩ | ⟨hx', hs, -⟩
  · exact absurd ⟨id, draw, fn, ha⟩ hconnect
  · exact absurd htype hok
  · exact ⟨hx', hy.of_steady hs⟩

private theorem Coherent.deliver {w : Parties m n m' n'} {p : Emitted} {rest : List Emitted}
    {c : Channel m n} (hw : w.Coherent) (hout : w.far.outbox = p :: rest)
    (hsame : w.SamePeerNear .deliver)
    (hstep : w.near.channel.step (.packetReceived p.bytes) = .ok c) :
    Coherent ⟨w.near.received c p.source, { w.far with outbox := rest }⟩ := by
  obtain ⟨hx, hy⟩ := hw
  have hp : p ∈ w.far.outbox := by rw [hout]; exact List.mem_cons_self
  obtain ⟨h, hg⟩ := hy.outbox p hp
  have hboth : (w.near.received c p.source).Coherent w.far ∧
      Party.Steady w.near (w.near.received c p.source) := by
    rcases hx.step_cases hstep with ⟨id, draw, fn, -, ha, -⟩ | ⟨buf, h', ha, -, hparse, hs⟩ |
      ⟨hx', hs, hrec⟩
    · cases ha
    · cases ha
      obtain rfl : h' = h := Option.some.inj (hparse.symm.trans hg.parsed)
      refine hx.shaken hy hg hs (hsame p ?_ h' hparse)
      rw [hout]
      rfl
    · rw [hrec]
      exact ⟨hx', hs⟩
  have hsub : ∀ q ∈ rest, q ∈ w.far.outbox := fun q hq ↦ by
    rw [hout]
    exact List.mem_cons_of_mem p hq
  exact ⟨hboth.1.of_outbox rfl rfl, (hy.of_steady hboth.2).of_fewer hsub⟩

/-- A step at the near end leaves both ends coherent. -/
theorem Coherent.stepNear {w w' : Parties m n m' n'} {a : PartyAct} (hw : w.Coherent)
    (hok : w.AllowedNear a) (hsame : w.SamePeerNear a) (hstep : w.stepNear a = .ok w') :
    w'.Coherent := by
  cases a with
  | call a =>
    obtain ⟨x, hx, rfl⟩ := map_eq_ok.mp hstep
    exact hw.call hok hx
  | deliver =>
    rw [Parties.stepNear] at hstep
    split at hstep
    · cases hstep
      exact hw
    · next p rest hout =>
      obtain ⟨c, hc, rfl⟩ := map_eq_ok.mp hstep
      exact hw.deliver hout hsame hc
  | lose =>
    cases hstep
    exact ⟨hw.1.of_outbox rfl rfl, hw.2.of_fewer fun q hq ↦ List.mem_of_mem_tail hq⟩

private theorem coherent_of_reachable {w : Parties m n m' n'}
    (hr : Reachable step (fun w a ↦ w.Allowed a ∧ w.SamePeer a) (start m n m' n') w) :
    w.Coherent := by
  refine hr.invariant Coherent ⟨Party.coherent_new .., Party.coherent_new ..⟩ ?_
  intro w a w' hw hg hstep
  cases a with
  | near a => exact hw.stepNear hg.1 hg.2 hstep
  | far a =>
    obtain ⟨v, hv, rfl⟩ := map_eq_ok.mp hstep
    have hswap : w.swap.Coherent := ⟨hw.2, hw.1⟩
    obtain ⟨h1, h2⟩ := hswap.stepNear hg.1 hg.2 hv
    exact ⟨h2, h1⟩

/-! ### Agreement -/

/-- The connection of `x`, as far as it concerns its peer `y`: the stream was acknowledged by
the incarnation named in `peer_stream_id_`, and the receive window was opened at the initial
sequence number of that incarnation. -/
structure AgreesWith (x : Party m n) (y : Party m' n') : Prop where
  ackedBy : x.ackedBy = x.channel.peerStreamId
  openedAt : y.initialSeq x.channel.peerStreamId = some x.openedAt

private theorem status_connected {c : Channel m n} {b : UInt32}
    (h : c.getLinkStatus b = .connected) :
    c.myStreamId = b ∧ b ≠ 0 ∧ c.peerStreamId ≠ 0 ∧ c.myStreamIdAckedByPeer = true := by
  unfold Channel.getLinkStatus at h
  split at h
  · cases h
  next hb =>
  split at h
  · cases h
  next hid =>
  split at h
  · cases h
  next hno =>
  rw [not_or] at hno
  exact ⟨not_not.mp hid, hb, hno.1, by simpa using hno.2⟩

private theorem agreesWith_of_connected {x : Party m n} {y : Party m' n'} {b : UInt32}
    (hx : x.Coherent y) (h : x.channel.getLinkStatus b = .connected) : AgreesWith x y := by
  obtain ⟨-, -, hpeer, hack⟩ := status_connected h
  exact ⟨(hx.acked hack).2, hx.peer hpeer⟩

private theorem bits_of_connected {x : Party m n} {y : Party m' n'} {b : UInt32}
    (hx : x.Coherent y) (h : x.channel.getLinkStatus b = .connected) :
    x.channel.transmitter.controlBit = decide (x.channel.peerStreamId < b) ∧
      x.channel.receiver.controlBit = decide (x.channel.peerStreamId < b) := by
  obtain ⟨rfl, hb, hpeer, hack⟩ := status_connected h
  exact ⟨hx.txBit hb hack, hx.rxBit hb hpeer⟩

/-- In every run where no stream is acknowledged to a channel by another incarnation of the
peer than the one its receiver was opened by, a connected channel agrees with its peer, and
two channels connected to each other use opposite control bits. -/
theorem handshake_agreement {w : Parties m n m' n'}
    (hr : Reachable step (fun w a ↦ w.Allowed a ∧ w.SamePeer a) (start m n m' n') w) :
    (∀ b, w.near.channel.getLinkStatus b = .connected → AgreesWith w.near w.far) ∧
    (∀ b, w.far.channel.getLinkStatus b = .connected → AgreesWith w.far w.near) ∧
    ∀ a b, w.near.channel.getLinkStatus a = .connected →
      w.far.channel.getLinkStatus b = .connected →
      w.near.channel.peerStreamId = b → w.far.channel.peerStreamId = a →
      w.near.channel.transmitter.controlBit = !w.far.channel.transmitter.controlBit ∧
      w.near.channel.receiver.controlBit = !w.far.channel.receiver.controlBit := by
  obtain ⟨hx, hy⟩ := coherent_of_reachable hr
  refine ⟨fun b ↦ agreesWith_of_connected hx, fun b ↦ agreesWith_of_connected hy,
    fun a b ha hb hpa hpb ↦ ?_⟩
  obtain ⟨hida, ha0, -, -⟩ := status_connected ha
  have hne : a ≠ b := by
    rintro rfl
    refine hx.current (by rw [hida]; exact ha0) (hy.apart _ ?_)
    rw [hida, ← (status_connected hb).1]
    exact hy.current (by rw [(status_connected hb).1]; exact ha0)
  have hopp : decide (b < a) = !decide (a < b) := by
    rw [Bool.eq_not, ne_eq, decide_eq_decide, UInt32.lt_iff_toNat_lt, UInt32.lt_iff_toNat_lt]
    have := UInt32.toNat_inj.not.mpr hne
    omega
  have hxb := bits_of_connected hx ha
  have hyb := bits_of_connected hy hb
  rw [hxb.1, hxb.2, hyb.1, hyb.2, hpa, hpb]
  exact ⟨hopp, hopp⟩

/-- Both ends connect, each with one incarnation. -/
theorem handshake_agreement_once : ∃ w : Parties 2 2 2 2,
    Reachable step (fun w a ↦ w.Allowed a ∧ w.SamePeer a) (start 2 2 2 2) w ∧
    w.near.channel.getLinkStatus 5 = .connected ∧ w.far.channel.getLinkStatus 7 = .connected ∧
    AgreesWith w.near w.far ∧
    w.near.channel.transmitter.controlBit = !w.far.channel.transmitter.controlBit := by
  obtain ⟨w, hr, hw⟩ := Reachable.of_test step (fun w a ↦ w.Allowed a ∧ w.SamePeer a)
    (start 2 2 2 2)
    [.near (.call (.connect ⟨5, by decide⟩ 100 none)), .near (.call (.conn 0 0 0)),
      .far (.call (.connect ⟨7, by decide⟩ 200 none)), .far .deliver,
      .far (.call (.conn 0 0 0)), .near .deliver, .near (.call (.conn 0 0 0)), .far .deliver]
    (fun w ↦ w.near.channel.getLinkStatus 5 = .connected ∧
      w.far.channel.getLinkStatus 7 = .connected ∧ w.near.channel.peerStreamId = 7 ∧
      w.far.channel.peerStreamId = 5) (by decide) (by decide)
  rw [decide_eq_true_iff] at hw
  obtain ⟨hagree, -, hbits⟩ := handshake_agreement hr
  exact ⟨w, hr, hw.1, hw.2.1, hagree 5 hw.1, (hbits 5 7 hw.1 hw.2.1 hw.2.2.1 hw.2.2.2).1⟩

/-- A peer that reconnects in between acknowledges, as incarnation 8, a stream whose receiver
was opened by its incarnation 7. -/
theorem acked_by_other_incarnation : ∃ w : Parties 2 2 2 2,
    Reachable step Allowed (start 2 2 2 2) w ∧
    w.near.channel.getLinkStatus 5 = .connected ∧ w.near.channel.peerStreamId = 7 ∧
    w.near.ackedBy = 8 := by
  obtain ⟨w, hr, hw⟩ := Reachable.of_test step Allowed (start 2 2 2 2)
    [.near (.call (.connect ⟨5, by decide⟩ 0 none)), .near (.call (.conn 0 0 0)),
      .far (.call (.connect ⟨7, by decide⟩ 100 none)), .far (.call (.conn 0 0 0)),
      .near .deliver,
      .far (.call (.connect ⟨8, by decide⟩ 200 none)), .far .deliver,
      .far (.call (.conn 0 0 0)), .near .deliver]
    (fun w ↦ w.near.channel.getLinkStatus 5 = .connected ∧ w.near.channel.peerStreamId = 7 ∧
      w.near.ackedBy = 8) (by decide) (by decide)
  rw [decide_eq_true_iff] at hw
  exact ⟨w, hr, hw⟩

end Parties

end RooTransport.Link
