import RooTransport.Base.Fifo
import RooTransport.Link.ReceiverWindow
import RooTransport.Link.TransmitterChecks
import RooTransport.Link.TransmitterStream

/-!
# A pair over an ordered medium

A transmitter and the receiver at the other end, with the packets under way in either
direction. The medium loses packets but keeps their order. On arrival a header is taken
apart as `channel.cpp:487–529` does, and the twelve bits of a sequence number are expanded
against the window of the end they arrive at (`ring_buffer.h:65–75`): those of a data packet
against the receiver's (`receiver.cpp:231–300`), those of an acknowledgement or of a
flow-control packet against the transmitter's (`transmitter.cpp:222–316`).
-/

namespace RooTransport.Link

open RooTransport.Base RingBuffer

/-- A packet under way, with the sequence number its sender put into the header. -/
structure Sent where
  seq : SeqNum
  bytes : List UInt8
  deriving DecidableEq, Repr

/-- The twelve bits that arrive. -/
def Sent.seqId (x : Sent) : BitVec 16 := getPacketSeq (loadBeU16 x.bytes)

/-- The type that the header of the packet says. -/
def Sent.type (x : Sent) : Option PacketType := getPacketType (loadBeU16 x.bytes)

/-- Both ends and the packets between them, in the order they were sent. -/
structure Wire (m n : LinkBufferSize) where
  tx : Transmitter m
  rx : Receiver n
  toRx : List Sent
  toTx : List Sent

namespace Wire

variable {m n : LinkBufferSize}

/-- The calls made at the two ends, deliveries and losses. -/
inductive Act where
  | tryWrite (buf : List UInt8)
  | flush
  | close
  | getBufferToSend (now : Uptime) (draw nextSendMicros : Nat)
  | tryRead (count : Nat)
  | peek
  | availableForRead
  | markInputClosed
  | ack
  | updateRecvHimark (now : Uptime) (nextSendMicros : Nat)
  | deliverToRx
  | deliverToTx
  | loseToRx (i : Nat)
  | loseToTx (i : Nat)
  deriving DecidableEq, Repr

/-- A transmitter and a receiver, whatever was done with them before, connected to each other.
The application may have closed the stream while the handshake was going on. -/
def start (t : Transmitter m) (r : Receiver n) (txStreamId rxStreamId : UInt32) (s : SeqNum)
    (controlBit closedEarly : Bool) : Except Check (Wire m n) :=
  (t.init txStreamId s).bind fun tx ↦
    (if closedEarly then tx.close else .ok tx).bind fun tx ↦
      (r.reconnect rxStreamId s !controlBit).map fun rx ↦
        { tx := tx.setConnected (2 ^ n.val) controlBit, rx, toRx := [], toTx := [] }

/-- A packet put on the medium; no bytes mean no packet. -/
def post (queue : List Sent) (seq : SeqNum) (bytes : List UInt8) : List Sent :=
  if bytes = [] then queue else queue ++ [⟨seq, bytes⟩]

/-- `channel.cpp:524–532`: a data or final packet reaches the receiver. -/
def receiveData (w : Wire m n) (x : Sent) : Except Check (Wire m n) :=
  if x.type = some .data ∧ x.bytes.length = 2 then .ok w
  else
    (w.rx.handleDataPacket (getPacketControlBit (loadBeU16 x.bytes)) x.seqId (x.bytes.drop 2)
      (x.type = some .fin)).map fun (rx, _, _) ↦ { w with rx }

/-- `channel.cpp:495–505`: an acknowledgement or a flow-control packet reaches the
transmitter. -/
def receiveReply (w : Wire m n) (x : Sent) : Except Check (Wire m n) :=
  let controlBit := getPacketControlBit (loadBeU16 x.bytes)
  match x.type with
  | some .dataAck => (w.tx.ack controlBit x.seqId (x.bytes.drop 2)).map fun (tx, _) ↦ { w with tx }
  | some .flowControl =>
    if x.bytes.length ≠ 2 then .ok w
    else .ok { w with tx := (w.tx.updateRecvHimark controlBit x.seqId).1 }
  | _ => .ok w

/-- One call, delivery or loss. -/
def step (w : Wire m n) : Act → Except Check (Wire m n)
  | .tryWrite buf => (w.tx.tryWrite buf).map fun (tx, _, _) ↦ { w with tx }
  | .flush => .ok { w with tx := w.tx.flush.1 }
  | .close => w.tx.close.map fun tx ↦ { w with tx }
  | .getBufferToSend now draw next =>
    let (tx, out, _) := w.tx.getBufferToSend now draw next
    match out with
    | none => .ok { w with tx }
    | some pos => .ok { w with tx, toRx := post w.toRx pos (tx.getOutBuffer pos).data }
  | .tryRead count => (w.rx.tryRead count).map fun (rx, _, _) ↦ { w with rx }
  | .peek => .ok { w with rx := w.rx.peek.1 }
  | .availableForRead => .ok { w with rx := w.rx.availableForRead.1 }
  | .markInputClosed => w.rx.markInputClosed.map fun (rx, _) ↦ { w with rx }
  | .ack => .ok { w with rx := w.rx.ack.1, toTx := post w.toTx w.rx.unackSeq w.rx.ack.2 }
  | .updateRecvHimark now next =>
    let (rx, bytes, _) := w.rx.updateRecvHimark now next
    .ok { w with rx, toTx := post w.toTx rx.recvHimark bytes }
  | .deliverToRx =>
    match w.toRx with
    | [] => .ok w
    | x :: rest => { w with toRx := rest }.receiveData x
  | .deliverToTx =>
    match w.toTx with
    | [] => .ok w
    | x :: rest => { w with toTx := rest }.receiveReply x
  | .loseToRx i => .ok { w with toRx := w.toRx.eraseIdx i }
  | .loseToTx i => .ok { w with toTx := w.toTx.eraseIdx i }

end Wire

/-- `transmitter.cpp:233–240`: the acknowledgement is ignored as bogus. -/
def Transmitter.BogusAck {n : LinkBufferSize} (t : Transmitter n) (seqId : BitVec 16) : Prop :=
  (t.outRing.restorePosHighBits seqId 12).Gt t.outRing.end_

/-- `transmitter.cpp:304–313`: the flow-control packet is ignored as bogus. -/
def Transmitter.BogusHimark {n : LinkBufferSize} (t : Transmitter n) (seqId : BitVec 16) : Prop :=
  t.outRing.restorePosHighBits seqId 12 < t.recvHimark ∨
    (t.outRing.restorePosHighBits seqId 12).Gt (t.outRing.end_.add t.peerReceiveBufferSize)

instance {n : LinkBufferSize} (t : Transmitter n) (seqId : BitVec 16) :
    Decidable (t.BogusAck seqId) :=
  inferInstanceAs (Decidable (SeqNum.Gt _ _))

instance {n : LinkBufferSize} (t : Transmitter n) (seqId : BitVec 16) :
    Decidable (t.BogusHimark seqId) :=
  inferInstanceAs (Decidable (_ ∨ _))

namespace Wire

variable {m n : LinkBufferSize}

/-- The number of a data packet is expanded, on arrival, to the one its sender put in. -/
def TakesData (w : Wire m n) (x : Sent) : Prop :=
  w.rx.inRing.restorePosHighBits x.seqId 12 = x.seq

/-- The number of a reply is expanded, on arrival, to the one its sender put in, and the reply
is not refused as bogus. -/
def TakesReply (w : Wire m n) (x : Sent) : Prop :=
  w.tx.outRing.restorePosHighBits x.seqId 12 = x.seq ∧
    (x.type = some .dataAck → ¬ w.tx.BogusAck x.seqId) ∧
    (x.type = some .flowControl → ¬ w.tx.BogusHimark x.seqId)

instance (w : Wire m n) (x : Sent) : Decidable (w.TakesData x) :=
  inferInstanceAs (Decidable (_ = _))

instance (w : Wire m n) (x : Sent) : Decidable (w.TakesReply x) :=
  inferInstanceAs (Decidable (_ ∧ _ ∧ _))

/-- Every number under way is reconstructed. -/
def Reconstructs (w : Wire m n) : Prop :=
  (∀ x ∈ w.toRx, w.TakesData x) ∧ ∀ x ∈ w.toTx, w.TakesReply x

instance (w : Wire m n) : Decidable w.Reconstructs := inferInstanceAs (Decidable (_ ∧ _))

end Wire

/-! ### Numbers in the window -/

namespace Transmitter

variable {n : LinkBufferSize}

/-- The window spans `b` to `e`, everything handed out is below `sent`, and every packet
carries the low bits of its position. -/
structure Tracked (t : Transmitter n) (b e sent : Int) : Prop where
  spans : t.outRing.Spans b e
  pacing : t.Pacing b e sent
  numbered : ∀ p, b ≤ p → p < e →
    getPacketSeq (t.bufferAt p).header = (SeqNum.ofPos p).raw &&& 0x0FFF#16

section

variable {t t' : Transmitter n} {b e b' e' sent : Int} {eff : Effect}

/-- Effects that pop only what was handed out keep the numbers. -/
theorem Tracked.moves (h : t.Tracked b e sent) (hm : Moves (t, b, e) eff (t', b', e'))
    (hpop : ∀ p, eff = .pop p → p < sent) (hreset : ∀ x y, eff = .reset x y → x = y) :
    t'.Tracked b' e' (eff.sentUpTo sent) :=
  ⟨hm.spans h.spans, h.pacing.moves h.spans hm hpop hreset, Numbered.moves h.numbered hm⟩

private theorem Tracked.path {effs : List Effect} (h : t.Tracked b e sent)
    (hp : Path Moves (t, b, e) effs (t', b', e')) (hpop : ∀ p, .pop p ∈ effs → p < sent)
    (hreset : ∀ x y, .reset x y ∈ effs → x = y) :
    ∃ sent', sent ≤ sent' ∧ t'.Tracked b' e' sent' ∧ ∀ p fast, .send p fast ∈ effs → p < sent' := by
  have hkeep := hp.keeps Effect.sentUpTo (fun x k ↦ sent ≤ k ∧ x.1.Tracked x.2.1 x.2.2 k)
    (fun x eff y k heff ⟨hk, h1⟩ hm ↦ ⟨hk.trans (eff.le_sentUpTo k), h1.moves hm
      (fun p hp ↦ (hpop p (hp ▸ heff)).trans_le hk) fun x y hr ↦ hreset x y (hr ▸ heff)⟩)
    ⟨le_refl sent, h⟩
  exact ⟨_, hkeep.1, hkeep.2, fun p fast hmem ↦ lt_foldl_sentUpTo hmem sent⟩

end

end Transmitter

/-- Closing the input only ever moves the start of the window. -/
theorem Receiver.markInputClosed_ring {n : LinkBufferSize} {r r' : Receiver n} {b e : Int}
    {ready : Bool} (hs : r.inRing.Spans b e) (h : r.markInputClosed = .ok (r', ready)) :
    (∃ b', r'.inRing.Spans b' e ∧ b ≤ b') ∧ r'.unackSeq = r.unackSeq := by
  obtain ⟨due, ready', hok⟩ := Receiver.markInputClosed_ok hs
  rw [hok] at h
  cases h
  exact ⟨⟨e, spans_new n e, hs.le⟩, rfl⟩

/-- The effects that neither drop packets nor move the credit. -/
def Effect.IsLocal : Effect → Prop
  | .pop _ => False
  | .reset _ _ => False
  | .himark _ => False
  | _ => True

namespace Wire

variable {m n : LinkBufferSize}

/-! ### Order along the medium -/

/-- A packet that carries the low bits of a position. -/
structure Carries (x : Sent) (q : Int) : Prop where
  seq_eq : x.seq = .ofPos q
  seqId_eq : x.seqId = (SeqNum.ofPos q).raw &&& 0x0FFF#16

/-- What the receiver tells the transmitter: how far it has received, and how far it has
room. -/
inductive Reply where
  | ack (u : Int)
  | himark (h : Int)

/-- A later reply names no position before one acknowledged, and room only grows. -/
def Reply.Before : Reply → Reply → Prop
  | .ack u, .ack u' => u ≤ u'
  | .ack u, .himark h => u ≤ h
  | .himark h, .himark h' => h ≤ h'
  | .himark _, .ack _ => True

/-- The reply a packet is. -/
def IsReply (x : Sent) : Reply → Prop
  | .ack u => Carries x u ∧ x.type = some .dataAck
  | .himark h => Carries x h ∧ x.type = some .flowControl

/-- Acknowledgements lie between the start `b` of the transmitter's window and `u`. Himarks lie
past `b`, not below the credit `h` and not above `room`. -/
def Reply.Within (b h u room : Int) : Reply → Prop
  | .ack a => b ≤ a ∧ a ≤ u
  | .himark k => b ≤ k ∧ h ≤ k ∧ k ≤ room

/-- The transmitter's window spans `b` to `e`, with everything below `sent` handed out and
credit up to `h`. The receiver's window spans `rb` to `re`, acknowledged up to `u`. What is
under way is ordered. -/
structure Ordered (w : Wire m n) (b e sent h rb re u : Int) : Prop where
  tx : w.tx.Tracked b e sent
  credit : w.tx.Credit e h
  size_eq : w.tx.peerReceiveBufferSize = 2 ^ n.val
  rx : w.rx.inRing.Spans rb re
  unack_eq : w.rx.unackSeq = .ofPos u
  unack_le : u ≤ re
  received : re ≤ sent
  acked : b ≤ u
  himark_le : h ≤ rb + 2 ^ n.val
  data : InOrder (fun x q ↦ Carries x q ∧ re ≤ q + 1024 ∧ q < sent) (fun p q ↦ p < q + 1024) w.toRx
  replies : InOrder (fun x y ↦ IsReply x y ∧ y.Within b h u (rb + 2 ^ n.val)) Reply.Before w.toTx

section

variable {w w' : Wire m n} {b e sent h rb re u : Int}

-- The transmitter takes a few effects, some of them by a reply that has left the queue.
private theorem Ordered.of_tx (ho : w.Ordered b e sent h rb re u) {tx : Transmitter m}
    {b' e' : Int} {effs : List Effect} (toTx : List Sent)
    (hp : Path Transmitter.Moves (w.tx, b, e) effs (tx, b', e'))
    (hpop : ∀ p, .pop p ∈ effs → p < sent) (hreset : ∀ x y, .reset x y ∈ effs → x = y)
    (hb : b' ≤ u) (hroom : effs.foldl Effect.himarkAfter h ≤ rb + 2 ^ n.val)
    (hrep : InOrder (fun x y ↦ IsReply x y ∧
      y.Within b' (effs.foldl Effect.himarkAfter h) u (rb + 2 ^ n.val)) Reply.Before toTx) :
    ∃ sent', { w with tx, toTx }.Ordered b' e' sent' (effs.foldl Effect.himarkAfter h) rb re u ∧
      ∀ p fast, .send p fast ∈ effs → p < sent' := by
  obtain ⟨sent', hle, htx, hsent⟩ := ho.tx.path hp hpop hreset
  refine ⟨sent', ⟨htx, ho.credit.path ho.tx.spans hp, ?_, ho.rx, ho.unack_eq, ho.unack_le,
    ho.received.trans hle, hb, hroom, ?_, hrep⟩, hsent⟩
  · rw [Transmitter.path_peerReceiveBufferSize hp]
    exact ho.size_eq
  · exact ho.data.mono fun x q ⟨hc, hre, hq⟩ ↦ ⟨hc, hre, by omega⟩

private theorem Ordered.of_local (ho : w.Ordered b e sent h rb re u) {tx : Transmitter m} {e' : Int}
    {effs : List Effect} (hp : Path Transmitter.Moves (w.tx, b, e) effs (tx, b, e'))
    (hk : ∀ eff ∈ effs, eff.IsLocal) :
    ∃ sent', { w with tx }.Ordered b e' sent' h rb re u ∧
      ∀ p fast, .send p fast ∈ effs → p < sent' := by
  have hstay := foldl_himarkAfter (fun k hmem ↦ (hk _ hmem).elim) h
  have hroom := ho.himark_le
  have hrep := ho.replies
  rw [← hstay] at hroom hrep ⊢
  exact ho.of_tx w.toTx hp (fun p hmem ↦ (hk _ hmem).elim) (fun x y hmem ↦ (hk _ hmem).elim)
    ho.acked hroom hrep

-- The receiver moves on, after a data packet that may have left the queue.
private theorem Ordered.of_rx (ho : w.Ordered b e sent h rb re u) {rx : Receiver n}
    {rb' re' u' : Int} {toRx : List Sent} (hs : rx.inRing.Spans rb' re')
    (hun : rx.unackSeq = .ofPos u') (hb : rb ≤ rb') (hu : u ≤ u') (hue : u' ≤ re')
    (hsent : re' ≤ sent)
    (hdata : InOrder (fun x q ↦ Carries x q ∧ re' ≤ q + 1024 ∧ q < sent)
      (fun p q ↦ p < q + 1024) toRx) :
    { w with rx, toRx }.Ordered b e sent h rb' re' u' := by
  have hroom := ho.himark_le
  refine ⟨ho.tx, ho.credit, ho.size_eq, hs, hun, hue, hsent, ho.acked.trans hu, by omega, hdata, ?_⟩
  refine ho.replies.mono fun x y ⟨hx, hy⟩ ↦ ⟨hx, ?_⟩
  cases y with
  | ack a => exact ⟨hy.1, hy.2.trans hu⟩
  | himark k => exact ⟨hy.1, hy.2.1, by have := hy.2.2; omega⟩

/-- Some windows make the pair ordered. -/
def Sound (w : Wire m n) : Prop := ∃ b e sent h rb re u, w.Ordered b e sent h rb re u

private theorem Ordered.tryWrite (ho : w.Ordered b e sent h rb re u) {buf : List UInt8}
    (hs : w.step (.tryWrite buf) = .ok w') : w'.Sound := by
  obtain ⟨⟨tx, written, ready⟩, hw, rfl⟩ := map_eq_ok.mp hs
  obtain ⟨-, effs, e', hpath, -, hk⟩ := Transmitter.tryWrite_path ho.tx.spans hw
  have hlocal (eff : Effect) (heff : eff ∈ effs) : eff.IsLocal := by
    have := hk eff heff
    cases eff <;> trivial
  obtain ⟨sent', ho', -⟩ := ho.of_local hpath hlocal
  exact ⟨_, _, _, _, _, _, _, ho'⟩

private theorem Ordered.flush (ho : w.Ordered b e sent h rb re u) (hs : w.step .flush = .ok w') :
    w'.Sound := by
  cases hs
  obtain ⟨effs, hpath, hk⟩ := Transmitter.flush_path w.tx b e
  obtain ⟨sent', ho', -⟩ := ho.of_local hpath fun eff heff ↦ by rw [hk eff heff]; trivial
  exact ⟨_, _, _, _, _, _, _, ho'⟩

private theorem Ordered.close (ho : w.Ordered b e sent h rb re u) (hs : w.step .close = .ok w') :
    w'.Sound := by
  obtain ⟨tx, hok, rfl⟩ := map_eq_ok.mp hs
  obtain ⟨tx', effs, e', hok', hpath, -, -, hk⟩ := Transmitter.close_path ho.tx.spans
  obtain rfl : tx' = tx := Except.ok.inj (hok'.symm.trans hok)
  have hlocal (eff : Effect) (heff : eff ∈ effs) : eff.IsLocal := by
    have := hk eff heff
    cases eff <;> trivial
  obtain ⟨sent', ho', -⟩ := ho.of_local hpath hlocal
  exact ⟨_, _, _, _, _, _, _, ho'⟩

/-- A packet handed out is behind those under way by less than a window. -/
theorem Ordered.getBufferToSend (ho : w.Ordered b e sent h rb re u) {now : Uptime}
    {draw next : Nat} (hs : w.step (.getBufferToSend now draw next) = .ok w') : w'.Sound := by
  have hsend := Transmitter.getBufferToSend_path ho.tx.spans now draw next
  rw [step] at hs
  revert hs hsend
  rcases w.tx.getBufferToSend now draw next with ⟨tx, out, next'⟩
  intro hs hsend
  dsimp only at hs hsend
  cases hsend with
  | idle effs hpath hk =>
    cases hs
    obtain ⟨sent', ho', -⟩ := ho.of_local hpath fun eff heff ↦ by
      obtain ⟨p, rfl⟩ := hk eff heff
      trivial
    exact ⟨_, _, _, _, _, _, _, ho'⟩
  | @sent t1 _ p effs fast hpath hk hm hl hu =>
    cases hs
    have hlocal (eff : Effect) (heff : eff ∈ effs ++ [.send p fast]) : eff.IsLocal := by
      rcases List.mem_append.mp heff with heff | heff
      · obtain ⟨p, rfl⟩ := hk eff heff
        trivial
      · rw [List.mem_singleton.mp heff]
        trivial
    obtain ⟨sent', ho', hsent⟩ := ho.of_local (hpath.append (.single hm)) hlocal
    have hp := hsent p fast (by simp)
    have hcap := capacity_le m
    have hus := ho.tx.spans.used
    have hse := ho'.tx.pacing.le_end
    have hrec := ho'.received
    have hnum := ho'.tx.numbered p hl hu
    refine ⟨_, _, _, _, _, _, _, { ho' with data := ?_ }⟩
    rw [post, if_neg (by simp [OutBuffer.data, storeBeU16, beBytes])]
    refine ho'.data.push (v := p) ⟨⟨rfl, ?_⟩, by omega, hp⟩ ?_
    · rw [Sent.seqId, Transmitter.getOutBuffer_ofPos, OutBuffer.data, loadBeU16_store]
      exact hnum
    · rintro y - q ⟨-, -, hq⟩
      omega
  | stray hbe hcont =>
    subst hbe
    rw [ho.tx.pacing.not_contains ho.tx.spans] at hcont
    cases hcont

private theorem Ordered.of_ring (ho : w.Ordered b e sent h rb re u) {rx : Receiver n} {rb' : Int}
    (hs : rx.inRing.Spans rb' re) (hb : rb ≤ rb') (hun : rx.unackSeq = w.rx.unackSeq) :
    { w with rx }.Ordered b e sent h rb' re u :=
  ho.of_rx hs (hun.trans ho.unack_eq) hb (le_refl u) ho.unack_le ho.received ho.data

private theorem Ordered.tryRead (ho : w.Ordered b e sent h rb re u) {count : Nat}
    (hs : w.step (.tryRead count) = .ok w') : w'.Sound := by
  obtain ⟨⟨rx, bytes, ready⟩, hr, rfl⟩ := map_eq_ok.mp hs
  obtain ⟨rb', hring, hb⟩ := Receiver.tryRead_ring ho.rx hr
  exact ⟨_, _, _, _, _, _, _, ho.of_ring hring hb (Receiver.tryRead_sameLink hr).unackSeq⟩

private theorem Ordered.look (ho : w.Ordered b e sent h rb re u) :
    { w with rx := w.rx.look }.Sound := by
  refine ⟨_, _, _, _, _, _, _, ho.of_ring ?_ (le_refl rb) w.rx.look_sameLink.unackSeq⟩
  rw [Receiver.look_inRing]
  exact ho.rx

private theorem Ordered.markInputClosed (ho : w.Ordered b e sent h rb re u)
    (hs : w.step .markInputClosed = .ok w') : w'.Sound := by
  obtain ⟨⟨rx, ready⟩, hr, rfl⟩ := map_eq_ok.mp hs
  obtain ⟨⟨rb', hring, hb⟩, hun⟩ := Receiver.markInputClosed_ring ho.rx hr
  exact ⟨_, _, _, _, _, _, _, ho.of_ring hring hb hun⟩

/-- An acknowledgement names no position before those of the replies under way. -/
theorem Ordered.ack (ho : w.Ordered b e sent h rb re u) (hs : w.step .ack = .ok w') :
    w'.Sound := by
  cases hs
  have hring : w.rx.ack.1.inRing = w.rx.inRing ∧ w.rx.ack.1.unackSeq = w.rx.unackSeq := by
    rcases w.rx.ack_fst with he | ⟨-, he⟩
    · rw [he]
      exact ⟨rfl, rfl⟩
    · rw [he]
      exact ⟨rfl, rfl⟩
  have ho' : { w with rx := w.rx.ack.1 }.Ordered b e sent h rb re u :=
    ho.of_ring (by rw [hring.1]; exact ho.rx) (le_refl rb) hring.2
  refine ⟨_, _, _, _, _, _, _, { ho' with replies := ?_ }⟩
  unfold post
  split
  · exact ho.replies
  next hne =>
  obtain ⟨bitmap, hbytes⟩ := Receiver.ack_snd hne
  refine ho.replies.push (v := .ack u) ⟨⟨⟨ho.unack_eq, ?_⟩, ?_⟩, ho.acked, le_refl u⟩ ?_
  · rw [Sent.seqId, hbytes, loadBeU16_store, getPacketSeq_format, ho.unack_eq]
  · rw [Sent.type, hbytes, loadBeU16_store, getPacketType_format]
  · rintro y - r ⟨-, hr⟩
    cases r with
    | ack a => exact hr.2
    | himark k => trivial

/-- A himark lies past everything acknowledged. -/
theorem Ordered.updateRecvHimark (ho : w.Ordered b e sent h rb re u) {now : Uptime}
    {next : Nat} (hs : w.step (.updateRecvHimark now next) = .ok w') : w'.Sound := by
  have hcases := w.rx.updateRecvHimark_cases now next
  rw [step] at hs
  revert hs hcases
  rcases w.rx.updateRecvHimark now next with ⟨rx, bytes, next'⟩
  intro hs hcases
  dsimp only at hs hcases
  cases hs
  rcases hcases with ⟨rfl, rfl⟩ | ⟨rfl, rfl⟩
  · exact ⟨_, _, _, _, _, _, _, ho⟩
  have hadd := ho.rx.begin_add_capacity
  have hbu := ho.acked
  have hue := ho.unack_le
  have hus := ho.rx.used
  let rx : Receiver n := { w.rx with
    recvHimark := w.rx.inRing.begin_.add w.rx.inRing.capacity
    recvHimarkUpdateExpiration := now + 100000 }
  have hkept : { w with rx }.Ordered b e sent h rb re u := ho.of_ring ho.rx (le_refl rb) rfl
  refine ⟨_, _, _, _, _, _, _, { hkept with replies := ?_ }⟩
  rw [post, if_neg (by simp [storeBeU16, beBytes])]
  rw [← List.append_nil (storeBeU16 _)]
  refine ho.replies.push (v := .himark (rb + 2 ^ n.val))
    ⟨⟨⟨hadd, ?_⟩, ?_⟩, by omega, ho.himark_le, le_refl _⟩ ?_
  · rw [Sent.seqId, loadBeU16_store, getPacketSeq_format, hadd]
  · rw [Sent.type, loadBeU16_store, getPacketType_format]
  · rintro y - r ⟨-, hr⟩
    cases r with
    | ack a => have := hr.2; exact (by omega : a ≤ rb + 2 ^ n.val)
    | himark k => exact hr.2.2

/-! ### Arrivals -/

/-- A data packet arrives within reach of the receiver's window. -/
theorem Ordered.restore_data (ho : w.Ordered b e sent h rb re u) {x : Sent} {q : Int}
    (hc : Carries x q) (hl : re ≤ q + 1024) (hq : q < sent) :
    w.rx.inRing.restorePosHighBits x.seqId 12 = .ofPos q ∧ rb - 2048 ≤ q ∧ q < rb + 2048 := by
  have hm := capacity_le m
  have hn := capacity_le n
  have hus := ho.tx.spans.used
  have hur := ho.rx.used
  have hle := ho.rx.le
  have hse := ho.tx.pacing.le_end
  have hbu := ho.acked
  have hue := ho.unack_le
  have hlo : rb - 2048 ≤ q := by omega
  have hhi : q < rb + 2048 := by omega
  rw [hc.seqId_eq]
  exact ⟨ho.rx.restore_exact hlo hhi, hlo, hhi⟩

/-- An acknowledgement arrives inside the transmitter's window. -/
theorem Ordered.restore_ack (ho : w.Ordered b e sent h rb re u) {x : Sent} {a : Int}
    (hc : Carries x a) (hl : b ≤ a) (ha : a ≤ u) :
    w.tx.outRing.restorePosHighBits x.seqId 12 = .ofPos a ∧ a ≤ e ∧ a < b + 2048 := by
  have hm := capacity_le m
  have hus := ho.tx.spans.used
  have hse := ho.tx.pacing.le_end
  have hue := ho.unack_le
  have hrec := ho.received
  rw [hc.seqId_eq]
  exact ⟨ho.tx.spans.restore_exact (by omega) (by omega), by omega, by omega⟩

/-- A himark arrives at most two windows past the start of the transmitter's. -/
theorem Ordered.himark_near (ho : w.Ordered b e sent h rb re u) {k : Int}
    (hk : k ≤ rb + 2 ^ n.val) : k ≤ e + 2 ^ n.val ∧ k ≤ b + 2 ^ m.val + 2 ^ n.val := by
  have hus := ho.tx.spans.used
  have hse := ho.tx.pacing.le_end
  have hle := ho.rx.le
  have hrec := ho.received
  constructor
  · omega
  · omega

private theorem Ordered.receiveData (ho : w.Ordered b e sent h rb re u) {x : Sent}
    {rest : List Sent} (hq : w.toRx = x :: rest)
    (hs : { w with toRx := rest }.receiveData x = .ok w') : w'.Sound := by
  have hdata := ho.data
  rw [hq] at hdata
  obtain ⟨q, ⟨hc, hl, hsent⟩, hrest⟩ := hdata.pop
  obtain ⟨hrestore, hlo, hhi⟩ := ho.restore_data hc hl hsent
  have hsame (rx : Receiver n) (hring : rx.inRing = w.rx.inRing)
      (hun : rx.unackSeq = w.rx.unackSeq) :
      { w with rx, toRx := rest }.Ordered b e sent h rb re u :=
    ho.of_rx (hring ▸ ho.rx) (hun.trans ho.unack_eq) (le_refl rb) (le_refl u) ho.unack_le
      ho.received (hrest.mono fun y p hy ↦ hy.1)
  unfold Wire.receiveData at hs
  split at hs
  · cases hs
    exact ⟨_, _, _, _, _, _, _, hsame w.rx rfl rfl⟩
  obtain ⟨⟨rx, ack, new⟩, hh, rfl⟩ := map_eq_ok.mp hs
  cases Receiver.handleDataPacket_arrival ho.rx hh with
  | ignored => exact ⟨_, _, _, _, _, _, _, hsame _ rfl rfl⟩
  | consumed => exact ⟨_, _, _, _, _, _, _, hsame _ rfl rfl⟩
  | accepted q' rb' _ _ _ _ hq' hb hu _ ha =>
    have hcap := capacity_le n
    obtain rfl := Receiver.position_unique hrestore hq' hlo hhi (by omega) (by omega)
    have hrec := ho.received
    have hnew : InOrder (fun y p ↦ Carries y p ∧ max re (q + 1) ≤ p + 1024 ∧ p < sent)
        (fun p q ↦ p < q + 1024) rest :=
      hrest.mono fun y p ⟨⟨hy, hre, hp⟩, hlt⟩ ↦ ⟨hy, by omega, hp⟩
    have hue := ho.unack_le
    rcases ha.unack with ⟨-, hun, rfl⟩ | ⟨heq, u', hun, hlt, hle, -, -, hb'⟩
    · exact ⟨_, _, _, _, _, _, _, ho.of_rx ha.spans (hun.trans ho.unack_eq) (le_refl _) (le_refl u)
        (by omega) (by omega) hnew⟩
    · have hbu := ho.acked
      have hse := ho.tx.pacing.le_end
      have hus := ho.tx.spans.used
      have hm := capacity_le m
      rw [ho.unack_eq, SeqNum.ofPos_eq (by omega) (by omega)] at heq
      refine ⟨_, _, _, _, _, _, _, ho.of_rx ha.spans hun ?_ (by omega) hle (by omega) hnew⟩
      rw [hb']
      split
      · omega
      · exact le_refl rb

private theorem Reply.Within.acked {a room : Int} {r : Reply} (hr : r.Within b h u room)
    (hlater : (Reply.ack a).Before r) : r.Within (max b a) h u room := by
  cases r with
  | ack a' => exact ⟨max_le hr.1 hlater, hr.2⟩
  | himark k => exact ⟨max_le hr.1 hlater, hr.2⟩

private theorem Reply.Within.raised {k room : Int} {r : Reply} (hr : r.Within b h u room)
    (hlater : (Reply.himark k).Before r) : r.Within b k u room := by
  cases r with
  | ack a => exact hr
  | himark k' => exact ⟨hr.1, hlater, hr.2.2⟩

private theorem Ordered.receiveAck (ho : w.Ordered b e sent h rb re u) {x : Sent}
    {rest : List Sent} {a : Int} (hx : IsReply x (.ack a)) (hl : b ≤ a) (hu : a ≤ u)
    (hrest : InOrder (fun y r ↦ (IsReply y r ∧ r.Within b h u (rb + 2 ^ n.val)) ∧
      (Reply.ack a).Before r) Reply.Before rest)
    (hs : { w with toTx := rest }.receiveReply x = .ok w') : w'.Sound := by
  obtain ⟨hc, htype⟩ := hx
  obtain ⟨hrestore, -, hnear⟩ := ho.restore_ack hc hl hu
  rw [Wire.receiveReply, htype] at hs
  obtain ⟨⟨tx, rushed⟩, hack, rfl⟩ := map_eq_ok.mp hs
  obtain ⟨tx', rushed', hack', hacking⟩ := Transmitter.ack_path ho.tx.spans
    (getPacketControlBit (loadBeU16 x.bytes)) x.seqId (x.bytes.drop 2)
  obtain ⟨rfl, rfl⟩ : tx' = tx ∧ rushed' = rushed := by
    rw [hack'] at hack
    cases hack
    exact ⟨rfl, rfl⟩
  cases hacking with
  | ignored => exact ⟨_, _, _, _, _, _, _, { ho with replies := hrest.mono fun z r hz ↦ hz.1 }⟩
  | @applied _ q e' effs _ _ hq' hl' hu' _ hpath hk =>
    have hus := ho.tx.spans.used
    obtain rfl : a = q := (SeqNum.ofPos_eq (by omega) (by omega)).mp (hrestore.symm.trans hq')
    have hstay := foldl_himarkAfter (fun k hmem ↦ (hk _ hmem).elim) h
    have hrec := ho.received
    have hue := ho.unack_le
    have hbu := ho.acked
    obtain ⟨sent', ho', -⟩ := ho.of_tx rest hpath
      (fun p hmem ↦ by have : p < a := hk _ hmem; omega) (fun x y hmem ↦ hk _ hmem) (by omega)
      (by rw [hstay]; exact ho.himark_le)
      (by rw [hstay]; exact hrest.mono fun z r ⟨⟨hz, hr⟩, hlater⟩ ↦ ⟨hz, hr.acked hlater⟩)
    exact ⟨_, _, _, _, _, _, _, ho'⟩

-- A himark exactly 2048 ahead is taken for one 2048 behind, and that is refused.
private theorem Ordered.restore_himark (ho : w.Ordered b e sent h rb re u) {x : Sent}
    {k p b' e' : Int} {tx : Transmitter m} (hc : Carries x k) (hl : b ≤ k) (hhk : h ≤ k)
    (hroom : k ≤ rb + 2 ^ n.val) (hp : w.tx.outRing.restorePosHighBits x.seqId 12 = .ofPos p)
    (hm : Transmitter.Moves (w.tx, b, e) (.himark p) (tx, b', e')) : p = k := by
  have hcm := capacity_le m
  have hcn := capacity_le n
  have hus := ho.tx.spans.used
  have hbe := ho.tx.spans.le
  have hnear := (ho.himark_near hroom).2
  have hend := ho.credit.end_le
  have hfar := ho.credit.le_end
  cases hm with
  | himark _ hl hu hge =>
    rw [ho.credit.himark_eq, SeqNum.ofPos_lt (by omega) (by omega)] at hge
    have hlt : k < b + 2048 := by
      by_contra hno
      obtain rfl : k = b + 2048 := by omega
      rw [hc.seqId_eq, ho.tx.spans.restore_half, SeqNum.ofPos_eq (by omega) (by omega)] at hp
      omega
    rw [hc.seqId_eq, ho.tx.spans.restore_exact (by omega) hlt,
      SeqNum.ofPos_eq (by omega) (by omega)] at hp
    exact hp.symm

private theorem Ordered.receiveHimark (ho : w.Ordered b e sent h rb re u) {x : Sent}
    {rest : List Sent} {k : Int} (hx : IsReply x (.himark k)) (hl : b ≤ k) (hhk : h ≤ k)
    (hroom : k ≤ rb + 2 ^ n.val)
    (hrest : InOrder (fun y r ↦ (IsReply y r ∧ r.Within b h u (rb + 2 ^ n.val)) ∧
      (Reply.himark k).Before r) Reply.Before rest)
    (hs : { w with toTx := rest }.receiveReply x = .ok w') : w'.Sound := by
  have hsame : { w with toTx := rest }.Sound :=
    ⟨_, _, _, _, _, _, _, { ho with replies := hrest.mono fun z r hz ↦ hz.1 }⟩
  obtain ⟨hc, htype⟩ := hx
  rw [Wire.receiveReply, htype] at hs
  dsimp only at hs
  split at hs
  · cases hs
    exact hsame
  cases hs
  have hpath := Transmitter.updateRecvHimark_path ho.tx.spans
    (getPacketControlBit (loadBeU16 x.bytes)) x.seqId
  revert hpath
  generalize (w.tx.updateRecvHimark (getPacketControlBit (loadBeU16 x.bytes)) x.seqId).1 = tx
  rintro (rfl | ⟨p, hp, -, hm⟩)
  · exact hsame
  obtain rfl := ho.restore_himark hc hl hhk hroom hp hm
  obtain ⟨sent', ho', -⟩ := ho.of_tx rest (.single hm) (by simp) (by simp) ho.acked hroom
    (hrest.mono fun z r ⟨⟨hz, hr⟩, hlater⟩ ↦ ⟨hz, hr.raised hlater⟩)
  exact ⟨_, _, _, _, _, _, _, ho'⟩

private theorem Ordered.receiveReply (ho : w.Ordered b e sent h rb re u) {x : Sent}
    {rest : List Sent} (hq : w.toTx = x :: rest)
    (hs : { w with toTx := rest }.receiveReply x = .ok w') : w'.Sound := by
  have hreplies := ho.replies
  rw [hq] at hreplies
  obtain ⟨y, ⟨hx, hy⟩, hrest⟩ := hreplies.pop
  cases y with
  | ack a => exact ho.receiveAck hx hy.1 hy.2 hrest hs
  | himark k => exact ho.receiveHimark hx hy.1 hy.2.1 hy.2.2 hrest hs

/-- Every step keeps the pair ordered. -/
theorem Sound.step {a : Act} (hw : w.Sound) (hs : w.step a = .ok w') : w'.Sound := by
  obtain ⟨b, e, sent, h, rb, re, u, ho⟩ := hw
  cases a with
  | tryWrite => exact ho.tryWrite hs
  | flush => exact ho.flush hs
  | close => exact ho.close hs
  | getBufferToSend => exact ho.getBufferToSend hs
  | tryRead => exact ho.tryRead hs
  | peek =>
    rw [Wire.step, Receiver.peek_fst] at hs
    cases hs
    exact ho.look
  | availableForRead =>
    rw [Wire.step, Receiver.availableForRead_fst] at hs
    cases hs
    exact ho.look
  | markInputClosed => exact ho.markInputClosed hs
  | ack => exact ho.ack hs
  | updateRecvHimark => exact ho.updateRecvHimark hs
  | deliverToRx =>
    rw [Wire.step] at hs
    split at hs
    · cases hs
      exact ⟨_, _, _, _, _, _, _, ho⟩
    · next x rest hq => exact ho.receiveData hq hs
  | deliverToTx =>
    rw [Wire.step] at hs
    split at hs
    · cases hs
      exact ⟨_, _, _, _, _, _, _, ho⟩
    · next x rest hq => exact ho.receiveReply hq hs
  | loseToRx i =>
    cases hs
    exact ⟨_, _, _, _, _, _, _, { ho with data := ho.data.lose i }⟩
  | loseToTx i =>
    cases hs
    exact ⟨_, _, _, _, _, _, _, { ho with replies := ho.replies.lose i }⟩

private theorem close_path_end {t t' : Transmitter m} {s b' e' : Int} {effs : List Effect}
    (hp : Path Transmitter.Moves (t, s, s) effs (t', b', e')) (hk : ∀ eff ∈ effs, eff.IsClose) :
    e' ≤ s + 1 := by
  have hend := hp.invariant (fun x ↦ x.2.2 = s ∨ x.2.2 = s + 1 ∧ x.1.endOfStream = true)
    (fun x eff y heff hx hm ↦ ?_) (.inl rfl)
  · dsimp only at hend
    omega
  have hclose := hk eff heff
  cases hm with
  | flush => exact hx
  | calm => exact hx
  | closeLater => exact hx.imp_right fun hx ↦ ⟨hx.1, rfl⟩
  | closeNow _ ho =>
    rcases hx with hx | ⟨-, heos⟩
    · exact .inr ⟨congrArg (· + 1) hx, rfl⟩
    · exact absurd (ho.1.symm.trans heos) (by decide)
  | _ => exact hclose.elim

/-- A pair starts out ordered, with nothing under way. -/
theorem sound_start {t : Transmitter m} {r : Receiver n} {txStreamId rxStreamId : UInt32}
    {seq : SeqNum} {controlBit closedEarly : Bool}
    (h0 : start t r txStreamId rxStreamId seq controlBit closedEarly = .ok w) : w.Sound := by
  obtain ⟨s, rfl⟩ : ∃ s, seq = .ofPos s := ⟨seq.raw.toNat, (SeqNum.ofPos_raw seq).symm⟩
  obtain ⟨t0, hinit, hrest⟩ := bind_eq_ok.mp h0
  obtain ⟨t1, hclose, hrest⟩ := bind_eq_ok.mp hrest
  obtain ⟨rx, hrx, rfl⟩ := map_eq_ok.mp hrest
  rw [Transmitter.init_ok] at hinit
  rw [Receiver.reconnect_ok] at hrx
  cases hrx
  have hs : t0.outRing.Spans s s := by cases hinit; exact spans_new m s
  have hnext : t0.nextToSend = .ofPos s := by cases hinit; rfl
  have hpend : t0.hasPendingEof = false := by cases hinit; rfl
  obtain ⟨effs, e, hpath, hk⟩ : ∃ effs e,
      Path Transmitter.Moves (t0, s, s) effs (t1, s, e) ∧ ∀ eff ∈ effs, eff.IsClose := by
    cases closedEarly with
    | false =>
      cases hclose
      exact ⟨[], s, .nil _, by simp⟩
    | true =>
      obtain ⟨t', effs, e, hok, hpath, -, -, hk⟩ := Transmitter.close_path hs
      obtain rfl : t' = t1 := Except.ok.inj (hok.symm.trans hclose)
      exact ⟨effs, e, hpath, hk⟩
  have hempty (p : Int) (hl : s ≤ p) (hu : p < s) :
      getPacketSeq (t0.bufferAt p).header = (SeqNum.ofPos p).raw &&& 0x0FFF#16 := by omega
  have htracked : t0.Tracked s s s :=
    ⟨hs, ⟨le_refl s, le_refl s, ⟨s, hnext, le_refl s, by omega⟩⟩, hempty⟩
  obtain ⟨sent, hle, htx, -⟩ :=
    htracked.path hpath (fun p hp ↦ (hk _ hp).elim) fun x y hp ↦ (hk _ hp).elim
  have hheaded := Transmitter.Headed.path ⟨hs, fun p hl hu ↦ by omega, by simp [hpend]⟩ hpath
  have hend := close_path_end hpath hk
  have hbe := htx.spans.le
  have hcap := capacity_le n
  have hone := one_le_capacity n
  have hsize : ((2 ^ n.val : Nat) : Int) = 2 ^ n.val := by norm_num
  refine ⟨s, e, sent, s + 2 ^ n.val, s, s, s, ⟨htx.spans, ⟨htx.pacing.begin_le, htx.pacing.le_end,
    htx.pacing.next⟩, htx.numbered⟩, ⟨?_, ?_, hheaded.pending, by omega, fun _ ↦ by omega,
    by omega⟩, rfl, spans_new n s, rfl, le_refl s, hle, le_refl s, le_refl _, .nil, .nil⟩
  · dsimp only [Transmitter.setConnected]
    rw [htx.spans.begin_eq, SeqNum.ofPos_add, hsize]
  · dsimp only [Transmitter.setConnected]
    omega

end

end Wire

end RooTransport.Link
