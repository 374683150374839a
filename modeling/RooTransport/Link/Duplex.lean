import RooTransport.Link.ChannelLanes
import RooTransport.Link.Handshake

/-!
# Two channels

A whole link: two channels that connect once, each with its application and its sender thread,
and a medium in between that loses packets of any kind but keeps the order of the others
(`channel.cpp:158–186`, `241–274`, `297–538`). Handshakes, data, acknowledgements and
flow-control packets share the medium. From the moment both ends have called `connect` each
direction is a lane: as long as a half waits for the handshake the lane has it as it will be
once connected, and what reaches the half before that counts as lost.
-/

namespace RooTransport.Link

open RooTransport.Base RingBuffer

/-- The next handshake is due within the longest delay there is. -/
theorem Channel.conn_due {m n : LinkBufferSize} (c : Channel m n) (now : Uptime) (draw next : Nat)
    {d : Uptime} (hc : c.nextScheduledHandshakeUpdate ≤ d) (hd : now + 2 ^ 32 ≤ d) :
    (c.conn now draw next).1.nextScheduledHandshakeUpdate ≤ d := by
  unfold conn
  split
  · exact hc
  · exact hc
  · split
    · exact hc
    · exact hc
  · split
    · exact hc
    · refine le_trans (Nat.add_le_add_left ?_ now) hd
      exact (Nat.mod_lt _ (by norm_num)).le

/-- A channel, the packets it has sent that are under way, and what passed between it and its
application. -/
structure Endpoint (m n : LinkBufferSize) where
  channel : Channel m n
  outbox : List (List UInt8)
  /-- The bytes that were taken for the stream. -/
  accepted : List UInt8
  /-- The bytes that were read. -/
  read : List UInt8
  /-- Whether the stream was closed. -/
  closed : Bool

/-- What happens at one end: a call, or the arrival or loss of a packet of the other end. -/
inductive EndpointAct where
  | call (a : Channel.Act)
  | receive
  | lose (i : Nat)
  deriving DecidableEq, Repr

/-- The clock that is read. -/
def EndpointAct.clock : EndpointAct → Uptime
  | .call a => a.clock
  | _ => 0

namespace Endpoint

variable {m n m' n' : LinkBufferSize}

/-- An end that has not done anything yet. -/
def new (m n : LinkBufferSize) : Endpoint m n := ⟨.new m n, [], [], [], false⟩

/-- The end after a call that leaves the channel `c`. -/
def after (x : Endpoint m n) (a : Channel.Act) (c : Channel m n) : Endpoint m n where
  channel := c
  outbox := posted x.outbox (x.channel.packet a)
  accepted := x.accepted ++ x.channel.taken a
  read := x.read ++ x.channel.given a
  closed := x.closed || x.channel.closes a

/-- What happens at the end `x` of a link whose other end is `y`. -/
def step (x : Endpoint m n) (y : Endpoint m' n') :
    EndpointAct → Except Check (Endpoint m n × Endpoint m' n')
  | .call a => (x.channel.step a).map fun c ↦ (x.after a c, y)
  | .receive =>
    match y.outbox with
    | [] => .ok (x, y)
    | p :: rest => (x.channel.packetReceived p).map fun out ↦
        ({ x with channel := out.1 }, { y with outbox := rest })
  | .lose i => .ok (x, { y with outbox := y.outbox.eraseIdx i })

/-- Each end connects once, under an id of its own, and does not give the connection up. The
stream is not closed while the handshake goes on: the final packet would go out under the
control bit of an earlier stream. Nor is anything but handshakes sent (`channel.cpp:249–255`).
Packets come from the other end only. -/
def Allows (x : Endpoint m n) (y : Endpoint m' n') : EndpointAct → Prop
  | .call (.connect id _ _) => x.channel.myStreamId = 0 ∧ id.val ≠ y.channel.myStreamId
  | .call (.close _) | .call .sendAck | .call (.sendHimark _ _) | .call (.send _ _ _) =>
    x.channel.transmitter.state ≠ .connecting
  | .call (.disconnect _) | .call (.closeInput _) | .call (.packetReceived _) => False
  | _ => True

instance (x : Endpoint m n) (y : Endpoint m' n') (a : EndpointAct) : Decidable (x.Allows y a) :=
  match a with
  | .call (.connect _ _ _) => inferInstanceAs (Decidable (_ ∧ _))
  | .call (.close _) | .call .sendAck | .call (.sendHimark _ _) | .call (.send _ _ _) =>
    inferInstanceAs (Decidable (_ ≠ _))
  | .call (.disconnect _) | .call (.closeInput _) | .call (.packetReceived _) =>
    inferInstanceAs (Decidable False)
  | .call (.read _ _) | .call (.readTurn _ _) | .call (.tryRead _ _) | .call (.peek _)
  | .call (.availableForRead _) | .call (.write _ _) | .call (.writeTurn _ _)
  | .call (.tryWrite _ _) | .call (.flush _) | .call (.conn _ _ _) | .receive | .lose _ =>
    inferInstanceAs (Decidable True)

/-! ### Before the ends meet -/

/-- An end that has called `connect` and has heard nothing yet. Its next handshake is due by
`d`. -/
structure Waiting (x : Endpoint m n) (a : UInt32) (s : SeqNum) (d : Uptime) : Prop where
  tx : x.channel.transmitter = .opening m a s
  rx : x.channel.receiver = .opening n a
  id : x.channel.myStreamId = a
  peer : x.channel.peerStreamId = 0
  acked : x.channel.myStreamIdAckedByPeer = false
  nonzero : a ≠ 0
  short : s.raw &&& 0x0FFF#16 = s.raw
  due : x.channel.nextScheduledHandshakeUpdate ≤ d
  outbox : ∀ p ∈ x.outbox, p = formatHandshake s a 0 true n
  accepted : x.accepted = []
  read : x.read = []
  closed : x.closed = false

section

variable {x : Endpoint m n} {y : Endpoint m' n'} {a b : UInt32} {s t : SeqNum} {d : Uptime}

/-- The calls that the other end does not depend on. -/
theorem Allows.kind {c : Channel.Act} (h : x.Allows y (.call c)) :
    (∃ id draw fn, c = .connect id draw fn) ∨ c.OnTransmitter ∨ c.OnReceiver ∨
      ∃ now draw next, c = .conn now draw next := by
  cases c with
  | connect id draw fn => exact .inl ⟨id, draw, fn, rfl⟩
  | conn now draw next => exact .inr (.inr (.inr ⟨now, draw, next, rfl⟩))
  | disconnect id => exact h.elim
  | closeInput id => exact h.elim
  | packetReceived buf => exact h.elim
  | write | writeTurn | tryWrite | flush | close | send => exact .inr (.inl trivial)
  | read | readTurn | tryRead | peek | availableForRead | sendAck | sendHimark =>
    exact .inr (.inr (.inl trivial))

private theorem step_idle {c : Channel.Act} (h : Lane.Idles x.channel c) :
    x.step y (.call c) = .ok (x, y) := by
  rw [step, h.stepped]
  simp [Except.map, after, h.packet, h.taken, h.given, h.closes]

/-- Nothing happens at an end that has not connected. -/
theorem idles_new {c : Channel.Act} (hal : (new m n).Allows y (.call c))
    (hc : ∀ id draw fn, c ≠ .connect id draw fn) : Lane.Idles (Channel.new m n) c := by
  rcases hal.kind with ⟨id, draw, fn, rfl⟩ | ha | ha | ⟨now, draw, next, rfl⟩
  · exact absurd rfl (hc id draw fn)
  · exact Lane.idles_of_transmitter (Transmitter.atRest_new m) ha fun id _ ↦ by
      simp [Channel.new, Transmitter.new]
  · exact Lane.idles_of_receiver (Receiver.atRest_new n) ha
  · exact ⟨rfl, rfl, rfl, rfl, rfl⟩

/-- A handshake passes by an end that has not connected. -/
theorem receive_new {p : List UInt8} (hp : getPacketType (loadBeU16 p) = some .handshake) :
    ((Channel.new m n).packetReceived p).map Prod.fst = .ok (Channel.new m n) := by
  unfold Channel.packetReceived
  split
  · rfl
  dsimp only
  rw [hp]
  cases parseHandshake p with
  | none => rfl
  | some h =>
    dsimp only
    unfold Channel.handleHandshakePacket
    split
    · rfl
    · rfl

/-- `connect` at an end that has not connected before. -/
theorem waiting_connect (id : { id : UInt32 // id ≠ 0 }) (draw : UInt32) (fn : Option Callback)
    (d : Uptime) :
    Yields ((new m n).step y (.call (.connect id draw fn))) fun out ↦
      out.1.Waiting id (Channel.initialSeq draw) d ∧ out.2 = y := by
  have hok : (Channel.new m n).connect id draw fn = .ok ({
      transmitter := .opening m id (Channel.initialSeq draw)
      receiver := .opening n id
      myStreamId := id
      myStreamIdAckedByPeer := false
      peerStreamId := 0
      needsHandshakeAck := false
      successiveHandshakeRetries := 0
      nextScheduledHandshakeUpdate := 0
      disconnectFn := fn }, none) :=
    bind_eq_ok.mpr ⟨_, Transmitter.init_new m id _,
      bind_eq_ok.mpr ⟨_, Receiver.init_new n id, rfl⟩⟩
  rw [step, Channel.step]
  dsimp only [new]
  rw [hok]
  exact ⟨_, rfl, ⟨rfl, rfl, rfl, rfl, rfl, id.2, Party.initialSeq_short draw, Nat.zero_le d,
    by simp [after, Channel.packet], rfl, rfl, rfl⟩, rfl⟩

private theorem Waiting.call {c : Channel.Act} (h : x.Waiting a s d) (hal : x.Allows y (.call c))
    (hd : c.clock + 2 ^ 32 ≤ d) :
    Yields (x.step y (.call c)) fun out ↦ out.1.Waiting a s d ∧ out.2 = y := by
  have hidle (hi : Lane.Idles x.channel c) : Yields (x.step y (.call c)) fun out ↦
      out.1.Waiting a s d ∧ out.2 = y := ⟨_, step_idle hi, h, rfl⟩
  rcases hal.kind with ⟨id, draw, fn, rfl⟩ | ha | ha | ⟨now, draw, next, rfl⟩
  · exact absurd (h.id.symm.trans hal.1) h.nonzero
  · apply hidle
    apply Lane.idles_of_transmitter _ ha
    · rintro id rfl
      exact hal
    · rw [h.tx]
      exact Transmitter.atRest_opening m a s
  · apply hidle
    apply Lane.idles_of_receiver _ ha
    rw [h.rx]
    exact Receiver.atRest_opening n a
  · have hdue := x.channel.conn_due now draw next h.due hd
    obtain ⟨needsAck, retries, update, hconn⟩ := Channel.conn_fst x.channel now draw next
    rw [hconn] at hdue
    rw [step, Channel.step, hconn]
    refine ⟨_, rfl, { h with
      due := hdue
      outbox := ?_
      accepted := (List.append_nil _).trans h.accepted
      read := (List.append_nil _).trans h.read
      closed := (Bool.or_false _).trans h.closed }, rfl⟩
    intro p hp
    rcases mem_posted.mp hp with hp | ⟨hne, rfl⟩
    · exact h.outbox p hp
    · rw [Channel.packet, (Channel.conn_packet x.channel now draw next hne).2, h.tx, h.id, h.peer]
      rfl

end

/-! ### Once they have met -/

/-- The lane `l` from `x`, under the stream id `a`, to `y`, under `b`, starting at `s`. No timer
of it runs past `d`. -/
structure Joined (x : Endpoint m n) (y : Endpoint m' n') (a b : UInt32) (s : SeqNum) (d : Uptime)
    (l : Lane m n') : Prop where
  tx : x.channel.transmitter = .opening m a s ∧
      l.wire.tx = (Transmitter.opening m a s).setConnected (2 ^ n'.val) (b < a) ∨
    x.channel.transmitter.state ≠ .connecting ∧ l.wire.tx = x.channel.transmitter
  rx : y.channel.receiver = .opening n' b ∧
      l.wire.rx = (Receiver.new n').reconnected b s !(b < a) ∨
    y.channel.receiver.state = .connected ∧ l.wire.rx = y.channel.receiver
  toRx : l.wire.toRx.map Sent.bytes = x.outbox.filter Lane.isData
  toTx : l.wire.toTx.map Sent.bytes = y.outbox.filter Lane.isNotice
  accepted : l.accepted = x.accepted
  read : l.read = y.read
  closed : l.closed = x.closed
  sound : l.Sound s.raw.toNat (b < a) d

/-- What a handshake of `x` says. A stream is acknowledged only once it was opened, and the
end that no longer asks to be acknowledged was. -/
structure Hello (x : Endpoint m n) (y : Endpoint m' n') (a b : UInt32) (s : SeqNum)
    (p : List UInt8) (front : SeqNum) (ack : UInt32) (want : Bool) : Prop where
  packet : p = formatHandshake front a ack want n
  ack : ack = 0 ∨ ack = b ∧ x.channel.receiver.state = .connected
  asks : want = true → front = s
  done : want = false → y.channel.receiver.state = .connected

/-- How far `x` is with the handshake. -/
structure Greeted (x : Endpoint m n) (y : Endpoint m' n') (a b : UInt32) (s : SeqNum)
    (d : Uptime) : Prop where
  id : x.channel.myStreamId = a
  due : x.channel.nextScheduledHandshakeUpdate ≤ d
  short : s.raw &&& 0x0FFF#16 = s.raw
  peer : x.channel.receiver.state = .connecting ∧ x.channel.peerStreamId = 0 ∨
    x.channel.receiver.state = .connected ∧ x.channel.peerStreamId = b
  acked : x.channel.myStreamIdAckedByPeer = false ↔ x.channel.transmitter.state = .connecting
  opened : x.channel.transmitter.state ≠ .connecting →
    x.channel.receiver.state = .connected ∧ y.channel.receiver.state = .connected
  hellos : ∀ p ∈ x.outbox, getPacketType (loadBeU16 p) = some .handshake →
    ∃ front ack want, Hello x y a b s p front ack want

/-- An end that waits to be acknowledged has sent no notice, so the other end has not finished
its stream. -/
def Quiet (x : Endpoint m n) (y : Endpoint m' n') : Prop :=
  x.channel.transmitter.state = .connecting →
    (∀ p ∈ x.outbox, Lane.isNotice p = false) ∧ y.channel.transmitter.state ≠ .idle

/-- Both ends have called `connect`. -/
structure Met (x : Endpoint m n) (y : Endpoint m' n') (a b : UInt32) (s t : SeqNum) (d : Uptime)
    (l : Lane m n') (k : Lane m' n) : Prop where
  apart : a ≠ b
  nonzero : a ≠ 0 ∧ b ≠ 0
  near : Greeted x y a b s d
  far : Greeted y x b a t d
  out : Joined x y a b s d l
  back : Joined y x b a t d k
  quiet : Quiet x y
  quietFar : Quiet y x

/-- Two ends have met whichever is named first. -/
theorem Met.swap {x : Endpoint m n} {y : Endpoint m' n'} {a b : UInt32} {s t : SeqNum} {d : Uptime}
    {l : Lane m n'} {k : Lane m' n} (h : Met x y a b s t d l k) : Met y x b a t s d k l :=
  ⟨h.apart.symm, h.nonzero.symm, h.far, h.near, h.back, h.out, h.quietFar, h.quiet⟩

/-- How far the ends are. -/
inductive Stage (d : Uptime) (x : Endpoint m n) (y : Endpoint m' n') : Prop
  | fresh : x = new m n → y = new m' n' → Stage d x y
  | near (a : UInt32) (s : SeqNum) : Waiting x a s d → y = new m' n' → Stage d x y
  | far (b : UInt32) (t : SeqNum) : x = new m n → Waiting y b t d → Stage d x y
  | met (a b : UInt32) (s t : SeqNum) (l : Lane m n') (k : Lane m' n) :
      Met x y a b s t d l k → Stage d x y

private theorem Stage.swap {d : Uptime} {x : Endpoint m n} {y : Endpoint m' n'} (h : Stage d x y) :
    Stage d y x := by
  cases h with
  | fresh hx hy => exact .fresh hy hx
  | near a s hx hy => exact .far a s hy hx
  | far b t hx hy => exact .near b t hy hx
  | met a b s t l k h => exact .met b a t s k l h.swap

section

variable {x x' : Endpoint m n} {y y' : Endpoint m' n'} {a b : UInt32} {s t : SeqNum} {d : Uptime}
  {l : Lane m n'} {k : Lane m' n}

private theorem filter_handshakes {p : List UInt8 → Bool} {outbox : List (List UInt8)}
    (hp : ∀ q, getPacketType (loadBeU16 q) = some .handshake → p q = false)
    (h : ∀ q ∈ outbox, getPacketType (loadBeU16 q) = some .handshake) : outbox.filter p = [] := by
  rw [List.filter_eq_nil_iff]
  intro q hq
  rw [hp q (h q hq)]
  exact Bool.false_ne_true

/-- A handshake packet is no data packet. -/
theorem isData_handshake {p : List UInt8}
    (hp : getPacketType (loadBeU16 p) = some .handshake) : Lane.isData p = false := by
  simp [Lane.isData, hp]

/-- A handshake packet is no notice. -/
theorem isNotice_handshake {p : List UInt8}
    (hp : getPacketType (loadBeU16 p) = some .handshake) : Lane.isNotice p = false := by
  simp [Lane.isNotice, hp]

private theorem Waiting.handshakes (h : x.Waiting a s d) :
    ∀ p ∈ x.outbox, getPacketType (loadBeU16 p) = some .handshake := by
  intro p hp
  rw [h.outbox p hp, Channel.getPacketType_formatHandshake]

private theorem Waiting.joined (hx : x.Waiting a s d) (hy : y.Waiting b t d) :
    ∃ l, Joined x y a b s d l := by
  have hstart : Lane.start m n' a b s (decide (b < a)) = .ok {
      wire :=
        { tx := (Transmitter.opening m a s).setConnected (2 ^ n'.val) (b < a)
          rx := (Receiver.new n').reconnected b s !(b < a)
          toRx := []
          toTx := [] }
      accepted := []
      read := []
      closed := false } := by
    rw [Lane.start, Wire.start, Transmitter.init_new, Receiver.reconnect_ok]
    rfl
  refine ⟨_, .inl ⟨hx.tx, rfl⟩, .inl ⟨hy.rx, rfl⟩, ?_, ?_, hx.accepted.symm, hy.read.symm,
    hx.closed.symm, Lane.sound_start hstart d⟩
  · exact (filter_handshakes (fun q ↦ isData_handshake) hx.handshakes).symm
  · exact (filter_handshakes (fun q ↦ isNotice_handshake) hy.handshakes).symm

private theorem Waiting.greeted (hx : x.Waiting a s d) : Greeted x y a b s d where
  id := hx.id
  due := hx.due
  short := hx.short
  peer := .inl ⟨by rw [hx.rx]; rfl, hx.peer⟩
  acked := by simp [hx.acked, hx.tx, Transmitter.opening]
  opened := by simp [hx.tx, Transmitter.opening]
  hellos := fun p hp _ ↦ ⟨s, 0, true, hx.outbox p hp, .inl rfl, fun _ ↦ rfl, by simp⟩

private theorem Waiting.quiet (hx : x.Waiting a s d) (hy : y.Waiting b t d) : Quiet x y := by
  intro _
  refine ⟨fun p hp ↦ isNotice_handshake (hx.handshakes p hp), ?_⟩
  simp [hy.tx, Transmitter.opening]

private theorem Waiting.met (hx : x.Waiting a s d) (hy : y.Waiting b t d) (hab : a ≠ b) :
    Stage d x y := by
  obtain ⟨l, hl⟩ := hx.joined hy
  obtain ⟨k, hk⟩ := hy.joined hx
  exact .met a b s t l k ⟨hab, ⟨hx.nonzero, hy.nonzero⟩, hx.greeted, hy.greeted, hl, hk,
    hx.quiet hy, hy.quiet hx⟩

/-- What happens at an end besides the handshake. -/
structure Traffic (x x' : Endpoint m n) : Prop where
  schedule : x'.channel.nextScheduledHandshakeUpdate = x.channel.nextScheduledHandshakeUpdate
  id : x'.channel.myStreamId = x.channel.myStreamId
  peer : x'.channel.peerStreamId = x.channel.peerStreamId
  acked : x'.channel.myStreamIdAckedByPeer = x.channel.myStreamIdAckedByPeer
  tx : x'.channel.transmitter.state = .connecting ↔ x.channel.transmitter.state = .connecting
  rx : x'.channel.receiver.state = x.channel.receiver.state
  handshakes : ∀ p ∈ x'.outbox, getPacketType (loadBeU16 p) = some .handshake → p ∈ x.outbox

private theorem Traffic.refl (x : Endpoint m n) : Traffic x x :=
  ⟨rfl, rfl, rfl, rfl, Iff.rfl, rfl, fun _ hp _ ↦ hp⟩

/-- What a handshake says stays true while both receivers stay connected. -/
theorem Hello.opened {p : List UInt8} {front : SeqNum} {ack : UInt32} {want : Bool}
    (h : Hello x y a b s p front ack want)
    (hx : x.channel.receiver.state = .connected → x'.channel.receiver.state = .connected)
    (hy : y.channel.receiver.state = .connected → y'.channel.receiver.state = .connected) :
    Hello x' y' a b s p front ack want :=
  ⟨h.packet, h.ack.imp_right fun ⟨hb, hst⟩ ↦ ⟨hb, hx hst⟩, h.asks, fun hw ↦ hy (h.done hw)⟩

private theorem Greeted.traffic (h : Greeted x y a b s d) (hx : Traffic x x') (hy : Traffic y y') :
    Greeted x' y' a b s d where
  id := hx.id.trans h.id
  due := hx.schedule.le.trans h.due
  short := h.short
  peer := by
    rw [hx.rx, hx.peer]
    exact h.peer
  acked := by
    rw [hx.acked, hx.tx]
    exact h.acked
  opened := by
    rw [hx.rx, hy.rx, Ne, hx.tx]
    exact h.opened
  hellos := by
    intro p hp ht
    obtain ⟨front, ack, want, hello⟩ := h.hellos p (hx.handshakes p hp ht) ht
    exact ⟨front, ack, want, hello.opened (fun hst ↦ hx.rx.trans hst) fun hst ↦ hy.rx.trans hst⟩

/-- Of the other end only the receiver matters, and only as long as it waits. -/
theorem Greeted.other (h : Greeted x y a b s d)
    (hy : y.channel.receiver.state = .connected → y'.channel.receiver.state = .connected) :
    Greeted x y' a b s d := by
  refine { h with
    opened := fun hst ↦ ⟨(h.opened hst).1, hy (h.opened hst).2⟩
    hellos := fun p hp ht ↦ ?_ }
  obtain ⟨front, ack, want, hello⟩ := h.hellos p hp ht
  exact ⟨front, ack, want, hello.opened (fun hst ↦ hst) hy⟩

private theorem Quiet.traffic (h : Quiet x y)
    (hx : x'.channel.transmitter.state = .connecting → x.channel.transmitter.state = .connecting ∧
      ∀ p ∈ x'.outbox, p ∈ x.outbox ∨ Lane.isNotice p = false)
    (hy : y'.channel.transmitter.state = .idle → y.channel.transmitter.state = .idle) :
    Quiet x' y' := by
  intro hst
  obtain ⟨hst, hout⟩ := hx hst
  refine ⟨fun p hp ↦ ?_, fun hidle ↦ (h hst).2 (hy hidle)⟩
  rcases hout p hp with hp | hp
  · exact (h hst).1 p hp
  · exact hp

/-- A lane only depends on the halves it connects and on the packets between them. -/
theorem Joined.congr (h : Joined x y a b s d l)
    (htx : x'.channel.transmitter = x.channel.transmitter)
    (hrx : y'.channel.receiver = y.channel.receiver)
    (hdata : x'.outbox.filter Lane.isData = x.outbox.filter Lane.isData)
    (hnotice : y'.outbox.filter Lane.isNotice = y.outbox.filter Lane.isNotice)
    (hacc : x'.accepted = x.accepted) (hread : y'.read = y.read) (hclosed : x'.closed = x.closed) :
    Joined x' y' a b s d l where
  tx := by
    rw [htx]
    exact h.tx
  rx := by
    rw [hrx]
    exact h.rx
  toRx := h.toRx.trans hdata.symm
  toTx := h.toTx.trans hnotice.symm
  accepted := h.accepted.trans hacc.symm
  read := h.read.trans hread.symm
  closed := h.closed.trans hclosed.symm
  sound := h.sound

/-! ### Calls -/

/-- A call on the transmitter is a step of the lane out, once the stream was acknowledged. -/
theorem Met.transmitter {c : Channel.Act} (h : Met x y a b s t d l k) (ha : c.OnTransmitter)
    (hal : x.Allows y (.call c)) (hd : c.clock + 2 ^ 32 ≤ d) :
    Yields (x.step y (.call c)) fun out ↦ out.2 = y ∧ ∃ l', Met out.1 y a b s t d l' k ∧
      (x.channel.transmitter.state ≠ .connecting → l.perform (x.channel.laneOut c) = .ok l' ∧
        out.1.channel.transmitter.state ≠ .connecting) := by
  rcases h.out.tx with ⟨hopening, -⟩ | ⟨hst, htx⟩
  · have hrest : x.channel.transmitter.AtRest := by
      rw [hopening]
      exact Transmitter.atRest_opening m a s
    have hclose (id : UInt32) (heq : c = .close id) :
        x.channel.transmitter.state ≠ .connecting := by
      subst heq
      exact hal
    refine ⟨_, step_idle (Lane.idles_of_transmitter hrest ha hclose), rfl, l, h, fun hno ↦ ?_⟩
    rw [hopening] at hno
    exact absurd rfl hno
  obtain ⟨l', hok, hsound⟩ := h.out.sound.perform (Channel.laneOut_ne x.channel c)
    fun w hw ↦ (Nat.add_le_add_right (Channel.laneOut_clock hw) _).trans hd
  have hf := Lane.followsOut htx ha hok
  have hst' := hsound.states.1
  have hphase := h.out.sound.tx_state hok
  have hpacket (hne : x.channel.packet c ≠ []) : Lane.isData (x.channel.packet c) = true := by
    have hmem : x.channel.packet c ∈ l'.wire.toRx.map Sent.bytes := by
      rw [hf.toRx]
      exact mem_posted.mpr (.inr ⟨hne, rfl⟩)
    obtain ⟨p, hp, heq⟩ := List.mem_map.mp hmem
    rw [← heq]
    exact (hsound.data hp).1
  rw [step, hf.stepped]
  refine ⟨_, rfl, rfl, l', ?_, fun _ ↦ ⟨hok, hst'⟩⟩
  have htraffic : Traffic x (x.after c { x.channel with transmitter := l'.wire.tx }) := by
    refine ⟨rfl, rfl, rfl, rfl, iff_of_false hst' hst, rfl, fun p hp ht ↦ ?_⟩
    rcases mem_posted.mp hp with hp | ⟨hne, rfl⟩
    · exact hp
    · exact absurd ((isData_handshake ht).symm.trans (hpacket hne)) Bool.false_ne_true
  exact {
    apart := h.apart
    nonzero := h.nonzero
    near := h.near.traffic htraffic (.refl y)
    far := h.far.traffic (.refl y) htraffic
    out := {
      tx := .inr ⟨hst', rfl⟩
      rx := hf.rx.symm ▸ h.out.rx
      toRx := by rw [hf.toRx, h.out.toRx]; exact (filter_posted _ hpacket).symm
      toTx := hf.toTx.symm ▸ h.out.toTx
      accepted := by rw [hf.accepted, h.out.accepted]; rfl
      read := hf.read.trans h.out.read
      closed := by rw [hf.closed, h.out.closed]; rfl
      sound := hsound }
    back := by
      refine h.back.congr rfl rfl rfl ?_ rfl ?_ rfl
      · exact filter_posted_ne _ fun hne ↦ Lane.not_isNotice_of_isData (hpacket hne)
      · exact (congrArg (x.read ++ ·) hf.given).trans (List.append_nil _)
    quiet := fun hno ↦ absurd hno hst'
    quietFar := h.quietFar.traffic (fun hc ↦ ⟨hc, fun p hp ↦ .inl hp⟩) fun hidle ↦ by
      rw [← htx, ← hphase]
      exact hidle }

/-- Of the calls on the receiver only those of the sender thread send anything. -/
theorem Allows.quiet_receiver {c : Channel.Act} (ha : c.OnReceiver) (hal : x.Allows y (.call c))
    (hst : x.channel.transmitter.state = .connecting) : x.channel.packet c = [] := by
  cases c with
  | sendAck => exact absurd hst hal
  | sendHimark now next => exact absurd hst hal
  | read | readTurn | tryRead | peek | availableForRead => rfl
  | _ => exact ha.elim

/-- A call on the receiver is a step of the lane back, once the receiver was opened. -/
theorem Met.receiver {c : Channel.Act} (h : Met x y a b s t d l k) (ha : c.OnReceiver)
    (hal : x.Allows y (.call c)) (hd : c.clock + 2 ^ 32 ≤ d) :
    Yields (x.step y (.call c)) fun out ↦ out.2 = y ∧ ∃ k', Met out.1 y a b s t d l k' ∧
      out.1.channel.transmitter = x.channel.transmitter ∧
      (x.channel.receiver.state = .connected → k.perform (x.channel.laneIn c) = .ok k') := by
  rcases h.back.rx with ⟨hopening, -⟩ | ⟨hst, hrx⟩
  · have hrest : x.channel.receiver.AtRest := by
      rw [hopening]
      exact Receiver.atRest_opening n a
    refine ⟨_, step_idle (Lane.idles_of_receiver hrest ha), rfl, k, h, rfl, fun hst ↦ ?_⟩
    rw [hopening] at hst
    cases hst
  obtain ⟨k', hok, hsound⟩ := h.back.sound.perform (Channel.laneIn_ne x.channel c)
    fun w hw ↦ (Nat.add_le_add_right (Channel.laneIn_clock hw) _).trans hd
  have hf := Lane.followsIn hrx ha hok
  have hst' := hsound.states.2
  have hpacket (hne : x.channel.packet c ≠ []) : Lane.isNotice (x.channel.packet c) = true := by
    have hmem : x.channel.packet c ∈ k'.wire.toTx.map Sent.bytes := by
      rw [hf.toTx]
      exact mem_posted.mpr (.inr ⟨hne, rfl⟩)
    obtain ⟨p, hp, heq⟩ := List.mem_map.mp hmem
    rw [← heq]
    exact (hsound.notice hp).1
  rw [step, hf.stepped]
  refine ⟨_, rfl, rfl, k', ?_, rfl, fun _ ↦ hok⟩
  have htraffic : Traffic x (x.after c { x.channel with receiver := k'.wire.rx }) := by
    refine ⟨rfl, rfl, rfl, rfl, Iff.rfl, hst'.trans hst.symm, fun p hp ht ↦ ?_⟩
    rcases mem_posted.mp hp with hp | ⟨hne, rfl⟩
    · exact hp
    · exact absurd ((isNotice_handshake ht).symm.trans (hpacket hne)) Bool.false_ne_true
  exact {
    apart := h.apart
    nonzero := h.nonzero
    near := h.near.traffic htraffic (.refl y)
    far := h.far.traffic (.refl y) htraffic
    out := by
      refine h.out.congr rfl rfl ?_ rfl ?_ rfl ?_
      · exact filter_posted_ne _ fun hne ↦ Lane.not_isData_of_isNotice (hpacket hne)
      · exact (congrArg (x.accepted ++ ·) hf.taken).trans (List.append_nil _)
      · exact (congrArg (x.closed || ·) hf.closes).trans (Bool.or_false _)
    back := {
      tx := hf.tx.symm ▸ h.back.tx
      rx := .inr ⟨hst', rfl⟩
      toRx := hf.toRx.symm ▸ h.back.toRx
      toTx := by rw [hf.toTx, h.back.toTx]; exact (filter_posted _ hpacket).symm
      accepted := hf.accepted.trans h.back.accepted
      read := by rw [hf.read, h.back.read]; rfl
      closed := hf.closed.trans h.back.closed
      sound := hsound }
    quiet := h.quiet.traffic (fun hc ↦ ⟨hc, fun p hp ↦ .inl (by
      simpa [after, hal.quiet_receiver ha hc] using hp)⟩) fun hidle ↦ hidle
    quietFar := h.quietFar.traffic (fun hc ↦ ⟨hc, fun p hp ↦ .inl hp⟩) fun hidle ↦ hidle }

/-- A stream that waits for its acknowledgement is as `init` left it. -/
theorem Joined.opening (h : Joined x y a b s d l)
    (hst : x.channel.transmitter.state = .connecting) :
    x.channel.transmitter = .opening m a s ∧
      l.wire.tx = (Transmitter.opening m a s).setConnected (2 ^ n'.val) (b < a) :=
  h.tx.resolve_right fun hno ↦ hno.1 hst

/-- A handshake says what is so. -/
theorem Met.hello (h : Met x y a b s t d l k) {now : Uptime} {draw next : Nat}
    (hne : (x.channel.conn now draw next).2.1 ≠ []) :
    Hello x y a b s (x.channel.conn now draw next).2.1 x.channel.transmitter.outRing.begin_
      x.channel.peerStreamId (x.channel.transmitter.state ≠ .connected) := by
  obtain ⟨hst, hp⟩ := Channel.conn_packet x.channel now draw next hne
  refine ⟨by rw [hp, h.near.id], ?_, fun hwant ↦ ?_, fun hwant ↦ ?_⟩
  · rcases h.near.peer with ⟨-, hpeer⟩ | ⟨hst, hpeer⟩
    · exact .inl hpeer
    · exact .inr ⟨hpeer, hst⟩
  · have hwaits := hst.resolve_right (of_decide_eq_true hwant)
    rw [(h.out.opening hwaits).1]
    rfl
  · have hdone := not_not.mp (of_decide_eq_false hwant)
    exact (h.near.opened (by simp [hdone])).2

/-- A handshake goes out. -/
theorem Met.conn (h : Met x y a b s t d l k) {now : Uptime} (hd : now + 2 ^ 32 ≤ d)
    (draw next : Nat) :
    Met (x.after (.conn now draw next) (x.channel.conn now draw next).1) y a b s t d l k := by
  have hdue := x.channel.conn_due now draw next h.near.due hd
  obtain ⟨needsAck, retries, update, hconn⟩ := Channel.conn_fst x.channel now draw next
  have htype (hne : (x.channel.conn now draw next).2.1 ≠ []) :
      getPacketType (loadBeU16 (x.channel.conn now draw next).2.1) = some .handshake := by
    rw [(h.hello hne).packet, Channel.getPacketType_formatHandshake]
  rw [hconn] at hdue ⊢
  refine ⟨h.apart, h.nonzero, { h.near with due := hdue, hellos := ?_ }, h.far.other fun hst ↦ hst,
    ?_, ?_, ?_, h.quietFar.traffic (fun hc ↦ ⟨hc, fun p hp ↦ .inl hp⟩) fun hidle ↦ hidle⟩
  · intro p hp ht
    rcases mem_posted.mp hp with hp | ⟨hne, rfl⟩
    · obtain ⟨front, ack, want, hello⟩ := h.near.hellos p hp ht
      exact ⟨front, ack, want, { hello with }⟩
    · exact ⟨_, _, _, { h.hello hne with }⟩
  · refine h.out.congr rfl rfl ?_ rfl (List.append_nil _) rfl (Bool.or_false _)
    exact filter_posted_ne _ fun hne ↦ isData_handshake (htype hne)
  · refine h.back.congr rfl rfl rfl ?_ rfl (List.append_nil _) rfl
    exact filter_posted_ne _ fun hne ↦ isNotice_handshake (htype hne)
  · refine h.quiet.traffic (fun hc ↦ ⟨hc, fun p hp ↦ ?_⟩) fun hidle ↦ hidle
    rcases mem_posted.mp hp with hp | ⟨hne, rfl⟩
    · exact .inl hp
    · exact .inr (isNotice_handshake (htype hne))

/-! ### Losses -/

private theorem filter_eraseIdx (f : List UInt8 → Bool) (queue : List (List UInt8)) (i : Nat) :
    ∃ j, (queue.eraseIdx i).filter f = (queue.filter f).eraseIdx j := by
  induction queue generalizing i with
  | nil => exact ⟨0, rfl⟩
  | cons p rest ih =>
    cases i with
    | zero =>
      by_cases hp : f p = true
      · exact ⟨0, by simp [hp]⟩
      · refine ⟨(rest.filter f).length, ?_⟩
        rw [List.filter_cons_of_neg hp, List.eraseIdx_of_length_le (le_refl _)]
        rfl
    | succ i =>
      obtain ⟨j, hj⟩ := ih i
      rw [List.eraseIdx_cons_succ]
      by_cases hp : f p = true
      · refine ⟨j + 1, ?_⟩
        rw [List.filter_cons_of_pos hp, List.filter_cons_of_pos hp, hj, List.eraseIdx_cons_succ]
      · refine ⟨j, ?_⟩
        rw [List.filter_cons_of_neg hp, List.filter_cons_of_neg hp, hj]

private theorem Joined.lose_data (h : Joined x y a b s d l) (i : Nat) :
    ∃ l', Joined { x with outbox := x.outbox.eraseIdx i } y a b s d l' := by
  obtain ⟨j, hj⟩ := filter_eraseIdx Lane.isData x.outbox i
  refine ⟨{ l with wire := { l.wire with toRx := l.wire.toRx.eraseIdx j } }, { h with
    toRx := ?_
    sound := ?_ }⟩
  · rw [← List.eraseIdx_map, h.toRx, hj]
  · obtain ⟨b', e, f, k, rb, u, re, log, fin, hl⟩ := h.sound
    exact ⟨b', e, f, k, rb, u, re, log, fin, { hl with data := hl.data.lose j }⟩

private theorem Joined.lose_notice (h : Joined x y a b s d l) (i : Nat) :
    ∃ l', Joined x { y with outbox := y.outbox.eraseIdx i } a b s d l' := by
  obtain ⟨j, hj⟩ := filter_eraseIdx Lane.isNotice y.outbox i
  refine ⟨{ l with wire := { l.wire with toTx := l.wire.toTx.eraseIdx j } }, { h with
    toTx := ?_
    sound := ?_ }⟩
  · rw [← List.eraseIdx_map, h.toTx, hj]
  · obtain ⟨b', e, f, k, rb, u, re, log, fin, hl⟩ := h.sound
    exact ⟨b', e, f, k, rb, u, re, log, fin, { hl with replies := hl.replies.lose j }⟩

private theorem Greeted.fewer {outbox : List (List UInt8)} (h : Greeted x y a b s d)
    (hsub : ∀ p ∈ outbox, p ∈ x.outbox) : Greeted { x with outbox } y a b s d := by
  refine { h with hellos := fun p hp ht ↦ ?_ }
  obtain ⟨front, ack, want, hello⟩ := h.hellos p (hsub p hp) ht
  exact ⟨front, ack, want, { hello with }⟩

private theorem Met.lose (h : Met x y a b s t d l k) (i : Nat) :
    ∃ l' k', Met x { y with outbox := y.outbox.eraseIdx i } a b s t d l' k' := by
  have hsub (p : List UInt8) (hp : p ∈ y.outbox.eraseIdx i) : p ∈ y.outbox :=
    (List.eraseIdx_sublist ..).subset hp
  obtain ⟨l', hl⟩ := h.out.lose_notice i
  obtain ⟨k', hk⟩ := h.back.lose_data i
  exact ⟨l', k', h.apart, h.nonzero, h.near.other fun hst ↦ hst, h.far.fewer hsub, hl, hk,
    h.quiet.traffic (fun hc ↦ ⟨hc, fun p hp ↦ .inl hp⟩) fun hidle ↦ hidle,
    h.quietFar.traffic (fun hc ↦ ⟨hc, fun p hp ↦ .inl (hsub p hp)⟩) fun hidle ↦ hidle⟩

/-! ### Handshakes that arrive -/

private theorem Met.noted (h : Met x y a b s t d l k) (w : Bool) :
    Met { x with channel := { x.channel with needsHandshakeAck := w } } y a b s t d l k := by
  refine ⟨h.apart, h.nonzero, { h.near with hellos := ?_ }, h.far.other fun hst ↦ hst,
    { h.out with }, { h.back with }, h.quiet, h.quietFar⟩
  intro p hp ht
  obtain ⟨front, ack, want, hello⟩ := h.near.hellos p hp ht
  exact ⟨front, ack, want, { hello with }⟩

/-- As long as the receiver waits, so does the transmitter. -/
theorem Greeted.waits (h : Greeted x y a b s d) (hst : x.channel.receiver.state = .connecting) :
    x.channel.transmitter.state = .connecting := by
  by_contra hno
  exact absurd ((h.opened hno).1.symm.trans hst) (by simp)

/-- The receiver learns of the stream of the peer. -/
theorem Met.opens (h : Met x y a b s t d l k) (hst : x.channel.receiver.state = .connecting) :
    Met { x with channel := { x.channel with
      peerStreamId := b
      receiver := (Receiver.new n).reconnected a t (b < a) } } y a b s t d l k := by
  obtain ⟨-, hrx⟩ := h.back.rx.resolve_right (by simp [hst])
  have hbit : (!decide (a < b)) = decide (b < a) := by
    have hiff : ¬ a < b ↔ b < a := by
      rw [UInt32.not_lt]
      exact ⟨fun hle ↦ UInt32.lt_of_le_of_ne hle h.apart.symm, UInt32.le_of_lt⟩
    rw [← decide_not]
    exact decide_eq_decide.mpr hiff
  have htx := h.near.waits hst
  have hopen (hc : x.channel.receiver.state = .connected) :
      ((Receiver.new n).reconnected a t (b < a)).state = .connected := rfl
  refine ⟨h.apart, h.nonzero, ?_, h.far.other hopen, { h.out with }, ?_, h.quiet, h.quietFar⟩
  · refine { h.near with
      peer := .inr ⟨rfl, rfl⟩
      opened := fun hno ↦ absurd htx hno
      hellos := fun p hp ht ↦ ?_ }
    obtain ⟨front, ack, want, hello⟩ := h.near.hellos p hp ht
    exact ⟨front, ack, want, hello.opened hopen fun hst ↦ hst⟩
  · rw [hbit] at hrx
    exact { h.back with rx := .inr ⟨rfl, hrx⟩ }

/-- The transmitter learns that its stream was acknowledged. -/
theorem Met.acks (h : Met x y a b s t d l k) (hst : x.channel.transmitter.state = .connecting)
    (hrx : x.channel.receiver.state = .connected) (hy : y.channel.receiver.state = .connected) :
    Met { x with channel := x.channel.acked (2 ^ n'.val) } y a b s t d l k := by
  obtain ⟨hopening, htx⟩ := h.out.opening hst
  have hpeer : x.channel.peerStreamId = b :=
    (h.near.peer.resolve_left fun hno ↦ absurd (hrx.symm.trans hno.1) (by simp)).2
  have hbit : x.channel.myControlBit = decide (b < a) := by
    rw [Channel.myControlBit, hpeer, h.near.id]
  have hset : (x.channel.acked (2 ^ n'.val)).transmitter = l.wire.tx := by
    rw [Channel.acked, hbit, htx, hopening]
  have hdone : (x.channel.acked (2 ^ n'.val)).transmitter.state = .connected := rfl
  refine ⟨h.apart, h.nonzero, ?_, h.far.other fun hst ↦ hst, ?_, { h.back with }, ?_, ?_⟩
  · refine { h.near with
      acked := iff_of_false (by simp [Channel.acked]) (by simp [hdone])
      opened := fun _ ↦ ⟨hrx, hy⟩
      hellos := fun p hp ht ↦ ?_ }
    obtain ⟨front, ack, want, hello⟩ := h.near.hellos p hp ht
    exact ⟨front, ack, want, { hello with }⟩
  · exact { h.out with tx := .inr ⟨by simp [hdone], hset.symm⟩ }
  · exact fun hno ↦ absurd (hdone.symm.trans hno) (by simp)
  · exact h.quietFar.traffic (fun hc ↦ ⟨hc, fun p hp ↦ .inl hp⟩) fun hidle ↦
      absurd (hdone.symm.trans hidle) (by simp)

/-- `channel.cpp:376–418`, the way through. -/
theorem handshakeConnecting_opens {c : Channel m n} {h : Handshake} {r : Receiver n}
    (hack : h.ackStreamId = 0 ∨ h.ackStreamId = c.myStreamId)
    (hid : h.peerStreamId ≠ c.myStreamId) (hempty : c.receiver.empty = true)
    (hset : c.receiver.setConnected ⟨h.peerSeqNum⟩ (h.peerStreamId < c.myStreamId) = .ok r) :
    c.handshakeConnecting h = .ok ({ (if h.ackStreamId = c.myStreamId then
        ({ c with peerStreamId := h.peerStreamId, receiver := r } : Channel m n).acked
          h.peerReceiveBufferSize
      else { c with peerStreamId := h.peerStreamId, receiver := r }) with
        needsHandshakeAck := h.wantAck }, true, none) := by
  rw [Channel.handshakeConnecting, if_neg (by rw [← not_or]; exact not_not.mpr hack), if_neg hid]
  dsimp only
  rw [if_neg (by simp [hempty]), Channel.myControlBit, hset]
  rfl

/-- What a handshake of the peer leaves of a channel. -/
structure Answered (c c' : Channel m n) (ack : UInt32) (want : Bool) : Prop where
  needsHandshakeAck : c'.needsHandshakeAck = want
  opened : c'.receiver.state = .connected
  acked : ack = c.myStreamId ∨ c.transmitter.state ≠ .connecting →
    c'.transmitter.state ≠ .connecting

/-- A handshake of the peer reaches the channel. -/
theorem Met.handshake {p : List UInt8} {front : SeqNum} {ack : UInt32} {want : Bool}
    (h : Met x y a b s t d l k) (hello : Hello y x b a t p front ack want) :
    Yields ((x.channel.packetReceived p).map Prod.fst) fun c ↦
      Met { x with channel := c } y a b s t d l k ∧ Answered x.channel c ack want := by
  have hlen : p.length = 11 := by
    rw [hello.packet]
    simp [formatHandshake, storeBeU16]
  have htype : getPacketType (loadBeU16 p) = some .handshake := by
    rw [hello.packet, Channel.getPacketType_formatHandshake]
  have hecho : ¬ (b = x.channel.myStreamId ∧
      front.raw &&& 0x0FFF#16 = x.channel.transmitter.outRing.begin_.raw) := by
    rw [h.near.id]
    exact fun heq ↦ h.apart heq.1.symm
  have hacker (hack : ack = x.channel.myStreamId) : y.channel.receiver.state = .connected :=
    (hello.ack.resolve_left fun hzero ↦ h.nonzero.1 (by rw [← h.near.id, ← hack, hzero])).2
  rw [Channel.packetReceived, if_neg (by omega)]
  dsimp only
  rw [htype, hello.packet, parseHandshake_format]
  dsimp only
  rw [Channel.handleHandshakePacket, if_neg hecho]
  rcases h.near.peer with ⟨hst, hpeer⟩ | ⟨hst, hpeer⟩
  · -- the first handshake that gets through asks for an answer, and has the first number
    have hwant : want = true := by
      by_contra hno
      exact absurd ((hello.done (by simpa using hno)).symm.trans hst) (by simp)
    have hfront : front.raw &&& 0x0FFF#16 = t.raw := by
      rw [hello.asks hwant, h.far.short]
    obtain ⟨hopening, -⟩ := h.back.rx.resolve_right (by simp [hst])
    have htx := h.near.waits hst
    have hempty : x.channel.receiver.empty = true := by
      rw [hopening]
      exact (Receiver.atRest_opening n a).empty
    have hset : x.channel.receiver.setConnected ⟨front.raw &&& 0x0FFF#16⟩ (b < a) =
        .ok ((Receiver.new n).reconnected a t (b < a)) := by
      rw [hopening, hfront]
      exact Receiver.setConnected_opening n a t (b < a)
    rw [hst]
    dsimp only
    rw [handshakeConnecting_opens (by rw [h.near.id]; exact hello.ack.imp_right And.left)
      (by rw [h.near.id]; exact h.apart.symm) hempty (by rw [h.near.id]; exact hset)]
    have hopened := h.opens hst
    refine ⟨_, rfl, ?_⟩
    by_cases hack : ack = x.channel.myStreamId
    · simp only [if_pos hack]
      exact ⟨(hopened.acks htx rfl (hacker hack)).noted want, rfl, rfl, fun _ ↦ by
        simp [Channel.acked, Transmitter.setConnected]⟩
    · simp only [if_neg hack]
      exact ⟨hopened.noted want, rfl, rfl, fun hor ↦ hor.resolve_left hack⟩
  · rw [hst]
    dsimp only
    rw [Channel.handshakeConnected, if_neg (by simp [hpeer])]
    dsimp only
    by_cases hack : ack = x.channel.myStreamId ∧ x.channel.myStreamIdAckedByPeer = false
    · rw [if_pos hack, if_neg (by rw [h.near.id]; exact h.nonzero.1)]
      have htx := h.near.acked.mp hack.2
      exact ⟨_, rfl, (h.acks htx hst (hacker hack.1)).noted want, rfl, hst, fun _ ↦ by
        simp [Channel.acked, Transmitter.setConnected]⟩
    · rw [if_neg hack]
      refine ⟨_, rfl, h.noted want, rfl, hst, fun hor ↦ ?_⟩
      rcases hor with heq | hdone
      · intro hno
        exact hack ⟨heq, h.near.acked.mpr hno⟩
      · exact hdone

/-! ### Packets that arrive -/

/-- A half that is connected stays so. -/
structure Onward (c c' : Channel m n) : Prop where
  tx : c.transmitter.state ≠ .connecting → c'.transmitter.state ≠ .connecting
  rx : c.receiver.state = .connected → c'.receiver.state = .connected

/-- A half that was connected is so after a handshake was answered. -/
theorem Answered.onward {c c' : Channel m n} {ack : UInt32} {want : Bool}
    (h : Answered c c' ack want) : Onward c c' :=
  ⟨fun hst ↦ h.acked (.inr hst), fun _ ↦ h.opened⟩

section

variable {p : List UInt8} {rest : List (List UInt8)}

private theorem traffic_of_cons (hy : y.outbox = p :: rest) :
    Traffic y { y with outbox := rest } := by
  refine { Traffic.refl y with handshakes := fun q hq _ ↦ ?_ }
  rw [hy]
  exact List.mem_cons_of_mem p hq

private theorem Met.lose_head (h : Met x y a b s t d l k) (hy : y.outbox = p :: rest) :
    ∃ l' k', Met x { y with outbox := rest } a b s t d l' k' := by
  have := h.lose 0
  rw [hy] at this
  exact this

/-- Data that arrives is a step of the lane back, once the receiver was opened. -/
theorem Met.receive_data (h : Met x y a b s t d l k) (hd : 2 ^ 32 ≤ d) (hy : y.outbox = p :: rest)
    (hp : Lane.isData p = true) :
    Yields ((x.channel.packetReceived p).map Prod.fst) fun c ↦
      ∃ l' k', Met { x with channel := c } { y with outbox := rest } a b s t d l' k' ∧
        Onward x.channel c ∧
        (x.channel.receiver.state = .connected → l' = l ∧ k.step .deliverToRx = .ok k') := by
  rcases h.back.rx with ⟨hopening, -⟩ | ⟨hst, hrx⟩
  · have hrest : x.channel.receiver.AtRest := by
      rw [hopening]
      exact Receiver.atRest_opening n a
    obtain ⟨l', k', h'⟩ := h.lose_head hy
    refine ⟨_, Lane.receive_data_atRest hrest hp, l', k', h', ⟨fun hst ↦ hst, fun hst ↦ hst⟩,
      fun hst ↦ ?_⟩
    rw [hopening] at hst
    cases hst
  have hqueue := h.back.toRx
  rw [hy, List.filter_cons_of_pos hp] at hqueue
  obtain ⟨q, queue, hq, rfl, hmap⟩ := List.map_eq_cons_iff.mp hqueue
  have hsize := (h.back.sound.data (hq ▸ List.mem_cons_self ..)).2
  obtain ⟨k', hok, hsound⟩ := h.back.sound.step (a := .deliverToRx) (by simp [Lane.InputOpen])
    (by simpa [Lane.clock] using hd)
  obtain ⟨hout, hk'⟩ := Lane.receive_data hrx hq hp hsize hok
  have hst' := hsound.states.2
  have htraffic : Traffic x { x with channel := { x.channel with receiver := k'.wire.rx } } :=
    ⟨rfl, rfl, rfl, rfl, Iff.rfl, hst'.trans hst.symm, fun _ hp _ ↦ hp⟩
  refine ⟨_, hout, l, k', ?_, ⟨fun hst ↦ hst, fun _ ↦ hst'⟩, fun _ ↦ ⟨rfl, hok⟩⟩
  exact {
    apart := h.apart
    nonzero := h.nonzero
    near := h.near.traffic htraffic (traffic_of_cons hy)
    far := h.far.traffic (traffic_of_cons hy) htraffic
    out := by
      refine h.out.congr rfl rfl rfl ?_ rfl rfl rfl
      rw [hy, List.filter_cons_of_neg (by simp [Lane.not_isNotice_of_isData hp])]
    back := {
      tx := by rw [hk']; exact h.back.tx
      rx := .inr ⟨hst', rfl⟩
      toRx := by rw [hk']; exact hmap
      toTx := by rw [hk']; exact h.back.toTx
      accepted := by rw [hk']; exact h.back.accepted
      read := by rw [hk']; exact h.back.read
      closed := by rw [hk']; exact h.back.closed
      sound := hsound }
    quiet := h.quiet.traffic (fun hc ↦ ⟨hc, fun q hq ↦ .inl hq⟩) fun hidle ↦ hidle
    quietFar := h.quietFar.traffic (fun hc ↦ ⟨hc, fun q hq ↦ .inl (by
      rw [hy]
      exact List.mem_cons_of_mem _ hq)⟩) fun hidle ↦ hidle }

/-- A notice that arrives is a step of the lane out, once the stream was acknowledged. -/
theorem Met.receive_notice (h : Met x y a b s t d l k) (hd : 2 ^ 32 ≤ d)
    (hy : y.outbox = p :: rest) (hp : Lane.isNotice p = true) :
    Yields ((x.channel.packetReceived p).map Prod.fst) fun c ↦
      ∃ l' k', Met { x with channel := c } { y with outbox := rest } a b s t d l' k' ∧
        Onward x.channel c ∧
        (x.channel.transmitter.state ≠ .connecting → k' = k ∧ l.step .deliverToTx = .ok l') := by
  rcases h.out.tx with ⟨hopening, -⟩ | ⟨hst, htx⟩
  · have hrest : x.channel.transmitter.AtRest := by
      rw [hopening]
      exact Transmitter.atRest_opening m a s
    obtain ⟨l', k', h'⟩ := h.lose_head hy
    refine ⟨_, Lane.receive_notice_atRest hrest hp, l', k', h', ⟨fun hst ↦ hst, fun hst ↦ hst⟩,
      fun hno ↦ ?_⟩
    rw [hopening] at hno
    exact absurd rfl hno
  have hqueue := h.out.toTx
  rw [hy, List.filter_cons_of_pos hp] at hqueue
  obtain ⟨q, queue, hq, rfl, hmap⟩ := List.map_eq_cons_iff.mp hqueue
  have hsize := (h.out.sound.notice (hq ▸ List.mem_cons_self ..)).2
  obtain ⟨l', hok, hsound⟩ := h.out.sound.step (a := .deliverToTx) (by simp [Lane.InputOpen])
    (by simpa [Lane.clock] using hd)
  obtain ⟨hout, hl'⟩ := Lane.receive_notice htx hq hp hsize hok
  have hst' := hsound.states.1
  have htraffic : Traffic x { x with channel := { x.channel with transmitter := l'.wire.tx } } :=
    ⟨rfl, rfl, rfl, rfl, iff_of_false hst' hst, rfl, fun _ hp _ ↦ hp⟩
  refine ⟨_, hout, l', k, ?_, ⟨fun _ ↦ hst', fun hst ↦ hst⟩, fun _ ↦ ⟨rfl, hok⟩⟩
  exact {
    apart := h.apart
    nonzero := h.nonzero
    near := h.near.traffic htraffic (traffic_of_cons hy)
    far := h.far.traffic (traffic_of_cons hy) htraffic
    out := {
      tx := .inr ⟨hst', rfl⟩
      rx := by rw [hl']; exact h.out.rx
      toRx := by rw [hl']; exact h.out.toRx
      toTx := by rw [hl']; exact hmap
      accepted := by rw [hl']; exact h.out.accepted
      read := by rw [hl']; exact h.out.read
      closed := by rw [hl']; exact h.out.closed
      sound := hsound }
    back := by
      refine h.back.congr rfl rfl ?_ rfl rfl rfl rfl
      rw [hy, List.filter_cons_of_neg (by simp [Lane.not_isData_of_isNotice hp])]
    quiet := fun hno ↦ absurd hno hst'
    -- the peer sends notices only once it is connected
    quietFar := fun hwaits ↦ by
      have hnone := (h.quietFar hwaits).1 q.bytes (hy ▸ List.mem_cons_self ..)
      exact absurd (hnone.symm.trans hp) Bool.false_ne_true }

/-- A packet that is neither goes by the lanes. -/
theorem Met.pass (h : Met x y a b s t d l k) (hy : y.outbox = p :: rest)
    (hd : Lane.isData p = false) (hn : Lane.isNotice p = false) :
    Met x { y with outbox := rest } a b s t d l k := by
  have hsub (q : List UInt8) (hq : q ∈ rest) : q ∈ y.outbox := by
    rw [hy]
    exact List.mem_cons_of_mem p hq
  refine ⟨h.apart, h.nonzero, h.near.other fun hst ↦ hst, h.far.fewer hsub, ?_, ?_,
    h.quiet.traffic (fun hc ↦ ⟨hc, fun p hp ↦ .inl hp⟩) fun hidle ↦ hidle,
    h.quietFar.traffic (fun hc ↦ ⟨hc, fun p hp ↦ .inl (hsub p hp)⟩) fun hidle ↦ hidle⟩
  · refine h.out.congr rfl rfl rfl ?_ rfl rfl rfl
    rw [hy, List.filter_cons_of_neg (by simp [hn])]
  · refine h.back.congr rfl rfl ?_ rfl rfl rfl rfl
    rw [hy, List.filter_cons_of_neg (by simp [hd])]

/-- Any other packet leaves the lanes as they are. -/
theorem Met.receive_other (h : Met x y a b s t d l k) (hy : y.outbox = p :: rest)
    (hd : Lane.isData p = false) (hn : Lane.isNotice p = false) :
    Yields ((x.channel.packetReceived p).map Prod.fst) fun c ↦
      Met { x with channel := c } { y with outbox := rest } a b s t d l k ∧ Onward x.channel c := by
  have hpass := h.pass hy hd hn
  by_cases ht : getPacketType (loadBeU16 p) = some .handshake
  · obtain ⟨front, ack, want, hello⟩ := h.far.hellos p (hy ▸ List.mem_cons_self ..) ht
    exact (hpass.handshake { hello with }).mono fun c hc ↦ ⟨hc.1, hc.2.onward⟩
  · -- a header of no known type
    have hnone : getPacketType (loadBeU16 p) = none := by
      rw [Lane.isData, decide_eq_false_iff_not, not_or] at hd
      rw [Lane.isNotice, decide_eq_false_iff_not, not_or] at hn
      cases htype : getPacketType (loadBeU16 p) with
      | none => rfl
      | some type => cases type <;> simp_all
    refine ⟨x.channel, ?_, hpass, fun hst ↦ hst, fun hst ↦ hst⟩
    unfold Channel.packetReceived
    split
    · rfl
    · dsimp only
      rw [hnone]
      rfl

/-- The first packet under way reaches the channel. -/
theorem Met.receive (h : Met x y a b s t d l k) (hd : 2 ^ 32 ≤ d) (hy : y.outbox = p :: rest) :
    Yields ((x.channel.packetReceived p).map Prod.fst) fun c ↦
      ∃ l' k', Met { x with channel := c } { y with outbox := rest } a b s t d l' k' ∧
        Onward x.channel c := by
  by_cases hdata : Lane.isData p = true
  · exact (h.receive_data hd hy hdata).mono fun c ⟨l', k', h', hon, _⟩ ↦ ⟨l', k', h', hon⟩
  by_cases hn : Lane.isNotice p = true
  · exact (h.receive_notice hd hy hn).mono fun c ⟨l', k', h', hon, _⟩ ↦ ⟨l', k', h', hon⟩
  · exact (h.receive_other hy (by simpa using hdata) (by simpa using hn)).mono fun c hc ↦ ⟨l, k, hc⟩

end

/-- A received packet is taken from the peer and handled by the channel. -/
theorem step_receive {p : List UInt8} {rest : List (List UInt8)} {P : Channel m n → Prop}
    (hy : y.outbox = p :: rest) (h : Yields ((x.channel.packetReceived p).map Prod.fst) P) :
    Yields (x.step y .receive) fun out ↦ ∃ c, P c ∧ out.1 = { x with channel := c } ∧
      out.2 = { y with outbox := rest } := by
  obtain ⟨c, hc, hp⟩ := h
  obtain ⟨out, hout, rfl⟩ := map_eq_ok.mp hc
  rw [step, hy]
  exact ⟨_, map_eq_ok.mpr ⟨out, hout, rfl⟩, _, hp, rfl, rfl⟩

/-! ### One step -/

private theorem Met.step {c : EndpointAct} (h : Met x y a b s t d l k) (hal : x.Allows y c)
    (hd : c.clock + 2 ^ 32 ≤ d) :
    Yields (x.step y c) fun out ↦ ∃ l' k', Met out.1 out.2 a b s t d l' k' := by
  have hd' : 2 ^ 32 ≤ d := (Nat.le_add_left _ _).trans hd
  cases c with
  | call c =>
    rcases hal.kind with ⟨id, draw, fn, rfl⟩ | ha | ha | ⟨now, draw, next, rfl⟩
    · exact absurd (h.near.id.symm.trans hal.1) h.nonzero.1
    · refine (h.transmitter ha hal hd).mono fun out ⟨hy, l', h', _⟩ ↦ ⟨l', k, ?_⟩
      rw [hy]
      exact h'
    · refine (h.receiver ha hal hd).mono fun out ⟨hy, k', h', _⟩ ↦ ⟨l, k', ?_⟩
      rw [hy]
      exact h'
    · exact ⟨_, rfl, l, k, h.conn hd draw next⟩
  | lose i =>
    obtain ⟨l', k', h'⟩ := h.lose i
    exact ⟨_, rfl, l', k', h'⟩
  | receive =>
    cases hy : y.outbox with
    | nil =>
      rw [Endpoint.step, hy]
      exact ⟨_, rfl, l, k, h⟩
    | cons p rest =>
      refine (step_receive hy (h.receive hd' hy)).mono fun out ⟨c, ⟨l', k', h', _⟩, hx', hy'⟩ ↦
        ⟨l', k', ?_⟩
      rw [hx', hy']
      exact h'

private theorem Waiting.step {c : EndpointAct} (h : x.Waiting a s d) (hal : x.Allows (new m' n') c)
    (hd : c.clock + 2 ^ 32 ≤ d) :
    Yields (x.step (new m' n') c) fun out ↦ out.1.Waiting a s d ∧ out.2 = new m' n' := by
  cases c with
  | call c => exact h.call hal hd
  | lose i => exact ⟨_, rfl, h, rfl⟩
  | receive => exact ⟨_, rfl, h, rfl⟩

/-- What happens at an end that has not connected while the other waits. -/
theorem Waiting.step_new {c : EndpointAct} (h : y.Waiting b t d) (hal : (new m n).Allows y c) :
    Yields ((new m n).step y c) fun out ↦ Stage d out.1 out.2 := by
  cases c with
  | call c =>
    by_cases hc : ∃ id draw fn, c = .connect id draw fn
    · obtain ⟨id, draw, fn, rfl⟩ := hc
      refine (waiting_connect id draw fn d).mono fun out ⟨hx, hy⟩ ↦ ?_
      rw [hy]
      exact hx.met h (h.id ▸ hal.2)
    · have hother (id draw fn) (heq : c = .connect id draw fn) : False := hc ⟨id, draw, fn, heq⟩
      exact ⟨_, step_idle (idles_new hal hother), .far b t rfl h⟩
  | lose i =>
    refine ⟨_, rfl, .far b t rfl { h with outbox := fun p hp ↦ ?_ }⟩
    exact h.outbox p ((List.eraseIdx_sublist ..).subset hp)
  | receive =>
    cases hy : y.outbox with
    | nil =>
      rw [Endpoint.step, hy]
      exact ⟨_, rfl, .far b t rfl h⟩
    | cons p rest =>
      have hp := h.handshakes p (hy ▸ List.mem_cons_self ..)
      have hnew : Yields (((new m n).channel.packetReceived p).map Prod.fst)
          (· = Channel.new m n) :=
        ⟨_, receive_new hp, rfl⟩
      refine (step_receive hy hnew).mono fun out ⟨c, hc, hx', hy'⟩ ↦ ?_
      rw [hx', hy', hc]
      refine .far b t rfl { h with outbox := fun q hq ↦ ?_ }
      exact h.outbox q (hy ▸ List.mem_cons_of_mem p hq)

private theorem Stage.step {c : EndpointAct} (h : Stage d x y) (hal : x.Allows y c)
    (hd : c.clock + 2 ^ 32 ≤ d) : Yields (x.step y c) fun out ↦ Stage d out.1 out.2 := by
  cases h with
  | fresh hx hy =>
    subst hx hy
    cases c with
    | call c =>
      by_cases hc : ∃ id draw fn, c = .connect id draw fn
      · obtain ⟨id, draw, fn, rfl⟩ := hc
        exact (waiting_connect id draw fn d).mono fun out ⟨hx, hy⟩ ↦ .near _ _ hx hy
      · have hother (id draw fn) (heq : c = .connect id draw fn) : False := hc ⟨id, draw, fn, heq⟩
        exact ⟨_, step_idle (idles_new hal hother), .fresh rfl rfl⟩
    | lose i => exact ⟨_, rfl, .fresh rfl rfl⟩
    | receive => exact ⟨_, rfl, .fresh rfl rfl⟩
  | near a s hx hy =>
    subst hy
    exact (hx.step hal hd).mono fun out ⟨hx', hy'⟩ ↦ .near a s hx' hy'
  | far b t hx hy =>
    subst hx
    exact hy.step_new hal
  | met a b s t l k h => exact (h.step hal hd).mono fun out ⟨l', k', h'⟩ ↦ .met a b s t l' k' h'

/-- A later deadline does as well. -/
theorem Met.mono {d' : Uptime} (h : Met x y a b s t d l k) (hd : d ≤ d') :
    Met x y a b s t d' l k :=
  { h with
    near := { h.near with due := h.near.due.trans hd }
    far := { h.far with due := h.far.due.trans hd }
    out := { h.out with sound := h.out.sound.mono hd }
    back := { h.back with sound := h.back.sound.mono hd } }

private theorem Stage.mono {d' : Uptime} (h : Stage d x y) (hd : d ≤ d') : Stage d' x y := by
  cases h with
  | fresh hx hy => exact .fresh hx hy
  | near a s hx hy => exact .near a s { hx with due := hx.due.trans hd } hy
  | far b t hx hy => exact .far b t hx { hy with due := hy.due.trans hd }
  | met a b s t l k h => exact .met a b s t l k (h.mono hd)

/-! ### What the ends see -/

/-- One direction, as the applications at its ends see it. -/
structure Delivers (x : Endpoint m n) (y : Endpoint m' n') : Prop where
  read_prefix : y.read <+: x.accepted
  ended : y.channel.receiver.endOfStream = true → x.closed = true ∧ y.read = x.accepted

private theorem delivers_nothing (hread : y.read = [])
    (hrx : y.channel.receiver.endOfStream = false) : Delivers x y where
  read_prefix := by
    rw [hread]
    exact List.nil_prefix
  ended := by simp [hrx]

private theorem Joined.delivers (h : Joined x y a b s d l) : Delivers x y := by
  obtain ⟨b', e, f, k, rb, u, re, log, fin, hl⟩ := h.sound
  constructor
  · rw [← h.accepted, ← h.read]
    exact hl.read_prefix
  · intro heos
    rw [← h.accepted, ← h.read, ← h.closed]
    rcases h.rx with ⟨hopening, -⟩ | ⟨-, hrx⟩
    · rw [hopening] at heos
      cases heos
    · exact hl.ended (by rw [hrx]; exact heos)

private theorem Stage.delivers (h : Stage d x y) : Delivers x y := by
  cases h with
  | fresh hx hy =>
    subst hy
    exact delivers_nothing rfl rfl
  | near a s hx hy =>
    subst hy
    exact delivers_nothing rfl rfl
  | far b t hx hy => exact delivers_nothing hy.read (by rw [hy.rx]; rfl)
  | met a b s t l k h => exact h.out.delivers

end

end Endpoint

/-- Both ends of a link. -/
structure Duplex (m n m' n' : LinkBufferSize) where
  near : Endpoint m n
  far : Endpoint m' n'

namespace Duplex

variable {m n m' n' : LinkBufferSize}

/-- Two ends that have not done anything yet. -/
def new (m n m' n' : LinkBufferSize) : Duplex m n m' n' := ⟨.new m n, .new m' n'⟩

/-- A step of one of the ends. -/
inductive Act where
  | near (a : EndpointAct)
  | far (a : EndpointAct)
  deriving DecidableEq, Repr

/-- Something happens at one of the ends. -/
def step (d : Duplex m n m' n') : Act → Except Check (Duplex m n m' n')
  | .near a => (d.near.step d.far a).map fun (x, y) ↦ ⟨x, y⟩
  | .far a => (d.far.step d.near a).map fun (y, x) ↦ ⟨x, y⟩

/-- What the ends may do. -/
def Allowed (d : Duplex m n m' n') : Act → Prop
  | .near a => d.near.Allows d.far a
  | .far a => d.far.Allows d.near a

instance (d : Duplex m n m' n') (a : Act) : Decidable (d.Allowed a) :=
  match a with
  | .near _ => inferInstanceAs (Decidable (Endpoint.Allows _ _ _))
  | .far _ => inferInstanceAs (Decidable (Endpoint.Allows _ _ _))

/-- The clock that is read. -/
def Act.clock : Act → Uptime
  | .near a | .far a => a.clock

/-- Every step keeps the two ends at some stage of their connection. -/
theorem stage_step {d : Duplex m n m' n'} {a : Act} {T : Uptime} (h : d.near.Stage T d.far)
    (hal : d.Allowed a) (hT : a.clock + 2 ^ 32 ≤ T) :
    Yields (d.step a) fun d' ↦ d'.near.Stage T d'.far := by
  cases a with
  | near a => exact (h.step hal hT).map
  | far a => exact ((h.swap.step hal hT).mono fun out hout ↦ hout.swap).map

private theorem stage_of_reachable {d : Duplex m n m' n'}
    (hr : Reachable step Allowed (new m n m' n') d) : ∃ T, d.near.Stage T d.far := by
  apply hr.invariant (fun d ↦ ∃ T, d.near.Stage T d.far)
  · exact ⟨0, .fresh rfl rfl⟩
  · rintro d a d' ⟨T, h⟩ hal hs
    obtain ⟨d1, hok, h1⟩ := stage_step (h.mono (le_max_left T (a.clock + 2 ^ 32))) hal
      (le_max_right T _)
    obtain rfl : d1 = d' := Except.ok.inj (hok.symm.trans hs)
    exact ⟨_, h1⟩

/-- Two channels that connect over a medium that loses packets but keeps their order: what
either application reads is always a prefix of what the other has written, either meets the end
of the stream only after it has read everything and the other has closed, and nothing that
either end does fails a check. -/
theorem delivers_both_ways {d : Duplex m n m' n'}
    (hr : Reachable step Allowed (new m n m' n') d) :
    d.near.Delivers d.far ∧ d.far.Delivers d.near ∧
      ∀ a, d.Allowed a → ∃ d', d.step a = .ok d' := by
  obtain ⟨T, h⟩ := stage_of_reachable hr
  refine ⟨h.delivers, h.swap.delivers, fun a hal ↦ ?_⟩
  obtain ⟨d', hok, -⟩ := stage_step (h.mono (le_max_left T (a.clock + 2 ^ 32))) hal
    (le_max_right T _)
  exact ⟨d', hok⟩

/-- A link whose first handshake is lost, with data in both directions. -/
theorem delivers_both_ways_once : ∃ d : Duplex 1 1 1 1,
    Reachable step Allowed (new 1 1 1 1) d ∧ d.far.read = [7, 8] ∧ d.near.accepted = [7, 8] ∧
      d.near.channel.receiver.endOfStream = true ∧ d.far.accepted = [9] ∧ d.near.read = [9] := by
  obtain ⟨d, hr, ht⟩ := Reachable.of_test step Allowed (new 1 1 1 1)
    [.near (.call (.connect ⟨1, by decide⟩ 0 none)), .far (.call (.connect ⟨2, by decide⟩ 5 none)),
      .near (.call (.conn 0 0 0)), .far (.lose 0), .near (.call (.conn 1000000 0 0)), .far .receive,
      .far (.call (.conn 0 0 0)), .near .receive, .near (.call (.conn 0 0 0)), .far .receive,
      .near (.call (.write [7, 8] 1)), .near (.call (.flush 1)), .near (.call (.send 0 0 0)),
      .far .receive, .far (.call (.read 4 2)), .far (.call (.write [9] 2)),
      .far (.call (.close 2)), .far (.call (.send 0 0 0)), .far (.call (.send 0 0 0)),
      .near .receive, .near .receive, .near (.call (.read 4 1))]
    (fun d ↦ d.far.read = [7, 8] ∧ d.near.accepted = [7, 8] ∧
      d.near.channel.receiver.endOfStream = true ∧ d.far.accepted = [9])
    (by decide) (by decide)
  obtain ⟨hread, hacc, heos, hacc'⟩ := of_decide_eq_true ht
  have hend := (delivers_both_ways hr).2.1.ended heos
  exact ⟨d, hr, hread, hacc, heos, hacc', hend.2.trans hacc'⟩

end Duplex

end RooTransport.Link
