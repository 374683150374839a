import RooTransport.Messaging.LinkMessaging

/-!
# Two messagings over a lossy link

A link as the messaging sees it, with everything left open that it does not promise: when
calls wait, how many bytes they take or give, with which status they end, and which
connection of the other side a connection is joined to. All it promises is that a
connection gives a prefix of the bytes written on the connection it is joined to. On top,
`messaging/mux_messaging.h` and `mux_messaging.cpp`. Registering and unregistering channels
is left out.
-/

namespace RooTransport.Messaging

open RooTransport.Base RooTransport.Link

/-! ### Channels -/

/-- `mux_messaging.h:12`. -/
abbrev ChannelId := UInt8

namespace MuxMessaging

/-- `mux_messaging.cpp:57–75`, what a channel makes of a call. -/
def channelCall (id : ChannelId) : Call → Call
  | .send header payload => .send (id :: header) payload
  | .sendContinuation connectionId header payload =>
    .sendContinuation connectionId (id :: header) payload

/-- `mux_messaging.cpp:16–39`: the channel that gets a message, and what it gets. -/
def received (receivers : List ChannelId) : List UInt8 → Option (ChannelId × List UInt8)
  | [] => none
  | id :: data => if id ∈ receivers then some (id, data) else none

/-- What the receiver of a channel gets of the messages. -/
def channelMessages (receivers : List ChannelId) (id : ChannelId) (messages : List (List UInt8)) :
    List (List UInt8) :=
  (messages.filterMap (received receivers)).filterMap fun (id', data) ↦
    if id' = id then some data else none

end MuxMessaging

/-! ### Connections -/

/-- A call, and the channel it was made on, if any. -/
structure Sent where
  origin : Option ChannelId
  call : Call
  deriving DecidableEq, Repr

namespace Sent

/-- What its caller sends. -/
def data (e : Sent) : List UInt8 := e.call.header ++ e.call.payload

/-- The call of the messaging below. -/
def wire (e : Sent) : Call :=
  match e.origin with
  | none => e.call
  | some id => MuxMessaging.channelCall id e.call

/-- The message that the messaging below sends. -/
def message (e : Sent) : List UInt8 := e.wire.header ++ e.wire.payload

/-- The size field that goes before the message, and the message. -/
def piece (e : Sent) : List UInt8 × List UInt8 :=
  (storeBeU32 (UInt32.ofNat (e.wire.header.length + e.wire.payload.length)), e.message)

/-- What was sent on the channel. -/
def onChannel (id : ChannelId) (e : Sent) : Option (List UInt8) :=
  if e.origin = some id then some e.data else none

end Sent

/-- One end of a connection, with what happened on it. -/
structure Conn where
  id : UInt32
  /-- The number of the connection of the other side that it is joined to. -/
  peer : Nat
  status : LinkStatus
  written : List UInt8
  /-- How many bytes of the other side were read. -/
  taken : Nat
  sent : List Sent
  /-- The messages dispatched, each with the connection id that the receiver was told. -/
  dispatched : List (UInt32 × List UInt8)
  deriving DecidableEq, Repr

/-- The connections of one side, the newest first; they are numbered from the oldest on. -/
def connAt : List Conn → Nat → Option Conn
  | [], _ => none
  | c :: rest, n => if n = rest.length then some c else connAt rest n

/-- The bytes written on a connection, none if there is no such connection yet. -/
def writtenAt (conns : List Conn) (n : Nat) : List UInt8 :=
  ((connAt conns n).map (·.written)).getD []

/-- The messages sent on a connection. -/
def sentAt (conns : List Conn) (n : Nat) : List Sent := ((connAt conns n).map (·.sent)).getD []

/-- Change the newest connection. -/
def onNewest (f : Conn → Conn) : List Conn → List Conn
  | [] => []
  | c :: rest => f c :: rest

/-- A connection is as it was, or the newest one after the change. -/
theorem mem_onNewest {f : Conn → Conn} {conns : List Conn} {c : Conn}
    (h : c ∈ onNewest f conns) : c ∈ conns ∨ ∃ c' ∈ conns.head?, c = f c' := by
  cases conns with
  | nil => cases h
  | cons c' rest =>
    obtain rfl | h := List.mem_cons.mp h
    · exact .inr ⟨c', rfl, rfl⟩
    · exact .inl (List.mem_cons_of_mem _ h)

/-- The newest connection changes. -/
theorem head_onNewest (f : Conn → Conn) (conns : List Conn) :
    (onNewest f conns).head? = conns.head?.map f := by
  cases conns <;> rfl

/-- What a link leaves open in a call. -/
structure Choice where
  waits : Bool
  count : Nat
  status : Status
  id : UInt32
  peer : Nat
  deriving DecidableEq, Repr

/-- The link of a side, over its connections, given those of the other side. -/
def lossyLayer (others : List Conn) : LinkLayer (List Conn) Choice where
  write conns choice buf id _ :=
    match conns with
    | [] => .ok (conns, .returned 0 .connectionError false)
    | c :: rest =>
      if c.id ≠ id then .ok (conns, .returned 0 .connectionError false)
      else if choice.waits then .ok (conns, .waits false)
      else
        let bytes := buf.take choice.count
        .ok ({ c with written := c.written ++ bytes } :: rest,
          .returned bytes.length choice.status false)
  flush conns id :=
    match conns with
    | [] => (conns, .connectionError)
    | c :: _ =>
      (conns, if c.id = id ∧ (c.status = .connected ∨ c.status = .connecting) then .ok
        else .connectionError)
  read conns choice count id _ :=
    match conns with
    | [] => .ok (conns, .returned [] .connectionError false)
    | c :: rest =>
      if c.id ≠ id then .ok (conns, .returned [] .connectionError false)
      else if choice.waits then .ok (conns, .waits false)
      else
        let bytes := ((writtenAt others c.peer).drop c.taken).take (min choice.count count)
        .ok ({ c with taken := c.taken + bytes.length } :: rest,
          .returned bytes choice.status false)
  getLinkStatus conns id :=
    match conns with
    | [] => .idle
    | c :: _ => if c.id = id then c.status else .broken
  connect conns choice :=
    .ok (⟨choice.id, choice.peer, .connecting, [], 0, [], []⟩ :: conns, choice.id)
  disconnect conns _ := .ok conns

/-- Spec of a write: it waits, or fails, or a prefix of the bytes is written. -/
theorem lossy_write (others conns : List Conn) (choice : Choice) (buf : List UInt8)
    (id : UInt32) (resumed : Bool) : ∃ conns' result,
      (lossyLayer others).write conns choice buf id resumed = .ok (conns', result) ∧
      (conns' = conns ∧ (result = .waits false ∨ result = .returned 0 .connectionError false) ∨
        conns' = onNewest (fun c ↦ { c with written := c.written ++ buf.take choice.count }) conns ∧
        result = .returned (buf.take choice.count).length choice.status false) := by
  cases conns with
  | nil => exact ⟨_, _, rfl, .inl ⟨rfl, .inr rfl⟩⟩
  | cons c rest =>
    unfold lossyLayer
    dsimp only
    split
    · exact ⟨_, _, rfl, .inl ⟨rfl, .inr rfl⟩⟩
    split
    · exact ⟨_, _, rfl, .inl ⟨rfl, .inl rfl⟩⟩
    · exact ⟨_, _, rfl, .inr ⟨rfl, rfl⟩⟩

/-- Spec of a read: it waits, or ends, with a prefix of the bytes not yet read. -/
theorem lossy_read (others conns : List Conn) (choice : Choice) (count : Nat)
    (id : UInt32) (resumed : Bool) : ∃ conns' result bytes,
      (lossyLayer others).read conns choice count id resumed = .ok (conns', result) ∧
      (result = .waits false ∧ bytes = [] ∨ ∃ status, result = .returned bytes status false) ∧
      bytes.length ≤ count ∧
      (bytes = [] ∨ ∃ c ∈ conns.head?, bytes <+: (writtenAt others c.peer).drop c.taken) ∧
      conns' = onNewest (fun c ↦ { c with taken := c.taken + bytes.length }) conns := by
  cases conns with
  | nil => exact ⟨_, _, [], rfl, .inr ⟨_, rfl⟩, by simp, .inl rfl, rfl⟩
  | cons c rest =>
    unfold lossyLayer
    dsimp only
    split
    · exact ⟨_, _, [], rfl, .inr ⟨_, rfl⟩, by simp, .inl rfl, rfl⟩
    split
    · exact ⟨_, _, [], rfl, .inl ⟨rfl, rfl⟩, by simp, .inl rfl, rfl⟩
    · refine ⟨_, _, _, rfl, .inr ⟨_, rfl⟩, ?_, .inr ⟨c, rfl, List.take_prefix ..⟩, rfl⟩
      rw [List.length_take]
      omega

/-! ### The two sides -/

/-- One side, with the calls that its threads were last in. -/
structure Side where
  messaging : LinkMessaging
  conns : List Conn
  calls : Nat → Sent

namespace Side

/-- A side that has made no connection. -/
def new (maxRecvPacketSize : Nat) : Side :=
  ⟨.new maxRecvPacketSize, [], fun _ ↦ ⟨none, .send [] []⟩⟩

/-- What may happen at a side. -/
inductive Act where
  /-- A call through a channel. -/
  | channelCall (i : Nat) (id : ChannelId) (call : Call)
  /-- A step of the messaging, calls made on it directly included. -/
  | run (a : LinkMessaging.Act Choice)
  /-- The link comes up, or breaks. -/
  | drift (status : LinkStatus)

/-- The call that is made, if any. -/
def Act.made : Act → Option Sent
  | .channelCall _ id call => some ⟨some id, call⟩
  | .run (.call _ call) => some ⟨none, call⟩
  | .run _ | .drift _ => none

/-- A thread starts a call, unless it is in one. -/
def start (x : Side) (i : Nat) (e : Sent) : Side :=
  match x.messaging.senders i with
  | .idle | .returned _ _ =>
    { x with
      messaging := x.messaging.startCall i e.wire
      calls := Function.update x.calls i e }
  | _ => x

/-- The call that has gone on to `sendInternal` when the messaging became `m`. -/
def started (x : Side) (m : LinkMessaging) : Option Sent :=
  match x.messaging.mutex, m.mutex with
  | none, some i => some (x.calls i)
  | _, _ => none

/-- A step of the messaging, with what is to be noted of it. -/
def note (x : Side) (m : LinkMessaging) (conns : List Conn) (event : Option Event) : Side :=
  { x with
    messaging := m
    conns := onNewest (fun c ↦ { c with
        sent := c.sent ++ (x.started m).toList
        dispatched := match event with
          | some (.received connectionId data) => c.dispatched ++ [(connectionId, data)]
          | _ => c.dispatched }) conns }

/-- What happens at a side whose peer has the connections `others`. -/
def step (x : Side) (others : List Conn) : Act → Except Check Side
  | .channelCall i id call => .ok (x.start i ⟨some id, call⟩)
  | .run (.call i call) => .ok (x.start i ⟨none, call⟩)
  | .run a => (x.messaging.step (lossyLayer others) x.conns a).map fun (m, conns, event) ↦
      x.note m conns event
  | .drift status => .ok { x with conns := onNewest (fun c ↦ { c with status }) x.conns }

end Side

/-! ### What a step does -/

namespace Side

/-- The thread is in a call that has not got to `sendInternal`. -/
def Waits (m : LinkMessaging) (i : Nat) (call : Call) : Prop :=
  m.senders i = .entering call ∨ ∃ notified, m.senders i = .parked call notified

/-- The loop is not on a connection. -/
def Away : ReceiveLoop → Prop
  | .entering _ | .reading _ _ _ _ => False
  | .notStarted | .checking | .connecting | .finished => True

/-- Nothing changes for the bytes on the link: threads in `sendInternal` stand where they stood,
no thread gets into a call, and the loop stays where it is or leaves its connection. -/
structure Similar (m m' : LinkMessaging) : Prop where
  mutex : m'.mutex = m.mutex
  output : m'.link.output = m.link.output
  input : m'.link.input = m.link.input
  myStreamId : m'.link.myStreamId = m.link.myStreamId
  maxRecvPacketSize : m'.maxRecvPacketSize = m.maxRecvPacketSize
  sending : ∀ i blocks waiting connectionId,
    m'.senders i = .sending blocks waiting connectionId ↔
      m.senders i = .sending blocks waiting connectionId
  waits : ∀ i call, Waits m' i call → Waits m i call
  loop : m'.loop = m.loop ∨ Away m'.loop

/-- What happens to a side, when `made` is called if anything is. -/
inductive Move (others : List Conn) (made : Option Sent) (x : Side) : Side → Prop
  | quiet (m : LinkMessaging) : Similar x.messaging m → Move others made x { x with messaging := m }
  | start (i : Nat) (e : Sent) : made = some e →
      (∀ blocks waiting connectionId,
        x.messaging.senders i ≠ .sending blocks waiting connectionId) →
      Move others made x { x with
        messaging := x.messaging.setSender i (.entering e.wire)
        calls := Function.update x.calls i e }
  | lock (i : Nat) (call : Call) (connectionId : Option UInt32) : x.messaging.mutex = none →
      Waits x.messaging i call →
      (∀ id header payload, call = .sendContinuation id header payload →
        x.messaging.link.myStreamId = id) →
      Move others made x { x with
        messaging := x.messaging.startSending i call connectionId
        conns := onNewest (fun c ↦ { c with sent := c.sent ++ [x.calls i] }) x.conns }
  | write (i : Nat) (blocks blocks' : List (List UInt8)) (waiting waiting' : Bool)
      (connectionId : Option UInt32) (bytes : List UInt8) (status : Status) :
      x.messaging.senders i = .sending blocks waiting connectionId →
      (status = .ok → x.messaging.link.output.status = .ok ∧
        bytes ++ blocks'.flatten = blocks.flatten) →
      (x.messaging.link.output.status = .ok ∧ bytes <+: blocks.flatten ∨ bytes = []) →
      Move others made x { x with
        messaging := { x.messaging.setSender i (.sending blocks' waiting' connectionId) with
          link := { x.messaging.link with output := { x.messaging.link.output with status } } }
        conns := onNewest (fun c ↦ { c with written := c.written ++ bytes }) x.conns }
  | unlock (i : Nat) (waiting result : Bool) (connectionId : Option UInt32) (status : Status) :
      x.messaging.senders i = .sending [] waiting connectionId →
      (status = .ok → x.messaging.link.output.status = .ok) →
      Move others made x { x with
        messaging := { x.messaging.setSender i (.returned result connectionId) with
          mutex := none
          link := { x.messaging.link with output := { x.messaging.link.output with status } } } }
  | connect (id : UInt32) (peer : Nat) : x.messaging.mutex = none →
      Move others made x { x with
        messaging := { x.messaging.notifyAll with link := .new id, loop := .entering id }
        conns := ⟨id, peer, .connecting, [], 0, [], []⟩ :: x.conns }
  | enter (id : UInt32) : x.messaging.loop = .entering id →
      Move others made x { x with
        messaging := { x.messaging with loop := .reading id none [] false } }
  | take (id : UInt32) (size : Option Nat) (got bytes : List UInt8) (waiting waiting' : Bool)
      (status : Status) : x.messaging.loop = .reading id size got waiting →
      bytes.length ≤ size.getD 4 - got.length →
      (bytes = [] ∨ ∃ c ∈ x.conns.head?, bytes <+: (writtenAt others c.peer).drop c.taken) →
      Move others made x { x with
        messaging := { x.messaging with
          loop := .reading id size (got ++ bytes) waiting'
          link := { x.messaging.link with input := { x.messaging.link.input with status } } }
        conns := onNewest (fun c ↦ { c with taken := c.taken + bytes.length }) x.conns }
  | sized (id : UInt32) (got : List UInt8) (waiting : Bool) :
      x.messaging.loop = .reading id none got waiting → 4 ≤ got.length →
      (loadBeU32 got).toNat ≤ x.messaging.maxRecvPacketSize →
      Move others made x { x with
        messaging := { x.messaging with
          loop := .reading id (some (loadBeU32 got).toNat) [] false } }
  | dispatch (id : UInt32) (n : Nat) (got : List UInt8) (waiting : Bool) :
      x.messaging.loop = .reading id (some n) got waiting → n ≤ got.length →
      Move others made x { x with
        messaging := { x.messaging with loop := .reading id none [] false }
        conns := onNewest (fun c ↦ { c with dispatched := c.dispatched ++ [(id, got)] }) x.conns }
  | drift (status : LinkStatus) :
      Move others made x { x with conns := onNewest (fun c ↦ { c with status }) x.conns }

variable {others : List Conn} {made : Option Sent} {x x' : Side} {m : LinkMessaging}
  {conns : List Conn}

private theorem Similar.refl (m : LinkMessaging) : Similar m m :=
  ⟨rfl, rfl, rfl, rfl, rfl, fun _ _ _ _ ↦ .rfl, fun _ _ h ↦ h, .inl rfl⟩

private theorem Similar.ending (m : LinkMessaging) (closed : Bool) (ending : Ending) :
    Similar m { m with closed, ending } :=
  ⟨rfl, rfl, rfl, rfl, rfl, fun _ _ _ _ ↦ .rfl, fun _ _ h ↦ h, .inl rfl⟩

private theorem Move.refl (x : Side) : Move others made x x := .quiet x.messaging (.refl _)

private theorem onNewest_same {f : Conn → Conn} (hf : ∀ c, f c = c) (conns : List Conn) :
    onNewest f conns = conns := by
  cases conns with
  | nil => rfl
  | cons c rest => rw [onNewest, hf]

private theorem started_none (h : x.messaging.mutex = none → m.mutex = none) :
    x.started m = none := by
  unfold started
  split
  · next hfree hsome =>
    rw [h hfree] at hsome
    cases hsome
  · rfl

private theorem note_move (event : Option UInt32) (h : x.messaging.mutex = none → m.mutex = none)
    (hm : Move others made x { x with messaging := m, conns }) :
    Move others made x (x.note m conns (event.map Event.reset)) := by
  rw [note, started_none h, onNewest_same]
  · exact hm
  · intro c
    cases event <;> simp

-- Threads that wait for the lock are told of something, or give up waiting.
private theorem Similar.setSender {i : Nat} {y : Sender}
    (hidle : ∀ blocks waiting connectionId, m.senders i ≠ .sending blocks waiting connectionId)
    (hsend : ∀ blocks waiting connectionId, y ≠ .sending blocks waiting connectionId)
    (hwaits : ∀ call, y = .entering call ∨ (∃ notified, y = .parked call notified) →
      Waits m i call) : Similar m (m.setSender i y) where
  mutex := rfl
  output := rfl
  input := rfl
  myStreamId := rfl
  maxRecvPacketSize := rfl
  sending j blocks waiting connectionId := by
    by_cases hji : j = i
    · subst hji
      rw [LinkMessaging.setSender]
      dsimp only
      rw [Function.update_self]
      exact ⟨fun h ↦ absurd h (hsend _ _ _), fun h ↦ absurd h (hidle _ _ _)⟩
    · rw [LinkMessaging.setSender]
      dsimp only
      rw [Function.update_of_ne hji]
  waits j call h := by
    by_cases hji : j = i
    · subst hji
      rw [Waits, LinkMessaging.setSender] at h
      dsimp only at h
      rw [Function.update_self] at h
      exact hwaits call h
    · rw [Waits, LinkMessaging.setSender] at h
      dsimp only at h
      rw [Function.update_of_ne hji] at h
      exact h
  loop := .inl rfl

/-- Waking the senders changes nothing for the bytes on the link. -/
theorem notifyAll_similar (m : LinkMessaging) : Similar m m.notifyAll where
  mutex := rfl
  output := rfl
  input := rfl
  myStreamId := rfl
  maxRecvPacketSize := rfl
  sending i blocks waiting connectionId := by
    unfold LinkMessaging.notifyAll
    dsimp only
    split
    · next h => simp [h]
    · rfl
  waits i call h := by
    unfold Waits LinkMessaging.notifyAll at h
    dsimp only at h
    split at h
    · next call' n hp =>
      obtain h | ⟨n', h⟩ := h
      · cases h
      · cases h
        exact .inr ⟨n, hp⟩
    · exact h
  loop := .inl rfl

private theorem Waits.not_sending {i : Nat} {call : Call} (h : Waits m i call)
    (blocks : List (List UInt8)) (waiting : Bool) (connectionId : Option UInt32) :
    m.senders i ≠ .sending blocks waiting connectionId := by
  obtain h | ⟨n, h⟩ := h <;> simp [h]

private theorem quiet_move (h : Similar x.messaging m) (event : Option UInt32) :
    Move others made x (x.note m x.conns (event.map Event.reset)) :=
  note_move event (fun hfree ↦ h.mutex.trans hfree) (.quiet m h)

private theorem lock_move {i : Nat} {call : Call} (hfree : x.messaging.mutex = none)
    (hw : Waits x.messaging i call)
    (hcont : ∀ id header payload, call = .sendContinuation id header payload →
      x.messaging.link.myStreamId = id) (connectionId : Option UInt32) :
    Move others made x (x.note (x.messaging.startSending i call connectionId) x.conns none) := by
  have hstarted : x.started (x.messaging.startSending i call connectionId) = some (x.calls i) := by
    unfold started
    rw [hfree]
    rfl
  rw [note, hstarted]
  exact .lock i call connectionId hfree hw hcont

private theorem takeTurn_move {i : Nat} {call : Call} (hfree : x.messaging.mutex = none)
    (hw : Waits x.messaging i call) : Move others made x
      (x.note (x.messaging.takeTurn (lossyLayer others) x.conns i call) x.conns none) := by
  have hrefuse : Similar x.messaging (x.messaging.setSender i (.returned false none)) :=
    .setSender hw.not_sending (by simp) (by simp)
  unfold LinkMessaging.takeTurn
  split
  · exact quiet_move hrefuse none
  split
  · have hpark (header payload : List UInt8) (hw : Waits x.messaging i (.send header payload)) :
        Similar x.messaging (x.messaging.setSender i (.parked (.send header payload) false)) := by
      refine .setSender hw.not_sending (by simp) fun call' h ↦ ?_
      simp only [reduceCtorEq, false_or, Sender.parked.injEq] at h
      obtain ⟨n, rfl, -⟩ := h
      exact hw
    split
    · exact lock_move hfree hw (by simp) _
    · exact lock_move hfree hw (by simp) _
    · exact quiet_move (hpark _ _ hw) none
    · exact quiet_move (hpark _ _ hw) none
  · split
    · exact quiet_move hrefuse none
    · next hid =>
      refine lock_move hfree hw (fun id header payload heq ↦ ?_) none
      cases heq
      exact not_not.mp hid

private theorem enter_move (x : Side) (i : Nat) : Move others made x
    (x.note (x.messaging.enter (lossyLayer others) x.conns i) x.conns none) := by
  unfold LinkMessaging.enter
  split
  · exact quiet_move (.refl _) none
  next hfree =>
  rw [not_not] at hfree
  split
  · next h => exact takeTurn_move hfree (.inl h)
  · next h => exact takeTurn_move hfree (.inr ⟨_, h⟩)
  · exact quiet_move (.refl _) none

private theorem start_move (x : Side) (i : Nat) (e : Sent) :
    Move others (some e) x (x.start i e) := by
  unfold start LinkMessaging.startCall
  cases h : x.messaging.senders i with
  | idle | returned => exact .start i e rfl (by simp [h])
  | entering | parked | sending => exact .refl x

/-- A write to the stream, or what comes in its place. -/
theorem write_block_move {i : Nat} {blocks blocks' : List (List UInt8)}
    {waiting : Bool} {connectionId : Option UInt32} (waiting' : Bool) {bytes : List UInt8}
    {status : Status} (hs : x.messaging.senders i = .sending blocks waiting connectionId)
    (hok : status = .ok → x.messaging.link.output.status = .ok ∧
      bytes ++ blocks'.flatten = blocks.flatten)
    (hbytes : x.messaging.link.output.status = .ok ∧ bytes <+: blocks.flatten ∨ bytes = [])
    (hconns : conns = onNewest (fun c ↦ { c with written := c.written ++ bytes }) x.conns) :
    Move others made x (x.note
      { x.messaging.setSender i (.sending blocks' waiting' connectionId) with
        link := { x.messaging.link with output := { x.messaging.link.output with status } } }
      conns none) := by
  rw [hconns]
  exact note_move none id
    (.write i blocks blocks' waiting waiting' connectionId bytes status hs hok hbytes)

private theorem nothing_written (conns : List Conn) :
    conns = onNewest (fun c ↦ { c with written := c.written ++ [] }) conns :=
  (onNewest_same (by simp) conns).symm

private theorem finishSending_eq (m : LinkMessaging) (conns : List Conn) (i : Nat)
    (connectionId : Option UInt32) : ∃ result status, (status = .ok → m.link.output.status = .ok) ∧
      m.finishSending (lossyLayer others) conns i connectionId =
        ({ m.setSender i (.returned result connectionId) with
          mutex := none
          link := { m.link with output := { m.link.output with status } } }, conns) := by
  have hflush : ((lossyLayer others).flush conns m.link.output.myStreamId).1 = conns := by
    unfold lossyLayer
    dsimp only
    split <;> rfl
  by_cases hopen : m.link.output.status = .ok
  · refine ⟨((lossyLayer others).flush conns m.link.output.myStreamId).2 = .ok,
      ((lossyLayer others).flush conns m.link.output.myStreamId).2, fun _ ↦ hopen, ?_⟩
    unfold LinkMessaging.finishSending
    rw [if_pos hopen]
    exact congrArg (Prod.mk _) hflush
  · refine ⟨m.link.output.status = .ok, m.link.output.status, id, ?_⟩
    unfold LinkMessaging.finishSending
    rw [if_neg hopen]

private theorem unlock_move {i : Nat} {waiting : Bool} {connectionId : Option UInt32}
    (hs : x.messaging.senders i = .sending [] waiting connectionId)
    (h : x.messaging.finishSending (lossyLayer others) x.conns i connectionId = (m, conns)) :
    Move others made x (x.note m conns none) := by
  obtain ⟨result, status, hok, heq⟩ := finishSending_eq x.messaging x.conns i connectionId
  obtain ⟨rfl, rfl⟩ := Prod.mk.inj (h.symm.trans heq)
  exact note_move none (fun _ ↦ rfl) (.unlock i waiting result connectionId status hs hok)

private theorem write_move {i : Nat} {choice : Choice}
    (h : x.messaging.write (lossyLayer others) x.conns i choice = .ok (m, conns)) :
    Move others made x (x.note m conns none) := by
  unfold LinkMessaging.write at h
  split at h
  · next waiting connectionId hs =>
    exact unlock_move hs (Except.ok.inj h)
  · next block rest waiting connectionId hs =>
    split at h
    · next hskip =>
      cases h
      refine write_block_move false hs (fun hok ↦ ⟨hok, ?_⟩) (.inr rfl) (nothing_written _)
      obtain rfl | hbad := hskip
      · rfl
      · exact absurd hok hbad
    next hgo =>
    rw [not_or, not_not] at hgo
    obtain ⟨conns', result, hw, hcases⟩ :=
      lossy_write others x.conns choice block x.messaging.link.output.myStreamId waiting
    rw [hw] at h
    obtain ⟨rfl, rfl | rfl⟩ | ⟨rfl, rfl⟩ := hcases
    · cases h
      exact write_block_move true hs (fun hok ↦ ⟨hok, rfl⟩) (.inr rfl) (nothing_written _)
    · cases h
      exact write_block_move false hs (by simp) (.inr rfl) (nothing_written _)
    · cases h
      have hsplit :
          block.take choice.count ++ block.drop (block.take choice.count).length = block :=
        List.prefix_iff_eq_append.mp (List.take_prefix ..)
      refine write_block_move false hs (fun _ ↦ ⟨hgo.2, ?_⟩) (.inl ⟨hgo.2, ?_⟩) rfl
      · rw [List.flatten_cons, List.flatten_cons, ← List.append_assoc, hsplit]
      · exact (List.take_prefix ..).trans (List.prefix_append ..)
  · cases h
    exact quiet_move (.refl _) none

private theorem Similar.away {loop : ReceiveLoop} (h : Away loop) (m : LinkMessaging) :
    Similar m { m with loop } :=
  ⟨rfl, rfl, rfl, rfl, rfl, fun _ _ _ _ ↦ .rfl, fun _ _ h ↦ h, .inr h⟩

private theorem dispatch_move {connectionId : UInt32} {n : Nat} {got : List UInt8} {waiting : Bool}
    (hloop : x.messaging.loop = .reading connectionId (some n) got waiting) (hn : n ≤ got.length) :
    Move others made x
      (x.note { x.messaging with loop := .reading connectionId none [] false } x.conns
        (some (.received connectionId got))) := by
  have hnone : x.started { x.messaging with loop := .reading connectionId none [] false } = none :=
    started_none id
  rw [note, hnone]
  simp only [Option.toList_none, List.append_nil]
  exact .dispatch connectionId n got waiting hloop hn

private theorem read_move {choice : Choice} {connectionId : UInt32} {size : Option Nat}
    {got : List UInt8} {waiting : Bool} {event : Option Event}
    (hloop : x.messaging.loop = .reading connectionId size got waiting)
    (h : x.messaging.read (lossyLayer others) x.conns choice connectionId size got waiting =
      .ok (m, conns, event)) : Move others made x (x.note m conns event) := by
  have hreset : Move others made x (x.note { x.messaging with loop := .checking } x.conns
      (some (.reset connectionId))) :=
    quiet_move (Similar.away (by trivial) x.messaging) (some connectionId)
  unfold LinkMessaging.read at h
  dsimp only at h
  split at h
  · next hcount =>
    unfold LinkMessaging.readDone at h
    cases size with
    | none =>
      dsimp only at h
      split at h
      · cases h
        exact hreset
      · next hsize =>
        cases h
        exact note_move none id (.sized connectionId got waiting hloop hcount (not_lt.mp hsize))
    | some n =>
      cases h
      exact dispatch_move hloop hcount
  next hcount =>
  split at h
  · cases h
    exact hreset
  · obtain ⟨conns', result, bytes, hr, hresult, hlen, hbytes, rfl⟩ := lossy_read others x.conns
      choice (size.getD 4 - got.length) x.messaging.link.input.myStreamId waiting
    rw [hr] at h
    obtain ⟨rfl, rfl⟩ | ⟨status, rfl⟩ := hresult
    · cases h
      have hmove : Move others made x _ := .take connectionId size got [] waiting true
        x.messaging.link.input.status hloop (by simp) (.inl rfl)
      rw [List.append_nil] at hmove
      exact note_move none id hmove
    · cases h
      exact note_move none id
        (.take connectionId size got bytes waiting false status hloop hlen hbytes)

private theorem receiveLoop_move {choice : Choice} {event : Option Event}
    (h : x.messaging.receiveLoop (lossyLayer others) x.conns choice = .ok (m, conns, event)) :
    Move others made x (x.note m conns event) := by
  unfold LinkMessaging.receiveLoop at h
  split at h
  · cases h
    refine quiet_move (.away ?_ x.messaging) none
    split <;> trivial
  · split at h
    · cases h
      exact quiet_move (.refl _) none
    next hfree =>
    cases h
    exact note_move none id (.connect choice.id choice.peer (not_not.mp hfree))
  · next connectionId hloop =>
    split at h
    · cases h
      exact quiet_move (.refl _) none
    · cases h
      exact note_move none id (.enter connectionId hloop)
  · next hloop => exact read_move hloop h
  · cases h
    exact quiet_move (.refl _) none
  · cases h
    exact quiet_move (.refl _) none

private theorem wakeUp_similar (m : LinkMessaging) (i : Nat) : Similar m (m.wakeUp i) := by
  unfold LinkMessaging.wakeUp
  split
  · next call notified h =>
    refine .setSender (by simp [h]) (by simp) fun call' hcall ↦ ?_
    simp only [reduceCtorEq, false_or, Sender.parked.injEq] at hcall
    obtain ⟨n, rfl, -⟩ := hcall
    exact .inr ⟨notified, h⟩
  · exact .refl m

private theorem endLock_move
    (h : x.messaging.endLock (lossyLayer others) x.conns = .ok (m, conns)) :
    Move others made x (x.note m conns none) := by
  unfold LinkMessaging.endLock at h
  split at h
  · cases h
    exact quiet_move (.refl _) none
  have hsimilar (attached : Bool) : Similar x.messaging
      { x.messaging.notifyAll with
        link := { x.messaging.link with attached }
        ending := .joining } := by
    obtain ⟨-, -, -, -, -, hsending, hwaits, -⟩ := notifyAll_similar x.messaging
    exact ⟨rfl, rfl, rfl, rfl, rfl, hsending, hwaits, .inl rfl⟩
  unfold Link.disconnect at h
  split at h
  · next hdis => split at hdis <;> cases hdis
  · next hdis =>
    split at hdis <;> cases hdis <;> cases h
    · exact quiet_move (hsimilar false) none
    · exact quiet_move (hsimilar x.messaging.link.attached) none

/-- Every step of a side is one of these. -/
theorem step_cases {a : Act} (h : x.step others a = .ok x') : Move others a.made x x' := by
  cases a with
  | channelCall i channel call =>
    cases h
    exact start_move ..
  | drift status =>
    cases h
    exact .drift status
  | run a =>
    cases a with
    | call i call =>
      cases h
      exact start_move ..
    | begin =>
      cases h
      unfold LinkMessaging.begin
      split
      · exact quiet_move (.away (by trivial) x.messaging) none
      · exact quiet_move (.refl _) none
    | enter i =>
      cases h
      exact enter_move x i
    | write i choice =>
      obtain ⟨⟨m, conns, event⟩, hs, rfl⟩ := map_eq_ok.mp h
      obtain ⟨⟨m, conns⟩, hw, heq⟩ := map_eq_ok.mp hs
      cases heq
      exact write_move hw
    | wakeUp i =>
      cases h
      exact quiet_move (wakeUp_similar x.messaging i) none
    | receiveLoop choice =>
      obtain ⟨⟨m, conns, event⟩, hs, rfl⟩ := map_eq_ok.mp h
      exact receiveLoop_move hs
    | endCall =>
      cases h
      unfold LinkMessaging.endCall
      split
      · exact quiet_move (.refl _) none
      · exact quiet_move (Similar.ending x.messaging true .locking) none
    | endLock =>
      obtain ⟨⟨m, conns, event⟩, hs, rfl⟩ := map_eq_ok.mp h
      obtain ⟨⟨m, conns⟩, hl, heq⟩ := map_eq_ok.mp hs
      cases heq
      exact endLock_move hl
    | endJoin =>
      cases h
      unfold LinkMessaging.endJoin
      split
      · exact quiet_move (Similar.ending x.messaging x.messaging.closed .finished) none
      · exact quiet_move (.refl _) none

end Side

/-- Both sides. -/
abbrev Net := Bool → Side

namespace Net

/-- Two sides that have made no connection. -/
def start (maxRecvPacketSize : Bool → Nat) : Net := fun side ↦ .new (maxRecvPacketSize side)

/-- A step of one side. -/
def step (net : Net) (a : Bool × Side.Act) : Except Check Net :=
  ((net a.1).step (net !a.1).conns a.2).map fun x ↦ Function.update net a.1 x

end Net

end RooTransport.Messaging
