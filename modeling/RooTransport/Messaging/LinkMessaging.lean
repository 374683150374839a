import RooTransport.Link.Channel

/-!
# Messages over a link

`link/link_messaging.h` and `link_messaging.cpp`, with what they use of `link.h`,
`link_input_stream.cpp` and `link_output_stream.cpp`: any number of threads in `send` and
`sendContinuation`, the thread of the receive loop, and one thread in `end`. What a thread
does under `mutex_` without blocking is one step. Only `sendInternal` blocks while it holds
`mutex_`, in the writes to the stream, so `mutex` names the thread that is inside it. A
step whose thread has to wait leaves the state as it is. Log messages are left out, and a
callback of the receiver is an event of the step that dispatches it.
-/

namespace RooTransport.Messaging

open RooTransport.Base RooTransport.Link

/-- What a link asks of the channel below it, over the states `σ` of the channel. The choices
`χ` are what neither the state nor the call determines, such as random draws. A call that
waits is taken up again with `resumed`. -/
structure LinkLayer (σ χ : Type) where
  write (s : σ) (choice : χ) (buf : List UInt8) (myStreamId : UInt32) (resumed : Bool) :
    Except Check (σ × ThreadSafeTransmitter.WriteResult)
  flush (s : σ) (myStreamId : UInt32) : σ × Status
  read (s : σ) (choice : χ) (count : Nat) (myStreamId : UInt32) (resumed : Bool) :
    Except Check (σ × ThreadSafeReceiver.ReadResult)
  getLinkStatus (s : σ) (streamId : UInt32) : LinkStatus
  connect (s : σ) (choice : χ) : Except Check (σ × UInt32)
  disconnect (s : σ) (myStreamId : UInt32) : Except Check σ

/-- `link_input_stream.h` and `link_output_stream.h`: the stream's id and the status its last
call left. -/
structure LinkStream where
  myStreamId : UInt32
  status : Status
  deriving DecidableEq, Repr

/-- `link.h:14–78`. -/
structure Link where
  /-- `channel_` is not null. -/
  attached : Bool
  myStreamId : UInt32
  input : LinkStream
  output : LinkStream
  deriving DecidableEq, Repr

namespace Link

/-- `link.cpp:5`. -/
def detached : Link := ⟨false, 0, ⟨0, .closed⟩, ⟨0, .closed⟩⟩

/-- `link.cpp:7–11`. -/
def new (myStreamId : UInt32) : Link := ⟨true, myStreamId, ⟨myStreamId, .ok⟩, ⟨myStreamId, .ok⟩⟩

variable {σ χ : Type}

/-- `link.cpp:41–44`. -/
def status (layer : LinkLayer σ χ) (s : σ) (l : Link) : LinkStatus :=
  if l.attached then layer.getLinkStatus s l.myStreamId else .idle

/-- `link.cpp:56–60`. -/
def disconnect (layer : LinkLayer σ χ) (s : σ) (l : Link) : Except Check (σ × Link) :=
  if l.attached then (layer.disconnect s l.myStreamId).map fun s ↦ (s, { l with attached := false })
  else .ok (s, l)

end Link

/-! ### Threads -/

/-- A call of `send` or `sendContinuation`. -/
inductive Call where
  | send (header payload : List UInt8)
  | sendContinuation (connectionId : UInt32) (header payload : List UInt8)
  deriving DecidableEq, Repr

namespace Call

/-- The header of the message. -/
def header : Call → List UInt8
  | .send header _ | .sendContinuation _ header _ => header

/-- The payload of the message. -/
def payload : Call → List UInt8
  | .send _ payload | .sendContinuation _ _ payload => payload

/-- `link_messaging.cpp:77–81`, what `sendInternal` writes, one `writeFully` each. -/
def blocks (c : Call) : List (List UInt8) :=
  [storeBeU32 (UInt32.ofNat (c.header.length + c.payload.length)), c.header, c.payload]

end Call

/-- Where a thread that sends stands. -/
inductive Sender where
  | idle
  /-- About to take `mutex_`. -/
  | entering (call : Call)
  /-- Waits on `reconnected_`. -/
  | parked (call : Call) (notified : Bool)
  /-- In `sendInternal` with these blocks left to write. It has `mutex_`, and `waiting` says
  whether the write to the stream waits. -/
  | sending (blocks : List (List UInt8)) (waiting : Bool) (connectionId : Option UInt32)
  /-- Returned; the connection id is the one stored for the caller of `send`, if any. -/
  | returned (result : Bool) (connectionId : Option UInt32)
  deriving DecidableEq, Repr

/-- Where the receive loop stands. -/
inductive ReceiveLoop where
  | notStarted
  /-- At `while (!closed_)`. -/
  | checking
  /-- About to call `connect`. -/
  | connecting
  /-- About to call `in`. -/
  | entering (connectionId : UInt32)
  /-- In `readFully` for a message of the given size, or for the size if there is none yet. -/
  | reading (connectionId : UInt32) (size : Option Nat) (got : List UInt8) (waiting : Bool)
  | finished
  deriving DecidableEq, Repr

/-- Where the thread that ends the messaging stands. -/
inductive Ending where
  | notCalled
  /-- Past `closed_ = true`, about to take `mutex_`. -/
  | locking
  /-- Past `link_.disconnect()`. -/
  | joining
  | finished
  deriving DecidableEq, Repr

/-- What the receiver is told. -/
inductive Event where
  | received (connectionId : UInt32) (data : List UInt8)
  | reset (connectionId : UInt32)
  deriving DecidableEq, Repr

/-- `link_messaging.h:17–70`. -/
structure LinkMessaging where
  link : Link
  closed : Bool
  maxRecvPacketSize : Nat
  /-- The thread that has `mutex_`, between steps. -/
  mutex : Option Nat
  senders : Nat → Sender
  loop : ReceiveLoop
  ending : Ending

namespace LinkMessaging

variable {σ χ : Type}

/-- `link_messaging.cpp:5–14`. -/
def new (maxRecvPacketSize : Nat) : LinkMessaging where
  link := .detached
  closed := false
  maxRecvPacketSize
  mutex := none
  senders := fun _ ↦ .idle
  loop := .notStarted
  ending := .notCalled

/-- Sender `i` is now at `x`. -/
def setSender (m : LinkMessaging) (i : Nat) (x : Sender) : LinkMessaging :=
  { m with senders := Function.update m.senders i x }

/-- `reconnected_.notify_all()`. -/
def notifyAll (m : LinkMessaging) : LinkMessaging :=
  { m with senders := fun i ↦
      match m.senders i with
      | .parked call _ => .parked call true
      | x => x }

/-! ### Sending -/

/-- Keep `mutex_` and go on to `sendInternal`. -/
def startSending (m : LinkMessaging) (i : Nat) (call : Call) (connectionId : Option UInt32) :
    LinkMessaging :=
  { m.setSender i (.sending call.blocks false connectionId) with mutex := some i }

/-- `link_messaging.cpp:39–53` and `61–69`, under `mutex_`. -/
def takeTurn (layer : LinkLayer σ χ) (m : LinkMessaging) (s : σ) (i : Nat) (call : Call) :
    LinkMessaging :=
  if m.closed then m.setSender i (.returned false none)
  else
    match call with
    | .send _ _ =>
      match m.link.status layer s with
      | .connected | .connecting => m.startSending i call (some m.link.myStreamId)
      | .idle | .broken => m.setSender i (.parked call false)
    | .sendContinuation connectionId _ _ =>
      if m.link.myStreamId ≠ connectionId then m.setSender i (.returned false none)
      else m.startSending i call none

/-- A thread takes `mutex_`, at the start of its call or after a wait it was woken from. -/
def enter (layer : LinkLayer σ χ) (m : LinkMessaging) (s : σ) (i : Nat) : LinkMessaging :=
  if m.mutex ≠ none then m
  else
    match m.senders i with
    | .entering call | .parked call true => m.takeTurn layer s i call
    | _ => m

/-- `link_messaging.cpp:82–83`, and `mutex_` is let go of. -/
def finishSending (layer : LinkLayer σ χ) (m : LinkMessaging) (s : σ) (i : Nat)
    (connectionId : Option UInt32) : LinkMessaging × σ :=
  let (s, status) := if m.link.output.status = .ok then layer.flush s m.link.output.myStreamId
    else (s, m.link.output.status)
  ({ m.setSender i (.returned (status = .ok) connectionId) with
    mutex := none
    link := { m.link with output := { m.link.output with status } } }, s)

/-- `link_messaging.cpp:74–84`, the next write to the stream. A `writeFully` is over when its
block is written or the stream reports an error. -/
def write (layer : LinkLayer σ χ) (m : LinkMessaging) (s : σ) (i : Nat) (choice : χ) :
    Except Check (LinkMessaging × σ) :=
  match m.senders i with
  | .sending [] _ connectionId => .ok (m.finishSending layer s i connectionId)
  | .sending (block :: rest) waiting connectionId =>
    if block = [] ∨ m.link.output.status ≠ .ok then
      .ok (m.setSender i (.sending rest false connectionId), s)
    else
      match layer.write s choice block m.link.output.myStreamId waiting with
      | .error c => .error c
      | .ok (s, .waits _) => .ok (m.setSender i (.sending (block :: rest) true connectionId), s)
      | .ok (s, .returned written status _) =>
        .ok ({ m.setSender i (.sending (block.drop written :: rest) false connectionId) with
          link := { m.link with output := { m.link.output with status } } }, s)
  | _ => .ok (m, s)

/-! ### Receiving -/

/-- `link_messaging.cpp:86–91`. -/
def connect (layer : LinkLayer σ χ) (m : LinkMessaging) (s : σ) (choice : χ) :
    Except Check (LinkMessaging × σ) :=
  match layer.connect s choice with
  | .error c => .error c
  | .ok (s, id) => .ok ({ m.notifyAll with link := .new id, loop := .entering id }, s)

/-- `link_messaging.cpp:124–141`, once a `readFully` has all it asked for. -/
def readDone (m : LinkMessaging) (connectionId : UInt32) (size : Option Nat) (got : List UInt8) :
    LinkMessaging × Option Event :=
  match size with
  | none =>
    let incomingSize := (loadBeU32 got).toNat
    if m.maxRecvPacketSize < incomingSize then
      ({ m with loop := .checking }, some (.reset connectionId))
    else ({ m with loop := .reading connectionId (some incomingSize) [] false }, none)
  | some _ =>
    ({ m with loop := .reading connectionId none [] false }, some (.received connectionId got))

/-- `link_messaging.cpp:113–139`, the next read from the stream. A `readFully` is over when
it has all it asked for or the stream reports an error. -/
def read (layer : LinkLayer σ χ) (m : LinkMessaging) (s : σ) (choice : χ) (connectionId : UInt32)
    (size : Option Nat) (got : List UInt8) (waiting : Bool) :
    Except Check (LinkMessaging × σ × Option Event) :=
  let count := size.getD 4
  if count ≤ got.length then
    let (m, event) := m.readDone connectionId size got
    .ok (m, s, event)
  else if m.link.input.status ≠ .ok then
    .ok ({ m with loop := .checking }, s, some (.reset connectionId))
  else
    match layer.read s choice (count - got.length) m.link.input.myStreamId waiting with
    | .error c => .error c
    | .ok (s, .waits _) =>
      .ok ({ m with loop := .reading connectionId size got true }, s, none)
    | .ok (s, .returned bytes status _) =>
      .ok ({ m with
        loop := .reading connectionId size (got ++ bytes) false
        link := { m.link with input := { m.link.input with status } } }, s, none)

/-- `link_messaging.cpp:103–143`, the next step of the receive loop. -/
def receiveLoop (layer : LinkLayer σ χ) (m : LinkMessaging) (s : σ) (choice : χ) :
    Except Check (LinkMessaging × σ × Option Event) :=
  match m.loop with
  | .checking => .ok ({ m with loop := if m.closed then .finished else .connecting }, s, none)
  | .connecting =>
    if m.mutex ≠ none then .ok (m, s, none)
    else (m.connect layer s choice).map fun (m, s) ↦ (m, s, none)
  | .entering connectionId =>
    if m.mutex ≠ none then .ok (m, s, none)
    else .ok ({ m with loop := .reading connectionId none [] false }, s, none)
  | .reading connectionId size got waiting =>
    m.read layer s choice connectionId size got waiting
  | .notStarted | .finished => .ok (m, s, none)

/-! ### Ending -/

/-- `link_messaging.cpp:24–25`. -/
def endCall (m : LinkMessaging) : LinkMessaging :=
  if m.closed then m else { m with closed := true, ending := .locking }

/-- `link_messaging.cpp:26–30`. -/
def endLock (layer : LinkLayer σ χ) (m : LinkMessaging) (s : σ) :
    Except Check (LinkMessaging × σ) :=
  if m.ending ≠ .locking ∨ m.mutex ≠ none then .ok (m, s)
  else
    match m.link.disconnect layer s with
    | .error c => .error c
    | .ok (s, link) => .ok ({ m.notifyAll with link, ending := .joining }, s)

/-- `link_messaging.cpp:31–33`. -/
def endJoin (m : LinkMessaging) : LinkMessaging :=
  if m.ending = .joining ∧ (m.loop = .notStarted ∨ m.loop = .finished) then
    { m with ending := .finished }
  else m

/-! ### Steps -/

/-- What the threads do. -/
inductive Act (χ : Type) where
  | begin
  | call (i : Nat) (call : Call)
  | enter (i : Nat)
  | write (i : Nat) (choice : χ)
  /-- A wait on `reconnected_` ends without a notification. -/
  | wakeUp (i : Nat)
  | receiveLoop (choice : χ)
  | endCall
  | endLock
  | endJoin

/-- A thread that is not in a call starts one. -/
def startCall (m : LinkMessaging) (i : Nat) (call : Call) : LinkMessaging :=
  match m.senders i with
  | .idle | .returned _ _ => m.setSender i (.entering call)
  | _ => m

/-- A wait on `reconnected_` ends without a notification. -/
def wakeUp (m : LinkMessaging) (i : Nat) : LinkMessaging :=
  match m.senders i with
  | .parked call _ => m.setSender i (.parked call true)
  | _ => m

/-- `link_messaging.cpp:16–21`. -/
def begin (m : LinkMessaging) : LinkMessaging :=
  if m.loop = .notStarted then { m with loop := .checking } else m

/-- One step of one thread, with what the receiver is told in it. -/
def step (layer : LinkLayer σ χ) (m : LinkMessaging) (s : σ) :
    Act χ → Except Check (LinkMessaging × σ × Option Event)
  | .begin => .ok (m.begin, s, none)
  | .call i call => .ok (m.startCall i call, s, none)
  | .enter i => .ok (m.enter layer s i, s, none)
  | .write i choice => (m.write layer s i choice).map fun (m, s) ↦ (m, s, none)
  | .wakeUp i => .ok (m.wakeUp i, s, none)
  | .receiveLoop choice => m.receiveLoop layer s choice
  | .endCall => .ok (m.endCall, s, none)
  | .endLock => (m.endLock layer s).map fun (m, s) ↦ (m, s, none)
  | .endJoin => .ok (m.endJoin, s, none)

end LinkMessaging

/-- The channel as a link uses it. The random draws of `connect` are its choices. -/
def channelLayer (m n : LinkBufferSize) :
    LinkLayer (Channel m n) ({ id : UInt32 // id ≠ 0 } × UInt32) where
  write c _ buf id resumed :=
    (if resumed then ThreadSafeTransmitter.writeTurn c.transmitter buf id
      else ThreadSafeTransmitter.write c.transmitter buf id false).map fun (transmitter, result) ↦
        ({ c with transmitter }, result)
  flush c id :=
    let (transmitter, status, _) := ThreadSafeTransmitter.flush c.transmitter id false
    ({ c with transmitter }, status)
  read c _ count id resumed :=
    (if resumed then ThreadSafeReceiver.readTurn c.receiver count id
      else ThreadSafeReceiver.read c.receiver count id .ok false).map fun (receiver, result) ↦
        ({ c with receiver }, result)
  getLinkStatus := Channel.getLinkStatus
  connect c draws := (c.connect draws.1 draws.2 none).map fun (c, _) ↦ (c, draws.1)
  disconnect c id := (c.disconnect id).map Prod.fst

end RooTransport.Messaging
