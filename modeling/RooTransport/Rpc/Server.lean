import Mathlib.Data.List.AList
import RooTransport.Base.Run
import RooTransport.Rpc.HeaderCodec

/-!
# The RPC server

`rpc/server.h`, `server.cpp` and `rpc/internal/server/request.h`. A step is what one thread
does while it holds `mutex_`, or between two such sections. Any number of threads may be in
`handleRequest`, and any number may use a `RequestHandle`, at any time and as often as they
like. A response that was claimed waits in the outbox until the thread that claimed it gets
to send it. The clock is an argument of the step that reads it. Requests are numbered in
the order of their acceptance, and a response keeps the request it was claimed for; the
source has neither. The timer looks through the pending calls in any order.
-/

namespace RooTransport.Rpc

open RooTransport.Base

/-- `messaging.h:19`. -/
abbrev ConnectionId := UInt32

/-- `roo_time::Uptime`, in microseconds. -/
abbrev Uptime := Nat

/-- `roo_time::Uptime::Max()`. -/
def Uptime.max : Uptime := 2 ^ 63 - 1

/-- The bytes of a message text. -/
def ascii (text : String) : List UInt8 := text.toList.map fun ch ↦ UInt8.ofNat ch.toNat

/-- `request.h:16–58`. -/
structure RpcRequest where
  connectionId : ConnectionId
  functionId : RpcFunctionId
  streamId : RpcStreamId
  deadline : Uptime
  clientClosed : Bool
  serverClosed : Bool
  /-- How many requests were accepted before. -/
  serial : Nat
  deriving DecidableEq, Repr

/-- `request.h:61–81`, with the number of the request that it was created for. -/
structure RequestHandle where
  connectionId : ConnectionId
  streamId : RpcStreamId
  serial : Nat
  deriving DecidableEq, Repr

/-- The handle of a request. -/
def RpcRequest.handle (request : RpcRequest) : RequestHandle :=
  ⟨request.connectionId, request.streamId, request.serial⟩

/-- A handler was invoked with these (`server.cpp:91–92`). -/
structure Invocation where
  handle : RequestHandle
  functionId : RpcFunctionId
  payload : List UInt8
  last : Bool
  deriving DecidableEq, Repr

/-- The arguments of `sendResponse`, with the request that was claimed and when. -/
structure Response where
  connectionId : ConnectionId
  streamId : RpcStreamId
  status : RpcStatus
  data : List UInt8
  request : RpcRequest
  claimedAt : Uptime
  deriving DecidableEq, Repr

/-- A response as it is handed to `messaging_.sendContinuation`. -/
structure Message (io : RooIo) where
  response : Response
  header : List UInt8
  serialized : io.serialize (.newUnaryResponse response.streamId response.status)
    RpcHeader.maxSerializedSize = .ok header
  deriving DecidableEq

/-- Where a thread in `handleRequest` stands. -/
inductive Dispatch where
  /-- After `reconnected`. -/
  | received (connectionId : ConnectionId) (data : List UInt8)
  /-- After the request was entered into the pending calls. -/
  | accepted (request : RpcRequest) (payload : List UInt8)
  /-- In `sendFailureResponse`, before `prepForResponse`. -/
  | rejecting (connectionId : ConnectionId) (streamId : RpcStreamId) (status : RpcStatus)
      (msg : List UInt8)
  deriving DecidableEq, Repr

/-- The handle of the request a thread in `handleRequest` has accepted. -/
def Dispatch.handle : Dispatch → Option RequestHandle
  | .accepted request _ => some request.handle
  | .received _ _ | .rejecting _ _ _ _ => none

/-- `deadline_thread_`. It is joinable unless it was not started or has been joined. -/
inductive DeadlineThread where
  | notStarted
  | looping
  | sending (response : Response)
  | exited
  deriving DecidableEq, Repr

/-- The response the timer is about to send. -/
def DeadlineThread.response : DeadlineThread → List Response
  | .sending response => [response]
  | .notStarted | .looping | .exited => []

/-- `server.h:98–170`. -/
structure RpcServer (io : RooIo) where
  handlers : List RpcFunctionId
  connectionId : ConnectionId
  active : Bool
  pendingCalls : AList fun _ : RpcStreamId ↦ RpcRequest
  deadlineThread : DeadlineThread
  /-- `end` waits for the timer thread. -/
  ending : Bool
  dispatchers : List Dispatch
  invocations : List Invocation
  outbox : List Response
  sent : List (Message io)
  /-- All requests ever entered into the pending calls. -/
  accepted : List RpcRequest

namespace RpcServer

variable {io : RooIo}

/-- `server.cpp:7–11`. -/
def new (handlers : List RpcFunctionId) : RpcServer io where
  handlers
  connectionId := 0
  active := false
  pendingCalls := ∅
  deadlineThread := .notStarted
  ending := false
  dispatchers := []
  invocations := []
  outbox := []
  sent := []
  accepted := []

/-- `server.cpp:13–17`. -/
def begin (s : RpcServer io) : RpcServer io := { s with active := true }

/-- `server.cpp:21–26`. -/
def endLock (s : RpcServer io) : RpcServer io :=
  { s with active := false, pendingCalls := ∅, ending := true }

/-- `server.cpp:27`. -/
def endJoin (s : RpcServer io) : RpcServer io :=
  if s.ending then
    match s.deadlineThread with
    | .notStarted => { s with ending := false }
    | .exited => { s with deadlineThread := .notStarted, ending := false }
    | .looping | .sending _ => s
  else s

/-- `server.cpp:98–106`. -/
def reconnected (s : RpcServer io) (connectionId : ConnectionId) : RpcServer io :=
  if connectionId = s.connectionId then s else { s with connectionId, pendingCalls := ∅ }

/-- `server.cpp:108–114`. -/
def connectionReset (s : RpcServer io) (connectionId : ConnectionId) : RpcServer io :=
  if connectionId ≠ s.connectionId then s else { s with pendingCalls := ∅, connectionId := 0 }

/-! ### Requests -/

/-- `server.cpp:49–52`. -/
def deadlineOf (header : RpcHeader) (now : Uptime) : Except Check Uptime :=
  if header.hasTimeout then header.getTimeoutMs.map fun timeoutMs ↦ now + 1000 * timeoutMs.toNat
  else .ok .max

/-- `server.cpp:54–73`: what becomes of a new request, and of the thread that received it. -/
def insertRequest (s : RpcServer io) (connectionId : ConnectionId) (header : RpcHeader)
    (functionId : RpcFunctionId) (deadline : Uptime) (payload : List UInt8) :
    RpcServer io × Option Dispatch :=
  if header.streamId ∈ s.pendingCalls then (s, none)
  else if s.active = false then (s, none)
  else
    let request : RpcRequest := {
      connectionId, functionId, deadline
      streamId := header.streamId
      clientClosed := header.lastMessage
      serverClosed := false
      serial := s.accepted.length }
    ({ s with
        pendingCalls := s.pendingCalls.insert header.streamId request
        deadlineThread := if header.hasTimeout ∧ s.deadlineThread = .notStarted then .looping
          else s.deadlineThread
        accepted := s.accepted ++ [request] },
      some (.accepted request payload))

/-- `server.cpp:33–73` and `94`. -/
def accept (s : RpcServer io) (connectionId : ConnectionId) (data : List UInt8) (now : Uptime) :
    Except Check (RpcServer io × Option Dispatch) :=
  match io.readHeader data with
  | none => .ok (s, none)
  | some (header, payload) =>
    if header.type ≠ .request then .ok (s, none)
    else if header.firstMessage then
      header.getFunctionId.bind fun functionId ↦ (deadlineOf header now).map fun deadline ↦
        s.insertRequest connectionId header functionId deadline payload
    else .error .streamingRpc

/-- `server.cpp:75–92`, up to `prepForResponse`. -/
def invokeHandler (s : RpcServer io) (request : RpcRequest) (payload : List UInt8) (now : Uptime) :
    RpcServer io × Option Dispatch :=
  if request.deadline ≤ now then
    (s, some (.rejecting request.connectionId request.streamId .deadlineExceeded
      (ascii "deadline exceeded")))
  else if request.functionId ∉ s.handlers then
    (s, some (.rejecting request.connectionId request.streamId .unimplemented
      (ascii "Unknown function ID")))
  else
    ({ s with invocations := s.invocations ++
        [⟨request.handle, request.functionId, payload, request.clientClosed⟩] }, none)

/-! ### Responses -/

/-- `server.cpp:146–162`: the status to send and the request, unless nothing is to be sent. -/
def prepForResponse (s : RpcServer io) (connectionId : ConnectionId) (streamId : RpcStreamId)
    (status : RpcStatus) (now : Uptime) : Option (RpcServer io × RpcStatus × RpcRequest) :=
  if connectionId ≠ s.connectionId then none
  else
    match s.pendingCalls.lookup streamId with
    | none => none
    | some request =>
      if request.connectionId ≠ connectionId then none
      else some ({ s with pendingCalls := s.pendingCalls.erase streamId },
        if request.deadline ≤ now then .deadlineExceeded else status, request)

/-- `server.cpp:116–126`, up to `sendResponse`. -/
def sendSuccessResponse (s : RpcServer io) (connectionId : ConnectionId) (streamId : RpcStreamId)
    (data : List UInt8) (now : Uptime) : RpcServer io :=
  match s.prepForResponse connectionId streamId .ok now with
  | none => s
  | some (s, status, request) =>
    let data := if status = .deadlineExceeded then [] else data
    { s with outbox := s.outbox ++ [⟨connectionId, streamId, status, data, request, now⟩] }

/-- `server.cpp:128–135`, up to `sendResponse`. -/
def sendFailureResponse (s : RpcServer io) (connectionId : ConnectionId) (streamId : RpcStreamId)
    (status : RpcStatus) (msg : List UInt8) (now : Uptime) : RpcServer io :=
  match s.prepForResponse connectionId streamId status now with
  | none => s
  | some (s, status, request) =>
    let msg := if status = .deadlineExceeded then ascii "deadline exceeded" else msg
    { s with outbox := s.outbox ++ [⟨connectionId, streamId, status, msg, request, now⟩] }

/-- `server.cpp:137–144`. -/
def sendResponse (s : RpcServer io) (response : Response) : Except Check (RpcServer io) :=
  match h : io.serialize (.newUnaryResponse response.streamId response.status)
      RpcHeader.maxSerializedSize with
  | .error e => .error e
  | .ok header => .ok { s with sent := s.sent ++ [⟨response, header, h⟩] }

/-- The thread that claimed a response sends it. -/
def transmit (s : RpcServer io) (j : Nat) : Except Check (RpcServer io) :=
  match s.outbox[j]? with
  | none => .ok s
  | some response => { s with outbox := s.outbox.eraseIdx j }.sendResponse response

/-! ### The timer -/

/-- `server.cpp:167–174`: the first of the pending calls with the least deadline. -/
def nextDeadline (s : RpcServer io) :
    List RpcStreamId → Option (RpcStreamId × RpcRequest) → Option (RpcStreamId × RpcRequest)
  | [], next => next
  | k :: rest, next =>
    match s.pendingCalls.lookup k with
    | none => s.nextDeadline rest next
    | some request =>
      if request.deadline < (next.map (·.2.deadline)).getD .max then
        s.nextDeadline rest (some (k, request))
      else s.nextDeadline rest next

/-- `server.cpp:166–187`: one round, or the sending at its end. -/
def deadlineLoop (s : RpcServer io) (now : Uptime) (order : List RpcStreamId) :
    Except Check (RpcServer io) :=
  match s.deadlineThread with
  | .notStarted | .exited => .ok s
  | .sending response => { s with deadlineThread := .looping }.sendResponse response
  | .looping =>
    if s.active = false then .ok { s with deadlineThread := .exited }
    else
      match s.nextDeadline order none with
      | none => .ok s
      | some (k, request) =>
        if now < request.deadline then .ok s
        else .ok { s with
          pendingCalls := s.pendingCalls.erase k
          deadlineThread := .sending ⟨request.connectionId, request.streamId, .deadlineExceeded, [],
            request, now⟩ }

/-! ### Steps -/

/-- The steps of the threads. A call that takes a lock twice is one step for each part. -/
inductive Act where
  | begin
  | endLock
  | endJoin
  | handleRequest (connectionId : ConnectionId) (data : List UInt8)
  | dispatch (j : Nat) (now : Uptime)
  | connectionReset (connectionId : ConnectionId)
  | sendSuccessResponse (k : Nat) (data : List UInt8) (now : Uptime)
  | sendFailureResponse (k : Nat) (status : RpcStatus) (msg : List UInt8) (now : Uptime)
  | transmit (j : Nat)
  | deadlineLoop (now : Uptime) (order : List RpcStreamId)
  deriving DecidableEq, Repr

/-- The thread goes on with `next`, or returns from `handleRequest`. -/
def proceed (s : RpcServer io) (j : Nat) (next : Option Dispatch) : RpcServer io :=
  { s with dispatchers :=
      match next with
      | none => s.dispatchers.eraseIdx j
      | some d => s.dispatchers.set j d }

/-- The next section of a thread in `handleRequest`. -/
def dispatch (s : RpcServer io) (j : Nat) (now : Uptime) : Dispatch → Except Check (RpcServer io)
  | .received connectionId data =>
    (s.accept connectionId data now).map fun (s, next) ↦ s.proceed j next
  | .accepted request payload =>
    let (s, next) := s.invokeHandler request payload now
    .ok (s.proceed j next)
  | .rejecting connectionId streamId status msg =>
    .ok ((s.sendFailureResponse connectionId streamId status msg now).proceed j none)

/-- The server after a step. -/
def step (s : RpcServer io) : Act → Except Check (RpcServer io)
  | .begin => .ok s.begin
  | .endLock => .ok s.endLock
  | .endJoin => .ok s.endJoin
  | .handleRequest connectionId data =>
    .ok { s.reconnected connectionId with
      dispatchers := s.dispatchers ++ [.received connectionId data] }
  | .dispatch j now =>
    match s.dispatchers[j]? with
    | none => .ok s
    | some d => s.dispatch j now d
  | .connectionReset connectionId => .ok (s.connectionReset connectionId)
  | .sendSuccessResponse k data now =>
    match s.invocations[k]? with
    | none => .ok s
    | some i => .ok (s.sendSuccessResponse i.handle.connectionId i.handle.streamId data now)
  | .sendFailureResponse k status msg now =>
    match s.invocations[k]? with
    | none => .ok s
    | some i => .ok (s.sendFailureResponse i.handle.connectionId i.handle.streamId status msg now)
  | .transmit j => s.transmit j
  | .deadlineLoop now order =>
    if order.Perm s.pendingCalls.keys then s.deadlineLoop now order else .ok s

/-! ### What a step does -/

/-- All responses that were claimed so far. -/
def responses (s : RpcServer io) : List Response :=
  s.outbox ++ s.deadlineThread.response ++ s.sent.map (·.response)

/-- All handles that were created so far, and those that may yet be. -/
def handles (s : RpcServer io) : List RequestHandle :=
  s.invocations.map (·.handle) ++ s.dispatchers.filterMap Dispatch.handle

/-- The connection and the stream of the request that a step enters into the pending calls. -/
def incoming (s : RpcServer io) : Act → Option (ConnectionId × RpcStreamId)
  | .dispatch j _ =>
    match s.dispatchers[j]? with
    | some (.received connectionId data) =>
      match io.readHeader data with
      | none => none
      | some (header, _) =>
        if header.type = .request ∧ header.firstMessage = true ∧
            header.streamId ∉ s.pendingCalls ∧ s.active = true then
          some (connectionId, header.streamId)
        else none
    | _ => none
  | _ => none

/-- What happens to a server. -/
inductive Step (incoming : Option (ConnectionId × RpcStreamId)) (s s' : RpcServer io) : Prop
  | quiet : s'.accepted = s.accepted →
      s'.pendingCalls = s.pendingCalls ∨ s'.pendingCalls = ∅ → s'.responses.Perm s.responses →
      s'.handles ⊆ s.handles → Step incoming s s'
  | accept (request : RpcRequest) : incoming = some (request.connectionId, request.streamId) →
      request.serial = s.accepted.length →
      (∃ it, request.streamId = (io.readBeU24 it).1) → request.streamId ∉ s.pendingCalls →
      s'.accepted = s.accepted ++ [request] →
      s'.pendingCalls = s.pendingCalls.insert request.streamId request →
      s'.responses.Perm s.responses → s'.handles ⊆ request.handle :: s.handles → Step incoming s s'
  | claim (k : RpcStreamId) (response : Response) :
      s.pendingCalls.lookup k = some response.request →
      response.connectionId = response.request.connectionId →
      response.streamId = k ∨ response.streamId = response.request.streamId →
      (response.status ≠ .deadlineExceeded → response.claimedAt < response.request.deadline) →
      s'.accepted = s.accepted → s'.pendingCalls = s.pendingCalls.erase k →
      s'.responses.Perm (response :: s.responses) → s'.handles ⊆ s.handles → Step incoming s s'

variable {s s' t : RpcServer io} {pair : Option (ConnectionId × RpcStreamId)}

private theorem Step.narrow (h : Step pair s s') (hacc : t.accepted = s'.accepted)
    (hpend : t.pendingCalls = s'.pendingCalls) (hresp : t.responses = s'.responses)
    (hhandles : t.handles ⊆ s'.handles) : Step pair s t := by
  cases h with
  | quiet ha hp hr hh =>
    exact .quiet (hacc.trans ha) (by rwa [hpend]) (by rwa [hresp]) (List.Subset.trans hhandles hh)
  | accept request hin hserial hid hfree ha hp hr hh =>
    exact .accept request hin hserial hid hfree (hacc.trans ha) (hpend.trans hp) (by rwa [hresp])
      (List.Subset.trans hhandles hh)
  | claim k response hl hconn hsid hstatus ha hp hr hh =>
    exact .claim k response hl hconn hsid hstatus (hacc.trans ha) (hpend.trans hp) (by rwa [hresp])
      (List.Subset.trans hhandles hh)

private theorem Step.refl (s : RpcServer io) : Step pair s s :=
  .quiet rfl (.inl rfl) (.refl _) (List.Subset.refl _)

private theorem handles_proceed (s : RpcServer io) (j : Nat) (next : Option Dispatch) :
    (s.proceed j next).handles ⊆ (next.bind Dispatch.handle).toList ++ s.handles := by
  intro handle hmem
  obtain hinv | hdis := List.mem_append.mp hmem
  · exact List.mem_append_right _ (List.mem_append_left _ hinv)
  obtain ⟨d, hd, hhandle⟩ := List.mem_filterMap.mp hdis
  have hold (hd : d ∈ s.dispatchers) : handle ∈ (next.bind Dispatch.handle).toList ++ s.handles :=
    List.mem_append_right _ (List.mem_append_right _ (List.mem_filterMap.mpr ⟨d, hd, hhandle⟩))
  cases next with
  | none => exact hold (List.mem_of_mem_eraseIdx hd)
  | some d' =>
    obtain hd | rfl := List.mem_or_eq_of_mem_set hd
    · exact hold hd
    · rw [Option.bind_some, hhandle]
      exact List.mem_append_left _ (List.mem_singleton_self handle)

private theorem proceed_step (h : Step pair s t) (j : Nat) {next : Option Dispatch}
    (hnext : (next.bind Dispatch.handle) = none) : Step pair s (t.proceed j next) := by
  refine h.narrow rfl rfl rfl ?_
  have hsub := handles_proceed t j next
  rw [hnext] at hsub
  exact hsub

/-- Spec of `prepForResponse`: what is claimed is pending on the connection. -/
theorem prepForResponse_eq_some {connectionId : ConnectionId} {streamId : RpcStreamId}
    {status status' : RpcStatus} {now : Uptime} {request : RpcRequest}
    (h : s.prepForResponse connectionId streamId status now = some (t, status', request)) :
    s.pendingCalls.lookup streamId = some request ∧ connectionId = request.connectionId ∧
      t = { s with pendingCalls := s.pendingCalls.erase streamId } ∧
      (status' ≠ .deadlineExceeded → now < request.deadline) := by
  unfold prepForResponse at h
  split at h
  · cases h
  split at h
  · cases h
  next hl =>
  split at h
  · cases h
  next hconn =>
  simp only [Option.some.injEq, Prod.mk.injEq] at h
  obtain ⟨rfl, hlate, rfl⟩ := h
  refine ⟨hl, (not_not.mp hconn).symm, rfl, fun hstatus ↦ ?_⟩
  by_contra hdue
  exact hstatus (hlate.symm.trans (if_pos (not_lt.mp hdue)))

private theorem claim_step {connectionId : ConnectionId} {streamId : RpcStreamId}
    {status status' : RpcStatus} {now : Uptime} {request : RpcRequest} (data : List UInt8)
    (h : s.prepForResponse connectionId streamId status now = some (t, status', request)) :
    Step pair s { t with
      outbox := t.outbox ++ [⟨connectionId, streamId, status', data, request, now⟩] } := by
  obtain ⟨hl, hconn, rfl, htime⟩ := prepForResponse_eq_some h
  refine .claim streamId ⟨connectionId, streamId, status', data, request, now⟩ hl hconn
    (.inl rfl) htime rfl rfl ?_ (List.Subset.refl _)
  rw [responses, responses, List.append_assoc, List.append_assoc, List.append_assoc]
  exact List.perm_middle

private theorem sendSuccessResponse_step (s : RpcServer io) (connectionId : ConnectionId)
    (streamId : RpcStreamId) (data : List UInt8) (now : Uptime) :
    Step pair s (s.sendSuccessResponse connectionId streamId data now) := by
  unfold RpcServer.sendSuccessResponse
  split
  · exact .refl s
  · next hprep => exact claim_step _ hprep

private theorem sendFailureResponse_step (s : RpcServer io) (connectionId : ConnectionId)
    (streamId : RpcStreamId) (status : RpcStatus) (msg : List UInt8) (now : Uptime) :
    Step pair s (s.sendFailureResponse connectionId streamId status msg now) := by
  unfold RpcServer.sendFailureResponse
  split
  · exact .refl s
  · next hprep => exact claim_step _ hprep

private theorem insertRequest_step (s : RpcServer io) (connectionId : ConnectionId)
    (header : RpcHeader) (functionId : RpcFunctionId) (deadline : Uptime) (payload : List UInt8)
    (j : Nat) (hid : ∃ it, header.streamId = (io.readBeU24 it).1)
    (hin : header.streamId ∉ s.pendingCalls → s.active = true →
      pair = some (connectionId, header.streamId)) :
    Step pair s ((s.insertRequest connectionId header functionId deadline payload).1.proceed j
      (s.insertRequest connectionId header functionId deadline payload).2) := by
  unfold insertRequest
  split
  · exact proceed_step (.refl s) j rfl
  next hfree =>
  split
  · exact proceed_step (.refl s) j rfl
  · next hactive =>
    refine .accept ⟨connectionId, functionId, header.streamId, deadline, header.lastMessage, false,
      s.accepted.length⟩ (hin hfree (by simpa using hactive)) rfl hid hfree rfl rfl ?_
      (handles_proceed _ j _)
    have hthread : (if header.hasTimeout ∧ s.deadlineThread = .notStarted then .looping
        else s.deadlineThread : DeadlineThread).response = s.deadlineThread.response := by
      split
      · next hstart => rw [hstart.2]; rfl
      · rfl
    rw [proceed, responses, responses]
    dsimp only
    rw [hthread]

private theorem accept_step {connectionId : ConnectionId} {data : List UInt8} {now : Uptime}
    {j : Nat} (hj : s.dispatchers[j]? = some (.received connectionId data))
    (h : (s.accept connectionId data now).map (fun (s, next) ↦ s.proceed j next) = .ok s') :
    Step (s.incoming (.dispatch j now)) s s' := by
  obtain ⟨⟨t, next⟩, ha, rfl⟩ := map_eq_ok.mp h
  unfold accept at ha
  split at ha
  · cases ha
    exact proceed_step (.refl s) j rfl
  next header payload hheader =>
  split at ha
  · cases ha
    exact proceed_step (.refl s) j rfl
  next htype =>
  split at ha
  · next hfirst =>
    obtain ⟨functionId, -, hd⟩ := bind_eq_ok.mp ha
    obtain ⟨deadline, -, hinsert⟩ := map_eq_ok.mp hd
    have hin (hfree : header.streamId ∉ s.pendingCalls) (hactive : s.active = true) :
        s.incoming (.dispatch j now) = some (connectionId, header.streamId) := by
      simp [incoming, hj, hheader, not_not.mp htype, hfirst, hfree, hactive]
    have hstep := insertRequest_step s connectionId header functionId deadline payload j
      (RooIo.streamId_of_readHeader hheader) hin
    rw [hinsert] at hstep
    exact hstep
  · cases ha

private theorem invokeHandler_step {request : RpcRequest} {payload : List UInt8} (now : Uptime)
    {j : Nat} (hj : s.dispatchers[j]? = some (.accepted request payload)) :
    Step pair s ((s.invokeHandler request payload now).1.proceed j
      (s.invokeHandler request payload now).2) := by
  unfold invokeHandler
  split
  · exact proceed_step (.refl s) j rfl
  split
  · exact proceed_step (.refl s) j rfl
  · have hmem : request.handle ∈ s.dispatchers.filterMap Dispatch.handle :=
      List.mem_filterMap.mpr ⟨_, List.mem_of_getElem? hj, rfl⟩
    apply proceed_step _ j rfl
    refine .quiet ?_ (.inl ?_) ?_ fun handle ↦ ?_
    · rfl
    · rfl
    · exact .refl _
    · simp only [handles, List.map_append, List.map_cons, List.map_nil, List.mem_append,
        List.mem_singleton]
      rintro ((hold | rfl) | hold)
      · exact .inl hold
      · exact .inr hmem
      · exact .inr hold

private theorem sendResponse_eq_ok {response : Response} (h : s.sendResponse response = .ok s') :
    ∃ header hs, s' = { s with sent := s.sent ++ [⟨response, header, hs⟩] } := by
  unfold sendResponse at h
  split at h
  · cases h
  · next header hs =>
    cases h
    exact ⟨header, hs, rfl⟩

private theorem transmit_step {j : Nat} (h : s.transmit j = .ok s') : Step pair s s' := by
  unfold RpcServer.transmit at h
  split at h
  · cases h
    exact .refl s
  next response hj =>
  obtain ⟨header, hs, rfl⟩ := sendResponse_eq_ok h
  refine .quiet rfl (.inl rfl) ?_ (List.Subset.refl _)
  obtain ⟨hlt, hget⟩ := List.getElem?_eq_some_iff.mp hj
  have hout := List.getElem_cons_eraseIdx_perm hlt
  rw [hget] at hout
  rw [responses, responses, List.map_append, ← List.append_assoc]
  exact (List.perm_append_singleton ..).trans ((hout.append_right _).append_right _)

/-- The timer picks one of the pending calls. -/
theorem nextDeadline_pending {order : List RpcStreamId} {k : RpcStreamId}
    {request : RpcRequest} : ∀ {next : Option (RpcStreamId × RpcRequest)},
      (∀ e ∈ next, s.pendingCalls.lookup e.1 = some e.2) →
      s.nextDeadline order next = some (k, request) → s.pendingCalls.lookup k = some request := by
  induction order with
  | nil =>
    intro next hnext h
    exact hnext (k, request) h
  | cons k' rest ih =>
    intro next hnext h
    unfold nextDeadline at h
    split at h
    · exact ih hnext h
    next hl =>
    split at h
    · refine ih (fun e he ↦ ?_) h
      obtain rfl := Option.some.inj he
      exact hl
    · exact ih hnext h

private theorem deadlineLoop_step {now : Uptime} {order : List RpcStreamId}
    (h : s.deadlineLoop now order = .ok s') : Step pair s s' := by
  unfold RpcServer.deadlineLoop at h
  split at h
  · cases h
    exact .refl s
  · cases h
    exact .refl s
  · next response hthread =>
    obtain ⟨header, hs, rfl⟩ := sendResponse_eq_ok h
    refine .quiet rfl (.inl rfl) ?_ (List.Subset.refl _)
    rw [responses, responses, hthread]
    simp only [DeadlineThread.response, List.append_nil, List.map_append, List.map_cons,
      List.map_nil, List.append_assoc]
    exact (List.perm_append_singleton ..).append_left _
  · next hthread =>
    split at h
    · cases h
      refine .quiet rfl (.inl rfl) ?_ (List.Subset.refl _)
      rw [responses, responses, hthread]
      exact .refl _
    split at h
    · cases h
      exact .refl s
    next k request hnext =>
    split at h
    · cases h
      exact .refl s
    · cases h
      refine .claim k ⟨request.connectionId, request.streamId, .deadlineExceeded, [], request, now⟩
        (nextDeadline_pending (by simp) hnext) rfl (.inr rfl) (by simp) rfl rfl ?_
        (List.Subset.refl _)
      rw [responses, responses, hthread]
      simp only [DeadlineThread.response, List.append_nil, List.append_assoc]
      exact List.perm_middle

private theorem reset_step (s : RpcServer io) (connectionId : ConnectionId) :
    Step pair s (s.reconnected connectionId) ∧ Step pair s (s.connectionReset connectionId) := by
  have hclear (connectionId : ConnectionId) :
      Step pair s { s with connectionId, pendingCalls := ∅ } :=
    .quiet rfl (.inr rfl) (.refl _) (List.Subset.refl _)
  constructor
  · unfold RpcServer.reconnected
    split
    · exact .refl s
    · exact hclear connectionId
  · unfold RpcServer.connectionReset
    split
    · exact .refl s
    · exact hclear 0

private theorem endJoin_step (s : RpcServer io) : Step pair s s.endJoin := by
  unfold RpcServer.endJoin
  split
  · split
    · exact .quiet rfl (.inl rfl) (.refl _) (List.Subset.refl _)
    · next hthread =>
      refine .quiet rfl (.inl rfl) ?_ (List.Subset.refl _)
      rw [responses, responses, hthread]
      exact .refl _
    · exact .refl s
    · exact .refl s
  · exact .refl s

/-- Every step is one of these. -/
theorem step_cases {a : Act} (h : s.step a = .ok s') : Step (s.incoming a) s s' := by
  cases a with
  | begin =>
    cases h
    exact .quiet rfl (.inl rfl) (.refl _) (List.Subset.refl _)
  | endLock =>
    cases h
    exact .quiet rfl (.inr rfl) (.refl _) (List.Subset.refl _)
  | endJoin =>
    cases h
    exact endJoin_step s
  | handleRequest connectionId data =>
    cases h
    refine (reset_step s connectionId).1.narrow rfl rfl rfl ?_
    have hsame : (s.reconnected connectionId).dispatchers = s.dispatchers := by
      unfold RpcServer.reconnected
      split <;> rfl
    have hnone : [Dispatch.received connectionId data].filterMap Dispatch.handle = [] := rfl
    simp [handles, hsame, hnone]
  | dispatch j now =>
    rw [RpcServer.step] at h
    split at h
    · cases h
      exact .refl s
    next d hj =>
    cases d with
    | received connectionId data => exact accept_step hj h
    | accepted request payload =>
      cases h
      exact invokeHandler_step now hj
    | rejecting connectionId streamId status msg =>
      cases h
      exact proceed_step (sendFailureResponse_step s connectionId streamId status msg now) j rfl
  | connectionReset connectionId =>
    cases h
    exact (reset_step s connectionId).2
  | sendSuccessResponse k data now =>
    rw [RpcServer.step] at h
    split at h <;> cases h
    · exact .refl s
    · exact sendSuccessResponse_step ..
  | sendFailureResponse k status msg now =>
    rw [RpcServer.step] at h
    split at h <;> cases h
    · exact .refl s
    · exact sendFailureResponse_step ..
  | transmit j => exact transmit_step h
  | deadlineLoop now order =>
    rw [RpcServer.step] at h
    split at h
    · exact deadlineLoop_step h
    · cases h
      exact .refl s

end RpcServer

end RooTransport.Rpc
