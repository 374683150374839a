import Mathlib.Data.List.AList
import RooTransport.Base.Run
import RooTransport.Rpc.HeaderCodec

/-!
# The RPC client

`rpc/client.h` and `client.cpp`. A step is what one thread does while it holds the
registry's `mutex_` or the mutex of one call. Calls are numbered in the order in which
`new_stream` sees them. A thread in `handleResponse` or `connectionReset` takes calls out of
the registry and then completes them one after the other; here a call keeps the completions
that such threads still owe it, and they may be run in any order. A moved-from callback is
taken to be empty, as `complete` does. The messaging below decides when a `send` returns
and what. Registering with the messaging is left out.
-/

namespace RooTransport.Rpc

open RooTransport.Base

/-- The arguments of a completion callback. -/
structure Completion where
  data : List UInt8
  status : RpcStatus
  deriving DecidableEq, Repr

/-- Where the submission of a call stands. -/
inductive Submission where
  /-- In `messaging_.send`. -/
  | sending
  /-- `send` failed, the registry is still to be told. -/
  | cancelling
  /-- `send` failed, the callback is still to be dropped. -/
  | clearing
  | returned (status : RpcStatus)
  deriving DecidableEq, Repr

/-- `client.h:94–98`, with the submission that made the call. -/
structure OutgoingCall where
  streamId : RpcStreamId
  header : List UInt8
  payload : List UInt8
  submission : Submission
  /-- Neither completed nor cancelled, whether by a failed `send` or by a reset. -/
  outstanding : Bool
  /-- `cb` is not empty. -/
  cb : Bool
  /-- `complete` runs the callback, with the mutex of the call held. -/
  running : Bool
  /-- The completions of threads that have taken the call out of the registry. -/
  claims : List Completion
  /-- What the callback was invoked with so far. -/
  invocations : List Completion
  deriving DecidableEq, Repr

/-- `client.h:19–127`. -/
structure RpcClient where
  nextStreamId : RpcStreamId
  outgoingCalls : AList fun _ : RpcStreamId ↦ Nat
  calls : Nat → OutgoingCall
  submitted : Nat

namespace RpcClient

/-- `client.cpp:7–8`. -/
def new : RpcClient where
  nextStreamId := 1
  outgoingCalls := ∅
  calls := fun _ ↦ ⟨0, [], [], .returned .ok, false, false, false, [], []⟩
  submitted := 0

/-- Call `i` is now `x`. -/
def setCall (c : RpcClient) (i : Nat) (x : OutgoingCall) : RpcClient :=
  { c with calls := Function.update c.calls i x }

/-- The call that was changed. -/
@[simp]
theorem calls_setCall_self (c : RpcClient) (i : Nat) (x : OutgoingCall) :
    (c.setCall i x).calls i = x :=
  Function.update_self ..

/-- The calls that were not changed. -/
theorem calls_setCall_of_ne (c : RpcClient) {i j : Nat} (h : j ≠ i) (x : OutgoingCall) :
    (c.setCall i x).calls j = c.calls j :=
  Function.update_of_ne h ..

/-! ### Submitting -/

/-- `client.cpp:55–63`. An existing entry is not replaced. -/
def newStream (c : RpcClient) (call : OutgoingCall) : RpcClient :=
  { c.setCall c.submitted call with
    submitted := c.submitted + 1
    nextStreamId := if 0x00FFFFFF < c.nextStreamId + 1 then 1 else c.nextStreamId + 1
    outgoingCalls := if c.nextStreamId ∈ c.outgoingCalls then c.outgoingCalls
      else c.outgoingCalls.insert c.nextStreamId c.submitted }

/-- `client.cpp:14–25` and `35–47`, up to `messaging_.send`. -/
def submit (io : RooIo) (c : RpcClient) (newHeader : RpcStreamId → RpcHeader)
    (payload : List UInt8) : Except Check RpcClient :=
  match io.serialize (newHeader c.nextStreamId) RpcHeader.maxSerializedSize with
  | .error e => .error e
  | .ok [] => .error .headerSize
  | .ok header => .ok (c.newStream {
      streamId := c.nextStreamId
      header, payload
      submission := .sending
      outstanding := true
      cb := true
      running := false
      claims := []
      invocations := [] })

/-- `client.cpp:14–31`. -/
def sendUnaryRpc (io : RooIo) (c : RpcClient) (functionId : RpcFunctionId)
    (payload : List UInt8) : Except Check RpcClient :=
  c.submit io (RpcHeader.newUnaryRequest functionId) payload

/-- `client.cpp:33–53`. -/
def sendUnaryRpcWithTimeout (io : RooIo) (c : RpcClient) (functionId : RpcFunctionId)
    (payload : List UInt8) (timeoutMs : UInt32) : Except Check RpcClient :=
  c.submit io (fun streamId ↦ .newUnaryRequestWithTimeout functionId streamId timeoutMs) payload

/-- `messaging_.send` returns. -/
def sendReturns (c : RpcClient) (i : Nat) (result : Bool) : RpcClient :=
  if (c.calls i).submission = .sending then
    c.setCall i { c.calls i with
      submission := if result then .returned .ok else .cancelling }
  else c

/-- `client.cpp:66–70`. -/
def cancelErase (c : RpcClient) (i : Nat) : RpcClient :=
  if (c.calls i).submission = .cancelling then
    { c.setCall i { c.calls i with submission := .clearing, outstanding := false } with
      outgoingCalls := c.outgoingCalls.erase (c.calls i).streamId }
  else c

/-- `client.cpp:71–74`, once no callback of the call is running. -/
def cancelClear (c : RpcClient) (i : Nat) : RpcClient :=
  if (c.calls i).submission = .clearing ∧ (c.calls i).running = false then
    c.setCall i { c.calls i with submission := .returned .unavailable, cb := false }
  else c

/-! ### Completing -/

/-- A thread takes a call out of the registry, to complete it. -/
def claim (c : RpcClient) (streamId : RpcStreamId) (i : Nat) (completion : Completion) :
    RpcClient :=
  { c.setCall i { c.calls i with
      outstanding := false
      claims := (c.calls i).claims ++ [completion] } with
    outgoingCalls := c.outgoingCalls.erase streamId }

/-- `client.cpp:85–119`, up to `complete`. -/
def handleResponse (io : RooIo) (c : RpcClient) (data : List UInt8) : Except Check RpcClient :=
  match io.readHeader data with
  | none => .ok c
  | some (header, payload) =>
    if header.type ≠ .response then .ok c
    else
      match c.outgoingCalls.lookup header.streamId with
      | none => .ok c
      | some i =>
        if header.lastMessage then
          header.getResponseStatus.map fun status ↦ c.claim header.streamId i ⟨payload, status⟩
        else .ok (c.claim header.streamId i ⟨payload, .ok⟩)

/-- The call is in the registry. -/
def Registered (c : RpcClient) (i : Nat) : Prop := ∃ e ∈ c.outgoingCalls.entries, e.2 = i

instance (c : RpcClient) (i : Nat) : Decidable (c.Registered i) :=
  inferInstanceAs (Decidable (∃ e ∈ c.outgoingCalls.entries, e.2 = i))

/-- `client.cpp:122–132`, up to the calls of `complete`. -/
def connectionReset (c : RpcClient) : RpcClient :=
  { c with
    outgoingCalls := ∅
    calls := fun i ↦ if c.Registered i then { c.calls i with
        outstanding := false
        claims := (c.calls i).claims ++ [⟨[], .unavailable⟩] }
      else c.calls i }

/-- `client.cpp:76–82`, taking the mutex of the call for the `k`-th completion it is owed. -/
def completeStart (c : RpcClient) (i k : Nat) : RpcClient :=
  if (c.calls i).running then c
  else
    match (c.calls i).claims[k]? with
    | none => c
    | some completion =>
      let claims := (c.calls i).claims.eraseIdx k
      if (c.calls i).cb then
        c.setCall i { c.calls i with
          claims
          cb := false
          running := true
          invocations := (c.calls i).invocations ++ [completion] }
      else c.setCall i { c.calls i with claims }

/-- The callback returns, and the mutex of the call is let go of. -/
def completeEnd (c : RpcClient) (i : Nat) : RpcClient :=
  c.setCall i { c.calls i with running := false }

/-! ### Steps -/

/-- The steps of the threads. A call that blocks or takes a lock twice is one step for each part. -/
inductive Act where
  | sendUnaryRpc (functionId : RpcFunctionId) (payload : List UInt8)
  | sendUnaryRpcWithTimeout (functionId : RpcFunctionId) (payload : List UInt8)
      (timeoutMs : UInt32)
  | sendReturns (i : Nat) (result : Bool)
  | cancelErase (i : Nat)
  | cancelClear (i : Nat)
  | handleResponse (data : List UInt8)
  | connectionReset
  | completeStart (i k : Nat)
  | completeEnd (i : Nat)
  deriving DecidableEq, Repr

/-- The client after a step. -/
def step (io : RooIo) (c : RpcClient) : Act → Except Check RpcClient
  | .sendUnaryRpc functionId payload => c.sendUnaryRpc io functionId payload
  | .sendUnaryRpcWithTimeout functionId payload timeoutMs =>
    c.sendUnaryRpcWithTimeout io functionId payload timeoutMs
  | .sendReturns i result => .ok (c.sendReturns i result)
  | .cancelErase i => .ok (c.cancelErase i)
  | .cancelClear i => .ok (c.cancelClear i)
  | .handleResponse data => c.handleResponse io data
  | .connectionReset => .ok c.connectionReset
  | .completeStart i k => .ok (c.completeStart i k)
  | .completeEnd i => .ok (c.completeEnd i)

/-! ### What a step does -/

/-- What happens to a call without the registry being touched. -/
inductive CallStep (x : OutgoingCall) : OutgoingCall → Prop
  | sent : x.submission = .sending → CallStep x { x with submission := .returned .ok }
  | failed : x.submission = .sending → CallStep x { x with submission := .cancelling }
  | clear : x.submission = .clearing → x.running = false →
      CallStep x { x with submission := .returned .unavailable, cb := false }
  | invoke (k : Nat) (completion : Completion) : x.running = false →
      x.claims[k]? = some completion → x.cb = true → CallStep x { x with
        claims := x.claims.eraseIdx k
        cb := false
        running := true
        invocations := x.invocations ++ [completion] }
  | skip (k : Nat) : x.running = false → x.cb = false →
      CallStep x { x with claims := x.claims.eraseIdx k }
  | finish : CallStep x { x with running := false }

/-- A call is submitted. -/
def Act.Submits : Act → Prop
  | .sendUnaryRpc _ _ | .sendUnaryRpcWithTimeout _ _ _ => True
  | _ => False

instance : (a : Act) → Decidable a.Submits
  | .sendUnaryRpc _ _ | .sendUnaryRpcWithTimeout _ _ _ => .isTrue trivial
  | .sendReturns _ _ | .cancelErase _ | .cancelClear _ | .handleResponse _ | .connectionReset
  | .completeStart _ _ | .completeEnd _ => .isFalse id

/-- What happens to a client. -/
inductive Step (io : RooIo) (submits : Prop) (c : RpcClient) : RpcClient → Prop
  | keep : Step io submits c c
  | submit (header : RpcHeader) (bytes payload : List UInt8) : submits →
      io.serialize header RpcHeader.maxSerializedSize = .ok bytes →
      (c.nextStreamId.toNat < 2 ^ 24 → header.Unary) → header.streamId = c.nextStreamId →
      Step io submits c
        (c.newStream ⟨c.nextStreamId, bytes, payload, .sending, true, true, false, [], []⟩)
  | call (i : Nat) (x : OutgoingCall) : CallStep (c.calls i) x → Step io submits c (c.setCall i x)
  | cancel (i : Nat) : (c.calls i).submission = .cancelling → Step io submits c (c.cancelErase i)
  | claim (streamId : RpcStreamId) (i : Nat) (completion : Completion) :
      c.outgoingCalls.lookup streamId = some i → Step io submits c (c.claim streamId i completion)
  | reset : Step io submits c c.connectionReset

variable {io : RooIo} {c c' : RpcClient} {submits : Prop}

private theorem submit_step {newHeader : RpcStreamId → RpcHeader} {payload : List UInt8}
    (hid : (newHeader c.nextStreamId).streamId = c.nextStreamId)
    (hunary : c.nextStreamId.toNat < 2 ^ 24 → (newHeader c.nextStreamId).Unary)
    (hsub : submits) (h : c.submit io newHeader payload = .ok c') : Step io submits c c' := by
  unfold RpcClient.submit at h
  split at h
  · cases h
  · cases h
  · next header hs =>
    cases h
    exact .submit _ _ payload hsub hs hunary hid

private theorem handleResponse_step {data : List UInt8} (h : c.handleResponse io data = .ok c') :
    Step io submits c c' := by
  unfold RpcClient.handleResponse at h
  split at h
  · cases h
    exact .keep
  split at h
  · cases h
    exact .keep
  split at h
  · cases h
    exact .keep
  next hl =>
  split at h
  · obtain ⟨status, -, rfl⟩ := map_eq_ok.mp h
    exact .claim _ _ _ hl
  · cases h
    exact .claim _ _ _ hl

private theorem completeStart_step (c : RpcClient) (i k : Nat) :
    Step io submits c (c.completeStart i k) := by
  unfold RpcClient.completeStart
  split
  · exact .keep
  next hrun =>
  rw [Bool.not_eq_true] at hrun
  split
  · exact .keep
  next completion hk =>
  dsimp only
  split
  · next hcb => exact .call i _ (.invoke k completion hrun hk hcb)
  · next hcb => exact .call i _ (.skip k hrun (by simpa using hcb))

/-- Every step is one of these. -/
theorem step_cases {a : Act} (h : c.step io a = .ok c') : Step io a.Submits c c' := by
  cases a with
  | sendUnaryRpc functionId payload =>
    rw [RpcClient.step, sendUnaryRpc] at h
    exact submit_step rfl (.request functionId _) trivial h
  | sendUnaryRpcWithTimeout functionId payload timeoutMs =>
    rw [RpcClient.step, sendUnaryRpcWithTimeout] at h
    exact submit_step rfl (.requestWithTimeout functionId _ timeoutMs) trivial h
  | sendReturns i result =>
    cases h
    unfold RpcClient.sendReturns
    split
    · next hs =>
      cases result with
      | true => exact .call i _ (.sent hs)
      | false => exact .call i _ (.failed hs)
    · exact .keep
  | cancelErase i =>
    cases h
    by_cases hs : (c.calls i).submission = .cancelling
    · exact .cancel i hs
    · rw [RpcClient.cancelErase, if_neg hs]
      exact .keep
  | cancelClear i =>
    cases h
    unfold RpcClient.cancelClear
    split
    · next hs => exact .call i _ (.clear hs.1 hs.2)
    · exact .keep
  | handleResponse data => exact handleResponse_step h
  | connectionReset =>
    cases h
    exact .reset
  | completeStart i k =>
    cases h
    exact completeStart_step c i k
  | completeEnd i =>
    cases h
    exact .call i _ .finish

end RpcClient

end RooTransport.Rpc
