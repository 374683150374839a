import RooTransport.Rpc.SerializationRoundTrip
import RooTransport.Rpc.Server

/-!
# Typed handlers

`UnaryHandler` and `AsyncUnaryHandler` of `rpc/server.h`: what they ask of the request handle.
An object that the source leaves to its default constructor has a field for its first value. The
status of the serialized response is not looked at (`server.h:50–52`, `86–88`).
-/

namespace RooTransport.Rpc

/-- A response asked of a `RequestHandle` (`request.h:71–77`). -/
inductive HandleCall where
  | sendSuccessResponse (data : List UInt8) (last : Bool)
  | sendFailureResponse (status : RpcStatus) (msg : List UInt8)
  deriving DecidableEq, Repr

/-- What both handlers do with the outcome of the application. -/
def respond {Resp : Type} (serializer : Serializer Resp) (status : RpcStatus) (resp : Resp) :
    HandleCall :=
  if status ≠ .ok then .sendFailureResponse status (ascii "application error")
  else .sendSuccessResponse (serializer.serialize resp).data true

/-- `server.h:27–57`. -/
structure UnaryHandler (Req Resp : Type) where
  requestDeserializer : Deserializer Req
  responseSerializer : Serializer Resp
  req : Req
  resp : Resp
  fn : Req → Resp → RpcStatus × Resp

/-- `server.h:35–53`. -/
def UnaryHandler.run {Req Resp : Type} (h : UnaryHandler Req Resp) (payload : List UInt8) :
    List HandleCall :=
  let (status, req) := h.requestDeserializer payload h.req
  if status ≠ .ok then [.sendFailureResponse status (ascii "request deserialization failed")]
  else
    let (status, resp) := h.fn req h.resp
    [respond h.responseSerializer status resp]

/-- `server.h:64–95`. -/
structure AsyncUnaryHandler (Req Resp : Type) where
  requestDeserializer : Deserializer Req
  responseSerializer : Serializer Resp
  req : Req

namespace AsyncUnaryHandler

variable {Req Resp : Type}

/-- `server.h:72–80`, and what `fn_` is called with. -/
def invoke (h : AsyncUnaryHandler Req Resp) (payload : List UInt8) :
    List HandleCall × Option Req :=
  let (status, req) := h.requestDeserializer payload h.req
  if status ≠ .ok then
    ([.sendFailureResponse status (ascii "request deserialization failed")], none)
  else ([], some req)

/-- `server.h:80–89`, the application completes the request. -/
def complete (h : AsyncUnaryHandler Req Resp) (status : RpcStatus) (resp : Resp) :
    List HandleCall :=
  [respond h.responseSerializer status resp]

/-- All that is asked of one handle, where the application completes each request once. -/
def run (h : AsyncUnaryHandler Req Resp) (outcome : Req → RpcStatus × Resp)
    (payload : List UInt8) : List HandleCall :=
  match h.invoke payload with
  | (calls, none) => calls
  | (calls, some req) => calls ++ h.complete (outcome req).1 (outcome req).2

end AsyncUnaryHandler

/-! ### What is reported -/

/-- One response: the first failure of the three stages, or the serialized bytes. -/
def Reported (calls : List HandleCall) (request application : RpcStatus) (response : Serialized) :
    Prop :=
  match [request, application, response.status].find? (· ≠ .ok) with
  | none => calls = [.sendSuccessResponse response.data true]
  | some status => ∃ msg, calls = [.sendFailureResponse status msg]

private theorem reported_deserialization {request : RpcStatus} (h : request ≠ .ok)
    (application : RpcStatus) (response : Serialized) (msg : List UInt8) :
    Reported [.sendFailureResponse request msg] request application response := by
  simp [Reported, h]

private theorem reported_respond_iff {Resp : Type} (serializer : Serializer Resp)
    (application : RpcStatus) (resp : Resp) :
    Reported [respond serializer application resp] .ok application (serializer.serialize resp) ↔
      (application = .ok → (serializer.serialize resp).status = .ok) := by
  by_cases happ : application = .ok
  · by_cases hser : (serializer.serialize resp).status = .ok
    · simp [Reported, respond, happ, hser]
    · simp [Reported, respond, happ, hser]
  · simp [Reported, respond, happ]

/-- Every failure is reported exactly if the responses of the application can be serialized: a
response that cannot is reported as a success. -/
theorem handler_failures_reported_iff {Req Resp : Type} (h : UnaryHandler Req Resp)
    (h' : AsyncUnaryHandler Req Resp) (outcome : Req → RpcStatus × Resp) (payload : List UInt8) :
    (let (request, req) := h.requestDeserializer payload h.req
      let (application, resp) := h.fn req h.resp
      Reported (h.run payload) request application (h.responseSerializer.serialize resp) ↔
        (request = .ok → application = .ok →
          (h.responseSerializer.serialize resp).status = .ok)) ∧
    (let (request, req) := h'.requestDeserializer payload h'.req
      let (application, resp) := outcome req
      Reported (h'.run outcome payload) request application (h'.responseSerializer.serialize resp) ↔
        (request = .ok → application = .ok →
          (h'.responseSerializer.serialize resp).status = .ok)) := by
  constructor
  · rcases hreq : h.requestDeserializer payload h.req with ⟨request, req⟩
    rcases happ : h.fn req h.resp with ⟨application, resp⟩
    by_cases hok : request = .ok
    · subst hok
      simpa [UnaryHandler.run, hreq, happ] using
        reported_respond_iff h.responseSerializer application resp
    · simpa [UnaryHandler.run, hreq, hok] using reported_deserialization hok _ _ _
  · rcases hreq : h'.requestDeserializer payload h'.req with ⟨request, req⟩
    rcases happ : outcome req with ⟨application, resp⟩
    by_cases hok : request = .ok
    · subst hok
      simpa [AsyncUnaryHandler.run, AsyncUnaryHandler.invoke, AsyncUnaryHandler.complete, hreq,
        happ] using reported_respond_iff h'.responseSerializer application resp
    · simpa [AsyncUnaryHandler.run, AsyncUnaryHandler.invoke, hreq, hok] using
        reported_deserialization hok _ _ _

/-- A string too long to be a member. -/
theorem handler_failure_unreported :
    let t : Ty Scalar := .pair (.leaf .stringView) (.leaf .void)
    let resp : t.Val scalars := (List.replicate 65536 (0 : UInt8), ())
    let h : UnaryHandler Unit (t.Val scalars) :=
      ⟨.void, t.serializer scalars, (), resp, fun _ resp ↦ (.ok, resp)⟩
    ((t.serializer scalars).serialize resp).status = .invalidArgument ∧
    h.run [] = [.sendSuccessResponse [] true] := by
  intro t resp h
  have hlong : ¬ t.AllMembers Ty.Fits resp := by
    rintro ⟨⟨hfits, -⟩, -⟩
    have hlen : (List.replicate 65536 (0 : UInt8)).length ≤ 65535 := hfits
    rw [List.length_replicate] at hlen
    omega
  have hser := (scalars_lawful.serialize_eq t resp).2 hlong
  constructor
  · rw [hser]
  · show [respond (t.serializer scalars) .ok resp] = _
    rw [respond, hser]
    rfl

end RooTransport.Rpc
