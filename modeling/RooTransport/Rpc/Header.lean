import Mathlib.Logic.Basic

/-!
# RPC headers

`rpc/rpc.h`, `rpc/status.h`, `rpc/internal/header.h` and `header.cpp`. The readers and
writers of `roo_io` are not part of this repository and are parameters. A failing
fixed-width read gives some value and leaves its mark on the iterator; `deserialize` goes on
with that value and looks at the mark at its end. The header it fills is the one it is
called on, so whatever it does not assign stays. The members of the union of `RpcHeader` are
fields of their own.
-/

namespace RooTransport.Rpc

/-- `rpc.h:10`. -/
abbrev RpcFunctionId := UInt32

/-- `rpc.h:11`. -/
abbrev RpcStreamId := UInt32

/-- `status.h:8–128`. A received status is a byte cast to the enumeration, so any byte. -/
structure RpcStatus where
  code : UInt8
  deriving DecidableEq, Repr

namespace RpcStatus

/-- `kOk`. -/
def ok : RpcStatus := ⟨0⟩

/-- `kDeadlineExceeded`. -/
def deadlineExceeded : RpcStatus := ⟨4⟩

/-- `kUnimplemented`. -/
def unimplemented : RpcStatus := ⟨12⟩

/-- `kUnavailable`. -/
def unavailable : RpcStatus := ⟨14⟩

end RpcStatus

/-- The `CHECK`s and the `LOG(FATAL)` of the RPC layer; a failing one aborts the program. -/
inductive Check where
  /-- `header.cpp:11`, the function of a header that names none. -/
  | functionId
  /-- `header.cpp:16`, the timeout of a header that has none. -/
  | timeoutMs
  /-- `header.cpp:21`, the status of a header that has none. -/
  | responseStatus
  /-- `header.cpp:80`, a header longer than the buffer given for it. -/
  | headerBuffer
  /-- `client.cpp:23` and `45`, a header that serialized to nothing. -/
  | headerSize
  /-- `server.cpp:94`, a request message that does not start its stream. -/
  | streamingRpc
  deriving DecidableEq, Repr

/-- `header.h:16`. -/
inductive MessageType where
  | unset
  | request
  | response
  deriving DecidableEq, Repr

/-- `header.h:12–98`. -/
structure RpcHeader where
  type : MessageType
  firstMessage : Bool
  lastMessage : Bool
  hasTimeout : Bool
  streamId : RpcStreamId
  functionId : RpcFunctionId
  timeoutMs : UInt32
  status : RpcStatus
  deriving DecidableEq, Repr

namespace RpcHeader

/-- `header.h:19`. -/
def maxSerializedSize : Nat := 32

/-- `header.h:22–27`. What it leaves unassigned is read by no accessor before `deserialize`
has assigned it. -/
def unset : RpcHeader := ⟨.unset, false, false, false, 0, 0, 0, .ok⟩

/-- `header.cpp:10–13`. -/
def getFunctionId (h : RpcHeader) : Except Check RpcFunctionId :=
  if h.type = .request ∧ h.firstMessage = true then .ok h.functionId else .error .functionId

/-- `header.cpp:15–18`. -/
def getTimeoutMs (h : RpcHeader) : Except Check UInt32 :=
  if h.type = .request ∧ h.firstMessage = true ∧ h.hasTimeout = true then .ok h.timeoutMs
  else .error .timeoutMs

/-- `header.cpp:20–23`. -/
def getResponseStatus (h : RpcHeader) : Except Check RpcStatus :=
  if h.type = .response ∧ h.lastMessage = true then .ok h.status else .error .responseStatus

/-- `header.cpp:25–36`. -/
def newUnaryRequest (functionId : RpcFunctionId) (streamId : RpcStreamId) : RpcHeader :=
  ⟨.request, true, true, false, streamId, functionId, 0, .ok⟩

/-- `header.cpp:38–50`. -/
def newUnaryRequestWithTimeout (functionId : RpcFunctionId) (streamId : RpcStreamId)
    (timeoutMs : UInt32) : RpcHeader :=
  ⟨.request, true, true, true, streamId, functionId, timeoutMs, .ok⟩

/-- `header.cpp:52–61`. -/
def newUnaryResponse (streamId : RpcStreamId) (status : RpcStatus) : RpcHeader :=
  ⟨.response, true, true, false, streamId, 0, 0, status⟩

/-- `header.cpp:65–69`. -/
def mask (h : RpcHeader) : UInt8 :=
  (if h.type = .request then 0x01 else 0) ||| (if h.firstMessage then 0x02 else 0) |||
    (if h.lastMessage then 0x04 else 0) ||| (if h.hasTimeout then 0x08 else 0)

/-! ### The flags -/

private theorem flag_bits : ∀ request first last timeout : Bool,
    let mask : UInt8 := (if request then 0x01 else 0) ||| (if first then 0x02 else 0) |||
      (if last then 0x04 else 0) ||| (if timeout then 0x08 else 0)
    mask &&& 0xF0 = 0 ∧ decide (mask &&& 0x01 ≠ 0) = request ∧ decide (mask &&& 0x02 ≠ 0) = first ∧
      decide (mask &&& 0x04 ≠ 0) = last ∧ decide (mask &&& 0x08 ≠ 0) = timeout := by
  decide

/-- The flags are read back from the first byte. -/
theorem mask_flags (h : RpcHeader) (ht : h.type ≠ .unset) :
    h.mask &&& 0xF0 = 0 ∧
      (if h.mask &&& 0x01 ≠ 0 then MessageType.request else .response) = h.type ∧
      decide (h.mask &&& 0x02 ≠ 0) = h.firstMessage ∧
      decide (h.mask &&& 0x04 ≠ 0) = h.lastMessage ∧
      decide (h.mask &&& 0x08 ≠ 0) = h.hasTimeout := by
  obtain ⟨hhigh, hreq, hflags⟩ :=
    flag_bits (h.type = .request) h.firstMessage h.lastMessage h.hasTimeout
  simp only [decide_eq_true_eq] at hhigh hreq hflags
  refine ⟨hhigh, ?_, hflags⟩
  have hiff : h.mask &&& 0x01 ≠ 0 ↔ h.type = .request := decide_eq_decide.mp hreq
  rw [if_congr hiff rfl rfl]
  cases htype : h.type with
  | unset => exact absurd htype ht
  | request => rfl
  | response => rfl

end RpcHeader

/-! ### Reading and writing -/

/-- `roo_io::MemoryIterator`: what is left to read, and whether `status()` is not `kOk`. -/
structure MemoryIterator where
  rest : List UInt8
  failed : Bool
  deriving DecidableEq, Repr

/-- What headers use of `roo_io`. `ReadVarU32` gives no value where it returns `false`. -/
structure RooIo where
  readU8 : MemoryIterator → UInt8 × MemoryIterator
  readBeU24 : MemoryIterator → UInt32 × MemoryIterator
  readVarU32 : MemoryIterator → Option UInt32 × MemoryIterator
  writeBeU24 : UInt32 → List UInt8
  writeVarU64 : UInt64 → List UInt8

namespace RooIo

/-- `header.cpp:72–79`. -/
def fieldBytes (io : RooIo) (h : RpcHeader) : List UInt8 :=
  if h.type = .request ∧ h.firstMessage = true then
    io.writeVarU64 h.functionId.toUInt64 ++
      if h.hasTimeout then io.writeVarU64 h.timeoutMs.toUInt64 else []
  else if h.type = .response ∧ h.lastMessage = true then [h.status.code]
  else []

/-- `header.cpp:63–82`. -/
def serialize (io : RooIo) (h : RpcHeader) (bufferSize : Nat) : Except Check (List UInt8) :=
  let bytes := h.mask :: (io.writeBeU24 h.streamId ++ io.fieldBytes h)
  if bufferSize < bytes.length then .error .headerBuffer else .ok bytes

/-- `header.cpp:95–105`; no iterator where the source returns at once. -/
def readFields (io : RooIo) (h : RpcHeader) (it : MemoryIterator) :
    RpcHeader × Option MemoryIterator :=
  if h.type = .request ∧ h.firstMessage = true then
    match io.readVarU32 it with
    | (none, _) => (h, none)
    | (some functionId, it) =>
      if h.hasTimeout then
        match io.readVarU32 it with
        | (none, _) => ({ h with functionId }, none)
        | (some timeoutMs, it) => ({ h with functionId, timeoutMs }, some it)
      else ({ h with functionId, timeoutMs := 0 }, some it)
  else if h.type = .response ∧ h.lastMessage = true then
    match io.readU8 it with
    | (code, it) => ({ h with status := ⟨code⟩ }, some it)
  else (h, some it)

/-- `header.cpp:106–109`: the number of bytes consumed, zero for an invalid header. -/
def consumed (buffer : List UInt8) : RpcHeader × Option MemoryIterator → RpcHeader × Nat
  | (h, none) => (h, 0)
  | (h, some it) => if it.failed then (h, 0) else (h, buffer.length - it.rest.length)

/-- `header.cpp:84–110`, called on the header `h`. -/
def deserialize (io : RooIo) (h : RpcHeader) (buffer : List UInt8) : RpcHeader × Nat :=
  match io.readU8 ⟨buffer, false⟩ with
  | (mask, it) =>
    if mask &&& 0xF0 ≠ 0 then (h, 0)
    else
      match io.readBeU24 it with
      | (streamId, it) => consumed buffer (io.readFields { h with
          type := if mask &&& 0x01 ≠ 0 then .request else .response
          firstMessage := mask &&& 0x02 ≠ 0
          lastMessage := mask &&& 0x04 ≠ 0
          hasTimeout := mask &&& 0x08 ≠ 0
          streamId := streamId } it)

/-- `client.cpp:87–94` and `server.cpp:33–40`: the header and the rest of a received message,
or nothing if the header is invalid. -/
def readHeader (io : RooIo) (data : List UInt8) : Option (RpcHeader × List UInt8) :=
  let (header, len) := io.deserialize .unset data
  if len = 0 then none else some (header, data.drop len)

end RooIo

end RooTransport.Rpc
