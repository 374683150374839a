import Mathlib.Tactic.IntervalCases
import RooTransport.Base.Bytes
import RooTransport.Link.RingBuffer

/-!
# Packet headers and packet buffers

`link/internal/protocol.h`, `link/internal/retry_backoff.h`, `link/internal/in_buffer.h`,
`link/internal/out_buffer.h` and `out_buffer.cpp`. Packets are byte lists; a header is
the first two bytes, big-endian: the control bit, three type bits and twelve bits of the
sequence number.
-/

namespace RooTransport.Link

open RooTransport.Base

/-! ### Headers -/

/-- `protocol.h:103–109`. -/
inductive PacketType where
  | data
  | fin
  | dataAck
  | handshake
  | flowControl
  deriving DecidableEq, Repr

/-- The numeric values of the enumeration. -/
def PacketType.code : PacketType → BitVec 16
  | .data => 0
  | .fin => 1
  | .dataAck => 2
  | .handshake => 3
  | .flowControl => 4

/-- `protocol.h:111–113`. -/
def getPacketControlBit (header : BitVec 16) : Bool := header &&& 0x8000#16 != 0

/-- `protocol.h:115–117`; the values 5 to 7 name no packet type. -/
def getPacketType (header : BitVec 16) : Option PacketType :=
  match ((header &&& 0x7FFF#16) >>> 12).toNat with
  | 0 => some .data
  | 1 => some .fin
  | 2 => some .dataAck
  | 3 => some .handshake
  | 4 => some .flowControl
  | _ => none

/-- The sequence bits `header & 0x0FFF`, as `channel.cpp` extracts them. -/
def getPacketSeq (header : BitVec 16) : BitVec 16 := header &&& 0x0FFF#16

/-- `protocol.h:121–124`. -/
def formatPacketHeader (seq : SeqNum) (type : PacketType) (controlBit : Bool) : BitVec 16 :=
  (seq.raw &&& 0x0FFF#16) ||| (type.code <<< 12) ||| (if controlBit then 0x8000#16 else 0#16)

/-- `protocol.h:126–129`. -/
def setPacketHeaderTypeFin (header : BitVec 16) : BitVec 16 := header ||| 0x1000#16

/-- The type written into a header is read back from it. -/
@[simp] theorem getPacketType_format (seq : SeqNum) (type : PacketType) (controlBit : Bool) :
    getPacketType (formatPacketHeader seq type controlBit) = some type := by
  have h : (formatPacketHeader seq type controlBit &&& 0x7FFF#16) >>> 12 = type.code := by
    unfold formatPacketHeader
    cases type <;> cases controlBit <;>
    · ext i hi
      interval_cases i <;> simp [PacketType.code]
  unfold getPacketType
  rw [h]
  cases type <;> rfl

/-- The control bit written into a header is read back from it. -/
@[simp] theorem getPacketControlBit_format (seq : SeqNum) (type : PacketType) (controlBit : Bool) :
    getPacketControlBit (formatPacketHeader seq type controlBit) = controlBit := by
  have h : formatPacketHeader seq type controlBit &&& 0x8000#16 =
      if controlBit then 0x8000#16 else 0#16 := by
    unfold formatPacketHeader
    cases type <;> cases controlBit <;>
    · ext i hi
      interval_cases i <;> simp [PacketType.code]
  unfold getPacketControlBit
  rw [h]
  cases controlBit <;> rfl

/-- The header keeps the low twelve bits of the sequence number. -/
@[simp] theorem getPacketSeq_format (seq : SeqNum) (type : PacketType) (controlBit : Bool) :
    getPacketSeq (formatPacketHeader seq type controlBit) = seq.raw &&& 0x0FFF#16 := by
  unfold getPacketSeq formatPacketHeader
  cases type <;> cases controlBit <;>
  · ext i hi
    interval_cases i <;> simp [PacketType.code]

/-- Marking a data header final is formatting a final header in the first place. -/
@[simp] theorem setPacketHeaderTypeFin_format (seq : SeqNum) (controlBit : Bool) :
    setPacketHeaderTypeFin (formatPacketHeader seq .data controlBit) =
      formatPacketHeader seq .fin controlBit := by
  unfold setPacketHeaderTypeFin formatPacketHeader
  cases controlBit <;>
  · ext i hi
    interval_cases i <;> simp [PacketType.code]

/-- `roo_io::StoreBeU16`. -/
def storeBeU16 (x : BitVec 16) : List UInt8 := beBytes 2 x.toNat

/-- `roo_io::LoadBeU16`. -/
def loadBeU16 (bs : List UInt8) : BitVec 16 := BitVec.ofNat 16 (beNat (bs.take 2))

/-- Loading undoes storing. -/
@[simp] theorem loadBeU16_store (x : BitVec 16) (rest : List UInt8) :
    loadBeU16 (storeBeU16 x ++ rest) = x := by
  have ht : (storeBeU16 x ++ rest).take 2 = beBytes 2 x.toNat := by
    rw [storeBeU16, List.take_append_of_le_length (by simp), List.take_of_length_le (by simp)]
  rw [loadBeU16, ht, beNat_beBytes]
  apply BitVec.eq_of_toNat_eq
  have := x.isLt
  simp
  omega

/-- A stored word takes two bytes. -/
@[simp] theorem drop_storeBeU16 (x : BitVec 16) (rest : List UInt8) :
    (storeBeU16 x ++ rest).drop 2 = rest := by
  rw [storeBeU16, List.drop_append_of_le_length (by simp), List.drop_of_length_le (by simp),
    List.nil_append]

/-! ### Time and back-off -/

/-- `roo_time::Uptime` in microseconds; `Uptime::Start()` is zero. -/
abbrev Uptime := Nat

/-- `roo_time::Uptime::Max()`. -/
def uptimeMax : Uptime := 2 ^ 63 - 1

/-- The growth loop of `retry_backoff.h:27–31`, in 32-bit arithmetic. -/
def growDelay (maxDelayUs : Nat) : Nat → Nat → Nat
  | 0, delay => delay
  | retries + 1, delay =>
    if delay < maxDelayUs then
      let grown := (delay * 133 + 50) % 2 ^ 32 / 100
      growDelay maxDelayUs retries (if maxDelayUs < grown then maxDelayUs else grown)
    else delay

/-- `retry_backoff.h:22–37`. -/
def retryBackoffMicros (randomMax initialDelayUs maxDelayUs retryCount randomDraw : Nat) : Nat :=
  let delay := growDelay maxDelayUs retryCount initialDelayUs
  let bin := randomDraw * 8192 / (randomMax + 1) % 2 ^ 32
  let radius := delay / 5
  (delay - radius + bin * (2 * radius) % 2 ^ 32 / 2 ^ 13) % 2 ^ 32

/-- `RANDOM_INTEGER_MAX` of `out_buffer.cpp:13` and `channel.cpp:12`. -/
def randomIntegerMax : Nat := 2 ^ 32 - 1

/-! ### Incoming buffers -/

/-- `in_buffer.h:15`. -/
inductive InBufferType where
  | unset
  | data
  | fin
  deriving DecidableEq, Repr

/-- `in_buffer.h:12–44`. Clearing leaves the old payload bytes in place. -/
structure InBuffer where
  type : InBufferType
  size : Nat
  payload : List UInt8
  deriving DecidableEq, Repr

namespace InBuffer

/-- `in_buffer.h:17`. -/
def new : InBuffer := ⟨.unset, 0, List.replicate 248 0⟩

/-- `in_buffer.h:20–23`. -/
def clear (b : InBuffer) : InBuffer := { b with type := .unset, size := 0 }

/-- `in_buffer.h:26–31`; the length argument is narrowed to eight bits. -/
def set (b : InBuffer) (type : InBufferType) (payload : List UInt8) : Except Check InBuffer :=
  let size := payload.length % 256
  if size ≤ 248 then .ok ⟨type, size, overwrite b.payload (payload.take size)⟩
  else .error .inBufferSize

/-- The bytes a reader copies out: `count` of them from offset `pos`. -/
def slice (b : InBuffer) (pos count : Nat) : List UInt8 := (b.payload.drop pos).take count

/-- The stored packet. -/
def content (b : InBuffer) : List UInt8 := b.payload.take b.size

/-- A buffer that was cleared has no type. -/
@[simp] theorem clear_type (b : InBuffer) : b.clear.type = .unset := rfl

/-- A buffer that was cleared is empty. -/
@[simp] theorem clear_size (b : InBuffer) : b.clear.size = 0 := rfl

/-- Packets of protocol size are stored whole. -/
theorem set_ok (b : InBuffer) (type : InBufferType) (payload : List UInt8)
    (h : payload.length ≤ 248) :
    ∃ b', b.set type payload = .ok b' ∧ b'.type = type ∧ b'.size = payload.length ∧
      b'.content = payload := by
  have hm : payload.length % 256 = payload.length := Nat.mod_eq_of_lt (by omega)
  refine ⟨⟨type, payload.length, overwrite b.payload payload⟩, ?_, rfl, rfl, ?_⟩
  · simp only [set, hm, if_pos h, List.take_length]
  · exact take_overwrite b.payload payload

/-- Storing marks the buffer with the given type. -/
theorem type_of_set {b b' : InBuffer} {type : InBufferType} {payload : List UInt8}
    (h : b.set type payload = .ok b') : b'.type = type := by
  unfold set at h
  dsimp only at h
  split at h
  · cases h; rfl
  · cases h

/-- A stored packet is the narrowed payload, and lies within the buffer. -/
theorem of_set {b b' : InBuffer} {type : InBufferType} {payload : List UInt8}
    (h : b.set type payload = .ok b') : b'.size = payload.length % 256 ∧ b'.size ≤ 248 ∧
      b'.content = payload.take (payload.length % 256) ∧ b'.size ≤ b'.payload.length := by
  have hlen : (payload.take (payload.length % 256)).length = payload.length % 256 := by
    rw [List.length_take]
    exact min_eq_left (Nat.mod_le _ _)
  unfold set at h
  dsimp only at h
  split at h
  · next hle =>
    cases h
    refine ⟨rfl, hle, ?_, ?_⟩
    · have := take_overwrite b.payload (payload.take (payload.length % 256))
      rwa [hlen] at this
    · simp only [overwrite, List.length_append, hlen]
      omega
  · cases h

/-- What is left from an offset on is the stored packet without its front. -/
theorem slice_rest (b : InBuffer) (pos : Nat) :
    b.slice pos (b.size - pos) = b.content.drop pos := by
  rw [slice, content, List.drop_take]

/-- Within the stored size, a slice is a part of the packet. -/
theorem slice_eq (b : InBuffer) {pos count : Nat} (h : pos + count ≤ b.size) :
    b.slice pos count = (b.content.drop pos).take count := by
  rw [slice, content, List.drop_take, List.take_take, min_eq_left (by omega)]

/-- Within the stored size, a byte of the buffer is a byte of the packet. -/
theorem payload_getElem (b : InBuffer) {pos : Nat} (h : pos < b.size) :
    b.payload[pos]? = b.content[pos]? := by
  rw [content, List.getElem?_take_of_lt h]

end InBuffer

/-! ### Outgoing buffers -/

/-- `out_buffer.h:12–107`. The two header bytes and the data bytes written so far are kept
apart; `size_` is the number of the latter. -/
structure OutBuffer where
  header : BitVec 16
  payload : List UInt8
  acked : Bool
  flushed : Bool
  finished : Bool
  expiration : Uptime
  sendCounter : Nat
  deriving DecidableEq, Repr

namespace OutBuffer

/-- `out_buffer.h:15–22`. -/
def new : OutBuffer := ⟨0, [], false, false, false, 0, 0⟩

/-- `out_buffer.cpp:22–31`. -/
def init (seqId : SeqNum) (controlBit : Bool) : OutBuffer :=
  ⟨formatPacketHeader seqId .data controlBit, [], false, false, false, 0, 0⟩

/-- `out_buffer.h:35–48`, with the number of bytes taken. -/
def write (b : OutBuffer) (buf : List UInt8) : Except Check (Nat × OutBuffer) :=
  if b.finished then .ok (0, b)
  else
    let capacity := 248 - b.payload.length
    if capacity = 0 then .error .outBufferFull
    else if capacity ≤ buf.length then
      .ok (capacity, { b with payload := b.payload ++ buf.take capacity, flushed := true,
                              finished := true, expiration := 0 })
    else .ok (buf.length, { b with payload := b.payload ++ buf })

/-- `out_buffer.h:51`. -/
def flush (b : OutBuffer) : OutBuffer := { b with flushed := true }

/-- `out_buffer.h:54–58`. -/
def finish (b : OutBuffer) : OutBuffer :=
  { b with flushed := true, finished := true, expiration := 0 }

/-- `out_buffer.cpp:47–51`. -/
def markFinal (b : OutBuffer) : OutBuffer := { b with header := setPacketHeaderTypeFin b.header }

/-- `out_buffer.h:64`. -/
def ack (b : OutBuffer) : OutBuffer := { b with acked := true }

/-- `out_buffer.cpp:42–45`; `draw` is the value of `RANDOM_INTEGER()`. -/
def markSent (b : OutBuffer) (now : Uptime) (draw : Nat) : OutBuffer :=
  let sendCounter := if b.sendCounter < 255 then b.sendCounter + 1 else b.sendCounter
  { b with
    sendCounter := sendCounter
    expiration := now + retryBackoffMicros randomIntegerMax 5000 200000 sendCounter draw }

/-- `out_buffer.h:79–82`. -/
def rush (b : OutBuffer) : Except Check OutBuffer :=
  if 0 < b.sendCounter then .ok { b with expiration := 0 } else .error .rushUnsent

/-- The buffer with more data; it is finished when full. -/
def extended (b : OutBuffer) (bytes : List UInt8) : OutBuffer :=
  if b.payload.length + bytes.length = 248 then
    { b with payload := b.payload ++ bytes, flushed := true, finished := true, expiration := 0 }
  else { b with payload := b.payload ++ bytes }

/-- Writing takes nothing into a finished buffer; otherwise it takes what fits, at least one
byte if there is one. -/
theorem write_cases {b b' : OutBuffer} {buf : List UInt8} {written : Nat} (hne : buf ≠ [])
    (h : b.write buf = .ok (written, b')) :
    (b.finished = true ∧ written = 0 ∧ b' = b) ∨
    (b.finished = false ∧ 0 < written ∧ written ≤ buf.length ∧
      b.payload.length + written ≤ 248 ∧ b' = b.extended (buf.take written) ∧
      b'.finished = decide (b.payload.length + written = 248)) := by
  have hpos : 0 < buf.length := List.length_pos_iff.mpr hne
  unfold write at h
  split at h
  · next hf => cases h; exact .inl ⟨hf, rfl, rfl⟩
  next hf =>
  have hf : b.finished = false := by simpa using hf
  dsimp only at h
  split at h
  · cases h
  next hcap =>
  split at h
  · next hle =>
    cases h
    have hlen : (buf.take (248 - b.payload.length)).length = 248 - b.payload.length := by
      rw [List.length_take]
      omega
    have hfull : b.payload.length + (248 - b.payload.length) = 248 := by omega
    refine .inr ⟨hf, by omega, hle, by omega, ?_, ?_⟩
    · rw [extended, hlen, if_pos hfull]
    · simp only [hfull, decide_true]
  · next hle =>
    cases h
    refine .inr ⟨hf, hpos, le_refl _, by omega, ?_, ?_⟩
    · rw [List.take_length, extended, if_neg (by omega)]
    · dsimp only
      rw [hf, eq_comm, decide_eq_false_iff_not]
      omega

/-- Writing fails its check only on an unfinished buffer that is full. -/
theorem write_total (b : OutBuffer) (buf : List UInt8)
    (h : b.finished = true ∨ b.payload.length < 248) : ∃ out, b.write buf = .ok out := by
  unfold write
  split
  · exact ⟨_, rfl⟩
  next hf =>
  rw [if_neg (by rcases h with h | h; exact absurd h hf; omega)]
  split
  · exact ⟨_, rfl⟩
  · exact ⟨_, rfl⟩

/-- `out_buffer.h:67–69`, the `size()` bytes at `data()` that are sent. -/
def data (b : OutBuffer) : List UInt8 := storeBeU16 b.header ++ b.payload

end OutBuffer

end RooTransport.Link
