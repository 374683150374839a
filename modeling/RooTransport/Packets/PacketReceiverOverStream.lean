import RooTransport.Link.Channel

/-!
# Packets out of a byte stream

`packets/over_stream/packet_receiver_over_stream.h` and `.cpp`. COBS decoding and hashing
come from other libraries and are arbitrary functions here, and so is what the buffers hold
before they are first written. `receiver_fn` is the list of packets that it is called with.
-/

namespace RooTransport.Packets

open RooTransport.Base RooTransport.Link

/-- `seed.h:9`. -/
def packetOverStreamSeed : UInt32 := 0xB45DF9DE

/-- What the receiver uses of other libraries. -/
structure Codec where
  /-- What the buffer holds after `cobs_decode_tinyframe`, and whether that succeeded. -/
  cobsDecodeTinyframe : List UInt8 → List UInt8 × Bool
  length_decode : ∀ piece, (cobsDecodeTinyframe piece).1.length = piece.length
  murmur3_32 : List UInt8 → UInt32 → UInt32

/-! ### Buffers -/

/-- A buffer of 256 bytes. -/
def Buffer := { bytes : List UInt8 // bytes.length = 256 }

namespace Buffer

/-- `memcpy` to a place in the buffer. -/
def copy (b : Buffer) (i : Nat) (src : List UInt8) (h : i + src.length ≤ 256) : Buffer :=
  ⟨b.1.take i ++ src ++ b.1.drop (i + src.length), by
    simp only [List.length_append, List.length_take, List.length_drop, b.2]
    omega⟩

/-- The bytes at a place in the buffer. -/
def slice (b : Buffer) (i n : Nat) : List UInt8 := (b.1.drop i).take n

variable {b : Buffer} {i n : Nat} {src : List UInt8}

/-- The length of a part of the buffer. -/
theorem length_slice (h : i + n ≤ 256) : (b.slice i n).length = n := by
  simp only [slice, List.length_take, List.length_drop, b.2]
  omega

/-- A part of the buffer followed by the next. -/
theorem slice_append (b : Buffer) (i n m : Nat) :
    b.slice i (n + m) = b.slice i n ++ b.slice (i + n) m := by
  simp [slice, List.take_add, List.drop_drop]

/-- What was copied is there. -/
theorem slice_copy_self (h : i + src.length ≤ 256) (hn : src.length = n) :
    (b.copy i src h).slice i n = src := by
  have hi : (b.1.take i).length = i := by
    rw [List.length_take, b.2]
    omega
  unfold slice copy
  dsimp only
  rw [List.append_assoc, List.drop_left' hi, List.take_left' hn]

/-- What was copied follows what stood before it. -/
theorem slice_copy_append (h : i + src.length ≤ 256) (hn : src.length = n) :
    (b.copy i src h).slice 0 (i + n) = b.slice 0 i ++ src := by
  have hi : (b.1.take i ++ src).length = i + n := by
    rw [List.length_append, List.length_take, b.2]
    omega
  unfold slice copy
  dsimp only
  rw [List.drop_zero, List.take_left' hi, List.drop_zero]

/-- What stands behind the copy stays. -/
theorem slice_copy_after (h : i + src.length ≤ 256) (hn : src.length = n) (k : Nat) :
    (b.copy i src h).slice (i + n) k = b.slice (i + n) k := by
  have hi : (b.1.take i ++ src).length = i + n := by
    rw [List.length_append, List.length_take, b.2]
    omega
  unfold slice copy
  dsimp only
  rw [List.drop_left' hi, hn]

end Buffer

/-! ### The receiver -/

/-- `packet_receiver_over_stream.h:21–62`, with a `size_t` of `w` bits. -/
structure PacketReceiverOverStream (w : Nat) where
  buf : Buffer
  tmp : Buffer
  pos : Nat
  bytesReceived : BitVec w
  bytesAccepted : BitVec w

namespace PacketReceiverOverStream

variable {w : Nat}

/-- `packet_receiver_over_stream.cpp:17–23`. -/
def new (w : Nat) (buf tmp : Buffer) : PacketReceiverOverStream w := ⟨buf, tmp, 0, 0, 0⟩

/-- `packet_receiver_over_stream.cpp:105–124`, with the packet that is delivered. What the
buffer holds then is for the caller to keep. -/
def processPacket (codec : Codec) (r : PacketReceiverOverStream w) (piece : List UInt8) :
    PacketReceiverOverStream w × Option (List UInt8) :=
  let size := piece.length
  let (buf, ok) := codec.cobsDecodeTinyframe piece
  if ¬ok then (r, none)
  else
    let data := (buf.drop 1).take (size - 6)
    let computedHash := codec.murmur3_32 data packetOverStreamSeed
    let receivedHash := loadBeU32 (buf.drop (size - 5))
    if computedHash ≠ receivedHash then (r, none)
    else ({ r with bytesAccepted := r.bytesAccepted + BitVec.ofNat w size }, some data)

/-- `packet_receiver_over_stream.cpp:52–67`, a delimiter was found. The piece is decoded where
it stands. -/
def finish (codec : Codec) (r : PacketReceiverOverStream w) (data increment : Nat)
    (h : data + increment ≤ 256) : PacketReceiverOverStream w × Option (List UInt8) :=
  if hsize : r.pos + increment ≤ 256 ∧ 6 ≤ r.pos + increment then
    if r.pos = 0 then
      let piece := r.tmp.slice data increment
      let tmp := r.tmp.copy data (codec.cobsDecodeTinyframe piece).1 (by
        rw [codec.length_decode, Buffer.length_slice h]
        exact h)
      { r with tmp }.processPacket codec piece
    else
      let buf := r.buf.copy r.pos (r.tmp.slice data increment) (by
        rw [Buffer.length_slice h]
        exact hsize.1)
      let piece := buf.slice 0 (r.pos + increment)
      let buf := buf.copy 0 (codec.cobsDecodeTinyframe piece).1 (by
        rw [codec.length_decode, Buffer.length_slice (by omega)]
        omega)
      { r with buf }.processPacket codec piece
  else (r, none)

/-- `packet_receiver_over_stream.cpp:69–75`, no delimiter was found. -/
def hold (r : PacketReceiverOverStream w) (data increment : Nat) (h : data + increment ≤ 256) :
    PacketReceiverOverStream w :=
  if hsize : r.pos + increment < 256 then
    { r with
      buf := r.buf.copy r.pos (r.tmp.slice data increment) (by
        rw [Buffer.length_slice h]
        omega)
      pos := r.pos + increment }
  else { r with pos := 256 }

/-- `packet_receiver_over_stream.cpp:45–78`, with the packets delivered. -/
def processLoop (codec : Codec) (r : PacketReceiverOverStream w) (data len : Nat)
    (h : data + len ≤ 256) : PacketReceiverOverStream w × List (List UInt8) :=
  if len = 0 then (r, [])
  else
    have hle : (r.tmp.slice data len).idxOf 0 ≤ len :=
      List.idxOf_le_length.trans_eq (Buffer.length_slice h)
    let increment := (r.tmp.slice data len).idxOf 0
    if hfinished : increment < len then
      let (r, packet) := r.finish codec data (increment + 1) (by omega)
      let (r, packets) := { r with pos := 0 }.processLoop codec (data + (increment + 1))
        (len - (increment + 1)) (by omega)
      (r, packet.toList ++ packets)
    else
      (r.hold data increment (by omega)).processLoop codec (data + increment) (len - increment)
        (by omega)
termination_by len

/-- `packet_receiver_over_stream.cpp:40–102`. -/
def processIncoming (codec : Codec) (r : PacketReceiverOverStream w) (len : Nat) (h : len ≤ 256) :
    PacketReceiverOverStream w × List (List UInt8) :=
  { r with bytesReceived := r.bytesReceived + BitVec.ofNat w len }.processLoop codec 0 len
    (by omega)

/-! ### Reading the stream -/

/-- What a read that does not fail or find the end gives, one to 256 bytes. -/
def Chunk := { bytes : List UInt8 // 0 < bytes.length ∧ bytes.length ≤ 256 }

/-- A read fills the front of `tmp_`, and its bytes are processed. -/
def takeChunk (codec : Codec) (r : PacketReceiverOverStream w) (chunk : Chunk) :
    PacketReceiverOverStream w × List (List UInt8) :=
  { r with tmp := r.tmp.copy 0 chunk.1 (by have := chunk.2; omega) }.processIncoming codec
    chunk.1.length chunk.2.2

/-- `packet_receiver_over_stream.cpp:25–32`, over what the reads to come give. -/
def receive (codec : Codec) (r : PacketReceiverOverStream w) :
    List Chunk → PacketReceiverOverStream w × List Chunk × List (List UInt8)
  | [] => (r, [], [])
  | chunk :: rest =>
    let (r, packets) := r.takeChunk codec chunk
    if packets.length > 0 then (r, rest, packets) else r.receive codec rest

/-- `packet_receiver_over_stream.cpp:34–37`. There may be nothing to read at the time. -/
def tryReceive (codec : Codec) (r : PacketReceiverOverStream w) (available : Bool)
    (reads : List Chunk) : PacketReceiverOverStream w × List Chunk × List (List UInt8) :=
  match available, reads with
  | true, chunk :: rest =>
    let (r, packets) := r.takeChunk codec chunk
    (r, rest, packets)
  | _, reads =>
    let (r, packets) := r.processIncoming codec 0 (by omega)
    (r, reads, packets)

/-- A call of the thread that receives. -/
inductive Call where
  | receive
  | tryReceive (available : Bool)
  deriving DecidableEq, Repr

/-- What is left to read after a call, and the packets it delivered. -/
def call (codec : Codec) (r : PacketReceiverOverStream w) (reads : List Chunk) :
    Call → PacketReceiverOverStream w × List Chunk × List (List UInt8)
  | .receive => r.receive codec reads
  | .tryReceive available => r.tryReceive codec available reads

/-- Calls one after another: what is left to read, and all packets delivered. -/
def run (codec : Codec) (r : PacketReceiverOverStream w) (reads : List Chunk) :
    List Call → PacketReceiverOverStream w × List Chunk × List (List UInt8)
  | [] => (r, reads, [])
  | c :: calls =>
    let (r, reads, packets) := r.call codec reads c
    let (r, reads, more) := r.run codec reads calls
    (r, reads, packets ++ more)

end PacketReceiverOverStream

end RooTransport.Packets
