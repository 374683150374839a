import RooTransport.Packets.Reception

/-!
# Packets into a byte stream

`packets/over_stream/packet_sender_over_stream.h` and `.cpp`. COBS encoding is an arbitrary
function here, of which its documented contract is assumed.
-/

namespace RooTransport.Packets

open RooTransport.Base RooTransport.Link

/-- What sender and receiver use of other libraries, with the contract of nanocobs for tiny
frames: a buffer of at most 256 bytes between two sentinels can be encoded, which leaves one zero
byte, at the end; and decoding restores what was between the sentinels. -/
structure FrameCodec extends Codec where
  sentinel : UInt8
  /-- What the buffer holds after `cobs_encode_tinyframe`, and whether that succeeded. -/
  cobsEncodeTinyframe : List UInt8 → List UInt8 × Bool
  length_encode : ∀ buf, (cobsEncodeTinyframe buf).1.length = buf.length
  encode : ∀ body : List UInt8, body.length + 2 ≤ 256 →
    ∃ piece, cobsEncodeTinyframe (sentinel :: body ++ [sentinel]) = (piece ++ [0], true) ∧
      0 ∉ piece
  decode : ∀ body : List UInt8, body.length + 2 ≤ 256 →
    ∃ first last,
      cobsDecodeTinyframe (cobsEncodeTinyframe (sentinel :: body ++ [sentinel])).1 =
        (first :: body ++ [last], true)

/-- `packet_sender_over_stream.h:21–45`. -/
structure PacketSenderOverStream where
  buf : Buffer

namespace PacketSenderOverStream

/-- `packet_sender_over_stream.h:24`. -/
def maxPacketSize : Nat := 250

/-- `packet_sender_over_stream.cpp:17–22`. -/
def fill (codec : FrameCodec) (s : PacketSenderOverStream) (payload : List UInt8)
    (h : payload.length + 6 ≤ 256) : Buffer :=
  let buf := s.buf.copy 0 [codec.sentinel] (by simp)
  let buf := buf.copy 1 payload (by omega)
  let hash := codec.murmur3_32 (buf.slice 1 payload.length) packetOverStreamSeed
  let buf := buf.copy (1 + payload.length) (storeBeU32 hash) (by simp; omega)
  buf.copy (1 + payload.length + 4) [codec.sentinel] (by simp; omega)

/-- `packet_sender_over_stream.cpp:14–25`, with the bytes written to the stream; `none` when a
CHECK fails. -/
def send (codec : FrameCodec) (s : PacketSenderOverStream) (payload : List UInt8) :
    Option (PacketSenderOverStream × List UInt8) :=
  if h : payload.length ≤ maxPacketSize then
    have hsize : payload.length + 6 ≤ 256 := Nat.add_le_add_right h 6
    let buf := s.fill codec payload hsize
    let encoded := codec.cobsEncodeTinyframe (buf.slice 0 (payload.length + 6))
    have hlen : encoded.1.length = payload.length + 6 :=
      (codec.length_encode _).trans (Buffer.length_slice (by omega))
    if encoded.2 then
      let buf := buf.copy 0 encoded.1 (by omega)
      some (⟨buf⟩, buf.slice 0 (payload.length + 6))
    else none
  else none

/-- Send one payload after another, with what is written for each. -/
def sendAll (codec : FrameCodec) (s : PacketSenderOverStream) :
    List (List UInt8) → Option (PacketSenderOverStream × List (List UInt8))
  | [] => some (s, [])
  | payload :: payloads => do
    let (s, frame) ← s.send codec payload
    let (s, frames) ← s.sendAll codec payloads
    return (s, frame :: frames)

end PacketSenderOverStream

/-! ### Frames -/

namespace FrameCodec

variable (codec : FrameCodec)

/-- What is between the sentinels. -/
def body (payload : List UInt8) : List UInt8 :=
  payload ++ storeBeU32 (codec.murmur3_32 payload packetOverStreamSeed)

/-- The frame of a payload. -/
def frame (payload : List UInt8) : List UInt8 :=
  (codec.cobsEncodeTinyframe (codec.sentinel :: codec.body payload ++ [codec.sentinel])).1

/-- The checksum takes four bytes. -/
@[simp]
theorem length_body (payload : List UInt8) : (codec.body payload).length = payload.length + 4 := by
  simp [body]

/-- The checksum takes four bytes, and the delimiters one each. -/
@[simp]
theorem length_frame (payload : List UInt8) :
    (codec.frame payload).length = payload.length + 6 := by
  simp [frame, codec.length_encode]

variable {payload : List UInt8}

/-- A frame is one piece of the stream. -/
theorem frame_eq (h : payload.length ≤ 250) : ∃ piece, codec.frame payload = piece ++ [0] ∧
    0 ∉ piece := by
  obtain ⟨piece, hencode, hzero⟩ := codec.encode (codec.body payload) (by
    rw [length_body]
    omega)
  exact ⟨piece, by rw [frame, hencode], hzero⟩

variable {codec}

/-- The receiver takes out of the frame what the sender put into it. -/
theorem packet_frame (h : payload.length ≤ 250) :
    Reference.packet codec.toCodec (codec.frame payload) = some payload := by
  obtain ⟨first, last, hdecode⟩ := codec.decode (codec.body payload) (by
    rw [length_body]
    omega)
  have hdata : ((first :: codec.body payload ++ [last]).drop 1).take
      ((codec.frame payload).length - 6) = payload := by
    simp [body]
  have hhash : loadBeU32 ((first :: codec.body payload ++ [last]).drop
      ((codec.frame payload).length - 5)) =
        codec.murmur3_32 payload packetOverStreamSeed := by
    rw [length_frame, show payload.length + 6 - 5 = payload.length + 1 by omega]
    rw [List.cons_append, List.drop_succ_cons, body, List.append_assoc, List.drop_left' rfl]
    exact loadBeU32_store _ _
  rw [Reference.packet, if_pos (by rw [length_frame]; omega)]
  rw [← frame] at hdecode
  rw [hdecode]
  dsimp only
  rw [hdata, if_pos ⟨rfl, hhash⟩]

end FrameCodec

/-! ### Sending -/

namespace PacketSenderOverStream

variable {codec : FrameCodec} {payload : List UInt8}

private theorem slice_fill (s : PacketSenderOverStream) (h : payload.length + 6 ≤ 256) :
    (s.fill codec payload h).slice 0 (payload.length + 6) =
      codec.sentinel :: codec.body payload ++ [codec.sentinel] := by
  have hlen : payload.length + 6 = 1 + payload.length + 4 + 1 := by omega
  unfold fill
  dsimp only
  rw [hlen, Buffer.slice_copy_append (n := 1) _ rfl,
    Buffer.slice_copy_append _ (length_storeBeU32 _), Buffer.slice_copy_append _ rfl,
    Buffer.slice_copy_self (n := 1) _ rfl, Buffer.slice_copy_self _ rfl]
  simp [FrameCodec.body]

/-- What is sent depends on the payload alone. -/
theorem send_eq (codec : FrameCodec) (s : PacketSenderOverStream)
    (h : payload.length ≤ maxPacketSize) :
    ∃ s', s.send codec payload = some (s', codec.frame payload) := by
  have hsize : payload.length + 6 ≤ 256 := Nat.add_le_add_right h 6
  obtain ⟨piece, hencode, -⟩ := codec.encode (codec.body payload) (by
    rw [FrameCodec.length_body]
    exact hsize)
  have hok : (codec.cobsEncodeTinyframe
      ((s.fill codec payload hsize).slice 0 (payload.length + 6))).2 = true := by
    rw [slice_fill, hencode]
  have hframe : (codec.cobsEncodeTinyframe
      ((s.fill codec payload hsize).slice 0 (payload.length + 6))).1 = codec.frame payload := by
    rw [slice_fill, FrameCodec.frame]
  unfold send
  rw [dif_pos h]
  dsimp only
  rw [if_pos hok]
  refine ⟨_, congrArg some (Prod.ext rfl ?_)⟩
  refine (Buffer.slice_copy_self _ ?_).trans hframe
  rw [hframe, FrameCodec.length_frame]

/-- Packets of a supported size are all sent, each in a frame of its own. -/
theorem sendAll_eq (codec : FrameCodec) (s : PacketSenderOverStream) {payloads : List (List UInt8)}
    (h : ∀ payload ∈ payloads, payload.length ≤ maxPacketSize) :
    ∃ s', s.sendAll codec payloads = some (s', payloads.map codec.frame) := by
  induction payloads generalizing s with
  | nil => exact ⟨s, rfl⟩
  | cons payload payloads ih =>
    obtain ⟨s', hs⟩ := send_eq codec s (h payload List.mem_cons_self)
    obtain ⟨s'', hrest⟩ := ih s' fun p hp ↦ h p (List.mem_cons_of_mem _ hp)
    refine ⟨s'', ?_⟩
    rw [sendAll, hs]
    dsimp only [bind, Option.bind]
    rw [hrest]
    rfl

end PacketSenderOverStream

end RooTransport.Packets
