import RooTransport.Base.Tinyframe
import RooTransport.Packets.PacketSenderOverStream

/-!
# Frames come through, whatever is around them

A frame that follows a zero byte, or the start of the stream, is a piece of the stream of its
own. So the receiver delivers what it carries, whatever was before; what is around the frames
only adds what it would give by itself.
-/

namespace RooTransport.Packets

open RooTransport.Base RooTransport.Link PacketReceiverOverStream

namespace Reference

variable {codec : Codec} {noise : List UInt8}

/-- Nothing is unfinished at the end. -/
def Closed (bytes : List UInt8) : Prop := bytes = [] ∨ bytes.getLast? = some 0

private theorem pieces_append (h : Closed noise) (rest : List UInt8) :
    pieces (noise ++ rest) = pieces noise ++ pieces rest := by
  obtain rfl | h := h
  · rfl
  obtain ⟨bytes, rfl⟩ := List.getLast?_eq_some_iff.mp h
  unfold pieces
  have hsplit (rest : List UInt8) : (bytes ++ 0 :: rest).splitOnP (· == 0) =
      bytes.splitOnP (· == 0) ++ rest.splitOnP (· == 0) :=
    List.splitOnP_append_cons bytes rest (by rfl)
  have hdrop (rest : List UInt8) : (bytes.splitOnP (· == 0) ++ rest.splitOnP (· == 0)).dropLast =
      bytes.splitOnP (· == 0) ++ (rest.splitOnP (· == 0)).dropLast :=
    List.dropLast_append_of_ne_nil (List.splitOnP_ne_nil _ _)
  rw [List.append_assoc, List.singleton_append, hsplit, hsplit, hdrop, hdrop]
  simp

private theorem packets_append (h : Closed noise) (rest : List UInt8) :
    packets codec (noise ++ rest) = packets codec noise ++ packets codec rest := by
  rw [packets, pieces_append h, List.filterMap_append]
  rfl

private theorem bytesAccepted_append (h : Closed noise) (rest : List UInt8) :
    bytesAccepted codec (noise ++ rest) = bytesAccepted codec noise + bytesAccepted codec rest := by
  rw [bytesAccepted, pieces_append h, List.map_append, List.sum_append]
  rfl

end Reference

namespace FrameCodec

variable {codec : FrameCodec} {payload : List UInt8}

private theorem closed_frame (h : payload.length ≤ 250) :
    Reference.Closed (codec.frame payload) := by
  obtain ⟨piece, hframe, -⟩ := codec.frame_eq h
  right
  rw [hframe, List.getLast?_concat]

private theorem pieces_frame (h : payload.length ≤ 250) :
    Reference.pieces (codec.frame payload) = [codec.frame payload] := by
  obtain ⟨piece, hframe, hzero⟩ := codec.frame_eq h
  rw [hframe, Reference.pieces_append_zero hzero]
  rfl

private theorem packets_frame (h : payload.length ≤ 250) :
    Reference.packets codec.toCodec (codec.frame payload) = [payload] := by
  rw [Reference.packets, pieces_frame h, List.filterMap_cons, packet_frame h]
  rfl

private theorem bytesAccepted_frame (h : payload.length ≤ 250) :
    Reference.bytesAccepted codec.toCodec (codec.frame payload) = (codec.frame payload).length := by
  rw [Reference.bytesAccepted, pieces_frame h, List.map_singleton, Reference.acceptedBytes,
    packet_frame h]
  simp

end FrameCodec

/-- A frame that got through intact, with the bytes between it and the one before. -/
structure Kept where
  noise : List UInt8
  payload : List UInt8
  frame : List UInt8

namespace Kept

/-- The bytes on the stream. -/
def bytes (k : Kept) : List UInt8 := k.noise ++ k.frame

/-- What is delivered: the packets in the noise, if any, and the payload. -/
def delivered (codec : Codec) (k : Kept) : List (List UInt8) :=
  Reference.packets codec k.noise ++ [k.payload]

end Kept

variable {codec : FrameCodec}

private theorem packets_kept {kept : List Kept} (hnoise : ∀ k ∈ kept, Reference.Closed k.noise)
    (hframe : ∀ k ∈ kept, k.payload.length ≤ 250 ∧ k.frame = codec.frame k.payload)
    (tail : List UInt8) :
    Reference.packets codec.toCodec (kept.flatMap Kept.bytes ++ tail) =
      kept.flatMap (Kept.delivered codec.toCodec) ++ Reference.packets codec.toCodec tail := by
  induction kept with
  | nil => rfl
  | cons k kept ih =>
    obtain ⟨hlen, hk⟩ := hframe k List.mem_cons_self
    have hrest := ih (fun k hk ↦ hnoise k (List.mem_cons_of_mem _ hk))
      fun k hk ↦ hframe k (List.mem_cons_of_mem _ hk)
    rw [List.flatMap_cons, List.flatMap_cons, Kept.bytes, Kept.delivered, hk]
    simp only [List.append_assoc]
    rw [Reference.packets_append (hnoise k List.mem_cons_self),
      Reference.packets_append (FrameCodec.closed_frame hlen), FrameCodec.packets_frame hlen, hrest]

private theorem frames_accepted (codec : FrameCodec) {payloads : List (List UInt8)}
    (h : ∀ payload ∈ payloads, payload.length ≤ 250) :
    Reference.packets codec.toCodec (payloads.map codec.frame).flatten = payloads ∧
      Reference.bytesAccepted codec.toCodec (payloads.map codec.frame).flatten =
        (payloads.map codec.frame).flatten.length := by
  induction payloads with
  | nil => exact ⟨rfl, rfl⟩
  | cons payload payloads ih =>
    have hlen := h payload List.mem_cons_self
    obtain ⟨hpackets, hbytes⟩ := ih fun p hp ↦ h p (List.mem_cons_of_mem _ hp)
    rw [List.map_cons, List.flatten_cons, Reference.packets_append (FrameCodec.closed_frame hlen),
      Reference.bytesAccepted_append (FrameCodec.closed_frame hlen), FrameCodec.packets_frame hlen,
      FrameCodec.bytesAccepted_frame hlen, hpackets, hbytes, List.length_append]
    exact ⟨rfl, rfl⟩

/-- Every payload of at most 250 bytes can be sent. Of the frames any may get through, with any
bytes in between that leave nothing unfinished before a frame, and any at the end. However the
stream is then read, what is delivered are the payloads of the frames that got through, in
order, and besides only what the bytes in between would give by themselves. If there is
nothing in between, these are the payloads sent, and all bytes received are accepted. -/
theorem frames_delivered (codec : FrameCodec) (w : Nat) (sender : PacketSenderOverStream)
    (payloads : List (List UInt8))
    (h : ∀ payload ∈ payloads, payload.length ≤ PacketSenderOverStream.maxPacketSize) :
    ∃ sender' frames, sender.sendAll codec payloads = some (sender', frames) ∧
      frames.length = payloads.length ∧
      (∀ (kept : List Kept) (tail : List UInt8),
        (kept.map fun k ↦ (k.payload, k.frame)).Sublist (payloads.zip frames) →
        (∀ k ∈ kept, Reference.Closed k.noise) →
        ∀ buf tmp reads calls, stream reads = kept.flatMap Kept.bytes ++ tail →
          reads.length ≤ calls.countP Call.reading →
          ∃ r, (new w buf tmp).run codec.toCodec reads calls =
            (r, [], kept.flatMap (Kept.delivered codec.toCodec) ++
              Reference.packets codec.toCodec tail)) ∧
      ∀ buf tmp reads calls, stream reads = frames.flatten →
        reads.length ≤ calls.countP Call.reading →
        ∃ r, (new w buf tmp).run codec.toCodec reads calls = (r, [], payloads) ∧
          r.bytesAccepted = r.bytesReceived := by
  obtain ⟨sender', hsent⟩ := PacketSenderOverStream.sendAll_eq codec sender h
  refine ⟨sender', payloads.map codec.frame, hsent, List.length_map _, ?_, ?_⟩
  · intro kept tail hsub hnoise buf tmp reads calls hstream hcalls
    obtain ⟨made, hreads, hpackets, -, -⟩ := run_new codec.toCodec w buf tmp reads calls
    have hall := run_reads_all codec.toCodec (new w buf tmp) hcalls
    rw [hall, List.append_nil] at hreads
    have hframe : ∀ k ∈ kept, k.payload.length ≤ 250 ∧ k.frame = codec.frame k.payload := by
      intro k hk
      have hmem := hsub.subset (List.mem_map.mpr ⟨k, hk, rfl⟩)
      rw [← List.map_prod_left_eq_zip, List.mem_map] at hmem
      obtain ⟨payload, hpayload, heq⟩ := hmem
      obtain ⟨rfl, hsame⟩ := Prod.mk.inj heq
      exact ⟨h k.payload hpayload, hsame.symm⟩
    rw [← hreads, hstream, packets_kept hnoise hframe] at hpackets
    exact ⟨_, Prod.ext rfl (Prod.ext hall hpackets)⟩
  · intro buf tmp reads calls hstream hcalls
    obtain ⟨made, hreads, hpackets, hreceived, haccepted⟩ :=
      run_new codec.toCodec w buf tmp reads calls
    have hall := run_reads_all codec.toCodec (new w buf tmp) hcalls
    rw [hall, List.append_nil] at hreads
    obtain ⟨hsame, hbytes⟩ := frames_accepted codec h
    rw [← hreads, hstream, hsame] at hpackets
    rw [← hreads, hstream, hbytes] at haccepted
    rw [← hreads, hstream] at hreceived
    exact ⟨_, Prod.ext rfl (Prod.ext hall hpackets), haccepted.trans hreceived.symm⟩

/-! ### A codec -/

namespace Murmur

/-- A rotation to the left. -/
def rotl (x : UInt32) (k : UInt32) : UInt32 := (x <<< k) ||| (x >>> (32 - k))

/-- What the hash makes of a word before it takes it in. -/
def scramble (k : UInt32) : UInt32 := rotl (k * 0xCC9E2D51) 15 * 0x1B873593

/-- Four bytes at a time, the first the lowest, then the rest. -/
def blocks (h : UInt32) : List UInt8 → UInt32
  | a :: b :: c :: d :: rest =>
    let k := UInt32.ofNat (beNat [d, c, b, a])
    blocks (rotl (h ^^^ scramble k) 13 * 5 + 0xE6546B64) rest
  | tail => h ^^^ scramble (UInt32.ofNat (beNat tail.reverse))

/-- MurmurHash3 with 32 bits. -/
def hash (data : List UInt8) (seed : UInt32) : UInt32 :=
  let h := blocks seed data ^^^ UInt32.ofNat data.length
  let h := (h ^^^ (h >>> 16)) * 0x85EBCA6B
  let h := (h ^^^ (h >>> 13)) * 0xC2B2AE35
  h ^^^ (h >>> 16)

end Murmur

/-- The contract that is assumed can be met. -/
def tinyframeCodec : FrameCodec where
  cobsDecodeTinyframe := Tinyframe.decode
  length_decode := Tinyframe.length_decode
  murmur3_32 := Murmur.hash
  sentinel := Tinyframe.sentinel
  cobsEncodeTinyframe := Tinyframe.encode
  length_encode := Tinyframe.length_encode
  encode _ h := ⟨_, Tinyframe.encode_eq h, Tinyframe.zero_notMem_encode h⟩
  decode _ h := ⟨_, _, Tinyframe.decode_encode h⟩

/-- A buffer that was not written to. -/
def zeros : Buffer := ⟨List.replicate 256 0, List.length_replicate⟩

/-- One frame of two gets through, after a byte of noise and a delimiter, in two reads; the
bytes after it are not finished. -/
theorem frames_delivered_resynchronised :
    ∃ r, (new 32 zeros zeros).run tinyframeCodec.toCodec
      [⟨[9, 0, 2, 1, 6], by decide⟩, ⟨[2, 73, 64, 238, 232, 0, 5], by decide⟩]
      [.receive, .receive] = (r, [], [[1, 0, 2]]) := by
  have hsizes : ∀ payload ∈ [[], [(1 : UInt8), 0, 2]],
      payload.length ≤ PacketSenderOverStream.maxPacketSize := by decide
  obtain ⟨sender, frames, hsent, -, hkept, -⟩ :=
    frames_delivered tinyframeCodec 32 ⟨zeros⟩ [[], [1, 0, 2]] hsizes
  have hframes : frames = [[5, 31, 87, 80, 204, 0], [2, 1, 6, 2, 73, 64, 238, 232, 0]] := by
    obtain ⟨sender', hsent'⟩ := PacketSenderOverStream.sendAll_eq tinyframeCodec ⟨zeros⟩ hsizes
    rw [hsent] at hsent'
    rw [(Prod.mk.inj (Option.some.inj hsent')).2]
    decide +kernel
  have hone := hkept [⟨[9, 0], [1, 0, 2], [2, 1, 6, 2, 73, 64, 238, 232, 0]⟩] [5]
    (by rw [hframes]; decide) (by simp [Reference.Closed])
    zeros zeros
    [⟨[9, 0, 2, 1, 6], by decide⟩, ⟨[2, 73, 64, 238, 232, 0, 5], by decide⟩] [.receive, .receive]
    rfl (by decide)
  have hdelivered : [Kept.mk [9, 0] [1, 0, 2] [2, 1, 6, 2, 73, 64, 238, 232, 0]].flatMap
      (Kept.delivered tinyframeCodec.toCodec) ++ Reference.packets tinyframeCodec.toCodec [5] =
        [[1, 0, 2]] := by decide +kernel
  rw [hdelivered] at hone
  exact hone

end RooTransport.Packets
