import RooTransport.Packets.PacketReceiverOverStream

/-!
# Reception does not depend on how the stream is cut into reads

What `PacketReceiverOverStream` is for, said of the byte stream as a whole: cut it after every
zero byte, and deliver what the pieces of an acceptable size decode to. The receiver, which
sees the stream in reads of any sizes, does just that.
-/

namespace RooTransport.Packets

open RooTransport.Base RooTransport.Link

/-! ### The stream as a whole -/

namespace Reference

/-- The complete pieces of the stream, each with the zero byte at its end. -/
def pieces (stream : List UInt8) : List (List UInt8) :=
  (stream.splitOnP (· == 0)).dropLast.map (· ++ [0])

/-- The packet in a piece, if there is one. -/
def packet (codec : Codec) (piece : List UInt8) : Option (List UInt8) :=
  if 6 ≤ piece.length ∧ piece.length ≤ 256 then
    let (decoded, ok) := codec.cobsDecodeTinyframe piece
    let data := (decoded.drop 1).take (piece.length - 6)
    if ok ∧ loadBeU32 (decoded.drop (piece.length - 5)) =
        codec.murmur3_32 data packetOverStreamSeed then some data
    else none
  else none

/-- All packets of the stream. -/
def packets (codec : Codec) (stream : List UInt8) : List (List UInt8) :=
  (pieces stream).filterMap (packet codec)

/-- The bytes that a piece adds to those accepted, framing included. -/
def acceptedBytes (codec : Codec) (piece : List UInt8) : Nat :=
  if (packet codec piece).isSome then piece.length else 0

/-- The bytes of the stream that count as accepted. -/
def bytesAccepted (codec : Codec) (stream : List UInt8) : Nat :=
  ((pieces stream).map (acceptedBytes codec)).sum

variable {codec : Codec} {u : List UInt8}

private theorem splitOnP_unfinished (h : 0 ∉ u) : u.splitOnP (· == 0) = [u] := by
  apply List.splitOnP_eq_singleton
  intro b hb
  rw [beq_eq_false_iff_ne]
  rintro rfl
  exact h hb

private theorem pieces_unfinished (h : 0 ∉ u) : pieces u = [] := by
  rw [pieces, splitOnP_unfinished h]
  rfl

/-- A piece ends at the first zero byte. -/
theorem pieces_append_zero (h : 0 ∉ u) (rest : List UInt8) :
    pieces (u ++ 0 :: rest) = (u ++ [0]) :: pieces rest := by
  unfold pieces
  rw [List.splitOnP_append_cons u rest (by rfl), splitOnP_unfinished h]
  cases hrest : rest.splitOnP (· == 0) with
  | nil => exact absurd hrest (List.splitOnP_ne_nil _ _)
  | cons first more => rfl

private theorem packets_append_zero (h : 0 ∉ u) (rest : List UInt8) :
    packets codec (u ++ 0 :: rest) = (packet codec (u ++ [0])).toList ++ packets codec rest := by
  rw [packets, pieces_append_zero h, List.filterMap_cons]
  cases packet codec (u ++ [0]) <;> rfl

private theorem bytesAccepted_append_zero (h : 0 ∉ u) (rest : List UInt8) :
    bytesAccepted codec (u ++ 0 :: rest) =
      acceptedBytes codec (u ++ [0]) + bytesAccepted codec rest := by
  rw [bytesAccepted, pieces_append_zero h]
  rfl

/-- A piece of an unacceptable size is dropped. -/
theorem packet_eq_none {piece : List UInt8} (h : ¬(6 ≤ piece.length ∧ piece.length ≤ 256)) :
    packet codec piece = none := if_neg h

end Reference

namespace PacketReceiverOverStream

variable {w : Nat} {codec : Codec} {r r' r'' : PacketReceiverOverStream w} {u u' u'' : List UInt8}

/-! ### Unfinished pieces -/

/-- The receiver has the bytes of a piece that has not ended yet, or knows that it is too long. -/
structure Holds (r : PacketReceiverOverStream w) (u : List UInt8) : Prop where
  unfinished : 0 ∉ u
  pos : r.pos = min u.length 256
  kept : u.length < 256 → r.buf.slice 0 u.length = u

private theorem holds_nil (h : r.pos = 0) : r.Holds [] where
  unfinished := by simp
  pos := by simp [h]
  kept _ := by simp [Buffer.slice]

private theorem processPacket_eq {piece : List UInt8} (h : 6 ≤ piece.length ∧ piece.length ≤ 256) :
    r.processPacket codec piece =
      ({ r with bytesAccepted :=
          r.bytesAccepted + BitVec.ofNat w (Reference.acceptedBytes codec piece) },
        Reference.packet codec piece) := by
  have hpacket : Reference.packet codec piece = _ := if_pos h
  rw [Reference.acceptedBytes, hpacket]
  unfold processPacket
  dsimp only
  by_cases hok : (codec.cobsDecodeTinyframe piece).2 = true
  · by_cases hhash : loadBeU32 ((codec.cobsDecodeTinyframe piece).1.drop (piece.length - 5)) =
        codec.murmur3_32 (((codec.cobsDecodeTinyframe piece).1.drop 1).take (piece.length - 6))
          packetOverStreamSeed
    · simp only [hok, hhash, not_true_eq_false, ne_eq, if_false, and_self, if_true,
        Option.isSome_some]
    · simp only [hok, hhash, Ne.symm hhash, not_true_eq_false, ne_eq, not_false_eq_true,
        if_false, and_false, if_true, Option.isSome_none, Bool.false_eq_true,  BitVec.add_zero]
  · simp [hok]

/-- What becomes of a piece when its delimiter is found. -/
structure Finishes (codec : Codec) (r : PacketReceiverOverStream w) (piece : List UInt8)
    (next : Nat) (result : PacketReceiverOverStream w × Option (List UInt8)) : Prop where
  packet : result.2 = Reference.packet codec piece
  accepted : result.1.bytesAccepted =
    r.bytesAccepted + BitVec.ofNat w (Reference.acceptedBytes codec piece)
  received : result.1.bytesReceived = r.bytesReceived
  tmp : ∀ n, result.1.tmp.slice next n = r.tmp.slice next n

private theorem finishes_processPacket {piece piece' : List UInt8} {next : Nat}
    (h : 6 ≤ piece.length ∧ piece.length ≤ 256) (hp : piece' = piece)
    (ha : r'.bytesAccepted = r.bytesAccepted) (hr : r'.bytesReceived = r.bytesReceived)
    (ht : ∀ n, r'.tmp.slice next n = r.tmp.slice next n) :
    Finishes codec r piece next (r'.processPacket codec piece') := by
  rw [hp, processPacket_eq h]
  exact ⟨rfl, by rw [ha], hr, ht⟩

private theorem Holds.finish (h : r.Holds u) {data increment : Nat} (hin : data + increment ≤ 256)
    (hinc : 0 < increment) : Finishes codec r (u ++ r.tmp.slice data increment) (data + increment)
      (r.finish codec data increment hin) := by
  have hlen : (r.tmp.slice data increment).length = increment := Buffer.length_slice hin
  have hlen' : (u ++ r.tmp.slice data increment).length = u.length + increment := by
    rw [List.length_append, hlen]
  have hpos := h.pos
  unfold PacketReceiverOverStream.finish
  split
  · next hsize =>
    -- An overlong piece is not here: its delimiter would be byte 257 at least.
    have hpos : r.pos = u.length := by omega
    have hacceptable : 6 ≤ (u ++ r.tmp.slice data increment).length ∧
        (u ++ r.tmp.slice data increment).length ≤ 256 := by omega
    split
    · next hzero =>
      obtain rfl : u = [] := List.length_eq_zero_iff.mp (by omega)
      apply finishes_processPacket hacceptable
      · rfl
      · rfl
      · rfl
      · have hdecoded : (codec.cobsDecodeTinyframe (r.tmp.slice data increment)).1.length =
            increment := by rw [codec.length_decode, hlen]
        exact Buffer.slice_copy_after (by omega) hdecoded
    · apply finishes_processPacket hacceptable
      · rw [Buffer.slice_copy_append _ hlen, hpos, h.kept (by omega)]
      · rfl
      · rfl
      · exact fun n ↦ rfl
  · next hsize =>
    have hnone : Reference.packet codec (u ++ r.tmp.slice data increment) = none := by
      apply Reference.packet_eq_none
      omega
    refine ⟨hnone.symm, ?_, rfl, fun n ↦ rfl⟩
    simp [Reference.acceptedBytes, hnone]

private theorem Holds.hold (h : r.Holds u) {data increment : Nat} (hin : data + increment ≤ 256)
    (hno : 0 ∉ r.tmp.slice data increment) :
    (r.hold data increment hin).Holds (u ++ r.tmp.slice data increment) := by
  have hlen : (r.tmp.slice data increment).length = increment := Buffer.length_slice hin
  have hlen' : (u ++ r.tmp.slice data increment).length = u.length + increment := by
    rw [List.length_append, hlen]
  have hpos := h.pos
  have hunfinished : 0 ∉ u ++ r.tmp.slice data increment := by
    rw [List.mem_append, not_or]
    exact ⟨h.unfinished, hno⟩
  unfold PacketReceiverOverStream.hold
  split
  · next hsize =>
    have hpos : r.pos = u.length := by omega
    refine ⟨hunfinished, ?_, fun _ ↦ ?_⟩
    · dsimp only
      omega
    · dsimp only
      rw [hlen', ← hpos, Buffer.slice_copy_append _ hlen, hpos, h.kept (by omega)]
  · next hsize =>
    refine ⟨hunfinished, ?_, fun hshort ↦ ?_⟩
    · dsimp only
      omega
    · omega

/-! ### A chunk -/

/-- Bytes are taken: whatever comes next, the packets and the bytes accepted in all are those
of the stream. -/
structure Takes (codec : Codec) (r : PacketReceiverOverStream w) (u bytes : List UInt8)
    (r' : PacketReceiverOverStream w) (u' : List UInt8) (packets : List (List UInt8)) : Prop where
  holds : r'.Holds u'
  delivered : ∀ rest, Reference.packets codec (u ++ (bytes ++ rest)) =
    packets ++ Reference.packets codec (u' ++ rest)
  accepted : ∀ rest,
    r'.bytesAccepted + BitVec.ofNat w (Reference.bytesAccepted codec (u' ++ rest)) =
      r.bytesAccepted + BitVec.ofNat w (Reference.bytesAccepted codec (u ++ (bytes ++ rest)))

private theorem Takes.refl (h : r.Holds u) : Takes codec r u [] r u [] :=
  ⟨h, fun _ ↦ rfl, fun _ ↦ rfl⟩

private theorem Takes.trans {bytes bytes' : List UInt8} {packets packets' : List (List UInt8)}
    (h : Takes codec r u bytes r' u' packets) (h' : Takes codec r' u' bytes' r'' u'' packets') :
    Takes codec r u (bytes ++ bytes') r'' u'' (packets ++ packets') where
  holds := h'.holds
  delivered rest := by
    rw [List.append_assoc, h.delivered, h'.delivered, List.append_assoc]
  accepted rest := by
    rw [List.append_assoc, ← h.accepted, ← h'.accepted]

private theorem Holds.takes_finish (h : r.Holds u) {data increment : Nat}
    (hin : data + (increment + 1) ≤ 256) {body : List UInt8} (hbody : 0 ∉ body)
    (hslice : r.tmp.slice data (increment + 1) = body ++ [0]) :
    Takes codec r u (r.tmp.slice data (increment + 1))
      { (r.finish codec data (increment + 1) hin).1 with pos := 0 } []
      (r.finish codec data (increment + 1) hin).2.toList := by
  have hfinishes : Finishes codec r _ _ _ := h.finish hin (Nat.succ_pos _)
  obtain ⟨hpacket, haccepted, -, -⟩ := hfinishes
  have hunfinished : 0 ∉ u ++ body := by
    rw [List.mem_append, not_or]
    exact ⟨h.unfinished, hbody⟩
  have hstream (rest : List UInt8) : u ++ (body ++ [0] ++ rest) = (u ++ body) ++ 0 :: rest := by
    simp
  rw [hslice, ← List.append_assoc] at hpacket haccepted
  rw [hslice]
  refine ⟨holds_nil rfl, fun rest ↦ ?_, fun rest ↦ ?_⟩
  · rw [hstream, Reference.packets_append_zero hunfinished, hpacket]
    rfl
  · dsimp only
    rw [hstream, Reference.bytesAccepted_append_zero hunfinished, haccepted, BitVec.ofNat_add,
      BitVec.add_assoc]
    rfl

private theorem Holds.takes_hold (h : r.Holds u) {data increment : Nat}
    (hin : data + increment ≤ 256) (hno : 0 ∉ r.tmp.slice data increment) :
    Takes codec r u (r.tmp.slice data increment) (r.hold data increment hin)
      (u ++ r.tmp.slice data increment) [] := by
  have hsame : (r.hold data increment hin).bytesAccepted = r.bytesAccepted := by
    unfold PacketReceiverOverStream.hold
    split <;> rfl
  refine ⟨h.hold hin hno, fun rest ↦ ?_, fun rest ↦ ?_⟩
  · rw [List.append_assoc]
    rfl
  · rw [hsame, List.append_assoc]

private theorem take_idxOf_zero {l : List UInt8} (h : l.idxOf 0 < l.length) :
    l.take (l.idxOf 0 + 1) = l.take (l.idxOf 0) ++ [0] ∧ 0 ∉ l.take (l.idxOf 0) := by
  have hmem : (0 : UInt8) ∈ l := List.idxOf_lt_length_iff.mp h
  constructor
  · rw [List.take_add_one, List.getElem?_eq_getElem h, List.getElem_idxOf h]
    rfl
  · rw [List.mem_take_iff_idxOf_lt hmem]
    exact lt_irrefl _

private theorem processLoop_zero {data len : Nat} (hin : data + len ≤ 256) (h : len = 0) :
    r.processLoop codec data len hin = (r, []) := by
  rw [processLoop, if_pos h]

private theorem processLoop_finish {data len increment : Nat} (hin : data + len ≤ 256)
    (hinc : (r.tmp.slice data len).idxOf 0 = increment) (hlt : increment < len)
    (hfront : data + (increment + 1) ≤ 256)
    (hrest : data + (increment + 1) + (len - (increment + 1)) ≤ 256) :
    r.processLoop codec data len hin =
      let (r, packet) := r.finish codec data (increment + 1) hfront
      let (r, packets) := { r with pos := 0 }.processLoop codec (data + (increment + 1))
        (len - (increment + 1)) hrest
      (r, packet.toList ++ packets) := by
  subst hinc
  rw [processLoop, if_neg (by omega), dif_pos hlt]

private theorem processLoop_hold {data len : Nat} (hin : data + len ≤ 256)
    (hinc : (r.tmp.slice data len).idxOf 0 = len) (hpos : len ≠ 0) :
    r.processLoop codec data len hin = (r.hold data len hin, []) := by
  rw [processLoop, if_neg hpos, dif_neg (by omega), processLoop_zero _ (by omega)]
  simp only [hinc]

private theorem Holds.processLoop (codec : Codec) (len : Nat) :
    ∀ {r : PacketReceiverOverStream w} {u : List UInt8} {data : Nat} (hin : data + len ≤ 256),
      r.Holds u →
      ∃ u', Takes codec r u (r.tmp.slice data len) (r.processLoop codec data len hin).1 u'
          (r.processLoop codec data len hin).2 ∧
        (r.processLoop codec data len hin).1.bytesReceived = r.bytesReceived := by
  -- Every round takes the bytes up to a delimiter, or all that are left.
  induction len using Nat.strongRecOn with
  | ind len ih =>
    intro r u data hin h
    by_cases hzero : len = 0
    · rw [processLoop_zero hin hzero]
      subst hzero
      exact ⟨u, .refl h, rfl⟩
    have hlen : (r.tmp.slice data len).length = len := Buffer.length_slice hin
    obtain ⟨increment, hinc⟩ : ∃ increment, (r.tmp.slice data len).idxOf 0 = increment := ⟨_, rfl⟩
    have hle : increment ≤ len := by
      rw [← hinc]
      exact List.idxOf_le_length.trans_eq hlen
    by_cases hlt : increment < len
    · obtain ⟨hpiece, hbody⟩ := take_idxOf_zero (hinc.trans_lt (hlt.trans_eq hlen.symm))
      have hslice : r.tmp.slice data len = r.tmp.slice data (increment + 1) ++
          r.tmp.slice (data + (increment + 1)) (len - (increment + 1)) := by
        rw [← Buffer.slice_append, Nat.add_sub_cancel' hlt]
      rw [hinc, hslice, List.take_left' (Buffer.length_slice (by omega)), ← hslice] at hpiece
      rw [hinc] at hbody
      have hin' : data + (increment + 1) ≤ 256 := by omega
      have hin'' : data + (increment + 1) + (len - (increment + 1)) ≤ 256 := by omega
      have hfinishes : Finishes codec r _ _ _ := h.finish hin' (Nat.succ_pos _)
      have hfirst : Takes codec r u _ _ _ _ := h.takes_finish hin' hbody hpiece
      obtain ⟨u', hrest, hreceived⟩ := ih (len - (increment + 1)) (by omega) hin'' hfirst.holds
      rw [hfinishes.tmp] at hrest
      rw [processLoop_finish hin hinc hlt (by omega) (by omega), hslice]
      exact ⟨u', hfirst.trans hrest, hreceived.trans hfinishes.received⟩
    · have hall : (r.tmp.slice data len).idxOf 0 = len := by omega
      have hno : 0 ∉ r.tmp.slice data len := by
        intro hmem
        have := List.idxOf_lt_length_iff.mpr hmem
        omega
      have hsame : (r.hold data len hin).bytesReceived = r.bytesReceived := by
        unfold PacketReceiverOverStream.hold
        split <;> rfl
      rw [processLoop_hold hin hall hzero]
      exact ⟨_, h.takes_hold hin hno, hsame⟩

/-! ### The whole stream -/

/-- The bytes that some reads give. -/
def stream (reads : List Chunk) : List UInt8 := (reads.map (·.1)).flatten

/-- No reads give no bytes. -/
@[simp]
theorem stream_nil : stream [] = [] := rfl

/-- The bytes of the first read come first. -/
@[simp]
theorem stream_cons (chunk : Chunk) (reads : List Chunk) :
    stream (chunk :: reads) = chunk.1 ++ stream reads := rfl

/-- Reads after reads give bytes after bytes. -/
@[simp]
theorem stream_append (reads reads' : List Chunk) :
    stream (reads ++ reads') = stream reads ++ stream reads' := by
  simp [stream]

/-- Some of the reads to come were made, with what the receiver did with them. -/
structure Consumes (codec : Codec) (r : PacketReceiverOverStream w) (u : List UInt8)
    (reads : List Chunk) (r' : PacketReceiverOverStream w) (u' : List UInt8) (rest : List Chunk)
    (packets : List (List UInt8)) (made : List Chunk) : Prop where
  reads : reads = made ++ rest
  takes : Takes codec r u (stream made) r' u' packets
  received : r'.bytesReceived = r.bytesReceived + BitVec.ofNat w (stream made).length

variable {reads reads' reads'' : List Chunk} {packets packets' : List (List UInt8)}
  {made made' : List Chunk} {calls : List Call}

private theorem Consumes.refl (h : r.Holds u) (reads : List Chunk) :
    Consumes codec r u reads r u reads [] [] :=
  ⟨rfl, .refl h, by simp⟩

private theorem Consumes.trans (h : Consumes codec r u reads r' u' reads' packets made)
    (h' : Consumes codec r' u' reads' r'' u'' reads'' packets' made') :
    Consumes codec r u reads r'' u'' reads'' (packets ++ packets') (made ++ made') where
  reads := by rw [h.reads, h'.reads, List.append_assoc]
  takes := by
    rw [stream_append]
    exact h.takes.trans h'.takes
  received := by
    rw [stream_append, List.length_append, BitVec.ofNat_add, h'.received, h.received,
      BitVec.add_assoc]

private theorem Holds.processIncoming (h : r.Holds u) {len : Nat} (hlen : len ≤ 256) :
    ∃ u', Takes codec r u (r.tmp.slice 0 len) (r.processIncoming codec len hlen).1 u'
        (r.processIncoming codec len hlen).2 ∧
      (r.processIncoming codec len hlen).1.bytesReceived =
        r.bytesReceived + BitVec.ofNat w len := by
  have h' : Holds { r with bytesReceived := r.bytesReceived + BitVec.ofNat w len } u :=
    ⟨h.unfinished, h.pos, h.kept⟩
  obtain ⟨u', ⟨hholds, hdelivered, haccepted⟩, hreceived⟩ :=
    h'.processLoop codec len (by omega : 0 + len ≤ 256)
  exact ⟨u', ⟨hholds, hdelivered, haccepted⟩, hreceived⟩

private theorem Holds.takeChunk (h : r.Holds u) (codec : Codec) (chunk : Chunk)
    (rest : List Chunk) :
    ∃ u', Consumes codec r u (chunk :: rest) (r.takeChunk codec chunk).1 u' rest
      (r.takeChunk codec chunk).2 [chunk] := by
  have hin : 0 + chunk.1.length ≤ 256 := by
    have := chunk.2.2
    omega
  have hread : Holds { r with tmp := r.tmp.copy 0 chunk.1 hin } u := ⟨h.unfinished, h.pos, h.kept⟩
  obtain ⟨u', ⟨hholds, hdelivered, haccepted⟩, hreceived⟩ := hread.processIncoming chunk.2.2
  rw [Buffer.slice_copy_self hin rfl] at hdelivered haccepted
  have hstream : stream [chunk] = chunk.1 := by simp
  refine ⟨u', rfl, ?_, ?_⟩
  · rw [hstream]
    exact ⟨hholds, hdelivered, haccepted⟩
  · rw [hstream]
    exact hreceived

private theorem Holds.receive (codec : Codec) (reads : List Chunk) :
    ∀ {r : PacketReceiverOverStream w} {u : List UInt8}, r.Holds u →
      ∃ u' made, Consumes codec r u reads (r.receive codec reads).1 u'
        (r.receive codec reads).2.1 (r.receive codec reads).2.2 made := by
  induction reads with
  | nil =>
    intro r u h
    exact ⟨u, [], .refl h []⟩
  | cons chunk rest ih =>
    intro r u h
    obtain ⟨u', hchunk⟩ := h.takeChunk codec chunk rest
    rw [PacketReceiverOverStream.receive]
    dsimp only
    split
    · exact ⟨u', [chunk], hchunk⟩
    next hnone =>
    have hempty : (r.takeChunk codec chunk).2 = [] := List.length_eq_zero_iff.mp (by omega)
    obtain ⟨u'', made, hrest⟩ := ih hchunk.takes.holds
    have hboth := hchunk.trans hrest
    rw [hempty] at hboth
    exact ⟨u'', _, hboth⟩

private theorem Holds.tryReceive (h : r.Holds u) (codec : Codec) (available : Bool)
    (reads : List Chunk) :
    ∃ u' made, Consumes codec r u reads (r.tryReceive codec available reads).1 u'
      (r.tryReceive codec available reads).2.1 (r.tryReceive codec available reads).2.2 made := by
  unfold PacketReceiverOverStream.tryReceive
  split
  · next chunk rest =>
    obtain ⟨u', hchunk⟩ := h.takeChunk codec chunk rest
    exact ⟨u', [chunk], hchunk⟩
  · have hnothing : r.processIncoming codec 0 (by omega) = (r, []) := by
      rw [PacketReceiverOverStream.processIncoming, processLoop_zero _ rfl, BitVec.add_zero]
    rw [hnothing]
    exact ⟨u, [], .refl h _⟩

private theorem Holds.run (codec : Codec) (calls : List Call) :
    ∀ {r : PacketReceiverOverStream w} {u : List UInt8} {reads : List Chunk}, r.Holds u →
      ∃ u' made, Consumes codec r u reads (r.run codec reads calls).1 u'
        (r.run codec reads calls).2.1 (r.run codec reads calls).2.2 made := by
  induction calls with
  | nil =>
    intro r u reads h
    exact ⟨u, [], .refl h reads⟩
  | cons c calls ih =>
    intro r u reads h
    obtain ⟨u', made, hcall⟩ : ∃ u' made, Consumes codec r u reads (r.call codec reads c).1 u'
        (r.call codec reads c).2.1 (r.call codec reads c).2.2 made := by
      cases c with
      | receive => exact h.receive codec reads
      | tryReceive available => exact h.tryReceive codec available reads
    obtain ⟨u'', made', hrest⟩ := ih hcall.takes.holds
    exact ⟨u'', _, hcall.trans hrest⟩

/-! ### Progress -/

/-- The call reads, if there is anything to read. -/
def Call.reading : Call → Bool
  | .receive => true
  | .tryReceive available => available

private theorem length_receive (codec : Codec) (r : PacketReceiverOverStream w) (chunk : Chunk)
    (rest : List Chunk) : (r.receive codec (chunk :: rest)).2.1.length ≤ rest.length := by
  induction rest generalizing r chunk with
  | nil =>
    rw [receive]
    dsimp only
    split <;> simp [receive]
  | cons chunk' rest ih =>
    rw [receive]
    dsimp only
    split
    · exact le_rfl
    · exact (ih _ chunk').trans (Nat.le_succ _)

private theorem length_call (codec : Codec) (r : PacketReceiverOverStream w) (reads : List Chunk)
    (c : Call) : (r.call codec reads c).2.1.length ≤ reads.length - c.reading.toNat := by
  cases reads with
  | nil =>
    cases c with
    | receive => simp [call, receive]
    | tryReceive available => cases available <;> simp [call, tryReceive]
  | cons chunk rest =>
    cases c with
    | receive => simpa [call, Call.reading] using length_receive codec r chunk rest
    | tryReceive available => cases available <;> simp [call, tryReceive, Call.reading]

private theorem length_run (codec : Codec) (calls : List Call) (r : PacketReceiverOverStream w)
    (reads : List Chunk) :
    (r.run codec reads calls).2.1.length ≤ reads.length - calls.countP Call.reading := by
  induction calls generalizing r reads with
  | nil => simp [run]
  | cons c calls ih =>
    have hfirst := length_call codec r reads c
    have hrest := ih (r.call codec reads c).1 (r.call codec reads c).2.1
    have hcount :
        (c :: calls).countP Call.reading = calls.countP Call.reading + c.reading.toNat := by
      rw [List.countP_cons]
      cases c.reading <;> rfl
    refine hrest.trans ?_
    rw [hcount]
    omega

/-- A call for every read is enough to have made them all. -/
theorem run_reads_all (codec : Codec) (r : PacketReceiverOverStream w)
    (h : reads.length ≤ calls.countP Call.reading) : (r.run codec reads calls).2.1 = [] := by
  have hlen := length_run codec calls r reads
  exact List.length_eq_zero_iff.mp (by omega)

/-- What the calls do with the reads that they make is what the reference does with the bytes. -/
theorem run_new (codec : Codec) (w : Nat) (buf tmp : Buffer) (reads : List Chunk)
    (calls : List Call) :
    ∃ made, reads = made ++ ((new w buf tmp).run codec reads calls).2.1 ∧
      ((new w buf tmp).run codec reads calls).2.2 = Reference.packets codec (stream made) ∧
      ((new w buf tmp).run codec reads calls).1.bytesReceived =
        BitVec.ofNat w (stream made).length ∧
      ((new w buf tmp).run codec reads calls).1.bytesAccepted =
        BitVec.ofNat w (Reference.bytesAccepted codec (stream made)) := by
  have hnew : (new w buf tmp).Holds [] := holds_nil rfl
  obtain ⟨u, made, hreads, ⟨hholds, hdelivered, haccepted⟩, hreceived⟩ := hnew.run codec calls
  -- No piece is left when nothing more comes.
  have hend : Reference.pieces (u ++ []) = [] := by
    rw [List.append_nil]
    exact Reference.pieces_unfinished hholds.unfinished
  have hpackets := hdelivered []
  have hbytes := haccepted []
  rw [Reference.packets, Reference.packets, hend] at hpackets
  rw [Reference.bytesAccepted, hend] at hbytes
  simp only [List.nil_append, List.append_nil, List.filterMap_nil] at hpackets
  refine ⟨made, hreads, hpackets.symm, ?_, ?_⟩
  · simpa [new] using hreceived
  · simpa [new] using hbytes

/-- However the stream is cut into reads, and whichever calls make them: the packets delivered
and the counts are those of the bytes read, taken as a whole; and a call for every read is
enough to have read them all. -/
theorem reception_eq_reference (codec : Codec) (w : Nat) (buf tmp : Buffer) (reads : List Chunk)
    (calls : List Call) :
    ∃ made rest r, reads = made ++ rest ∧
      (new w buf tmp).run codec reads calls =
        (r, rest, Reference.packets codec (stream made)) ∧
      r.bytesReceived = BitVec.ofNat w (stream made).length ∧
      r.bytesAccepted = BitVec.ofNat w (Reference.bytesAccepted codec (stream made)) ∧
      (reads.length ≤ calls.countP Call.reading → made = reads) := by
  obtain ⟨made, hreads, hpackets, hreceived, haccepted⟩ := run_new codec w buf tmp reads calls
  refine ⟨made, _, _, hreads, Prod.ext rfl (Prod.ext rfl hpackets), hreceived, haccepted, ?_⟩
  intro hcalls
  rw [run_reads_all codec _ hcalls, List.append_nil] at hreads
  exact hreads.symm

end PacketReceiverOverStream

end RooTransport.Packets
