import RooTransport.Base.Varint
import RooTransport.Rpc.Header

/-!
# Headers on the wire

What `RpcHeader::serialize` writes is read back by `RpcHeader::deserialize`, and less than
that is rejected (`rpc/internal/header.cpp:63–110`). The laws of the readers and writers of
`roo_io` that this takes are stated here, and at the end some readers and writers that obey
them.
-/

namespace RooTransport.Rpc

open RooTransport.Base

/-- Some, but not all, of what was written. -/
def Truncated (bs written : List UInt8) : Prop := bs <+: written ∧ bs ≠ written

namespace RooIo

/-- Readers take back what the writers wrote, and no more of the input. -/
structure Inverse (io : RooIo) : Prop where
  readU8 (x : UInt8) (rest : List UInt8) : io.readU8 ⟨x :: rest, false⟩ = (x, ⟨rest, false⟩)
  readBeU24 (x : UInt32) (rest : List UInt8) : x.toNat < 2 ^ 24 →
    io.readBeU24 ⟨io.writeBeU24 x ++ rest, false⟩ = (x, ⟨rest, false⟩)
  readVarU32 (x : UInt32) (rest : List UInt8) :
    io.readVarU32 ⟨io.writeVarU64 x.toUInt64 ++ rest, false⟩ = (some x, ⟨rest, false⟩)

/-- Readers fail on exhausted input, and on an iterator that has failed already. -/
structure Exhausts (io : RooIo) : Prop where
  readU8 (it : MemoryIterator) : it.failed = true ∨ it.rest = [] →
    (io.readU8 it).2.failed = true
  readBeU24 (it : MemoryIterator) : it.failed = true ∨ (∃ x, Truncated it.rest (io.writeBeU24 x)) →
    (io.readBeU24 it).2.failed = true
  readVarU32 (it : MemoryIterator) :
    it.failed = true ∨ (∃ x : UInt32, Truncated it.rest (io.writeVarU64 x.toUInt64)) →
      (io.readVarU32 it).1 = none ∨ (io.readVarU32 it).2.failed = true

/-- Three bytes hold 24 bits, and ten groups of seven any 64. -/
structure Sized (io : RooIo) : Prop where
  writeBeU24 (x : UInt32) : (io.writeBeU24 x).length = 3
  writeVarU64 (x : UInt64) : (io.writeVarU64 x).length ≤ 10

/-- What headers rely on. -/
structure Lawful (io : RooIo) : Prop where
  inverse : io.Inverse
  exhausts : io.Exhausts
  sized : io.Sized

/-- Three bytes are read as 24 bits. -/
def Bounded (io : RooIo) : Prop := ∀ it, (io.readBeU24 it).1.toNat < 2 ^ 24

end RooIo

/-- What the accessors of the two headers give is the same. -/
structure RpcHeader.SameFields (h h' : RpcHeader) : Prop where
  type : h'.type = h.type
  firstMessage : h'.firstMessage = h.firstMessage
  lastMessage : h'.lastMessage = h.lastMessage
  hasTimeout : h'.hasTimeout = h.hasTimeout
  streamId : h'.streamId = h.streamId
  functionId : h'.getFunctionId = h.getFunctionId
  timeoutMs : h'.getTimeoutMs = h.getTimeoutMs
  responseStatus : h'.getResponseStatus = h.getResponseStatus

/-- The headers that `header.cpp:25–61` build, with a stream id that has 24 bits. -/
inductive RpcHeader.Unary : RpcHeader → Prop where
  | request (functionId : RpcFunctionId) (streamId : RpcStreamId) :
      streamId.toNat < 2 ^ 24 → Unary (newUnaryRequest functionId streamId)
  | requestWithTimeout (functionId : RpcFunctionId) (streamId : RpcStreamId) (timeoutMs : UInt32) :
      streamId.toNat < 2 ^ 24 → Unary (newUnaryRequestWithTimeout functionId streamId timeoutMs)
  | response (streamId : RpcStreamId) (status : RpcStatus) :
      streamId.toNat < 2 ^ 24 → Unary (newUnaryResponse streamId status)

private theorem Truncated.of_append {bs a b : List UInt8} (h : Truncated bs (a ++ b)) :
    Truncated bs a ∨ ∃ c, bs = a ++ c ∧ Truncated c b := by
  obtain ⟨hp, hne⟩ := h
  rcases List.prefix_or_prefix_of_prefix hp (List.prefix_append a b) with hba | ⟨c, rfl⟩
  · by_cases heq : bs = a
    · refine .inr ⟨[], by rw [heq, List.append_nil], List.nil_prefix, ?_⟩
      rintro rfl
      exact hne (by rw [heq, List.append_nil])
    · exact .inl ⟨hba, heq⟩
  · refine .inr ⟨c, rfl, (List.prefix_append_right_inj a).mp hp, ?_⟩
    rintro rfl
    exact hne rfl

namespace RooIo

variable {io : RooIo}

/-! ### Reading back -/

/-- `h0` with the flags and the stream id of `h`, as `deserialize` sets them first. -/
def flagged (h0 h : RpcHeader) : RpcHeader :=
  { h0 with
    type := h.type
    firstMessage := h.firstMessage
    lastMessage := h.lastMessage
    hasTimeout := h.hasTimeout
    streamId := h.streamId }

/-- `h0` with all that `deserialize` assigns when it reads back `h`. -/
def assigned (h0 h : RpcHeader) : RpcHeader :=
  if h.type = .request ∧ h.firstMessage = true then
    { flagged h0 h with
      functionId := h.functionId
      timeoutMs := if h.hasTimeout then h.timeoutMs else 0 }
  else if h.type = .response ∧ h.lastMessage = true then { flagged h0 h with status := h.status }
  else flagged h0 h

private theorem sameFields_assigned (h0 h : RpcHeader) : h.SameFields (assigned h0 h) := by
  unfold assigned
  by_cases hreq : h.type = .request ∧ h.firstMessage = true
  · rw [if_pos hreq]
    refine ⟨rfl, rfl, rfl, rfl, rfl, rfl, ?_, ?_⟩
    · by_cases htime : h.hasTimeout = true
      · simp [RpcHeader.getTimeoutMs, flagged, htime]
      · simp [RpcHeader.getTimeoutMs, flagged, htime]
    · simp [RpcHeader.getResponseStatus, flagged, hreq.1]
  · have htime : ¬ (h.type = .request ∧ h.firstMessage = true ∧ h.hasTimeout = true) :=
      fun hc ↦ hreq ⟨hc.1, hc.2.1⟩
    rw [if_neg hreq]
    split
    · refine ⟨rfl, rfl, rfl, rfl, rfl, ?_, ?_, rfl⟩
      · simp [RpcHeader.getFunctionId, flagged, hreq]
      · simp [RpcHeader.getTimeoutMs, flagged, htime]
    · next hres =>
      refine ⟨rfl, rfl, rfl, rfl, rfl, ?_, ?_, ?_⟩
      · simp [RpcHeader.getFunctionId, flagged, hreq]
      · simp [RpcHeader.getTimeoutMs, flagged, htime]
      · simp [RpcHeader.getResponseStatus, flagged, hres]

private theorem assigned_unset {h : RpcHeader} (hu : h.Unary) : assigned .unset h = h := by
  cases hu with
  | request => rfl
  | requestWithTimeout => rfl
  | response => rfl

private theorem readFields_fieldBytes (hi : io.Inverse) (h0 h : RpcHeader) (payload : List UInt8) :
    io.readFields (flagged h0 h) ⟨io.fieldBytes h ++ payload, false⟩ =
      (assigned h0 h, some ⟨payload, false⟩) := by
  unfold readFields fieldBytes assigned
  by_cases hreq : h.type = .request ∧ h.firstMessage = true
  · have hreq' : (flagged h0 h).type = .request ∧ (flagged h0 h).firstMessage = true := hreq
    rw [if_pos hreq, if_pos hreq', if_pos hreq, List.append_assoc, hi.readVarU32]
    dsimp only
    by_cases htime : h.hasTimeout = true
    · have htime' : (flagged h0 h).hasTimeout = true := htime
      rw [if_pos htime, if_pos htime', if_pos htime, hi.readVarU32]
    · have htime' : ¬ (flagged h0 h).hasTimeout = true := htime
      rw [if_neg htime, if_neg htime', if_neg htime, List.nil_append]
  · have hreq' : ¬ ((flagged h0 h).type = .request ∧ (flagged h0 h).firstMessage = true) := hreq
    rw [if_neg hreq, if_neg hreq', if_neg hreq]
    by_cases hres : h.type = .response ∧ h.lastMessage = true
    · have hres' : (flagged h0 h).type = .response ∧ (flagged h0 h).lastMessage = true := hres
      rw [if_pos hres, if_pos hres', if_pos hres, List.singleton_append, hi.readU8]
    · have hres' : ¬ ((flagged h0 h).type = .response ∧ (flagged h0 h).lastMessage = true) := hres
      rw [if_neg hres, if_neg hres', if_neg hres, List.nil_append]

private theorem deserialize_mask (hi : io.Inverse) (h0 : RpcHeader) {h : RpcHeader}
    (ht : h.type ≠ .unset) (bs : List UInt8) :
    io.deserialize h0 (h.mask :: bs) =
      match io.readBeU24 ⟨bs, false⟩ with
      | (streamId, it) => consumed (h.mask :: bs)
          (io.readFields (flagged h0 { h with streamId }) it) := by
  obtain ⟨hhigh, htype, hfirst, hlast, htime⟩ := RpcHeader.mask_flags h ht
  have hhigh' : ¬ h.mask &&& 0xF0 ≠ 0 := by simpa using hhigh
  rw [deserialize, hi.readU8]
  dsimp only
  rw [if_neg hhigh', htype, hfirst, hlast, htime]
  rfl

private theorem deserialize_append (hi : io.Inverse) (h0 : RpcHeader) {h : RpcHeader}
    (ht : h.type ≠ .unset) (hid : h.streamId.toNat < 2 ^ 24) (payload : List UInt8) :
    io.deserialize h0 (h.mask :: (io.writeBeU24 h.streamId ++ io.fieldBytes h) ++ payload) =
      (assigned h0 h, (h.mask :: (io.writeBeU24 h.streamId ++ io.fieldBytes h)).length) := by
  rw [List.cons_append, List.append_assoc, deserialize_mask hi h0 ht, hi.readBeU24 _ _ hid]
  dsimp only
  rw [readFields_fieldBytes hi h0 h payload]
  simp [consumed]
  omega

private theorem readFields_streamId (h : RpcHeader) (it : MemoryIterator) :
    (io.readFields h it).1.streamId = h.streamId := by
  unfold readFields
  split
  · split
    · rfl
    · split
      · split <;> rfl
      · rfl
  · split <;> rfl

private theorem consumed_fst (buffer : List UInt8) (r : RpcHeader × Option MemoryIterator) :
    (consumed buffer r).1 = r.1 := by
  rcases r with ⟨h, _ | it⟩
  · rfl
  · rw [consumed]
    split <;> rfl

/-- The stream id of a received header is one that `ReadBeU24` gave. -/
theorem streamId_of_readHeader {data payload : List UInt8} {header : RpcHeader}
    (h : io.readHeader data = some (header, payload)) :
    ∃ it, header.streamId = (io.readBeU24 it).1 := by
  unfold readHeader at h
  dsimp only at h
  split at h
  · cases h
  next hlen =>
  cases h
  unfold deserialize at hlen ⊢
  dsimp only at hlen ⊢
  split at hlen
  · exact absurd rfl hlen
  next hhigh =>
  rw [if_neg hhigh, consumed_fst, readFields_streamId]
  exact ⟨_, rfl⟩

/-! ### Truncated headers -/

/-- The parse has returned at once, or its iterator has failed. -/
def Invalid (r : RpcHeader × Option MemoryIterator) : Prop :=
  ∀ it, r.2 = some it → it.failed = true

private theorem consumed_invalid (buffer : List UInt8) {r : RpcHeader × Option MemoryIterator}
    (h : Invalid r) : (consumed buffer r).2 = 0 := by
  rcases r with ⟨h', _ | it⟩
  · rfl
  · rw [consumed, if_pos (h it rfl)]

/-- What follows the function id cannot make up for a failed iterator. -/
theorem readFields_functionId {h : RpcHeader} {it it' : MemoryIterator}
    {functionId : UInt32} (hreq : h.type = .request ∧ h.firstMessage = true)
    (hread : io.readVarU32 it = (some functionId, it'))
    (hplain : h.hasTimeout = false → it'.failed = true)
    (htime : h.hasTimeout = true →
      (io.readVarU32 it').1 = none ∨ (io.readVarU32 it').2.failed = true) :
    Invalid (io.readFields h it) := by
  intro it'' heq
  rw [readFields, if_pos hreq, hread] at heq
  dsimp only at heq
  cases ht : h.hasTimeout with
  | false =>
    rw [ht, if_neg (by decide)] at heq
    cases heq
    exact hplain ht
  | true =>
    rw [ht, if_pos rfl] at heq
    rcases htwo : io.readVarU32 it' with ⟨_ | timeoutMs, it2⟩
    · rw [htwo] at heq
      cases heq
    · rw [htwo] at heq
      cases heq
      have hor := htime ht
      rw [htwo] at hor
      rcases hor with hnone | hfailed
      · cases hnone
      · exact hfailed

/-- Nor can it where the function id itself could not be read. -/
theorem readFields_no_functionId (he : io.Exhausts) {h : RpcHeader} {it : MemoryIterator}
    (hreq : h.type = .request ∧ h.firstMessage = true)
    (hor : (io.readVarU32 it).1 = none ∨ (io.readVarU32 it).2.failed = true) :
    Invalid (io.readFields h it) := by
  rcases hread : io.readVarU32 it with ⟨_ | functionId, it'⟩
  · intro it'' heq
    rw [readFields, if_pos hreq, hread] at heq
    cases heq
  · rw [hread] at hor
    rcases hor with hnone | hfailed
    · cases hnone
    · apply readFields_functionId hreq hread
      · exact fun _ ↦ hfailed
      · exact fun _ ↦ he.readVarU32 it' (.inl hfailed)

/-- A failed iterator stays failed, so the header is invalid. -/
theorem readFields_failed (he : io.Exhausts) (h : RpcHeader) {it : MemoryIterator}
    (hf : it.failed = true) : Invalid (io.readFields h it) := by
  by_cases hreq : h.type = .request ∧ h.firstMessage = true
  · exact readFields_no_functionId he hreq (he.readVarU32 it (.inl hf))
  · intro it' heq
    rw [readFields, if_neg hreq] at heq
    split at heq
    · cases heq
      exact he.readU8 it (.inl hf)
    · cases heq
      exact hf

/-- So is a header whose fields are cut off. -/
theorem readFields_truncated (hi : io.Inverse) (he : io.Exhausts) (h0 : RpcHeader)
    {h : RpcHeader} {bs : List UInt8} (ht : Truncated bs (io.fieldBytes h)) :
    Invalid (io.readFields (flagged h0 h) ⟨bs, false⟩) := by
  rw [fieldBytes] at ht
  split at ht
  · next hreq =>
    rcases Truncated.of_append ht with hfun | ⟨c, rfl, htime⟩
    · exact readFields_no_functionId he hreq (he.readVarU32 _ (.inr ⟨_, hfun⟩))
    · split at htime
      · next hhas =>
        apply readFields_functionId (h := flagged h0 h) hreq (hi.readVarU32 _ _)
        · intro hno
          exact absurd (hhas.symm.trans hno) (by decide)
        · exact fun _ ↦ he.readVarU32 _ (.inr ⟨_, htime⟩)
      · exact absurd (List.prefix_nil.mp htime.1) htime.2
  · next hreq =>
    split at ht
    · next hres =>
      have hnil : bs = [] := by
        rcases List.prefix_cons_iff.mp ht.1 with hnil | ⟨c, rfl, hc⟩
        · exact hnil
        · exact absurd (by rw [List.prefix_nil.mp hc]) ht.2
      intro it' heq
      have hreq' : ¬ ((flagged h0 h).type = .request ∧ (flagged h0 h).firstMessage = true) := hreq
      have hres' : (flagged h0 h).type = .response ∧ (flagged h0 h).lastMessage = true := hres
      rw [readFields, if_neg hreq', if_pos hres'] at heq
      cases heq
      exact he.readU8 _ (.inr hnil)
    · exact absurd (List.prefix_nil.mp ht.1) ht.2

/-- A header that is cut off anywhere is reported as invalid. -/
theorem deserialize_truncated (hi : io.Inverse) (he : io.Exhausts) (h0 : RpcHeader)
    {h : RpcHeader} (ht : h.type ≠ .unset) (hid : h.streamId.toNat < 2 ^ 24) {bs : List UInt8}
    (hbs : Truncated bs (h.mask :: (io.writeBeU24 h.streamId ++ io.fieldBytes h))) :
    (io.deserialize h0 bs).2 = 0 := by
  rcases List.prefix_cons_iff.mp hbs.1 with rfl | ⟨c, rfl, hc⟩
  · -- Without a first byte the flags are whatever the failed read gave.
    rw [deserialize]
    dsimp only
    split
    · rfl
    · exact consumed_invalid _
        (readFields_failed he _ (he.readBeU24 _ (.inl (he.readU8 _ (.inr rfl)))))
  · have htrunc : Truncated c (io.writeBeU24 h.streamId ++ io.fieldBytes h) :=
      ⟨hc, fun heq ↦ hbs.2 (by rw [heq])⟩
    rw [deserialize_mask hi h0 ht]
    rcases Truncated.of_append htrunc with hstream | ⟨fields, rfl, hfields⟩
    · exact consumed_invalid _ (readFields_failed he _ (he.readBeU24 _ (.inr ⟨_, hstream⟩)))
    · rw [hi.readBeU24 _ _ hid]
      exact consumed_invalid _ (readFields_truncated hi he h0 hfields)

/-! ### Unary headers -/

private theorem length_fieldBytes (hs : io.Sized) (h : RpcHeader) :
    (io.fieldBytes h).length ≤ 20 := by
  have hf := hs.writeVarU64 h.functionId.toUInt64
  have ht := hs.writeVarU64 h.timeoutMs.toUInt64
  unfold fieldBytes
  split
  · split
    · rw [List.length_append]
      omega
    · rw [List.append_nil]
      omega
  · split <;> simp

private theorem length_header (hs : io.Sized) (h : RpcHeader) :
    (h.mask :: (io.writeBeU24 h.streamId ++ io.fieldBytes h)).length ≤
      RpcHeader.maxSerializedSize := by
  have hfields := length_fieldBytes hs h
  rw [List.length_cons, List.length_append, hs.writeBeU24, RpcHeader.maxSerializedSize]
  omega

/-- Every header fits its buffer. -/
theorem serialize_eq_ok (hs : io.Sized) (h : RpcHeader) :
    io.serialize h RpcHeader.maxSerializedSize =
      .ok (h.mask :: (io.writeBeU24 h.streamId ++ io.fieldBytes h)) :=
  if_neg (Nat.not_lt.mpr (length_header hs h))

private theorem Unary.wire {h : RpcHeader} (hu : h.Unary) :
    h.type ≠ .unset ∧ h.streamId.toNat < 2 ^ 24 := by
  cases hu with
  | request functionId streamId hid => exact ⟨by simp [RpcHeader.newUnaryRequest], hid⟩
  | requestWithTimeout functionId streamId timeoutMs hid =>
    exact ⟨by simp [RpcHeader.newUnaryRequestWithTimeout], hid⟩
  | response streamId status hid => exact ⟨by simp [RpcHeader.newUnaryResponse], hid⟩

/-- A unary header at the front of a message is received as it was written. -/
theorem readHeader_serialize (hio : io.Lawful) {h : RpcHeader} (hu : h.Unary)
    {bytes : List UInt8} (hs : io.serialize h RpcHeader.maxSerializedSize = .ok bytes)
    (payload : List UInt8) : io.readHeader (bytes ++ payload) = some (h, payload) := by
  obtain ⟨ht, hid⟩ := Unary.wire hu
  obtain rfl := Except.ok.inj ((serialize_eq_ok hio.sized h).symm.trans hs)
  rw [readHeader, deserialize_append hio.inverse _ ht hid, assigned_unset hu]
  dsimp only
  rw [if_neg (by simp), List.drop_left]

/-- A unary header fits its buffer, is read back from what was written with any payload after
it, by any header object, and is reported as invalid when it is cut off. -/
theorem unary_header_codec (hio : io.Lawful) {h : RpcHeader} (hu : h.Unary) :
    ∃ bytes, io.serialize h RpcHeader.maxSerializedSize = .ok bytes ∧
      bytes.length ≤ RpcHeader.maxSerializedSize ∧
      (∀ h0 payload, (io.deserialize h0 (bytes ++ payload)).2 = bytes.length ∧
        h.SameFields (io.deserialize h0 (bytes ++ payload)).1) ∧
      ∀ h0 bs, Truncated bs bytes → (io.deserialize h0 bs).2 = 0 := by
  obtain ⟨ht, hid⟩ := Unary.wire hu
  refine ⟨_, serialize_eq_ok hio.sized h, length_header hio.sized h, ?_, ?_⟩
  · intro h0 payload
    rw [deserialize_append hio.inverse h0 ht hid payload]
    exact ⟨rfl, sameFields_assigned h0 h⟩
  · intro h0 bs hbs
    exact deserialize_truncated hio.inverse hio.exhausts h0 ht hid hbs

/-! ### Groups of seven bits -/

/-- At most ten groups of seven bits; a value of more than 32 bits is rejected. -/
def readGroups (bs : List UInt8) : Option (UInt32 × List UInt8) :=
  match readVar 10 bs with
  | none => none
  | some (x, rest) => if x < 2 ^ 32 then some (UInt32.ofNat x, rest) else none

private theorem readGroups_varBytes (x : UInt32) (rest : List UInt8) :
    readGroups (varBytes 10 x.toNat ++ rest) = some (x, rest) := by
  have hx := x.toNat_lt
  rw [readGroups, readVar_varBytes 9 (hx.trans (by norm_num))]
  dsimp only
  rw [if_pos hx, UInt32.ofNat_toNat]

/-- Big-endian bytes and groups of seven bits. -/
def groups : RooIo where
  readU8
    | ⟨b :: rest, false⟩ => (b, ⟨rest, false⟩)
    | ⟨bs, _⟩ => (0, ⟨bs, true⟩)
  readBeU24
    | ⟨b0 :: b1 :: b2 :: rest, false⟩ => (UInt32.ofNat (beNat [b0, b1, b2]), ⟨rest, false⟩)
    | ⟨bs, _⟩ => (0, ⟨bs, true⟩)
  readVarU32
    | ⟨bs, false⟩ =>
      match readGroups bs with
      | some (x, rest) => (some x, ⟨rest, false⟩)
      | none => (none, ⟨bs, true⟩)
    | ⟨bs, true⟩ => (none, ⟨bs, true⟩)
  writeBeU24 x := beBytes 3 x.toNat
  writeVarU64 x := varBytes 10 x.toNat

private theorem groups_readBeU24 (x : UInt32) (rest : List UInt8) (hx : x.toNat < 2 ^ 24) :
    groups.readBeU24 ⟨beBytes 3 x.toNat ++ rest, false⟩ = (x, ⟨rest, false⟩) := by
  obtain ⟨b0, b1, b2, hb⟩ := List.length_eq_three.mp (length_beBytes 3 x.toNat)
  have hval : UInt32.ofNat (beNat (beBytes 3 x.toNat)) = x := by
    rw [beNat_beBytes, Nat.mod_eq_of_lt (by simpa using hx), UInt32.ofNat_toNat]
  rw [hb] at hval ⊢
  exact congrArg (fun y ↦ (y, _)) hval

private theorem groups_readVarU32 (x : UInt32) (rest : List UInt8) :
    groups.readVarU32 ⟨varBytes 10 x.toUInt64.toNat ++ rest, false⟩ = (some x, ⟨rest, false⟩) := by
  have hread := readGroups_varBytes x rest
  rw [← UInt32.toNat_toUInt64] at hread
  simp only [groups, hread]

/-- They take back what they write, and reject less. -/
theorem lawful_groups : groups.Lawful := by
  refine ⟨⟨fun _ _ ↦ rfl, groups_readBeU24, groups_readVarU32⟩, ⟨?_, ?_, ?_⟩, ⟨?_, ?_⟩⟩
  · rintro ⟨bs, failed⟩ (hf | hnil)
    · cases hf
      simp [groups]
    · cases hnil
      rfl
  · rintro ⟨bs, failed⟩ (hf | ⟨x, hp, hne⟩)
    · cases hf
      simp [groups]
    · -- Three bytes would be all that was written.
      match bs, failed with
      | [], _ | [_], _ | [_, _], _ => rfl
      | b0 :: b1 :: b2 :: rest, _ =>
        have hlen := hp.length_le
        have hlt : (b0 :: b1 :: b2 :: rest).length ≠ (beBytes 3 x.toNat).length :=
          fun heq ↦ hne (hp.eq_of_length heq)
        simp only [groups, length_beBytes, List.length_cons] at hlen hlt
        omega
  · rintro ⟨bs, failed⟩ (hf | ⟨x, hp, hne⟩)
    · cases hf
      exact .inl rfl
    · cases failed with
      | true => exact .inl rfl
      | false =>
        have hnone : readGroups bs = none := by
          rw [readGroups, readVar_truncated 10 hp hne]
        exact .inl (by simp only [groups, hnone])
  · exact fun x ↦ length_beBytes 3 x.toNat
  · exact fun x ↦ length_varBytes_le 10 (x.toNat_lt.trans (by norm_num)) (by norm_num)

/-- Three of their bytes are less than `2 ^ 24`. -/
theorem bounded_groups : groups.Bounded := by
  rintro ⟨bs, failed⟩
  match bs, failed with
  | b0 :: b1 :: b2 :: rest, false =>
    have hlt : beNat [b0, b1, b2] < 2 ^ 24 := (beNat_lt _).trans_eq (by norm_num)
    change (UInt32.ofNat (beNat [b0, b1, b2])).toNat < 2 ^ 24
    rw [UInt32.toNat_ofNat', Nat.mod_eq_of_lt (hlt.trans (by norm_num))]
    exact hlt
  | _ :: _ :: _ :: _, true | [], _ | [_], _ | [_, _], _ => exact Nat.two_pow_pos 24

/-- A request for function 300 on stream 7 that may take a second. -/
theorem unary_header_codec_timed :
    let h := RpcHeader.newUnaryRequestWithTimeout 300 7 1000
    let bytes : List UInt8 := [0x0F, 0, 0, 7, 0xAC, 0x02, 0xE8, 0x07]
    groups.Lawful ∧ h.Unary ∧ groups.serialize h RpcHeader.maxSerializedSize = .ok bytes ∧
      (∀ h0 payload, (groups.deserialize h0 (bytes ++ payload)).2 = bytes.length ∧
        h.SameFields (groups.deserialize h0 (bytes ++ payload)).1) ∧
      ∀ h0 bs, Truncated bs bytes → (groups.deserialize h0 bs).2 = 0 := by
  intro h bytes
  have hu : h.Unary := .requestWithTimeout 300 7 1000 (by decide)
  have hbytes : groups.serialize h RpcHeader.maxSerializedSize = .ok bytes := by decide
  obtain ⟨written, hwritten, -, hread, htrunc⟩ := unary_header_codec lawful_groups hu
  cases hbytes.symm.trans hwritten
  exact ⟨lawful_groups, hu, hbytes, hread, htrunc⟩

end RooIo

end RooTransport.Rpc
