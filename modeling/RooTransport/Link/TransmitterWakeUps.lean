import RooTransport.Link.ThreadSafeTransmitter
import RooTransport.Link.TransmitterStream

/-!
# Waking writers and closers

A writer waits on `has_space_` while `tryWrite` takes nothing and its stream is in use, a
closer on `all_acked_` while data is pending and its stream is in use
(`thread_safe_transmitter.cpp:24–82`). Every method says which of the two it notifies, in
`thread_safe_transmitter.h:62–101` and `thread_safe_transmitter.cpp:91–132`. A waiting
thread looks again only when notified, so a change that lets it go on has to be announced.
-/

namespace RooTransport.Link

open RooTransport.Base RingBuffer

namespace ThreadSafeTransmitter

variable {n : LinkBufferSize}

/-- The condition variables an operation notifies. -/
structure Notified where
  hasSpace : Bool
  allAcked : Bool
  deriving DecidableEq, Repr

/-- The methods that change the transmitter. `close` runs up to its first wait. -/
inductive Op where
  | setConnected (peerReceiveBufferSize : Nat) (controlBit : Bool)
  | setBroken
  | reset
  | init (myStreamId : UInt32) (newStart : SeqNum)
  | ack (controlBit : Bool) (seqId : BitVec 16) (ackBitmap : List UInt8)
  | updateRecvHimark (controlBit : Bool) (recvHimark : BitVec 16)
  | send (now : Uptime) (draw nextSendMicros : Nat)
  | tryWrite (buf : List UInt8) (myStreamId : UInt32)
  | flush (myStreamId : UInt32)
  | close (myStreamId : UInt32)
  deriving DecidableEq, Repr

/-- One method, with what it notifies. -/
def perform (t : Transmitter n) : Op → Except Check (Transmitter n × Notified)
  | .setConnected size bit => .ok (t.setConnected size bit, ⟨false, false⟩)
  | .setBroken => t.setBroken.map fun t' ↦ (t', ⟨true, true⟩)
  | .reset => t.reset.map fun t' ↦ (t', ⟨false, true⟩)
  | .init id start => (t.init id start).map fun t' ↦ (t', ⟨false, true⟩)
  | .ack bit seqId bitmap => (t.ack bit seqId bitmap).map fun (t', _) ↦
      (t', ⟨decide (t.availableForWrite < t'.availableForWrite), !t'.hasPendingData⟩)
  | .updateRecvHimark bit himark =>
    .ok ((t.updateRecvHimark bit himark).1, ⟨(t.updateRecvHimark bit himark).2, false⟩)
  | .send now draw next => .ok ((t.getBufferToSend now draw next).1, ⟨false, false⟩)
  | .tryWrite buf id => (ThreadSafeTransmitter.tryWrite t buf id false).map fun (t', _) ↦
      (t', ⟨false, false⟩)
  | .flush id => .ok ((ThreadSafeTransmitter.flush t id false).1, ⟨false, false⟩)
  | .close id => (ThreadSafeTransmitter.close t id false).map fun (t', _) ↦ (t', ⟨false, false⟩)

/-- `write` would wait: nothing is taken, and the stream is in use. -/
def WriteWaits (t : Transmitter n) (id : UInt32) (buf : List UInt8) : Prop :=
  checkConnectionStatus t id = .ok ∧ ∃ t' ready, t.tryWrite buf = .ok (t', 0, ready)

/-- `write` would return: something is taken, or the stream is no longer in use. -/
def WriteReturns (t : Transmitter n) (id : UInt32) (buf : List UInt8) : Prop :=
  checkConnectionStatus t id ≠ .ok ∨
    ∃ t' written ready, t.tryWrite buf = .ok (t', written, ready) ∧ 0 < written

/-- The wait condition of `close`. -/
def CloseWaits (t : Transmitter n) (id : UInt32) : Prop :=
  t.hasPendingData = true ∧ checkConnectionStatus t id = .ok

instance (t : Transmitter n) (id : UInt32) : Decidable (CloseWaits t id) :=
  inferInstanceAs (Decidable (_ ∧ _))

/-- Whoever waited and may go on after the operation is notified. -/
def Announces (t : Transmitter n) (op : Op) : Prop :=
  ∀ t' notified, perform t op = .ok (t', notified) → ∀ id,
    (∀ buf, buf ≠ [] → WriteWaits t id buf → WriteReturns t' id buf → notified.hasSpace = true) ∧
    (CloseWaits t id → ¬ CloseWaits t' id → notified.allAcked = true)

end ThreadSafeTransmitter

/-! ### When nothing is taken -/

namespace Transmitter

variable {n : LinkBufferSize} {t t' : Transmitter n}

/-- No open buffer, and no credit or no slot for another. -/
def Saturated (t : Transmitter n) : Prop :=
  t.recvHimark.Ge t.outRing.end_ ∧
    (∀ i ∈ t.currentOutBuffer, (t.outBuffers i).finished = true) ∧
    (t.recvHimark = t.outRing.end_ ∨ t.outRing.slotsFree = 0)

instance (t : Transmitter n) : Decidable t.Saturated := inferInstanceAs (Decidable (_ ∧ _ ∧ _))

private theorem fill_finished {i : Fin (2 ^ n.val)} (hf : (t.outBuffers i).finished = true)
    (buf : List UInt8) :
    t.fill i buf = .ok ({ t with currentOutBuffer := none }, 0, true) := by
  rw [fill, OutBuffer.write, if_pos hf]
  simp only [Function.update_eq_self, hf, if_true]

private theorem tryWriteLoop_release {i : Fin (2 ^ n.val)} {buf : List UInt8}
    (hge : t.recvHimark.Ge t.outRing.end_) (hcur : t.currentOutBuffer = some i)
    (hf : (t.outBuffers i).finished = true) (hlen : 0 < buf.length) (fuel : Nat) :
    tryWriteLoop (fuel + 1) t buf = (tryWriteLoop fuel { t with currentOutBuffer := none } buf).map
      fun (t', more, _) ↦ (t', more, true) := by
  have hprov : t.provideBuffer = .ok (some (i, t)) := by
    rw [provideBuffer, if_neg (not_not.mpr hge), hcur]
  rw [tryWriteLoop, hprov]
  simp only [fill_finished hf, hlen, if_true, List.drop_zero]
  cases tryWriteLoop fuel { t with currentOutBuffer := none } buf with
  | error c => rfl
  | ok out => simp [Except.map]

private theorem provideBuffer_saturated (h : t.Saturated) (hcur : t.currentOutBuffer = none) :
    t.provideBuffer = .ok none := by
  rw [provideBuffer, if_neg (not_not.mpr h.1), hcur]
  dsimp only
  rcases h.2.2 with hcredit | hfree
  · rw [if_pos hcredit]
  · rw [if_pos hfree, ite_self]

private theorem tryWrite_open (ho : t.Open) {buf : List UInt8} (hne : buf ≠ []) :
    t.tryWrite buf = tryWriteLoop (buf.length + 1) t buf := by
  rw [tryWrite, if_neg (by simpa using hne), if_neg (by simp [ho.1]), if_neg (by simp [ho.2])]

/-- A saturated transmitter takes nothing. -/
theorem tryWrite_saturated (ho : t.Open) (h : t.Saturated) {buf : List UInt8} (hne : buf ≠ []) :
    ∃ ready, t.tryWrite buf = .ok ({ t with currentOutBuffer := none }, 0, ready) := by
  have hlen : 0 < buf.length := List.length_pos_iff.mpr hne
  rw [tryWrite_open ho hne]
  cases hcur : t.currentOutBuffer with
  | none =>
    rw [tryWriteLoop, provideBuffer_saturated h hcur, ← hcur]
    exact ⟨false, rfl⟩
  | some i =>
    have hsat : { t with currentOutBuffer := none }.Saturated :=
      ⟨h.1, by simp, h.2.2⟩
    obtain ⟨k, hk⟩ : ∃ k, buf.length = k + 1 := ⟨buf.length - 1, by omega⟩
    rw [tryWriteLoop_release h.1 hcur (h.2.1 i hcur) hlen, hk, tryWriteLoop,
      provideBuffer_saturated hsat rfl]
    exact ⟨true, rfl⟩

private theorem fill_open {i : Fin (2 ^ n.val)} {buf : List UInt8} {written : Nat} {ready : Bool}
    (hne : buf ≠ []) (hf : (t.outBuffers i).finished = false)
    (h : t.fill i buf = .ok (t', written, ready)) : 0 < written := by
  unfold fill at h
  cases hw : (t.outBuffers i).write buf with
  | error c => rw [hw] at h; cases h
  | ok out =>
    rw [hw] at h
    cases h
    rcases OutBuffer.write_cases hne hw with ⟨hfin, -, -⟩ | ⟨-, hpos, -⟩
    · exact absurd (hf.symm.trans hfin) (by decide)
    · exact hpos

/-- One round takes something unless it finds no buffer to write to, or a finished one. -/
theorem tryWriteLoop_pos {fuel : Nat} {i : Fin (2 ^ n.val)} {t1 : Transmitter n}
    {buf : List UInt8} {written : Nat} {ready : Bool} (hne : buf ≠ [])
    (hp : t.provideBuffer = .ok (some (i, t1))) (hf : (t1.outBuffers i).finished = false)
    (h : tryWriteLoop (fuel + 1) t buf = .ok (t', written, ready)) : 0 < written := by
  rw [tryWriteLoop, hp] at h
  dsimp only at h
  cases hfill : t1.fill i buf with
  | error c => rw [hfill] at h; cases h
  | ok out =>
    obtain ⟨t2, taken, full⟩ := out
    have htaken := fill_open hne hf hfill
    rw [hfill] at h
    dsimp only at h
    split at h
    · split at h
      · cases h
      · cases h
        omega
    · cases h
      exact htaken

private theorem provideBuffer_fresh (hge : t.recvHimark.Ge t.outRing.end_)
    (hcur : t.currentOutBuffer = none) (hcredit : t.recvHimark ≠ t.outRing.end_)
    (hfree : t.outRing.slotsFree ≠ 0) :
    ∃ i t1, t.provideBuffer = .ok (some (i, t1)) ∧
      t1.outBuffers i = OutBuffer.init t.outRing.end_ t.controlBit := by
  obtain ⟨b, e, hs⟩ := t.outRing.exists_spans
  have hroom := hs.slotsFree_eq
  obtain ⟨ring, hp, -⟩ := hs.push_ok (by omega)
  rw [provideBuffer, if_neg (not_not.mpr hge), hcur]
  dsimp only
  rw [if_neg hcredit, if_neg hfree, hp]
  exact ⟨_, _, rfl, by rw [hs.end_eq]; exact Function.update_self ..⟩

/-- Any other transmitter takes something, if it fails no check. -/
theorem tryWrite_not_saturated {buf : List UInt8} {written : Nat} {ready : Bool} (ho : t.Open)
    (hns : ¬ t.Saturated) (hne : buf ≠ []) (h : t.tryWrite buf = .ok (t', written, ready)) :
    0 < written := by
  have hlen : 0 < buf.length := List.length_pos_iff.mpr hne
  rw [tryWrite_open ho hne] at h
  by_cases hge : t.recvHimark.Ge t.outRing.end_
  swap
  · rw [tryWriteLoop, provideBuffer, if_pos hge] at h
    cases h
  by_cases hcur : ∃ i, t.currentOutBuffer = some i ∧ (t.outBuffers i).finished = false
  · obtain ⟨i, hcur, hf⟩ := hcur
    have hprov : t.provideBuffer = .ok (some (i, t)) := by
      rw [provideBuffer, if_neg (not_not.mpr hge), hcur]
    exact tryWriteLoop_pos hne hprov hf h
  have hfin (i : Fin (2 ^ n.val)) (hi : t.currentOutBuffer = some i) :
      (t.outBuffers i).finished = true := by
    by_contra hf
    exact hcur ⟨i, hi, by simpa using hf⟩
  have hmore : t.recvHimark ≠ t.outRing.end_ ∧ t.outRing.slotsFree ≠ 0 := by
    rw [← not_or]
    exact fun hstop ↦ hns ⟨hge, hfin, hstop⟩
  cases hi : t.currentOutBuffer with
  | none =>
    obtain ⟨j, t1, hp, hinit⟩ := provideBuffer_fresh hge hi hmore.1 hmore.2
    exact tryWriteLoop_pos hne hp (by rw [hinit]; rfl) h
  | some i =>
    obtain ⟨k, hk⟩ : ∃ k, buf.length = k + 1 := ⟨buf.length - 1, by omega⟩
    obtain ⟨j, t1, hp, hinit⟩ := provideBuffer_fresh
      (t := { t with currentOutBuffer := none }) hge rfl hmore.1 hmore.2
    rw [tryWriteLoop_release hge hi (hfin i hi) hlen, hk] at h
    obtain ⟨⟨t2, more, ready'⟩, hloop, heq⟩ := map_eq_ok.mp h
    cases heq
    exact tryWriteLoop_pos hne hp (by rw [hinit]; rfl) hloop

/-- Bytes are taken only from an open stream with room. -/
theorem tryWrite_pos {buf : List UInt8} {written : Nat} {ready : Bool}
    (h : t.tryWrite buf = .ok (t', written, ready)) (hpos : 0 < written) :
    t.Open ∧ t.recvHimark.Ge t.outRing.end_ ∧ ¬ t.Saturated := by
  have hne : buf ≠ [] := by
    rintro rfl
    cases h
    exact lt_irrefl 0 hpos
  have ho : t.Open := by
    by_contra hno
    rw [tryWrite_of_not_open hno] at h
    cases h
    exact lt_irrefl 0 hpos
  refine ⟨ho, ?_, fun hsat ↦ ?_⟩
  · by_contra hge
    rw [tryWrite_open ho hne, tryWriteLoop, provideBuffer, if_pos hge] at h
    cases h
  · obtain ⟨ready', hw⟩ := tryWrite_saturated ho hsat hne
    rw [hw] at h
    cases h
    exact lt_irrefl 0 hpos

private theorem tryWriteLoop_byte (hcur : t.currentOutBuffer = none)
    (hcredit : t.recvHimark.Gt t.outRing.end_) (hfree : t.outRing.slotsFree ≠ 0) (byte : UInt8)
    (fuel : Nat) : ∃ t' ready, tryWriteLoop (fuel + 1) t [byte] = .ok (t', 1, ready) := by
  obtain ⟨hge, hne⟩ := SeqNum.gt_iff.mp hcredit
  obtain ⟨i, t1, hp, hinit⟩ := provideBuffer_fresh hge hcur hne hfree
  rw [tryWriteLoop, hp]
  simp only [fill, hinit]
  exact ⟨_, _, rfl⟩

/-- With credit and a slot to spare, one byte is taken. -/
theorem tryWrite_byte (ho : t.Open)
    (hcur : ∀ i ∈ t.currentOutBuffer, (t.outBuffers i).finished = true)
    (hcredit : t.recvHimark.Gt t.outRing.end_) (hfree : t.outRing.slotsFree ≠ 0) (byte : UInt8) :
    ∃ t' ready, t.tryWrite [byte] = .ok (t', 1, ready) := by
  rw [tryWrite_open ho (by simp)]
  cases hi : t.currentOutBuffer with
  | none => exact tryWriteLoop_byte hi hcredit hfree byte _
  | some i =>
    obtain ⟨t', ready, hloop⟩ := tryWriteLoop_byte (t := { t with currentOutBuffer := none }) rfl
      hcredit hfree byte 0
    refine ⟨t', true, ?_⟩
    rw [tryWriteLoop_release (le_of_lt hcredit) hi (hcur i hi) (by simp)]
    exact map_eq_ok.mpr ⟨_, hloop, rfl⟩

end Transmitter

namespace ThreadSafeTransmitter

variable {n : LinkBufferSize} {t t' : Transmitter n} {id : UInt32} {buf : List UInt8}

/-- Writers of the current stream wait. -/
def Blocked (t : Transmitter n) : Prop := Alive t ∧ (t.endOfStream = true ∨ t.Saturated)

instance (t : Transmitter n) : Decidable (Alive t) := inferInstanceAs (Decidable (_ ∨ _))

instance (t : Transmitter n) : Decidable (Blocked t) := inferInstanceAs (Decidable (_ ∧ (_ ∨ _)))

private theorem open_of_alive (ha : Alive t) (heos : t.endOfStream = false) : t.Open := by
  rcases ha with ha | ha <;> simp [Transmitter.Open, ha, heos]

/-- A write waits while the stream is blocked and is still the caller's. -/
theorem writeWaits_iff (hne : buf ≠ []) :
    WriteWaits t id buf ↔ Blocked t ∧ id = t.myStreamId := by
  rw [WriteWaits, checkConnectionStatus_eq_ok]
  constructor
  · rintro ⟨⟨ha, hid⟩, t', ready, hw⟩
    refine ⟨⟨ha, ?_⟩, hid⟩
    by_contra hfree
    rw [not_or, Bool.not_eq_true] at hfree
    have := Transmitter.tryWrite_not_saturated (open_of_alive ha hfree.1) hfree.2 hne hw
    omega
  · rintro ⟨⟨ha, hfull⟩, hid⟩
    refine ⟨⟨ha, hid⟩, ?_⟩
    by_cases heos : t.endOfStream = true
    · exact ⟨t, false, Transmitter.tryWrite_of_not_open (fun ho ↦ by simp [ho.1] at heos) buf⟩
    · have ho := open_of_alive ha (by simpa using heos)
      obtain ⟨ready, hw⟩ := Transmitter.tryWrite_saturated ho (hfull.resolve_left heos) hne
      exact ⟨_, ready, hw⟩

/-- A write that returns found its stream gone, or room for a byte. -/
theorem WriteReturns.not_saturated (h : WriteReturns t id buf) (ha : Alive t)
    (hid : id = t.myStreamId) :
    t.endOfStream = false ∧ t.recvHimark.Ge t.outRing.end_ ∧ ¬ t.Saturated := by
  rcases h with hgone | ⟨t1, written, ready, hw, hpos⟩
  · exact absurd (checkConnectionStatus_eq_ok.mpr ⟨ha, hid⟩) hgone
  · obtain ⟨ho, hge, hns⟩ := Transmitter.tryWrite_pos hw hpos
    exact ⟨ho.1, hge, hns⟩

/-- Whoever waited is notified or waits on: the stream is the same, and a writer finds no room
in it, a closer data pending. -/
structure Heeds (t t' : Transmitter n) (notified : Notified) : Prop where
  writers : Blocked t → notified.hasSpace = true ∨ Alive t' ∧ t'.myStreamId = t.myStreamId ∧
    (t'.endOfStream = false → t'.recvHimark.Ge t'.outRing.end_ → t'.Saturated)
  closers : Alive t → t.hasPendingData = true → notified.allAcked = true ∨
    Alive t' ∧ t'.myStreamId = t.myStreamId ∧ t'.hasPendingData = true

private theorem Heeds.refl (t : Transmitter n) (notified : Notified) : Heeds t t notified where
  writers hb := .inr ⟨hb.1, rfl, fun heos _ ↦ hb.2.resolve_left (by simp [heos])⟩
  closers ha hp := .inr ⟨ha, rfl, hp⟩

private theorem announces_of_heeds {op : Op}
    (h : ∀ t' notified, perform t op = .ok (t', notified) → Heeds t t' notified) :
    Announces t op := by
  intro t' notified hop id
  have hheeds := h t' notified hop
  constructor
  · intro buf hne hw hr
    obtain ⟨hb, hid⟩ := (writeWaits_iff hne).mp hw
    refine (hheeds.writers hb).resolve_right ?_
    rintro ⟨ha, hid', hfull⟩
    obtain ⟨heos, hge, hns⟩ := hr.not_saturated ha (hid.trans hid'.symm)
    exact hns (hfull heos hge)
  · intro hc hc'
    obtain ⟨ha, hid⟩ := checkConnectionStatus_eq_ok.mp hc.2
    refine (hheeds.closers ha hc.1).resolve_right ?_
    rintro ⟨ha', hid', hp⟩
    exact hc' ⟨hp, checkConnectionStatus_eq_ok.mpr ⟨ha', hid.trans hid'.symm⟩⟩

/-! ### The operations -/

/-- The operations that let a writer go on without telling it: a connection made while there is
room, a reset, a new stream, and the acknowledgement that ends a closed stream. -/
def Strands (t : Transmitter n) : Op → Prop
  | .setConnected size _ => Blocked t ∧ t.endOfStream = false ∧ t.outRing.slotsFree ≠ 0 ∧
      (t.outRing.begin_.add size).Gt t.outRing.end_
  | .reset => Blocked t
  | .init id _ => Blocked t ∧ id ≠ t.myStreamId
  | .ack bit seqId _ => t.state = .connected ∧ bit ≠ t.controlBit ∧ t.endOfStream = true ∧
      ¬ (t.outRing.restorePosHighBits seqId 12).Gt t.outRing.end_ ∧
      (t.outRing.empty = true ∨
        t.hasPendingEof = false ∧ t.outRing.restorePosHighBits seqId 12 = t.outRing.end_)
  | _ => False

instance (t : Transmitter n) : (op : Op) → Decidable (Strands t op)
  | .setConnected .. => inferInstanceAs (Decidable (_ ∧ _ ∧ _ ∧ _))
  | .reset => inferInstanceAs (Decidable (Blocked t))
  | .init .. => inferInstanceAs (Decidable (_ ∧ _))
  | .ack .. => inferInstanceAs (Decidable (_ ∧ _ ∧ _ ∧ _ ∧ (_ ∨ _ ∧ _)))
  | .setBroken | .updateRecvHimark .. | .send .. | .tryWrite .. | .flush .. | .close .. =>
    inferInstanceAs (Decidable False)

-- What is only added to stays pending.
private theorem pending_of_path {b e e' : Int} {effs : List Effect} (hs : t.outRing.Spans b e)
    (hp : Path Transmitter.Moves (t, b, e) effs (t', b, e')) (h : t.hasPendingData = true) :
    t'.hasPendingData = true := by
  have hmono := (Transmitter.path_mono hp hs).2
  simp only [Transmitter.hasPendingData, Bool.not_eq_true', hs.empty_eq_false,
    (Transmitter.path_spans hp hs).empty_eq_false] at h ⊢
  omega

-- Packets that are only finished and sent make no room.
private theorem heeds_of_sameStream {notified : Notified} (h : Transmitter.SameStream t t')
    (hf : ∀ i, (t.outBuffers i).finished = true → (t'.outBuffers i).finished = true) :
    Heeds t t' notified where
  writers hb := by
    refine .inr ⟨(alive_congr h.state).mpr hb.1, h.myStreamId, fun heos hge ↦ ?_⟩
    have hsat := hb.2.resolve_left (by simp [← h.endOfStream, heos])
    refine ⟨hge, fun i hi ↦ ?_, ?_⟩
    · rw [h.currentOutBuffer] at hi
      exact hf i (hsat.2.1 i hi)
    · rw [h.recvHimark, h.outRing]
      exact hsat.2.2
  closers ha hp := by
    refine .inr ⟨(alive_congr h.state).mpr ha, h.myStreamId, ?_⟩
    rwa [Transmitter.hasPendingData, h.outRing]

private theorem setConnected_heeds {size : Nat} {bit : Bool} {notified : Notified}
    (hns : ¬ Strands t (.setConnected size bit)) : Heeds t (t.setConnected size bit) notified where
  writers hb := by
    refine .inr ⟨.inl rfl, rfl, fun heos hge ↦ ?_⟩
    have hsat := hb.2.resolve_left (by simp [show t.endOfStream = false from heos])
    refine ⟨hge, hsat.2.1, ?_⟩
    by_contra hroom
    rw [not_or] at hroom
    exact hns ⟨hb, heos, hroom.2, SeqNum.gt_iff.mpr ⟨hge, hroom.1⟩⟩
  closers _ hp := .inr ⟨.inl rfl, rfl, hp⟩

private theorem init_heeds {newId : UInt32} {start : SeqNum} {notified : Notified}
    (hns : ¬ Strands t (.init newId start)) (ht : t.init newId start = .ok t')
    (hack : notified.allAcked = true) : Heeds t t' notified where
  writers hb := by
    have hid : newId = t.myStreamId := by
      by_contra hne
      exact hns ⟨hb, hne⟩
    rw [Transmitter.init_ok] at ht
    cases ht
    exact .inr ⟨.inr rfl, hid, fun _ hge ↦ ⟨hge, by simp, .inl rfl⟩⟩
  closers _ _ := .inl hack

private theorem updateRecvHimark_heeds (bit : Bool) (himark : BitVec 16) :
    Heeds t (t.updateRecvHimark bit himark).1 ⟨(t.updateRecvHimark bit himark).2, false⟩ := by
  unfold Transmitter.updateRecvHimark
  split
  · exact .refl t _
  split
  · exact .refl t _
  dsimp only
  split
  · exact .refl t _
  · exact ⟨fun _ ↦ .inl rfl, fun ha hp ↦ .inr ⟨ha, rfl, hp⟩⟩

private theorem sending_heeds {b e : Int} {out : Option SeqNum} {notified : Notified}
    (h : Transmitter.Sending t b e t' out) : Heeds t t' notified := by
  refine heeds_of_sameStream h.sameStream fun i hf ↦ ?_
  have hfinish {effs : List Effect} (hk : ∀ eff ∈ effs, ∃ p, eff = .finish p) :
      ∀ eff ∈ effs, ∀ p, eff ≠ .alloc p := by
    intro eff heff p
    obtain ⟨q, rfl⟩ := hk eff heff
    simp
  cases h with
  | idle effs hpath hk => exact Transmitter.path_finished hpath (hfinish hk) hf
  | sent effs fast hpath hk hm =>
    exact hm.finished (by simp) (Transmitter.path_finished hpath (hfinish hk) hf)
  | stray _ _ hm => exact hm.finished (by simp) hf

private theorem tryWrite_heeds {written : Nat} {ready : Bool} {notified : Notified}
    (h : t.tryWrite buf = .ok (t', written, ready)) : Heeds t t' notified where
  writers hb := by
    have hphase := Transmitter.tryWrite_samePhase h
    refine .inr ⟨(alive_congr hphase.state).mpr hb.1, hphase.myStreamId, fun heos hge ↦ ?_⟩
    rw [hphase.endOfStream] at heos
    have hsat := hb.2.resolve_left (by simp [heos])
    by_cases hnil : buf = []
    · cases hnil
      cases h
      exact hsat
    · obtain ⟨ready', hw⟩ :=
        Transmitter.tryWrite_saturated (open_of_alive hb.1 heos) hsat hnil
      rw [hw] at h
      cases h
      exact ⟨hge, by simp, hsat.2.2⟩
  closers ha hp := by
    have hphase := Transmitter.tryWrite_samePhase h
    obtain ⟨b, e, hs⟩ := t.outRing.exists_spans
    obtain ⟨-, effs, e', hpath, -, -⟩ := Transmitter.tryWrite_path hs h
    refine .inr ⟨(alive_congr hphase.state).mpr ha, hphase.myStreamId, ?_⟩
    exact pending_of_path hs hpath hp

private theorem close_heeds {notified : Notified} (ha : Alive t) (h : t.close = .ok t') :
    Heeds t t' notified := by
  obtain ⟨b, e, hs⟩ := t.outRing.exists_spans
  obtain ⟨t1, effs, e', hc, hpath, hopen, hshut, -⟩ := Transmitter.close_path hs
  obtain rfl : t1 = t' := Except.ok.inj (hc.symm.trans h)
  by_cases ho : t.Open
  · obtain ⟨heos, -, hst, hid⟩ := hopen ho
    have ha' := (alive_congr hst).mpr ha
    exact ⟨fun _ ↦ .inr ⟨ha', hid, fun hno ↦ absurd (heos.symm.trans hno) (by simp)⟩,
      fun _ hp ↦ .inr ⟨ha', hid, pending_of_path hs hpath hp⟩⟩
  · obtain ⟨rfl, -⟩ := hshut ho (by rcases ha with ha | ha <;> simp [ha])
    exact .refl _ _

private theorem flush_heeds {notified : Notified} : Heeds t t.flush.1 notified := by
  refine heeds_of_sameStream (Transmitter.flush_sameStream t) fun i hf ↦ ?_
  obtain ⟨effs, hpath, hk⟩ := Transmitter.flush_path t 0 0
  refine Transmitter.path_finished hpath (fun eff heff p hp ↦ ?_) hf
  exact absurd (hp ▸ hk eff heff) (by simp)

-- What an acknowledgement that leaves the stream connected does not touch.
private theorem acked_same {b e b' e' q first : Int} {bits : List Bool} {effs : List Effect}
    (hp : Path Transmitter.Moves (t, b, e) effs (t', b', e'))
    (hk : ∀ eff ∈ effs, eff.AckedBy q first bits) (hst : t'.state = .connected) :
    t'.myStreamId = t.myStreamId ∧ t'.recvHimark = t.recvHimark ∧
      t'.currentOutBuffer = t.currentOutBuffer := by
  refine hp.invariant (fun x ↦ x.1.state = .connected → x.1.myStreamId = t.myStreamId ∧
    x.1.recvHimark = t.recvHimark ∧ x.1.currentOutBuffer = t.currentOutBuffer) ?_
    (fun _ ↦ ⟨rfl, rfl, rfl⟩) hst
  rintro x eff y heff hx hm
  have hacked := hk eff heff
  cases hm with
  | pop | skip | rush | lateEos => exact hx
  | reset => simp
  | _ => exact absurd hacked (by simp [Effect.AckedBy])

/-- An acknowledgement that leaves a blocked stream connected makes room only by freeing slots. -/
theorem acked_saturated {b e b' e' q first : Int} {bits : List Bool} {effs : List Effect}
    (hs : t.outRing.Spans b e) (hp : Path Transmitter.Moves (t, b, e) effs (t', b', e'))
    (hk : ∀ eff ∈ effs, eff.AckedBy q first bits) (hb' : b' ≤ e) (hst : t'.state = .connected)
    (heos : t'.endOfStream = false) (hge : t'.recvHimark.Ge t'.outRing.end_)
    (hfree : ¬ t.availableForWrite < t'.availableForWrite) (hsat : t.Saturated) :
    t'.Saturated := by
  obtain ⟨-, hmark, hcur⟩ := acked_same hp hk hst
  have hs' := Transmitter.path_spans hp hs
  have hmono := (Transmitter.path_mono hp hs).2
  refine ⟨hge, fun i hi ↦ ?_, ?_⟩
  · rw [hcur] at hi
    refine Transmitter.path_finished hp (fun eff heff p hp ↦ ?_) (hsat.2.1 i hi)
    exact absurd (hp ▸ hk eff heff) (by simp [Effect.AckedBy])
  · refine hsat.2.2.imp (fun hcredit ↦ ?_) fun hfull ↦ ?_
    · have hcap := capacity_le n
      have hus := hs'.used
      rw [hmark, hcredit, hs.end_eq, hs'.end_eq] at hge ⊢
      rw [SeqNum.ofPos_ge (by omega) (by omega)] at hge
      rw [le_antisymm hmono hge]
    · simpa [Transmitter.availableForWrite, hst, heos, hfull] using hfree

private theorem ack_heeds {bit rushed : Bool} {seqId : BitVec 16} {bitmap : List UInt8}
    (hns : ¬ Strands t (.ack bit seqId bitmap)) (h : t.ack bit seqId bitmap = .ok (t', rushed)) :
    Heeds t t' ⟨decide (t.availableForWrite < t'.availableForWrite), !t'.hasPendingData⟩ := by
  obtain ⟨b, e, hs⟩ := t.outRing.exists_spans
  obtain ⟨t1, rushed1, hok, hacking⟩ := Transmitter.ack_path hs bit seqId bitmap
  obtain ⟨rfl, rfl⟩ : t1 = t' ∧ rushed1 = rushed := by simpa using hok.symm.trans h
  cases hacking with
  | ignored => exact .refl t _
  | @applied _ q e' effs hst hbit hq hl hu hle hpath hk hends =>
    have hbe := hs.le
    rcases hends with ⟨hst', heos', -⟩ | ⟨-, heos, hb', rfl, hpend⟩
    · obtain ⟨hid, -, -⟩ := acked_same hpath hk hst'
      refine ⟨fun hb ↦ ?_, fun _ _ ↦ ?_⟩
      · by_cases hfree : t.availableForWrite < t1.availableForWrite
        · exact .inl (decide_eq_true hfree)
        · refine .inr ⟨.inl hst', hid, fun heos hge ↦ ?_⟩
          have hsat := hb.2.resolve_left (by simp [← heos', heos])
          exact acked_saturated hs hpath hk (max_le hbe hle) hst' heos hge hfree hsat
      · by_cases hp : t1.hasPendingData = true
        · exact .inr ⟨.inl hst', hid, hp⟩
        · exact .inl (by simpa using hp)
    · -- The stream is over, so the acknowledgement covered all of it.
      have hcap := capacity_le n
      have hus := hs.used
      refine absurd ⟨hst, hbit, heos, ?_, ?_⟩ hns
      · rw [hq, hs.end_eq, SeqNum.ofPos_gt (by omega) (by omega)]
        omega
      · rw [hs.empty_iff, hq, hs.end_eq]
        rcases eq_or_lt_of_le hbe with heq | hlt
        · exact .inl heq
        · exact .inr ⟨hpend hlt, congrArg SeqNum.ofPos (by omega)⟩

/-! ### Stranded writers -/

private theorem writeReturns_of_gone (h : ¬ (Alive t ∧ id = t.myStreamId)) :
    WriteReturns t id buf :=
  .inl (mt checkConnectionStatus_eq_ok.mp h)

private theorem strands_returns {op : Op} (h : Strands t op) :
    Blocked t ∧ ∃ t' notified, perform t op = .ok (t', notified) ∧ notified.hasSpace = false ∧
      WriteReturns t' t.myStreamId [0] := by
  obtain ⟨b, e, hs⟩ := t.outRing.exists_spans
  cases op with
  | setConnected size bit =>
    obtain ⟨hb, heos, hfree, hcredit⟩ := h
    refine ⟨hb, _, _, rfl, rfl, .inr ?_⟩
    have hsat := hb.2.resolve_left (by simp [heos])
    obtain ⟨t1, ready, hw⟩ := Transmitter.tryWrite_byte (t := t.setConnected size bit)
      ⟨heos, by simp [Transmitter.setConnected], by simp [Transmitter.setConnected]⟩
      hsat.2.1 hcredit hfree 0
    exact ⟨t1, 1, ready, hw, Nat.one_pos⟩
  | reset =>
    obtain ⟨t', hreset, hm⟩ := Transmitter.reset_ok hs
    refine ⟨h, t', ⟨false, true⟩, map_eq_ok.mpr ⟨t', hreset, rfl⟩, rfl, writeReturns_of_gone ?_⟩
    cases hm
    simp [Alive]
  | init newId start =>
    obtain ⟨hb, hne⟩ := h
    refine ⟨hb, _, ⟨false, true⟩, map_eq_ok.mpr ⟨_, Transmitter.init_ok t newId start, rfl⟩, rfl,
      writeReturns_of_gone fun hsame ↦ hne hsame.2.symm⟩
  | ack bit seqId bitmap =>
    obtain ⟨hst, hbit, heos, hgt, hall⟩ := h
    obtain ⟨t', hok, hidle⟩ := Transmitter.ack_over hst hbit heos hgt hall bitmap
    refine ⟨⟨.inl hst, .inl heos⟩, t', _, map_eq_ok.mpr ⟨_, hok, rfl⟩, ?_,
      writeReturns_of_gone (by simp [Alive, hidle])⟩
    simp [Transmitter.availableForWrite, hidle]
  | _ => exact h.elim

private theorem Strands.not_announces {op : Op} (h : Strands t op) : ¬ Announces t op := by
  intro hall
  obtain ⟨hb, t', notified, hok, hquiet, hret⟩ := strands_returns h
  have hwaits : WriteWaits t t.myStreamId [0] := (writeWaits_iff (by simp)).mpr ⟨hb, rfl⟩
  have htold := (hall t' notified hok _).1 [0] (by simp) hwaits hret
  simp [hquiet] at htold

/-- For any state and operation, waiting writers and closers are notified of what lets them go
on exactly if the operation is none of those that strand a writer. -/
theorem announces_iff (t : Transmitter n) (op : Op) : Announces t op ↔ ¬ Strands t op := by
  constructor
  · exact fun h hstrands ↦ hstrands.not_announces h
  · intro hns
    refine announces_of_heeds fun t' notified h ↦ ?_
    cases op with
    | setConnected size bit =>
      cases h
      exact setConnected_heeds hns
    | setBroken =>
      obtain ⟨t1, -, heq⟩ := map_eq_ok.mp h
      cases heq
      exact ⟨fun _ ↦ .inl rfl, fun _ _ ↦ .inl rfl⟩
    | reset =>
      obtain ⟨t1, -, heq⟩ := map_eq_ok.mp h
      cases heq
      exact ⟨fun hb ↦ absurd hb hns, fun _ _ ↦ .inl rfl⟩
    | init id start =>
      obtain ⟨t1, hok, heq⟩ := map_eq_ok.mp h
      cases heq
      exact init_heeds hns hok rfl
    | ack bit seqId bitmap =>
      obtain ⟨⟨t1, rushed⟩, hok, heq⟩ := map_eq_ok.mp h
      cases heq
      exact ack_heeds hns hok
    | updateRecvHimark bit himark =>
      cases h
      exact updateRecvHimark_heeds bit himark
    | send now draw next =>
      cases h
      obtain ⟨b, e, hs⟩ := t.outRing.exists_spans
      exact sending_heeds (Transmitter.getBufferToSend_path hs now draw next)
    | tryWrite buf id =>
      obtain ⟨⟨t1, out⟩, hok, heq⟩ := map_eq_ok.mp h
      cases heq
      unfold ThreadSafeTransmitter.tryWrite at hok
      split at hok
      · cases hok
        exact .refl t _
      split at hok
      · cases hok
      · next hw =>
        cases hok
        exact tryWrite_heeds hw
    | flush id =>
      cases h
      unfold ThreadSafeTransmitter.flush
      split
      · exact .refl t _
      · exact flush_heeds
    | close id =>
      obtain ⟨⟨t1, out⟩, hok, heq⟩ := map_eq_ok.mp h
      cases heq
      unfold ThreadSafeTransmitter.close at hok
      split at hok
      · cases hok
        exact .refl t _
      next hstatus =>
      have ha := (checkConnectionStatus_eq_ok.mp (not_not.mp hstatus)).1
      split at hok
      · cases hok
      · next hc =>
        split at hok <;> cases hok <;> exact close_heeds ha hc

/-- A writer that starts while the handshake is on is not told of the connection, of a reset or
of a new stream, and one on a closed stream is not told that all of it was delivered. -/
theorem writers_stranded :
    (∃ t, execute (fun t op ↦ (perform t op).map Prod.fst) (Transmitter.new 2)
        [.init 1 (.ofPos 0)] = .ok t ∧ ¬ Announces t (.setConnected 4 false) ∧
        ¬ Announces t .reset ∧ ¬ Announces t (.init 2 (.ofPos 0))) ∧
      ∃ t, execute (fun t op ↦ (perform t op).map Prod.fst) (Transmitter.new 2)
        [.init 1 (.ofPos 0), .setConnected 4 false, .close 1] = .ok t ∧
        ¬ Announces t (.ack true 1 []) := by
  refine ⟨⟨_, rfl, ?_, ?_, ?_⟩, _, rfl, ?_⟩
  · exact Strands.not_announces (by decide)
  · exact Strands.not_announces (by decide)
  · exact Strands.not_announces (by decide)
  · exact Strands.not_announces (by decide)

end ThreadSafeTransmitter

end RooTransport.Link
