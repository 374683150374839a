import RooTransport.Link.ReceiverWindow

/-!
# The receiver behind its lock

`link/internal/thread_safe/thread_safe_receiver.cpp`. Every method runs under one mutex and
is one step on the wrapped receiver; only `read` can let go of the lock in between, and is
split there. The second half is about the reader of a connection that breaks: what it is
handed after `setBroken`, and when it is left waiting for ever.
-/

namespace RooTransport.Link

open RooTransport.Base RingBuffer

/-- The values of `roo_io::Status` that a link reports. -/
inductive Status where
  | ok
  | closed
  | endOfStream
  | connectionError
  deriving DecidableEq, Repr

namespace ThreadSafeReceiver

variable {n : LinkBufferSize}

/-- `thread_safe_receiver.cpp:28–49`; the function's own result is whether this is `ok`. -/
def checkConnectionStatus (r : Receiver n) (myStreamId : UInt32) : Status :=
  if myStreamId ≠ r.myStreamId then .connectionError
  else if r.state = .idle then .connectionError
  else if r.endOfStream then .endOfStream
  else .ok

/-- Where a reader stands when it lets go of the lock. -/
inductive ReadResult where
  /-- `read` returned these bytes and this status. -/
  | returned (bytes : List UInt8) (status : Status) (outgoingDataReady : Bool)
  /-- `read` waits on `has_data_`. -/
  | waits (outgoingDataReady : Bool)
  deriving DecidableEq, Repr

/-- `thread_safe_receiver.cpp:58–64`, one turn of the loop in `read`. -/
def readTurn (r : Receiver n) (count : Nat) (myStreamId : UInt32) :
    Except Check (Receiver n × ReadResult) :=
  match r.tryRead count with
  | .error c => .error c
  | .ok (r, bytes, ready) =>
    if 0 < bytes.length then .ok (r, .returned bytes .ok ready)
    else if checkConnectionStatus r myStreamId ≠ .ok then
      .ok (r, .returned [] (checkConnectionStatus r myStreamId) ready)
    else .ok (r, .waits ready)

/-- `thread_safe_receiver.cpp:51–65`, up to the first wait. -/
def read (r : Receiver n) (count : Nat) (myStreamId : UInt32) (streamStatus : Status)
    (outgoingDataReady : Bool) : Except Check (Receiver n × ReadResult) :=
  if count = 0 then .ok (r, .returned [] streamStatus outgoingDataReady)
  else if checkConnectionStatus r myStreamId ≠ .ok then
    .ok (r, .returned [] (checkConnectionStatus r myStreamId) outgoingDataReady)
  else readTurn r count myStreamId

/-- `thread_safe_receiver.cpp:67–76`. -/
def tryRead (r : Receiver n) (count : Nat) (myStreamId : UInt32) (streamStatus : Status)
    (outgoingDataReady : Bool) : Except Check (Receiver n × List UInt8 × Status × Bool) :=
  if count = 0 then .ok (r, [], streamStatus, outgoingDataReady)
  else if checkConnectionStatus r myStreamId ≠ .ok then
    .ok (r, [], checkConnectionStatus r myStreamId, outgoingDataReady)
  else
    match r.tryRead count with
    | .error c => .error c
    | .ok (r, bytes, ready) => .ok (r, bytes, .ok, ready)

/-- `thread_safe_receiver.cpp:78–83`. -/
def peek (r : Receiver n) (myStreamId : UInt32) : Receiver n × Int × Status :=
  if checkConnectionStatus r myStreamId ≠ .ok then (r, -1, checkConnectionStatus r myStreamId)
  else (r.peek.1, r.peek.2, .ok)

/-- `thread_safe_receiver.cpp:85–90`. -/
def availableForRead (r : Receiver n) (myStreamId : UInt32) : Receiver n × Nat × Status :=
  if checkConnectionStatus r myStreamId ≠ .ok then (r, 0, checkConnectionStatus r myStreamId)
  else (r.availableForRead.1, r.availableForRead.2, .ok)

/-- `thread_safe_receiver.cpp:92–98`. -/
def markInputClosed (r : Receiver n) (myStreamId : UInt32) (outgoingDataReady : Bool) :
    Except Check (Receiver n × Status × Bool) :=
  if checkConnectionStatus r myStreamId ≠ .ok then
    .ok (r, checkConnectionStatus r myStreamId, outgoingDataReady)
  else
    match r.markInputClosed with
    | .error c => .error c
    | .ok (r, ready) => .ok (r, .ok, outgoingDataReady || ready)

end ThreadSafeReceiver

/-! ### The bytes a reader can still get -/

namespace Receiver

variable {n : LinkBufferSize}

/-- The packets received in a row from `seq` on, at most `k` of them and none past a final
one. -/
def contiguousFrom (r : Receiver n) : Nat → SeqNum → List UInt8
  | 0, _ => []
  | k + 1, seq =>
    match (r.getInBuffer seq).type with
    | .unset => []
    | .fin => (r.getInBuffer seq).content
    | .data => (r.getInBuffer seq).content ++ r.contiguousFrom k seq.next

/-- The buffered bytes that are unread and not behind a gap. -/
def contiguous (r : Receiver n) : List UInt8 :=
  (r.contiguousFrom r.inRing.slotsUsed r.inRing.begin_).drop r.offset

private theorem contiguousFrom_congr {r r' : Receiver n} (k : Nat) : ∀ {p : Int},
    (∀ q, p ≤ q → q < p + k → r'.bufferAt q = r.bufferAt q) →
    r'.contiguousFrom k (.ofPos p) = r.contiguousFrom k (.ofPos p) := by
  induction k with
  | zero => intro p _; rfl
  | succ k ih =>
    intro p h
    have hrest := ih (p := p + 1) fun q hq hq' ↦ h q (by omega) (by push_cast; omega)
    simp only [contiguousFrom, getInBuffer_ofPos, SeqNum.ofPos_next, hrest,
      h p (le_refl _) (by push_cast; omega)]

/-- A stored packet lies within its buffer and within the protocol's limit. -/
def Fits (x : InBuffer) : Prop := x.size ≤ 248 ∧ x.size ≤ x.payload.length

/-- Clearing and filling a buffer keeps it within its limits. -/
theorem slotKept_fits : SlotKept Fits :=
  ⟨fun _ ↦ ⟨Nat.zero_le _, Nat.zero_le _⟩,
    fun _ h ↦ ⟨(InBuffer.of_set h).2.1, (InBuffer.of_set h).2.2.2⟩⟩

private theorem Fits.length_content {x : InBuffer} (h : Fits x) : x.content.length = x.size := by
  rw [InBuffer.content, List.length_take]
  exact min_eq_left h.2

private theorem contiguous_drained {r : Receiver n} {b : Int} (hs : r.inRing.Spans b b) :
    r.contiguous = [] := by
  have hu : r.inRing.slotsUsed = 0 := by have := hs.slotsUsed_eq; omega
  rw [contiguous, hu, contiguousFrom, List.drop_nil]

private theorem contiguous_front {r : Receiver n} {b e : Int} (hs : r.inRing.Spans b e)
    (hlt : b < e) : ∃ k : Nat, (k : Int) = e - b - 1 ∧
      r.contiguous = (match (r.bufferAt b).type with
        | .unset => []
        | .fin => (r.bufferAt b).content
        | .data =>
          (r.bufferAt b).content ++ r.contiguousFrom k (.ofPos (b + 1))).drop r.offset := by
  have hu := hs.slotsUsed_eq
  refine ⟨(e - b - 1).toNat, by omega, ?_⟩
  have hk : r.inRing.slotsUsed = (e - b - 1).toNat + 1 := by omega
  rw [contiguous, hk, hs.begin_eq, contiguousFrom, getInBuffer_ofPos, SeqNum.ofPos_next]

private theorem contiguousFrom_front {r : Receiver n} {b e : Int} (hs : r.inRing.Spans b e)
    (hlt : b < e) (hr : r.Received b) : ∃ rest,
      r.contiguousFrom r.inRing.slotsUsed r.inRing.begin_ = (r.bufferAt b).content ++ rest := by
  have hu := hs.slotsUsed_eq
  obtain ⟨k, hk⟩ : ∃ k, r.inRing.slotsUsed = k + 1 := ⟨r.inRing.slotsUsed - 1, by omega⟩
  rw [hk, hs.begin_eq, contiguousFrom, getInBuffer_ofPos]
  cases ht : (r.bufferAt b).type with
  | unset => exact absurd ht hr
  | fin => exact ⟨[], (List.append_nil _).symm⟩
  | data => exact ⟨_, rfl⟩

private theorem contiguous_part {r : Receiver n} {b e : Int} {count : Nat}
    (hs : r.inRing.Spans b e) (hfit : Fits (r.bufferAt b)) (hlt : b < e) (hr : r.Received b)
    (hsize : r.offset + count < (r.bufferAt b).size) :
    (r.bufferAt b).slice r.offset count ++
      { r.focused b with currentInBufferPos := r.offset + count }.contiguous = r.contiguous := by
  have hlen := hfit.length_content
  obtain ⟨rest, hfront⟩ := contiguousFrom_front hs hlt hr
  have hnew : { r.focused b with currentInBufferPos := r.offset + count }.contiguous =
      (r.contiguousFrom r.inRing.slotsUsed r.inRing.begin_).drop (r.offset + count) := by
    change List.drop (r.offset + count) _ = _
    congr 1
    change Receiver.contiguousFrom _ r.inRing.slotsUsed r.inRing.begin_ = _
    rw [hs.begin_eq]
    exact contiguousFrom_congr _ fun _ _ _ ↦ rfl
  have htake : ((r.bufferAt b).content.drop r.offset).take count =
      ((r.contiguousFrom r.inRing.slotsUsed r.inRing.begin_).drop r.offset).take count := by
    rw [hfront, List.drop_append_of_le_length (by omega), List.take_append_of_le_length]
    rw [List.length_drop]
    omega
  rw [hnew, contiguous, InBuffer.slice_eq _ (by omega), ← List.drop_drop, htake,
    List.take_append_drop]

private theorem contiguous_released {r : Receiver n} {b e : Int} {k : Nat} {ring : RingBuffer n}
    (hs : r.inRing.Spans b e) (hring : ring.Spans (b + 1) e) (hk : (k : Int) = e - b - 1) :
    (r.released b ring false).contiguous = r.contiguousFrom k (.ofPos (b + 1)) := by
  have hus := hs.used
  have hu := hring.slotsUsed_eq
  have hk' : ring.slotsUsed = k := by omega
  rw [contiguous]
  change ((r.released b ring false).contiguousFrom ring.slotsUsed ring.begin_).drop 0 = _
  rw [hk', hring.begin_eq, List.drop_zero]
  exact contiguousFrom_congr k fun q hq hq' ↦
    Function.update_of_ne (slotAt_ne (by omega) (by omega) (by omega)) _ _

/-- A round of reading hands out the next of the contiguous bytes and leaves the others. -/
theorem readRound_contiguous {r : Receiver n} {b e : Int} {count : Nat} {round : Round n}
    (hs : r.inRing.Spans b e) (hf : r.FrontOk b e) (hfit : ∀ i, Fits (r.inBuffers i))
    (hr : r.readRound count = .ok round) :
    round.bytes ++ round.receiver.contiguous = r.contiguous := by
  have hspec := readRound_spec hs hf.cursor count
  rw [hr] at hspec
  have hlen : (r.bufferAt b).content.length = (r.bufferAt b).size := (hfit _).length_content
  cases hspec with
  | drained hbe =>
    subst hbe
    rw [contiguous_drained hs]
    refine contiguous_drained (b := b) ?_
    dsimp only
    split
    · exact hs
    · exact hs
  | gap hlt hu =>
    have hu : (r.bufferAt b).type = .unset := not_not.mp hu
    have hu' : ((r.focused b).bufferAt b).type = .unset := hu
    obtain ⟨k, -, hc⟩ := contiguous_front hs hlt
    obtain ⟨k', -, hc'⟩ := contiguous_front (r := r.focused b) hs hlt
    simp only [hu] at hc
    simp only [hu'] at hc'
    rw [hc, List.nil_append, hc', List.drop_nil, List.drop_nil]
  | part hlt hrec hsize => exact contiguous_part hs (hfit _) hlt hrec hsize
  | data ring hlt ht hle hle' hring =>
    obtain ⟨k, hk, hc⟩ := contiguous_front hs hlt
    simp only [ht] at hc
    dsimp only
    rw [contiguous_released hs hring hk, hc, List.drop_append_of_le_length (by omega)]
  | fin ring hlast ht hle hle' hring =>
    obtain ⟨k, hk, hc⟩ := contiguous_front hs (by omega)
    simp only [ht] at hc
    obtain rfl : e = b + 1 := by omega
    have hnew : (r.released b ring true).contiguous = [] := contiguous_drained (b := b + 1) hring
    dsimp only
    rw [hnew, hc, List.append_nil]

/-- Reading hands out the contiguous bytes in order. -/
theorem tryRead_contiguous {r r' : Receiver n} {b e : Int} {count : Nat} {bytes : List UInt8}
    {ready : Bool} (hs : r.inRing.Spans b e) (hf : r.FrontOk b e)
    (hfit : ∀ i, Fits (r.inBuffers i)) (h : r.tryRead count = .ok (r', bytes, ready)) :
    bytes ++ r'.contiguous = r.contiguous := by
  have hround (s : Receiver n) (k : Nat) (acc : List UInt8) (round : Round n)
      (hi : (∃ b', s.inRing.Spans b' e ∧ s.FrontOk b' e) ∧ (∀ i, Fits (s.inBuffers i)) ∧
        acc ++ s.contiguous = r.contiguous) (hk : s.readRound k = .ok round) :
      (∃ b', round.receiver.inRing.Spans b' e ∧ round.receiver.FrontOk b' e) ∧
        (∀ i, Fits (round.receiver.inBuffers i)) ∧
        acc ++ round.bytes ++ round.receiver.contiguous = r.contiguous := by
    obtain ⟨⟨b1, hs1, hf1⟩, hfit1, hc1⟩ := hi
    obtain ⟨b2, hs2, hf2, -⟩ := hf1.readRound hs1 hk
    refine ⟨⟨b2, hs2, hf2⟩, readRound_slots slotKept_fits hk hfit1, ?_⟩
    rw [List.append_assoc, readRound_contiguous hs1 hf1 hfit1 hk, hc1]
  exact tryRead_rule
    (I := fun s _ acc ↦ (∃ b', s.inRing.Spans b' e ∧ s.FrontOk b' e) ∧
      (∀ i, Fits (s.inBuffers i)) ∧ acc ++ s.contiguous = r.contiguous)
    (Q := fun s acc ↦ acc ++ s.contiguous = r.contiguous)
    (fun s k acc round hi hk _ _ ↦ hround s k acc round hi hk)
    (fun s k acc round hi hk _ ↦ (hround s k acc round hi hk).2.2)
    ⟨⟨b, hs, hf⟩, hfit, rfl⟩ (fun _ ↦ rfl) h

/-! ### The reader of a broken connection -/

/-- A live receiver with its front in order and its slots within bounds. -/
structure Reading (s : Receiver n) (b e : Int) : Prop where
  spans : s.inRing.Spans b e
  front : s.FrontOk b e
  fits : ∀ i, Fits (s.inBuffers i)
  connected : s.state = .connected

private theorem Reading.released {s : Receiver n} {b e : Int} (h : s.Reading b e)
    {ring : RingBuffer n}
    (hring : ring.Spans (b + 1) e) (last : Bool) : (s.released b ring last).Reading (b + 1) e :=
  ⟨hring, ⟨.inl rfl, fun _ ↦ .inl rfl⟩,
    forall_update h.fits (slotKept_fits.clear (h.fits _)), h.connected⟩

private theorem Reading.refocused {s : Receiver n} {b e : Int} (h : s.Reading b e) (hlt : b < e)
    {k : Nat} (hk : k = 0 ∨ (s.Received b ∧ k < (s.bufferAt b).size)) :
    { s.focused b with currentInBufferPos := k }.Reading b e :=
  ⟨h.spans, ⟨cursorAtFront_of_slot h.spans hlt rfl, fun _ ↦ hk⟩, h.fits, h.connected⟩

/-- Every buffered packet is there, and the last one is final. -/
def EndsInFin (s : Receiver n) (b e : Int) : Prop :=
  b < e ∧ ∀ p, b ≤ p → p < e → (s.bufferAt p).type = if p + 1 = e then .fin else .data

private theorem endsInFin_released {s : Receiver n} {b e : Int} (hs : s.inRing.Spans b e)
    (hlt : b < e) (ht : (s.bufferAt b).type = .data) (ring : RingBuffer n) (last : Bool) :
    (s.released b ring last).EndsInFin (b + 1) e ↔ s.EndsInFin b e := by
  have hus := hs.used
  have hkept (p : Int) (hp : b + 1 ≤ p) (hpe : p < e) :
      (s.released b ring last).bufferAt p = s.bufferAt p :=
    Function.update_of_ne (slotAt_ne (by omega) (by omega) (by omega)) _ _
  constructor
  · rintro ⟨hlt', hall⟩
    refine ⟨hlt, fun p hp hpe ↦ ?_⟩
    rcases eq_or_lt_of_le hp with rfl | hbp
    · rw [ht, if_neg (by omega)]
    · rw [← hkept p (by omega) hpe]
      exact hall p (by omega) hpe
  · rintro ⟨-, hall⟩
    have hne : b + 1 ≠ e := by
      intro heq
      have := hall b (le_refl _) hlt
      rw [ht, if_pos heq] at this
      cases this
    refine ⟨by omega, fun p hp hpe ↦ ?_⟩
    rw [hkept p hp hpe]
    exact hall p (by omega) hpe

-- A round after which reading goes on has used a data packet up.
private theorem Reading.continued {t : Receiver n} {b e : Int} {k : Nat} {round : Round n}
    (h : t.Reading b e) (hround : t.readRound k = .ok round) (hcont : round.continues = true) :
    round.receiver.endOfStream = t.endOfStream ∧ round.receiver.Reading (b + 1) e ∧
      (round.receiver.EndsInFin (b + 1) e ↔ t.EndsInFin b e) ∧ k ≤ round.left + 248 := by
  have hfit := (h.fits (slotAt n b)).1
  have hspec := readRound_spec h.spans h.front.cursor k
  rw [hround] at hspec
  cases hspec with
  | drained => cases hcont
  | gap => cases hcont
  | part => cases hcont
  | data ring hlt htype _ _ hring =>
    refine ⟨by rw [Receiver.released, Bool.or_false], h.released hring false,
      endsInFin_released h.spans hlt htype ring false, ?_⟩
    rw [bufferAt]
    dsimp only
    omega
  | fin => cases hcont

/-- With the final packet in line, reading gives bytes or reaches the end of the stream. -/
theorem tryRead_endsInFin {s s' : Receiver n} {b e : Int} {count : Nat}
    {bytes : List UInt8} {ready : Bool} (h : s.Reading b e) (hend : s.EndsInFin b e)
    (hcount : 0 < count) (hr : s.tryRead count = .ok (s', bytes, ready)) :
    (bytes ≠ [] ∧ s'.endOfStream = s.endOfStream ∧ ∃ b', s'.Reading b' e ∧ s'.EndsInFin b' e) ∨
      (s'.endOfStream = true ∧ s'.Reading e e) := by
  refine tryRead_rule
    (I := fun t k _ ↦ 0 < k ∧ t.endOfStream = s.endOfStream ∧
      ∃ b', t.Reading b' e ∧ t.EndsInFin b' e)
    (Q := fun t acc ↦ (acc ≠ [] ∧ t.endOfStream = s.endOfStream ∧
      ∃ b', t.Reading b' e ∧ t.EndsInFin b' e) ∨ (t.endOfStream = true ∧ t.Reading e e))
    ?_ ?_ ⟨hcount, rfl, b, h, hend⟩ (fun hst ↦ ?_) hr
  · rintro t k acc round ⟨hk, heos, b', ht, hend'⟩ hround hcont hleft
    obtain ⟨heos', hread, hfin, -⟩ := ht.continued hround hcont
    exact ⟨hleft, heos'.trans heos, b' + 1, hread, hfin.mpr hend'⟩
  · rintro t k acc round ⟨hk, heos, b', ht, hend'⟩ hround hstop
    have hlt := hend'.1
    have htype := hend'.2 b' (le_refl _) hlt
    have hlen := (ht.fits (slotAt n b')).length_content
    have hspec := readRound_spec ht.spans ht.front.cursor k
    rw [hround] at hspec
    cases hspec with
    | drained hbe => omega
    | gap _ hr =>
      refine absurd ?_ hr
      rw [Received, htype]
      split <;> decide
    | part _ hrec hlt' =>
      refine .inl ⟨?_, heos, b', ht.refocused hlt (.inr ⟨hrec, hlt'⟩), hend'⟩
      have hl : ((t.bufferAt b').slice t.offset k).length = k := by
        rw [InBuffer.slice_eq _ (by omega), List.length_take, List.length_drop]
        rw [bufferAt] at hlt' ⊢
        omega
      exact List.append_ne_nil_of_right_ne_nil _ (List.ne_nil_of_length_pos (by rw [hl]; exact hk))
    | data ring _ ht' hle hle' hring =>
      -- The packet was used up with nothing left to read: it gave all `k` bytes.
      have hleft := hstop rfl
      refine .inl ⟨?_, by rw [Receiver.released, Bool.or_false]; exact heos, b' + 1,
        ht.released hring false, (endsInFin_released ht.spans hlt ht' ring false).mpr hend'⟩
      have hl : ((t.bufferAt b').content.drop t.offset).length =
          (t.bufferAt b').size - t.offset := by
        rw [List.length_drop, bufferAt, hlen]
      dsimp only at hleft ⊢
      exact List.append_ne_nil_of_right_ne_nil _ (List.ne_nil_of_length_pos (by rw [hl]; omega))
    | fin ring hlast _ _ _ hring =>
      refine .inr ⟨by rw [Receiver.released, Bool.or_true], ?_⟩
      have := ht.released hring true
      rwa [hlast] at this
  · rw [h.connected] at hst
    rcases hst with hst | hst <;> cases hst

private theorem tryRead_endsInFin_total {s : Receiver n} {b e : Int} (count : Nat)
    (h : s.Reading b e) (hend : s.EndsInFin b e) : ∃ out, s.tryRead count = .ok out := by
  refine tryRead_total (I := fun t _ _ ↦ ∃ b', t.Reading b' e ∧ t.EndsInFin b' e)
    ?_ ?_ ⟨b, h, hend⟩
  · rintro t k acc round ⟨b', ht, hend'⟩ hround hcont -
    obtain ⟨-, hread, hfin, -⟩ := ht.continued hround hcont
    exact ⟨b' + 1, hread, hfin.mpr hend'⟩
  · rintro t k acc ⟨b', ht, hend'⟩
    have hlt := hend'.1
    have htype := hend'.2 b' (le_refl _) hlt
    have hspec := readRound_spec ht.spans ht.front.cursor k
    cases hround : t.readRound k with
    | ok round => exact ⟨round, rfl⟩
    | error c =>
      rw [hround] at hspec
      cases hspec with
      | badPosition _ _ hlt' =>
        rcases ht.front.pos hlt with h0 | ⟨-, hp⟩ <;> omega
      | finInside hin htf _ =>
        rw [htf, if_neg (by omega)] at htype
        cases htype

/-- Without the final packet in line, reading everything there is ends at a gap or on an empty
window, with the stream not ended. -/
theorem tryRead_stuck {s s' : Receiver n} {b e : Int} {count : Nat} {bytes : List UInt8}
    {ready : Bool} (h : s.Reading b e) (hend : ¬ s.EndsInFin b e) (hcount : 248 * (e - b) < count)
    (hr : s.tryRead count = .ok (s', bytes, ready)) :
    s'.endOfStream = s.endOfStream ∧ ∃ b', s'.Reading b' e ∧ (b' < e → ¬ s'.Received b') := by
  refine tryRead_rule
    (I := fun t k _ ↦ t.endOfStream = s.endOfStream ∧
      ∃ b', t.Reading b' e ∧ ¬ t.EndsInFin b' e ∧ 248 * (e - b') < k)
    (Q := fun t _ ↦ t.endOfStream = s.endOfStream ∧
      ∃ b', t.Reading b' e ∧ (b' < e → ¬ t.Received b'))
    ?_ ?_ ⟨rfl, b, h, hend, hcount⟩ (fun hst ↦ ?_) hr
  · rintro t k acc round ⟨heos, b', ht, hend', hk⟩ hround hcont -
    obtain ⟨heos', hread, hfin, hleft⟩ := ht.continued hround hcont
    exact ⟨heos'.trans heos, b' + 1, hread, fun hf ↦ hend' (hfin.mp hf), by omega⟩
  · rintro t k acc round ⟨heos, b', ht, hend', hk⟩ hround hstop
    have hfit := (ht.fits (slotAt n b')).1
    have hle := ht.spans.le
    have hspec := readRound_spec ht.spans ht.front.cursor k
    rw [hround] at hspec
    cases hspec with
    | drained hbe =>
      have hst : t.state ≠ .broken := by rw [ht.connected]; decide
      simp only [if_neg hst]
      exact ⟨heos, b', ht, by omega⟩
    | gap hlt hr =>
      have hk0 : t.offset = 0 := by
        rcases ht.front.pos hlt with h0 | ⟨hrec, -⟩
        · exact h0
        · exact absurd hrec hr
      exact ⟨heos, b', ht.refocused hlt (.inl hk0), fun _ ↦ hr⟩
    | part hlt _ hlt' =>
      rw [bufferAt] at hlt'
      omega
    | data ring hlt _ hle' hle'' _ =>
      have := hstop rfl
      rw [bufferAt] at *
      dsimp only at this
      omega
    | fin ring hlast ht' _ _ _ =>
      refine absurd ⟨by omega, fun p hp hpe ↦ ?_⟩ hend'
      obtain rfl : p = b' := by omega
      rw [ht', if_pos hlast]
  · rw [h.connected] at hst
    rcases hst with hst | hst <;> cases hst

/-- At a gap or on an empty window there is nothing to read. -/
theorem tryRead_none {s : Receiver n} {b e : Int} (h : s.Reading b e)
    (hgap : b < e → ¬ s.Received b) (count : Nat) :
    ∃ s', s.tryRead count = .ok (s', [], false) ∧ s'.endOfStream = s.endOfStream ∧
      s'.myStreamId = s.myStreamId ∧ s'.state = s.state := by
  have hst : ¬ (s.state = .connecting ∨ s.state = .idle) := by rw [h.connected]; decide
  have hb : s.state ≠ .broken := by rw [h.connected]; decide
  rw [Receiver.tryRead, if_neg hst, tryReadLoop]
  rcases eq_or_lt_of_le h.spans.le with rfl | hlt
  · rw [Receiver.readRound, focus_drained h.spans h.front.cursor, if_neg hb]
    exact ⟨_, rfl, rfl, rfl, rfl⟩
  · obtain ⟨ring, hp, -⟩ := h.spans.pop_ok hlt
    have hu : (s.bufferAt b).type = .unset := not_not.mp (hgap hlt)
    rw [readRound_front h.spans hlt h.front.cursor hp, frontRound, if_pos hu]
    exact ⟨_, rfl, rfl, rfl, rfl⟩

open ThreadSafeReceiver (readTurn checkConnectionStatus)

/-- Calls of `read` that returned, one after the other, and the bytes they gave together. -/
inductive ReadsOut (myStreamId : UInt32) (start : Receiver n) : Receiver n → List UInt8 → Prop
  | start : ReadsOut myStreamId start start []
  | next {s s' : Receiver n} {acc bytes : List UInt8} {count : Nat} {status : Status}
      {ready : Bool} : ReadsOut myStreamId start s acc → 0 < count →
      ThreadSafeReceiver.read s count myStreamId .ok false =
        .ok (s', .returned bytes status ready) →
      ReadsOut myStreamId start s' (acc ++ bytes)

/-- After `setBroken`, calls of `read` hand out the contiguous bytes in order, and then return
none with a status other than `ok`; no call waits for ever or fails a check. -/
def NeverStrands (r : Receiver n) : Prop :=
  ∀ s acc, ReadsOut r.myStreamId r.setBroken s acc → ∀ count, 0 < count →
    ∃ s' bytes status ready,
      ThreadSafeReceiver.read s count r.myStreamId .ok false =
        .ok (s', .returned bytes status ready) ∧
        acc ++ bytes <+: r.contiguous ∧ (bytes = [] → status ≠ .ok ∧ acc = r.contiguous)

/-- Every buffered packet is there and the last one is final; or nothing is buffered. -/
def FinQueued (r : Receiver n) : Prop :=
  ∀ i < r.inRing.slotsUsed, (r.getInBuffer (r.inRing.begin_.add i)).type =
    if i + 1 = r.inRing.slotsUsed then .fin else .data

instance (r : Receiver n) : Decidable r.FinQueued := by unfold FinQueued; infer_instance

private theorem finQueued_iff {r : Receiver n} {b e : Int} (hs : r.inRing.Spans b e) :
    r.FinQueued ↔ b = e ∨ r.EndsInFin b e := by
  have hu := hs.slotsUsed_eq
  have hle := hs.le
  have hget (i : Nat) : r.getInBuffer (r.inRing.begin_.add i) = r.bufferAt (b + i) := by
    rw [hs.begin_eq, SeqNum.ofPos_add, getInBuffer_ofPos]
  constructor
  · intro h
    rcases eq_or_lt_of_le hle with hbe | hlt
    · exact .inl hbe
    · refine .inr ⟨hlt, fun p hp hpe ↦ ?_⟩
      have := h (p - b).toNat (by omega)
      rw [hget, show b + ((p - b).toNat : Int) = p by omega] at this
      rw [this]
      congr 1
      exact propext ⟨by omega, by omega⟩
  · rintro (rfl | ⟨hlt, hall⟩) i hi
    · omega
    · rw [hget, hall _ (by omega) (by omega)]
      congr 1
      exact propext ⟨by omega, by omega⟩

private theorem read_live {s : Receiver n} {count : Nat} {myStreamId : UInt32} (hcount : 0 < count)
    (hst : checkConnectionStatus s myStreamId = .ok) :
    ThreadSafeReceiver.read s count myStreamId .ok false = readTurn s count myStreamId := by
  rw [ThreadSafeReceiver.read, if_neg (by omega), if_neg (by rw [hst]; decide)]

private theorem status_live {s : Receiver n} {myStreamId : UInt32} (hid : s.myStreamId = myStreamId)
    (hst : s.state = .connected) (heos : s.endOfStream = false) :
    checkConnectionStatus s myStreamId = .ok := by
  rw [checkConnectionStatus, if_neg (by rw [hid]; simp), if_neg (by rw [hst]; decide),
    if_neg (by rw [heos]; decide)]

/-- A reader that has seen everything: nothing is buffered and the connection is over. -/
structure Over (s : Receiver n) (myStreamId : UInt32) : Prop where
  drained : ∃ b, s.inRing.Spans b b
  status : checkConnectionStatus s myStreamId ≠ .ok

private theorem read_over {s : Receiver n} {count : Nat} {myStreamId : UInt32} (hcount : 0 < count)
    (h : Over s myStreamId) : ThreadSafeReceiver.read s count myStreamId .ok false =
      .ok (s, .returned [] (checkConnectionStatus s myStreamId) false) := by
  rw [ThreadSafeReceiver.read, if_neg (by omega), if_pos h.status]

/-- A reader on its way to the final packet. -/
structure OnWay (s : Receiver n) (myStreamId : UInt32) (b e : Int) : Prop where
  reading : s.Reading b e
  ends : s.EndsInFin b e
  id : s.myStreamId = myStreamId
  notEnded : s.endOfStream = false

private theorem read_onWay {s : Receiver n} {count : Nat} {myStreamId : UInt32} {b e : Int}
    (hcount : 0 < count) (h : OnWay s myStreamId b e) : ∃ s' bytes status ready,
      ThreadSafeReceiver.read s count myStreamId .ok false =
        .ok (s', .returned bytes status ready) ∧
      bytes ++ s'.contiguous = s.contiguous ∧ (bytes = [] → status ≠ .ok ∧ Over s' myStreamId) ∧
      (Over s' myStreamId ∨ ∃ b', OnWay s' myStreamId b' e) := by
  obtain ⟨⟨s', bytes, ready⟩, hr⟩ := tryRead_endsInFin_total count h.reading h.ends
  have hc := tryRead_contiguous h.reading.spans h.reading.front h.reading.fits hr
  have hid : s'.myStreamId = myStreamId := (tryRead_sameLink hr).myStreamId.trans h.id
  rw [read_live hcount (status_live h.id h.reading.connected h.notEnded), readTurn, hr]
  dsimp only
  have hover (heos : s'.endOfStream = true) (hre : s'.Reading e e) :
      Over s' myStreamId ∧ checkConnectionStatus s' myStreamId ≠ .ok := by
    have hst : checkConnectionStatus s' myStreamId ≠ .ok := by
      rw [checkConnectionStatus, if_neg (by rw [hid]; simp), if_neg (by rw [hre.connected]; decide),
        if_pos heos]
      decide
    exact ⟨⟨⟨e, hre.spans⟩, hst⟩, hst⟩
  rcases tryRead_endsInFin h.reading h.ends hcount hr with ⟨hne, heos, b', hre, hend⟩ | ⟨heos, hre⟩
  · rw [if_pos (List.length_pos_iff.mpr hne)]
    exact ⟨s', bytes, .ok, ready, rfl, hc, fun hnil ↦ absurd hnil hne,
      .inr ⟨b', hre, hend, hid, heos.trans h.notEnded⟩⟩
  · obtain ⟨hov, hst⟩ := hover heos hre
    by_cases hlen : 0 < bytes.length
    · rw [if_pos hlen]
      exact ⟨s', bytes, .ok, ready, rfl, hc,
        fun hnil ↦ absurd hnil (List.length_pos_iff.mp hlen), .inl hov⟩
    · obtain rfl : bytes = [] := List.length_eq_zero_iff.mp (by omega)
      rw [if_neg hlen, if_pos hst]
      exact ⟨s', [], _, ready, rfl, hc, fun _ ↦ ⟨hst, hov⟩, .inl hov⟩

private theorem setBroken_queued {r : Receiver n} {b e : Int} (hs : r.inRing.Spans b e)
    (hlt : b < e) : r.setBroken =
      { r with peerClosed := true, selfClosed := false, endOfStream := false } := by
  have he : ¬ r.inRing.empty = true := by
    rw [hs.empty_eq_false.mpr hlt]
    decide
  rw [Receiver.setBroken, if_neg he]

private theorem neverStrands_of_finQueued {r : Receiver n} {b e : Int} (h : r.Reading b e)
    (hfin : r.FinQueued) : r.NeverStrands := by
  have hstart : r.setBroken.contiguous = r.contiguous ∧
      (Over r.setBroken r.myStreamId ∨ ∃ b', OnWay r.setBroken r.myStreamId b' e) := by
    rcases (finQueued_iff h.spans).mp hfin with rfl | hend
    · have he : r.inRing.empty = true := h.spans.empty_iff.mpr rfl
      rw [Receiver.setBroken, if_pos he]
      refine ⟨?_, .inl ⟨⟨b, h.spans⟩, ?_⟩⟩
      · rw [contiguous_drained h.spans]
        exact contiguous_drained (b := b) h.spans
      · simp [checkConnectionStatus, setIdle]
    · rw [setBroken_queued h.spans hend.1]
      refine ⟨?_, .inr ⟨b, ⟨h.spans, ⟨h.front.cursor, h.front.pos⟩, h.fits, h.connected⟩, hend, rfl,
        rfl⟩⟩
      rw [contiguous, contiguous]
      congr 1
      change Receiver.contiguousFrom _ r.inRing.slotsUsed r.inRing.begin_ = _
      rw [h.spans.begin_eq]
      exact contiguousFrom_congr _ fun _ _ _ ↦ rfl
  intro s acc hreads
  have hinv : acc ++ s.contiguous = r.contiguous ∧
      (Over s r.myStreamId ∨ ∃ b', OnWay s r.myStreamId b' e) := by
    induction hreads with
    | start => exact ⟨hstart.1, hstart.2⟩
    | next hprev hcount hread ih =>
      obtain ⟨hc, hov | ⟨b', hway⟩⟩ := ih
      · rw [read_over hcount hov] at hread
        cases hread
        rw [List.append_nil]
        exact ⟨hc, .inl hov⟩
      · obtain ⟨s1, bytes1, st1, rd1, hr1, hc1, -, hnext⟩ := read_onWay hcount hway
        rw [hr1] at hread
        cases hread
        rw [List.append_assoc, hc1]
        exact ⟨hc, hnext⟩
  obtain ⟨hc, hov | ⟨b', hway⟩⟩ := hinv
  · intro count hcount
    obtain ⟨b', hd⟩ := hov.drained
    rw [contiguous_drained hd, List.append_nil] at hc
    refine ⟨s, [], _, false, read_over hcount hov, ?_, fun _ ↦ ⟨hov.status, hc⟩⟩
    rw [hc, List.append_nil]
  · intro count hcount
    obtain ⟨s', bytes, status, ready, hr, hb, hnil, -⟩ := read_onWay hcount hway
    refine ⟨s', bytes, status, ready, hr, ⟨s'.contiguous, ?_⟩, fun he ↦ ⟨(hnil he).1, ?_⟩⟩
    · rw [List.append_assoc, hb, hc]
    · obtain ⟨b1, hd⟩ := (hnil he).2.drained
      rw [he, contiguous_drained hd, List.append_nil] at hb
      rw [← hc, ← hb, List.append_nil]

private theorem finQueued_of_neverStrands {r : Receiver n} {b e : Int} (h : r.Reading b e)
    (hns : r.NeverStrands) : r.FinQueued := by
  rw [finQueued_iff h.spans]
  by_contra hno
  rw [not_or] at hno
  have hlt : b < e := lt_of_le_of_ne h.spans.le hno.1
  have hus := h.spans.used
  have hcap := capacity_le n
  have hs0 := setBroken_queued h.spans hlt
  have h0 : r.setBroken.Reading b e := by
    rw [hs0]
    exact ⟨h.spans, ⟨h.front.cursor, h.front.pos⟩, h.fits, h.connected⟩
  have hend0 : ¬ r.setBroken.EndsInFin b e := by
    rw [hs0]
    exact hno.2
  have heos0 : r.setBroken.endOfStream = false := by rw [hs0]
  have hid0 : r.setBroken.myStreamId = r.myStreamId := by rw [hs0]
  have hwait {s : Receiver n} {acc : List UInt8} (hreads : ReadsOut r.myStreamId r.setBroken s acc)
      {s' : Receiver n} {count : Nat} {ready : Bool} (hcount : 0 < count)
      (hst : checkConnectionStatus s r.myStreamId = .ok)
      (hread : s.tryRead count = .ok (s', [], ready))
      (hst' : checkConnectionStatus s' r.myStreamId = .ok) : False := by
    obtain ⟨s1, bytes, status, rd, hr, -⟩ := hns s acc hreads count hcount
    rw [read_live hcount hst, readTurn, hread] at hr
    simp [hst'] at hr
  have hst0 := status_live hid0 h0.connected heos0
  -- One call large enough to take everything there is.
  cases hread : r.setBroken.tryRead (248 * 1024 + 1) with
  | error c =>
    obtain ⟨s1, bytes, status, rd, hr, -⟩ := hns _ _ .start (248 * 1024 + 1) (by omega)
    rw [read_live (by omega) hst0, readTurn, hread] at hr
    cases hr
  | ok out =>
    obtain ⟨s', bytes, ready⟩ := out
    obtain ⟨heos, b', hre, hgap⟩ := tryRead_stuck h0 hend0 (by push_cast; omega) hread
    have hid' : s'.myStreamId = r.myStreamId := (tryRead_sameLink hread).myStreamId.trans hid0
    have hst' := status_live hid' hre.connected (heos.trans heos0)
    by_cases hlen : 0 < bytes.length
    · obtain ⟨s'', hnone, heos'', hid'', hst''⟩ := tryRead_none hre hgap 1
      have hreads : ReadsOut r.myStreamId r.setBroken s' ([] ++ bytes) := by
        have hret : ThreadSafeReceiver.read r.setBroken (248 * 1024 + 1) r.myStreamId .ok false =
            .ok (s', .returned bytes .ok ready) := by
          rw [read_live (by omega) hst0, readTurn, hread]
          simp only [if_pos hlen]
        exact .next .start (by omega) hret
      exact hwait hreads (by omega) hst' hnone (status_live (hid''.trans hid')
        (hst''.trans hre.connected) (heos''.trans (heos.trans heos0)))
    · obtain rfl : bytes = [] := List.length_eq_zero_iff.mp (by omega)
      exact hwait .start (by omega) hst0 hread hst'

/-- The steps of a connection whose reader has not closed its input. -/
def InputOpen (_ : Receiver n) (a : Act) : Prop := a ≠ .markInputClosed

instance (r : Receiver n) (a : Act) : Decidable (InputOpen r a) := by
  unfold InputOpen; infer_instance

private theorem reading_step {r r' : Receiver n} {a : Act} {b e : Int} (h : r.Reading b e)
    (hsc : r.selfClosed = false) (hg : InputOpen r a) (hs : r.step a = .ok r') :
    (∃ b' e', r'.Reading b' e') ∧ r'.selfClosed = false := by
  have hnb : r.state ≠ .broken := by rw [h.connected]; decide
  have hlook : r.look.Reading b e ∧ r.look.selfClosed = false := by
    obtain ⟨hst, hsc', -⟩ := r.look_sameLink.state hnb
    exact ⟨⟨r.look_inRing ▸ h.spans, h.front.look, r.look_inBuffers ▸ h.fits,
      hst.trans h.connected⟩, hsc'.trans hsc⟩
  cases step_spec hs with
  | handled hh =>
    obtain ⟨e', hs', hf', -⟩ := h.front.handleDataPacket h.spans hsc hh
    obtain ⟨hst, hsc', -⟩ := handleDataPacket_same hh
    exact ⟨⟨b, e', hs', hf', handleDataPacket_slots slotKept_fits hh h.fits,
      hst.trans h.connected⟩, hsc'.trans hsc⟩
  | read hh =>
    obtain ⟨b', hs', hf', -⟩ := h.front.tryRead h.spans hh
    obtain ⟨hst, hsc', -⟩ := (tryRead_sameLink hh).state hnb
    exact ⟨⟨b', e, hs', hf', tryRead_slots slotKept_fits hh h.fits, hst.trans h.connected⟩,
      hsc'.trans hsc⟩
  | peeked => exact ⟨⟨b, e, hlook.1⟩, hlook.2⟩
  | available => exact ⟨⟨b, e, hlook.1⟩, hlook.2⟩
  | sent => exact ⟨⟨b, e, h.spans, ⟨h.front.cursor, h.front.pos⟩, h.fits, h.connected⟩, hsc⟩
  | closed => exact absurd rfl hg

/-- In every state a connection can be in while its input is open, a break leaves no reader
stranded exactly when nothing is buffered or everything up to the final packet is. -/
theorem neverStrands_iff_finQueued {r0 r : Receiver n} {myStreamId : UInt32} {peerSeqNum : SeqNum}
    {controlBit : Bool}
    (h0 : (new n).reconnect myStreamId peerSeqNum controlBit = .ok r0)
    (hr : Reachable step InputOpen r0 r) : r.NeverStrands ↔ r.FinQueued := by
  obtain ⟨p, rfl⟩ : ∃ p, peerSeqNum = .ofPos p :=
    ⟨peerSeqNum.raw.toNat, (SeqNum.ofPos_raw peerSeqNum).symm⟩
  have hfits : ∀ i, Fits ((new n).inBuffers i) := fun _ ↦ ⟨Nat.zero_le _, Nat.zero_le _⟩
  have hstart : (∃ b e, r0.Reading b e) ∧ r0.selfClosed = false := by
    rw [reconnect_ok] at h0
    cases h0
    exact ⟨⟨p, p, spans_new n p, ⟨.inl rfl, by omega⟩, hfits, rfl⟩, rfl⟩
  obtain ⟨⟨b, e, hre⟩, -⟩ := hr.invariant
    (fun r ↦ (∃ b e, r.Reading b e) ∧ r.selfClosed = false) hstart
    fun s a s' ⟨⟨b, e, hre⟩, hsc⟩ hg hs ↦ reading_step hre hsc hg hs
  exact ⟨finQueued_of_neverStrands hre, neverStrands_of_finQueued hre⟩

/-- A reader with the whole rest of the stream buffered is served to its end. -/
theorem neverStrands_with_fin : ∃ r : Receiver 2,
    Reachable step InputOpen connectedAtZero r ∧ r.inRing.slotsUsed = 2 ∧ r.NeverStrands := by
  obtain ⟨r, hr, ht⟩ := Reachable.of_test step InputOpen connectedAtZero
    [.handleDataPacket true 1 [8] true, .handleDataPacket true 0 [7] false]
    (fun r ↦ r.inRing.slotsUsed = 2 ∧ r.FinQueued) (by decide) (by decide)
  obtain ⟨hu, hf⟩ := of_decide_eq_true ht
  have h0 : (new 2).reconnect 1 ⟨0⟩ false = .ok connectedAtZero := rfl
  exact ⟨r, hr, hu, (neverStrands_iff_finQueued h0 hr).mpr hf⟩

/-- One data packet is buffered when the connection breaks: a first `read` returns it, and the
next one waits for ever. -/
theorem setBroken_strands_reader : ∃ r s s' : Receiver 2,
    Reachable step InputOpen connectedAtZero r ∧
      ThreadSafeReceiver.read r.setBroken 1 1 .ok false = .ok (s, .returned [7] .ok true) ∧
      ThreadSafeReceiver.read s 1 1 .ok false = .ok (s', .waits false) ∧ ¬ r.NeverStrands := by
  obtain ⟨r, hr, ht⟩ :=
    Reachable.of_test step InputOpen connectedAtZero [.handleDataPacket true 0 [7] false]
    (fun r ↦ r.myStreamId = 1 ∧
      ((ThreadSafeReceiver.read r.setBroken 1 1 .ok false).toOption.map (·.2) =
        some (.returned [7] .ok true)) ∧
      ((ThreadSafeReceiver.read r.setBroken 1 1 .ok false).bind
        fun p ↦ ThreadSafeReceiver.read p.1 1 1 .ok false).toOption.map (·.2) =
        some (.waits false)) (by decide) (by decide)
  obtain ⟨hid, h1, h2⟩ := of_decide_eq_true ht
  cases hr1 : ThreadSafeReceiver.read r.setBroken 1 1 .ok false with
  | error c => rw [hr1] at h1; cases h1
  | ok out =>
    obtain ⟨s, res⟩ := out
    rw [hr1] at h1 h2
    obtain rfl := Option.some.inj h1
    cases hr2 : ThreadSafeReceiver.read s 1 1 .ok false with
    | error c => simp only [Except.bind, hr2] at h2; cases h2
    | ok out =>
      obtain ⟨s', res⟩ := out
      simp only [Except.bind, hr2] at h2
      obtain rfl := Option.some.inj h2
      refine ⟨r, s, s', hr, hr1, hr2, fun hns ↦ ?_⟩
      rw [NeverStrands, hid] at hns
      obtain ⟨s1, bytes, status, ready, hread, -⟩ :=
        hns s _ (.next .start (by omega) hr1) 1 (by omega)
      rw [hr2] at hread
      cases hread

end Receiver

end RooTransport.Link
