import RooTransport.Link.ReceiverSpec

/-!
# What reading does to the window

The loop of `Receiver::tryRead` (`receiver.cpp:54–99`), round by round. While the current
buffer, if there is one, is the first of the window, a round either finds nothing to
read, hands out a part of the first packet, or uses it up and releases its slot.
-/

namespace RooTransport.Link

open RooTransport.Base RingBuffer

namespace Receiver

variable {n : LinkBufferSize}

/-- The current buffer, if there is one, is the first of a nonempty window. -/
def CursorAtFront (r : Receiver n) : Prop :=
  r.currentInBuffer = none ∨
    (r.inRing.empty = false ∧ r.currentInBuffer = some (r.inRing.offsetFor r.inRing.begin_))

instance (r : Receiver n) : Decidable r.CursorAtFront := by
  unfold CursorAtFront; infer_instance

/-- A cursor on the slot of the window's start is at the front once that slot is in use. -/
theorem cursorAtFront_of_slot {r : Receiver n} {b e : Int} (hs : r.inRing.Spans b e) (hlt : b < e)
    (hc : r.currentInBuffer = some (slotAt n b)) : r.CursorAtFront := by
  refine .inr ⟨hs.empty_eq_false.mpr hlt, ?_⟩
  rw [hc, hs.begin_eq, offsetFor_ofPos]

/-- How much of the first packet was handed out already. -/
def offset (r : Receiver n) : Nat :=
  match r.currentInBuffer with
  | none => 0
  | some _ => r.currentInBufferPos

/-- The receiver with the buffer of position `b` made current. -/
def focused (r : Receiver n) (b : Int) : Receiver n :=
  { r with currentInBuffer := some (slotAt n b), currentInBufferPos := r.offset }

/-- The receiver after the packet at `b` was used up. -/
def released (r : Receiver n) (b : Int) (ring : RingBuffer n) (last : Bool) : Receiver n :=
  { r with
    inBuffers := Function.update r.inBuffers (slotAt n b) (r.bufferAt b).clear
    currentInBuffer := none
    currentInBufferPos := r.offset
    recvHimarkUpdateExpiration := 0
    inRing := ring
    endOfStream := r.endOfStream || last }

/-- Nothing is in focus once all was read. -/
theorem focus_drained {r : Receiver n} {b : Int} (hs : r.inRing.Spans b b)
    (hc : r.CursorAtFront) : r.focus = none := by
  rcases hc with hc | ⟨he, -⟩
  · simp only [focus, hc, hs.empty_iff.mpr rfl, if_true]
  · rw [hs.empty_iff.mpr rfl] at he
    cases he

/-- In focus is the buffer at the front. -/
theorem focus_front {r : Receiver n} {b e : Int} (hs : r.inRing.Spans b e) (hlt : b < e)
    (hc : r.CursorAtFront) : r.focus = some (slotAt n b, r.focused b) := by
  have hoff : r.inRing.offsetFor r.inRing.begin_ = slotAt n b := by
    rw [hs.begin_eq, offsetFor_ofPos]
  rcases hc with hc | ⟨-, hc⟩
  · simp only [focus, hc, hs.empty_eq_false.mpr hlt, hoff, focused, offset]
    rfl
  · rw [hoff] at hc
    simp only [focus, hc, focused, offset]
    rw [← hc]

/-- A round of reading on a nonempty window starting at `b`, whose next state is `ring`. -/
def frontRound (r : Receiver n) (b : Int) (ring : RingBuffer n) (count : Nat) :
    Except Check (Round n) :=
  if (r.bufferAt b).type = .unset then .ok ⟨r.focused b, [], count, false, false⟩
  else if (r.bufferAt b).size < r.offset then .error .readPosition
  else if count < (r.bufferAt b).size - r.offset then
    .ok ⟨{ r.focused b with currentInBufferPos := r.offset + count },
      (r.bufferAt b).slice r.offset count, 0, false, false⟩
  else if (r.bufferAt b).type = .fin then
    if ring.empty then
      .ok ⟨r.released b ring true, (r.bufferAt b).content.drop r.offset,
        count - ((r.bufferAt b).size - r.offset), true, false⟩
    else .error .finNotLast
  else .ok ⟨r.released b ring false, (r.bufferAt b).content.drop r.offset,
    count - ((r.bufferAt b).size - r.offset), true, true⟩

/-- A round of `read` takes from the buffer at the front. -/
theorem readRound_front {r : Receiver n} {b e : Int} {ring : RingBuffer n}
    (hs : r.inRing.Spans b e) (hlt : b < e) (hc : r.CursorAtFront)
    (hp : r.inRing.pop = .ok (.ofPos b, ring)) (count : Nat) :
    r.readRound count = r.frontRound b ring count := by
  have hp' : (r.focused b).inRing.pop = .ok (.ofPos b, ring) := hp
  have hbuf : (r.focused b).inBuffers (slotAt n b) = r.bufferAt b := rfl
  have hoff : (r.focused b).currentInBufferPos = r.offset := rfl
  rw [readRound, focus_front hs hlt hc, frontRound]
  simp only [hp', hbuf, hoff, InBuffer.slice_rest, released, Bool.or_true, Bool.or_false]
  rfl

/-- Everything a round of reading can do on a window spanning `b` to `e`. -/
inductive RoundSpec (r : Receiver n) (b e : Int) (count : Nat) : Except Check (Round n) → Prop
  | drained : b = e →
      RoundSpec r b e count
        (.ok ⟨if r.state = .broken then r.setIdle else r, [], count, false, false⟩)
  | gap : b < e → ¬ r.Received b →
      RoundSpec r b e count (.ok ⟨r.focused b, [], count, false, false⟩)
  | part : b < e → r.Received b → r.offset + count < (r.bufferAt b).size →
      RoundSpec r b e count (.ok
        ⟨{ r.focused b with currentInBufferPos := r.offset + count },
          (r.bufferAt b).slice r.offset count, 0, false, false⟩)
  | data (ring : RingBuffer n) : b < e → (r.bufferAt b).type = .data →
      r.offset ≤ (r.bufferAt b).size → (r.bufferAt b).size ≤ r.offset + count →
      ring.Spans (b + 1) e →
      RoundSpec r b e count (.ok
        ⟨r.released b ring false, (r.bufferAt b).content.drop r.offset,
          count - ((r.bufferAt b).size - r.offset), true, true⟩)
  | fin (ring : RingBuffer n) : b + 1 = e → (r.bufferAt b).type = .fin →
      r.offset ≤ (r.bufferAt b).size → (r.bufferAt b).size ≤ r.offset + count →
      ring.Spans (b + 1) e →
      RoundSpec r b e count (.ok
        ⟨r.released b ring true, (r.bufferAt b).content.drop r.offset,
          count - ((r.bufferAt b).size - r.offset), true, false⟩)
  | badPosition : b < e → r.Received b → (r.bufferAt b).size < r.offset →
      RoundSpec r b e count (.error .readPosition)
  | finInside : b + 1 < e → (r.bufferAt b).type = .fin → r.offset ≤ (r.bufferAt b).size →
      RoundSpec r b e count (.error .finNotLast)

/-- With the cursor at the front, a round does one of the things listed. -/
theorem readRound_spec {r : Receiver n} {b e : Int} (hs : r.inRing.Spans b e)
    (hc : r.CursorAtFront) (count : Nat) : RoundSpec r b e count (r.readRound count) := by
  rcases eq_or_lt_of_le hs.le with rfl | hlt
  · rw [readRound, focus_drained hs hc]
    exact .drained rfl
  obtain ⟨ring, hp, hring⟩ := hs.pop_ok hlt
  rw [readRound_front hs hlt hc hp, frontRound]
  split
  · next hu => exact .gap hlt fun hr ↦ hr hu
  next hr =>
  split
  · next hpos => exact .badPosition hlt hr hpos
  next hpos =>
  split
  · next hcount => exact .part hlt hr (by omega)
  next hcount =>
  split
  · next hfin =>
    split
    · next hemp => exact .fin ring (hring.empty_iff.mp hemp) hfin (by omega) (by omega) hring
    · next hemp =>
      have hne : ¬ b + 1 = e := fun h ↦ hemp (hring.empty_iff.mpr h)
      exact .finInside (by omega) hfin (by omega)
  · next hfin =>
    have hdata : (r.bufferAt b).type = .data := by
      cases ht : (r.bufferAt b).type with
      | unset => exact absurd ht hr
      | data => rfl
      | fin => exact absurd ht hfin
    exact .data ring hlt hdata (by omega) (by omega) hring

/-- Reading leaves the cursor at the front. -/
theorem CursorAtFront.readRound {r : Receiver n} {count : Nat} {round : Round n}
    (hc : r.CursorAtFront) (hr : r.readRound count = .ok round) :
    round.receiver.CursorAtFront := by
  obtain ⟨b, e, hs⟩ := r.inRing.exists_spans
  have hspec := readRound_spec hs hc count
  rw [hr] at hspec
  cases hspec with
  | drained _ =>
    dsimp only
    split
    · exact hc
    · exact hc
  | gap hlt _ => exact cursorAtFront_of_slot hs hlt rfl
  | part hlt _ _ => exact cursorAtFront_of_slot hs hlt rfl
  | data => exact .inl rfl
  | fin => exact .inl rfl

/-- The cursor is at the front, and what was handed out of the first packet is less than all
of it. -/
structure FrontOk (r : Receiver n) (b e : Int) : Prop where
  cursor : r.CursorAtFront
  pos : b < e → r.offset = 0 ∨ (r.Received b ∧ r.offset < (r.bufferAt b).size)

/-- Used up packets leave no offset behind. -/
theorem FrontOk.readRound {r : Receiver n} {b e : Int} {count : Nat} {round : Round n}
    (h : r.FrontOk b e) (hs : r.inRing.Spans b e) (hr : r.readRound count = .ok round) :
    ∃ b', round.receiver.inRing.Spans b' e ∧ round.receiver.FrontOk b' e ∧ b ≤ b' := by
  have hcur := h.cursor.readRound hr
  have hspec := readRound_spec hs h.cursor count
  rw [hr] at hspec
  cases hspec with
  | drained hbe =>
    subst hbe
    refine ⟨b, ?_, ⟨hcur, fun hlt ↦ absurd hlt (lt_irrefl b)⟩, le_refl _⟩
    dsimp only
    split
    · exact hs
    · exact hs
  | gap => exact ⟨b, hs, ⟨hcur, h.pos⟩, le_refl _⟩
  | part _ hrec hlt' => exact ⟨b, hs, ⟨hcur, fun _ ↦ .inr ⟨hrec, hlt'⟩⟩, le_refl _⟩
  | data ring _ _ _ _ hring => exact ⟨b + 1, hring, ⟨hcur, fun _ ↦ .inl rfl⟩, by omega⟩
  | fin ring _ _ _ _ hring => exact ⟨b + 1, hring, ⟨hcur, fun _ ↦ .inl rfl⟩, by omega⟩

/-- Accepting a packet leaves the offset alone. -/
theorem Accepted.offset {r r' : Receiver n} {b e q b' : Int} {payload : List UInt8}
    {isFinal : Bool} (h : Accepted r b e q payload isFinal r' b') : r'.offset = r.offset := by
  rw [h.frame]
  rfl

/-- A packet that is accepted leaves the cursor at the front. -/
theorem CursorAtFront.accepted {r r' : Receiver n} {b e q : Int} {payload : List UInt8}
    {isFinal : Bool} (h : r.CursorAtFront) (hs : r.inRing.Spans b e)
    (ha : Accepted r b e q payload isFinal r' b) : r'.CursorAtFront := by
  have hcur : r'.currentInBuffer = r.currentInBuffer := by rw [ha.frame]
  rcases h with hc | ⟨he, hc⟩
  · exact .inl (hcur.trans hc)
  · have hlt := hs.empty_eq_false.mp he
    refine cursorAtFront_of_slot ha.spans (by omega) ?_
    rw [hcur, hc, hs.begin_eq, offsetFor_ofPos]

/-- A packet taken in leaves the front alone while the input is open. -/
theorem FrontOk.accepted {r r' : Receiver n} {b e q : Int} {payload : List UInt8}
    {isFinal : Bool} (h : r.FrontOk b e) (hs : r.inRing.Spans b e)
    (ha : Accepted r b e q payload isFinal r' b) : r'.FrontOk b (max e (q + 1)) := by
  have hkeep (hlt : b < e) (hr : r.Received b) : r'.bufferAt b = r.bufferAt b := by
    by_cases hbq : b = q
    · subst hbq
      exact ha.duplicate hlt hr
    · exact ha.kept b (le_refl _) hlt hbq
  refine ⟨h.cursor.accepted hs ha, fun _ ↦ ?_⟩
  rw [ha.offset]
  by_cases hlt : b < e
  · rcases h.pos hlt with h0 | ⟨hr, hp⟩
    · exact .inl h0
    · rw [Received, hkeep hlt hr]
      exact .inr ⟨hr, hp⟩
  · -- With an empty window there is no current buffer.
    rcases h.cursor with hc | ⟨he, -⟩
    · exact .inl (by rw [Receiver.offset, hc])
    · exact absurd (hs.empty_eq_false.mp he) hlt

/-! ### Looking without reading -/

/-- The receiver after `peek` or `availableForRead`: the first buffer may have become current. -/
def look (r : Receiver n) : Receiver n :=
  match r.focus with
  | none => r
  | some (_, r') => r'

/-- A peek changes what a look does. -/
theorem peek_fst (r : Receiver n) : r.peek.1 = r.look := by
  unfold peek look
  rcases r.focus with - | ⟨i, r'⟩
  · rfl
  · dsimp only
    split <;> rfl

/-- Asking how much there is to read changes what a look does. -/
theorem availableForRead_fst (r : Receiver n) : r.availableForRead.1 = r.look := by
  unfold availableForRead look
  rcases r.focus with - | ⟨i, r'⟩
  · rfl
  · dsimp only
    split <;> rfl

/-- Looking only ever sets the cursor, to the front of a nonempty window. -/
theorem look_eq (r : Receiver n) : r.look = r ∨
    (r.currentInBuffer = none ∧ r.inRing.empty = false ∧
      r.look = { r with
        currentInBuffer := some (r.inRing.offsetFor r.inRing.begin_)
        currentInBufferPos := 0 }) := by
  unfold look focus
  cases hc : r.currentInBuffer with
  | some i => exact .inl rfl
  | none =>
    cases he : r.inRing.empty with
    | true => exact .inl rfl
    | false => exact .inr ⟨rfl, rfl, rfl⟩

/-- A look leaves the ring alone. -/
theorem look_inRing (r : Receiver n) : r.look.inRing = r.inRing := by
  rcases r.look_eq with h | ⟨-, -, h⟩ <;> rw [h]

/-- A look leaves the buffers alone. -/
theorem look_inBuffers (r : Receiver n) : r.look.inBuffers = r.inBuffers := by
  rcases r.look_eq with h | ⟨-, -, h⟩ <;> rw [h]

/-- A look leaves the offset alone. -/
theorem look_offset (r : Receiver n) : r.look.offset = r.offset := by
  rcases r.look_eq with h | ⟨hc, -, h⟩
  · rw [h]
  · rw [h, offset, offset, hc]

/-- A look leaves the cursor at the front. -/
theorem CursorAtFront.look {r : Receiver n} (h : r.CursorAtFront) : r.look.CursorAtFront := by
  rcases r.look_eq with h' | ⟨-, he, h'⟩
  · rwa [h']
  · rw [h']
    exact .inr ⟨he, rfl⟩

/-- A look leaves the front as it was. -/
theorem FrontOk.look {r : Receiver n} {b e : Int} (h : r.FrontOk b e) : r.look.FrontOk b e := by
  refine ⟨h.cursor.look, fun hlt ↦ ?_⟩
  rw [look_offset, Received, bufferAt, look_inBuffers]
  exact h.pos hlt

/-! ### The loop -/

private theorem focus_inRing {r r' : Receiver n} {i : Fin (2 ^ n.val)}
    (h : r.focus = some (i, r')) : r'.inRing = r.inRing := by
  rw [← look_inRing r, look, h]

/-- A round releases the first slot of the window, or it leaves the window and ends the
loop. -/
theorem readRound_ring {r : Receiver n} {b e : Int} {count : Nat} {round : Round n}
    (hs : r.inRing.Spans b e) (h : r.readRound count = .ok round) :
    (round.receiver.inRing = r.inRing ∧ round.continues = false) ∨
      (b < e ∧ round.receiver.inRing.Spans (b + 1) e) := by
  unfold readRound at h
  split at h
  · cases h
    dsimp only
    split
    · exact .inl ⟨rfl, rfl⟩
    · exact .inl ⟨rfl, rfl⟩
  next i r1 hf =>
  have hsame := focus_inRing hf
  rw [← hsame] at hs ⊢
  dsimp only at h
  split at h
  · cases h; exact .inl ⟨rfl, rfl⟩
  split at h
  · cases h
  split at h
  · cases h; exact .inl ⟨rfl, rfl⟩
  rcases eq_or_lt_of_le hs.le with rfl | hlt
  · rw [hs.pop_error] at h
    cases h
  obtain ⟨ring, hp, hring⟩ := hs.pop_ok hlt
  rw [hp] at h
  dsimp only at h
  split at h
  · split at h
    · cases h; exact .inr ⟨hlt, hring⟩
    · cases h
  · cases h; exact .inr ⟨hlt, hring⟩

/-- A round that does not end the loop has released a slot. -/
theorem readRound_continues {r : Receiver n} {count : Nat} {round : Round n}
    (h : r.readRound count = .ok round) (hc : round.continues = true) :
    round.receiver.inRing.slotsUsed < r.inRing.slotsUsed := by
  obtain ⟨b, e, hs⟩ := r.inRing.exists_spans
  rcases readRound_ring hs h with ⟨-, hstop⟩ | ⟨hlt, hring⟩
  · exact absurd (hc.symm.trans hstop) (by decide)
  · have h1 := hs.slotsUsed_eq
    have h2 := hring.slotsUsed_eq
    omega

/-- What reading never touches: everything but the ring, the slots, the cursor and the
deadline of the next flow-control packet. -/
structure SameLink (r r' : Receiver n) : Prop where
  myStreamId : r'.myStreamId = r.myStreamId
  controlBit : r'.controlBit = r.controlBit
  unackSeq : r'.unackSeq = r.unackSeq
  needsAck : r'.needsAck = r.needsAck
  recvHimark : r'.recvHimark = r.recvHimark
  packetsReceived : r'.packetsReceived = r.packetsReceived
  state : r.state ≠ .broken →
    r'.state = r.state ∧ r'.selfClosed = r.selfClosed ∧ r'.peerClosed = r.peerClosed

private theorem SameLink.refl (r : Receiver n) : SameLink r r :=
  ⟨rfl, rfl, rfl, rfl, rfl, rfl, fun _ ↦ ⟨rfl, rfl, rfl⟩⟩

private theorem SameLink.trans {r r' r'' : Receiver n} (h : SameLink r r') (h' : SameLink r' r'') :
    SameLink r r'' := by
  refine ⟨h'.1.trans h.1, h'.2.trans h.2, h'.3.trans h.3, h'.4.trans h.4, h'.5.trans h.5,
    h'.6.trans h.6, fun hb ↦ ?_⟩
  obtain ⟨hs, hc, hp⟩ := h.state hb
  obtain ⟨hs', hc', hp'⟩ := h'.state (hs ▸ hb)
  exact ⟨hs'.trans hs, hc'.trans hc, hp'.trans hp⟩

/-- A look does not touch the link. -/
theorem look_sameLink (r : Receiver n) : SameLink r r.look := by
  rcases r.look_eq with h | ⟨-, -, h⟩
  · rw [h]
    exact .refl r
  · rw [h]
    exact ⟨rfl, rfl, rfl, rfl, rfl, rfl, fun _ ↦ ⟨rfl, rfl, rfl⟩⟩

/-- A round of reading does not touch the link. -/
theorem readRound_sameLink {r : Receiver n} {count : Nat} {round : Round n}
    (h : r.readRound count = .ok round) : SameLink r round.receiver := by
  unfold readRound at h
  split at h
  · cases h
    dsimp only
    split
    · next hb => exact ⟨rfl, rfl, rfl, rfl, rfl, rfl, fun hn ↦ absurd hb hn⟩
    · exact .refl _
  next i r1 hf =>
  have hlook : r.look = r1 := by rw [look, hf]
  refine (hlook ▸ look_sameLink r).trans ?_
  dsimp only at h
  split at h
  · cases h; exact .refl _
  split at h
  · cases h
  split at h
  · cases h; exact ⟨rfl, rfl, rfl, rfl, rfl, rfl, fun _ ↦ ⟨rfl, rfl, rfl⟩⟩
  split at h
  · cases h
  split at h
  · split at h
    · cases h; exact ⟨rfl, rfl, rfl, rfl, rfl, rfl, fun _ ↦ ⟨rfl, rfl, rfl⟩⟩
    · cases h
  · cases h; exact ⟨rfl, rfl, rfl, rfl, rfl, rfl, fun _ ↦ ⟨rfl, rfl, rfl⟩⟩

/-- A round of reading keeps what holds of every slot, if clearing a slot does. -/
theorem readRound_slots {P : InBuffer → Prop} (hP : SlotKept P) {r : Receiver n} {count : Nat}
    {round : Round n} (h : r.readRound count = .ok round) (hr : ∀ i, P (r.inBuffers i)) :
    ∀ i, P (round.receiver.inBuffers i) := by
  unfold readRound at h
  split at h
  · cases h
    dsimp only
    split
    · exact hr
    · exact hr
  next i r1 hf =>
  have hlook : r.look = r1 := by rw [look, hf]
  have hr1 : ∀ i, P (r1.inBuffers i) := by rw [← hlook, look_inBuffers]; exact hr
  dsimp only at h
  split at h
  · cases h; exact hr1
  split at h
  · cases h
  split at h
  · cases h; exact hr1
  split at h
  · cases h
  have hclr : ∀ j, P (Function.update r1.inBuffers i (r1.inBuffers i).clear j) :=
    forall_update hr1 (hP.clear (hr1 i))
  split at h
  · split at h
    · cases h; exact hclr
    · cases h
  · cases h; exact hclr

section Rules

-- `I` speaks of the receiver, the count still wanted and the bytes handed out so far.
variable {I : Receiver n → Nat → List UInt8 → Prop}
  (hgo : ∀ r count acc round, I r count acc → r.readRound count = .ok round →
    round.continues = true → 0 < round.left →
    I round.receiver round.left (acc ++ round.bytes))

include hgo

/-- Invariant rule for the reading loop. -/
theorem tryReadLoop_rule {Q : Receiver n → List UInt8 → Prop}
    (hstop : ∀ r count acc round, I r count acc → r.readRound count = .ok round →
      (round.continues = true → round.left = 0) → Q round.receiver (acc ++ round.bytes))
    (fuel : Nat) : ∀ {r r' : Receiver n} {count : Nat} {acc bytes : List UInt8} {ready : Bool},
      r.inRing.slotsUsed < fuel → I r count acc →
      tryReadLoop fuel r count = .ok (r', bytes, ready) → Q r' (acc ++ bytes) := by
  induction fuel with
  | zero => intro r r' count acc bytes ready hf; omega
  | succ fuel ih =>
    intro r r' count acc bytes ready hf hi h
    rw [tryReadLoop] at h
    cases hr : r.readRound count with
    | error c => rw [hr] at h; cases h
    | ok round =>
      rw [hr] at h
      dsimp only at h
      split at h
      · next hcont =>
        obtain ⟨hcont, hleft⟩ := hcont
        cases hl : tryReadLoop fuel round.receiver round.left with
        | error c => rw [hl] at h; cases h
        | ok out =>
          obtain ⟨r1, rest, ready1⟩ := out
          rw [hl] at h
          cases h
          have hlt := readRound_continues hr hcont
          have := ih (by omega) (hgo _ _ _ _ hi hr hcont hleft) hl
          rwa [List.append_assoc] at this
      · next hcont =>
        cases h
        exact hstop _ _ _ _ hi hr fun hc ↦ by
          by_contra hne
          exact hcont ⟨hc, by omega⟩

/-- The reading loop fails no check if no round does. -/
theorem tryReadLoop_total
    (hok : ∀ r count acc, I r count acc → ∃ round, r.readRound count = .ok round)
    (fuel : Nat) : ∀ {r : Receiver n} {count : Nat} {acc : List UInt8}, I r count acc →
      ∃ out, tryReadLoop fuel r count = .ok out := by
  induction fuel with
  | zero => intro r count acc _; exact ⟨_, rfl⟩
  | succ fuel ih =>
    intro r count acc hi
    obtain ⟨round, hr⟩ := hok r count acc hi
    rw [tryReadLoop, hr]
    dsimp only
    split
    · next hcont =>
      obtain ⟨⟨r1, rest, ready⟩, hl⟩ := ih (hgo _ _ _ _ hi hr hcont.1 hcont.2)
      rw [hl]
      exact ⟨_, rfl⟩
    · exact ⟨_, rfl⟩

/-- Invariant rule for `tryRead`. -/
theorem tryRead_rule {Q : Receiver n → List UInt8 → Prop}
    (hstop : ∀ r count acc round, I r count acc → r.readRound count = .ok round →
      (round.continues = true → round.left = 0) → Q round.receiver (acc ++ round.bytes))
    {r r' : Receiver n} {count : Nat} {bytes : List UInt8} {ready : Bool} (hi : I r count [])
    (hidle : r.state = .connecting ∨ r.state = .idle → Q r [])
    (h : r.tryRead count = .ok (r', bytes, ready)) : Q r' bytes := by
  unfold tryRead at h
  split at h
  · next hst => cases h; exact hidle hst
  · exact tryReadLoop_rule hgo hstop _ (Nat.lt_succ_self _) hi h

/-- `tryRead` fails no check if no round does. -/
theorem tryRead_total (hok : ∀ r count acc, I r count acc → ∃ round, r.readRound count = .ok round)
    {r : Receiver n} {count : Nat} (hi : I r count []) : ∃ out, r.tryRead count = .ok out := by
  unfold tryRead
  split
  · exact ⟨_, rfl⟩
  · exact tryReadLoop_total hgo hok _ hi

end Rules

/-- Reading touches neither flags nor counters of the link. -/
theorem tryRead_sameLink {r r' : Receiver n} {count : Nat} {bytes : List UInt8} {ready : Bool}
    (h : r.tryRead count = .ok (r', bytes, ready)) : SameLink r r' :=
  tryRead_rule (I := fun s _ _ ↦ SameLink r s) (Q := fun s _ ↦ SameLink r s)
    (fun _ _ _ _ hi hr _ _ ↦ hi.trans (readRound_sameLink hr))
    (fun _ _ _ _ hi hr _ ↦ hi.trans (readRound_sameLink hr)) (.refl r) (fun _ ↦ .refl r) h

/-- Reading only ever moves the start of the window. -/
theorem tryRead_ring {r r' : Receiver n} {b e : Int} {count : Nat} {bytes : List UInt8}
    {ready : Bool} (hs : r.inRing.Spans b e) (h : r.tryRead count = .ok (r', bytes, ready)) :
    ∃ b', r'.inRing.Spans b' e ∧ b ≤ b' := by
  have hround (s : Receiver n) (k : Nat) (round : Round n)
      (hi : ∃ b', s.inRing.Spans b' e ∧ b ≤ b') (hk : s.readRound k = .ok round) :
      ∃ b', round.receiver.inRing.Spans b' e ∧ b ≤ b' := by
    obtain ⟨b1, hs1, hb1⟩ := hi
    rcases readRound_ring hs1 hk with ⟨hring, -⟩ | ⟨-, hring⟩
    · rw [hring]
      exact ⟨b1, hs1, hb1⟩
    · exact ⟨b1 + 1, hring, by omega⟩
  exact tryRead_rule (I := fun s _ _ ↦ ∃ b', s.inRing.Spans b' e ∧ b ≤ b')
    (Q := fun s _ ↦ ∃ b', s.inRing.Spans b' e ∧ b ≤ b')
    (fun s k _ round hi hk _ _ ↦ hround s k round hi hk)
    (fun s k _ round hi hk _ ↦ hround s k round hi hk) ⟨b, hs, le_refl b⟩
    (fun _ ↦ ⟨b, hs, le_refl b⟩) h

/-- Reading leaves the front in order. -/
theorem FrontOk.tryRead {r r' : Receiver n} {b e : Int} {count : Nat} {bytes : List UInt8}
    {ready : Bool} (h : r.FrontOk b e) (hs : r.inRing.Spans b e)
    (hr : r.tryRead count = .ok (r', bytes, ready)) :
    ∃ b', r'.inRing.Spans b' e ∧ r'.FrontOk b' e ∧ b ≤ b' := by
  have hround (s : Receiver n) (k : Nat) (round : Round n)
      (hi : ∃ b', s.inRing.Spans b' e ∧ s.FrontOk b' e ∧ b ≤ b')
      (hk : s.readRound k = .ok round) :
      ∃ b', round.receiver.inRing.Spans b' e ∧ round.receiver.FrontOk b' e ∧ b ≤ b' := by
    obtain ⟨b1, hs1, hf1, hb1⟩ := hi
    obtain ⟨b2, hs2, hf2, hb2⟩ := hf1.readRound hs1 hk
    exact ⟨b2, hs2, hf2, by omega⟩
  exact tryRead_rule (I := fun s _ _ ↦ ∃ b', s.inRing.Spans b' e ∧ s.FrontOk b' e ∧ b ≤ b')
    (Q := fun s _ ↦ ∃ b', s.inRing.Spans b' e ∧ s.FrontOk b' e ∧ b ≤ b')
    (fun s k _ round hi hk _ _ ↦ hround s k round hi hk)
    (fun s k _ round hi hk _ ↦ hround s k round hi hk)
    ⟨b, hs, h, le_refl _⟩ (fun _ ↦ ⟨b, hs, h, le_refl _⟩) hr

/-- Packet arrival leaves the front in order while the input is open. -/
theorem FrontOk.handleDataPacket {r r' : Receiver n} {b e : Int} {controlBit : Bool}
    {seqId : BitVec 16} {payload : List UInt8} {isFinal ack new : Bool} (h : r.FrontOk b e)
    (hs : r.inRing.Spans b e) (hsc : r.selfClosed = false)
    (hh : r.handleDataPacket controlBit seqId payload isFinal = .ok (r', ack, new)) :
    ∃ e', r'.inRing.Spans b e' ∧ r'.FrontOk b e' ∧ e ≤ e' := by
  cases handleDataPacket_arrival hs hh with
  | ignored => exact ⟨e, hs, h, le_refl _⟩
  | consumed => exact ⟨e, hs, ⟨h.cursor, h.pos⟩, le_refl _⟩
  | accepted q b' _ _ _ _ _ _ _ _ ha =>
    obtain rfl := ha.begin_eq hsc
    exact ⟨_, ha.spans, h.accepted hs ha, le_max_left _ _⟩

/-- Reading keeps what holds of every slot. -/
theorem tryRead_slots {P : InBuffer → Prop} (hP : SlotKept P) {r r' : Receiver n} {count : Nat}
    {bytes : List UInt8} {ready : Bool} (h : r.tryRead count = .ok (r', bytes, ready))
    (hr : ∀ i, P (r.inBuffers i)) : ∀ i, P (r'.inBuffers i) :=
  tryRead_rule (I := fun s _ _ ↦ ∀ i, P (s.inBuffers i)) (Q := fun s _ ↦ ∀ i, P (s.inBuffers i))
    (fun _ _ _ _ hi hr _ _ ↦ readRound_slots hP hr hi)
    (fun _ _ _ _ hi hr _ ↦ readRound_slots hP hr hi) hr (fun _ ↦ hr) h

/-- The loop always ends by itself: granting it more rounds changes nothing. -/
theorem tryReadLoop_fuel (k : Nat) : ∀ (fuel : Nat) (r : Receiver n) (count : Nat),
    r.inRing.slotsUsed < fuel → tryReadLoop (fuel + k) r count = tryReadLoop fuel r count
  | 0, r, count, hf => by omega
  | fuel + 1, r, count, hf => by
    rw [Nat.add_right_comm, tryReadLoop, tryReadLoop]
    cases hr : r.readRound count with
    | error c => rfl
    | ok round =>
      dsimp only
      split
      · next hcont =>
        have hlt := readRound_continues hr hcont.1
        rw [tryReadLoop_fuel k fuel round.receiver round.left (by omega)]
      · rfl

end Receiver

end RooTransport.Link
