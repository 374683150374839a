import RooTransport.Link.ReceiverWindow

/-!
# Isolation of successive connections

`Channel::connect` reuses a receiver through `init` and `setConnected`
(`receiver.cpp:25–31,163–172`). Slots keep the bytes of earlier connections, and `init`
leaves the cursor alone. This module says when a receiver prepared so cannot be told from a
newly constructed one by any later calls.
-/

namespace RooTransport.Link

open RooTransport.Base RingBuffer

namespace InBuffer

/-- Buffers a reader cannot tell apart: an unset one says nothing, a stored packet is its
type and its bytes. -/
structure Same (x y : InBuffer) : Prop where
  type : x.type = y.type
  size : y.type ≠ .unset → x.size = y.size
  content : y.type ≠ .unset → x.content = y.content

private theorem Same.refl (x : InBuffer) : Same x x := ⟨rfl, fun _ ↦ rfl, fun _ ↦ rfl⟩

end InBuffer

namespace Receiver

variable {n : LinkBufferSize}

/-- A used receiver `r` and a reference `f` whose windows span `b` to `e` and that give the
same answers. Before the first packet, `r` may still point at the slot that packet will
fill, provided nothing is stored or counted there. -/
structure Alike (r f : Receiver n) (b e : Int) : Prop where
  spans : f.inRing.Spans b e
  ring : r.inRing = f.inRing
  connected : f.state = .connected
  state : r.state = f.state
  inputOpen : f.selfClosed = false
  selfClosed : r.selfClosed = f.selfClosed
  peerClosed : r.peerClosed = f.peerClosed
  endOfStream : r.endOfStream = f.endOfStream
  unackSeq : r.unackSeq = f.unackSeq
  controlBit : r.controlBit = f.controlBit
  same : ∀ p, b ≤ p → p < e → (r.bufferAt p).Same (f.bufferAt p)
  nonempty : ∀ p, b ≤ p → p < e → (f.bufferAt p).type = .data → 0 < (f.bufferAt p).size
  front : f.FrontOk b e
  offset : r.offset = f.offset
  cursor : r.CursorAtFront ∨
    (b = e ∧ r.currentInBuffer = some (slotAt n b) ∧ ¬ r.Received b)

/-- Some window on which two receivers are alike. -/
def AlikeSome (r f : Receiver n) : Prop := ∃ b e, Alike r f b e

namespace Alike

variable {r f : Receiver n} {b e : Int}

private theorem spans' (h : Alike r f b e) : r.inRing.Spans b e := h.ring ▸ h.spans

private theorem cursor_of_lt (h : Alike r f b e) (hlt : b < e) : r.CursorAtFront := by
  rcases h.cursor with hc | ⟨hbe, -⟩
  · exact hc
  · omega

/-- Only the cursors moved, to the front on both sides. -/
theorem refocused (h : Alike r f b e) (hlt : b < e) (k : Nat)
    (hk : k = 0 ∨ (f.Received b ∧ k < (f.bufferAt b).size)) :
    Alike { r.focused b with currentInBufferPos := k } { f.focused b with currentInBufferPos := k }
      b e := by
  have hcur (s : Receiver n) (hs : s.inRing.Spans b e) :
      { s.focused b with currentInBufferPos := k }.CursorAtFront := by
    refine .inr ⟨hs.empty_eq_false.mpr hlt, ?_⟩
    change some (slotAt n b) = some (s.inRing.offsetFor s.inRing.begin_)
    rw [hs.begin_eq, offsetFor_ofPos]
  exact ⟨h.spans, h.ring, h.connected, h.state, h.inputOpen, h.selfClosed, h.peerClosed,
    h.endOfStream, h.unackSeq, h.controlBit, h.same, h.nonempty, ⟨hcur f h.spans, fun _ ↦ hk⟩, rfl,
    .inl (hcur r h.spans')⟩

/-- Both used up the first packet. -/
theorem released (h : Alike r f b e) {ring : RingBuffer n}
    (hring : ring.Spans (b + 1) e) (last : Bool) :
    Alike (r.released b ring last) (f.released b ring last) (b + 1) e := by
  have hus := h.spans.used
  have hkept (s : Receiver n) (p : Int) (hp : b + 1 ≤ p) (hpe : p < e) :
      (s.released b ring last).bufferAt p = s.bufferAt p :=
    Function.update_of_ne (slotAt_ne (by omega) (by omega) (by omega)) _ _
  refine ⟨hring, rfl, h.connected, h.state, h.inputOpen, h.selfClosed, h.peerClosed, ?_,
    h.unackSeq, h.controlBit, ?_, ?_, ⟨.inl rfl, fun _ ↦ .inl rfl⟩, rfl, .inl (.inl rfl)⟩
  · exact congrArg (· || last) h.endOfStream
  · intro p hp hpe
    rw [hkept r p hp hpe, hkept f p hp hpe]
    exact h.same p (by omega) hpe
  · intro p hp hpe
    rw [hkept f p hp hpe]
    exact h.nonempty p (by omega) hpe

end Alike

/-- Rounds of reading that cannot be told apart. -/
inductive RoundsAgree (e : Int) : Except Check (Round n) → Except Check (Round n) → Prop
  | error (c : Check) : RoundsAgree e (.error c) (.error c)
  | ok {x y : Receiver n} (b : Int) (bytes : List UInt8) (left : Nat) (released continues : Bool) :
      Alike x y b e → RoundsAgree e (.ok ⟨x, bytes, left, released, continues⟩)
        (.ok ⟨y, bytes, left, released, continues⟩)

private theorem readRound_drained {r f : Receiver n} {b : Int} (h : Alike r f b b) (count : Nat) :
    RoundsAgree b (r.readRound count) (f.readRound count) := by
  have hst : f.state ≠ .broken := by rw [h.connected]; decide
  rw [readRound, readRound, focus_drained h.spans h.front.cursor, if_neg hst]
  rcases h.cursor with hc | ⟨-, hc, hr⟩
  · rw [focus_drained h.spans' hc, if_neg (h.state ▸ hst)]
    exact .ok b [] count false false h
  · have hf : r.focus = some (slotAt n b, r) := by rw [focus, hc]
    have hu : (r.inBuffers (slotAt n b)).type = .unset := not_not.mp hr
    simp only [hf, hu, if_true]
    exact .ok b [] count false false h

/-- Like receivers go through like rounds. -/
theorem Alike.readRound {r f : Receiver n} {b e : Int} (h : Alike r f b e) (count : Nat) :
    RoundsAgree e (r.readRound count) (f.readRound count) := by
  rcases eq_or_lt_of_le h.spans.le with rfl | hlt
  · exact readRound_drained h count
  obtain ⟨ring, hp, hring⟩ := h.spans.pop_ok hlt
  have hp' : r.inRing.pop = .ok (.ofPos b, ring) := h.ring ▸ hp
  have hsame := h.same b (le_refl _) hlt
  rw [readRound_front h.spans' hlt (h.cursor_of_lt hlt) hp',
    readRound_front h.spans hlt h.front.cursor hp]
  unfold frontRound
  rw [hsame.type, h.offset]
  split
  · next hu =>
    refine .ok b [] count false false ?_
    have h0 : f.offset = 0 := by
      rcases h.front.pos hlt with h0 | ⟨hr, -⟩
      · exact h0
      · exact absurd hu hr
    have := h.refocused hlt 0 (.inl rfl)
    rwa [focused, focused, h.offset, h0]
  next hr =>
  rw [hsame.size hr, hsame.content hr]
  split
  · exact .error _
  split
  · next hcount =>
    have hslice : (r.bufferAt b).slice f.offset count = (f.bufferAt b).slice f.offset count := by
      have hsz := hsame.size hr
      rw [InBuffer.slice_eq _ (by omega), InBuffer.slice_eq _ (by omega), hsame.content hr]
    rw [hslice]
    exact .ok b _ 0 false false (h.refocused hlt _ (.inr ⟨hr, by omega⟩))
  split
  · split
    · exact .ok (b + 1) _ _ true false (h.released hring true)
    · exact .error _
  · exact .ok (b + 1) _ _ true true (h.released hring false)

private theorem tryReadLoop_agree (fuel : Nat) : ∀ {r f : Receiver n} {b e : Int},
    Alike r f b e → ∀ count,
      Agree AlikeSome (tryReadLoop fuel r count) (tryReadLoop fuel f count) := by
  induction fuel with
  | zero =>
    intro r f b e h count
    exact .ok ([], false) ⟨b, e, h⟩
  | succ fuel ih =>
    intro r f b e h count
    have hround := h.readRound count
    rw [tryReadLoop, tryReadLoop]
    revert hround
    generalize r.readRound count = x
    generalize f.readRound count = y
    intro hround
    cases hround with
    | error c => exact .error c
    | ok b' bytes left rel cont h' =>
      dsimp only
      split
      · have hrest := ih h' left
        revert hrest
        generalize tryReadLoop fuel _ left = x
        generalize tryReadLoop fuel _ left = y
        intro hrest
        cases hrest with
        | error c => exact .error c
        | ok out hs => exact .ok (bytes ++ out.1, true) hs
      · exact .ok (bytes, rel) ⟨b', e, h'⟩

/-- Like receivers read alike. -/
theorem Alike.tryRead {r f : Receiver n} {b e : Int} (h : Alike r f b e) (count : Nat) :
    Agree AlikeSome (r.tryRead count) (f.tryRead count) := by
  have hf : ¬ (f.state = .connecting ∨ f.state = .idle) := by rw [h.connected]; decide
  unfold Receiver.tryRead
  rw [h.state, if_neg hf, if_neg hf, h.ring]
  exact tryReadLoop_agree _ h count

private theorem Alike.focus {r f : Receiver n} {b e : Int} (h : Alike r f b e) :
    (b < e ∧ r.focus = some (slotAt n b, r.focused b) ∧
      f.focus = some (slotAt n b, f.focused b) ∧ Alike (r.focused b) (f.focused b) b e) ∨
    (f.focus = none ∧ (r.focus = none ∨ r.focus = some (slotAt n b, r) ∧ ¬ r.Received b)) := by
  rcases eq_or_lt_of_le h.spans.le with rfl | hlt
  · refine .inr ⟨focus_drained h.spans h.front.cursor, ?_⟩
    rcases h.cursor with hc | ⟨-, hc, hr⟩
    · exact .inl (focus_drained h.spans' hc)
    · exact .inr ⟨by rw [Receiver.focus, hc], hr⟩
  · refine .inl ⟨hlt, focus_front h.spans' hlt (h.cursor_of_lt hlt),
      focus_front h.spans hlt h.front.cursor, ?_⟩
    have := h.refocused hlt f.offset (h.front.pos hlt)
    rwa [focused, focused, h.offset]

/-- Like receivers show the same next byte. -/
theorem Alike.peek {r f : Receiver n} {b e : Int} (h : Alike r f b e) :
    AlikeSome r.peek.1 f.peek.1 ∧ r.peek.2 = f.peek.2 := by
  rcases h.focus with ⟨hlt, hr, hf, h'⟩ | ⟨hf, hr | ⟨hr, hu⟩⟩
  · have hsame := h.same b (le_refl _) hlt
    have hpos := h.front.pos hlt
    have hne := h.nonempty b (le_refl _) hlt
    rw [bufferAt, bufferAt] at hsame
    rw [bufferAt] at hpos hne
    have hbr : (r.focused b).inBuffers (slotAt n b) = r.inBuffers (slotAt n b) := rfl
    have hbf : (f.focused b).inBuffers (slotAt n b) = f.inBuffers (slotAt n b) := rfl
    have hor : (r.focused b).currentInBufferPos = f.offset := h.offset
    have hof : (f.focused b).currentInBufferPos = f.offset := rfl
    simp only [Receiver.peek, hr, hf, hbr, hbf, hor, hof, hsame.type]
    split
    · next ht =>
      have hset : (f.inBuffers (slotAt n b)).type ≠ .unset := by rw [ht]; decide
      have hlt' : f.offset < (f.inBuffers (slotAt n b)).size := by
        have := hne ht
        rcases hpos with h0 | ⟨-, hp⟩ <;> omega
      have hsz := hsame.size hset
      rw [InBuffer.payload_getElem _ (hsz ▸ hlt'), InBuffer.payload_getElem _ hlt',
        hsame.content hset]
      exact ⟨⟨b, e, h'⟩, rfl⟩
    · exact ⟨⟨b, e, h'⟩, rfl⟩
  · simp only [Receiver.peek, hr, hf, and_true]
    exact ⟨b, e, h⟩
  · have hu' : (r.inBuffers (slotAt n b)).type = .unset := not_not.mp hu
    simp only [Receiver.peek, hr, hf, hu']
    exact ⟨⟨b, e, h⟩, rfl⟩

/-- Like receivers report the same count of bytes to read. -/
theorem Alike.availableForRead {r f : Receiver n} {b e : Int} (h : Alike r f b e) :
    AlikeSome r.availableForRead.1 f.availableForRead.1 ∧
      r.availableForRead.2 = f.availableForRead.2 := by
  rcases h.focus with ⟨hlt, hr, hf, h'⟩ | ⟨hf, hr | ⟨hr, hu⟩⟩
  · have hsame := h.same b (le_refl _) hlt
    rw [bufferAt, bufferAt] at hsame
    have hbr : (r.focused b).inBuffers (slotAt n b) = r.inBuffers (slotAt n b) := rfl
    have hbf : (f.focused b).inBuffers (slotAt n b) = f.inBuffers (slotAt n b) := rfl
    have hor : (r.focused b).currentInBufferPos = f.offset := h.offset
    have hof : (f.focused b).currentInBufferPos = f.offset := rfl
    simp only [Receiver.availableForRead, hr, hf, hbr, hbf, hor, hof, hsame.type]
    split
    · exact ⟨⟨b, e, h'⟩, rfl⟩
    · exact ⟨⟨b, e, h'⟩, rfl⟩
    · next ht =>
      rw [hsame.size (by rw [ht]; decide)]
      exact ⟨⟨b, e, h'⟩, rfl⟩
  · simp only [Receiver.availableForRead, hr, hf, and_true]
    exact ⟨b, e, h⟩
  · have hu' : (r.inBuffers (slotAt n b)).type = .unset := not_not.mp hu
    simp only [Receiver.availableForRead, hr, hf, hu', and_true]
    exact ⟨b, e, h⟩

/-- The packets `Channel::packetReceived` passes on (`channel.cpp:488–491,524–527`): no more
than 248 bytes, and at least one unless the packet ends the stream. -/
def PassedOn (payload : List UInt8) (isFinal : Bool) : Prop :=
  payload.length ≤ 248 ∧ (isFinal = false → payload ≠ [])

private theorem same_of_set {x y x' y' : InBuffer} {type : InBufferType} {payload : List UInt8}
    (hx : x.set type payload = .ok x') (hy : y.set type payload = .ok y') : x'.Same y' := by
  obtain ⟨hxs, -, hxc, -⟩ := InBuffer.of_set hx
  obtain ⟨hys, -, hyc, -⟩ := InBuffer.of_set hy
  exact ⟨(InBuffer.type_of_set hx).trans (InBuffer.type_of_set hy).symm,
    fun _ ↦ hxs.trans hys.symm, fun _ ↦ hxc.trans hyc.symm⟩

/-- Taking in one packet, like receivers move `unackSeq` alike. -/
theorem unack_agree {r f r' f' : Receiver n} {b e q b1 b2 : Int} {payload : List UInt8}
    {isFinal : Bool} (hun : r.unackSeq = f.unackSeq)
    (hsame : ∀ p, b ≤ p → p < max e (q + 1) → (r'.Received p ↔ f'.Received p)) (hb : b ≤ q)
    (hr : Accepted r b e q payload isFinal r' b1) (hf : Accepted f b e q payload isFinal f' b2) :
    r'.unackSeq = f'.unackSeq := by
  rcases hr.unack with ⟨hne, hr1, -⟩ | ⟨heq, u, hr1, hu, hue, hall, hgap, -⟩
  · rcases hf.unack with ⟨-, hf1, -⟩ | ⟨heq', -⟩
    · rw [hr1, hf1, hun]
    · exact absurd (hun.trans heq') hne
  · rcases hf.unack with ⟨hne', -⟩ | ⟨-, v, hf1, hv, hve, hall', hgap', -⟩
    · exact absurd (hun.symm.trans heq) hne'
    · -- Both stop at the first gap, and the gaps are the same.
      have huv : u = v := by
        rcases lt_trichotomy u v with hlt | heq | hlt
        · exact absurd ((hsame u (by omega) (by omega)).mpr (hall' u (by omega) hlt))
            (hgap (by omega))
        · exact heq
        · exact absurd ((hsame v (by omega) (by omega)).mp (hall v (by omega) hlt))
            (hgap' (by omega))
      rw [hr1, hf1, huv]

/-- Like receivers stay alike when both take in one packet. -/
theorem Alike.accepted {r f r' f' : Receiver n} {b e q b1 b2 : Int} {payload : List UInt8}
    {isFinal : Bool} (h : Alike r f b e) (hp : PassedOn payload isFinal) (hb : b ≤ q)
    (hr : Accepted r b e q payload isFinal r' b1) (hf : Accepted f b e q payload isFinal f' b2) :
    Alike r' f' b (max e (q + 1)) := by
  obtain rfl := hr.begin_eq (h.selfClosed.trans h.inputOpen)
  obtain rfl := hf.begin_eq h.inputOpen
  have hrecv : q < e → (r.Received q ↔ f.Received q) := fun hq ↦ by
    rw [Received, Received, (h.same q hb hq).type]
  have hsame : ∀ p, b ≤ p → p < max e (q + 1) → (r'.bufferAt p).Same (f'.bufferAt p) := by
    intro p hp1 hp2
    by_cases hpq : p = q
    · subst hpq
      by_cases hd : p < e ∧ f.Received p
      · rw [hr.duplicate hd.1 ((hrecv hd.1).mpr hd.2), hf.duplicate hd.1 hd.2]
        exact h.same p hb hd.1
      · obtain ⟨x, hx⟩ := hr.stored fun hq hrec ↦ hd ⟨hq, (hrecv hq).mp hrec⟩
        obtain ⟨y, hy⟩ := hf.stored fun hq hrec ↦ hd ⟨hq, hrec⟩
        exact same_of_set hx hy
    · by_cases hpe : p < e
      · rw [hr.kept p hp1 hpe hpq, hf.kept p hp1 hpe hpq]
        exact h.same p hp1 hpe
      · have hru := hr.gap p (by omega) (by omega)
        have hfu := hf.gap p (by omega) (by omega)
        rw [Received, not_not] at hru hfu
        exact ⟨hru.trans hfu.symm, fun hne ↦ absurd hfu hne, fun hne ↦ absurd hfu hne⟩
  have hun := unack_agree h.unackSeq
    (fun p hp1 hp2 ↦ by rw [Received, Received, (hsame p hp1 hp2).type]) hb hr hf
  refine ⟨hf.spans, hr.spans.unique hf.spans, ?_, ?_, ?_, ?_, ?_, ?_, hun, ?_, hsame, ?_,
    h.front.accepted h.spans hf, ?_, ?_⟩
  · rw [hf.frame]; exact h.connected
  · rw [hr.frame, hf.frame]; exact h.state
  · rw [hf.frame]; exact h.inputOpen
  · rw [hr.frame, hf.frame]; exact h.selfClosed
  · rw [hr.frame, hf.frame]; exact congrArg (· || isFinal) h.peerClosed
  · rw [hr.frame, hf.frame]; exact h.endOfStream
  · rw [hr.frame, hf.frame]; exact h.controlBit
  · intro p hp1 hp2 hdata
    rcases hf.buffer hp1 hp2 with ⟨hpe, hkept⟩ | hgap | ⟨rfl, -, y, hy⟩
    · rw [hkept] at hdata ⊢
      exact h.nonempty p hp1 hpe hdata
    · exact absurd (by rw [Received, hdata]; decide) hgap
    · have hfin : isFinal = false := by
        rw [InBuffer.type_of_set hy] at hdata
        cases isFinal with
        | false => rfl
        | true => cases hdata
      rw [(InBuffer.of_set hy).1, Nat.mod_eq_of_lt (by have := hp.1; omega)]
      exact List.length_pos_iff.mpr (hp.2 hfin)
  · rw [hr.offset, hf.offset]; exact h.offset
  · left
    rcases h.cursor with hc | ⟨hbe, hc, -⟩
    · exact hc.accepted h.spans' hr
    · exact cursorAtFront_of_slot hr.spans (by omega) (by rw [hr.frame]; exact hc)

private theorem Alike.ignored_iff {r f : Receiver n} {b e : Int} (h : Alike r f b e)
    {controlBit : Bool} {seqId : BitVec 16} :
    Ignored r b e controlBit seqId ↔ Ignored f b e controlBit seqId := by
  rw [Ignored, Ignored, h.state, h.controlBit, h.ring, h.peerClosed]

-- What is not ignored is not ignored by the other, and its position is the same.
private theorem not_ignored {f : Receiver n} {b e q : Int} {controlBit : Bool} {seqId : BitVec 16}
    (hs : f.inRing.Spans b e) (hc : f.state ≠ .connecting) (hi : f.state ≠ .idle)
    (hcb : controlBit ≠ f.controlBit) (hq : f.inRing.restorePosHighBits seqId 12 = .ofPos q)
    (hl : b - 2048 ≤ q) (hu : q < b + 2 ^ n.val) (hpc : e ≤ q → f.peerClosed = false) :
    ¬ Ignored f b e controlBit seqId := by
  intro hign
  have hcap := capacity_le n
  obtain ⟨he, hno⟩ := hign.beyond hs hc hi hcb hq hl (by omega)
  rw [hpc he] at hno
  simp only [Bool.false_eq_true, false_or] at hno
  omega

/-- Like receivers treat a packet alike. -/
theorem Alike.handleDataPacket {r f : Receiver n} {b e : Int} (h : Alike r f b e)
    (controlBit : Bool) (seqId : BitVec 16) {payload : List UInt8} {isFinal : Bool}
    (hp : PassedOn payload isFinal) :
    Agree AlikeSome (r.handleDataPacket controlBit seqId payload isFinal)
      (f.handleDataPacket controlBit seqId payload isFinal) := by
  obtain ⟨⟨r', ack, new⟩, hr⟩ := handleDataPacket_total r controlBit seqId payload isFinal hp.1
  obtain ⟨⟨f', ack', new'⟩, hf⟩ := handleDataPacket_total f controlBit seqId payload isFinal hp.1
  rw [hr, hf]
  have hone := one_le_capacity n
  have hcap := capacity_le n
  have hle := h.spans.le
  have har := handleDataPacket_arrival h.spans' hr
  have haf := handleDataPacket_arrival h.spans hf
  cases haf with
  | ignored hign =>
    cases har with
    | ignored => exact .ok (false, false) ⟨b, e, h⟩
    | consumed q hc hi hcb hq hl hlt =>
      exact absurd (h.ignored_iff.mpr hign)
        (not_ignored h.spans' hc hi hcb hq hl (by omega) (by omega))
    | accepted q b' _ hc hi hcb hq hb hub hpc _ =>
      exact absurd (h.ignored_iff.mpr hign)
        (not_ignored h.spans' hc hi hcb hq (by omega) hub hpc)
  | consumed q hc hi hcb hq hl hlt =>
    cases har with
    | ignored hign =>
      exact absurd (h.ignored_iff.mp hign)
        (not_ignored h.spans hc hi hcb hq hl (by omega) (by omega))
    | consumed => exact .ok (true, false) ⟨b, e, { h with front := ⟨h.front.cursor, h.front.pos⟩ }⟩
    | accepted q' b' _ _ _ _ hq' hb hub _ _ =>
      rw [h.ring] at hq'
      have := position_unique hq hq' hl (by omega) (by omega) (by omega)
      omega
  | accepted q b' _ hc hi hcb hq hb hub hpc haccf =>
    cases har with
    | ignored hign =>
      exact absurd (h.ignored_iff.mp hign)
        (not_ignored h.spans hc hi hcb hq (by omega) hub hpc)
    | consumed q' _ _ _ hq' hl' hlt =>
      rw [h.ring] at hq'
      have := position_unique hq hq' (by omega) (by omega) hl' (by omega)
      omega
    | accepted q' b'' _ _ _ _ hq' hb' hub' _ haccr =>
      rw [h.ring] at hq'
      obtain rfl := position_unique (b := b) hq hq' (by omega) (by omega) (by omega) (by omega)
      rw [h.unackSeq, h.selfClosed]
      exact .ok (true, _) ⟨b, _, h.accepted hp hb haccr haccf⟩

/-! ### Reconnecting -/

/-- The calls on which a used receiver is compared with a new one. -/
def Act.Compared : Act → Prop
  | .handleDataPacket _ _ payload isFinal => PassedOn payload isFinal
  | .tryRead _ => True
  | .peek => True
  | .availableForRead => True
  | _ => False

/-- One call, its result, and whether the stream has ended after it. -/
def watch (r : Receiver n) (a : Act) : Except Check (Receiver n × Out × Bool) :=
  (r.perform a).map fun p ↦ (p.1, p.2, p.1.endOfStream)

private theorem AlikeSome.watch {r f : Receiver n} (h : AlikeSome r f) {a : Act} (ha : a.Compared) :
    Agree AlikeSome (r.watch a) (f.watch a) := by
  obtain ⟨b, e, h⟩ := h
  have hwatch {x y : Except Check (Receiver n × Out)} (hxy : Agree AlikeSome x y) :
      Agree AlikeSome (x.map fun p ↦ (p.1, p.2, p.1.endOfStream))
        (y.map fun p ↦ (p.1, p.2, p.1.endOfStream)) := by
    cases hxy with
    | error c => exact .error c
    | ok out h' =>
      obtain ⟨b', e', h''⟩ := id h'
      simp only [Except.map, h''.endOfStream]
      exact .ok _ h'
  cases a with
  | handleDataPacket controlBit seqId payload isFinal =>
    exact hwatch ((h.handleDataPacket controlBit seqId ha).map fun p ↦ Out.handled p.1 p.2)
  | tryRead count => exact hwatch ((h.tryRead count).map fun p ↦ Out.read p.1 p.2)
  | peek =>
    refine hwatch ?_
    rw [perform, perform, h.peek.2]
    exact .ok _ h.peek.1
  | availableForRead =>
    refine hwatch ?_
    rw [perform, perform, h.availableForRead.2]
    exact .ok _ h.availableForRead.1
  | ack => cases ha
  | updateRecvHimark => cases ha
  | markInputClosed => cases ha

/-- After reconnecting, no calls tell the receiver from a newly constructed one. -/
def Isolated (r : Receiver n) (myStreamId : UInt32) (peerSeqNum : SeqNum) (controlBit : Bool) :
    Prop :=
  ∃ r1 f1, r.reconnect myStreamId peerSeqNum controlBit = .ok r1 ∧
    (new n).reconnect myStreamId peerSeqNum controlBit = .ok f1 ∧
    ∀ calls : List Act, (∀ a ∈ calls, a.Compared) →
      observe watch r1 calls = observe watch f1 calls

/-- Nothing of the earlier connections is current: no buffer, or the unset slot the first
packet will fill, from its start. -/
def Clean (r : Receiver n) (peerSeqNum : SeqNum) : Prop :=
  r.currentInBuffer = none ∨
    (r.currentInBuffer = some (r.inRing.offsetFor peerSeqNum) ∧
      (r.getInBuffer peerSeqNum).type = .unset ∧ r.currentInBufferPos = 0)

private theorem alike_of_clean {r : Receiver n} {p : Int} (h : r.Clean (.ofPos p))
    (myStreamId : UInt32) (controlBit : Bool) :
    Alike (r.reconnected myStreamId (.ofPos p) controlBit)
      ((new n).reconnected myStreamId (.ofPos p) controlBit) p p := by
  refine ⟨spans_new n p, rfl, rfl, rfl, rfl, rfl, rfl, rfl, rfl, rfl, by omega, by omega,
    ⟨.inl rfl, by omega⟩, ?_, ?_⟩
  · rcases h with hc | ⟨hc, -, hpos⟩
    · simp only [offset, reconnected, hc, new]
    · simp only [offset, reconnected, hc, new, hpos]
  · rcases h with hc | ⟨hc, ht, -⟩
    · exact .inl (.inl hc)
    · rw [offsetFor_ofPos] at hc
      rw [getInBuffer_ofPos] at ht
      exact .inr ⟨rfl, hc, not_not.mpr ht⟩

private theorem isolated_of_clean {r : Receiver n} {peerSeqNum : SeqNum} (h : r.Clean peerSeqNum)
    (myStreamId : UInt32) (controlBit : Bool) : r.Isolated myStreamId peerSeqNum controlBit := by
  obtain ⟨p, rfl⟩ : ∃ p, peerSeqNum = .ofPos p :=
    ⟨peerSeqNum.raw.toNat, (SeqNum.ofPos_raw peerSeqNum).symm⟩
  refine ⟨_, _, r.reconnect_ok _ _ _, (new n).reconnect_ok _ _ _, fun calls hcalls ↦ ?_⟩
  exact observe_eq AlikeSome Act.Compared (fun _ _ a hr ha ↦ AlikeSome.watch (a := a) hr ha)
    ⟨p, p, alike_of_clean h myStreamId controlBit⟩ hcalls

/-! ### Telling a stale cursor -/

private theorem tryRead_connected {r : Receiver n} (hst : r.state = .connected) (count : Nat) :
    r.tryRead count = tryReadLoop (r.inRing.slotsUsed + 1) r count := by
  rw [Receiver.tryRead, hst, if_neg (by decide)]

private theorem tryRead_drained {r : Receiver n} {b : Int} (hs : r.inRing.Spans b b)
    (hc : r.currentInBuffer = none) (hst : r.state = .connected) (count : Nat) :
    r.tryRead count = .ok (r, [], false) := by
  rw [tryRead_connected hst, tryReadLoop, Receiver.readRound, focus_drained hs (.inl hc), hst]
  rfl

/-- A cursor left on a stored packet makes an empty window yield its bytes, or fail. -/
theorem tryRead_stale {r r' : Receiver n} {b : Int} {i : Fin (2 ^ n.val)}
    {bytes : List UInt8} {ready : Bool} (hs : r.inRing.Spans b b)
    (hc : r.currentInBuffer = some i) (hst : r.state = .connected)
    (ht : (r.inBuffers i).type ≠ .unset)
    (hlen : (r.inBuffers i).size ≤ (r.inBuffers i).payload.length)
    (h : r.tryRead 1 = .ok (r', bytes, ready)) : bytes ≠ [] := by
  have hf : r.focus = some (i, r) := by rw [Receiver.focus, hc]
  rw [tryRead_connected hst, tryReadLoop, Receiver.readRound] at h
  simp only [hf, ht, if_false, hs.pop_error] at h
  by_cases hpos : (r.inBuffers i).size < r.currentInBufferPos
  · rw [if_pos hpos] at h
    cases h
  by_cases hcount : 1 < (r.inBuffers i).size - r.currentInBufferPos
  · rw [if_neg hpos, if_pos hcount] at h
    cases h
    intro hnil
    have hl := congrArg List.length hnil
    rw [InBuffer.slice, List.length_take, List.length_drop, List.length_nil] at hl
    omega
  · rw [if_neg hpos, if_neg hcount] at h
    cases h

/-- A cursor left on an unset slot hides whatever arrives elsewhere. -/
theorem tryRead_blocked {r : Receiver n} {i : Fin (2 ^ n.val)}
    (hc : r.currentInBuffer = some i) (hst : r.state = .connected)
    (ht : (r.inBuffers i).type = .unset) (count : Nat) : r.tryRead count = .ok (r, [], false) := by
  have hf : r.focus = some (i, r) := by rw [Receiver.focus, hc]
  rw [tryRead_connected hst, tryReadLoop, Receiver.readRound]
  simp only [hf, ht, if_true]
  rfl

/-- Reading one byte of a one-byte packet gives it, unless an offset is left over. -/
theorem tryRead_single {r : Receiver n} {b : Int} (hs : r.inRing.Spans b (b + 1))
    (hc : r.CursorAtFront) (hst : r.state = .connected) (ht : (r.bufferAt b).type = .data)
    (hsz : (r.bufferAt b).size = 1) :
    (r.offset = 0 → ∃ r', r.tryRead 1 = .ok (r', (r.bufferAt b).content, true)) ∧
    (r.offset ≠ 0 → ∀ r' bytes ready, r.tryRead 1 = .ok (r', bytes, ready) → bytes = []) := by
  obtain ⟨ring, hp, hring⟩ := hs.pop_ok (by omega)
  have hround := readRound_front hs (by omega) hc hp 1
  rw [frontRound, ht, hsz, if_neg (by decide)] at hround
  rw [tryRead_connected hst, tryReadLoop]
  refine ⟨fun h0 ↦ ?_, fun h0 r' bytes ready h ↦ ?_⟩
  · rw [h0, if_neg (by decide), if_neg (by decide), if_neg (by decide)] at hround
    rw [hround]
    exact ⟨_, rfl⟩
  · by_cases h1 : r.offset = 1
    · rw [h1, if_neg (by decide), if_neg (by decide), if_neg (by decide)] at hround
      have hnil : (r.bufferAt b).content.drop 1 = [] := by
        apply List.drop_eq_nil_of_le
        rw [InBuffer.content, List.length_take]
        omega
      have hrest := tryRead_drained (r := r.released b ring false) hring rfl hst 1
      rw [tryRead_connected (r := r.released b ring false) hst] at hrest
      have hfuel : r.inRing.slotsUsed = (r.released b ring false).inRing.slotsUsed + 1 := by
        have h2 := hs.slotsUsed_eq
        have h3 : (ring.slotsUsed : Int) = _ := hring.slotsUsed_eq
        change r.inRing.slotsUsed = ring.slotsUsed + 1
        omega
      rw [hround, hnil, hfuel] at h
      simp only [hrest] at h
      cases h
      rfl
    · rw [if_pos (by omega)] at hround
      rw [hround] at h
      cases h

/-- The first packet of a connection is taken in, whatever went before. -/
theorem first_packet (r : Receiver n) (myStreamId : UInt32) (p : Int) (controlBit : Bool) :
    ∃ r', (r.reconnected myStreamId (.ofPos p) controlBit).handleDataPacket (!controlBit)
        ((SeqNum.ofPos p).raw &&& 0xFFF) [0] false = .ok (r', true, true) ∧
      Accepted (r.reconnected myStreamId (.ofPos p) controlBit) p p p [0] false r' p := by
  have hs : (r.reconnected myStreamId (.ofPos p) controlBit).inRing.Spans p p := spans_new n p
  have hone := one_le_capacity n
  have hcap := capacity_le n
  have hq := hs.restore_exact (p := p) (by omega) (by omega)
  obtain ⟨⟨r', ack, new⟩, hok⟩ := handleDataPacket_total
    (r.reconnected myStreamId (.ofPos p) controlBit) (!controlBit)
    ((SeqNum.ofPos p).raw &&& 0xFFF) [0] false (by decide)
  cases handleDataPacket_arrival hs hok with
  | ignored hign =>
    have := hign.beyond hs (by simp [reconnected]) (by simp [reconnected]) (by simp [reconnected])
      hq (by omega) (by omega)
    rcases this.2 with hpc | hno
    · cases hpc
    · omega
  | consumed q _ _ _ hq' hl hlt =>
    have := position_unique hq hq' (b := p) (by omega) (by omega) hl (by omega)
    omega
  | accepted q b' _ _ _ _ hq' hb hub _ ha =>
    obtain rfl := position_unique hq hq' (b := p) (by omega) (by omega) (by omega) (by omega)
    obtain rfl := ha.begin_eq rfl
    refine ⟨r', ?_, ha⟩
    rw [hok]
    simp [reconnected]

-- What the first packet of a connection looks like in its slot.
private theorem first_buffer {r r' : Receiver n} {p b' : Int}
    (h : Accepted r p p p [0] false r' b') : (r'.bufferAt p).type = .data ∧
      (r'.bufferAt p).size = 1 ∧ (r'.bufferAt p).content = [0] := by
  obtain ⟨old, hset⟩ := h.stored (by omega)
  obtain ⟨hsz, -, hcont, -⟩ := InBuffer.of_set hset
  exact ⟨InBuffer.type_of_set hset, hsz, hcont⟩

/-- The first byte of the new connection is read by a used receiver only from a clean cursor. -/
theorem clean_of_first_read {r r' s : Receiver n} {myStreamId : UInt32} {p : Int}
    {controlBit ready : Bool} {i : Fin (2 ^ n.val)} (hcur : r.currentInBuffer = some i)
    (hset : (r.inBuffers i).type = .unset)
    (ha : Accepted (r.reconnected myStreamId (.ofPos p) controlBit) p p p [0] false r' p)
    (hread : r'.tryRead 1 = .ok (s, [0], ready)) : r.Clean (.ofPos p) := by
  have hcur' : r'.currentInBuffer = some i := by rw [ha.frame]; exact hcur
  have hst' : r'.state = .connected := by rw [ha.frame]; rfl
  have hs' : r'.inRing.Spans p (p + 1) := by
    have := ha.spans
    rwa [max_eq_right (by omega)] at this
  by_cases hi : i = slotAt n p
  · subst hi
    obtain ⟨ht, hsz, -⟩ := first_buffer ha
    have hoff : r'.offset = r.currentInBufferPos := by
      rw [ha.offset]
      simp only [offset, reconnected, hcur]
    have hpos : r.currentInBufferPos = 0 := by
      by_contra hne
      have := (tryRead_single hs' (cursorAtFront_of_slot hs' (by omega) hcur') hst' ht hsz).2
        (hoff ▸ hne) _ _ _ hread
      cases this
    refine .inr ⟨by rw [hcur, offsetFor_ofPos], ?_, hpos⟩
    rw [getInBuffer_ofPos]
    exact hset
  · have hsame : r'.inBuffers i = r.inBuffers i := by
      refine ha.others i (fun q hq hq' ↦ ?_) (Ne.symm hi)
      obtain rfl : q = p := by omega
      exact Ne.symm hi
    rw [tryRead_blocked hcur' hst' (by rw [hsame]; exact hset)] at hread
    cases hread

private theorem watch_handled {r s : Receiver n} {controlBit : Bool} {seqId : BitVec 16}
    {payload : List UInt8} {isFinal ack new : Bool}
    (h : r.handleDataPacket controlBit seqId payload isFinal = .ok (s, ack, new)) :
    r.watch (.handleDataPacket controlBit seqId payload isFinal) =
      .ok (s, .handled ack new, s.endOfStream) := by
  rw [watch, perform, h]
  rfl

private theorem watch_read {r s : Receiver n} {count : Nat} {bytes : List UInt8} {ready : Bool}
    (h : r.tryRead count = .ok (s, bytes, ready)) :
    r.watch (.tryRead count) = .ok (s, .read bytes ready, s.endOfStream) := by
  rw [watch, perform, h]
  rfl

private theorem tryRead_of_watch {r s : Receiver n} {count : Nat} {bytes : List UInt8}
    {ready eos : Bool} (h : r.watch (.tryRead count) = .ok (s, .read bytes ready, eos)) :
    r.tryRead count = .ok (s, bytes, ready) := by
  rw [watch, perform] at h
  cases hr : r.tryRead count with
  | error c => rw [hr] at h; cases h
  | ok out =>
    obtain ⟨s', bytes', ready'⟩ := out
    rw [hr] at h
    simp only [Except.map, Except.ok.injEq, Prod.mk.injEq, Out.read.injEq] at h
    obtain ⟨rfl, ⟨rfl, rfl⟩, -⟩ := h
    rfl

private theorem clean_of_isolated {r : Receiver n} {myStreamId : UInt32} {p : Int}
    {controlBit : Bool} (hlen : ∀ i, (r.inBuffers i).size ≤ (r.inBuffers i).payload.length)
    (h : r.Isolated myStreamId (.ofPos p) controlBit) : r.Clean (.ofPos p) := by
  obtain ⟨r1, f1, hr1, hf1, hobs⟩ := h
  rw [reconnect_ok] at hr1 hf1
  cases hr1
  cases hf1
  cases hcur : r.currentInBuffer with
  | none => exact .inl hcur
  | some i =>
    have hset : (r.inBuffers i).type = .unset := by
      by_contra hne
      have hf := watch_read (tryRead_drained
        (r := (new n).reconnected myStreamId (.ofPos p) controlBit) (spans_new n p) rfl rfl 1)
      obtain ⟨s, hs, -⟩ := observe_cons (hobs [.tryRead 1] (by simp [Act.Compared])) hf
      have hcur1 : (r.reconnected myStreamId (.ofPos p) controlBit).currentInBuffer = some i := hcur
      exact tryRead_stale (spans_new n p) hcur1 rfl hne (hlen i) (tryRead_of_watch hs) rfl
    obtain ⟨f', hf', haf⟩ := first_packet (new n) myStreamId p controlBit
    obtain ⟨r', hr', har⟩ := first_packet r myStreamId p controlBit
    have hcomp : ∀ a ∈ [Act.handleDataPacket (!controlBit) ((SeqNum.ofPos p).raw &&& 0xFFF)
        [0] false, Act.tryRead 1], a.Compared := by
      intro a ha
      simp only [List.mem_cons, List.not_mem_nil, or_false] at ha
      rcases ha with rfl | rfl
      · exact ⟨by decide, fun _ ↦ by decide⟩
      · trivial
    have hwf := watch_handled hf'
    obtain ⟨s, hs, hobs'⟩ := observe_cons (hobs _ hcomp) hwf
    obtain rfl : r' = s := by
      rw [watch, perform, hr'] at hs
      exact congrArg Prod.fst (Except.ok.inj hs)
    obtain ⟨hft, hfsz, hfc⟩ := first_buffer haf
    have hfs : f'.inRing.Spans p (p + 1) := by
      have := haf.spans
      rwa [max_eq_right (by omega)] at this
    have hfcur : f'.CursorAtFront := .inl (by rw [haf.frame]; rfl)
    have hfst : f'.state = .connected := by rw [haf.frame]; rfl
    obtain ⟨f2, hf2⟩ := (tryRead_single hfs hfcur hfst hft hfsz).1 (by rw [haf.offset]; rfl)
    rw [hfc] at hf2
    obtain ⟨s, hs, -⟩ := observe_cons hobs' (watch_read hf2)
    exact clean_of_first_read hcur hset har (tryRead_of_watch hs)

/-! ### Every history -/

/-- Everything that can happen to a receiver over successive connections. -/
inductive Event where
  | call (a : Act)
  | init (myStreamId : UInt32)
  | setConnected (peerSeqNum : SeqNum) (controlBit : Bool)
  | setIdle
  | setBroken
  | reset
  deriving DecidableEq, Repr

/-- One event. -/
def live (r : Receiver n) : Event → Except Check (Receiver n)
  | .call a => r.step a
  | .init myStreamId => r.init myStreamId
  | .setConnected peerSeqNum controlBit => r.setConnected peerSeqNum controlBit
  | .setIdle => .ok r.setIdle
  | .setBroken => .ok r.setBroken
  | .reset => r.reset

/-- Every event keeps what holds of every slot. -/
theorem live_slots {P : InBuffer → Prop} (hP : SlotKept P) {r r' : Receiver n} {ev : Event}
    (h : r.live ev = .ok r') (hr : ∀ i, P (r.inBuffers i)) : ∀ i, P (r'.inBuffers i) := by
  cases ev with
  | call a =>
    cases step_spec h with
    | handled hh => exact handleDataPacket_slots hP hh hr
    | read hh => exact tryRead_slots hP hh hr
    | peeked => rwa [look_inBuffers]
    | available => rwa [look_inBuffers]
    | sent => exact hr
    | closed hh =>
      obtain ⟨b, e, hs⟩ := r.inRing.exists_spans
      obtain ⟨due, ready, hok⟩ := markInputClosed_ok hs
      rw [hok] at hh
      cases hh
      exact hr
  | init myStreamId =>
    simp only [live, init] at h
    split at h
    · cases h
    · cases h; exact hr
  | setConnected peerSeqNum controlBit =>
    simp only [live, Receiver.setConnected] at h
    split at h
    · split at h
      · cases h
      · cases h; exact hr
    · cases h
  | setIdle => cases h; exact hr
  | setBroken =>
    cases h
    unfold Receiver.setBroken
    split
    · exact hr
    · exact hr
  | reset =>
    simp only [live, Receiver.reset] at h
    split at h
    · cases h
    · next r1 hc =>
      cases h
      have := clearLoop_slots hP _ hc hr
      exact this

private theorem slotKept_length : SlotKept fun x ↦ x.size ≤ x.payload.length :=
  ⟨fun _ ↦ Nat.zero_le _, fun _ h ↦ (InBuffer.of_set h).2.2.2⟩

/-- After any history, the next connection is isolated from the earlier ones exactly when no
buffer is current, or only the unset slot its first packet will fill, from its start. -/
theorem isolated_iff_clean {r : Receiver n} (hr : Reachable live anyStep (new n) r)
    (myStreamId : UInt32) (peerSeqNum : SeqNum) (controlBit : Bool) :
    r.Isolated myStreamId peerSeqNum controlBit ↔ r.Clean peerSeqNum := by
  obtain ⟨p, rfl⟩ : ∃ p, peerSeqNum = .ofPos p :=
    ⟨peerSeqNum.raw.toNat, (SeqNum.ofPos_raw peerSeqNum).symm⟩
  have hlen : ∀ i, (r.inBuffers i).size ≤ (r.inBuffers i).payload.length :=
    hr.invariant (fun r ↦ ∀ i, (r.inBuffers i).size ≤ (r.inBuffers i).payload.length)
      (fun i ↦ Nat.zero_le _) fun s a s' hi _ hs ↦ live_slots slotKept_length hs hi
  exact ⟨clean_of_isolated hlen, fun h ↦ isolated_of_clean h myStreamId controlBit⟩

/-- A receiver whose packets were read to their ends is as good as new. -/
theorem isolated_after_whole_packet : ∃ r : Receiver 2, Reachable live anyStep (new 2) r ∧
    r.currentInBuffer = none ∧ r.Isolated 2 ⟨0⟩ false := by
  obtain ⟨r, hr, ht⟩ := Reachable.of_test live anyStep (new 2)
    [.init 1, .setConnected ⟨0⟩ false, .call (.handleDataPacket true 0 [7, 8, 9] false),
      .call (.tryRead 3)]
    (fun r ↦ r.currentInBuffer = none) (meets_anyStep _ _ _) (by decide)
  have hc : r.currentInBuffer = none := of_decide_eq_true ht
  exact ⟨r, hr, hc, (isolated_iff_clean hr 2 ⟨0⟩ false).mpr (.inl hc)⟩

/-- A packet read in part is still current after reconnecting: the new connection starts by
handing out a byte of the old one. -/
theorem not_isolated_after_partial_read : ∃ r r1 s : Receiver 2,
    Reachable live anyStep (new 2) r ∧ r.reconnect 2 ⟨0⟩ false = .ok r1 ∧
      r1.tryRead 1 = .ok (s, [8], false) ∧ ¬ r.Isolated 2 ⟨0⟩ false := by
  obtain ⟨r, hr, ht⟩ := Reachable.of_test live anyStep (new 2)
    [.init 1, .setConnected ⟨0⟩ false, .call (.handleDataPacket true 0 [7, 8, 9] false),
      .call (.tryRead 1)]
    (fun r ↦ ((r.reconnected 2 ⟨0⟩ false).tryRead 1).toOption.map (·.2) = some ([8], false))
    (meets_anyStep _ _ _) (by decide)
  have ht := of_decide_eq_true ht
  cases hread : (r.reconnected 2 ⟨0⟩ false).tryRead 1 with
  | error c => rw [hread] at ht; cases ht
  | ok out =>
    obtain ⟨s, bytes, ready⟩ := out
    rw [hread] at ht
    obtain ⟨rfl, rfl⟩ := Prod.mk.inj (Option.some.inj ht)
    refine ⟨r, _, s, hr, r.reconnect_ok _ _ _, hread, ?_⟩
    rintro ⟨r1, f1, hr1, hf1, hobs⟩
    rw [reconnect_ok] at hr1 hf1
    cases hr1
    cases hf1
    have hf : ((new 2).reconnected 2 ⟨0⟩ false).tryRead 1 = .ok (_, [], false) :=
      tryRead_drained (spans_new 2 0) rfl rfl 1
    obtain ⟨s', hs', -⟩ := observe_cons (hobs [.tryRead 1] (by simp [Act.Compared]))
      (watch_read hf)
    have := (tryRead_of_watch hs').symm.trans hread
    cases this

end Receiver

end RooTransport.Link
