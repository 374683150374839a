import RooTransport.Link.ReceiverWindow

/-!
# The checks of the receiver

`tryRead` insists that the current buffer was not read past its end and that a final
packet is the last of the window (`receiver.cpp:74`, `receiver.cpp:93`). Neither is secured
by the receiver itself: a final packet may fill a gap further down, and the current buffer
is kept when its packet is dropped. Where these two do not happen no check fails.
-/

namespace RooTransport.Link

open RooTransport.Base RingBuffer

namespace Receiver

variable {n : LinkBufferSize}

/-- What keeps the receiver, its window spanning `b` to `e`, from failing a check. The state
`broken` is never entered. -/
structure Checked (r : Receiver n) (b e : Int) : Prop where
  spans : r.inRing.Spans b e
  fin_last : ∀ p, b ≤ p → p < e → (r.bufferAt p).type = .fin → p + 1 = e ∧ r.peerClosed = true
  connecting : r.state = .connecting → b = e
  not_broken : r.state ≠ .broken

/-- A final packet with these header fields would be stored below the end of the window, at a
position that is still missing. -/
def FinFillsGap (r : Receiver n) (controlBit : Bool) (seqId : BitVec 16) : Prop :=
  let seq := r.inRing.restorePosHighBits seqId 12
  r.state = .connected ∧ controlBit ≠ r.controlBit ∧ r.inRing.contains seq = true ∧
    (r.getInBuffer seq).type = .unset ∧ seq.next ≠ r.inRing.end_

instance (r : Receiver n) (controlBit : Bool) (seqId : BitVec 16) :
    Decidable (r.FinFillsGap controlBit seqId) :=
  inferInstanceAs (Decidable (_ ∧ _ ∧ _ ∧ _ ∧ _))

/-- The current buffer, if there is one, is the first of the window and was not read past
its end. -/
def CursorValid (r : Receiver n) : Prop :=
  r.CursorAtFront ∧ ((r.getInBuffer r.inRing.begin_).type = .unset ∨
    r.offset ≤ (r.getInBuffer r.inRing.begin_).size)

instance (r : Receiver n) : Decidable r.CursorValid := inferInstanceAs (Decidable (_ ∧ (_ ∨ _)))

/-- The calls that pave no way for a check to fail. -/
def ChecksHold (r : Receiver n) : Act → Prop
  | .handleDataPacket controlBit seqId payload isFinal =>
    payload.length ≤ 248 ∧ (isFinal = true → ¬ r.FinFillsGap controlBit seqId)
  | .tryRead _ => r.CursorValid
  | _ => True

section

variable {r r' : Receiver n} {b e : Int}

private theorem Checked.congr (h : r.Checked b e) (hring : r'.inRing = r.inRing)
    (hbufs : r'.inBuffers = r.inBuffers) (hclosed : r'.peerClosed = r.peerClosed)
    (hst : r'.state = r.state) : r'.Checked b e := by
  refine ⟨hring ▸ h.spans, fun p hl hu hf ↦ ?_, hst ▸ h.connecting, hst ▸ h.not_broken⟩
  rw [bufferAt, hbufs] at hf
  rw [hclosed]
  exact h.fin_last p hl hu hf

/-- With nothing in the window only the state matters. -/
theorem checked_of_empty (hs : r.inRing.Spans b b) (hst : r.state ≠ .broken) : r.Checked b b :=
  ⟨hs, fun p hl hu ↦ by omega, fun _ ↦ rfl, hst⟩

/-! ### Taking in packets -/

private theorem Checked.accepted {q b' : Int} {payload : List UInt8} {isFinal : Bool}
    (h : r.Checked b e) (hb : b ≤ q) (hgrow : e ≤ q → r.peerClosed = false)
    (hst : r.state ≠ .connecting)
    (hfin : isFinal = true → q < e → ¬ r.Received q → q + 1 = e)
    (ha : Accepted r b e q payload isFinal r' b') : r'.Checked b' (max e (q + 1)) := by
  have hle : b ≤ b' := by
    rcases ha.unack with ⟨-, -, hb'⟩ | ⟨-, u', -, hlt, -, -, -, hb'⟩
    · omega
    · split at hb' <;> omega
  have hstate : r'.state = r.state := by rw [ha.frame]
  have hclosed : r'.peerClosed = (r.peerClosed || isFinal) := by rw [ha.frame]
  refine ⟨ha.spans, fun p hl hu hf ↦ ?_, fun hc ↦ absurd (hstate.symm.trans hc) hst,
    hstate ▸ h.not_broken⟩
  rcases ha.buffer (p := p) (by omega) hu with ⟨hpe, hsame⟩ | hno | ⟨rfl, hnew, old, hset⟩
  · rw [hsame] at hf
    obtain ⟨hlast, hpc⟩ := h.fin_last p (by omega) hpe hf
    rw [hclosed, hpc]
    have hq : ¬ e ≤ q := fun hq ↦ Bool.false_ne_true ((hgrow hq).symm.trans hpc)
    exact ⟨by omega, rfl⟩
  · exact absurd (by rw [Received, hf]; decide) hno
  · rw [InBuffer.type_of_set hset] at hf
    cases isFinal with
    | false => cases hf
    | true =>
      rw [hclosed, Bool.or_true]
      refine ⟨?_, rfl⟩
      by_cases hpe : p < e
      · have := hfin rfl hpe (hnew hpe)
        omega
      · omega

private theorem Checked.handleDataPacket {controlBit : Bool} {seqId : BitVec 16}
    {payload : List UInt8} {isFinal ack new : Bool} (h : r.Checked b e)
    (hg : isFinal = true → ¬ r.FinFillsGap controlBit seqId)
    (hh : r.handleDataPacket controlBit seqId payload isFinal = .ok (r', ack, new)) :
    ∃ b' e', r'.Checked b' e' := by
  have hcap := capacity_le n
  have hus := h.spans.used
  cases handleDataPacket_arrival h.spans hh with
  | ignored => exact ⟨b, e, h⟩
  | consumed => exact ⟨b, e, h.congr rfl rfl rfl rfl⟩
  | accepted q b' _ hc hi hcb hq hb hu hgrow ha =>
    refine ⟨b', _, h.accepted hb hgrow hc (fun hf hqe hno ↦ ?_) ha⟩
    by_contra hne
    have hst : r.state = .connected := by
      have := h.not_broken
      cases hst : r.state <;> simp_all
    refine hg hf ⟨hst, hcb, ?_, ?_, ?_⟩
    · rw [hq]
      exact h.spans.contains_of_mem hb hqe
    · rw [hq, getInBuffer_ofPos]
      exact not_not.mp hno
    · rw [hq, SeqNum.ofPos_next, h.spans.end_eq, ne_eq, SeqNum.ofPos_eq (by omega) (by omega)]
      exact hne

/-! ### Reading -/

private theorem Checked.readRound (h : r.Checked b e) (hv : r.CursorValid) (count : Nat) :
    Yields (r.readRound count) fun round ↦ (∃ b', round.receiver.Checked b' e) ∧
      (round.continues = true → round.receiver.CursorValid) := by
  have hus := h.spans.used
  obtain ⟨hcur, hpos⟩ := hv
  rw [h.spans.begin_eq, getInBuffer_ofPos] at hpos
  have hspec := readRound_spec h.spans hcur count
  revert hspec
  generalize r.readRound count = out
  intro hspec
  cases hspec with
  | drained hbe =>
    refine ⟨_, rfl, ⟨b, ?_⟩, (fun hc ↦ nomatch hc)⟩
    rw [if_neg h.not_broken]
    exact h
  | gap => exact ⟨_, rfl, ⟨b, h.congr rfl rfl rfl rfl⟩, (fun hc ↦ nomatch hc)⟩
  | part => exact ⟨_, rfl, ⟨b, h.congr rfl rfl rfl rfl⟩, (fun hc ↦ nomatch hc)⟩
  | data ring hlt _ _ _ hring =>
    refine ⟨_, rfl, ⟨b + 1, hring, fun p hl hu hf ↦ ?_, fun hc ↦ ?_, h.not_broken⟩,
      fun _ ↦ ⟨.inl rfl, .inr (Nat.zero_le _)⟩⟩
    · have hkept : (r.released b ring false).bufferAt p = r.bufferAt p :=
        Function.update_of_ne (slotAt_ne (by omega) (by omega) (by omega)) _ _
      rw [hkept] at hf
      exact h.fin_last p (by omega) hu hf
    · have := h.connecting hc
      omega
  | fin ring hlast _ _ _ hring =>
    obtain rfl := hlast
    exact ⟨_, rfl, ⟨b + 1, checked_of_empty hring h.not_broken⟩, (fun hc ↦ nomatch hc)⟩
  | badPosition _ hrec hbad =>
    rcases hpos with hun | hle
    · exact absurd hun hrec
    · omega
  | finInside hlt hf =>
    have := (h.fin_last b (le_refl b) (by omega) hf).1
    omega

private theorem Checked.tryRead (h : r.Checked b e) (hv : r.CursorValid) (count : Nat) :
    Yields (r.tryRead count) fun out ↦ ∃ b', out.1.Checked b' e := by
  have hround (s : Receiver n) (k : Nat) (round : Round n)
      (hi : (∃ b', s.Checked b' e) ∧ s.CursorValid) (hk : s.readRound k = .ok round) :
      (∃ b', round.receiver.Checked b' e) ∧
        (round.continues = true → round.receiver.CursorValid) := by
    obtain ⟨⟨b', hc⟩, hcv⟩ := hi
    obtain ⟨round', hk', hr'⟩ := hc.readRound hcv k
    obtain rfl : round' = round := Except.ok.inj (hk'.symm.trans hk)
    exact hr'
  have hgo (s : Receiver n) (k : Nat) (acc : List UInt8) (round : Round n)
      (hi : (∃ b', s.Checked b' e) ∧ s.CursorValid) (hk : s.readRound k = .ok round)
      (hc : round.continues = true) (_ : 0 < round.left) :
      (∃ b', round.receiver.Checked b' e) ∧ round.receiver.CursorValid :=
    ⟨(hround s k round hi hk).1, (hround s k round hi hk).2 hc⟩
  refine .of_ok ?_ ?_
  · refine tryRead_total (I := fun s _ _ ↦ (∃ b', s.Checked b' e) ∧ s.CursorValid) hgo ?_
      ⟨⟨b, h⟩, hv⟩
    rintro s k acc ⟨⟨b', hc⟩, hcv⟩
    obtain ⟨round, hk, -⟩ := hc.readRound hcv k
    exact ⟨round, hk⟩
  · rintro ⟨r1, bytes, ready⟩ hread
    exact tryRead_rule (I := fun s _ _ ↦ (∃ b', s.Checked b' e) ∧ s.CursorValid)
      (Q := fun s _ ↦ ∃ b', s.Checked b' e) hgo
      (fun s k acc round hi hk _ ↦ (hround s k round hi hk).1) ⟨⟨b, h⟩, hv⟩ (fun _ ↦ ⟨b, h⟩) hread

private theorem Checked.markInputClosed {ready : Bool} (h : r.Checked b e)
    (hc : r.markInputClosed = .ok (r', ready)) : (∃ b', r'.Checked b' e) ∧ r'.state = r.state := by
  obtain ⟨due, ready', hok⟩ := markInputClosed_ok h.spans
  rw [hok] at hc
  cases hc
  exact ⟨⟨e, checked_of_empty (spans_new n e) h.not_broken⟩, rfl⟩

private theorem Checked.look (h : r.Checked b e) : r.look.Checked b e ∧ r.look.state = r.state := by
  have hlink := r.look_sameLink.state h.not_broken
  exact ⟨h.congr r.look_inRing r.look_inBuffers hlink.2.2 hlink.1, hlink.1⟩

private theorem Checked.total (h : r.Checked b e) {a : Act} (hg : r.ChecksHold a) :
    ∃ r', r.step a = .ok r' := by
  cases a with
  | handleDataPacket controlBit seqId payload isFinal =>
    obtain ⟨out, hh⟩ := r.handleDataPacket_total controlBit seqId payload isFinal hg.1
    exact ⟨_, map_eq_ok.mpr ⟨_, map_eq_ok.mpr ⟨out, hh, rfl⟩, rfl⟩⟩
  | tryRead count =>
    obtain ⟨out, hh, -⟩ := h.tryRead hg count
    exact ⟨_, map_eq_ok.mpr ⟨_, map_eq_ok.mpr ⟨out, hh, rfl⟩, rfl⟩⟩
  | markInputClosed =>
    obtain ⟨due, ready, hh⟩ := markInputClosed_ok h.spans
    exact ⟨_, map_eq_ok.mpr ⟨_, map_eq_ok.mpr ⟨_, hh, rfl⟩, rfl⟩⟩
  | peek => exact ⟨_, rfl⟩
  | availableForRead => exact ⟨_, rfl⟩
  | ack => exact ⟨_, rfl⟩
  | updateRecvHimark => exact ⟨_, rfl⟩

/-- During a connection no call fails a check, and the state stays as it is. -/
theorem Checked.step (h : r.Checked b e) {a : Act} (hg : r.ChecksHold a) :
    Yields (r.step a) fun r' ↦ (∃ b' e', r'.Checked b' e') ∧ r'.state = r.state := by
  refine .of_ok (h.total hg) fun r' hstep ↦ ?_
  cases step_spec hstep with
  | handled hh => exact ⟨h.handleDataPacket hg.2 hh, (handleDataPacket_same hh).1⟩
  | @read count bytes ready _ hh =>
    obtain ⟨out, hh', b', hc⟩ := h.tryRead hg count
    obtain rfl : out = _ := Except.ok.inj (hh'.symm.trans hh)
    exact ⟨⟨b', e, hc⟩, ((tryRead_sameLink hh).state h.not_broken).1⟩
  | peeked => exact ⟨⟨b, e, h.look.1⟩, h.look.2⟩
  | available => exact ⟨⟨b, e, h.look.1⟩, h.look.2⟩
  | sent => exact ⟨⟨b, e, h.congr rfl rfl rfl rfl⟩, rfl⟩
  | closed hh =>
    obtain ⟨⟨b', hc⟩, hst⟩ := h.markInputClosed hh
    exact ⟨⟨b', e, hc⟩, hst⟩

/-- What is done during a connection neither ends it nor changes its control bit. -/
theorem step_same {a : Act} (hst : r.state ≠ .broken) (h : r.step a = .ok r') :
    r'.state = r.state ∧ r'.controlBit = r.controlBit := by
  cases step_spec h with
  | handled hh => exact ⟨(handleDataPacket_same hh).1, (handleDataPacket_same hh).2.2⟩
  | read hh => exact ⟨((tryRead_sameLink hh).state hst).1, (tryRead_sameLink hh).controlBit⟩
  | peeked => exact ⟨(r.look_sameLink.state hst).1, r.look_sameLink.controlBit⟩
  | available => exact ⟨(r.look_sameLink.state hst).1, r.look_sameLink.controlBit⟩
  | sent => exact ⟨rfl, rfl⟩
  | closed hh =>
    obtain ⟨b, e, hs⟩ := r.inRing.exists_spans
    obtain ⟨due, ready, hok⟩ := markInputClosed_ok hs
    rw [hok] at hh
    cases hh
    exact ⟨rfl, rfl⟩

/-! ### From one connection to the next -/

/-- A new receiver meets its checks. -/
theorem checked_new (n : LinkBufferSize) : (new n).Checked 0 0 :=
  checked_of_empty (spans_new n 0) (by simp [new])

/-- A receiver that is connecting, and nothing else about it, is what `init` leaves. -/
theorem Checked.init (h : r.Checked b e) (myStreamId : UInt32) :
    Yields (r.init myStreamId) fun r' ↦ (∃ b' e', r'.Checked b' e') ∧ r'.state = .connecting := by
  unfold Receiver.init
  rw [h.spans.popAll_ok]
  exact ⟨_, rfl, ⟨e, e, checked_of_empty (spans_new n e) (fun hb ↦ nomatch hb)⟩, rfl⟩

/-- Connecting fails no check because nothing is taken in before it. -/
theorem Checked.setConnected (h : r.Checked b e) (hst : r.state = .connecting) (seq : SeqNum)
    (controlBit : Bool) : Yields (r.setConnected seq controlBit) fun r' ↦
      (∃ b' e', r'.Checked b' e') ∧ r'.state = .connected := by
  have hs := h.spans
  rw [← h.connecting hst] at hs
  unfold Receiver.setConnected
  rw [if_pos (hs.empty_iff.mpr rfl), hs.reset_ok]
  refine ⟨_, rfl, ⟨seq.raw.toNat, seq.raw.toNat, checked_of_empty ?_ (fun hb ↦ nomatch hb)⟩,
    rfl⟩
  conv in RingBuffer.new n seq => rw [← SeqNum.ofPos_raw seq]
  exact spans_new n _

/-- A receiver that breaks keeps its input, or goes idle without any. -/
theorem Checked.setBroken (h : r.Checked b e) :
    r.setBroken.Checked b e ∧ r.setBroken.state ≠ .connecting := by
  unfold Receiver.setBroken
  split
  · next hemp =>
    obtain rfl := h.spans.empty_iff.mp hemp
    exact ⟨checked_of_empty h.spans (by simp [setIdle]), by simp [setIdle]⟩
  · next hemp =>
    refine ⟨⟨h.spans, fun p hl hu hf ↦ ?_, h.connecting, h.not_broken⟩, fun hst ↦ ?_⟩
    · exact ⟨(h.fin_last p hl hu hf).1, rfl⟩
    · exact hemp (h.spans.empty_iff.mpr (h.connecting hst))

private theorem clearLoop_ok (fuel : Nat) : ∀ {r : Receiver n} {b : Int}, r.inRing.Spans b e →
    e - b = fuel → Yields (clearLoop fuel r) fun r' ↦ r'.inRing.Spans e e ∧ r'.state = r.state := by
  induction fuel with
  | zero =>
    intro r b hs hf
    obtain rfl : b = e := by omega
    exact ⟨r, rfl, hs, rfl⟩
  | succ fuel ih =>
    intro r b hs hf
    obtain ⟨ring, hp, hring⟩ := hs.pop_ok (by omega)
    rw [clearLoop, if_neg (by rw [hs.empty_eq_false.mpr (by omega)]; decide), hp]
    exact ih (r := { r with
      inBuffers := Function.update r.inBuffers (r.inRing.offsetFor r.inRing.begin_)
        (r.inBuffers (r.inRing.offsetFor r.inRing.begin_)).clear
      inRing := ring }) hring (by omega)

/-- A reset empties the ring and leaves the receiver idle. -/
theorem reset_ok (hs : r.inRing.Spans b e) :
    Yields r.reset fun r' ↦ r'.inRing.Spans e e ∧ r'.state = .idle := by
  obtain ⟨r1, hloop, hs1, hst⟩ := clearLoop_ok (r := { r with
      myStreamId := 0, state := .idle, peerClosed := false, selfClosed := false,
      endOfStream := false }) r.inRing.slotsUsed hs hs.slotsUsed_eq.symm
  unfold Receiver.reset
  rw [hloop]
  exact ⟨_, rfl, hs1, hst⟩

/-- A reset keeps the checks met. -/
theorem Checked.reset (h : r.Checked b e) :
    Yields r.reset fun r' ↦ (∃ b' e', r'.Checked b' e') ∧ r'.state = .idle :=
  (reset_ok h.spans).mono fun _ ⟨hs, hst⟩ ↦
    ⟨⟨e, e, checked_of_empty hs (fun hb ↦ nomatch hst.symm.trans hb)⟩, hst⟩

end

end Receiver

end RooTransport.Link
