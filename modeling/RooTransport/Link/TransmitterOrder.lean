import RooTransport.Link.TransmitterHeader

/-!
# The order of first transmissions

The packets of the window that were sent come before those that were not, and `next_to_send_`
does not run ahead of the first packet not sent, as long as `ack` drops and marks only packets
that were sent. `getBufferToSend` finds that packet through `next_to_send_` or through its scan,
and `ack` may take `next_to_send_` back (`transmitter.cpp:116–194` and `:222–295`).
-/

namespace RooTransport.Link

open RooTransport.Base RingBuffer

/-- A packet that was sent takes no more data. -/
structure OutBuffer.WasSent (x : OutBuffer) : Prop where
  counted : 0 < x.sendCounter
  finished : x.finished = true

/-- A packet that was not sent has no timer, and no acknowledgement. -/
structure OutBuffer.Waiting (x : OutBuffer) : Prop where
  counted : x.sendCounter = 0
  acked : x.acked = false
  expiration : x.expiration = 0

/-- The effects that keep first transmissions in order, `f` the first position not sent. -/
def Effect.InOrder (f : Int) : Effect → Prop
  | .send p _ => p ≤ f
  | .pop p => p < f
  | .skip p => p < f
  | .reset b e => b = e
  | .stray => False
  | _ => True

/-- The first position not sent after an effect. -/
def Effect.firstUnsent (f : Int) : Effect → Int
  | .send p _ => max f (p + 1)
  | _ => f

/-- The effects of calls that neither send nor acknowledge. -/
def Effect.Quiet : Effect → Prop
  | .alloc _ | .write _ | .release | .flush | .closeNow _ | .closeLater | .himark _ | .calm => True
  | _ => False

/-- An effect that sends nothing is in order and leaves the first unsent packet alone. -/
theorem Effect.Quiet.inOrder {eff : Effect} (h : eff.Quiet) (f : Int) :
    eff.InOrder f ∧ eff.firstUnsent f = f := by
  cases eff with
  | send | pop | skip | reset | stray => exact h.elim
  | _ => exact ⟨trivial, rfl⟩

/-- Writing sends nothing. -/
theorem Effect.IsWrite.quiet {eff : Effect} (h : eff.IsWrite) : eff.Quiet := by
  cases eff with
  | alloc | write | release => trivial
  | _ => exact h.elim

/-- Closing sends nothing. -/
theorem Effect.IsClose.quiet {eff : Effect} (h : eff.IsClose) : eff.Quiet := by
  cases eff with
  | flush | closeNow | closeLater | calm => trivial
  | _ => exact h.elim

private theorem OutBuffer.waiting_init (pos : SeqNum) (controlBit : Bool) :
    (OutBuffer.init pos controlBit).Waiting :=
  ⟨rfl, rfl, rfl⟩

private theorem OutBuffer.waiting_eos (pos : SeqNum) (controlBit : Bool) :
    (OutBuffer.init pos controlBit).markFinal.finish.Waiting :=
  ⟨rfl, rfl, rfl⟩

private theorem OutBuffer.Waiting.finish {x : OutBuffer} (h : x.Waiting) : x.finish.Waiting :=
  ⟨h.counted, h.acked, rfl⟩

private theorem OutBuffer.Waiting.extended {x : OutBuffer} (h : x.Waiting) (bytes : List UInt8) :
    (x.extended bytes).Waiting := by
  unfold OutBuffer.extended
  split
  · exact ⟨h.counted, h.acked, rfl⟩
  · exact ⟨h.counted, h.acked, h.expiration⟩

private theorem OutBuffer.wasSent_markSent {x : OutBuffer} (h : x.finished = true) (now : Uptime)
    (draw : Nat) : (x.markSent now draw).WasSent := by
  refine ⟨?_, h⟩
  unfold OutBuffer.markSent
  dsimp only
  split
  · exact Nat.succ_pos _
  · omega

namespace Transmitter

variable {n : LinkBufferSize}

/-- The window from `b` to `e` with the packets before `f` sent, and those from `f` on not. -/
structure Ordered (t : Transmitter n) (b e f : Int) : Prop where
  spans : t.outRing.Spans b e
  begin_le : b ≤ f
  le_end : f ≤ e
  sent : ∀ p, b ≤ p → p < f → (t.bufferAt p).WasSent
  unsent : ∀ p, f ≤ p → p < e → (t.bufferAt p).Waiting

/-- `next_to_send_` is not past the first packet not sent, nor far behind it. -/
def Follows (t : Transmitter n) (f : Int) : Prop :=
  ∃ p, t.nextToSend = .ofPos p ∧ p ≤ f ∧ f ≤ p + 1024

section

variable {t t' : Transmitter n} {b e b' e' f : Int}

/-- A packet that was sent comes before the first unsent one. -/
theorem Ordered.lt_of_counted (h : t.Ordered b e f) {p : Int} (hu : p < e)
    (hc : 0 < (t.bufferAt p).sendCounter) : p < f := by
  by_contra hge
  have hzero := (h.unsent p (not_lt.mp hge) hu).counted
  omega

/-- The packets that were sent are those before the first unsent one. -/
theorem Ordered.counted_iff (h : t.Ordered b e f) {p : Int} (hl : b ≤ p) (hu : p < e) :
    0 < (t.bufferAt p).sendCounter ↔ p < f :=
  ⟨h.lt_of_counted hu, fun hlt ↦ (h.sent p hl hlt).counted⟩

/-- What keeps every slot sent or waiting keeps the order. -/
theorem Ordered.congr (h : t.Ordered b e f) (hring : t'.outRing = t.outRing)
    (hsent : ∀ i, (t.outBuffers i).WasSent → (t'.outBuffers i).WasSent)
    (hwait : ∀ i, (t.outBuffers i).Waiting → (t'.outBuffers i).Waiting) : t'.Ordered b e f :=
  ⟨hring ▸ h.spans, h.begin_le, h.le_end, fun p hl hu ↦ hsent _ (h.sent p hl hu),
    fun p hl hu ↦ hwait _ (h.unsent p hl hu)⟩

/-- The same for one slot replaced. -/
theorem Ordered.update {i : Fin (2 ^ n.val)} {x : OutBuffer} (h : t.Ordered b e f)
    (hring : t'.outRing = t.outRing) (hbuf : t'.outBuffers = Function.update t.outBuffers i x)
    (hsent : (t.outBuffers i).WasSent → x.WasSent)
    (hwait : (t.outBuffers i).Waiting → x.Waiting) : t'.Ordered b e f := by
  apply h.congr hring
  · intro j hj
    rw [hbuf]
    exact holds_update hsent hj
  · intro j hj
    rw [hbuf]
    exact holds_update hwait hj

/-- A packet that is sent, the next one for the first time or an earlier one again. -/
theorem Ordered.send {p : Int} {x : OutBuffer} (h : t.Ordered b e f) (hl : b ≤ p) (hu : p < e)
    (hle : p ≤ f) (hring : t'.outRing = t.outRing)
    (hbuf : t'.outBuffers = (t.withBuffer p x).outBuffers) (hx : x.WasSent) :
    t'.Ordered b e (max f (p + 1)) := by
  have hus := h.spans.used
  have hbf := h.begin_le
  have hfe := h.le_end
  have hself : t'.bufferAt p = x := by
    rw [bufferAt, hbuf]
    exact bufferAt_withBuffer t p x
  have hother {q : Int} (hne : q ≠ p) (hq : b ≤ q) (hq' : q < e) :
      t'.bufferAt q = t.bufferAt q := by
    rw [bufferAt, hbuf]
    exact bufferAt_withBuffer_ne t x hne (by omega) (by omega)
  refine ⟨hring ▸ h.spans, by omega, by omega, fun q hq hq' ↦ ?_, fun q hq hq' ↦ ?_⟩
  · by_cases hqp : q = p
    · rw [hqp, hself]
      exact hx
    · rw [hother hqp hq (by omega)]
      exact h.sent q hq (by omega)
  · rw [hother (by omega) (by omega) hq']
    exact h.unsent q (by omega) hq'

/-- A packet is queued at the end of the window. -/
theorem Ordered.push {x : OutBuffer} (h : t.Ordered b e f) (hroom : e < b + 2 ^ n.val)
    (hs : t'.outRing.Spans b (e + 1)) (hbuf : t'.outBuffers = (t.withBuffer e x).outBuffers)
    (hx : x.Waiting) : t'.Ordered b (e + 1) f := by
  have hbf := h.begin_le
  have hfe := h.le_end
  refine ⟨hs, hbf, by omega, fun q hq hq' ↦ ?_, fun q hq hq' ↦ ?_⟩
  · obtain ⟨rfl, -⟩ | ⟨-, heq⟩ := bufferAt_pushed hbuf hroom hq (by omega)
    · omega
    · rw [heq]
      exact h.sent q hq hq'
  · obtain ⟨-, heq⟩ | ⟨hlt, heq⟩ := bufferAt_pushed hbuf hroom (by omega) hq'
    · rw [heq]
      exact hx
    · rw [heq]
      exact h.unsent q hq hlt

/-- Effects in order keep the order. -/
theorem Ordered.moves {eff : Effect} (h : t.Ordered b e f)
    (hm : Moves (t, b, e) eff (t', b', e')) (hk : eff.InOrder f) :
    t'.Ordered b' e' (eff.firstUnsent f) := by
  cases hm with
  | alloc ring _ _ _ _ hroom hr => exact h.push hroom hr rfl (OutBuffer.waiting_init _ _)
  | write i bytes _ _ hopen =>
    refine h.update rfl rfl ?_ ?_
    · intro hsent
      exact absurd (hopen.symm.trans hsent.finished) (by decide)
    · intro hwait
      exact hwait.extended bytes
  | release | himark | calm | closeLater => exact h.congr rfl (fun _ hx ↦ hx) fun _ hx ↦ hx
  | flush i =>
    exact h.update rfl rfl (fun hx ↦ ⟨hx.counted, hx.finished⟩)
      fun hx ↦ ⟨hx.counted, hx.acked, hx.expiration⟩
  | closeNow ring _ hroom hr => exact h.push hroom hr rfl (OutBuffer.waiting_eos _ _)
  | lateEos ring _ hroom hr => exact h.push hroom hr rfl (OutBuffer.waiting_eos _ _)
  | finish => exact h.update rfl rfl (fun hx ↦ ⟨hx.counted, rfl⟩) fun hx ↦ hx.finish
  | send now draw fast _ hl hu =>
    exact h.send hl hu hk rfl rfl (OutBuffer.wasSent_markSent (finishBuffer_finished _) now draw)
  | pop ring _ _ hr =>
    have hlt : b < f := hk
    exact ⟨hr, hlt, h.le_end, fun p hl hu ↦ h.sent p (by omega) hu, h.unsent⟩
  | @skip _ _ _ p hl hu =>
    have hlt : p < f := hk
    have hsent := h.sent p hl hlt
    refine h.update rfl rfl ?_ ?_
    · exact fun hx ↦ ⟨hx.counted, hx.finished⟩
    · intro hwait
      have hzero : (t.bufferAt p).sendCounter = 0 := hwait.counted
      have hpos := hsent.counted
      omega
  | rush next =>
    exact h.update rfl rfl (fun hx ↦ ⟨hx.counted, hx.finished⟩) fun hx ↦ ⟨hx.counted, hx.acked, rfl⟩
  | reset ring hr =>
    obtain rfl : b = e := hk
    exact ⟨hr, h.begin_le, h.le_end, h.sent, h.unsent⟩
  | stray => exact hk.elim

/-- A quiet effect leaves alone what was sent and what is sent next. -/
theorem Ordered.quiet_moves {eff : Effect} (h : t.Ordered b e f)
    (hm : Moves (t, b, e) eff (t', b', e')) (hq : eff.Quiet) :
    t'.Ordered b' e' f ∧ t'.nextToSend = t.nextToSend ∧ b' = b := by
  obtain ⟨hin, hsame⟩ := hq.inOrder f
  have ho := h.moves hm hin
  rw [hsame] at ho
  refine ⟨ho, ?_⟩
  cases hm with
  | finish | send | pop | skip | rush | reset | stray | lateEos => exact hq.elim
  | _ => exact ⟨rfl, rfl⟩

end

/-! ### Acknowledgements -/

/-- A packet of the window that was sent. -/
def Sent (t : Transmitter n) (pos : SeqNum) : Prop :=
  forwardDist pos.raw t.outRing.begin_.raw < t.outRing.slotsUsed ∧
    0 < (t.getOutBuffer pos).sendCounter

instance (t : Transmitter n) (pos : SeqNum) : Decidable (t.Sent pos) :=
  inferInstanceAs (Decidable (_ ∧ _))

/-- The packets, of those not dropped yet, that `ack` takes an acknowledgement to be for:
everything below its sequence number, and what its bitmap marks behind the front that then results
(`transmitter.cpp:233–270`). If the front was past the sequence number already, these are not the
packets that the receiver had in mind, but as many positions further on. -/
def acknowledged (t : Transmitter n) (seqId : BitVec 16) (ackBitmap : List UInt8) : List SeqNum :=
  let seq := t.outRing.restorePosHighBits seqId 12
  let front := if t.outRing.begin_ < seq then seq else t.outRing.begin_
  let bits := ackBitmap.flatMap bitsMsb
  ((List.range (seq.diff t.outRing.begin_).toNat).map fun (i : Nat) ↦ t.outRing.begin_.add i) ++
    ((List.range bits.length).filter fun j ↦ bits[j]? = some true).map
      fun (j : Nat) ↦ front.add (1 + j)

/-- What an acknowledgement that is not ignored drops and marks was sent, at the positions where
`ack` applies it. An acknowledgement of sent packets that comes late need not be of this kind:
its bitmap is applied to a front that has moved on. -/
def AcksSent (t : Transmitter n) : Act → Prop
  | .ack controlBit seqId ackBitmap =>
    t.state = .connected → controlBit ≠ t.controlBit →
      ¬ (t.outRing.restorePosHighBits seqId 12).Gt t.outRing.end_ →
      ∀ pos ∈ t.acknowledged seqId ackBitmap, t.Sent pos
  | _ => True

instance (t : Transmitter n) : (a : Act) → Decidable (t.AcksSent a)
  | .ack _ _ _ => inferInstanceAs (Decidable (_ → _ → _ → _))
  | .init _ _ | .setConnected _ _ | .tryWrite _ | .flush | .close | .getBufferToSend _ _ _
  | .updateRecvHimark _ _ | .setBroken | .reset => .isTrue trivial

section

variable {t t' : Transmitter n} {b e f q : Int}

/-- A packet that was sent is one of those before `f`. -/
theorem Ordered.sent_pos (h : t.Ordered b e f) {pos : SeqNum} (hs : t.Sent pos) :
    ∃ p, pos = .ofPos p ∧ b ≤ p ∧ p < f := by
  obtain ⟨hin, hcount⟩ := hs
  obtain ⟨p, rfl, hl, hu⟩ := h.spans.exists_pos hin
  rw [getOutBuffer_ofPos] at hcount
  exact ⟨p, rfl, hl, h.lt_of_counted hu hcount⟩

/-- What an acknowledgement of sent packets drops was sent. -/
theorem Ordered.acked_below (h : t.Ordered b e f) {seqId : BitVec 16} {bitmap : List UInt8}
    (hq : t.outRing.restorePosHighBits seqId 12 = .ofPos q) (hl : b - 2048 ≤ q) (hu : q < b + 2048)
    (hs : ∀ pos ∈ t.acknowledged seqId bitmap, t.Sent pos) : max b q ≤ f := by
  have hbf := h.begin_le
  by_cases hlt : b < q
  · have hmem : SeqNum.ofPos (q - 1) ∈ t.acknowledged seqId bitmap := by
      apply List.mem_append_left
      apply List.mem_map.mpr
      refine ⟨(q - 1 - b).toNat, ?_, ?_⟩
      · rw [hq, h.spans.begin_eq, SeqNum.diff_ofPos (by omega) (by omega), List.mem_range]
        omega
      · rw [h.spans.begin_eq, SeqNum.ofPos_add]
        congr 1
        omega
    obtain ⟨p, hp, hlp, hup⟩ := h.sent_pos (hs _ hmem)
    have hcap := capacity_le n
    have hus := h.spans.used
    have hfe := h.le_end
    have := (SeqNum.ofPos_eq (by omega) (by omega)).mp hp
    omega
  · omega

/-- What it marks was sent, too. -/
theorem Ordered.acked_marked (h : t.Ordered b e f) {seqId : BitVec 16} {bitmap : List UInt8}
    (hq : t.outRing.restorePosHighBits seqId 12 = .ofPos q) (hl : b - 2048 ≤ q) (hu : q < b + 2048)
    (hs : ∀ pos ∈ t.acknowledged seqId bitmap, t.Sent pos) {j : Nat}
    (hj : (bitmap.flatMap bitsMsb)[j]? = some true) :
    ∃ p, SeqNum.ofPos (max b q + 1 + j) = .ofPos p ∧ b ≤ p ∧ p < f := by
  apply h.sent_pos
  apply hs
  apply List.mem_append_right
  apply List.mem_map.mpr
  refine ⟨j, ?_, ?_⟩
  · apply List.mem_filter.mpr
    refine ⟨List.mem_range.mpr (List.getElem?_eq_some_iff.mp hj).1, ?_⟩
    exact decide_eq_true hj
  · have hfront : (if t.outRing.begin_ < t.outRing.restorePosHighBits seqId 12 then
        t.outRing.restorePosHighBits seqId 12 else t.outRing.begin_) = .ofPos (max b q) := by
      rw [hq, h.spans.begin_eq]
      split
      · next hlt =>
        rw [SeqNum.ofPos_lt (by omega) (by omega)] at hlt
        rw [max_eq_right hlt.le]
      · next hge =>
        rw [SeqNum.ofPos_lt (by omega) (by omega)] at hge
        rw [max_eq_left (not_lt.mp hge)]
    rw [hfront, SeqNum.ofPos_add, ← add_assoc]

/-- An acknowledgement of sent packets keeps the order, and what each of its effects keeps. -/
theorem Ordered.ack_keeps {controlBit : Bool} {seqId : BitVec 16} {bitmap : List UInt8}
    {rushed : Bool} (h : t.Ordered b e f) (hg : t.AcksSent (.ack controlBit seqId bitmap))
    (hok : t.ack controlBit seqId bitmap = .ok (t', rushed)) (I : Placed n → Prop)
    (hstep : ∀ x eff y, x.1.Ordered x.2.1 x.2.2 f → I x → Moves x eff y → eff.InOrder f →
      ¬ eff.Quiet → I y) (h0 : I (t, b, e)) :
    ∃ b' e', t'.Ordered b' e' f ∧ I (t', b', e') := by
  obtain ⟨t1, r, hack, hacking⟩ := ack_path h.spans controlBit seqId bitmap
  rw [hok] at hack
  cases hack
  cases hacking with
  | ignored => exact ⟨b, e, h, h0⟩
  | @applied _ q e' effs hst hbit hq hl hu hle hpath hk =>
    have hgt : ¬ (t.outRing.restorePosHighBits seqId 12).Gt t.outRing.end_ := by
      have hcap := capacity_le n
      have hus := h.spans.used
      have hbe := h.spans.le
      rw [hq, h.spans.end_eq, SeqNum.ofPos_gt (by omega) (by omega)]
      omega
    have hsent := hg hst hbit hgt
    have hbelow := h.acked_below hq hl hu hsent
    refine ⟨_, _, hpath.invariant (fun x ↦ x.1.Ordered x.2.1 x.2.2 f ∧ I x)
      (fun x eff y heff hx hm ↦ ?_) ⟨h, h0⟩⟩
    have hby := hk eff heff
    suffices hin : eff.InOrder f ∧ eff.firstUnsent f = f ∧ ¬ eff.Quiet by
      have hy := hx.1.moves hm hin.1
      rw [hin.2.1] at hy
      exact ⟨hy, hstep x eff y hx.1 hx.2 hm hin.1 hin.2.2⟩
    cases eff with
    | pop p =>
      have hp : p < q := hby
      exact ⟨show p < f by omega, rfl, id⟩
    | skip p =>
      obtain ⟨j, hj, hpos⟩ := hby
      obtain ⟨p', hp', hlp, hup⟩ := h.acked_marked hq hl hu hsent hj
      have hin : x.2.1 ≤ p ∧ p < x.2.2 := by
        cases hm
        exact ⟨by assumption, by assumption⟩
      have hcap := capacity_le n
      have hus := h.spans.used
      have hus' := hx.1.spans.used
      have hfe := h.le_end
      have hfe' := hx.1.le_end
      have hbf' := hx.1.begin_le
      have heq : p = p' := (SeqNum.ofPos_eq (by omega) (by omega)).mp (hpos.trans hp')
      exact ⟨show p < f by omega, rfl, id⟩
    | reset x y => exact ⟨hby, rfl, id⟩
    | lateEos | rush => exact ⟨trivial, rfl, id⟩
    | _ => exact absurd hby (by simp [Effect.AckedBy])

private theorem popAcked_nextToSend (fuel : Nat) : ∀ {t t' : Transmitter n} {seq : SeqNum},
    popAcked fuel t seq = .ok t' → t'.nextToSend = t.nextToSend := by
  induction fuel with
  | zero =>
    intro t t' seq h
    cases h
    rfl
  | succ fuel ih =>
    intro t t' seq h
    rw [popAcked] at h
    split at h
    case isFalse =>
      cases h
      rfl
    cases hp : t.outRing.pop with
    | error c => rw [hp] at h; cases h
    | ok out =>
      rw [hp] at h
      dsimp only at h
      split at h
      · cases ha : addEosPacket { t with
            outRing := out.2, packetsDelivered := t.packetsDelivered + 1 } with
        | error c => rw [ha] at h; cases h
        | ok t1 =>
          rw [ha] at h
          have hnext : t1.nextToSend = t.nextToSend := by
            unfold addEosPacket at ha
            split at ha
            · cases ha
            · cases ha
              rfl
          exact (ih h).trans hnext
      · have hnext := ih h
        exact hnext

/-- Marking packets leaves the window alone. -/
theorem markAcked_same (bits : List Bool) : ∀ (t : Transmitter n) (pos last : SeqNum),
    (markAcked bits t pos last).1.nextToSend = t.nextToSend ∧
      (markAcked bits t pos last).1.outRing = t.outRing := by
  induction bits with
  | nil => exact fun _ _ _ ↦ ⟨rfl, rfl⟩
  | cons bit bits ih =>
    intro t pos last
    rw [markAcked]
    split
    · exact ih _ _ _
    · exact ih _ _ _

private theorem rushLoop_outRing (fuel : Nat) : ∀ {t t' : Transmitter n} {pos last : SeqNum}
    {updated rushed : Bool}, rushLoop fuel t pos last updated = .ok (t', rushed) →
    t'.outRing = t.outRing := by
  induction fuel with
  | zero =>
    intro t t' pos last updated rushed h
    cases h
    rfl
  | succ fuel ih =>
    intro t t' pos last updated rushed h
    unfold rushLoop at h
    split at h
    · cases h
      rfl
    dsimp only at h
    split at h
    · cases hr : (t.getOutBuffer pos).rush with
      | error c => rw [hr] at h; cases h
      | ok x =>
        rw [hr] at h
        refine (ih h).trans ?_
        split
        · rfl
        · rfl
    · exact ih h

/-- The packet that `next_to_send_` is taken back to was sent once. -/
theorem rushLoop_nextToSend (fuel : Nat) : ∀ {t t' : Transmitter n} {b e p q : Int}
    {updated rushed : Bool}, rushLoop fuel t (.ofPos p) (.ofPos q) updated = .ok (t', rushed) →
    t.outRing.Spans b e → b ≤ p → p ≤ q → q < e → q - p ≤ fuel →
    (∀ i, (t'.outBuffers i).sendCounter = (t.outBuffers i).sendCounter) ∧
      (t'.nextToSend = t.nextToSend ∨
        ∃ r, b ≤ r ∧ r < e ∧ t'.nextToSend = .ofPos r ∧ (t.bufferAt r).sendCounter = 1) := by
  induction fuel with
  | zero =>
    intro t t' b e p q updated rushed h _ _ _ _ _
    cases h
    exact ⟨fun _ ↦ rfl, .inl rfl⟩
  | succ fuel ih =>
    intro t t' b e p q updated rushed h hs hb hp hq hf
    have hcap := capacity_le n
    have hus := hs.used
    unfold rushLoop at h
    split at h
    · cases h
      exact ⟨fun _ ↦ rfl, .inl rfl⟩
    next hne =>
    rw [SeqNum.ofPos_eq (by omega) (by omega)] at hne
    simp only [getOutBuffer_ofPos, SeqNum.ofPos_next] at h
    split at h
    · next honce =>
      have hrush : (t.bufferAt p).rush = .ok { t.bufferAt p with expiration := 0 } := by
        rw [OutBuffer.rush, if_pos (by omega)]
      rw [hrush] at h
      dsimp only at h
      rw [setOutBuffer_ofPos] at h
      have hcount (i : Fin (2 ^ n.val)) :
          ((t.withBuffer p { t.bufferAt p with expiration := 0 }).outBuffers i).sendCounter =
            (t.outBuffers i).sendCounter :=
        field_update OutBuffer.sendCounter (by rfl) i
      split at h
      · obtain ⟨hsame, hnext⟩ := ih h hs (by omega) (by omega) hq (by omega)
        refine ⟨fun i ↦ (hsame i).trans (hcount i), hnext.imp_right ?_⟩
        rintro ⟨r, hl, hu, hr, hone⟩
        exact ⟨r, hl, hu, hr, (hcount _).symm.trans hone⟩
      · obtain ⟨hsame, hnext⟩ := ih h hs (by omega) (by omega) hq (by omega)
        refine ⟨fun i ↦ (hsame i).trans (hcount i), .inr ?_⟩
        rcases hnext with hnext | ⟨r, hl, hu, hr, hone⟩
        · exact ⟨p, hb, by omega, hnext, honce.2⟩
        · exact ⟨r, hl, hu, hr, (hcount _).symm.trans hone⟩
    · exact ih h hs (by omega) (by omega) hq (by omega)

/-- `ack` leaves `next_to_send_` alone, or takes it back to a packet that was sent once. -/
theorem ack_nextToSend {controlBit : Bool} {seqId : BitVec 16} {bitmap : List UInt8}
    {rushed : Bool} (hs' : t'.outRing.Spans b e)
    (h : t.ack controlBit seqId bitmap = .ok (t', rushed)) :
    t'.nextToSend = t.nextToSend ∨
      ∃ r, b ≤ r ∧ r < e ∧ t'.nextToSend = .ofPos r ∧ (t'.bufferAt r).sendCounter = 1 := by
  unfold ack at h
  split at h
  · cases h; exact .inl rfl
  split at h
  · cases h; exact .inl rfl
  dsimp only at h
  split at h
  · cases h; exact .inl rfl
  cases hpop : popAcked t.outRing.slotsUsed t (t.outRing.restorePosHighBits seqId 12) with
  | error c => rw [hpop] at h; cases h
  | ok t1 =>
    have hnext1 := popAcked_nextToSend _ hpop
    rw [hpop] at h
    dsimp only at h
    split at h
    · split at h
      · cases hreset : t1.reset with
        | error c => rw [hreset] at h; cases h
        | ok t2 =>
          rw [hreset] at h
          cases h
          have hnext2 : t'.nextToSend = t1.nextToSend := by
            unfold reset at hreset
            split at hreset
            · cases hreset
            · cases hreset
              rfl
          exact .inl (hnext2.trans hnext1)
      · cases h
        exact .inl hnext1
    · next hempty =>
      have hmark := markAcked_same (bitmap.flatMap bitsMsb) t1 (t1.outRing.begin_.add 1)
        (t1.outRing.begin_.add (-1))
      split at h
      · next hc =>
        have hs2 := rushLoop_outRing _ h ▸ hs'
        have hlt : b < e := by
          rw [hmark.2] at hs2
          exact hs2.empty_eq_false.mp (by simpa using hempty)
        obtain ⟨q, hq, hl, hu⟩ := hs2.contains_pos hlt hc
        have hused := hs2.slotsUsed_eq
        rw [hq, hs2.begin_eq] at h
        obtain ⟨hcount, hnext⟩ := rushLoop_nextToSend _ h hs2 le_rfl hl hu (by omega)
        rcases hnext with hsame | ⟨r, hlr, hur, hr, hone⟩
        · exact .inl (hsame.trans (hmark.1.trans hnext1))
        · exact .inr ⟨r, hlr, hur, hr, (hcount _).trans hone⟩
      · cases h
        exact .inl (hmark.1.trans hnext1)

/-- After an acknowledgement `next_to_send_` still follows what was sent. -/
theorem Follows.ack {controlBit : Bool} {seqId : BitVec 16} {bitmap : List UInt8}
    {rushed : Bool} (hf : t.Follows f) (h' : t'.Ordered b e f)
    (hok : t.ack controlBit seqId bitmap = .ok (t', rushed)) : t'.Follows f := by
  rcases ack_nextToSend h'.spans hok with hsame | ⟨r, hl, hu, hr, hone⟩
  · rw [Follows, hsame]
    exact hf
  · have hlt := h'.lt_of_counted hu (by omega)
    have hcap := capacity_le n
    have hus := h'.spans.used
    have hfe := h'.le_end
    exact ⟨r, hr, by omega, by omega⟩

end

/-! ### Sending -/

/-- The packet at a position can be sent at once. -/
def Ready (t : Transmitter n) (p : Int) : Prop :=
  (t.bufferAt p).acked = false ∧ (t.bufferAt p).flushed = true ∧
    ((t.bufferAt p).finished = false ∨ (t.bufferAt p).expiration = 0)

/-- What the scan from `p` on, with `best` the candidate to beat, finds: it stops at `stop`,
at a packet ready to be sent or short of one that is not to be sent yet. -/
structure Scans (t : Transmitter n) (p e : Int) (best : SeqNum × Uptime) (stop : Int)
    (found : SeqNum × Uptime) : Prop where
  le_stop : p ≤ stop
  stop_le : stop ≤ e
  passed : ∀ q, p ≤ q → q < stop → SeqNum.ofPos q < t.recvHimark ∧
    ((t.bufferAt q).acked = true ∨
      (t.bufferAt q).expiration ≠ 0 ∧ found.2 ≤ (t.bufferAt q).expiration)
  le_best : found.2 ≤ best.2
  found : (found = (.ofPos stop, 0) ∧ stop < e ∧ t.Ready stop) ∨
    ((stop < e → SeqNum.ofPos stop < t.recvHimark →
        (t.bufferAt stop).acked = false ∧ (t.bufferAt stop).flushed = false) ∧
      (found = best ∨ ∃ q, p ≤ q ∧ q < stop ∧ (t.bufferAt q).acked = false ∧
        found = (.ofPos q, (t.bufferAt q).expiration)))

private theorem Scans.cons {t : Transmitter n} {p e stop : Int} {best best' found : SeqNum × Uptime}
    (h : t.Scans (p + 1) e best' stop found) (hhi : SeqNum.ofPos p < t.recvHimark)
    (hpass : (t.bufferAt p).acked = true ∨
      (t.bufferAt p).expiration ≠ 0 ∧ best'.2 ≤ (t.bufferAt p).expiration)
    (hbest : best' = best ∨ (t.bufferAt p).acked = false ∧
      best' = (.ofPos p, (t.bufferAt p).expiration) ∧ best'.2 ≤ best.2) :
    t.Scans p e best stop found := by
  have hle := h.le_stop
  refine ⟨by omega, h.stop_le, fun q hl hu ↦ ?_, ?_, h.found.imp_right fun ⟨hend, hfound⟩ ↦
    ⟨hend, ?_⟩⟩
  · by_cases hq : q = p
    · rw [hq]
      exact ⟨hhi, hpass.imp_right fun ⟨hne, hb⟩ ↦ ⟨hne, h.le_best.trans hb⟩⟩
    · exact h.passed q (by omega) hu
  · rcases hbest with rfl | ⟨-, -, hb⟩
    · exact h.le_best
    · exact h.le_best.trans hb
  · rcases hfound with rfl | ⟨q, hl, hu, hq⟩
    · rcases hbest with rfl | ⟨hacked, rfl, -⟩
      · exact .inl rfl
      · exact .inr ⟨p, le_rfl, by omega, hacked, rfl⟩
    · exact .inr ⟨q, by omega, hu, hq⟩

/-- The loop of the scan does what `Scans` says. -/
theorem scan_scans {t : Transmitter n} {b e : Int} (hs : t.outRing.Spans b e) (fuel : Nat) :
    ∀ (p : Int) (best : SeqNum × Uptime), b ≤ p → p + fuel = e →
      ∃ stop, t.Scans p e best stop (t.scan fuel (.ofPos p) best.1 best.2) := by
  have hcap := capacity_le n
  have hus := hs.used
  induction fuel with
  | zero =>
    intro p best hl he
    exact ⟨p, le_rfl, by omega, fun q hq hq' ↦ by omega, le_rfl,
      .inr ⟨fun hlt ↦ by omega, .inl rfl⟩⟩
  | succ fuel ih =>
    intro p best hl he
    have hnext := fun best ↦ ih (p + 1) best (by omega) (by push_cast at he; omega)
    have hend : SeqNum.ofPos p < t.outRing.end_ := by
      rw [hs.end_eq, SeqNum.ofPos_lt (by omega) (by omega)]
      omega
    unfold scan
    rw [SeqNum.ofPos_next, getOutBuffer_ofPos]
    split
    case isFalse hno =>
      refine ⟨p, le_rfl, by omega, fun q hq hq' ↦ by omega, le_rfl, .inr ⟨fun _ hhi ↦ ?_, .inl rfl⟩⟩
      exact absurd ⟨hend, hhi⟩ hno
    next hp =>
    dsimp only
    split
    · next hacked =>
      obtain ⟨stop, h⟩ := hnext best
      exact ⟨stop, h.cons hp.2 (.inl hacked) (.inl rfl)⟩
    next hacked =>
    rw [Bool.not_eq_true] at hacked
    split
    · next hfl =>
      exact ⟨p, le_rfl, by omega, fun q hq hq' ↦ by omega, le_rfl,
        .inr ⟨fun _ _ ↦ ⟨hacked, hfl⟩, .inl rfl⟩⟩
    next hfl =>
    rw [Bool.not_eq_false] at hfl
    split
    · next hready =>
      exact ⟨p, le_rfl, by omega, fun q hq hq' ↦ by omega, Nat.zero_le _,
        .inl ⟨rfl, by omega, hacked, hfl, hready⟩⟩
    next hready =>
    rw [not_or] at hready
    split
    · next hlt =>
      obtain ⟨stop, h⟩ := hnext (.ofPos p, (t.bufferAt p).expiration)
      exact ⟨stop, h.cons hp.2 (.inr ⟨hready.2, le_rfl⟩) (.inr ⟨hacked, rfl, hlt.le⟩)⟩
    · next hge =>
      obtain ⟨stop, h⟩ := hnext best
      exact ⟨stop, h.cons hp.2 (.inr ⟨hready.2, not_lt.mp hge⟩) (.inl rfl)⟩

section

variable {t : Transmitter n} {b e f : Int} {now : Uptime} {draw next : Nat}

/-- The scan passes only packets that were sent. -/
theorem Ordered.stop_le (h : t.Ordered b e f) {best found : SeqNum × Uptime} {stop : Int}
    (hscan : t.Scans b e best stop found) : stop ≤ f := by
  by_contra hgt
  have hfe := hscan.stop_le
  have hbf := h.begin_le
  have hwait := h.unsent f le_rfl (by omega)
  rcases (hscan.passed f hbf (by omega)).2 with hacked | ⟨hne, -⟩
  · exact absurd (hwait.acked.symm.trans hacked) (by decide)
  · exact hne hwait.expiration

/-- What is handed out was sent before, or is the first packet not sent. -/
theorem Ordered.handOut (h : t.Ordered b e f) {p : Int} (hl : b ≤ p) (hu : p < e) (hle : p ≤ f)
    (now : Uptime) (draw : Nat) :
    (t.handOut (.ofPos p) (finishBuffer (t.bufferAt p)) now draw).Ordered b e (max f (p + 1)) ∧
      (t.handOut (.ofPos p) (finishBuffer (t.bufferAt p)) now draw).Follows (max f (p + 1)) := by
  have hcap := capacity_le n
  have hus := h.spans.used
  have hfe := h.le_end
  rw [handOut_ofPos]
  constructor
  · exact h.send hl hu hle rfl rfl
      (OutBuffer.wasSent_markSent (finishBuffer_finished _) now draw)
  · exact ⟨p + 1, rfl, by omega, by omega⟩

/-- The fast path sends the first packet that was not sent, or nothing. -/
theorem Ordered.sendNext (h : t.Ordered b e f) (hf : t.Follows f) (now : Uptime) (draw : Nat) :
    t.sendNext now draw = (t, none) ∨ f < e ∧ t.sendNext now draw =
      (t.handOut (.ofPos f) (finishBuffer (t.bufferAt f)) now draw, some (.ofPos f)) := by
  have hcap := capacity_le n
  have hus := h.spans.used
  have hbf := h.begin_le
  have hfe := h.le_end
  obtain ⟨p, hp, hle, hge⟩ := hf
  unfold Transmitter.sendNext
  rw [hp]
  split
  case isFalse => exact .inl rfl
  next hc =>
  obtain ⟨hl, hu⟩ := (h.spans.contains_iff (by omega) (by omega)).mp hc
  rw [getOutBuffer_ofPos]
  dsimp only
  split
  case isFalse => exact .inl rfl
  rw [finishBuffer_sendCounter]
  split
  · next hzero =>
    obtain rfl : p = f := by
      by_contra hne
      have := (h.sent p hl (by omega)).counted
      omega
    exact .inr ⟨hu, rfl⟩
  · next hcount =>
    -- a packet that was sent is finished already
    have hsent := h.sent p hl (h.lt_of_counted hu (by omega))
    rw [setOutBuffer_ofPos, finishBuffer, if_pos hsent.finished, withBuffer, bufferAt,
      Function.update_eq_self]
    exact .inl rfl

/-- What a call of `getBufferToSend` that finds nothing to send has seen. -/
structure NothingDue (t : Transmitter n) (b e : Int) (now : Uptime) (next next' : Nat)
    (stop : Int) (found : SeqNum × Uptime) : Prop where
  scans : t.Scans b e (t.outRing.end_, uptimeMax) stop found
  later : t.outRing.contains found.1 = true → now < found.2 ∧ next' = min next (found.2 - now)

/-- The packet that the scan settles on, if any, was sent before or is the first one not sent. -/
theorem Ordered.found_pos (h : t.Ordered b e f) {time : Uptime} {found : SeqNum × Uptime}
    {stop : Int} (hscan : t.Scans b e (t.outRing.end_, time) stop found)
    (hc : t.outRing.contains found.1 = true) :
    ∃ p, found.1 = .ofPos p ∧ b ≤ p ∧ p < e ∧ p ≤ f := by
  have hstop := h.stop_le hscan
  have hbs := hscan.le_stop
  have hse := hscan.stop_le
  rcases hscan.found with ⟨heq, hlt, -⟩ | ⟨-, heq | ⟨q, hl, hu, -, heq⟩⟩
  · rw [heq]
    exact ⟨stop, rfl, hbs, hlt, hstop⟩
  · have hcap := capacity_le n
    have hus := h.spans.used
    have hle := h.spans.le
    rw [heq, h.spans.end_eq, h.spans.contains_iff (by omega) (by omega)] at hc
    omega
  · rw [heq]
    exact ⟨q, rfl, hl, by omega, by omega⟩

/-- `getBufferToSend` on a connected stream hands a packet out, or finds nothing due. -/
theorem Ordered.getBufferToSend (h : t.Ordered b e f) (hf : t.Follows f)
    (hst : t.state = .connected) (now : Uptime) (draw next : Nat) :
    (∃ p, b ≤ p ∧ p < e ∧ p ≤ f ∧ t.getBufferToSend now draw next =
      (t.handOut (.ofPos p) (finishBuffer (t.bufferAt p)) now draw, some (.ofPos p), 0)) ∨
    ∃ next' stop found, t.getBufferToSend now draw next = (t, none, next') ∧
      t.NothingDue b e now next next' stop found := by
  have hbf := h.begin_le
  unfold Transmitter.getBufferToSend
  rw [if_neg (not_not.mpr hst)]
  rcases h.sendNext hf now draw with hnone | ⟨hu, hfirst⟩
  swap
  · rw [hfirst]
    exact .inl ⟨f, hbf, hu, le_rfl, rfl⟩
  rw [hnone]
  dsimp only
  have hused := h.spans.slotsUsed_eq
  obtain ⟨stop, hscan⟩ :=
    scan_scans h.spans t.outRing.slotsUsed b (t.outRing.end_, uptimeMax) le_rfl (by omega)
  unfold sendEarliest
  rw [← h.spans.begin_eq] at hscan
  revert hscan
  generalize t.scan t.outRing.slotsUsed t.outRing.begin_ t.outRing.end_ uptimeMax = found
  intro hscan
  dsimp only
  split
  · next hc =>
    split
    · next hlater => exact .inr ⟨_, stop, found, rfl, hscan, fun _ ↦ ⟨hlater, rfl⟩⟩
    · obtain ⟨p, hp, hl, hu, hle⟩ := h.found_pos hscan hc
      rw [hp, getOutBuffer_ofPos]
      exact .inl ⟨p, hl, hu, hle, rfl⟩
  next hc =>
  split
  · exact .inr ⟨_, stop, found, rfl, hscan, fun hin ↦ absurd hin hc⟩
  next hlone =>
  split
  · exact .inr ⟨_, stop, found, rfl, hscan, fun hin ↦ absurd hin hc⟩
  next hopen =>
  rw [h.spans.begin_eq, getOutBuffer_ofPos] at hopen ⊢
  rw [not_or, not_not] at hlone
  refine .inl ⟨b, le_rfl, by omega, hbf, ?_⟩
  rw [finishBuffer, if_neg hopen]

end

end Transmitter

end RooTransport.Link
