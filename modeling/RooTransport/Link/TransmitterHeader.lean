import RooTransport.Link.TransmitterSpec

/-!
# Headers of outgoing packets

The calls made on a transmitter, as the steps of one system, and the header each queued
packet carries. A header is written when its slot is taken (`out_buffer.cpp:22–31`), with
the control bit of that moment, and sent much later.
-/

namespace RooTransport.Link

open RooTransport.Base RingBuffer

namespace Transmitter

variable {n : LinkBufferSize}

/-- The calls made on a transmitter, over any number of connections. -/
inductive Act where
  | init (myStreamId : UInt32) (newStart : SeqNum)
  | setConnected (peerReceiveBufferSize : Nat) (controlBit : Bool)
  | tryWrite (buf : List UInt8)
  | flush
  | close
  | getBufferToSend (now : Uptime) (draw nextSendMicros : Nat)
  | ack (controlBit : Bool) (seqId : BitVec 16) (ackBitmap : List UInt8)
  | updateRecvHimark (controlBit : Bool) (recvHimark : BitVec 16)
  | setBroken
  | reset
  deriving DecidableEq, Repr

/-- One call, keeping only the state it leaves. -/
def step (t : Transmitter n) : Act → Except Check (Transmitter n)
  | .init myStreamId newStart => t.init myStreamId newStart
  | .setConnected size controlBit => .ok (t.setConnected size controlBit)
  | .tryWrite buf => (t.tryWrite buf).map Prod.fst
  | .flush => .ok t.flush.1
  | .close => t.close
  | .getBufferToSend now draw next => .ok (t.getBufferToSend now draw next).1
  | .ack controlBit seqId bitmap => (t.ack controlBit seqId bitmap).map Prod.fst
  | .updateRecvHimark controlBit himark => .ok (t.updateRecvHimark controlBit himark).1
  | .setBroken => t.setBroken
  | .reset => t.reset

/-- What a call leaves behind: a fresh stream, a connected or a broken one, or the end of a
path of elementary effects. -/
inductive Stepped (t : Transmitter n) (b e : Int) : Act → Transmitter n → Prop
  | init (id : UInt32) (start : SeqNum) : Stepped t b e (.init id start) { t with
      myStreamId := id
      state := .connecting
      endOfStream := false
      outRing := RingBuffer.new n start
      recvHimark := start
      nextToSend := start
      currentOutBuffer := none
      hasPendingEof := false }
  | connected (size : Nat) (controlBit : Bool) :
      Stepped t b e (.setConnected size controlBit) (t.setConnected size controlBit)
  | broken : Stepped t b e .setBroken
      { t with outRing := RingBuffer.new n (.ofPos e), state := .broken }
  | moved {a : Act} {t' : Transmitter n} {b' e' : Int} (effs : List Effect) :
      Path Moves (t, b, e) effs (t', b', e') → Stepped t b e a t'

/-- A call that fails no check leaves one of these behind. -/
theorem step_spec {t t' : Transmitter n} {b e : Int} {a : Act} (hs : t.outRing.Spans b e)
    (h : t.step a = .ok t') : Stepped t b e a t' := by
  cases a with
  | init id start =>
    rw [step, init_ok] at h
    cases h
    exact .init id start
  | setConnected size controlBit => cases h; exact .connected size controlBit
  | tryWrite buf =>
    obtain ⟨⟨t1, written, ready⟩, hw, rfl⟩ := map_eq_ok.mp h
    obtain ⟨-, effs, e', hpath, -, -⟩ := tryWrite_path hs hw
    exact .moved effs hpath
  | flush =>
    cases h
    obtain ⟨effs, hpath, -⟩ := flush_path t b e
    exact .moved effs hpath
  | close =>
    obtain ⟨t1, effs, e', hc, hpath, -, -, -⟩ := close_path hs
    obtain rfl : t1 = t' := Except.ok.inj (hc.symm.trans h)
    exact .moved effs hpath
  | getBufferToSend now draw next =>
    cases h
    obtain ⟨effs, hpath, -⟩ := (getBufferToSend_path hs now draw next).path
    exact .moved effs hpath
  | ack controlBit seqId bitmap =>
    obtain ⟨t1, rushed, hack, hacking⟩ := ack_path hs controlBit seqId bitmap
    rw [step, hack] at h
    cases h
    cases hacking with
    | ignored => exact .moved [] (.nil _)
    | applied effs _ _ _ _ _ _ hpath => exact .moved effs hpath
  | updateRecvHimark controlBit himark =>
    cases h
    rcases updateRecvHimark_path hs controlBit himark with heq | ⟨p, -, -, hm⟩
    · rw [heq]
      exact .moved [] (.nil _)
    · exact .moved _ (.single hm)
  | setBroken =>
    rw [step, setBroken_ok hs] at h
    cases h
    exact .broken
  | reset =>
    obtain ⟨t1, hr, hm⟩ := reset_ok hs
    obtain rfl : t1 = t' := Except.ok.inj (hr.symm.trans h)
    exact .moved _ (.single hm)

/-! ### The header invariant -/

/-- The packet at a position ends the stream: `close` has queued its final packet, and it is
the last one of the window. -/
def IsEos (t : Transmitter n) (pos : SeqNum) : Prop :=
  t.endOfStream = true ∧ t.hasPendingEof = false ∧ pos.next = t.outRing.end_

instance (t : Transmitter n) (pos : SeqNum) : Decidable (t.IsEos pos) :=
  inferInstanceAs (Decidable (_ ∧ _ ∧ _))

/-- The header a packet of the window should carry. -/
def headerFor (t : Transmitter n) (pos : SeqNum) : BitVec 16 :=
  formatPacketHeader pos (if t.IsEos pos then .fin else .data) t.controlBit

/-- Every packet of the window carries the header of its position. -/
structure Headed (t : Transmitter n) (b e : Int) : Prop where
  spans : t.outRing.Spans b e
  header : ∀ p, b ≤ p → p < e → (t.bufferAt p).header = t.headerFor (.ofPos p)
  pending : t.hasPendingEof = true → t.endOfStream = true

private theorem Headed.congr {t t' : Transmitter n} {b e : Int} (h : t.Headed b e)
    (hring : t'.outRing = t.outRing) (hbit : t'.controlBit = t.controlBit)
    (heos : t'.endOfStream = t.endOfStream) (hpend : t'.hasPendingEof = t.hasPendingEof)
    (hbuf : ∀ i, (t'.outBuffers i).header = (t.outBuffers i).header) : t'.Headed b e := by
  refine ⟨hring ▸ h.spans, fun p hl hu ↦ ?_, by rw [heos, hpend]; exact h.pending⟩
  have hiff : t'.IsEos (.ofPos p) ↔ t.IsEos (.ofPos p) := by
    rw [IsEos, IsEos, hring, heos, hpend]
  have hsame : t'.headerFor (.ofPos p) = t.headerFor (.ofPos p) := by
    simp only [headerFor, hbit, hiff]
  rw [hsame, ← h.header p hl hu]
  exact hbuf _

/-- Every packet of the window carries the low bits of its position. -/
def Numbered (t : Transmitter n) (b e : Int) : Prop :=
  ∀ p, b ≤ p → p < e → getPacketSeq (t.bufferAt p).header = (SeqNum.ofPos p).raw &&& 0x0FFF#16

section

variable {t t' : Transmitter n} {b e b' e' : Int}

/-- The numbers of the packets depend on their headers only. -/
theorem Numbered.congr (h : t.Numbered b e)
    (hbuf : ∀ i, (t'.outBuffers i).header = (t.outBuffers i).header) : t'.Numbered b e := by
  intro p hl hu
  rw [bufferAt, hbuf]
  exact h p hl hu

private theorem Numbered.push {x : OutBuffer} (h : t.Numbered b e) (hroom : e < b + 2 ^ n.val)
    (hbuf : t'.outBuffers = (t.withBuffer e x).outBuffers)
    (hx : getPacketSeq x.header = (SeqNum.ofPos e).raw &&& 0x0FFF#16) : t'.Numbered b (e + 1) := by
  intro p hl hu
  obtain ⟨rfl, heq⟩ | ⟨hlt, heq⟩ := bufferAt_pushed hbuf hroom hl hu
  · rw [heq, hx]
  · rw [heq]
    exact h p hl hlt

/-- Every effect keeps the packets numbered. -/
theorem Numbered.moves {eff : Effect} (h : t.Numbered b e)
    (hm : Moves (t, b, e) eff (t', b', e')) : t'.Numbered b' e' := by
  cases hm with
  | alloc ring _ _ _ _ hroom => exact h.push hroom rfl (getPacketSeq_format _ _ _)
  | closeNow ring _ hroom | lateEos ring _ hroom =>
    refine h.push hroom rfl ?_
    simp [OutBuffer.finish, OutBuffer.markFinal, OutBuffer.init]
  | write i bytes => exact h.congr (field_update OutBuffer.header (by simp))
  | flush | finish | skip | rush => exact h.congr (field_update OutBuffer.header rfl)
  | send => exact h.congr (field_update OutBuffer.header (finishBuffer_header _))
  | pop => exact fun p hl hu ↦ h p (by omega) hu
  | reset => exact fun p hl hu ↦ by omega
  | stray => exact fun p hl hu ↦ by omega
  | release | closeLater | himark | calm => exact h

end

private theorem Headed.push {t t' : Transmitter n} {b e : Int} {x : OutBuffer} (h : t.Headed b e)
    (hroom : e < b + 2 ^ n.val) (hs : t'.outRing.Spans b (e + 1))
    (hbit : t'.controlBit = t.controlBit) (hbuf : t'.outBuffers = (t.withBuffer e x).outBuffers)
    (hbefore : ∀ p, b ≤ p → p < e → ¬ t.IsEos (.ofPos p)) (hx : x.header = t'.headerFor (.ofPos e))
    (hpend : t'.hasPendingEof = true → t'.endOfStream = true) : t'.Headed b (e + 1) := by
  have hcap := capacity_le n
  refine ⟨hs, fun p hl hu ↦ ?_, hpend⟩
  obtain ⟨rfl, heq⟩ | ⟨hlt, heq⟩ := bufferAt_pushed hbuf hroom hl hu
  · rw [heq]
    exact hx
  · have hnot : ¬ t'.IsEos (.ofPos p) := by
      rintro ⟨-, -, hlast⟩
      rw [hs.end_eq, SeqNum.ofPos_next, SeqNum.ofPos_eq (by omega) (by omega)] at hlast
      omega
    rw [heq, h.header p hl hlt, headerFor, headerFor, hbit, if_neg hnot,
      if_neg (hbefore p hl hlt)]

private theorem not_isEos_of_open {t : Transmitter n} (h : t.endOfStream = false) (pos : SeqNum) :
    ¬ t.IsEos pos :=
  fun heos ↦ Bool.false_ne_true (h.symm.trans heos.1)

private theorem not_isEos_of_pending {t : Transmitter n} (h : t.hasPendingEof = true)
    (pos : SeqNum) : ¬ t.IsEos pos :=
  fun heos ↦ Bool.false_ne_true (heos.2.1.symm.trans h)

private theorem headerFor_data {t : Transmitter n} {pos : SeqNum} (h : ¬ t.IsEos pos) :
    t.headerFor pos = formatPacketHeader pos .data t.controlBit := by
  rw [headerFor, if_neg h]

private theorem header_eos (pos : SeqNum) (controlBit : Bool) :
    (OutBuffer.init pos controlBit).markFinal.finish.header =
      formatPacketHeader pos .fin controlBit :=
  setPacketHeaderTypeFin_format pos controlBit

private theorem headerFor_fin {t : Transmitter n} {pos : SeqNum} (h : t.IsEos pos) :
    t.headerFor pos = formatPacketHeader pos .fin t.controlBit := by
  rw [headerFor, if_pos h]

private theorem Headed.of_empty {t : Transmitter n} {b : Int} (hs : t.outRing.Spans b b)
    (hp : t.hasPendingEof = true → t.endOfStream = true) : t.Headed b b :=
  ⟨hs, fun p hl hu ↦ by omega, hp⟩

private theorem next_eq_end {ring : RingBuffer n} {b e : Int} (hr : ring.Spans b (e + 1)) :
    (SeqNum.ofPos e).next = ring.end_ := by
  rw [SeqNum.ofPos_next, hr.end_eq]

/-- Every elementary effect keeps the headers. -/
theorem Headed.moves {t t' : Transmitter n} {b e b' e' : Int} {eff : Effect} (h : t.Headed b e)
    (hm : Moves (t, b, e) eff (t', b', e')) : t'.Headed b' e' := by
  cases hm with
  | alloc ring ho _ _ _ hroom hr =>
    refine h.push hroom hr rfl rfl (fun p _ _ ↦ not_isEos_of_open ho.1 _) ?_ h.pending
    rw [headerFor_data]
    · rfl
    · exact not_isEos_of_open (by exact ho.1) _
  | closeNow ring ho hroom hr =>
    have hpend : t.hasPendingEof = false := by
      have := h.pending
      simpa [ho.1] using this
    refine h.push hroom hr rfl rfl (fun p _ _ ↦ not_isEos_of_open ho.1 _) ?_ fun _ ↦ rfl
    rw [headerFor_fin]
    · exact header_eos _ _
    · exact And.intro rfl ⟨hpend, next_eq_end hr⟩
  | lateEos ring hpend hroom hr =>
    refine h.push hroom hr rfl rfl (fun p _ _ ↦ not_isEos_of_pending hpend _) ?_
      fun _ ↦ h.pending hpend
    rw [headerFor_fin]
    · exact header_eos _ _
    · exact And.intro (h.pending hpend) ⟨rfl, next_eq_end hr⟩
  | closeLater ho hfull =>
    refine ⟨h.spans, fun p hl hu ↦ (h.header p hl hu).trans ?_, fun _ ↦ rfl⟩
    rw [headerFor_data (not_isEos_of_open ho.1 _), headerFor_data]
    exact not_isEos_of_pending (by rfl) _
  | pop ring _ hlt hr =>
    refine ⟨hr, fun p hl hu ↦ (h.header p (by omega) hu).trans ?_, h.pending⟩
    have hiff : t.IsEos (.ofPos p) ↔ IsEos { t with
        outRing := ring, packetsDelivered := t.packetsDelivered + 1 } (.ofPos p) := by
      simp only [IsEos, hr.end_eq, h.spans.end_eq]
    simp only [headerFor, hiff]
  | reset ring hr => exact .of_empty hr (by simp)
  | stray => exact .of_empty h.spans h.pending
  | write i bytes => exact h.congr rfl rfl rfl rfl (field_update OutBuffer.header (by simp))
  | release => exact h.congr rfl rfl rfl rfl fun _ ↦ rfl
  | flush i => exact h.congr rfl rfl rfl rfl (field_update OutBuffer.header rfl)
  | finish => exact h.congr rfl rfl rfl rfl (field_update OutBuffer.header rfl)
  | send now draw fast =>
    exact h.congr rfl rfl rfl rfl (field_update OutBuffer.header (finishBuffer_header _))
  | skip => exact h.congr rfl rfl rfl rfl (field_update OutBuffer.header rfl)
  | rush next => exact h.congr rfl rfl rfl rfl (field_update OutBuffer.header rfl)
  | himark => exact h.congr rfl rfl rfl rfl fun _ ↦ rfl
  | calm => exact h.congr rfl rfl rfl rfl fun _ ↦ rfl

/-- Every sequence of effects keeps the headers of the window. -/
theorem Headed.path {t t' : Transmitter n} {b e b' e' : Int} {effs : List Effect}
    (h : t.Headed b e) (hp : Path Moves (t, b, e) effs (t', b', e')) : t'.Headed b' e' :=
  hp.invariant (fun x ↦ x.1.Headed x.2.1 x.2.2) (fun _ _ _ _ h hm ↦ h.moves hm) h

/-! ### Runs -/

/-- A packet handed out lies in the window and carries the header of its position, with the
control bit of the connection. -/
def HandsOutHeaded (t : Transmitter n) (now : Uptime) (draw nextSendMicros : Nat) : Prop :=
  ∀ pos, (t.getBufferToSend now draw nextSendMicros).2.1 = some pos →
    t.outRing.contains pos = true ∧
      ((t.getBufferToSend now draw nextSendMicros).1.getOutBuffer pos).header =
        formatPacketHeader pos (if t.IsEos pos then .fin else .data) t.controlBit

/-- The control bit is set with nothing queued or stays as it is, and no packet is asked for
while `out_ring_` is empty and yet contains `next_to_send_`. -/
def HeaderGuard (t : Transmitter n) : Act → Prop
  | .setConnected _ controlBit => t.outRing.empty = true ∨ t.controlBit = controlBit
  | .getBufferToSend _ _ _ => ¬ (t.outRing.empty = true ∧ t.outRing.contains t.nextToSend = true)
  | _ => True

instance (t : Transmitter n) (a : Act) : Decidable (HeaderGuard t a) :=
  match a with
  | .setConnected _ _ => inferInstanceAs (Decidable (_ ∨ _))
  | .getBufferToSend _ _ _ => inferInstanceAs (Decidable (¬ (_ ∧ _)))
  | .init _ _ | .tryWrite _ | .flush | .close | .ack _ _ _ | .updateRecvHimark _ _ | .setBroken
  | .reset => .isTrue trivial

private theorem headed_new (n : LinkBufferSize) : (new n).Headed 0 0 :=
  .of_empty (spans_new n 0) (by simp [new])

private theorem headed_step {t t' : Transmitter n} {b e : Int} {a : Act} (h : t.Headed b e)
    (hg : HeaderGuard t a) (hstep : t.step a = .ok t') : ∃ b' e', t'.Headed b' e' := by
  cases step_spec h.spans hstep with
  | init id start =>
    obtain ⟨p, rfl⟩ : ∃ p, start = .ofPos p := ⟨_, (SeqNum.ofPos_raw start).symm⟩
    exact ⟨p, p, .of_empty (spans_new n p) (by simp)⟩
  | connected size controlBit =>
    rcases hg with hempty | hbit
    · obtain rfl := h.spans.empty_iff.mp hempty
      exact ⟨b, b, .of_empty h.spans h.pending⟩
    · exact ⟨b, e, h.congr rfl hbit.symm rfl rfl fun _ ↦ rfl⟩
  | broken => exact ⟨e, e, .of_empty (spans_new n e) h.pending⟩
  | moved effs hpath => exact ⟨_, _, h.path hpath⟩

private theorem SameStream.headerFor {t t' : Transmitter n} (h : SameStream t t')
    (pos : SeqNum) : t'.headerFor pos = t.headerFor pos := by
  have hiff : t'.IsEos pos ↔ t.IsEos pos := by
    rw [IsEos, IsEos, h.endOfStream, h.hasPendingEof, h.outRing]
  simp only [Transmitter.headerFor, h.controlBit, hiff]

/-- In every run whose steps set the control bit only with nothing queued or to its old value,
every packet handed out carries the header of its position. -/
theorem handsOutHeaded_of_reachable {t : Transmitter n}
    (hr : Reachable step HeaderGuard (new n) t) (now : Uptime) (draw nextSendMicros : Nat)
    (hg : HeaderGuard t (.getBufferToSend now draw nextSendMicros)) :
    t.HandsOutHeaded now draw nextSendMicros := by
  obtain ⟨b, e, h⟩ := hr.invariant (fun t ↦ ∃ b e, t.Headed b e) ⟨0, 0, headed_new n⟩
    fun t a t' ⟨b, e, h⟩ hg hstep ↦ headed_step h hg hstep
  intro pos hpos
  have hsend := getBufferToSend_path h.spans now draw nextSendMicros
  rw [hpos] at hsend
  have hsame := hsend.sameStream
  cases hsend with
  | sent effs fast hpath hk hm hl hu =>
    have h' := (h.path hpath).moves hm
    have hcap := capacity_le n
    have hus := h.spans.used
    refine ⟨h.spans.contains_of_mem hl hu, ?_⟩
    rw [getOutBuffer_ofPos, h'.header _ hl hu]
    exact hsame.headerFor _
  | stray hbe hc => exact absurd ⟨h.spans.empty_iff.mpr hbe, hc⟩ hg

/-- A stream connected before anything is queued hands out its packets under their headers. -/
theorem handsOutHeaded_after_write : ∃ t : Transmitter 2,
    Reachable step HeaderGuard (new 2) t ∧ HeaderGuard t (.getBufferToSend 0 0 0) ∧
      (t.getBufferToSend 0 0 0).2.1 = some ⟨5⟩ ∧ t.HandsOutHeaded 0 0 0 := by
  obtain ⟨t, ht, hp⟩ := Reachable.of_test step HeaderGuard (new 2)
    [.init 1 ⟨5⟩, .setConnected 4 true, .tryWrite [7], .close]
    (fun t ↦ HeaderGuard t (.getBufferToSend 0 0 0) ∧ (t.getBufferToSend 0 0 0).2.1 = some ⟨5⟩)
    (by decide) (by decide)
  obtain ⟨hg, hpos⟩ := of_decide_eq_true hp
  exact ⟨t, ht, hg, hpos, handsOutHeaded_of_reachable ht 0 0 0 hg⟩

/-- A stream closed while still connecting sends its final packet with the control bit left
from before, not with that of the connection. -/
theorem early_close_keeps_old_bit : ∃ t : Transmitter 2,
    Reachable step anyStep (new 2) t ∧ t.state = .connected ∧ t.controlBit = true ∧
      ¬ t.HandsOutHeaded 0 0 0 := by
  obtain ⟨t, ht, hp⟩ := Reachable.of_test step anyStep (new 2)
    [.init 1 ⟨0⟩, .close, .setConnected 4 true]
    (fun t ↦ t.state = .connected ∧ t.controlBit = true ∧
      (t.getBufferToSend 0 0 0).2.1 = some ⟨0⟩ ∧
      getPacketControlBit ((t.getBufferToSend 0 0 0).1.getOutBuffer ⟨0⟩).header = false)
    (meets_anyStep _ _ _) (by decide)
  obtain ⟨hst, hbit, hpos, hold⟩ := of_decide_eq_true hp
  refine ⟨t, ht, hst, hbit, fun h ↦ ?_⟩
  have hhead := (h ⟨0⟩ hpos).2
  rw [hhead, getPacketControlBit_format, hbit] at hold
  cases hold

end Transmitter

end RooTransport.Link
