import RooTransport.Link.FirstTransmissions
import RooTransport.Link.ReceiverStream
import RooTransport.Link.SendSchedule

/-!
# The two ends of one stream

What each end of a stream keeps while it is connected to the other: the transmitter its
packets, its pace and its credit (`transmitter.cpp:23–316`), the receiver its window and
whether it has seen the end (`receiver.cpp:54–300`). Every operation is described once, with
the positions of the windows before and after it, for the lane that joins the ends.
-/

namespace RooTransport.Link

open RooTransport.Base RingBuffer

private theorem OutBuffer.expiration_markSent_le (x : OutBuffer) (now : Uptime) (draw : Nat) :
    (x.markSent now draw).expiration ≤ now + 2 ^ 32 := by
  dsimp only [markSent, retryBackoffMicros]
  exact Nat.add_le_add_left (Nat.mod_lt _ (by norm_num)).le now

/-- Writing to a buffer does not acknowledge it. -/
@[simp] theorem OutBuffer.acked_extended (x : OutBuffer) (bytes : List UInt8) :
    (x.extended bytes).acked = x.acked := by
  unfold extended
  split
  · rfl
  · rfl

private theorem Effect.AckedBy.not_ends {q first : Int} {bits : List Bool} {eff : Effect}
    (h : eff.AckedBy q first bits) : ¬ eff.Ends := by
  cases eff with
  | closeNow | closeLater => exact h.elim
  | _ => exact id

namespace Transmitter

variable {n : LinkBufferSize}

/-! ### Marks -/

/-- The packets of the window that are marked as received meet `P`. -/
def MarkedOnly (t : Transmitter n) (b e : Int) (P : Int → Prop) : Prop :=
  ∀ p, b ≤ p → p < e → (t.bufferAt p).acked = true → P p

section

variable {t t' : Transmitter n} {b e b' e' : Int} {P Q : Int → Prop}

/-- What is marked meets every weaker property. -/
theorem MarkedOnly.mono (h : t.MarkedOnly b e P) (hPQ : ∀ p, P p → Q p) : t.MarkedOnly b e Q :=
  fun p hl hu hp ↦ hPQ p (h p hl hu hp)

private theorem MarkedOnly.congr (h : t.MarkedOnly b e P)
    (hacked : ∀ i, (t'.outBuffers i).acked = (t.outBuffers i).acked) : t'.MarkedOnly b e P := by
  intro p hl hu hp
  rw [bufferAt, hacked] at hp
  exact h p hl hu hp

private theorem MarkedOnly.push {x : OutBuffer} (h : t.MarkedOnly b e P) (hroom : e < b + 2 ^ n.val)
    (hbuf : t'.outBuffers = (t.withBuffer e x).outBuffers) (hx : x.acked = false) :
    t'.MarkedOnly b (e + 1) P := by
  intro p hl hu hp
  obtain ⟨-, heq⟩ | ⟨hlt, heq⟩ := bufferAt_pushed hbuf hroom hl hu
  · rw [heq, hx] at hp
    cases hp
  · rw [heq] at hp
    exact h p hl hlt hp

/-- Only an acknowledgement marks packets. -/
theorem MarkedOnly.moves {eff : Effect} (h : t.MarkedOnly b e P) (hs : t.outRing.Spans b e)
    (hm : Moves (t, b, e) eff (t', b', e')) (hskip : ∀ p, b ≤ p → p < e → eff = .skip p → P p) :
    t'.MarkedOnly b' e' P := by
  cases hm with
  | alloc ring _ _ _ _ hroom => exact h.push hroom rfl rfl
  | closeNow ring _ hroom => exact h.push hroom rfl rfl
  | lateEos ring _ hroom => exact h.push hroom rfl rfl
  | write => exact h.congr (field_update OutBuffer.acked (OutBuffer.acked_extended _ _))
  | flush | finish | rush => exact h.congr (field_update OutBuffer.acked (by rfl))
  | send => exact h.congr (field_update OutBuffer.acked (finishBuffer_acked _))
  | release | himark | calm | closeLater => exact h
  | pop => exact fun p hl ↦ h p (by omega)
  | reset | stray => exact fun p hl hu ↦ by omega
  | @skip _ _ _ q hl hu =>
    intro p hp hpe hacked
    by_cases heq : p = q
    · rw [heq]
      exact hskip q hl hu rfl
    · have hus := hs.used
      rw [bufferAt_withBuffer_ne t _ heq (by omega) (by omega)] at hacked
      exact h p hp hpe hacked

/-- Effects that mark nothing leave marked what was marked. -/
theorem MarkedOnly.path {effs : List Effect} (h : t.MarkedOnly b e P) (hs : t.outRing.Spans b e)
    (hp : Path Moves (t, b, e) effs (t', b', e')) (hskip : ∀ p, .skip p ∉ effs) :
    t'.MarkedOnly b' e' P :=
  (hp.invariant (fun x ↦ x.1.outRing.Spans x.2.1 x.2.2 ∧ x.1.MarkedOnly x.2.1 x.2.2 P)
    (fun _ _ _ heff hx hm ↦ ⟨hm.spans hx.1, hx.2.moves hx.1 hm fun p _ _ heq ↦
      absurd (heq ▸ heff) (hskip p)⟩) ⟨hs, h⟩).2

end

/-! ### The sending end -/

/-- Credit is a matter of the phase of the stream. -/
theorem Credit.samePhase {t t' : Transmitter n} {e k : Int} (h : t.Credit e k)
    (hsame : SamePhase t t') : t'.Credit e k := by
  have hopen : t'.Open ↔ t.Open := by rw [Open, Open, hsame.endOfStream, hsame.state]
  constructor
  · rw [hsame.recvHimark]
    exact h.himark_eq
  · rw [hsame.peerReceiveBufferSize]
    exact h.size_le
  · rw [hsame.hasPendingEof, hsame.endOfStream]
    exact h.pending
  · exact h.end_le
  · rw [hopen, hsame.hasPendingEof]
    exact h.open_le
  · exact h.le_end

/-- Every packet of the window is due to be sent again at `d` or before. -/
def DueBy (t : Transmitter n) (b e : Int) (d : Uptime) : Prop :=
  ∀ p, b ≤ p → p < e → (t.bufferAt p).expiration ≤ d

/-- A stream in its window from `b` to `e`, sent up to `f`, with credit up to `k` and no timer
past `d`. It goes idle when all of it was acknowledged, and not before. -/
structure Streaming (t : Transmitter n) (s b e f k : Int) (d : Uptime) (log : Int → List UInt8)
    (fin : Option Int) : Prop where
  sender : t.Sender s b e f log fin
  scheduled : t.Scheduled b e f
  credit : t.Credit e k
  checked : t.Checked b e
  shaped : t.AllShaped b e
  dueBy : t.DueBy b e d
  alive : t.state = .connected → t.endOfStream = true → b < e
  drained : t.state = .idle → b = e ∧ fin = some (e - 1)

section

variable {t t' : Transmitter n} {s b e b' e' f f' k : Int} {d : Uptime}
  {log log' : Int → List UInt8} {fin fin' : Option Int}

private theorem DueBy.congr (h : t.DueBy b e d)
    (hless : ∀ i, (t'.outBuffers i).expiration ≤ (t.outBuffers i).expiration) : t'.DueBy b e d :=
  fun p hl hu ↦ (hless _).trans (h p hl hu)

/-- The timer of one slot is stopped, or left as it is. -/
theorem DueBy.update {i : Fin (2 ^ n.val)} {x : OutBuffer} (h : t.DueBy b e d)
    (hbuf : t'.outBuffers = Function.update t.outBuffers i x)
    (hx : x.expiration = 0 ∨ x.expiration = (t.outBuffers i).expiration) : t'.DueBy b e d := by
  apply h.congr
  intro j
  rw [hbuf]
  by_cases hj : j = i
  · rw [hj, Function.update_self]
    rcases hx with hx | hx
    · rw [hx]
      exact Nat.zero_le _
    · exact hx.le
  · rw [Function.update_of_ne hj]

private theorem DueBy.push {x : OutBuffer} (h : t.DueBy b e d) (hroom : e < b + 2 ^ n.val)
    (hbuf : t'.outBuffers = (t.withBuffer e x).outBuffers) (hx : x.expiration = 0) :
    t'.DueBy b (e + 1) d := by
  intro p hl hu
  obtain ⟨-, heq⟩ | ⟨hlt, heq⟩ := bufferAt_pushed hbuf hroom hl hu
  · rw [heq, hx]
    exact Nat.zero_le d
  · rw [heq]
    exact h p hl hlt

/-- Only sending a packet starts a timer. -/
theorem DueBy.moves {eff : Effect} (h : t.DueBy b e d) (hm : Moves (t, b, e) eff (t', b', e'))
    (hsend : ∀ p fast, eff ≠ .send p fast) : t'.DueBy b' e' d := by
  cases hm with
  | alloc ring _ _ _ _ hroom => exact h.push hroom rfl rfl
  | closeNow ring _ hroom => exact h.push hroom rfl rfl
  | lateEos ring _ hroom => exact h.push hroom rfl rfl
  | write i bytes =>
    apply h.update rfl
    unfold OutBuffer.extended
    split
    · exact .inl rfl
    · exact .inr rfl
  | flush | skip => exact h.update rfl (.inr rfl)
  | finish | rush => exact h.update rfl (.inl rfl)
  | release | himark | calm | closeLater => exact h
  | pop => exact fun p hl ↦ h p (by omega)
  | reset | stray => exact fun p hl hu ↦ by omega
  | send _ _ fast => exact absurd rfl (hsend _ fast)

private theorem DueBy.path {effs : List Effect} (h : t.DueBy b e d)
    (hp : Path Moves (t, b, e) effs (t', b', e')) (hsend : ∀ p fast, .send p fast ∉ effs) :
    t'.DueBy b' e' d :=
  hp.invariant (fun x ↦ x.1.DueBy x.2.1 x.2.2 d) (fun _ _ _ heff hx hm ↦
    hx.moves hm fun p fast heq ↦ absurd (heq ▸ heff) (hsend p fast)) h

private theorem AllShaped.path {effs : List Effect} (h : t.AllShaped b e)
    (hp : Path Moves (t, b, e) effs (t', b', e')) (hne : ∀ p, .alloc p ∉ effs) :
    t'.AllShaped b' e' :=
  hp.invariant (fun x ↦ x.1.AllShaped x.2.1 x.2.2) (fun _ _ _ heff hx hm ↦
    hx.moves hm fun p heq ↦ absurd (heq ▸ heff) (hne p)) h

/-- The pace of a stream is that of its first transmissions. -/
theorem Source.sender (h : t.Source s b e log fin) (hs : t.Scheduled b e f)
    (hw : t.endOfStream = false → t.Writable b e) : t.Sender s b e f log fin := by
  have hfe := hs.ordered.le_end
  obtain ⟨p, hp, hle, hge⟩ := hs.follows
  refine ⟨h, hs.ordered.begin_le, hfe, fun q hq ↦ ?_, ⟨p, hp, by omega, hge⟩, hw⟩
  by_cases hb : q < b
  · exact .inl hb
  · exact .inr (.inr (hs.ordered.sent q (by omega) hq).finished)

/-- A stream to which nothing happens goes on. -/
theorem Continues.refl (e f : Int) (log : Int → List UInt8) (fin : Option Int) :
    Continues e f log fin e f log fin :=
  ⟨le_refl e, le_refl f, fun _ _ ↦ rfl, .inl rfl⟩

/-- The window of a stream. -/
theorem Streaming.spans (h : t.Streaming s b e f k d log fin) : t.outRing.Spans b e :=
  h.scheduled.ordered.spans

private theorem Streaming.not_broken (h : t.Streaming s b e f k d log fin) : t.state ≠ .broken := by
  rcases h.sender.source.phase with hst | hst
  · simp [hst]
  · simp [hst]

/-- A write appends what it takes to the stream. -/
theorem Streaming.tryWrite {buf : List UInt8} {written : Nat} {ready : Bool}
    (h : t.Streaming s b e f k d log fin) (hok : t.tryWrite buf = .ok (t', written, ready)) :
    ∃ e' log', t'.Streaming s b e' f k d log' fin ∧ Continues e f log fin e' f log' fin ∧
      span log' s e' = span log s e ++ buf.take written ∧
      ∀ P, t.MarkedOnly b e P → t'.MarkedOnly b e' P := by
  obtain ⟨e', sent', log', hsender, hc, hspan⟩ := h.sender.tryWrite hok
  obtain ⟨-, effs, e1, hpath, -, hk⟩ := tryWrite_path h.spans hok
  have hsame := tryWrite_samePhase hok
  obtain rfl : e1 = e' := by
    have h1 := (path_spans hpath h.spans).slotsUsed_eq
    have h2 := hsender.source.queue.spans.slotsUsed_eq
    omega
  have hsched : t'.Scheduled b e1 f := h.scheduled.quiet hpath fun eff heff ↦
    ⟨(hk eff heff).quiet, (hk eff heff).not_ends⟩
  have hcredit := h.credit.path h.spans hpath
  rw [foldl_himarkAfter fun x hx ↦ hk _ hx] at hcredit
  have hclosed (ho : ¬ t.Open) : e1 = e := by
    rw [tryWrite_of_not_open ho] at hok
    cases hok
    have h1 := h.spans.slotsUsed_eq
    have h2 := hsender.source.queue.spans.slotsUsed_eq
    omega
  obtain ⟨e2, hs2, hshaped⟩ := h.shaped.tryWrite h.spans hok
  obtain rfl : e2 = e1 := by
    have h1 := (path_spans hpath h.spans).slotsUsed_eq
    have h2 := hs2.slotsUsed_eq
    omega
  refine ⟨e2, log', ⟨hsender.source.sender hsched hsender.pace.writable, hsched, hcredit,
    h.checked.path hpath, hshaped, h.dueBy.path hpath fun p fast hp ↦ hk _ hp, ?_, ?_⟩,
    { hc with sent_le := le_refl f }, hspan,
    fun P hP ↦ hP.path h.spans hpath fun p hp ↦ hk _ hp⟩
  · intro hst heos
    rw [hsame.state] at hst
    rw [hsame.endOfStream] at heos
    have := h.alive hst heos
    have := hc.end_le
    omega
  · intro hst
    rw [hsame.state] at hst
    rw [hclosed fun ho ↦ ho.2.1 hst]
    exact h.drained hst

/-- A flush changes nothing about the stream. -/
theorem Streaming.flush (h : t.Streaming s b e f k d log fin) :
    t.flush.1.Streaming s b e f k d log fin ∧
      ∀ P, t.MarkedOnly b e P → t.flush.1.MarkedOnly b e P := by
  obtain ⟨effs, hpath, hk⟩ := flush_path t b e
  have hsame := flush_sameStream t
  have hsrc : t.flush.1.Source s b e log fin := h.sender.source.path_same hpath fun eff heff ↦ by
    rw [hk eff heff]
    exact ⟨rfl, rfl⟩
  have hsched : t.flush.1.Scheduled b e f := h.scheduled.quiet hpath fun eff heff ↦ by
    rw [hk eff heff]
    exact ⟨trivial, id⟩
  obtain ⟨sent', fin', hsender, -⟩ := h.sender.flush
  refine ⟨⟨hsrc.sender hsched hsender.pace.writable, hsched, h.credit.samePhase hsame.toSamePhase,
    h.checked.path hpath, h.shaped.path hpath fun p hp ↦ by simpa using hk _ hp,
    h.dueBy.path hpath fun p fast hp ↦ by simpa using hk _ hp, ?_, ?_⟩,
    fun P hP ↦ hP.path h.spans hpath fun p hp ↦ by simpa using hk _ hp⟩
  · rw [hsame.state, hsame.endOfStream]
    exact h.alive
  · rw [hsame.state]
    exact h.drained

/-- Closing leaves what can be sent in order. -/
theorem Scheduled.close (h : t.Scheduled b e f) (ho : t.Open) (hok : t.close = .ok t')
    (hs' : t'.outRing.Spans b e') : t'.Scheduled b e' f := by
  obtain ⟨effs, hpath, hk⟩ := flush_path t b e
  have hflush : t.flush.1.Scheduled b e f := h.quiet hpath fun eff heff ↦ by
    rw [hk eff heff]
    exact ⟨trivial, id⟩
  obtain ⟨t1, eff, e1, hc, hm, hclose, -⟩ := close_move h.ordered.spans ho
  obtain rfl : t1 = t' := Except.ok.inj (hc.symm.trans hok)
  obtain rfl : e1 = e' := by
    have h1 := (hm.spans hflush.ordered.spans).slotsUsed_eq
    have h2 := hs'.slotsUsed_eq
    omega
  -- what was the current packet is flushed by now
  have hall := hflush.timed.flagged.allFlushed (flush_current t)
  exact hflush.quiet_moves hm hclose.quiet fun _ ↦ hall

/-- A close ends the stream, at once or as soon as there is room. -/
theorem Streaming.close (h : t.Streaming s b e f k d log fin) :
    ∃ t' e' fin', t.close = .ok t' ∧ t'.Streaming s b e' f k d log fin' ∧
      Continues e f log fin e' f log fin' ∧ t'.controlBit = t.controlBit ∧
      t'.peerReceiveBufferSize = t.peerReceiveBufferSize ∧
      (t'.endOfStream = true ∨ fin' ≠ none) ∧ ∀ P, t.MarkedOnly b e P → t'.MarkedOnly b e' P := by
  by_cases ho : t.Open
  · obtain ⟨t', e', sent', fin', hok, hsender, hc, hbit⟩ := h.sender.close
    obtain ⟨t1, effs, e1, hok1, hpath, hopen, -, hk⟩ := close_path h.spans
    obtain rfl : t1 = t' := Except.ok.inj (hok1.symm.trans hok)
    obtain rfl : e1 = e' := by
      have h1 := (path_spans hpath h.spans).slotsUsed_eq
      have h2 := hsender.source.queue.spans.slotsUsed_eq
      omega
    obtain ⟨heos, hlt, hst, -⟩ := hopen ho
    have hsched := h.scheduled.close ho hok hsender.source.queue.spans
    have hcredit := h.credit.path h.spans hpath
    rw [foldl_himarkAfter fun x hx ↦ hk _ hx] at hcredit
    refine ⟨t1, e1, fin', hok, ⟨hsender.source.sender hsched hsender.pace.writable, hsched, hcredit,
      h.checked.path hpath, h.shaped.path hpath fun p hp ↦ hk _ hp,
      h.dueBy.path hpath fun p fast hp ↦ hk _ hp, fun _ _ ↦ hlt, fun hidle ↦ ?_⟩,
      { hc with sent_le := le_refl f }, hbit,
      path_peerReceiveBufferSize hpath, .inl heos,
      fun P hP ↦ hP.path h.spans hpath fun p hp ↦ hk _ hp⟩
    exact absurd (hst.symm.trans hidle) ho.2.1
  · obtain ⟨t', effs, e', hok, -, -, hsame, -⟩ := close_path h.spans
    obtain ⟨rfl, rfl⟩ := hsame ho h.not_broken
    refine ⟨t', e', fin, hok, h, .refl e' f log fin, rfl, rfl, ?_, fun P hP ↦ hP⟩
    rcases h.sender.source.phase with hst | hst
    · left
      by_contra hopen
      exact ho ⟨by simpa using hopen, by simp [hst], h.not_broken⟩
    · right
      rw [(h.drained hst).2]
      simp

/-- A packet handed out is the packet of its position. -/
theorem Streaming.getBufferToSend (h : t.Streaming s b e f k d log fin) {now : Uptime}
    (hnow : now + 2 ^ 32 ≤ d) (draw next : Nat) :
    ∃ f', (t.getBufferToSend now draw next).1.Streaming s b e f' k d log fin ∧ f ≤ f' ∧
      SameStream t (t.getBufferToSend now draw next).1 ∧
      (∀ pos, (t.getBufferToSend now draw next).2.1 = some pos → ∃ p, pos = .ofPos p ∧ b ≤ p ∧
        p < f' ∧ ((t.getBufferToSend now draw next).1.getOutBuffer pos).data =
          packetAt log fin t.controlBit p) ∧
      ∀ P, t.MarkedOnly b e P → (t.getBufferToSend now draw next).1.MarkedOnly b e P := by
  have hsending := getBufferToSend_path h.spans now draw next
  have hsame := hsending.sameStream
  have htimed := h.scheduled.timed.sending h.spans hsending
  obtain ⟨sent', -, hsrc, hpace, hout⟩ :=
    h.sender.source.getBufferToSend h.sender.pace now draw next
  have hcredit := h.credit.samePhase hsame.toSamePhase
  obtain ⟨effs, hpath, -⟩ := hsending.path
  have hchecked := h.checked.path hpath
  by_cases hst : t.state = .connected
  swap
  · have hnone : t.getBufferToSend now draw next = (t, none, next) := by
      rw [Transmitter.getBufferToSend, if_pos hst]
    rw [hnone]
    exact ⟨f, h, le_refl f, .refl t, by simp, fun P hP ↦ hP⟩
  rcases h.scheduled.ordered.getBufferToSend h.scheduled.follows hst now draw next with
    ⟨p, hl, hu, hle, heq⟩ | ⟨next', stop, found, heq, -⟩
  · rw [heq] at htimed hsrc hpace hout hcredit hchecked hsame ⊢
    obtain ⟨ho, hf⟩ := h.scheduled.ordered.handOut hl hu hle now draw
    have hsched : Scheduled _ b e (max f (p + 1)) := ⟨ho, hf, htimed⟩
    refine ⟨max f (p + 1), ⟨hsrc.sender hsched hpace.writable, hsched, hcredit, hchecked,
      ?_, ?_, ?_, ?_⟩, le_max_left f _, hsame, fun pos hpos ↦ ?_, fun P hP ↦ hP.congr ?_⟩
    · rw [handOut_ofPos]
      exact h.shaped.update rfl fun hx ↦ hx.congr (finishBuffer_header _) (finishBuffer_payload _)
        fun _ ↦ finishBuffer_finished _
    · intro q hq hqe
      have hus := h.spans.used
      rw [handOut_ofPos]
      by_cases hqp : q = p
      · rw [hqp]
        exact (congrArg OutBuffer.expiration (bufferAt_withBuffer t p _)).le.trans
          ((OutBuffer.expiration_markSent_le _ now draw).trans hnow)
      · exact (congrArg OutBuffer.expiration
          (bufferAt_withBuffer_ne t _ hqp (by omega) (by omega))).le.trans (h.dueBy q hq hqe)
    · rw [hsame.state, hsame.endOfStream]
      exact h.alive
    · rw [hsame.state]
      exact h.drained
    · obtain ⟨q, rfl, hq, hqs, hdata⟩ := hout pos hpos
      have hcap := capacity_le n
      have hus := h.spans.used
      have hse := hpace.le_end
      obtain rfl : p = q := (SeqNum.ofPos_eq (by omega) (by omega)).mp (Option.some.inj hpos)
      exact ⟨p, rfl, hl, by omega, hdata⟩
    · rw [handOut_ofPos]
      exact field_update OutBuffer.acked (finishBuffer_acked _)
  · rw [heq]
    exact ⟨f, h, le_refl f, .refl t, by simp, fun P hP ↦ hP⟩

/-- A mark is taken for what it says, or not at all. -/
theorem Streaming.updateRecvHimark (h : t.Streaming s b e f k d log fin) (controlBit : Bool)
    (recvHimark : BitVec 16) :
    (t.updateRecvHimark controlBit recvHimark).1 = t ∨
      ∃ p, t.outRing.restorePosHighBits recvHimark 12 = .ofPos p ∧
        Moves (t, b, e) (.himark p) ((t.updateRecvHimark controlBit recvHimark).1, b, e) ∧
        (t.updateRecvHimark controlBit recvHimark).1.Streaming s b e f p d log fin := by
  rcases updateRecvHimark_path h.spans controlBit recvHimark with heq | ⟨p, hp, -, hm⟩
  · exact .inl heq
  · refine .inr ⟨p, hp, hm, ?_⟩
    have hsrc := h.sender.source.moves hm rfl
    have hsched := h.scheduled.quiet_moves hm trivial False.elim
    obtain ⟨sent', fin', hsender, -⟩ := h.sender.updateRecvHimark controlBit recvHimark
    have hcredit := h.credit.moves h.spans hm
    revert hsender hsrc hsched hcredit hm
    generalize (t.updateRecvHimark controlBit recvHimark).1 = t'
    intro hm hsrc hsched hsender hcredit
    refine ⟨hsrc.sender hsched hsender.pace.writable, hsched, hcredit, h.checked.moves hm,
      h.shaped.moves hm (by simp), h.dueBy.moves hm (by simp), ?_, ?_⟩
    · cases hm
      exact h.alive
    · cases hm
      exact h.drained

/-- A mark that is neither behind the credit nor past what the peer can hold is taken. -/
theorem updateRecvHimark_applied {p : Int} {controlBit : Bool} {recvHimark : BitVec 16}
    (hst : t.state = .connected) (hbit : controlBit ≠ t.controlBit)
    (hp : t.outRing.restorePosHighBits recvHimark 12 = .ofPos p)
    (hge : ¬ SeqNum.ofPos p < t.recvHimark)
    (hle : ¬ (SeqNum.ofPos p).Gt (t.outRing.end_.add t.peerReceiveBufferSize)) :
    (t.updateRecvHimark controlBit recvHimark).1 = { t with recvHimark := .ofPos p } := by
  rw [Transmitter.updateRecvHimark, if_neg (not_not.mpr hst), if_neg hbit.symm]
  dsimp only
  rw [hp, if_neg (not_or.mpr ⟨hge, hle⟩)]

/-- Where the stream ends once the final packet that waits is queued. -/
def finalEnd (t : Transmitter n) (e : Int) : Int := if t.hasPendingEof then e + 1 else e

/-- A stream does not end before what is queued. -/
theorem le_finalEnd (t : Transmitter n) (e : Int) : e ≤ t.finalEnd e := by
  unfold finalEnd
  split
  · omega
  · exact le_refl e

/-- At most the final packet is still to be queued. -/
theorem finalEnd_le (t : Transmitter n) (e : Int) : t.finalEnd e ≤ e + 1 := by
  unfold finalEnd
  split
  · exact le_refl _
  · omega

/-- Part way through an acknowledgement of everything below `q`, and of what `bits` name. -/
structure Acked (t : Transmitter n) (b e f q : Int) (bits : List Bool) (x : Placed n) :
    Prop where
  ordered : x.1.Ordered x.2.1 x.2.2 f
  timed : x.1.Timed x.2.1 x.2.2
  begin_le : b ≤ x.2.1
  le_front : x.2.1 ≤ max b q
  finalEnd_le : x.1.finalEnd x.2.2 ≤ t.finalEnd e
  marked : ∀ P, t.MarkedOnly b e P → (∀ j : Nat, bits[j]? = some true → P (max b q + 1 + j)) →
    x.1.MarkedOnly x.2.1 x.2.2 P

private theorem Acked.moves {q : Int} {bits : List Bool} {x y : Placed n} {eff : Effect}
    (h : Acked t b e f q bits x) (hm : Moves x eff y) (hk : eff.AckedBy q (max b q) bits)
    (hq : max b q ≤ f) (hbits : ∀ j : Nat, bits[j]? = some true → max b q + 1 + j < f) :
    Acked t b e f q bits y := by
  obtain ⟨t1, b1, e1⟩ := x
  obtain ⟨t2, b2, e2⟩ := y
  have hcap := capacity_le n
  have hus := h.ordered.spans.used
  have hle := h.le_front
  have hbe := h.begin_le
  have hfe := h.ordered.le_end
  have hbf := h.ordered.begin_le
  have hend := h.finalEnd_le
  dsimp only at hus hle hbe hfe hbf hend
  -- the position a bit stands for is near the window, so that the wrapped one is exact
  have hmark (p : Int) (hl : b1 ≤ p) (hu : p < e1) (heq : eff = .skip p) :
      ∃ j : Nat, bits[j]? = some true ∧ p = max b q + 1 + j := by
    rw [heq] at hk
    obtain ⟨j, hj, hpos⟩ := hk
    have hlt := hbits j hj
    exact ⟨j, hj, (SeqNum.ofPos_eq (by omega) (by omega)).mp hpos⟩
  have hin : eff.InOrder f ∧ eff.firstUnsent f = f := by
    cases hm with
    | pop =>
      have hp : b1 < q := hk
      exact ⟨show b1 < f by omega, rfl⟩
    | @skip _ _ _ p hl hu =>
      obtain ⟨j, hj, rfl⟩ := hmark p hl hu rfl
      exact ⟨hbits j hj, rfl⟩
    | reset => exact ⟨hk, rfl⟩
    | lateEos | rush => exact ⟨trivial, rfl⟩
    | _ => exact hk.elim
  have hordered := h.ordered.moves hm hin.1
  rw [hin.2] at hordered
  have htimed := h.timed.moves h.ordered.spans hm fun hends ↦ absurd hends hk.not_ends
  have hmarked (P : Int → Prop) (hP : t.MarkedOnly b e P)
      (hj : ∀ j : Nat, bits[j]? = some true → P (max b q + 1 + j)) : t2.MarkedOnly b2 e2 P := by
    refine (h.marked P hP hj).moves h.ordered.spans hm fun p hl hu heq ↦ ?_
    obtain ⟨j, hbit, rfl⟩ := hmark p hl hu heq
    exact hj j hbit
  cases hm with
  | pop =>
    have hp : b1 < q := hk
    exact ⟨hordered, htimed, by simp only; omega, by simp only; omega, hend, hmarked⟩
  | skip | rush => exact ⟨hordered, htimed, hbe, hle, hend, hmarked⟩
  | lateEos ring hpend =>
    refine ⟨hordered, htimed, hbe, hle, ?_, hmarked⟩
    rw [finalEnd, if_pos hpend] at hend
    exact hend
  | reset =>
    obtain rfl : b1 = e1 := hk
    refine ⟨hordered, htimed, hbe, hle, ?_, hmarked⟩
    exact (t1.le_finalEnd b1).trans hend
  | _ => exact hk.elim

private theorem Streaming.acked {q : Int} {bits : List Bool} {effs : List Effect}
    (h : t.Streaming s b e f k d log fin) (hl : b ≤ q) (hf : q ≤ f)
    (hbits : ∀ j : Nat, bits[j]? = some true → q + 1 + j < f)
    (hp : Path Moves (t, b, e) effs (t', q, e')) (hk : ∀ eff ∈ effs, eff.AckedBy q q bits) :
    Acked t b e f q bits (t', q, e') := by
  have hmax : max b q = q := max_eq_right hl
  refine hp.invariant (Acked t b e f q bits)
    (fun x eff y heff hx hm ↦ hx.moves hm (hmax.symm ▸ hk eff heff) (by omega) ?_) ?_
  · rw [hmax]
    exact hbits
  · exact ⟨h.scheduled.ordered, h.scheduled.timed, le_refl b, le_max_left b q, le_refl _,
      fun P hP _ ↦ hP⟩

-- the final packet was the last to be acknowledged when the stream goes idle
private theorem Streaming.over {q : Int} (h : t.Streaming s b e f k d log fin)
    (hst : t.state = .connected) (hends : AckEnds t b e t' q e')
    (hfin : fin' = fin ∨ fin = none ∧ ∀ f, fin' = some f → e ≤ f) (hidle : t'.state = .idle) :
    q = e' ∧ fin' = some (e' - 1) := by
  rcases hends with ⟨hst', -⟩ | ⟨-, heos, rfl, rfl, hpend⟩
  · exact absurd (hst'.symm.trans hidle) (by decide)
  · refine ⟨rfl, ?_⟩
    have hlast := h.sender.source.ended heos (hpend (h.alive hst heos))
    rcases hfin with rfl | ⟨hnone, -⟩
    · exact hlast
    · exact absurd (hlast.symm.trans hnone) (by simp)

private theorem AckEnds.alive {q : Int} (hends : AckEnds t b e t' q e') (hle : q ≤ e')
    (hst : t'.state = .connected) (heos : t'.endOfStream = true) : q < e' := by
  rcases hends with ⟨-, heos', hne⟩ | ⟨hidle, -⟩
  · rw [heos] at heos'
    by_contra hno
    exact absurd (heos'.trans (hne (by omega))) (by decide)
  · exact absurd (hst.symm.trans hidle) (by decide)

/-- An acknowledgement of everything below `q`, and of the positions its bitmap names, all of
which were sent. -/
theorem Streaming.ack {q : Int} {seqId : BitVec 16} {controlBit : Bool} {bitmap : List UInt8}
    (h : t.Streaming s b e f k d log fin)
    (hq : t.outRing.restorePosHighBits seqId 12 = .ofPos q) (hl : b ≤ q) (hf : q ≤ f)
    (hbits : ∀ j : Nat, (bitmap.flatMap bitsMsb)[j]? = some true → q + 1 + j < f)
    (hbit : controlBit ≠ t.controlBit) :
    ∃ t' rushed e' fin', t.ack controlBit seqId bitmap = .ok (t', rushed) ∧
      t'.Streaming s q e' f k d log fin' ∧ Continues e f log fin e' f log fin' ∧
      t'.controlBit = t.controlBit ∧ t'.peerReceiveBufferSize = t.peerReceiveBufferSize ∧
      t'.finalEnd e' ≤ t.finalEnd e ∧ (t'.state = .connected → t.state = .connected) ∧
      (t.endOfStream = false → t'.endOfStream = false ∧ fin' = fin) ∧
      (t.endOfStream = true ∨ fin ≠ none → t'.endOfStream = true ∨ fin' ≠ none) ∧
      ∀ P, t.MarkedOnly b e P → (∀ j : Nat, (bitmap.flatMap bitsMsb)[j]? = some true →
        P (q + 1 + j)) → t'.MarkedOnly q e' P := by
  have hfe := h.scheduled.ordered.le_end
  rcases h.sender.source.phase with hst | hst
  swap
  · -- a stream that is over ignores what is still said about it
    obtain ⟨rfl, -⟩ := h.drained hst
    obtain rfl : b = q := by omega
    refine ⟨t, false, b, fin, by rw [Transmitter.ack, if_pos (by simp [hst])], h, .refl b f log fin,
      rfl, rfl, le_refl _, id, fun heos ↦ ⟨heos, rfl⟩, id, fun P hP _ ↦ hP⟩
  have hmax : max b q = q := max_eq_right hl
  obtain ⟨t', rushed, effs, e', hok, hpath, hk, hends⟩ :=
    ack_applied h.spans hst hbit hq (by omega) (by omega) bitmap
  rw [hmax] at hpath hk hends
  obtain ⟨fin', hsrc, hfin, hopen⟩ := h.sender.source.path hpath fun eff heff ↦
    (hk eff heff).bytes_eq
  obtain ⟨sent', -, hpace, -⟩ := h.sender.pace.path h.sender.source.queue hpath
    (fun p hp ↦ lt_of_lt_of_le (hk _ hp) hf) fun x y hr ↦ hk _ hr
  have hacked := h.acked hl hf hbits hpath hk
  have hsched : t'.Scheduled q e' f :=
    ⟨hacked.ordered, h.scheduled.follows.ack hacked.ordered hok, hacked.timed⟩
  have hcredit := h.credit.path h.spans hpath
  rw [foldl_himarkAfter fun x hx ↦ hk _ hx] at hcredit
  have hover := h.over hst hends hfin
  have hmarked := hacked.marked
  rw [hmax] at hmarked
  refine ⟨t', rushed, e', fin', hok, ⟨hsrc.sender hsched hpace.writable, hsched, hcredit,
    h.checked.path hpath, h.shaped.path hpath fun p hp ↦ hk _ hp,
    h.dueBy.path hpath fun p fast hp ↦ hk _ hp, hends.alive hacked.ordered.spans.le, hover⟩,
    ⟨(path_mono hpath h.spans).2, le_refl f, fun _ _ ↦ rfl, hfin⟩, path_controlBit hpath,
    path_peerReceiveBufferSize hpath, hacked.finalEnd_le, fun _ ↦ hst,
    hopen fun eff heff ↦ (hk eff heff).not_ends, ?_, hmarked⟩
  rintro (heos | hne)
  · rcases hends with ⟨-, heos', -⟩ | ⟨hidle, -⟩
    · exact .inl (heos'.trans heos)
    · exact .inr (by simp [(hover hidle).2])
  · rcases hfin with rfl | ⟨hnone, -⟩
    · exact .inr hne
    · exact absurd hnone hne

/-- A stream just connected. -/
theorem streaming_setConnected {myStreamId : UInt32} (hc : t.Checked b e)
    (h : t.init myStreamId (.ofPos s) = .ok t') {size : Nat} (hsize : size ≤ 1024)
    (controlBit : Bool) (d : Uptime) :
    (t'.setConnected size controlBit).Streaming s s s s (s + size) d (fun _ ↦ []) none := by
  have hsender := sender_setConnected h size controlBit
  rw [init_ok] at h
  cases h
  have hspans := spans_new n s
  refine ⟨hsender, ⟨⟨hspans, le_refl s, le_refl s, fun p _ _ ↦ by omega, fun p _ _ ↦ by omega⟩,
    ⟨s, rfl, le_refl s, by omega⟩, ⟨flagged_empty _ s, ?_, by simp [Early, setConnected]⟩⟩,
    ⟨?_, hsize, by simp [setConnected], by omega, fun _ ↦ by omega, by omega⟩,
    (hc.init myStreamId s).setConnected ((hc.init myStreamId s).fresh rfl) hsize controlBit,
    fun p _ _ ↦ by omega, fun p _ _ ↦ by omega, by simp [setConnected], by simp [setConnected]⟩
  · refine Early.setConnected (fun _ ↦ ⟨rfl, rfl, .inl rfl⟩) hspans rfl size controlBit
  · exact SeqNum.ofPos_add s size

end

end Transmitter

/-! ### The receiving end -/

namespace Receiver

variable {n : LinkBufferSize}

/-- The receiving end of a stream, with what it knows of the stream's end. It tells the other
end of its room by `d` at the latest. -/
structure Draining (r : Receiver n) (s b u e : Int) (d : Uptime) (log : Int → List UInt8)
    (fin : Option Int) (read : List UInt8) : Prop where
  sink : r.Sink s b u e log fin read
  dueBy : r.recvHimarkUpdateExpiration ≤ d
  peer : r.peerClosed = true → fin = some (e - 1)
  exhausted : fin = some (b - 1) → r.endOfStream = true

/-- The packet of a position was taken in. -/
def Stored (r : Receiver n) (b e p : Int) : Prop := p < b ∨ p < e ∧ r.Received p

section

variable {r r' : Receiver n} {s b u e : Int} {d : Uptime} {log : Int → List UInt8}
  {fin : Option Int} {read : List UInt8}

/-- The first position missing is not stored. -/
theorem Window.not_stored (h : r.Window b u e) : ¬ r.Stored b e u := by
  rintro (hlt | ⟨hlt, hr⟩)
  · have := h.begin_le
    omega
  · exact h.gap hlt hr

private theorem Window.stored (h : r.Window b u e) {p : Int} (hp : p < u) : r.Stored b e p := by
  have hue := h.le_end
  by_cases hb : p < b
  · exact .inl hb
  · exact .inr ⟨by omega, h.received p (by omega) hp⟩

/-- What the receiver knows does not depend on packets that it has not received. -/
theorem Draining.relog {log' : Int → List UInt8} {fin' : Option Int}
    (h : r.Draining s b u e d log fin read) (hlog : ∀ p, s ≤ p → p < e → log' p = log p)
    (hfin : fin' = fin ∨ fin = none ∧ ∀ f, fin' = some f → e ≤ f) :
    r.Draining s b u e d log' fin' read := by
  have hle := h.sink.window.spans.le
  refine ⟨h.sink.relog hlog hfin, h.dueBy, fun hpeer ↦ ?_, fun hlast ↦ ?_⟩
  · rcases hfin with rfl | ⟨hnone, -⟩
    · exact h.peer hpeer
    · exact absurd ((h.peer hpeer).symm.trans hnone) (by simp)
  · rcases hfin with rfl | ⟨-, hf⟩
    · exact h.exhausted hlast
    · have := hf _ hlast
      omega

/-- Notes about packets sent do not matter. -/
theorem Draining.sent (h : r.Draining s b u e d log fin read) (needsAck : Bool)
    (recvHimark : SeqNum) {expiration : Uptime} (hdue : expiration ≤ d) :
    { r with
      needsAck := needsAck
      recvHimark := recvHimark
      recvHimarkUpdateExpiration := expiration }.Draining s b u e d log fin read :=
  ⟨h.sink.sent needsAck recvHimark expiration, hdue, h.peer, h.exhausted⟩

/-- A look leaves the stream as it was. -/
theorem Draining.look (h : r.Draining s b u e d log fin read) :
    r.look.Draining s b u e d log fin read := by
  refine ⟨h.sink.look, ?_, ?_, ?_⟩
  · rcases r.look_eq with heq | ⟨-, -, heq⟩
    · rw [heq]
      exact h.dueBy
    · rw [heq]
      exact h.dueBy
  · rw [(r.look_sameLink.state (by simp [h.sink.connected])).2.2]
    exact h.peer
  · rcases r.look_eq with heq | ⟨-, -, heq⟩
    · rw [heq]
      exact h.exhausted
    · rw [heq]
      exact h.exhausted

/-- The window of a receiver is determined by where it starts. -/
theorem Window.unique {u' e' : Int} (h : r.Window b u e) (h' : r.Window b u' e') :
    u' = u ∧ e' = e := by
  have hcap := capacity_le n
  have hus := h.spans.slotsUsed_eq
  have hus' := h'.spans.slotsUsed_eq
  have hroom := h.spans.used
  have hbu := h.begin_le
  have hue := h.le_end
  have hbu' := h'.begin_le
  have hue' := h'.le_end
  refine ⟨?_, by omega⟩
  exact (SeqNum.ofPos_eq (by omega) (by omega)).mp (h'.unack_eq.symm.trans h.unack_eq)

/-- The arrival of a packet of the stream. If the window has room for it, it is noted, and the
first one missing is no longer missing. -/
theorem Draining.handleDataPacket {q : Int} {controlBit isFinal ack new : Bool} {seqId : BitVec 16}
    (h : r.Draining s b u e d log fin read)
    (hseq : r.inRing.restorePosHighBits seqId 12 = .ofPos q) (hl : b - 2048 ≤ q) (hu : q < b + 2048)
    (hlen : (log q).length ≤ 248) (hfinal : isFinal = true ↔ fin = some q)
    (hlast : ∀ f, fin = some f → q ≤ f) (hbit : controlBit ≠ r.controlBit)
    (hh : r.handleDataPacket controlBit seqId (log q) isFinal = .ok (r', ack, new)) :
    ∃ u' e', r'.Draining s b u' e' d log fin read ∧ u ≤ u' ∧ e ≤ e' ∧ (e' = e ∨ e' = q + 1) ∧
      (r.needsAck = true → r'.needsAck = true) ∧
      (q < b + 2 ^ n.val → r'.needsAck = true ∧ (q = u → q < u')) ∧
      ∀ p, r.Stored b e p → r'.Stored b e' p := by
  have hcap := capacity_le n
  obtain ⟨u', e', hsink, hu', he', hend, hrec⟩ :=
    h.sink.handleDataPacket hseq hl hu hlen hfinal hlast hh
  have hstored (p : Int) (hp : r.Stored b e p) : r'.Stored b e' p := by
    by_cases hb : p < b
    · exact .inl hb
    · obtain ⟨hpe, hr⟩ := hp.resolve_left hb
      exact .inr ⟨by omega, hrec p (by omega) hpe hr⟩
  cases handleDataPacket_arrival h.sink.window.spans hh with
  | ignored hignored =>
    refine ⟨u, e, h, le_refl u, le_refl e, .inl rfl, id, fun hroom ↦ ?_, fun p hp ↦ hp⟩
    obtain ⟨heq, hno⟩ := hignored.beyond h.sink.window.spans (by simp [h.sink.connected])
      (by simp [h.sink.connected]) hbit hseq hl hu
    rcases hno with hpeer | hfar
    · have := hlast _ (h.peer hpeer)
      omega
    · omega
  | consumed q' _ _ _ hq' hl' hlt =>
    obtain rfl := position_unique hseq hq' hl hu hl' (by omega)
    have hbu := h.sink.window.begin_le
    exact ⟨u, e, h.sent true r.recvHimark h.dueBy, le_refl u, le_refl e,
      .inl rfl, fun _ ↦ rfl, fun _ ↦ ⟨rfl, fun heq ↦ by omega⟩, fun p hp ↦ hp⟩
  | accepted q' b' _ _ _ _ hq' hb hub hopen ha =>
    obtain rfl := position_unique hseq hq' hl hu (by omega) (by omega)
    obtain rfl := ha.begin_eq h.sink.inputOpen
    obtain ⟨u1, hw, -, -, hnext⟩ := h.sink.window.accepted hb hub ha
    obtain ⟨rfl, rfl⟩ := hw.unique hsink.window
    have hnoted : r'.needsAck = true := by rw [ha.frame]
    have hpeer : r'.peerClosed = (r.peerClosed || isFinal) := by rw [ha.frame]
    have heos : r'.endOfStream = r.endOfStream := by rw [ha.frame]
    refine ⟨u', _, ⟨hsink, by rw [ha.frame]; exact h.dueBy, ?_, ?_⟩, hu', he', hend, fun _ ↦ hnoted,
      fun _ ↦ ⟨hnoted, fun heq ↦ heq ▸ hnext heq.symm⟩, hstored⟩
    · rw [hpeer, Bool.or_eq_true]
      rintro (hclosed | hfin)
      · have hold := h.peer hclosed
        have := hlast _ hold
        rw [hold, max_eq_left (by omega)]
      · have hq := hfinal.mp hfin
        have := h.sink.last _ hq
        rw [hq, max_eq_right this, add_sub_cancel_right]
    · rw [heos]
      exact h.exhausted

private theorem Window.lt_of_received (h : r.Window b u e) (hlt : b < e) (hr : r.Received b) :
    b < u := by
  by_contra hge
  have hbu := h.begin_le
  obtain rfl : b = u := by omega
  exact h.gap hlt hr

private theorem Draining.dueBy_readRound {count : Nat} {round : Round n}
    (h : r.Draining s b u e d log fin read) (hspec : RoundSpec r b e count (.ok round)) :
    round.receiver.recvHimarkUpdateExpiration ≤ d := by
  cases hspec with
  | drained =>
    rw [show (if r.state = .broken then r.setIdle else r) = r from
      if_neg (by simp [h.sink.connected])]
    exact h.dueBy
  | gap | part => exact h.dueBy
  | data | fin => exact Nat.zero_le d

-- where the window starts after the round, and what has become of the end of the stream
private theorem Draining.readRound_cases {count : Nat} {round : Round n}
    (h : r.Draining s b u e d log fin read) (hspec : RoundSpec r b e count (.ok round)) :
    ∃ b', round.receiver.inRing.Spans b' e ∧
      (fin = some (b' - 1) → round.receiver.endOfStream = true) ∧
      (round.continues = true → b' = b + 1 ∧ count ≤ round.left + 248) ∧
      (248 * (u - b) < count → (round.continues = true → round.left = 0) → b' = u) := by
  have hw := h.sink.window
  have hbu := hw.begin_le
  have hue := hw.le_end
  have hfits := (h.sink.fits (slotAt n b)).1
  cases hspec with
  | drained hbe =>
    rw [show (if r.state = .broken then r.setIdle else r) = r from
      if_neg (by simp [h.sink.connected])]
    exact ⟨b, hw.spans, h.exhausted, by simp, fun _ _ ↦ by omega⟩
  | gap hlt hno =>
    refine ⟨b, hw.spans, h.exhausted, by simp, fun _ _ ↦ ?_⟩
    by_contra hne
    exact hno (hw.received b (le_refl _) (by omega))
  | part hlt hrb hsize =>
    refine ⟨b, hw.spans, h.exhausted, by simp, fun hcount _ ↦ ?_⟩
    have := hw.lt_of_received hlt hrb
    rw [bufferAt] at hsize
    omega
  | data ring hlt htype hle hle' hring =>
    have hrb : r.Received b := by simp [Received, htype]
    have hlast : fin ≠ some b := by
      intro hfin
      exact absurd (htype.symm.trans ((h.sink.content b (le_refl b) hlt hrb).2.mpr hfin))
        (by decide)
    refine ⟨b + 1, hring, fun hfin ↦ ?_, fun _ ↦ ⟨rfl, ?_⟩, fun hcount hstop ↦ ?_⟩
    · rw [add_sub_cancel_right] at hfin
      exact absurd hfin hlast
    · dsimp only
      rw [bufferAt]
      omega
    · have hzero := hstop rfl
      have := hw.lt_of_received hlt hrb
      dsimp only at hzero
      rw [bufferAt] at hzero
      omega
  | fin ring hend htype hle hle' hring =>
    have hrb : r.Received b := by simp [Received, htype]
    have := hw.lt_of_received (by omega) hrb
    exact ⟨b + 1, hring, fun _ ↦ by simp [Receiver.released], by simp, fun _ _ ↦ by omega⟩

/-- A round of reading. Reading past the final packet ends the stream, and a reader that asks
for more than the window can hold stops at the first packet missing. -/
theorem Draining.readRound {count : Nat} {round : Round n} (h : r.Draining s b u e d log fin read)
    (hr : r.readRound count = .ok round) :
    ∃ b', b ≤ b' ∧ round.receiver.Draining s b' u e d log fin (read ++ round.bytes) ∧
      (∀ p, r.Stored b e p → round.receiver.Stored b' e p) ∧
      (round.continues = true → b' = b + 1 ∧ count ≤ round.left + 248) ∧
      (248 * (u - b) < count → (round.continues = true → round.left = 0) → b' = u) := by
  obtain ⟨b', hb', hsink, hrec⟩ := h.sink.readRound hr
  have hspec := readRound_spec h.sink.window.spans h.sink.front.cursor count
  rw [hr] at hspec
  obtain ⟨b1, hs1, hrest⟩ := h.readRound_cases hspec
  obtain rfl : b1 = b' := by
    have h1 := hs1.slotsUsed_eq
    have h2 := hsink.window.spans.slotsUsed_eq
    omega
  have hstored (p : Int) (hp : r.Stored b e p) : round.receiver.Stored b1 e p := by
    by_cases hlt : p < b1
    · exact .inl hlt
    · obtain ⟨hpe, hr⟩ := hp.resolve_left (by omega)
      exact .inr ⟨hpe, hrec p (by omega) hpe hr⟩
  have hpeer : round.receiver.peerClosed = r.peerClosed :=
    ((readRound_sameLink hr).state (by simp [h.sink.connected])).2.2
  exact ⟨b1, hb', ⟨hsink, h.dueBy_readRound hspec, by rw [hpeer]; exact h.peer, hrest.1⟩, hstored,
    hrest.2⟩

/-- `tryRead` fails no check, and with a large enough count it takes all that is in order. -/
theorem Draining.tryRead (h : r.Draining s b u e d log fin read) (count : Nat) :
    ∃ r' bytes ready b', r.tryRead count = .ok (r', bytes, ready) ∧ b ≤ b' ∧
      r'.Draining s b' u e d log fin (read ++ bytes) ∧ (∀ p, r.Stored b e p → r'.Stored b' e p) ∧
      (248 * (u - b) < count → b' = u) := by
  let I (r1 : Receiver n) (k : Nat) (acc : List UInt8) : Prop := ∃ b1, b ≤ b1 ∧
    r1.Draining s b1 u e d log fin (read ++ acc) ∧ (∀ p, r.Stored b e p → r1.Stored b1 e p) ∧
    (248 * (u - b) < count → 248 * (u - b1) < k)
  let Q (r1 : Receiver n) (acc : List UInt8) : Prop := ∃ b1, b ≤ b1 ∧
    r1.Draining s b1 u e d log fin (read ++ acc) ∧ (∀ p, r.Stored b e p → r1.Stored b1 e p) ∧
    (248 * (u - b) < count → b1 = u)
  have hstart : I r count [] := ⟨b, le_refl b, by rwa [List.append_nil], fun _ hp ↦ hp, id⟩
  have hgo (r1 : Receiver n) (k : Nat) (acc : List UInt8) (round : Round n) (hi : I r1 k acc)
      (hk : r1.readRound k = .ok round) (hcont : round.continues = true) (_ : 0 < round.left) :
      I round.receiver round.left (acc ++ round.bytes) := by
    obtain ⟨b1, hb1, hd1, hs1, hc1⟩ := hi
    obtain ⟨b2, hb2, hd2, hs2, hnext, -⟩ := hd1.readRound hk
    obtain ⟨rfl, hleft⟩ := hnext hcont
    rw [List.append_assoc] at hd2
    exact ⟨b1 + 1, by omega, hd2, fun p hp ↦ hs2 p (hs1 p hp), fun hcount ↦ by
      have := hc1 hcount
      omega⟩
  have hstop (r1 : Receiver n) (k : Nat) (acc : List UInt8) (round : Round n) (hi : I r1 k acc)
      (hk : r1.readRound k = .ok round) (hend : round.continues = true → round.left = 0) :
      Q round.receiver (acc ++ round.bytes) := by
    obtain ⟨b1, hb1, hd1, hs1, hc1⟩ := hi
    obtain ⟨b2, hb2, hd2, hs2, -, hall⟩ := hd1.readRound hk
    rw [List.append_assoc] at hd2
    exact ⟨b2, by omega, hd2, fun p hp ↦ hs2 p (hs1 p hp), fun hcount ↦ hall (hc1 hcount) hend⟩
  obtain ⟨⟨r', bytes, ready⟩, hok⟩ : ∃ out, r.tryRead count = .ok out :=
    tryRead_total hgo (fun r1 k acc ⟨_, _, hd1, _⟩ ↦ hd1.sink.readRound_total k) hstart
  obtain ⟨b', hb', hd, hs, hall⟩ := tryRead_rule (Q := Q) hgo hstop hstart
    (fun hst ↦ by simp [h.sink.connected] at hst) hok
  exact ⟨r', bytes, ready, b', hok, hb', hd, hs, hall⟩

/-- A receiver connected anew. -/
theorem draining_reconnected (hc : r.currentInBuffer = none) (hfits : ∀ i, Fits (r.inBuffers i))
    (hdue : r.recvHimarkUpdateExpiration ≤ d) (myStreamId : UInt32) (controlBit : Bool) :
    (r.reconnected myStreamId (.ofPos s) controlBit).Draining s s s s d (fun _ ↦ []) none [] :=
  ⟨sink_reconnected hc hfits myStreamId controlBit, hdue, by simp [reconnected], by simp⟩

end

end Receiver

end RooTransport.Link
