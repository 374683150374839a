import RooTransport.Link.TransmitterQueue

/-!
# The sending end of one stream

What a transmitter keeps of the stream it sends, from the moment it is connected: packets
that were handed out no longer change, the final packet is the last one, and
`next_to_send_` stays close enough to the window for its wrapped comparison to be exact
(`transmitter.cpp:23–194`).
-/

namespace RooTransport.Link

open RooTransport.Base RingBuffer

/-- Where the final packet of the stream is after an effect. -/
def Effect.final (fin : Option Int) : Effect → Option Int
  | .closeNow p => some p
  | .lateEos p => some p
  | _ => fin

/-- The first position past everything handed out. -/
def Effect.sentUpTo (sent : Int) : Effect → Int
  | .send p _ => max sent (p + 1)
  | _ => sent

/-- What was sent stays so. -/
theorem Effect.le_sentUpTo (eff : Effect) (sent : Int) : sent ≤ eff.sentUpTo sent := by
  cases eff with
  | send p fast => exact le_max_left sent (p + 1)
  | _ => exact le_refl sent

private theorem le_foldl_sentUpTo (effs : List Effect) (sent : Int) :
    sent ≤ effs.foldl Effect.sentUpTo sent := by
  induction effs generalizing sent with
  | nil => exact le_refl sent
  | cons eff rest ih => exact (eff.le_sentUpTo sent).trans (ih _)

/-- A packet sent on the way counts as sent. -/
theorem lt_foldl_sentUpTo {effs : List Effect} {p : Int} {fast : Bool}
    (h : .send p fast ∈ effs) (sent : Int) : p < effs.foldl Effect.sentUpTo sent := by
  induction effs generalizing sent with
  | nil => cases h
  | cons eff rest ih =>
    rcases List.mem_cons.mp h with rfl | hrest
    · exact (Int.lt_of_add_one_le (le_max_right sent (p + 1))).trans_le (le_foldl_sentUpTo rest _)
    · exact ih hrest _

namespace Transmitter

variable {n : LinkBufferSize}

/-- The window from `b` to `e` of a stream that started at `s`, with the packets of `log` and
the final one, once it is queued, at `fin`. -/
structure Source (t : Transmitter n) (s b e : Int) (log : Int → List UInt8) (fin : Option Int) :
    Prop where
  queue : t.Queue b e log
  headed : t.Headed b e
  start_le : s ≤ b
  phase : t.state = .connected ∨ t.state = .idle
  ended : t.endOfStream = true → t.hasPendingEof = false → fin = some (e - 1)
  final : ∀ f, fin = some f → f + 1 = e ∧ log f = [] ∧ ¬ t.Open ∧ t.hasPendingEof = false

section

variable {t t' : Transmitter n} {s b e b' e' : Int} {log : Int → List UInt8} {fin : Option Int}

private theorem Source.not_final_of_open (h : t.Source s b e log fin) (ho : t.Open) :
    fin = none := by
  cases hf : fin with
  | none => rfl
  | some f => exact absurd ho (h.final f hf).2.2.1

/-- An effect that takes no bytes in keeps the stream, up to where its final packet is. -/
theorem Source.moves {eff : Effect} (h : t.Source s b e log fin)
    (hm : Moves (t, b, e) eff (t', b', e')) (hb : eff.bytes = []) :
    t'.Source s b' e' log (eff.final fin) := by
  have hq := h.queue.keeps hm hb
  have hh := h.headed.moves hm
  have hs : s ≤ b' := h.start_le.trans (hm.mono h.queue.spans).1
  have hphase : t'.state = .connected ∨ t'.state = .idle := by
    cases hm with
    | reset => exact .inr rfl
    | calm => exact .inr rfl
    | _ => exact h.phase
  cases hm with
  | alloc ring ho =>
    refine ⟨hq, hh, hs, hphase, fun he ↦ absurd (ho.1.symm.trans he) (by simp), fun f hf ↦ ?_⟩
    exact absurd ho (h.final f hf).2.2.1
  | write _ _ _ _ _ hne => exact absurd hb hne
  | closeNow ring ho =>
    have hpend : t.hasPendingEof = false := by
      have := h.queue.pending
      simpa [ho.1] using this
    refine ⟨hq, hh, hs, hphase, fun _ _ ↦ by simp [Effect.final], fun f hf ↦ ?_⟩
    obtain rfl : e = f := Option.some.inj hf
    exact ⟨rfl, h.queue.beyond e (le_refl e), fun ho' ↦ absurd ho'.1 (by simp), hpend⟩
  | closeLater ho =>
    refine ⟨hq, hh, hs, hphase, fun _ hp ↦ absurd hp (by simp), fun f hf ↦ ?_⟩
    exact absurd ho (h.final f hf).2.2.1
  | lateEos ring hpend =>
    refine ⟨hq, hh, hs, hphase, fun _ _ ↦ by simp [Effect.final], fun f hf ↦ ?_⟩
    obtain rfl : e = f := Option.some.inj hf
    have heos := h.queue.pending hpend
    exact ⟨rfl, h.queue.beyond e (le_refl e), fun ho' ↦ absurd (heos.symm.trans ho'.1) (by simp),
      rfl⟩
  | reset ring =>
    refine ⟨hq, hh, hs, hphase, fun he ↦ absurd he (by simp), fun f hf ↦ ?_⟩
    obtain ⟨hlast, hlog, -, -⟩ := h.final f hf
    exact ⟨hlast, hlog, fun ho ↦ ho.2.1 rfl, rfl⟩
  | calm =>
    refine ⟨hq, hh, hs, hphase, h.ended, fun f hf ↦ ?_⟩
    obtain ⟨hlast, hlog, -, hpend⟩ := h.final f hf
    exact ⟨hlast, hlog, fun ho ↦ ho.2.1 rfl, hpend⟩
  | _ => exact ⟨hq, hh, hs, hphase, h.ended, h.final⟩

/-- The final packet is queued at the end of the window, and only once the stream was closed. -/
theorem Source.path {effs : List Effect} (h : t.Source s b e log fin)
    (hp : Path Moves (t, b, e) effs (t', b', e')) (hb : ∀ eff ∈ effs, eff.bytes = []) :
    ∃ fin', t'.Source s b' e' log fin' ∧ (fin' = fin ∨ fin = none ∧ ∀ f, fin' = some f → e ≤ f) ∧
      ((∀ eff ∈ effs, ¬ eff.Ends) → t.endOfStream = false →
        t'.endOfStream = false ∧ fin' = fin) := by
  refine (hp.invariant (fun x ↦ e ≤ x.2.2 ∧ ∃ fin', x.1.Source s x.2.1 x.2.2 log fin' ∧
    (fin' = fin ∨ fin = none ∧ ∀ f, fin' = some f → e ≤ f) ∧
    ((∀ eff ∈ effs, ¬ eff.Ends) → t.endOfStream = false →
      x.1.endOfStream = false ∧ fin' = fin)) ?_
    ⟨le_refl e, fin, h, .inl rfl, fun _ he ↦ ⟨he, rfl⟩⟩).2
  rintro ⟨t1, b1, e1⟩ eff ⟨t2, b2, e2⟩ heff ⟨he, fin1, h1, hfin, hopen⟩ hm
  have hmono := hm.mono h1.queue.spans
  refine ⟨by simp only at he ⊢; omega, _, h1.moves hm (hb eff heff), ?_, fun hk heos ↦ ?_⟩
  · have hlate (p : Int) (hp : e ≤ p) (hnone : fin1 = none) :
        some p = fin ∨ fin = none ∧ ∀ f, some p = some f → e ≤ f := by
      rcases hfin with hsame | ⟨hn, -⟩
      · exact .inr ⟨hsame.symm.trans hnone, fun f hf ↦ by cases hf; exact hp⟩
      · exact .inr ⟨hn, fun f hf ↦ by cases hf; exact hp⟩
    cases hm with
    | closeNow ring ho => exact hlate _ he (h1.not_final_of_open ho)
    | lateEos ring hpend =>
      refine hlate _ he ?_
      cases hf : fin1 with
      | none => rfl
      | some f => exact absurd (hpend.symm.trans (h1.final f hf).2.2.2) (by simp)
    | _ => exact hfin
  · obtain ⟨heos1, hfin1⟩ := hopen hk heos
    cases hm with
    | closeNow => exact absurd trivial (hk _ heff)
    | closeLater => exact absurd trivial (hk _ heff)
    | lateEos ring hpend => exact absurd (heos1.symm.trans (h1.queue.pending hpend)) (by simp)
    | reset => exact ⟨rfl, hfin1⟩
    | _ => exact ⟨heos1, hfin1⟩

/-- What queues neither bytes nor a final packet keeps the stream as it is. -/
theorem Source.path_same {effs : List Effect} (h : t.Source s b e log fin)
    (hp : Path Moves (t, b, e) effs (t', b', e'))
    (hk : ∀ eff ∈ effs, eff.bytes = [] ∧ eff.final fin = fin) : t'.Source s b' e' log fin := by
  refine hp.invariant (fun x ↦ x.1.Source s x.2.1 x.2.2 log fin) (fun x eff y heff h1 hm ↦ ?_) h
  have h2 := h1.moves hm (hk eff heff).1
  rwa [(hk eff heff).2] at h2

/-- A stream that takes no data takes none. -/
theorem tryWrite_of_not_open (ho : ¬ t.Open) (buf : List UInt8) :
    t.tryWrite buf = .ok (t, 0, false) := by
  unfold tryWrite
  split
  · rfl
  split
  · rfl
  next heos =>
  split
  · rfl
  next hst =>
  rw [not_or] at hst
  exact absurd ⟨by simpa using heos, hst⟩ ho

/-- `tryWrite` adds what it takes to the stream and leaves frozen packets alone. -/
theorem Source.tryWrite {buf : List UInt8} {written : Nat} {ready : Bool}
    (h : t.Source s b e log fin) (hw : t.endOfStream = false → t.Writable b e)
    (hok : t.tryWrite buf = .ok (t', written, ready)) :
    ∃ e' log', t'.Source s b e' log' fin ∧ t'.outRing.Spans b e' ∧ e ≤ e' ∧
      span log' s e' = span log s e ++ buf.take written ∧
      ∀ p, p < e → t.Frozen b e p → log' p = log p := by
  by_cases ho : t.Open
  · obtain ⟨e', log', hq, hle, -, hspan, hf⟩ := h.queue.tryWrite (hw ho.1) hok
    obtain ⟨-, effs, e1, hpath, -, -⟩ := tryWrite_path h.queue.spans hok
    have hsame := tryWrite_samePhase hok
    have hh := h.headed.path hpath
    obtain rfl : e1 = e' := by
      have h1 := hh.spans.slotsUsed_eq
      have h2 := hq.spans.slotsUsed_eq
      omega
    refine ⟨e1, log', ⟨hq, hh, h.start_le, ?_, ?_, ?_⟩, hq.spans, hle, hspan s h.start_le,
      fun p hp hfp ↦ (hf p hp hfp).1⟩
    · rw [hsame.state]
      exact h.phase
    · rw [hsame.endOfStream, ho.1]
      exact fun he ↦ absurd he (by simp)
    · rw [h.not_final_of_open ho]
      exact fun f hf ↦ nomatch hf
  · rw [tryWrite_of_not_open ho] at hok
    cases hok
    exact ⟨e, log, h, h.queue.spans, le_refl e, by simp, fun _ _ _ ↦ rfl⟩

end

/-! ### Pace -/

/-- Positions before `sent` include everything handed out, and `next_to_send_` is not far
behind them, nor past the window. -/
structure Pacing (t : Transmitter n) (b e sent : Int) : Prop where
  begin_le : b ≤ sent
  le_end : sent ≤ e
  next : ∃ p, t.nextToSend = .ofPos p ∧ p ≤ e ∧ sent ≤ p + 1024

/-- Positions before `sent` include everything handed out. None of them can change, and
`next_to_send_` is not far behind them, nor past the window. -/
structure Paced (t : Transmitter n) (b e sent : Int) : Prop where
  begin_le : b ≤ sent
  le_end : sent ≤ e
  frozen : ∀ p, p < sent → t.Frozen b e p
  next : ∃ p, t.nextToSend = .ofPos p ∧ p ≤ e ∧ sent ≤ p + 1024
  writable : t.endOfStream = false → t.Writable b e

section

variable {t t' : Transmitter n} {b e b' e' sent : Int} {log : Int → List UInt8}

/-- What `Paced` says of the positions alone. -/
theorem Paced.pacing (h : t.Paced b e sent) : t.Pacing b e sent := ⟨h.begin_le, h.le_end, h.next⟩

/-- With nothing queued, `next_to_send_` is not in the window. -/
theorem Pacing.not_contains (h : t.Pacing b b sent) (hs : t.outRing.Spans b b) :
    t.outRing.contains t.nextToSend = false := by
  obtain ⟨p, hp, hle, hge⟩ := h.next
  have hsent := h.begin_le
  rw [hp, Bool.eq_false_iff]
  intro hc
  have := (hs.contains_iff (by omega) (by omega)).mp hc
  omega

/-- Effects that pop only what was handed out keep `next_to_send_` near. -/
theorem Pacing.moves {eff : Effect} (h : t.Pacing b e sent) (hs : t.outRing.Spans b e)
    (hm : Moves (t, b, e) eff (t', b', e')) (hpop : ∀ p, eff = .pop p → p < sent)
    (hreset : ∀ x y, eff = .reset x y → x = y) : t'.Pacing b' e' (eff.sentUpTo sent) := by
  have hcap := capacity_le n
  have hus := hs.used
  have hbs := h.begin_le
  have hse := h.le_end
  obtain ⟨p0, hnext, hp0, hge⟩ := h.next
  cases hm with
  | alloc | closeNow | lateEos =>
    exact ⟨hbs, by simp only [Effect.sentUpTo]; omega, ⟨p0, hnext, by omega, hge⟩⟩
  | @send _ _ _ p =>
    simp only [Effect.sentUpTo]
    exact ⟨by omega, by omega, ⟨p + 1, rfl, by omega, by omega⟩⟩
  | pop ring hst hlt =>
    have hb := hpop b rfl
    exact ⟨by simp only [Effect.sentUpTo]; omega, hse, ⟨p0, hnext, hp0, hge⟩⟩
  | @rush _ _ _ p next hl hu hn =>
    refine ⟨hbs, hse, ?_⟩
    rcases hn with hn | hn
    · exact ⟨p0, hn.trans hnext, hp0, hge⟩
    · exact ⟨p, hn, by omega, by simp only [Effect.sentUpTo]; omega⟩
  | reset =>
    obtain rfl := hreset b e rfl
    exact ⟨hbs, hse, ⟨p0, hnext, hp0, hge⟩⟩
  | stray _ _ _ _ hc =>
    rw [h.not_contains hs] at hc
    cases hc
  | _ => exact ⟨hbs, hse, ⟨p0, hnext, hp0, hge⟩⟩

private theorem Writable.of_finished (hw : t.Writable b e)
    (hcur : t'.currentOutBuffer = t.currentOutBuffer)
    (hfin : ∀ i, (t.outBuffers i).finished = true → (t'.outBuffers i).finished = true) :
    t'.Writable b e :=
  hw.imp_right fun hall i hi ↦ hfin i (hall i (hcur ▸ hi))

private theorem Paced.writable_moves {eff : Effect} (h : t.Paced b e sent) (hq : t.Queue b e log)
    (hm : Moves (t, b, e) eff (t', b', e')) (hpop : ∀ p, eff = .pop p → p < sent)
    (heos : t'.endOfStream = false) : t'.Writable b' e' := by
  have hbs := h.begin_le
  have hse := h.le_end
  cases hm with
  | alloc => exact .inl (by omega)
  | write i _ _ hi hopen =>
    refine .inl ((h.writable heos).resolve_right fun hall ↦ ?_)
    exact absurd (hopen.symm.trans (hall i hi)) (by simp)
  | release => exact .inr fun i hi ↦ nomatch hi
  | flush =>
    refine (h.writable heos).of_finished rfl fun i hi ↦ ?_
    exact (field_update OutBuffer.finished (by rfl) i).trans hi
  | closeNow => exact .inl (by omega)
  | closeLater => cases heos
  | lateEos => exact .inl (by omega)
  | pop ring hst hlt =>
    by_cases hlast : b + 1 < e
    · exact .inl hlast
    · refine .inr fun i hi ↦ ?_
      have hslot := hq.current heos i hi
      rcases h.frozen b (hpop b rfl) with hf | hf | hf
      · omega
      · omega
      · obtain rfl : e = b + 1 := by omega
        rw [hslot, add_sub_cancel_right]
        exact hf
  | finish | skip | send | rush => exact .inl (by omega)
  | himark => exact h.writable heos
  | calm => exact h.writable heos
  | reset => exact .inr fun i hi ↦ nomatch hi
  | stray _ _ _ _ hc =>
    rw [h.pacing.not_contains hq.spans] at hc
    cases hc

/-- Effects that pop only what was handed out keep the pace. -/
theorem Paced.moves {eff : Effect} (h : t.Paced b e sent) (hq : t.Queue b e log)
    (hm : Moves (t, b, e) eff (t', b', e')) (hpop : ∀ p, eff = .pop p → p < sent)
    (hreset : ∀ x y, eff = .reset x y → x = y) : t'.Paced b' e' (eff.sentUpTo sent) := by
  have hpace := h.pacing.moves hq.spans hm hpop hreset
  have hse := h.le_end
  refine ⟨hpace.begin_le, hpace.le_end, fun q hlt ↦ ?_, hpace.next, h.writable_moves hq hm hpop⟩
  by_cases hqs : q < sent
  · exact hm.frozen hq.spans (by omega) (h.frozen q hqs)
  cases hm with
  | @send _ _ _ p =>
    simp only [Effect.sentUpTo] at hlt
    by_cases hqp : q = p
    · refine .inr (.inr ?_)
      rw [hqp]
      exact (congrArg OutBuffer.finished (bufferAt_withBuffer t p _)).trans
        (finishBuffer_finished _)
    · exact .inr (.inl (by omega))
  | _ => exact absurd hlt hqs

/-- The pace along an operation. -/
theorem Paced.path {effs : List Effect} (h : t.Paced b e sent) (hq : t.Queue b e log)
    (hp : Path Moves (t, b, e) effs (t', b', e')) (hpop : ∀ p, .pop p ∈ effs → p < sent)
    (hreset : ∀ x y, .reset x y ∈ effs → x = y) :
    ∃ sent', sent ≤ sent' ∧ t'.Paced b' e' sent' ∧ ∀ p fast, .send p fast ∈ effs → p < sent' := by
  have hkeep := hp.keeps Effect.sentUpTo
    (fun x k ↦ (∃ log', x.1.Queue x.2.1 x.2.2 log') ∧ sent ≤ k ∧ x.1.Paced x.2.1 x.2.2 k)
    (fun x eff y k heff ⟨⟨log1, hq1⟩, hk, h1⟩ hm ↦ ?_) ⟨⟨log, hq⟩, le_refl sent, h⟩
  · exact ⟨_, le_foldl_sentUpTo effs sent, hkeep.2.2, fun p fast hmem ↦ lt_foldl_sentUpTo hmem sent⟩
  · refine ⟨?_, hk.trans (eff.le_sentUpTo k), h1.moves hq1 hm (fun p hp ↦ ?_) fun x y hr ↦ ?_⟩
    · obtain ⟨t1, b1, e1⟩ := x
      obtain ⟨t2, b2, e2⟩ := y
      cases eff with
      | write bytes =>
        have hopen : t1.endOfStream = false := by
          cases hm with
          | write _ _ ho => exact ho.1
        obtain ⟨-, -, rfl, rfl, hq2⟩ := hq1.moves_write hm (h1.writable hopen)
        exact ⟨_, hq2⟩
      | _ => exact ⟨log1, hq1.keeps hm rfl⟩
    · exact lt_of_lt_of_le (hpop p (hp ▸ heff)) hk
    · exact hreset x y (hr ▸ heff)

end

/-! ### Packets handed out -/

/-- The type of the packet at a position of a stream. -/
def typeAt (fin : Option Int) (p : Int) : PacketType := if fin = some p then .fin else .data

/-- The bytes of the packet at a position of a stream. -/
def packetAt (log : Int → List UInt8) (fin : Option Int) (controlBit : Bool) (p : Int) :
    List UInt8 :=
  storeBeU16 (formatPacketHeader (.ofPos p) (typeAt fin p) controlBit) ++ log p

section

variable {t t' : Transmitter n} {s b e sent : Int} {log : Int → List UInt8} {fin : Option Int}

/-- While connected, the buffers of the window hold the packets of the stream. -/
theorem Source.data_eq (h : t.Source s b e log fin) (hst : t.state = .connected) {p : Int}
    (hl : b ≤ p) (hu : p < e) : (t.bufferAt p).data = packetAt log fin t.controlBit p := by
  have hcap := capacity_le n
  have hus := h.queue.spans.used
  have hlast : (SeqNum.ofPos p).next = t.outRing.end_ ↔ p + 1 = e := by
    rw [SeqNum.ofPos_next, h.queue.spans.end_eq, SeqNum.ofPos_eq (by omega) (by omega)]
  have hiff : t.IsEos (.ofPos p) ↔ fin = some p := by
    rw [IsEos, hlast]
    constructor
    · rintro ⟨heos, hpend, rfl⟩
      rw [h.ended heos hpend, add_sub_cancel_right]
    · intro hf
      obtain ⟨he, -, ho, hpend⟩ := h.final p hf
      refine ⟨?_, hpend, he⟩
      by_contra heos
      exact ho ⟨by simpa using heos, by rw [hst]; decide, by rw [hst]; decide⟩
  rw [OutBuffer.data, h.headed.header p hl hu, h.queue.content p hl hu, packetAt, headerFor, typeAt]
  simp only [hiff]

private theorem sending_keeps {effs : List Effect} (h : t.Source s b e log fin)
    (hp : t.Paced b e sent) (hpath : Path Moves (t, b, e) effs (t', b, e))
    (hk : ∀ eff ∈ effs, (∃ p, eff = .finish p) ∨ ∃ p fast, eff = .send p fast) :
    t'.Source s b e log fin ∧ ∃ sent', sent ≤ sent' ∧ t'.Paced b e sent' ∧
      ∀ p fast, .send p fast ∈ effs → p < sent' := by
  refine ⟨h.path_same hpath fun eff heff ↦ ?_, hp.path h.queue hpath (fun p hmem ↦ ?_)
    fun x y hmem ↦ ?_⟩
  · rcases hk eff heff with ⟨p, rfl⟩ | ⟨p, fast, rfl⟩
    · exact ⟨rfl, rfl⟩
    · exact ⟨rfl, rfl⟩
  · rcases hk _ hmem with ⟨q, hq⟩ | ⟨q, fast, hq⟩ <;> cases hq
  · rcases hk _ hmem with ⟨q, hq⟩ | ⟨q, fast, hq⟩ <;> cases hq

/-- A packet handed out is the packet of its position and cannot change any more. -/
theorem Source.getBufferToSend (h : t.Source s b e log fin) (hp : t.Paced b e sent)
    (now : Uptime) (draw next : Nat) :
    ∃ sent', sent ≤ sent' ∧ (t.getBufferToSend now draw next).1.Source s b e log fin ∧
      (t.getBufferToSend now draw next).1.Paced b e sent' ∧
      ∀ pos, (t.getBufferToSend now draw next).2.1 = some pos → ∃ p, pos = .ofPos p ∧ b ≤ p ∧
        p < sent' ∧ ((t.getBufferToSend now draw next).1.getOutBuffer pos).data =
          packetAt log fin t.controlBit p := by
  have hsend := getBufferToSend_path h.queue.spans now draw next
  revert hsend
  generalize (t.getBufferToSend now draw next).1 = t'
  generalize (t.getBufferToSend now draw next).2.1 = out
  intro hsend
  have hsame := hsend.sameStream
  cases hsend with
  | idle effs hpath hk =>
    obtain ⟨hsrc, sent', hle, hp', -⟩ :=
      sending_keeps h hp hpath (fun eff heff ↦ .inl (hk eff heff))
    exact ⟨sent', hle, hsrc, hp', by simp⟩
  | @sent t1 _ p effs fast hpath hk hm hl hu =>
    obtain ⟨hsrc, sent', hle, hp', hsent⟩ := sending_keeps h hp (hpath.append (.single hm))
      (List.forall_mem_append.mpr ⟨fun eff heff ↦ .inl (hk eff heff),
        List.forall_mem_singleton.mpr (.inr ⟨p, fast, rfl⟩)⟩)
    have hst : t1.state = .connected := by
      cases hm
      assumption
    refine ⟨sent', hle, hsrc, hp', fun pos hpos ↦ ?_⟩
    obtain rfl := Option.some.inj hpos
    refine ⟨p, rfl, hl, hsent p fast (by simp), ?_⟩
    rw [getOutBuffer_ofPos, ← hsame.controlBit]
    exact hsrc.data_eq (by cases hm; exact hst) hl hu
  | stray hbe hc =>
    subst hbe
    rw [hp.pacing.not_contains h.queue.spans] at hc
    cases hc

end

/-! ### Whole operations -/

/-- A stream that goes on: what was handed out stays, and the final packet comes last. -/
structure Continues (e sent : Int) (log : Int → List UInt8) (fin : Option Int) (e' sent' : Int)
    (log' : Int → List UInt8) (fin' : Option Int) : Prop where
  end_le : e ≤ e'
  sent_le : sent ≤ sent'
  log_eq : ∀ p, p < sent → log' p = log p
  fin_eq : fin' = fin ∨ fin = none ∧ ∀ f, fin' = some f → e ≤ f

/-- The sending end of a stream at its pace. -/
structure Sender (t : Transmitter n) (s b e sent : Int) (log : Int → List UInt8)
    (fin : Option Int) : Prop where
  source : t.Source s b e log fin
  pace : t.Paced b e sent

section

variable {t t' : Transmitter n} {s b e b' e' sent : Int} {log : Int → List UInt8}
  {fin : Option Int}

private theorem Sender.path {effs : List Effect} (h : t.Sender s b e sent log fin)
    (hp : Path Moves (t, b, e) effs (t', b', e')) (hb : ∀ eff ∈ effs, eff.bytes = [])
    (hpop : ∀ p, .pop p ∈ effs → p < sent) (hreset : ∀ x y, .reset x y ∈ effs → x = y) :
    ∃ sent' fin', t'.Sender s b' e' sent' log fin' ∧ Continues e sent log fin e' sent' log fin' ∧
      ((∀ eff ∈ effs, ¬ eff.Ends) → t.endOfStream = false →
        t'.endOfStream = false ∧ fin' = fin) := by
  obtain ⟨fin', hsrc, hfin, hopen⟩ := h.source.path hp hb
  obtain ⟨sent', hsent, hpace, -⟩ := h.pace.path h.source.queue hp hpop hreset
  exact ⟨sent', fin', ⟨hsrc, hpace⟩,
    ⟨(path_mono hp h.source.queue.spans).2, hsent, fun _ _ ↦ rfl, hfin⟩, hopen⟩

/-- A write appends what it takes to the stream. -/
theorem Sender.tryWrite {buf : List UInt8} {written : Nat} {ready : Bool}
    (h : t.Sender s b e sent log fin) (hok : t.tryWrite buf = .ok (t', written, ready)) :
    ∃ e' sent' log', t'.Sender s b e' sent' log' fin ∧
      Continues e sent log fin e' sent' log' fin ∧
      span log' s e' = span log s e ++ buf.take written := by
  obtain ⟨e', log', hsrc, hs', hle, hspan, hlog⟩ := h.source.tryWrite h.pace.writable hok
  obtain ⟨-, effs, e1, hpath, -, hk⟩ := tryWrite_path h.source.queue.spans hok
  obtain rfl : e1 = e' := by
    have h1 := (path_spans hpath h.source.queue.spans).slotsUsed_eq
    have h2 := hs'.slotsUsed_eq
    omega
  obtain ⟨sent', hsent, hpace, -⟩ := h.pace.path h.source.queue hpath
    (fun p hp ↦ absurd (hk _ hp) (by simp [Effect.IsWrite]))
    fun x y hr ↦ absurd (hk _ hr) (by simp [Effect.IsWrite])
  have hse := h.pace.le_end
  exact ⟨e1, sent', log', ⟨hsrc, hpace⟩,
    ⟨hle, hsent, fun p hp ↦ hlog p (by omega) (h.pace.frozen p hp), .inl rfl⟩, hspan⟩

/-- A flush changes nothing about the stream. -/
theorem Sender.flush (h : t.Sender s b e sent log fin) :
    ∃ sent' fin', t.flush.1.Sender s b e sent' log fin' ∧
      Continues e sent log fin e sent' log fin' ∧
      (t.endOfStream = false → t.flush.1.endOfStream = false ∧ fin' = fin) := by
  obtain ⟨effs, hpath, hk⟩ := flush_path t b e
  obtain ⟨sent', fin', hs, hc, hopen⟩ := h.path hpath (fun eff heff ↦ by rw [hk eff heff]; rfl)
    (fun p hp ↦ absurd (hk _ hp) (by simp)) fun x y hr ↦ absurd (hk _ hr) (by simp)
  exact ⟨sent', fin', hs, hc, hopen fun eff heff ↦ by rw [hk eff heff]; exact id⟩

/-- A close ends the stream and leaves its control bit alone. -/
theorem Sender.close (h : t.Sender s b e sent log fin) :
    ∃ t' e' sent' fin', t.close = .ok t' ∧ t'.Sender s b e' sent' log fin' ∧
      Continues e sent log fin e' sent' log fin' ∧ t'.controlBit = t.controlBit := by
  obtain ⟨t', effs, e', hok, hpath, -, -, hk⟩ := close_path h.source.queue.spans
  obtain ⟨sent', fin', hs, hc, -⟩ := h.path hpath (fun eff heff ↦ (hk eff heff).bytes_eq)
    (fun p hp ↦ absurd (hk _ hp) (by simp [Effect.IsClose]))
    fun x y hr ↦ absurd (hk _ hr) (by simp [Effect.IsClose])
  exact ⟨t', e', sent', fin', hok, hs, hc, path_controlBit hpath⟩

/-- An acknowledgement of what was handed out. -/
theorem Sender.ack {q : Int} {seqId : BitVec 16} (h : t.Sender s b e sent log fin)
    (hq : t.outRing.restorePosHighBits seqId 12 = .ofPos q) (hl : b - 2048 ≤ q) (hu : q < b + 2048)
    (hsent : q ≤ sent) (controlBit : Bool) (bitmap : List UInt8) :
    ∃ t' rushed b' e' sent' fin', t.ack controlBit seqId bitmap = .ok (t', rushed) ∧
      t'.Sender s b' e' sent' log fin' ∧ Continues e sent log fin e' sent' log fin' ∧
      t'.controlBit = t.controlBit ∧ (t.endOfStream = false → t'.endOfStream = false ∧ fin' = fin) ∧
      b ≤ b' ∧ b' ≤ max b q := by
  obtain ⟨t', rushed, hok, hacking⟩ := ack_path h.source.queue.spans controlBit seqId bitmap
  cases hacking with
  | ignored =>
    exact ⟨t, rushed, b, e, sent, fin, hok, h, ⟨le_refl e, le_refl sent, fun _ _ ↦ rfl, .inl rfl⟩,
      rfl, fun heos ↦ ⟨heos, rfl⟩, le_refl b, le_max_left b q⟩
  | @applied _ q' e' effs _ _ hq' hl' hu' _ hpath hk _ =>
    obtain rfl : q = q' := (SeqNum.ofPos_eq (by omega) (by omega)).mp (hq.symm.trans hq')
    obtain ⟨sent', fin', hs, hc, hopen⟩ := h.path hpath (fun eff heff ↦ (hk eff heff).bytes_eq)
      (fun p hp ↦ lt_of_lt_of_le (hk _ hp) hsent) fun x y hr ↦ hk _ hr
    refine ⟨t', rushed, max b q, e', sent', fin', hok, hs, hc, path_controlBit hpath,
      hopen fun eff heff hends ↦ ?_, le_max_left b q, le_refl _⟩
    have hby := hk eff heff
    cases eff with
    | closeNow p => exact hby
    | closeLater => exact hby
    | _ => exact hends

/-- A mark changes nothing about the stream. -/
theorem Sender.updateRecvHimark (h : t.Sender s b e sent log fin) (controlBit : Bool)
    (recvHimark : BitVec 16) :
    ∃ sent' fin', (t.updateRecvHimark controlBit recvHimark).1.Sender s b e sent' log fin' ∧
      Continues e sent log fin e sent' log fin' ∧
      (t.updateRecvHimark controlBit recvHimark).1.controlBit = t.controlBit ∧
      (t.endOfStream = false →
        (t.updateRecvHimark controlBit recvHimark).1.endOfStream = false ∧ fin' = fin) := by
  rcases updateRecvHimark_path h.source.queue.spans controlBit recvHimark with heq | ⟨p, -, -, hm⟩
  · rw [heq]
    exact ⟨sent, fin, h, ⟨le_refl e, le_refl sent, fun _ _ ↦ rfl, .inl rfl⟩, rfl,
      fun heos ↦ ⟨heos, rfl⟩⟩
  · obtain ⟨sent', fin', hs, hc, hopen⟩ := h.path (.single hm) (by simp [Effect.bytes]) (by simp)
      (by simp)
    exact ⟨sent', fin', hs, hc, path_controlBit (.single hm), hopen (by simp [Effect.Ends])⟩

end

/-- A stream just connected has nothing queued. -/
theorem sender_setConnected {t t' : Transmitter n} {s : Int} {myStreamId : UInt32}
    (h : t.init myStreamId (.ofPos s) = .ok t') (peerReceiveBufferSize : Nat) (controlBit : Bool) :
    (t'.setConnected peerReceiveBufferSize controlBit).Sender s s s s (fun _ ↦ []) none := by
  rw [init_ok] at h
  cases h
  refine ⟨⟨⟨spans_new n s, fun p hl hu ↦ by omega, fun _ _ ↦ rfl, by simp, by simp [setConnected],
    by simp [setConnected], by simp [setConnected]⟩, ⟨spans_new n s, fun p hl hu ↦ by omega,
    by simp [setConnected]⟩, le_refl s, .inl rfl, by simp [setConnected], by simp⟩, ⟨le_refl s,
    le_refl s, fun p hp ↦ .inl hp, ⟨s, rfl, le_refl s, by omega⟩, fun _ ↦ .inr ?_⟩⟩
  exact fun i hi ↦ nomatch hi

end Transmitter

end RooTransport.Link
