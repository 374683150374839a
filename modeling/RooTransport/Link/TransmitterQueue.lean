import RooTransport.Base.Span
import RooTransport.Link.TransmitterHeader

/-!
# What the send queue holds

A log gives every position of a stream the bytes its packet holds. The packets of the
window hold what the log says, bytes are only added to the last packet while it is still
open, and the last packet of a closed stream is its final one (`transmitter.cpp:23–105`).
-/

namespace RooTransport.Link

open RooTransport.Base RingBuffer

namespace Transmitter

variable {n : LinkBufferSize}

/-- The window from `b` to `e` holds the bytes of `log`. -/
structure Queue (t : Transmitter n) (b e : Int) (log : Int → List UInt8) : Prop where
  spans : t.outRing.Spans b e
  content : ∀ p, b ≤ p → p < e → (t.bufferAt p).payload = log p
  beyond : ∀ p, e ≤ p → log p = []
  size : ∀ p, (log p).length ≤ 248
  /-- While the stream is open, a buffer is current only as the last one allocated. -/
  current : t.endOfStream = false → ∀ i, t.currentOutBuffer = some i → i = slotAt n (e - 1)
  pending : t.hasPendingEof = true → t.endOfStream = true
  fin : t.endOfStream = true → t.hasPendingEof = false → b < e →
    getPacketType (t.bufferAt (e - 1)).header = some .fin

/-- A packet of the stream that no byte can be added to any more: it was dropped, it is not
the last one, or it is finished. -/
def Frozen (t : Transmitter n) (b e p : Int) : Prop :=
  p < b ∨ p + 1 < e ∨ (t.bufferAt p).finished = true

/-- Bytes can only go to a packet of the window. -/
def Writable (t : Transmitter n) (b e : Int) : Prop :=
  b < e ∨ ∀ i, t.currentOutBuffer = some i → (t.outBuffers i).finished = true

/-- The window only moves forward. -/
theorem Moves.mono {t t' : Transmitter n} {b e b' e' : Int} {eff : Effect}
    (h : Moves (t, b, e) eff (t', b', e')) (hs : t.outRing.Spans b e) : b ≤ b' ∧ e ≤ e' := by
  have hle := hs.le
  cases h <;> omega

private theorem finished_update {slots : Slots n OutBuffer} {i j : Fin (2 ^ n.val)} {x : OutBuffer}
    (hx : (slots i).finished = true → x.finished = true) (hj : (slots j).finished = true) :
    (Function.update slots i x j).finished = true :=
  holds_update (P := fun x ↦ x.finished = true) hx hj

/-- A finished buffer stays finished unless its slot is opened again. -/
theorem Moves.finished {t t' : Transmitter n} {b e b' e' : Int} {eff : Effect}
    (h : Moves (t, b, e) eff (t', b', e')) (hne : ∀ p, eff ≠ .alloc p) {i : Fin (2 ^ n.val)}
    (hf : (t.outBuffers i).finished = true) : (t'.outBuffers i).finished = true := by
  cases h with
  | alloc => exact absurd rfl (hne e)
  | write i bytes _ _ hopen =>
    exact finished_update (fun hfin ↦ absurd (hopen.symm.trans hfin) (by simp)) hf
  | closeNow | lateEos | finish => exact finished_update (fun _ ↦ rfl) hf
  | send => exact finished_update (fun _ ↦ finishBuffer_finished _) hf
  | flush | skip | rush => exact finished_update (fun hfin ↦ hfin) hf
  | stray p x _ _ _ _ _ _ hx => exact finished_update (fun _ ↦ hx) hf
  | release | closeLater | pop | himark | reset | calm => exact hf

/-- A frozen packet of the stream stays frozen. -/
theorem Moves.frozen {t t' : Transmitter n} {b e b' e' p : Int} {eff : Effect}
    (h : Moves (t, b, e) eff (t', b', e')) (hs : t.outRing.Spans b e) (hp : p < e)
    (hf : t.Frozen b e p) : t'.Frozen b' e' p := by
  have hmono := h.mono hs
  rcases hf with hlt | hlt | hf
  · exact .inl (by omega)
  · exact .inr (.inl (by omega))
  by_cases hb : p < b'
  · exact .inl hb
  refine .inr (.inr ?_)
  by_cases halloc : ∃ q, eff = .alloc q
  · obtain ⟨q, rfl⟩ := halloc
    cases h with
    | alloc ring _ _ _ _ hroom =>
      exact (congrArg OutBuffer.finished
        (bufferAt_withBuffer_ne t _ (by omega) (by omega) (by omega))).trans hf
  · exact h.finished (fun q hq ↦ halloc ⟨q, hq⟩) hf

/-! ### One effect -/

section

variable {t t' : Transmitter n} {b e : Int} {log : Int → List UInt8}

/-- What keeps the packets' bytes and headers and adds no current buffer keeps the queue. -/
theorem Queue.congr (h : t.Queue b e log) (hring : t'.outRing = t.outRing)
    (heos : t'.endOfStream = t.endOfStream) (hpend : t'.hasPendingEof = t.hasPendingEof)
    (hcur : ∀ i, t'.currentOutBuffer = some i → t.currentOutBuffer = some i)
    (hpay : ∀ i, (t'.outBuffers i).payload = (t.outBuffers i).payload)
    (hhead : ∀ i, (t'.outBuffers i).header = (t.outBuffers i).header) : t'.Queue b e log where
  spans := hring ▸ h.spans
  content p hl hu := (hpay _).trans (h.content p hl hu)
  beyond := h.beyond
  size := h.size
  current ho i hi := h.current (heos ▸ ho) i (hcur i hi)
  pending hp := heos ▸ h.pending (hpend ▸ hp)
  fin he hp hlt := (congrArg getPacketType (hhead _)).trans (h.fin (heos ▸ he) (hpend ▸ hp) hlt)

private theorem Queue.push {x : OutBuffer} (h : t.Queue b e log) (hroom : e < b + 2 ^ n.val)
    (hs : t'.outRing.Spans b (e + 1)) (hbuf : t'.outBuffers = (t.withBuffer e x).outBuffers)
    (hx : x.payload = [])
    (hcur : t'.endOfStream = false → ∀ i, t'.currentOutBuffer = some i → i = slotAt n e)
    (hpend : t'.hasPendingEof = true → t'.endOfStream = true)
    (hfin : t'.endOfStream = true → t'.hasPendingEof = false →
      getPacketType x.header = some .fin) : t'.Queue b (e + 1) log := by
  have hnew : t'.bufferAt e = x := by
    rw [bufferAt, hbuf]
    exact bufferAt_withBuffer t e x
  have hlast : e + 1 - 1 = e := by omega
  refine ⟨hs, fun p hl hu ↦ ?_, fun p hp ↦ h.beyond p (by omega), h.size, ?_, hpend, ?_⟩
  · obtain ⟨rfl, heq⟩ | ⟨hlt, heq⟩ := bufferAt_pushed hbuf hroom hl hu
    · rw [heq, hx, h.beyond p (le_refl p)]
    · rw [heq]
      exact h.content p hl hlt
  · rw [hlast]
    exact hcur
  · rw [hlast, hnew]
    exact fun he hp _ ↦ hfin he hp

private theorem Queue.write {i : Fin (2 ^ n.val)} {bytes : List UInt8} (h : t.Queue b e log)
    (hlt : b < e) (ho : t.Open) (hi : t.currentOutBuffer = some i)
    (hfit : (t.outBuffers i).payload.length + bytes.length ≤ 248)
    (hring : t'.outRing = t.outRing) (heos : t'.endOfStream = t.endOfStream)
    (hpend : t'.hasPendingEof = t.hasPendingEof)
    (hcur : ∀ j, t'.currentOutBuffer = some j → j = i)
    (hbuf : t'.outBuffers = Function.update t.outBuffers i ((t.outBuffers i).extended bytes)) :
    t'.Queue b e (Function.update log (e - 1) (log (e - 1) ++ bytes)) := by
  have hslot : i = slotAt n (e - 1) := h.current ho.1 i hi
  have hus := h.spans.used
  have hcontent : (t.outBuffers i).payload = log (e - 1) := by
    rw [hslot]
    exact h.content (e - 1) (by omega) (by omega)
  refine ⟨hring ▸ h.spans, fun p hl hu ↦ ?_, fun p hp ↦ ?_, fun p ↦ ?_,
    fun _ j hj ↦ (hcur j hj).trans hslot, fun hp ↦ heos ▸ h.pending (hpend ▸ hp), fun he _ _ ↦ ?_⟩
  · by_cases hp : p = e - 1
    · rw [hp, Function.update_self, bufferAt, hbuf, ← hslot, Function.update_self,
        OutBuffer.payload_extended, hcontent]
    · rw [Function.update_of_ne hp, ← h.content p hl hu, bufferAt, hbuf, hslot,
        Function.update_of_ne (slotAt_ne hp (by omega) (by omega))]
      rfl
  · rw [Function.update_of_ne (by omega)]
    exact h.beyond p hp
  · by_cases hp : p = e - 1
    · rw [hp, Function.update_self, List.length_append, ← hcontent]
      exact hfit
    · rw [Function.update_of_ne hp]
      exact h.size p
  · rw [heos, ho.1] at he
    cases he

private theorem Queue.emptied (h : t.Queue b e log) (hs : t'.outRing.Spans e e)
    (hcur : t'.currentOutBuffer = none) (hpend : t'.hasPendingEof = false) :
    t'.Queue e e log where
  spans := hs
  content p hl hu := by omega
  beyond := h.beyond
  size := h.size
  current _ i hi := by rw [hcur] at hi; cases hi
  pending hp := by rw [hpend] at hp; cases hp
  fin _ _ hlt := by omega

private theorem type_eos (pos : SeqNum) (controlBit : Bool) :
    getPacketType (OutBuffer.init pos controlBit).markFinal.finish.header = some .fin := by
  simp [OutBuffer.finish, OutBuffer.markFinal, OutBuffer.init]

/-- An effect that takes no bytes in keeps the queue for the same log. -/
theorem Queue.keeps {b' e' : Int} {eff : Effect} (h : t.Queue b e log)
    (hm : Moves (t, b, e) eff (t', b', e')) (hb : eff.bytes = []) : t'.Queue b' e' log := by
  cases hm with
  | alloc ring ho _ _ _ hroom hr =>
    exact h.push hroom hr rfl rfl (fun _ i hi ↦ (Option.some.inj hi).symm) h.pending
      fun he ↦ absurd (ho.1.symm.trans he) (by simp)
  | write i bytes _ _ _ hne => exact absurd hb hne
  | closeNow ring ho hroom hr =>
    exact h.push hroom hr rfl rfl (by simp) (fun _ ↦ rfl) fun _ _ ↦ type_eos _ _
  | closeLater ho =>
    exact ⟨h.spans, h.content, h.beyond, h.size, by simp, fun _ ↦ rfl, by simp⟩
  | lateEos ring hpend hroom hr =>
    have heos := h.pending hpend
    exact h.push hroom hr rfl rfl (fun ho ↦ absurd (heos.symm.trans ho) (by simp))
      (fun _ ↦ heos) fun _ _ ↦ type_eos _ _
  | pop ring _ hlt hr =>
    exact ⟨hr, fun p hl hu ↦ h.content p (by omega) hu, h.beyond, h.size, h.current, h.pending,
      fun he hp _ ↦ h.fin he hp hlt⟩
  | reset ring hr => exact h.emptied hr rfl rfl
  | release => exact h.congr rfl rfl rfl (fun _ hi ↦ nomatch hi) (fun _ ↦ rfl) fun _ ↦ rfl
  | himark | calm => exact h.congr rfl rfl rfl (fun _ hi ↦ hi) (fun _ ↦ rfl) fun _ ↦ rfl
  | flush | finish | skip | rush =>
    exact h.congr rfl rfl rfl (fun _ hi ↦ hi) (field_update OutBuffer.payload rfl)
      (field_update OutBuffer.header rfl)
  | send =>
    exact h.congr rfl rfl rfl (fun _ hi ↦ hi)
      (field_update OutBuffer.payload (finishBuffer_payload _))
      (field_update OutBuffer.header (finishBuffer_header _))
  | stray p x _ _ _ _ hhead hpay =>
    exact h.congr rfl rfl rfl (fun _ hi ↦ hi) (field_update OutBuffer.payload hpay)
      (field_update OutBuffer.header hhead)

/-- Writing to a packet of the window adds to the log at that packet, which was not frozen. -/
theorem Queue.moves_write {b' e' : Int} {bytes : List UInt8} (h : t.Queue b e log)
    (hm : Moves (t, b, e) (.write bytes) (t', b', e')) (hw : t.Writable b e) :
    b < e ∧ ¬ t.Frozen b e (e - 1) ∧ b' = b ∧ e' = e ∧
      t'.Queue b e (Function.update log (e - 1) (log (e - 1) ++ bytes)) := by
  cases hm with
  | write i _ ho hi hopen _ hfit =>
    have hslot : i = slotAt n (e - 1) := h.current ho.1 i hi
    have hlt : b < e := hw.resolve_right fun hall ↦ by
      rw [hall i hi] at hopen
      cases hopen
    refine ⟨hlt, fun hf ↦ ?_, rfl, rfl, h.write hlt ho hi hfit rfl rfl rfl (fun j hj ↦ ?_) rfl⟩
    · rcases hf with hf | hf | hf
      · omega
      · omega
      · rw [bufferAt, ← hslot, hopen] at hf
        cases hf
    · dsimp only at hj
      split at hj
      · cases hj
      · exact (Option.some.inj hj).symm

private theorem span_write {s : Int} {bytes : List UInt8} (hs : s ≤ b) (hlt : b < e) :
    span (Function.update log (e - 1) (log (e - 1) ++ bytes)) s e = span log s e ++ bytes := by
  obtain ⟨k, rfl⟩ : ∃ k, e = k + 1 := ⟨e - 1, by omega⟩
  rw [add_sub_cancel_right, span_succ _ (by omega), span_succ _ (by omega), Function.update_self,
    List.append_assoc]
  exact congrArg (· ++ _) (span_congr fun p _ hp ↦ Function.update_of_ne (by omega) ..)

/-- Packets queued since hold nothing, so a later end gives the same bytes. -/
theorem Queue.span_eq {s e' : Int} (h : t.Queue b e log) (hs : s ≤ e) (he : e ≤ e') :
    span log s e' = span log s e := by
  rw [← span_append log hs he]
  have hnil : span log e e' = [] := by
    rw [span, List.flatMap_eq_nil_iff]
    exact fun i _ ↦ h.beyond _ (by omega)
  rw [hnil, List.append_nil]

end

/-! ### Whole operations -/

section

variable {t t' : Transmitter n} {b e b' e' : Int} {log : Int → List UInt8} {effs : List Effect}

/-- What an operation that takes no bytes in leaves behind. -/
theorem Queue.path (h : t.Queue b e log) (hp : Path Moves (t, b, e) effs (t', b', e'))
    (hb : ∀ eff ∈ effs, eff.bytes = []) : t'.Queue b' e' log :=
  hp.invariant (fun x ↦ x.1.Queue x.2.1 x.2.2 log)
    (fun _ eff _ heff h hm ↦ h.keeps hm (hb eff heff)) h

/-- The window only moves forward. -/
theorem path_mono (hp : Path Moves (t, b, e) effs (t', b', e')) (hs : t.outRing.Spans b e) :
    b ≤ b' ∧ e ≤ e' :=
  (hp.invariant (fun x ↦ x.1.outRing.Spans x.2.1 x.2.2 ∧ b ≤ x.2.1 ∧ e ≤ x.2.2)
    (fun _ _ _ _ hx hm ↦ ⟨hm.spans hx.1, hx.2.1.trans (hm.mono hx.1).1,
      hx.2.2.trans (hm.mono hx.1).2⟩) ⟨hs, le_refl b, le_refl e⟩).2

/-- A finished packet stays so until its slot is used again. -/
theorem path_finished (hp : Path Moves (t, b, e) effs (t', b', e'))
    (hk : ∀ eff ∈ effs, ∀ p, eff ≠ .alloc p) {i : Fin (2 ^ n.val)}
    (hf : (t.outBuffers i).finished = true) : (t'.outBuffers i).finished = true :=
  hp.invariant (fun x ↦ (x.1.outBuffers i).finished = true)
    (fun _ eff _ heff hx hm ↦ hm.finished (hk eff heff) hx) hf

/-- The queue part way through `tryWrite`, `taken` the bytes it has taken in so far. -/
structure Written (t : Transmitter n) (b e : Int) (log : Int → List UInt8)
    (t1 : Transmitter n) (e1 : Int) (taken : List UInt8) : Prop where
  end_le : e ≤ e1
  writable : t1.Writable b e1
  queue : ∃ log', t1.Queue b e1 log' ∧
    (∀ s, s ≤ b → span log' s e1 = span log s e ++ taken) ∧
    ∀ p, p < e → t.Frozen b e p → log' p = log p ∧ t1.Frozen b e1 p

private theorem Written.step {t1 t2 : Transmitter n} {e1 b2 e2 : Int} {taken : List UInt8}
    {eff : Effect} (h : Written t b e log t1 e1 taken) (hk : eff.IsWrite)
    (hm : Moves (t1, b, e1) eff (t2, b2, e2)) :
    b2 = b ∧ Written t b e log t2 e2 (taken ++ eff.bytes) := by
  obtain ⟨he, hw, log1, hq, hspan, hf⟩ := h
  have hfrozen : ∀ p, p < e → t.Frozen b e p → t2.Frozen b2 e2 p := fun p hp hfp ↦
    hm.frozen hq.spans (by omega) (hf p hp hfp).2
  have hle := hq.spans.le
  have hmono := hm.mono hq.spans
  cases eff with
  | alloc q =>
    have hq' := hq.keeps hm rfl
    have hb : b2 = b ∧ b2 < e2 := by cases hm; omega
    obtain ⟨rfl, hlt⟩ := hb
    refine ⟨rfl, by omega, .inl hlt, log1, hq', fun s hs ↦ ?_,
      fun p hp hfp ↦ ⟨(hf p hp hfp).1, hfrozen p hp hfp⟩⟩
    rw [hq.span_eq (by omega) hmono.2, hspan s hs]
    simp [Effect.bytes]
  | write bytes =>
    obtain ⟨hlt, hopen, rfl, rfl, hq'⟩ := hq.moves_write hm hw
    refine ⟨rfl, he, .inl hlt, _, hq', fun s hs ↦ ?_, fun p hp hfp ↦ ⟨?_, hfrozen p hp hfp⟩⟩
    · rw [span_write hs hlt, hspan s hs, List.append_assoc]
      rfl
    · rw [Function.update_of_ne]
      · exact (hf p hp hfp).1
      · rintro rfl
        exact hopen (hf _ hp hfp).2
  | release =>
    have hq' := hq.keeps hm rfl
    have hb : b2 = b ∧ e2 = e1 ∧ t2.currentOutBuffer = none := by cases hm; exact ⟨rfl, rfl, rfl⟩
    obtain ⟨rfl, rfl, hnone⟩ := hb
    refine ⟨rfl, he, .inr fun i hi ↦ ?_, log1, hq', fun s hs ↦ ?_,
      fun p hp hfp ↦ ⟨(hf p hp hfp).1, hfrozen p hp hfp⟩⟩
    · rw [hnone] at hi
      cases hi
    · rw [hspan s hs]
      simp [Effect.bytes]
  | _ => exact absurd hk (by simp [Effect.IsWrite])

/-- `tryWrite` adds what it takes to the stream and leaves frozen packets alone. -/
theorem Queue.tryWrite {buf : List UInt8} {written : Nat} {ready : Bool} (h : t.Queue b e log)
    (hw : t.Writable b e) (hok : t.tryWrite buf = .ok (t', written, ready)) :
    ∃ e' log', t'.Queue b e' log' ∧ e ≤ e' ∧ t'.Writable b e' ∧
      (∀ s, s ≤ b → span log' s e' = span log s e ++ buf.take written) ∧
      ∀ p, p < e → t.Frozen b e p → log' p = log p ∧ t'.Frozen b e' p := by
  obtain ⟨-, effs, e', hpath, hbytes, hk⟩ := tryWrite_path h.spans hok
  have hstart : Written t b e log t e [] :=
    ⟨le_refl e, hw, log, h, by simp, fun p _ hf ↦ ⟨rfl, hf⟩⟩
  have hend := hpath.keeps (fun taken eff ↦ taken ++ eff.bytes)
    (fun x taken ↦ x.2.1 = b ∧ Written t b e log x.1 x.2.2 taken)
    (fun x eff y taken heff hx hm ↦ ?_) ⟨rfl, hstart⟩
  · rw [List.foldl_append_eq_append, ← List.flatMap_def, hbytes, List.nil_append] at hend
    obtain ⟨-, he, hw', log', hq, hspan, hf⟩ := hend
    exact ⟨e', log', hq, he, hw', hspan, hf⟩
  · obtain ⟨t1, b1, e1⟩ := x
    obtain ⟨rfl, hx⟩ := hx
    exact hx.step (hk eff heff) hm

end

end Transmitter

end RooTransport.Link
