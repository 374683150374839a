import RooTransport.Link.TransmitterHeader

/-!
# The checks of the transmitter

`tryWrite` insists that `recv_himark_` is not behind the end of the window
(`transmitter.cpp:31`) and that an unfinished buffer has room (`out_buffer.h:38`). Both
follow from an account of the credit that every elementary effect keeps, and that
survives the life of a connection, from `init` over `setConnected` to `setBroken` and
`reset`.
-/

namespace RooTransport.Link

open RooTransport.Base RingBuffer

/-- Where the credit reaches after an effect. -/
def Effect.himarkAfter (h : Int) : Effect → Int
  | .himark k => k
  | _ => h

/-- Only a mark moves the credit. -/
theorem foldl_himarkAfter {effs : List Effect} (hk : ∀ k, .himark k ∉ effs) (h : Int) :
    effs.foldl Effect.himarkAfter h = h := by
  induction effs with
  | nil => rfl
  | cons eff rest ih =>
    have hstay : eff.himarkAfter h = h := by
      cases eff with
      | himark k => exact absurd (List.mem_cons_self ..) (hk k)
      | _ => rfl
    rw [List.foldl_cons, hstay]
    exact ih fun k hmem ↦ hk k (List.mem_cons_of_mem _ hmem)

namespace Transmitter

variable {n : LinkBufferSize}

/-- The credit reaches up to `h`. What is queued ends there, but for the final packet. -/
structure Credit (t : Transmitter n) (e h : Int) : Prop where
  himark_eq : t.recvHimark = .ofPos h
  size_le : t.peerReceiveBufferSize ≤ 1024
  pending : t.hasPendingEof = true → t.endOfStream = true
  end_le : e ≤ h + 1
  open_le : t.Open ∨ t.hasPendingEof = true → e ≤ h
  le_end : h ≤ e + 1024

section

variable {t t' : Transmitter n} {b e b' e' h : Int}

/-- Every elementary effect keeps the account of the credit. -/
theorem Credit.moves {eff : Effect} (hc : t.Credit e h) (hs : t.outRing.Spans b e)
    (hm : Moves (t, b, e) eff (t', b', e')) : t'.Credit e' (eff.himarkAfter h) := by
  have hcap := capacity_le n
  have hus := hs.used
  have hle := hs.le
  have hend := hc.end_le
  have hfar := hc.le_end
  have hsize := hc.size_le
  cases hm with
  | alloc ring ho _ hge hne =>
    simp only [Effect.himarkAfter]
    have hroom : e ≤ h := hc.open_le (.inl ho)
    rw [hc.himark_eq, hs.end_eq, ne_eq, SeqNum.ofPos_eq (by omega) (by omega)] at hne
    exact ⟨hc.himark_eq, hsize, hc.pending, by omega, fun _ ↦ by omega, by omega⟩
  | closeNow ring ho =>
    simp only [Effect.himarkAfter]
    have hroom : e ≤ h := hc.open_le (.inl ho)
    refine ⟨hc.himark_eq, hsize, fun _ ↦ rfl, by omega, ?_, by omega⟩
    rintro (ho' | hp)
    · exact absurd ho'.1 (by simp)
    · exact absurd ((hc.pending hp).symm.trans ho.1) (by simp)
  | closeLater ho =>
    exact ⟨hc.himark_eq, hsize, fun _ ↦ rfl, hend, fun _ ↦ hc.open_le (.inl ho), hfar⟩
  | lateEos ring hp =>
    simp only [Effect.himarkAfter]
    have hroom : e ≤ h := hc.open_le (.inr hp)
    refine ⟨hc.himark_eq, hsize, fun hp' ↦ absurd hp' (by simp), by omega, ?_, by omega⟩
    rintro (ho | hp')
    · exact absurd ((hc.pending hp).symm.trans ho.1) (by simp)
    · exact absurd hp' (by simp)
  | @himark _ _ _ k hst hl hu hge hle' =>
    simp only [Effect.himarkAfter]
    rw [hc.himark_eq, SeqNum.ofPos_lt (by omega) (by omega)] at hge
    rw [hs.end_eq, SeqNum.ofPos_add, SeqNum.ofPos_gt (by omega) (by omega)] at hle'
    exact ⟨rfl, hsize, hc.pending, by omega, fun ho ↦ by have := hc.open_le ho; omega, by omega⟩
  | reset =>
    refine ⟨hc.himark_eq, hsize, fun hp ↦ absurd hp (by simp), hend, ?_, hfar⟩
    rintro (ho | hp)
    · exact absurd rfl ho.2.1
    · exact absurd hp (by simp)
  | calm =>
    refine ⟨hc.himark_eq, hsize, hc.pending, hend, ?_, hfar⟩
    rintro (ho | hp)
    · exact absurd rfl ho.2.1
    · exact hc.open_le (.inr hp)
  | _ => exact ⟨hc.himark_eq, hsize, hc.pending, hend, hc.open_le, hfar⟩

/-- A sequence of effects moves the credit to its last mark. -/
theorem Credit.path {effs : List Effect} (hc : t.Credit e h) (hs : t.outRing.Spans b e)
    (hp : Path Moves (t, b, e) effs (t', b', e')) :
    t'.Credit e' (effs.foldl Effect.himarkAfter h) :=
  (hp.keeps Effect.himarkAfter (fun x k ↦ x.1.outRing.Spans x.2.1 x.2.2 ∧ x.1.Credit x.2.2 k)
    (fun _ _ _ _ _ ⟨hs1, hc1⟩ hm ↦ ⟨hm.spans hs1, hc1.moves hs1 hm⟩) ⟨hs, hc⟩).2

end

/-- Until it is connected, a stream has no credit and queues at most the final packet. -/
def Early (t : Transmitter n) (b e : Int) : Prop :=
  t.state = .connecting → t.recvHimark = .ofPos b ∧ t.hasPendingEof = false ∧
    (e = b ∨ e = b + 1 ∧ t.endOfStream = true)

/-- What keeps the transmitter, its window spanning `b` to `e`, from failing a check. -/
structure Checked (t : Transmitter n) (b e : Int) : Prop where
  spans : t.outRing.Spans b e
  credit : ∃ h, t.Credit e h
  room : ∀ i, (t.outBuffers i).finished = true ∨ (t.outBuffers i).payload.length < 248
  early : t.Early b e

section

variable {t t' : Transmitter n} {b e b' e' : Int} {eff : Effect}

/-- A buffer is written to until it is full, and finished then. -/
theorem Moves.room (hm : Moves (t, b, e) eff (t', b', e'))
    (hr : ∀ i, (t.outBuffers i).finished = true ∨ (t.outBuffers i).payload.length < 248) :
    ∀ i, (t'.outBuffers i).finished = true ∨ (t'.outBuffers i).payload.length < 248 := by
  have hupd {j : Fin (2 ^ n.val)} {x : OutBuffer} (hx : x.finished = true ∨ x.payload.length < 248)
      (i : Fin (2 ^ n.val)) : (Function.update t.outBuffers j x i).finished = true ∨
        (Function.update t.outBuffers j x i).payload.length < 248 :=
    holds_update (P := fun y ↦ y.finished = true ∨ y.payload.length < 248) (fun _ ↦ hx) (hr i)
  cases hm with
  | alloc => exact hupd (.inr (by simp [OutBuffer.init]))
  | write i bytes _ _ _ _ hlen =>
    refine hupd ?_
    by_cases hfull : (t.outBuffers i).payload.length + bytes.length = 248
    · exact .inl (by simp [OutBuffer.extended, hfull])
    · exact .inr (by rw [OutBuffer.payload_extended, List.length_append]; omega)
  | release => exact hr
  | flush i => exact hupd (hr i)
  | closeNow => exact hupd (.inl rfl)
  | closeLater => exact hr
  | lateEos => exact hupd (.inl rfl)
  | finish => exact hupd (.inl rfl)
  | send => exact hupd (.inl (finishBuffer_finished _))
  | pop => exact hr
  | @skip _ _ _ p => exact hupd (hr (slotAt n p))
  | @rush _ _ _ p => exact hupd (hr (slotAt n p))
  | himark => exact hr
  | reset => exact hr
  | calm => exact hr
  | stray p x _ _ _ _ _ _ hf => exact hupd (.inl hf)

/-- Every effect leaves a stream that is not connected without credit. -/
theorem Early.moves (h : t.Early b e) (hs : t.outRing.Spans b e)
    (hm : Moves (t, b, e) eff (t', b', e')) : t'.Early b' e' := by
  have hone := one_le_capacity n
  cases hm with
  | alloc ring ho _ _ hne =>
    intro hst
    obtain ⟨hhi, -, rfl | ⟨-, heos⟩⟩ := h hst
    · exact absurd (hhi.trans hs.end_eq.symm) hne
    · exact absurd (ho.1.symm.trans heos) (by decide)
  | closeNow ring ho =>
    intro hst
    obtain ⟨hhi, hp, rfl | ⟨-, heos⟩⟩ := h hst
    · exact ⟨hhi, hp, .inr ⟨rfl, rfl⟩⟩
    · exact absurd (ho.1.symm.trans heos) (by decide)
  | closeLater ho hfull =>
    intro hst
    obtain ⟨-, -, rfl | ⟨-, heos⟩⟩ := h hst
    · omega
    · exact absurd (ho.1.symm.trans heos) (by decide)
  | lateEos ring hp =>
    intro hst
    exact absurd (hp.symm.trans (h hst).2.1) (by decide)
  | pop ring hst => intro hst'; exact absurd (hst.symm.trans hst') (by decide)
  | himark hst => intro hst'; exact absurd (hst.symm.trans hst') (by decide)
  | reset => exact fun hst ↦ nomatch hst
  | calm => exact fun hst ↦ nomatch hst
  | _ => exact h

/-- Every elementary effect keeps the transmitter from failing a check. -/
theorem Checked.moves (h : t.Checked b e) (hm : Moves (t, b, e) eff (t', b', e')) :
    t'.Checked b' e' := by
  obtain ⟨k, hc⟩ := h.credit
  exact ⟨hm.spans h.spans, ⟨_, hc.moves h.spans hm⟩, hm.room h.room,
    h.early.moves h.spans hm⟩

/-- Every sequence of effects keeps the checks met. -/
theorem Checked.path {effs : List Effect} (h : t.Checked b e)
    (hp : Path Moves (t, b, e) effs (t', b', e')) : t'.Checked b' e' :=
  hp.invariant (fun x ↦ x.1.Checked x.2.1 x.2.2) (fun _ _ _ _ h hm ↦ h.moves hm) h

/-- An open stream has its credit at the end of the window or past it. -/
theorem Checked.himark_ge (h : t.Checked b e) (ho : t.Open) : t.recvHimark.Ge t.outRing.end_ := by
  obtain ⟨k, hc⟩ := h.credit
  have hle := hc.open_le (.inl ho)
  have hfar := hc.le_end
  rw [hc.himark_eq, h.spans.end_eq, SeqNum.ofPos_ge (by omega) (by omega)]
  exact hle

end

/-! ### No operation fails a check -/

private theorem Checked.provideBuffer {t : Transmitter n} {b e : Int} (h : t.Checked b e)
    (ho : t.Open) : ∃ out, t.provideBuffer = .ok out := by
  unfold Transmitter.provideBuffer
  rw [if_neg (not_not.mpr (h.himark_ge ho))]
  split
  · exact ⟨_, rfl⟩
  split
  · exact ⟨_, rfl⟩
  split
  · exact ⟨_, rfl⟩
  next hfree =>
  have hroom : e < b + 2 ^ n.val := by
    have := h.spans.slotsFree_eq
    omega
  obtain ⟨ring, hp, -⟩ := h.spans.push_ok hroom
  rw [hp]
  exact ⟨_, rfl⟩

private theorem Checked.fill {t : Transmitter n} {b e : Int} (h : t.Checked b e)
    (i : Fin (2 ^ n.val)) (buf : List UInt8) : ∃ out, t.fill i buf = .ok out := by
  obtain ⟨out, hw⟩ := OutBuffer.write_total (t.outBuffers i) buf (h.room i)
  rw [Transmitter.fill, hw]
  exact ⟨_, rfl⟩

private theorem Checked.tryWriteLoop (fuel : Nat) : ∀ {t : Transmitter n} {b e : Int}
    {buf : List UInt8}, t.Checked b e → t.Open → buf ≠ [] →
      ∃ out, tryWriteLoop fuel t buf = .ok out := by
  induction fuel with
  | zero => intro t b e buf _ _ _; exact ⟨_, rfl⟩
  | succ fuel ih =>
    intro t b e buf h ho hne
    rw [Transmitter.tryWriteLoop]
    obtain ⟨- | ⟨i, t1⟩, hp⟩ := h.provideBuffer ho
    · rw [hp]
      exact ⟨_, rfl⟩
    obtain ⟨effs, e1, hpath, hcur, ho1, -, -⟩ := provideBuffer_path h.spans ho hp
    have h1 := h.path hpath
    obtain ⟨⟨t2, written, ready⟩, hf⟩ := h1.fill i buf
    obtain ⟨-, ho2, eff, hm, -, -⟩ := fill_move (b := b) (e := e1) ho1 hcur hne hf
    rw [hp]
    simp only [hf]
    split
    · next hlt =>
      have hdrop : buf.drop written ≠ [] := by
        rw [ne_eq, List.drop_eq_nil_iff]
        omega
      obtain ⟨⟨t3, more, ready'⟩, hl⟩ := ih (h1.moves hm) ho2 hdrop
      rw [hl]
      exact ⟨_, rfl⟩
    · exact ⟨_, rfl⟩

/-- A write meets its checks. -/
theorem Checked.tryWrite {t : Transmitter n} {b e : Int} (h : t.Checked b e) (buf : List UInt8) :
    ∃ out, t.tryWrite buf = .ok out := by
  unfold Transmitter.tryWrite
  split
  · exact ⟨_, rfl⟩
  next hlen =>
  split
  · exact ⟨_, rfl⟩
  next heos =>
  split
  · exact ⟨_, rfl⟩
  next hst =>
  rw [not_or] at hst
  exact h.tryWriteLoop _ ⟨by simpa using heos, hst⟩ (fun hnil ↦ hlen (by rw [hnil]; rfl))

/-- A transmitter is connected once in the life of a stream, to a peer with a supported
buffer size. -/
def ConnectsOnce (t : Transmitter n) : Act → Prop
  | .setConnected size _ => t.state = .connecting ∧ size ≤ 1024
  | _ => True

/-- A stream that begins meets the checks. -/
theorem Checked.init {t : Transmitter n} {b e : Int} (h : t.Checked b e) (id : UInt32)
    (p : Int) : ({ t with
      myStreamId := id
      state := .connecting
      endOfStream := false
      outRing := RingBuffer.new n (.ofPos p)
      recvHimark := .ofPos p
      nextToSend := .ofPos p
      currentOutBuffer := none
      hasPendingEof := false } : Transmitter n).Checked p p := by
  obtain ⟨k, hc⟩ := h.credit
  refine ⟨spans_new n p, ⟨p, rfl, hc.size_le, (fun hp ↦ nomatch hp), by omega, fun _ ↦ le_refl p,
    by omega⟩, h.room, fun _ ↦ ⟨rfl, rfl, .inl rfl⟩⟩

/-- The stream was not connected: at most its final packet is queued. -/
structure Fresh (t : Transmitter n) (b e : Int) : Prop where
  state : t.state ≠ .connected
  pending : t.hasPendingEof = false
  queued : e = b ∨ e = b + 1 ∧ t.endOfStream = true

/-- A stream that waits to be connected is fresh. -/
theorem Checked.fresh {t : Transmitter n} {b e : Int} (h : t.Checked b e)
    (hst : t.state = .connecting) : t.Fresh b e := by
  obtain ⟨-, hpend, hend⟩ := h.early hst
  exact ⟨by simp [hst], hpend, hend⟩

/-- Connecting a fresh stream keeps the checks met. -/
theorem Checked.setConnected {t : Transmitter n} {b e : Int} (h : t.Checked b e)
    (hfresh : t.Fresh b e) {size : Nat} (hsize : size ≤ 1024) (controlBit : Bool) :
    (t.setConnected size controlBit).Checked b e := by
  have hpend := hfresh.pending
  have hend := hfresh.queued
  refine ⟨h.spans, ⟨b + size, ?_, hsize, ?_, by omega, ?_, by omega⟩, h.room,
    (fun hst' ↦ nomatch hst')⟩
  · dsimp only [Transmitter.setConnected]
    rw [h.spans.begin_eq, SeqNum.ofPos_add]
  · exact fun hp ↦ absurd (hp.symm.trans hpend) (by decide)
  · rintro (ho | hp)
    · rcases hend with rfl | ⟨-, heos⟩
      · omega
      · exact absurd (ho.1.symm.trans heos) (by decide)
    · exact absurd (hp.symm.trans hpend) (by decide)

/-- A broken stream meets the checks. -/
theorem Checked.setBroken {t : Transmitter n} {b e : Int} (h : t.Checked b e) :
    ({ t with outRing := RingBuffer.new n (.ofPos e), state := .broken } : Transmitter n).Checked
      e e := by
  obtain ⟨k, hc⟩ := h.credit
  refine ⟨spans_new n e, ⟨k, hc.himark_eq, hc.size_le, hc.pending, hc.end_le, ?_, hc.le_end⟩,
    h.room, (fun hst ↦ nomatch hst)⟩
  rintro (ho | hp)
  · exact absurd rfl ho.2.2
  · exact hc.open_le (.inr hp)

/-- No call fails a check. -/
theorem Checked.total {t : Transmitter n} {b e : Int} (h : t.Checked b e) (a : Act) :
    ∃ t', t.step a = .ok t' := by
  cases a with
  | init id start => exact ⟨_, t.init_ok id start⟩
  | tryWrite buf =>
    obtain ⟨out, hw⟩ := h.tryWrite buf
    exact ⟨_, map_eq_ok.mpr ⟨out, hw, rfl⟩⟩
  | close =>
    obtain ⟨t', -, -, hc, -⟩ := close_path h.spans
    exact ⟨t', hc⟩
  | ack controlBit seqId bitmap =>
    obtain ⟨t', rushed, hack, -⟩ := ack_path h.spans controlBit seqId bitmap
    exact ⟨t', map_eq_ok.mpr ⟨_, hack, rfl⟩⟩
  | setBroken => exact ⟨_, setBroken_ok h.spans⟩
  | reset =>
    obtain ⟨t', hr, -⟩ := reset_ok h.spans
    exact ⟨t', hr⟩
  | setConnected => exact ⟨_, rfl⟩
  | flush => exact ⟨_, rfl⟩
  | getBufferToSend => exact ⟨_, rfl⟩
  | updateRecvHimark => exact ⟨_, rfl⟩

/-- No call fails a check, and none paves the way for a later one to fail. -/
theorem Checked.step {t : Transmitter n} {b e : Int} (h : t.Checked b e) {a : Act}
    (hg : ConnectsOnce t a) : Yields (t.step a) fun t' ↦ ∃ b' e', t'.Checked b' e' := by
  refine .of_ok (h.total a) fun t' hstep ↦ ?_
  cases step_spec h.spans hstep with
  | init id start =>
    rw [← SeqNum.ofPos_raw start]
    exact ⟨_, _, h.init id _⟩
  | connected size controlBit => exact ⟨b, e, h.setConnected (h.fresh hg.1) hg.2 controlBit⟩
  | broken => exact ⟨e, e, h.setBroken⟩
  | moved effs hpath => exact ⟨_, _, h.path hpath⟩

/-- A new transmitter meets the checks. -/
theorem checked_new (n : LinkBufferSize) : (new n).Checked 0 0 := by
  have hcap := capacity_le n
  have hone := one_le_capacity n
  refine ⟨spans_new n 0, ⟨2 ^ n.val, ?_, by simp [new], (fun hp ↦ nomatch hp), by omega,
    fun _ ↦ by omega, by omega⟩, fun _ ↦ .inr (by simp [new, OutBuffer.new]),
    (fun hst ↦ nomatch hst)⟩
  exact (SeqNum.ofPos_add 0 _).trans (by rw [Int.zero_add])

/-! ### Waiting for the peer -/

/-- The calls made on behalf of one stream, by its users and by packets. -/
def Act.InStream : Act → Prop
  | .init _ _ => False
  | .setConnected _ _ => False
  | .setBroken => False
  | .reset => False
  | _ => True

/-- What is done on behalf of a stream does not connect it. -/
theorem step_inStream {t t' : Transmitter n} {a : Act} (ha : a.InStream) (h : t.step a = .ok t') :
    (t'.state = t.state ∨ t'.state = .idle) ∧ t'.controlBit = t.controlBit := by
  obtain ⟨b, e, hs⟩ := t.outRing.exists_spans
  cases step_spec hs h with
  | init => exact ha.elim
  | connected => exact ha.elim
  | broken => exact ha.elim
  | moved effs hpath => exact ⟨path_state hpath, path_controlBit hpath⟩

/-- Until it is connected, whatever its users and packets do, a stream stays at its start. -/
theorem step_connecting {t t' : Transmitter n} {a : Act} (ha : a.InStream)
    (hst : t.state = .connecting) (h : t.step a = .ok t') :
    t'.state = .connecting ∧ t'.outRing.begin_ = t.outRing.begin_ := by
  obtain ⟨b, e, hs⟩ := t.outRing.exists_spans
  cases a with
  | init => exact ha.elim
  | setConnected => exact ha.elim
  | setBroken => exact ha.elim
  | reset => exact ha.elim
  | tryWrite buf =>
    obtain ⟨⟨t1, written, ready⟩, hw, rfl⟩ := map_eq_ok.mp h
    obtain ⟨-, effs, e', hpath, -, -⟩ := tryWrite_path hs hw
    exact ⟨(tryWrite_samePhase hw).state.trans hst,
      (path_spans hpath hs).begin_eq.trans hs.begin_eq.symm⟩
  | flush =>
    cases h
    have hsame := flush_sameStream t
    exact ⟨hsame.state.trans hst, by rw [hsame.outRing]⟩
  | close =>
    obtain ⟨t1, effs, e', hc, hpath, hopen, hclosed, -⟩ := close_path hs
    obtain rfl : t1 = t' := Except.ok.inj (hc.symm.trans h)
    refine ⟨?_, (path_spans hpath hs).begin_eq.trans hs.begin_eq.symm⟩
    by_cases ho : t.Open
    · exact (hopen ho).2.2.1.trans hst
    · rw [(hclosed ho (by rw [hst]; decide)).1]
      exact hst
  | getBufferToSend now draw next =>
    cases h
    have hsame := (getBufferToSend_path hs now draw next).sameStream
    exact ⟨hsame.state.trans hst, by rw [hsame.outRing]⟩
  | ack controlBit seqId bitmap =>
    rw [step, ack, if_pos (by rw [hst]; decide)] at h
    cases h
    exact ⟨hst, rfl⟩
  | updateRecvHimark controlBit himark =>
    rw [step, updateRecvHimark, if_pos (by rw [hst]; decide)] at h
    cases h
    exact ⟨hst, rfl⟩

end Transmitter

end RooTransport.Link
