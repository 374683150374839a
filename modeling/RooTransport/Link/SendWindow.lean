import RooTransport.Link.TransmitterChecks

/-!
# The send window against any peer

Any calls of the transmitter, with acknowledgements and flow-control updates of any content: as
long as a stream is connected at most once after its `init`, no check fails, and what may be
sent stays within the window that the peer has announced.
-/

namespace RooTransport.Link

open RooTransport.Base RingBuffer

namespace Transmitter

variable {n : LinkBufferSize} {t t' : Transmitter n} {b e b' e' h : Int} {eff : Effect}

/-- A stream that was not connected queues nothing but its final packet. -/
theorem Fresh.moves (hf : t.Fresh b e) (hc : t.Checked b e)
    (hm : Moves (t, b, e) eff (t', b', e')) : t'.Fresh b' e' := by
  have hone := one_le_capacity n
  -- Only a stream that waits for its connection is open, and its credit is used up.
  have hwaiting (ho : t.Open) : t.recvHimark = .ofPos b ∧ e = b := by
    have hst : t.state = .connecting := by
      have hidle := ho.2.1
      have hbroken := ho.2.2
      have hconnected := hf.state
      cases hstate : t.state with
      | connecting => rfl
      | _ => simp_all
    refine ⟨(hc.early hst).1, hf.queued.resolve_right ?_⟩
    rintro ⟨-, heos⟩
    exact absurd (ho.1.symm.trans heos) (by decide)
  cases hm with
  | alloc ring ho _ _ hne =>
    obtain ⟨hhi, rfl⟩ := hwaiting ho
    exact absurd (hhi.trans hc.spans.end_eq.symm) hne
  | closeNow ring ho =>
    obtain ⟨-, rfl⟩ := hwaiting ho
    exact ⟨hf.state, hf.pending, .inr ⟨rfl, rfl⟩⟩
  | closeLater ho hfull =>
    obtain ⟨-, rfl⟩ := hwaiting ho
    omega
  | lateEos ring hp => exact absurd (hp.symm.trans hf.pending) (by decide)
  | pop ring hst => exact absurd hst hf.state
  | reset => exact ⟨by simp, rfl, .inl rfl⟩
  | calm => exact ⟨by simp, hf.pending, hf.queued⟩
  | _ => exact ⟨hf.state, hf.pending, hf.queued⟩

/-- The credit of a connected stream reaches no further than the peer's window. -/
def WithinWindow (t : Transmitter n) (e : Int) : Prop :=
  t.state = .connected → ∃ h, t.Credit e h ∧ h ≤ e + t.peerReceiveBufferSize

private theorem WithinWindow.moves (hw : t.WithinWindow e) (hc : t.Checked b e)
    (hm : Moves (t, b, e) eff (t', b', e')) : t'.WithinWindow e' := by
  intro hst'
  have hst : t.state = .connected := by
    cases hm with
    | reset => exact nomatch hst'
    | calm => exact nomatch hst'
    | _ => exact hst'
  obtain ⟨h, hcredit, hle⟩ := hw hst
  refine ⟨_, hcredit.moves hc.spans hm, ?_⟩
  cases hm with
  | alloc | closeNow | lateEos =>
    simp only [Effect.himarkAfter]
    exact hle.trans (by simp [withBuffer])
  | himark _ hl hu _ hgt =>
    have hcap := capacity_le n
    have hus := hc.spans.used
    have hspan := hc.spans.le
    have hsize := hcredit.size_le
    rw [hc.spans.end_eq, SeqNum.ofPos_add, SeqNum.ofPos_gt (by omega) (by omega)] at hgt
    simp only [Effect.himarkAfter]
    omega
  | _ => exact hle

/-! ### Any calls -/

/-- A transmitter, and whether it may be connected: not twice after one `init`. -/
structure Session (n : LinkBufferSize) where
  transmitter : Transmitter n
  mayConnect : Bool

namespace Session

/-- A call on the transmitter. Only `init` allows another `setConnected`. -/
def step (s : Session n) (a : Act) : Except Check (Session n) :=
  (s.transmitter.step a).map fun t ↦ ⟨t,
    match a with
    | .init _ _ => true
    | .setConnected _ _ => false
    | _ => s.mayConnect⟩

/-- `setConnected` comes at most once after each `init`, and from a peer with a supported
buffer size. All else is free, with any arguments. -/
def ConnectsOnce (s : Session n) : Act → Prop
  | .setConnected size _ => s.mayConnect = true ∧ size ≤ 1024
  | _ => True

instance (s : Session n) : (a : Act) → Decidable (ConnectsOnce s a)
  | .setConnected _ _ => inferInstanceAs (Decidable (_ ∧ _))
  | .init _ _ | .tryWrite _ | .flush | .close | .getBufferToSend _ _ _ | .ack _ _ _
  | .updateRecvHimark _ _ | .setBroken | .reset => .isTrue trivial

/-- What every call keeps, whatever its arguments. -/
structure Safe (s : Session n) (b e : Int) : Prop where
  checked : s.transmitter.Checked b e
  fresh : s.mayConnect = true → s.transmitter.Fresh b e
  within : s.transmitter.WithinWindow e

variable {s s' : Session n}

private theorem Safe.path {effs : List Effect} (hs : s.Safe b e)
    (hp : Path Moves (s.transmitter, b, e) effs (t', b', e')) : Safe ⟨t', s.mayConnect⟩ b' e' :=
  hp.invariant (fun x ↦ Safe ⟨x.1, s.mayConnect⟩ x.2.1 x.2.2)
    (fun _ _ _ _ hx hm ↦ ⟨hx.checked.moves hm, fun hc ↦ (hx.fresh hc).moves hx.checked hm,
      hx.within.moves hx.checked hm⟩) hs

private theorem Safe.setConnected (hs : s.Safe b e) (hc : s.mayConnect = true) {size : Nat}
    (hsize : size ≤ 1024) (controlBit : Bool) :
    Safe ⟨s.transmitter.setConnected size controlBit, false⟩ b e := by
  have hfresh := hs.fresh hc
  have hchecked := hs.checked.setConnected hfresh hsize controlBit
  refine ⟨hchecked, (fun hc' ↦ nomatch hc'), fun _ ↦ ?_⟩
  obtain ⟨h, hcredit⟩ := hchecked.credit
  -- The credit is that of the peer's window, counted from the start of the own one.
  have hstart : h = b + size := by
    have hhi : s.transmitter.outRing.begin_.add size = .ofPos h := hcredit.himark_eq
    have hle := hcredit.le_end
    have hend := hcredit.end_le
    have hqueued := hfresh.queued
    rw [hs.checked.spans.begin_eq, SeqNum.ofPos_add, SeqNum.ofPos_eq (by omega) (by omega)] at hhi
    exact hhi.symm
  refine ⟨h, hcredit, ?_⟩
  have hspan := hs.checked.spans.le
  have hpeer : (s.transmitter.setConnected size controlBit).peerReceiveBufferSize = size := rfl
  rw [hpeer, hstart]
  omega

private theorem Safe.setBroken (hs : s.Safe b e) : Safe ⟨{ s.transmitter with
      outRing := RingBuffer.new n (.ofPos e), state := .broken }, s.mayConnect⟩ e e :=
  ⟨hs.checked.setBroken, fun hc ↦ ⟨by simp, (hs.fresh hc).pending, .inl rfl⟩,
    fun hst ↦ nomatch hst⟩

/-- Every call keeps the send window safe. -/
theorem Safe.step (hs : s.Safe b e) {a : Act} (hg : ConnectsOnce s a) (h : s.step a = .ok s') :
    ∃ b' e', s'.Safe b' e' := by
  obtain ⟨t', ht, rfl⟩ := map_eq_ok.mp h
  cases a with
  | init id start =>
    rw [Transmitter.step, init_ok] at ht
    cases ht
    rw [← SeqNum.ofPos_raw start]
    exact ⟨_, _, hs.checked.init id _, fun _ ↦ ⟨by simp, rfl, .inl rfl⟩, fun hst ↦ by cases hst⟩
  | setConnected size controlBit =>
    cases ht
    exact ⟨b, e, hs.setConnected hg.1 hg.2 controlBit⟩
  | setBroken =>
    cases step_spec hs.checked.spans ht with
    | broken => exact ⟨e, e, hs.setBroken⟩
    | moved effs hpath => exact ⟨_, _, hs.path hpath⟩
  | tryWrite | flush | close | getBufferToSend | ack | updateRecvHimark | reset =>
    cases step_spec hs.checked.spans ht with
    | moved effs hpath => exact ⟨_, _, hs.path hpath⟩

private theorem safe_new (n : LinkBufferSize) : Safe ⟨new n, true⟩ 0 0 :=
  ⟨checked_new n, fun _ ↦ ⟨by simp [new], rfl, .inl rfl⟩, fun hst ↦ nomatch hst⟩

/-- The invariant of every run. -/
theorem safe_of_reachable {s : Session n} (h : Reachable step ConnectsOnce ⟨new n, true⟩ s) :
    ∃ b e, s.Safe b e :=
  h.invariant (fun s ↦ ∃ b e, s.Safe b e) ⟨0, 0, safe_new n⟩
    fun _ _ _ ⟨_, _, hs⟩ hg hstep ↦ hs.step hg hstep

/-- No check fails, whatever the peer sends, and the credit of an open connected stream lies
between the end of the window and the end of what the peer can take. -/
theorem send_window_safe {s : Session n}
    (h : Reachable step ConnectsOnce ⟨new n, true⟩ s) :
    (∀ a, ∃ s', s.step a = .ok s') ∧
    (s.transmitter.state = .connected → s.transmitter.endOfStream = false →
      s.transmitter.outRing.end_ ≤ s.transmitter.recvHimark ∧
      s.transmitter.recvHimark ≤
        s.transmitter.outRing.end_.add s.transmitter.peerReceiveBufferSize) := by
  obtain ⟨b, e, hs⟩ := safe_of_reachable h
  constructor
  · intro a
    obtain ⟨t', ht⟩ := hs.checked.total a
    exact ⟨_, map_eq_ok.mpr ⟨t', ht, rfl⟩⟩
  · intro hst heos
    have ho : s.transmitter.Open := ⟨heos, by simp [hst], by simp [hst]⟩
    obtain ⟨h, hcredit, hle⟩ := hs.within hst
    have hroom := hcredit.open_le (.inl ho)
    have hsize := hcredit.size_le
    rw [hs.checked.spans.end_eq, hcredit.himark_eq, SeqNum.ofPos_add,
      SeqNum.ofPos_le (by omega) (by omega), SeqNum.ofPos_le (by omega) (by omega)]
    exact ⟨hroom, hle⟩

/-- A stream filled to the end of the credit, and forged answers. -/
theorem send_window_safe_forged : ∃ s : Session 2,
    Reachable step ConnectsOnce ⟨new 2, true⟩ s ∧ s.transmitter.state = .connected ∧
    s.transmitter.endOfStream = false ∧ s.transmitter.outRing.end_ = ⟨2⟩ ∧
    s.transmitter.recvHimark ≤
      s.transmitter.outRing.end_.add s.transmitter.peerReceiveBufferSize ∧
    ∃ s', s.step (.tryWrite [3]) = .ok s' := by
  obtain ⟨s, hr, ht⟩ := Reachable.of_test step ConnectsOnce ⟨new 2, true⟩
    [.init 1 ⟨0⟩, .setConnected 2 true, .tryWrite [1], .flush, .getBufferToSend 0 0 0,
      .ack false 0xFFF [0xFF], .updateRecvHimark false 0x123, .tryWrite (List.replicate 300 2),
      .ack false 1 [0xFF]]
    (fun s ↦ s.transmitter.state = .connected ∧ s.transmitter.endOfStream = false ∧
      s.transmitter.outRing.end_ = ⟨2⟩) (by decide +kernel) (by decide +kernel)
  obtain ⟨hst, heos, hend⟩ := of_decide_eq_true ht
  have hsafe := send_window_safe hr
  exact ⟨s, hr, hst, heos, hend, (hsafe.2 hst heos).2, hsafe.1 (.tryWrite [3])⟩

end Session

end Transmitter

end RooTransport.Link
