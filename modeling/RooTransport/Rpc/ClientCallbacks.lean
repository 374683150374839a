import RooTransport.Rpc.ClientRegistry

/-!
# Completion callbacks

A call is entered into the registry once and leaves it when a thread claims it, so at most
one completion is ever owed to it. `cancelSend` takes the mutex of the call before it
returns (`client.cpp:72–73`): it waits for a callback that is running and leaves none
behind.
-/

namespace RooTransport.Rpc

open RooTransport.Base

/-- At most one completion is owed to the call or was delivered to it, and none can be
delivered once the submission has returned `kUnavailable`. -/
structure OutgoingCall.AtMostOnce (x : OutgoingCall) : Prop where
  once : x.claims.length + x.invocations.length ≤ 1
  unavailable : x.submission = .returned .unavailable → x.running = false ∧ x.cb = false

namespace RpcClient

variable {io : RooIo} {c c' : RpcClient} {submits : Prop}

/-- What happens to a call outside of the registry never adds a completion, and a callback
that was dropped stays so. -/
theorem CallStep.atMostOnce {x x' : OutgoingCall} (h : CallStep x x') (hx : x.AtMostOnce) :
    x'.AtMostOnce := by
  cases h with
  | sent hs => exact ⟨hx.once, by simp [RpcStatus.ok, RpcStatus.unavailable]⟩
  | failed hs => exact ⟨hx.once, by simp⟩
  | clear hs hrun => exact ⟨hx.once, fun _ ↦ ⟨hrun, rfl⟩⟩
  | invoke k completion hrun hk hcb =>
    have honce := hx.once
    obtain ⟨hlt, -⟩ := List.getElem?_eq_some_iff.mp hk
    refine ⟨?_, fun hs ↦ ?_⟩
    · simp only [List.length_append, List.length_singleton, List.length_eraseIdx, hlt, if_true]
      omega
    · have hnone := (hx.unavailable hs).2
      rw [hcb] at hnone
      cases hnone
  | skip k hrun hcb =>
    have honce := hx.once
    have hle := (List.eraseIdx_sublist x.claims k).length_le
    exact ⟨by dsimp only; omega, hx.unavailable⟩
  | finish => exact ⟨hx.once, fun hs ↦ ⟨rfl, (hx.unavailable hs).2⟩⟩

/-- Once the submission has returned `kUnavailable`, nothing is ever delivered to the call. -/
theorem CallStep.silent {x x' : OutgoingCall} (h : CallStep x x') (hx : x.AtMostOnce)
    (hs : x.submission = .returned .unavailable) :
    x'.submission = .returned .unavailable ∧ x'.invocations = x.invocations := by
  cases h with
  | sent hsend =>
    rw [hs] at hsend
    cases hsend
  | failed hsend =>
    rw [hs] at hsend
    cases hsend
  | clear => exact ⟨rfl, rfl⟩
  | invoke k completion hrun hk hcb =>
    have hnone := (hx.unavailable hs).2
    rw [hcb] at hnone
    cases hnone
  | skip => exact ⟨hs, rfl⟩
  | finish => exact ⟨hs, rfl⟩

/-- What holds of a client in every run, whatever ids come round. -/
structure CallbacksOnce (c : RpcClient) : Prop where
  calls : ∀ i, (c.calls i).AtMostOnce
  /-- A registered call is owed nothing yet. -/
  entry : ∀ k i, c.outgoingCalls.lookup k = some i → i < c.submitted ∧
    (c.calls i).streamId = k ∧ (c.calls i).claims = [] ∧ (c.calls i).invocations = []

private theorem callbacksOnce_new : new.CallbacksOnce where
  calls i := ⟨by simp [new], by simp [new, RpcStatus.ok, RpcStatus.unavailable]⟩
  entry k i hk := by simp [new] at hk

/-- What a step of the client makes of one call. -/
inductive CallMove (c : RpcClient) (i : Nat) : OutgoingCall → Prop
  | same : CallMove c i (c.calls i)
  | step (x : OutgoingCall) : CallStep (c.calls i) x → CallMove c i x
  | submit (id : RpcStreamId) (bytes payload : List UInt8) : i = c.submitted →
      CallMove c i ⟨id, bytes, payload, .sending, true, true, false, [], []⟩
  | cancel : (c.calls i).submission = .cancelling →
      CallMove c i { c.calls i with submission := .clearing, outstanding := false }
  | claim (completion : Completion) : c.Registered i → CallMove c i { c.calls i with
        outstanding := false
        claims := (c.calls i).claims ++ [completion] }

private theorem setCall_move {i j : Nat} {x : OutgoingCall} (h : CallMove c i x) :
    CallMove c j ((c.setCall i x).calls j) := by
  by_cases hji : j = i
  · rw [hji, calls_setCall_self]
    exact h
  · rw [calls_setCall_of_ne c hji]
    exact .same

private theorem Step.callMove (hs : Step io submits c c') (i : Nat) :
    CallMove c i (c'.calls i) := by
  cases hs with
  | keep => exact .same
  | submit header bytes payload => exact setCall_move (.submit _ bytes payload rfl)
  | call j x hx => exact setCall_move (.step x hx)
  | cancel j hj =>
    rw [cancelErase, if_pos hj]
    exact setCall_move (.cancel hj)
  | claim id j completion hl => exact setCall_move (.claim completion (registered_iff.mpr ⟨id, hl⟩))
  | reset =>
    unfold connectionReset
    dsimp only
    split
    · next hreg => exact .claim _ hreg
    · exact .same

private theorem CallbacksOnce.registered (h : c.CallbacksOnce) {i : Nat} (hi : c.Registered i) :
    i < c.submitted ∧ (c.calls i).claims = [] ∧ (c.calls i).invocations = [] := by
  obtain ⟨k, hk⟩ := registered_iff.mp hi
  obtain ⟨hlt, -, hnone⟩ := h.entry k i hk
  exact ⟨hlt, hnone⟩

private theorem CallbacksOnce.move (h : c.CallbacksOnce) {i : Nat} {x : OutgoingCall}
    (hx : CallMove c i x) : x.AtMostOnce := by
  cases hx with
  | same => exact h.calls i
  | step _ hstep => exact hstep.atMostOnce (h.calls i)
  | submit => exact ⟨by simp, by simp⟩
  | cancel => exact ⟨(h.calls i).once, by simp⟩
  | claim completion hreg =>
    obtain ⟨-, hclaims, hinv⟩ := h.registered hreg
    exact ⟨by simp [hclaims, hinv], (h.calls i).unavailable⟩

private theorem CallStep.owed_nothing {x x' : OutgoingCall} (h : CallStep x x')
    (hclaims : x.claims = []) (hinv : x.invocations = []) :
    x'.claims = [] ∧ x'.invocations = [] := by
  cases h with
  | sent | failed | clear | finish => exact ⟨hclaims, hinv⟩
  | invoke k completion hrun hk => simp [hclaims] at hk
  | skip k => exact ⟨by simp [hclaims], hinv⟩

private theorem CallbacksOnce.entry_submit (h : c.CallbacksOnce) {x : OutgoingCall}
    (hid : x.streamId = c.nextStreamId) (hclaims : x.claims = []) (hinv : x.invocations = [])
    {k : RpcStreamId} {i : Nat} (hk : (c.newStream x).outgoingCalls.lookup k = some i) :
    i < c.submitted + 1 ∧ ((c.newStream x).calls i).streamId = k ∧
      ((c.newStream x).calls i).claims = [] ∧ ((c.newStream x).calls i).invocations = [] := by
  have hold (hk : c.outgoingCalls.lookup k = some i) : i < c.submitted + 1 ∧
      ((c.newStream x).calls i).streamId = k ∧ ((c.newStream x).calls i).claims = [] ∧
      ((c.newStream x).calls i).invocations = [] := by
    obtain ⟨hlt, hrest⟩ := h.entry k i hk
    rw [newStream, calls_setCall_of_ne c hlt.ne]
    exact ⟨Nat.lt_succ_of_lt hlt, hrest⟩
  rw [newStream] at hk
  dsimp only at hk
  split at hk
  · exact hold hk
  · by_cases hkn : k = c.nextStreamId
    · rw [hkn, AList.lookup_insert] at hk
      obtain rfl := Option.some.inj hk
      rw [newStream, calls_setCall_self, hkn]
      exact ⟨Nat.lt_succ_self _, hid, hclaims, hinv⟩
    · rw [AList.lookup_insert_ne hkn] at hk
      exact hold hk

/-- Step lemma: however the sections interleave, no call comes to be owed a second completion. -/
theorem CallbacksOnce.step (h : c.CallbacksOnce) (hs : Step io submits c c') :
    c'.CallbacksOnce := by
  refine ⟨fun i ↦ h.move (hs.callMove i), fun k i hk ↦ ?_⟩
  cases hs with
  | keep => exact h.entry k i hk
  | submit header bytes payload => exact h.entry_submit rfl rfl rfl hk
  | call j x hx =>
    obtain ⟨hlt, hid, hclaims, hinv⟩ := h.entry k i hk
    refine ⟨hlt, ?_⟩
    by_cases hij : i = j
    · subst hij
      rw [calls_setCall_self, hx.same.1]
      exact ⟨hid, hx.owed_nothing hclaims hinv⟩
    · rw [calls_setCall_of_ne c hij]
      exact ⟨hid, hclaims, hinv⟩
  | cancel j hj =>
    rw [cancelErase, if_pos hj] at hk ⊢
    have hkj : k ≠ (c.calls j).streamId := by
      rintro rfl
      simp at hk
    dsimp only at hk ⊢
    rw [AList.lookup_erase_ne hkj] at hk
    obtain ⟨hlt, hid, hrest⟩ := h.entry k i hk
    have hij : i ≠ j := by
      rintro rfl
      exact hkj hid.symm
    rw [calls_setCall_of_ne c hij]
    exact ⟨hlt, hid, hrest⟩
  | claim id j completion hl =>
    rw [RpcClient.claim] at hk ⊢
    have hki : k ≠ id := by
      rintro rfl
      simp at hk
    dsimp only at hk ⊢
    rw [AList.lookup_erase_ne hki] at hk
    obtain ⟨hlt, hid, hrest⟩ := h.entry k i hk
    have hij : i ≠ j := by
      rintro rfl
      exact hki (hid.symm.trans (h.entry id i hl).2.1)
    rw [calls_setCall_of_ne c hij]
    exact ⟨hlt, hid, hrest⟩
  | reset => simp [connectionReset] at hk

private theorem callbacksOnce_reachable (h : Reachable (step io) anyStep new c) : c.CallbacksOnce :=
  h.invariant CallbacksOnce callbacksOnce_new fun _ _ _ hc _ hs ↦ hc.step (step_cases hs)

/-! ### After a failed submission -/

private theorem Step.submitted_cases (hs : Step io submits c c') :
    c'.submitted = c.submitted ∨ c'.submitted = c.submitted + 1 ∧ ∃ id bytes payload,
      c'.calls c.submitted = ⟨id, bytes, payload, .sending, true, true, false, [], []⟩ := by
  cases hs with
  | submit header bytes payload =>
    exact .inr ⟨rfl, c.nextStreamId, bytes, payload, calls_setCall_self ..⟩
  | cancel i hi =>
    rw [cancelErase, if_pos hi]
    exact .inl rfl
  | keep | call | claim | reset => exact .inl rfl

/-- Step lemma: a call whose submission has returned `kUnavailable` stays as it is. -/
theorem CallbacksOnce.silent_step (h : c.CallbacksOnce) (hs : Step io submits c c')
    {i : Nat} (hi : i < c.submitted) (hun : (c.calls i).submission = .returned .unavailable) :
    (c'.calls i).submission = .returned .unavailable ∧
      (c'.calls i).invocations = (c.calls i).invocations := by
  generalize hx : c'.calls i = x
  have hmove := hx ▸ hs.callMove i
  cases hmove with
  | same => exact ⟨hun, rfl⟩
  | step _ hstep => exact hstep.silent (h.calls i) hun
  | submit _ _ _ heq => exact absurd heq hi.ne
  | cancel hc =>
    rw [hun] at hc
    cases hc
  | claim => exact ⟨hun, rfl⟩

/-- Run lemma: nothing is delivered to such a call by any further steps. -/
theorem CallbacksOnce.silent (acts : List Act) : ∀ {c c' : RpcClient}, c.CallbacksOnce →
    ∀ {i : Nat}, i < c.submitted → (c.calls i).submission = .returned .unavailable →
      execute (RpcClient.step io) c acts = .ok c' →
        (c'.calls i).running = false ∧ (c'.calls i).invocations = (c.calls i).invocations := by
  induction acts with
  | nil =>
    intro c c' h i hi hun he
    cases he
    exact ⟨((h.calls i).unavailable hun).1, rfl⟩
  | cons a rest ih =>
    intro c c' h i hi hun he
    unfold execute at he
    split at he
    · cases he
    · next d hd =>
      have hstep := step_cases hd
      have hi' : i < d.submitted := by
        obtain hsame | ⟨hone, -⟩ := hstep.submitted_cases <;> omega
      obtain ⟨hun', hinv⟩ := h.silent_step hstep hi hun
      rw [← hinv]
      exact ih (h.step hstep) hi' hun' he

/-- However the locked sections interleave, a callback is invoked at most once; it neither
runs nor is invoked after the submission has returned `kUnavailable`; and a reset claims
every registered call for completion. -/
theorem callback_at_most_once (h : Reachable (step io) anyStep new c) :
    (∀ i, (c.calls i).invocations.length ≤ 1) ∧
    (∀ i < c.submitted, (c.calls i).submission = .returned .unavailable →
      ∀ acts c', execute (step io) c acts = .ok c' →
        (c'.calls i).running = false ∧ (c'.calls i).invocations = (c.calls i).invocations) ∧
    ∀ c', c.step io .connectionReset = .ok c' → ∀ i, c.Registered i →
      ¬ c'.Registered i ∧ (c'.calls i).claims = [⟨[], .unavailable⟩] := by
  have hc := callbacksOnce_reachable h
  refine ⟨fun i ↦ ?_, fun i hi hun acts c' he ↦ hc.silent acts hi hun he, fun c' hs i hreg ↦ ?_⟩
  · have honce := (hc.calls i).once
    omega
  · cases hs
    refine ⟨by simp [registered_iff, connectionReset], ?_⟩
    unfold connectionReset
    dsimp only
    rw [if_pos hreg, (hc.registered hreg).2.1, List.nil_append]

/-- The reset completes a call while its submission fails; a second call is registered. -/
theorem callback_at_most_once_racing_reset :
    ∃ c, Reachable (step .groups) anyStep new c ∧ (c.calls 0).invocations = [⟨[], .unavailable⟩] ∧
      (∀ acts c', execute (step .groups) c acts = .ok c' →
        (c'.calls 0).running = false ∧ (c'.calls 0).invocations = [⟨[], .unavailable⟩]) ∧
      c.Registered 1 ∧ ∀ c', c.step .groups .connectionReset = .ok c' →
        (c'.calls 1).claims = [⟨[], .unavailable⟩] := by
  obtain ⟨c, hr, hp⟩ := Reachable.of_test (step .groups) anyStep new
    [.sendUnaryRpc 3 [7], .connectionReset, .sendUnaryRpc 4 [], .sendReturns 0 false,
      .cancelErase 0, .completeStart 0 0, .completeEnd 0, .cancelClear 0]
    (fun c ↦ 0 < c.submitted && (c.calls 0).submission == .returned .unavailable &&
      (c.calls 0).invocations == [⟨[], .unavailable⟩] && c.Registered 1)
    (meets_anyStep ..) (by decide +kernel)
  simp only [Bool.and_eq_true, decide_eq_true_eq, beq_iff_eq] at hp
  obtain ⟨⟨⟨hsub, hun⟩, hinv⟩, hreg⟩ := hp
  obtain ⟨-, hsilent, hreset⟩ := callback_at_most_once hr
  refine ⟨c, hr, hinv, fun acts c' he ↦ ?_, hreg, fun c' hs ↦ (hreset c' hs 1 hreg).2⟩
  obtain ⟨hrun, hsame⟩ := hsilent 0 hsub hun acts c' he
  exact ⟨hrun, hsame.trans hinv⟩

/-! ### No call is forgotten -/

end RpcClient

/-- The call was completed, will be, or was never sent. -/
def OutgoingCall.Settled (x : OutgoingCall) : Prop :=
  x.claims ≠ [] ∨ x.invocations ≠ [] ∨ x.submission = .clearing ∨
    x.submission = .returned .unavailable

/-- The callback is there until it is run or dropped, and the call is outstanding until it
is settled. -/
structure OutgoingCall.Accounted (x : OutgoingCall) : Prop where
  cb : x.cb = false → x.invocations ≠ [] ∨ x.submission = .returned .unavailable
  settled : x.outstanding = false → x.Settled

namespace RpcClient

private theorem CallStep.accounted {x x' : OutgoingCall} (h : CallStep x x') (hx : x.Accounted) :
    x'.Accounted := by
  cases h with
  | sent hs => exact ⟨fun hcb ↦ (hx.cb hcb).imp_right (by simp [hs]),
      fun ho ↦ (hx.settled ho).imp_right (.imp_right (by simp [hs]))⟩
  | failed hs => exact ⟨fun hcb ↦ (hx.cb hcb).imp_right (by simp [hs]),
      fun ho ↦ (hx.settled ho).imp_right (.imp_right (by simp [hs]))⟩
  | clear => exact ⟨fun _ ↦ .inr rfl, fun _ ↦ .inr (.inr (.inr rfl))⟩
  | invoke => exact ⟨fun _ ↦ .inl (by simp), fun _ ↦ .inr (.inl (by simp))⟩
  | skip k hrun hcb =>
    refine ⟨hx.cb, fun _ ↦ .inr ?_⟩
    exact (hx.cb hcb).imp_right .inr
  | finish => exact ⟨hx.cb, hx.settled⟩

private theorem CallMove.accounted {i : Nat} {x : OutgoingCall} (hx : CallMove c i x)
    (h : (c.calls i).Accounted) : x.Accounted := by
  cases hx with
  | same => exact h
  | step _ hstep => exact hstep.accounted h
  | submit => exact ⟨by simp, by simp⟩
  | cancel hs =>
    exact ⟨fun hcb ↦ (h.cb hcb).imp_right (by simp [hs]), fun _ ↦ .inr (.inr (.inl rfl))⟩
  | claim => exact ⟨h.cb, fun _ ↦ .inl (by simp)⟩

/-- Run lemma: in every run, every submitted call is accounted for. -/
theorem accounted_reachable {guard : RpcClient → Act → Prop}
    (h : Reachable (step io) guard new c) : ∀ i < c.submitted, (c.calls i).Accounted := by
  refine h.invariant (fun c ↦ ∀ i < c.submitted, (c.calls i).Accounted) (by simp [new]) ?_
  intro c a c' hc _ hs i hi
  have hstep := step_cases hs
  obtain hsame | ⟨hone, id, bytes, payload, hnew⟩ := hstep.submitted_cases
  · rw [hsame] at hi
    exact (hstep.callMove i).accounted (hc i hi)
  · by_cases hlast : i = c.submitted
    · rw [hlast, hnew]
      exact ⟨by simp, by simp⟩
    · exact (hstep.callMove i).accounted (hc i (by omega))

/-- Without reuse of ids, a reset leaves no call outstanding. -/
theorem connectionReset_settles (h : Reachable (step io) IdUnused new c) :
    ∀ i < c.submitted, (c.connectionReset.calls i).Settled := by
  intro i hi
  have hreset : c.step io .connectionReset = .ok c.connectionReset := rfl
  have hr : Reachable (step io) IdUnused new c.connectionReset :=
    .next h (by simp [IdUnused, Act.Submits]) hreset
  refine (accounted_reachable hr i hi).settled ?_
  by_contra ho
  have hown := (consistent_reachable hr).own i hi (by simpa using ho)
  simp [connectionReset] at hown

end RpcClient

end RooTransport.Rpc
