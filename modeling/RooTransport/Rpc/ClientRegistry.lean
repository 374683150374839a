import RooTransport.Rpc.Client

/-!
# The registry of outstanding calls

`new_stream` hands out the ids 1 to `0xFFFFFF` in turn and starts over, whether or not a
call is still registered under the next one (`client.cpp:55–63`). As long as no id comes
round to a call that is outstanding or still being submitted, the registry holds exactly
the outstanding calls, each under its own id.
-/

namespace RooTransport.Rpc

open RooTransport.Base

namespace RpcClient

/-- The id that a new call gets is that of no call that is outstanding or still being
submitted. -/
def IdUnused (c : RpcClient) (a : Act) : Prop :=
  a.Submits → ∀ i < c.submitted, (c.calls i).outstanding = true ∨
    (c.calls i).submission = .sending ∨ (c.calls i).submission = .cancelling →
      (c.calls i).streamId ≠ c.nextStreamId

instance (c : RpcClient) (a : Act) : Decidable (c.IdUnused a) :=
  inferInstanceAs (Decidable (_ → ∀ i < c.submitted, _))

/-- The stream id that the header of the call carries. -/
def headerStreamId (io : RooIo) (x : OutgoingCall) : Option RpcStreamId :=
  (io.readHeader (x.header ++ x.payload)).map fun (header, _) ↦ header.streamId

/-- The registry and the calls agree. -/
structure Consistent (c : RpcClient) : Prop where
  own : ∀ i < c.submitted, (c.calls i).outstanding = true →
    c.outgoingCalls.lookup (c.calls i).streamId = some i
  entry : ∀ k i, c.outgoingCalls.lookup k = some i →
    i < c.submitted ∧ (c.calls i).streamId = k ∧ (c.calls i).outstanding = true
  /-- Nobody else is registered under the id of a call that may yet be cancelled. -/
  busy : ∀ i, (c.calls i).submission = .sending ∨ (c.calls i).submission = .cancelling →
    i < c.submitted ∧ ∀ j, c.outgoingCalls.lookup (c.calls i).streamId = some j → j = i

/-- Ids have 24 bits, and the header of a call carries the id of the call. -/
structure Labelled (io : RooIo) (c : RpcClient) : Prop where
  nextId : 1 ≤ c.nextStreamId.toNat ∧ c.nextStreamId.toNat < 2 ^ 24
  header : ∀ i < c.submitted, (c.calls i).streamId.toNat < 2 ^ 24 ∧
    headerStreamId io (c.calls i) = some (c.calls i).streamId

variable {io : RooIo} {c c' : RpcClient} {submits : Prop}

/-- A call is in the registry exactly if some id leads to it. -/
theorem registered_iff {i : Nat} : c.Registered i ↔ ∃ k, c.outgoingCalls.lookup k = some i := by
  constructor
  · rintro ⟨⟨k, j⟩, he, rfl⟩
    exact ⟨k, AList.mem_lookup_iff.mpr he⟩
  · rintro ⟨k, hk⟩
    exact ⟨⟨k, i⟩, AList.mem_lookup_iff.mp hk, rfl⟩

/-- A new client has no calls to disagree with. -/
theorem consistent_new : new.Consistent where
  own := by simp [new]
  entry := by simp [new]
  busy := by simp [new]

/-- What a step of one call leaves of it. -/
theorem CallStep.same {x x' : OutgoingCall} (h : CallStep x x') :
    x'.streamId = x.streamId ∧ x'.header = x.header ∧ x'.payload = x.payload ∧
      x'.outstanding = x.outstanding ∧
      (x'.submission = .sending ∨ x'.submission = .cancelling →
        x.submission = .sending ∨ x.submission = .cancelling) := by
  cases h with
  | sent hs => exact ⟨rfl, rfl, rfl, rfl, by simp⟩
  | failed hs => exact ⟨rfl, rfl, rfl, rfl, fun _ ↦ .inl hs⟩
  | clear => exact ⟨rfl, rfl, rfl, rfl, by simp⟩
  | invoke => exact ⟨rfl, rfl, rfl, rfl, id⟩
  | skip => exact ⟨rfl, rfl, rfl, rfl, id⟩
  | finish => exact ⟨rfl, rfl, rfl, rfl, id⟩

private theorem Consistent.call (h : c.Consistent) (i : Nat) {x : OutgoingCall}
    (hx : CallStep (c.calls i) x) : (c.setCall i x).Consistent := by
  -- agreement depends on little of a call, and a step of a call leaves that
  have hsame (j : Nat) : ((c.setCall i x).calls j).streamId = (c.calls j).streamId ∧
      ((c.setCall i x).calls j).outstanding = (c.calls j).outstanding ∧
      (((c.setCall i x).calls j).submission = .sending ∨
        ((c.setCall i x).calls j).submission = .cancelling →
          (c.calls j).submission = .sending ∨ (c.calls j).submission = .cancelling) := by
    by_cases hji : j = i
    · rw [hji, calls_setCall_self]
      exact ⟨hx.same.1, hx.same.2.2.2⟩
    · rw [calls_setCall_of_ne c hji]
      exact ⟨rfl, rfl, id⟩
  constructor
  · intro j hj ho
    rw [(hsame j).2.1] at ho
    rw [(hsame j).1]
    exact h.own j hj ho
  · intro k j hk
    rw [(hsame j).1, (hsame j).2.1]
    exact h.entry k j hk
  · intro j hs
    rw [(hsame j).1]
    exact h.busy j ((hsame j).2.2 hs)

-- A call that ends takes its own entry with it, and no other.
private theorem Consistent.remove (h : c.Consistent) {i : Nat} {x : OutgoingCall}
    (hid : x.streamId = (c.calls i).streamId) (hover : x.outstanding = false)
    (hsub : x.submission = .sending ∨ x.submission = .cancelling →
      (c.calls i).submission = .sending ∨ (c.calls i).submission = .cancelling)
    (hown : ∀ j, c.outgoingCalls.lookup (c.calls i).streamId = some j → j = i) :
    { c.setCall i x with
      outgoingCalls := c.outgoingCalls.erase (c.calls i).streamId }.Consistent := by
  have hother {j : Nat} (hji : j ≠ i) : (c.setCall i x).calls j = c.calls j :=
    calls_setCall_of_ne c hji x
  have hkept {j : Nat} {id : RpcStreamId}
      (hl : (c.outgoingCalls.erase (c.calls i).streamId).lookup id = some j) :
      c.outgoingCalls.lookup id = some j ∧ j ≠ i := by
    have hne : id ≠ (c.calls i).streamId := by
      rintro rfl
      simp at hl
    rw [AList.lookup_erase_ne hne] at hl
    refine ⟨hl, ?_⟩
    rintro rfl
    exact hne (h.entry id j hl).2.1.symm
  constructor
  · intro j hj ho
    dsimp only at ho ⊢
    by_cases hji : j = i
    · rw [hji, calls_setCall_self, hover] at ho
      cases ho
    · rw [hother hji] at ho ⊢
      have hl := h.own j hj ho
      have hne : (c.calls j).streamId ≠ (c.calls i).streamId :=
        fun heq ↦ hji (hown j (heq ▸ hl))
      rw [AList.lookup_erase_ne hne]
      exact hl
  · intro k j hl
    obtain ⟨hl', hji⟩ := hkept hl
    dsimp only
    rw [hother hji]
    exact h.entry k j hl'
  · intro j hs
    dsimp only at hs ⊢
    by_cases hji : j = i
    · rw [hji, calls_setCall_self] at hs ⊢
      refine ⟨(h.busy i (hsub hs)).1, fun l hl ↦ ?_⟩
      rw [hid, AList.lookup_erase] at hl
      cases hl
    · rw [hother hji] at hs ⊢
      refine ⟨(h.busy j hs).1, fun l hl ↦ ?_⟩
      exact (h.busy j hs).2 l (hkept hl).1

private theorem Consistent.reset (h : c.Consistent) : c.connectionReset.Consistent := by
  have hcall (i : Nat) : (c.connectionReset.calls i).submission = (c.calls i).submission := by
    unfold connectionReset
    dsimp only
    split <;> rfl
  constructor
  · intro i hi ho
    unfold connectionReset at ho
    dsimp only at ho
    split at ho
    · cases ho
    · next hno => exact absurd (registered_iff.mpr ⟨_, h.own i hi ho⟩) hno
  · intro k i hk
    simp [connectionReset] at hk
  · intro i hs
    rw [hcall i] at hs
    refine ⟨(h.busy i hs).1, fun j hj ↦ ?_⟩
    simp [connectionReset] at hj

-- A new call whose id nobody uses is registered under it.
private theorem Consistent.submit (h : c.Consistent) {x : OutgoingCall}
    (hid : x.streamId = c.nextStreamId) (hout : x.outstanding = true)
    (hfree : ∀ i < c.submitted, (c.calls i).outstanding = true ∨
      (c.calls i).submission = .sending ∨ (c.calls i).submission = .cancelling →
        (c.calls i).streamId ≠ c.nextStreamId) :
    (c.newStream x).Consistent := by
  have hnew : c.nextStreamId ∉ c.outgoingCalls := by
    rw [← AList.lookup_eq_none, Option.eq_none_iff_forall_ne_some]
    intro i hi
    obtain ⟨hlt, hsid, ho⟩ := h.entry _ i hi
    exact hfree i hlt (.inl ho) hsid
  have hreg : (c.newStream x).outgoingCalls = c.outgoingCalls.insert c.nextStreamId c.submitted :=
    if_neg hnew
  have hself : (c.newStream x).calls c.submitted = x := Function.update_self ..
  have hother {i : Nat} (hi : i ≠ c.submitted) : (c.newStream x).calls i = c.calls i :=
    Function.update_of_ne hi ..
  have hlt {i : Nat} (hi : i < (c.newStream x).submitted) (hne : i ≠ c.submitted) :
      i < c.submitted := by
    change i < c.submitted + 1 at hi
    omega
  constructor
  · intro i hi ho
    rw [hreg]
    by_cases hne : i = c.submitted
    · rw [hne, hself, hid, AList.lookup_insert]
    · rw [hother hne] at ho ⊢
      rw [AList.lookup_insert_ne (hfree i (hlt hi hne) (.inl ho))]
      exact h.own i (hlt hi hne) ho
  · intro k i hk
    rw [hreg] at hk
    by_cases hkn : k = c.nextStreamId
    · rw [hkn, AList.lookup_insert] at hk
      obtain rfl := Option.some.inj hk
      rw [hself, hkn]
      exact ⟨Nat.lt_succ_self _, hid, hout⟩
    · rw [AList.lookup_insert_ne hkn] at hk
      obtain ⟨hi, hsid, ho⟩ := h.entry k i hk
      rw [hother hi.ne]
      exact ⟨Nat.lt_succ_of_lt hi, hsid, ho⟩
  · intro i hs
    rw [hreg]
    by_cases hne : i = c.submitted
    · rw [hne, hself, hid]
      refine ⟨Nat.lt_succ_self _, fun j hj ↦ ?_⟩
      rw [AList.lookup_insert] at hj
      exact (Option.some.inj hj).symm
    · rw [hother hne] at hs ⊢
      obtain ⟨hi, hown⟩ := h.busy i hs
      refine ⟨Nat.lt_succ_of_lt hi, fun j hj ↦ ?_⟩
      rw [AList.lookup_insert_ne (hfree i hi (.inr hs))] at hj
      exact hown j hj

/-- A step keeps registry and calls in agreement if it gives no used id to a new call. -/
theorem Consistent.step (h : c.Consistent) (hs : Step io submits c c')
    (hfree : submits → ∀ i < c.submitted, (c.calls i).outstanding = true ∨
      (c.calls i).submission = .sending ∨ (c.calls i).submission = .cancelling →
        (c.calls i).streamId ≠ c.nextStreamId) : c'.Consistent := by
  cases hs with
  | keep => exact h
  | submit header bytes payload hsub => exact h.submit rfl rfl (hfree hsub)
  | call i x hx => exact h.call i hx
  | cancel i hi =>
    rw [cancelErase, if_pos hi]
    exact h.remove rfl rfl (by simp) (h.busy i (.inr hi)).2
  | claim id i completion hl =>
    obtain ⟨-, rfl, -⟩ := h.entry id i hl
    exact h.remove rfl rfl (fun hs ↦ hs) fun j hj ↦ Option.some.inj (hj.symm.trans hl)
  | reset => exact h.reset

/-- Run lemma: without reuse of ids, registry and calls agree in every state reached. -/
theorem consistent_reachable (h : Reachable (step io) IdUnused new c) : c.Consistent :=
  h.invariant Consistent consistent_new fun _ _ _ hc hg hs ↦ hc.step (step_cases hs) hg

/-! ### Headers of calls -/

private theorem nextStreamId_wraps {id : RpcStreamId} (h : 1 ≤ id.toNat ∧ id.toNat < 2 ^ 24) :
    let next : RpcStreamId := if 0x00FFFFFF < id + 1 then 1 else id + 1
    1 ≤ next.toNat ∧ next.toNat < 2 ^ 24 := by
  have hadd : (id + 1).toNat = id.toNat + 1 := by
    rw [UInt32.toNat_add, UInt32.toNat_one]
    omega
  intro next
  by_cases hw : 0x00FFFFFF < id + 1
  · rw [show next = 1 from if_pos hw]
    decide
  · rw [show next = id + 1 from if_neg hw]
    rw [UInt32.lt_iff_toNat_lt, hadd] at hw
    simp only [UInt32.reduceToNat] at hw
    omega

-- Nothing but a submission changes what a call sends.
private theorem Labelled.congr (h : c.Labelled io) (hnext : c'.nextStreamId = c.nextStreamId)
    (hsub : c'.submitted = c.submitted)
    (hcalls : ∀ i, (c'.calls i).streamId = (c.calls i).streamId ∧
      (c'.calls i).header = (c.calls i).header ∧ (c'.calls i).payload = (c.calls i).payload) :
    c'.Labelled io := by
  refine ⟨by rw [hnext]; exact h.nextId, fun i hi ↦ ?_⟩
  rw [hsub] at hi
  obtain ⟨hid, hheader, hpayload⟩ := hcalls i
  rw [headerStreamId, hid, hheader, hpayload]
  exact h.header i hi

private theorem setCall_same {i : Nat} {x : OutgoingCall}
    (hx : x.streamId = (c.calls i).streamId ∧ x.header = (c.calls i).header ∧
      x.payload = (c.calls i).payload) (j : Nat) :
    ((c.setCall i x).calls j).streamId = (c.calls j).streamId ∧
      ((c.setCall i x).calls j).header = (c.calls j).header ∧
      ((c.setCall i x).calls j).payload = (c.calls j).payload := by
  by_cases hji : j = i
  · rw [hji, calls_setCall_self]
    exact hx
  · rw [calls_setCall_of_ne c hji]
    exact ⟨rfl, rfl, rfl⟩

private theorem Labelled.submit (h : c.Labelled io) {x : OutgoingCall}
    (hid : x.streamId = c.nextStreamId) (hheader : headerStreamId io x = some c.nextStreamId) :
    (c.newStream x).Labelled io := by
  refine ⟨nextStreamId_wraps h.nextId, fun i hi ↦ ?_⟩
  by_cases hne : i = c.submitted
  · have hself : (c.newStream x).calls c.submitted = x := calls_setCall_self ..
    rw [hne, hself, hheader, hid]
    exact ⟨h.nextId.2, rfl⟩
  · have hother : (c.newStream x).calls i = c.calls i := calls_setCall_of_ne c hne x
    change i < c.submitted + 1 at hi
    rw [hother]
    exact h.header i (by omega)

/-- Step lemma: the header of a new call carries its id, and no header is changed later. -/
theorem Labelled.step (h : c.Labelled io) (hio : io.Lawful) (hs : Step io submits c c') :
    c'.Labelled io := by
  cases hs with
  | keep => exact h
  | submit header bytes payload hsub hs hunary hid =>
    refine h.submit rfl ?_
    rw [headerStreamId, RooIo.readHeader_serialize hio (hunary h.nextId.2) hs]
    exact congrArg some hid
  | call i x hx =>
    obtain ⟨hid, hheader, hpayload, -⟩ := hx.same
    exact h.congr rfl rfl (setCall_same ⟨hid, hheader, hpayload⟩)
  | cancel i hi =>
    rw [cancelErase, if_pos hi]
    exact h.congr rfl rfl (setCall_same ⟨rfl, rfl, rfl⟩)
  | claim id i completion hl => exact h.congr rfl rfl (setCall_same ⟨rfl, rfl, rfl⟩)
  | reset =>
    refine h.congr rfl rfl fun i ↦ ?_
    unfold connectionReset
    dsimp only
    split <;> exact ⟨rfl, rfl, rfl⟩

/-- Run lemma: whatever ids come round, the header of every call carries its id. -/
theorem labelled_reachable (hio : io.Lawful) {guard : RpcClient → Act → Prop}
    (h : Reachable (step io) guard new c) : c.Labelled io :=
  h.invariant (Labelled io) ⟨by decide, by simp [new]⟩
    fun _ _ _ hc _ hs ↦ hc.step hio (step_cases hs)

/-! ### Outstanding calls -/

-- An entry goes only together with its own call.
private theorem Consistent.entry_stays (h : c.Consistent) (hs : Step io submits c c')
    {k : RpcStreamId} {j : Nat} (hk : c.outgoingCalls.lookup k = some j)
    (hj : (c'.calls j).outstanding = true) :
    c'.outgoingCalls.lookup k = some j := by
  have hsid := (h.entry k j hk).2.1
  cases hs with
  | keep => exact hk
  | submit header bytes payload =>
    rw [newStream]
    dsimp only
    split
    · exact hk
    · next hnew =>
      have hkn : k ≠ c.nextStreamId := by
        rintro rfl
        exact hnew (AList.lookup_isSome.mp (by rw [hk]; rfl))
      rw [AList.lookup_insert_ne hkn]
      exact hk
  | call i x hx => exact hk
  | cancel i hi =>
    rw [cancelErase, if_pos hi] at hj ⊢
    have hne : j ≠ i := by
      rintro rfl
      simp [setCall] at hj
    dsimp only
    rw [AList.lookup_erase_ne]
    · exact hk
    · rintro rfl
      exact hne ((h.busy i (.inr hi)).2 j hk)
  | claim id i completion hl =>
    have hne : j ≠ i := by
      rintro rfl
      simp [RpcClient.claim, setCall] at hj
    rw [RpcClient.claim]
    dsimp only
    rw [AList.lookup_erase_ne]
    · exact hk
    · rintro rfl
      exact hne (Option.some.inj (hk.symm.trans hl))
  | reset =>
    unfold connectionReset at hj
    dsimp only at hj
    rw [if_pos (registered_iff.mpr ⟨k, hk⟩)] at hj
    cases hj

/-- Without reuse of ids, every outstanding call is the entry under the 24-bit id that its
header carries, no two of them share an id, and no step removes the entry of a call that
stays outstanding. -/
theorem outstanding_registered (hio : io.Lawful) (h : Reachable (step io) IdUnused new c) :
    (∀ i < c.submitted, (c.calls i).outstanding = true →
      c.outgoingCalls.lookup (c.calls i).streamId = some i ∧ (c.calls i).streamId.toNat < 2 ^ 24 ∧
        headerStreamId io (c.calls i) = some (c.calls i).streamId) ∧
    (∀ i < c.submitted, ∀ j < c.submitted, (c.calls i).outstanding = true →
      (c.calls j).outstanding = true → (c.calls i).streamId = (c.calls j).streamId → i = j) ∧
    ∀ a c', c.step io a = .ok c' → ∀ k j, c.outgoingCalls.lookup k = some j →
      (c'.calls j).outstanding = true → c'.outgoingCalls.lookup k = some j := by
  have hc := consistent_reachable h
  have hl := labelled_reachable hio h
  refine ⟨fun i hi ho ↦ ⟨hc.own i hi ho, hl.header i hi⟩, fun i hi j hj hoi hoj heq ↦ ?_,
    fun a c' hs k j hk hj ↦ hc.entry_stays (step_cases hs) hk hj⟩
  have hli := hc.own i hi hoi
  rw [heq, hc.own j hj hoj] at hli
  exact (Option.some.inj hli).symm

/-- The second of two calls is registered after the first was answered. -/
theorem outstanding_registered_after_response :
    ∃ c, Reachable (step .groups) IdUnused new c ∧ 1 < c.submitted ∧
      (c.calls 1).outstanding = true ∧ c.outgoingCalls.lookup (c.calls 1).streamId = some 1 := by
  obtain ⟨c, hr, hp⟩ := Reachable.of_test (step .groups) IdUnused new
    [.sendUnaryRpc 3 [7], .sendReturns 0 true, .sendUnaryRpcWithTimeout 4 [] 1000,
      .handleResponse [0x06, 0, 0, 1, 0, 9], .completeStart 0 0]
    (fun c ↦ c.submitted == 2 && (c.calls 1).outstanding) (by decide +kernel) (by decide +kernel)
  simp only [Bool.and_eq_true, beq_iff_eq] at hp
  have hlt : 1 < c.submitted := by omega
  exact ⟨c, hr, hlt, hp.2, ((outstanding_registered RooIo.lawful_groups hr).1 1 hlt hp.2).1⟩

/-! ### Once round the ids -/

-- The first call is outstanding, with id 1, and no other call is registered.
private structure FirstOpen (c : RpcClient) : Prop where
  submitted : 0 < c.submitted
  outstanding : (c.calls 0).outstanding = true
  streamId : (c.calls 0).streamId = 1
  own : c.outgoingCalls.lookup 1 = some 0
  others : ∀ k ≠ 1, c.outgoingCalls.lookup k = none

private theorem sendUnaryRpc_new (hio : io.Lawful) (c : RpcClient) :
    ∃ bytes, c.step io (.sendUnaryRpc 0 []) = .ok (c.newStream
      ⟨c.nextStreamId, bytes, [], .sending, true, true, false, [], []⟩) := by
  rw [RpcClient.step, sendUnaryRpc, RpcClient.submit, RooIo.serialize_eq_ok hio.sized]
  exact ⟨_, rfl⟩

-- A call with an id other than 1 is made and answered.
private theorem FirstOpen.lap (hio : io.Lawful) (h : c.FirstOpen)
    (hr : Reachable (step io) anyStep new c) (hne : c.nextStreamId ≠ 1)
    (hid : c.nextStreamId.toNat < 2 ^ 24) :
    ∃ c', Reachable (step io) anyStep new c' ∧ c'.FirstOpen ∧
      c'.nextStreamId = if 0x00FFFFFF < c.nextStreamId + 1 then 1 else c.nextStreamId + 1 := by
  obtain ⟨request, hsend⟩ := sendUnaryRpc_new hio c
  obtain ⟨response, hresponse⟩ : ∃ response,
      io.readHeader (response ++ []) = some (.newUnaryResponse c.nextStreamId .ok, []) :=
    ⟨_, RooIo.readHeader_serialize hio (.response _ .ok hid) (RooIo.serialize_eq_ok hio.sized _) []⟩
  generalize hx : (⟨c.nextStreamId, request, [], .sending, true, true, false, [], []⟩ :
    OutgoingCall) = x at hsend
  have hfree : c.nextStreamId ∉ c.outgoingCalls := AList.lookup_eq_none.mp (h.others _ hne)
  have hreg : (c.newStream x).outgoingCalls = c.outgoingCalls.insert c.nextStreamId c.submitted :=
    if_neg hfree
  have hanswer : (c.newStream x).step io (.handleResponse (response ++ [])) =
      .ok ((c.newStream x).claim c.nextStreamId c.submitted ⟨[], .ok⟩) := by
    rw [RpcClient.step, RpcClient.handleResponse, hresponse]
    simp only [RpcHeader.newUnaryResponse, hreg, AList.lookup_insert]
    rfl
  refine ⟨_, .next (.next hr trivial hsend) trivial hanswer, ?_, rfl⟩
  have hfirst :
      ((c.newStream x).claim c.nextStreamId c.submitted ⟨[], .ok⟩).calls 0 = c.calls 0 := by
    have h0 : 0 ≠ c.submitted := h.submitted.ne
    rw [RpcClient.claim, calls_setCall_of_ne _ h0, newStream, calls_setCall_of_ne _ h0]
  constructor
  · exact Nat.succ_pos _
  · rw [hfirst]
    exact h.outstanding
  · rw [hfirst]
    exact h.streamId
  · rw [RpcClient.claim]
    dsimp only
    rw [AList.lookup_erase_ne hne.symm, hreg, AList.lookup_insert_ne hne.symm]
    exact h.own
  · intro k hk
    rw [RpcClient.claim]
    dsimp only
    by_cases hkn : k = c.nextStreamId
    · rw [hkn, AList.lookup_erase]
    · rw [AList.lookup_erase_ne hkn, hreg, AList.lookup_insert_ne hkn]
      exact h.others k hk

private theorem firstOpen_next (hio : io.Lawful) (n : Nat) (hn : n + 2 < 2 ^ 24) :
    ∃ c, Reachable (step io) anyStep new c ∧ c.FirstOpen ∧ c.nextStreamId.toNat = n + 2 := by
  induction n with
  | zero =>
    obtain ⟨bytes, hs⟩ := sendUnaryRpc_new hio new
    refine ⟨_, .next .start trivial hs, ⟨Nat.succ_pos _, rfl, rfl, rfl, fun k hk ↦ ?_⟩, rfl⟩
    exact (AList.lookup_insert_ne hk).trans rfl
  | succ n ih =>
    obtain ⟨c, hr, hopen, hnext⟩ := ih (by omega)
    have hne : c.nextStreamId ≠ 1 := by
      intro heq
      simp [heq] at hnext
    obtain ⟨c', hr', hopen', hnext'⟩ := FirstOpen.lap hio hopen hr hne (by omega)
    have hadd : (c.nextStreamId + 1).toNat = n + 3 := by
      rw [UInt32.toNat_add, hnext, UInt32.toNat_one]
      omega
    refine ⟨c', hr', hopen', ?_⟩
    rw [hnext', if_neg, hadd]
    rw [UInt32.lt_iff_toNat_lt, hadd]
    simp only [UInt32.reduceToNat]
    omega

-- The first call is outstanding while all other ids are used up, so that the id of a new
-- call is its id as well.
private theorem firstOpen_round (hio : io.Lawful) :
    ∃ c, Reachable (step io) anyStep new c ∧ c.FirstOpen ∧ c.nextStreamId = 1 := by
  obtain ⟨c, hr, hopen, hnext⟩ := firstOpen_next hio (2 ^ 24 - 3) (by norm_num)
  have hne : c.nextStreamId ≠ 1 := by
    intro heq
    simp [heq] at hnext
  obtain ⟨c', hr', hopen', hnext'⟩ := FirstOpen.lap hio hopen hr hne (by omega)
  refine ⟨c', hr', hopen', ?_⟩
  rw [hnext', if_pos]
  rw [UInt32.lt_iff_toNat_lt, UInt32.toNat_add, hnext]
  decide

/-- A call that is never answered stays registered while the ids go round. The call that
then gets its id is outstanding without being registered, and takes the entry of the first
one with it when its `send` fails. -/
theorem reused_id_shared :
    ∃ c i j, Reachable (step .groups) anyStep new c ∧ i < c.submitted ∧ j < c.submitted ∧ i ≠ j ∧
      (c.calls i).outstanding = true ∧ (c.calls j).outstanding = true ∧
      (c.calls i).streamId = (c.calls j).streamId ∧
      c.outgoingCalls.lookup (c.calls j).streamId = some i ∧
      ∃ c', execute (step .groups) c [.sendReturns j false, .cancelErase j] = .ok c' ∧
        (c'.calls i).outstanding = true ∧ c'.outgoingCalls.lookup (c.calls i).streamId = none := by
  obtain ⟨c, hr, hopen, hnext⟩ := firstOpen_round RooIo.lawful_groups
  obtain ⟨bytes, hs⟩ := sendUnaryRpc_new RooIo.lawful_groups c
  generalize hx : (⟨c.nextStreamId, bytes, [], .sending, true, true, false, [], []⟩ :
    OutgoingCall) = x at hs
  have hreg : (c.newStream x).outgoingCalls = c.outgoingCalls :=
    if_pos (AList.lookup_isSome.mp (by rw [hnext, hopen.own]; rfl))
  have hself : (c.newStream x).calls c.submitted = x := Function.update_self ..
  have h0 : 0 ≠ c.submitted := hopen.submitted.ne
  have hfirst : (c.newStream x).calls 0 = c.calls 0 := Function.update_of_ne h0 ..
  have hid : x.streamId = 1 := by rw [← hx, hnext]
  have hsending : x.submission = .sending := by rw [← hx]
  refine ⟨c.newStream x, 0, c.submitted, .next hr trivial hs, Nat.succ_pos _, Nat.lt_succ_self _,
    h0, ?_, ?_, ?_, ?_, ?_⟩
  · rw [hfirst]
    exact hopen.outstanding
  · rw [hself, ← hx]
  · rw [hfirst, hself, hopen.streamId, hid]
  · rw [hself, hreg, hid]
    exact hopen.own
  · generalize c.newStream x = d at hreg hself hfirst
    have hsend : d.step .groups (.sendReturns c.submitted false) =
        .ok (d.setCall c.submitted { x with submission := .cancelling }) := by
      rw [RpcClient.step, sendReturns, hself, if_pos hsending]
      rfl
    generalize hy : ({ x with submission := .cancelling } : OutgoingCall) = y at hsend
    have hcancelling : y.submission = .cancelling := by rw [← hy]
    refine ⟨_, by rw [execute, hsend]; rfl, ?_, ?_⟩
    · rw [cancelErase, calls_setCall_self, if_pos hcancelling, setCall, setCall]
      dsimp only
      rw [Function.update_of_ne h0, Function.update_of_ne h0, hfirst]
      exact hopen.outstanding
    · rw [cancelErase, calls_setCall_self, if_pos hcancelling, hfirst, hopen.streamId, ← hy, hid]
      exact AList.lookup_erase ..

end RpcClient

end RooTransport.Rpc
