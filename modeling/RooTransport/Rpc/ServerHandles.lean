import RooTransport.Rpc.ServerResponses

/-!
# Handles of requests

A `RequestHandle` names its request by connection and stream id only (`request.h:60–81`),
and `prepForResponse` takes whatever request is pending under them (`server.cpp:146–162`).
It is its own request, unless a request was accepted on the connection with a stream id
that had been used on it before.
-/

namespace RooTransport.Rpc

open RooTransport.Base

namespace RpcServer

variable {io : RooIo} {s s' : RpcServer io} {pair : Option (ConnectionId × RpcStreamId)}

/-- The request is among the pending calls. -/
def Pending (s : RpcServer io) (r : RpcRequest) : Prop := ∃ k, s.pendingCalls.lookup k = some r

/-- A request that is accepted has another connection or stream id than all requests that a
handle was created for, or may yet be. -/
def FreshPair (s : RpcServer io) (a : Act) : Prop :=
  ∀ pair ∈ s.incoming a, ∀ handle ∈ s.handles, (handle.connectionId, handle.streamId) ≠ pair

instance (s : RpcServer io) (a : Act) : Decidable (s.FreshPair a) :=
  match h : s.incoming a with
  | none => .isTrue (by simp [FreshPair, h])
  | some pair =>
    decidable_of_iff (∀ handle ∈ s.handles, (handle.connectionId, handle.streamId) ≠ pair)
      (by simp [FreshPair, h])

/-- Every handle is that of an accepted request, and reaches no other pending one. -/
def HandlesOwn (s : RpcServer io) : Prop :=
  ∀ handle ∈ s.handles, ∃ r ∈ s.accepted, r.handle = handle ∧
    ∀ k r', s.pendingCalls.lookup k = some r' → r'.connectionId = handle.connectionId →
      r'.streamId = handle.streamId → r' = r

/-- Step lemma: handles keep to their own requests if no pair is used again. -/
theorem HandlesOwn.step (h : s.HandlesOwn) (hacc : s.Accountable) (hs : Step pair s s')
    (hfresh : ∀ p ∈ pair, ∀ handle ∈ s.handles, (handle.connectionId, handle.streamId) ≠ p) :
    s'.HandlesOwn := by
  -- dropping pending calls or handles does no harm
  have hkept (haccepted : s'.accepted = s.accepted) (hhandles : s'.handles ⊆ s.handles)
      (hpend : ∀ k r, s'.pendingCalls.lookup k = some r → s.pendingCalls.lookup k = some r) :
      s'.HandlesOwn := by
    intro handle hmem
    obtain ⟨r, hr, heq, hown⟩ := h handle (hhandles hmem)
    rw [haccepted]
    exact ⟨r, hr, heq, fun k r' hk ↦ hown k r' (hpend k r' hk)⟩
  cases hs with
  | quiet haccepted hpend hresp hhandles =>
    refine hkept haccepted hhandles fun k r hk ↦ ?_
    obtain hsame | hempty := hpend
    · rwa [hsame] at hk
    · simp [hempty] at hk
  | claim k response hl hconn hsid htime haccepted hpend hresp hhandles =>
    refine hkept haccepted hhandles fun k' r hk ↦ ?_
    have hne : k' ≠ k := by
      rintro rfl
      simp [hpend] at hk
    rwa [hpend, AList.lookup_erase_ne hne] at hk
  | accept request hin hserial hid hfree haccepted hpend hresp hhandles =>
    have hpending {k : RpcStreamId} {r : RpcRequest} (hk : s'.pendingCalls.lookup k = some r) :
        r = request ∨ s.pendingCalls.lookup k = some r ∧ k ≠ request.streamId := by
      rw [hpend] at hk
      by_cases hkr : k = request.streamId
      · rw [hkr, AList.lookup_insert] at hk
        exact .inl (Option.some.inj hk).symm
      · rw [AList.lookup_insert_ne hkr] at hk
        exact .inr ⟨hk, hkr⟩
    intro handle hmem
    rw [haccepted]
    obtain rfl | hold := List.mem_cons.mp (hhandles hmem)
    · refine ⟨request, by simp, rfl, fun k r' hk hconn hstream ↦ ?_⟩
      obtain hnew | ⟨hk, hne⟩ := hpending hk
      · exact hnew
      · exact absurd ((hacc.pending k r' hk).1.symm.trans hstream) hne
    · obtain ⟨r, hr, heq, hown⟩ := h handle hold
      refine ⟨r, by simp [hr], heq, fun k r' hk hconn hstream ↦ ?_⟩
      obtain rfl | ⟨hk, -⟩ := hpending hk
      · exact absurd (Prod.ext hconn.symm hstream.symm) (hfresh _ hin handle hold)
      · exact hown k r' hk hconn hstream

/-- In every run with fresh pairs each handle answers the request it was made for. -/
theorem handlesOwn_reachable {handlers : List RpcFunctionId}
    (h : Reachable step FreshPair (new handlers) s) : s.HandlesOwn := by
  refine (h.invariant (fun s ↦ s.Accountable ∧ s.HandlesOwn) ⟨accountable_new handlers, ?_⟩ ?_).2
  · simp [HandlesOwn, handles, new]
  · rintro s a s' ⟨hacc, hown⟩ hg hs
    exact ⟨hacc.step (step_cases hs), hown.step hacc (step_cases hs) hg⟩

/-! ### Using a handle -/

/-- The step is a use of the handle of the `k`-th handler invocation. -/
def Uses (k : Nat) : Act → Prop
  | .sendSuccessResponse k' _ _ | .sendFailureResponse k' _ _ _ => k' = k
  | _ => False

/-- A use of a handle does nothing, or answers the request that is pending under its ids. -/
theorem uses_cases {k : Nat} {i : Invocation} {a : Act} (hk : s.invocations[k]? = some i)
    (ha : Uses k a) (hs : s.step a = .ok s') :
    s' = s ∨ ∃ x : Response, s.pendingCalls.lookup i.handle.streamId = some x.request ∧
      x.request.connectionId = i.handle.connectionId ∧ s'.outbox = s.outbox ++ [x] ∧
      s'.pendingCalls = s.pendingCalls.erase i.handle.streamId := by
  cases a with
  | sendSuccessResponse k' data now =>
    obtain rfl : k' = k := ha
    rw [RpcServer.step, hk] at hs
    cases hs
    unfold sendSuccessResponse
    split
    · exact .inl rfl
    · next status request hprep =>
      obtain ⟨hl, hconn, rfl, -⟩ := prepForResponse_eq_some hprep
      exact .inr ⟨_, hl, hconn.symm, rfl, rfl⟩
  | sendFailureResponse k' status msg now =>
    obtain rfl : k' = k := ha
    rw [RpcServer.step, hk] at hs
    cases hs
    unfold sendFailureResponse
    split
    · exact .inl rfl
    · next status request hprep =>
      obtain ⟨hl, hconn, rfl, -⟩ := prepForResponse_eq_some hprep
      exact .inr ⟨_, hl, hconn.symm, rfl, rfl⟩
  | _ => exact ha.elim

/-- Step lemma: a request that is not pending any more never is again. -/
theorem gone_step {r : RpcRequest} (hs : Step pair s s') (hr : r.serial < s.accepted.length)
    (hgone : ¬ s.Pending r) : r.serial < s'.accepted.length ∧ ¬ s'.Pending r := by
  cases hs with
  | quiet hacc hpend hresp hhandles =>
    rw [hacc]
    refine ⟨hr, ?_⟩
    rintro ⟨k, hk⟩
    obtain hsame | hempty := hpend
    · exact hgone ⟨k, hsame ▸ hk⟩
    · simp [hempty] at hk
  | accept request hin hserial hid hfree hacc hpend hresp hhandles =>
    rw [hacc, List.length_append]
    refine ⟨by omega, ?_⟩
    rintro ⟨k, hk⟩
    rw [hpend] at hk
    by_cases hkr : k = request.streamId
    · rw [hkr, AList.lookup_insert] at hk
      obtain rfl := Option.some.inj hk
      omega
    · rw [AList.lookup_insert_ne hkr] at hk
      exact hgone ⟨k, hk⟩
  | claim k response hl hconn hsid htime hacc hpend hresp hhandles =>
    rw [hacc]
    refine ⟨hr, ?_⟩
    rintro ⟨k', hk⟩
    have hne : k' ≠ k := by
      rintro rfl
      simp [hpend] at hk
    rw [hpend, AList.lookup_erase_ne hne] at hk
    exact hgone ⟨k', hk⟩

/-- A request that is no longer pending never is again. -/
theorem gone_execute {r : RpcRequest} (acts : List Act) : ∀ {s s' : RpcServer io},
    r.serial < s.accepted.length → ¬ s.Pending r → execute step s acts = .ok s' →
      ¬ s'.Pending r := by
  induction acts with
  | nil =>
    intro s s' _ hgone he
    cases he
    exact hgone
  | cons a rest ih =>
    intro s s' hr hgone he
    unfold execute at he
    split at he
    · cases he
    · next t ht =>
      obtain ⟨hr', hgone'⟩ := gone_step (step_cases ht) hr hgone
      exact ih hr' hgone' he

/-- In a run that uses no pair of connection and stream id twice: a use of a handle either
does nothing, or answers the request it was created for and takes that out of the pending
calls; and once that request is not pending, it never is again. -/
theorem handle_answers_own {handlers : List RpcFunctionId}
    (h : Reachable step FreshPair (new handlers) s) {k : Nat} {i : Invocation}
    (hk : s.invocations[k]? = some i) :
    ∃ r, s.accepted[i.handle.serial]? = some r ∧ r.handle = i.handle ∧
      (∀ a s', Uses k a → s.step a = .ok s' → s' = s ∨ s.Pending r ∧
        (∃ x : Response, x.request = r ∧ s'.outbox = s.outbox ++ [x]) ∧
        s'.pendingCalls = s.pendingCalls.erase r.streamId) ∧
      ∀ acts s', execute step s acts = .ok s' → ¬ s.Pending r → ¬ s'.Pending r := by
  have hacc := accountable_reachable h
  have hmem : i.handle ∈ s.handles :=
    List.mem_append_left _ (List.mem_map_of_mem (List.mem_of_getElem? hk))
  obtain ⟨r, hr, heq, hown⟩ := handlesOwn_reachable h i.handle hmem
  obtain ⟨n, hn⟩ := List.mem_iff_getElem?.mp hr
  obtain ⟨hlt, -⟩ := List.getElem?_eq_some_iff.mp hn
  obtain rfl : r.serial = n := (hacc.serial n r hn).1
  refine ⟨r, by rw [← heq]; exact hn, heq, fun a s' ha hs ↦ ?_,
    fun acts s' he hgone ↦ gone_execute acts hlt hgone he⟩
  obtain hsame | ⟨x, hl, hconn, hout, hpend⟩ := uses_cases hk ha hs
  · exact .inl hsame
  · have hx : x.request = r := hown _ _ hl hconn (hacc.pending _ _ hl).1
    have hid : r.streamId = i.handle.streamId := congrArg RequestHandle.streamId heq
    refine .inr ⟨⟨_, hx ▸ hl⟩, ⟨x, hx, hout⟩, ?_⟩
    rw [hid]
    exact hpend

private theorem pending_serial {n : Nat}
    (h : s.pendingCalls.entries.all (fun e ↦ e.2.serial = n) = true) {r : RpcRequest}
    (hr : s.Pending r) : r.serial = n := by
  obtain ⟨k, hk⟩ := hr
  rw [List.all_eq_true] at h
  exact of_decide_eq_true (h ⟨k, r⟩ (AList.mem_lookup_iff.mp hk))

/-- The first request was answered; its handle does nothing to a request that uses the same
stream id on a new connection. -/
theorem handle_answers_own_reconnected :
    ∃ (s : RpcServer .groups) (i : Invocation), Reachable step FreshPair (new [1]) s ∧
      s.invocations[0]? = some i ∧
      i.handle.streamId ∈ s.pendingCalls ∧ ∀ a s', Uses 0 a → s.step a = .ok s' → s' = s := by
  obtain ⟨s, hr, hp⟩ := Reachable.of_test step FreshPair (new [1] : RpcServer .groups)
    [.begin, .handleRequest 5 [0x07, 0, 0, 7, 1], .dispatch 0 0, .dispatch 0 0,
      .sendSuccessResponse 0 [1] 0, .handleRequest 6 [0x07, 0, 0, 7, 1],
      .dispatch 0 0, .dispatch 0 0]
    (fun s ↦ s.invocations.map (·.handle) = [⟨5, 7, 0⟩, ⟨6, 7, 1⟩] && 7 ∈ s.pendingCalls.keys &&
      s.pendingCalls.entries.all (fun e ↦ e.2.serial = 1))
    (by decide +kernel) (by decide +kernel)
  simp only [Bool.and_eq_true, decide_eq_true_eq] at hp
  obtain ⟨⟨hhandles, hkey⟩, hserial⟩ := hp
  obtain ⟨i, hi, hhandle⟩ : ∃ i, s.invocations[0]? = some i ∧ i.handle = ⟨5, 7, 0⟩ := by
    have hget := congrArg (·[0]?) hhandles
    simpa only [List.getElem?_map, List.getElem?_cons_zero, Option.map_eq_some_iff] using hget
  obtain ⟨r, -, heq, huse, -⟩ := handle_answers_own hr hi
  refine ⟨s, i, hr, hi, by rw [hhandle]; exact hkey, fun a s' ha hs ↦ ?_⟩
  obtain hsame | ⟨hpend, -⟩ := huse a s' ha hs
  · exact hsame
  · have hzero : r.serial = 0 := congrArg RequestHandle.serial (heq.trans hhandle)
    have hone := pending_serial hserial hpend
    omega

/-- The stream id of an answered request is used again on its connection. The old handle
then answers the new request, in place of the new one. -/
theorem reused_stream_misanswered :
    ∃ s s' : RpcServer .groups, Reachable step anyStep (new [1]) s ∧
      s.invocations.map (·.handle) = [⟨5, 7, 0⟩, ⟨5, 7, 1⟩] ∧ (∀ r, s.Pending r → r.serial = 1) ∧
      s.outbox = [] ∧ s.step (.sendSuccessResponse 0 [9] 0) = .ok s' ∧
      s'.outbox.map (fun x ↦ (x.request.serial, x.status, x.data)) = [(1, .ok, [9])] ∧
      s'.pendingCalls.keys = [] := by
  obtain ⟨s, s', hr, hs, hp⟩ := Reachable.of_test_step step anyStep (new [1] : RpcServer .groups)
    [.begin, .handleRequest 5 [0x07, 0, 0, 7, 1], .dispatch 0 0, .dispatch 0 0,
      .sendSuccessResponse 0 [1] 0, .transmit 0, .handleRequest 5 [0x07, 0, 0, 7, 1],
      .dispatch 0 0, .dispatch 0 0]
    (.sendSuccessResponse 0 [9] 0)
    (fun s s' ↦ s.invocations.map (·.handle) = [⟨5, 7, 0⟩, ⟨5, 7, 1⟩] &&
      s.pendingCalls.entries.all (fun e ↦ e.2.serial = 1) && s.outbox = [] &&
      s'.outbox.map (fun x ↦ (x.request.serial, x.status, x.data)) = [(1, .ok, [9])] &&
      s'.pendingCalls.keys = [])
    (meets_anyStep ..) (by decide +kernel)
  simp only [Bool.and_eq_true, decide_eq_true_eq] at hp
  obtain ⟨⟨⟨⟨hhandles, hserial⟩, hout⟩, hsent⟩, hkeys⟩ := hp
  exact ⟨s, s', hr, hhandles, fun r ↦ pending_serial hserial, hout, hs, hsent, hkeys⟩

end RpcServer

end RooTransport.Rpc
