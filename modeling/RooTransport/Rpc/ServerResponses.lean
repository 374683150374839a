import RooTransport.Rpc.Server

/-!
# One response for a request

Every response is sent for a request that was taken out of the pending calls for it, under
`mutex_` (`server.cpp:146–162` and `179–187`). A request is entered there once, so it is
answered at most once, on its own connection, and not as if in time after its deadline.
-/

namespace RooTransport.Rpc

open RooTransport.Base

/-- The response goes where its request came from, and says so if it is late. -/
structure Response.Sound (x : Response) : Prop where
  connectionId : x.connectionId = x.request.connectionId
  streamId : x.streamId = x.request.streamId
  inTime : x.status ≠ .deadlineExceeded → x.claimedAt < x.request.deadline

namespace RpcServer

variable {io : RooIo} {s s' : RpcServer io} {pair : Option (ConnectionId × RpcStreamId)}

/-- Requests are pending or answered, and no request is both or twice so. -/
structure Accountable (s : RpcServer io) : Prop where
  serial : ∀ (i : Nat) r, s.accepted[i]? = some r → r.serial = i ∧
    ∃ it, r.streamId = (io.readBeU24 it).1
  pending : ∀ k r, s.pendingCalls.lookup k = some r →
    r.streamId = k ∧ r ∈ s.accepted ∧ ∀ x ∈ s.responses, x.request ≠ r
  responses : ∀ x ∈ s.responses, x.request ∈ s.accepted ∧ x.Sound
  once : (s.responses.map (·.request)).Nodup

/-- A new server has nothing to account for. -/
theorem accountable_new (handlers : List RpcFunctionId) :
    (new handlers : RpcServer io).Accountable where
  serial := by simp [new]
  pending := by simp [new]
  responses := by simp [new, RpcServer.responses, DeadlineThread.response]
  once := by simp [new, RpcServer.responses, DeadlineThread.response]

private theorem Accountable.quiet (h : s.Accountable) (hacc : s'.accepted = s.accepted)
    (hpend : s'.pendingCalls = s.pendingCalls ∨ s'.pendingCalls = ∅)
    (hresp : s'.responses.Perm s.responses) : s'.Accountable := by
  constructor
  · rw [hacc]
    exact h.serial
  · intro k r hk
    rw [hacc]
    obtain hsame | hempty := hpend
    · rw [hsame] at hk
      obtain ⟨hid, hmem, hfree⟩ := h.pending k r hk
      exact ⟨hid, hmem, fun x hx ↦ hfree x (hresp.mem_iff.mp hx)⟩
    · simp [hempty] at hk
  · intro x hx
    rw [hacc]
    exact h.responses x (hresp.mem_iff.mp hx)
  · exact (hresp.map _).nodup_iff.mpr h.once

private theorem Accountable.accept (h : s.Accountable) {request : RpcRequest}
    (hserial : request.serial = s.accepted.length)
    (hid : ∃ it, request.streamId = (io.readBeU24 it).1)
    (hacc : s'.accepted = s.accepted ++ [request])
    (hpend : s'.pendingCalls = s.pendingCalls.insert request.streamId request)
    (hresp : s'.responses.Perm s.responses) : s'.Accountable := by
  have hnew : request ∉ s.accepted := by
    intro hmem
    obtain ⟨i, hi⟩ := List.mem_iff_getElem?.mp hmem
    obtain ⟨hlt, -⟩ := List.getElem?_eq_some_iff.mp hi
    have hnumber := (h.serial i request hi).1
    omega
  constructor
  · intro i r hr
    rw [hacc, List.getElem?_append] at hr
    split at hr
    · exact h.serial i r hr
    · obtain ⟨hi, hget⟩ := List.getElem?_eq_some_iff.mp hr
      rw [List.getElem_singleton] at hget
      rw [List.length_singleton] at hi
      rw [← hget, hserial]
      exact ⟨by omega, hid⟩
  · intro k r hk
    rw [hacc, List.mem_append, List.mem_singleton]
    rw [hpend] at hk
    by_cases hkr : k = request.streamId
    · rw [hkr, AList.lookup_insert] at hk
      obtain rfl := Option.some.inj hk
      refine ⟨hkr.symm, .inr rfl, fun x hx heq ↦ hnew ?_⟩
      rw [← heq]
      exact (h.responses x (hresp.mem_iff.mp hx)).1
    · rw [AList.lookup_insert_ne hkr] at hk
      obtain ⟨hid, hmem, hfree⟩ := h.pending k r hk
      exact ⟨hid, .inl hmem, fun x hx ↦ hfree x (hresp.mem_iff.mp hx)⟩
  · intro x hx
    rw [hacc, List.mem_append]
    obtain ⟨hmem, hsound⟩ := h.responses x (hresp.mem_iff.mp hx)
    exact ⟨.inl hmem, hsound⟩
  · exact (hresp.map _).nodup_iff.mpr h.once

private theorem Accountable.claim (h : s.Accountable) {k : RpcStreamId} {response : Response}
    (hl : s.pendingCalls.lookup k = some response.request) (hsound : response.Sound)
    (hacc : s'.accepted = s.accepted) (hpend : s'.pendingCalls = s.pendingCalls.erase k)
    (hresp : s'.responses.Perm (response :: s.responses)) : s'.Accountable := by
  obtain ⟨hid, hmem, hfree⟩ := h.pending k _ hl
  constructor
  · rw [hacc]
    exact h.serial
  · intro k' r hk
    have hne : k' ≠ k := by
      rintro rfl
      simp [hpend] at hk
    rw [hpend, AList.lookup_erase_ne hne] at hk
    obtain ⟨hid', hmem', hfree'⟩ := h.pending k' r hk
    rw [hacc]
    refine ⟨hid', hmem', fun x hx heq ↦ ?_⟩
    obtain rfl | hold := List.mem_cons.mp (hresp.mem_iff.mp hx)
    · exact hne (hid'.symm.trans (heq ▸ hid))
    · exact hfree' x hold heq
  · intro x hx
    rw [hacc]
    obtain rfl | hold := List.mem_cons.mp (hresp.mem_iff.mp hx)
    · exact ⟨hmem, hsound⟩
    · exact h.responses x hold
  · rw [(hresp.map _).nodup_iff, List.map_cons, List.nodup_cons]
    refine ⟨?_, h.once⟩
    rw [List.mem_map]
    rintro ⟨x, hx, heq⟩
    exact hfree x hx heq

/-- Step lemma: whoever takes the lock, requests stay accounted for. -/
theorem Accountable.step (h : s.Accountable) (hs : Step pair s s') : s'.Accountable := by
  cases hs with
  | quiet hacc hpend hresp => exact h.quiet hacc hpend hresp
  | accept request hin hserial hid hfree hacc hpend hresp =>
    exact h.accept hserial hid hacc hpend hresp
  | claim k response hl hconn hsid htime hacc hpend hresp =>
    have hid : response.streamId = response.request.streamId := by
      obtain hk | hk := hsid
      · rw [hk, (h.pending k _ hl).1]
      · exact hk
    exact h.claim hl ⟨hconn, hid, htime⟩ hacc hpend hresp

/-- In every run the responses are accounted for. -/
theorem accountable_reachable {handlers : List RpcFunctionId} {guard : RpcServer io → Act → Prop}
    (h : Reachable step guard (new handlers) s) : s.Accountable :=
  h.invariant Accountable (accountable_new handlers) fun _ _ _ hc _ hs ↦ hc.step (step_cases hs)

private theorem Accountable.sent (h : s.Accountable) {m : Message io} (hm : m ∈ s.sent) :
    m.response.request ∈ s.accepted ∧ m.response.Sound :=
  h.responses _ (List.mem_append_right _ (List.mem_map_of_mem hm))

private theorem Accountable.sent_once (h : s.Accountable) :
    (s.sent.map (·.response.request)).Nodup := by
  have honce := h.once
  rw [RpcServer.responses, List.map_append, List.map_map] at honce
  exact honce.of_append_right

/-- However the locked sections interleave: no more responses are sent for a connection and
stream id than requests were accepted with them, each is sent for a request of its own, on
that request's connection and with its stream id in the header, and a status other than
`kDeadlineExceeded` was claimed before the deadline. -/
theorem responses_le_accepted (hio : io.Lawful) (hbounded : io.Bounded)
    {handlers : List RpcFunctionId} (h : Reachable step anyStep (new handlers) s) :
    (∀ connectionId streamId,
      s.sent.countP
          (fun m ↦ m.response.connectionId = connectionId ∧ m.response.streamId = streamId) ≤
        s.accepted.countP (fun r ↦ r.connectionId = connectionId ∧ r.streamId = streamId)) ∧
    (s.sent.map (·.response.request)).Nodup ∧
    ∀ m ∈ s.sent, m.response.request ∈ s.accepted ∧
      m.response.connectionId = m.response.request.connectionId ∧
      io.readHeader (m.header ++ m.response.data) =
        some (.newUnaryResponse m.response.request.streamId m.response.status, m.response.data) ∧
      (m.response.status ≠ .deadlineExceeded →
        m.response.claimedAt < m.response.request.deadline) := by
  have hacc := accountable_reachable h
  refine ⟨fun connectionId streamId ↦ ?_, hacc.sent_once, fun m hm ↦ ?_⟩
  · have hsub : (s.sent.map (·.response.request)).Subperm s.accepted := by
      refine hacc.sent_once.subperm fun r hr ↦ ?_
      obtain ⟨m, hm, rfl⟩ := List.mem_map.mp hr
      exact (hacc.sent hm).1
    refine le_of_eq_of_le ?_ (hsub.countP_le _)
    rw [List.countP_map]
    refine List.countP_congr fun m hm ↦ ?_
    obtain ⟨-, hsound⟩ := hacc.sent hm
    simp [hsound.connectionId, hsound.streamId]
  · obtain ⟨hmem, hsound⟩ := hacc.sent hm
    refine ⟨hmem, hsound.connectionId, ?_, hsound.inTime⟩
    obtain ⟨i, hi⟩ := List.mem_iff_getElem?.mp hmem
    obtain ⟨it, hit⟩ := (hacc.serial i _ hi).2
    have hid : m.response.streamId.toNat < 2 ^ 24 := by
      rw [hsound.streamId, hit]
      exact hbounded it
    rw [← hsound.streamId]
    exact RooIo.readHeader_serialize hio (.response _ _ hid) m.serialized _

/-- One request is answered by its handler 19.9 ms before its deadline. -/
theorem responses_le_accepted_in_time :
    ∃ s : RpcServer .groups, Reachable step anyStep (new [1]) s ∧ s.accepted.length = 1 ∧
      s.sent.countP (fun m ↦ m.response.connectionId = 5 ∧ m.response.streamId = 7) = 1 ∧
      s.accepted.countP (fun r ↦ r.connectionId = 5 ∧ r.streamId = 7) = 1 ∧
      ∀ m ∈ s.sent, m.response.status = .ok ∧
        m.response.claimedAt < m.response.request.deadline := by
  obtain ⟨s, hr, hp⟩ := Reachable.of_test step anyStep (new [1] : RpcServer .groups)
    [.begin, .handleRequest 5 [0x0F, 0, 0, 7, 1, 20, 3], .dispatch 0 0, .dispatch 0 1,
      .sendSuccessResponse 0 [9] 100, .transmit 0]
    (fun s ↦ s.accepted.length = 1 &&
      s.sent.countP (fun m ↦ m.response.connectionId = 5 ∧ m.response.streamId = 7) = 1 &&
      s.sent.all (fun m ↦ m.response.status = .ok))
    (meets_anyStep ..) (by decide +kernel)
  simp only [Bool.and_eq_true, decide_eq_true_eq, List.all_eq_true] at hp
  obtain ⟨⟨hlen, hsent⟩, hok⟩ := hp
  obtain ⟨hle, -, hall⟩ :=
    responses_le_accepted RooIo.lawful_groups RooIo.bounded_groups hr
  refine ⟨s, hr, hlen, hsent, ?_, fun m hm ↦ ⟨hok m hm, ?_⟩⟩
  · have hbound := hle 5 7
    have hmax := List.countP_le_length
      (p := fun r : RpcRequest ↦ r.connectionId = 5 ∧ r.streamId = 7) (l := s.accepted)
    rw [hsent] at hbound
    rw [hlen] at hmax
    exact le_antisymm hmax hbound
  · exact (hall m hm).2.2.2 (by rw [hok m hm]; decide)

end RpcServer

end RooTransport.Rpc
