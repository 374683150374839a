import RooTransport.Rpc.Client
import RooTransport.Rpc.Server

/-!
# What a received message can do

The header of a message can carry any of 16 combinations of flags, and unary calls use four
of them. A request that does not start its stream hits the `LOG(FATAL)` of `handleRequest`
(`server.cpp:94`); no other step of either endpoint fails a check. Whether a message ends
its stream is not looked at before it changes the pending or the outgoing calls.
-/

namespace RooTransport.Rpc

open RooTransport.Base

variable {io : RooIo}

/-- The message starts with a header of a unary request or response. -/
def Unary (io : RooIo) (type : MessageType) (data : List UInt8) : Prop :=
  ∃ header payload, io.readHeader data = some (header, payload) ∧ header.type = type ∧
    header.firstMessage = true ∧ header.lastMessage = true

/-- The header is not that of a unary message. -/
theorem not_unary {type : MessageType} {data payload : List UInt8} {header : RpcHeader}
    (hd : io.readHeader data = some (header, payload))
    (h : header.firstMessage = false ∨ header.lastMessage = false) : ¬ Unary io type data := by
  rintro ⟨header', payload', hd', -, hfirst, hlast⟩
  obtain ⟨rfl, rfl⟩ := Prod.mk.inj (Option.some.inj (hd.symm.trans hd'))
  simp [hfirst, hlast] at h

namespace RpcServer

variable {s s' : RpcServer io}

/-- The message is a request that does not start its stream, or one that starts a stream
without ending it and that the server is about to accept. -/
def Streams (s : RpcServer io) (data : List UInt8) : Prop :=
  ∃ header payload, io.readHeader data = some (header, payload) ∧ header.type = .request ∧
    (header.firstMessage = false ∨
      header.lastMessage = false ∧ header.streamId ∉ s.pendingCalls ∧ s.active = true)

private theorem deadlineOf_ok {header : RpcHeader} (htype : header.type = .request)
    (hfirst : header.firstMessage = true) (now : Uptime) :
    ∃ deadline, deadlineOf header now = .ok deadline := by
  unfold deadlineOf
  split
  · next htimeout =>
    rw [RpcHeader.getTimeoutMs, if_pos ⟨htype, hfirst, htimeout⟩]
    exact ⟨_, rfl⟩
  · exact ⟨_, rfl⟩

/-- A request that starts its stream passes all checks. -/
theorem accept_request (s : RpcServer io) (connectionId : ConnectionId)
    {data payload : List UInt8} {header : RpcHeader} (now : Uptime)
    (hd : io.readHeader data = some (header, payload)) (htype : header.type = .request)
    (hfirst : header.firstMessage = true) :
    ∃ deadline, s.accept connectionId data now =
      .ok (s.insertRequest connectionId header header.functionId deadline payload) := by
  obtain ⟨deadline, hdeadline⟩ := deadlineOf_ok htype hfirst now
  refine ⟨deadline, ?_⟩
  unfold accept
  rw [hd]
  dsimp only
  rw [if_neg (not_not.mpr htype), if_pos hfirst, RpcHeader.getFunctionId,
    if_pos ⟨htype, hfirst⟩, Except.bind, hdeadline]
  rfl

private theorem insertRequest_pending (s : RpcServer io) (connectionId : ConnectionId)
    (header : RpcHeader) (functionId : RpcFunctionId) (deadline : Uptime) (payload : List UInt8) :
    (s.insertRequest connectionId header functionId deadline payload).1.pendingCalls =
      s.pendingCalls ↔ header.streamId ∈ s.pendingCalls ∨ s.active = false := by
  unfold insertRequest
  split
  · next hmem => simp [hmem]
  next hfree =>
  split
  · next hactive => simp [hactive]
  · next hactive =>
    constructor
    · intro heq
      apply absurd _ hfree
      rw [← heq]
      exact (AList.mem_insert _).mpr (.inl rfl)
    · rintro (hmem | hinactive)
      · exact absurd hmem hfree
      · exact absurd hinactive hactive

private theorem streams_iff {data payload : List UInt8} {header : RpcHeader}
    (hd : io.readHeader data = some (header, payload)) :
    s.Streams data ↔ header.type = .request ∧ (header.firstMessage = false ∨
      header.lastMessage = false ∧ header.streamId ∉ s.pendingCalls ∧ s.active = true) := by
  simp [Streams, hd]

/-- Spec of the section that accepts a request: it goes through, and enters no message that is
not a unary request, unless the message streams. -/
theorem accept_iff (s : RpcServer io) (connectionId : ConnectionId) (data : List UInt8)
    (now : Uptime) :
    (∃ p, s.accept connectionId data now = .ok p ∧
      (¬ Unary io .request data → p.1.pendingCalls = s.pendingCalls)) ↔ ¬ s.Streams data := by
  cases hd : io.readHeader data with
  | none =>
    have hok : s.accept connectionId data now = .ok (s, none) := by
      unfold accept
      rw [hd]
    simp [hok, Streams, hd]
  | some p =>
    obtain ⟨header, payload⟩ := p
    rw [streams_iff hd]
    by_cases htype : header.type = .request
    · cases hfirst : header.firstMessage with
      | false =>
        have herr : s.accept connectionId data now = .error .streamingRpc := by
          unfold accept
          rw [hd]
          simp [htype, hfirst]
        simp [herr, htype]
      | true =>
        obtain ⟨deadline, hok⟩ := accept_request s connectionId now hd htype hfirst
        cases hlast : header.lastMessage with
        | false =>
          have hnot : ¬ Unary io .request data := not_unary hd (.inr hlast)
          simp [hok, hnot, htype, insertRequest_pending, or_iff_not_imp_left]
        | true =>
          have hun : Unary io .request data := ⟨header, payload, hd, htype, hfirst, hlast⟩
          simp [hok, hun]
    · have hok : s.accept connectionId data now = .ok (s, none) := by
        unfold accept
        rw [hd]
        simp [htype]
      simp [hok, htype]

private theorem sendResponse_ok (hio : io.Sized) (s : RpcServer io) (response : Response) :
    ∃ s', s.sendResponse response = .ok s' := by
  unfold sendResponse
  split
  · next herr =>
    rw [RooIo.serialize_eq_ok hio] at herr
    cases herr
  · exact ⟨_, rfl⟩

/-- Apart from the section that accepts a request, no step of the server fails a check. -/
theorem step_ok (hio : io.Sized) (s : RpcServer io) (a : Act)
    (h : ∀ j now connectionId data, a = .dispatch j now →
      s.dispatchers[j]? ≠ some (.received connectionId data)) : ∃ s', s.step a = .ok s' := by
  cases a with
  | dispatch j now =>
    rw [RpcServer.step]
    split
    · exact ⟨_, rfl⟩
    next d hj =>
    cases d with
    | received connectionId data => exact absurd hj (h j now connectionId data rfl)
    | accepted request payload => exact ⟨_, rfl⟩
    | rejecting connectionId streamId status msg => exact ⟨_, rfl⟩
  | transmit j =>
    rw [RpcServer.step, RpcServer.transmit]
    split
    · exact ⟨_, rfl⟩
    · exact sendResponse_ok hio ..
  | deadlineLoop now order =>
    rw [RpcServer.step]
    split
    · unfold RpcServer.deadlineLoop
      split
      · exact ⟨_, rfl⟩
      · exact ⟨_, rfl⟩
      · exact sendResponse_ok hio ..
      · split
        · exact ⟨_, rfl⟩
        split
        · exact ⟨_, rfl⟩
        split <;> exact ⟨_, rfl⟩
    · exact ⟨_, rfl⟩
  | sendSuccessResponse k data now | sendFailureResponse k status msg now =>
    rw [RpcServer.step]
    split <;> exact ⟨_, rfl⟩
  | begin | endLock | endJoin | handleRequest | connectionReset => exact ⟨_, rfl⟩

end RpcServer

namespace RpcClient

variable {c : RpcClient}

/-- The message is a response that does not start or does not end its stream, for a call that
is registered. -/
def Streams (io : RooIo) (c : RpcClient) (data : List UInt8) : Prop :=
  ∃ header payload, io.readHeader data = some (header, payload) ∧ header.type = .response ∧
    (header.firstMessage = false ∨ header.lastMessage = false) ∧ header.streamId ∈ c.outgoingCalls

/-- Spec of `handleResponse`: it passes all checks, and takes out the call it names. -/
theorem handleResponse_ok {data payload : List UInt8} {header : RpcHeader}
    (hd : io.readHeader data = some (header, payload)) :
    ∃ c', c.handleResponse io data = .ok c' ∧ (c'.outgoingCalls = c.outgoingCalls ↔
      ¬ (header.type = .response ∧ header.streamId ∈ c.outgoingCalls)) := by
  unfold RpcClient.handleResponse
  rw [hd]
  dsimp only
  split
  · next htype => exact ⟨c, rfl, by simp [htype]⟩
  next htype =>
  rw [not_not] at htype
  have herase (hmem : header.streamId ∈ c.outgoingCalls) :
      c.outgoingCalls.erase header.streamId ≠ c.outgoingCalls := by
    intro heq
    rw [← heq] at hmem
    simp at hmem
  split
  · next hl =>
    refine ⟨c, rfl, ?_⟩
    simp [AList.lookup_eq_none.mp hl]
  next i hl =>
  have hmem : header.streamId ∈ c.outgoingCalls := AList.lookup_isSome.mp (by rw [hl]; rfl)
  split
  · next hlast =>
    rw [RpcHeader.getResponseStatus, if_pos ⟨htype, hlast⟩]
    refine ⟨_, rfl, ?_⟩
    simpa [RpcClient.claim, htype, hmem] using herase hmem
  · refine ⟨_, rfl, ?_⟩
    simpa [RpcClient.claim, htype, hmem] using herase hmem

private theorem handleResponse_iff (c : RpcClient) (data : List UInt8) :
    (∃ c', c.handleResponse io data = .ok c' ∧
      (¬ Unary io .response data → c'.outgoingCalls = c.outgoingCalls)) ↔
        ¬ c.Streams io data := by
  cases hd : io.readHeader data with
  | none =>
    have hok : c.handleResponse io data = .ok c := by
      unfold RpcClient.handleResponse
      rw [hd]
    simp [hok, Streams, hd]
  | some p =>
    obtain ⟨header, payload⟩ := p
    obtain ⟨c', hok, hsame⟩ := handleResponse_ok (c := c) hd
    have hun : Unary io .response data ↔ header.type = .response ∧ header.firstMessage = true ∧
        header.lastMessage = true := by
      simp [Unary, hd]
    have hstreams : c.Streams io data ↔ header.type = .response ∧
        (header.firstMessage = false ∨ header.lastMessage = false) ∧
        header.streamId ∈ c.outgoingCalls := by
      simp [Streams, hd]
    simp only [hok, Except.ok.injEq, exists_eq_left', hun, hsame, hstreams]
    by_cases htype : header.type = .response
    · cases header.firstMessage <;> cases header.lastMessage <;> simp [htype]
    · simp [htype]

end RpcClient

/-- For every state and every message: the sections that receive it pass all checks, and
leave the pending or the outgoing calls alone if it is not unary, exactly if it does not
stream. The other sections of `handleRequest`, and the sending, pass all checks. -/
theorem received_message_harmless_iff (hio : io.Sized) (s : RpcServer io) (c : RpcClient)
    (connectionId : ConnectionId) (data : List UInt8) :
    (∃ s', s.step (.handleRequest connectionId data) = .ok s' ∧
      s'.pendingCalls = if connectionId = s.connectionId then s.pendingCalls else ∅) ∧
    (∀ j now, s.dispatchers[j]? = some (.received connectionId data) →
      ((∃ s', s.step (.dispatch j now) = .ok s' ∧
        (¬ Unary io .request data → s'.pendingCalls = s.pendingCalls)) ↔ ¬ s.Streams data)) ∧
    (∀ a, (∀ j now connectionId data, a = .dispatch j now →
      s.dispatchers[j]? ≠ some (.received connectionId data)) → ∃ s', s.step a = .ok s') ∧
    ((∃ c', c.step io (.handleResponse data) = .ok c' ∧
      (¬ Unary io .response data → c'.outgoingCalls = c.outgoingCalls)) ↔
        ¬ c.Streams io data) := by
  refine ⟨?_, fun j now hj ↦ ?_, s.step_ok hio, c.handleResponse_iff data⟩
  · refine ⟨_, rfl, ?_⟩
    unfold RpcServer.reconnected
    split <;> rfl
  · rw [← RpcServer.accept_iff s connectionId data now, RpcServer.step, hj]
    constructor
    · rintro ⟨s', hs, hpend⟩
      obtain ⟨p, hp, rfl⟩ := map_eq_ok.mp hs
      exact ⟨p, hp, hpend⟩
    · rintro ⟨p, hp, hpend⟩
      exact ⟨_, map_eq_ok.mpr ⟨p, hp, rfl⟩, hpend⟩

/-- A unary request with a payload is taken without harm. -/
theorem received_message_harmless_unary :
    ∃ s : RpcServer .groups, Reachable RpcServer.step anyStep (.new [1]) s ∧
      s.dispatchers[0]? = some (.received 5 [0x07, 0, 0, 7, 1, 9]) ∧
      ∃ s', s.step (.dispatch 0 0) = .ok s' := by
  obtain ⟨s, hr, hp⟩ := Reachable.of_test RpcServer.step anyStep
    (.new [1] : RpcServer .groups) [.begin, .handleRequest 5 [0x07, 0, 0, 7, 1, 9]]
    (fun s ↦ s.dispatchers[0]? = some (.received 5 [0x07, 0, 0, 7, 1, 9])) (meets_anyStep ..)
    (by decide +kernel)
  have hj := of_decide_eq_true hp
  have hheader : RooIo.groups.readHeader [0x07, 0, 0, 7, 1, 9] =
      some (.newUnaryRequest 1 7, [9]) := by decide +kernel
  have hstreams : ¬ s.Streams [0x07, 0, 0, 7, 1, 9] := by
    simp [RpcServer.Streams, hheader, RpcHeader.newUnaryRequest]
  obtain ⟨-, hdispatch, -, -⟩ :=
    received_message_harmless_iff RooIo.lawful_groups.sized s .new 5 [0x07, 0, 0, 7, 1, 9]
  obtain ⟨s', hs, -⟩ := (hdispatch 0 0 hj).mpr hstreams
  exact ⟨s, hr, hj, s', hs⟩

/-- A request that does not start its stream aborts the server; one that does not end it is
entered into the pending calls; a response that does not end its stream takes out the call. -/
theorem streaming_messages_harmful :
    (∃ s : RpcServer .groups, Reachable RpcServer.step anyStep (.new [1]) s ∧
      s.step (.dispatch 0 0) = .error .streamingRpc) ∧
    (∃ s s' : RpcServer .groups, Reachable RpcServer.step anyStep (.new [1]) s ∧
      s.dispatchers[0]? = some (.received 5 [0x03, 0, 0, 7, 1]) ∧
      ¬ Unary .groups .request [0x03, 0, 0, 7, 1] ∧ s.step (.dispatch 0 0) = .ok s' ∧
      s.pendingCalls.keys = [] ∧ s'.pendingCalls.keys = [7]) ∧
    ∃ c c', Reachable (RpcClient.step .groups) anyStep .new c ∧
      ¬ Unary .groups .response [0x02, 0, 0, 1] ∧
      c.step .groups (.handleResponse [0x02, 0, 0, 1]) = .ok c' ∧ c.outgoingCalls.keys = [1] ∧
      c'.outgoingCalls.keys = [] := by
  refine ⟨?_, ?_, ?_⟩
  · obtain ⟨s, hr, hp⟩ := Reachable.of_test RpcServer.step anyStep
      (.new [1] : RpcServer .groups) [.begin, .handleRequest 5 [0x05, 0, 0, 7]]
      (fun s ↦ s.dispatchers[0]? = some (.received 5 [0x05, 0, 0, 7])) (meets_anyStep ..)
      (by decide +kernel)
    refine ⟨s, hr, ?_⟩
    rw [RpcServer.step, of_decide_eq_true hp]
    rfl
  · obtain ⟨s, s', hr, hs, hp⟩ := Reachable.of_test_step RpcServer.step anyStep
      (.new [1] : RpcServer .groups) [.begin, .handleRequest 5 [0x03, 0, 0, 7, 1]] (.dispatch 0 0)
      (fun s s' ↦ s.dispatchers[0]? = some (.received 5 [0x03, 0, 0, 7, 1]) &&
        s.pendingCalls.keys = [] && s'.pendingCalls.keys = [7]) (meets_anyStep ..)
      (by decide +kernel)
    simp only [Bool.and_eq_true, decide_eq_true_eq] at hp
    have hheader : RooIo.groups.readHeader [0x03, 0, 0, 7, 1] =
        some (⟨.request, true, false, false, 7, 1, 0, .ok⟩, []) := by decide +kernel
    exact ⟨s, s', hr, hp.1.1, not_unary hheader (.inr rfl), hs, hp.1.2, hp.2⟩
  · obtain ⟨c, c', hr, hs, hp⟩ := Reachable.of_test_step (RpcClient.step .groups) anyStep .new
      [.sendUnaryRpc 3 []] (.handleResponse [0x02, 0, 0, 1])
      (fun c c' ↦ c.outgoingCalls.keys = [1] && c'.outgoingCalls.keys = []) (meets_anyStep ..)
      (by decide +kernel)
    simp only [Bool.and_eq_true, decide_eq_true_eq] at hp
    have hheader : RooIo.groups.readHeader [0x02, 0, 0, 1] =
        some (⟨.response, true, false, false, 1, 0, 0, .ok⟩, []) := by decide +kernel
    exact ⟨c, c', hr, not_unary hheader (.inr rfl), hs, hp.1, hp.2⟩

end RooTransport.Rpc
