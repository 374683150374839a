import RooTransport.Link.Handshake
import RooTransport.Link.TransmitterWakeUps
import RooTransport.Messaging.LinkMessaging

/-!
# Ending a messaging with sends under way

`LinkMessaging::end()` takes `mutex_` to disconnect the link, and `sendInternal` holds
`mutex_` while it writes to the stream (`link_messaging.cpp:23–84`). A write to a stream
without credit waits until the peer sends something. The endpoint below is a messaging over
a channel, with the packets of the peer and the sender thread of the channel.
-/

namespace RooTransport.Messaging

open RooTransport.Base RooTransport.Link

variable {m n : LinkBufferSize}

/-- A messaging and the channel it uses. -/
structure Endpoint (m n : LinkBufferSize) where
  messaging : LinkMessaging
  channel : Channel m n

namespace Endpoint

/-- What happens at an endpoint: the threads of the messaging, a packet of the peer, and the
parts of `trySend`. -/
inductive Act where
  | messaging (a : LinkMessaging.Act ({ id : UInt32 // id ≠ 0 } × UInt32))
  | packetReceived (buf : List UInt8)
  | conn (now : Uptime) (draw nextSendMicros : Nat)
  | sendAck
  | sendHimark (now : Uptime) (nextSendMicros : Nat)
  | send (now : Uptime) (draw nextSendMicros : Nat)

/-- Messaging on a new channel. -/
def start (m n : LinkBufferSize) (maxRecvPacketSize : Nat) : Endpoint m n :=
  ⟨.new maxRecvPacketSize, .new m n⟩

/-- A step of the channel that the messaging has no part in. -/
def channelStep (e : Endpoint m n) (a : Channel.Act) : Except Check (Endpoint m n) :=
  (e.channel.step a).map fun channel ↦ { e with channel }

/-- A step of the messaging, or of the channel below it. -/
def step (e : Endpoint m n) : Act → Except Check (Endpoint m n)
  | .messaging a => (e.messaging.step (channelLayer m n) e.channel a).map
      fun (messaging, channel, _) ↦ ⟨messaging, channel⟩
  | .packetReceived buf => e.channelStep (.packetReceived buf)
  | .conn now draw next => e.channelStep (.conn now draw next)
  | .sendAck => e.channelStep .sendAck
  | .sendHimark now next => e.channelStep (.sendHimark now next)
  | .send now draw next => e.channelStep (.send now draw next)

/-- Neither a packet of the peer nor a step of `end`. -/
def Unaided (_ : Endpoint m n) : Act → Prop
  | .packetReceived _ | .messaging .endCall | .messaging .endLock | .messaging .endJoin => False
  | _ => True

/-- The thread waits in a write to the stream. -/
def BlockedInWrite (e : Endpoint m n) (i : Nat) : Prop :=
  ∃ block rest connectionId, e.messaging.senders i = .sending (block :: rest) true connectionId ∧
    block ≠ [] ∧ ThreadSafeTransmitter.WriteWaits e.channel.transmitter
      e.messaging.link.output.myStreamId block

/-- `end` waits for `mutex_`, and the thread that has it waits in a write to the stream that
only the peer or `end` can help it out of. -/
def Deadlocked (e : Endpoint m n) : Prop :=
  e.messaging.ending = .locking ∧ ∃ i, e.messaging.mutex = some i ∧
    ∀ e', Reachable step Unaided e e' → e'.BlockedInWrite i

/-- `end` is called only while no thread is in `sendInternal`. -/
def EndsUnheld (e : Endpoint m n) (a : Act) : Prop :=
  a = .messaging .endCall → e.messaging.mutex = none

end Endpoint

/-! ### What the lock protects -/

namespace LinkMessaging

variable {σ χ : Type} {layer : LinkLayer σ χ} {msg msg' : LinkMessaging} {s s' : σ} {isEnd : Prop}

/-- The thread is in a call of `send` or `sendContinuation`. -/
def InCall (msg : LinkMessaging) (i : Nat) : Prop :=
  match msg.senders i with
  | .idle | .returned _ _ => False
  | .entering _ | .parked _ _ | .sending _ _ _ => True

/-- What a step does to the threads, `mutex_` and `closed_`; only a call of `end` closes. -/
inductive ThreadStep (isEnd : Prop) (msg : LinkMessaging) : LinkMessaging → Prop
  | keep {msg' : LinkMessaging} : msg'.senders = msg.senders → msg'.mutex = msg.mutex →
      msg'.closed = msg.closed → msg'.ending = msg.ending → ThreadStep isEnd msg msg'
  | call (i : Nat) (call : Call) : ¬ msg.InCall i →
      ThreadStep isEnd msg (msg.setSender i (.entering call))
  | refuse (i : Nat) : msg.mutex = none → msg.InCall i →
      ThreadStep isEnd msg (msg.setSender i (.returned false none))
  | park (i : Nat) (call : Call) : msg.mutex = none → msg.closed = false → msg.InCall i →
      ThreadStep isEnd msg (msg.setSender i (.parked call false))
  | lock (i : Nat) (call : Call) (connectionId : Option UInt32) : msg.mutex = none →
      msg.closed = false → msg.InCall i →
      ThreadStep isEnd msg (msg.startSending i call connectionId)
  | write (i : Nat) (blocks blocks' : List (List UInt8)) (waiting waiting' : Bool)
      (connectionId : Option UInt32) (link : Link) :
      msg.senders i = .sending blocks waiting connectionId →
      ThreadStep isEnd msg { msg.setSender i (.sending blocks' waiting' connectionId) with link }
  | unlock (i : Nat) (blocks : List (List UInt8)) (waiting result : Bool)
      (connectionId : Option UInt32) (link : Link) :
      msg.senders i = .sending blocks waiting connectionId →
      ThreadStep isEnd msg
        { msg.setSender i (.returned result connectionId) with mutex := none, link }
  | wake (i : Nat) (call : Call) (notified : Bool) : msg.senders i = .parked call notified →
      ThreadStep isEnd msg (msg.setSender i (.parked call true))
  | reconnect (link : Link) (loop : ReceiveLoop) : msg.mutex = none →
      ThreadStep isEnd msg { msg.notifyAll with link, loop }
  | close : isEnd → msg.closed = false →
      ThreadStep isEnd msg { msg with closed := true, ending := .locking }
  | disconnect (link : Link) : msg.ending = .locking → msg.mutex = none →
      ThreadStep isEnd msg { msg.notifyAll with link, ending := .joining }
  | join : msg.ending = .joining → ThreadStep isEnd msg { msg with ending := .finished }

private theorem ThreadStep.refl (msg : LinkMessaging) : ThreadStep isEnd msg msg :=
  .keep rfl rfl rfl rfl

private theorem startCall_threads (msg : LinkMessaging) (i : Nat) (call : Call) :
    ThreadStep isEnd msg (msg.startCall i call) := by
  unfold startCall
  split
  · next h => exact .call i call (by simp [InCall, h])
  · next h => exact .call i call (by simp [InCall, h])
  · exact .refl msg

private theorem takeTurn_threads (msg : LinkMessaging) (s : σ) {i : Nat} (call : Call)
    (hfree : msg.mutex = none) (hcall : msg.InCall i) :
    ThreadStep isEnd msg (msg.takeTurn layer s i call) := by
  unfold takeTurn
  split
  · exact .refuse i hfree hcall
  next hopen =>
  rw [Bool.not_eq_true] at hopen
  split
  · split
    · exact .lock i _ _ hfree hopen hcall
    · exact .lock i _ _ hfree hopen hcall
    · exact .park i _ hfree hopen hcall
    · exact .park i _ hfree hopen hcall
  · split
    · exact .refuse i hfree hcall
    · exact .lock i _ _ hfree hopen hcall

private theorem enter_threads (msg : LinkMessaging) (s : σ) (i : Nat) :
    ThreadStep isEnd msg (msg.enter layer s i) := by
  unfold enter
  split
  · exact .refl msg
  next hfree =>
  rw [not_not] at hfree
  split
  · next h => exact takeTurn_threads msg s _ hfree (by simp [InCall, h])
  · next h => exact takeTurn_threads msg s _ hfree (by simp [InCall, h])
  · exact .refl msg

private theorem write_threads {i : Nat} {choice : χ}
    (h : msg.write layer s i choice = .ok (msg', s')) : ThreadStep isEnd msg msg' := by
  unfold LinkMessaging.write at h
  split at h
  · next hs =>
    cases h
    exact .unlock i _ _ _ _ _ hs
  · next hs =>
    split at h
    · cases h
      exact .write i _ _ _ _ _ msg.link hs
    split at h
    · cases h
    · cases h
      exact .write i _ _ _ _ _ msg.link hs
    · cases h
      exact .write i _ _ _ _ _ _ hs
  · cases h
    exact .refl msg

private theorem receiveLoop_threads {choice : χ} {event : Option Event}
    (h : msg.receiveLoop layer s choice = .ok (msg', s', event)) : ThreadStep isEnd msg msg' := by
  unfold LinkMessaging.receiveLoop at h
  split at h
  · cases h
    exact .keep rfl rfl rfl rfl
  · split at h
    · cases h
      exact .refl msg
    next hfree =>
    obtain ⟨⟨msg1, s1⟩, hc, heq⟩ := map_eq_ok.mp h
    cases heq
    unfold LinkMessaging.connect at hc
    split at hc
    · cases hc
    · cases hc
      exact .reconnect _ _ (not_not.mp hfree)
  · split at h
    · cases h
      exact .refl msg
    · cases h
      exact .keep rfl rfl rfl rfl
  · unfold LinkMessaging.read readDone at h
    grind [ThreadStep.keep]
  · cases h
    exact .refl msg
  · cases h
    exact .refl msg

/-- Every step of a thread is one of these. -/
theorem step_threads {a : Act χ} {event : Option Event}
    (h : msg.step layer s a = .ok (msg', s', event)) : ThreadStep (a = .endCall) msg msg' := by
  cases a with
  | begin =>
    cases h
    unfold LinkMessaging.begin
    split
    · exact .keep rfl rfl rfl rfl
    · exact .refl msg
  | call i call =>
    cases h
    exact startCall_threads msg i call
  | enter i =>
    cases h
    exact enter_threads msg s i
  | write i choice =>
    obtain ⟨⟨msg1, s1⟩, hw, heq⟩ := map_eq_ok.mp h
    cases heq
    exact write_threads hw
  | wakeUp i =>
    cases h
    unfold wakeUp
    split
    · next hs => exact .wake i _ _ hs
    · exact .refl msg
  | receiveLoop choice => exact receiveLoop_threads h
  | endCall =>
    cases h
    unfold endCall
    split
    · exact .refl msg
    · next hopen => exact .close rfl (by simpa using hopen)
  | endLock =>
    obtain ⟨⟨msg1, s1⟩, hl, heq⟩ := map_eq_ok.mp h
    cases heq
    unfold endLock at hl
    split at hl
    · cases hl
      exact .refl msg
    next hgo =>
    rw [not_or, not_not, not_not] at hgo
    split at hl
    · cases hl
    · cases hl
      exact .disconnect _ hgo.1 hgo.2
  | endJoin =>
    cases h
    unfold endJoin
    split
    · next hj => exact .join hj.1
    · exact .refl msg

/-! ### Closing with the lock free -/

/-- A thread in `sendInternal` has `mutex_`, nobody has it once the messaging is closed, and
`end` has woken every thread that it found waiting. -/
structure Orderly (msg : LinkMessaging) : Prop where
  exclusive : ∀ i blocks waiting connectionId,
    msg.senders i = .sending blocks waiting connectionId → msg.mutex = some i
  free : msg.closed = true → msg.mutex = none
  closing : msg.ending ≠ .notCalled → msg.closed = true
  woken : msg.ending = .joining ∨ msg.ending = .finished → ∀ i call notified,
    msg.senders i = .parked call notified → notified = true

private theorem notifyAll_sending {i : Nat} {blocks : List (List UInt8)} {waiting : Bool}
    {connectionId : Option UInt32}
    (h : msg.notifyAll.senders i = .sending blocks waiting connectionId) :
    msg.senders i = .sending blocks waiting connectionId := by
  unfold notifyAll at h
  dsimp only at h
  split at h
  · cases h
  · exact h

private theorem notifyAll_parked {i : Nat} {call : Call} {notified : Bool}
    (h : msg.notifyAll.senders i = .parked call notified) : notified = true := by
  unfold notifyAll at h
  dsimp only at h
  split at h
  · cases h
    rfl
  · next hno => exact absurd h (hno _ _)

private theorem Orderly.update (h : msg.Orderly) {i : Nat} {x : Sender}
    (hsenders : msg'.senders = Function.update msg.senders i x)
    (hclosed : msg'.closed = msg.closed) (hending : msg'.ending = msg.ending)
    (hsend : ∀ blocks waiting connectionId, x = .sending blocks waiting connectionId →
      msg'.mutex = some i)
    (hothers : ∀ j, j ≠ i → msg.mutex = some j → msg'.mutex = some j)
    (hfree : msg.closed = true → msg'.mutex = none)
    (hpark : ∀ call, x = .parked call false → msg.closed = false) : msg'.Orderly where
  exclusive := by
    intro j blocks waiting connectionId hj
    by_cases hij : j = i
    · rw [hsenders, hij, Function.update_self] at hj
      exact hij ▸ hsend _ _ _ hj
    · rw [hsenders, Function.update_of_ne hij] at hj
      exact hothers j hij (h.exclusive j _ _ _ hj)
  free := by rwa [hclosed]
  closing := by rw [hclosed, hending]; exact h.closing
  woken := by
    rw [hending]
    intro hend j call notified hj
    by_cases hij : j = i
    · rw [hsenders, hij, Function.update_self] at hj
      cases notified with
      | true => rfl
      | false =>
        have hdone : msg.closed = true :=
          h.closing (by rcases hend with hend | hend <;> simp [hend])
        exact absurd (hdone.symm.trans (hpark call hj)) (by simp)
    · rw [hsenders, Function.update_of_ne hij] at hj
      exact h.woken hend j call notified hj

/-- A step keeps order if `end` closes the messaging only while `mutex_` is free. -/
theorem Orderly.step (h : msg.Orderly) (hs : ThreadStep isEnd msg msg')
    (hend : isEnd → msg.mutex = none) : msg'.Orderly := by
  cases hs with
  | keep hsend hmutex hclosed hending =>
    constructor
    · rw [hsend, hmutex]
      exact h.exclusive
    · rw [hclosed, hmutex]
      exact h.free
    · rw [hending, hclosed]
      exact h.closing
    · rw [hending, hsend]
      exact h.woken
  | call i call => exact h.update rfl rfl rfl (by simp) (fun _ _ hj ↦ hj) h.free (by simp)
  | refuse i => exact h.update rfl rfl rfl (by simp) (fun _ _ hj ↦ hj) h.free (by simp)
  | park i call _ hopen =>
    exact h.update rfl rfl rfl (by simp) (fun _ _ hj ↦ hj) h.free (fun _ _ ↦ hopen)
  | lock i call id hfree hopen =>
    exact h.update rfl rfl rfl (fun _ _ _ _ ↦ rfl) (by simp [hfree]) (by simp [hopen]) (by simp)
  | write i blocks blocks' waiting waiting' id link hsend =>
    have hown := h.exclusive i _ _ _ hsend
    exact h.update rfl rfl rfl (fun _ _ _ _ ↦ hown) (fun _ _ hj ↦ hj) h.free (by simp)
  | unlock i blocks waiting result id link hsend =>
    have hown := h.exclusive i _ _ _ hsend
    exact h.update rfl rfl rfl (by simp)
      (fun j hji hj ↦ absurd (hown.symm.trans hj) (by simpa using hji.symm))
      (fun _ ↦ rfl) (by simp)
  | wake i call notified hsend =>
    exact h.update rfl rfl rfl (by simp) (fun _ _ hj ↦ hj) h.free (by simp)
  | reconnect link loop hfree =>
    exact ⟨fun i _ _ _ hi ↦ h.exclusive i _ _ _ (notifyAll_sending hi), h.free, h.closing,
      fun _ _ _ _ hi ↦ notifyAll_parked hi⟩
  | close hcall =>
    have hfree := hend hcall
    refine ⟨h.exclusive, fun _ ↦ hfree, fun _ ↦ rfl, by simp⟩
  | disconnect link hlocking hfree =>
    exact ⟨fun i _ _ _ hi ↦ h.exclusive i _ _ _ (notifyAll_sending hi), h.free,
      fun _ ↦ h.closing (by simp [hlocking]), fun _ _ _ _ hi ↦ notifyAll_parked hi⟩
  | join hjoining =>
    exact ⟨h.exclusive, h.free, fun _ ↦ h.closing (by simp [hjoining]),
      fun _ ↦ h.woken (.inl hjoining)⟩

private theorem orderly_new (maxRecvPacketSize : Nat) : (new maxRecvPacketSize).Orderly := by
  constructor <;> simp [new]

/-- Once the messaging is closed and `mutex_` is free, a thread that takes it returns. -/
theorem enter_closed (layer : LinkLayer σ χ) (s : σ) {i : Nat} (h : msg.Orderly)
    (hend : msg.ending = .joining ∨ msg.ending = .finished) (hcall : msg.InCall i) :
    (msg.enter layer s i).senders i = .returned false none := by
  have hclosed := h.closing (by rcases hend with hend | hend <;> simp [hend])
  have hfree := h.free hclosed
  have hturn (call : Call) : (msg.takeTurn layer s i call).senders i = .returned false none := by
    unfold takeTurn
    rw [if_pos hclosed]
    exact Function.update_self ..
  unfold InCall at hcall
  rw [enter, if_neg (not_not.mpr hfree)]
  cases hi : msg.senders i with
  | idle => rw [hi] at hcall; exact hcall.elim
  | returned => rw [hi] at hcall; exact hcall.elim
  | entering call => exact hturn call
  | parked call notified =>
    obtain rfl := h.woken hend i call notified hi
    exact hturn call
  | sending => exact absurd (hfree.symm.trans (h.exclusive i _ _ _ hi)) (by simp)

end LinkMessaging

namespace Endpoint

variable {e e' : Endpoint m n}

private theorem step_orderly {a : Act} (h : e.messaging.Orderly) (hg : e.EndsUnheld a)
    (hs : e.step a = .ok e') : e'.messaging.Orderly := by
  have hother {a : Channel.Act} (hc : e.channelStep a = .ok e') : e'.messaging.Orderly := by
    obtain ⟨c, -, rfl⟩ := map_eq_ok.mp hc
    exact h
  cases a with
  | messaging a =>
    obtain ⟨⟨msg, c, event⟩, hm, rfl⟩ := map_eq_ok.mp hs
    exact h.step (LinkMessaging.step_threads hm) fun ha ↦ hg (congrArg Act.messaging ha)
  | packetReceived buf => exact hother hs
  | conn now draw next => exact hother hs
  | sendAck => exact hother hs
  | sendHimark now next => exact hother hs
  | send now draw next => exact hother hs

private theorem link_disconnect_ok (c : Channel m n) (l : Link) :
    ∃ c' l', l.disconnect (channelLayer m n) c = .ok (c', l') ∧ l'.attached = false := by
  have hchannel : ∃ c', (channelLayer m n).disconnect c l.myStreamId = .ok c' := by
    obtain ⟨b, e, ht⟩ := c.transmitter.outRing.exists_spans
    obtain ⟨b', e', hr⟩ := c.receiver.inRing.exists_spans
    obtain ⟨t, hreset, -⟩ := Transmitter.reset_ok ht
    obtain ⟨r, hreset', -⟩ := Receiver.reset_ok hr
    show ∃ c', (c.disconnect l.myStreamId).map Prod.fst = .ok c'
    unfold Channel.disconnect
    split
    · exact ⟨_, rfl⟩
    · rw [hreset, hreset']
      exact ⟨_, rfl⟩
  unfold Link.disconnect
  split
  · obtain ⟨c', hc⟩ := hchannel
    rw [hc]
    exact ⟨_, _, rfl, rfl⟩
  · next hdetached => exact ⟨c, l, rfl, by simpa using hdetached⟩

/-- In every run in which `end` is called only while no thread is in `sendInternal`: `end`
never waits for a thread that waits for the peer, its next step disconnects the link, and
from then on the next step of every thread in `send` or `sendContinuation` returns. -/
theorem end_frees_senders {maxRecvPacketSize : Nat}
    (h : Reachable step EndsUnheld (start m n maxRecvPacketSize) e) :
    ¬ e.Deadlocked ∧
    (e.messaging.ending = .locking → ∃ e', e.step (.messaging .endLock) = .ok e' ∧
      e'.messaging.link.attached = false ∧ e'.messaging.ending = .joining) ∧
    (e.messaging.ending = .joining ∨ e.messaging.ending = .finished → ∀ i, e.messaging.InCall i →
      ∃ e', e.step (.messaging (.enter i)) = .ok e' ∧
        e'.messaging.senders i = .returned false none) := by
  have ho : e.messaging.Orderly := h.invariant (fun e ↦ e.messaging.Orderly)
    (LinkMessaging.orderly_new _) fun _ _ _ ho hg hs ↦ step_orderly ho hg hs
  refine ⟨?_, fun hlocking ↦ ?_, fun hend i hi ↦ ?_⟩
  · rintro ⟨hlocking, i, hi, -⟩
    have hfree := ho.free (ho.closing (by simp [hlocking]))
    exact absurd (hfree.symm.trans hi) (by simp)
  · have hfree := ho.free (ho.closing (by simp [hlocking]))
    obtain ⟨c, link, hd, hlink⟩ := link_disconnect_ok e.channel e.messaging.link
    refine ⟨⟨{ e.messaging.notifyAll with link, ending := .joining }, c⟩, ?_, hlink, rfl⟩
    have hlock : e.messaging.endLock (channelLayer m n) e.channel =
        .ok ({ e.messaging.notifyAll with link, ending := .joining }, c) := by
      rw [LinkMessaging.endLock, if_neg (by simp [hlocking, hfree]), hd]
    rw [step, LinkMessaging.step, hlock]
    rfl
  · exact ⟨_, rfl, LinkMessaging.enter_closed _ _ ho hend hi⟩

/-- A send that waits for a first connection returns when the messaging is ended. -/
theorem end_frees_parked_send : ∃ e : Endpoint 2 2,
    Reachable step EndsUnheld (start 2 2 1500) e ∧
      e.messaging.senders 0 = .parked (.send [] [120]) true ∧
      ∃ e', e.step (.messaging (.enter 0)) = .ok e' ∧
        e'.messaging.senders 0 = .returned false none := by
  have hrun : ∃ e : Endpoint 2 2, execute step (start 2 2 1500)
      [.messaging (.call 0 (.send [] [120])), .messaging (.enter 0), .messaging .endCall,
        .messaging .endLock] = .ok e ∧
      e.messaging.senders 0 = .parked (.send [] [120]) true ∧ e.messaging.ending = .joining :=
    ⟨_, rfl, rfl, rfl⟩
  obtain ⟨e, he, hparked, hjoining⟩ := hrun
  have hr : Reachable step EndsUnheld (start 2 2 1500) e := by
    refine .of_execute _ .start ?_ he
    exact ⟨by simp [EndsUnheld], by simp [EndsUnheld], fun _ ↦ rfl, by simp [EndsUnheld], trivial⟩
  exact ⟨e, hr, hparked, (end_frees_senders hr).2.2 (.inl hjoining) 0 (by
    simp [LinkMessaging.InCall, hparked])⟩

/-! ### Ending while a send waits for credit -/

/-- A thread holds `mutex_` and waits to write to a stream that is still connecting. -/
structure Jammed (i : Nat) (e : Endpoint m n) : Prop where
  mutex : e.messaging.mutex = some i
  sending : ∃ block rest connectionId,
    e.messaging.senders i = .sending (block :: rest) true connectionId ∧ block ≠ []
  alone : ∀ j blocks waiting connectionId,
    e.messaging.senders j = .sending blocks waiting connectionId → j = i
  status : e.messaging.link.output.status = .ok
  stream : e.messaging.link.output.myStreamId = e.channel.transmitter.myStreamId
  state : e.channel.transmitter.state = .connecting
  endOfStream : e.channel.transmitter.endOfStream = false
  himark : e.channel.transmitter.recvHimark = e.channel.transmitter.outRing.end_
  current : e.channel.transmitter.currentOutBuffer = none

private theorem Jammed.saturated {i : Nat} (h : Jammed i e) : e.channel.transmitter.Saturated := by
  refine ⟨?_, by simp [h.current], .inl h.himark⟩
  rw [h.himark]
  exact SeqNum.ge_refl _

private theorem Jammed.blockedInWrite {i : Nat} (h : Jammed i e) : e.BlockedInWrite i := by
  obtain ⟨block, rest, id, hi, hne⟩ := h.sending
  refine ⟨block, rest, id, hi, hne, (ThreadSafeTransmitter.writeWaits_iff hne).mpr ?_⟩
  exact ⟨⟨.inr h.state, .inr h.saturated⟩, h.stream⟩

private theorem Jammed.of_channel {i : Nat} {c : Channel m n} (h : Jammed i e)
    (hc : Transmitter.SameStream e.channel.transmitter c.transmitter) :
    Jammed i { e with channel := c } where
  mutex := h.mutex
  sending := h.sending
  alone := h.alone
  status := h.status
  stream := h.stream.trans hc.myStreamId.symm
  state := hc.state.trans h.state
  endOfStream := hc.endOfStream.trans h.endOfStream
  himark := by rw [hc.recvHimark, hc.outRing]; exact h.himark
  current := hc.currentOutBuffer.trans h.current

/-- The receive loop goes no further than its reads while another thread has `mutex_`. -/
theorem receiveLoop_held {msg msg' : LinkMessaging} {c c' : Channel m n}
    {choice : { id : UInt32 // id ≠ 0 } × UInt32} {event : Option Event} (hm : msg.mutex ≠ none)
    (h : msg.receiveLoop (channelLayer m n) c choice = .ok (msg', c', event)) :
    msg'.senders = msg.senders ∧ msg'.mutex = msg.mutex ∧ msg'.link.output = msg.link.output ∧
      c'.transmitter = c.transmitter := by
  unfold LinkMessaging.receiveLoop at h
  split at h
  · cases h
    exact ⟨rfl, rfl, rfl, rfl⟩
  · rw [if_pos hm] at h
    cases h
    exact ⟨rfl, rfl, rfl, rfl⟩
  · rw [if_pos hm] at h
    cases h
    exact ⟨rfl, rfl, rfl, rfl⟩
  · unfold LinkMessaging.read LinkMessaging.readDone at h
    have hread {count : Nat} {id : UInt32} {resumed : Bool} {out : Channel m n × _}
        (hr : (channelLayer m n).read c choice count id resumed = .ok out) :
        out.1.transmitter = c.transmitter := by
      obtain ⟨⟨r, result⟩, -, rfl⟩ := map_eq_ok.mp hr
      rfl
    grind
  · cases h
    exact ⟨rfl, rfl, rfl, rfl⟩
  · cases h
    exact ⟨rfl, rfl, rfl, rfl⟩

/-- What the other threads of the messaging can do to a jam. -/
theorem Jammed.of_threads {i : Nat} {msg : LinkMessaging} {c : Channel m n}
    (h : Jammed i e) (hown : msg.senders i = e.messaging.senders i)
    (halone : ∀ j blocks waiting connectionId,
      msg.senders j = .sending blocks waiting connectionId → j = i)
    (hmutex : msg.mutex = e.messaging.mutex) (hout : msg.link.output = e.messaging.link.output)
    (hc : c.transmitter = e.channel.transmitter) : Jammed i ⟨msg, c⟩ where
  mutex := hmutex.trans h.mutex
  sending := by rw [hown]; exact h.sending
  alone := halone
  status := by rw [hout]; exact h.status
  stream := by rw [hout, hc]; exact h.stream
  state := by rw [hc]; exact h.state
  endOfStream := by rw [hc]; exact h.endOfStream
  himark := by rw [hc]; exact h.himark
  current := by rw [hc]; exact h.current

private theorem Jammed.setSender {i j : Nat} {x : Sender} (h : Jammed i e)
    (hj : ∀ blocks waiting connectionId,
      e.messaging.senders j ≠ .sending blocks waiting connectionId)
    (hx : ∀ blocks waiting connectionId, x ≠ .sending blocks waiting connectionId) :
    Jammed i { e with messaging := e.messaging.setSender j x } := by
  have hij : i ≠ j := by
    rintro rfl
    obtain ⟨block, rest, id, hi, -⟩ := h.sending
    exact hj _ _ _ hi
  refine h.of_threads (Function.update_of_ne hij ..) ?_ rfl rfl rfl
  intro k blocks waiting id hk
  by_cases hkj : k = j
  · rw [hkj, LinkMessaging.setSender] at hk
    exact absurd ((Function.update_self ..).symm.trans hk) (hx _ _ _)
  · exact h.alone k _ _ _ ((Function.update_of_ne hkj ..).symm.trans hk)

private theorem Jammed.write {i j : Nat} {choice : { id : UInt32 // id ≠ 0 } × UInt32}
    {msg : LinkMessaging} {c : Channel m n} (h : Jammed i e)
    (hw : e.messaging.write (channelLayer m n) e.channel j choice = .ok (msg, c)) :
    Jammed i ⟨msg, c⟩ := by
  by_cases hji : j = i
  · obtain ⟨block, rest, id, hi, hne⟩ := h.sending
    have ho : e.channel.transmitter.Open := ⟨h.endOfStream, by simp [h.state], by simp [h.state]⟩
    obtain ⟨ready, ht⟩ := Transmitter.tryWrite_saturated ho h.saturated hne
    have hsame :
        { e.channel.transmitter with currentOutBuffer := none } = e.channel.transmitter := by
      rw [← h.current]
    have hturn : ThreadSafeTransmitter.writeTurn e.channel.transmitter block
        e.messaging.link.output.myStreamId = .ok (e.channel.transmitter, .waits ready) := by
      rw [ThreadSafeTransmitter.writeTurn, ht, hsame]
      simp [ThreadSafeTransmitter.checkConnectionStatus, h.state, h.stream]
    have hlayer : (channelLayer m n).write e.channel choice block
        e.messaging.link.output.myStreamId true = .ok (e.channel, .waits ready) :=
      map_eq_ok.mpr ⟨(e.channel.transmitter, .waits ready), hturn, rfl⟩
    have hback : e.messaging.setSender i (.sending (block :: rest) true id) = e.messaging := by
      rw [LinkMessaging.setSender, ← hi, Function.update_eq_self]
    rw [LinkMessaging.write, hji, hi] at hw
    dsimp only at hw
    rw [if_neg (by simp [hne, h.status]), hlayer] at hw
    cases hw
    rw [hback]
    exact h
  · have hidle : e.messaging.write (channelLayer m n) e.channel j choice =
        .ok (e.messaging, e.channel) := by
      unfold LinkMessaging.write
      split
      · next hj => exact absurd (h.alone j _ _ _ hj) hji
      · next hj => exact absurd (h.alone j _ _ _ hj) hji
      · rfl
    rw [hidle] at hw
    cases hw
    exact h

private theorem Jammed.messaging {i : Nat} {msg : LinkMessaging} {c : Channel m n}
    {a : LinkMessaging.Act ({ id : UInt32 // id ≠ 0 } × UInt32)} {event : Option Event}
    (h : Jammed i e) (ha : e.Unaided (.messaging a))
    (hs : e.messaging.step (channelLayer m n) e.channel a = .ok (msg, c, event)) :
    Jammed i ⟨msg, c⟩ := by
  cases a with
  | begin =>
    cases hs
    unfold LinkMessaging.begin
    split
    · exact h.of_threads rfl h.alone rfl rfl rfl
    · exact h
  | call j call =>
    cases hs
    unfold LinkMessaging.startCall
    split
    · next hj => exact h.setSender (by simp [hj]) (by simp)
    · next hj => exact h.setSender (by simp [hj]) (by simp)
    · exact h
  | enter j =>
    cases hs
    rw [LinkMessaging.enter, if_pos (by simp [h.mutex])]
    exact h
  | write j choice =>
    obtain ⟨⟨msg1, c1⟩, hw, heq⟩ := map_eq_ok.mp hs
    cases heq
    exact h.write hw
  | wakeUp j =>
    cases hs
    unfold LinkMessaging.wakeUp
    split
    · next hj => exact h.setSender (by simp [hj]) (by simp)
    · exact h
  | receiveLoop choice =>
    obtain ⟨hsend, hmutex, hout, hc⟩ := receiveLoop_held (by simp [h.mutex]) hs
    exact h.of_threads (by rw [hsend]) (by rw [hsend]; exact h.alone) hmutex hout hc
  | endCall => exact ha.elim
  | endLock => exact ha.elim
  | endJoin => exact ha.elim

private theorem Jammed.step {i : Nat} {a : Act} (h : Jammed i e) (ha : e.Unaided a)
    (hs : e.step a = .ok e') : Jammed i e' := by
  have hchannel {c : Channel.Act} (hc : e.channelStep c = .ok e')
      (hsame : ∀ c', e.channel.step c = .ok c' →
        Transmitter.SameStream e.channel.transmitter c'.transmitter) : Jammed i e' := by
    obtain ⟨c', hstep, rfl⟩ := map_eq_ok.mp hc
    exact h.of_channel (hsame c' hstep)
  cases a with
  | packetReceived buf => exact ha.elim
  | conn now draw next =>
    refine hchannel hs fun c' hstep ↦ ?_
    cases hstep
    obtain ⟨needsAck, retries, update, hfst⟩ := e.channel.conn_fst now draw next
    rw [hfst]
    exact .refl _
  | sendAck =>
    refine hchannel hs fun c' hstep ↦ ?_
    cases hstep
    exact .refl _
  | sendHimark now next =>
    refine hchannel hs fun c' hstep ↦ ?_
    cases hstep
    exact .refl _
  | send now draw next =>
    refine hchannel hs fun c' hstep ↦ ?_
    cases hstep
    obtain ⟨b, e', hspans⟩ := e.channel.transmitter.outRing.exists_spans
    rw [Transmitter.send_fst]
    exact (Transmitter.getBufferToSend_path hspans now draw next).sameStream
  | messaging a =>
    obtain ⟨⟨msg, c, event⟩, hm, rfl⟩ := map_eq_ok.mp hs
    exact h.messaging ha hm

/-- With a silent peer, a send that waits for the handshake holds `mutex_` forever, and so `end`
never gets to disconnect the link. -/
theorem end_waits_for_blocked_send :
    ∃ e : Endpoint 2 2, Reachable step anyStep (start 2 2 1500) e ∧ e.Deadlocked := by
  have hrun : ∃ e : Endpoint 2 2, execute step (start 2 2 1500)
      [.messaging .begin, .messaging (.receiveLoop (⟨1, by decide⟩, 0)),
        .messaging (.receiveLoop (⟨1, by decide⟩, 0)), .messaging (.call 0 (.send [] [120])),
        .messaging (.enter 0), .messaging (.write 0 (⟨1, by decide⟩, 0)), .messaging .endCall] =
      .ok e ∧ e.messaging.ending = .locking ∧ Jammed 0 e := by
    refine ⟨_, rfl, rfl, ⟨rfl, ⟨_, _, _, rfl, by decide⟩, ?_, rfl, rfl, rfl, rfl, rfl, rfl⟩⟩
    rintro (- | j) blocks waiting id hj
    · rfl
    · cases hj
  obtain ⟨e, he, hlocking, hjam⟩ := hrun
  refine ⟨e, .of_execute _ .start (meets_anyStep ..) he, hlocking, 0, hjam.mutex, fun e' hr ↦ ?_⟩
  have hjam' := hr.invariant (Jammed 0) hjam fun _ _ _ h ha hs ↦ h.step ha hs
  exact hjam'.blockedInWrite

end Endpoint

end RooTransport.Messaging
