import RooTransport.Link.ChannelChecks

/-!
# Disconnect callbacks

`channel.h:227–230` promises that a disconnect callback is called exactly once. It is moved
out of the channel while `handshake_mutex_` is held and run after the mutex was released
(`channel.cpp:182–184`, `205–207`, `482–484`), where it may connect again and where other
threads may come first. A history records the connections made, the callbacks moved out and
not yet run, and those that were run.
-/

namespace RooTransport.Link

open RooTransport.Base

namespace Channel

variable {m n : LinkBufferSize}

/-- `channel.cpp:376–389` and `422–456`: the handshakes that end the stream, as both ends have
the same id or as the peer has opened another stream. -/
def EndedBy (c : Channel m n) (h : Handshake) : Prop :=
  c.receiver.state = .connecting ∧ h.peerStreamId = c.myStreamId ∨
    c.receiver.state = .connected ∧ h.wantAck = true ∧ c.peerStreamId ≠ h.peerStreamId ∧
      h.ackStreamId = 0

/-- What ends the current stream. -/
def Ends (c : Channel m n) : Act → Prop
  | .connect _ _ _ => True
  | .disconnect id => c.myStreamId = id
  | .packetReceived buf => getPacketType (loadBeU16 buf) = some .handshake ∧
    ∃ h ∈ parseHandshake buf, c.EndedBy h
  | _ => False

/-- The step calls neither `connect` nor what may end the stream. -/
def Act.KeepsStream : Act → Prop
  | .connect _ _ _ | .disconnect _ | .packetReceived _ => False
  | _ => True

/-- One step, with the callback that is to be run after it. -/
def perform (c : Channel m n) : Act → Except Check (Channel m n × Option Callback)
  | .connect id draw fn => c.connect id draw fn
  | .disconnect id => c.disconnect id
  | .packetReceived buf => (c.packetReceived buf).map fun out ↦ (out.1, out.2.2)
  | a => (c.step a).map fun c' ↦ (c', none)

private theorem perform_of_keepsStream (c : Channel m n) {a : Act} (ha : a.KeepsStream) :
    c.perform a = (c.step a).map fun c' ↦ (c', none) := by
  cases a with
  | connect | disconnect | packetReceived => exact ha.elim
  | _ => rfl

/-- The two ways to take a step agree. -/
theorem map_perform (c : Channel m n) (a : Act) : (c.perform a).map Prod.fst = c.step a := by
  have hkeeps (ha : a.KeepsStream) : (c.perform a).map Prod.fst = c.step a := by
    rw [perform_of_keepsStream c ha]
    cases c.step a with
    | error => rfl
    | ok => rfl
  cases a with
  | connect | disconnect => rfl
  | packetReceived buf =>
    rw [perform, step]
    cases c.packetReceived buf with
    | error => rfl
    | ok => rfl
  | _ => exact hkeeps trivial

/-- Everything a step can do to the stream id and to the callback. -/
inductive Performed (c : Channel m n) (a : Act) : Channel m n → Option Callback → Prop
  | kept {c' : Channel m n} : (∀ id draw fn, a ≠ .connect id draw fn) →
      c'.myStreamId = c.myStreamId → c'.disconnectFn = c.disconnectFn → Performed c a c' none
  | ended {c' : Channel m n} : (∀ id draw fn, a ≠ .connect id draw fn) → c.Ends a →
      c'.myStreamId = 0 → c'.disconnectFn = none → Performed c a c' c.disconnectFn
  | connected {c' : Channel m n} (id : { id : UInt32 // id ≠ 0 }) (draw : UInt32)
      (fn : Option Callback) : a = .connect id draw fn →
      c'.myStreamId = id → c'.disconnectFn = fn → Performed c a c' c.disconnectFn

private theorem step_keeps {c c' : Channel m n} {a : Act} (ha : a.KeepsStream)
    (h : c.step a = .ok c') :
    c'.myStreamId = c.myStreamId ∧ c'.disconnectFn = c.disconnectFn := by
  cases a with
  | connect | disconnect | packetReceived => exact ha.elim
  | read | readTurn | tryRead | closeInput | write | writeTurn | tryWrite | close =>
    obtain ⟨out, -, rfl⟩ := map_eq_ok.mp h
    exact ⟨rfl, rfl⟩
  | peek | availableForRead | flush | sendAck | sendHimark | send =>
    cases h
    exact ⟨rfl, rfl⟩
  | conn now draw next =>
    cases h
    unfold conn
    repeat' split
    all_goals exact ⟨rfl, rfl⟩

/-- A peer that reconnects ends the stream and takes its callback. -/
theorem peerReconnected_callback {c c' : Channel m n} {ready : Bool} {fn : Option Callback}
    (hok : c.peerReconnected = .ok (c', ready, fn)) :
    c'.myStreamId = 0 ∧ c'.disconnectFn = none ∧ fn = c.disconnectFn := by
  unfold peerReconnected at hok
  split at hok
  · obtain ⟨t, -, hok⟩ := bind_eq_ok.mp hok
    cases hok
    exact ⟨rfl, rfl, rfl⟩
  · obtain ⟨t, -, hok⟩ := bind_eq_ok.mp hok
    obtain ⟨r, -, hok⟩ := bind_eq_ok.mp hok
    cases hok
    exact ⟨rfl, rfl, rfl⟩

/-- A handshake keeps the stream and its callback, or ends the stream and hands the callback
out. -/
theorem handleHandshakePacket_callback {c c' : Channel m n} {h : Handshake} {ready : Bool}
    {fn : Option Callback} (hok : c.handleHandshakePacket h = .ok (c', ready, fn)) :
    c'.myStreamId = c.myStreamId ∧ c'.disconnectFn = c.disconnectFn ∧ fn = none ∨
      c.EndedBy h ∧ c'.myStreamId = 0 ∧ c'.disconnectFn = none ∧ fn = c.disconnectFn := by
  unfold handleHandshakePacket at hok
  split at hok
  · cases hok
    exact .inl ⟨rfl, rfl, rfl⟩
  split at hok
  · next hst =>
    unfold handshakeConnecting at hok
    split at hok
    · cases hok
      exact .inl ⟨rfl, rfl, rfl⟩
    split at hok
    · next hsame =>
      obtain ⟨t, -, hok⟩ := bind_eq_ok.mp hok
      cases hok
      exact .inr ⟨.inl ⟨hst, hsame⟩, rfl, rfl, rfl⟩
    · dsimp only at hok
      split at hok
      · cases hok
      obtain ⟨r, -, hok⟩ := bind_eq_ok.mp hok
      cases hok
      refine .inl ⟨?_, ?_, rfl⟩
      all_goals
        dsimp only
        split
        · rfl
        · rfl
  · next hst =>
    unfold handshakeConnected at hok
    split at hok
    · next hnew => exact .inr ⟨.inr ⟨hst, hnew⟩, peerReconnected_callback hok⟩
    split at hok
    · split at hok
      · cases hok
      · cases hok
        exact .inl ⟨rfl, rfl, rfl⟩
    · cases hok
      exact .inl ⟨rfl, rfl, rfl⟩
  · cases hok
    exact .inl ⟨rfl, rfl, rfl⟩
  · cases hok
    exact .inl ⟨rfl, rfl, rfl⟩

private theorem packetReceived_callback {c c' : Channel m n} {buf : List UInt8} {ready : Bool}
    {fn : Option Callback} (hok : c.packetReceived buf = .ok (c', ready, fn)) :
    Performed c (.packetReceived buf) c' fn := by
  have hkept (hid : c'.myStreamId = c.myStreamId) (hfn : c'.disconnectFn = c.disconnectFn) :
      Performed c (.packetReceived buf) c' none :=
    .kept (fun _ _ _ h ↦ nomatch h) hid hfn
  unfold packetReceived at hok
  split at hok
  · cases hok
    exact hkept rfl rfl
  dsimp only at hok
  split at hok
  · obtain ⟨out, -, hok⟩ := bind_eq_ok.mp hok
    cases hok
    exact hkept rfl rfl
  · split at hok
    · cases hok
      exact hkept rfl rfl
    · cases hok
      exact hkept rfl rfl
  · next ht =>
    split at hok
    · cases hok
      exact hkept rfl rfl
    · next h hh =>
      rcases handleHandshakePacket_callback hok with ⟨hid, hfn, rfl⟩ | ⟨hends, hid, hfn, rfl⟩
      · exact hkept hid hfn
      · exact .ended (fun _ _ _ h ↦ nomatch h) ⟨ht, h, hh, hends⟩ hid hfn
  · split at hok
    · cases hok
      exact hkept rfl rfl
    · obtain ⟨out, -, hok⟩ := bind_eq_ok.mp hok
      cases hok
      exact hkept rfl rfl
  · obtain ⟨out, -, hok⟩ := bind_eq_ok.mp hok
    cases hok
    exact hkept rfl rfl
  · cases hok
    exact hkept rfl rfl

/-- A step leaves the stream and its callback alone, or ends the stream and hands its callback
out. -/
theorem performed {c c' : Channel m n} {a : Act} {fn : Option Callback}
    (h : c.perform a = .ok (c', fn)) : Performed c a c' fn := by
  have hkeeps (ha : a.KeepsStream) (hnew : ∀ id draw fn, a ≠ .connect id draw fn) :
      Performed c a c' fn := by
    rw [perform_of_keepsStream c ha] at h
    obtain ⟨c1, hok, heq⟩ := map_eq_ok.mp h
    cases heq
    obtain ⟨hid, hfn⟩ := step_keeps ha hok
    exact .kept hnew hid hfn
  cases a with
  | connect id draw fn =>
    rw [perform, connect] at h
    obtain ⟨t, -, hok⟩ := bind_eq_ok.mp h
    obtain ⟨r, -, hok⟩ := bind_eq_ok.mp hok
    cases hok
    exact .connected id draw fn rfl rfl rfl
  | disconnect id =>
    rw [perform, disconnect] at h
    split at h
    · cases h
      exact .kept (fun _ _ _ h ↦ nomatch h) rfl rfl
    · next hid =>
      obtain ⟨t, -, hok⟩ := bind_eq_ok.mp h
      obtain ⟨r, -, hok⟩ := bind_eq_ok.mp hok
      cases hok
      exact .ended (fun _ _ _ h ↦ nomatch h) (not_not.mp hid) rfl rfl
  | packetReceived buf =>
    obtain ⟨⟨c1, ready, fn'⟩, hok, heq⟩ := map_eq_ok.mp h
    cases heq
    exact packetReceived_callback hok
  | _ => exact hkeeps trivial fun _ _ _ h ↦ nomatch h

/-! ### Histories -/

/-- A connection that was made: its stream id, and whether a callback came with it. -/
structure Connection where
  id : { id : UInt32 // id ≠ 0 }
  hasFn : Bool
  deriving DecidableEq, Repr

namespace Act

/-- The connection that a step makes. -/
def connections : Act → List Connection
  | .connect id _ fn => [⟨id, fn.isSome⟩]
  | _ => []

/-- The step, with `k` as the name of the callback it passes. -/
def named (k : Callback) : Act → Act
  | .connect id draw fn => .connect id draw (fn.map fun _ ↦ k)
  | a => a

end Act

/-- A channel and its past. The callback that came with a connection goes by the number of that
connection. -/
structure History (m n : LinkBufferSize) where
  channel : Channel m n
  connections : List Connection
  due : List Callback
  invoked : List Callback

namespace History

/-- A thread takes a step on the channel, or runs a callback that its step has handed out. What
the callback does is among the steps that follow. -/
inductive Act where
  | step (a : Channel.Act)
  | invoke (i : Nat)
  deriving DecidableEq, Repr

/-- No connection has been made on a new channel. -/
def new (m n : LinkBufferSize) : History m n := ⟨.new m n, [], [], []⟩

/-- A call on the channel, or the invocation of a callback that is due. -/
def step (s : History m n) : Act → Except Check (History m n)
  | .step a => (s.channel.perform (a.named s.connections.length)).map fun out ↦
    { channel := out.1
      connections := s.connections ++ a.connections
      due := s.due ++ out.2.toList
      invoked := s.invoked }
  | .invoke i =>
    match s.due[i]? with
    | none => .ok s
    | some k => .ok { s with due := s.due.eraseIdx i, invoked := s.invoked ++ [k] }

/-- The connection is the last one made, and it has not ended. -/
def Current (s : History m n) (k : Nat) : Prop :=
  k + 1 = s.connections.length ∧ s.channel.myStreamId ≠ 0

instance (s : History m n) (k : Nat) : Decidable (s.Current k) :=
  inferInstanceAs (Decidable (_ ∧ _))

/-- A callback came with the connection. -/
def HasFn (s : History m n) (k : Nat) : Prop :=
  (s.connections[k]?.map Connection.hasFn) = some true

instance (s : History m n) (k : Nat) : Decidable (s.HasFn k) :=
  inferInstanceAs (Decidable (_ = _))

/-- The channel holds the callback of the current connection, and that of every connection
before is due or was run, once. -/
structure Accounted (s : History m n) : Prop where
  connected : s.channel.myStreamId ≠ 0 → s.connections ≠ []
  id : ∀ k x, s.Current k → s.connections[k]? = some x → s.channel.myStreamId = x.id
  fn : ∀ k : Nat, s.channel.disconnectFn = some k ↔ s.Current k ∧ s.HasFn k
  once : ∀ k : Nat, s.invoked.count k + s.due.count k = if s.HasFn k ∧ ¬ s.Current k then 1 else 0

private theorem accounted_new (m n : LinkBufferSize) : (new m n).Accounted where
  connected := fun h ↦ absurd rfl h
  id := fun _ _ h ↦ absurd rfl h.2
  fn := fun _ ↦ ⟨fun h ↦ (nomatch h), fun h ↦ absurd rfl h.1.2⟩
  once := fun k ↦ by simp [new, HasFn]

private theorem count_toList (o : Option Callback) (k : Callback) :
    o.toList.count k = if o = some k then 1 else 0 := by
  cases o with
  | none => simp
  | some j => simp [List.count_singleton]

variable {s s' : History m n}

private theorem Current.lt {k : Nat} (h : s.Current k) : k < s.connections.length := by
  have := h.1
  omega

private theorem HasFn.lt {k : Nat} (h : s.HasFn k) : k < s.connections.length := by
  by_contra hle
  rw [HasFn, List.getElem?_eq_none (by omega)] at h
  cases h

/-- The callbacks due and run, after the stream has ended. -/
theorem Accounted.handed_out (h : s.Accounted) (k : Nat) :
    s.invoked.count k + (s.due ++ s.channel.disconnectFn.toList).count k =
      if s.HasFn k then 1 else 0 := by
  have honce := h.once k
  rw [List.count_append, count_toList, ← Nat.add_assoc, honce]
  by_cases hc : s.Current k
  · by_cases hf : s.HasFn k
    · simp [(h.fn k).mpr ⟨hc, hf⟩, hf, hc]
    · have hnone : s.channel.disconnectFn ≠ some k := fun hk ↦ hf ((h.fn k).mp hk).2
      simp [hf, hnone]
  · have hnone : s.channel.disconnectFn ≠ some k := fun hk ↦ hc ((h.fn k).mp hk).1
    simp [hc, hnone]

/-- Everything a step can do to the history. -/
inductive Moved (s : History m n) (a : Channel.Act) (s' : History m n) : Prop
  | kept : s'.channel.myStreamId = s.channel.myStreamId →
      s'.channel.disconnectFn = s.channel.disconnectFn → s'.connections = s.connections →
      s'.due = s.due → s'.invoked = s.invoked → Moved s a s'
  | ended : s.channel.Ends a → s'.channel.myStreamId = 0 → s'.channel.disconnectFn = none →
      s'.connections = s.connections → s'.due = s.due ++ s.channel.disconnectFn.toList →
      s'.invoked = s.invoked → Moved s a s'
  | connected (x : Connection) : s.channel.Ends a → s'.channel.myStreamId = x.id →
      (∀ k, s'.channel.disconnectFn = some k ↔ k = s.connections.length ∧ x.hasFn = true) →
      s'.connections = s.connections ++ [x] →
      s'.due = s.due ++ s.channel.disconnectFn.toList → s'.invoked = s.invoked → Moved s a s'

private theorem connections_of_named {k : Callback} {a : Channel.Act}
    (h : ∀ id draw fn, a.named k ≠ .connect id draw fn) : a.connections = [] ∧ a.named k = a := by
  cases a with
  | connect id draw fn => exact absurd rfl (h id draw _)
  | _ => exact ⟨rfl, rfl⟩

private theorem moved_of_step {a : Channel.Act} (h : s.step (.step a) = .ok s') : Moved s a s' := by
  obtain ⟨⟨c', fn⟩, hp, rfl⟩ := map_eq_ok.mp h
  cases performed hp with
  | kept hnew hid hfn =>
    obtain ⟨hconn, -⟩ := connections_of_named hnew
    exact .kept hid hfn (by simp [hconn]) (by simp) rfl
  | ended hnew hends hid hfn =>
    obtain ⟨hconn, hsame⟩ := connections_of_named hnew
    rw [hsame] at hends
    exact .ended hends hid hfn (by simp [hconn]) rfl rfl
  | connected id draw fn heq hid hfn =>
    cases a with
    | connect id' draw' fn' =>
      cases heq
      refine .connected ⟨id, fn'.isSome⟩ trivial hid (fun k ↦ ?_) rfl rfl rfl
      dsimp only
      rw [hfn]
      cases fn' with
      | none => simp
      | some => simp [eq_comm]
    | _ => cases heq

private theorem Accounted.invoke (h : s.Accounted) {i : Nat} (hs : s.step (.invoke i) = .ok s') :
    s'.Accounted := by
  rw [step] at hs
  split at hs
  · cases hs
    exact h
  · next k hk =>
    cases hs
    refine ⟨h.connected, h.id, h.fn, fun j ↦ ?_⟩
    obtain ⟨hlt, rfl⟩ := List.getElem?_eq_some_iff.mp hk
    have hperm := (List.getElem_cons_eraseIdx_perm hlt).count_eq j
    have honce := h.once j
    rw [List.count_cons] at hperm
    dsimp only
    rw [List.count_append, List.count_singleton]
    refine Eq.trans ?_ honce
    omega

private theorem Accounted.moved (h : s.Accounted) {a : Channel.Act} (hm : Moved s a s') :
    s'.Accounted := by
  cases hm with
  | kept hid hfn hconn hdue hinv =>
    have hcur (k : Nat) : s'.Current k ↔ s.Current k := by rw [Current, hid, hconn, Current]
    have hhas (k : Nat) : s'.HasFn k ↔ s.HasFn k := by rw [HasFn, hconn, HasFn]
    refine ⟨?_, fun k x hc hk ↦ ?_, fun k ↦ ?_, fun k ↦ ?_⟩
    · rw [hid, hconn]
      exact h.connected
    · rw [hconn] at hk
      rw [hid]
      exact h.id k x ((hcur k).mp hc) hk
    · rw [hfn, hcur, hhas]
      exact h.fn k
    · rw [hdue, hinv, h.once k]
      simp [hcur, hhas]
  | ended _ hid hfn hconn hdue hinv =>
    have hno (k : Nat) : ¬ s'.Current k := fun hc ↦ hc.2 hid
    refine ⟨fun hne ↦ absurd hid hne, fun k _ hc ↦ absurd hc (hno k), fun k ↦ ?_, fun k ↦ ?_⟩
    · simp [hfn, hno k]
    · have hhas : s'.HasFn k ↔ s.HasFn k := by rw [HasFn, hconn, HasFn]
      rw [hdue, hinv, h.handed_out k]
      simp [hno k, hhas]
  | connected x _ hid hfn hconn hdue hinv =>
    have hlen : s'.connections.length = s.connections.length + 1 := by simp [hconn]
    have hcur (k : Nat) : s'.Current k ↔ k = s.connections.length := by
      rw [Current, hlen, hid]
      exact ⟨fun hc ↦ by omega, fun hk ↦ ⟨by omega, x.id.2⟩⟩
    have hlast : s'.connections[s.connections.length]? = some x := by simp [hconn]
    refine ⟨fun _ hnil ↦ ?_, fun k y hc hk ↦ ?_, fun k ↦ ?_, fun k ↦ ?_⟩
    · rw [hnil] at hlen
      cases hlen
    · rw [(hcur k).mp hc, hlast] at hk
      cases hk
      exact hid
    · rw [hfn, hcur]
      refine and_congr_right fun hk ↦ ?_
      rw [hk, HasFn, hlast]
      simp
    · rw [hdue, hinv, h.handed_out k]
      by_cases hk : k = s.connections.length
      · have hnot : ¬ s.HasFn k := fun hf ↦ by
          have := hf.lt
          omega
        simp [hnot, (hcur k).mpr hk]
      · have hhas : s'.HasFn k ↔ s.HasFn k := by
          by_cases hlt : k < s.connections.length
          · rw [HasFn, hconn, List.getElem?_append_left hlt, HasFn]
          · refine ⟨fun hf ↦ ?_, fun hf ↦ absurd hf.lt hlt⟩
            have := hf.lt
            omega
        have hnc : ¬ s'.Current k := fun hc ↦ hk ((hcur k).mp hc)
        simp [hhas, hnc]

private theorem accounted_of_reachable (h : Reachable step anyStep (new m n) s) : s.Accounted := by
  refine h.invariant Accounted (accounted_new m n) fun s a s' hs _ hstep ↦ ?_
  cases a with
  | step a => exact hs.moved (moved_of_step hstep)
  | invoke i => exact hs.invoke hstep

/-- While no later connection has its stream id, a connection is current exactly if the channel
has that id. -/
theorem Accounted.current_iff (h : s.Accounted) {k : Nat} {x : Connection}
    (hk : s.connections[k]? = some x)
    (hfresh : ∀ j y, k < j → s.connections[j]? = some y → y.id ≠ x.id) :
    s.Current k ↔ s.channel.myStreamId = x.id := by
  refine ⟨fun hc ↦ h.id k x hc hk, fun heq ↦ ?_⟩
  obtain ⟨hlt, -⟩ := List.getElem?_eq_some_iff.mp hk
  have hne : s.channel.myStreamId ≠ 0 := heq ▸ x.id.2
  have hlast : s.connections.length - 1 < s.connections.length := by omega
  refine ⟨?_, hne⟩
  by_contra hearlier
  refine hfresh _ _ (by omega) (List.getElem?_eq_getElem hlast) (Subtype.ext ?_)
  rw [← heq]
  exact (h.id _ _ ⟨by omega, hne⟩ (List.getElem?_eq_getElem hlast)).symm

/-- The step after which a connection is no longer current hands its callback out. -/
theorem Accounted.due_of_ended (h : s.Accounted) {a : Channel.Act} {k : Nat}
    (hstep : s.step (.step a) = .ok s') (hc : s.Current k) (hc' : ¬ s'.Current k) :
    s.channel.Ends a ∧ s'.due = s.due ++ if s.HasFn k then [k] else [] := by
  have hfn : s.channel.disconnectFn.toList = if s.HasFn k then [k] else [] := by
    split
    · next hf => rw [(h.fn k).mpr ⟨hc, hf⟩, Option.toList_some]
    · next hf =>
      cases hd : s.channel.disconnectFn with
      | none => rfl
      | some j =>
        obtain ⟨hcj, hfj⟩ := (h.fn j).mp hd
        have hjk : j = k := Nat.succ.inj (hcj.1.trans hc.1.symm)
        exact absurd (hjk ▸ hfj) hf
  cases moved_of_step hstep with
  | kept hid _ hconn =>
    refine absurd ?_ hc'
    rw [Current, hid, hconn]
    exact hc
  | ended hends _ _ _ hdue => exact ⟨hends, hfn ▸ hdue⟩
  | connected x hends _ _ _ hdue => exact ⟨hends, hfn ▸ hdue⟩

/-- A callback is neither due nor run while its connection is current, and once after. The step
that ends the connection hands it out. A current connection has the id of the channel, and the
other way round unless a later connection has drawn that id again. -/
theorem disconnect_callbacks_once (h : Reachable step anyStep (new m n) s) {k : Nat}
    {x : Connection} (hk : s.connections[k]? = some x) :
    (s.invoked.count k + s.due.count k = if x.hasFn = true ∧ ¬ s.Current k then 1 else 0) ∧
    (s.Current k → s.channel.myStreamId = x.id) ∧
    ((∀ j y, k < j → s.connections[j]? = some y → y.id ≠ x.id) →
      s.channel.myStreamId = x.id → s.Current k) ∧
    ∀ a s', s.step (.step a) = .ok s' → s.Current k → ¬ s'.Current k →
      s.channel.Ends a ∧ s'.due = s.due ++ if x.hasFn = true then [k] else [] := by
  have hs := accounted_of_reachable h
  have hhas : s.HasFn k ↔ x.hasFn = true := by
    rw [HasFn, hk]
    simp
  refine ⟨?_, fun hc ↦ hs.id k x hc hk, fun hfresh ↦ (hs.current_iff hk hfresh).mpr, ?_⟩
  · rw [hs.once k]
    simp [hhas]
  · intro a s' hstep hc hc'
    obtain ⟨hends, hdue⟩ := hs.due_of_ended hstep hc hc'
    refine ⟨hends, ?_⟩
    rw [hdue]
    simp [hhas]

/-- A connection is given up and its callback connects again. -/
theorem disconnect_callbacks_once_reconnecting : ∃ s : History 2 2,
    Reachable step anyStep (new 2 2) s ∧ s.channel.myStreamId = 9 ∧
    s.connections = [⟨⟨7, by decide⟩, true⟩, ⟨⟨9, by decide⟩, true⟩] ∧
    s.invoked.count 0 + s.due.count 0 = 1 ∧ s.invoked.count 1 + s.due.count 1 = 0 := by
  obtain ⟨s, hr, hp⟩ := Reachable.of_test step anyStep (new 2 2)
    [.step (.connect ⟨7, by decide⟩ 0 (some 0)), .step (.disconnect 7), .invoke 0,
      .step (.connect ⟨9, by decide⟩ 0 (some 0))]
    (fun s ↦ s.channel.myStreamId = 9 ∧
      s.connections = [⟨⟨7, by decide⟩, true⟩, ⟨⟨9, by decide⟩, true⟩])
    (meets_anyStep ..) (by decide)
  obtain ⟨hid, hconn⟩ := of_decide_eq_true hp
  have h0 := (disconnect_callbacks_once hr (k := 0) (x := ⟨⟨7, by decide⟩, true⟩)
    (by rw [hconn]; rfl)).1
  have h1 := (disconnect_callbacks_once hr (k := 1) (x := ⟨⟨9, by decide⟩, true⟩)
    (by rw [hconn]; rfl)).1
  exact ⟨s, hr, hid, hconn, by simpa [Current, hconn] using h0,
    by simpa [Current, hconn, hid] using h1⟩

/-- The new connection draws the id of the one it supersedes, whose callback then runs while the
channel has that id. -/
theorem disconnect_callback_under_own_id : ∃ s : History 2 2,
    Reachable step anyStep (new 2 2) s ∧
    s.connections[0]? = some ⟨⟨7, by decide⟩, true⟩ ∧ s.channel.myStreamId = 7 ∧
    s.invoked.count 0 = 1 := by
  obtain ⟨s, hr, hp⟩ := Reachable.of_test step anyStep (new 2 2)
    [.step (.connect ⟨7, by decide⟩ 0 (some 0)), .step (.connect ⟨7, by decide⟩ 0 (some 0)),
      .invoke 0]
    (fun s ↦ s.connections[0]? = some (⟨⟨7, by decide⟩, true⟩ : Connection) ∧
      s.channel.myStreamId = 7 ∧ s.invoked.count 0 = 1)
    (meets_anyStep ..) (by decide)
  exact ⟨s, hr, of_decide_eq_true hp⟩

end History

end Channel

end RooTransport.Link
