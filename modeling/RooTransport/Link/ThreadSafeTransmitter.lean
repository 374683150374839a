import RooTransport.Link.ThreadSafeReceiver
import RooTransport.Link.TransmitterQueue

/-!
# The transmitter behind its lock

`link/internal/thread_safe/thread_safe_transmitter.h` and `thread_safe_transmitter.cpp`.
Every method runs under one mutex and is one step on the wrapped transmitter; `write` and
`close` let go of the lock while they wait, and are split there. The second half follows
calls of `close` through all that other threads do meanwhile: when one reports success,
was everything delivered?
-/

namespace RooTransport.Link

open RooTransport.Base RingBuffer

namespace ThreadSafeTransmitter

variable {n : LinkBufferSize}

/-- `thread_safe_transmitter.cpp:12–22`; the function's own result is whether this is `ok`. -/
def checkConnectionStatus (t : Transmitter n) (myStreamId : UInt32) : Status :=
  if (t.state = .connected ∨ t.state = .connecting) ∧ myStreamId = t.myStreamId then .ok
  else .connectionError

/-- `thread_safe_transmitter.cpp:42–50`, with the number of bytes taken. -/
def tryWrite (t : Transmitter n) (buf : List UInt8) (myStreamId : UInt32)
    (outgoingDataReady : Bool) : Except Check (Transmitter n × Nat × Status × Bool) :=
  if checkConnectionStatus t myStreamId ≠ .ok then
    .ok (t, 0, checkConnectionStatus t myStreamId, outgoingDataReady)
  else
    match t.tryWrite buf with
    | .error c => .error c
    | .ok (t, written, ready) => .ok (t, written, .ok, ready)

/-- Where a writer stands when it lets go of the lock. -/
inductive WriteResult where
  /-- `write` returned this number of bytes taken and this status. -/
  | returned (written : Nat) (status : Status) (outgoingDataReady : Bool)
  /-- `write` waits on `has_space_`. -/
  | waits (outgoingDataReady : Bool)
  deriving DecidableEq, Repr

/-- `thread_safe_transmitter.cpp:30–38`, one turn of the loop in `write`. -/
def writeTurn (t : Transmitter n) (buf : List UInt8) (myStreamId : UInt32) :
    Except Check (Transmitter n × WriteResult) :=
  match t.tryWrite buf with
  | .error c => .error c
  | .ok (t, written, ready) =>
    if 0 < written then .ok (t, .returned written .ok ready)
    else if checkConnectionStatus t myStreamId ≠ .ok then
      .ok (t, .returned 0 (checkConnectionStatus t myStreamId) ready)
    else .ok (t, .waits ready)

/-- `thread_safe_transmitter.cpp:24–40`, up to the first wait. -/
def write (t : Transmitter n) (buf : List UInt8) (myStreamId : UInt32)
    (outgoingDataReady : Bool) : Except Check (Transmitter n × WriteResult) :=
  if checkConnectionStatus t myStreamId ≠ .ok then
    .ok (t, .returned 0 (checkConnectionStatus t myStreamId) outgoingDataReady)
  else writeTurn t buf myStreamId

/-- `thread_safe_transmitter.cpp:52–60`. -/
def flush (t : Transmitter n) (myStreamId : UInt32) (outgoingDataReady : Bool) :
    Transmitter n × Status × Bool :=
  if checkConnectionStatus t myStreamId ≠ .ok then
    (t, checkConnectionStatus t myStreamId, outgoingDataReady)
  else (t.flush.1, .ok, outgoingDataReady || t.flush.2)

/-- `thread_safe_transmitter.cpp:62–67`. -/
def hasPendingData (t : Transmitter n) (myStreamId : UInt32) : Bool × Status :=
  if checkConnectionStatus t myStreamId ≠ .ok then
    (false, checkConnectionStatus t myStreamId)
  else (t.hasPendingData, .ok)

/-- `thread_safe_transmitter.cpp:84–89`. -/
def availableForWrite (t : Transmitter n) (myStreamId : UInt32) : Nat × Status :=
  if checkConnectionStatus t myStreamId ≠ .ok then (0, checkConnectionStatus t myStreamId)
  else (t.availableForWrite, .ok)

/-- Where a call of `close` stands when it lets go of the lock. -/
inductive CloseResult where
  | returned (status : Status)
  /-- `close` waits on `all_acked_`. -/
  | waits
  deriving DecidableEq, Repr

/-- `thread_safe_transmitter.cpp:79–80`, one turn of the wait loop in `close`. The status is
still the one of the last check. -/
def closeTurn (t : Transmitter n) (myStreamId : UInt32) : CloseResult :=
  if t.hasPendingData = false then .returned .ok
  else if checkConnectionStatus t myStreamId ≠ .ok then
    .returned (checkConnectionStatus t myStreamId)
  else .waits

/-- `thread_safe_transmitter.cpp:69–82`, up to the first wait. -/
def close (t : Transmitter n) (myStreamId : UInt32) (outgoingDataReady : Bool) :
    Except Check (Transmitter n × CloseResult × Bool) :=
  if checkConnectionStatus t myStreamId ≠ .ok then
    .ok (t, .returned (checkConnectionStatus t myStreamId), outgoingDataReady)
  else
    match t.close with
    | .error c => .error c
    | .ok t =>
      if t.hasPendingData = false then .ok (t, .returned .ok, true) else .ok (t, .waits, true)

/-! ### Calls of `close` among other threads -/

/-- What became of one stream: the bytes accepted for it, those removed from `out_ring_` by
acknowledgements, and whether its final packet was. -/
structure StreamLog where
  accepted : List UInt8
  delivered : List UInt8
  finDelivered : Bool
  deriving DecidableEq, Repr

/-- All that was accepted was delivered, and the end of the stream too. -/
def StreamLog.Complete (log : StreamLog) : Prop :=
  log.delivered = log.accepted ∧ log.finDelivered = true

/-- A call of `close`, with the number of the stream it was made for. -/
structure CloseCall where
  myStreamId : UInt32
  stream : Nat
  result : CloseResult
  deriving DecidableEq, Repr

/-- A turn of the call's wait loop, if it still waits. -/
def CloseCall.turn (call : CloseCall) (t : Transmitter n) : CloseCall :=
  if call.result = .waits then { call with result := closeTurn t call.myStreamId } else call

/-- The transmitter among its threads. Streams are numbered in the order of their `init`. -/
structure Shared (n : LinkBufferSize) where
  tx : Transmitter n
  stream : Nat
  logs : Nat → StreamLog
  calls : List CloseCall

/-- A transmitter that was never used. -/
def Shared.new (n : LinkBufferSize) : Shared n := ⟨.new n, 0, fun _ ↦ ⟨[], [], false⟩, []⟩

/-- What threads do to the transmitter while they hold its lock. Writers and flushers may have
waited for it, so that their check of the stream lies further back. -/
inductive Act where
  | init (myStreamId : UInt32) (newStart : SeqNum)
  | setConnected (peerReceiveBufferSize : Nat) (controlBit : Bool)
  | setBroken
  | reset
  | send (now : Uptime) (draw nextSendMicros : Nat)
  | ack (controlBit : Bool) (seqId : BitVec 16) (ackBitmap : List UInt8)
  | updateRecvHimark (controlBit : Bool) (recvHimark : BitVec 16)
  | tryWrite (buf : List UInt8)
  | flush
  /-- A new call of `close`, up to its first wait. -/
  | close (myStreamId : UInt32)
  /-- A turn of the wait loop of an earlier call. -/
  | wake (call : Nat)
  deriving DecidableEq, Repr

/-- The packets an acknowledgement removed from the front of the window. -/
def removed (t t' : Transmitter n) : List OutBuffer :=
  (List.range (forwardDist t'.outRing.begin_.raw t.outRing.begin_.raw)).map fun i : Nat ↦
    t.getOutBuffer (t.outRing.begin_.add i)

/-- Whether a packet ends its stream. -/
def isFin (b : OutBuffer) : Bool := getPacketType b.header == some .fin

/-- The record after an acknowledgement. -/
def StreamLog.acked (log : StreamLog) (t t' : Transmitter n) : StreamLog :=
  { log with
    delivered := log.delivered ++ (removed t t').flatMap OutBuffer.payload
    finDelivered := log.finDelivered || (removed t t').any isFin }

namespace Shared

/-- Bring the record of the current stream up to date. -/
def note (s : Shared n) (f : StreamLog → StreamLog) : Shared n :=
  { s with logs := Function.update s.logs s.stream (f (s.logs s.stream)) }

/-- A call on the transmitter, or a turn of a `close` that waits. -/
def step (s : Shared n) : Act → Except Check (Shared n)
  | .init id start => (s.tx.init id start).map fun t ↦ { s with tx := t, stream := s.stream + 1 }
  | .setConnected size bit => .ok { s with tx := s.tx.setConnected size bit }
  | .setBroken => s.tx.setBroken.map fun t ↦ { s with tx := t }
  | .reset => s.tx.reset.map fun t ↦ { s with tx := t }
  | .send now draw next => .ok { s with tx := (s.tx.getBufferToSend now draw next).1 }
  | .ack bit seqId bitmap => (s.tx.ack bit seqId bitmap).map fun (t, _) ↦
      { s with tx := t }.note fun log ↦ log.acked s.tx t
  | .updateRecvHimark bit himark => .ok { s with tx := (s.tx.updateRecvHimark bit himark).1 }
  | .tryWrite buf => (s.tx.tryWrite buf).map fun (t, written, _) ↦
      { s with tx := t }.note fun log ↦ { log with accepted := log.accepted ++ buf.take written }
  | .flush => .ok { s with tx := s.tx.flush.1 }
  | .close id => (ThreadSafeTransmitter.close s.tx id false).map fun (t, result, _) ↦
      { s with tx := t, calls := s.calls ++ [⟨id, s.stream, result⟩] }
  | .wake i =>
    match s.calls[i]? with
    | none => .ok s
    | some call => .ok { s with calls := s.calls.set i (call.turn s.tx) }

end Shared

/-! ### What is accepted is queued or delivered -/

/-- The stream may take data and send it. -/
def Alive (t : Transmitter n) : Prop := t.state = .connected ∨ t.state = .connecting

/-- Whether a stream is alive depends on the state of the transmitter only. -/
theorem alive_congr {t t' : Transmitter n} (h : t'.state = t.state) : Alive t' ↔ Alive t := by
  rw [Alive, Alive, h]

/-- A call goes on if its stream is still the current one and alive. -/
theorem checkConnectionStatus_eq_ok {t : Transmitter n} {id : UInt32} :
    checkConnectionStatus t id = .ok ↔ Alive t ∧ id = t.myStreamId := by
  unfold checkConnectionStatus
  split
  · next h => simpa [Alive] using h
  · next h => simpa [Alive] using h

/-- The record of a stream in use: the bytes accepted are those delivered and those queued, and
a closed stream has something queued. -/
def Account (t : Transmitter n) (log : StreamLog) : Prop :=
  ∃ s b e bytes, t.Queue b e bytes ∧ s ≤ b ∧ log.accepted = span bytes s e ∧
    log.delivered = span bytes s b ∧ (t.endOfStream = true → b < e)

section

variable {t t' : Transmitter n} {log : StreamLog}

/-- A stream in use that is closed has something queued. -/
theorem Account.pending (h : Account t log) (heos : t.endOfStream = true) :
    t.outRing.empty = false := by
  obtain ⟨s, b, e, bytes, hq, -, -, -, hlt⟩ := h
  exact hq.spans.empty_eq_false.mpr (hlt heos)

-- What takes no bytes in and removes none keeps the account.
private theorem Account.moved (h : Account t log)
    (hmove : ∀ b e, t.outRing.Spans b e → ∃ effs e',
      Path Transmitter.Moves (t, b, e) effs (t', b, e') ∧ (∀ eff ∈ effs, eff.bytes = []) ∧
      (t'.endOfStream = true → t.endOfStream = true ∨ b < e')) : Account t' log := by
  obtain ⟨s, b, e, bytes, hq, hs, hacc, hdel, hlt⟩ := h
  obtain ⟨effs, e', hpath, hbytes, heos⟩ := hmove b e hq.spans
  have hle := hq.spans.le
  have hmono := Transmitter.path_mono hpath hq.spans
  refine ⟨s, b, e', bytes, hq.path hpath hbytes, hs, ?_, hdel, fun h ↦ ?_⟩
  · rw [hacc, hq.span_eq (hs.trans hle) hmono.2]
  · rcases heos h with h | h
    · have := hlt h
      omega
    · exact h

private theorem Account.flush (h : Account t log) : Account t.flush.1 log := by
  refine h.moved fun b e hs ↦ ?_
  obtain ⟨effs, hpath, hk⟩ := t.flush_path b e
  refine ⟨effs, e, hpath, fun eff heff ↦ by rw [hk eff heff]; rfl, fun he ↦ .inl ?_⟩
  rwa [t.flush_sameStream.endOfStream] at he

private theorem Account.send (h : Account t log) (now : Uptime) (draw next : Nat) :
    Account (t.getBufferToSend now draw next).1 log := by
  refine h.moved fun b e hs ↦ ?_
  have hsend := Transmitter.getBufferToSend_path hs now draw next
  obtain ⟨effs, hpath, hk⟩ := hsend.path
  refine ⟨effs, e, hpath, hk, fun he ↦ .inl ?_⟩
  rwa [hsend.sameStream.endOfStream] at he

private theorem updateRecvHimark_same (t : Transmitter n) (bit : Bool) (himark : BitVec 16) :
    (t.updateRecvHimark bit himark).1.state = t.state ∧
      (t.updateRecvHimark bit himark).1.endOfStream = t.endOfStream := by
  unfold Transmitter.updateRecvHimark
  split
  · exact ⟨rfl, rfl⟩
  split
  · exact ⟨rfl, rfl⟩
  dsimp only
  split
  · exact ⟨rfl, rfl⟩
  · exact ⟨rfl, rfl⟩

private theorem Account.updateRecvHimark (h : Account t log) (bit : Bool) (himark : BitVec 16) :
    Account (t.updateRecvHimark bit himark).1 log := by
  refine h.moved fun b e hs ↦ ?_
  have heos := (updateRecvHimark_same t bit himark).2
  rcases Transmitter.updateRecvHimark_path hs bit himark with heq | ⟨p, -, -, hm⟩
  · rw [heq]
    exact ⟨[], e, .nil _, by simp, .inl⟩
  · exact ⟨_, e, .single hm, by simp [Effect.bytes], fun he ↦ .inl (heos ▸ he)⟩

private theorem Account.setConnected (h : Account t log) (size : Nat) (bit : Bool) :
    Account (t.setConnected size bit) log := by
  obtain ⟨s, b, e, bytes, hq, hrest⟩ := h
  exact ⟨s, b, e, bytes, hq.congr rfl rfl rfl (fun _ hi ↦ hi) (fun _ ↦ rfl) fun _ ↦ rfl, hrest⟩

/-- Closing a stream in use leaves it in use, closed and with something queued. -/
theorem Account.close (h : Account t log) (ha : Alive t) (hc : t.close = .ok t') :
    Account t' log ∧ t'.endOfStream = true ∧ t'.state = t.state := by
  have hst : t.state ≠ .broken ∧ t.state ≠ .idle := by
    rcases ha with ha | ha <;> simp [ha]
  by_cases ho : t.Open
  · have hends : t'.endOfStream = true ∧ t'.state = t.state := by
      obtain ⟨b, e, hs⟩ := t.outRing.exists_spans
      obtain ⟨t1, effs, e', hc1, -, hopen, -⟩ := Transmitter.close_path hs
      obtain rfl : t1 = t' := Except.ok.inj (hc1.symm.trans hc)
      exact ⟨(hopen ho).1, (hopen ho).2.2.1⟩
    refine ⟨h.moved fun b e hs ↦ ?_, hends⟩
    obtain ⟨t1, effs, e', hc1, hpath, hopen, -, hk⟩ := Transmitter.close_path hs
    obtain rfl : t1 = t' := Except.ok.inj (hc1.symm.trans hc)
    exact ⟨effs, e', hpath, fun eff heff ↦ (hk eff heff).bytes_eq, fun _ ↦ .inr (hopen ho).2.1⟩
  · obtain ⟨b, e, hs⟩ := t.outRing.exists_spans
    obtain ⟨t1, effs, e', hc1, -, -, hsame, -⟩ := Transmitter.close_path hs
    obtain rfl : t1 = t' := Except.ok.inj (hc1.symm.trans hc)
    obtain ⟨rfl, -⟩ := hsame ho hst.1
    refine ⟨h, ?_, rfl⟩
    by_contra heos
    exact ho ⟨by simpa using heos, hst.2, hst.1⟩

private theorem Account.tryWrite {buf : List UInt8} {written : Nat} {ready : Bool}
    (h : Account t log) (hw : t.tryWrite buf = .ok (t', written, ready))
    (hg : ¬ (t.outRing.empty = true ∧ ∃ i, t.currentOutBuffer = some i ∧
      (t.outBuffers i).finished = false)) :
    Account t' { log with accepted := log.accepted ++ buf.take written } := by
  obtain ⟨s, b, e, bytes, hq, hs, hacc, hdel, hlt⟩ := h
  have hwritable : t.Writable b e := by
    by_cases hbe : b < e
    · exact .inl hbe
    · refine .inr fun i hi ↦ ?_
      have hempty := hq.spans.empty_iff.mpr (le_antisymm hq.spans.le (not_lt.mp hbe))
      by_contra hf
      exact hg ⟨hempty, i, hi, by simpa using hf⟩
  obtain ⟨e', bytes', hq', hle, -, hspan, hfrozen⟩ := hq.tryWrite hwritable hw
  have hsame := Transmitter.tryWrite_samePhase hw
  refine ⟨s, b, e', bytes', hq', hs, ?_, ?_, fun he ↦ ?_⟩
  · dsimp only
    rw [hacc, hspan s hs]
  · dsimp only
    rw [hdel]
    exact span_congr fun p _ hp ↦ (hfrozen p (by have := hq.spans.le; omega) (.inl hp)).1.symm
  · rw [hsame.endOfStream] at he
    exact (hlt he).trans_le hle

-- The packets removed are those from the old front to the new one.
private theorem removed_eq {b e b' e' : Int} (hs : t.outRing.Spans b e)
    (hs' : t'.outRing.Spans b' e') (hle : b ≤ b') (hnear : b' < b + 65536) :
    removed t t' = (List.range (b' - b).toNat).map fun i : Nat ↦ t.bufferAt (b + i) := by
  have hd : forwardDist t'.outRing.begin_.raw t.outRing.begin_.raw = (b' - b).toNat := by
    have := forwardDist_wrap (w := 16) hle (by norm_num; omega)
    rw [hs.begin_eq, hs'.begin_eq]
    change forwardDist (wrap 16 b') (wrap 16 b) = _
    omega
  rw [removed, hd]
  simp only [hs.begin_eq, SeqNum.ofPos_add, Transmitter.getOutBuffer_ofPos]

private theorem StreamLog.acked_self (log : StreamLog) (t : Transmitter n) :
    log.acked t t = log := by
  simp [StreamLog.acked, removed, forwardDist]

private theorem Account.delivered_acked {s b e b' e' : Int} {bytes : Int → List UInt8}
    (hq : t.Queue b e bytes) (hs : s ≤ b) (hdel : log.delivered = span bytes s b)
    (hs' : t'.outRing.Spans b' e') (hle : b ≤ b') (hue : b' ≤ e) :
    (log.acked t t').delivered = span bytes s b' := by
  have hcap := capacity_le n
  have hus := hq.spans.used
  have hremoved : (removed t t').flatMap OutBuffer.payload = span bytes b b' := by
    rw [removed_eq hq.spans hs' hle (by omega), List.flatMap_map]
    apply List.flatMap_congr
    intro i hi
    have := List.mem_range.mp hi
    exact hq.content _ (by omega) (by omega)
  rw [StreamLog.acked]
  dsimp only
  rw [hdel, hremoved, span_append bytes hs hle]

/-- An acknowledgement moves bytes of a stream in use from the queue to those delivered; when
it ends the stream, nothing is left out. -/
theorem Account.ack {bit rushed : Bool} {seqId : BitVec 16} {bitmap : List UInt8}
    (h : Account t log) (hack : t.ack bit seqId bitmap = .ok (t', rushed)) :
    (t' = t) ∨
    (t'.state = .connected ∧ t.state = .connected ∧ t'.endOfStream = t.endOfStream ∧
      Account t' (log.acked t t')) ∨
    (t'.state = .idle ∧ t.state = .connected ∧ (log.acked t t').Complete) := by
  obtain ⟨s, b, e, bytes, hq, hs, hacc, hdel, hlt⟩ := h
  obtain ⟨t1, rushed1, hack1, hacking⟩ := Transmitter.ack_path hq.spans bit seqId bitmap
  obtain ⟨rfl, -⟩ := Prod.mk.inj (Except.ok.inj (hack1.symm.trans hack))
  cases hacking with
  | ignored => exact .inl rfl
  | @applied _ q e' effs hst _ _ _ _ hqe hpath hk hends =>
    have hle := hq.spans.le
    have hmono := Transmitter.path_mono hpath hq.spans
    have hq' := hq.path hpath fun eff heff ↦ (hk eff heff).bytes_eq
    have hdel' := Account.delivered_acked hq hs hdel hq'.spans hmono.1 (by omega)
    rcases hends with ⟨hst', heos', hne⟩ | ⟨hst', heos, hbe, rfl, hpend⟩
    · refine .inr (.inl ⟨hst', hst, heos', s, _, e', bytes, hq', by omega, ?_, hdel', fun he ↦ ?_⟩)
      · exact hacc.trans (hq.span_eq (hs.trans hle) hmono.2).symm
      · have hle' := hq'.spans.le
        rw [heos'] at he
        have : max b q ≠ e' := fun heq ↦ by rw [hne heq] at he; cases he
        omega
    · have hbe' := hlt heos
      have hfin := hq.fin heos (hpend hbe') hbe'
      refine .inr (.inr ⟨hst', hst, ?_, ?_⟩)
      · rw [hdel', hbe]
        exact hacc.symm
      · have hcap := capacity_le n
        have hus := hq.spans.used
        have hany : (removed t t1).any isFin = true := by
          rw [removed_eq hq.spans hq'.spans (by omega) (by omega), List.any_map, List.any_eq_true]
          refine ⟨(e' - 1 - b).toNat, List.mem_range.mpr (by omega), ?_⟩
          have hpos : b + ((e' - 1 - b).toNat : Int) = e' - 1 := by omega
          simp only [Function.comp, isFin, hpos, hfin, beq_self_eq_true]
        simp [StreamLog.acked, hany]

end

/-! ### Runs -/

namespace Shared

/-- While a call waits for the current stream, nothing queued is dropped; no byte goes to a
buffer that has left the window; and only a stream being connected becomes connected. -/
def CloseGuard (s : Shared n) : Act → Prop
  | .init _ _ | .setBroken | .reset => s.tx.outRing.empty = false →
      ∀ call ∈ s.calls, call.stream = s.stream → call.result ≠ .waits
  | .tryWrite _ => ¬ (s.tx.outRing.empty = true ∧ ∃ i, s.tx.currentOutBuffer = some i ∧
      (s.tx.outBuffers i).finished = false)
  | .setConnected _ _ => s.tx.state = .connected ∨ s.tx.state = .connecting
  | _ => True

/-- A call that still has packets to wait for. -/
def Waiting (s : Shared n) (call : CloseCall) : Prop :=
  Alive s.tx ∧ call.stream = s.stream ∧ s.tx.endOfStream = true ∧ call.result = .waits

/-- A call for a stream that is over, with all of it delivered. -/
def Served (s : Shared n) (call : CloseCall) : Prop :=
  (s.logs call.stream).Complete ∧ call.stream ≤ s.stream ∧
    (call.stream = s.stream → ¬ Alive s.tx)

private structure Good (s : Shared n) : Prop where
  live : Alive s.tx → Account s.tx (s.logs s.stream)
  calls : ∀ call ∈ s.calls, call.result ≠ .returned .connectionError →
    s.Waiting call ∨ s.Served call
  fresh : ∀ k, s.stream < k → s.logs k = ⟨[], [], false⟩

private theorem good_new (n : LinkBufferSize) : (Shared.new n).Good where
  live h := by rcases h with h | h <;> cases h
  calls call h := by cases h
  fresh k _ := rfl

/-- A call that waits for the current stream keeps everything queued from being dropped. -/
theorem Good.not_waiting {s : Shared n} (h : s.Good)
    (hg : s.tx.outRing.empty = false → ∀ call ∈ s.calls, call.stream = s.stream →
      call.result ≠ .waits) {call : CloseCall} (hc : call ∈ s.calls) : ¬ s.Waiting call :=
  fun ⟨ha, hs, heos, hw⟩ ↦ hg ((h.live ha).pending heos) call hc hs hw

private theorem Good.carried {s : Shared n} (h : s.Good) (t : Transmitter n)
    (f : StreamLog → StreamLog) (hlive : Alive s.tx → Alive t ∧ t.endOfStream = s.tx.endOfStream ∧
      Account t (f (s.logs s.stream)))
    (hdead : ¬ Alive s.tx → ¬ Alive t ∧ f (s.logs s.stream) = s.logs s.stream) :
    ({ s with tx := t }.note f : Shared n).Good := by
  have hother {k : Nat} (hk : k ≠ s.stream) :
      ({ s with tx := t }.note f : Shared n).logs k = s.logs k :=
    Function.update_of_ne hk ..
  have hown : ({ s with tx := t }.note f : Shared n).logs s.stream = f (s.logs s.stream) :=
    Function.update_self ..
  by_cases ha : Alive s.tx
  · obtain ⟨hat, heos, hacc⟩ := hlive ha
    refine ⟨fun _ ↦ hown ▸ hacc, fun call hc hr ↦ ?_, fun k hk ↦ ?_⟩
    · rcases h.calls call hc hr with ⟨-, hs, he, hw⟩ | ⟨hcomp, hle, hno⟩
      · exact .inl ⟨hat, hs, heos.trans he, hw⟩
      · have hne : call.stream ≠ s.stream := fun heq ↦ hno heq ha
        exact .inr ⟨by rw [hother hne]; exact hcomp, hle, fun heq ↦ absurd heq hne⟩
    · exact (hother (by simp only [note] at hk; omega)).trans (h.fresh k hk)
  · obtain ⟨hat, hsame⟩ := hdead ha
    have hlogs : ({ s with tx := t }.note f : Shared n).logs = s.logs := by
      simp only [note, hsame, Function.update_eq_self]
    refine ⟨fun h' ↦ absurd h' hat, fun call hc hr ↦ ?_,
      fun k hk ↦ by rw [hlogs]; exact h.fresh k hk⟩
    rcases h.calls call hc hr with ⟨ha', -⟩ | ⟨hcomp, hle, -⟩
    · exact absurd ha' ha
    · exact .inr ⟨by rw [hlogs]; exact hcomp, hle, fun _ ↦ hat⟩

private theorem Good.untouched {s : Shared n} (h : s.Good) (t : Transmitter n)
    (halive : Alive t ↔ Alive s.tx) (heos : t.endOfStream = s.tx.endOfStream)
    (hacc : Account s.tx (s.logs s.stream) → Account t (s.logs s.stream)) :
    ({ s with tx := t } : Shared n).Good := by
  have hkeep := h.carried t id (fun ha ↦ ⟨halive.mpr ha, heos, hacc (h.live ha)⟩)
    fun hd ↦ ⟨fun ha ↦ hd (halive.mp ha), rfl⟩
  have hnote : ({ s with tx := t }.note id : Shared n) = { s with tx := t } := by
    simp only [note, id, Function.update_eq_self]
  rwa [hnote] at hkeep

/-- Dropping the stream is no loss when no call waits for it. -/
theorem Good.dropped {s : Shared n} (h : s.Good) (t : Transmitter n) (hd : ¬ Alive t)
    (hg : s.tx.outRing.empty = false → ∀ call ∈ s.calls, call.stream = s.stream →
      call.result ≠ .waits) : ({ s with tx := t } : Shared n).Good := by
  refine ⟨fun ha ↦ absurd ha hd, fun call hc hr ↦ ?_, h.fresh⟩
  rcases h.calls call hc hr with hw | ⟨hcomp, hle, -⟩
  · exact absurd hw (h.not_waiting hg hc)
  · exact .inr ⟨hcomp, hle, fun _ ↦ hd⟩

private theorem Good.init {s : Shared n} (h : s.Good) (id : UInt32) (start : SeqNum)
    {t : Transmitter n} (hok : s.tx.init id start = .ok t)
    (hg : s.tx.outRing.empty = false → ∀ call ∈ s.calls, call.stream = s.stream →
      call.result ≠ .waits) : ({ s with tx := t, stream := s.stream + 1 } : Shared n).Good := by
  obtain ⟨p, rfl⟩ : ∃ p, start = .ofPos p := ⟨_, (SeqNum.ofPos_raw start).symm⟩
  rw [Transmitter.init_ok] at hok
  cases hok
  refine ⟨fun _ ↦ ?_, fun call hc hr ↦ ?_, fun k hk ↦ h.fresh k (by simp only at hk; omega)⟩
  · have hlog := h.fresh (s.stream + 1) (by omega)
    dsimp only
    rw [hlog]
    exact ⟨p, p, p, fun _ ↦ [], ⟨spans_new n p, fun q hl hu ↦ by omega, fun _ _ ↦ rfl, by simp,
      by simp, by simp, by simp⟩, le_refl p, by simp, by simp, by simp⟩
  · rcases h.calls call hc hr with hw | ⟨hcomp, hle, -⟩
    · exact absurd hw (h.not_waiting hg hc)
    · exact .inr ⟨hcomp, by simp only; omega, fun heq ↦ by simp only at heq; omega⟩

private theorem Good.ack {s : Shared n} (h : s.Good) {bit rushed : Bool} {seqId : BitVec 16}
    {bitmap : List UInt8} {t : Transmitter n} (hok : s.tx.ack bit seqId bitmap = .ok (t, rushed)) :
    ({ s with tx := t }.note fun log ↦ log.acked s.tx t : Shared n).Good := by
  by_cases ha : Alive s.tx
  case neg =>
    -- Only a connected stream takes acknowledgements.
    have hsame : t = s.tx := by
      rw [Transmitter.ack, if_pos fun hc ↦ ha (.inl hc)] at hok
      exact (Prod.mk.inj (Except.ok.inj hok)).1.symm
    refine h.carried t _ (fun h' ↦ absurd h' ha) fun _ ↦ ?_
    rw [hsame]
    exact ⟨ha, StreamLog.acked_self _ _⟩
  rcases (h.live ha).ack hok with rfl | ⟨hst, -, heos, hacc⟩ | ⟨hst, -, hcomp⟩
  · refine h.carried _ _ (fun _ ↦ ⟨ha, rfl, ?_⟩) fun h' ↦ absurd ha h'
    rw [StreamLog.acked_self]
    exact h.live ha
  · exact h.carried t _ (fun _ ↦ ⟨.inl hst, heos, hacc⟩) fun h' ↦ absurd ha h'
  · have hdead : ¬ Alive t := by simp [Alive, hst]
    have hown : ({ s with tx := t }.note fun log ↦ log.acked s.tx t : Shared n).logs s.stream =
        (s.logs s.stream).acked s.tx t :=
      Function.update_self ..
    have hother {k : Nat} (hk : k ≠ s.stream) :
        ({ s with tx := t }.note fun log ↦ log.acked s.tx t : Shared n).logs k = s.logs k :=
      Function.update_of_ne hk ..
    refine ⟨fun h' ↦ absurd h' hdead, fun call hc hr ↦ .inr ?_, fun k hk ↦ ?_⟩
    · rcases h.calls call hc hr with ⟨-, hs, -, -⟩ | ⟨hcomp', hle, hno⟩
      · exact ⟨by rw [hs, hown]; exact hcomp, le_of_eq hs, fun _ ↦ hdead⟩
      · have hne : call.stream ≠ s.stream := fun heq ↦ hno heq ha
        exact ⟨by rw [hother hne]; exact hcomp', hle, fun _ ↦ hdead⟩
    · exact (hother (by simp only [note] at hk; omega)).trans (h.fresh k hk)

private theorem Good.tryWrite {s : Shared n} (h : s.Good) {buf : List UInt8} {written : Nat}
    {ready : Bool} {t : Transmitter n} (hok : s.tx.tryWrite buf = .ok (t, written, ready))
    (hg : s.CloseGuard (.tryWrite buf)) :
    ({ s with tx := t }.note fun log ↦
      { log with accepted := log.accepted ++ buf.take written } : Shared n).Good := by
  have hsame := Transmitter.tryWrite_samePhase hok
  have halive := alive_congr hsame.state
  refine h.carried t _
    (fun ha ↦ ⟨halive.mpr ha, hsame.endOfStream, (h.live ha).tryWrite hok hg⟩)
    fun hd ↦ ⟨fun ha ↦ hd (halive.mp ha), ?_⟩
  · have hst : s.tx.state = .idle ∨ s.tx.state = .broken := by
      cases hs : s.tx.state <;> simp [Alive, hs] at hd ⊢
    have hnone : written = 0 := by
      simp only [Transmitter.tryWrite, hst, if_true, ite_self] at hok
      exact (Prod.mk.inj (Prod.mk.inj (Except.ok.inj hok)).2).1.symm
    simp [hnone]

private theorem Good.close {s : Shared n} (h : s.Good) {id : UInt32} {t : Transmitter n}
    {result : CloseResult} {ready : Bool}
    (hok : ThreadSafeTransmitter.close s.tx id false = .ok (t, result, ready)) :
    ({ s with tx := t, calls := s.calls ++ [⟨id, s.stream, result⟩] } : Shared n).Good := by
  unfold ThreadSafeTransmitter.close at hok
  split at hok
  · next hcheck =>
    cases hok
    have herr : checkConnectionStatus s.tx id = .connectionError := by
      unfold checkConnectionStatus at hcheck ⊢
      split
      · next hc => exact absurd (if_pos hc) hcheck
      · rfl
    refine ⟨h.live, fun call hc hr ↦ ?_, h.fresh⟩
    rcases List.mem_append.mp hc with hc | hc
    · exact h.calls call hc hr
    · rw [List.mem_singleton.mp hc, herr] at hr
      exact absurd rfl hr
  next hcheck =>
  have ha : Alive s.tx := (checkConnectionStatus_eq_ok.mp (not_not.mp hcheck)).1
  cases hclose : s.tx.close with
  | error c => rw [hclose] at hok; cases hok
  | ok t1 =>
    obtain ⟨hacc, heos, hst⟩ := (h.live ha).close ha hclose
    have hpending : ¬ t1.hasPendingData = false := by
      simp [Transmitter.hasPendingData, hacc.pending heos]
    rw [hclose] at hok
    dsimp only at hok
    rw [if_neg hpending] at hok
    cases hok
    have halive : Alive t := (alive_congr hst).mpr ha
    refine ⟨fun _ ↦ hacc, fun call hc hr ↦ ?_, h.fresh⟩
    rcases List.mem_append.mp hc with hc | hc
    · rcases h.calls call hc hr with ⟨-, hs, -, hw⟩ | ⟨hcomp, hle, hno⟩
      · exact .inl ⟨halive, hs, heos, hw⟩
      · exact .inr ⟨hcomp, hle, fun heq ↦ absurd ha (hno heq)⟩
    · rw [List.mem_singleton.mp hc]
      exact .inl ⟨halive, rfl, heos, rfl⟩

/-- A call finds the queue empty only when its stream was served. -/
theorem Good.turn {s : Shared n} (h : s.Good) {call : CloseCall} (hc : call ∈ s.calls)
    (hr : (call.turn s.tx).result ≠ .returned .connectionError) :
    s.Waiting (call.turn s.tx) ∨ s.Served (call.turn s.tx) := by
  unfold CloseCall.turn at hr ⊢
  split
  · next hw =>
    rw [if_pos hw] at hr
    rcases h.calls call hc (by simp [hw]) with ⟨ha, hs, heos, -⟩ | hserved
    · have hpending : ¬ s.tx.hasPendingData = false := by
        simp [Transmitter.hasPendingData, (h.live ha).pending heos]
      refine .inl ⟨ha, hs, heos, ?_⟩
      dsimp only [closeTurn] at hr ⊢
      rw [if_neg hpending] at hr ⊢
      split
      · next hcheck =>
        rw [if_pos hcheck] at hr
        unfold checkConnectionStatus at hr hcheck
        split at hr
        · next hc => exact absurd (if_pos hc) hcheck
        · exact absurd rfl hr
      · rfl
    · exact .inr hserved
  · next hw =>
    rw [if_neg hw] at hr
    exact h.calls call hc hr

private theorem good_step {s s' : Shared n} {a : Act} (h : s.Good) (hg : s.CloseGuard a)
    (hstep : s.step a = .ok s') : s'.Good := by
  cases a with
  | init id start =>
    obtain ⟨t, hok, rfl⟩ := map_eq_ok.mp hstep
    exact h.init id start hok hg
  | setConnected size bit =>
    cases hstep
    exact h.untouched _ ⟨fun _ ↦ hg, fun _ ↦ .inl rfl⟩ rfl fun hacc ↦ hacc.setConnected size bit
  | setBroken =>
    obtain ⟨t, hok, rfl⟩ := map_eq_ok.mp hstep
    obtain ⟨b, e, hs⟩ := s.tx.outRing.exists_spans
    rw [Transmitter.setBroken_ok hs] at hok
    cases hok
    exact h.dropped _ (by simp [Alive]) hg
  | reset =>
    obtain ⟨t, hok, rfl⟩ := map_eq_ok.mp hstep
    obtain ⟨b, e, hs⟩ := s.tx.outRing.exists_spans
    obtain ⟨t1, hr, hm⟩ := Transmitter.reset_ok hs
    obtain rfl : t1 = t := Except.ok.inj (hr.symm.trans hok)
    exact h.dropped _ (by cases hm; simp [Alive]) hg
  | send now draw next =>
    cases hstep
    obtain ⟨b, e, hs⟩ := s.tx.outRing.exists_spans
    have hsame := (Transmitter.getBufferToSend_path hs now draw next).sameStream
    exact h.untouched _ (alive_congr hsame.state) hsame.endOfStream
      fun hacc ↦ hacc.send now draw next
  | ack bit seqId bitmap =>
    obtain ⟨⟨t, rushed⟩, hok, rfl⟩ := map_eq_ok.mp hstep
    exact h.ack hok
  | updateRecvHimark bit himark =>
    cases hstep
    obtain ⟨hst, heos⟩ := updateRecvHimark_same s.tx bit himark
    exact h.untouched _ (alive_congr hst) heos fun hacc ↦ hacc.updateRecvHimark bit himark
  | tryWrite buf =>
    obtain ⟨⟨t, written, ready⟩, hok, rfl⟩ := map_eq_ok.mp hstep
    exact h.tryWrite hok hg
  | flush =>
    cases hstep
    have hsame := s.tx.flush_sameStream
    exact h.untouched _ (alive_congr hsame.state) hsame.endOfStream fun hacc ↦ hacc.flush
  | close id =>
    obtain ⟨⟨t, result, ready⟩, hok, rfl⟩ := map_eq_ok.mp hstep
    exact h.close hok
  | wake i =>
    rw [step] at hstep
    split at hstep
    · cases hstep
      exact h
    next call hcall =>
    cases hstep
    refine ⟨h.live, fun call' hc hr ↦ ?_, h.fresh⟩
    rcases List.mem_or_eq_of_mem_set hc with hc | rfl
    · exact h.calls call' hc hr
    · exact h.turn (List.mem_of_getElem? hcall) hr

/-- In every run that drops nothing from under a waiting call, a call of `close` that returns
success leaves a stream of which every byte and the end were delivered. -/
theorem complete_of_close_ok {s : Shared n} {call : CloseCall}
    (hr : Reachable step CloseGuard (Shared.new n) s) (hc : call ∈ s.calls)
    (hok : call.result = .returned .ok) : (s.logs call.stream).Complete := by
  have h := hr.invariant Good (good_new n) fun s a s' ↦ good_step
  rcases h.calls call hc (by simp [hok]) with ⟨-, -, -, hw⟩ | ⟨hcomp, -⟩
  · rw [hok] at hw
    cases hw
  · exact hcomp

instance (s : Shared n) (a : Act) : Decidable (s.CloseGuard a) :=
  match a with
  | .init _ _ | .setBroken | .reset => inferInstanceAs (Decidable (_ → ∀ call ∈ s.calls, _))
  | .tryWrite _ => inferInstanceAs (Decidable (¬ (_ ∧ ∃ _, _)))
  | .setConnected _ _ => inferInstanceAs (Decidable (_ ∨ _))
  | .send _ _ _ | .ack _ _ _ | .updateRecvHimark _ _ | .flush | .close _ | .wake _ =>
    .isTrue trivial

/-- A byte written, sent and acknowledged together with the end of the stream. -/
theorem complete_after_ack : ∃ s : Shared 2, Reachable step CloseGuard (Shared.new 2) s ∧
    ⟨1, 1, .returned .ok⟩ ∈ s.calls ∧ (s.logs 1).accepted = [7] ∧ (s.logs 1).Complete := by
  obtain ⟨s, hs, ht⟩ := Reachable.of_test step CloseGuard (Shared.new 2)
    [.init 1 ⟨0⟩, .setConnected 4 true, .tryWrite [7], .close 1, .send 0 0 0, .send 0 0 0,
      .ack false 2 [], .wake 0]
    (fun s ↦ s.calls = [⟨1, 1, .returned .ok⟩] ∧ (s.logs 1).accepted = [7])
    (by decide) (by decide)
  obtain ⟨hcalls, hacc⟩ := of_decide_eq_true ht
  have hmem : ⟨1, 1, .returned .ok⟩ ∈ s.calls := by simp [hcalls]
  exact ⟨s, hs, hmem, hacc, complete_of_close_ok hs hmem rfl⟩

/-- A connection that breaks under a waiting call: `close` reports success although the byte
accepted was never sent. -/
theorem close_ok_after_break : ∃ s : Shared 2, Reachable step anyStep (Shared.new 2) s ∧
    ⟨1, 1, .returned .ok⟩ ∈ s.calls ∧ ¬ (s.logs 1).Complete := by
  obtain ⟨s, hs, ht⟩ := Reachable.of_test step anyStep (Shared.new 2)
    [.init 1 ⟨0⟩, .setConnected 4 true, .tryWrite [7], .close 1, .setBroken, .wake 0]
    (fun s ↦ s.calls = [⟨1, 1, .returned .ok⟩] ∧ s.logs 1 = ⟨[7], [], false⟩)
    (meets_anyStep _ _ _) (by decide)
  obtain ⟨hcalls, hlog⟩ := of_decide_eq_true ht
  refine ⟨s, hs, by simp [hcalls], fun h ↦ ?_⟩
  rw [hlog] at h
  cases h.2

end Shared

end ThreadSafeTransmitter

end RooTransport.Link
