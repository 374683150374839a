import RooTransport.Base.Run
import RooTransport.Link.Transmitter

/-!
# What the transmitter operations do to the queue

Every operation of `transmitter.cpp` is taken apart into elementary effects, each touching
one slot or one end of the window, with the positions they happen at. Invariants of the
transmitter are proved effect by effect and hold of the operations by following their
paths.
-/

namespace RooTransport.Link

open RooTransport.Base RingBuffer

/-- The elementary effects, with the positions and bytes they concern. -/
inductive Effect where
  /-- A data packet is opened at the end of the window. -/
  | alloc (p : Int)
  /-- Bytes are written to the current buffer. -/
  | write (bytes : List UInt8)
  /-- A finished buffer stops being current. -/
  | release
  | flush
  /-- The stream is closed, with its final packet queued at once or as soon as there is room. -/
  | closeNow (p : Int)
  | closeLater
  /-- The final packet that had to wait is queued. -/
  | lateEos (p : Int)
  | finish (p : Int)
  /-- A packet is handed out; `fast` if as the next in sequence. -/
  | send (p : Int) (fast : Bool)
  /-- The first packet of the window is removed as delivered. -/
  | pop (p : Int)
  /-- A packet is marked as received out of order. -/
  | skip (p : Int)
  | rush (p : Int)
  | himark (h : Int)
  /-- The stream ends, with the packets from `b` to `e` dropped. -/
  | reset (b e : Int)
  /-- A broken stream is closed. -/
  | calm
  /-- A buffer that has left the window is finished or handed out: with nothing queued, a
  `next_to_send_` half the sequence range away counts as contained. -/
  | stray
  deriving DecidableEq, Repr

namespace OutBuffer

/-- Writing to a buffer leaves its header alone. -/
@[simp] theorem header_extended (b : OutBuffer) (bytes : List UInt8) :
    (b.extended bytes).header = b.header := by
  unfold extended
  split
  · rfl
  · rfl

/-- Writing to a buffer appends to its payload. -/
@[simp] theorem payload_extended (b : OutBuffer) (bytes : List UInt8) :
    (b.extended bytes).payload = b.payload ++ bytes := by
  unfold extended
  split
  · rfl
  · rfl

end OutBuffer

namespace Transmitter

variable {n : LinkBufferSize}

/-- Finishing a buffer does not count as sending it. -/
@[simp] theorem finishBuffer_sendCounter (x : OutBuffer) :
    (finishBuffer x).sendCounter = x.sendCounter := by
  unfold finishBuffer
  split
  · rfl
  · rfl

/-- Finishing a buffer leaves its header alone. -/
@[simp] theorem finishBuffer_header (x : OutBuffer) : (finishBuffer x).header = x.header := by
  unfold finishBuffer
  split
  · rfl
  · rfl

/-- Finishing a buffer leaves its payload alone. -/
@[simp] theorem finishBuffer_payload (x : OutBuffer) : (finishBuffer x).payload = x.payload := by
  unfold finishBuffer
  split
  · rfl
  · rfl

/-- Finishing a buffer does not acknowledge it. -/
@[simp] theorem finishBuffer_acked (x : OutBuffer) : (finishBuffer x).acked = x.acked := by
  unfold finishBuffer
  split
  · rfl
  · rfl

/-- A buffer that was finished is. -/
@[simp] theorem finishBuffer_finished (x : OutBuffer) : (finishBuffer x).finished = true := by
  unfold finishBuffer
  split
  · next h => exact h
  · rfl

/-- The buffer kept for a position. -/
def bufferAt (t : Transmitter n) (p : Int) : OutBuffer := t.outBuffers (slotAt n p)

/-- The transmitter with another buffer for a position. -/
def withBuffer (t : Transmitter n) (p : Int) (b : OutBuffer) : Transmitter n :=
  { t with outBuffers := Function.update t.outBuffers (slotAt n p) b }

/-- The buffer of a sequence number is that of its position. -/
@[simp] theorem getOutBuffer_ofPos (t : Transmitter n) (p : Int) :
    t.getOutBuffer (.ofPos p) = t.bufferAt p := by
  rw [getOutBuffer, offsetFor_ofPos, bufferAt]

/-- Writing the buffer of a sequence number is writing that of its position. -/
@[simp] theorem setOutBuffer_ofPos (t : Transmitter n) (p : Int) (b : OutBuffer) :
    t.setOutBuffer (.ofPos p) b = t.withBuffer p b := by
  rw [setOutBuffer, offsetFor_ofPos, withBuffer]

/-- A buffer that was written is read back. -/
theorem bufferAt_withBuffer (t : Transmitter n) (p : Int) (b : OutBuffer) :
    (t.withBuffer p b).bufferAt p = b :=
  Function.update_self ..

/-- Writing one buffer leaves the others of the window alone. -/
theorem bufferAt_withBuffer_ne (t : Transmitter n) {p q : Int} (b : OutBuffer) (hne : q ≠ p)
    (hl : -2 ^ n.val < q - p) (hu : q - p < 2 ^ n.val) :
    (t.withBuffer p b).bufferAt q = t.bufferAt q :=
  Function.update_of_ne (slotAt_ne hne hl hu) ..

/-- The packets of a window after one was put at its end. -/
theorem bufferAt_pushed {t t' : Transmitter n} {b e p : Int} {x : OutBuffer}
    (hbuf : t'.outBuffers = (t.withBuffer e x).outBuffers) (hroom : e < b + 2 ^ n.val) (hl : b ≤ p)
    (hu : p < e + 1) : p = e ∧ t'.bufferAt p = x ∨ p < e ∧ t'.bufferAt p = t.bufferAt p := by
  have hsame : t'.bufferAt p = (t.withBuffer e x).bufferAt p := congrFun hbuf _
  by_cases hp : p = e
  · refine .inl ⟨hp, ?_⟩
    rw [hsame, hp]
    exact bufferAt_withBuffer t e x
  · refine .inr ⟨by omega, ?_⟩
    rw [hsame]
    exact bufferAt_withBuffer_ne t x hp (by omega) (by omega)

/-- What an update keeps of the slot it replaces, it keeps everywhere. -/
theorem field_update {β : Type} (f : OutBuffer → β) {slots : Slots n OutBuffer}
    {i : Fin (2 ^ n.val)} {x : OutBuffer} (hx : f x = f (slots i)) (j : Fin (2 ^ n.val)) :
    f (Function.update slots i x j) = f (slots j) := by
  by_cases hj : j = i
  · rw [hj, Function.update_self, hx]
  · rw [Function.update_of_ne hj]

/-- What holds of a slot and of what it is replaced with holds after the update. -/
theorem holds_update {P : OutBuffer → Prop} {slots : Slots n OutBuffer} {i j : Fin (2 ^ n.val)}
    {x : OutBuffer} (hx : P (slots i) → P x) (hj : P (slots j)) :
    P (Function.update slots i x j) := by
  by_cases hij : j = i
  · rw [hij, Function.update_self]
    exact hx (hij ▸ hj)
  · rw [Function.update_of_ne hij]
    exact hj

/-- The stream takes data or a close. -/
def Open (t : Transmitter n) : Prop :=
  t.endOfStream = false ∧ t.state ≠ .idle ∧ t.state ≠ .broken

/-- A transmitter with the interval of positions its window spans. -/
abbrev Placed (n : LinkBufferSize) := Transmitter n × Int × Int

/-- The elementary effects on a transmitter whose window spans `b` to `e`. -/
inductive Moves : Placed n → Effect → Placed n → Prop
  | alloc {t : Transmitter n} {b e : Int} (ring : RingBuffer n) : t.Open →
      t.currentOutBuffer = none → t.recvHimark.Ge t.outRing.end_ →
      t.recvHimark ≠ t.outRing.end_ → e < b + 2 ^ n.val → ring.Spans b (e + 1) →
      Moves (t, b, e) (.alloc e)
        ({ t.withBuffer e (OutBuffer.init (.ofPos e) t.controlBit) with
          outRing := ring, currentOutBuffer := some (slotAt n e) }, b, e + 1)
  | write {t : Transmitter n} {b e : Int} (i : Fin (2 ^ n.val)) (bytes : List UInt8) : t.Open →
      t.currentOutBuffer = some i → (t.outBuffers i).finished = false → bytes ≠ [] →
      (t.outBuffers i).payload.length + bytes.length ≤ 248 →
      Moves (t, b, e) (.write bytes)
        ({ t with
          outBuffers := Function.update t.outBuffers i ((t.outBuffers i).extended bytes)
          currentOutBuffer :=
            if (t.outBuffers i).payload.length + bytes.length = 248 then none else some i },
          b, e)
  | release {t : Transmitter n} {b e : Int} (i : Fin (2 ^ n.val)) :
      t.currentOutBuffer = some i → (t.outBuffers i).finished = true →
      Moves (t, b, e) .release ({ t with currentOutBuffer := none }, b, e)
  | flush {t : Transmitter n} {b e : Int} (i : Fin (2 ^ n.val)) : t.currentOutBuffer = some i →
      Moves (t, b, e) .flush
        ({ t with outBuffers := Function.update t.outBuffers i (t.outBuffers i).flush }, b, e)
  | closeNow {t : Transmitter n} {b e : Int} (ring : RingBuffer n) : t.Open →
      e < b + 2 ^ n.val → ring.Spans b (e + 1) →
      Moves (t, b, e) (.closeNow e)
        ({ t.withBuffer e (OutBuffer.init (.ofPos e) t.controlBit).markFinal.finish with
          outRing := ring, endOfStream := true }, b, e + 1)
  | closeLater {t : Transmitter n} {b e : Int} : t.Open → e = b + 2 ^ n.val →
      Moves (t, b, e) .closeLater
        ({ t with hasPendingEof := true, endOfStream := true }, b, e)
  | lateEos {t : Transmitter n} {b e : Int} (ring : RingBuffer n) : t.hasPendingEof = true →
      e < b + 2 ^ n.val → ring.Spans b (e + 1) →
      Moves (t, b, e) (.lateEos e)
        ({ t.withBuffer e (OutBuffer.init (.ofPos e) t.controlBit).markFinal.finish with
          outRing := ring, hasPendingEof := false }, b, e + 1)
  | finish {t : Transmitter n} {b e p : Int} : b ≤ p → p < e →
      (t.bufferAt p).flushed = true → (t.bufferAt p).finished = false →
      Moves (t, b, e) (.finish p) (t.withBuffer p (t.bufferAt p).finish, b, e)
  | send {t : Transmitter n} {b e p : Int} (now : Uptime) (draw : Nat) (fast : Bool) :
      t.state = .connected → b ≤ p → p < e → (fast = false → SeqNum.ofPos p < t.recvHimark) →
      (fast = true → t.nextToSend = .ofPos p ∧ (t.bufferAt p).acked = false ∧
        (t.bufferAt p).flushed = true ∧ (t.bufferAt p).sendCounter = 0) →
      Moves (t, b, e) (.send p fast)
        ({ t.withBuffer p ((finishBuffer (t.bufferAt p)).markSent now draw) with
          nextToSend := .ofPos (p + 1), packetsSent := t.packetsSent + 1 }, b, e)
  | pop {t : Transmitter n} {b e : Int} (ring : RingBuffer n) : t.state = .connected → b < e →
      ring.Spans (b + 1) e →
      Moves (t, b, e) (.pop b)
        ({ t with outRing := ring, packetsDelivered := t.packetsDelivered + 1 }, b + 1, e)
  | skip {t : Transmitter n} {b e p : Int} : b ≤ p → p < e →
      Moves (t, b, e) (.skip p) (t.withBuffer p (t.bufferAt p).ack, b, e)
  | rush {t : Transmitter n} {b e p : Int} (next : SeqNum) : b ≤ p → p < e →
      (next = t.nextToSend ∨ next = .ofPos p) → Moves (t, b, e) (.rush p)
        ({ t.withBuffer p { t.bufferAt p with expiration := 0 } with nextToSend := next }, b, e)
  | himark {t : Transmitter n} {b e h : Int} : t.state = .connected →
      b - 2048 ≤ h → h < b + 2048 → ¬ SeqNum.ofPos h < t.recvHimark →
      ¬ (SeqNum.ofPos h).Gt (t.outRing.end_.add t.peerReceiveBufferSize) →
      Moves (t, b, e) (.himark h) ({ t with recvHimark := .ofPos h }, b, e)
  | reset {t : Transmitter n} {b e : Int} (ring : RingBuffer n) : ring.Spans e e →
      Moves (t, b, e) (.reset b e)
        ({ t with
          outRing := ring
          endOfStream := false
          myStreamId := 0
          state := .idle
          currentOutBuffer := none
          hasPendingEof := false }, e, e)
  | calm {t : Transmitter n} {b e : Int} : t.state = .broken →
      Moves (t, b, e) .calm ({ t with state := .idle }, b, e)
  | stray {t : Transmitter n} {b : Int} (p : Int) (x : OutBuffer) (next : SeqNum)
      (sent : BitVec 32) : t.outRing.contains t.nextToSend = true → t.nextToSend = .ofPos p →
      x.header = (t.bufferAt p).header → x.payload = (t.bufferAt p).payload → x.finished = true →
      Moves (t, b, b) .stray
        ({ t.withBuffer p x with nextToSend := next, packetsSent := sent }, b, b)

/-- Effects keep the account of the window's positions. -/
theorem Moves.spans {t t' : Transmitter n} {b e b' e' : Int} {eff : Effect}
    (h : Moves (t, b, e) eff (t', b', e')) (hs : t.outRing.Spans b e) : t'.outRing.Spans b' e' := by
  cases h with
  | alloc ring _ _ _ _ _ hr => exact hr
  | write => exact hs
  | release => exact hs
  | flush => exact hs
  | closeNow ring _ _ hr => exact hr
  | closeLater => exact hs
  | lateEos ring _ _ hr => exact hr
  | finish => exact hs
  | send => exact hs
  | pop ring _ _ hr => exact hr
  | skip => exact hs
  | rush => exact hs
  | himark => exact hs
  | reset ring hr => exact hr
  | calm => exact hs
  | stray => exact hs

/-- Every sequence of effects keeps the ring in step with the window. -/
theorem path_spans {t t' : Transmitter n} {b e b' e' : Int} {effs : List Effect}
    (h : Path Moves (t, b, e) effs (t', b', e')) (hs : t.outRing.Spans b e) :
    t'.outRing.Spans b' e' :=
  h.invariant (fun x ↦ x.1.outRing.Spans x.2.1 x.2.2) (fun _ _ _ _ hs hm ↦ hm.spans hs) hs

/-- No effect changes the control bit. -/
theorem path_controlBit {t t' : Transmitter n} {b e b' e' : Int} {effs : List Effect}
    (hp : Path Moves (t, b, e) effs (t', b', e')) : t'.controlBit = t.controlBit :=
  hp.invariant (fun x ↦ x.1.controlBit = t.controlBit)
    (fun _ _ _ _ hx hm ↦ by cases hm <;> exact hx) rfl

/-- No effect changes the size of the peer's buffer. -/
theorem path_peerReceiveBufferSize {t t' : Transmitter n} {b e b' e' : Int} {effs : List Effect}
    (hp : Path Moves (t, b, e) effs (t', b', e')) :
    t'.peerReceiveBufferSize = t.peerReceiveBufferSize :=
  hp.invariant (fun x ↦ x.1.peerReceiveBufferSize = t.peerReceiveBufferSize)
    (fun _ _ _ _ hx hm ↦ by cases hm <;> exact hx) rfl

/-- No effect connects a transmitter or breaks it; it may go idle. -/
theorem path_state {t t' : Transmitter n} {b e b' e' : Int} {effs : List Effect}
    (hp : Path Moves (t, b, e) effs (t', b', e')) : t'.state = t.state ∨ t'.state = .idle := by
  refine hp.invariant (fun x ↦ x.1.state = t.state ∨ x.1.state = .idle) ?_ (.inl rfl)
  rintro x eff x' - hx hm
  cases hm with
  | reset => exact .inr rfl
  | calm => exact .inr rfl
  | _ => exact hx

/-- Two transmitters in the same phase of one stream: they differ at most in what is queued
and what is noted about it. -/
structure SamePhase (t t' : Transmitter n) : Prop where
  myStreamId : t'.myStreamId = t.myStreamId
  state : t'.state = t.state
  endOfStream : t'.endOfStream = t.endOfStream
  recvHimark : t'.recvHimark = t.recvHimark
  hasPendingEof : t'.hasPendingEof = t.hasPendingEof
  peerReceiveBufferSize : t'.peerReceiveBufferSize = t.peerReceiveBufferSize
  controlBit : t'.controlBit = t.controlBit

/-- Nothing happened to the phase. -/
theorem SamePhase.refl (t : Transmitter n) : SamePhase t t := by
  constructor <;> rfl

/-- A transmitter and the same one with nothing but its packets touched. -/
structure SameStream (t t' : Transmitter n) : Prop extends SamePhase t t' where
  currentOutBuffer : t'.currentOutBuffer = t.currentOutBuffer
  outRing : t'.outRing = t.outRing

/-- Nothing happened to the stream. -/
theorem SameStream.refl (t : Transmitter n) : SameStream t t where
  toSamePhase := .refl t
  currentOutBuffer := rfl
  outRing := rfl

/-! ### Writing -/

end Transmitter

/-- The bytes an effect takes in. -/
def Effect.bytes : Effect → List UInt8
  | .write bytes => bytes
  | _ => []

/-- The effects of `tryWrite`. -/
def Effect.IsWrite : Effect → Prop
  | .alloc _ => True
  | .write _ => True
  | .release => True
  | _ => False

namespace Transmitter

/-- Providing a buffer to write to writes nothing yet. -/
theorem provideBuffer_path {t t' : Transmitter n} {b e : Int} {i : Fin (2 ^ n.val)}
    (hs : t.outRing.Spans b e) (ho : t.Open) (h : t.provideBuffer = .ok (some (i, t'))) :
    ∃ effs e', Path Moves (t, b, e) effs (t', b, e') ∧ t'.currentOutBuffer = some i ∧ t'.Open ∧
      effs.flatMap Effect.bytes = [] ∧ ∀ eff ∈ effs, eff.IsWrite := by
  unfold provideBuffer at h
  split at h
  · cases h
  next hge =>
  split at h
  · next j hc =>
    cases h
    exact ⟨[], e, .nil _, hc, ho, rfl, by simp⟩
  next hc =>
  split at h
  · cases h
  next hne =>
  split at h
  · cases h
  next hfree =>
  have hroom : e < b + 2 ^ n.val := by
    have := hs.slotsFree_eq
    omega
  obtain ⟨ring, hp, hr⟩ := hs.push_ok hroom
  rw [hp] at h
  simp only [offsetFor_ofPos] at h
  cases h
  exact ⟨[.alloc e], e + 1, .single (.alloc ring ho hc (not_not.mp hge) hne hroom hr), rfl, ho, rfl,
    by simp [Effect.IsWrite]⟩

/-- Filling a buffer writes as many bytes as it says. -/
theorem fill_move {t t' : Transmitter n} {b e : Int} {i : Fin (2 ^ n.val)}
    {buf : List UInt8} {written : Nat} {ready : Bool} (ho : t.Open)
    (hc : t.currentOutBuffer = some i) (hne : buf ≠ [])
    (h : t.fill i buf = .ok (t', written, ready)) :
    written ≤ buf.length ∧ t'.Open ∧ ∃ eff, Moves (t, b, e) eff (t', b, e) ∧
      eff.bytes = buf.take written ∧ eff.IsWrite := by
  unfold fill at h
  cases hw : (t.outBuffers i).write buf with
  | error c => rw [hw] at h; cases h
  | ok out =>
    obtain ⟨k, b'⟩ := out
    rw [hw] at h
    cases h
    rcases OutBuffer.write_cases hne hw with ⟨hf, rfl, rfl⟩ | ⟨hf, hpos, hle, hcap, rfl, hfin⟩
    · refine ⟨Nat.zero_le _, ho, .release, ?_, rfl, trivial⟩
      rw [Function.update_eq_self, if_pos hf]
      exact .release i hc hf
    · have hlen : (buf.take written).length = written := by
        rw [List.length_take]
        omega
      have hnil : buf.take written ≠ [] := List.ne_nil_of_length_pos (by omega)
      have hm := Moves.write (b := b) (e := e) i (buf.take written) ho hc hf hnil (by omega)
      refine ⟨hle, ho, .write (buf.take written), ?_, rfl, trivial⟩
      rw [hfin, hc]
      rw [hlen] at hm
      simpa only [decide_eq_true_eq] using hm

private theorem tryWriteLoop_path (fuel : Nat) : ∀ {t t' : Transmitter n} {b e : Int}
    {buf : List UInt8} {written : Nat} {ready : Bool}, t.outRing.Spans b e → t.Open → buf ≠ [] →
    tryWriteLoop fuel t buf = .ok (t', written, ready) →
    written ≤ buf.length ∧ ∃ effs e', Path Moves (t, b, e) effs (t', b, e') ∧
      effs.flatMap Effect.bytes = buf.take written ∧ ∀ eff ∈ effs, eff.IsWrite := by
  induction fuel with
  | zero =>
    intro t t' b e buf written ready hs ho hne h
    cases h
    exact ⟨Nat.zero_le _, [], e, .nil _, by simp, by simp⟩
  | succ fuel ih =>
    intro t t' b e buf written ready hs ho hne h
    rw [tryWriteLoop] at h
    cases hp : t.provideBuffer with
    | error c => rw [hp] at h; cases h
    | ok got =>
      rw [hp] at h
      rcases got with - | ⟨i, t1⟩
      · cases h
        exact ⟨Nat.zero_le _, [], e, .nil _, by simp, by simp⟩
      obtain ⟨effs1, e1, hpath1, hc1, ho1, hb1, hk1⟩ := provideBuffer_path hs ho hp
      dsimp only at h
      cases hf : t1.fill i buf with
      | error c => rw [hf] at h; cases h
      | ok out =>
        obtain ⟨t2, k, ready2⟩ := out
        rw [hf] at h
        obtain ⟨hle, ho2, eff, hm, hbytes, hkind⟩ := fill_move (b := b) (e := e1) ho1 hc1 hne hf
        have hpath2 := hpath1.append (.single hm)
        have hkinds : ∀ x ∈ effs1 ++ [eff], x.IsWrite :=
          List.forall_mem_append.mpr ⟨hk1, by simpa using hkind⟩
        dsimp only at h
        split at h
        · next hlt =>
          cases hl : tryWriteLoop fuel t2 (buf.drop k) with
          | error c => rw [hl] at h; cases h
          | ok out =>
            obtain ⟨t3, more, ready3⟩ := out
            rw [hl] at h
            cases h
            have hne' : buf.drop k ≠ [] :=
              List.ne_nil_of_length_pos (by rw [List.length_drop]; omega)
            obtain ⟨hle', effs3, e3, hpath3, hbytes3, hk3⟩ :=
              ih (path_spans hpath2 hs) ho2 hne' hl
            rw [List.length_drop] at hle'
            refine ⟨by omega, _, e3, hpath2.append hpath3, ?_,
              List.forall_mem_append.mpr ⟨hkinds, hk3⟩⟩
            rw [List.flatMap_append, List.flatMap_append, hb1, hbytes3]
            simp [hbytes, List.take_add]
        · cases h
          exact ⟨hle, _, e1, hpath2, by simp [hb1, hbytes], hkinds⟩

/-- `tryWrite` opens packets at the end of the window and fills them with what it takes. -/
theorem tryWrite_path {t t' : Transmitter n} {b e : Int} {buf : List UInt8} {written : Nat}
    {ready : Bool} (hs : t.outRing.Spans b e) (h : t.tryWrite buf = .ok (t', written, ready)) :
    written ≤ buf.length ∧ ∃ effs e', Path Moves (t, b, e) effs (t', b, e') ∧
      effs.flatMap Effect.bytes = buf.take written ∧ ∀ eff ∈ effs, eff.IsWrite := by
  have hnone : t' = t ∧ written = 0 → written ≤ buf.length ∧ ∃ effs e',
      Path Moves (t, b, e) effs (t', b, e') ∧ effs.flatMap Effect.bytes = buf.take written ∧
        ∀ eff ∈ effs, eff.IsWrite := by
    rintro ⟨rfl, rfl⟩
    exact ⟨Nat.zero_le _, [], e, .nil _, by simp, by simp⟩
  unfold tryWrite at h
  split at h
  · cases h; exact hnone ⟨rfl, rfl⟩
  next hlen =>
  split at h
  · cases h; exact hnone ⟨rfl, rfl⟩
  next heos =>
  split at h
  · cases h; exact hnone ⟨rfl, rfl⟩
  next hst =>
  rw [not_or] at hst
  have hne : buf ≠ [] := fun hnil ↦ hlen (by rw [hnil, List.length_nil])
  exact tryWriteLoop_path _ hs ⟨by simpa using heos, hst.1, hst.2⟩ hne h

/-- `tryWrite` stays in the phase of the stream. -/
theorem tryWrite_samePhase {t t' : Transmitter n} {buf : List UInt8} {written : Nat} {ready : Bool}
    (h : t.tryWrite buf = .ok (t', written, ready)) : SamePhase t t' := by
  obtain ⟨b, e, hs⟩ := t.outRing.exists_spans
  obtain ⟨-, effs, e', hpath, -, hk⟩ := tryWrite_path hs h
  refine hpath.invariant (fun x ↦ SamePhase t x.1) (fun x eff y heff hx hm ↦ ?_) (.refl t)
  have hwrite := hk eff heff
  cases hm with
  | alloc | write | release => exact { hx with }
  | _ => exact absurd hwrite (by simp [Effect.IsWrite])

/-! ### Flushing and closing -/

/-- A flush leaves the stream alone. -/
theorem flush_sameStream (t : Transmitter n) : SameStream t t.flush.1 := by
  unfold flush
  split
  · exact { SameStream.refl t with }
  · exact .refl t

/-- A flush is a sequence of flushes of single packets. -/
theorem flush_path (t : Transmitter n) (b e : Int) :
    ∃ effs, Path Moves (t, b, e) effs (t.flush.1, b, e) ∧ ∀ eff ∈ effs, eff = .flush := by
  unfold flush
  split
  · next i hc => exact ⟨[.flush], .single (.flush i hc), by simp⟩
  · exact ⟨[], .nil _, by simp⟩

private theorem addEosPacket_ok {t : Transmitter n} {b e : Int} (hs : t.outRing.Spans b e)
    (hroom : e < b + 2 ^ n.val) : ∃ ring, ring.Spans b (e + 1) ∧ t.addEosPacket = .ok
      { t.withBuffer e (OutBuffer.init (.ofPos e) t.controlBit).markFinal.finish with
        outRing := ring } := by
  obtain ⟨ring, hp, hr⟩ := hs.push_ok hroom
  refine ⟨ring, hr, ?_⟩
  rw [addEosPacket, hp]
  simp only [offsetFor_ofPos]
  rfl

end Transmitter

/-- The effects of `close`. -/
def Effect.IsClose : Effect → Prop
  | .flush => True
  | .closeNow _ => True
  | .closeLater => True
  | .calm => True
  | _ => False

/-- The effects by which `close` ends the stream. -/
def Effect.Ends : Effect → Prop
  | .closeNow _ => True
  | .closeLater => True
  | _ => False

/-- Closing writes no bytes. -/
theorem Effect.IsClose.bytes_eq {eff : Effect} (h : eff.IsClose) : eff.bytes = [] := by
  cases eff with
  | write => exact absurd h (by simp [IsClose])
  | _ => rfl

namespace Transmitter

/-- What `close` does to an open stream once it is flushed. -/
theorem close_move {t : Transmitter n} {b e : Int} (hs : t.outRing.Spans b e) (ho : t.Open) :
    ∃ t' eff e', t.close = .ok t' ∧ Moves (t.flush.1, b, e) eff (t', b, e') ∧ eff.IsClose ∧
      t'.endOfStream = true ∧ b < e' ∧ t'.state = t.state ∧ t'.myStreamId = t.myStreamId := by
  obtain ⟨effs, hpath, -⟩ := flush_path t b e
  have hs1 := path_spans hpath hs
  have hsame := flush_sameStream t
  have ho1 : t.flush.1.Open := by
    rw [Open, hsame.endOfStream, hsame.state]
    exact ho
  have hleave : ¬ (t.endOfStream = true ∨ t.state = .idle) := by
    rw [ho.1]
    simpa using ho.2.1
  have hfree := hs1.slotsFree_eq
  have hus := hs1.used
  have hle := hs1.le
  have hone := one_le_capacity n
  simp only [close, if_neg ho.2.2, if_neg hleave]
  split
  · next hfull =>
    exact ⟨_, _, e, rfl, .closeLater ho1 (by omega), trivial, rfl, by omega, hsame.state,
      hsame.myStreamId⟩
  · next hfull =>
    obtain ⟨ring, hr, hadd⟩ := addEosPacket_ok hs1 (by omega)
    rw [hadd]
    exact ⟨_, _, e + 1, rfl, .closeNow ring ho1 (by omega) hr, trivial, rfl, by omega, hsame.state,
      hsame.myStreamId⟩

private theorem close_open {t : Transmitter n} {b e : Int} (hs : t.outRing.Spans b e)
    (ho : t.Open) :
    ∃ t' effs e', t.close = .ok t' ∧ Path Moves (t, b, e) effs (t', b, e') ∧
      t'.endOfStream = true ∧ b < e' ∧ t'.state = t.state ∧ t'.myStreamId = t.myStreamId ∧
      ∀ eff ∈ effs, eff.IsClose := by
  obtain ⟨effs, hpath, hfl⟩ := flush_path t b e
  obtain ⟨t', eff, e', hc, hm, hclose, heos, hlt, hst, hid⟩ := close_move hs ho
  exact ⟨t', _, e', hc, hpath.append (.single hm), heos, hlt, hst, hid,
    List.forall_mem_append.mpr ⟨fun eff hx ↦ by rw [hfl eff hx]; trivial, by simpa using hclose⟩⟩

/-- `close` fails no check. On an open stream it flushes and queues the end of the stream;
on any other that is not broken it does nothing. -/
theorem close_path {t : Transmitter n} {b e : Int} (hs : t.outRing.Spans b e) :
    ∃ t' effs e', t.close = .ok t' ∧ Path Moves (t, b, e) effs (t', b, e') ∧
      (t.Open → t'.endOfStream = true ∧ b < e' ∧ t'.state = t.state ∧
        t'.myStreamId = t.myStreamId) ∧
      (¬ t.Open → t.state ≠ .broken → t' = t ∧ e' = e) ∧ ∀ eff ∈ effs, eff.IsClose := by
  by_cases hb : t.state = .broken
  · refine ⟨{ t with state := .idle }, [.calm], e, ?_, .single (.calm hb),
      fun ho ↦ absurd hb ho.2.2, fun _ hne ↦ absurd hb hne, by simp [Effect.IsClose]⟩
    simp [close, hb]
  by_cases hleave : t.endOfStream = true ∨ t.state = .idle
  · refine ⟨t, [], e, by simp only [close, if_neg hb, if_pos hleave], .nil _, fun ho ↦ ?_,
      fun _ _ ↦ ⟨rfl, rfl⟩, by simp⟩
    rcases hleave with he | hi
    · exact absurd (ho.1.symm.trans he) (by simp)
    · exact absurd hi ho.2.1
  · rw [not_or] at hleave
    have ho : t.Open := ⟨by simpa using hleave.1, hleave.2, hb⟩
    obtain ⟨t', effs, e', hc, hpath, heos, hlt, hst, hid, hk⟩ := close_open hs ho
    exact ⟨t', effs, e', hc, hpath, fun _ ↦ ⟨heos, hlt, hst, hid⟩, fun hno ↦ absurd ho hno, hk⟩

/-! ### Sending -/

/-- `transmitter.cpp:119–131`: the next packet in sequence counts as queued and is ready to be
sent for the first time. -/
def SendsNext (t : Transmitter n) : Prop :=
  t.outRing.contains t.nextToSend = true ∧ (t.getOutBuffer t.nextToSend).acked = false ∧
    (t.getOutBuffer t.nextToSend).flushed = true ∧
    (t.getOutBuffer t.nextToSend).sendCounter = 0

instance (t : Transmitter n) : Decidable t.SendsNext :=
  inferInstanceAs (Decidable (_ ∧ _ ∧ _ ∧ _))

/-- What `getBufferToSend` does: at most finish some packets, hand one of the window out, or
take a stray buffer while nothing is queued. -/
inductive Sending (t : Transmitter n) (b e : Int) : Transmitter n → Option SeqNum → Prop
  | idle {t' : Transmitter n} (effs : List Effect) : Path Moves (t, b, e) effs (t', b, e) →
      (∀ eff ∈ effs, ∃ p, eff = .finish p) → Sending t b e t' none
  | sent {t1 t' : Transmitter n} {p : Int} (effs : List Effect) (fast : Bool) :
      Path Moves (t, b, e) effs (t1, b, e) → (∀ eff ∈ effs, ∃ p, eff = .finish p) →
      Moves (t1, b, e) (.send p fast) (t', b, e) → b ≤ p → p < e → (fast = true → t1 = t) →
      Sending t b e t' (some (.ofPos p))
  | stray {t' : Transmitter n} {out : Option SeqNum} : b = e →
      t.outRing.contains t.nextToSend = true → Moves (t, b, e) .stray (t', b, e) →
      (∀ pos, out = some pos → pos = t.nextToSend ∧ t.state = .connected ∧ t.SendsNext) →
      Sending t b e t' out

/-- Handing a packet out changes its buffer and the next position to send. -/
theorem handOut_ofPos (t : Transmitter n) (p : Int) (x : OutBuffer) (now : Uptime)
    (draw : Nat) : t.handOut (.ofPos p) x now draw =
      { t.withBuffer p (x.markSent now draw) with
        nextToSend := .ofPos (p + 1), packetsSent := t.packetsSent + 1 } := by
  rw [handOut, setOutBuffer_ofPos, SeqNum.ofPos_next]

private theorem finish_path {t : Transmitter n} {b e p : Int} (hl : b ≤ p) (hu : p < e)
    (hf : (t.bufferAt p).flushed = true) :
    ∃ effs, Path Moves (t, b, e) effs (t.withBuffer p (finishBuffer (t.bufferAt p)), b, e) ∧
      ∀ eff ∈ effs, ∃ p, eff = .finish p := by
  unfold finishBuffer
  split
  · have hself : t.withBuffer p (t.bufferAt p) = t := by
      rw [withBuffer, bufferAt, Function.update_eq_self]
    rw [hself]
    exact ⟨[], .nil _, by simp⟩
  · next hfin => exact ⟨[.finish p], .single (.finish hl hu hf (by simpa using hfin)), by simp⟩

private theorem sendNext_path {t t' : Transmitter n} {b e : Int} {now : Uptime} {draw : Nat}
    {out : Option SeqNum} (hs : t.outRing.Spans b e) (hst : t.state = .connected)
    (h : t.sendNext now draw = (t', out)) : Sending t b e t' out := by
  unfold sendNext at h
  split at h
  case isFalse => cases h; exact .idle [] (.nil _) (by simp)
  next hc =>
  dsimp only at h
  split at h
  case isFalse => cases h; exact .idle [] (.nil _) (by simp)
  next hbuf =>
  by_cases hlt : b < e
  · obtain ⟨p, hp, hl, hu⟩ := hs.contains_pos hlt hc
    rw [hp, getOutBuffer_ofPos, finishBuffer_sendCounter, handOut_ofPos, setOutBuffer_ofPos] at h
    rw [hp, getOutBuffer_ofPos] at hbuf
    split at h
    · next hfirst =>
      cases h
      exact .sent [] true (.nil _) (by simp)
        (.send now draw true hst hl hu (by simp) fun _ ↦ ⟨hp, hbuf.1, hbuf.2, hfirst⟩) hl hu
        fun _ ↦ rfl
    · cases h
      obtain ⟨effs, hpath, hk⟩ := finish_path hl hu hbuf.2
      exact .idle effs hpath hk
  · obtain rfl : b = e := le_antisymm hs.le (not_lt.mp hlt)
    obtain ⟨p, hp, -, -⟩ := SeqNum.exists_ofPos_near t.nextToSend b
    rw [hp, getOutBuffer_ofPos, handOut_ofPos, setOutBuffer_ofPos] at h
    split at h
    · next hfirst =>
      cases h
      refine .stray rfl hc (.stray p _ _ _ hc hp (finishBuffer_header _) (finishBuffer_payload _)
        (finishBuffer_finished _)) fun pos hpos ↦ ⟨?_, hst, hc, hbuf.1, hbuf.2, ?_⟩
      · rw [hp]
        exact (Option.some.inj hpos).symm
      · rw [hp, getOutBuffer_ofPos]
        exact (finishBuffer_sendCounter _).symm.trans hfirst
    · cases h
      have hm := Moves.stray (b := b) p _ t.nextToSend t.packetsSent hc hp
        (finishBuffer_header (t.bufferAt p)) (finishBuffer_payload _) (finishBuffer_finished _)
      exact .stray rfl hc hm (by simp)

private theorem sendNext_state {t t' : Transmitter n} {now : Uptime} {draw : Nat}
    {out : Option SeqNum} (h : t.sendNext now draw = (t', out)) : t'.state = t.state := by
  unfold sendNext at h
  split at h
  case isFalse => cases h; rfl
  dsimp only at h
  split at h
  case isFalse => cases h; rfl
  split at h
  · cases h; rfl
  · cases h; rfl

private theorem scan_spec {t : Transmitter n} {b e : Int} (fuel : Nat) :
    ∀ (p : Int) (toSend : SeqNum) (time : Uptime), b ≤ p → p + fuel ≤ e →
      (t.scan fuel (.ofPos p) toSend time).1 = toSend ∨
      ∃ q, (t.scan fuel (.ofPos p) toSend time).1 = .ofPos q ∧ b ≤ q ∧ q < e ∧
        SeqNum.ofPos q < t.recvHimark := by
  induction fuel with
  | zero => exact fun p toSend time _ _ ↦ .inl rfl
  | succ fuel ih =>
    intro p toSend time hl hu
    have hnext := fun toSend time ↦ ih (p + 1) toSend time (by omega) (by omega)
    unfold scan
    rw [SeqNum.ofPos_next]
    split
    case isFalse => exact .inl rfl
    next hp =>
    have hhere : ∃ q, SeqNum.ofPos p = .ofPos q ∧ b ≤ q ∧ q < e ∧ SeqNum.ofPos q < t.recvHimark :=
      ⟨p, rfl, hl, by omega, hp.2⟩
    dsimp only
    split
    · exact hnext toSend time
    split
    · exact .inl rfl
    split
    · exact .inr hhere
    split
    · rcases hnext (.ofPos p) (t.getOutBuffer (.ofPos p)).expiration with heq | hq
      · rw [heq]
        exact .inr hhere
      · exact .inr hq
    · exact hnext toSend time

private theorem sendEarliest_path {t t' : Transmitter n} {b e : Int} {now : Uptime}
    {draw next next' : Nat} {out : Option SeqNum} (hs : t.outRing.Spans b e)
    (hst : t.state = .connected) (h : t.sendEarliest now draw next = (t', out, next')) :
    ∃ effs, Path Moves (t, b, e) effs (t', b, e) ∧
      (effs = [] ∧ out = none ∨
        ∃ p, effs = [.send p false] ∧ out = some (.ofPos p) ∧ b ≤ p ∧ p < e) := by
  have hidle : t' = t ∧ out = none → ∃ effs, Path Moves (t, b, e) effs (t', b, e) ∧
      (effs = [] ∧ out = none ∨
        ∃ p, effs = [.send p false] ∧ out = some (.ofPos p) ∧ b ≤ p ∧ p < e) := by
    rintro ⟨rfl, rfl⟩
    exact ⟨[], .nil _, .inl ⟨rfl, rfl⟩⟩
  have hus := hs.slotsUsed_eq
  have hscan := scan_spec (t := t) (e := e) t.outRing.slotsUsed b t.outRing.end_ uptimeMax
    (le_refl b) (by omega)
  rw [← hs.begin_eq] at hscan
  simp only [sendEarliest] at h
  split at h
  · next hc =>
    split at h
    · cases h; exact hidle ⟨rfl, rfl⟩
    rcases hscan with heq | ⟨q, heq, hl, hu, hhi⟩
    · have hcap := capacity_le n
      have hle := hs.le
      have hue := hs.used
      rw [heq, hs.end_eq, hs.contains_iff (by omega) (by omega)] at hc
      omega
    · rw [heq, getOutBuffer_ofPos, handOut_ofPos] at h
      cases h
      exact ⟨_, .single (.send now draw false hst hl hu (fun _ ↦ hhi) (by simp)),
        .inr ⟨q, rfl, rfl, hl, hu⟩⟩
  split at h
  · cases h; exact hidle ⟨rfl, rfl⟩
  next hlone =>
  split at h
  · cases h; exact hidle ⟨rfl, rfl⟩
  next hfin =>
  rw [not_or, not_not] at hlone
  have hhi : SeqNum.ofPos b < t.recvHimark := by
    rw [← hs.begin_eq]
    exact not_le.mp hlone.2
  rw [hs.begin_eq, getOutBuffer_ofPos, handOut_ofPos] at h
  rw [hs.begin_eq, getOutBuffer_ofPos] at hfin
  cases h
  have hm := Moves.send (t := t) (b := b) (e := e) (p := b) now draw false hst (le_refl b)
    (by omega) (fun _ ↦ hhi) (by simp)
  rw [finishBuffer, if_neg hfin] at hm
  exact ⟨_, .single hm, .inr ⟨b, rfl, rfl, le_refl b, by omega⟩⟩

private theorem sending_of_eq {t t' : Transmitter n} {b e : Int} {now : Uptime}
    {draw next next' : Nat} {out : Option SeqNum} (hs : t.outRing.Spans b e)
    (h : t.getBufferToSend now draw next = (t', out, next')) : Sending t b e t' out := by
  unfold getBufferToSend at h
  split at h
  · cases h
    exact .idle [] (.nil _) (by simp)
  next hst =>
  rw [not_not] at hst
  cases hn : t.sendNext now draw with
  | mk t1 out1 =>
    have h1 := sendNext_path hs hst hn
    rw [hn] at h
    cases out1 with
    | some pos =>
      cases h
      exact h1
    | none =>
      dsimp only at h
      have hst1 : t1.state = .connected := (sendNext_state hn).trans hst
      cases h1 with
      | idle effs hpath hk =>
        obtain ⟨effs', hpath', ⟨rfl, rfl⟩ | ⟨p, rfl, rfl, hl, hu⟩⟩ :=
          sendEarliest_path (path_spans hpath hs) hst1 h
        · cases hpath'
          exact .idle effs hpath hk
        · cases hpath' with
          | cons hm hnil =>
            cases hnil
            exact .sent effs false hpath hk hm hl hu (by simp)
      | stray hbe hc hm =>
        obtain ⟨effs', hpath', ⟨rfl, rfl⟩ | ⟨p, rfl, rfl, hl, hu⟩⟩ :=
          sendEarliest_path (hm.spans hs) hst1 h
        · cases hpath'
          exact .stray hbe hc hm (by simp)
        · omega

end Transmitter

/-- The effects that only note something at a packet of the window. -/
def Effect.IsMark : Effect → Prop
  | .finish _ => True
  | .skip _ => True
  | .rush _ => True
  | _ => False

namespace Transmitter

private theorem marks_sameStream {t t' : Transmitter n} {b e b' e' : Int} {effs : List Effect}
    (h : Path Moves (t, b, e) effs (t', b', e')) (hk : ∀ eff ∈ effs, eff.IsMark) :
    SameStream t t' := by
  refine h.invariant (fun x ↦ SameStream t x.1) (fun x eff y heff hx hm ↦ ?_) (.refl t)
  have hmark := hk eff heff
  cases hm with
  | finish | skip | rush => exact { hx with }
  | _ => exact absurd hmark (by simp [Effect.IsMark])

private theorem finish_sameStream {t t' : Transmitter n} {b e b' e' : Int} {effs : List Effect}
    (h : Path Moves (t, b, e) effs (t', b', e')) (hk : ∀ eff ∈ effs, ∃ p, eff = .finish p) :
    SameStream t t' := by
  refine marks_sameStream h fun eff heff ↦ ?_
  obtain ⟨p, rfl⟩ := hk eff heff
  trivial

/-- Sending leaves the stream alone. -/
theorem Sending.sameStream {t t' : Transmitter n} {b e : Int} {out : Option SeqNum}
    (h : Sending t b e t' out) : SameStream t t' := by
  cases h with
  | idle effs hpath hk => exact finish_sameStream hpath hk
  | sent effs fast hpath hk hm =>
    have hsame := finish_sameStream hpath hk
    cases hm
    exact { hsame with }
  | stray _ _ hm =>
    cases hm
    exact { SameStream.refl t with }

/-- Sending is a sequence of effects that write no bytes. -/
theorem Sending.path {t t' : Transmitter n} {b e : Int} {out : Option SeqNum}
    (h : Sending t b e t' out) :
    ∃ effs, Path Moves (t, b, e) effs (t', b, e) ∧ ∀ eff ∈ effs, eff.bytes = [] := by
  have hfinish {effs : List Effect} (hk : ∀ eff ∈ effs, ∃ p, eff = .finish p) :
      ∀ eff ∈ effs, eff.bytes = [] := by
    intro eff heff
    obtain ⟨p, rfl⟩ := hk eff heff
    rfl
  cases h with
  | idle effs hpath hk => exact ⟨effs, hpath, hfinish hk⟩
  | sent effs fast hpath hk hm =>
    exact ⟨_, hpath.append (.single hm),
      List.forall_mem_append.mpr ⟨hfinish hk, by simp [Effect.bytes]⟩⟩
  | stray _ _ hm => exact ⟨_, .single hm, by simp [Effect.bytes]⟩

/-- `getBufferToSend` hands out packets of the window, except for the stray case. -/
theorem getBufferToSend_path {t : Transmitter n} {b e : Int} (hs : t.outRing.Spans b e)
    (now : Uptime) (draw next : Nat) :
    Sending t b e (t.getBufferToSend now draw next).1 (t.getBufferToSend now draw next).2.1 := by
  cases h : t.getBufferToSend now draw next with
  | mk t' rest => exact sending_of_eq hs h

/-- Sending changes the transmitter as getting the buffer does. -/
theorem send_fst (t : Transmitter n) (now : Uptime) (draw next : Nat) :
    (t.send now draw next).1 = (t.getBufferToSend now draw next).1 := by
  unfold send
  rcases t.getBufferToSend now draw next with ⟨t', - | pos, next'⟩
  · rfl
  · rfl

end Transmitter

/-! ### Acknowledgements -/

/-- The effects of an acknowledgement of everything below `q`, with the skipped positions in
`bits` counted from the one after `first`. -/
def Effect.AckedBy (q first : Int) (bits : List Bool) : Effect → Prop
  | .pop p => p < q
  | .lateEos _ => True
  | .reset b e => b = e
  | .skip p => ∃ j : Nat, bits[j]? = some true ∧ SeqNum.ofPos p = .ofPos (first + 1 + j)
  | .rush _ => True
  | _ => False

/-- An acknowledgement writes no bytes. -/
theorem Effect.AckedBy.bytes_eq {q first : Int} {bits : List Bool} {eff : Effect}
    (h : eff.AckedBy q first bits) : eff.bytes = [] := by
  cases eff with
  | write => exact absurd h (by simp [AckedBy])
  | _ => rfl

namespace Transmitter

private theorem popAcked_step (bits : List Bool) (first : Int) (fuel : Nat) {t : Transmitter n}
    {b e q : Int} (hs : t.outRing.Spans b e) (hst : t.state = .connected) (hl : b < q)
    (hu : q ≤ e) : ∃ t' effs e', popAcked (fuel + 1) t (.ofPos q) = popAcked fuel t' (.ofPos q) ∧
      Path Moves (t, b, e) effs (t', b + 1, e') ∧ e ≤ e' ∧
      (t.hasPendingEof = true → e < e') ∧ t'.state = .connected ∧
      t'.endOfStream = t.endOfStream ∧ ∀ eff ∈ effs, eff.AckedBy q first bits := by
  have hcap := capacity_le n
  have hus := hs.used
  have hgo : t.outRing.begin_ < SeqNum.ofPos q ∧ t.outRing.empty = false := by
    rw [hs.begin_eq, SeqNum.ofPos_lt (by omega) (by omega)]
    exact ⟨hl, hs.empty_eq_false.mpr (by omega)⟩
  obtain ⟨ring, hp, hr⟩ := hs.pop_ok (by omega)
  have hpop := Moves.pop (t := t) ring hst (show b < e by omega) hr
  rw [popAcked, if_pos hgo, hp]
  dsimp only
  split
  · next heof =>
    obtain ⟨ring', hr', hadd⟩ := addEosPacket_ok (hpop.spans hs) (by omega)
    rw [hadd]
    exact ⟨_, _, e + 1, rfl, .cons hpop (.single (.lateEos ring' heof (by omega) hr')), by omega,
      fun _ ↦ by omega, hst, rfl, by simp [Effect.AckedBy, hl]⟩
  · next heof =>
    exact ⟨_, _, e, rfl, .single hpop, le_refl e, fun h ↦ absurd h heof, hst, rfl,
      by simp [Effect.AckedBy, hl]⟩

/-- The loop that drops acknowledged packets, as effects. -/
theorem popAcked_path (bits : List Bool) (first : Int) (fuel : Nat) :
    ∀ {t : Transmitter n} {b e q : Int}, t.outRing.Spans b e → t.state = .connected →
    b - 4096 ≤ q → q ≤ e → q - b ≤ fuel →
    ∃ t' effs e', popAcked fuel t (.ofPos q) = .ok t' ∧
      Path Moves (t, b, e) effs (t', max b q, e') ∧ e ≤ e' ∧
      (t.hasPendingEof = true → b < q → e < e') ∧ t'.state = .connected ∧
      t'.endOfStream = t.endOfStream ∧ ∀ eff ∈ effs, eff.AckedBy q first bits := by
  induction fuel with
  | zero =>
    intro t b e q hs hst hl hu hf
    have hmax : max b q = b := by omega
    exact ⟨t, [], e, rfl, by rw [hmax]; exact .nil _, le_refl e, fun _ hq ↦ by omega, hst, rfl,
      by simp⟩
  | succ fuel ih =>
    intro t b e q hs hst hl hu hf
    by_cases hq : b < q
    · obtain ⟨t1, effs1, e1, hstep, hpath1, he1, hlate, hst1, heos1, hk1⟩ :=
        popAcked_step bits first fuel hs hst hq hu
      obtain ⟨t', effs, e', hgo, hpath, he', -, hst', heos, hk⟩ := ih (path_spans hpath1 hs) hst1
        (q := q) (by omega) (by omega) (by omega)
      have hmax : max (b + 1) q = max b q := by omega
      rw [hmax] at hpath
      exact ⟨t', _, e', hstep.trans hgo, hpath1.append hpath, he1.trans he',
        fun hp _ ↦ (hlate hp).trans_le he', hst', heos.trans heos1,
        List.forall_mem_append.mpr ⟨hk1, hk⟩⟩
    · have hmax : max b q = b := by omega
      refine ⟨t, [], e, ?_, by rw [hmax]; exact .nil _, le_refl e, fun _ h ↦ absurd h hq, hst, rfl,
        by simp⟩
      rw [popAcked, if_neg]
      rw [hs.begin_eq, SeqNum.ofPos_lt (by omega) (by omega)]
      exact fun h ↦ hq h.1

private theorem markAcked_path (q first : Int) (bits : List Bool) :
    ∀ {t : Transmitter n} {b e : Int} (done : List Bool) (last : SeqNum), t.outRing.Spans b e →
    b < e → ∃ effs, Path Moves (t, b, e) effs
        ((markAcked bits t (.ofPos (first + 1 + done.length)) last).1, b, e) ∧
      ((markAcked bits t (.ofPos (first + 1 + done.length)) last).2 = last ∨
        t.outRing.contains
          (markAcked bits t (.ofPos (first + 1 + done.length)) last).2 = true) ∧
      ∀ eff ∈ effs, eff.AckedBy q first (done ++ bits) ∧ eff.IsMark := by
  induction bits with
  | nil => exact fun done last hs hlt ↦ ⟨[], .nil _, .inl rfl, by simp⟩
  | cons bit bits ih =>
    intro t b e done last hs hlt
    have hnext : (SeqNum.ofPos (first + 1 + done.length)).next =
        .ofPos (first + 1 + (done ++ [bit]).length) := by
      rw [SeqNum.ofPos_next, List.length_append, List.length_singleton]
      push_cast
      rw [Int.add_assoc]
    unfold markAcked
    rw [hnext]
    split
    · next hc =>
      obtain ⟨p, hp, hl, hu⟩ := hs.contains_pos hlt hc.1
      rw [hp, getOutBuffer_ofPos, setOutBuffer_ofPos]
      have hm := Moves.skip (t := t) hl hu
      obtain ⟨effs, hpath, hlast, hk⟩ := ih (done ++ [bit]) (.ofPos p) (hm.spans hs) hlt
      refine ⟨.skip p :: effs, .cons hm hpath, .inr ?_, ?_⟩
      · rcases hlast with heq | hin
        · rw [heq, ← hp]
          exact hc.1
        · exact hin
      · rw [List.append_assoc, List.singleton_append] at hk
        rw [List.forall_mem_cons]
        exact ⟨⟨⟨done.length, by simp [hc.2], hp.symm⟩, trivial⟩, hk⟩
    · obtain ⟨effs, hpath, hlast, hk⟩ := ih (done ++ [bit]) last hs hlt
      rw [List.append_assoc, List.singleton_append] at hk
      exact ⟨effs, hpath, hlast, hk⟩

private theorem rushLoop_path (fuel : Nat) : ∀ {t : Transmitter n} {b e p q : Int} (updated : Bool),
    t.outRing.Spans b e → b ≤ p → p ≤ q → q < e → q - p ≤ fuel →
    ∃ t' flag effs, rushLoop fuel t (.ofPos p) (.ofPos q) updated = .ok (t', flag) ∧
      Path Moves (t, b, e) effs (t', b, e) ∧ ∀ eff ∈ effs, ∃ p, eff = .rush p := by
  induction fuel with
  | zero => exact fun updated hs hb hp hq hf ↦ ⟨_, _, [], rfl, .nil _, by simp⟩
  | succ fuel ih =>
    intro t b e p q updated hs hb hp hq hf
    have hcap := capacity_le n
    have hus := hs.used
    unfold rushLoop
    split
    · exact ⟨_, _, [], rfl, .nil _, by simp⟩
    next hne =>
    rw [SeqNum.ofPos_eq (by omega) (by omega)] at hne
    simp only [getOutBuffer_ofPos, SeqNum.ofPos_next]
    split
    · next honce =>
      have hrush : (t.bufferAt p).rush = .ok { t.bufferAt p with expiration := 0 } := by
        rw [OutBuffer.rush, if_pos (by omega)]
      rw [hrush]
      dsimp only
      rw [setOutBuffer_ofPos]
      have hm : Moves (t, b, e) (.rush p)
          (if updated then t.withBuffer p { t.bufferAt p with expiration := 0 }
            else { t.withBuffer p { t.bufferAt p with expiration := 0 } with
              nextToSend := .ofPos p }, b, e) := by
        split
        · exact .rush t.nextToSend hb (by omega) (.inl rfl)
        · exact .rush (.ofPos p) hb (by omega) (.inr rfl)
      obtain ⟨t', flag, effs, hgo, hpath, hk⟩ := ih (p := p + 1) true (hm.spans hs) (by omega)
        (by omega) hq (by omega)
      exact ⟨t', flag, .rush p :: effs, hgo, .cons hm hpath,
        List.forall_mem_cons.mpr ⟨⟨p, rfl⟩, hk⟩⟩
    · exact ih (p := p + 1) updated hs (by omega) (by omega) hq (by omega)

/-- How an acknowledgement that is not ignored leaves the stream: still connected, with
something queued if it is closed, or over, with everything dropped as delivered. -/
def AckEnds (t : Transmitter n) (b e : Int) (t' : Transmitter n) (b' e' : Int) : Prop :=
  (t'.state = .connected ∧ t'.endOfStream = t.endOfStream ∧
    (b' = e' → t.endOfStream = false)) ∨
  (t'.state = .idle ∧ t.endOfStream = true ∧ b' = e ∧ e' = e ∧
    (b < e → t.hasPendingEof = false))

/-- What an acknowledgement does: nothing, or drop what is below its restored position and
mark what its bitmap names, counted from the front that then results. -/
inductive Acking (t : Transmitter n) (b e : Int) (controlBit : Bool) (seqId : BitVec 16)
    (bits : List Bool) : Transmitter n → Prop
  | ignored : Acking t b e controlBit seqId bits t
  | applied {t' : Transmitter n} {q e' : Int} (effs : List Effect) : t.state = .connected →
      controlBit ≠ t.controlBit → t.outRing.restorePosHighBits seqId 12 = .ofPos q →
      b - 2048 ≤ q → q < b + 2048 → q ≤ e → Path Moves (t, b, e) effs (t', max b q, e') →
      (∀ eff ∈ effs, eff.AckedBy q (max b q) bits) → AckEnds t b e t' (max b q) e' →
      Acking t b e controlBit seqId bits t'

/-- A reset drops the window and never fails. -/
theorem reset_ok {t : Transmitter n} {b e : Int} (hs : t.outRing.Spans b e) :
    ∃ t', t.reset = .ok t' ∧ Moves (t, b, e) (.reset b e) (t', e, e) := by
  refine ⟨_, ?_, .reset (RingBuffer.new n (.ofPos e)) (spans_new n e)⟩
  rw [reset, hs.popAll_ok]

/-- Marking packets and rushing the others, as effects. -/
theorem markAndRush_path {t : Transmitter n} {b e : Int} (q : Int) (bits : List Bool)
    (hs : t.outRing.Spans b e) (hlt : b < e) :
    let marked := markAcked bits t (t.outRing.begin_.add 1) (t.outRing.begin_.add (-1))
    ∃ t' rushed effs, (if marked.1.outRing.contains marked.2 then
        rushLoop marked.1.outRing.slotsUsed marked.1 marked.1.outRing.begin_ marked.2 false
      else .ok (marked.1, false)) = .ok (t', rushed) ∧ Path Moves (t, b, e) effs (t', b, e) ∧
      ∀ eff ∈ effs, eff.AckedBy q b bits ∧ eff.IsMark := by
  intro marked
  obtain ⟨effs, hpath, hlast, hk⟩ := markAcked_path q b bits [] (t.outRing.begin_.add (-1)) hs hlt
  have hstart : t.outRing.begin_.add 1 = .ofPos (b + 1 + ([] : List Bool).length) := by
    rw [hs.begin_eq, SeqNum.ofPos_add]
    simp
  rw [← hstart] at hpath
  have hs1 : marked.1.outRing.Spans b e := path_spans hpath hs
  split
  · next hc =>
    obtain ⟨p, hp, hl, hu⟩ := hs1.contains_pos hlt hc
    have hus := hs1.slotsUsed_eq
    rw [hp, hs1.begin_eq]
    obtain ⟨t', flag, effs', hgo, hpath', hk'⟩ := rushLoop_path marked.1.outRing.slotsUsed false hs1
      (le_refl b) hl hu (by omega)
    refine ⟨t', flag, _, hgo, hpath.append hpath', List.forall_mem_append.mpr ⟨hk, ?_⟩⟩
    intro eff heff
    obtain ⟨p, rfl⟩ := hk' eff heff
    exact ⟨trivial, trivial⟩
  · exact ⟨_, _, effs, rfl, hpath, hk⟩

/-- An acknowledgement that is not ignored. -/
theorem ack_applied {t : Transmitter n} {b e q : Int} (hs : t.outRing.Spans b e)
    {controlBit : Bool} {seqId : BitVec 16} (hst : t.state = .connected)
    (hbit : controlBit ≠ t.controlBit) (hq : t.outRing.restorePosHighBits seqId 12 = .ofPos q)
    (hl : b - 2048 ≤ q) (hle : q ≤ e) (bitmap : List UInt8) :
    ∃ t' rushed effs e', t.ack controlBit seqId bitmap = .ok (t', rushed) ∧
      Path Moves (t, b, e) effs (t', max b q, e') ∧
      (∀ eff ∈ effs, eff.AckedBy q (max b q) (bitmap.flatMap bitsMsb)) ∧
      AckEnds t b e t' (max b q) e' := by
  have hcap := capacity_le n
  have hus := hs.used
  have hbe := hs.le
  have hused := hs.slotsUsed_eq
  have hgt : ¬ (SeqNum.ofPos q).Gt t.outRing.end_ := by
    rw [hs.end_eq, SeqNum.ofPos_gt (by omega) (by omega), not_lt]
    exact hle
  obtain ⟨t1, effs1, e1, hpop, hpath1, he1, hlate, hst1, heos1, hk1⟩ :=
    popAcked_path (bitmap.flatMap bitsMsb) (max b q) t.outRing.slotsUsed hs hst (by omega) hle
      (by omega)
  have hs1 := path_spans hpath1 hs
  rw [ack, if_neg (not_not.mpr hst), if_neg hbit]
  dsimp only
  rw [hq, if_neg hgt, hpop]
  dsimp only
  split
  · next hempty =>
    rw [hs1.empty_iff] at hempty
    split
    · next heos =>
      rw [heos1] at heos
      obtain ⟨t', hreset, hm⟩ := reset_ok hs1
      have hst' : t'.state = .idle := by cases hm; rfl
      obtain rfl : e1 = e := by omega
      have hover : Moves (t1, max b q, e1) (.reset (max b q) e1) (t', max b q, e1) := by
        rw [hempty] at hm ⊢
        exact hm
      rw [hreset]
      refine ⟨t', false, _, _, rfl, hpath1.append (.single hover),
        List.forall_mem_append.mpr ⟨hk1, by simpa [Effect.AckedBy] using hempty⟩,
        .inr ⟨hst', heos, hempty, rfl, fun hlt ↦ ?_⟩⟩
      rw [Bool.eq_false_iff]
      intro hpend
      have := hlate hpend (by omega)
      omega
    · next heos =>
      rw [heos1] at heos
      exact ⟨t1, false, _, _, rfl, hpath1, hk1, .inl ⟨hst1, heos1, fun _ ↦ by simpa using heos⟩⟩
  · next hne =>
    have hlt := hs1.empty_eq_false.mp (by simpa using hne)
    obtain ⟨t', rushed, effs, hgo, hpath, hk⟩ :=
      markAndRush_path q (bitmap.flatMap bitsMsb) hs1 hlt
    have hsame := marks_sameStream hpath fun eff heff ↦ (hk eff heff).2
    exact ⟨t', rushed, _, _, hgo, hpath1.append hpath,
      List.forall_mem_append.mpr ⟨hk1, fun eff heff ↦ (hk eff heff).1⟩,
      .inl ⟨hsame.state.trans hst1, hsame.endOfStream.trans heos1, fun heq ↦ by omega⟩⟩

/-- `ack` fails no check. -/
theorem ack_path {t : Transmitter n} {b e : Int} (hs : t.outRing.Spans b e) (controlBit : Bool)
    (seqId : BitVec 16) (bitmap : List UInt8) :
    ∃ t' rushed, t.ack controlBit seqId bitmap = .ok (t', rushed) ∧
      Acking t b e controlBit seqId (bitmap.flatMap bitsMsb) t' := by
  obtain ⟨q, hq, hl, hu⟩ := hs.restore_near seqId
  have hcap := capacity_le n
  have hus := hs.used
  have hle := hs.le
  by_cases hst : t.state = .connected
  swap
  · exact ⟨t, false, by rw [ack, if_pos hst], .ignored⟩
  by_cases hbit : controlBit = t.controlBit
  · exact ⟨t, false, by rw [ack, if_neg (not_not.mpr hst), if_pos hbit], .ignored⟩
  by_cases hgt : (SeqNum.ofPos q).Gt t.outRing.end_
  · refine ⟨t, false, ?_, .ignored⟩
    rw [ack, if_neg (not_not.mpr hst), if_neg hbit]
    dsimp only
    rw [hq, if_pos hgt]
  rw [hs.end_eq, SeqNum.ofPos_gt (by omega) (by omega), not_lt] at hgt
  obtain ⟨t', rushed, effs, e', hok, hpath, hk, hends⟩ :=
    ack_applied hs hst hbit hq hl hgt bitmap
  exact ⟨t', rushed, hok, .applied effs hst hbit hq hl hu hgt hpath hk hends⟩

/-- Without a pending end of stream, an acknowledgement queues nothing. -/
theorem acked_end {t t' : Transmitter n} {b e b' e' q first : Int} {bits : List Bool}
    {effs : List Effect} (hp : Path Moves (t, b, e) effs (t', b', e'))
    (hk : ∀ eff ∈ effs, eff.AckedBy q first bits) (hpend : t.hasPendingEof = false) : e' = e := by
  suffices t'.hasPendingEof = false ∧ e' = e from this.2
  refine hp.invariant (fun x ↦ x.1.hasPendingEof = false ∧ x.2.2 = e) ?_ ⟨hpend, rfl⟩
  rintro x eff y heff ⟨hx, he⟩ hm
  have hacked := hk eff heff
  cases hm with
  | pop | skip | rush => exact ⟨hx, he⟩
  | reset => exact ⟨rfl, he⟩
  | lateEos ring hlate => exact absurd (hx.symm.trans hlate) (by simp)
  | _ => exact absurd hacked (by simp [Effect.AckedBy])

/-- An acknowledgement of all that is queued on a closed stream ends the stream. -/
theorem ack_over {t : Transmitter n} {controlBit : Bool} {seqId : BitVec 16}
    (hst : t.state = .connected) (hbit : controlBit ≠ t.controlBit) (heos : t.endOfStream = true)
    (hgt : ¬ (t.outRing.restorePosHighBits seqId 12).Gt t.outRing.end_)
    (hall : t.outRing.empty = true ∨
      t.hasPendingEof = false ∧ t.outRing.restorePosHighBits seqId 12 = t.outRing.end_)
    (bitmap : List UInt8) :
    ∃ t', t.ack controlBit seqId bitmap = .ok (t', false) ∧ t'.state = .idle := by
  obtain ⟨b, e, hs⟩ := t.outRing.exists_spans
  have hused := hs.slotsUsed_eq
  have hpopped : ∃ t1 p, popAcked t.outRing.slotsUsed t (t.outRing.restorePosHighBits seqId 12) =
      .ok t1 ∧ t1.outRing.Spans p p ∧ t1.endOfStream = true := by
    by_cases hlt : b < e
    · obtain ⟨hpend, hend⟩ := hall.resolve_left (by simp [hs.empty_eq_false.mpr hlt])
      have hus := hs.used
      have hcap := capacity_le n
      rw [hend, hs.end_eq]
      obtain ⟨t1, effs, e1, hpop, hpath, -, -, -, heos1, hk⟩ :=
        popAcked_path [] (max b e) t.outRing.slotsUsed hs hst (by omega) (le_refl e) (by omega)
      obtain rfl := acked_end hpath hk hpend
      have hs1 := path_spans hpath hs
      rw [max_eq_right hlt.le] at hs1
      exact ⟨t1, e1, hpop, hs1, heos1.trans heos⟩
    · have hle := hs.le
      obtain rfl : b = e := by omega
      have hzero : t.outRing.slotsUsed = 0 := by omega
      rw [hzero]
      exact ⟨t, b, rfl, hs, heos⟩
  obtain ⟨t1, p, hpop, hs1, heos1⟩ := hpopped
  obtain ⟨t', hreset, hm⟩ := reset_ok hs1
  rw [ack, if_neg (not_not.mpr hst), if_neg hbit]
  dsimp only
  rw [if_neg hgt, hpop]
  dsimp only
  rw [if_pos (hs1.empty_iff.mpr rfl), if_pos heos1, hreset]
  exact ⟨t', rfl, by cases hm; rfl⟩

/-- A flow-control update either moves the credit to the restored position or does nothing. -/
theorem updateRecvHimark_path {t : Transmitter n} {b e : Int} (hs : t.outRing.Spans b e)
    (controlBit : Bool) (recvHimark : BitVec 16) :
    (t.updateRecvHimark controlBit recvHimark).1 = t ∨
      ∃ p, t.outRing.restorePosHighBits recvHimark 12 = .ofPos p ∧ controlBit ≠ t.controlBit ∧
        Moves (t, b, e) (.himark p) ((t.updateRecvHimark controlBit recvHimark).1, b, e) := by
  obtain ⟨p, hp, hl, hu⟩ := hs.restore_near recvHimark
  unfold updateRecvHimark
  split
  · exact .inl rfl
  next hst =>
  split
  · exact .inl rfl
  next hbit =>
  dsimp only
  rw [hp]
  split
  · exact .inl rfl
  next hmark =>
  rw [not_or] at hmark
  exact .inr ⟨p, rfl, fun heq ↦ hbit heq.symm, .himark (not_not.mp hst) hl hu hmark.1 hmark.2⟩

/-! ### Starting and breaking a stream -/

/-- A stream is begun without fail. -/
theorem init_ok (t : Transmitter n) (myStreamId : UInt32) (start : SeqNum) :
    t.init myStreamId start = .ok { t with
      myStreamId := myStreamId
      state := .connecting
      endOfStream := false
      outRing := RingBuffer.new n start
      recvHimark := start
      nextToSend := start
      currentOutBuffer := none
      hasPendingEof := false } := by
  obtain ⟨b, e, hs⟩ := t.outRing.exists_spans
  rw [init, hs.popAll_ok]
  dsimp only
  rw [(spans_new n e).reset_ok]
  rfl

/-- A stream is broken without fail. -/
theorem setBroken_ok {t : Transmitter n} {b e : Int} (hs : t.outRing.Spans b e) :
    t.setBroken = .ok { t with outRing := RingBuffer.new n (.ofPos e), state := .broken } := by
  rw [setBroken, hs.popAll_ok]

end Transmitter

end RooTransport.Link
