import RooTransport.Link.TransmitterChecks
import RooTransport.Link.TransmitterOrder

/-!
# Nothing that is due is skipped

`getBufferToSend` looks for a packet to send in the order of positions, and stops at the first that
is not flushed (`transmitter.cpp:138–159`). That skips nothing, because such a packet is the last
of the window, and because the packets below `recv_himark_` are the first ones of it. When it
returns nothing, `next_send_micros` is not past any retransmission.
-/

namespace RooTransport.Link

open RooTransport.Base RingBuffer

private theorem Effect.Ends.quiet {eff : Effect} (h : eff.Ends) : eff.Quiet := by
  cases eff with
  | closeNow | closeLater => trivial
  | _ => exact h.elim

/-- Writing does not end the stream. -/
theorem Effect.IsWrite.not_ends {eff : Effect} (h : eff.IsWrite) : ¬ eff.Ends := by
  cases eff with
  | alloc | write | release => exact id
  | _ => exact h.elim

namespace OutBuffer

variable {x : OutBuffer} {bytes : List UInt8}

private theorem flushed_extended (h : x.flushed = true) : (x.extended bytes).flushed = true := by
  unfold extended
  split
  · rfl
  · exact h

private theorem flushed_of_extended (hopen : x.finished = false)
    (h : (x.extended bytes).finished = true) : (x.extended bytes).flushed = true := by
  unfold extended at h ⊢
  split
  · rfl
  · next hnot =>
    rw [if_neg hnot] at h
    exact absurd (hopen.symm.trans h) (by decide)

end OutBuffer

namespace Transmitter

variable {n : LinkBufferSize}

/-! ### Flushed packets -/

private theorem finishBuffer_flushed {x : OutBuffer} (h : x.finished = true → x.flushed = true) :
    (finishBuffer x).flushed = true := by
  unfold finishBuffer
  split
  · next hfin => exact h hfin
  · rfl

/-- Every packet of the window is flushed. -/
def AllFlushed (t : Transmitter n) (b e : Int) : Prop :=
  ∀ p, b ≤ p → p < e → (t.bufferAt p).flushed = true

/-- Only the last packet of the window may be open, as the current one, and none is after the
stream was closed. -/
structure Flagged (t : Transmitter n) (b e : Int) : Prop where
  finished : ∀ p, b ≤ p → p < e → (t.bufferAt p).finished = true → (t.bufferAt p).flushed = true
  open_last : ∀ p, b ≤ p → p < e → (t.bufferAt p).flushed = false →
    p + 1 = e ∧ t.currentOutBuffer = some (slotAt n p)
  closed : t.endOfStream = true → t.AllFlushed b e

section

variable {t t' : Transmitter n} {b e b' e' : Int}

/-- An empty window has no open packet. -/
theorem flagged_empty (t : Transmitter n) (b : Int) : t.Flagged b b :=
  ⟨fun p hl hu ↦ by omega, fun p hl hu ↦ by omega, fun _ p hl hu ↦ by omega⟩

private theorem Flagged.congr (h : t.Flagged b e)
    (hfl : ∀ i, (t.outBuffers i).flushed = true → (t'.outBuffers i).flushed = true)
    (hfin : ∀ i, ((t.outBuffers i).finished = true → (t.outBuffers i).flushed = true) →
      (t'.outBuffers i).finished = true → (t'.outBuffers i).flushed = true)
    (hcur : ∀ p, b ≤ p → p < e → (t'.bufferAt p).flushed = false →
      t.currentOutBuffer = some (slotAt n p) → t'.currentOutBuffer = some (slotAt n p))
    (heos : t'.endOfStream = true → t.AllFlushed b e) : t'.Flagged b e := by
  refine ⟨fun p hl hu ↦ hfin _ (h.finished p hl hu), fun p hl hu hopen ↦ ?_,
    fun hend p hl hu ↦ hfl _ (heos hend p hl hu)⟩
  have hbefore : (t.bufferAt p).flushed = false := by
    by_contra hflushed
    rw [Bool.not_eq_false] at hflushed
    exact absurd (hopen.symm.trans (hfl _ hflushed)) (by decide)
  obtain ⟨hlast, hcurrent⟩ := h.open_last p hl hu hbefore
  exact ⟨hlast, hcur p hl hu hopen hcurrent⟩

/-- One slot is replaced. -/
theorem Flagged.update {i : Fin (2 ^ n.val)} {x : OutBuffer} (h : t.Flagged b e)
    (hbuf : t'.outBuffers = Function.update t.outBuffers i x)
    (hcur : t'.currentOutBuffer = t.currentOutBuffer) (heos : t'.endOfStream = t.endOfStream)
    (hfl : (t.outBuffers i).flushed = true → x.flushed = true)
    (hfin : ((t.outBuffers i).finished = true → (t.outBuffers i).flushed = true) →
      x.finished = true → x.flushed = true) : t'.Flagged b e := by
  refine h.congr (fun j hj ↦ ?_) (fun j hj ↦ ?_) (fun p _ _ _ hp ↦ hcur.trans hp)
    fun hend ↦ h.closed (heos ▸ hend)
  · rw [hbuf]
    exact holds_update (P := fun y ↦ y.flushed = true) hfl hj
  · rw [hbuf]
    exact holds_update (P := fun y ↦ y.finished = true → y.flushed = true) hfin hj

/-- A packet is put behind packets that are all flushed. -/
theorem Flagged.push {x : OutBuffer} (h : t.Flagged b e) (hall : t.AllFlushed b e)
    (hroom : e < b + 2 ^ n.val) (hbuf : t'.outBuffers = (t.withBuffer e x).outBuffers)
    (hx : x.flushed = true ∨ x.finished = false ∧ t'.currentOutBuffer = some (slotAt n e) ∧
      t'.endOfStream = false) : t'.Flagged b (e + 1) := by
  refine ⟨fun p hl hu hfin ↦ ?_, fun p hl hu hopen ↦ ?_, fun heos p hl hu ↦ ?_⟩
  all_goals obtain ⟨rfl, heq⟩ | ⟨hlt, heq⟩ := bufferAt_pushed hbuf hroom hl hu
  · rw [heq] at hfin ⊢
    exact hx.resolve_right fun hno ↦ absurd (hno.1.symm.trans hfin) (by decide)
  · rw [heq]
    exact hall p hl hlt
  · rw [heq] at hopen
    exact ⟨rfl, (hx.resolve_left (by simp [hopen])).2.1⟩
  · rw [heq] at hopen
    exact absurd (hopen.symm.trans (hall p hl hlt)) (by decide)
  · rw [heq]
    exact hx.resolve_right fun hno ↦ absurd (hno.2.2.symm.trans heos) (by decide)
  · rw [heq]
    exact hall p hl hlt

/-- Without a current packet all are flushed. -/
theorem Flagged.allFlushed (h : t.Flagged b e) (hcur : ∀ i, t.currentOutBuffer = some i →
    (t.outBuffers i).flushed = true) : t.AllFlushed b e := by
  intro p hl hu
  by_contra hopen
  rw [Bool.not_eq_true] at hopen
  have hfl := hcur _ (h.open_last p hl hu hopen).2
  exact absurd (hopen.symm.trans hfl) (by decide)

private theorem Flagged.moves {eff : Effect} (h : t.Flagged b e)
    (hpend : t.hasPendingEof = true → t.endOfStream = true)
    (hm : Moves (t, b, e) eff (t', b', e')) (hend : eff.Ends → t.AllFlushed b e) :
    t'.Flagged b' e' := by
  cases hm with
  | alloc ring ho hcur _ _ hroom =>
    have hall := h.allFlushed fun i hi ↦ absurd (hcur.symm.trans hi) (by simp)
    exact h.push hall hroom rfl (.inr ⟨rfl, rfl, ho.1⟩)
  | write i bytes _ hcur hopen =>
    refine h.congr (fun j hj ↦ ?_) (fun j hj ↦ ?_) (fun p _ _ hfl hp ↦ ?_) h.closed
    · exact holds_update (P := fun y ↦ y.flushed = true) OutBuffer.flushed_extended hj
    · exact holds_update (P := fun y ↦ y.finished = true → y.flushed = true)
        (fun _ ↦ OutBuffer.flushed_of_extended hopen) hj
    · -- a packet that is full is flushed
      obtain rfl : i = slotAt n p := Option.some.inj (hcur.symm.trans hp)
      rw [bufferAt] at hfl
      dsimp only at hfl ⊢
      rw [Function.update_self, OutBuffer.extended] at hfl
      split
      · next hfull =>
        rw [if_pos hfull] at hfl
        cases hfl
      · rfl
  | release i hcur hfin =>
    refine h.congr (fun _ hx ↦ hx) (fun _ hx ↦ hx) (fun p hl hu hfl hp ↦ ?_) h.closed
    obtain rfl : i = slotAt n p := Option.some.inj (hcur.symm.trans hp)
    exact absurd (hfl.symm.trans (h.finished p hl hu hfin)) (by decide)
  | flush i => exact h.update rfl rfl rfl (fun _ ↦ rfl) fun _ _ ↦ rfl
  | closeNow ring _ hroom => exact h.push (hend trivial) hroom rfl (.inl rfl)
  | closeLater =>
    exact h.congr (fun _ hx ↦ hx) (fun _ hx ↦ hx) (fun _ _ _ _ hx ↦ hx) fun _ ↦ hend trivial
  | lateEos ring hp hroom => exact h.push (h.closed (hpend hp)) hroom rfl (.inl rfl)
  | finish => exact h.update rfl rfl rfl (fun _ ↦ rfl) fun _ _ ↦ rfl
  | send =>
    exact h.update rfl rfl rfl (fun hfl ↦ finishBuffer_flushed fun _ ↦ hfl)
      fun hfl _ ↦ finishBuffer_flushed hfl
  | pop =>
    exact ⟨fun p hl ↦ h.finished p (by omega), fun p hl ↦ h.open_last p (by omega),
      fun heos p hl ↦ h.closed heos p (by omega)⟩
  | skip => exact h.update rfl rfl rfl id id
  | rush => exact h.update rfl rfl rfl id id
  | himark | calm =>
    exact h.congr (fun _ hx ↦ hx) (fun _ hx ↦ hx) (fun _ _ _ _ hx ↦ hx) h.closed
  | reset => exact flagged_empty _ _
  | stray => exact flagged_empty _ _

end

/-! ### Positions below the mark -/

/-- Positions are moved by the peer's buffer size as by `size`. -/
def SizeIs (t : Transmitter n) (size : Int) : Prop :=
  ∀ p, (SeqNum.ofPos p).add t.peerReceiveBufferSize = .ofPos (p + size)

private theorem exists_sizeIs (t : Transmitter n) :
    ∃ size, t.SizeIs size ∧ -32768 ≤ size ∧ size < 32768 := by
  obtain ⟨size, hsize, hl, hu⟩ :=
    SeqNum.exists_ofPos_near ((SeqNum.ofPos 0).add t.peerReceiveBufferSize) 0
  refine ⟨size, fun p ↦ ?_, by omega, by omega⟩
  calc (SeqNum.ofPos p).add t.peerReceiveBufferSize
      = ((SeqNum.ofPos 0).add t.peerReceiveBufferSize).add p := by
        rw [SeqNum.ofPos_add, SeqNum.ofPos_add, SeqNum.ofPos_add]
        congr 1
        omega
    _ = .ofPos (p + size) := by
        rw [hsize, SeqNum.ofPos_add, add_comm]

/-- The mark `h` is ahead of all packets but the final one. -/
structure Ahead (t : Transmitter n) (b e h : Int) : Prop where
  end_le : e ≤ h + 1
  open_le : t.Open ∨ t.hasPendingEof = true → e ≤ h
  near : h ≤ b + 32767
  sized : t.state = .connected → ∃ size, t.SizeIs size ∧ 0 ≤ size ∧ size < 32768 ∧ h ≤ e + size

/-- The peer named a buffer size so large that the mark `h` counts as behind the window. No more
than the final packet is ever queued: `tryWrite` fails its check (`transmitter.cpp:31`). -/
structure Behind (t : Transmitter n) (b e h : Int) : Prop where
  pending : t.hasPendingEof = false
  lone : e ≤ b + 1
  opened : t.Open → e = b ∧ b - 32768 ≤ h ∧
    ∃ size, t.SizeIs size ∧ -32768 ≤ size ∧ size < 0 ∧ h ≤ b + size

/-- Where `recv_himark_` lies. -/
structure Himarked (t : Transmitter n) (b e : Int) : Prop where
  pending : t.hasPendingEof = true → t.endOfStream = true
  himark : ∃ h, t.recvHimark = .ofPos h ∧ (t.Ahead b e h ∨ t.Behind b e h)

section

variable {t t' : Transmitter n} {b e b' e' h : Int} {eff : Effect}

private theorem Ahead.push (ha : t.Ahead b e h) (hst : t'.state = t.state)
    (hsize : t'.peerReceiveBufferSize = t.peerReceiveBufferSize) (hroom : e ≤ h)
    (hopen : t'.Open ∨ t'.hasPendingEof = true → e + 1 ≤ h) : t'.Ahead b (e + 1) h := by
  refine ⟨by omega, hopen, ha.near, fun hc ↦ ?_⟩
  obtain ⟨size, hs, hl, hu, hreach⟩ := ha.sized (hst ▸ hc)
  refine ⟨size, ?_, hl, hu, by omega⟩
  rw [SizeIs, hsize]
  exact hs

private theorem Ahead.rest (ha : t.Ahead b e h) (hb : b ≤ b') (hst : t'.state ≠ .connected)
    (hopen : ¬ t'.Open) (hpend : t'.hasPendingEof = true → t.hasPendingEof = true) :
    t'.Ahead b' e h := by
  have hnear := ha.near
  exact ⟨ha.end_le, fun ho ↦ ha.open_le (.inr (hpend (ho.resolve_left hopen))), by omega,
    fun hc ↦ absurd hc hst⟩

private theorem Ahead.moves (ha : t.Ahead b e h)
    (hpend : t.hasPendingEof = true → t.endOfStream = true)
    (hhi : t.recvHimark = .ofPos h) (hs : t.outRing.Spans b e)
    (hm : Moves (t, b, e) eff (t', b', e')) :
    ∃ h', t'.recvHimark = .ofPos h' ∧ t'.Ahead b' e' h' := by
  have hcap := capacity_le n
  have hus := hs.used
  have hle := hs.le
  have hend := ha.end_le
  have hnear := ha.near
  cases hm with
  | alloc ring ho _ _ hne =>
    have hroom := ha.open_le (.inl ho)
    rw [hhi, hs.end_eq, ne_eq, SeqNum.ofPos_eq (by omega) (by omega)] at hne
    exact ⟨h, hhi, ha.push rfl rfl hroom fun _ ↦ by omega⟩
  | closeNow ring ho =>
    refine ⟨h, hhi, ha.push rfl rfl (ha.open_le (.inl ho)) ?_⟩
    rintro (ho' | hp)
    · exact absurd ho'.1 (by simp)
    · exact absurd ((hpend hp).symm.trans ho.1) (by simp)
  | closeLater ho => exact ⟨h, hhi, hend, fun _ ↦ ha.open_le (.inl ho), hnear, ha.sized⟩
  | lateEos ring hp =>
    refine ⟨h, hhi, ha.push rfl rfl (ha.open_le (.inr hp)) ?_⟩
    rintro (ho | hp')
    · exact absurd ((hpend hp).symm.trans ho.1) (by simp)
    · exact absurd hp' (by simp)
  | pop => exact ⟨h, hhi, hend, ha.open_le, by omega, ha.sized⟩
  | @himark _ _ _ k hst hl hu hge hgt =>
    obtain ⟨size, hsize, hl', hu', hreach⟩ := ha.sized hst
    rw [hhi] at hge
    rw [hs.end_eq, hsize] at hgt
    have hforth : h ≤ k := by
      by_contra hback
      by_cases hhalf : -32768 ≤ k - h
      · exact hge ((SeqNum.ofPos_lt hhalf (by omega)).mpr (by omega))
      · -- the mark would have gone back by more than half a turn, which is past its limit
        rw [← SeqNum.ofPos_turn k, SeqNum.ofPos_gt (by omega) (by omega)] at hgt
        omega
    refine ⟨k, rfl, by omega, fun ho ↦ (ha.open_le ho).trans hforth, by omega, fun _ ↦
      ⟨size, hsize, hl', hu', ?_⟩⟩
    by_contra hfar
    exact hgt ((SeqNum.ofPos_gt (by omega) (by omega)).mpr (by omega))
  | reset => exact ⟨h, hhi, ha.rest hle (by simp) (fun ho ↦ ho.2.1 rfl) (by simp)⟩
  | calm => exact ⟨h, hhi, ha.rest le_rfl (by simp) (fun ho ↦ ho.2.1 rfl) id⟩
  | _ => exact ⟨h, hhi, hend, ha.open_le, hnear, ha.sized⟩

private theorem Behind.moves (hb : t.Behind b e h) (hhi : t.recvHimark = .ofPos h)
    (hs : t.outRing.Spans b e) (hm : Moves (t, b, e) eff (t', b', e')) :
    ∃ h', t'.recvHimark = .ofPos h' ∧ t'.Behind b' e' h' := by
  have hone := one_le_capacity n
  have hle := hs.le
  have hlone := hb.lone
  cases hm with
  | alloc ring ho _ hge =>
    obtain ⟨rfl, hl, size, -, hls, hus, hreach⟩ := hb.opened ho
    rw [hhi, hs.end_eq, SeqNum.ofPos_ge (by omega) (by omega)] at hge
    omega
  | closeNow ring ho =>
    obtain ⟨rfl, -⟩ := hb.opened ho
    exact ⟨h, hhi, hb.pending, le_rfl, fun ho' ↦ absurd ho'.1 (by simp)⟩
  | closeLater ho hfull =>
    obtain ⟨rfl, -⟩ := hb.opened ho
    omega
  | lateEos ring hp => exact absurd (hp.symm.trans hb.pending) (by decide)
  | pop ring _ hlt =>
    refine ⟨h, hhi, hb.pending, by omega, fun ho ↦ ?_⟩
    have heq := (hb.opened ho).1
    omega
  | @himark _ _ _ k hst hl hu hge hgt =>
    refine ⟨k, rfl, hb.pending, hlone, fun ho ↦ ?_⟩
    obtain ⟨rfl, hl', size, hsize, hls, hus, hreach⟩ := hb.opened ho
    rw [hhi] at hge
    rw [hs.end_eq, hsize] at hgt
    refine ⟨rfl, by omega, size, hsize, hls, hus, ?_⟩
    by_contra hfar
    by_cases hhalf : k - (e + size) < 32768
    · exact hgt ((SeqNum.ofPos_gt (by omega) hhalf).mpr (by omega))
    · rw [← SeqNum.ofPos_turn h, SeqNum.ofPos_lt (by omega) (by omega)] at hge
      omega
  | reset => exact ⟨h, hhi, rfl, by omega, fun ho ↦ absurd rfl ho.2.1⟩
  | calm => exact ⟨h, hhi, hb.pending, hlone, fun ho ↦ absurd rfl ho.2.1⟩
  | _ => exact ⟨h, hhi, hb.pending, hlone, hb.opened⟩

private theorem Himarked.moves (h : t.Himarked b e) (hs : t.outRing.Spans b e)
    (hm : Moves (t, b, e) eff (t', b', e')) : t'.Himarked b' e' := by
  obtain ⟨k, hhi, hk⟩ := h.himark
  constructor
  · have hpend := h.pending
    cases hm with
    | closeNow | closeLater => exact fun _ ↦ rfl
    | lateEos | reset => exact fun hp ↦ absurd hp (by simp)
    | _ => exact hpend
  · rcases hk with ha | hb
    · obtain ⟨k', hhi', ha'⟩ := ha.moves h.pending hhi hs hm
      exact ⟨k', hhi', .inl ha'⟩
    · obtain ⟨k', hhi', hb'⟩ := hb.moves hhi hs hm
      exact ⟨k', hhi', .inr hb'⟩

/-- A new stream. -/
theorem himarked_start (hst : t.state = .connecting) (hhi : t.recvHimark = .ofPos b)
    (hpend : t.hasPendingEof = false) : t.Himarked b b := by
  constructor
  · exact fun hp ↦ absurd (hp.symm.trans hpend) (by decide)
  · exact ⟨b, hhi, .inl ⟨by omega, fun _ ↦ le_rfl, by omega, fun hc ↦
      absurd (hst.symm.trans hc) (by decide)⟩⟩

/-- The credit of a peer that has just been heard of. -/
theorem Early.setConnected (h : t.Early b e) (hs : t.outRing.Spans b e)
    (hst : t.state = .connecting) (peerSize : Nat) (controlBit : Bool) :
    (t.setConnected peerSize controlBit).Himarked b e := by
  obtain ⟨-, hpend, hend⟩ := h hst
  obtain ⟨size, hsize, hl, hu⟩ := (t.setConnected peerSize controlBit).exists_sizeIs
  have hempty (ho : (t.setConnected peerSize controlBit).Open) : e = b := by
    rcases hend with heq | ⟨-, heos⟩
    · exact heq
    · exact absurd (ho.1.symm.trans heos) (by decide)
  have hnone (hp : (t.setConnected peerSize controlBit).hasPendingEof = true) : False :=
    absurd (hp.symm.trans hpend) (by decide)
  refine ⟨fun hp ↦ (hnone hp).elim, b + size, ?_, ?_⟩
  · dsimp only [Transmitter.setConnected]
    rw [hs.begin_eq]
    exact hsize b
  · by_cases hneg : size < 0
    · exact .inr ⟨hpend, by omega, fun ho ↦
        ⟨hempty ho, by omega, size, hsize, hl, hneg, le_rfl⟩⟩
    · refine .inl ⟨by omega, ?_, by omega, fun _ ↦ ⟨size, hsize, by omega, hu, by omega⟩⟩
      rintro (ho | hp)
      · have heq := hempty ho
        omega
      · exact (hnone hp).elim

/-- The packets below the mark are the first ones of the window. -/
theorem Himarked.below (h : t.Himarked b e) (hs : t.outRing.Spans b e) {p q : Int} (hl : b ≤ p)
    (hle : p ≤ q) (hu : q < e) (hq : SeqNum.ofPos q < t.recvHimark) :
    SeqNum.ofPos p < t.recvHimark := by
  have hcap := capacity_le n
  have hus := hs.used
  obtain ⟨k, hhi, ha | hb⟩ := h.himark
  · have hend := ha.end_le
    have hnear := ha.near
    rw [hhi, SeqNum.ofPos_lt (by omega) (by omega)] at hq ⊢
    omega
  · have hlone := hb.lone
    obtain rfl : p = q := by omega
    exact hq

end

/-! ### Whole runs -/

/-- What lets the scan for a packet to send stop early. -/
structure Timed (t : Transmitter n) (b e : Int) : Prop where
  flagged : t.Flagged b e
  himarked : t.Himarked b e
  early : t.Early b e

/-- A stream that may send, now or once it is connected. -/
structure Scheduled (t : Transmitter n) (b e f : Int) : Prop where
  ordered : t.Ordered b e f
  follows : t.Follows f
  timed : t.Timed b e

/-- The calls of one connection after the other: each is connected once, and acknowledgements drop
and mark only packets that were sent, at the positions where `ack` applies them. -/
def AcksSentOnly (t : Transmitter n) : Act → Prop
  | .setConnected _ _ => t.state = .connecting
  | a => t.AcksSent a

instance (t : Transmitter n) : (a : Act) → Decidable (t.AcksSentOnly a)
  | .setConnected _ _ => inferInstanceAs (Decidable (_ = _))
  | .ack controlBit seqId ackBitmap =>
    inferInstanceAs (Decidable (t.AcksSent (.ack controlBit seqId ackBitmap)))
  | .init _ _ | .tryWrite _ | .flush | .close | .getBufferToSend _ _ _ | .updateRecvHimark _ _
  | .setBroken | .reset => .isTrue trivial

section

variable {t t' : Transmitter n} {b e b' e' f : Int}

/-- Every effect keeps the timers, given that a stream ends flushed. -/
theorem Timed.moves {eff : Effect} (h : t.Timed b e) (hs : t.outRing.Spans b e)
    (hm : Moves (t, b, e) eff (t', b', e')) (hend : eff.Ends → t.AllFlushed b e) :
    t'.Timed b' e' :=
  ⟨h.flagged.moves h.himarked.pending hm hend, h.himarked.moves hs hm, h.early.moves hs hm⟩

/-- An effect that sends nothing keeps the schedule, given that a stream ends flushed. -/
theorem Scheduled.quiet_moves {eff : Effect} (h : t.Scheduled b e f)
    (hm : Moves (t, b, e) eff (t', b', e')) (hq : eff.Quiet)
    (hend : eff.Ends → t.AllFlushed b e) : t'.Scheduled b' e' f := by
  obtain ⟨ho, hnext, -⟩ := h.ordered.quiet_moves hm hq
  refine ⟨ho, ?_, h.timed.moves h.ordered.spans hm hend⟩
  rw [Follows, hnext]
  exact h.follows

/-- Calls that neither send nor acknowledge, nor close the stream. -/
theorem Scheduled.quiet {effs : List Effect} (h : t.Scheduled b e f)
    (hp : Path Moves (t, b, e) effs (t', b', e'))
    (hq : ∀ eff ∈ effs, eff.Quiet ∧ ¬ eff.Ends) : t'.Scheduled b' e' f :=
  hp.invariant (fun x ↦ x.1.Scheduled x.2.1 x.2.2 f) (fun _ eff _ heff hx hm ↦
    hx.quiet_moves hm (hq eff heff).1 fun hend ↦ absurd hend (hq eff heff).2) h

private theorem Timed.path {effs : List Effect} (h : t.Timed b e) (hs : t.outRing.Spans b e)
    (hp : Path Moves (t, b, e) effs (t', b', e')) (hne : ∀ eff ∈ effs, ¬ eff.Ends) :
    t'.Timed b' e' :=
  (hp.invariant (fun x ↦ x.1.outRing.Spans x.2.1 x.2.2 ∧ x.1.Timed x.2.1 x.2.2)
    (fun _ eff _ heff hx hm ↦
      ⟨hm.spans hx.1, hx.2.moves hx.1 hm fun hend ↦ absurd hend (hne eff heff)⟩) ⟨hs, h⟩).2

/-- Sending keeps the timers. -/
theorem Timed.sending {out : Option SeqNum} (h : t.Timed b e) (hs : t.outRing.Spans b e)
    (hsend : Sending t b e t' out) : t'.Timed b e := by
  have hfinish {effs : List Effect} (hk : ∀ eff ∈ effs, ∃ p, eff = .finish p) :
      ∀ eff ∈ effs, ¬ eff.Ends := by
    intro eff heff
    obtain ⟨p, rfl⟩ := hk eff heff
    exact id
  cases hsend with
  | idle effs hpath hk => exact h.path hs hpath (hfinish hk)
  | sent effs fast hpath hk hm =>
    exact (h.path hs hpath (hfinish hk)).moves (path_spans hpath hs) hm False.elim
  | stray _ _ hm => exact h.moves hs hm False.elim

/-- After a flush the current buffer is flushed. -/
theorem flush_current (t : Transmitter n) (i : Fin (2 ^ n.val))
    (hi : t.flush.1.currentOutBuffer = some i) : (t.flush.1.outBuffers i).flushed = true := by
  unfold flush at hi ⊢
  split at hi
  · next j hj =>
    cases hj.symm.trans hi
    simp [OutBuffer.flush]
  · next hnone => exact absurd (hnone.symm.trans hi) (by simp)

/-- A call on a stream that may send leaves it so, unless it ends it. -/
theorem Scheduled.step {a : Act} (h : t.Scheduled b e f)
    (hst : t.state = .connecting ∨ t.state = .connected) (hg : t.AcksSentOnly a)
    (ha : a.InStream) (hstep : t.step a = .ok t') :
    ∃ b' e' f', t'.Scheduled b' e' f' := by
  have hs := h.ordered.spans
  cases a with
  | init | setConnected | setBroken | reset => exact ha.elim
  | tryWrite buf =>
    obtain ⟨⟨t1, written, ready⟩, hw, rfl⟩ := map_eq_ok.mp hstep
    obtain ⟨-, effs, e1, hpath, -, hk⟩ := tryWrite_path hs hw
    exact ⟨b, e1, f, h.quiet hpath fun eff heff ↦ ⟨(hk eff heff).quiet, (hk eff heff).not_ends⟩⟩
  | flush =>
    cases hstep
    obtain ⟨effs, hpath, hk⟩ := flush_path t b e
    refine ⟨b, e, f, h.quiet hpath fun eff heff ↦ ?_⟩
    rw [hk eff heff]
    exact ⟨trivial, id⟩
  | close =>
    by_cases hopen : t.Open
    · obtain ⟨effs, hpath, hk⟩ := flush_path t b e
      have hflush : t.flush.1.Scheduled b e f := h.quiet hpath fun eff heff ↦ by
        rw [hk eff heff]
        exact ⟨trivial, id⟩
      obtain ⟨t1, eff, e1, hc, hm, hclose, -⟩ := close_move hs hopen
      obtain rfl : t1 = t' := Except.ok.inj (hc.symm.trans hstep)
      -- what was the current packet is flushed by now
      have hall := hflush.timed.flagged.allFlushed (flush_current t)
      exact ⟨b, e1, f, hflush.quiet_moves hm hclose.quiet fun _ ↦ hall⟩
    · obtain ⟨t1, effs, e1, hc, -, -, hsame, -⟩ := close_path hs
      obtain rfl : t1 = t' := Except.ok.inj (hc.symm.trans hstep)
      rw [(hsame hopen (by rcases hst with hst | hst <;> simp [hst])).1]
      exact ⟨b, e, f, h⟩
  | getBufferToSend now draw next =>
    cases hstep
    have htimed := h.timed.sending hs (getBufferToSend_path hs now draw next)
    rcases hst with hst | hst
    · rw [Transmitter.getBufferToSend, if_pos (by simp [hst])]
      exact ⟨b, e, f, h⟩
    rcases h.ordered.getBufferToSend h.follows hst now draw next with
      ⟨p, hl, hu, hle, heq⟩ | ⟨next', stop, found, heq, -⟩
    · rw [heq] at htimed ⊢
      obtain ⟨ho, hf⟩ := h.ordered.handOut hl hu hle now draw
      exact ⟨b, e, _, ho, hf, htimed⟩
    · rw [heq]
      exact ⟨b, e, f, h⟩
  | ack controlBit seqId bitmap =>
    obtain ⟨⟨t1, rushed⟩, hack, rfl⟩ := map_eq_ok.mp hstep
    obtain ⟨b1, e1, ho, htimed⟩ := h.ordered.ack_keeps hg hack
      (fun x ↦ x.1.Timed x.2.1 x.2.2)
      (fun x eff y hx hi hm _ hloud ↦ hi.moves hx.spans hm fun hend ↦ absurd hend.quiet hloud)
      h.timed
    exact ⟨b1, e1, f, ho, h.follows.ack ho hack, htimed⟩
  | updateRecvHimark controlBit himark =>
    cases hstep
    rcases updateRecvHimark_path hs controlBit himark with heq | ⟨p, -, -, hm⟩
    · rw [heq]
      exact ⟨b, e, f, h⟩
    · exact ⟨b, e, f, h.quiet_moves hm trivial False.elim⟩

private theorem scheduled_init (t : Transmitter n) (id : UInt32) (start : SeqNum)
    (hinit : t.init id start = .ok t') : ∃ b, t'.Scheduled b b b := by
  obtain rfl := Except.ok.inj ((init_ok t id start).symm.trans hinit)
  have hs := spans_new n start.raw.toNat
  have hstart := SeqNum.ofPos_raw start
  rw [hstart] at hs
  exact ⟨start.raw.toNat,
    { ordered := ⟨hs, le_rfl, le_rfl, fun p hl hu ↦ by omega, fun p hl hu ↦ by omega⟩
      follows := ⟨_, hstart.symm, le_rfl, by omega⟩
      timed := ⟨flagged_empty _ _, himarked_start rfl hstart.symm rfl,
        fun _ ↦ ⟨hstart.symm, rfl, .inl rfl⟩⟩ }⟩

private theorem Scheduled.setConnected (h : t.Scheduled b e f) (hst : t.state = .connecting)
    (size : Nat) (controlBit : Bool) : (t.setConnected size controlBit).Scheduled b e f where
  ordered := h.ordered.congr rfl (fun _ hx ↦ hx) fun _ hx ↦ hx
  follows := h.follows
  timed.flagged := h.timed.flagged.congr (fun _ hx ↦ hx) (fun _ hx ↦ hx) (fun _ _ _ _ hx ↦ hx)
    h.timed.flagged.closed
  timed.himarked := h.timed.early.setConnected h.ordered.spans hst size controlBit
  timed.early := fun hst' ↦ absurd hst' (by simp [Transmitter.setConnected])

/-- A transmitter that is connected has a schedule. -/
theorem scheduled_of_reachable (h : Reachable Transmitter.step AcksSentOnly (new n) t)
    (hst : t.state = .connected) : ∃ b e f, t.Scheduled b e f := by
  refine h.invariant (fun t ↦ t.state = .connecting ∨ t.state = .connected →
    ∃ b e f, t.Scheduled b e f) ?_ (fun t a t' hi hg hstep hst' ↦ ?_) (.inr hst)
  · rintro (hnew | hnew) <;> cases hnew
  · have hcall (ha : a.InStream) : ∃ b e f, t'.Scheduled b e f := by
      have hbefore : t.state = .connecting ∨ t.state = .connected := by
        rcases (step_inStream ha hstep).1 with hsame | hidle
        · rwa [hsame] at hst'
        · rw [hidle] at hst'
          rcases hst' with hno | hno <;> cases hno
      obtain ⟨b, e, f, hs⟩ := hi hbefore
      exact hs.step hbefore hg ha hstep
    cases a with
    | init id start =>
      obtain ⟨b, hb⟩ := scheduled_init t id start hstep
      exact ⟨b, b, b, hb⟩
    | setConnected size controlBit =>
      cases hstep
      obtain ⟨b, e, f, hs⟩ := hi (.inl hg)
      exact ⟨b, e, f, hs.setConnected hg size controlBit⟩
    | setBroken =>
      obtain ⟨b, e, hs⟩ := t.outRing.exists_spans
      rw [Transmitter.step, setBroken_ok hs] at hstep
      cases hstep
      rcases hst' with hno | hno <;> cases hno
    | reset =>
      obtain ⟨b, e, hs⟩ := t.outRing.exists_spans
      obtain ⟨t1, hr, hm⟩ := reset_ok hs
      obtain rfl : t1 = t' := Except.ok.inj (hr.symm.trans hstep)
      cases hm
      rcases hst' with hno | hno <;> cases hno
    | _ => exact hcall trivial

/-! ### Nothing found to send -/

/-- When nothing is found, every flushed packet below the mark that was not acknowledged was
passed by the scan. -/
theorem Scheduled.passed (h : t.Scheduled b e f) {now : Uptime} {next next' : Nat} {stop : Int}
    {found : SeqNum × Uptime} (hn : t.NothingDue b e now next next' stop found) {q : Int}
    (hu : q < e) (hbelow : SeqNum.ofPos q < t.recvHimark)
    (hfl : (t.bufferAt q).flushed = true) : q < stop := by
  by_contra hge
  have hbs := hn.scans.le_stop
  rcases hn.scans.found with ⟨heq, hlt, -⟩ | ⟨hstop, -⟩
  · -- the scan would have ended with a packet to send at once
    have hin : t.outRing.contains found.1 = true := by
      rw [heq]
      exact h.ordered.spans.contains_of_mem hbs hlt
    have hlater := (hn.later hin).1
    rw [heq] at hlater
    exact Nat.not_lt_zero _ hlater
  · have hmark := h.timed.himarked.below h.ordered.spans hbs (not_lt.mp hge) hu hbelow
    obtain ⟨-, hopen⟩ := hstop (by omega) hmark
    obtain ⟨hlast, -⟩ := h.timed.flagged.open_last stop hbs (by omega) hopen
    obtain rfl : q = stop := by omega
    exact absurd (hopen.symm.trans hfl) (by decide)

/-- The packet at a position is not waiting to be sent, nor due to be sent again at `now`, and
`next` does not let it wait too long. -/
structure OnTime (t : Transmitter n) (pos : SeqNum) (now : Uptime) (next : Nat) : Prop where
  sent : (t.getOutBuffer pos).flushed = true → 0 < (t.getOutBuffer pos).sendCounter
  not_due : (t.getOutBuffer pos).flushed = true → (t.getOutBuffer pos).acked = false →
    (t.getOutBuffer pos).expiration < uptimeMax → now < (t.getOutBuffer pos).expiration
  timer : 0 < (t.getOutBuffer pos).sendCounter → (t.getOutBuffer pos).acked = false →
    (t.getOutBuffer pos).expiration < uptimeMax → next ≤ (t.getOutBuffer pos).expiration - now

/-- The timer of a packet that the scan passed. -/
theorem Scheduled.timer (h : t.Scheduled b e f) {now : Uptime} {next next' : Nat} {stop : Int}
    {found : SeqNum × Uptime} (hn : t.NothingDue b e now next next' stop found) {q : Int}
    (hl : b ≤ q) (hu : q < stop) (hacked : (t.bufferAt q).acked = false)
    (hmax : (t.bufferAt q).expiration < uptimeMax) :
    now < (t.bufferAt q).expiration ∧ next' ≤ (t.bufferAt q).expiration - now := by
  have hse := hn.scans.stop_le
  obtain ⟨-, hle⟩ := (hn.scans.passed q hl hu).2.resolve_left (by simp [hacked])
  -- what was found is then a packet of the window, and not the end of it
  have hin : t.outRing.contains found.1 = true := by
    rcases hn.scans.found with ⟨heq, hlt, -⟩ | ⟨-, heq | ⟨q', hl', hu', -, heq⟩⟩
    · rw [heq]
      exact h.ordered.spans.contains_of_mem (by omega) hlt
    · rw [heq] at hle
      exact absurd (lt_of_lt_of_le hmax hle) (lt_irrefl _)
    · rw [heq]
      exact h.ordered.spans.contains_of_mem hl' (by omega)
  obtain ⟨hnow, rfl⟩ := hn.later hin
  refine ⟨lt_of_lt_of_le hnow hle, (min_le_right _ _).trans ?_⟩
  exact Nat.sub_le_sub_right hle now

/-- When `getBufferToSend` returns nothing on a connected stream, it leaves the stream as it was;
below `recv_himark_` no packet that is flushed was never sent or is due, and `next_send_micros` is
not past the time at which a packet is to be sent again. -/
theorem nothing_due_is_skipped (h : Reachable Transmitter.step AcksSentOnly (new n) t)
    (hst : t.state = .connected) {now : Uptime} {draw next next' : Nat}
    (hnull : t.getBufferToSend now draw next = (t', none, next')) :
    t' = t ∧ ∀ i < t.outRing.slotsUsed, t.outRing.begin_.add i < t.recvHimark →
      t.OnTime (t.outRing.begin_.add i) now next' := by
  obtain ⟨b, e, f, hs⟩ := scheduled_of_reachable h hst
  rcases hs.ordered.getBufferToSend hs.follows hst now draw next with
    ⟨p, -, -, -, heq⟩ | ⟨next'', stop, found, heq, hn⟩
  · cases hnull.symm.trans heq
  cases hnull.symm.trans heq
  have hspans := hs.ordered.spans
  have hused := hspans.slotsUsed_eq
  have hstop := hs.ordered.stop_le hn.scans
  refine ⟨rfl, fun i hi hbelow ↦ ?_⟩
  rw [hspans.begin_eq, SeqNum.ofPos_add] at hbelow ⊢
  have hpassed := hs.passed hn (by omega) hbelow
  have hsent (hcount : 0 < (t.bufferAt (b + i)).sendCounter) :
      (t.bufferAt (b + i)).flushed = true := by
    have hlt := hs.ordered.lt_of_counted (by omega) hcount
    exact hs.timed.flagged.finished _ (by omega) (by omega)
      (hs.ordered.sent _ (by omega) hlt).finished
  constructor
  · rw [getOutBuffer_ofPos]
    intro hfl
    have hlt := hpassed hfl
    exact (hs.ordered.sent _ (by omega) (by omega)).counted
  · rw [getOutBuffer_ofPos]
    exact fun hfl hacked hmax ↦ (hs.timer hn (by omega) (hpassed hfl) hacked hmax).1
  · rw [getOutBuffer_ofPos]
    exact fun hcount hacked hmax ↦
      (hs.timer hn (by omega) (hpassed (hsent hcount)) hacked hmax).2

end

/-- The first of two packets is acknowledged, the second waits for its timer. -/
theorem nothing_due_after_ack : ∃ (t : Transmitter 2) (next' : Nat),
    Reachable Transmitter.step AcksSentOnly (new 2) t ∧ t.state = .connected ∧
    t.getBufferToSend 1 0 1000000 = (t, none, next') ∧ t.outRing.begin_ = ⟨1⟩ ∧
    0 < (t.getOutBuffer ⟨1⟩).sendCounter ∧ t.OnTime ⟨1⟩ 1 next' := by
  obtain ⟨t, hr, ht⟩ := Reachable.of_test Transmitter.step AcksSentOnly (new 2)
    [.init 1 ⟨0⟩, .setConnected 4 true, .tryWrite [1], .flush, .getBufferToSend 0 0 0,
      .tryWrite [2], .flush, .getBufferToSend 0 0 0, .ack false 1 []]
    (fun t ↦ t.state = .connected ∧ (t.getBufferToSend 1 0 1000000).2.1 = none ∧
      t.outRing.begin_ = ⟨1⟩ ∧ t.outRing.slotsUsed = 1 ∧ (⟨1⟩ : SeqNum) < t.recvHimark ∧
      0 < (t.getOutBuffer ⟨1⟩).sendCounter)
    (by decide) (by decide)
  obtain ⟨hst, hnone, hbegin, hused, hbelow, hcount⟩ := of_decide_eq_true ht
  cases hres : t.getBufferToSend 1 0 1000000 with
  | mk t' rest =>
    obtain ⟨out, next'⟩ := rest
    rw [hres] at hnone
    cases hnone
    obtain ⟨rfl, htime⟩ := nothing_due_is_skipped hr hst hres
    have hzero := htime 0 (by omega)
    rw [hbegin] at hzero
    exact ⟨t', next', hr, hst, hres, hbegin, hcount, hzero hbelow⟩

/-- An open packet behind one that was sent is not due, though its expiration is the start of
time. -/
theorem open_packet_is_not_due : ∃ t : Transmitter 2,
    Reachable Transmitter.step AcksSentOnly (new 2) t ∧ t.state = .connected ∧
    (t.getBufferToSend 1 0 1000000).2.1 = none ∧ t.outRing.begin_ = ⟨0⟩ ∧ t.outRing.end_ = ⟨2⟩ ∧
    (⟨1⟩ : SeqNum) < t.recvHimark ∧ (t.getOutBuffer ⟨1⟩).acked = false ∧
    (t.getOutBuffer ⟨1⟩).expiration ≤ 1 := by
  obtain ⟨t, hr, ht⟩ := Reachable.of_test Transmitter.step AcksSentOnly (new 2)
    [.init 1 ⟨0⟩, .setConnected 4 true, .tryWrite [1], .flush, .getBufferToSend 0 0 0,
      .tryWrite [2]]
    (fun t ↦ t.state = .connected ∧ (t.getBufferToSend 1 0 1000000).2.1 = none ∧
      t.outRing.begin_ = ⟨0⟩ ∧ t.outRing.end_ = ⟨2⟩ ∧ (⟨1⟩ : SeqNum) < t.recvHimark ∧
      (t.getOutBuffer ⟨1⟩).acked = false ∧ (t.getOutBuffer ⟨1⟩).expiration ≤ 1)
    (by decide) (by decide)
  exact ⟨t, hr, of_decide_eq_true ht⟩

end Transmitter

end RooTransport.Link
