import Mathlib.Data.Fintype.Basic
import RooTransport.Link.Lane
import RooTransport.Link.RetryBackoff

/-!
# No run of a lane gets stuck

Whatever packets and notices were lost so far, some sequence of regular calls of the two ends and
of deliveries finishes the stream: everything accepted is read, and if the stream was closed the
reader meets its end and the writer goes idle. A round resends the first packet not
acknowledged and brings its acknowledgement back; the final packet may first need a new mark,
since it alone can be queued without credit (`transmitter.cpp:67–89`).
-/

namespace RooTransport.Link

open RooTransport.Base RingBuffer

/-- A timer that is started runs for some time. -/
theorem OutBuffer.lt_expiration_markSent (x : OutBuffer) (now : Uptime) {draw : Nat}
    (hdraw : draw ≤ randomIntegerMax) : now < (x.markSent now draw).expiration := by
  dsimp only [markSent]
  generalize (if x.sendCounter < 255 then x.sendCounter + 1 else x.sendCounter) = count
  have hnominal : 5000 ≤ nominalDelay 5000 200000 count :=
    nominalDelay_mono (by norm_num) (Nat.zero_le count)
  rw [retryBackoffMicros_eq (by norm_num) (by norm_num) hdraw, spread]
  apply Nat.lt_add_of_pos_right
  apply Nat.add_pos_left
  omega

namespace Transmitter

variable {n : LinkBufferSize} {t : Transmitter n} {b e f : Int} {now : Uptime}

-- A packet that is not finished was not sent.
private theorem Ordered.expiration_eq_zero (h : t.Ordered b e f) {p : Int} (hl : b ≤ p) (hu : p < e)
    (hopen : (t.bufferAt p).finished = false) : (t.bufferAt p).expiration = 0 := by
  by_cases hp : p < f
  · exact absurd (hopen.symm.trans (h.sent p hl hp).finished) (by decide)
  · exact (h.unsent p (by omega) hu).expiration

/-- What the scan settles on is due when its time has come. -/
theorem Ordered.found_due (h : t.Ordered b e f) {time : Uptime} {found : SeqNum × Uptime}
    {stop : Int} (hscan : t.Scans b e (t.outRing.end_, time) stop found)
    (hin : t.outRing.contains found.1 = true) (hdue : found.2 ≤ now) :
    ∃ p, found.1 = .ofPos p ∧ b ≤ p ∧ p < e ∧ (t.bufferAt p).expiration ≤ now := by
  have hbs := hscan.le_stop
  have hse := hscan.stop_le
  rcases hscan.found with ⟨rfl, hlt, -, -, hready⟩ | ⟨-, rfl | ⟨q, hl, hu, -, rfl⟩⟩
  · refine ⟨stop, rfl, hbs, hlt, ?_⟩
    have hzero : (t.bufferAt stop).expiration = 0 := by
      rcases hready with hopen | hzero
      · exact h.expiration_eq_zero hbs hlt hopen
      · exact hzero
    rw [hzero]
    exact Nat.zero_le now
  · have hcap := capacity_le n
    have hus := h.spans.used
    have hle := h.spans.le
    rw [h.spans.end_eq, h.spans.contains_iff (by omega) (by omega)] at hin
    omega
  · exact ⟨q, rfl, hl, by omega, hdue⟩

private theorem Scheduled.found_of_flushed {found : SeqNum × Uptime} {stop : Int}
    (h : t.Scheduled b e f) (hscan : t.Scans b e (t.outRing.end_, uptimeMax) stop found)
    (hlt : b < e) (hfl : (t.bufferAt b).flushed = true) (hacked : (t.bufferAt b).acked = false)
    (hbelow : SeqNum.ofPos b < t.recvHimark) (hdue : (t.bufferAt b).expiration ≤ now)
    (hnow : now < uptimeMax) : t.outRing.contains found.1 = true ∧ found.2 ≤ now := by
  -- otherwise the scan would have passed the first packet with its timer running
  by_contra hno
  have hn : t.NothingDue b e now 0 (min 0 (found.2 - now)) stop found :=
    ⟨hscan, fun hin ↦ ⟨by by_contra hle; exact hno ⟨hin, not_lt.mp hle⟩, rfl⟩⟩
  have hpassed := h.passed hn hlt hbelow hfl
  have hlater := (h.timer hn le_rfl hpassed hacked (lt_of_le_of_lt hdue hnow)).1
  exact absurd hlater (not_lt.mpr hdue)

private theorem Scheduled.open_of_not_flushed (h : t.Scheduled b e f) (hlt : b < e)
    (hfl : (t.bufferAt b).flushed = false) : (t.bufferAt b).finished = false := by
  by_contra hfin
  have := h.timed.flagged.finished b le_rfl hlt (by simpa using hfin)
  exact absurd (hfl.symm.trans this) (by decide)

-- the first packet is the only one and open, and the scan passes over it
private theorem Scheduled.not_found_of_open {time : Uptime} {found : SeqNum × Uptime} {stop : Int}
    (h : t.Scheduled b e f) (hscan : t.Scans b e (t.outRing.end_, time) stop found) (hlt : b < e)
    (hfl : (t.bufferAt b).flushed = false) (hacked : (t.bufferAt b).acked = false) :
    ¬ t.outRing.contains found.1 = true := by
  intro hin
  have hlast := (h.timed.flagged.open_last b le_rfl hlt hfl).1
  have hbs := hscan.le_stop
  have hse := hscan.stop_le
  rcases hscan.found with ⟨rfl, hs, -, hflushed, -⟩ | ⟨-, rfl | ⟨q, hl, hu, -⟩⟩
  · obtain rfl : stop = b := by omega
    exact absurd (hfl.symm.trans hflushed) (by decide)
  · have hspans := h.ordered.spans
    have hcap := capacity_le n
    have hus := hspans.used
    rw [hspans.end_eq, hspans.contains_iff (by omega) (by omega)] at hin
    omega
  · have hzero := h.ordered.expiration_eq_zero le_rfl hlt (h.open_of_not_flushed hlt hfl)
    rcases (hscan.passed b le_rfl (by omega)).2 with hmarked | ⟨hne, -⟩
    · exact absurd (hacked.symm.trans hmarked) (by decide)
    · exact hne hzero

/-- A connected stream whose first packet is due sends a packet that is due. -/
theorem Scheduled.sends (h : t.Scheduled b e f) (hst : t.state = .connected) (hlt : b < e)
    (hacked : (t.bufferAt b).acked = false) (hbelow : SeqNum.ofPos b < t.recvHimark)
    (hdue : (t.bufferAt b).expiration ≤ now) (hnow : now < uptimeMax) (draw next : Nat) :
    ∃ p, b ≤ p ∧ p < e ∧ (t.bufferAt p).expiration ≤ now ∧ t.getBufferToSend now draw next =
      (t.handOut (.ofPos p) (finishBuffer (t.bufferAt p)) now draw, some (.ofPos p), 0) := by
  have hspans := h.ordered.spans
  have hused := hspans.slotsUsed_eq
  unfold Transmitter.getBufferToSend
  rw [if_neg (not_not.mpr hst)]
  rcases h.ordered.sendNext h.follows now draw with hnone | ⟨hfe, hfirst⟩
  swap
  · have hzero := (h.ordered.unsent f le_rfl hfe).expiration
    rw [hfirst]
    exact ⟨f, h.ordered.begin_le, hfe, hzero.le.trans (Nat.zero_le now), rfl⟩
  rw [hnone]
  dsimp only
  obtain ⟨stop, hscan⟩ := scan_scans hspans t.outRing.slotsUsed b (t.outRing.end_, uptimeMax) le_rfl
    (by omega)
  unfold sendEarliest
  rw [← hspans.begin_eq] at hscan
  revert hscan
  generalize t.scan t.outRing.slotsUsed t.outRing.begin_ t.outRing.end_ uptimeMax = found
  intro hscan
  dsimp only
  cases hfl : (t.bufferAt b).flushed with
  | true =>
    obtain ⟨hin, htime⟩ := h.found_of_flushed hscan hlt hfl hacked hbelow hdue hnow
    obtain ⟨p, hp, hl, hu, hpdue⟩ := h.ordered.found_due hscan hin htime
    rw [if_pos hin, if_neg (not_lt.mpr htime), hp, getOutBuffer_ofPos]
    exact ⟨p, hl, hu, hpdue, rfl⟩
  | false =>
    -- a lone open packet: the scan finds nothing, and the packet is flushed and sent
    have hlast := (h.timed.flagged.open_last b le_rfl hlt hfl).1
    have hopen := h.open_of_not_flushed hlt hfl
    have hmark : ¬ t.outRing.begin_.Ge t.recvHimark := by
      rw [hspans.begin_eq]
      exact fun hge ↦ absurd hbelow (not_lt.mpr hge)
    rw [if_neg (h.not_found_of_open hscan hlt hfl hacked),
      if_neg (by rw [not_or, not_not]; exact ⟨by omega, hmark⟩), hspans.begin_eq,
      getOutBuffer_ofPos, if_neg (by simp [hopen])]
    refine ⟨b, le_rfl, hlt, hdue, ?_⟩
    rw [finishBuffer, if_neg (by simp [hopen])]

end Transmitter

namespace Lane

variable {m n : LinkBufferSize}

/-- The regular calls of both ends up to the time `T`, and deliveries. -/
def Undisturbed (T : Uptime) (_ : Lane m n) : Wire.Act → Prop
  | .getBufferToSend now draw _ => now ≤ T ∧ draw ≤ randomIntegerMax
  | .updateRecvHimark now _ => now ≤ T
  | .tryRead _ | .ack | .deliverToRx | .deliverToTx => True
  | _ => False

section

variable {l l' : Lane m n} {s : Int} {controlBit : Bool} {b e f k rb u re : Int} {d T : Uptime}
  {log : Int → List UInt8} {fin : Option Int}

private theorem Undisturbed.mono {T' : Uptime} {a : Wire.Act} (h : l.Undisturbed T a)
    (hT : T ≤ T') : l.Undisturbed T' a := by
  cases a with
  | getBufferToSend now draw next => exact ⟨h.1.trans hT, h.2⟩
  | updateRecvHimark now next => exact le_trans h hT
  | _ => exact h

/-- Nothing is written or closed. -/
theorem undisturbed_same (hr : Reachable step (Undisturbed T) l l') :
    l'.accepted = l.accepted ∧ l'.closed = l.closed := by
  apply hr.invariant (fun l' ↦ l'.accepted = l.accepted ∧ l'.closed = l.closed) ⟨rfl, rfl⟩
  intro l1 a l2 hsame hg hs
  obtain ⟨w, -, rfl⟩ := map_eq_ok.mp hs
  have htaken : taken l1.wire a = [] := by
    cases a with
    | tryWrite => exact hg.elim
    | _ => rfl
  have hclose : a ≠ .close := by
    rintro rfl
    exact hg
  simp only [htaken, List.append_nil, hclose, decide_false, Bool.or_false]
  exact hsame

/-! ### Data on its way -/

/-- The slots whose timer has run out at `T`. -/
def due (tx : Transmitter m) (T : Uptime) : Finset (Fin (2 ^ m.val)) :=
  Finset.univ.filter fun i ↦ (tx.outBuffers i).expiration ≤ T

/-- A packet that is sent is not due again at once. -/
theorem due_handOut (tx : Transmitter m) (p : Int) (x : OutBuffer) {draw : Nat}
    (hdraw : draw ≤ randomIntegerMax) :
    due (tx.handOut (.ofPos p) x T draw) T = (due tx T).erase (slotAt m p) := by
  ext i
  rw [Finset.mem_erase, due, due, Finset.mem_filter, Finset.mem_filter, Transmitter.handOut_ofPos]
  by_cases hi : i = slotAt m p
  · have hlater := x.lt_expiration_markSent T hdraw
    simpa [hi, Transmitter.withBuffer] using hlater
  · simp [hi, Transmitter.withBuffer]

/-- The first packet of the window is sent within a few calls, once it is due. -/
theorem Linked.send_front (hst : l.wire.tx.state = .connected) (hbe : b < e) (hbk : b < k)
    (hT : T < uptimeMax) (hd : T + 2 ^ 32 ≤ d)
    (h : l.Linked s controlBit b e f k rb u re d log fin)
    (hdue : (l.wire.tx.bufferAt b).expiration ≤ T) :
    Leads step (Undisturbed T) l fun l' ↦ ∃ f' front,
      l'.Linked s controlBit b e f' k rb u re d log fin ∧ l'.wire.rx = l.wire.rx ∧
      l'.wire.toTx = l.wire.toTx ∧ l'.wire.tx.hasPendingEof = l.wire.tx.hasPendingEof ∧
      l'.wire.toRx = front ++ [Sent.ofLog log fin controlBit b] := by
  -- every other packet that is sent is one less that is due
  induction hc : (due l.wire.tx T).card using Nat.strong_induction_on generalizing l f with
  | _ c ih =>
  have hcap := capacity_le m
  have hus := h.tx.spans.used
  have hfar := h.tx.credit.le_end
  have hacked : (l.wire.tx.bufferAt b).acked = false := by
    by_contra hno
    exact h.front b le_rfl hbe (by simpa using hno) rfl
  have hbelow : SeqNum.ofPos b < l.wire.tx.recvHimark := by
    rw [h.tx.credit.himark_eq, SeqNum.ofPos_lt (by omega) (by omega)]
    exact hbk
  obtain ⟨p, hl, hu, hpdue, heq⟩ :=
    h.tx.scheduled.sends hst hbe hacked hbelow hdue hT 0 0
  have hguard : l.Undisturbed T (.getBufferToSend T 0 0) := ⟨le_rfl, Nat.zero_le _⟩
  refine (Leads.one hguard (h.getBufferToSend hd 0 0)).trans ?_
  rintro l1 ⟨f', h1, hrx, htoTx, htx, hsent⟩
  have htoRx := hsent p hl hu (by rw [heq])
  rw [heq] at htx
  have hsame : l1.wire.tx.state = l.wire.tx.state ∧
      l1.wire.tx.hasPendingEof = l.wire.tx.hasPendingEof := by
    rw [htx, Transmitter.handOut_ofPos]
    exact ⟨rfl, rfl⟩
  by_cases hp : p = b
  · rw [hp] at htoRx
    exact .here ⟨f', l.wire.toRx, h1, hrx, htoTx, hsame.2, htoRx⟩
  have hless : (due l1.wire.tx T).card < c := by
    rw [htx, due_handOut _ p _ (Nat.zero_le _), ← hc]
    apply Finset.card_erase_lt_of_mem
    rw [due, Finset.mem_filter]
    exact ⟨Finset.mem_univ _, hpdue⟩
  have hkept : l1.wire.tx.bufferAt b = l.wire.tx.bufferAt b := by
    rw [htx, Transmitter.handOut_ofPos]
    exact Transmitter.bufferAt_withBuffer_ne _ _ (Ne.symm hp) (by omega) (by omega)
  refine (ih _ hless (hsame.1.trans hst) h1 (by rw [hkept]; exact hdue) rfl).trans ?_
  rintro l2 ⟨f2, front, h2, hrx2, htoTx2, hpend2, htoRx2⟩
  exact .here ⟨f2, front, h2, hrx2.trans hrx, htoTx2.trans htoTx, hpend2.trans hsame.2, htoRx2⟩

/-- A packet of the window is not taken for a packet without data. -/
theorem Linked.not_blank (h : l.Linked s controlBit b e f k rb u re d log fin)
    (hst : l.wire.tx.state = .connected) (hbe : b < e) :
    ¬ ((Sent.ofLog log fin controlBit b).type = some .data ∧
      (Sent.ofLog log fin controlBit b).bytes.length = 2) := by
  have hsized := (h.tx.shaped b le_rfl hbe).sizedPacket
  rw [h.tx.sender.source.data_eq hst le_rfl hbe, h.txBit] at hsized
  rintro ⟨htype, hlen⟩
  dsimp only [Sent.ofLog] at hlen
  rcases hsized with ⟨-, hlong, -⟩ | ⟨hfin, -⟩
  · omega
  · exact absurd (hfin.symm.trans htype) (by decide)

/-- All data under way arrives. If the first packet of the window comes last, the receiver has
it in the end, and says so. -/
theorem Linked.deliver_data {front : List Sent}
    (h : l.Linked s controlBit b e f k rb u re d log fin)
    (hq : l.wire.toRx = front ++ [Sent.ofLog log fin controlBit b]) (hroom : b < rb + 2 ^ n.val)
    (hblank : ¬ ((Sent.ofLog log fin controlBit b).type = some .data ∧
      (Sent.ofLog log fin controlBit b).bytes.length = 2)) :
    Leads step (Undisturbed T) l fun l' ↦ ∃ u' re',
      l'.Linked s controlBit b e f k rb u' re' d log fin ∧ l'.wire.tx = l.wire.tx ∧
      l'.wire.toRx = [] ∧ l'.wire.toTx = l.wire.toTx ∧ b < u' ∧ l'.wire.rx.needsAck = true := by
  induction front generalizing l u re with
  | nil =>
    refine (Leads.one trivial (h.deliverToRx hq)).trans ?_
    rintro l1 ⟨u', re', h1, -, htx, htoRx, htoTx, -, hnoted⟩
    obtain ⟨hbu, hneeds⟩ := hnoted rfl hroom hblank
    exact .here ⟨u', re', h1, htx, htoRx, htoTx, hbu, hneeds⟩
  | cons x front ih =>
    refine (Leads.one trivial (h.deliverToRx hq)).trans ?_
    rintro l1 ⟨u', re', h1, -, htx, htoRx, htoTx, -⟩
    refine (ih h1 htoRx).trans ?_
    rintro l2 ⟨u2, re2, h2, htx2, htoRx2, htoTx2, hrest⟩
    exact .here ⟨u2, re2, h2, htx2.trans htx, htoRx2, htoTx2.trans htoTx, hrest⟩

/-! ### Notices on their way -/

/-- All notices under way arrive. What the last one says is then known. -/
theorem Linked.deliver_notices {front : List Sent} {x : Sent}
    (h : l.Linked s controlBit b e f k rb u re d log fin) (hq : l.wire.toTx = front ++ [x]) :
    Leads step (Undisturbed T) l fun l' ↦ ∃ b' e' k' fin',
      l'.Linked s controlBit b' e' f k' rb u re d log fin' ∧ b ≤ b' ∧ e ≤ e' ∧
      l'.wire.tx.finalEnd e' ≤ l.wire.tx.finalEnd e ∧
      (∀ bitmap, x = (Notice.ack u bitmap).packet (!controlBit) → u ≤ b') ∧
      (x = (Notice.himark (rb + 2 ^ n.val)).packet (!controlBit) → rb + 2 ^ n.val < b + 2048 →
        l'.wire.tx.state = .connected → k' = rb + 2 ^ n.val) := by
  induction front generalizing l b e k fin with
  | nil =>
    refine (Leads.one trivial (h.deliverToTx hq)).trans ?_
    rintro l1 ⟨b', e', k', fin', h1, hb, he, hend, -, -, -, -, hconn, hack, himark⟩
    exact .here ⟨b', e', k', fin', h1, hb, he, hend, hack, fun hx hnear hst ↦
      (himark _ hx h.himark_le le_rfl hnear (hconn hst)).symm⟩
  | cons y front ih =>
    refine (Leads.one trivial (h.deliverToTx hq)).trans ?_
    rintro l1 ⟨b', e', k', fin', h1, hb, he, hend, -, -, -, htoTx, -⟩
    refine (ih h1 htoTx).trans ?_
    rintro l2 ⟨b2, e2, k2, fin2, h2, hb2, he2, hend2, hack, himark⟩
    exact .here ⟨b2, e2, k2, fin2, h2, hb.trans hb2, he.trans he2, hend2.trans hend, hack,
      fun hx hnear ↦ himark hx (by omega)⟩

/-! ### Rounds -/

/-- A round with credit: the first packet of the window is sent and acknowledged. -/
theorem Linked.exchange (h : l.Linked s controlBit b e f k rb u re d log fin)
    (hst : l.wire.tx.state = .connected) (hbe : b < e) (hbk : b < k) (hd : d < uptimeMax) :
    Leads step (Undisturbed d) l fun l' ↦ ∃ b' e' f' k' u' re' fin',
      l'.Linked s controlBit b' e' f' k' rb u' re' (d + 2 ^ 32) log fin' ∧ b < b' ∧
      l'.wire.tx.finalEnd e' ≤ l.wire.tx.finalEnd e := by
  have hroom := h.himark_le
  refine ((h.mono (Nat.le_add_right d (2 ^ 32))).send_front hst hbe hbk hd le_rfl
    (h.tx.dueBy b le_rfl hbe)).trans ?_
  rintro l1 ⟨f', front, h1, -, -, hpend, htoRx⟩
  refine (h1.deliver_data htoRx (by omega) (h.not_blank hst hbe)).trans ?_
  rintro l2 ⟨u', re', h2, htx2, -, -, hbu, hneeds⟩
  refine (Leads.one trivial h2.ack).trans ?_
  rintro l3 ⟨h3, htx3, -, hack⟩
  obtain ⟨bitmap, htoTx⟩ := hack hneeds
  refine (h3.deliver_notices htoTx).trans ?_
  rintro l4 ⟨b', e', k', fin', h4, -, -, hend, hacked, -⟩
  have hfirst := hacked bitmap rfl
  rw [htx3, htx2, Transmitter.finalEnd, Transmitter.finalEnd, hpend] at hend
  exact .here ⟨b', e', f', k', u', re', fin', h4, by omega, hend⟩

/-- The final packet may lie past the credit. Everything there is to read is then read, and the
mark that follows covers it. -/
theorem Linked.renew (h : l.Linked s controlBit b e f k rb u re d log fin) (hkb : k ≤ b) :
    Leads step (Undisturbed d) l fun l' ↦ ∃ b' e' k' rb' fin',
      l'.Linked s controlBit b' e' f k' rb' u re (d + 2 ^ 32) log fin' ∧ b ≤ b' ∧ e ≤ e' ∧
      l'.wire.tx.finalEnd e' ≤ l.wire.tx.finalEnd e ∧
      (l'.wire.tx.state = .connected → b < k') := by
  have hone := one_le_capacity n
  have hcap := capacity_le n
  have hbu := h.acked
  have hue := h.rx.sink.window.le_end
  have hrec := h.received
  have hfe := h.tx.scheduled.ordered.le_end
  have hend := h.tx.credit.end_le
  refine (Leads.one trivial (h.tryRead (248 * (u - rb).toNat + 1))).trans ?_
  rintro l1 ⟨rb', h1, -, hall, htx1, -, -⟩
  obtain rfl : rb' = u := hall (by have := h.rx.sink.window.begin_le; omega)
  have hguard : l1.Undisturbed d (.updateRecvHimark d 0) := le_refl d
  have hnow : d + 100000 ≤ d + 2 ^ 32 := Nat.add_le_add_left (by norm_num) d
  have hupdate := (h1.mono (Nat.le_add_right d (2 ^ 32))).updateRecvHimark hnow 0
  refine (Leads.one hguard hupdate).trans ?_
  rintro l2 ⟨h2, htx2, -, hnotice⟩
  refine (h2.deliver_notices (hnotice h1.rx.dueBy)).trans ?_
  rintro l3 ⟨b', e', k', fin', h3, hb, he, hfinal, -, himark⟩
  rw [htx2, htx1] at hfinal
  refine .here ⟨b', e', k', rb', fin', h3, hb, he, hfinal, fun hst ↦ ?_⟩
  have := himark rfl (by omega) hst
  omega

/-- A round: the start of the window moves while there is anything in it. -/
theorem Linked.advance (h : l.Linked s controlBit b e f k rb u re d log fin)
    (hst : l.wire.tx.state = .connected) (hbe : b < e) (hd : d + 2 ^ 32 < uptimeMax) :
    Leads step (Undisturbed (d + 2 ^ 32)) l fun l' ↦ ∃ b' e' f' k' rb' u' re' fin',
      l'.Linked s controlBit b' e' f' k' rb' u' re' (d + 2 ^ 33) log fin' ∧ b < b' ∧
      l'.wire.tx.finalEnd e' ≤ l.wire.tx.finalEnd e := by
  have hdd : d ≤ d + 2 ^ 32 := Nat.le_add_right d _
  have hsum : d + 2 ^ 32 + 2 ^ 32 = d + 2 ^ 33 := by ring
  by_cases hbk : b < k
  · refine (((h.mono hdd).exchange hst hbe hbk hd)).trans ?_
    rintro l1 ⟨b', e', f', k', u', re', fin', h1, hb, hend⟩
    exact .here ⟨b', e', f', k', rb, u', re', fin', hsum ▸ h1, hb, hend⟩
  refine ((h.renew (not_lt.mp hbk)).mono fun _ _ hg ↦ hg.mono hdd).trans ?_
  rintro l1 ⟨b1, e1, k1, rb1, fin1, h1, hb1, he1, hend1, hcredit⟩
  by_cases hmoved : b < b1
  · exact .here ⟨b1, e1, f, k1, rb1, u, re, fin1,
      h1.mono (Nat.add_le_add_left (by norm_num) d), hmoved, hend1⟩
  obtain rfl : b1 = b := by omega
  -- nothing was acknowledged meanwhile, so the stream is not over
  have hst1 : l1.wire.tx.state = .connected := by
    apply h1.tx.sender.source.phase.resolve_right
    intro hidle
    have := (h1.tx.drained hidle).1
    omega
  refine (h1.exchange hst1 (by omega) (hcredit hst1) hd).trans ?_
  rintro l2 ⟨b2, e2, f2, k2, u2, re2, fin2, h2, hb2, hend2⟩
  exact .here ⟨b2, e2, f2, k2, rb1, u2, re2, fin2, hsum ▸ h2, hb2, hend2.trans hend1⟩

/-- Round after round, all that is queued is acknowledged. -/
theorem Linked.drain (c : Nat) (h : l.Linked s controlBit b e f k rb u re d log fin)
    (hc : l.wire.tx.finalEnd e - b ≤ c) (hd : d + c * 2 ^ 33 < uptimeMax) :
    Leads step (Undisturbed (d + c * 2 ^ 33)) l fun l' ↦ ∃ e' f' k' rb' u' re' d' fin',
      l'.Linked s controlBit e' e' f' k' rb' u' re' d' log fin' := by
  induction c generalizing l b e f k rb u re d fin with
  | zero =>
    have hle := h.tx.spans.le
    have hend := l.wire.tx.le_finalEnd e
    obtain rfl : b = e := by push_cast at hc; omega
    exact .here ⟨b, f, k, rb, u, re, d, fin, h⟩
  | succ c ih =>
    have hle := h.tx.spans.le
    have hsum : d + 2 ^ 33 + c * 2 ^ 33 = d + (c + 1) * 2 ^ 33 := by ring
    rcases eq_or_lt_of_le hle with rfl | hbe
    · exact .here ⟨b, f, k, rb, u, re, d, fin, h⟩
    have hst : l.wire.tx.state = .connected := by
      apply h.tx.sender.source.phase.resolve_right
      intro hidle
      have := (h.tx.drained hidle).1
      omega
    have hearly : d + 2 ^ 32 ≤ d + (c + 1) * 2 ^ 33 := by
      rw [← hsum]
      exact (Nat.add_le_add_left (by norm_num) d).trans (Nat.le_add_right _ _)
    have hadvance := h.advance hst hbe (lt_of_le_of_lt hearly hd)
    refine (hadvance.mono fun _ _ hg ↦ hg.mono hearly).trans ?_
    rintro l1 ⟨b1, e1, f1, k1, rb1, u1, re1, fin1, h1, hb1, hend1⟩
    have hrest := ih h1 (by push_cast at hc; omega) (by rw [hsum]; exact hd)
    rw [hsum] at hrest
    exact hrest

/-- Once all is acknowledged, all can be read, and a stream that was closed is over. -/
theorem Linked.finish (h : l.Linked s controlBit e e f k rb u re d log fin) :
    Leads step (Undisturbed T) l fun l' ↦ l'.read = l.accepted ∧
      (l.closed = true → l'.wire.rx.endOfStream = true ∧ l'.wire.tx.state = .idle) := by
  have hbu := h.acked
  have hue := h.rx.sink.window.le_end
  have hrec := h.received
  have hfe := h.tx.scheduled.ordered.le_end
  obtain rfl : u = e := by omega
  have hguard : l.Undisturbed T (.tryRead (248 * (u - rb).toNat + 1)) := trivial
  have hread := h.tryRead (248 * (u - rb).toNat + 1)
  obtain ⟨l1, hs, rb', h1, -, hall, htx, -⟩ := hread
  obtain rfl : rb' = u := hall (by have := h.rx.sink.window.begin_le; omega)
  have hsame := undisturbed_same (Reachable.next .start hguard hs)
  refine ⟨l1, .next .start hguard hs, (h1.read_all rfl).trans hsame.1, fun hcl ↦ ?_⟩
  have hidle : l1.wire.tx.state = .idle := by
    by_contra hno
    have hst := h1.tx.sender.source.phase.resolve_right hno
    rcases h1.ending (hsame.2.trans hcl) with heos | hfin
    · exact absurd (h1.tx.alive hst heos) (lt_irrefl _)
    · obtain ⟨x, hx⟩ := Option.ne_none_iff_exists'.mp hfin
      have hclosed := (h1.tx.sender.source.final x hx).2.2.1
      have heos : l1.wire.tx.endOfStream = true := by
        by_contra hopen
        exact hclosed ⟨by simpa using hopen, by simp [hst], by simp [hst]⟩
      exact absurd (h1.tx.alive hst heos) (lt_irrefl _)
  exact ⟨h1.rx.exhausted (h1.tx.drained hidle).2, hidle⟩

/-- All that was written was read, and if the stream was closed both ends know. -/
structure Complete (l : Lane m n) : Prop where
  read : l.read = l.accepted
  closed : l.closed = true → l.wire.rx.endOfStream = true ∧ l.wire.tx.state = .idle

/-- From wherever the ends are, some regular calls and deliveries complete the stream. -/
theorem Sound.completes (h : l.Sound s controlBit d) (hd : d + 1025 * 2 ^ 33 < T)
    (hT : T ≤ uptimeMax) : Leads Lane.step (Undisturbed T) l Complete := by
  obtain ⟨b, e, f, k, rb, u, re, log, fin, h⟩ := h
  have hcap := capacity_le m
  have hus := h.tx.spans.used
  have hend : l.wire.tx.finalEnd e ≤ e + 1 := l.wire.tx.finalEnd_le e
  have hdrain := (h.drain 1025 (by push_cast; omega) (hd.trans_le hT)).mono fun _ _ hg ↦
    hg.mono hd.le
  obtain ⟨l1, hr1, e1, f1, k1, rb1, u1, re1, d1, fin1, h1⟩ := hdrain
  obtain ⟨l2, hr2, hread, hover⟩ := h1.finish (T := T)
  have hsame := undisturbed_same hr2
  exact ⟨l2, hr1.trans hr2, hread.trans hsame.1.symm, fun hcl ↦ hover (hsame.2.symm.trans hcl)⟩

/-- A stream that is over stays so. -/
theorem Linked.stays_over {a : Wire.Act} (h : l.Linked s controlBit b e f k rb u re d log fin)
    (heos : l.wire.rx.endOfStream = true) (hidle : l.wire.tx.state = .idle)
    (hg : l.Undisturbed T a) (hd : clock a + 2 ^ 32 ≤ d) (hs : l.step a = .ok l') :
    l'.wire.rx.endOfStream = true ∧ l'.wire.tx.state = .idle := by
  have hfin := h.rx.sink.ended heos
  have hnot : l.wire.tx.state ≠ .connected := by simp [hidle]
  cases a with
  | getBufferToSend now draw next =>
    obtain ⟨l1, hok, f', h1, hrx, -, htx, -⟩ := h.getBufferToSend hd draw next
    obtain rfl : l1 = l' := Except.ok.inj (hok.symm.trans hs)
    rw [Transmitter.getBufferToSend, if_pos hnot] at htx
    rw [hrx, htx]
    exact ⟨heos, hidle⟩
  | updateRecvHimark now next =>
    have hnow : now + 100000 ≤ d := le_trans (Nat.add_le_add_left (by norm_num) now) hd
    obtain ⟨l1, hok, h1, htx, -⟩ := h.updateRecvHimark hnow next
    obtain rfl : l1 = l' := Except.ok.inj (hok.symm.trans hs)
    exact ⟨h1.rx.exhausted hfin, htx ▸ hidle⟩
  | tryRead count =>
    obtain ⟨l1, hok, rb', h1, hb, -, htx, -⟩ := h.tryRead count
    obtain rfl : l1 = l' := Except.ok.inj (hok.symm.trans hs)
    -- nothing is left to release
    have hlast := (h.tx.sender.source.final _ hfin).1
    have hle := h1.rx.sink.window.spans.le
    have hrec := h1.received
    have hfe := h1.tx.scheduled.ordered.le_end
    obtain rfl : rb' = rb := by omega
    exact ⟨h1.rx.exhausted hfin, htx ▸ hidle⟩
  | ack =>
    obtain ⟨l1, hok, h1, htx, -⟩ := h.ack
    obtain rfl : l1 = l' := Except.ok.inj (hok.symm.trans hs)
    exact ⟨h1.rx.exhausted hfin, htx ▸ hidle⟩
  | deliverToRx =>
    cases hx : l.wire.toRx with
    | nil =>
      rw [Lane.step, Wire.step, hx] at hs
      obtain rfl := Except.ok.inj hs
      exact ⟨heos, hidle⟩
    | cons x rest =>
      obtain ⟨l1, hok, u', re', h1, -, htx, -⟩ := h.deliverToRx hx
      obtain rfl : l1 = l' := Except.ok.inj (hok.symm.trans hs)
      exact ⟨h1.rx.exhausted hfin, htx ▸ hidle⟩
  | deliverToTx =>
    cases hx : l.wire.toTx with
    | nil =>
      rw [Lane.step, Wire.step, hx] at hs
      obtain rfl := Except.ok.inj hs
      exact ⟨heos, hidle⟩
    | cons x rest =>
      obtain ⟨l1, hok, b', e', k', fin', h1, -, -, -, -, hrx, -, -, hconn, -⟩ := h.deliverToTx hx
      obtain rfl : l1 = l' := Except.ok.inj (hok.symm.trans hs)
      refine ⟨hrx ▸ heos, h1.tx.sender.source.phase.resolve_left fun hst ↦ hnot (hconn hst)⟩
  | _ => exact hg.elim

/-- What is complete stays so. -/
theorem Complete.step {a : Wire.Act} (h : l.Complete) (hl : l.Sound s controlBit d)
    (hg : l.Undisturbed T a) (hd : clock a + 2 ^ 32 ≤ d) (hs : l.step a = .ok l') :
    l'.Complete := by
  have hsame := undisturbed_same (Reachable.next .start hg hs)
  have hopen : l.InputOpen a := by
    rintro rfl
    exact hg
  constructor
  · obtain ⟨l1, hok, b, e, f, k, rb, u, re, log, fin, h1⟩ := hl.step hopen hd
    obtain rfl : l1 = l' := Except.ok.inj (hok.symm.trans hs)
    have hpre := h1.read_prefix
    rw [hsame.1, ← h.read] at hpre ⊢
    obtain ⟨w, -, rfl⟩ := map_eq_ok.mp hs
    exact hpre.eq_of_length_le (by simp)
  · intro hcl
    obtain ⟨b, e, f, k, rb, u, re, log, fin, hl⟩ := hl
    obtain ⟨heos, hidle⟩ := h.closed (hsame.2.symm.trans hcl)
    exact hl.stays_over heos hidle hg hd hs

/-- A lane that is complete stays so. -/
theorem Complete.run (h : l.Complete) (hl : l.Sound s controlBit d) (hd : T + 2 ^ 32 ≤ d)
    (hr : Reachable Lane.step (Undisturbed T) l l') : l'.Complete := by
  have hboth : l'.Complete ∧ l'.Sound s controlBit d := by
    refine hr.invariant (fun l : Lane m n ↦ l.Complete ∧ l.Sound s controlBit d) ⟨h, hl⟩ ?_
    rintro l1 a l2 ⟨h1, hl1⟩ hg hs
    have hclock : clock a + 2 ^ 32 ≤ d := by
      refine (Nat.add_le_add_right ?_ _).trans hd
      cases a with
      | getBufferToSend now draw next => exact hg.1
      | updateRecvHimark now next => exact hg
      | _ => exact Nat.zero_le T
    have hopen : l1.InputOpen a := by
      rintro rfl
      exact hg
    obtain ⟨l3, hok, hl3⟩ := hl1.step hopen hclock
    obtain rfl : l3 = l2 := Except.ok.inj (hok.symm.trans hs)
    exact ⟨h1.step hl1 hg hclock hs, hl3⟩
  exact hboth.1

end

/-! ### Every run -/

/-- Any step before the time `H` that leaves the reader's end open. -/
def Until (H : Uptime) (l : Lane m n) (a : Wire.Act) : Prop := l.InputOpen a ∧ clock a ≤ H

instance (H : Uptime) (l : Lane m n) (a : Wire.Act) : Decidable (l.Until H a) :=
  inferInstanceAs (Decidable (_ ∧ _))

/-- Wherever a run over a lossy medium has got by the time `H`, there are regular calls of both
ends, with clock readings up to `H + 2 ^ 44`, and deliveries of what they post after which
everything accepted was read, and if the stream was closed, both ends have met its end. -/
theorem never_stuck {l0 l : Lane m n} {txStreamId rxStreamId : UInt32} {seq : SeqNum}
    {controlBit : Bool} {H : Uptime} (hH : H + 2 ^ 44 ≤ uptimeMax)
    (h0 : start m n txStreamId rxStreamId seq controlBit = .ok l0)
    (hr : Reachable step (Until H) l0 l) :
    ∃ l', Reachable step (Undisturbed (H + 2 ^ 44)) l l' ∧ l'.accepted = l.accepted ∧
      l'.read = l.accepted ∧
      (l.closed = true → l'.wire.rx.endOfStream = true ∧ l'.wire.tx.state = .idle) := by
  have h : l.Sound seq.raw.toNat controlBit (H + 2 ^ 32) := by
    refine hr.invariant (fun l : Lane m n ↦ l.Sound seq.raw.toNat controlBit (H + 2 ^ 32))
      (sound_start h0 _) ?_
    intro l1 a l2 h1 hg hs
    obtain ⟨l', hok, h2⟩ := h1.step hg.1 (Nat.add_le_add_right hg.2 _)
    obtain rfl : l' = l2 := Except.ok.inj (hok.symm.trans hs)
    exact h2
  have htime : H + 2 ^ 32 + 1025 * 2 ^ 33 < H + 2 ^ 44 := by
    rw [Nat.add_assoc]
    exact Nat.add_lt_add_left (by norm_num) H
  obtain ⟨l', hr', hread, hover⟩ := h.completes htime hH
  have hsame := undisturbed_same hr'
  exact ⟨l', hr', hsame.1, hread.trans hsame.1, fun hcl ↦ hover (hsame.2.trans hcl)⟩

/-- The data of a stream is lost, and so is the notice that only its end arrived. -/
theorem never_stuck_after_losses : ∃ l l' : Lane 1 1,
    Reachable step (Until 5000000) (connectedAtZero 1 1) l ∧ l.wire.toRx = [] ∧ l.wire.toTx = [] ∧
      l.accepted = [7, 8] ∧ l.read = [] ∧ l.closed = true ∧
      Reachable step (Undisturbed (5000000 + 2 ^ 44)) l l' ∧ l'.read = [7, 8] ∧
      l'.wire.rx.endOfStream = true ∧ l'.wire.tx.state = .idle := by
  obtain ⟨l, hl, ht⟩ := Reachable.of_test step (Until 5000000) (connectedAtZero 1 1)
    [.tryWrite [7, 8], .close, .getBufferToSend 0 0 0, .loseToRx 0, .getBufferToSend 0 0 0,
      .deliverToRx, .ack, .loseToTx 0]
    (fun l ↦ l.wire.toRx.length = 0 ∧ l.wire.toTx.length = 0 ∧ l.accepted = [7, 8] ∧
      l.read = [] ∧ l.closed = true) (by decide) (by decide)
  obtain ⟨htoRx, htoTx, hacc, hread, hcl⟩ := of_decide_eq_true ht
  have hstart : start 1 1 1 2 ⟨0⟩ false = .ok (connectedAtZero 1 1) := rfl
  obtain ⟨l', hr, -, hall, hover⟩ := never_stuck (by norm_num [uptimeMax]) hstart hl
  exact ⟨l, l', hl, List.length_eq_zero_iff.mp htoRx, List.length_eq_zero_iff.mp htoTx, hacc, hread,
    hcl, hr, hall.trans hacc, hover hcl⟩

end Lane

end RooTransport.Link
