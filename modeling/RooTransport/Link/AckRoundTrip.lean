import RooTransport.Link.Channel
import RooTransport.Link.Pair

/-!
# Acknowledgements read back

`Receiver::ack` (`receiver.cpp:195–229`) against `Transmitter::ack` (`transmitter.cpp:222–295`):
the transmitter drops the positions below the one acknowledged, and marks the positions that the
receiver holds past it, as far as the bitmap reaches.
-/

namespace RooTransport.Link

open RooTransport.Base RingBuffer

variable {m n : LinkBufferSize}

namespace Transmitter

variable {t t' : Transmitter m}

private theorem popAcked_outBuffers {fuel : Nat} {seq : SeqNum} (hpend : t.hasPendingEof = false)
    (h : popAcked fuel t seq = .ok t') : t'.outBuffers = t.outBuffers := by
  induction fuel generalizing t with
  | zero =>
    cases h
    rfl
  | succ fuel ih =>
    rw [popAcked] at h
    split at h
    · split at h
      · cases h
      dsimp only at h
      rw [if_neg (by simp [hpend])] at h
      have hrest := fun hpend' ↦ ih hpend' h
      exact hrest hpend
    · cases h
      rfl

private theorem markAcked_acked {b e : Int} (bits : List Bool) : ∀ {t : Transmitter m} {q : Int}
    (last : SeqNum), t.outRing.Spans b e → b ≤ q → q + bits.length ≤ b + 16384 →
    ∀ {p : Int}, b ≤ p → p < e →
      (((markAcked bits t (.ofPos q) last).1.bufferAt p).acked = true ↔
        (t.bufferAt p).acked = true ∨ ∃ j : Nat, bits[j]? = some true ∧ p = q + j) := by
  induction bits with
  | nil =>
    intro t q last _ _ _ p _ _
    simp [markAcked]
  | cons bit bits ih =>
    intro t q last hs hl hlen p hp hp'
    have hus := hs.used
    rw [List.length_cons] at hlen
    -- The first bit is for `q`, the others for the positions after it.
    have hsplit : (∃ j : Nat, (bit :: bits)[j]? = some true ∧ p = q + j) ↔
        (bit = true ∧ p = q) ∨ ∃ j : Nat, bits[j]? = some true ∧ p = q + 1 + j := by
      constructor
      · rintro ⟨_ | j, hj, hpos⟩
        · exact .inl ⟨by simpa using hj, by simpa using hpos⟩
        · exact .inr ⟨j, by simpa using hj, by omega⟩
      · rintro (⟨rfl, rfl⟩ | ⟨j, hj, hpos⟩)
        · exact ⟨0, rfl, by simp⟩
        · exact ⟨j + 1, by simpa using hj, by omega⟩
    rw [hsplit, markAcked, SeqNum.ofPos_next]
    split
    · next hc =>
      have hin := (hs.contains_iff (by omega) (by omega)).mp hc.1
      rw [getOutBuffer_ofPos, setOutBuffer_ofPos,
        ih (t := t.withBuffer q (t.bufferAt q).ack) _ hs (by omega) (by omega) hp hp']
      by_cases hpq : p = q
      · subst hpq
        rw [bufferAt_withBuffer]
        simp [OutBuffer.ack, hc.2]
      · rw [bufferAt_withBuffer_ne _ _ hpq (by omega) (by omega)]
        simp [hpq]
    · next hc =>
      rw [ih last hs (by omega) (by omega) hp hp']
      have hnot : ¬ (bit = true ∧ p = q) := by
        rintro ⟨rfl, rfl⟩
        exact hc ⟨hs.contains_of_mem hp hp', rfl⟩
      simp [hnot]

private theorem rushLoop_acked {fuel : Nat} {pos last : SeqNum} {updated flag : Bool}
    (h : rushLoop fuel t pos last updated = .ok (t', flag)) (i : Fin (2 ^ m.val)) :
    (t'.outBuffers i).acked = (t.outBuffers i).acked := by
  induction fuel generalizing t pos updated with
  | zero =>
    cases h
    rfl
  | succ fuel ih =>
    rw [rushLoop] at h
    split at h
    · cases h
      rfl
    dsimp only at h
    split at h
    · next honce =>
      rw [OutBuffer.rush, if_pos (by omega)] at h
      have hkept : (Function.update t.outBuffers (t.outRing.offsetFor pos)
          { t.getOutBuffer pos with expiration := 0 } i).acked = (t.outBuffers i).acked :=
        field_update OutBuffer.acked (by rfl) i
      refine (ih h).trans ?_
      split
      · exact hkept
      · exact hkept
    · exact ih h

/-- What an acknowledgement of a position within the window does. -/
theorem ack_exact {b e q : Int} (hs : t.outRing.Spans b e) (hst : t.state = .connected)
    (hpend : t.hasPendingEof = false) {controlBit : Bool} (hbit : controlBit ≠ t.controlBit)
    {seqId : BitVec 16} (hseq : t.outRing.restorePosHighBits seqId 12 = .ofPos q) (hl : b ≤ q)
    (hu : q ≤ e) {bitmap : List UInt8} (hlen : (bitmap.flatMap bitsMsb).length ≤ 4096) :
    ∃ t' rushed, t.ack controlBit seqId bitmap = .ok (t', rushed) ∧ t'.outRing.Spans q e ∧
      ∀ p, q ≤ p → p < e → ((t'.bufferAt p).acked = true ↔ (t.bufferAt p).acked = true ∨
        ∃ j : Nat, (bitmap.flatMap bitsMsb)[j]? = some true ∧ p = q + 1 + j) := by
  have hus := hs.used
  have hcap := capacity_le m
  have hused := hs.slotsUsed_eq
  obtain ⟨t1, effs, e1, hpop, hpath, -, -, hst1, heos1, hk⟩ := popAcked_path
    (bitmap.flatMap bitsMsb) q t.outRing.slotsUsed hs hst (q := q) (by omega) hu (by omega)
  obtain rfl := acked_end hpath hk hpend
  have hs1 := path_spans hpath hs
  rw [max_eq_right hl] at hs1
  have hkept := popAcked_outBuffers hpend hpop
  have hgt : ¬ (SeqNum.ofPos q).Gt t.outRing.end_ := by
    rw [hs.end_eq, SeqNum.ofPos_gt (by omega) (by omega)]
    omega
  rw [ack, if_neg (not_not.mpr hst), if_neg hbit]
  dsimp only
  rw [hseq, if_neg hgt, hpop]
  dsimp only
  split
  · next hempty =>
    obtain rfl := hs1.empty_iff.mp hempty
    split
    · obtain ⟨t', hreset, hm⟩ := reset_ok hs1
      rw [hreset]
      exact ⟨t', false, rfl, hm.spans hs1, fun p hp hp' ↦ by omega⟩
    · exact ⟨t1, false, rfl, hs1, fun p hp hp' ↦ by omega⟩
  · next hne =>
    have hlt := hs1.empty_eq_false.mp (by simpa using hne)
    obtain ⟨t', rushed, effs', hgo, hpath', hmarks⟩ :=
      markAndRush_path q (bitmap.flatMap bitsMsb) hs1 hlt
    refine ⟨t', rushed, hgo, path_spans hpath' hs1, fun p hp hp' ↦ ?_⟩
    have hmark := markAcked_acked (bitmap.flatMap bitsMsb) (t1.outRing.begin_.add (-1)) hs1
      (q := q + 1) (by omega) (by omega) hp hp'
    have hstart : t1.outRing.begin_.add 1 = .ofPos (q + 1) := by
      rw [hs1.begin_eq, SeqNum.ofPos_add]
    have hrushed : (t'.bufferAt p).acked = ((markAcked (bitmap.flatMap bitsMsb) t1
        (t1.outRing.begin_.add 1) (t1.outRing.begin_.add (-1))).1.bufferAt p).acked := by
      split at hgo
      · exact rushLoop_acked hgo _
      · cases hgo
        rfl
    rw [hrushed, hstart, hmark, bufferAt, bufferAt, hkept]

end Transmitter

/-- The packet that a receiver emits takes the positions below its first gap from the
transmitter, and marks those past it that the receiver holds. -/
theorem ack_round_trip {r : Receiver n} {c : Channel m n} {rb u re b e : Int}
    (hw : r.Window rb u re) (hemit : r.ack.2 ≠ [])
    (hc : c.transmitter.state = .connected) (hs : c.transmitter.outRing.Spans b e)
    (hbit : r.controlBit ≠ c.transmitter.controlBit)
    (hpend : c.transmitter.hasPendingEof = false) (hl : b ≤ u) (hu : u ≤ e) :
    ∃ transmitter ready,
      c.packetReceived r.ack.2 = .ok ({ c with transmitter }, ready, none) ∧
      c.transmitter.ack r.controlBit (getPacketSeq (loadBeU16 r.ack.2)) (r.ack.2.drop 2) =
        .ok (transmitter, ready) ∧
      transmitter.outRing.Spans u e ∧
      ∀ p, u ≤ p → p < e → ((transmitter.bufferAt p).acked = true ↔
        (c.transmitter.bufferAt p).acked = true ∨
          (u < p ∧ p ≤ u + 64 ∧ p < re ∧ r.Received p)) := by
  obtain ⟨bitmap, hbytes, hlen, hbits⟩ := hw.ack hemit
  have hus := hs.used
  have hcap := capacity_le m
  have hseq : c.transmitter.outRing.restorePosHighBits (getPacketSeq (loadBeU16 r.ack.2)) 12 =
      .ofPos u := by
    rw [hbytes, loadBeU16_store, getPacketSeq_format]
    exact hs.restore_exact (by omega) (by omega)
  have hdrop : r.ack.2.drop 2 = bitmap := by rw [hbytes, drop_storeBeU16]
  have hcount : (bitmap.flatMap bitsMsb).length ≤ 4096 := by
    rw [length_bits]
    omega
  obtain ⟨t', rushed, hack, hspans, hmarks⟩ :=
    Transmitter.ack_exact hs hc hpend hbit hseq hl hu hcount
  rw [← hdrop] at hack
  refine ⟨t', rushed, ?_, hack, hspans, fun p hp hp' ↦ ?_⟩
  · have hsize : r.ack.2.length = bitmap.length + 2 := by
      rw [hbytes, List.length_append, Nat.add_comm]
      rfl
    have hctrl : getPacketControlBit (loadBeU16 r.ack.2) = r.controlBit := by
      rw [hbytes, loadBeU16_store, getPacketControlBit_format]
    have htype : getPacketType (loadBeU16 r.ack.2) = some .dataAck := by
      rw [hbytes, loadBeU16_store, getPacketType_format]
    rw [Channel.packetReceived, if_neg (by omega)]
    dsimp only
    rw [htype, hctrl]
    dsimp only
    rw [hack]
    rfl
  · rw [hmarks p hp hp']
    refine or_congr_right ?_
    constructor
    · rintro ⟨j, hj, rfl⟩
      obtain ⟨hlt, hre, hr⟩ := (hbits j).mp hj
      exact ⟨by omega, by omega, hre, hr⟩
    · rintro ⟨hup, hreach, hre, hr⟩
      have hpos : p = u + 1 + (p - u - 1).toNat := by omega
      refine ⟨(p - u - 1).toNat, (hbits _).mpr ⟨by omega, ?_⟩, hpos⟩
      rw [← hpos]
      exact ⟨hre, hr⟩

/-- Two packets are under way and the second has come first. -/
theorem ack_round_trip_after_gap : ∃ p : Pair 2 2,
    Reachable Pair.step Pair.WithinReach (Pair.connectedAtZero 2 2 4) p ∧
    (p.tx.bufferAt 1).acked = false ∧ p.rx.ack.2 = [0xA0, 0x00, 0x80] ∧
    ∃ transmitter ready, ({ Channel.new 2 2 with transmitter := p.tx }).packetReceived p.rx.ack.2 =
        .ok ({ Channel.new 2 2 with transmitter }, ready, none) ∧
      transmitter.outRing.Spans 0 2 ∧ (transmitter.bufferAt 1).acked = true := by
  obtain ⟨p, hp, ht⟩ := Reachable.of_test Pair.step Pair.WithinReach (Pair.connectedAtZero 2 2 4)
    [.tryWrite [1], .flush, .getBufferToSend 0 0 0, .tryWrite [2], .flush, .getBufferToSend 0 0 0,
      .deliverData 1]
    (fun p ↦ p.rx.inRing.begin_ = ⟨0⟩ ∧ p.rx.inRing.end_ = ⟨2⟩ ∧ p.rx.unackSeq = ⟨0⟩ ∧
      (p.rx.bufferAt 0).type = .unset ∧ (p.rx.bufferAt 1).type ≠ .unset ∧
      p.rx.controlBit = true ∧ p.rx.ack.2 = [0xA0, 0x00, 0x80] ∧
      p.tx.state = .connected ∧ p.tx.outRing.begin_ = ⟨0⟩ ∧ p.tx.outRing.end_ = ⟨2⟩ ∧
      p.tx.controlBit = false ∧ p.tx.hasPendingEof = false ∧ (p.tx.bufferAt 1).acked = false)
    (by decide) (by decide)
  obtain ⟨hrb, hre, hunack, hgap, hheld, hrbit, hbytes, hst, htb, hte, htbit, hpend, hacked⟩ :=
    of_decide_eq_true ht
  have hw : p.rx.Window 0 0 2 := ⟨⟨hrb, hre, by omega, by decide⟩, hunack, le_refl 0, by omega,
    fun q hl hu ↦ by omega, fun _ hr ↦ hr hgap⟩
  obtain ⟨transmitter, ready, hreceived, -, hspans, hmarks⟩ := ack_round_trip
    (c := { Channel.new 2 2 with transmitter := p.tx }) hw (by rw [hbytes]; simp) hst
    (b := 0) (e := 2) ⟨htb, hte, by omega, by decide⟩ (by rw [hrbit, htbit]; simp) hpend
    (le_refl 0) (by omega)
  refine ⟨p, hp, hacked, hbytes, transmitter, ready, hreceived, hspans, ?_⟩
  exact (hmarks 1 (by omega) (by omega)).mpr (.inr ⟨by omega, by omega, by omega, hheld⟩)

end RooTransport.Link
