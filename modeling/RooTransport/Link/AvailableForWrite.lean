import RooTransport.Link.SendWindow

/-!
# How much can be written

`tryWrite` takes bytes as long as there is room in the current buffer, and in fresh ones for
which there are both free slots and credit (`transmitter.cpp:30–53`). `availableForWrite`
(`transmitter.cpp:98–105`) answers with the free slots, whatever the credit.
-/

namespace RooTransport.Link

open RooTransport.Base RingBuffer

namespace Transmitter

variable {n : LinkBufferSize}

/-- The bytes that fit into the current buffer. -/
def left (t : Transmitter n) : Nat :=
  match t.currentOutBuffer with
  | none => 0
  | some i => if (t.outBuffers i).finished then 0 else 248 - (t.outBuffers i).payload.length

/-- The packets that may be queued before the peer announces more. -/
def credit (t : Transmitter n) : Nat := forwardDist t.recvHimark.raw t.outRing.end_.raw

/-- The bytes that can be written, one packet after the other. -/
def room (t : Transmitter n) : Nat := t.left + 248 * min t.outRing.slotsFree t.credit

/-- The current buffer takes nothing any more. -/
def stale (t : Transmitter n) : Nat :=
  match t.currentOutBuffer with
  | none => 0
  | some i => if (t.outBuffers i).finished then 1 else 0

section

variable {t : Transmitter n} {b e : Int}

private theorem credit_of {h : Int} (hhi : t.recvHimark = .ofPos h)
    (hend : t.outRing.end_ = .ofPos e) (hle : e ≤ h) (hfar : h < e + 65536) :
    (t.credit : Int) = h - e := by
  rw [credit, hhi, hend]
  exact forwardDist_wrap hle (by omega)

-- The buffer to write to comes out of the room, and without one there is none.
private theorem Checked.provideBuffer_room (hc : t.Checked b e) (ho : t.Open) :
    (t.provideBuffer = .ok none ∧ t.room = 0) ∨
    ∃ i t' e', t.provideBuffer = .ok (some (i, t')) ∧ t'.currentOutBuffer = some i ∧
      t'.Checked b e' ∧ t'.Open ∧ t'.room = t.room ∧ t'.stale = t.stale := by
  obtain ⟨h, hcredit⟩ := hc.credit
  have hle := hcredit.open_le (.inl ho)
  have hfar := hcredit.le_end
  have hnum := credit_of hcredit.himark_eq hc.spans.end_eq hle (by omega)
  have hfree := hc.spans.slotsFree_eq
  unfold Transmitter.provideBuffer
  rw [if_neg (not_not.mpr (hc.himark_ge ho))]
  cases hcur : t.currentOutBuffer with
  | some i => exact .inr ⟨i, t, e, rfl, hcur, hc, ho, rfl, rfl⟩
  | none =>
    have hleft : t.left = 0 := by simp [left, hcur]
    dsimp only
    split
    · next heq =>
      have hzero : t.credit = 0 := by simp [Transmitter.credit, heq, forwardDist]
      exact .inl ⟨rfl, by simp [Transmitter.room, hleft, hzero]⟩
    next hne =>
    split
    · next hfull => exact .inl ⟨rfl, by simp [Transmitter.room, hleft, hfull]⟩
    next hslots =>
    have hroom : e < b + 2 ^ n.val := by omega
    obtain ⟨ring, hpush, hr⟩ := hc.spans.push_ok hroom
    rw [hpush]
    dsimp only
    rw [offsetFor_ofPos]
    have hm := Moves.alloc ring ho hcur (hc.himark_ge ho) hne hroom hr
    refine .inr ⟨_, _, e + 1, rfl, rfl, hc.moves hm, ho, ?_, ?_⟩
    · -- One slot and one unit of credit make the room of a fresh buffer.
      have hlt : e < h := by
        rw [hcredit.himark_eq, hc.spans.end_eq, SeqNum.ofPos_eq (by omega) (by omega)] at hne
        omega
      have hfree' := hr.slotsFree_eq
      have hnum' : (forwardDist t.recvHimark.raw ring.end_.raw : Int) = h - (e + 1) := by
        rw [hcredit.himark_eq, hr.end_eq]
        exact forwardDist_wrap (by omega) (by omega)
      simp only [Transmitter.room, left, Transmitter.credit, hcur, Function.update_self,
        OutBuffer.init, Bool.false_eq_true, if_false, List.length_nil] at hnum ⊢
      omega
    · simp [stale, hcur, OutBuffer.init]

private theorem fill_left {i : Fin (2 ^ n.val)} (hcur : t.currentOutBuffer = some i)
    (hroom : (t.outBuffers i).finished = true ∨ (t.outBuffers i).payload.length < 248)
    {buf : List UInt8} (hne : buf ≠ []) :
    ∃ t' ready, t.fill i buf = .ok (t', min buf.length t.left, ready) ∧
      t'.room = t.room - min buf.length t.left ∧
      (min buf.length t.left = buf.length ∨ t'.stale = 0 ∧ (0 < t.left ∨ 0 < t.stale)) := by
  have hpos : 0 < buf.length := List.length_pos_iff.mpr hne
  rw [fill, OutBuffer.write]
  cases hfin : (t.outBuffers i).finished with
  | true =>
    have hleft : t.left = 0 := by simp [left, hcur, hfin]
    have hstale : t.stale = 1 := by simp [stale, hcur, hfin]
    simp only [if_true, hleft, Nat.min_zero, Nat.sub_zero, hfin]
    exact ⟨_, _, rfl, by simp [room, left, hcur, hfin, Transmitter.credit],
      .inr ⟨rfl, .inr (by omega)⟩⟩
  | false =>
    have hlen : (t.outBuffers i).payload.length < 248 := by simpa [hfin] using hroom
    have hleft : t.left = 248 - (t.outBuffers i).payload.length := by simp [left, hcur, hfin]
    dsimp only
    rw [if_neg (by simp), if_neg (by omega), ← hleft]
    by_cases hfull : t.left ≤ buf.length
    · simp only [hfull, if_true, Nat.min_eq_right hfull]
      refine ⟨_, _, rfl, ?_, .inr ⟨rfl, .inl (by omega)⟩⟩
      simp [room, left, Transmitter.credit, hcur, hfin]
    · simp only [hfull, if_false, Bool.false_eq_true]
      have hmin : min buf.length t.left = buf.length := by omega
      rw [hmin]
      refine ⟨_, _, rfl, ?_, .inl rfl⟩
      simp [room, left, Transmitter.credit, hcur, hfin]
      omega

private theorem Checked.tryWriteLoop_room (fuel : Nat) : ∀ {t : Transmitter n} {b e : Int}
    {buf : List UInt8}, t.Checked b e → t.Open → buf ≠ [] → buf.length + t.stale ≤ fuel →
      ∃ t' ready, Transmitter.tryWriteLoop fuel t buf = .ok (t', min buf.length t.room, ready) ∧
        t'.room = t.room - min buf.length t.room := by
  induction fuel with
  | zero =>
    intro t b e buf _ _ hne hfuel
    have hpos : 0 < buf.length := List.length_pos_iff.mpr hne
    omega
  | succ fuel ih =>
    intro t b e buf hc ho hne hfuel
    have hpos : 0 < buf.length := List.length_pos_iff.mpr hne
    rw [Transmitter.tryWriteLoop]
    rcases hc.provideBuffer_room ho with
      ⟨hnone, hzero⟩ | ⟨i, t1, e1, hsome, hcur, hc1, ho1, hroom1, hstale1⟩
    · rw [hnone, hzero, Nat.min_zero]
      exact ⟨t, false, rfl, by omega⟩
    obtain ⟨t2, ready, hfill, hroom2, hprogress⟩ := fill_left hcur (hc1.room i) hne
    obtain ⟨-, ho2, eff, hm, -, -⟩ := fill_move (b := b) (e := e1) ho1 hcur hne hfill
    have hleft : t1.left ≤ t1.room := by simp [Transmitter.room]
    rw [hsome]
    dsimp only
    rw [hfill]
    dsimp only
    split
    · next hlt =>
      obtain ⟨hstale2, hsome⟩ := hprogress.resolve_left (by omega)
      have hlen : (buf.drop (min buf.length t1.left)).length =
          buf.length - min buf.length t1.left :=
        List.length_drop ..
      have hdrop : buf.drop (min buf.length t1.left) ≠ [] := by
        rw [ne_eq, List.drop_eq_nil_iff]
        omega
      obtain ⟨t3, ready', hloop, hroom3⟩ := ih (hc1.moves hm) ho2 hdrop (by omega)
      rw [hloop]
      refine ⟨t3, ready || ready', ?_, by omega⟩
      dsimp only
      congr 3
      omega
    · next hge =>
      have hall : min buf.length t1.left = buf.length := by omega
      refine ⟨t2, ready, ?_, by omega⟩
      congr 3
      omega

/-- `tryWrite` takes as much as there is room for. -/
theorem Checked.tryWrite_room (hc : t.Checked b e) (ho : t.Open) (buf : List UInt8) :
    ∃ t' ready, t.tryWrite buf = .ok (t', min buf.length t.room, ready) ∧
      t'.room = t.room - min buf.length t.room := by
  unfold Transmitter.tryWrite
  by_cases hnil : buf = []
  · subst hnil
    exact ⟨t, false, by simp, by simp⟩
  have hlen : buf.length ≠ 0 := fun hlen ↦ hnil (List.length_eq_zero_iff.mp hlen)
  have hstale : t.stale ≤ 1 := by
    unfold stale
    split
    · omega
    · split <;> omega
  rw [if_neg hlen, if_neg (by simp [ho.1]), if_neg (by simp [ho.2.1, ho.2.2])]
  exact hc.tryWriteLoop_room _ ho hnil (by omega)

private theorem room_flush (t : Transmitter n) : t.flush.1.room = t.room := by
  unfold flush
  split
  · next i hcur => simp [room, left, Transmitter.credit, hcur, OutBuffer.flush]
  · rfl

end

/-- The bytes accepted when pieces are written one after the other, each with a `flush`. -/
def writeAll (t : Transmitter n) : List (List UInt8) → Except Check (Transmitter n × Nat)
  | [] => .ok (t, 0)
  | buf :: bufs =>
    match t.tryWrite buf with
    | .error c => .error c
    | .ok (t, written, _) =>
      match t.flush.1.writeAll bufs with
      | .error c => .error c
      | .ok (t, more) => .ok (t, written + more)

private theorem Checked.writeAll_room {t : Transmitter n} {b e : Int} (hc : t.Checked b e)
    (ho : t.Open) (bufs : List (List UInt8)) :
    ∃ t', t.writeAll bufs = .ok (t', min bufs.flatten.length t.room) := by
  induction bufs generalizing t e with
  | nil => exact ⟨t, by simp [writeAll]⟩
  | cons buf bufs ih =>
    obtain ⟨t1, ready, hwrite, hroom⟩ := hc.tryWrite_room ho buf
    obtain ⟨-, effs, e1, hpath, -, -⟩ := tryWrite_path hc.spans hwrite
    obtain ⟨effs', hflush, -⟩ := flush_path t1 b e1
    have hphase := tryWrite_samePhase hwrite
    have hsame := flush_sameStream t1
    have ho' : t1.flush.1.Open := by
      rw [Open, hsame.endOfStream, hsame.state, hphase.endOfStream, hphase.state]
      exact ho
    obtain ⟨t', hrest⟩ := ih ((hc.path hpath).path hflush) ho'
    rw [room_flush, hroom] at hrest
    refine ⟨t', ?_⟩
    rw [writeAll, hwrite]
    dsimp only
    rw [hrest, List.flatten_cons, List.length_append]
    dsimp only
    congr 2
    omega

private theorem writeAll_nothing (t : Transmitter n) {bufs : List (List UInt8)}
    (h : bufs.flatten.length = 0) : ∃ t', t.writeAll bufs = .ok (t', 0) := by
  induction bufs generalizing t with
  | nil => exact ⟨t, rfl⟩
  | cons buf bufs ih =>
    rw [List.flatten_cons, List.length_append] at h
    obtain ⟨t', hrest⟩ := ih t.flush.1 (by omega)
    have hwrite : t.tryWrite buf = .ok (t, 0, false) := by
      rw [Transmitter.tryWrite, if_pos (by omega)]
    refine ⟨t', ?_⟩
    rw [writeAll, hwrite]
    dsimp only
    rw [hrest]

/-- What is available can be written, in whatever pieces, exactly if the stream takes nothing or
the free slots are covered by the room in the current buffer and by the credit. -/
theorem Session.availableForWrite_guaranteed_iff {s : Session n}
    (h : Reachable Session.step ConnectsOnce ⟨new n, true⟩ s) :
    (∀ bufs : List (List UInt8), bufs.flatten.length ≤ s.transmitter.availableForWrite →
      ∃ t', s.transmitter.writeAll bufs = .ok (t', bufs.flatten.length)) ↔
    ¬ s.transmitter.Open ∨
      s.transmitter.outRing.slotsFree ≤ s.transmitter.left + 248 * s.transmitter.credit := by
  obtain ⟨b, e, hs⟩ := safe_of_reachable h
  by_cases ho : s.transmitter.Open
  · have havail : s.transmitter.availableForWrite = s.transmitter.outRing.slotsFree := by
      simp [availableForWrite, ho.1, ho.2.1, ho.2.2]
    have hroom : s.transmitter.room = s.transmitter.left +
      248 * min s.transmitter.outRing.slotsFree s.transmitter.credit := rfl
    rw [havail]
    constructor
    · intro hall
      obtain ⟨t', hwrite⟩ := hs.checked.writeAll_room ho
        [List.replicate s.transmitter.outRing.slotsFree 0]
      obtain ⟨t'', hwrite'⟩ := hall [List.replicate s.transmitter.outRing.slotsFree 0] (by simp)
      rw [hwrite] at hwrite'
      have htaken := congrArg Prod.snd (Except.ok.inj hwrite')
      simp only [List.flatten_singleton, List.length_replicate] at htaken
      exact .inr (by omega)
    · rintro (hclosed | hle) bufs hlen
      · exact absurd ho hclosed
      · obtain ⟨t', hwrite⟩ := hs.checked.writeAll_room ho bufs
        have hfits : min bufs.flatten.length s.transmitter.room = bufs.flatten.length := by omega
        rw [hfits] at hwrite
        exact ⟨t', hwrite⟩
  · have havail : s.transmitter.availableForWrite = 0 := by
      rw [availableForWrite, if_pos]
      by_contra hnot
      simp only [not_or, Bool.not_eq_true] at hnot
      exact ho hnot
    rw [havail]
    refine ⟨fun _ ↦ .inl ho, fun _ bufs hlen ↦ ?_⟩
    have hzero := Nat.le_zero.mp hlen
    rw [hzero]
    exact writeAll_nothing _ hzero

namespace Session

/-- Connected, with the whole window of the peer as credit. -/
theorem availableForWrite_guaranteed_connected : ∃ s : Session 2,
    Reachable step ConnectsOnce ⟨new 2, true⟩ s ∧ s.transmitter.availableForWrite = 4 ∧
    ∃ t', s.transmitter.writeAll [[1], [2, 3], [4]] = .ok (t', 4) := by
  obtain ⟨s, hr, ht⟩ := Reachable.of_test step ConnectsOnce ⟨new 2, true⟩
    [.init 1 ⟨0⟩, .setConnected 4 true]
    (fun s ↦ s.transmitter.availableForWrite = 4 ∧
      s.transmitter.outRing.slotsFree ≤ s.transmitter.left + 248 * s.transmitter.credit)
    (by decide +kernel) (by decide +kernel)
  obtain ⟨havail, hle⟩ := of_decide_eq_true ht
  refine ⟨s, hr, havail, ?_⟩
  exact (availableForWrite_guaranteed_iff hr).mpr (.inr hle) [[1], [2, 3], [4]]
    (by rw [havail]; decide)

/-- While connecting, four bytes are said to be writable and none is taken. -/
theorem availableForWrite_without_credit : ∃ s : Session 2,
    Reachable step ConnectsOnce ⟨new 2, true⟩ s ∧ s.transmitter.availableForWrite = 4 ∧
    (s.transmitter.writeAll [[1]]).toOption.map Prod.snd = some 0 := by
  obtain ⟨s, hr, ht⟩ := Reachable.of_test step ConnectsOnce ⟨new 2, true⟩ [.init 1 ⟨0⟩]
    (fun s ↦ s.transmitter.availableForWrite = 4 ∧
      (s.transmitter.writeAll [[1]]).toOption.map Prod.snd = some 0)
    (by decide +kernel) (by decide +kernel)
  exact ⟨s, hr, of_decide_eq_true ht⟩

end Session

end Transmitter

end RooTransport.Link
