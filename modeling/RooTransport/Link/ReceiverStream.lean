import RooTransport.Base.Span
import RooTransport.Link.ThreadSafeReceiver

/-!
# The receiving end of one stream

What a receiver holds of a stream whose packets are given by position: the slots of the
window hold the packets that arrived, and the reader has seen a prefix of the stream
(`receiver.cpp:54–99`, `receiver.cpp:231–300`).
-/

namespace RooTransport.Link

open RooTransport.Base RingBuffer

namespace Receiver

variable {n : LinkBufferSize}

/-- The window from `b` to `e`, received up to `u`, of a stream that starts at `s` with the
packets of `log`, the last one at `fin` if it is known; `read` is what was handed out. -/
structure Sink (r : Receiver n) (s b u e : Int) (log : Int → List UInt8) (fin : Option Int)
    (read : List UInt8) : Prop where
  window : r.Window b u e
  front : r.FrontOk b e
  fits : ∀ i, Fits (r.inBuffers i)
  connected : r.state = .connected
  inputOpen : r.selfClosed = false
  start_le : s ≤ b
  content : ∀ p, b ≤ p → p < e → r.Received p →
    (r.bufferAt p).content = log p ∧ ((r.bufferAt p).type = .fin ↔ fin = some p)
  last : ∀ f, fin = some f → e ≤ f + 1
  read_eq : read = span log s b ++ (log b).take r.offset
  ended : r.endOfStream = true → fin = some (b - 1)

section

variable {r r' : Receiver n} {s b u e : Int} {log : Int → List UInt8} {fin : Option Int}
  {read : List UInt8}

/-- Nothing is handed out of an empty window. -/
theorem FrontOk.offset_eq_zero (h : r.FrontOk b b) (hs : r.inRing.Spans b b) : r.offset = 0 := by
  rcases h.cursor with hc | ⟨he, -⟩
  · rw [offset, hc]
  · rw [hs.empty_iff.mpr rfl] at he
    cases he

/-- Only the packets before the window's end matter, and whether the last of the stream is
one of them. -/
theorem Sink.relog {log' : Int → List UInt8} {fin' : Option Int}
    (h : r.Sink s b u e log fin read) (hlog : ∀ p, s ≤ p → p < e → log' p = log p)
    (hfin : fin' = fin ∨ fin = none ∧ ∀ f, fin' = some f → e ≤ f) :
    r.Sink s b u e log' fin' read := by
  have hle := h.window.spans.le
  have hs := h.start_le
  have hiff (p : Int) (hp : p < e) : fin' = some p ↔ fin = some p := by
    rcases hfin with rfl | ⟨hnone, hf⟩
    · exact Iff.rfl
    · exact ⟨fun hp' ↦ absurd (hf p hp') (by omega), fun hp' ↦ nomatch hnone.symm.trans hp'⟩
  refine { h with content := fun p hl hu hr ↦ ?_, last := ?_, read_eq := ?_, ended := ?_ }
  · rw [hlog p (by omega) hu, hiff p hu]
    exact h.content p hl hu hr
  · intro f hf
    rcases hfin with rfl | ⟨-, hf'⟩
    · exact h.last f hf
    · have := hf' f hf
      omega
  · rw [h.read_eq, span_congr fun p hl hu ↦ hlog p hl (by omega)]
    congr 1
    rcases eq_or_lt_of_le hle with rfl | hlt
    · rw [h.front.offset_eq_zero h.window.spans, List.take_zero, List.take_zero]
    · rw [hlog b hs hlt]
  · intro heos
    have hold := h.ended heos
    exact (hiff _ (by omega)).mpr hold

/-- Notes about packets sent do not matter. -/
theorem Sink.sent (h : r.Sink s b u e log fin read) (needsAck : Bool) (recvHimark : SeqNum)
    (expiration : Uptime) :
    { r with
      needsAck := needsAck
      recvHimark := recvHimark
      recvHimarkUpdateExpiration := expiration }.Sink s b u e log fin read :=
  { h with window := h.window.congr rfl rfl rfl, front := ⟨h.front.cursor, h.front.pos⟩ }

/-- A look leaves the stream as it was. -/
theorem Sink.look (h : r.Sink s b u e log fin read) : r.look.Sink s b u e log fin read := by
  have hlink := r.look_sameLink.state (by rw [h.connected]; decide)
  have heos : r.look.endOfStream = r.endOfStream := by
    rcases r.look_eq with he | ⟨-, -, he⟩ <;> rw [he]
  refine ⟨h.window.look, h.front.look, ?_, hlink.1.trans h.connected, hlink.2.1.trans h.inputOpen,
    h.start_le, ?_, h.last, ?_, ?_⟩
  · rw [look_inBuffers]
    exact h.fits
  · simp only [Received, bufferAt, look_inBuffers]
    exact h.content
  · rw [look_offset]
    exact h.read_eq
  · rw [heos]
    exact h.ended

private theorem Sink.accepted {q b' : Int} {isFinal : Bool} (h : r.Sink s b u e log fin read)
    (hb : b ≤ q) (hq : q < b + 2 ^ n.val) (hfits : ∀ i, Fits (r'.inBuffers i))
    (hlen : (log q).length ≤ 248) (hfinal : isFinal = true ↔ fin = some q)
    (hlast : ∀ f, fin = some f → q ≤ f) (ha : Accepted r b e q (log q) isFinal r' b') :
    b' = b ∧ ∃ u', u ≤ u' ∧ r'.Sink s b u' (max e (q + 1)) log fin read := by
  obtain rfl := ha.begin_eq h.inputOpen
  obtain ⟨u', hw, -, hu, -⟩ := h.window.accepted hb hq ha
  refine ⟨rfl, u', hu, ⟨hw, h.front.accepted h.window.spans ha, hfits, ?_, ?_, h.start_le,
    ?_, ?_, ?_, ?_⟩⟩
  · rw [ha.frame]
    exact h.connected
  · rw [ha.frame]
    exact h.inputOpen
  · intro p hl hp hr
    rcases ha.buffer hl hp with ⟨hpe, hbuf⟩ | hgap | ⟨rfl, -, old, hset⟩
    · rw [Received, hbuf] at hr
      rw [hbuf]
      exact h.content p hl hpe hr
    · exact absurd hr hgap
    · have hmod : (log p).length % 256 = (log p).length := Nat.mod_eq_of_lt (by omega)
      rw [(InBuffer.of_set hset).2.2.1, hmod, List.take_length, InBuffer.type_of_set hset, ← hfinal]
      exact ⟨rfl, by cases isFinal <;> simp [storedType]⟩
  · intro f hf
    have := h.last f hf
    have := hlast f hf
    omega
  · rw [ha.offset]
    exact h.read_eq
  · intro heos
    rw [ha.frame] at heos
    exact h.ended heos

/-- The arrival of a packet of the stream, by its true position. -/
theorem Sink.handleDataPacket {q : Int} {controlBit isFinal ack new : Bool} {seqId : BitVec 16}
    (h : r.Sink s b u e log fin read)
    (hseq : r.inRing.restorePosHighBits seqId 12 = .ofPos q) (hl : b - 2048 ≤ q) (hu : q < b + 2048)
    (hlen : (log q).length ≤ 248) (hfinal : isFinal = true ↔ fin = some q)
    (hlast : ∀ f, fin = some f → q ≤ f)
    (hh : r.handleDataPacket controlBit seqId (log q) isFinal = .ok (r', ack, new)) :
    ∃ u' e', r'.Sink s b u' e' log fin read ∧ u ≤ u' ∧ e ≤ e' ∧ (e' = e ∨ e' = q + 1) ∧
      ∀ p, b ≤ p → p < e → r.Received p → r'.Received p := by
  have hcap := capacity_le n
  have hfits := handleDataPacket_slots slotKept_fits hh h.fits
  cases handleDataPacket_arrival h.window.spans hh with
  | ignored => exact ⟨u, e, h, le_refl u, le_refl e, .inl rfl, fun _ _ _ hr ↦ hr⟩
  | consumed =>
    exact ⟨u, e, h.sent true r.recvHimark r.recvHimarkUpdateExpiration, le_refl u, le_refl e,
      .inl rfl, fun _ _ _ hr ↦ hr⟩
  | accepted q' b' _ _ _ _ hq' hb hub _ ha =>
    obtain rfl : q = q' :=
      (SeqNum.ofPos_eq (by omega) (by omega)).mp (hseq.symm.trans hq')
    obtain ⟨rfl, u', hu', hsink⟩ := h.accepted hb hub hfits hlen hfinal hlast ha
    refine ⟨u', _, hsink, hu', le_max_left e _, by omega, fun p hl hp hr ↦ ?_⟩
    by_cases hpq : p = q
    · exact hpq ▸ ha.received
    · rw [Received, ha.kept p hl hp hpq]
      exact hr

/-- Using up the first packet hands out the rest of it; the final one ends the stream. -/
theorem Sink.released {ring : RingBuffer n} {last : Bool}
    (h : r.Sink s b u e log fin read) (hlt : b < e) (hrec : r.Received b)
    (hring : ring.Spans (b + 1) e) (hfits : ∀ i, Fits ((r.released b ring last).inBuffers i))
    (hlast : last = true → fin = some b) :
    (r.released b ring last).Sink s (b + 1) u e log fin
        (read ++ (r.bufferAt b).content.drop r.offset) ∧
      ∀ p, b + 1 ≤ p → p < e → r.Received p → (r.released b ring last).Received p := by
  have hstart := h.start_le
  have hus := h.window.spans.used
  have hkept (p : Int) (hl : b + 1 ≤ p) (hu : p < e) :
      (r.released b ring last).bufferAt p = r.bufferAt p :=
    Function.update_of_ne (slotAt_ne (by omega) (by omega) (by omega)) ..
  refine ⟨⟨(h.window.released hlt hrec hring last).1, ⟨.inl rfl, fun _ ↦ .inl rfl⟩, hfits,
    h.connected, h.inputOpen, by omega, fun p hl hu hp ↦ ?_, h.last, ?_, fun heos ↦ ?_⟩,
    fun p hl hu hp ↦ ?_⟩
  · rw [Received, hkept p hl hu] at hp
    rw [hkept p hl hu]
    exact h.content p (by omega) hu hp
  · have hoff : (r.released b ring last).offset = 0 := rfl
    rw [h.read_eq, (h.content b (le_refl b) hlt hrec).1, List.append_assoc, List.take_append_drop,
      span_succ log hstart, hoff, List.take_zero, List.append_nil]
  · rw [add_sub_cancel_right]
    rcases Bool.or_eq_true_iff.mp heos with hold | hnew
    · have := h.last _ (h.ended hold)
      omega
    · exact hlast hnew
  · rw [Received, hkept p hl hu]
    exact hp

/-- A round of reading hands out the next bytes of the stream. -/
theorem Sink.readRound {count : Nat} {round : Round n} (h : r.Sink s b u e log fin read)
    (hr : r.readRound count = .ok round) :
    ∃ b', b ≤ b' ∧ round.receiver.Sink s b' u e log fin (read ++ round.bytes) ∧
      ∀ p, b' ≤ p → p < e → r.Received p → round.receiver.Received p := by
  have hfits := readRound_slots slotKept_fits hr h.fits
  have hcur := h.front.cursor.readRound hr
  have hspec := readRound_spec h.window.spans h.front.cursor count
  rw [hr] at hspec
  cases hspec with
  | drained hbe =>
    have hnb : ¬ r.state = .broken := by rw [h.connected]; decide
    refine ⟨b, le_refl b, ?_, fun p hl hu hp ↦ ?_⟩
    · dsimp only
      rw [if_neg hnb, List.append_nil]
      exact h
    · omega
  | gap hlt =>
    refine ⟨b, le_refl b, ?_, fun p _ _ hp ↦ hp⟩
    rw [List.append_nil]
    exact { h with window := h.window.congr rfl rfl rfl, front := ⟨hcur, h.front.pos⟩ }
  | part hlt hrec hsize =>
    refine ⟨b, le_refl b, { h with
      window := h.window.congr rfl rfl rfl
      front := ⟨hcur, fun _ ↦ .inr ⟨hrec, hsize⟩⟩
      read_eq := ?_ }, fun p _ _ hp ↦ hp⟩
    have hoff : { r.focused b with currentInBufferPos := r.offset + count }.offset =
      r.offset + count := rfl
    have hcontent := (h.content b (le_refl b) hlt hrec).1
    dsimp only
    rw [hoff, h.read_eq, List.take_add, ← hcontent, InBuffer.slice_eq _ (by omega),
      List.append_assoc]
  | data ring hlt ht _ _ hring =>
    have hrec : r.Received b := by rw [Received, ht]; decide
    exact ⟨b + 1, by omega, h.released hlt hrec hring hfits (by simp)⟩
  | fin ring hlast ht _ _ hring =>
    have hrec : r.Received b := by rw [Received, ht]; decide
    exact ⟨b + 1, by omega, h.released (by omega) hrec hring hfits
      fun _ ↦ (h.content b (le_refl b) (by omega) hrec).2.mp ht⟩

/-- No round of reading fails a check: the final packet is the last of the window. -/
theorem Sink.readRound_total (h : r.Sink s b u e log fin read) (count : Nat) :
    ∃ round, r.readRound count = .ok round := by
  have hspec := readRound_spec h.window.spans h.front.cursor count
  cases hr : r.readRound count with
  | ok round => exact ⟨round, rfl⟩
  | error c =>
    rw [hr] at hspec
    cases hspec with
    | badPosition hlt _ hpos =>
      rcases h.front.pos hlt with h0 | ⟨-, hoff⟩
      · omega
      · omega
    | finInside hlt ht =>
      have hrec : r.Received b := by rw [Received, ht]; decide
      have := h.last b ((h.content b (le_refl b) (by omega) hrec).2.mp ht)
      omega

/-- `tryRead` hands out the next bytes of the stream and fails no check. -/
theorem Sink.tryRead (h : r.Sink s b u e log fin read) (count : Nat) :
    ∃ r' bytes ready b', r.tryRead count = .ok (r', bytes, ready) ∧ b ≤ b' ∧
      r'.Sink s b' u e log fin (read ++ bytes) ∧
      ∀ p, b' ≤ p → p < e → r.Received p → r'.Received p := by
  let I (r' : Receiver n) (bytes : List UInt8) : Prop := ∃ b', b ≤ b' ∧
    r'.Sink s b' u e log fin (read ++ bytes) ∧
    ∀ p, b' ≤ p → p < e → r.Received p → r'.Received p
  have hround (r1 : Receiver n) (k : Nat) (acc : List UInt8) (round : Round n) (hi : I r1 acc)
      (hk : r1.readRound k = .ok round) : I round.receiver (acc ++ round.bytes) := by
    obtain ⟨b1, hb1, hs1, hr1⟩ := hi
    obtain ⟨b2, hb2, hs2, hr2⟩ := hs1.readRound hk
    rw [List.append_assoc] at hs2
    exact ⟨b2, by omega, hs2, fun p hl hu hp ↦ hr2 p hl hu (hr1 p (by omega) hu hp)⟩
  have hstart : I r [] := ⟨b, le_refl b, by rw [List.append_nil]; exact h, fun _ _ _ hp ↦ hp⟩
  have hgo (r1 : Receiver n) (k : Nat) (acc : List UInt8) (round : Round n) (hi : I r1 acc)
      (hk : r1.readRound k = .ok round) (_ : round.continues = true) (_ : 0 < round.left) :=
    hround r1 k acc round hi hk
  obtain ⟨⟨r', bytes, ready⟩, hok⟩ : ∃ out, r.tryRead count = .ok out :=
    tryRead_total (I := fun r1 _ acc ↦ I r1 acc) hgo
      (fun r1 k acc ⟨_, _, hs1, _⟩ ↦ hs1.readRound_total k) hstart
  obtain ⟨b', hb', hsink, hrec⟩ := tryRead_rule (I := fun r1 _ acc ↦ I r1 acc) (Q := I) hgo
    (fun r1 k acc round hi hk _ ↦ hround r1 k acc round hi hk) hstart (fun _ ↦ hstart) hok
  exact ⟨r', bytes, ready, b', hok, hb', hsink, hrec⟩

/-- A receiver connected anew, over slots that fit and with no buffer current. -/
theorem sink_reconnected (hc : r.currentInBuffer = none) (hfits : ∀ i, Fits (r.inBuffers i))
    (myStreamId : UInt32) (controlBit : Bool) :
    (r.reconnected myStreamId (.ofPos s) controlBit).Sink s s s s (fun _ ↦ []) none [] where
  window := ⟨spans_new n s, rfl, le_refl s, le_refl s, by omega, by omega⟩
  front := ⟨.inl hc, by omega⟩
  fits := hfits
  connected := rfl
  inputOpen := rfl
  start_le := le_refl s
  content p hl hu := by omega
  last := by simp
  read_eq := by simp
  ended heos := nomatch heos

end

/-! ### What an acknowledgement says -/

private theorem testBit_ackBitmask_succ {r : Receiver n} {b e q : Int} (hs : r.inRing.Spans b e)
    (hl : b ≤ q) (hu : q ≤ e + 1) (idx i : Nat) :
    (r.ackBitmask (idx + 1) (.ofPos q)).testBit i = true ↔
      q < e ∧ ((idx = i ∧ r.Received q) ∨
        (r.ackBitmask idx (.ofPos (q + 1))).testBit i = true) := by
  have hcap := capacity_le n
  have hus := hs.used
  have hin := hs.contains_iff (p := q) (by omega) (by omega)
  rw [ackBitmask]
  split
  · next hc =>
    have hq := (hin.mp hc).2
    rw [Nat.testBit_or, Bool.or_eq_true, SeqNum.ofPos_next, getInBuffer_ofPos]
    by_cases hr : r.Received q
    · have hunset : (r.bufferAt q).type ≠ .unset := hr
      rw [if_pos hunset, Nat.one_shiftLeft, Nat.testBit_two_pow]
      simp [hq, hr]
    · have hunset : ¬ (r.bufferAt q).type ≠ .unset := hr
      rw [if_neg hunset]
      simp [hq, hr]
  · next hc =>
    have hq : ¬ q < e := fun hq ↦ hc (hin.mpr ⟨hl, hq⟩)
    simp [hq]

private theorem testBit_ackBitmask {r : Receiver n} {b e : Int} (hs : r.inRing.Spans b e)
    (idx : Nat) : ∀ {q : Int} {i : Nat}, b ≤ q → q ≤ e + 1 →
      ((r.ackBitmask idx (.ofPos q)).testBit i = true ↔
        ∃ p, q ≤ p ∧ p + i + 1 = q + idx ∧ p < e ∧ r.Received p) := by
  induction idx with
  | zero =>
    intro q i _ _
    simp only [ackBitmask, Nat.zero_testBit, Bool.false_eq_true, false_iff, not_exists, not_and]
    omega
  | succ idx ih =>
    intro q i hl hu
    rw [testBit_ackBitmask_succ hs hl hu]
    constructor
    · rintro ⟨hq, ⟨rfl, hr⟩ | hbit⟩
      · exact ⟨q, le_refl q, by omega, hq, hr⟩
      · obtain ⟨p, hp, hi, he, hr⟩ := (ih (by omega) (by omega)).mp hbit
        exact ⟨p, by omega, by omega, he, hr⟩
    · rintro ⟨p, hp, hi, he, hr⟩
      refine ⟨by omega, ?_⟩
      by_cases hfirst : idx = i
      · obtain rfl : p = q := by omega
        exact .inl ⟨hfirst, hr⟩
      · exact .inr ((ih (by omega) (by omega)).mpr ⟨p, by omega, by omega, he, hr⟩)

/-- An acknowledgement names the first position that is missing, and the positions past it, up to
64 of them, that are not. -/
theorem Window.ack {r : Receiver n} {b u e : Int} (h : r.Window b u e) (hne : r.ack.2 ≠ []) :
    ∃ bitmap, r.ack.2 = storeBeU16 (formatPacketHeader (.ofPos u) .dataAck r.controlBit) ++ bitmap ∧
      bitmap.length ≤ 8 ∧ ∀ j : Nat, (bitmap.flatMap bitsMsb)[j]? = some true ↔
        j < 64 ∧ u + 1 + j < e ∧ r.Received (u + 1 + j) := by
  unfold Receiver.ack at hne ⊢
  split at hne
  · exact absurd rfl hne
  next hdue =>
  rw [if_neg hdue, h.unack_eq, SeqNum.ofPos_next]
  refine ⟨_, rfl, ?_, fun j ↦ ?_⟩
  · have hle := (List.rdropWhile_prefix (· == 0)
      (l := beBytes 8 (r.ackBitmask 64 (.ofPos (u + 1))))).length_le
    rwa [length_beBytes] at hle
  have hb := h.begin_le
  have he := h.le_end
  rw [getElem?_bits_rdropWhile_iff, testBit_ackBitmask h.spans 64 (by omega) (by omega)]
  constructor
  · rintro ⟨hlt, p, hp, hi, he, hr⟩
    obtain rfl : p = u + 1 + j := by omega
    exact ⟨hlt, he, hr⟩
  · rintro ⟨hlt, he, hr⟩
    exact ⟨hlt, u + 1 + j, by omega, by omega, he, hr⟩

end Receiver

end RooTransport.Link
