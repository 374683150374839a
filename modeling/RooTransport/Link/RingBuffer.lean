import RooTransport.Base.Serial

/-!
# Sequence numbers and ring windows

`link/internal/seq_num.h` and `link/internal/ring_buffer.h`. A sequence number is a
16-bit residue compared by the sign of the wrapped difference; a ring window is a pair
of them at most one capacity apart. The second half reads windows back as intervals of
unbounded positions, which is how every later module reasons about them.
-/

namespace RooTransport.Link

open RooTransport.Base

/-- `link_buffer_size.h:7–23`: buffer sizes are powers of two up to `2 ^ 10` slots. The
constructor checks of `ring_buffer.h:20–21` hold by the type. -/
abbrev LinkBufferSize := Fin 11

/-- The run-time `CHECK`s of the link layer; a failing one aborts the program. -/
inductive Check where
  /-- `ring_buffer.h:37`, no free slot to push. -/
  | ringPush
  /-- `ring_buffer.h:43`, no used slot to pop. -/
  | ringPop
  /-- `ring_buffer.h:52`, resetting a window that is not empty. -/
  | ringReset
  /-- `in_buffer.h:27`, a payload longer than the buffer. -/
  | inBufferSize
  /-- `out_buffer.h:38`, writing to a buffer with no room left. -/
  | outBufferFull
  /-- `out_buffer.h:81`, rushing a packet that was never sent. -/
  | rushUnsent
  /-- `receiver.cpp:26`, connecting over buffered input. -/
  | connectNotEmpty
  /-- `receiver.cpp:74`, reading past the end of the current buffer. -/
  | readPosition
  /-- `receiver.cpp:93`, packets buffered behind the final one. -/
  | finNotLast
  /-- `transmitter.cpp:31`, the send window ends beyond the credit. -/
  | himarkBehind
  /-- `channel.cpp:403`, handshake over buffered input. -/
  | handshakeNotEmpty
  /-- `channel.cpp:458`, an acknowledgement of the absent stream. -/
  | ackOfNoStream
  deriving DecidableEq, Repr

/-- `seq_num.h:29–88`. -/
structure SeqNum where
  raw : BitVec 16
  deriving DecidableEq, Repr

namespace SeqNum

/-- `seq_num.h:76`, wrapped distance from `other` to this value. -/
def diff (a other : SeqNum) : Int := signedDist a.raw other.raw

/-- `seq_num.h:41–43`. -/
instance : LT SeqNum where lt a b := a.diff b < 0

/-- `seq_num.h:46–48`. -/
instance : LE SeqNum where le a b := a.diff b ≤ 0

instance (a b : SeqNum) : Decidable (a < b) := inferInstanceAs (Decidable (a.diff b < 0))

instance (a b : SeqNum) : Decidable (a ≤ b) := inferInstanceAs (Decidable (a.diff b ≤ 0))

/-- `seq_num.h:51–53`. Not the converse of `<` when the two are half the range apart. -/
def Gt (a b : SeqNum) : Prop := 0 < a.diff b

/-- `seq_num.h:56–58`. -/
def Ge (a b : SeqNum) : Prop := 0 ≤ a.diff b

instance (a b : SeqNum) : Decidable (a.Gt b) := inferInstanceAs (Decidable (0 < a.diff b))

instance (a b : SeqNum) : Decidable (a.Ge b) := inferInstanceAs (Decidable (0 ≤ a.diff b))

/-- `seq_num.h:79`; `operator-(int)` of line 81 is the same with a negative argument. -/
def add (a : SeqNum) (k : Int) : SeqNum := ⟨a.raw + BitVec.ofInt 16 k⟩

/-- `seq_num.h:61–67`, the incremented number. -/
def next (a : SeqNum) : SeqNum := a.add 1

/-- The sequence number of an unbounded position. -/
def ofPos (p : Int) : SeqNum := ⟨wrap 16 p⟩

/-- Sequence numbers go forward as positions do. -/
theorem ofPos_add (p k : Int) : (ofPos p).add k = ofPos (p + k) := by
  simp only [ofPos, add, ← wrap_add]
  rfl

/-- The next sequence number is that of the next position. -/
theorem ofPos_next (p : Int) : (ofPos p).next = ofPos (p + 1) := ofPos_add p 1

/-- Every sequence number is that of some position, for example its own raw value. -/
theorem ofPos_raw (a : SeqNum) : ofPos a.raw.toNat = a := by
  simp only [ofPos, wrap_toNat]

/-- A turn of the whole range is none. -/
theorem ofPos_turn (p : Int) : ofPos (p + 65536) = ofPos p :=
  congrArg SeqNum.mk ((wrap_eq_iff _ _).mpr (by norm_num))

/-- Every sequence number is that of a position within half the range of any given one. -/
theorem exists_ofPos_near (a : SeqNum) (b : Int) :
    ∃ q, a = ofPos q ∧ b - 32768 ≤ q ∧ q < b + 32768 := by
  refine ⟨b - 32768 + (a.raw.toNat - (b - 32768)) % 65536, ?_, by omega, by omega⟩
  rw [← ofPos_raw a]
  exact congrArg SeqNum.mk ((wrap_eq_iff _ _).mpr (by norm_num [ofPos, toNat_wrap]; omega))

/-- The distance of two sequence numbers that are near each other. -/
theorem diff_ofPos {p q : Int} (hl : -32768 ≤ p - q) (hu : p - q < 32768) :
    (ofPos p).diff (ofPos q) = p - q := by
  apply signedDist_wrap
  · norm_num; omega
  · norm_num; omega

/-- Within half the range, wrapped order is the order of positions. -/
theorem ofPos_lt {p q : Int} (hl : -32768 ≤ p - q) (hu : p - q < 32768) :
    ofPos p < ofPos q ↔ p < q := by
  change (ofPos p).diff (ofPos q) < 0 ↔ _
  rw [diff_ofPos hl hu]
  omega

/-- Sequence numbers that are near each other are in the order of their positions. -/
theorem ofPos_le {p q : Int} (hl : -32768 ≤ p - q) (hu : p - q < 32768) :
    ofPos p ≤ ofPos q ↔ p ≤ q := by
  change (ofPos p).diff (ofPos q) ≤ 0 ↔ _
  rw [diff_ofPos hl hu]
  omega

/-- The strict order of sequence numbers that are near each other. -/
theorem ofPos_gt {p q : Int} (hl : -32768 ≤ p - q) (hu : p - q < 32768) :
    (ofPos p).Gt (ofPos q) ↔ q < p := by
  rw [Gt, diff_ofPos hl hu]
  omega

/-- The reverse order of sequence numbers that are near each other. -/
theorem ofPos_ge {p q : Int} (hl : -32768 ≤ p - q) (hu : p - q < 32768) :
    (ofPos p).Ge (ofPos q) ↔ q ≤ p := by
  rw [Ge, diff_ofPos hl hu]
  omega

/-- Within the full range, one sequence number is one position. -/
theorem ofPos_eq {p q : Int} (hl : -65536 < p - q) (hu : p - q < 65536) :
    ofPos p = ofPos q ↔ p = q := by
  refine ⟨fun h ↦ wrap_inj (w := 16) ?_ ?_ (congrArg raw h), fun h ↦ by rw [h]⟩
  · norm_num; omega
  · norm_num; omega

/-- A sequence number is not before itself. -/
theorem ge_refl (a : SeqNum) : a.Ge a := by
  rw [← ofPos_raw a, ofPos_ge (by omega) (by omega)]

/-- A sequence number is after another if it is not before it and is not the same. -/
theorem gt_iff {a b : SeqNum} : a.Gt b ↔ a.Ge b ∧ a ≠ b := by
  obtain ⟨p, rfl, hl, hu⟩ := a.exists_ofPos_near b.raw.toNat
  rw [← ofPos_raw b, ofPos_gt (by omega) (by omega), ofPos_ge (by omega) (by omega), ne_eq,
    ofPos_eq (by omega) (by omega)]
  omega

end SeqNum

/-- `ring_buffer.h:14–88`, a window of at most `2 ^ n` sequence numbers. -/
structure RingBuffer (n : LinkBufferSize) where
  begin_ : SeqNum
  end_ : SeqNum
  used_le : forwardDist end_.raw begin_.raw ≤ 2 ^ n.val

namespace RingBuffer

variable {n : LinkBufferSize}

/-- `ring_buffer.h:17–22`. -/
def new (n : LinkBufferSize) (initialSeq : SeqNum) : RingBuffer n :=
  ⟨initialSeq, initialSeq, by simp [forwardDist]⟩

/-- `ring_buffer.h:80`. -/
def capacity (_ : RingBuffer n) : Nat := 2 ^ n.val

/-- `ring_buffer.h:25`. -/
def slotsUsed (r : RingBuffer n) : Nat := forwardDist r.end_.raw r.begin_.raw

/-- `ring_buffer.h:28`. -/
def slotsFree (r : RingBuffer n) : Nat := r.capacity - r.slotsUsed

/-- `ring_buffer.h:48`. -/
def empty (r : RingBuffer n) : Bool := r.slotsUsed == 0

private theorem forwardDist_next (a b : SeqNum) :
    forwardDist a.next.raw b.raw ≤ forwardDist a.raw b.raw + 1 := by
  change (a.raw + 1#16 - b.raw).toNat ≤ (a.raw - b.raw).toNat + 1
  bv_omega

private theorem forwardDist_back (a b : SeqNum) (h : 0 < forwardDist a.raw b.raw) :
    forwardDist a.raw b.next.raw = forwardDist a.raw b.raw - 1 := by
  change 0 < (a.raw - b.raw).toNat at h
  change (a.raw - (b.raw + 1#16)).toNat = (a.raw - b.raw).toNat - 1
  bv_omega

/-- `ring_buffer.h:36–39`. -/
def push (r : RingBuffer n) : Except Check (SeqNum × RingBuffer n) :=
  if h : 0 < r.slotsFree then
    .ok (r.end_, ⟨r.begin_, r.end_.next, by
      have hn := forwardDist_next r.end_ r.begin_
      simp only [slotsFree, slotsUsed, capacity] at h
      omega⟩)
  else .error .ringPush

/-- `ring_buffer.h:42–45`. -/
def pop (r : RingBuffer n) : Except Check (SeqNum × RingBuffer n) :=
  if h : 0 < r.slotsUsed then
    .ok (r.begin_, ⟨r.begin_.next, r.end_, by
      have hb := forwardDist_back r.end_ r.begin_ h
      have hu := r.used_le
      omega⟩)
  else .error .ringPop

/-- `ring_buffer.h:51–55`. -/
def reset (r : RingBuffer n) (seq : SeqNum) : Except Check (RingBuffer n) :=
  if r.begin_ = r.end_ then .ok (new n seq) else .error .ringReset

/-- `ring_buffer.h:58`. -/
def contains (r : RingBuffer n) (seq : SeqNum) : Bool := r.begin_ ≤ seq ∧ seq < r.end_

/-- `ring_buffer.h:61–64`, the low bits of the sequence number. -/
def offsetFor (_ : RingBuffer n) (seq : SeqNum) : Fin (2 ^ n.val) :=
  ⟨seq.raw.toNat &&& (2 ^ n.val - 1), by
    rw [Nat.and_two_pow_sub_one_eq_mod]
    exact Nat.mod_lt _ (by positivity)⟩

/-- `ring_buffer.h:71–75`. -/
def restorePosHighBits (r : RingBuffer n) (truncatedPos : BitVec 16) (posBits : Nat) : SeqNum :=
  ⟨expandNear posBits r.begin_.raw truncatedPos⟩

/-- The loop `while (!ring.empty()) ring.pop();`, run for at most `fuel` rounds. -/
def popLoop : Nat → RingBuffer n → Except Check (RingBuffer n)
  | 0, r => .ok r
  | fuel + 1, r =>
    if r.empty then .ok r
    else
      match r.pop with
      | .error c => .error c
      | .ok (_, r') => popLoop fuel r'

/-- Drop every slot; there are as many rounds as used slots. -/
def popAll (r : RingBuffer n) : Except Check (RingBuffer n) := popLoop r.slotsUsed r

/-! ### Windows as intervals of positions -/

/-- The window covers exactly the positions from `b` to `e`, the last one excluded. -/
structure Spans (r : RingBuffer n) (b e : Int) : Prop where
  begin_eq : r.begin_ = .ofPos b
  end_eq : r.end_ = .ofPos e
  le : b ≤ e
  used : e ≤ b + 2 ^ n.val

/-- A capacity is at most 1024 slots. -/
theorem capacity_le (n : LinkBufferSize) : (2 : Int) ^ n.val ≤ 1024 := by
  have h : (2 : Int) ^ n.val ≤ 2 ^ 10 := pow_le_pow_right₀ (by norm_num) (by omega)
  norm_num at h
  exact h

/-- A buffer has at least one slot. -/
theorem one_le_capacity (n : LinkBufferSize) : (1 : Int) ≤ 2 ^ n.val :=
  one_le_pow₀ (by norm_num)

/-- Fixing the position of its start, every window spans one interval. -/
theorem exists_spans_of_begin (r : RingBuffer n) {b : Int} (hb : r.begin_ = .ofPos b) :
    r.Spans b (b + r.slotsUsed) := by
  refine ⟨hb, ?_, by omega, ?_⟩
  · have h : r.end_.raw = wrap 16 b + wrap 16 r.slotsUsed := by
      have hw : r.begin_.raw = wrap 16 b := congrArg SeqNum.raw hb
      rw [← hw, slotsUsed, forwardDist, wrap_toNat, BitVec.add_comm, BitVec.sub_add_cancel]
    rw [wrap_add] at h
    cases r with
    | mk b' e' hu => exact congrArg SeqNum.mk h
  · have hu : (r.slotsUsed : Int) ≤ 2 ^ n.val := by exact_mod_cast r.used_le
    omega

/-- Every window spans the interval that starts at its own raw begin. -/
theorem exists_spans (r : RingBuffer n) : ∃ b e, r.Spans b e :=
  ⟨_, _, r.exists_spans_of_begin (SeqNum.ofPos_raw r.begin_).symm⟩

/-- A new ring spans nothing. -/
theorem spans_new (n : LinkBufferSize) (p : Int) : (new n (.ofPos p)).Spans p p :=
  ⟨rfl, rfl, le_refl p, by have := one_le_capacity n; omega⟩

namespace Spans

variable {r : RingBuffer n} {b e : Int}

/-- The slots in use are those that the ring spans. -/
theorem slotsUsed_eq (h : r.Spans b e) : (r.slotsUsed : Int) = e - b := by
  have hc := capacity_le n
  have hu := h.used
  rw [slotsUsed, h.begin_eq, h.end_eq]
  exact forwardDist_wrap h.le (by norm_num; omega)

private theorem capacity_eq (r : RingBuffer n) : (r.capacity : Int) = 2 ^ n.val := by
  simp [capacity]

/-- The position one window past the start, up to which a receiver grants credit. -/
theorem begin_add_capacity (h : r.Spans b e) :
    r.begin_.add r.capacity = .ofPos (b + 2 ^ n.val) := by
  rw [h.begin_eq, SeqNum.ofPos_add, capacity_eq]

/-- The slots that are free are the others. -/
theorem slotsFree_eq (h : r.Spans b e) : (r.slotsFree : Int) = b + 2 ^ n.val - e := by
  have hs := h.slotsUsed_eq
  have hu := h.used
  have hc := capacity_eq r
  rw [slotsFree]
  omega

/-- A ring is empty if it spans nothing. -/
theorem empty_iff (h : r.Spans b e) : r.empty = true ↔ b = e := by
  have hs := h.slotsUsed_eq
  simp only [empty, beq_iff_eq]
  omega

/-- A ring is not empty if it spans something. -/
theorem empty_eq_false (h : r.Spans b e) : r.empty = false ↔ b < e := by
  have hs := h.slotsUsed_eq
  have hl := h.le
  simp only [empty, beq_eq_false_iff_ne]
  omega

/-- Membership of a position anywhere near the window is membership in the interval. -/
theorem contains_iff (h : r.Spans b e) {p : Int} (hl : b - 16384 ≤ p) (hu : p ≤ b + 16384) :
    r.contains (.ofPos p) = true ↔ b ≤ p ∧ p < e := by
  have hc := capacity_le n
  have hle := h.le
  have hus := h.used
  simp only [contains, h.begin_eq, h.end_eq, decide_eq_true_eq]
  rw [SeqNum.ofPos_le (by omega) (by omega), SeqNum.ofPos_lt (by omega) (by omega)]

/-- A ring contains what it spans. -/
theorem contains_of_mem (h : r.Spans b e) {p : Int} (hl : b ≤ p) (hu : p < e) :
    r.contains (.ofPos p) = true := by
  have hcap := capacity_le n
  have hus := h.used
  exact (h.contains_iff (by omega) (by omega)).mpr ⟨hl, hu⟩

/-- Every sequence number contained in a nonempty window is that of one of its positions. -/
theorem contains_pos (h : r.Spans b e) (hlt : b < e) {s : SeqNum} (hc : r.contains s = true) :
    ∃ q, s = .ofPos q ∧ b ≤ q ∧ q < e := by
  have hcap := capacity_le n
  have hus := h.used
  obtain ⟨q, rfl, hl, hu⟩ := SeqNum.exists_ofPos_near s b
  rw [contains, decide_eq_true_iff, h.begin_eq, h.end_eq] at hc
  by_cases hanti : q = b - 32768
  · -- Half the range away both orders hold at the start, but not at the end.
    exfalso
    have hq : SeqNum.ofPos q = .ofPos (b + 32768) :=
      congrArg SeqNum.mk ((wrap_eq_iff _ _).mpr (by omega))
    rw [hq, SeqNum.ofPos_lt (by omega) (by omega)] at hc
    omega
  · rw [SeqNum.ofPos_le (by omega) (by omega)] at hc
    rw [SeqNum.ofPos_lt (by omega) (by omega)] at hc
    exact ⟨q, rfl, hc.1, hc.2⟩

/-- How far a position of the window is from its start. -/
theorem forwardDist_eq (h : r.Spans b e) {p : Int} (hl : b ≤ p) (hu : p < e) :
    (forwardDist (SeqNum.ofPos p).raw r.begin_.raw : Int) = p - b := by
  have hc := capacity_le n
  have hus := h.used
  rw [h.begin_eq]
  exact forwardDist_wrap hl (by norm_num; omega)

/-- Every sequence number less than the used slots past the start is that of a position of the
window. -/
theorem exists_pos (h : r.Spans b e) {s : SeqNum}
    (hs : forwardDist s.raw r.begin_.raw < r.slotsUsed) : ∃ p, s = .ofPos p ∧ b ≤ p ∧ p < e := by
  have hu := h.slotsUsed_eq
  refine ⟨b + forwardDist s.raw r.begin_.raw, ?_, by omega, by omega⟩
  have hw : r.begin_.raw = wrap 16 b := congrArg SeqNum.raw h.begin_eq
  have hraw : s.raw = wrap 16 (b + forwardDist s.raw r.begin_.raw) := by
    rw [← wrap_add, ← hw, forwardDist, wrap_toNat, BitVec.add_comm, BitVec.sub_add_cancel]
  cases s with
  | mk raw => exact congrArg SeqNum.mk hraw

/-- Pushing extends the interval by the position it returns. -/
theorem push_ok (h : r.Spans b e) (hf : e < b + 2 ^ n.val) :
    ∃ r', r.push = .ok (.ofPos e, r') ∧ r'.Spans b (e + 1) := by
  have hs := h.slotsFree_eq
  have hp : 0 < r.slotsFree := by omega
  obtain ⟨r', hr, hb, he⟩ : ∃ r', r.push = .ok (r.end_, r') ∧ r'.begin_ = r.begin_ ∧
      r'.end_ = r.end_.next := ⟨_, dif_pos hp, rfl, rfl⟩
  have hl := h.le
  refine ⟨r', by rw [hr, h.end_eq], hb.trans h.begin_eq, ?_, by omega, by omega⟩
  rw [he, h.end_eq, SeqNum.ofPos_next]

/-- Popping drops the first position of a nonempty interval. -/
theorem pop_ok (h : r.Spans b e) (hf : b < e) :
    ∃ r', r.pop = .ok (.ofPos b, r') ∧ r'.Spans (b + 1) e := by
  have hs := h.slotsUsed_eq
  have hp : 0 < r.slotsUsed := by omega
  obtain ⟨r', hr, hb, he⟩ : ∃ r', r.pop = .ok (r.begin_, r') ∧ r'.begin_ = r.begin_.next ∧
      r'.end_ = r.end_ := ⟨_, dif_pos hp, rfl, rfl⟩
  have hu := h.used
  refine ⟨r', by rw [hr, h.begin_eq], ?_, he.trans h.end_eq, by omega, by omega⟩
  rw [hb, h.begin_eq, SeqNum.ofPos_next]

/-- Nothing is taken from an empty ring. -/
theorem pop_error (h : r.Spans b b) : r.pop = .error .ringPop := by
  have hs := h.slotsUsed_eq
  rw [pop, dif_neg (by omega)]

/-- An empty window is determined by where it stands. -/
theorem eq_new (h : r.Spans b b) : r = new n (.ofPos b) := by
  cases r
  cases h.begin_eq
  cases h.end_eq
  rfl

private theorem popLoop_ok (fuel : Nat) (r : RingBuffer n) (b : Int) (h : r.Spans b e)
    (hf : e - b = fuel) : popLoop fuel r = .ok (new n (.ofPos e)) := by
  induction fuel generalizing r b with
  | zero =>
    have hb : b = e := by omega
    subst hb
    rw [popLoop, ← h.eq_new]
  | succ fuel ih =>
    obtain ⟨r', hp, hs⟩ := h.pop_ok (by omega)
    have he : r.empty = false := h.empty_eq_false.mpr (by omega)
    simp only [popLoop, he, hp]
    exact ih r' (b + 1) hs (by omega)

/-- The positions spanned determine the window. -/
theorem unique {r' : RingBuffer n} (h : r.Spans b e) (h' : r'.Spans b e) : r = r' := by
  obtain ⟨b1, e1, h1⟩ := r
  obtain ⟨b2, e2, h2⟩ := r'
  obtain rfl : b1 = b2 := h.begin_eq.trans h'.begin_eq.symm
  obtain rfl : e1 = e2 := h.end_eq.trans h'.end_eq.symm
  rfl

/-- Emptying a window never fails and leaves it standing at its end. -/
theorem popAll_ok (h : r.Spans b e) : r.popAll = .ok (new n (.ofPos e)) :=
  popLoop_ok r.slotsUsed r b h h.slotsUsed_eq.symm

/-- An empty ring is moved to any position. -/
theorem reset_ok (h : r.Spans b b) (seq : SeqNum) : r.reset seq = .ok (new n seq) := by
  rw [reset, if_pos (by rw [h.begin_eq, h.end_eq])]

/-- A truncated number is expanded to some position within 2048 of the window's start. -/
theorem restore_near (h : r.Spans b e) (t : BitVec 16) :
    ∃ q, r.restorePosHighBits t 12 = .ofPos q ∧ b - 2048 ≤ q ∧ q < b + 2048 := by
  have he := expandNear_wrap (w := 16) (k := 12) (by norm_num) b t.toNat
  rw [wrap_toNat] at he
  refine ⟨_, by rw [restorePosHighBits, h.begin_eq]; exact congrArg SeqNum.mk he, ?_, ?_⟩
  · have := Int.emod_nonneg ((t.toNat : Int) - (b - 2 ^ (12 - 1))) (b := 2 ^ 12) (by norm_num)
    norm_num at this ⊢
    omega
  · have := Int.emod_lt_of_pos ((t.toNat : Int) - (b - 2 ^ (12 - 1))) (b := 2 ^ 12) (by norm_num)
    norm_num at this ⊢
    omega

private theorem low_bits (p : Int) :
    (SeqNum.ofPos p).raw &&& 0x0FFF#16 = wrap 16 (p % 2 ^ 12) := by
  apply BitVec.eq_of_toNat_eq
  have hm : (0x0FFF#16).toNat = 2 ^ 12 - 1 := rfl
  rw [BitVec.toNat_and, hm, Nat.and_two_pow_sub_one_eq_mod, toNat_wrap, SeqNum.ofPos, toNat_wrap]
  norm_num
  omega

/-- The low 12 bits of a position within 2048 of the window's start restore it exactly. -/
theorem restore_exact (h : r.Spans b e) {p : Int} (hl : b - 2048 ≤ p) (hu : p < b + 2048) :
    r.restorePosHighBits ((SeqNum.ofPos p).raw &&& 0x0FFF#16) 12 = .ofPos p := by
  have he := expandNear_exact (w := 16) (k := 12) (by norm_num) (b := b) (p := p)
    (t := p % 2 ^ 12) (by simp) (by norm_num; omega) (by norm_num; omega)
  rw [restorePosHighBits, h.begin_eq, low_bits]
  exact congrArg SeqNum.mk he

/-- The position half the range ahead is taken for the one half the range behind. -/
theorem restore_half (h : r.Spans b e) :
    r.restorePosHighBits ((SeqNum.ofPos (b + 2048)).raw &&& 0x0FFF#16) 12 = .ofPos (b - 2048) := by
  have hmod : (b + 2048) % 2 ^ 12 = (b - 2048) % 2 ^ 12 := by omega
  rw [low_bits, hmod, ← low_bits]
  exact h.restore_exact (le_refl _) (by omega)

end Spans

/-- The storage offset of a position. -/
def slotAt (n : LinkBufferSize) (p : Int) : Fin (2 ^ n.val) := slotOf n.val (SeqNum.ofPos p).raw

/-- The slot of a sequence number is that of its position. -/
@[simp] theorem offsetFor_ofPos (r : RingBuffer n) (p : Int) :
    r.offsetFor (.ofPos p) = slotAt n p := by
  apply Fin.ext
  simp only [offsetFor, slotAt, slotOf, Nat.and_two_pow_sub_one_eq_mod]

/-- Positions less than one capacity apart are stored in different slots. -/
theorem slotAt_ne {p q : Int} (hne : p ≠ q) (hl : -2 ^ n.val < p - q) (hu : p - q < 2 ^ n.val) :
    slotAt n p ≠ slotAt n q :=
  fun h ↦ hne (slotOf_wrap_inj (w := 16) (by omega) hl hu h)

end RingBuffer

end RooTransport.Link
