import Mathlib.Data.List.DropRight
import Mathlib.Data.Nat.Basic
import Mathlib.Tactic.IntervalCases
import Mathlib.Tactic.Positivity

/-!
# Big-endian numbers and byte copies

Support library. Numbers are stored most significant byte first; copying overwrites a
stretch of a byte list in place.
-/

namespace RooTransport.Base

/-- The low `k` bytes of a number, most significant first. -/
def beBytes : Nat → Nat → List UInt8
  | 0, _ => []
  | k + 1, x => beBytes k (x / 256) ++ [UInt8.ofNat (x % 256)]

/-- The number whose big-endian bytes are given. -/
def beNat (bs : List UInt8) : Nat := bs.foldl (fun acc b ↦ acc * 256 + b.toNat) 0

/-- A number of `k` bytes has `k` bytes. -/
@[simp] theorem length_beBytes (k x : Nat) : (beBytes k x).length = k := by
  induction k generalizing x with
  | zero => rfl
  | succ k ih => simp [beBytes, ih]

/-- Reading back stored bytes gives the number modulo the range stored. -/
theorem beNat_beBytes (k x : Nat) : beNat (beBytes k x) = x % 256 ^ k := by
  induction k generalizing x with
  | zero => simp [beBytes, beNat, Nat.mod_one]
  | succ k ih =>
    have hb : (UInt8.ofNat (x % 256)).toNat = x % 256 := by simp
    have hf := ih (x / 256)
    simp only [beNat] at hf
    simp only [beBytes, beNat, List.foldl_append, hf, List.foldl_cons, List.foldl_nil, hb]
    rw [Nat.pow_succ, Nat.mul_comm (256 ^ k), Nat.mod_mul]
    omega

private theorem beNat_append_singleton (bs : List UInt8) (b : UInt8) :
    beNat (bs ++ [b]) = beNat bs * 256 + b.toNat := by
  simp [beNat, List.foldl_append]

/-- A number of so many bytes is below that power of 256. -/
theorem beNat_lt (bs : List UInt8) : beNat bs < 256 ^ bs.length := by
  induction bs using List.reverseRecOn with
  | nil => simp [beNat]
  | append_singleton bs b ih =>
    have hb := b.toNat_lt
    rw [beNat_append_singleton, List.length_append, List.length_singleton, pow_succ]
    omega

/-- Storing the number read gives the bytes back. -/
theorem beBytes_beNat (bs : List UInt8) : beBytes bs.length (beNat bs) = bs := by
  induction bs using List.reverseRecOn with
  | nil => rfl
  | append_singleton bs b ih =>
    have hb := b.toNat_lt
    have hdiv : (beNat bs * 256 + b.toNat) / 256 = beNat bs := by omega
    have hmod : (beNat bs * 256 + b.toNat) % 256 = b.toNat := by omega
    rw [beNat_append_singleton, List.length_append, List.length_singleton, beBytes, hdiv, hmod, ih,
      UInt8.ofNat_toNat]

/-- Overwrite `src.length` bytes of `dst`, starting at the front. -/
def overwrite (dst src : List UInt8) : List UInt8 := src ++ dst.drop src.length

/-- The front holds what was written over it. -/
theorem take_overwrite (dst src : List UInt8) : (overwrite dst src).take src.length = src := by
  simp [overwrite]

/-- Writing nothing changes nothing. -/
@[simp] theorem overwrite_nil (dst : List UInt8) : overwrite dst [] = dst := rfl

/-! ### Overwriting the front again and again -/

private theorem foldl_overwrite_filter (pieces : List (List UInt8)) (dst : List UInt8) :
    (pieces.filter (· ≠ [])).foldl overwrite dst = pieces.foldl overwrite dst := by
  induction pieces generalizing dst with
  | nil => rfl
  | cons piece pieces ih =>
    by_cases hnil : piece = []
    · simpa [hnil] using ih dst
    · simpa [hnil] using ih (overwrite dst piece)

private theorem flatten_filter (pieces : List (List UInt8)) :
    (pieces.filter (· ≠ [])).flatten = pieces.flatten := by
  induction pieces with
  | nil => rfl
  | cons piece pieces ih =>
    by_cases hnil : piece = []
    · simpa [hnil] using ih
    · simpa [hnil] using ih

/-- What lies beyond every piece is not touched. -/
theorem getElem?_foldl_overwrite {pieces : List (List UInt8)} {i : Nat} (dst : List UInt8)
    (h : ∀ piece ∈ pieces, piece.length ≤ i) : (pieces.foldl overwrite dst)[i]? = dst[i]? := by
  induction pieces generalizing dst with
  | nil => rfl
  | cons piece pieces ih =>
    have hpiece : piece.length ≤ i := h piece List.mem_cons_self
    rw [List.foldl_cons, ih _ fun p hp ↦ h p (List.mem_cons_of_mem _ hp), overwrite,
      List.getElem?_append_right hpiece, List.getElem?_drop]
    congr 1
    omega

/-- Of several pieces none is as long as all of them. -/
theorem length_lt_flatten {pieces : List (List UInt8)} (hne : ∀ piece ∈ pieces, piece ≠ [])
    (htwo : 2 ≤ pieces.length) {piece : List UInt8} (hmem : piece ∈ pieces) :
    piece.length < pieces.flatten.length := by
  obtain ⟨before, after, rfl⟩ := List.append_of_mem hmem
  have hother : ∃ other ∈ before ++ after, other ≠ [] := by
    have hlen : 0 < (before ++ after).length := by
      simp at htwo ⊢
      omega
    obtain ⟨other, hother⟩ := List.exists_mem_of_length_pos hlen
    refine ⟨other, hother, hne other ?_⟩
    simp only [List.mem_append, List.mem_cons] at hother ⊢
    tauto
  obtain ⟨other, hother, hnil⟩ := hother
  have hpos : 0 < (before ++ after).flatten.length := by
    rw [List.length_pos_iff, ne_eq, List.flatten_eq_nil_iff]
    intro hall
    exact hnil (hall other hother)
  simp only [List.flatten_append, List.flatten_cons, List.length_append] at hpos ⊢
  omega

/-- Pieces written to the front one after the other come out in a row, whatever was there before,
only if there is no more than one. -/
theorem foldl_overwrite_eq_flatten_iff {pieces : List (List UInt8)} {count : Nat}
    (hcount : pieces.flatten.length ≤ count) :
    (∀ dst : List UInt8, count ≤ dst.length →
      (pieces.foldl overwrite dst).take pieces.flatten.length = pieces.flatten) ↔
    (pieces.filter (· ≠ [])).length ≤ 1 := by
  have hflatten := flatten_filter pieces
  constructor
  · intro h
    by_contra htwo
    -- The last byte of all lies beyond every piece, so it is what was there before.
    have hne : ∀ piece ∈ pieces.filter (· ≠ []), piece ≠ [] := by simp
    have hlast : ∀ piece ∈ pieces.filter (· ≠ []), piece.length ≤ pieces.flatten.length - 1 := by
      intro piece hmem
      have hlt := length_lt_flatten hne (by omega) hmem
      rw [hflatten] at hlt
      omega
    have hpos : 0 < pieces.flatten.length := by
      obtain ⟨piece, hmem⟩ := List.exists_mem_of_length_pos (l := pieces.filter (· ≠ [])) (by omega)
      have hlt := length_lt_flatten hne (by omega) hmem
      rw [hflatten] at hlt
      omega
    obtain ⟨x, hx⟩ : ∃ x, pieces.flatten[pieces.flatten.length - 1]? = some x :=
      ⟨_, List.getElem?_eq_getElem (by omega)⟩
    have hbuf := h (List.replicate count (x + 1)) (by simp)
    have hbyte := congrArg (fun bs ↦ bs[pieces.flatten.length - 1]?) hbuf
    rw [hx, List.getElem?_take_of_lt (by omega), ← foldl_overwrite_filter,
      getElem?_foldl_overwrite _ hlast, List.getElem?_replicate_of_lt (by omega)] at hbyte
    simp at hbyte
  · intro hone dst _
    rw [← foldl_overwrite_filter, ← hflatten]
    match pieces.filter (· ≠ []), hone with
    | [], _ => simp
    | [piece], _ => simpa using take_overwrite dst piece

/-- The eight bits of a byte, most significant first. -/
def bitsMsb (b : UInt8) : List Bool :=
  [b.toNat.testBit 7, b.toNat.testBit 6, b.toNat.testBit 5, b.toNat.testBit 4,
   b.toNat.testBit 3, b.toNat.testBit 2, b.toNat.testBit 1, b.toNat.testBit 0]

private theorem getElem?_bitsMsb (x j : Nat) (hj : j < 8) :
    (bitsMsb (UInt8.ofNat (x % 256)))[j]? = some (x.testBit (7 - j)) := by
  have hb (i : Nat) (hi : i < 8) : (UInt8.ofNat (x % 256)).toNat.testBit i = x.testBit i := by
    have h256 : x % 256 = x % 2 ^ 8 := rfl
    have hn : (UInt8.ofNat (x % 256)).toNat = x % 256 := by simp
    rw [hn, h256, Nat.testBit_mod_two_pow, decide_eq_true hi, Bool.true_and]
  unfold bitsMsb
  interval_cases j <;> exact congrArg some (hb _ (by norm_num))

/-- Every byte has eight bits. -/
theorem length_bits (bs : List UInt8) : (bs.flatMap bitsMsb).length = 8 * bs.length := by
  induction bs with
  | nil => rfl
  | cons b bs ih =>
    rw [List.flatMap_cons, List.length_append, ih, List.length_cons]
    simp only [bitsMsb, List.length_cons, List.length_nil]
    omega

/-- The bits of stored bytes are those of the number, the most significant first. -/
theorem getElem?_bits (k x j : Nat) (hj : j < 8 * k) :
    ((beBytes k x).flatMap bitsMsb)[j]? = some (x.testBit (8 * k - 1 - j)) := by
  induction k generalizing x with
  | zero => omega
  | succ k ih =>
    have hlen : ((beBytes k (x / 256)).flatMap bitsMsb).length = 8 * k := by
      rw [length_bits, length_beBytes]
    rw [beBytes, List.flatMap_append, List.flatMap_singleton]
    by_cases hlow : j < 8 * k
    · have h256 : x / 256 = x / 2 ^ 8 := rfl
      rw [List.getElem?_append_left (by omega), ih _ hlow, h256, Nat.testBit_div_two_pow]
      congr 2
      omega
    · rw [List.getElem?_append_right (by omega), hlen, getElem?_bitsMsb x _ (by omega)]
      congr 2
      omega

private theorem getElem?_bitsMsb_zero (j : Nat) : (bitsMsb 0)[j]? ≠ some true := by
  have hbits : bitsMsb 0 = List.replicate 8 false := by decide
  rw [hbits, List.getElem?_replicate]
  split
  · simp
  · simp

private theorem getElem?_bits_zeros {bs : List UInt8} (h : ∀ b ∈ bs, b = 0) (j : Nat) :
    (bs.flatMap bitsMsb)[j]? ≠ some true := by
  intro hj
  obtain ⟨b, hb, i, hi⟩ : ∃ b ∈ bs, ∃ i : Nat, (bitsMsb b)[i]? = some true := by
    obtain ⟨b, hb, hmem⟩ := List.mem_flatMap.mp (List.mem_of_getElem? hj)
    exact ⟨b, hb, List.mem_iff_getElem?.mp hmem⟩
  rw [h b hb] at hi
  exact getElem?_bitsMsb_zero i hi

/-- The bits set in stored bytes are those of the number, also without the trailing zero bytes. -/
theorem getElem?_bits_rdropWhile_iff {k x j : Nat} :
    (((beBytes k x).rdropWhile (· == 0)).flatMap bitsMsb)[j]? = some true ↔
      j < 8 * k ∧ x.testBit (8 * k - 1 - j) = true := by
  have hfull : ((beBytes k x).flatMap bitsMsb)[j]? = some true ↔
      j < 8 * k ∧ x.testBit (8 * k - 1 - j) = true := by
    constructor
    · intro h
      have hj : j < 8 * k := by
        obtain ⟨hj, -⟩ := List.getElem?_eq_some_iff.mp h
        rwa [length_bits, length_beBytes] at hj
      rw [getElem?_bits k x j hj] at h
      exact ⟨hj, Option.some.inj h⟩
    · rintro ⟨hj, hbit⟩
      rw [getElem?_bits k x j hj, hbit]
  have hsplit : (beBytes k x).rdropWhile (· == 0) ++ (beBytes k x).rtakeWhile (· == 0) =
      beBytes k x := List.rdropWhile_append_rtakeWhile ..
  have hzeros : ∀ b ∈ (beBytes k x).rtakeWhile (· == 0), b = 0 := by
    intro b hb
    simpa using List.mem_rtakeWhile_imp hb
  rw [← hfull]
  conv_rhs => rw [← hsplit, List.flatMap_append]
  by_cases hj : j < (((beBytes k x).rdropWhile (· == 0)).flatMap bitsMsb).length
  · rw [List.getElem?_append_left hj]
  · rw [List.getElem?_append_right (by omega), List.getElem?_eq_none (by omega)]
    simp [getElem?_bits_zeros hzeros]

end RooTransport.Base
