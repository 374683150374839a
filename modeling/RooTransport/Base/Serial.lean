import Mathlib.Algebra.Order.Ring.Int
import Mathlib.Tactic.Linarith
import Mathlib.Tactic.Positivity

/-!
# Serial numbers: wrapped positions on an unbounded axis

Support library. Positions are integers; what a machine keeps of one is its residue
of `w` bits. Comparison looks at the sign of the wrapped difference, and a number
truncated to `k` bits is expanded next to a known base. Both are exact as long as the
positions involved stay within half the range of each other.
-/

namespace RooTransport.Base

variable {w : Nat}

/-- The `w`-bit residue of a position. -/
def wrap (w : Nat) (p : Int) : BitVec w := BitVec.ofInt w p

/-- Sign-extended wrapped difference of two residues. -/
def signedDist (a b : BitVec w) : Int := (a - b).toInt

/-- Forward distance from `b` to `a` around the ring of residues. -/
def forwardDist (a b : BitVec w) : Nat := (a - b).toNat

/-- Wrapping commutes with adding residues. -/
theorem wrap_add (p q : Int) : wrap w p + wrap w q = wrap w (p + q) :=
  (BitVec.ofInt_add p q).symm

/-- Wrapping commutes with subtracting residues. -/
theorem wrap_sub (p q : Int) : wrap w p - wrap w q = wrap w (p - q) := by
  apply BitVec.eq_of_toInt_eq
  simp [wrap]

/-- The unsigned reading of a residue is the position modulo the range. -/
theorem toNat_wrap (p : Int) : (wrap w p).toNat = (p % 2 ^ w).toNat := by
  simp [wrap]

/-- Every residue is the wrap of its own unsigned reading. -/
theorem wrap_toNat (a : BitVec w) : wrap w a.toNat = a := by
  simp [wrap]

/-- Two positions have one residue exactly when they agree modulo the range. -/
theorem wrap_eq_iff (p q : Int) : wrap w p = wrap w q ↔ p % 2 ^ w = q % 2 ^ w := by
  rw [← BitVec.toNat_inj, toNat_wrap, toNat_wrap]
  have hp := Int.emod_nonneg p (b := 2 ^ w) (by positivity)
  have hq := Int.emod_nonneg q (b := 2 ^ w) (by positivity)
  omega

/-- Within half the range the wrapped difference is the true difference. -/
theorem signedDist_wrap {p q : Int} (hl : -2 ^ w ≤ 2 * (p - q)) (hu : 2 * (p - q) < 2 ^ w) :
    signedDist (wrap w p) (wrap w q) = p - q := by
  rw [signedDist, wrap_sub, wrap, BitVec.toInt_ofInt]
  apply Int.bmod_eq_of_le_mul_two
  · push_cast; omega
  · push_cast; omega

/-- Within the full range the forward distance is the true difference. -/
theorem forwardDist_wrap {p q : Int} (hl : q ≤ p) (hu : p - q < 2 ^ w) :
    (forwardDist (wrap w p) (wrap w q) : Int) = p - q := by
  rw [forwardDist, wrap_sub, toNat_wrap, Int.emod_eq_of_lt (by omega) hu]
  omega

/-- Residues of positions closer than the full range are equal only for one position. -/
theorem wrap_inj {p q : Int} (hl : -2 ^ w < p - q) (hu : p - q < 2 ^ w)
    (h : wrap w p = wrap w q) : p = q := by
  have hd : (p - q) % 2 ^ w = 0 := Int.emod_eq_emod_iff_emod_sub_eq_zero.mp ((wrap_eq_iff p q).mp h)
  obtain ⟨k, hk⟩ := Int.dvd_of_emod_eq_zero hd
  have hw : (0 : Int) < 2 ^ w := by positivity
  have hk0 : k = 0 := by
    by_contra hne
    rcases lt_or_gt_of_ne hne with hneg | hpos
    · nlinarith
    · nlinarith
  rw [hk0, Int.mul_zero] at hk
  omega

/-- Expand a residue known only modulo `2 ^ k` to the representative whose distance from
`base` lies in `[-2 ^ (k - 1), 2 ^ (k - 1))`. -/
def expandNear (k : Nat) (base t : BitVec w) : BitVec w :=
  let left := base - BitVec.ofNat w (2 ^ (k - 1))
  left + BitVec.ofNat w ((t - left).toNat % 2 ^ k)

private theorem left_wrap (k : Nat) (b : Int) :
    wrap w b - BitVec.ofNat w (2 ^ (k - 1)) = wrap w (b - 2 ^ (k - 1)) := by
  rw [← wrap_sub]
  congr 1

/-- Expansion always lands in the half-open window of size `2 ^ k` around the base, on
the position there that agrees with the truncated number. -/
theorem expandNear_wrap {k : Nat} (hk : k ≤ w) (b t : Int) :
    expandNear k (wrap w b) (wrap w t) =
      wrap w (b - 2 ^ (k - 1) + (t - (b - 2 ^ (k - 1))) % 2 ^ k) := by
  have hd : (2 : Int) ^ k ∣ 2 ^ w := pow_dvd_pow 2 hk
  unfold expandNear
  simp only [left_wrap, wrap_sub]
  rw [← wrap_add]
  congr 1
  rw [toNat_wrap]
  have hn := Int.emod_nonneg (t - (b - 2 ^ (k - 1))) (b := 2 ^ w) (by positivity)
  have he : (((t - (b - 2 ^ (k - 1))) % 2 ^ w).toNat % 2 ^ k : Nat) =
      ((t - (b - 2 ^ (k - 1))) % 2 ^ k).toNat := by
    have hc : (((t - (b - 2 ^ (k - 1))) % 2 ^ w).toNat % 2 ^ k : Int) =
        (t - (b - 2 ^ (k - 1))) % 2 ^ k := by
      rw [Int.toNat_of_nonneg hn, Int.emod_emod_of_dvd _ hd]
    have hp := Int.emod_nonneg (t - (b - 2 ^ (k - 1))) (b := 2 ^ k) (by positivity)
    zify
    rw [hc, Int.toNat_of_nonneg hp]
  rw [he, wrap, ← BitVec.ofInt_natCast,
    Int.toNat_of_nonneg (Int.emod_nonneg _ (by positivity))]

/-- A number truncated to `k` bits is recovered exactly when its position is within half
of `2 ^ k` of the base. -/
theorem expandNear_exact {k : Nat} (hk : k ≤ w) {b p t : Int} (ht : t % 2 ^ k = p % 2 ^ k)
    (hl : b - 2 ^ (k - 1) ≤ p) (hu : p < b - 2 ^ (k - 1) + 2 ^ k) :
    expandNear k (wrap w b) (wrap w t) = wrap w p := by
  rw [expandNear_wrap hk]
  congr 1
  have he : (t - (b - 2 ^ (k - 1))) % 2 ^ k = (p - (b - 2 ^ (k - 1))) % 2 ^ k := by
    rw [Int.sub_emod, ht, ← Int.sub_emod]
  rw [he, Int.emod_eq_of_lt (by omega) (by omega)]
  omega

/-! ### Storage offsets -/

/-- The slot, among `2 ^ n`, that a residue is stored in. -/
def slotOf (n : Nat) (a : BitVec w) : Fin (2 ^ n) :=
  ⟨a.toNat % 2 ^ n, Nat.mod_lt _ (by positivity)⟩

/-- Positions less than one revolution apart occupy different slots. -/
theorem slotOf_wrap_inj {n : Nat} (hn : n ≤ w) {p q : Int} (hl : -2 ^ n < p - q)
    (hu : p - q < 2 ^ n) (h : slotOf n (wrap w p) = slotOf n (wrap w q)) : p = q := by
  have hd : (2 : Int) ^ n ∣ 2 ^ w := pow_dvd_pow 2 hn
  have hc (x : Int) : (((wrap w x).toNat % 2 ^ n : Nat) : Int) = x % 2 ^ n := by
    rw [toNat_wrap]
    push_cast
    rw [Int.toNat_of_nonneg (Int.emod_nonneg _ (by positivity)), Int.emod_emod_of_dvd _ hd]
  have hv : p % 2 ^ n = q % 2 ^ n := by
    rw [← hc p, ← hc q]
    exact_mod_cast congrArg Fin.val h
  apply wrap_inj (w := n) hl hu
  exact (wrap_eq_iff p q).mpr hv

end RooTransport.Base
