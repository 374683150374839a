import Mathlib.Data.List.Basic
import Mathlib.Data.Nat.ModEq
import Mathlib.Logic.Function.Basic

/-!
# Circular memory

Support library. The items of a sequence are stored one after another in a memory that goes
round: item number `k` at offset `k` modulo the size. An interval of items that is no longer
than the memory is held all at once. Machine counters of items are kept in 32 bits; as long
as two of them are close, their difference is that of the item numbers.
-/

namespace RooTransport.Base

/-! ### Counters -/

/-- Close counters have the difference of what they count. -/
theorem toNat_counter_sub {a b : Nat} (hle : b ≤ a) (hlt : a - b < 2 ^ 32) :
    (UInt32.ofNat a - UInt32.ofNat b).toNat = a - b := by
  rw [UInt32.toNat_sub, UInt32.toNat_ofNat', UInt32.toNat_ofNat']
  omega

/-- The difference of counters that are not out of order. -/
theorem counter_sub {a b : Nat} (hle : b ≤ a) (hlt : a - b < 2 ^ 32) :
    UInt32.ofNat a - UInt32.ofNat b = UInt32.ofNat (a - b) := by
  apply UInt32.toNat_inj.mp
  rw [toNat_counter_sub hle hlt, UInt32.toNat_ofNat', Nat.mod_eq_of_lt hlt]

/-- Counters add up modulo `2 ^ 32`. -/
theorem counter_add (a b : Nat) : UInt32.ofNat a + UInt32.ofNat b = UInt32.ofNat (a + b) :=
  (UInt32.ofNat_add a b).symm

/-- The smaller of two counters. -/
def counterMin (a b : UInt32) : UInt32 := if b < a then b else a

/-- The smaller of two counters is that of the smaller number. -/
theorem counterMin_ofNat {a b : Nat} (ha : a < 2 ^ 32) (hb : b < 2 ^ 32) :
    counterMin (UInt32.ofNat a) (UInt32.ofNat b) = UInt32.ofNat (min a b) := by
  have hiff : UInt32.ofNat b < UInt32.ofNat a ↔ b < a := by
    rw [UInt32.lt_iff_toNat_lt, UInt32.toNat_ofNat', UInt32.toNat_ofNat', Nat.mod_eq_of_lt ha,
      Nat.mod_eq_of_lt hb]
  rw [counterMin, if_congr hiff rfl rfl]
  split
  · next h => rw [min_eq_right h.le]
  · next h => rw [min_eq_left (Nat.not_lt.mp h)]

/-- Close counters are equal only where they count the same. -/
theorem counter_inj {a b : Nat} (hle : b ≤ a) (hlt : a - b < 2 ^ 32) :
    UInt32.ofNat a = UInt32.ofNat b ↔ a = b := by
  constructor
  · intro h
    have hsub := toNat_counter_sub hle hlt
    rw [h, UInt32.sub_self, UInt32.toNat_zero] at hsub
    omega
  · intro h
    rw [h]

/-- The low bits of a counter are an offset. -/
theorem toNat_counter_and (k a : Nat) (hk : k ≤ 32) :
    (UInt32.ofNat a &&& UInt32.ofNat (2 ^ k - 1)).toNat = a % 2 ^ k := by
  have hpow : 2 ^ k ≤ 2 ^ 32 := Nat.pow_le_pow_right (by decide) hk
  have hpos : 0 < 2 ^ k := Nat.two_pow_pos k
  have hmask : (2 ^ k - 1) % 2 ^ 32 = 2 ^ k - 1 := Nat.mod_eq_of_lt (by omega)
  rw [UInt32.toNat_and, UInt32.toNat_ofNat', UInt32.toNat_ofNat', hmask,
    Nat.and_two_pow_sub_one_eq_mod]
  exact Nat.mod_mod_of_dvd a (Nat.pow_dvd_pow 2 hk)

/-! ### Offsets -/

/-- Short of the end of the memory, the offset goes up with the number. -/
theorem offset_add {k i size : Nat} (h : k % size + i < size) : (k + i) % size = k % size + i := by
  rw [Nat.add_mod, Nat.mod_eq_of_lt (by omega : i < size), Nat.mod_eq_of_lt h]

/-- Past the end it starts again. -/
theorem offset_add_wrapped {k i size : Nat} (hi : i < size) (h : size ≤ k % size + i) :
    (k + i) % size = k % size + i - size := by
  have hlt : k % size < size := Nat.mod_lt k (by omega)
  rw [Nat.add_mod, Nat.mod_eq_of_lt hi, Nat.mod_eq_sub_mod h, Nat.mod_eq_of_lt (by omega)]

/-- Numbers less than a round apart have different offsets. -/
theorem offset_ne {k l size : Nat} (hlt : k < l) (hnear : l < k + size) :
    k % size ≠ l % size := by
  intro heq
  have hdvd : size ∣ l - k := (Nat.modEq_iff_dvd' hlt.le).mp heq
  have hle := Nat.le_of_dvd (by omega) hdvd
  omega

/-! ### Memory -/

variable {α : Type}

/-- The items from an offset on. -/
def load (mem : Nat → α) (offset count : Nat) : List α :=
  (List.range count).map fun i ↦ mem (offset + i)

private theorem load_succ (mem : Nat → α) (offset count : Nat) :
    load mem offset (count + 1) = load mem offset count ++ [mem (offset + count)] := by
  simp [load, List.range_succ]

/-- A prefix and the next item are a prefix. -/
theorem prefix_concat {l log : List α} {x : α} (h : l <+: log) (hx : log[l.length]? = some x) :
    l ++ [x] <+: log := by
  obtain ⟨rest, rfl⟩ := h
  rw [List.getElem?_append_right le_rfl, Nat.sub_self] at hx
  cases rest with
  | nil => cases hx
  | cons y rest =>
    cases hx
    exact ⟨rest, by rw [List.append_assoc, List.singleton_append]⟩

/-- The memory has the items of `log` from number `lo` to `hi`, the end excluded. -/
def Holds (size : Nat) (mem : Nat → α) (log : List α) (lo hi : Nat) : Prop :=
  ∀ k, lo ≤ k → k < hi → log[k]? = some (mem (k % size))

namespace Holds

variable {size lo hi : Nat} {mem : Nat → α} {log : List α}

/-- What holds of an interval holds of every part of it. -/
theorem mono {lo' hi' : Nat} (h : Holds size mem log lo hi) (hlo : lo ≤ lo') (hhi : hi' ≤ hi) :
    Holds size mem log lo' hi' :=
  fun k hk hk' ↦ h k (hlo.trans hk) (hk'.trans_le hhi)

/-- More items to come change nothing. -/
theorem append (h : Holds size mem log lo hi) (more : List α) :
    Holds size mem (log ++ more) lo hi := by
  intro k hk hk'
  have hsome := h k hk hk'
  have hlt : k < log.length := (List.getElem?_eq_some_iff.mp hsome).1
  rw [List.getElem?_append_left hlt]
  exact hsome

/-- The next item is stored, where the memory has room for it. -/
theorem push {x : α} (h : Holds size mem log lo hi) (hroom : hi < lo + size)
    (hx : log[hi]? = some x) : Holds size (Function.update mem (hi % size) x) log lo (hi + 1) := by
  intro k hk hk'
  rcases Nat.lt_succ_iff_lt_or_eq.mp hk' with hlt | rfl
  · rw [Function.update_of_ne (offset_ne hlt (by omega))]
    exact h k hk hlt
  · rw [Function.update_self]
    exact hx

/-- Items that do not go past the end of the memory are loaded in one piece. -/
theorem load_eq (h : Holds size mem log lo hi) {k count : Nat} (hlo : lo ≤ k)
    (hhi : k + count ≤ hi) (hend : k % size + count ≤ size) :
    load mem (k % size) count = (log.drop k).take count := by
  induction count with
  | zero => simp [load]
  | succ count ih =>
    have hsome := h (k + count) (by omega) (by omega)
    rw [offset_add (by omega)] at hsome
    rw [load_succ, ih (by omega) (by omega), List.take_add_one, List.getElem?_drop, hsome]
    rfl

end Holds

end RooTransport.Base
