import RooTransport.Base.Bytes

/-!
# Variable-length numbers

Support library. A number is written in groups of seven bits, the lowest group first, one
byte each; the high bit of a byte says that more follow. Reading stops after a given number
of bytes and rejects an input that ends early or goes on for longer.
-/

namespace RooTransport.Base

/-- The groups of a number, at most `k` of them. -/
def varBytes : Nat → Nat → List UInt8
  | 0, _ => []
  | k + 1, x =>
    if x < 128 then [UInt8.ofNat x] else UInt8.ofNat (x % 128 + 128) :: varBytes k (x / 128)

/-- The number that at most `k` groups at the front stand for, and what follows them. -/
def readVar : Nat → List UInt8 → Option (Nat × List UInt8)
  | 0, _ => none
  | _ + 1, [] => none
  | k + 1, b :: rest =>
    if b.toNat < 128 then some (b.toNat, rest)
    else (readVar k rest).map fun (x, rest) ↦ (x * 128 + (b.toNat - 128), rest)

private theorem div_lt_pow {x k : Nat} (h : x < 128 ^ (k + 1)) : x / 128 < 128 ^ k := by
  rw [Nat.div_lt_iff_lt_mul (by decide), ← pow_succ]
  exact h

private theorem readVar_small (k : Nat) {x : Nat} (h : x < 128) (rest : List UInt8) :
    readVar (k + 1) (varBytes (k + 1) x ++ rest) = some (x, rest) := by
  have hb : (UInt8.ofNat x).toNat = x := by
    rw [UInt8.toNat_ofNat']
    omega
  simp [varBytes, readVar, h, hb]

/-- What was written is read back. -/
theorem readVar_varBytes (k : Nat) {x : Nat} (h : x < 128 ^ (k + 1)) (rest : List UInt8) :
    readVar (k + 1) (varBytes (k + 1) x ++ rest) = some (x, rest) := by
  induction k generalizing x with
  | zero => exact readVar_small 0 (by simpa using h) rest
  | succ k ih =>
    by_cases hsmall : x < 128
    · exact readVar_small (k + 1) hsmall rest
    · have hb : (UInt8.ofNat (x % 128 + 128)).toNat = x % 128 + 128 := by
        rw [UInt8.toNat_ofNat']
        omega
      rw [varBytes, if_neg hsmall, List.cons_append, readVar, hb, if_neg (by omega),
        ih (div_lt_pow h)]
      have hx : x / 128 * 128 + (x % 128 + 128 - 128) = x := by omega
      simp only [Option.map_some, hx]

/-- Less than what was written is rejected: every group but the last says that more follow. -/
theorem readVar_truncated (k : Nat) : ∀ {x : Nat} {bs : List UInt8}, bs <+: varBytes k x →
    bs ≠ varBytes k x → readVar k bs = none := by
  induction k with
  | zero =>
    intro x bs _ _
    rfl
  | succ k ih =>
    intro x bs hp hne
    cases bs with
    | nil => rfl
    | cons b bs =>
      by_cases hsmall : x < 128
      · rw [varBytes, if_pos hsmall] at hp hne
        obtain ⟨rfl, hnil⟩ := List.cons_prefix_cons.mp hp
        exact absurd (by rw [List.prefix_nil.mp hnil]) hne
      · rw [varBytes, if_neg hsmall] at hp hne
        obtain ⟨rfl, hrest⟩ := List.cons_prefix_cons.mp hp
        have hb : ¬ (UInt8.ofNat (x % 128 + 128)).toNat < 128 := by
          rw [UInt8.toNat_ofNat']
          omega
        rw [readVar, if_neg hb, ih hrest fun heq ↦ hne (by rw [heq]), Option.map_none]

/-- A number of few groups takes few bytes. -/
theorem length_varBytes_le (k : Nat) : ∀ {x j : Nat}, x < 128 ^ j → 0 < j →
    (varBytes k x).length ≤ j := by
  induction k with
  | zero => simp [varBytes]
  | succ k ih =>
    intro x j hx hj
    by_cases hsmall : x < 128
    · simp [varBytes, hsmall]
      omega
    · obtain ⟨j, rfl⟩ : ∃ i, j = i + 1 := ⟨j - 1, by omega⟩
      have hdiv := div_lt_pow hx
      have hj' : 0 < j := by
        rcases Nat.eq_zero_or_pos j with rfl | hpos
        · simp at hdiv
          omega
        · exact hpos
      simp only [varBytes, hsmall, if_false, List.length_cons]
      exact Nat.succ_le_succ (ih hdiv hj')

end RooTransport.Base
