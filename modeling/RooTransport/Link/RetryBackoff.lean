import Mathlib.Algebra.Order.Round
import Mathlib.Data.Rat.Floor
import Mathlib.Order.Iterate
import RooTransport.Link.Packet

/-!
# Retry back-off

`link/internal/retry_backoff.h`. `retryBackoffMicros` wraps around where the source's
unsigned arithmetic does. Here the same computation stops at the first value that its type
cannot hold, and the delay that is spread out is compared with its documented meaning: 1.33
times the last one, rounded to the nearest microsecond, up to the cap.
-/

namespace RooTransport.Link

/-! ### The computation without wrap-around -/

/-- A value of an unsigned type of `w` bits, if it is one. -/
def unsigned (w x : Nat) : Option Nat := if x < 2 ^ w then some x else none

/-- An unsigned difference, if it is not negative. -/
def difference (x y : Nat) : Option Nat := if y ≤ x then some (x - y) else none

/-- `retry_backoff.h:26–31`, with the number of rounds made. -/
def growDelayChecked (maxDelayUs : Nat) : Nat → Nat → Option (Nat × Nat)
  | 0, delay => some (delay, 0)
  | retries + 1, delay =>
    if delay < maxDelayUs then do
      let scaled ← unsigned 32 (delay * 133)
      let sum ← unsigned 32 (scaled + 50)
      let grown := sum / 100
      let (delay, rounds) ←
        growDelayChecked maxDelayUs retries (if maxDelayUs < grown then maxDelayUs else grown)
      return (delay, rounds + 1)
    else some (delay, 0)

/-- `retry_backoff.h:22–37`, with the number of rounds of the growth loop. -/
def retryBackoffChecked (randomMax initialDelayUs maxDelayUs retryCount randomDraw : Nat) :
    Option (Nat × Nat) := do
  let (delay, rounds) ← growDelayChecked maxDelayUs retryCount initialDelayUs
  let scaled ← unsigned 64 (randomDraw * 8192)
  let range ← unsigned 64 (randomMax + 1)
  let bin ← unsigned 32 (scaled / range)
  let radius := delay / 5
  let width ← unsigned 32 (2 * radius)
  let product ← unsigned 32 (bin * width)
  let low ← difference delay radius
  let result ← unsigned 32 (low + product / 2 ^ 13)
  return (result, rounds)

/-! ### The nominal delay -/

/-- 1.33 times a delay, rounded to the nearest microsecond. -/
def grownDelay (delay : Nat) : Nat := (round ((133 / 100 : ℚ) * delay)).toNat

/-- The delay after so many retries, before jitter. -/
def nominalDelay (initialDelayUs maxDelayUs retryCount : Nat) : Nat :=
  (fun delay ↦ min maxDelayUs (grownDelay delay))^[retryCount] initialDelayUs

/-- The source rounds by adding half of the divisor. -/
theorem grownDelay_eq (delay : Nat) : grownDelay delay = (delay * 133 + 50) / 100 := by
  have hsum : (133 / 100 : ℚ) * delay + 1 / 2 = ((delay * 133 + 50 : Nat) : ℤ) / (100 : Nat) := by
    push_cast
    ring
  rw [grownDelay, round_eq, hsum, Rat.floor_intCast_div_natCast]
  rfl

private theorem le_grownDelay (delay : Nat) : delay ≤ grownDelay delay := by
  rw [grownDelay_eq]
  omega

private theorem grownDelay_mono : Monotone grownDelay := by
  intro delay delay' h
  rw [grownDelay_eq, grownDelay_eq]
  omega

section

variable {maxDelayUs : Nat}

private theorem unsigned_of_lt {w x : Nat} (h : x < 2 ^ w) : unsigned w x = some x := if_pos h

private theorem grown_cap (hmax : maxDelayUs ≤ 1000000) {delay : Nat} (hlt : delay < maxDelayUs) :
    (if maxDelayUs < (delay * 133 + 50) % 2 ^ 32 / 100 then maxDelayUs
      else (delay * 133 + 50) % 2 ^ 32 / 100) = min maxDelayUs (grownDelay delay) := by
  rw [Nat.mod_eq_of_lt (by omega), ← grownDelay_eq]
  split
  · next h => exact (min_eq_left h.le).symm
  · next h => exact (min_eq_right (Nat.not_lt.mp h)).symm

/-- The loop, which stops at the cap, gives the nominal delay. -/
theorem growDelay_eq (hmax : maxDelayUs ≤ 1000000) (retries : Nat) :
    ∀ {delay : Nat}, delay ≤ maxDelayUs →
      growDelay maxDelayUs retries delay = nominalDelay delay maxDelayUs retries := by
  induction retries with
  | zero =>
    intro delay _
    rfl
  | succ retries ih =>
    intro delay hle
    rw [growDelay, nominalDelay, Function.iterate_succ_apply]
    split
    · next hlt =>
      dsimp only
      rw [grown_cap hmax hlt]
      exact ih (min_le_left _ _)
    · next hnot =>
      -- The cap is a fixed point, so the rounds left out change nothing.
      have hdelay : delay = maxDelayUs := by omega
      have hfix : min maxDelayUs (grownDelay delay) = delay := by
        rw [hdelay]
        exact min_eq_left (le_grownDelay _)
      rw [hfix]
      exact (Function.iterate_fixed hfix retries).symm

-- Growth past the cap is growth to the cap, for as many rounds as come after it.
private theorem le_iterate_cap {j delay : Nat} (h : maxDelayUs ≤ grownDelay^[j + 1] delay) :
    maxDelayUs ≤ grownDelay^[j] (min maxDelayUs (grownDelay delay)) := by
  rw [Function.iterate_succ_apply] at h
  rcases min_choice maxDelayUs (grownDelay delay) with hcap | hgrown
  · rw [hcap]
    exact Function.id_le_iterate_of_id_le le_grownDelay j maxDelayUs
  · rw [hgrown]
    exact h

/-- No round of the loop overflows, and it makes no more rounds than growth alone takes to
reach the cap. -/
theorem growDelayChecked_eq (hmax : maxDelayUs ≤ 1000000) (retries : Nat) :
    ∀ {j delay : Nat}, maxDelayUs ≤ grownDelay^[j] delay →
      ∃ rounds ≤ j, growDelayChecked maxDelayUs retries delay =
        some (growDelay maxDelayUs retries delay, rounds) := by
  induction retries with
  | zero =>
    intro j delay _
    exact ⟨0, Nat.zero_le j, rfl⟩
  | succ retries ih =>
    intro j delay hreach
    rw [growDelayChecked, growDelay]
    by_cases hlt : delay < maxDelayUs
    · cases j with
      | zero => exact absurd hreach (Nat.not_le.mpr hlt)
      | succ j =>
        obtain ⟨rounds, hle, hrec⟩ := ih (le_iterate_cap hreach)
        have hcap := grown_cap hmax hlt
        rw [Nat.mod_eq_of_lt (by omega)] at hcap
        refine ⟨rounds + 1, by omega, ?_⟩
        dsimp only
        rw [if_pos hlt, if_pos hlt, grown_cap hmax hlt, unsigned_of_lt (by omega)]
        dsimp only [Option.bind_eq_bind, Option.bind_some]
        rw [unsigned_of_lt (by omega), Option.bind_some, hcap, hrec]
        rfl
    · exact ⟨0, Nat.zero_le j, by rw [if_neg hlt, if_neg hlt]⟩

/-- From a millisecond on, 25 rounds of growth reach any cap of up to a second. -/
theorem le_iterate_grownDelay {delay : Nat} (hmax : maxDelayUs ≤ 1000000)
    (hdelay : 1000 ≤ delay) : maxDelayUs ≤ grownDelay^[25] delay := by
  have hworst : 1000000 ≤ grownDelay^[25] 1000 := by
    simp only [Function.iterate_succ_apply, Function.iterate_zero, id_eq, grownDelay_eq]
    norm_num
  exact hmax.trans (hworst.trans (grownDelay_mono.iterate 25 hdelay))

end

/-! ### Jitter -/

/-- `retry_backoff.h:35–36` without wrap-around. -/
def spread (bin delay : Nat) : Nat := delay - delay / 5 + bin * (2 * (delay / 5)) / 2 ^ 13

private theorem spread_mono {bin bin' delay delay' : Nat} (hbin : bin ≤ bin')
    (hdelay : delay ≤ delay') : spread bin delay ≤ spread bin' delay' := by
  have hradius : delay / 5 ≤ delay' / 5 := Nat.div_le_div_right hdelay
  have hlow : delay - delay / 5 ≤ delay' - delay' / 5 := by omega
  have hproduct : bin * (2 * (delay / 5)) ≤ bin' * (2 * (delay' / 5)) :=
    Nat.mul_le_mul hbin (Nat.mul_le_mul_left 2 hradius)
  exact Nat.add_le_add hlow (Nat.div_le_div_right hproduct)

private theorem spread_lt {bin delay : Nat} (hbin : bin < 8192) (hdelay : 5 ≤ delay) :
    spread bin delay < delay + delay / 5 := by
  have hpos : 0 < 2 * (delay / 5) := by omega
  have hjitter : bin * (2 * (delay / 5)) / 2 ^ 13 < 2 * (delay / 5) := by
    apply Nat.div_lt_of_lt_mul
    exact Nat.mul_lt_mul_of_pos_right hbin hpos
  rw [spread]
  omega

/-- `retry_backoff.h:32–34`: the bin a draw falls into. -/
def jitterBin (randomMax randomDraw : Nat) : Nat := randomDraw * 8192 / (randomMax + 1)

private theorem jitterBin_lt {randomMax randomDraw : Nat} (h : randomDraw ≤ randomMax) :
    jitterBin randomMax randomDraw < 8192 := by
  apply Nat.div_lt_of_lt_mul
  rw [Nat.mul_comm (randomMax + 1)]
  omega

section

variable {randomMax initialDelayUs maxDelayUs randomDraw : Nat}

-- The product of the bin and the jitter's width keeps below `2 ^ 32`.
private theorem product_lt {delay : Nat} (hdraw : randomDraw ≤ randomMax)
    (hdelay : delay ≤ 1000000) : jitterBin randomMax randomDraw * (2 * (delay / 5)) < 2 ^ 32 := by
  calc jitterBin randomMax randomDraw * (2 * (delay / 5))
      ≤ 8192 * 400000 := Nat.mul_le_mul (jitterBin_lt hdraw).le (by omega)
    _ < 2 ^ 32 := by norm_num

private theorem nominalDelay_le (hinit : initialDelayUs ≤ maxDelayUs) (retryCount : Nat) :
    nominalDelay initialDelayUs maxDelayUs retryCount ≤ maxDelayUs := by
  cases retryCount with
  | zero => exact hinit
  | succ retryCount =>
    rw [nominalDelay, Function.iterate_succ_apply']
    exact min_le_left _ _

/-- Later retries wait at least as long. -/
theorem nominalDelay_mono (hinit : initialDelayUs ≤ maxDelayUs) :
    Monotone (nominalDelay initialDelayUs maxDelayUs) := by
  apply Monotone.monotone_iterate_of_le_map
  · intro delay delay' h
    exact min_le_min_left maxDelayUs (grownDelay_mono h)
  · exact le_min hinit (le_grownDelay initialDelayUs)

/-- The source's result is the nominal delay, spread by the bin of the draw. -/
theorem retryBackoffMicros_eq (hinit : initialDelayUs ≤ maxDelayUs) (hmax : maxDelayUs ≤ 1000000)
    (hdraw : randomDraw ≤ randomMax) (retryCount : Nat) :
    retryBackoffMicros randomMax initialDelayUs maxDelayUs retryCount randomDraw =
      spread (jitterBin randomMax randomDraw)
        (nominalDelay initialDelayUs maxDelayUs retryCount) := by
  have hbin := jitterBin_lt hdraw
  have hle := (nominalDelay_le hinit retryCount).trans hmax
  have hproduct := product_lt hdraw hle
  unfold retryBackoffMicros
  rw [growDelay_eq hmax retryCount hinit]
  generalize nominalDelay initialDelayUs maxDelayUs retryCount = delay at hle hproduct ⊢
  have hbin32 : randomDraw * 8192 / (randomMax + 1) % 2 ^ 32 = jitterBin randomMax randomDraw :=
    Nat.mod_eq_of_lt (hbin.trans (by norm_num))
  have hresult : spread (jitterBin randomMax randomDraw) delay < 2 ^ 32 := by
    rw [spread]
    omega
  dsimp only
  rw [hbin32, Nat.mod_eq_of_lt hproduct]
  exact Nat.mod_eq_of_lt hresult

/-- Where the source's preconditions hold, no intermediate value overflows. -/
theorem retryBackoffChecked_eq (hinit : 1000 ≤ initialDelayUs) (hle : initialDelayUs ≤ maxDelayUs)
    (hmax : maxDelayUs ≤ 1000000) (hdraw : randomDraw ≤ randomMax) (hrandom : randomMax < 2 ^ 32)
    (retryCount : Nat) :
    ∃ rounds ≤ 25,
      retryBackoffChecked randomMax initialDelayUs maxDelayUs retryCount randomDraw =
        some (retryBackoffMicros randomMax initialDelayUs maxDelayUs retryCount randomDraw,
          rounds) := by
  obtain ⟨rounds, hrounds, hgrow⟩ :=
    growDelayChecked_eq hmax retryCount (le_iterate_grownDelay hmax hinit)
  refine ⟨rounds, hrounds, ?_⟩
  have hbin := jitterBin_lt hdraw
  have hdelay := (nominalDelay_le hle retryCount).trans hmax
  have hproduct := product_lt hdraw hdelay
  rw [retryBackoffMicros_eq hle hmax hdraw, retryBackoffChecked, hgrow, growDelay_eq hmax _ hle]
  generalize nominalDelay initialDelayUs maxDelayUs retryCount = delay at hdelay hproduct ⊢
  have hresult : spread (jitterBin randomMax randomDraw) delay < 2 ^ 32 := by
    rw [spread]
    omega
  have hlow : difference delay (delay / 5) = some (delay - delay / 5) := if_pos (by omega)
  dsimp only [Option.bind_eq_bind, Option.bind_some]
  rw [unsigned_of_lt (by omega), Option.bind_some, unsigned_of_lt (by omega), Option.bind_some]
  change (unsigned 32 (jitterBin randomMax randomDraw)).bind _ = _
  rw [unsigned_of_lt (hbin.trans (by norm_num)), Option.bind_some, unsigned_of_lt (by omega),
    Option.bind_some, unsigned_of_lt hproduct, Option.bind_some, hlow, Option.bind_some]
  change (unsigned 32 (spread (jitterBin randomMax randomDraw) delay)).bind _ = _
  rw [unsigned_of_lt hresult]
  rfl

end

/-! ### The source's types -/

namespace RetryBackoff

variable (randomMax initialDelayUs maxDelayUs retryCount randomDraw : UInt32)

/-- `RetryBackoffMicros<randomMax>` of its 32-bit arguments. -/
def micros : Nat :=
  retryBackoffMicros randomMax.toNat initialDelayUs.toNat maxDelayUs.toNat retryCount.toNat
    randomDraw.toNat

/-- The same without wrap-around, and the rounds of its loop. -/
def checked : Option (Nat × Nat) :=
  retryBackoffChecked randomMax.toNat initialDelayUs.toNat maxDelayUs.toNat retryCount.toNat
    randomDraw.toNat

/-- The delay that is spread out. -/
def nominal : Nat := nominalDelay initialDelayUs.toNat maxDelayUs.toNat retryCount.toNat

/-- Back-off is free of overflow, takes at most 25 rounds, stays within a fifth of the nominal
delay, and grows with the retries and with the draw. -/
theorem backoff_bounded_monotone (hinit : 1000 ≤ initialDelayUs) (hle : initialDelayUs ≤ maxDelayUs)
    (hmax : maxDelayUs ≤ 1000000) (hdraw : randomDraw ≤ randomMax) :
    (∃ rounds ≤ 25, checked randomMax initialDelayUs maxDelayUs retryCount randomDraw =
        some (micros randomMax initialDelayUs maxDelayUs retryCount randomDraw, rounds)) ∧
      nominal initialDelayUs maxDelayUs retryCount -
          nominal initialDelayUs maxDelayUs retryCount / 5 ≤
        micros randomMax initialDelayUs maxDelayUs retryCount randomDraw ∧
      micros randomMax initialDelayUs maxDelayUs retryCount randomDraw <
        nominal initialDelayUs maxDelayUs retryCount +
          nominal initialDelayUs maxDelayUs retryCount / 5 ∧
      (∀ retryCount', retryCount ≤ retryCount' →
        micros randomMax initialDelayUs maxDelayUs retryCount randomDraw ≤
          micros randomMax initialDelayUs maxDelayUs retryCount' randomDraw) ∧
      ∀ randomDraw', randomDraw ≤ randomDraw' → randomDraw' ≤ randomMax →
        micros randomMax initialDelayUs maxDelayUs retryCount randomDraw ≤
          micros randomMax initialDelayUs maxDelayUs retryCount randomDraw' := by
  rw [UInt32.le_iff_toNat_le] at hinit hle hmax hdraw
  have hinit : 1000 ≤ initialDelayUs.toNat := hinit
  have hmax : maxDelayUs.toNat ≤ 1000000 := hmax
  have heq (retryCount randomDraw : UInt32) (hd : randomDraw.toNat ≤ randomMax.toNat) :
      micros randomMax initialDelayUs maxDelayUs retryCount randomDraw =
        spread (jitterBin randomMax.toNat randomDraw.toNat)
          (nominal initialDelayUs maxDelayUs retryCount) :=
    retryBackoffMicros_eq hle hmax hd retryCount.toNat
  have hdelay : 1000 ≤ nominal initialDelayUs maxDelayUs retryCount :=
    hinit.trans (nominalDelay_mono hle (Nat.zero_le retryCount.toNat))
  refine ⟨?_, ?_, ?_, ?_, ?_⟩
  · exact retryBackoffChecked_eq hinit hle hmax hdraw randomMax.toNat_lt retryCount.toNat
  · rw [heq retryCount randomDraw hdraw]
    exact Nat.le_add_right _ _
  · rw [heq retryCount randomDraw hdraw]
    exact spread_lt (jitterBin_lt hdraw) (by omega)
  · intro retryCount' hretry
    rw [heq retryCount randomDraw hdraw, heq retryCount' randomDraw hdraw]
    exact spread_mono le_rfl (nominalDelay_mono hle (UInt32.le_iff_toNat_le.mp hretry))
  · intro randomDraw' hlarger hdraw'
    rw [UInt32.le_iff_toNat_le] at hlarger hdraw'
    rw [heq retryCount randomDraw hdraw, heq retryCount randomDraw' hdraw']
    apply spread_mono
    · exact Nat.div_le_div_right (Nat.mul_le_mul_right 8192 hlarger)
    · exact le_rfl

/-- The second retry of a data packet, with a draw from the middle of the range. -/
theorem backoff_second_retry :
    nominal 5000 200000 2 = 8845 ∧
      7076 ≤ micros 0xFFFFFFFF 5000 200000 2 0x80000000 ∧
      micros 0xFFFFFFFF 5000 200000 2 0x80000000 < 10614 ∧
      micros 0xFFFFFFFF 5000 200000 2 0x80000000 ≤ micros 0xFFFFFFFF 5000 200000 255 0x80000000 ∧
      micros 0xFFFFFFFF 5000 200000 2 0x80000000 ≤ micros 0xFFFFFFFF 5000 200000 2 0xFFFFFFFF := by
  have hdelay : nominal 5000 200000 2 = 8845 := by
    simp [nominal, nominalDelay, grownDelay_eq]
  obtain ⟨-, hlow, hhigh, hretry, hdraw⟩ := backoff_bounded_monotone 0xFFFFFFFF 5000 200000 2
    0x80000000 (by decide) (by decide) (by decide) (by decide)
  rw [hdelay] at hlow hhigh
  exact ⟨hdelay, hlow, hhigh, hretry 255 (by decide), hdraw 0xFFFFFFFF (by decide) (by decide)⟩

end RetryBackoff

end RooTransport.Link
