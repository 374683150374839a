import Mathlib.Algebra.Order.Ring.Int
import Mathlib.Data.List.Basic

/-!
# Contents of an interval of positions

Support library. A log gives every position a chunk of a sequence; a span concatenates
the chunks of an interval, the end excluded.
-/

namespace RooTransport.Base

variable {α : Type}

/-- The chunks of the positions from `s` to `e`, in order. -/
def span (log : Int → List α) (s e : Int) : List α :=
  (List.range (e - s).toNat).flatMap fun i : Nat ↦ log (s + i)

/-- A span of no positions is empty. -/
@[simp] theorem span_self (log : Int → List α) (s : Int) : span log s s = [] := by
  simp [span]

/-- A span grows by what stands at its end. -/
theorem span_succ (log : Int → List α) {s e : Int} (h : s ≤ e) :
    span log s (e + 1) = span log s e ++ log e := by
  have hn : (e + 1 - s).toNat = (e - s).toNat + 1 := by omega
  have hlast : s + ((e - s).toNat : Int) = e := by omega
  rw [span, span, hn, List.range_succ, List.flatMap_append, List.flatMap_singleton, hlast]

/-- Spans depend only on the chunks of their interval. -/
theorem span_congr {log log' : Int → List α} {s e : Int}
    (h : ∀ p, s ≤ p → p < e → log p = log' p) : span log s e = span log' s e := by
  apply List.flatMap_congr
  intro i hi
  have := List.mem_range.mp hi
  exact h _ (by omega) (by omega)

/-- Spans of adjacent intervals join. -/
theorem span_append (log : Int → List α) {s m e : Int} (hs : s ≤ m) (he : m ≤ e) :
    span log s m ++ span log m e = span log s e := by
  obtain ⟨k, rfl⟩ : ∃ k : Nat, e = m + k := ⟨(e - m).toNat, by omega⟩
  clear he
  induction k with
  | zero => simp
  | succ k ih =>
    have hk : m + ((k + 1 : Nat) : Int) = m + k + 1 := by push_cast; omega
    rw [hk, span_succ log (by omega), span_succ log (by omega), ← List.append_assoc, ih]

end RooTransport.Base
