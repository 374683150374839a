import Mathlib.Data.List.Infix

/-!
# Length-prefixed pieces

Support library. A stream is made of pieces, each a size field of fixed length and as many
elements as the field says. A stream can be cut into such pieces in one way only, so what
was read of it so far agrees with what was put in.
-/

namespace RooTransport.Base

variable {α : Type} {k : Nat} {size : List α → Nat}

/-- A size field of `k` elements, and as many elements as it says. -/
def IsPiece (k : Nat) (size : List α → Nat) (piece : List α × List α) : Prop :=
  piece.1.length = k ∧ piece.2.length = size piece.1

/-- The stream made of the pieces. -/
def joined (pieces : List (List α × List α)) : List α :=
  pieces.flatMap fun piece ↦ piece.1 ++ piece.2

/-- No pieces make an empty stream. -/
@[simp]
theorem joined_nil : joined ([] : List (List α × List α)) = [] := rfl

/-- The first piece comes first. -/
@[simp]
theorem joined_cons (piece : List α × List α) (pieces : List (List α × List α)) :
    joined (piece :: pieces) = piece.1 ++ (piece.2 ++ joined pieces) := by
  simp [joined]

/-- Pieces after pieces make one stream after the other. -/
@[simp]
theorem joined_append (pieces pieces' : List (List α × List α)) :
    joined (pieces ++ pieces') = joined pieces ++ joined pieces' := by
  simp [joined]

/-- Pieces whose stream starts another stream of pieces are the first of those. -/
theorem prefix_of_joined_prefix (hk : 0 < k) {pieces : List (List α × List α)} :
    ∀ {pieces' : List (List α × List α)}, (∀ p ∈ pieces, IsPiece k size p) →
      (∀ p ∈ pieces', IsPiece k size p) → joined pieces <+: joined pieces' →
        pieces <+: pieces' := by
  induction pieces with
  | nil => intro pieces' _ _ _; exact List.nil_prefix
  | cons p rest ih =>
    intro pieces' hp hp' h
    have hfirst := hp p List.mem_cons_self
    cases pieces' with
    | nil =>
      have hnil := List.prefix_nil.mp h
      rw [joined_cons, List.append_eq_nil_iff] at hnil
      have hlen := hfirst.1
      rw [hnil.1, List.length_nil] at hlen
      omega
    | cons p' rest' =>
      have hfirst' := hp' p' List.mem_cons_self
      obtain ⟨t, ht⟩ := h
      rw [joined_cons, joined_cons, List.append_assoc] at ht
      obtain ⟨hfield, hbodies⟩ := List.append_inj ht (hfirst.1.trans hfirst'.1.symm)
      have hsize : p.2.length = p'.2.length := by rw [hfirst.2, hfirst'.2, hfield]
      rw [List.append_assoc] at hbodies
      obtain ⟨hbody, hrest⟩ := List.append_inj hbodies hsize
      obtain rfl : p = p' := Prod.ext hfield hbody
      rw [List.cons_prefix_cons]
      exact ⟨rfl, ih (fun q hq ↦ hp q (List.mem_cons_of_mem _ hq))
        (fun q hq ↦ hp' q (List.mem_cons_of_mem _ hq)) ⟨t, hrest⟩⟩

end RooTransport.Base
