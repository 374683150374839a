import Mathlib.Data.List.InsertIdx

/-!
# Queues that lose messages but keep their order

The messages on an ordered medium stand for values, and each value is related to those of
all messages behind it. A message added at the back has to meet the relation with what is
ahead of it. Removing messages, delivered or lost, keeps it, and whoever takes the first
message learns how its value relates to the values still to come.
-/

namespace RooTransport.Base

variable {α β : Type} {P Q : α → β → Prop} {O : β → β → Prop}

/-- Every message of the queue stands for a value that meets `P`, related by `O` to the values
of the messages behind it. -/
def InOrder (P : α → β → Prop) (O : β → β → Prop) (queue : List α) : Prop :=
  ∃ tagged : List (α × β), queue = tagged.map Prod.fst ∧ (∀ y ∈ tagged, P y.1 y.2) ∧
    tagged.Pairwise fun y z ↦ O y.2 z.2

namespace InOrder

variable {queue : List α} {x : α}

/-- Nothing under way is in order. -/
theorem nil : InOrder P O [] := ⟨[], rfl, by simp, .nil⟩

/-- A message in the queue stands for a value. -/
theorem exists_of_mem (h : InOrder P O queue) (hx : x ∈ queue) : ∃ v, P x v := by
  obtain ⟨tagged, rfl, hall, -⟩ := h
  obtain ⟨⟨_, v⟩, hy, rfl⟩ := List.mem_map.mp hx
  exact ⟨v, hall _ hy⟩

/-- What the values meet may be replaced by what follows from it. -/
theorem mono (h : InOrder P O queue) (hPQ : ∀ y v, P y v → Q y v) : InOrder Q O queue := by
  obtain ⟨tagged, rfl, hall, hpair⟩ := h
  exact ⟨tagged, rfl, fun y hy ↦ hPQ _ _ (hall y hy), hpair⟩

/-- The values may be replaced by others that are related alike. -/
theorem map {γ : Type} {R : α → γ → Prop} {O' : γ → γ → Prop} (h : InOrder P O queue) (g : β → γ)
    (hPR : ∀ y v, P y v → R y (g v)) (hO : ∀ v w, O v w → O' (g v) (g w)) :
    InOrder R O' queue := by
  obtain ⟨tagged, rfl, hall, hpair⟩ := h
  refine ⟨tagged.map fun y ↦ (y.1, g y.2), by simp, ?_, ?_⟩
  · intro y hy
    obtain ⟨z, hz, rfl⟩ := List.mem_map.mp hy
    exact hPR _ _ (hall z hz)
  · rw [List.pairwise_map]
    exact hpair.imp fun hyz ↦ hO _ _ hyz

/-- A message is added at the back. -/
theorem push (h : InOrder P O queue) {v : β} (hx : P x v)
    (ho : ∀ y ∈ queue, ∀ w, P y w → O w v) : InOrder P O (queue ++ [x]) := by
  obtain ⟨tagged, rfl, hall, hpair⟩ := h
  refine ⟨tagged ++ [(x, v)], by simp, ?_, List.pairwise_append.mpr ⟨hpair, by simp, ?_⟩⟩
  · intro y hy
    rcases List.mem_append.mp hy with hy | hy
    · exact hall y hy
    · rw [List.mem_singleton.mp hy]
      exact hx
  · intro y hy z hz
    rw [List.mem_singleton.mp hz]
    exact ho y.1 (List.mem_map_of_mem hy) y.2 (hall y hy)

/-- The first message is taken, and the values of the others are related to its own. -/
theorem pop (h : InOrder P O (x :: queue)) :
    ∃ v, P x v ∧ InOrder (fun y w ↦ P y w ∧ O v w) O queue := by
  obtain ⟨- | ⟨⟨y, v⟩, tagged⟩, heq, hall, hpair⟩ := h
  · cases heq
  · simp only [List.map_cons, List.cons.injEq] at heq
    obtain ⟨rfl, rfl⟩ := heq
    rw [List.pairwise_cons] at hpair
    have hrest (z : α × β) (hz : z ∈ tagged) : P z.1 z.2 ∧ O v z.2 :=
      ⟨hall z (.tail _ hz), hpair.1 z hz⟩
    exact ⟨v, hall _ (.head _), tagged, rfl, hrest, hpair.2⟩

/-- A message is lost. -/
theorem lose (h : InOrder P O queue) (i : Nat) : InOrder P O (queue.eraseIdx i) := by
  obtain ⟨tagged, rfl, hall, hpair⟩ := h
  have hsub := List.eraseIdx_sublist tagged i
  exact ⟨tagged.eraseIdx i, List.eraseIdx_map .., fun y hy ↦ hall y (hsub.subset hy),
    hpair.sublist hsub⟩

end InOrder

end RooTransport.Base
