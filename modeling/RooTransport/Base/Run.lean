import Mathlib.Logic.Relation

/-!
# Runs of a stepping system

Support library. A system is a partial step function on states and actions; a failing
step stops the system. Reachability is relative to a guard on the state before a step
and the action taken there, so that one system serves statements about all runs and
statements about the runs whose steps meet a condition.
-/

namespace RooTransport.Base

variable {σ α ε : Type}

/-- States reached from `start` by successful steps, each meeting `guard` when taken. -/
inductive Reachable (step : σ → α → Except ε σ) (guard : σ → α → Prop) (start : σ) : σ → Prop
  | start : Reachable step guard start start
  | next {s s' : σ} {a : α} : Reachable step guard start s → guard s a → step s a = .ok s' →
      Reachable step guard start s'

/-- The guard that admits every step. -/
def anyStep (_ : σ) (_ : α) : Prop := True

/-- What holds at the start and is kept by every guarded step holds in every reached state. -/
theorem Reachable.invariant {step : σ → α → Except ε σ} {guard : σ → α → Prop} {start s : σ}
    (I : σ → Prop) (h0 : I start)
    (hs : ∀ s a s', I s → guard s a → step s a = .ok s' → I s')
    (h : Reachable step guard start s) : I s := by
  induction h with
  | start => exact h0
  | next _ hg he ih => exact hs _ _ _ ih hg he

/-- A weaker guard reaches at least as much. -/
theorem Reachable.mono {step : σ → α → Except ε σ} {guard guard' : σ → α → Prop} {start s : σ}
    (hw : ∀ s a, guard s a → guard' s a) (h : Reachable step guard start s) :
    Reachable step guard' start s := by
  induction h with
  | start => exact .start
  | next _ hg he ih => exact .next ih (hw _ _ hg) he

/-- Take the listed actions in order, stopping at the first failing step. -/
def execute (step : σ → α → Except ε σ) : σ → List α → Except ε σ
  | s, [] => .ok s
  | s, a :: rest =>
    match step s a with
    | .error e => .error e
    | .ok s' => execute step s' rest

/-- Every listed action meets the guard in the state it is taken in. -/
def Meets (step : σ → α → Except ε σ) (guard : σ → α → Prop) : σ → List α → Prop
  | _, [] => True
  | s, a :: rest =>
    guard s a ∧ match step s a with
      | .error _ => True
      | .ok s' => Meets step guard s' rest

/-- Whether a list of actions meets a decidable guard can be computed. -/
def decidableMeets (step : σ → α → Except ε σ) (guard : σ → α → Prop)
    [∀ s a, Decidable (guard s a)] : ∀ (s : σ) (acts : List α), Decidable (Meets step guard s acts)
  | _, [] => .isTrue trivial
  | s, a :: rest =>
    match hs : step s a with
    | .error _ => decidable_of_iff (guard s a) (by simp [Meets, hs])
    | .ok s' =>
      have := decidableMeets step guard s' rest
      decidable_of_iff (guard s a ∧ Meets step guard s' rest) (by simp [Meets, hs])

instance (step : σ → α → Except ε σ) (guard : σ → α → Prop) [∀ s a, Decidable (guard s a)]
    (s : σ) (acts : List α) : Decidable (Meets step guard s acts) :=
  decidableMeets step guard s acts

/-- A successful execution whose actions meet the guard ends in a reachable state. -/
theorem Reachable.of_execute {step : σ → α → Except ε σ} {guard : σ → α → Prop} {start : σ}
    (acts : List α) : ∀ {s s' : σ}, Reachable step guard start s → Meets step guard s acts →
      execute step s acts = .ok s' → Reachable step guard start s' := by
  induction acts with
  | nil =>
    intro s s' hr _ he
    cases he
    exact hr
  | cons a rest ih =>
    intro s s' hr hm he
    unfold execute at he
    unfold Meets at hm
    cases hs : step s a with
    | error e => rw [hs] at he; cases he
    | ok t =>
      rw [hs] at he hm
      exact ih (.next hr hm.1 hs) hm.2 he

/-- The admit-all guard is met by every list of actions. -/
theorem meets_anyStep (step : σ → α → Except ε σ) (s : σ) (acts : List α) :
    Meets step anyStep s acts := by
  induction acts generalizing s with
  | nil => trivial
  | cons a rest ih =>
    refine ⟨trivial, ?_⟩
    cases step s a with
    | error e => trivial
    | ok t => exact ih t

/-- A run found by executing a list of actions, with a test of the state it ends in. -/
theorem Reachable.of_test (step : σ → α → Except ε σ) (guard : σ → α → Prop) (start : σ)
    (acts : List α) (p : σ → Bool) (hm : Meets step guard start acts)
    (h : (execute step start acts).toOption.map p = some true) :
    ∃ s, Reachable step guard start s ∧ p s = true := by
  cases he : execute step start acts with
  | error e => rw [he] at h; cases h
  | ok s =>
    rw [he] at h
    exact ⟨s, .of_execute acts .start hm he, Option.some.inj h⟩

/-- The same, with one more step and a test of the states before and after it. -/
theorem Reachable.of_test_step (step : σ → α → Except ε σ) (guard : σ → α → Prop) (start : σ)
    (acts : List α) (a : α) (p : σ → σ → Bool) (hm : Meets step guard start acts)
    (h : (execute step start acts).toOption.map (fun s ↦ (step s a).toOption.map (p s)) =
      some (some true)) :
    ∃ s s', Reachable step guard start s ∧ step s a = .ok s' ∧ p s s' = true := by
  obtain ⟨s, hr, hp⟩ := Reachable.of_test step guard start acts
    (fun s ↦ (step s a).toOption.map (p s) = some true) hm (by
      obtain ⟨s, hs, hp⟩ := Option.map_eq_some_iff.mp h
      rw [hs, Option.map_some, hp, decide_eq_true rfl])
  cases hs : step s a with
  | error e =>
    rw [hs] at hp
    cases of_decide_eq_true hp
  | ok s' =>
    rw [hs] at hp
    exact ⟨s, s', hr, hs, Option.some.inj (of_decide_eq_true hp)⟩

/-! ### Labelled paths -/

/-- A finite sequence of labelled moves and the labels along it. -/
inductive Path (move : σ → α → σ → Prop) : σ → List α → σ → Prop
  | nil (s : σ) : Path move s [] s
  | cons {s s' s'' : σ} {a : α} {rest : List α} : move s a s' → Path move s' rest s'' →
      Path move s (a :: rest) s''

/-- One move is a path. -/
theorem Path.single {move : σ → α → σ → Prop} {s s' : σ} {a : α} (h : move s a s') :
    Path move s [a] s' :=
  .cons h (.nil s')

/-- Paths are put together. -/
theorem Path.append {move : σ → α → σ → Prop} {s s' s'' : σ} {as bs : List α}
    (h : Path move s as s') (h' : Path move s' bs s'') : Path move s (as ++ bs) s'' := by
  induction h with
  | nil => exact h'
  | cons hm _ ih => exact .cons hm (ih h')

/-- What every move along a path keeps, with a record brought up to date at each label, holds
at its end for the record of all labels. -/
theorem Path.keeps {move : σ → α → σ → Prop} {γ : Type} (upd : γ → α → γ) (I : σ → γ → Prop)
    {s s' : σ} {as : List α} (h : Path move s as s')
    (hstep : ∀ s a s' g, a ∈ as → I s g → move s a s' → I s' (upd g a)) {g : γ} (h0 : I s g) :
    I s' (as.foldl upd g) := by
  induction h generalizing g with
  | nil => exact h0
  | cons hm _ ih =>
    exact ih (fun s a s' g ha ↦ hstep s a s' g (List.mem_cons_of_mem _ ha))
      (hstep _ _ _ _ (List.mem_cons_self ..) h0 hm)

/-- The same without a record. -/
theorem Path.invariant {move : σ → α → σ → Prop} (I : σ → Prop) {s s' : σ} {as : List α}
    (h : Path move s as s') (hstep : ∀ s a s', a ∈ as → I s → move s a s' → I s') (h0 : I s) :
    I s' :=
  h.keeps (fun g _ ↦ g) (fun s (_ : Unit) ↦ I s) (fun s a s' _ ha hi hm ↦ hstep s a s' ha hi hm)
    (g := ()) h0

/-- A path along which a measure falls is no longer than the measure. -/
theorem Path.length_le {move : σ → α → σ → Prop} (I : σ → Prop) (μ : σ → Nat)
    (hstep : ∀ s a s', I s → move s a s' → I s' ∧ μ s' < μ s) {s s' : σ} {as : List α}
    (h : Path move s as s') (h0 : I s) : as.length + μ s' ≤ μ s := by
  induction h with
  | nil => simp
  | cons hm _ ih =>
    obtain ⟨hi, hlt⟩ := hstep _ _ _ h0 hm
    have := ih hi
    rw [List.length_cons]
    omega

/-! ### Two runs side by side -/

variable {τ β : Type}

/-- The results of a list of actions, up to the first that fails, and that failure. -/
def observe (perform : σ → α → Except ε (σ × β)) : σ → List α → List β × Option ε
  | _, [] => ([], none)
  | s, a :: rest =>
    match perform s a with
    | .error e => ([], some e)
    | .ok (s', out) => (out :: (observe perform s' rest).1, (observe perform s' rest).2)

/-- Two computations fail alike, or give one result and related states. -/
inductive Agree (R : σ → τ → Prop) : Except ε (σ × β) → Except ε (τ × β) → Prop
  | error (e : ε) : Agree R (.error e) (.error e)
  | ok {s : σ} {t : τ} (out : β) : R s t → Agree R (.ok (s, out)) (.ok (t, out))

/-- Computations that agree still do when both results go through one function. -/
theorem Agree.map {γ : Type} {R : σ → τ → Prop} {x : Except ε (σ × β)} {y : Except ε (τ × β)}
    (h : Agree R x y) (f : β → γ) :
    Agree R (x.map fun p ↦ (p.1, f p.2)) (y.map fun p ↦ (p.1, f p.2)) := by
  cases h with
  | error e => exact .error e
  | ok out hr => exact .ok (f out) hr

/-- Systems whose steps agree cannot be told apart by their results. -/
theorem observe_eq {perform : σ → α → Except ε (σ × β)} {perform' : τ → α → Except ε (τ × β)}
    (R : σ → τ → Prop) (allowed : α → Prop)
    (hstep : ∀ s t a, R s t → allowed a → Agree R (perform s a) (perform' t a)) :
    ∀ {s : σ} {t : τ} {acts : List α}, R s t → (∀ a ∈ acts, allowed a) →
      observe perform s acts = observe perform' t acts := by
  intro s t acts
  induction acts generalizing s t with
  | nil => intro _ _; rfl
  | cons a rest ih =>
    intro hr ha
    have hagree := hstep s t a hr (ha a (List.mem_cons_self ..))
    rw [observe, observe]
    revert hagree
    generalize perform s a = x
    generalize perform' t a = y
    intro hagree
    cases hagree with
    | error e => rfl
    | ok out hr' =>
      simp only
      rw [ih hr' fun b hb ↦ ha b (List.mem_cons_of_mem a hb)]

/-- Where observations agree and one side's first action succeeds, so does the other's, with
the same result. -/
theorem observe_cons {perform : σ → α → Except ε (σ × β)} {s t t' : σ} {a : α} {rest : List α}
    {out : β} (h : observe perform s (a :: rest) = observe perform t (a :: rest))
    (ht : perform t a = .ok (t', out)) :
    ∃ s', perform s a = .ok (s', out) ∧ observe perform s' rest = observe perform t' rest := by
  rw [observe, observe, ht] at h
  cases hs : perform s a with
  | error e => rw [hs] at h; cases h
  | ok p =>
    obtain ⟨s', out'⟩ := p
    rw [hs] at h
    obtain ⟨h1, h2⟩ := Prod.mk.inj h
    obtain ⟨rfl, h3⟩ := List.cons.inj h1
    exact ⟨s', rfl, Prod.ext h3 h2⟩

/-! ### Fallible computations -/

/-- Where a mapped computation succeeds, the computation did. -/
theorem map_eq_ok {β γ : Type} {x : Except ε β} {f : β → γ} {c : γ} :
    x.map f = .ok c ↔ ∃ b, x = .ok b ∧ f b = c := by
  cases x <;> simp [Except.map]

/-- Where a sequencing of fallible computations succeeds, both parts did. -/
theorem bind_eq_ok {β γ : Type} {x : Except ε β} {f : β → Except ε γ} {c : γ} :
    x.bind f = .ok c ↔ ∃ b, x = .ok b ∧ f b = .ok c := by
  cases x <;> simp [Except.bind]

/-- The computation succeeds, with a result that satisfies `P`. -/
def Yields {β : Type} (x : Except ε β) (P : β → Prop) : Prop := ∃ b, x = .ok b ∧ P b

/-- A computation that yields a property yields what the property implies. -/
theorem Yields.mono {β : Type} {x : Except ε β} {P Q : β → Prop} (h : Yields x P)
    (hpq : ∀ b, P b → Q b) : Yields x Q := by
  obtain ⟨b, hx, hb⟩ := h
  exact ⟨b, hx, hpq b hb⟩

/-- As `mono`, with the result known to be what the computation gives. -/
theorem Yields.of_eq {β : Type} {x : Except ε β} {P Q : β → Prop} (h : Yields x P)
    (hpq : ∀ b, x = .ok b → P b → Q b) : Yields x Q := by
  obtain ⟨b, hx, hb⟩ := h
  exact ⟨b, hx, hpq b hx hb⟩

/-- What every successful result satisfies, a computation that succeeds yields. -/
theorem Yields.of_ok {β : Type} {x : Except ε β} {P : β → Prop} (h : ∃ b, x = .ok b)
    (hp : ∀ b, x = .ok b → P b) : Yields x P := by
  obtain ⟨b, hx⟩ := h
  exact ⟨b, hx, hp b hx⟩

/-- What a function makes of the result of a computation. -/
theorem Yields.map {β γ : Type} {x : Except ε β} {f : β → γ} {P : γ → Prop}
    (h : Yields x fun b ↦ P (f b)) : Yields (x.map f) P := by
  obtain ⟨b, rfl, hb⟩ := h
  exact ⟨f b, rfl, hb⟩

/-- What a computation yields when it goes on with the result of another. -/
theorem Yields.bind {β γ : Type} {x : Except ε β} {f : β → Except ε γ} {P : γ → Prop}
    (h : Yields x fun b ↦ Yields (f b) P) : Yields (x >>= f) P := by
  obtain ⟨b, rfl, hb⟩ := h
  exact hb

/-! ### Runs that can be continued -/

/-- Guarded steps can lead from `s` to a state that satisfies `P`. -/
def Leads (step : σ → α → Except ε σ) (guard : σ → α → Prop) (s : σ) (P : σ → Prop) : Prop :=
  ∃ s', Reachable step guard s s' ∧ P s'

section

variable {step : σ → α → Except ε σ} {guard : σ → α → Prop} {s : σ} {P Q : σ → Prop}

/-- A run goes on from where another ended. -/
theorem Reachable.trans {s' s'' : σ} (h : Reachable step guard s s')
    (h' : Reachable step guard s' s'') : Reachable step guard s s'' := by
  induction h' with
  | start => exact h
  | next _ hg he ih => exact .next ih hg he

/-- A run of one system is a run of another that follows it step by step. -/
theorem Reachable.map {τ β : Type} {step' : τ → β → Except ε τ} {guard' : τ → β → Prop} (f : σ → τ)
    (g : α → β) (hstep : ∀ s a s', guard s a → step s a = .ok s' →
      guard' (f s) (g a) ∧ step' (f s) (g a) = .ok (f s'))
    {s' : σ} (h : Reachable step guard s s') : Reachable step' guard' (f s) (f s') := by
  induction h with
  | start => exact .start
  | next _ hg he ih =>
    obtain ⟨hg', he'⟩ := hstep _ _ _ hg he
    exact .next ih hg' he'

/-- A property that holds already is led to by doing nothing. -/
theorem Leads.here (h : P s) : Leads step guard s P := ⟨s, .start, h⟩

/-- A schedule goes on from where another ended. -/
theorem Leads.trans (h : Leads step guard s Q) (hq : ∀ s', Q s' → Leads step guard s' P) :
    Leads step guard s P := by
  obtain ⟨s', hr, hs'⟩ := h
  obtain ⟨s'', hr', hs''⟩ := hq s' hs'
  exact ⟨s'', hr.trans hr', hs''⟩

/-- One step that is allowed. -/
theorem Leads.one {a : α} (hg : guard s a) (h : Yields (step s a) Q) : Leads step guard s Q := by
  obtain ⟨s', hs, hq⟩ := h
  exact ⟨s', .next .start hg hs, hq⟩

/-- A schedule within a guard is within a weaker one. -/
theorem Leads.mono {guard' : σ → α → Prop} (h : Leads step guard s P)
    (hw : ∀ s a, guard s a → guard' s a) : Leads step guard' s P := by
  obtain ⟨s', hr, hs'⟩ := h
  exact ⟨s', hr.mono hw, hs'⟩

end

end RooTransport.Base
