import Mathlib.Logic.Basic

/-!
# A flag with one waiter

Support library. One thread waits for a flag, any number of threads set it. The flag is
set without the lock: a call that finds it set has nothing more to do, and the call that
sets it takes the lock to wake the waiter. The waiter holds the lock from its test of the
flag until it sleeps, may be roused or run out of time there, and clears the flag as it
leaves. A step that is not enabled changes nothing.
-/

namespace RooTransport.Base

/-- Where the waiter is. -/
inductive Waiter where
  | away
  /-- Holds the lock and is about to test the flag. -/
  | testing
  /-- Holds the lock and is about to sleep, having found the flag unset. -/
  | settling
  | asleep
  /-- Is about to take the lock again. -/
  | woken
  /-- Holds the lock and is about to clear the flag. -/
  | leaving
  deriving DecidableEq, Repr

/-- Whether the waiter holds the lock. -/
def Waiter.locks : Waiter → Bool
  | .testing | .settling | .leaving => true
  | .away | .asleep | .woken => false

/-- How many steps it has before it sleeps or leaves. -/
def Waiter.distance : Waiter → Nat
  | .leaving | .asleep => 0
  | .settling => 1
  | .testing => 2
  | .woken | .away => 3

/-- A flag, the calls that are setting it, and the thread that waits for it. -/
structure Bell where
  flag : Bool
  /-- Calls that have yet to set the flag. -/
  ringing : Nat
  /-- Calls that have set it and have yet to wake the waiter. -/
  signalling : Nat
  waiter : Waiter
  deriving DecidableEq, Repr

namespace Bell

/-- Nothing has happened yet. -/
def silent : Bell := ⟨false, 0, 0, .away⟩

/-- A step of one of the threads. -/
inductive Act where
  | ring
  | exchange
  | signal
  /-- The waiter begins to wait. -/
  | enter
  /-- The waiter's next step. -/
  | turn
  /-- The waiter wakes for no reason. -/
  | rouse
  /-- The waiter has waited long enough. -/
  | expire
  deriving DecidableEq, Repr

/-- The bell after a step. A step that is not enabled changes nothing. -/
def step (b : Bell) : Act → Bell
  | .ring => { b with ringing := b.ringing + 1 }
  | .exchange =>
    if b.ringing = 0 then b
    else if b.flag then { b with ringing := b.ringing - 1 }
    else { b with flag := true, ringing := b.ringing - 1, signalling := b.signalling + 1 }
  | .signal =>
    if b.signalling = 0 ∨ b.waiter.locks = true then b
    else { b with
      signalling := b.signalling - 1
      waiter := if b.waiter = .asleep then .woken else b.waiter }
  | .enter => if b.waiter = .away then { b with waiter := .testing } else b
  | .turn =>
    match b.waiter with
    | .away | .asleep => b
    | .testing => { b with waiter := if b.flag then .leaving else .settling }
    | .settling => { b with waiter := .asleep }
    | .woken => { b with waiter := .testing }
    | .leaving => { b with flag := false, waiter := .away }
  | .rouse => if b.waiter = .asleep then { b with waiter := .woken } else b
  | .expire => if b.waiter = .asleep then { b with waiter := .leaving } else b

/-- A waiter that has seen the flag unset is woken by whoever has set it since. -/
def Watched (b : Bell) : Prop :=
  b.waiter = .settling ∨ b.waiter = .asleep → b.flag = true → 0 < b.signalling

/-- The flag is set, or is about to be. -/
def Pending (b : Bell) : Prop := 0 < b.ringing ∨ b.flag = true

variable {b : Bell}

/-- Nobody has set the flag of a silent bell. -/
theorem watched_silent : silent.Watched := by
  rintro (h | h) <;> cases h

/-- Every step keeps the waiter watched. -/
theorem Watched.step (h : b.Watched) (a : Act) : (b.step a).Watched := by
  obtain ⟨flag, ringing, signalling, waiter⟩ := b
  cases a with
  | ring | enter | rouse | expire => cases waiter <;> simp_all [Watched, Bell.step]
  | exchange =>
    rw [Bell.step]
    split
    · exact h
    split
    · exact h
    · exact fun _ _ ↦ Nat.succ_pos _
  | signal =>
    rw [Bell.step]
    split
    · exact h
    · -- the lock is free, so the waiter sleeps or is not concerned
      cases waiter <;> simp_all [Watched, Waiter.locks]
  | turn => cases waiter <;> cases flag <;> simp_all [Watched, Bell.step]

/-- Only the waiter that leaves forgets a call. -/
theorem Pending.step (h : b.Pending) {a : Act} (ha : a = .turn → b.waiter ≠ .leaving) :
    (b.step a).Pending := by
  obtain ⟨flag, ringing, signalling, waiter⟩ := b
  cases a with
  | ring => exact .inl (Nat.succ_pos _)
  | exchange =>
    rw [Bell.step]
    split
    · exact h
    split
    · next hf => exact .inr hf
    · exact .inr rfl
  | signal =>
    rw [Bell.step]
    split
    · exact h
    · exact h
  | enter | rouse | expire => cases waiter <;> exact h
  | turn =>
    cases waiter with
    | leaving => exact absurd rfl (ha rfl)
    | _ => exact h

/-- A waiter that is away comes back only by itself. -/
theorem away_step (hw : b.waiter = .away) {a : Act} (ha : a ≠ .enter) :
    (b.step a).waiter = .away := by
  cases a with
  | enter => exact absurd rfl ha
  | ring => exact hw
  | exchange =>
    simp only [step]
    split
    · exact hw
    split
    · exact hw
    · exact hw
  | signal =>
    simp only [step]
    split
    · exact hw
    · simp [hw]
  | turn | rouse | expire => simp [step, hw]

/-- A call that has begun is pending. -/
theorem pending_ring (b : Bell) : (b.step .ring).Pending := .inl (Nat.succ_pos _)

/-- Nobody sleeps through a call. -/
theorem Watched.silent (h : b.Watched) (hw : b.waiter = .asleep) (hr : b.ringing = 0)
    (hs : b.signalling = 0) : ¬ b.Pending := by
  rintro (hp | hf)
  · omega
  · have := h (.inr hw) hf
    omega

/-! ### Steps that are left -/

/-- What the calls under way and the waiter can still do if nobody else calls: a call takes two
steps, and one that wakes the waiter makes it test the flag again. -/
def effort (b : Bell) : Nat := 5 * b.ringing + 4 * b.signalling + b.waiter.distance

/-- An exchange does nothing, or leaves less to do. -/
theorem effort_exchange (b : Bell) :
    b.step .exchange = b ∨ (b.step .exchange).effort < b.effort := by
  rw [step]
  split
  · exact .inl rfl
  · right
    split <;> simp only [effort] <;> omega

/-- A signal does nothing, or leaves less to do. -/
theorem effort_signal (b : Bell) : b.step .signal = b ∨ (b.step .signal).effort < b.effort := by
  rw [step]
  split
  · exact .inl rfl
  · next hn =>
    obtain ⟨hs, -⟩ := not_or.mp hn
    right
    simp only [effort]
    split
    · next hw =>
      simp only [hw, Waiter.distance]
      omega
    · omega

/-- A waiter that begins to wait has less to do. -/
theorem effort_enter (hw : b.waiter = .away) : (b.step .enter).effort < b.effort := by
  simp [step, effort, hw, Waiter.distance]

/-- A turn of the waiter does nothing, or leaves less to do, unless the waiter leaves. -/
theorem effort_turn (hw : b.waiter ≠ .leaving) :
    b.step .turn = b ∨ (b.step .turn).effort < b.effort := by
  obtain ⟨flag, ringing, signalling, waiter⟩ := b
  cases waiter with
  | away | asleep => exact .inl rfl
  | settling | woken =>
    right
    simp [step, effort, Waiter.distance]
  | testing =>
    right
    cases flag <;> simp [step, effort, Waiter.distance]
  | leaving => exact absurd rfl hw

/-- The waiter that leaves has nothing behind it, and may come back. -/
theorem effort_leave (hw : b.waiter = .leaving) :
    (b.step .turn).effort = b.effort + 3 := by
  simp [step, effort, hw, Waiter.distance]

/-- Once it is called, a waiter need not run out of time: something is left to do. -/
theorem Watched.onward (h : b.Watched) (hp : b.Pending) (hw : b.waiter ≠ .away) :
    b.step .exchange ≠ b ∨ b.step .signal ≠ b ∨ b.step .turn ≠ b := by
  obtain ⟨flag, ringing, signalling, waiter⟩ := b
  cases waiter with
  | away => exact absurd rfl hw
  | testing => cases flag <;> simp [Bell.step]
  | settling | woken | leaving => simp [Bell.step]
  | asleep =>
    by_cases hr : ringing = 0
    · have hs : signalling ≠ 0 := fun hs ↦ h.silent rfl hr hs hp
      right; left
      simp [Bell.step, hs, Waiter.locks]
    · left
      cases flag with
      | false => simp [Bell.step, hr]
      | true =>
        simp only [Bell.step, hr, if_false, if_true, ne_eq, mk.injEq]
        omega

end Bell

end RooTransport.Base
