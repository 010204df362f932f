import PerfTools.Lib.Exec

/-!
# Systems and programs with a main loop

A system is given by its start states and its steps; what every start has and every step keeps
holds in every state that is reached. A program that waits for its environment in a loop is a
machine: one round of the loop takes the environment's answer and says whether the loop goes on.
-/

namespace PerfTools

open Exec

structure System (σ : Type) where
  start : σ → Prop
  step : σ → σ → Prop

namespace System

variable {σ : Type} {S : System σ}

/-- The states of all runs. -/
inductive Reached (S : System σ) : σ → Prop
  | start {s : σ} : S.start s → Reached S s
  | step {s t : σ} : Reached S s → S.step s t → Reached S t

/-- The invariant rule. -/
theorem Reached.invariant {I : σ → Prop} (hstart : ∀ s, S.start s → I s)
    (hstep : ∀ s t, I s → S.step s t → I t) {s : σ} (hs : S.Reached s) : I s := by
  induction hs with
  | start hs => exact hstart _ hs
  | step _ hst ih => exact hstep _ _ ih hst

end System

/-- Where a program is between two rounds of its loop. -/
inductive Status
  | waiting
  | left
  | stopped (e : Stop)
  deriving DecidableEq, Repr

/-- A loop over answers of type ι on a state of type σ. -/
structure Machine (ι σ : Type) where
  start : σ → Prop
  allowed : σ → ι → Prop
  round : ι → Exec σ Bool

namespace Machine

variable {ι σ : Type} (M : Machine ι σ)

/-- The state after a round. -/
def next (a : ι) (s : σ) : Status × σ :=
  match M.round a s with
  | (.ok true, t) => (.waiting, t)
  | (.ok false, t) => (.left, t)
  | (.error e, t) => (.stopped e, t)

/-- The machine as a system. -/
def system : System (Status × σ) where
  start x := x.1 = .waiting ∧ M.start x.2
  step x y := x.1 = .waiting ∧ ∃ a, M.allowed x.2 a ∧ y = M.next a x.2

abbrev Reached : Status × σ → Prop := M.system.Reached

/-- The runs all of whose steps meet a condition. -/
def under (C : σ → ι → Prop) : Machine ι σ := { M with allowed s a := M.allowed s a ∧ C s a }

variable {M}

theorem reached_start {s : σ} (h : M.start s) : M.Reached (.waiting, s) := .start ⟨rfl, h⟩

theorem reached_next {s : σ} {a : ι} (hs : M.Reached (.waiting, s)) (ha : M.allowed s a) :
    M.Reached (M.next a s) :=
  .step hs ⟨rfl, a, ha, rfl⟩

theorem next_eq {a : ι} {s t : σ} {more : Bool} (h : M.round a s = (.ok more, t)) :
    M.next a s = (if more then .waiting else .left, t) := by
  rw [next, h]
  cases more <;> rfl

/-- A round is described by its weakest precondition. -/
theorem next_of_wp {I : Status × σ → Prop} {a : ι} {s : σ}
    (h : wp (M.round a) (fun more t => I (if more then .waiting else .left, t))
      (fun e t => I (.stopped e, t)) s) : I (M.next a s) := by
  unfold wp at h
  unfold next
  rcases hround : M.round a s with ⟨e | more, t⟩ <;> rw [hround] at h
  · exact h
  · cases more <;> exact h

/-- The invariant rule for machines. -/
theorem invariant {I : Status × σ → Prop} (hstart : ∀ s, M.start s → I (.waiting, s))
    (hround : ∀ a s, I (.waiting, s) → M.allowed s a →
      wp (M.round a) (fun more t => I (if more then .waiting else .left, t))
        (fun e t => I (.stopped e, t)) s) {x : Status × σ} (hx : M.Reached x) : I x := by
  refine System.Reached.invariant (I := I) ?_ ?_ hx
  · rintro ⟨_, s⟩ ⟨rfl, hs⟩
    exact hstart s hs
  · rintro ⟨_, s⟩ _ hs ⟨rfl, a, ha, rfl⟩
    exact next_of_wp (hround a s hs ha)

end Machine

end PerfTools
