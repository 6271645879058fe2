import Mathlib

/-!
# Runs of a machine

A machine takes an event or refuses it. `Reach` are its finite runs whose steps
all meet a condition on the state before the step and its event.
-/

namespace Kvl.Machine

set_option autoImplicit false

variable {σ ε : Type*}

inductive Reach (step : σ → ε → Option σ) (allowed : σ → ε → Prop) : σ → σ → Prop where
  | refl (s : σ) : Reach step allowed s s
  | tail {s t u : σ} {e : ε} :
    Reach step allowed s t → allowed t e → step t e = some u → Reach step allowed s u

/-- The state after a list of events. -/
def follow (step : σ → ε → Option σ) : σ → List ε → Option σ
  | s, [] => some s
  | s, e :: es => (step s e).bind fun t => follow step t es

/-- Every step is allowed. -/
def anyStep : σ → ε → Prop := fun _ _ => True

variable {step : σ → ε → Option σ} {allowed allowed' : σ → ε → Prop} {s t u : σ}

theorem Reach.trans (hst : Reach step allowed s t) (htu : Reach step allowed t u) :
    Reach step allowed s u := by
  induction htu with
  | refl => exact hst
  | tail _ ha hu ih => exact .tail ih ha hu

theorem Reach.mono (hall : ∀ s e, allowed s e → allowed' s e) (h : Reach step allowed s t) :
    Reach step allowed' s t := by
  induction h with
  | refl => exact .refl _
  | tail _ ha hu ih => exact .tail ih (hall _ _ ha) hu

/-- What the start has and every allowed step keeps, every run keeps. -/
theorem Reach.invariant {inv : σ → Prop}
    (hstep : ∀ s e u, inv s → allowed s e → step s e = some u → inv u)
    (hs : inv s) (h : Reach step allowed s t) : inv t := by
  induction h with
  | refl => exact hs
  | tail _ ha hu ih => exact hstep _ _ _ ih ha hu

theorem reach_of_follow {es : List ε} (hall : ∀ s, ∀ e ∈ es, allowed s e)
    (h : follow step s es = some t) : Reach step allowed s t := by
  induction es generalizing s with
  | nil =>
    rw [Option.some.inj h]
    exact .refl t
  | cons e es ih =>
    obtain ⟨m, hm, hrest⟩ := Option.bind_eq_some_iff.mp h
    have hfirst := Reach.tail (.refl s) (hall s e List.mem_cons_self) hm
    exact hfirst.trans (ih (fun s' e' he' => hall s' e' (List.mem_cons_of_mem e he')) hrest)

end Kvl.Machine
