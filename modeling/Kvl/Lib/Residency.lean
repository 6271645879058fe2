import Mathlib

/-!
# Runs over resources that come and go

A trace acquires resources, runs commands and releases resources. Every command serves a
job, and every job needs some resources. A trace is sound where a command runs only while
what its job needs is there, and a resource goes only once no job is left that needs it.
-/

namespace Kvl.Residency

set_option autoImplicit false

/-- `ρ` are the resources and `κ` the commands. -/
inductive Event (ρ κ : Type*)
  | acquire (r : ρ)
  | run (command : κ)
  | release (r : ρ)
  deriving DecidableEq

section
variable {ρ κ ι : Type*}

def Event.apply : Event ρ κ → Set ρ → Set ρ
  | .acquire r, held => insert r held
  | .run _, held => held
  | .release r, held => held \ {r}

/-- What is there after a trace. -/
def resident (start : Set ρ) (trace : List (Event ρ κ)) : Set ρ :=
  trace.foldl (fun held e => e.apply held) start

@[simp] theorem resident_nil (start : Set ρ) : resident start ([] : List (Event ρ κ)) = start :=
  rfl

@[simp] theorem resident_concat (start : Set ρ) (trace : List (Event ρ κ)) (e : Event ρ κ) :
    resident start (trace ++ [e]) = e.apply (resident start trace) := by
  unfold resident
  rw [List.foldl_append]
  rfl

variable (job : κ → ι) (needs : ι → Set ρ) (jobs : Set ι) (start : Set ρ)

structure Sound (trace : List (Event ρ κ)) : Prop where
  run : ∀ pre command post, trace = pre ++ .run command :: post →
    needs (job command) ⊆ resident start pre
  release : ∀ pre r post, trace = pre ++ .release r :: post →
    ∀ j ∈ jobs, r ∈ needs j → ∃ command, job command = j ∧ Event.run command ∈ pre

/-- Where an event stands in a trace one event longer. -/
theorem split_concat {trace pre post : List (Event ρ κ)} {e e' : Event ρ κ}
    (h : trace ++ [e] = pre ++ e' :: post) :
    (pre = trace ∧ e' = e) ∨ ∃ post', trace = pre ++ e' :: post' := by
  rcases List.eq_nil_or_concat post with rfl | ⟨post', last, rfl⟩
  · obtain ⟨hpre, he⟩ := List.append_inj' h rfl
    exact Or.inl ⟨hpre.symm, (List.singleton_inj.mp he).symm⟩
  · refine Or.inr ⟨post', ?_⟩
    rw [List.concat_eq_append, ← List.cons_append, ← List.append_assoc] at h
    exact (List.append_inj' h rfl).1

variable {job needs jobs start}
variable {trace : List (Event ρ κ)}

theorem Sound.nil : Sound job needs jobs start [] :=
  ⟨fun _ _ _ h => absurd h (List.append_ne_nil_of_right_ne_nil _ (List.cons_ne_nil _ _)).symm,
    fun _ _ _ h => absurd h (List.append_ne_nil_of_right_ne_nil _ (List.cons_ne_nil _ _)).symm⟩

theorem Sound.concat {e : Event ρ κ} (h : Sound job needs jobs start trace)
    (hrun : ∀ command, e = .run command → needs (job command) ⊆ resident start trace)
    (hrelease : ∀ r, e = .release r → ∀ j ∈ jobs, r ∈ needs j →
      ∃ command, job command = j ∧ Event.run command ∈ trace) :
    Sound job needs jobs start (trace ++ [e]) := by
  constructor
  · intro pre command post hsplit
    cases split_concat hsplit with
    | inl hlast =>
      rw [hlast.1]
      exact hrun command hlast.2.symm
    | inr hmid =>
      obtain ⟨post', hmid⟩ := hmid
      exact h.run pre command post' hmid
  · intro pre r post hsplit
    cases split_concat hsplit with
    | inl hlast =>
      rw [hlast.1]
      exact hrelease r hlast.2.symm
    | inr hmid =>
      obtain ⟨post', hmid⟩ := hmid
      exact h.release pre r post' hmid

theorem Sound.acquire (h : Sound job needs jobs start trace) (r : ρ) :
    Sound job needs jobs start (trace ++ [.acquire r]) :=
  h.concat (fun _ => nofun) (fun _ => nofun)

theorem Sound.runs (h : Sound job needs jobs start trace) (command : κ)
    (hneeds : needs (job command) ⊆ resident start trace) :
    Sound job needs jobs start (trace ++ [.run command]) := by
  refine h.concat (fun _ he => ?_) (fun _ => nofun)
  cases he
  exact hneeds

theorem Sound.releases (h : Sound job needs jobs start trace) {r : ρ}
    (hdone : ∀ j ∈ jobs, r ∈ needs j → ∃ command, job command = j ∧ Event.run command ∈ trace) :
    Sound job needs jobs start (trace ++ [.release r]) := by
  refine h.concat (fun _ => nofun) (fun _ he => ?_)
  cases he
  exact hdone

/-! ### How often -/

variable [DecidableEq ι] (job)

/-- How often a job is run. -/
def timesRun (j : ι) (trace : List (Event ρ κ)) : Nat :=
  trace.countP fun e => match e with
    | .run command => decide (job command = j)
    | _ => false

variable {job}

@[simp] theorem timesRun_nil (j : ι) : timesRun job j ([] : List (Event ρ κ)) = 0 := rfl

@[simp] theorem timesRun_acquire (j : ι) (r : ρ) :
    timesRun job j (trace ++ [.acquire r]) = timesRun job j trace := by
  simp [timesRun]

@[simp] theorem timesRun_release (j : ι) (r : ρ) :
    timesRun job j (trace ++ [.release r]) = timesRun job j trace := by
  simp [timesRun]

@[simp] theorem timesRun_run (j : ι) (command : κ) :
    timesRun job j (trace ++ [.run command]) =
      timesRun job j trace + if job command = j then 1 else 0 := by
  simp [timesRun, List.countP_append, List.countP_cons]

theorem timesRun_pos {j : ι} :
    0 < timesRun job j trace ↔ ∃ command, job command = j ∧ Event.run command ∈ trace := by
  unfold timesRun
  rw [List.countP_pos_iff]
  constructor
  · rintro ⟨e, he, hj⟩
    cases e with
    | run command => exact ⟨command, of_decide_eq_true hj, he⟩
    | acquire r => cases hj
    | release r => cases hj
  · rintro ⟨command, hj, he⟩
    exact ⟨_, he, decide_eq_true hj⟩

end

end Kvl.Residency
