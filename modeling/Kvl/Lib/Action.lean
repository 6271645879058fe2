import Mathlib

/-!
# Actions on a state that may stop

An action changes a state and returns a value or stops with an error; what it
changed before it stopped stays changed. `Ensures` is the rule system for facts
that hold however an action ends.
-/

namespace Kvl

set_option autoImplicit false

def Action (σ ε α : Type) := σ → Except ε α × σ

namespace Action

variable {σ ε α β : Type}

instance : Monad (Action σ ε) where
  pure a := fun s => (.ok a, s)
  bind m f := fun s =>
    match m s with
    | (.ok a, t) => f a t
    | (.error e, t) => (.error e, t)

def raise (e : ε) : Action σ ε α := fun s => (.error e, s)

def rescue (m : Action σ ε α) (handler : ε → Action σ ε α) : Action σ ε α := fun s =>
  match m s with
  | (.ok a, t) => (.ok a, t)
  | (.error e, t) => handler e t

def modify (f : σ → σ) : Action σ ε Unit := fun s => (.ok (), f s)

def get : Action σ ε σ := fun s => (.ok s, s)

def lift (r : Except ε α) : Action σ ε α := fun s => (r, s)

/-- Started in `P`, the action ends in `Q`, however it ends. -/
def Ensures (m : Action σ ε α) (P : σ → Prop) (Q : Except ε α → σ → Prop) : Prop :=
  ∀ s, P s → Q (m s).1 (m s).2

variable {m : Action σ ε α} {P P' : σ → Prop} {Q Q' : Except ε α → σ → Prop}

theorem bind_ok {f : α → Action σ ε β} {s t : σ} {a : α} (h : m s = (.ok a, t)) :
    (m >>= f) s = f a t := by
  change (match m s with
    | (.ok a, t) => f a t
    | (.error e, t) => (.error e, t)) = f a t
  rw [h]

theorem bind_error {f : α → Action σ ε β} {s t : σ} {e : ε} (h : m s = (.error e, t)) :
    (m >>= f) s = (.error e, t) := by
  change (match m s with
    | (.ok a, t) => f a t
    | (.error e, t) => (.error e, t)) = (.error e, t)
  rw [h]

theorem rescue_ok {handler : ε → Action σ ε α} {s t : σ} {a : α} (h : m s = (.ok a, t)) :
    m.rescue handler s = (.ok a, t) := by
  unfold rescue
  rw [h]

theorem rescue_error {handler : ε → Action σ ε α} {s t : σ} {e : ε} (h : m s = (.error e, t)) :
    m.rescue handler s = handler e t := by
  unfold rescue
  rw [h]

theorem Ensures.mono (h : Ensures m P Q) (hP : ∀ s, P' s → P s)
    (hQ : ∀ r s, Q r s → Q' r s) : Ensures m P' Q' := fun s hs => hQ _ _ (h s (hP s hs))

theorem Ensures.pure {a : α} (h : ∀ s, P s → Q (.ok a) s) :
    Ensures (Pure.pure a : Action σ ε α) P Q := h

theorem Ensures.raise {e : ε} (h : ∀ s, P s → Q (.error e) s) :
    Ensures (raise e : Action σ ε α) P Q := h

theorem Ensures.lift {r : Except ε α} (h : ∀ s, P s → Q r s) :
    Ensures (lift r : Action σ ε α) P Q := h

/-- The first action ends in `R`; what it stops with is what the whole stops with. -/
theorem Ensures.bind {f : α → Action σ ε β} {R : Except ε α → σ → Prop}
    {Q : Except ε β → σ → Prop} (hm : Ensures m P R)
    (hok : ∀ a, Ensures (f a) (R (.ok a)) Q) (herror : ∀ e s, R (.error e) s → Q (.error e) s) :
    Ensures (m >>= f) P Q := by
  intro s hs
  have hr := hm s hs
  rcases hrun : m s with ⟨r, t⟩
  rw [hrun] at hr
  cases r with
  | ok a =>
    rw [bind_ok hrun]
    exact hok a t hr
  | error e =>
    rw [bind_error hrun]
    exact herror e t hr

/-- A fact that every part of an action keeps. -/
def Preserves (m : Action σ ε α) (P : σ → Prop) : Prop := Ensures m P fun _ s => P s

theorem Preserves.bind {f : α → Action σ ε β} (hm : Preserves m P) (hf : ∀ a, Preserves (f a) P) :
    Preserves (m >>= f) P := Ensures.bind hm hf fun _ _ h => h

theorem Preserves.pure (a : α) (P : σ → Prop) : Preserves (Pure.pure a : Action σ ε α) P := fun _ h => h

theorem Preserves.lift (r : Except ε α) (P : σ → Prop) : Preserves (lift r : Action σ ε α) P := fun _ h => h

theorem Preserves.raise (e : ε) (P : σ → Prop) : Preserves (raise e : Action σ ε α) P := fun _ h => h

theorem Preserves.modify {f : σ → σ} (h : ∀ s, P s → P (f s)) :
    Preserves (modify f : Action σ ε Unit) P := h

theorem Preserves.rescue {handler : ε → Action σ ε α} (hm : Preserves m P)
    (hhandler : ∀ e, Preserves (handler e) P) : Preserves (m.rescue handler) P := by
  intro s hs
  have hr := hm s hs
  rcases hrun : m s with ⟨r, t⟩
  rw [hrun] at hr
  cases r with
  | ok a =>
    rw [rescue_ok hrun]
    exact hr
  | error e =>
    rw [rescue_error hrun]
    exact hhandler e t hr

end Action

end Kvl
