import Mathlib.Data.List.Basic
import Mathlib.Logic.Function.Basic

/-!
# A parallel loop over private scratch

A worker takes an item that no worker has taken and does the phases of the item
one after another; the phases of different workers interleave in any order. A
phase that keeps what the other workers have, and what is done, does every item.
-/

namespace Kvl

set_option autoImplicit false

namespace Workers

inductive Event where
  | take (worker item : Nat)
  | advance (worker : Nat)

/-- The item and the next phase of each worker, and the items that were taken. -/
structure Control where
  busy : Nat → Option (Nat × Nat)
  taken : List Nat

def Control.idle : Control := ⟨fun _ => none, []⟩

section Model
variable {σ : Type*} (workers items phases : Nat) (act : Nat → Nat → Nat → σ → σ)

def step (e : Event) (st : Control × σ) : Option (Control × σ) :=
  match e with
  | .take w t =>
    if w < workers ∧ t < items ∧ t ∉ st.1.taken ∧ st.1.busy w = none then
      some (⟨Function.update st.1.busy w (some (t, 0)), t :: st.1.taken⟩, st.2)
    else none
  | .advance w =>
    match st.1.busy w with
    | none => none
    | some (t, p) =>
      some (⟨Function.update st.1.busy w (if p + 1 < phases then some (t, p + 1) else none),
        st.1.taken⟩, act w t p st.2)

def run : List Event → Control × σ → Option (Control × σ)
  | [], st => some st
  | e :: events, st => (step workers items phases act e st).bind (run events)

/-- Every item was taken and no worker is in one. -/
def Control.Finished (c : Control) : Prop :=
  (∀ t < items, t ∈ c.taken) ∧ ∀ w < workers, c.busy w = none

instance (c : Control) : Decidable (c.Finished workers items) := by
  unfold Control.Finished
  infer_instance

/-- The loop, where its events are a whole run of it. -/
def loop (events : List Event) (s : σ) : Option σ :=
  (run workers items phases act events (.idle, s)).bind fun st =>
    if st.1.Finished workers items then some st.2 else none

/-- The events of a whole run, whatever the phases do. -/
def Whole (events : List Event) : Prop :=
  (loop workers items phases (fun _ _ _ => id) events ()).isSome

instance (events : List Event) : Decidable (Whole workers items phases events) := by
  unfold Whole
  infer_instance

end Model

section Facts
variable {σ τ : Type*} {workers items phases : Nat} {act : Nat → Nat → Nat → σ → σ}
  {act' : Nat → Nat → Nat → τ → τ}

/-- What the workers do next does not depend on the data. -/
theorem step_control (e : Event) (c : Control) (s : σ) (s' : τ) :
    (step workers items phases act e (c, s)).map Prod.fst =
      (step workers items phases act' e (c, s')).map Prod.fst := by
  cases e with
  | take w t =>
    unfold step
    dsimp only
    split
    · rfl
    · rfl
  | advance w =>
    unfold step
    dsimp only
    cases c.busy w with
    | none => rfl
    | some item => rfl

theorem run_control (events : List Event) (c : Control) (s : σ) (s' : τ) :
    (run workers items phases act events (c, s)).map Prod.fst =
      (run workers items phases act' events (c, s')).map Prod.fst := by
  induction events generalizing c s s' with
  | nil => rfl
  | cons e events ih =>
    have hstep := @step_control σ τ workers items phases act act' e c s s'
    change ((step workers items phases act e (c, s)).bind _).map Prod.fst =
      ((step workers items phases act' e (c, s')).bind _).map Prod.fst
    cases hs : step workers items phases act e (c, s) with
    | none =>
      rw [hs] at hstep
      rw [Option.map_eq_none_iff.mp hstep.symm]
      rfl
    | some st =>
      rw [hs] at hstep
      obtain ⟨st', hs', hst⟩ := Option.map_eq_some_iff.mp hstep.symm
      obtain ⟨c₁, s₁⟩ := st
      obtain ⟨c₂, s₂⟩ := st'
      change c₂ = c₁ at hst
      subst hst
      rw [hs']
      exact ih c₂ s₁ s₂

theorem Whole.loop_isSome {events : List Event} (h : Whole workers items phases events) (s : σ) :
    (loop workers items phases act events s).isSome := by
  unfold Whole at h
  obtain ⟨u, hu⟩ := Option.isSome_iff_exists.mp h
  unfold loop at hu
  obtain ⟨st, hrun, hfinished⟩ := Option.bind_eq_some_iff.mp hu
  have hcontrol := @run_control σ Unit workers items phases act (fun _ _ _ => id) events .idle s ()
  rw [hrun] at hcontrol
  obtain ⟨st', hrun', hst⟩ := Option.map_eq_some_iff.mp hcontrol
  unfold loop
  rw [hrun']
  change (if st'.1.Finished workers items then some st'.2 else none).isSome
  rw [hst]
  split at hfinished
  · rename_i hdone
    rw [if_pos hdone]
    rfl
  · simp at hfinished

end Facts

/-- What is known of the data: `At w t p` of a worker before phase `p` of an item, and
`Done t` of an item after its last phase. -/
structure Sound {σ : Type*} (workers items phases : Nat) (act : Nat → Nat → Nat → σ → σ)
    (Inv : σ → Prop) (At : Nat → Nat → Nat → σ → Prop) (Done : Nat → σ → Prop) : Prop where
  inv : ∀ {w t p s}, w < workers → t < items → Inv s → Inv (act w t p s)
  start : ∀ {w t s}, Inv s → At w t 0 s
  next : ∀ {w t p s}, w < workers → t < items → p + 1 < phases → Inv s → At w t p s →
    At w t (p + 1) (act w t p s)
  finish : ∀ {w t p s}, w < workers → t < items → p + 1 = phases → Inv s → At w t p s →
    Done t (act w t p s)
  other : ∀ {w t p w' t' p' s}, w' ≠ w → t < items → t' < items → At w' t' p' s →
    At w' t' p' (act w t p s)
  keep : ∀ {w t p t' s}, t ≠ t' → t < items → Done t' s → Done t' (act w t p s)

/-- The invariant of a loop. -/
structure Running {σ : Type*} (workers items phases : Nat) (Inv : σ → Prop)
    (At : Nat → Nat → Nat → σ → Prop) (Done : Nat → σ → Prop) (st : Control × σ) : Prop where
  inv : Inv st.2
  at_phase : ∀ {w t p}, st.1.busy w = some (t, p) →
    w < workers ∧ t < items ∧ t ∈ st.1.taken ∧ p < phases ∧ At w t p st.2
  alone : ∀ {w w' t p p'}, st.1.busy w = some (t, p) → st.1.busy w' = some (t, p') → w = w'
  finished : ∀ t ∈ st.1.taken, (∀ w p, st.1.busy w ≠ some (t, p)) → Done t st.2

section Soundness
variable {σ : Type*} {workers items phases : Nat} {act : Nat → Nat → Nat → σ → σ}
  {Inv : σ → Prop} {At : Nat → Nat → Nat → σ → Prop} {Done : Nat → σ → Prop}

theorem Running.take (hphases : 0 < phases) (hsound : Sound workers items phases act Inv At Done)
    {c : Control} {s : σ} {w t : Nat} (hrunning : Running workers items phases Inv At Done (c, s))
    (hw : w < workers) (ht : t < items) (hnew : t ∉ c.taken) (hidle : c.busy w = none) :
    Running workers items phases Inv At Done
      (⟨Function.update c.busy w (some (t, 0)), t :: c.taken⟩, s) := by
  have hold : ∀ {w' t' p'}, Function.update c.busy w (some (t, 0)) w' = some (t', p') →
      (w' = w ∧ t' = t ∧ p' = 0) ∨ (w' ≠ w ∧ t' ≠ t ∧ c.busy w' = some (t', p')) := by
    intro w' t' p' h
    by_cases hself : w' = w
    · subst hself
      rw [Function.update_self] at h
      simp only [Option.some.injEq, Prod.mk.injEq] at h
      exact .inl ⟨rfl, h.1.symm, h.2.symm⟩
    · rw [Function.update_of_ne hself] at h
      refine .inr ⟨hself, ?_, h⟩
      intro heq
      subst heq
      exact hnew (hrunning.at_phase h).2.2.1
  constructor
  · exact hrunning.inv
  · intro w' t' p' h
    rcases hold h with ⟨rfl, rfl, rfl⟩ | ⟨_, _, h'⟩
    · exact ⟨hw, ht, List.mem_cons_self, hphases, hsound.start hrunning.inv⟩
    · obtain ⟨hw', ht', htaken, hp', hat⟩ := hrunning.at_phase h'
      exact ⟨hw', ht', List.mem_cons_of_mem t htaken, hp', hat⟩
  · intro w₁ w₂ t' p₁ p₂ h₁ h₂
    rcases hold h₁ with ⟨rfl, rfl, rfl⟩ | ⟨_, hne, h₁'⟩
    · rcases hold h₂ with ⟨rfl, _, _⟩ | ⟨_, hne, _⟩
      · rfl
      · exact absurd rfl hne
    · rcases hold h₂ with ⟨_, heq, _⟩ | ⟨_, _, h₂'⟩
      · exact absurd heq hne
      · exact hrunning.alone h₁' h₂'
  · intro t' htaken hfree
    rcases List.mem_cons.mp htaken with rfl | hbefore
    · exact absurd (Function.update_self w (some (t', 0)) c.busy) (hfree w 0)
    · apply hrunning.finished t' hbefore
      intro w' p' h
      by_cases hself : w' = w
      · subst hself
        change c.busy w' = _ at h
        rw [hidle] at h
        simp at h
      · apply hfree w' p'
        change Function.update c.busy w (some (t, 0)) w' = _
        rw [Function.update_of_ne hself]
        exact h

theorem Running.advance (hsound : Sound workers items phases act Inv At Done) {c : Control} {s : σ}
    {w t p : Nat} (hrunning : Running workers items phases Inv At Done (c, s))
    (hbusy : c.busy w = some (t, p)) :
    Running workers items phases Inv At Done
      (⟨Function.update c.busy w (if p + 1 < phases then some (t, p + 1) else none), c.taken⟩,
        act w t p s) := by
  obtain ⟨hw, ht, htaken, hp, hat⟩ := hrunning.at_phase hbusy
  have hold : ∀ {w' t' p'}, Function.update c.busy w
      (if p + 1 < phases then some (t, p + 1) else none) w' = some (t', p') →
      (w' = w ∧ t' = t ∧ p' = p + 1 ∧ p + 1 < phases) ∨
        (w' ≠ w ∧ t' ≠ t ∧ c.busy w' = some (t', p')) := by
    intro w' t' p' h
    by_cases hself : w' = w
    · subst hself
      rw [Function.update_self] at h
      split at h
      · rename_i hmore
        simp only [Option.some.injEq, Prod.mk.injEq] at h
        exact .inl ⟨rfl, h.1.symm, h.2.symm, hmore⟩
      · simp at h
    · rw [Function.update_of_ne hself] at h
      refine .inr ⟨hself, ?_, h⟩
      intro heq
      subst heq
      exact hself (hrunning.alone h hbusy)
  constructor
  · exact hsound.inv hw ht hrunning.inv
  · intro w' t' p' h
    rcases hold h with ⟨rfl, rfl, rfl, hmore⟩ | ⟨hself, _, h'⟩
    · exact ⟨hw, ht, htaken, hmore, hsound.next hw ht hmore hrunning.inv hat⟩
    · obtain ⟨hw', ht', htaken', hp', hat'⟩ := hrunning.at_phase h'
      exact ⟨hw', ht', htaken', hp', hsound.other hself ht ht' hat'⟩
  · intro w₁ w₂ t' p₁ p₂ h₁ h₂
    rcases hold h₁ with ⟨rfl, rfl, _, _⟩ | ⟨_, hne, h₁'⟩
    · rcases hold h₂ with ⟨rfl, _, _, _⟩ | ⟨_, hne, _⟩
      · rfl
      · exact absurd rfl hne
    · rcases hold h₂ with ⟨_, heq, _, _⟩ | ⟨_, _, h₂'⟩
      · exact absurd heq hne
      · exact hrunning.alone h₁' h₂'
  · intro t' htaken' hfree
    by_cases hsame : t' = t
    · subst hsame
      -- the item leaves its worker after its last phase
      have hlast : ¬ p + 1 < phases := by
        intro hmore
        apply hfree w (p + 1)
        change Function.update c.busy w _ w = _
        rw [Function.update_self, if_pos hmore]
      exact hsound.finish hw ht (by omega) hrunning.inv hat
    · refine hsound.keep (Ne.symm hsame) ht (hrunning.finished t' htaken' fun w' p' h => ?_)
      have hself : w' ≠ w := by
        intro heq
        subst heq
        change c.busy w' = _ at h
        rw [hbusy] at h
        simp only [Option.some.injEq, Prod.mk.injEq] at h
        exact hsame h.1.symm
      apply hfree w' p'
      change Function.update c.busy w _ w' = _
      rw [Function.update_of_ne hself]
      exact h

theorem Running.step (hphases : 0 < phases) (hsound : Sound workers items phases act Inv At Done)
    {e : Event} {st st' : Control × σ} (hrunning : Running workers items phases Inv At Done st)
    (hstep : step workers items phases act e st = some st') :
    Running workers items phases Inv At Done st' := by
  cases e with
  | take w t =>
    change (if _ then _ else none) = _ at hstep
    split at hstep
    · rename_i hfree
      obtain rfl := Option.some.inj hstep
      exact hrunning.take hphases hsound hfree.1 hfree.2.1 hfree.2.2.1 hfree.2.2.2
    · simp at hstep
  | advance w =>
    unfold Workers.step at hstep
    dsimp only at hstep
    split at hstep
    · simp at hstep
    · rename_i t p hbusy
      obtain rfl := Option.some.inj hstep
      exact hrunning.advance hsound hbusy

theorem Running.run (hphases : 0 < phases) (hsound : Sound workers items phases act Inv At Done)
    {events : List Event} {st st' : Control × σ}
    (hrunning : Running workers items phases Inv At Done st)
    (hrun : run workers items phases act events st = some st') :
    Running workers items phases Inv At Done st' := by
  induction events generalizing st with
  | nil =>
    obtain rfl := Option.some.inj hrun
    exact hrunning
  | cons e events ih =>
    obtain ⟨mid, hstep, hrest⟩ := Option.bind_eq_some_iff.mp hrun
    exact ih (hrunning.step hphases hsound hstep) hrest

/-- A whole run does every item. -/
theorem Sound.loop (hphases : 0 < phases) (hsound : Sound workers items phases act Inv At Done)
    {events : List Event} {s s' : σ} (hinv : Inv s)
    (hloop : loop workers items phases act events s = some s') :
    Inv s' ∧ ∀ t < items, Done t s' := by
  have hstart : Running workers items phases Inv At Done (.idle, s) := by
    refine ⟨hinv, fun h => ?_, fun h => ?_, fun t h => absurd h List.not_mem_nil⟩
    · exact absurd h.symm (Option.some_ne_none _)
    · exact absurd h.symm (Option.some_ne_none _)
  unfold Workers.loop at hloop
  obtain ⟨st, hrun, hfinished⟩ := Option.bind_eq_some_iff.mp hloop
  split at hfinished
  · rename_i hdone
    obtain rfl := Option.some.inj hfinished
    have hend := hstart.run hphases hsound hrun
    refine ⟨hend.inv, fun t ht => hend.finished t (hdone.1 t ht) fun w p hbusy => ?_⟩
    have hidle := hdone.2 w (hend.at_phase hbusy).1
    rw [hidle] at hbusy
    simp at hbusy
  · simp at hfinished

end Soundness

/-! ### Item by item -/

/-- Workers that take their items in the given order, each doing all phases of its item. -/
def itemByItem (phases : Nat) (order : List (Nat × Nat)) : List Event :=
  order.flatMap fun wt => .take wt.1 wt.2 :: List.replicate phases (.advance wt.1)

section ItemByItem
variable {σ : Type*} {workers items phases : Nat} {act : Nat → Nat → Nat → σ → σ}

theorem run_cons (e : Event) (events : List Event) (st : Control × σ) :
    run workers items phases act (e :: events) st =
      (step workers items phases act e st).bind (run workers items phases act events) := rfl

theorem run_append (a b : List Event) (st : Control × σ) :
    run workers items phases act (a ++ b) st =
      (run workers items phases act a st).bind (run workers items phases act b) := by
  induction a generalizing st with
  | nil => rfl
  | cons e a ih =>
    rw [List.cons_append, run_cons, run_cons, Option.bind_assoc]
    congr 1
    funext mid
    exact ih mid

theorem run_advances {busy : Nat → Option (Nat × Nat)} {w t : Nat} (taken : List Nat)
    (hidle : busy w = none) {k : Nat} (hk : k + 1 ≤ phases) (s : σ) :
    ∃ s', run workers items phases act (List.replicate (k + 1) (.advance w))
      (⟨Function.update busy w (some (t, phases - (k + 1))), taken⟩, s) =
        some (⟨busy, taken⟩, s') := by
  induction k generalizing s with
  | zero =>
    refine ⟨act w t (phases - 1) s, ?_⟩
    rw [List.replicate_succ, run_cons]
    unfold step
    dsimp only
    rw [Function.update_self]
    dsimp only
    rw [if_neg (by omega), Function.update_idem, ← hidle, Function.update_eq_self]
    rfl
  | succ k ih =>
    obtain ⟨s', hrest⟩ := ih (by omega) (act w t (phases - (k + 2)) s)
    refine ⟨s', ?_⟩
    rw [List.replicate_succ, run_cons]
    unfold step
    dsimp only
    rw [Function.update_self]
    dsimp only
    have hphase : phases - (k + 1 + 1) + 1 = phases - (k + 1) := by omega
    rw [if_pos (by omega), Function.update_idem, hphase]
    exact hrest

/-- The control after a run item by item. -/
theorem run_itemByItem (hphases : 0 < phases) (order : List (Nat × Nat)) (taken : List Nat)
    (horder : ∀ wt ∈ order, wt.1 < workers ∧ wt.2 < items ∧ wt.2 ∉ taken)
    (hnodup : (order.map Prod.snd).Nodup) (s : σ) :
    ∃ s', run workers items phases act (itemByItem phases order) (⟨fun _ => none, taken⟩, s) =
      some (⟨fun _ => none, (order.map Prod.snd).reverse ++ taken⟩, s') := by
  induction order generalizing taken s with
  | nil => exact ⟨s, rfl⟩
  | cons wt order ih =>
    obtain ⟨w, t⟩ := wt
    obtain ⟨hw, ht, hnew⟩ := horder (w, t) List.mem_cons_self
    rw [List.map_cons, List.nodup_cons] at hnodup
    obtain ⟨k, rfl⟩ : ∃ k, phases = k + 1 := ⟨phases - 1, by omega⟩
    obtain ⟨mid, hmid⟩ := @run_advances σ workers items (k + 1) act (fun _ => none) w t (t :: taken)
      rfl k (Nat.le_refl _) s
    obtain ⟨s', hrest⟩ := ih (t :: taken) (fun wt hwt => by
      obtain ⟨hw', ht', hnew'⟩ := horder wt (List.mem_cons_of_mem _ hwt)
      refine ⟨hw', ht', fun hmem => ?_⟩
      rcases List.mem_cons.mp hmem with heq | hold
      · have hlater : wt.2 ∈ order.map Prod.snd := List.mem_map_of_mem hwt
        rw [heq] at hlater
        exact hnodup.1 hlater
      · exact hnew' hold) hnodup.2 mid
    refine ⟨s', ?_⟩
    unfold itemByItem
    rw [List.flatMap_cons, run_append]
    have hfirst : run workers items (k + 1) act
        (Event.take w t :: List.replicate (k + 1) (.advance w)) (⟨fun _ => none, taken⟩, s) =
        some (⟨fun _ => none, t :: taken⟩, mid) := by
      rw [run_cons]
      unfold step
      dsimp only
      rw [if_pos ⟨hw, ht, hnew, rfl⟩]
      rw [Nat.sub_self] at hmid
      exact hmid
    dsimp only
    rw [hfirst, List.map_cons, List.reverse_cons, List.append_assoc]
    exact hrest

/-- Any assignment of the items to workers, in any order, is a whole run. -/
theorem itemByItem_whole (hphases : 0 < phases) {order : List (Nat × Nat)}
    (hworkers : ∀ wt ∈ order, wt.1 < workers)
    (hitems : (order.map Prod.snd).Perm (List.range items)) :
    Whole workers items phases (itemByItem phases order) := by
  obtain ⟨u, hrun⟩ := @run_itemByItem Unit workers items phases (fun _ _ _ => id) hphases order []
    (fun wt hwt => ⟨hworkers wt hwt,
      List.mem_range.mp (hitems.mem_iff.mp (List.mem_map_of_mem hwt)), List.not_mem_nil⟩)
    (hitems.nodup_iff.mpr List.nodup_range) ()
  unfold Whole loop Control.idle
  rw [hrun]
  change (if _ then _ else none).isSome
  rw [if_pos]
  · rfl
  · refine ⟨fun t ht => ?_, fun _ _ => rfl⟩
    rw [List.append_nil, List.mem_reverse, hitems.mem_iff]
    exact List.mem_range.mpr ht

end ItemByItem

end Workers

end Kvl
