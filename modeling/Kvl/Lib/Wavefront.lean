import Mathlib.Logic.Function.Basic
import Mathlib.Data.List.Basic

/-!
# Loop interchange over a stack of stateful stages

Items pass through stages `0, 1, ..., n - 1`. A stage has a state of its own,
reads an item and may refuse it. Taking every item through all stages before
the next one and taking all items through a stage before the next one give the
same states, the same items and the same refusals.
-/

namespace Kvl

set_option autoImplicit false

namespace Wavefront

variable {σ α β γ : Type*}

/-- All items, one after another, against one state. -/
def throughItems (f : σ → α → Option (σ × β)) : σ → List α → Option (σ × List β)
  | s, [] => some (s, [])
  | s, a :: as => do
    let (s, b) ← f s a
    let (s, bs) ← throughItems f s as
    pure (s, b :: bs)

/-- One item through the stages below `n`. -/
def throughStages (step : Nat → σ → α → Option (σ × α)) :
    Nat → (Nat → σ) → α → Option ((Nat → σ) × α)
  | 0, states, a => some (states, a)
  | n + 1, states, a => do
    let (states, a) ← throughStages step n states a
    let (s, a) ← step n (states n) a
    pure (Function.update states n s, a)

def itemMajor (step : Nat → σ → α → Option (σ × α)) (n : Nat) :
    (Nat → σ) → List α → Option ((Nat → σ) × List α) :=
  throughItems (throughStages step n)

def stageMajor (step : Nat → σ → α → Option (σ × α)) :
    Nat → (Nat → σ) → List α → Option ((Nat → σ) × List α)
  | 0, states, as => some (states, as)
  | n + 1, states, as => do
    let (states, as) ← stageMajor step n states as
    let (s, as) ← throughItems (step n) (states n) as
    pure (Function.update states n s, as)

/-- The last round of a counted loop that may stop early. -/
theorem foldlM_range_succ (f : β → Nat → Option β) (n : Nat) (b : β) :
    (List.range (n + 1)).foldlM f b = ((List.range n).foldlM f b).bind fun c => f c n := by
  rw [List.range_succ, List.foldlM_append]
  change Option.bind _ _ = _
  congr
  funext c
  change (f c n).bind some = f c n
  cases f c n <;> rfl

section Items
variable {f : σ → α → Option (σ × β)} {s : σ}

@[simp] theorem throughItems_nil : throughItems f s [] = some (s, []) := rfl

theorem throughItems_cons {a : α} {as : List α} :
    throughItems f s (a :: as) =
      (f s a).bind fun p => (throughItems f p.1 as).map fun q => (q.1, p.2 :: q.2) := by
  conv_lhs => rw [throughItems]
  cases f s a with
  | none => rfl
  | some p =>
    change (throughItems f p.1 as).bind _ = (throughItems f p.1 as).map _
    cases throughItems f p.1 as <;> rfl

/-- The items before a cut come out the same, whatever follows them. -/
theorem throughItems_append {as bs : List α} :
    throughItems f s (as ++ bs) =
      (throughItems f s as).bind fun p =>
        (throughItems f p.1 bs).map fun q => (q.1, p.2 ++ q.2) := by
  induction as generalizing s with
  | nil =>
    rw [List.nil_append, throughItems_nil]
    change _ = (throughItems f s bs).map _
    cases throughItems f s bs <;> rfl
  | cons a as ih =>
    rw [List.cons_append, throughItems_cons, throughItems_cons]
    cases f s a with
    | none => rfl
    | some p =>
      change (throughItems f p.1 (as ++ bs)).map _ = ((throughItems f p.1 as).map _).bind _
      rw [ih]
      cases throughItems f p.1 as with
      | none => rfl
      | some q =>
        change ((throughItems f q.1 bs).map _).map _ = (throughItems f q.1 bs).map _
        cases throughItems f q.1 bs <;> rfl

theorem throughItems_length {as : List α} {bs : List β} {s' : σ}
    (h : throughItems f s as = some (s', bs)) :
    bs.length = as.length := by
  induction as generalizing s bs with
  | nil =>
    rw [throughItems_nil] at h
    cases h
    rfl
  | cons a as ih =>
    rw [throughItems_cons] at h
    obtain ⟨p, -, hp⟩ := Option.bind_eq_some_iff.mp h
    obtain ⟨q, hq, heq⟩ := Option.map_eq_some_iff.mp hp
    cases heq
    rw [List.length_cons, List.length_cons, ih hq]

/-- A property of the state that every accepted item keeps. -/
theorem throughItems_inv {P : σ → Prop} {as : List α} {bs : List β} {s' : σ}
    (hstep : ∀ {s a p}, P s → f s a = some p → P p.1) (hs : P s)
    (h : throughItems f s as = some (s', bs)) : P s' := by
  induction as generalizing s bs with
  | nil =>
    rw [throughItems_nil] at h
    cases h
    exact hs
  | cons a as ih =>
    rw [throughItems_cons] at h
    obtain ⟨p, hp, hrest⟩ := Option.bind_eq_some_iff.mp h
    obtain ⟨q, hq, heq⟩ := Option.map_eq_some_iff.mp hrest
    cases heq
    exact ih (hstep hs hp) hq

/-- A state that is ready for the items before it takes them all. -/
theorem throughItems_ready {P : σ → List α → Prop} {as : List α}
    (hstep : ∀ {s a as}, P s (a :: as) → ∃ p, f s a = some p ∧ P p.1 as) (hs : P s as) :
    ∃ p, throughItems f s as = some p ∧ P p.1 [] := by
  induction as generalizing s with
  | nil => exact ⟨_, throughItems_nil, hs⟩
  | cons a as ih =>
    obtain ⟨p, hp, hrest⟩ := hstep hs
    obtain ⟨q, hq, hend⟩ := ih hrest
    refine ⟨(q.1, p.2 :: q.2), ?_, hend⟩
    rw [throughItems_cons, hp, Option.bind_some, hq]
    rfl

/-- What is done to each item alone may wait until all have passed. -/
theorem throughItems_map (g : β → γ) (as : List α) :
    throughItems (fun s a => (f s a).map fun p => (p.1, g p.2)) s as =
      (throughItems f s as).map fun p => (p.1, p.2.map g) := by
  induction as generalizing s with
  | nil => rfl
  | cons a as ih =>
    rw [throughItems_cons, throughItems_cons]
    cases f s a with
    | none => rfl
    | some p =>
      change (throughItems _ p.1 as).map _ = ((throughItems f p.1 as).map _).map _
      rw [ih]
      cases throughItems f p.1 as <;> rfl

end Items

section Interchange
variable {step : Nat → σ → α → Option (σ × α)} {states : Nat → σ}

theorem throughStages_succ {n : Nat} {a : α} :
    throughStages step (n + 1) states a =
      (throughStages step n states a).bind fun p =>
        (step n (p.1 n) p.2).map fun q => (Function.update p.1 n q.1, q.2) := by
  conv_lhs => unfold throughStages
  cases throughStages step n states a with
  | none => rfl
  | some p =>
    change (step n (p.1 n) p.2).bind _ = (step n (p.1 n) p.2).map _
    cases step n (p.1 n) p.2 <;> rfl

theorem stageMajor_succ {n : Nat} {as : List α} :
    stageMajor step (n + 1) states as =
      (stageMajor step n states as).bind fun p =>
        (throughItems (step n) (p.1 n) p.2).map fun q => (Function.update p.1 n q.1, q.2) := by
  conv_lhs => unfold stageMajor
  cases stageMajor step n states as with
  | none => rfl
  | some p =>
    change (throughItems (step n) (p.1 n) p.2).bind _ = (throughItems (step n) (p.1 n) p.2).map _
    cases throughItems (step n) (p.1 n) p.2 <;> rfl

/-- The stages below `n` neither read nor write the state of stage `m`. -/
theorem throughStages_update {n m : Nat} (hm : n ≤ m) (s : σ) (a : α) :
    throughStages step n (Function.update states m s) a =
      (throughStages step n states a).map fun p => (Function.update p.1 m s, p.2) := by
  induction n with
  | zero => rfl
  | succ n ih =>
    rw [throughStages_succ, throughStages_succ, ih (Nat.le_of_succ_le hm)]
    have hne : n ≠ m := by omega
    cases throughStages step n states a with
    | none => rfl
    | some p =>
      change (step n (Function.update p.1 m s n) p.2).map _ = ((step n (p.1 n) p.2).map _).map _
      rw [Function.update_of_ne hne]
      cases step n (p.1 n) p.2 with
      | none => rfl
      | some q =>
        change some (Function.update (Function.update p.1 m s) n q.1, q.2) =
          some (Function.update (Function.update p.1 n q.1) m s, q.2)
        rw [Function.update_comm hne.symm]

theorem throughStages_above {n m : Nat} (hm : n ≤ m) {a b : α} {states' : Nat → σ}
    (h : throughStages step n states a = some (states', b)) : states' m = states m := by
  have hself := @throughStages_update _ _ step states _ _ hm (states m) a
  rw [Function.update_eq_self, h] at hself
  have hstates : states' = Function.update states' m (states m) :=
    congrArg Prod.fst (Option.some.inj hself)
  rw [hstates, Function.update_self]

/-- Stages that take the item, each from a state that satisfies `P`. -/
theorem throughStages_spec {I : α → Prop} {P : σ → Prop} {Q : σ → σ → Prop} {n : Nat} {a : α}
    (hstep : ∀ m s b, I b → P s → ∃ p, step m s b = some p ∧ Q s p.1 ∧ I p.2)
    (ha : I a) (hstates : ∀ l < n, P (states l)) :
    ∃ p, throughStages step n states a = some p ∧ I p.2 ∧ ∀ l < n, Q (states l) (p.1 l) := by
  induction n with
  | zero => exact ⟨_, rfl, ha, fun l hl => absurd hl (Nat.not_lt_zero l)⟩
  | succ n ih =>
    obtain ⟨p, hp, hitem, hbelow⟩ := ih fun l hl => hstates l (Nat.lt_succ_of_lt hl)
    have hstate : p.1 n = states n := throughStages_above (Nat.le_refl n) hp
    obtain ⟨q, hq, hchange, hnext⟩ := hstep n (p.1 n) p.2 hitem (by
      rw [hstate]
      exact hstates n (Nat.lt_succ_self n))
    refine ⟨(Function.update p.1 n q.1, q.2), ?_, hnext, ?_⟩
    · rw [throughStages_succ, hp, Option.bind_some, hq]
      rfl
    · intro l hl
      dsimp only
      rcases Nat.lt_succ_iff_lt_or_eq.mp hl with hlt | heq
      · rw [Function.update_of_ne (Nat.ne_of_lt hlt)]
        exact hbelow l hlt
      · subst heq
        rw [Function.update_self, ← hstate]
        exact hchange

/-- Stages that cannot tell two states apart leave states that are alike. -/
theorem throughStages_rel {R : σ → σ → Prop} {others : Nat → σ} {n m : Nat} {a : α}
    {p : (Nat → σ) × α} (hm : n ≤ m)
    (hstep : ∀ k s t b q, R s t → step k s b = some q → ∃ u, step k t b = some (u, q.2) ∧ R q.1 u)
    (hstates : ∀ l < m, R (states l) (others l)) (hp : throughStages step n states a = some p) :
    ∃ others', throughStages step n others a = some (others', p.2) ∧
      ∀ l < m, R (p.1 l) (others' l) := by
  induction n generalizing p with
  | zero =>
    cases hp
    exact ⟨others, rfl, hstates⟩
  | succ n ih =>
    rw [throughStages_succ] at hp
    obtain ⟨q, hq, hlast⟩ := Option.bind_eq_some_iff.mp hp
    obtain ⟨r, hr, heq⟩ := Option.map_eq_some_iff.mp hlast
    cases heq
    obtain ⟨others', hothers, hbelow⟩ := ih (Nat.le_of_succ_le hm) hq
    obtain ⟨u, hu, hru⟩ := hstep n _ _ _ _ (hbelow n hm) hr
    refine ⟨Function.update others' n u, ?_, ?_⟩
    · rw [throughStages_succ, hothers, Option.bind_some, hu]
      rfl
    · intro l hl
      dsimp only
      by_cases hln : l = n
      · subst hln
        rw [Function.update_self, Function.update_self]
        exact hru
      · rw [Function.update_of_ne hln, Function.update_of_ne hln]
        exact hbelow l hl

theorem itemMajor_update {n m : Nat} (hm : n ≤ m) (s : σ) (as : List α) :
    itemMajor step n (Function.update states m s) as =
      (itemMajor step n states as).map fun p => (Function.update p.1 m s, p.2) := by
  unfold itemMajor
  induction as generalizing states with
  | nil => rfl
  | cons a as ih =>
    rw [throughItems_cons, throughItems_cons, throughStages_update hm]
    cases throughStages step n states a with
    | none => rfl
    | some p =>
      change (throughItems _ (Function.update p.1 m s) as).map _ =
        ((throughItems _ p.1 as).map _).map _
      rw [ih]
      cases throughItems (throughStages step n) p.1 as <;> rfl

theorem itemMajor_above {n m : Nat} (hm : n ≤ m) {as bs : List α} {states' : Nat → σ}
    (h : itemMajor step n states as = some (states', bs)) : states' m = states m :=
  throughItems_inv (P := fun st => st m = states m)
    (fun hs hp => (throughStages_above hm hp).trans hs) rfl h

/-- The last stage may wait until all items have left the ones before it: they
do not look at its state, and it sees the items in the same order. -/
theorem itemMajor_succ {n : Nat} {as : List α} :
    itemMajor step (n + 1) states as =
      (itemMajor step n states as).bind fun p =>
        (throughItems (step n) (p.1 n) p.2).map fun q => (Function.update p.1 n q.1, q.2) := by
  induction as generalizing states with
  | nil =>
    change some (states, []) = some (Function.update states n (states n), [])
    rw [Function.update_eq_self]
  | cons a as ih =>
    have hlater : ∀ st, throughItems (throughStages step (n + 1)) st as =
        itemMajor step (n + 1) st as := fun _ => rfl
    unfold itemMajor
    rw [throughItems_cons, throughItems_cons, throughStages_succ]
    cases throughStages step n states a with
    | none => rfl
    | some p =>
      change ((step n (p.1 n) p.2).map _).bind _ = ((itemMajor step n p.1 as).map _).bind _
      cases hitems : itemMajor step n p.1 as with
      | none =>
        cases step n (p.1 n) p.2 with
        | none => rfl
        | some q =>
          change (throughItems _ (Function.update p.1 n q.1) as).map _ = none
          rw [hlater, ih, itemMajor_update (Nat.le_refl n), hitems]
          rfl
      | some r =>
        change _ = (throughItems (step n) (r.1 n) (p.2 :: r.2)).map _
        rw [itemMajor_above (Nat.le_refl n) hitems, throughItems_cons]
        cases step n (p.1 n) p.2 with
        | none => rfl
        | some q =>
          change (throughItems _ (Function.update p.1 n q.1) as).map _ =
            ((throughItems (step n) q.1 r.2).map _).map _
          rw [hlater, ih, itemMajor_update (Nat.le_refl n), hitems]
          change ((throughItems (step n) (Function.update r.1 n q.1 n) r.2).map _).map _ = _
          rw [Function.update_self]
          cases throughItems (step n) q.1 r.2 with
          | none => rfl
          | some t =>
            change some (Function.update (Function.update r.1 n q.1) n t.1, q.2 :: t.2) =
              some (Function.update r.1 n t.1, q.2 :: t.2)
            rw [Function.update_idem]

theorem stageMajor_eq_itemMajor (n : Nat) (as : List α) :
    stageMajor step n states as = itemMajor step n states as := by
  induction n with
  | zero =>
    induction as generalizing states with
    | nil => rfl
    | cons a as ih =>
      have hrest : throughItems (throughStages step 0) states as = some (states, as) := ih.symm
      unfold itemMajor
      rw [throughItems_cons]
      change some (states, a :: as) = (throughItems (throughStages step 0) states as).map _
      rw [hrest]
      rfl
  | succ n ih => rw [stageMajor_succ, itemMajor_succ, ih]

end Interchange

end Wavefront

end Kvl
