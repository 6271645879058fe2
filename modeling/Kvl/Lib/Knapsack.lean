import Kvl.Lib.Dict
import Mathlib.Algebra.Order.BigOperators.Group.List
import Mathlib.Algebra.Order.Monoid.Defs

/-!
# Choosing one item of every stage

A selection takes one item of every stage. A table knows, for every weight that
some selection has within the bound, a cheapest selection of that weight; it is
extended by a stage by relaxing every entry of the table with every item.
-/

namespace Kvl

set_option autoImplicit false

/-! ### Relaxation -/

namespace Dict

variable {κ E π : Type*} [DecidableEq κ] [LinearOrder E]

/-- The candidate takes its key where the key is free or held at a higher cost. -/
def relax (d : List (κ × E × π)) (cand : κ × E × π) : List (κ × E × π) :=
  match get cand.1 d with
  | none => set cand.1 cand.2 d
  | some cur => if cand.2.1 < cur.1 then set cand.1 cand.2 d else d

def relaxAll (cands : List (κ × E × π)) (d : List (κ × E × π)) : List (κ × E × π) :=
  cands.foldl relax d

variable {d : List (κ × E × π)} {cand : κ × E × π} {k : κ}

theorem get_relax_of_ne (hne : k ≠ cand.1) : get k (relax d cand) = get k d := by
  unfold relax
  split
  · exact get_set_of_ne hne
  · split_ifs
    · exact get_set_of_ne hne
    · rfl

/-- What a relaxed key holds is the candidate or what it held, and no dearer than both. -/
theorem get_relax_self (d : List (κ × E × π)) (cand : κ × E × π) :
    ∃ v, get cand.1 (relax d cand) = some v ∧ v.1 ≤ cand.2.1 ∧
      (∀ old, get cand.1 d = some old → v.1 ≤ old.1) ∧
      (v = cand.2 ∨ get cand.1 d = some v) := by
  unfold relax
  cases hcur : get cand.1 d with
  | none =>
    exact ⟨cand.2, get_set_self, le_refl _, fun old hold => absurd hold (by simp), Or.inl rfl⟩
  | some cur =>
    dsimp only
    by_cases hlt : cand.2.1 < cur.1
    · rw [if_pos hlt]
      refine ⟨cand.2, get_set_self, le_refl _, ?_, Or.inl rfl⟩
      intro old hold
      obtain rfl := Option.some.inj hold
      exact hlt.le
    · rw [if_neg hlt]
      refine ⟨cur, hcur, not_lt.mp hlt, ?_, Or.inr rfl⟩
      intro old hold
      obtain rfl := Option.some.inj hold
      exact le_refl _

theorem mem_set {ν : Type*} {d : List (κ × ν)} {v : ν} {item : κ × ν}
    (h : item ∈ set k v d) : item = (k, v) ∨ item ∈ d := by
  unfold set at h
  induction d with
  | nil => exact Or.inl (List.mem_singleton.mp h)
  | cons first d ih =>
    obtain ⟨k', v'⟩ := first
    unfold modify at h
    by_cases hk : k' = k
    · rw [if_pos hk] at h
      rcases List.mem_cons.mp h with hnew | hold
      · exact Or.inl (hnew.trans (by rw [hk]))
      · exact Or.inr (List.mem_cons_of_mem _ hold)
    · rw [if_neg hk] at h
      rcases List.mem_cons.mp h with hfirst | hrest
      · exact Or.inr (List.mem_cons.mpr (Or.inl hfirst))
      · exact (ih hrest).imp_right (List.mem_cons_of_mem _)

theorem mem_relax {item : κ × E × π} (h : item ∈ relax d cand) : item = cand ∨ item ∈ d := by
  unfold relax at h
  split at h
  · exact mem_set h
  · split_ifs at h
    · exact mem_set h
    · exact Or.inr h

/-- Nothing appears in the table that is neither old nor a candidate. -/
theorem mem_relaxAll {cands : List (κ × E × π)} {item : κ × E × π}
    (h : item ∈ relaxAll cands d) : item ∈ cands ∨ item ∈ d := by
  induction cands generalizing d with
  | nil => exact Or.inr h
  | cons cand cands ih =>
    rw [relaxAll, List.foldl_cons] at h
    rcases ih h with hmem | hrelax
    · exact Or.inl (List.mem_cons_of_mem _ hmem)
    · exact (mem_relax hrelax).imp_left fun heq => List.mem_cons.mpr (Or.inl heq)

/-- What the table holds never becomes dearer. -/
theorem get_relaxAll_mono {cands : List (κ × E × π)} {v : E × π} (h : get k d = some v) :
    ∃ w, get k (relaxAll cands d) = some w ∧ w.1 ≤ v.1 := by
  induction cands generalizing d v with
  | nil => exact ⟨v, h, le_refl _⟩
  | cons cand cands ih =>
    rw [relaxAll, List.foldl_cons]
    by_cases hk : k = cand.1
    · subst hk
      obtain ⟨w, hw, -, hle, -⟩ := get_relax_self d cand
      obtain ⟨u, hu, huw⟩ := ih hw
      exact ⟨u, hu, huw.trans (hle v h)⟩
    · exact ih ((get_relax_of_ne hk).trans h)

theorem get_relaxAll_best {cands : List (κ × E × π)} {v : E × π} (h : (k, v) ∈ cands) :
    ∃ w, get k (relaxAll cands d) = some w ∧ w.1 ≤ v.1 := by
  induction cands generalizing d with
  | nil => exact absurd h List.not_mem_nil
  | cons cand cands ih =>
    rw [relaxAll, List.foldl_cons]
    rcases List.mem_cons.mp h with rfl | hmem
    · obtain ⟨w, hw, hle, -, -⟩ := get_relax_self d (k, v)
      obtain ⟨u, hu, huw⟩ := get_relaxAll_mono hw
      exact ⟨u, hu, huw.trans hle⟩
    · exact ih hmem

end Dict

/-! ### Stages -/

namespace Knapsack

variable {α τ W E : Type*}

/-- One item of every stage, in order. -/
def Selects (stages : List (List α)) (xs : List α) : Prop :=
  List.Forall₂ (fun stage x => x ∈ stage) stages xs

theorem selects_nil_iff {xs : List α} : Selects [] xs ↔ xs = [] := by
  unfold Selects
  exact List.forall₂_nil_left_iff

theorem Selects.snoc {stages : List (List α)} {stage xs : List α} {x : α}
    (h : Selects stages xs) (hx : x ∈ stage) : Selects (stages ++ [stage]) (xs ++ [x]) := by
  unfold Selects at h ⊢
  exact List.rel_append h (List.Forall₂.cons hx List.Forall₂.nil)

/-- A selection of more stages starts with one of the first of them. -/
theorem Selects.split {first rest : List (List α)} {xs : List α}
    (h : Selects (first ++ rest) xs) :
    ∃ ys zs, xs = ys ++ zs ∧ Selects first ys ∧ Selects rest zs := by
  unfold Selects at h ⊢
  induction first generalizing xs with
  | nil => exact ⟨[], xs, rfl, List.Forall₂.nil, h⟩
  | cons stage first ih =>
    cases h with
    | cons hx hrest =>
      obtain ⟨ys, zs, rfl, hys, hzs⟩ := ih hrest
      exact ⟨_ :: ys, zs, rfl, List.Forall₂.cons hx hys, hzs⟩

theorem Selects.split_last {stages : List (List α)} {stage xs : List α}
    (h : Selects (stages ++ [stage]) xs) :
    ∃ ys x, xs = ys ++ [x] ∧ Selects stages ys ∧ x ∈ stage := by
  obtain ⟨ys, zs, rfl, hys, hzs⟩ := h.split
  cases hzs with
  | cons hx hnil =>
    cases hnil with
    | nil => exact ⟨ys, _, rfl, hys, hx⟩

theorem Selects.mem_stage {stages : List (List α)} {xs : List α} {x : α}
    (h : Selects stages xs) (hx : x ∈ xs) : ∃ stage ∈ stages, x ∈ stage := by
  unfold Selects at h
  induction h with
  | nil => exact absurd hx List.not_mem_nil
  | @cons stage y stages ys hy _ ih =>
    rcases List.mem_cons.mp hx with rfl | hrest
    · exact ⟨stage, List.mem_cons_self, hy⟩
    · obtain ⟨s, hs, hmem⟩ := ih hrest
      exact ⟨s, List.mem_cons_of_mem _ hs, hmem⟩

section Extensions
variable [AddCommMonoid W] [LinearOrder W] [AddCommMonoid E]
variable (bound : W) (weight : α → W) (cost : α → E) (tag : α → τ)

/-- The entry of the table and one more item, where that still fits. -/
def extensions (item : W × E × List τ) (stage : List α) : List (W × E × List τ) :=
  stage.filterMap fun x =>
    if bound < item.1 + weight x then none
    else some (item.1 + weight x, item.2.1 + cost x, item.2.2 ++ [tag x])

variable {bound weight cost tag}

theorem mem_extensions {item new : W × E × List τ} {stage : List α} :
    new ∈ extensions bound weight cost tag item stage ↔
      ∃ x ∈ stage, item.1 + weight x ≤ bound ∧
        new = (item.1 + weight x, item.2.1 + cost x, item.2.2 ++ [tag x]) := by
  unfold extensions
  rw [List.mem_filterMap]
  constructor
  · rintro ⟨x, hx, hsome⟩
    split_ifs at hsome with hover
    exact ⟨x, hx, not_lt.mp hover, (Option.some.inj hsome).symm⟩
  · rintro ⟨x, hx, hfits, rfl⟩
    exact ⟨x, hx, if_neg (not_lt.mpr hfits)⟩

end Extensions

section Tables
variable [AddCommMonoid W] [LinearOrder W] [AddCommMonoid E] [LinearOrder E]
variable (bound : W) (weight : α → W) (cost : α → E) (tag : α → τ)

def extend (d : List (W × E × List τ)) (stage : List α) : List (W × E × List τ) :=
  Dict.relaxAll (d.flatMap fun item => extensions bound weight cost tag item stage) []

/-- The table holds only selections within the bound, and for every such selection one of
its weight that costs no more. -/
structure Tabulates (stages : List (List α)) (d : List (W × E × List τ)) : Prop where
  sound : ∀ item ∈ d, ∃ xs, Selects stages xs ∧ (xs.map weight).sum = item.1 ∧ item.1 ≤ bound ∧
    (xs.map cost).sum = item.2.1 ∧ xs.map tag = item.2.2
  best : ∀ xs, Selects stages xs → (xs.map weight).sum ≤ bound →
    ∃ v, ((xs.map weight).sum, v) ∈ d ∧ v.1 ≤ (xs.map cost).sum

variable {bound weight cost tag}

theorem tabulates_start (hbound : 0 ≤ bound) :
    Tabulates bound weight cost tag [] [(0, 0, [])] := by
  constructor
  · intro item hitem
    obtain rfl := List.mem_singleton.mp hitem
    exact ⟨[], selects_nil_iff.mpr rfl, rfl, hbound, rfl, rfl⟩
  · intro xs hxs _
    obtain rfl := selects_nil_iff.mp hxs
    exact ⟨(0, []), List.mem_singleton.mpr rfl, le_refl _⟩

variable [IsOrderedAddMonoid W]

/-- Where nothing fits so far, nothing fits with more stages. -/
theorem Tabulates.empty {stages rest : List (List α)}
    (h : Tabulates bound weight cost tag stages ([] : List (W × E × List τ)))
    (hweight : ∀ stage ∈ rest, ∀ x ∈ stage, 0 ≤ weight x) (xs : List α)
    (hxs : Selects (stages ++ rest) xs) : ¬ (xs.map weight).sum ≤ bound := by
  intro hfits
  obtain ⟨ys, zs, rfl, hys, hzs⟩ := hxs.split
  have hrest : 0 ≤ (zs.map weight).sum := by
    refine List.sum_nonneg fun w hw => ?_
    obtain ⟨z, hz, rfl⟩ := List.mem_map.mp hw
    obtain ⟨stage, hstage, hmem⟩ := hzs.mem_stage hz
    exact hweight stage hstage z hmem
  rw [List.map_append, List.sum_append] at hfits
  obtain ⟨v, hv, -⟩ := h.best ys hys ((le_add_of_nonneg_right hrest).trans hfits)
  exact List.not_mem_nil hv

variable [IsOrderedAddMonoid E]

theorem Tabulates.extend {stages : List (List α)} {stage : List α} {d : List (W × E × List τ)}
    (h : Tabulates bound weight cost tag stages d) (hweight : ∀ x ∈ stage, 0 ≤ weight x) :
    Tabulates bound weight cost tag (stages ++ [stage]) (extend bound weight cost tag d stage) := by
  constructor
  · intro new hnew
    have hcand := (Dict.mem_relaxAll hnew).resolve_right List.not_mem_nil
    obtain ⟨item, hitem, hext⟩ := List.mem_flatMap.mp hcand
    obtain ⟨x, hx, hfits, rfl⟩ := mem_extensions.mp hext
    obtain ⟨xs, hxs, hw, -, hc, ht⟩ := h.sound item hitem
    refine ⟨xs ++ [x], hxs.snoc hx, ?_, hfits, ?_, ?_⟩
    · rw [List.map_append, List.sum_append, hw, List.map_singleton, List.sum_singleton]
    · rw [List.map_append, List.sum_append, hc, List.map_singleton, List.sum_singleton]
    · rw [List.map_append, ht, List.map_singleton]
  · intro xs hxs hfits
    obtain ⟨ys, x, rfl, hys, hx⟩ := hxs.split_last
    rw [List.map_append, List.sum_append, List.map_singleton, List.sum_singleton] at hfits ⊢
    have hless : (ys.map weight).sum ≤ bound :=
      (le_add_of_nonneg_right (hweight x hx)).trans hfits
    obtain ⟨v, hv, hle⟩ := h.best ys hys hless
    have hcand : ((ys.map weight).sum + weight x, v.1 + cost x, v.2 ++ [tag x]) ∈
        d.flatMap fun item => extensions bound weight cost tag item stage :=
      List.mem_flatMap.mpr ⟨_, hv, mem_extensions.mpr ⟨x, hx, hfits, rfl⟩⟩
    obtain ⟨w, hw, hwle⟩ := Dict.get_relaxAll_best (d := []) hcand
    refine ⟨w, Dict.mem_of_get hw, hwle.trans ?_⟩
    rw [List.map_append, List.sum_append, List.map_singleton, List.sum_singleton]
    exact add_le_add_left hle _

end Tables

end Knapsack

end Kvl
