import Mathlib
import Kvl.Lib.ArgBest

/-!
# Prototypes of a router

`choose_prototypes` picks the experts that stand for all others: the row of the largest norm
first, then the row that is least similar to those picked. Every other expert is mapped to the
prototype of the greatest cosine similarity.
-/

namespace Kvl.RouterMap

set_option autoImplicit false

open ArgBest

section
variable {K : Type*} [Field K] [LinearOrder K] (sqrt : K → K)

def dot (a b : List K) : K := (List.zipWith (· * ·) a b).sum

/-- `np.linalg.norm` of a row. -/
def norm (row : List K) : K := sqrt (dot row row)

def safeNorm (row : List K) : K := if 0 < norm sqrt row then norm sqrt row else 1

def unitRow (row : List K) : List K := row.map fun x => x / safeNorm sqrt row

/-- The cosine similarity of rows `i` and `j`. -/
def similarity (rows : List (List K)) (i j : Nat) : K :=
  dot (unitRow sqrt (rows.getD i [])) (unitRow sqrt (rows.getD j []))

/-- `score`: `np.inf` for what is chosen. -/
def scoreOf (chosen : List Nat) (bestSim : Nat → K) (i : Nat) : WithTop K :=
  if i ∈ chosen then ⊤ else (bestSim i : WithTop K)

/-- The loop, at most `fuel` turns and `none` where these are not enough. -/
def chooseLoop (sim : Nat → Nat → K) (n keep : Nat) : Nat → List Nat → (Nat → K) → Option (List Nat)
  | 0, _, _ => none
  | fuel + 1, chosen, bestSim =>
    if chosen.length < keep then
      let nxt := argMin (scoreOf chosen bestSim) n
      chooseLoop sim n keep fuel (chosen ++ [nxt]) fun i => max (bestSim i) (sim i nxt)
    else some chosen

structure Prototypes (K : Type*) where
  chosen : List Nat
  mapping : Nat → Nat
  assignedSim : Nat → K

/-- The map and the similarities, from the prototypes in the order of their choice. -/
def assign (sim : Nat → Nat → K) (chosen : List Nat) : Prototypes K :=
  let sims := fun i j => sim i (chosen.getD j 0)
  let nearestIdx := fun i => argMax (sims i) chosen.length
  { chosen := chosen.mergeSort
    mapping := chosen.foldl (fun mapping p => Function.update mapping p p)
      fun i => chosen.getD (nearestIdx i) 0
    assignedSim := fun i => sims i (nearestIdx i) }

/-- `none` where `keep` is refused. -/
def choosePrototypes (fuel : Nat) (rows : List (List K)) (keep : Int) : Option (Prototypes K) :=
  let n := rows.length
  if keep < 1 ∨ (n : Int) < keep then none
  else
    let sim := similarity sqrt rows
    let first := argMax (fun i => norm sqrt (rows.getD i [])) n
    (chooseLoop sim n keep.toNat fuel [first] fun i => sim i first).map (assign sim)

end

/-! ### The loop -/

section
variable {K : Type*} [LinearOrder K] {n : Nat}

/-- Distinct rows. -/
structure Picked (n : Nat) (chosen : List Nat) : Prop where
  nodup : chosen.Nodup
  lt : ∀ p ∈ chosen, p < n

/-- While rows are left, the next choice is one of them. -/
theorem argMin_score {chosen : List Nat} (hleft : chosen.length < n)
    (bestSim : Nat → K) :
    argMin (scoreOf chosen bestSim) n < n ∧ argMin (scoreOf chosen bestSim) n ∉ chosen := by
  obtain ⟨hlt, hle, -⟩ := argMin_spec (scoreOf chosen bestSim) (Nat.zero_lt_of_lt hleft)
  refine ⟨hlt, fun hmem => ?_⟩
  have hfree : ∃ i < n, i ∉ chosen := by
    by_contra hnone
    push Not at hnone
    have hsub : Finset.range n ⊆ chosen.toFinset := fun i hi =>
      List.mem_toFinset.mpr (hnone i (Finset.mem_range.mp hi))
    have hcard := (Finset.card_le_card hsub).trans (List.toFinset_card_le chosen)
    rw [Finset.card_range] at hcard
    omega
  obtain ⟨i, hi, hnot⟩ := hfree
  have hbest := hle i hi
  have htop : scoreOf chosen bestSim (argMin (scoreOf chosen bestSim) n) = ⊤ := if_pos hmem
  have hfinite : scoreOf chosen bestSim i = bestSim i := if_neg hnot
  rw [htop, hfinite] at hbest
  exact WithTop.coe_ne_top (top_le_iff.mp hbest)

theorem Picked.concat {chosen : List Nat} (h : Picked n chosen) {p : Nat} (hp : p < n)
    (hnew : p ∉ chosen) : Picked n (chosen ++ [p]) := by
  refine ⟨?_, ?_⟩
  · rw [List.nodup_append_comm]
    exact List.nodup_cons.mpr ⟨hnew, h.nodup⟩
  · intro q hq
    rcases List.mem_append.mp hq with hold | hlast
    · exact h.lt q hold
    · rw [List.mem_singleton.mp hlast]
      exact hp

theorem chooseLoop_spec (sim : Nat → Nat → K) (keep : Nat) (hkeep : keep ≤ n) (fuel : Nat)
    {chosen : List Nat} (bestSim : Nat → K) (h : Picked n chosen) (hlen : chosen.length ≤ keep)
    (hfuel : keep - chosen.length < fuel) :
    ∃ all, chooseLoop sim n keep fuel chosen bestSim = some all ∧ Picked n all ∧
      all.length = keep := by
  induction fuel generalizing chosen bestSim with
  | zero => exact absurd hfuel (Nat.not_lt_zero _)
  | succ fuel ih =>
    rw [chooseLoop]
    by_cases hmore : chosen.length < keep
    · rw [if_pos hmore]
      obtain ⟨hlt, hnew⟩ := argMin_score (Nat.lt_of_lt_of_le hmore hkeep) bestSim
      have hlen' : (chosen ++ [argMin (scoreOf chosen bestSim) n]).length = chosen.length + 1 := by
        rw [List.length_append, List.length_singleton]
      exact ih _ (h.concat hlt hnew) (by omega) (by omega)
    · rw [if_neg hmore]
      exact ⟨chosen, rfl, h, by omega⟩

/-! ### The map -/

/-- `for p in chosen: mapping[p] = p`. -/
theorem foldl_update_self (chosen : List Nat) (mapping : Nat → Nat) (i : Nat) :
    chosen.foldl (fun mapping p => Function.update mapping p p) mapping i =
      if i ∈ chosen then i else mapping i := by
  induction chosen generalizing mapping with
  | nil => rfl
  | cons p rest ih =>
    rw [List.foldl_cons, ih]
    by_cases hrest : i ∈ rest
    · rw [if_pos hrest, if_pos (List.mem_cons_of_mem p hrest)]
    · rw [if_neg hrest]
      by_cases hi : i = p
      · rw [hi, Function.update_self, if_pos List.mem_cons_self]
      · rw [Function.update_of_ne hi, if_neg (by rw [List.mem_cons, not_or]; exact ⟨hi, hrest⟩)]

/-- A map onto prototypes: they stay, and every other expert goes to one of the most similar. -/
structure Retraction (sim : Nat → Nat → K) (n keep : Nat) (m : Prototypes K) : Prop where
  nodup : m.chosen.Nodup
  length : m.chosen.length = keep
  sorted : m.chosen.Pairwise (· ≤ ·)
  lt : ∀ p ∈ m.chosen, p < n
  fixed : ∀ p ∈ m.chosen, m.mapping p = p
  onto : ∀ i, m.mapping i ∈ m.chosen
  nearest : ∀ i, i ∉ m.chosen → ∀ p ∈ m.chosen, sim i p ≤ sim i (m.mapping i)
  idempotent : ∀ i, m.mapping (m.mapping i) = m.mapping i

theorem assign_spec (sim : Nat → Nat → K) {keep : Nat} (hpos : 0 < keep) {chosen : List Nat}
    (h : Picked n chosen) (hlen : chosen.length = keep) :
    Retraction sim n keep (assign sim chosen) := by
  have hmem : ∀ p, p ∈ (assign sim chosen).chosen ↔ p ∈ chosen := fun p => List.mem_mergeSort
  have hmap : ∀ i, (assign sim chosen).mapping i = if i ∈ chosen then i else
      chosen.getD (argMax (fun j => sim i (chosen.getD j 0)) chosen.length) 0 :=
    fun i => foldl_update_self chosen _ i
  have hbest : ∀ i, chosen.getD (argMax (fun j => sim i (chosen.getD j 0)) chosen.length) 0 ∈
      chosen ∧ ∀ p ∈ chosen, sim i p ≤
        sim i (chosen.getD (argMax (fun j => sim i (chosen.getD j 0)) chosen.length) 0) := by
    intro i
    obtain ⟨hlt, hle, -⟩ := argMax_spec (fun j => sim i (chosen.getD j 0)) (n := chosen.length)
      (by omega)
    refine ⟨?_, fun p hp => ?_⟩
    · rw [List.getD_eq_getElem _ _ hlt]
      exact List.getElem_mem hlt
    · obtain ⟨j, hj, rfl⟩ := List.getElem_of_mem hp
      have hj' := hle j hj
      rwa [List.getD_eq_getElem _ _ hj] at hj'
  have honto : ∀ i, (assign sim chosen).mapping i ∈ chosen := by
    intro i
    rw [hmap]
    split
    · rename_i hi
      exact hi
    · exact (hbest i).1
  refine ⟨?_, ?_, ?_, ?_, ?_, fun i => (hmem _).mpr (honto i), ?_, ?_⟩
  · exact (List.mergeSort_perm chosen _).nodup_iff.mpr h.nodup
  · exact (List.length_mergeSort chosen).trans hlen
  · have hsorted := @List.pairwise_mergeSort _ (fun a b : Nat => decide (a ≤ b))
      (fun a b c hab hbc => by simp only [decide_eq_true_eq] at *; omega)
      (fun a b => by simp only [Bool.or_eq_true, decide_eq_true_eq]; omega) chosen
    exact hsorted.imp fun hle => of_decide_eq_true hle
  · intro p hp
    exact h.lt p ((hmem p).mp hp)
  · intro p hp
    rw [hmap, if_pos ((hmem p).mp hp)]
  · intro i hi p hp
    rw [hmap, if_neg fun hin => hi ((hmem i).mpr hin)]
    exact (hbest i).2 p ((hmem p).mp hp)
  · intro i
    rw [hmap ((assign sim chosen).mapping i), if_pos (honto i)]

end

/-- Every matrix with rows and every number of prototypes up to theirs gives a retraction. -/
theorem choosePrototypes_spec {K : Type*} [Field K] [LinearOrder K] (sqrt : K → K)
    {rows : List (List K)} {keep : Int} (hlo : 1 ≤ keep) (hhi : keep ≤ rows.length) :
    ∃ m, choosePrototypes sqrt rows.length rows keep = some m ∧
      Retraction (similarity sqrt rows) rows.length keep.toNat m := by
  have hn : 0 < rows.length := by omega
  have hfirst := (argMax_spec (fun i => norm sqrt (rows.getD i [])) hn).1
  have hstart : Picked rows.length [argMax (fun i => norm sqrt (rows.getD i [])) rows.length] :=
    ⟨List.nodup_singleton _, fun p hp => by rw [List.mem_singleton.mp hp]; exact hfirst⟩
  obtain ⟨all, hloop, hpicked, hlen⟩ := chooseLoop_spec (similarity sqrt rows) keep.toNat
    (by omega) rows.length (fun i => similarity sqrt rows i
      (argMax (fun i => norm sqrt (rows.getD i [])) rows.length)) hstart (by rw [List.length_singleton]; omega)
    (by rw [List.length_singleton]; omega)
  refine ⟨_, ?_, assign_spec (similarity sqrt rows) (by omega) hpicked hlen⟩
  unfold choosePrototypes
  dsimp only
  rw [if_neg (by omega), hloop, Option.map_some]

end Kvl.RouterMap
