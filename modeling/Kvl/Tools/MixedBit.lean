import Kvl.Lib.Knapsack
import Kvl.Lib.PyText

/-!
# The mixed-bit plan

`optimize` of the mixed-bit planner. Its table maps the used units to the least
error and the choices made; every expert extends it by one choice.
-/

namespace Kvl.MixedBit

set_option autoImplicit false

open PyText (Exc valueError text)

structure Choice (E : Type*) where
  bits : Int
  bytes : Int
  error : E
  deriving DecidableEq, Repr

structure PlanEntry (E : Type*) where
  expert : String
  bits : Int
  projectedBytes : Int
  error : E
  deriving DecidableEq, Repr

structure MixedBitPlan (E : Type*) where
  budgetBytes : Int
  quantumBytes : Int
  projectedBytes : Int
  totalError : E
  expertCount : Nat
  assignment : List (PlanEntry E)
  deriving DecidableEq, Repr

section Optimize
variable {E : Type*} [AddCommMonoid E] [LinearOrder E]

/-- `units`, the bytes in quanta, rounded up. -/
def choiceUnits (quantum : Int) (c : Choice E) : Int := (c.bytes + quantum - 1) / quantum

/-- One choice for one entry of `dp`. -/
def planChoice (quantum budgetUnits : Int) (item : Int × E × List Nat)
    (nxt : List (Int × E × List Nat)) (choice : Choice E × Nat) : List (Int × E × List Nat) :=
  let newUsed := item.1 + choiceUnits quantum choice.1
  if budgetUnits < newUsed then nxt
  else
    let newErr := item.2.1 + choice.1.error
    match Dict.get newUsed nxt with
    | none => Dict.set newUsed (newErr, item.2.2 ++ [choice.2]) nxt
    | some cur =>
      if newErr < cur.1 then Dict.set newUsed (newErr, item.2.2 ++ [choice.2]) nxt else nxt

/-- `nxt` after both inner loops. -/
def planExpert (quantum budgetUnits : Int) (choices : List (Choice E))
    (dp : List (Int × E × List Nat)) : List (Int × E × List Nat) :=
  dp.foldl (fun nxt item => choices.zipIdx.foldl (planChoice quantum budgetUnits item) nxt) []

/-- `dp` after the loop over the experts. -/
def planTable (quantum budgetUnits : Int) :
    List (String × List (Choice E)) → List (Int × E × List Nat) →
      Except Exc (List (Int × E × List Nat))
  | [], dp => .ok dp
  | (_, choices) :: experts, dp =>
    let nxt := planExpert quantum budgetUnits choices dp
    if nxt.isEmpty then
      .error (valueError "no feasible assignment under projected byte budget")
    else planTable quantum budgetUnits experts nxt

/-- `(kv[1][0], kv[0])` of the first is the smaller. -/
def planBefore (a b : Int × E × List Nat) : Bool :=
  if a.2.1 = b.2.1 then a.1 < b.1 else a.2.1 < b.2.1

/-- `min(dp.items(), key=...)`, the first of the smallest. -/
def planMin : List (Int × E × List Nat) → Option (Int × E × List Nat)
  | [] => none
  | item :: items =>
    some (items.foldl (fun best item => if planBefore item best then item else best) item)

/-- The loop that collects `assignment` and `exact_bytes`. -/
def planAssign : List ((String × List (Choice E)) × Nat) → List (PlanEntry E) → Int →
    Except Exc (List (PlanEntry E) × Int)
  | [], assignment, exactBytes => .ok (assignment, exactBytes)
  | ((key, choices), idx) :: rest, assignment, exactBytes =>
    match choices[idx]? with
    | none => .error ⟨.exception, text "list index out of range"⟩
    | some c =>
      planAssign rest (assignment ++ [⟨key, c.bits, c.bytes, c.error⟩]) (exactBytes + c.bytes)

def optimize (experts : List (String × List (Choice E))) (budgetBytes quantum : Int) :
    Except Exc (MixedBitPlan E) :=
  if budgetBytes ≤ 0 then .error (valueError "budget_bytes must be positive")
  else if quantum ≤ 0 then .error (valueError "quantum must be positive")
  else
    let budgetUnits := budgetBytes / quantum
    if budgetUnits ≤ 0 then .error (valueError "budget is smaller than one quantum")
    else
      match planTable quantum budgetUnits experts [(0, 0, [])] with
      | .error e => .error e
      | .ok dp =>
        match planMin dp with
        | none => .error (valueError "min() iterable argument is empty")
        | some (_, totalError, picks) =>
          match planAssign (experts.zip picks) [] 0 with
          | .error e => .error e
          | .ok (assignment, exactBytes) =>
            if budgetBytes < exactBytes then
              .error ⟨.exception, text "quantized DP plan exceeded exact byte budget"⟩
            else
              .ok {
                budgetBytes := budgetBytes, quantumBytes := quantum, projectedBytes := exactBytes
                totalError := totalError, expertCount := experts.length
                assignment := assignment }

end Optimize

/-! ### The table of the plan -/

section Units
variable {E : Type*} {quantum : Int}

theorem choiceUnits_nonneg {c : Choice E} (hquantum : 0 < quantum) (hbytes : 0 ≤ c.bytes) :
    0 ≤ choiceUnits quantum c :=
  Int.ediv_nonneg (by omega) hquantum.le

/-- The units of a choice hold its bytes. -/
theorem bytes_le_choiceUnits (c : Choice E) (hquantum : 0 < quantum) :
    c.bytes ≤ quantum * choiceUnits quantum c := by
  have hdiv := Int.mul_ediv_add_emod (c.bytes + quantum - 1) quantum
  have hlt := Int.emod_lt_of_pos (c.bytes + quantum - 1) hquantum
  unfold choiceUnits
  omega

variable {experts : List (String × List (Choice E))}

/-- The choices of every expert, each with its index. -/
def planStages (experts : List (String × List (Choice E))) : List (List (Choice E × Nat)) :=
  experts.map fun e => e.2.zipIdx

def unitsOf (quantum : Int) (x : Choice E × Nat) : Int := choiceUnits quantum x.1

theorem planStages_nonneg (hquantum : 0 < quantum)
    (hbytes : ∀ e ∈ experts, ∀ c ∈ e.2, 0 ≤ c.bytes) :
    ∀ stage ∈ planStages experts, ∀ x ∈ stage, 0 ≤ unitsOf quantum x := by
  intro stage hstage x hx
  obtain ⟨e, he, rfl⟩ := List.mem_map.mp hstage
  have hmem : x.1 ∈ e.2 := List.mem_of_getElem? (List.mem_zipIdx_iff_getElem?.mp hx)
  exact choiceUnits_nonneg hquantum (hbytes e he x.1 hmem)

end Units

section Table
variable {E : Type*} [AddCommMonoid E] [LinearOrder E] {quantum budgetUnits : Int}

def PlanTabulates (quantum budgetUnits : Int) (experts : List (String × List (Choice E)))
    (dp : List (Int × E × List Nat)) : Prop :=
  Knapsack.Tabulates budgetUnits (unitsOf quantum) (fun x : Choice E × Nat => x.1.error)
    (fun x => x.2) (planStages experts) dp

theorem planChoice_foldl (item : Int × E × List Nat) (stage : List (Choice E × Nat))
    (nxt : List (Int × E × List Nat)) :
    stage.foldl (planChoice quantum budgetUnits item) nxt =
      Dict.relaxAll (Knapsack.extensions budgetUnits (unitsOf quantum)
        (fun x : Choice E × Nat => x.1.error) (fun x => x.2) item stage) nxt := by
  unfold Dict.relaxAll Knapsack.extensions
  rw [List.foldl_filterMap]
  congr 1
  funext nxt x
  unfold planChoice unitsOf
  dsimp only
  by_cases hover : budgetUnits < item.1 + choiceUnits quantum x.1
  · rw [if_pos hover, if_pos hover]
  · rw [if_neg hover, if_neg hover]
    dsimp only [Dict.relax]
    cases Dict.get (item.1 + choiceUnits quantum x.1) nxt with
    | none => rfl
    | some cur => rfl

theorem planExpert_eq (choices : List (Choice E)) (dp : List (Int × E × List Nat)) :
    planExpert quantum budgetUnits choices dp =
      Knapsack.extend budgetUnits (unitsOf quantum) (fun x : Choice E × Nat => x.1.error)
        (fun x => x.2) dp choices.zipIdx := by
  unfold planExpert Knapsack.extend Dict.relaxAll
  rw [List.foldl_flatMap]
  congr 1
  funext nxt item
  exact planChoice_foldl item choices.zipIdx nxt

variable {experts : List (String × List (Choice E))}

variable [IsOrderedAddMonoid E]

/-- The loop over the experts either tabulates them all or nothing fits. -/
theorem planTable_spec {done : List (String × List (Choice E))} {dp : List (Int × E × List Nat)}
    (hquantum : 0 < quantum) (hbytes : ∀ e ∈ experts, ∀ c ∈ e.2, 0 ≤ c.bytes)
    (hdp : PlanTabulates quantum budgetUnits done dp) (hne : dp ≠ []) :
    (∃ out, planTable quantum budgetUnits experts dp = .ok out ∧ out ≠ [] ∧
        PlanTabulates quantum budgetUnits (done ++ experts) out) ∨
      ((∃ e, planTable quantum budgetUnits experts dp = .error e) ∧
        ∀ xs, Knapsack.Selects (planStages (done ++ experts)) xs →
          ¬ (xs.map (unitsOf quantum)).sum ≤ budgetUnits) := by
  induction experts generalizing done dp with
  | nil => exact Or.inl ⟨dp, rfl, hne, by rwa [List.append_nil]⟩
  | cons e experts ih =>
    obtain ⟨key, choices⟩ := e
    have hnow : ∀ stage ∈ planStages [(key, choices)], ∀ x ∈ stage, 0 ≤ unitsOf quantum x :=
      planStages_nonneg hquantum fun e he => hbytes e (List.mem_cons.mpr (Or.inl (List.mem_singleton.mp he)))
    have hlater := fun e he => hbytes e (List.mem_cons_of_mem (key, choices) he)
    have hnxt : PlanTabulates quantum budgetUnits (done ++ [(key, choices)])
        (planExpert quantum budgetUnits choices dp) := by
      unfold PlanTabulates planStages
      rw [planExpert_eq, List.map_append]
      exact Knapsack.Tabulates.extend hdp (hnow _ List.mem_cons_self)
    rw [show done ++ (key, choices) :: experts = done ++ [(key, choices)] ++ experts by simp]
    unfold planTable
    by_cases hempty : planExpert quantum budgetUnits choices dp = []
    · refine Or.inr ⟨⟨_, if_pos (by rw [hempty]; rfl)⟩, ?_⟩
      unfold PlanTabulates at hnxt
      rw [hempty] at hnxt
      intro xs hxs
      unfold planStages at hxs
      rw [List.map_append] at hxs
      exact hnxt.empty (planStages_nonneg hquantum hlater) xs hxs
    · have hfalse : ¬ (planExpert quantum budgetUnits choices dp).isEmpty = true := by
        rwa [List.isEmpty_iff]
      dsimp only
      rw [if_neg hfalse]
      exact ih hlater hnxt hempty

end Table

/-! ### The plan -/

section Plan
variable {E : Type*} [LinearOrder E]

theorem planBefore_le {a b : Int × E × List Nat} (h : planBefore a b = true) : a.2.1 ≤ b.2.1 := by
  unfold planBefore at h
  split_ifs at h with heq
  · exact heq.le
  · exact (of_decide_eq_true h).le

theorem not_planBefore_le {a b : Int × E × List Nat} (h : ¬ planBefore a b = true) :
    b.2.1 ≤ a.2.1 := by
  unfold planBefore at h
  split_ifs at h with heq
  · exact heq.ge
  · exact not_lt.mp fun hlt => h (decide_eq_true hlt)

theorem planMin_fold (items : List (Int × E × List Nat)) (best : Int × E × List Nat) :
    let m := items.foldl (fun best item => if planBefore item best then item else best) best
    m ∈ best :: items ∧ ∀ item ∈ best :: items, m.2.1 ≤ item.2.1 := by
  induction items generalizing best with
  | nil =>
    refine ⟨List.mem_cons_self, fun item hitem => ?_⟩
    rw [List.mem_singleton.mp hitem]
    exact le_refl _
  | cons first items ih =>
    dsimp only
    rw [List.foldl_cons]
    by_cases hbefore : planBefore first best = true
    · rw [if_pos hbefore]
      obtain ⟨hmem, hle⟩ := ih first
      refine ⟨List.mem_cons_of_mem _ hmem, fun item hitem => ?_⟩
      rcases List.mem_cons.mp hitem with rfl | hrest
      · exact (hle first List.mem_cons_self).trans (planBefore_le hbefore)
      · exact hle item hrest
    · rw [if_neg hbefore]
      obtain ⟨hmem, hle⟩ := ih best
      constructor
      · rcases List.mem_cons.mp hmem with heq | hrest
        · exact List.mem_cons.mpr (Or.inl heq)
        · exact List.mem_cons_of_mem _ (List.mem_cons_of_mem _ hrest)
      · intro item hitem
        rcases List.mem_cons.mp hitem with rfl | hrest
        · exact hle item List.mem_cons_self
        · rcases List.mem_cons.mp hrest with rfl | hlast
          · exact (hle best List.mem_cons_self).trans (not_planBefore_le hbefore)
          · exact hle item (List.mem_cons_of_mem _ hlast)

theorem planMin_spec {dp : List (Int × E × List Nat)} (hne : dp ≠ []) :
    ∃ m ∈ dp, planMin dp = some m ∧ ∀ item ∈ dp, m.2.1 ≤ item.2.1 := by
  cases dp with
  | nil => exact absurd rfl hne
  | cons item items =>
    obtain ⟨hmem, hle⟩ := planMin_fold items item
    exact ⟨_, hmem, rfl, hle⟩

end Plan

section Assignments
variable {E : Type*}

/-- One choice of every expert. -/
def Assigns (experts : List (String × List (Choice E))) (cs : List (Choice E)) : Prop :=
  Knapsack.Selects (experts.map Prod.snd) cs

def planEntries (experts : List (String × List (Choice E))) (cs : List (Choice E)) :
    List (PlanEntry E) :=
  List.zipWith (fun e c => ⟨e.1, c.bits, c.bytes, c.error⟩) experts cs

def totalUnits (quantum : Int) (cs : List (Choice E)) : Int :=
  (cs.map (choiceUnits quantum)).sum

variable {experts : List (String × List (Choice E))}

theorem assigns_of_selects {xs : List (Choice E × Nat)}
    (h : Knapsack.Selects (planStages experts) xs) : Assigns experts (xs.map Prod.fst) := by
  unfold Assigns
  unfold Knapsack.Selects planStages at *
  rw [List.forall₂_map_left_iff] at h ⊢
  rw [List.forall₂_map_right_iff]
  exact h.imp fun e x hx => List.mem_of_getElem? (List.mem_zipIdx_iff_getElem?.mp hx)

theorem Assigns.indexed {cs : List (Choice E)} (h : Assigns experts cs) :
    ∃ xs, Knapsack.Selects (planStages experts) xs ∧ xs.map Prod.fst = cs := by
  unfold Assigns Knapsack.Selects at h
  unfold Knapsack.Selects planStages
  rw [List.forall₂_map_left_iff] at h
  induction h with
  | nil => exact ⟨[], List.Forall₂.nil, rfl⟩
  | @cons e c experts cs hc _ ih =>
    obtain ⟨xs, hxs, rfl⟩ := ih
    obtain ⟨n, hn⟩ := List.mem_iff_getElem?.mp hc
    exact ⟨(c, n) :: xs, List.Forall₂.cons (List.mem_zipIdx_iff_getElem?.mpr hn) hxs, rfl⟩

/-- The recorded indices lead back to the choices. -/
theorem planAssign_selects {xs : List (Choice E × Nat)}
    (h : Knapsack.Selects (planStages experts) xs) (assignment : List (PlanEntry E))
    (exactBytes : Int) :
    planAssign (experts.zip (xs.map Prod.snd)) assignment exactBytes =
      .ok (assignment ++ planEntries experts (xs.map Prod.fst),
        exactBytes + ((xs.map Prod.fst).map Choice.bytes).sum) := by
  unfold planEntries
  induction experts generalizing xs assignment exactBytes with
  | nil =>
    obtain rfl := Knapsack.selects_nil_iff.mp h
    simp [planAssign]
  | cons e experts ih =>
    obtain ⟨key, choices⟩ := e
    unfold Knapsack.Selects planStages at h
    cases h with
    | @cons _ x _ xs hx hrest =>
      have hget : choices[x.2]? = some x.1 := List.mem_zipIdx_iff_getElem?.mp hx
      rw [List.map_cons, List.zip_cons_cons]
      unfold planAssign
      rw [hget]
      dsimp only
      rw [ih hrest, List.map_cons, List.map_cons, List.sum_cons, List.zipWith_cons_cons,
        List.append_assoc, List.singleton_append, add_assoc]

/-- Units within the budget are bytes within the budget. -/
theorem bytes_le_of_units {quantum budgetBytes : Int} (hquantum : 0 < quantum)
    {cs : List (Choice E)} (hfits : totalUnits quantum cs ≤ budgetBytes / quantum) :
    (cs.map Choice.bytes).sum ≤ budgetBytes := by
  have hbytes : (cs.map Choice.bytes).sum ≤ quantum * totalUnits quantum cs := by
    unfold totalUnits
    rw [← List.sum_map_mul_left]
    exact List.sum_le_sum fun c _ => bytes_le_choiceUnits c hquantum
  calc (cs.map Choice.bytes).sum ≤ quantum * totalUnits quantum cs := hbytes
    _ ≤ quantum * (budgetBytes / quantum) := Int.mul_le_mul_of_nonneg_left hfits hquantum.le
    _ ≤ budgetBytes := Int.mul_ediv_self_le (by omega)

theorem budget_units_pos {quantum budgetBytes : Int} (hquantum : 0 < quantum)
    (hbudget : quantum ≤ budgetBytes) :
    0 < budgetBytes / quantum := by
  refine (Int.le_ediv_iff_mul_le hquantum).mpr ?_
  omega

theorem totalUnits_fst {quantum : Int} (xs : List (Choice E × Nat)) :
    totalUnits quantum (xs.map Prod.fst) = (xs.map (unitsOf quantum)).sum := by
  unfold totalUnits
  rw [List.map_map]
  rfl

theorem errors_fst [AddCommMonoid E] (xs : List (Choice E × Nat)) :
    ((xs.map Prod.fst).map Choice.error).sum = (xs.map fun x => x.1.error).sum := by
  rw [List.map_map]
  rfl

end Assignments

section Optimal
variable {E : Type*} [AddCommMonoid E] [LinearOrder E]
variable {experts : List (String × List (Choice E))} {budgetBytes quantum : Int}

/-- With a table of all experts the plan is the one of its least entry. -/
theorem optimize_of_table {dp : List (Int × E × List Nat)}
    (hquantum : 0 < quantum) (hbudget : quantum ≤ budgetBytes)
    (htable : planTable quantum (budgetBytes / quantum) experts [(0, 0, [])] = .ok dp)
    (hne : dp ≠ []) (hdp : PlanTabulates quantum (budgetBytes / quantum) experts dp) :
    ∃ plan cs, optimize experts budgetBytes quantum = .ok plan ∧ Assigns experts cs ∧
      totalUnits quantum cs ≤ budgetBytes / quantum ∧
      plan.assignment = planEntries experts cs ∧
      plan.projectedBytes = (cs.map Choice.bytes).sum ∧ plan.projectedBytes ≤ budgetBytes ∧
      plan.totalError = (cs.map Choice.error).sum ∧
      ∀ other, Assigns experts other → totalUnits quantum other ≤ budgetBytes / quantum →
        plan.totalError ≤ (other.map Choice.error).sum := by
  obtain ⟨m, hm, hmin, hleast⟩ := planMin_spec hne
  obtain ⟨xs, hxs, hunits, hfits, herror, hpicks⟩ := hdp.sound m hm
  have hunitsfit : totalUnits quantum (xs.map Prod.fst) ≤ budgetBytes / quantum := by
    rw [totalUnits_fst, hunits]
    exact hfits
  have hbytes := bytes_le_of_units hquantum hunitsfit
  have hassign := planAssign_selects hxs [] 0
  rw [hpicks, zero_add, List.nil_append] at hassign
  have hpositive : 0 < budgetBytes / quantum := budget_units_pos hquantum hbudget
  refine ⟨{ budgetBytes := budgetBytes, quantumBytes := quantum,
            projectedBytes := ((xs.map Prod.fst).map Choice.bytes).sum, totalError := m.2.1,
            expertCount := experts.length, assignment := planEntries experts (xs.map Prod.fst) },
    xs.map Prod.fst, ?_, assigns_of_selects hxs, hunitsfit, rfl, rfl, hbytes,
    herror.symm.trans (errors_fst xs).symm, ?_⟩
  · unfold optimize
    rw [if_neg (by omega), if_neg (by omega)]
    dsimp only
    rw [if_neg (by omega), htable]
    dsimp only
    rw [hmin]
    dsimp only
    rw [hassign]
    dsimp only
    rw [if_neg (by omega)]
  · intro other hother hotherfits
    obtain ⟨ys, hys, rfl⟩ := hother.indexed
    rw [totalUnits_fst] at hotherfits
    obtain ⟨v, hv, hle⟩ := hdp.best ys hys hotherfits
    exact (hleast _ hv).trans (hle.trans (errors_fst ys).ge)

variable [IsOrderedAddMonoid E]

/-- `optimize` raises if and only if no assignment fits in the units of the budget; otherwise
its plan is an assignment of the least total error among those that do. -/
theorem optimize_optimal (hquantum : 1 ≤ quantum) (hbudget : quantum ≤ budgetBytes)
    (hbytes : ∀ e ∈ experts, ∀ c ∈ e.2, 0 ≤ c.bytes) :
    (∀ plan, optimize experts budgetBytes quantum = .ok plan →
      ∃ cs, Assigns experts cs ∧ plan.assignment = planEntries experts cs ∧
        plan.projectedBytes = (cs.map Choice.bytes).sum ∧ plan.projectedBytes ≤ budgetBytes ∧
        plan.totalError = (cs.map Choice.error).sum ∧
        totalUnits quantum cs ≤ budgetBytes / quantum ∧
        ∀ other, Assigns experts other → totalUnits quantum other ≤ budgetBytes / quantum →
          plan.totalError ≤ (other.map Choice.error).sum) ∧
    ((∃ e, optimize experts budgetBytes quantum = .error e) ↔
      ¬ ∃ cs, Assigns experts cs ∧ totalUnits quantum cs ≤ budgetBytes / quantum) := by
  have hpos : 0 < quantum := by omega
  have hunits : 0 < budgetBytes / quantum := budget_units_pos hpos hbudget
  have hstart : PlanTabulates quantum (budgetBytes / quantum) ([] : List (String × List (Choice E)))
      [(0, 0, [])] := Knapsack.tabulates_start hunits.le
  rcases planTable_spec hpos hbytes hstart (by simp) with ⟨dp, htable, hne, hdp⟩ | ⟨⟨e, he⟩, hnone⟩
  · obtain ⟨plan, cs, hplan, hassigns, hfits, hentries, hsum, hle, herror, hleast⟩ :=
      optimize_of_table hpos hbudget htable hne hdp
    constructor
    · intro plan' hplan'
      obtain rfl : plan = plan' := Except.ok.inj (hplan.symm.trans hplan')
      exact ⟨cs, hassigns, hentries, hsum, hle, herror, hfits, hleast⟩
    · constructor
      · rintro ⟨e, he⟩
        exact absurd (hplan.symm.trans he) (by simp)
      · intro hnone
        exact absurd ⟨cs, hassigns, hfits⟩ hnone
  · have hraises : optimize experts budgetBytes quantum = .error e := by
      unfold optimize
      rw [if_neg (by omega), if_neg (by omega)]
      dsimp only
      rw [if_neg (by omega), he]
    constructor
    · intro plan hplan
      exact absurd (hraises.symm.trans hplan) (by simp)
    · refine ⟨fun _ => ?_, fun _ => ⟨e, hraises⟩⟩
      rintro ⟨cs, hcs, hfits⟩
      obtain ⟨xs, hxs, rfl⟩ := hcs.indexed
      rw [totalUnits_fst] at hfits
      exact hnone xs hxs hfits

end Optimal

/-- Two experts of two choices each and a budget that admits one dear choice. -/
theorem optimize_optimal_twoExperts :
    (∀ plan, optimize (E := Rat) [("A", [⟨8, 100, 0⟩, ⟨4, 50, 10⟩]), ("B", [⟨8, 100, 0⟩, ⟨4, 50, 1⟩])]
        150 1 = .ok plan →
      ∃ cs, Assigns [("A", [⟨8, 100, 0⟩, ⟨4, 50, 10⟩]), ("B", [⟨8, 100, 0⟩, ⟨4, 50, 1⟩])] cs ∧
        plan.assignment = planEntries
          [("A", [⟨8, 100, 0⟩, ⟨4, 50, 10⟩]), ("B", [⟨8, 100, 0⟩, ⟨4, 50, 1⟩])] cs ∧
        plan.projectedBytes = (cs.map Choice.bytes).sum ∧ plan.projectedBytes ≤ 150 ∧
        plan.totalError = (cs.map Choice.error).sum ∧ totalUnits 1 cs ≤ 150 / 1 ∧
        ∀ other, Assigns
            [("A", [⟨8, 100, 0⟩, ⟨4, 50, 10⟩]), ("B", [⟨8, 100, 0⟩, ⟨4, 50, 1⟩])] other →
          totalUnits 1 other ≤ 150 / 1 → plan.totalError ≤ (other.map Choice.error).sum) ∧
    ((∃ e, optimize (E := Rat)
        [("A", [⟨8, 100, 0⟩, ⟨4, 50, 10⟩]), ("B", [⟨8, 100, 0⟩, ⟨4, 50, 1⟩])] 150 1 = .error e) ↔
      ¬ ∃ cs, Assigns (E := Rat)
        [("A", [⟨8, 100, 0⟩, ⟨4, 50, 10⟩]), ("B", [⟨8, 100, 0⟩, ⟨4, 50, 1⟩])] cs ∧
          totalUnits 1 cs ≤ 150 / 1) :=
  optimize_optimal (by decide) (by decide) (by decide)

end Kvl.MixedBit
