import Mathlib

/-!
# The protection order

`build_profile` ranks the experts of a layer in every domain and merges the
rankings: in turn, every domain contributes the first expert of its ranking that
is not yet chosen.
-/

namespace Kvl.RoundRobin

set_option autoImplicit false

/-! ### The merge -/

/-- The inner loop of one domain, over what is left of its ranking: where its cursor stops, and
the expert it chooses. -/
def advance (chosenSet : Finset Nat) : List Nat → Nat → Nat × Option Nat
  | [], cursor => (cursor, none)
  | expert :: rest, cursor =>
    if expert ∈ chosenSet then advance chosenSet rest (cursor + 1) else (cursor + 1, some expert)

/-- The ranking of a domain and its cursor. -/
structure Domain where
  ranked : List Nat
  cursor : Nat

structure MergeState where
  domains : List Domain
  chosen : List Nat
  chosenSet : Finset Nat
  progress : Bool

/-- One domain after the others. -/
def mergeDomain (s : MergeState) (d : Domain) : MergeState :=
  let stop := advance s.chosenSet (d.ranked.drop d.cursor) d.cursor
  match stop.2 with
  | none => { s with domains := s.domains ++ [⟨d.ranked, stop.1⟩] }
  | some expert =>
    { domains := s.domains ++ [⟨d.ranked, stop.1⟩], chosen := s.chosen ++ [expert]
      chosenSet := insert expert s.chosenSet, progress := true }

/-- The loop over the domains. -/
def mergeRound (s : MergeState) : MergeState :=
  s.domains.foldl mergeDomain { s with domains := [], progress := false }

/-- At most `fuel` tests of the outer loop, and `none` where these are not enough. -/
def mergeLoop (nExperts : Nat) : Nat → MergeState → Option (List Nat)
  | 0, _ => none
  | fuel + 1, s =>
    if s.chosen.length < nExperts then
      let s := mergeRound s
      if s.progress then mergeLoop nExperts fuel s else some s.chosen
    else some s.chosen

/-- The order of one layer. -/
def roundRobinOrder (nExperts : Nat) (rankings : List (List Nat)) (fuel : Nat) :
    Option (List Nat) :=
  mergeLoop nExperts fuel ⟨rankings.map fun ranked => ⟨ranked, 0⟩, [], ∅, false⟩

/-! ### One domain -/

/-- The cursor passes experts that are chosen already, and the one it chooses. -/
theorem advance_spec (chosenSet : Finset Nat) (rest : List Nat) (cursor : Nat) :
    ∃ k, k ≤ rest.length ∧ (advance chosenSet rest cursor).1 = cursor + k ∧
      (0 < rest.length → 0 < k) ∧
      match (advance chosenSet rest cursor).2 with
      | none => k = rest.length ∧ ∀ e ∈ rest, e ∈ chosenSet
      | some expert => expert ∉ chosenSet ∧ expert ∈ rest ∧
          ∀ e ∈ rest.take k, e ∈ chosenSet ∨ e = expert := by
  induction rest generalizing cursor with
  | nil => exact ⟨0, le_refl _, rfl, fun h => h, rfl, fun e he => absurd he List.not_mem_nil⟩
  | cons first rest ih =>
    rw [advance]
    by_cases hmem : first ∈ chosenSet
    · rw [if_pos hmem]
      obtain ⟨k, hk, hcursor, -, hstop⟩ := ih (cursor + 1)
      refine ⟨k + 1, Nat.succ_le_succ hk, by rw [hcursor]; omega, fun _ => Nat.succ_pos k, ?_⟩
      cases hlast : (advance chosenSet rest (cursor + 1)).2 with
      | none =>
        rw [hlast] at hstop
        refine ⟨congrArg Nat.succ hstop.1, fun e he => ?_⟩
        rcases List.mem_cons.mp he with rfl | hrest
        · exact hmem
        · exact hstop.2 e hrest
      | some expert =>
        rw [hlast] at hstop
        refine ⟨hstop.1, List.mem_cons_of_mem _ hstop.2.1, fun e he => ?_⟩
        rw [List.take_succ_cons] at he
        rcases List.mem_cons.mp he with rfl | hrest
        · exact Or.inl hmem
        · exact hstop.2.2 e hrest
    · rw [if_neg hmem]
      refine ⟨1, Nat.succ_le_succ (Nat.zero_le _), rfl, fun _ => Nat.one_pos, hmem,
        List.mem_cons_self, fun e he => ?_⟩
      rw [List.take_succ_cons, List.take_zero] at he
      exact Or.inr (List.mem_singleton.mp he)

/-- What is chosen, over the experts of the rankings. -/
structure Chosen (n : Nat) (s : MergeState) : Prop where
  set : s.chosenSet = s.chosen.toFinset
  nodup : s.chosen.Nodup
  lt : ∀ e ∈ s.chosen, e < n

/-- The part of a ranking before its cursor is chosen. -/
structure Passed (chosen : List Nat) (d : Domain) : Prop where
  cursor : d.cursor ≤ d.ranked.length
  chosen : ∀ e ∈ d.ranked.take d.cursor, e ∈ chosen

theorem Passed.mono {chosen more : List Nat} {d : Domain} (h : Passed chosen d) :
    Passed (chosen ++ more) d :=
  ⟨h.cursor, fun e he => List.mem_append_left _ (h.chosen e he)⟩

/-- What one domain does: it adds at most one expert, and passes at least one place of its
ranking if any is left. -/
theorem mergeDomain_spec {n : Nat} {s : MergeState} {d : Domain} (hs : Chosen n s)
    (hd : Passed s.chosen d) (hlt : ∀ e ∈ d.ranked, e < n) :
    ∃ added d', (mergeDomain s d).chosen = s.chosen ++ added ∧ added.length ≤ 1 ∧
      (mergeDomain s d).domains = s.domains ++ [d'] ∧ Chosen n (mergeDomain s d) ∧
      d'.ranked = d.ranked ∧ Passed (s.chosen ++ added) d' ∧
      min (d.cursor + 1) d.ranked.length ≤ d'.cursor ∧
      ((mergeDomain s d).progress = true ↔ s.progress = true ∨ added ≠ []) ∧
      (added = [] → ∀ e ∈ d.ranked, e ∈ s.chosen) := by
  obtain ⟨k, hk, hcursor, hmoves, hstop⟩ :=
    advance_spec s.chosenSet (d.ranked.drop d.cursor) d.cursor
  rw [List.length_drop] at hk hmoves
  have hpassed := hd.cursor
  have hsplit : ∀ j, ∀ e ∈ d.ranked.take (d.cursor + j),
      e ∈ d.ranked.take d.cursor ∨ e ∈ (d.ranked.drop d.cursor).take j := by
    intro j e he
    rw [List.take_add] at he
    exact List.mem_append.mp he
  unfold mergeDomain
  dsimp only
  cases hlast : (advance s.chosenSet (d.ranked.drop d.cursor) d.cursor).2 with
  | none =>
    rw [hlast] at hstop
    dsimp only
    have hall : ∀ e ∈ d.ranked, e ∈ s.chosen := by
      intro e he
      rw [← List.take_append_drop d.cursor d.ranked] at he
      rcases List.mem_append.mp he with hfront | hback
      · exact hd.chosen e hfront
      · have hmem := hstop.2 e hback
        rwa [hs.set, List.mem_toFinset] at hmem
    refine ⟨[], _, (List.append_nil _).symm, Nat.zero_le _, rfl, ⟨hs.set, hs.nodup, hs.lt⟩, rfl,
      ⟨?_, fun e he => ?_⟩, ?_, by simp, fun _ => hall⟩
    · dsimp only
      omega
    · rw [List.append_nil]
      exact hall e (List.mem_of_mem_take he)
    · dsimp only
      omega
  | some expert =>
    rw [hlast] at hstop
    obtain ⟨hnew, hmem, hpass⟩ := hstop
    dsimp only
    have hout : expert ∉ s.chosen := by rwa [hs.set, List.mem_toFinset] at hnew
    have hranked : expert ∈ d.ranked := List.mem_of_mem_drop hmem
    refine ⟨[expert], _, rfl, le_refl _, rfl, ⟨?_, ?_, ?_⟩, rfl, ⟨?_, fun e he => ?_⟩, ?_, by simp,
      fun h => absurd h (by simp)⟩
    · rw [hs.set]
      ext e
      simp
    · rw [List.nodup_append]
      refine ⟨hs.nodup, List.nodup_singleton _, fun a ha b hb hab => ?_⟩
      rw [List.mem_singleton.mp hb] at hab
      exact hout (hab ▸ ha)
    · intro e he
      rcases List.mem_append.mp he with hold | hlast'
      · exact hs.lt e hold
      · rw [List.mem_singleton.mp hlast']
        exact hlt expert hranked
    · dsimp only
      omega
    · dsimp only at he
      rw [hcursor] at he
      rcases hsplit k e he with hfront | hback
      · exact List.mem_append_left _ (hd.chosen e hfront)
      · rcases hpass e hback with hset | rfl
        · rw [hs.set, List.mem_toFinset] at hset
          exact List.mem_append_left _ hset
        · exact List.mem_append_right _ List.mem_cons_self
    · dsimp only
      omega

/-! ### One round -/

/-- A round leaves the ranking of a domain, and moves its cursor past one more place. -/
structure Moved (chosen : List Nat) (d d' : Domain) : Prop where
  ranked : d'.ranked = d.ranked
  passed : Passed chosen d'
  cursor : min (d.cursor + 1) d.ranked.length ≤ d'.cursor

theorem Moved.mono {chosen more : List Nat} {d d' : Domain} (h : Moved chosen d d') :
    Moved (chosen ++ more) d d' :=
  ⟨h.ranked, h.passed.mono, h.cursor⟩

theorem mergeDomain_foldl {n : Nat} (ds : List Domain) {s : MergeState} (hs : Chosen n s)
    (hds : ∀ d ∈ ds, Passed s.chosen d) (hlt : ∀ d ∈ ds, ∀ e ∈ d.ranked, e < n) :
    ∃ added ds', (ds.foldl mergeDomain s).chosen = s.chosen ++ added ∧
      added.length ≤ ds.length ∧ (ds.foldl mergeDomain s).domains = s.domains ++ ds' ∧
      Chosen n (ds.foldl mergeDomain s) ∧ List.Forall₂ (Moved (s.chosen ++ added)) ds ds' ∧
      ((ds.foldl mergeDomain s).progress = true ↔ s.progress = true ∨ added ≠ []) ∧
      (added = [] → ∀ d ∈ ds, ∀ e ∈ d.ranked, e ∈ s.chosen) := by
  induction ds generalizing s with
  | nil =>
    exact ⟨[], [], (List.append_nil _).symm, le_refl _, (List.append_nil _).symm, hs,
      List.Forall₂.nil, by simp, fun _ d hd => absurd hd List.not_mem_nil⟩
  | cons d ds ih =>
    obtain ⟨one, d', hchosen, hone, hdomains, hs', hranked, hpassed, hcursor, hprogress, hnone⟩ :=
      mergeDomain_spec hs (hds d List.mem_cons_self) (hlt d List.mem_cons_self)
    obtain ⟨added, ds', hchosen', hadded, hdomains', hs'', hmoved, hprogress', hnone'⟩ :=
      ih hs' (fun d hd => by
        rw [hchosen]
        exact (hds d (List.mem_cons_of_mem _ hd)).mono)
        fun d hd => hlt d (List.mem_cons_of_mem _ hd)
    rw [hchosen, List.append_assoc] at hchosen' hmoved
    rw [hdomains, List.append_assoc] at hdomains'
    rw [List.foldl_cons]
    refine ⟨one ++ added, d' :: ds', hchosen', ?_, hdomains', hs'', ?_, ?_, ?_⟩
    · rw [List.length_append, List.length_cons]
      omega
    · refine List.Forall₂.cons ⟨hranked, ?_, hcursor⟩ hmoved
      rw [← List.append_assoc]
      exact hpassed.mono
    · rw [hprogress', hprogress, or_assoc]
      simp only [ne_eq, List.append_eq_nil_iff, not_and_or]
    · intro hnil
      obtain ⟨rfl, rfl⟩ := List.append_eq_nil_iff.mp hnil
      rw [hchosen, List.append_nil] at hnone'
      intro e he
      rcases List.mem_cons.mp he with rfl | hrest
      · exact hnone rfl
      · exact hnone' rfl e hrest

/-! ### All rounds -/

/-- After `p` rounds every cursor has passed `p` places, what stood at rank `r < p` of a ranking
is among the first `D * (r + 1)` chosen, and each domain has added at most `p`. -/
structure Rounds (n : Nat) (rankings : List (List Nat)) (p : Nat) (s : MergeState) : Prop where
  chosen : Chosen n s
  same : s.domains.map Domain.ranked = rankings
  passed : ∀ d ∈ s.domains, Passed s.chosen d
  cursors : ∀ d ∈ s.domains, min p d.ranked.length ≤ d.cursor
  few : s.chosen.length ≤ rankings.length * p
  heads : ∀ ranked ∈ rankings, ∀ r e, r < p → ranked[r]? = some e →
    e ∈ s.chosen.take (rankings.length * (r + 1))

section Rounds
variable {n : Nat} {rankings : List (List Nat)}

theorem rounds_start : Rounds n rankings 0 ⟨rankings.map fun ranked => ⟨ranked, 0⟩, [], ∅, false⟩ := by
  constructor
  · exact ⟨rfl, List.nodup_nil, fun e he => absurd he List.not_mem_nil⟩
  · dsimp only
    rw [List.map_map]
    exact List.map_id rankings
  · intro d hd
    obtain ⟨ranked, -, rfl⟩ := List.mem_map.mp hd
    refine ⟨Nat.zero_le _, fun e he => ?_⟩
    rw [List.take_zero] at he
    exact absurd he List.not_mem_nil
  · intro d _
    rw [Nat.zero_min]
    exact Nat.zero_le _
  · exact Nat.zero_le _
  · exact fun _ _ r _ hr => absurd hr (Nat.not_lt_zero r)

theorem forall₂_moved {chosen : List Nat} {ds ds' : List Domain}
    (h : List.Forall₂ (Moved chosen) ds ds') :
    ds'.map Domain.ranked = ds.map Domain.ranked ∧
      ∀ d' ∈ ds', ∃ d ∈ ds, Moved chosen d d' := by
  induction h with
  | nil => exact ⟨rfl, fun d' hd' => absurd hd' List.not_mem_nil⟩
  | @cons d d' ds ds' hd _ ih =>
    refine ⟨by rw [List.map_cons, List.map_cons, hd.ranked, ih.1], fun x hx => ?_⟩
    rcases List.mem_cons.mp hx with rfl | hrest
    · exact ⟨d, List.mem_cons_self, hd⟩
    · obtain ⟨y, hy, hmoved⟩ := ih.2 x hrest
      exact ⟨y, List.mem_cons_of_mem _ hy, hmoved⟩

theorem Rounds.next {p : Nat} {s : MergeState} (h : Rounds n rankings p s)
    (hlt : ∀ ranked ∈ rankings, ∀ e ∈ ranked, e < n) :
    Rounds n rankings (p + 1) (mergeRound s) ∧
      ((mergeRound s).progress = true → s.chosen.length < (mergeRound s).chosen.length) ∧
      (¬ (mergeRound s).progress = true → ∀ ranked ∈ rankings, ∀ e ∈ ranked, e ∈ s.chosen) := by
  have hmem : ∀ d ∈ s.domains, d.ranked ∈ rankings := fun d hd => by
    rw [← h.same]
    exact List.mem_map_of_mem hd
  have hempty : Chosen n { s with domains := [], progress := false } :=
    ⟨h.chosen.set, h.chosen.nodup, h.chosen.lt⟩
  obtain ⟨added, ds', hchosen, hadded, hdomains, hs', hmoved, hprogress, hnone⟩ :=
    mergeDomain_foldl s.domains hempty h.passed fun d hd => hlt d.ranked (hmem d hd)
  obtain ⟨hranked, hfrom⟩ := forall₂_moved hmoved
  have hlength : s.domains.length = rankings.length := by
    rw [← h.same, List.length_map]
  have hchosen' : (mergeRound s).chosen = s.chosen ++ added := hchosen
  have hdomains' : (mergeRound s).domains = ds' := hdomains
  have hfew : (mergeRound s).chosen.length ≤ rankings.length * (p + 1) := by
    have hbefore := h.few
    rw [hchosen', List.length_append, Nat.mul_succ]
    omega
  refine ⟨⟨hs', ?_, ?_, ?_, hfew, ?_⟩, ?_, ?_⟩
  · rw [hdomains', hranked]
    exact h.same
  · intro d' hd'
    rw [hdomains'] at hd'
    obtain ⟨d, -, hd⟩ := hfrom d' hd'
    rw [hchosen']
    exact hd.passed
  · intro d' hd'
    rw [hdomains'] at hd'
    obtain ⟨d, hd, hmove⟩ := hfrom d' hd'
    have hbefore := h.cursors d hd
    have hnow := hmove.cursor
    rw [hmove.ranked]
    omega
  · intro ranked hr r e hrp hget
    rcases Nat.lt_succ_iff_lt_or_eq.mp hrp with hold | rfl
    · have hbefore := h.heads ranked hr r e hold hget
      rw [hchosen', List.take_append]
      exact List.mem_append_left _ hbefore
    · rw [List.take_of_length_le hfew, hchosen']
      rw [← h.same, ← hranked] at hr
      obtain ⟨d', hd', rfl⟩ := List.mem_map.mp hr
      obtain ⟨d, hd, hmove⟩ := hfrom d' hd'
      have hbefore := h.cursors d hd
      have hnow := hmove.cursor
      have hlong := (List.getElem?_eq_some_iff.mp hget).1
      rw [hmove.ranked] at hlong
      refine hmove.passed.chosen e (List.mem_of_getElem? (i := r) ?_)
      rw [List.getElem?_take_of_lt (by omega)]
      exact hget
  · intro hprog
    have hne := (hprogress.mp hprog).resolve_left (by simp)
    rw [hchosen', List.length_append]
    have := List.length_pos_iff.mpr hne
    omega
  · intro hstuck ranked hr e he
    have hnil : added = [] := by
      by_contra hne
      exact hstuck (hprogress.mpr (Or.inr hne))
    rw [← h.same] at hr
    obtain ⟨d, hd, rfl⟩ := List.mem_map.mp hr
    exact hnone hnil d hd e he

/-- All experts are chosen, in one order. -/
theorem Chosen.perm {s : MergeState} (h : Chosen n s) (hfull : n ≤ s.chosen.length) :
    s.chosen.Perm (List.range n) := by
  have hsub : s.chosen ⊆ List.range n := fun e he => List.mem_range.mpr (h.lt e he)
  refine (h.nodup.subperm hsub).perm_of_length_le ?_
  rw [List.length_range]
  exact hfull

/-- Before all experts are chosen a round adds one, so that `n` rounds are enough. -/
theorem mergeLoop_spec (hne : rankings ≠ [])
    (hperm : ∀ ranked ∈ rankings, ranked.Perm (List.range n)) {fuel p : Nat} {s : MergeState}
    (h : Rounds n rankings p s) (hfuel : n < s.chosen.length + fuel) :
    ∃ q t, mergeLoop n fuel s = some t.chosen ∧ Rounds n rankings q t ∧ n ≤ t.chosen.length := by
  have hlt : ∀ ranked ∈ rankings, ∀ e ∈ ranked, e < n := fun ranked hr e he =>
    List.mem_range.mp ((hperm ranked hr).mem_iff.mp he)
  have hmax : ∀ {q t}, Rounds n rankings q t → t.chosen.length ≤ n := by
    intro q t ht
    have hsub : t.chosen ⊆ List.range n := fun e he => List.mem_range.mpr (ht.chosen.lt e he)
    have hle := (ht.chosen.nodup.subperm hsub).length_le
    rwa [List.length_range] at hle
  induction fuel generalizing p s with
  | zero =>
    have := hmax h
    omega
  | succ fuel ih =>
    unfold mergeLoop
    by_cases hroom : s.chosen.length < n
    · rw [if_pos hroom]
      obtain ⟨hround, hgrows, hstuck⟩ := h.next hlt
      dsimp only
      have hprogress : (mergeRound s).progress = true := by
        by_contra hno
        obtain ⟨ranked, hr⟩ := List.exists_mem_of_ne_nil _ hne
        have hall : List.range n ⊆ s.chosen := fun e he =>
          hstuck hno ranked hr e ((hperm ranked hr).mem_iff.mpr he)
        have hle := (List.nodup_range.subperm hall).length_le
        rw [List.length_range] at hle
        omega
      have hmore := hgrows hprogress
      rw [if_pos hprogress]
      exact ih hround (by omega)
    · rw [if_neg hroom]
      exact ⟨p, s, rfl, h, not_lt.mp hroom⟩

/-- More tests than are needed change nothing. -/
theorem mergeLoop_add {fuel : Nat} {s : MergeState} {chosen : List Nat}
    (h : mergeLoop n fuel s = some chosen) (k : Nat) : mergeLoop n (fuel + k) s = some chosen := by
  induction fuel generalizing s with
  | zero => exact absurd h (by simp [mergeLoop])
  | succ fuel ih =>
    rw [Nat.succ_add]
    unfold mergeLoop at h ⊢
    dsimp only at h ⊢
    split_ifs at h ⊢
    · exact ih h
    · exact h
    · exact h

/-- The merge ends and lists every expert once; what stands at rank `r` of one of the `D`
rankings is among the first `D * (r + 1)`. -/
theorem roundRobinOrder_covers (hne : rankings ≠ [])
    (hperm : ∀ ranked ∈ rankings, ranked.Perm (List.range n)) :
    ∃ chosen, (∀ fuel, n < fuel → roundRobinOrder n rankings fuel = some chosen) ∧
      chosen.Perm (List.range n) ∧
      ∀ ranked ∈ rankings, ∀ r e, ranked[r]? = some e →
        e ∈ chosen.take (min n (rankings.length * (r + 1))) := by
  obtain ⟨q, t, hrun, ht, hfull⟩ := mergeLoop_spec hne hperm rounds_start
    (show n < [].length + (n + 1) by simp)
  have hall := ht.chosen.perm hfull
  have hlength : t.chosen.length = n := by rw [hall.length_eq, List.length_range]
  refine ⟨t.chosen, fun fuel hfuel => ?_, hall, fun ranked hr r e hget => ?_⟩
  · obtain ⟨k, rfl⟩ := Nat.exists_eq_add_of_le (Nat.succ_le_of_lt hfuel)
    exact mergeLoop_add hrun k
  · have hmem : e ∈ t.chosen :=
      hall.mem_iff.mpr ((hperm ranked hr).mem_iff.mp (List.mem_of_getElem? hget))
    rcases Nat.lt_or_ge r q with hearly | hlate
    · have hhead := ht.heads ranked hr r e hearly hget
      rcases Nat.le_total n (rankings.length * (r + 1)) with hle | hle
      · rwa [Nat.min_eq_left hle, List.take_of_length_le hlength.le]
      · rwa [Nat.min_eq_right hle]
    · have hmore : rankings.length * q ≤ rankings.length * (r + 1) :=
        Nat.mul_le_mul_left _ (by omega)
      have hfew := ht.few
      rwa [Nat.min_eq_left (by omega), List.take_of_length_le hlength.le]

end Rounds

/-- Two rankings of three experts that disagree. -/
theorem roundRobinOrder_covers_twoDomains :
    ∃ chosen, (∀ fuel, 3 < fuel → roundRobinOrder 3 [[0, 1, 2], [2, 1, 0]] fuel = some chosen) ∧
      chosen.Perm (List.range 3) ∧
      ∀ ranked ∈ [[0, 1, 2], [2, 1, 0]], ∀ r e, ranked[r]? = some e →
        e ∈ chosen.take (min 3 (2 * (r + 1))) :=
  roundRobinOrder_covers (by decide) (by decide)

end Kvl.RoundRobin
