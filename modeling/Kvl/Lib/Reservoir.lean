import Mathlib

/-!
# Reservoirs of bounded size

Every key keeps at most `cap` of its items. A full reservoir draws a place out of
as many as the key has seen, and the item takes that place if there is one. Over
all vectors of draws, every choice of one set for each of some keys is held
equally often.
-/

namespace Kvl.Reservoir

set_option autoImplicit false

/-! ### Vectors of draws -/

/-- One number below every bound. -/
def outcomes : List Nat → Finset (List Nat)
  | [] => {[]}
  | n :: bounds => (Finset.range n ×ˢ outcomes bounds).image fun p => p.1 :: p.2

theorem mem_outcomes {bounds v : List Nat} :
    v ∈ outcomes bounds ↔ List.Forall₂ (fun r n => r < n) v bounds := by
  induction bounds generalizing v with
  | nil => simp [outcomes]
  | cons n bounds ih =>
    simp only [outcomes, Finset.mem_image, Finset.mem_product, Finset.mem_range, Prod.exists]
    constructor
    · rintro ⟨r, w, ⟨hr, hw⟩, rfl⟩
      exact List.Forall₂.cons hr (ih.mp hw)
    · intro h
      cases h with
      | @cons r _ w _ hr hw => exact ⟨r, w, ⟨hr, ih.mpr hw⟩, rfl⟩

theorem sum_outcomes_cons {n : Nat} {bounds : List Nat} (f : List Nat → Nat) :
    ∑ v ∈ outcomes (n :: bounds), f v =
      ∑ r ∈ Finset.range n, ∑ v ∈ outcomes bounds, f (r :: v) := by
  rw [outcomes, Finset.sum_image, Finset.sum_product]
  rintro ⟨r, v⟩ - ⟨r', v'⟩ - heq
  obtain ⟨hr, hv⟩ := List.cons.inj heq
  exact Prod.ext hr hv

/-- The last draw is chosen last. -/
theorem sum_outcomes_snoc {n : Nat} {bounds : List Nat} (f : List Nat → Nat) :
    ∑ v ∈ outcomes (bounds ++ [n]), f v =
      ∑ v ∈ outcomes bounds, ∑ r ∈ Finset.range n, f (v ++ [r]) := by
  induction bounds generalizing f with
  | nil =>
    rw [List.nil_append, sum_outcomes_cons]
    simp [outcomes]
  | cons m bounds ih =>
    rw [List.cons_append, sum_outcomes_cons, sum_outcomes_cons]
    exact Finset.sum_congr rfl fun r _ => ih fun v => f (r :: v)

theorem card_outcomes_snoc {n : Nat} {bounds : List Nat} :
    (outcomes (bounds ++ [n])).card = n * (outcomes bounds).card := by
  rw [Finset.card_eq_sum_ones, sum_outcomes_snoc, Finset.sum_const, Finset.sum_const,
    Finset.card_range, smul_eq_mul, smul_eq_mul, mul_one, mul_comm]

theorem card_filter_outcomes_snoc {n : Nat} {bounds : List Nat} (P : List Nat → Prop)
    [DecidablePred P] :
    ((outcomes (bounds ++ [n])).filter P).card =
      ∑ v ∈ outcomes bounds, ((Finset.range n).filter fun r => P (v ++ [r])).card := by
  rw [Finset.card_filter, sum_outcomes_snoc]
  exact Finset.sum_congr rfl fun v _ => (Finset.card_filter _ _).symm

theorem mem_outcomes_snoc {n : Nat} {bounds v : List Nat} :
    v ∈ outcomes (bounds ++ [n]) ↔ ∃ w ∈ outcomes bounds, ∃ r < n, v = w ++ [r] := by
  simp only [mem_outcomes]
  constructor
  · intro h
    have hfront := List.forall₂_take_append v bounds [n] h
    have hlast := List.forall₂_drop_append v bounds [n] h
    obtain ⟨r, u, hr, hu, heq⟩ := List.forall₂_cons_right_iff.mp hlast
    obtain rfl := List.forall₂_nil_right_iff.mp hu
    refine ⟨_, hfront, r, hr, ?_⟩
    rw [← heq, List.take_append_drop]
  · rintro ⟨w, hw, r, hr, rfl⟩
    exact List.rel_append hw (List.Forall₂.cons hr List.Forall₂.nil)

/-! ### Filling -/

section Positions
variable {κ : Type*}

theorem zipIdx_snoc (keys : List κ) (k : κ) :
    (keys ++ [k]).zipIdx = keys.zipIdx ++ [(k, keys.length)] := by
  rw [List.zipIdx_append]
  simp

theorem getElem?_snoc_of_some {keys : List κ} {i : Nat} {k k' : κ} (h : keys[i]? = some k) :
    (keys ++ [k'])[i]? = some k := by
  have hi : i < keys.length := (List.getElem?_eq_some_iff.mp h).1
  rwa [List.getElem?_append_left hi]

end Positions

section Filling
variable {κ ι G : Type*} [DecidableEq κ]

structure State (κ ι G : Type*) where
  seen : κ → Nat
  held : κ → List ι
  rng : G

/-- One item of one key; `next` draws a number below its bound. -/
def offer (next : G → Nat → Nat × G) (cap : Nat) (s : State κ ι G) (a : κ × ι) : State κ ι G :=
  let n := s.seen a.1 + 1
  if (s.held a.1).length < cap then
    { seen := Function.update s.seen a.1 n
      held := Function.update s.held a.1 (s.held a.1 ++ [a.2]), rng := s.rng }
  else
    let d := next s.rng n
    { seen := Function.update s.seen a.1 n
      held := if d.1 < cap then Function.update s.held a.1 ((s.held a.1).set d.1 a.2) else s.held
      rng := d.2 }

def fill (next : G → Nat → Nat × G) (cap : Nat) (items : List (κ × ι)) (s : State κ ι G) :
    State κ ι G :=
  items.foldl (offer next cap) s

def start (g : G) : State κ ι G := ⟨fun _ => 0, fun _ => [], g⟩

/-- The bounds of the draws for these keys, after others. -/
def boundsFrom (cap : Nat) (past : List κ) : List κ → List Nat
  | [] => []
  | k :: keys =>
    (if cap ≤ past.count k then [past.count k + 1] else []) ++ boundsFrom cap (past ++ [k]) keys

def bounds (cap : Nat) (keys : List κ) : List Nat := boundsFrom cap [] keys

theorem boundsFrom_append (cap : Nat) (past first rest : List κ) :
    boundsFrom cap past (first ++ rest) =
      boundsFrom cap past first ++ boundsFrom cap (past ++ first) rest := by
  induction first generalizing past with
  | nil => rw [List.nil_append, List.append_nil, boundsFrom, List.nil_append]
  | cons k first ih =>
    rw [List.cons_append, boundsFrom, boundsFrom, ih, List.append_assoc, List.append_assoc,
      List.singleton_append]

theorem bounds_snoc (cap : Nat) (keys : List κ) (k : κ) :
    bounds cap (keys ++ [k]) =
      bounds cap keys ++ if cap ≤ keys.count k then [keys.count k + 1] else [] := by
  rw [bounds, boundsFrom_append, List.nil_append, boundsFrom, boundsFrom, List.append_nil]
  rfl

section Generators
variable {next : G → Nat → Nat × G} {cap : Nat}

theorem fill_snoc (items : List (κ × ι)) (a : κ × ι) (s : State κ ι G) :
    fill next cap (items ++ [a]) s = offer next cap (fill next cap items s) a :=
  List.foldl_append

theorem offer_seen (s : State κ ι G) (a : κ × ι) :
    (offer next cap s a).seen = Function.update s.seen a.1 (s.seen a.1 + 1) := by
  unfold offer
  dsimp only
  split_ifs <;> rfl

theorem offer_held (s : State κ ι G) (a : κ × ι) :
    (offer next cap s a).held =
      if (s.held a.1).length < cap then Function.update s.held a.1 (s.held a.1 ++ [a.2])
      else if (next s.rng (s.seen a.1 + 1)).1 < cap then
        Function.update s.held a.1 ((s.held a.1).set (next s.rng (s.seen a.1 + 1)).1 a.2)
      else s.held := by
  unfold offer
  dsimp only
  split_ifs <;> rfl

theorem offer_length_self (s : State κ ι G) (a : κ × ι) :
    ((offer next cap s a).held a.1).length =
      if (s.held a.1).length < cap then (s.held a.1).length + 1 else (s.held a.1).length := by
  rw [offer_held]
  split_ifs
  · rw [Function.update_self, List.length_append, List.length_singleton]
  · rw [Function.update_self, List.length_set]
  · rfl

theorem offer_held_of_ne (s : State κ ι G) {a : κ × ι} {k : κ} (hk : k ≠ a.1) :
    (offer next cap s a).held k = s.held k := by
  rw [offer_held]
  split_ifs
  · rw [Function.update_of_ne hk]
  · rw [Function.update_of_ne hk]
  · rfl

variable (next cap) in
/-- What is seen and how much is held does not depend on the draws. -/
theorem fill_counts (items : List (κ × ι)) (g : G) (k : κ) :
    (fill next cap items (start g)).seen k = (items.map Prod.fst).count k ∧
      ((fill next cap items (start g)).held k).length =
        min ((items.map Prod.fst).count k) cap := by
  induction items using List.reverseRecOn with
  | nil => simp [fill, start]
  | append_singleton items a ih =>
    rw [fill_snoc, offer_seen, List.map_append, List.map_singleton, List.count_append,
      List.count_singleton]
    by_cases hk : k = a.1
    · subst hk
      rw [Function.update_self, ih.1, offer_length_self, ih.2, beq_self_eq_true, if_pos rfl]
      refine ⟨rfl, ?_⟩
      split_ifs <;> omega
    · have hother : (a.1 == k) = false := beq_false_of_ne (Ne.symm hk)
      rw [Function.update_of_ne hk, ih.1, offer_held_of_ne _ hk, ih.2, hother]
      exact ⟨rfl, rfl⟩

/-- A generator that notes the bounds it is asked for. -/
def logged (next : G → Nat → Nat × G) (g : G × List Nat) (n : Nat) : Nat × G × List Nat :=
  let d := next g.1 n
  (d.1, d.2, g.2 ++ [n])

/-- Whatever is drawn, the bounds of the draws are these. -/
theorem fill_logged (items : List (κ × ι)) (g : G) :
    (fill (logged next) cap items (start (g, []))).rng.2 = bounds cap (items.map Prod.fst) := by
  induction items using List.reverseRecOn with
  | nil => rfl
  | append_singleton items a ih =>
    obtain ⟨hseen, hlength⟩ := fill_counts (logged next) cap items (g, []) a.1
    rw [fill_snoc, List.map_append, List.map_singleton, bounds_snoc, ← ih]
    unfold offer
    dsimp only
    rw [hlength, hseen]
    by_cases hfull : cap ≤ (items.map Prod.fst).count a.1
    · rw [if_neg (by omega), if_pos hfull]
      rfl
    · rw [if_pos (by omega), if_neg hfull, List.append_nil]

def State.map {ι' : Type*} (f : ι → ι') (s : State κ ι G) : State κ ι' G :=
  ⟨s.seen, fun k => (s.held k).map f, s.rng⟩

variable (next cap) in
/-- The items themselves play no part. -/
theorem fill_map {ι' : Type*} (f : ι → ι') (items : List (κ × ι)) (s : State κ ι G) :
    fill next cap (items.map fun a => (a.1, f a.2)) (s.map f) = (fill next cap items s).map f := by
  induction items generalizing s with
  | nil => rfl
  | cons a items ih =>
    have hstep : offer next cap (s.map f) (a.1, f a.2) = (offer next cap s a).map f := by
      have hupdate : ∀ b : List ι, Function.update (s.map f).held a.1 (b.map f) =
          fun k => (Function.update s.held a.1 b k).map f := by
        intro b
        funext k
        by_cases hk : k = a.1
        · rw [hk, Function.update_self, Function.update_self]
        · rw [Function.update_of_ne hk, Function.update_of_ne hk]
          rfl
      have happend := hupdate (s.held a.1 ++ [a.2])
      have hset := hupdate ((s.held a.1).set (next s.rng (s.seen a.1 + 1)).1 a.2)
      rw [List.map_append, List.map_singleton] at happend
      rw [List.map_set] at hset
      unfold offer
      rw [show ((s.map f).held a.1).length = (s.held a.1).length from List.length_map ..]
      split_ifs
      · exact congrArg (fun h => State.mk _ h _) happend
      · dsimp only [State.map] at hset ⊢
        rw [hset]
        split_ifs <;> rfl
    rw [List.map_cons, fill, List.foldl_cons]
    rw [hstep]
    exact ih _

/-- The items held are those at the positions held. -/
theorem fill_positions (items : List (κ × ι)) (g : G) (k : κ) :
    ((fill next cap items (start g)).held k).map some =
      ((fill next cap (items.map Prod.fst).zipIdx (start g)).held k).map
        fun i => (items[i]?).map Prod.snd := by
  have hitems : (items.map fun a => (a.1, some a.2)) =
      (items.map Prod.fst).zipIdx.map fun p => (p.1, (items[p.2]?).map Prod.snd) := by
    refine List.ext_getElem? fun i => ?_
    rw [List.getElem?_map, List.getElem?_map, List.getElem?_zipIdx, List.getElem?_map]
    cases hi : items[i]? with
    | none => rfl
    | some a => simp [hi]
  have hsome := fill_map next cap some items (start g)
  have hpos := fill_map next cap (fun i : Nat => (items[i]?).map Prod.snd)
    (items.map Prod.fst).zipIdx (start g)
  rw [hitems] at hsome
  exact congrArg (fun s => State.held s k) (hsome.symm.trans hpos)

end Generators

/-- The draws of a vector, one after the other. -/
def replay (v : List Nat) (_ : Nat) : Nat × List Nat := (v.headD 0, v.tail)

/-- The reservoirs of the positions of the keys. -/
def heldAt (cap : Nat) (keys : List κ) (v : List Nat) : κ → List Nat :=
  (fill replay cap keys.zipIdx (start v)).held

/-- The reservoirs after the draws of one vector. -/
structure Filled (cap : Nat) (keys : List κ) (s : State κ Nat (List Nat)) : Prop where
  seen : ∀ k, s.seen k = keys.count k
  length : ∀ k, (s.held k).length = min (keys.count k) cap
  nodup : ∀ k, (s.held k).Nodup
  within : ∀ k, ∀ i ∈ s.held k, keys[i]? = some k

variable {cap : Nat} {keys : List κ} {k : κ}

/-- A reservoir with room takes the item. -/
theorem Filled.append {s : State κ Nat (List Nat)} (h : Filled cap keys s)
    (hroom : keys.count k < cap) (g : List Nat) :
    offer replay cap { s with rng := g } (k, keys.length) =
      ⟨Function.update s.seen k (keys.count k + 1),
        Function.update s.held k (s.held k ++ [keys.length]), g⟩ := by
  unfold offer
  dsimp only
  rw [if_pos (by rw [h.length]; omega), h.seen]

/-- A full reservoir draws. -/
theorem Filled.draw {s : State κ Nat (List Nat)} (h : Filled cap keys s)
    (hfull : cap ≤ keys.count k) (r : Nat) (g : List Nat) :
    offer replay cap { s with rng := r :: g } (k, keys.length) =
      ⟨Function.update s.seen k (keys.count k + 1),
        if r < cap then Function.update s.held k ((s.held k).set r keys.length) else s.held, g⟩ := by
  unfold offer replay
  dsimp only
  rw [if_neg (by rw [h.length]; omega), h.seen]
  rfl

theorem count_snoc (keys : List κ) (k k' : κ) :
    (keys ++ [k']).count k = keys.count k + if k' = k then 1 else 0 := by
  rw [List.count_append, List.count_singleton]
  simp only [beq_iff_eq]

theorem seen_update {s : State κ Nat (List Nat)} (h : Filled cap keys s) (k k' : κ) :
    Function.update s.seen k (keys.count k + 1) k' = (keys ++ [k]).count k' := by
  rw [count_snoc]
  by_cases hk : k = k'
  · rw [if_pos hk, ← hk, Function.update_self]
  · rw [if_neg hk, Function.update_of_ne (Ne.symm hk), h.seen, add_zero]

theorem length_notMem {s : State κ Nat (List Nat)} (h : Filled cap keys s) (k : κ) :
    keys.length ∉ s.held k := by
  intro hmem
  have hget := h.within k _ hmem
  rw [List.getElem?_eq_none (le_refl _)] at hget
  exact absurd hget (by simp)

/-- What one more item leaves in the reservoirs. -/
theorem Filled.of_held {s : State κ Nat (List Nat)} (h : Filled cap keys s) (k : κ)
    {bucket g : List Nat} {held : κ → List Nat} (hself : held k = bucket)
    (hother : ∀ k', k' ≠ k → held k' = s.held k')
    (hlength : bucket.length = min (keys.count k + 1) cap) (hnodup : bucket.Nodup)
    (hfrom : ∀ i ∈ bucket, i ∈ s.held k ∨ i = keys.length) :
    Filled cap (keys ++ [k])
      ⟨Function.update s.seen k (keys.count k + 1), held, g⟩ := by
  constructor
  · exact seen_update h k
  · intro k'
    dsimp only
    by_cases hk : k' = k
    · rw [hk, hself, hlength, count_snoc, if_pos rfl]
    · rw [hother k' hk, h.length, count_snoc, if_neg (Ne.symm hk), add_zero]
  · intro k'
    dsimp only
    by_cases hk : k' = k
    · rw [hk, hself]
      exact hnodup
    · rw [hother k' hk]
      exact h.nodup k'
  · intro k' i hi
    dsimp only at hi
    by_cases hk : k' = k
    · rw [hk, hself] at hi
      rw [hk]
      rcases hfrom i hi with hold | rfl
      · exact getElem?_snoc_of_some (h.within k i hold)
      · rw [List.getElem?_append_right (le_refl _), Nat.sub_self]
        rfl
    · rw [hother k' hk] at hi
      exact getElem?_snoc_of_some (h.within k' i hi)

theorem nodup_set {l : List Nat} {r p : Nat} (hnodup : l.Nodup) (hp : p ∉ l) : (l.set r p).Nodup := by
  induction l generalizing r with
  | nil => exact List.nodup_nil
  | cons x l ih =>
    obtain ⟨hx, hl⟩ := List.nodup_cons.mp hnodup
    rw [List.mem_cons, not_or] at hp
    cases r with
    | zero => exact List.nodup_cons.mpr ⟨hp.2, hl⟩
    | succ r =>
      refine List.nodup_cons.mpr ⟨fun hmem => ?_, ih hl hp.2⟩
      rcases List.mem_or_eq_of_mem_set hmem with hold | heq
      · exact hx hold
      · exact hp.1 heq.symm

theorem Filled.offer_append {s : State κ Nat (List Nat)} (h : Filled cap keys s)
    (hroom : keys.count k < cap) (g : List Nat) :
    Filled cap (keys ++ [k]) (offer replay cap { s with rng := g } (k, keys.length)) := by
  rw [h.append hroom]
  refine h.of_held k (Function.update_self ..) (fun k' hk => Function.update_of_ne hk ..) ?_ ?_ ?_
  · rw [List.length_append, h.length, List.length_singleton]
    omega
  · rw [List.nodup_append]
    refine ⟨h.nodup k, List.nodup_singleton _, fun i hi j hj hij => ?_⟩
    rw [List.mem_singleton.mp hj] at hij
    exact length_notMem h k (hij ▸ hi)
  · intro i hi
    exact (List.mem_append.mp hi).imp_right List.mem_singleton.mp

theorem Filled.offer_draw {s : State κ Nat (List Nat)} (h : Filled cap keys s)
    (hfull : cap ≤ keys.count k) (r : Nat) (g : List Nat) :
    Filled cap (keys ++ [k]) (offer replay cap { s with rng := r :: g } (k, keys.length)) := by
  rw [h.draw hfull]
  have hlength := h.length k
  split_ifs with hr
  · refine h.of_held k (Function.update_self ..) (fun k' hk => Function.update_of_ne hk ..) ?_ ?_ ?_
    · rw [List.length_set, hlength]
      omega
    · exact nodup_set (h.nodup k) (length_notMem h k)
    · exact fun i hi => List.mem_or_eq_of_mem_set hi
  · refine h.of_held k rfl (fun _ _ => rfl) ?_ (h.nodup k) (fun i hi => Or.inl hi)
    omega

/-- The draws of a vector fill the reservoirs and are used up. -/
theorem fill_replay (cap : Nat) (keys : List κ) {v : List Nat} (hv : v ∈ outcomes (bounds cap keys)) :
    Filled cap keys (fill replay cap keys.zipIdx (start v)) ∧
      ∀ w, fill replay cap keys.zipIdx (start (v ++ w)) =
        { fill replay cap keys.zipIdx (start v) with rng := w } := by
  induction keys using List.reverseRecOn generalizing v with
  | nil =>
    obtain rfl : v = [] := by simpa [bounds, boundsFrom, outcomes] using hv
    exact ⟨⟨fun _ => rfl, fun _ => by simp [fill, start], fun _ => List.nodup_nil,
      fun _ i hi => absurd hi List.not_mem_nil⟩, fun _ => rfl⟩
  | append_singleton keys k ih =>
    have hsplit : ∀ g : List Nat, fill replay cap (keys.zipIdx ++ [(k, keys.length)]) (start g) =
        offer replay cap (fill replay cap keys.zipIdx (start g)) (k, keys.length) := fun g =>
      fill_snoc _ _ _
    rw [bounds_snoc] at hv
    rw [zipIdx_snoc]
    by_cases hfull : cap ≤ keys.count k
    · rw [if_pos hfull] at hv
      obtain ⟨u, hu, r, -, rfl⟩ := mem_outcomes_snoc.mp hv
      obtain ⟨hfilled, hrest⟩ := ih hu
      have hrun : ∀ w, fill replay cap (keys.zipIdx ++ [(k, keys.length)]) (start (u ++ r :: w)) =
          offer replay cap { fill replay cap keys.zipIdx (start u) with rng := r :: w }
            (k, keys.length) := by
        intro w
        rw [← hrest (r :: w)]
        exact hsplit _
      refine ⟨?_, fun w => ?_⟩
      · rw [hrun []]
        exact hfilled.offer_draw hfull r []
      · rw [List.append_assoc, List.singleton_append, hrun w, hrun [], hfilled.draw hfull,
          hfilled.draw hfull]
    · rw [if_neg hfull, List.append_nil] at hv
      obtain ⟨hfilled, hrest⟩ := ih hv
      have hroom := not_le.mp hfull
      have hrun : ∀ w, fill replay cap (keys.zipIdx ++ [(k, keys.length)]) (start (v ++ w)) =
          offer replay cap { fill replay cap keys.zipIdx (start v) with rng := w }
            (k, keys.length) := by
        intro w
        rw [← hrest w]
        exact hsplit _
      have hnone := hrun []
      rw [List.append_nil] at hnone
      refine ⟨?_, fun w => ?_⟩
      · rw [hnone]
        exact hfilled.offer_append hroom []
      · rw [hrun w, hnone, hfilled.append hroom, hfilled.append hroom]

/-! ### The law of the reservoirs -/

/-- The positions of the key. -/
def occurrences (keys : List κ) (k : κ) : Finset Nat :=
  (Finset.range keys.length).filter fun i => keys[i]? = some k

theorem mem_occurrences {i : Nat} : i ∈ occurrences keys k ↔ keys[i]? = some k := by
  unfold occurrences
  rw [Finset.mem_filter, Finset.mem_range]
  exact ⟨fun h => h.2, fun h => ⟨(List.getElem?_eq_some_iff.mp h).1, h⟩⟩

theorem occurrences_snoc (keys : List κ) (k k' : κ) :
    occurrences (keys ++ [k']) k =
      if k' = k then insert keys.length (occurrences keys k) else occurrences keys k := by
  ext i
  rw [mem_occurrences]
  have hlast : (keys ++ [k'])[keys.length]? = some k' := by simp
  by_cases hi : i = keys.length
  · subst hi
    rw [hlast, Option.some.injEq]
    split_ifs with hk
    · simp [hk]
    · simp [hk, mem_occurrences]
  · have hold : (keys ++ [k'])[i]? = some k ↔ keys[i]? = some k := by
      rcases Nat.lt_or_gt_of_ne hi with hlt | hgt
      · rw [List.getElem?_append_left hlt]
      · rw [List.getElem?_eq_none (by simp; omega), List.getElem?_eq_none (by omega)]
    rw [hold]
    split_ifs
    · rw [Finset.mem_insert, mem_occurrences]
      exact ⟨Or.inr, fun h => h.resolve_left hi⟩
    · rw [mem_occurrences]

theorem card_occurrences (keys : List κ) (k : κ) : (occurrences keys k).card = keys.count k := by
  induction keys using List.reverseRecOn with
  | nil => rfl
  | append_singleton keys k' ih =>
    rw [occurrences_snoc, count_snoc]
    split_ifs
    · rw [Finset.card_insert_of_notMem, ih]
      rw [mem_occurrences, List.getElem?_eq_none (le_refl _)]
      simp
    · rw [ih, add_zero]

/-- One full-sized set of positions for every key of `K`. -/
def Sizes (cap : Nat) (keys : List κ) (K : Finset κ) (S : κ → Finset Nat) : Prop :=
  ∀ k ∈ K, S k ⊆ occurrences keys k ∧ (S k).card = min (keys.count k) cap

/-- The reservoirs of the keys of `K` hold these sets. -/
def Holds (cap : Nat) (keys : List κ) (K : Finset κ) (S : κ → Finset Nat) (v : List Nat) : Prop :=
  ∀ k ∈ K, (heldAt cap keys v k).toFinset = S k

instance (cap : Nat) (keys : List κ) (K : Finset κ) (S : κ → Finset Nat) :
    DecidablePred (Holds cap keys K S) :=
  fun _ => inferInstanceAs (Decidable (∀ k ∈ K, _))

/-- The number of vectors that leave these sets. -/
def ways (cap : Nat) (keys : List κ) (K : Finset κ) (S : κ → Finset Nat) : Nat :=
  ((outcomes (bounds cap keys)).filter (Holds cap keys K S)).card

/-- The number of choices of such sets. -/
def choices (cap : Nat) (keys : List κ) (K : Finset κ) : Nat :=
  ∏ k ∈ K, (keys.count k).choose (min (keys.count k) cap)

variable {v : List Nat}

theorem heldAt_filled (hv : v ∈ outcomes (bounds cap keys)) :
    Filled cap keys (fill replay cap keys.zipIdx (start v)) :=
  (fill_replay cap keys hv).1

theorem heldAt_length (hv : v ∈ outcomes (bounds cap keys)) (k : κ) :
    (heldAt cap keys v k).length = min (keys.count k) cap :=
  (heldAt_filled hv).length k

theorem heldAt_nodup (hv : v ∈ outcomes (bounds cap keys)) (k : κ) :
    (heldAt cap keys v k).Nodup :=
  (heldAt_filled hv).nodup k

theorem heldAt_within (hv : v ∈ outcomes (bounds cap keys)) {i : Nat}
    (hi : i ∈ heldAt cap keys v k) : keys[i]? = some k :=
  (heldAt_filled hv).within k i hi

theorem length_notMem_heldAt (hv : v ∈ outcomes (bounds cap keys)) (k : κ) :
    keys.length ∉ heldAt cap keys v k :=
  length_notMem (heldAt_filled hv) k

/-- With room the last position is held. -/
theorem heldAt_append (hroom : keys.count k < cap) (hv : v ∈ outcomes (bounds cap keys)) :
    heldAt cap (keys ++ [k]) v =
      Function.update (heldAt cap keys v) k (heldAt cap keys v k ++ [keys.length]) := by
  have hstep := (heldAt_filled hv).append hroom (fill replay cap keys.zipIdx (start v)).rng
  unfold heldAt
  rw [zipIdx_snoc, fill, List.foldl_append]
  exact congrArg State.held hstep

/-- Without room it is drawn for. -/
theorem heldAt_draw (hfull : cap ≤ keys.count k) (hv : v ∈ outcomes (bounds cap keys)) (r : Nat) :
    heldAt cap (keys ++ [k]) (v ++ [r]) =
      if r < cap then
        Function.update (heldAt cap keys v) k ((heldAt cap keys v k).set r keys.length)
      else heldAt cap keys v := by
  obtain ⟨hfilled, hrest⟩ := fill_replay cap keys hv
  have hstep := hfilled.draw hfull r []
  unfold heldAt
  rw [zipIdx_snoc, fill, List.foldl_append]
  rw [← hrest [r]] at hstep
  exact congrArg State.held hstep

/-- A replaced place takes its element away and brings the new one. -/
theorem toFinset_set {l : List Nat} {r p : Nat} (hnodup : l.Nodup) (hr : r < l.length) :
    (l.set r p).toFinset = insert p (l.toFinset.erase (l.getD r 0)) := by
  have hsplit : l.take r ++ l.getD r 0 :: l.drop (r + 1) = l := by
    rw [List.getD_eq_getElem _ _ hr, ← List.drop_eq_getElem_cons hr, List.take_append_drop]
  have hout := hnodup
  rw [← hsplit, List.nodup_append, List.nodup_cons] at hout
  obtain ⟨-, ⟨hdrop, -⟩, hdisjoint⟩ := hout
  have htake : l.getD r 0 ∉ l.take r := fun hmem => hdisjoint _ hmem _ List.mem_cons_self rfl
  rw [List.set_eq_take_append_cons_drop, if_pos hr]
  ext x
  have hmem : x ∈ l ↔ x ∈ l.take r ∨ x = l.getD r 0 ∨ x ∈ l.drop (r + 1) := by
    rw [← List.mem_cons, ← List.mem_append, hsplit]
  rw [List.mem_toFinset, List.mem_append, List.mem_cons, Finset.mem_insert, Finset.mem_erase,
    List.mem_toFinset, hmem]
  constructor
  · rintro (hx | rfl | hx)
    · exact Or.inr ⟨fun heq => htake (heq ▸ hx), Or.inl hx⟩
    · exact Or.inl rfl
    · exact Or.inr ⟨fun heq => hdrop (heq ▸ hx), Or.inr (Or.inr hx)⟩
  · rintro (rfl | ⟨hne, hx | hx | hx⟩)
    · exact Or.inr (Or.inl rfl)
    · exact Or.inl hx
    · exact absurd hx hne
    · exact Or.inr (Or.inr hx)

/-- The draws that turn one reservoir into the set `S` with the new position: one for every
position that completes the rest of `S` to the reservoir. -/
theorem card_replacing {l : List Nat} {S occ : Finset Nat} {p n : Nat} (hnodup : l.Nodup)
    (hp : p ∉ l) (hocc : ∀ i ∈ l, i ∈ occ) (hpS : p ∈ S) (hn : l.length ≤ n) :
    ((Finset.range n).filter fun r => r < l.length ∧ (l.set r p).toFinset = S).card =
      ((occ \ S).filter fun q => l.toFinset = insert q (S.erase p)).card := by
  have hpl : p ∉ l.toFinset := by rwa [List.mem_toFinset]
  refine Finset.card_bij (fun r _ => l.getD r 0) ?_ ?_ ?_
  · intro r hr
    obtain ⟨-, hlt, heq⟩ := Finset.mem_filter.mp hr
    rw [toFinset_set hnodup hlt] at heq
    have hmem : l.getD r 0 ∈ l := by
      rw [List.getD_eq_getElem _ _ hlt]
      exact List.getElem_mem hlt
    have hne : l.getD r 0 ≠ p := fun h => hp (h ▸ hmem)
    have hrest : S.erase p = l.toFinset.erase (l.getD r 0) := by
      rw [← heq, Finset.erase_insert fun h => hpl (Finset.mem_erase.mp h).2]
    rw [Finset.mem_filter, Finset.mem_sdiff, hrest, Finset.insert_erase (List.mem_toFinset.mpr hmem)]
    refine ⟨⟨hocc _ hmem, fun hS => ?_⟩, rfl⟩
    rw [← heq, Finset.mem_insert] at hS
    rcases hS with h | h
    · exact hne h
    · exact absurd rfl (Finset.mem_erase.mp h).1
  · intro r hr r' hr' heq
    obtain ⟨-, hlt, -⟩ := Finset.mem_filter.mp hr
    obtain ⟨-, hlt', -⟩ := Finset.mem_filter.mp hr'
    rw [List.getD_eq_getElem _ _ hlt, List.getD_eq_getElem _ _ hlt'] at heq
    exact (hnodup.getElem_inj_iff).mp heq
  · intro q hq
    obtain ⟨hmem, heq⟩ := Finset.mem_filter.mp hq
    obtain ⟨-, hqS⟩ := Finset.mem_sdiff.mp hmem
    have hql : q ∈ l := by
      rw [← List.mem_toFinset, heq]
      exact Finset.mem_insert_self _ _
    obtain ⟨r, hlt, hget⟩ := List.mem_iff_getElem.mp hql
    have hgetD : l.getD r 0 = q := by rw [List.getD_eq_getElem _ _ hlt, hget]
    refine ⟨r, Finset.mem_filter.mpr ⟨Finset.mem_range.mpr (by omega), hlt, ?_⟩, hgetD⟩
    rw [toFinset_set hnodup hlt, hgetD, heq,
      Finset.erase_insert fun h => hqS (Finset.mem_erase.mp h).2, Finset.insert_erase hpS]

/-- The law for the keys so far. -/
def Uniform (cap : Nat) (keys : List κ) : Prop :=
  ∀ (K : Finset κ) (S : κ → Finset Nat), Sizes cap keys K S →
    ways cap keys K S * choices cap keys K = (outcomes (bounds cap keys)).card

theorem choices_erase {K : Finset κ} (hk : k ∈ K) :
    choices cap keys K =
      (keys.count k).choose (min (keys.count k) cap) * choices cap keys (K.erase k) :=
  (Finset.mul_prod_erase K _ hk).symm

/-- The choices for other keys do not change. -/
theorem choices_snoc_of_notMem {K : Finset κ} (hk : k ∉ K) :
    choices cap (keys ++ [k]) K = choices cap keys K := by
  refine Finset.prod_congr rfl fun k' hk' => ?_
  have hne : k ≠ k' := fun heq => hk (heq ▸ hk')
  rw [count_snoc, if_neg hne, add_zero]

theorem Sizes.of_snoc_of_notMem {K : Finset κ} {S : κ → Finset Nat} (hk : k ∉ K)
    (h : Sizes cap (keys ++ [k]) K S) : Sizes cap keys K S := by
  intro k' hk'
  have hne : k ≠ k' := fun heq => hk (heq ▸ hk')
  obtain ⟨hsub, hcard⟩ := h k' hk'
  rw [occurrences_snoc, if_neg hne] at hsub
  rw [count_snoc, if_neg hne, add_zero] at hcard
  exact ⟨hsub, hcard⟩

/-- Sets for all keys of `K`, the one of `k` chosen anew. -/
theorem Sizes.update {K : Finset κ} {S : κ → Finset Nat} {T : Finset Nat}
    (h : Sizes cap (keys ++ [k]) K S) (hsub : T ⊆ occurrences keys k)
    (hcard : T.card = min (keys.count k) cap) : Sizes cap keys K (Function.update S k T) := by
  intro k' hk'
  by_cases hkk : k' = k
  · rw [hkk, Function.update_self]
    exact ⟨hsub, hcard⟩
  · rw [Function.update_of_ne hkk]
    obtain ⟨hsub', hcard'⟩ := h k' hk'
    rw [occurrences_snoc, if_neg (Ne.symm hkk)] at hsub'
    rw [count_snoc, if_neg (Ne.symm hkk), add_zero] at hcard'
    exact ⟨hsub', hcard'⟩

theorem holds_update {K : Finset κ} {S : κ → Finset Nat} {T : Finset Nat} (hk : k ∈ K) :
    Holds cap keys K (Function.update S k T) v ↔
      (heldAt cap keys v k).toFinset = T ∧ Holds cap keys (K.erase k) S v := by
  constructor
  · intro h
    refine ⟨by simpa using h k hk, fun k' hk' => ?_⟩
    obtain ⟨hne, hmem⟩ := Finset.mem_erase.mp hk'
    simpa [hne] using h k' hmem
  · rintro ⟨hself, hrest⟩ k' hk'
    by_cases hkk : k' = k
    · rw [hkk, Function.update_self, hself]
    · rw [Function.update_of_ne hkk]
      exact hrest k' (Finset.mem_erase.mpr ⟨hkk, hk'⟩)

theorem holds_iff {K : Finset κ} {S : κ → Finset Nat} (hk : k ∈ K) :
    Holds cap keys K S v ↔
      (heldAt cap keys v k).toFinset = S k ∧ Holds cap keys (K.erase k) S v := by
  rw [← holds_update hk, Function.update_eq_self]

/-- Another key changes nothing for the keys of `K`. -/
theorem holds_snoc_of_notMem {K : Finset κ} {S : κ → Finset Nat} (hk : k ∉ K)
    (hv : v ∈ outcomes (bounds cap keys)) {w : List Nat}
    (hw : (keys.count k < cap ∧ w = v) ∨ (cap ≤ keys.count k ∧ ∃ r, w = v ++ [r])) :
    Holds cap (keys ++ [k]) K S w ↔ Holds cap keys K S v := by
  have hsame : ∀ k' ∈ K, heldAt cap (keys ++ [k]) w k' = heldAt cap keys v k' := by
    intro k' hk'
    have hne : k' ≠ k := fun heq => hk (heq ▸ hk')
    rcases hw with ⟨hroom, rfl⟩ | ⟨hfull, r, rfl⟩
    · rw [heldAt_append hroom hv, Function.update_of_ne hne]
    · rw [heldAt_draw hfull hv]
      split_ifs
      · rw [Function.update_of_ne hne]
      · rfl
  exact forall₂_congr fun k' hk' => by rw [hsame k' hk']

/-- An item that its key takes without a draw. -/
theorem Uniform.snoc_append (h : Uniform cap keys) (hroom : keys.count k < cap) :
    Uniform cap (keys ++ [k]) := by
  intro K S hS
  have hbounds : bounds cap (keys ++ [k]) = bounds cap keys := by
    rw [bounds_snoc, if_neg (by omega), List.append_nil]
  rw [ways, hbounds]
  by_cases hk : k ∈ K
  · obtain ⟨hsub, hcard⟩ := hS k hk
    rw [occurrences_snoc, if_pos rfl] at hsub
    rw [count_snoc, if_pos rfl] at hcard
    have hnew : keys.length ∉ occurrences keys k := by
      rw [mem_occurrences, List.getElem?_eq_none (le_refl _)]
      simp
    -- all positions of the key are held, the new one among them
    have hall : S k = insert keys.length (occurrences keys k) := by
      refine Finset.eq_of_subset_of_card_le hsub ?_
      rw [Finset.card_insert_of_notMem hnew, card_occurrences, hcard]
      omega
    have hholds : ∀ v ∈ outcomes (bounds cap keys), Holds cap (keys ++ [k]) K S v ↔
        Holds cap keys K (Function.update S k (occurrences keys k)) v := by
      intro v hv
      have hout : keys.length ∉ (heldAt cap keys v k).toFinset := fun hmem =>
        length_notMem_heldAt hv k (List.mem_toFinset.mp hmem)
      rw [holds_update hk, holds_iff hk,
        holds_snoc_of_notMem (Finset.notMem_erase k K) hv (Or.inl ⟨hroom, rfl⟩),
        heldAt_append hroom hv, Function.update_self, hall]
      refine and_congr_left' ?_
      have hsnoc : (heldAt cap keys v k ++ [keys.length]).toFinset =
          insert keys.length (heldAt cap keys v k).toFinset := by
        ext x
        simp
      rw [hsnoc]
      constructor
      · intro heq
        rw [← Finset.erase_insert hout, heq, Finset.erase_insert hnew]
      · intro heq
        rw [heq]
    rw [Finset.filter_congr hholds]
    have hsizes := hS.update (T := occurrences keys k) (Finset.Subset.refl _)
      (by rw [card_occurrences]; omega)
    have hone := h K _ hsizes
    rw [choices_erase hk] at hone ⊢
    rw [choices_snoc_of_notMem (Finset.notMem_erase k K), count_snoc, if_pos rfl,
      Nat.min_eq_left (by omega), Nat.choose_self]
    rwa [Nat.min_eq_left hroom.le, Nat.choose_self] at hone
  · have hholds : ∀ v ∈ outcomes (bounds cap keys),
        Holds cap (keys ++ [k]) K S v ↔ Holds cap keys K S v := fun v hv =>
      holds_snoc_of_notMem hk hv (Or.inl ⟨hroom, rfl⟩)
    rw [Finset.filter_congr hholds, choices_snoc_of_notMem hk]
    exact h K S (hS.of_snoc_of_notMem hk)

/-- A set without the new position is left by every draw past the places. -/
theorem card_draws_without {K : Finset κ} {S : κ → Finset Nat} (hk : k ∈ K)
    (hfull : cap ≤ keys.count k) (hp : keys.length ∉ S k) (hv : v ∈ outcomes (bounds cap keys)) :
    ((Finset.range (keys.count k + 1)).filter fun r =>
        Holds cap (keys ++ [k]) K S (v ++ [r])).card =
      if Holds cap keys K S v then keys.count k + 1 - cap else 0 := by
  have hiff : ∀ r ∈ Finset.range (keys.count k + 1), Holds cap (keys ++ [k]) K S (v ++ [r]) ↔
      cap ≤ r ∧ Holds cap keys K S v := by
    intro r _
    rw [holds_iff hk, holds_snoc_of_notMem (Finset.notMem_erase k K) hv
      (Or.inr ⟨hfull, r, rfl⟩), heldAt_draw hfull hv, holds_iff hk]
    by_cases hr : r < cap
    · rw [if_pos hr, Function.update_self]
      have hlt : r < (heldAt cap keys v k).length := by
        rw [heldAt_length hv k]
        omega
      rw [toFinset_set (heldAt_nodup hv k) hlt]
      constructor
      · rintro ⟨heq, -⟩
        exact absurd (heq ▸ Finset.mem_insert_self _ _) hp
      · rintro ⟨hge, -⟩
        omega
    · rw [if_neg hr]
      exact ⟨fun hh => ⟨not_lt.mp hr, hh⟩, fun hh => hh.2⟩
  rw [Finset.filter_congr hiff]
  split_ifs with hholds
  · have hset : ((Finset.range (keys.count k + 1)).filter fun r =>
        cap ≤ r ∧ Holds cap keys K S v) = Finset.Ico cap (keys.count k + 1) := by
      ext r
      simp only [Finset.mem_filter, Finset.mem_range, Finset.mem_Ico]
      exact ⟨fun hh => ⟨hh.2.1, hh.1⟩, fun hh => ⟨hh.2, hh.1, hholds⟩⟩
    rw [hset, Nat.card_Ico]
  · rw [Finset.card_eq_zero, Finset.filter_eq_empty_iff]
    exact fun r _ hh => hholds hh.2

/-- A set with the new position is left by one draw for every position that completes the
rest of the set. -/
theorem card_draws_with {K : Finset κ} {S : κ → Finset Nat} (hk : k ∈ K)
    (hfull : cap ≤ keys.count k) (hp : keys.length ∈ S k) (hv : v ∈ outcomes (bounds cap keys)) :
    ((Finset.range (keys.count k + 1)).filter fun r =>
        Holds cap (keys ++ [k]) K S (v ++ [r])).card =
      ((occurrences keys k \ S k).filter fun q => Holds cap keys K
        (Function.update S k (insert q ((S k).erase keys.length))) v).card := by
  have hlength : (heldAt cap keys v k).length = cap := by
    rw [heldAt_length hv k, Nat.min_eq_right hfull]
  have hiff : ∀ r ∈ Finset.range (keys.count k + 1), Holds cap (keys ++ [k]) K S (v ++ [r]) ↔
      (r < (heldAt cap keys v k).length ∧ ((heldAt cap keys v k).set r keys.length).toFinset = S k) ∧
        Holds cap keys (K.erase k) S v := by
    intro r _
    rw [holds_iff hk, holds_snoc_of_notMem (Finset.notMem_erase k K) hv
      (Or.inr ⟨hfull, r, rfl⟩), heldAt_draw hfull hv, hlength]
    refine and_congr_left' ?_
    by_cases hr : r < cap
    · rw [if_pos hr, Function.update_self]
      exact ⟨fun hh => ⟨hr, hh⟩, fun hh => hh.2⟩
    · rw [if_neg hr]
      constructor
      · intro heq
        have hmem := heq.symm ▸ hp
        exact absurd (List.mem_toFinset.mp hmem) (length_notMem_heldAt hv k)
      · rintro ⟨hlt, -⟩
        exact absurd hlt hr
  rw [Finset.filter_congr hiff, Finset.filter_congr fun q _ => holds_update hk]
  by_cases hrest : Holds cap keys (K.erase k) S v
  · simp only [hrest, and_true]
    refine card_replacing (heldAt_nodup hv k) (length_notMem_heldAt hv k) (fun i hi => ?_) hp
      (by omega)
    exact mem_occurrences.mpr (heldAt_within hv hi)
  · simp only [hrest, and_false, Finset.filter_false, Finset.card_empty]

/-- The sets for the key that the next draw may turn into `S k`. -/
theorem ways_snoc_draw {K : Finset κ} {S : κ → Finset Nat} (hk : k ∈ K)
    (hfull : cap ≤ keys.count k) :
    ways cap (keys ++ [k]) K S =
      if keys.length ∈ S k then ∑ q ∈ occurrences keys k \ S k,
        ways cap keys K (Function.update S k (insert q ((S k).erase keys.length)))
      else (keys.count k + 1 - cap) * ways cap keys K S := by
  rw [ways, bounds_snoc, if_pos hfull, card_filter_outcomes_snoc]
  split_ifs with hp
  · rw [Finset.sum_congr rfl fun v hv => card_draws_with hk hfull hp hv]
    simp only [Finset.card_filter, ways]
    exact Finset.sum_comm
  · rw [Finset.sum_congr rfl fun v hv => card_draws_without hk hfull hp hv, ways,
      Finset.card_filter, Finset.mul_sum]
    refine Finset.sum_congr rfl fun v _ => ?_
    rw [mul_ite, mul_one, mul_zero]

/-- An item for which a full reservoir draws. -/
theorem Uniform.snoc_draw (h : Uniform cap keys) (hfull : cap ≤ keys.count k) :
    Uniform cap (keys ++ [k]) := by
  intro K S hS
  have hcard : (outcomes (bounds cap (keys ++ [k]))).card =
      (keys.count k + 1) * (outcomes (bounds cap keys)).card := by
    rw [bounds_snoc, if_pos hfull, card_outcomes_snoc]
  rw [hcard]
  by_cases hk : k ∈ K
  · obtain ⟨hsub, hsize⟩ := hS k hk
    rw [occurrences_snoc, if_pos rfl] at hsub
    rw [count_snoc, if_pos rfl, Nat.min_eq_right (by omega)] at hsize
    rw [ways_snoc_draw hk hfull, choices_erase hk, choices_snoc_of_notMem (Finset.notMem_erase k K),
      count_snoc, if_pos rfl, Nat.min_eq_right (by omega : cap ≤ keys.count k + 1)]
    have hpascal : (keys.count k).choose cap * (keys.count k + 1) =
        (keys.count k + 1).choose cap * (keys.count k + 1 - cap) := Nat.choose_mul_succ_eq _ _
    -- every set that the draw starts from is held equally often
    have heach : ∀ T, T ⊆ occurrences keys k → T.card = cap →
        ways cap keys K (Function.update S k T) *
          ((keys.count k).choose cap * choices cap keys (K.erase k)) =
            (outcomes (bounds cap keys)).card := by
      intro T hT hTcard
      have hone := h K _ (hS.update hT (by rw [hTcard, Nat.min_eq_right hfull]))
      rwa [choices_erase hk, Nat.min_eq_right hfull] at hone
    have hpos : 0 < (keys.count k).choose cap := Nat.choose_pos hfull
    refine Nat.eq_of_mul_eq_mul_left hpos ?_
    split_ifs with hp
    · have hrest : ((S k).erase keys.length).card + 1 = cap := by
        rw [Finset.card_erase_add_one hp, hsize]
      have hinter : occurrences keys k ∩ S k = (S k).erase keys.length := by
        ext i
        rw [Finset.mem_inter, Finset.mem_erase]
        constructor
        · rintro ⟨hocc, hi⟩
          refine ⟨fun heq => ?_, hi⟩
          rw [heq, mem_occurrences, List.getElem?_eq_none (le_refl _)] at hocc
          exact absurd hocc (by simp)
        · rintro ⟨hne, hi⟩
          exact ⟨(Finset.mem_insert.mp (hsub hi)).resolve_left hne, hi⟩
      have hcount : (occurrences keys k \ S k).card = keys.count k + 1 - cap := by
        have hparts := Finset.card_sdiff_add_card_inter (occurrences keys k) (S k)
        rw [hinter, card_occurrences] at hparts
        omega
      have hsum : (∑ q ∈ occurrences keys k \ S k,
          ways cap keys K (Function.update S k (insert q ((S k).erase keys.length)))) *
            ((keys.count k).choose cap * choices cap keys (K.erase k)) =
          (keys.count k + 1 - cap) * (outcomes (bounds cap keys)).card := by
        rw [Finset.sum_mul, ← hcount]
        refine Finset.sum_const_nat fun q hq => heach _ ?_ ?_
        · obtain ⟨hocc, -⟩ := Finset.mem_sdiff.mp hq
          intro i hi
          rcases Finset.mem_insert.mp hi with rfl | hi
          · exact hocc
          · rw [← hinter] at hi
            exact (Finset.mem_inter.mp hi).1
        · have hqS := (Finset.mem_sdiff.mp hq).2
          rw [Finset.card_insert_of_notMem fun hh => hqS (Finset.mem_erase.mp hh).2, hrest]
      calc _ = (keys.count k + 1).choose cap * ((∑ q ∈ occurrences keys k \ S k,
            ways cap keys K (Function.update S k (insert q ((S k).erase keys.length)))) *
              ((keys.count k).choose cap * choices cap keys (K.erase k))) := by ring
        _ = (keys.count k + 1).choose cap * (keys.count k + 1 - cap) *
              (outcomes (bounds cap keys)).card := by rw [hsum, mul_assoc]
        _ = _ := by rw [← hpascal, mul_assoc]
    · have hin : S k ⊆ occurrences keys k := fun i hi =>
        (Finset.mem_insert.mp (hsub hi)).resolve_left fun heq => hp (heq ▸ hi)
      have hone := heach (S k) hin hsize
      rw [Function.update_eq_self] at hone
      calc _ = (keys.count k + 1).choose cap * (keys.count k + 1 - cap) * (ways cap keys K S *
              ((keys.count k).choose cap * choices cap keys (K.erase k))) := by ring
        _ = _ := by rw [hone, ← hpascal, mul_assoc]
  · have hways : ways cap (keys ++ [k]) K S = (keys.count k + 1) * ways cap keys K S := by
      rw [ways, bounds_snoc, if_pos hfull, card_filter_outcomes_snoc, ways, Finset.card_filter,
        Finset.mul_sum]
      refine Finset.sum_congr rfl fun v hv => ?_
      rw [Finset.filter_congr fun r _ => holds_snoc_of_notMem hk hv (Or.inr ⟨hfull, r, rfl⟩)]
      split_ifs with hholds
      · rw [Finset.filter_true_of_mem fun _ _ => hholds, Finset.card_range, mul_one]
      · rw [Finset.filter_false_of_mem fun _ _ => hholds, Finset.card_empty, mul_zero]
    rw [hways, choices_snoc_of_notMem hk, mul_assoc, h K S (hS.of_snoc_of_notMem hk)]

/-- Counted over all vectors of draws, every choice of one full-sized set for each of the keys
of `K` is held equally often. -/
theorem uniform (cap : Nat) (keys : List κ) : Uniform cap keys := by
  induction keys using List.reverseRecOn with
  | nil =>
    intro K S hS
    have hall : ∀ v ∈ outcomes (bounds cap ([] : List κ)), Holds cap ([] : List κ) K S v := by
      intro v _ k hk
      have hempty := (hS k hk).1
      rw [Finset.subset_empty.mp hempty]
      rfl
    rw [ways, Finset.filter_true_of_mem hall, choices]
    simp
  | append_singleton keys k ih =>
    rcases Nat.lt_or_ge (keys.count k) cap with hroom | hfull
    · exact ih.snoc_append hroom
    · exact ih.snoc_draw hfull

end Filling

end Kvl.Reservoir
