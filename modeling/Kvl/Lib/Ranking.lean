import Kvl.Lib.TopK

/-!
# Bounded insertion selects the leading candidates

Insertion into bounded places is insertion into an unbounded list, cut off after
`k` places. Where the comparison is a strict order that decides between any two
candidates, that list is sorted, so the places hold the `k` candidates that come
first, in order.
-/

namespace Kvl.TopK

set_option autoImplicit false

variable {α β : Type*} (better : α → α → Bool)

/-- The first `k` of the list, with free places for what is missing. -/
def bounded : Nat → List α → List (Option α)
  | 0, _ => []
  | k + 1, [] => none :: bounded k []
  | k + 1, a :: as => some a :: bounded k as

def insertBy (a : α) : List α → List α
  | [] => [a]
  | b :: bs => if better a b then a :: b :: bs else b :: insertBy a bs

/-- One insertion after the other, in the order given. -/
def sortBy (xs : List α) : List α := xs.foldl (fun l a => insertBy better a l) []

theorem bounded_nil (k : Nat) : bounded k ([] : List α) = List.replicate k none := by
  induction k with
  | zero => rfl
  | succ k ih => rw [bounded, ih, List.replicate_succ]

theorem bounded_ne_nil (k : Nat) (l : List α) : bounded (k + 1) l ≠ [] := by
  cases l <;> simp [bounded]

theorem dropLast_bounded (k : Nat) (l : List α) : (bounded (k + 1) l).dropLast = bounded k l := by
  induction k generalizing l with
  | zero => cases l <;> rfl
  | succ k ih =>
    cases l with
    | nil => rw [bounded, List.dropLast_cons_of_ne_nil (bounded_ne_nil k []), ih, bounded]
    | cons a as => rw [bounded, List.dropLast_cons_of_ne_nil (bounded_ne_nil k as), ih, bounded]

theorem insertTop_bounded (a : α) (k : Nat) (l : List α) :
    insertTop better a (bounded k l) = bounded k (insertBy better a l) := by
  induction l generalizing k with
  | nil =>
    cases k with
    | zero => rfl
    | succ k =>
      have hdrop := dropLast_bounded k ([] : List α)
      rw [bounded] at hdrop
      have hfree : yields better a (none : Option α) = true := rfl
      rw [bounded, insertTop, if_pos hfree, hdrop, insertBy, bounded]
  | cons b bs ih =>
    cases k with
    | zero => rfl
    | succ k =>
      have hdrop := dropLast_bounded k (b :: bs)
      rw [bounded] at hdrop
      unfold insertBy
      rw [bounded, insertTop, hdrop, yields]
      split
      · rw [bounded]
      · rw [ih, bounded]

/-- Selecting with bounded places is sorting and cutting off. -/
theorem insertAll_free (k : Nat) (xs : List α) :
    insertAll better (List.replicate k none) xs = bounded k (sortBy better xs) := by
  have go : ∀ l, insertAll better (bounded k l) xs =
      bounded k (xs.foldl (fun l a => insertBy better a l) l) := by
    induction xs with
    | nil => exact fun _ => rfl
    | cons a xs ih =>
      intro l
      change insertAll better (insertTop better a (bounded k l)) xs = _
      rw [insertTop_bounded, ih, List.foldl_cons]
  rw [← bounded_nil, go]
  rfl

theorem bounded_eq_take {k : Nat} {l : List α} (h : k ≤ l.length) :
    bounded k l = (l.take k).map some := by
  induction k generalizing l with
  | zero => rfl
  | succ k ih =>
    cases l with
    | nil => simp at h
    | cons a as => rw [bounded, ih (by simpa using h), List.take_succ_cons, List.map_cons]

theorem insertBy_perm (a : α) (l : List α) : (insertBy better a l).Perm (a :: l) := by
  induction l with
  | nil => exact .refl _
  | cons b bs ih =>
    unfold insertBy
    split
    · exact .refl _
    · exact (ih.cons b).trans (.swap a b bs)

theorem sortBy_perm (xs : List α) : (sortBy better xs).Perm xs := by
  have go : ∀ l, (xs.foldl (fun l a => insertBy better a l) l).Perm (xs ++ l) := by
    induction xs with
    | nil => exact fun l => .refl l
    | cons a xs ih =>
      intro l
      rw [List.foldl_cons]
      refine (ih (insertBy better a l)).trans ?_
      exact ((insertBy_perm better a l).append_left xs).trans List.perm_middle
  have h := go []
  rwa [List.append_nil] at h

theorem insertBy_map (better' : β → β → Bool) (f : α → β) (a : α) (l : List α)
    (h : ∀ b ∈ l, better a b = better' (f a) (f b)) :
    (insertBy better a l).map f = insertBy better' (f a) (l.map f) := by
  induction l with
  | nil => rfl
  | cons b bs ih =>
    have hhead := h b List.mem_cons_self
    have hrest := ih fun c hc => h c (List.mem_cons_of_mem b hc)
    rw [List.map_cons, insertBy, insertBy, hhead]
    split
    · rfl
    · rw [List.map_cons, hrest]

/-- Sorting commutes with a renaming that respects the comparison. -/
theorem sortBy_map (better' : β → β → Bool) (f : α → β) (xs : List α)
    (h : ∀ a ∈ xs, ∀ b ∈ xs, better a b = better' (f a) (f b)) :
    (sortBy better xs).map f = sortBy better' (xs.map f) := by
  have go : ∀ ys l : List α, (∀ a ∈ ys ++ l, ∀ b ∈ ys ++ l, better a b = better' (f a) (f b)) →
      (ys.foldl (fun l a => insertBy better a l) l).map f =
        (ys.map f).foldl (fun l a => insertBy better' a l) (l.map f) := by
    intro ys
    induction ys with
    | nil => exact fun l _ => rfl
    | cons a ys ih =>
      intro l hl
      rw [List.foldl_cons, List.map_cons, List.foldl_cons]
      rw [ih (insertBy better a l) ?_]
      · rw [insertBy_map better better' f a l fun b hb =>
          hl a (by simp) b (by simp [hb])]
      · have hperm : (ys ++ insertBy better a l).Perm (a :: ys ++ l) :=
          ((insertBy_perm better a l).append_left ys).trans List.perm_middle
        exact fun b hb c hc => hl b (hperm.mem_iff.mp hb) c (hperm.mem_iff.mp hc)
  exact go xs [] (by simpa using h)

/-- Bounded insertion of named candidates, as sorting the names. -/
theorem insertAll_map_free (better : β → β → Bool) (f : α → β) {k : Nat} {xs : List α}
    (hk : k ≤ xs.length) :
    insertAll better (List.replicate k none) (xs.map f) =
      (((sortBy (fun a b => better (f a) (f b)) xs).take k).map f).map some := by
  have hperm := sortBy_perm (fun a b => better (f a) (f b)) xs
  have hmap := sortBy_map (fun a b => better (f a) (f b)) better f xs fun _ _ _ _ => rfl
  have hlen : k ≤ ((sortBy (fun a b => better (f a) (f b)) xs).map f).length := by
    rwa [List.length_map, hperm.length_eq]
  rw [insertAll_free, ← hmap, bounded_eq_take hlen]
  simp only [List.map_take]

section Order
variable {better} {before : α → α → Prop}

/-- The `k` candidates that come first, in order. -/
structure Leading (before : α → α → Prop) (k : Nat) (xs chosen : List α) : Prop where
  length : chosen.length = k
  candidates : ∀ a ∈ chosen, a ∈ xs
  ordered : chosen.Pairwise before
  first : ∀ a ∈ chosen, ∀ b ∈ xs, b ∉ chosen → before a b

/-- The comparison puts the two candidates in order, whichever way it turns out. -/
def Decides (better : α → α → Bool) (before : α → α → Prop) (a b : α) : Prop :=
  (better a b = true → before a b) ∧ (better a b = false → before b a)

theorem insertBy_pairwise (htrans : ∀ {a b c}, before a b → before b c → before a c) {a : α}
    {l : List α} (ha : ∀ b ∈ l, Decides better before a b) (h : l.Pairwise before) :
    (insertBy better a l).Pairwise before := by
  induction l with
  | nil => exact List.pairwise_singleton _ _
  | cons b bs ih =>
    obtain ⟨hb, hbs⟩ := List.pairwise_cons.mp h
    obtain ⟨hyes, hno⟩ := ha b List.mem_cons_self
    unfold insertBy
    split
    · rename_i hlt
      refine List.pairwise_cons.mpr ⟨?_, h⟩
      intro c hc
      rcases List.mem_cons.mp hc with rfl | hc
      · exact hyes hlt
      · exact htrans (hyes hlt) (hb c hc)
    · rename_i hlt
      refine List.pairwise_cons.mpr ⟨?_, ih (fun c hc => ha c (List.mem_cons_of_mem b hc)) hbs⟩
      intro c hc
      rcases List.mem_cons.mp ((insertBy_perm better a bs).mem_iff.mp hc) with rfl | hc
      · exact hno (by simpa using hlt)
      · exact hb c hc

/-- Candidates arrive in turn, so each has to be compared only with earlier ones. -/
theorem sortBy_pairwise (htrans : ∀ {a b c}, before a b → before b c → before a c) {xs : List α}
    (hxs : xs.Pairwise fun a b => Decides better before b a) :
    (sortBy better xs).Pairwise before := by
  have go : ∀ ys l : List α, ys.Pairwise (fun a b => Decides better before b a) →
      (∀ a ∈ ys, ∀ b ∈ l, Decides better before a b) →
      l.Pairwise before → (ys.foldl (fun l a => insertBy better a l) l).Pairwise before := by
    intro ys
    induction ys with
    | nil => exact fun l _ _ h => h
    | cons a ys ih =>
      intro l hpair hold h
      obtain ⟨hnew, hrest⟩ := List.pairwise_cons.mp hpair
      rw [List.foldl_cons]
      apply ih _ hrest
      · intro b hb c hc
        rcases List.mem_cons.mp ((insertBy_perm better a l).mem_iff.mp hc) with rfl | hc
        · exact hnew b hb
        · exact hold b (List.mem_cons_of_mem a hb) c hc
      · exact insertBy_pairwise @htrans (hold a List.mem_cons_self) h
  exact go xs [] hxs (fun _ _ _ h => absurd h List.not_mem_nil) List.Pairwise.nil

theorem leading_take {k : Nat} {xs l : List α} (hperm : l.Perm xs) (hl : l.Pairwise before)
    (hk : k ≤ xs.length) : Leading before k xs (l.take k) where
  length := by rw [List.length_take, hperm.length_eq]; omega
  candidates a ha := hperm.mem_iff.mp (List.mem_of_mem_take ha)
  ordered := hl.sublist (List.take_sublist k l)
  first a ha b hb hnot := by
    have hb' : b ∈ l.drop k := by
      have hmem : b ∈ l.take k ++ l.drop k := by
        rw [List.take_append_drop]
        exact hperm.mem_iff.mpr hb
      exact (List.mem_append.mp hmem).resolve_left hnot
    rw [← List.take_append_drop k l, List.pairwise_append] at hl
    exact hl.2.2 a ha b hb'

/-- What bounded insertion leaves in its places, for candidates named by an index. -/
theorem insertAll_leading {better : β → β → Bool} (f : α → β)
    (hbefore : ∀ a b, better (f a) (f b) = true ↔ before a b)
    (htrans : ∀ {a b c}, before a b → before b c → before a c) {xs : List α}
    (htotal : ∀ {a b}, a ≠ b → before a b ∨ before b a) (hnd : xs.Nodup) {k : Nat}
    (hk : k ≤ xs.length) :
    ∃ chosen, insertAll better (List.replicate k none) (xs.map f) = (chosen.map f).map some ∧
      Leading before k xs chosen := by
  have hdecides : ∀ a b, a ≠ b → Decides (fun a b => better (f a) (f b)) before a b := by
    intro a b hne
    refine ⟨(hbefore a b).mp, fun hno => (htotal hne).resolve_left fun hab => ?_⟩
    have hyes := (hbefore a b).mpr hab
    simp [hyes] at hno
  have hsorted := sortBy_pairwise @htrans (hnd.imp fun {a b} hne => hdecides b a hne.symm)
  refine ⟨_, insertAll_map_free better f hk, ?_⟩
  exact leading_take (sortBy_perm _ xs) hsorted hk

/-- One candidate in front of the leading ones among the others. -/
theorem Leading.cons [DecidableEq α] {k : Nat} {xs chosen : List α} {a : α} (ha : a ∈ xs)
    (hfirst : ∀ b ∈ xs, b ≠ a → before a b) (h : Leading before k (xs.filter (· ≠ a)) chosen) :
    Leading before (k + 1) xs (a :: chosen) where
  length := by rw [List.length_cons, h.length]
  candidates b hb := by
    rcases List.mem_cons.mp hb with rfl | hb
    · exact ha
    · exact (List.mem_filter.mp (h.candidates b hb)).1
  ordered := by
    refine List.pairwise_cons.mpr ⟨fun b hb => ?_, h.ordered⟩
    obtain ⟨hmem, hne⟩ := List.mem_filter.mp (h.candidates b hb)
    exact hfirst b hmem (of_decide_eq_true hne)
  first b hb c hc hnot := by
    obtain ⟨hne, hout⟩ := not_or.mp fun h => hnot (List.mem_cons.mpr h)
    rcases List.mem_cons.mp hb with rfl | hb
    · exact hfirst c hc hne
    · exact h.first b hb c (List.mem_filter.mpr ⟨hc, by simpa using hne⟩) hout

theorem leading_zero (xs : List α) : Leading before 0 xs [] :=
  ⟨rfl, fun _ h => absurd h List.not_mem_nil, .nil, fun _ h => absurd h List.not_mem_nil⟩

/-- As many leading candidates as there are candidates are all of them. -/
theorem Leading.mem_iff {k : Nat} {xs chosen : List α} (h : Leading before k xs chosen)
    (hirrefl : ∀ a, ¬ before a a) (hk : xs.length ≤ k) {a : α} :
    a ∈ chosen ↔ a ∈ xs := by
  have hchosen : chosen.Nodup := by
    apply h.ordered.imp
    rintro b c hbc rfl
    exact hirrefl b hbc
  have hsub := hchosen.subperm h.candidates
  have hperm := hsub.perm_of_length_le (by rw [h.length]; exact hk)
  exact hperm.mem_iff

end Order

section Stable
variable {R : Type*} [LinearOrder R]

/-- Heavier positions first, and of two equal ones the earlier. -/
def Ahead (w : Nat → R) (i j : Nat) : Prop := w j < w i ∨ (w i = w j ∧ i < j)

theorem Ahead.trans {w : Nat → R} {i j k : Nat} (h : Ahead w i j) (h' : Ahead w j k) :
    Ahead w i k := by
  rcases h with h | ⟨h, hij⟩
  · rcases h' with h' | ⟨h', -⟩
    · exact .inl (h'.trans h)
    · exact .inl (h' ▸ h)
  · rcases h' with h' | ⟨h', hjk⟩
    · exact .inl (h ▸ h')
    · exact .inr ⟨h.trans h', hij.trans hjk⟩

theorem Ahead.irrefl (w : Nat → R) (i : Nat) : ¬ Ahead w i i := by
  rintro (h | ⟨-, h⟩)
  · exact h.false
  · exact h.false

/-- A comparison of the weights alone, where the candidates come in the order of positions. -/
theorem sortBy_stable {better : β → β → Bool} (f : Nat → β) {w : Nat → R} {xs : List Nat}
    (hbetter : ∀ i ∈ xs, ∀ j ∈ xs, better (f i) (f j) = true ↔ w j < w i)
    (hxs : xs.Pairwise (· < ·)) :
    (sortBy (fun i j => better (f i) (f j)) xs).Pairwise (Ahead w) := by
  apply @sortBy_pairwise _ _ (Ahead w) fun h h' => Ahead.trans h h'
  apply hxs.imp_of_mem
  intro i j hi hj hij
  refine ⟨fun hyes => .inl ((hbetter j hj i hi).mp hyes), fun hno => ?_⟩
  have hle : w j ≤ w i := by
    by_contra hlt
    have hyes := (hbetter j hj i hi).mpr (not_le.mp hlt)
    exact Bool.false_ne_true (hno.symm.trans hyes)
  rcases hle.lt_or_eq with hlt | heq
  · exact .inl hlt
  · exact .inr ⟨heq.symm, hij⟩

theorem Ahead.total (w : Nat → R) {i j : Nat} (h : i ≠ j) : Ahead w i j ∨ Ahead w j i := by
  rcases lt_trichotomy (w i) (w j) with hlt | heq | hgt
  · exact .inr (.inl hlt)
  · rcases Nat.lt_or_gt_of_ne h with hij | hji
    · exact .inl (.inr ⟨heq, hij⟩)
    · exact .inr (.inr ⟨heq.symm, hji⟩)
  · exact .inl (.inl hgt)

theorem Ahead.le {w : Nat → R} {i j : Nat} (h : Ahead w i j) : w j ≤ w i := by
  rcases h with h | ⟨h, -⟩
  · exact h.le
  · exact h.ge

/-- A running maximum is the position ahead of all others. -/
theorem foldl_ahead (w : Nat → R) {b : Nat} {xs : List Nat} (h : (b :: xs).Pairwise (· < ·)) :
    xs.foldl (fun best i => if w best < w i then i else best) b ∈ b :: xs ∧
      ∀ j ∈ b :: xs, j ≠ xs.foldl (fun best i => if w best < w i then i else best) b →
        Ahead w (xs.foldl (fun best i => if w best < w i then i else best) b) j := by
  induction xs generalizing b with
  | nil =>
    refine ⟨List.mem_cons_self, fun j hj hne => ?_⟩
    exact absurd (List.mem_singleton.mp hj) hne
  | cons i xs ih =>
    obtain ⟨hb, hrest⟩ := List.pairwise_cons.mp h
    rw [List.foldl_cons]
    by_cases hlt : w b < w i
    · rw [if_pos hlt]
      obtain ⟨hmem, hall⟩ := ih hrest
      generalize xs.foldl (fun best i => if w best < w i then i else best) i = r at hmem hall ⊢
      refine ⟨List.mem_cons_of_mem b hmem, fun j hj hne => ?_⟩
      rcases List.mem_cons.mp hj with rfl | hj
      · by_cases hri : r = i
        · rw [hri]
          exact .inl hlt
        · exact .inl (hlt.trans_le (hall i List.mem_cons_self (Ne.symm hri)).le)
      · exact hall j hj hne
    · rw [if_neg hlt]
      have hskip : (b :: xs).Pairwise (· < ·) :=
        List.pairwise_cons.mpr ⟨fun j hj => hb j (List.mem_cons_of_mem i hj),
          (List.pairwise_cons.mp hrest).2⟩
      obtain ⟨hmem, hall⟩ := ih hskip
      generalize xs.foldl (fun best i => if w best < w i then i else best) b = r at hmem hall ⊢
      refine ⟨?_, fun j hj hne => ?_⟩
      · rcases List.mem_cons.mp hmem with rfl | hmem
        · exact List.mem_cons_self
        · exact List.mem_cons_of_mem b (List.mem_cons_of_mem i hmem)
      · rcases List.mem_cons.mp hj with rfl | hj
        · exact hall j List.mem_cons_self hne
        · rcases List.mem_cons.mp hj with rfl | hj
          · have hbj : Ahead w b j := by
              rcases (not_lt.mp hlt).lt_or_eq with hlt' | heq
              · exact .inl hlt'
              · exact .inr ⟨heq.symm, hb j List.mem_cons_self⟩
            by_cases hrb : r = b
            · rwa [hrb]
            · exact (hall b List.mem_cons_self (Ne.symm hrb)).trans hbj
          · exact hall j (List.mem_cons_of_mem b hj) hne

end Stable

end Kvl.TopK
