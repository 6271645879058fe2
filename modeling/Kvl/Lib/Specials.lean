import Mathlib

/-!
# Special tokens inside of text

A tokenizer cuts a text at the leftmost special strings. Each of them becomes
its own token, and the text between them is encoded as ordinary text. A template
puts special strings between texts; its tokens are the expected ones exactly if
no special string begins inside of a text.
-/

namespace Kvl.Specials

set_option autoImplicit false

/-- Special strings with their tokens, and the encoding of ordinary text. -/
structure Tokenizer (α τ : Type*) where
  specials : List (List α × τ)
  ordinary : List α → List τ
  nonempty : ∀ e ∈ specials, e.1 ≠ []
  prefixFree : ∀ e ∈ specials, ∀ f ∈ specials, e.1 <+: f.1 → e = f
  token_inj : ∀ e ∈ specials, ∀ f ∈ specials, e.2 = f.2 → e = f
  ordinary_nil : ordinary [] = []
  ordinary_inj : Function.Injective ordinary
  ordinary_plain : ∀ s, ∀ x ∈ ordinary s, ∀ e ∈ specials, x ≠ e.2

variable {α τ : Type*} [DecidableEq α]

/-- The special string at the start of a text. -/
def Tokenizer.special? (T : Tokenizer α τ) (s : List α) : Option (List α × τ) :=
  T.specials.find? fun e => e.1.isPrefixOf s

/-- `skip` characters belong to a special string already seen, `pending` is ordinary text. -/
def Tokenizer.scan (T : Tokenizer α τ) : Nat → List α → List α → List τ
  | _, pending, [] => T.ordinary pending
  | skip + 1, pending, _ :: s => T.scan skip pending s
  | 0, pending, c :: s =>
    match T.special? (c :: s) with
    | some e => T.ordinary pending ++ e.2 :: T.scan (e.1.length - 1) [] s
    | none => T.scan 0 (pending ++ [c]) s

def Tokenizer.encode (T : Tokenizer α τ) (s : List α) : List τ := T.scan 0 [] s

/-- Special strings, each with the text after it. -/
abbrev Template (α τ : Type*) := List ((List α × τ) × List α)

def render (t : Template α τ) : List α := t.flatMap fun p => p.1.1 ++ p.2

def Tokenizer.tokens (T : Tokenizer α τ) (t : Template α τ) : List τ :=
  t.flatMap fun p => p.1.2 :: T.ordinary p.2

/-- No special string begins at a position of a text, as the template goes on after it. -/
def Tokenizer.Clean (T : Tokenizer α τ) : Template α τ → Prop
  | [] => True
  | p :: t => (∀ i < p.2.length, T.special? ((p.2 ++ render t).drop i) = none) ∧ T.Clean t

/-- The tokens that stand for special strings. -/
def Tokenizer.control [DecidableEq τ] (T : Tokenizer α τ) (x : τ) : Bool :=
  T.specials.any fun e => e.2 = x

/-- The ordinary tokens before the first special one, and after each of them. -/
def splitControls (control : τ → Bool) : List τ → List τ × List (τ × List τ)
  | [] => ([], [])
  | x :: l =>
    if control x then ([], (x, (splitControls control l).1) :: (splitControls control l).2)
    else (x :: (splitControls control l).1, (splitControls control l).2)

section Scan

variable {T : Tokenizer α τ}

theorem Tokenizer.special?_mem {s : List α} {e : List α × τ} (h : T.special? s = some e) :
    e ∈ T.specials ∧ e.1 <+: s := by
  unfold Tokenizer.special? at h
  have hpre := List.find?_some h
  exact ⟨List.mem_of_find?_eq_some h, List.isPrefixOf_iff_prefix.mp hpre⟩

theorem Tokenizer.special?_of_mem {e : List α × τ} (he : e ∈ T.specials) (s : List α) :
    T.special? (e.1 ++ s) = some e := by
  have hpre : e.1 <+: e.1 ++ s := List.prefix_append _ _
  cases hf : T.special? (e.1 ++ s) with
  | none =>
    have hno := List.find?_eq_none.mp hf e he
    exact absurd (List.isPrefixOf_iff_prefix.mpr hpre) hno
  | some f =>
    obtain ⟨hmem, hfpre⟩ := T.special?_mem hf
    rcases Nat.le_total e.1.length f.1.length with hle | hle
    · rw [T.prefixFree e he f hmem (List.prefix_of_prefix_length_le hpre hfpre hle)]
    · rw [T.prefixFree f hmem e he (List.prefix_of_prefix_length_le hfpre hpre hle)]

theorem Tokenizer.scan_skip (T : Tokenizer α τ) (skip : Nat) (s : List α) :
    T.scan skip [] s = T.encode (s.drop skip) := by
  induction skip generalizing s with
  | zero => rfl
  | succ skip ih =>
    cases s with
    | nil => rfl
    | cons c s => exact ih s

theorem Tokenizer.scan_special {pending s : List α} {e : List α × τ}
    (h : T.special? s = some e) :
    T.scan 0 pending s = T.ordinary pending ++ e.2 :: T.encode (s.drop e.1.length) := by
  obtain ⟨hmem, hpre⟩ := T.special?_mem h
  have hpos := List.length_pos_iff.mpr (T.nonempty e hmem)
  cases s with
  | nil =>
    have hle := hpre.length_le
    rw [List.length_nil] at hle
    omega
  | cons c s =>
    simp only [Tokenizer.scan, h, T.scan_skip]
    obtain ⟨n, hn⟩ := Nat.exists_eq_succ_of_ne_zero hpos.ne'
    rw [hn]
    rfl

/-- Text in which no special string begins is taken as a whole. -/
theorem Tokenizer.scan_plain {pending s r : List α}
    (h : ∀ i < s.length, T.special? ((s ++ r).drop i) = none) :
    T.scan 0 pending (s ++ r) = T.scan 0 (pending ++ s) r := by
  induction s generalizing pending with
  | nil => rw [List.nil_append, List.append_nil]
  | cons c s ih =>
    have hfirst := h 0 (Nat.succ_pos _)
    rw [List.drop_zero, List.cons_append] at hfirst
    simp only [List.cons_append, Tokenizer.scan, hfirst]
    rw [ih fun i hi => h (i + 1) (Nat.succ_lt_succ hi), List.append_assoc, List.singleton_append]

/-- The first special string of a text ends the ordinary text before it. -/
theorem Tokenizer.encode_dirty {s r : List α}
    (h : ∃ i < s.length, T.special? ((s ++ r).drop i) ≠ none) :
    ∃ i < s.length, ∃ e ∈ T.specials, ∃ l, T.encode (s ++ r) = T.ordinary (s.take i) ++ e.2 :: l := by
  classical
  have hmin := Nat.find_spec h
  set i := Nat.find h with hi
  obtain ⟨hlt, hsome⟩ := hmin
  obtain ⟨e, he⟩ := Option.ne_none_iff_exists'.mp hsome
  have htake : (s ++ r).take i = s.take i := List.take_append_of_le_length hlt.le
  have hsplit : s.take i ++ (s ++ r).drop i = s ++ r := by
    rw [← htake, List.take_append_drop]
  have hbefore : ∀ j < (s.take i).length, T.special? ((s.take i ++ (s ++ r).drop i).drop j) = none := by
    intro j hj
    rw [List.length_take] at hj
    have hj := Nat.find_min h (m := j) (by omega)
    rw [hsplit]
    by_contra hne
    exact hj ⟨by omega, hne⟩
  refine ⟨i, hlt, e, (T.special?_mem he).1, T.encode (((s ++ r).drop i).drop e.1.length), ?_⟩
  have hplain := @Tokenizer.scan_plain _ _ _ T [] _ _ hbefore
  rw [hsplit] at hplain
  rw [Tokenizer.encode, hplain, T.scan_special he, List.nil_append]

end Scan

section Templates

variable {T : Tokenizer α τ} {t t' : Template α τ}

omit [DecidableEq α] in
theorem render_cons (p : (List α × τ) × List α) (t : Template α τ) :
    render (p :: t) = p.1.1 ++ (p.2 ++ render t) := by
  rw [render, List.flatMap_cons, List.append_assoc]
  rfl

omit [DecidableEq α] in
theorem Tokenizer.tokens_cons (T : Tokenizer α τ) (p : (List α × τ) × List α)
    (t : Template α τ) : T.tokens (p :: t) = p.1.2 :: (T.ordinary p.2 ++ T.tokens t) := by
  rw [Tokenizer.tokens, List.flatMap_cons, List.cons_append]
  rfl

/-- The special string at the head of a template ends the text before it. -/
theorem Tokenizer.scan_render (T : Tokenizer α τ) (pending : List α)
    (ht : ∀ p ∈ t, p.1 ∈ T.specials) :
    T.scan 0 pending (render t) = T.ordinary pending ++ T.encode (render t) := by
  cases t with
  | nil =>
    rw [show render ([] : Template α τ) = [] from rfl, Tokenizer.encode, Tokenizer.scan,
      Tokenizer.scan, T.ordinary_nil, List.append_nil]
  | cons p t =>
    have hspecial : T.special? (render (p :: t)) = some p.1 := by
      rw [render_cons]
      exact T.special?_of_mem (ht p List.mem_cons_self) _
    rw [T.scan_special hspecial, show T.encode (render (p :: t)) = T.scan 0 [] (render (p :: t))
      from rfl, T.scan_special hspecial, T.ordinary_nil]
    rfl

omit [DecidableEq α] in
/-- Two ordinary texts that end at a special token, or at the end, are the same. -/
theorem Tokenizer.ordinary_eq_of_append {a b : List α} {e : List α × τ} {l : List τ}
    (he : e ∈ T.specials) (ht : ∀ p ∈ t, p.1 ∈ T.specials)
    (h : T.ordinary a ++ e.2 :: l = T.ordinary b ++ T.tokens t) : a = b := by
  classical
  let plain : τ → Bool := fun x => decide (∀ f ∈ T.specials, x ≠ f.2)
  have hplain : ∀ s : List α, ∀ x ∈ T.ordinary s, plain x = true := by
    intro s x hx
    exact decide_eq_true (T.ordinary_plain s x hx)
  have hspecial : ∀ f ∈ T.specials, plain f.2 = false := by
    intro f hf
    apply decide_eq_false
    intro hall
    exact hall f hf rfl
  have htake := congrArg (List.takeWhile plain) h
  rw [List.takeWhile_append_of_pos (hplain a), List.takeWhile_append_of_pos (hplain b),
    List.takeWhile_cons_of_neg (by simp [hspecial e he]), List.append_nil] at htake
  have hrest : (T.tokens t).takeWhile plain = [] := by
    cases t with
    | nil => rfl
    | cons p t =>
      rw [T.tokens_cons]
      exact List.takeWhile_cons_of_neg (by simp [hspecial p.1 (ht p List.mem_cons_self)])
  rw [hrest, List.append_nil] at htake
  exact T.ordinary_inj htake

/-- A template has its own tokens exactly if no special string begins inside of its texts. -/
theorem Tokenizer.encode_render_iff (ht : ∀ p ∈ t, p.1 ∈ T.specials) :
    T.encode (render t) = T.tokens t ↔ T.Clean t := by
  induction t with
  | nil =>
    constructor
    · intro _
      trivial
    · intro _
      rw [show render ([] : Template α τ) = [] from rfl, Tokenizer.encode, Tokenizer.scan,
        T.ordinary_nil]
      rfl
  | cons p t ih =>
    have hp := ht p List.mem_cons_self
    have ht' : ∀ q ∈ t, q.1 ∈ T.specials := fun q hq => ht q (List.mem_cons_of_mem p hq)
    have hhead : T.encode (render (p :: t)) = p.1.2 :: T.encode (p.2 ++ render t) := by
      rw [render_cons, Tokenizer.encode, T.scan_special (T.special?_of_mem hp _), T.ordinary_nil,
        List.drop_left]
      rfl
    rw [hhead, T.tokens_cons, List.cons_inj_right]
    by_cases hclean : ∀ i < p.2.length, T.special? ((p.2 ++ render t).drop i) = none
    · have hbody : T.encode (p.2 ++ render t) = T.ordinary p.2 ++ T.encode (render t) := by
        rw [Tokenizer.encode, T.scan_plain hclean, List.nil_append, T.scan_render p.2 ht']
      rw [hbody, List.append_cancel_left_eq, ih ht']
      exact (and_iff_right hclean).symm
    · constructor
      · intro heq
        obtain ⟨i, hi, hne⟩ : ∃ i < p.2.length, T.special? ((p.2 ++ render t).drop i) ≠ none := by
          simpa only [not_forall, exists_prop] using hclean
        obtain ⟨j, hj, e, he, l, henc⟩ := T.encode_dirty ⟨i, hi, hne⟩
        rw [henc] at heq
        have htake := congrArg List.length (T.ordinary_eq_of_append he ht' heq)
        rw [List.length_take] at htake
        omega
      · intro h
        exact absurd h.1 hclean

end Templates

section Split

variable {control : τ → Bool} {T : Tokenizer α τ} {t t' : Template α τ}

theorem splitControls_join (control : τ → Bool) (l : List τ) :
    (splitControls control l).1 ++ (splitControls control l).2.flatMap (fun p => p.1 :: p.2) = l := by
  induction l with
  | nil => rfl
  | cons x l ih =>
    simp only [splitControls]
    split
    · rw [List.nil_append, List.flatMap_cons, List.cons_append, ih]
    · rw [List.cons_append, ih]

theorem splitControls_append {a l : List τ} (ha : ∀ x ∈ a, control x = false) :
    splitControls control (a ++ l) =
      (a ++ (splitControls control l).1, (splitControls control l).2) := by
  induction a with
  | nil => rfl
  | cons x a ih =>
    have hx := ha x List.mem_cons_self
    rw [List.cons_append, splitControls, if_neg (by simp [hx]),
      ih fun y hy => ha y (List.mem_cons_of_mem x hy)]
    rfl

variable [DecidableEq τ]

omit [DecidableEq α] in
theorem Tokenizer.control_ordinary (s : List α) : ∀ x ∈ T.ordinary s, T.control x = false := by
  intro x hx
  rw [Tokenizer.control, List.any_eq_false]
  intro e he
  simpa using (T.ordinary_plain s x hx e he).symm

omit [DecidableEq α] in
theorem Tokenizer.splitControls_tokens (ht : ∀ p ∈ t, p.1 ∈ T.specials) :
    splitControls T.control (T.tokens t) = ([], t.map fun p => (p.1.2, T.ordinary p.2)) := by
  induction t with
  | nil => rfl
  | cons p t ih =>
    have hcontrol : T.control p.1.2 = true :=
      List.any_eq_true.mpr ⟨p.1, ht p List.mem_cons_self, by simp⟩
    rw [T.tokens_cons, splitControls, if_pos hcontrol, splitControls_append (T.control_ordinary p.2),
      ih fun q hq => ht q (List.mem_cons_of_mem p hq), List.append_nil]
    rfl

omit [DecidableEq α] in
/-- Cutting at the control tokens gives the texts back exactly if these are the tokens. -/
theorem Tokenizer.splitControls_eq_iff (ht : ∀ p ∈ t, p.1 ∈ T.specials) (l : List τ) :
    splitControls T.control l = ([], t.map fun p => (p.1.2, T.ordinary p.2)) ↔ l = T.tokens t := by
  constructor
  · intro h
    have hl := splitControls_join T.control l
    have htokens := splitControls_join T.control (T.tokens t)
    rw [T.splitControls_tokens ht, ← h] at htokens
    exact hl.symm.trans htokens
  · rintro rfl
    exact T.splitControls_tokens ht

omit [DecidableEq α] in
theorem Tokenizer.tokens_inj (ht : ∀ p ∈ t, p.1 ∈ T.specials) (ht' : ∀ p ∈ t', p.1 ∈ T.specials)
    (h : T.tokens t = T.tokens t') : t = t' := by
  have hmap := (Prod.mk.inj ((T.splitControls_tokens ht).symm.trans
    (h ▸ T.splitControls_tokens ht'))).2
  clear h
  induction t generalizing t' with
  | nil =>
    cases t' with
    | nil => rfl
    | cons p t' => cases hmap
  | cons p t ih =>
    cases t' with
    | nil => cases hmap
    | cons q t' =>
      rw [List.map_cons, List.map_cons, List.cons.injEq, Prod.mk.injEq] at hmap
      obtain ⟨⟨hid, htext⟩, hrest⟩ := hmap
      have hmarker := T.token_inj p.1 (ht p List.mem_cons_self) q.1 (ht' q List.mem_cons_self) hid
      rw [ih (fun r hr => ht r (List.mem_cons_of_mem p hr))
        (fun r hr => ht' r (List.mem_cons_of_mem q hr)) hrest,
        show p = q from Prod.ext hmarker (T.ordinary_inj htext)]

end Split

end Kvl.Specials
