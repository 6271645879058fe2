import Kvl.Store.Mask

/-!
# The router's mask parser

`moe_mask_load` reads the file `KVL_MOE_MASK` names once and keeps the result
in globals. Its line buffer is half as long as that of `read_mask_file`, and a
longer line reaches its parser in pieces.
-/

namespace Kvl

set_option autoImplicit false

open CText

def moeLabMaxLayers : Nat := 256
def moeLabMaxExperts : Nat := 256

/-- `g_moe_mask_state`: 0 uninitialised, 1 no mask requested, 2 loaded, -1 failed. -/
structure MoeMask where
  state : Int
  disabled : Nat → Nat → Bool

def freshMoeMask : MoeMask := ⟨0, fun _ _ => false⟩

def moeMaskEntry (p : Bytes) : MaskLine :=
  match scanPair p with
  | none => .bad
  | some (layer, expert, _) =>
    if layer < 0 ∨ layer ≥ moeLabMaxLayers ∨ expert < 0 ∨ expert ≥ moeLabMaxExperts then .bad
    else .entry layer.toNat expert.toNat

def moeMaskLine (line : Bytes) : MaskLine :=
  let p := (cstr line).dropWhile isBlank
  if p = [] ∨ p.head? = some hash then .skip else moeMaskEntry p

/-- The reading loop: whether it got to the end, and the table it filled. -/
def moeMaskLines : List Bytes → (Nat → Nat → Bool) → Bool × (Nat → Nat → Bool)
  | [], disabled => (true, disabled)
  | line :: lines, disabled =>
    match moeMaskLine line with
    | .skip => moeMaskLines lines disabled
    | .bad => (false, disabled)
    | .entry layer expert =>
      moeMaskLines lines (Function.update disabled layer
        (Function.update (disabled layer) expert true))

def moeMaskLoad (files : Bytes → Option Bytes) (env : Option Bytes) (g : MoeMask) :
    Int × MoeMask :=
  if g.state ≠ 0 then (if g.state < 0 then -1 else g.state - 1, g)
  else
    match env with
    | some (c :: path) =>
      match files (c :: path) with
      | none => (-1, { g with state := -1 })
      | some text =>
        let (ok, disabled) := moeMaskLines (fileLines 256 text) g.disabled
        if ok then (1, ⟨2, disabled⟩) else (-1, ⟨-1, disabled⟩)
    | _ => (0, { g with state := 1 })

def moeIsDisabled (g : MoeMask) (layer expert : Int) : Bool :=
  decide (0 ≤ layer ∧ layer < moeLabMaxLayers ∧ 0 ≤ expert ∧ expert < moeLabMaxExperts) &&
    g.disabled layer.toNat expert.toNat

theorem moeMaskLines_spec (lines : List Bytes) (disabled : Nat → Nat → Bool) :
    ((moeMaskLines lines disabled).1 = true ↔ ∀ line ∈ lines, moeMaskLine line ≠ .bad) ∧
    ((moeMaskLines lines disabled).1 = true → ∀ layer expert,
      (moeMaskLines lines disabled).2 layer expert = true ↔
        disabled layer expert = true ∨ ∃ line ∈ lines, moeMaskLine line = .entry layer expert) := by
  induction lines generalizing disabled with
  | nil => simp [moeMaskLines]
  | cons line lines ih =>
    unfold moeMaskLines
    split
    · rename_i hline
      simpa [hline] using ih disabled
    · rename_i hline
      simp [hline]
    · rename_i layer expert hline
      obtain ⟨hok, htable⟩ := ih (Function.update disabled layer
        (Function.update (disabled layer) expert true))
      refine ⟨by simpa [hline] using hok, ?_⟩
      intro hrun l e
      rw [htable hrun l e]
      by_cases hl : l = layer
      · subst l
        by_cases he : e = expert
        · subst e
          simp [hline]
        · simp [hline, he, Ne.symm he]
      · simp [hline, hl, Ne.symm hl]

section Scanning

theorem dropWhile_prefix {p : UInt8 → Bool} {s t : List UInt8} (h : s <+: t) :
    s.dropWhile p <+: t.dropWhile p := by
  obtain ⟨u, rfl⟩ := h
  by_cases hs : s.dropWhile p = []
  · rw [hs]
    exact List.nil_prefix
  · rw [dropWhile_append_of_ne_nil u hs]
    exact List.prefix_append _ _

/-- Nothing or a comment: what can follow the text of a line. -/
def Trailer (r : List UInt8) : Prop := r = [] ∨ r.head? = some hash

theorem Trailer.of_prefix {r s : List UInt8} (h : Trailer s) (hp : r <+: s) : Trailer r := by
  obtain ⟨u, rfl⟩ := hp
  cases r with
  | nil => exact .inl rfl
  | cons c r => simpa [Trailer] using h

theorem Trailer.dropWhile {r : List UInt8} (h : Trailer r) {p : UInt8 → Bool}
    (hp : p hash = false) : r.dropWhile p = r := by
  cases r with
  | nil => rfl
  | cons c r =>
    obtain rfl : c = hash := by simpa [Trailer] using h
    rw [List.dropWhile_cons, hp]
    rfl

theorem Trailer.takeWhile {r : List UInt8} (h : Trailer r) {p : UInt8 → Bool}
    (hp : p hash = false) : r.takeWhile p = [] := by
  cases r with
  | nil => rfl
  | cons c r =>
    obtain rfl : c = hash := by simpa [Trailer] using h
    rw [List.takeWhile_cons, hp]
    rfl

theorem dropWhile_hash_trailer (s : List UInt8) : Trailer (s.dropWhile (· != hash)) := by
  induction s with
  | nil => exact .inl rfl
  | cons c s ih =>
    rw [List.dropWhile_cons]
    split
    · exact ih
    · rename_i hc
      exact .inr (by simpa using hc)

/-- No number starts in spaces and a trailer. -/
theorem scanInt_trailer {sp r : List UInt8} (hsp : sp.dropWhile isSpace = []) (hr : Trailer r)
    {s : List UInt8} (hs : s <+: sp ++ r) : scanInt s = none := by
  have hdrop : s.dropWhile isSpace <+: r := by
    have := dropWhile_prefix (p := isSpace) hs
    rwa [dropWhile_append_of_eq_nil r hsp, hr.dropWhile (by decide)] at this
  have htr := hr.of_prefix hdrop
  have hsign : (splitSign (s.dropWhile isSpace)).2.takeWhile isDigit = [] := by
    generalize s.dropWhile isSpace = q at htr
    cases q with
    | nil => rfl
    | cons c q =>
      obtain rfl : c = hash := by simpa [Trailer] using htr
      rfl
  unfold scanInt
  rw [if_pos hsign]

/-- A pair followed by spaces reads the same with a trailer behind it. -/
theorem scanPair_trailer {p rest r : List UInt8} {a b : Int}
    (h : scanPair p = some (a, b, rest)) (hr : Trailer r) :
    scanPair (p ++ r) = some (a, b, rest ++ r) := by
  by_cases hrest : rest = []
  · subst rest
    obtain ⟨b', hb, hsame⟩ := scanPair_append_open r h
    rw [hb, hsame (hr.takeWhile (by decide)), hr.dropWhile (by decide)]
    rfl
  · exact scanPair_append r h hrest

end Scanning

section Pieces

/-- The store's parser reads the pair `(a, b)` off the line, whatever the header allows. -/
def Lists (line : Bytes) (a b : Nat) : Prop :=
  ∃ rest, scanPair (maskText line) = some ((a : Int), (b : Int), rest) ∧
    rest.dropWhile isSpace = []

theorem readMaskLine_lists {hdr : ExpertIndexHeader} {line : Bytes} {a b : Nat}
    (h : readMaskLine hdr line = .entry a b) : Lists line a b := by
  unfold readMaskLine at h
  split at h
  · simp at h
  split at h
  · simp at h
  unfold readMaskEntry at h
  split at h
  · simp at h
  rename_i layer expert rest hscan
  split at h
  · simp at h
  · rename_i hok
    push Not at hok
    simp only [MaskLine.entry.injEq] at h
    obtain ⟨hspace, hl, he, _⟩ := hok
    refine ⟨rest, ?_, hspace⟩
    rw [hscan, ← h.1, ← h.2, Int.toNat_of_nonneg hl, Int.toNat_of_nonneg he]

theorem Lists.maskText_ne_nil {line : Bytes} {a b : Nat} (h : Lists line a b) :
    maskText line ≠ [] := by
  obtain ⟨rest, hscan, _⟩ := h
  obtain ⟨m, hm, _⟩ := scanPair_eq_some hscan
  exact scanInt_ne_nil hm

/-- The comment of a line, from the hash on. -/
def maskComment (line : Bytes) : Bytes := (cstr line).dropWhile (· != hash)

theorem maskText_append_comment {line : Bytes} (h : maskText line ≠ []) :
    (cstr line).dropWhile isBlank = maskText line ++ maskComment line := by
  have hsplit := List.takeWhile_append_dropWhile (p := (· != hash)) (l := cstr line)
  rw [← hsplit, dropWhile_append_of_ne_nil _ h, maskText, maskComment]

theorem dropWhile_of_maskText_eq_nil {line : Bytes} (h : maskText line = []) :
    Trailer ((cstr line).dropWhile isBlank) := by
  have hsplit := List.takeWhile_append_dropWhile (p := (· != hash)) (l := cstr line)
  have htr := dropWhile_hash_trailer (cstr line)
  rw [← hsplit, dropWhile_append_of_eq_nil _ h, htr.dropWhile (by decide)]
  exact htr

theorem maskText_head {line : Bytes} : (maskText line).head? ≠ some hash := by
  intro h
  have hmem : hash ∈ maskText line := List.mem_of_mem_head? h
  have hin : hash ∈ (cstr line).takeWhile (· != hash) := (List.dropWhile_suffix _).subset hmem
  have := List.mem_takeWhile_imp hin
  simp at this

theorem moeMaskLine_of_text {line q : Bytes} (hq : (cstr line).dropWhile isBlank = q)
    (hne : q ≠ []) (hhead : q.head? ≠ some hash) : moeMaskLine line = moeMaskEntry q := by
  unfold moeMaskLine
  simp only [hq, hne, hhead, or_self, if_false]

theorem moeMaskEntry_of_scan {q r : Bytes} {a b : Nat}
    (h : scanPair q = some ((a : Int), (b : Int), r)) (ha : a < 256) (hb : b < 256) :
    moeMaskEntry q = .entry a b := by
  unfold moeMaskEntry
  rw [h]
  dsimp only
  rw [if_neg (by unfold moeLabMaxLayers moeLabMaxExperts; omega)]
  simp

theorem moeMaskEntry_ne_bad {q : Bytes} (h : moeMaskEntry q ≠ .bad) :
    ∃ a b : Nat, ∃ r, scanPair q = some ((a : Int), (b : Int), r) ∧
      moeMaskEntry q = .entry a b := by
  unfold moeMaskEntry at h ⊢
  split at h
  · simp at h
  · rename_i layer expert rest hscan
    split at h
    · simp at h
    · rename_i hok
      have hids := hok
      push Not at hids
      obtain ⟨hl, _, he, _⟩ := hids
      refine ⟨layer.toNat, expert.toNat, rest, ?_, if_neg hok⟩
      rw [hscan, Int.toNat_of_nonneg hl, Int.toNat_of_nonneg he]

/-- A line that fits the router's buffer reads the same in both parsers. -/
theorem moeMaskLine_of_lists {line : Bytes} {a b : Nat} (h : Lists line a b) (ha : a < 256)
    (hb : b < 256) : moeMaskLine line = .entry a b := by
  have hne := h.maskText_ne_nil
  have hq := maskText_append_comment hne
  obtain ⟨rest, hscan, _⟩ := h
  have hhead : (maskText line ++ maskComment line).head? ≠ some hash := by
    rw [List.head?_append_of_ne_nil _ hne]
    exact maskText_head
  rw [moeMaskLine_of_text hq (List.append_ne_nil_of_left_ne_nil hne _) hhead]
  exact moeMaskEntry_of_scan (scanPair_trailer hscan (dropWhile_hash_trailer _)) ha hb

theorem moeMaskLine_of_skip {line : Bytes} (h : maskText line = []) :
    moeMaskLine line = .skip := by
  unfold moeMaskLine
  exact if_pos (dropWhile_of_maskText_eq_nil h)

theorem takeWhile_drop {p : UInt8 → Bool} {n : Nat} {l : List UInt8}
    (h : n ≤ (l.takeWhile p).length) : (l.drop n).takeWhile p = (l.takeWhile p).drop n := by
  have htake : (l.take n).takeWhile p = l.take n := by
    rw [← List.take_takeWhile]
    have hpre := List.takeWhile_prefix p (l := l)
    rw [List.prefix_iff_eq_take.mp hpre, List.take_take, Nat.min_eq_left h]
  have hlen := (List.takeWhile_prefix p (l := l)).length_le
  have hn : (l.take n).length = n := by
    rw [List.length_take]
    omega
  have hsplit : l.takeWhile p = l.take n ++ (l.drop n).takeWhile p := by
    have happ := @List.takeWhile_append _ p (l.take n) (l.drop n)
    rwa [List.take_append_drop, htake, if_pos rfl] at happ
  rw [hsplit, List.drop_append_of_le_length (le_of_eq hn.symm), List.drop_eq_nil_of_le
    (le_of_eq hn), List.nil_append]

/-- A cut in front of the text leaves the whole text in the rest of the line. -/
theorem Lists.drop {line : Bytes} {a b n : Nat} (h : Lists line a b)
    (hn : n ≤ (cstr line).length) (hblank : ((cstr line).take n).dropWhile isBlank = []) :
    Lists (line.drop n) a b := by
  have hc : cstr (line.drop n) = (cstr line).drop n := takeWhile_drop hn
  have hall : ∀ c ∈ (cstr line).take n, isBlank c = true := List.dropWhile_eq_nil_iff.mp hblank
  have hnohash : ((cstr line).take n).takeWhile (· != hash) = (cstr line).take n := by
    rw [List.takeWhile_eq_self_iff]
    intro c hc'
    have hb := hall c hc'
    simp only [bne_iff_ne, ne_eq]
    rintro rfl
    simp [isBlank, hash] at hb
  have htext : maskText (line.drop n) = maskText line := by
    unfold maskText
    rw [hc]
    conv_rhs => rw [← List.take_append_drop n (cstr line)]
    rw [List.takeWhile_append, hnohash, if_pos rfl, dropWhile_append_of_eq_nil _ hblank]
  unfold Lists
  rw [htext]
  exact h

/-- A piece that begins inside the second number of a pair is no entry. -/
theorem moeMaskEntry_digits {t rest r : Bytes} (hdigit : t.takeWhile isDigit ≠ [])
    (hdrop : t.dropWhile isDigit = rest ++ r) (hrest : rest.dropWhile isSpace = [])
    (hr : Trailer r) {s : Bytes} (hs : s <+: t) : moeMaskEntry s = .bad := by
  have hnone : scanPair s = none := by
    cases hfirst : scanInt s with
    | none => simp [scanPair, hfirst]
    | some vm =>
      obtain ⟨v, m⟩ := vm
      have hm : m <+: rest ++ r := by
        rw [← hdrop]
        obtain ⟨c, t', rfl⟩ : ∃ c t', t = c :: t' := by
          cases t with
          | nil => simp at hdigit
          | cons c t' => exact ⟨c, t', rfl⟩
        have hc : isDigit c = true := by
          by_contra hno
          simp [hno] at hdigit
        obtain ⟨s', rfl⟩ : ∃ s', s = c :: s' := by
          cases s with
          | nil => exact absurd rfl (scanInt_ne_nil hfirst)
          | cons d s' =>
            obtain ⟨rfl, _⟩ := List.cons_prefix_cons.mp hs
            exact ⟨s', rfl⟩
        obtain ⟨q, neg, d, hq, _, hsign, _, _, rfl⟩ := scanInt_eq_some hfirst
        have hsp : isSpace c = false := by
          simp only [isDigit, Bool.and_eq_true, decide_eq_true_eq] at hc
          simp only [isSpace, Bool.or_eq_false_iff, Bool.and_eq_false_iff, beq_eq_false_iff_ne,
            decide_eq_false_iff_not]
          obtain ⟨hlo, hhi⟩ := hc
          rw [UInt8.le_iff_toNat_le] at hlo hhi
          simp only [UInt8.le_iff_toNat_le, ne_eq, ← UInt8.toNat_inj]
          simp at hlo hhi ⊢
          omega
        have hplus : c ≠ 43 := by
          rintro rfl
          simp [isDigit] at hc
        have hminus : c ≠ 45 := by
          rintro rfl
          simp [isDigit] at hc
        rw [List.dropWhile_cons, hsp] at hq
        subst q
        simp only [Bool.false_eq_true, if_false, splitSign, if_neg hplus, if_neg hminus,
          Prod.mk.injEq] at hsign
        obtain ⟨_, rfl⟩ := hsign
        exact dropWhile_prefix hs
      simp [scanPair, hfirst, scanInt_trailer hrest hr hm]
  simp [moeMaskEntry, hnone]

theorem cstr_take (n : Nat) (line : Bytes) : cstr (line.take n) = (cstr line).take n := by
  unfold cstr
  exact List.take_takeWhile.symm

/-- A piece that begins with a digit is scanned from there. -/
theorem moeMaskLine_of_digit {piece : Bytes} (h : (cstr piece).takeWhile isDigit ≠ []) :
    moeMaskLine piece = moeMaskEntry (cstr piece) := by
  cases hc : cstr piece with
  | nil => simp [hc] at h
  | cons c s =>
    have hd : isDigit c = true := by
      by_contra hno
      simp [hc, hno] at h
    have hblank : isBlank c = false := by
      by_contra hb
      rw [Bool.not_eq_false] at hb
      simp only [isBlank, Bool.or_eq_true, beq_iff_eq] at hb
      rcases hb with ((rfl | rfl) | rfl) | rfl <;> simp [isDigit] at hd
    have hhash : c ≠ hash := by
      rintro rfl
      simp [isDigit, hash] at hd
    exact moeMaskLine_of_text (by rw [hc, List.dropWhile_cons, hblank]; rfl) (by simp)
      (by simpa using hhash)

/-- A cut at or behind the start of the text either leaves the pair in front of it,
or makes what follows begin inside the second number. -/
theorem Lists.cut {line : Bytes} {a b n : Nat} (h : Lists line a b) (hn : n ≤ (cstr line).length)
    (htext : ((cstr line).take n).dropWhile isBlank ≠ [])
    (hok : moeMaskLine (line.take n) ≠ .bad) :
    moeMaskLine (line.take n) = .entry a b ∨
      ∀ m, 0 < m → moeMaskLine ((line.drop n).take m) = .bad := by
  have hwhole := maskText_append_comment h.maskText_ne_nil
  have hsplit : (cstr line).dropWhile isBlank =
      ((cstr line).take n).dropWhile isBlank ++ (cstr line).drop n := by
    conv_lhs => rw [← List.take_append_drop n (cstr line)]
    exact dropWhile_append_of_ne_nil _ htext
  have hhead : (((cstr line).take n).dropWhile isBlank).head? ≠ some hash := by
    have hq : ((cstr line).dropWhile isBlank).head? ≠ some hash := by
      rw [hwhole, List.head?_append_of_ne_nil _ h.maskText_ne_nil]
      exact maskText_head
    rwa [hsplit, List.head?_append_of_ne_nil _ htext] at hq
  have hpiece := moeMaskLine_of_text (by rw [cstr_take]) htext hhead
  obtain ⟨rest, hscan, hrest⟩ := h
  have hline := scanPair_trailer hscan (dropWhile_hash_trailer (cstr line))
  rw [← maskComment, ← hwhole, hsplit] at hline
  rw [hpiece] at hok ⊢
  obtain ⟨a', b', r', hscan', hentry⟩ := moeMaskEntry_ne_bad hok
  rw [hentry]
  by_cases hr' : r' = []
  · subst r'
    obtain ⟨v, hv, hsame⟩ := scanPair_append_open ((cstr line).drop n) hscan'
    rw [hline] at hv
    simp only [Option.some.injEq, Prod.mk.injEq] at hv
    obtain ⟨ha, hb, hdrop⟩ := hv
    by_cases hdigit : ((cstr line).drop n).takeWhile isDigit = []
    · left
      have := hsame hdigit
      simp only [MaskLine.entry.injEq]
      omega
    · right
      intro m hm
      have hc : cstr ((line.drop n).take m) = ((cstr line).drop n).take m := by
        rw [cstr_take, cstr, takeWhile_drop hn]
        rfl
      have hstart : (((cstr line).drop n).take m).takeWhile isDigit ≠ [] := by
        rw [← List.take_takeWhile, ne_eq, List.take_eq_nil_iff, not_or]
        exact ⟨by omega, hdigit⟩
      rw [moeMaskLine_of_digit (by rwa [hc]), hc]
      exact moeMaskEntry_digits hdigit hdrop.symm hrest (dropWhile_hash_trailer _)
        (List.take_prefix _ _)
  · left
    have hlong := scanPair_append ((cstr line).drop n) hscan' hr'
    rw [hline] at hlong
    simp only [Option.some.injEq, Prod.mk.injEq] at hlong
    simp only [MaskLine.entry.injEq]
    omega

theorem notMem_dropLast_drop {line : Bytes} (n : Nat) (h : nl ∉ line.dropLast) :
    nl ∉ (line.drop n).dropLast := by
  by_cases hnil : line.drop n = []
  · simp [hnil]
  · intro hm
    apply h
    rw [← List.take_append_drop n line, List.dropLast_append_of_ne_nil hnil]
    exact List.mem_append_right _ hm

/-- Where no piece of a line is refused, one of them is the entry the store reads. -/
theorem Lists.exists_piece {line : Bytes} {a b : Nat} (h : Lists line a b) (ha : a < 256)
    (hb : b < 256) (hnl : nl ∉ line.dropLast)
    (hok : ∀ piece ∈ fileLines 256 line, moeMaskLine piece ≠ .bad) :
    ∃ piece ∈ fileLines 256 line, moeMaskLine piece = .entry a b := by
  induction hlen : line.length using Nat.strong_induction_on generalizing line with
  | _ n ih =>
    have hne : line ≠ [] := by
      rintro rfl
      exact h.maskText_ne_nil rfl
    have hrest := notMem_dropLast_drop 255 hnl
    rw [fileLines_of_ne_nil (by omega) hne, fgets_of_notMem_dropLast _ hnl] at hok ⊢
    dsimp only at hok ⊢
    by_cases hC : (cstr line).length ≤ 255
    · -- the first piece holds the whole C string
      refine ⟨_, List.mem_cons_self, ?_⟩
      have hsame : cstr (line.take 255) = cstr line := by
        rw [cstr_take, List.take_of_length_le hC]
      have hline := moeMaskLine_of_lists h ha hb
      unfold moeMaskLine at hline ⊢
      rwa [hsame]
    have hClen : (cstr line).length ≤ line.length := (List.takeWhile_prefix _).length_le
    by_cases hblank : ((cstr line).take 255).dropWhile isBlank = []
    · -- the cut is in front of the text
      obtain ⟨piece, hp, hentry⟩ := ih (line.drop 255).length
        (by rw [List.length_drop]; omega) (h.drop (by omega) hblank) hrest
        (fun piece hp => hok piece (List.mem_cons_of_mem _ hp)) rfl
      exact ⟨piece, List.mem_cons_of_mem _ hp, hentry⟩
    · rcases h.cut (by omega) hblank (hok _ List.mem_cons_self) with hentry | hbad
      · exact ⟨_, List.mem_cons_self, hentry⟩
      · exfalso
        have hS : line.drop 255 ≠ [] := by
          rw [ne_eq, List.drop_eq_nil_iff]
          omega
        have hnext := fileLines_of_ne_nil (show 2 ≤ 256 by omega) hS
        rw [fgets_of_notMem_dropLast _ hrest] at hnext
        refine hok ((line.drop 255).take 255) (List.mem_cons_of_mem _ ?_) (hbad 255 (by omega))
        rw [hnext]
        exact List.mem_cons_self

end Pieces

section Agreement
variable {hdr : ExpertIndexHeader} {files : Bytes → Option Bytes} {path text : Bytes} {m : Mask}

theorem moeMaskLine_ids {line : Bytes} {layer expert : Nat}
    (h : moeMaskLine line = .entry layer expert) : layer < 256 ∧ expert < 256 := by
  unfold moeMaskLine at h
  dsimp only at h
  split at h
  · simp at h
  unfold moeMaskEntry at h
  split at h
  · simp at h
  split at h
  · simp at h
  · rename_i hok
    push Not at hok
    simp only [MaskLine.entry.injEq] at h
    unfold moeLabMaxLayers moeLabMaxExperts at hok
    omega

theorem moeMaskLoad_fresh (hne : path ≠ []) (hfile : files path = some text) :
    moeMaskLoad files (some path) freshMoeMask =
      if (moeMaskLines (fileLines 256 text) fun _ _ => false).1 then
        (1, ⟨2, (moeMaskLines (fileLines 256 text) fun _ _ => false).2⟩)
      else (-1, ⟨-1, (moeMaskLines (fileLines 256 text) fun _ _ => false).2⟩) := by
  cases path with
  | nil => exact absurd rfl hne
  | cons c path =>
    unfold moeMaskLoad
    rw [if_neg (by decide)]
    simp only [hfile, freshMoeMask]
    rfl

/-- What an accepted file makes of the globals. -/
theorem moeMaskLoad_ok {g : MoeMask} (hne : path ≠ []) (hfile : files path = some text)
    (h : moeMaskLoad files (some path) freshMoeMask = (1, g)) :
    g.state = 2 ∧ (∀ piece ∈ fileLines 256 text, moeMaskLine piece ≠ .bad) ∧
      ∀ layer expert : Nat, moeIsDisabled g layer expert = true ↔
        ∃ piece ∈ fileLines 256 text, moeMaskLine piece = .entry layer expert := by
  rw [moeMaskLoad_fresh hne hfile] at h
  split at h
  · rename_i hok
    obtain ⟨hgood, htable⟩ := moeMaskLines_spec (fileLines 256 text) fun _ _ => false
    simp only [Prod.mk.injEq, true_and] at h
    subst g
    refine ⟨rfl, hgood.mp hok, ?_⟩
    intro layer expert
    have hmem := htable hok layer expert
    simp only [Bool.false_eq_true, false_or] at hmem
    rw [← hmem]
    simp only [moeIsDisabled, Bool.and_eq_true, decide_eq_true_eq, Int.toNat_natCast]
    refine ⟨fun h => h.2, fun h => ⟨?_, h⟩⟩
    obtain ⟨piece, _, hpiece⟩ := hmem.mp h
    have := moeMaskLine_ids hpiece
    unfold moeLabMaxLayers moeLabMaxExperts
    omega
  · simp at h

theorem moeMaskLoad_of_good (hne : path ≠ []) (hfile : files path = some text)
    (hgood : ∀ piece ∈ fileLines 256 text, moeMaskLine piece ≠ .bad) :
    ∃ g, moeMaskLoad files (some path) freshMoeMask = (1, g) := by
  rw [moeMaskLoad_fresh hne hfile,
    if_pos ((moeMaskLines_spec (fileLines 256 text) fun _ _ => false).1.mpr hgood)]
  exact ⟨_, rfl⟩

theorem MaskOk.lines_closed (h : MaskOk hdr (fileLines 512 text) m) :
    ∀ line ∈ fileLines 512 text, nl ∈ line ∨ hitEof 512 line := by
  intro line hmem
  have hgood := h.good line hmem
  by_contra hno
  obtain ⟨hnl, heof⟩ := not_or.mp hno
  apply hgood
  unfold readMaskLine
  rw [if_pos ⟨fun hc => hnl ((List.takeWhile_prefix _).subset hc), heof⟩]

theorem MaskOk.pieces (h : MaskOk hdr (fileLines 512 text) m) :
    fileLines 256 text = (fileLines 512 text).flatMap (fileLines 256) :=
  fileLines_flatMap (by omega) (by omega) text h.lines_closed

/-- Every pair the store reads is disabled by any router that accepts the file. -/
theorem moeMaskLoad_covers {g : MoeMask} (hL : hdr.nLayers.toNat ≤ 256)
    (hE : hdr.nExperts.toNat ≤ 256) (hne : path ≠ []) (hfile : files path = some text)
    (hread : MaskOk hdr (fileLines 512 text) m)
    (hload : moeMaskLoad files (some path) freshMoeMask = (1, g)) {layer expert : Nat}
    (hmem : (layer, expert) ∈ m.pairs hdr) : moeIsDisabled g layer expert = true := by
  obtain ⟨_, hgood, hdis⟩ := moeMaskLoad_ok hne hfile hload
  obtain ⟨line, hline, hentry⟩ := hread.mem_pairs.mp hmem
  obtain ⟨hl, he⟩ := readMaskLine_ids hentry
  rw [hread.pieces] at hgood hdis
  obtain ⟨piece, hp, hpiece⟩ := (readMaskLine_lists hentry).exists_piece (by omega) (by omega)
    (fileLines_mem (by omega) hline).2.1
    fun piece hp => hgood piece (List.mem_flatMap.mpr ⟨line, hline, hp⟩)
  exact (hdis layer expert).mpr ⟨piece, List.mem_flatMap.mpr ⟨line, hline, hp⟩, hpiece⟩

/-- A line that fits both buffers means the same to both parsers. -/
theorem moeMaskLine_of_short {line : Bytes} (hL : hdr.nLayers.toNat ≤ 256)
    (hE : hdr.nExperts.toNat ≤ 256) (hgood : readMaskLine hdr line ≠ .bad) :
    moeMaskLine line = readMaskLine hdr line := by
  cases hline : readMaskLine hdr line with
  | bad => exact absurd hline hgood
  | skip =>
    unfold readMaskLine at hline
    split at hline
    · simp at hline
    split at hline
    · exact moeMaskLine_of_skip ‹_›
    · unfold readMaskEntry at hline
      split at hline
      · simp at hline
      · split at hline <;> simp at hline
  | entry layer expert =>
    obtain ⟨hl, he⟩ := readMaskLine_ids hline
    exact moeMaskLine_of_lists (readMaskLine_lists hline) (by omega) (by omega)

theorem fileLines_short {line : Bytes} (hmem : line ∈ fileLines 512 text)
    (hlen : line.length ≤ 255) : fileLines 256 line = [line] := by
  obtain ⟨hne, hnl, _⟩ := fileLines_mem (by omega) hmem
  rw [fileLines_of_ne_nil (by omega) hne, fgets_of_notMem_dropLast _ hnl]
  dsimp only
  rw [List.take_of_length_le hlen, List.drop_eq_nil_of_le hlen, fileLines_nil]

/-- Every piece the router's buffer cuts from a long line is blank, a comment, or
a pair that some line of the file lists. -/
def LongLinesHarmless (hdr : ExpertIndexHeader) (text : Bytes) : Prop :=
  ∀ line ∈ fileLines 512 text, 255 < line.length → ∀ piece ∈ fileLines 256 line,
    moeMaskLine piece = .skip ∨ ∃ layer expert, moeMaskLine piece = .entry layer expert ∧
      ∃ other ∈ fileLines 512 text, readMaskLine hdr other = .entry layer expert

/-- On a file the store accepts, the router accepts and disables the same pairs
exactly when its shorter buffer does no harm. -/
theorem moeMaskLoad_agrees_iff (hL : hdr.nLayers.toNat ≤ 256) (hE : hdr.nExperts.toNat ≤ 256)
    (hne : path ≠ []) (hfile : files path = some text)
    (hread : readMaskFile hdr (files path) = some m) :
    (∃ g, moeMaskLoad files (some path) freshMoeMask = (1, g) ∧ ∀ layer expert : Nat,
      moeIsDisabled g layer expert = true ↔ (layer, expert) ∈ m.pairs hdr) ↔
    LongLinesHarmless hdr text := by
  rw [hfile] at hread
  obtain ⟨_, htext, hok⟩ := readMaskFile_ok hread
  obtain rfl := Option.some.inj htext
  have hpieces := hok.pieces
  constructor
  · rintro ⟨g, hload, hsame⟩ line hline _ piece hp
    obtain ⟨_, hgood, hdis⟩ := moeMaskLoad_ok hne hfile hload
    have hmem : piece ∈ fileLines 256 text := by
      rw [hpieces]
      exact List.mem_flatMap.mpr ⟨line, hline, hp⟩
    cases hpiece : moeMaskLine piece with
    | skip => exact .inl rfl
    | bad => exact absurd hpiece (hgood piece hmem)
    | entry layer expert =>
      have hpair := (hsame layer expert).mp ((hdis layer expert).mpr ⟨piece, hmem, hpiece⟩)
      exact .inr ⟨layer, expert, rfl, hok.mem_pairs.mp hpair⟩
  · intro hharm
    have hall : ∀ piece ∈ fileLines 256 text, moeMaskLine piece = .skip ∨
        ∃ layer expert, moeMaskLine piece = .entry layer expert ∧
          ∃ other ∈ fileLines 512 text, readMaskLine hdr other = .entry layer expert := by
      intro piece hp
      rw [hpieces] at hp
      obtain ⟨line, hline, hp⟩ := List.mem_flatMap.mp hp
      by_cases hlen : 255 < line.length
      · exact hharm line hline hlen piece hp
      · rw [fileLines_short hline (by omega), List.mem_singleton] at hp
        subst piece
        have hsame := moeMaskLine_of_short hL hE (hok.good line hline)
        cases hentry : readMaskLine hdr line with
        | bad => exact absurd hentry (hok.good line hline)
        | skip => exact .inl (hsame.trans hentry)
        | entry layer expert => exact .inr ⟨layer, expert, hsame.trans hentry, line, hline, hentry⟩
    have hgood : ∀ piece ∈ fileLines 256 text, moeMaskLine piece ≠ .bad := by
      intro piece hp
      rcases hall piece hp with h | ⟨layer, expert, h, _⟩ <;> simp [h]
    obtain ⟨g, hload⟩ := moeMaskLoad_of_good hne hfile hgood
    refine ⟨g, hload, fun layer expert => ⟨?_, moeMaskLoad_covers hL hE hne hfile hok hload⟩⟩
    intro hdis
    obtain ⟨piece, hp, hpiece⟩ := ((moeMaskLoad_ok hne hfile hload).2.2 layer expert).mp hdis
    rcases hall piece hp with h | ⟨l, e, h, other, hother, hentry⟩
    · simp [hpiece] at h
    · simp only [hpiece, MaskLine.entry.injEq] at h
      obtain ⟨rfl, rfl⟩ := h
      exact hok.mem_pairs.mpr ⟨other, hother, hentry⟩

end Agreement

/-- The header of a store of two layers and two experts, one pair absent. -/
def twoByTwo : ExpertIndexHeader := ⟨expertMagic, 1, 4096, 2, 2, 3, dtypeQ8Row, 48, 12288⟩

theorem moeMaskLoad_agrees_onePair :
    ∃ g, moeMaskLoad (fun _ => some [49, 32, 49, 10]) (some [97]) freshMoeMask = (1, g) ∧
      ∀ layer expert : Nat, moeIsDisabled g layer expert = true ↔
        (layer, expert) ∈
          Mask.pairs twoByTwo ⟨Function.update (fun _ => false) 3 true, 1⟩ := by
  have hread : readMaskFile twoByTwo (some [49, 32, 49, 10]) =
      some ⟨Function.update (fun _ => false) 3 true, 1⟩ := by rfl
  refine (moeMaskLoad_agrees_iff (by decide) (by decide) (by simp) rfl hread).mpr ?_
  intro line hline hlen
  have hle : ∀ line ∈ fileLines 512 [49, 32, 49, 10], line.length ≤ 255 := by decide
  exact absurd (hle line hline) (by omega)

/-- A comment of three hundred characters in front of the pair. -/
def longComment : Bytes := hash :: List.replicate 300 120 ++ [10, 49, 32, 49, 10]

/-- The store skips the comment; the router meets its tail as a line of its own. -/
theorem moeMaskLoad_longComment :
    twoByTwo.nLayers.toNat ≤ 256 ∧ twoByTwo.nExperts.toNat ≤ 256 ∧
      (readMaskFile twoByTwo (some longComment)).isSome = true ∧
      (moeMaskLoad (fun _ => some longComment) (some [97]) freshMoeMask).1 = -1 := by
  decide +kernel

end Kvl
