import Kvl.Lib.CText
import Kvl.Store.Format

/-!
# The store's mask parser

`read_mask_file` lists disabled `(layer, expert)` pairs, one per line. The
model of a file is its content, `none` where it cannot be opened.
-/

namespace Kvl

set_option autoImplicit false

open CText

/-- The blanks the two parsers strip from the front of a line. -/
def isBlank (c : UInt8) : Bool := c == 32 || c == 9 || c == 13 || c == 10

def hash : UInt8 := 35

inductive MaskLine where
  | skip
  | bad
  | entry (layer expert : Nat)
  deriving DecidableEq, Repr

structure Mask where
  disabled : Nat → Bool
  count : Nat

/-- The text of a line up to a comment, without leading blanks. -/
def maskText (line : Bytes) : Bytes := ((cstr line).takeWhile (· != hash)).dropWhile isBlank

/-- The conversions must use up the line: `sscanf` returns 2, not 3. -/
def readMaskEntry (hdr : ExpertIndexHeader) (p : Bytes) : MaskLine :=
  match scanPair p with
  | none => .bad
  | some (layer, expert, rest) =>
    if rest.dropWhile isSpace ≠ [] ∨ layer < 0 ∨ expert < 0 ∨ layer ≥ cInt hdr.nLayers.toNat ∨
        expert ≥ cInt hdr.nExperts.toNat then .bad
    else .entry layer.toNat expert.toNat

def readMaskLine (hdr : ExpertIndexHeader) (line : Bytes) : MaskLine :=
  if nl ∉ cstr line ∧ ¬ hitEof 512 line then .bad
  else if maskText line = [] then .skip
  else readMaskEntry hdr (maskText line)

def maskCell (hdr : ExpertIndexHeader) (layer expert : Nat) : Nat :=
  layer * hdr.nExperts.toNat + expert

def readMaskLines (hdr : ExpertIndexHeader) : List Bytes → Mask → Option Mask
  | [], m => some m
  | line :: lines, m =>
    match readMaskLine hdr line with
    | .skip => readMaskLines hdr lines m
    | .bad => none
    | .entry layer expert =>
      if m.disabled (maskCell hdr layer expert) then none
      else readMaskLines hdr lines
        ⟨Function.update m.disabled (maskCell hdr layer expert) true, m.count + 1⟩

def readMaskFile (hdr : ExpertIndexHeader) : Option Bytes → Option Mask
  | none => none
  | some text => readMaskLines hdr (fileLines 512 text) ⟨fun _ => false, 0⟩

/-- The pairs a table of cells stands for. -/
def Mask.pairs (hdr : ExpertIndexHeader) (m : Mask) : Set (Nat × Nat) :=
  {p | p.1 < hdr.nLayers.toNat ∧ p.2 < hdr.nExperts.toNat ∧ m.disabled (maskCell hdr p.1 p.2) = true}

variable {hdr : ExpertIndexHeader}

theorem readMaskEntry_ids {p : Bytes} {layer expert : Nat}
    (h : readMaskEntry hdr p = .entry layer expert) :
    layer < hdr.nLayers.toNat ∧ expert < hdr.nExperts.toNat := by
  unfold readMaskEntry at h
  split at h
  · simp at h
  · split at h
    · simp at h
    · rename_i hok
      simp only [MaskLine.entry.injEq] at h
      push Not at hok
      have hL := cInt_le hdr.nLayers.toNat
      have hE := cInt_le hdr.nExperts.toNat
      omega

theorem readMaskLine_ids {line : Bytes} {layer expert : Nat}
    (h : readMaskLine hdr line = .entry layer expert) :
    layer < hdr.nLayers.toNat ∧ expert < hdr.nExperts.toNat := by
  unfold readMaskLine at h
  split at h
  · simp at h
  split at h
  · simp at h
  · exact readMaskEntry_ids h

theorem maskCell_lt {layer expert : Nat} (hl : layer < hdr.nLayers.toNat)
    (he : expert < hdr.nExperts.toNat) :
    maskCell hdr layer expert < hdr.nLayers.toNat * hdr.nExperts.toNat := by
  unfold maskCell
  have := Nat.mul_le_mul_right hdr.nExperts.toNat (Nat.succ_le_of_lt hl)
  rw [Nat.succ_mul] at this
  omega

theorem maskCell_inj {layer expert layer' expert' : Nat} (he : expert < hdr.nExperts.toNat)
    (he' : expert' < hdr.nExperts.toNat)
    (h : maskCell hdr layer expert = maskCell hdr layer' expert') :
    layer = layer' ∧ expert = expert' := by
  unfold maskCell at h
  have hpos : 0 < hdr.nExperts.toNat := by omega
  have hmod := congrArg (· % hdr.nExperts.toNat) h
  simp only [Nat.mul_add_mod', Nat.mod_eq_of_lt he, Nat.mod_eq_of_lt he'] at hmod
  subst hmod
  exact ⟨Nat.eq_of_mul_eq_mul_right hpos (by omega), rfl⟩

theorem countP_update {l : List Nat} (hnd : l.Nodup) {a : Nat} (ha : a ∈ l) {f : Nat → Bool}
    (hf : f a = false) : l.countP (Function.update f a true) = l.countP f + 1 := by
  induction l with
  | nil => simp at ha
  | cons b l ih =>
    rw [List.nodup_cons] at hnd
    rw [List.countP_cons, List.countP_cons]
    rcases List.mem_cons.mp ha with rfl | ha
    · have hrest : l.countP (Function.update f a true) = l.countP f := by
        apply List.countP_congr
        intro x hx
        have hne : x ≠ a := fun he => hnd.1 (he ▸ hx)
        rw [Function.update_of_ne hne]
      rw [hrest, Function.update_self, hf]
      simp
    · have hne : b ≠ a := fun he => hnd.1 (he ▸ ha)
      rw [Function.update_of_ne hne, ih hnd.2 ha]
      omega

/-- The table and the count of a mask after the lines `done`. -/
structure MaskOk (hdr : ExpertIndexHeader) (done : List Bytes) (m : Mask) : Prop where
  listed : ∀ k, m.disabled k = true ↔
    ∃ line ∈ done, ∃ layer expert, readMaskLine hdr line = .entry layer expert ∧
      k = maskCell hdr layer expert
  count : m.count = (List.range (hdr.nLayers.toNat * hdr.nExperts.toNat)).countP m.disabled
  good : ∀ line ∈ done, readMaskLine hdr line ≠ .bad

theorem maskOk_nil : MaskOk hdr [] ⟨fun _ => false, 0⟩ where
  listed := by simp
  count := by simp
  good := by simp

theorem MaskOk.skip {done : List Bytes} {m : Mask} (h : MaskOk hdr done m) {line : Bytes}
    (hline : readMaskLine hdr line = .skip) : MaskOk hdr (done ++ [line]) m where
  listed k := by
    rw [h.listed k]
    constructor
    · rintro ⟨x, hx, hrest⟩
      exact ⟨x, List.mem_append_left _ hx, hrest⟩
    · rintro ⟨x, hx, layer, expert, hentry, hk⟩
      rcases List.mem_append.mp hx with hx | hx
      · exact ⟨x, hx, layer, expert, hentry, hk⟩
      · rw [List.mem_singleton.mp hx, hline] at hentry
        simp at hentry
  count := h.count
  good x hx := by
    rcases List.mem_append.mp hx with hx | hx
    · exact h.good x hx
    · rw [List.mem_singleton.mp hx, hline]
      simp

theorem MaskOk.enter {done : List Bytes} {m : Mask} (h : MaskOk hdr done m) {line : Bytes}
    {layer expert : Nat} (hline : readMaskLine hdr line = .entry layer expert)
    (hnew : m.disabled (maskCell hdr layer expert) = false) :
    MaskOk hdr (done ++ [line])
      ⟨Function.update m.disabled (maskCell hdr layer expert) true, m.count + 1⟩ where
  listed k := by
    dsimp only
    by_cases hk : k = maskCell hdr layer expert
    · subst k
      simp only [Function.update_self, true_iff]
      exact ⟨line, by simp, layer, expert, hline, rfl⟩
    · rw [Function.update_of_ne hk, h.listed k]
      constructor
      · rintro ⟨x, hx, hrest⟩
        exact ⟨x, List.mem_append_left _ hx, hrest⟩
      · rintro ⟨x, hx, l, e, hentry, hcell⟩
        rcases List.mem_append.mp hx with hx | hx
        · exact ⟨x, hx, l, e, hentry, hcell⟩
        · rw [List.mem_singleton.mp hx, hline, MaskLine.entry.injEq] at hentry
          obtain ⟨rfl, rfl⟩ := hentry
          exact absurd hcell hk
  count := by
    obtain ⟨hl, he⟩ := readMaskLine_ids hline
    rw [countP_update List.nodup_range (List.mem_range.mpr (maskCell_lt hl he)) hnew, h.count]
  good x hx := by
    rcases List.mem_append.mp hx with hx | hx
    · exact h.good x hx
    · rw [List.mem_singleton.mp hx, hline]
      simp

theorem readMaskLines_spec {lines done : List Bytes} {m m' : Mask} (h : MaskOk hdr done m)
    (hrun : readMaskLines hdr lines m = some m') : MaskOk hdr (done ++ lines) m' := by
  induction lines generalizing done m with
  | nil =>
    obtain rfl := Option.some.inj hrun
    simpa using h
  | cons line lines ih =>
    unfold readMaskLines at hrun
    split at hrun
    · rename_i hline
      have := ih (h.skip hline) hrun
      rwa [List.append_assoc] at this
    · simp at hrun
    · rename_i layer expert hline
      split at hrun
      · simp at hrun
      · rename_i hnew
        have := ih (h.enter hline (by simpa using hnew)) hrun
        rwa [List.append_assoc] at this

theorem readMaskFile_ok {file : Option Bytes} {m : Mask} (h : readMaskFile hdr file = some m) :
    ∃ text, file = some text ∧ MaskOk hdr (fileLines 512 text) m := by
  cases file with
  | none => simp [readMaskFile] at h
  | some text => exact ⟨text, rfl, by simpa using readMaskLines_spec maskOk_nil h⟩

theorem MaskOk.mem_pairs {done : List Bytes} {m : Mask} (h : MaskOk hdr done m) {p : Nat × Nat} :
    p ∈ m.pairs hdr ↔ ∃ line ∈ done, readMaskLine hdr line = .entry p.1 p.2 := by
  constructor
  · rintro ⟨_, he, hdis⟩
    obtain ⟨line, hmem, layer, expert, hline, hcell⟩ := (h.listed _).mp hdis
    obtain ⟨rfl, rfl⟩ := maskCell_inj he (readMaskLine_ids hline).2 hcell
    exact ⟨line, hmem, hline⟩
  · rintro ⟨line, hmem, hline⟩
    obtain ⟨hl, he⟩ := readMaskLine_ids hline
    exact ⟨hl, he, (h.listed _).mpr ⟨line, hmem, p.1, p.2, hline, rfl⟩⟩

end Kvl
