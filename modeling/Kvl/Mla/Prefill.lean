import Kvl.Mla.Decode

/-!
# Streaming prefill

`kvl_mla_prefill_bf16` expands the keys and the values of each head and lets
every token attend to the tokens up to its own. The heads are staged in `out`
when they have its size, else in a buffer of their own; the threads of the
loop over tokens write different rows and are taken in order.
-/

namespace Kvl

set_option autoImplicit false

section Prefill
variable {F D : Type*} (fl : MlaFloats F D) (cfg : MlaConfig F) (w : MlaBF16)

/-- `KHV`, the rows of a head in `kv_b`. -/
def MlaConfig.headRows : Nat := (cfg.qkNopeDim + cfg.vHeadDim).toNat

/-- `HO`. -/
def MlaConfig.headsOut : Nat := (cfg.numHeads * cfg.vHeadDim).toNat

/-- `kvtmp` of token `j` for head `h`: its keys, then its values. -/
def prefillKeyValue (x : Nat → F) (h j : Nat) : Nat → F :=
  bf16Row fl.toMoeFloats (latentOf fl cfg w (readFrom (j * cfg.hiddenSize.toNat) x))
    (readFrom (h * cfg.headRows * cfg.kvLoraRank.toNat) w.kvBProj) cfg.kvLoraRank

/-- `qtmp` of token `t` for head `h`. -/
def prefillQuery (x : Nat → F) (h t : Nat) : Nat → F :=
  bf16Row fl.toMoeFloats (readFrom (t * cfg.hiddenSize.toNat) x)
    (readFrom (h * (cfg.qkNopeDim + cfg.qkRopeDim).toNat * cfg.hiddenSize.toNat) w.qProj)
    cfg.hiddenSize

def prefillScore (x : Nat → F) (h t j : Nat) : F :=
  let q := prefillQuery fl cfg w x h t
  let dot := fl.addD
    (dotFrom fl fl.zeroD cfg.qkNopeDim.toNat q (prefillKeyValue fl cfg w x h j))
    (dotFrom fl fl.zeroD cfg.qkRopeDim.toNat (ropeQuery fl cfg q t)
      (ropeOf fl cfg w (readFrom (j * cfg.hiddenSize.toNat) x) j))
  fl.mul (fl.narrow dot) (softmaxScale fl cfg)

/-- `ho`, the output of head `h` for token `t`. -/
def prefillHead (x : Nat → F) (h t d : Nat) : F :=
  let n := t + 1
  let scores := expScores fl n (prefillScore fl cfg w x h t)
  let denom := softDenom fl n scores
  fl.narrow ((List.range n).foldl (fun acc j =>
    let v := readFrom cfg.qkNopeDim.toNat (prefillKeyValue fl cfg w x h j)
    fl.addD acc (fl.mulD (fl.divD (fl.widen (scores j)) denom) (fl.widen (v d)))) fl.zeroD)

/-- `head_seq` after the heads below `n`. -/
def prefillHeads (x : Nat → F) (seqLen n : Nat) (headSeq : Nat → F) : Nat → F :=
  let DV := cfg.vHeadDim.toNat
  (List.range n).foldl (fun headSeq h =>
    (List.range seqLen).foldl (fun headSeq t =>
      writeAt (t * cfg.headsOut + h * DV) DV (prefillHead fl cfg w x h t) headSeq) headSeq) headSeq

/-- The output projection, in place where the heads lie in `out`. -/
def prefillProject (inPlace : Bool) (seqLen : Nat) (headSeq out : Nat → F) : Nat → F :=
  (List.range seqLen).foldl (fun out t =>
    let headTmp := readFrom (t * cfg.headsOut) (if inPlace then out else headSeq)
    kvlMatvecBf16 fl.toMoeFloats (t * cfg.hiddenSize.toNat) headTmp w.oProj
      (cfg.numHeads * cfg.vHeadDim) cfg.hiddenSize out) out

/-- `mem` is the buffer for the heads, where they need one. -/
def kvlMlaPrefillBf16 (mem : Nat → F) (x : Nat → F) (seqLen : Int) (out : Nat → F) :
    Option (Nat → F) :=
  if seqLen ≤ 0 ∨ ¬ cfg.Ok fl then none
  else
    let S := seqLen.toNat
    let inPlace : Bool := cfg.numHeads * cfg.vHeadDim = cfg.hiddenSize
    let headSeq := prefillHeads fl cfg w x S cfg.numHeads.toNat (if inPlace then out else mem)
    some (prefillProject fl cfg w inPlace S headSeq (if inPlace then headSeq else out))

/-! ### Staging -/

variable {fl cfg w}

theorem MlaConfig.headsOut_eq (hNH : 0 < cfg.numHeads) (hDV : 0 < cfg.vHeadDim) :
    cfg.headsOut = cfg.numHeads.toNat * cfg.vHeadDim.toNat :=
  Int.toNat_mul (Int.le_of_lt hNH) (Int.le_of_lt hDV)

/-- The loop over the tokens of one head, in rows of the size of a head: it
writes every `NH`-th of them. -/
theorem prefillHead_rows {x : Nat → F} {DV NH h : Nat} (hNH : 0 < NH) (start : Nat → F) (m : Nat) :
    let loop := (List.range m).foldl (fun headSeq t =>
      writeAt ((t * NH + h) * DV) DV (prefillHead fl cfg w x h t) headSeq) start
    (∀ t < m, rowAt DV (t * NH + h) loop = row DV (prefillHead fl cfg w x h t)) ∧
    ∀ i, (∀ t < m, i ≠ t * NH + h) → rowAt DV i loop = rowAt DV i start := by
  induction m with
  | zero => exact ⟨fun t ht => absurd ht (Nat.not_lt_zero t), fun _ _ => rfl⟩
  | succ m ih =>
    intro loop
    obtain ⟨hwritten, hother⟩ := ih
    have hloop : loop = writeAt ((m * NH + h) * DV) DV (prefillHead fl cfg w x h m)
        ((List.range m).foldl (fun headSeq t =>
          writeAt ((t * NH + h) * DV) DV (prefillHead fl cfg w x h t) headSeq) start) := by
      change (List.range (m + 1)).foldl _ start = _
      rw [List.range_succ, List.foldl_append]
      rfl
    rw [hloop]
    constructor
    · intro t ht
      rcases Nat.lt_succ_iff_lt_or_eq.mp ht with hlt | heq
      · have hne : t * NH + h ≠ m * NH + h := by
          have := row_offset_lt (i := 0) hlt hNH
          omega
        rw [rowAt_writeAt_of_ne hne]
        exact hwritten t hlt
      · subst heq
        exact rowAt_writeAt_self
    · intro i hi
      rw [rowAt_writeAt_of_ne (hi m (Nat.lt_succ_self m))]
      exact hother i fun t ht => hi t (Nat.lt_succ_of_lt ht)

theorem prefillHeads_rows {x buf : Nat → F} {seqLen : Nat} (hNH : 0 < cfg.numHeads)
    (hDV : 0 < cfg.vHeadDim) {n : Nat} (hn : n ≤ cfg.numHeads.toNat) :
    ∀ t < seqLen, ∀ h < n, rowAt cfg.vHeadDim.toNat (t * cfg.numHeads.toNat + h)
      (prefillHeads fl cfg w x seqLen n buf) =
        row cfg.vHeadDim.toNat (prefillHead fl cfg w x h t) := by
  have hpos : 0 < cfg.numHeads.toNat := by omega
  induction n with
  | zero => exact fun _ _ h hh => absurd hh (Nat.not_lt_zero h)
  | succ n ih =>
    intro t ht h hh
    have hloop : prefillHeads fl cfg w x seqLen (n + 1) buf =
        (List.range seqLen).foldl (fun headSeq t =>
          writeAt ((t * cfg.numHeads.toNat + n) * cfg.vHeadDim.toNat) cfg.vHeadDim.toNat
            (prefillHead fl cfg w x n t) headSeq) (prefillHeads fl cfg w x seqLen n buf) := by
      unfold prefillHeads
      dsimp only
      rw [List.range_succ, List.foldl_append]
      change (List.range seqLen).foldl _ _ = _
      apply foldl_range_congr
      intro headSeq t _
      rw [MlaConfig.headsOut_eq hNH hDV, Nat.add_mul, Nat.mul_assoc]
    obtain ⟨hwritten, hother⟩ := @prefillHead_rows _ _ fl cfg w x cfg.vHeadDim.toNat _ n hpos
        (prefillHeads fl cfg w x seqLen n buf) seqLen
    rw [hloop]
    rcases Nat.lt_succ_iff_lt_or_eq.mp hh with hlt | heq
    · have hne : ∀ t' < seqLen,
          t * cfg.numHeads.toNat + h ≠ t' * cfg.numHeads.toNat + n := by
        intro t' _ heq
        have hmod := congrArg (· % cfg.numHeads.toNat) heq
        rw [Nat.mul_add_mod_of_lt (by omega), Nat.mul_add_mod_of_lt (by omega)] at hmod
        omega
      rw [hother _ hne]
      exact ih (by omega) t ht h hlt
    · subst heq
      exact hwritten t ht

/-- The staged heads of a token are its heads side by side. -/
theorem prefillHeads_token {x buf : Nat → F} {seqLen t : Nat} (hNH : 0 < cfg.numHeads)
    (hDV : 0 < cfg.vHeadDim) (ht : t < seqLen) :
    row cfg.headsOut (readFrom (t * cfg.headsOut)
        (prefillHeads fl cfg w x seqLen cfg.numHeads.toNat buf)) =
      row cfg.headsOut (headOut cfg fun h d => prefillHead fl cfg w x h t d) := by
  have hDVpos : 0 < cfg.vHeadDim.toNat := by omega
  apply row_congr
  intro k hk
  rw [MlaConfig.headsOut_eq hNH hDV] at hk ⊢
  have hh : k / cfg.vHeadDim.toNat < cfg.numHeads.toNat := by
    rw [Nat.div_lt_iff_lt_mul hDVpos]
    exact hk
  have hrow : row cfg.vHeadDim.toNat (readFrom _ _) = row cfg.vHeadDim.toNat _ :=
    @prefillHeads_rows _ _ fl _ w x buf _ hNH hDV _ (Nat.le_refl _) t ht _ hh
  have hvalue := row_eq_iff.mp hrow (k % cfg.vHeadDim.toNat) (Nat.mod_lt k hDVpos)
  have hindex : t * (cfg.numHeads.toNat * cfg.vHeadDim.toNat) + k =
      (t * cfg.numHeads.toNat + k / cfg.vHeadDim.toNat) * cfg.vHeadDim.toNat +
        k % cfg.vHeadDim.toNat := by
    rw [Nat.add_mul, Nat.add_assoc, Nat.div_add_mod', Nat.mul_assoc]
  unfold readFrom at hvalue ⊢
  rw [hindex, hvalue]
  rfl

/-- The output projection reads the heads of a token before it overwrites them. -/
theorem prefillProject_rows {seqLen t : Nat} {inPlace : Bool} {headSeq out : Nat → F}
    (hplace : inPlace = true → cfg.numHeads * cfg.vHeadDim = cfg.hiddenSize ∧ headSeq = out)
    (ht : t < seqLen) :
    rowAt cfg.hiddenSize.toNat t (prefillProject fl cfg w inPlace seqLen headSeq out) =
      row cfg.hiddenSize.toNat (bf16Row fl.toMoeFloats (readFrom (t * cfg.headsOut) headSeq) w.oProj
        (cfg.numHeads * cfg.vHeadDim)) := by
  have hrows := @rowAt_writeRows _ seqLen cfg.hiddenSize.toNat t (fun out t => bf16Row fl.toMoeFloats
      (readFrom (t * cfg.headsOut) (if inPlace then out else headSeq)) w.oProj
      (cfg.numHeads * cfg.vHeadDim)) out
  have hlocal : ∀ b, rowAt cfg.hiddenSize.toNat t b = rowAt cfg.hiddenSize.toNat t out →
      (row cfg.hiddenSize.toNat (bf16Row fl.toMoeFloats
        (readFrom (t * cfg.headsOut) (if inPlace then b else headSeq)) w.oProj
        (cfg.numHeads * cfg.vHeadDim))) =
      row cfg.hiddenSize.toNat (bf16Row fl.toMoeFloats
        (readFrom (t * cfg.headsOut) (if inPlace then out else headSeq)) w.oProj
        (cfg.numHeads * cfg.vHeadDim)) := by
    intro b hb
    cases inPlace with
    | false => rfl
    | true =>
      apply row_congr
      intro o _
      apply bf16Row_congr
      intro i hi
      have hsize : cfg.headsOut = cfg.hiddenSize.toNat := congrArg Int.toNat (hplace rfl).1
      change readFrom (t * cfg.headsOut) b i = readFrom (t * cfg.headsOut) out i
      rw [(hplace rfl).1] at hi
      rw [hsize]
      exact row_eq_iff.mp hb i hi
  have hrow := hrows hlocal ht
  have hread : (if inPlace = true then out else headSeq) = headSeq := by
    cases inPlace with
    | false => rfl
    | true => exact (hplace rfl).2.symm
  rw [hread] at hrow
  exact hrow

end Prefill

end Kvl
