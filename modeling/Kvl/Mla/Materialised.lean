import Kvl.Mla.Expanded

/-!
# Materialised prefill

`kvl_mla_prefill_bf16` of `ops.c` expands the queries, the keys and the values
of all heads and all tokens before the first score.
-/

namespace Kvl

set_option autoImplicit false

open Sums Finset

structure PrefillStates (F : Type*) where
  qStates : Nat → F
  kStates : Nat → F
  vStates : Nat → F

section Model
variable {F D : Type*} (fl : MlaFloats F D) (cfg : MlaConfig F) (w : MlaBF16)

/-- The rows of head `h` of token `t`. -/
def PrefillStates.put (t h : Nat) (qtmp kvtmp rope : Nat → F) (s : PrefillStates F) :
    PrefillStates F :=
  let DV := cfg.vHeadDim.toNat
  let i := cfg.headRow t h
  let qh := readFrom (h * cfg.queryDim) qtmp
  let kvh := readFrom (h * (cfg.qkNopeDim + cfg.vHeadDim).toNat) kvtmp
  { qStates := cfg.putQueryDim i qh (ropeQuery fl cfg qh t) s.qStates
    kStates := cfg.putQueryDim i kvh rope s.kStates
    vStates := writeAt (i * DV) DV (readFrom cfg.qkNopeDim.toNat kvh) s.vStates }

/-- The rows of all heads of token `t`. -/
def PrefillStates.putToken (x : Nat → F) (s : PrefillStates F) (t : Nat) : PrefillStates F :=
  let xt := readFrom (t * cfg.hiddenSize.toNat) x
  let qtmp := bf16Row fl.toMoeFloats xt w.qProj cfg.hiddenSize
  let kvtmp := bf16Row fl.toMoeFloats (latentOf fl cfg w xt) w.kvBProj cfg.kvLoraRank
  let rope := ropeOf fl cfg w xt t
  (List.range cfg.numHeads.toNat).foldl (fun s h => s.put fl cfg t h qtmp kvtmp rope) s

/-- `head_out` of token `t`. -/
def materialisedHeads (s : PrefillStates F) (t : Nat) (headOuts : Nat → F) : Nat → F :=
  (List.range cfg.numHeads.toNat).foldl (fun headOuts h =>
    let q := readFrom (cfg.headRow t h * cfg.queryDim) s.qStates
    let DV := cfg.vHeadDim.toNat
    writeAt (h * DV) DV (expandedHead fl cfg s.kStates s.vStates q (t + 1) h) headOuts) headOuts

/-- One token of the second loop: `head_out` and `out`. -/
def materialisedToken (s : PrefillStates F) (st : (Nat → F) × (Nat → F)) (t : Nat) :
    (Nat → F) × (Nat → F) :=
  let headOuts := materialisedHeads fl cfg s t st.1
  (headOuts, kvlMatvecBf16 fl.toMoeFloats (t * cfg.hiddenSize.toNat) headOuts w.oProj
    (cfg.numHeads * cfg.vHeadDim) cfg.hiddenSize st.2)

/-- `kvl_mla_prefill_bf16` of `ops.c`; `mem` and `headMem` are its fresh buffers. -/
def kvlMlaPrefillBf16Ops (mem : PrefillStates F) (headMem x : Nat → F) (seqLen : Int)
    (out : Nat → F) : Option (Nat → F) :=
  if seqLen ≤ 0 ∨ ¬ cfg.Ok fl then none
  else
    let S := List.range seqLen.toNat
    let states := S.foldl (PrefillStates.putToken fl cfg w x) mem
    some (S.foldl (materialisedToken fl cfg w states) (headMem, out)).2

end Model

section Rows
variable {F D : Type*} {fl : MlaFloats F D} {cfg : MlaConfig F} {w : MlaBF16}

/-- The rows of a token and a head hold what the projections gave. -/
structure HoldsHead (fl : MlaFloats F D) (cfg : MlaConfig F) (w : MlaBF16) (x : Nat → F)
    (s : PrefillStates F) (t h : Nat) : Prop where
  query : rowAt cfg.queryDim (cfg.headRow t h) s.qStates =
    row cfg.queryDim (expandedQuery fl cfg (prefillQuery fl cfg w x h t) t)
  key : rowAt cfg.queryDim (cfg.headRow t h) s.kStates =
    row cfg.queryDim fun d => if d < cfg.qkNopeDim.toNat then prefillKeyValue fl cfg w x h t d
      else ropeOf fl cfg w (readFrom (t * cfg.hiddenSize.toNat) x) t (d - cfg.qkNopeDim.toNat)
  value : rowAt cfg.vHeadDim.toNat (cfg.headRow t h) s.vStates =
    row cfg.vHeadDim.toNat (readFrom cfg.qkNopeDim.toNat (prefillKeyValue fl cfg w x h t))

/-- A head of the projection with all of `kv_b`. -/
theorem kvtmp_head (x : Nat → F) (h t : Nat) :
    readFrom (h * (cfg.qkNopeDim + cfg.vHeadDim).toNat) (bf16Row fl.toMoeFloats
        (latentOf fl cfg w (readFrom (t * cfg.hiddenSize.toNat) x)) w.kvBProj cfg.kvLoraRank) =
      prefillKeyValue fl cfg w x h t := by
  funext i
  unfold prefillKeyValue bf16Row readFrom MlaConfig.headRows
  dsimp only
  congr 1
  funext r
  congr 1
  ring

theorem PrefillStates.put_other (hDN : 0 < cfg.qkNopeDim) (hDR : 0 < cfg.qkRopeDim) {x : Nat → F}
    {t h t' h' : Nat} {qtmp kvtmp rope : Nat → F} {s : PrefillStates F}
    (hh : h < cfg.numHeads.toNat) (hh' : h' < cfg.numHeads.toNat) (hne : t' ≠ t ∨ h' ≠ h)
    (hheld : HoldsHead fl cfg w x s t' h') :
    HoldsHead fl cfg w x (s.put fl cfg t h qtmp kvtmp rope) t' h' := by
  have hrow := MlaConfig.headRow_ne hh' hh hne
  unfold PrefillStates.put
  dsimp only
  rw [putQueryDim_eq hDN hDR, putQueryDim_eq hDN hDR]
  constructor
  · rw [rowAt_writeAt_of_ne hrow]
    exact hheld.query
  · rw [rowAt_writeAt_of_ne hrow]
    exact hheld.key
  · rw [rowAt_writeAt_of_ne hrow]
    exact hheld.value

theorem PrefillStates.put_self (hDN : 0 < cfg.qkNopeDim) (hDR : 0 < cfg.qkRopeDim) (x : Nat → F)
    (t h : Nat) (s : PrefillStates F) :
    HoldsHead fl cfg w x (s.put fl cfg t h
      (bf16Row fl.toMoeFloats (readFrom (t * cfg.hiddenSize.toNat) x) w.qProj cfg.hiddenSize)
      (bf16Row fl.toMoeFloats (latentOf fl cfg w (readFrom (t * cfg.hiddenSize.toNat) x)) w.kvBProj
        cfg.kvLoraRank) (ropeOf fl cfg w (readFrom (t * cfg.hiddenSize.toNat) x) t)) t h := by
  have hquery : readFrom (h * cfg.queryDim) (bf16Row fl.toMoeFloats
      (readFrom (t * cfg.hiddenSize.toNat) x) w.qProj cfg.hiddenSize) =
      prefillQuery fl cfg w x h t := prefillQuery_eq fl cfg x h t ▸ rfl
  unfold PrefillStates.put
  dsimp only
  rw [putQueryDim_eq hDN hDR, putQueryDim_eq hDN hDR, hquery, kvtmp_head]
  constructor
  · rw [rowAt_writeAt_self]
    rfl
  · rw [rowAt_writeAt_self]
  · rw [rowAt_writeAt_self]

theorem PrefillStates.putToken_spec (hDN : 0 < cfg.qkNopeDim) (hDR : 0 < cfg.qkRopeDim)
    (x : Nat → F) (t : Nat) (s : PrefillStates F) :
    (∀ h < cfg.numHeads.toNat, HoldsHead fl cfg w x (s.putToken fl cfg w x t) t h) ∧
      ∀ t' ≠ t, ∀ h < cfg.numHeads.toNat, HoldsHead fl cfg w x s t' h →
        HoldsHead fl cfg w x (s.putToken fl cfg w x t) t' h := by
  unfold PrefillStates.putToken
  dsimp only
  suffices hloop : ∀ n ≤ cfg.numHeads.toNat,
      (∀ h < n, HoldsHead fl cfg w x ((List.range n).foldl (fun s h => s.put fl cfg t h
        (bf16Row fl.toMoeFloats (readFrom (t * cfg.hiddenSize.toNat) x) w.qProj cfg.hiddenSize)
        (bf16Row fl.toMoeFloats (latentOf fl cfg w (readFrom (t * cfg.hiddenSize.toNat) x))
          w.kvBProj cfg.kvLoraRank)
        (ropeOf fl cfg w (readFrom (t * cfg.hiddenSize.toNat) x) t)) s) t h) ∧
      ∀ t' ≠ t, ∀ h < cfg.numHeads.toNat, HoldsHead fl cfg w x s t' h →
        HoldsHead fl cfg w x ((List.range n).foldl (fun s h => s.put fl cfg t h
          (bf16Row fl.toMoeFloats (readFrom (t * cfg.hiddenSize.toNat) x) w.qProj cfg.hiddenSize)
          (bf16Row fl.toMoeFloats (latentOf fl cfg w (readFrom (t * cfg.hiddenSize.toNat) x))
            w.kvBProj cfg.kvLoraRank)
          (ropeOf fl cfg w (readFrom (t * cfg.hiddenSize.toNat) x) t)) s) t' h from
    hloop _ (Nat.le_refl _)
  intro n hn
  induction n with
  | zero => exact ⟨fun h hh => absurd hh (Nat.not_lt_zero h), fun _ _ _ _ hheld => hheld⟩
  | succ n ih =>
    obtain ⟨hself, hother⟩ := ih (Nat.le_of_succ_le hn)
    rw [List.range_succ, List.foldl_append, List.foldl_cons, List.foldl_nil]
    constructor
    · intro h hh
      rcases Nat.lt_succ_iff_lt_or_eq.mp hh with hlt | heq
      · exact PrefillStates.put_other hDN hDR hn (hlt.trans hn) (.inr (Nat.ne_of_lt hlt))
          (hself h hlt)
      · subst heq
        exact PrefillStates.put_self hDN hDR x t h _
    · intro t' ht' h hh hheld
      exact PrefillStates.put_other hDN hDR hn hh (.inl ht') (hother t' ht' h hh hheld)

/-- Every head of every token is expanded before the first score. -/
theorem materialised_holds (hDN : 0 < cfg.qkNopeDim) (hDR : 0 < cfg.qkRopeDim) (x : Nat → F)
    (mem : PrefillStates F) (n : Nat) :
    ∀ t < n, ∀ h < cfg.numHeads.toNat,
      HoldsHead fl cfg w x ((List.range n).foldl (PrefillStates.putToken fl cfg w x) mem) t h := by
  have hloop := @foldl_range_settles _ (PrefillStates.putToken fl cfg w x) (fun _ => True)
    (fun s t => ∀ h < cfg.numHeads.toNat, HoldsHead fl cfg w x s t h) (fun _ _ _ => trivial)
    (fun s t _ => (s.putToken_spec hDN hDR x t).1)
    (fun s t j _ hj hheld h hh =>
      (s.putToken_spec hDN hDR x t).2 j (Nat.ne_of_lt hj) h hh (hheld h hh)) mem trivial n
  exact hloop.2

end Rows

section Exact
variable {K : Type*} [Field K] {fl : MlaFloats K K} {cfg : MlaConfig K} {w : MlaBF16}

theorem materialisedScore_eq (hDN : 0 < cfg.qkNopeDim) (hDR : 0 < cfg.qkRopeDim) {x : Nat → K}
    {s : PrefillStates K} {h t j : Nat} (hquery : HoldsHead (exactFloats fl) cfg w x s t h)
    (hkey : HoldsHead (exactFloats fl) cfg w x s j h) :
    expandedScore (exactFloats fl) cfg s.kStates
        (readFrom (cfg.headRow t h * cfg.queryDim) s.qStates) h j =
      prefillScore (exactFloats fl) cfg w x h t j := by
  have hdim := MlaConfig.queryDim_eq hDN hDR
  have hq := row_eq_iff.mp hquery.query
  have hk := row_eq_iff.mp hkey.key
  unfold expandedScore prefillScore
  dsimp only
  rw [dotFrom_congr hq hk]
  congr 2
  change _ = dotFrom (exactFloats fl) (0 : K) _ _ _ + dotFrom (exactFloats fl) (0 : K) _ _ _
  rw [dotFrom_exact, dotFrom_exact, dotFrom_exact, hdim, sum_range_add]
  change 0 + (_ + _) = _
  rw [zero_add, zero_add, zero_add]
  congr 1
  · apply sum_congr rfl
    intro d hd
    unfold expandedQuery
    rw [if_pos (mem_range.mp hd), if_pos (mem_range.mp hd)]
  · apply sum_congr rfl
    intro d _
    unfold expandedQuery
    rw [if_neg (by omega), if_neg (by omega), Nat.add_sub_cancel_left]

theorem materialisedHead_eq (hDN : 0 < cfg.qkNopeDim) (hDR : 0 < cfg.qkRopeDim) {x : Nat → K}
    {s : PrefillStates K} {h t d : Nat}
    (hheld : ∀ j < t + 1, HoldsHead (exactFloats fl) cfg w x s j h) (hd : d < cfg.vHeadDim.toNat) :
    expandedHead (exactFloats fl) cfg s.kStates s.vStates
        (readFrom (cfg.headRow t h * cfg.queryDim) s.qStates) (t + 1) h d =
      prefillHead (exactFloats fl) cfg w x h t d := by
  have hscore : ∀ j < t + 1, expandedScore (exactFloats fl) cfg s.kStates
      (readFrom (cfg.headRow t h * cfg.queryDim) s.qStates) h j =
      prefillScore (exactFloats fl) cfg w x h t j :=
    fun j hj => materialisedScore_eq hDN hDR (hheld t (Nat.lt_succ_self t)) (hheld j hj)
  have hexp := @expScores_congr _ _ (exactFloats fl) _ _ _ hscore
  unfold expandedHead prefillHead
  dsimp only
  rw [softDenom_congr hexp]
  congr 1
  apply foldl_range_congr
  intro acc j hj
  have hvalue : s.vStates (cfg.headRow j h * cfg.vHeadDim.toNat + d) =
      readFrom cfg.qkNopeDim.toNat (prefillKeyValue (exactFloats fl) cfg w x h j) d :=
    row_eq_iff.mp (hheld j hj).value d hd
  rw [hexp j hj, hvalue]

/-- The rows of `head_out`. -/
theorem materialisedHeads_rows (hDN : 0 < cfg.qkNopeDim) (hDR : 0 < cfg.qkRopeDim) {x : Nat → K}
    {s : PrefillStates K} {t : Nat} (headOuts : Nat → K)
    (hheld : ∀ j < t + 1, ∀ h < cfg.numHeads.toNat, HoldsHead (exactFloats fl) cfg w x s j h) :
    ∀ h < cfg.numHeads.toNat, rowAt cfg.vHeadDim.toNat h
        (materialisedHeads (exactFloats fl) cfg s t headOuts) =
      row cfg.vHeadDim.toNat (prefillHead (exactFloats fl) cfg w x h t) := by
  intro h hh
  have hrow := @rowAt_writeRows K cfg.numHeads.toNat cfg.vHeadDim.toNat h
    (fun _ h => expandedHead (exactFloats fl) cfg s.kStates s.vStates
      (readFrom (cfg.headRow t h * cfg.queryDim) s.qStates) (t + 1) h) headOuts
    (fun _ _ => rfl) hh
  refine hrow.trans (row_congr fun d hd => ?_)
  exact materialisedHead_eq hDN hDR (fun j hj => hheld j hj h hh) hd

/-- The outputs of the second loop, whose `head_out` every token writes anew. -/
theorem materialisedTokens_rows (hok : cfg.Ok (exactFloats fl)) {x : Nat → K}
    {s : PrefillStates K} {n : Nat}
    (hheld : ∀ j < n, ∀ h < cfg.numHeads.toNat, HoldsHead (exactFloats fl) cfg w x s j h)
    (headMem out : Nat → K) {m : Nat} (hm : m ≤ n) :
    ∀ t < m, rowAt cfg.hiddenSize.toNat t
        ((List.range m).foldl (materialisedToken (exactFloats fl) cfg w s) (headMem, out)).2 =
      row cfg.hiddenSize.toNat (bf16Row (exactFloats fl).toMoeFloats
        (headOut cfg fun h d => prefillHead (exactFloats fl) cfg w x h t d) w.oProj
        (cfg.numHeads * cfg.vHeadDim)) := by
  obtain ⟨_, hNH, hDN, hDR, _, hDV, _, _⟩ := hok
  induction m with
  | zero => exact fun t ht => absurd ht (Nat.not_lt_zero t)
  | succ m ih =>
    intro t ht
    rw [List.range_succ, List.foldl_append, List.foldl_cons, List.foldl_nil]
    generalize (List.range m).foldl (materialisedToken (exactFloats fl) cfg w s) (headMem, out) =
      st at ih ⊢
    rcases Nat.lt_succ_iff_lt_or_eq.mp ht with hlt | heq
    · exact (rowAt_writeAt_of_ne (Nat.ne_of_lt hlt)).trans (ih (Nat.le_of_succ_le hm) t hlt)
    · subst heq
      have hheads := @materialisedHeads_rows K _ fl cfg w hDN hDR x s t st.1
        fun j hj => hheld j (by omega)
      refine rowAt_writeAt_self.trans ?_
      rw [bf16Row_of_heads hNH hDV hheads]

/-- Expanding everything first gives the heads of the streaming kernel. -/
theorem kvlMlaPrefillBf16Ops_rows (hok : cfg.Ok (exactFloats fl)) (mem : PrefillStates K)
    (headMem x : Nat → K) {seqLen : Int} (hlen : 0 < seqLen) (out : Nat → K) :
    ∃ out', kvlMlaPrefillBf16Ops (exactFloats fl) cfg w mem headMem x seqLen out = some out' ∧
      ∀ t < seqLen.toNat, rowAt cfg.hiddenSize.toNat t out' =
        row cfg.hiddenSize.toNat (bf16Row (exactFloats fl).toMoeFloats
          (headOut cfg fun h d => prefillHead (exactFloats fl) cfg w x h t d) w.oProj
          (cfg.numHeads * cfg.vHeadDim)) := by
  obtain ⟨_, _, hDN, hDR, _⟩ := id hok
  have hargs : ¬ (seqLen ≤ 0 ∨ ¬ cfg.Ok (exactFloats fl)) := by
    rintro (h | h)
    · omega
    · exact h hok
  unfold kvlMlaPrefillBf16Ops
  rw [if_neg hargs]
  refine ⟨_, rfl, ?_⟩
  exact materialisedTokens_rows hok (materialised_holds hDN hDR x mem seqLen.toNat) headMem out
    (Nat.le_refl _)

end Exact

end Kvl
