import Kvl.Lib.Workers
import Kvl.Mla.Materialised

/-!
# The workers of the streaming prefill

The rows of a head are shared out to workers that have scratch of their own.
Whichever worker takes a row and in whatever order their phases run, the heads
are those of the loop taken in order, whatever the arithmetic.
-/

namespace Kvl

set_option autoImplicit false

/-- The buffers of `kvl_mla_prefill_bf16`; `maxScore` and `denom` are each worker's own. -/
structure StreamWork (F D : Type*) where
  latentStates : Nat → F
  ropeStates : Nat → F
  kNope : Nat → F
  vStates : Nat → F
  scoresAll : Nat → F
  qtmpAll : Nat → F
  qropeAll : Nat → F
  valueAccAll : Nat → D
  maxScore : Nat → F
  denom : Nat → D
  headSeq : Nat → F

section Model
variable {F D : Type*} (fl : MlaFloats F D) (cfg : MlaConfig F) (w : MlaBF16)

/-- The latent and the rope row of each token. -/
def streamLatents (x : Nat → F) (seqLen : Nat) (work : StreamWork F D) : StreamWork F D :=
  let R := cfg.kvLoraRank.toNat
  let DR := cfg.qkRopeDim.toNat
  (List.range seqLen).foldl (fun work t =>
    let xt := readFrom (t * cfg.hiddenSize.toNat) x
    { work with
      latentStates := writeAt (t * R) R (latentOf fl cfg w xt) work.latentStates
      ropeStates := writeAt (t * DR) DR (ropeOf fl cfg w xt t) work.ropeStates }) work

/-- The keys and the values of head `h`, over those of the head before. -/
def streamKeyValues (seqLen h : Nat) (work : StreamWork F D) : StreamWork F D :=
  let DN := cfg.qkNopeDim.toNat
  let DV := cfg.vHeadDim.toNat
  let R := cfg.kvLoraRank.toNat
  (List.range seqLen).foldl (fun work j =>
    let kvtmp := bf16Row fl.toMoeFloats (readFrom (j * R) work.latentStates)
      (readFrom (h * cfg.headRows * R) w.kvBProj) cfg.kvLoraRank
    { work with
      kNope := writeAt (j * DN) DN kvtmp work.kNope
      vStates := writeAt (j * DV) DV (readFrom DN kvtmp) work.vStates }) work

/-- `qtmp` and `qrope` of row `t`. -/
def projectRow (x : Nat → F) (h tid t : Nat) (work : StreamWork F D) : StreamWork F D :=
  let QD := cfg.queryDim
  let DR := cfg.qkRopeDim.toNat
  let qtmpAll := writeAt (tid * QD) QD (bf16Row fl.toMoeFloats
    (readFrom (t * cfg.hiddenSize.toNat) x)
    (readFrom (h * QD * cfg.hiddenSize.toNat) w.qProj) cfg.hiddenSize) work.qtmpAll
  { work with
    qtmpAll := qtmpAll
    qropeAll := writeAt (tid * DR) DR (ropeQuery fl cfg (readFrom (tid * QD) qtmpAll) t)
      work.qropeAll }

/-- The scores of row `t` against the rows up to it, and their maximum. -/
def scoreRow (seqLen tid t : Nat) (work : StreamWork F D) : StreamWork F D :=
  let DN := cfg.qkNopeDim.toNat
  let DR := cfg.qkRopeDim.toNat
  let qtmp := readFrom (tid * cfg.queryDim) work.qtmpAll
  let qrope := readFrom (tid * DR) work.qropeAll
  let scoresAll := writeAt (tid * seqLen) (t + 1) (fun j =>
    let dot := fl.addD (dotFrom fl fl.zeroD DN qtmp (readFrom (j * DN) work.kNope))
      (dotFrom fl fl.zeroD DR qrope (readFrom (j * DR) work.ropeStates))
    fl.mul (fl.narrow dot) (softmaxScale fl cfg)) work.scoresAll
  { work with
    scoresAll := scoresAll
    maxScore := Function.update work.maxScore tid
      (maxScore fl (t + 1) (readFrom (tid * seqLen) scoresAll)) }

/-- The scores after `expf`, in place, and their sum. -/
def softmaxRow (seqLen tid t : Nat) (work : StreamWork F D) : StreamWork F D :=
  let scores := readFrom (tid * seqLen) work.scoresAll
  let scoresAll := writeAt (tid * seqLen) (t + 1)
    (fun j => fl.exp (fl.sub (scores j) (work.maxScore tid))) work.scoresAll
  { work with
    scoresAll := scoresAll
    denom := Function.update work.denom tid
      (softDenom fl (t + 1) (readFrom (tid * seqLen) scoresAll)) }

/-- `value_add_f64`. -/
def valueAddF64 (acc : Nat → D) (v : Nat → F) (p : D) : Nat → D := fun d =>
  fl.addD (acc d) (fl.mulD p (fl.widen (v d)))

def valueRow (seqLen tid t : Nat) (work : StreamWork F D) : StreamWork F D :=
  let DV := cfg.vHeadDim.toNat
  let scores := readFrom (tid * seqLen) work.scoresAll
  let valueAcc := (List.range (t + 1)).foldl (fun acc j =>
    let p := fl.divD (fl.widen (scores j)) (work.denom tid)
    valueAddF64 fl acc (readFrom (j * DV) work.vStates) p) fun _ => fl.zeroD
  { work with valueAccAll := writeAt (tid * DV) DV valueAcc work.valueAccAll }

/-- `ho`. -/
def storeRow (h tid t : Nat) (work : StreamWork F D) : StreamWork F D :=
  let DV := cfg.vHeadDim.toNat
  { work with
    headSeq := writeAt (t * cfg.headsOut + h * DV) DV
      (fun d => fl.narrow (readFrom (tid * DV) work.valueAccAll d)) work.headSeq }

/-- A round of the loop over the tokens, in its five phases. -/
def rowPhase (x : Nat → F) (seqLen h tid t phase : Nat) (work : StreamWork F D) : StreamWork F D :=
  match phase with
  | 0 => projectRow fl cfg w x h tid t work
  | 1 => scoreRow fl cfg seqLen tid t work
  | 2 => softmaxRow fl seqLen tid t work
  | 3 => valueRow fl cfg seqLen tid t work
  | _ => storeRow fl cfg h tid t work

/-- One head: its keys and values, then its rows as the events say. -/
def streamHead (x : Nat → F) (seqLen workers : Nat) (events : Nat → List Workers.Event)
    (work : StreamWork F D) (h : Nat) : Option (StreamWork F D) :=
  Workers.loop workers seqLen 5 (rowPhase fl cfg w x seqLen h) (events h)
    (streamKeyValues fl cfg w seqLen h work)

/-- `kvl_mla_prefill_bf16` of `mla_prefill_streaming.c` with its workers; `mem` holds the
fresh buffers and `events` what happens in the parallel loop of each head. -/
def kvlMlaPrefillBf16Streaming (mem : StreamWork F D) (workers : Nat)
    (events : Nat → List Workers.Event) (x : Nat → F) (seqLen : Int) (out : Nat → F) :
    Option (Nat → F) :=
  if seqLen ≤ 0 ∨ ¬ cfg.Ok fl then none
  else
    let S := seqLen.toNat
    let inPlace : Bool := cfg.numHeads * cfg.vHeadDim = cfg.hiddenSize
    let work := streamLatents fl cfg w x S
      { mem with headSeq := if inPlace then out else mem.headSeq }
    ((List.range cfg.numHeads.toNat).foldlM (streamHead fl cfg w x S workers events) work).map
      fun work => prefillProject fl cfg w inPlace S work.headSeq
        (if inPlace then work.headSeq else out)

end Model

section Frames
variable {F D : Type*} {fl : MlaFloats F D} {cfg : MlaConfig F} {w : MlaBF16} {x : Nat → F}
  {seqLen h : Nat}

/-- The first values of another row. -/
theorem readFrom_writeAt_of_ne {n k i t t' : Nat} {f buf : Nat → F} (hk : k ≤ n) (hne : t ≠ t')
    (hi : i < n) : readFrom (t * n) (writeAt (t' * n) k f buf) i = readFrom (t * n) buf i := by
  apply readFrom_writeAt_of_disjoint
  rcases Nat.lt_or_gt_of_ne hne with hlt | hgt
  · exact .inl (row_offset_lt hlt hi)
  · have hrow := Nat.mul_le_mul_right n (Nat.succ_le_of_lt hgt)
    rw [Nat.succ_mul] at hrow
    exact .inr (by omega)

/-- Two workspaces with the same scratch of one worker. -/
structure SameScratch (cfg : MlaConfig F) (seqLen tid : Nat) (a b : StreamWork F D) : Prop where
  qtmp : rowAt cfg.queryDim tid a.qtmpAll = rowAt cfg.queryDim tid b.qtmpAll
  qrope : rowAt cfg.qkRopeDim.toNat tid a.qropeAll = rowAt cfg.qkRopeDim.toNat tid b.qropeAll
  scores : rowAt seqLen tid a.scoresAll = rowAt seqLen tid b.scoresAll
  valueAcc : rowAt cfg.vHeadDim.toNat tid a.valueAccAll = rowAt cfg.vHeadDim.toNat tid b.valueAccAll
  maxScore : a.maxScore tid = b.maxScore tid
  denom : a.denom tid = b.denom tid

/-- A worker writes its own scratch only. -/
theorem rowPhase_other {tid tid' t phase : Nat} (hne : tid' ≠ tid) (ht : t < seqLen)
    (work : StreamWork F D) :
    SameScratch cfg seqLen tid' (rowPhase fl cfg w x seqLen h tid t phase work) work := by
  have hscores : ∀ f, rowAt seqLen tid' (writeAt (tid * seqLen) (t + 1) f work.scoresAll) =
      rowAt seqLen tid' work.scoresAll :=
    fun f => row_congr fun j hj => readFrom_writeAt_of_ne ht hne hj
  match phase with
  | 0 => exact ⟨rowAt_writeAt_of_ne hne, rowAt_writeAt_of_ne hne, rfl, rfl, rfl, rfl⟩
  | 1 =>
    change SameScratch cfg seqLen tid' (scoreRow fl cfg seqLen tid t work) work
    unfold scoreRow
    dsimp only
    refine ⟨rfl, rfl, ?_, rfl, Function.update_of_ne hne _ _, rfl⟩
    dsimp only
    exact hscores _
  | 2 =>
    change SameScratch cfg seqLen tid' (softmaxRow fl seqLen tid t work) work
    unfold softmaxRow
    dsimp only
    refine ⟨rfl, rfl, ?_, rfl, rfl, Function.update_of_ne hne _ _⟩
    dsimp only
    exact hscores _
  | 3 => exact ⟨rfl, rfl, rfl, rowAt_writeAt_of_ne hne, rfl, rfl⟩
  | _ + 4 => exact ⟨rfl, rfl, rfl, rfl, rfl, rfl⟩

/-- The buffers that the workers only read. -/
structure SameShared (a b : StreamWork F D) : Prop where
  latentStates : a.latentStates = b.latentStates
  ropeStates : a.ropeStates = b.ropeStates
  kNope : a.kNope = b.kNope
  vStates : a.vStates = b.vStates

theorem rowPhase_shared {tid t phase : Nat} (work : StreamWork F D) :
    SameShared (rowPhase fl cfg w x seqLen h tid t phase work) work := by
  match phase with
  | 0 => exact ⟨rfl, rfl, rfl, rfl⟩
  | 1 => exact ⟨rfl, rfl, rfl, rfl⟩
  | 2 => exact ⟨rfl, rfl, rfl, rfl⟩
  | 3 => exact ⟨rfl, rfl, rfl, rfl⟩
  | _ + 4 => exact ⟨rfl, rfl, rfl, rfl⟩

/-- A worker writes the heads of its own row only, at the head of the loop. -/
theorem rowPhase_headSeq (hNH : 0 < cfg.numHeads) (hDV : 0 < cfg.vHeadDim) {tid t phase i : Nat}
    (hi : i ≠ cfg.headRow t h) (work : StreamWork F D) :
    rowAt cfg.vHeadDim.toNat i (rowPhase fl cfg w x seqLen h tid t phase work).headSeq =
      rowAt cfg.vHeadDim.toNat i work.headSeq := by
  match phase with
  | 0 => rfl
  | 1 => rfl
  | 2 => rfl
  | 3 => rfl
  | _ + 4 =>
    have hbase : t * cfg.headsOut + h * cfg.vHeadDim.toNat =
        cfg.headRow t h * cfg.vHeadDim.toNat := by
      unfold MlaConfig.headRow
      rw [MlaConfig.headsOut_eq hNH hDV, Nat.add_mul, Nat.mul_assoc]
    change rowAt cfg.vHeadDim.toNat i (storeRow fl cfg h tid t work).headSeq = _
    unfold storeRow
    dsimp only
    rw [hbase, rowAt_writeAt_of_ne hi]

end Frames

section Phases
variable {F D : Type*} (fl : MlaFloats F D) (cfg : MlaConfig F) (w : MlaBF16) (x : Nat → F)
  (seqLen h : Nat)

/-- The shared rows of head `h`, and the heads before it. -/
structure HeadShared (work : StreamWork F D) : Prop where
  latent : ∀ j < seqLen, rowAt cfg.kvLoraRank.toNat j work.latentStates =
    row cfg.kvLoraRank.toNat (latentOf fl cfg w (readFrom (j * cfg.hiddenSize.toNat) x))
  rope : ∀ j < seqLen, rowAt cfg.qkRopeDim.toNat j work.ropeStates =
    row cfg.qkRopeDim.toNat (ropeOf fl cfg w (readFrom (j * cfg.hiddenSize.toNat) x) j)
  keys : ∀ j < seqLen, rowAt cfg.qkNopeDim.toNat j work.kNope =
    row cfg.qkNopeDim.toNat (prefillKeyValue fl cfg w x h j)
  values : ∀ j < seqLen, rowAt cfg.vHeadDim.toNat j work.vStates =
    row cfg.vHeadDim.toNat (readFrom cfg.qkNopeDim.toNat (prefillKeyValue fl cfg w x h j))

/-- The scratch of a worker before a phase of row `t`. -/
structure AtPhase (tid t phase : Nat) (work : StreamWork F D) : Prop where
  query : 1 ≤ phase → rowAt cfg.queryDim tid work.qtmpAll =
    row cfg.queryDim (prefillQuery fl cfg w x h t)
  rope : 1 ≤ phase → rowAt cfg.qkRopeDim.toNat tid work.qropeAll =
    row cfg.qkRopeDim.toNat (ropeQuery fl cfg (prefillQuery fl cfg w x h t) t)
  raw : phase = 2 → ∀ j < t + 1, readFrom (tid * seqLen) work.scoresAll j =
    prefillScore fl cfg w x h t j
  maxScore : phase = 2 → work.maxScore tid = maxScore fl (t + 1) (prefillScore fl cfg w x h t)
  exps : 3 ≤ phase → ∀ j < t + 1, readFrom (tid * seqLen) work.scoresAll j =
    expScores fl (t + 1) (prefillScore fl cfg w x h t) j
  denom : 3 ≤ phase → work.denom tid =
    softDenom fl (t + 1) (expScores fl (t + 1) (prefillScore fl cfg w x h t))
  values : 4 ≤ phase → ∀ d < cfg.vHeadDim.toNat,
    fl.narrow (readFrom (tid * cfg.vHeadDim.toNat) work.valueAccAll d) =
      prefillHead fl cfg w x h t d

/-- The head of row `t` is in place. -/
def HeadAt (t : Nat) (work : StreamWork F D) : Prop :=
  rowAt cfg.vHeadDim.toNat (cfg.headRow t h) work.headSeq =
    row cfg.vHeadDim.toNat (prefillHead fl cfg w x h t)

variable {fl cfg w x seqLen h} {work : StreamWork F D} {tid t phase : Nat}

theorem AtPhase.congr {a b : StreamWork F D} (hscratch : SameScratch cfg seqLen tid a b)
    (ht : t < seqLen) (hat : AtPhase fl cfg w x seqLen h tid t phase b) :
    AtPhase fl cfg w x seqLen h tid t phase a := by
  have hscores := row_eq_iff.mp hscratch.scores
  constructor
  · exact fun hp => hscratch.qtmp.trans (hat.query hp)
  · exact fun hp => hscratch.qrope.trans (hat.rope hp)
  · exact fun hp j hj => (hscores j (by omega)).trans (hat.raw hp j hj)
  · exact fun hp => hscratch.maxScore.trans (hat.maxScore hp)
  · exact fun hp j hj => (hscores j (by omega)).trans (hat.exps hp j hj)
  · exact fun hp => hscratch.denom.trans (hat.denom hp)
  · intro hp d hd
    rw [row_eq_iff.mp hscratch.valueAcc d hd]
    exact hat.values hp d hd

theorem HeadShared.congr {a b : StreamWork F D} (hsame : SameShared a b)
    (hshared : HeadShared fl cfg w x seqLen h b) : HeadShared fl cfg w x seqLen h a := by
  constructor
  · rw [hsame.latentStates]
    exact hshared.latent
  · rw [hsame.ropeStates]
    exact hshared.rope
  · rw [hsame.kNope]
    exact hshared.keys
  · rw [hsame.vStates]
    exact hshared.values

/-- The first phase leaves the query of the row. -/
theorem projectRow_at (hDN : 0 < cfg.qkNopeDim) (hDR : 0 < cfg.qkRopeDim) :
    AtPhase fl cfg w x seqLen h tid t 1 (projectRow fl cfg w x h tid t work) := by
  have hdim := MlaConfig.queryDim_eq hDN hDR
  have hquery : ∀ buf, rowAt cfg.queryDim tid (writeAt (tid * cfg.queryDim) cfg.queryDim
      (prefillQuery fl cfg w x h t) buf) = row cfg.queryDim (prefillQuery fl cfg w x h t) :=
    fun buf => rowAt_writeAt_self
  constructor
  · exact fun _ => hquery _
  · intro _
    refine rowAt_writeAt_self.trans ?_
    unfold ropeQuery
    have hraw : row cfg.qkRopeDim.toNat (readFrom cfg.qkNopeDim.toNat
        (readFrom (tid * cfg.queryDim) (writeAt (tid * cfg.queryDim) cfg.queryDim
          (prefillQuery fl cfg w x h t) work.qtmpAll))) =
        row cfg.qkRopeDim.toNat (readFrom cfg.qkNopeDim.toNat (prefillQuery fl cfg w x h t)) := by
      apply row_congr
      intro d hd
      exact row_eq_iff.mp (hquery work.qtmpAll) (cfg.qkNopeDim.toNat + d) (by omega)
    exact congrArg (fun raw => row cfg.qkRopeDim.toNat (fl.rope raw t cfg.ropeTheta)) hraw
  · intro hp
    omega
  · intro hp
    omega
  · intro hp
    omega
  · intro hp
    omega
  · intro hp
    omega

theorem scoreRow_at (hDN : 0 < cfg.qkNopeDim) (hDR : 0 < cfg.qkRopeDim) (ht : t < seqLen)
    (hshared : HeadShared fl cfg w x seqLen h work)
    (hat : AtPhase fl cfg w x seqLen h tid t 1 work) :
    AtPhase fl cfg w x seqLen h tid t 2 (scoreRow fl cfg seqLen tid t work) := by
  have hdim := MlaConfig.queryDim_eq hDN hDR
  have hquery := row_eq_iff.mp (hat.query (Nat.le_refl 1))
  have hrope := row_eq_iff.mp (hat.rope (Nat.le_refl 1))
  have hraw : ∀ j < t + 1, readFrom (tid * seqLen)
      (scoreRow fl cfg seqLen tid t work).scoresAll j = prefillScore fl cfg w x h t j := by
    intro j hj
    have hkeys := row_eq_iff.mp (hshared.keys j (by omega))
    have hropes := row_eq_iff.mp (hshared.rope j (by omega))
    unfold scoreRow prefillScore
    dsimp only
    rw [readFrom_writeAt hj, dotFrom_congr (fun d hd => hquery d (by omega)) hkeys, dotFrom_congr hrope hropes]
  constructor
  · exact fun _ => hat.query (Nat.le_refl 1)
  · exact fun _ => hat.rope (Nat.le_refl 1)
  · exact fun _ => hraw
  · intro _
    refine (Function.update_self _ _ _).trans ?_
    exact maxScore_congr hraw
  · intro hp
    omega
  · intro hp
    omega
  · intro hp
    omega

theorem softmaxRow_at (hat : AtPhase fl cfg w x seqLen h tid t 2 work) :
    AtPhase fl cfg w x seqLen h tid t 3 (softmaxRow fl seqLen tid t work) := by
  have hexp : ∀ j < t + 1, readFrom (tid * seqLen) (softmaxRow fl seqLen tid t work).scoresAll j =
      expScores fl (t + 1) (prefillScore fl cfg w x h t) j := by
    intro j hj
    unfold softmaxRow expScores
    dsimp only
    rw [readFrom_writeAt hj, hat.raw rfl j hj, hat.maxScore rfl]
  constructor
  · exact fun _ => hat.query (by omega)
  · exact fun _ => hat.rope (by omega)
  · intro hp
    omega
  · intro hp
    omega
  · exact fun _ => hexp
  · intro _
    refine (Function.update_self _ _ _).trans ?_
    exact softDenom_congr hexp
  · intro hp
    omega

/-- Adding whole rows adds each of their values. -/
theorem valueAdd_apply (n d : Nat) (p : Nat → D) (v : Nat → Nat → F) (start : Nat → D) :
    (List.range n).foldl (fun acc j => valueAddF64 fl acc (v j) (p j)) start d =
      (List.range n).foldl (fun acc j => fl.addD acc (fl.mulD (p j) (fl.widen (v j d))))
        (start d) := by
  induction n with
  | zero => rfl
  | succ n ih =>
    rw [List.range_succ, List.foldl_append, List.foldl_append, ← ih]
    rfl

theorem valueRow_at (ht : t < seqLen) (hshared : HeadShared fl cfg w x seqLen h work)
    (hat : AtPhase fl cfg w x seqLen h tid t 3 work) :
    AtPhase fl cfg w x seqLen h tid t 4 (valueRow fl cfg seqLen tid t work) := by
  constructor
  · exact fun _ => hat.query (by omega)
  · exact fun _ => hat.rope (by omega)
  · intro hp
    omega
  · intro hp
    omega
  · exact fun _ => hat.exps (Nat.le_refl 3)
  · exact fun _ => hat.denom (Nat.le_refl 3)
  · intro _ d hd
    have hread : readFrom (tid * cfg.vHeadDim.toNat) (valueRow fl cfg seqLen tid t work).valueAccAll
        d = _ := readFrom_writeAt hd
    rw [hread, valueAdd_apply]
    unfold prefillHead
    dsimp only
    congr 1
    apply foldl_range_congr
    intro acc j hj
    have hvalue := row_eq_iff.mp (hshared.values j (by omega)) d hd
    rw [hat.exps (Nat.le_refl 3) j hj, hat.denom (Nat.le_refl 3), hvalue]

theorem storeRow_headAt (hNH : 0 < cfg.numHeads) (hDV : 0 < cfg.vHeadDim)
    (hat : AtPhase fl cfg w x seqLen h tid t 4 work) :
    HeadAt fl cfg w x h t (storeRow fl cfg h tid t work) := by
  have hbase : t * cfg.headsOut + h * cfg.vHeadDim.toNat =
      cfg.headRow t h * cfg.vHeadDim.toNat := by
    unfold MlaConfig.headRow
    rw [MlaConfig.headsOut_eq hNH hDV, Nat.add_mul, Nat.mul_assoc]
  unfold HeadAt storeRow
  dsimp only
  rw [hbase, rowAt_writeAt_self]
  exact row_congr fun d hd => hat.values (Nat.le_refl 4) d hd

/-- The rows of a head that are in place before it is computed. -/
def HeadsBefore (fl : MlaFloats F D) (cfg : MlaConfig F) (w : MlaBF16) (x : Nat → F)
    (seqLen h : Nat) (work : StreamWork F D) : Prop :=
  ∀ h' < h, ∀ t < seqLen, HeadAt fl cfg w x h' t work

theorem rowPhase_sound (hok : cfg.Ok fl) (hh : h < cfg.numHeads.toNat) (workers : Nat) :
    Workers.Sound workers seqLen 5 (rowPhase fl cfg w x seqLen h)
      (fun work => HeadShared fl cfg w x seqLen h work ∧ HeadsBefore fl cfg w x seqLen h work)
      (AtPhase fl cfg w x seqLen h) (HeadAt fl cfg w x h) := by
  obtain ⟨_, hNH, hDN, hDR, _, hDV, _, _⟩ := hok
  constructor
  · rintro tid t phase work _ _ ⟨hshared, hbefore⟩
    refine ⟨hshared.congr (rowPhase_shared work), fun h' hh' t' ht' => ?_⟩
    have hrow := @MlaConfig.headRow_ne _ cfg t' t _ _ (hh'.trans hh) hh (.inr (Nat.ne_of_lt hh'))
    exact (rowPhase_headSeq hNH hDV hrow work).trans (hbefore h' hh' t' ht')
  · intro tid t work _
    constructor <;> intro hp <;> omega
  · rintro tid t phase work _ ht hphase ⟨hshared, _⟩ hat
    match phase with
    | 0 => exact projectRow_at hDN hDR
    | 1 => exact scoreRow_at hDN hDR ht hshared hat
    | 2 => exact softmaxRow_at hat
    | 3 => exact valueRow_at ht hshared hat
    | n + 4 => omega
  · intro tid t phase work _ _ hlast _ hat
    obtain rfl : phase = 4 := by omega
    exact storeRow_headAt hNH hDV hat
  · intro tid t phase tid' t' phase' work hne ht ht' hat
    exact hat.congr (rowPhase_other hne ht work) ht'
  · intro tid t phase t' work hne _ hdone
    have hrow := @MlaConfig.headRow_ne _ cfg _ _ _ _ hh hh (.inl hne.symm)
    exact (rowPhase_headSeq hNH hDV hrow work).trans hdone

end Phases

section Heads
variable {F D : Type*} {fl : MlaFloats F D} {cfg : MlaConfig F} {w : MlaBF16} {x : Nat → F}
  {seqLen : Nat}

/-- The latent and rope rows of all tokens. -/
def LatentsFilled (fl : MlaFloats F D) (cfg : MlaConfig F) (w : MlaBF16) (x : Nat → F)
    (seqLen : Nat) (work : StreamWork F D) : Prop :=
  ∀ j < seqLen, rowAt cfg.kvLoraRank.toNat j work.latentStates =
      row cfg.kvLoraRank.toNat (latentOf fl cfg w (readFrom (j * cfg.hiddenSize.toNat) x)) ∧
    rowAt cfg.qkRopeDim.toNat j work.ropeStates =
      row cfg.qkRopeDim.toNat (ropeOf fl cfg w (readFrom (j * cfg.hiddenSize.toNat) x) j)

theorem streamLatents_filled (work : StreamWork F D) :
    LatentsFilled fl cfg w x seqLen (streamLatents fl cfg w x seqLen work) := by
  have hloop := @foldl_range_settles (StreamWork F D) (fun work t =>
      { work with
        latentStates := writeAt (t * cfg.kvLoraRank.toNat) cfg.kvLoraRank.toNat
          (latentOf fl cfg w (readFrom (t * cfg.hiddenSize.toNat) x)) work.latentStates
        ropeStates := writeAt (t * cfg.qkRopeDim.toNat) cfg.qkRopeDim.toNat
          (ropeOf fl cfg w (readFrom (t * cfg.hiddenSize.toNat) x) t) work.ropeStates })
    (fun _ => True)
    (fun work j => rowAt cfg.kvLoraRank.toNat j work.latentStates =
        row cfg.kvLoraRank.toNat (latentOf fl cfg w (readFrom (j * cfg.hiddenSize.toNat) x)) ∧
      rowAt cfg.qkRopeDim.toNat j work.ropeStates =
        row cfg.qkRopeDim.toNat (ropeOf fl cfg w (readFrom (j * cfg.hiddenSize.toNat) x) j))
    (fun _ _ _ => trivial) (fun _ _ _ => ⟨rowAt_writeAt_self, rowAt_writeAt_self⟩)
    (fun _ _ _ _ hj hrow => ⟨(rowAt_writeAt_of_ne (Nat.ne_of_lt hj)).trans hrow.1,
      (rowAt_writeAt_of_ne (Nat.ne_of_lt hj)).trans hrow.2⟩) work trivial seqLen
  exact hloop.2

/-- The keys and values of a head overwrite those of the head before it. -/
theorem streamKeyValues_shared {work : StreamWork F D} (h : Nat)
    (hfilled : LatentsFilled fl cfg w x seqLen work) :
    HeadShared fl cfg w x seqLen h (streamKeyValues fl cfg w seqLen h work) ∧
      (streamKeyValues fl cfg w seqLen h work).headSeq = work.headSeq := by
  have hkvtmp : ∀ j < seqLen, bf16Row fl.toMoeFloats
      (readFrom (j * cfg.kvLoraRank.toNat) work.latentStates)
      (readFrom (h * cfg.headRows * cfg.kvLoraRank.toNat) w.kvBProj) cfg.kvLoraRank =
      prefillKeyValue fl cfg w x h j := by
    intro j hj
    funext i
    exact bf16Row_congr i (row_eq_iff.mp (hfilled j hj).1)
  suffices hloop : ∀ n ≤ seqLen,
      (let looped := streamKeyValues fl cfg w n h work
      looped.latentStates = work.latentStates ∧ looped.ropeStates = work.ropeStates ∧
        looped.headSeq = work.headSeq ∧
        ∀ j < n, rowAt cfg.qkNopeDim.toNat j looped.kNope =
            row cfg.qkNopeDim.toNat (prefillKeyValue fl cfg w x h j) ∧
          rowAt cfg.vHeadDim.toNat j looped.vStates = row cfg.vHeadDim.toNat
            (readFrom cfg.qkNopeDim.toNat (prefillKeyValue fl cfg w x h j))) by
    obtain ⟨hlatent, hrope, hheads, hrows⟩ := hloop seqLen (Nat.le_refl _)
    refine ⟨⟨?_, ?_, fun j hj => (hrows j hj).1, fun j hj => (hrows j hj).2⟩, hheads⟩
    · rw [hlatent]
      exact fun j hj => (hfilled j hj).1
    · rw [hrope]
      exact fun j hj => (hfilled j hj).2
  intro n hn
  induction n with
  | zero => exact ⟨rfl, rfl, rfl, fun j hj => absurd hj (Nat.not_lt_zero j)⟩
  | succ n ih =>
    obtain ⟨hlatent, hrope, hheads, hrows⟩ := ih (Nat.le_of_succ_le hn)
    unfold streamKeyValues at hlatent hrope hheads hrows ⊢
    dsimp only at hlatent hrope hheads hrows ⊢
    rw [List.range_succ, List.foldl_append, List.foldl_cons, List.foldl_nil]
    rw [hlatent, hkvtmp n hn]
    refine ⟨rfl, hrope, hheads, fun j hj => ?_⟩
    rcases Nat.lt_succ_iff_lt_or_eq.mp hj with hlt | heq
    · exact ⟨(rowAt_writeAt_of_ne (Nat.ne_of_lt hlt)).trans (hrows j hlt).1,
        (rowAt_writeAt_of_ne (Nat.ne_of_lt hlt)).trans (hrows j hlt).2⟩
    · subst heq
      exact ⟨rowAt_writeAt_self, rowAt_writeAt_self⟩

theorem streamHead_spec (hok : cfg.Ok fl) {workers h : Nat} {events : Nat → List Workers.Event}
    (hh : h < cfg.numHeads.toNat) (hwhole : Workers.Whole workers seqLen 5 (events h))
    {work : StreamWork F D} (hfilled : LatentsFilled fl cfg w x seqLen work)
    (hbefore : HeadsBefore fl cfg w x seqLen h work) :
    ∃ work', streamHead fl cfg w x seqLen workers events work h = some work' ∧
      LatentsFilled fl cfg w x seqLen work' ∧ HeadsBefore fl cfg w x seqLen (h + 1) work' := by
  obtain ⟨hshared, hheads⟩ := streamKeyValues_shared h hfilled
  have hstart : HeadsBefore fl cfg w x seqLen h (streamKeyValues fl cfg w seqLen h work) := by
    unfold HeadsBefore HeadAt
    rw [hheads]
    exact hbefore
  obtain ⟨work', hloop⟩ := Option.isSome_iff_exists.mp (@Workers.Whole.loop_isSome _ workers seqLen 5
    (rowPhase fl cfg w x seqLen h) _ hwhole (streamKeyValues fl cfg w seqLen h work))
  obtain ⟨⟨hshared', hbefore'⟩, hdone⟩ :=
    (rowPhase_sound hok hh workers).loop (by omega) ⟨hshared, hstart⟩ hloop
  refine ⟨work', hloop, fun j hj => ⟨hshared'.latent j hj, hshared'.rope j hj⟩, ?_⟩
  intro h' hh' t ht
  rcases Nat.lt_succ_iff_lt_or_eq.mp hh' with hlt | heq
  · exact hbefore' h' hlt t ht
  · subst heq
    exact hdone t ht

theorem streamHeads_spec (hok : cfg.Ok fl) {workers : Nat} {events : Nat → List Workers.Event}
    (hwhole : ∀ h < cfg.numHeads.toNat, Workers.Whole workers seqLen 5 (events h))
    {work : StreamWork F D} (hfilled : LatentsFilled fl cfg w x seqLen work) {n : Nat}
    (hn : n ≤ cfg.numHeads.toNat) :
    ∃ work', (List.range n).foldlM (streamHead fl cfg w x seqLen workers events) work =
        some work' ∧
      LatentsFilled fl cfg w x seqLen work' ∧ HeadsBefore fl cfg w x seqLen n work' := by
  induction n with
  | zero => exact ⟨work, rfl, hfilled, fun h hh => absurd hh (Nat.not_lt_zero h)⟩
  | succ n ih =>
    obtain ⟨mid, hmid, hfilledMid, hbeforeMid⟩ := ih (Nat.le_of_succ_le hn)
    obtain ⟨work', hhead, hrest⟩ :=
      streamHead_spec hok hn (hwhole n hn) hfilledMid hbeforeMid
    refine ⟨work', ?_, hrest⟩
    rw [List.range_succ, List.foldlM_append, hmid]
    change Option.bind (streamHead fl cfg w x seqLen workers events mid n) _ = _
    rw [hhead]
    rfl

/-- The staged heads of a token are its heads side by side. -/
theorem headSeq_token (hNH : 0 < cfg.numHeads) (hDV : 0 < cfg.vHeadDim) {work : StreamWork F D}
    (hbefore : HeadsBefore fl cfg w x seqLen cfg.numHeads.toNat work) {t : Nat} (ht : t < seqLen) :
    bf16Row fl.toMoeFloats (readFrom (t * cfg.headsOut) work.headSeq) w.oProj
        (cfg.numHeads * cfg.vHeadDim) =
      bf16Row fl.toMoeFloats (headOut cfg fun h d => prefillHead fl cfg w x h t d) w.oProj
        (cfg.numHeads * cfg.vHeadDim) := by
  refine bf16Row_of_heads hNH hDV fun h hh => ?_
  refine Eq.trans (row_congr fun d _ => ?_) (hbefore h hh t ht)
  unfold readFrom
  congr 1
  unfold MlaConfig.headRow
  rw [MlaConfig.headsOut_eq hNH hDV]
  ring

/-- The rows of `out` do not depend on the workers. -/
theorem kvlMlaPrefillBf16Streaming_rows (hok : cfg.Ok fl) {seqLen : Int} (hlen : 0 < seqLen)
    {workers : Nat} {events : Nat → List Workers.Event}
    (hwhole : ∀ h < cfg.numHeads.toNat, Workers.Whole workers seqLen.toNat 5 (events h))
    (mem : StreamWork F D) (out : Nat → F) :
    ∃ out', kvlMlaPrefillBf16Streaming fl cfg w mem workers events x seqLen out = some out' ∧
      ∀ t < seqLen.toNat, rowAt cfg.hiddenSize.toNat t out' =
        row cfg.hiddenSize.toNat (bf16Row fl.toMoeFloats
          (headOut cfg fun h d => prefillHead fl cfg w x h t d) w.oProj
          (cfg.numHeads * cfg.vHeadDim)) := by
  obtain ⟨_, hNH, _, _, _, hDV, _, _⟩ := id hok
  have hargs : ¬ (seqLen ≤ 0 ∨ ¬ cfg.Ok fl) := by
    rintro (h | h)
    · omega
    · exact h hok
  unfold kvlMlaPrefillBf16Streaming
  rw [if_neg hargs]
  dsimp only
  obtain ⟨work, hwork, _, hbefore⟩ := streamHeads_spec hok hwhole
    (@streamLatents_filled _ _ fl cfg w x seqLen.toNat _) (Nat.le_refl _)
  rw [hwork]
  refine ⟨_, rfl, fun t ht => ?_⟩
  have hplace : decide (cfg.numHeads * cfg.vHeadDim = cfg.hiddenSize) = true →
      cfg.numHeads * cfg.vHeadDim = cfg.hiddenSize ∧
        work.headSeq = if decide (cfg.numHeads * cfg.vHeadDim = cfg.hiddenSize) then work.headSeq
          else out := by
    intro h
    rw [if_pos h]
    exact ⟨of_decide_eq_true h, rfl⟩
  refine (prefillProject_rows hplace ht).trans ?_
  rw [headSeq_token hNH hDV hbefore ht]

end Heads

/-- Streaming and materialised prefill refuse the same arguments and write the same rows, whatever
the workers of each head do and in whatever order. -/
theorem streaming_eq_materialised {K : Type*} [Field K] (fl : MlaFloats K K) (cfg : MlaConfig K)
    (w : MlaBF16) (x : Nat → K) (seqLen : Int) (workers : Nat)
    (events : Nat → List Workers.Event)
    (hwhole : ∀ h < cfg.numHeads.toNat, Workers.Whole workers seqLen.toNat 5 (events h))
    (work : StreamWork K K) (mem : PrefillStates K) (headMem out : Nat → K) :
    (kvlMlaPrefillBf16Streaming (exactFloats fl) cfg w work workers events x seqLen out = none ↔
      kvlMlaPrefillBf16Ops (exactFloats fl) cfg w mem headMem x seqLen out = none) ∧
    ∀ streamed,
      kvlMlaPrefillBf16Streaming (exactFloats fl) cfg w work workers events x seqLen out =
        some streamed →
      ∃ materialised,
        kvlMlaPrefillBf16Ops (exactFloats fl) cfg w mem headMem x seqLen out =
          some materialised ∧
        ∀ t < seqLen.toNat, rowAt cfg.hiddenSize.toNat t streamed =
          rowAt cfg.hiddenSize.toNat t materialised := by
  by_cases hargs : seqLen ≤ 0 ∨ ¬ cfg.Ok (exactFloats fl)
  · have hstreaming :
        kvlMlaPrefillBf16Streaming (exactFloats fl) cfg w work workers events x seqLen out =
          none := by
      unfold kvlMlaPrefillBf16Streaming
      rw [if_pos hargs]
    have hops : kvlMlaPrefillBf16Ops (exactFloats fl) cfg w mem headMem x seqLen out = none := by
      unfold kvlMlaPrefillBf16Ops
      rw [if_pos hargs]
    rw [hstreaming, hops]
    exact ⟨Iff.rfl, fun _ h => absurd h.symm (Option.some_ne_none _)⟩
  · have hlen : 0 < seqLen := by omega
    have hok : cfg.Ok (exactFloats fl) := by
      by_contra hno
      exact hargs (.inr hno)
    obtain ⟨streamed, hstreamed, hrows⟩ :=
      @kvlMlaPrefillBf16Streaming_rows K K (exactFloats fl) cfg w x hok seqLen hlen workers events
        hwhole work out
    obtain ⟨materialised, hmaterialised, hrows'⟩ :=
      kvlMlaPrefillBf16Ops_rows hok mem headMem x hlen out
    rw [hstreamed, hmaterialised]
    refine ⟨⟨fun h => ?_, fun h => ?_⟩, fun streamed' h => ?_⟩
    · exact absurd h (Option.some_ne_none _)
    · exact absurd h (Option.some_ne_none _)
    · obtain rfl := Option.some.inj h
      exact ⟨materialised, rfl, fun t ht => (hrows t ht).trans (hrows' t ht).symm⟩

/-- Two workers on three rows whose phases interleave. -/
def twoWorkers : List Workers.Event :=
  [.take 1 2, .take 0 0, .advance 1, .advance 0, .advance 0, .advance 1, .advance 1, .advance 0,
    .advance 1, .advance 0, .advance 0, .take 0 1, .advance 1, .advance 0, .advance 0, .advance 0,
    .advance 0, .advance 0]

/-- Two heads of one value, staged in `out`. -/
theorem streaming_eq_materialised_twoWorkers : ∃ streamed materialised,
    kvlMlaPrefillBf16Streaming (exactFloats ratFloats) ⟨2, 2, 1, 2, 1, 2, 0, 1⟩
      (ratTrunk.layer 0).attn ⟨fun _ => 1, fun _ => 2, fun _ => 3, fun _ => 4, fun _ => 5,
        fun _ => 6, fun _ => 7, fun _ => 8, fun _ => 9, fun _ => 1, fun _ => 2⟩ 2
      (fun _ => twoWorkers) (fun i => i) 3 (fun _ => 0) = some streamed ∧
    kvlMlaPrefillBf16Ops (exactFloats ratFloats) ⟨2, 2, 1, 2, 1, 2, 0, 1⟩
      (ratTrunk.layer 0).attn ⟨fun _ => 1, fun _ => 2, fun _ => 3⟩ (fun _ => 4) (fun i => i) 3
      (fun _ => 0) = some materialised ∧
    ∀ t < 3, rowAt 2 t streamed = rowAt 2 t materialised := by
  have h := streaming_eq_materialised ratFloats ⟨2, 2, 1, 2, 1, 2, 0, 1⟩ (ratTrunk.layer 0).attn
    (fun i => i) 3 2 (fun _ => twoWorkers) (by decide +kernel)
    ⟨fun _ => 1, fun _ => 2, fun _ => 3, fun _ => 4, fun _ => 5, fun _ => 6, fun _ => 7, fun _ => 8,
      fun _ => 9, fun _ => 1, fun _ => 2⟩ ⟨fun _ => 1, fun _ => 2, fun _ => 3⟩ (fun _ => 4)
    (fun _ => 0)
  obtain ⟨streamed, hstreamed⟩ := Option.ne_none_iff_exists'.mp (mt h.1.mp (by
    unfold kvlMlaPrefillBf16Ops
    rw [if_neg (by decide)]
    exact Option.some_ne_none _))
  obtain ⟨materialised, hmaterialised, hrows⟩ := h.2 streamed hstreamed
  exact ⟨streamed, materialised, hstreamed, hmaterialised, hrows⟩

end Kvl
