import Kvl.Generate.Block
import Kvl.Mla.Rollback

/-!
# Rollback of both compressed states

The unquantised and the quantised state obey the laws of a state of rows. What
a quantised row reads back as is its dequantised latent and its widened rope.
-/

namespace Kvl

set_option autoImplicit false

section Fill
variable {σ : Type*}

/-- A counted loop that settles one index at a time. -/
theorem foldl_range_settles {step : σ → Nat → σ} {I : σ → Prop} {P : σ → Nat → Prop}
    (hI : ∀ s t, I s → I (step s t)) (hwrite : ∀ s t, I s → P (step s t) t)
    (hkeep : ∀ s t j, I s → j < t → P s j → P (step s t) j) {s : σ} (hs : I s) (n : Nat) :
    I ((List.range n).foldl step s) ∧ ∀ t < n, P ((List.range n).foldl step s) t := by
  induction n with
  | zero => exact ⟨hs, fun t ht => absurd ht (Nat.not_lt_zero t)⟩
  | succ n ih =>
    obtain ⟨hinv, hrows⟩ := ih
    rw [List.range_succ, List.foldl_append, List.foldl_cons, List.foldl_nil]
    refine ⟨hI _ n hinv, fun t ht => ?_⟩
    rcases Nat.lt_succ_iff_lt_or_eq.mp ht with hlt | heq
    · exact hkeep _ n t hinv hlt (hrows t hlt)
    · subst heq
      exact hwrite _ t hinv

end Fill

section Checks
variable {F D : Type*}

/-- The checks both prefills make, in the order they make them. -/
theorem fillChecks_isSome {α : Type*} {fl : MlaFloats F D} {cfg : MlaConfig F}
    {n len capacity rank ropeDim : Int} (a : α) :
    (if n ≤ 0 ∨ len ≠ 0 ∨ capacity < n ∨ rank ≠ cfg.kvLoraRank ∨ ropeDim ≠ cfg.qkRopeDim then none
      else if cfg.hiddenSize ≤ 0 ∨ cfg.kvLoraRank ≤ 0 ∨ cfg.qkRopeDim ≤ 0 ∨
        cfg.qkRopeDim % 2 ≠ 0 ∨ thetaRefused fl cfg = true then none
      else some a).isSome = true ↔
      0 < n ∧ len = 0 ∧ n ≤ capacity ∧ Fits cfg ⟨capacity, rank, ropeDim⟩ ∧ FillOk fl cfg := by
  unfold Fits
  split
  · rename_i hbad
    simp only [Option.isSome_none, Bool.false_eq_true, false_iff]
    rintro ⟨h1, h2, h3, ⟨h4, h5⟩, _⟩
    omega
  rename_i hgood
  split
  · rename_i hbad
    simp only [Option.isSome_none, Bool.false_eq_true, false_iff]
    rintro ⟨_, _, _, _, hH, hR, hDR, heven, htheta⟩
    rcases hbad with h | h | h | h | h
    · omega
    · omega
    · omega
    · omega
    · rw [htheta] at h
      simp at h
  · rename_i hok
    have htheta : thetaRefused fl cfg = false :=
      Bool.eq_false_iff.mpr fun h => hok (.inr (.inr (.inr (.inr h))))
    simp only [Option.isSome_some, true_iff]
    exact ⟨by omega, by omega, by omega, ⟨by omega, by omega⟩, by omega, by omega, by omega,
      by omega, htheta⟩

end Checks

section F32
variable {F D : Type*} (fl : MlaFloats F D)

def kvlMlaCompressedStateReset (state : MlaCompressedState F) : MlaCompressedState F :=
  { state with len := 0 }

def f32Rows : RowMachine F (MlaCompressedState F) where
  init := kvlMlaCompressedStateInit fl
  reset := kvlMlaCompressedStateReset
  truncate := kvlMlaCompressedStateTruncate
  prefill cfg w x seqLen state := kvlMlaCompressedStatePrefillBf16 fl cfg w x seqLen state
  decode cfg w base x position state out :=
    kvlMlaDecodeCompressedBf16 fl cfg w base x position state out
  shape state := ⟨state.capacity, state.kvLoraRank, state.qkRopeDim⟩
  len := MlaCompressedState.len
  latentRow := MlaCompressedState.latentRow
  ropeRow := MlaCompressedState.ropeRow
  latentOf := latentOf fl
  ropeOf := ropeOf fl

variable {fl} {cfg : MlaConfig F} {w : MlaBF16} {x : Nat → F} {state : MlaCompressedState F}

theorem put_rowIs (hfits : Fits cfg ((f32Rows fl).shape state)) (t : Nat) :
    RowIs (f32Rows fl) (state.put fl cfg w t x) t cfg w x := by
  obtain ⟨hrank, hrope⟩ := hfits
  constructor
  · change row _ (readFrom (t * state.kvLoraRank.toNat) (writeAt _ _ _ _)) = _
    rw [show state.kvLoraRank = cfg.kvLoraRank from hrank]
    exact rowAt_writeAt_self
  · change row _ (readFrom (t * state.qkRopeDim.toNat) (writeAt _ _ _ _)) = _
    rw [show state.qkRopeDim = cfg.qkRopeDim from hrope]
    exact rowAt_writeAt_self

theorem put_row_other (hfits : Fits cfg ((f32Rows fl).shape state)) {t j : Nat} (hj : j < t) :
    row cfg.kvLoraRank.toNat ((state.put fl cfg w t x).latentRow j) =
        row cfg.kvLoraRank.toNat (state.latentRow j) ∧
      row cfg.qkRopeDim.toNat ((state.put fl cfg w t x).ropeRow j) =
        row cfg.qkRopeDim.toNat (state.ropeRow j) := by
  obtain ⟨hrank, hrope⟩ := hfits
  constructor
  · change row _ (readFrom (j * state.kvLoraRank.toNat) (writeAt _ _ _ _)) =
      row _ (readFrom (j * state.kvLoraRank.toNat) _)
    rw [show state.kvLoraRank = cfg.kvLoraRank from hrank]
    exact rowAt_writeAt_of_ne (by omega)
  · change row _ (readFrom (j * state.qkRopeDim.toNat) (writeAt _ _ _ _)) =
      row _ (readFrom (j * state.qkRopeDim.toNat) _)
    rw [show state.qkRopeDim = cfg.qkRopeDim from hrope]
    exact rowAt_writeAt_of_ne (by omega)

theorem f32Rows_lawful (fl : MlaFloats F D) : (f32Rows fl).Lawful fl where
  init := by
    intro cfg capacity s h
    change kvlMlaCompressedStateInit fl cfg capacity = some s at h
    unfold kvlMlaCompressedStateInit at h
    split at h
    · simp at h
    · obtain rfl := Option.some.inj h
      exact ⟨rfl, by change 0 ≤ capacity; omega⟩
  reset _ := ⟨rfl, rfl⟩
  truncate := by
    intro s n s' h
    change kvlMlaCompressedStateTruncate s n = some s' at h
    unfold kvlMlaCompressedStateTruncate at h
    split at h
    · simp at h
    · obtain rfl := Option.some.inj h
      refine ⟨by omega, ?_, rfl, rfl, rfl, rfl⟩
      change n ≤ s.len
      omega
  prefill_iff := fillChecks_isSome _
  prefill := by
    intro cfg w x n s s' h
    change kvlMlaCompressedStatePrefillBf16 fl cfg w x n s = some s' at h
    have hguard := (fillChecks_isSome _).mp (Option.isSome_iff_exists.mpr ⟨s', h⟩)
    unfold kvlMlaCompressedStatePrefillBf16 at h
    split at h
    · simp at h
    split at h
    · simp at h
    obtain rfl := Option.some.inj h
    have hloop := @foldl_range_settles _
      (fun state t => state.put fl cfg w t (readFrom (t * cfg.hiddenSize.toNat) x))
      (fun state => (f32Rows fl).shape state = (f32Rows fl).shape s)
      (fun state t => RowIs (f32Rows fl) state t cfg w (readFrom (t * cfg.hiddenSize.toNat) x))
      (fun state t h => h)
      (fun state t h => put_rowIs (h ▸ hguard.2.2.2.1) t)
      (fun state t j h hj hrow => by
        obtain ⟨hlatent, hrope⟩ := @put_row_other _ _ fl cfg w
          (readFrom (t * cfg.hiddenSize.toNat) x) state (h ▸ hguard.2.2.2.1) t j hj
        exact ⟨hlatent.trans hrow.latent, hrope.trans hrow.rope⟩) s rfl n.toNat
    exact ⟨rfl, hloop.1, fun t ht => ⟨(hloop.2 t ht).latent, (hloop.2 t ht).rope⟩⟩
  decode_iff := by
    intro cfg w base x position s out
    constructor
    · intro h
      by_contra hno
      have hrefuse : ¬ Accepts fl cfg s position := by
        rintro ⟨h1, h2, h3, h4, h5, h6⟩
        exact hno ⟨h1, h2, h3, ⟨h4, h5⟩, h6⟩
      change (kvlMlaDecodeCompressedBf16 fl cfg w base x position s out).isSome = true at h
      rw [decode_refuses hrefuse] at h
      simp at h
    · rintro ⟨h1, h2, h3, ⟨h4, h5⟩, h6⟩
      change (kvlMlaDecodeCompressedBf16 fl cfg w base x position s out).isSome = true
      rw [decode_accepts ⟨h1, h2, h3, h4, h5, h6⟩]
      rfl
  decode := by
    intro cfg w base x position s out r h
    change kvlMlaDecodeCompressedBf16 fl cfg w base x position s out = some r at h
    have haccepts : Accepts fl cfg s position := by
      by_contra hno
      rw [decode_refuses hno] at h
      simp at h
    rw [decode_accepts haccepts] at h
    obtain rfl := Option.some.inj h
    have hfits : Fits cfg ((f32Rows fl).shape s) := ⟨haccepts.rank, haccepts.ropeDim⟩
    refine ⟨rfl, rfl, fun j hj => put_row_other hfits hj, ?_, ?_⟩
    · have hrow := @put_rowIs _ _ fl cfg w x s hfits position.toNat
      exact ⟨hrow.latent, hrow.rope⟩
    · have hattn := @attnOf_eq_attnOver _ _ fl cfg w (s.put fl cfg w position.toNat x)
        haccepts.rank haccepts.ropeDim x position
      exact congrArg (fun attn => writeAt base cfg.hiddenSize.toNat attn out) hattn
  congr := by
    intro cfg w x x' hx
    change latentOf fl cfg w x = latentOf fl cfg w x' ∧
      ∀ position, ropeOf fl cfg w x position = ropeOf fl cfg w x' position
    unfold latentOf ropeOf
    rw [proj_congr hx]
    exact ⟨rfl, fun _ => rfl⟩

end F32

section Q8
variable {F D : Type*} (fl : MlaQ8Floats F D)

/-- The latent row of a token as it is read back. -/
def latentOfQ8 (cfg : MlaConfig F) (w : MlaBF16) (x : Nat → F) (r : Nat) : F :=
  let q := quantizeLatentToken fl (latentOf fl.toMlaFloats cfg w x) cfg.kvLoraRank.toNat
  fl.mul (fl.ofInt8F (q.1 r)) q.2

def ropeOfQ8 (cfg : MlaConfig F) (w : MlaBF16) (x : Nat → F) (position : Int) (d : Nat) : F :=
  fl.bf16ToF32 (f32ToBf16RneQ8 fl (ropeOf fl.toMlaFloats cfg w x position d))

def q8Rows : RowMachine F (MlaCompressedQ8State F) where
  init := kvlMlaCompressedQ8StateInit fl
  reset := kvlMlaCompressedQ8StateReset
  truncate := kvlMlaCompressedQ8StateTruncate
  prefill cfg w x seqLen state := kvlMlaCompressedQ8StatePrefillBf16 fl cfg w x seqLen state
  decode cfg w base x position state out :=
    kvlMlaDecodeCompressedQ8Bf16 fl cfg w base x position state out
  shape state := ⟨state.capacity, state.kvLoraRank, state.qkRopeDim⟩
  len := MlaCompressedQ8State.len
  latentRow := dequantLatent fl
  ropeRow := MlaCompressedQ8State.ropeRow fl
  latentOf := latentOfQ8 fl
  ropeOf := ropeOfQ8 fl

variable {fl} {cfg : MlaConfig F} {w : MlaBF16} {x : Nat → F} {state : MlaCompressedQ8State F}

theorem appendQ8_rope (t : Nat) : (appendQ8Entry fl cfg w x t state).ropeBf16 =
    writeAt (t * cfg.qkRopeDim.toNat) cfg.qkRopeDim.toNat
      (fun d => f32ToBf16RneQ8 fl (ropeOf fl.toMlaFloats cfg w x t d)) state.ropeBf16 := rfl

theorem appendQ8_rowIs (hfits : Fits cfg ((q8Rows fl).shape state)) (t : Nat) :
    RowIs (q8Rows fl) (appendQ8Entry fl cfg w x t state) t cfg w x := by
  obtain ⟨hrank, hrope⟩ := hfits
  constructor
  · apply row_congr
    intro r hr
    have hbyte : (appendQ8Entry fl cfg w x t state).latentQ8 (t * state.kvLoraRank.toNat + r) =
        (quantizeLatentToken fl (latentOf fl.toMlaFloats cfg w x) cfg.kvLoraRank.toNat).1 r := by
      rw [show state.kvLoraRank = cfg.kvLoraRank from hrank]
      exact readFrom_writeAt hr
    have hscale : (appendQ8Entry fl cfg w x t state).latentScale t =
        (quantizeLatentToken fl (latentOf fl.toMlaFloats cfg w x) cfg.kvLoraRank.toNat).2 :=
      Function.update_self _ _ _
    change fl.mul (fl.ofInt8F ((appendQ8Entry fl cfg w x t state).latentQ8
      (t * state.kvLoraRank.toNat + r))) _ = _
    rw [hbyte, hscale]
    rfl
  · apply row_congr
    intro d hd
    have hword : (appendQ8Entry fl cfg w x t state).ropeBf16 (t * state.qkRopeDim.toNat + d) =
        f32ToBf16RneQ8 fl (ropeOf fl.toMlaFloats cfg w x t d) := by
      rw [show state.qkRopeDim = cfg.qkRopeDim from hrope]
      exact (congrFun (appendQ8_rope t) _).trans (readFrom_writeAt hd)
    exact congrArg fl.bf16ToF32 hword

theorem appendQ8_row_other (hfits : Fits cfg ((q8Rows fl).shape state)) {t j : Nat} (hj : j < t) :
    row cfg.kvLoraRank.toNat (dequantLatent fl (appendQ8Entry fl cfg w x t state) j) =
        row cfg.kvLoraRank.toNat (dequantLatent fl state j) ∧
      row cfg.qkRopeDim.toNat ((appendQ8Entry fl cfg w x t state).ropeRow fl j) =
        row cfg.qkRopeDim.toNat (state.ropeRow fl j) := by
  obtain ⟨hrank, hrope⟩ := hfits
  constructor
  · apply row_congr
    intro r hr
    have hbyte : (appendQ8Entry fl cfg w x t state).latentQ8 (j * state.kvLoraRank.toNat + r) =
        state.latentQ8 (j * state.kvLoraRank.toNat + r) := by
      rw [show state.kvLoraRank = cfg.kvLoraRank from hrank]
      exact readFrom_writeAt_of_disjoint (.inl (row_offset_lt hj hr))
    have hscale : (appendQ8Entry fl cfg w x t state).latentScale j = state.latentScale j :=
      Function.update_of_ne (Nat.ne_of_lt hj) _ _
    change fl.mul (fl.ofInt8F ((appendQ8Entry fl cfg w x t state).latentQ8
      (j * state.kvLoraRank.toNat + r))) _ = _
    rw [hbyte, hscale]
    rfl
  · apply row_congr
    intro d hd
    have hword : (appendQ8Entry fl cfg w x t state).ropeBf16 (j * state.qkRopeDim.toNat + d) =
        state.ropeBf16 (j * state.qkRopeDim.toNat + d) := by
      rw [show state.qkRopeDim = cfg.qkRopeDim from hrope]
      exact (congrFun (appendQ8_rope t) _).trans
        (readFrom_writeAt_of_disjoint (.inl (row_offset_lt hj hd)))
    exact congrArg fl.bf16ToF32 hword

/-- What the quantised kernel asks for. -/
def AcceptsQ8 (fl : MlaQ8Floats F D) (cfg : MlaConfig F) (state : MlaCompressedQ8State F)
    (position : Int) : Prop :=
  position = state.len ∧ 0 ≤ position ∧ position < state.capacity ∧
    Fits cfg ((q8Rows fl).shape state) ∧ cfg.Ok fl.toMlaFloats

theorem decodeQ8_accepts {base : Nat} {position : Int} {out : Nat → F}
    (h : AcceptsQ8 fl cfg state position) :
    kvlMlaDecodeCompressedQ8Bf16 fl cfg w base x position state out =
      some (writeAt base cfg.hiddenSize.toNat (attnOver fl.toMlaFloats cfg w
          (dequantLatent fl (appendQ8Entry fl cfg w x position.toNat state))
          ((appendQ8Entry fl cfg w x position.toNat state).ropeRow fl) x position) out,
        { appendQ8Entry fl cfg w x position.toNat state with len := position + 1 }) := by
  obtain ⟨hlen, hnonneg, hroom, ⟨hrank, hrope⟩, hok⟩ := h
  have hguard : ¬ (position ≠ state.len ∨ position < 0 ∨ position ≥ state.capacity ∨
      state.kvLoraRank ≠ cfg.kvLoraRank ∨ state.qkRopeDim ≠ cfg.qkRopeDim) := by
    rintro (h | h | h | h | h)
    · exact h hlen
    · omega
    · omega
    · exact h hrank
    · exact h hrope
  unfold kvlMlaDecodeCompressedQ8Bf16
  rw [if_neg hguard, if_neg (not_not.mpr hok)]
  rfl

theorem decodeQ8_refuses {base : Nat} {position : Int} {out : Nat → F}
    (h : ¬ AcceptsQ8 fl cfg state position) :
    kvlMlaDecodeCompressedQ8Bf16 fl cfg w base x position state out = none := by
  unfold kvlMlaDecodeCompressedQ8Bf16
  split
  · rfl
  rename_i hgood
  rw [if_pos]
  intro hok
  exact h ⟨by omega, by omega, by omega, ⟨by change state.kvLoraRank = _; omega,
    by change state.qkRopeDim = _; omega⟩, hok⟩

theorem q8Rows_lawful (fl : MlaQ8Floats F D) : (q8Rows fl).Lawful fl.toMlaFloats where
  init := by
    intro cfg capacity s h
    change kvlMlaCompressedQ8StateInit fl cfg capacity = some s at h
    unfold kvlMlaCompressedQ8StateInit at h
    split at h
    · simp at h
    · obtain rfl := Option.some.inj h
      exact ⟨rfl, by change 0 ≤ capacity; omega⟩
  reset _ := ⟨rfl, rfl⟩
  truncate := by
    intro s n s' h
    change kvlMlaCompressedQ8StateTruncate s n = some s' at h
    unfold kvlMlaCompressedQ8StateTruncate at h
    split at h
    · simp at h
    · obtain rfl := Option.some.inj h
      refine ⟨by omega, ?_, rfl, rfl, rfl, rfl⟩
      change n ≤ s.len
      omega
  prefill_iff := fillChecks_isSome _
  prefill := by
    intro cfg w x n s s' h
    change kvlMlaCompressedQ8StatePrefillBf16 fl cfg w x n s = some s' at h
    have hguard := (fillChecks_isSome _).mp (Option.isSome_iff_exists.mpr ⟨s', h⟩)
    unfold kvlMlaCompressedQ8StatePrefillBf16 at h
    split at h
    · simp at h
    split at h
    · simp at h
    obtain rfl := Option.some.inj h
    have hloop := @foldl_range_settles _
      (fun state t => appendQ8Entry fl cfg w (readFrom (t * cfg.hiddenSize.toNat) x) t state)
      (fun state => (q8Rows fl).shape state = (q8Rows fl).shape s)
      (fun state t => RowIs (q8Rows fl) state t cfg w (readFrom (t * cfg.hiddenSize.toNat) x))
      (fun state t h => h)
      (fun state t h => appendQ8_rowIs (h ▸ hguard.2.2.2.1) t)
      (fun state t j h hj hrow => by
        obtain ⟨hlatent, hrope⟩ := @appendQ8_row_other _ _ fl cfg w
          (readFrom (t * cfg.hiddenSize.toNat) x) state (h ▸ hguard.2.2.2.1) t j hj
        exact ⟨hlatent.trans hrow.latent, hrope.trans hrow.rope⟩) s rfl n.toNat
    exact ⟨rfl, hloop.1, fun t ht => ⟨(hloop.2 t ht).latent, (hloop.2 t ht).rope⟩⟩
  decode_iff := by
    intro cfg w base x position s out
    change (kvlMlaDecodeCompressedQ8Bf16 fl cfg w base x position s out).isSome = true ↔
      AcceptsQ8 fl cfg s position
    by_cases h : AcceptsQ8 fl cfg s position
    · rw [decodeQ8_accepts h]
      exact ⟨fun _ => h, fun _ => rfl⟩
    · rw [decodeQ8_refuses h]
      exact ⟨fun hno => by simp at hno, fun hyes => absurd hyes h⟩
  decode := by
    intro cfg w base x position s out r h
    change kvlMlaDecodeCompressedQ8Bf16 fl cfg w base x position s out = some r at h
    have hok : AcceptsQ8 fl cfg s position := by
      by_contra hno
      rw [decodeQ8_refuses hno] at h
      simp at h
    rw [decodeQ8_accepts hok] at h
    obtain rfl := Option.some.inj h
    have hfits := hok.2.2.2.1
    have hrow := @appendQ8_rowIs _ _ fl cfg w x s hfits position.toNat
    exact ⟨rfl, rfl, fun j hj => appendQ8_row_other hfits hj, ⟨hrow.latent, hrow.rope⟩, rfl⟩
  congr := by
    intro cfg w x x' hx
    change latentOfQ8 fl cfg w x = latentOfQ8 fl cfg w x' ∧
      ∀ position, ropeOfQ8 fl cfg w x position = ropeOfQ8 fl cfg w x' position
    have hlatent : latentOf fl.toMlaFloats cfg w x = latentOf fl.toMlaFloats cfg w x' := by
      unfold latentOf
      rw [proj_congr hx]
    have hrope : ∀ position,
        ropeOf fl.toMlaFloats cfg w x position = ropeOf fl.toMlaFloats cfg w x' position := by
      intro position
      unfold ropeOf
      rw [proj_congr hx]
    refine ⟨?_, fun position => ?_⟩
    · funext r
      unfold latentOfQ8
      rw [hlatent]
    · funext d
      unfold ropeOfQ8
      rw [hrope]

end Q8

/-- Rolling either state back leaves no trace of the tokens that are gone. -/
theorem rollback_noTrace {F D : Type*} (fl : MlaQ8Floats F D) {cfg : MlaConfig F} {capacity : Int}
    {s₀ : MlaCompressedState F} {q₀ : MlaCompressedQ8State F}
    (hinit : kvlMlaCompressedStateInit fl.toMlaFloats cfg capacity = some s₀)
    (hinitQ8 : kvlMlaCompressedQ8StateInit fl cfg capacity = some q₀) (ops : List (MlaOp F)) :
    NoTrace (f32Rows fl.toMlaFloats) fl.toMlaFloats s₀ ops ∧
      NoTrace (q8Rows fl) fl.toMlaFloats q₀ ops :=
  ⟨(f32Rows_lawful fl.toMlaFloats).noTrace hinit ops, (q8Rows_lawful fl).noTrace hinitQ8 ops⟩

def intQ8Floats : MlaQ8Floats Int Int where
  toMlaFloats := intMlaFloats
  abs a := |a|
  round := id
  toInt8 a := UInt8.ofNat a.toNat
  ofInt8F b := b.toNat
  bits a := UInt32.ofNat a.toNat

/-- Three tokens, a rollback to one, a call out of order and another token. -/
def rollbackOps : List (MlaOp Int) :=
  [.prefill smallTrunk.cfg (smallTrunk.layer 0).attn (fun i => i) 3 true, .truncate 1,
    .decode smallTrunk.cfg (smallTrunk.layer 0).attn 0 (fun _ => 4) 3 (fun _ => 0) true,
    .decode smallTrunk.cfg (smallTrunk.layer 0).attn 0 (fun _ => 4) 1 (fun _ => 0) true]

theorem rollback_noTrace_ops : ∃ s₀ q₀,
    NoTrace (f32Rows intMlaFloats) intMlaFloats s₀ rollbackOps ∧
      NoTrace (q8Rows intQ8Floats) intMlaFloats q₀ rollbackOps ∧
      ((f32Rows intMlaFloats).run s₀ rollbackOps).2.length = 2 :=
  have h := @rollback_noTrace _ _ intQ8Floats smallTrunk.cfg 4 _ _ rfl rfl rollbackOps
  ⟨_, _, h.1, h.2, by decide +kernel⟩

end Kvl
