import Kvl.Lib.PyText

/-!
# The memory plan of a request

`kvl_memory_plan.py` and `KimiRuntime._plan`: the bytes a generation is counted
with, and the trunk cache that the automatic setting picks.
-/

namespace Kvl.Plan

set_option autoImplicit false

open PyText

def HIDDEN : Nat := 2048
def LAYERS : Nat := 27
def HEADS : Nat := 16
def QK_NOPE : Nat := 128
def QK_ROPE : Nat := 64
def VALUE_HEAD : Nat := 128
def KV_LATENT : Nat := 512
def KV_LATENT_PLUS_ROPE : Nat := KV_LATENT + QK_ROPE
def DENSE_INTERMEDIATE : Nat := 11264
def FP32_BYTES : Nat := 4
def BF16_BYTES : Nat := 2
def MIB : Nat := 1024 * 1024
def GLOBAL_BF16_BYTES : Nat := 2 * (163840 * HIDDEN * BF16_BYTES) + HIDDEN * BF16_BYTES
def LAYER_MAJOR_PROMPT_BUFFERS : Nat := 3
def PEAK_LAYER_BF16_BYTES : Nat := 3 * DENSE_INTERMEDIATE * HIDDEN * BF16_BYTES
def RUNTIME_MISC_SAFETY : Nat := 128 * MIB
def FULL_TRUNK_CACHE_MIB : Nat := 1706

inductive TrunkCacheRequest
  | mib (value : Int)
  | str (value : Str)

def lowerAscii (c : Nat) : Nat := if 65 ≤ c ∧ c ≤ 90 then c + 32 else c

/-- The explicit budget, or `none` for `auto`. -/
def parseTrunkCacheRequest (value : TrunkCacheRequest) : Except Exc (Option Nat) :=
  match value with
  | .mib v => if v < 0 then .error (valueError "trunk cache must be >= 0") else .ok (some v.toNat)
  | .str s =>
    let raw := (strip s).map lowerAscii
    if raw = text "auto" then .ok none
    else
      match pyInt raw with
      | none =>
        .error (valueError "trunk cache must be 'auto' or a non-negative integer MiB value")
      | some parsed =>
        if parsed < 0 then .error (valueError "trunk cache must be >= 0")
        else .ok (some parsed.toNat)

structure TextBreakdown where
  globalBf16 : Nat
  compressedState : Nat
  sequenceWorkspace : Nat
  streamingMlaWorkspace : Nat
  expertCache : Nat
  trunkCache : Nat
  peakLayerBf16 : Nat
  miscSafety : Nat

def TextBreakdown.total (p : TextBreakdown) : Nat :=
  p.globalBf16 + p.compressedState + p.sequenceWorkspace + p.streamingMlaWorkspace +
    p.expertCache + p.trunkCache + p.peakLayerBf16 + p.miscSafety

def streamingMlaWorkspaceBytes (promptTokens : Nat) : Nat :=
  promptTokens * (KV_LATENT_PLUS_ROPE + QK_NOPE + VALUE_HEAD + 1) * FP32_BYTES +
    ((QK_NOPE + QK_ROPE) * FP32_BYTES + (KV_LATENT + QK_ROPE) * FP32_BYTES +
      (QK_NOPE + VALUE_HEAD) * FP32_BYTES + QK_ROPE * FP32_BYTES +
      (HEADS * VALUE_HEAD) * FP32_BYTES + VALUE_HEAD * 8)

def plannedTextBreakdown (promptTokens : Nat) (maxNew cacheMib : Int) (trunkCacheMib : Nat) :
    Except Exc TextBreakdown :=
  if promptTokens = 0 ∨ maxNew ≤ 0 ∨ cacheMib ≤ 0 then
    .error (valueError
      "prompt_tokens, max_new and cache_mib must be positive; trunk_cache_mib must be >= 0")
  else .ok
    { globalBf16 := GLOBAL_BF16_BYTES
      compressedState :=
        LAYERS * (promptTokens + maxNew.toNat) * KV_LATENT_PLUS_ROPE * FP32_BYTES
      sequenceWorkspace := LAYER_MAJOR_PROMPT_BUFFERS * promptTokens * HIDDEN * FP32_BYTES
      streamingMlaWorkspace := streamingMlaWorkspaceBytes promptTokens
      expertCache := cacheMib.toNat * MIB
      trunkCache := trunkCacheMib * MIB
      peakLayerBf16 := PEAK_LAYER_BF16_BYTES
      miscSafety := RUNTIME_MISC_SAFETY }

def resolveTrunkCacheMib (promptTokens : Nat) (maxNew cacheMib ramMib : Int)
    (requested : TrunkCacheRequest) : Except Exc Nat :=
  if ramMib ≤ 0 then .error (valueError "ram_mib must be positive")
  else
    match parseTrunkCacheRequest requested with
    | .error e => .error e
    | .ok (some parsed) => .ok parsed
    | .ok none =>
      match plannedTextBreakdown promptTokens maxNew cacheMib 0 with
      | .error e => .error e
      | .ok base =>
        if ramMib.toNat * MIB ≤ base.total then .ok 0
        else .ok (min FULL_TRUNK_CACHE_MIB ((ramMib.toNat * MIB - base.total) / MIB))

/-- What `KimiRuntime` is configured with; `rejected` is the text of a plan over budget. -/
structure PlanConfig where
  cacheMib : Int
  trunkCacheRequest : TrunkCacheRequest
  ramMib : Int
  rejected : Nat → Str

/-- `_plan` -/
def plan (cfg : PlanConfig) (promptTokens : Nat) (maxTokens : Int) :
    Except Exc (Nat × TextBreakdown) :=
  if maxTokens ≤ 0 then .error (valueError "max_tokens must be positive")
  else
    match resolveTrunkCacheMib promptTokens maxTokens cfg.cacheMib cfg.ramMib
        cfg.trunkCacheRequest with
    | .error e => .error e
    | .ok trunkCacheMib =>
      match plannedTextBreakdown promptTokens maxTokens cfg.cacheMib trunkCacheMib with
      | .error e => .error e
      | .ok parts =>
        if cfg.ramMib.toNat * MIB < parts.total then .error ⟨.value, cfg.rejected parts.total⟩
        else .ok (trunkCacheMib, parts)

theorem plannedTextBreakdown_total {promptTokens : Nat} {maxNew cacheMib : Int}
    {base parts : TextBreakdown} {trunkCacheMib : Nat}
    (hbase : plannedTextBreakdown promptTokens maxNew cacheMib 0 = .ok base)
    (hparts : plannedTextBreakdown promptTokens maxNew cacheMib trunkCacheMib = .ok parts) :
    parts.total = base.total + trunkCacheMib * MIB := by
  unfold plannedTextBreakdown at hbase hparts
  by_cases hargs : promptTokens = 0 ∨ maxNew ≤ 0 ∨ cacheMib ≤ 0
  · rw [if_pos hargs] at hbase
    cases hbase
  · rw [if_neg hargs] at hbase hparts
    cases hbase
    cases hparts
    simp only [TextBreakdown.total]
    ring

/-- The automatic cache never takes a plan over the budget. -/
theorem resolveTrunkCacheMib_auto_total {promptTokens : Nat} {maxNew cacheMib ramMib : Int}
    {requested : TrunkCacheRequest} {base parts : TextBreakdown} {trunkCacheMib : Nat}
    (hauto : parseTrunkCacheRequest requested = .ok none)
    (hbase : plannedTextBreakdown promptTokens maxNew cacheMib 0 = .ok base)
    (hfits : base.total ≤ ramMib.toNat * MIB)
    (hres : resolveTrunkCacheMib promptTokens maxNew cacheMib ramMib requested =
      .ok trunkCacheMib)
    (hparts : plannedTextBreakdown promptTokens maxNew cacheMib trunkCacheMib = .ok parts) :
    parts.total ≤ ramMib.toNat * MIB := by
  rw [plannedTextBreakdown_total hbase hparts]
  unfold resolveTrunkCacheMib at hres
  by_cases hram : ramMib ≤ 0
  · rw [if_pos hram] at hres
    cases hres
  · rw [if_neg hram, hauto, hbase] at hres
    by_cases hfull : ramMib.toNat * MIB ≤ base.total
    · simp only [if_pos hfull, Except.ok.injEq] at hres
      rw [← hres]
      omega
    · simp only [if_neg hfull, Except.ok.injEq] at hres
      have hmin : trunkCacheMib ≤ (ramMib.toNat * MIB - base.total) / MIB := by
        rw [← hres]
        exact Nat.min_le_right _ _
      have hmul := Nat.mul_le_mul_right MIB hmin
      have hdiv := Nat.div_mul_le_self (ramMib.toNat * MIB - base.total) MIB
      omega

/-- Every plan that is accepted fits the budget. -/
theorem plan_total_le {cfg : PlanConfig} {promptTokens : Nat} {maxTokens : Int}
    {result : Nat × TextBreakdown} (h : plan cfg promptTokens maxTokens = .ok result) :
    result.2.total ≤ cfg.ramMib.toNat * MIB ∧ 0 < maxTokens ∧ 0 < promptTokens := by
  unfold plan at h
  by_cases hmax : maxTokens ≤ 0
  · rw [if_pos hmax] at h
    cases h
  · rw [if_neg hmax] at h
    cases hres : resolveTrunkCacheMib promptTokens maxTokens cfg.cacheMib cfg.ramMib
        cfg.trunkCacheRequest with
    | error e =>
      rw [hres] at h
      cases h
    | ok trunkCacheMib =>
      cases hparts : plannedTextBreakdown promptTokens maxTokens cfg.cacheMib trunkCacheMib with
      | error e =>
        simp only [hres, hparts] at h
        cases h
      | ok parts =>
        simp only [hres, hparts] at h
        by_cases hover : cfg.ramMib.toNat * MIB < parts.total
        · rw [if_pos hover] at h
          cases h
        · rw [if_neg hover] at h
          cases h
          refine ⟨Nat.le_of_not_lt hover, by omega, ?_⟩
          by_contra hzero
          unfold plannedTextBreakdown at hparts
          rw [if_pos (Or.inl (by omega))] at hparts
          cases hparts

end Kvl.Plan
