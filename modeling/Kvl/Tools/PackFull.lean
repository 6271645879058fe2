import Kvl.Lib.Dict
import Kvl.Lib.PyText
import Kvl.Lib.Residency
import Kvl.Lib.Sums

/-!
# The full text pack

The converter downloads one source shard after the other, packs every layer and global whose
shards are all there, and deletes the shards that nothing still needs.
-/

namespace Kvl.PackFull

set_option autoImplicit false

open PyText (Str text strNat)
open Residency

inductive Global
  | embed
  | finalNorm
  | lmHead
  deriving DecidableEq

/-- `GLOBALS`, in the order of its items. -/
def globals : List Global := [.embed, .finalNorm, .lmHead]

def Global.tensor : Global → Str
  | .embed => text "language_model.model.embed_tokens.weight"
  | .finalNorm => text "language_model.model.norm.weight"
  | .lmHead => text "language_model.lm_head.weight"

structure TextConfig where
  numHiddenLayers : Int
  firstKDenseReplace : Int
  moeLayerFreq : Int
  nRoutedExperts : Int

inductive ExpertFormat
  | bf16
  | q8
  | q5
  | none
  deriving DecidableEq

structure Args where
  keepSourceShards : Bool
  maxLayer : Option Int
  expertFormat : ExpertFormat

/-! ### What is needed -/

def layerPrefix (layer : Nat) : Str := text "language_model.model.layers." ++ strNat layer

/-- The names of `tensor_spec`. -/
def tensorSpec (layer : Nat) (dense : Bool) : List Str :=
  (["input_layernorm.weight", "post_attention_layernorm.weight", "self_attn.q_proj.weight",
      "self_attn.kv_a_proj_with_mqa.weight", "self_attn.kv_a_layernorm.weight",
      "self_attn.kv_b_proj.weight", "self_attn.o_proj.weight"] ++
    if dense then ["mlp.gate_proj.weight", "mlp.up_proj.weight", "mlp.down_proj.weight"]
    else ["mlp.gate.weight", "mlp.gate.e_score_correction_bias",
      "mlp.shared_experts.gate_proj.weight", "mlp.shared_experts.up_proj.weight",
      "mlp.shared_experts.down_proj.weight"]).map
    fun name => layerPrefix layer ++ text "." ++ text name

/-- `is_moe`. A remainder by zero raises. -/
def isMoe (cfg : TextConfig) (layer : Nat) : Option Bool :=
  if 0 < cfg.nRoutedExperts ∧ cfg.firstKDenseReplace ≤ layer then
    if cfg.moeLayerFreq = 0 then none else some (decide ((layer : Int) % cfg.moeLayerFreq = 0))
  else some false

section
variable {σ : Type*}

/-- The tensors of a layer, `none` where the converter exits. -/
def layerNames (cfg : TextConfig) (format : ExpertFormat) (wm : List (Str × σ)) (layer : Nat) :
    Option (List Str) :=
  if format = .none then
    (isMoe cfg layer).bind fun moe =>
      let names := tensorSpec layer (!moe)
      let missing := names.filter fun name => decide (name ∉ wm.map Prod.fst)
      if missing = [] then some names else none
  else
    let names := (wm.map Prod.fst).filter (layerPrefix layer ++ text ".").isPrefixOf
    if names = [] then none else some names

def maxLayer (cfg : TextConfig) (args : Args) : Int :=
  match args.maxLayer with
  | none => cfg.numHiddenLayers - 1
  | some l => min l (cfg.numHiddenLayers - 1)

/-- The number of layers that are packed. -/
def layerCount (cfg : TextConfig) (args : Args) : Nat := (maxLayer cfg args + 1).toNat

variable [LinearOrder σ]

/-- `layer_req` and `global_req`. -/
structure Plan (σ : Type*) where
  layerReq : List (Finset σ)
  globalReq : Global → σ

def layerReq (cfg : TextConfig) (format : ExpertFormat) (wm : List (Str × σ)) (layer : Nat) :
    Option (Finset σ) :=
  (layerNames cfg format wm layer).bind fun names =>
    (names.mapM fun name => Dict.get name wm).map List.toFinset

/-- The initial checks. -/
def plan (cfg : TextConfig) (args : Args) (wm : List (Str × σ)) : Option (Plan σ) :=
  ((List.range (layerCount cfg args)).mapM (layerReq cfg args.expertFormat wm)).bind fun layers =>
    (Dict.get Global.embed.tensor wm).bind fun embed =>
      (Dict.get Global.finalNorm.tensor wm).bind fun finalNorm =>
        (Dict.get Global.lmHead.tensor wm).map fun lmHead =>
          ⟨layers, fun
            | .embed => embed
            | .finalNorm => finalNorm
            | .lmHead => lmHead⟩

/-! ### The shard loop -/

inductive Job
  | globalTensor (g : Global)
  | trunk (layer : Nat)
  | experts (layer : Nat)
  deriving DecidableEq

/-- A packer run, with `--append` or without. -/
structure Command where
  job : Job
  append : Bool
  deriving DecidableEq

/-- What the loop keeps, the shards on disk, the indexes of the output directory and the trace
of the downloads, packer runs and deletions. -/
structure Conversion (σ : Type*) where
  doneLayers : Finset Nat
  doneGlobals : Finset Global
  loaded : Finset σ
  disk : Finset σ
  trunkIdx : Bool
  expertsIdx : Bool
  trace : List (Event σ Command)

def Plan.shards (p : Plan σ) : Finset σ :=
  p.layerReq.foldl (· ∪ ·) ∅ ∪ (globals.map p.globalReq).toFinset

/-- `all_shards`. -/
def Plan.allShards (p : Plan σ) : List σ := p.shards.sort (· ≤ ·)

/-- What a layer needs. -/
def Plan.req (p : Plan σ) (layer : Nat) : Finset σ := (p.layerReq[layer]?).getD ∅

namespace Conversion

def download (s : Conversion σ) (shard : σ) : Conversion σ :=
  { s with
    disk := insert shard s.disk
    loaded := insert shard s.loaded
    trace := s.trace ++ [.acquire shard] }

def packGlobal (p : Plan σ) (s : Conversion σ) (g : Global) : Conversion σ :=
  if g ∉ s.doneGlobals ∧ p.globalReq g ∈ s.loaded then
    { s with
      doneGlobals := insert g s.doneGlobals
      trunkIdx := true
      trace := s.trace ++ [.run ⟨.globalTensor g, s.trunkIdx⟩] }
  else s

def runTrunk (s : Conversion σ) (layer : Nat) : Conversion σ :=
  { s with trunkIdx := true, trace := s.trace ++ [.run ⟨.trunk layer, s.trunkIdx⟩] }

def runExperts (s : Conversion σ) (layer : Nat) : Conversion σ :=
  { s with expertsIdx := true, trace := s.trace ++ [.run ⟨.experts layer, s.expertsIdx⟩] }

/-- Whether the expert packer is run on a layer. -/
def packsExperts (cfg : TextConfig) (args : Args) (layer : Nat) : Bool :=
  args.expertFormat ≠ .none && decide (cfg.firstKDenseReplace ≤ layer)

/-- The body of the loop over the layers, with `progress`. -/
def packLayer (cfg : TextConfig) (args : Args) (p : Plan σ) (s : Conversion σ × Bool)
    (layer : Nat) : Conversion σ × Bool :=
  if layer ∈ s.1.doneLayers ∨ ¬ p.req layer ⊆ s.1.loaded then s
  else
    let packed := s.1.runTrunk layer
    let packed := if packsExperts cfg args layer then packed.runExperts layer else packed
    ({ packed with doneLayers := insert layer packed.doneLayers }, true)

def layerPass (cfg : TextConfig) (args : Args) (p : Plan σ) (s : Conversion σ) :
    Conversion σ × Bool :=
  (List.range p.layerReq.length).foldl (packLayer cfg args p) (s, false)

/-- `while progress`, with at most `fuel` passes and `none` where these are not enough. -/
def packLayers (cfg : TextConfig) (args : Args) (p : Plan σ) :
    Nat → Conversion σ → Option (Conversion σ)
  | 0, _ => none
  | fuel + 1, s =>
    let pass := layerPass cfg args p s
    if pass.2 then packLayers cfg args p fuel pass.1 else some pass.1

/-- What is still needed. -/
def still (p : Plan σ) (s : Conversion σ) : Finset σ :=
  ((List.range p.layerReq.length).filter fun layer => decide (layer ∉ s.doneLayers)).foldl
      (fun needed layer => needed ∪ p.req layer) ∅ ∪
    ((globals.filter fun g => decide (g ∉ s.doneGlobals)).map p.globalReq).toFinset

/-- The deletion of one shard, if it is there. -/
def release (needed : Finset σ) (s : Conversion σ) (shard : σ) : Conversion σ :=
  if shard ∈ needed then s
  else
    { s with
      loaded := s.loaded.erase shard
      disk := s.disk.erase shard
      trace := if shard ∈ s.disk then s.trace ++ [.release shard] else s.trace }

def releaseConsumed (p : Plan σ) (s : Conversion σ) : Conversion σ :=
  (s.loaded.sort (· ≤ ·)).foldl (release (still p s)) s

/-- The body of the loop over the shards. -/
def packShard (cfg : TextConfig) (args : Args) (p : Plan σ) (fuel : Nat) (s : Conversion σ)
    (shard : σ) : Option (Conversion σ) :=
  (packLayers cfg args p fuel (globals.foldl (packGlobal p) (s.download shard))).map fun s =>
    if args.keepSourceShards then s else releaseConsumed p s

/-- The layers and globals that are left. -/
def missing (p : Plan σ) (s : Conversion σ) : List Nat × List Global :=
  ((List.range p.layerReq.length).filter fun layer => decide (layer ∉ s.doneLayers),
    globals.filter fun g => decide (g ∉ s.doneGlobals))

end Conversion

/-- The loop over the shards and the check after it, from a work directory that holds the
shards of `disk`, and an output directory with or without the two indexes. The inner `none` is
the exit of an incomplete conversion. -/
def packFullText (cfg : TextConfig) (args : Args) (p : Plan σ) (disk : Finset σ)
    (trunkIdx expertsIdx : Bool) (fuel : Nat) : Option (Option (Conversion σ)) :=
  (p.allShards.foldlM (Conversion.packShard cfg args p fuel)
      ⟨∅, ∅, ∅, disk, trunkIdx, expertsIdx, []⟩).map fun s =>
    if Conversion.missing p s = ([], []) then some s else none

/-! ### What a plan needs -/

/-- The shards that hold the tensors of a job. -/
def Job.needs (cfg : TextConfig) (args : Args) (wm : List (Str × σ)) : Job → Set σ
  | .globalTensor g => {shard | Dict.get g.tensor wm = some shard}
  | .trunk layer | .experts layer =>
    {shard | ∃ names, layerNames cfg args.expertFormat wm layer = some names ∧
      ∃ name ∈ names, Dict.get name wm = some shard}

/-- What is to be packed. -/
def jobs (cfg : TextConfig) (args : Args) : Set Job
  | .globalTensor _ => True
  | .trunk layer => layer < layerCount cfg args
  | .experts layer => layer < layerCount cfg args ∧ Conversion.packsExperts cfg args layer

theorem mem_foldl_union {α : Type*} (f : α → Finset σ) (l : List α) (start : Finset σ) (x : σ) :
    x ∈ l.foldl (fun acc a => acc ∪ f a) start ↔ x ∈ start ∨ ∃ a ∈ l, x ∈ f a := by
  induction l generalizing start with
  | nil => simp
  | cons a l ih =>
    simp only [List.foldl_cons, ih, Finset.mem_union, List.mem_cons, exists_eq_or_imp, or_assoc]

theorem Global.mem_globals (g : Global) : g ∈ globals := by
  cases g <;> decide

/-- A plan that passes the initial checks against the weight map. -/
structure Plan.Of (cfg : TextConfig) (args : Args) (wm : List (Str × σ)) (p : Plan σ) : Prop where
  length : p.layerReq.length = layerCount cfg args
  req : ∀ layer < layerCount cfg args, ∀ j ∈ [Job.trunk layer, Job.experts layer],
    (p.req layer : Set σ) = j.needs cfg args wm
  nonempty : ∀ layer < layerCount cfg args, (p.req layer).Nonempty
  global : ∀ g, {p.globalReq g} = (Job.globalTensor g).needs cfg args wm

omit [LinearOrder σ] in
/-- No layer is without tensors. -/
theorem layerNames_ne_nil {cfg : TextConfig} {format : ExpertFormat} {wm : List (Str × σ)}
    {layer : Nat} {names : List Str} (h : layerNames cfg format wm layer = some names) :
    names ≠ [] := by
  unfold layerNames at h
  by_cases hf : format = .none
  · rw [if_pos hf, Option.bind_eq_some_iff] at h
    obtain ⟨moe, -, h⟩ := h
    by_cases hmiss : ((tensorSpec layer (!moe)).filter fun name =>
        decide (name ∉ wm.map Prod.fst)) = []
    · rw [if_pos hmiss] at h
      cases h
      intro hnil
      rw [tensorSpec, List.map_eq_nil_iff] at hnil
      cases hnil
    · rw [if_neg hmiss] at h
      cases h
  · rw [if_neg hf] at h
    by_cases hnil : ((wm.map Prod.fst).filter (layerPrefix layer ++ text ".").isPrefixOf) = []
    · rw [if_pos hnil] at h
      cases h
    · rw [if_neg hnil] at h
      cases h
      exact hnil

theorem layerReq_spec {cfg : TextConfig} {args : Args} {wm : List (Str × σ)} {layer : Nat}
    {req : Finset σ} (h : layerReq cfg args.expertFormat wm layer = some req) :
    req.Nonempty ∧ ∀ j ∈ [Job.trunk layer, Job.experts layer],
      (req : Set σ) = j.needs cfg args wm := by
  obtain ⟨names, hnames, h⟩ := Option.bind_eq_some_iff.mp h
  obtain ⟨shards, hshards, rfl⟩ := Option.map_eq_some_iff.mp h
  have hall := Sums.mapM_forall₂ hshards
  have hmem := Sums.mem_of_forall₂ hall
  have hset : (shards.toFinset : Set σ) = (Job.trunk layer).needs cfg args wm := by
    ext shard
    rw [Finset.mem_coe, List.mem_toFinset, hmem]
    constructor
    · rintro ⟨name, hname, hget⟩
      exact ⟨names, hnames, name, hname, hget⟩
    · rintro ⟨names', hnames', name, hname, hget⟩
      cases hnames.symm.trans hnames'
      exact ⟨name, hname, hget⟩
  constructor
  · have hlen := List.length_pos_iff.mpr (layerNames_ne_nil hnames)
    rw [hall.length_eq] at hlen
    obtain ⟨shard, hshard⟩ := List.exists_mem_of_length_pos hlen
    exact ⟨shard, List.mem_toFinset.mpr hshard⟩
  · intro j hj
    rw [hset]
    cases List.mem_pair.mp hj with
    | inl h => rw [h]
    | inr h =>
      rw [h]
      rfl

theorem plan_of {cfg : TextConfig} {args : Args} {wm : List (Str × σ)} {p : Plan σ}
    (h : plan cfg args wm = some p) : p.Of cfg args wm := by
  obtain ⟨layers, hlayers, h⟩ := Option.bind_eq_some_iff.mp h
  obtain ⟨embed, hembed, h⟩ := Option.bind_eq_some_iff.mp h
  obtain ⟨finalNorm, hfinal, h⟩ := Option.bind_eq_some_iff.mp h
  obtain ⟨lmHead, hlm, rfl⟩ := Option.map_eq_some_iff.mp h
  have hall := Sums.mapM_forall₂ hlayers
  have hlen : layers.length = layerCount cfg args := by rw [← hall.length_eq, List.length_range]
  have hreq (layer : Nat) (hlayer : layer < layerCount cfg args) :
      ∃ req, layers[layer]? = some req ∧ layerReq cfg args.expertFormat wm layer = some req := by
    have hin : layer < layers.length := hlen ▸ hlayer
    refine ⟨layers[layer], List.getElem?_eq_getElem hin, ?_⟩
    have hget := List.forall₂_iff_get.mp hall
    have := hget.2 layer (by rwa [List.length_range]) hin
    rwa [List.get_eq_getElem, List.get_eq_getElem, List.getElem_range] at this
  refine ⟨hlen, fun layer hlayer => ?_, fun layer hlayer => ?_, fun g => ?_⟩
  · obtain ⟨req, hget, hspec⟩ := hreq layer hlayer
    rw [Plan.req, hget]
    exact (layerReq_spec hspec).2
  · obtain ⟨req, hget, hspec⟩ := hreq layer hlayer
    rw [Plan.req, hget]
    exact (layerReq_spec hspec).1
  · ext shard
    rw [Set.mem_singleton_iff, eq_comm, ← Option.some_inj]
    cases g with
    | embed => rw [← hembed]; rfl
    | finalNorm => rw [← hfinal]; rfl
    | lmHead => rw [← hlm]; rfl

/-! ### The invariant -/

section
variable {cfg : TextConfig} {args : Args} {wm : List (Str × σ)} {p : Plan σ} {disk : Finset σ}

/-- What every step of the loop keeps. -/
structure Kept (cfg : TextConfig) (args : Args) (wm : List (Str × σ)) (disk : Finset σ)
    (s : Conversion σ) : Prop where
  onDisk : resident disk s.trace = s.disk
  loaded : s.loaded ⊆ s.disk
  sound : Sound Command.job (Job.needs cfg args wm) (jobs cfg args) disk s.trace
  trunk : ∀ layer, timesRun Command.job (.trunk layer) s.trace =
    if layer ∈ s.doneLayers then 1 else 0
  experts : ∀ layer, timesRun Command.job (.experts layer) s.trace =
    if layer ∈ s.doneLayers ∧ Conversion.packsExperts cfg args layer then 1 else 0
  global : ∀ g, timesRun Command.job (.globalTensor g) s.trace =
    if g ∈ s.doneGlobals then 1 else 0

/-- What a packer run leaves as it was. -/
structure SameShards (s s' : Conversion σ) : Prop where
  disk : s'.disk = s.disk
  loaded : s'.loaded = s.loaded
  acquired : ∀ shard, s'.trace.count (.acquire shard) = s.trace.count (.acquire shard)

theorem SameShards.refl (s : Conversion σ) : SameShards s s := ⟨rfl, rfl, fun _ => rfl⟩

theorem SameShards.trans {s s' s'' : Conversion σ} (h : SameShards s s')
    (h' : SameShards s' s'') : SameShards s s'' :=
  ⟨h'.disk.trans h.disk, h'.loaded.trans h.loaded,
    fun shard => (h'.acquired shard).trans (h.acquired shard)⟩

theorem Kept.download {s : Conversion σ} (h : Kept cfg args wm disk s) (shard : σ) :
    Kept cfg args wm disk (s.download shard) where
  onDisk := by simp [Conversion.download, Event.apply, h.onDisk]
  loaded := Finset.insert_subset_insert shard h.loaded
  sound := h.sound.acquire shard
  trunk layer := (timesRun_acquire _ _).trans (h.trunk layer)
  experts layer := (timesRun_acquire _ _).trans (h.experts layer)
  global g := (timesRun_acquire _ _).trans (h.global g)

/-- One global. -/
theorem packGlobal_spec (hp : p.Of cfg args wm) {s : Conversion σ}
    (h : Kept cfg args wm disk s) (g : Global) :
    Kept cfg args wm disk (s.packGlobal p g) ∧ SameShards s (s.packGlobal p g) ∧
      (s.packGlobal p g).doneLayers = s.doneLayers ∧
      ∀ g', g' ∈ (s.packGlobal p g).doneGlobals ↔
        g' ∈ s.doneGlobals ∨ (g' = g ∧ p.globalReq g ∈ s.loaded) := by
  unfold Conversion.packGlobal
  by_cases hready : g ∉ s.doneGlobals ∧ p.globalReq g ∈ s.loaded
  · rw [if_pos hready]
    have hneeds : (Job.globalTensor g).needs cfg args wm ⊆ resident disk s.trace := by
      rw [← hp.global g, h.onDisk, Set.singleton_subset_iff]
      exact h.loaded hready.2
    refine ⟨⟨by simp [Event.apply, h.onDisk], h.loaded, h.sound.runs _ hneeds, ?_, ?_, ?_⟩,
      ⟨rfl, rfl, by simp⟩, rfl, ?_⟩
    · intro layer
      simpa using h.trunk layer
    · intro layer
      simpa using h.experts layer
    · intro g'
      rw [timesRun_run, h.global g']
      by_cases hg : g' = g
      · subst hg
        simp [hready.1]
      · simp [hg, Ne.symm hg]
    · intro g'
      rw [Finset.mem_insert, or_comm]
      simp [hready.2]
  · rw [if_neg hready]
    refine ⟨h, .refl s, rfl, fun g' => ⟨Or.inl, ?_⟩⟩
    rintro (hdone | ⟨rfl, hin⟩)
    · exact hdone
    · by_contra hnot
      exact hready ⟨hnot, hin⟩

/-- The loop over the globals. -/
theorem packGlobals_spec (hp : p.Of cfg args wm) (gs : List Global) {s : Conversion σ}
    (h : Kept cfg args wm disk s) :
    Kept cfg args wm disk (gs.foldl (Conversion.packGlobal p) s) ∧
      SameShards s (gs.foldl (Conversion.packGlobal p) s) ∧
      (gs.foldl (Conversion.packGlobal p) s).doneLayers = s.doneLayers ∧
      ∀ g, g ∈ (gs.foldl (Conversion.packGlobal p) s).doneGlobals ↔
        g ∈ s.doneGlobals ∨ (g ∈ gs ∧ p.globalReq g ∈ s.loaded) := by
  induction gs generalizing s with
  | nil => exact ⟨h, .refl s, rfl, by simp⟩
  | cons g gs ih =>
    obtain ⟨hkept, hsame, hlayers, hdone⟩ := packGlobal_spec hp h g
    obtain ⟨hkept', hsame', hlayers', hdone'⟩ := ih hkept
    refine ⟨hkept', hsame.trans hsame', hlayers'.trans hlayers, fun g' => ?_⟩
    rw [List.foldl_cons, hdone', hdone, hsame.loaded, List.mem_cons]
    constructor
    · rintro ((hold | ⟨rfl, hin⟩) | ⟨hmem, hin⟩)
      · exact Or.inl hold
      · exact Or.inr ⟨Or.inl rfl, hin⟩
      · exact Or.inr ⟨Or.inr hmem, hin⟩
    · rintro (hold | ⟨rfl | hmem, hin⟩)
      · exact Or.inl (Or.inl hold)
      · exact Or.inl (Or.inr ⟨rfl, hin⟩)
      · exact Or.inr ⟨hmem, hin⟩

/-! ### The layers -/

theorem Kept.runTrunk (hp : p.Of cfg args wm) {s : Conversion σ}
    (h : Kept cfg args wm disk s) {layer : Nat} (hlt : layer < layerCount cfg args)
    (hnew : layer ∉ s.doneLayers) (hready : p.req layer ⊆ s.loaded) (packs : Bool)
    (hpacks : packs = Conversion.packsExperts cfg args layer) :
    let packed := if packs then (s.runTrunk layer).runExperts layer else s.runTrunk layer
    Kept cfg args wm disk { packed with doneLayers := insert layer packed.doneLayers } ∧
      SameShards s packed ∧ packed.doneLayers = s.doneLayers ∧
      packed.doneGlobals = s.doneGlobals := by
  have hneeds (j : Job) (hj : j ∈ [Job.trunk layer, Job.experts layer]) :
      j.needs cfg args wm ⊆ resident disk s.trace := by
    rw [← hp.req layer hlt j hj, h.onDisk, Finset.coe_subset]
    exact hready.trans h.loaded
  have hsound := h.sound.runs ⟨.trunk layer, s.trunkIdx⟩
    (hneeds _ List.mem_cons_self)
  have htimes (layer' : Nat) (n : Nat) (hn : n = if layer' = layer then 1 else 0) :
      (if layer' ∈ s.doneLayers then 1 else 0) + n =
        if layer' ∈ insert layer s.doneLayers then 1 else 0 := by
    rw [hn]
    by_cases hl : layer' = layer
    · rw [hl]
      simp [hnew]
    · simp [hl]
  cases packs with
  | false =>
    refine ⟨⟨by simp [Conversion.runTrunk, Event.apply, h.onDisk], h.loaded, hsound, ?_, ?_, ?_⟩,
      ⟨rfl, rfl, by simp [Conversion.runTrunk]⟩, rfl, rfl⟩
    · intro layer'
      refine (timesRun_run _ _).trans ?_
      rw [h.trunk layer']
      exact htimes layer' _ (by simp [eq_comm])
    · intro layer'
      refine (timesRun_run _ _).trans ?_
      rw [h.experts layer']
      by_cases hl : layer' = layer
      · subst hl
        simp [← hpacks]
      · simp [hl, Conversion.runTrunk]
    · intro g
      exact (timesRun_run _ _).trans (h.global g)
  | true =>
    have hsound' := hsound.runs ⟨.experts layer, s.expertsIdx⟩ (by
      rw [resident_concat]
      exact hneeds _ (List.mem_cons_of_mem _ List.mem_cons_self))
    refine ⟨⟨(resident_concat _ _ _).trans ((resident_concat _ _ _).trans h.onDisk),
      h.loaded, hsound', ?_, ?_, ?_⟩,
      ⟨rfl, rfl, by simp [Conversion.runTrunk, Conversion.runExperts]⟩, rfl, rfl⟩
    · intro layer'
      refine (timesRun_run _ _).trans ((congrArg (· + _) (timesRun_run _ _)).trans ?_)
      rw [h.trunk layer', Nat.add_assoc]
      exact htimes layer' _ (by simp [eq_comm])
    · intro layer'
      refine (timesRun_run _ _).trans ((congrArg (· + _) (timesRun_run _ _)).trans ?_)
      rw [h.experts layer']
      by_cases hl : layer' = layer
      · subst hl
        simp [← hpacks, hnew, Conversion.runTrunk, Conversion.runExperts]
      · simp [hl, Ne.symm hl, Conversion.runTrunk, Conversion.runExperts]
    · intro g
      exact (timesRun_run _ _).trans ((congrArg (· + _) (timesRun_run _ _)).trans (h.global g))

/-- One layer: it is packed at once if its shards are there. -/
theorem packLayer_spec (hp : p.Of cfg args wm) {s : Conversion σ} (progress : Bool)
    (h : Kept cfg args wm disk s) {layer : Nat} (hlt : layer < layerCount cfg args) :
    let out := Conversion.packLayer cfg args p (s, progress) layer
    Kept cfg args wm disk out.1 ∧ SameShards s out.1 ∧ out.1.doneGlobals = s.doneGlobals ∧
      ∀ layer', layer' ∈ out.1.doneLayers ↔
        layer' ∈ s.doneLayers ∨ (layer' = layer ∧ p.req layer ⊆ s.loaded) := by
  intro out
  by_cases hskip : layer ∈ s.doneLayers ∨ ¬ p.req layer ⊆ s.loaded
  · have hout : out = (s, progress) := if_pos hskip
    rw [hout]
    refine ⟨h, .refl s, rfl, fun layer' => ⟨Or.inl, ?_⟩⟩
    rintro (hdone | ⟨rfl, hin⟩)
    · exact hdone
    · exact hskip.resolve_right (not_not_intro hin)
  · obtain ⟨hnew, hready⟩ := not_or.mp hskip
    have hready := not_not.mp hready
    obtain ⟨hkept, hsame, hlayers, hglobals⟩ := h.runTrunk hp hlt hnew hready _ rfl
    have hout : out = _ := if_neg hskip
    rw [hout]
    refine ⟨hkept, ⟨hsame.disk, hsame.loaded, hsame.acquired⟩, hglobals, fun layer' => ?_⟩
    refine Finset.mem_insert.trans ?_
    rw [hlayers, or_comm, and_iff_left hready]

theorem layerPass_spec (hp : p.Of cfg args wm) (layers : List Nat)
    (hlayers : ∀ layer ∈ layers, layer < layerCount cfg args) {s : Conversion σ} (progress : Bool)
    (h : Kept cfg args wm disk s) :
    let out := layers.foldl (Conversion.packLayer cfg args p) (s, progress)
    Kept cfg args wm disk out.1 ∧ SameShards s out.1 ∧ out.1.doneGlobals = s.doneGlobals ∧
      ∀ layer, layer ∈ out.1.doneLayers ↔
        layer ∈ s.doneLayers ∨ (layer ∈ layers ∧ p.req layer ⊆ s.loaded) := by
  induction layers generalizing s progress with
  | nil => exact ⟨h, .refl s, rfl, by simp⟩
  | cons layer layers ih =>
    obtain ⟨hkept, hsame, hglobals, hdone⟩ :=
      packLayer_spec hp progress h (hlayers layer List.mem_cons_self)
    obtain ⟨hkept', hsame', hglobals', hdone'⟩ :=
      ih (fun l hl => hlayers l (List.mem_cons_of_mem _ hl)) _ hkept
    refine ⟨hkept', hsame.trans hsame', hglobals'.trans hglobals, fun layer' => ?_⟩
    rw [List.mem_cons]
    refine (hdone' layer').trans ?_
    rw [hdone, hsame.loaded]
    constructor
    · rintro ((hold | ⟨rfl, hin⟩) | ⟨hmem, hin⟩)
      · exact Or.inl hold
      · exact Or.inr ⟨Or.inl rfl, hin⟩
      · exact Or.inr ⟨Or.inr hmem, hin⟩
    · rintro (hold | ⟨rfl | hmem, hin⟩)
      · exact Or.inl (Or.inl hold)
      · exact Or.inl (Or.inr ⟨rfl, hin⟩)
      · exact Or.inr ⟨hmem, hin⟩

/-- A pass with nothing to pack. -/
theorem layerPass_idle (layers : List Nat) {s : Conversion σ} {progress : Bool}
    (h : ∀ layer ∈ layers, layer ∈ s.doneLayers ∨ ¬ p.req layer ⊆ s.loaded) :
    layers.foldl (Conversion.packLayer cfg args p) (s, progress) = (s, progress) := by
  induction layers with
  | nil => rfl
  | cons layer layers ih =>
    rw [List.foldl_cons, Conversion.packLayer, if_pos (h layer List.mem_cons_self)]
    exact ih fun l hl => h l (List.mem_cons_of_mem _ hl)

/-- The loop over the layers ends after at most two passes. -/
theorem packLayers_spec (hp : p.Of cfg args wm) {s : Conversion σ}
    (h : Kept cfg args wm disk s) {fuel : Nat} (hfuel : 2 ≤ fuel) :
    ∃ out, Conversion.packLayers cfg args p fuel s = some out ∧ Kept cfg args wm disk out ∧
      SameShards s out ∧ out.doneGlobals = s.doneGlobals ∧
      ∀ layer, layer ∈ out.doneLayers ↔
        layer ∈ s.doneLayers ∨ (layer < layerCount cfg args ∧ p.req layer ⊆ s.loaded) := by
  obtain ⟨fuel, rfl⟩ := Nat.exists_eq_add_of_le' hfuel
  obtain ⟨hkept, hsame, hglobals, hdone⟩ := layerPass_spec hp (List.range p.layerReq.length)
    (fun layer hl => hp.length ▸ List.mem_range.mp hl) false h
  refine ⟨(Conversion.layerPass cfg args p s).1, ?_, hkept, hsame, hglobals, fun layer => ?_⟩
  · have hidle : Conversion.layerPass cfg args p (Conversion.layerPass cfg args p s).1 =
        ((Conversion.layerPass cfg args p s).1, false) := by
      refine layerPass_idle _ fun layer hl => or_iff_not_imp_right.mpr fun hready => ?_
      have hready := (not_not.mp hready).trans hsame.loaded.subset
      exact (hdone layer).mpr (Or.inr ⟨hl, hready⟩)
    unfold Conversion.packLayers
    cases hprogress : (Conversion.layerPass cfg args p s).2 with
    | false => simp only [hprogress, Bool.false_eq_true, if_false]
    | true =>
      simp only [hprogress, if_true]
      unfold Conversion.packLayers
      simp only [hidle, Bool.false_eq_true, if_false]
  · refine (hdone layer).trans ?_
    rw [List.mem_range, hp.length]

/-! ### The shards that go -/

theorem mem_still (s : Conversion σ) (shard : σ) :
    shard ∈ Conversion.still p s ↔
      (∃ layer < p.layerReq.length, layer ∉ s.doneLayers ∧ shard ∈ p.req layer) ∨
        ∃ g, g ∉ s.doneGlobals ∧ p.globalReq g = shard := by
  unfold Conversion.still
  rw [Finset.mem_union, mem_foldl_union, List.mem_toFinset, List.mem_map]
  simp only [List.mem_filter, List.mem_range, decide_eq_true_eq, Finset.notMem_empty, false_or,
    Global.mem_globals, true_and, and_assoc]

/-- A shard that nothing needs serves no job that is left. -/
theorem not_still (hp : p.Of cfg args wm) {s : Conversion σ}
    (h : Kept cfg args wm disk s) {shard : σ} (hnot : shard ∉ Conversion.still p s) :
    ∀ j ∈ jobs cfg args, shard ∈ j.needs cfg args wm →
      ∃ command, Command.job command = j ∧ Event.run command ∈ s.trace := by
  rw [mem_still, not_or] at hnot
  intro j hj hneeds
  refine timesRun_pos.mp ?_
  cases j with
  | globalTensor g =>
    rw [← hp.global g] at hneeds
    have hdone : g ∈ s.doneGlobals := by
      by_contra hnew
      exact hnot.2 ⟨g, hnew, hneeds.symm⟩
    rw [h.global, if_pos hdone]
    exact Nat.one_pos
  | trunk layer =>
    rw [← hp.req layer hj _ List.mem_cons_self] at hneeds
    have hdone : layer ∈ s.doneLayers := by
      by_contra hnew
      exact hnot.1 ⟨layer, hp.length.symm ▸ hj, hnew, hneeds⟩
    rw [h.trunk, if_pos hdone]
    exact Nat.one_pos
  | experts layer =>
    rw [← hp.req layer hj.1 _ (List.mem_cons_of_mem _ List.mem_cons_self)] at hneeds
    have hdone : layer ∈ s.doneLayers := by
      by_contra hnew
      exact hnot.1 ⟨layer, hp.length.symm ▸ hj.1, hnew, hneeds⟩
    rw [h.experts, if_pos ⟨hdone, hj.2⟩]
    exact Nat.one_pos

/-- What a deletion leaves, of the resident shards and of the disk. -/
structure Released (needed : Finset σ) (s : Conversion σ) (gone : List σ) (out : Conversion σ) :
    Prop where
  layers : out.doneLayers = s.doneLayers
  globals : out.doneGlobals = s.doneGlobals
  acquired : ∀ shard, out.trace.count (.acquire shard) = s.trace.count (.acquire shard)
  loaded : ∀ shard, shard ∈ out.loaded ↔ shard ∈ s.loaded ∧ (shard ∉ gone ∨ shard ∈ needed)
  onDisk : ∀ shard, shard ∈ out.disk ↔ shard ∈ s.disk ∧ (shard ∉ gone ∨ shard ∈ needed)

theorem Released.still {needed : Finset σ} {s out : Conversion σ} {gone : List σ}
    (h : Released needed s gone out) : Conversion.still p out = Conversion.still p s := by
  unfold Conversion.still
  rw [h.layers, h.globals]

theorem Released.cons {needed : Finset σ} {s mid out : Conversion σ} {shard : σ} {gone : List σ}
    (h : Released needed s [shard] mid) (h' : Released needed mid gone out) :
    Released needed s (shard :: gone) out := by
  have hmem (x : σ) : (x ∉ [shard] ∨ x ∈ needed) ∧ (x ∉ gone ∨ x ∈ needed) ↔
      x ∉ shard :: gone ∨ x ∈ needed := by
    simp only [List.mem_cons, List.not_mem_nil, or_false]
    tauto
  refine ⟨h'.layers.trans h.layers, h'.globals.trans h.globals,
    fun x => (h'.acquired x).trans (h.acquired x), fun x => ?_, fun x => ?_⟩
  · rw [h'.loaded, h.loaded, and_assoc, hmem]
  · rw [h'.onDisk, h.onDisk, and_assoc, hmem]

theorem release_spec (hp : p.Of cfg args wm) {s : Conversion σ}
    (h : Kept cfg args wm disk s) {shard : σ} (hin : shard ∈ s.loaded) :
    Kept cfg args wm disk (Conversion.release (Conversion.still p s) s shard) ∧
      Released (Conversion.still p s) s [shard]
        (Conversion.release (Conversion.still p s) s shard) := by
  unfold Conversion.release
  by_cases hneeded : shard ∈ Conversion.still p s
  · rw [if_pos hneeded]
    have hmem (x : σ) : x ∉ [shard] ∨ x ∈ Conversion.still p s := by
      rw [List.mem_singleton]
      by_cases hx : x = shard
      · exact Or.inr (hx ▸ hneeded)
      · exact Or.inl hx
    exact ⟨h, rfl, rfl, fun _ => rfl, fun x => (and_iff_left (hmem x)).symm,
      fun x => (and_iff_left (hmem x)).symm⟩
  · rw [if_neg hneeded, if_pos (h.loaded hin)]
    have hmem (x : σ) : x ≠ shard ↔ x ∉ [shard] ∨ x ∈ Conversion.still p s := by
      rw [List.mem_singleton]
      constructor
      · exact Or.inl
      · rintro (hx | hx) rfl
        · exact hx rfl
        · exact hneeded hx
    refine ⟨⟨?_, Finset.erase_subset_erase shard h.loaded,
      h.sound.releases (not_still hp h hneeded),
      fun layer => (timesRun_release _ _).trans (h.trunk layer),
      fun layer => (timesRun_release _ _).trans (h.experts layer),
      fun g => (timesRun_release _ _).trans (h.global g)⟩, rfl, rfl, by simp, ?_, ?_⟩
    · rw [resident_concat, h.onDisk, Event.apply, Finset.coe_erase]
    · intro x
      rw [Finset.mem_erase, hmem, and_comm]
    · intro x
      rw [Finset.mem_erase, hmem, and_comm]

/-- The loop over the resident shards. -/
theorem releases_spec (hp : p.Of cfg args wm) (gone : List σ) (hnodup : gone.Nodup)
    {s : Conversion σ} (h : Kept cfg args wm disk s) (hin : ∀ shard ∈ gone, shard ∈ s.loaded) :
    Kept cfg args wm disk (gone.foldl (Conversion.release (Conversion.still p s)) s) ∧
      Released (Conversion.still p s) s gone
        (gone.foldl (Conversion.release (Conversion.still p s)) s) := by
  induction gone generalizing s with
  | nil => exact ⟨h, rfl, rfl, fun _ => rfl, by simp, by simp⟩
  | cons shard gone ih =>
    obtain ⟨hnew, hnodup⟩ := List.nodup_cons.mp hnodup
    obtain ⟨hkept, hrel⟩ := release_spec hp h (hin shard List.mem_cons_self)
    obtain ⟨hkept', hrel'⟩ := ih hnodup hkept fun x hx => by
      refine (hrel.loaded x).mpr ⟨hin x (List.mem_cons_of_mem _ hx), Or.inl fun heq => ?_⟩
      exact hnew (List.mem_singleton.mp heq ▸ hx)
    rw [hrel.still] at hkept' hrel'
    exact ⟨hkept', hrel.cons hrel'⟩

/-! ### One shard -/

/-- The head of the loop over the shards, once those of `seen` are through. -/
structure Head (cfg : TextConfig) (args : Args) (wm : List (Str × σ)) (p : Plan σ)
    (disk seen : Finset σ) (s : Conversion σ) : Prop extends Kept cfg args wm disk s where
  layers : ∀ layer, layer ∈ s.doneLayers ↔ layer < layerCount cfg args ∧ p.req layer ⊆ seen
  globals : ∀ g, g ∈ s.doneGlobals ↔ p.globalReq g ∈ seen
  resident : ∀ shard, shard ∈ s.loaded ↔
    shard ∈ seen ∧ (args.keepSourceShards ∨ shard ∈ Conversion.still p s)
  acquired : ∀ shard, s.trace.count (.acquire shard) = if shard ∈ seen then 1 else 0
  rest : ∀ shard, shard ∈ s.disk ↔ shard ∈ s.loaded ∨ (shard ∈ disk ∧ shard ∉ seen)

theorem still_mono {s s' : Conversion σ} (hl : ∀ layer ∈ s.doneLayers, layer ∈ s'.doneLayers)
    (hg : ∀ g ∈ s.doneGlobals, g ∈ s'.doneGlobals) :
    Conversion.still p s' ⊆ Conversion.still p s := by
  intro x hx
  rw [mem_still] at hx ⊢
  refine hx.imp ?_ ?_
  · rintro ⟨layer, hlt, hnot, hreq⟩
    exact ⟨layer, hlt, fun hdone => hnot (hl layer hdone), hreq⟩
  · rintro ⟨g, hnot, hreq⟩
    exact ⟨g, fun hdone => hnot (hg g hdone), hreq⟩

theorem packShard_spec (hp : p.Of cfg args wm) {seen : Finset σ} {s : Conversion σ} {shard : σ}
    (h : Head cfg args wm p disk seen s) (hnew : shard ∉ seen) {fuel : Nat} (hfuel : 2 ≤ fuel) :
    ∃ out, Conversion.packShard cfg args p fuel s shard = some out ∧
      Head cfg args wm p disk (insert shard seen) out := by
  -- What is needed by something left, and seen, is resident.
  have hready (x : σ) (hx : x ∈ insert shard seen) (hstill : x ∈ Conversion.still p s) :
      x ∈ insert shard s.loaded := by
    rw [Finset.mem_insert] at hx ⊢
    exact hx.imp_right fun hseen => (h.resident x).mpr ⟨hseen, Or.inr hstill⟩
  have hsub : insert shard s.loaded ⊆ insert shard seen :=
    Finset.insert_subset_insert shard fun x hx => ((h.resident x).mp hx).1
  obtain ⟨hkept₁, hsame₁, hlayers₁, hglobals₁⟩ :=
    packGlobals_spec hp globals (h.toKept.download shard)
  obtain ⟨packed, hpacked, hkept₂, hsame₂, hglobals₂, hlayers₂⟩ := packLayers_spec hp hkept₁ hfuel
  have hloaded : packed.loaded = insert shard s.loaded := hsame₂.loaded.trans hsame₁.loaded
  have hdisk : packed.disk = insert shard s.disk := hsame₂.disk.trans hsame₁.disk
  have hlayers (layer : Nat) : layer ∈ packed.doneLayers ↔
      layer < layerCount cfg args ∧ p.req layer ⊆ insert shard seen := by
    rw [hlayers₂, hlayers₁, hsame₁.loaded]
    change layer ∈ s.doneLayers ∨ (_ ∧ p.req layer ⊆ insert shard s.loaded) ↔ _
    constructor
    · rintro (hdone | ⟨hlt, hreq⟩)
      · obtain ⟨hlt, hreq⟩ := (h.layers layer).mp hdone
        exact ⟨hlt, hreq.trans (Finset.subset_insert shard seen)⟩
      · exact ⟨hlt, hreq.trans hsub⟩
    · rintro ⟨hlt, hreq⟩
      by_cases hdone : layer ∈ s.doneLayers
      · exact Or.inl hdone
      · refine Or.inr ⟨hlt, fun x hx => hready x (hreq hx) ((mem_still s x).mpr (Or.inl ?_))⟩
        exact ⟨layer, hp.length.symm ▸ hlt, hdone, hx⟩
  have hglobals (g : Global) : g ∈ packed.doneGlobals ↔ p.globalReq g ∈ insert shard seen := by
    rw [hglobals₂, hglobals₁]
    change g ∈ s.doneGlobals ∨ (_ ∧ p.globalReq g ∈ insert shard s.loaded) ↔ _
    constructor
    · rintro (hdone | ⟨-, hreq⟩)
      · exact Finset.mem_insert_of_mem ((h.globals g).mp hdone)
      · exact hsub hreq
    · intro hreq
      by_cases hdone : g ∈ s.doneGlobals
      · exact Or.inl hdone
      · exact Or.inr ⟨g.mem_globals, hready _ hreq ((mem_still s _).mpr (Or.inr ⟨g, hdone, rfl⟩))⟩
  have hacquired (x : σ) : packed.trace.count (.acquire x) =
      if x ∈ insert shard seen then 1 else 0 := by
    have htrace : (s.download shard).trace = s.trace ++ [.acquire shard] := rfl
    rw [hsame₂.acquired, hsame₁.acquired, htrace, List.count_append, h.acquired,
      List.count_singleton]
    by_cases hx : x = shard
    · subst hx
      simp [hnew]
    · simp [hx, Ne.symm hx]
  have hrest (x : σ) : x ∈ insert shard s.disk ↔
      x ∈ insert shard s.loaded ∨ (x ∈ disk ∧ x ∉ insert shard seen) := by
    rw [Finset.mem_insert, Finset.mem_insert, Finset.mem_insert, h.rest, not_or]
    tauto
  have hrun : Conversion.packShard cfg args p fuel s shard =
      some (if args.keepSourceShards then packed else Conversion.releaseConsumed p packed) :=
    congrArg (Option.map _) hpacked
  refine ⟨_, hrun, ?_⟩
  cases hkeep : args.keepSourceShards with
  | true =>
    refine ⟨hkept₂, hlayers, hglobals, fun x => ?_, hacquired, fun x => ?_⟩
    · have hseen : x ∈ s.loaded ↔ x ∈ seen := by
        rw [h.resident, hkeep]
        simp
      simp only [if_true, hloaded, Finset.mem_insert, hseen, hkeep, true_or, and_true]
    · simp only [if_true, hloaded, hdisk]
      exact hrest x
  | false =>
    have hmono : Conversion.still p packed ⊆ Conversion.still p s :=
      still_mono (fun layer hdone => by
          obtain ⟨hlt, hreq⟩ := (h.layers layer).mp hdone
          exact (hlayers layer).mpr ⟨hlt, hreq.trans (Finset.subset_insert shard seen)⟩)
        fun g hdone => (hglobals g).mpr (Finset.mem_insert_of_mem ((h.globals g).mp hdone))
    obtain ⟨hkept, hrel⟩ := releases_spec hp (packed.loaded.sort (· ≤ ·))
      (Finset.sort_nodup _ _) hkept₂ fun x hx => (Finset.mem_sort _).mp hx
    have hleft (x : σ) : x ∉ packed.loaded.sort (· ≤ ·) ∨ x ∈ Conversion.still p packed ↔
        (x ∈ insert shard s.loaded → x ∈ Conversion.still p packed) := by
      rw [Finset.mem_sort, hloaded, imp_iff_not_or]
    simp only [Bool.false_eq_true, if_false]
    refine ⟨hkept, fun layer => ?_, fun g => ?_, fun x => ?_, fun x => ?_, fun x => ?_⟩
    · exact hrel.layers ▸ hlayers layer
    · exact hrel.globals ▸ hglobals g
    · refine (hrel.loaded x).trans ?_
      rw [hleft, hloaded, Conversion.releaseConsumed, hrel.still, hkeep]
      constructor
      · rintro ⟨hin, hneeded⟩
        exact ⟨hsub hin, Or.inr (hneeded hin)⟩
      · rintro ⟨hseen, hneeded⟩
        have hneeded := hneeded.resolve_left Bool.false_ne_true
        exact ⟨hready x hseen (hmono hneeded), fun _ => hneeded⟩
    · exact (hrel.acquired x).trans (hacquired x)
    · refine (hrel.onDisk x).trans ?_
      rw [Conversion.releaseConsumed, hrel.loaded, hleft, hloaded, hdisk, hrest]
      have hseen := @hsub x
      tauto

/-! ### The run -/

theorem packShards_spec (hp : p.Of cfg args wm) (shards : List σ) (hnodup : shards.Nodup)
    {seen : Finset σ} {s : Conversion σ} (h : Head cfg args wm p disk seen s)
    (hnew : ∀ shard ∈ shards, shard ∉ seen) {fuel : Nat} (hfuel : 2 ≤ fuel) :
    ∃ out, shards.foldlM (Conversion.packShard cfg args p fuel) s = some out ∧
      Head cfg args wm p disk (seen ∪ shards.toFinset) out := by
  induction shards generalizing seen s with
  | nil => exact ⟨s, rfl, by simpa using h⟩
  | cons shard shards ih =>
    obtain ⟨hfirst, hnodup⟩ := List.nodup_cons.mp hnodup
    obtain ⟨mid, hmid, hhead⟩ := packShard_spec hp h (hnew shard List.mem_cons_self) hfuel
    obtain ⟨out, hout, hhead'⟩ := ih hnodup hhead fun x hx => by
      rw [Finset.mem_insert, not_or]
      exact ⟨fun heq => hfirst (heq ▸ hx), hnew x (List.mem_cons_of_mem _ hx)⟩
    refine ⟨out, ?_, ?_⟩
    · rw [List.foldlM_cons, hmid]
      exact hout
    · rwa [List.toFinset_cons, Finset.union_insert, ← Finset.insert_union]

theorem Head.start (hp : p.Of cfg args wm) (disk : Finset σ) (trunkIdx expertsIdx : Bool) :
    Head cfg args wm p disk ∅ ⟨∅, ∅, ∅, disk, trunkIdx, expertsIdx, []⟩ where
  onDisk := rfl
  loaded := Finset.empty_subset disk
  sound := .nil
  trunk _ := by simp
  experts _ := by simp
  global _ := by simp
  layers layer := by
    simp only [Finset.notMem_empty, false_iff, not_and, Finset.subset_empty]
    exact fun hlt => (hp.nonempty layer hlt).ne_empty
  globals _ := by simp
  resident _ := by simp
  acquired _ := by simp
  rest _ := by simp

/-- The shards of a plan are those that hold a tensor of something to pack. -/
theorem mem_shards (hp : p.Of cfg args wm) (shard : σ) :
    shard ∈ p.shards ↔ ∃ j ∈ jobs cfg args, shard ∈ j.needs cfg args wm := by
  have hlayer (layer : Nat) (hlt : layer < layerCount cfg args) :
      p.layerReq[layer]? = some (p.req layer) := by
    rw [Plan.req, List.getElem?_eq_getElem (hp.length.symm ▸ hlt)]
    rfl
  have hfold : shard ∈ p.layerReq.foldl (· ∪ ·) ∅ ↔ shard ∈ ∅ ∨ ∃ req ∈ p.layerReq, shard ∈ req :=
    mem_foldl_union id p.layerReq ∅ shard
  unfold Plan.shards
  rw [Finset.mem_union, hfold, List.mem_toFinset, List.mem_map]
  simp only [Finset.notMem_empty, false_or]
  constructor
  · rintro (⟨req, hreq, hin⟩ | ⟨g, -, rfl⟩)
    · obtain ⟨layer, hlt, rfl⟩ := List.mem_iff_getElem.mp hreq
      rw [hp.length] at hlt
      have hget := (List.getElem?_eq_getElem (hp.length.symm ▸ hlt)).symm.trans (hlayer layer hlt)
      rw [Option.some_inj.mp hget] at hin
      refine ⟨.trunk layer, hlt, ?_⟩
      rw [← hp.req layer hlt _ List.mem_cons_self]
      exact hin
    · refine ⟨.globalTensor g, trivial, ?_⟩
      rw [← hp.global g]
      exact Set.mem_singleton _
  · rintro ⟨j, hj, hneeds⟩
    have hreq (layer : Nat) (hlt : layer < layerCount cfg args)
        (hj : j ∈ [Job.trunk layer, Job.experts layer]) : ∃ req ∈ p.layerReq, shard ∈ req := by
      rw [← hp.req layer hlt j hj] at hneeds
      exact ⟨p.req layer, List.mem_of_getElem? (hlayer layer hlt), hneeds⟩
    cases j with
    | globalTensor g =>
      rw [← hp.global g] at hneeds
      exact Or.inr ⟨g, g.mem_globals, hneeds.symm⟩
    | trunk layer => exact Or.inl (hreq layer hj List.mem_cons_self)
    | experts layer =>
      exact Or.inl (hreq layer hj.1 (List.mem_cons_of_mem _ List.mem_cons_self))

/-- What the conversion has done. -/
structure Scheduled (cfg : TextConfig) (args : Args) (wm : List (Str × σ)) (disk : Finset σ)
    (s : Conversion σ) : Prop where
  once : ∀ j ∈ jobs cfg args, timesRun Command.job j s.trace = 1
  nothingElse : ∀ j ∉ jobs cfg args, timesRun Command.job j s.trace = 0
  sound : Sound Command.job (Job.needs cfg args wm) (jobs cfg args) disk s.trace
  downloads : ∀ shard, (∃ j ∈ jobs cfg args, shard ∈ j.needs cfg args wm) →
    s.trace.count (.acquire shard) = 1
  noOther : ∀ shard, (¬ ∃ j ∈ jobs cfg args, shard ∈ j.needs cfg args wm) →
    s.trace.count (.acquire shard) = 0 ∧ (shard ∈ s.disk ↔ shard ∈ disk)
  onDisk : resident disk s.trace = s.disk
  left : ∀ shard, (∃ j ∈ jobs cfg args, shard ∈ j.needs cfg args wm) →
    (shard ∈ s.disk ↔ args.keepSourceShards)

/-- The conversion is complete: every layer and global is packed once, while its shards are
there, and a shard comes once and goes only when nothing needs it. -/
theorem schedule_complete {cfg : TextConfig} {args : Args} {wm : List (Str × σ)} {p : Plan σ}
    (h : plan cfg args wm = some p) (disk : Finset σ) (trunkIdx expertsIdx : Bool) {fuel : Nat}
    (hfuel : 2 ≤ fuel) :
    ∃ s, packFullText cfg args p disk trunkIdx expertsIdx fuel = some (some s) ∧
      Scheduled cfg args wm disk s := by
  have hp := plan_of h
  obtain ⟨s, hs, hhead⟩ := packShards_spec hp p.allShards (Finset.sort_nodup _ _)
    (Head.start hp disk trunkIdx expertsIdx) (fun _ _ => Finset.notMem_empty _) hfuel
  rw [Finset.empty_union, Plan.allShards, Finset.sort_toFinset] at hhead
  have hlayers (layer : Nat) : layer ∈ s.doneLayers ↔ layer < layerCount cfg args := by
    rw [hhead.layers, and_iff_left_iff_imp]
    intro hlt x hx
    refine (mem_shards hp x).mpr ⟨.trunk layer, hlt, ?_⟩
    rw [← hp.req layer hlt _ List.mem_cons_self]
    exact hx
  have hglobals (g : Global) : g ∈ s.doneGlobals := by
    refine (hhead.globals g).mpr ((mem_shards hp _).mpr ⟨.globalTensor g, trivial, ?_⟩)
    rw [← hp.global g]
    exact Set.mem_singleton _
  have hstill : Conversion.still p s = ∅ := by
    refine Finset.eq_empty_of_forall_notMem fun x hx => ?_
    rcases (mem_still s x).mp hx with ⟨layer, hlt, hnot, -⟩ | ⟨g, hnot, -⟩
    · exact hnot ((hlayers layer).mpr (hp.length ▸ hlt))
    · exact hnot (hglobals g)
  refine ⟨s, ?_, ?_⟩
  · have hmissing : Conversion.missing p s = ([], []) := by
      refine Prod.ext (List.filter_eq_nil_iff.mpr fun layer hl => ?_)
        (List.filter_eq_nil_iff.mpr fun g _ => ?_)
      · simpa [hlayers, hp.length] using hl
      · simp [hglobals]
    rw [packFullText, hs, Option.map_some, if_pos hmissing]
  · have htimes (j : Job) : timesRun Command.job j s.trace = 1 ∧ j ∈ jobs cfg args ∨
        timesRun Command.job j s.trace = 0 ∧ j ∉ jobs cfg args := by
      cases j with
      | globalTensor g => exact Or.inl ⟨(hhead.global g).trans (if_pos (hglobals g)), trivial⟩
      | trunk layer =>
        rw [hhead.trunk]
        by_cases hdone : layer ∈ s.doneLayers
        · exact Or.inl ⟨if_pos hdone, (hlayers layer).mp hdone⟩
        · exact Or.inr ⟨if_neg hdone, mt (hlayers layer).mpr hdone⟩
      | experts layer =>
        rw [hhead.experts]
        by_cases hdone : layer ∈ s.doneLayers ∧ Conversion.packsExperts cfg args layer
        · exact Or.inl ⟨if_pos hdone, (hlayers layer).mp hdone.1, hdone.2⟩
        · exact Or.inr ⟨if_neg hdone, fun hj => hdone ⟨(hlayers layer).mpr hj.1, hj.2⟩⟩
    refine ⟨fun j hj => ?_, fun j hj => ?_, hhead.sound, fun x hx => ?_, fun x hx => ?_,
      hhead.onDisk, fun x hx => ?_⟩
    · exact ((htimes j).resolve_right fun hno => hno.2 hj).1
    · exact ((htimes j).resolve_left fun hyes => hj hyes.2).1
    · rw [hhead.acquired, if_pos ((mem_shards hp x).mpr hx)]
    · have hout := mt (mem_shards hp x).mp hx
      rw [hhead.acquired, if_neg hout, hhead.rest, hhead.resident]
      simp [hout]
    · have hin := (mem_shards hp x).mpr hx
      rw [hhead.rest, hhead.resident, hstill]
      simp [hin]

end

end

/-- Two layers that share a shard, and nothing on disk at the end. -/
theorem schedule_twoShards :
    ∃ p, plan ⟨2, 1, 1, 64⟩ ⟨false, none, .q8⟩
        [(text "language_model.model.layers.0.mlp", 0), (text "language_model.model.layers.1.q", 0),
          (text "language_model.model.layers.1.mlp", 1), (Global.embed.tensor, 0),
          (Global.finalNorm.tensor, 1), (Global.lmHead.tensor, 1)] = some p ∧
      ∃ s, packFullText ⟨2, 1, 1, 64⟩ ⟨false, none, .q8⟩ p ∅ false false 2 = some (some s) ∧
        Scheduled ⟨2, 1, 1, 64⟩ ⟨false, none, .q8⟩
          [(text "language_model.model.layers.0.mlp", 0),
            (text "language_model.model.layers.1.q", 0),
            (text "language_model.model.layers.1.mlp", 1), (Global.embed.tensor, 0),
            (Global.finalNorm.tensor, 1), (Global.lmHead.tensor, 1)] ∅ s := by
  obtain ⟨p, hp⟩ := Option.isSome_iff_exists.mp (show (plan ⟨2, 1, 1, 64⟩ ⟨false, none, .q8⟩
    [(text "language_model.model.layers.0.mlp", 0), (text "language_model.model.layers.1.q", 0),
      (text "language_model.model.layers.1.mlp", 1), (Global.embed.tensor, 0),
      (Global.finalNorm.tensor, 1), (Global.lmHead.tensor, 1)]).isSome = true by decide +kernel)
  exact ⟨p, hp, schedule_complete hp ∅ false false (le_refl 2)⟩

end Kvl.PackFull
