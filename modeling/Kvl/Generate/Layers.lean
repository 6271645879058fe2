import Kvl.Lib.Wavefront
import Kvl.Generate.Model
import Kvl.Mla.Decode

/-!
# A layer as a stage of rows

What a layer does to a token is a function of the state and of the row it
reads. `forward_token` takes its row through these stages, and the logits are
read from the rows that come out.
-/

namespace Kvl

set_option autoImplicit false

open Wavefront

section Layers
variable {F D : Type*} (fl : MlaFloats F D) (net : Trunk F)

/-- A token on its way: its position and its row. -/
abbrev TokenRow (F : Type*) := Int × List F

/-- The attention of a layer, with the row it is added to. -/
def attnStep (layer : Nat) (state : MlaCompressedState F) (item : TokenRow F) :
    Option (MlaCompressedState F × TokenRow F × List F) :=
  let n1 := fl.rmsnorm item.2 (net.layer layer).inputNorm net.cfg.rmsEps
  (kvlMlaDecodeCompressedBf16 fl net.cfg (net.layer layer).attn 0 n1 item.1 state
    fun _ => fl.zero).map fun p => (p.2, item, row net.hidden p.1)

/-- The rest of a layer, which has no state. -/
def finishRow (layer : Nat) (item : TokenRow F × List F) : TokenRow F :=
  let r1 := List.zipWith fl.add item.1.2 item.2
  let n2 := fl.rmsnorm r1 (net.layer layer).postAttnNorm net.cfg.rmsEps
  (item.1.1, List.zipWith fl.add r1 (row net.hidden (mlpToken net layer n2)))

def layerStep (layer : Nat) (state : MlaCompressedState F) (item : TokenRow F) :
    Option (MlaCompressedState F × TokenRow F) :=
  (attnStep fl net layer state item).map fun p => (p.1, finishRow fl net layer p.2)

/-- The rows that the tokens start from. -/
def tokenRows (tokenIds : List Int) (position : Int) : List (TokenRow F) :=
  match tokenIds with
  | [] => []
  | tokenId :: tokenIds =>
    (position, row net.hidden (embedding fl net tokenId)) :: tokenRows tokenIds (position + 1)

def rowLogits (xs : List F) (logits : Nat → F) : Nat → F :=
  kvlMatvecBf16 fl.toMoeFloats 0 (fl.rmsnorm xs net.finalNorm net.cfg.rmsEps) net.lmHead
    net.cfg.hiddenSize net.vocab logits

/-- The next ids and the last logits of rows that are read one after another. -/
def readout (items : List (TokenRow F)) (logits : Nat → F) : List Int × (Nat → F) :=
  match items with
  | [] => ([], logits)
  | item :: items =>
    let logits := rowLogits fl net item.2 logits
    let rest := readout items logits
    (argmaxLab fl net logits :: rest.1, rest.2)

variable {fl net}

theorem attnStep_accepts {layer : Nat} {state : MlaCompressedState F} {item : TokenRow F}
    {n1 : Nat → F} (h : Accepts fl net.cfg state item.1)
    (hn1 : row net.hidden n1 =
      row net.hidden (fl.rmsnorm item.2 (net.layer layer).inputNorm net.cfg.rmsEps)) :
    attnStep fl net layer state item =
      some (state.append fl net.cfg (net.layer layer).attn n1 item.1, item,
        row net.hidden (attnOf fl net.cfg (net.layer layer).attn
          (state.put fl net.cfg (net.layer layer).attn item.1.toNat n1) n1 item.1)) := by
  unfold attnStep
  dsimp only
  rw [decode_accepts h, put_congr_token hn1, append_congr_token hn1, attnOf_congr_token hn1]
  change some (_, item, row net.hidden (writeAt 0 net.hidden _ _)) = _
  rw [row_writeAt]

theorem attnStep_refuses {layer : Nat} {state : MlaCompressedState F} {item : TokenRow F}
    (h : ¬ Accepts fl net.cfg state item.1) : attnStep fl net layer state item = none := by
  unfold attnStep
  dsimp only
  rw [decode_refuses h]
  rfl

theorem tokenLayer_step {mem : Nat → F} {layer : Nat} {position : Int}
    {state : MlaCompressedState F} {x : Nat → F} :
    (tokenLayer fl net mem layer position state x).map
        (fun p => (p.1, position, row net.hidden p.2)) =
      layerStep fl net layer state (position, row net.hidden x) := by
  unfold tokenLayer attentionToken layerStep
  by_cases h : Accepts fl net.cfg state position
  · rw [@attnStep_accepts _ _ _ _ _ _ ((position, row net.hidden x)) _ h rfl]
    dsimp only
    rw [decode_accepts h]
    have hattn : ∀ a : Nat → F, row net.hidden a = row net.hidden (writeAt 0 net.hidden a mem) :=
      fun a => row_writeAt.symm
    rw [hattn (attnOf fl net.cfg _ _ _ _)]
    change some (_, position, _) = some (_, finishRow fl net layer _)
    unfold finishRow
    dsimp only
    rw [row_zipWith, row_zipWith]
    rfl
  · rw [@attnStep_refuses _ _ _ _ _ _ ((position, row net.hidden x)) h]
    dsimp only
    rw [decode_refuses h]
    rfl

theorem tokenLayers_succ {mem : Nat → F} {position : Int} {states : MlaStates F} {x : Nat → F}
    {n : Nat} :
    tokenLayers fl net mem position states x (n + 1) =
      (tokenLayers fl net mem position states x n).bind fun p =>
        (tokenLayer fl net mem n position (p.1 n) p.2).map fun q =>
          (Function.update p.1 n q.1, q.2) := by
  unfold tokenLayers
  rw [foldlM_range_succ]
  congr
  funext p
  change Option.bind _ _ = _
  cases tokenLayer fl net mem n position (p.1 n) p.2 <;> rfl

/-- The layers of `forward_token`. -/
theorem tokenLayers_stages {mem : Nat → F} {position : Int} {states : MlaStates F} {x : Nat → F}
    (n : Nat) :
    (tokenLayers fl net mem position states x n).map
        (fun p => (p.1, position, row net.hidden p.2)) =
      throughStages (layerStep fl net) n states (position, row net.hidden x) := by
  induction n with
  | zero => rfl
  | succ n ih =>
    rw [tokenLayers_succ, throughStages_succ, ← ih]
    cases tokenLayers fl net mem position states x n with
    | none => rfl
    | some p =>
      change Option.map _ (Option.map _ _) = Option.map _ (layerStep fl net n _ _)
      rw [← @tokenLayer_step _ _ _ _ mem _ _ _ _]
      cases tokenLayer fl net mem n position (p.1 n) p.2 <;> rfl

theorem forwardToken_stages {mem : Nat → F} {states : MlaStates F} {tokenId position : Int}
    {logits : Nat → F} (hid : validId net tokenId = true) :
    forwardToken fl net mem states tokenId position true logits =
      (throughStages (layerStep fl net) net.layers states
        (position, row net.hidden (embedding fl net tokenId))).map
          fun p => (p.1, rowLogits fl net p.2.2 logits) := by
  rw [← @tokenLayers_stages _ _ _ _ mem _ _ _]
  unfold forwardToken
  rw [if_neg (by rw [hid]; exact Bool.noConfusion)]
  change Option.bind _ _ = _
  cases tokenLayers fl net mem position states (embedding fl net tokenId) net.layers <;> rfl

theorem forwardTokens_items {mem : Nat → F} {states : MlaStates F} {tokenIds : List Int}
    {position : Int} {logits : Nat → F} (hids : ∀ id ∈ tokenIds, validId net id = true) :
    forwardTokens fl net mem states tokenIds position logits =
      (itemMajor (layerStep fl net) net.layers states (tokenRows fl net tokenIds position)).map
        fun p => (p.1, readout fl net p.2 logits) := by
  induction tokenIds generalizing states position logits with
  | nil => rfl
  | cons tokenId tokenIds ih =>
    obtain ⟨hid, hrest⟩ := List.forall_mem_cons.mp hids
    unfold forwardTokens itemMajor tokenRows
    rw [throughItems_cons, forwardToken_stages hid]
    cases throughStages (layerStep fl net) net.layers states
        (position, row net.hidden (embedding fl net tokenId)) with
    | none => rfl
    | some p =>
      change Option.bind (forwardTokens fl net mem p.1 tokenIds (position + 1) _) _ =
        Option.map _ (Option.map _ (itemMajor (layerStep fl net) net.layers p.1
          (tokenRows fl net tokenIds (position + 1))))
      rw [ih hrest]
      cases itemMajor (layerStep fl net) net.layers p.1
          (tokenRows fl net tokenIds (position + 1)) <;> rfl

/-! ### Logits -/

theorem rowLogits_below (xs : List F) (a b : Nat → F) :
    ∀ i < net.vocab, rowLogits fl net xs a i = rowLogits fl net xs b i := by
  intro i hi
  unfold rowLogits kvlMatvecBf16 writeAt
  rw [if_pos (by omega), if_pos (by omega)]

theorem argmaxLab_congr {a b : Nat → F} (h : ∀ i < net.vocab, a i = b i) :
    argmaxLab fl net a = argmaxLab fl net b := by
  unfold argmaxLab
  dsimp only
  rcases Nat.eq_zero_or_pos net.vocab with hzero | hpos
  · rw [hzero]
    rfl
  · congr 1
    -- the best so far stays an index of the logits
    suffices hfold : ∀ (l : List Nat) (best : Nat), best < net.vocab → (∀ i ∈ l, i < net.vocab) →
        l.foldl (fun best i => if fl.gt (a i) (a best) then i else best) best =
          l.foldl (fun best i => if fl.gt (b i) (b best) then i else best) best by
      apply hfold _ 0 hpos
      intro i hi
      have := List.mem_range'_1.mp hi
      omega
    intro l
    induction l with
    | nil =>
      intro best _ _
      rfl
    | cons i l ih =>
      intro best hbest hl
      obtain ⟨hi, hrest⟩ := List.forall_mem_cons.mp hl
      rw [List.foldl_cons, List.foldl_cons, h i hi, h best hbest]
      apply ih _ _ hrest
      split
      · exact hi
      · exact hbest

theorem argmaxLab_valid (h : 0 < net.vocab) (logits : Nat → F) :
    validId net (argmaxLab fl net logits) = true := by
  have hbelow : ∀ (l : List Nat) (best : Nat), best < net.vocab → (∀ i ∈ l, i < net.vocab) →
      l.foldl (fun best i => if fl.gt (logits i) (logits best) then i else best) best <
        net.vocab := by
    intro l
    induction l with
    | nil =>
      intro best hbest _
      exact hbest
    | cons i l ih =>
      intro best hbest hl
      obtain ⟨hi, hrest⟩ := List.forall_mem_cons.mp hl
      rw [List.foldl_cons]
      apply ih _ _ hrest
      split
      · exact hi
      · exact hbest
  have hlt := hbelow (List.range' 1 (net.vocab - 1)) 0 h (by
    intro i hi
    have := List.mem_range'_1.mp hi
    omega)
  unfold validId argmaxLab
  dsimp only
  exact decide_eq_true ⟨Int.natCast_nonneg _, Int.ofNat_lt.mpr hlt⟩

/-- What is read from rows does not depend on what the buffer held before. -/
theorem readout_congr {items : List (TokenRow F)} {a b : Nat → F} :
    (readout fl net items a).1 = (readout fl net items b).1 ∧
      (items ≠ [] → ∀ i < net.vocab, (readout fl net items a).2 i = (readout fl net items b).2 i) := by
  induction items generalizing a b with
  | nil => exact ⟨rfl, fun h => absurd rfl h⟩
  | cons item items ih =>
    have hlogits := @rowLogits_below _ _ fl net item.2 a b
    obtain ⟨hnext, hlast⟩ := ih (a := rowLogits fl net item.2 a) (b := rowLogits fl net item.2 b)
    constructor
    · change argmaxLab fl net (rowLogits fl net item.2 a) :: _ =
        argmaxLab fl net (rowLogits fl net item.2 b) :: _
      rw [argmaxLab_congr hlogits, hnext]
    · intro _
      cases items with
      | nil => exact hlogits
      | cons item' items => exact hlast (List.cons_ne_nil item' items)

end Layers

end Kvl
