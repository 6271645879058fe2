import Kvl.Generate.Prompt
import Kvl.Generate.Serial

/-!
# Self-speculative decoding

One draft of `self_spec_sweep`: a block of draft tokens is verified on a clone
of the prompt's states, the longest matching prefix is accepted, the states are
cut to it, and the correction is committed. The serial run beside it takes one
greedy token after another. What the draft model proposes is a list of ids.
-/

namespace Kvl

set_option autoImplicit false

open Wavefront

section SelfSpec
variable {F D : Type*} (fl : MlaFloats F D) (net : Trunk F)

/-- A loop over the layers that stops at the first refusal. -/
def forLayers (f : MlaCompressedState F → Option (MlaCompressedState F)) (states : MlaStates F)
    (n : Nat) : Option (MlaStates F) :=
  (List.range n).foldlM (fun states layer => do
    let state ← f (states layer)
    pure (Function.update states layer state)) states

/-- A `memset` state. -/
def zeroState : MlaCompressedState F := ⟨0, 0, 0, 0, fun _ => fl.zero, fun _ => fl.zero⟩

def initStates (capacity : Int) : Option (MlaStates F) :=
  forLayers (fun _ => kvlMlaCompressedStateInit fl net.cfg capacity) (fun _ => zeroState fl)
    net.layers

/-- The rows below `len`. -/
def copyRows (src dst : MlaCompressedState F) : MlaCompressedState F :=
  { dst with
    latent := writeAt 0 (src.len.toNat * net.cfg.kvLoraRank.toNat) src.latent dst.latent
    rope := writeAt 0 (src.len.toNat * net.cfg.qkRopeDim.toNat) src.rope dst.rope
    len := src.len }

def cloneState (capacity : Int) (src : MlaCompressedState F) : Option (MlaCompressedState F) := do
  let dst ← kvlMlaCompressedStateInit fl net.cfg capacity
  if src.len < 0 ∨ capacity < src.len ∨ src.kvLoraRank ≠ net.cfg.kvLoraRank ∨
      src.qkRopeDim ≠ net.cfg.qkRopeDim then none
  else some (copyRows net src dst)

def cloneF32StatesLab (capacity : Int) (src : MlaStates F) : Option (MlaStates F) :=
  forLayers (cloneState fl net capacity) src net.layers

def truncateStates (newLen : Int) (states : MlaStates F) : Option (MlaStates F) :=
  forLayers (fun state => kvlMlaCompressedStateTruncate state newLen) states net.layers

/-- The rows of the rejected tokens are dropped. -/
def dropRejected (accept K : Nat) (promptN : Int) (target : MlaStates F) : Option (MlaStates F) :=
  if accept < K then truncateStates net (promptN + accept) target else some target

/-- The baseline: `n` times the largest logit and its `forward_token`. -/
def greedyTokens (mem : Nat → F) (n : Nat) (states : MlaStates F) (position : Int)
    (logits : Nat → F) : Option (MlaStates F × List Int × (Nat → F)) :=
  match n with
  | 0 => some (states, [], logits)
  | n + 1 => do
    let token := argmaxLab fl net logits
    let (states, logits) ← forwardToken fl net mem states token position true logits
    let (states, tokens, last) ← greedyTokens mem n states (position + 1) logits
    pure (states, token :: tokens, last)

/-- The draft tokens after the first that are the next ids of those before them. -/
def matching (draft next : List Int) : Nat :=
  match draft, next with
  | d :: draft, n :: next => if d ≠ n then 0 else matching draft next + 1
  | _, _ => 0

structure SelfSpecRun (F : Type*) where
  draft : List Int
  accept : Nat
  correction : Int
  baselineTokens : List Int
  target : MlaStates F
  /-- The serial states, cut to the resolved tokens. -/
  cmp : MlaStates F

/-- `guesses` are the draft tokens after the first; `mem`, `heads`, `attn` and
`block` are what `malloc` returns. -/
def selfSpec (mem block : Work F) (heads attn logits : Nat → F) (prompt guesses : List Int) :
    Option (SelfSpecRun F) := do
  let promptN := (prompt.length : Int)
  let K := guesses.length + 1
  let capacity := promptN + K + 1
  let base ← initStates fl net capacity
  let (base, prefillLogits) ← prefillPrompt fl net mem heads base prompt logits
  let baseline ← cloneF32StatesLab fl net capacity base
  let (baseline, baselineTokens, _) ← greedyTokens fl net attn (K + 1) baseline promptN prefillLogits
  let target ← cloneF32StatesLab fl net capacity base
  let draft := argmaxLab fl net prefillLogits :: guesses
  let (target, targetNext, logits) ← exactBlockLab fl net block target draft promptN logits
  let accept := 1 + matching guesses targetNext
  let correction := targetNext.getD (accept - 1) 0
  let target ← dropRejected net accept K promptN target
  let (target, _) ← forwardToken fl net attn target correction (promptN + accept) true logits
  let cmp ← cloneF32StatesLab fl net capacity baseline
  let cmp ← truncateStates net (promptN + (accept + 1 : Nat)) cmp
  pure ⟨draft, accept, correction, baselineTokens, target, cmp⟩

variable {fl net}

/-! ### Loops over the layers -/

theorem forLayers_spec {f : MlaCompressedState F → Option (MlaCompressedState F)}
    {Q : MlaCompressedState F → MlaCompressedState F → Prop} {states : MlaStates F} {n : Nat}
    (h : ∀ l < n, ∃ s, f (states l) = some s ∧ Q (states l) s) :
    ∃ states', forLayers f states n = some states' ∧ ∀ l < n, Q (states l) (states' l) := by
  suffices hall : ∃ states', forLayers f states n = some states' ∧
      (∀ l < n, Q (states l) (states' l)) ∧ ∀ l, n ≤ l → states' l = states l by
    obtain ⟨states', hloop, hdone, -⟩ := hall
    exact ⟨states', hloop, hdone⟩
  induction n with
  | zero => exact ⟨states, rfl, fun l hl => absurd hl (Nat.not_lt_zero l), fun _ _ => rfl⟩
  | succ n ih =>
    obtain ⟨states₁, hloop, hdone, hlater⟩ := ih fun l hl => h l (Nat.lt_succ_of_lt hl)
    obtain ⟨s, hs, hQ⟩ := h n (Nat.lt_succ_self n)
    unfold forLayers at hloop ⊢
    refine ⟨Function.update states₁ n s, ?_, ?_, ?_⟩
    · rw [foldlM_range_succ, hloop, Option.bind_some, hlater n (Nat.le_refl n), hs]
      rfl
    · intro l hl
      rcases Nat.lt_succ_iff_lt_or_eq.mp hl with hlt | heq
      · rw [Function.update_of_ne (Nat.ne_of_lt hlt)]
        exact hdone l hlt
      · subst heq
        rw [Function.update_self]
        exact hQ
    · intro l hl
      rw [Function.update_of_ne (by omega)]
      exact hlater l (by omega)

theorem initStates_ready {capacity : Int} {count : Nat} (hok : net.cfg.Ok fl)
    (hcapacity : (count : Int) ≤ capacity) (hpos : 0 < capacity) :
    ∃ states, initStates fl net capacity = some states ∧
      ∀ l < net.layers, Ready fl net.cfg count 0 (states l) ∧ (states l).capacity = capacity := by
  obtain ⟨-, -, -, hDR, heven, -, hR, -⟩ := id hok
  apply forLayers_spec (Q := fun _ s => Ready fl net.cfg count 0 s ∧ s.capacity = capacity)
  intro l _
  unfold kvlMlaCompressedStateInit
  rw [if_neg (by omega)]
  exact ⟨_, rfl, ⟨rfl, Int.le_refl 0, by rw [Int.zero_add]; exact hcapacity, rfl, rfl, hok⟩, rfl⟩

theorem cloneF32StatesLab_same {capacity position : Int} {count : Nat} {src : MlaStates F}
    (hready : AllReady fl net count position src)
    (hcapacity : ∀ l < net.layers, (src l).capacity = capacity) (hpos : 0 < capacity) :
    ∃ dst, cloneF32StatesLab fl net capacity src = some dst ∧ AllSame net src dst := by
  apply forLayers_spec (Q := SameRows net.cfg)
  intro l hl
  have h := hready l hl
  obtain ⟨-, -, -, hDR, heven, -, hR, -⟩ := h.ok
  have hroom := h.room
  have hlen := h.len
  have hnonneg := h.nonneg
  have hrank := h.rank
  have hrope := h.ropeDim
  have hcap := hcapacity l hl
  unfold cloneState kvlMlaCompressedStateInit
  rw [if_neg (by omega), Option.bind_eq_bind, Option.bind_some, if_neg (by omega)]
  refine ⟨_, rfl, hcap, rfl, hrank, hrope, ?_, ?_⟩
  · intro i hi
    exact (if_pos ⟨Nat.zero_le i, by rw [Nat.zero_add]; exact hi⟩).symm
  · intro i hi
    exact (if_pos ⟨Nat.zero_le i, by rw [Nat.zero_add]; exact hi⟩).symm

/-- Cutting states leaves the rows they share with shorter ones. -/
theorem truncateStates_same {newLen : Int} {n : Nat} {states shorter : MlaStates F}
    (hnonneg : 0 ≤ newLen) (hlen : ∀ l < net.layers, (shorter l).len = newLen)
    (h : AllExtend net n shorter states) :
    ∃ cut, truncateStates net newLen states = some cut ∧ AllSame net shorter cut := by
  have hloop : ∃ cut, truncateStates net newLen states = some cut ∧
      ∀ l < net.layers, cut l = { states l with len := newLen } := by
    apply forLayers_spec
      (Q := fun (a b : MlaCompressedState F) => b = { a with len := newLen })
    intro l hl
    have hext := (h l hl).len
    have hshort := hlen l hl
    unfold kvlMlaCompressedStateTruncate
    rw [if_neg (by omega)]
    exact ⟨_, rfl, rfl⟩
  obtain ⟨cut, hcut, hstates⟩ := hloop
  refine ⟨cut, hcut, ?_⟩
  intro l hl
  rw [hstates l hl]
  have hext := h l hl
  exact ⟨hext.capacity.symm, hlen l hl, hext.rank.symm, hext.ropeDim.symm,
    fun i hi => (hext.rows.latent i hi).symm, fun i hi => (hext.rows.rope i hi).symm⟩

theorem AllSame.symm {a b : MlaStates F} (h : AllSame net a b) : AllSame net b a := by
  intro l hl
  have hs := h l hl
  exact ⟨hs.capacity.symm, hs.len.symm, hs.rank.symm, hs.ropeDim.symm,
    hs.len ▸ hs.rows.symm⟩

theorem AllSame.trans {a b c : MlaStates F} (hab : AllSame net a b) (hbc : AllSame net b c) :
    AllSame net a c := by
  intro l hl
  have h := hab l hl
  have h' := hbc l hl
  exact ⟨h.capacity.trans h'.capacity, h.len.trans h'.len, h.rank.trans h'.rank,
    h.ropeDim.trans h'.ropeDim, h.rows.trans (h.len.symm ▸ h'.rows)⟩

theorem AllExtend.same {a b : MlaStates F} (h : AllExtend net 0 a b) : AllSame net a b := by
  intro l hl
  have hs := h l hl
  have hlen := hs.len
  exact ⟨hs.capacity.symm, by omega, hs.rank.symm, hs.ropeDim.symm, hs.rows.symm⟩

theorem AllSame.ready {count : Nat} {position : Int} {a b : MlaStates F} (h : AllSame net a b)
    (hready : AllReady fl net count position a) : AllReady fl net count position b := by
  intro l hl
  have hs := h l hl
  have hr := hready l hl
  exact ⟨hs.len ▸ hr.len, hr.nonneg, hs.capacity ▸ hr.room, hs.rank ▸ hr.rank,
    hs.ropeDim ▸ hr.ropeDim, hr.ok⟩

/-! ### Greedy runs -/

theorem greedyTokens_succ {mem : Nat → F} {n : Nat} {states : MlaStates F} {position : Int}
    {logits : Nat → F} :
    greedyTokens fl net mem (n + 1) states position logits =
      (forwardToken fl net mem states (argmaxLab fl net logits) position true logits).bind fun p =>
        (greedyTokens fl net mem n p.1 (position + 1) p.2).map fun q =>
          (q.1, argmaxLab fl net logits :: q.2.1, q.2.2) := by
  conv_lhs => rw [greedyTokens]
  cases forwardToken fl net mem states (argmaxLab fl net logits) position true logits with
  | none => rfl
  | some p =>
    change Option.bind (greedyTokens fl net mem n p.1 (position + 1) p.2) _ =
      Option.map _ (greedyTokens fl net mem n p.1 (position + 1) p.2)
    cases greedyTokens fl net mem n p.1 (position + 1) p.2 <;> rfl

theorem greedyTokens_extends {mem : Nat → F} (hvocab : 0 < net.vocab) (n : Nat) {count : Nat}
    {states : MlaStates F} {position : Int} {logits : Nat → F}
    (hready : AllReady fl net (n + count) position states) :
    ∃ p, greedyTokens fl net mem n states position logits = some p ∧ p.2.1.length = n ∧
      AllExtend net n states p.1 := by
  induction n generalizing states position logits with
  | zero => exact ⟨_, rfl, rfl, fun l _ => Extends.refl net.cfg (states l)⟩
  | succ n ih =>
    have hshape : n + 1 + count = 1 + (n + count) := by omega
    rw [hshape] at hready
    obtain ⟨p, hp, hext⟩ := @forwardToken_extends _ _ _ _ mem _ _ _ logits (n + count)
        (by rwa [Nat.add_comm] at hready) (argmaxLab_valid hvocab logits)
    obtain ⟨q, hq, hlength, hexts⟩ := @ih _ _ p.2 (hext.ready hready)
    rw [Int.natCast_one] at hq
    rw [greedyTokens_succ, hp, Option.bind_some, hq]
    refine ⟨_, rfl, ?_, ?_⟩
    · change (_ :: q.2.1).length = _
      rw [List.length_cons, hlength]
    · rw [Nat.add_comm]
      exact hext.trans hexts

/-- A greedy run goes on from where a shorter one ended. -/
theorem greedyTokens_add {mem : Nat → F} (m n : Nat) {states : MlaStates F} {position : Int}
    {logits : Nat → F} :
    greedyTokens fl net mem (m + n) states position logits =
      (greedyTokens fl net mem m states position logits).bind fun p =>
        (greedyTokens fl net mem n p.1 (position + m) p.2.2).map fun q =>
          (q.1, p.2.1 ++ q.2.1, q.2.2) := by
  induction m generalizing states position logits with
  | zero =>
    rw [Nat.zero_add, Int.natCast_zero]
    change _ = Option.map _ (greedyTokens fl net mem n states (position + 0) logits)
    rw [Int.add_zero]
    cases greedyTokens fl net mem n states position logits <;> rfl
  | succ m ih =>
    have hshape : m + 1 + n = m + n + 1 := by omega
    have hposition : position + ((m + 1 : Nat) : Int) = position + 1 + m := by omega
    rw [hshape, greedyTokens_succ, greedyTokens_succ, hposition]
    cases forwardToken fl net mem states (argmaxLab fl net logits) position true logits with
    | none => rfl
    | some p =>
      change Option.map _ (greedyTokens fl net mem (m + n) p.1 (position + 1) p.2) =
        Option.bind (Option.map _ (greedyTokens fl net mem m p.1 (position + 1) p.2)) _
      rw [ih]
      cases greedyTokens fl net mem m p.1 (position + 1) p.2 with
      | none => rfl
      | some q =>
        change Option.map _ (Option.map _ (greedyTokens fl net mem n q.1 _ q.2.2)) =
          Option.map _ (greedyTokens fl net mem n q.1 _ q.2.2)
        cases greedyTokens fl net mem n q.1 (position + 1 + m) q.2.2 <;> rfl

theorem matching_le (draft next : List Int) : matching draft next ≤ draft.length := by
  induction draft generalizing next with
  | nil => exact Nat.zero_le _
  | cons d draft ih =>
    cases next with
    | nil => exact Nat.zero_le _
    | cons n next =>
      unfold matching
      split
      · exact Nat.zero_le _
      · rw [List.length_cons]
        exact Nat.succ_le_succ (ih next)

/-- The first draft token after the accepted ones is not the correction. -/
theorem matching_longest {draft next : List Int} (hlength : draft.length ≤ next.length)
    (h : matching draft next < draft.length) :
    draft.getD (matching draft next) 0 ≠ next.getD (matching draft next) 0 := by
  induction draft generalizing next with
  | nil => exact absurd h (Nat.not_lt_zero _)
  | cons d draft ih =>
    cases next with
    | nil => exact absurd hlength (Nat.not_succ_le_zero _)
    | cons n next =>
      by_cases hd : d = n
      · subst hd
        have hmatch : matching (d :: draft) (d :: next) = matching draft next + 1 :=
          if_neg (not_not.mpr rfl)
        rw [hmatch] at h ⊢
        exact ih (Nat.le_of_succ_le_succ hlength) (Nat.lt_of_succ_lt_succ h)
      · have hmatch : matching (d :: draft) (n :: next) = 0 := if_pos hd
        rw [hmatch]
        exact hd

/-- The accepted tokens are greedy ones, and the greedy run that takes them
ends where the correction is the next token. -/
theorem accepted_greedy {mem : Nat → F} {d : Int} {guesses : List Int} {states : MlaStates F}
    {position : Int} {logits : Nat → F} {count : Nat}
    {p : MlaStates F × List Int × (Nat → F)} (hd : argmaxLab fl net logits = d)
    (hids : ∀ id ∈ d :: guesses, validId net id = true)
    (hready : AllReady fl net ((d :: guesses).length + count) position states)
    (hp : forwardTokens fl net mem states (d :: guesses) position logits = some p) :
    let a := 1 + matching guesses p.2.1
    ∃ q, greedyTokens fl net mem a states position logits = some q ∧
      q.2.1 = (d :: guesses).take a ∧ argmaxLab fl net q.2.2 = p.2.1.getD (a - 1) 0 ∧
      AllExtend net ((d :: guesses).length - a) q.1 p.1 := by
  induction guesses generalizing d states position logits p with
  | nil =>
    rw [forwardTokens_cons] at hp
    obtain ⟨r, hr, hrest⟩ := Option.bind_eq_some_iff.mp hp
    cases hrest
    refine ⟨(r.1, [d], r.2), ?_, rfl, rfl, fun l _ => Extends.refl net.cfg (r.1 l)⟩
    change greedyTokens fl net mem (0 + 1) states position logits = _
    rw [greedyTokens_succ, hd, hr]
    rfl
  | cons e guesses ih =>
    obtain ⟨hid, hrest⟩ := List.forall_mem_cons.mp hids
    rw [forwardTokens_cons] at hp
    obtain ⟨r, hr, htail⟩ := Option.bind_eq_some_iff.mp hp
    obtain ⟨t, ht, heq⟩ := Option.map_eq_some_iff.mp htail
    cases heq
    have hshape : (d :: e :: guesses).length + count = 1 + ((e :: guesses).length + count) := by
      rw [List.length_cons]
      omega
    rw [hshape] at hready
    obtain ⟨r', hr', hext⟩ := @forwardToken_extends _ _ _ _ mem _ _ _ logits
        ((e :: guesses).length + count) (by rwa [Nat.add_comm] at hready) hid
    rw [hr] at hr'
    cases hr'
    have hready' := hext.ready hready
    rw [Int.natCast_one] at hready'
    intro a
    by_cases he : e = argmaxLab fl net r.2
    · have ha : a = 1 + (1 + matching guesses t.2.1) := by
        change 1 + matching (e :: guesses) (argmaxLab fl net r.2 :: t.2.1) = _
        rw [← he]
        have hmatch : matching (e :: guesses) (e :: t.2.1) = matching guesses t.2.1 + 1 :=
          if_neg (not_not.mpr rfl)
        rw [hmatch]
        omega
      obtain ⟨q, hq, htokens, hnext, hlonger⟩ := ih he.symm hrest hready' ht
      rw [ha]
      refine ⟨(q.1, d :: q.2.1, q.2.2), ?_, ?_, ?_, ?_⟩
      · rw [Nat.add_comm 1, greedyTokens_succ, hd, hr, Option.bind_some, hq]
        rfl
      · change d :: q.2.1 = _
        rw [htokens, Nat.add_comm 1 (1 + _), List.take_succ_cons]
      · rw [hnext]
        change _ = (argmaxLab fl net r.2 :: t.2.1).getD (1 + (1 + matching guesses t.2.1) - 1) 0
        rw [Nat.add_sub_cancel_left, Nat.add_sub_cancel_left, Nat.add_comm 1 (matching guesses t.2.1),
          List.getD_cons_succ]
      · have hleft : (d :: e :: guesses).length - (1 + (1 + matching guesses t.2.1)) =
            (e :: guesses).length - (1 + matching guesses t.2.1) := by
          rw [List.length_cons]
          omega
        rw [hleft]
        exact hlonger
    · have ha : a = 1 := by
        change 1 + matching (e :: guesses) (argmaxLab fl net r.2 :: t.2.1) = _
        have hmatch : matching (e :: guesses) (argmaxLab fl net r.2 :: t.2.1) = 0 := if_pos he
        rw [hmatch]
      obtain ⟨t', ht', -, hexts⟩ := @forwardTokens_extends _ _ _ _ mem _ _ _ r.2 _ hready' hrest
      rw [ht] at ht'
      cases ht'
      rw [ha]
      refine ⟨(r.1, [d], r.2), ?_, rfl, rfl, ?_⟩
      · change greedyTokens fl net mem (0 + 1) states position logits = _
        rw [greedyTokens_succ, hd, hr]
        rfl
      · rw [List.length_cons, Nat.add_sub_cancel]
        exact hexts

/-! ### A speculative round -/

theorem exactBlockLab_eq {mem : Work F} {states : MlaStates F} {tokenIds : List Int}
    {position : Int} {lastLogits : Nat → F} (hids : ∀ id ∈ tokenIds, validId net id = true) :
    exactBlockLab fl net mem states tokenIds position lastLogits =
      forwardBlockExactLab fl net mem states tokenIds position lastLogits := by
  unfold exactBlockLab forwardBlockExactLab
  dsimp only
  rw [expandBlock_rows hids, if_neg (c := tokenIds.all (validId net) = false)
    (by rw [List.all_eq_true.mpr hids]; exact Bool.noConfusion)]
  rfl

/-- What the verified block has to do with the serial run from the same states. -/
theorem resolve_round {mem : Work F} {attn prefillLogits logits : Nat → F} {states : MlaStates F}
    {position : Int} {guesses : List Int} (hvocab : 0 < net.vocab) (hposition : 0 ≤ position)
    (hready : AllReady fl net (guesses.length + 2) position states)
    (hguesses : ∀ id ∈ guesses, validId net id = true) :
    ∃ target next last, exactBlockLab fl net mem states
        (argmaxLab fl net prefillLogits :: guesses) position logits = some (target, next, last) ∧
      next.length = guesses.length + 1 ∧
      ∃ q, greedyTokens fl net attn (1 + matching guesses next) states position prefillLogits =
          some q ∧
        q.2.1 = (argmaxLab fl net prefillLogits :: guesses).take (1 + matching guesses next) ∧
        argmaxLab fl net q.2.2 = next.getD (matching guesses next) 0 ∧
        AllExtend net (guesses.length - matching guesses next) q.1 target := by
  have hids : ∀ id ∈ argmaxLab fl net prefillLogits :: guesses, validId net id = true :=
    List.forall_mem_cons.mpr ⟨argmaxLab_valid hvocab prefillLogits, hguesses⟩
  have hblock : ∀ l < net.layers, Ready fl net.cfg
      (argmaxLab fl net prefillLogits :: guesses).length position (states l) := by
    intro l hl
    have h := hready l hl
    have hroom := h.room
    refine ⟨h.len, h.nonneg, ?_, h.rank, h.ropeDim, h.ok⟩
    rw [List.length_cons]
    omega
  obtain ⟨p, hitems, hrun⟩ := @forwardBlock_stages _ _ _ _ mem _ _ _ logits hblock hposition hids
      (List.cons_ne_nil _ _)
  have hserial := @forwardTokens_items _ _ fl _ attn states _ position prefillLogits hids
  rw [hitems] at hserial
  have hnext := (@readout_congr _ _ fl net p.2 logits prefillLogits).1
  obtain ⟨p', hp', hlength, -⟩ := @forwardTokens_extends _ _ _ _ attn _ _ _ prefillLogits 1 hready
      hids
  rw [hserial] at hp'
  cases hp'
  obtain ⟨q, hq, htokens, hcorrection, hlonger⟩ :=
    @accepted_greedy _ _ _ _ _ _ _ _ _ _ 1 _ rfl hids hready hserial
  rw [exactBlockLab_eq hids]
  refine ⟨p.1, (readout fl net p.2 logits).1, (readout fl net p.2 logits).2, hrun, ?_, ?_⟩
  · rw [hnext]
    exact hlength
  · rw [hnext]
    refine ⟨q, hq, htokens, ?_, ?_⟩
    · rw [hcorrection]
      rw [Nat.add_sub_cancel_left]
    · rw [List.length_cons, Nat.add_comm 1, Nat.add_sub_add_right] at hlonger
      exact hlonger

/-- The states that the round commits, and those it is compared with. -/
theorem commit_round {attn prefillLogits : Nat → F} {logits : Nat → F} {states target : MlaStates F}
    {q : MlaStates F × List Int × (Nat → F)} {position capacity : Int} {k a : Nat}
    (hvocab : 0 < net.vocab) (hposition : 0 ≤ position) (ha : a ≤ k) (hcapacity : 0 < capacity)
    (hready : AllReady fl net (k + 1) position states)
    (hcap : ∀ l < net.layers, (states l).capacity = capacity)
    (hq : greedyTokens fl net attn a states position prefillLogits = some q)
    (hlonger : AllExtend net (k - a) q.1 target)
    {b : MlaStates F × List Int × (Nat → F)}
    (hb : greedyTokens fl net attn (k + 1) states position prefillLogits = some b) :
    ∃ cut committed cloned cmp,
      dropRejected net a k position target = some cut ∧
      forwardToken fl net attn cut (argmaxLab fl net q.2.2) (position + a) true logits =
        some committed ∧
      cloneF32StatesLab fl net capacity b.1 = some cloned ∧
      truncateStates net (position + (a + 1 : Nat)) cloned = some cmp ∧
      b.2.1.take (a + 1) = q.2.1 ++ [argmaxLab fl net q.2.2] ∧
      ∀ l < net.layers, (committed.1 l).len = position + (a + 1 : Nat) ∧
        SameRows net.cfg (committed.1 l) (cmp l) := by
  -- the greedy run after `a` tokens
  have hsplit : k + 1 = a + (k - a + 1) := by omega
  obtain ⟨q', hq', hqlength, hqext⟩ := @greedyTokens_extends _ _ _ _ attn hvocab a (k - a + 1) _ _
      prefillLogits (hsplit ▸ hready)
  rw [hq] at hq'
  cases hq'
  have hqready := hqext.ready (hsplit ▸ hready)
  -- the target, cut to the accepted tokens
  have hcut : ∃ cut, dropRejected net a k position target = some cut ∧ AllSame net q.1 cut := by
    unfold dropRejected
    by_cases hak : a < k
    · rw [if_pos hak]
      exact truncateStates_same (by omega) (fun l hl => (hqready l hl).len) hlonger
    · rw [if_neg hak]
      have hzero : k - a = 0 := by omega
      exact ⟨target, rfl, (hzero ▸ hlonger).same⟩
  obtain ⟨cut, hcutEq, hcutSame⟩ := hcut
  -- one more greedy token, on both sides
  obtain ⟨r, hr, hrext⟩ := @forwardToken_extends _ _ _ _ attn _ _ _ q.2.2 (k - a) hqready
      (argmaxLab_valid hvocab q.2.2)
  obtain ⟨committed, hcommitted, hcommittedSame, -⟩ := @forwardToken_same _ _ _ _ _ attn _ _ _ _ _
      logits _ (argmaxLab_valid hvocab q.2.2) hcutSame hr
  have hnext : greedyTokens fl net attn (a + 1) states position prefillLogits =
      some (r.1, q.2.1 ++ [argmaxLab fl net q.2.2], r.2) := by
    rw [greedyTokens_add, hq, Option.bind_some, greedyTokens_succ, hr]
    rfl
  -- the rest of the baseline
  have hrest : k + 1 = a + 1 + (k - a) := by omega
  have hext := hqext.trans hrext
  obtain ⟨t, ht, -, htext⟩ := @greedyTokens_extends _ _ _ _ attn hvocab (k - a) 0 _ _ r.2
      (hext.ready (hrest ▸ hready))
  have hbaseline := hb
  rw [hrest, greedyTokens_add, hnext, Option.bind_some, ht] at hbaseline
  cases hbaseline
  have hbext := hext.trans htext
  have hbready : AllReady fl net 0 (position + (a + 1 + (k - a) : Nat)) t.1 :=
    hbext.ready (by rw [← hrest]; exact hready)
  obtain ⟨cloned, hcloned, hclonedSame⟩ := @cloneF32StatesLab_same _ _ _ _ capacity _ _ _ hbready
      (fun l hl => (hbext l hl).capacity.trans (hcap l hl)) hcapacity
  have hclonedExt : AllExtend net (k - a) r.1 cloned := by
    intro l hl
    have hs := hclonedSame l hl
    have he := htext l hl
    have hlen := he.len
    have hslen := hs.len
    refine ⟨by omega, hs.capacity.symm.trans he.capacity, hs.rank.symm.trans he.rank,
      hs.ropeDim.symm.trans he.ropeDim, ?_⟩
    exact (hs.rows.symm.mono (by omega)).trans he.rows
  have hrlen : ∀ l < net.layers, (r.1 l).len = position + (a + 1 : Nat) := by
    intro l hl
    have hlen := (hext l hl).len
    have hstart := (hready l hl).len
    omega
  obtain ⟨cmp, hcmp, hcmpSame⟩ := truncateStates_same (by omega) hrlen hclonedExt
  refine ⟨cut, committed, cloned, cmp, hcutEq, hcommitted, hcloned, hcmp, ?_, ?_⟩
  · have hlength : (q.2.1 ++ [argmaxLab fl net q.2.2]).length = a + 1 := by
      rw [List.length_append, hqlength, List.length_cons, List.length_nil]
    exact List.take_left' hlength
  · intro l hl
    exact ⟨(hcommittedSame l hl).len.symm.trans (hrlen l hl),
      (hcommittedSame.symm.trans hcmpSame) l hl⟩

/-- Speculative decoding is exact: it never fails, what it accepts and corrects
is what the serial run decodes, and it leaves the serial run's states. -/
theorem selfSpec_exact (mem block : Work F) (heads attn logits : Nat → F)
    (prompt guesses : List Int) (hok : net.cfg.Ok fl) (hvocab : 0 < net.vocab)
    (hprompt : prompt ≠ []) (hids : ∀ id ∈ prompt, validId net id = true)
    (hguesses : ∀ id ∈ guesses, validId net id = true) :
    ∃ run, selfSpec fl net mem block heads attn logits prompt guesses = some run ∧
      run.accept ≤ run.draft.length ∧
      run.draft.take run.accept ++ [run.correction] = run.baselineTokens.take (run.accept + 1) ∧
      (run.accept < run.draft.length → run.draft.getD run.accept 0 ≠ run.correction) ∧
      ∀ l < net.layers, (run.target l).len = prompt.length + run.accept + 1 ∧
        SameRows net.cfg (run.target l) (run.cmp l) := by
  let promptN := (prompt.length : Int)
  let K := guesses.length + 1
  let capacity := promptN + K + 1
  have hpos : 0 < prompt.length := List.length_pos_iff.mpr hprompt
  have hcapacity : 0 < capacity := by
    change 0 < (prompt.length : Int) + (guesses.length + 1 : Nat) + 1
    omega
  obtain ⟨zeros, hzeros, hinit⟩ := @initStates_ready _ _ _ _ _ (prompt.length + (K + 1)) hok
      (by change ((prompt.length + (K + 1) : Nat) : Int) ≤ (prompt.length : Int) + K + 1; omega)
      hcapacity
  have hempty : ∀ l < net.layers, Ready fl net.cfg prompt.length 0 (zeros l) := by
    intro l hl
    have h := (hinit l hl).1
    have hroom := h.room
    exact ⟨h.len, h.nonneg, by omega, h.rank, h.ropeDim, h.ok⟩
  obtain ⟨base, prefillLogits, hprefill, hfilled⟩ :=
    @prefillPrompt_fills _ _ _ _ mem heads _ _ logits hprompt hids hempty
  have hbase : AllReady fl net (K + 1) promptN base := by
    intro l hl
    have h := (hinit l hl).1
    have hf := hfilled l hl
    have hroom := h.room
    have hcap := hf.capacity
    refine ⟨hf.len, Int.natCast_nonneg _, ?_, hf.rank.trans h.rank, hf.ropeDim.trans h.ropeDim, hok⟩
    change (prompt.length : Int) + (K + 1 : Nat) ≤ _
    omega
  have hbaseCap : ∀ l < net.layers, (base l).capacity = capacity :=
    fun l hl => (hfilled l hl).capacity.trans (hinit l hl).2
  obtain ⟨cloned, hcloned, hsame⟩ := cloneF32StatesLab_same hbase hbaseCap hcapacity
  have hready : AllReady fl net (K + 1) promptN cloned := hsame.ready hbase
  have hclonedCap : ∀ l < net.layers, (cloned l).capacity = capacity :=
    fun l hl => (hsame l hl).capacity.symm.trans (hbaseCap l hl)
  obtain ⟨b, hb, -, -⟩ := @greedyTokens_extends _ _ _ _ attn hvocab (K + 1) 0 _ _ prefillLogits
      hready
  obtain ⟨target, next, last, hblock, hlength, q, hq, htokens, hcorrection, hlonger⟩ :=
    @resolve_round _ _ _ _ block attn prefillLogits logits _ _ _ hvocab (Int.natCast_nonneg _)
        hready hguesses
  let accept := 1 + matching guesses next
  have haccept : accept ≤ K := by
    have := matching_le guesses next
    change 1 + matching guesses next ≤ guesses.length + 1
    omega
  have hleft : guesses.length - matching guesses next = K - accept := by
    change _ = guesses.length + 1 - (1 + matching guesses next)
    omega
  rw [hleft] at hlonger
  obtain ⟨cut, committed, clonedBase, cmp, hcut, hcommitted, hclone, hcmp, htake, hstates⟩ :=
    @commit_round _ _ _ _ _ _ last _ _ _ _ _ _ _ hvocab (Int.natCast_nonneg _) haccept hcapacity
        hready hclonedCap hq hlonger _ hb
  rw [hcorrection] at hcommitted htake
  have hindex : next.getD (accept - 1) 0 = next.getD (matching guesses next) 0 := by
    change next.getD (1 + matching guesses next - 1) 0 = _
    rw [Nat.add_sub_cancel_left]
  refine ⟨⟨argmaxLab fl net prefillLogits :: guesses, accept, next.getD (accept - 1) 0, b.2.1,
    committed.1, cmp⟩, ?_, haccept, ?_, ?_, ?_⟩
  · unfold selfSpec
    change Option.bind (initStates fl net capacity) _ = _
    rw [hzeros, Option.bind_some]
    change Option.bind (prefillPrompt fl net mem heads zeros prompt logits) _ = _
    rw [hprefill, Option.bind_some]
    change Option.bind (cloneF32StatesLab fl net capacity base) _ = _
    rw [hcloned, Option.bind_some]
    change Option.bind (greedyTokens fl net attn (K + 1) cloned promptN prefillLogits) _ = _
    rw [hb, Option.bind_some]
    change Option.bind (exactBlockLab fl net block cloned _ promptN logits) _ = _
    rw [hblock, Option.bind_some]
    change Option.bind (dropRejected net accept K promptN target) _ = _
    rw [hcut, Option.bind_some]
    change Option.bind (forwardToken fl net attn cut (next.getD (accept - 1) 0)
      (promptN + accept) true last) _ = _
    rw [hindex, hcommitted, Option.bind_some]
    change Option.bind (cloneF32StatesLab fl net capacity b.1) _ = _
    rw [hclone, Option.bind_some]
    change Option.bind (truncateStates net (promptN + (accept + 1 : Nat)) clonedBase) _ = _
    rw [hcmp]
    rfl
  · dsimp only
    rw [htake, htokens, hindex]
  · intro hlt
    have hcut : matching guesses next < guesses.length := by
      change 1 + matching guesses next < guesses.length + 1 at hlt
      omega
    have hdraft : (argmaxLab fl net prefillLogits :: guesses).getD accept 0 =
        guesses.getD (matching guesses next) 0 := by
      change List.getD _ (1 + matching guesses next) 0 = _
      rw [Nat.add_comm, List.getD_cons_succ]
    dsimp only
    rw [hdraft, hindex]
    exact matching_longest (by omega) hcut
  · intro l hl
    obtain ⟨hlen, hsameRows⟩ := hstates l hl
    refine ⟨?_, hsameRows⟩
    dsimp only
    rw [hlen]
    omega

end SelfSpec

theorem selfSpec_exact_twoTokens :
    ∃ run, selfSpec intMlaFloats smallTrunk ⟨fun _ => 5, fun _ => 6, fun _ => 7⟩
        ⟨fun _ => 1, fun _ => 2, fun _ => 3⟩ (fun _ => 0) (fun _ => 0) (fun _ => 0) [2, 1] [0, 2] =
          some run ∧
      run.accept ≤ run.draft.length ∧
      run.draft.take run.accept ++ [run.correction] = run.baselineTokens.take (run.accept + 1) ∧
      (run.accept < run.draft.length → run.draft.getD run.accept 0 ≠ run.correction) ∧
      ∀ l < 2, (run.target l).len = (2 : Nat) + run.accept + 1 ∧
        SameRows smallTrunk.cfg (run.target l) (run.cmp l) :=
  @selfSpec_exact _ _ _ smallTrunk _ _ _ _ _ [2, 1] [0, 2] (by decide) (by decide) (by decide)
    (by decide) (by decide)

end Kvl
