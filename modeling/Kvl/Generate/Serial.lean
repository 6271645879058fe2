import Kvl.Generate.Block

/-!
# Serial runs

`forward_token` never refuses a valid token while the states have room. It
appends one row to each of them, and it cannot tell states with the same rows
apart.
-/

namespace Kvl

set_option autoImplicit false

open Wavefront

section Serial
variable {F D : Type*} {fl : MlaFloats F D} {net : Trunk F}

/-- A state with `n` rows more than another. -/
structure Extends (cfg : MlaConfig F) (n : Nat) (a b : MlaCompressedState F) : Prop where
  len : b.len = a.len + n
  capacity : b.capacity = a.capacity
  rank : b.kvLoraRank = a.kvLoraRank
  ropeDim : b.qkRopeDim = a.qkRopeDim
  rows : RowsBelow cfg a.len.toNat b a

theorem Extends.refl (cfg : MlaConfig F) (a : MlaCompressedState F) : Extends cfg 0 a a :=
  ⟨(Int.add_zero a.len).symm, rfl, rfl, rfl, RowsBelow.refl a a.len.toNat⟩

theorem Extends.trans {cfg : MlaConfig F} {m n : Nat} {a b c : MlaCompressedState F}
    (hab : Extends cfg m a b) (hbc : Extends cfg n b c) : Extends cfg (m + n) a c := by
  have hlen := hab.len
  have hlen' := hbc.len
  refine ⟨by omega, hbc.capacity.trans hab.capacity, hbc.rank.trans hab.rank,
    hbc.ropeDim.trans hab.ropeDim, ?_⟩
  exact (hbc.rows.mono (by omega)).trans hab.rows

theorem Extends.ready {cfg : MlaConfig F} {m n : Nat} {position : Int}
    {a b : MlaCompressedState F} (h : Extends cfg m a b)
    (hready : Ready fl cfg (m + n) position a) : Ready fl cfg n (position + m) b := by
  have hlen := h.len
  have hroom := hready.room
  have hstart := hready.len
  have hnonneg := hready.nonneg
  have hcapacity := h.capacity
  exact ⟨by omega, by omega, by omega, h.rank.trans hready.rank, h.ropeDim.trans hready.ropeDim,
    hready.ok⟩

/-- The states of the layers, with `n` rows more. -/
def AllExtend (net : Trunk F) (n : Nat) (states states' : MlaStates F) : Prop :=
  ∀ l < net.layers, Extends net.cfg n (states l) (states' l)

def AllReady (fl : MlaFloats F D) (net : Trunk F) (count : Nat) (position : Int)
    (states : MlaStates F) : Prop :=
  ∀ l < net.layers, Ready fl net.cfg count position (states l)

def AllSame (net : Trunk F) (states states' : MlaStates F) : Prop :=
  ∀ l < net.layers, SameRows net.cfg (states l) (states' l)

theorem AllExtend.trans {m n : Nat} {s t u : MlaStates F} (hst : AllExtend net m s t)
    (htu : AllExtend net n t u) : AllExtend net (m + n) s u :=
  fun l hl => (hst l hl).trans (htu l hl)

theorem AllExtend.ready {m n : Nat} {position : Int} {s t : MlaStates F}
    (h : AllExtend net m s t) (hready : AllReady fl net (m + n) position s) :
    AllReady fl net n (position + m) t :=
  fun l hl => (h l hl).ready (hready l hl)

/-- The step of one layer for one more token. -/
theorem layerStep_extends {layer : Nat} {state : MlaCompressedState F} {item : TokenRow F}
    {count : Nat} (h : Ready fl net.cfg (count + 1) item.1 state) :
    ∃ p, layerStep fl net layer state item = some p ∧ Extends net.cfg 1 state p.1 ∧
      p.2.1 = item.1 := by
  have hattn := @attnStep_accepts _ _ _ _ layer _ _ _ h.accepts rfl
  unfold layerStep
  rw [hattn]
  refine ⟨_, rfl, ⟨?_, rfl, rfl, rfl, ?_⟩, rfl⟩
  · change item.1 + 1 = state.len + 1
    rw [h.len]
  · rw [h.len]
    have hframe := @put_frame _ _ fl net.cfg ((net.layer layer).attn) state item.1.toNat
        (fl.rmsnorm item.2 (net.layer layer).inputNorm net.cfg.rmsEps)
    exact ⟨hframe.latent, hframe.rope⟩

theorem layerStep_same {layer : Nat} {a b : MlaCompressedState F} {item : TokenRow F}
    {p : MlaCompressedState F × TokenRow F} (h : SameRows net.cfg a b)
    (hp : layerStep fl net layer a item = some p) :
    ∃ b', layerStep fl net layer b item = some (b', p.2) ∧ SameRows net.cfg p.1 b' := by
  unfold layerStep at hp ⊢
  by_cases ha : Accepts fl net.cfg a item.1
  · have hrows : RowsBelow net.cfg item.1.toNat a b := ha.len ▸ h.rows
    rw [attnStep_accepts ha rfl] at hp
    rw [attnStep_accepts (h.accepts.mp ha) rfl, ← attnOf_congr (put_congr hrows)]
    cases hp
    exact ⟨_, rfl, h.append ha⟩
  · rw [attnStep_refuses ha] at hp
    cases hp

/-- One token more. -/
theorem forwardToken_extends {mem : Nat → F} {states : MlaStates F} {tokenId position : Int}
    {logits : Nat → F} {count : Nat} (hready : AllReady fl net (count + 1) position states)
    (hid : validId net tokenId = true) :
    ∃ p, forwardToken fl net mem states tokenId position true logits = some p ∧
      AllExtend net 1 states p.1 := by
  obtain ⟨p, hp, -, hbelow⟩ := @throughStages_spec _ _ (layerStep fl net) states
    (fun item : TokenRow F => item.1 = position) (Ready fl net.cfg (count + 1) position)
    (Extends net.cfg 1) _ (position, row net.hidden (embedding fl net tokenId))
    (fun _ _ _ hitem hstate => by
      obtain ⟨q, hq, hext, hpos⟩ := layerStep_extends (hitem.symm ▸ hstate)
      exact ⟨q, hq, hext, hpos.trans hitem⟩) rfl hready
  rw [forwardToken_stages hid, hp]
  exact ⟨_, rfl, hbelow⟩

/-- The same rows and the same token give the same logits and the same rows. -/
theorem forwardToken_same {mem mem' : Nat → F} {states others : MlaStates F}
    {tokenId position : Int} {logits logits' : Nat → F} {p : MlaStates F × (Nat → F)}
    (hid : validId net tokenId = true) (h : AllSame net states others)
    (hp : forwardToken fl net mem states tokenId position true logits = some p) :
    ∃ q, forwardToken fl net mem' others tokenId position true logits' = some q ∧
      AllSame net p.1 q.1 ∧ ∀ i < net.vocab, p.2 i = q.2 i := by
  rw [forwardToken_stages hid] at hp
  obtain ⟨r, hr, heq⟩ := Option.map_eq_some_iff.mp hp
  cases heq
  obtain ⟨others', hothers, hsame⟩ := @throughStages_rel _ _ (layerStep fl net) _ _ _ _ _ _ _
    (Nat.le_refl net.layers) (fun _ _ _ _ _ hab hq => layerStep_same hab hq) h hr
  rw [forwardToken_stages hid, hothers]
  exact ⟨_, rfl, hsame, rowLogits_below r.2.2 logits logits'⟩

theorem forwardTokens_cons {mem : Nat → F} {states : MlaStates F} {tokenId position : Int}
    {tokenIds : List Int} {logits : Nat → F} :
    forwardTokens fl net mem states (tokenId :: tokenIds) position logits =
      (forwardToken fl net mem states tokenId position true logits).bind fun p =>
        (forwardTokens fl net mem p.1 tokenIds (position + 1) p.2).map fun q =>
          (q.1, argmaxLab fl net p.2 :: q.2.1, q.2.2) := by
  conv_lhs => rw [forwardTokens]
  cases forwardToken fl net mem states tokenId position true logits with
  | none => rfl
  | some p =>
    change Option.bind (forwardTokens fl net mem p.1 tokenIds (position + 1) p.2) _ =
      Option.map _ (forwardTokens fl net mem p.1 tokenIds (position + 1) p.2)
    cases forwardTokens fl net mem p.1 tokenIds (position + 1) p.2 <;> rfl

/-- A run over valid tokens, while the states have room. -/
theorem forwardTokens_extends {mem : Nat → F} {states : MlaStates F} {tokenIds : List Int}
    {position : Int} {logits : Nat → F} {count : Nat}
    (hready : AllReady fl net (tokenIds.length + count) position states)
    (hids : ∀ id ∈ tokenIds, validId net id = true) :
    ∃ p, forwardTokens fl net mem states tokenIds position logits = some p ∧
      p.2.1.length = tokenIds.length ∧ AllExtend net tokenIds.length states p.1 := by
  induction tokenIds generalizing states position logits with
  | nil => exact ⟨_, rfl, rfl, fun l _ => Extends.refl net.cfg (states l)⟩
  | cons tokenId tokenIds ih =>
    obtain ⟨hid, hrest⟩ := List.forall_mem_cons.mp hids
    have hshape : (tokenId :: tokenIds).length + count = 1 + (tokenIds.length + count) := by
      rw [List.length_cons]
      omega
    rw [hshape] at hready
    obtain ⟨p, hp, hext⟩ := @forwardToken_extends _ _ _ _ mem _ _ _ logits
        (tokenIds.length + count) (by rwa [Nat.add_comm] at hready) hid
    obtain ⟨q, hq, hlength, hexts⟩ := @ih _ _ p.2 (hext.ready hready) hrest
    rw [forwardTokens_cons, hp, Option.bind_some]
    rw [Int.natCast_one] at hq
    rw [hq]
    refine ⟨_, rfl, ?_, ?_⟩
    · change (_ :: q.2.1).length = _
      rw [List.length_cons, List.length_cons, hlength]
    · rw [List.length_cons, Nat.add_comm]
      exact hext.trans hexts

end Serial

end Kvl
