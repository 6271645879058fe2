import Kvl.Mla.Q8State

/-!
# Rollback

A state that is filled, appended to, truncated and reset stands for the list of
tokens that survived. The rows at or past the length are never read before they
are written again, so two states of the same shape that stand for the same
tokens decode alike, whatever their histories were.
-/

namespace Kvl

set_option autoImplicit false

/-- One token as a call received it: the values its row is computed from. -/
structure MlaToken (F : Type*) where
  cfg : MlaConfig F
  w : MlaBF16
  x : List F

def tokenOf {F : Type*} (cfg : MlaConfig F) (w : MlaBF16) (x : Nat → F) : MlaToken F :=
  ⟨cfg, w, row cfg.hiddenSize.toNat x⟩

inductive MlaOp (F : Type*) where
  | prefill (cfg : MlaConfig F) (w : MlaBF16) (x : Nat → F) (seqLen : Int) (allocOk : Bool)
  | decode (cfg : MlaConfig F) (w : MlaBF16) (base : Nat) (x : Nat → F) (position : Int)
    (out : Nat → F) (allocOk : Bool)
  | truncate (newLen : Int)
  | reset

/-- Calls that add tokens. -/
def MlaOp.Feeds {F : Type*} : MlaOp F → Prop
  | .prefill .. => True
  | .decode .. => True
  | _ => False

structure StateShape where
  capacity : Int
  rank : Int
  ropeDim : Int

section Machine
variable {F D : Type*}

/-- A compressed state with its calls, and how its rows read back. -/
structure RowMachine (F : Type*) (σ : Type*) where
  init : MlaConfig F → Int → Option σ
  reset : σ → σ
  truncate : σ → Int → Option σ
  prefill : MlaConfig F → MlaBF16 → (Nat → F) → Int → σ → Option σ
  decode : MlaConfig F → MlaBF16 → Nat → (Nat → F) → Int → σ → (Nat → F) → Option ((Nat → F) × σ)
  shape : σ → StateShape
  len : σ → Int
  latentRow : σ → Nat → Nat → F
  ropeRow : σ → Nat → Nat → F
  /-- The rows of a token at a position. -/
  latentOf : MlaConfig F → MlaBF16 → (Nat → F) → Nat → F
  ropeOf : MlaConfig F → MlaBF16 → (Nat → F) → Int → Nat → F

variable {σ : Type*} (m : RowMachine F σ)

/-- One call; `none` is the return code -1. -/
def RowMachine.call (s : σ) : MlaOp F → Option σ
  | .prefill cfg w x seqLen allocOk => if allocOk then m.prefill cfg w x seqLen s else none
  | .decode cfg w base x position out allocOk =>
    if allocOk then (m.decode cfg w base x position s out).map Prod.snd else none
  | .truncate newLen => m.truncate s newLen
  | .reset => some (m.reset s)

/-- The state after a call, which a failed one leaves as it was. -/
def RowMachine.step (s : σ) (op : MlaOp F) : σ := (m.call s op).getD s

/-- The tokens that survive a successful call. -/
def survive (ts : List (MlaToken F)) : MlaOp F → List (MlaToken F)
  | .prefill cfg w x seqLen _ =>
    (List.range seqLen.toNat).map fun t => tokenOf cfg w (readFrom (t * cfg.hiddenSize.toNat) x)
  | .decode cfg w _ x _ _ _ => ts ++ [tokenOf cfg w x]
  | .truncate newLen => ts.take newLen.toNat
  | .reset => []

def RowMachine.track (st : σ × List (MlaToken F)) (op : MlaOp F) : σ × List (MlaToken F) :=
  (m.step st.1 op, if (m.call st.1 op).isSome then survive st.2 op else st.2)

/-- A history of calls from a state with no tokens, with the tokens that survive it. -/
def RowMachine.run (s : σ) (ops : List (MlaOp F)) : σ × List (MlaToken F) :=
  ops.foldl m.track (s, [])

/-- What prefill asks of its configuration. -/
structure FillOk (fl : MlaFloats F D) (cfg : MlaConfig F) : Prop where
  hidden : 0 < cfg.hiddenSize
  rank : 0 < cfg.kvLoraRank
  ropeDim : 0 < cfg.qkRopeDim
  even : cfg.qkRopeDim % 2 = 0
  theta : thetaRefused fl cfg = false

theorem FillOk.of_ok {fl : MlaFloats F D} {cfg : MlaConfig F} (h : cfg.Ok fl) : FillOk fl cfg := by
  obtain ⟨hH, _, _, hDR, heven, _, hR, htheta⟩ := h
  exact ⟨hH, hR, hDR, heven, htheta⟩

/-- The configuration has the row sizes of the state. -/
def Fits (cfg : MlaConfig F) (shape : StateShape) : Prop :=
  shape.rank = cfg.kvLoraRank ∧ shape.ropeDim = cfg.qkRopeDim

/-- Row `j` of a state is the row of this token at `j`. -/
structure RowIs (s : σ) (j : Nat) (cfg : MlaConfig F) (w : MlaBF16) (x : Nat → F) : Prop where
  latent : row cfg.kvLoraRank.toNat (m.latentRow s j) =
    row cfg.kvLoraRank.toNat (m.latentOf cfg w x)
  rope : row cfg.qkRopeDim.toNat (m.ropeRow s j) = row cfg.qkRopeDim.toNat (m.ropeOf cfg w x j)

/-- What the calls of a compressed state do, in terms of its rows. -/
structure RowMachine.Lawful (fl : MlaFloats F D) : Prop where
  init : ∀ {cfg capacity s}, m.init cfg capacity = some s → m.len s = 0 ∧ 0 ≤ (m.shape s).capacity
  reset : ∀ s, m.len (m.reset s) = 0 ∧ m.shape (m.reset s) = m.shape s
  truncate : ∀ {s n s'}, m.truncate s n = some s' → 0 ≤ n ∧ n ≤ m.len s ∧ m.len s' = n ∧
    m.shape s' = m.shape s ∧ m.latentRow s' = m.latentRow s ∧ m.ropeRow s' = m.ropeRow s
  prefill_iff : ∀ {cfg w x n s}, (m.prefill cfg w x n s).isSome = true ↔
    0 < n ∧ m.len s = 0 ∧ n ≤ (m.shape s).capacity ∧ Fits cfg (m.shape s) ∧ FillOk fl cfg
  prefill : ∀ {cfg w x n s s'}, m.prefill cfg w x n s = some s' → m.len s' = n ∧
    m.shape s' = m.shape s ∧
    ∀ t < n.toNat, RowIs m s' t cfg w (readFrom (t * cfg.hiddenSize.toNat) x)
  decode_iff : ∀ {cfg w base x position s out},
    (m.decode cfg w base x position s out).isSome = true ↔
      position = m.len s ∧ 0 ≤ position ∧ position < (m.shape s).capacity ∧
        Fits cfg (m.shape s) ∧ cfg.Ok fl
  decode : ∀ {cfg w base x position s out r}, m.decode cfg w base x position s out = some r →
    m.len r.2 = position + 1 ∧ m.shape r.2 = m.shape s ∧
    (∀ j < position.toNat, row cfg.kvLoraRank.toNat (m.latentRow r.2 j) =
        row cfg.kvLoraRank.toNat (m.latentRow s j) ∧
      row cfg.qkRopeDim.toNat (m.ropeRow r.2 j) = row cfg.qkRopeDim.toNat (m.ropeRow s j)) ∧
    RowIs m r.2 position.toNat cfg w x ∧
    r.1 = writeAt base cfg.hiddenSize.toNat
      (attnOver fl cfg w (m.latentRow r.2) (m.ropeRow r.2) x position) out
  congr : ∀ {cfg w x x'}, row cfg.hiddenSize.toNat x = row cfg.hiddenSize.toNat x' →
    m.latentOf cfg w x = m.latentOf cfg w x' ∧
    ∀ position, m.ropeOf cfg w x position = m.ropeOf cfg w x' position

end Machine

section Holds
variable {F D σ : Type*} (m : RowMachine F σ) (fl : MlaFloats F D)

/-- The values of a token, as a buffer. -/
def MlaToken.read (t : MlaToken F) (i : Nat) : F := t.x.getD i fl.zero

theorem read_tokenOf (cfg : MlaConfig F) (w : MlaBF16) (x : Nat → F) :
    row cfg.hiddenSize.toNat ((tokenOf cfg w x).read fl) = row cfg.hiddenSize.toNat x := by
  apply row_congr
  intro i hi
  unfold MlaToken.read tokenOf row
  rw [List.getD_eq_getElem _ _ (by simpa using hi), List.getElem_map, List.getElem_range]

theorem tokenOf_read {t : MlaToken F} (h : t.x.length = t.cfg.hiddenSize.toNat) :
    tokenOf t.cfg t.w (t.read fl) = t := by
  have hrow : row t.cfg.hiddenSize.toNat (t.read fl) = t.x := by
    apply List.ext_getElem
    · rw [row_length, h]
    · intro i hi hi'
      simp [row, MlaToken.read, hi']
  unfold tokenOf
  rw [hrow]

/-- The state stands for these tokens. -/
structure Holds (s : σ) (ts : List (MlaToken F)) : Prop where
  len : m.len s = ts.length
  room : (ts.length : Int) ≤ (m.shape s).capacity
  fits : ∀ t ∈ ts, Fits t.cfg (m.shape s)
  sized : ∀ t ∈ ts, t.x.length = t.cfg.hiddenSize.toNat
  rows : ∀ j (hj : j < ts.length), RowIs m s j ts[j].cfg ts[j].w (ts[j].read fl)

variable {m fl} {s : σ} {ts : List (MlaToken F)}

theorem Holds.prefill (hm : m.Lawful fl) {cfg : MlaConfig F} {w : MlaBF16}
    {x : Nat → F} {n : Int} {s' : σ} (hcall : m.prefill cfg w x n s = some s') :
    Holds m fl s' ((List.range n.toNat).map fun t =>
      tokenOf cfg w (readFrom (t * cfg.hiddenSize.toNat) x)) := by
  obtain ⟨hpos, _, hroom, hfits, _⟩ := hm.prefill_iff.mp (Option.isSome_iff_exists.mpr ⟨s', hcall⟩)
  obtain ⟨hlen, hshape, hrows⟩ := hm.prefill hcall
  refine ⟨?_, ?_, ?_, ?_, ?_⟩
  · simp only [List.length_map, List.length_range]
    omega
  · simp only [List.length_map, List.length_range, hshape]
    omega
  · intro t ht
    obtain ⟨i, _, rfl⟩ := List.mem_map.mp ht
    rw [hshape]
    exact hfits
  · intro t ht
    obtain ⟨i, _, rfl⟩ := List.mem_map.mp ht
    exact row_length _ _
  · intro j hj
    rw [List.length_map, List.length_range] at hj
    simp only [List.getElem_map, List.getElem_range]
    obtain ⟨hlatent, hrope⟩ := hrows j hj
    obtain ⟨hc, hr⟩ := hm.congr (w := w) (read_tokenOf fl cfg w
      (readFrom (j * cfg.hiddenSize.toNat) x))
    exact ⟨hlatent.trans (congrArg _ hc.symm), hrope.trans (congrArg _ (hr j).symm)⟩

theorem Holds.decode (hm : m.Lawful fl) (h : Holds m fl s ts) {cfg : MlaConfig F} {w : MlaBF16}
    {base : Nat} {x : Nat → F} {position : Int} {out : Nat → F} {r : (Nat → F) × σ}
    (hcall : m.decode cfg w base x position s out = some r) :
    Holds m fl r.2 (ts ++ [tokenOf cfg w x]) := by
  obtain ⟨hpos, hnonneg, hroom, hfits, _⟩ :=
    hm.decode_iff.mp (Option.isSome_iff_exists.mpr ⟨r, hcall⟩)
  obtain ⟨hlen, hshape, hkeep, hnew, _⟩ := hm.decode hcall
  have hlength : position = ts.length := hpos.trans h.len
  refine ⟨?_, ?_, ?_, ?_, ?_⟩
  · rw [hlen, hlength, List.length_append]
    rfl
  · rw [hshape, List.length_append, List.length_singleton]
    omega
  · intro t ht
    rw [hshape]
    rcases List.mem_append.mp ht with ht | ht
    · exact h.fits t ht
    · rw [List.mem_singleton.mp ht]
      exact hfits
  · intro t ht
    rcases List.mem_append.mp ht with ht | ht
    · exact h.sized t ht
    · rw [List.mem_singleton.mp ht]
      exact row_length _ _
  · intro j hj
    rw [List.length_append, List.length_singleton] at hj
    rcases Nat.lt_succ_iff_lt_or_eq.mp hj with hlt | heq
    · rw [List.getElem_append_left hlt]
      obtain ⟨hold, holdRope⟩ := h.rows j hlt
      obtain ⟨hrank, hropeDim⟩ := h.fits _ (List.getElem_mem hlt)
      obtain ⟨hlatent, hrope⟩ := hkeep j (by omega)
      rw [← hfits.1, hrank] at hlatent
      rw [← hfits.2, hropeDim] at hrope
      exact ⟨hlatent.trans hold, hrope.trans holdRope⟩
    · subst heq
      rw [List.getElem_append_right (Nat.le_refl _)]
      simp only [Nat.sub_self, List.getElem_cons_zero]
      have hindex : position.toNat = ts.length := by omega
      rw [hindex] at hnew
      obtain ⟨hc, hr⟩ := hm.congr (w := w) (read_tokenOf fl cfg w x)
      exact ⟨hnew.latent.trans (congrArg _ hc.symm), hnew.rope.trans (congrArg _ (hr _).symm)⟩

theorem Holds.truncate (hm : m.Lawful fl) (h : Holds m fl s ts) {n : Int} {s' : σ}
    (hcall : m.truncate s n = some s') : Holds m fl s' (ts.take n.toNat) := by
  obtain ⟨hnonneg, hle, hlen, hshape, hlatent, hrope⟩ := hm.truncate hcall
  have hlength := h.len
  have hroom := h.room
  have htake : (ts.take n.toNat).length = n.toNat := by
    rw [List.length_take]
    omega
  refine ⟨?_, ?_, ?_, ?_, ?_⟩
  · rw [hlen, htake]
    omega
  · rw [hshape, htake]
    omega
  · intro t ht
    rw [hshape]
    exact h.fits t (List.mem_of_mem_take ht)
  · exact fun t ht => h.sized t (List.mem_of_mem_take ht)
  · intro j hj
    rw [List.getElem_take]
    obtain ⟨hl, hr⟩ := h.rows j (by omega)
    exact ⟨hlatent ▸ hl, hrope ▸ hr⟩

theorem Holds.empty (hlen : m.len s = 0) (hroom : 0 ≤ (m.shape s).capacity) : Holds m fl s [] where
  len := hlen
  room := hroom
  fits := by simp
  sized := by simp
  rows := by simp

/-- Every call leaves the state standing for the tokens that survive it. -/
theorem Holds.track (hm : m.Lawful fl) (h : Holds m fl s ts) (op : MlaOp F) :
    Holds m fl (m.track (s, ts) op).1 (m.track (s, ts) op).2 ∧
      m.shape (m.track (s, ts) op).1 = m.shape s := by
  unfold RowMachine.track RowMachine.step
  cases hcall : m.call s op with
  | none => exact ⟨h, rfl⟩
  | some s' =>
    change Holds m fl s' (survive ts op) ∧ m.shape s' = m.shape s
    cases op with
    | prefill cfg w x n allocOk =>
      change (if allocOk = true then m.prefill cfg w x n s else none) = some s' at hcall
      split at hcall
      · exact ⟨Holds.prefill hm hcall, (hm.prefill hcall).2.1⟩
      · simp at hcall
    | decode cfg w base x position out allocOk =>
      change (if allocOk = true then (m.decode cfg w base x position s out).map Prod.snd else none) =
        some s' at hcall
      split at hcall
      · obtain ⟨r, hr, rfl⟩ := Option.map_eq_some_iff.mp hcall
        exact ⟨h.decode hm hr, (hm.decode hr).2.1⟩
      · simp at hcall
    | truncate n => exact ⟨h.truncate hm hcall, (hm.truncate hcall).2.2.2.1⟩
    | reset =>
      obtain rfl := Option.some.inj hcall
      obtain ⟨hlen, hshape⟩ := hm.reset s
      refine ⟨Holds.empty hlen ?_, hshape⟩
      have := h.room
      rw [hshape]
      omega

theorem Holds.foldl (hm : m.Lawful fl) (h : Holds m fl s ts) (ops : List (MlaOp F)) :
    Holds m fl (ops.foldl m.track (s, ts)).1 (ops.foldl m.track (s, ts)).2 ∧
      m.shape (ops.foldl m.track (s, ts)).1 = m.shape s := by
  induction ops generalizing s ts with
  | nil => exact ⟨h, rfl⟩
  | cons op ops ih =>
    obtain ⟨hnext, hshape⟩ := h.track hm op
    obtain ⟨hend, hshape'⟩ := ih hnext
    exact ⟨hend, hshape'.trans hshape⟩

/-- Two states that stand for the same tokens decode alike. -/
theorem Holds.decode_eq (hm : m.Lawful fl) {a b : σ} (ha : Holds m fl a ts) (hb : Holds m fl b ts)
    (hshape : m.shape a = m.shape b) (cfg : MlaConfig F) (w : MlaBF16) (base : Nat) (x : Nat → F)
    (position : Int) (out : Nat → F) :
    (m.decode cfg w base x position a out).map Prod.fst =
      (m.decode cfg w base x position b out).map Prod.fst := by
  have hiff : (m.decode cfg w base x position a out).isSome = true ↔
      (m.decode cfg w base x position b out).isSome = true := by
    rw [hm.decode_iff, hm.decode_iff, ha.len, hb.len, hshape]
  cases hra : m.decode cfg w base x position a out with
  | none =>
    rw [hra] at hiff
    have hnone : ¬ (m.decode cfg w base x position b out).isSome = true := fun h => by
      simpa using hiff.mpr h
    rw [Option.not_isSome_iff_eq_none.mp hnone]
  | some ra =>
    rw [hra] at hiff
    obtain ⟨rb, hrb⟩ := Option.isSome_iff_exists.mp (hiff.mp rfl)
    obtain ⟨hpos, hnonneg, _, hfits, _⟩ :=
      hm.decode_iff.mp (Option.isSome_iff_exists.mpr ⟨ra, hra⟩)
    have hfitsB : Fits cfg (m.shape b) := hshape ▸ hfits
    obtain ⟨_, _, hkeepA, hnewA, houtA⟩ := hm.decode hra
    obtain ⟨_, _, hkeepB, hnewB, houtB⟩ := hm.decode hrb
    have hlength : position = ts.length := hpos.trans ha.len
    have hrows : ∀ j < position.toNat + 1, row cfg.kvLoraRank.toNat (m.latentRow ra.2 j) =
          row cfg.kvLoraRank.toNat (m.latentRow rb.2 j) ∧
        row cfg.qkRopeDim.toNat (m.ropeRow ra.2 j) =
          row cfg.qkRopeDim.toNat (m.ropeRow rb.2 j) := by
      intro j hj
      rcases Nat.lt_succ_iff_lt_or_eq.mp hj with hlt | heq
      · have hj' : j < ts.length := by omega
        obtain ⟨hrank, hropeDim⟩ := ha.fits _ (List.getElem_mem hj')
        have hrank' : cfg.kvLoraRank = ts[j].cfg.kvLoraRank := hfits.1.symm.trans hrank
        have hropeDim' : cfg.qkRopeDim = ts[j].cfg.qkRopeDim := hfits.2.symm.trans hropeDim
        obtain ⟨hla, hra'⟩ := hkeepA j hlt
        obtain ⟨hlb, hrb'⟩ := hkeepB j hlt
        rw [hla, hlb, hra', hrb', hrank', hropeDim']
        obtain ⟨hlA, hrA⟩ := ha.rows j hj'
        obtain ⟨hlB, hrB⟩ := hb.rows j hj'
        exact ⟨hlA.trans hlB.symm, hrA.trans hrB.symm⟩
      · rw [heq]
        exact ⟨hnewA.latent.trans hnewB.latent.symm, hnewA.rope.trans hnewB.rope.symm⟩
    rw [hrb, Option.map_some, Option.map_some, houtA, houtB]
    rw [attnOver_congr (fun j hj => (hrows j hj).1) fun j hj => (hrows j hj).2]

/-- The tokens that came with one prefill, and those that were decoded after it. -/
structure Fed (fl : MlaFloats F D) (ts : List (MlaToken F)) (k : Nat) : Prop where
  le : k ≤ ts.length
  filled : ∀ t ∈ ts.take k, ∀ t' ∈ ts.take k, t.cfg = t'.cfg ∧ t.w = t'.w
  fillOk : ∀ t ∈ ts.take k, FillOk fl t.cfg
  decoded : ∀ t ∈ ts.drop k, t.cfg.Ok fl

theorem fed_nil (fl : MlaFloats F D) : Fed fl [] 0 where
  le := Nat.le_refl 0
  filled := by simp
  fillOk := by simp
  decoded := by simp

theorem Fed.track (hm : m.Lawful fl) {k : Nat} (h : Fed fl ts k) (s : σ) (op : MlaOp F) :
    ∃ k, Fed fl (m.track (s, ts) op).2 k := by
  unfold RowMachine.track
  cases hcall : m.call s op with
  | none => exact ⟨k, h⟩
  | some s' =>
    change ∃ k, Fed fl (survive ts op) k
    cases op with
    | prefill cfg w x n allocOk =>
      change (if allocOk = true then m.prefill cfg w x n s else none) = some s' at hcall
      split at hcall
      · obtain ⟨_, _, _, _, hok⟩ :=
          hm.prefill_iff.mp (Option.isSome_iff_exists.mpr ⟨s', hcall⟩)
        refine ⟨(survive ts (.prefill cfg w x n allocOk)).length, Nat.le_refl _, ?_, ?_, ?_⟩
        · rw [List.take_length]
          intro t ht t' ht'
          obtain ⟨i, _, rfl⟩ := List.mem_map.mp ht
          obtain ⟨i', _, rfl⟩ := List.mem_map.mp ht'
          exact ⟨rfl, rfl⟩
        · rw [List.take_length]
          intro t ht
          obtain ⟨i, _, rfl⟩ := List.mem_map.mp ht
          exact hok
        · rw [List.drop_length]
          simp
      · simp at hcall
    | decode cfg w base x position out allocOk =>
      change (if allocOk = true then (m.decode cfg w base x position s out).map Prod.snd else none) =
        some s' at hcall
      split at hcall
      · obtain ⟨r, hr, rfl⟩ := Option.map_eq_some_iff.mp hcall
        obtain ⟨_, _, _, _, hok⟩ := hm.decode_iff.mp (Option.isSome_iff_exists.mpr ⟨r, hr⟩)
        have hle := h.le
        change ∃ k, Fed fl (ts ++ [tokenOf cfg w x]) k
        refine ⟨k, ?_, ?_, ?_, ?_⟩
        · rw [List.length_append]
          omega
        · rw [List.take_append_of_le_length hle]
          exact h.filled
        · rw [List.take_append_of_le_length hle]
          exact h.fillOk
        · rw [List.drop_append_of_le_length hle]
          intro t ht
          rcases List.mem_append.mp ht with ht | ht
          · exact h.decoded t ht
          · rw [List.mem_singleton.mp ht]
            exact hok
      · simp at hcall
    | truncate n =>
      change ∃ k, Fed fl (ts.take n.toNat) k
      have hle := h.le
      have htake : (ts.take n.toNat).take (min k n.toNat) = (ts.take k).take n.toNat := by
        rw [List.take_take, List.take_take, min_assoc, min_self, min_comm]
      refine ⟨min k n.toNat, ?_, ?_, ?_, ?_⟩
      · rw [List.length_take]
        omega
      · rw [htake]
        exact fun t ht t' ht' => h.filled t (List.mem_of_mem_take ht) t' (List.mem_of_mem_take ht')
      · rw [htake]
        exact fun t ht => h.fillOk t (List.mem_of_mem_take ht)
      · intro t ht
        apply h.decoded t
        rcases Nat.le_total k n.toNat with hle | hle
        · rw [min_eq_left hle, List.drop_take] at ht
          exact List.mem_of_mem_take ht
        · rw [min_eq_right hle, List.drop_eq_nil_of_le (by simp)] at ht
          simp at ht
    | reset => exact ⟨0, fed_nil fl⟩

/-- Decode calls for these tokens, from this position on. -/
def feedDecodes (fl : MlaFloats F D) (ts : List (MlaToken F)) (start : Nat) : List (MlaOp F) :=
  ts.mapIdx fun i t => .decode t.cfg t.w 0 (t.read fl) ((start + i : Nat) : Int) (fun _ => fl.zero)
    true

/-- One prefill call for these tokens. -/
def feedPrefill (fl : MlaFloats F D) (t : MlaToken F) (ts : List (MlaToken F)) : MlaOp F :=
  .prefill t.cfg t.w (fun k => (ts.getD (k / t.cfg.hiddenSize.toNat) t).read fl
    (k % t.cfg.hiddenSize.toNat)) ts.length true

theorem feedDecodes_run (hm : m.Lawful fl) {new : List (MlaToken F)} (hs : Holds m fl s ts)
    (hroom : ((ts.length + new.length : Nat) : Int) ≤ (m.shape s).capacity)
    (hfits : ∀ t ∈ new, Fits t.cfg (m.shape s)) (hok : ∀ t ∈ new, t.cfg.Ok fl)
    (hsized : ∀ t ∈ new, t.x.length = t.cfg.hiddenSize.toNat) :
    ((feedDecodes fl new ts.length).foldl m.track (s, ts)).2 = ts ++ new := by
  induction new generalizing s ts with
  | nil => exact (List.append_nil ts).symm
  | cons t new ih =>
    have hcons : feedDecodes fl (t :: new) ts.length =
        .decode t.cfg t.w 0 (t.read fl) ts.length (fun _ => fl.zero) true ::
          feedDecodes fl new (ts ++ [t]).length := by
      unfold feedDecodes
      rw [List.mapIdx_cons, List.length_append]
      simp only [Nat.add_zero, List.length_singleton, Nat.add_assoc, Nat.add_comm 1]
    rw [List.length_cons] at hroom
    have hsome : (m.decode t.cfg t.w 0 (t.read fl) ts.length s fun _ => fl.zero).isSome = true :=
      hm.decode_iff.mpr ⟨hs.len.symm, by omega, by omega, hfits t List.mem_cons_self,
        hok t List.mem_cons_self⟩
    obtain ⟨r, hr⟩ := Option.isSome_iff_exists.mp hsome
    have htoken := @tokenOf_read F D fl t (hsized t List.mem_cons_self)
    have htrack : m.track (s, ts)
        (.decode t.cfg t.w 0 (t.read fl) ts.length (fun _ => fl.zero) true) = (r.2, ts ++ [t]) := by
      simp only [RowMachine.track, RowMachine.step, RowMachine.call, if_true, hr, Option.map_some,
        Option.getD_some, Option.isSome_some, survive, htoken]
    have hnext := hs.decode hm hr
    rw [htoken] at hnext
    have hshape : m.shape r.2 = m.shape s := (hm.decode hr).2.1
    rw [hcons, List.foldl_cons, htrack, ih hnext]
    · rw [List.append_assoc, List.singleton_append]
    · rw [hshape, List.length_append, List.length_singleton]
      omega
    · exact fun t' ht' => hshape ▸ hfits t' (List.mem_cons_of_mem t ht')
    · exact fun t' ht' => hok t' (List.mem_cons_of_mem t ht')
    · exact fun t' ht' => hsized t' (List.mem_cons_of_mem t ht')

theorem feedPrefill_run (hm : m.Lawful fl) (hlen : m.len s = 0) {t : MlaToken F}
    {new : List (MlaToken F)} (ht : t ∈ new)
    (hroom : (new.length : Int) ≤ (m.shape s).capacity) (hfits : Fits t.cfg (m.shape s))
    (hok : FillOk fl t.cfg) (hsame : ∀ t' ∈ new, t'.cfg = t.cfg ∧ t'.w = t.w)
    (hsized : ∀ t' ∈ new, t'.x.length = t'.cfg.hiddenSize.toNat) :
    (m.track (s, ts) (feedPrefill fl t new)).2 = new := by
  have hpos : 0 < new.length := List.length_pos_of_mem ht
  have hsome : (m.call s (feedPrefill fl t new)).isSome = true :=
    hm.prefill_iff.mpr ⟨by omega, hlen, hroom, hfits, hok⟩
  have hH : 0 < t.cfg.hiddenSize.toNat := Int.lt_toNat.mpr hok.hidden
  unfold RowMachine.track
  rw [if_pos hsome]
  apply List.ext_getElem
  · simp [survive, feedPrefill]
  · intro i hi hi'
    have hmem := List.getElem_mem hi'
    obtain ⟨hcfg, hw⟩ := hsame _ hmem
    simp only [survive, feedPrefill, List.getElem_map, List.getElem_range]
    have hread : row t.cfg.hiddenSize.toNat (readFrom (i * t.cfg.hiddenSize.toNat) fun k =>
        (new.getD (k / t.cfg.hiddenSize.toNat) t).read fl (k % t.cfg.hiddenSize.toNat)) =
        row t.cfg.hiddenSize.toNat (new[i].read fl) := by
      apply row_congr
      intro d hd
      unfold readFrom
      dsimp only
      rw [Nat.mul_add_mod_of_lt hd, Nat.add_comm, Nat.add_mul_div_right _ _ hH,
        Nat.div_eq_of_lt hd, Nat.zero_add, List.getD_eq_getElem _ _ hi']
    have htoken := @tokenOf_read F D fl new[i] (hsized _ hmem)
    rw [hcfg, hw] at htoken
    unfold tokenOf at htoken ⊢
    rw [hread, htoken]

end Holds

section NoTrace
variable {F D σ : Type*} (m : RowMachine F σ) (fl : MlaFloats F D)

/-- After a history, nothing but the surviving tokens can be told from a decode. -/
structure NoTrace (s₀ : σ) (ops : List (MlaOp F)) : Prop where
  same : ∀ feed, (∀ op ∈ feed, op.Feeds) → (m.run s₀ feed).2 = (m.run s₀ ops).2 →
    ∀ cfg w base x position out,
      (m.decode cfg w base x position (m.run s₀ ops).1 out).map Prod.fst =
        (m.decode cfg w base x position (m.run s₀ feed).1 out).map Prod.fst
  fed : ∃ feed, (∀ op ∈ feed, op.Feeds) ∧ (m.run s₀ feed).2 = (m.run s₀ ops).2
  byDecode : (∀ t ∈ (m.run s₀ ops).2, t.cfg.Ok fl) →
    (m.run s₀ (feedDecodes fl (m.run s₀ ops).2 0)).2 = (m.run s₀ ops).2
  byPrefill : ∀ t ∈ (m.run s₀ ops).2, FillOk fl t.cfg →
    (∀ t' ∈ (m.run s₀ ops).2, t'.cfg = t.cfg ∧ t'.w = t.w) →
      (m.run s₀ [feedPrefill fl t (m.run s₀ ops).2]).2 = (m.run s₀ ops).2
  failed : ∀ op, m.call (m.run s₀ ops).1 op = none →
    m.len (m.step (m.run s₀ ops).1 op) = m.len (m.run s₀ ops).1 ∧
      ∀ j < (m.len (m.run s₀ ops).1).toNat,
        m.latentRow (m.step (m.run s₀ ops).1 op) j = m.latentRow (m.run s₀ ops).1 j ∧
        m.ropeRow (m.step (m.run s₀ ops).1 op) j = m.ropeRow (m.run s₀ ops).1 j

variable {m fl}

theorem feedDecodes_feeds (ts : List (MlaToken F)) (start : Nat) :
    ∀ op ∈ feedDecodes fl ts start, op.Feeds := by
  intro op hop
  obtain ⟨i, hi, rfl⟩ := List.mem_mapIdx.mp hop
  trivial

/-- Tokens that came with one prefill and decodes after it can be fed again. -/
theorem Fed.feed {ts : List (MlaToken F)} {k : Nat} (h : Fed fl ts k) (hm : m.Lawful fl) {s : σ}
    (hlen : m.len s = 0) (hs : Holds m fl s []) (hroom : (ts.length : Int) ≤ (m.shape s).capacity)
    (hfits : ∀ t ∈ ts, Fits t.cfg (m.shape s))
    (hsized : ∀ t ∈ ts, t.x.length = t.cfg.hiddenSize.toNat) :
    ∃ feed, (∀ op ∈ feed, op.Feeds) ∧ (m.run s feed).2 = ts := by
  have hsplit := List.take_append_drop k ts
  cases hpre : ts.take k with
  | nil =>
    rw [hpre, List.nil_append] at hsplit
    refine ⟨feedDecodes fl ts 0, feedDecodes_feeds ts 0, ?_⟩
    exact feedDecodes_run hm hs (by simpa using hroom) hfits (hsplit ▸ h.decoded) hsized
  | cons t pre =>
    have htake : ∀ t' ∈ t :: pre, t' ∈ ts.take k := fun t' ht' => hpre ▸ ht'
    have hmem : ∀ t' ∈ t :: pre, t' ∈ ts := fun t' ht' => List.mem_of_mem_take (htake t' ht')
    have hhead : t ∈ t :: pre := List.mem_cons_self
    have hlength := congrArg List.length hsplit
    rw [hpre, List.length_append] at hlength
    have hfill := @feedPrefill_run F D σ m fl s [] hm hlen t (t :: pre) hhead (by omega)
      (hfits t (hmem t hhead)) (h.fillOk t (htake t hhead))
      (fun t' ht' => h.filled t' (htake t' ht') t (htake t hhead))
      fun t' ht' => hsized t' (hmem t' ht')
    obtain ⟨hnext, hshape⟩ := hs.track hm (feedPrefill fl t (t :: pre))
    rw [hfill] at hnext
    refine ⟨feedPrefill fl t (t :: pre) :: feedDecodes fl (ts.drop k) (t :: pre).length, ?_, ?_⟩
    · intro op hop
      rcases List.mem_cons.mp hop with rfl | hop
      · trivial
      · exact feedDecodes_feeds _ _ op hop
    · have hstate : m.track (s, []) (feedPrefill fl t (t :: pre)) =
          ((m.track (s, []) (feedPrefill fl t (t :: pre))).1, t :: pre) := Prod.ext rfl hfill
      unfold RowMachine.run
      rw [List.foldl_cons, hstate, feedDecodes_run hm hnext]
      · rw [← hpre, hsplit]
      · rw [hshape]
        omega
      · exact fun t' ht' => hshape ▸ hfits t' (List.mem_of_mem_drop ht')
      · exact h.decoded
      · exact fun t' ht' => hsized t' (List.mem_of_mem_drop ht')

theorem RowMachine.Lawful.noTrace (hm : m.Lawful fl) {cfg₀ : MlaConfig F} {capacity : Int} {s₀ : σ}
    (hinit : m.init cfg₀ capacity = some s₀) (ops : List (MlaOp F)) : NoTrace m fl s₀ ops := by
  obtain ⟨hlen, hroom⟩ := hm.init hinit
  have hfresh : Holds m fl s₀ [] := Holds.empty hlen hroom
  obtain ⟨hholds, hshape⟩ := hfresh.foldl hm ops
  have hfed : ∃ k, Fed fl (m.run s₀ ops).2 k := by
    induction ops using List.reverseRecOn with
    | nil => exact ⟨0, fed_nil fl⟩
    | append_singleton ops op ih =>
      obtain ⟨hbefore, hshape'⟩ := hfresh.foldl hm ops
      obtain ⟨k, hk⟩ := ih hbefore hshape'
      unfold RowMachine.run
      rw [List.foldl_append]
      exact hk.track hm _ op
  have hcap : ((m.run s₀ ops).2.length : Int) ≤ (m.shape s₀).capacity := hshape ▸ hholds.room
  have hfits : ∀ t ∈ (m.run s₀ ops).2, Fits t.cfg (m.shape s₀) := hshape ▸ hholds.fits
  refine ⟨?_, ?_, ?_, ?_, ?_⟩
  · intro feed _ htokens cfg w base x position out
    obtain ⟨hfeed, hshape'⟩ := hfresh.foldl hm feed
    change Holds m fl (m.run s₀ feed).1 (m.run s₀ feed).2 at hfeed
    rw [htokens] at hfeed
    exact hholds.decode_eq hm hfeed (hshape.trans hshape'.symm) cfg w base x position out
  · obtain ⟨k, hk⟩ := hfed
    exact hk.feed hm hlen hfresh hcap hfits hholds.sized
  · intro hok
    exact feedDecodes_run hm hfresh (by simpa using hcap) hfits hok hholds.sized
  · intro t ht hok hsame
    exact feedPrefill_run hm hlen ht hcap (hfits t ht) hok hsame hholds.sized
  · intro op hnone
    unfold RowMachine.step
    rw [hnone]
    exact ⟨rfl, fun _ _ => ⟨rfl, rfl⟩⟩

end NoTrace

end Kvl
