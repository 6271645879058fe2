import Kvl.Lib.Dict
import Kvl.Lib.Reservoir
import Kvl.Tools.ActTrace

/-!
# The calibration reservoirs

`build_balanced_reservoir` keeps activations per layer, expert and kind,
`build_reservoir` per layer and expert. Both sample the occurrences of every key
with the draws of one generator.
-/

namespace Kvl.Calibration

set_option autoImplicit false

open ActTrace (TraceHeader TraceRecord)
open PyText (Exc Str text strInt strNat valueError)
open Reservoir

/-- `seen`, `kept` and the generator. -/
structure Kept (κ ι G : Type*) where
  seen : List (κ × Nat)
  kept : List (κ × List ι)
  rng : G

section Sampling
variable {κ ι G : Type*} [DecidableEq κ]

def Kept.start (rng : G) : Kept κ ι G := ⟨[], [], rng⟩

/-- The part of both loops that counts the key and samples the item. -/
def sampleItem (randrange : G → Nat → Nat × G) (capacity : Int) (key : κ) (item : ι)
    (s : Kept κ ι G) : Kept κ ι G :=
  let seen := Dict.modify key (fun n => n.getD 0 + 1) s.seen
  let bucket := (Dict.get key s.kept).getD []
  let n := (Dict.get key seen).getD 0
  if (bucket.length : Int) < capacity then
    ⟨seen, Dict.set key (bucket ++ [item]) s.kept, s.rng⟩
  else
    let r := randrange s.rng n
    ⟨seen, Dict.set key (if (r.1 : Int) < capacity then bucket.set r.1 item else bucket) s.kept,
      r.2⟩

end Sampling

/-- One trace of a kind, as `iter_trace` yields it. -/
structure KindTrace (F : Type*) where
  kind : Str
  path : Str
  header : TraceHeader
  records : List (TraceRecord F)

section Builders
variable {F G : Type*} (randrange : G → Nat → Nat × G)

abbrev BalancedKey := Int × Int × Str

/-- The input vector, the weight and the event. -/
abbrev BalancedItem (F : Type*) := List F × F × Nat

def balancedRoute (capacity : Int) (t : KindTrace F) (record : TraceRecord F)
    (s : Kept BalancedKey (BalancedItem F) G) (route : Int × Nat) :
    Except Exc (Kept BalancedKey (BalancedItem F) G) :=
  if route.1 < 0 then
    .error ⟨.value, t.path ++ text ": negative expert id at event " ++ strNat record.event⟩
  else
    match record.weights[route.2]? with
    | none => .error ⟨.exception, text "index " ++ strNat route.2 ++
        text " is out of bounds for axis 0 with size " ++ strNat record.weights.length⟩
    | some w =>
      .ok (sampleItem randrange capacity (record.layer, route.1, t.kind)
        (record.x, w, record.event) s)

def balancedRecord (capacity : Int) (t : KindTrace F) (s : Kept BalancedKey (BalancedItem F) G)
    (record : TraceRecord F) : Except Exc (Kept BalancedKey (BalancedItem F) G) :=
  if record.ids.toFinset.card ≠ record.ids.length then
    .error ⟨.value, t.path ++ text ": duplicate selected expert id at event " ++
      strNat record.event⟩
  else record.ids.zipIdx.foldlM (balancedRoute randrange capacity t record) s

/-- `hidden` and `top_k` of the traces so far, and what was kept. -/
def balancedTrace (capacity : Int) (s : Option TraceHeader × Kept BalancedKey (BalancedItem F) G)
    (t : KindTrace F) : Except Exc (Option TraceHeader × Kept BalancedKey (BalancedItem F) G) :=
  let mismatch := match s.1 with
    | none => none
    | some h => if t.header ≠ h then some h else none
  match mismatch with
  | some h =>
    .error ⟨.value, t.path ++ text ": hidden/top_k " ++ strNat t.header.hidden ++ text "/" ++
      strNat t.header.topK ++ text " do not match " ++ strNat h.hidden ++ text "/" ++
      strNat h.topK⟩
  | none =>
    match t.records.foldlM (balancedRecord randrange capacity t) s.2 with
    | .error e => .error e
    | .ok kept => .ok (some t.header, kept)

/-- The sampling of `build_balanced_reservoir`. -/
def buildBalancedReservoir (traces : List (KindTrace F)) (capacityPerKind : Int) (rng : G) :
    Except Exc (Kept BalancedKey (BalancedItem F) G) :=
  if capacityPerKind ≤ 0 then .error (valueError "capacity_per_kind must be positive")
  else if traces = [] then .error (valueError "at least one trace is required")
  else
    match traces.foldlM (balancedTrace randrange capacityPerKind) (none, Kept.start rng) with
    | .error e => .error e
    | .ok s => .ok s.2

/-- One routed record of a line of the trace. -/
structure RoutedRow (F : Type*) where
  lineNo : Nat
  layer : Int
  expert : Int
  x : List F

def reservoirRow (path : Str) (capacity hidden : Int) (s : Kept (Int × Int) (List F) G)
    (row : RoutedRow F) : Except Exc (Kept (Int × Int) (List F) G) :=
  if (row.x.length : Int) ≠ hidden then
    .error ⟨.value, path ++ text ":" ++ strNat row.lineNo ++ text ": x shape=(" ++
      strNat row.x.length ++ text ",), expected (" ++ strInt hidden ++ text ",)"⟩
  else .ok (sampleItem randrange capacity (row.layer, row.expert) row.x s)

/-- The sampling of `build_reservoir`. -/
def buildReservoir (path : Str) (rows : List (RoutedRow F)) (capacity hidden : Int) (rng : G) :
    Except Exc (Kept (Int × Int) (List F) G) :=
  if capacity ≤ 0 ∨ hidden ≤ 0 then .error (valueError "capacity and hidden must be positive")
  else rows.foldlM (reservoirRow randrange path capacity hidden) (Kept.start rng)

end Builders

/-! ### The occurrences -/

section Occurrences
variable {F : Type*}

/-- The occurrences of the keys, in the order of the stream. -/
def recordItems (kind : Str) (record : TraceRecord F) : List (BalancedKey × BalancedItem F) :=
  (record.ids.zip record.weights).map fun r =>
    ((record.layer, r.1, kind), (record.x, r.2, record.event))

def balancedItems (traces : List (KindTrace F)) : List (BalancedKey × BalancedItem F) :=
  traces.flatMap fun t => t.records.flatMap (recordItems t.kind)

def rowItems (rows : List (RoutedRow F)) : List ((Int × Int) × List F) :=
  rows.map fun row => ((row.layer, row.expert), row.x)

/-- What the builder accepts: routes without duplicates or negative ids, one weight each. -/
structure RecordOk (record : TraceRecord F) : Prop where
  nodup : record.ids.Nodup
  nonneg : ∀ id ∈ record.ids, 0 ≤ id
  weights : record.weights.length = record.ids.length

end Occurrences

/-! ### The builders fill reservoirs -/

section Refinement
variable {κ ι G : Type*} [DecidableEq κ]

/-- The dictionaries hold what the reservoirs hold. -/
structure Refines (s : Kept κ ι G) (t : State κ ι G) : Prop where
  seen : ∀ k, (Dict.get k s.seen).getD 0 = t.seen k
  kept : ∀ k, (Dict.get k s.kept).getD [] = t.held k
  rng : s.rng = t.rng

theorem refines_start (g : G) : Refines (Kept.start g : Kept κ ι G) (start g) :=
  ⟨fun _ => rfl, fun _ => rfl, rfl⟩

variable {randrange : G → Nat → Nat × G} {capacity : Int}

theorem getD_set {ν : Type*} (d : List (κ × ν)) (key k : κ) (v other : ν) :
    (Dict.get k (Dict.set key v d)).getD other =
      Function.update (fun k => (Dict.get k d).getD other) key v k := by
  by_cases hk : k = key
  · rw [hk, Dict.get_set_self, Function.update_self, Option.getD_some]
  · rw [Dict.get_set_of_ne hk, Function.update_of_ne hk]

theorem Refines.sample {s : Kept κ ι G} {t : State κ ι G} (h : Refines s t) (key : κ) (item : ι) :
    Refines (sampleItem randrange capacity key item s)
      (offer randrange capacity.toNat t (key, item)) := by
  have hkept : (fun k => (Dict.get k s.kept).getD []) = t.held := funext h.kept
  have hn : (Dict.get key (Dict.modify key (fun n => n.getD 0 + 1) s.seen)).getD 0 =
      t.seen key + 1 := by
    rw [Dict.get_modify_self, Option.getD_some, h.seen]
  have hseen : ∀ k, (Dict.get k (Dict.modify key (fun n => n.getD 0 + 1) s.seen)).getD 0 =
      Function.update t.seen key (t.seen key + 1) k := by
    intro k
    by_cases hk : k = key
    · rw [hk, hn, Function.update_self]
    · rw [Dict.get_modify_of_ne hk, h.seen, Function.update_of_ne hk]
  unfold sampleItem offer
  dsimp only
  rw [h.kept, h.rng, hn]
  by_cases hroom : (t.held key).length < capacity.toNat
  · rw [if_pos (by omega), if_pos hroom]
    exact ⟨hseen, fun k => by rw [getD_set, hkept], rfl⟩
  · rw [if_neg (by omega), if_neg hroom]
    refine ⟨hseen, fun k => ?_, rfl⟩
    dsimp only
    rw [getD_set, hkept]
    by_cases hr : (randrange t.rng (t.seen key + 1)).1 < capacity.toNat
    · rw [if_pos (by omega), if_pos hr]
    · rw [if_neg (by omega), if_neg hr, Function.update_eq_self]

end Refinement

/-- A loop whose every round returns is the fold of what the rounds return. -/
theorem foldlM_ok {α β : Type*} {f : β → α → Except Exc β} {g : β → α → β} {l : List α}
    (h : ∀ a ∈ l, ∀ b, f b a = .ok (g b a)) (b : β) : l.foldlM f b = .ok (l.foldl g b) := by
  induction l generalizing b with
  | nil => rfl
  | cons a l ih =>
    rw [List.foldlM_cons, h a List.mem_cons_self]
    exact ih (fun a ha => h a (List.mem_cons_of_mem _ ha)) _

section Runs
variable {κ ι F G : Type*} [DecidableEq κ] {randrange : G → Nat → Nat × G} {capacity : Int}

def sampleAll (randrange : G → Nat → Nat × G) (capacity : Int) (items : List (κ × ι))
    (s : Kept κ ι G) : Kept κ ι G :=
  items.foldl (fun s a => sampleItem randrange capacity a.1 a.2 s) s

theorem sampleAll_append (first rest : List (κ × ι)) (s : Kept κ ι G) :
    sampleAll randrange capacity (first ++ rest) s =
      sampleAll randrange capacity rest (sampleAll randrange capacity first s) :=
  List.foldl_append

theorem sampleAll_flatMap {α : Type*} (f : α → List (κ × ι)) (l : List α) (s : Kept κ ι G) :
    l.foldl (fun s a => sampleAll randrange capacity (f a) s) s =
      sampleAll randrange capacity (l.flatMap f) s := by
  induction l generalizing s with
  | nil => rfl
  | cons a l ih => rw [List.foldl_cons, ih, List.flatMap_cons, sampleAll_append]

theorem Refines.sampleAll {s : Kept κ ι G} {t : State κ ι G} (h : Refines s t)
    (items : List (κ × ι)) :
    Refines (sampleAll randrange capacity items s) (Reservoir.fill randrange capacity.toNat items t) := by
  induction items generalizing s t with
  | nil => exact h
  | cons a items ih => exact ih (h.sample a.1 a.2)

/-- The routes of a record, from the `n`-th on. -/
theorem balancedRoute_foldlM (t : KindTrace F) (record : TraceRecord F) {ids : List Int}
    {weights : List F} (n : Nat) (hlength : weights.length = ids.length)
    (hnonneg : ∀ id ∈ ids, 0 ≤ id) (hrest : ∀ j, record.weights[n + j]? = weights[j]?)
    (s : Kept BalancedKey (BalancedItem F) G) :
    (ids.zipIdx n).foldlM (balancedRoute randrange capacity t record) s =
      .ok (sampleAll randrange capacity ((ids.zip weights).map fun r =>
        ((record.layer, r.1, t.kind), (record.x, r.2, record.event))) s) := by
  induction ids generalizing weights n s with
  | nil => rfl
  | cons id ids ih =>
    cases weights with
    | nil => exact absurd hlength (by simp)
    | cons w weights =>
      have hw : record.weights[n]? = some w := by simpa using hrest 0
      have hnow : ¬ id < 0 := not_lt.mpr (hnonneg id List.mem_cons_self)
      have hstep : balancedRoute randrange capacity t record s (id, n) =
          .ok (sampleItem randrange capacity (record.layer, id, t.kind)
            (record.x, w, record.event) s) := by
        unfold balancedRoute
        rw [if_neg hnow, hw]
      rw [List.zipIdx_cons, List.foldlM_cons, hstep]
      refine ih (n + 1) (Nat.succ.inj hlength) (fun id h => hnonneg id (List.mem_cons_of_mem _ h)) ?_ _
      intro j
      have h := hrest (j + 1)
      rw [List.getElem?_cons_succ] at h
      rw [← h, Nat.add_assoc, Nat.add_comm 1 j]

variable (randrange capacity) in
theorem balancedRecord_ok {t : KindTrace F} {record : TraceRecord F} (h : RecordOk record)
    (s : Kept BalancedKey (BalancedItem F) G) :
    balancedRecord randrange capacity t s record =
      .ok (sampleAll randrange capacity (recordItems t.kind record) s) := by
  unfold balancedRecord
  rw [if_neg (not_not.mpr (List.toFinset_card_of_nodup h.nodup))]
  exact balancedRoute_foldlM t record 0 h.weights h.nonneg
    (fun j => by rw [Nat.zero_add]) s

/-- The traces agree in their header. -/
structure TracesOk (header : TraceHeader) (traces : List (KindTrace F)) : Prop where
  header : ∀ t ∈ traces, t.header = header
  records : ∀ t ∈ traces, ∀ record ∈ t.records, RecordOk record

variable (randrange capacity) in
theorem balancedTrace_foldlM {header : TraceHeader} {traces : List (KindTrace F)}
    (h : TracesOk header traces) (hd : Option TraceHeader) (hhd : ∀ h' ∈ hd, h' = header)
    (s : Kept BalancedKey (BalancedItem F) G) :
    ∃ hd', traces.foldlM (balancedTrace randrange capacity) (hd, s) =
      .ok (hd', sampleAll randrange capacity (balancedItems traces) s) := by
  induction traces generalizing hd s with
  | nil => exact ⟨hd, rfl⟩
  | cons t traces ih =>
    have hheader := h.header t List.mem_cons_self
    have hrecords : t.records.foldlM (balancedRecord randrange capacity t) s =
        .ok (sampleAll randrange capacity (t.records.flatMap (recordItems t.kind)) s) := by
      rw [← sampleAll_flatMap]
      exact foldlM_ok (fun record hr b => balancedRecord_ok randrange capacity
        (h.records t List.mem_cons_self record hr) b) s
    have hstep : balancedTrace randrange capacity (hd, s) t =
        .ok (some header, sampleAll randrange capacity (t.records.flatMap (recordItems t.kind)) s) := by
      unfold balancedTrace
      cases hd with
      | none =>
        dsimp only
        rw [hrecords, hheader]
      | some h' =>
        obtain rfl := hhd h' rfl
        dsimp only
        rw [if_neg (not_not.mpr hheader)]
        dsimp only
        rw [hrecords, hheader]
    obtain ⟨hd', hmore⟩ := ih ⟨fun t ht => h.header t (List.mem_cons_of_mem _ ht),
      fun t ht => h.records t (List.mem_cons_of_mem _ ht)⟩ (some header)
      (fun h' hh => (Option.some.inj hh).symm) _
    refine ⟨hd', ?_⟩
    rw [List.foldlM_cons, hstep]
    have hitems : balancedItems (t :: traces) =
        t.records.flatMap (recordItems t.kind) ++ balancedItems traces := List.flatMap_cons
    rw [hitems, sampleAll_append]
    exact hmore

theorem buildBalancedReservoir_ok {header : TraceHeader} {traces : List (KindTrace F)}
    (h : TracesOk header traces) (hne : traces ≠ []) (hcap : 0 < capacity) (g : G) :
    buildBalancedReservoir randrange traces capacity g =
      .ok (sampleAll randrange capacity (balancedItems traces) (Kept.start g)) := by
  obtain ⟨hd', hrun⟩ := balancedTrace_foldlM randrange capacity h none
    (fun _ hh => absurd hh (by simp)) (Kept.start g)
  unfold buildBalancedReservoir
  rw [if_neg (by omega), if_neg hne, hrun]

theorem buildReservoir_ok (path : Str) {rows : List (RoutedRow F)} {hidden : Int}
    (hcap : 0 < capacity) (hhidden : 0 < hidden) (hrows : ∀ r ∈ rows, (r.x.length : Int) = hidden)
    (g : G) :
    buildReservoir randrange path rows capacity hidden g =
      .ok (sampleAll randrange capacity (rowItems rows) (Kept.start g)) := by
  have hstep : ∀ row ∈ rows, ∀ s : Kept (Int × Int) (List F) G,
      reservoirRow randrange path capacity hidden s row =
        .ok (sampleItem randrange capacity (row.layer, row.expert) row.x s) := by
    intro row hrow s
    unfold reservoirRow
    rw [if_neg (not_not.mpr (hrows row hrow))]
  unfold buildReservoir
  rw [if_neg (by omega), foldlM_ok hstep, sampleAll, rowItems, List.foldl_map]

end Runs

/-! ### The samples are uniform -/

section Uniformity
variable {κ ι : Type*} [DecidableEq κ]

/-- `held` holds, for every vector of draws, as many distinct occurrences of a key as fit; and
counted over all vectors every choice of such sets for any keys is held equally often. -/
structure UniformSample (cap : Nat) (keys : List κ) (held : List Nat → κ → List Nat) : Prop where
  size : ∀ v ∈ outcomes (bounds cap keys), ∀ k, (held v k).length = min (keys.count k) cap
  nodup : ∀ v ∈ outcomes (bounds cap keys), ∀ k, (held v k).Nodup
  within : ∀ v ∈ outcomes (bounds cap keys), ∀ k, ∀ i ∈ held v k, keys[i]? = some k
  uniform : ∀ (K : Finset κ) (S : κ → Finset Nat),
    (∀ k ∈ K, S k ⊆ occurrences keys k ∧ (S k).card = min (keys.count k) cap) →
    ((outcomes (bounds cap keys)).filter fun v => ∀ k ∈ K, (held v k).toFinset = S k).card *
        ∏ k ∈ K, (keys.count k).choose (min (keys.count k) cap) =
      (outcomes (bounds cap keys)).card

theorem uniformSample_heldAt (cap : Nat) (keys : List κ) :
    UniformSample cap keys (heldAt cap keys) := by
  constructor
  · exact fun v hv k => heldAt_length hv k
  · exact fun v hv k => heldAt_nodup hv k
  · exact fun v hv k i hi => heldAt_within hv hi
  · exact fun K S hS => uniform cap keys K S hS

/-- A builder samples these items: it asks for the bounds that make up the vectors of draws,
and with every vector it keeps the items at the positions of a uniform sample. -/
def SamplesUniformly (cap : Nat) (items : List (κ × ι))
    (build : (G : Type) → (G → Nat → Nat × G) → G → Except Exc (Kept κ ι G)) : Prop :=
  (∀ (G : Type) (next : G → Nat → Nat × G) (g : G), ∃ s,
    build (G × List Nat) (logged next) (g, []) = .ok s ∧
      s.rng.2 = bounds cap (items.map Prod.fst)) ∧
  ∃ held, UniformSample cap (items.map Prod.fst) held ∧
    ∀ v ∈ outcomes (bounds cap (items.map Prod.fst)), ∃ s,
      build (List Nat) replay v = .ok s ∧ ∀ k,
        (Dict.get k s.seen).getD 0 = (items.map Prod.fst).count k ∧
        ((Dict.get k s.kept).getD []).map some =
          (held v k).map fun i => (items[i]?).map Prod.snd

theorem samplesUniformly_sampleAll {capacity : Int} {items : List (κ × ι)}
    {build : (G : Type) → (G → Nat → Nat × G) → G → Except Exc (Kept κ ι G)}
    (hbuild : ∀ G next g, build G next g = .ok (sampleAll next capacity items (Kept.start g))) :
    SamplesUniformly capacity.toNat items build := by
  constructor
  · intro G next g
    refine ⟨_, hbuild _ _ _, ?_⟩
    rw [((refines_start (g, [])).sampleAll items).rng]
    exact fill_logged items g
  · refine ⟨_, uniformSample_heldAt capacity.toNat (items.map Prod.fst), fun v _ => ?_⟩
    refine ⟨_, hbuild _ _ _, fun k => ?_⟩
    have hrefines : Refines (sampleAll replay capacity items (Kept.start v))
      (Reservoir.fill replay capacity.toNat items (start v)) := (refines_start v).sampleAll items
    rw [hrefines.seen, hrefines.kept]
    exact ⟨(fill_counts replay capacity.toNat items v k).1, fill_positions items v k⟩

end Uniformity

/-- Both builders sample the occurrences of every key uniformly. -/
theorem reservoirs_uniform {F : Type*} {capacity : Int} (hcap : 0 < capacity) :
    (∀ header (traces : List (KindTrace F)), TracesOk header traces → traces ≠ [] →
      SamplesUniformly capacity.toNat (balancedItems traces)
        fun _ randrange g => buildBalancedReservoir randrange traces capacity g) ∧
    ∀ path (rows : List (RoutedRow F)) hidden, 0 < hidden →
      (∀ r ∈ rows, (r.x.length : Int) = hidden) →
      SamplesUniformly capacity.toNat (rowItems rows)
        fun _ randrange g => buildReservoir randrange path rows capacity hidden g := by
  constructor
  · intro header traces htraces hne
    exact samplesUniformly_sampleAll fun _ _ g => buildBalancedReservoir_ok htraces hne hcap g
  · intro path rows hidden hhidden hrows
    exact samplesUniformly_sampleAll fun _ _ g => buildReservoir_ok path hcap hhidden hrows g

/-- Two routes of one record, and one row. -/
theorem reservoirs_uniform_twoRoutes :
    (SamplesUniformly 1 (balancedItems [⟨[], [], ⟨1, 2⟩, [⟨1, 3, [0, 5], [1, 2], [7]⟩]⟩])
      fun _ randrange g => buildBalancedReservoir (F := Nat) randrange
        [⟨[], [], ⟨1, 2⟩, [⟨1, 3, [0, 5], [1, 2], [7]⟩]⟩] 1 g) ∧
    SamplesUniformly 1 (rowItems [⟨1, 3, 5, [7]⟩])
      fun _ randrange g => buildReservoir (F := Nat) randrange [] [⟨1, 3, 5, [7]⟩] 1 1 g := by
  obtain ⟨hbalanced, hplain⟩ := @reservoirs_uniform Nat 1 (by decide)
  constructor
  · refine hbalanced ⟨1, 2⟩ _ ⟨fun t ht => ?_, fun t ht record hr => ?_⟩ (by simp)
    · rw [List.mem_singleton.mp ht]
    · rw [List.mem_singleton.mp ht, List.mem_singleton] at hr
      rw [hr]
      exact ⟨by decide, by decide, rfl⟩
  · refine hplain [] _ 1 (by decide) fun r hr => ?_
    rw [List.mem_singleton.mp hr]
    rfl

end Kvl.Calibration
