import Kvl.Lib.Decimal
import Kvl.Store.Encode
import Kvl.Store.GgufLoad

/-!
# The GGUF indexer

`index_kimi_gguf_q8.py` writes one record and one source for each expert of the
layers 1 to 26. A slice of a stacked tensor is read as the pages around it, so
the last pages of a record may reach beyond the end of the file. The printed
summary is left out.
-/

namespace Kvl

set_option autoImplicit false

def alignDown (x : Nat) : Nat := x / 4096 * 4096
def alignUp (x : Nat) : Nat := (x + 4096 - 1) / 4096 * 4096

/-- What the reader finds out about a tensor. -/
structure GgufTensor where
  name : Bytes
  /-- `tensor_type` is `Q8_0`. -/
  isQ8 : Bool
  nBytes : Nat
  dataOffset : Nat
  shape : List Nat
  deriving DecidableEq, Repr

inductive ExpertPart where
  | gate
  | up
  | down
  deriving DecidableEq, Repr

/-- The words `gate`, `up` and `down`. -/
def ExpertPart.word : ExpertPart → Bytes
  | .gate => [103, 97, 116, 101]
  | .up => [117, 112]
  | .down => [100, 111, 119, 110]

def blkWord : Bytes := [98, 108, 107, 46]
def ffnWord : Bytes := [46, 102, 102, 110, 95]
def expsWeightWord : Bytes := [95, 101, 120, 112, 115, 46, 119, 101, 105, 103, 104, 116]

/-- `blk.L.ffn_PART_exps.weight` for layer `L`. -/
def tensorName (layer : Nat) (part : ExpertPart) : Bytes :=
  blkWord ++ CText.decimal layer ++ ffnWord ++ part.word ++ expsWeightWord

/-- `by_name`, where the last tensor of a name counts. -/
def byName (tensors : List GgufTensor) (name : Bytes) : Option GgufTensor :=
  tensors.reverse.find? fun t => t.name == name

structure PartInfo where
  raw : Nat
  src : Nat
  sub : Nat
  read : Nat
  bytes : Nat
  deriving DecidableEq, Repr

/-- Where the slice of an expert is, and the pages around it. -/
def tensorSlice (t : GgufTensor) (expert nExperts : Nat) : PartInfo :=
  let sliceBytes := t.nBytes / nExperts
  let raw := t.dataOffset + expert * sliceBytes
  let src := alignDown raw
  let sub := raw - src
  { raw := raw, src := src, sub := sub, read := alignUp (sub + sliceBytes), bytes := sliceBytes }

/-- `none` is a `SystemExit`. -/
def partInfo (t : GgufTensor) (expert nExperts : Nat) : Option PartInfo :=
  if t.isQ8 = false then none
  else if t.nBytes % nExperts ≠ 0 then none
  else if t.shape.length ≠ 3 ∨ t.shape.head? ≠ some nExperts then none
  else some (tensorSlice t expert nExperts)

abbrev IndexRow := ExpertRecord × GgufQ8Source

def dstGate : Nat := alignUp 0
def dstUp (g : PartInfo) : Nat := alignUp (dstGate + g.read)
def dstDown (g u : PartInfo) : Nat := alignUp (dstUp g + u.read)
def slotBytesOf (g u d : PartInfo) : Nat := dstDown g u + d.read

/-- The 64-bit fields of a record in the order they are packed. -/
def recordFields (g u d : PartInfo) : List Nat :=
  [min (min g.src u.src) d.src, slotBytesOf g u d, g.bytes + u.bytes + d.bytes,
    dstGate + g.sub, g.bytes, dstUp g + u.sub, u.bytes, dstDown g u + d.sub, d.bytes]

def sourceFields (g u d : PartInfo) : List Nat :=
  [g.src, g.read, dstGate, u.src, u.read, dstUp g, d.src, d.read, dstDown g u]

def fitsU64 (n : Nat) : Bool := n < 2 ^ 64

def indexRecord (layer expert : Nat) (g u d : PartInfo) : ExpertRecord where
  layer := .ofNat layer
  expert := .ofNat expert
  fileOffset := .ofNat (min (min g.src u.src) d.src)
  readBytes := .ofNat (slotBytesOf g u d)
  payloadBytes := .ofNat (g.bytes + u.bytes + d.bytes)
  gateOff := .ofNat (dstGate + g.sub)
  gateBytes := .ofNat g.bytes
  upOff := .ofNat (dstUp g + u.sub)
  upBytes := .ofNat u.bytes
  downOff := .ofNat (dstDown g u + d.sub)
  downBytes := .ofNat d.bytes

def indexSource (g u d : PartInfo) : GgufQ8Source where
  gateFileOffset := .ofNat g.src
  gateReadBytes := .ofNat g.read
  gateDstOffset := .ofNat dstGate
  upFileOffset := .ofNat u.src
  upReadBytes := .ofNat u.read
  upDstOffset := .ofNat (dstUp g)
  downFileOffset := .ofNat d.src
  downReadBytes := .ofNat d.read
  downDstOffset := .ofNat (dstDown g u)

/-- `struct.pack` raises for a field of more than 64 bits. -/
def packRow (layer expert : Nat) (g u d : PartInfo) : Option IndexRow :=
  if (recordFields g u d).all fitsU64 && (sourceFields g u d).all fitsU64 then
    some (indexRecord layer expert g u d, indexSource g u d)
  else none

def indexRow (tensors : List GgufTensor) (layer expert : Nat) : Option IndexRow :=
  match byName tensors (tensorName layer .gate), byName tensors (tensorName layer .up),
      byName tensors (tensorName layer .down) with
  | some tg, some tu, some td =>
    match partInfo tg expert 64, partInfo tu expert 64, partInfo td expert 64 with
    | some g, some u, some d => packRow layer expert g u d
    | _, _, _ => none
  | _, _, _ => none

def indexRows (tensors : List GgufTensor) : List (Nat × Nat) → Option (List IndexRow)
  | [] => some []
  | (layer, expert) :: ids =>
    match indexRow tensors layer expert, indexRows tensors ids with
    | some row, some rows => some (row :: rows)
    | _, _ => none

/-- The experts of the layers `first_moe` to `last_moe`, in the order of the loops. -/
def kimiExperts : List (Nat × Nat) :=
  (List.range' 1 26).flatMap fun layer => (List.range 64).map fun expert => (layer, expert)

structure GgufIndex where
  hdr : ExpertIndexHeader
  rows : List IndexRow

def GgufIndex.records (idx : GgufIndex) : List ExpertRecord := idx.rows.map Prod.fst
def GgufIndex.sources (idx : GgufIndex) : List GgufQ8Source := idx.rows.map Prod.snd

/-- What `main` writes for a file of `fileBytes` bytes with these tensors. -/
def kimiGgufIndex (tensors : List GgufTensor) (fileBytes : Nat) : Option GgufIndex :=
  match indexRows tensors kimiExperts with
  | none => none
  | some rows =>
    if fileBytes < 2 ^ 64 then
      some ⟨⟨expertMagic, 1, 4096, 27, 64, .ofNat rows.length, dtypeGgufQ8, 48, .ofNat fileBytes⟩,
        rows⟩
    else none

/-- The store that holds an index, with its data file open. -/
def GgufIndex.store (idx : GgufIndex) (fd : Int) (recordOf : Nat → Int) : ExpertStore where
  fd := fd
  directIo := false
  hdr := idx.hdr
  records := idx.records
  ggufQ8Sources := some idx.sources
  recordOf := recordOf

/-! ### One slice -/

theorem alignUp_of_aligned {x : Nat} (h : x % 4096 = 0) : alignUp x = x := by
  unfold alignUp
  omega

theorem alignUp_le {x y : Nat} (h : x ≤ y) : alignUp x ≤ alignUp y := by
  unfold alignUp
  omega

/-- The pages around a slice. -/
structure SliceOk (t : GgufTensor) (expert : Nat) (p : PartInfo) : Prop where
  raw : p.raw = t.dataOffset + expert * (t.nBytes / 64)
  bytes : p.bytes = t.nBytes / 64
  start : p.src + p.sub = p.raw
  aligned : p.src % 4096 = 0 ∧ p.read % 4096 = 0
  cover : p.sub + p.bytes ≤ p.read
  positive : 0 < p.read ↔ 0 < p.bytes ∨ p.raw % 4096 ≠ 0
  last : p.src + p.read = alignUp (p.raw + p.bytes)

theorem tensorSlice_ok (t : GgufTensor) (expert : Nat) :
    SliceOk t expert (tensorSlice t expert 64) := by
  unfold tensorSlice
  generalize hbytes : t.nBytes / 64 = bytes
  generalize hskip : expert * bytes = skip
  dsimp only
  rw [hskip]
  unfold alignUp alignDown
  constructor
  · rw [hbytes, hskip]
  · exact hbytes.symm
  · dsimp only
    omega
  · dsimp only
    omega
  · dsimp only
    omega
  · dsimp only
    omega
  · unfold alignUp
    dsimp only
    omega

/-! ### One row -/

def ExpertPart.ofRow (part : ExpertPart) (row : IndexRow) : GgufPart :=
  match part with
  | .gate => gatePart row.1 row.2
  | .up => upPart row.1 row.2
  | .down => downPart row.1 row.2

theorem mem_ggufParts {row : IndexRow} {p : GgufPart} :
    p ∈ ggufParts row.1 row.2 ↔ ∃ part : ExpertPart, part.ofRow row = p := by
  constructor
  · intro hp
    simp only [ggufParts, List.mem_cons, List.not_mem_nil, or_false] at hp
    rcases hp with rfl | rfl | rfl
    · exact ⟨.gate, rfl⟩
    · exact ⟨.up, rfl⟩
    · exact ⟨.down, rfl⟩
  · rintro ⟨part, rfl⟩
    cases part with
    | gate => exact List.mem_cons_self
    | up => exact List.mem_cons_of_mem _ List.mem_cons_self
    | down => exact List.mem_cons_of_mem _ (List.mem_cons_of_mem _ List.mem_cons_self)

/-- The slices of an expert one after another. -/
def dstOf (slice : ExpertPart → PartInfo) : ExpertPart → Nat
  | .gate => 0
  | .up => (slice .gate).read
  | .down => (slice .gate).read + (slice .up).read

def totalOf (slice : ExpertPart → PartInfo) : Nat :=
  (slice .gate).read + (slice .up).read + (slice .down).read

/-- A packed row holds the natural numbers it was packed from. -/
structure RowOk (slice : ExpertPart → PartInfo) (row : IndexRow) : Prop where
  src : ∀ part : ExpertPart, (part.ofRow row).srcOff.toNat = (slice part).src
  read : ∀ part : ExpertPart, (part.ofRow row).srcBytes.toNat = (slice part).read
  dst : ∀ part : ExpertPart, (part.ofRow row).dstOff.toNat = dstOf slice part
  payload : ∀ part : ExpertPart,
    (part.ofRow row).payloadOff.toNat = dstOf slice part + (slice part).sub
  bytes : ∀ part : ExpertPart, (part.ofRow row).payloadBytes.toNat = (slice part).bytes
  total : row.1.readBytes.toNat = totalOf slice

theorem toNat_ofNat_fits {n : Nat} (h : fitsU64 n = true) : (UInt64.ofNat n).toNat = n := by
  rw [UInt64.toNat_ofNat', Nat.mod_eq_of_lt (of_decide_eq_true h)]

theorem packRow_ok {layer expert : Nat} {slice : ExpertPart → PartInfo} {row : IndexRow}
    (haligned : ∀ part, (slice part).read % 4096 = 0)
    (h : packRow layer expert (slice .gate) (slice .up) (slice .down) = some row) :
    RowOk slice row := by
  have hgate := haligned .gate
  have hup := haligned .up
  have hdstUp : dstUp (slice .gate) = dstOf slice .up := by
    change alignUp (0 + (slice .gate).read) = (slice .gate).read
    rw [Nat.zero_add, alignUp_of_aligned hgate]
  have hdstDown : dstDown (slice .gate) (slice .up) = dstOf slice .down := by
    unfold dstDown
    rw [hdstUp]
    change alignUp ((slice .gate).read + (slice .up).read) = (slice .gate).read + (slice .up).read
    apply alignUp_of_aligned
    omega
  unfold packRow at h
  split at h
  · rename_i hfits
    cases h
    simp only [recordFields, sourceFields, List.all_cons, List.all_nil, Bool.and_true,
      Bool.and_eq_true] at hfits
    obtain ⟨⟨-, htotal, -, hgoff, hgb, huoff, hub, hdoff, hdb⟩,
      hgsrc, hgread, hgdst, husrc, huread, hudst, hdsrc, hdread, hddst⟩ := hfits
    constructor
    · intro part
      cases part with
      | gate => exact toNat_ofNat_fits hgsrc
      | up => exact toNat_ofNat_fits husrc
      | down => exact toNat_ofNat_fits hdsrc
    · intro part
      cases part with
      | gate => exact toNat_ofNat_fits hgread
      | up => exact toNat_ofNat_fits huread
      | down => exact toNat_ofNat_fits hdread
    · intro part
      cases part with
      | gate => exact toNat_ofNat_fits hgdst
      | up => exact (toNat_ofNat_fits hudst).trans hdstUp
      | down => exact (toNat_ofNat_fits hddst).trans hdstDown
    · intro part
      cases part with
      | gate => exact toNat_ofNat_fits hgoff
      | up => exact (toNat_ofNat_fits huoff).trans (congrArg (· + _) hdstUp)
      | down => exact (toNat_ofNat_fits hdoff).trans (congrArg (· + _) hdstDown)
    · intro part
      cases part with
      | gate => exact toNat_ofNat_fits hgb
      | up => exact toNat_ofNat_fits hub
      | down => exact toNat_ofNat_fits hdb
    · exact (toNat_ofNat_fits htotal).trans (congrArg (· + _) hdstDown)
  · cases h

theorem partInfo_eq_some {t : GgufTensor} {expert : Nat} {p : PartInfo}
    (h : partInfo t expert 64 = some p) : p = tensorSlice t expert 64 ∧ t.nBytes % 64 = 0 := by
  unfold partInfo at h
  split at h
  · cases h
  split at h
  · cases h
  rename_i hbytes
  split at h
  · cases h
  · exact ⟨(Option.some.inj h).symm, not_not.mp hbytes⟩

/-- A row is about the three tensors of its layer. -/
theorem indexRow_ok {tensors : List GgufTensor} {layer expert : Nat} {row : IndexRow}
    (h : indexRow tensors layer expert = some row) :
    ∃ t : ExpertPart → GgufTensor,
      (∀ part, byName tensors (tensorName layer part) = some (t part) ∧
        (t part).nBytes % 64 = 0) ∧
      RowOk (fun part => tensorSlice (t part) expert 64) row := by
  unfold indexRow at h
  split at h
  · rename_i tg tu td hg hu hd
    split at h
    · rename_i g u d hgi hui hdi
      obtain ⟨rfl, hgb⟩ := partInfo_eq_some hgi
      obtain ⟨rfl, hub⟩ := partInfo_eq_some hui
      obtain ⟨rfl, hdb⟩ := partInfo_eq_some hdi
      refine ⟨fun part => match part with
        | .gate => tg
        | .up => tu
        | .down => td, ?_, packRow_ok (fun part => (tensorSlice_ok _ expert).aligned.2) h⟩
      intro part
      cases part with
      | gate => exact ⟨hg, hgb⟩
      | up => exact ⟨hu, hub⟩
      | down => exact ⟨hd, hdb⟩
    · cases h
  · cases h

theorem indexRows_get {tensors : List GgufTensor} {ids : List (Nat × Nat)} {rows : List IndexRow}
    (h : indexRows tensors ids = some rows) :
    rows.length = ids.length ∧ ∀ (i : Nat) (layer expert : Nat), ids[i]? = some (layer, expert) →
      ∃ row, rows[i]? = some row ∧ indexRow tensors layer expert = some row := by
  induction ids generalizing rows with
  | nil =>
    cases h
    refine ⟨rfl, ?_⟩
    intro i layer expert hi
    cases hi
  | cons id ids ih =>
    obtain ⟨layer, expert⟩ := id
    unfold indexRows at h
    split at h
    · rename_i row rest hrow hrest
      cases h
      obtain ⟨hlength, hget⟩ := ih hrest
      refine ⟨congrArg Nat.succ hlength, ?_⟩
      intro i layer' expert' hi
      cases i with
      | zero =>
        cases hi
        exact ⟨row, rfl, hrow⟩
      | succ i => exact hget i layer' expert' hi
    · cases h

/-! ### Every row -/

/-- The payload of a part in the slot is the slice of its expert. -/
structure HoldsSlice (file : Bytes) (m : SlotMemory) (p : GgufPart) (t : GgufTensor)
    (expert : Nat) : Prop where
  bytes : p.payloadBytes.toNat = t.nBytes / 64
  slice : ∀ j < t.nBytes / 64,
    m (p.payloadOff.toNat + j) = file.getD (t.dataOffset + expert * (t.nBytes / 64) + j) 0

/-- The store accepts row `i` and loads the slices of its expert with it. -/
structure RowLoads (tensors : List GgufTensor) (file : Bytes) (idx : GgufIndex) (i layer expert : Nat)
    (row : IndexRow) : Prop where
  accepted : validateGgufSource idx.hdr row.1 row.2 = true
  success : ∀ (fd : Int) (recordOf : Nat → Int) (m : SlotMemory), 0 ≤ fd →
    (kvlExpertLoadInto (idx.store fd recordOf) file i m).1 = some row.1.readBytes
  slices : ∀ (fd : Int) (recordOf : Nat → Int) (m : SlotMemory), 0 ≤ fd →
    ∀ (part : ExpertPart) (t : GgufTensor), byName tensors (tensorName layer part) = some t →
      HoldsSlice file (kvlExpertLoadInto (idx.store fd recordOf) file i m).2 (part.ofRow row) t expert

/-- The file goes on to the end of the tensor's last page, and the tensor covers a page. -/
def PagesInside (t : GgufTensor) (fileBytes : Nat) : Prop :=
  alignUp (t.dataOffset + t.nBytes) ≤ fileBytes ∧ (0 < t.nBytes ∨ t.dataOffset % 4096 ≠ 0)

section Rows
variable {tensors : List GgufTensor} {file : Bytes} {idx : GgufIndex}

theorem kimiGgufIndex_spec (h : kimiGgufIndex tensors file.length = some idx) :
    indexRows tensors kimiExperts = some idx.rows ∧ idx.hdr.dtype = dtypeGgufQ8 ∧
      idx.hdr.dataFileBytes.toNat = file.length := by
  unfold kimiGgufIndex at h
  split at h
  · cases h
  · rename_i rows hrows
    split at h
    · rename_i hlength
      cases h
      refine ⟨hrows, rfl, ?_⟩
      rw [UInt64.toNat_ofNat', Nat.mod_eq_of_lt hlength]
    · cases h

theorem store_row {i : Nat} {row : IndexRow} (h : idx.rows[i]? = some row) (fd : Int)
    (recordOf : Nat → Int) :
    (idx.store fd recordOf).record i = row.1 ∧ (idx.store fd recordOf).sourceOf i = some row.2 := by
  have hrecord : idx.records[i]? = some row.1 := by
    unfold GgufIndex.records
    rw [List.getElem?_map, h]
    rfl
  have hsource : idx.sources[i]? = some row.2 := by
    unfold GgufIndex.sources
    rw [List.getElem?_map, h]
    rfl
  refine ⟨?_, hsource⟩
  unfold ExpertStore.record
  rw [List.getD_eq_getElem?_getD]
  change (idx.records[i]?).getD default = row.1
  rw [hrecord]
  rfl

theorem slice_end {t : GgufTensor} (hbytes : t.nBytes % 64 = 0) {expert : Nat} (h : expert < 64) :
    t.dataOffset + expert * (t.nBytes / 64) + t.nBytes / 64 ≤ t.dataOffset + t.nBytes := by
  have hmul : (expert + 1) * (t.nBytes / 64) ≤ 64 * (t.nBytes / 64) :=
    Nat.mul_le_mul_right _ h
  rw [Nat.add_mul, Nat.one_mul] at hmul
  omega

/-- The last slice ends where the tensor does. -/
theorem slice_end_last {t : GgufTensor} (hbytes : t.nBytes % 64 = 0) :
    t.dataOffset + 63 * (t.nBytes / 64) + t.nBytes / 64 = t.dataOffset + t.nBytes := by
  omega

/-- The pages of each slice are in the file if those of the whole tensor are. -/
theorem PagesInside.slice {t : GgufTensor} {n expert : Nat} {p : PartInfo} (h : PagesInside t n)
    (hbytes : t.nBytes % 64 = 0) (hexpert : expert < 64) (hp : SliceOk t expert p) :
    p.src + p.read ≤ n ∧ 0 < p.read := by
  constructor
  · rw [hp.last, hp.raw, hp.bytes]
    exact (alignUp_le (slice_end hbytes hexpert)).trans h.1
  · rw [hp.positive, hp.bytes, hp.raw]
    rcases h.2 with hpos | hsub
    · left
      omega
    · rcases Nat.eq_zero_or_pos (t.nBytes / 64) with hzero | hpos
      · right
        rw [hzero, Nat.mul_zero, Nat.add_zero]
        exact hsub
      · exact .inl hpos

/-- What a row says about a part, if the pages of its slice are in the file. -/
structure PartInside (slice : ExpertPart → PartInfo) (n : Nat) (row : IndexRow)
    (part : ExpertPart) : Prop where
  src : (part.ofRow row).srcOff.toNat + (part.ofRow row).srcBytes.toNat ≤ n
  positive : 0 < (part.ofRow row).srcBytes.toNat
  aligned : (part.ofRow row).srcOff.toNat % 4096 = 0 ∧ (part.ofRow row).srcBytes.toNat % 4096 = 0 ∧
    (part.ofRow row).dstOff.toNat % 4096 = 0
  dst : (part.ofRow row).dstOff.toNat + (part.ofRow row).srcBytes.toNat ≤ row.1.readBytes.toNat
  low : (part.ofRow row).dstOff.toNat ≤ (part.ofRow row).payloadOff.toNat
  high : (part.ofRow row).payloadOff.toNat + (part.ofRow row).payloadBytes.toNat ≤
    (part.ofRow row).dstOff.toNat + (part.ofRow row).srcBytes.toNat

theorem dstOf_spec (slice : ExpertPart → PartInfo) (haligned : ∀ part, (slice part).read % 4096 = 0)
    (part : ExpertPart) :
    dstOf slice part % 4096 = 0 ∧ dstOf slice part + (slice part).read ≤ totalOf slice := by
  have hgate := haligned .gate
  have hup := haligned .up
  cases part with
  | gate => exact ⟨rfl, by simp only [dstOf, totalOf]; omega⟩
  | up => exact ⟨hgate, by simp only [dstOf, totalOf]; omega⟩
  | down => exact ⟨by simp only [dstOf]; omega, Nat.le_refl _⟩

theorem RowOk.inside {t : ExpertPart → GgufTensor} {expert n : Nat} {row : IndexRow}
    (h : RowOk (fun part => tensorSlice (t part) expert 64) row) (part : ExpertPart)
    (hinside : (tensorSlice (t part) expert 64).src + (tensorSlice (t part) expert 64).read ≤ n ∧
      0 < (tensorSlice (t part) expert 64).read) :
    PartInside (fun part => tensorSlice (t part) expert 64) n row part := by
  have hslice := tensorSlice_ok (t part) expert
  have hdst := dstOf_spec (fun part => tensorSlice (t part) expert 64)
    (fun part => (tensorSlice_ok (t part) expert).aligned.2) part
  have hcover := hslice.cover
  constructor
  · rw [h.src, h.read]
    exact hinside.1
  · rw [h.read]
    exact hinside.2
  · rw [h.src, h.read, h.dst]
    exact ⟨hslice.aligned.1, hslice.aligned.2, hdst.1⟩
  · rw [h.dst, h.read, h.total]
    exact hdst.2
  · rw [h.dst, h.payload]
    exact Nat.le_add_right _ _
  · rw [h.dst, h.payload, h.bytes, h.read]
    omega

theorem RowOk.tiles {slice : ExpertPart → PartInfo} {row : IndexRow} (h : RowOk slice row) :
    Tiles row.1.readBytes.toNat (ggufParts row.1 row.2) := by
  have hsize (part : ExpertPart) : (part.ofRow row).size = (slice part).read := h.read part
  have hdst (part : ExpertPart) : (part.ofRow row).dst = dstOf slice part := h.dst part
  refine ⟨?_, ggufParts row.1 row.2, List.Perm.refl _, ?_⟩
  · rw [h.total]
    change (ExpertPart.gate.ofRow row).size + ((ExpertPart.up.ofRow row).size +
      ((ExpertPart.down.ofRow row).size + 0)) = _
    rw [hsize, hsize, hsize, Nat.add_zero, ← Nat.add_assoc]
    rfl
  · change (ExpertPart.gate.ofRow row).dst = 0 ∧
      (ExpertPart.up.ofRow row).dst = 0 + (ExpertPart.gate.ofRow row).size ∧
      (ExpertPart.down.ofRow row).dst =
        0 + (ExpertPart.gate.ofRow row).size + (ExpertPart.up.ofRow row).size ∧ True
    rw [hdst, hdst, hdst, hsize, hsize, Nat.zero_add]
    exact ⟨rfl, rfl, rfl, trivial⟩

theorem RowOk.accepted {slice : ExpertPart → PartInfo} {row : IndexRow} (h : RowOk slice row)
    {hdr : ExpertIndexHeader}
    (hparts : ∀ part, PartInside slice hdr.dataFileBytes.toNat row part) :
    validateGgufSource hdr row.1 row.2 = true := by
  have hok (part : ExpertPart) : ggufPartOk hdr.dataFileBytes row.1.readBytes
      (part.ofRow row).srcOff (part.ofRow row).srcBytes (part.ofRow row).dstOff
      (part.ofRow row).payloadOff (part.ofRow row).payloadBytes = true :=
    ggufPartOk_of_le (hparts part).positive (hparts part).aligned (hparts part).dst
      (hparts part).src (hparts part).low (hparts part).high
  have htotal : row.2.gateReadBytes + row.2.upReadBytes + row.2.downReadBytes =
      row.1.readBytes := by
    have hlt := row.1.readBytes.toNat_lt
    have hgate : row.2.gateReadBytes.toNat = (slice .gate).read := h.read .gate
    have hup : row.2.upReadBytes.toNat = (slice .up).read := h.read .up
    have hdown : row.2.downReadBytes.toNat = (slice .down).read := h.read .down
    have hsum := h.total
    unfold totalOf at hsum
    rw [← UInt64.toNat_inj, UInt64.toNat_add, UInt64.toNat_add, hgate, hup, hdown]
    omega
  unfold validateGgufSource
  rw [Bool.and_eq_true, Bool.and_eq_true, Bool.and_eq_true, beq_iff_eq]
  exact ⟨⟨⟨hok .gate, hok .up⟩, hok .down⟩, htotal⟩

/-- A row whose pages are all in the file loads the slices of its expert. -/
theorem rowLoads_of_inside {t : ExpertPart → GgufTensor} {i layer expert : Nat} {row : IndexRow}
    (hidx : kimiGgufIndex tensors file.length = some idx) (hrow : idx.rows[i]? = some row)
    (hfound : ∀ part, byName tensors (tensorName layer part) = some (t part))
    (hok : RowOk (fun part => tensorSlice (t part) expert 64) row)
    (hinside : ∀ part, (tensorSlice (t part) expert 64).src +
      (tensorSlice (t part) expert 64).read ≤ file.length ∧
      0 < (tensorSlice (t part) expert 64).read) :
    RowLoads tensors file idx i layer expert row := by
  obtain ⟨-, hdtype, hdata⟩ := kimiGgufIndex_spec hidx
  have hparts := fun part => hok.inside part (hinside part)
  have haccepted : validateGgufSource idx.hdr row.1 row.2 = true := by
    apply hok.accepted
    rw [hdata]
    exact hparts
  have hsuccess : ∀ (fd : Int) (recordOf : Nat → Int) (m : SlotMemory), 0 ≤ fd →
      (kvlExpertLoadInto (idx.store fd recordOf) file i m).1 = some row.1.readBytes := by
    intro fd recordOf m hfd
    obtain ⟨hrecord, hsource⟩ := store_row hrow fd recordOf
    have hload := load_success_iff (s := idx.store fd recordOf) hfd hdtype hsource
      (hrecord.symm ▸ haccepted) hdata.symm m
    rw [hrecord] at hload
    rw [hload]
    intro p hp
    obtain ⟨part, rfl⟩ := mem_ggufParts.mp hp
    have hsrc := (hparts part).src
    have hlt := idx.hdr.dataFileBytes.toNat_lt
    unfold GgufPart.sourceWraps
    omega
  refine ⟨haccepted, hsuccess, ?_⟩
  intro fd recordOf m hfd part t' ht'
  obtain rfl : t part = t' := Option.some.inj ((hfound part).symm.trans ht')
  obtain ⟨hrecord, hsource⟩ := store_row hrow fd recordOf
  have hslice := tensorSlice_ok (t part) expert
  have hpayload : ∀ p ∈ ggufParts ((idx.store fd recordOf).record i) row.2, ¬ p.payloadWraps := by
    rw [hrecord]
    intro p hp
    obtain ⟨part, rfl⟩ := mem_ggufParts.mp hp
    have hhigh := (hparts part).high
    have hdst := (hparts part).dst
    have hlt := row.1.readBytes.toNat_lt
    unfold GgufPart.payloadWraps
    omega
  have htiles : Tiles ((idx.store fd recordOf).record i).readBytes.toNat
      (ggufParts ((idx.store fd recordOf).record i) row.2) := by
    rw [hrecord]
    exact hok.tiles
  have hload : (kvlExpertLoadInto (idx.store fd recordOf) file i m).1 =
      some ((idx.store fd recordOf).record i).readBytes := by
    rw [hrecord]
    exact hsuccess fd recordOf m hfd
  have hloaded := htiles.loaded hfd hdtype hsource (hrecord.symm ▸ haccepted) hpayload hload
    (part.ofRow row) (by
      rw [hrecord]
      exact mem_ggufParts.mpr ⟨part, rfl⟩)
  constructor
  · rw [hok.bytes, hslice.bytes]
  · intro j hj
    rw [hloaded.source j (by rw [hok.bytes, hslice.bytes]; exact hj)]
    have hstart := hslice.start
    have hraw := hslice.raw
    rw [hok.src, hok.payload, hok.dst, Nat.add_sub_cancel_left, hstart, hraw]

/-- The last expert's row loads only if the pages of the whole tensor are in the file. -/
theorem RowLoads.pagesInside {t : ExpertPart → GgufTensor} {i layer : Nat} {row : IndexRow}
    (hidx : kimiGgufIndex tensors file.length = some idx) (hrow : idx.rows[i]? = some row)
    (h : RowLoads tensors file idx i layer 63 row)
    (hok : RowOk (fun part => tensorSlice (t part) 63 64) row) (part : ExpertPart)
    (hbytes : (t part).nBytes % 64 = 0) : PagesInside (t part) file.length := by
  obtain ⟨-, hdtype, hdata⟩ := kimiGgufIndex_spec hidx
  obtain ⟨hrecord, hsource⟩ := store_row hrow 0 fun _ => -1
  have hslice := tensorSlice_ok (t part) 63
  have hmem : part.ofRow row ∈ ggufParts row.1 row.2 := mem_ggufParts.mpr ⟨part, rfl⟩
  have hpart := (validate_parts h.accepted).1 _ hmem
  have hload := load_success_iff (s := idx.store 0 fun _ => -1) (Int.le_refl 0) hdtype hsource
    (hrecord.symm ▸ h.accepted) hdata.symm fun _ => 0
  rw [hrecord] at hload
  have hno := hload.mp (h.success 0 (fun _ => -1) (fun _ => 0) (Int.le_refl 0)) _ hmem
  have hsrc := hpart.src
  unfold GgufPart.sourceWraps at hno
  rw [UInt64.toNat_add, Nat.mod_eq_of_lt (by omega), hok.src, hok.read, hslice.last, hslice.raw,
    hslice.bytes, slice_end_last hbytes, hdata] at hsrc
  refine ⟨hsrc, ?_⟩
  have hpos := hpart.nonempty
  rw [hok.read, hslice.positive, hslice.bytes, hslice.raw] at hpos
  rcases Nat.eq_zero_or_pos (t part).nBytes with hzero | hlarge
  · right
    rw [hzero] at hpos
    rcases hpos with hpos | hpos
    · cases hpos
    · exact hpos
  · exact .inl hlarge

theorem mem_kimiExperts {layer expert : Nat} :
    (layer, expert) ∈ kimiExperts ↔ 1 ≤ layer ∧ layer ≤ 26 ∧ expert < 64 := by
  unfold kimiExperts
  simp only [List.mem_flatMap, List.mem_map, List.mem_range, List.mem_range'_1, Prod.mk.injEq]
  constructor
  · rintro ⟨l, ⟨hlow, hhigh⟩, e, he, rfl, rfl⟩
    exact ⟨hlow, by omega, he⟩
  · rintro ⟨hlow, hhigh, he⟩
    exact ⟨layer, ⟨hlow, by omega⟩, expert, he, rfl, rfl⟩

/-- The store accepts and loads every row of an index exactly if the file goes on to
the end of the last page of each tensor. -/
theorem kimiGgufIndex_loads_iff (hidx : kimiGgufIndex tensors file.length = some idx) :
    (∀ (i layer expert : Nat) (row : IndexRow), kimiExperts[i]? = some (layer, expert) →
      idx.rows[i]? = some row → RowLoads tensors file idx i layer expert row) ↔
    ∀ (layer : Nat), 1 ≤ layer → layer ≤ 26 → ∀ (part : ExpertPart) (t : GgufTensor),
      byName tensors (tensorName layer part) = some t → PagesInside t file.length := by
  obtain ⟨hrows, -, -⟩ := kimiGgufIndex_spec hidx
  obtain ⟨-, hget⟩ := indexRows_get hrows
  constructor
  · intro hall layer hlow hhigh part t ht
    have hlast : (layer, 63) ∈ kimiExperts := mem_kimiExperts.mpr ⟨hlow, hhigh, by decide⟩
    obtain ⟨i, hi⟩ := List.mem_iff_getElem?.mp hlast
    obtain ⟨row, hrow, hindex⟩ := hget i layer 63 hi
    obtain ⟨ts, hfound, hok⟩ := indexRow_ok hindex
    obtain rfl : ts part = t := Option.some.inj ((hfound part).1.symm.trans ht)
    exact (hall i layer 63 row hi hrow).pagesInside hidx hrow hok part (hfound part).2
  · intro hall i layer expert row hi hrow
    obtain ⟨hlow, hhigh, hexpert⟩ := mem_kimiExperts.mp (List.mem_of_getElem? hi)
    obtain ⟨row', hrow', hindex⟩ := hget i layer expert hi
    obtain rfl : row = row' := Option.some.inj (hrow.symm.trans hrow')
    obtain ⟨ts, hfound, hok⟩ := indexRow_ok hindex
    apply rowLoads_of_inside hidx hrow (fun part => (hfound part).1) hok
    intro part
    have hpages := hall layer hlow hhigh part (ts part) (hfound part).1
    exact hpages.slice (hfound part).2 hexpert (tensorSlice_ok (ts part) expert)

end Rows

/-! ### Layouts with an index -/

/-- A tensor that `part_info` takes, in a file of `n` bytes. -/
structure TensorOk (t : GgufTensor) (n : Nat) : Prop where
  q8 : t.isQ8 = true
  divisible : t.nBytes % 64 = 0
  shape : t.shape.length = 3 ∧ t.shape.head? = some 64
  inside : t.dataOffset + t.nBytes ≤ n

theorem TensorOk.partInfo {t : GgufTensor} {n : Nat} (h : TensorOk t n) {expert : Nat}
    (hexpert : expert < 64) :
    partInfo t expert 64 = some (tensorSlice t expert 64) ∧
      (tensorSlice t expert 64).src ≤ n ∧ (tensorSlice t expert 64).sub ≤ n ∧
      (tensorSlice t expert 64).bytes ≤ n ∧ (tensorSlice t expert 64).read ≤ n + 4096 := by
  have hshape : ¬ (t.shape.length ≠ 3 ∨ t.shape.head? ≠ some 64) := by
    rw [h.shape.1, h.shape.2]
    decide
  have hslice := tensorSlice_ok t expert
  have hstart := hslice.start
  have hraw := hslice.raw
  have hbytes := hslice.bytes
  have hlast := hslice.last
  have hend := slice_end h.divisible hexpert
  have hinside := h.inside
  unfold alignUp at hlast
  refine ⟨?_, by omega, by omega, by omega, ?_⟩
  · unfold Kvl.partInfo
    rw [h.q8, if_neg (by decide), if_neg (not_not.mpr h.divisible), if_neg hshape]
  · have haligned := hslice.aligned
    omega

theorem packRow_isSome {layer expert n : Nat} {g u d : PartInfo} (hn : n < 2 ^ 60)
    (hg : g.src ≤ n ∧ g.sub ≤ n ∧ g.bytes ≤ n ∧ g.read ≤ n + 4096)
    (hu : u.src ≤ n ∧ u.sub ≤ n ∧ u.bytes ≤ n ∧ u.read ≤ n + 4096)
    (hd : d.src ≤ n ∧ d.sub ≤ n ∧ d.bytes ≤ n ∧ d.read ≤ n + 4096) :
    ∃ row, packRow layer expert g u d = some row := by
  have hdstGate : dstGate = 0 := rfl
  have hdstUp : dstUp g ≤ n + 8192 := by
    unfold dstUp alignUp
    omega
  have hdstDown : dstDown g u ≤ 2 * n + 16384 := by
    unfold dstDown alignUp
    omega
  have hfits : ((recordFields g u d).all fitsU64 && (sourceFields g u d).all fitsU64) = true := by
    simp only [recordFields, sourceFields, slotBytesOf, fitsU64, List.all_cons, List.all_nil,
      Bool.and_true, Bool.and_eq_true, decide_eq_true_eq]
    omega
  unfold packRow
  rw [if_pos hfits]
  exact ⟨_, rfl⟩

theorem indexRows_isSome {tensors : List GgufTensor} {ids : List (Nat × Nat)}
    (h : ∀ id ∈ ids, ∃ row, indexRow tensors id.1 id.2 = some row) :
    ∃ rows, indexRows tensors ids = some rows := by
  induction ids with
  | nil => exact ⟨[], rfl⟩
  | cons id ids ih =>
    obtain ⟨⟨row, hrow⟩, hrest⟩ := List.forall_mem_cons.mp h
    obtain ⟨rows, hrows⟩ := ih hrest
    unfold indexRows
    rw [hrow, hrows]
    exact ⟨_, rfl⟩

/-- An index is written for every file with the tensors the tool looks for. -/
theorem kimiGgufIndex_isSome {tensors : List GgufTensor} {n : Nat} (hn : n < 2 ^ 60)
    (h : ∀ (layer : Nat), 1 ≤ layer → layer ≤ 26 → ∀ part : ExpertPart,
      ∃ t, byName tensors (tensorName layer part) = some t ∧ TensorOk t n) :
    ∃ idx, kimiGgufIndex tensors n = some idx := by
  obtain ⟨rows, hrows⟩ := @indexRows_isSome tensors kimiExperts (by
    rintro ⟨layer, expert⟩ hid
    obtain ⟨hlow, hhigh, hexpert⟩ := mem_kimiExperts.mp hid
    obtain ⟨tg, hg, hgok⟩ := h layer hlow hhigh .gate
    obtain ⟨tu, hu, huok⟩ := h layer hlow hhigh .up
    obtain ⟨td, hd, hdok⟩ := h layer hlow hhigh .down
    obtain ⟨hgi, hgfit⟩ := hgok.partInfo hexpert
    obtain ⟨hui, hufit⟩ := huok.partInfo hexpert
    obtain ⟨hdi, hdfit⟩ := hdok.partInfo hexpert
    obtain ⟨row, hrow⟩ := @packRow_isSome layer expert _ _ _ _ hn hgfit hufit hdfit
    refine ⟨row, ?_⟩
    unfold indexRow
    rw [hg, hu, hd]
    dsimp only
    rw [hgi, hui, hdi]
    exact hrow)
  unfold kimiGgufIndex
  rw [hrows]
  dsimp only
  rw [if_pos (by omega)]
  exact ⟨_, rfl⟩

/-- One `Q8_0` block for each expert, the 78 tensors one after another from the first page on. -/
def packedTensors : List GgufTensor :=
  (List.range' 1 26).flatMap fun layer =>
    [⟨tensorName layer .gate, true, 2176, 4096 + 2176 * (3 * layer - 3), [64, 1, 34]⟩,
      ⟨tensorName layer .up, true, 2176, 4096 + 2176 * (3 * layer - 2), [64, 1, 34]⟩,
      ⟨tensorName layer .down, true, 2176, 4096 + 2176 * (3 * layer - 1), [64, 1, 34]⟩]

def packedOffset (layer : Nat) : ExpertPart → Nat
  | .gate => 4096 + 2176 * (3 * layer - 3)
  | .up => 4096 + 2176 * (3 * layer - 2)
  | .down => 4096 + 2176 * (3 * layer - 1)

theorem byName_packed {layer : Nat} (hlow : 1 ≤ layer) (hhigh : layer ≤ 26) (part : ExpertPart) :
    byName packedTensors (tensorName layer part) =
      some ⟨tensorName layer part, true, 2176, packedOffset layer part, [64, 1, 34]⟩ := by
  have hall : ∀ l ∈ List.range' 1 26, ∀ part ∈ [ExpertPart.gate, .up, .down],
      byName packedTensors (tensorName l part) =
        some ⟨tensorName l part, true, 2176, packedOffset l part, [64, 1, 34]⟩ := by
    decide +kernel
  apply hall layer (List.mem_range'_1.mpr ⟨hlow, by omega⟩) part
  cases part with
  | gate => exact List.mem_cons_self
  | up => exact List.mem_cons_of_mem _ List.mem_cons_self
  | down => exact List.mem_cons_of_mem _ (List.mem_cons_of_mem _ List.mem_cons_self)

theorem packedTensors_ok {n : Nat} (hn : 173824 ≤ n) {layer : Nat} (hlow : 1 ≤ layer)
    (hhigh : layer ≤ 26) (part : ExpertPart) :
    ∃ t, byName packedTensors (tensorName layer part) = some t ∧ TensorOk t n := by
  refine ⟨_, byName_packed hlow hhigh part, rfl, (by decide : 2176 % 64 = 0), ⟨rfl, rfl⟩, ?_⟩
  cases part with
  | gate =>
    dsimp only [packedOffset]
    omega
  | up =>
    dsimp only [packedOffset]
    omega
  | down =>
    dsimp only [packedOffset]
    omega

/-- With the file padded to a page, every row loads. -/
theorem kimiGgufIndex_loads_padded :
    ∃ idx, kimiGgufIndex packedTensors (List.replicate 176128 (0 : UInt8)).length = some idx ∧
      ∀ (i layer expert : Nat) (row : IndexRow), kimiExperts[i]? = some (layer, expert) →
        idx.rows[i]? = some row →
        RowLoads packedTensors (List.replicate 176128 (0 : UInt8)) idx i layer expert row := by
  have hlength : (List.replicate 176128 (0 : UInt8)).length = 176128 := List.length_replicate
  obtain ⟨idx, hidx⟩ := @kimiGgufIndex_isSome packedTensors 176128 (by decide)
    fun layer hlow hhigh part => packedTensors_ok (by decide) hlow hhigh part
  rw [← hlength] at hidx
  refine ⟨idx, hidx, (kimiGgufIndex_loads_iff hidx).mpr ?_⟩
  intro layer hlow hhigh part t ht
  rw [byName_packed hlow hhigh part] at ht
  cases ht
  rw [hlength]
  refine ⟨?_, .inl (by decide : 0 < 2176)⟩
  cases part with
  | gate =>
    dsimp only [packedOffset, alignUp]
    omega
  | up =>
    dsimp only [packedOffset, alignUp]
    omega
  | down =>
    dsimp only [packedOffset, alignUp]
    omega

/-- The file that ends with its last tensor: the last pages reach beyond it. -/
theorem kimiGgufIndex_unpadded :
    (∀ (layer : Nat), 1 ≤ layer → layer ≤ 26 → ∀ part : ExpertPart,
      ∃ t, byName packedTensors (tensorName layer part) = some t ∧ TensorOk t 173824) ∧
    ∃ idx, kimiGgufIndex packedTensors (List.replicate 173824 (0 : UInt8)).length = some idx ∧
      ¬ ∀ (i layer expert : Nat) (row : IndexRow), kimiExperts[i]? = some (layer, expert) →
        idx.rows[i]? = some row →
        RowLoads packedTensors (List.replicate 173824 (0 : UInt8)) idx i layer expert row := by
  have hlength : (List.replicate 173824 (0 : UInt8)).length = 173824 := List.length_replicate
  have hok : ∀ (layer : Nat), 1 ≤ layer → layer ≤ 26 → ∀ part : ExpertPart,
      ∃ t, byName packedTensors (tensorName layer part) = some t ∧ TensorOk t 173824 :=
    fun layer hlow hhigh part => packedTensors_ok (by decide) hlow hhigh part
  obtain ⟨idx, hidx⟩ := @kimiGgufIndex_isSome packedTensors 173824 (by decide) hok
  rw [← hlength] at hidx
  refine ⟨hok, idx, hidx, fun hall => ?_⟩
  have hlast : kimiExperts[1663]? = some (26, 63) := by decide +kernel
  obtain ⟨row, hrow, hindex⟩ := (indexRows_get (kimiGgufIndex_spec hidx).1).2 1663 26 63 hlast
  obtain ⟨t, hfound, hrowOk⟩ := indexRow_ok hindex
  have hpages := (hall 1663 26 63 row hlast hrow).pagesInside hidx hrow hrowOk .down
    (hfound .down).2
  have ht := (hfound .down).1
  rw [byName_packed (by decide) (by decide)] at ht
  rw [← Option.some.inj ht, hlength] at hpages
  exact absurd hpages.1 (by decide)

end Kvl
