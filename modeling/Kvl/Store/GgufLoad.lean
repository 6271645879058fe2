import Kvl.Lib.Tiling
import Kvl.Store.Load

/-!
# The three reads of a GGUF record

`kvl_expert_load` on a data file of any length, with its short reads. The
validator keeps each destination apart from the others only through the sum of
the sizes, so the exact condition for a safe load is that the three
destinations fill the slot in some order.
-/

namespace Kvl

set_option autoImplicit false

/-- What `validate_gguf_source` collects at one index of its arrays. -/
structure GgufPart where
  srcOff : UInt64
  srcBytes : UInt64
  dstOff : UInt64
  payloadOff : UInt64
  payloadBytes : UInt64
  deriving DecidableEq, Repr

def gatePart (r : ExpertRecord) (q : GgufQ8Source) : GgufPart :=
  ⟨q.gateFileOffset, q.gateReadBytes, q.gateDstOffset, r.gateOff, r.gateBytes⟩

def upPart (r : ExpertRecord) (q : GgufQ8Source) : GgufPart :=
  ⟨q.upFileOffset, q.upReadBytes, q.upDstOffset, r.upOff, r.upBytes⟩

def downPart (r : ExpertRecord) (q : GgufQ8Source) : GgufPart :=
  ⟨q.downFileOffset, q.downReadBytes, q.downDstOffset, r.downOff, r.downBytes⟩

def ggufParts (r : ExpertRecord) (q : GgufQ8Source) : List GgufPart :=
  [gatePart r q, upPart r q, downPart r q]

/-- How many bytes `kvl_pread` delivers. An offset from 2^63 on is past the end
of every file. -/
def preadCount (file : Bytes) (off bytes : UInt64) : UInt64 :=
  UInt64.ofNat (min bytes.toNat (file.length - off.toNat))

def kvlPread (file : Bytes) (off bytes dst : UInt64) (m : SlotMemory) : UInt64 × SlotMemory :=
  let got := preadCount file off bytes
  (got, preadInto (fun i => file.getD i 0) off got dst m)

def GgufPart.pread (file : Bytes) (p : GgufPart) (m : SlotMemory) : UInt64 × SlotMemory :=
  kvlPread file p.srcOff p.srcBytes p.dstOff m

/-- The reads of the parts in order, up to the first that falls short. -/
def preadParts (file : Bytes) (total : UInt64) (parts : List GgufPart) (m : SlotMemory) :
    Option UInt64 × SlotMemory :=
  match parts with
  | [] => (some total, m)
  | p :: parts =>
    let read := p.pread file m
    if read.1 ≠ p.srcBytes then (none, read.2)
    else preadParts file (total + read.1) parts read.2

/-- `kvl_expert_load` for record `i`: its return value, `none` for -1, and the buffer. -/
def kvlExpertLoadInto (s : ExpertStore) (file : Bytes) (i : Nat) (m : SlotMemory) :
    Option UInt64 × SlotMemory :=
  if s.fd < 0 then (none, m)
  else if s.hdr.dtype ≠ dtypeGgufQ8 then
    let read := kvlPread file (s.record i).fileOffset (s.record i).readBytes 0 m
    (some read.1, read.2)
  else
    match s.sourceOf i with
    | none => (none, m)
    | some q => preadParts file 0 (ggufParts (s.record i) q) m

def GgufPart.dst (p : GgufPart) : Nat := p.dstOff.toNat
def GgufPart.size (p : GgufPart) : Nat := p.srcBytes.toNat

/-- The payload of a part is in the slot and is the part's own piece of the file. -/
structure PartLoaded (file : Bytes) (readBytes : UInt64) (m : SlotMemory) (p : GgufPart) :
    Prop where
  inside : span p.payloadOff p.payloadBytes ⊆ Set.Ico 0 readBytes.toNat
  source : ∀ j < p.payloadBytes.toNat,
    m (p.payloadOff.toNat + j) =
      file.getD (p.srcOff.toNat + (p.payloadOff.toNat - p.dstOff.toNat) + j) 0

/-- What a GGUF record with its source does in a slot. -/
structure LoadsSafely (s : ExpertStore) (i : Nat) (q : GgufQ8Source) : Prop where
  inside : ∀ p ∈ ggufParts (s.record i) q,
    span p.dstOff p.srcBytes ⊆ Set.Ico 0 (s.record i).readBytes.toNat
  disjoint : (ggufParts (s.record i) q).Pairwise fun a b =>
    Disjoint (span a.dstOff a.srcBytes) (span b.dstOff b.srcBytes)
  loaded : ∀ (file : Bytes) (m : SlotMemory), file.length = s.hdr.dataFileBytes.toNat →
    (kvlExpertLoadInto s file i m).1 = some (s.record i).readBytes →
    ∀ p ∈ ggufParts (s.record i) q,
      PartLoaded file (s.record i).readBytes (kvlExpertLoadInto s file i m).2 p

/-- The destinations fill the slot in some order. -/
def Tiles (readBytes : Nat) (parts : List GgufPart) : Prop :=
  (parts.map GgufPart.size).sum = readBytes ∧
    ∃ order : List GgufPart, order.Perm parts ∧ LaidFrom GgufPart.dst GgufPart.size 0 order

/-- The sum of a part's source offset and size exceeds 64 bits. -/
def GgufPart.sourceWraps (p : GgufPart) : Prop := 2 ^ 64 ≤ p.srcOff.toNat + p.srcBytes.toNat

def GgufPart.payloadWraps (p : GgufPart) : Prop :=
  2 ^ 64 ≤ p.payloadOff.toNat + p.payloadBytes.toNat

instance (p : GgufPart) : Decidable p.sourceWraps := by
  unfold GgufPart.sourceWraps
  infer_instance

instance (p : GgufPart) : Decidable p.payloadWraps := by
  unfold GgufPart.payloadWraps
  infer_instance

/-- An accepted part, with every sum as the validator computes it. -/
structure PartOk (dataFileBytes readBytes : UInt64) (p : GgufPart) : Prop where
  nonempty : 0 < p.srcBytes.toNat
  dst : (p.dstOff + p.srcBytes).toNat ≤ readBytes.toNat
  src : (p.srcOff + p.srcBytes).toNat ≤ dataFileBytes.toNat
  low : p.dstOff.toNat ≤ p.payloadOff.toNat
  high : (p.payloadOff + p.payloadBytes).toNat ≤ (p.dstOff + p.srcBytes).toNat

theorem partOk_of_ggufPartOk {dataFileBytes readBytes : UInt64} {p : GgufPart}
    (h : ggufPartOk dataFileBytes readBytes p.srcOff p.srcBytes p.dstOff p.payloadOff
      p.payloadBytes = true) : PartOk dataFileBytes readBytes p := by
  simp only [ggufPartOk, Bool.not_eq_true', Bool.or_eq_false_iff, decide_eq_false_iff_not,
    UInt64.not_lt, beq_eq_false_iff_ne, ne_eq] at h
  obtain ⟨⟨⟨⟨⟨⟨⟨hzero, _⟩, _⟩, _⟩, hdst⟩, hsrc⟩, hlow⟩, hhigh⟩ := h
  refine ⟨?_, UInt64.le_iff_toNat_le.mp hdst, UInt64.le_iff_toNat_le.mp hsrc,
    UInt64.le_iff_toNat_le.mp hlow, UInt64.le_iff_toNat_le.mp hhigh⟩
  apply Nat.pos_of_ne_zero
  intro h
  exact hzero (UInt64.toNat_inj.mp h)

/-- The converse, where no sum wraps. -/
theorem ggufPartOk_of_le {dataFileBytes readBytes : UInt64} {p : GgufPart}
    (hpos : 0 < p.srcBytes.toNat)
    (haligned : p.srcOff.toNat % 4096 = 0 ∧ p.srcBytes.toNat % 4096 = 0 ∧
      p.dstOff.toNat % 4096 = 0)
    (hdst : p.dstOff.toNat + p.srcBytes.toNat ≤ readBytes.toNat)
    (hsrc : p.srcOff.toNat + p.srcBytes.toNat ≤ dataFileBytes.toNat)
    (hlow : p.dstOff.toNat ≤ p.payloadOff.toNat)
    (hhigh : p.payloadOff.toNat + p.payloadBytes.toNat ≤ p.dstOff.toNat + p.srcBytes.toNat) :
    ggufPartOk dataFileBytes readBytes p.srcOff p.srcBytes p.dstOff p.payloadOff
      p.payloadBytes = true := by
  obtain ⟨hsrcAligned, hbytesAligned, hdstAligned⟩ := haligned
  have hread := readBytes.toNat_lt
  have hdata := dataFileBytes.toNat_lt
  have hpage : (4096 : UInt64).toNat = 4096 := rfl
  have hzero : (0 : UInt64).toNat = 0 := rfl
  have hmod {x : UInt64} (h : x.toNat % 4096 = 0) : x % 4096 = 0 := by
    rw [← UInt64.toNat_inj, UInt64.toNat_mod, hpage, hzero, h]
  have hne : p.srcBytes ≠ 0 := by
    intro h
    rw [h, hzero] at hpos
    omega
  simp only [ggufPartOk, hmod hsrcAligned, hmod hbytesAligned, hmod hdstAligned,
    beq_eq_false_iff_ne.mpr hne, bne_self_eq_false, Bool.or_false, Bool.false_or,
    Bool.not_eq_true', Bool.or_eq_false_iff, decide_eq_false_iff_not, UInt64.not_lt,
    UInt64.le_iff_toNat_le, UInt64.toNat_add]
  rw [Nat.mod_eq_of_lt (by omega), Nat.mod_eq_of_lt (by omega), Nat.mod_eq_of_lt (by omega)]
  exact ⟨⟨⟨hdst, hsrc⟩, hlow⟩, hhigh⟩

/-- An accepted record: three accepted parts whose sizes add up, modulo 2^64. -/
theorem validate_parts {hdr : ExpertIndexHeader} {r : ExpertRecord} {q : GgufQ8Source}
    (h : validateGgufSource hdr r q = true) :
    (∀ p ∈ ggufParts r q, PartOk hdr.dataFileBytes r.readBytes p) ∧
      q.gateReadBytes + q.upReadBytes + q.downReadBytes = r.readBytes := by
  simp only [validateGgufSource, Bool.and_eq_true, beq_iff_eq] at h
  obtain ⟨⟨⟨hgate, hup⟩, hdown⟩, htotal⟩ := h
  refine ⟨?_, htotal⟩
  intro p hp
  simp only [ggufParts, List.mem_cons, List.not_mem_nil, or_false] at hp
  rcases hp with rfl | rfl | rfl
  · exact partOk_of_ggufPartOk hgate
  · exact partOk_of_ggufPartOk hup
  · exact partOk_of_ggufPartOk hdown

theorem ggufParts_total {r : ExpertRecord} {q : GgufQ8Source}
    (h : q.gateReadBytes + q.upReadBytes + q.downReadBytes = r.readBytes) :
    ((ggufParts r q).map GgufPart.size).sum % 2 ^ 64 = r.readBytes.toNat := by
  rw [← h]
  simp only [ggufParts, gatePart, upPart, downPart, GgufPart.size, List.map_cons, List.map_nil,
    List.sum_cons, List.sum_nil, UInt64.toNat_add]
  omega

theorem PartOk.complete_iff {dataFileBytes readBytes : UInt64} {p : GgufPart} {file : Bytes}
    (h : PartOk dataFileBytes readBytes p) (hfile : file.length = dataFileBytes.toNat) :
    preadCount file p.srcOff p.srcBytes = p.srcBytes ↔ ¬ p.sourceWraps := by
  have hsrc := h.src
  have hpos := h.nonempty
  have hbytes := p.srcBytes.toNat_lt
  have hdata := dataFileBytes.toNat_lt
  unfold preadCount GgufPart.sourceWraps
  rw [UInt64.toNat_add] at hsrc
  rw [← UInt64.toNat_inj, UInt64.toNat_ofNat', Nat.mod_eq_of_lt (by omega), hfile]
  constructor
  · intro heq
    omega
  · intro hno
    rw [Nat.mod_eq_of_lt (by omega)] at hsrc
    omega

/-! ### What the reads leave in the slot -/

theorem pread_complete {file : Bytes} {p : GgufPart} {m : SlotMemory}
    (h : (p.pread file m).1 = p.srcBytes) :
    (p.pread file m).2 = preadInto (fun i => file.getD i 0) p.srcOff p.srcBytes p.dstOff m := by
  unfold GgufPart.pread kvlPread at h ⊢
  dsimp only at h ⊢
  rw [h]

theorem preadParts_total {file : Bytes} {total t : UInt64} {parts : List GgufPart}
    {m : SlotMemory} (h : (preadParts file total parts m).1 = some t) :
    t = parts.foldl (fun total p => total + p.srcBytes) total := by
  induction parts generalizing total m with
  | nil => exact (Option.some.inj h).symm
  | cons p parts ih =>
    unfold preadParts at h
    dsimp only at h
    split at h
    · cases h
    · rename_i hread
      rw [ne_eq, not_not] at hread
      rw [hread] at h
      exact ih h

theorem preadParts_success {file : Bytes} {total : UInt64} {parts : List GgufPart}
    {m : SlotMemory} : (preadParts file total parts m).1.isSome = true ↔
      ∀ p ∈ parts, preadCount file p.srcOff p.srcBytes = p.srcBytes := by
  induction parts generalizing total m with
  | nil =>
    constructor
    · intro _ p hp
      cases hp
    · intro _
      rfl
  | cons p parts ih =>
    unfold preadParts
    dsimp only
    rw [List.forall_mem_cons]
    by_cases hread : (p.pread file m).1 = p.srcBytes
    · rw [if_neg (not_not.mpr hread), ih]
      exact ⟨fun hrest => ⟨hread, hrest⟩, fun hall => hall.2⟩
    · rw [if_pos hread]
      constructor
      · intro hsome
        cases hsome
      · intro hall
        exact absurd hall.1 hread

/-- A byte outside the destinations is as before. -/
theorem preadParts_frame {file : Bytes} {total : UInt64} {parts : List GgufPart}
    {m : SlotMemory} {t : UInt64} (h : (preadParts file total parts m).1 = some t) {i : Nat}
    (hi : ∀ p ∈ parts, i ∉ span p.dstOff p.srcBytes) :
    (preadParts file total parts m).2 i = m i := by
  induction parts generalizing total m with
  | nil => rfl
  | cons p parts ih =>
    rw [List.forall_mem_cons] at hi
    unfold preadParts at h ⊢
    dsimp only at h ⊢
    split at h
    · cases h
    · rename_i hread
      rw [if_neg hread, ih h hi.2, pread_complete (not_not.mp hread)]
      exact if_neg hi.1

/-- No read of another part goes over a destination. -/
theorem preadParts_covered {file : Bytes} {total : UInt64} {parts : List GgufPart}
    {m : SlotMemory} {t : UInt64} (h : (preadParts file total parts m).1 = some t)
    (hdisjoint : parts.Pairwise fun a b =>
      Disjoint (span a.dstOff a.srcBytes) (span b.dstOff b.srcBytes))
    {p : GgufPart} (hp : p ∈ parts) {i : Nat} (hi : i ∈ span p.dstOff p.srcBytes) :
    (preadParts file total parts m).2 i =
      file.getD (p.srcOff.toNat + (i - p.dstOff.toNat)) 0 := by
  induction parts generalizing total m with
  | nil => cases hp
  | cons q parts ih =>
    rw [List.pairwise_cons] at hdisjoint
    unfold preadParts at h ⊢
    dsimp only at h ⊢
    split at h
    · cases h
    · rename_i hread
      rw [if_neg hread]
      rcases List.mem_cons.mp hp with rfl | hp
      · rw [preadParts_frame h fun b hb hib =>
          Set.disjoint_left.mp (hdisjoint.1 b hb) hi hib, pread_complete (not_not.mp hread)]
        exact preadInto_of_mem hi
      · exact ih h hdisjoint.2 hp

/-- A successful load is the one of complete reads. -/
theorem kvlExpertLoadInto_complete {s : ExpertStore} {file : Bytes} {i : Nat} {m : SlotMemory}
    (h : (kvlExpertLoadInto s file i m).1 = some (s.record i).readBytes) :
    (kvlExpertLoadInto s file i m).2 = kvlExpertLoad s (fun i => file.getD i 0) i m := by
  unfold kvlExpertLoadInto at h ⊢
  unfold kvlExpertLoad
  split at h
  · cases h
  rename_i hfd
  rw [if_neg hfd]
  split at h
  · rename_i hpacked
    rw [if_pos hpacked, if_pos hpacked]
    have hread := Option.some.inj h
    unfold kvlPread at hread ⊢
    dsimp only at hread ⊢
    rw [hread]
  · rename_i hgguf
    rw [if_neg hgguf, if_neg hgguf]
    rcases Option.eq_none_or_eq_some (s.sourceOf i) with hq | ⟨q, hq⟩
    · rw [hq] at h
      cases h
    · rw [hq] at h ⊢
      dsimp only at h ⊢
      unfold ggufParts preadParts at h ⊢
      dsimp only at h ⊢
      split at h
      · cases h
      rename_i hgate
      rw [if_neg hgate]
      unfold preadParts at h ⊢
      dsimp only at h ⊢
      split at h
      · cases h
      rename_i hup
      rw [if_neg hup]
      unfold preadParts at h ⊢
      dsimp only at h ⊢
      split at h
      · cases h
      rename_i hdown
      rw [if_neg hdown]
      unfold preadParts
      rw [pread_complete (not_not.mp hdown), pread_complete (not_not.mp hup),
        pread_complete (not_not.mp hgate)]
      rfl

/-! ### The exact condition -/

section Exact
variable {s : ExpertStore} {i : Nat} {q : GgufQ8Source}

theorem load_eq_parts (hfd : 0 ≤ s.fd) (hdtype : s.hdr.dtype = dtypeGgufQ8)
    (hq : s.sourceOf i = some q) (file : Bytes) (m : SlotMemory) :
    kvlExpertLoadInto s file i m = preadParts file 0 (ggufParts (s.record i) q) m := by
  unfold kvlExpertLoadInto
  rw [if_neg (Int.not_lt.mpr hfd), if_neg (not_not.mpr hdtype), hq]

/-- On a file of the declared size a load fails exactly if a source sum wraps. -/
theorem load_success_iff (hfd : 0 ≤ s.fd) (hdtype : s.hdr.dtype = dtypeGgufQ8)
    (hq : s.sourceOf i = some q) (hval : validateGgufSource s.hdr (s.record i) q = true)
    {file : Bytes} (hfile : file.length = s.hdr.dataFileBytes.toNat) (m : SlotMemory) :
    (kvlExpertLoadInto s file i m).1 = some (s.record i).readBytes ↔
      ∀ p ∈ ggufParts (s.record i) q, ¬ p.sourceWraps := by
  obtain ⟨hparts, htotal⟩ := validate_parts hval
  rw [load_eq_parts hfd hdtype hq]
  have hcomplete : (preadParts file 0 (ggufParts (s.record i) q) m).1.isSome = true ↔
      ∀ p ∈ ggufParts (s.record i) q, ¬ p.sourceWraps := by
    rw [preadParts_success]
    exact forall₂_congr fun p hp => (hparts p hp).complete_iff hfile
  rw [← hcomplete, Option.isSome_iff_exists]
  constructor
  · intro h
    exact ⟨_, h⟩
  · rintro ⟨t, ht⟩
    rw [ht, preadParts_total ht, ← htotal]
    simp only [ggufParts, gatePart, upPart, downPart, List.foldl_cons, List.foldl_nil,
      UInt64.zero_add]

theorem Tiles.safe {r : ExpertRecord} (h : Tiles r.readBytes.toNat (ggufParts r q)) :
    (∀ p ∈ ggufParts r q, p.dst + p.size ≤ r.readBytes.toNat) ∧
      (ggufParts r q).Pairwise fun a b =>
        Disjoint (span a.dstOff a.srcBytes) (span b.dstOff b.srcBytes) := by
  obtain ⟨hsum, order, hperm, hlaid⟩ := h
  constructor
  · intro p hp
    have hbound := (hlaid.inside (hperm.mem_iff.mpr hp)).2
    rw [(hperm.map GgufPart.size).sum_eq, hsum, Nat.zero_add] at hbound
    exact hbound
  · exact hlaid.disjoint.perm hperm fun h => h.symm

theorem span_subset_slot {off bytes : UInt64} {n : Nat} (hpos : 0 < bytes.toNat)
    (h : span off bytes ⊆ Set.Ico 0 n) : off.toNat + bytes.toNat ≤ n := by
  have hlast : off.toNat + bytes.toNat - 1 ∈ span off bytes := by
    constructor <;> omega
  have hend := (h hlast).2
  omega

theorem Tiles.loaded (hfd : 0 ≤ s.fd) (hdtype : s.hdr.dtype = dtypeGgufQ8)
    (hq : s.sourceOf i = some q) (hval : validateGgufSource s.hdr (s.record i) q = true)
    (h : Tiles (s.record i).readBytes.toNat (ggufParts (s.record i) q))
    (hpayload : ∀ p ∈ ggufParts (s.record i) q, ¬ p.payloadWraps) {file : Bytes}
    {m : SlotMemory} (hload : (kvlExpertLoadInto s file i m).1 = some (s.record i).readBytes) :
    ∀ p ∈ ggufParts (s.record i) q,
      PartLoaded file (s.record i).readBytes (kvlExpertLoadInto s file i m).2 p := by
  obtain ⟨hinside, hdisjoint⟩ := h.safe
  intro p hp
  have hread := (s.record i).readBytes.toNat_lt
  have hend := hinside p hp
  have hok := (validate_parts hval).1 p hp
  have hlow := hok.low
  have hhigh := hok.high
  have hno := hpayload p hp
  unfold GgufPart.payloadWraps at hno
  unfold GgufPart.dst GgufPart.size at hend
  rw [UInt64.toNat_add, UInt64.toNat_add, Nat.mod_eq_of_lt (by omega),
    Nat.mod_eq_of_lt (by omega)] at hhigh
  refine ⟨Set.Ico_subset_Ico (Nat.zero_le _) (by omega), ?_⟩
  intro j hj
  have hmem : p.payloadOff.toNat + j ∈ span p.dstOff p.srcBytes := by
    constructor <;> omega
  rw [load_eq_parts hfd hdtype hq] at hload ⊢
  rw [preadParts_covered hload hdisjoint hp hmem]
  congr 1
  omega

/-- A record that the validator accepts loads safely exactly if its destinations
fill `read_bytes` in some order, and no sum of a payload wraps, unless a source
that wraps makes every load fail. -/
theorem validateGgufSource_loadsSafely_iff (hfd : 0 ≤ s.fd)
    (hdtype : s.hdr.dtype = dtypeGgufQ8) (hq : s.sourceOf i = some q)
    (hval : validateGgufSource s.hdr (s.record i) q = true) :
    LoadsSafely s i q ↔
      Tiles (s.record i).readBytes.toNat (ggufParts (s.record i) q) ∧
        ((∃ p ∈ ggufParts (s.record i) q, p.sourceWraps) ∨
          ∀ p ∈ ggufParts (s.record i) q, ¬ p.payloadWraps) := by
  obtain ⟨hparts, htotal⟩ := validate_parts hval
  have hread := (s.record i).readBytes.toNat_lt
  constructor
  · intro h
    have hinside : ∀ p ∈ ggufParts (s.record i) q,
        p.dst + p.size ≤ (s.record i).readBytes.toNat := fun p hp =>
      span_subset_slot (hparts p hp).nonempty (h.inside p hp)
    have hle : ((ggufParts (s.record i) q).map GgufPart.size).sum ≤
        (s.record i).readBytes.toNat := by
      have hcard := @sum_size_le_card _ GgufPart.dst _ _ (Finset.Ico 0 (s.record i).readBytes.toNat) (fun p hp => by
          apply Finset.Ico_subset_Ico (Nat.zero_le _)
          exact hinside p hp) h.disjoint
      rwa [Nat.card_Ico, Nat.sub_zero] at hcard
    have hsum : ((ggufParts (s.record i) q).map GgufPart.size).sum =
        (s.record i).readBytes.toNat := by
      rw [← ggufParts_total htotal, Nat.mod_eq_of_lt (by omega)]
    refine ⟨⟨hsum, ?_⟩, ?_⟩
    · have hfit : ∀ p ∈ ggufParts (s.record i) q, 0 ≤ p.dst ∧
          p.dst + p.size ≤ 0 + ((ggufParts (s.record i) q).map GgufPart.size).sum := by
        intro p hp
        rw [hsum, Nat.zero_add]
        exact ⟨Nat.zero_le _, hinside p hp⟩
      exact exists_laidFrom (fun p hp => (hparts p hp).nonempty) hfit h.disjoint
    · by_contra hneither
      push Not at hneither
      obtain ⟨hsource, p, hp, hwraps⟩ := hneither
      -- every file of the declared size shows the payload that ends beyond 2^64
      have hfile : (List.replicate s.hdr.dataFileBytes.toNat (0 : UInt8)).length =
        s.hdr.dataFileBytes.toNat := List.length_replicate
      have hload := (load_success_iff hfd hdtype hq hval hfile fun _ => 0).mpr hsource
      have hloaded := h.loaded _ _ hfile hload p hp
      have hoff := p.payloadOff.toNat_lt
      unfold GgufPart.payloadWraps at hwraps
      have hend := span_subset_slot (by omega) hloaded.inside
      omega
  · rintro ⟨htiles, hcases⟩
    obtain ⟨hinside, hdisjoint⟩ := htiles.safe
    refine ⟨fun p hp => Set.Ico_subset_Ico (Nat.zero_le _) (hinside p hp), hdisjoint, ?_⟩
    intro file m hfile hload
    have hsource := (load_success_iff hfd hdtype hq hval hfile m).mp hload
    have hpayload := hcases.resolve_left fun ⟨p, hp, hwraps⟩ => hsource p hp hwraps
    exact htiles.loaded hfd hdtype hq hval hpayload hload

end Exact

/-- A store of one record of three pages, with its destinations at the given offsets. -/
def onePartStore (up down : UInt64) : ExpertStore where
  fd := 3
  directIo := true
  hdr := ⟨expertMagic, 1, 4096, 1, 1, 1, dtypeGgufQ8, 48, 12288⟩
  records := [⟨0, 0, 0, 12288, 12288, 0, 4096, up, 4096, down, 4096⟩]
  ggufQ8Sources := some [⟨0, 4096, 0, 4096, 4096, up, 8192, 4096, down⟩]
  recordOf := fun k => if k = 0 then 0 else -1

theorem validateGgufSource_loadsSafely_pages :
    LoadsSafely (onePartStore 4096 8192) 0 ⟨0, 4096, 0, 4096, 4096, 4096, 8192, 4096, 8192⟩ :=
  (validateGgufSource_loadsSafely_iff (by decide) rfl rfl (by decide)).mpr
    ⟨⟨by decide, _, List.Perm.refl _, by decide⟩, .inr (by decide)⟩

/-- All three reads go to the first page: accepted, although they overwrite each other. -/
theorem validateGgufSource_overlapping :
    validateGgufSource (onePartStore 0 0).hdr ((onePartStore 0 0).record 0)
        ⟨0, 4096, 0, 4096, 4096, 0, 8192, 4096, 0⟩ = true ∧
      ¬ LoadsSafely (onePartStore 0 0) 0 ⟨0, 4096, 0, 4096, 4096, 0, 8192, 4096, 0⟩ := by
  refine ⟨by decide, fun h => ?_⟩
  have hfirst := List.rel_of_pairwise_cons h.disjoint (List.mem_cons_self)
  have hzero : (0 : Nat) ∈ span 0 4096 := by
    constructor <;> decide
  exact Set.disjoint_left.mp hfirst hzero hzero

end Kvl
