import Kvl.Lib.CNumber
import Kvl.Store.Open
import Kvl.Tools.Compact
import Kvl.Tools.MergeStore

/-!
# Opening a compacted store

The runtime binds the mask that lies beside an index to the records that the index lacks.
Compaction writes the mask it was given, whatever the source lacked before.
-/

namespace Kvl.Compact

set_option autoImplicit false

open CText
open PyText (Str)

/-! ### The mask as it is written -/

theorem decimalFrom_length {k fuel n : Nat} (hk : 0 < k) (hn : n < 10 ^ k) :
    (decimalFrom fuel n).length ≤ k := by
  induction fuel generalizing k n with
  | zero => exact Nat.zero_le _
  | succ fuel ih =>
    unfold decimalFrom
    split
    · exact hk
    · rename_i hlarge
      obtain ⟨j, rfl⟩ := Nat.exists_eq_succ_of_ne_zero (Nat.pos_iff_ne_zero.mp hk)
      have hj : 0 < j := by
        by_contra hzero
        obtain rfl : j = 0 := by omega
        exact hlarge (by simpa using hn)
      have hlt : n / 10 < 10 ^ j := by
        rw [Nat.div_lt_iff_lt_mul (by decide)]
        rwa [Nat.pow_succ] at hn
      have := ih hj hlt
      rw [List.length_append, List.length_singleton]
      exact Nat.succ_le_succ this

def numeral (n : Nat) : Numeral := ⟨decimal n, decimal_ne_nil n, fun _ => decimal_isDigit⟩

theorem numeral_value (n : Nat) : (numeral n).value = n := digitsVal_decimal n

theorem mem_maskEntry {key : Nat × Nat} {c : UInt8} (h : c ∈ maskEntry key) :
    isDigit c = true ∨ c = 32 ∨ c = 10 := by
  simp only [maskEntry, List.mem_append, List.mem_singleton] at h
  obtain ((h | h) | h) | h := h
  · exact Or.inl (decimal_isDigit h)
  · exact Or.inr (Or.inl h)
  · exact Or.inl (decimal_isDigit h)
  · exact Or.inr (Or.inr h)

theorem isDigit_plain {c : UInt8} (h : isDigit c = true ∨ c = 32 ∨ c = 10) :
    c ≠ 0 ∧ c ≠ hash := by
  revert c
  decide +kernel

theorem isDigit_notBlank {c : UInt8} (h : isDigit c = true) : isBlank c = false ∧ c ≠ nl := by
  revert c
  decide +kernel

theorem maskEntry_head (key : Nat × Nat) :
    ∃ c s, maskEntry key = c :: s ∧ isDigit c = true := by
  obtain ⟨c, s, hs⟩ := List.exists_cons_of_ne_nil (decimal_ne_nil key.1)
  refine ⟨c, s ++ ([32] ++ (decimal key.2 ++ [10])), ?_, decimal_isDigit (hs ▸ List.mem_cons_self)⟩
  simp only [maskEntry, hs, List.append_assoc, List.cons_append]

theorem maskText_entry (key : Nat × Nat) : maskText (maskEntry key) = maskEntry key := by
  obtain ⟨c, s, hs, hc⟩ := maskEntry_head key
  have hcstr : cstr (maskEntry key) = maskEntry key :=
    List.takeWhile_eq_self_iff.mpr fun x hx => by simpa using (isDigit_plain (mem_maskEntry hx)).1
  have hhash : (maskEntry key).takeWhile (· != hash) = maskEntry key :=
    List.takeWhile_eq_self_iff.mpr fun x hx => by simpa using (isDigit_plain (mem_maskEntry hx)).2
  rw [maskText, hcstr, hhash, hs]
  exact dropWhile_head (isDigit_notBlank hc).1

theorem scanPair_entry {key : Nat × Nat} (hl : key.1 < 2 ^ 31) (he : key.2 < 2 ^ 31) :
    scanPair (maskEntry key) = some ((key.1 : Int), (key.2 : Int), [10]) := by
  have hfirst := @scanInt_numeral 0 (numeral key.1) (by rwa [numeral_value])
    ([32] ++ decimal key.2 ++ [10]) fun c hc => by
      obtain rfl : 32 = c := by simpa using hc
      rfl
  have hsecond := @scanInt_numeral 1 (numeral key.2) (by rwa [numeral_value]) [10] fun c hc => by
      obtain rfl : 10 = c := by simpa using hc
      rfl
  rw [numeral_value] at hfirst hsecond
  have htext : maskEntry key =
      spaces 0 ++ (numeral key.1).digits ++ ([32] ++ decimal key.2 ++ [10]) := by
    simp [maskEntry, spaces, numeral]
  rw [htext]
  exact scanPair_of_scans hfirst hsecond

theorem maskEntry_nl (key : Nat × Nat) : nl ∈ cstr (maskEntry key) := by
  have hcstr : cstr (maskEntry key) = maskEntry key :=
    List.takeWhile_eq_self_iff.mpr fun x hx => by simpa using (isDigit_plain (mem_maskEntry hx)).1
  rw [hcstr]
  exact List.mem_append_right _ (List.mem_singleton.mpr rfl)

theorem readMaskLine_entry (hdr : ExpertIndexHeader) (key : Nat × Nat) :
    Kvl.readMaskLine hdr (maskEntry key) = readMaskEntry hdr (maskEntry key) := by
  obtain ⟨c, s, hs, _⟩ := maskEntry_head key
  unfold Kvl.readMaskLine
  rw [if_neg fun h => h.1 (maskEntry_nl key), maskText_entry, if_neg (by rw [hs]; exact List.cons_ne_nil _ _)]

/-- Where the counts fit an `int`, an entry is read as its pair. -/
theorem readMaskEntry_fits {hdr : ExpertIndexHeader} {key : Nat × Nat}
    (hl : key.1 < hdr.nLayers.toNat) (he : key.2 < hdr.nExperts.toNat)
    (hsmall : hdr.nLayers.toNat < 2 ^ 31 ∧ hdr.nExperts.toNat < 2 ^ 31) :
    readMaskEntry hdr (maskEntry key) = .entry key.1 key.2 := by
  unfold readMaskEntry
  rw [scanPair_entry (hl.trans hsmall.1) (he.trans hsmall.2)]
  dsimp only
  rw [cInt_of_lt hsmall.1, cInt_of_lt hsmall.2, if_neg]
  · rfl
  · have hrest : ([10] : List UInt8).dropWhile isSpace = [] := rfl
    simp only [hrest, ne_eq, not_true_eq_false, false_or, not_or]
    omega

/-- A count from `2^31` on is negative as an `int`, and no entry lies below it. -/
theorem readMaskEntry_overflows {hdr : ExpertIndexHeader} {p : Bytes}
    (hlarge : ¬ (hdr.nLayers.toNat < 2 ^ 31 ∧ hdr.nExperts.toNat < 2 ^ 31)) :
    readMaskEntry hdr p = .bad := by
  have hneg (n : Nat) (hn : n < 2 ^ 32) (hle : ¬ n < 2 ^ 31) : cInt n < 0 := by
    unfold cInt
    rw [Int.bmod_def]
    split <;> omega
  have hL := hneg _ hdr.nLayers.toNat_lt
  have hE := hneg _ hdr.nExperts.toNat_lt
  unfold readMaskEntry
  split
  · rfl
  · rw [if_pos]
    omega

/-! ### The file of the mask -/

theorem fileLines_line {line rest : Bytes} (hlast : line.getLast? = some nl)
    (hinner : nl ∉ line.dropLast) (hlen : line.length ≤ 511) :
    fileLines 512 (line ++ rest) = line :: fileLines 512 rest := by
  have hne : line ≠ [] := by
    rintro rfl
    cases hlast
  rw [fileLines_append (by decide) rest hlast, fileLines_of_ne_nil (by decide) hne,
    fgets_of_notMem_dropLast _ hinner, List.take_of_length_le hlen, List.drop_of_length_le hlen]
  rfl

theorem fileLines_entries {keys : List (Nat × Nat)}
    (h : ∀ key ∈ keys, key.1 < 10 ^ 10 ∧ key.2 < 10 ^ 10) :
    fileLines 512 (keys.flatMap maskEntry) = keys.map maskEntry := by
  induction keys with
  | nil => rfl
  | cons key keys ih =>
    obtain ⟨⟨hl, he⟩, hrest⟩ := List.forall_mem_cons.mp h
    have hl := @decimalFrom_length 10 (key.1 + 1) key.1 (by decide) hl
    have he := @decimalFrom_length 10 (key.2 + 1) key.2 (by decide) he
    have hinner : nl ∉ (maskEntry key).dropLast := by
      rw [maskEntry, List.dropLast_concat]
      intro hmem
      simp only [List.mem_append, List.mem_singleton] at hmem
      obtain (hmem | hmem) | hmem := hmem
      · exact (isDigit_notBlank (decimal_isDigit hmem)).2 rfl
      · cases hmem
      · exact (isDigit_notBlank (decimal_isDigit hmem)).2 rfl
    have hlen : (maskEntry key).length ≤ 511 := by
      unfold maskEntry decimal
      simp only [List.length_append, List.length_singleton]
      omega
    rw [List.flatMap_cons, List.map_cons, fileLines_line _ hinner hlen, ih hrest]
    exact List.getLast?_concat

def comments : List Bytes :=
  [asciiBytes "# KVL_MOE_MASK_V1\n",
    asciiBytes "# Bound to the physically absent routed expert records.\n"]

theorem comments_skipped (hdr : ExpertIndexHeader) :
    ∀ line ∈ comments, Kvl.readMaskLine hdr line = .skip := by
  intro line hline
  have hcases : nl ∈ cstr line ∧ maskText line = [] := by
    revert line
    decide +kernel
  unfold Kvl.readMaskLine
  rw [if_neg fun h => h.1 hcases.1, if_pos hcases.2]

theorem fileLines_sidecar {disabled : List (Nat × Nat)}
    (h : ∀ key ∈ disabled, key.1 < 10 ^ 10 ∧ key.2 < 10 ^ 10) :
    fileLines 512 (maskSidecar disabled) = comments ++ (sortKeys disabled).map maskEntry := by
  rw [maskSidecar, List.append_assoc, fileLines_line (by decide +kernel) (by decide +kernel)
    (by decide +kernel), fileLines_line (by decide +kernel) (by decide +kernel) (by decide +kernel),
    fileLines_entries fun key hkey => h key (mem_sortKeys.mp hkey)]
  rfl

theorem readMaskLines_skip {hdr : ExpertIndexHeader} {lines : List Bytes}
    (h : ∀ line ∈ lines, Kvl.readMaskLine hdr line = .skip) (more : List Bytes) (m : Mask) :
    readMaskLines hdr (lines ++ more) m = readMaskLines hdr more m := by
  induction lines with
  | nil => rfl
  | cons line lines ih =>
    obtain ⟨hline, hlines⟩ := List.forall_mem_cons.mp h
    rw [List.cons_append, readMaskLines, hline]
    exact ih hlines

theorem readMaskLines_entries {hdr : ExpertIndexHeader} {keys : List (Nat × Nat)} {m : Mask}
    (hsmall : hdr.nLayers.toNat < 2 ^ 31 ∧ hdr.nExperts.toNat < 2 ^ 31)
    (hrange : ∀ key ∈ keys, key.1 < hdr.nLayers.toNat ∧ key.2 < hdr.nExperts.toNat)
    (hnodup : keys.Nodup) (hnew : ∀ key ∈ keys, m.disabled (maskCell hdr key.1 key.2) = false) :
    ∃ m', readMaskLines hdr (keys.map maskEntry) m = some m' := by
  induction keys generalizing m with
  | nil => exact ⟨m, rfl⟩
  | cons key keys ih =>
    obtain ⟨hkey, hkeys⟩ := List.forall_mem_cons.mp hrange
    obtain ⟨hfirst, hnodup⟩ := List.nodup_cons.mp hnodup
    obtain ⟨hcell, hcells⟩ := List.forall_mem_cons.mp hnew
    rw [List.map_cons, readMaskLines, readMaskLine_entry, readMaskEntry_fits hkey.1 hkey.2 hsmall]
    dsimp only
    rw [hcell, if_neg Bool.false_ne_true]
    apply ih hkeys hnodup
    intro other hother
    have hne : maskCell hdr other.1 other.2 ≠ maskCell hdr key.1 key.2 := by
      intro heq
      obtain ⟨hl, he⟩ := maskCell_inj (hkeys other hother).2 hkey.2 heq
      exact hfirst (Prod.ext hl he ▸ hother)
    exact (Function.update_of_ne hne _ _).trans (hcells other hother)

/-- What the runtime makes of the mask that `write_mask_sidecar` writes. -/
theorem fileDenotes_sidecar_iff {hdr : ExpertIndexHeader} {disabled : List (Nat × Nat)}
    {files : Bytes → Option Bytes} {path : Bytes} {pairs : Set (Nat × Nat)}
    (hfile : files path = some (maskSidecar disabled)) (hne : disabled ≠ [])
    (hnodup : disabled.Nodup)
    (hrange : ∀ key ∈ disabled, key.1 < hdr.nLayers.toNat ∧ key.2 < hdr.nExperts.toNat) :
    FileDenotes hdr files path pairs ↔
      (hdr.nLayers.toNat < 2 ^ 31 ∧ hdr.nExperts.toNat < 2 ^ 31) ∧ {key | key ∈ disabled} = pairs := by
  have hlines : fileLines 512 (maskSidecar disabled) =
      comments ++ (sortKeys disabled).map maskEntry := by
    apply fileLines_sidecar
    intro key hkey
    have hL := hdr.nLayers.toNat_lt
    have hE := hdr.nExperts.toNat_lt
    have := hrange key hkey
    omega
  have hrange' (key : Nat × Nat) (hkey : key ∈ sortKeys disabled) := hrange key (mem_sortKeys.mp hkey)
  have hpairs (m : Mask) (hm : MaskOk hdr (fileLines 512 (maskSidecar disabled)) m)
      (hsmall : hdr.nLayers.toNat < 2 ^ 31 ∧ hdr.nExperts.toNat < 2 ^ 31) :
      m.pairs hdr = {key | key ∈ disabled} := by
    ext key
    rw [hm.mem_pairs, hlines, Set.mem_ofPred_eq]
    constructor
    · rintro ⟨line, hline, hentry⟩
      obtain hline | hline := List.mem_append.mp hline
      · rw [comments_skipped hdr line hline] at hentry
        cases hentry
      · obtain ⟨other, hother, rfl⟩ := List.mem_map.mp hline
        obtain ⟨hl, he⟩ := hrange' other hother
        rw [readMaskLine_entry, readMaskEntry_fits hl he hsmall, MaskLine.entry.injEq] at hentry
        exact mem_sortKeys.mp (Prod.ext hentry.1 hentry.2 ▸ hother)
    · intro hkey
      obtain ⟨hl, he⟩ := hrange key hkey
      refine ⟨maskEntry key, List.mem_append_right _ (List.mem_map_of_mem (mem_sortKeys.mpr hkey)), ?_⟩
      rw [readMaskLine_entry, readMaskEntry_fits hl he hsmall]
  constructor
  · rintro ⟨m, hread, hm⟩
    obtain ⟨text, htext, hok⟩ := readMaskFile_ok hread
    obtain rfl := Option.some.inj (hfile.symm.trans htext)
    have hsmall : hdr.nLayers.toNat < 2 ^ 31 ∧ hdr.nExperts.toNat < 2 ^ 31 := by
      by_contra hlarge
      obtain ⟨key, hkey⟩ := List.exists_mem_of_ne_nil _ hne
      have hgood := hok.good (maskEntry key) (by
        rw [hlines]
        exact List.mem_append_right _ (List.mem_map_of_mem (mem_sortKeys.mpr hkey)))
      rw [readMaskLine_entry, readMaskEntry_overflows hlarge] at hgood
      exact hgood rfl
    exact ⟨hsmall, (hpairs m hok hsmall).symm.trans hm⟩
  · rintro ⟨hsmall, rfl⟩
    obtain ⟨m, hm⟩ := @readMaskLines_entries hdr (sortKeys disabled) ⟨fun _ => false, 0⟩ hsmall
      hrange' ((List.mergeSort_perm _ _).nodup_iff.mpr hnodup) fun _ _ => rfl
    have hread : readMaskFile hdr (files path) = some m := by
      rw [hfile, readMaskFile, hlines, readMaskLines_skip (comments_skipped hdr), hm]
    obtain ⟨text, htext, hok⟩ := readMaskFile_ok hread
    obtain rfl := Option.some.inj (hfile.symm.trans htext)
    exact ⟨m, hread, hpairs m hok hsmall⟩

/-! ### The table of an index that was written -/

theorem cInt_lt (n : Nat) : cInt n < 2 ^ 31 := by
  unfold cInt
  rw [Int.bmod_def]
  split <;> omega

theorem enterRecords_lt {hdr : ExpertIndexHeader} {records : List ExpertRecord} {i : Nat}
    {table out : Nat → Int} (h : ∀ k, table k < 2 ^ 31)
    (hrun : enterRecords hdr records i table = some out) : ∀ k, out k < 2 ^ 31 := by
  induction records generalizing i table with
  | nil =>
    obtain rfl := Option.some.inj hrun
    exact h
  | cons r records ih =>
    unfold enterRecords at hrun
    split at hrun
    · cases hrun
    rename_i next hstep
    apply ih _ hrun
    unfold enterRecord at hstep
    split at hstep
    · cases hstep
    split at hstep
    · cases hstep
    obtain rfl := Option.some.inj hstep
    intro k
    by_cases hk : k = recordCell hdr r
    · rw [hk, Function.update_self]
      exact cInt_lt i
    · rw [Function.update_of_ne hk]
      exact h k

/-- An expert is absent unless one of the first `2^31` records is its own. -/
theorem recordAt_none_iff {s : ExpertStore} (hok : TableOk s.hdr s.records s.recordOf)
    (hlt : ∀ k, s.recordOf k < 2 ^ 31) {layer expert : Nat} (he : expert < s.hdr.nExperts.toNat) :
    s.recordAt (maskCell s.hdr layer expert) = none ↔
      ∀ i : Nat, (s.records.map keyOf)[i]? = some (layer, expert) → 2 ^ 31 ≤ i := by
  rw [recordAt_eq_none]
  unfold isPresent
  rw [decide_eq_false_iff_not]
  constructor
  · intro habsent i hi
    rw [List.getElem?_map, Option.map_eq_some_iff] at hi
    obtain ⟨r, hr, hkey⟩ := hi
    by_contra hsmall
    have hfound := hok.found i r hr (Nat.lt_of_not_le hsmall)
    have hcell : recordCell s.hdr r = maskCell s.hdr layer expert := by
      rw [← (Prod.mk.inj hkey).1, ← (Prod.mk.inj hkey).2]
      rfl
    rw [hcell] at hfound
    exact habsent (hfound ▸ Int.natCast_nonneg i)
  · intro hbehind hpresent
    obtain ⟨i, r, hr, hrec, hcell⟩ := hok.entry _ hpresent
    have hids := (hok.ids r (List.mem_of_getElem? hr)).2
    obtain ⟨hl, he'⟩ := maskCell_inj (UInt32.lt_iff_toNat_lt.mp hids) he hcell
    have hi := hbehind i (by
      rw [List.getElem?_map, hr, Option.map_some]
      exact congrArg some (Prod.ext hl he'))
    have := hlt (maskCell s.hdr layer expert)
    omega

theorem mem_keptIds {m : Meta} {disabled : List (Nat × Nat)} {key : Nat × Nat} :
    key ∈ keptIds m disabled ↔ key ∈ m.ids ∧ key ∉ disabled := by
  rw [keptIds, List.mem_filter, decide_eq_true_iff]

namespace Compacted

variable {srcBin : Bytes} {m dst : Meta} {disabled : List (Nat × Nat)} {out : Output}

theorem readIndex_none (h : Compacted srcBin m disabled out dst) (hempty : keptIds m disabled = [])
    (allocOk : Bool) : readIndex out.idx allocOk = none := by
  have hrecords : dst.records = [] := by
    have hids := h.ids_eq.trans hempty
    exact List.map_eq_nil_iff.mp hids
  have hmagic : dst.header.magic = expertMagic := by rw [h.header]; rfl
  have hzero : dst.header.nRecords = 0 := by rw [h.header, hrecords]; rfl
  have hindex : out.idx = encodeHeader dst.header ++ [] := by
    rw [h.index, encodeIndex, hrecords, List.flatMap_nil, List.flatMap_nil, List.append_nil]
  unfold readIndex
  split
  · rfl
  dsimp only
  split
  · rfl
  rw [if_pos]
  right
  rw [hindex, decodeHeader_encodeHeader hmagic, hzero]

theorem readIndex_some (h : Compacted srcBin m disabled out dst) (hm : MetaOk m)
    (hne : keptIds m disabled ≠ []) :
    ∃ s, readIndex out.idx true = some s ∧ s.hdr = dst.header ∧ s.records = dst.records ∧
      ∀ k, s.recordOf k < 2 ^ 31 := by
  have hok := h.metaOk hm
  have hrecords : dst.records ≠ [] := by
    intro hnil
    have hids := h.ids_eq
    rw [Meta.ids, hnil] at hids
    exact hne hids.symm
  have hoffset : dst.header.recordsOffset = 48 := by rw [h.header]; rfl
  have hpacked : dst.header.dtype ≠ dtypeGgufQ8 := by rw [hok.shape.2.1]; decide
  obtain ⟨table, henter, hread⟩ := @readIndex_encodeIndex dst.header dst.records [] none
    ⟨hok.magic.1, hok.magic.2, hok.shape.1, hok.count.symm, hoffset⟩ hrecords
    ⟨fun r hr => (hok.records r hr).ids,
      Merge.recordCell_nodup (fun r hr => (hok.records r hr).ids.2) hok.distinct⟩ (if_neg hpacked)
  exact ⟨_, h.index ▸ hread, rfl, rfl, enterRecords_lt (fun _ => by decide) henter⟩

end Compacted

/-! ### Where the mask lies -/

/-- `PurePath.suffix` of a file name. -/
def suffix (name : Bytes) : Bytes :=
  let tail := name.rtakeWhile (· ≠ 46)
  if 0 < tail.length ∧ tail.length + 1 < name.length then 46 :: tail else []

/-- `mask_sidecar_path` of a directory and a file name. -/
def maskSidecarPath (dir name : Bytes) : Bytes :=
  if suffix name = idxSuffix then dir ++ (name.take (name.length - 4) ++ maskSuffix)
  else dir ++ (name ++ maskSuffix)

theorem suffix_eq_idx {name : Bytes} : suffix name = idxSuffix ↔
    4 < name.length ∧ name.drop (name.length - 4) = idxSuffix := by
  unfold suffix
  dsimp only
  constructor
  · intro h
    split at h
    · rename_i hlen
      have htail : name.rtakeWhile (· ≠ 46) = [105, 100, 120] := (List.cons.inj h).2
      rw [htail] at hlen
      have hsplit := @List.rdropWhile_append_rtakeWhile _ (fun c : UInt8 => decide (c ≠ 46)) name
      rw [htail] at hsplit
      have hne : name.rdropWhile (· ≠ 46) ≠ [] := by
        intro hnil
        rw [hnil] at hsplit
        rw [← hsplit] at hlen
        exact absurd hlen.2 (by decide)
      have hdot : (name.rdropWhile (· ≠ 46)).getLast hne = 46 := by
        simpa using List.rdropWhile_last_not _ _ hne
      have hinit := List.dropLast_append_getLast hne
      rw [hdot] at hinit
      rw [← hinit, List.append_assoc] at hsplit
      refine ⟨hlen.2, ?_⟩
      rw [← hsplit]
      exact List.drop_left' (by simp)
    · cases h
  · rintro ⟨hlen, hdrop⟩
    have hname := List.take_append_drop (name.length - 4) name
    rw [hdrop] at hname
    have htail : name.rtakeWhile (· ≠ 46) = [105, 100, 120] := by
      rw [← hname, List.rtakeWhile]
      simp [idxSuffix]
    rw [htail, if_pos ⟨by decide, hlen⟩]
    rfl


/-- The runtime looks for the mask where the tool has put it, but for an index named `.idx`. -/
theorem maskSidecarPath_eq {dir name : Bytes} (hdir : dir = [] ∨ dir.getLast? = some 47)
    (hne : name ≠ idxSuffix) : Kvl.maskSidecarPath (dir ++ name) = maskSidecarPath dir name := by
  have hsame : ((dir ++ name).length ≥ 4 ∧
      (dir ++ name).drop ((dir ++ name).length - 4) = idxSuffix) ↔ suffix name = idxSuffix := by
    rw [suffix_eq_idx, List.length_append]
    by_cases hlong : 4 ≤ name.length
    · have hdrop : (dir ++ name).drop (dir.length + name.length - 4) = name.drop (name.length - 4) := by
        rw [Nat.add_sub_assoc hlong, ← List.drop_drop, List.drop_left]
      rw [hdrop]
      refine ⟨fun h => ⟨Nat.lt_of_le_of_ne hlong fun heq => hne ?_, h.2⟩, fun h => ⟨by omega, h.2⟩⟩
      rw [← h.2, ← heq]
      rfl
    · refine ⟨fun h => absurd h.2 ?_, fun h => absurd h.1 (by omega)⟩
      obtain rfl | hslash := hdir
      · have := h.1
        rw [List.length_nil] at this
        omega
      · intro hdrop
        have hmem : (47 : UInt8) ∈ (dir ++ name).drop (dir.length + name.length - 4) := by
          obtain ⟨d, rfl⟩ := List.getLast?_eq_some_iff.mp hslash
          rw [List.length_append, List.length_singleton, List.append_assoc, List.drop_append_of_le_length (by omega)]
          exact List.mem_append_right _ (List.mem_append_left _ (List.mem_singleton.mpr rfl))
        rw [hdrop] at hmem
        exact absurd hmem (by decide)
  unfold Kvl.maskSidecarPath maskSidecarPath
  by_cases hidx : suffix name = idxSuffix
  · have hlen := (suffix_eq_idx.mp hidx).1
    rw [if_pos (hsame.mpr hidx), if_pos hidx, List.length_append, Nat.add_sub_assoc (by omega),
      List.take_length_add_append, List.append_assoc]
  · rw [if_neg (mt hsame.mp hidx), if_neg hidx, List.append_assoc]

/-! ### Opening -/

theorem readMask_ok {mask : Str} {disabled : List (Nat × Nat)} (h : readMask mask = some disabled) :
    disabled ≠ [] ∧ disabled.Nodup := by
  have hrun (lines : List Str) : ∀ start : List (Nat × Nat), start.Nodup → ∀ out,
      lines.foldlM readMaskLine start = some out → out.Nodup := by
    induction lines with
    | nil =>
      intro start hstart out hout
      exact Option.some.inj hout ▸ hstart
    | cons line lines ih =>
      intro start hstart out hout
      rw [List.foldlM_cons] at hout
      obtain ⟨next, hline, hrest⟩ := Option.bind_eq_some_iff.mp hout
      refine ih next ?_ out hrest
      unfold readMaskLine at hline
      dsimp only at hline
      split at hline
      · exact Option.some.inj hline ▸ hstart
      split at hline
      · obtain ⟨layer, _, hline⟩ := Option.bind_eq_some_iff.mp hline
        obtain ⟨expert, _, hline⟩ := Option.bind_eq_some_iff.mp hline
        split at hline
        · cases hline
        split at hline
        · cases hline
        rename_i hnew
        obtain rfl := Option.some.inj hline
        exact List.nodup_append.mpr ⟨hstart, List.nodup_singleton _, fun a ha b hb heq =>
          hnew (by rwa [← List.mem_singleton.mp hb, ← heq])⟩
      · cases hline
  obtain ⟨out, hout, hne⟩ := Option.bind_eq_some_iff.mp h
  split at hne
  · cases hne
  · rename_i hne'
    obtain rfl := Option.some.inj hne
    exact ⟨hne', hrun _ [] List.nodup_nil _ hout⟩

theorem open_iff {o : OpenEnv} {idxPath : Bytes} {direct : Bool} {env : Option Bytes}
    (hdata : ∀ b, 0 ≤ o.openData b) :
    (kvlExpertStoreOpen o idxPath direct env).rc = 0 ↔
      ∃ s, (o.files idxPath).bind (fun file => readIndex file o.allocOk) = some s ∧
        (bindSparseQ8Mask s o idxPath env).isSome := by
  unfold kvlExpertStoreOpen
  split
  · rename_i hnone
    rw [hnone]
    exact ⟨fun h => absurd h (Int.neg_ne_zero.mpr Int.one_ne_zero), fun ⟨_, h, _⟩ => by cases h⟩
  · rename_i s hs
    rw [hs]
    split
    · rename_i hbind
      refine ⟨fun h => absurd h (Int.neg_ne_zero.mpr Int.one_ne_zero), fun ⟨s', h, hsome⟩ => ?_⟩
      obtain rfl := Option.some.inj h
      rw [hbind] at hsome
      cases hsome
    · rename_i env' hbind
      have hfd : ¬ (openDataFile s o direct).fd < 0 := by
        unfold openDataFile
        dsimp only
        rw [if_pos (hdata direct)]
        exact Int.not_lt.mpr (hdata direct)
      dsimp only
      rw [if_neg hfd]
      exact ⟨fun _ => ⟨s, rfl, by rw [hbind]; rfl⟩, fun _ => rfl⟩

def firstRouted (h : ExpertIndexHeader) : Nat := if h.nLayers.toNat > 1 then 1 else 0

/-- The mask names what the output lacks: no expert of a layer without routed ones, and every
routed expert that the source has no record of. -/
structure Binds (m : Meta) (disabled : List (Nat × Nat)) : Prop where
  routed : ∀ key ∈ disabled, firstRouted m.header ≤ key.1
  absent : ∀ layer expert, firstRouted m.header ≤ layer → layer < m.header.nLayers.toNat →
    expert < m.header.nExperts.toNat → (layer, expert) ∉ m.ids → (layer, expert) ∈ disabled
  small : m.header.nLayers.toNat < 2 ^ 31 ∧ m.header.nExperts.toNat < 2 ^ 31
  indexed : ∀ (i : Nat) (key : Nat × Nat), (keptIds m disabled)[i]? = some key →
    firstRouted m.header ≤ key.1 → i < 2 ^ 31

/-- No routed expert is missing from the output. -/
def Full (m : Meta) (disabled : List (Nat × Nat)) : Prop :=
  ∀ layer expert, firstRouted m.header ≤ layer → layer < m.header.nLayers.toNat →
    expert < m.header.nExperts.toNat → ∃ i < 2 ^ 31, (keptIds m disabled)[i]? = some (layer, expert)

section
variable {m : Meta} {disabled : List (Nat × Nat)}

/-- The routed experts that a runtime does not find in the output. -/
def lost (m : Meta) (disabled : List (Nat × Nat)) : Set (Nat × Nat) :=
  {key | firstRouted m.header ≤ key.1 ∧ key.1 < m.header.nLayers.toNat ∧
    key.2 < m.header.nExperts.toNat ∧
    ∀ i : Nat, (keptIds m disabled)[i]? = some key → 2 ^ 31 ≤ i}

theorem lost_eq_empty_iff : lost m disabled = ∅ ↔ Full m disabled := by
  rw [Set.eq_empty_iff_forall_notMem]
  constructor
  · intro h layer expert hfirst hl he
    by_contra hnone
    push Not at hnone
    exact h (layer, expert) ⟨hfirst, hl, he, fun i hi => by
      by_contra hlt
      exact hnone i (Nat.lt_of_not_le hlt) hi⟩
  · rintro h key ⟨hfirst, hl, he, hbehind⟩
    obtain ⟨i, hi, hkey⟩ := h key.1 key.2 hfirst hl he
    exact absurd (hbehind i hkey) (Nat.not_le_of_lt hi)

theorem disabled_eq_lost_iff (hnodup : m.ids.Nodup)
    (hids : ∀ key ∈ m.ids, key.1 < m.header.nLayers.toNat ∧ key.2 < m.header.nExperts.toNat)
    (hrange : ∀ key ∈ disabled, key.1 < m.header.nLayers.toNat ∧ key.2 < m.header.nExperts.toNat) :
    (m.header.nLayers.toNat < 2 ^ 31 ∧ m.header.nExperts.toNat < 2 ^ 31) ∧
      {key | key ∈ disabled} = lost m disabled ↔ Binds m disabled := by
  have hkept (i : Nat) (key : Nat × Nat) (h : (keptIds m disabled)[i]? = some key) :=
    mem_keptIds.mp (List.mem_of_getElem? h)
  constructor
  · rintro ⟨hsmall, heq⟩
    have hmem (key : Nat × Nat) : key ∈ disabled ↔ key ∈ lost m disabled := by
      rw [← heq, Set.mem_ofPred_eq]
    refine ⟨fun key hkey => ((hmem key).mp hkey).1, fun layer expert hfirst hl he habsent => ?_,
      hsmall, fun i key hi hfirst => ?_⟩
    · exact (hmem _).mpr ⟨hfirst, hl, he, fun i hi => absurd (hkept i _ hi).1 habsent⟩
    · by_contra hlarge
      obtain ⟨hl, he⟩ := hids key (hkept i key hi).1
      refine (hkept i key hi).2 ((hmem key).mpr ⟨hfirst, hl, he, fun j hj => ?_⟩)
      have hij := (List.getElem?_inj (List.getElem?_eq_some_iff.mp hi).1 (hnodup.filter _)).mp
        (hi.trans hj.symm)
      omega
  · intro h
    refine ⟨h.small, Set.ext fun key => ⟨fun hkey => ?_, fun hkey => ?_⟩⟩
    · obtain ⟨hl, he⟩ := hrange key hkey
      exact ⟨h.routed key hkey, hl, he, fun i hi => absurd hkey (hkept i key hi).2⟩
    · obtain ⟨hfirst, hl, he, hbehind⟩ := hkey
      by_contra hnew
      by_cases hsource : key ∈ m.ids
      · obtain ⟨i, hi⟩ := List.mem_iff_getElem?.mp (mem_keptIds.mpr ⟨hsource, hnew⟩)
        exact absurd (hbehind i hi) (Nat.not_le_of_lt (h.indexed i key hi hfirst))
      · exact hnew (h.absent key.1 key.2 hfirst hl he hsource)

end

theorem Compacted.absentPairs_eq {srcBin : Bytes} {m dst : Meta} {disabled : List (Nat × Nat)}
    {out : Output} {s : ExpertStore} (h : Compacted srcBin m disabled out dst)
    (hhdr : s.hdr = dst.header) (hrecords : s.records = dst.records)
    (hok : TableOk s.hdr s.records s.recordOf) (hlt : ∀ k, s.recordOf k < 2 ^ 31) :
    absentPairs s = lost m disabled := by
  have hshape : s.hdr.nLayers = m.header.nLayers ∧ s.hdr.nExperts = m.header.nExperts := by
    rw [hhdr, h.header]
    exact ⟨rfl, rfl⟩
  have hkeys : s.records.map keyOf = keptIds m disabled := by
    rw [hrecords]
    exact h.ids_eq
  have hfirst : firstMoeLayer s = firstRouted m.header := by
    rw [firstMoeLayer, firstRouted, ExpertStore.nLayers, hshape.1]
  ext ⟨layer, expert⟩
  rw [absentPairs, lost, Set.mem_ofPred_eq, Set.mem_ofPred_eq, hfirst, ExpertStore.nLayers,
    ExpertStore.nExperts, hshape.1, hshape.2]
  refine and_congr_right fun _ => and_congr_right fun _ => and_congr_right fun he => ?_
  rw [← hshape.2] at he
  rw [recordAt_none_iff hok hlt he, hkeys]

theorem Compacted.opens_iff {srcBin : Bytes} {m dst : Meta} {disabled : List (Nat × Nat)}
    {out : Output} (h : Compacted srcBin m disabled out dst) (hm : MetaOk m)
    (hne : disabled ≠ []) (hnodup : disabled.Nodup) {o : OpenEnv} {dir name : Bytes} {direct : Bool}
    (halloc : o.allocOk = true) (hset : o.setenvOk = true) (hdata : ∀ b, 0 ≤ o.openData b)
    (hdir : dir = [] ∨ dir.getLast? = some 47) (hidx : o.files (dir ++ name) = some out.idx)
    (hside : o.files (maskSidecarPath dir name) = some out.sidecar)
    (hfresh : name = idxSuffix → o.files (Kvl.maskSidecarPath (dir ++ name)) = none) :
    (kvlExpertStoreOpen o (dir ++ name) direct none).rc = 0 ↔ keptIds m disabled ≠ [] ∧
      (name ≠ idxSuffix ∧ Binds m disabled ∨ name = idxSuffix ∧ Full m disabled) := by
  rw [open_iff hdata, hidx, Option.bind_some, halloc]
  by_cases hempty : keptIds m disabled = []
  · rw [h.readIndex_none hempty]
    exact ⟨fun ⟨_, hs, _⟩ => (by cases hs), fun hboth => absurd hempty hboth.1⟩
  obtain ⟨s, hread, hhdr, hrecords, hlt⟩ := h.readIndex_some hm hempty
  have hok := readIndex_ok hread
  have habsent := h.absentPairs_eq hhdr hrecords hok.table hlt
  have hdtype : s.hdr.dtype = dtypeQ8Row := by
    rw [hhdr]
    exact (h.metaOk hm).shape.2.1
  have hshape : s.hdr.nLayers = m.header.nLayers ∧ s.hdr.nExperts = m.header.nExperts := by
    rw [hhdr, h.header]
    exact ⟨rfl, rfl⟩
  have hbind := bindSparseQ8Mask_isSome_iff hdtype halloc hset (dir ++ name) none
  have hsome : (∃ s', readIndex out.idx true = some s' ∧
      (bindSparseQ8Mask s' o (dir ++ name) none).isSome) ↔
      (bindSparseQ8Mask s o (dir ++ name) none).isSome := by
    rw [hread]
    exact ⟨fun ⟨s', hs, hrest⟩ => Option.some.inj hs ▸ hrest, fun hrest => ⟨s, rfl, hrest⟩⟩
  have hrequest : RequestAgrees s.hdr o.files none (lost m disabled) :=
    requestAgrees_unset fun _ _ hcons => by cases hcons
  rw [hsome, hbind, habsent]
  by_cases hname : name = idxSuffix
  · have hdenotes : ¬ FileDenotes s.hdr o.files (Kvl.maskSidecarPath (dir ++ name))
        (lost m disabled) := by
      rintro ⟨_, hmask, _⟩
      rw [hfresh hname] at hmask
      cases hmask
    rw [lost_eq_empty_iff, hfresh hname]
    simp only [hname, ne_eq, not_true_eq_false, false_and, true_and, and_true, false_or] at hdenotes ⊢
    simp only [hempty, hdenotes, false_and, and_false, or_false, not_false_eq_true, true_and]
  · have hfile : o.files (Kvl.maskSidecarPath (dir ++ name)) = some (maskSidecar disabled) := by
      rw [maskSidecarPath_eq hdir hname, hside, h.sidecar]
    have hrange : ∀ key ∈ disabled,
        key.1 < s.hdr.nLayers.toNat ∧ key.2 < s.hdr.nExperts.toNat := by
      rw [hshape.1, hshape.2]
      exact h.inRange
    have hids : ∀ key ∈ m.ids,
        key.1 < m.header.nLayers.toNat ∧ key.2 < m.header.nExperts.toNat := by
      intro key hkey
      obtain ⟨r, hr, rfl⟩ := List.mem_map.mp hkey
      have := (hm.records r hr).ids
      exact ⟨UInt32.lt_iff_toNat_lt.mp this.1, UInt32.lt_iff_toNat_lt.mp this.2⟩
    have hbinds := disabled_eq_lost_iff hm.distinct hids h.inRange
    rw [fileDenotes_sidecar_iff hfile hne hnodup hrange, hfile, hshape.1, hshape.2, hbinds]
    have hsparse : Binds m disabled → lost m disabled ≠ ∅ := by
      intro hb
      obtain ⟨key, hkey⟩ := List.exists_mem_of_ne_nil _ hne
      rw [← (hbinds.mpr hb).2]
      exact Set.nonempty_iff_ne_empty.mp ⟨key, hkey⟩
    constructor
    · rintro (⟨_, hnone⟩ | ⟨_, hb, _⟩)
      · cases hnone
      · exact ⟨hempty, Or.inl ⟨hname, hb⟩⟩
    · rintro ⟨_, ⟨_, hb⟩ | ⟨hidx', _⟩⟩
      · exact Or.inr ⟨hsparse hb, hb, hrequest⟩
      · exact absurd hidx' hname

/-- The runtime opens what was compacted if some record is left, and the mask names the routed
experts that the output lacks and no others. -/
theorem compacted_opens_iff {srcBin srcIdx : Bytes} {mask : Str} {allowMissing : Bool}
    {out : Output} (h : compactStore srcBin srcIdx mask allowMissing = some out) {o : OpenEnv}
    {dir name : Bytes} {direct : Bool} (halloc : o.allocOk = true) (hset : o.setenvOk = true)
    (hdata : ∀ b, 0 ≤ o.openData b) (hdir : dir = [] ∨ dir.getLast? = some 47)
    (hidx : o.files (dir ++ name) = some out.idx)
    (hside : o.files (maskSidecarPath dir name) = some out.sidecar)
    (hfresh : name = idxSuffix → o.files (Kvl.maskSidecarPath (dir ++ name)) = none) :
    (kvlExpertStoreOpen o (dir ++ name) direct none).rc = 0 ↔
      ∃ m disabled, readIndexQ8 srcIdx = some m ∧ readMask mask = some disabled ∧
        keptIds m disabled ≠ [] ∧
        (name ≠ idxSuffix ∧ Binds m disabled ∨ name = idxSuffix ∧ Full m disabled) := by
  obtain ⟨m, disabled, dst, hm, hmask, _, hdst⟩ := compactStore_compacted h
  obtain ⟨hne, hnodup⟩ := readMask_ok hmask
  rw [hdst.opens_iff (readIndexQ8_ok hm) hne hnodup halloc hset hdata hdir hidx hside hfresh]
  constructor
  · exact fun hboth => ⟨m, disabled, hm, hmask, hboth⟩
  · rintro ⟨m', disabled', hm', hmask', hboth⟩
    obtain rfl := Option.some.inj (hm.symm.trans hm')
    obtain rfl := Option.some.inj (hmask.symm.trans hmask')
    exact hboth

/-! ### A source with two records -/

def pairHeader (nExperts : UInt32) : ExpertIndexHeader :=
  ⟨expertMagic, expertVersion, 4096, 1, nExperts, 2, dtypeQ8Row, 48, 4096⟩

/-- Both records have the same bytes. -/
def pairRecord (expert : UInt32) : ExpertRecord := ⟨0, expert, 0, 4096, 0, 0, 0, 0, 0, 0, 0⟩

def pairMeta (nExperts : UInt32) : Meta := ⟨pairHeader nExperts, [pairRecord 0, pairRecord 1]⟩

def pairIdx (nExperts : UInt32) : Bytes :=
  encodeIndex (pairMeta nExperts).header (pairMeta nExperts).records []

def pairBin : Bytes := List.replicate 4096 0

/-- The second expert is disabled. -/
def pairMask : Str := PyText.text "0 1\n"

def pairOut (nExperts : UInt32) : Output where
  bin := pairBin
  idx := encodeIndex (compactHeader (pairHeader nExperts) 1 4096) [pairRecord 0] []
  sidecar := maskSidecar [(0, 1)]

theorem pairMeta_ok {nExperts : UInt32} (h : 1 < nExperts) : MetaOk (pairMeta nExperts) where
  magic := ⟨rfl, rfl⟩
  shape := ⟨rfl, rfl, rfl⟩
  count := rfl
  records := by
    have layer_lt : (0 : UInt32) < 1 := by decide
    have h0 : (0 : UInt32) < nExperts := UInt32.lt_trans (by decide) h
    intro r hr
    obtain rfl | rfl : r = pairRecord 0 ∨ r = pairRecord 1 := by simpa [pairMeta] using hr
    · exact ⟨⟨layer_lt, h0⟩, by decide, by decide⟩
    · exact ⟨⟨layer_lt, h⟩, by decide, by decide⟩
  distinct := by
    change [((0 : Nat), (0 : Nat)), (0, 1)].Nodup
    decide

theorem pairMask_read : readMask pairMask = some [(0, 1)] := by decide +kernel

theorem pair_compacted {nExperts : UInt32} (h : 1 < nExperts) (allowMissing : Bool) :
    compactStore pairBin (pairIdx nExperts) pairMask allowMissing = some (pairOut nExperts) := by
  have hread : readIndexQ8 (pairIdx nExperts) = some (pairMeta nExperts) :=
    readIndexQ8_encode (pairMeta_ok h)
  have hlen : pairBin.length = 4096 := List.length_replicate
  have hslice : Extents.slice pairBin 0 4096 = pairBin := by
    rw [Extents.slice, List.drop_zero, List.take_of_length_le (by rw [hlen])]
  have hkept : keepRecord pairBin [(0, 1)] ⟨[], []⟩ (pairRecord 0) =
      some ⟨pairBin, [pairRecord 0]⟩ := by
    have hcopy := copyLoop_eq pairBin 0 4096 []
    rw [hslice, hlen, if_pos rfl, List.nil_append] at hcopy
    unfold keepRecord
    rw [if_neg (by decide), Extents.pad_of_dvd (by decide) _ (Nat.dvd_zero _)]
    dsimp only
    rw [copyExact]
    exact congrArg (Option.map _) hcopy
  have hdropped (k : Kept) : keepRecord pairBin [(0, 1)] k (pairRecord 1) = some k :=
    if_pos (by decide)
  have hrun : (pairMeta nExperts).records.foldlM (keepRecord pairBin [(0, 1)]) ⟨[], []⟩ =
      some ⟨pairBin, [pairRecord 0]⟩ := by
    change [pairRecord 0, pairRecord 1].foldlM _ _ = _
    rw [List.foldlM_cons, hkept]
    exact hdropped _
  unfold compactStore
  rw [hread, Option.bind_some, pairMask_read, Option.bind_some, if_neg, if_neg, if_neg, hrun,
    Option.bind_some, if_neg (by rw [hlen]; decide), hlen]
  · rfl
  · exact not_not.mpr (by rw [hlen]; rfl)
  · intro hmissing
    have hids : (0, 1) ∈ (pairMeta nExperts).ids := List.mem_cons_of_mem _ List.mem_cons_self
    simp [hids] at hmissing
  · have hlt : 1 < nExperts.toNat := UInt32.lt_iff_toNat_lt.mp h
    intro hany
    obtain ⟨key, hkey, hout⟩ := List.any_eq_true.mp hany
    obtain rfl := List.mem_singleton.mp hkey
    obtain hl | he : 1 ≤ 0 ∨ nExperts.toNat ≤ 1 := of_decide_eq_true hout
    · exact absurd hl (by decide)
    · omega

/-- The files that compaction has written, under the name `s.idx`. -/
def pairEnv (nExperts : UInt32) : OpenEnv where
  files path :=
    if path = [115, 46, 105, 100, 120] then some (pairOut nExperts).idx
    else if path = [115, 46, 109, 97, 115, 107] then some (pairOut nExperts).sidecar
    else none
  allocOk := true
  setenvOk := true
  openData _ := 3

/-- A store that lacked an expert before is compacted, and the mask that is written names only the
one that it has lost now: the runtime refuses it. -/
theorem compacted_rejected :
    compactStore pairBin (pairIdx 3) pairMask false = some (pairOut 3) ∧
      (kvlExpertStoreOpen (pairEnv 3) [115, 46, 105, 100, 120] true none).rc ≠ 0 := by
  have hrun := @pair_compacted 3 (by decide) false
  refine ⟨hrun, fun hopen => ?_⟩
  obtain ⟨m, disabled, dst, hm, hmask, _, hdst⟩ := compactStore_compacted hrun
  have hread : readIndexQ8 (pairIdx 3) = some (pairMeta 3) := readIndexQ8_encode (pairMeta_ok (by decide))
  obtain rfl := Option.some.inj (hread.symm.trans hm)
  obtain rfl := Option.some.inj (pairMask_read.symm.trans hmask)
  have hdata : ∀ b, 0 ≤ (pairEnv 3).openData b := fun _ => Int.natCast_nonneg 3
  have hidx : (pairEnv 3).files ([] ++ [115, 46, 105, 100, 120]) = some (pairOut 3).idx := rfl
  have hside : (pairEnv 3).files (maskSidecarPath [] [115, 46, 105, 100, 120]) =
      some (pairOut 3).sidecar := rfl
  obtain ⟨_, ⟨_, hbinds⟩ | ⟨hname, _⟩⟩ := (hdst.opens_iff (pairMeta_ok (by decide)) (by decide)
    (by decide) rfl rfl hdata (Or.inl rfl) hidx hside fun h => absurd h (by decide)).mp hopen
  · have := hbinds.absent 0 2 (by decide) (by decide) (by decide) (by decide)
    exact absurd this (by decide)
  · exact absurd hname (by decide)

/-- The same records as the whole of a store: the expert that goes is the one that is named. -/
theorem compacted_opens_iff_twoExperts :
    (kvlExpertStoreOpen (pairEnv 2) ([] ++ [115, 46, 105, 100, 120]) true none).rc = 0 := by
  have hread : readIndexQ8 (pairIdx 2) = some (pairMeta 2) :=
    readIndexQ8_encode (pairMeta_ok (by decide))
  have hdata : ∀ b, 0 ≤ (pairEnv 2).openData b := fun _ => Int.natCast_nonneg 3
  have hidx : (pairEnv 2).files ([] ++ [115, 46, 105, 100, 120]) = some (pairOut 2).idx := rfl
  have hside : (pairEnv 2).files (maskSidecarPath [] [115, 46, 105, 100, 120]) =
      some (pairOut 2).sidecar := rfl
  apply (compacted_opens_iff (@pair_compacted 2 (by decide) false) rfl rfl hdata (Or.inl rfl) hidx
    hside fun h => absurd h (by decide)).mpr
  refine ⟨pairMeta 2, [(0, 1)], hread, pairMask_read, by decide, Or.inl ⟨by decide, ?_⟩⟩
  have hkept : keptIds (pairMeta 2) [(0, 1)] = [(0, 0)] := by decide
  refine ⟨fun _ _ => Nat.zero_le _, ?_, by decide, ?_⟩
  · intro layer expert _ hl he habsent
    have hids : (pairMeta 2).ids = [(0, 0), (0, 1)] := rfl
    have hl : layer < 1 := hl
    have he : expert < 2 := he
    rw [hids] at habsent
    interval_cases layer
    interval_cases expert <;> simp at habsent
  · intro i key hi _
    have := (List.getElem?_eq_some_iff.mp hi).1
    rw [hkept, List.length_singleton] at this
    omega

end Kvl.Compact
