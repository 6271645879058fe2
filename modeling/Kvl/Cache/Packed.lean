import Kvl.Cache.Calls
import Kvl.Store.Index

/-!
# The matrices of a packed record

The index reader checks the part offsets of a GGUF record and of no other. For
a packed store the three ranges of a record reach the matvec kernels as they
stand in the file, so they stay inside the slot exactly when the file says so.
-/

namespace Kvl

set_option autoImplicit false

/-- The bytes `[off, off + bytes)`, as integers. -/
def span (off bytes : UInt64) : Set Nat := Set.Ico off.toNat (off.toNat + bytes.toNat)

/-- The three matrices of a record lie in the first `n` bytes. -/
structure MatricesInside (r : ExpertRecord) (n : Nat) : Prop where
  gate : span r.gateOff r.gateBytes ⊆ Set.Ico 0 n
  up : span r.upOff r.upBytes ⊆ Set.Ico 0 n
  down : span r.downOff r.downBytes ⊆ Set.Ico 0 n

/-- The store after its data file has been opened. -/
def ExpertStore.opened (s : ExpertStore) (fd : Int) (directIo : Bool) : ExpertStore :=
  { s with fd := fd, directIo := directIo }

/-- Whatever the cache and its history, a `get` that succeeds returns a record
whose matrices lie in its `read_bytes` and in a slot. -/
def GetsStayInside (s : ExpertStore) : Prop :=
  ∀ (B : Type) (load : Nat → B → B) (arena : Nat → B) (budget : UInt64) (allocOk : Bool)
    (c₀ : ExpertCache B), kvlExpertCacheInit s arena budget allocOk = .ok c₀ →
    ∀ (ops : List (CacheOp s B)) (layer expert : Int) (read : ReadResult B),
      (kvlExpertCacheGet s load (run s load c₀ ops) layer expert read).rc = 0 →
      ∃ v, (kvlExpertCacheGet s load (run s load c₀ ops) layer expert read).out = some v ∧
        MatricesInside (s.record v.record) (s.record v.record).readBytes.toNat ∧
        MatricesInside (s.record v.record)
          (kvlExpertCacheGet s load (run s load c₀ ops) layer expert read).cache.slotBytes

/-- No cache can be set up: there is nothing to read, or one slot rounds up past `size_t`. -/
def NoCache (s : ExpertStore) : Prop :=
  maxReadBytes s = 0 ∨ alignUpSize (maxReadBytes s) expertAlign = 0

def partFits (off bytes readBytes : UInt64) : Prop :=
  bytes = 0 ∨ off.toNat + bytes.toNat ≤ readBytes.toNat

def recordFits (r : ExpertRecord) : Prop :=
  partFits r.gateOff r.gateBytes r.readBytes ∧ partFits r.upOff r.upBytes r.readBytes ∧
    partFits r.downOff r.downBytes r.readBytes

/-- Every record that some pair of ids leads to has its parts inside `read_bytes`. -/
def AddressableFit (s : ExpertStore) : Prop :=
  ∀ layer expert key r, keyFor s layer expert = some key → s.recordAt key = some r →
    recordFits (s.record r)

theorem span_subset_iff {off bytes readBytes : UInt64} :
    span off bytes ⊆ Set.Ico 0 readBytes.toNat ↔ partFits off bytes readBytes := by
  unfold span partFits
  by_cases hb : bytes = 0
  · simp [hb]
  · have hpos : 0 < bytes.toNat := by
      rw [Nat.pos_iff_ne_zero]
      exact fun h => hb (UInt64.toNat_inj.mp h)
    simp only [hb, false_or]
    constructor
    · intro h
      have hlast := h (show off.toNat + bytes.toNat - 1 ∈ _ from ⟨by omega, by omega⟩)
      have := hlast.2
      omega
    · intro h x hx
      have := hx.2
      exact ⟨Nat.zero_le x, by omega⟩

theorem matricesInside_iff {r : ExpertRecord} :
    MatricesInside r r.readBytes.toNat ↔ recordFits r := by
  constructor
  · intro h
    exact ⟨span_subset_iff.mp h.gate, span_subset_iff.mp h.up, span_subset_iff.mp h.down⟩
  · rintro ⟨hg, hu, hd⟩
    exact ⟨span_subset_iff.mpr hg, span_subset_iff.mpr hu, span_subset_iff.mpr hd⟩

theorem MatricesInside.mono {r : ExpertRecord} {m n : Nat} (h : MatricesInside r m) (hmn : m ≤ n) :
    MatricesInside r n := by
  have hsub : Set.Ico 0 m ⊆ Set.Ico 0 n := Set.Ico_subset_Ico_right hmn
  exact ⟨h.gate.trans hsub, h.up.trans hsub, h.down.trans hsub⟩

section Sizing

theorem foldl_max_le {α : Type*} (f : α → Nat) (l : List α) (start : Nat) :
    start ≤ l.foldl (fun m a => if f a > m then f a else m) start ∧
      ∀ a ∈ l, f a ≤ l.foldl (fun m a => if f a > m then f a else m) start := by
  induction l generalizing start with
  | nil => simp
  | cons b l ih =>
    obtain ⟨hnext, hrest⟩ := ih (if f b > start then f b else start)
    have hfirst : start ≤ (if f b > start then f b else start) := by split <;> omega
    have hhead : f b ≤ (if f b > start then f b else start) := by split <;> omega
    refine ⟨hfirst.trans hnext, ?_⟩
    intro a ha
    rcases List.mem_cons.mp ha with rfl | ha
    · exact hhead.trans hnext
    · exact hrest a ha

theorem readBytes_le_max {s : ExpertStore} {i : Nat} (hi : i < s.hdr.nRecords.toNat) :
    (s.record i).readBytes.toNat ≤ maxReadBytes s :=
  (foldl_max_le (fun i => (s.record i).readBytes.toNat) _ 0).2 i (List.mem_range.mpr hi)

theorem foldl_max_lt {α : Type*} (f : α → Nat) {bound : Nat} (l : List α) (start : Nat)
    (hstart : start < bound) (hf : ∀ a, f a < bound) :
    l.foldl (fun m a => if f a > m then f a else m) start < bound := by
  induction l generalizing start with
  | nil => exact hstart
  | cons b l ih =>
    apply ih
    dsimp only
    split
    · exact hf b
    · exact hstart

theorem maxReadBytes_lt (s : ExpertStore) : maxReadBytes s < 2 ^ 64 :=
  foldl_max_lt _ _ 0 (by norm_num) fun i => (s.record i).readBytes.toNat_lt

theorem alignUpSize_lt (x : Nat) : alignUpSize x expertAlign < 2 ^ 64 := by
  unfold alignUpSize expertAlign
  omega

/-- Rounding up either wraps to zero or is at least what was rounded. -/
theorem le_alignUpSize {x : Nat} (hx : x < 2 ^ 64) (h : alignUpSize x expertAlign ≠ 0) :
    x ≤ alignUpSize x expertAlign := by
  unfold alignUpSize expertAlign at h ⊢
  omega

/-- A budget of exactly one slot is enough for a cache. -/
theorem init_oneSlot {B : Type*} {s : ExpertStore} (hfd : 0 ≤ s.fd) (h : ¬ NoCache s)
    (arena : Nat → B) :
    kvlExpertCacheInit s arena (UInt64.ofNat (alignUpSize (maxReadBytes s) expertAlign)) true =
      .ok (emptyCache arena (alignUpSize (maxReadBytes s) expertAlign)
        (alignUpSize (maxReadBytes s) expertAlign) 1) := by
  obtain ⟨hmax, halign⟩ := not_or.mp h
  have hlt := alignUpSize_lt (maxReadBytes s)
  unfold kvlExpertCacheInit
  generalize alignUpSize (maxReadBytes s) expertAlign = slot at *
  have hnat : (UInt64.ofNat slot).toNat = slot := by
    rw [UInt64.toNat_ofNat']
    exact Nat.mod_eq_of_lt hlt
  have hbudget : UInt64.ofNat slot ≠ 0 := by
    intro he
    rw [he] at hnat
    exact halign hnat.symm
  have hone : cInt (slot / slot) = 1 := by
    rw [Nat.div_self (Nat.pos_of_ne_zero halign)]
    decide
  rw [if_neg (not_or.mpr ⟨by omega, hbudget⟩), if_neg hmax]
  simp [hnat, hone, halign, Nat.mod_le]

end Sizing

/-- On an empty cache with a slot large enough, a complete read of a present expert succeeds. -/
theorem get_emptyCache {B : Type*} {s : ExpertStore} (load : Nat → B → B) (arena : Nat → B)
    {slotBytes : Nat} {layer expert : Int} {key r : Nat} (hkey : keyFor s layer expert = some key)
    (hrec : s.recordAt key = some r) (hfits : (s.record r).readBytes.toNat ≤ slotBytes) :
    (kvlExpertCacheGet s load (emptyCache arena slotBytes slotBytes 1) layer expert .delivered).rc
        = 0 ∧
      (kvlExpertCacheGet s load (emptyCache arena slotBytes slotBytes 1) layer expert
        .delivered).out = some (publishOut s 0 r) := by
  have hslot : (emptyCache arena slotBytes slotBytes 1).pickVictim [] = some 0 := rfl
  have habs : residentSlot (emptyCache arena slotBytes slotBytes 1) key = none := rfl
  have hcase := get_cases s load (emptyCache arena slotBytes slotBytes 1) layer expert .delivered
  generalize kvlExpertCacheGet s load (emptyCache arena slotBytes slotBytes 1) layer expert
    .delivered = res at hcase ⊢
  cases hcase with
  | rejected hnone => simp [hkey] at hnone
  | hit hkey' hres => simp [residentSlot, emptyCache] at hres
  | refused hkey' _ hwhy =>
    obtain rfl := Option.some.inj (hkey.symm.trans hkey')
    rcases hwhy r hrec with hbig | hnone
    · exact absurd hfits (Nat.not_le_of_gt hbig)
    · simp [hslot] at hnone
  | missed hkey' _ hrec' _ hpick =>
    obtain rfl := Option.some.inj (hkey.symm.trans hkey')
    obtain rfl := Option.some.inj (hrec.symm.trans hrec')
    obtain rfl := Option.some.inj (hslot.symm.trans hpick)
    exact ⟨rfl, rfl⟩

theorem IndexOk.recordAt_lt {s : ExpertStore} (h : IndexOk s) {k r : Nat}
    (hr : s.recordAt k = some r) : r < s.hdr.nRecords.toNat := by
  unfold ExpertStore.recordAt at hr
  split at hr
  · simp at hr
  · rename_i hpos
    obtain ⟨i, x, hx, hi, _⟩ := h.table.entry k (Int.not_lt.mp hpos)
    have hlt := (List.getElem?_eq_some_iff.mp hx).1
    rw [hi, Option.some.injEq, Int.toNat_natCast] at hr
    rw [← hr, ← h.length]
    exact hlt

theorem IndexOk.opened {s : ExpertStore} (h : IndexOk s) (fd : Int) (directIo : Bool) :
    IndexOk (s.opened fd directIo) :=
  ⟨h.magic, h.version, h.align, h.nonempty, h.length, h.packed, h.gguf, h.table⟩

theorem getsStayInside_iff {s : ExpertStore} (h : IndexOk s) (hfd : 0 ≤ s.fd) :
    GetsStayInside s ↔ NoCache s ∨ AddressableFit s := by
  constructor
  · intro hsafe
    by_contra hno
    obtain ⟨hcache, hfit⟩ := not_or.mp hno
    apply hfit
    intro layer expert key r hkey hrec
    have hmax := readBytes_le_max (h.recordAt_lt hrec)
    have hround := le_alignUpSize (maxReadBytes_lt s) (not_or.mp hcache).2
    obtain ⟨hrc, hout⟩ := get_emptyCache (fun _ (m : Unit) => m) (fun _ => ()) hkey hrec
      (hmax.trans hround)
    obtain ⟨v, hv, hin, _⟩ := hsafe Unit _ _ _ _ _ (init_oneSlot hfd hcache fun _ => ()) []
      layer expert .delivered hrc
    obtain rfl := Option.some.inj (hout.symm.trans hv)
    exact matricesInside_iff.mp hin
  · intro hwhen B load arena budget allocOk c₀ hinit ops layer expert read hrc
    have hfit : AddressableFit s := by
      rcases hwhen with hcache | hfit
      · obtain ⟨_, _, hmax, halign, _⟩ := init_ok hinit
        exact absurd hcache (not_or.mpr ⟨hmax, halign⟩)
      · exact hfit
    obtain ⟨key, slot, r, hkey, hout, hs⟩ := get_ok (run_inv (init_inv load hinit) ops) hrc
    have hin := matricesInside_iff.mpr (hfit layer expert key r hkey hs.loadable.record)
    exact ⟨publishOut s slot r, hout, hin, hin.mono hs.loadable.fits⟩

/-- For an accepted packed index the returned matrices stay inside exactly when
no cache fits it or every addressable record keeps its parts inside `read_bytes`. -/
theorem readIndex_getsStayInside_iff {file : Bytes} {allocOk : Bool} {s : ExpertStore}
    (hread : readIndex file allocOk = some s) {fd : Int} (hfd : 0 ≤ fd) (directIo : Bool) :
    GetsStayInside (s.opened fd directIo) ↔
      NoCache (s.opened fd directIo) ∨ AddressableFit (s.opened fd directIo) :=
  getsStayInside_iff ((readIndex_ok hread).opened fd directIo) hfd

/-- One expert of one page, whose gate matrix is said to start at `gateOff`. -/
def oneExpertIndex (gateOff : Nat) : Bytes :=
  expertMagic ++ toLE 4 1 ++ toLE 4 4096 ++ toLE 4 1 ++ toLE 4 1 ++ toLE 4 1 ++ toLE 4 1 ++
    toLE 8 48 ++ toLE 8 4096 ++
    toLE 4 0 ++ toLE 4 0 ++ toLE 8 0 ++ toLE 8 4096 ++ toLE 8 3000 ++
    toLE 8 gateOff ++ toLE 8 1000 ++ toLE 8 1000 ++ toLE 8 1000 ++ toLE 8 2000 ++ toLE 8 1000

def oneExpertHeader : ExpertIndexHeader := ⟨expertMagic, 1, 4096, 1, 1, 1, dtypeBF16, 48, 4096⟩

def oneExpertStore (gateOff : UInt64) : ExpertStore where
  fd := -1
  directIo := false
  hdr := oneExpertHeader
  records := [⟨0, 0, 0, 4096, 3000, gateOff, 1000, 1000, 1000, 2000, 1000⟩]
  ggufQ8Sources := none
  recordOf := Function.update (fun _ => -1) 0 0

theorem oneExpert_table (gateOff : UInt64) :
    enterRecords oneExpertHeader (oneExpertStore gateOff).records 0 (fun _ => -1) =
      some (oneExpertStore gateOff).recordOf := by
  simp only [oneExpertStore, enterRecords, enterRecord]
  rw [if_neg (by decide), if_neg (by decide)]
  rfl

theorem readIndex_oneExpert_inside :
    readIndex (oneExpertIndex 0) true = some (oneExpertStore 0) :=
  @readIndex_eq_some _ [] _ _ _ _ (by decide +kernel) (by decide +kernel) (by decide) (by decide)
    (by decide) (by decide +kernel) (if_neg (by decide)) (oneExpert_table 0)

theorem readIndex_oneExpert_outside :
    readIndex (oneExpertIndex 5000) true = some (oneExpertStore 5000) :=
  @readIndex_eq_some _ [] _ _ _ _ (by decide +kernel) (by decide +kernel) (by decide) (by decide)
    (by decide) (by decide +kernel) (if_neg (by decide)) (oneExpert_table 5000)

theorem oneExpert_recordAt (gateOff : UInt64) {k r : Nat}
    (h : (oneExpertStore gateOff).recordAt k = some r) : r = 0 := by
  by_cases hk : k = 0
  · subst k
    simpa [ExpertStore.recordAt, oneExpertStore, eq_comm] using h
  · simp [ExpertStore.recordAt, oneExpertStore, hk] at h

theorem readIndex_getsStayInside_inside :
    GetsStayInside ((oneExpertStore 0).opened 3 false) := by
  apply (readIndex_getsStayInside_iff readIndex_oneExpert_inside (by decide) false).mpr
  right
  intro layer expert key r hkey hrec
  obtain rfl := oneExpert_recordAt 0 hrec
  exact ⟨.inr (by decide), .inr (by decide), .inr (by decide)⟩

/-- The gate matrix starts past the only page the record reads. -/
theorem readIndex_getsStayInside_outside :
    readIndex (oneExpertIndex 5000) true = some (oneExpertStore 5000) ∧
      (oneExpertStore 5000).hdr.dtype ≠ dtypeGgufQ8 ∧
      ¬ GetsStayInside ((oneExpertStore 5000).opened 3 false) := by
  refine ⟨readIndex_oneExpert_outside, by decide, ?_⟩
  rw [getsStayInside_iff ((readIndex_ok readIndex_oneExpert_outside).opened 3 false) (by decide)]
  rintro (hcache | hfit)
  · have hmax : maxReadBytes ((oneExpertStore 5000).opened 3 false) = 4096 := by decide +kernel
    rw [NoCache, hmax] at hcache
    exact absurd hcache (by decide +kernel)
  · have hgate := (hfit 0 0 0 0 (by decide +kernel) (by decide +kernel)).1
    exact absurd hgate (by unfold partFits; decide +kernel)

end Kvl
