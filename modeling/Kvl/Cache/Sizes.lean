import Kvl.Cache.Packed
import Kvl.Store.Open

/-!
# Sizes that come from the index

The products and round-ups of header and record fields that decide how much is
allocated: `record_of` in `read_index`, and the slots and the arena of a cache.
All of them are computed in a `size_t` of 64 bits, and the slot count in an `int`.
-/

namespace Kvl

set_option autoImplicit false

/-- The bytes that `read_index` allocates for `record_of`. -/
def recordOfBytes (s : ExpertStore) : Nat := s.nLayers * s.nExperts % 2 ^ 64 * 4 % 2 ^ 64

/-- The bytes of `record_of` that `read_index` then writes. -/
def recordOfWritten (s : ExpertStore) : Nat := s.mapN * 4

theorem mapN_lt (s : ExpertStore) : s.mapN < 2 ^ 64 := by
  have hl : s.nLayers < 2 ^ 32 := s.hdr.nLayers.toNat_lt
  have he : s.nExperts < 2 ^ 32 := s.hdr.nExperts.toNat_lt
  calc s.nLayers * s.nExperts < 2 ^ 32 * 2 ^ 32 := Nat.mul_lt_mul'' hl he
    _ = 2 ^ 64 := by norm_num

theorem recordOf_covered_iff (s : ExpertStore) :
    recordOfWritten s ≤ recordOfBytes s ↔ s.mapN < 2 ^ 62 := by
  have hlt := mapN_lt s
  unfold recordOfWritten recordOfBytes
  change s.mapN * 4 ≤ s.mapN % 2 ^ 64 * 4 % 2 ^ 64 ↔ _
  rw [Nat.mod_eq_of_lt hlt]
  omega

/-! ### Slots -/

variable {s : ExpertStore}

/-- `budget / slot_bytes` before it is converted. -/
def slotQuotient (s : ExpertStore) (budget : UInt64) : Nat :=
  budget.toNat / alignUpSize (maxReadBytes s) expertAlign

/-- The slots of a budget, as `int` keeps them. -/
def slotCount (s : ExpertStore) (budget : UInt64) : Nat := slotQuotient s budget % 2 ^ 32

theorem one_le_cInt_iff (n : Nat) : 1 ≤ cInt n ↔ 1 ≤ n % 2 ^ 32 ∧ n % 2 ^ 32 < 2 ^ 31 := by
  unfold cInt
  rw [Int.bmod_def]
  split <;> omega

theorem cInt_toNat_of_pos {n : Nat} (h : 1 ≤ cInt n) : (cInt n).toNat = n % 2 ^ 32 := by
  unfold cInt at h ⊢
  rw [Int.bmod_def] at h ⊢
  split at h <;> split <;> omega

variable {B : Type*}

theorem init_nSlots {arena : Nat → B} {budget : UInt64} {allocOk : Bool} {c : ExpertCache B}
    (h : kvlExpertCacheInit s arena budget allocOk = .ok c) : c.nSlots = slotCount s budget := by
  obtain ⟨hc, -, -, -, hpos⟩ := init_ok h
  have hslots : c.nSlots =
      (cInt (budget.toNat / alignUpSize (maxReadBytes s) expertAlign)).toNat := by
    rw [hc, emptyCache]
  rw [hslots, cInt_toNat_of_pos hpos, slotCount, slotQuotient]

theorem init_slotBytes {arena : Nat → B} {budget : UInt64} {allocOk : Bool} {c : ExpertCache B}
    (h : kvlExpertCacheInit s arena budget allocOk = .ok c) :
    c.slotBytes = alignUpSize (maxReadBytes s) expertAlign := by
  rw [(init_ok h).1, emptyCache]

theorem alignUpSize_eq_zero_iff {n : Nat} (hpos : 0 < n) (hlt : n < 2 ^ 64) :
    alignUpSize n expertAlign = 0 ↔ 2 ^ 64 - 4096 < n := by
  unfold alignUpSize expertAlign
  omega

/-- A slot takes every record of the index. -/
theorem init_fits {arena : Nat → B} {budget : UInt64} {allocOk : Bool} {c : ExpertCache B}
    (h : kvlExpertCacheInit s arena budget allocOk = .ok c) {r : Nat}
    (hr : r < s.hdr.nRecords.toNat) : (s.record r).readBytes.toNat ≤ c.slotBytes := by
  obtain ⟨-, -, -, hslot, -⟩ := init_ok h
  rw [init_slotBytes h]
  exact (readBytes_le_max hr).trans (le_alignUpSize (maxReadBytes_lt s) hslot)

/-! ### What an accepted index leads to -/

/-- The sizes of a cache that was set up from the index of `s`. -/
structure InitSizes (s : ExpertStore) (budget : UInt64) (c : ExpertCache B) : Prop where
  slot_pos : 0 < c.slotBytes
  slot_aligned : 4096 ∣ c.slotBytes
  fits : ∀ r < s.hdr.nRecords.toNat, (s.record r).readBytes.toNat ≤ c.slotBytes
  slots : c.nSlots = budget.toNat / c.slotBytes
  arena : c.arenaBytes = c.nSlots * c.slotBytes
  inBudget : c.arenaBytes ≤ budget.toNat

variable (B) in
structure SizingSafe (s : ExpertStore) (budget : UInt64) : Prop where
  recordOf : recordOfWritten s ≤ recordOfBytes s
  divides : ∀ (arena : Nat → B) (allocOk : Bool), kvlExpertCacheInit s arena budget allocOk ≠ .trap
  sizes : ∀ (arena : Nat → B) (allocOk : Bool) (c : ExpertCache B),
    kvlExpertCacheInit s arena budget allocOk = .ok c → InitSizes s budget c

/-- No product and no round-up wraps, and `int` keeps the slot count or makes it
a count that is refused. -/
structure SizesFit (s : ExpertStore) (budget : UInt64) : Prop where
  recordOf : s.mapN < 2 ^ 62
  slot : maxReadBytes s ≤ 2 ^ 64 - 4096
  slots : maxReadBytes s = 0 ∨ slotQuotient s budget < 2 ^ 31 ∨ slotCount s budget = 0 ∨
    2 ^ 31 ≤ slotCount s budget

theorem init_arena {arena : Nat → B} {budget : UInt64} {allocOk : Bool} {c : ExpertCache B}
    (h : kvlExpertCacheInit s arena budget allocOk = .ok c) :
    c.arenaBytes = c.nSlots * c.slotBytes ∧ c.arenaBytes ≤ budget.toNat := by
  obtain ⟨hc, -, -, -, hpos⟩ := init_ok h
  have hlt := budget.toNat_lt
  have hle : c.nSlots * c.slotBytes ≤ budget.toNat := by
    rw [init_nSlots h, init_slotBytes h]
    calc slotCount s budget * alignUpSize (maxReadBytes s) expertAlign
        ≤ slotQuotient s budget * alignUpSize (maxReadBytes s) expertAlign :=
          Nat.mul_le_mul_right _ (Nat.mod_le _ _)
      _ ≤ budget.toNat := Nat.div_mul_le_self _ _
  have harena : c.arenaBytes = c.nSlots * c.slotBytes % 2 ^ 64 := by
    rw [hc, emptyCache]
  rw [harena, Nat.mod_eq_of_lt (by omega)]
  exact ⟨rfl, hle⟩

/-- The outcome of a setup whose slot count is a positive `int`. -/
theorem init_eq_ok (hfd : 0 ≤ s.fd) {budget : UInt64} (hbudget : budget ≠ 0) (arena : Nat → B)
    (hmax : maxReadBytes s ≠ 0) (hslot : alignUpSize (maxReadBytes s) expertAlign ≠ 0)
    (hcount : 1 ≤ cInt (slotQuotient s budget)) :
    ∃ c, kvlExpertCacheInit s arena budget true = .ok c := by
  have hrefused : ¬ (s.fd < 0 ∨ budget = 0) := by
    rintro (h | h)
    · omega
    · exact hbudget h
  unfold slotQuotient at hcount
  have hfits : ¬ (cInt (budget.toNat / alignUpSize (maxReadBytes s) expertAlign)).toNat *
      alignUpSize (maxReadBytes s) expertAlign % 2 ^ 64 > budget.toNat := by
    rw [cInt_toNat_of_pos hcount]
    have hle : budget.toNat / alignUpSize (maxReadBytes s) expertAlign % 2 ^ 32 *
        alignUpSize (maxReadBytes s) expertAlign ≤ budget.toNat :=
      (Nat.mul_le_mul_right _ (Nat.mod_le _ _)).trans (Nat.div_mul_le_self _ _)
    exact Nat.not_lt.mpr ((Nat.mod_le _ _).trans hle)
  unfold kvlExpertCacheInit
  rw [if_neg hrefused, if_neg hmax]
  dsimp only
  rw [if_neg hslot, if_neg (Int.not_lt.mpr hcount), if_neg hfits]
  exact ⟨_, rfl⟩

theorem init_trap_iff (hfd : 0 ≤ s.fd) {budget : UInt64} (hbudget : budget ≠ 0)
    (arena : Nat → B) (allocOk : Bool) :
    kvlExpertCacheInit s arena budget allocOk = .trap ↔ 2 ^ 64 - 4096 < maxReadBytes s := by
  have hrefused : ¬ (s.fd < 0 ∨ budget = 0) := by
    rintro (h | h)
    · omega
    · exact hbudget h
  have hlt := maxReadBytes_lt s
  unfold kvlExpertCacheInit
  rw [if_neg hrefused]
  by_cases hmax : maxReadBytes s = 0
  · rw [if_pos hmax, hmax]
    simp
  · rw [if_neg hmax]
    dsimp only
    by_cases hslot : alignUpSize (maxReadBytes s) expertAlign = 0
    · rw [if_pos hslot]
      have hbig := (alignUpSize_eq_zero_iff (Nat.pos_of_ne_zero hmax) hlt).mp hslot
      exact iff_of_true rfl hbig
    · rw [if_neg hslot]
      have hsmall : ¬ 2 ^ 64 - 4096 < maxReadBytes s := fun h =>
        hslot ((alignUpSize_eq_zero_iff (Nat.pos_of_ne_zero hmax) hlt).mpr h)
      constructor
      · intro htrap
        split_ifs at htrap
      · intro h
        exact absurd h hsmall

/-- A setup keeps the whole slot count, or the count is one that `int` cannot keep. -/
theorem slots_eq_iff {arena : Nat → B} {budget : UInt64} {allocOk : Bool} {c : ExpertCache B}
    (h : kvlExpertCacheInit s arena budget allocOk = .ok c) :
    c.nSlots = budget.toNat / c.slotBytes ↔ slotQuotient s budget < 2 ^ 32 := by
  rw [init_nSlots h, init_slotBytes h]
  change slotQuotient s budget % 2 ^ 32 = slotQuotient s budget ↔ _
  omega

/-- Exactly when the sizes of an index are safe, whatever its fields are. -/
theorem sizing_safe_iff [Inhabited B] (hfd : 0 ≤ s.fd) {budget : UInt64} (hbudget : budget ≠ 0) :
    SizingSafe B s budget ↔ SizesFit s budget := by
  constructor
  · intro hsafe
    have hslot : maxReadBytes s ≤ 2 ^ 64 - 4096 := by
      by_contra hbig
      exact hsafe.divides (fun _ => (default : B)) true
        ((init_trap_iff hfd hbudget _ _).mpr (Nat.lt_of_not_le hbig))
    refine ⟨(recordOf_covered_iff s).mp hsafe.recordOf, hslot, ?_⟩
    by_cases hmax : maxReadBytes s = 0
    · exact .inl hmax
    by_cases hcount : 1 ≤ slotCount s budget ∧ slotCount s budget < 2 ^ 31
    · have halign : alignUpSize (maxReadBytes s) expertAlign ≠ 0 := fun hzero => by
        have hbig := (alignUpSize_eq_zero_iff (Nat.pos_of_ne_zero hmax) (maxReadBytes_lt s)).mp hzero
        omega
      obtain ⟨c, hc⟩ := init_eq_ok hfd hbudget (fun _ => (default : B)) hmax halign
        ((one_le_cInt_iff _).mpr hcount)
      have hwhole := (slots_eq_iff hc).mp (hsafe.sizes _ _ c hc).slots
      unfold slotCount at hcount
      omega
    · omega
  · intro hfit
    refine ⟨(recordOf_covered_iff s).mpr hfit.recordOf, ?_, ?_⟩
    · intro arena allocOk htrap
      have hbig := (init_trap_iff hfd hbudget arena allocOk).mp htrap
      have hslot := hfit.slot
      omega
    · intro arena allocOk c hc
      obtain ⟨-, -, hmax, halign, hpos⟩ := init_ok hc
      obtain ⟨harena, hin⟩ := init_arena hc
      have hcount := (one_le_cInt_iff _).mp hpos
      change 1 ≤ slotCount s budget ∧ slotCount s budget < 2 ^ 31 at hcount
      have hslots := hfit.slots
      refine ⟨?_, ?_, fun r hr => init_fits hc hr, (slots_eq_iff hc).mpr (by omega), harena, hin⟩
      · rw [init_slotBytes hc]
        exact Nat.pos_of_ne_zero halign
      · rw [init_slotBytes hc]
        exact Nat.dvd_mul_left _ _

/-- The index of one page and a budget of one slot. -/
theorem sizing_safe_iff_sparse :
    SizingSafe Unit { sparseStore with fd := 3 } 4096 ↔ SizesFit { sparseStore with fd := 3 } 4096 :=
  sizing_safe_iff (by decide) (by decide)

/-- With `2 ^ 32 + 1` pages of budget the slot count becomes 1. -/
theorem sizing_not_safe : ¬ ∀ (file : Bytes) (s : ExpertStore) (fd : Int) (budget : UInt64),
    readIndex file true = some s → 0 ≤ fd → budget ≠ 0 →
      SizingSafe Unit { s with fd := fd } budget := by
  intro hall
  have hsafe := hall sparseIndex sparseStore 3 17592186048512 readIndex_sparse (by decide)
    (by decide)
  have hmax : maxReadBytes { sparseStore with fd := 3 } = 4096 := by decide +kernel
  have hcount : 1 ≤ cInt (slotQuotient { sparseStore with fd := 3 } 17592186048512) := by
    decide +kernel
  have halign : alignUpSize (maxReadBytes { sparseStore with fd := 3 }) expertAlign ≠ 0 := by
    decide +kernel
  obtain ⟨c, hc⟩ := @init_eq_ok { sparseStore with fd := 3 } Unit (by decide) 17592186048512
    (by decide) (fun _ => ()) (by rw [hmax]; decide) halign hcount
  have hwhole := (slots_eq_iff hc).mp (hsafe.sizes _ _ c hc).slots
  revert hwhole
  decide +kernel

end Kvl
