import Kvl.Cache.Calls

/-!
# Histories of cache calls

The invariant in the terms of the interface, with no open reservations in
sight. What a complete read delivers is described by two functions: `bytes r`
are the bytes of record `r`, and `view r m` is the part of a slot's memory `m`
that record `r` occupies.
-/

namespace Kvl

set_option autoImplicit false

variable {B D : Type*}

/-- The tables, the records and the slot memory agree, and nothing is in flight. -/
structure Coherent (s : ExpertStore) (view : Nat → B → D) (bytes : Nat → D)
    (c : ExpertCache B) : Prop where
  inverse : ∀ k i, c.slotOf k = some i ↔ c.keyOf i = .key k
  slot_lt : ∀ k i, c.slotOf k = some i → i < c.nSlots
  settled : ∀ i, c.keyOf i ≠ .inflight
  holds : ∀ i k, c.keyOf i = .key k → ∃ layer expert r, keyFor s layer expert = some k ∧
    kvlExpertFind s layer expert = some r ∧ c.recordOfSlot i = some r ∧
    view r (c.arena i) = bytes r

/-- What one call returns and leaves behind, on top of a coherent cache. -/
structure Settled (s : ExpertStore) (c : ExpertCache B) (res : CallResult B) : Prop where
  failed : ∀ rd ∈ res.reads, rd.ok = false →
    res.cache.keyOf rd.slot = .empty ∧ ∀ k, res.cache.slotOf k ≠ some rd.slot
  lost : (lostKeys s c res.cache).card ≤ res.reads.length

/-- A returned view names the record of its ids, and its slot holds that record's bytes. -/
def HandsBack (s : ExpertStore) (view : Nat → B → D) (bytes : Nat → D) (layer expert : Int)
    (res : CallResult B) : Prop :=
  ∃ slot r, kvlExpertFind s layer expert = some r ∧ res.out = some (publishOut s slot r) ∧
    slot < res.cache.nSlots ∧ view r (res.cache.arena slot) = bytes r

variable {s : ExpertStore} {load : Nat → B → B} {view : Nat → B → D} {bytes : Nat → D}

theorem Delivered.view_eq (hload : ∀ r old, view r (load r old) = bytes r) {r : Nat} {m : B}
    (hd : Delivered load r m) : view r m = bytes r := by
  obtain ⟨old, rfl⟩ := hd
  exact hload r old

theorem RepInv.coherent (hload : ∀ r old, view r (load r old) = bytes r) {c : ExpertCache B}
    (h : RepInv s load c) : Coherent s view bytes c where
  inverse _ _ := h.slotOf_eq_some
  slot_lt k i hi := by
    have hk := h.slotOf_eq_some.mp hi
    exact h.bounded i (by simp [hk])
  settled i hi := by
    have := (h.flight i).mp hi
    simp at this
  holds i k hk := by
    obtain ⟨r, hr, hrec, hd⟩ := h.holds i k hk
    obtain ⟨layer, expert, hkey⟩ := hr.key
    refine ⟨layer, expert, r, hkey, ?_, hrec, hd.view_eq hload⟩
    rw [kvlExpertFind_of_keyFor hkey]
    exact hr.record

theorem CallSpec.settled {c : ExpertCache B} {res : CallResult B} (h : CallSpec s load c res) :
    Settled s c res where
  failed rd hrd hfail := by
    have hempty := h.failed rd hrd hfail
    refine ⟨hempty, fun k hk => ?_⟩
    have := h.inv.slotOf_eq_some.mp hk
    rw [hempty] at this
    simp at this
  lost := h.lost

theorem get_handsBack (hload : ∀ r old, view r (load r old) = bytes r) {c : ExpertCache B}
    (h : RepInv s load c) {layer expert : Int} {read : ReadResult B}
    (hrc : (kvlExpertCacheGet s load c layer expert read).rc = 0) :
    HandsBack s view bytes layer expert (kvlExpertCacheGet s load c layer expert read) := by
  obtain ⟨key, slot, r, hkey, hout, hs⟩ := get_ok h hrc
  refine ⟨slot, r, ?_, hout, hs.slot_lt, hs.bytes.view_eq hload⟩
  rw [kvlExpertFind_of_keyFor hkey]
  exact hs.loadable.record

/-- Every call of every history leaves the cache coherent, its failed reads
unreachable and at most one key lost per read, and a `get` that succeeds hands
back what was asked for. -/
theorem kvlExpertCache_coherent (hload : ∀ r old, view r (load r old) = bytes r)
    {arena : Nat → B} {budget : UInt64} {allocOk : Bool} {c₀ : ExpertCache B}
    (hinit : kvlExpertCacheInit s arena budget allocOk = .ok c₀) (ops : List (CacheOp s B)) :
    Coherent s view bytes (run s load c₀ ops) ∧
      ∀ op : CacheOp s B,
        Coherent s view bytes (step s load (run s load c₀ ops) op).cache ∧
        Settled s (run s load c₀ ops) (step s load (run s load c₀ ops) op) ∧
        ∀ layer expert read, op = .get layer expert read →
          (step s load (run s load c₀ ops) op).rc = 0 →
          HandsBack s view bytes layer expert (step s load (run s load c₀ ops) op) := by
  have hinv := run_inv (init_inv load hinit) ops
  refine ⟨hinv.coherent hload, fun op => ?_⟩
  have hspec := step_spec hinv op
  refine ⟨hspec.inv.coherent hload, hspec.settled, ?_⟩
  rintro layer expert read rfl hrc
  exact get_handsBack hload hinv hrc

/-- One routed layer with two experts, each a page long. -/
def twoExperts : ExpertStore where
  fd := 3
  directIo := false
  hdr := ⟨expertMagic, expertVersion, 4096, 2, 2, 2, dtypeQ8Row, 48, 8192⟩
  records := [⟨1, 0, 0, 4096, 4000, 0, 1000, 1000, 1000, 2000, 2000⟩,
    ⟨1, 1, 4096, 4096, 4000, 0, 1000, 1000, 1000, 2000, 2000⟩]
  ggufQ8Sources := none
  recordOf k := if k = 2 then 0 else if k = 3 then 1 else -1

theorem twoExperts_init : kvlExpertCacheInit twoExperts (fun _ => (7 : Nat)) 5000 true =
    .ok (emptyCache (fun _ => 7) 5000 4096 1) := by
  have hmax : maxReadBytes twoExperts = 4096 := by decide +kernel
  have halign : alignUpSize 4096 expertAlign = 4096 := by decide +kernel
  have hfd : 0 ≤ twoExperts.fd := by decide
  have hslots : cInt (5000 / 4096) = 1 := by decide
  simp [kvlExpertCacheInit, hfd, hmax, halign, hslots]

/-- One slot, whose memory is a record number: a load, a failed load and a retry. -/
theorem kvlExpertCache_coherent_twoExperts :
    Coherent twoExperts (fun _ m => m) (fun r => r)
      (run twoExperts (fun r _ => r) (emptyCache (fun _ => 7) 5000 4096 1)
        [.get 1 0 .delivered, .get 1 1 (.failed 9), .get 1 1 .delivered]) :=
  (@kvlExpertCache_coherent Nat Nat twoExperts (fun r _ => r) (fun _ m => m) (fun r => r)
    (fun _ _ => rfl) _ _ _ _ twoExperts_init _).1

end Kvl
