import Kvl.Generate.SelfSpec

/-!
# The generator

`main` of the generator reads the ids of the prompt, gives every layer a state with room for the
prompt and the new tokens, prefills the prompt and then samples one token after another. Every
token but the last goes through `forward_token`. Reads and allocations succeed; what `malloc`
returns is arbitrary.
-/

namespace Kvl.Generator

set_option autoImplicit false

def EOS_ID : Int := 163585
def IM_END_ID : Int := 163586

def isStop (token : Int) : Bool := token = EOS_ID ∨ token = IM_END_ID

/-- The doubles of the sampler. -/
structure SampleFloats (F D : Type*) extends MlaFloats F D where
  subD : D → D → D
  expD : D → D
  /-- `>=`. -/
  geD : D → D → Bool
  /-- `(double)` of an unsigned number, by `2^-53`. -/
  unitD : UInt64 → D

def rngNext (s : UInt64) : UInt64 × UInt64 :=
  let x := s
  let x := x ^^^ (x >>> 12)
  let x := x ^^^ (x <<< 25)
  let x := x ^^^ (x >>> 27)
  (x, x * 2685821657736338717)

section
variable {F D : Type*} (fl : SampleFloats F D) (net : Trunk F)

/-- The new generator and `rng_unit`. -/
def rngUnit (s : UInt64) : UInt64 × D :=
  let r := rngNext s
  (r.1, fl.unitD (r.2 >>> 11))

/-- `exp(((double)logits[i] - maxv) / temperature)`. -/
def sampleWeight (logits : Nat → F) (temperature : F) (argmax i : Nat) : D :=
  fl.expD (fl.divD (fl.subD (fl.widen (logits i)) (fl.widen (logits argmax)))
    (fl.widen temperature))

/-- The second loop: the first index at which the weights reach the target. -/
def reach (weight : Nat → D) (target : D) : List Nat → D → Option Nat
  | [], _ => none
  | i :: rest, acc =>
    let acc := fl.addD acc (weight i)
    if fl.geD acc target then some i else reach weight target rest acc

/-- The token and the new generator. -/
def sampleToken (logits : Nat → F) (temperature : F) (rng : UInt64) : Int × UInt64 :=
  let argmax := argmaxLab fl.toMlaFloats net logits
  if fl.gt fl.zero temperature ∨ fl.eq temperature fl.zero then (argmax, rng)
  else
    let weight := sampleWeight fl logits temperature argmax.toNat
    let sum := (List.range net.vocab).foldl (fun sum i => fl.addD sum (weight i)) fl.zeroD
    let unit := rngUnit fl rng
    match reach fl weight (fl.mulD unit.2 sum) (List.range net.vocab) fl.zeroD with
    | some i => (i, unit.1)
    | none => (argmax, unit.1)

/-- The ids that `fscanf` reads, `none` where it reads no number. -/
def readPromptIds (scans : List (Option Int)) : Option (List Int) :=
  match scans.mapM fun scan => scan.bind fun id => if validId net id then some id else none with
  | none => none
  | some ids => if ids.length = 0 then none else some ids

/-- The variables of the main loop. -/
structure GenState (F : Type*) where
  states : MlaStates F
  logits : Nat → F
  rng : UInt64
  generated : Int
  position : Int
  printed : List Int

inductive Turn (F : Type*) where
  | ended (s : GenState F)
  | failed
  | again (s : GenState F)

/-- One turn of the loop, with its test. -/
def loopTurn (mem : Nat → F) (maxNew : Int) (temperature : F) (s : GenState F) : Turn F :=
  if s.generated < maxNew then
    let sample := sampleToken fl net s.logits temperature s.rng
    let token := sample.1
    let s := { s with
      rng := sample.2, generated := s.generated + 1, printed := s.printed ++ [token] }
    if isStop token then .ended s
    else if s.generated = maxNew then .ended s
    else
      match forwardToken fl.toMlaFloats net mem s.states token s.position true s.logits with
      | none => .failed
      | some p => .again { s with states := p.1, logits := p.2, position := s.position + 1 }
  else .ended s

/-- At most `fuel` turns; `none` where a turn fails or these are not enough. -/
def mainLoop (mem : Nat → F) (maxNew : Int) (temperature : F) : Nat → GenState F → Option (GenState F)
  | 0, _ => none
  | fuel + 1, s =>
    match loopTurn fl net mem maxNew temperature s with
    | .ended s => some s
    | .failed => none
    | .again s => mainLoop mem maxNew temperature fuel s

/-- What the prompt leaves for the main loop. -/
def startLoop (mem : Work F) (heads logits : Nat → F) (scans : List (Option Int)) (maxNew : Int)
    (temperature : F) (seed : UInt64) : Option (GenState F) :=
  if maxNew < 1 ∨ fl.gt fl.zero temperature then none
  else
    let rng : UInt64 := if seed = 0 then 0x9e3779b97f4a7c15 else seed
    (readPromptIds net scans).bind fun prompt =>
      let promptN := (prompt.length : Int)
      (initStates fl.toMlaFloats net (promptN + maxNew)).bind fun states =>
        (prefillPrompt fl.toMlaFloats net mem heads states prompt logits).map fun p =>
          ⟨p.1, p.2, rng, 0, promptN, []⟩

/-- `main`, up to the end of its loop. -/
def generate (fuel : Nat) (mem : Work F) (heads attn logits : Nat → F) (scans : List (Option Int))
    (maxNew : Int) (temperature : F) (seed : UInt64) : Option (GenState F) :=
  (startLoop fl net mem heads logits scans maxNew temperature seed).bind
    (mainLoop fl net attn maxNew temperature fuel)

variable {fl net}

/-! ### Sampling -/

theorem reach_mem {weight : Nat → D} {target : D} {ids : List Nat} {acc : D} {i : Nat}
    (h : reach fl weight target ids acc = some i) : i ∈ ids := by
  induction ids generalizing acc with
  | nil => cases h
  | cons first rest ih =>
    rw [reach] at h
    split at h
    · exact Option.some.inj h ▸ List.mem_cons_self
    · exact List.mem_cons_of_mem _ (ih h)

/-- A sampled token has a row in the embeddings. -/
theorem sampleToken_valid (fl : SampleFloats F D) (hvocab : 0 < net.vocab) (logits : Nat → F) (temperature : F)
    (rng : UInt64) : validId net (sampleToken fl net logits temperature rng).1 = true := by
  have hargmax : validId net (argmaxLab fl.toMlaFloats net logits) = true :=
    argmaxLab_valid hvocab logits
  unfold sampleToken
  dsimp only
  split
  · exact hargmax
  · split
    · rename_i i hi
      have hlt := List.mem_range.mp (reach_mem hi)
      show validId net (i : Int) = true
      unfold validId
      rw [decide_eq_true_iff]
      exact ⟨Int.natCast_nonneg i, by exact_mod_cast hlt⟩
    · exact hargmax

theorem readPromptIds_valid {scans : List (Option Int)} {prompt : List Int}
    (h : readPromptIds net scans = some prompt) :
    prompt ≠ [] ∧ ∀ id ∈ prompt, validId net id = true := by
  unfold readPromptIds at h
  split at h
  · cases h
  · rename_i ids hids
    split at h
    · cases h
    · rename_i hlength
      obtain rfl := Option.some.inj h
      refine ⟨fun hnil => hlength (by rw [hnil]; rfl), ?_⟩
      clear h hlength
      induction scans generalizing ids with
      | nil =>
        obtain rfl : [] = ids := Option.some.inj hids
        exact fun id hid => absurd hid List.not_mem_nil
      | cons scan scans ih =>
        rw [List.mapM_cons] at hids
        obtain ⟨first, hfirst, hids⟩ := Option.bind_eq_some_iff.mp hids
        obtain ⟨rest, hrest, hcons⟩ := Option.bind_eq_some_iff.mp hids
        obtain rfl : first :: rest = ids := Option.some.inj hcons
        obtain ⟨id, -, hvalid⟩ := Option.bind_eq_some_iff.mp hfirst
        split at hvalid
        · rename_i hid
          obtain rfl : id = first := Option.some.inj hvalid
          exact List.forall_mem_cons.mpr ⟨hid, ih rest hrest⟩
        · cases hvalid

/-! ### The loop -/

/-- The states that the test of the loop is reached with. -/
inductive LoopHead (fl : SampleFloats F D) (net : Trunk F) (mem : Nat → F) (maxNew : Int)
    (temperature : F) (start : GenState F) : GenState F → Prop where
  | start : LoopHead fl net mem maxNew temperature start start
  | again {s s' : GenState F} : LoopHead fl net mem maxNew temperature start s →
      loopTurn fl net mem maxNew temperature s = .again s' →
      LoopHead fl net mem maxNew temperature start s'

/-- The loop after `generated` tokens of a prompt of `promptN`: none of them stops, and every
layer holds the prompt and these tokens. -/
structure LoopInv (net : Trunk F) (fl : SampleFloats F D) (promptN maxNew : Int) (s : GenState F) :
    Prop where
  generated : s.generated = s.printed.length
  before : s.generated < maxNew
  position : s.position = promptN + s.generated
  goesOn : ∀ token ∈ s.printed, isStop token = false
  ready : AllReady fl.toMlaFloats net (maxNew - s.generated).toNat s.position s.states
  capacity : ∀ l < net.layers, (s.states l).capacity = promptN + maxNew

/-- The end of the loop. -/
structure LoopEnd (net : Trunk F) (promptN maxNew : Int) (s : GenState F) : Prop where
  generated : s.generated = s.printed.length
  emitted : (s.printed.length : Int) =
    min maxNew ((s.printed.findIdx fun token => isStop token) + 1 : Nat)
  noneAfter : ∀ token ∈ s.printed.dropLast, isStop token = false
  lengths : ∀ l < net.layers, (s.states l).len = promptN + s.generated - 1

/-- A turn ends as it should or goes on; it does not fail. -/
theorem loopTurn_spec (mem : Nat → F) {promptN maxNew : Int} (temperature : F) {s : GenState F}
    (hvocab : 0 < net.vocab) (h : LoopInv net fl promptN maxNew s) :
    (∃ s', loopTurn fl net mem maxNew temperature s = .ended s' ∧ LoopEnd net promptN maxNew s') ∨
    ∃ s', loopTurn fl net mem maxNew temperature s = .again s' ∧ LoopInv net fl promptN maxNew s' ∧
      s'.generated = s.generated + 1 := by
  have hbefore := h.before
  have hgenerated := h.generated
  have hposition := h.position
  obtain ⟨token, rng, hsample⟩ : ∃ token rng,
      sampleToken fl net s.logits temperature s.rng = (token, rng) := ⟨_, _, rfl⟩
  have hvalid := sampleToken_valid fl hvocab s.logits temperature s.rng
  rw [hsample] at hvalid
  have hfind : (s.printed ++ [token]).findIdx (fun token => isStop token) =
      if isStop token then s.printed.length else s.printed.length + 1 := by
    rw [List.findIdx_append, List.findIdx_eq_length_of_false h.goesOn, if_neg (Nat.lt_irrefl _)]
    cases hstop : isStop token <;> simp [List.findIdx_cons, hstop, Nat.add_comm]
  have hlengths : ∀ l < net.layers, (s.states l).len = promptN + (s.generated + 1) - 1 := by
    intro l hl
    rw [(h.ready l hl).len, hposition]
    omega
  unfold loopTurn
  rw [if_pos hbefore, hsample]
  dsimp only
  by_cases hstop : isStop token = true
  · left
    rw [if_pos hstop]
    refine ⟨_, rfl, ⟨?_, ?_, ?_, hlengths⟩⟩
    · simp only [List.length_append, List.length_singleton]
      omega
    · simp only [hfind, hstop, if_true, List.length_append, List.length_singleton]
      omega
    · simp only [List.dropLast_concat]
      exact h.goesOn
  · rw [if_neg hstop]
    rw [Bool.not_eq_true] at hstop
    by_cases hlast : s.generated + 1 = maxNew
    · left
      rw [if_pos hlast]
      refine ⟨_, rfl, ⟨?_, ?_, ?_, hlengths⟩⟩
      · simp only [List.length_append, List.length_singleton]
        omega
      · simp only [hfind, hstop, List.length_append, List.length_singleton]
        simp only [Bool.false_eq_true, if_false]
        omega
      · simp only [List.dropLast_concat]
        exact h.goesOn
    · right
      rw [if_neg hlast]
      have hroom : (maxNew - s.generated).toNat = 1 + (maxNew - (s.generated + 1)).toNat := by omega
      have hready := h.ready
      rw [hroom, Nat.add_comm] at hready
      obtain ⟨p, hp, hext⟩ := @forwardToken_extends _ _ _ _ mem _ _ _ s.logits _ hready hvalid
      rw [hp]
      refine ⟨_, rfl, ⟨?_, ?_, ?_, ?_, ?_, ?_⟩, rfl⟩
      · simp only [List.length_append, List.length_singleton]
        omega
      · show s.generated + 1 < maxNew
        omega
      · show s.position + 1 = promptN + (s.generated + 1)
        omega
      · intro t ht
        rcases List.mem_append.mp ht with hold | hnew
        · exact h.goesOn t hold
        · exact (List.mem_singleton.mp hnew) ▸ hstop
      · rw [Nat.add_comm] at hready
        exact hext.ready hready
      · intro l hl
        show (p.1 l).capacity = _
        rw [(hext l hl).capacity]
        exact h.capacity l hl

theorem mainLoop_ends (mem : Nat → F) {promptN maxNew : Int} (temperature : F)
    (hvocab : 0 < net.vocab) (fuel : Nat) {s : GenState F} (h : LoopInv net fl promptN maxNew s)
    (hfuel : maxNew - s.generated ≤ fuel) :
    ∃ s', mainLoop fl net mem maxNew temperature fuel s = some s' ∧ LoopEnd net promptN maxNew s' := by
  induction fuel generalizing s with
  | zero => exact absurd h.before (by omega)
  | succ fuel ih =>
    rw [mainLoop]
    rcases loopTurn_spec mem temperature hvocab h with
      ⟨s', hturn, hend⟩ | ⟨s', hturn, hinv, hgenerated⟩
    · rw [hturn]
      exact ⟨s', rfl, hend⟩
    · rw [hturn]
      exact ih hinv (by rw [hgenerated]; omega)

theorem loopHead_inv {mem : Nat → F} {promptN maxNew : Int} {temperature : F} {start s : GenState F}
    (hvocab : 0 < net.vocab) (hstart : LoopInv net fl promptN maxNew start)
    (h : LoopHead fl net mem maxNew temperature start s) : LoopInv net fl promptN maxNew s := by
  induction h with
  | start => exact hstart
  | again _ hturn ih =>
    rcases loopTurn_spec mem temperature hvocab ih with
      ⟨s', hended, -⟩ | ⟨s', hagain, hinv, -⟩
    · rw [hturn] at hended
      cases hended
    · rw [hturn] at hagain
      obtain rfl : _ = s' := Turn.again.inj hagain
      exact hinv

theorem startLoop_inv (mem : Work F) (heads logits : Nat → F) {scans : List (Option Int)}
    {prompt : List Int} {maxNew : Int} (temperature : F) (seed : UInt64)
    (hok : net.cfg.Ok fl.toMlaFloats) (hscans : readPromptIds net scans = some prompt)
    (hmax : 1 ≤ maxNew) (htemp : fl.gt fl.zero temperature = false) :
    ∃ s, startLoop fl net mem heads logits scans maxNew temperature seed = some s ∧
      LoopInv net fl prompt.length maxNew s ∧ s.generated = 0 := by
  have hgo : ¬ (maxNew < 1 ∨ fl.gt fl.zero temperature = true) := by
    rw [htemp, not_or]
    exact ⟨by omega, Bool.false_ne_true⟩
  obtain ⟨hne, hids⟩ := readPromptIds_valid hscans
  have hpos : 0 < prompt.length := List.length_pos_iff.mpr hne
  obtain ⟨states, hinit, hready⟩ := @initStates_ready _ _ fl.toMlaFloats net
    (prompt.length + maxNew) prompt.length hok (by omega) (by omega)
  obtain ⟨states', logits', hprefill, hfilled⟩ :=
    @prefillPrompt_fills _ _ _ _ mem heads _ _ logits hne hids fun l hl => (hready l hl).1
  unfold startLoop
  rw [if_neg hgo, hscans]
  refine ⟨⟨states', logits', if seed = 0 then 0x9e3779b97f4a7c15 else seed, 0, prompt.length, []⟩,
    ?_, ?_, rfl⟩
  · show Option.bind (initStates fl.toMlaFloats net (prompt.length + maxNew)) _ = _
    rw [hinit, Option.bind_some, hprefill, Option.map_some]
  · refine ⟨rfl, ?_, ?_, fun t ht => absurd ht List.not_mem_nil, ?_, ?_⟩
    · show (0 : Int) < maxNew
      omega
    · show (prompt.length : Int) = prompt.length + 0
      omega
    · intro l hl
      have hf := hfilled l hl
      have hr := (hready l hl).1
      have hcapacity := (hready l hl).2
      refine ⟨hf.len, Int.natCast_nonneg _, ?_, hf.rank.trans hr.rank, hf.ropeDim.trans hr.ropeDim,
        hok⟩
      show (prompt.length : Int) + ((maxNew - 0).toNat : Int) ≤ (states' l).capacity
      rw [hf.capacity, hcapacity]
      omega
    · intro l hl
      show (states' l).capacity = _
      rw [(hfilled l hl).capacity, (hready l hl).2]

/-- Generation neither fails nor outruns its states: before every `forward_token` each layer holds
`position` rows and has room for one more, and at the end each holds the prompt and every token
but the last; the run stops with the first stop token or after `max_new`. -/
theorem generate_inStep (mem : Work F) (heads attn logits : Nat → F) (scans : List (Option Int))
    (prompt : List Int) (maxNew : Int) (temperature : F) (seed : UInt64)
    (hok : net.cfg.Ok fl.toMlaFloats) (hvocab : 0 < net.vocab)
    (hscans : readPromptIds net scans = some prompt) (hmax : 1 ≤ maxNew)
    (htemp : fl.gt fl.zero temperature = false) :
    ∃ start last, startLoop fl net mem heads logits scans maxNew temperature seed = some start ∧
      (∀ s, LoopHead fl net attn maxNew temperature start s →
        (∀ l < net.layers, (s.states l).len = s.position ∧ s.position < (s.states l).capacity) ∧
        loopTurn fl net attn maxNew temperature s ≠ .failed) ∧
      generate fl net maxNew.toNat mem heads attn logits scans maxNew temperature seed = some last ∧
      (∀ l < net.layers, (last.states l).len = prompt.length + last.generated - 1) ∧
      last.generated = last.printed.length ∧
      (last.printed.length : Int) =
        min maxNew ((last.printed.findIdx fun token => isStop token) + 1 : Nat) ∧
      ∀ token ∈ last.printed.dropLast, isStop token = false := by
  obtain ⟨start, hstart, hinv, hzero⟩ :=
    startLoop_inv mem heads logits temperature seed hok hscans hmax htemp
  obtain ⟨last, hlast, hend⟩ := mainLoop_ends attn temperature hvocab
    maxNew.toNat hinv (by omega)
  refine ⟨start, last, hstart, ?_, ?_, hend.lengths, hend.generated, hend.emitted, hend.noneAfter⟩
  · intro s hs
    have h := loopHead_inv hvocab hinv hs
    have hbefore := h.before
    refine ⟨fun l hl => ⟨(h.ready l hl).len, ?_⟩, ?_⟩
    · rw [h.capacity l hl, h.position]
      omega
    · rcases loopTurn_spec attn temperature hvocab h with
        ⟨s', hturn, -⟩ | ⟨s', hturn, -, -⟩ <;> rw [hturn] <;> nofun
  · rw [generate, hstart]
    exact hlast

end

/-! ### A run over the integers -/

def intSampleFloats : SampleFloats Int Int where
  toMlaFloats := intMlaFloats
  subD := (· - ·)
  expD a := 100 + a
  geD a b := a ≥ b
  unitD s := s.toNat % 5

/-- Two ids in the prompt and three new tokens. -/
theorem generate_inStep_twoIds : ∃ last,
    generate intSampleFloats smallTrunk 3 ⟨fun _ => 5, fun _ => 6, fun _ => 7⟩ (fun _ => 4)
      (fun _ => 0) (fun _ => 0) [some 1, some 2] 3 2 9 = some last ∧
    (∀ l < smallTrunk.layers, (last.states l).len = 2 + last.generated - 1) := by
  obtain ⟨start, last, -, -, hrun, hlen, -⟩ := @generate_inStep _ _ intSampleFloats smallTrunk ⟨fun _ => 5, fun _ => 6, fun _ => 7⟩ (fun _ => 4) (fun _ => 0) (fun _ => 0)
    [some 1, some 2] [1, 2] 3 2 9
    (by decide) (by decide) (by decide) (by decide) (by decide)
  exact ⟨last, hrun, hlen⟩

end Kvl.Generator
