import Kvl.Router.Model

/-!
# Dynamic skipping in a prefill

The policy for skipping experts asks for the family of the token at hand, and
`next_family` infers it from the order of the calls: a cursor in globals goes
through the prompt once for each layer. Reports and the paths they print are
left out; `load_policy` is what the environment makes of the policy file.
-/

namespace Kvl

set_option autoImplicit false

inductive MoeFamily where
  | control
  | content
  | media
  deriving DecidableEq, Repr

structure DynskipPolicy (F : Type*) where
  threshold : F
  minKeep : Int

structure Dynskip (F : Type*) where
  policy : MoeFamily → Nat → DynskipPolicy F
  policyEnabled : Bool
  /-- 0 uninitialised, 1 ready, -1 error. -/
  runtimeState : Int
  promptFamily : List MoeFamily
  promptN : Int
  prefillLayer : Int
  prefillPos : Int
  prefillActive : Bool

def dynskipFirstMoeLayer : Int := 1
def dynskipLastMoeLayer : Int := 26

def kimiImEndId : Int := 163586
def kimiImUserId : Int := 163587
def kimiImAssistantId : Int := 163588
def kimiImSystemId : Int := 163594
def kimiImMiddleId : Int := 163601
def kimiMediaStartId : Int := 163602
def kimiMediaEndId : Int := 163604
def kimiMediaPadId : Int := 163605

inductive PromptScan where
  | outside
  | system
  | userHeader
  | userBody
  | media
  | assistant
  deriving DecidableEq, Repr

/-- One token of `kvl_moe_dynskip_classify_prompt`. -/
def classifyToken (state : PromptScan) (token : Int) : PromptScan × MoeFamily :=
  if token = kimiImSystemId then (.system, .control)
  else if state = .system then
    (if token = kimiImEndId then .outside else state, .control)
  else if token = kimiImUserId then (.userHeader, .control)
  else if state = .userHeader then
    (if token = kimiImMiddleId then .userBody else state, .control)
  else if state = .media then
    (if token = kimiMediaEndId then .userBody else state,
      if token = kimiMediaPadId then .media else .control)
  else if state = .userBody then
    if token = kimiImEndId then (.outside, .control)
    else if token = kimiMediaStartId then (.media, .control)
    else if token = kimiMediaPadId then (state, .media)
    else (state, .content)
  else if token = kimiImAssistantId then (.assistant, .control)
  else if state = .assistant then (state, .control)
  else if token = kimiMediaPadId then (state, .media)
  else (state, .control)

def classifyFrom (state : PromptScan) (prompt : List Int) : List MoeFamily :=
  match prompt with
  | [] => []
  | token :: prompt =>
    let next := classifyToken state token
    next.2 :: classifyFrom next.1 prompt

def classifyPrompt (prompt : List Int) : List MoeFamily := classifyFrom .outside prompt

/-- What `runtime_init` finds outside: the variables, and what the files they
name are read as. -/
structure DynskipEnv (F : Type*) where
  policyPath : Option Bytes
  staticMask : Option Bytes
  promptIds : Option Bytes
  loadPolicy : Bytes → Option (MoeFamily → Nat → DynskipPolicy F)
  /-- `read_prompt_ids_file`, which refuses a file without ids. -/
  readIds : Bytes → Option (List Int)
  mallocOk : Bool
  atexitOk : Bool

/-- A variable that is set and not empty. -/
def envText (v : Option Bytes) : Option Bytes :=
  match v with
  | some (c :: text) => some (c :: text)
  | _ => none

section Dynskip
variable {F D : Type*} (fl : RouterFloats F D)

def initialDynskip : Dynskip F :=
  { policy := fun _ _ => ⟨fl.zero, 0⟩, policyEnabled := false, runtimeState := 0
    promptFamily := [], promptN := 0, prefillLayer := 0, prefillPos := 0, prefillActive := false }

/-- The prompt that an active policy is given. -/
def DynskipEnv.prompt (env : DynskipEnv F) : Option (List Int) :=
  match envText env.promptIds with
  | none => none
  | some path =>
    match env.readIds path with
    | some (id :: ids) => some (id :: ids)
    | _ => none

/-- The flag is the return code 0. -/
def dynskipRuntimeInit (env : DynskipEnv F) (g : Dynskip F) : Bool × Dynskip F :=
  if g.runtimeState ≠ 0 then (decide (0 < g.runtimeState), g)
  else
    let g := { g with runtimeState := -1 }
    match envText env.policyPath with
    | none => (true, { g with runtimeState := 1 })
    | some path =>
      if (envText env.staticMask).isSome then (false, g)
      else
        match env.loadPolicy path with
        | none => (false, { g with policy := fun _ _ => ⟨fl.zero, 0⟩, policyEnabled := false })
        | some table =>
          let g := { g with policy := table, policyEnabled := true }
          match env.prompt with
          | none => (false, g)
          | some ids =>
            if env.mallocOk = false then (false, g)
            else
              let g := { g with
                promptFamily := classifyPrompt ids
                promptN := ids.length
                prefillLayer := dynskipFirstMoeLayer
                prefillPos := 0
                prefillActive := true }
              if env.atexitOk = false then (false, g)
              else (true, { g with runtimeState := 1 })

/-- `none` is the return code -1. -/
def nextFamily (g : Dynskip F) (layer : Int) : Option MoeFamily × Dynskip F :=
  if g.policyEnabled = false ∨ g.prefillActive = false then (some .control, g)
  else if layer ≠ g.prefillLayer ∨ g.prefillPos < 0 ∨ g.promptN ≤ g.prefillPos then (none, g)
  else
    let family := g.promptFamily.getD g.prefillPos.toNat .control
    let pos := g.prefillPos + 1
    if pos = g.promptN then
      let next := g.prefillLayer + 1
      (some family, { g with
        prefillPos := 0
        prefillLayer := next
        prefillActive := g.prefillActive && !decide (dynskipLastMoeLayer < next) })
    else (some family, { g with prefillPos := pos })

/-- A sequence of calls, with what each returned. -/
def runFamilies (g : Dynskip F) (calls : List Int) : List (Option MoeFamily) × Dynskip F :=
  match calls with
  | [] => ([], g)
  | layer :: calls =>
    let call := nextFamily g layer
    let rest := runFamilies call.2 calls
    (call.1 :: rest.1, rest.2)

/-- The mixture-of-experts calls of `prefill_prompt` with `S` tokens: layer 0 is dense. -/
def prefillMoeCalls (S : Nat) : List Int :=
  (List.range 27).flatMap fun (layer : Nat) =>
    if layer = 0 then [] else List.replicate S (layer : Int)

def accepted (outcomes : List (Option MoeFamily)) : Nat := outcomes.countP Option.isSome

variable {fl}

theorem classifyFrom_length (state : PromptScan) (prompt : List Int) :
    (classifyFrom state prompt).length = prompt.length := by
  induction prompt generalizing state with
  | nil => rfl
  | cons token prompt ih =>
    unfold classifyFrom
    rw [List.length_cons, List.length_cons, ih]

theorem classifyPrompt_length (prompt : List Int) :
    (classifyPrompt prompt).length = prompt.length :=
  classifyFrom_length .outside prompt

/-! ### The cursor counts the accepted calls -/

/-- The globals after `k` accepted calls for a prompt of `n` tokens. -/
def Dynskip.cursorAt (g : Dynskip F) (n k : Nat) : Dynskip F :=
  if k < 26 * n then
    { g with prefillLayer := 1 + (k / n : Nat), prefillPos := (k % n : Nat), prefillActive := true }
  else { g with prefillLayer := 27, prefillPos := 0, prefillActive := false }

/-- A prefill with an active policy, before its first call. -/
structure PrefillStarts (g : Dynskip F) (prompt : List Int) : Prop where
  nonempty : prompt ≠ []
  enabled : g.policyEnabled = true
  family : g.promptFamily = classifyPrompt prompt
  count : g.promptN = prompt.length
  start : g = g.cursorAt prompt.length 0

theorem runtimeInit_starts {env : DynskipEnv F} {g : Dynskip F} {prompt : List Int}
    (hinit : dynskipRuntimeInit fl env (initialDynskip fl) = (true, g))
    (hactive : g.policyEnabled = true) (hprompt : env.prompt = some prompt) :
    PrefillStarts g prompt := by
  have hne : prompt ≠ [] := by
    intro hnil
    subst hnil
    unfold DynskipEnv.prompt at hprompt
    split at hprompt
    · cases hprompt
    · split at hprompt <;> cases hprompt
  have hpos : 0 < prompt.length := List.length_pos_iff.mpr hne
  unfold dynskipRuntimeInit at hinit
  have hfresh : ¬ (initialDynskip fl).runtimeState ≠ 0 := not_not.mpr rfl
  rw [if_neg hfresh] at hinit
  dsimp only at hinit
  split at hinit
  · cases hinit
    cases hactive
  · split at hinit
    · cases hinit
    · split at hinit
      · cases hinit
      · rw [hprompt] at hinit
        dsimp only at hinit
        split at hinit
        · cases hinit
        · split at hinit
          · cases hinit
          · cases hinit
            refine ⟨hne, rfl, rfl, rfl, ?_⟩
            unfold Dynskip.cursorAt
            rw [if_pos (by omega), Nat.zero_div, Nat.zero_mod]
            rfl

/-- The next place of a cursor inside a row, or the first of the next row. -/
theorem cursor_next {n k : Nat} (hn : 0 < n) :
    (k % n + 1 = n → (k + 1) / n = k / n + 1 ∧ (k + 1) % n = 0) ∧
      (k % n + 1 ≠ n → (k + 1) / n = k / n ∧ (k + 1) % n = k % n + 1) := by
  have hk : k = n * (k / n) + k % n := (Nat.div_add_mod k n).symm
  have hlt : k % n < n := Nat.mod_lt k hn
  constructor
  · intro hlast
    have hnext : k + 1 = n * (k / n + 1) := by
      rw [Nat.mul_add, Nat.mul_one]
      omega
    rw [hnext]
    exact ⟨Nat.mul_div_cancel_left _ hn, Nat.mul_mod_right n _⟩
  · intro hinside
    have hnext : k + 1 = n * (k / n) + (k % n + 1) := by omega
    have hsmall : k % n + 1 < n := by omega
    constructor
    · conv_lhs => rw [hnext]
      rw [Nat.mul_add_div hn, Nat.div_eq_of_lt hsmall, Nat.add_zero]
    · conv_lhs => rw [hnext]
      rw [Nat.mul_add_mod, Nat.mod_eq_of_lt hsmall]

theorem PrefillStarts.next {g : Dynskip F} {prompt : List Int} (h : PrefillStarts g prompt)
    {k : Nat} (hk : k < 26 * prompt.length) (layer : Int) :
    nextFamily (g.cursorAt prompt.length k) layer =
      if layer = 1 + (k / prompt.length : Nat) then
        (some ((classifyPrompt prompt).getD (k % prompt.length) .control),
          g.cursorAt prompt.length (k + 1))
      else (none, g.cursorAt prompt.length k) := by
  have hn : 0 < prompt.length := List.length_pos_iff.mpr h.nonempty
  have hmod : k % prompt.length < prompt.length := Nat.mod_lt k hn
  have hrow : k / prompt.length < 26 := (Nat.div_lt_iff_lt_mul hn).mpr hk
  have hat : g.cursorAt prompt.length k = { g with
      prefillLayer := 1 + (k / prompt.length : Nat)
      prefillPos := (k % prompt.length : Nat)
      prefillActive := true } := if_pos hk
  have hcount := h.count
  have hfamily : g.promptFamily.getD ((k % prompt.length : Nat) : Int).toNat .control =
      (classifyPrompt prompt).getD (k % prompt.length) .control := by
    rw [h.family, Int.toNat_natCast]
  rw [hat]
  unfold nextFamily
  dsimp only
  rw [if_neg (by rw [h.enabled]; simp only [Bool.true_eq_false, or_self, not_false_eq_true])]
  by_cases hlayer : layer = 1 + (k / prompt.length : Nat)
  · rw [if_neg (by omega), if_pos hlayer, hfamily]
    obtain ⟨hlast, hinside⟩ := cursor_next (k := k) hn
    by_cases hend : k % prompt.length + 1 = prompt.length
    · obtain ⟨hdiv, hzero⟩ := hlast hend
      rw [if_pos (by omega)]
      congr 1
      unfold Dynskip.cursorAt
      by_cases hmore : k + 1 < 26 * prompt.length
      · have hrow' := (Nat.div_lt_iff_lt_mul hn).mpr hmore
        rw [if_pos hmore, hdiv, hzero]
        have hflag : (true && !decide (dynskipLastMoeLayer < 1 + ((k / prompt.length : Nat) : Int) + 1)) =
            true := by
          unfold dynskipLastMoeLayer
          rw [decide_eq_false (by omega)]
          rfl
        rw [hflag, Int.natCast_add, Int.natCast_one, Int.natCast_zero, ← Int.add_assoc]
      · have hrow' : ¬ (k + 1) / prompt.length < 26 := by
          rw [Nat.div_lt_iff_lt_mul hn]
          exact hmore
        rw [if_neg hmore]
        have hflag : (true && !decide (dynskipLastMoeLayer < 1 + ((k / prompt.length : Nat) : Int) + 1)) =
            false := by
          unfold dynskipLastMoeLayer
          rw [decide_eq_true (by omega)]
          rfl
        have hlayer27 : 1 + ((k / prompt.length : Nat) : Int) + 1 = 27 := by omega
        rw [hflag, hlayer27]
    · obtain ⟨hdiv, hstep⟩ := hinside hend
      rw [if_neg (by omega)]
      congr 1
      have hmore : k + 1 < 26 * prompt.length := by
        rw [← Nat.div_lt_iff_lt_mul hn, hdiv]
        exact hrow
      unfold Dynskip.cursorAt
      rw [if_pos hmore, hdiv, hstep, Int.natCast_add, Int.natCast_one]
  · rw [if_pos (.inl hlayer), if_neg hlayer]

theorem PrefillStarts.done {g : Dynskip F} {prompt : List Int} {k : Nat}
    (hk : 26 * prompt.length ≤ k) (layer : Int) :
    nextFamily (g.cursorAt prompt.length k) layer = (some .control, g.cursorAt prompt.length k) := by
  have hat : g.cursorAt prompt.length k =
      { g with prefillLayer := 27, prefillPos := 0, prefillActive := false } :=
    if_neg (Nat.not_lt.mpr hk)
  rw [hat]
  exact if_pos (.inr rfl)

theorem cursorAt_done {g : Dynskip F} {n k : Nat} (hk : 26 * n ≤ k) :
    g.cursorAt n (k + 1) = g.cursorAt n k := by
  unfold Dynskip.cursorAt
  rw [if_neg (by omega), if_neg (by omega)]

/-- One call moves the cursor by one exactly when it is accepted. -/
theorem PrefillStarts.step {g : Dynskip F} {prompt : List Int} (h : PrefillStarts g prompt)
    (k : Nat) (layer : Int) :
    (nextFamily (g.cursorAt prompt.length k) layer).2 =
      g.cursorAt prompt.length
        (k + if (nextFamily (g.cursorAt prompt.length k) layer).1.isSome then 1 else 0) := by
  rcases Nat.lt_or_ge k (26 * prompt.length) with hlt | hge
  · rw [h.next hlt]
    split <;> rfl
  · rw [PrefillStarts.done hge]
    exact (cursorAt_done hge).symm

theorem PrefillStarts.run {g : Dynskip F} {prompt : List Int} (h : PrefillStarts g prompt)
    (k : Nat) (calls : List Int) :
    (runFamilies (g.cursorAt prompt.length k) calls).2 =
      g.cursorAt prompt.length
        (k + accepted (runFamilies (g.cursorAt prompt.length k) calls).1) := by
  induction calls generalizing k with
  | nil => rfl
  | cons layer calls ih =>
    unfold runFamilies
    dsimp only
    rw [h.step k layer, ih]
    unfold accepted
    rw [List.countP_cons, Nat.add_assoc]
    congr 2
    exact Nat.add_comm _ _

/-- All calls are accepted if each names the layer of its own number. -/
theorem PrefillStarts.all_accepted {g : Dynskip F} {prompt : List Int}
    (h : PrefillStarts g prompt) (k : Nat) (calls : List Int) :
    (∀ o ∈ (runFamilies (g.cursorAt prompt.length k) calls).1, o.isSome = true) ↔
      ∀ i, (hi : i < calls.length) → k + i < 26 * prompt.length →
        calls[i] = 1 + ((k + i) / prompt.length : Nat) := by
  induction calls generalizing k with
  | nil =>
    constructor
    · intro _ i hi
      exact absurd hi (Nat.not_lt_zero i)
    · intro _ o ho
      cases ho
  | cons layer calls ih =>
    have hfirst : (nextFamily (g.cursorAt prompt.length k) layer).1.isSome = true ↔
        (k < 26 * prompt.length → layer = 1 + (k / prompt.length : Nat)) := by
      rcases Nat.lt_or_ge k (26 * prompt.length) with hlt | hge
      · rw [h.next hlt]
        constructor
        · intro hsome _
          by_contra hne
          rw [if_neg hne] at hsome
          cases hsome
        · intro hlayer
          rw [if_pos (hlayer hlt)]
          rfl
      · rw [PrefillStarts.done hge]
        exact ⟨fun _ hlt => absurd hlt (Nat.not_lt.mpr hge), fun _ => rfl⟩
    unfold runFamilies
    dsimp only
    rw [List.forall_mem_cons, hfirst]
    constructor
    · rintro ⟨hlayer, hrest⟩ i hi hk
      have hsome := hfirst.mpr hlayer
      rw [h.step k layer, if_pos hsome, ih] at hrest
      cases i with
      | zero => exact hlayer hk
      | succ i =>
        have hshift : k + 1 + i = k + (i + 1) := by omega
        have hcall := hrest i (Nat.lt_of_succ_lt_succ hi) (by omega)
        rw [hshift] at hcall
        exact hcall
    · intro hall
      have hlayer : k < 26 * prompt.length → layer = 1 + (k / prompt.length : Nat) :=
        fun hk => hall 0 (Nat.zero_lt_succ _) hk
      refine ⟨hlayer, ?_⟩
      rw [h.step k layer, if_pos (hfirst.mpr hlayer), ih]
      intro i hi hk
      have hshift : k + 1 + i = k + (i + 1) := by omega
      rw [hshift] at hk ⊢
      exact hall (i + 1) (Nat.succ_lt_succ hi) hk

/-! ### The order of a layer-major prefill -/

theorem layerCalls_getElem (S m : Nat) (i : Nat) (hi : i < m * S) :
    ((List.range m).flatMap fun (l : Nat) => List.replicate S (1 + (l : Int)))[i]? =
      some (1 + ((i / S : Nat) : Int)) := by
  have hlength (m : Nat) :
      ((List.range m).flatMap fun (l : Nat) => List.replicate S (1 + (l : Int))).length = m * S := by
    simp only [List.length_flatMap, List.length_replicate, List.map_const', List.sum_replicate,
      List.length_range, smul_eq_mul]
  induction m with
  | zero => omega
  | succ m ih =>
    rw [List.range_succ, List.flatMap_append]
    rcases Nat.lt_or_ge i (m * S) with hlt | hge
    · rw [List.getElem?_append_left (by rw [hlength]; exact hlt)]
      exact ih hlt
    · have hlast : i < S + m * S := by
        rw [Nat.succ_mul] at hi
        omega
      rw [List.getElem?_append_right (by rw [hlength]; exact hge), hlength, List.flatMap_singleton,
        List.getElem?_replicate, if_pos (by omega)]
      have hdiv : i / S = m := by
        apply Nat.div_eq_of_lt_le hge
        rw [Nat.succ_mul]
        omega
      rw [hdiv]

theorem prefillMoeCalls_eq (S : Nat) :
    prefillMoeCalls S =
      (List.range 26).flatMap fun (l : Nat) => List.replicate S (1 + (l : Int)) := by
  unfold prefillMoeCalls
  rw [List.range_succ_eq_map, List.flatMap_cons, if_pos rfl, List.nil_append, List.flatMap_map]
  congr 1
  funext l
  rw [if_neg (Nat.succ_ne_zero l), Nat.succ_eq_add_one, Int.natCast_add, Int.natCast_one,
    Int.add_comm]

theorem prefillMoeCalls_length (S : Nat) : (prefillMoeCalls S).length = 26 * S := by
  rw [prefillMoeCalls_eq]
  simp only [List.length_flatMap, List.length_replicate, List.map_const', List.sum_replicate,
    List.length_range, smul_eq_mul]

theorem prefillMoeCalls_getElem (S i : Nat) (hi : i < (prefillMoeCalls S).length) :
    (prefillMoeCalls S)[i] = 1 + (i / S : Nat) := by
  rw [prefillMoeCalls_length] at hi
  have hcall := layerCalls_getElem S 26 i hi
  rw [← prefillMoeCalls_eq] at hcall
  exact Option.some.inj ((List.getElem?_eq_getElem _).symm.trans hcall)

theorem PrefillStarts.prefill_accepted {g : Dynskip F} {prompt : List Int}
    (h : PrefillStarts g prompt) {S : Nat} (hS : 0 < S) :
    (∀ o ∈ (runFamilies g (prefillMoeCalls S)).1, o.isSome = true) ↔ S = prompt.length := by
  have hn : 0 < prompt.length := List.length_pos_iff.mpr h.nonempty
  rw [h.start, h.all_accepted]
  constructor
  · intro hall
    -- the call at which the shorter of the two rows is over
    have hat : ∀ i, i < 26 * S → i < 26 * prompt.length → i / S = i / prompt.length := by
      intro i hi hk
      have hlength : i < (prefillMoeCalls S).length := by
        rw [prefillMoeCalls_length]
        exact hi
      have hcall := hall i hlength (by omega)
      rw [prefillMoeCalls_getElem S i hlength, Nat.zero_add] at hcall
      omega
    rcases Nat.lt_trichotomy S prompt.length with hlt | heq | hgt
    · have hend := hat S (by omega) (by omega)
      rw [Nat.div_self hS, Nat.div_eq_of_lt hlt] at hend
      cases hend
    · exact heq
    · have hend := hat prompt.length (by omega) (by omega)
      rw [Nat.div_self hn, Nat.div_eq_of_lt hgt] at hend
      cases hend
  · rintro rfl i hi _
    rw [prefillMoeCalls_getElem, Nat.zero_add]

theorem PrefillStarts.decode_control {g : Dynskip F} {prompt : List Int} {k : Nat}
    (hk : 26 * prompt.length ≤ k) (calls : List Int) :
    ∀ o ∈ (runFamilies (g.cursorAt prompt.length k) calls).1, o = some .control := by
  induction calls with
  | nil =>
    intro o ho
    cases ho
  | cons layer calls ih =>
    unfold runFamilies
    dsimp only
    rw [PrefillStarts.done hk]
    exact List.forall_mem_cons.mpr ⟨rfl, ih⟩

theorem runFamilies_length (g : Dynskip F) (calls : List Int) :
    (runFamilies g calls).1.length = calls.length := by
  induction calls generalizing g with
  | nil => rfl
  | cons layer calls ih =>
    unfold runFamilies
    dsimp only
    rw [List.length_cons, List.length_cons, ih]

/-- With an active policy the accepted calls go through the prompt once for each
layer in order; a prefill keeps in step exactly if it runs as many tokens. -/
theorem nextFamily_prefill {env : DynskipEnv F} {g : Dynskip F} {prompt : List Int}
    (hinit : dynskipRuntimeInit fl env (initialDynskip fl) = (true, g))
    (hactive : g.policyEnabled = true) (hprompt : env.prompt = some prompt) :
    (∀ (calls : List Int) (layer : Int),
      let run := runFamilies g calls
      let i := accepted run.1
      (i < 26 * prompt.length →
        (layer = 1 + (i / prompt.length : Nat) →
          (nextFamily run.2 layer).1 =
            some ((classifyPrompt prompt).getD (i % prompt.length) .control)) ∧
        (layer ≠ 1 + (i / prompt.length : Nat) → nextFamily run.2 layer = (none, run.2))) ∧
      (26 * prompt.length ≤ i → nextFamily run.2 layer = (some .control, run.2))) ∧
    (∀ S, 0 < S →
      ((∀ o ∈ (runFamilies g (prefillMoeCalls S)).1, o.isSome = true) ↔ S = prompt.length)) ∧
    (∀ calls, ∀ o ∈
      (runFamilies (runFamilies g (prefillMoeCalls prompt.length)).2 calls).1,
      o = some .control) := by
  have h := runtimeInit_starts hinit hactive hprompt
  have hn : 0 < prompt.length := List.length_pos_iff.mpr h.nonempty
  have hrun (calls : List Int) : (runFamilies g calls).2 =
      g.cursorAt prompt.length (accepted (runFamilies g calls).1) := by
    have hat := h.run 0 calls
    rw [← h.start, Nat.zero_add] at hat
    exact hat
  refine ⟨?_, fun S hS => h.prefill_accepted hS, ?_⟩
  · intro calls layer
    dsimp only
    rw [hrun]
    generalize accepted (runFamilies g calls).1 = i
    refine ⟨fun hi => ⟨?_, ?_⟩, fun hi => PrefillStarts.done hi layer⟩
    · intro hlayer
      rw [h.next hi, if_pos hlayer]
    · intro hlayer
      rw [h.next hi, if_neg hlayer]
  · intro calls
    have hall := (h.prefill_accepted hn).mpr rfl
    have hcount : accepted (runFamilies g (prefillMoeCalls prompt.length)).1 =
        26 * prompt.length := by
      unfold accepted
      rw [List.countP_eq_length.mpr hall, runFamilies_length, prefillMoeCalls_length]
    rw [hrun, hcount]
    exact PrefillStarts.decode_control (Nat.le_refl _) calls

end Dynskip

/-- A prompt of three tokens of a user with a policy that is on. -/
def smallDynskipEnv : DynskipEnv Int :=
  { policyPath := some [112]
    staticMask := none
    promptIds := some [105]
    loadPolicy := fun _ => some fun _ _ => ⟨1, 1⟩
    readIds := fun _ => some [kimiImUserId, kimiImMiddleId, 7]
    mallocOk := true
    atexitOk := true }

theorem nextFamily_prefill_three :
    let g := (dynskipRuntimeInit intFloats smallDynskipEnv (initialDynskip intFloats)).2
    (nextFamily (runFamilies g [1, 1]).2 1).1 = some .content ∧
    nextFamily (runFamilies g [1, 1]).2 2 = (none, (runFamilies g [1, 1]).2) ∧
    ((∀ o ∈ (runFamilies g (prefillMoeCalls 4)).1, o.isSome = true) ↔ 4 = 3) :=
  have h := @nextFamily_prefill _ _ intFloats smallDynskipEnv _
      ([kimiImUserId, kimiImMiddleId, 7]) rfl rfl rfl
  ⟨((h.1 [1, 1] 1).1 (by decide)).1 (by decide), ((h.1 [1, 1] 2).1 (by decide)).2 (by decide),
    h.2.1 4 (by decide)⟩

end Kvl
