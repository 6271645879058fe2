import Kvl.Router.SkipPolicy

/-!
# Structural tokens

Where the classifier of a prompt protects the tokens of the chat template. The
prefixes of a prompt after which the scanner is inside a user body are described
here by the text alone.
-/

namespace Kvl

set_option autoImplicit false

/-- The tokens of the chat template. -/
def structuralIds : List Int :=
  [kimiImEndId, kimiImUserId, kimiImAssistantId, kimiImSystemId, kimiImMiddleId, kimiMediaStartId,
    kimiMediaEndId]

/-- The markers that have no place in the body of a user message. -/
def strayIds : List Int := [kimiImAssistantId, kimiImMiddleId, kimiMediaEndId]

/-- A new user message or a system message. -/
def restarts (t : Int) : Prop := t = kimiImUserId ∨ t = kimiImSystemId

instance (t : Int) : Decidable (restarts t) := by
  unfold restarts
  infer_instance

/-- The text ends inside a system message. -/
def OpenSystem (text : List Int) : Prop :=
  ∃ before inside, text = before ++ kimiImSystemId :: inside ∧ kimiImEndId ∉ inside

/-- The text ends before the `im_middle` of a user message. -/
def OpenHeader (text : List Int) : Prop :=
  ∃ before header, text = before ++ kimiImUserId :: header ∧ ¬ OpenSystem before ∧
    ∀ t ∈ header, t ≠ kimiImMiddleId ∧ ¬ restarts t

/-- The text ends in the body of a user message, outside its media. -/
inductive OpenBody : List Int → Prop where
  | start {text : List Int} (h : OpenHeader text) : OpenBody (text ++ [kimiImMiddleId])
  | plain {text : List Int} {t : Int} (h : OpenBody text) (hend : t ≠ kimiImEndId)
      (hmedia : t ≠ kimiMediaStartId) (hstay : ¬ restarts t) : OpenBody (text ++ [t])
  | media {text image : List Int} (h : OpenBody text)
      (himage : ∀ t ∈ image, t ≠ kimiMediaEndId ∧ ¬ restarts t) :
      OpenBody (text ++ kimiMediaStartId :: image ++ [kimiMediaEndId])

/-- The text ends inside the media of a user message. -/
def OpenMedia (text : List Int) : Prop :=
  ∃ before image, text = before ++ kimiMediaStartId :: image ∧ OpenBody before ∧
    ∀ t ∈ image, t ≠ kimiMediaEndId ∧ ¬ restarts t

/-- The scanner after some tokens. -/
def scanFrom (state : PromptScan) (text : List Int) : PromptScan :=
  text.foldl (fun state t => (classifyToken state t).1) state

theorem scanFrom_append (state : PromptScan) (text text' : List Int) :
    scanFrom state (text ++ text') = scanFrom (scanFrom state text) text' :=
  List.foldl_append

theorem scanFrom_cons (state : PromptScan) (t : Int) (text : List Int) :
    scanFrom state (t :: text) = scanFrom (classifyToken state t).1 text := rfl

/-! ### One token -/

theorem scan_system (state : PromptScan) : (classifyToken state kimiImSystemId).1 = .system := rfl

theorem scan_inSystem (t : Int) :
    (classifyToken .system t).1 = if t = kimiImEndId then .outside else .system := by
  unfold classifyToken
  by_cases hsystem : t = kimiImSystemId
  · subst hsystem
    rfl
  · rw [if_neg hsystem, if_pos rfl]

theorem scan_user {state : PromptScan} (h : state ≠ .system) :
    (classifyToken state kimiImUserId).1 = .userHeader := by
  cases state with
  | system => exact absurd rfl h
  | outside => rfl
  | userHeader => rfl
  | userBody => rfl
  | media => rfl
  | assistant => rfl

section Stay
variable {t : Int} (hstay : ¬ restarts t)
include hstay

theorem scan_header :
    (classifyToken .userHeader t).1 = if t = kimiImMiddleId then .userBody else .userHeader := by
  obtain ⟨huser, hsystem⟩ := not_or.mp hstay
  unfold classifyToken
  rw [if_neg hsystem, if_neg (by decide), if_neg huser, if_pos rfl]

theorem scan_media :
    (classifyToken .media t).1 = if t = kimiMediaEndId then .userBody else .media := by
  obtain ⟨huser, hsystem⟩ := not_or.mp hstay
  unfold classifyToken
  rw [if_neg hsystem, if_neg (by decide), if_neg huser, if_neg (by decide), if_pos rfl]

theorem scan_body :
    (classifyToken .userBody t).1 = if t = kimiImEndId then .outside
      else if t = kimiMediaStartId then .media else .userBody := by
  obtain ⟨huser, hsystem⟩ := not_or.mp hstay
  unfold classifyToken
  rw [if_neg hsystem, if_neg (by decide), if_neg huser, if_neg (by decide), if_neg (by decide),
    if_pos rfl]
  split_ifs <;> rfl

/-- Outside of messages only an assistant message begins. -/
theorem scan_outside {state : PromptScan} (h : state = .outside ∨ state = .assistant) :
    (classifyToken state t).1 = .outside ∨ (classifyToken state t).1 = .assistant := by
  obtain ⟨huser, hsystem⟩ := not_or.mp hstay
  unfold classifyToken
  rw [if_neg hsystem, if_neg (by rcases h with rfl | rfl <;> decide), if_neg huser,
    if_neg (by rcases h with rfl | rfl <;> decide), if_neg (by rcases h with rfl | rfl <;> decide),
    if_neg (by rcases h with rfl | rfl <;> decide)]
  split_ifs
  · exact .inr rfl
  · exact h
  · exact h
  · exact h

end Stay

/-! ### The text decides the state -/

theorem scan_keep {state : PromptScan} {text : List Int}
    (h : ∀ t ∈ text, (classifyToken state t).1 = state) : scanFrom state text = state := by
  induction text with
  | nil => rfl
  | cons t text ih =>
    rw [scanFrom_cons, h t List.mem_cons_self]
    exact ih fun t' ht' => h t' (List.mem_cons_of_mem t ht')

/-- The scanner after the tokens of a prompt that come before a position. -/
def scanState (text : List Int) : PromptScan := scanFrom .outside text

theorem scanState_snoc (text : List Int) (t : Int) :
    scanState (text ++ [t]) = (classifyToken (scanState text) t).1 :=
  scanFrom_append .outside text [t]

theorem OpenSystem.scan {text : List Int} (h : OpenSystem text) : scanState text = .system := by
  obtain ⟨before, inside, rfl, hend⟩ := h
  unfold scanState
  rw [scanFrom_append, scanFrom_cons, scan_system]
  apply scan_keep
  intro t ht
  rw [scan_inSystem, if_neg]
  rintro rfl
  exact hend ht

/-- What the state says of the text. -/
def Describes (text : List Int) : PromptScan → Prop
  | .system => OpenSystem text
  | .userHeader => OpenHeader text
  | .userBody => OpenBody text
  | .media => OpenMedia text
  | .outside => True
  | .assistant => True

theorem describes_restart {text : List Int} {t : Int} (hstart : restarts t)
    (h : Describes text (scanState text)) :
    Describes (text ++ [t]) (classifyToken (scanState text) t).1 := by
  by_cases hsystem : t = kimiImSystemId
  · subst hsystem
    rw [scan_system]
    exact ⟨text, [], rfl, List.not_mem_nil⟩
  · obtain rfl := hstart.resolve_right hsystem
    by_cases hopen : scanState text = .system
    · rw [hopen] at h ⊢
      obtain ⟨before, inside, rfl, hend⟩ := h
      refine ⟨before, inside ++ [kimiImUserId], by simp, ?_⟩
      rw [List.mem_append, List.mem_singleton]
      exact not_or.mpr ⟨hend, by decide⟩
    · rw [scan_user hopen]
      exact ⟨text, [], rfl, fun hsys => hopen hsys.scan, fun _ h => absurd h List.not_mem_nil⟩

theorem describes_stay {text : List Int} {t : Int} (hstay : ¬ restarts t)
    (h : Describes text (scanState text)) :
    Describes (text ++ [t]) (classifyToken (scanState text) t).1 := by
  cases hstate : scanState text with
  | outside =>
    rcases scan_outside hstay (.inl rfl) with hnext | hnext <;> rw [hnext] <;> trivial
  | assistant =>
    rcases scan_outside hstay (.inr rfl) with hnext | hnext <;> rw [hnext] <;> trivial
  | system =>
    rw [hstate] at h
    rw [scan_inSystem]
    split
    · trivial
    · rename_i hend
      obtain ⟨before, inside, rfl, hin⟩ := h
      refine ⟨before, inside ++ [t], by simp, ?_⟩
      rw [List.mem_append, List.mem_singleton]
      exact not_or.mpr ⟨hin, Ne.symm hend⟩
  | userHeader =>
    rw [hstate] at h
    rw [scan_header hstay]
    split
    · rename_i hmiddle
      subst hmiddle
      exact .start h
    · rename_i hmiddle
      obtain ⟨before, header, rfl, hsys, hheader⟩ := h
      refine ⟨before, header ++ [t], by simp, hsys, ?_⟩
      intro t' ht'
      rcases List.mem_append.mp ht' with ht' | ht'
      · exact hheader t' ht'
      · rw [List.mem_singleton.mp ht']
        exact ⟨hmiddle, hstay⟩
  | userBody =>
    rw [hstate] at h
    rw [scan_body hstay]
    split
    · trivial
    · rename_i hend
      split
      · rename_i hmedia
        subst hmedia
        exact ⟨text, [], rfl, h, fun _ h => absurd h List.not_mem_nil⟩
      · rename_i hmedia
        exact .plain h hend hmedia hstay
  | media =>
    rw [hstate] at h
    rw [scan_media hstay]
    obtain ⟨before, image, rfl, hbody, himage⟩ := h
    split
    · rename_i hend
      subst hend
      exact .media hbody himage
    · rename_i hend
      refine ⟨before, image ++ [t], by simp, hbody, ?_⟩
      intro t' ht'
      rcases List.mem_append.mp ht' with ht' | ht'
      · exact himage t' ht'
      · rw [List.mem_singleton.mp ht']
        exact ⟨hend, hstay⟩

theorem describes_scan (text : List Int) : Describes text (scanState text) := by
  induction text using List.reverseRecOn with
  | nil => trivial
  | append_singleton text t ih =>
    rw [scanState_snoc]
    by_cases hstart : restarts t
    · exact describes_restart hstart ih
    · exact describes_stay hstart ih

theorem OpenHeader.scan {text : List Int} (h : OpenHeader text) : scanState text = .userHeader := by
  obtain ⟨before, header, rfl, hsys, hheader⟩ := h
  have hbefore : scanState before ≠ .system := by
    intro hstate
    have hopen := describes_scan before
    rw [hstate] at hopen
    exact hsys hopen
  unfold scanState at hbefore ⊢
  rw [scanFrom_append, scanFrom_cons, scan_user hbefore]
  apply scan_keep
  intro t ht
  obtain ⟨hmiddle, hstay⟩ := hheader t ht
  rw [scan_header hstay, if_neg hmiddle]

theorem OpenBody.scan {text : List Int} (h : OpenBody text) : scanState text = .userBody := by
  induction h with
  | start h =>
    rw [scanState_snoc, h.scan]
    rfl
  | plain h hend hmedia hstay ih =>
    rw [scanState_snoc, ih, scan_body hstay, if_neg hend, if_neg hmedia]
  | @media text image h himage ih =>
    have hinside : scanFrom .media image = .media := by
      apply scan_keep
      intro t ht
      obtain ⟨hend, hstay⟩ := himage t ht
      rw [scan_media hstay, if_neg hend]
    have hmedia : scanState (text ++ kimiMediaStartId :: image) = .media := by
      unfold scanState at ih ⊢
      rw [scanFrom_append, ih, scanFrom_cons]
      exact hinside
    rw [scanState_snoc, hmedia]
    rfl

theorem scanState_body_iff (text : List Int) : scanState text = .userBody ↔ OpenBody text := by
  constructor
  · intro hstate
    have hopen := describes_scan text
    rw [hstate] at hopen
    exact hopen
  · exact OpenBody.scan

/-! ### Protection -/

theorem classifyFrom_getElem? (state : PromptScan) (prompt : List Int) (i : Nat) :
    (classifyFrom state prompt)[i]? =
      prompt[i]?.map fun t => (classifyToken (scanFrom state (prompt.take i)) t).2 := by
  induction prompt generalizing state i with
  | nil => rfl
  | cons t prompt ih =>
    unfold classifyFrom
    cases i with
    | zero => rfl
    | succ i =>
      rw [List.getElem?_cons_succ, List.getElem?_cons_succ, ih, List.take_succ_cons, scanFrom_cons]

/-- The family of one token of the template. -/
theorem structural_control_iff (state : PromptScan) {t : Int} (ht : t ∈ structuralIds) :
    (classifyToken state t).2 = .control ↔ ¬ (t ∈ strayIds ∧ state = .userBody) := by
  simp only [structuralIds, List.mem_cons, List.not_mem_nil, or_false] at ht
  rcases ht with rfl | rfl | rfl | rfl | rfl | rfl | rfl <;> cases state <;> decide

/-- A position whose experts are never skipped. -/
def ProtectedAt (prompt : List Int) (i : Nat) : Prop :=
  (classifyPrompt prompt)[i]? = some .control ∧
    ∀ (F D : Type) (fl : SkipFloats F D) table family layer ws result,
      (classifyPrompt prompt)[i]? = some family →
      kvlMoeDynskipApplyPolicy fl table family layer ws = some result →
      result.keep = List.replicate ws.length true ∧ result.skipped = 0

theorem protectedAt_of_control {prompt : List Int} {i : Nat}
    (h : (classifyPrompt prompt)[i]? = some .control) : ProtectedAt prompt i := by
  refine ⟨h, fun F D fl table family layer ws result hfamily hresult => ?_⟩
  obtain rfl := Option.some.inj (h.symm.trans hfamily)
  unfold kvlMoeDynskipApplyPolicy at hresult
  dsimp only at hresult
  split at hresult
  · cases hresult
  · rw [if_pos ⟨by decide, by decide⟩] at hresult
    obtain rfl := Option.some.inj hresult
    exact ⟨rfl, rfl⟩

/-- All tokens of the template are protected exactly if no stray marker stands in
the body of a user message. -/
theorem structural_protected_iff (prompt : List Int) :
    (∀ i, ∀ t ∈ prompt[i]?, t ∈ structuralIds → ProtectedAt prompt i) ↔
      ∀ i, ∀ t ∈ prompt[i]?, t ∈ strayIds → ¬ OpenBody (prompt.take i) := by
  have hfamily : ∀ i, ∀ t ∈ prompt[i]?, t ∈ structuralIds →
      ((classifyPrompt prompt)[i]? = some .control ↔
        ¬ (t ∈ strayIds ∧ OpenBody (prompt.take i))) := by
    intro i t ht hstructural
    unfold classifyPrompt
    rw [classifyFrom_getElem?, ht, Option.map_some, Option.some.injEq,
      structural_control_iff _ hstructural, ← scanState_body_iff]
    rfl
  constructor
  · intro hall i t ht hstray hbody
    have hstructural : t ∈ structuralIds := by
      simp only [strayIds, structuralIds, List.mem_cons, List.not_mem_nil, or_false] at hstray ⊢
      rcases hstray with rfl | rfl | rfl <;> simp
    exact (hfamily i t ht hstructural).mp (hall i t ht hstructural).1 ⟨hstray, hbody⟩
  · intro hall i t ht hstructural
    apply protectedAt_of_control
    rw [hfamily i t ht hstructural]
    rintro ⟨hstray, hbody⟩
    exact hall i t ht hstray hbody

/-- An assistant marker in the body of a user message is classified as content. -/
theorem structural_not_protected : ¬ ∀ (prompt : List Int) (i : Nat) (t : Int),
    prompt[i]? = some t → t ∈ structuralIds → ProtectedAt prompt i := by
  intro hall
  have hcontrol := (hall [kimiImUserId, kimiImMiddleId, kimiImAssistantId] 2 kimiImAssistantId rfl
    (by decide)).1
  exact absurd hcontrol (by decide)

end Kvl
