import Kvl.Lib.BinaryFormat
import Kvl.Lib.PyNumber
import Kvl.Router.SkipSim

/-!
# Policy files as text

`kvl_moe_dynskip_load_policy` and the `load_policy` of the simulator read the same file: what each
makes of it, and when both have loaded the policies that its lines give.
-/

namespace Kvl.PolicyFile

set_option autoImplicit false

open CText (TextNumber DecimalText Numeral Delimited spaces fileLines cstr nl isSpace scanWord
  scanInt scanFloat)
open PyText (Str strip split splitlines pyInt pyFloat isspace split_spaces split_word split_last
  strip_spaces strip_head strip_blank linesFrom_line numeral_str decimal_str)
open BinaryFormat (roundTo toFormat roundTo_mem roundTo_zero)

def single : ℚ → ℚ := roundTo 24 (-149)
def double : ℚ → ℚ := roundTo 53 (-1074)

/-! ### The runtime -/

/-- `g_policy` and `g_policy_enabled`. -/
abbrev Policies := (MoeFamily → Nat → DynskipPolicy ℚ) × Bool

def kvlMoeDynskipResetPolicy : Policies := (fun _ _ => ⟨0, 0⟩, false)

def wordString (word : List UInt8) : String := String.ofList (word.map fun c => Char.ofNat c.toNat)

/-- `sscanf` with `%31s %d %f %d %c`, where `none` is any count but 4. -/
def scanPolicy (p : List UInt8) : Option (List UInt8 × Int × TextNumber × Int) :=
  (scanWord 31 p).bind fun w => (scanInt w.2).bind fun l => (scanFloat l.2).bind fun t =>
    (scanInt t.2).bind fun k =>
      if k.2.dropWhile isSpace = [] then some (w.1, l.1, t.1, k.1) else none

def lineBlank (c : UInt8) : Bool := c == 32 || c == 9 || c == 13 || c == 10

/-- A round of the loop over the lines, with the count of entries; `none` is a line that ends it.
`set_policy` refuses a threshold that is not finite, and one that is above 1, which is what a number
that overflows stays. -/
def loadLine (st : Policies × Nat) (line : List UInt8) : Option (Policies × Nat) :=
  let p := (cstr line).dropWhile lineBlank
  if p = [] ∨ p.head? = some 35 then some st
  else
    (scanPolicy p).bind fun s => (toFormat 24 (-149) s.2.2.1).bind fun threshold =>
      (kvlMoeDynskipSetPolicy (exactSkip ratSkipFloats)
        ⟨wordString s.1, s.2.1, threshold, s.2.2.2⟩ st.1).map fun g => (g, st.2 + 1)

/-- `kvl_moe_dynskip_load_policy` of a file that opens: its result and the policies in force. -/
def loadPolicyFile (file : List UInt8) : Int × Policies :=
  match (fileLines 512 file).foldlM loadLine (kvlMoeDynskipResetPolicy, 0) with
  | none => (-1, kvlMoeDynskipResetPolicy)
  | some (g, entries) =>
    if entries = 0 ∨ g.2 = false then (-1, kvlMoeDynskipResetPolicy) else (0, g)

/-! ### The simulator -/

def strString (s : Str) : String := String.ofList (s.map Char.ofNat)

/-- A line of the file before its values are checked, which a number that is not finite fails. -/
def simLine (raw : Str) : Option (Option (PolicyLine ℚ)) :=
  let line := strip raw
  if line = [] ∨ line.head? = some 35 then some none
  else
    match split line with
    | [family, layer, threshold, minKeep] =>
      if simFamily (strString family) = none then none
      else
        (pyInt layer).bind fun l => ((pyFloat threshold).bind (toFormat 53 (-1074))).bind fun t =>
          (pyInt minKeep).map fun k => some ⟨strString family, l, t, k⟩
    | _ => none

def simLoadPolicyFile (file : Str) : Option (List ((MoeFamily × Int) × (ℚ × Int))) :=
  ((splitlines file).mapM simLine).bind fun lines => simLoadPolicy lines.reduceOption

/-! ### What a file says -/

structure PolicyEntry where
  family : MoeFamily
  layer : Numeral
  threshold : DecimalText
  minKeep : Numeral
  family_ne : family ≠ .control
  layer_range : 1 ≤ layer.value ∧ layer.value ≤ 255
  threshold_le : threshold.value ≤ 1
  minKeep_range : 1 ≤ minKeep.value ∧ minKeep.value ≤ 256

def familyWord : MoeFamily → List UInt8
  | .content => [99, 111, 110, 116, 101, 110, 116]
  | .media => [109, 101, 100, 105, 97]
  | .control => [99, 111, 110, 116, 114, 111, 108]

/-- The four fields with gaps between them, and what follows. -/
def PolicyEntry.fields (e : PolicyEntry) (a b c : Nat) (tail : List UInt8) : List UInt8 :=
  familyWord e.family ++ (spaces (a + 1) ++ e.layer.digits ++ (spaces (b + 1) ++
    e.threshold.bytes ++ (spaces (c + 1) ++ e.minKeep.digits ++ tail)))

inductive TextLine where
  | blank (n : Nat)
  | comment (n : Nat) (text : List UInt8) (printable : ∀ c ∈ text, 32 ≤ c ∧ c < 127)
  | entry (before a b c after : Nat) (e : PolicyEntry)

def TextLine.bytes : TextLine → List UInt8
  | .blank n => spaces n
  | .comment n text _ => spaces n ++ 35 :: text
  | .entry before a b c after e => spaces before ++ e.fields a b c (spaces after)

def TextLine.entry? : TextLine → Option PolicyEntry
  | .entry _ _ _ _ _ e => some e
  | _ => none

/-- A policy file of short lines. -/
structure PolicyText where
  lines : List TextLine
  short : ∀ line ∈ lines, line.bytes.length < 511

def PolicyText.bytes (t : PolicyText) : List UInt8 := t.lines.flatMap fun line => line.bytes ++ [nl]

def PolicyText.entries (t : PolicyText) : List PolicyEntry := t.lines.filterMap TextLine.entry?

abbrev Table := MoeFamily → Int → Option PolicyEntry

def update (t : Table) (e : PolicyEntry) : Table := fun f l =>
  if f = e.family ∧ l = e.layer.value then some e else t f l

/-- The lines in order, a later one over an earlier one of its family and layer. -/
def PolicyText.table (t : PolicyText) : Table := t.entries.foldl update fun _ _ => none

/-- What is in force for a family and a layer: nothing, without an entry. -/
def inForce : Option PolicyEntry → DynskipPolicy ℚ
  | none => ⟨0, 0⟩
  | some e => ⟨single e.threshold.value, e.minKeep.value⟩

/-- The table has a threshold that is positive after `round`. -/
def Table.Active (t : Table) (round : ℚ → ℚ) : Prop :=
  ∃ f l e, t f l = some e ∧ 0 < round e.threshold.value

/-- Both loaders make of the text what its lines say. -/
structure LoadsExactly (t : PolicyText) : Prop where
  succeeds : (loadPolicyFile t.bytes).1 = 0 ↔ t.table.Active id
  policies : (loadPolicyFile t.bytes).1 = 0 → ∀ (f : MoeFamily) (l : Nat),
    (loadPolicyFile t.bytes).2.1 f l = inForce (t.table f l)
  accepts : (∃ out, simLoadPolicyFile (PyText.ascii t.bytes) = some out) ↔ (loadPolicyFile t.bytes).1 = 0
  simulator : ∀ out, simLoadPolicyFile (PyText.ascii t.bytes) = some out → ∀ (f : MoeFamily) (l : Int),
    Dict.get (f, l) out =
      (t.table f l).map fun e => (double e.threshold.value, (e.minKeep.value : Int))

theorem single_one : 0 < single 1 := by
  rw [single, BinaryFormat.roundTo_one (by decide) (by decide)]
  exact zero_lt_one

/-! ### The runtime reads a line -/

theorem fields_append (e : PolicyEntry) (a b c : Nat) (s t : List UInt8) :
    e.fields a b c s ++ t = e.fields a b c (s ++ t) := by
  simp only [PolicyEntry.fields, List.append_assoc]

theorem familyWord_spec (f : MoeFamily) : familyWord f ≠ [] ∧ (familyWord f).length ≤ 31 ∧
    (∀ c ∈ familyWord f, isSpace c = false ∧ isspace c.toNat = false ∧ lineBlank c = false ∧ c ≠ 35) ∧
    parseFamily (wordString (familyWord f)) = some f := by
  cases f <;> decide +kernel

theorem delimited_spaces (n : Nat) (s : List UInt8) : Delimited (spaces (n + 1) ++ s) := by
  intro c hc
  obtain rfl := Option.some.inj hc
  rfl

theorem delimited_of_forall {s : List UInt8} (h : ∀ c ∈ s, isSpace c = true) : Delimited s :=
  fun c hc => h c (List.mem_of_mem_head? hc)

theorem scanPolicy_fields (e : PolicyEntry) (a b c : Nat) {tail : List UInt8}
    (htail : ∀ c ∈ tail, isSpace c = true) :
    scanPolicy (e.fields a b c tail) =
      some (familyWord e.family, (e.layer.value : Int), TextNumber.finite false e.threshold.value,
        (e.minKeep.value : Int)) := by
  obtain ⟨hne, hlen, hword, -⟩ := familyWord_spec e.family
  have hfamily := CText.scanWord_word 0 hne (fun c hc => (hword c hc).1) hlen
    (delimited_spaces a (e.layer.digits ++ (spaces (b + 1) ++ e.threshold.bytes ++
      (spaces (c + 1) ++ e.minKeep.digits ++ tail))))
  have hlayer := CText.scanInt_numeral (a + 1) e.layer (by have := e.layer_range; omega)
    (delimited_spaces b (e.threshold.bytes ++ (spaces (c + 1) ++ e.minKeep.digits ++ tail)))
  have hthreshold := CText.scanFloat_decimal (b + 1) e.threshold
    (delimited_spaces c (e.minKeep.digits ++ tail))
  have hminKeep := CText.scanInt_numeral (c + 1) e.minKeep (by have := e.minKeep_range; omega)
    (delimited_of_forall htail)
  have hend : tail.dropWhile isSpace = [] := List.dropWhile_eq_nil_iff.mpr htail
  simp only [List.append_assoc] at hfamily hlayer hthreshold hminKeep
  unfold scanPolicy PolicyEntry.fields
  simp only [List.append_assoc]
  rw [show familyWord e.family ++ (spaces (a + 1) ++ (e.layer.digits ++ (spaces (b + 1) ++
    (e.threshold.bytes ++ (spaces (c + 1) ++ (e.minKeep.digits ++ tail)))))) =
    spaces 0 ++ (familyWord e.family ++ (spaces (a + 1) ++ (e.layer.digits ++ (spaces (b + 1) ++
    (e.threshold.bytes ++ (spaces (c + 1) ++ (e.minKeep.digits ++ tail))))))) from rfl]
  rw [hfamily, Option.bind_some, hlayer, Option.bind_some, hthreshold, Option.bind_some, hminKeep,
    Option.bind_some, if_pos hend]

/-- The line that the entry gives a loader, with its threshold in the loader's format. -/
def PolicyEntry.line (round : ℚ → ℚ) (e : PolicyEntry) : PolicyLine ℚ :=
  ⟨wordString (familyWord e.family), e.layer.value, round e.threshold.value, e.minKeep.value⟩

theorem single_mem (e : PolicyEntry) :
    0 ≤ single e.threshold.value ∧ single e.threshold.value ≤ 1 :=
  roundTo_mem (by decide) (by decide) (DecimalText.value_nonneg _) e.threshold_le

theorem double_mem (e : PolicyEntry) :
    0 ≤ double e.threshold.value ∧ double e.threshold.value ≤ 1 :=
  roundTo_mem (by decide) (by decide) (DecimalText.value_nonneg _) e.threshold_le

theorem setPolicy_entry (e : PolicyEntry) (g : Policies) :
    kvlMoeDynskipSetPolicy (exactSkip ratSkipFloats) (e.line single) g =
      some (fun f (l : Nat) => if f = e.family ∧ (l : Int) = e.layer.value
          then inForce (some e) else g.1 f l,
        if 0 < single e.threshold.value then true else g.2) := by
  obtain ⟨hlo, hhi⟩ := single_mem e
  have hlayer := e.layer_range
  have hkeep := e.minKeep_range
  have hfamily : e.family = .content ∨ e.family = .media := by
    have hne := e.family_ne
    cases hf : e.family with
    | control => exact absurd hf hne
    | content => exact .inl rfl
    | media => exact .inr rfl
  unfold kvlMoeDynskipSetPolicy PolicyEntry.line
  dsimp only
  rw [(familyWord_spec e.family).2.2.2]
  dsimp only
  rw [if_neg]
  · simp [exactSkip, inForce]
  · simp only [exactSkip, dynskipFirstMoeLayer, dynskipMaxLayers, dynskipMaxTopk, decide_eq_true_iff,
      not_or, not_lt]
    refine ⟨fun h => ?_, by omega, by omega, by decide, hlo, hhi, by omega, by omega⟩
    exact hfamily.elim h.1 h.2

theorem digit_plain {c : UInt8} (h : CText.isDigit c = true) : c ≠ 0 ∧ c ≠ nl := by
  revert c
  decide +kernel

theorem decimal_plain (d : DecimalText) : ∀ c ∈ d.bytes, c ≠ 0 ∧ c ≠ nl := by
  intro c hc
  rcases DecimalText.mem_bytes hc with rfl | hdigit
  · decide
  · exact digit_plain hdigit

theorem line_plain (line : TextLine) : ∀ c ∈ line.bytes, c ≠ 0 ∧ c ≠ nl := by
  have hspaces (n : Nat) : ∀ c ∈ spaces n, c ≠ 0 ∧ c ≠ nl := fun c hc => by
    rw [CText.mem_spaces hc]
    decide
  have hword (f : MoeFamily) : ∀ c ∈ familyWord f, c ≠ 0 ∧ c ≠ nl := by
    cases f <;> decide +kernel
  cases line with
  | blank n => exact hspaces n
  | comment n text printable =>
    intro c hc
    rcases List.mem_append.mp hc with hc | hc
    · exact hspaces n c hc
    rcases List.mem_cons.mp hc with rfl | hc
    · decide
    · have hlo := (printable c hc).1
      have hzero : ¬ (32 : UInt8) ≤ 0 := by decide
      have hnl : ¬ (32 : UInt8) ≤ nl := by decide
      exact ⟨fun h => hzero (h ▸ hlo), fun h => hnl (h ▸ hlo)⟩
  | entry before a b c after e =>
    intro x hx
    simp only [TextLine.bytes, PolicyEntry.fields, List.mem_append] at hx
    rcases hx with hx | hx | (hx | hx) | (hx | hx) | (hx | hx) | hx
    · exact hspaces _ x hx
    · exact hword _ x hx
    · exact hspaces _ x hx
    · exact digit_plain (e.layer.valid x hx)
    · exact hspaces _ x hx
    · exact decimal_plain _ x hx
    · exact hspaces _ x hx
    · exact digit_plain (e.minKeep.valid x hx)
    · exact hspaces _ x hx

theorem cstr_line (line : TextLine) : cstr (line.bytes ++ [nl]) = line.bytes ++ [nl] := by
  refine List.takeWhile_eq_self_iff.mpr fun c hc => ?_
  rcases List.mem_append.mp hc with hc | hc
  · exact bne_iff_ne.mpr (line_plain line c hc).1
  · rw [List.mem_singleton.mp hc]
    rfl

theorem dropWhile_blank (n : Nat) {c : UInt8} {s : List UInt8} (h : lineBlank c = false) :
    (spaces n ++ c :: s).dropWhile lineBlank = c :: s :=
  CText.dropWhile_spaces rfl n (CText.dropWhile_head h)

/-- What the runtime does with a line is what its entry says. -/
theorem loadLine_line (st : Policies × Nat) (line : TextLine) :
    loadLine st (line.bytes ++ [nl]) =
      match line.entry? with
      | none => some st
      | some e => (kvlMoeDynskipSetPolicy (exactSkip ratSkipFloats) (e.line single) st.1).map
          fun g => (g, st.2 + 1) := by
  unfold loadLine
  rw [cstr_line]
  dsimp only
  cases line with
  | blank n =>
    have hdrop : ((TextLine.blank n).bytes ++ [nl]).dropWhile lineBlank = [] := by
      refine List.dropWhile_eq_nil_iff.mpr fun c hc => ?_
      rcases List.mem_append.mp hc with hc | hc
      · rw [CText.mem_spaces hc]
        rfl
      · rw [List.mem_singleton.mp hc]
        rfl
    rw [hdrop, if_pos (.inl rfl)]
    rfl
  | comment n text printable =>
    have hdrop : ((TextLine.comment n text printable).bytes ++ [nl]).dropWhile lineBlank =
        35 :: (text ++ [nl]) := by
      rw [TextLine.bytes, List.append_assoc]
      exact dropWhile_blank n rfl
    rw [hdrop, if_pos (.inr rfl)]
    rfl
  | entry before a b c after e =>
    obtain ⟨hne, -, hword, -⟩ := familyWord_spec e.family
    obtain ⟨x, xs, hx⟩ := List.exists_cons_of_ne_nil hne
    have hhead : ∃ s, e.fields a b c (spaces after ++ [nl]) = x :: s := by
      rw [PolicyEntry.fields, hx]
      exact ⟨_, rfl⟩
    obtain ⟨s, hs⟩ := hhead
    obtain ⟨-, -, hblank, hhash⟩ := hword x (by rw [hx]; exact List.mem_cons_self)
    have hdrop : ((TextLine.entry before a b c after e).bytes ++ [nl]).dropWhile lineBlank =
        e.fields a b c (spaces after ++ [nl]) := by
      rw [TextLine.bytes, List.append_assoc, fields_append, hs]
      exact dropWhile_blank before hblank
    have htail : ∀ y ∈ spaces after ++ [nl], isSpace y = true := by
      intro y hy
      rcases List.mem_append.mp hy with hy | hy
      · rw [CText.mem_spaces hy]
        rfl
      · rw [List.mem_singleton.mp hy]
        rfl
    rw [hdrop, if_neg, scanPolicy_fields e a b c htail]
    · rfl
    · rw [hs]
      rintro (h | h)
      · cases h
      · exact hhash (Option.some.inj h)

theorem fileLines_text (t : PolicyText) :
    fileLines 512 t.bytes = t.lines.map fun line => line.bytes ++ [nl] := by
  obtain ⟨lines, short⟩ := t
  unfold PolicyText.bytes
  dsimp only
  induction lines with
  | nil => rfl
  | cons line lines ih =>
    obtain ⟨hline, hrest⟩ := List.forall_mem_cons.mp short
    have hne : line.bytes ++ [nl] ≠ [] := List.append_ne_nil_of_right_ne_nil _ (List.cons_ne_nil _ _)
    have hlen : (line.bytes ++ [nl]).length ≤ 512 - 1 := by
      rw [List.length_append, List.length_singleton]
      omega
    have hinner : nl ∉ (line.bytes ++ [nl]).dropLast := by
      rw [List.dropLast_concat]
      exact fun hmem => (line_plain line nl hmem).2 rfl
    rw [List.flatMap_cons, List.map_cons, CText.fileLines_append (by decide) _ List.getLast?_concat,
      CText.fileLines_of_ne_nil (by decide) hne, CText.fgets_of_notMem_dropLast _ hinner,
      List.take_of_length_le hlen, List.drop_of_length_le hlen, CText.fileLines_nil, ih hrest]
    rfl

/-- The runtime goes through the entries of the file. -/
theorem loadLines_eq (lines : List TextLine) (g : Policies) (n : Nat) :
    (lines.map fun line => line.bytes ++ [nl]).foldlM loadLine (g, n) =
      (((lines.filterMap TextLine.entry?).map (PolicyEntry.line single)).foldlM (fun g line =>
        kvlMoeDynskipSetPolicy (exactSkip ratSkipFloats) line g) g).map fun g' =>
          (g', n + (lines.filterMap TextLine.entry?).length) := by
  induction lines generalizing g n with
  | nil => rfl
  | cons line lines ih =>
    rw [List.map_cons, List.foldlM_cons, loadLine_line]
    cases hentry : line.entry? with
    | none =>
      rw [List.filterMap_cons_none hentry]
      exact ih g n
    | some e =>
      rw [List.filterMap_cons_some hentry, List.map_cons, List.foldlM_cons, List.length_cons]
      dsimp only
      cases hset : kvlMoeDynskipSetPolicy (exactSkip ratSkipFloats) (e.line single) g with
      | none => rfl
      | some g₁ =>
        have hcount : n + ((lines.filterMap TextLine.entry?).length + 1) =
            n + 1 + (lines.filterMap TextLine.entry?).length := by omega
        rw [hcount]
        exact ih g₁ (n + 1)

/-- After its entries the runtime has the table that they give, and has seen each positive
threshold, be it still in the table or not. -/
theorem setEntries (es : List PolicyEntry) (g : Policies) (t : Table)
    (h : ∀ (f : MoeFamily) (l : Nat), g.1 f l = inForce (t f l)) :
    ∃ g', (es.map (PolicyEntry.line single)).foldlM (fun g line =>
        kvlMoeDynskipSetPolicy (exactSkip ratSkipFloats) line g) g = some g' ∧
      (∀ (f : MoeFamily) (l : Nat), g'.1 f l = inForce (es.foldl update t f l)) ∧
      (g'.2 = true ↔ g.2 = true ∨ ∃ e ∈ es, 0 < single e.threshold.value) := by
  induction es generalizing g t with
  | nil => exact ⟨g, rfl, h, by simp⟩
  | cons e es ih =>
    have hset : ∀ (f : MoeFamily) (l : Nat),
        (if f = e.family ∧ (l : Int) = e.layer.value then inForce (some e) else g.1 f l) =
          inForce (update t e f l) := by
      intro f l
      unfold update
      by_cases hhere : f = e.family ∧ (l : Int) = e.layer.value
      · rw [if_pos hhere, if_pos hhere]
      · rw [if_neg hhere, if_neg hhere]
        exact h f l
    obtain ⟨g', hrun, htable, henabled⟩ := ih
      (fun f (l : Nat) => if f = e.family ∧ (l : Int) = e.layer.value then inForce (some e)
        else g.1 f l, if 0 < single e.threshold.value then true else g.2) (update t e) hset
    refine ⟨g', ?_, htable, ?_⟩
    · rw [List.map_cons, List.foldlM_cons, setPolicy_entry]
      exact hrun
    · rw [henabled]
      by_cases hpos : 0 < single e.threshold.value
      · simp [hpos]
      · simp [hpos]

/-- Reading a file is loading the fields of its entries. -/
theorem loadPolicyFile_fields (t : PolicyText) :
    loadPolicyFile t.bytes =
      match kvlMoeDynskipLoadPolicy (exactSkip ratSkipFloats)
        (t.entries.map (PolicyEntry.line single)) with
      | none => (-1, kvlMoeDynskipResetPolicy)
      | some table => (0, (table, true)) := by
  have hlines := loadLines_eq t.lines kvlMoeDynskipResetPolicy 0
  rw [← PolicyText.entries] at hlines
  have hempty : 0 + t.entries.length = 0 ↔ t.entries.map (PolicyEntry.line single) = [] := by
    rw [Nat.zero_add, List.length_eq_zero_iff, List.map_eq_nil_iff]
  unfold loadPolicyFile
  rw [fileLines_text, hlines]
  cases hrun : (t.entries.map (PolicyEntry.line single)).foldlM (fun g line =>
      kvlMoeDynskipSetPolicy (exactSkip ratSkipFloats) line g) kvlMoeDynskipResetPolicy with
  | none =>
    have hload : kvlMoeDynskipLoadPolicy (exactSkip ratSkipFloats)
        (t.entries.map (PolicyEntry.line single)) = none := by
      unfold kvlMoeDynskipLoadPolicy
      split
      · rfl
      · rename_i hsome
        cases hrun.symm.trans hsome
    rw [hload]
    rfl
  | some g =>
    have hload : kvlMoeDynskipLoadPolicy (exactSkip ratSkipFloats)
        (t.entries.map (PolicyEntry.line single)) =
          if t.entries.map (PolicyEntry.line single) = [] ∨ g.2 = false then none
          else some g.1 := by
      unfold kvlMoeDynskipLoadPolicy
      split
      · rename_i hnone
        cases hrun.symm.trans hnone
      · rename_i hsome
        rw [Option.some.inj (hrun.symm.trans hsome)]
    rw [hload, Option.map_some]
    dsimp only
    by_cases hoff : t.entries.map (PolicyEntry.line single) = [] ∨ g.2 = false
    · rw [if_pos hoff, if_pos (hoff.imp_left hempty.mpr)]
    · rw [if_neg hoff, if_neg (fun h => hoff (h.imp_left hempty.mp))]
      have hon : g.2 = true := Bool.not_eq_false _ ▸ (not_or.mp hoff).2
      rw [← hon]

/-- A line has a threshold that is positive in single precision. -/
def PolicyText.Armed (t : PolicyText) : Prop := ∃ e ∈ t.entries, 0 < single e.threshold.value

theorem loadPolicyFile_text (t : PolicyText) :
    ((loadPolicyFile t.bytes).1 = 0 ↔ t.Armed) ∧
      (t.Armed → ∀ (f : MoeFamily) (l : Nat),
        (loadPolicyFile t.bytes).2.1 f l = inForce (t.table f l)) := by
  obtain ⟨g, hset, htable, henabled⟩ := setEntries t.entries kvlMoeDynskipResetPolicy
    (fun _ _ => none) (fun _ _ => rfl)
  have hrun := loadLines_eq t.lines kvlMoeDynskipResetPolicy 0
  rw [← PolicyText.entries, hset, Option.map_some] at hrun
  have harmed : g.2 = true ↔ t.Armed := henabled.trans (or_iff_right Bool.false_ne_true)
  have hnone : t.entries = [] → ¬ t.Armed := by
    rintro h ⟨e, he, -⟩
    rw [h] at he
    cases he
  unfold loadPolicyFile
  rw [fileLines_text, hrun]
  dsimp only
  by_cases hon : t.Armed
  · have hentries : 0 + t.entries.length ≠ 0 := fun hlen =>
      hnone (List.eq_nil_of_length_eq_zero ((Nat.zero_add _).symm.trans hlen)) hon
    rw [if_neg]
    · exact ⟨⟨fun _ => hon, fun _ => rfl⟩, fun _ => htable⟩
    · rintro (hlen | hoff)
      · exact hentries hlen
      · rw [harmed.mpr hon] at hoff
        cases hoff
  · have hoff : g.2 = false := Bool.eq_false_iff.mpr fun h => hon (harmed.mp h)
    rw [if_pos (.inr hoff)]
    exact ⟨⟨fun h => absurd h (by decide), fun h => absurd h hon⟩, fun h => absurd h hon⟩

/-! ### The simulator reads a line -/

theorem word_str (f : MoeFamily) :
    PyText.ascii (familyWord f) ≠ [] ∧ (∀ c ∈ PyText.ascii (familyWord f), isspace c = false) ∧
      strString (PyText.ascii (familyWord f)) = wordString (familyWord f) := by
  cases f <;> decide +kernel

theorem split_fields (e : PolicyEntry) (a b c : Nat) :
    split (PyText.ascii (e.fields a b c [])) = [PyText.ascii (familyWord e.family), PyText.ascii e.layer.digits,
      PyText.ascii e.threshold.bytes, PyText.ascii e.minKeep.digits] := by
  obtain ⟨hword, hwordSpace, -⟩ := word_str e.family
  obtain ⟨hlayer, hlayerSpace⟩ := numeral_str e.layer
  obtain ⟨hthreshold, hthresholdSpace⟩ := decimal_str e.threshold
  obtain ⟨hkeep, hkeepSpace⟩ := numeral_str e.minKeep
  have hgap (n : Nat) (s : List UInt8) : PyText.ascii (spaces (n + 1) ++ s) = 32 :: PyText.ascii (spaces n ++ s) :=
    rfl
  unfold PolicyEntry.fields
  rw [PyText.ascii_append, List.append_assoc, hgap, split_word hword hwordSpace, PyText.ascii_append,
    split_spaces, PyText.ascii_append, List.append_assoc, hgap, split_word hlayer hlayerSpace,
    PyText.ascii_append, split_spaces, PyText.ascii_append, List.append_assoc, hgap,
    split_word hthreshold hthresholdSpace, PyText.ascii_append, split_spaces, List.append_nil,
    split_last hkeep hkeepSpace]

theorem strip_fields (e : PolicyEntry) (before a b c after : Nat) :
    strip (PyText.ascii (spaces before ++ e.fields a b c (spaces after))) = PyText.ascii (e.fields a b c []) := by
  have htail : e.fields a b c (spaces after) = e.fields a b c [] ++ spaces after := by
    rw [fields_append, List.nil_append]
  obtain ⟨hword, hwordSpace, -⟩ := word_str e.family
  obtain ⟨hkeep, hkeepSpace⟩ := numeral_str e.minKeep
  obtain ⟨x, xs, hx⟩ := List.exists_cons_of_ne_nil hword
  have hhead : ∃ s, PyText.ascii (e.fields a b c []) = x :: s := by
    rw [PolicyEntry.fields, PyText.ascii_append, hx]
    exact ⟨_, rfl⟩
  have hlast : ∃ s, PyText.ascii (e.fields a b c []) = s ++ PyText.ascii e.minKeep.digits := by
    refine ⟨PyText.ascii (familyWord e.family ++ (spaces (a + 1) ++ e.layer.digits ++ (spaces (b + 1) ++
      e.threshold.bytes ++ spaces (c + 1)))), ?_⟩
    rw [← PyText.ascii_append]
    simp only [PolicyEntry.fields, List.append_assoc, List.append_nil]
  obtain ⟨s, hs⟩ := hhead
  obtain ⟨t, ht⟩ := hlast
  rw [htail, PyText.ascii_append, PyText.ascii_append, hs, ← List.append_assoc]
  refine strip_spaces before after (hwordSpace x (by rw [hx]; exact List.mem_cons_self)) ?_
  intro y hy
  rw [← hs, ht, List.getLast?_append_of_ne_nil _ hkeep] at hy
  exact hkeepSpace y (List.mem_of_getLast? hy)

/-- A line of the file leaves room for no numeral that Python would refuse. -/
theorem digits_short {line : TextLine} {e : PolicyEntry} (h : line.entry? = some e)
    (hshort : line.bytes.length < 511) :
    e.layer.digits.length ≤ PyText.maxStrDigits ∧ e.minKeep.digits.length ≤ PyText.maxStrDigits := by
  cases line with
  | blank n => cases h
  | comment n text printable => cases h
  | entry before a b c after e' =>
    obtain rfl := Option.some.inj h
    simp only [TextLine.bytes, PolicyEntry.fields, List.length_append] at hshort
    unfold PyText.maxStrDigits
    omega

theorem simLine_line (line : TextLine) (hshort : line.bytes.length < 511) :
    simLine (PyText.ascii line.bytes) = some (line.entry?.map (PolicyEntry.line double)) := by
  cases hline : line with
  | blank n =>
    unfold simLine TextLine.bytes
    dsimp only
    rw [strip_blank, if_pos (.inl rfl)]
    rfl
  | comment n text printable =>
    have hhead : (strip (PyText.ascii (spaces n ++ 35 :: text))).head? = some 35 := by
      rw [PyText.ascii_append]
      exact strip_head n rfl
    unfold simLine TextLine.bytes
    dsimp only
    rw [if_pos (.inr hhead)]
    rfl
  | entry before a b c after e =>
    obtain ⟨hlayer, hkeep⟩ := digits_short (hline ▸ rfl : line.entry? = some e) hshort
    obtain ⟨hword, hwordSpace, hstring⟩ := word_str e.family
    have hfields : ∃ x s, PyText.ascii (e.fields a b c []) = x :: s ∧ x ≠ 35 := by
      rw [PolicyEntry.fields, PyText.ascii_append]
      cases e.family <;> exact ⟨_, _, rfl, by decide⟩
    obtain ⟨x, s, hx, hhash⟩ := hfields
    have hfamily : simFamily (wordString (familyWord e.family)) ≠ none := by
      have hne := e.family_ne
      cases hf : e.family with
      | control => exact absurd hf hne
      | content => decide +kernel
      | media => decide +kernel
    unfold simLine TextLine.bytes
    dsimp only
    rw [strip_fields, split_fields, if_neg]
    · dsimp only
      rw [hstring, if_neg hfamily, PyText.pyInt_numeral _ hlayer, PyText.pyFloat_decimal,
        PyText.pyInt_numeral _ hkeep]
      rfl
    · rw [hx]
      rintro (h | h)
      · cases h
      · exact hhash (Option.some.inj h)

/-! ### The simulator reads a file -/

theorem line_endless (line : TextLine) : ∀ c ∈ PyText.ascii line.bytes, PyText.endsLine c = false := by
  have hdigit {c : UInt8} (h : CText.isDigit c = true) : PyText.endsLine c.toNat = false := by
    revert c
    decide +kernel
  have hprintable {c : UInt8} (h : 32 ≤ c ∧ c < 127) : PyText.endsLine c.toNat = false := by
    revert c
    decide +kernel
  have hspaces (n : Nat) : ∀ c ∈ spaces n, PyText.endsLine c.toNat = false := fun c hc => by
    rw [CText.mem_spaces hc]
    rfl
  have hword (f : MoeFamily) : ∀ c ∈ familyWord f, PyText.endsLine c.toNat = false := by
    cases f <;> decide +kernel
  have hspace {c : Nat} (h : isspace c = false) : PyText.endsLine c = false := by
    rw [Bool.eq_false_iff] at h ⊢
    intro hends
    apply h
    simp only [PyText.endsLine, Bool.or_eq_true, Bool.and_eq_true, decide_eq_true_eq, beq_iff_eq]
      at hends
    simp only [PyText.isspace, PyText.wideSpace, Bool.or_eq_true, Bool.and_eq_true,
      decide_eq_true_eq, beq_iff_eq]
    omega
  intro c hc
  obtain ⟨b, hb, rfl⟩ := List.mem_map.mp hc
  cases line with
  | blank n => exact hspaces n b hb
  | comment n text printable =>
    rcases List.mem_append.mp hb with hb | hb
    · exact hspaces n b hb
    rcases List.mem_cons.mp hb with rfl | hb
    · rfl
    · exact hprintable (printable b hb)
  | entry before a b' c after e =>
    simp only [TextLine.bytes, PolicyEntry.fields, List.mem_append] at hb
    rcases hb with hb | hb | (hb | hb) | (hb | hb) | (hb | hb) | hb
    · exact hspaces _ b hb
    · exact hword _ b hb
    · exact hspaces _ b hb
    · exact hdigit (e.layer.valid b hb)
    · exact hspaces _ b hb
    · exact hspace ((decimal_str e.threshold).2 _ (List.mem_map_of_mem hb))
    · exact hspaces _ b hb
    · exact hdigit (e.minKeep.valid b hb)
    · exact hspaces _ b hb

theorem splitlines_text (t : PolicyText) :
    splitlines (PyText.ascii t.bytes) = t.lines.map fun line => PyText.ascii line.bytes := by
  unfold PolicyText.bytes PyText.splitlines
  induction t.lines with
  | nil => rfl
  | cons line lines ih =>
    rw [List.flatMap_cons, PyText.ascii_append, PyText.ascii_append, List.append_assoc, List.map_cons,
      ← ih]
    exact linesFrom_line (line_endless line) [] _

theorem mapM_simLine (t : PolicyText) :
    (splitlines (PyText.ascii t.bytes)).mapM simLine =
      some (t.lines.map fun line => line.entry?.map (PolicyEntry.line double)) := by
  rw [splitlines_text]
  obtain ⟨lines, short⟩ := t
  dsimp only
  induction lines with
  | nil => rfl
  | cons line lines ih =>
    obtain ⟨hline, hrest⟩ := List.forall_mem_cons.mp short
    rw [List.map_cons, List.mapM_cons, simLine_line line hline, ih hrest]
    rfl

theorem reduceOption_lines (lines : List TextLine) :
    (lines.map fun line => line.entry?.map (PolicyEntry.line double)).reduceOption =
      (lines.filterMap TextLine.entry?).map (PolicyEntry.line double) := by
  rw [List.reduceOption, List.filterMap_map, List.map_filterMap]
  rfl

/-- What the simulator stores for an entry. -/
def PolicyEntry.stored (e : PolicyEntry) : ℚ × Int :=
  (double e.threshold.value, (e.minKeep.value : Int))

theorem simLoadLines (es : List PolicyEntry) (out : List ((MoeFamily × Int) × (ℚ × Int))) (t : Table)
    (h : ∀ f l, Dict.get (f, l) out = (t f l).map PolicyEntry.stored)
    (hnodup : (out.map Prod.fst).Nodup) :
    ∃ out', (es.map (PolicyEntry.line double)).foldlM (fun out line =>
        match simFamily line.family with
        | none => none
        | some family =>
          if line.layer < 1 ∨ ¬ (0 ≤ line.threshold ∧ line.threshold ≤ 1) ∨ line.minKeep < 1 then none
          else some (Dict.set (family, line.layer) (line.threshold, line.minKeep) out)) out =
        some out' ∧
      (∀ f l, Dict.get (f, l) out' = (es.foldl update t f l).map PolicyEntry.stored) ∧
      (out'.map Prod.fst).Nodup := by
  have hcontent : simFamily (wordString (familyWord .content)) = some .content := by decide +kernel
  have hmedia : simFamily (wordString (familyWord .media)) = some .media := by decide +kernel
  induction es generalizing out t with
  | nil => exact ⟨out, rfl, h, hnodup⟩
  | cons e es ih =>
    have hfamily : simFamily (e.line double).family = some e.family := by
      have hne := e.family_ne
      unfold PolicyEntry.line
      cases hf : e.family with
      | control => exact absurd hf hne
      | content => exact hcontent
      | media => exact hmedia
    have hset : ∀ f l, Dict.get (f, l) (Dict.set (e.family, (e.layer.value : Int)) e.stored out) =
        (update t e f l).map PolicyEntry.stored := by
      intro f l
      unfold update
      by_cases hhere : f = e.family ∧ l = e.layer.value
      · rw [if_pos hhere, hhere.1, hhere.2, Dict.get_set_self]
        rfl
      · rw [if_neg hhere, Dict.get_set_of_ne, h]
        exact fun heq => hhere (Prod.mk.inj heq)
    obtain ⟨out', hrun, htable, hnodup'⟩ := ih _ (update t e) hset (Dict.nodup_modify hnodup)
    refine ⟨out', ?_, htable, hnodup'⟩
    have hvalid : ¬ ((e.line double).layer < 1 ∨
        ¬ (0 ≤ (e.line double).threshold ∧ (e.line double).threshold ≤ 1) ∨
          (e.line double).minKeep < 1) := by
      have hlayer := e.layer_range
      have hkeep := e.minKeep_range
      have hunit := double_mem e
      simp only [PolicyEntry.line, not_or, not_not, not_lt]
      exact ⟨by omega, hunit, by omega⟩
    rw [List.map_cons, List.foldlM_cons, hfamily]
    dsimp only
    rw [if_neg hvalid]
    exact hrun

/-- The simulator keeps the table of the lines, and accepts it where it has a threshold that is
positive in double precision. -/
theorem simLoadPolicyFile_text (t : PolicyText) :
    ((∃ out, simLoadPolicyFile (PyText.ascii t.bytes) = some out) ↔ t.table.Active double) ∧
      ∀ out, simLoadPolicyFile (PyText.ascii t.bytes) = some out → ∀ (f : MoeFamily) (l : Int),
        Dict.get (f, l) out = (t.table f l).map PolicyEntry.stored := by
  obtain ⟨out, hrun, htable, hnodup⟩ := simLoadLines t.entries [] (fun _ _ => none)
    (fun _ _ => rfl) List.nodup_nil
  have hactive : (out.any fun item => decide (0 < item.2.1)) = true ↔ t.table.Active double := by
    rw [List.any_eq_true]
    constructor
    · rintro ⟨⟨⟨f, l⟩, v⟩, hmem, hpos⟩
      have hget := Dict.get_eq_some_of_mem hnodup hmem
      rw [htable, Option.map_eq_some_iff] at hget
      obtain ⟨e, he, rfl⟩ := hget
      exact ⟨f, l, e, he, of_decide_eq_true hpos⟩
    · rintro ⟨f, l, e, he, hpos⟩
      have hget : Dict.get (f, l) out = some e.stored := by
        rw [htable]
        exact congrArg (Option.map PolicyEntry.stored) he
      exact ⟨_, Dict.mem_of_get hget, decide_eq_true hpos⟩
  have hfile : simLoadPolicyFile (PyText.ascii t.bytes) =
      if out = [] ∨ (out.any fun item => decide (0 < item.2.1)) = false then none else some out := by
    unfold simLoadPolicyFile
    rw [mapM_simLine, Option.bind_some, reduceOption_lines]
    unfold simLoadPolicy
    split
    · rename_i hnone
      cases hrun.symm.trans hnone
    · rename_i out' hsome
      rw [Option.some.inj (hrun.symm.trans hsome)]
  rw [hfile]
  by_cases hon : t.table.Active double
  · have hany := hactive.mpr hon
    have hne : out ≠ [] := by
      rintro rfl
      cases hany
    rw [if_neg (not_or.mpr ⟨hne, by rw [hany]; decide⟩)]
    exact ⟨⟨fun _ => hon, fun _ => ⟨out, rfl⟩⟩, fun out' h => Option.some.inj h ▸ htable⟩
  · have hany : (out.any fun item => decide (0 < item.2.1)) = false :=
      Bool.eq_false_iff.mpr fun h => hon (hactive.mp h)
    rw [if_pos (.inr hany)]
    exact ⟨⟨fun ⟨_, h⟩ => (by cases h), fun h => absurd h hon⟩, fun _ h => (by cases h)⟩

/-! ### Where both load what the lines say -/

/-- The runtime counts a threshold that a later line takes back, and neither side counts one that
its format rounds to zero. -/
theorem policy_loads_exactly (t : PolicyText) (file : List UInt8) :
    ((loadPolicyFile file).1 ≠ 0 → (loadPolicyFile file).2 = kvlMoeDynskipResetPolicy) ∧
      (LoadsExactly t ↔
        (t.Armed ↔ t.table.Active id) ∧ (t.table.Active double ↔ t.table.Active id)) := by
  obtain ⟨hruns, hpolicies⟩ := loadPolicyFile_text t
  obtain ⟨haccepts, hstored⟩ := simLoadPolicyFile_text t
  constructor
  · unfold loadPolicyFile
    split
    · exact fun _ => rfl
    · split
      · exact fun _ => rfl
      · exact fun h => absurd rfl h
  · constructor
    · intro h
      exact ⟨hruns.symm.trans h.succeeds, haccepts.symm.trans (h.accepts.trans h.succeeds)⟩
    · rintro ⟨harmed, hdouble⟩
      exact ⟨hruns.trans harmed, fun h => hpolicies (hruns.mp h),
        haccepts.trans (hdouble.trans (harmed.symm.trans hruns.symm)), hstored⟩

/-- A threshold of 1 that the next line takes back: the runtime loads the file, with no threshold in
force, and the simulator refuses it. -/
theorem taken_back : ∃ t : PolicyText,
    PyText.ascii t.bytes = PyText.text "content 1 1 1\ncontent 1 0 1\n" ∧
      (loadPolicyFile t.bytes).1 = 0 ∧ simLoadPolicyFile (PyText.ascii t.bytes) = none ∧
      ¬ LoadsExactly t := by
  let numeral : Numeral := ⟨[49], List.cons_ne_nil _ _, by simp; decide⟩
  have hvalue : numeral.value = 1 := rfl
  let digit (c : UInt8) (h : CText.isDigit c = true) : DecimalText :=
    ⟨[c], none, List.cons_ne_nil _ _, by simpa using h⟩
  have hzero : (digit 48 rfl).value = 0 := by simp [digit, DecimalText.value, CText.digitsVal]
  have hone : (digit 49 rfl).value = 1 := by simp [digit, DecimalText.value, CText.digitsVal]
  let entry (d : DecimalText) (h : d.value ≤ 1) : PolicyEntry :=
    ⟨.content, numeral, d, numeral, by decide, by omega, h, by omega⟩
  let given := entry (digit 49 rfl) hone.le
  let back := entry (digit 48 rfl) (hzero.trans_le zero_le_one)
  have hlength : ∀ line ∈ [TextLine.entry 0 0 0 0 0 given, .entry 0 0 0 0 0 back],
      line.bytes.length = 13 := by
    intro line hline
    rcases List.mem_pair.mp hline with rfl | rfl
    · rfl
    · rfl
  let t : PolicyText := ⟨_, fun line hline => (hlength line hline).trans_lt (by decide)⟩
  have harmed : t.Armed := by
    refine ⟨given, List.mem_cons_self, ?_⟩
    rw [show given.threshold.value = 1 from hone]
    exact single_one
  have htable : ∀ f l e, t.table f l = some e → e.threshold.value = 0 := by
    intro f l e he
    change update (update (fun _ _ => none) given) back f l = some e at he
    unfold update at he
    split at he
    · rw [← Option.some.inj he]
      exact hzero
    · cases he
  have hactive : ∀ round : ℚ → ℚ, round 0 = 0 → ¬ t.table.Active round := by
    rintro round hround ⟨f, l, e, he, hpos⟩
    rw [htable f l e he, hround] at hpos
    exact lt_irrefl _ hpos
  obtain ⟨hruns, -⟩ := loadPolicyFile_text t
  obtain ⟨haccepts, -⟩ := simLoadPolicyFile_text t
  have hbytes : PyText.ascii t.bytes = PyText.text "content 1 1 1\ncontent 1 0 1\n" := by
    change PyText.ascii (familyWord .content ++ [32, 49, 32, 49, 32, 49, 10] ++
      (familyWord .content ++ [32, 49, 32, 48, 32, 49, 10])) = _
    decide +kernel
  refine ⟨t, hbytes, hruns.mpr harmed, ?_, fun h => ?_⟩
  · rw [Option.eq_none_iff_forall_ne_some]
    exact fun out hout => hactive double (roundTo_zero _ _) (haccepts.mp ⟨out, hout⟩)
  · exact hactive id rfl (h.succeeds.mp (hruns.mpr harmed))

end Kvl.PolicyFile
