import Kvl.Lib.CNumber
import Kvl.Lib.PyText

/-!
# Lines and `float` as Python has them

`str.splitlines` and `float` of a string, and what both make of ASCII text.
-/

namespace Kvl.PyText

set_option autoImplicit false

open CText (TextNumber DecimalText Numeral spaces mem_spaces)

/-- The characters that end a line. -/
def endsLine (c : Nat) : Bool :=
  (10 ≤ c && c ≤ 13) || (0x1c ≤ c && c ≤ 0x1e) || c == 0x85 || c == 0x2028 || c == 0x2029

/-- The lines after what is read of the first one. -/
def linesFrom : Str → Str → List Str
  | line, [] => if line = [] then [] else [line]
  | line, 13 :: 10 :: s => line :: linesFrom [] s
  | line, c :: s => if endsLine c then line :: linesFrom [] s else linesFrom (line ++ [c]) s

def splitlines (s : Str) : List Str := linesFrom [] s

def isAsciiDigit (c : Nat) : Bool := 48 ≤ c && c ≤ 57

/-- A decimal digit of any script as an ASCII digit. -/
def asciiDigit (c : Nat) : Nat := ((decimal c).map (48 + ·)).getD c

/-- Underscores may only stand between digits. The flag says that a digit stands right before. -/
def dropUnderscores : Bool → Str → Option Str
  | _, [] => some []
  | after, c :: s =>
    if c = 95 then
      if after && (s.head?.map isAsciiDigit).getD false then dropUnderscores false s else none
    else (dropUnderscores (isAsciiDigit c) s).map (c :: ·)

def lowerCase (s : Str) : Str := s.map fun c => if 65 ≤ c ∧ c ≤ 90 then c + 32 else c

/-- The exponent that ends a number. -/
def exponentOf : Str → Option Int
  | [] => some 0
  | c :: s =>
    if c = 101 ∨ c = 69 then
      let signed := signOf s
      if signed.2 ≠ [] ∧ signed.2.all isAsciiDigit = true then
        some (if signed.1 then -(digitsValue (signed.2.map (· - 48)) : Int)
          else digitsValue (signed.2.map (· - 48)))
      else none
    else none

/-- The digits before and after a point, and the rest. -/
def pointOf (s : Str) : Str × Str × Str :=
  match s.dropWhile isAsciiDigit with
  | [] => (s.takeWhile isAsciiDigit, [], [])
  | c :: rest =>
    if c = 46 then
      (s.takeWhile isAsciiDigit, rest.takeWhile isAsciiDigit, rest.dropWhile isAsciiDigit)
    else (s.takeWhile isAsciiDigit, [], c :: rest)

def magnitudeOf (s : Str) : Option ℚ :=
  let parts := pointOf s
  let ds := parts.1 ++ parts.2.1
  if ds = [] then none
  else
    (exponentOf parts.2.2).map fun e =>
      (digitsValue (ds.map (· - 48)) : ℚ) / 10 ^ parts.2.1.length * 10 ^ e

/-- `float(s)` before it is rounded, where `none` is `ValueError`. -/
def pyFloat (s : Str) : Option TextNumber :=
  (dropUnderscores false ((stripBy intSpace s).map asciiDigit)).bind fun t =>
    let signed := signOf t
    let word := lowerCase signed.2
    if word = text "inf" ∨ word = text "infinity" then some (.infinity signed.1)
    else if word = text "nan" then some .nan
    else (magnitudeOf signed.2).map fun q => .finite signed.1 q

/-! ### ASCII text -/

/-- ASCII bytes as a string. -/
def ascii (s : List UInt8) : Str := s.map UInt8.toNat

theorem ascii_append (s t : List UInt8) : ascii (s ++ t) = ascii s ++ ascii t := List.map_append

theorem digit_ascii {c : UInt8} (h : CText.isDigit c = true) :
    isAsciiDigit c.toNat = true ∧ decimal c.toNat = some (c.toNat - 48) ∧
      isspace c.toNat = false ∧ intSpace c.toNat = false ∧ c.toNat ≠ 43 ∧ c.toNat ≠ 45 ∧
      c.toNat ≠ 95 ∧ c.toNat ≠ 46 ∧ c.toNat ≠ 105 ∧ c.toNat ≠ 110 ∧ c.toNat ≠ 73 ∧ c.toNat ≠ 78 := by
  revert c
  decide +kernel

theorem asciiDigit_digit {c : UInt8} (h : CText.isDigit c = true) :
    asciiDigit c.toNat = c.toNat := by
  revert c
  decide +kernel

/-- Text without white space at its ends. -/
theorem stripBy_self {space : Nat → Bool} {s : Str} (hhead : ∀ c ∈ s.head?, space c = false)
    (hlast : ∀ c ∈ s.getLast?, space c = false) : stripBy space s = s := by
  have hdrop : s.dropWhile space = s := by
    cases s with
    | nil => rfl
    | cons c s => rw [List.dropWhile_cons, hhead c rfl, if_neg Bool.false_ne_true]
  unfold stripBy
  rw [hdrop, List.rdropWhile_eq_self_iff]
  intro hne
  rw [hlast _ (List.getLast?_eq_some_getLast hne)]
  exact Bool.false_ne_true

theorem signOf_unsigned {c : Nat} {s : Str} (h : c ≠ 43) (h' : c ≠ 45) :
    signOf (c :: s) = (false, c :: s) :=
  (if_neg h).trans (if_neg h')

theorem digitsValue_ascii (ds : List UInt8) :
    digitsValue ((ascii ds).map (· - 48)) = CText.digitsVal ds := by
  unfold digitsValue CText.digitsVal ascii
  rw [List.map_map, List.foldl_map]
  rfl

theorem readDigits_ascii {ds : List UInt8} (h : ∀ c ∈ ds, CText.isDigit c = true) (after : Bool)
    (hne : after = true ∨ ds ≠ []) : readDigits after (ascii ds) = some ((ascii ds).map (· - 48)) := by
  induction ds generalizing after with
  | nil =>
    obtain rfl := hne.resolve_right (fun h => h rfl)
    rfl
  | cons c ds ih =>
    obtain ⟨-, hdecimal, -, -, -, -, hunderscore, -⟩ := digit_ascii (h c List.mem_cons_self)
    have hrest := ih (fun c' hc' => h c' (List.mem_cons_of_mem c hc')) true (.inl rfl)
    change readDigits after (c.toNat :: ascii ds) = some ((c.toNat - 48) :: (ascii ds).map (· - 48))
    cases after <;> rw [readDigits, if_neg hunderscore, hdecimal, Option.bind_some, hrest] <;> rfl

/-- `int` of a numeral. -/
theorem pyInt_numeral (n : Numeral) (hlen : n.digits.length ≤ maxStrDigits) :
    pyInt (ascii n.digits) = some n.value := by
  have hmem : ∀ c ∈ ascii n.digits, intSpace c = false := by
    intro c hc
    obtain ⟨b, hb, rfl⟩ := List.mem_map.mp hc
    exact (digit_ascii (n.valid b hb)).2.2.2.1
  have hstrip : stripBy intSpace (ascii n.digits) = ascii n.digits :=
    stripBy_self (fun c hc => hmem c (List.mem_of_mem_head? hc))
      fun c hc => hmem c (List.mem_of_getLast? hc)
  have hsign : signOf (ascii n.digits) = (false, ascii n.digits) := by
    obtain ⟨c, ds, hds⟩ := List.exists_cons_of_ne_nil n.nonempty
    obtain ⟨-, -, -, -, hplus, hminus, -⟩ := digit_ascii
      (n.valid c (by rw [hds]; exact List.mem_cons_self))
    rw [hds]
    exact signOf_unsigned hplus hminus
  unfold pyInt
  dsimp only
  rw [hstrip, hsign, readDigits_ascii n.valid false (.inr n.nonempty), Option.bind_some,
    if_neg (by simpa [ascii] using hlen), digitsValue_ascii]
  rfl

theorem dropUnderscores_none (after : Bool) {s : Str} (h : 95 ∉ s) :
    dropUnderscores after s = some s := by
  induction s generalizing after with
  | nil => cases after <;> rfl
  | cons c s ih =>
    obtain ⟨hc, hs⟩ := not_or.mp fun hmem => h (List.mem_cons.mpr hmem)
    rw [dropUnderscores, if_neg (Ne.symm hc), ih _ hs]
    rfl

theorem takeWhile_asciiDigits {ds : List UInt8} (h : ∀ c ∈ ds, CText.isDigit c = true)
    (rest : Str) (hrest : rest.takeWhile isAsciiDigit = []) :
    (ascii ds ++ rest).takeWhile isAsciiDigit = ascii ds ∧
      (ascii ds ++ rest).dropWhile isAsciiDigit = rest := by
  have hdigits : ∀ c ∈ ascii ds, isAsciiDigit c = true := by
    intro c hc
    obtain ⟨b, hb, rfl⟩ := List.mem_map.mp hc
    exact (digit_ascii (h b hb)).1
  have hall := List.takeWhile_append_dropWhile (p := isAsciiDigit) (l := rest)
  rw [hrest, List.nil_append] at hall
  exact ⟨by rw [List.takeWhile_append_of_pos hdigits, hrest, List.append_nil],
    by rw [List.dropWhile_append_of_pos hdigits, hall]⟩

theorem pointOf_decimal (d : DecimalText) :
    pointOf (ascii d.bytes) = (ascii d.whole, ascii (d.fraction.getD []), []) := by
  have hwhole : ∀ c ∈ d.whole, CText.isDigit c = true := fun c hc =>
    d.valid c (List.mem_append_left _ hc)
  unfold pointOf DecimalText.bytes
  cases hfraction : d.fraction with
  | none =>
    obtain ⟨htake, hdrop⟩ := takeWhile_asciiDigits hwhole [] rfl
    rw [List.append_nil] at htake hdrop
    dsimp only
    rw [htake, hdrop]
    rfl
  | some ds =>
    have hds : ∀ c ∈ ds, CText.isDigit c = true := fun c hc =>
      d.valid c (List.mem_append_right _ (by rw [hfraction]; exact hc))
    obtain ⟨htake, hdrop⟩ := takeWhile_asciiDigits hwhole (46 :: ascii ds) rfl
    obtain ⟨htake', hdrop'⟩ := takeWhile_asciiDigits hds [] rfl
    rw [List.append_nil] at htake' hdrop'
    dsimp only
    have hbytes : ascii (d.whole ++ CText.point :: ds) = ascii d.whole ++ 46 :: ascii ds :=
      ascii_append _ _
    rw [hbytes, hdrop, htake]
    dsimp only
    rw [if_pos rfl, htake', hdrop']
    rfl

/-- The characters of a decimal number. -/
theorem decimal_char (d : DecimalText) {c : Nat} (hc : c ∈ ascii d.bytes) :
    isspace c = false ∧ intSpace c = false ∧ asciiDigit c = c ∧ c ≠ 43 ∧ c ≠ 45 ∧ c ≠ 95 ∧ c ≠ 105 ∧
      c ≠ 110 ∧ c ≠ 73 ∧ c ≠ 78 := by
  obtain ⟨b, hb, rfl⟩ := List.mem_map.mp hc
  rcases DecimalText.mem_bytes hb with rfl | hdigit
  · decide +kernel
  · obtain ⟨-, -, hspace, hint, hplus, hminus, hunder, -, hi, hn, hI, hN⟩ := digit_ascii hdigit
    exact ⟨hspace, hint, asciiDigit_digit hdigit, hplus, hminus, hunder, hi, hn, hI, hN⟩

/-- `float` of a decimal number. -/
theorem pyFloat_decimal (d : DecimalText) :
    pyFloat (ascii d.bytes) = some (.finite false d.value) := by
  have hne : ascii d.bytes ≠ [] := by
    unfold DecimalText.bytes ascii
    have hnonempty := d.nonempty
    cases hfraction : d.fraction with
    | none =>
      rw [hfraction, Option.getD_none, List.append_nil] at hnonempty
      simpa using hnonempty
    | some ds => simp
  have hstrip : stripBy intSpace (ascii d.bytes) = ascii d.bytes :=
    stripBy_self (fun c hc => (decimal_char d (List.mem_of_mem_head? hc)).2.1)
      fun c hc => (decimal_char d (List.mem_of_getLast? hc)).2.1
  have hdigits : (ascii d.bytes).map asciiDigit = ascii d.bytes := by
    conv_rhs => rw [← List.map_id (ascii d.bytes)]
    exact List.map_congr_left fun c hc => (decimal_char d hc).2.2.1
  have hunder : 95 ∉ ascii d.bytes := fun hmem => (decimal_char d hmem).2.2.2.2.2.1 rfl
  obtain ⟨c, s, hs⟩ := List.exists_cons_of_ne_nil hne
  obtain ⟨-, -, -, hplus, hminus, -, hi, hn, hI, hN⟩ := decimal_char d
    (by rw [hs]; exact List.mem_cons_self : c ∈ ascii d.bytes)
  have hsign : signOf (ascii d.bytes) = (false, ascii d.bytes) := by
    rw [hs]
    exact signOf_unsigned hplus hminus
  have hword : ∀ (a : Nat) (word : Str), (a = 105 ∨ a = 110) →
      lowerCase (ascii d.bytes) ≠ a :: word := by
    intro a word ha heq
    rw [hs] at heq
    have hhead := (List.cons.inj heq).1
    dsimp only at hhead
    split at hhead
    · omega
    · omega
  unfold pyFloat
  rw [hstrip, hdigits, dropUnderscores_none false hunder, Option.bind_some]
  dsimp only
  rw [hsign, if_neg ?_, if_neg ?_]
  · unfold magnitudeOf
    rw [pointOf_decimal]
    dsimp only
    rw [← ascii_append, if_neg (by simpa [ascii] using d.nonempty), digitsValue_ascii]
    change some (TextNumber.finite false ((CText.digitsVal (d.whole ++ d.fraction.getD []) : ℚ) /
      10 ^ (ascii (d.fraction.getD [])).length * 10 ^ (0 : Int))) = _
    rw [zpow_zero, mul_one, ascii, List.length_map]
    rfl
  · exact hword 110 _ (.inr rfl)
  · rintro (hinf | hinf)
    · exact hword 105 _ (.inl rfl) hinf
    · exact hword 105 _ (.inl rfl) hinf

/-! ### Lines and fields -/

theorem linesFrom_line {s : Str} (hs : ∀ c ∈ s, endsLine c = false) (acc rest : Str) :
    linesFrom acc (s ++ 10 :: rest) = (acc ++ s) :: linesFrom [] rest := by
  induction s generalizing acc with
  | nil =>
    rw [List.nil_append, List.append_nil]
    exact if_pos rfl
  | cons c s ih =>
    obtain ⟨hc, hrest⟩ := List.forall_mem_cons.mp hs
    have hcr : c ≠ 13 := by
      rintro rfl
      cases hc
    rw [List.cons_append, linesFrom, hc, if_neg Bool.false_ne_true, ih hrest,
      List.append_assoc, List.singleton_append]
    rintro s' rfl
    exact fun _ => hcr rfl

theorem isspace_blank : isspace 32 = true := by decide

theorem split_space (s : Str) : split (32 :: s) = split s := by
  unfold split
  rw [List.splitOnP_cons_eq_if_modifyHead, if_pos isspace_blank, List.filter_cons_of_neg (by simp)]

theorem split_spaces (n : Nat) (s : Str) : split (ascii (spaces n) ++ s) = split s := by
  induction n with
  | zero => rfl
  | succ n ih => exact (split_space _).trans ih

theorem split_word {w : Str} (hne : w ≠ []) (hw : ∀ c ∈ w, isspace c = false) (s : Str) :
    split (w ++ 32 :: s) = w :: split s := by
  unfold split
  rw [List.splitOnP_append_cons_of_forall_mem hw 32 isspace_blank, List.filter_cons_of_pos (by simpa using hne)]

theorem split_last {w : Str} (hne : w ≠ []) (hw : ∀ c ∈ w, isspace c = false) : split w = [w] := by
  unfold split
  rw [List.splitOnP_eq_singleton hw, List.filter_cons_of_pos (by simpa using hne), List.filter_nil]

theorem rdropWhile_spaces (s : Str) (n : Nat) :
    (s ++ ascii (spaces n)).rdropWhile isspace = s.rdropWhile isspace := by
  induction n with
  | zero => rw [spaces, List.replicate_zero, ascii, List.map_nil, List.append_nil]
  | succ n ih =>
    have hsplit : s ++ ascii (spaces (n + 1)) = (s ++ ascii (spaces n)) ++ [32] := by
      rw [spaces, List.replicate_succ', ascii_append, ← List.append_assoc]
      rfl
    rw [hsplit, List.rdropWhile_concat_pos _ _ _ isspace_blank, ih]

theorem dropWhile_spaces {c : Nat} (hc : isspace c = false) (n : Nat) (s : Str) :
    (ascii (spaces n) ++ c :: s).dropWhile isspace = c :: s := by
  induction n with
  | zero =>
    change (c :: s).dropWhile isspace = c :: s
    rw [List.dropWhile_cons, hc, if_neg Bool.false_ne_true]
  | succ n ih =>
    change ((32 : Nat) :: (ascii (spaces n) ++ c :: s)).dropWhile isspace = c :: s
    rw [List.dropWhile_cons, isspace_blank, if_pos rfl, ih]

/-- White space around a text that neither begins nor ends with it. -/
theorem strip_spaces (m n : Nat) {c : Nat} {s : Str} (hc : isspace c = false)
    (hlast : ∀ x ∈ (c :: s).getLast?, isspace x = false) :
    strip (ascii (spaces m) ++ (c :: s) ++ ascii (spaces n)) = c :: s := by
  unfold strip stripBy
  rw [List.append_assoc, List.cons_append, dropWhile_spaces hc, ← List.cons_append,
    rdropWhile_spaces, List.rdropWhile_eq_self_iff]
  intro hne
  rw [hlast _ (List.getLast?_eq_some_getLast hne)]
  exact Bool.false_ne_true

theorem strip_head (m : Nat) {c : Nat} {s : Str} (hc : isspace c = false) :
    (strip (ascii (spaces m) ++ c :: s)).head? = some c := by
  unfold strip stripBy
  rw [dropWhile_spaces hc]
  obtain ⟨t, ht⟩ := List.rdropWhile_prefix isspace (l := c :: s)
  cases hr : (c :: s).rdropWhile isspace with
  | nil =>
    have := List.rdropWhile_eq_nil_iff.mp hr c List.mem_cons_self
    rw [hc] at this
    cases this
  | cons x xs =>
    rw [hr] at ht
    exact congrArg some (List.cons.inj ht).1

theorem strip_blank (n : Nat) : strip (ascii (spaces n)) = [] := by
  have hdrop : (ascii (spaces n)).dropWhile isspace = [] := by
    refine List.dropWhile_eq_nil_iff.mpr fun c hc => ?_
    obtain ⟨b, hb, rfl⟩ := List.mem_map.mp hc
    rw [mem_spaces hb]
    rfl
  unfold strip stripBy
  rw [hdrop, List.rdropWhile_nil]

theorem numeral_str (n : Numeral) :
    ascii n.digits ≠ [] ∧ ∀ c ∈ ascii n.digits, isspace c = false := by
  refine ⟨fun h => n.nonempty (List.map_eq_nil_iff.mp h), fun c hc => ?_⟩
  obtain ⟨b, hb, rfl⟩ := List.mem_map.mp hc
  exact (digit_ascii (n.valid b hb)).2.2.1

theorem decimal_str (d : DecimalText) :
    ascii d.bytes ≠ [] ∧ ∀ c ∈ ascii d.bytes, isspace c = false := by
  refine ⟨fun h => ?_, fun c hc => (decimal_char d hc).1⟩
  have hbytes : d.bytes = [] := List.map_eq_nil_iff.mp h
  have hne := d.nonempty
  unfold DecimalText.bytes at hbytes
  cases hfraction : d.fraction with
  | none =>
    rw [hfraction] at hbytes hne
    exact hne ((List.append_nil _).trans hbytes)
  | some ds =>
    rw [hfraction] at hbytes
    exact absurd hbytes (List.append_ne_nil_of_right_ne_nil _ (List.cons_ne_nil _ _))

end Kvl.PyText
