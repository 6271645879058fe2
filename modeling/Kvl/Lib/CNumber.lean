import Kvl.Lib.CText

/-!
# `%s` and `%f` on bytes

The conversions of `sscanf` that read a word and a number. A number is kept as
text gives it; what a format rounds it to is left to who uses it.
-/

namespace Kvl.CText

set_option autoImplicit false

/-- A number before it is rounded. -/
inductive TextNumber where
  | finite (neg : Bool) (magnitude : ℚ)
  | infinity (neg : Bool)
  | nan
  deriving DecidableEq

def lower (c : UInt8) : UInt8 := if 65 ≤ c ∧ c ≤ 90 then c + 32 else c

/-- What follows a word that may be in any case. -/
def afterWord : List UInt8 → List UInt8 → Option (List UInt8)
  | [], s => some s
  | _ :: _, [] => none
  | w :: word, c :: s => if lower c = w then afterWord word s else none

def isHexDigit (c : UInt8) : Bool := isDigit c || (97 ≤ lower c && lower c ≤ 102)

def hexVal (c : UInt8) : Nat := if isDigit c then c.toNat - 48 else (lower c).toNat - 87

def point : UInt8 := 46

/-- The digits before and after a point, and what follows them. -/
def splitPoint (digit : UInt8 → Bool) (s : List UInt8) : List UInt8 × List UInt8 × List UInt8 :=
  match s.dropWhile digit with
  | [] => (s.takeWhile digit, [], [])
  | c :: rest =>
    if c = point then (s.takeWhile digit, rest.takeWhile digit, rest.dropWhile digit)
    else (s.takeWhile digit, [], c :: rest)

/-- An exponent, if its letter is there; the letter alone ends the conversion. -/
def scanExponent (letter : UInt8) : List UInt8 → Option (Int × List UInt8)
  | [] => some (0, [])
  | c :: s =>
    if lower c = letter then
      let signed := splitSign s
      let ds := signed.2.takeWhile isDigit
      if ds = [] then none
      else
        some (if signed.1 then -(digitsVal ds : Int) else digitsVal ds, signed.2.dropWhile isDigit)
    else some (0, c :: s)

/-- The digits of a number in some base with an exponent of `scale`. -/
def scanMagnitude (base : Nat) (digit : UInt8 → Bool) (value : UInt8 → Nat) (letter : UInt8)
    (scale : ℚ) (s : List UInt8) : Option (ℚ × List UInt8) :=
  let parts := splitPoint digit s
  let ds := parts.1 ++ parts.2.1
  if ds = [] then none
  else
    (scanExponent letter parts.2.2).map fun e =>
      ((ds.foldl (fun n d => base * n + value d) 0 : Nat) / (base : ℚ) ^ parts.2.1.length *
        scale ^ e.1, e.2)

def isNameChar (c : UInt8) : Bool := isDigit c || (97 ≤ lower c && lower c ≤ 122) || c == 95

/-- `nan` with or without a text in parentheses. -/
def scanNan : List UInt8 → Option (TextNumber × List UInt8)
  | [] => some (.nan, [])
  | c :: s =>
    if c = 40 then
      match s.dropWhile isNameChar with
      | [] => none
      | d :: rest => if d = 41 then some (.nan, rest) else none
    else some (.nan, c :: s)

/-- `inf` or `infinity`. -/
def scanInfinity (neg : Bool) : List UInt8 → Option (TextNumber × List UInt8)
  | [] => some (.infinity neg, [])
  | c :: s =>
    if lower c = 105 then (afterWord [105, 110, 105, 116, 121] (c :: s)).map fun r => (.infinity neg, r)
    else some (.infinity neg, c :: s)

/-- A `%f` conversion: its number and what follows it. -/
def scanFloat (s : List UInt8) : Option (TextNumber × List UInt8) :=
  let signed := splitSign (s.dropWhile isSpace)
  match afterWord [105, 110, 102] signed.2 with
  | some rest => scanInfinity signed.1 rest
  | none =>
    match afterWord [110, 97, 110] signed.2 with
    | some rest => scanNan rest
    | none =>
      match afterWord [48, 120] signed.2 with
      | some rest =>
        (scanMagnitude 16 isHexDigit hexVal 112 2 rest).map fun m => (.finite signed.1 m.1, m.2)
      | none =>
        (scanMagnitude 10 isDigit (fun d => d.toNat - 48) 101 10 signed.2).map fun m =>
          (.finite signed.1 m.1, m.2)

/-- A `%ns` conversion: a word of `width` bytes at most. -/
def scanWord (width : Nat) (s : List UInt8) : Option (List UInt8 × List UInt8) :=
  let t := s.dropWhile isSpace
  let word := (t.takeWhile fun c => !isSpace c).take width
  if word = [] then none else some (word, t.drop word.length)

/-! ### Numerals -/

/-- Decimal digits, at least one. -/
structure Numeral where
  digits : List UInt8
  nonempty : digits ≠ []
  valid : ∀ c ∈ digits, isDigit c = true

def Numeral.value (n : Numeral) : Nat := digitsVal n.digits

/-- A decimal number with or without a point. -/
structure DecimalText where
  whole : List UInt8
  fraction : Option (List UInt8)
  nonempty : whole ++ fraction.getD [] ≠ []
  valid : ∀ c ∈ whole ++ fraction.getD [], isDigit c = true

def DecimalText.bytes (d : DecimalText) : List UInt8 :=
  match d.fraction with
  | none => d.whole
  | some ds => d.whole ++ point :: ds

def DecimalText.value (d : DecimalText) : ℚ :=
  (digitsVal (d.whole ++ d.fraction.getD []) : Nat) / (10 : ℚ) ^ (d.fraction.getD []).length

theorem DecimalText.value_nonneg (d : DecimalText) : 0 ≤ d.value := by
  unfold DecimalText.value
  positivity

theorem DecimalText.mem_bytes {d : DecimalText} {c : UInt8} (hc : c ∈ d.bytes) :
    c = point ∨ isDigit c = true := by
  have hvalid := d.valid
  unfold DecimalText.bytes at hc
  cases hfraction : d.fraction with
  | none =>
    rw [hfraction] at hc hvalid
    exact .inr (hvalid c (List.mem_append_left _ hc))
  | some ds =>
    rw [hfraction] at hc hvalid
    rcases List.mem_append.mp hc with hc | hc
    · exact .inr (hvalid c (List.mem_append_left _ hc))
    · rcases List.mem_cons.mp hc with hc | hc
      · exact .inl hc
      · exact .inr (hvalid c (List.mem_append_right _ hc))

/-- The end of a line, or a blank. -/
def Delimited (rest : List UInt8) : Prop := ∀ c ∈ rest.head?, isSpace c = true

theorem Delimited.dropWhile {rest : List UInt8} (h : Delimited rest) {p : UInt8 → Bool}
    (hp : ∀ c, isSpace c = true → p c = false) : rest.dropWhile p = rest := by
  cases rest with
  | nil => rfl
  | cons c rest => rw [List.dropWhile_cons, hp c (h c rfl), if_neg Bool.false_ne_true]

theorem Delimited.takeWhile {rest : List UInt8} (h : Delimited rest) {p : UInt8 → Bool}
    (hp : ∀ c, isSpace c = true → p c = false) : rest.takeWhile p = [] := by
  cases rest with
  | nil => rfl
  | cons c rest => rw [List.takeWhile_cons, hp c (h c rfl), if_neg Bool.false_ne_true]

theorem isSpace_cases {c : UInt8} (h : isSpace c = true) :
    isDigit c = false ∧ c ≠ point ∧ lower c = c ∧ c ≠ 101 ∧ c ≠ 120 := by
  revert c
  decide +kernel

theorem isDigit_cases {c : UInt8} (h : isDigit c = true) :
    isSpace c = false ∧ c ≠ 43 ∧ c ≠ 45 ∧ c ≠ point ∧ lower c = c ∧ c ≠ 105 ∧ c ≠ 110 ∧
      c ≠ 120 := by
  revert c
  decide +kernel

/-- The digits at the front of a text. -/
theorem takeWhile_digits {ds : List UInt8} (h : ∀ c ∈ ds, isDigit c = true)
    (rest : List UInt8) (hrest : rest.takeWhile isDigit = []) :
    (ds ++ rest).takeWhile isDigit = ds ∧ (ds ++ rest).dropWhile isDigit = rest := by
  have hall := List.takeWhile_append_dropWhile (p := isDigit) (l := rest)
  rw [hrest, List.nil_append] at hall
  exact ⟨by rw [List.takeWhile_append_of_pos h, hrest, List.append_nil],
    by rw [List.dropWhile_append_of_pos h, hall]⟩

/-- Blanks in front of a field. -/
def spaces (n : Nat) : List UInt8 := List.replicate n 32

theorem mem_spaces {n : Nat} {c : UInt8} (hc : c ∈ spaces n) : c = 32 := List.eq_of_mem_replicate hc

theorem dropWhile_spaces {p : UInt8 → Bool} (hp : p 32 = true) (n : Nat) {s : List UInt8}
    (hs : s.dropWhile p = s) : (spaces n ++ s).dropWhile p = s := by
  rw [List.dropWhile_append_of_pos, hs]
  intro c hc
  rw [mem_spaces hc]
  exact hp

theorem dropWhile_head {p : UInt8 → Bool} {c : UInt8} {s : List UInt8} (h : p c = false) :
    (c :: s).dropWhile p = c :: s := by
  rw [List.dropWhile_cons, h, if_neg Bool.false_ne_true]

theorem splitSign_unsigned {c : UInt8} {s : List UInt8} (h : c ≠ 43) (h' : c ≠ 45) :
    splitSign (c :: s) = (false, c :: s) :=
  (if_neg h).trans (if_neg h')

/-- `%d` of a numeral that fits an `int`. -/
theorem scanInt_numeral (n : Nat) (d : Numeral) (hfits : d.value < 2 ^ 31) {rest : List UInt8}
    (hrest : Delimited rest) : scanInt (spaces n ++ d.digits ++ rest) = some ((d.value : Int), rest) := by
  obtain ⟨c, ds, hds⟩ := List.exists_cons_of_ne_nil d.nonempty
  obtain ⟨hspace, hplus, hminus, -⟩ := isDigit_cases (d.valid c (by rw [hds]; exact List.mem_cons_self))
  have hq : (spaces n ++ d.digits ++ rest).dropWhile isSpace = d.digits ++ rest := by
    rw [List.append_assoc]
    apply dropWhile_spaces (by decide)
    rw [hds]
    exact dropWhile_head hspace
  have hsign : splitSign (d.digits ++ rest) = (false, d.digits ++ rest) := by
    rw [hds]
    exact splitSign_unsigned hplus hminus
  obtain ⟨htake, hdrop⟩ := takeWhile_digits d.valid _
    (hrest.takeWhile fun c hc => (isSpace_cases hc).1)
  rw [scanInt_of_parts hq hsign (by rw [htake]; exact d.nonempty), htake, hdrop]
  have hvalue : toInt false (digitsVal d.digits) = (d.value : Int) := by
    change Int.bmod (min (d.value : Int) (2 ^ 63 - 1)) (2 ^ 32) = d.value
    rw [min_eq_left (by omega)]
    exact Int.bmod_eq_of_le (by omega) (by omega)
  rw [hvalue]

theorem splitPoint_decimal (d : DecimalText) {rest : List UInt8} (hrest : Delimited rest) :
    splitPoint isDigit (d.bytes ++ rest) = (d.whole, d.fraction.getD [], rest) := by
  have hdigits : rest.takeWhile isDigit = [] :=
    hrest.takeWhile fun c hc => (isSpace_cases hc).1
  have hwhole : ∀ c ∈ d.whole, isDigit c = true := fun c hc =>
    d.valid c (List.mem_append_left _ hc)
  unfold splitPoint DecimalText.bytes
  cases hfraction : d.fraction with
  | none =>
    obtain ⟨htake, hdrop⟩ := takeWhile_digits hwhole _ hdigits
    dsimp only
    rw [htake, hdrop]
    cases rest with
    | nil => rfl
    | cons c rest =>
      dsimp only
      rw [if_neg (isSpace_cases (hrest c rfl)).2.1]
      rfl
  | some ds =>
    have hds : ∀ c ∈ ds, isDigit c = true := fun c hc =>
      d.valid c (List.mem_append_right _ (by rw [hfraction]; exact hc))
    obtain ⟨htake, hdrop⟩ := takeWhile_digits hwhole (point :: ds ++ rest) rfl
    obtain ⟨htake', hdrop'⟩ := takeWhile_digits hds _ hdigits
    dsimp only
    rw [List.append_assoc, htake, hdrop]
    dsimp only [List.cons_append]
    rw [if_pos rfl, htake', hdrop']
    rfl

theorem afterWord_head {w c : UInt8} {word s : List UInt8} (h : lower c ≠ w) :
    afterWord (w :: word) (c :: s) = none := if_neg h

/-- No numeral begins like another kind of number. -/
theorem decimal_head (d : DecimalText) {rest : List UInt8} (hrest : Delimited rest) :
    ∃ c s, d.bytes ++ rest = c :: s ∧ isSpace c = false ∧ c ≠ 43 ∧ c ≠ 45 ∧ lower c ≠ 105 ∧
      lower c ≠ 110 ∧ (lower c ≠ 48 ∨ ∀ c' ∈ s.head?, lower c' ≠ 120) := by
  have hafter : ∀ t : List UInt8, (∀ c ∈ t, isDigit c = true) →
      ∀ u : List UInt8, (∀ c ∈ u.head?, lower c ≠ 120) → ∀ c ∈ (t ++ u).head?, lower c ≠ 120 := by
    intro t ht u hu c hc
    cases t with
    | nil => exact hu c hc
    | cons a t =>
      obtain rfl := Option.some.inj hc
      obtain ⟨-, -, -, -, hlower, -, -, hx⟩ := isDigit_cases (ht a List.mem_cons_self)
      rwa [hlower]
  have hend : ∀ c ∈ rest.head?, lower c ≠ 120 := by
    intro c hc
    obtain ⟨-, -, hlower, -, hx⟩ := isSpace_cases (hrest c hc)
    rwa [hlower]
  have hwhole : ∀ c ∈ d.whole, isDigit c = true := fun c hc =>
    d.valid c (List.mem_append_left _ hc)
  unfold DecimalText.bytes
  cases hw : d.whole with
  | nil =>
    cases hfraction : d.fraction with
    | none =>
      have hne := d.nonempty
      rw [hw, hfraction] at hne
      exact absurd rfl hne
    | some ds => exact ⟨point, ds ++ rest, rfl, by decide, by decide, by decide, by decide, by decide,
        .inl (by decide)⟩
  | cons c ds =>
    rw [hw] at hwhole
    obtain ⟨hspace, hplus, hminus, -, hlower, hi, hn, -⟩ := isDigit_cases
      (hwhole c List.mem_cons_self)
    have hds : ∀ c ∈ ds, isDigit c = true := fun c hc => hwhole c (List.mem_cons_of_mem _ hc)
    cases d.fraction with
    | none =>
      exact ⟨c, ds ++ rest, rfl, hspace, hplus, hminus, by rwa [hlower], by rwa [hlower],
        .inr (hafter ds hds rest hend)⟩
    | some fs =>
      refine ⟨c, ds ++ point :: fs ++ rest, rfl, hspace, hplus, hminus, by rwa [hlower],
        by rwa [hlower], .inr ?_⟩
      rw [List.append_assoc]
      refine hafter ds hds _ ?_
      intro c' hc'
      obtain rfl := Option.some.inj hc'
      decide

/-- `%f` of a decimal number. -/
theorem scanFloat_decimal (n : Nat) (d : DecimalText) {rest : List UInt8} (hrest : Delimited rest) :
    scanFloat (spaces n ++ d.bytes ++ rest) = some (.finite false d.value, rest) := by
  obtain ⟨c, s, hhead, hspace, hplus, hminus, hi, hn, hx⟩ := decimal_head d hrest
  have hq : (spaces n ++ d.bytes ++ rest).dropWhile isSpace = c :: s := by
    rw [List.append_assoc, hhead]
    exact dropWhile_spaces (by decide) n (dropWhile_head hspace)
  have hhex : afterWord [48, 120] (c :: s) = none := by
    rcases hx with hx | hx
    · exact afterWord_head hx
    · unfold afterWord
      split
      · cases s with
        | nil => rfl
        | cons c' s => exact afterWord_head (hx c' rfl)
      · rfl
  have hexponent : scanExponent 101 rest = some (0, rest) := by
    cases rest with
    | nil => rfl
    | cons c' rest =>
      obtain ⟨-, -, hlower, he, -⟩ := isSpace_cases (hrest c' rfl)
      exact if_neg fun hletter => he (hlower.symm.trans hletter)
  unfold scanFloat
  dsimp only
  rw [hq, splitSign_unsigned hplus hminus, afterWord_head hi, afterWord_head hn, hhex]
  dsimp only
  unfold scanMagnitude
  rw [← hhead, splitPoint_decimal d hrest]
  dsimp only
  rw [if_neg d.nonempty, hexponent]
  dsimp only [Option.map_some]
  rw [zpow_zero, mul_one]
  rfl

/-- `%ns` of a word that fits. -/
theorem scanWord_word (n : Nat) {width : Nat} {word rest : List UInt8} (hne : word ≠ [])
    (hword : ∀ c ∈ word, isSpace c = false) (hwidth : word.length ≤ width)
    (hrest : ∀ c ∈ rest.head?, isSpace c = true) :
    scanWord width (spaces n ++ word ++ rest) = some (word, rest) := by
  have hq : (spaces n ++ word ++ rest).dropWhile isSpace = word ++ rest := by
    obtain ⟨c, t, rfl⟩ := List.exists_cons_of_ne_nil hne
    rw [List.append_assoc]
    exact dropWhile_spaces (by decide) n (dropWhile_head (hword c List.mem_cons_self))
  have hall : ∀ c ∈ word, (!isSpace c) = true := by
    intro c hc
    rw [hword c hc]
    rfl
  have hend : rest.takeWhile (fun c => !isSpace c) = [] := by
    cases rest with
    | nil => rfl
    | cons c rest => rw [List.takeWhile_cons, hrest c rfl, if_neg (by decide)]
  unfold scanWord
  dsimp only
  rw [hq, List.takeWhile_append_of_pos hall, hend, List.append_nil, List.take_of_length_le hwidth,
    if_neg hne, List.drop_left]

end Kvl.CText
