import Mathlib

/-!
# Line input and `sscanf` on bytes

`fgets` with a bounded buffer, C strings inside a buffer, and the `%d`
conversion. A number that does not fit a `long` saturates, and a `long` that
does not fit an `int` loses its high half.
-/

namespace Kvl.CText

set_option autoImplicit false

def nl : UInt8 := 10

/-- The bytes one `fgets` stores in a buffer with room for `n` of them, and the rest. -/
def fgets : Nat → List UInt8 → List UInt8 × List UInt8
  | 0, s => ([], s)
  | _ + 1, [] => ([], [])
  | n + 1, c :: s =>
    if c = nl then ([c], s)
    else (c :: (fgets n s).1, (fgets n s).2)

def readLines (n : Nat) : Nat → List UInt8 → List (List UInt8)
  | 0, _ => []
  | _ + 1, [] => []
  | fuel + 1, c :: s => (fgets n (c :: s)).1 :: readLines n fuel (fgets n (c :: s)).2

/-- What successive calls of `fgets` with a buffer of `size` bytes store. -/
def fileLines (size : Nat) (file : List UInt8) : List (List UInt8) :=
  readLines (size - 1) file.length file

/-- The C string at the start of a buffer. -/
def cstr (buf : List UInt8) : List UInt8 := buf.takeWhile (· != 0)

def isSpace (c : UInt8) : Bool := c == 32 || (9 ≤ c && c ≤ 13)

def isDigit (c : UInt8) : Bool := 48 ≤ c && c ≤ 57

def splitSign : List UInt8 → Bool × List UInt8
  | [] => (false, [])
  | c :: s => if c = 43 then (false, s) else if c = 45 then (true, s) else (false, c :: s)

def digitsVal (ds : List UInt8) : Nat := ds.foldl (fun n d => 10 * n + (d.toNat - 48)) 0

def toInt (neg : Bool) (n : Nat) : Int :=
  Int.bmod (if neg then max (-n) (-2 ^ 63) else min n (2 ^ 63 - 1)) (2 ^ 32)

/-- A `%d` conversion: its value and what follows it. -/
def scanInt (s : List UInt8) : Option (Int × List UInt8) :=
  let signed := splitSign (s.dropWhile isSpace)
  if signed.2.takeWhile isDigit = [] then none
  else some (toInt signed.1 (digitsVal (signed.2.takeWhile isDigit)), signed.2.dropWhile isDigit)

/-- The conversions `%d %d`. -/
def scanPair (s : List UInt8) : Option (Int × Int × List UInt8) :=
  match scanInt s with
  | none => none
  | some (a, s) => (scanInt s).map fun br => (a, br.1, br.2)

section Lines

theorem fgets_append (n : Nat) (s : List UInt8) : (fgets n s).1 ++ (fgets n s).2 = s := by
  induction n generalizing s with
  | zero => rfl
  | succ n ih =>
    cases s with
    | nil => rfl
    | cons c s =>
      simp only [fgets]
      split
      · rfl
      · simp [ih]

theorem fgets_rest_lt {n : Nat} (hn : 0 < n) (c : UInt8) (s : List UInt8) :
    (fgets n (c :: s)).2.length ≤ s.length := by
  obtain ⟨m, rfl⟩ := Nat.exists_eq_add_of_lt hn
  simp only [Nat.zero_add, fgets]
  split
  · exact le_refl _
  · have := congrArg List.length (fgets_append m s)
    rw [List.length_append] at this
    dsimp only
    omega

theorem fgets_ne_nil {n : Nat} (hn : 0 < n) (c : UInt8) (s : List UInt8) :
    (fgets n (c :: s)).1 ≠ [] := by
  obtain ⟨m, rfl⟩ := Nat.exists_eq_add_of_lt hn
  simp only [Nat.zero_add, fgets]
  split <;> simp

theorem fgets_length_le (n : Nat) (s : List UInt8) : (fgets n s).1.length ≤ n := by
  induction n generalizing s with
  | zero => simp [fgets]
  | succ n ih =>
    cases s with
    | nil => simp [fgets]
    | cons c s =>
      simp only [fgets]
      split
      · simp
      · simpa using ih s

theorem readLines_fuel {n : Nat} (hn : 0 < n) {fuel : Nat} {s : List UInt8}
    (h : s.length ≤ fuel) : readLines n fuel s = readLines n s.length s := by
  induction fuel using Nat.strong_induction_on generalizing s with
  | _ fuel ih =>
    cases s with
    | nil => cases fuel <;> rfl
    | cons c s =>
      cases fuel with
      | zero => simp at h
      | succ fuel =>
        have hrest := fgets_rest_lt hn c s
        simp only [List.length_cons] at h
        simp only [List.length_cons, readLines, List.cons.injEq, true_and]
        rw [ih fuel (by omega) (by omega), ih s.length (by omega) hrest]

theorem fileLines_nil (size : Nat) : fileLines size [] = [] := rfl

theorem fileLines_of_ne_nil {size : Nat} (hsize : 2 ≤ size) {s : List UInt8} (hs : s ≠ []) :
    fileLines size s =
      (fgets (size - 1) s).1 :: fileLines size (fgets (size - 1) s).2 := by
  cases s with
  | nil => exact absurd rfl hs
  | cons c s =>
    unfold fileLines
    simp only [List.length_cons, readLines, List.cons.injEq, true_and]
    exact readLines_fuel (by omega) (fgets_rest_lt (by omega) c s)

/-- A buffer without an inner newline is cut at its size alone. -/
theorem fgets_of_notMem_dropLast (n : Nat) {s : List UInt8} (h : nl ∉ s.dropLast) :
    fgets n s = (s.take n, s.drop n) := by
  induction n generalizing s with
  | zero => rfl
  | succ n ih =>
    cases s with
    | nil => rfl
    | cons c s =>
      cases s with
      | nil =>
        have hone : fgets n [] = ([], []) := by cases n <;> rfl
        simp [fgets, hone]
      | cons d s =>
        rw [List.dropLast_cons_cons, List.mem_cons, not_or] at h
        simp only [fgets]
        rw [if_neg (fun he => h.1 he.symm), ih h.2]
        rfl

theorem fgets_append_of_mem (n : Nat) {s : List UInt8} (t : List UInt8) (h : nl ∈ s) :
    fgets n (s ++ t) = ((fgets n s).1, (fgets n s).2 ++ t) := by
  induction n generalizing s with
  | zero => rfl
  | succ n ih =>
    cases s with
    | nil => simp at h
    | cons c s =>
      simp only [List.cons_append, fgets]
      split
      · rfl
      · rename_i hc
        have hs : nl ∈ s := (List.mem_cons.mp h).resolve_left fun he => hc he.symm
        rw [ih hs]

/-- Text up to a newline is read on its own. -/
theorem fileLines_append {size : Nat} (hsize : 2 ≤ size) {s : List UInt8} (t : List UInt8)
    (h : s.getLast? = some nl) : fileLines size (s ++ t) = fileLines size s ++ fileLines size t := by
  induction hn : s.length using Nat.strong_induction_on generalizing s with
  | _ n ih =>
    have hs : s ≠ [] := by
      rintro rfl
      simp at h
    have hst : s ++ t ≠ [] := by simp [hs]
    rw [fileLines_of_ne_nil hsize hst, fileLines_of_ne_nil hsize hs,
      fgets_append_of_mem _ t (List.mem_of_getLast? h), List.cons_append]
    congr 1
    by_cases hrest : (fgets (size - 1) s).2 = []
    · simp [hrest, fileLines_nil]
    · have happ := fgets_append (size - 1) s
      have hlast : (fgets (size - 1) s).2.getLast? = some nl := by
        rw [← happ, List.getLast?_append_of_ne_nil _ hrest] at h
        exact h
      obtain ⟨c, s', rfl⟩ := List.exists_cons_of_ne_nil hs
      have hlt := fgets_rest_lt (show 0 < size - 1 by omega) c s'
      exact ih _ (by simp only [List.length_cons] at hn; omega) hlast rfl

/-- A newline ends the line it is in. -/
theorem fgets_newline (n : Nat) (s : List UInt8) :
    nl ∉ (fgets n s).1.dropLast ∧ (nl ∈ (fgets n s).1 → (fgets n s).1.getLast? = some nl) := by
  induction n generalizing s with
  | zero => simp [fgets]
  | succ n ih =>
    cases s with
    | nil => simp [fgets]
    | cons c s =>
      simp only [fgets]
      split
      · rename_i hc
        simp [hc]
      · rename_i hc
        obtain ⟨hinner, hlast⟩ := ih s
        cases hr : (fgets n s).1 with
        | nil => simp [eq_comm]
        | cons d r =>
          rw [hr] at hinner hlast
          rw [List.dropLast_cons_cons, List.mem_cons, List.mem_cons,
            List.getLast?_cons_cons]
          refine ⟨not_or.mpr ⟨fun he => hc he.symm, hinner⟩, ?_⟩
          intro hm
          exact hlast (hm.resolve_left fun he => hc he.symm)

/-- A short line without a newline is the end of the file. -/
theorem fgets_rest_eq_nil {n : Nat} {s : List UInt8} (h : nl ∉ (fgets n s).1)
    (hlen : (fgets n s).1.length < n) : (fgets n s).2 = [] := by
  induction n generalizing s with
  | zero => simp at hlen
  | succ n ih =>
    cases s with
    | nil => rfl
    | cons c s =>
      simp only [fgets] at h hlen ⊢
      split at h
      · rename_i hc
        simp [hc] at h
      · rename_i hc
        simp only [if_neg hc, List.length_cons] at hlen ⊢
        rw [List.mem_cons, not_or] at h
        exact ih h.2 (by omega)

/-- `fgets` stopped because the file ended. -/
def hitEof (size : Nat) (line : List UInt8) : Prop := nl ∉ line ∧ line.length < size - 1

instance (size : Nat) (line : List UInt8) : Decidable (hitEof size line) := by
  unfold hitEof
  infer_instance

/-- Where no line overflows a buffer, a smaller buffer cuts each line on its own. -/
theorem fileLines_flatMap {size size' : Nat} (hsize : 2 ≤ size) (hsize' : 2 ≤ size')
    (s : List UInt8) (h : ∀ line ∈ fileLines size s, nl ∈ line ∨ hitEof size line) :
    fileLines size' s = (fileLines size s).flatMap (fileLines size') := by
  induction hn : s.length using Nat.strong_induction_on generalizing s with
  | _ n ih =>
    by_cases hs : s = []
    · subst s
      rfl
    · rw [fileLines_of_ne_nil hsize hs] at h ⊢
      have happ := fgets_append (size - 1) s
      obtain ⟨c, s', rfl⟩ := List.exists_cons_of_ne_nil hs
      have hlt := fgets_rest_lt (show 0 < size - 1 by omega) c s'
      have hrest := ih _ (by simp only [List.length_cons] at hn; omega)
        (fgets (size - 1) (c :: s')).2 (fun line hl => h line (List.mem_cons_of_mem _ hl)) rfl
      rw [List.flatMap_cons, ← hrest]
      rcases h _ List.mem_cons_self with hnl | ⟨hno, hlen⟩
      · rw [← fileLines_append hsize' _ ((fgets_newline _ _).2 hnl), happ]
      · have hnil := fgets_rest_eq_nil hno hlen
        rw [hnil, fileLines_nil, List.append_nil]
        rw [hnil, List.append_nil] at happ
        rw [happ]

theorem fileLines_mem {size : Nat} (hsize : 2 ≤ size) {s line : List UInt8}
    (h : line ∈ fileLines size s) :
    line ≠ [] ∧ nl ∉ line.dropLast ∧ line.length ≤ size - 1 := by
  induction hn : s.length using Nat.strong_induction_on generalizing s with
  | _ n ih =>
    by_cases hs : s = []
    · subst s
      simp [fileLines_nil] at h
    · rw [fileLines_of_ne_nil hsize hs] at h
      obtain ⟨c, s', rfl⟩ := List.exists_cons_of_ne_nil hs
      rcases List.mem_cons.mp h with rfl | h
      · exact ⟨fgets_ne_nil (by omega) c s', (fgets_newline _ _).1, fgets_length_le _ _⟩
      · have hlt := fgets_rest_lt (show 0 < size - 1 by omega) c s'
        exact ih _ (by simp only [List.length_cons] at hn; omega) h rfl

end Lines

section Scan

theorem splitSign_append {s : List UInt8} (hs : s ≠ []) (t : List UInt8) :
    splitSign (s ++ t) = ((splitSign s).1, (splitSign s).2 ++ t) := by
  cases s with
  | nil => exact absurd rfl hs
  | cons c s =>
    simp only [List.cons_append, splitSign]
    split
    · rfl
    · split <;> rfl

theorem scanInt_eq_some {s r : List UInt8} {v : Int} (h : scanInt s = some (v, r)) :
    ∃ q neg d, s.dropWhile isSpace = q ∧ q ≠ [] ∧ splitSign q = (neg, d) ∧
      d.takeWhile isDigit ≠ [] ∧ v = toInt neg (digitsVal (d.takeWhile isDigit)) ∧
      r = d.dropWhile isDigit := by
  unfold scanInt at h
  dsimp only at h
  split at h
  · simp at h
  · rename_i hds
    simp only [Option.some.injEq, Prod.mk.injEq] at h
    refine ⟨_, _, _, rfl, ?_, rfl, hds, h.1.symm, h.2.symm⟩
    intro hq
    rw [hq] at hds
    exact hds rfl

theorem scanInt_of_parts {s q d : List UInt8} {neg : Bool} (hq : s.dropWhile isSpace = q)
    (hd : splitSign q = (neg, d)) (hds : d.takeWhile isDigit ≠ []) :
    scanInt s = some (toInt neg (digitsVal (d.takeWhile isDigit)), d.dropWhile isDigit) := by
  unfold scanInt
  simp only [hq, hd, if_neg hds]

theorem dropWhile_append_of_ne_nil {p : UInt8 → Bool} {s : List UInt8} (t : List UInt8)
    (h : s.dropWhile p ≠ []) : (s ++ t).dropWhile p = s.dropWhile p ++ t := by
  rw [List.dropWhile_append, if_neg (by simpa using h)]

theorem dropWhile_append_of_eq_nil {p : UInt8 → Bool} {s : List UInt8} (t : List UInt8)
    (h : s.dropWhile p = []) : (s ++ t).dropWhile p = t.dropWhile p := by
  rw [List.dropWhile_append, if_pos (by simpa using h)]

theorem takeWhile_append_of_ne_nil {p : UInt8 → Bool} {s : List UInt8} (t : List UInt8)
    (h : s.dropWhile p ≠ []) : (s ++ t).takeWhile p = s.takeWhile p := by
  rw [List.takeWhile_append, if_neg]
  intro hlen
  have := congrArg List.length (List.takeWhile_append_dropWhile (p := p) (l := s))
  rw [List.length_append, hlen] at this
  exact h (List.length_eq_zero_iff.mp (by omega))

/-- A conversion that stopped at a byte of its input reads the same in any longer input. -/
theorem scanInt_append {s r : List UInt8} {v : Int} (t : List UInt8) (h : scanInt s = some (v, r))
    (hr : r ≠ []) : scanInt (s ++ t) = some (v, r ++ t) := by
  obtain ⟨q, neg, d, rfl, hne, hd, hds, rfl, rfl⟩ := scanInt_eq_some h
  have hq := dropWhile_append_of_ne_nil t hne
  have hd' : splitSign (s.dropWhile isSpace ++ t) = (neg, d ++ t) := by
    rw [splitSign_append hne, hd]
  have htake := takeWhile_append_of_ne_nil t hr
  rw [scanInt_of_parts hq hd' (by rwa [htake]), htake, dropWhile_append_of_ne_nil t hr]

/-- A conversion that used up its input takes the digits that follow. -/
theorem scanInt_append_open {s : List UInt8} {v : Int} (t : List UInt8)
    (h : scanInt s = some (v, [])) : ∃ v', scanInt (s ++ t) = some (v', t.dropWhile isDigit) ∧
      (t.takeWhile isDigit = [] → v' = v) := by
  obtain ⟨q, neg, d, rfl, hne, hd, hds, rfl, hr⟩ := scanInt_eq_some h
  have hq := dropWhile_append_of_ne_nil t hne
  have hd' : splitSign (s.dropWhile isSpace ++ t) = (neg, d ++ t) := by
    rw [splitSign_append hne, hd]
  have hall : d.takeWhile isDigit = d := by
    have := List.takeWhile_append_dropWhile (p := isDigit) (l := d)
    rwa [← hr, List.append_nil] at this
  have htake : (d ++ t).takeWhile isDigit = d ++ t.takeWhile isDigit := by
    rw [List.takeWhile_append, if_pos (by rw [hall])]
  have hds' : (d ++ t).takeWhile isDigit ≠ [] := by
    rw [htake, ← hall]
    exact List.append_ne_nil_of_left_ne_nil hds _
  have hscan := scanInt_of_parts hq hd' hds'
  rw [dropWhile_append_of_eq_nil t hr.symm] at hscan
  refine ⟨_, hscan, ?_⟩
  intro ht
  rw [htake, ht, List.append_nil, hall]

theorem scanInt_ne_nil {s r : List UInt8} {v : Int} (h : scanInt s = some (v, r)) : s ≠ [] := by
  rintro rfl
  simp [scanInt, splitSign] at h

theorem scanPair_eq_some {s r : List UInt8} {a b : Int} (h : scanPair s = some (a, b, r)) :
    ∃ m, scanInt s = some (a, m) ∧ scanInt m = some (b, r) := by
  unfold scanPair at h
  split at h
  · simp at h
  · rename_i a' m hm
    obtain ⟨⟨b', r'⟩, hb, he⟩ := Option.map_eq_some_iff.mp h
    simp only [Prod.mk.injEq] at he
    obtain ⟨rfl, rfl, rfl⟩ := he
    exact ⟨m, hm, hb⟩

theorem scanPair_of_scans {s m r : List UInt8} {a b : Int} (h : scanInt s = some (a, m))
    (h' : scanInt m = some (b, r)) : scanPair s = some (a, b, r) := by
  simp [scanPair, h, h']

/-- A pair that stopped at a byte of its input reads the same in any longer input. -/
theorem scanPair_append {s r : List UInt8} {a b : Int} (t : List UInt8)
    (h : scanPair s = some (a, b, r)) (hr : r ≠ []) :
    scanPair (s ++ t) = some (a, b, r ++ t) := by
  obtain ⟨m, hm, hb⟩ := scanPair_eq_some h
  exact scanPair_of_scans (scanInt_append t hm (scanInt_ne_nil hb)) (scanInt_append t hb hr)

/-- A pair that used up its input takes the digits that follow. -/
theorem scanPair_append_open {s : List UInt8} {a b : Int} (t : List UInt8)
    (h : scanPair s = some (a, b, [])) :
    ∃ b', scanPair (s ++ t) = some (a, b', t.dropWhile isDigit) ∧
      (t.takeWhile isDigit = [] → b' = b) := by
  obtain ⟨m, hm, hb⟩ := scanPair_eq_some h
  obtain ⟨b', hb', hsame⟩ := scanInt_append_open t hb
  exact ⟨b', scanPair_of_scans (scanInt_append t hm (scanInt_ne_nil hb)) hb', hsame⟩

end Scan

end Kvl.CText
