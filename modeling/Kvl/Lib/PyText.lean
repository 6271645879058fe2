import Mathlib

/-!
# Text as Python has it

A string is the list of its code points, surrogates included. White space and
decimal digits are those of Unicode; `int` reads a base 10 number.
-/

namespace Kvl.PyText

set_option autoImplicit false

abbrev Str := List Nat

/-- The code points of a literal. -/
def text (s : String) : Str := s.toList.map Char.toNat

/-- White space from 128 on. -/
def wideSpace (c : Nat) : Bool :=
  c == 0x85 || c == 0xa0 || c == 0x1680 || (0x2000 ≤ c && c ≤ 0x200a) || c == 0x2028 ||
    c == 0x2029 || c == 0x202f || c == 0x205f || c == 0x3000

def isspace (c : Nat) : Bool :=
  (9 ≤ c && c ≤ 13) || (0x1c ≤ c && c ≤ 0x20) || wideSpace c

/-- What `int` skips around a number: below 128 only the white space of C. -/
def intSpace (c : Nat) : Bool := (9 ≤ c && c ≤ 13) || c == 0x20 || wideSpace c

def stripBy (space : Nat → Bool) (s : Str) : Str := (s.dropWhile space).rdropWhile space

def strip (s : Str) : Str := stripBy isspace s

/-- `s.split()`: the runs of other characters between white space. -/
def split (s : Str) : List Str := (s.splitOnP isspace).filter (· ≠ [])

/-- The zeros of the runs of decimal digits. -/
def digitZeros : List Nat :=
  [0x30, 0x660, 0x6f0, 0x7c0, 0x966, 0x9e6, 0xa66, 0xae6, 0xb66, 0xbe6, 0xc66, 0xce6, 0xd66,
    0xde6, 0xe50, 0xed0, 0xf20, 0x1040, 0x1090, 0x17e0, 0x1810, 0x1946, 0x19d0, 0x1a80, 0x1a90,
    0x1b50, 0x1bb0, 0x1c40, 0x1c50, 0xa620, 0xa8d0, 0xa900, 0xa9d0, 0xa9f0, 0xaa50, 0xabf0,
    0xff10, 0x104a0, 0x10d30, 0x11066, 0x110f0, 0x11136, 0x111d0, 0x112f0, 0x11450, 0x114d0,
    0x11650, 0x116c0, 0x11730, 0x118e0, 0x11950, 0x11c50, 0x11d50, 0x11da0, 0x16a60, 0x16ac0,
    0x16b50, 0x1d7ce, 0x1d7d8, 0x1d7e2, 0x1d7ec, 0x1d7f6, 0x1e140, 0x1e2f0, 0x1e950, 0x1fbf0]

def decimal (c : Nat) : Option Nat :=
  (digitZeros.find? fun z => z ≤ c ∧ c < z + 10).map (c - ·)

/-- The digits of a number, single underscores between them. The flag says that a digit
stands right before. -/
def readDigits : Bool → Str → Option (List Nat)
  | true, [] => some []
  | false, [] => none
  | after, c :: s =>
    if c = 95 then if after then readDigits false s else none
    else (decimal c).bind fun d => (readDigits true s).map (d :: ·)

def maxStrDigits : Nat := 4300

def digitsValue (ds : List Nat) : Nat := ds.foldl (fun n d => 10 * n + d) 0

def signOf : Str → Bool × Str
  | [] => (false, [])
  | c :: s => if c = 43 then (false, s) else if c = 45 then (true, s) else (false, c :: s)

/-- `int(s)`, where `none` is `ValueError`. -/
def pyInt (s : Str) : Option Int :=
  let signed := signOf (stripBy intSpace s)
  (readDigits false signed.2).bind fun ds =>
    if ds.length > maxStrDigits then none
    else some (if signed.1 then -(digitsValue ds : Int) else digitsValue ds)

/-- `str(n)`. -/
def strNat (n : Nat) : Str := (Nat.toDigits 10 n).map Char.toNat

def strInt (n : Int) : Str := if n < 0 then 45 :: strNat n.natAbs else strNat n.natAbs

/-- The classes that exception handlers tell apart; `key` and `exception` are other
subclasses of `Exception`, `base` is outside of it. -/
inductive ExcKind
  | brokenPipe
  | connectionReset
  | value
  | fileNotFound
  | key
  | exception
  | base
  deriving DecidableEq, Repr

structure Exc where
  kind : ExcKind
  /-- `str(exc)` -/
  text : Str
  deriving DecidableEq, Repr

def valueError (s : String) : Exc := ⟨.value, text s⟩

example : pyInt (text " +1_0\n") = some 10 := by decide +kernel

end Kvl.PyText
