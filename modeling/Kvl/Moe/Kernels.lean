import Kvl.Router.Model
import Kvl.Store.Load

/-!
# The kernels of the mixture-of-experts block

The scalar reference kernels over the float operations of the router and three
conversions. They write into one scratch buffer, and a kernel that refuses its
sizes leaves its destination as it was.
-/

namespace Kvl

set_option autoImplicit false

structure MoeFloats (F D : Type*) extends RouterFloats F D where
  f16BitsToF32 : UInt16 → F
  bf16ToF32 : UInt16 → F
  /-- `(double)` of a signed byte. -/
  ofInt8 : UInt8 → D

structure MlpBF16 where
  gate : Nat → UInt16
  up : Nat → UInt16
  down : Nat → UInt16
  intermediateSize : Int

/-- `n` values written at `base` of a buffer. -/
def writeAt {F : Type*} (base n : Nat) (f : Nat → F) (buf : Nat → F) : Nat → F := fun i =>
  if base ≤ i ∧ i < base + n then f (i - base) else buf i

/-- A pointer into a buffer. -/
def readFrom {F : Type*} (base : Nat) (buf : Nat → F) : Nat → F := fun i => buf (base + i)

theorem readFrom_writeAt {F : Type*} {base n : Nat} {f buf : Nat → F} {i : Nat} (h : i < n) :
    readFrom base (writeAt base n f buf) i = f i := by
  unfold readFrom writeAt
  rw [if_pos ⟨by omega, by omega⟩]
  congr 1
  omega

theorem readFrom_writeAt_of_disjoint {F : Type*} {base base' n : Nat} {f buf : Nat → F} {i : Nat}
    (h : base + i < base' ∨ base' + n ≤ base + i) :
    readFrom base (writeAt base' n f buf) i = readFrom base buf i := by
  unfold readFrom writeAt
  rw [if_neg (by omega)]

section Kernels
variable {F D : Type*} (fl : MoeFloats F D)

def q80Block : Nat := 32
def q80Bytes : Nat := 34

def q80BlockScale (block : Nat → UInt8) : F :=
  fl.f16BitsToF32 ((block 0).toUInt16 ||| ((block 1).toUInt16 <<< 8))

def q80RowRef (row : Nat → UInt8) (x : Nat → F) (blocksPerRow : Nat) : F :=
  fl.narrow ((List.range blocksPerRow).foldl (fun acc b =>
    let block := readFrom (b * q80Bytes) row
    let dot := (List.range q80Block).foldl (fun dot i =>
      fl.addD dot (fl.mulD (fl.ofInt8 (block (2 + i))) (fl.widen (x (b * q80Block + i))))) fl.zeroD
    fl.addD acc (fl.mulD (fl.widen (q80BlockScale fl block)) dot)) fl.zeroD)

/-- One row of a Q8_0 matrix with `inn` columns times `x`. -/
def q80Row (x : Nat → F) (blob : Nat → UInt8) (inn : Int) (o : Nat) : F :=
  let blocksPerRow := inn.toNat / q80Block
  q80RowRef fl (readFrom (o * (blocksPerRow * q80Bytes)) blob) x blocksPerRow

/-- The destination is `buf + base`. -/
def kvlMatvecGgmlQ80 (base : Nat) (x : Nat → F) (blob : Nat → UInt8) (inn out : Int)
    (buf : Nat → F) : Nat → F :=
  if inn ≤ 0 ∨ out ≤ 0 ∨ inn % q80Block ≠ 0 then buf
  else writeAt base out.toNat (q80Row fl x blob inn) buf

def siluMul (g u : F) : F := fl.mul (fl.div g (fl.add fl.one (fl.exp (fl.neg g)))) u

def kvlSiluMul (base : Nat) (gate up : Nat → F) (n : Int) (buf : Nat → F) : Nat → F :=
  writeAt base n.toNat (fun i => siluMul fl (gate i) (up i)) buf

def dotBf16Ref (row : Nat → UInt16) (x : Nat → F) (n : Nat) : F :=
  fl.narrow ((List.range n).foldl (fun acc i =>
    fl.addD acc (fl.mulD (fl.widen (fl.bf16ToF32 (row i))) (fl.widen (x i)))) fl.zeroD)

def bf16Row (x : Nat → F) (w : Nat → UInt16) (inn : Int) (o : Nat) : F :=
  dotBf16Ref fl (readFrom (o * inn.toNat) w) x inn.toNat

def kvlMatvecBf16 (base : Nat) (x : Nat → F) (w : Nat → UInt16) (inn out : Int)
    (buf : Nat → F) : Nat → F :=
  writeAt base out.toNat (bf16Row fl x w inn) buf

/-- `y` is `scratch + base`; `none` is the return code -1. -/
def kvlMlpBf16 (base : Nat) (x : Nat → F) (mlp : MlpBF16) (hiddenSize : Int)
    (scratch : Nat → F) : Option (Nat → F) :=
  if hiddenSize ≤ 0 ∨ mlp.intermediateSize ≤ 0 then none
  else
    let I := mlp.intermediateSize
    let up := I.toNat
    let act := up + I.toNat
    let scratch := kvlMatvecBf16 fl 0 x mlp.gate hiddenSize I scratch
    let scratch := kvlMatvecBf16 fl up x mlp.up hiddenSize I scratch
    let scratch := kvlSiluMul fl act (readFrom 0 scratch) (readFrom up scratch) I scratch
    some (kvlMatvecBf16 fl base (readFrom act scratch) mlp.down I hiddenSize scratch)

variable {fl}

/-- A fold whose steps agree on the listed indices. -/
theorem foldl_range_congr {α : Type*} {f g : α → Nat → α} {n : Nat} (start : α)
    (h : ∀ a, ∀ i < n, f a i = g a i) :
    (List.range n).foldl f start = (List.range n).foldl g start := by
  apply List.foldl_ext
  intro a i hi
  exact h a i (List.mem_range.mp hi)

theorem bf16Row_congr {w : Nat → UInt16} {x x' : Nat → F} {inn : Int} (o : Nat)
    (hx : ∀ i < inn.toNat, x i = x' i) : bf16Row fl x w inn o = bf16Row fl x' w inn o := by
  unfold bf16Row dotBf16Ref
  congr 1
  apply foldl_range_congr
  intro acc i hi
  rw [hx i hi]

end Kernels

end Kvl
