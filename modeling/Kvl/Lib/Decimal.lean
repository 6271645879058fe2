import Kvl.Lib.CText

/-!
# Decimal numerals

A natural number as the digits a formatted string holds, and what `%d` reads
back from them.
-/

namespace Kvl.CText

set_option autoImplicit false

def decimalFrom : Nat → Nat → List UInt8
  | 0, _ => []
  | fuel + 1, n =>
    if n < 10 then [UInt8.ofNat (48 + n)]
    else decimalFrom fuel (n / 10) ++ [UInt8.ofNat (48 + n % 10)]

def decimal (n : Nat) : List UInt8 := decimalFrom (n + 1) n

theorem digit_spec {d : Nat} (h : d < 10) :
    isDigit (UInt8.ofNat (48 + d)) = true ∧ (UInt8.ofNat (48 + d)).toNat - 48 = d := by
  have hd : (UInt8.ofNat (48 + d)).toNat = 48 + d := by
    rw [UInt8.toNat_ofNat', Nat.mod_eq_of_lt (by omega)]
  constructor
  · unfold isDigit
    rw [Bool.and_eq_true, decide_eq_true_eq, decide_eq_true_eq, UInt8.le_iff_toNat_le,
      UInt8.le_iff_toNat_le, hd]
    constructor
    · exact Nat.le_add_right 48 d
    · change 48 + d ≤ 57
      omega
  · rw [hd, Nat.add_sub_cancel_left]

theorem digitsVal_append (s : List UInt8) (d : UInt8) :
    digitsVal (s ++ [d]) = 10 * digitsVal s + (d.toNat - 48) := by
  unfold digitsVal
  rw [List.foldl_append]
  rfl

theorem decimalFrom_spec (fuel n : Nat) (h : n < fuel) :
    decimalFrom fuel n ≠ [] ∧ (∀ c ∈ decimalFrom fuel n, isDigit c = true) ∧
      digitsVal (decimalFrom fuel n) = n := by
  induction fuel generalizing n with
  | zero => omega
  | succ fuel ih =>
    unfold decimalFrom
    split
    · rename_i hsmall
      obtain ⟨hdigit, hvalue⟩ := digit_spec hsmall
      refine ⟨List.cons_ne_nil _ _, ?_, ?_⟩
      · intro c hc
        rw [List.mem_singleton.mp hc]
        exact hdigit
      · unfold digitsVal
        rw [List.foldl_cons, List.foldl_nil, hvalue]
        omega
    · obtain ⟨hne, hdigits, hvalue⟩ := ih (n / 10) (by omega)
      obtain ⟨hdigit, hlast⟩ := digit_spec (Nat.mod_lt n (by decide : 0 < 10))
      refine ⟨List.append_ne_nil_of_left_ne_nil hne _, ?_, ?_⟩
      · intro c hc
        rcases List.mem_append.mp hc with hc | hc
        · exact hdigits c hc
        · rw [List.mem_singleton.mp hc]
          exact hdigit
      · rw [digitsVal_append, hvalue, hlast]
        omega

theorem decimal_ne_nil (n : Nat) : decimal n ≠ [] :=
  (decimalFrom_spec (n + 1) n (Nat.lt_succ_self n)).1

theorem decimal_isDigit {n : Nat} {c : UInt8} (hc : c ∈ decimal n) : isDigit c = true :=
  (decimalFrom_spec (n + 1) n (Nat.lt_succ_self n)).2.1 c hc

theorem digitsVal_decimal (n : Nat) : digitsVal (decimal n) = n :=
  (decimalFrom_spec (n + 1) n (Nat.lt_succ_self n)).2.2

end Kvl.CText
