import Couv.BinFloat
import Mathlib.Data.List.DropRight
import Mathlib.Data.List.TakeWhile
import Mathlib.Data.Nat.Digits.Lemmas
import Mathlib.Data.Nat.Log
import Mathlib.Tactic.IntervalCases

/-! Numerals: the digits of a number as bytes, the number that digits denote, and the decimal
form that `%g` gives to a fraction. -/
namespace Couv

open BinFloat (roundEven)

def isDigit (c : UInt8) : Bool := 48 ≤ c && c ≤ 57

def hexDigit (c : UInt8) : Option ℕ :=
  if isDigit c then some (c.toNat-48)
  else if 97 ≤ c && c ≤ 102 then some (c.toNat-87)
  else if 65 ≤ c && c ≤ 70 then some (c.toNat-55)
  else none

def digitsValue (base : ℕ) (s : List UInt8) : ℕ :=
  s.foldl (fun n c => base*n + (hexDigit c).getD 0) 0

/-- The digits of `n` in a base up to ten, the most significant one first. -/
def numeral (base n : ℕ) : List UInt8 :=
  if n = 0 then [48] else ((Nat.digits base n).map fun d => UInt8.ofNat (48+d)).reverse

/-! The decimal form of `p/q`. -/

/-- The exponent of the first digit. -/
def leadingExp (p q : ℕ) : ℤ :=
  if q ≤ p then Nat.log 10 (p/q) else -Nat.clog 10 ((q+p-1)/p)

/-- The fraction rounded to `prec` digits, as their number and the exponent of the first one. -/
def significand (prec p q : ℕ) : ℕ × ℤ :=
  let e := leadingExp p q
  let k : ℤ := prec-1-e
  let d := if 0 ≤ k then roundEven (p*10^k.toNat) q else roundEven p (q*10^(-k).toNat)
  -- rounding up may have made one digit more
  if d = 10^prec then (10^(prec-1), e+1) else (d, e)

/-- A fraction without the zeros at its end; without digits there is no point. -/
def pointDigits (frac : List UInt8) : List UInt8 :=
  match frac.rdropWhile (· = 48) with
  | [] => []
  | ds => 46 :: ds

/-- An exponent has a sign and at least two digits. -/
def exponentDigits (e : ℤ) : List UInt8 :=
  let ds := numeral 10 e.natAbs
  (if e < 0 then 45 else 43) :: if ds.length < 2 then 48 :: ds else ds

/-- `%g` with the precision `prec` -/
def formatG (prec p q : ℕ) : List UInt8 :=
  if p = 0 then [48]
  else
    let (d, e) := significand prec p q
    let ds := numeral 10 d
    if e < -4 ∨ prec ≤ e then ds.take 1 ++ pointDigits (ds.drop 1) ++ 101 :: exponentDigits e
    else if e < 0 then 48 :: pointDigits (List.replicate (-e-1).toNat 48 ++ ds)
    else ds.take (e.toNat+1) ++ pointDigits (ds.drop (e.toNat+1))

section
variable {b : ℕ}

theorem hexDigit_digit {d : ℕ} (h : d < 10) : hexDigit (UInt8.ofNat (48+d)) = some d := by
  interval_cases d <;> decide

theorem mem_numeral (hb : 1 < b) {n : ℕ} {c : UInt8} (hc : c ∈ numeral b n) :
    ∃ d < b, c = UInt8.ofNat (48+d) := by
  unfold numeral at hc
  split at hc
  · exact ⟨0, by omega, List.mem_singleton.mp hc⟩
  · obtain ⟨d, hd, rfl⟩ := List.mem_map.mp (List.mem_reverse.mp hc)
    exact ⟨d, Nat.digits_lt_base hb hd, rfl⟩

theorem isDigit_of_mem_numeral (hb : 1 < b) (hten : b ≤ 10) {n : ℕ} {c : UInt8}
    (hc : c ∈ numeral b n) : isDigit c = true := by
  obtain ⟨d, hd, rfl⟩ := mem_numeral hb hc
  have hlt : d < 10 := by omega
  clear hc hd
  interval_cases d <;> rfl

/-- As many digits as the number needs. -/
theorem length_numeral (hb : 1 < b) (n : ℕ) : (numeral b n).length = Nat.log b n + 1 := by
  unfold numeral
  split
  · next h => rw [h, Nat.log_zero_right, List.length_singleton]
  · next h => rw [List.length_reverse, List.length_map, Nat.length_digits b n hb h]

theorem digitsValue_numeral (hb : 1 < b) (hten : b ≤ 10) (n : ℕ) :
    digitsValue b (numeral b n) = n := by
  unfold numeral
  split
  · next h => exact h.symm
  -- the least significant digit comes first in `Nat.digits`, and last in the numeral
  · have hfold : ∀ ds : List ℕ, (∀ d ∈ ds, d < b) →
        digitsValue b ((ds.map fun d => UInt8.ofNat (48+d)).reverse) = Nat.ofDigits b ds := by
      intro ds
      induction ds with
      | nil => exact fun _ => rfl
      | cons d ds ih =>
        intro hds
        have hrest := ih fun e he => hds e (List.mem_cons_of_mem d he)
        unfold digitsValue at hrest ⊢
        rw [List.map_cons, List.reverse_cons, List.foldl_append, hrest, List.foldl_cons,
          List.foldl_nil, hexDigit_digit ((hds d List.mem_cons_self).trans_le hten),
          Nat.ofDigits_cons, Option.getD_some, Nat.add_comm]
    rw [hfold _ fun d hd => Nat.digits_lt_base hb hd, Nat.ofDigits_digits]

theorem numeral_mul_pow (hb : 1 < b) {n : ℕ} (hn : n ≠ 0) (k : ℕ) :
    numeral b (n*b^k) = numeral b n ++ List.replicate k 48 := by
  have hne : n*b^k ≠ 0 := Nat.mul_ne_zero hn (pow_ne_zero k (by omega))
  rw [numeral, if_neg hne, numeral, if_neg hn, Nat.mul_comm,
    Nat.digits_base_pow_mul hb (Nat.pos_of_ne_zero hn), List.map_append, List.reverse_append,
    List.map_replicate, List.reverse_replicate]
  rfl

end

theorem pointDigits_zeros (k : ℕ) : pointDigits (List.replicate k 48) = [] := by
  have hzeros : (List.replicate k (48 : UInt8)).rdropWhile (· = 48) = [] := by
    rw [List.rdropWhile_eq_nil_iff]
    exact fun c hc => decide_eq_true (List.eq_of_mem_replicate hc)
  rw [pointDigits, hzeros]

theorem roundEven_one (n : ℕ) : roundEven n 1 = n := by
  rw [roundEven, Nat.mod_one, Nat.div_one]
  rfl

/-- An integer that has no more digits than the precision is written out. -/
theorem formatG_nat {prec n : ℕ} (h : n < 10^prec) : formatG prec n 1 = numeral 10 n := by
  by_cases hn : n = 0
  · rw [hn]
    rfl
  have hlog : Nat.log 10 n < prec := Nat.log_lt_of_lt_pow hn h
  -- the number has as many digits in front of the point as its logarithm says
  have hexp : leadingExp n 1 = Nat.log 10 n := by
    rw [leadingExp, if_pos (Nat.one_le_iff_ne_zero.mpr hn), Nat.div_one]
  obtain ⟨k, rfl⟩ : ∃ k, prec = Nat.log 10 n + 1 + k := Nat.exists_eq_add_of_le hlog
  have hk : ((Nat.log 10 n + 1 + k : ℕ) : ℤ) - 1 - Nat.log 10 n = k := by
    push_cast
    omega
  have hlt : n*10^k < 10^(Nat.log 10 n + 1 + k) := by
    rw [pow_add]
    exact Nat.mul_lt_mul_of_pos_right (Nat.lt_pow_succ_log_self (by decide) n) (by positivity)
  have hsig : significand (Nat.log 10 n + 1 + k) n 1 = (n*10^k, (Nat.log 10 n : ℤ)) := by
    simp only [significand, hexp, hk]
    rw [if_pos (Int.natCast_nonneg k), Int.toNat_natCast, roundEven_one, if_neg hlt.ne]
  have hlen := length_numeral (b := 10) (by decide) n
  rw [formatG, if_neg hn, hsig]
  -- the digits of the fraction are the zeros that the precision adds
  simp only [numeral_mul_pow (b := 10) (by decide) hn]
  rw [if_neg (by omega), if_neg (by omega), Int.toNat_natCast, ← hlen, List.take_left,
    List.drop_left, pointDigits_zeros, List.append_nil]

/-- The precision decides which form is taken, and zeros at the end go. -/
example : formatG 14 (2*10^15-1) (10^15) = [50] ∧ formatG 3 12345 1 = "1.23e+04".toUTF8.toList ∧
    formatG 14 1 (8*10^4) = "1.25e-05".toUTF8.toList ∧
    formatG 14 1 80 = "0.0125".toUTF8.toList := by decide +kernel

end Couv
