import Couv.BinFloat
import Couv.Value

/-! Lua numbers as the doubles they are: what a C value becomes when it is pushed, and what the
argument checks make of a double. -/
namespace Couv

open BinFloat

/-! Bit patterns. -/

/-- The number of a magnitude, with a sign. -/
def packFloat (w : ℕ) (neg : Bool) (k : ℕ) : BitVec w :=
  BitVec.ofNat w (if neg then 2^(w-1)+k else k)

/-- The pattern without its sign. -/
def floatNumber {w : ℕ} (x : BitVec w) : ℕ := x.toNat % 2^(w-1)

/-- The conversion of a `float` to double. -/
def widen (x : BitVec 32) : BitVec 64 :=
  packFloat 64 x.msb (binary32.convert binary64 (floatNumber x))

/-- The conversion of a `double` to float. -/
def narrow (x : BitVec 64) : BitVec 32 :=
  packFloat 32 x.msb (binary64.convert binary32 (floatNumber x))

/-- The conversion of an integer to double. -/
def doubleOfInt (n : ℤ) : BitVec 64 :=
  packFloat 64 (n < 0) (min (nearest 52 (n.natAbs * 2^binary64.scale) 1) binary64.inf)

/-- The `lua_Number` of a value; `strtod` converts numerals. -/
def luaTodouble (strtod : LuaString → Option (BitVec 64)) : Value → Option (BitVec 64)
  | .number n => some (doubleOfInt n)
  | .float x => some (widen x)
  | .double x => some x
  | .string s => strtod s
  | _ => none

def luaLChecknumber (strtod : LuaString → Option (BitVec 64)) (arg : ℕ) (v : Value) :
    Except LuaError (BitVec 64) :=
  match luaTodouble strtod v with
  | some d => .ok d
  | none => .error (.argError arg "number expected")

section
variable {w : ℕ}

theorem floatNumber_lt (x : BitVec (w+1)) : floatNumber x < 2^w :=
  Nat.mod_lt _ (Nat.two_pow_pos w)

theorem packFloat_toNat {neg : Bool} {k : ℕ} (hk : k < 2^w) :
    (packFloat (w+1) neg k).toNat = if neg then 2^w+k else k := by
  rw [packFloat, BitVec.toNat_ofNat, Nat.add_sub_cancel]
  apply Nat.mod_eq_of_lt
  rw [pow_succ]
  split <;> omega

theorem floatNumber_packFloat {neg : Bool} {k : ℕ} (hk : k < 2^w) :
    floatNumber (packFloat (w+1) neg k) = k := by
  rw [floatNumber, packFloat_toNat hk, Nat.add_sub_cancel]
  split
  · rw [Nat.add_mod_left, Nat.mod_eq_of_lt hk]
  · exact Nat.mod_eq_of_lt hk

theorem msb_packFloat {neg : Bool} {k : ℕ} (hk : k < 2^w) :
    (packFloat (w+1) neg k).msb = neg := by
  rw [BitVec.msb_eq_decide, packFloat_toNat hk, Nat.add_sub_cancel]
  cases neg with
  | true => exact decide_eq_true (Nat.le_add_right _ _)
  | false => exact decide_eq_false (Nat.not_le.mpr hk)

/-- A pattern is its sign and its number. -/
theorem packFloat_floatNumber (x : BitVec (w+1)) :
    packFloat (w+1) x.msb (floatNumber x) = x := by
  apply BitVec.eq_of_toNat_eq
  have hlt := x.isLt
  rw [packFloat_toNat (floatNumber_lt x), BitVec.msb_eq_decide, floatNumber, Nat.add_sub_cancel]
  rw [pow_succ] at hlt
  by_cases hge : 2^w ≤ x.toNat
  · rw [if_pos (decide_eq_true hge), Nat.mod_eq_sub_mod hge, Nat.mod_eq_of_lt (by omega)]
    omega
  · rw [if_neg (by simpa using hge), Nat.mod_eq_of_lt (by omega)]

end

/-! The integer part of a double. -/

section
variable {F : Format} (hF : 2 ≤ F.expo) {bias : ℕ} (hbias : 2*bias+2 = 2^F.expo)
  {w : ℕ} (hw : w = F.expo+F.frac+1) (x : BitVec w)
include hbias hw

theorem truncBits_fields : x.toNat % 2^F.frac = floatNumber x % 2^F.frac ∧
    x.toNat / 2^F.frac % (2*bias+2) = floatNumber x / 2^F.frac := by
  subst hw
  have hpow : 2^(F.expo+F.frac) = 2^F.frac * 2^F.expo := by rw [Nat.add_comm, pow_add]
  have hk : floatNumber x = x.toNat % 2^F.frac + 2^F.frac * (x.toNat / 2^F.frac % 2^F.expo) := by
    rw [floatNumber, Nat.add_sub_cancel, hpow, Nat.mod_mul]
  have hlt := Nat.mod_lt x.toNat (Nat.two_pow_pos F.frac)
  rw [hbias, hk, Nat.add_mul_mod_self_left, Nat.mod_mod,
    Nat.add_mul_div_left _ _ (Nat.two_pow_pos _), Nat.div_eq_of_lt hlt, Nat.zero_add]
  exact ⟨rfl, rfl⟩

theorem truncBits_notFinite (hx : F.inf ≤ floatNumber x) : truncBits F.frac bias x = -2^63 := by
  subst hw
  have hlt := floatNumber_lt x
  rw [pow_add] at hlt
  have hlo : 2*bias+1 ≤ floatNumber x / 2^F.frac := by
    rw [Nat.le_div_iff_mul_le (Nat.two_pow_pos _)]
    exact (congrArg (· * 2^F.frac) (by omega : 2*bias+1 = 2^F.expo-1)).trans_le hx
  have hhi : floatNumber x / 2^F.frac < 2*bias+2 := by
    rw [Nat.div_lt_iff_lt_mul (Nat.two_pow_pos _), hbias]
    exact hlt
  simp only [truncBits, (truncBits_fields hbias rfl x).2]
  rw [if_pos (by omega)]

include hF in
theorem truncBits_finite (hx : floatNumber x < F.inf) : truncBits F.frac bias x =
    if x.msb then -((magnitude F.frac (floatNumber x) / 2^F.scale : ℕ) : ℤ)
    else (magnitude F.frac (floatNumber x) / 2^F.scale : ℕ) := by
  obtain ⟨hexpo, htwo⟩ := Format.two_pow_expo hF
  obtain ⟨hfrac, hexp⟩ := truncBits_fields hbias hw x
  have hscale : F.scale = F.frac+(bias-1) := by
    unfold Format.scale
    omega
  -- a finite number has no exponent of ones only
  have hfin : floatNumber x / 2^F.frac < 2*bias+1 := by
    rw [Nat.div_lt_iff_lt_mul (Nat.two_pow_pos _)]
    exact hx.trans_eq (congrArg (· * 2^F.frac) (by omega : 2^F.expo-1 = 2*bias+1))
  simp only [truncBits, hfrac, hexp]
  rw [if_neg hfin.ne]
  split
  · -- below one
    next hlow =>
    have hlt : magnitude F.frac (floatNumber x) < 2^F.scale := by
      have hone : magnitude F.frac ((bias-1)*2^F.frac+2^F.frac) = 2^F.scale := by
        rw [magnitude_add (Nat.pow_le_pow_right (by decide) F.frac.le_succ) (.inr le_rfl),
          hscale, pow_add]
      rw [← hone]
      apply magnitude_strictMono
      rw [← Nat.succ_mul]
      exact (Nat.div_lt_iff_lt_mul (Nat.two_pow_pos _)).mp (by omega)
    rw [Nat.div_eq_of_lt hlt]
    split <;> rfl
  · next hge =>
    -- from one on the number is normal, so its fraction has the leading bit
    have hnormal : ¬floatNumber x < 2^F.frac := by
      intro hsub
      rw [Nat.div_eq_of_lt hsub] at hge
      omega
    have hquot : (2^F.frac+floatNumber x%2^F.frac) * 2^(floatNumber x/2^F.frac-bias) / 2^F.frac =
        magnitude F.frac (floatNumber x) / 2^F.scale := by
      rw [magnitude, if_neg hnormal, hscale, pow_add,
        ← Nat.mul_div_mul_right _ _ (Nat.two_pow_pos (bias-1)), Nat.mul_assoc, ← pow_add]
      congr 3
      omega
    rw [hquot]

end

theorem floatNumber_widen (x : BitVec 32) :
    floatNumber (widen x) = binary32.convert binary64 (floatNumber x) :=
  floatNumber_packFloat (w := 63)
    (Format.convert_lt (S := binary32) (D := binary64) (by decide) (floatNumber_lt x))

theorem floatNumber_narrow (x : BitVec 64) :
    floatNumber (narrow x) = binary64.convert binary32 (floatNumber x) :=
  floatNumber_packFloat (w := 31)
    (Format.convert_lt (S := binary64) (D := binary32) (by decide) (floatNumber_lt x))

theorem msb_widen (x : BitVec 32) : (widen x).msb = x.msb :=
  msb_packFloat (w := 63)
    (Format.convert_lt (S := binary32) (D := binary64) (by decide) (floatNumber_lt x))

theorem msb_narrow (x : BitVec 64) : (narrow x).msb = x.msb :=
  msb_packFloat (w := 31)
    (Format.convert_lt (S := binary64) (D := binary32) (by decide) (floatNumber_lt x))

theorem binary32_le_binary64 : binary32.Le binary64 := ⟨by decide, by decide, by decide, by decide⟩

/-- A float and the double it becomes have one integer part. -/
theorem truncBits_widen (x : BitVec 32) : truncBits 52 1023 (widen x) = truncBits 23 127 x := by
  have h32 : 2*127+2 = 2^binary32.expo := rfl
  have h64 : 2*1023+2 = 2^binary64.expo := rfl
  by_cases hx : floatNumber x < binary32.inf
  · obtain ⟨hfin, hmag⟩ := binary32_le_binary64.convert_finite hx
    rw [← floatNumber_widen] at hfin hmag
    have hdiv (a t u : ℕ) : a*2^t / 2^(u+t) = a / 2^u := by
      rw [pow_add, Nat.mul_div_mul_right _ _ (Nat.two_pow_pos t)]
    have hunits := hdiv (magnitude binary32.frac (floatNumber x))
      (binary64.scale-binary32.scale) binary32.scale
    rw [Nat.add_sub_cancel' binary32_le_binary64.scale_le] at hunits
    have h := truncBits_finite (F := binary64) (w := 64) (by decide) h64 rfl (widen x) hfin
    rw [hmag, msb_widen, hunits] at h
    exact h.trans (truncBits_finite (F := binary32) (by decide) h32 rfl x hx).symm
  · have hge : binary64.inf ≤ floatNumber (widen x) := by
      rw [floatNumber_widen, Format.convert, if_neg hx]
      split
      · exact le_rfl
      · exact Nat.le_add_right _ _
    exact (truncBits_notFinite (F := binary64) h64 rfl _ hge).trans
      (truncBits_notFinite (F := binary32) h32 rfl x (Nat.not_lt.mp hx)).symm

/-- Doubles hold the integers of up to 53 bits. -/
theorem truncBits_doubleOfInt {n : ℤ} (h : n.natAbs ≤ 2^53) :
    truncBits 52 1023 (doubleOfInt n) = n := by
  obtain ⟨k, hk⟩ : ∃ k, magnitude 52 k = n.natAbs * 2^binary64.scale := by
    -- `2^53` itself has one bit too many, but is a power of two
    rcases Nat.lt_or_eq_of_le h with h | h
    · exact exists_magnitude h
    · obtain ⟨k, hk⟩ := exists_magnitude (p := 52) (m := 1) (s := 53+binary64.scale) (by decide)
      refine ⟨k, hk.trans ?_⟩
      rw [h, Nat.one_mul, pow_add]
  have hfin : k < binary64.inf := by
    rw [← (magnitude_strictMono 52).lt_iff_lt, hk]
    refine lt_of_lt_of_eq ?_ (Format.magnitude_inf (F := binary64) (by decide)).symm
    calc n.natAbs * 2^binary64.scale ≤ 2^53 * 2^binary64.scale := Nat.mul_le_mul_right _ h
      _ = 2^(53+binary64.scale) := (pow_add _ _ _).symm
      _ < 2^(binary64.frac+(2^binary64.expo-2)) := Nat.pow_lt_pow_right (by decide) (by decide)
  have hpack : doubleOfInt n = packFloat 64 (n < 0) k := by
    rw [doubleOfInt, ← hk, nearest_eq (by decide) Nat.one_pos (Nat.one_mul _).symm,
      Nat.min_eq_left hfin.le]
  have hlt : k < 2^63 := hfin.trans (by decide)
  have hnum : floatNumber (doubleOfInt n) = k := by
    rw [hpack]
    exact floatNumber_packFloat (w := 63) hlt
  have hmsb : (doubleOfInt n).msb = decide (n < 0) := by
    rw [hpack]
    exact msb_packFloat (w := 63) hlt
  have h64 : 2*1023+2 = 2^binary64.expo := rfl
  have htrunc := truncBits_finite (F := binary64) (w := 64) (by decide) h64 rfl (doubleOfInt n)
    (hnum ▸ hfin)
  have hmag : magnitude binary64.frac k = n.natAbs * 2^binary64.scale := hk
  rw [hnum, hmsb, hmag, Nat.mul_div_cancel _ (Nat.two_pow_pos _)] at htrunc
  refine htrunc.trans ?_
  by_cases hneg : n < 0
  · rw [if_pos (decide_eq_true hneg)]
    omega
  · rw [if_neg (by simpa using hneg)]
    omega

/-- An argument check makes of a pushed number what it makes of the double. -/
theorem luaTonumber_luaTodouble {strtod : LuaString → Option (BitVec 64)} {v : Value}
    {d : BitVec 64} (h : luaTodouble strtod v = some d) (hstr : ∀ s, v ≠ .string s)
    (hint : ∀ n, v = .number n → n.natAbs ≤ 2^53) : luaTonumber v = luaTonumber (.double d) := by
  cases v with
  | number n =>
    obtain rfl := Option.some.inj h
    exact congrArg some (truncBits_doubleOfInt (hint n rfl)).symm
  | float x =>
    obtain rfl := Option.some.inj h
    exact congrArg some (truncBits_widen x).symm
  | double x =>
    obtain rfl := Option.some.inj h
    rfl
  | string s => exact absurd rfl (hstr s)
  | _ => cases h

/-! From float to double and back. -/

/-- A NaN made quiet. -/
def quieted (x : BitVec 32) : BitVec 32 :=
  if binary32.inf < floatNumber x then x ||| 0x400000#32 else x

theorem narrow_widen (x : BitVec 32) : narrow (widen x) = quieted x := by
  have hconv := binary32_le_binary64.convert_convert (floatNumber x)
  rw [narrow, msb_widen, floatNumber_widen, hconv, quieted]
  split
  swap
  · exact packFloat_floatNumber x
  next hnan =>
  -- the quiet bit is a fraction bit
  obtain ⟨f, hf, hx⟩ : ∃ f < 2^23, floatNumber x = binary32.inf + f := by
    have hlt : floatNumber x < 2^31 := floatNumber_lt x
    have hinf : binary32.inf = 2^31-2^23 := rfl
    exact ⟨floatNumber x - binary32.inf, by omega, by omega⟩
  have hbit (n : ℕ) (hn : n%2^23 = 0) : (n+f) ||| 2^22 = n + (f ||| 2^22) := by
    obtain ⟨q, rfl⟩ := Nat.dvd_of_mod_eq_zero hn
    have hor : f ||| 2^22 < 2^23 := Nat.or_lt_two_pow hf (by decide)
    rw [Nat.two_pow_add_eq_or_of_lt hf, Nat.or_assoc, Nat.two_pow_add_eq_or_of_lt hor]
  have hquiet : f ||| 2^22 < 2^23 := Nat.or_lt_two_pow hf (by decide)
  have hinf : binary32.inf = 2^31-2^23 := rfl
  have hx' : x.toNat = (if x.msb then 2^31+binary32.inf else binary32.inf) + f := by
    have hlt := x.isLt
    have hmod : x.toNat % 2^31 = binary32.inf + f := hx
    rw [BitVec.msb_eq_decide]
    simp only [decide_eq_true_eq]
    split <;> omega
  have hbits : (packFloat 32 x.msb (binary32.inf + (f ||| 2^22))).toNat =
      (if x.msb then 2^31+binary32.inf else binary32.inf) + (f ||| 2^22) := by
    rw [packFloat_toNat (w := 31) (by omega)]
    split
    · rw [Nat.add_assoc]
    · rfl
  apply BitVec.eq_of_toNat_eq
  rw [hx, Nat.add_sub_cancel_left, BitVec.toNat_or, Nat.or_comm binary32.quiet]
  refine hbits.trans ?_
  rw [hx', ← hbit]
  · rfl
  · split <;> rfl

/-- `f` is the float that the double `d` rounds to, to the nearest one and to the even one of
two; beyond the largest float it is an infinity. -/
structure Rounds (d : BitVec 64) (f : BitVec 32) : Prop where
  sign : f.msb = d.msb
  finite : floatNumber d < binary64.inf → ∃ r,
    Nearest binary32.frac (magnitude binary64.frac (floatNumber d))
      (2^(binary64.scale-binary32.scale)) r ∧ floatNumber f = min r binary32.inf
  infinite : floatNumber d = binary64.inf → floatNumber f = binary32.inf
  nan : binary64.inf < floatNumber d → binary32.inf < floatNumber f

theorem rounds_narrow (d : BitVec 64) : Rounds d (narrow d) where
  sign := msb_narrow d
  finite hd := by
    refine ⟨_, nearest_nearest (by decide) (Nat.two_pow_pos _), ?_⟩
    rw [floatNumber_narrow, Format.convert, if_pos hd,
      Nat.sub_eq_zero_of_le binary32_le_binary64.scale_le, pow_zero, Nat.mul_one]
  infinite hd := by
    rw [floatNumber_narrow, Format.convert, if_neg hd.not_lt, if_pos hd]
  nan hd := by
    rw [floatNumber_narrow, Format.convert, if_neg hd.not_gt, if_neg hd.ne']
    exact Nat.lt_add_of_pos_right ((Nat.two_pow_pos _).trans_le Nat.left_le_or)

end Couv
