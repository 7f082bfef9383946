import Mathlib.Algebra.Order.Ring.Nat
import Mathlib.Data.Nat.Bitwise
import Mathlib.Order.Monotone.Basic
import Mathlib.Tactic.Ring

/-! Binary floating-point formats. The magnitudes of a format are numbered in their order, as
the bit patterns without the sign are; a magnitude counts units of the least positive one. -/
namespace Couv
namespace BinFloat

/-- The magnitude with the number `k`: the low `p` bits of `k` are the fraction, the others the
exponent. -/
def magnitude (p k : ℕ) : ℕ := if k < 2^p then k else (2^p + k%2^p) * 2^(k/2^p-1)

/-- The integer nearest to `a/b`, the even one of two. -/
def roundEven (a b : ℕ) : ℕ :=
  let d := a/b
  let r := a%b
  if b < 2*r ∨ (2*r = b ∧ d%2 = 1) then d+1 else d

/-- The number of the magnitude nearest to `a/b`, as if there were no largest one. -/
def nearest (p a b : ℕ) : ℕ :=
  let s := Nat.log2 (a/b) - p
  s*2^p + roundEven a (b*2^s)

/-- How far `v` is from `a/b`, in `b`-th parts. -/
def gap (a b v : ℕ) : ℕ := ((a : ℤ) - b*v).natAbs

/-- `r` is the number of a magnitude nearest to `a/b`, even when there are two. -/
structure Nearest (p a b r : ℕ) : Prop where
  least : ∀ k, gap a b (magnitude p r) ≤ gap a b (magnitude p k)
  even : ∀ k, gap a b (magnitude p k) = gap a b (magnitude p r) → k = r ∨ r%2 = 0

section
variable {p k m s : ℕ}

theorem magnitude_add (hm : m ≤ 2^(p+1)) (hs : s = 0 ∨ 2^p ≤ m) :
    magnitude p (s*2^p+m) = m*2^s := by
  have hpos : 0 < 2^p := Nat.two_pow_pos p
  have hpow : 2^(p+1) = 2^p+2^p := by rw [pow_succ, Nat.mul_two]
  by_cases hlow : m < 2^p
  · obtain rfl := hs.resolve_right (by omega)
    rw [Nat.zero_mul, Nat.zero_add, magnitude, if_pos hlow, pow_zero, Nat.mul_one]
  obtain ⟨f, rfl⟩ := Nat.exists_eq_add_of_le (Nat.not_lt.mp hlow)
  have hk : s*2^p + (2^p+f) = f + 2^p*(s+1) := by ring
  have hge : ¬s*2^p + (2^p+f) < 2^p := by omega
  rw [magnitude, if_neg hge, hk, Nat.add_mul_mod_self_left, Nat.add_mul_div_left _ _ hpos]
  by_cases hf : f < 2^p
  · rw [Nat.mod_eq_of_lt hf, Nat.div_eq_of_lt hf, Nat.zero_add, Nat.add_sub_cancel]
  · obtain rfl : f = 2^p := by omega
    rw [Nat.mod_self, Nat.div_self hpos, Nat.add_zero, Nat.add_sub_cancel_left, pow_succ]
    ring

/-- Every number has an exponent and a significand. -/
theorem exists_significand (p k : ℕ) :
    ∃ s m, k = s*2^p+m ∧ m < 2^(p+1) ∧ (s = 0 ∨ 2^p ≤ m) ∧ magnitude p k = m*2^s := by
  have hpos : 0 < 2^p := Nat.two_pow_pos p
  have hpow : 2^(p+1) = 2^p+2^p := by rw [pow_succ, Nat.mul_two]
  by_cases hk : k < 2^p
  · refine ⟨0, k, ?_, by omega, .inl rfl, ?_⟩
    · rw [Nat.zero_mul, Nat.zero_add]
    · rw [magnitude, if_pos hk, pow_zero, Nat.mul_one]
  · have hmod := Nat.mod_lt k hpos
    have hdiv : 1 ≤ k/2^p := Nat.div_pos (by omega) hpos
    refine ⟨k/2^p-1, 2^p+k%2^p, ?_, by omega, .inr (by omega), ?_⟩
    · rw [← Nat.add_assoc, ← Nat.succ_mul, Nat.succ_eq_add_one, Nat.sub_add_cancel hdiv,
        Nat.mul_comm, Nat.div_add_mod]
    · rw [magnitude, if_neg hk]

theorem magnitude_strictMono (p : ℕ) : StrictMono (magnitude p) := by
  apply strictMono_nat_of_lt_succ
  intro k
  obtain ⟨s, m, rfl, hm, hs, hmag⟩ := exists_significand p k
  have hnext : magnitude p (s*2^p+m+1) = (m+1)*2^s :=
    magnitude_add (m := m+1) (by omega) (hs.imp_right fun h => by omega)
  rw [hmag, hnext]
  exact Nat.mul_lt_mul_of_pos_right m.lt_succ_self (Nat.two_pow_pos s)

theorem exists_magnitude (hm : m < 2^(p+1)) : ∃ k, magnitude p k = m*2^s := by
  induction s generalizing m with
  | zero => exact ⟨_, magnitude_add hm.le (.inl rfl)⟩
  | succ s ih =>
    by_cases hlow : m < 2^p
    · obtain ⟨k, hk⟩ := ih (m := 2*m) (by rw [pow_succ]; omega)
      refine ⟨k, hk.trans ?_⟩
      rw [pow_succ]
      ring
    · exact ⟨_, magnitude_add hm.le (.inr (Nat.not_lt.mp hlow))⟩

end

section
variable {a b : ℕ}

theorem roundEven_le {hi : ℕ} (hb : 0 < b) (h : a ≤ hi*b) : roundEven a b ≤ hi := by
  have hle : a/b ≤ hi := Nat.div_le_of_le_mul (by rw [Nat.mul_comm]; exact h)
  simp only [roundEven]
  split
  swap
  · exact hle
  next hup =>
  refine Nat.lt_of_le_of_ne hle ?_
  intro heq
  have hdm := Nat.div_add_mod a b
  rw [heq, Nat.mul_comm] at hdm
  omega

theorem le_roundEven {lo : ℕ} (hb : 0 < b) (h : lo*b ≤ a) : lo ≤ roundEven a b := by
  have hle : lo ≤ a/b := (Nat.le_div_iff_mul_le hb).mpr h
  simp only [roundEven]
  split <;> omega

theorem gap_eq (a b v : ℕ) : gap a b v = (a-b*v) + (b*v-a) := by
  unfold gap
  rw [← Int.natCast_mul]
  omega

/-- Rounding is to the nearest integer, to the even one of two. -/
theorem roundEven_gap (hb : 0 < b) (j : ℕ) : gap a b (roundEven a b) ≤ gap a b j ∧
    (gap a b j = gap a b (roundEven a b) → j = roundEven a b ∨ roundEven a b % 2 = 0) := by
  obtain ⟨d, r, hd, hr, ha, hlt⟩ : ∃ d r, a/b = d ∧ a%b = r ∧ a = b*d+r ∧ r < b :=
    ⟨_, _, rfl, rfl, (Nat.div_add_mod a b).symm, Nat.mod_lt a hb⟩
  have hsucc : b*(d+1) = b*d+b := Nat.mul_succ b d
  have hdown : gap a b d = r := by
    rw [gap_eq]
    omega
  have hup : gap a b (d+1) = b-r := by
    rw [gap_eq]
    omega
  -- every other integer is further away than these two
  have hj : j = d ∨ j = d+1 ∨ (r < gap a b j ∧ (0 < r → b-r < gap a b j)) := by
    rcases Nat.lt_trichotomy j d with h | h | h
    · have := Nat.mul_le_mul_left b h
      rw [Nat.mul_succ] at this
      rw [gap_eq]
      omega
    · exact .inl h
    · rcases Nat.eq_or_lt_of_le (Nat.succ_le_of_lt h) with h | h
      · exact .inr (.inl h.symm)
      · have := Nat.mul_le_mul_left b h
        rw [Nat.mul_succ, Nat.mul_succ] at this
        rw [gap_eq]
        omega
  simp only [roundEven, hd, hr]
  split
  · rw [hup]
    rcases hj with rfl | rfl | hj <;> omega
  · rw [hdown]
    rcases hj with rfl | rfl | hj <;> omega

end

section
variable {p a b : ℕ}

/-- Rounding to a magnitude is rounding to an integer number of its units in the last place. -/
theorem nearest_spec (p : ℕ) (hb : 0 < b) : ∃ s m, nearest p a b = s*2^p+m ∧
    m = roundEven a (b*2^s) ∧ m ≤ 2^(p+1) ∧ (s = 0 ∨ (2^p ≤ m ∧ 2^p*(b*2^s) ≤ a)) := by
  refine ⟨_, _, rfl, rfl, ?_, ?_⟩
  · apply roundEven_le (Nat.mul_pos hb (Nat.two_pow_pos _))
    have hlt : a < b*2^(Nat.log2 (a/b)+1) := by
      rw [Nat.mul_comm]
      exact (Nat.div_lt_iff_lt_mul hb).mp Nat.lt_log2_self
    have hpow : 2^(Nat.log2 (a/b)+1) ≤ 2^(p+1+(Nat.log2 (a/b)-p)) :=
      Nat.pow_le_pow_right (by decide) (by omega)
    calc a ≤ b*2^(p+1+(Nat.log2 (a/b)-p)) := hlt.le.trans (Nat.mul_le_mul_left b hpow)
      _ = 2^(p+1)*(b*2^(Nat.log2 (a/b)-p)) := by ring
  · by_cases hs : Nat.log2 (a/b) ≤ p
    · exact .inl (Nat.sub_eq_zero_of_le hs)
    have hne : a/b ≠ 0 := by
      intro h0
      rw [h0] at hs
      exact hs (Nat.zero_le p)
    have hle : 2^(Nat.log2 (a/b))*b ≤ a := (Nat.le_div_iff_mul_le hb).mp (Nat.log2_self_le hne)
    have hge : 2^p*(b*2^(Nat.log2 (a/b)-p)) ≤ a := by
      calc 2^p*(b*2^(Nat.log2 (a/b)-p)) = 2^(p+(Nat.log2 (a/b)-p))*b := by ring
        _ = 2^(Nat.log2 (a/b))*b := by rw [Nat.add_sub_cancel' (by omega)]
        _ ≤ a := hle
    exact .inr ⟨le_roundEven (Nat.mul_pos hb (Nat.two_pow_pos _)) hge, hge⟩

theorem gap_mul (a b v s : ℕ) : gap a b (v*2^s) = gap a (b*2^s) v := by
  rw [gap_eq, gap_eq, Nat.mul_assoc, Nat.mul_comm v]

theorem nearest_nearest (hp : 0 < p) (hb : 0 < b) : Nearest p a b (nearest p a b) := by
  obtain ⟨s, m, hr, hm, hle, hs⟩ := nearest_spec (a := a) p hb
  have hmag : magnitude p (nearest p a b) = m*2^s := hr ▸ magnitude_add hle (hs.imp_right And.left)
  have hround := roundEven_gap (a := a) (Nat.mul_pos hb (Nat.two_pow_pos s))
  rw [← hm] at hround
  have hparity : nearest p a b % 2 = m % 2 := by
    obtain ⟨q, rfl⟩ := Nat.exists_eq_succ_of_ne_zero hp.ne'
    have hdouble : s*2^(q+1) = 2*(s*2^q) := by ring
    rw [hr, Nat.succ_eq_add_one, hdouble]
    omega
  have hkey (k : ℕ) : (∃ j, magnitude p k = j*2^s) ∨
      gap a b (m*2^s) < gap a b (magnitude p k) := by
    obtain ⟨s', m', -, hm', -, hk⟩ := exists_significand p k
    by_cases hss : s ≤ s'
    · refine .inl ⟨m'*2^(s'-s), ?_⟩
      rw [hk, Nat.mul_assoc, ← pow_add, Nat.sub_add_cancel hss]
    -- magnitudes of a smaller exponent lie below `2^p` units, and these below `a/b`
    obtain ⟨-, hge⟩ := hs.resolve_left (by omega)
    have hlow : magnitude p k < 2^p*2^s := by
      calc magnitude p k = m'*2^s' := hk
        _ < 2^(p+1)*2^s' := Nat.mul_lt_mul_of_pos_right hm' (Nat.two_pow_pos s')
        _ = 2^p*2^(s'+1) := by ring
        _ ≤ 2^p*2^s := Nat.mul_le_mul_left _ (Nat.pow_le_pow_right (by decide) (by omega))
    have hfar : b*magnitude p k < b*(2^p*2^s) := Nat.mul_lt_mul_of_pos_left hlow hb
    have hge' : b*(2^p*2^s) ≤ a := (by ring : b*(2^p*2^s) = 2^p*(b*2^s)) ▸ hge
    have hnear := (hround (2^p)).1
    rw [← gap_mul, ← gap_mul] at hnear
    refine .inr (hnear.trans_lt ?_)
    rw [gap_eq, gap_eq]
    omega
  constructor
  · intro k
    rw [hmag]
    obtain ⟨j, hj⟩ | hlt := hkey k
    · rw [hj, gap_mul, gap_mul]
      exact (hround j).1
    · exact hlt.le
  · intro k heq
    rw [hmag] at heq
    obtain ⟨j, hj⟩ | hlt := hkey k
    · rw [hj, gap_mul, gap_mul] at heq
      refine ((hround j).2 heq).imp ?_ hparity.trans
      intro hjm
      apply (magnitude_strictMono p).injective
      rw [hj, hmag, hjm]
    · exact absurd heq.symm hlt.ne

theorem nearest_eq (hp : 0 < p) (hb : 0 < b) {k : ℕ} (h : a = b*magnitude p k) :
    nearest p a b = k := by
  have hle := (nearest_nearest (a := a) hp hb).least k
  have hself : gap a b (magnitude p k) = 0 := by
    rw [gap_eq, ← h, Nat.sub_self]
  rw [hself, Nat.le_zero, gap_eq] at hle
  have hmul : b*magnitude p (nearest p a b) = b*magnitude p k := by omega
  exact (magnitude_strictMono p).injective (Nat.eq_of_mul_eq_mul_left hb hmul)

end

/-- The widths of the two fields below the sign. -/
structure Format where
  frac : ℕ
  expo : ℕ
  deriving DecidableEq, Repr

def binary32 : Format := ⟨23, 8⟩
def binary64 : Format := ⟨52, 11⟩

namespace Format

/-- The number of the infinity; the numbers above it are not numbers. -/
def inf (F : Format) : ℕ := (2^F.expo-1) * 2^F.frac

/-- One is `2^scale` units. -/
def scale (F : Format) : ℕ := F.frac + 2^(F.expo-1) - 2

/-- The top fraction bit tells the quiet NaNs. -/
def quiet (F : Format) : ℕ := 2^(F.frac-1)

/-- The number in the format `D` of what has the number `k` in the format `S`. A NaN keeps as
much of its fraction as there is room for, and becomes quiet. -/
def convert (S D : Format) (k : ℕ) : ℕ :=
  if k < S.inf then
    min (nearest D.frac (magnitude S.frac k * 2^(D.scale-S.scale)) (2^(S.scale-D.scale))) D.inf
  else if k = S.inf then D.inf
  else D.inf + (D.quiet ||| ((k-S.inf) <<< (D.frac-S.frac)) >>> (S.frac-D.frac))

/-- Both fields of `D` have room for those of `S`. -/
structure Le (S D : Format) : Prop where
  frac : S.frac ≤ D.frac
  expo : S.expo ≤ D.expo
  frac_pos : 0 < S.frac
  expo_two : 2 ≤ S.expo

theorem two_pow_expo {F : Format} (h : 2 ≤ F.expo) :
    2^F.expo = 2*2^(F.expo-1) ∧ 2 ≤ 2^(F.expo-1) := by
  constructor
  · rw [← pow_succ', Nat.sub_add_cancel (by omega)]
  · exact Nat.pow_le_pow_right (by decide : 0 < 2) (by omega : 1 ≤ F.expo-1)

theorem magnitude_inf {F : Format} (h : 2 ≤ F.expo) :
    magnitude F.frac F.inf = 2^(F.frac+(2^F.expo-2)) := by
  obtain ⟨hexpo, htwo⟩ := two_pow_expo h
  have hinf : F.inf = (2^F.expo-2)*2^F.frac + 2^F.frac := by
    rw [← Nat.succ_mul, inf]
    congr 1
    omega
  have hle : 2^F.frac ≤ 2^(F.frac+1) := Nat.pow_le_pow_right (by decide) F.frac.le_succ
  rw [hinf, magnitude_add hle (.inr le_rfl), pow_add]

theorem inf_add {F : Format} : F.inf + 2^F.frac = 2^(F.expo+F.frac) := by
  rw [inf, ← Nat.succ_mul, pow_add, Nat.succ_eq_add_one, Nat.sub_add_cancel (Nat.one_le_two_pow)]

/-- A conversion fits the fields of its format. -/
theorem convert_lt {S D : Format} (hD : 0 < D.frac) {k : ℕ} (hk : k < 2^(S.expo+S.frac)) :
    S.convert D k < 2^(D.expo+D.frac) := by
  have hpos := Nat.two_pow_pos D.frac
  rw [← inf_add] at hk ⊢
  unfold convert
  split
  · exact (Nat.min_le_right _ _).trans_lt (Nat.lt_add_of_pos_right hpos)
  split
  · omega
  apply Nat.add_lt_add_left
  apply Nat.or_lt_two_pow
  · exact Nat.pow_lt_pow_right (by decide) (by omega)
  · rw [Nat.shiftRight_eq_div_pow, Nat.shiftLeft_eq, Nat.div_lt_iff_lt_mul (Nat.two_pow_pos _),
      ← pow_add]
    calc (k-S.inf) * 2^(D.frac-S.frac)
        < 2^S.frac * 2^(D.frac-S.frac) :=
          Nat.mul_lt_mul_of_pos_right (by omega) (Nat.two_pow_pos _)
      _ = 2^(D.frac+(S.frac-D.frac)) := by
          rw [← pow_add]
          congr 1
          omega

section
variable {S D : Format} (h : S.Le D) {k : ℕ}
include h

theorem Le.scale_le : S.scale ≤ D.scale := by
  have hpow := Nat.pow_le_pow_right (n := 2) (by decide) (Nat.sub_le_sub_right h.expo 1)
  have hfrac := h.frac
  unfold scale
  omega

/-- Every finite number of the smaller format is one of the larger. -/
theorem Le.convert_finite (hk : k < S.inf) : S.convert D k < D.inf ∧
    magnitude D.frac (S.convert D k) = magnitude S.frac k * 2^(D.scale-S.scale) := by
  obtain ⟨s, m, -, hm, -, hmag⟩ := exists_significand S.frac k
  have hfit : m < 2^(D.frac+1) :=
    hm.trans_le (Nat.pow_le_pow_right (by decide) (Nat.succ_le_succ h.frac))
  obtain ⟨j, hj⟩ : ∃ j, magnitude D.frac j = magnitude S.frac k * 2^(D.scale-S.scale) := by
    obtain ⟨j, hj⟩ := exists_magnitude (s := s+(D.scale-S.scale)) hfit
    refine ⟨j, hj.trans ?_⟩
    rw [hmag, pow_add, Nat.mul_assoc]
  have hlt : j < D.inf := by
    obtain ⟨hS, hS2⟩ := two_pow_expo h.expo_two
    obtain ⟨hD, hD2⟩ := two_pow_expo (h.expo_two.trans h.expo)
    have hpow := Nat.pow_le_pow_right (n := 2) (by decide) (Nat.sub_le_sub_right h.expo 1)
    have hfrac := h.frac
    -- the largest magnitudes, in units of the smaller format
    have hexp : S.frac+(2^S.expo-2)+(D.scale-S.scale) ≤ D.frac+(2^D.expo-2) := by
      unfold scale
      omega
    rw [← (magnitude_strictMono D.frac).lt_iff_lt, hj, magnitude_inf (h.expo_two.trans h.expo)]
    calc magnitude S.frac k * 2^(D.scale-S.scale)
        < 2^(S.frac+(2^S.expo-2)) * 2^(D.scale-S.scale) := by
          rw [← magnitude_inf h.expo_two]
          exact Nat.mul_lt_mul_of_pos_right (magnitude_strictMono _ hk) (Nat.two_pow_pos _)
      _ = 2^(S.frac+(2^S.expo-2)+(D.scale-S.scale)) := (pow_add _ _ _).symm
      _ ≤ 2^(D.frac+(2^D.expo-2)) := Nat.pow_le_pow_right (by decide) hexp
  have hconv : S.convert D k = j := by
    have hpos : 0 < D.frac := h.frac_pos.trans_le h.frac
    rw [convert, if_pos hk, ← hj, Nat.sub_eq_zero_of_le h.scale_le, pow_zero,
      nearest_eq hpos Nat.one_pos (Nat.one_mul _).symm, Nat.min_eq_left hlt.le]
  rw [hconv]
  exact ⟨hlt, hj⟩

/-- To a larger format and back: only a NaN that is not quiet changes. -/
theorem Le.convert_convert (k : ℕ) : D.convert S (S.convert D k) =
    if S.inf < k then S.inf + (S.quiet ||| (k-S.inf)) else k := by
  -- a finite number, infinity, a NaN
  rcases Nat.lt_trichotomy k S.inf with hk | rfl | hk
  · obtain ⟨hlt, hmag⟩ := h.convert_finite hk
    have hround : nearest S.frac (magnitude S.frac k * 2^(D.scale-S.scale)) (2^(D.scale-S.scale))
        = k := nearest_eq h.frac_pos (Nat.two_pow_pos _) (Nat.mul_comm _ _)
    rw [if_neg hk.not_gt, convert, if_pos hlt, hmag, Nat.sub_eq_zero_of_le h.scale_le, pow_zero,
      Nat.mul_one, hround, Nat.min_eq_left hk.le]
  · have hinf : S.convert D S.inf = D.inf := by
      rw [convert, if_neg (Nat.lt_irrefl _), if_pos rfl]
    rw [hinf, if_neg (Nat.lt_irrefl _), convert, if_neg (Nat.lt_irrefl _), if_pos rfl]
  · have hquiet : D.quiet >>> (D.frac-S.frac) = S.quiet := by
      have hfrac := h.frac
      have hpos := h.frac_pos
      rw [quiet, quiet, Nat.shiftRight_eq_div_pow, Nat.pow_div (by omega) (by decide)]
      congr 1
      omega
    have hnan : S.convert D k = D.inf + (D.quiet ||| (k-S.inf) <<< (D.frac-S.frac)) := by
      rw [convert, if_neg hk.not_gt, if_neg hk.ne', Nat.sub_eq_zero_of_le h.frac,
        Nat.shiftRight_zero]
    have hpos : 0 < D.quiet ||| (k-S.inf) <<< (D.frac-S.frac) :=
      (Nat.two_pow_pos _).trans_le Nat.left_le_or
    rw [hnan, if_pos hk, convert, if_neg (by omega), if_neg (by omega), Nat.add_sub_cancel_left,
      Nat.sub_eq_zero_of_le h.frac, Nat.shiftLeft_zero, Nat.shiftRight_or_distrib, hquiet,
      Nat.shiftLeft_shiftRight, ← Nat.or_assoc, Nat.or_self]

end

end Format

end BinFloat
end Couv
