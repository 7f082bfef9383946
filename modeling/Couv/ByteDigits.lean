import Mathlib.Data.Int.ModEq
import Mathlib.Data.Nat.ModEq

/-! Numbers stored in a fixed count of bytes, the least significant one first, and the two
readings of such a number. -/
namespace Couv

/-- The `w` low base-256 digits of `n`. -/
def digitsLe : ℕ → ℕ → List UInt8
  | 0, _ => []
  | w+1, n => UInt8.ofNat n :: digitsLe w (n/256)

/-- The number that the digits denote. -/
def valueLe : List UInt8 → ℕ
  | [] => 0
  | b :: bs => b.toNat + 256 * valueLe bs

/-- A number of `w` bytes whose top bit is the sign. -/
def twosComplement (w n : ℕ) : ℤ := if 2*n < 2^(8*w) then n else n - 2^(8*w)

theorem two_pow_bytes (w : ℕ) : 2^(8*(w+1)) = 256 * 2^(8*w) := by
  rw [Nat.mul_succ, pow_add, Nat.mul_comm]
  rfl

theorem digitsLe_length (w : ℕ) : ∀ n, (digitsLe w n).length = w := by
  induction w with
  | zero => exact fun _ => rfl
  | succ w ih => exact fun n => congrArg (·+1) (ih (n/256))

theorem valueLe_lt (bs : List UInt8) : valueLe bs < 2^(8*bs.length) := by
  induction bs with
  | nil => exact Nat.one_pos
  | cons b bs ih =>
    have hb : b.toNat < 256 := b.toNat_lt
    rw [valueLe, List.length_cons, two_pow_bytes]
    omega

theorem valueLe_digitsLe (w : ℕ) : ∀ n, valueLe (digitsLe w n) = n % 2^(8*w) := by
  induction w with
  | zero => exact fun n => (Nat.mod_one n).symm
  | succ w ih =>
    intro n
    rw [digitsLe, valueLe, ih, two_pow_bytes, Nat.mod_mul]
    rfl

theorem digitsLe_valueLe (bs : List UInt8) : digitsLe bs.length (valueLe bs) = bs := by
  induction bs with
  | nil => rfl
  | cons b bs ih =>
    have hb : b.toNat < 256 := b.toNat_lt
    have hhead : UInt8.ofNat (b.toNat + 256 * valueLe bs) = b := by
      apply UInt8.toNat_inj.mp
      rw [UInt8.toNat_ofNat']
      omega
    have htail : (b.toNat + 256 * valueLe bs) / 256 = valueLe bs := by omega
    rw [List.length_cons, valueLe, digitsLe, hhead, htail, ih]

/-- Only the low digits count. -/
theorem digitsLe_mod (w n : ℕ) : digitsLe w (n % 2^(8*w)) = digitsLe w n := by
  have h := digitsLe_valueLe (digitsLe w n)
  rwa [digitsLe_length, valueLe_digitsLe] at h

theorem twosComplement_modEq (w n : ℕ) : twosComplement w n ≡ n [ZMOD 2^(8*w)] := by
  unfold twosComplement
  split
  · exact .refl _
  · exact Int.sub_emod_right _ _

theorem twosComplement_range {w n : ℕ} (hw : 0 < w) (h : n < 2^(8*w)) :
    -2^(8*w-1) ≤ twosComplement w n ∧ twosComplement w n < 2^(8*w-1) := by
  have hpow : 2^(8*w) = 2 * 2^(8*w-1) := by
    rw [← pow_succ', Nat.sub_add_cancel (by omega)]
  have hz : (2 : ℤ)^(8*w-1) = (2^(8*w-1) : ℕ) := by push_cast; rfl
  have hz' : (2 : ℤ)^(8*w) = (2^(8*w) : ℕ) := by push_cast; rfl
  unfold twosComplement
  rw [hz, hz']
  split <;> omega

/-- Two numbers of an interval as long as the modulus are equal when they are congruent. -/
theorem eq_of_modEq {M a b : ℤ} (lo : ℤ) (ha : lo ≤ a ∧ a < lo+M) (hb : lo ≤ b ∧ b < lo+M)
    (h : a ≡ b [ZMOD M]) : a = b := by
  have hshift : (a-lo) % M = (b-lo) % M := h.sub_right lo
  rw [Int.emod_eq_of_lt (by omega) (by omega), Int.emod_eq_of_lt (by omega) (by omega)] at hshift
  omega

end Couv
