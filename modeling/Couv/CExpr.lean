import Mathlib.Data.Int.Init
import Mathlib.Data.BitVec

/-! C integer expressions: the usual conversions, what an expression evaluates to on a machine
with two's complement, and the numbers that its operations stand for. -/
namespace Couv

/-- int and unsigned of 32 bits, long and unsigned long of 64 bits. -/
inductive CType
  | int | uint | long | ulong
  deriving DecidableEq, Repr

namespace CType

@[reducible] def width : CType → ℕ
  | int | uint => 32
  | long | ulong => 64

def signed : CType → Bool
  | int | long => true
  | uint | ulong => false

/-- The type in which two operands meet. -/
@[reducible] def usual : CType → CType → CType
  | ulong, _ | _, ulong => ulong
  | long, _ | _, long => long
  | uint, _ | _, uint => uint
  | int, int => int

/-- The number of a value. -/
def num (t : CType) (x : BitVec t.width) : ℤ := if t.signed then x.toInt else x.toNat

/-- The numbers of the type. -/
def Fits (t : CType) (n : ℤ) : Prop :=
  if t.signed then -2^(t.width-1) ≤ n ∧ n < 2^(t.width-1) else 0 ≤ n ∧ n < 2^t.width

instance (t : CType) (n : ℤ) : Decidable (t.Fits n) :=
  inferInstanceAs (Decidable (if t.signed then _ else _))

/-- The conversion of a value; a number that does not fit is reduced. -/
def conv (s t : CType) (x : BitVec s.width) : BitVec t.width := .ofInt t.width (s.num x)

theorem fits_num (t : CType) (x : BitVec t.width) : t.Fits (t.num x) := by
  unfold Fits num
  split
  · exact ⟨x.le_toInt, x.toInt_lt⟩
  · exact ⟨Int.natCast_nonneg _, by exact_mod_cast x.isLt⟩

theorem num_ofInt {t : CType} {n : ℤ} (h : t.Fits n) : t.num (.ofInt t.width n) = n := by
  unfold Fits at h
  unfold num
  split at h
  · next hs =>
    rw [if_pos hs, BitVec.toInt_ofInt]
    cases t with
    | int | long =>
      simp only [width] at h ⊢
      rw [Int.bmod_eq_of_le] <;> omega
    | uint | ulong => cases hs
  · next hs =>
    have hw : ((2^t.width : ℕ) : ℤ) = 2^t.width := by push_cast; rfl
    rw [if_neg hs, BitVec.toNat_ofInt, hw, Int.emod_eq_of_lt h.1 h.2,
      Int.toNat_of_nonneg h.1]

/-- A number that fits is converted unchanged. -/
theorem num_conv {s t : CType} {x : BitVec s.width} (h : t.Fits (s.num x)) :
    t.num (s.conv t x) = s.num x := num_ofInt h

theorem conv_conv {s t : CType} (u : CType) {x : BitVec s.width} (h : t.Fits (s.num x)) :
    t.conv u (s.conv t x) = s.conv u x := congrArg _ (num_conv h)

theorem ofInt_num (t : CType) (x : BitVec t.width) : BitVec.ofInt t.width (t.num x) = x := by
  unfold num
  split
  · exact BitVec.ofInt_toInt
  · apply BitVec.eq_of_toNat_eq
    simp

@[simp] theorem conv_self (t : CType) (x : BitVec t.width) : t.conv t x = x := t.ofInt_num x

theorem conv_int_uint (x : BitVec 32) : conv int uint x = x := int.ofInt_num x

theorem conv_uint_int (x : BitVec 32) : conv uint int x = x := uint.ofInt_num x

theorem conv_long_int (x : BitVec 64) : conv long int x = x.setWidth 32 :=
  x.signExtend_eq_setWidth_of_le (by decide)

theorem conv_long_uint (x : BitVec 64) : conv long uint x = x.setWidth 32 :=
  x.signExtend_eq_setWidth_of_le (by decide)

/-! An operation whose number fits evaluates to it. -/

variable {t : CType} {x y : BitVec t.width}

theorem num_add (h : t.Fits (t.num x + t.num y)) : t.num (x+y) = t.num x + t.num y := by
  rw [← num_ofInt h, BitVec.ofInt_add, ofInt_num, ofInt_num]

theorem num_sub (h : t.Fits (t.num x - t.num y)) : t.num (x-y) = t.num x - t.num y := by
  have hsub : x - y = .ofInt t.width (t.num x - t.num y) := by
    rw [Int.sub_eq_add_neg, BitVec.ofInt_add, BitVec.ofInt_neg, ofInt_num, ofInt_num,
      BitVec.sub_eq_add_neg]
  rw [hsub, num_ofInt h]

end CType

inductive COp
  | add | sub | or | and
  deriving DecidableEq, Repr

inductive CRel
  | lt | ge
  deriving DecidableEq, Repr

/-- An expression, with its type. `cond` is `r(a, b) ? x : y`. -/
inductive CExpr : CType → Type
  | val (t : CType) (x : BitVec t.width) : CExpr t
  | cast {s : CType} (t : CType) (e : CExpr s) : CExpr t
  | neg {t : CType} (e : CExpr t) : CExpr t
  | op {s t : CType} (o : COp) (a : CExpr s) (b : CExpr t) : CExpr (s.usual t)
  | shl {t : CType} (e : CExpr t) (k : ℕ) : CExpr t
  | shr {t : CType} (e : CExpr t) (k : ℕ) : CExpr t
  | cond {s t u v : CType} (r : CRel) (a : CExpr s) (b : CExpr t) (x : CExpr u) (y : CExpr v) :
    CExpr (u.usual v)

def COp.apply {w : ℕ} : COp → BitVec w → BitVec w → BitVec w
  | add, x, y => x+y
  | sub, x, y => x-y
  | or, x, y => x ||| y
  | and, x, y => x &&& y

/-- The number that the operation stands for. -/
def COp.exact (t : CType) (o : COp) (x y : BitVec t.width) : ℤ :=
  match o with
  | add => t.num x + t.num y
  | sub => t.num x - t.num y
  | or | and => t.num (o.apply x y)

def CRel.Holds (r : CRel) (m n : ℤ) : Prop :=
  match r with
  | lt => m < n
  | ge => m ≥ n

instance (r : CRel) (m n : ℤ) : Decidable (r.Holds m n) :=
  match r with
  | .lt => inferInstanceAs (Decidable (m < n))
  | .ge => inferInstanceAs (Decidable (m ≥ n))

namespace CExpr

/-- The value, modulo the width of the type. -/
def eval {t : CType} : CExpr t → BitVec t.width
  | val _ x => x
  | @cast s t e => s.conv t e.eval
  | neg e => -e.eval
  | @op s t o a b => o.apply (s.conv (s.usual t) a.eval) (t.conv (s.usual t) b.eval)
  | shl e k => e.eval <<< k
  | @shr t e k => if t.signed then e.eval.sshiftRight k else e.eval >>> k
  | @cond s t u v r a b x y =>
    if r.Holds ((s.usual t).num (s.conv (s.usual t) a.eval))
        ((s.usual t).num (t.conv (s.usual t) b.eval)) then u.conv (u.usual v) x.eval
    else v.conv (u.usual v) y.eval

/-- The numbers that the operations of the expression stand for, each with its type; of the
branches of a condition only the one that is taken. -/
def evaluated {t : CType} : CExpr t → List (CType × ℤ)
  | val _ _ => []
  | cast _ e => e.evaluated
  | @neg t e => (t, -t.num e.eval) :: e.evaluated
  | @op s t o a b =>
    (s.usual t, o.exact (s.usual t) (s.conv (s.usual t) a.eval) (t.conv (s.usual t) b.eval)) ::
      (a.evaluated ++ b.evaluated)
  | @shl t e k => (t, t.num e.eval * 2^k) :: e.evaluated
  | @shr t e k => (t, t.num e.eval / 2^k) :: e.evaluated
  | @cond s t _ _ r a b x y => a.evaluated ++ b.evaluated ++
    if r.Holds ((s.usual t).num (s.conv (s.usual t) a.eval))
        ((s.usual t).num (t.conv (s.usual t) b.eval)) then x.evaluated
    else y.evaluated

/-- No operation of a signed type overflows. -/
def InRange {t : CType} (e : CExpr t) : Prop :=
  ∀ x ∈ e.evaluated, x.1.signed = true → x.1.Fits x.2

instance {t : CType} (e : CExpr t) : Decidable e.InRange :=
  inferInstanceAs (Decidable (∀ x ∈ e.evaluated, _))

section
variable {s t u v : CType}

/-! The operators of C. -/

instance : Neg (CExpr t) := ⟨neg⟩
instance : HAdd (CExpr s) (CExpr t) (CExpr (s.usual t)) := ⟨op .add⟩
instance : HSub (CExpr s) (CExpr t) (CExpr (s.usual t)) := ⟨op .sub⟩
instance : HOr (CExpr s) (CExpr t) (CExpr (s.usual t)) := ⟨op .or⟩
instance : HAnd (CExpr s) (CExpr t) (CExpr (s.usual t)) := ⟨op .and⟩
instance : HShiftLeft (CExpr t) ℕ (CExpr t) := ⟨shl⟩
instance : HShiftRight (CExpr t) ℕ (CExpr t) := ⟨shr⟩

theorem shl_eval (e : CExpr t) (k : ℕ) : (e <<< k).eval = e.eval <<< k := rfl

theorem inRange_val (x : BitVec t.width) : (val t x).InRange := fun _ h => nomatch h

theorem inRange_cast (e : CExpr s) : (cast t e).InRange ↔ e.InRange := Iff.rfl

theorem inRange_neg (e : CExpr t) :
    (-e).InRange ↔ (t.signed = true → t.Fits (-t.num e.eval)) ∧ e.InRange :=
  List.forall_mem_cons

theorem inRange_shl (e : CExpr t) (k : ℕ) :
    (e <<< k).InRange ↔ (t.signed = true → t.Fits (t.num e.eval * 2^k)) ∧ e.InRange :=
  List.forall_mem_cons

theorem inRange_shr (e : CExpr t) (k : ℕ) :
    (e >>> k).InRange ↔ (t.signed = true → t.Fits (t.num e.eval / 2^k)) ∧ e.InRange :=
  List.forall_mem_cons

theorem inRange_op (o : COp) (a : CExpr s) (b : CExpr t) : (op o a b).InRange ↔
    ((s.usual t).signed = true → (s.usual t).Fits (o.exact (s.usual t)
      (s.conv (s.usual t) a.eval) (t.conv (s.usual t) b.eval))) ∧ a.InRange ∧ b.InRange := by
  unfold InRange
  rw [evaluated, List.forall_mem_cons, List.forall_mem_append]

theorem inRange_or (a : CExpr s) (b : CExpr t) : (a ||| b).InRange ↔ a.InRange ∧ b.InRange :=
  (inRange_op .or a b).trans (and_iff_right fun _ => (s.usual t).fits_num _)

theorem inRange_and (a : CExpr s) (b : CExpr t) : (a &&& b).InRange ↔ a.InRange ∧ b.InRange :=
  (inRange_op .and a b).trans (and_iff_right fun _ => (s.usual t).fits_num _)

theorem inRange_cond (r : CRel) (a : CExpr s) (b : CExpr t) (x : CExpr u) (y : CExpr v) :
    (cond r a b x y).InRange ↔ a.InRange ∧ b.InRange ∧
      if r.Holds ((s.usual t).num (s.conv (s.usual t) a.eval))
          ((s.usual t).num (t.conv (s.usual t) b.eval)) then x.InRange
      else y.InRange := by
  unfold InRange
  rw [evaluated, List.forall_mem_append, List.forall_mem_append, and_assoc]
  split <;> rfl

end

/-! Operands that are both int. -/

variable (a b : CExpr .int)

theorem addInt_eval : (a+b).eval = a.eval + b.eval := by
  change CType.conv .int .int a.eval + CType.conv .int .int b.eval = _
  rw [CType.conv_self, CType.conv_self]

theorem subInt_eval : (a-b).eval = a.eval - b.eval := by
  change CType.conv .int .int a.eval - CType.conv .int .int b.eval = _
  rw [CType.conv_self, CType.conv_self]

theorem orInt_eval : (a ||| b).eval = a.eval ||| b.eval := by
  change CType.conv .int .int a.eval ||| CType.conv .int .int b.eval = _
  rw [CType.conv_self, CType.conv_self]

theorem inRange_addInt : (a+b).InRange ↔
    CType.int.Fits (CType.int.num a.eval + CType.int.num b.eval) ∧ a.InRange ∧ b.InRange := by
  refine (inRange_op .add a b).trans (and_congr_left' ?_)
  change (true = true → CType.int.Fits (CType.int.num (CType.conv .int .int a.eval) +
    CType.int.num (CType.conv .int .int b.eval))) ↔ _
  rw [CType.conv_self, CType.conv_self]
  exact forall_prop_of_true rfl

theorem inRange_subInt : (a-b).InRange ↔
    CType.int.Fits (CType.int.num a.eval - CType.int.num b.eval) ∧ a.InRange ∧ b.InRange := by
  refine (inRange_op .sub a b).trans (and_congr_left' ?_)
  change (true = true → CType.int.Fits (CType.int.num (CType.conv .int .int a.eval) -
    CType.int.num (CType.conv .int .int b.eval))) ↔ _
  rw [CType.conv_self, CType.conv_self]
  exact forall_prop_of_true rfl

theorem inRange_negInt : (-a).InRange ↔ CType.int.Fits (-CType.int.num a.eval) ∧ a.InRange :=
  (inRange_neg a).trans (and_congr_left' (forall_prop_of_true rfl))

theorem inRange_shlInt (k : ℕ) :
    (a <<< k).InRange ↔ CType.int.Fits (CType.int.num a.eval * 2^k) ∧ a.InRange :=
  (inRange_shl a k).trans (and_congr_left' (forall_prop_of_true rfl))

end CExpr

end Couv
