import Couv.CExpr
import Couv.IntMethods

/-! The C expressions of the integer readers and writers, and the one whose int overflows. -/
namespace Couv

def intExpr (x : BitVec 32) : CExpr .int := .val .int x
def unsignedExpr (x : BitVec 32) : CExpr .uint := .val .uint x
def longExpr (x : BitVec 64) : CExpr .long := .val .long x
def sizeTExpr (x : BitVec 64) : CExpr .ulong := .val .ulong x

/-- `p[i]`, which is an int in every expression -/
def ucharAt (bs : List UInt8) (i : ℕ) : CExpr .int := intExpr (byteAt bs i)

/-- `p[i] << 24 | p[j] << 16 | p[k] << 8 | p[l]` -/
def wordExpr (bs : List UInt8) (i j k l : ℕ) : CExpr .int :=
  ucharAt bs i <<< 24 ||| ucharAt bs j <<< 16 ||| ucharAt bs k <<< 8 ||| ucharAt bs l

/-- The same byte as a `char`. -/
def charAt (bs : List UInt8) (i : ℕ) : CExpr .int := intExpr ((bs.getD i 0).toBitVec.signExtend 32)

abbrev SomeExpr := Σ t, CExpr t

/-- The number that lua_pushnumber gets. -/
def SomeExpr.num (e : SomeExpr) : ℤ := e.1.num e.2.eval

/-- The byte that is stored. -/
def SomeExpr.uchar (e : SomeExpr) : UInt8 := UInt8.ofBitVec (e.2.eval.setWidth 8)

/-- What a method evaluates in its declarations, in assignments after the check of the index,
and last to push or to store. -/
structure MethodExprs where
  declared : List SomeExpr
  assigned : List SomeExpr
  results : List SomeExpr

/-- `value >= 0x8000 ? -(0xFFFF - value + 1) : value`, which the source writes as an if -/
def foldSign16Expr (value : BitVec 32) : CExpr .int :=
  .cond .ge (intExpr value) (intExpr 0x8000#32)
    (-(intExpr 0xFFFF#32 - intExpr value + intExpr 1#32)) (intExpr value)

/-- `value >= 0x80000000 ? -(int)(0xFFFFFFFF - value + 1) : (int)value` -/
def foldSign32Expr (value : BitVec 32) : CExpr .int :=
  .cond .ge (unsignedExpr value) (unsignedExpr 0x80000000#32)
    (-(CExpr.cast .int (unsignedExpr 0xFFFFFFFF#32 - unsignedExpr value + intExpr 1#32)))
    (CExpr.cast .int (unsignedExpr value))

def readExprs16 (e : CExpr .int) : MethodExprs := ⟨[], [⟨_, e⟩], [⟨_, foldSign16Expr e.eval⟩]⟩

def readExprs32 (e : CExpr .int) : MethodExprs :=
  ⟨[], [⟨_, CExpr.cast .uint e⟩], [⟨_, foldSign32Expr (CExpr.cast .uint e).eval⟩]⟩

namespace IntType

/-- The expressions of the readers, over the bytes at `p`. -/
def readExprs (bs : List UInt8) : IntType → MethodExprs
  | uint8 => ⟨[], [], [⟨_, ucharAt bs 0⟩]⟩
  | uint16le => ⟨[], [], [⟨_, ucharAt bs 1 <<< 8 ||| ucharAt bs 0⟩]⟩
  | uint16be => ⟨[], [], [⟨_, ucharAt bs 0 <<< 8 ||| ucharAt bs 1⟩]⟩
  | uint32le => ⟨[], [], [⟨_, CExpr.cast .uint (ucharAt bs 3) <<< 24 ||| ucharAt bs 2 <<< 16 |||
      ucharAt bs 1 <<< 8 ||| ucharAt bs 0⟩]⟩
  | uint32be => ⟨[], [], [⟨_, CExpr.cast .uint (ucharAt bs 0) <<< 24 ||| ucharAt bs 1 <<< 16 |||
      ucharAt bs 2 <<< 8 ||| ucharAt bs 3⟩]⟩
  | int8 => ⟨[], [], [⟨_, charAt bs 0⟩]⟩
  | int16le => readExprs16 (ucharAt bs 1 <<< 8 ||| ucharAt bs 0)
  | int16be => readExprs16 (ucharAt bs 0 <<< 8 ||| ucharAt bs 1)
  | int32le => readExprs32 (wordExpr bs 3 2 1 0)
  | int32be => readExprs32 (wordExpr bs 0 1 2 3)

end IntType

/-! The writers; `n` is what luaL_checkinteger gives. -/

/-- `value < 0 ? 0x10000 + value : value` -/
def uvalue16Expr (value : BitVec 32) : CExpr .int :=
  .cond .lt (intExpr value) (intExpr 0#32) (intExpr 0x10000#32 + intExpr value) (intExpr value)

/-- `value < 0 ? 0x100000000 + value : value` -/
def uvalue32Expr (value : BitVec 32) : CExpr .long :=
  .cond .lt (intExpr value) (intExpr 0#32) (longExpr 0x100000000#64 + intExpr value) (intExpr value)

/-- `value & 0xFF, value >> 8` -/
def storeExprs16 (value : BitVec 32) : List SomeExpr :=
  [⟨_, unsignedExpr value &&& intExpr 0xFF#32⟩, ⟨_, unsignedExpr value >>> 8⟩]

def storeExprs32 (value : BitVec 32) : List SomeExpr :=
  [⟨_, unsignedExpr value &&& intExpr 0xFF#32⟩, ⟨_, unsignedExpr value >>> 8 &&& intExpr 0xFF#32⟩,
    ⟨_, unsignedExpr value >>> 16 &&& intExpr 0xFF#32⟩, ⟨_, unsignedExpr value >>> 24⟩]

/-- `int byte = luaL_checkint(L, 3);` -/
def writeExprs8 (n : BitVec 64) : MethodExprs :=
  let byte : CExpr .int := CExpr.cast .int (longExpr n)
  ⟨[⟨_, byte⟩], [], [⟨_, intExpr byte.eval⟩]⟩

/-- `unsigned int value = (unsigned int)luaL_checkinteger(L, 3);` -/
def writeExprsUnsigned (stores : BitVec 32 → List SomeExpr) (n : BitVec 64) : MethodExprs :=
  let value : CExpr .uint := CExpr.cast .uint (longExpr n)
  ⟨[⟨_, value⟩], [], stores value.eval⟩

/-- `int value = luaL_checkinteger(L, 3); unsigned int uvalue = ...;` -/
def writeExprsInt {t : CType} (uvalue : BitVec 32 → CExpr t) (stores : BitVec 32 → List SomeExpr)
    (n : BitVec 64) : MethodExprs :=
  let value : CExpr .int := CExpr.cast .int (longExpr n)
  let u : CExpr .uint := CExpr.cast .uint (uvalue value.eval)
  ⟨[⟨_, value⟩, ⟨_, u⟩], [], stores u.eval⟩

namespace IntType

def writeExprs (n : BitVec 64) : IntType → MethodExprs
  | uint8 | int8 => writeExprs8 n
  | uint16le => writeExprsUnsigned storeExprs16 n
  | uint16be => writeExprsUnsigned (fun value => (storeExprs16 value).reverse) n
  | uint32le => writeExprsUnsigned storeExprs32 n
  | uint32be => writeExprsUnsigned (fun value => (storeExprs32 value).reverse) n
  | int16le => writeExprsInt uvalue16Expr storeExprs16 n
  | int16be => writeExprsInt uvalue16Expr (fun value => (storeExprs16 value).reverse) n
  | int32le => writeExprsInt uvalue32Expr storeExprs32 n
  | int32be => writeExprsInt uvalue32Expr (fun value => (storeExprs32 value).reverse) n

end IntType

/-! The check of the index. -/

/-- `(int)max`, which the macro makes of `buf->buf.len` and of `buf->buf.len - k` -/
def maxExpr (len : BitVec 64) : ℕ → CExpr .int
  | 0 => CExpr.cast .int (sizeTExpr len)
  | k => CExpr.cast .int (sizeTExpr len) - intExpr (.ofNat 32 k)

/-- The expressions that a method evaluates. The second comparison of the check is made if the
first one holds, and what follows the check if both do. -/
def MethodExprs.call (c : MethodExprs) (len : BitVec 64) (k : ℕ) (position : BitVec 32) :
    List SomeExpr :=
  c.declared ++
    if 1 ≤ position.toInt then
      ⟨_, maxExpr len k⟩ :: if position.toInt ≤ (maxExpr len k).eval.toInt then
        ⟨_, intExpr position - intExpr 1#32⟩ :: (c.assigned ++ c.results) else []
    else []

/-! The expressions evaluate to what the functions of the model give. -/

open CExpr CType

theorem foldSign16Expr_eval (value : BitVec 32) :
    (foldSign16Expr value).eval = foldSign16 value := by
  have hge : CRel.Holds .ge (int.num value) (int.num 0x8000#32) ↔
      (0x8000#32).sle value = true := by
    rw [BitVec.sle_eq_decide, decide_eq_true_iff]
    rfl
  change (if CRel.Holds .ge (int.num (int.conv int value)) (int.num (int.conv int 0x8000#32))
    then int.conv int (-(int.conv int (int.conv int 0xFFFF#32 - int.conv int value) +
      int.conv int 1#32))
    else int.conv int value) = foldSign16 value
  simp only [conv_self, hge]
  rfl

theorem foldSign32Expr_eval (value : BitVec 32) :
    (foldSign32Expr value).eval = foldSign32 value := by
  have hge : CRel.Holds .ge (uint.num value) (uint.num 0x80000000#32) ↔
      (0x80000000#32).ule value = true := by
    rw [BitVec.ule_eq_decide, decide_eq_true_iff]
    exact Int.ofNat_le
  change (if CRel.Holds .ge (uint.num (uint.conv uint value))
      (uint.num (uint.conv uint 0x80000000#32))
    then int.conv int (-(uint.conv int (uint.conv uint (uint.conv uint 0xFFFFFFFF#32 -
      uint.conv uint value) + int.conv uint 1#32)))
    else int.conv int (uint.conv int value)) = foldSign32 value
  simp only [conv_self, hge]
  rw [conv_int_uint, conv_uint_int, conv_uint_int]
  rfl

theorem uvalue16Expr_eval (n : ℤ) :
    (uvalue16Expr (BitVec.ofInt 32 n)).eval = uvalue16 n := by
  have hlt : CRel.Holds .lt (int.num (BitVec.ofInt 32 n)) (int.num 0#32) ↔
      (BitVec.ofInt 32 n).slt 0#32 = true := by
    rw [BitVec.slt_eq_decide, decide_eq_true_iff]
    rfl
  change (if CRel.Holds .lt (int.num (int.conv int (BitVec.ofInt 32 n)))
      (int.num (int.conv int 0#32))
    then int.conv int (int.conv int 0x10000#32 + int.conv int (BitVec.ofInt 32 n))
    else int.conv int (BitVec.ofInt 32 n)) = uvalue16 n
  simp only [conv_self, hlt]
  rfl

theorem uvalue32Expr_eval (n : ℤ) :
    long.conv .uint (uvalue32Expr (BitVec.ofInt 32 n)).eval = uvalue32 n := by
  have hlt : CRel.Holds .lt (int.num (BitVec.ofInt 32 n)) (int.num 0#32) ↔
      (BitVec.ofInt 32 n).slt 0#32 = true := by
    rw [BitVec.slt_eq_decide, decide_eq_true_iff]
    rfl
  change long.conv uint (if CRel.Holds .lt (int.num (int.conv int (BitVec.ofInt 32 n)))
      (int.num (int.conv int 0#32))
    then long.conv long (long.conv long 0x100000000#64 + int.conv long (BitVec.ofInt 32 n))
    else int.conv long (BitVec.ofInt 32 n)) = uvalue32 n
  have hfits : long.Fits (int.num (BitVec.ofInt 32 n)) := by
    have h := int.fits_num (BitVec.ofInt 32 n)
    simp only [Fits, signed, width, if_true] at h ⊢
    omega
  simp only [conv_self, hlt]
  rw [apply_ite (long.conv uint), conv_conv uint hfits, conv_long_uint, conv_int_uint]
  rfl

theorem wordExpr_eval (bs : List UInt8) (i j k l : ℕ) : (wordExpr bs i j k l).eval =
    byteAt bs i <<< 24 ||| byteAt bs j <<< 16 ||| byteAt bs k <<< 8 ||| byteAt bs l := by
  rw [wordExpr, orInt_eval, orInt_eval, orInt_eval]
  rfl

theorem orUnsigned_eval (a : CExpr .uint) (b c d : CExpr .int) :
    (a ||| b ||| c ||| d).eval = a.eval ||| b.eval ||| c.eval ||| d.eval := by
  change uint.conv uint (uint.conv uint (uint.conv uint a.eval ||| int.conv uint b.eval) |||
    int.conv uint c.eval) ||| int.conv uint d.eval = _
  simp only [conv_self, conv_int_uint]

/-- What a reader pushes. -/
theorem read_results (x : IntType) (bs : List UInt8) :
    (x.readExprs bs).results.map (fun e => Value.number e.num) = [x.reader.decode bs] := by
  -- the conversions between int and unsigned int keep the bits
  have hcast : ∀ e : CExpr .int, (CExpr.cast .uint e).eval = e.eval := fun e =>
    conv_int_uint e.eval
  have hint : ∀ {y z : BitVec 32}, y = z → [Value.number (int.num y)] = [.number z.toInt] := by
    rintro y _ rfl
    rfl
  have huint : ∀ {y z : BitVec 32}, y = z → [Value.number (uint.num y)] = [.number z.toNat] := by
    rintro y _ rfl
    rfl
  cases x with
  | uint8 => rfl
  | int8 =>
    have hchar : ((bs.getD 0 0).toBitVec.signExtend 32).toInt = (bs.getD 0 0).toBitVec.toInt :=
      BitVec.toInt_signExtend_of_le (by decide)
    exact congrArg (fun n => [Value.number n]) hchar
  | uint16le | uint16be => exact hint (orInt_eval _ _)
  | uint32le | uint32be =>
    refine huint ((orUnsigned_eval _ _ _ _).trans ?_)
    rw [shl_eval, hcast]
    rfl
  | int16le | int16be =>
    exact hint ((foldSign16Expr_eval _).trans (congrArg foldSign16 (orInt_eval _ _)))
  | int32le | int32be =>
    exact hint ((foldSign32Expr_eval _).trans
      (congrArg foldSign32 ((hcast _).trans (wordExpr_eval bs _ _ _ _))))

theorem setWidth_ofInt (v : ℤ) : (BitVec.ofInt 64 v).setWidth 32 = BitVec.ofInt 32 v := by
  apply BitVec.eq_of_toNat_eq
  simp only [BitVec.toNat_setWidth, BitVec.toNat_ofInt]
  omega

theorem storeExprs16_uchar (value : BitVec 32) : (storeExprs16 value).map SomeExpr.uchar =
    [toUchar (value &&& 0xFF#32), toUchar (value >>> 8)] := by
  change [toUchar (uint.conv uint value &&& int.conv uint 0xFF#32), toUchar (value >>> 8)] = _
  rw [conv_self, conv_int_uint]

theorem storeExprs32_uchar (value : BitVec 32) : (storeExprs32 value).map SomeExpr.uchar =
    [toUchar (value &&& 0xFF#32), toUchar ((value >>> 8) &&& 0xFF#32),
      toUchar ((value >>> 16) &&& 0xFF#32), toUchar (value >>> 24)] := by
  change [toUchar (uint.conv uint value &&& int.conv uint 0xFF#32),
    toUchar (uint.conv uint (value >>> 8) &&& int.conv uint 0xFF#32),
    toUchar (uint.conv uint (value >>> 16) &&& int.conv uint 0xFF#32), toUchar (value >>> 24)] = _
  simp only [conv_self, conv_int_uint]

/-- What a writer stores. -/
theorem write_results (x : IntType) (v : ℤ) : (x.writer (.number v)).bytes =
    .ok ((x.writeExprs (BitVec.ofInt 64 v)).results.map SomeExpr.uchar) := by
  -- the local variables
  have hint : long.conv int (BitVec.ofInt 64 v) = BitVec.ofInt 32 v :=
    (conv_long_int _).trans (setWidth_ofInt v)
  have huint : long.conv uint (BitVec.ofInt 64 v) = BitVec.ofInt 32 v :=
    (conv_long_uint _).trans (setWidth_ofInt v)
  have hu16 : int.conv uint (uvalue16Expr (long.conv int (BitVec.ofInt 64 v))).eval =
      uvalue16 v := by
    rw [hint, uvalue16Expr_eval, conv_int_uint]
  have hu32 : long.conv uint (uvalue32Expr (long.conv int (BitVec.ofInt 64 v))).eval =
      uvalue32 v := by
    rw [hint, uvalue32Expr_eval]
  have h16 : ∀ {y z : BitVec 32}, y = z →
      [toUchar (z &&& 0xFF#32), toUchar (z >>> 8)] = (storeExprs16 y).map SomeExpr.uchar := by
    rintro y _ rfl
    exact (storeExprs16_uchar y).symm
  have h32 : ∀ {y z : BitVec 32}, y = z →
      [toUchar (z &&& 0xFF#32), toUchar ((z >>> 8) &&& 0xFF#32),
        toUchar ((z >>> 16) &&& 0xFF#32), toUchar (z >>> 24)] =
          (storeExprs32 y).map SomeExpr.uchar := by
    rintro y _ rfl
    exact (storeExprs32_uchar y).symm
  have hrev : ∀ {xs : List SomeExpr} {bs : List UInt8}, bs = xs.map SomeExpr.uchar →
      bs.reverse = xs.reverse.map SomeExpr.uchar := by
    rintro xs _ rfl
    exact List.map_reverse.symm
  cases x with
  | uint8 | int8 =>
    have hbyte : toUchar (BitVec.ofInt 32 (cInt v)) =
        toUchar (long.conv int (BitVec.ofInt 64 v)) := by
      rw [ofInt_cInt, hint]
    exact congrArg (fun b => Except.ok [b]) hbyte
  | uint16le => exact congrArg Except.ok (h16 huint)
  | uint16be => exact congrArg Except.ok (hrev (h16 huint))
  | uint32le => exact congrArg Except.ok (h32 huint)
  | uint32be => exact congrArg Except.ok (hrev (h32 huint))
  | int16le => exact congrArg Except.ok (h16 hu16)
  | int16be => exact congrArg Except.ok (hrev (h16 hu16))
  | int32le => exact congrArg Except.ok (h32 hu32)
  | int32be => exact congrArg Except.ok (hrev (h32 hu32))

theorem conv_ulong_int_num (x : BitVec 64) : int.num (ulong.conv int x) = cInt x.toNat := by
  change (BitVec.ofInt 32 (x.toNat : ℤ)).toInt = _
  rw [BitVec.toInt_ofInt]
  rfl

/-- The bound that the check compares with, as the methods of the model have it. -/
theorem maxExpr_num (len : BitVec 64) (k : ℕ) :
    int.num (maxExpr len k).eval = cInt (cInt len.toNat - k) := by
  have hlen := conv_ulong_int_num len
  cases k with
  | zero =>
    change int.num (ulong.conv int len) = _
    rw [hlen, Nat.cast_zero, sub_zero, cInt_eq_self (cInt_mem _)]
  | succ k =>
    change (int.conv int (ulong.conv int len) - int.conv int (.ofNat 32 (k+1))).toInt = _
    have hlen' : (ulong.conv int len).toInt = cInt len.toNat := hlen
    rw [conv_self, conv_self, BitVec.toInt_sub, hlen', ← BitVec.ofInt_natCast, BitVec.toInt_ofInt]
    unfold cInt
    rw [Int.sub_bmod_bmod]

/-! What the expressions stand for. -/

theorem num_byteAt (bs : List UInt8) (i : ℕ) : int.num (byteAt bs i) = (bs.getD i 0).toNat := by
  have h := byteAt_toNat bs i
  have hlt := (bs.getD i 0).toNat_lt
  change (byteAt bs i).toInt = _
  rw [toInt_small (by omega), h]

theorem fits_int {n : ℤ} : int.Fits n ↔ -2^31 ≤ n ∧ n < 2^31 := Iff.rfl

theorem inRange_intExpr (x : BitVec 32) : (intExpr x).InRange := inRange_val (t := .int) x

/-- A shift of a byte is in range if the byte moved by `k` bits is below 2^31. -/
theorem inRange_ucharAt_shl (bs : List UInt8) (i k : ℕ) :
    (ucharAt bs i <<< k).InRange ↔ (bs.getD i 0).toNat * 2^k < 2^31 := by
  have hcast : ((bs.getD i 0).toNat : ℤ) * 2^k = ((bs.getD i 0).toNat * 2^k : ℕ) := by
    push_cast
    rfl
  calc (ucharAt bs i <<< k).InRange
    _ ↔ int.Fits (int.num (byteAt bs i) * 2^k) :=
      (inRange_shlInt _ _).trans (and_iff_left (inRange_intExpr _))
    _ ↔ (bs.getD i 0).toNat * 2^k < 2^31 := by
      rw [num_byteAt, hcast, fits_int]
      omega

theorem inRange_shl_lt (bs : List UInt8) (i : ℕ) {k : ℕ} (hk : k < 24) :
    (ucharAt bs i <<< k).InRange := by
  have hlt := (bs.getD i 0).toNat_lt
  have hpow : 2^k ≤ 2^23 := Nat.pow_le_pow_right (by decide) (by omega)
  have hmul := Nat.mul_le_mul (Nat.le_of_lt_succ hlt) hpow
  exact (inRange_ucharAt_shl bs i k).mpr (by omega)

/-- The cast to unsigned is what keeps a shift by 24 out of int. -/
theorem inRange_unsigned_shl (bs : List UInt8) (i k : ℕ) :
    (CExpr.cast .uint (ucharAt bs i) <<< k).InRange :=
  (inRange_shl _ _).mpr ⟨nofun, (inRange_cast _).mpr (inRange_intExpr _)⟩

/-- `-(0xFFFF - value + 1)` is `value - 0x10000`, for a value from 0x8000 on. -/
theorem foldSign16Expr_inRange (value : BitVec 32) : (foldSign16Expr value).InRange := by
  refine (inRange_cond _ _ _ _ _).mpr ⟨inRange_intExpr _, inRange_intExpr _, ?_⟩
  split
  swap
  · exact inRange_intExpr _
  next h =>
  replace h : int.num (int.conv int value) ≥ int.num (int.conv int 0x8000#32) := h
  rw [conv_self, conv_self] at h
  have hlow : 0x8000 ≤ int.num value := h
  have hlt := (fits_int.mp (int.fits_num value)).2
  have hmax : int.num 0xFFFF#32 = 0xFFFF := by decide
  have hone : int.num 1#32 = 1 := by decide
  have hsub : int.Fits (int.num 0xFFFF#32 - int.num value) := fits_int.mpr (by omega)
  have hsub' : int.num (0xFFFF#32 - value) = 0xFFFF - int.num value := by
    rw [num_sub hsub, hmax]
  have hadd : int.Fits (int.num (0xFFFF#32 - value) + int.num 1#32) := fits_int.mpr (by omega)
  have hadd' : int.num (0xFFFF#32 - value + 1#32) = 0x10000 - int.num value := by
    rw [num_add hadd, hsub', hone]
    omega
  have hneg : int.Fits (-int.num (0xFFFF#32 - value + 1#32)) := fits_int.mpr (by omega)
  refine (inRange_negInt _).mpr ⟨?_, (inRange_addInt _ _).mpr ⟨?_, ?_, inRange_intExpr _⟩⟩
  · rw [addInt_eval, subInt_eval]
    exact hneg
  · rw [subInt_eval]
    exact hadd
  · exact (inRange_subInt _ _).mpr ⟨hsub, inRange_intExpr _, inRange_intExpr _⟩

/-- `-(int)(0xFFFFFFFF - value + 1)` is out of range at the least int, which is cast to
itself. -/
theorem foldSign32Expr_inRange (value : BitVec 32) :
    (foldSign32Expr value).InRange ↔ value ≠ 0x80000000#32 := by
  have hval : ∀ x : BitVec 32, (unsignedExpr x).InRange := inRange_val (t := .uint)
  have hsub : (unsignedExpr 0xFFFFFFFF#32 - unsignedExpr value).InRange :=
    (inRange_op _ _ _).mpr ⟨nofun, hval _, hval _⟩
  have hadd : (unsignedExpr 0xFFFFFFFF#32 - unsignedExpr value + intExpr 1#32).InRange :=
    (inRange_op _ _ _).mpr ⟨nofun, hsub, inRange_intExpr _⟩
  have hbits : (0xFFFFFFFF#32 - value + 1#32 : BitVec 32) = -value := by bv_omega
  have heval : (CExpr.cast .int
      (unsignedExpr 0xFFFFFFFF#32 - unsignedExpr value + intExpr 1#32)).eval = -value := by
    change uint.conv int (uint.conv uint (uint.conv uint 0xFFFFFFFF#32 - uint.conv uint value) +
      int.conv uint 1#32) = _
    rw [conv_uint_int, conv_self, conv_self, conv_self, conv_int_uint]
    exact hbits
  -- only the least int has no negative
  have hneg : int.Fits (-int.num (-value)) ↔ value ≠ 0x80000000#32 := by
    have hfits := fits_int.mp (int.fits_num (-value))
    have hmin : (0x80000000#32).toInt = -2^31 := by decide
    have hleast : int.num (-value) = -2^31 ↔ value = 0x80000000#32 := by
      rw [← hmin]
      exact BitVec.toInt_inj.trans neg_eq_iff_eq_neg
    rw [ne_eq, ← hleast, fits_int]
    omega
  refine (inRange_cond _ _ _ _ _).trans ?_
  rw [and_iff_right (hval _), and_iff_right (hval _)]
  split
  · refine (inRange_negInt _).trans ?_
    rw [heval, inRange_cast, and_iff_left hadd, hneg]
  next h =>
  replace h : ¬uint.num (uint.conv uint value) ≥ uint.num (uint.conv uint 0x80000000#32) := h
  rw [conv_self, conv_self] at h
  refine iff_of_true ((inRange_cast _).mpr (hval _)) ?_
  rintro rfl
  exact h le_rfl

theorem uvalue16Expr_inRange (value : BitVec 32) : (uvalue16Expr value).InRange := by
  refine (inRange_cond _ _ _ _ _).mpr ⟨inRange_intExpr _, inRange_intExpr _, ?_⟩
  split
  swap
  · exact inRange_intExpr _
  next h =>
  replace h : int.num (int.conv int value) < int.num (int.conv int 0#32) := h
  rw [conv_self, conv_self] at h
  have hneg : int.num value < 0 := h
  have hlow := (fits_int.mp (int.fits_num value)).1
  have hmax : int.num 0x10000#32 = 0x10000 := by decide
  have hadd : int.Fits (int.num 0x10000#32 + int.num value) := fits_int.mpr (by omega)
  exact (inRange_addInt _ _).mpr ⟨hadd, inRange_intExpr _, inRange_intExpr _⟩

/-- 0x100000000 makes the sum a long. -/
theorem uvalue32Expr_inRange (value : BitVec 32) : (uvalue32Expr value).InRange := by
  refine (inRange_cond _ _ _ _ _).mpr ⟨inRange_intExpr _, inRange_intExpr _, ?_⟩
  split
  swap
  · exact inRange_intExpr _
  refine (inRange_op _ _ _).mpr ⟨fun _ => ?_, inRange_val (t := .long) _, inRange_intExpr _⟩
  have hvalue := fits_int.mp (int.fits_num value)
  have hlong : ∀ n : ℤ, long.Fits n ↔ -2^63 ≤ n ∧ n < 2^63 := fun _ => Iff.rfl
  have hmax : long.num 0x100000000#64 = 0x100000000 := by decide
  change long.Fits (long.num (long.conv long 0x100000000#64) + long.num (int.conv long value))
  rw [conv_self, hmax, num_conv ((hlong _).mpr (by omega)), hlong]
  omega

/-- The bound of the check. -/
theorem maxExpr_inRange (len : BitVec 64) {k : ℕ} (hk : k < 2^31) :
    (maxExpr len k).InRange ↔ -2^31 ≤ cInt len.toNat - k := by
  have hlen : (CExpr.cast .int (sizeTExpr len)).InRange := inRange_val (t := .ulong) len
  obtain ⟨hlow, hhigh⟩ : -2^31 ≤ cInt len.toNat ∧ cInt len.toNat ≤ 2^31-1 := cInt_mem len.toNat
  cases k with
  | zero =>
    have hzero : -2^31 ≤ cInt len.toNat - (0 : ℕ) := by omega
    exact iff_of_true hlen hzero
  | succ k =>
    have hk' : int.num (.ofNat 32 (k+1)) = (k+1 : ℕ) := by
      change (BitVec.ofNat 32 (k+1)).toInt = _
      rw [toInt_small] <;> rw [BitVec.toNat_ofNat] <;> omega
    have hnum : int.num (CExpr.cast .int (sizeTExpr len)).eval = cInt len.toNat :=
      conv_ulong_int_num len
    have hfits : int.Fits (int.num (CExpr.cast .int (sizeTExpr len)).eval -
        int.num (.ofNat 32 (k+1))) ↔ -2^31 ≤ cInt len.toNat - (k+1 : ℕ) := by
      rw [hnum, hk', fits_int]
      omega
    exact (inRange_subInt _ _).trans ((and_iff_left ⟨hlen, inRange_intExpr _⟩).trans hfits)

/-- A 32-bit word whose top byte is below 0x80. -/
theorem word_lt (bs : List UInt8) {i j k l : ℕ} (h : (bs.getD i 0).toNat < 0x80) :
    (byteAt bs i <<< 24 ||| byteAt bs j <<< 16 ||| byteAt bs k <<< 8 ||| byteAt bs l).toNat <
      2^31 := by
  have hshl : ∀ i k : ℕ, (bs.getD i 0).toNat * 2^k < 2^31 →
      (byteAt bs i <<< k).toNat < 2^31 := by
    intro i k hlt
    rw [BitVec.toNat_shiftLeft, byteAt_toNat, Nat.shiftLeft_eq]
    exact (Nat.mod_le _ _).trans_lt hlt
  have hj := (bs.getD j 0).toNat_lt
  have hk := (bs.getD k 0).toNat_lt
  have hl := (bs.getD l 0).toNat_lt
  rw [BitVec.toNat_or, BitVec.toNat_or, BitVec.toNat_or, byteAt_toNat bs l]
  exact Nat.or_lt_two_pow (Nat.or_lt_two_pow (Nat.or_lt_two_pow (hshl i 24 (by omega))
    (hshl j 16 (by omega))) (hshl k 8 (by omega))) (by omega)

/-! The methods. -/

/-- No operation of a signed type overflows in any of the expressions. -/
def AllInRange (es : List SomeExpr) : Prop := ∀ e ∈ es, e.2.InRange

instance (es : List SomeExpr) : Decidable (AllInRange es) :=
  inferInstanceAs (Decidable (∀ e ∈ es, _))

theorem allInRange_nil : AllInRange [] := nofun

theorem allInRange_cons {e : SomeExpr} {es : List SomeExpr} :
    AllInRange (e :: es) ↔ e.2.InRange ∧ AllInRange es := List.forall_mem_cons

theorem allInRange_append {es fs : List SomeExpr} :
    AllInRange (es ++ fs) ↔ AllInRange es ∧ AllInRange fs := List.forall_mem_append

theorem MethodExprs.call_inRange {c : MethodExprs} (hd : AllInRange c.declared) (len : BitVec 64)
    {k : ℕ} (hk : k < 2^31) (position : BitVec 32) : AllInRange (c.call len k position) ↔
      (1 ≤ position.toInt → -2^31 ≤ cInt len.toNat - k) ∧
      (couvArgcheckindex 2 position.toInt 1 (cInt (cInt len.toNat - k)) = .ok () →
        AllInRange c.assigned ∧ AllInRange c.results) := by
  have hmax : (maxExpr len k).eval.toInt = cInt (cInt len.toNat - k) := maxExpr_num len k
  have hcheck : couvArgcheckindex 2 position.toInt 1 (cInt (cInt len.toNat - k)) = .ok () ↔
      1 ≤ position.toInt ∧ position.toInt ≤ cInt (cInt len.toNat - k) :=
    ⟨couvArgcheckindex_ok, fun h => if_pos h⟩
  -- what is computed up to each check, in turn
  unfold call
  rw [allInRange_append, and_iff_right hd, hcheck, hmax]
  split
  swap
  next h1 => exact iff_of_true allInRange_nil ⟨fun h => absurd h h1, fun h => absurd h.1 h1⟩
  next h1 =>
  rw [allInRange_cons, maxExpr_inRange len hk, forall_prop_of_true h1]
  refine and_congr_right' ?_
  split
  swap
  next h2 => exact iff_of_true allInRange_nil fun h => absurd h.2 h2
  next h2 =>
  have hfits : int.Fits (int.num position - int.num 1#32) := by
    have hone : int.num 1#32 = 1 := by decide
    have hpos : int.num position = position.toInt := rfl
    have hlt := position.toInt_lt
    rw [hone, hpos, fits_int]
    omega
  have hindex : (intExpr position - intExpr 1#32).InRange :=
    (inRange_subInt _ _).mpr ⟨hfits, inRange_intExpr _, inRange_intExpr _⟩
  rw [allInRange_cons, and_iff_right hindex, allInRange_append]
  exact ⟨fun h _ => h, fun h => h ⟨h1, h2⟩⟩

theorem allInRange_one {e : SomeExpr} : AllInRange [e] ↔ e.2.InRange := List.forall_mem_singleton

/-- Two bytes as a word. -/
theorem inRange_word16 (bs : List UInt8) (i j : ℕ) :
    (ucharAt bs i <<< 8 ||| ucharAt bs j).InRange :=
  (inRange_or _ _).mpr ⟨inRange_shl_lt bs i (by decide), inRange_intExpr _⟩

theorem readExprs32_inRange (bs : List UInt8) (i j k l : ℕ) :
    AllInRange (readExprs32 (wordExpr bs i j k l)).assigned ∧
      AllInRange (readExprs32 (wordExpr bs i j k l)).results ↔ (bs.getD i 0).toNat < 0x80 := by
  have hword : (wordExpr bs i j k l).InRange ↔ (bs.getD i 0).toNat < 0x80 := by
    refine (inRange_or _ _).trans ((and_iff_left (inRange_intExpr _)).trans ?_)
    refine (inRange_or _ _).trans ((and_iff_left (inRange_shl_lt bs k (by decide))).trans ?_)
    refine (inRange_or _ _).trans ((and_iff_left (inRange_shl_lt bs j (by decide))).trans ?_)
    refine (inRange_ucharAt_shl bs i 24).trans ?_
    omega
  have hfold : (bs.getD i 0).toNat < 0x80 →
      (foldSign32Expr (CExpr.cast .uint (wordExpr bs i j k l)).eval).InRange := by
    intro h
    refine (foldSign32Expr_inRange _).mpr ?_
    intro heq
    have hval : (CExpr.cast .uint (wordExpr bs i j k l)).eval = byteAt bs i <<< 24 |||
        byteAt bs j <<< 16 ||| byteAt bs k <<< 8 ||| byteAt bs l :=
      (conv_int_uint _).trans (wordExpr_eval bs i j k l)
    have hlt := word_lt bs (j := j) (k := k) (l := l) h
    rw [← hval, heq] at hlt
    exact absurd hlt (by decide)
  constructor
  · rintro ⟨h, -⟩
    exact hword.mp (allInRange_one.mp h)
  · intro h
    exact ⟨allInRange_one.mpr (hword.mpr h), allInRange_one.mpr (hfold h)⟩

/-- Of the readers, the signed ones of 32 bits shift the top byte as an int. -/
theorem read_inRange (x : IntType) (bs : List UInt8) :
    AllInRange (x.readExprs bs).assigned ∧ AllInRange (x.readExprs bs).results ↔
      (x = .int32le → (bs.getD 3 0).toNat < 0x80) ∧
      (x = .int32be → (bs.getD 0 0).toNat < 0x80) := by
  cases x with
  | uint8 | int8 =>
    exact iff_of_true ⟨allInRange_nil, allInRange_one.mpr (inRange_intExpr _)⟩ ⟨nofun, nofun⟩
  | uint16le | uint16be =>
    exact iff_of_true ⟨allInRange_nil, allInRange_one.mpr (inRange_word16 bs _ _)⟩ ⟨nofun, nofun⟩
  | int16le | int16be =>
    exact iff_of_true ⟨allInRange_one.mpr (inRange_word16 bs _ _),
      allInRange_one.mpr (foldSign16Expr_inRange _)⟩ ⟨nofun, nofun⟩
  | uint32le | uint32be =>
    refine iff_of_true ⟨allInRange_nil, allInRange_one.mpr ?_⟩ ⟨nofun, nofun⟩
    refine (inRange_or _ _).mpr ⟨(inRange_or _ _).mpr ⟨(inRange_or _ _).mpr ⟨?_, ?_⟩, ?_⟩, ?_⟩
    · exact inRange_unsigned_shl bs _ 24
    · exact inRange_shl_lt bs _ (by decide)
    · exact inRange_shl_lt bs _ (by decide)
    · exact inRange_intExpr _
  | int32le =>
    rw [and_iff_left (nofun : IntType.int32le = .int32be → _), forall_prop_of_true rfl]
    exact readExprs32_inRange bs 3 2 1 0
  | int32be =>
    rw [and_iff_right (nofun : IntType.int32be = .int32le → _), forall_prop_of_true rfl]
    exact readExprs32_inRange bs 0 1 2 3

theorem storeExprs16_inRange (value : BitVec 32) : AllInRange (storeExprs16 value) := by
  have hval : (unsignedExpr value).InRange := inRange_val (t := .uint) value
  have hshr : (unsignedExpr value >>> 8).InRange := (inRange_shr _ _).mpr ⟨nofun, hval⟩
  exact allInRange_cons.mpr ⟨(inRange_and _ _).mpr ⟨hval, inRange_intExpr _⟩,
    allInRange_one.mpr hshr⟩

theorem storeExprs32_inRange (value : BitVec 32) : AllInRange (storeExprs32 value) := by
  have hval : (unsignedExpr value).InRange := inRange_val (t := .uint) value
  have hshr : ∀ k : ℕ, (unsignedExpr value >>> k).InRange := fun k =>
    (inRange_shr _ _).mpr ⟨nofun, hval⟩
  have hand : ∀ {e : CExpr .uint}, e.InRange → (e &&& intExpr 0xFF#32).InRange := fun h =>
    (inRange_and _ _).mpr ⟨h, inRange_intExpr _⟩
  exact allInRange_cons.mpr ⟨hand hval, allInRange_cons.mpr ⟨hand (hshr 8),
    allInRange_cons.mpr ⟨hand (hshr 16), allInRange_one.mpr (hshr 24)⟩⟩⟩

/-- The writers keep to the range of int at every value. -/
theorem write_inRange (x : IntType) (n : BitVec 64) :
    AllInRange (x.writeExprs n).declared ∧ AllInRange (x.writeExprs n).assigned ∧
      AllInRange (x.writeExprs n).results := by
  have hlong : (longExpr n).InRange := inRange_val (t := .long) n
  have hone : ∀ {s t : CType} {e : CExpr s}, e.InRange → AllInRange [⟨t, CExpr.cast t e⟩] :=
    fun h => allInRange_one.mpr ((inRange_cast _).mpr h)
  have hrev : ∀ {es : List SomeExpr}, AllInRange es → AllInRange es.reverse := fun h e he =>
    h e (List.mem_reverse.mp he)
  have hvalue : ∀ {t : CType} {e : CExpr t}, e.InRange →
      AllInRange [⟨_, CExpr.cast .int (longExpr n)⟩, ⟨_, CExpr.cast .uint e⟩] := fun h =>
    allInRange_cons.mpr ⟨(inRange_cast _).mpr hlong, hone h⟩
  -- int8 and uint8 assign one byte, the others two or four
  cases x with
  | uint8 | int8 =>
    exact ⟨hone hlong, allInRange_nil, allInRange_one.mpr (inRange_intExpr _)⟩
  | uint16le => exact ⟨hone hlong, allInRange_nil, storeExprs16_inRange _⟩
  | uint16be => exact ⟨hone hlong, allInRange_nil, hrev (storeExprs16_inRange _)⟩
  | uint32le => exact ⟨hone hlong, allInRange_nil, storeExprs32_inRange _⟩
  | uint32be => exact ⟨hone hlong, allInRange_nil, hrev (storeExprs32_inRange _)⟩
  | int16le => exact ⟨hvalue (uvalue16Expr_inRange _), allInRange_nil, storeExprs16_inRange _⟩
  | int16be =>
    exact ⟨hvalue (uvalue16Expr_inRange _), allInRange_nil, hrev (storeExprs16_inRange _)⟩
  | int32le => exact ⟨hvalue (uvalue32Expr_inRange _), allInRange_nil, storeExprs32_inRange _⟩
  | int32be =>
    exact ⟨hvalue (uvalue32Expr_inRange _), allInRange_nil, hrev (storeExprs32_inRange _)⟩

/-- The int expressions of the readers and writers of integers. A reader of int32 overflows at a
top byte from 0x80 on; the bound of the check does where the length, as an int, is within `k`
of the least int. -/
theorem codec_in_range (x : IntType) (bs : List UInt8) (n len : BitVec 64)
    (position : BitVec 32) :
    (AllInRange ((x.readExprs bs).call len (x.width-1) position) ↔
      (1 ≤ position.toInt → -2^31 ≤ cInt len.toNat - (x.width-1 : ℕ)) ∧
      (couvArgcheckindex 2 position.toInt 1 (cInt (cInt len.toNat - (x.width-1 : ℕ))) = .ok () →
        (x = .int32le → (bs.getD 3 0).toNat < 0x80) ∧
        (x = .int32be → (bs.getD 0 0).toNat < 0x80))) ∧
    (AllInRange ((x.writeExprs n).call len (x.width-1) position) ↔
      (1 ≤ position.toInt → -2^31 ≤ cInt len.toNat - (x.width-1 : ℕ))) := by
  have hk : x.width-1 < 2^31 := by cases x <;> decide
  have hd : AllInRange (x.readExprs bs).declared := by cases x <;> exact allInRange_nil
  obtain ⟨hwd, hwrite⟩ := write_inRange x n
  constructor
  · rw [MethodExprs.call_inRange hd len hk, read_inRange]
  · rw [MethodExprs.call_inRange hwd len hk]
    exact and_iff_left fun _ => hwrite

/-- `p[3] << 24` at the bytes of -2^31. -/
theorem readInt32le_overflows :
    ¬AllInRange ((IntType.int32le.readExprs [0, 0, 0, 0x80]).call 4#64 3 1#32) := by
  decide

end Couv
