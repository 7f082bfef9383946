import Couv.BlockHeap
import Couv.ByteDigits

/-! What the integer readers and writers make of the bytes of a number. -/
namespace Couv

/-! The integer part of a C expression on 32-bit vectors. -/

theorem toUchar_eq (x : BitVec 32) : toUchar x = UInt8.ofNat x.toNat := by
  apply UInt8.toNat_inj.mp
  rw [UInt8.toNat_ofNat']
  simp only [toUchar, UInt8.toNat_ofBitVec, BitVec.toNat_setWidth]

/-- `x & 0xFF`, stored to a char, is `x` stored to a char. -/
theorem toUchar_mask (x : BitVec 32) : toUchar (x &&& 0xFF#32) = toUchar x := by
  unfold toUchar
  rw [BitVec.setWidth_and]
  congr 1
  exact BitVec.and_allOnes

theorem toUchar_shift (x : BitVec 32) (k : ℕ) :
    toUchar (x >>> k) = UInt8.ofNat (x.toNat / 2^k) := by
  rw [toUchar_eq, BitVec.toNat_ushiftRight, Nat.shiftRight_eq_div_pow]

theorem digitsLe_congr {w a b : ℕ} (h : a % 2^(8*w) = b % 2^(8*w)) :
    digitsLe w a = digitsLe w b := by
  rw [← digitsLe_mod, h, digitsLe_mod]

/-- The four stores of a 32-bit value. -/
theorem digitsLe_four (x : BitVec 32) : digitsLe 4 x.toNat =
    [toUchar (x &&& 0xFF#32), toUchar ((x >>> 8) &&& 0xFF#32),
      toUchar ((x >>> 16) &&& 0xFF#32), toUchar (x >>> 24)] := by
  simp only [toUchar_mask, toUchar_shift, digitsLe, Nat.div_div_eq_div_mul]
  rw [toUchar_eq]
  rfl

theorem digitsLe_two (x : BitVec 32) : digitsLe 2 x.toNat =
    [toUchar (x &&& 0xFF#32), toUchar (x >>> 8)] := by
  rw [toUchar_mask, toUchar_shift, toUchar_eq]
  rfl

theorem digitsLe_one (x : BitVec 32) : digitsLe 1 x.toNat = [toUchar x] := by
  rw [toUchar_eq]
  rfl

/-- Narrowing to unsigned keeps the low digits. -/
theorem digitsLe_ofInt {w : ℕ} (hw : w ≤ 4) (v : ℤ) :
    digitsLe w (BitVec.ofInt 32 v).toNat = digitsLe w (v % 2^(8*w)).toNat := by
  apply digitsLe_congr
  have hdvd : (2 : ℤ)^(8*w) ∣ 2^32 := pow_dvd_pow 2 (by omega)
  have hz : ((2^(8*w) : ℕ) : ℤ) = 2^(8*w) := by push_cast; rfl
  have hpos : (0 : ℤ) < 2^(8*w) := Int.pow_pos (by decide)
  apply Int.natCast_inj.mp
  push_cast
  rw [BitVec.toNat_ofInt, Int.toNat_of_nonneg (Int.emod_nonneg _ (by decide)),
    Int.toNat_of_nonneg (Int.emod_nonneg _ hpos.ne'), Int.emod_emod_of_dvd _ (dvd_refl _)]
  exact Int.emod_emod_of_dvd _ hdvd

theorem ofInt_cInt (v : ℤ) : BitVec.ofInt 32 (cInt v) = BitVec.ofInt 32 v := by
  apply BitVec.eq_of_toNat_eq
  rw [BitVec.toNat_ofInt, BitVec.toNat_ofInt]
  exact congrArg Int.toNat Int.bmod_emod

/-- The sum with 0x10000 that stores of a negative 16-bit value start from. -/
theorem uvalue16_digits (v : ℤ) :
    digitsLe 2 (uvalue16 v).toNat = digitsLe 2 (BitVec.ofInt 32 v).toNat := by
  apply digitsLe_congr
  simp only [uvalue16]
  split
  · rw [BitVec.toNat_add]
    simp only [BitVec.toNat_ofNat]
    omega
  · rfl

theorem uvalue32_eq (v : ℤ) : uvalue32 v = BitVec.ofInt 32 v := by
  simp only [uvalue32]
  split
  · apply BitVec.eq_of_toNat_eq
    rw [BitVec.toNat_setWidth, BitVec.toNat_add, BitVec.toNat_signExtend]
    have hx := (BitVec.ofInt 32 v).isLt
    rw [BitVec.toNat_setWidth]
    simp only [BitVec.toNat_ofNat]
    split <;> omega
  · rfl

/-! The readers. -/

theorem byteAt_toNat (p : List UInt8) (i : ℕ) : (byteAt p i).toNat = (p.getD i 0).toNat := by
  have h := (p.getD i 0).toNat_lt
  simp only [byteAt, BitVec.toNat_setWidth, UInt8.toNat_toBitVec]
  omega

/-- An or of a shifted byte and what lies below it is a sum. -/
theorem toNat_shift_or {x y : BitVec 32} {k : ℕ} (hx : x.toNat < 2^(32-k)) (hk : k ≤ 32)
    (hy : y.toNat < 2^k) : (x <<< k ||| y).toNat = x.toNat * 2^k + y.toNat := by
  have hlt : x.toNat * 2^k < 2^32 := by
    have hpow : 2^32 = 2^(32-k) * 2^k := by rw [← pow_add, Nat.sub_add_cancel hk]
    rw [hpow]
    exact Nat.mul_lt_mul_of_pos_right hx (Nat.two_pow_pos k)
  rw [BitVec.toNat_or, BitVec.toNat_shiftLeft, Nat.shiftLeft_eq, Nat.mod_eq_of_lt hlt,
    ← Nat.shiftLeft_eq, ← Nat.shiftLeft_add_eq_or_of_lt hy]

theorem toInt_small {x : BitVec 32} (h : x.toNat < 2^31) : x.toInt = x.toNat := by
  rw [BitVec.toInt_eq_toNat_cond, if_pos (by omega)]

/-- `-(0xFFFF - value + 1)` is `value - 0x10000`. -/
theorem foldSign16_toInt {x : BitVec 32} (h : x.toNat < 2^16) :
    (foldSign16 x).toInt = twosComplement 2 x.toNat := by
  have hx : x.toInt = x.toNat := toInt_small (by omega)
  have hsle : (0x8000#32).sle x = decide (2^15 ≤ x.toNat) := by
    rw [BitVec.sle_eq_decide, hx]
    simp only [decide_eq_decide]
    change (2^15 : ℤ) ≤ x.toNat ↔ _
    omega
  unfold foldSign16 twosComplement
  rw [hsle]
  by_cases hs : 2^15 ≤ x.toNat
  · have hsub : -(0xFFFF#32 - x + 1#32) = x - 0x10000#32 := by bv_omega
    have hnat : (x - 0x10000#32).toNat = 2^32 - 2^16 + x.toNat := by bv_omega
    rw [if_pos (decide_eq_true hs), if_neg (by omega), hsub, BitVec.toInt_eq_toNat_cond, hnat,
      if_neg (by omega)]
    omega
  · rw [if_neg (by simpa using hs), if_pos (by omega), hx]

/-- In 32 bits the folding of the sign does nothing. -/
theorem foldSign32_eq (x : BitVec 32) : foldSign32 x = x := by
  unfold foldSign32
  split
  · bv_omega
  · rfl

theorem toInt_eq_twosComplement (x : BitVec 32) : x.toInt = twosComplement 4 x.toNat :=
  BitVec.toInt_eq_toNat_cond x

section
variable (v : ℤ)

theorem writeUint8_eq : writeUint8 (cInt v) = digitsLe 1 (v % 2^(8*1)).toNat := by
  rw [writeUint8, ofInt_cInt, ← digitsLe_one, digitsLe_ofInt (by decide)]

theorem writeUint16le_eq : writeUint16le v = digitsLe 2 (v % 2^(8*2)).toNat := by
  rw [← digitsLe_ofInt (by decide), digitsLe_two]
  rfl

theorem writeInt16le_eq : writeInt16le v = digitsLe 2 (v % 2^(8*2)).toNat := by
  rw [← digitsLe_ofInt (by decide), ← uvalue16_digits, digitsLe_two]
  rfl

theorem writeUint32le_eq : writeUint32le v = digitsLe 4 (v % 2^(8*4)).toNat := by
  rw [← digitsLe_ofInt (by decide), digitsLe_four]
  rfl

theorem writeInt32le_eq : writeInt32le v = digitsLe 4 (v % 2^(8*4)).toNat := by
  rw [← digitsLe_ofInt (by decide), ← uvalue32_eq, digitsLe_four]
  rfl

end

section
variable (a b c d : UInt8)

theorem orBytes_two : (byteAt [a, b] 1 <<< 8 ||| byteAt [a, b] 0).toNat = valueLe [a, b] := by
  have ha := a.toNat_lt
  have hb := b.toNat_lt
  rw [toNat_shift_or (by rw [byteAt_toNat]; exact hb.trans (by decide)) (by decide)
    (by rw [byteAt_toNat]; exact ha), byteAt_toNat, byteAt_toNat]
  simp only [valueLe, List.getD_cons_zero, List.getD_cons_succ]
  omega

theorem orBytes_four : (byteAt [a, b, c, d] 3 <<< 24 ||| byteAt [a, b, c, d] 2 <<< 16 |||
    byteAt [a, b, c, d] 1 <<< 8 ||| byteAt [a, b, c, d] 0).toNat = valueLe [a, b, c, d] := by
  have ha := a.toNat_lt
  have hb := b.toNat_lt
  have hc := c.toNat_lt
  have hd := d.toNat_lt
  have h1 : (byteAt [a, b, c, d] 1 <<< 8 ||| byteAt [a, b, c, d] 0).toNat =
      b.toNat * 2^8 + a.toNat := by
    rw [toNat_shift_or (by rw [byteAt_toNat]; exact hb.trans (by decide)) (by decide)
      (by rw [byteAt_toNat]; exact ha), byteAt_toNat, byteAt_toNat]
    rfl
  have h2 : (byteAt [a, b, c, d] 2 <<< 16 ||| (byteAt [a, b, c, d] 1 <<< 8 |||
      byteAt [a, b, c, d] 0)).toNat = c.toNat * 2^16 + (b.toNat * 2^8 + a.toNat) := by
    rw [toNat_shift_or (by rw [byteAt_toNat]; exact hc.trans (by decide)) (by decide)
      (by omega), h1, byteAt_toNat]
    rfl
  rw [BitVec.or_assoc, BitVec.or_assoc, toNat_shift_or
    (by rw [byteAt_toNat]; exact hd) (by decide) (by omega), h2, byteAt_toNat]
  simp only [valueLe, List.getD_cons_zero, List.getD_cons_succ]
  omega

theorem readUint8_eq : readUint8 [a] = .number (valueLe [a]) := by
  have ha := a.toNat_lt
  rw [readUint8, toInt_small (by rw [byteAt_toNat]; exact ha.trans (by decide)), byteAt_toNat]
  rfl

theorem readInt8_eq : readInt8 [a] = .number (twosComplement 1 (valueLe [a])) :=
  congrArg Value.number (BitVec.toInt_eq_toNat_cond a.toBitVec)

theorem readUint16le_eq : readUint16le [a, b] = .number (valueLe [a, b]) := by
  have h := valueLe_lt [a, b]
  rw [readUint16le, toInt_small (by rw [orBytes_two]; exact h.trans (show 2^16 < 2^31 by decide)),
    orBytes_two]

theorem readInt16le_eq : readInt16le [a, b] = .number (twosComplement 2 (valueLe [a, b])) := by
  rw [readInt16le, foldSign16_toInt (by rw [orBytes_two]; exact valueLe_lt [a, b]), orBytes_two]

theorem readUint32le_eq : readUint32le [a, b, c, d] = .number (valueLe [a, b, c, d]) := by
  rw [readUint32le, orBytes_four]

theorem readInt32le_eq :
    readInt32le [a, b, c, d] = .number (twosComplement 4 (valueLe [a, b, c, d])) := by
  rw [readInt32le, foldSign32_eq, toInt_eq_twosComplement, orBytes_four]

end

/-! Byte orders. -/

def Reader.swap : Reader → Reader
  | .uint8 => .uint8
  | .uint16le => .uint16be
  | .uint16be => .uint16le
  | .uint32le => .uint32be
  | .uint32be => .uint32le
  | .int8 => .int8
  | .int16le => .int16be
  | .int16be => .int16le
  | .int32le => .int32be
  | .int32be => .int32le
  | .floatLe => .floatBe
  | .floatBe => .floatLe
  | .doubleLe => .doubleBe
  | .doubleBe => .doubleLe

def Writer.swap : Writer → Writer
  | .uint8 value => .uint8 value
  | .uint16le value => .uint16be value
  | .uint16be value => .uint16le value
  | .uint32le value => .uint32be value
  | .uint32be value => .uint32le value
  | .int8 value => .int8 value
  | .int16le value => .int16be value
  | .int16be value => .int16le value
  | .int32le value => .int32be value
  | .int32be value => .int32le value
  | .floatLe value => .floatBe value
  | .floatBe value => .floatLe value
  | .doubleLe value => .doubleBe value
  | .doubleBe value => .doubleLe value

theorem Reader.swap_width (r : Reader) : r.swap.width = r.width := by
  cases r <;> rfl

theorem Writer.swap_width (w : Writer) : w.swap.width = w.width := by
  cases w <;> rfl

theorem Reader.swap_decode (r : Reader) {bs : List UInt8} (h : bs.length = r.width) :
    r.swap.decode bs = r.decode bs.reverse := by
  cases r with
  | uint8 | int8 =>
    obtain ⟨a, rfl⟩ := List.length_eq_one_iff.mp h
    rfl
  | uint16le | uint16be | int16le | int16be =>
    obtain ⟨a, b, rfl⟩ := List.length_eq_two.mp h
    rfl
  | uint32le | uint32be | int32le | int32be =>
    obtain ⟨a, b, c, d, rfl⟩ := List.length_eq_four.mp h
    rfl
  | floatLe | doubleLe => rfl
  | floatBe => exact congrArg (fun p => Value.float (bitsOfBytes 32 p)) bs.reverse_reverse.symm
  | doubleBe => exact congrArg (fun p => Value.double (bitsOfBytes 64 p)) bs.reverse_reverse.symm

theorem Writer.swap_bytes (w : Writer) : w.swap.bytes = w.bytes.map List.reverse := by
  have hmap {α : Type} (x : Except LuaError α) (f g : α → List UInt8)
      (hfg : ∀ a, g a = (f a).reverse) : x.map g = (x.map f).map List.reverse := by
    cases x with
    | error e => rfl
    | ok a => exact congrArg Except.ok (hfg a)
  have hback (bs : List UInt8) : bs = bs.reverse.reverse := bs.reverse_reverse.symm
  cases w with
  | floatBe value => exact hmap value writeFloatBe writeFloatLe (fun a => hback _)
  | doubleBe value => exact hmap value writeDoubleBe writeDoubleLe (fun a => hback _)
  | _ => exact hmap _ _ _ (fun a => rfl)

/-! The types X of the integer methods readX and writeX. -/

inductive IntType
  | uint8 | uint16le | uint16be | uint32le | uint32be
  | int8 | int16le | int16be | int32le | int32be
  deriving DecidableEq, Repr

namespace IntType

def reader : IntType → Reader
  | uint8 => .uint8
  | uint16le => .uint16le
  | uint16be => .uint16be
  | uint32le => .uint32le
  | uint32be => .uint32be
  | int8 => .int8
  | int16le => .int16le
  | int16be => .int16be
  | int32le => .int32le
  | int32be => .int32be

def writer (value : Value) : IntType → Writer
  | uint8 => .uint8 value
  | uint16le => .uint16le value
  | uint16be => .uint16be value
  | uint32le => .uint32le value
  | uint32be => .uint32be value
  | int8 => .int8 value
  | int16le => .int16le value
  | int16be => .int16be value
  | int32le => .int32le value
  | int32be => .int32be value

def width : IntType → ℕ
  | uint8 | int8 => 1
  | uint16le | uint16be | int16le | int16be => 2
  | uint32le | uint32be | int32le | int32be => 4

def signed : IntType → Bool
  | int8 | int16le | int16be | int32le | int32be => true
  | _ => false

def bigEndian : IntType → Bool
  | uint16be | uint32be | int16be | int32be => true
  | _ => false

/-- The unsigned type of the same width and order. -/
def unsigned : IntType → IntType
  | uint8 | int8 => uint8
  | uint16le | int16le => uint16le
  | uint16be | int16be => uint16be
  | uint32le | int32le => uint32le
  | uint32be | int32be => uint32be

variable (x : IntType)

/-- Between the order of the type and least significant first. -/
def order (bs : List UInt8) : List UInt8 := if x.bigEndian then bs.reverse else bs

/-- The digits of a number, reduced to the width. -/
def bytes (v : ℤ) : List UInt8 := x.order (digitsLe x.width (v % 2^(8*x.width)).toNat)

/-- The number that bytes denote. -/
def number (bs : List UInt8) : ℤ :=
  if x.signed then twosComplement x.width (valueLe (x.order bs)) else valueLe (x.order bs)

def InRange (n : ℤ) : Prop :=
  if x.signed then -2^(8*x.width-1) ≤ n ∧ n < 2^(8*x.width-1) else 0 ≤ n ∧ n < 2^(8*x.width)

theorem reader_width : x.reader.width = x.width := by
  cases x <;> rfl

theorem writer_width (value : Value) : (x.writer value).width = x.width := by
  cases x <;> rfl

theorem unsigned_width : x.unsigned.width = x.width := by
  cases x <;> rfl

theorem width_pos : 0 < x.width := by
  cases x <;> decide

theorem order_order (bs : List UInt8) : x.order (x.order bs) = bs := by
  unfold order
  split
  · exact bs.reverse_reverse
  · rfl

theorem order_length (bs : List UInt8) : (x.order bs).length = bs.length := by
  unfold order
  split
  · exact List.length_reverse
  · rfl

theorem bytes_length (v : ℤ) : (x.bytes v).length = x.width := by
  rw [bytes, order_length, digitsLe_length]

/-- The stores of every integer writer are the digits of the number. -/
theorem writer_bytes (v : ℤ) : (x.writer (.number v)).bytes = .ok (x.bytes v) := by
  have hback {bs ds : List UInt8} (h : bs = ds) : bs.reverse = ds.reverse := congrArg _ h
  cases x with
  | uint8 | int8 => exact congrArg Except.ok (writeUint8_eq v)
  | uint16le => exact congrArg Except.ok (writeUint16le_eq v)
  | uint16be => exact congrArg Except.ok (hback (writeUint16le_eq v))
  | int16le => exact congrArg Except.ok (writeInt16le_eq v)
  | int16be => exact congrArg Except.ok (hback (writeInt16le_eq v))
  | uint32le => exact congrArg Except.ok (writeUint32le_eq v)
  | uint32be => exact congrArg Except.ok (hback (writeUint32le_eq v))
  | int32le => exact congrArg Except.ok (writeInt32le_eq v)
  | int32be => exact congrArg Except.ok (hback (writeInt32le_eq v))

/-- Every integer reader gives the number that its bytes denote. -/
theorem reader_decode {bs : List UInt8} (h : bs.length = x.width) :
    x.reader.decode bs = .number (x.number bs) := by
  cases x with
  | uint8 =>
    obtain ⟨a, rfl⟩ := List.length_eq_one_iff.mp h
    exact readUint8_eq a
  | int8 =>
    obtain ⟨a, rfl⟩ := List.length_eq_one_iff.mp h
    exact readInt8_eq a
  | uint16le =>
    obtain ⟨a, b, rfl⟩ := List.length_eq_two.mp h
    exact readUint16le_eq a b
  -- a big-endian reader is the little-endian one on the reversed bytes
  | uint16be =>
    obtain ⟨a, b, rfl⟩ := List.length_eq_two.mp h
    exact readUint16le_eq b a
  | int16le =>
    obtain ⟨a, b, rfl⟩ := List.length_eq_two.mp h
    exact readInt16le_eq a b
  | int16be =>
    obtain ⟨a, b, rfl⟩ := List.length_eq_two.mp h
    exact readInt16le_eq b a
  | uint32le =>
    obtain ⟨a, b, c, d, rfl⟩ := List.length_eq_four.mp h
    exact readUint32le_eq a b c d
  | uint32be =>
    obtain ⟨a, b, c, d, rfl⟩ := List.length_eq_four.mp h
    exact readUint32le_eq d c b a
  | int32le =>
    obtain ⟨a, b, c, d, rfl⟩ := List.length_eq_four.mp h
    exact readInt32le_eq a b c d
  | int32be =>
    obtain ⟨a, b, c, d, rfl⟩ := List.length_eq_four.mp h
    exact readInt32le_eq d c b a

/-- What is read after a number was written. -/
theorem number_bytes (v : ℤ) :
    x.InRange (x.number (x.bytes v)) ∧ x.number (x.bytes v) ≡ v [ZMOD 2^(8*x.width)] := by
  have hpos : (0 : ℤ) < 2^(8*x.width) := Int.pow_pos (by decide)
  -- the bytes are the digits of v modulo 2^(8 * width)
  have hval : (valueLe (x.order (x.bytes v)) : ℤ) = v % 2^(8*x.width) := by
    rw [bytes, order_order, valueLe_digitsLe]
    push_cast
    rw [Int.toNat_of_nonneg (Int.emod_nonneg _ hpos.ne')]
    exact Int.emod_emod_of_dvd _ (dvd_refl _)
  have hlt := valueLe_lt (x.order (x.bytes v))
  rw [order_length, bytes_length] at hlt
  have hmod : v % 2^(8*x.width) ≡ v [ZMOD 2^(8*x.width)] := Int.mod_modEq _ _
  unfold InRange number
  cases x.signed with
  | true =>
    refine ⟨twosComplement_range x.width_pos hlt, ?_⟩
    refine (twosComplement_modEq x.width _).trans ?_
    rw [hval]
    exact hmod
  | false =>
    refine ⟨⟨Int.natCast_nonneg _, ?_⟩, ?_⟩
    · change (valueLe (x.order (x.bytes v)) : ℤ) < _
      rw [hval]
      exact Int.emod_lt_of_pos _ hpos
    · change (valueLe (x.order (x.bytes v)) : ℤ) ≡ v [ZMOD _]
      rw [hval]
      exact hmod

theorem inRange_unique {n k : ℤ} (hn : x.InRange n) (hk : x.InRange k)
    (h : k ≡ n [ZMOD 2^(8*x.width)]) : k = n := by
  have hpow : (2 : ℤ)^(8*x.width) = 2 * 2^(8*x.width-1) := by
    rw [← pow_succ', Nat.sub_add_cancel (Nat.mul_pos (by decide) x.width_pos)]
  unfold InRange at hn hk
  cases hs : x.signed with
  | true =>
    rw [hs, if_pos rfl] at hn hk
    exact eq_of_modEq (-2^(8*x.width-1)) (by omega) (by omega) h
  | false =>
    rw [hs, if_neg Bool.false_ne_true] at hn hk
    exact eq_of_modEq 0 (by omega) (by omega) h

/-- A number that was read has the bytes it was read from. -/
theorem bytes_number {bs : List UInt8} (h : bs.length = x.width) : x.bytes (x.number bs) = bs := by
  have hlen : (x.order bs).length = x.width := (x.order_length bs).trans h
  have hval : x.number bs % 2^(8*x.width) = (valueLe (x.order bs) : ℤ) := by
    have hlt : (valueLe (x.order bs) : ℤ) < 2^(8*x.width) := by
      have := valueLe_lt (x.order bs)
      rw [hlen] at this
      exact_mod_cast this
    have hself : (valueLe (x.order bs) : ℤ) % 2^(8*x.width) = valueLe (x.order bs) :=
      Int.emod_eq_of_lt (Int.natCast_nonneg _) hlt
    unfold number
    split
    · exact Eq.trans (twosComplement_modEq _ _) hself
    · exact hself
  have hdigits := digitsLe_valueLe (x.order bs)
  rw [hlen] at hdigits
  rw [bytes, hval, Int.toNat_natCast, hdigits, order_order]

/-- The readings of one byte sequence. -/
theorem number_unsigned (bs : List UInt8) :
    x.number bs ≡ x.unsigned.number bs [ZMOD 2^(8*x.width)] := by
  have hu : x.unsigned.number bs = (valueLe (x.order bs) : ℤ) := by
    cases x <;> rfl
  rw [hu]
  unfold number
  split
  · exact twosComplement_modEq _ _
  · exact .refl _

end IntType

end Couv
