import Couv.IntMethods
import Couv.LuaNumber

/-! The floating methods of a Buffer, with Lua numbers as doubles. -/
namespace Couv

open BinFloat

theorem bitsOfBytes_toNat {w : ℕ} (bs : List UInt8) (h : 8*bs.length ≤ w) :
    (bitsOfBytes w bs).toNat = valueLe bs := by
  induction bs with
  | nil => exact BitVec.toNat_zero
  | cons b bs ih =>
    rw [List.length_cons] at h
    have hrest := ih (by omega)
    have hlt : valueLe (b :: bs) < 2^w :=
      (valueLe_lt _).trans_le (Nat.pow_le_pow_right (by decide) (by rw [List.length_cons]; omega))
    have hb : b.toNat < 2^8 := b.toNat_lt
    have hb' : b.toNat < 2^w := hb.trans_le (Nat.pow_le_pow_right (by decide) (by omega))
    have hval : valueLe (b :: bs) = 2^8*valueLe bs + b.toNat := Nat.add_comm _ _
    rw [hval] at hlt ⊢
    unfold bitsOfBytes at hrest ⊢
    rw [List.foldr_cons, BitVec.toNat_or, BitVec.toNat_shiftLeft, hrest, Nat.shiftLeft_eq,
      BitVec.toNat_setWidth, UInt8.toNat_toBitVec, Nat.mod_eq_of_lt hb', Nat.mul_comm,
      Nat.mod_eq_of_lt (by omega), ← Nat.two_pow_add_eq_or_of_lt hb]

theorem bytesOfBits_eq (n : ℕ) {w : ℕ} (x : BitVec w) : bytesOfBits n x = digitsLe n x.toNat := by
  have hdigits (k : ℕ) : digitsLe n k = (List.range n).map fun i => UInt8.ofNat (k / 2^(8*i)) := by
    induction n generalizing k with
    | zero => rfl
    | succ n ih =>
      rw [digitsLe, ih, List.range_succ_eq_map, List.map_cons, List.map_map]
      congr 1
      · rw [Nat.mul_zero, pow_zero, Nat.div_one]
      · apply List.map_congr_left
        intro i _
        rw [Function.comp_apply, Nat.div_div_eq_div_mul, Nat.succ_eq_add_one, two_pow_bytes]
  rw [hdigits, bytesOfBits]
  apply List.map_congr_left
  intro i _
  apply UInt8.toNat_inj.mp
  rw [UInt8.toNat_ofBitVec, BitVec.toNat_setWidth, BitVec.toNat_ushiftRight,
    Nat.shiftRight_eq_div_pow, UInt8.toNat_ofNat']

/-- The object representation of a value gives the value back, -/
theorem bitsOfBytes_bytesOfBits (n : ℕ) (x : BitVec (8*n)) :
    bitsOfBytes (8*n) (bytesOfBits n x) = x := by
  apply BitVec.eq_of_toNat_eq
  rw [bytesOfBits_eq, bitsOfBytes_toNat _ (by rw [digitsLe_length]), valueLe_digitsLe,
    Nat.mod_eq_of_lt x.isLt]

/-- and the bytes of a value are its object representation. -/
theorem bytesOfBits_bitsOfBytes {n w : ℕ} {bs : List UInt8} (h : bs.length = n) (hw : 8*n ≤ w) :
    bytesOfBits n (bitsOfBytes w bs) = bs := by
  rw [bytesOfBits_eq, bitsOfBytes_toNat _ (by rw [h]; exact hw), ← h, digitsLe_valueLe]

/-- The floating types that a Buffer reads and writes. -/
inductive FloatType
  | floatLe | floatBe | doubleLe | doubleBe
  deriving DecidableEq, Repr

namespace FloatType

def reader : FloatType → Reader
  | floatLe => .floatLe
  | floatBe => .floatBe
  | doubleLe => .doubleLe
  | doubleBe => .doubleBe

/-- The writer of a type with what `luaL_checknumber` gives for the third argument. -/
def writer (value : Except LuaError (BitVec 64)) : FloatType → Writer
  | floatLe => .floatLe (value.map narrow)
  | floatBe => .floatBe (value.map narrow)
  | doubleLe => .doubleLe value
  | doubleBe => .doubleBe value

variable (x : FloatType)

/-- The writing method on its three arguments. -/
def write (strtod : LuaString → Option (BitVec 64)) (self pos value : Value) :
    BufM (List Value) :=
  (x.writer (luaLChecknumber strtod 3 value)).method self pos

/-- What is read of a double that was written. -/
def pushed (d : BitVec 64) : Value :=
  match x with
  | floatLe | floatBe => .float (narrow d)
  | doubleLe | doubleBe => .double d

/-- The bytes that are stored for a double. -/
def bytes (d : BitVec 64) : List UInt8 :=
  match x with
  | floatLe => writeFloatLe (narrow d)
  | floatBe => writeFloatBe (narrow d)
  | doubleLe => writeDoubleLe d
  | doubleBe => writeDoubleBe d

theorem writer_width (value : Except LuaError (BitVec 64)) :
    (x.writer value).width = x.reader.width := by
  cases x <;> rfl

theorem writer_bytes (d : BitVec 64) : (x.writer (.ok d)).bytes = .ok (x.bytes d) := by
  cases x <;> rfl

theorem bytes_length (d : BitVec 64) : (x.bytes d).length = x.reader.width :=
  ((x.writer (.ok d)).bytes_length (x.writer_bytes d)).trans (x.writer_width _)

theorem decode_bytes (d : BitVec 64) : x.reader.decode (x.bytes d) = x.pushed d := by
  cases x with
  | floatLe => exact congrArg Value.float (bitsOfBytes_bytesOfBits 4 (narrow d))
  | floatBe =>
    -- reversed twice
    exact congrArg Value.float ((congrArg (bitsOfBytes 32) (List.reverse_reverse _)).trans
      (bitsOfBytes_bytesOfBits 4 (narrow d)))
  | doubleLe => exact congrArg Value.double (bitsOfBytes_bytesOfBits 8 d)
  | doubleBe =>
    exact congrArg Value.double ((congrArg (bitsOfBytes 64) (List.reverse_reverse _)).trans
      (bitsOfBytes_bytesOfBits 8 d))

/-- A NaN that is read and written comes out quiet; everything else as it was. -/
def settled (v : Value) : Value :=
  match v with
  | .float bits => .float (quieted bits)
  | v => v

/-- What is read is a number, and writing it stores what was read. -/
theorem bytes_decode (strtod : LuaString → Option (BitVec 64)) {bs : List UInt8}
    (h : bs.length = x.reader.width) : ∃ d, luaTodouble strtod (x.reader.decode bs) = some d ∧
      x.pushed d = settled (x.reader.decode bs) ∧
        (x.pushed d = x.reader.decode bs → x.bytes d = bs) := by
  have hrev : bs.reverse.length = x.reader.width := by rw [List.length_reverse, h]
  cases x with
  | floatLe =>
    refine ⟨_, rfl, congrArg Value.float (narrow_widen _), fun hsame => ?_⟩
    exact (congrArg (bytesOfBits 4) (Value.float.inj hsame)).trans
      (bytesOfBits_bitsOfBytes h (by decide))
  | floatBe =>
    refine ⟨_, rfl, congrArg Value.float (narrow_widen _), fun hsame => ?_⟩
    have hbytes := (congrArg (bytesOfBits 4) (Value.float.inj hsame)).trans
      (bytesOfBits_bitsOfBytes hrev (by decide))
    exact (congrArg List.reverse hbytes).trans bs.reverse_reverse
  | doubleLe => exact ⟨_, rfl, rfl, fun _ => bytesOfBits_bitsOfBytes h (by decide)⟩
  | doubleBe =>
    refine ⟨_, rfl, rfl, fun _ => ?_⟩
    exact (congrArg List.reverse (bytesOfBits_bitsOfBytes hrev (by decide))).trans
      bs.reverse_reverse

end FloatType

/-- The floating methods of the type `x` at the position `p` of the Buffer `b`. -/
structure FloatCodec (strtod : LuaString → Option (BitVec 64)) (m : Mem) (b : ℕ) (buf : CouvBuf)
    (x : FloatType) (p : ℤ) : Prop where
  /-- what is written can be read, as precisely as the type holds it -/
  write : ∀ v d, luaLChecknumber strtod 3 v = .ok d →
    ∃ m', x.write strtod (.buffer b) (.number p) v m = .ok [] m' ∧ m.Stores buf p (x.bytes d) m' ∧
      x.reader.method (.buffer b) (.number p) m' = .ok [x.pushed d] m'
  reject : ∀ v e, luaLChecknumber strtod 3 v = .error e →
    x.write strtod (.buffer b) (.number p) v m = .error (.raise e) m
  /-- what is read can be written, in place of itself but for a NaN that is not quiet -/
  writeBack : ∀ v, x.reader.method (.buffer b) (.number p) m = .ok [v] m →
    ∃ m', x.write strtod (.buffer b) (.number p) v m = .ok [] m' ∧
      x.reader.method (.buffer b) (.number p) m' = .ok [FloatType.settled v] m' ∧
        (FloatType.settled v = v → m' = m)

section
variable {m : Mem} {b : ℕ} {buf : CouvBuf} {p : ℤ} (hb : m.bufs.get b = some buf)
  (ht : m.Triple buf) (h1 : 1 ≤ p)
include hb ht h1

theorem floatCodec (strtod : LuaString → Option (BitVec 64)) (x : FloatType)
    (hn : p ≤ buf.len-x.reader.width+1) : FloatCodec strtod m b buf x p := by
  -- what one store does, and what the reader then makes of it
  have hwrite {v : Value} {d : BitVec 64} (hd : luaLChecknumber strtod 3 v = .ok d) :
      ∃ q, buf.at (p-1) = some q ∧
        x.write strtod (.buffer b) (.number p) v m = .ok [] (m.store q (x.bytes d)) ∧
          m.Stores buf p (x.bytes d) (m.store q (x.bytes d)) ∧
            x.reader.method (.buffer b) (.number p) (m.store q (x.bytes d)) =
              .ok [x.pushed d] (m.store q (x.bytes d)) := by
    obtain ⟨q, hq, hrun, hst⟩ := writer_run hb ht h1 (x.writer (.ok d))
      (by rw [x.writer_width]; exact hn) (x.writer_bytes d)
    have hshown := hst.shown
    have hr := reader_run (by rw [hst.same.bufs]; exact hb) (ht.same hst.same) h1 x.reader hn
    rw [x.bytes_length] at hshown
    rw [hshown, x.decode_bytes] at hr
    refine ⟨q, hq, ?_, hst, hr⟩
    rw [FloatType.write, hd]
    exact hrun
  refine ⟨?_, ?_, ?_⟩
  · intro v d hd
    obtain ⟨q, -, hrun, hst, hr⟩ := hwrite hd
    exact ⟨_, hrun, hst, hr⟩
  · intro v e he
    obtain ⟨hpos, -⟩ := position_ok ht h1 hn x.reader.width_pos.1
    have hbytes : (x.writer (.error e)).bytes = .error e := by cases x <;> rfl
    rw [FloatType.write, he, Writer.method_eq, hbytes]
    exact (run_bind_ok (checkbuf_ok hb 1)).trans (BufM.bind_check_ok m hpos)
  · intro v hv
    have hlen := Mem.shown_length ht h1 hn
    obtain rfl : x.reader.decode (m.shown buf p x.reader.width) = v :=
      (List.cons.inj (EStateM.Result.ok.inj ((reader_run hb ht h1 x.reader hn).symm.trans hv)).1).1
    -- the number that was read is written back where it was
    obtain ⟨d, hd, hpushed, hsame⟩ := x.bytes_decode strtod hlen
    obtain ⟨q, hq, hrun, -, hr⟩ := hwrite (v := x.reader.decode (m.shown buf p x.reader.width))
      (d := d) (by rw [luaLChecknumber, hd])
    refine ⟨_, hrun, hpushed ▸ hr, ?_⟩
    intro hquiet
    have hshown : m.shown buf p x.reader.width = m.bytes q x.reader.width := by
      simp only [Mem.shown, hq]
    rw [hsame (hpushed.trans hquiet), hshown, Mem.store_bytes]

end

/-- Every position of a Buffer that has room for a floating type holds it, and the float that
is stored for a double is the nearest one. -/
theorem float_methods (strtod : LuaString → Option (BitVec 64)) {m : Mem} {b : ℕ} {buf : CouvBuf}
    (hb : m.bufs.get b = some buf) (ht : m.Triple buf) :
    (∀ (x : FloatType) (p : ℤ), 1 ≤ p → p ≤ buf.len-x.reader.width+1 →
      FloatCodec strtod m b buf x p) ∧ ∀ d, Rounds d (narrow d) :=
  ⟨fun x _ h1 hn => floatCodec hb ht h1 strtod x hn, rounds_narrow⟩

theorem float_methods_fourBytes :
    FloatCodec (fun _ => none) fourBytes 0 ⟨some 0, some ⟨0, 0⟩, 4⟩ .floatBe 1 ∧
      FloatType.floatBe.bytes (doubleOfInt (-3)) = [0xC0, 0x40, 0, 0] := by
  have hmethods := @float_methods (fun _ => none) fourBytes 0 ⟨some 0, some ⟨0, 0⟩, 4⟩ rfl
    ⟨0, ⟨1, 4, fun _ => 0⟩, 0, rfl, by decide, by decide, rfl, rfl⟩
  exact ⟨hmethods.1 .floatBe 1 (by decide) (by decide), by decide +kernel⟩

/-! What the readers push is kept as a double. -/

theorem IntType.number_natAbs (x : IntType) {bs : List UInt8} (h : bs.length = x.width) :
    (x.number bs).natAbs ≤ 2^53 := by
  have hrange : x.InRange (x.number bs) := by
    have hnum := (x.number_bytes (x.number bs)).1
    rwa [x.bytes_number h] at hnum
  cases x <;>
    simp only [InRange, signed, width, if_true, if_false, Bool.false_eq_true] at hrange <;>
    omega

/-- What a reader pushes can be kept as a double. -/
structure KeptAs (strtod : LuaString → Option (BitVec 64)) (v : Value) (d : BitVec 64) : Prop where
  pushed : luaTodouble strtod v = some d
  tonumber : luaTonumber (.double d) = luaTonumber v
  intBytes : ∀ x : IntType, (x.writer (.double d)).bytes = (x.writer v).bytes
  floatBytes : ∀ x : FloatType, (x.writer (luaLChecknumber strtod 3 (.double d))).bytes =
    (x.writer (luaLChecknumber strtod 3 v)).bytes

theorem keptAs {strtod : LuaString → Option (BitVec 64)} {v : Value} {d : BitVec 64}
    (h : luaTodouble strtod v = some d) (hstr : ∀ s, v ≠ .string s)
    (hint : ∀ n, v = .number n → n.natAbs ≤ 2^53) : KeptAs strtod v d := by
  have hnum := luaTonumber_luaTodouble h hstr hint
  have hchecknumber : luaLChecknumber strtod 3 v = .ok d := by rw [luaLChecknumber, h]
  refine ⟨h, hnum.symm, ?_, ?_⟩
  · intro x
    have hint : luaLCheckint 3 (.double d) = luaLCheckint 3 v := by
      rw [luaLCheckint, luaLCheckint, hnum]
    have hinteger : luaLCheckinteger 3 (.double d) = luaLCheckinteger 3 v := by
      rw [luaLCheckinteger, luaLCheckinteger, hnum]
    cases x <;> simp only [IntType.writer, Writer.bytes, hint, hinteger]
  · intro x
    rw [hchecknumber]
    rfl

/-- What any reader gives is kept as a double without loss: every argument check, and every
writer, makes the same of the two. -/
theorem reader_keptAs (strtod : LuaString → Option (BitVec 64)) (r : Reader) {bs : List UInt8}
    (h : bs.length = r.width) : ∃ d, KeptAs strtod (r.decode bs) d := by
  have hint (x : IntType) (hx : bs.length = x.width) :
      ∃ d, KeptAs strtod (x.reader.decode bs) d := by
    rw [x.reader_decode hx]
    refine ⟨_, keptAs rfl (fun s hs => by cases hs) ?_⟩
    intro n hn
    rw [← Value.number.inj hn]
    exact x.number_natAbs hx
  have hfloat (v : Value) {d : BitVec 64} (hd : luaTodouble strtod v = some d)
      (hv : (∃ x, v = .float x) ∨ ∃ x, v = .double x) : ∃ d, KeptAs strtod v d := by
    obtain ⟨x, rfl⟩ | ⟨x, rfl⟩ := hv <;>
      exact ⟨d, keptAs hd (fun s hs => by cases hs) (fun n hn => by cases hn)⟩
  cases r with
  | uint8 => exact hint .uint8 h
  | uint16le => exact hint .uint16le h
  | uint16be => exact hint .uint16be h
  | uint32le => exact hint .uint32le h
  | uint32be => exact hint .uint32be h
  | int8 => exact hint .int8 h
  | int16le => exact hint .int16le h
  | int16be => exact hint .int16be h
  | int32le => exact hint .int32le h
  | int32be => exact hint .int32be h
  | floatLe | floatBe => exact hfloat _ rfl (.inl ⟨_, rfl⟩)
  | doubleLe | doubleBe => exact hfloat _ rfl (.inr ⟨_, rfl⟩)

theorem reader_keptAs_uint32be : readUint32be [0xFF, 0xFF, 0xFF, 0xFE] = .number 4294967294 ∧
    ∃ d, KeptAs (fun _ => none) (readUint32be [0xFF, 0xFF, 0xFF, 0xFE]) d :=
  ⟨rfl, reader_keptAs (fun _ => none) .uint32be rfl⟩

end Couv
