import Couv.Numeral
import Mathlib.Algebra.Ring.Int.Defs
import Mathlib.Algebra.Ring.Nat

/-! Lua values as the C functions see them, and the luaL argument checks. -/
namespace Couv

/-- A Lua string is a byte string. -/
abbrev LuaString := List UInt8

/-- The conversion of a number to a C `int`. -/
def cInt (x : ℤ) : ℤ := x.bmod (2^32)

def cIntMin : ℤ := -2^31
def cIntMax : ℤ := 2^31-1

/-- Numbers a C `int` holds. -/
def InCInt (x : ℤ) : Prop := cIntMin ≤ x ∧ x ≤ cIntMax

theorem cInt_eq_self {x : ℤ} (h : InCInt x) : cInt x = x := by
  obtain ⟨h1, h2⟩ := h
  unfold cIntMin at h1
  unfold cIntMax at h2
  unfold cInt
  rw [Int.bmod_eq_of_le] <;> omega

theorem cInt_mem (x : ℤ) : InCInt (cInt x) := by
  unfold InCInt cIntMin cIntMax cInt
  have h1 := Int.le_bmod (x := x) (m := 2^32) (by decide)
  have h2 := Int.bmod_lt (x := x) (m := 2^32) (by decide)
  omega

/-- The two classes of address userdata. -/
inductive SockClass
  | v4
  | v6
  deriving DecidableEq, Repr

/-- A SockAddr userdata: its metatable and its storage. -/
structure SockaddrUd where
  cls : SockClass
  mem : List UInt8
  deriving DecidableEq, Repr

/-- One entry of the table that getaddrinfo returns. -/
structure Addrinfo where
  family : ℤ
  socktype : ℤ
  protocol : ℤ
  addr : SockaddrUd
  deriving DecidableEq, Repr

/-- A Lua value. A number is given by its integer value, or by the bit pattern of the
C `float` or `double` it was read from. `errname` is the string that `couvL_uv_errname`
gives for a code, as a result: its text is libuv's, and an argument that is such a name is
the `string` of that text. -/
inductive Value
  | nil
  | boolean (b : Bool)
  | number (n : ℤ)
  | float (bits : BitVec 32)
  | double (bits : BitVec 64)
  | string (s : LuaString)
  | errname (code : ℤ)
  | buffer (b : ℕ)
  | sockaddr (a : SockaddrUd)
  | strings (xs : List LuaString)
  | stat (buf : List UInt8)
  | addrinfos (xs : List Addrinfo)
  deriving DecidableEq, Repr

/-- Everything but nil and false counts as true. -/
def Value.truthy : Value → Bool
  | .nil => false
  | .boolean b => b
  | _ => true

/-- What luaL_error and luaL_argerror raise. -/
inductive LuaError
  | argError (arg : ℕ) (msg : String)
  | error (msg : String)
  deriving DecidableEq, Repr

/-- The integer part of the IEEE 754 number with `m` fraction bits; an infinity or a NaN
gives the least `lua_Integer`, as the machine conversion does. -/
def truncBits (m bias : ℕ) {w : ℕ} (bits : BitVec w) : ℤ :=
  let frac := bits.toNat % 2^m
  let expo := bits.toNat / 2^m % (2*bias+2)
  if expo = 2*bias+1 then -2^63
  else if expo < bias then 0
  else
    let mag : ℕ := (2^m+frac) * 2^(expo-bias) / 2^m
    if bits.msb then -mag else mag

/-- The value of a Lua number, towards zero. -/
def Value.luaNumber : Value → Option ℤ
  | .number n => some n
  | .float bits => some (truncBits 23 127 bits)
  | .double bits => some (truncBits 52 1023 bits)
  | _ => none

/-! Numerals in strings. -/

def isSpace (c : UInt8) : Bool := c = 32 || (9 ≤ c && c ≤ 13)

/-- The integer part of the double nearest to `p/q`. -/
def nearestTrunc (p q : ℕ) : ℕ :=
  -- the exponent of doubles ends lower, but below one half all of them have the part 0
  BinFloat.magnitude 52 (BinFloat.nearest 52 (p*2^53) q) / 2^53

/-- The integer part of `m * base^e`, as a double. -/
def scaledTrunc (m base : ℕ) (e : ℤ) : ℕ :=
  if 0 ≤ e then nearestTrunc (m * base^e.toNat) 1 else nearestTrunc m (base^(-e).toNat)

/-- The optional exponent of a numeral, behind the letter `mark` or its capital; nothing but
white space may follow it. -/
def strExponent (mark : UInt8) (s : LuaString) : Option ℤ :=
  let tail (s : LuaString) : Option ℤ :=
    let ds := s.takeWhile isDigit
    if ds ≠ [] ∧ (s.dropWhile isDigit).all isSpace then some (digitsValue 10 ds) else none
  match s with
  | c :: s =>
    if c = mark ∨ c + 32 = mark then
      match s with
      | 45 :: s => (tail s).map (-·)
      | 43 :: s => tail s
      | s => tail s
    else if (c :: s).all isSpace then some 0 else none
  | [] => some 0

/-- Digits with an optional fraction and an optional exponent. The exponent counts factors of
`expBase`, of which a digit of the fraction takes `perDigit`. -/
def strDigits (base : ℕ) (mark : UInt8) (expBase perDigit : ℕ) (s : LuaString) : Option ℕ :=
  let digit (c : UInt8) : Bool := (hexDigit c).any (· < base)
  let whole := s.takeWhile digit
  let rest := s.dropWhile digit
  let (frac, rest) := match rest with
    | 46 :: t => (t.takeWhile digit, t.dropWhile digit)
    | t => ([], t)
  if whole ++ frac = [] then none
  else (strExponent mark rest).map fun e =>
    scaledTrunc (digitsValue base (whole ++ frac)) expBase (e - perDigit*frac.length)

/-- A decimal numeral, whose exponent is one of ten, or a hexadecimal one, with one of two. -/
def strUnsigned (s : LuaString) : Option ℕ :=
  match s with
  | 48 :: 120 :: s | 48 :: 88 :: s => strDigits 16 112 2 4 s
  | s => strDigits 10 101 10 1 s

/-- The integer part of the number that Lua converts a numeral to, between white space. -/
def luaStr2number (s : LuaString) : Option ℤ :=
  match s.dropWhile isSpace with
  | 45 :: s => (strUnsigned s).map (fun n : ℕ => -(n : ℤ))
  | 43 :: s => (strUnsigned s).map (fun n : ℕ => (n : ℤ))
  | s => (strUnsigned s).map (fun n : ℕ => (n : ℤ))

/-! Numerals of numbers. -/

/-- The numeral of a fraction with a sign. -/
def signedNumeral (neg : Bool) (p q : ℕ) : LuaString :=
  if neg then 45 :: formatG 14 p q else formatG 14 p q

/-- The numeral of the IEEE 754 number with `m` fraction bits. -/
def bitsNumeral (m bias : ℕ) {w : ℕ} (bits : BitVec w) : LuaString :=
  let frac := bits.toNat % 2^m
  let expo := bits.toNat / 2^m % (2*bias+2)
  if expo = 2*bias+1 then
    let name : LuaString := if frac = 0 then [105, 110, 102] else [110, 97, 110]
    if bits.msb then 45 :: name else name
  else
    -- a subnormal number has the exponent of the least normal one, without its leading bit
    signedNumeral bits.msb ((if expo = 0 then frac else 2^m+frac) * 2^(max expo 1)) (2^(bias+m))

/-- `lua_tolstring`, which converts a number with "%.14g" and puts the string in its place. -/
def luaTolstring : Value → Option LuaString
  | .string s => some s
  | .number n => some (signedNumeral (n < 0) n.natAbs 1)
  | .float bits => some (bitsNumeral 23 127 bits)
  | .double bits => some (bitsNumeral 52 1023 bits)
  | _ => none

/-- The C string in a Lua string ends at the first NUL. -/
def cStr (s : LuaString) : LuaString := s.takeWhile (· ≠ 0)

def luaTonumber : Value → Option ℤ
  | .string s => luaStr2number s
  | v => v.luaNumber

def luaLCheckint (arg : ℕ) (v : Value) : Except LuaError ℤ :=
  match luaTonumber v with
  | some n => .ok (cInt n)
  | none => .error (.argError arg "number expected")

/-- `luaL_optint`: an absent argument is nil here. -/
def luaLOptint (arg : ℕ) (v : Value) (d : ℤ) : Except LuaError ℤ :=
  match v with
  | .nil => .ok (cInt d)
  | v => luaLCheckint arg v

def luaLCheckstring (arg : ℕ) (v : Value) : Except LuaError LuaString :=
  match luaTolstring v with
  | some s => .ok s
  | none => .error (.argError arg "string expected")

/-- `luaL_checkinteger`, whose callers convert the 64-bit result themselves. -/
def luaLCheckinteger (arg : ℕ) (v : Value) : Except LuaError ℤ :=
  match luaTonumber v with
  | some n => .ok n
  | none => .error (.argError arg "number expected")

def luaLOptlong (arg : ℕ) (v : Value) (d : ℤ) : Except LuaError ℤ :=
  match v with
  | .nil => .ok d
  | v => luaLCheckinteger arg v

/-- `couv_argcheckindex`, on bounds that have been converted to int. -/
def couvArgcheckindex (arg : ℕ) (index min max : ℤ) : Except LuaError Unit :=
  if min ≤ index ∧ index ≤ max then .ok () else .error (.argError arg "index out of range")

theorem luaLCheckint_mem {arg : ℕ} {v : Value} {x : ℤ} (h : luaLCheckint arg v = .ok x) :
    InCInt x := by
  unfold luaLCheckint at h
  split at h
  · next n _ =>
    obtain rfl : cInt n = x := Except.ok.inj h
    exact cInt_mem n
  · cases h

/-- A number in range is its own int. -/
theorem luaLCheckint_number (arg : ℕ) {n : ℤ} (h : InCInt n) :
    luaLCheckint arg (.number n) = .ok n := by
  simp only [luaLCheckint, luaTonumber, Value.luaNumber, cInt_eq_self h]

/-- A double holds every integer below `2^53`. -/
theorem nearestTrunc_one {n : ℕ} (h : n < 2^53) : nearestTrunc n 1 = n := by
  obtain ⟨k, hk⟩ := BinFloat.exists_magnitude (p := 52) (s := 53) h
  rw [nearestTrunc, BinFloat.nearest_eq (by decide) (by decide) (by rw [hk, Nat.one_mul]), hk,
    Nat.mul_div_cancel n (by decide)]

/-- A row of digits is the numeral of the number that they denote. -/
theorem strUnsigned_digits {s : LuaString} (hne : s ≠ []) (hs : ∀ c ∈ s, isDigit c = true)
    (hlt : digitsValue 10 s < 2^53) : strUnsigned s = some (digitsValue 10 s) := by
  have hdigit : ∀ c ∈ s, (hexDigit c).any (· < 10) = true := by
    intro c hc
    have hc' := hs c hc
    have hlt : c.toNat ≤ 57 := by
      simp only [isDigit, Bool.and_eq_true, decide_eq_true_eq] at hc'
      exact hc'.2
    rw [hexDigit, if_pos hc', Option.any_some]
    exact decide_eq_true (by omega)
  unfold strUnsigned
  split
  · exact absurd (hs 120 (by simp)) (by decide)
  · exact absurd (hs 88 (by simp)) (by decide)
  · simp only [strDigits, List.takeWhile_eq_self_iff.mpr hdigit,
      List.dropWhile_eq_nil_iff.mpr hdigit, List.append_nil, if_neg hne, strExponent,
      Option.map_some, List.length_nil]
    have hzero : (0 : ℤ) - (1 : ℕ) * (0 : ℕ) = 0 := by norm_num
    rw [hzero, scaledTrunc, if_pos le_rfl, Int.toNat_zero, pow_zero, Nat.mul_one,
      nearestTrunc_one hlt]

/-- The numeral of an integer of at most 14 digits is a numeral of that integer. -/
theorem luaStr2number_signedNumeral {n : ℤ} (h : n.natAbs < 10^14) :
    luaStr2number (signedNumeral (n < 0) n.natAbs 1) = some n := by
  have hdigits : ∀ c ∈ numeral 10 n.natAbs, isDigit c = true :=
    fun c hc => isDigit_of_mem_numeral (by decide) le_rfl hc
  have hvalue := digitsValue_numeral (b := 10) (by decide) le_rfl n.natAbs
  rw [signedNumeral, formatG_nat h]
  -- the sign, then the first digit, decide which branch reads the numeral
  obtain ⟨c, s, hs⟩ : ∃ c s, numeral 10 n.natAbs = c :: s :=
    List.exists_cons_of_length_pos (by rw [length_numeral (by decide)]; exact Nat.succ_pos _)
  have hunsigned := strUnsigned_digits (hs ▸ List.cons_ne_nil c s) hdigits
    (by rw [hvalue]; exact h.trans (by decide))
  rw [hvalue] at hunsigned
  by_cases hneg : n < 0
  · rw [if_pos (decide_eq_true hneg)]
    change (strUnsigned (numeral 10 n.natAbs)).map _ = _
    rw [hunsigned, Option.map_some]
    exact congrArg some (by omega)
  · -- a digit is neither white space nor a sign
    have hc : isSpace c = false ∧ c ≠ 45 ∧ c ≠ 43 := by
      obtain ⟨d, hd, rfl⟩ := mem_numeral (b := 10) (by decide) (hs ▸ List.mem_cons_self)
      clear hs
      interval_cases d <;> decide
    rw [if_neg (by simpa using hneg), luaStr2number, hs, List.dropWhile_cons, hc.1,
      if_neg Bool.false_ne_true]
    split
    · next heq => exact absurd (List.cons.inj heq).1 hc.2.1
    · next heq => exact absurd (List.cons.inj heq).1 hc.2.2
    · rw [← hs, hunsigned, Option.map_some]
      exact congrArg some (by omega)

theorem luaLOptint_mem {arg : ℕ} {v : Value} {d x : ℤ} (h : luaLOptint arg v d = .ok x) :
    InCInt x := by
  unfold luaLOptint at h
  split at h
  · obtain rfl : cInt d = x := Except.ok.inj h
    exact cInt_mem d
  · exact luaLCheckint_mem h

theorem couvArgcheckindex_ok {arg : ℕ} {index min max : ℤ} {u : Unit}
    (h : couvArgcheckindex arg index min max = .ok u) : min ≤ index ∧ index ≤ max := by
  unfold couvArgcheckindex at h
  split at h
  · assumption
  · cases h

end Couv
