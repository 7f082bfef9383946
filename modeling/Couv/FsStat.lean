import Couv.Fs
import Mathlib.Data.List.TakeWhile
import Mathlib.Data.Nat.Digits.Lemmas

/-! fs.c: the methods of a stat, and its permission string given back to the calls that take a
mode. -/
namespace Couv

/-- `uv_statbuf_t`, of which these methods read one member. -/
structure Statbuf where
  stMode : BitVec 32
  deriving DecidableEq, Repr

/-! The bits of st_mode that tell the type. -/

def sIfmt : BitVec 32 := 0xF000#32
def sIfreg : BitVec 32 := 0x8000#32
def sIfdir : BitVec 32 := 0x4000#32
def sIfchr : BitVec 32 := 0x2000#32
def sIfblk : BitVec 32 := 0x6000#32
def sIfifo : BitVec 32 := 0x1000#32
def sIflnk : BitVec 32 := 0xA000#32
def sIfsock : BitVec 32 := 0xC000#32

/-- The digits of `%o`. -/
def octal (n : ℕ) : LuaString := numeral 8 n

namespace Statbuf
variable (s : Statbuf)

/-- `S_ISREG` and its siblings -/
def isType (fmt : BitVec 32) : Bool := s.stMode &&& sIfmt = fmt

def fsStatIsFile : Bool := s.isType sIfreg
def fsStatIsDirectory : Bool := s.isType sIfdir
def fsStatIsCharacterDevice : Bool := s.isType sIfchr
def fsStatIsBlockDevice : Bool := s.isType sIfblk
def fsStatIsFifo : Bool := s.isType sIfifo
def fsStatIsSymbolicLink : Bool := s.isType sIflnk
def fsStatIsSocket : Bool := s.isType sIfsock

/-- `s->st_mode & ~S_IFMT` -/
def permissionBits : BitVec 32 := s.stMode &&& ~~~sIfmt

/-- `sprintf(permission_buf, "0%o", ..)` -/
def fsStatPermission : LuaString := 48 :: octal s.permissionBits.toNat

end Statbuf

/-- `char permission_buf[16]` -/
def permissionBufSize : ℕ := 16

/-! Octal numerals. -/

theorem octal_isOctal (n : ℕ) : ∀ c ∈ octal n, isOctal c = true := by
  intro c hc
  obtain ⟨d, hd, rfl⟩ := mem_numeral (by decide) hc
  clear hc
  interval_cases d <;> rfl

theorem strtoul8_octal {n : ℕ} (h : n < 2^64) : strtoul8 (48 :: octal n) = n := by
  have hall : ∀ c ∈ 48 :: octal n, isOctal c = true :=
    List.forall_mem_cons.mpr ⟨rfl, octal_isOctal n⟩
  have hvalue : digitsValue 8 (48 :: octal n) = n :=
    digitsValue_numeral (b := 8) (by decide) (by decide) n
  have hspace : (48 :: octal n).dropWhile isSpace = 48 :: octal n := rfl
  unfold strtoul8
  rw [hspace]
  -- the leading 0 is neither white space nor a sign
  change min (digitsValue 8 ((48 :: octal n).takeWhile isOctal)) (2^64-1) = n
  rw [List.takeWhile_eq_self_iff.mpr hall, hvalue]
  omega

/-! The calls that take a mode. -/

/-- The mode that a call hands to libuv. -/
def UvFsCall.mode : UvFsCall → Option ℤ
  | .chmod _ mode | .fchmod _ mode | .mkdir _ mode | .open _ _ mode => some mode
  | _ => none

/-- The argument that `fs_checkmode` or `fs_optmode` converts. -/
def FsFn.modeArg : FsFn → Option ℕ
  | .chmod | .fchmod | .mkdir => some 2
  | .open => some 3
  | _ => none

section
variable {mode : ℤ} {str : LuaString}

theorem fsOptmode_string (h : ∀ arg, fsCheckmode arg (.value (.string str)) = .ok mode)
    (arg : ℕ) (d : ℤ) : fsOptmode arg (.value (.string str)) d = .ok mode := h arg

/-- Every call takes the mode that its argument stands for. -/
theorem FsFn.branches_mode (h : ∀ arg, fsCheckmode arg (.value (.string str)) = .ok mode)
    {fn : FsFn} {i : ℕ} (hi : fn.modeArg = some i) {m : Mem} {args : List LuaArg}
    (harg : argAt args i = .value (.string str)) {b : FsBranches}
    (hb : fn.branches m args = .ok b) : b.sync.mode = some mode ∧ b.async.mode = some mode := by
  have hraise {x : Except LuaError FsBranches} (hx : x.mapError Failure.raise = .ok b) :
      x = .ok b := by
    cases x with
    | error e => cases hx
    | ok b' => exact congrArg Except.ok (Except.ok.inj hx)
  cases fn with
  | chmod | fchmod =>
    obtain rfl := Option.some.inj hi
    obtain ⟨_, -, hb⟩ := bind_eq_ok (hraise hb)
    rw [harg, h] at hb
    obtain rfl := Except.ok.inj hb
    exact ⟨rfl, rfl⟩
  | mkdir =>
    obtain rfl := Option.some.inj hi
    obtain ⟨_, -, hb⟩ := bind_eq_ok (hraise hb)
    rw [harg, fsOptmode_string h] at hb
    obtain rfl := Except.ok.inj hb
    exact ⟨rfl, rfl⟩
  | «open» =>
    obtain rfl := Option.some.inj hi
    obtain ⟨_, -, hb⟩ := bind_eq_ok (hraise hb)
    obtain ⟨_, -, hb⟩ := bind_eq_ok hb
    rw [harg, fsOptmode_string h] at hb
    obtain rfl := Except.ok.inj hb
    exact ⟨rfl, rfl⟩
  | _ => cases hi

end

namespace Statbuf
variable (s : Statbuf)

theorem fsCheckmode_permission (arg : ℕ) :
    fsCheckmode arg (.value (.string s.fsStatPermission)) = .ok s.permissionBits.toInt := by
  have hlt : s.permissionBits.toNat < 2^64 := s.permissionBits.isLt.trans (by decide)
  have hint : cInt s.permissionBits.toNat = s.permissionBits.toInt :=
    (BitVec.toInt_eq_toNat_bmod _).symm
  rw [fsCheckmode, fsStatPermission, strtoul8_octal hlt, hint]

theorem fsStatPermission_length : s.fsStatPermission.length ≤ 12 := by
  have hlt : s.permissionBits.toNat < 8^11 := s.permissionBits.isLt.trans (by decide)
  have hlog : Nat.log 8 s.permissionBits.toNat < 11 := by
    by_cases hzero : s.permissionBits.toNat = 0
    · rw [hzero, Nat.log_zero_right]
      decide
    · exact Nat.log_lt_of_lt_pow hzero hlt
  rw [fsStatPermission, List.length_cons, octal, length_numeral (by decide)]
  omega

/-- A type and the permission bits make up the mode. -/
theorem isType_iff {fmt : BitVec 32} (h : fmt &&& sIfmt = fmt) :
    s.isType fmt = true ↔ s.stMode = fmt ||| s.permissionBits := by
  have hsplit : s.stMode = (s.stMode &&& sIfmt) ||| s.permissionBits := by
    rw [permissionBits, ← BitVec.and_or_distrib_left, BitVec.or_not_self, BitVec.and_allOnes]
  have htype : (fmt ||| s.permissionBits) &&& sIfmt = fmt := by
    rw [BitVec.and_or_distrib_right, h, permissionBits, BitVec.and_assoc, BitVec.not_and_self,
      BitVec.ofNat_eq_ofNat, BitVec.and_zero, BitVec.or_zero]
  unfold isType
  rw [decide_eq_true_eq]
  constructor
  · intro hmode
    rwa [hmode] at hsplit
  · intro hmode
    rw [hmode, htype]

end Statbuf

/-- The types that the predicates of a stat ask for, in the order of `fs_stat_methods`. -/
def statTypes : List (BitVec 32) := [sIfreg, sIfdir, sIfchr, sIfblk, sIfifo, sIflnk, sIfsock]

/-- The permission string fits its buffer, and given to chmod, fchmod, mkdir or open it is
st_mode without its type. At most one predicate is true, and its type makes up for the rest of
st_mode. -/
theorem stat_permission_round_trip (s : Statbuf) :
    s.fsStatPermission.length < permissionBufSize ∧
    (∀ arg, fsCheckmode arg (.value (.string s.fsStatPermission)) = .ok s.permissionBits.toInt) ∧
    (∀ (fn : FsFn) (i : ℕ) (m : Mem) (args : List LuaArg) (b : FsBranches),
      fn.modeArg = some i → argAt args i = .value (.string s.fsStatPermission) →
      fn.branches m args = .ok b →
        b.sync.mode = some s.permissionBits.toInt ∧ b.async.mode = some s.permissionBits.toInt) ∧
    ∀ fmt ∈ statTypes, (s.isType fmt = true ↔ s.stMode = fmt ||| s.permissionBits) ∧
      ∀ fmt' ∈ statTypes, s.isType fmt = true → s.isType fmt' = true → fmt = fmt' := by
  have hmask : ∀ fmt ∈ statTypes, fmt &&& sIfmt = fmt := by
    simp only [statTypes, List.forall_mem_cons]
    exact ⟨rfl, rfl, rfl, rfl, rfl, rfl, rfl, List.forall_mem_nil _⟩
  refine ⟨?_, s.fsCheckmode_permission, ?_, ?_⟩
  · have hlen := s.fsStatPermission_length
    unfold permissionBufSize
    omega
  · intro fn i m args b hi harg hb
    exact FsFn.branches_mode s.fsCheckmode_permission hi harg hb
  · intro fmt hfmt
    refine ⟨s.isType_iff (hmask fmt hfmt), ?_⟩
    intro fmt' _ h h'
    exact (of_decide_eq_true h).symm.trans (of_decide_eq_true h')

end Couv
