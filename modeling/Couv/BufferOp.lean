import Couv.Buffer
import Couv.View
import Couv.Run

/-! The operations on Buffers, as the C functions run them and as they act on views. -/
namespace Couv

open Arrays (Effect)

inductive Reader
  | uint8 | uint16le | uint16be | uint32le | uint32be
  | int8 | int16le | int16be | int32le | int32be
  | floatLe | floatBe | doubleLe | doubleBe
  deriving DecidableEq, Repr

namespace Reader

def method : Reader → Value → Value → BufM (List Value)
  | uint8 => bufferReadUint8
  | uint16le => bufferReadUint16le
  | uint16be => bufferReadUint16be
  | uint32le => bufferReadUint32le
  | uint32be => bufferReadUint32be
  | int8 => bufferReadInt8
  | int16le => bufferReadInt16le
  | int16be => bufferReadInt16be
  | int32le => bufferReadInt32le
  | int32be => bufferReadInt32be
  | floatLe => bufferReadFloatLe
  | floatBe => bufferReadFloatBe
  | doubleLe => bufferReadDoubleLe
  | doubleBe => bufferReadDoubleBe

def width : Reader → ℕ
  | uint8 | int8 => 1
  | uint16le | uint16be | int16le | int16be => 2
  | uint32le | uint32be | int32le | int32be | floatLe | floatBe => 4
  | doubleLe | doubleBe => 8

def decode : Reader → List UInt8 → Value
  | uint8 => readUint8
  | uint16le => readUint16le
  | uint16be => readUint16be
  | uint32le => readUint32le
  | uint32be => readUint32be
  | int8 => readInt8
  | int16le => readInt16le
  | int16be => readInt16be
  | int32le => readInt32le
  | int32be => readInt32be
  | floatLe => readFloatLe
  | floatBe => readFloatBe
  | doubleLe => readDoubleLe
  | doubleBe => readDoubleBe

/-- What every reader subtracts from the length is its width less one. -/
theorem method_eq (r : Reader) : r.method = bufferRead (r.width-1) r.width r.decode := by
  cases r <;> rfl

theorem width_pos (r : Reader) : 1 ≤ r.width ∧ r.width ≤ 8 := by
  cases r <;> decide

end Reader

/-- A writer with its third argument. -/
inductive Writer
  | uint8 (value : Value) | uint16le (value : Value) | uint16be (value : Value)
  | uint32le (value : Value) | uint32be (value : Value)
  | int8 (value : Value) | int16le (value : Value) | int16be (value : Value)
  | int32le (value : Value) | int32be (value : Value)
  | floatLe (value : Except LuaError (BitVec 32))
  | floatBe (value : Except LuaError (BitVec 32))
  | doubleLe (value : Except LuaError (BitVec 64))
  | doubleBe (value : Except LuaError (BitVec 64))

namespace Writer

def method (self pos : Value) : Writer → BufM (List Value)
  | uint8 value => bufferWriteUint8 self pos value
  | uint16le value => bufferWriteUint16le self pos value
  | uint16be value => bufferWriteUint16be self pos value
  | uint32le value => bufferWriteUint32le self pos value
  | uint32be value => bufferWriteUint32be self pos value
  | int8 value => bufferWriteInt8 self pos value
  | int16le value => bufferWriteInt16le self pos value
  | int16be value => bufferWriteInt16be self pos value
  | int32le value => bufferWriteInt32le self pos value
  | int32be value => bufferWriteInt32be self pos value
  | floatLe value => bufferWriteFloatLe self pos value
  | floatBe value => bufferWriteFloatBe self pos value
  | doubleLe value => bufferWriteDoubleLe self pos value
  | doubleBe value => bufferWriteDoubleBe self pos value

def width : Writer → ℕ
  | uint8 _ | int8 _ => 1
  | uint16le _ | uint16be _ | int16le _ | int16be _ => 2
  | uint32le _ | uint32be _ | int32le _ | int32be _ | floatLe _ | floatBe _ => 4
  | doubleLe _ | doubleBe _ => 8

/-- The bytes to store, once the argument is accepted. -/
def bytes : Writer → Except LuaError (List UInt8)
  | uint8 value => (luaLCheckint 3 value).map writeUint8
  | uint16le value => (luaLCheckinteger 3 value).map writeUint16le
  | uint16be value => (luaLCheckinteger 3 value).map writeUint16be
  | uint32le value => (luaLCheckinteger 3 value).map writeUint32le
  | uint32be value => (luaLCheckinteger 3 value).map writeUint32be
  | int8 value => (luaLCheckint 3 value).map writeInt8
  | int16le value => (luaLCheckinteger 3 value).map writeInt16le
  | int16be value => (luaLCheckinteger 3 value).map writeInt16be
  | int32le value => (luaLCheckinteger 3 value).map writeInt32le
  | int32be value => (luaLCheckinteger 3 value).map writeInt32be
  | floatLe value => value.map writeFloatLe
  | floatBe value => value.map writeFloatBe
  | doubleLe value => value.map writeDoubleLe
  | doubleBe value => value.map writeDoubleBe

theorem bufferPut_map {α : Type} (k : ℕ) (encode : α → List UInt8) (self pos : Value)
    (value : Except LuaError α) :
    bufferPut k encode self pos value = bufferPut k id self pos (value.map encode) := by
  cases value <;> rfl

theorem method_eq (w : Writer) (self pos : Value) :
    w.method self pos = bufferPut (w.width-1) id self pos w.bytes := by
  cases w <;> exact bufferPut_map _ _ self pos _

theorem map_length {α : Type} {value : Except LuaError α} {encode : α → List UInt8} {n : ℕ}
    (hn : ∀ a, (encode a).length = n) {bs : List UInt8} (h : value.map encode = .ok bs) :
    bs.length = n := by
  cases value with
  | error e => cases h
  | ok a => rw [← Except.ok.inj h, hn]

/-- Every writer stores as many bytes as its range check asks for. -/
theorem bytes_length (w : Writer) {bs : List UInt8} (h : w.bytes = .ok bs) :
    bs.length = w.width := by
  cases w <;> refine map_length (fun a => ?_) h <;>
    simp [width, writeUint8, writeUint16le, writeUint16be, writeUint32le, writeUint32be,
      writeInt8, writeInt16le, writeInt16be, writeInt32le, writeInt32be, writeFloatLe,
      writeFloatBe, writeDoubleLe, writeDoubleBe, memcpyLe, memcpyBe, bytesOfBits]

theorem width_pos (w : Writer) : 1 ≤ w.width ∧ w.width ≤ 8 := by
  cases w <;> simp [width]

end Writer

/-- One operation with its arguments. For `write` the string is what luaL_checklstring
gives; for `fsRead`, `data` is what libuv finds in the file. -/
inductive BufOp
  | new (env : AllocEnv) (arg : Value)
  | slice (env : AllocEnv) (self first last : Value)
  | fill (self byte first last : Value)
  | toString (self first last : Value)
  | copy (self target targetFirst sourceFirst sourceLast : Value)
  | write (self : Value) (str : Except LuaError LuaString) (position length : Value)
  | length (self : Value)
  | read (r : Reader) (self pos : Value)
  | put (w : Writer) (self pos : Value)
  | index (b : ℕ) (key : Value)
  | newindex (self pos value : Value)
  | fsRead (fd buf bufPos length fileOffset : Value) (data : List UInt8)
  | fsWrite (fd buf bufPos length fileOffset : Value)

namespace BufOp

def exec : BufOp → BufM (List Value)
  | new env arg => bufferNew env arg
  | slice env self first last => bufferSlice env self first last
  | fill self byte first last => bufferFill self byte first last
  | toString self first last => bufferToString self first last
  | copy self target targetFirst sourceFirst sourceLast =>
    bufferCopy self target targetFirst sourceFirst sourceLast
  | write self str position len => bufferWrite self str position len
  | length self => bufferLength self
  | read r self pos => r.method self pos
  | put w self pos => w.method self pos
  | index b key => bufferIndex b key
  | newindex self pos value => bufferWriteUint8 self pos value
  | fsRead fd buf bufPos len fileOffset data => do
    let r ← Couv.fsRead fd buf bufPos len fileOffset
    uvFsReadStore r data
    return [.number r.fd, .number r.length, .number r.offset]
  | fsWrite fd buf bufPos len fileOffset => do
    let r ← Couv.fsWrite fd buf bufPos len fileOffset
    let bytes ← uvFsWriteLoad r
    return [.number r.fd, .string bytes, .number r.offset]

/-! The same operations on views: every number is exact, a Buffer is the bytes it shows,
and an accepted operation has one effect. -/

def ownOf (own : ℕ → Option (List UInt8)) (arg : ℕ) (v : Value) :
    Except LuaError (ℕ × List UInt8) :=
  match v with
  | .buffer b =>
    match own b with
    | some bs => .ok (b, bs)
    | none => .error (.argError arg "couv.Buffer expected")
  | _ => .error (.argError arg "couv.Buffer expected")

/-- The bytes of a string or Buffer argument. -/
def ownOrStr (own : ℕ → Option (List UInt8)) (arg : ℕ) (v : Value) :
    Except LuaError (List UInt8) :=
  match v with
  | .string s => .ok s
  | .buffer b =>
    match own b with
    | some bs => .ok bs
    | none => .error (.argError arg "must be string or Buffer")
  | _ => .error (.argError arg "must be string or Buffer")

/-- The range `[first, last]` of a Buffer of `len` bytes, in the arguments `arg` and
`arg+1`. -/
def rangeOf (arg : ℕ) (first last : Value) (len : ℕ) : Except LuaError (ℤ × ℤ) := do
  let first ← luaLOptlong arg first 1
  let last ← luaLOptlong (arg+1) last len
  couvArgcheckindex arg first 1 len
  couvArgcheckindex (arg+1) last first len
  return (first, last)

/-- The position `pos` of an item of `width` bytes. -/
def specRead (own : ℕ → Option (List UInt8)) (r : Reader) (self pos : Value) :
    Except LuaError (List Value × Effect) := do
  let (_, bs) ← ownOf own 1 self
  let pos ← luaLCheckinteger 2 pos
  couvArgcheckindex 2 pos 1 (bs.length-r.width+1)
  return ([r.decode (window bs (pos-1).toNat r.width)], .none)

def specPut (own : ℕ → Option (List UInt8)) (w : Writer) (self pos : Value) :
    Except LuaError (List Value × Effect) := do
  let (b, bs) ← ownOf own 1 self
  let pos ← luaLCheckinteger 2 pos
  let bytes ← w.bytes
  couvArgcheckindex 2 pos 1 (bs.length-w.width+1)
  return ([], .store b (pos-1).toNat bytes)

/-- `next` is the name of the Buffer that a construction gives. -/
def spec (next : ℕ) (own : ℕ → Option (List UInt8)) :
    BufOp → Except LuaError (List Value × Effect)
  | new env arg => do
    let (n, str) ← bufferNewArg arg
    return ([.buffer next], .alloc (str.getD ((List.range n).map env.junk)))
  | slice _ self first last => do
    let (b, bs) ← ownOf own 1 self
    let (first, last) ← rangeOf 2 first last bs.length
    return ([.buffer next], .view b (first-1).toNat (last-first+1).toNat)
  | fill self byte first last => do
    let (b, bs) ← ownOf own 1 self
    let byte ← luaLCheckint 2 byte
    let (first, last) ← rangeOf 3 first last bs.length
    return ([], .store b (first-1).toNat
      (List.replicate (last-first+1).toNat (toUchar (BitVec.ofInt 32 byte))))
  | toString self first last => do
    let (_, bs) ← ownOf own 1 self
    let (first, last) ← rangeOf 2 first last bs.length
    return ([.string (window bs (first-1).toNat (last-first+1).toNat)], .none)
  | copy self target targetFirst sourceFirst sourceLast => do
    let (_, bs) ← ownOf own 1 self
    let (t, ts) ← ownOf own 2 target
    let targetFirst ← luaLOptlong 3 targetFirst 1
    let sourceFirst ← luaLOptlong 4 sourceFirst 1
    let sourceLast ← luaLOptlong 5 sourceLast bs.length
    couvArgcheckindex 3 targetFirst 1 ts.length
    couvArgcheckindex 4 sourceFirst 1 bs.length
    couvArgcheckindex 5 sourceLast sourceFirst bs.length
    let n := min (sourceLast-sourceFirst+1) (ts.length-targetFirst+1)
    return ([.number n],
      .store t (targetFirst-1).toNat (window bs (sourceFirst-1).toNat n.toNat))
  | write self str position len => do
    let (b, bs) ← ownOf own 1 self
    let str ← str
    let position ← luaLOptlong 3 position 1
    let len ← luaLOptlong 4 len (bs.length-position+1)
    couvArgcheckindex 3 position 1 bs.length
    couvArgcheckindex 4 len 0 (bs.length-position+1)
    let n := min len str.length
    return ([.number n], .store b (position-1).toNat (str.take n.toNat))
  | length self => do
    let (_, bs) ← ownOf own 1 self
    return ([.number bs.length], .none)
  | read r self pos => specRead own r self pos
  | put w self pos => specPut own w self pos
  | index b key => do
    let key ← luaLCheckstring 2 key
    if isBufferMethod (cStr key) then return ([.string (cStr key)], .none)
    else specRead own .uint8 (.buffer b) (.string key)
  | newindex self pos value => specPut own (.uint8 value) self pos
  | fsRead fd buf bufPos len fileOffset data => do
    let fd ← luaLCheckint 1 fd
    let (b, bs) ← ownOf own 2 buf
    let bufPos ← luaLOptlong 3 bufPos 1
    let len ← luaLOptlong 4 len (bs.length-bufPos+1)
    let fileOffset ← luaLOptlong 5 fileOffset (-1)
    couvArgcheckindex 3 bufPos 1 bs.length
    couvArgcheckindex 4 len 0 (bs.length-bufPos+1)
    return ([.number fd, .number len, .number fileOffset],
      .store b (bufPos-1).toNat (data.take len.toNat))
  | fsWrite fd buf bufPos len fileOffset => do
    let fd ← luaLCheckint 1 fd
    let bs ← ownOrStr own 2 buf
    let bufPos ← luaLOptlong 3 bufPos 1
    let len ← luaLOptlong 4 len (bs.length-bufPos+1)
    let fileOffset ← luaLOptlong 5 fileOffset (-1)
    couvArgcheckindex 3 bufPos 1 bs.length
    couvArgcheckindex 4 len 0 (bs.length-bufPos+1)
    return ([.number fd, .string (window bs (bufPos-1).toNat len.toNat),
      .number fileOffset], .none)

/-- An integer as a key is a position. -/
theorem spec_index_number (next : ℕ) (own : ℕ → Option (List UInt8)) (b : ℕ) {n : ℤ}
    (h : n.natAbs < 10^14) : (index b (.number n)).spec next own =
      specRead own .uint8 (.buffer b) (.number n) := by
  have hkey : luaLCheckstring 2 (.number n) = .ok (signedNumeral (n < 0) n.natAbs 1) := rfl
  have hpos : luaLCheckinteger 2 (.string (signedNumeral (n < 0) n.natAbs 1)) =
      luaLCheckinteger 2 (.number n) := by
    rw [luaLCheckinteger, luaTonumber, luaStr2number_signedNumeral h]
    rfl
  rw [spec, hkey]
  change (if isBufferMethod (cStr (signedNumeral (n < 0) n.natAbs 1)) then _ else _) = _
  rw [isBufferMethod_numeral h, if_neg Bool.false_ne_true, specRead, specRead, hpos]

/-- The key 1.9999999999999998 is position 2, and a method name ends at its first NUL. -/
example : (index 0 (.double 0x3FFFFFFFFFFFFFFF#64)).spec 1 (fun _ => some [7, 8]) =
      .ok ([.number 8], .none) ∧
    (index 0 (.string "copy\x00x".toUTF8.toList)).spec 1 (fun _ => some [7, 8]) =
      .ok ([.string "copy".toUTF8.toList], .none) := by decide +kernel

/-- The Buffers an operation is given. -/
def buffers : BufOp → List Value
  | new _ _ => []
  | slice _ self _ _ | fill self _ _ _ | toString self _ _ | write self _ _ _ | length self
  | read _ self _ | put _ self _ | newindex self _ _ => [self]
  | copy self target _ _ _ => [self, target]
  | index b _ => [.buffer b]
  | fsRead _ buf _ _ _ _ | fsWrite _ buf _ _ _ => [buf]

/-! The arguments the refinement is about. -/

/-- A number, or a string that Lua takes for one, is in the range of a C int. -/
def NumArg (v : Value) : Prop := ∀ n ∈ luaTonumber v, InCInt n

def ShortStr (v : Value) : Prop :=
  match v with
  | .string s => s.length < 2^31
  | _ => True

def InRange : BufOp → Prop
  | new env arg =>
    env.ok = true ∧ ShortStr arg ∧ ∀ n ∈ arg.luaNumber, 0 ≤ n ∧ n < 2^31
  | slice env _ first last => env.ok = true ∧ NumArg first ∧ NumArg last
  | fill _ _ first last | toString _ first last => NumArg first ∧ NumArg last
  | copy _ _ targetFirst sourceFirst sourceLast =>
    NumArg targetFirst ∧ NumArg sourceFirst ∧ NumArg sourceLast
  | write _ str position len =>
    NumArg position ∧ NumArg len ∧
      match str with
      | .ok s => s.length < 2^31
      | .error _ => True
  | length _ => True
  | read _ _ pos | put _ _ pos | newindex _ pos _ => NumArg pos
  -- the position is the number that the string of the key denotes
  | index _ key => ∀ s ∈ luaTolstring key, NumArg (.string s)
  | fsRead _ _ bufPos len _ _ => NumArg bufPos ∧ NumArg len
  | fsWrite _ buf bufPos len _ => ShortStr buf ∧ NumArg bufPos ∧ NumArg len

end BufOp

/-- The state after an operation, whether it returns or raises. -/
def bufStep (m : Mem) (op : BufOp) : Mem :=
  match op.exec m with
  | .ok _ m' => m'
  | .error _ m' => m'

def bufMachine : Machine Mem BufOp where
  guard _ op := op.InRange
  exec := bufStep

end Couv
