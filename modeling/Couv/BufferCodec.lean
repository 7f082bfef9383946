import Couv.BufferMem

/-! The readers and writers of buffer.c, on a little-endian host with signed char.
An `int` expression is a 32-bit vector. -/
namespace Couv

/-- `p[i]`, promoted to int -/
def byteAt (p : List UInt8) (i : ℕ) : BitVec 32 := (p.getD i 0).toBitVec.setWidth 32

/-- The conversion of an int or unsigned to `unsigned char`. -/
def toUchar (x : BitVec 32) : UInt8 := UInt8.ofBitVec (x.setWidth 8)

/-- `memcpy_le` and `memcpy_be`, host order first -/
def memcpyLe (src : List UInt8) : List UInt8 := src
def memcpyBe (src : List UInt8) : List UInt8 := src.reverse

/-- The value whose object representation is `bs`. -/
def bitsOfBytes (w : ℕ) (bs : List UInt8) : BitVec w :=
  bs.foldr (fun b acc => acc <<< 8 ||| b.toBitVec.setWidth w) 0

def bytesOfBits (n : ℕ) {w : ℕ} (x : BitVec w) : List UInt8 :=
  (List.range n).map (fun i => UInt8.ofBitVec ((x >>> (8*i)).setWidth 8))

/-! What each reader makes of its bytes. -/

def readUint8 (p : List UInt8) : Value := .number (byteAt p 0).toInt

def readUint16le (p : List UInt8) : Value := .number (byteAt p 1 <<< 8 ||| byteAt p 0).toInt

def readUint16be (p : List UInt8) : Value := .number (byteAt p 0 <<< 8 ||| byteAt p 1).toInt

def readUint32le (p : List UInt8) : Value :=
  .number (byteAt p 3 <<< 24 ||| byteAt p 2 <<< 16 ||| byteAt p 1 <<< 8 ||| byteAt p 0).toNat

def readUint32be (p : List UInt8) : Value :=
  .number (byteAt p 0 <<< 24 ||| byteAt p 1 <<< 16 ||| byteAt p 2 <<< 8 ||| byteAt p 3).toNat

def readInt8 (p : List UInt8) : Value := .number (p.getD 0 0).toBitVec.toInt

/-- `if (value >= 0x8000) value = -(0xFFFF - value + 1);` -/
def foldSign16 (value : BitVec 32) : BitVec 32 :=
  if (0x8000#32).sle value then -(0xFFFF#32 - value + 1#32) else value

def readInt16le (p : List UInt8) : Value :=
  .number (foldSign16 (byteAt p 1 <<< 8 ||| byteAt p 0)).toInt

def readInt16be (p : List UInt8) : Value :=
  .number (foldSign16 (byteAt p 0 <<< 8 ||| byteAt p 1)).toInt

/-- `value >= 0x80000000 ? -(int)(0xFFFFFFFF - value + 1) : (int)value` -/
def foldSign32 (value : BitVec 32) : BitVec 32 :=
  if (0x80000000#32).ule value then -(0xFFFFFFFF#32 - value + 1#32) else value

def readInt32le (p : List UInt8) : Value :=
  .number (foldSign32
    (byteAt p 3 <<< 24 ||| byteAt p 2 <<< 16 ||| byteAt p 1 <<< 8 ||| byteAt p 0)).toInt

def readInt32be (p : List UInt8) : Value :=
  .number (foldSign32
    (byteAt p 0 <<< 24 ||| byteAt p 1 <<< 16 ||| byteAt p 2 <<< 8 ||| byteAt p 3)).toInt

def readFloatLe (p : List UInt8) : Value := .float (bitsOfBytes 32 (memcpyLe p))
def readFloatBe (p : List UInt8) : Value := .float (bitsOfBytes 32 (memcpyBe p))
def readDoubleLe (p : List UInt8) : Value := .double (bitsOfBytes 64 (memcpyLe p))
def readDoubleBe (p : List UInt8) : Value := .double (bitsOfBytes 64 (memcpyBe p))

/-! What each writer stores for its argument: the int that luaL_checkint gives, or the
`lua_Integer` that luaL_checkinteger gives. -/

def writeUint8 (byte : ℤ) : List UInt8 := [toUchar (BitVec.ofInt 32 byte)]

def writeUint16le (n : ℤ) : List UInt8 :=
  let value := BitVec.ofInt 32 n
  [toUchar (value &&& 0xFF#32), toUchar (value >>> 8)]

def writeUint16be (n : ℤ) : List UInt8 :=
  let value := BitVec.ofInt 32 n
  [toUchar (value >>> 8), toUchar (value &&& 0xFF#32)]

def writeUint32le (n : ℤ) : List UInt8 :=
  let value := BitVec.ofInt 32 n
  [toUchar (value &&& 0xFF#32), toUchar ((value >>> 8) &&& 0xFF#32),
    toUchar ((value >>> 16) &&& 0xFF#32), toUchar (value >>> 24)]

def writeUint32be (n : ℤ) : List UInt8 :=
  let value := BitVec.ofInt 32 n
  [toUchar (value >>> 24), toUchar ((value >>> 16) &&& 0xFF#32),
    toUchar ((value >>> 8) &&& 0xFF#32), toUchar (value &&& 0xFF#32)]

def writeInt8 (byte : ℤ) : List UInt8 := [toUchar (BitVec.ofInt 32 byte)]

/-- `unsigned int uvalue = value < 0 ? 0x10000 + value : value;` -/
def uvalue16 (n : ℤ) : BitVec 32 :=
  let value := BitVec.ofInt 32 n
  if value.slt 0#32 then 0x10000#32 + value else value

def writeInt16le (n : ℤ) : List UInt8 :=
  [toUchar (uvalue16 n &&& 0xFF#32), toUchar (uvalue16 n >>> 8)]

def writeInt16be (n : ℤ) : List UInt8 :=
  [toUchar (uvalue16 n >>> 8), toUchar (uvalue16 n &&& 0xFF#32)]

/-- `value < 0 ? 0x100000000 + value : value`, a sum of longs. -/
def uvalue32 (n : ℤ) : BitVec 32 :=
  let value := BitVec.ofInt 32 n
  if value.slt 0#32 then (0x100000000#64 + value.signExtend 64).setWidth 32 else value

def writeInt32le (n : ℤ) : List UInt8 :=
  [toUchar (uvalue32 n &&& 0xFF#32), toUchar ((uvalue32 n >>> 8) &&& 0xFF#32),
    toUchar ((uvalue32 n >>> 16) &&& 0xFF#32), toUchar (uvalue32 n >>> 24)]

def writeInt32be (n : ℤ) : List UInt8 :=
  [toUchar (uvalue32 n >>> 24), toUchar ((uvalue32 n >>> 16) &&& 0xFF#32),
    toUchar ((uvalue32 n >>> 8) &&& 0xFF#32), toUchar (uvalue32 n &&& 0xFF#32)]

def writeFloatLe (x : BitVec 32) : List UInt8 := memcpyLe (bytesOfBits 4 x)
def writeFloatBe (x : BitVec 32) : List UInt8 := memcpyBe (bytesOfBits 4 x)
def writeDoubleLe (x : BitVec 64) : List UInt8 := memcpyLe (bytesOfBits 8 x)
def writeDoubleBe (x : BitVec 64) : List UInt8 := memcpyBe (bytesOfBits 8 x)

/-! The methods. `pos` is the Lua position, `k` what the index check subtracts from the
length; all of them read the position before the value and check the range last. -/

def bufferRead (k n : ℕ) (decode : List UInt8 → Value) (self pos : Value) :
    BufM (List Value) := do
  let buf ← couvCheckbuf 1 self
  let position ← BufM.check (luaLCheckint 2 pos)
  BufM.check (couvArgcheckindex 2 position 1 (cInt (cInt buf.len - k)))
  let p ← memLoad (buf.at (position-1)) n
  return [decode p]

def bufferReadUint8 := bufferRead 0 1 readUint8
def bufferReadUint16le := bufferRead 1 2 readUint16le
def bufferReadUint16be := bufferRead 1 2 readUint16be
def bufferReadUint32le := bufferRead 3 4 readUint32le
def bufferReadUint32be := bufferRead 3 4 readUint32be
def bufferReadInt8 := bufferRead 0 1 readInt8
def bufferReadInt16le := bufferRead 1 2 readInt16le
def bufferReadInt16be := bufferRead 1 2 readInt16be
def bufferReadInt32le := bufferRead 3 4 readInt32le
def bufferReadInt32be := bufferRead 3 4 readInt32be
def bufferReadFloatLe := bufferRead (4-1) 4 readFloatLe
def bufferReadFloatBe := bufferRead (4-1) 4 readFloatBe
def bufferReadDoubleLe := bufferRead (8-1) 8 readDoubleLe
def bufferReadDoubleBe := bufferRead (8-1) 8 readDoubleBe

def bufferPut {α : Type} (k : ℕ) (encode : α → List UInt8) (self pos : Value)
    (value : Except LuaError α) : BufM (List Value) := do
  let buf ← couvCheckbuf 1 self
  let position ← BufM.check (luaLCheckint 2 pos)
  let value ← BufM.check value
  BufM.check (couvArgcheckindex 2 position 1 (cInt (cInt buf.len - k)))
  memStore (buf.at (position-1)) (encode value)
  return []

def bufferWriteUint8 (self pos value : Value) :=
  bufferPut 0 writeUint8 self pos (luaLCheckint 3 value)
def bufferWriteUint16le (self pos value : Value) :=
  bufferPut 1 writeUint16le self pos (luaLCheckinteger 3 value)
def bufferWriteUint16be (self pos value : Value) :=
  bufferPut 1 writeUint16be self pos (luaLCheckinteger 3 value)
def bufferWriteUint32le (self pos value : Value) :=
  bufferPut 3 writeUint32le self pos (luaLCheckinteger 3 value)
def bufferWriteUint32be (self pos value : Value) :=
  bufferPut 3 writeUint32be self pos (luaLCheckinteger 3 value)
def bufferWriteInt8 (self pos value : Value) :=
  bufferPut 0 writeInt8 self pos (luaLCheckint 3 value)
def bufferWriteInt16le (self pos value : Value) :=
  bufferPut 1 writeInt16le self pos (luaLCheckinteger 3 value)
def bufferWriteInt16be (self pos value : Value) :=
  bufferPut 1 writeInt16be self pos (luaLCheckinteger 3 value)
def bufferWriteInt32le (self pos value : Value) :=
  bufferPut 3 writeInt32le self pos (luaLCheckinteger 3 value)
def bufferWriteInt32be (self pos value : Value) :=
  bufferPut 3 writeInt32be self pos (luaLCheckinteger 3 value)

/-- The result of luaL_checknumber, converted to float or double, is the argument here. -/
def bufferWriteFloatLe (self pos : Value) (value : Except LuaError (BitVec 32)) :=
  bufferPut (4-1) writeFloatLe self pos value
def bufferWriteFloatBe (self pos : Value) (value : Except LuaError (BitVec 32)) :=
  bufferPut (4-1) writeFloatBe self pos value
def bufferWriteDoubleLe (self pos : Value) (value : Except LuaError (BitVec 64)) :=
  bufferPut (8-1) writeDoubleLe self pos value
def bufferWriteDoubleBe (self pos : Value) (value : Except LuaError (BitVec 64)) :=
  bufferPut (8-1) writeDoubleBe self pos value

end Couv
