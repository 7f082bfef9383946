import Couv.BufferCodec

/-! The other functions of buffer.c, and the byte ranges that fs.read and fs.write hand
to libuv. -/
namespace Couv

/-- A `uv_buf_t`: the bytes of a Lua string, or a range of a block. -/
inductive UvBuf
  | str (s : LuaString)
  | mem (base : Option Ptr) (len : ℕ)
  deriving DecidableEq, Repr

def UvBuf.len : UvBuf → ℕ
  | .str s => s.length
  | .mem _ len => len

/-- Read the first `n` bytes of the range. -/
def UvBuf.load (buf : UvBuf) (n : ℤ) : BufM (List UInt8) :=
  match buf with
  | .str s => if 0 ≤ n ∧ n ≤ s.length then pure (s.take n.toNat) else BufM.fault
  | .mem base _ => memLoad base n

/-- `couv_tobuforstr`; a NULL base is none. -/
def couvTobuforstr (m : Mem) (v : Value) : Option UvBuf :=
  match v with
  | .string s => some (.str s)
  | .buffer b =>
    match m.bufs.get b with
    | some buf => buf.base.map (fun p => .mem (some p) buf.len)
    | none => none
  | _ => none

def couvCheckbuforstr (arg : ℕ) (v : Value) : BufM UvBuf := fun m =>
  match couvTobuforstr m v with
  | some buf => .ok buf m
  | none => .error (.raise (.argError arg "must be string or Buffer")) m

/-- `couv_checkbuforstrtable`, on the elements 1 to n of the table. -/
def couvCheckbuforstrtable (items : List Value) : BufM (List UvBuf) := fun m =>
  match items.mapM (couvTobuforstr m) with
  | some buffers => .ok buffers m
  | none => .error (.raise (.argError 1 "must be an array (table) of buffers or strings")) m

/-! Construction. -/

/-- `(size_t)lua_tonumber(L, 1)`, by wrap-around for a negative number. -/
def cSizeT (n : ℤ) : ℕ := (n % 2^64).toNat

/-- The length and the contents that the argument of Buffer.new asks for. -/
def bufferNewArg (arg1 : Value) : Except LuaError (ℕ × Option LuaString) :=
  match arg1 with
  | .string s => .ok (s.length, some s)
  | v =>
    match v.luaNumber with
    | some n => .ok (cSizeT n, none)
    | none => .error (.argError 1 "must be integer or string")

def bufferNew (env : AllocEnv) (arg1 : Value) : BufM (List Value) := do
  let (length, str) ← BufM.check (bufferNewArg arg1)
  let b ← newBufUserdata env.uninit
  let blk ← couvBufMemAlloc env length
  setBufUserdata b ⟨some blk, some ⟨blk, 0⟩, length⟩
  match str with
  | some s => memStore (some ⟨blk, 0⟩) s
  | none => pure ()
  return [.buffer b]

/-- `total_length += buf->len`, a size_t added to an int. -/
def concatTotal (buffers : List UvBuf) : ℤ :=
  buffers.foldl (fun total buf => cInt (total+buf.len)) 0

/-- The copy loop: `dst`, `total_length` and the buffers from `i` on. -/
def concatCopy (dst : Ptr) (total : ℤ) : List UvBuf → BufM Unit
  | [] => pure ()
  | buf :: buffers =>
    if total > 0 then do
      let len := cInt buf.len
      let len := if len > total then total else len
      let bytes ← buf.load len
      memStore (some dst) bytes
      concatCopy (dst.add len) (total-len) buffers
    else pure ()

def bufferConcat (env : AllocEnv) (items : List Value) (totalLength : Value) :
    BufM (List Value) := do
  let buffers ← couvCheckbuforstrtable items
  let total ← BufM.check (luaLOptint 2 totalLength 0)
  let total := if total = 0 then concatTotal buffers else total
  let target ← bufferNew env (.number total)
  let buf ← couvCheckbuf 1 (target.headD .nil)
  concatCopy (buf.base.getD ⟨0, 0⟩) total buffers
  return target

/-! Methods. -/

def bufferLength (self : Value) : BufM (List Value) := do
  let buf ← couvCheckbuf 1 self
  return [.number buf.len]

def bufferSlice (env : AllocEnv) (self first last : Value) : BufM (List Value) := do
  let buf ← couvCheckbuf 1 self
  let first ← BufM.check (luaLOptint 2 first 1)
  let last ← BufM.check (luaLOptint 3 last buf.len)
  BufM.check (couvArgcheckindex 2 first 1 (cInt buf.len))
  BufM.check (couvArgcheckindex 3 last first (cInt buf.len))
  let slice ← newBufUserdata env.uninit
  couvBufMemRetain buf.orig
  setBufUserdata slice ⟨buf.orig, buf.at (first-1), cSizeT (last-first+1)⟩
  return [.buffer slice]

def bufferFill (self byte first last : Value) : BufM (List Value) := do
  let buf ← couvCheckbuf 1 self
  let byte ← BufM.check (luaLCheckint 2 byte)
  let first ← BufM.check (luaLOptint 3 first 1)
  let last ← BufM.check (luaLOptint 4 last buf.len)
  BufM.check (couvArgcheckindex 3 first 1 (cInt buf.len))
  BufM.check (couvArgcheckindex 4 last first (cInt buf.len))
  memStore (buf.at (first-1))
    (List.replicate (cSizeT (last-first+1)) (toUchar (BitVec.ofInt 32 byte)))
  return []

def bufferToString (self first last : Value) : BufM (List Value) := do
  let buf ← couvCheckbuf 1 self
  let first ← BufM.check (luaLOptint 2 first 1)
  let last ← BufM.check (luaLOptint 3 last buf.len)
  BufM.check (couvArgcheckindex 2 first 1 (cInt buf.len))
  BufM.check (couvArgcheckindex 3 last first (cInt buf.len))
  let bytes ← memLoad (buf.at (first-1)) (last-first+1)
  return [.string bytes]

def bufferCopy (self target targetFirst sourceFirst sourceLast : Value) :
    BufM (List Value) := do
  let buf ← couvCheckbuf 1 self
  let target ← couvCheckbuf 2 target
  let targetFirst ← BufM.check (luaLOptint 3 targetFirst 1)
  let sourceFirst ← BufM.check (luaLOptint 4 sourceFirst 1)
  let sourceLast ← BufM.check (luaLOptint 5 sourceLast buf.len)
  BufM.check (couvArgcheckindex 3 targetFirst 1 (cInt target.len))
  BufM.check (couvArgcheckindex 4 sourceFirst 1 (cInt buf.len))
  BufM.check (couvArgcheckindex 5 sourceLast sourceFirst (cInt buf.len))
  let length := sourceLast-sourceFirst+1
  let room := cInt (cInt target.len - targetFirst + 1)
  let length := if length > room then room else length
  if length > 0 then do
    -- memmove: the source is read before the target is written
    let bytes ← memLoad (buf.at (sourceFirst-1)) length
    memStore (target.at (targetFirst-1)) bytes
  else pure ()
  return [.number length]

/-- The string that luaL_checklstring gives for argument 2 is the argument `str`. -/
def bufferWrite (self : Value) (str : Except LuaError LuaString) (position length : Value) :
    BufM (List Value) := do
  let buf ← couvCheckbuf 1 self
  let str ← BufM.check str
  let position ← BufM.check (luaLOptint 3 position 1)
  let length ← BufM.check (luaLOptint 4 length (buf.len-position+1))
  BufM.check (couvArgcheckindex 3 position 1 (cInt buf.len))
  BufM.check (couvArgcheckindex 4 length 0 (cInt (cInt buf.len - position + 1)))
  let length := if length > cInt str.length then cInt str.length else length
  if length > 0 then do
    let bytes ← (UvBuf.str str).load length
    memStore (buf.at (position-1)) bytes
  else pure ()
  return [.number length]

/-- The keys of `buffer_methods`, which `buffer_index` finds in the metatable. -/
def bufferMethodNames : List String :=
  ["__gc", "__index", "__len", "__newindex", "copy", "fill", "length",
    "readDoubleBE", "readDoubleLE", "readFloatBE", "readFloatLE", "readInt8",
    "readInt16BE", "readInt16LE", "readInt32BE", "readInt32LE", "readUInt8",
    "readUInt16BE", "readUInt16LE", "readUInt32BE", "readUInt32LE", "slice", "toString", "write",
    "writeDoubleBE", "writeDoubleLE", "writeFloatBE", "writeFloatLE", "writeInt8",
    "writeInt16BE", "writeInt16LE", "writeInt32BE", "writeInt32LE", "writeUInt8",
    "writeUInt16BE", "writeUInt16LE", "writeUInt32BE", "writeUInt32LE"]

def isBufferMethod (key : LuaString) : Bool :=
  key ∈ bufferMethodNames.map (fun name => name.toUTF8.toList)

/-- No method has a name like the numeral of an integer. -/
theorem isBufferMethod_numeral {n : ℤ} (h : n.natAbs < 10^14) :
    isBufferMethod (cStr (signedNumeral (n < 0) n.natAbs 1)) = false := by
  have hnames : ∀ k ∈ bufferMethodNames.map (fun name => name.toUTF8.toList),
      ∀ c ∈ k.head?, 57 < c := by decide +kernel
  obtain ⟨c, s, hs, hc⟩ : ∃ c s, signedNumeral (n < 0) n.natAbs 1 = c :: s ∧ c ≠ 0 ∧ c ≤ 57 := by
    rw [signedNumeral, formatG_nat h]
    split
    · exact ⟨_, _, rfl, by decide⟩
    · obtain ⟨c, s, hs⟩ := List.exists_cons_of_length_pos (l := numeral 10 n.natAbs) (by
        rw [length_numeral (by decide)]
        exact Nat.succ_pos _)
      obtain ⟨d, hd, rfl⟩ := mem_numeral (b := 10) (by decide) (hs ▸ List.mem_cons_self)
      refine ⟨_, s, hs, ?_⟩
      clear hs
      interval_cases d <;> decide
  have hstr : cStr (c :: s) = c :: cStr s := List.takeWhile_cons_of_pos (decide_eq_true hc.1)
  rw [hs, hstr, isBufferMethod, decide_eq_false_iff_not]
  exact fun hmem => absurd (hnames _ hmem c rfl) (UInt8.not_lt.mpr hc.2)

/-- `buffer_index`. A key that is the name of a method gives the method, here its name. Any other
key is read as a position, as the string that luaL_checkstring has left of it. -/
def bufferIndex (b : ℕ) (key : Value) : BufM (List Value) := do
  let key ← BufM.check (luaLCheckstring 2 key)
  if isBufferMethod (cStr key) then return [.string (cStr key)]
  else bufferReadUint8 (.buffer b) (.string key)

/-- `buffer_gc`: the release; the userdata itself goes with the collection. -/
def bufferGc (self : Value) : BufM (List Value) := do
  let buf ← couvCheckbuf 1 self
  match buf.orig with
  | some _ => couvBufMemRelease buf.orig
  | none => pure ()
  return []

/-! fs.c: what fs_read and fs_write check before they call uv_fs_read or uv_fs_write with
the range `&p[buf_pos - 1]` of `length` bytes. -/

structure FsRange where
  fd : ℤ
  base : UvBuf
  first : ℤ
  length : ℤ
  offset : ℤ

def fsRead (fd buf bufPos length fileOffset : Value) : BufM FsRange := do
  let fd ← BufM.check (luaLCheckint 1 fd)
  let buf ← couvCheckbuf 2 buf
  let bufPos ← BufM.check (luaLOptint 3 bufPos 1)
  let length ← BufM.check (luaLOptint 4 length (buf.len-bufPos+1))
  let fileOffset ← BufM.check (luaLOptlong 5 fileOffset (-1))
  BufM.check (couvArgcheckindex 3 bufPos 1 (cInt buf.len))
  BufM.check (couvArgcheckindex 4 length 0 (cInt (cInt buf.len - bufPos + 1)))
  return ⟨fd, .mem buf.base buf.len, bufPos, length, fileOffset⟩

def fsWrite (fd arg bufPos length fileOffset : Value) : BufM FsRange := do
  let fd ← BufM.check (luaLCheckint 1 fd)
  let buf ← couvCheckbuforstr 2 arg
  let bufPos ← BufM.check (luaLOptint 3 bufPos 1)
  let buflen := cInt buf.len
  let length ← BufM.check (luaLOptint 4 length (cInt (buflen-bufPos+1)))
  let fileOffset ← BufM.check (luaLOptlong 5 fileOffset (-1))
  BufM.check (couvArgcheckindex 3 bufPos 1 buflen)
  BufM.check (couvArgcheckindex 4 length 0 (cInt (buflen-bufPos+1)))
  return ⟨fd, buf, bufPos, length, fileOffset⟩

/-- libuv stores `data` at the start of the range it was given. -/
def uvFsReadStore (r : FsRange) (data : List UInt8) : BufM Unit :=
  match r.base with
  | .mem base _ => memStore (base.map (·.add (r.first-1))) (data.take r.length.toNat)
  | .str _ => BufM.fault

/-- libuv reads the whole range it was given. -/
def uvFsWriteLoad (r : FsRange) : BufM (List UInt8) :=
  match r.base with
  | .mem base _ => memLoad (base.map (·.add (r.first-1))) r.length
  | .str s =>
    if 1 ≤ r.first ∧ 0 ≤ r.length ∧ r.first-1+r.length ≤ s.length then
      pure ((s.drop (r.first-1).toNat).take r.length.toNat)
    else BufM.fault

end Couv
