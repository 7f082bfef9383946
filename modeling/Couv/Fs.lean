import Couv.Args
import Couv.Requests

/-! fs.c: the arguments of the fs calls and their synchronous and asynchronous paths, with the
wrappers of couv.lua around them. -/
namespace Couv

namespace LuaArg

/-- The argument as a plain value. An argument of another kind fails the checks of numbers and
Buffers as a boolean does. -/
def toValue : LuaArg → Value
  | .value v => v
  | _ => .boolean true

/-- `luaL_checknumber`; the double is that of the number or numeral returned. -/
def checknumber (arg : ℕ) (a : LuaArg) : Except LuaError Value :=
  a.check (.argError arg "number expected") (fun v =>
    match luaTonumber v with
    | some _ => .ok v
    | none => .error (.argError arg "number expected"))

end LuaArg

/-! Flags and modes. -/

def oRdonly : ℕ := 0
def oWronly : ℕ := 1
def oRdwr : ℕ := 2
def oCreat : ℕ := 64
def oTrunc : ℕ := 512
def oAppend : ℕ := 1024
def oSync : ℕ := 1052672

def flagMappings : List (String × ℕ) :=
  [("r", oRdonly),
    ("w", oWronly ||| oCreat ||| oTrunc),
    ("a", oWronly ||| oCreat ||| oAppend),
    ("r+", oRdwr),
    ("w+", oRdwr ||| oCreat ||| oTrunc),
    ("a+", oRdwr ||| oCreat ||| oAppend),
    ("rs", oRdonly ||| oSync),
    ("rs+", oRdwr ||| oSync)]

def fsToflags (flagsStr : LuaString) : ℤ :=
  match flagMappings.find? (fun m => m.1.toUTF8.toList = flagsStr) with
  | some m => m.2
  | none => -1

/-- A number is converted to a numeral, which is no name of flags. -/
def fsCheckflags (arg : ℕ) (a : LuaArg) : Except LuaError ℤ := do
  let str ← a.checkstring arg
  let flags := match str with
    | .string s => fsToflags (cStr s)
    | _ => -1
  if flags = -1 then .error (luaLArgerror arg "Invalid flags") else .ok flags

def isOctal (c : UInt8) : Bool := 48 ≤ c && c ≤ 55

/-- `strtoul(str, NULL, 8)` -/
def strtoul8 (s : LuaString) : ℕ :=
  let value (s : LuaString) : ℕ := digitsValue 8 (s.takeWhile isOctal)
  -- a minus sign negates in unsigned long; a value that does not fit gives ULONG_MAX
  match s.dropWhile isSpace with
  | 45 :: s => if value s < 2^64 then (2^64 - value s) % 2^64 else 2^64-1
  | 43 :: s => min (value s) (2^64-1)
  | s => min (value s) (2^64-1)

/-- A double assigned to an int; one that does not fit gives the least int. -/
def doubleToInt (n : ℤ) : ℤ := if cIntMin ≤ n ∧ n ≤ cIntMax then n else cIntMin

def fsCheckmode (arg : ℕ) (a : LuaArg) : Except LuaError ℤ :=
  match a with
  | .value (.string s) => .ok (cInt (strtoul8 s))
  | a =>
    match a.toValue.luaNumber with
    | some n => .ok (doubleToInt n)
    | none => .error (luaLArgerror arg "must be octal number string or number")

def fsOptmode (arg : ℕ) (a : LuaArg) (defaultValue : ℤ) : Except LuaError ℤ :=
  match a with
  | .value .nil => .ok defaultValue
  | a => fsCheckmode arg a

/-! What is handed to libuv. A path is the C string of the value. -/

inductive UvFsCall
  | chmod (path : Value) (mode : ℤ)
  | chown (path : Value) (uid gid : ℤ)
  | close (fd : ℤ)
  | fchmod (fd mode : ℤ)
  | fchown (fd uid gid : ℤ)
  | fstat (fd : ℤ)
  | fsync (fd : ℤ)
  | ftruncate (fd len : ℤ)
  | futime (fd : ℤ) (atime mtime : Value)
  | link (path newPath : Value)
  | lstat (path : Value)
  | mkdir (path : Value) (mode : ℤ)
  | open (path : Value) (flags mode : ℤ)
  | read (r : FsRange)
  | readdir (path : Value) (flags : ℤ)
  | readlink (path : Value)
  | rename (oldPath newPath : Value)
  | rmdir (path : Value)
  | stat (path : Value)
  | symlink (path newPath : Value) (flags : ℤ)
  | unlink (path : Value)
  | utime (path atime mtime : Value)
  | write (r : FsRange)

/-- `req->fs_type`, as far as fs.c distinguishes it -/
def UvFsCall.fsType : UvFsCall → FsType
  | .open .. => .open
  | .read .. => .read
  | .write .. => .write
  | .lstat .. => .lstat
  | .fstat .. => .fstat
  | .stat .. => .stat
  | .readlink .. => .readlink
  | .readdir .. => .readdir
  | _ => .other

/-- The functions that push the results. -/
inductive FsPush
  | common
  | exists
  deriving DecidableEq, Repr

/-- The two branches on `couvL_is_mainthread`: the libuv call of each, and what pushes the
results in both. -/
structure FsBranches where
  sync : UvFsCall
  async : UvFsCall
  push : FsPush

/-! The functions of fs.c up to the branch. -/

/-- The argument `i` of a call; one that is not given is nil. -/
def argAt (args : List LuaArg) (i : ℕ) : LuaArg := args.getD (i-1) (.value .nil)

section functions
variable (args : List LuaArg)

def fsChown : Except LuaError FsBranches := do
  let path ← (argAt args 1).checkstring 1
  let uid ← (argAt args 2).checkint 2
  let gid ← (argAt args 3).checkint 3
  return ⟨.chown path uid gid, .chown path uid gid, .common⟩

def fsChmod : Except LuaError FsBranches := do
  let path ← (argAt args 1).checkstring 1
  let mode ← fsCheckmode 2 (argAt args 2)
  return ⟨.chmod path mode, .chmod path mode, .common⟩

def fsClose : Except LuaError FsBranches := do
  let fd ← (argAt args 1).checkint 1
  return ⟨.close fd, .close fd, .common⟩

def fsExists : Except LuaError FsBranches := do
  let path ← (argAt args 1).checkstring 1
  return ⟨.stat path, .stat path, .exists⟩

def fsFchmod : Except LuaError FsBranches := do
  let fd ← (argAt args 1).checkint 1
  let mode ← fsCheckmode 2 (argAt args 2)
  return ⟨.fchmod fd mode, .fchmod fd mode, .common⟩

def fsFchown : Except LuaError FsBranches := do
  let fd ← (argAt args 1).checkint 1
  let uid ← (argAt args 2).checkint 2
  let gid ← (argAt args 3).checkint 3
  return ⟨.fchown fd uid gid, .fchown fd uid gid, .common⟩

def fsFstat : Except LuaError FsBranches := do
  let fd ← (argAt args 1).checkint 1
  return ⟨.fstat fd, .fstat fd, .common⟩

def fsFsync : Except LuaError FsBranches := do
  let fd ← (argAt args 1).checkint 1
  return ⟨.fsync fd, .fsync fd, .common⟩

def fsFtruncate : Except LuaError FsBranches := do
  let fd ← (argAt args 1).checkint 1
  let len ← (argAt args 2).optinteger 2 0
  return ⟨.ftruncate fd len, .ftruncate fd len, .common⟩

def fsFutime : Except LuaError FsBranches := do
  let fd ← (argAt args 1).checkint 1
  let atime ← (argAt args 2).checknumber 2
  let mtime ← (argAt args 3).checknumber 3
  return ⟨.futime fd atime mtime, .futime fd atime mtime, .common⟩

def fsLink : Except LuaError FsBranches := do
  let path ← (argAt args 1).checkstring 1
  let newPath ← (argAt args 2).checkstring 2
  return ⟨.link path newPath, .link path newPath, .common⟩

def fsLstat : Except LuaError FsBranches := do
  let path ← (argAt args 1).checkstring 1
  return ⟨.lstat path, .lstat path, .common⟩

def fsMkdir : Except LuaError FsBranches := do
  let path ← (argAt args 1).checkstring 1
  let mode ← fsOptmode 2 (argAt args 2) 0o777
  return ⟨.mkdir path mode, .mkdir path mode, .common⟩

def fsOpen : Except LuaError FsBranches := do
  let path ← (argAt args 1).checkstring 1
  let flags ← fsCheckflags 2 (argAt args 2)
  let mode ← fsOptmode 3 (argAt args 3) 0o666
  return ⟨.open path flags mode, .open path flags mode, .common⟩

def fsReadlink : Except LuaError FsBranches := do
  let path ← (argAt args 1).checkstring 1
  return ⟨.readlink path, .readlink path, .common⟩

def fsRename : Except LuaError FsBranches := do
  let oldPath ← (argAt args 1).checkstring 1
  let newPath ← (argAt args 2).checkstring 2
  return ⟨.rename oldPath newPath, .rename oldPath newPath, .common⟩

def fsRmdir : Except LuaError FsBranches := do
  let path ← (argAt args 1).checkstring 1
  return ⟨.rmdir path, .rmdir path, .common⟩

def fsStat : Except LuaError FsBranches := do
  let path ← (argAt args 1).checkstring 1
  return ⟨.stat path, .stat path, .common⟩

def fsSymlink : Except LuaError FsBranches := do
  let path ← (argAt args 1).checkstring 1
  let newPath ← (argAt args 2).checkstring 2
  return ⟨.symlink path newPath 0, .symlink path newPath 0, .common⟩

def fsUnlink : Except LuaError FsBranches := do
  let path ← (argAt args 1).checkstring 1
  return ⟨.unlink path, .unlink path, .common⟩

def fsUtime : Except LuaError FsBranches := do
  let path ← (argAt args 1).checkstring 1
  let atime ← (argAt args 2).checknumber 2
  let mtime ← (argAt args 3).checknumber 3
  return ⟨.utime path atime mtime, .utime path atime mtime, .common⟩

def fsReaddir : Except LuaError FsBranches := do
  let path ← (argAt args 1).checkstring 1
  return ⟨.readdir path 0, .readdir path 0, .common⟩

end functions

/-- `uv.fs` -/
inductive FsFn
  | chmod | chown | close | exists | fchmod | fchown | fstat | fsync | ftruncate | futime | link
  | lstat | mkdir | open | read | readdir | readlink | rename | rmdir | stat | symlink | unlink
  | utime | write
  deriving DecidableEq, Repr

/-- `m` holds the Buffers that fs_read and fs_write check. -/
def FsFn.branches (fn : FsFn) (m : Mem) (args : List LuaArg) : Except Failure FsBranches :=
  let range (x : BufM FsRange) (b : FsRange → FsBranches) : Except Failure FsBranches :=
    match x m with
    | .ok r _ => .ok (b r)
    | .error e _ => .error e
  let v (i : ℕ) : Value := (argAt args i).toValue
  match fn with
  | .chmod => (fsChmod args).mapError .raise
  | .chown => (fsChown args).mapError .raise
  | .close => (fsClose args).mapError .raise
  | .exists => (fsExists args).mapError .raise
  | .fchmod => (fsFchmod args).mapError .raise
  | .fchown => (fsFchown args).mapError .raise
  | .fstat => (fsFstat args).mapError .raise
  | .fsync => (fsFsync args).mapError .raise
  | .ftruncate => (fsFtruncate args).mapError .raise
  | .futime => (fsFutime args).mapError .raise
  | .link => (fsLink args).mapError .raise
  | .lstat => (fsLstat args).mapError .raise
  | .mkdir => (fsMkdir args).mapError .raise
  | .open => (fsOpen args).mapError .raise
  | .read => range (fsRead (v 1) (v 2) (v 3) (v 4) (v 5)) (fun r => ⟨.read r, .read r, .common⟩)
  | .readdir => (fsReaddir args).mapError .raise
  | .readlink => (fsReadlink args).mapError .raise
  | .rename => (fsRename args).mapError .raise
  | .rmdir => (fsRmdir args).mapError .raise
  | .stat => (fsStat args).mapError .raise
  | .symlink => (fsSymlink args).mapError .raise
  | .unlink => (fsUnlink args).mapError .raise
  | .utime => (fsUtime args).mapError .raise
  | .write =>
    range (fsWrite (v 1) (v 2) (v 3) (v 4) (v 5)) (fun r => ⟨.write r, .write r, .common⟩)

end Couv
