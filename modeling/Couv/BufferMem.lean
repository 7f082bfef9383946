import Couv.Sequence
import Couv.Store
import Couv.Value

/-! The blocks behind Buffers and the userdata that point into them. -/
namespace Couv

/-- A `couv_buf_mem_t`: the counter and the bytes that follow it. -/
structure Block where
  refCnt : ℤ
  size : ℕ
  mem : ℕ → UInt8

/-- A `char *` into the bytes of a block. -/
structure Ptr where
  block : ℕ
  off : ℤ
  deriving DecidableEq, Repr

/-- A `couv_buf_t`. `orig` is the start of the block, `base` and `len` are its `uv_buf_t`. -/
structure CouvBuf where
  orig : Option ℕ
  base : Option Ptr
  len : ℕ
  deriving DecidableEq, Repr

structure Mem where
  blocks : Store Block
  bufs : Store CouvBuf
  /-- the blocks passed to couv_free, in order -/
  freed : List ℕ

def Mem.empty : Mem := ⟨.empty, .empty, []⟩

/-- How a call ends when it does not return: by a Lua error, or by an access outside
live memory. -/
inductive Failure
  | raise (e : LuaError)
  | fault
  deriving DecidableEq, Repr

abbrev BufM := EStateM Failure Mem

namespace BufM
variable {α β : Type}

def check (x : Except LuaError α) : BufM α :=
  match x with
  | .ok a => pure a
  | .error e => throw (.raise e)

def fault : BufM α := throw .fault

theorem pure_run (a : α) (m : Mem) : (pure a : BufM α) m = .ok a m := rfl

theorem check_ok {x : Except LuaError α} {a : α} (h : x = .ok a) (m : Mem) :
    check x m = .ok a m := by
  subst h
  rfl

theorem check_error {x : Except LuaError α} {e : LuaError} (h : x = .error e) (m : Mem) :
    check x m = .error (.raise e) m := by
  subst h
  rfl

theorem bind_check_ok {x : Except LuaError α} {a : α} {f : α → BufM β} (m : Mem)
    (h : x = .ok a) : (check x >>= f) m = f a m :=
  run_bind_ok (check_ok h m)

theorem bind_check_error {x : Except LuaError α} {e : LuaError} {f : α → BufM β} (m : Mem)
    (h : x = .error e) : (check x >>= f) m = .error (.raise e) m :=
  run_bind_error (check_error h m)

end BufM

/-! Loads and stores. -/

def Ptr.add (p : Ptr) (i : ℤ) : Ptr := ⟨p.block, p.off+i⟩

/-- `&buf.base[i]` -/
def CouvBuf.at (buf : CouvBuf) (i : ℤ) : Option Ptr := buf.base.map (·.add i)

/-- The `n` bytes from `p` on lie in a live block. -/
def Mem.InBlock (m : Mem) (p : Ptr) (n : ℕ) : Prop :=
  ∃ b, m.blocks.get p.block = some b ∧ 0 ≤ p.off ∧ p.off+n ≤ b.size

instance (m : Mem) (p : Ptr) (n : ℕ) : Decidable (m.InBlock p n) :=
  match h : m.blocks.get p.block with
  | none => isFalse (fun ⟨_, hb, _⟩ => by rw [h] at hb; cases hb)
  | some b =>
    decidable_of_iff (0 ≤ p.off ∧ p.off+n ≤ b.size)
      ⟨fun hh => ⟨b, h, hh⟩, fun ⟨_, hb, hh⟩ => by rw [h] at hb; cases hb; exact hh⟩

/-- The byte at index `i` of a block. -/
def Mem.byte (m : Mem) (block i : ℕ) : UInt8 :=
  match m.blocks.get block with
  | none => 0
  | some b => b.mem i

def Mem.bytes (m : Mem) (p : Ptr) (n : ℕ) : List UInt8 :=
  (List.range n).map (fun k => m.byte p.block (p.off.toNat+k))

def Block.store (b : Block) (i : ℕ) (bs : List UInt8) : Block :=
  { b with mem := fun j => if i ≤ j ∧ j < i+bs.length then bs.getD (j-i) 0 else b.mem j }

def Mem.store (m : Mem) (p : Ptr) (bs : List UInt8) : Mem :=
  { m with blocks := m.blocks.modify p.block (·.store p.off.toNat bs) }

/-- Read `n` bytes at `p`, a `size_t` made from the int `n`. -/
def memLoad (p : Option Ptr) (n : ℤ) : BufM (List UInt8) := fun m =>
  match p with
  | none => .error .fault m
  | some p => if 0 ≤ n ∧ m.InBlock p n.toNat then .ok (m.bytes p n.toNat) m else .error .fault m

def memStore (p : Option Ptr) (bs : List UInt8) : BufM Unit := fun m =>
  match p with
  | none => .error .fault m
  | some p => if m.InBlock p bs.length then .ok () (m.store p bs) else .error .fault m

/-! auxlib.c and the reference counter. -/

/-- What the C heap and the Lua heap give to one call: whether malloc succeeds, the
contents of its memory and of fresh userdata. -/
structure AllocEnv where
  ok : Bool
  junk : ℕ → UInt8
  uninit : CouvBuf

/-- `offsetof(couv_buf_mem_t, mem)` -/
def couvBufMemHeader : ℕ := 4

/-- The size computation wraps modulo 2^64, so the counter may not fit the block. -/
def couvBufMemAlloc (env : AllocEnv) (nbytes : ℕ) : BufM ℕ := fun m =>
  let size := (couvBufMemHeader+nbytes) % 2^64
  if env.ok = false then .error (.raise (.error "ENOMEM")) m
  else if size < couvBufMemHeader then .error .fault m
  else .ok m.blocks.next { m with blocks := m.blocks.alloc ⟨1, size-couvBufMemHeader, env.junk⟩ }

def Mem.setRefCnt (m : Mem) (blk : ℕ) (c : ℤ) : Mem :=
  { m with blocks := m.blocks.modify blk (fun b => { b with refCnt := c }) }

def couvBufMemRetain (ptr : Option ℕ) : BufM Unit := fun m =>
  match ptr with
  | none => .error .fault m
  | some blk =>
    match m.blocks.get blk with
    | none => .error .fault m
    | some b => .ok () (m.setRefCnt blk (cInt (b.refCnt+1)))

def couvBufMemRelease (ptr : Option ℕ) : BufM Unit := fun m =>
  match ptr with
  | none => .error .fault m
  | some blk =>
    match m.blocks.get blk with
    | none => .error .fault m
    | some b =>
      let c := cInt (b.refCnt-1)
      if c = 0 then .ok () { m with blocks := m.blocks.free blk, freed := m.freed ++ [blk] }
      else .ok () (m.setRefCnt blk c)

/-- `lua_newuserdata` with the Buffer metatable; its contents are not initialised. -/
def newBufUserdata (uninit : CouvBuf) : BufM ℕ := fun m =>
  .ok m.bufs.next { m with bufs := m.bufs.alloc uninit }

def setBufUserdata (b : ℕ) (buf : CouvBuf) : BufM Unit := fun m =>
  .ok () { m with bufs := m.bufs.modify b (fun _ => buf) }

/-- `couv_checkbuf` -/
def couvCheckbuf (arg : ℕ) (v : Value) : BufM CouvBuf := fun m =>
  match v with
  | .buffer b =>
    match m.bufs.get b with
    | some buf => .ok buf m
    | none => .error (.raise (.argError arg "couv.Buffer expected")) m
  | _ => .error (.raise (.argError arg "couv.Buffer expected")) m

end Couv
