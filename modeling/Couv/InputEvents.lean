import Couv.Requests

/-! buf_alloc.c and the three input callbacks; the Buffer functions of Lua code; the garbage
collector. -/
namespace Couv
namespace World

variable (s : World)

/-- `couv_buf_alloc_cb` -/
def couvBufAllocCb (h n : ℕ) (env : AllocEnv) : World :=
  match couvBufMemAlloc env n s.mem with
  | .ok blk m => { s with mem := m, reads := ⟨h, blk, n⟩ :: s.reads }
  | .error _ m => { s with mem := m }

/-- Insert a new node at the tail of its handle's queue. -/
def enqueue (node : InputNode) : World :=
  { s with input := { s.input with
      links := ngxQueueInsertTail s.input.links (.root node.handle) (.node s.input.nodes.next)
      nodes := s.input.nodes.alloc node
      appended := fun k =>
        if k = node.handle then s.input.appended k ++ [s.input.nodes.next]
        else s.input.appended k } }

end World

/-- `w_buf` of a node, from the `uv_buf_t` that libuv passes: one it got from
couv_buf_alloc_cb, or NULL with length 0. -/
def inputBuf (rd : Option UvRead) : CouvBuf :=
  match rd with
  | none => ⟨none, none, 0⟩
  | some r => ⟨some r.block, some ⟨r.block, 0⟩, r.len⟩

namespace World

variable (s : World)

/-- libuv gives up the buffer. -/
def takeRead (rd : Option UvRead) : World :=
  match rd with
  | none => s
  | some r => { s with reads := s.reads.erase r }

/-- What the input callbacks share: queue the node and wake `handle->data` if it waits. -/
def inputCb (node : InputNode) (rd : Option UvRead) : World :=
  let L := s.data node.handle
  let s := (s.takeRead rd).enqueue node
  -- lua_status(L) == LUA_YIELD, whatever L waits for
  if s.yielded L then s.couvResume L (.input node.handle) [] else s

/-- `behind` and `junk` are the memory that follows the smaller node. -/
def readCb (h : ℕ) (nread : ℤ) (rd : Option UvRead) (behind : ℤ) (junk : List UInt8) : World :=
  s.inputCb ⟨.read, h, nread, inputBuf rd, behind, junk⟩ rd

def read2Cb (h : ℕ) (nread : ℤ) (rd : Option UvRead) (pending : ℤ) (junk : List UInt8) : World :=
  s.inputCb ⟨.read2, h, nread, inputBuf rd, pending, junk⟩ rd

/-- `input->addr.v4 = *(struct sockaddr_in *)addr`, into memory from malloc. -/
def recvStorage (junk : List UInt8) (addr : Option Address) : List UInt8 :=
  match addr with
  | none => junk
  -- an IPv6 address is cut to the size of an IPv4 one
  | some a => overwrite junk 0 (a.bytes.take sizeofSockaddrIn)

def udpRecvCb (h : ℕ) (nread : ℤ) (rd : Option UvRead) (behind : ℤ) (junk : List UInt8)
    (addr : Option Address) : World :=
  s.inputCb ⟨.recv, h, nread, inputBuf rd, behind, recvStorage junk addr⟩ rd

/-! Buffer.new, slice and concat called from Lua code. -/

/-- The memory after a call, whether it returns or raises. -/
def runBuf {α : Type} (x : BufM α) : World :=
  match x s.mem with
  | .ok _ m => { s with mem := m }
  | .error _ m => { s with mem := m }

/-! Garbage collection. It may take any coroutine that neither runs nor is in the registry,
any handle that is not in the registry, and any Buffer or string that is not held by a
suspended call. -/

def argItems (a : Arg) : List Item :=
  match a with
  | .none => []
  | .item i => [i]
  | .table t => (s.tables.get t).getD []

/-- No coroutine that waits in a call has the value on its stack. -/
def NotHeld (i : Item) : Prop :=
  s.reqs.All (fun r req => ¬(s.status req.caller = some (.suspended (.req r)) ∧
    s.collected req.caller = false ∧ i ∈ s.argItems req.arg))

instance (i : Item) : Decidable (s.NotHeld i) := inferInstanceAs (Decidable (Store.All _ _))

/-- No entry of the registry is the coroutine. -/
def NotAnchored (T : ℕ) : Prop :=
  (∀ h < s.handles.next, s.registry (couvThreadRegKey h) ≠ some (.thread T)) ∧
    ∀ r < s.reqs.next, s.registry (.reqThread r) ≠ some (.thread T)

instance (T : ℕ) : Decidable (s.NotAnchored T) := inferInstanceAs (Decidable (_ ∧ _))

def collectThread (T : ℕ) : World :=
  { s with threads := s.threads.modify T (fun t => { t with collected := true }) }

def collectHandle (h : ℕ) : World := s.modifyHandle h (fun x => { x with collected := true })

/-- The `__gc` metamethod, then the userdata goes. -/
def collectBuffer (b : ℕ) : World :=
  match bufferGc (.buffer b) s.mem with
  | .ok _ m | .error _ m => { s with mem := { m with bufs := m.bufs.free b } }

def collectString (sid : ℕ) : World := { s with strings := s.strings.free sid }

end World
end Couv
