import Couv.CHeap
import Couv.FsPaths
import Couv.Rollback
import Couv.SockaddrClass

/-! The blocks that the suspending calls and Process.spawn obtain with couv_alloc, over the call
and the callback that completes it. -/
namespace Couv

/-- What a call meets: the thread it runs in, whether a C call is between it and the coroutine's
resume, which of its allocations succeed (by their place in the source), the error of libuv if
it rejects the request, and the Buffers. -/
structure ReqEnv where
  thread : ℕ
  boundary : Bool
  allocs : ℕ → Bool
  uv : Option ℤ
  mem : Mem

/-- `lua_yield` suspends the call; elsewhere it raises. -/
def ReqEnv.Suspends (env : ReqEnv) : Prop := env.thread ≠ mainThread ∧ env.boundary = false

instance (env : ReqEnv) : Decidable env.Suspends := inferInstanceAs (Decidable (_ ∧ _))

abbrev ReqM := HeapM CallError

/-- A call that does not raise before libuv has its request: it returns, or libuv accepts and
will run the callback, whether the yield that ends the call suspends it or raises. -/
inductive ReqEnd
  | returned
  | accepted (callback : ReqM Unit)

namespace ReqM
open HeapM

def checked {α : Type} (x : Except LuaError α) : ReqM α :=
  check (x.mapError .lua)

def couvAlloc (ok : Bool) : ReqM ℕ := malloc ok (.lua (.error "ENOMEM"))

/-- `if (r < 0) luaL_error(L, couvL_uv_lasterrname(..))` -/
def uvCheck (uv : Option ℤ) : ReqM Unit :=
  match uv with
  | none => pure ()
  | some code => raise (.uv code)

/-! auxiliary functions that allocate -/

/-- The loop of couv_checkbuforstrtable: a value that is no string or Buffer ends it. -/
def bufLoop (m : Mem) (buffers : ℕ) : List Value → ReqM Unit
  | [] => pure ()
  | v :: items =>
    match couvTobuforstr m v with
    | some _ => do
      use buffers
      bufLoop m buffers items
    | none => do
      free (some buffers)
      raise (.lua (.argError 1 "must be an array (table) of buffers or strings"))

/-- `couv_checkbuforstrtable`; the argument is a table with these elements, or no table. -/
def couvCheckbuforstrtable (m : Mem) (arg : ℕ) (items : Option (List Value)) (ok : Bool) :
    ReqM ℕ :=
  match items with
  | none => raise (.lua (.argError arg "table expected"))
  | some items => do
    let buffers ← couvAlloc ok
    bufLoop m buffers items
    return buffers

def strLoop (args : ℕ) : List (Option LuaString) → ReqM Unit
  | [] => use args
  | some _ :: xs => do
    use args
    strLoop args xs
  | none :: _ => do
    free (some args)
    raise (.lua mustBeStrings)

/-- `couv_tonullterminatedstrarray`: the block and the number of strings. -/
def couvTonullterminatedstrarray (a : StrArray) (ok : Bool) : ReqM (Option ℕ × ℕ) :=
  match a with
  | .nil => pure (none, 0)
  | .other => raise (.lua mustBeStrings)
  | .array xs => do
    let args ← couvAlloc ok
    strLoop args xs
    return (some args, xs.length)

def stdioLoop (stdio : ℕ) : List StdioElem → ReqM Unit
  | [] => pure ()
  | e :: es => do
    checked (stdioElem e)
    use stdio
    stdioLoop stdio es

/-- `couv_checkstdiocontainers` -/
def couvCheckstdiocontainers (a : Stdio) (ok : Bool) : ReqM (Option ℕ) :=
  match a with
  | .nil => pure none
  | .other => raise (.lua (.argError 1 "value at \"stdio\" key must be nil or table"))
  | .table es => do
    let stdio ← couvAlloc ok
    use stdio
    stdioLoop stdio es
    return some stdio

end ReqM

/-- `couvL_checkudataclass` for `couv.SockAddr` -/
def LuaArg.checksockaddr (arg : ℕ) (a : LuaArg) : Except LuaError SockaddrUd :=
  match a with
  | .value (.sockaddr ud) => .ok ud
  | _ => .error (.error s!"bad argument {arg} (couv.SockAddr expected)")

def LuaArg.checkstream (arg : ℕ) (a : LuaArg) : Except LuaError ℕ :=
  a.checkudataclass arg streamTypes "couv.Stream"

section calls
open HeapM ReqM
variable (env : ReqEnv)

/-! stream.c -/

def writeCb (req bufs : ℕ) : ReqM Unit := do
  use req
  free (some bufs)
  free (some req)

def couvWrite (self : LuaArg) (items : Option (List Value)) : ReqM ReqEnd := do
  let _ ← checked (self.checkstream 1)
  let bufs ← ReqM.couvCheckbuforstrtable env.mem 2 items (env.allocs 0)
  let req ← couvAlloc (env.allocs 1)
  use req
  uvCheck env.uv
  return .accepted (writeCb req bufs)

def couvWrite2 (self : LuaArg) (items : Option (List Value)) (sendHandle : LuaArg) :
    ReqM ReqEnd := do
  let _ ← checked (self.checkstream 1)
  let bufs ← ReqM.couvCheckbuforstrtable env.mem 2 items (env.allocs 0)
  -- this check comes after the allocation, and raises with bufs held
  let _ ← checked (sendHandle.checkstream 3)
  let req ← couvAlloc (env.allocs 1)
  use req
  uvCheck env.uv
  return .accepted (writeCb req bufs)

/-- shutdown_cb and connect_cb -/
def reqCb (req : ℕ) : ReqM Unit := do
  use req
  free (some req)

def couvShutdown (self : LuaArg) : ReqM ReqEnd := do
  let _ ← checked (self.checkstream 1)
  let req ← couvAlloc (env.allocs 0)
  use req
  uvCheck env.uv
  return .accepted (reqCb req)

/-! tcp.c and pipe.c -/

def tcpConnect (self addr : LuaArg) : ReqM ReqEnd := do
  let _ ← checked (self.checkudataclass 1 [.tcp] "couv.Tcp")
  let _ ← checked (addr.checksockaddr 2)
  let req ← couvAlloc (env.allocs 0)
  use req
  uvCheck env.uv
  return .accepted (reqCb req)

/-- `uv_pipe_connect` reports errors to the callback only. -/
def pipeConnect (self name : LuaArg) : ReqM ReqEnd := do
  let _ ← checked (self.checkudataclass 1 [.pipe] "couv.Pipe")
  let _ ← checked (name.checkstring 2)
  let req ← couvAlloc (env.allocs 0)
  use req
  return .accepted (reqCb req)

/-! udp.c -/

def udpSendCb (holder bufs : ℕ) : ReqM Unit := do
  use holder
  free (some bufs)
  free (some holder)

def udpSend (self : LuaArg) (items : Option (List Value)) (addr : LuaArg) : ReqM ReqEnd := do
  let _ ← checked (self.checkudataclass 1 [.udp] "couv.Udp")
  let bufs ← ReqM.couvCheckbuforstrtable env.mem 2 items (env.allocs 0)
  -- as in couv_write2, bufs is held when this raises
  let _ ← checked (addr.checksockaddr 3)
  let holder ← couvAlloc (env.allocs 1)
  use holder
  uvCheck env.uv
  return .accepted (udpSendCb holder bufs)

/-! couv.c -/

/-- With status 0 the addresses are pushed before the request is freed. -/
def getaddrinfoReqCb (status : ℤ) (addrs : List (List UInt8)) (req : ℕ) : ReqM Unit := do
  use req
  match (getaddrinfoCb status addrs).err with
  | some e => raise e
  | none => free (some req)

def getaddrinfoArgs (L : ℕ) (node service : LuaArg) (hints : Hints) : Except LuaError Unit := do
  let node ← node.optstring 1
  let service ← service.optstring 2
  luaLArgcheck (node ≠ none ∨ service ≠ none) 1 "node or service must not be nil"
  couvLCheckaddrinfohints 3 hints
  inCoroutine L "getaddrinfo must be called in coroutine."

def couvGetaddrinfo (node service : LuaArg) (hints : Hints) (status : ℤ)
    (addrs : List (List UInt8)) : ReqM ReqEnd := do
  checked (getaddrinfoArgs env.thread node service hints)
  let req ← couvAlloc (env.allocs 0)
  use req
  match env.uv with
  | some code => do
    free (some req)
    raise (.uv code)
  | none => return .accepted (getaddrinfoReqCb status addrs req)

def sleepArgs (L : ℕ) (timeout : LuaArg) : Except LuaError Unit := do
  let _ ← timeout.checkinteger 1
  inCoroutine L "sleep must be called in coroutine."

/-- The callback is sleep_cb, and after the close that it begins sleep_close_cb. -/
def couvSleep (timeout : LuaArg) : ReqM ReqEnd := do
  checked (sleepArgs env.thread timeout)
  let handle ← couvAlloc (env.allocs 0)
  use handle
  uvCheck env.uv
  return .accepted (reqCb handle)

/-! process.c -/

/-! `if (p) couv_free(L, p)`, and what uv_spawn reads. -/

def freeOpt (p : Option ℕ) : ReqM Unit :=
  match p with
  | some a => free (some a)
  | none => pure ()

def useOpt (p : Option ℕ) : ReqM Unit :=
  match p with
  | some a => use a
  | none => pure ()

def couvProcessSpawn (options : Option SpawnOptions) : ReqM ReqEnd :=
  match options with
  | none => raise (.lua (.argError 1 "must be table"))
  | some o => do
    -- each later check raises with the arrays before it held
    let (args, argc) ← couvTonullterminatedstrarray o.args (env.allocs 0)
    checked (luaLArgcheck (argc ≠ 0) (-1) "must have non-empty string array at key \"args\"")
    let (envs, _) ← couvTonullterminatedstrarray o.env (env.allocs 1)
    let stdio ← couvCheckstdiocontainers o.stdio (env.allocs 2)
    let _ ← checked (checkExitCb o.exitCb)
    useOpt args
    useOpt envs
    useOpt stdio
    uvCheck env.uv
    freeOpt args
    freeOpt envs
    freeOpt stdio
    return .returned

/-! fs.c -/

/-- `fs_common_callback` and `fs_exists_callback`: the results are pushed, then the request goes. -/
def fsReqCb (req : ℕ) : ReqM Unit := do
  use req
  free (some req)

/-- In the main thread the request is on the C stack. A rejected one is freed by what pushes
the error. -/
def fsReq (fn : FsFn) (args : List LuaArg) : ReqM ReqEnd :=
  match fn.branches env.mem args with
  | .error (.raise e) => raise (.lua e)
  | .error .fault => throw .fault
  | .ok _ =>
    -- uv_fs_t on the stack: no block
    if env.thread = mainThread then pure .returned
    else do
      let req ← couvAlloc (env.allocs 0)
      use req
      match env.uv with
      | some _ => do
        fsReqCb req
        return .returned
      | none => return .accepted (fsReqCb req)

end calls

/-- A call that obtains blocks, with its arguments and, for getaddrinfo, the result that its
callback gets. -/
inductive ReqCall
  | write (self : LuaArg) (items : Option (List Value))
  | write2 (self : LuaArg) (items : Option (List Value)) (sendHandle : LuaArg)
  | shutdown (self : LuaArg)
  | tcpConnect (self addr : LuaArg)
  | pipeConnect (self name : LuaArg)
  | udpSend (self : LuaArg) (items : Option (List Value)) (addr : LuaArg)
  | getaddrinfo (node service : LuaArg) (hints : Hints) (status : ℤ) (addrs : List (List UInt8))
  | sleep (timeout : LuaArg)
  | spawn (options : Option SpawnOptions)
  | fs (fn : FsFn) (args : List LuaArg)

def ReqCall.run (env : ReqEnv) : ReqCall → ReqM ReqEnd
  | write self items => couvWrite env self items
  | write2 self items sendHandle => couvWrite2 env self items sendHandle
  | shutdown self => couvShutdown env self
  | tcpConnect self addr => Couv.tcpConnect env self addr
  | pipeConnect self name => Couv.pipeConnect env self name
  | udpSend self items addr => Couv.udpSend env self items addr
  | getaddrinfo node service hints status addrs =>
    couvGetaddrinfo env node service hints status addrs
  | sleep timeout => couvSleep env timeout
  | spawn options => couvProcessSpawn env options
  | fs fn args => fsReq env fn args

end Couv
