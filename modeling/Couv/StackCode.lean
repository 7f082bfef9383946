import Couv.ClassCheck
import Couv.Rollback

/-! What the calls that write to the registry do on the Lua stack of their caller, and at which
addresses their entries lie. -/
namespace Couv

/-- `lua_insert`: the top goes below the slots that it is moved under. -/
def LuaStack.insert {V : Type*} (s : LuaStack V) (idx : ℤ) : LuaStack V :=
  match s.slots with
  | [] => s
  | v :: rest => ⟨rest.insertIdx (s.depth idx) v⟩

@[simp] theorem LuaStack.insert_second {V : Type*} (s : LuaStack V) (a b : V) :
    ((s.push a).push b).insert (-2) = (s.push b).push a := rfl

/-- What a slot of the stack or an entry of the registry holds. -/
inductive Slot
  | arg (a : LuaArg)
  | thread (L : ℕ)
  | lightuserdata (p : ℕ)
  | metatable (tname : String)
  deriving DecidableEq, Repr

namespace Slot

def nil : Slot := .arg (.value .nil)

/-- The entry that a slot makes. -/
def regVal : Slot → Option RegVal
  | .arg (.handle _ h) => some (.userdata h)
  | .arg (.function f) => some (.func f)
  | .thread L => some (.thread L)
  | _ => none

def value : Slot → Value
  | .arg (.value v) => v
  | _ => .nil

/-- Nil, or a value that the registry of the system model knows. -/
def Entry (v : Slot) : Prop := v = nil ∨ v.regVal.isSome = true

end Slot

/-- What a key of the registry points into. -/
inductive KeyBlock
  | handle (h : ℕ)
  | req (r : ℕ)
  deriving DecidableEq, Repr

namespace RegKey

def block : RegKey → KeyBlock
  | .userdata h | .thread h | .callback h => .handle h
  | .reqThread r => .req r

/-- `h`, `((char *)h) + 1` and `((char *)h) + 2` -/
def offset : RegKey → ℕ
  | .userdata _ => 0
  | .thread _ | .reqThread _ => 1
  | .callback _ => 2

theorem offset_le (k : RegKey) : k.offset ≤ 2 := by
  cases k <;> simp [offset]

theorem eq_of_block_offset {k l : RegKey} (hb : k.block = l.block) (ho : k.offset = l.offset) :
    k = l := by
  cases k <;> cases l <;> simp_all [block, offset]

end RegKey

/-- Where the handles and the requests lie: blocks of more than two bytes, none of which overlaps
another. -/
structure KeyLayout where
  start : KeyBlock → ℕ
  apart : ∀ b c, b ≠ c → start b+2 < start c ∨ start c+2 < start b

namespace KeyLayout

/-- Blocks of three bytes, those of the handles and those of the requests in turn. -/
instance : Inhabited KeyLayout where
  default :=
    { start := fun b => match b with
        | .handle h => 6*h
        | .req r => 6*r+3
      apart := by
        intro b c hne
        cases b <;> cases c <;>
          simp only [ne_eq, KeyBlock.handle.injEq, KeyBlock.req.injEq] at hne ⊢ <;> omega }

variable (lay : KeyLayout)

def key (k : RegKey) : ℕ := lay.start k.block+k.offset

theorem key_injective : Function.Injective lay.key := by
  intro k l he
  have hk := k.offset_le
  have hl := l.offset_le
  unfold key at he
  have hb : k.block = l.block := by
    by_contra hne
    have := lay.apart k.block l.block hne
    omega
  rw [hb] at he
  exact RegKey.eq_of_block_offset hb (Nat.add_left_cancel he)

end KeyLayout

/-- lua_resume runs the coroutine: it waits, or it has a function to run. -/
def Status.resumable : Status → Bool
  | .suspended _ | .fresh | .finished true => true
  | .running | .finished false => false

/-- The stack that a lua_resume of so many arguments leaves when it fails: an error message on the
top, and below it what the version of Lua and the reason for the failure leave. -/
structure ResumeFailure where
  leaves : Option Status → LuaStack Slot → ℕ → LuaStack Slot
  message : ∀ status st nargs, ∃ msg rest,
    leaves status st nargs = LuaStack.push rest (.arg (.value (.string msg)))

/-- The message in the place of the arguments. -/
instance : Inhabited ResumeFailure where
  default :=
    { leaves := fun _ st nargs => (st.pop nargs).push (.arg (.value (.string
        "cannot resume non-suspended coroutine".toUTF8.toList)))
      message := fun _ _ _ => ⟨_, _, rfl⟩ }

/-- The stack of the lua_State that runs the C function, the entries of the registry under light
userdata, the metatables of the handles, and the rest of the world, whose registry is not used. -/
structure CState where
  stack : LuaStack Slot
  registry : ℕ → Slot
  metatable : ℕ → Option String
  world : World

abbrev StackM := EStateM CallError CState

/-- What a C function returns: the number of values on the top, or that of lua_yield. -/
inductive CReturn
  | values (n : ℕ)
  | yield
  deriving DecidableEq, Repr

namespace StackM

/-! The API. -/

def check {α : Type} (x : Except LuaError α) : StackM α :=
  match x with
  | .ok a => pure a
  | .error e => throw (.lua e)

def uvCheck (uv : Option ℤ) : StackM Unit :=
  match uv with
  | none => pure ()
  | some code => throw (.uv code)

def world (f : World → World) : StackM Unit := modify (fun σ => { σ with world := f σ.world })

def push (v : Slot) : StackM Unit := modify (fun σ => { σ with stack := σ.stack.push v })

def luaPop (n : ℕ) : StackM Unit := modify (fun σ => { σ with stack := σ.stack.pop n })

def slot (idx : ℤ) : StackM Slot := fun σ => .ok ((σ.stack.get idx).getD .nil) σ

def luaPushvalue (idx : ℤ) : StackM Unit := do push (← slot idx)

def luaInsert (idx : ℤ) : StackM Unit :=
  modify (fun σ => { σ with stack := σ.stack.insert idx })

/-- `lua_rawset(L, LUA_REGISTRYINDEX)` -/
def luaRawset : StackM Unit := modify fun σ =>
  match σ.stack.get (-2) with
  | some (.lightuserdata p) =>
    { σ with
      stack := σ.stack.pop 2
      registry := Function.update σ.registry p ((σ.stack.get (-1)).getD .nil) }
  | _ => { σ with stack := σ.stack.pop 2 }

/-- `lua_rawget(L, LUA_REGISTRYINDEX)` -/
def luaRawget : StackM Unit := modify fun σ =>
  match σ.stack.get (-1) with
  | some (.lightuserdata p) => { σ with stack := (σ.stack.pop 1).push (σ.registry p) }
  | _ => { σ with stack := (σ.stack.pop 1).push .nil }

/-- `lua_setmetatable` on a handle, with what is on the top -/
def luaSetmetatable (idx : ℤ) : StackM Unit := modify fun σ =>
  match σ.stack.get idx, σ.stack.get (-1) with
  | some (.arg (.handle _ h)), some (.metatable tname) =>
    { σ with
      stack := σ.stack.pop 1
      metatable := Function.update σ.metatable h (some tname) }
  | _, _ => { σ with stack := σ.stack.pop 1 }

/-- The argument in a slot; none is nil, and what is no argument passes no check. -/
def argOf (st : LuaStack Slot) (idx : ℤ) : LuaArg :=
  match st.get idx with
  | some (.arg a) => a
  | some _ => .table []
  | none => .value .nil

def arg (idx : ℤ) : StackM LuaArg := fun σ => .ok (argOf σ.stack idx) σ

/-! auxlib.c -/

def couvRawsetp (p : ℕ) : StackM Unit := do
  push (.lightuserdata p)
  luaInsert (-2)
  luaRawset

def couvRawgetp (p : ℕ) : StackM Unit := do
  push (.lightuserdata p)
  luaRawget

/-- It leaves the lua_State `L` on the stack, unless it is the main one. -/
def couvLIsMainthread (L : ℕ) : StackM Bool := do
  push (.thread L)
  if L = mainThread then
    luaPop 1
    return true
  else return false

/-! The constructors. -/

section calls
variable (lay : KeyLayout) (boundary : Bool) (L : ℕ)

/-- `lua_newuserdata`, and the metatable of the class -/
def newHandle (type : HandleType) : StackM ℕ := do
  let h := (← get).world.handles.next
  world (fun s => s.newHandle type L)
  push (.arg (.handle type h))
  push (.metatable type.className)
  luaSetmetatable (-2)
  return h

/-- `couv_new_tcp_handle`, `couv_new_udp_handle` and `couv_new_pipe_handle` -/
def newInCoroutine (type : HandleType) (msg : String) : StackM ℕ := do
  let h ← newHandle L type
  if ← couvLIsMainthread L then throw (.lua (.error msg))
  else
    couvRawsetp (lay.key (couvThreadRegKey h))
    return h

/-- What tcp_new and its siblings do with a new handle. -/
def initStream (h : ℕ) (uv : Option ℤ) : StackM CReturn := do
  uvCheck uv
  world (fun s => (s.link h L).initQueue h)
  luaPushvalue (-1)
  couvRawsetp (lay.key (couvUserdataRegKey h))
  return .values 1

def tcpNew (uv : Option ℤ) : StackM CReturn := do
  let h ← newInCoroutine lay L .tcp
    "tcp handle must be created in coroutine, not in main thread."
  initStream lay L h uv

def udpNew (uv : Option ℤ) : StackM CReturn := do
  let h ← newInCoroutine lay L .udp
    "udp handle must be created in coroutine, not in main thread."
  initStream lay L h uv

def pipeNew (uv : Option ℤ) : StackM CReturn := do
  let h ← newInCoroutine lay L .pipe
    "pipe handle must be created in coroutine, not in main thread."
  initStream lay L h uv

def couvNewTtyHandle : StackM ℕ := do
  let h ← newHandle L .tty
  if ← couvLIsMainthread L then return h
  else
    couvRawsetp (lay.key (couvThreadRegKey h))
    return h

def ttyNew (uv : Option ℤ) : StackM CReturn := do
  let _ ← check ((← arg 1).checkint 1)
  let _ ← check ((← arg 2).checkint 2)
  let h ← couvNewTtyHandle lay L
  initStream lay L h uv

def couvTimerCreate (uv : Option ℤ) : StackM CReturn := do
  let h ← newHandle L .timer
  uvCheck uv
  world (fun s => s.link h L)
  return .values 1

/-- The fields of the options in front of exitCb, which are read and popped again. -/
def spawnReads (o : SpawnOptions) (allocs : ℕ → Bool) : Except LuaError Unit := do
  let args ← strArrayChecks o.args (allocs 0)
  checkArgc args
  let _ ← strArrayChecks o.env (allocs 1)
  stdioChecks o.stdio (allocs 2)

def couvProcessSpawn (options : Option SpawnOptions) (allocs : ℕ → Bool) (uv : Option ℤ) :
    StackM CReturn := do
  let h ← newHandle L .process
  match options with
  | none => throw (.lua (.argError 1 "must be table"))
  | some o =>
    check (spawnReads o allocs)
    push (.arg o.exitCb)
    let _ ← check (checkExitCb (← arg (-1)))
    couvRawsetp (lay.key (couvExitCbRegKey h))
    uvCheck uv
    world (fun s => (s.link h L).modifyHandle h (fun x => { x with armed := true }))
    luaPushvalue (-1)
    couvRawsetp (lay.key (couvUserdataRegKey h))
    return .values 1

/-! Methods and functions. -/

def couvListen (uv : Option ℤ) : StackM CReturn := do
  let h ← check ((← arg 1).checkudataclass 1 [.tcp, .pipe, .tty] "couv.Stream")
  let _ ← check ((← arg 2).checkint 2)
  let _ ← check ((← arg 3).checkfunction 3)
  luaPushvalue 3
  couvRawsetp (lay.key (couvListenCbRegKey h))
  uvCheck uv
  world (fun s => s.modifyHandle h (fun x => { x with armed := true }))
  luaPushvalue 1
  couvRawsetp (lay.key (couvUserdataRegKey h))
  return .values 0

def timerStart (uv : Option ℤ) : StackM CReturn := do
  let h ← check ((← arg 1).checkudataclass 1 [.timer] "couv.Timer")
  let _ ← check ((← arg 2).checkfunction 2)
  luaPushvalue 2
  couvRawsetp (lay.key (couvTimerCbRegKey h))
  let _ ← check ((← arg 3).optinteger 3 0)
  let rep ← check ((← arg 4).optinteger 4 0)
  uvCheck uv
  world (fun s => s.modifyHandle h
    (fun x => { x with armed := true, rep := rep ≠ 0, started := true }))
  luaPushvalue 1
  couvRawsetp (lay.key (couvUserdataRegKey h))
  return .values 0

/-- The main thread does not wait; the thread that is left on another stack is popped. -/
def couvClose : StackM CReturn := do
  let h ← check ((← arg 1).checkudataclass 1 [.tcp, .udp, .pipe, .tty, .timer, .process]
    "couv.Handle")
  world (fun s => s.modifyHandle h
    (fun x => { x with closing := true, armed := false, reading := none }))
  let req : Req := ⟨.close, some h, 0, L, .none, [], []⟩
  if ← couvLIsMainthread L then
    world (fun s => s.newReq req)
    return .values 0
  else
    luaPop 1
    world (fun s => s.submit boundary req)
    return .yield

/-- The end of couv_sleep and couv_getaddrinfo: the thread that couvL_is_mainthread has left on
the stack goes into the registry. -/
def submitAnchored (kind : ReqKind) (alloc : Bool) (uv : Option ℤ) : StackM CReturn := do
  check (couvAllocCheck alloc)
  let req : Req := ⟨kind, none, L, L, .none, [], []⟩
  couvRawsetp (lay.key (.reqThread (← get).world.reqs.next))
  match uv with
  | some code =>
    world (fun s => s.skipReq req)
    throw (.uv code)
  | none =>
    world (fun s => s.submit boundary req)
    return .yield

def couvSleep (allocs : ℕ → Bool) (uv : Option ℤ) : StackM CReturn := do
  let _ ← check ((← arg 1).checkinteger 1)
  if ← couvLIsMainthread L then throw (.lua (.error "sleep must be called in coroutine."))
  else submitAnchored lay boundary L .sleep (allocs 0) uv

/-- The fields of the hints stay on the stack. -/
def couvLCheckaddrinfohints (hints : Hints) (socktype protocol flags : LuaArg) : StackM Unit :=
  match hints with
  | .nil => pure ()
  | .other => throw (.lua (.argError 3 "must be table or nil"))
  | .table family => do
    push (.arg family)
    let family ← check (couvLTosockfamily (-1) (← arg (-1)))
    check (luaLArgcheck (family ≠ -1) 3
      "value at \"family\" key must be AF_UNSPEC, AF_INET or AF_INET6")
    push (.arg socktype)
    push (.arg protocol)
    push (.arg flags)

def couvGetaddrinfo (hints : Hints) (socktype protocol flags : LuaArg) (allocs : ℕ → Bool)
    (uv : Option ℤ) : StackM CReturn := do
  let node ← check ((← arg 1).optstring 1)
  let service ← check ((← arg 2).optstring 2)
  check (luaLArgcheck (node ≠ none ∨ service ≠ none) 1 "node or service must not be nil")
  couvLCheckaddrinfohints hints socktype protocol flags
  if ← couvLIsMainthread L then
    throw (.lua (.error "getaddrinfo must be called in coroutine."))
  else submitAnchored lay boundary L .getaddrinfo (allocs 0) uv

def pushValues (vs : List Value) : StackM Unit :=
  modify (fun σ => { σ with stack := σ.stack.pushAll (vs.map (fun v => .arg (.value v))) })

/-- The end of an fs call: `sync` is what the main thread pushes, and `rejected` what push_func
pushes if libuv rejects the request `req`. -/
def fsAfterAsyncCall (req : Req) (alloc : Bool) (sync : List Value)
    (rejected : Option (List Value)) : StackM CReturn := do
  if ← couvLIsMainthread L then
    pushValues sync
    return .values sync.length
  else
    check (couvAllocCheck alloc)
    match rejected with
    | some vs =>
      luaPop 1
      pushValues vs
      return .values vs.length
    | none =>
      couvRawsetp (lay.key (.reqThread (← get).world.reqs.next))
      world (fun s => s.submit boundary req)
      return .yield

end calls

/-! The callbacks. The stack is that of `handle->data` or `req->data`. -/

/-- `couv_resume` with the values on the top, which a coroutine takes if it waits or has a function
to run -/
def luaResume (fail : ResumeFailure) (L : ℕ) (src : Source) (nargs : ℕ) : StackM Unit :=
  modify fun σ =>
    { σ with
      stack := if (σ.world.status L).any Status.resumable then σ.stack.pop nargs
        else fail.leaves (σ.world.status L) σ.stack nargs
      world := σ.world.couvResume L src ((σ.stack.slots.take nargs).reverse.map Slot.value) }

/-- `lua_call` without results: the function that is called, and its arguments. -/
def luaCall (nargs : ℕ) : StackM (Slot × List Slot) := fun σ =>
  .ok ((σ.stack.get (-(nargs+1))).getD .nil, (σ.stack.slots.take nargs).reverse)
    { σ with stack := σ.stack.pop (nargs+1) }

section callbacks
variable (lay : KeyLayout) (fail : ResumeFailure)

/-- `lua_pushnil` and `couv_rawsetp` -/
def clearKey (k : RegKey) : StackM Unit := do
  push .nil
  couvRawsetp (lay.key k)

def couvCleanProcessHandle (h : ℕ) : StackM Unit := do
  clearKey lay (couvUserdataRegKey h)
  clearKey lay (couvExitCbRegKey h)

def couvCleanTcpHandle (h : ℕ) : StackM Unit := do
  clearKey lay (couvUserdataRegKey h)
  clearKey lay (couvThreadRegKey h)
  clearKey lay (couvListenCbRegKey h)

def couvCleanTimerHandle (h : ℕ) : StackM Unit := do
  clearKey lay (couvTimerCbRegKey h)
  clearKey lay (couvUserdataRegKey h)

def couvCleanUdpHandle (h : ℕ) : StackM Unit := do
  clearKey lay (couvUserdataRegKey h)
  clearKey lay (couvThreadRegKey h)

def couvCleanTtyHandle (h : ℕ) : StackM Unit := do
  clearKey lay (couvUserdataRegKey h)
  clearKey lay (couvThreadRegKey h)
  clearKey lay (couvListenCbRegKey h)

/-- The switch of close_cb, which has no case for pipes. -/
def couvCleanHandle (h : ℕ) : Option HandleType → StackM Unit
  | some .process => couvCleanProcessHandle lay h
  | some .tcp => couvCleanTcpHandle lay h
  | some .timer => couvCleanTimerHandle lay h
  | some .udp => couvCleanUdpHandle lay h
  | some .tty => couvCleanTtyHandle lay h
  | some .pipe | none => pure ()

/-- `close_cb`, for the close request `r` of `h` -/
def closeCb (h r : ℕ) : StackM Unit := do
  world (fun s =>
    let s := s.modifyHandle h (fun x => { x with closed := true })
    { s with reqs := s.reqs.free r })
  couvCleanHandle lay h ((← get).world.handleType h)
  let s := (← get).world
  if s.yielded (s.data h) then luaResume fail (s.data h) (.completion r) 0 else pure ()

def freeReq (r : ℕ) : StackM Unit := world (fun s => { s with reqs := s.reqs.free r })

/-- `write_cb`, `shutdown_cb`, `connect_cb` and `udp_send_cb` -/
def statusCb (r h : ℕ) (o : Outcome) : StackM Unit := do
  freeReq r
  pushValues (statusArgs o)
  luaResume fail ((← get).world.data h) (.completion r) (statusArgs o).length

def sleepCloseCb (r L : ℕ) : StackM Unit := do
  clearKey lay (.reqThread r)
  freeReq r
  luaResume fail L (.completion r) 0

def getaddrinfoCb (r L : ℕ) (o : Outcome) : StackM Unit := do
  pushValues (addrinfoArgs o)
  freeReq r
  luaResume fail L (.completion r) (addrinfoArgs o).length

/-- `fs_common_callback` and `fs_exists_callback` -/
def fsCallback (t : FsType) (r L : ℕ) (o : Outcome) : StackM Unit := do
  clearKey lay (.reqThread r)
  pushValues ((ReqKind.fs t).args o)
  freeReq r
  luaResume fail L (.completion r) ((ReqKind.fs t).args o).length

/-- The callback of the request `r`. -/
def complete (r : ℕ) (o : Outcome) : StackM Unit := do
  match (← get).world.reqs.get r with
  | none => pure ()
  | some req =>
    match req.kind with
    | .write | .write2 | .shutdown | .connect | .send => statusCb fail r (req.handle.getD 0) o
    | .close => closeCb lay fail (req.handle.getD 0) r
    | .sleep => world (fun s => s.sleepCb r)
    | .sleepClose => sleepCloseCb lay fail r req.data
    | .getaddrinfo => getaddrinfoCb fail r req.data o
    | .fs t => fsCallback lay fail t r req.data o

/-- What timer_cb and connection_cb push and call; `err` is the error name of a status that is
negative. -/
def callCb (h : ℕ) (err : Option ℤ) : StackM (Slot × List Slot) := do
  couvRawgetp (lay.key (.callback h))
  couvRawgetp (lay.key (couvUserdataRegKey h))
  match err with
  | some code =>
    push (.arg (.value (.errname code)))
    luaCall 2
  | none => luaCall 1

/-- libuv stops a timer that does not repeat before it calls back. -/
def timerCb (h : ℕ) (err : Option ℤ) : StackM (Slot × List Slot) := do
  world (fun s => s.timerCb h)
  callCb lay h err

def connectionCb (h : ℕ) (err : Option ℤ) : StackM (Slot × List Slot) := do
  world (fun s => s.connectionCb h)
  callCb lay h err

def exitCb (h : ℕ) (exitStatus termSignal : ℤ) : StackM (Slot × List Slot) := do
  world (fun s => s.exitCb h)
  couvRawgetp (lay.key (couvExitCbRegKey h))
  couvRawgetp (lay.key (couvUserdataRegKey h))
  push (.arg (.value (.number exitStatus)))
  push (.arg (.value (.number termSignal)))
  luaCall 3

end callbacks

end StackM

/-! What the system model sees of such a state. -/

namespace CState
variable (σ : CState) (lay : KeyLayout)

def setWorld (g : World → World) : CState := { σ with world := g σ.world }

def setEntry (p : ℕ) (v : Slot) : CState := { σ with registry := Function.update σ.registry p v }

def setStack (st : LuaStack Slot) : CState := { σ with stack := st }

/-- The world with the registry that lies at the addresses of the keys. -/
def view : World := { σ.world with registry := fun k => (σ.registry (lay.key k)).regVal }

/-- The registry holds nothing but what a world's registry has. -/
def Clean : Prop := ∀ p, (σ.registry p).Entry

theorem view_setEntry (k : RegKey) (v : Slot) :
    (σ.setEntry (lay.key k) v).view lay = (σ.view lay).couvRawsetp k v.regVal := by
  have hreg (l : RegKey) : (Function.update σ.registry (lay.key k) v (lay.key l)).regVal =
      if l = k then v.regVal else (σ.registry (lay.key l)).regVal := by
    by_cases hl : l = k
    · rw [hl, Function.update_self, if_pos rfl]
    · rw [Function.update_of_ne (fun he => hl (lay.key_injective he)), if_neg hl]
  simp only [view, setEntry, hreg]
  rfl

theorem view_setWorld {g : World → World}
    (hg : ∀ w r, g { w with registry := r } = { g w with registry := r }) :
    (σ.setWorld g).view lay = g (σ.view lay) := (hg _ _).symm

theorem view_setStack (st : LuaStack Slot) : (σ.setStack st).view lay = σ.view lay := rfl

variable {σ}

theorem Clean.setEntry (hσ : σ.Clean) (p : ℕ) {v : Slot} (hv : v.Entry) :
    (σ.setEntry p v).Clean := by
  intro q
  change (Function.update σ.registry p v q).Entry
  by_cases hq : q = p
  · rw [hq, Function.update_self]
    exact hv
  · rw [Function.update_of_ne hq]
    exact hσ q

end CState

namespace StackM
variable {α : Type} {σ : CState}

/-! What the operations do in front of others. -/

theorem arg_bind (idx : ℤ) (f : LuaArg → StackM α) : (arg idx >>= f) σ = f (argOf σ.stack idx) σ :=
  rfl

theorem check_ok {β : Type} (b : β) (f : β → StackM α) : (check (.ok b) >>= f) σ = f b σ := rfl

theorem uvCheck_none (f : Unit → StackM α) : (uvCheck none >>= f) σ = f () σ := rfl

theorem get_bind (f : CState → StackM α) : (get >>= f) σ = f σ σ := rfl

theorem world_bind (g : World → World) (f : Unit → StackM α) :
    (world g >>= f) σ = f () (σ.setWorld g) := rfl

/-- A value that is pushed and stored leaves the stack as it was. -/
theorem push_rawsetp (v : Slot) (p : ℕ) (f : Unit → StackM α) :
    (push v >>= fun _ => couvRawsetp p >>= f) σ = f () (σ.setEntry p v) := by
  have hset : (push v >>= fun _ => couvRawsetp p >>= f) σ = (luaRawset >>= f)
      (σ.setStack ((σ.stack.push (.lightuserdata p)).push v)) := rfl
  have hraw : luaRawset (σ.setStack ((σ.stack.push (.lightuserdata p)).push v)) =
      .ok () (σ.setEntry p v) := by
    change EStateM.Result.ok () _ = _
    simp only [CState.setStack, LuaStack.get_second, LuaStack.get_top, Option.getD_some,
      LuaStack.pop_push, LuaStack.pop_zero]
    rfl
  rw [hset, run_bind_ok hraw]

theorem pushvalue_rawsetp (idx : ℤ) (p : ℕ) (f : Unit → StackM α) :
    (luaPushvalue idx >>= fun _ => couvRawsetp p >>= f) σ =
      f () (σ.setEntry p ((σ.stack.get idx).getD .nil)) :=
  push_rawsetp _ p f

/-- The new handle is on the top, with the metatable of its class. -/
def newState (σ : CState) (L : ℕ) (type : HandleType) : CState :=
  { stack := σ.stack.push (.arg (.handle type σ.world.handles.next))
    registry := σ.registry
    metatable := Function.update σ.metatable σ.world.handles.next (some type.className)
    world := σ.world.newHandle type L }

theorem newHandle_bind (L : ℕ) (type : HandleType) (f : ℕ → StackM α) :
    (newHandle L type >>= f) σ = f σ.world.handles.next (newState σ L type) := by
  have hrun : newHandle L type σ = .ok σ.world.handles.next (newState σ L type) := by
    change EStateM.Result.ok _ _ = _
    simp only [LuaStack.get_second, LuaStack.get_top, LuaStack.pop_push, LuaStack.pop_zero]
    rfl
  rw [run_bind_ok hrun]

theorem isMainthread_main (f : Bool → StackM α) :
    (couvLIsMainthread mainThread >>= f) σ = f true σ := rfl

theorem isMainthread_other {L : ℕ} (hL : L ≠ mainThread) (f : Bool → StackM α) :
    (couvLIsMainthread L >>= f) σ = f false (σ.setStack (σ.stack.push (.thread L))) := by
  have hrun : couvLIsMainthread L σ = .ok false (σ.setStack (σ.stack.push (.thread L))) := by
    simp only [couvLIsMainthread, if_neg hL]
    rfl
  rw [run_bind_ok hrun]

/-- The thread that couvL_is_mainthread has left is stored. -/
theorem thread_rawsetp (v : Slot) (p : ℕ) (f : Unit → StackM α) :
    (couvRawsetp p >>= f) (σ.setStack (σ.stack.push v)) = f () (σ.setEntry p v) :=
  push_rawsetp v p f

end StackM

/-- Code on the stack ends as a call of the system model does, in a state that shows the same
world; `Q` says what it returns and leaves on the stack. -/
def Agrees {α β : Type} (lay : KeyLayout) (Q : α → LuaStack Slot → Prop) :
    EStateM.Result CallError CState α → EStateM.Result CallError World β → Prop
  | .ok a σ, .ok _ s => σ.Clean ∧ σ.view lay = s ∧ Q a σ.stack
  | .error e σ, .error e' s => e = e' ∧ σ.Clean ∧ σ.view lay = s
  | _, _ => False

end Couv
