import Couv.Buffer
import Couv.NgxQueue
import Couv.Sockaddr

/-! The state of a program that uses couv: coroutines, handles, requests, the registry, the
input queues and the heap. -/
namespace Couv

def mainThread : ℕ := 0

/-- What is on the C stack: a coroutine being run by lua_resume (or the main thread), uv_run,
or a Lua callback that lua_call runs on a lua_State. -/
inductive Frame
  | thread (L : ℕ)
  | loop
  | call (L : ℕ)
  deriving DecidableEq, Repr

inductive HandleType
  | tcp | udp | pipe | tty | timer | process
  deriving DecidableEq, Repr

/-- The three pairs of an input callback and a reading method. -/
inductive InputMode
  | read | read2 | recv
  deriving DecidableEq, Repr

/-- What a yielded coroutine waits in: its own coroutine.yield, a read loop of couv.lua on a
handle, or another call, by its request. -/
inductive Wait
  | yield
  | input (m : InputMode) (h : ℕ)
  | req (r : ℕ)
  deriving DecidableEq, Repr

/-- `callable`: a finished coroutine left a value that lua_resume would call. -/
inductive Status
  | fresh
  | running
  | suspended (w : Wait)
  | finished (callable : Bool)
  deriving DecidableEq, Repr

structure Thread where
  status : Status
  /-- its lua_State has been released by the collector -/
  collected : Bool
  deriving DecidableEq, Repr

/-- A handle userdata. `data` is `handle->data`. -/
structure Handle where
  type : HandleType
  data : ℕ
  /-- the coroutine that made it -/
  creator : ℕ
  /-- uv_*_init or uv_spawn has succeeded -/
  linked : Bool
  closing : Bool
  /-- the close callback has run -/
  closed : Bool
  reading : Option InputMode
  /-- an active timer, a live child or a listening stream -/
  armed : Bool
  rep : Bool
  /-- a call of start on it has succeeded -/
  started : Bool
  collected : Bool
  deriving DecidableEq, Repr

/-- The bytes behind one `uv_buf_t`: those of a Lua string, or a range of a block. -/
inductive Range
  | str (s : ℕ)
  | mem (base : Option Ptr) (len : ℕ)
  deriving DecidableEq, Repr

/-- A Lua value that a write may be given: a string object, a Buffer, or another value. -/
inductive Item
  | str (s : ℕ)
  | buffer (b : ℕ)
  | other
  deriving DecidableEq, Repr

/-- What the suspended call holds on its Lua stack. -/
inductive Arg
  | none
  | item (i : Item)
  | table (t : ℕ)
  deriving DecidableEq, Repr

inductive FsType
  | open | read | write | lstat | fstat | stat | readlink | readdir | exists | other
  deriving DecidableEq, Repr

/-- `sleep` is the running timer of couv_sleep, `sleepClose` the same timer being closed. -/
inductive ReqKind
  | write | write2 | shutdown | connect | send | close | sleep | sleepClose | getaddrinfo
  | fs (t : FsType)
  deriving DecidableEq, Repr

/-- An accepted request. `handle` is `req->handle`; a request without one, and the timer of
couv_sleep, have their lua_State in `data`. -/
structure Req where
  kind : ReqKind
  handle : Option ℕ
  data : ℕ
  caller : ℕ
  arg : Arg
  /-- the values the ranges were made from -/
  owners : List Item
  ranges : List Range
  deriving DecidableEq, Repr

/-- An input node. `pending` is what lies at the field of that name, `storage` at `addr`. -/
structure InputNode where
  mode : InputMode
  handle : ℕ
  nread : ℤ
  wBuf : CouvBuf
  pending : ℤ
  storage : List UInt8

/-- The queue cells of all handles. -/
structure Input where
  links : Links QAddr
  nodes : Store InputNode
  /-- the handles whose queue has been initialised -/
  roots : List ℕ
  appended : ℕ → List ℕ
  unlinked : ℕ → List ℕ

/-- A buffer that couv_buf_alloc_cb gave to libuv and no input callback has got yet. -/
structure UvRead where
  handle : ℕ
  block : ℕ
  len : ℕ
  deriving DecidableEq, Repr

/-- COUV_USERDATA_REG_KEY and so on; `reqThread` is COUV_THREAD_REG_KEY of a request. The
listen, timer and exit callbacks share one key. -/
inductive RegKey
  | userdata (h : ℕ)
  | thread (h : ℕ)
  | callback (h : ℕ)
  | reqThread (r : ℕ)
  deriving DecidableEq, Repr

def couvUserdataRegKey (h : ℕ) : RegKey := .userdata h
def couvThreadRegKey (h : ℕ) : RegKey := .thread h
def couvListenCbRegKey (h : ℕ) : RegKey := .callback h
def couvTimerCbRegKey (h : ℕ) : RegKey := .callback h
def couvExitCbRegKey (h : ℕ) : RegKey := .callback h

inductive RegVal
  | userdata (h : ℕ)
  | thread (L : ℕ)
  | func (f : ℕ)
  deriving DecidableEq, Repr

/-- Where the values come from that a wait returned with. -/
inductive Source
  | lua
  | input (h : ℕ)
  | completion (r : ℕ)
  | node (n : ℕ)
  deriving DecidableEq, Repr

/-- A coroutine went on after a call, with these values. -/
structure Return where
  thread : ℕ
  wait : Wait
  source : Source
  values : List Value
  deriving DecidableEq, Repr

structure World where
  frames : List Frame
  threads : Store Thread
  handles : Store Handle
  reqs : Store Req
  registry : RegKey → Option RegVal
  input : Input
  mem : Mem
  reads : List UvRead
  strings : Store LuaString
  tables : Store (List Item)
  returns : List Return

namespace World

def init : World where
  frames := [.thread mainThread]
  threads := Store.empty.alloc ⟨.running, false⟩
  handles := .empty
  reqs := .empty
  registry _ := none
  input := ⟨⟨fun _ => .root 0, fun _ => .root 0⟩, .empty, [], fun _ => [], fun _ => []⟩
  mem := .empty
  reads := []
  strings := .empty
  tables := .empty
  returns := []

variable (s : World)

/-- The lua_State whose Lua code runs, if libuv does not run. -/
def current : Option ℕ :=
  match s.frames with
  | .thread L :: _ | .call L :: _ => some L
  | _ => none

/-- libuv runs and may call a callback. -/
def inLoop : Prop := s.frames.head? = some .loop

instance : Decidable s.inLoop := inferInstanceAs (Decidable (_ = _))

def status (L : ℕ) : Option Status := (s.threads.get L).map (·.status)

/-- `lua_status(L) == LUA_YIELD` -/
def yielded (L : ℕ) : Bool :=
  match s.status L with
  | some (.suspended _) => true
  | _ => false

def collected (L : ℕ) : Bool := (s.threads.get L).any (·.collected)

/-- `handle->data` -/
def data (h : ℕ) : ℕ := ((s.handles.get h).map (·.data)).getD 0

/-- `handle->type` -/
def handleType (h : ℕ) : Option HandleType := (s.handles.get h).map (·.type)

def setStatus (L : ℕ) (st : Status) : World :=
  { s with threads := s.threads.modify L (fun t => { t with status := st }) }

def push (f : Frame) : World := { s with frames := f :: s.frames }

/-- Leave the innermost frame. -/
def pop : World := { s with frames := s.frames.tail }

def log (r : Return) : World := { s with returns := r :: s.returns }

/-- `couv_rawsetp(L, LUA_REGISTRYINDEX, k)` with the value `v`, or nil. -/
def couvRawsetp (k : RegKey) (v : Option RegVal) : World :=
  { s with registry := fun k' => if k' = k then v else s.registry k' }

def modifyHandle (h : ℕ) (f : Handle → Handle) : World :=
  { s with handles := s.handles.modify h f }

@[simp] theorem couvRawsetp_registry (k k' : RegKey) (v : Option RegVal) :
    (s.couvRawsetp k v).registry k' = if k' = k then v else s.registry k' := rfl

@[simp] theorem couvRawsetp_handles (k : RegKey) (v : Option RegVal) :
    (s.couvRawsetp k v).handles = s.handles := rfl

@[simp] theorem modifyHandle_handles (h : ℕ) (f : Handle → Handle) :
    (s.modifyHandle h f).handles = s.handles.modify h f := rfl

@[simp] theorem modifyHandle_registry (h : ℕ) (f : Handle → Handle) :
    (s.modifyHandle h f).registry = s.registry := rfl

theorem status_setStatus (L : ℕ) (st : Status) (T : ℕ) :
    (s.setStatus L st).status T = if T = L then (s.status L).map (fun _ => st) else s.status T := by
  simp only [status, setStatus, Store.modify_get]
  split
  · cases s.threads.get L <;> rfl
  · rfl

theorem status_setStatus_self {L : ℕ} {st : Status} (st' : Status) (h : s.status L = some st) :
    (s.setStatus L st').status L = some st' := by
  rw [status_setStatus, if_pos rfl, h]
  rfl

@[simp] theorem collected_setStatus (L : ℕ) (st : Status) (T : ℕ) :
    (s.setStatus L st).collected T = s.collected T := by
  simp only [collected, setStatus, Store.modify_get]
  split
  · next h => subst h; cases s.threads.get T <;> rfl
  · rfl

theorem yielded_iff {L : ℕ} : s.yielded L = true ↔ ∃ w, s.status L = some (.suspended w) := by
  unfold yielded
  split
  · next w h => simp [h]
  · next h =>
    simp only [Bool.false_eq_true, false_iff, not_exists]
    exact fun w hw => h w hw

end World
end Couv
