import Couv.Coroutine

/-! handle.c, tcp.c, udp.c, pipe.c, tty.c, timer.c and process.c: making, arming and closing
handles. `L` is the calling lua_State and `ok` says whether libuv accepts the call. -/
namespace Couv

/-- How a call ends that sets a callback before its last check: that check raises, libuv
rejects the call, or libuv accepts it. -/
inductive CallResult
  | argError
  | uvError
  | ok
  deriving DecidableEq, Repr

namespace World

variable (s : World)

/-- `lua_newuserdata` and the metatable; libuv does not know the handle yet. -/
def newHandle (type : HandleType) (L : ℕ) : World :=
  let x : Handle :=
    { type, data := 0, creator := L, linked := false, closing := false, closed := false,
      reading := none, armed := false, rep := false, started := false, collected := false }
  { s with handles := s.handles.alloc x }

/-- uv_*_init has succeeded; then `handle->data = L`. -/
def link (h L : ℕ) : World := s.modifyHandle h (fun x => { x with linked := true, data := L })

/-- `ngx_queue_init(&hdata->input_queue)` -/
def initQueue (h : ℕ) : World :=
  { s with input := { s.input with
      links := ngxQueueInit s.input.links (.root h)
      roots := h :: s.input.roots } }

@[simp] theorem newHandle_registry (type : HandleType) (L : ℕ) :
    (s.newHandle type L).registry = s.registry := rfl

@[simp] theorem link_registry (h L : ℕ) : (s.link h L).registry = s.registry := rfl

@[simp] theorem initQueue_registry (h : ℕ) : (s.initQueue h).registry = s.registry := rfl

/-- What tcp_new, udp_new, pipe_new and tty_new do after the allocation of `h`. -/
def initStream (h L : ℕ) (ok : Bool) : World :=
  if ok then
    (((s.link h L).initQueue h).couvRawsetp (couvUserdataRegKey h) (some (.userdata h)))
  else s

/-- `couv_new_tcp_handle` and its siblings set the thread key before the initialisation. -/
def newInCoroutine (type : HandleType) (L : ℕ) (ok : Bool) : World :=
  let h := s.handles.next
  let s := s.newHandle type L
  -- luaL_error: the new userdata is left to the collector
  if L = mainThread then s
  else (s.couvRawsetp (couvThreadRegKey h) (some (.thread L))).initStream h L ok

def tcpNew (L : ℕ) (ok : Bool) : World := s.newInCoroutine .tcp L ok
def udpNew (L : ℕ) (ok : Bool) : World := s.newInCoroutine .udp L ok
def pipeNew (L : ℕ) (ok : Bool) : World := s.newInCoroutine .pipe L ok

/-- A tty may be made in the main thread; then it has no thread key. -/
def ttyNew (L : ℕ) (ok : Bool) : World :=
  let h := s.handles.next
  let s := s.newHandle .tty L
  let s := if L = mainThread then s else s.couvRawsetp (couvThreadRegKey h) (some (.thread L))
  s.initStream h L ok

def couvTimerCreate (L : ℕ) (ok : Bool) : World :=
  let h := s.handles.next
  let s := s.newHandle .timer L
  if ok then s.link h L else s

/-- The exit callback is registered before uv_spawn. -/
def couvProcessSpawn (L f : ℕ) (r : CallResult) : World :=
  let h := s.handles.next
  let s := s.newHandle .process L
  match r with
  | .argError => s
  | .uvError => s.couvRawsetp (couvExitCbRegKey h) (some (.func f))
  | .ok =>
    let s := (s.couvRawsetp (couvExitCbRegKey h) (some (.func f))).link h L
    let s := s.modifyHandle h (fun x => { x with armed := true })
    s.couvRawsetp (couvUserdataRegKey h) (some (.userdata h))

def tcpOpen (h L : ℕ) (ok : Bool) : World :=
  if ok then s.modifyHandle h (fun x => { x with data := L }) else s

def couvListen (h f : ℕ) (ok : Bool) : World :=
  let s := s.couvRawsetp (couvListenCbRegKey h) (some (.func f))
  -- uv_listen may fail, and the callback stays set
  if ok then
    (s.modifyHandle h (fun x => { x with armed := true })).couvRawsetp (couvUserdataRegKey h)
      (some (.userdata h))
  else s

/-- The callback is registered before timeout and repeat are checked. -/
def timerStart (h f : ℕ) (rep : Bool) (r : CallResult) : World :=
  let s := s.couvRawsetp (couvTimerCbRegKey h) (some (.func f))
  match r with
  | .argError | .uvError => s
  | .ok =>
    (s.modifyHandle h (fun x => { x with armed := true, rep := rep, started := true })).couvRawsetp
      (couvUserdataRegKey h) (some (.userdata h))

def timerStop (h : ℕ) : World := s.modifyHandle h (fun x => { x with armed := false })

/-- uv_timer_again restarts a timer that has been started and repeats. -/
def timerAgain (h : ℕ) : World :=
  s.modifyHandle h (fun x => { x with armed := x.armed || (x.started && x.rep) })

def timerSetRepeat (h : ℕ) (rep : Bool) : World :=
  s.modifyHandle h (fun x => { x with rep := rep })

/-- `couv_read_start`, `couv_read2_start` and `udp_recv_start` -/
def readStart (m : InputMode) (h : ℕ) (ok : Bool) : World :=
  if ok then s.modifyHandle h (fun x => { x with reading := some m }) else s

/-- `couv_read_stop` and `udp_recv_stop` -/
def readStop (h : ℕ) : World := s.modifyHandle h (fun x => { x with reading := none })

/-! The callbacks that invoke Lua functions with lua_call on `handle->data`. -/

/-- libuv stops a timer that does not repeat before it calls back. -/
def timerCb (h : ℕ) : World :=
  (s.modifyHandle h (fun x => { x with armed := x.rep })).push (.call (s.data h))

def exitCb (h : ℕ) : World :=
  (s.modifyHandle h (fun x => { x with armed := false })).push (.call (s.data h))

def connectionCb (h : ℕ) : World := s.push (.call (s.data h))

/-! Closing. -/

def couvCleanProcessHandle (h : ℕ) : World :=
  (s.couvRawsetp (couvUserdataRegKey h) none).couvRawsetp (couvExitCbRegKey h) none

def couvCleanTcpHandle (h : ℕ) : World :=
  ((s.couvRawsetp (couvUserdataRegKey h) none).couvRawsetp (couvThreadRegKey h) none).couvRawsetp
    (couvListenCbRegKey h) none

def couvCleanTimerHandle (h : ℕ) : World :=
  (s.couvRawsetp (couvTimerCbRegKey h) none).couvRawsetp (couvUserdataRegKey h) none

def couvCleanUdpHandle (h : ℕ) : World :=
  (s.couvRawsetp (couvUserdataRegKey h) none).couvRawsetp (couvThreadRegKey h) none

def couvCleanTtyHandle (h : ℕ) : World :=
  ((s.couvRawsetp (couvUserdataRegKey h) none).couvRawsetp (couvThreadRegKey h) none).couvRawsetp
    (couvListenCbRegKey h) none

/-- The switch of close_cb, which has no case for pipes. -/
def couvCleanHandle (h : ℕ) : World :=
  match s.handleType h with
  | some .process => s.couvCleanProcessHandle h
  | some .tcp => s.couvCleanTcpHandle h
  | some .timer => s.couvCleanTimerHandle h
  | some .udp => s.couvCleanUdpHandle h
  | some .tty => s.couvCleanTtyHandle h
  | some .pipe | none => s

/-- `close_cb`, for the close request `r` of `h`. -/
def closeCb (h r : ℕ) : World :=
  let L := s.data h
  let s := s.modifyHandle h (fun x => { x with closed := true })
  let s := { s with reqs := s.reqs.free r }
  let s := s.couvCleanHandle h
  -- the main thread does not yield, so its close wakes no one
  if s.yielded L then s.couvResume L (.completion r) [] else s

/-- A request that libuv has accepted. -/
def newReq (req : Req) : World := { s with reqs := s.reqs.alloc req }

/-- Submit a request and wait for it. -/
def submit (boundary : Bool) (req : Req) : World :=
  (s.newReq req).luaYield boundary (.req s.reqs.next)

/-- uv_close stops the handle at once; the main thread goes on. -/
def couvClose (boundary : Bool) (h L : ℕ) : World :=
  let s := s.modifyHandle h
    (fun x => { x with closing := true, armed := false, reading := none })
  let req : Req := ⟨.close, some h, 0, L, .none, [], []⟩
  if L = mainThread then s.newReq req else s.submit boundary req

end World
end Couv
