import Couv.HandleOps

/-! The suspending calls of stream.c, udp.c, tcp.c, pipe.c, couv.c and fs.c, and the callbacks
that complete them. -/
namespace Couv

/-- What libuv reports to a callback: the status or `req->result`, the error code, and the
data of a success. -/
structure Outcome where
  status : ℤ
  code : ℤ
  infos : List Addrinfo
  text : LuaString
  stat : List UInt8
  entries : List LuaString
  deriving DecidableEq, Repr

def Outcome.ok : Outcome := ⟨0, 0, [], [], [], []⟩

/-- The values write_cb, shutdown_cb, connect_cb and udp_send_cb resume with. -/
def statusArgs (o : Outcome) : List Value := if o.status < 0 then [.errname o.code] else []

def addrinfoArgs (o : Outcome) : List Value :=
  if o.status = 0 then [.addrinfos o.infos] else [.nil, .errname o.code]

/-- `fs_error` of an asynchronous request -/
def fsError (t : FsType) (o : Outcome) : List Value :=
  match t with
  | .open | .read | .write | .lstat | .fstat | .stat | .readlink | .readdir =>
    [.nil, .errname o.code]
  | _ => [.errname o.code]

def fsPushCommonResults (t : FsType) (o : Outcome) : List Value :=
  if o.status < 0 then fsError t o
  else
    match t with
    | .open | .read | .write => [.number o.status]
    | .lstat | .fstat | .stat => [.stat o.stat]
    | .readlink => [.string o.text]
    | .readdir => [.strings o.entries]
    | _ => []

def fsPushExistsResults (o : Outcome) : List Value := [.boolean (o.status = 0)]

/-- The values a request completes with. -/
def ReqKind.args (k : ReqKind) (o : Outcome) : List Value :=
  match k with
  | .write | .write2 | .shutdown | .connect | .send => statusArgs o
  | .close | .sleep | .sleepClose => []
  | .getaddrinfo => addrinfoArgs o
  | .fs .exists => fsPushExistsResults o
  | .fs t => fsPushCommonResults t o

namespace World

variable (s : World)

/-! Strings and Buffers given to a call. -/

/-- `couv_tobuforstr` -/
def bufOrStr (i : Item) : Option Range :=
  match i with
  | .str sid => some (.str sid)
  | .buffer b => (s.mem.bufs.get b).bind (fun buf => buf.base.map (fun p => .mem (some p) buf.len))
  | .other => none

/-- `couv_checkbuforstrtable`: the elements of the table and their `uv_buf_t`s. -/
def bufOrStrTable (t : ℕ) : Option (List Item × List Range) :=
  (s.tables.get t).bind (fun items => (items.mapM s.bufOrStr).map (fun rs => (items, rs)))

def itemValue (i : Item) : Value :=
  match i with
  | .str sid => .string ((s.strings.get sid).getD [])
  | .buffer b => .buffer b
  | .other => .nil

/-! Calls on a handle. -/

/-- A call that hands the buffers of a table to libuv. -/
def submitBufs (kind : ReqKind) (boundary : Bool) (h L t : ℕ) (ok : Bool) : World :=
  -- an element that is no string or Buffer raises before libuv is called
  match s.bufOrStrTable t with
  | none => s
  | some (items, ranges) =>
    if ok then s.submit boundary ⟨kind, some h, 0, L, .table t, items, ranges⟩ else s

def couvWrite (boundary : Bool) (h L t : ℕ) (ok : Bool) : World :=
  s.submitBufs .write boundary h L t ok

def couvWrite2 (boundary : Bool) (h L t : ℕ) (ok : Bool) : World :=
  s.submitBufs .write2 boundary h L t ok

def udpSend (boundary : Bool) (h L t : ℕ) (ok : Bool) : World :=
  s.submitBufs .send boundary h L t ok

def couvShutdown (boundary : Bool) (h L : ℕ) (ok : Bool) : World :=
  if ok then s.submit boundary ⟨.shutdown, some h, 0, L, .none, [], []⟩ else s

/-- `tcp_connect`; `pipe_connect` is the case in which libuv never rejects. -/
def tcpConnect (boundary : Bool) (h L : ℕ) (ok : Bool) : World :=
  if ok then s.submit boundary ⟨.connect, some h, 0, L, .none, [], []⟩ else s

def pipeConnect (boundary : Bool) (h L : ℕ) : World := s.tcpConnect boundary h L true

/-! The callbacks of these resume `handle->data`. -/

def resumeData (r h : ℕ) (o : Outcome) : World :=
  { s with reqs := s.reqs.free r }.couvResume (s.data h) (.completion r) (statusArgs o)

def writeCb (r h : ℕ) (o : Outcome) : World := s.resumeData r h o
def shutdownCb (r h : ℕ) (o : Outcome) : World := s.resumeData r h o
def connectCb (r h : ℕ) (o : Outcome) : World := s.resumeData r h o
def udpSendCb (r h : ℕ) (o : Outcome) : World := s.resumeData r h o

/-! Calls that keep their coroutine in the registry. -/

/-- A block that is freed, or leaked, without a request having been accepted. -/
def skipReq (req : Req) : World :=
  { s with reqs := (s.reqs.alloc req).free s.reqs.next }

/-- `couv_sleep` and `couv_getaddrinfo` set the thread key before they call libuv. -/
def submitAnchored (kind : ReqKind) (boundary : Bool) (L : ℕ) (ok : Bool) : World :=
  if L = mainThread then s
  else
    let req : Req := ⟨kind, none, L, L, .none, [], []⟩
    let s := s.couvRawsetp (.reqThread s.reqs.next) (some (.thread L))
    -- when libuv rejects the call it raises and leaves its thread in the registry
    if ok then s.submit boundary req else s.skipReq req

def couvSleep (boundary : Bool) (L : ℕ) (ok : Bool) : World :=
  s.submitAnchored .sleep boundary L ok

def couvGetaddrinfo (boundary : Bool) (L : ℕ) (ok : Bool) : World :=
  s.submitAnchored .getaddrinfo boundary L ok

/-- `sleep_cb` only closes the timer. -/
def sleepCb (r : ℕ) : World :=
  { s with reqs := s.reqs.modify r (fun req => { req with kind := .sleepClose }) }

def sleepCloseCb (r L : ℕ) : World :=
  let s := s.couvRawsetp (.reqThread r) none
  { s with reqs := s.reqs.free r }.couvResume L (.completion r) []

/-- The thread key of the request stays. -/
def getaddrinfoCb (r L : ℕ) (o : Outcome) : World :=
  { s with reqs := s.reqs.free r }.couvResume L (.completion r) (addrinfoArgs o)

/-! fs.c: in the main thread the calls are synchronous; in a coroutine the thread key is set
once libuv has accepted the request. -/

def fsAfterAsyncCall (t : FsType) (boundary : Bool) (L : ℕ) (arg : Arg) (owners : List Item)
    (ranges : List Range) (ok : Bool) : World :=
  if L = mainThread ∨ ok = false then s
  else
    (s.couvRawsetp (.reqThread s.reqs.next) (some (.thread L))).submit boundary
      ⟨.fs t, none, L, L, arg, owners, ranges⟩

/-- Every fs call that hands no memory to libuv. -/
def fsCall (t : FsType) (boundary : Bool) (L : ℕ) (ok : Bool) : World :=
  s.fsAfterAsyncCall t boundary L .none [] [] ok

/-- The range that uv_fs_read or uv_fs_write gets for the item `i`. -/
def fsRangeOf (i : Item) (r : FsRange) : Range :=
  match i, r.base with
  | .str sid, _ => .str sid
  | _, .mem base _ => .mem (base.map (·.add (r.first-1))) r.length.toNat
  -- only an item that is a string has a string for its base
  | _, .str _ => .mem none 0

def fsReadCall (boundary : Bool) (L b : ℕ) (fd bufPos length fileOffset : Value) (ok : Bool) :
    World :=
  match fsRead fd (.buffer b) bufPos length fileOffset s.mem with
  | .error _ _ => s
  | .ok r _ =>
    s.fsAfterAsyncCall .read boundary L (.item (.buffer b)) [.buffer b]
      [fsRangeOf (.buffer b) r] ok

def fsWriteCall (boundary : Bool) (L : ℕ) (i : Item) (fd bufPos length fileOffset : Value)
    (ok : Bool) : World :=
  match fsWrite fd (s.itemValue i) bufPos length fileOffset s.mem with
  | .error _ _ => s
  | .ok r _ => s.fsAfterAsyncCall .write boundary L (.item i) [i] [fsRangeOf i r] ok

/-- `fs_common_callback` and `fs_exists_callback` -/
def fsCallback (t : FsType) (r L : ℕ) (o : Outcome) : World :=
  let s := s.couvRawsetp (.reqThread r) none
  { s with reqs := s.reqs.free r }.couvResume L (.completion r) ((ReqKind.fs t).args o)

/-- The callback of the request `r`. -/
def complete (r : ℕ) (o : Outcome) : World :=
  match s.reqs.get r with
  | none => s
  | some req =>
    let h := req.handle.getD 0
    match req.kind with
    | .write | .write2 => s.writeCb r h o
    | .shutdown => s.shutdownCb r h o
    | .connect => s.connectCb r h o
    | .send => s.udpSendCb r h o
    | .close => s.closeCb h r
    | .sleep => s.sleepCb r
    | .sleepClose => s.sleepCloseCb r req.data
    | .getaddrinfo => s.getaddrinfoCb r req.data o
    | .fs t => s.fsCallback t r req.data o

end World
end Couv
