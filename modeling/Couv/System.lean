import Couv.InputEvents
import Couv.Run

/-! The whole system: what Lua code, libuv and the garbage collector may do next, and what
each of them does. -/
namespace Couv

/-- Coroutines, and entering and leaving the loop. -/
inductive LuaAct
  | create
  | resume (T : ℕ) (args : List Value)
  | yield (boundary : Bool)
  | finish (callable : Bool)
  | callReturn
  | uvRun
  | uvRunReturn

inductive HandleAct
  | tcpNew (ok : Bool)
  | udpNew (ok : Bool)
  | pipeNew (ok : Bool)
  | ttyNew (ok : Bool)
  | timerNew (ok : Bool)
  | spawn (f : ℕ) (r : CallResult)
  | tcpOpen (h : ℕ) (ok : Bool)
  | listen (h f : ℕ) (ok : Bool)
  | timerStart (h f : ℕ) (rep : Bool) (r : CallResult)
  | timerStop (h : ℕ)
  | timerAgain (h : ℕ)
  | timerSetRepeat (h : ℕ) (rep : Bool)
  | readStart (m : InputMode) (h : ℕ) (ok : Bool)
  | readStop (h : ℕ)

/-- The calls that wait, in a coroutine. -/
inductive Call
  | read (m : InputMode) (h : ℕ)
  | write (h t : ℕ) (ok : Bool)
  | write2 (h t : ℕ) (ok : Bool)
  | send (h t : ℕ) (ok : Bool)
  | shutdown (h : ℕ) (ok : Bool)
  | tcpConnect (h : ℕ) (ok : Bool)
  | pipeConnect (h : ℕ)
  | close (h : ℕ)
  | sleep (ok : Bool)
  | getaddrinfo (ok : Bool)
  | fs (t : FsType) (ok : Bool)
  | fsRead (b : ℕ) (fd bufPos length fileOffset : Value) (ok : Bool)
  | fsWrite (i : Item) (fd bufPos length fileOffset : Value) (ok : Bool)

inductive HeapAct
  | newString (str : LuaString)
  | newTable (items : List Item)
  | setTable (t : ℕ) (items : List Item)
  | bufNew (env : AllocEnv) (arg : Value)
  | bufSlice (env : AllocEnv) (self first last : Value)
  | bufConcat (env : AllocEnv) (items : List Value) (total : Value)

/-- What libuv may call back. -/
inductive Event
  | alloc (h n : ℕ) (env : AllocEnv)
  | readCb (h : ℕ) (nread : ℤ) (rd : Option UvRead) (behind : ℤ) (junk : List UInt8)
  | read2Cb (h : ℕ) (nread : ℤ) (rd : Option UvRead) (pending : ℤ) (junk : List UInt8)
  | udpRecvCb (h : ℕ) (nread : ℤ) (rd : Option UvRead) (behind : ℤ) (junk : List UInt8)
    (addr : Option Address)
  | complete (r : ℕ) (o : Outcome)
  | timerCb (h : ℕ)
  | exitCb (h : ℕ)
  | connectionCb (h : ℕ)

inductive Gc
  | thread (T : ℕ)
  | handle (h : ℕ)
  | buffer (b : ℕ)
  | string (sid : ℕ)

inductive Action
  | lua (a : LuaAct)
  | handle (a : HandleAct)
  | call (boundary : Bool) (c : Call)
  | heap (a : HeapAct)
  | event (e : Event)
  | gc (g : Gc)

namespace World

variable (s : World)

/-! What each action does; `L` is the lua_State that runs. -/

def execLua (L : ℕ) : LuaAct → World
  | .create => { s with threads := s.threads.alloc ⟨.fresh, false⟩ }
  | .resume T args =>
    -- coroutine.resume rejects a coroutine that is not suspended
    match s.status T with
    | some .fresh | some (.suspended _) => s.couvResume T .lua args
    | _ => s
  | .yield boundary => s.luaYield boundary .yield
  | .finish callable => (s.setStatus L (.finished callable)).pop
  | .callReturn => s.pop
  | .uvRun => s.push .loop
  | .uvRunReturn => s.pop

def execHandle (L : ℕ) : HandleAct → World
  | .tcpNew ok => s.tcpNew L ok
  | .udpNew ok => s.udpNew L ok
  | .pipeNew ok => s.pipeNew L ok
  | .ttyNew ok => s.ttyNew L ok
  | .timerNew ok => s.couvTimerCreate L ok
  | .spawn f r => s.couvProcessSpawn L f r
  | .tcpOpen h ok => s.tcpOpen h L ok
  | .listen h f ok => s.couvListen h f ok
  | .timerStart h f rep r => s.timerStart h f rep r
  | .timerStop h => s.timerStop h
  | .timerAgain h => s.timerAgain h
  | .timerSetRepeat h rep => s.timerSetRepeat h rep
  | .readStart m h ok => s.readStart m h ok
  | .readStop h => s.readStop h

def execCall (boundary : Bool) (L : ℕ) : Call → World
  | .read m h => s.couvPrimRead boundary L m h
  | .write h t ok => s.couvWrite boundary h L t ok
  | .write2 h t ok => s.couvWrite2 boundary h L t ok
  | .send h t ok => s.udpSend boundary h L t ok
  | .shutdown h ok => s.couvShutdown boundary h L ok
  | .tcpConnect h ok => s.tcpConnect boundary h L ok
  | .pipeConnect h => s.pipeConnect boundary h L
  | .close h => s.couvClose boundary h L
  | .sleep ok => s.couvSleep boundary L ok
  | .getaddrinfo ok => s.couvGetaddrinfo boundary L ok
  | .fs t ok => s.fsCall t boundary L ok
  | .fsRead b fd bufPos length off ok => s.fsReadCall boundary L b fd bufPos length off ok
  | .fsWrite i fd bufPos length off ok => s.fsWriteCall boundary L i fd bufPos length off ok

def execHeap : HeapAct → World
  | .newString str => { s with strings := s.strings.alloc str }
  | .newTable items => { s with tables := s.tables.alloc items }
  | .setTable t items => { s with tables := s.tables.modify t (fun _ => items) }
  | .bufNew env arg => s.runBuf (bufferNew env arg)
  | .bufSlice env self first last => s.runBuf (bufferSlice env self first last)
  | .bufConcat env items total => s.runBuf (bufferConcat env items total)

def execEvent : Event → World
  | .alloc h n env => s.couvBufAllocCb h n env
  | .readCb h nread rd behind junk => s.readCb h nread rd behind junk
  | .read2Cb h nread rd pending junk => s.read2Cb h nread rd pending junk
  | .udpRecvCb h nread rd behind junk addr => s.udpRecvCb h nread rd behind junk addr
  | .complete r o => s.complete r o
  | .timerCb h => s.timerCb h
  | .exitCb h => s.exitCb h
  | .connectionCb h => s.connectionCb h

def execGc : Gc → World
  | .thread T => s.collectThread T
  | .handle h => s.collectHandle h
  | .buffer b => s.collectBuffer b
  | .string sid => s.collectString sid

def exec (s : World) : Action → World
  | .lua a => s.execLua (s.current.getD 0) a
  | .handle a => s.execHandle (s.current.getD 0) a
  | .call boundary c => s.execCall boundary (s.current.getD 0) c
  | .heap a => s.execHeap a
  | .event e => s.execEvent e
  | .gc g => s.execGc g

end World

/-! When each is possible. -/

def streamTypes : List HandleType := [.tcp, .pipe, .tty]

/-- The handles each reading method is for. -/
def InputMode.types : InputMode → List HandleType
  | .read => streamTypes
  | .read2 => [.pipe]
  | .recv => [.udp]

namespace World

variable (s : World)

/-- Lua code has the handle `h`, of one of these types; with `usable` it is not being closed
either, which libuv asks of most calls that succeed. -/
def Has (h : ℕ) (types : List HandleType) (usable : Bool) : Prop :=
  ∃ x ∈ s.handles.get h, x.linked = true ∧ x.collected = false ∧ x.type ∈ types ∧
    (usable = true → x.closing = false)

instance (h : ℕ) (types : List HandleType) (usable : Bool) : Decidable (s.Has h types usable) :=
  inferInstanceAs (Decidable (∃ x ∈ s.handles.get h, _))

/-- The collector has not taken the value. -/
def LiveItem : Item → Prop
  | .str sid => (s.strings.get sid).isSome
  | .buffer b => (s.mem.bufs.get b).isSome
  | .other => True

instance : DecidablePred s.LiveItem
  | .str _ | .buffer _ => inferInstanceAs (Decidable (_ = true))
  | .other => isTrue trivial

/-- Lua code has the table `t` and so the values in it. -/
def LiveTable (t : ℕ) : Prop := ∃ items ∈ s.tables.get t, ∀ i ∈ items, s.LiveItem i

instance (t : ℕ) : Decidable (s.LiveTable t) :=
  inferInstanceAs (Decidable (∃ items ∈ s.tables.get t, _))

def guardLua : LuaAct → Prop
  | .create => s.current.isSome
  | .resume T _ =>
    s.current.isSome ∧ (s.threads.get T).isSome ∧ s.collected T = false ∧ .call T ∉ s.frames
  | .yield _ => s.current.isSome
  | .finish _ => ∃ L ∈ s.current, s.frames.head? = some (.thread L) ∧ L ≠ mainThread
  | .callReturn => ∃ L ∈ s.current, s.frames.head? = some (.call L)
  | .uvRun => s.current.isSome ∧ .loop ∉ s.frames
  | .uvRunReturn => s.inLoop

instance : DecidablePred s.guardLua
  | .create | .yield _ => inferInstanceAs (Decidable (_ = true))
  | .resume _ _ => inferInstanceAs (Decidable (_ ∧ _ ∧ _ ∧ _))
  | .finish _ | .callReturn => inferInstanceAs (Decidable (∃ L ∈ s.current, _))
  | .uvRun => inferInstanceAs (Decidable (_ ∧ _))
  | .uvRunReturn => inferInstanceAs (Decidable s.inLoop)

def guardHandle : HandleAct → Prop
  | .tcpNew _ | .udpNew _ | .pipeNew _ | .ttyNew _ | .timerNew _ | .spawn _ _ => True
  | .tcpOpen h ok => s.Has h [.tcp] ok
  | .listen h _ ok => s.Has h streamTypes ok
  | .timerStart h _ _ r => s.Has h [.timer] (r != .argError)
  | .timerStop h => s.Has h [.timer] false
  | .timerAgain h => s.Has h [.timer] true
  | .timerSetRepeat h _ => s.Has h [.timer] false
  | .readStart m h ok => s.Has h m.types ok
  | .readStop h => s.Has h (.udp :: streamTypes) false

instance : DecidablePred s.guardHandle
  | .tcpNew _ | .udpNew _ | .pipeNew _ | .ttyNew _ | .timerNew _ | .spawn _ _ => isTrue trivial
  | .tcpOpen _ _ | .listen _ _ _ | .timerStart _ _ _ _ | .timerStop _ | .timerAgain _
  | .timerSetRepeat _ _ | .readStart _ _ _ | .readStop _ =>
    inferInstanceAs (Decidable (s.Has _ _ _))

def guardCall : Call → Prop
  | .read m h => s.Has h m.types false
  | .write h t ok => s.Has h streamTypes ok ∧ s.LiveTable t
  | .write2 h t ok => s.Has h streamTypes ok ∧ s.LiveTable t
  | .send h t ok => s.Has h [.udp] ok ∧ s.LiveTable t
  | .shutdown h ok => s.Has h streamTypes ok
  | .tcpConnect h ok => s.Has h [.tcp] ok
  | .pipeConnect h => s.Has h [.pipe] true
  | .close h => s.Has h [.tcp, .udp, .pipe, .tty, .timer, .process] true
  | .sleep _ | .getaddrinfo _ | .fs _ _ => True
  | .fsRead b _ _ _ _ _ => s.LiveItem (.buffer b)
  | .fsWrite i _ _ _ _ _ => s.LiveItem i

instance : DecidablePred s.guardCall
  | .read _ _ | .shutdown _ _ | .tcpConnect _ _ | .pipeConnect _ | .close _ =>
    inferInstanceAs (Decidable (s.Has _ _ _))
  | .write _ _ _ | .write2 _ _ _ | .send _ _ _ => inferInstanceAs (Decidable (_ ∧ _))
  | .sleep _ | .getaddrinfo _ | .fs _ _ => isTrue trivial
  | .fsRead b _ _ _ _ _ => inferInstanceAs (Decidable (s.LiveItem (.buffer b)))
  | .fsWrite i _ _ _ _ _ => inferInstanceAs (Decidable (s.LiveItem i))

/-- An input callback of the mode `m` on `h`: libuv is reading in this mode and passes a
buffer it got for the handle, or NULL. -/
def InputReady (m : InputMode) (h : ℕ) (rd : Option UvRead) : Prop :=
  (∃ x ∈ s.handles.get h, x.linked = true ∧ x.reading = some m) ∧
    ∀ r ∈ rd, r ∈ s.reads ∧ r.handle = h

instance (m : InputMode) (h : ℕ) (rd : Option UvRead) : Decidable (s.InputReady m h rd) :=
  inferInstanceAs (Decidable ((∃ x ∈ s.handles.get h, _) ∧ _))

/-- libuv runs the close callback of a handle after those of its other requests. -/
def Completable (r : ℕ) : Prop :=
  ∃ req ∈ s.reqs.get r, req.kind = .close →
    s.reqs.All (fun r' req' => req'.handle = req.handle → r' = r)

instance (r : ℕ) : Decidable (s.Completable r) :=
  inferInstanceAs (Decidable (∃ req ∈ s.reqs.get r, _))

/-- The handle can call its timer, exit or connection callback. -/
def Armed (h : ℕ) (types : List HandleType) : Prop :=
  ∃ x ∈ s.handles.get h, x.armed = true ∧ x.type ∈ types

instance (h : ℕ) (types : List HandleType) : Decidable (s.Armed h types) :=
  inferInstanceAs (Decidable (∃ x ∈ s.handles.get h, _))

def guardEvent : Event → Prop
  | .alloc h n _ => n < 2^31 ∧
    ∃ x ∈ s.handles.get h, x.linked = true ∧ x.reading.isSome
  | .readCb h _ rd _ _ => s.InputReady .read h rd
  | .read2Cb h _ rd _ _ => s.InputReady .read2 h rd
  | .udpRecvCb h _ rd _ junk _ => s.InputReady .recv h rd ∧ junk.length = sizeofSockaddrStorage
  | .complete r _ => s.Completable r
  | .timerCb h => s.Armed h [.timer]
  | .exitCb h => s.Armed h [.process]
  | .connectionCb h => s.Armed h streamTypes

instance : DecidablePred s.guardEvent
  | .alloc h _ _ => inferInstanceAs (Decidable (_ ∧ ∃ x ∈ s.handles.get h, _))
  | .readCb _ _ _ _ _ | .read2Cb _ _ _ _ _ => inferInstanceAs (Decidable (s.InputReady _ _ _))
  | .udpRecvCb _ _ _ _ _ _ => inferInstanceAs (Decidable (_ ∧ _))
  | .complete r _ => inferInstanceAs (Decidable (s.Completable r))
  | .timerCb _ | .exitCb _ | .connectionCb _ => inferInstanceAs (Decidable (s.Armed _ _))

def guardGc : Gc → Prop
  | .thread T => (s.threads.get T).isSome ∧ T ≠ mainThread ∧ s.collected T = false ∧
    .thread T ∉ s.frames ∧ .call T ∉ s.frames ∧ s.NotAnchored T
  | .handle h => (s.handles.get h).isSome ∧
    s.registry (couvUserdataRegKey h) ≠ some (.userdata h)
  | .buffer b => (s.mem.bufs.get b).isSome ∧ s.NotHeld (.buffer b)
  | .string sid => s.NotHeld (.str sid)

instance : DecidablePred s.guardGc
  | .thread _ => inferInstanceAs (Decidable (_ ∧ _ ∧ _ ∧ _ ∧ _ ∧ _))
  | .handle _ => inferInstanceAs (Decidable (_ ∧ _))
  | .buffer _ => inferInstanceAs (Decidable (_ ∧ _))
  | .string _ => inferInstanceAs (Decidable (s.NotHeld _))

/-- Lua code acts when it runs, libuv calls back when the loop runs, and the collector may
run at any time. -/
def guard (s : World) : Action → Prop
  | .lua a => s.guardLua a
  | .handle a => s.current.isSome ∧ s.guardHandle a
  | .call _ c => s.current.isSome ∧ s.guardCall c
  | .heap _ => s.current.isSome
  | .event e => s.inLoop ∧ s.guardEvent e
  | .gc g => s.guardGc g

instance (s : World) : DecidablePred s.guard
  | .lua a => inferInstanceAs (Decidable (s.guardLua a))
  | .handle _ | .call _ _ | .event _ => inferInstanceAs (Decidable (_ ∧ _))
  | .heap _ => inferInstanceAs (Decidable (_ = true))
  | .gc g => inferInstanceAs (Decidable (s.guardGc g))

end World

/-- The program, libuv and the collector together. -/
def couv : Machine World Action := ⟨World.guard, World.exec⟩

instance (s : World) (a : Action) : Decidable (couv.guard s a) :=
  inferInstanceAs (Decidable (s.guard a))

end Couv
