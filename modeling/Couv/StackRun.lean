import Couv.StackRefines

/-! Runs of the program in which the calls and the callbacks that use the registry are the C code
on the Lua stack. -/
namespace Couv

/-- What is raised. The checks of fs_read and fs_write touch no memory, so they do not fault. -/
def Failure.luaError : Failure → LuaError
  | .raise e => e
  | .fault => .error ""

/-- What an fs call asks libuv for. -/
structure FsRequest where
  type : FsType
  arg : Arg
  owners : List Item
  ranges : List Range

inductive FsCall
  | plain (t : FsType)
  | read (b : ℕ) (fd bufPos length fileOffset : Value)
  | write (i : Item) (fd bufPos length fileOffset : Value)

/-- The part of an fs call in front of couvL_is_mainthread. -/
def FsCall.request (s : World) : FsCall → Except LuaError FsRequest
  | plain t => .ok ⟨t, .none, [], []⟩
  | read b fd bufPos length fileOffset =>
    match fsRead fd (.buffer b) bufPos length fileOffset s.mem with
    | .ok r _ =>
      .ok ⟨.read, .item (.buffer b), [.buffer b], [World.fsRangeOf (.buffer b) r]⟩
    | .error f _ => .error f.luaError
  | write i fd bufPos length fileOffset =>
    match fsWrite fd (s.itemValue i) bufPos length fileOffset s.mem with
    | .ok r _ => .ok ⟨.write, .item i, [i], [World.fsRangeOf i r]⟩
    | .error f _ => .error f.luaError

/-- A call of the C code, with what malloc and libuv answer; the tables and the arguments of fs
calls are given here, and the other arguments lie on the stack. -/
inductive StackCall
  | tcpNew (uv : Option ℤ)
  | udpNew (uv : Option ℤ)
  | pipeNew (uv : Option ℤ)
  | ttyNew (uv : Option ℤ)
  | timerCreate (uv : Option ℤ)
  | spawn (options : Option SpawnOptions) (allocs : ℕ → Bool) (uv : Option ℤ)
  | listen (uv : Option ℤ)
  | timerStart (uv : Option ℤ)
  | close
  | sleep (allocs : ℕ → Bool) (uv : Option ℤ)
  | getaddrinfo (hints : Hints) (socktype protocol flags : LuaArg) (allocs : ℕ → Bool)
      (uv : Option ℤ)
  | fs (c : FsCall) (alloc : Bool) (sync : List Value) (rejected : Option (List Value))

namespace StackCall
variable (lay : KeyLayout) (boundary : Bool) (L : ℕ) (st : LuaStack Slot)

/-- The C code. -/
def code : StackCall → StackM CReturn
  | tcpNew uv => StackM.tcpNew lay L uv
  | udpNew uv => StackM.udpNew lay L uv
  | pipeNew uv => StackM.pipeNew lay L uv
  | ttyNew uv => StackM.ttyNew lay L uv
  | timerCreate uv => StackM.couvTimerCreate L uv
  | spawn options allocs uv => StackM.couvProcessSpawn lay L options allocs uv
  | listen uv => StackM.couvListen lay uv
  | timerStart uv => StackM.timerStart lay uv
  | close => StackM.couvClose boundary L
  | sleep allocs uv => StackM.couvSleep lay boundary L allocs uv
  | getaddrinfo hints socktype protocol flags allocs uv =>
    StackM.couvGetaddrinfo lay boundary L hints socktype protocol flags allocs uv
  | fs c alloc sync rejected => do
    let q ← StackM.check (c.request (← get).world)
    StackM.fsAfterAsyncCall lay boundary L ⟨.fs q.type, none, L, L, q.arg, q.owners, q.ranges⟩
      alloc sync rejected

def closeChecks (self : LuaArg) : Except LuaError ℕ :=
  self.checkudataclass 1 [.tcp, .udp, .pipe, .tty, .timer, .process] "couv.Handle"

/-- The call of the system model, with the arguments in `st`. -/
def model : StackCall → WorldM Unit
  | tcpNew uv => (RegCall.tcpNew uv).exec boundary L
  | udpNew uv => (RegCall.udpNew uv).exec boundary L
  | pipeNew uv => (RegCall.pipeNew uv).exec boundary L
  | ttyNew uv => (RegCall.ttyNew (StackM.argOf st 1) (StackM.argOf st 2) uv).exec boundary L
  | timerCreate uv => do
    modify (fun s => s.couvTimerCreate L uv.isNone)
    WorldM.uvCheck uv
  | spawn options allocs uv => (RegCall.spawn options allocs uv).exec boundary L
  | listen uv =>
    (RegCall.listen (StackM.argOf st 1) (StackM.argOf st 2) (StackM.argOf st 3) uv).exec
      boundary L
  | timerStart uv =>
    (RegCall.timerStart (StackM.argOf st 1) (StackM.argOf st 2) (StackM.argOf st 3)
      (StackM.argOf st 4) uv).exec boundary L
  | close => do
    let h ← WorldM.check (closeChecks (StackM.argOf st 1))
    modify (fun s => s.couvClose boundary h L)
  | sleep allocs uv => (RegCall.sleep (StackM.argOf st 1) allocs uv).exec boundary L
  | getaddrinfo hints _ _ _ allocs uv =>
    (RegCall.getaddrinfo (StackM.argOf st 1) (StackM.argOf st 2) hints allocs uv).exec boundary L
  | fs c alloc _ rejected => do
    let q ← WorldM.check (c.request (← get))
    WorldM.check (if L = mainThread then .ok () else couvAllocCheck alloc)
    modify (fun s => s.fsAfterAsyncCall q.type boundary L q.arg q.owners q.ranges rejected.isNone)

/-- What the call returns and leaves on the stack when it does not raise. -/
def Leaves (σ : CState) : StackCall → CReturn → LuaStack Slot → Prop
  | tcpNew _ => ReturnsHandle σ .tcp
  | udpNew _ => ReturnsHandle σ .udp
  | pipeNew _ => ReturnsHandle σ .pipe
  | ttyNew _ => ReturnsHandle σ .tty
  | timerCreate _ => ReturnsHandle σ .timer
  | spawn _ _ _ => ReturnsHandle σ .process
  | listen _ | timerStart _ => ReturnsNone σ
  | close => fun a st =>
    (a = .values 0 ∧ L = mainThread ∨ a = .yield ∧ L ≠ mainThread) ∧ st = σ.stack
  | sleep _ _ => Yields σ []
  | getaddrinfo hints socktype protocol flags _ _ =>
    Yields σ (hintSlots hints socktype protocol flags)
  | fs _ _ sync rejected => FsLeaves σ L sync rejected

variable {lay boundary L} {σ : CState}

theorem agrees (hσ : σ.Clean) (c : StackCall) : Agrees lay (c.Leaves L σ)
    (c.code lay boundary L σ) (c.model boundary L σ.stack (σ.view lay)) := by
  cases c with
  | tcpNew uv => exact stream_agrees hσ .tcp _ uv
  | udpNew uv => exact stream_agrees hσ .udp _ uv
  | pipeNew uv => exact stream_agrees hσ .pipe _ uv
  | ttyNew uv => exact @ttyNew_agrees lay boundary L σ hσ uv
  | timerCreate uv => exact timerCreate_agrees hσ uv
  | spawn options allocs uv => exact @spawn_agrees lay boundary L σ hσ options allocs uv
  | listen uv => exact @listen_agrees lay boundary L σ hσ uv
  | timerStart uv => exact @timerStart_agrees lay boundary L σ hσ uv
  | close => exact @close_agrees lay boundary L σ hσ
  | sleep allocs uv => exact @sleep_agrees lay boundary L σ hσ allocs uv
  | getaddrinfo hints socktype protocol flags allocs uv =>
    exact @getaddrinfo_agrees lay boundary L σ hσ hints socktype protocol flags allocs uv
  | fs c alloc sync rejected =>
    have hreq : c.request (σ.view lay) = c.request σ.world := by cases c <;> rfl
    rw [code, model, StackM.get_bind]
    change Agrees lay _ _ ((WorldM.check (c.request (σ.view lay)) >>= _) (σ.view lay))
    rw [hreq]
    refine agrees_check hσ (fun e he => worldCheck_error he _) ?_
    intro q hq
    rw [worldCheck_ok hq]
    exact fsAfterAsyncCall_agrees hσ q.type q.arg q.owners q.ranges alloc sync rejected

/-- The action of the system that the call is, unless it raises before it does anything. -/
def action (boundary : Bool) (L : ℕ) (st : LuaStack Slot) (s : World) : StackCall → Option Action
  | tcpNew uv => some (.handle (.tcpNew uv.isNone))
  | udpNew uv => some (.handle (.udpNew uv.isNone))
  | pipeNew uv => some (.handle (.pipeNew uv.isNone))
  | ttyNew uv =>
    match ttyNewChecks (StackM.argOf st 1) (StackM.argOf st 2) with
    | .ok _ => some (.handle (.ttyNew uv.isNone))
    | .error _ => none
  | timerCreate uv => some (.handle (.timerNew uv.isNone))
  | spawn options allocs uv =>
    match spawnChecks options allocs with
    | .ok f => some (.handle (.spawn f (if uv.isNone then .ok else .uvError)))
    | .error _ => some (.handle (.spawn 0 .argError))
  | listen uv =>
    match listenChecks (StackM.argOf st 1) (StackM.argOf st 2) (StackM.argOf st 3) with
    | .ok (h, f) => some (.handle (.listen h f uv.isNone))
    | .error _ => none
  | timerStart uv =>
    match timerStartChecks (StackM.argOf st 1) (StackM.argOf st 2),
      timerTimes (StackM.argOf st 3) (StackM.argOf st 4) with
    | .ok (h, f), .ok (_, rep) =>
      some (.handle (.timerStart h f (rep ≠ 0) (if uv.isNone then .ok else .uvError)))
    | .ok (h, f), .error _ => some (.handle (.timerStart h f false .argError))
    | .error _, _ => none
  | close =>
    match closeChecks (StackM.argOf st 1) with
    | .ok h => some (.call boundary (.close h))
    | .error _ => none
  | sleep allocs uv =>
    match sleepChecks L (StackM.argOf st 1) allocs with
    | .ok _ => some (.call boundary (.sleep uv.isNone))
    | .error _ => none
  | getaddrinfo hints _ _ _ allocs uv =>
    match getaddrinfoChecks L (StackM.argOf st 1) (StackM.argOf st 2) hints allocs with
    | .ok _ => some (.call boundary (.getaddrinfo uv.isNone))
    | .error _ => none
  | fs c alloc _ rejected =>
    match c.request s, (if L = mainThread then .ok () else couvAllocCheck alloc) with
    | .ok _, .ok _ =>
      match c with
      | .plain t => some (.call boundary (.fs t rejected.isNone))
      | .read b fd bufPos length fileOffset =>
        some (.call boundary (.fsRead b fd bufPos length fileOffset rejected.isNone))
      | .write i fd bufPos length fileOffset =>
        some (.call boundary (.fsWrite i fd bufPos length fileOffset rejected.isNone))
    | _, _ => none

end StackCall

/-- Where a call ends, whether it returns or raises. -/
def endState {ε σ α : Type} : EStateM.Result ε σ α → σ
  | .ok _ s | .error _ s => s

theorem endState_uvCheck (uv : Option ℤ) (s : World) : endState (WorldM.uvCheck uv s) = s := by
  cases uv <;> rfl

namespace StackCall

/-- The call of the system model is the action. -/
theorem model_run {boundary : Bool} {s : World} {st : LuaStack Slot} (c : StackCall) :
    endState (c.model boundary (s.current.getD 0) st s) =
      couv.run s (c.action boundary (s.current.getD 0) st s).toList := by
  -- tcp, udp and pipe: the model makes the handle, then only the answer of libuv may raise
  have hnew (msg : String) (uv : Option ℤ) (t : World) :
      endState ((WorldM.check (inCoroutine (s.current.getD 0) msg) >>= fun _ =>
        WorldM.uvCheck uv) t) = t := by
    cases inCoroutine (s.current.getD 0) msg with
    | error e => rfl
    | ok u => exact endState_uvCheck uv t
  cases c with
  | tcpNew uv => exact hnew _ uv _
  | udpNew uv => exact hnew _ uv _
  | pipeNew uv => exact hnew _ uv _
  | ttyNew uv =>
    simp only [model, RegCall.exec, action]
    cases ttyNewChecks (StackM.argOf st 1) (StackM.argOf st 2) with
    | error e => rfl
    | ok u => exact endState_uvCheck uv _
  | timerCreate uv => exact endState_uvCheck uv _
  | spawn options allocs uv =>
    simp only [model, RegCall.exec, action]
    cases spawnChecks options allocs with
    | error e => rfl
    | ok f => exact endState_uvCheck uv _
  | listen uv =>
    simp only [model, RegCall.exec, action]
    cases listenChecks (StackM.argOf st 1) (StackM.argOf st 2) (StackM.argOf st 3) with
    | error e => rfl
    | ok hf => exact endState_uvCheck uv _
  | timerStart uv =>
    simp only [model, RegCall.exec, action]
    cases timerStartChecks (StackM.argOf st 1) (StackM.argOf st 2) with
    | error e => rfl
    | ok hf =>
      cases timerTimes (StackM.argOf st 3) (StackM.argOf st 4) with
      | error e => rfl
      | ok times => exact endState_uvCheck uv _
  | close =>
    simp only [model, action]
    cases closeChecks (StackM.argOf st 1) <;> rfl
  | sleep allocs uv =>
    simp only [model, RegCall.exec, action]
    cases sleepChecks (s.current.getD 0) (StackM.argOf st 1) allocs with
    | error e => rfl
    | ok u => exact endState_uvCheck uv _
  | getaddrinfo hints socktype protocol flags allocs uv =>
    simp only [model, RegCall.exec, action]
    cases getaddrinfoChecks (s.current.getD 0) (StackM.argOf st 1) (StackM.argOf st 2) hints
      allocs with
    | error e => rfl
    | ok u => exact endState_uvCheck uv _
  | fs c alloc sync rejected =>
    simp only [action]
    -- an fs call: first its arguments, then the allocation, which the main thread does not make
    change endState ((WorldM.check (c.request s) >>= _) s) = _
    cases hreq : c.request s with
    | error e => rfl
    | ok q =>
      change endState ((WorldM.check (if s.current.getD 0 = mainThread then .ok () else
        couvAllocCheck alloc) >>= _) s) = _
      cases (if s.current.getD 0 = mainThread then .ok () else couvAllocCheck alloc) with
      | error e => rfl
      | ok u =>
        -- read and write check their range in the memory, which they leave as it is
        cases c with
        | plain t =>
          obtain rfl := Except.ok.inj hreq
          rfl
        | read b fd bufPos length fileOffset =>
          simp only [FsCall.request] at hreq
          change _ = World.fsReadCall _ _ _ _ _ _ _ _ _
          unfold World.fsReadCall
          cases hr : fsRead fd (.buffer b) bufPos length fileOffset s.mem with
          | error f m =>
            rw [hr] at hreq
            cases hreq
          | ok r m =>
            rw [hr] at hreq
            obtain rfl := Except.ok.inj hreq
            rfl
        | write i fd bufPos length fileOffset =>
          simp only [FsCall.request] at hreq
          change _ = World.fsWriteCall _ _ _ _ _ _ _ _ _
          unfold World.fsWriteCall
          cases hr : fsWrite fd (s.itemValue i) bufPos length fileOffset s.mem with
          | error f m =>
            rw [hr] at hreq
            cases hreq
          | ok r m =>
            rw [hr] at hreq
            obtain rfl := Except.ok.inj hreq
            rfl

end StackCall

/-! The actions that do not use the registry. -/

/-- The actions whose C code is on the stack here. -/
def Action.onStack : Action → Bool
  | .handle m =>
    match m with
    | .tcpNew _ | .udpNew _ | .pipeNew _ | .ttyNew _ | .timerNew _ | .spawn _ _ | .listen _ _ _
    | .timerStart _ _ _ _ => true
    | .tcpOpen _ _ | .timerStop _ | .timerAgain _ | .timerSetRepeat _ _ | .readStart _ _ _
    | .readStop _ => false
  | .call _ c =>
    match c with
    | .close _ | .sleep _ | .getaddrinfo _ | .fs _ _ | .fsRead _ _ _ _ _ _
    | .fsWrite _ _ _ _ _ _ => true
    | .read _ _ | .write _ _ _ | .write2 _ _ _ | .send _ _ _ | .shutdown _ _ | .tcpConnect _ _
    | .pipeConnect _ => false
  | .event e =>
    match e with
    | .complete _ _ | .timerCb _ | .exitCb _ | .connectionCb _ => true
    | .alloc _ _ _ | .readCb _ _ _ _ _ | .read2Cb _ _ _ _ _ | .udpRecvCb _ _ _ _ _ _ => false
  | .lua _ | .heap _ | .gc _ => false

namespace World

theorem runBuf_registry {α : Type} (x : BufM α) (s : World) (r : RegKey → Option RegVal) :
    runBuf { s with registry := r } x = { s.runBuf x with registry := r } := by
  unfold runBuf
  dsimp only
  cases x s.mem <;> rfl

theorem submitBufs_registry {boundary : Bool} {L : ℕ} (kind : ReqKind) (h t : ℕ) (ok : Bool)
    (s : World) (r : RegKey → Option RegVal) :
    submitBufs { s with registry := r } kind boundary h L t ok =
      { s.submitBufs kind boundary h L t ok with registry := r } := by
  have hbufs : bufOrStrTable { s with registry := r } t = s.bufOrStrTable t := rfl
  unfold submitBufs
  rw [hbufs]
  cases s.bufOrStrTable t with
  | none => rfl
  | some p =>
    cases ok with
    | false => rfl
    | true => exact submit_registry _ s r

theorem inputCb_registry (node : InputNode) (rd : Option UvRead) (s : World)
    (r : RegKey → Option RegVal) :
    inputCb { s with registry := r } node rd = { s.inputCb node rd with registry := r } := by
  have hdata : World.data { s with registry := r } node.handle = s.data node.handle := rfl
  have hqueue : (takeRead { s with registry := r } rd).enqueue node =
      { (s.takeRead rd).enqueue node with registry := r } := by
    cases rd <;> rfl
  have hyielded : World.yielded { (s.takeRead rd).enqueue node with registry := r } =
      ((s.takeRead rd).enqueue node).yielded := rfl
  unfold inputCb
  simp only [hdata, hqueue, hyielded]
  split
  · exact couvResume_registry _ _ _ r
  · rfl

theorem exec_offStack {a : Action} (ha : a.onStack = false) (s : World)
    (r : RegKey → Option RegVal) :
    exec { s with registry := r } a = { s.exec a with registry := r } := by
  cases a with
  | lua a =>
    cases a with
    -- a coroutine that starts or goes on does so whatever the registry holds
    | resume T args =>
      have hstatus : World.status { s with registry := r } T = s.status T := rfl
      simp only [exec, execLua, hstatus]
      split
      · exact couvResume_registry _ _ s r
      · exact couvResume_registry _ _ s r
      · rfl
    | yield boundary => exact luaYield_registry _ s r
    | create | finish | callReturn | uvRun | uvRunReturn => rfl
  | handle m =>
    cases m with
    | tcpNew | udpNew | pipeNew | ttyNew | timerNew | spawn | listen | timerStart => cases ha
    | tcpOpen h ok => cases ok <;> rfl
    | readStart m h ok => cases ok <;> rfl
    | timerStop | timerAgain | timerSetRepeat | readStop => rfl
  | call boundary c =>
    cases c with
    | close | sleep | getaddrinfo | fs | fsRead | fsWrite => cases ha
    | read m h => exact couvPrimRead_registry m h s r
    | write h t ok => exact submitBufs_registry .write h t ok s r
    | write2 h t ok => exact submitBufs_registry .write2 h t ok s r
    | send h t ok => exact submitBufs_registry .send h t ok s r
    | shutdown h ok | tcpConnect h ok =>
      cases ok with
      | false => rfl
      | true => exact submit_registry _ s r
    | pipeConnect h => exact submit_registry _ s r
  | heap a =>
    cases a with
    | newString | newTable | setTable => rfl
    | bufNew | bufSlice | bufConcat => exact runBuf_registry _ s r
  | event e =>
    cases e with
    | complete | timerCb | exitCb | connectionCb => cases ha
    | alloc h n env =>
      simp only [exec, execEvent, couvBufAllocCb]
      cases couvBufMemAlloc env n s.mem <;> rfl
    | readCb | read2Cb | udpRecvCb => exact inputCb_registry _ _ s r
  | gc g =>
    cases g with
    | buffer b =>
      simp only [exec, execGc, collectBuffer]
      cases bufferGc (.buffer b) s.mem <;> rfl
    | thread | handle | string => rfl

end World

/-- A step of the program: a call of the Lua code that runs, a callback on the stack of
`handle->data` or `req->data`, or an action that does not use the registry. -/
inductive StackStep
  | call (boundary : Bool) (st : LuaStack Slot) (c : StackCall)
  | complete (st : LuaStack Slot) (r : ℕ) (o : Outcome)
  | timerCb (st : LuaStack Slot) (h : ℕ) (err : Option ℤ)
  | connectionCb (st : LuaStack Slot) (h : ℕ) (err : Option ℤ)
  | exitCb (st : LuaStack Slot) (h : ℕ) (exitStatus termSignal : ℤ)
  | other (a : Action) (quiet : a.onStack = false)

namespace StackStep
variable (lay : KeyLayout) (fail : ResumeFailure) (σ : CState)

/-- The lua_State whose Lua code runs. -/
def caller (σ : CState) : ℕ := σ.world.current.getD 0

def exec : StackStep → CState
  | call boundary st c => endState (c.code lay boundary (caller σ) (σ.setStack st))
  | complete st r o => endState (StackM.complete lay fail r o (σ.setStack st))
  | timerCb st h err => endState (StackM.timerCb lay h err (σ.setStack st))
  | connectionCb st h err => endState (StackM.connectionCb lay h err (σ.setStack st))
  | exitCb st h exitStatus termSignal =>
    endState (StackM.exitCb lay h exitStatus termSignal (σ.setStack st))
  | other a _ => σ.setWorld (fun s => s.exec a)

def action : StackStep → Option Action
  | call boundary st c => c.action boundary (caller σ) st (σ.view lay)
  | complete _ r o => some (.event (.complete r o))
  | timerCb _ h _ => some (.event (.timerCb h))
  | connectionCb _ h _ => some (.event (.connectionCb h))
  | exitCb _ h _ _ => some (.event (.exitCb h))
  | other a _ => some a

/-- What the step returns, raises, or calls, and what it leaves on its stack, are what the system
model says about a world with the registry that lies at the addresses of the keys. -/
def Agrees : StackStep → Prop
  | call boundary st c => Couv.Agrees lay (c.Leaves (caller σ) (σ.setStack st))
      (c.code lay boundary (caller σ) (σ.setStack st))
      (c.model boundary (caller σ) st (σ.view lay))
  | complete st r o =>
    CallsBack lay fail (StackM.complete lay fail r o) (σ.setStack st) (fun s => s.complete r o)
      ((σ.view lay).resumes r o)
  | timerCb st h err => CallsLua lay (StackM.timerCb lay h err) (σ.setStack st) h
      (statusName err) (fun s => s.timerCb h)
  | connectionCb st h err => CallsLua lay (StackM.connectionCb lay h err) (σ.setStack st) h
      (statusName err) (fun s => s.connectionCb h)
  | exitCb st h exitStatus termSignal =>
    CallsLua lay (StackM.exitCb lay h exitStatus termSignal) (σ.setStack st) h
      [.number exitStatus, .number termSignal] (fun s => s.exitCb h)
  | other _ _ => True

variable {lay fail σ}

theorem agrees (hσ : σ.Clean) (a : StackStep) : a.Agrees lay fail σ := by
  cases a with
  | call boundary st c => exact c.agrees (σ := σ.setStack st) hσ
  | complete st r o => exact complete_agrees (σ := σ.setStack st) hσ r o
  | timerCb st h err => exact timerCb_agrees (σ := σ.setStack st) hσ h err
  | connectionCb st h err => exact connectionCb_agrees (σ := σ.setStack st) hσ h err
  | exitCb st h exitStatus termSignal =>
    exact exitCb_agrees (σ := σ.setStack st) hσ h exitStatus termSignal
  | other => trivial

end StackStep

/-- Code that agrees with the system model ends in the state that the model ends in. -/
theorem Agrees.endState {α β : Type} {lay : KeyLayout} {Q : α → LuaStack Slot → Prop}
    {r : EStateM.Result CallError CState α} {r' : EStateM.Result CallError World β}
    (h : Agrees lay Q r r') :
    (Couv.endState r).Clean ∧ (Couv.endState r).view lay = Couv.endState r' := by
  cases r <;> cases r'
  · exact ⟨h.1, h.2.1⟩
  · exact h.elim
  · exact h.elim
  · exact ⟨h.2.1, h.2.2⟩

/-- The program with this code. A step is possible when the action that it is is. -/
def stackCode (lay : KeyLayout) (fail : ResumeFailure) : Machine CState StackStep where
  guard σ a := ∀ b ∈ a.action lay σ, couv.guard (σ.view lay) b
  exec σ a := a.exec lay fail σ

theorem stackCode_simulates (lay : KeyLayout) (fail : ResumeFailure) :
    Machine.Simulates couv (stackCode lay fail) CState.Clean (fun σ => σ.view lay)
      (fun σ a => a.action lay σ) := by
  have hstep (σ : CState) (a : StackStep) (hσ : σ.Clean) : (a.exec lay fail σ).Clean ∧
      (a.exec lay fail σ).view lay = couv.run (σ.view lay) (a.action lay σ).toList := by
    have h := @StackStep.agrees lay fail σ hσ a
    cases a with
    | call boundary st c =>
      obtain ⟨hclean, hview⟩ := Agrees.endState h
      exact ⟨hclean, hview.trans (StackCall.model_run (s := σ.view lay) c)⟩
    | complete st r o =>
      have h : CallsBack lay fail _ _ _ _ := h
      exact Agrees.endState h
    | timerCb | connectionCb | exitCb =>
      have h : CallsLua lay _ _ _ _ _ := h
      exact Agrees.endState h
    | other a quiet => exact ⟨hσ, CState.view_setWorld σ lay (World.exec_offStack quiet)⟩
  refine ⟨fun σ a hσ => (hstep σ a hσ).1, fun σ a hσ => (hstep σ a hσ).2, ?_⟩
  intro σ a _ hg
  cases hb : a.action lay σ with
  | none => trivial
  | some b => exact ⟨hg b hb, trivial⟩

def CState.init : CState := ⟨⟨[]⟩, fun _ => .nil, fun _ => none, .init⟩

theorem clean_init : CState.init.Clean := fun _ => .inl rfl

end Couv
