import Couv.Args
import Couv.KeyWrites

/-! Calls that raise after they may have written to the registry. -/
namespace Couv

/-- A call that writes to the registry, with its arguments. `uv` is the answer of libuv: none,
or the code of the error for which its function returns a negative value. `allocs` says which
of the allocations succeed. -/
inductive RegCall
  | tcpNew (uv : Option ℤ)
  | udpNew (uv : Option ℤ)
  | pipeNew (uv : Option ℤ)
  | ttyNew (fd readable : LuaArg) (uv : Option ℤ)
  | listen (self backlog cb : LuaArg) (uv : Option ℤ)
  | timerStart (self cb timeout rep : LuaArg) (uv : Option ℤ)
  | spawn (options : Option SpawnOptions) (allocs : ℕ → Bool) (uv : Option ℤ)
  | getaddrinfo (node service : LuaArg) (hints : Hints) (allocs : ℕ → Bool) (uv : Option ℤ)
  | sleep (timeout : LuaArg) (allocs : ℕ → Bool) (uv : Option ℤ)

/-! The argument checks, each list in the order of the source. -/

/-- `couvL_is_mainthread` before an error -/
def inCoroutine (L : ℕ) (msg : String) : Except LuaError Unit :=
  if L = mainThread then .error (.error msg) else .ok ()

def ttyNewChecks (fd readable : LuaArg) : Except LuaError Unit := do
  let _ ← fd.checkint 1
  let _ ← readable.checkint 2

def listenChecks (self backlog cb : LuaArg) : Except LuaError (ℕ × ℕ) := do
  let h ← self.checkudataclass 1 [.tcp, .pipe, .tty] "couv.Stream"
  let _ ← backlog.checkint 2
  let f ← cb.checkfunction 3
  return (h, f)

/-- The checks that timer_start makes before it registers the callback. -/
def timerStartChecks (self cb : LuaArg) : Except LuaError (ℕ × ℕ) := do
  let h ← self.checkudataclass 1 [.timer] "couv.Timer"
  let f ← cb.checkfunction 2
  return (h, f)

/-- Those it makes afterwards. -/
def timerTimes (timeout rep : LuaArg) : Except LuaError (ℤ × ℤ) := do
  let t ← timeout.optinteger 3 0
  let r ← rep.optinteger 4 0
  return (t, r)

/-- `couv_tonullterminatedstrarray(L, -1, ..)`; nil gives no array. -/
def strArrayChecks (a : StrArray) (alloc : Bool) : Except LuaError (List LuaString) :=
  match a with
  | .nil => .ok []
  | .other => .error mustBeStrings
  | .array xs => do
    couvAllocCheck alloc
    strElems xs

def stdioChecks (a : Stdio) (alloc : Bool) : Except LuaError Unit :=
  match a with
  | .nil => .ok ()
  | .other => .error (.argError 1 "value at \"stdio\" key must be nil or table")
  | .table es => do
    couvAllocCheck alloc
    stdioElems es

def spawnChecks (options : Option SpawnOptions) (allocs : ℕ → Bool) : Except LuaError ℕ :=
  match options with
  | none => .error (.argError 1 "must be table")
  | some o => do
    let args ← strArrayChecks o.args (allocs 0)
    checkArgc args
    let _ ← strArrayChecks o.env (allocs 1)
    stdioChecks o.stdio (allocs 2)
    checkExitCb o.exitCb

def getaddrinfoChecks (L : ℕ) (node service : LuaArg) (hints : Hints) (allocs : ℕ → Bool) :
    Except LuaError Unit := do
  let node ← node.optstring 1
  let service ← service.optstring 2
  luaLArgcheck (node ≠ none ∨ service ≠ none) 1 "node or service must not be nil"
  couvLCheckaddrinfohints 3 hints
  inCoroutine L "getaddrinfo must be called in coroutine."
  couvAllocCheck (allocs 0)

def sleepChecks (L : ℕ) (timeout : LuaArg) (allocs : ℕ → Bool) : Except LuaError Unit := do
  let _ ← timeout.checkinteger 1
  inCoroutine L "sleep must be called in coroutine."
  couvAllocCheck (allocs 0)

/-! The calls. What each does to the world is the function of the system model. -/

abbrev WorldM := EStateM CallError World

namespace WorldM

def check {α : Type} (x : Except LuaError α) : WorldM α :=
  match x with
  | .ok a => pure a
  | .error e => throw (.lua e)

/-- `if (r < 0) luaL_error(L, couvL_uv_lasterrname(..))` -/
def uvCheck (uv : Option ℤ) : WorldM Unit :=
  match uv with
  | none => pure ()
  | some code => throw (.uv code)

end WorldM

namespace WorldM
variable {α β : Type} {s s' : World} {e : CallError}

theorem check_bind_error {x : Except LuaError α} {f : α → WorldM β}
    (h : (check x >>= f) s = .error e s') :
    (∃ a, x = .ok a ∧ f a s = .error e s') ∨ x.isOk = false ∧ s' = s := by
  cases x with
  | ok a => exact .inl ⟨a, rfl, h⟩
  | error e' =>
    obtain ⟨-, rfl⟩ := EStateM.Result.error.inj h
    exact .inr ⟨rfl, rfl⟩

theorem modify_bind {g : World → World} {f : PUnit → WorldM β} :
    (modify g >>= f) s = f ⟨⟩ (g s) := rfl

theorem uvCheck_error {uv : Option ℤ} (h : uvCheck uv s = .error e s') :
    uv.isNone = false ∧ s' = s := by
  cases uv with
  | none => cases h
  | some code =>
    obtain ⟨-, rfl⟩ := EStateM.Result.error.inj h
    exact ⟨rfl, rfl⟩

end WorldM

namespace RegCall
open WorldM

/-- A constructor of a class that is made in coroutines only. -/
def newCall (msg : String) (new : World → Bool → World) (L : ℕ) (uv : Option ℤ) :
    WorldM Unit := do
  modify (fun s => new s uv.isNone)
  check (inCoroutine L msg)
  uvCheck uv

/-- The call, made by `L`, up to the point where it returns or yields. -/
def exec (boundary : Bool) (L : ℕ) : RegCall → WorldM Unit
  | tcpNew uv =>
    newCall "tcp handle must be created in coroutine, not in main thread."
      (fun s ok => s.tcpNew L ok) L uv
  | udpNew uv =>
    newCall "udp handle must be created in coroutine, not in main thread."
      (fun s ok => s.udpNew L ok) L uv
  | pipeNew uv =>
    newCall "pipe handle must be created in coroutine, not in main thread."
      (fun s ok => s.pipeNew L ok) L uv
  | ttyNew fd readable uv => do
    check (ttyNewChecks fd readable)
    modify (fun s => s.ttyNew L uv.isNone)
    uvCheck uv
  | listen self backlog cb uv => do
    let (h, f) ← check (listenChecks self backlog cb)
    modify (fun s => s.couvListen h f uv.isNone)
    uvCheck uv
  | timerStart self cb timeout rep uv => do
    let (h, f) ← check (timerStartChecks self cb)
    match timerTimes timeout rep with
    | .error e =>
      modify (fun s => s.timerStart h f false .argError)
      throw (.lua e)
    | .ok (_, rep) =>
      modify (fun s => s.timerStart h f (rep ≠ 0) (if uv.isNone then .ok else .uvError))
      uvCheck uv
  | spawn options allocs uv => do
    match spawnChecks options allocs with
    | .error e =>
      modify (fun s => s.couvProcessSpawn L 0 .argError)
      throw (.lua e)
    | .ok f =>
      modify (fun s => s.couvProcessSpawn L f (if uv.isNone then .ok else .uvError))
      uvCheck uv
  | getaddrinfo node service hints allocs uv => do
    check (getaddrinfoChecks L node service hints allocs)
    modify (fun s => s.couvGetaddrinfo boundary L uv.isNone)
    uvCheck uv
  | sleep timeout allocs uv => do
    check (sleepChecks L timeout allocs)
    modify (fun s => s.couvSleep boundary L uv.isNone)
    uvCheck uv

/-- The call raises before it writes to the registry: a check fails, or a tty that libuv
rejects is made in the main thread, which registers no coroutine. -/
def stops (L : ℕ) : RegCall → Bool
  | tcpNew _ | udpNew _ | pipeNew _ => L = mainThread
  | ttyNew fd readable _ => L = mainThread || !(ttyNewChecks fd readable).isOk
  | listen self backlog cb _ => !(listenChecks self backlog cb).isOk
  | timerStart self cb _ _ _ => !(timerStartChecks self cb).isOk
  | spawn options allocs _ => !(spawnChecks options allocs).isOk
  | getaddrinfo node service hints allocs _ => !(getaddrinfoChecks L node service hints allocs).isOk
  | sleep timeout allocs _ => !(sleepChecks L timeout allocs).isOk

/-- The function that the call registers as a callback is the one registered already. -/
def reregisters (s : World) : RegCall → Prop
  | listen self backlog cb _ => ∃ h f, listenChecks self backlog cb = .ok (h, f) ∧
    s.registry (couvListenCbRegKey h) = some (.func f)
  | timerStart self cb _ _ _ => ∃ h f, timerStartChecks self cb = .ok (h, f) ∧
    s.registry (couvTimerCbRegKey h) = some (.func f)
  | tcpNew _ | udpNew _ | pipeNew _ | ttyNew _ _ _ | spawn _ _ _ | getaddrinfo _ _ _ _ _
  | sleep _ _ _ => False

section
variable {s s' : World} {e : CallError} {L : ℕ} {boundary : Bool}

theorem rawsetp_registry_iff {k : RegKey} {v : RegVal} :
    (s.couvRawsetp k (some v)).registry = s.registry ↔ s.registry k = some v := by
  constructor
  · intro h
    rw [← h]
    exact if_pos rfl
  · intro h
    funext k'
    rw [World.couvRawsetp_registry]
    split
    · next hk => rw [hk, h]
    · rfl

/-- An entry under a key that had none. -/
theorem rawsetp_registry_ne {k : RegKey} {v : RegVal} (h : s.registry k = none) :
    (s.couvRawsetp k (some v)).registry ≠ s.registry := by
  rw [ne_eq, rawsetp_registry_iff, h]
  exact (Option.some_ne_none v).symm

/-- A stream class made in a coroutine, when libuv fails. -/
theorem newInCoroutine_false (hs : RegistryOk s) (type : HandleType) :
    (s.newInCoroutine type L false).registry = s.registry ↔ L = mainThread := by
  simp only [World.newInCoroutine]
  split
  · next hL => exact iff_of_true rfl hL
  · next hL =>
    refine iff_of_false ?_ hL
    exact rawsetp_registry_ne (s := s) (hs.keys.fresh _ le_rfl).1

theorem newCall_error (hs : RegistryOk s) {msg : String} {type : HandleType} {uv : Option ℤ}
    (h : newCall msg (fun s ok => s.newInCoroutine type L ok) L uv s = .error e s') :
    s'.registry = s.registry ↔ L = mainThread := by
  rw [newCall, modify_bind] at h
  rcases check_bind_error h with ⟨u, hL, hu⟩ | ⟨hL, rfl⟩
  · obtain ⟨hok, rfl⟩ := uvCheck_error hu
    rw [hok]
    exact newInCoroutine_false hs type
  · have hmain : L = mainThread := by
      by_contra hne
      simp [inCoroutine, hne, Except.isOk, Except.toBool] at hL
    refine iff_of_true ?_ hmain
    simp only [World.newInCoroutine, if_pos hmain, World.newHandle_registry]

theorem submitAnchored_false (hs : RegistryOk s) (kind : ReqKind) (hL : L ≠ mainThread) :
    (s.submitAnchored kind boundary L false).registry ≠ s.registry := by
  simp only [World.submitAnchored, if_neg hL]
  exact rawsetp_registry_ne (hs.request _ le_rfl)

theorem ne_main_of_inCoroutine {msg : String} {u : Unit} (h : inCoroutine L msg = .ok u) :
    L ≠ mainThread := by
  intro hL
  rw [inCoroutine, if_pos hL] at h
  cases h

theorem getaddrinfo_coroutine {node service : LuaArg} {hints : Hints} {allocs : ℕ → Bool}
    {u : Unit} (h : getaddrinfoChecks L node service hints allocs = .ok u) : L ≠ mainThread := by
  obtain ⟨n, -, h⟩ := bind_eq_ok h
  obtain ⟨m, -, h⟩ := bind_eq_ok h
  obtain ⟨_, -, h⟩ := bind_eq_ok h
  obtain ⟨_, -, h⟩ := bind_eq_ok h
  obtain ⟨_, hL, -⟩ := bind_eq_ok h
  exact ne_main_of_inCoroutine hL

theorem sleep_coroutine {timeout : LuaArg} {allocs : ℕ → Bool} {u : Unit}
    (h : sleepChecks L timeout allocs = .ok u) : L ≠ mainThread := by
  obtain ⟨t, -, h⟩ := bind_eq_ok h
  obtain ⟨_, hL, -⟩ := bind_eq_ok h
  exact ne_main_of_inCoroutine hL

theorem ttyNew_false (hs : RegistryOk s) :
    (s.ttyNew L false).registry = s.registry ↔ L = mainThread := by
  simp only [World.ttyNew, World.initStream, Bool.false_eq_true, if_false]
  split
  · next hL => exact iff_of_true rfl hL
  · next hL =>
    refine iff_of_false ?_ hL
    exact rawsetp_registry_ne (s := s.newHandle .tty L) (hs.keys.fresh _ le_rfl).1

/-- What a raising call leaves of the registry. -/
theorem exec_error (hs : RegistryOk s) {c : RegCall} (h : c.exec boundary L s = .error e s') :
    s'.registry = s.registry ↔ c.stops L = true ∨ c.reregisters s := by
  -- a call that stops at its checks leaves the state as it is
  have hsame : ∀ {P : Prop}, s' = s → P → (s'.registry = s.registry ↔ P) := by
    rintro P rfl hP
    exact iff_of_true rfl hP
  cases c with
  | tcpNew uv | udpNew uv | pipeNew uv =>
    simpa only [stops, reregisters, or_false, decide_eq_true_eq] using newCall_error hs h
  | ttyNew fd readable uv =>
    rcases check_bind_error h with ⟨u, hc, h⟩ | ⟨hc, he⟩
    · obtain ⟨hok, rfl⟩ := uvCheck_error h
      rw [hok, ttyNew_false hs]
      simp [stops, reregisters, hc, Except.isOk, Except.toBool]
    · exact hsame he (.inl (by simp [stops, hc]))
  | listen self backlog cb uv =>
    rcases check_bind_error h with ⟨⟨k, f⟩, hc, h⟩ | ⟨hc, he⟩
    · obtain ⟨hok, rfl⟩ := uvCheck_error h
      simp only [hok, World.couvListen, Bool.false_eq_true, if_false]
      rw [rawsetp_registry_iff]
      simp [stops, reregisters, hc, Except.isOk, Except.toBool]
    · exact hsame he (.inl (by simp [stops, hc]))
  | timerStart self cb timeout rep uv =>
    rcases check_bind_error h with ⟨⟨k, f⟩, hc, h⟩ | ⟨hc, he⟩
    · -- the callback is registered before timeout and repeat are looked at
      have hset : s' = s.couvRawsetp (couvTimerCbRegKey k) (some (.func f)) := by
        cases ht : timerTimes timeout rep with
        | error e' =>
          simp only [ht] at h
          exact (EStateM.Result.error.inj h).2.symm
        | ok times =>
          simp only [ht, modify_bind] at h
          obtain ⟨hok, rfl⟩ := uvCheck_error h
          rw [hok]
          rfl
      rw [hset, rawsetp_registry_iff]
      simp [stops, reregisters, hc, Except.isOk, Except.toBool]
    · exact hsame he (.inl (by simp [stops, hc]))
  | spawn options allocs uv =>
    cases hc : spawnChecks options allocs with
    | error e' =>
      simp only [exec, hc] at h
      obtain ⟨-, rfl⟩ := EStateM.Result.error.inj h
      exact iff_of_true rfl (.inl (by simp [stops, hc, Except.isOk, Except.toBool]))
    | ok f =>
      simp only [exec, hc, modify_bind] at h
      obtain ⟨hok, rfl⟩ := uvCheck_error h
      refine iff_of_false ?_ ?_
      · rw [hok]
        exact rawsetp_registry_ne (s := s.newHandle .process L) (hs.fresh_callback le_rfl)
      · simp [stops, reregisters, hc, Except.isOk, Except.toBool]
  | getaddrinfo node service hints allocs uv =>
    rcases check_bind_error h with ⟨u, hc, h⟩ | ⟨hc, he⟩
    · obtain ⟨hok, rfl⟩ := uvCheck_error h
      refine iff_of_false ?_ ?_
      · rw [hok]
        exact submitAnchored_false hs _ (getaddrinfo_coroutine hc)
      · simp [stops, reregisters, hc, Except.isOk, Except.toBool]
    · exact hsame he (.inl (by simp [stops, hc]))
  | sleep timeout allocs uv =>
    rcases check_bind_error h with ⟨u, hc, h⟩ | ⟨hc, he⟩
    · obtain ⟨hok, rfl⟩ := uvCheck_error h
      refine iff_of_false ?_ ?_
      · rw [hok]
        exact submitAnchored_false hs _ (sleep_coroutine hc)
      · simp [stops, reregisters, hc, Except.isOk, Except.toBool]
    · exact hsame he (.inl (by simp [stops, hc]))

/-- A call that gets past its first checks is a step of the system. -/
theorem exec_step (hL : s.current = some L) (c : RegCall) :
    let t := match c.exec boundary L s with
      | .ok _ t | .error _ t => t
    t = s ∨ ∃ a, t = s.exec a := by
  -- what libuv answers is looked at after the state has changed
  have hstep : ∀ {a : Action} {t : World} (uv : Option ℤ), t = s.exec a →
      (match uvCheck uv t with | .ok _ t' | .error _ t' => t') = s.exec a := by
    rintro a t uv rfl
    cases uv <;> rfl
  have hhandle : ∀ m, s.execHandle L m = s.exec (.handle m) := by
    intro m
    rw [World.exec, hL]
    rfl
  have hcall : ∀ b, s.execCall boundary L b = s.exec (.call boundary b) := by
    intro b
    rw [World.exec, hL]
    rfl
  have hnew : ∀ {m : HandleAct} {t : World} (msg : String) (uv : Option ℤ),
      t = s.execHandle L m →
      (match (check (inCoroutine L msg) >>= fun _ => uvCheck uv) t with
        | .ok _ t' | .error _ t' => t') = s.exec (.handle m) := by
    intro m t msg uv ht
    rw [ht, hhandle]
    cases inCoroutine L msg with
    | error e => rfl
    | ok u => exact hstep uv rfl
  cases c with
  | tcpNew uv => exact .inr ⟨_, hnew (m := .tcpNew uv.isNone) _ uv rfl⟩
  | udpNew uv => exact .inr ⟨_, hnew (m := .udpNew uv.isNone) _ uv rfl⟩
  | pipeNew uv => exact .inr ⟨_, hnew (m := .pipeNew uv.isNone) _ uv rfl⟩
  | ttyNew fd readable uv =>
    simp only [exec]
    cases ttyNewChecks fd readable with
    | error e => exact .inl rfl
    | ok u => exact .inr ⟨_, hstep uv (hhandle (.ttyNew uv.isNone))⟩
  | listen self backlog cb uv =>
    simp only [exec]
    cases listenChecks self backlog cb with
    | error e => exact .inl rfl
    | ok hf => exact .inr ⟨_, hstep uv (hhandle (.listen hf.1 hf.2 uv.isNone))⟩
  | timerStart self cb timeout rep uv =>
    simp only [exec]
    cases timerStartChecks self cb with
    | error e => exact .inl rfl
    | ok hf =>
      right
      cases timerTimes timeout rep with
      | error e => exact ⟨_, hhandle (.timerStart hf.1 hf.2 false .argError)⟩
      | ok times => exact ⟨_, hstep uv (hhandle (.timerStart hf.1 hf.2 _ _))⟩
  | spawn options allocs uv =>
    simp only [exec]
    cases spawnChecks options allocs with
    | error e => exact .inr ⟨_, hhandle (.spawn 0 .argError)⟩
    | ok f => exact .inr ⟨_, hstep uv (hhandle (.spawn f _))⟩
  | getaddrinfo node service hints allocs uv =>
    simp only [exec]
    cases getaddrinfoChecks L node service hints allocs with
    | error e => exact .inl rfl
    | ok u => exact .inr ⟨_, hstep uv (hcall (.getaddrinfo uv.isNone))⟩
  | sleep timeout allocs uv =>
    simp only [exec]
    cases sleepChecks L timeout allocs with
    | error e => exact .inl rfl
    | ok u => exact .inr ⟨_, hstep uv (hcall (.sleep uv.isNone))⟩

end
end RegCall

/-- In every reachable state, a call that raises leaves the registry as it was if and only if
it raises before its first write, or writes what was there already. -/
theorem failed_call_registry {as : List Action} (he : couv.Enabled .init as) {boundary : Bool}
    {L : ℕ} {c : RegCall} {e : CallError} {s' : World}
    (h : c.exec boundary L (couv.run .init as) = .error e s') :
    s'.registry = (couv.run .init as).registry ↔
      c.stops L = true ∨ c.reregisters (couv.run .init as) :=
  RegCall.exec_error (run_registryOk he) h

theorem failed_call_registry_main :
    (World.init.tcpNew mainThread true).registry = World.init.registry :=
  (@failed_call_registry [] trivial false mainThread (.tcpNew none) _ _ rfl).mpr (.inl rfl)

/-- A tcp handle, and a listen on it that libuv rejects. -/
def tcpMade : List Action := [.lua .create, .lua (.resume 1 []), .handle (.tcpNew true)]

theorem failed_listen_registers : ¬∀ as, couv.Enabled .init as → ∀ boundary L,
    (couv.run .init as).current = some L → ∀ (c : RegCall) e s',
    c.exec boundary L (couv.run .init as) = .error e s' →
      s'.registry = (couv.run .init as).registry := by
  intro hall
  have h := hall tcpMade (by decide) false 1 rfl
    (.listen (.handle .tcp 0) (.value (.number 128)) (.function 7) (some 98)) (.uv 98) _ rfl
  have hkey := congrFun h (.callback 0)
  cases hkey

end Couv
