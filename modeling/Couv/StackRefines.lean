import Couv.StackCode

/-! The C code on the Lua stack does to the registry what the system model says. -/
namespace Couv

open StackM CState

variable {lay : KeyLayout} {fail : ResumeFailure} {boundary : Bool} {L : ℕ} {σ : CState}

theorem entry_handle (t : HandleType) (h : ℕ) : Slot.Entry (.arg (.handle t h)) := .inr rfl

theorem entry_thread (L : ℕ) : Slot.Entry (.thread L) := .inr rfl

theorem clean_newState (hσ : σ.Clean) (L : ℕ) (type : HandleType) :
    (newState σ L type).Clean := hσ

theorem view_newState (L : ℕ) (type : HandleType) :
    (newState σ L type).view lay = (σ.view lay).newHandle type L := rfl

/-- A check of the code that the call of the system model makes too. -/
theorem agrees_check {α β γ : Type} {Q : α → LuaStack Slot → Prop} {x : Except LuaError γ}
    {f : γ → StackM α} {y : EStateM.Result CallError World β} (hσ : σ.Clean)
    (herror : ∀ e, x = .error e → y = .error (.lua e) (σ.view lay))
    (hok : ∀ c, x = .ok c → Agrees lay Q (f c σ) y) : Agrees lay Q ((check x >>= f) σ) y := by
  cases hx : x with
  | error e =>
    rw [herror e hx]
    exact ⟨rfl, hσ, rfl⟩
  | ok c => exact hok c hx

theorem worldCheck_error {β γ : Type} {x : Except LuaError γ} {g : γ → WorldM β} {e : LuaError}
    (hx : x = .error e) (s : World) : (WorldM.check x >>= g) s = .error (.lua e) s := by
  rw [hx]
  rfl

theorem worldCheck_ok {β γ : Type} {x : Except LuaError γ} {g : γ → WorldM β} {c : γ}
    (hx : x = .ok c) (s : World) : (WorldM.check x >>= g) s = g c s := by
  rw [hx]
  rfl

theorem argOf_top (st : LuaStack Slot) (a : LuaArg) : argOf (st.push (.arg a)) (-1) = a := by
  rw [argOf, LuaStack.get_top]

/-! Constructors. -/

theorem newInCoroutine_main (type : HandleType) (msg : String) :
    newInCoroutine lay mainThread type msg σ =
      .error (.lua (.error msg)) (newState σ mainThread type) := by
  rw [newInCoroutine, newHandle_bind, isMainthread_main]
  rfl

theorem newInCoroutine_other (hL : L ≠ mainThread) (type : HandleType) (msg : String) :
    newInCoroutine lay L type msg σ = .ok σ.world.handles.next ((newState σ L type).setEntry
      (lay.key (couvThreadRegKey σ.world.handles.next)) (.thread L)) := by
  rw [newInCoroutine, newHandle_bind, isMainthread_other hL]
  simp only [Bool.false_eq_true, if_false, thread_rawsetp]
  rfl

/-- A constructor returns the handle, on the top of what was on the stack. -/
def ReturnsHandle (σ : CState) (type : HandleType) (a : CReturn) (st : LuaStack Slot) : Prop :=
  a = .values 1 ∧ st = σ.stack.push (.arg (.handle type σ.world.handles.next))

theorem initStream_none {τ : CState} {st : LuaStack Slot} {type : HandleType} {h : ℕ}
    (hst : τ.stack = st.push (.arg (.handle type h))) :
    initStream lay L h none τ = .ok (.values 1)
      ((τ.setWorld (fun s => (s.link h L).initQueue h)).setEntry (lay.key (couvUserdataRegKey h))
        (.arg (.handle type h))) := by
  have htop : ((τ.setWorld (fun s => (s.link h L).initQueue h)).stack.get (-1)).getD .nil =
      .arg (.handle type h) := by
    change (τ.stack.get (-1)).getD .nil = _
    rw [hst, LuaStack.get_top, Option.getD_some]
  rw [initStream, uvCheck_none, world_bind, pushvalue_rawsetp, htop]
  rfl

/-- What initStream makes of a new handle. -/
theorem initStream_agrees {τ : CState} (hτ : τ.Clean) {st : LuaStack Slot} {type : HandleType}
    {h : ℕ} (hst : τ.stack = st.push (.arg (.handle type h))) (uv : Option ℤ) :
    Agrees lay (fun a st' => a = .values 1 ∧ st' = st.push (.arg (.handle type h)))
      (initStream lay L h uv τ)
      (WorldM.uvCheck uv ((τ.view lay).initStream h L uv.isNone)) := by
  cases uv with
  | some code => exact ⟨rfl, hτ, rfl⟩
  | none =>
    rw [initStream_none hst]
    refine ⟨CState.Clean.setEntry hτ _ (entry_handle type h), ?_, rfl, hst⟩
    rw [view_setEntry, view_setWorld _ _ (fun _ _ => rfl)]
    rfl

/-- tcp_new, udp_new and pipe_new -/
theorem stream_agrees (hσ : σ.Clean) (type : HandleType) (msg : String) (uv : Option ℤ) :
    Agrees lay (ReturnsHandle σ type)
      ((newInCoroutine lay L type msg >>= fun h => initStream lay L h uv) σ)
      (RegCall.newCall msg (fun s ok => s.newInCoroutine type L ok) L uv (σ.view lay)) := by
  by_cases hL : L = mainThread
  · subst hL
    rw [run_bind_error (newInCoroutine_main type msg)]
    exact ⟨rfl, hσ, rfl⟩
  · rw [run_bind_ok (newInCoroutine_other hL type msg)]
    have hcheck : inCoroutine L msg = .ok () := if_neg hL
    have hworld : RegCall.newCall msg (fun s ok => s.newInCoroutine type L ok) L uv (σ.view lay) =
        WorldM.uvCheck uv ((σ.view lay).newInCoroutine type L uv.isNone) := by
      rw [RegCall.newCall, WorldM.modify_bind, hcheck]
      rfl
    rw [hworld, World.newInCoroutine, if_neg hL]
    have hset := view_setEntry (newState σ L type) lay (couvThreadRegKey σ.world.handles.next)
      (.thread L)
    rw [view_newState] at hset
    have hclean := CState.Clean.setEntry (clean_newState hσ L type)
      (lay.key (couvThreadRegKey σ.world.handles.next)) (entry_thread L)
    have h := @initStream_agrees lay L _ hclean σ.stack type σ.world.handles.next rfl uv
    rw [hset] at h
    exact h

theorem newTty_main : couvNewTtyHandle lay mainThread σ =
    .ok σ.world.handles.next (newState σ mainThread .tty) := by
  rw [couvNewTtyHandle, newHandle_bind, isMainthread_main]
  rfl

theorem newTty_other (hL : L ≠ mainThread) : couvNewTtyHandle lay L σ =
    .ok σ.world.handles.next ((newState σ L .tty).setEntry
      (lay.key (couvThreadRegKey σ.world.handles.next)) (.thread L)) := by
  rw [couvNewTtyHandle, newHandle_bind, isMainthread_other hL]
  simp only [Bool.false_eq_true, if_false, thread_rawsetp]
  rfl

theorem ttyNew_agrees (hσ : σ.Clean) (uv : Option ℤ) :
    Agrees lay (ReturnsHandle σ .tty) (ttyNew lay L uv σ)
      ((RegCall.ttyNew (argOf σ.stack 1) (argOf σ.stack 2) uv).exec boundary L (σ.view lay)) := by
  rw [ttyNew, arg_bind]
  refine agrees_check hσ ?_ ?_
  · intro e he
    refine worldCheck_error ?_ _
    rw [ttyNewChecks, he]
    rfl
  intro fd hfd
  rw [arg_bind]
  refine agrees_check hσ ?_ ?_
  · intro e he
    refine worldCheck_error ?_ _
    rw [ttyNewChecks, hfd]
    exact congrArg (· >>= fun _ => _) he
  intro readable hreadable
  have hchecks : ttyNewChecks (argOf σ.stack 1) (argOf σ.stack 2) = .ok () := by
    rw [ttyNewChecks, hfd]
    exact congrArg (· >>= fun _ => _) hreadable
  have hworld : (RegCall.ttyNew (argOf σ.stack 1) (argOf σ.stack 2) uv).exec boundary L
      (σ.view lay) = WorldM.uvCheck uv ((σ.view lay).ttyNew L uv.isNone) :=
    worldCheck_ok hchecks _
  rw [hworld, World.ttyNew]
  -- only a coroutine gets an entry under the THREAD key, before uv_tty_init may fail
  by_cases hL : L = mainThread
  · subst hL
    rw [run_bind_ok newTty_main, if_pos rfl]
    exact initStream_agrees (clean_newState hσ _ _) rfl uv
  · rw [run_bind_ok (newTty_other hL), if_neg hL]
    have hclean := CState.Clean.setEntry (clean_newState hσ L .tty)
      (lay.key (couvThreadRegKey σ.world.handles.next)) (entry_thread L)
    have h := @initStream_agrees lay L _ hclean σ.stack .tty σ.world.handles.next rfl uv
    rw [view_setEntry, view_newState] at h
    exact h

/-- couv_timer_create, which writes no entry -/
theorem timerCreate_agrees (hσ : σ.Clean) (uv : Option ℤ) :
    Agrees lay (ReturnsHandle σ .timer) (StackM.couvTimerCreate L uv σ)
      (WorldM.uvCheck uv ((σ.view lay).couvTimerCreate L uv.isNone)) := by
  rw [StackM.couvTimerCreate, newHandle_bind]
  cases uv with
  | some code => exact ⟨rfl, hσ, rfl⟩
  | none => exact ⟨hσ, rfl, rfl, rfl⟩

theorem spawnChecks_eq (o : SpawnOptions) (allocs : ℕ → Bool) :
    spawnChecks (some o) allocs = (spawnReads o allocs >>= fun _ => checkExitCb o.exitCb) := by
  simp only [spawnChecks, spawnReads, bind_assoc]

theorem checkExitCb_eq_ok {a : LuaArg} {f : ℕ} (h : checkExitCb a = .ok f) : a = .function f := by
  cases a with
  | function g =>
    obtain rfl := Except.ok.inj h
    rfl
  | value | handle | table => cases h

theorem spawn_agrees (hσ : σ.Clean) (options : Option SpawnOptions) (allocs : ℕ → Bool)
    (uv : Option ℤ) :
    Agrees lay (ReturnsHandle σ .process) (StackM.couvProcessSpawn lay L options allocs uv σ)
      ((RegCall.spawn options allocs uv).exec boundary L (σ.view lay)) := by
  rw [StackM.couvProcessSpawn, newHandle_bind]
  have hnew := clean_newState hσ L .process
  have hfail {e : LuaError} (he : spawnChecks options allocs = .error e) :
      (RegCall.spawn options allocs uv).exec boundary L (σ.view lay) =
        .error (.lua e) ((newState σ L .process).view lay) := by
    simp only [RegCall.exec, he]
    rfl
  cases options with
  | none =>
    rw [hfail rfl]
    exact ⟨rfl, hnew, rfl⟩
  | some o =>
    refine agrees_check hnew ?_ ?_
    · intro e he
      refine hfail ?_
      rw [spawnChecks_eq, he]
      rfl
    intro _ hreads
    -- the field lies on the top, over the handle
    let τ := (newState σ L .process).setStack ((newState σ L .process).stack.push (.arg o.exitCb))
    have htop : argOf τ.stack (-1) = o.exitCb := argOf_top _ _
    change Agrees lay _ ((check (checkExitCb (argOf τ.stack (-1))) >>= _) τ) _
    rw [htop]
    refine agrees_check hnew ?_ ?_
    · intro e he
      refine hfail ?_
      rw [spawnChecks_eq, hreads]
      exact he
    intro f hf
    have hcb := checkExitCb_eq_ok hf
    have hworld : (RegCall.spawn (some o) allocs uv).exec boundary L (σ.view lay) =
        WorldM.uvCheck uv
          ((σ.view lay).couvProcessSpawn L f (if uv.isNone then .ok else .uvError)) := by
      have hchecks : spawnChecks (some o) allocs = .ok f := by
        rw [spawnChecks_eq, hreads]
        exact hf
      simp only [RegCall.exec, hchecks]
      rfl
    rw [hworld, thread_rawsetp, hcb]
    have hset := view_setEntry (newState σ L .process) lay (couvExitCbRegKey σ.world.handles.next)
      (.arg (.function f))
    have hclean := CState.Clean.setEntry hnew (lay.key (couvExitCbRegKey σ.world.handles.next))
      (v := .arg (.function f)) (.inr rfl)
    cases uv with
    | some code => exact ⟨rfl, hclean, hset⟩
    | none =>
      have hget : ((newState σ L .process).stack.get (-1)).getD .nil =
          .arg (.handle .process σ.world.handles.next) := by
        rw [newState, LuaStack.get_top, Option.getD_some]
      rw [uvCheck_none, world_bind, pushvalue_rawsetp]
      change Agrees lay _ (.ok _ (CState.setEntry _ _
        (((newState σ L .process).stack.get (-1)).getD .nil))) _
      rw [hget]
      refine ⟨CState.Clean.setEntry hclean _ (entry_handle _ _), ?_, rfl, rfl⟩
      rw [view_setEntry, view_setWorld _ _ (fun _ _ => rfl), hset]
      rfl

/-! Methods and functions. -/

/-- What a check for a class of handles lets through lies in the slot. -/
theorem slot_of_handle {st : LuaStack Slot} {i : ℤ} {n : ℕ} {types : List HandleType}
    {tname : String} {h : ℕ} (hc : (argOf st i).checkudataclass n types tname = .ok h) :
    ∃ t, (st.get i).getD .nil = .arg (.handle t h) := by
  unfold argOf at hc
  cases hg : st.get i with
  | none =>
    rw [hg] at hc
    cases hc
  | some v =>
    rw [hg] at hc
    cases v with
    | thread | lightuserdata | metatable => cases hc
    | arg a =>
      cases a with
      | value | function | table => cases hc
      | handle t g =>
        simp only [LuaArg.checkudataclass] at hc
        split at hc
        · obtain rfl := Except.ok.inj hc
          exact ⟨t, rfl⟩
        · cases hc

theorem slot_of_function {st : LuaStack Slot} {i : ℤ} {n f : ℕ}
    (hc : (argOf st i).checkfunction n = .ok f) :
    (st.get i).getD .nil = .arg (.function f) := by
  unfold argOf at hc
  cases hg : st.get i with
  | none =>
    rw [hg] at hc
    cases hc
  | some v =>
    rw [hg] at hc
    cases v with
    | thread | lightuserdata | metatable => cases hc
    | arg a =>
      cases a with
      | value | handle | table => cases hc
      | function g =>
        obtain rfl := Except.ok.inj hc
        rfl

/-- A method returns nothing and leaves the stack as it was. -/
def ReturnsNone (σ : CState) (a : CReturn) (st : LuaStack Slot) : Prop :=
  a = .values 0 ∧ st = σ.stack

theorem listen_agrees (hσ : σ.Clean) (uv : Option ℤ) :
    Agrees lay (ReturnsNone σ) (StackM.couvListen lay uv σ)
      ((RegCall.listen (argOf σ.stack 1) (argOf σ.stack 2) (argOf σ.stack 3) uv).exec boundary L
        (σ.view lay)) := by
  rw [StackM.couvListen, arg_bind]
  refine agrees_check hσ ?_ ?_
  · intro e he
    refine worldCheck_error ?_ _
    rw [listenChecks, he]
    rfl
  -- the checks of the code and of the model fail at the same argument with the same error
  intro h hself
  rw [arg_bind]
  refine agrees_check hσ ?_ ?_
  · intro e he
    refine worldCheck_error ?_ _
    rw [listenChecks, hself]
    exact congrArg (· >>= fun _ => _) he
  intro backlog hbacklog
  rw [arg_bind]
  refine agrees_check hσ ?_ ?_
  · intro e he
    refine worldCheck_error ?_ _
    rw [listenChecks, hself]
    change ((argOf σ.stack 2).checkint 2 >>= fun _ => (argOf σ.stack 3).checkfunction 3 >>= _) = _
    rw [hbacklog, he]
    rfl
  intro f hf
  have hchecks : listenChecks (argOf σ.stack 1) (argOf σ.stack 2) (argOf σ.stack 3) =
      .ok (h, f) := by
    rw [listenChecks, hself]
    change ((argOf σ.stack 2).checkint 2 >>= fun _ => (argOf σ.stack 3).checkfunction 3 >>= _) = _
    rw [hbacklog, hf]
    rfl
  have hworld : (RegCall.listen (argOf σ.stack 1) (argOf σ.stack 2) (argOf σ.stack 3) uv).exec
      boundary L (σ.view lay) = WorldM.uvCheck uv ((σ.view lay).couvListen h f uv.isNone) :=
    worldCheck_ok hchecks _
  obtain ⟨t, ht⟩ := slot_of_handle hself
  rw [hworld, pushvalue_rawsetp, slot_of_function hf]
  have hset := view_setEntry σ lay (couvListenCbRegKey h) (.arg (.function f))
  have hclean := CState.Clean.setEntry hσ (lay.key (couvListenCbRegKey h))
    (v := .arg (.function f)) (.inr rfl)
  -- the callback is in the registry whether uv_listen succeeds or not
  cases uv with
  | some code => exact ⟨rfl, hclean, hset⟩
  | none =>
    rw [uvCheck_none, world_bind, pushvalue_rawsetp]
    change Agrees lay _ (.ok _ (CState.setEntry _ _ ((σ.stack.get 1).getD .nil))) _
    rw [ht]
    refine ⟨CState.Clean.setEntry hclean _ (entry_handle _ _), ?_, rfl, rfl⟩
    rw [view_setEntry, view_setWorld _ _ (fun _ _ => rfl), hset]
    rfl

theorem timerStart_agrees (hσ : σ.Clean) (uv : Option ℤ) :
    Agrees lay (ReturnsNone σ) (StackM.timerStart lay uv σ)
      ((RegCall.timerStart (argOf σ.stack 1) (argOf σ.stack 2) (argOf σ.stack 3)
        (argOf σ.stack 4) uv).exec boundary L (σ.view lay)) := by
  rw [StackM.timerStart, arg_bind]
  refine agrees_check hσ ?_ ?_
  · intro e he
    refine worldCheck_error ?_ _
    rw [timerStartChecks, he]
    rfl
  intro h hself
  rw [arg_bind]
  refine agrees_check hσ ?_ ?_
  · intro e he
    refine worldCheck_error ?_ _
    rw [timerStartChecks, hself]
    change ((argOf σ.stack 2).checkfunction 2 >>= fun f => pure (h, f)) = _
    rw [he]
    rfl
  intro f hf
  have hchecks : timerStartChecks (argOf σ.stack 1) (argOf σ.stack 2) = .ok (h, f) := by
    rw [timerStartChecks, hself]
    change ((argOf σ.stack 2).checkfunction 2 >>= fun f => pure (h, f)) = _
    rw [hf]
    rfl
  obtain ⟨t, ht⟩ := slot_of_handle hself
  rw [pushvalue_rawsetp, slot_of_function hf]
  have hset := view_setEntry σ lay (couvTimerCbRegKey h) (.arg (.function f))
  have hclean := CState.Clean.setEntry hσ (lay.key (couvTimerCbRegKey h))
    (v := .arg (.function f)) (.inr rfl)
  -- the times are looked at after the callback has been registered
  have hbad {e : LuaError} (he : timerTimes (argOf σ.stack 3) (argOf σ.stack 4) = .error e) :
      (RegCall.timerStart (argOf σ.stack 1) (argOf σ.stack 2) (argOf σ.stack 3)
        (argOf σ.stack 4) uv).exec boundary L (σ.view lay) =
          .error (.lua e) ((σ.view lay).timerStart h f false .argError) := by
    refine (worldCheck_ok hchecks _).trans ?_
    simp only [he]
    rfl
  rw [arg_bind]
  refine agrees_check hclean ?_ ?_
  · intro e he
    change (argOf σ.stack 3).optinteger 3 0 = .error e at he
    have htimes : timerTimes (argOf σ.stack 3) (argOf σ.stack 4) = .error e := by
      rw [timerTimes, he]
      rfl
    rw [hbad htimes, hset]
    rfl
  intro timeout htimeout
  change (argOf σ.stack 3).optinteger 3 0 = .ok timeout at htimeout
  rw [arg_bind]
  refine agrees_check hclean ?_ ?_
  · intro e he
    change (argOf σ.stack 4).optinteger 4 0 = .error e at he
    have htimes : timerTimes (argOf σ.stack 3) (argOf σ.stack 4) = .error e := by
      rw [timerTimes, htimeout]
      change ((argOf σ.stack 4).optinteger 4 0 >>= fun r => pure (timeout, r)) = _
      rw [he]
      rfl
    rw [hbad htimes, hset]
    rfl
  intro rep hrep
  change (argOf σ.stack 4).optinteger 4 0 = .ok rep at hrep
  have htimes : timerTimes (argOf σ.stack 3) (argOf σ.stack 4) = .ok (timeout, rep) := by
    rw [timerTimes, htimeout]
    change ((argOf σ.stack 4).optinteger 4 0 >>= fun r => pure (timeout, r)) = _
    rw [hrep]
    rfl
  have hgood : (RegCall.timerStart (argOf σ.stack 1) (argOf σ.stack 2) (argOf σ.stack 3)
      (argOf σ.stack 4) uv).exec boundary L (σ.view lay) = WorldM.uvCheck uv
        ((σ.view lay).timerStart h f (rep ≠ 0) (if uv.isNone then .ok else .uvError)) := by
    refine (worldCheck_ok hchecks _).trans ?_
    simp only [htimes]
    rfl
  rw [hgood]
  cases uv with
  | some code => exact ⟨rfl, hclean, hset⟩
  | none =>
    rw [uvCheck_none, world_bind, pushvalue_rawsetp]
    change Agrees lay _ (.ok _ (CState.setEntry _ _ ((σ.stack.get 1).getD .nil))) _
    rw [ht]
    refine ⟨CState.Clean.setEntry hclean _ (entry_handle _ _), ?_, rfl, rfl⟩
    rw [view_setEntry, view_setWorld _ _ (fun _ _ => rfl), hset]
    rfl

/-! Calls that wait. -/

/-- A yield does not look at the registry. -/
theorem luaYield_registry (w : Wait) (s : World) (r : RegKey → Option RegVal) :
    World.luaYield { s with registry := r } boundary w =
      { s.luaYield boundary w with registry := r } := by
  unfold World.luaYield
  dsimp only
  split
  · split
    · rfl
    · rfl
  · rfl

theorem submit_registry (req : Req) (s : World) (r : RegKey → Option RegVal) :
    World.submit { s with registry := r } boundary req =
      { s.submit boundary req with registry := r } :=
  luaYield_registry (.req s.reqs.next) (s.newReq req) r

theorem view_submit (τ : CState) (req : Req) :
    (τ.setWorld (fun s => s.submit boundary req)).view lay = (τ.view lay).submit boundary req :=
  view_setWorld τ lay (submit_registry req)

theorem close_agrees (hσ : σ.Clean) : Agrees lay
    (fun a st => (a = .values 0 ∧ L = mainThread ∨ a = .yield ∧ L ≠ mainThread) ∧ st = σ.stack)
    (StackM.couvClose boundary L σ)
    ((WorldM.check ((argOf σ.stack 1).checkudataclass 1
        [.tcp, .udp, .pipe, .tty, .timer, .process] "couv.Handle") >>= fun h =>
      modify (fun s => s.couvClose boundary h L)) (σ.view lay)) := by
  rw [StackM.couvClose, arg_bind]
  refine agrees_check hσ (fun e he => worldCheck_error he _) ?_
  intro h hself
  rw [worldCheck_ok hself, world_bind]
  by_cases hL : L = mainThread
  · subst hL
    rw [isMainthread_main]
    exact ⟨hσ, rfl, .inl ⟨rfl, rfl⟩, rfl⟩
  · rw [isMainthread_other hL]
    refine ⟨hσ, ?_, .inr ⟨rfl, hL⟩, rfl⟩
    exact (view_submit _ _).trans (if_neg hL).symm

theorem submitAnchored_agrees {τ : CState} {st : LuaStack Slot} (hτ : τ.Clean)
    (hst : τ.stack = st.push (.thread L)) (hL : L ≠ mainThread) (kind : ReqKind) (alloc : Bool)
    (uv : Option ℤ) :
    Agrees lay (fun a st' => a = .yield ∧ st' = st)
      (StackM.submitAnchored lay boundary L kind alloc uv τ)
      ((WorldM.check (couvAllocCheck alloc) >>= fun _ =>
        modify (fun s => s.submitAnchored kind boundary L uv.isNone) >>= fun _ =>
        WorldM.uvCheck uv) (τ.view lay)) := by
  refine agrees_check hτ (fun e he => worldCheck_error he _) ?_
  intro u halloc
  rw [worldCheck_ok halloc, WorldM.modify_bind, World.submitAnchored, if_neg hL]
  -- the thread is registered under the address that the request has got
  let r := τ.world.reqs.next
  let υ := (τ.setStack st).setEntry (lay.key (.reqThread r)) (.thread L)
  have hυ : υ.Clean := CState.Clean.setEntry (σ := τ.setStack st) hτ _ (entry_thread L)
  have hset : υ.view lay = (τ.view lay).couvRawsetp (.reqThread r) (some (.thread L)) :=
    view_setEntry _ _ _ _
  have hcode (f : Unit → StackM CReturn) :
      (couvRawsetp (lay.key (.reqThread r)) >>= f) τ = f () υ := by
    have hτst : τ = (τ.setStack st).setStack ((τ.setStack st).stack.push (.thread L)) := by
      rw [show (τ.setStack st).stack = st from rfl, ← hst]
      rfl
    rw [hτst]
    exact thread_rawsetp _ _ _
  rw [get_bind, hcode]
  cases uv with
  -- refused: the address is used up, and the entry stays
  | some code =>
    have hskip := view_setWorld υ lay
      (g := fun s => s.skipReq ⟨kind, none, L, L, .none, [], []⟩) (fun _ _ => rfl)
    rw [hset] at hskip
    exact ⟨rfl, hυ, hskip⟩
  | none =>
    have hsubmit := @view_submit lay boundary υ
      ⟨kind, none, L, L, .none, [], []⟩
    rw [hset] at hsubmit
    exact ⟨hυ, hsubmit, rfl, rfl⟩

/-- A call that yields leaves `vs` on the stack. -/
def Yields (σ : CState) (vs : List Slot) (a : CReturn) (st : LuaStack Slot) : Prop :=
  a = .yield ∧ st = σ.stack.pushAll vs

theorem sleep_agrees (hσ : σ.Clean) (allocs : ℕ → Bool) (uv : Option ℤ) :
    Agrees lay (Yields σ []) (StackM.couvSleep lay boundary L allocs uv σ)
      ((RegCall.sleep (argOf σ.stack 1) allocs uv).exec boundary L (σ.view lay)) := by
  rw [StackM.couvSleep, arg_bind]
  refine agrees_check hσ ?_ ?_
  · intro e he
    refine worldCheck_error ?_ _
    rw [sleepChecks, he]
    rfl
  intro timeout htimeout
  -- the main thread is turned away after the argument and before the allocation
  by_cases hL : L = mainThread
  · subst hL
    rw [isMainthread_main]
    have hchecks : sleepChecks mainThread (argOf σ.stack 1) allocs =
        .error (.error "sleep must be called in coroutine.") := by
      rw [sleepChecks, htimeout]
      rfl
    rw [RegCall.exec, worldCheck_error hchecks]
    exact ⟨rfl, hσ, rfl⟩
  · rw [isMainthread_other hL]
    have hchecks : sleepChecks L (argOf σ.stack 1) allocs = couvAllocCheck (allocs 0) := by
      rw [sleepChecks, htimeout]
      change (inCoroutine L _ >>= fun _ => _) = _
      rw [inCoroutine, if_neg hL]
      rfl
    rw [RegCall.exec, hchecks]
    exact submitAnchored_agrees (τ := σ.setStack (σ.stack.push (.thread L))) hσ rfl hL .sleep
      (allocs 0) uv

/-- The fields that couvL_checkaddrinfohints leaves on the stack. -/
def hintSlots (hints : Hints) (socktype protocol flags : LuaArg) : List Slot :=
  match hints with
  | .table family => [.arg family, .arg socktype, .arg protocol, .arg flags]
  | .nil | .other => []

theorem hints_run (hints : Hints) (socktype protocol flags : LuaArg) :
    (∃ e, couvLCheckaddrinfohints 3 hints = .error e ∧
      ∃ st, StackM.couvLCheckaddrinfohints hints socktype protocol flags σ =
        .error (.lua e) (σ.setStack st)) ∨
    (couvLCheckaddrinfohints 3 hints = .ok () ∧
      StackM.couvLCheckaddrinfohints hints socktype protocol flags σ =
        .ok () (σ.setStack (σ.stack.pushAll (hintSlots hints socktype protocol flags)))) := by
  cases hints with
  | nil => exact .inr ⟨rfl, rfl⟩
  | other => exact .inl ⟨_, rfl, σ.stack, rfl⟩
  | table family =>
    -- the family is read from the top of the stack, where lua_getfield has just put it
    let τ := σ.setStack (σ.stack.push (.arg family))
    have hcode : StackM.couvLCheckaddrinfohints (.table family) socktype protocol flags σ =
        (check (couvLTosockfamily (-1) (argOf τ.stack (-1))) >>= fun n =>
          check (luaLArgcheck (n ≠ -1) 3
            "value at \"family\" key must be AF_UNSPEC, AF_INET or AF_INET6") >>= fun _ =>
          push (.arg socktype) >>= fun _ => push (.arg protocol) >>= fun _ =>
          push (.arg flags)) τ := rfl
    rw [hcode, show argOf τ.stack (-1) = family from argOf_top _ _, couvLCheckaddrinfohints]
    cases hn : couvLTosockfamily (-1) family with
    | error e => exact .inl ⟨e, rfl, τ.stack, rfl⟩
    | ok n =>
      cases hc : luaLArgcheck (n ≠ -1) 3
          "value at \"family\" key must be AF_UNSPEC, AF_INET or AF_INET6" with
      | error e => exact .inl ⟨e, hc, τ.stack, by rw [check_ok, hc]; rfl⟩
      | ok u => exact .inr ⟨hc, by rw [check_ok, hc]; rfl⟩

theorem getaddrinfo_agrees (hσ : σ.Clean) (hints : Hints) (socktype protocol flags : LuaArg)
    (allocs : ℕ → Bool) (uv : Option ℤ) :
    Agrees lay (Yields σ (hintSlots hints socktype protocol flags))
      (StackM.couvGetaddrinfo lay boundary L hints socktype protocol flags allocs uv σ)
      ((RegCall.getaddrinfo (argOf σ.stack 1) (argOf σ.stack 2) hints allocs uv).exec boundary L
        (σ.view lay)) := by
  have hfail {e : LuaError} (he : getaddrinfoChecks L (argOf σ.stack 1) (argOf σ.stack 2) hints
      allocs = .error e) :
      (RegCall.getaddrinfo (argOf σ.stack 1) (argOf σ.stack 2) hints allocs uv).exec boundary L
        (σ.view lay) = .error (.lua e) (σ.view lay) := worldCheck_error he _
  rw [StackM.couvGetaddrinfo, arg_bind]
  refine agrees_check hσ ?_ ?_
  · intro e he
    refine hfail ?_
    rw [getaddrinfoChecks, he]
    rfl
  intro node hnode
  rw [arg_bind]
  refine agrees_check hσ ?_ ?_
  · intro e he
    refine hfail ?_
    rw [getaddrinfoChecks, hnode]
    change ((argOf σ.stack 2).optstring 2 >>= _) = _
    rw [he]
    rfl
  intro service hservice
  -- what is left of the checks once both names have been read
  have hrest : getaddrinfoChecks L (argOf σ.stack 1) (argOf σ.stack 2) hints allocs =
      (luaLArgcheck (node ≠ none ∨ service ≠ none) 1 "node or service must not be nil" >>= fun _ =>
        couvLCheckaddrinfohints 3 hints >>= fun _ =>
        inCoroutine L "getaddrinfo must be called in coroutine." >>= fun _ =>
        couvAllocCheck (allocs 0)) := by
    rw [getaddrinfoChecks, hnode]
    change ((argOf σ.stack 2).optstring 2 >>= _) = _
    rw [hservice]
    rfl
  refine agrees_check hσ ?_ ?_
  · intro e he
    refine hfail ?_
    rw [hrest, he]
    rfl
  intro u hname
  -- the fields of the hints stay on the stack, below the thread
  rcases hints_run (σ := σ) hints socktype protocol flags with
    ⟨e, he, st, hrun⟩ | ⟨hhints, hrun⟩
  · rw [run_bind_error hrun, hfail]
    · exact ⟨rfl, hσ, rfl⟩
    · rw [hrest, hname]
      change (couvLCheckaddrinfohints 3 hints >>= _) = _
      rw [he]
      rfl
  rw [run_bind_ok hrun]
  have hend : getaddrinfoChecks L (argOf σ.stack 1) (argOf σ.stack 2) hints allocs =
      (inCoroutine L "getaddrinfo must be called in coroutine." >>= fun _ =>
        couvAllocCheck (allocs 0)) := by
    rw [hrest, hname]
    change (couvLCheckaddrinfohints 3 hints >>= _) = _
    rw [hhints]
    rfl
  by_cases hL : L = mainThread
  · subst hL
    rw [isMainthread_main, hfail hend]
    exact ⟨rfl, hσ, rfl⟩
  · rw [isMainthread_other hL, RegCall.exec, hend, inCoroutine, if_neg hL]
    exact submitAnchored_agrees (τ := CState.setStack _ (LuaStack.push _ (.thread L))) hσ rfl hL
      .getaddrinfo (allocs 0) uv

/-- What an fs call leaves: the results of the main thread, or of a request that libuv has
rejected, or nothing while it waits. -/
def FsLeaves (σ : CState) (L : ℕ) (sync : List Value) (rejected : Option (List Value))
    (a : CReturn) (st : LuaStack Slot) : Prop :=
  let results := if L = mainThread then some sync else rejected
  (a = match results with | some vs => .values vs.length | none => .yield) ∧
    st = σ.stack.pushAll ((results.getD []).map (fun v => .arg (.value v)))

theorem fsAfterAsyncCall_agrees (hσ : σ.Clean) (t : FsType) (arg : Arg) (owners : List Item)
    (ranges : List Range) (alloc : Bool) (sync : List Value) (rejected : Option (List Value)) :
    Agrees lay (FsLeaves σ L sync rejected)
      (StackM.fsAfterAsyncCall lay boundary L ⟨.fs t, none, L, L, arg, owners, ranges⟩ alloc sync
        rejected σ)
      ((WorldM.check (if L = mainThread then .ok () else couvAllocCheck alloc) >>= fun _ =>
        modify (fun s => s.fsAfterAsyncCall t boundary L arg owners ranges rejected.isNone))
        (σ.view lay)) := by
  unfold StackM.fsAfterAsyncCall
  by_cases hL : L = mainThread
  · subst hL
    rw [isMainthread_main, if_pos rfl]
    exact ⟨hσ, rfl, rfl, rfl⟩
  · rw [isMainthread_other hL, if_neg hL]
    refine agrees_check hσ (fun e he => worldCheck_error he _) ?_
    intro u halloc
    rw [worldCheck_ok halloc]
    cases rejected with
    -- rejected: the results are pushed at once, and nothing is registered
    | some vs =>
      refine ⟨hσ, ?_, ?_⟩
      · simp only [World.fsAfterAsyncCall, Option.isNone_some, or_true, if_true]
        rfl
      · simp only [FsLeaves, if_neg hL]
        exact ⟨trivial, rfl⟩
    | none =>
      -- accepted: the thread is registered under the request's address, and the call yields
      have hset := view_setEntry σ lay (.reqThread σ.world.reqs.next) (.thread L)
      have hsubmit := @view_submit lay boundary
        (σ.setEntry (lay.key (.reqThread σ.world.reqs.next)) (.thread L))
        ⟨.fs t, none, L, L, arg, owners, ranges⟩
      rw [hset] at hsubmit
      dsimp only
      rw [get_bind, thread_rawsetp]
      refine ⟨CState.Clean.setEntry hσ _ (entry_thread L), ?_, ?_⟩
      · have hnot : ¬(L = mainThread ∨ (none : Option (List Value)).isNone = false) := by
          simpa using hL
        exact hsubmit.trans (if_neg hnot).symm
      · simp only [FsLeaves, if_neg hL]
        exact ⟨trivial, rfl⟩

/-! Callbacks. -/

theorem couvPrimRead_registry (m : InputMode) (h : ℕ) (s : World) (r : RegKey → Option RegVal) :
    World.couvPrimRead { s with registry := r } boundary L m h =
      { s.couvPrimRead boundary L m h with registry := r } := by
  unfold World.couvPrimRead
  dsimp only
  split
  · exact luaYield_registry _ s r
  · split
    · rfl
    · split
      · rfl
      · rfl

theorem couvResume_registry (src : Source) (args : List Value) (s : World)
    (r : RegKey → Option RegVal) :
    World.couvResume { s with registry := r } L src args =
      { s.couvResume L src args with registry := r } := by
  have hstatus : World.status { s with registry := r } L = s.status L := rfl
  unfold World.couvResume
  rw [hstatus]
  split
  · split
    · rfl
    · exact couvPrimRead_registry _ _ (s.start L) r
  all_goals rfl

theorem clearKey_bind {α : Type} (k : RegKey) (f : Unit → StackM α) :
    (clearKey lay k >>= f) σ = f () (σ.setEntry (lay.key k) .nil) := by
  have hrun : clearKey lay k σ = .ok () (σ.setEntry (lay.key k) .nil) := by
    have h := push_rawsetp (σ := σ) .nil (lay.key k) (fun u => pure u)
    exact h
  rw [run_bind_ok hrun]

/-- The coroutine that the callback of `r` resumes, and the values that it gets. -/
def World.resumes (s : World) (r : ℕ) (o : Outcome) : Option (ℕ × List Value) :=
  match s.reqs.get r with
  | none => none
  | some req =>
    match req.kind with
    | .write | .write2 | .shutdown | .connect | .send =>
      some (s.data (req.handle.getD 0), statusArgs o)
    | .close =>
      if s.yielded (s.data (req.handle.getD 0)) then some (s.data (req.handle.getD 0), []) else none
    | .sleep => none
    | .sleepClose => some (req.data, [])
    | .getaddrinfo => some (req.data, addrinfoArgs o)
    | .fs t => some (req.data, (ReqKind.fs t).args o)

/-- The stack `st` after the resume of a coroutine, or of none. -/
def ResumeFailure.after (fail : ResumeFailure) (s : World) (st : LuaStack Slot) :
    Option (ℕ × List Value) → LuaStack Slot
  | none => st
  | some (T, vs) =>
    if (s.status T).any Status.resumable then st
    else fail.leaves (s.status T) (st.pushAll (vs.map (fun v => .arg (.value v)))) vs.length

/-- The values that have been pushed are those that the coroutine is resumed with. -/
theorem luaResume_run {τ : CState} {st : LuaStack Slot} {vs : List Value}
    (hst : τ.stack = st.pushAll (vs.map (fun v => .arg (.value v)))) (T : ℕ) (src : Source) :
    luaResume fail T src vs.length τ =
      .ok () ((τ.setStack (fail.after τ.world st (some (T, vs)))).setWorld
        (fun s => s.couvResume T src vs)) := by
  have hslots : τ.stack.slots = (vs.map (fun v => Slot.arg (.value v))).reverse ++ st.slots := by
    rw [hst, LuaStack.pushAll_slots]
  have hlen : vs.length = (vs.map (fun v => Slot.arg (.value v))).reverse.length := by
    rw [List.length_reverse, List.length_map]
  have hvalues : ((τ.stack.slots.take vs.length).reverse.map Slot.value) = vs := by
    rw [hslots, hlen, List.take_left, List.reverse_reverse, List.map_map]
    exact List.map_id vs
  have hpop : τ.stack.pop vs.length = st := by
    rw [LuaStack.pop, hslots, hlen, List.drop_left]
  have hafter : (if (τ.world.status T).any Status.resumable then τ.stack.pop vs.length
      else fail.leaves (τ.world.status T) τ.stack vs.length) =
      fail.after τ.world st (some (T, vs)) := by
    rw [hpop, hst]
    rfl
  change EStateM.Result.ok () _ = _
  simp only [hvalues, hafter]
  rfl

/-- The code of a callback makes of the world `f`, and leaves on the stack what it had there and
what the resume of a coroutine leaves. -/
def CallsBack (lay : KeyLayout) (fail : ResumeFailure) (x : StackM Unit) (σ : CState)
    (f : World → World) (resumed : Option (ℕ × List Value)) : Prop :=
  Agrees lay (fun _ st => st = fail.after (σ.view lay) σ.stack resumed) (x σ)
    ((modify f : WorldM PUnit) (σ.view lay))

theorem resume_view (τ : CState) (src : Source) (vs : List Value) :
    (τ.setWorld (fun s => s.couvResume L src vs)).view lay = (τ.view lay).couvResume L src vs :=
  view_setWorld τ lay (couvResume_registry src vs)

/-- Code that ends by a resume with the values it has pushed. -/
theorem callsBack_resume {x : StackM Unit} {f : World → World} {τ : CState} {T : ℕ} {src : Source}
    (vs : List Value) (hrun : x σ = luaResume fail T src vs.length τ)
    (hst : τ.stack = σ.stack.pushAll (vs.map (fun v => .arg (.value v)))) (hτ : τ.Clean)
    (hstatus : τ.world.status T = σ.world.status T)
    (hview : (τ.view lay).couvResume T src vs = f (σ.view lay)) :
    CallsBack lay fail x σ f (some (T, vs)) := by
  have hafter : fail.after τ.world σ.stack (some (T, vs)) =
      fail.after (σ.view lay) σ.stack (some (T, vs)) := by
    have hview : (σ.view lay).status T = σ.world.status T := rfl
    simp only [ResumeFailure.after, hstatus, hview]
  rw [CallsBack, hrun, luaResume_run hst, hafter]
  exact ⟨hτ, (resume_view _ _ _).trans hview, rfl⟩

theorem CallsBack.congr {x y : StackM Unit} {f g : World → World}
    {resumed resumed' : Option (ℕ × List Value)} (h : CallsBack lay fail x σ f resumed)
    (hx : y σ = x σ) (hf : g (σ.view lay) = f (σ.view lay)) (hr : resumed' = resumed) :
    CallsBack lay fail y σ g resumed' := by
  have hmodify : (modify g : WorldM PUnit) (σ.view lay) = (modify f : WorldM PUnit) (σ.view lay) :=
    congrArg (EStateM.Result.ok PUnit.unit) hf
  rw [CallsBack, hx, hmodify, hr]
  exact h

theorem statusCb_agrees (hσ : σ.Clean) (r h : ℕ) (o : Outcome) :
    CallsBack lay fail (StackM.statusCb fail r h o) σ (fun s => s.resumeData r h o)
      (some (σ.world.data h, statusArgs o)) :=
  callsBack_resume (statusArgs o) rfl rfl hσ rfl rfl

theorem getaddrinfoCb_agrees (hσ : σ.Clean) (r T : ℕ) (o : Outcome) :
    CallsBack lay fail (StackM.getaddrinfoCb fail r T o) σ (fun s => s.getaddrinfoCb r T o)
      (some (T, addrinfoArgs o)) :=
  callsBack_resume (addrinfoArgs o) rfl rfl hσ rfl rfl

theorem view_clear (k : RegKey) :
    (σ.setEntry (lay.key k) .nil).view lay = (σ.view lay).couvRawsetp k none :=
  view_setEntry σ lay k .nil

theorem clean_clear (hσ : σ.Clean) (p : ℕ) : (σ.setEntry p .nil).Clean :=
  CState.Clean.setEntry hσ p (.inl rfl)

theorem sleepCloseCb_agrees (hσ : σ.Clean) (r T : ℕ) :
    CallsBack lay fail (StackM.sleepCloseCb lay fail r T) σ (fun s => s.sleepCloseCb r T)
      (some (T, [])) := by
  have hrun : StackM.sleepCloseCb lay fail r T σ =
      luaResume fail T (.completion r) ([] : List Value).length
        ((σ.setEntry (lay.key (.reqThread r)) .nil).setWorld
          (fun s => { s with reqs := s.reqs.free r })) := by
    rw [StackM.sleepCloseCb, clearKey_bind]
    rfl
  refine callsBack_resume _ hrun rfl (clean_clear hσ _) rfl ?_
  rw [view_setWorld _ _ (fun _ _ => rfl), view_clear]
  rfl

theorem fsCallback_agrees (hσ : σ.Clean) (t : FsType) (r T : ℕ) (o : Outcome) :
    CallsBack lay fail (StackM.fsCallback lay fail t r T o) σ (fun s => s.fsCallback t r T o)
      (some (T, (ReqKind.fs t).args o)) := by
  let τ := (σ.setEntry (lay.key (.reqThread r)) .nil).setStack
    (σ.stack.pushAll (((ReqKind.fs t).args o).map (fun v => .arg (.value v))))
  have hrun : StackM.fsCallback lay fail t r T o σ = luaResume fail T (.completion r)
      ((ReqKind.fs t).args o).length (τ.setWorld (fun s => { s with reqs := s.reqs.free r })) := by
    rw [StackM.fsCallback, clearKey_bind]
    rfl
  refine callsBack_resume _ hrun rfl (clean_clear hσ _) rfl ?_
  rw [view_setWorld _ _ (fun _ _ => rfl), view_setStack, view_clear]
  rfl

/-- The clean-up functions clear the keys of their class and do nothing else. -/
theorem cleanHandle_run (hσ : σ.Clean) (h : ℕ) : ∃ τ : CState, τ.Clean ∧ τ.stack = σ.stack ∧
    τ.world = σ.world ∧ τ.view lay = (σ.view lay).couvCleanHandle h ∧
    StackM.couvCleanHandle lay h (σ.world.handleType h) σ = .ok () τ := by
  have htype : (σ.view lay).handleType h = σ.world.handleType h := rfl
  have hlast (k : RegKey) (τ : CState) :
      clearKey lay k τ = .ok () (τ.setEntry (lay.key k) .nil) :=
    push_rawsetp (σ := τ) .nil (lay.key k) (fun u => pure u)
  unfold World.couvCleanHandle
  rw [htype]
  cases σ.world.handleType h with
  | none => exact ⟨σ, hσ, rfl, rfl, rfl, rfl⟩
  | some type =>
    cases type with
    | pipe => exact ⟨σ, hσ, rfl, rfl, rfl, rfl⟩
    | process | timer | udp =>
      -- one cleared entry for each key that the class has
      refine ⟨_, clean_clear (clean_clear hσ _) _, rfl, rfl, ?_,
        (clearKey_bind _ _).trans (hlast _ _)⟩
      rw [view_clear, view_clear]
      rfl
    | tcp | tty =>
      refine ⟨_, clean_clear (clean_clear (clean_clear hσ _) _) _, rfl, rfl, ?_,
        (clearKey_bind _ _).trans ((clearKey_bind _ _).trans (hlast _ _))⟩
      rw [view_clear, view_clear, view_clear]
      rfl

/-- Closing a handle leaves its data. -/
theorem closed_data (s : World) (h r : ℕ) :
    World.data { s.modifyHandle h (fun x => { x with closed := true }) with
      reqs := s.reqs.free r } h = s.data h := by
  unfold World.data
  change (((s.handles.modify h _).get h).map Handle.data).getD 0 = _
  rw [Store.modify_get, if_pos rfl]
  cases s.handles.get h <;> rfl

theorem closeCb_agrees (hσ : σ.Clean) (h r : ℕ) :
    CallsBack lay fail (StackM.closeCb lay fail h r) σ (fun s => s.closeCb h r)
      (if σ.world.yielded (σ.world.data h) then some (σ.world.data h, []) else none) := by
  let υ := σ.setWorld (fun s =>
    let s := s.modifyHandle h (fun x => { x with closed := true })
    { s with reqs := s.reqs.free r })
  obtain ⟨τ, hτ, hstack, hworld, hview, hrun⟩ := @cleanHandle_run lay υ hσ h
  have hdata : τ.world.data h = (σ.view lay).data h := by
    rw [hworld]
    exact closed_data σ.world h r
  have hυ : υ.view lay = { (σ.view lay).modifyHandle h (fun x => { x with closed := true }) with
      reqs := (σ.view lay).reqs.free r } := rfl
  rw [hυ] at hview
  have hcode : StackM.closeCb lay fail h r σ =
      (if τ.world.yielded (τ.world.data h) then
        luaResume fail (τ.world.data h) (.completion r) ([] : List Value).length
      else pure ()) τ := by
    have hbind := run_bind_ok (f := fun _ => do
      let s := (← (get : StackM CState)).world
      if s.yielded (s.data h) then luaResume fail (s.data h) (.completion r) 0 else pure ()) hrun
    exact hbind
  have hyielded : τ.world.yielded = (τ.view lay).yielded := rfl
  -- the clean-up leaves the coroutines as they are
  have hsame : (τ.view lay).yielded = σ.world.yielded := by
    rw [← hyielded, hworld]
    rfl
  rw [hyielded, hdata, hview] at hcode
  rw [hview] at hsame
  cases hy : σ.world.yielded (σ.world.data h) with
  | true =>
    have hy' := (congrFun hsame ((σ.view lay).data h)).trans hy
    rw [hy', if_pos rfl] at hcode
    refine callsBack_resume _ hcode hstack hτ ?_ ?_
    · rw [hworld]
      rfl
    · rw [hview]
      exact (if_pos hy').symm
  | false =>
    have hy' := (congrFun hsame ((σ.view lay).data h)).trans hy
    rw [hy', if_neg Bool.false_ne_true] at hcode
    rw [CallsBack, hcode]
    refine ⟨hτ, ?_, hstack⟩
    rw [hview]
    exact (if_neg (Bool.eq_false_iff.mp hy')).symm

/-- The callback of any request. -/
theorem complete_agrees (hσ : σ.Clean) (r : ℕ) (o : Outcome) :
    CallsBack lay fail (StackM.complete lay fail r o) σ (fun s => s.complete r o)
      ((σ.view lay).resumes r o) := by
  have hreqs : (σ.view lay).reqs.get r = σ.world.reqs.get r := rfl
  cases hreq : σ.world.reqs.get r with
  | none =>
    -- a request that is gone has no callback
    have hnone : CallsBack lay fail (pure ()) σ id none := ⟨hσ, rfl, rfl⟩
    refine hnone.congr ?_ ?_ ?_
    · rw [StackM.complete, get_bind, hreq]
    · simp only [World.complete, hreqs, hreq, id]
    · simp only [World.resumes, hreqs, hreq]
  | some req =>
    cases hk : req.kind with
    | write | write2 | shutdown | connect | send =>
      refine (statusCb_agrees hσ r (req.handle.getD 0) o).congr ?_ ?_ ?_
      · rw [StackM.complete, get_bind, hreq]
        simp only [hk]
      · simp only [World.complete, hreqs, hreq, hk]
        rfl
      · simp only [World.resumes, hreqs, hreq, hk]
        rfl
    | close =>
      refine (closeCb_agrees hσ (req.handle.getD 0) r).congr ?_ ?_ ?_
      · rw [StackM.complete, get_bind, hreq]
        simp only [hk]
      · simp only [World.complete, hreqs, hreq, hk]
      · simp only [World.resumes, hreqs, hreq, hk]
        rfl
    | sleep =>
      -- the timer is closed, and the coroutine waits for sleep_close_cb
      have hsleep : CallsBack lay fail (StackM.world (fun s => s.sleepCb r)) σ
          (fun s => s.sleepCb r) none :=
        ⟨hσ, rfl, rfl⟩
      refine hsleep.congr ?_ ?_ ?_
      · rw [StackM.complete, get_bind, hreq]
        simp only [hk]
      · simp only [World.complete, hreqs, hreq, hk]
      · simp only [World.resumes, hreqs, hreq, hk]
    | sleepClose =>
      refine (sleepCloseCb_agrees hσ r req.data).congr ?_ ?_ ?_
      · rw [StackM.complete, get_bind, hreq]
        simp only [hk]
      · simp only [World.complete, hreqs, hreq, hk]
      · simp only [World.resumes, hreqs, hreq, hk]
    | getaddrinfo =>
      refine (getaddrinfoCb_agrees hσ r req.data o).congr ?_ ?_ ?_
      · rw [StackM.complete, get_bind, hreq]
        simp only [hk]
      · simp only [World.complete, hreqs, hreq, hk]
      · simp only [World.resumes, hreqs, hreq, hk]
    | fs t =>
      refine (fsCallback_agrees hσ t r req.data o).congr ?_ ?_ ?_
      · rw [StackM.complete, get_bind, hreq]
        simp only [hk]
      · simp only [World.complete, hreqs, hreq, hk]
      · simp only [World.resumes, hreqs, hreq, hk]

/-! lua_call from a callback. -/

theorem rawgetp_bind {α : Type} (p : ℕ) (f : Unit → StackM α) :
    (couvRawgetp p >>= f) σ = f () (σ.setStack (σ.stack.push (σ.registry p))) := by
  have hrun : couvRawgetp p σ = .ok () (σ.setStack (σ.stack.push (σ.registry p))) := by
    change EStateM.Result.ok () _ = _
    simp only [LuaStack.get_top, LuaStack.pop_push, LuaStack.pop_zero]
    rfl
  rw [run_bind_ok hrun]

/-- lua_call gets the function, and the arguments in the order in which they were pushed. -/
theorem luaCall_run {τ : CState} {st : LuaStack Slot} {f : Slot} {args : List Slot}
    (hst : τ.stack = (st.push f).pushAll args) :
    luaCall args.length τ = .ok (f, args) (τ.setStack st) := by
  have hslots : τ.stack.slots = args.reverse ++ f :: st.slots := by
    rw [hst, LuaStack.pushAll_slots]
    rfl
  have hlen : args.length = args.reverse.length := (List.length_reverse).symm
  have htake : (τ.stack.slots.take args.length).reverse = args := by
    rw [hslots, hlen, List.take_left, List.reverse_reverse]
  have hpop : τ.stack.pop (args.length+1) = st := by
    rw [LuaStack.pop, hslots, hlen, List.drop_append, List.drop_of_length_le (by omega)]
    simp
  -- the function lies below its arguments
  have hget : (τ.stack.get (-(args.length+1))).getD .nil = f := by
    have hv : τ.stack.Valid (-(args.length+1)) := by
      refine .inr ⟨by omega, ?_⟩
      rw [LuaStack.gettop, hslots, List.length_append, List.length_cons, ← hlen]
      omega
    have hd : τ.stack.depth (-(args.length+1)) = args.length := by
      rw [LuaStack.depth, if_pos (by omega)]
      omega
    rw [LuaStack.get, if_pos hv, hd, hslots, List.getElem?_append_right hlen.ge, ← hlen,
      Nat.sub_self]
    rfl
  change EStateM.Result.ok _ _ = _
  rw [htake, hget, hpop]
  rfl

/-- A callback calls what the registry has for the handle `h`, with the handle itself and `args`,
and leaves the stack as it was. -/
def CallsLua (lay : KeyLayout) (x : StackM (Slot × List Slot)) (σ : CState) (h : ℕ)
    (args : List Value) (f : World → World) : Prop :=
  Agrees lay (fun a st => a.1.regVal = (σ.view lay).registry (.callback h) ∧
      (∃ self : Slot, self.regVal = (σ.view lay).registry (couvUserdataRegKey h) ∧
        a.2 = self :: args.map (fun v => .arg (.value v))) ∧ st = σ.stack)
    (x σ) ((modify f : WorldM PUnit) (σ.view lay))

/-- Code that fetches both entries, pushes `args` and calls. -/
theorem callsLua_fetch (hσ : σ.Clean) {x : StackM (Slot × List Slot)} {h : ℕ} {args : List Value}
    {f : World → World} {g : World → World} (hg : ∀ w r, g { w with registry := r } =
      { g w with registry := r }) (hf : g (σ.view lay) = f (σ.view lay))
    (hrun : x σ = luaCall (args.length+1) ((σ.setWorld g).setStack
      ((σ.stack.push (σ.registry (lay.key (.callback h)))).pushAll
        (σ.registry (lay.key (couvUserdataRegKey h)) ::
          args.map (fun v => .arg (.value v)))))) :
    CallsLua lay x σ h args f := by
  have hlen : args.length+1 = (σ.registry (lay.key (couvUserdataRegKey h)) ::
      args.map (fun v => Slot.arg (.value v))).length := by
    rw [List.length_cons, List.length_map]
  rw [CallsLua, hrun, hlen, luaCall_run rfl]
  exact ⟨hσ, (view_setWorld σ lay hg).trans hf, rfl, ⟨_, rfl, rfl⟩, rfl⟩

/-- The error name that timer_cb and connection_cb pass on. -/
def statusName (err : Option ℤ) : List Value :=
  match err with
  | none => []
  | some code => [.errname code]

theorem callCb_run (h : ℕ) (err : Option ℤ) : StackM.callCb lay h err σ =
    luaCall ((statusName err).length+1) (σ.setStack
      ((σ.stack.push (σ.registry (lay.key (.callback h)))).pushAll
        (σ.registry (lay.key (couvUserdataRegKey h)) ::
          (statusName err).map (fun v => .arg (.value v))))) := by
  unfold StackM.callCb
  rw [rawgetp_bind, rawgetp_bind]
  cases err <;> rfl

theorem timerCb_agrees (hσ : σ.Clean) (h : ℕ) (err : Option ℤ) :
    CallsLua lay (StackM.timerCb lay h err) σ h (statusName err) (fun s => s.timerCb h) := by
  refine callsLua_fetch hσ (g := fun s => s.timerCb h) (fun _ _ => rfl) rfl ?_
  rw [StackM.timerCb, world_bind, callCb_run]
  rfl

theorem connectionCb_agrees (hσ : σ.Clean) (h : ℕ) (err : Option ℤ) :
    CallsLua lay (StackM.connectionCb lay h err) σ h (statusName err)
      (fun s => s.connectionCb h) := by
  refine callsLua_fetch hσ (g := fun s => s.connectionCb h) (fun _ _ => rfl) rfl ?_
  rw [StackM.connectionCb, world_bind, callCb_run]
  rfl

theorem exitCb_agrees (hσ : σ.Clean) (h : ℕ) (exitStatus termSignal : ℤ) :
    CallsLua lay (StackM.exitCb lay h exitStatus termSignal) σ h
      [.number exitStatus, .number termSignal] (fun s => s.exitCb h) := by
  refine callsLua_fetch hσ (g := fun s => s.exitCb h) (fun _ _ => rfl) rfl ?_
  rw [StackM.exitCb, world_bind, rawgetp_bind, rawgetp_bind]
  rfl

end Couv
