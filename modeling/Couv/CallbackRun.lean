import Couv.Cleanup

/-! The Lua functions that timers, child processes and listening streams call back. -/
namespace Couv

/-- The handle and the function of a call that sets a callback, whether or not the call goes on
to succeed. -/
def World.setsCallback (s : World) : Action → Option (ℕ × ℕ)
  | .handle (.listen h f _) | .handle (.timerStart h f _ _) => some (h, f)
  | .handle (.spawn f .uvError) | .handle (.spawn f .ok) => some (s.handles.next, f)
  | _ => none

/-- The function set last for each handle. -/
def noteCallback (s : World) (last : ℕ → Option ℕ) (a : Action) : ℕ → Option ℕ :=
  match s.setsCallback a with
  | some (h, f) => Function.update last h (some f)
  | none => last

/-- The handle whose function an event calls. -/
def Event.callback : Event → Option ℕ
  | .timerCb h | .exitCb h | .connectionCb h => some h
  | _ => none

/-- A timer may be armed again once it has been started. -/
structure Handle.Kept (x y : Handle) : Prop where
  type : y.type = x.type
  closed : y.closed = false → x.closed = false
  started : y.started = x.started
  armed : y.armed = true → x.armed = true ∨ x.started = true

theorem Handle.Kept.refl (x : Handle) : x.Kept x := ⟨rfl, id, rfl, .inl⟩

namespace World

/-- The handles that can call back could do so before. -/
def CallsKept (s : World) (hs : Store Handle) : Prop :=
  ∀ h y, hs.get h = some y → y.armed = true ∨ y.started = true →
    ∃ x, s.handles.get h = some x ∧ x.Kept y

section
variable {s : World} {a : Action}

theorem callsKept_of_eq {hs : Store Handle} (he : hs = s.handles) : s.CallsKept hs :=
  fun _ y hy _ => ⟨y, he ▸ hy, .refl y⟩

theorem callsKept_modify (k : ℕ) {f : Handle → Handle}
    (hf : ∀ x, s.handles.get k = some x → x.Kept (f x)) : s.CallsKept (s.handles.modify k f) := by
  intro h y hy _
  rcases s.handles.modify_eq_some.mp hy with ⟨rfl, x, hx, rfl⟩ | ⟨-, hy⟩
  · exact ⟨x, hx, hf x hx⟩
  · exact ⟨y, hy, .refl y⟩

theorem callsKept_alloc {x : Handle} (ha : x.armed = false) (hs : x.started = false) :
    s.CallsKept (s.handles.alloc x) := by
  intro h y hy hcall
  rcases s.handles.alloc_eq_some.mp hy with ⟨-, rfl⟩ | ⟨-, hy⟩
  · rw [ha, hs] at hcall
    cases hcall with
    | inl h => cases h
    | inr h => cases h
  · exact ⟨y, hy, .refl y⟩

/-- A new handle, linked or not. -/
private theorem callsKept_new (type : HandleType) (L : ℕ) :
    s.CallsKept (s.newHandle type L).handles ∧
      s.CallsKept ((s.newHandle type L).link s.handles.next L).handles := by
  refine ⟨callsKept_alloc rfl rfl, ?_⟩
  let x : Handle :=
    { type, data := L, creator := L, linked := true, closing := false, closed := false,
      reading := none, armed := false, rep := false, started := false, collected := false }
  have hlink : ((s.newHandle type L).link s.handles.next L).handles = s.handles.alloc x :=
    Store.alloc_modify _ _ _
  rw [hlink]
  exact callsKept_alloc rfl rfl

private theorem callsKept_handle {L : ℕ} {m : HandleAct}
    (hno : s.setsCallback (.handle m) = none) : s.CallsKept (s.execHandle L m).handles := by
  have hstream {type : HandleType} (ok : Bool) (v : Option RegVal) : s.CallsKept
      (((s.newHandle type L).couvRawsetp (couvThreadRegKey s.handles.next) v).initStream
        s.handles.next L ok).handles := by
    cases ok with
    | false => exact (callsKept_new type L).1
    | true => exact (callsKept_new type L).2
  have hnew (type : HandleType) (ok : Bool) :
      s.CallsKept (s.newInCoroutine type L ok).handles := by
    simp only [newInCoroutine]
    split
    · exact (callsKept_new type L).1
    · exact hstream ok _
  cases m with
  | tcpNew ok => exact hnew .tcp ok
  | udpNew ok => exact hnew .udp ok
  | pipeNew ok => exact hnew .pipe ok
  | ttyNew ok =>
    simp only [execHandle, ttyNew]
    split
    · cases ok with
      | false => exact (callsKept_new .tty L).1
      | true => exact (callsKept_new .tty L).2
    · exact hstream ok _
  | timerNew ok =>
    cases ok with
    | false => exact (callsKept_new .timer L).1
    | true => exact (callsKept_new .timer L).2
  | spawn f r =>
    cases r with
    | argError => exact (callsKept_new .process L).1
    | uvError | ok => cases hno
  | listen | timerStart => cases hno
  | tcpOpen h ok =>
    cases ok with
    | false => exact callsKept_of_eq rfl
    | true => exact callsKept_modify h fun x _ => ⟨rfl, id, rfl, .inl⟩
  | timerStop h => exact callsKept_modify h fun x _ => ⟨rfl, id, rfl, fun h => Bool.noConfusion h⟩
  | timerAgain h =>
    refine callsKept_modify h fun x _ => ⟨rfl, id, rfl, fun harm => ?_⟩
    rcases Bool.or_eq_true_iff.mp harm with harm | harm
    · exact .inl harm
    · exact .inr (Bool.and_eq_true_iff.mp harm).1
  | timerSetRepeat h rep => exact callsKept_modify h fun x _ => ⟨rfl, id, rfl, .inl⟩
  | readStart m h ok =>
    cases ok with
    | false => exact callsKept_of_eq rfl
    | true => exact callsKept_modify h fun x _ => ⟨rfl, id, rfl, .inl⟩
  | readStop h => exact callsKept_modify h fun x _ => ⟨rfl, id, rfl, .inl⟩

private theorem callsKept_call {boundary : Bool} {L : ℕ} {c : Call} (hg : s.guardCall c) :
    s.CallsKept (s.execCall boundary L c).handles := by
  rcases (execCall_spec boundary L hg).cases with
    ⟨m, k, -, he⟩ | ⟨k, -, he⟩ | he | ⟨req, he⟩ | ⟨t, req, ha, he⟩
  · exact callsKept_of_eq (by rw [he, passive_handles.couvPrimRead])
  · rw [he, couvClose_handles]
    exact callsKept_modify k fun x _ => ⟨rfl, id, rfl, fun h => Bool.noConfusion h⟩
  · exact callsKept_of_eq (by rw [he])
  · refine callsKept_of_eq ?_
    rw [he]
    rfl
  · refine callsKept_of_eq ?_
    rw [he, passive_handles.submit _ (fun _ _ => rfl)]
    rcases ha.state with ⟨rfl, -⟩ | ⟨rfl, -⟩ <;> rfl

private theorem callsKept_complete {r : ℕ} {q : Req} (hq : s.reqs.get r = some q) (o : Outcome) :
    s.CallsKept (s.complete r o).handles := by
  rcases complete_cases hq o with ⟨-, he⟩ | ⟨-, he⟩ | ⟨-, -, t, ht, he⟩
  · rw [he]
    exact callsKept_of_eq rfl
  · have hclean (reg : RegKey → Option RegVal) :
        s.CallsKept (s.cleaned (q.handle.getD 0) r reg).handles :=
      callsKept_modify _ fun x _ => ⟨rfl, fun h => Bool.noConfusion h, rfl, .inl⟩
    rw [he]
    obtain ⟨reg, -, ⟨-, he⟩ | ⟨-, he⟩⟩ := closeCb_cases (s := s) (q.handle.getD 0) r
    · rw [he]
      exact hclean reg
    · rw [he, passive_handles.couvResume]
      exact hclean reg
  · refine callsKept_of_eq ?_
    rw [he, passive_handles.couvResume]
    rcases ht with rfl | rfl <;> rfl

/-- Only a call that sets a callback makes a handle able to call. -/
theorem exec_callsKept (hg : s.guard a) (hno : s.setsCallback a = none) :
    s.CallsKept (s.exec a).handles := by
  cases a with
  | lua a => exact callsKept_of_eq (passive_handles.execLua s _ a)
  | handle m => exact callsKept_handle hno
  | call boundary c => exact callsKept_call hg.2
  | heap a =>
    exact callsKept_of_eq (execHeap_proj (f := World.handles) (fun _ _ => rfl)
      (fun _ _ => rfl) (fun _ _ => rfl) s a)
  | gc g =>
    cases g with
    | thread | string => exact callsKept_of_eq rfl
    | handle k => exact callsKept_modify k fun x _ => ⟨rfl, id, rfl, .inl⟩
    | buffer b =>
      exact callsKept_of_eq (collectBuffer_proj (f := World.handles) (fun _ _ => rfl) s b)
  | event e =>
    cases hn : e.node with
    | some node =>
      obtain ⟨rd, he, -⟩ := inputEvent hg.2 hn
      refine callsKept_of_eq ?_
      simp only [exec, he]
      exact passive_handles.inputCb s (fun _ _ => rfl) (fun _ _ => rfl) node rd
    | none =>
      cases e with
      | readCb | read2Cb | udpRecvCb => cases hn
      | alloc k n env =>
        exact callsKept_of_eq (couvBufAllocCb_proj (f := World.handles) (fun _ _ => rfl)
          (fun _ _ => rfl) s k n env)
      -- libuv runs timer_cb of an active timer only
      | timerCb k =>
        refine callsKept_modify k fun x hx => ⟨rfl, id, rfl, fun _ => .inl ?_⟩
        obtain ⟨y, hy, harm, -⟩ := hg.2
        obtain rfl := Option.some.inj (hx.symm.trans hy)
        exact harm
      | exitCb k => exact callsKept_modify k fun x _ => ⟨rfl, id, rfl, fun h => Bool.noConfusion h⟩
      | connectionCb k => exact callsKept_of_eq rfl
      | complete r o =>
        obtain ⟨q, hq, -⟩ := hg.2
        exact callsKept_complete hq o

/-- A handle that a step leaves open was open. -/
theorem open_before (hg : s.guard a) {h : ℕ} {x y : Handle} (hx : s.handles.get h = some x)
    (hy : (s.exec a).handles.get h = some y) (hc : y.closed = false) : x.closed = false := by
  rcases (exec_handles hg).cases with he | ⟨m, L, x', -, -, -, he, -⟩ | ⟨k, x', f, hk, he, hf⟩
  · rw [he] at hy
    obtain rfl := Option.some.inj (hx.symm.trans hy)
    exact hc
  · rw [he, s.handles.alloc_get_of_some hx] at hy
    obtain rfl := Option.some.inj hy
    exact hc
  · rw [he] at hy
    rcases s.handles.modify_eq_some.mp hy with ⟨rfl, z, hz, rfl⟩ | ⟨-, hy⟩
    · obtain rfl := Option.some.inj (hk.symm.trans hz)
      obtain rfl := Option.some.inj (hk.symm.trans hx)
      exact hf.closed hc
    · obtain rfl := Option.some.inj (hx.symm.trans hy)
      exact hc

/-- Only a new child process is active at once. -/
theorem new_armed (hg : s.guard a) {y : Handle}
    (hy : (s.exec a).handles.get s.handles.next = some y) (harm : y.armed = true) :
    y.type = .process := by
  rcases (exec_handles hg).cases with he | ⟨m, L, x, -, -, hx, he, -⟩ | ⟨k, x, f, hk, he, -⟩
  · rw [he] at hy
    exact absurd (s.handles.lt_next hy) (lt_irrefl _)
  · rw [he, s.handles.alloc_get_self] at hy
    obtain rfl := Option.some.inj hy
    exact (hx.armed harm).2
  · rw [he] at hy
    rcases s.handles.modify_eq_some.mp hy with ⟨hh, -⟩ | ⟨-, hy⟩
    · exact absurd (s.handles.lt_next hk) (by omega)
    · exact absurd (s.handles.lt_next hy) (lt_irrefl _)

/-- What a call that sets the callback of `h` to `f` leaves, successful or not. -/
structure SetsCallback (s t : World) (h f : ℕ) : Prop where
  callback : ∀ k, t.registry (.callback k) =
    if k = h then some (.func f) else s.registry (.callback k)
  others : ∀ k, k ≠ h → t.handles.get k = s.handles.get k
  timer : ∀ y, t.handles.get h = some y → y.type = .timer → y.armed = true →
    y.started = true ∨ s.handles.get h = some y

theorem exec_setsCallback (hg : s.guard a) {h f : ℕ} (hset : s.setsCallback a = some (h, f)) :
    s.SetsCallback (s.exec a) h f := by
  cases a with
  | lua | call | heap | event | gc => cases hset
  | handle m =>
    cases m with
    | tcpNew | udpNew | pipeNew | ttyNew | timerNew | tcpOpen | timerStop | timerAgain
    | timerSetRepeat | readStart | readStop => cases hset
    -- couv_listen and timer_start set the callback first, whatever libuv answers
    | listen k g ok =>
      cases hset
      obtain ⟨x, hx, -, -, htype, -⟩ := hg.2
      cases ok with
      | false => exact ⟨fun j => by simp [exec, execHandle, couvListen, couvListenCbRegKey],
          fun _ _ => rfl, fun y hy _ _ => .inr hy⟩
      | true =>
        refine ⟨fun j => by simp [exec, execHandle, couvListen, couvListenCbRegKey,
          couvUserdataRegKey], fun j hj => s.handles.modify_get_ne _ hj, ?_⟩
        intro y hy htimer _
        obtain ⟨-, x', hx', rfl⟩ := (s.handles.modify_eq_some.mp hy).resolve_right (·.1 rfl)
        obtain rfl := Option.some.inj (Option.mem_def.mp hx |>.symm.trans hx')
        have htimer' : x.type = .timer := htimer
        rw [htimer'] at htype
        exact absurd htype (by decide)
    | timerStart k g rep r =>
      cases hset
      cases r with
      | argError | uvError =>
        exact ⟨fun j => by simp [exec, execHandle, World.timerStart, couvTimerCbRegKey],
          fun _ _ => rfl, fun y hy _ _ => .inr hy⟩
      | ok =>
        refine ⟨fun j => by simp [exec, execHandle, World.timerStart, couvTimerCbRegKey,
          couvUserdataRegKey], fun j hj => s.handles.modify_get_ne _ hj, ?_⟩
        intro y hy _ _
        obtain ⟨-, x', -, rfl⟩ := (s.handles.modify_eq_some.mp hy).resolve_right (·.1 rfl)
        exact .inl rfl
    | spawn g r =>
      cases r with
      | argError => cases hset
      | uvError =>
        cases hset
        refine ⟨fun j => by simp [exec, execHandle, couvProcessSpawn, couvExitCbRegKey],
          fun j hj => (s.handles.alloc_get _ _).trans (if_neg hj), ?_⟩
        intro y hy htimer harm
        rw [new_armed hg hy harm] at htimer
        cases htimer
      | ok =>
        cases hset
        have hget (j : ℕ) (hj : j ≠ s.handles.next) :
            (s.exec (.handle (.spawn f .ok))).handles.get j = s.handles.get j :=
          (Store.modify_get_ne _ _ hj).trans ((Store.modify_get_ne _ _ hj).trans
            ((s.handles.alloc_get _ _).trans (if_neg hj)))
        refine ⟨fun j => by simp [exec, execHandle, couvProcessSpawn, couvExitCbRegKey,
          couvUserdataRegKey, link], hget, ?_⟩
        intro y hy htimer harm
        rw [new_armed hg hy harm] at htimer
        cases htimer

/-- A call that sets no callback leaves the entry of a handle that it does not close. -/
theorem exec_callback (hs : RegistryOk s) (hg : s.guard a) (hno : s.setsCallback a = none) {h : ℕ}
    (hopen : ∀ y, (s.exec a).handles.get h = some y → y.closed = false) :
    (s.exec a).registry (.callback h) = s.registry (.callback h) := by
  by_cases hspawn : ∃ f, a = .handle (.spawn f .argError)
  · obtain ⟨f, rfl⟩ := hspawn
    rfl
  have hwrite := exec_registry hg (.callback h)
  generalize (s.exec a).registry (.callback h) = v at hwrite ⊢
  cases hwrite with
  | same => rfl
  | method v ha hk =>
    subst ha
    rename_i m
    cases m with
    | tcpNew | udpNew | pipeNew | ttyNew =>
      simp [HandleAct.keys, couvThreadRegKey, couvUserdataRegKey] at hk
    | timerNew | tcpOpen | timerStop | timerAgain | timerSetRepeat | readStart | readStop =>
      cases hk
    | listen | timerStart => cases hno
    | spawn f r =>
      cases r with
      | argError => exact absurd ⟨f, rfl⟩ hspawn
      | uvError | ok => cases hno
  | submit v ha hk => cases hk
  | @close r o q ha hq hkind hk =>
    -- the close callback clears the entry of the handle that it closes
    obtain rfl := Option.some.inj hk
    have hsome : q.handle = some (q.handle.getD 0) := by
      have hshape := hs.life.shape r q hq
      rw [hkind] at hshape
      obtain ⟨k, hk⟩ := Option.isSome_iff_exists.mp hshape.symm
      rw [hk]
      rfl
    obtain ⟨x, hx, -⟩ := hs.life.pending r q _ hq hsome
    obtain ⟨y, hy, hc⟩ := closes_closed (closes_eq_some.mpr ⟨r, o, q, ha, hq, hkind, hsome⟩) hx
    rw [hopen y hy] at hc
    cases hc
  | completed ha hk => cases hk

end
end World

/-- The registry has the function that was set last for each handle that is not closed, and the
handles that can call back have had one set. -/
structure CallbacksOk (s : World) (last : ℕ → Option ℕ) : Prop where
  registry : RegistryOk s
  entry : ∀ h, (∀ x, s.handles.get h = some x → x.closed = false) →
    s.registry (.callback h) = (last h).map .func
  set : ∀ h x, s.handles.get h = some x → x.armed = true ∨ x.started = true →
    x.closed = false → (last h).isSome = true
  timer : ∀ h x, s.handles.get h = some x → x.type = .timer → x.armed = true →
    x.started = true

theorem callbacksOk_init : CallbacksOk .init (fun _ => none) :=
  ⟨registryOk_init, fun _ _ => rfl, fun _ _ h => (nomatch h), fun _ _ h => nomatch h⟩

namespace CallbacksOk
variable {s : World} {last : ℕ → Option ℕ} {a : Action} (hs : CallbacksOk s last)
include hs

theorem exec_quiet (hg : s.guard a) (hno : s.setsCallback a = none) :
    CallbacksOk (s.exec a) last where
  registry := hs.registry.exec hg
  entry h hopen := by
    refine (World.exec_callback hs.registry hg hno hopen).trans (hs.entry h ?_)
    intro x hx
    obtain ⟨y, hy, -⟩ := World.exec_handle hg hx
    exact World.open_before hg hx hy (hopen y hy)
  set h y hy hcall hopen := by
    obtain ⟨x, hx, hkept⟩ := World.exec_callsKept hg hno h y hy hcall
    refine hs.set h x hx ?_ (hkept.closed hopen)
    rcases hcall with harm | hstarted
    · exact hkept.armed harm
    · exact .inr (hkept.started ▸ hstarted)
  timer h y hy htimer harm := by
    obtain ⟨x, hx, hkept⟩ := World.exec_callsKept hg hno h y hy (.inl harm)
    rw [hkept.started]
    rcases hkept.armed harm with hold | hstarted
    · exact hs.timer h x hx (hkept.type.symm.trans htimer) hold
    · exact hstarted

theorem exec_sets (hg : s.guard a) {h f : ℕ} (hset : s.setsCallback a = some (h, f)) :
    CallbacksOk (s.exec a) (Function.update last h (some f)) := by
  have hspec := World.exec_setsCallback hg hset
  refine ⟨hs.registry.exec hg, ?_, ?_, ?_⟩
  · intro k hopen
    rw [hspec.callback k]
    by_cases hk : k = h
    · subst hk
      simp only [if_true, Function.update_self, Option.map_some]
    · rw [if_neg hk, Function.update_of_ne hk]
      exact hs.entry k (fun x hx => hopen x ((hspec.others k hk).trans hx))
  · intro k y hy hcall hopen
    by_cases hk : k = h
    · subst hk
      rw [Function.update_self]
      rfl
    · rw [Function.update_of_ne hk]
      exact hs.set k y ((hspec.others k hk).symm.trans hy) hcall hopen
  · intro k y hy htimer harm
    by_cases hk : k = h
    · subst hk
      rcases hspec.timer y hy htimer harm with hstarted | hold
      · exact hstarted
      · exact hs.timer k y hold htimer harm
    · exact hs.timer k y ((hspec.others k hk).symm.trans hy) htimer harm

theorem exec (hg : s.guard a) : CallbacksOk (s.exec a) (noteCallback s last a) := by
  unfold noteCallback
  cases hset : s.setsCallback a with
  | none => exact hs.exec_quiet hg hset
  | some p => exact hs.exec_sets hg hset

/-- The handle of an event that calls a Lua function is alive and has a function set. -/
theorem called {e : Event} {h : ℕ} (hc : e.callback = some h) (hg : s.guardEvent e) :
    ∃ f, last h = some f ∧ s.registry (.callback h) = some (.func f) ∧
      s.registry (.userdata h) = some (.userdata h) ∧
      ∃ x, s.handles.get h = some x ∧ x.collected = false := by
  obtain ⟨types, x, hx, harm, -⟩ : ∃ types, s.Armed h types := by
    cases e with
    | alloc | readCb | read2Cb | udpRecvCb | complete => cases hc
    | timerCb k | exitCb k | connectionCb k =>
      cases hc
      exact ⟨_, hg⟩
  have hknown := hs.registry.life.known_of_active hx (.inl harm)
  obtain ⟨f, hf⟩ := Option.isSome_iff_exists.mp (hs.set h x hx (.inl harm) hknown.2)
  have hstarted : ¬(x.type = .timer ∧ x.started = false) := by
    rintro ⟨htimer, hidle⟩
    rw [hs.timer h x hx htimer harm] at hidle
    cases hidle
  refine ⟨f, hf, ?_, ?_, x, hx, ?_⟩
  · rw [hs.entry h, hf]
    · rfl
    · intro y hy
      obtain rfl := Option.some.inj (Option.mem_def.mp hx |>.symm.trans hy)
      exact hknown.2
  · rw [(hs.registry.keys.keys h x hx hknown).2]
    exact if_neg hstarted
  · by_contra hcol
    exact hstarted (hs.registry.keys.collected h x hx hknown (by simpa using hcol))

end CallbacksOk

/-- The function set last for each handle in the run `as`. -/
def lastCallback (as : List Action) : ℕ → Option ℕ :=
  ((couv.withHistory noteCallback).run (.init, fun _ => none) as).2

theorem run_callbacksOk {as : List Action} (he : couv.Enabled .init as) :
    CallbacksOk (couv.run .init as) (lastCallback as) := by
  let start : World × (ℕ → Option ℕ) := (.init, fun _ => none)
  let I (p : World × (ℕ → Option ℕ)) := CallbacksOk p.1 p.2
  have hrun : I ((couv.withHistory noteCallback).run start as) :=
    Machine.run_invariant (fun p a (hp : I p) hg => hp.exec hg) callbacksOk_init
      ((couv.along_withHistory noteCallback (p := start)).mpr he)
  change CallbacksOk ((couv.withHistory noteCallback).run start as).1 _ at hrun
  rw [couv.withHistory_run noteCallback start as] at hrun
  exact hrun

/-- Whenever timer_cb, exit_cb or connection_cb runs, the registry has under the callback key of
the handle the function that a call on it set last, and the handle itself under its userdata key;
the collector has not taken the handle. -/
theorem last_callback_called {as : List Action} (he : couv.Enabled .init as) {e : Event} {h : ℕ}
    (hc : e.callback = some h) (hg : (couv.run .init as).guard (.event e)) :
    ∃ f, lastCallback as h = some f ∧
      (couv.run .init as).registry (.callback h) = some (.func f) ∧
      (couv.run .init as).registry (.userdata h) = some (.userdata h) ∧
      ∃ x, (couv.run .init as).handles.get h = some x ∧ x.collected = false :=
  (run_callbacksOk he).called hc hg.2

/-- A timer that is started, then started again with a negative timeout, calls the function of
the failed call. -/
theorem last_callback_called_failedStart :
    let as : List Action := [.lua .create, .lua (.resume 1 []), .handle (.timerNew true),
      .handle (.timerStart 0 7 false .ok), .handle (.timerStart 0 8 false .argError),
      .lua (.finish false), .lua .uvRun]
    ∃ f, lastCallback as 0 = some f ∧
      (couv.run .init as).registry (.callback 0) = some (.func f) ∧
      (couv.run .init as).registry (.userdata 0) = some (.userdata 0) ∧
      ∃ x, (couv.run .init as).handles.get 0 = some x ∧ x.collected = false :=
  last_callback_called (by decide) (e := .timerCb 0) rfl (by decide)

end Couv
