import Couv.KeyWrites

/-! The registry after the callbacks that end a handle or a request. -/
namespace Couv

/-- No entry of the registry is under a key of the handle `h`. -/
def World.Unregistered (s : World) (h : ℕ) : Prop :=
  s.registry (couvUserdataRegKey h) = none ∧ s.registry (couvThreadRegKey h) = none ∧
    s.registry (couvListenCbRegKey h) = none ∧ s.registry (couvTimerCbRegKey h) = none ∧
    s.registry (couvExitCbRegKey h) = none

/-- In the run `as` the callback of the request `r` has run: of an fs call or getaddrinfo, or
that of the closed timer of a sleep. -/
def Completed (as : List Action) (r : ℕ) : Prop :=
  ∃ pre o post q, as = pre ++ .event (.complete r o) :: post ∧
    (couv.run .init pre).reqs.get r = some q ∧ q.kind.onHandle = false ∧ q.kind ≠ .sleep

/-- After the run `as` closed handles and completed requests have no entry in the registry, and
neither keeps its userdata or its coroutine from the collector. -/
structure RegistryCleaned (as : List Action) : Prop where
  handle : ∀ h x, (couv.run .init as).handles.get h = some x → x.closed = true →
    (couv.run .init as).Unregistered h
  request : ∀ r, Completed as r → (couv.run .init as).registry (.reqThread r) = none
  collectable : ∀ h x, (couv.run .init as).handles.get h = some x → x.closed = true →
    (couv.run .init as).guardGc (.handle h)
  coroutine : ∀ T, (∀ h, (couv.run .init as).registry (couvThreadRegKey h) = some (.thread T) →
      ∃ x ∈ (couv.run .init as).handles.get h, x.closed = true) →
    (∀ r, (couv.run .init as).registry (.reqThread r) = some (.thread T) → Completed as r) →
    (couv.run .init as).NotAnchored T

/-- The step is neither the close callback of a pipe nor the callback of getaddrinfo, and it
does not call listen or start on a closed handle. -/
def CleanStep (s : World) : Action → Prop
  | .event (.complete r _) => ∀ q ∈ s.reqs.get r, q.kind ≠ .getaddrinfo ∧
    (q.kind = .close → s.handleType (q.handle.getD 0) ≠ some .pipe)
  | .handle (.listen h _ _) | .handle (.timerStart h _ _ _) =>
    ∀ x ∈ s.handles.get h, x.closed = false
  | _ => True

instance (s : World) : DecidablePred (CleanStep s)
  | .event (.complete r _) => inferInstanceAs (Decidable (∀ q ∈ s.reqs.get r, _))
  | .handle (.listen h _ _) | .handle (.timerStart h _ _ _) =>
    inferInstanceAs (Decidable (∀ x ∈ s.handles.get h, _))
  | .handle (.tcpNew _) | .handle (.udpNew _) | .handle (.pipeNew _) | .handle (.ttyNew _)
  | .handle (.timerNew _) | .handle (.spawn _ _) | .handle (.tcpOpen _ _)
  | .handle (.timerStop _) | .handle (.timerAgain _) | .handle (.timerSetRepeat _ _)
  | .handle (.readStart _ _ _) | .handle (.readStop _) | .event (.alloc _ _ _)
  | .event (.readCb _ _ _ _ _) | .event (.read2Cb _ _ _ _ _) | .event (.udpRecvCb _ _ _ _ _ _)
  | .event (.timerCb _) | .event (.exitCb _) | .event (.connectionCb _) | .lua _ | .call _ _
  | .heap _ | .gc _ => isTrue trivial

namespace World
variable {s : World} {a : Action}

/-- The clean-up function of each class but pipes clears what the handle has. -/
theorem couvCleanHandle_unregistered {h : ℕ} {x : Handle} (hx : s.handles.get h = some x)
    (htype : x.type ≠ .pipe)
    (hthread : x.type.plain = true → s.registry (couvThreadRegKey h) = none)
    (hcb : x.type = .udp → s.registry (couvListenCbRegKey h) = none) :
    (s.couvCleanHandle h).Unregistered h := by
  have htype' : s.handleType h = some x.type := by
    simp only [handleType, hx, Option.map_some]
  unfold couvCleanHandle
  rw [htype']
  generalize x.type = t at htype hthread hcb
  -- the udp, timer and process functions leave a key that is not set for their type
  cases t with
  | pipe => exact absurd rfl htype
  | tcp =>
    simp [Unregistered, couvCleanTcpHandle, couvUserdataRegKey, couvThreadRegKey,
      couvListenCbRegKey, couvTimerCbRegKey, couvExitCbRegKey]
  | tty =>
    simp [Unregistered, couvCleanTtyHandle, couvUserdataRegKey, couvThreadRegKey,
      couvListenCbRegKey, couvTimerCbRegKey, couvExitCbRegKey]
  | udp =>
    simpa [Unregistered, couvCleanUdpHandle, couvUserdataRegKey, couvThreadRegKey,
      couvListenCbRegKey, couvTimerCbRegKey, couvExitCbRegKey] using hcb rfl
  | timer =>
    simpa [Unregistered, couvCleanTimerHandle, couvUserdataRegKey, couvThreadRegKey,
      couvListenCbRegKey, couvTimerCbRegKey, couvExitCbRegKey] using hthread rfl
  | process =>
    simpa [Unregistered, couvCleanProcessHandle, couvUserdataRegKey, couvThreadRegKey,
      couvListenCbRegKey, couvTimerCbRegKey, couvExitCbRegKey] using hthread rfl

theorem couvCleanHandle_pipe {h : ℕ} {x : Handle} (hx : s.handles.get h = some x)
    (htype : x.type = .pipe) : s.couvCleanHandle h = s := by
  have htype' : s.handleType h = some .pipe := by
    simp only [handleType, hx, Option.map_some, htype]
  simp only [couvCleanHandle, htype']

theorem closeCb_registry (h r : ℕ) : (s.closeCb h r).registry =
    ((s.cleaned h r s.registry).couvCleanHandle h).registry := by
  simp only [closeCb]
  split
  · exact passive_registry.couvResume _ _ _ _
  · rfl

theorem unregistered_iff {h : ℕ} :
    s.Unregistered h ↔ ∀ k : RegKey, k.handle = some h → s.registry k = none := by
  constructor
  · rintro ⟨hu, ht, hc, -, -⟩ k hk
    cases k with
    | userdata h' =>
      obtain rfl := Option.some.inj hk
      exact hu
    | thread h' =>
      obtain rfl := Option.some.inj hk
      exact ht
    | callback h' =>
      obtain rfl := Option.some.inj hk
      exact hc
    | reqThread r => cases hk
  · intro hall
    exact ⟨hall _ rfl, hall _ rfl, hall _ rfl, hall _ rfl, hall _ rfl⟩

/-- The handle whose close callback the step is. -/
def closes (s : World) : Action → Option ℕ
  | .event (.complete r _) =>
    (s.reqs.get r).bind (fun q => if q.kind = .close then q.handle else none)
  | _ => none

theorem closes_eq_some {h : ℕ} : s.closes a = some h ↔ ∃ r o q, a = .event (.complete r o) ∧
    s.reqs.get r = some q ∧ q.kind = .close ∧ q.handle = some h := by
  constructor
  · intro hcl
    unfold closes at hcl
    split at hcl
    · next r o =>
      obtain ⟨q, hq, hh⟩ := Option.bind_eq_some_iff.mp hcl
      split at hh
      · next hk => exact ⟨r, o, q, rfl, hq, hk, hh⟩
      · cases hh
    · cases hcl
  · rintro ⟨r, o, q, rfl, hq, hk, hh⟩
    simp only [closes, hq, Option.bind_some, hk, if_true, hh]

theorem closes_closed {h : ℕ} (hcl : s.closes a = some h) {x : Handle}
    (hx : s.handles.get h = some x) :
    ∃ y, (s.exec a).handles.get h = some y ∧ y.closed = true := by
  obtain ⟨r, o, q, rfl, hq, hk, hh⟩ := closes_eq_some.mp hcl
  refine ⟨{ x with closed := true }, ?_, rfl⟩
  simp only [exec, execEvent, complete, hq, hk, hh, Option.getD_some]
  obtain ⟨reg, -, ⟨-, heq⟩ | ⟨-, heq⟩⟩ := closeCb_cases (s := s) h r
  · rw [heq]
    exact Store.modify_get_self _ _ hx
  · rw [heq, passive_handles.couvResume]
    exact Store.modify_get_self _ _ hx

/-- Every handle that `hs` shows as closed was closed before. -/
def ClosesNone (s : World) (hs : Store Handle) : Prop :=
  ∀ h y, hs.get h = some y → y.closed = true → ∃ x, s.handles.get h = some x ∧ x.closed = true

theorem closesNone_of_eq {hs : Store Handle} (he : hs = s.handles) : s.ClosesNone hs :=
  fun _ y hy hc => ⟨y, he ▸ hy, hc⟩

theorem closesNone_modify (k : ℕ) {f : Handle → Handle}
    (hf : ∀ x, s.handles.get k = some x → (f x).closed = x.closed) :
    s.ClosesNone (s.handles.modify k f) := by
  intro h y hy hc
  rcases s.handles.modify_eq_some.mp hy with ⟨rfl, x, hx, rfl⟩ | ⟨-, hy⟩
  · exact ⟨x, hx, (hf x hx).symm.trans hc⟩
  · exact ⟨y, hy, hc⟩

private theorem closesNone_handle {L : ℕ} {m : HandleAct} (hg : s.guardHandle m) :
    s.ClosesNone (s.execHandle L m).handles := by
  obtain ⟨hs', reg, input, he, -, ⟨rfl, -⟩ | ⟨x, hx, rfl, -⟩ | ⟨k, x, f, hget, -, -, rfl, hf, -⟩⟩ :=
    (execHandle_spec (L := L) hg).cases
  · exact closesNone_of_eq (by rw [he])
  · rw [he]
    intro h y hy hc
    rcases s.handles.alloc_eq_some.mp hy with ⟨-, rfl⟩ | ⟨-, hy⟩
    · exact Bool.noConfusion (hx.idle.2.1.symm.trans hc)
    · exact ⟨y, hy, hc⟩
  · rw [he]
    refine closesNone_modify k ?_
    intro z hz
    obtain rfl := Option.some.inj (hget.symm.trans hz)
    exact hf.closed

private theorem closesNone_call {boundary : Bool} {L : ℕ} {c : Call} (hg : s.guardCall c) :
    s.ClosesNone (s.execCall boundary L c).handles := by
  rcases (execCall_spec boundary L hg).cases with
    ⟨m, k, -, he⟩ | ⟨k, -, he⟩ | he | ⟨req, he⟩ | ⟨t, req, ha, he⟩
  · exact closesNone_of_eq (by rw [he, passive_handles.couvPrimRead])
  · rw [he, couvClose_handles]
    exact closesNone_modify k (fun _ _ => rfl)
  · exact closesNone_of_eq (by rw [he])
  · refine closesNone_of_eq ?_
    rw [he]
    rfl
  · refine closesNone_of_eq ?_
    rw [he, passive_handles.submit _ (fun _ _ => rfl)]
    rcases ha.state with ⟨rfl, -⟩ | ⟨rfl, -⟩ <;> rfl

/-- close_cb closes the handle of its request and no other. -/
private theorem closed_complete (hs : s.LifeOk) {r : ℕ} {q : Req} (hq : s.reqs.get r = some q)
    (o : Outcome) {h : ℕ} {y : Handle} (hy : (s.complete r o).handles.get h = some y)
    (hc : y.closed = true) : (∃ x, s.handles.get h = some x ∧ x.closed = true) ∨
      s.closes (.event (.complete r o)) = some h := by
  -- sleep_cb, close_cb and the callbacks that release their request
  rcases complete_cases hq o with ⟨-, he⟩ | ⟨hk, he⟩ | ⟨-, -, t, ht, he⟩
  · left
    rw [he] at hy
    exact ⟨y, hy, hc⟩
  · have hhandle : q.handle = some (q.handle.getD 0) := by
      have hshape := hs.shape r q hq
      rw [hk] at hshape
      obtain ⟨k, hk⟩ := Option.isSome_iff_exists.mp hshape.symm
      rw [hk]
      rfl
    have hclean : (s.complete r o).handles =
        s.handles.modify (q.handle.getD 0) (fun x => { x with closed := true }) := by
      rw [he]
      obtain ⟨reg, -, ⟨-, he⟩ | ⟨-, he⟩⟩ := closeCb_cases (s := s) (q.handle.getD 0) r
      · rw [he]
        rfl
      · rw [he, passive_handles.couvResume]
        rfl
    rw [hclean] at hy
    rcases s.handles.modify_eq_some.mp hy with ⟨hh, -⟩ | ⟨-, hy⟩
    · exact .inr (closes_eq_some.mpr ⟨r, o, q, rfl, hq, hk, hh ▸ hhandle⟩)
    · exact .inl ⟨y, hy, hc⟩
  · left
    rw [he, passive_handles.couvResume] at hy
    refine ⟨y, ?_, hc⟩
    rcases ht with rfl | rfl <;> exact hy

/-- A handle is closed by its close callback only. -/
theorem exec_closed (hs : s.LifeOk) (hg : s.guard a) {h : ℕ} {y : Handle}
    (hy : (s.exec a).handles.get h = some y) (hc : y.closed = true) :
    (∃ x, s.handles.get h = some x ∧ x.closed = true) ∨ s.closes a = some h := by
  -- every case but one leaves the closed flags as they are
  have hnone (hnone : s.ClosesNone (s.exec a).handles) :
      (∃ x, s.handles.get h = some x ∧ x.closed = true) ∨ s.closes a = some h :=
    .inl (hnone h y hy hc)
  cases a with
  | lua a => exact hnone (closesNone_of_eq (passive_handles.execLua s _ a))
  | handle m => exact hnone (closesNone_handle hg.2)
  | call boundary c => exact hnone (closesNone_call hg.2)
  | heap a =>
    exact hnone (closesNone_of_eq (execHeap_proj (f := World.handles) (fun _ _ => rfl)
      (fun _ _ => rfl) (fun _ _ => rfl) s a))
  | gc g =>
    cases g with
    | thread | string => exact hnone (closesNone_of_eq rfl)
    | handle k => exact hnone (closesNone_modify k (fun _ _ => rfl))
    | buffer b =>
      exact hnone (closesNone_of_eq
        (collectBuffer_proj (f := World.handles) (fun _ _ => rfl) s b))
  | event e =>
    cases hn : e.node with
    | some node =>
      obtain ⟨rd, he, -⟩ := inputEvent hg.2 hn
      refine hnone (closesNone_of_eq ?_)
      simp only [exec, he]
      exact passive_handles.inputCb s (fun _ _ => rfl) (fun _ _ => rfl) node rd
    | none =>
      cases e with
      | readCb | read2Cb | udpRecvCb => cases hn
      | alloc k n env =>
        exact hnone (closesNone_of_eq (couvBufAllocCb_proj (f := World.handles) (fun _ _ => rfl)
          (fun _ _ => rfl) s k n env))
      | timerCb k | exitCb k => exact hnone (closesNone_modify k (fun _ _ => rfl))
      | connectionCb k => exact hnone (closesNone_of_eq rfl)
      | complete r o =>
        obtain ⟨q, hq, -⟩ := hg.2
        exact closed_complete hs hq o hy hc

/-- The close callback of a handle, unless it is a pipe, leaves no key of it. -/
theorem closes_unregistered (hs : RegistryOk s) {h : ℕ} (hcl : s.closes a = some h) {x : Handle}
    (hx : s.handles.get h = some x) (htype : x.type ≠ .pipe) : (s.exec a).Unregistered h := by
  obtain ⟨r, o, q, rfl, hq, hk, hh⟩ := closes_eq_some.mp hcl
  obtain ⟨x', hx', hknown, -⟩ := hs.life.pending r q h hq hh
  obtain rfl := Option.some.inj (hx.symm.trans hx')
  have hexec : (s.exec (.event (.complete r o))).registry = (s.closeCb h r).registry := by
    simp only [exec, execEvent, complete, hq, hk, hh, Option.getD_some]
  have hclean := couvCleanHandle_unregistered (s := s.cleaned h r s.registry)
    (s.handles.modify_get_self _ hx) htype ?_ ?_
  · rw [unregistered_iff] at hclean ⊢
    intro k hkey
    rw [hexec, closeCb_registry]
    exact hclean k hkey
  · -- a timer or a process has no thread key
    intro hplain
    have hthread := (hs.keys.keys h x hx hknown).1
    refine hthread.trans ?_
    have hplain' : x.type.plain = true := hplain
    unfold Handle.threadEntry
    cases ht : x.type <;> simp [ht, HandleType.plain] at hplain' ⊢
  · -- no method gives a udp handle a callback
    intro hudp
    by_contra hne
    obtain ⟨y, hy, hyt⟩ := hs.callback h hne
    obtain rfl := Option.some.inj (hx.symm.trans hy)
    exact hyt hudp

/-- The close callback of a pipe leaves its userdata key. -/
theorem closes_pipe (hs : RegistryOk s) {h : ℕ} (hcl : s.closes a = some h) {x : Handle}
    (hx : s.handles.get h = some x) (htype : x.type = .pipe) :
    (s.exec a).registry (couvUserdataRegKey h) = some (.userdata h) := by
  obtain ⟨r, o, q, rfl, hq, hk, hh⟩ := closes_eq_some.mp hcl
  obtain ⟨x', hx', hknown, -⟩ := hs.life.pending r q h hq hh
  obtain rfl := Option.some.inj (hx.symm.trans hx')
  have hkey := (hs.keys.keys h x hx hknown).2
  have hclean := couvCleanHandle_pipe (s := s.cleaned h r s.registry)
    (s.handles.modify_get_self _ hx) htype
  simp only [exec, execEvent, complete, hq, hk, hh, Option.getD_some]
  rw [closeCb_registry, hclean]
  refine hkey.trans (if_neg ?_)
  simp [htype]

/-- The callbacks of fs.c and of a closed sleep timer clear the key of their request. -/
theorem complete_clears {r : ℕ} {o : Outcome} {q : Req} (hq : s.reqs.get r = some q)
    (hon : q.kind.onHandle = false) (hsleep : q.kind ≠ .sleep) (haddr : q.kind ≠ .getaddrinfo) :
    (s.complete r o).registry (.reqThread r) = none := by
  have hcleared : ∀ args, (({ s.couvRawsetp (.reqThread r) none with
      reqs := (s.couvRawsetp (.reqThread r) none).reqs.free r } : World).couvResume q.data
        (.completion r) args).registry (.reqThread r) = none := by
    intro args
    rw [passive_registry.couvResume]
    exact if_pos rfl
  cases hk : q.kind with
  | sleep => exact absurd hk hsleep
  | getaddrinfo => exact absurd hk haddr
  | write | write2 | shutdown | connect | send | close =>
    rw [hk] at hon
    cases hon
  | sleepClose =>
    simp only [complete, hq, hk, sleepCloseCb]
    exact hcleared _
  | fs t =>
    simp only [complete, hq, hk, fsCallback]
    exact hcleared _

/-- The key of an earlier request is not set again. -/
theorem exec_reqThread_none (hg : s.guard a) {r : ℕ} (hr : r < s.reqs.next)
    (hnone : s.registry (.reqThread r) = none) :
    (s.exec a).registry (.reqThread r) = none := by
  have hwrite := exec_registry hg (.reqThread r)
  generalize (s.exec a).registry (.reqThread r) = v at hwrite ⊢
  cases hwrite with
  | same => exact hnone
  | method v ha hk => exact absurd hk not_reqThread_mem_keys
  | submit v ha hk => exact absurd (RegKey.reqThread.inj hk) hr.ne
  | close | completed => rfl

/-- getaddrinfo_cb leaves the registry as it is. -/
theorem complete_getaddrinfo {r : ℕ} {o : Outcome} {q : Req} (hq : s.reqs.get r = some q)
    (hk : q.kind = .getaddrinfo) : (s.complete r o).registry = s.registry := by
  simp only [complete, hq, hk, getaddrinfoCb, passive_registry.couvResume]

/-- The keys a method writes are those of the new handle or of the one it is called on. -/
theorem mem_keys_handle {m : HandleAct} {k : RegKey} (hk : k ∈ m.keys s) :
    k.handle = some s.handles.next ∨ ∃ h, k.handle = some h ∧
      (CleanStep s (.handle m) → ∀ x ∈ s.handles.get h, x.closed = false) := by
  have hpair : ∀ {k₁ k₂ : RegKey} {h : ℕ}, k ∈ [k₁, k₂] → k₁.handle = some h →
      k₂.handle = some h → k.handle = some h := by
    intro k₁ k₂ h hmem h₁ h₂
    rcases List.mem_pair.mp hmem with rfl | rfl
    · exact h₁
    · exact h₂
  cases m with
  | tcpNew | udpNew | pipeNew | ttyNew | spawn => exact .inl (hpair hk rfl rfl)
  | listen h | timerStart h => exact .inr ⟨h, hpair hk rfl rfl, id⟩
  | timerNew | tcpOpen | timerStop | timerAgain | timerSetRepeat | readStart | readStop => cases hk

/-- A clean step leaves no key of a closed handle. -/
theorem unregistered_exec (hs : RegistryOk s) (hg : s.guard a) (hstep : CleanStep s a)
    (hc : ∀ h x, s.handles.get h = some x → x.closed = true → s.Unregistered h) {h : ℕ}
    {y : Handle} (hy : (s.exec a).handles.get h = some y) (hcl : y.closed = true) :
    (s.exec a).Unregistered h := by
  rcases exec_closed hs.life hg hy hcl with ⟨x, hx, hxc⟩ | hclose
  · have hold := unregistered_iff.mp (hc h x hx hxc)
    rw [unregistered_iff]
    intro k hk
    have hwrite := exec_registry hg k
    generalize (s.exec a).registry k = v at hwrite ⊢
    -- for a handle closed before, only listen and start could write a key
    cases hwrite with
    | same => exact hold k hk
    | method v ha hkey =>
      subst ha
      rcases mem_keys_handle hkey with hnext | ⟨h', hh, hopen⟩
      · obtain rfl := Option.some.inj (hk.symm.trans hnext)
        exact absurd (s.handles.lt_next hx) (lt_irrefl _)
      · obtain rfl := Option.some.inj (hk.symm.trans hh)
        exact Bool.noConfusion (hxc.symm.trans (hopen hstep x hx))
    | submit v ha hkey =>
      rw [hkey] at hk
      cases hk
    | close | completed => rfl
  · obtain ⟨r, o, q, rfl, hq, hk, hh⟩ := closes_eq_some.mp hclose
    obtain ⟨x, hx, -⟩ := hs.life.pending r q h hq hh
    refine closes_unregistered hs hclose hx ?_
    intro htype
    refine (hstep q hq).2 hk ?_
    simp only [hh, Option.getD_some, handleType, hx, Option.map_some, htype]

end World

/-- The registry, and no closed handle has a key in it. -/
structure CleanOk (s : World) : Prop where
  registry : RegistryOk s
  closed : ∀ h x, s.handles.get h = some x → x.closed = true → s.Unregistered h

theorem run_cleanOk {as : List Action} (he : couv.Enabled .init as)
    (hclean : couv.Along CleanStep .init as) : CleanOk (couv.run .init as) := by
  refine Machine.run_invariant ?_ ⟨registryOk_init, fun _ _ h => nomatch h⟩
    (Machine.along_and.mpr ⟨he, hclean⟩)
  intro s a hs hstep
  exact ⟨hs.registry.exec hstep.1, fun h y hy hcl =>
    World.unregistered_exec hs.registry hstep.1 hstep.2 hs.closed hy hcl⟩

/-- The key of a request that has been completed by a clean step is never set again. -/
theorem run_completed {as : List Action} (he : couv.Enabled .init as)
    (hclean : couv.Along CleanStep .init as) {r : ℕ} (hr : Completed as r) :
    (couv.run .init as).registry (.reqThread r) = none := by
  obtain ⟨pre, o, post, q, rfl, hq, hon, hsleep⟩ := hr
  obtain ⟨hpre, hg, hpost⟩ := Machine.along_append.mp he
  obtain ⟨-, hstep, -⟩ := Machine.along_append.mp hclean
  have hs := run_registryOk hpre
  have hdone : ((couv.run .init pre).exec (.event (.complete r o))).registry (.reqThread r) =
      none := World.complete_clears hq hon hsleep (hstep q hq).1
  have hrun := Machine.run_invariant
    (I := fun s => RegistryOk s ∧ r < s.reqs.next ∧ s.registry (.reqThread r) = none)
    (s := (couv.run .init pre).exec (.event (.complete r o))) ?_ ?_ hpost
  · rw [Machine.run_append]
    exact hrun.2.2
  · rintro s a ⟨hs, hlt, hnone⟩ hg
    exact ⟨hs.exec hg, hlt.trans_le (World.exec_reqs_next hs.stack hg),
      World.exec_reqThread_none hg hlt hnone⟩
  · refine ⟨hs.exec hg, ?_, hdone⟩
    exact ((couv.run .init pre).reqs.lt_next hq).trans_le (World.exec_reqs_next hs.stack hg)

theorem registryCleaned_of_clean {as : List Action} (he : couv.Enabled .init as)
    (hclean : couv.Along CleanStep .init as) : RegistryCleaned as := by
  have hs := run_cleanOk he hclean
  have hreq : ∀ r, Completed as r → (couv.run .init as).registry (.reqThread r) = none :=
    fun r hr => run_completed he hclean hr
  refine ⟨hs.closed, hreq, ?_, ?_⟩
  · intro h x hx hcl
    refine ⟨by rw [hx]; rfl, ?_⟩
    rw [(hs.closed h x hx hcl).1]
    exact (Option.some_ne_none _).symm
  · intro T hhandles hreqs
    constructor
    · intro h _ hkey
      obtain ⟨x, hx, hcl⟩ := hhandles h hkey
      rw [(hs.closed h x hx hcl).2.1] at hkey
      cases hkey
    · intro r _ hkey
      rw [hreq r (hreqs r hkey)] at hkey
      cases hkey

/-! The other steps do leave a key. -/

section
variable {pre : List Action} {a : Action} (he : couv.Enabled .init (pre ++ [a]))
  (hclean : RegistryCleaned (pre ++ [a]))
include he hclean

theorem cleaned_not_getaddrinfo {r : ℕ} {o : Outcome} (ha : a = .event (.complete r o)) {q : Req}
    (hq : (couv.run .init pre).reqs.get r = some q) : q.kind ≠ .getaddrinfo := by
  subst ha
  intro hk
  have hs := run_registryOk (Machine.along_append.mp he).1
  obtain ⟨T, hT⟩ := hs.held r q hq (by rw [hk]; rfl)
  have hnone := hclean.request r ⟨pre, o, [], q, rfl, hq, by rw [hk]; rfl,
    by rw [hk]; exact ReqKind.noConfusion⟩
  rw [Machine.run_append] at hnone
  have hkeep := congrFun (World.complete_getaddrinfo (o := o) hq hk) (.reqThread r)
  exact Option.some_ne_none _ ((hT.symm.trans hkeep.symm).trans hnone)

theorem cleaned_not_pipe {h : ℕ} (hcl : (couv.run .init pre).closes a = some h) :
    (couv.run .init pre).handleType h ≠ some .pipe := by
  intro htype
  have hs := run_registryOk (Machine.along_append.mp he).1
  obtain ⟨x, hx, hxt⟩ := Option.map_eq_some_iff.mp htype
  have hkey := World.closes_pipe hs hcl hx hxt
  obtain ⟨y, hy, hyc⟩ := World.closes_closed hcl hx
  have hnone := hclean.handle h
  rw [Machine.run_append] at hnone
  exact Option.some_ne_none _ (hkey.symm.trans (hnone y hy hyc).1)

omit he in
theorem cleaned_open {h : ℕ} {x : Handle} {f : ℕ}
    (hkeep : x.closed = true → ((couv.run .init pre).exec a).handles.get h = some x)
    (hset : ((couv.run .init pre).exec a).registry (couvListenCbRegKey h) = some (.func f)) :
    x.closed = false := by
  by_contra hopen
  have hcl : x.closed = true := by simpa using hopen
  have hnone := hclean.handle h x
  rw [Machine.run_append] at hnone
  exact Option.some_ne_none _ (hset.symm.trans (hnone (hkeep hcl) hcl).2.2.1)

end

theorem cleanStep_of_cleaned {pre : List Action} {a : Action}
    (he : couv.Enabled .init (pre ++ [a])) (hclean : RegistryCleaned (pre ++ [a])) :
    CleanStep (couv.run .init pre) a := by
  obtain ⟨hpre, hg, -⟩ := Machine.along_append.mp he
  have hs := run_registryOk hpre
  -- libuv accepts neither call on a handle that is closing
  have hopen : ∀ {h : ℕ} {types : List HandleType} {x : Handle},
      (couv.run .init pre).Has h types true →
      (couv.run .init pre).handles.get h = some x → x.closed = false := by
    intro h types x hh hx
    obtain ⟨y, hy, hknown⟩ := hs.life.known hh
    obtain rfl := Option.some.inj (hx.symm.trans hy)
    exact hknown.2
  cases a with
  | lua | call | heap | gc => trivial
  | event e =>
    cases e with
    | alloc | readCb | read2Cb | udpRecvCb | timerCb | exitCb | connectionCb => trivial
    | complete r o =>
      intro q hq
      refine ⟨cleaned_not_getaddrinfo he hclean rfl hq, ?_⟩
      intro hk
      have hshape := hs.life.shape r q hq
      rw [hk] at hshape
      obtain ⟨h, hh⟩ := Option.isSome_iff_exists.mp hshape.symm
      rw [hh, Option.getD_some]
      exact cleaned_not_pipe he hclean (World.closes_eq_some.mpr ⟨r, o, q, rfl, hq, hk, hh⟩)
  | handle m =>
    cases m with
    | tcpNew | udpNew | pipeNew | ttyNew | timerNew | spawn | tcpOpen | timerStop | timerAgain
    | timerSetRepeat | readStart | readStop => trivial
    | listen h f ok =>
      intro x hx
      cases ok with
      | true => exact hopen hg.2 hx
      | false => exact cleaned_open hclean (fun _ => hx) (if_pos rfl)
    | timerStart h f rep r =>
      intro x hx
      cases r with
      | ok => exact hopen hg.2 hx
      | argError | uvError => exact cleaned_open hclean (fun _ => hx) (if_pos rfl)

/-- A tcp handle that its coroutine closes. -/
def tcpClose : List Action := [.lua .create, .lua (.resume 1 []), .handle (.tcpNew true),
  .call false (.close 0), .lua .uvRun, .event (.complete 0 .ok)]

/-- A pipe that its coroutine closes. -/
def pipeClose : List Action := [.lua .create, .lua (.resume 1 []), .handle (.pipeNew true),
  .call false (.close 0), .lua .uvRun, .event (.complete 0 .ok)]

end Couv
