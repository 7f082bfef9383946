import Couv.Pending
import Couv.RegistryKeys

/-! Which step writes which key of the registry, and which keys may have an entry. -/
namespace Couv

/-- The handle that a key belongs to. -/
def RegKey.handle : RegKey → Option ℕ
  | .userdata h | .thread h | .callback h => some h
  | .reqThread _ => none

/-- The keys that a constructor or a method may write. -/
def HandleAct.keys (s : World) : HandleAct → List RegKey
  | .tcpNew _ | .udpNew _ | .pipeNew _ | .ttyNew _ =>
    [couvThreadRegKey s.handles.next, couvUserdataRegKey s.handles.next]
  | .spawn _ _ => [couvExitCbRegKey s.handles.next, couvUserdataRegKey s.handles.next]
  | .listen h _ _ => [couvListenCbRegKey h, couvUserdataRegKey h]
  | .timerStart h _ _ _ => [couvTimerCbRegKey h, couvUserdataRegKey h]
  | .timerNew _ | .tcpOpen _ _ | .timerStop _ | .timerAgain _ | .timerSetRepeat _ _
  | .readStart _ _ _ | .readStop _ => []

namespace World

/-- What a step leaves under the key `k`. -/
inductive KeyWrite (s : World) (a : Action) (k : RegKey) : Option RegVal → Prop
  | same : s.KeyWrite a k (s.registry k)
  | method {m : HandleAct} (v : Option RegVal) : a = .handle m → k ∈ m.keys s → s.KeyWrite a k v
  | submit {boundary : Bool} {c : Call} (v : Option RegVal) : a = .call boundary c →
    k = .reqThread s.reqs.next → (s.exec a).reqs.next = s.reqs.next + 1 → s.KeyWrite a k v
  | close {r : ℕ} {o : Outcome} {q : Req} : a = .event (.complete r o) → s.reqs.get r = some q →
    q.kind = .close → k.handle = some (q.handle.getD 0) → s.KeyWrite a k none
  | completed {r : ℕ} {o : Outcome} : a = .event (.complete r o) → k = .reqThread r →
    s.KeyWrite a k none

section
variable {s : World} {a : Action}

theorem execHandle_registry {L : ℕ} {m : HandleAct} {k : RegKey} (hk : k ∉ m.keys s) :
    (s.execHandle L m).registry k = s.registry k := by
  have hset : ∀ (t : World) (k' : RegKey) (v : Option RegVal), k' ∈ m.keys s →
      (t.couvRawsetp k' v).registry k = t.registry k := by
    intro t k' v hk'
    rw [couvRawsetp_registry, if_neg]
    rintro rfl
    exact hk hk'
  -- each method sets keys of its own list only
  cases m with
  | tcpNew ok | udpNew ok | pipeNew ok =>
    simp only [execHandle, tcpNew, udpNew, pipeNew, newInCoroutine, initStream]
    split
    · rfl
    · split
      · rw [hset _ _ _ (.tail _ (.head _)), initQueue_registry, link_registry,
          hset _ _ _ (.head _), newHandle_registry]
      · rw [hset _ _ _ (.head _), newHandle_registry]
  | ttyNew ok =>
    simp only [execHandle, ttyNew, initStream]
    split
    · rw [hset _ _ _ (.tail _ (.head _)), initQueue_registry, link_registry]
      split
      · rfl
      · rw [hset _ _ _ (.head _), newHandle_registry]
    · split
      · rfl
      · rw [hset _ _ _ (.head _), newHandle_registry]
  | timerNew ok => cases ok <;> rfl
  | spawn f r =>
    cases r with
    | argError => rfl
    | uvError => exact hset _ _ _ (.head _)
    | ok => exact (hset _ _ _ (.tail _ (.head _))).trans (hset _ _ _ (.head _))
  | listen h f ok =>
    cases ok with
    | false => exact hset _ _ _ (.head _)
    | true => exact (hset _ _ _ (.tail _ (.head _))).trans (hset _ _ _ (.head _))
  | timerStart h f rep r =>
    cases r with
    | argError | uvError => exact hset _ _ _ (.head _)
    | ok => exact (hset _ _ _ (.tail _ (.head _))).trans (hset _ _ _ (.head _))
  | tcpOpen h ok | readStart m h ok => cases ok <;> rfl
  | timerStop | timerAgain | timerSetRepeat | readStop => rfl

private theorem keyWrite_call {boundary : Bool} {c : Call} (hg : s.guard (.call boundary c))
    (k : RegKey) : s.KeyWrite (.call boundary c) k ((s.exec (.call boundary c)).registry k) := by
  have hset : ∀ {v : Option RegVal},
      (s.exec (.call boundary c)).registry = (s.couvRawsetp (.reqThread s.reqs.next) v).registry →
      (s.exec (.call boundary c)).reqs.next = s.reqs.next + 1 →
      s.KeyWrite (.call boundary c) k ((s.exec (.call boundary c)).registry k) := by
    intro v he hn
    by_cases hk : k = .reqThread s.reqs.next
    · exact .submit _ rfl hk hn
    · rw [he, couvRawsetp_registry, if_neg hk]
      exact .same
  have hsame : (s.exec (.call boundary c)).registry = s.registry →
      s.KeyWrite (.call boundary c) k ((s.exec (.call boundary c)).registry k) := by
    intro he
    rw [he]
    exact .same
  -- only the calls without a handle anchor their thread
  rcases (execCall_spec boundary (s.current.getD 0) hg.2).cases with
    ⟨m, h, -, he⟩ | ⟨h, -, he⟩ | he | ⟨req, he⟩ | ⟨t, req, ha, he⟩
  · refine hsame ?_
    simp only [exec, he, passive_registry.couvPrimRead]
  · refine hsame ?_
    simp only [exec, he, couvClose]
    split
    · rfl
    · rw [passive_registry.submit _ (fun _ _ => rfl)]
      rfl
  · refine hsame ?_
    simp only [exec, he]
  · refine hset (v := some (.thread (s.current.getD 0))) ?_ ?_
    · simp only [exec, he]
      rfl
    · simp only [exec, he]
      rfl
  · rcases ha.state with ⟨rfl, -⟩ | ⟨rfl, -⟩
    · refine hsame ?_
      simp only [exec, he, passive_registry.submit _ (fun _ _ => rfl)]
    · refine hset (v := some (.thread (s.current.getD 0))) ?_ ?_
      · simp only [exec, he, passive_registry.submit _ (fun _ _ => rfl)]
      · simp only [exec, he, submit_reqs]
        rfl

private theorem keyWrite_complete {r : ℕ} {o : Outcome} {q : Req} (hq : s.reqs.get r = some q)
    (k : RegKey) :
    s.KeyWrite (.event (.complete r o)) k ((s.complete r o).registry k) := by
  rcases complete_cases hq o with ⟨-, he⟩ | ⟨hkind, he⟩ | ⟨-, -, t, ht, he⟩
  · rw [he]
    exact .same
  -- close_cb: the three keys of the handle
  · have hclean : ∀ {reg : RegKey → Option RegVal}, (reg k = s.registry k ∨ reg k = none ∧
        (k = .userdata (q.handle.getD 0) ∨ k = .thread (q.handle.getD 0) ∨
          k = .callback (q.handle.getD 0))) →
        s.KeyWrite (.event (.complete r o)) k (reg k) := by
      rintro reg (hk | ⟨hk, hkey⟩)
      · rw [hk]
        exact .same
      · rw [hk]
        refine .close rfl hq hkind ?_
        rcases hkey with rfl | rfl | rfl <;> rfl
    rw [he]
    obtain ⟨reg, hreg, ⟨-, he⟩ | ⟨-, he⟩⟩ := closeCb_cases (s := s) (q.handle.getD 0) r
    · rw [he]
      exact hclean (hreg k)
    · rw [he, passive_registry.couvResume]
      exact hclean (hreg k)
  · rw [he, passive_registry.couvResume]
    rcases ht with rfl | rfl
    · exact .same
    · change s.KeyWrite _ k ((s.couvRawsetp (.reqThread r) none).registry k)
      rw [couvRawsetp_registry]
      split
      · next hk => exact .completed rfl hk
      · exact .same

/-- One inversion for the registry after any action. -/
theorem exec_registry (hg : s.guard a) (k : RegKey) :
    s.KeyWrite a k ((s.exec a).registry k) := by
  have hsame : (s.exec a).registry = s.registry → s.KeyWrite a k ((s.exec a).registry k) := by
    intro he
    rw [he]
    exact .same
  cases a with
  | lua a => exact hsame (passive_registry.execLua s _ a)
  | handle m =>
    by_cases hk : k ∈ m.keys s
    · exact .method _ rfl hk
    · change s.KeyWrite _ k ((s.execHandle _ m).registry k)
      rw [execHandle_registry hk]
      exact .same
  | call boundary c => exact keyWrite_call hg k
  | heap a =>
    exact hsame (execHeap_proj (f := World.registry) (fun _ _ => rfl) (fun _ _ => rfl)
      (fun _ _ => rfl) s a)
  | event e =>
    cases hn : e.node with
    | some node =>
      obtain ⟨rd, he, -⟩ := inputEvent hg.2 hn
      refine hsame ?_
      simp only [exec, he]
      exact passive_registry.inputCb s (fun _ _ => rfl) (fun _ _ => rfl) node rd
    | none =>
      cases e with
      | readCb | read2Cb | udpRecvCb => cases hn
      | alloc h n env =>
        exact hsame (couvBufAllocCb_proj (f := World.registry) (fun _ _ => rfl)
          (fun _ _ => rfl) s h n env)
      | timerCb | exitCb | connectionCb => exact hsame rfl
      | complete r o =>
        obtain ⟨q, hq, -⟩ := hg.2
        exact keyWrite_complete hq k
  | gc g =>
    cases g with
    | thread | handle | string => exact hsame rfl
    | buffer b => exact hsame (collectBuffer_proj (f := World.registry) (fun _ _ => rfl) s b)

/-! The coroutine of a request that has no handle. -/

theorem not_reqThread_mem_keys {m : HandleAct} {r : ℕ} : RegKey.reqThread r ∉ m.keys s := by
  cases m <;> simp [HandleAct.keys, couvThreadRegKey, couvUserdataRegKey, couvExitCbRegKey,
    couvListenCbRegKey, couvTimerCbRegKey]

/-- The entry of a pending request stays until its callback. -/
theorem exec_reqThread (hg : s.guard a) {r : ℕ} (hr : r ≠ s.reqs.next) :
    (s.exec a).registry (.reqThread r) = s.registry (.reqThread r) ∨
      ∃ o, a = .event (.complete r o) := by
  have hwrite := exec_registry hg (.reqThread r)
  generalize (s.exec a).registry (.reqThread r) = v at hwrite
  cases hwrite with
  | same => exact .inl rfl
  | method v ha hk => exact absurd hk not_reqThread_mem_keys
  | submit v ha hk => exact absurd (RegKey.reqThread.inj hk) hr
  | close ha hq hkind hk => cases hk
  | completed ha hk =>
    obtain rfl := RegKey.reqThread.inj hk
    exact .inr ⟨_, ha⟩

/-- A call without a handle leaves its coroutine in the registry with its request. -/
theorem call_reqThread {boundary : Bool} {L : ℕ} {c : Call} (hg : s.guardCall c)
    (hc : c.handle = none) {req : Req}
    (hr : (s.execCall boundary L c).reqs.get s.reqs.next = some req) :
    (s.execCall boundary L c).registry (.reqThread s.reqs.next) = some (.thread L) := by
  rcases (execCall_spec boundary L hg).cases with
    ⟨m, k, rfl, -⟩ | ⟨k, rfl, -⟩ | he | ⟨req', he⟩ | ⟨t, req', ha, he⟩
  · cases hc
  · cases hc
  · rw [he, s.reqs.fresh _ le_rfl] at hr
    cases hr
  · have hfree : (s.execCall boundary L c).reqs.get s.reqs.next = none := by
      rw [he]
      exact Store.free_get_self _ _
    rw [hfree] at hr
    cases hr
  · rw [he, passive_registry.submit _ (fun _ _ => rfl)]
    rcases ha.state with ⟨-, hh⟩ | ⟨rfl, -⟩
    · rw [hc] at hh
      cases hh
    · rw [couvRawsetp_registry, if_pos rfl]

end
end World

/-! Callback keys are those of handles that call Lua functions. -/

/-- Every listen, timer or exit callback belongs to a handle of a class that has one. -/
def World.CallbackOk (s : World) : Prop :=
  ∀ h, s.registry (.callback h) ≠ none → ∃ x, s.handles.get h = some x ∧ x.type ≠ .udp

theorem callbackOk_init : World.init.CallbackOk := fun _ h => absurd rfl h

namespace World
variable {s : World} {a : Action}

theorem execHandle_callback {L : ℕ} {m : HandleAct} (hg : s.guardHandle m) {h : ℕ}
    (hk : .callback h ∈ m.keys s) :
    ∃ x, (s.execHandle L m).handles.get h = some x ∧ x.type ≠ .udp := by
  -- spawn, listen and start are the methods that set a callback
  cases m with
  | tcpNew | udpNew | pipeNew | ttyNew =>
    simp [HandleAct.keys, couvThreadRegKey, couvUserdataRegKey] at hk
  | timerNew | tcpOpen | timerStop | timerAgain | timerSetRepeat | readStart | readStop => cases hk
  | spawn f r =>
    obtain rfl : h = s.handles.next := by
      simpa [HandleAct.keys, couvUserdataRegKey, couvExitCbRegKey] using hk
    cases r with
    | argError | uvError => exact ⟨_, s.handles.alloc_get_self _, HandleType.noConfusion⟩
    | ok =>
      refine ⟨_, Store.modify_get_self _ _ (Store.modify_get_self _ _
        (s.handles.alloc_get_self _)), HandleType.noConfusion⟩
  | listen k f ok =>
    obtain rfl : h = k := by
      simpa [HandleAct.keys, couvUserdataRegKey, couvListenCbRegKey] using hk
    obtain ⟨x, hx, -, -, htype, -⟩ := hg
    have hne : x.type ≠ .udp := by
      intro he
      simp [he, streamTypes] at htype
    cases ok with
    | false => exact ⟨x, hx, hne⟩
    | true => exact ⟨_, s.handles.modify_get_self _ hx, hne⟩
  | timerStart k f rep r =>
    obtain rfl : h = k := by
      simpa [HandleAct.keys, couvUserdataRegKey, couvTimerCbRegKey] using hk
    obtain ⟨x, hx, -, -, htype, -⟩ := hg
    have hne : x.type ≠ .udp := by
      intro he
      simp [he] at htype
    cases r with
    | argError | uvError => exact ⟨x, hx, hne⟩
    | ok => exact ⟨_, s.handles.modify_get_self _ hx, hne⟩

theorem CallbackOk.exec (hs : s.CallbackOk) (hg : s.guard a) : (s.exec a).CallbackOk := by
  intro h hne
  have hwrite := exec_registry hg (.callback h)
  generalize (s.exec a).registry (.callback h) = v at hwrite hne
  cases hwrite with
  | same =>
    obtain ⟨x, hx, htype⟩ := hs h hne
    obtain ⟨y, hy, hyt, -⟩ := exec_handle hg hx
    exact ⟨y, hy, hyt ▸ htype⟩
  | method v ha hk =>
    subst ha
    exact execHandle_callback hg.2 hk
  | submit v ha hk => cases hk
  | close | completed => exact absurd rfl hne

theorem exec_reqs_next (hs : s.StackOk) (hg : s.guard a) :
    s.reqs.next ≤ (s.exec a).reqs.next := by
  rcases (exec_reqs hs hg).cases with he | ⟨boundary, c, L, -, -, hcall⟩ |
    ⟨r, o, q, -, -, ⟨-, he⟩ | ⟨-, he⟩⟩
  · rw [he]
  · rcases hcall.cases with ⟨he | ⟨req, he⟩, -⟩ | ⟨req, -, he, -⟩
    · rw [he]
    · rw [he]
      exact Nat.le_succ _
    · rw [he]
      exact Nat.le_succ _
  · rw [he]
    exact le_rfl
  · rw [he]
    exact le_rfl

end World

/-- The registry agrees with the handles and the requests. -/
structure RegistryOk (s : World) : Prop where
  stack : s.StackOk
  life : s.LifeOk
  keys : s.KeysOk
  callback : s.CallbackOk
  request : ∀ r, s.reqs.next ≤ r → s.registry (.reqThread r) = none
  held : ∀ r q, s.reqs.get r = some q → q.kind.onHandle = false →
    ∃ T, s.registry (.reqThread r) = some (.thread T)

theorem registryOk_init : RegistryOk .init :=
  ⟨stackOk_init, lifeOk_init, keysOk_init, callbackOk_init, fun _ _ => rfl, fun _ _ h => nomatch h⟩

namespace RegistryOk
variable {s : World} {a : Action} (hs : RegistryOk s)
include hs

theorem request_exec (hg : s.guard a) {r : ℕ} (hr : (s.exec a).reqs.next ≤ r) :
    (s.exec a).registry (.reqThread r) = none := by
  have hold := hs.request r ((World.exec_reqs_next hs.stack hg).trans hr)
  have hwrite := World.exec_registry hg (.reqThread r)
  generalize (s.exec a).registry (.reqThread r) = v at hwrite ⊢
  cases hwrite with
  | same => exact hold
  | method v ha hk => exact absurd hk World.not_reqThread_mem_keys
  | submit v ha hk hn =>
    obtain rfl := RegKey.reqThread.inj hk
    omega
  | close | completed => rfl

theorem held_exec (hg : s.guard a) {r : ℕ} {q : Req} (hr : (s.exec a).reqs.get r = some q)
    (hon : q.kind.onHandle = false) :
    ∃ T, (s.exec a).registry (.reqThread r) = some (.thread T) := by
  rcases World.req_before hs.stack hg hr with ⟨q', hq', hlater⟩ |
    ⟨rfl, boundary, c, L, rfl, hL, hleave, -⟩
  · obtain ⟨T, hT⟩ := hs.held r q' hq' (hlater.onHandle.symm.trans hon)
    rcases World.exec_reqThread hg (s.reqs.lt_next hq').ne with he | ⟨o, rfl⟩
    · exact ⟨T, he.trans hT⟩
    · -- only the running timer of a sleep is still pending after its callback
      rcases World.complete_reqs hq' o with ⟨hk, -⟩ | ⟨-, he⟩
      · refine ⟨T, Eq.trans ?_ hT⟩
        simp only [World.exec, World.execEvent, World.complete, hq', hk]
        rfl
      · change (s.complete r o).reqs.get r = some q at hr
        rw [he, Store.free_get_self] at hr
        cases hr
  · have hc : c.handle = none := by
      rw [hleave.onHandle] at hon
      simpa using hon
    simp only [World.exec, hL, Option.getD_some] at hr ⊢
    exact ⟨L, World.call_reqThread hg.2 hc hr⟩

theorem exec (hg : s.guard a) : RegistryOk (s.exec a) :=
  ⟨hs.stack.exec hg, hs.life.exec hg, hs.keys.exec hg, hs.callback.exec hg,
    fun _ => hs.request_exec hg, fun _ _ => hs.held_exec hg⟩

/-- An address that has not been given out has no key. -/
theorem fresh_callback {h : ℕ} (hh : s.handles.next ≤ h) : s.registry (.callback h) = none := by
  by_contra hne
  obtain ⟨x, hx, -⟩ := hs.callback h hne
  exact absurd (s.handles.lt_next hx) (not_lt.mpr hh)

end RegistryOk

theorem run_registryOk {as : List Action} (he : couv.Enabled .init as) :
    RegistryOk (couv.run .init as) :=
  Machine.run_invariant (fun _ _ hs hg => hs.exec hg) registryOk_init he

end Couv
