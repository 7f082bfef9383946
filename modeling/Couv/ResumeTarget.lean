import Couv.Pending

/-! The coroutine that a callback resumes. -/
namespace Couv

/-- The handle of the call that a coroutine waits in. -/
def World.waitHandle (s : World) : Status → Option ℕ
  | .suspended (.input _ h) => some h
  | .suspended (.req r) => (s.reqs.get r).bind (·.handle)
  | _ => none

/-- A coroutine comes to wait in a call on a handle only if it is `handle->data`, and tcp open
changes `handle->data` only while no coroutine waits in a call on that handle. -/
def OwnerStep (s : World) (a : Action) : Prop :=
  match a with
  | .call boundary c => s.CanYield boundary → ∀ h ∈ s.waitsOn c, s.current = some (s.data h)
  | .handle (.tcpOpen h true) => s.current = some (s.data h) ∨
      s.threads.All (fun _ t => s.waitHandle t.status ≠ some h)
  | _ => True

instance (s : World) : DecidablePred (OwnerStep s)
  | .call _ c => inferInstanceAs (Decidable (_ → ∀ h ∈ s.waitsOn c, _))
  | .handle (.tcpOpen _ true) => inferInstanceAs (Decidable (_ ∨ Store.All _ _))
  | .handle (.tcpOpen _ false) | .handle (.tcpNew _) | .handle (.udpNew _) | .handle (.pipeNew _)
  | .handle (.ttyNew _) | .handle (.timerNew _) | .handle (.spawn _ _) | .handle (.listen _ _ _)
  | .handle (.timerStart _ _ _ _) | .handle (.timerStop _) | .handle (.timerAgain _)
  | .handle (.timerSetRepeat _ _) | .handle (.readStart _ _ _) | .handle (.readStop _)
  | .lua _ | .heap _ | .event _ | .gc _ => isTrue trivial

/-- The callback of the event completes the call with the wait `w`. -/
def World.Serves (s : World) (e : Event) (w : Wait) : Prop :=
  match w with
  | .yield => False
  | .input _ h => ∃ node ∈ e.node, node.handle = h
  | .req r => ∃ o req, e = .complete r o ∧ s.reqs.get r = some req ∧ req.kind ≠ .sleep

/-- The call with the wait `w` has not been served. -/
def World.Unserved (s : World) (w : Wait) : Prop :=
  match w with
  | .yield => True
  | .input _ h => ngxQueueEmpty s.input.links (.root h) = true
  | .req r => (s.reqs.get r).isSome

/-- A coroutine that waits in the call a callback serves is resumed by that callback. -/
def WaiterResumed (s : World) (a : Action) : Prop :=
  ∀ e, a = .event e → ∀ T w, s.status T = some (.suspended w) → s.Serves e w →
    s.resumed e = some T

/-- A coroutine that a callback resumes waits in the call that the callback serves. -/
def OnlyWaiterResumed (s : World) (a : Action) : Prop :=
  ∀ e, a = .event e → ∀ T, s.resumed e = some T →
    ∃ w, s.status T = some (.suspended w) ∧ s.Serves e w

/-- Every waiting coroutine is the one that the callback of its call will resume. -/
structure WaitOk (s : World) : Prop where
  stack : s.StackOk
  life : s.LifeOk
  input : s.InputOk
  req : ∀ T r, s.status T = some (.suspended (.req r)) →
    ∃ q, s.reqs.get r = some q ∧ s.target q = T
  read : ∀ T m h, s.status T = some (.suspended (.input m h)) →
    s.data h = T ∧ s.input.queued h = []

theorem waitOk_init : WaitOk .init where
  stack := stackOk_init
  life := lifeOk_init
  input := inputOk_init
  req _ _ hst := nomatch (World.status_init hst).2
  read _ _ _ hst := nomatch (World.status_init hst).2

namespace World
variable {s : World} {a : Action}

/-- `handle->data` changes by tcp open only. -/
theorem data_exec (hg : s.guard a) {h : ℕ} {x : Handle} (hx : s.handles.get h = some x) :
    (s.exec a).data h = s.data h ∨
      a = .handle (.tcpOpen h true) ∧ s.current = some ((s.exec a).data h) := by
  rcases (exec_handles hg).cases with he | ⟨m, L, x', -, -, -, he, -⟩ | ⟨k, x', f, hk, he, hf⟩
  · exact .inl (by simp only [data, he])
  · left
    simp only [data, he, s.handles.alloc_get_of_some hx, hx]
  · by_cases hkh : h = k
    · subst hkh
      have hnew : (s.exec a).data h = (f x').data := by
        simp only [data, he, s.handles.modify_get_self f hk, Option.map_some, Option.getD_some]
      rw [hnew, data_of_get hk]
      exact hf.data.imp_right fun hd => ⟨hd.1, hd.2.2⟩
    · left
      simp only [data, he, s.handles.modify_get_ne f hkh]

/-- The handle of a call that waits keeps its `handle->data` under an owner's step. -/
theorem data_kept (hg : s.guard a) (ho : OwnerStep s a) {h T : ℕ} {x : Handle}
    (hx : s.handles.get h = some x) {w : Wait} (hst : s.status T = some (.suspended w))
    (hw : s.waitHandle (.suspended w) = some h) : (s.exec a).data h = s.data h := by
  rcases data_exec hg hx with hd | ⟨rfl, hcur⟩
  · exact hd
  · rcases ho with ho | ho
    · exact Option.some.inj (hcur.symm.trans ho)
    · obtain ⟨t, ht, hts⟩ : ∃ t, s.threads.get T = some t ∧ t.status = .suspended w := by
        simpa only [status, Option.map_eq_some_iff] using hst
      exact absurd (hts ▸ hw) ((Store.all_iff _).mp ho T t ht)

end World

namespace WaitOk
variable {s : World} (hs : WaitOk s) {a : Action}
include hs

theorem pending_handle {r h : ℕ} {q : Req} (hq : s.reqs.get r = some q)
    (hh : q.handle = some h) : ∃ x, s.handles.get h = some x := by
  obtain ⟨x, hx, -⟩ := hs.life.pending r q h hq hh
  exact ⟨x, hx⟩

/-- The target of a request that a coroutine waits for stays the same. -/
theorem target_kept (hg : s.guard a) (ho : OwnerStep s a) {r T : ℕ} {q q' : Req}
    (hq : s.reqs.get r = some q) (hst : s.status T = some (.suspended (.req r)))
    (hlater : q.Later q') : (s.exec a).target q' = s.target q := by
  unfold World.target
  rw [hlater.onHandle, hlater.handle, hlater.data]
  split
  · next hon =>
    rw [hs.life.shape r q hq] at hon
    obtain ⟨h, hh⟩ := Option.isSome_iff_exists.mp hon
    obtain ⟨x, hx⟩ := hs.pending_handle hq hh
    have hw : s.waitHandle (.suspended (.req r)) = some h := by
      simp only [World.waitHandle, hq, Option.bind_some, hh]
    rw [hh]
    exact World.data_kept hg ho hx hst hw
  · rfl

/-- The call that a coroutine comes to wait in. -/
theorem req_new (hg : s.guard a) (ho : OwnerStep s a) {T r : ℕ}
    (hst : (s.exec a).status T = some (.suspended (.req r)))
    (hhead : s.frames.head? = some (.thread T)) (hne : T ≠ mainThread)
    (hw : s.WaitsFor a (.req r)) :
    ∃ q, (s.exec a).reqs.get r = some q ∧ (s.exec a).target q = T := by
  obtain ⟨rfl, c, rfl, hread⟩ := hw
  have htop := World.top_of_head hhead
  have hcur := World.current_of_top htop
  have hrun := hs.stack.running T (World.head_mem hhead)
  rcases (World.execCall_reqs hs.stack false hcur hg.2).cases with
    ⟨-, hsame | ⟨m, h, hc⟩⟩ | ⟨q, hleave, hreqs, -⟩
  · -- the call has not suspended its coroutine
    simp only [World.exec, hcur, Option.getD_some, hsame, hrun] at hst
    cases hst
  · exact absurd hc (hread m h)
  · have hexec : s.exec (.call false c) = s.execCall false T c := by
      simp only [World.exec, hcur, Option.getD_some]
    refine ⟨q, by rw [hexec, hreqs, Store.alloc_get_self], ?_⟩
    unfold World.target
    rw [hleave.onHandle, hleave.handle]
    cases hc : c.handle with
    | none => exact hleave.data hc
    | some h =>
      -- the condition says that the caller is `handle->data`
      have hdata := ho ⟨rfl, T, htop, hne⟩ h (hleave.waits.trans hc)
      rw [hcur] at hdata
      obtain ⟨x, hx⟩ : ∃ x, s.handles.get h = some x := by
        have hgc := hg.2
        cases c with
        | sleep | getaddrinfo | fs | fsRead | fsWrite => cases hc
        | write | write2 | send =>
          obtain rfl := Option.some.inj hc
          obtain ⟨⟨x, hx, -⟩, -⟩ := hgc
          exact ⟨x, hx⟩
        | read | shutdown | tcpConnect | pipeConnect | close =>
          obtain rfl := Option.some.inj hc
          obtain ⟨x, hx, -⟩ := hgc
          exact ⟨x, hx⟩
      rcases World.data_exec hg hx with hd | ⟨he, -⟩
      · exact hd.trans (Option.some.inj hdata).symm
      · cases he

theorem exec (hg : s.guard a) (ho : OwnerStep s a) : WaitOk (s.exec a) := by
  refine ⟨hs.stack.exec hg, hs.life.exec hg, hs.input.exec hs.stack hg, ?_, ?_⟩
  · intro T r hst
    rcases World.exec_suspended hs.stack hg hst with hold | ⟨hhead, hne, hw⟩
    · obtain ⟨q, hq, htarget⟩ := hs.req T r hold
      rcases World.req_after hs.stack hg hq with ⟨q', hq', hlater⟩ | ⟨hk, o, rfl⟩
      · exact ⟨q', hq', (hs.target_kept hg ho hq hold hlater).trans htarget⟩
      · -- the callback of its request has woken it
        have hrun := (World.complete_resumes hq hk (htarget ▸ hold) o).1
        rw [htarget] at hrun
        rw [show (s.exec (.event (.complete r o))).status T = some .running from hrun] at hst
        cases hst
    · exact hs.req_new hg ho hst hhead hne hw
  · intro T m h hst
    rcases World.exec_suspended hs.stack hg hst with hold | ⟨hhead, hne, rfl, hempty⟩
    · obtain ⟨hdata, hnil⟩ := hs.read T m h hold
      obtain ⟨x, hx, -⟩ := hs.input.waits T m h hold
      exact ⟨(World.data_kept hg ho hx hold rfl).trans hdata,
        hs.input.stays_empty hg hdata hold hnil hst⟩
    · refine ⟨?_, hs.input.starts_empty hg hempty⟩
      -- a read that starts to wait has found its queue empty
      have htop := World.top_of_head hhead
      have hdata := ho ⟨rfl, T, htop, hne⟩ h (if_pos hempty)
      rw [World.current_of_top htop] at hdata
      obtain ⟨-, x, hx, -⟩ := id hg
      rcases World.data_exec hg hx with hd | ⟨he, -⟩
      · exact hd.trans (Option.some.inj hdata).symm
      · cases he

theorem waiterResumed : WaiterResumed s a := by
  rintro e rfl T w hst hserves
  cases w with
  | yield => cases hserves
  | req r =>
    obtain ⟨o, q, rfl, hq, hk⟩ := hserves
    obtain ⟨q', hq', htarget⟩ := hs.req T r hst
    obtain rfl := Option.some.inj (hq.symm.trans hq')
    rw [← htarget]
    exact World.resumed_complete hq hk
      (fun _ => (World.yielded_iff s).mpr ⟨_, htarget.symm ▸ hst⟩) o
  | input m h =>
    obtain ⟨node, hn, rfl⟩ := hserves
    rw [World.resumed_node hn, (hs.read T m _ hst).1, if_pos]
    exact (World.yielded_iff s).mpr ⟨_, hst⟩

theorem unserved {T : ℕ} {w : Wait} (hst : s.status T = some (.suspended w)) : s.Unserved w := by
  cases w with
  | yield => trivial
  | req r =>
    obtain ⟨q, hq, -⟩ := hs.req T r hst
    exact Option.isSome_iff_exists.mpr ⟨q, hq⟩
  | input m h =>
    obtain ⟨x, hx, hl, ht⟩ := hs.input.waits T m h hst
    have hroot := hs.input.queue.root h x hx hl (InputMode.plain_of_mem ht)
    exact (ngxQueueEmpty_iff (hs.input.queue.ring h hroot)).mpr (hs.read T m h hst).2

end WaitOk

/-! When the coroutine that a callback resumes has not left the call before. -/

/-- The coroutine waits in a call of couv. -/
def World.inCall (s : World) (T : ℕ) : Bool :=
  match s.status T with
  | some (.suspended (.input _ _)) | some (.suspended (.req _)) => true
  | _ => false

/-- The coroutine waits in a reading method on `h`. -/
def World.inInput (s : World) (T h : ℕ) : Bool :=
  match s.status T with
  | some (.suspended (.input _ k)) => decide (k = h)
  | _ => false

def Call.closes : Call → Option ℕ
  | .close h => some h
  | _ => none

/-- A call whose callback will resume someone is made by a coroutine that can wait for it, and
is not left early: neither by coroutine.resume nor by input for another call. -/
def SingleWait (s : World) (a : Action) : Prop :=
  match a with
  | .call boundary c => ∀ L ∈ s.current, (s.submits L c = true → s.CanYield boundary) ∧
      (L = mainThread → ∀ h ∈ c.closes, s.data h = mainThread)
  | .lua (.resume T _) => s.inCall T = false
  | .event e => ∀ node ∈ e.node, ∀ T ∈ s.resumed e, s.inInput T node.handle = true
  | _ => True

instance (s : World) : DecidablePred (SingleWait s)
  | .call _ _ => inferInstanceAs (Decidable (∀ L ∈ s.current, _))
  | .lua (.resume _ _) => inferInstanceAs (Decidable (_ = false))
  | .event e => inferInstanceAs (Decidable (∀ node ∈ e.node, ∀ T ∈ s.resumed e, _))
  | .lua .create | .lua (.yield _) | .lua (.finish _) | .lua .callReturn | .lua .uvRun
  | .lua .uvRunReturn | .handle _ | .heap _ | .gc _ => isTrue trivial

/-- Every pending request has its coroutine waiting for it, but for a handle that the main
thread closes. -/
structure ServedOk (s : World) : Prop where
  wait : WaitOk s
  main : ∀ w, s.status mainThread ≠ some (.suspended w)
  pending : ∀ r q, s.reqs.get r = some q → s.status q.caller = some (.suspended (.req r)) ∨
    q.caller = mainThread ∧ q.kind = .close ∧ s.target q = mainThread

theorem servedOk_init : ServedOk .init where
  wait := waitOk_init
  main _ hst := nomatch (World.status_init hst).2
  pending _ _ h := nomatch h

namespace ServedOk
variable {s : World} (hs : ServedOk s) {a : Action}
include hs

theorem onlyWaiterResumed (hw : SingleWait s a) : OnlyWaiterResumed s a := by
  rintro e rfl T hT
  cases hn : e.node with
  | some node =>
    -- an input callback wakes whoever has yielded; the condition says that it is a reader
    have hin := hw node hn T hT
    unfold World.inInput at hin
    split at hin
    · next m k hst => exact ⟨_, hst, node, hn, (of_decide_eq_true hin).symm⟩
    · cases hin
  | none =>
    cases e with
    | complete r o =>
      obtain ⟨q, hq, hres⟩ := Option.bind_eq_some_iff.mp hT
      have hk : q.kind ≠ .sleep := by
        intro hk
        simp only [hk] at hres
        cases hres
      have htarget : s.target q = T := by
        split at hres
        · cases hres
        · split at hres
          · exact Option.some.inj hres
          · cases hres
        · exact Option.some.inj hres
      -- either the waiter is still there, or close was called by the main thread
      rcases hs.pending r q hq with hst | ⟨-, hclose, hmain⟩
      · obtain ⟨q', hq', htarget'⟩ := hs.wait.req _ r hst
        obtain rfl := Option.some.inj (hq.symm.trans hq')
        exact ⟨.req r, htarget ▸ htarget' ▸ hst, o, q, rfl, hq, hk⟩
      · -- the close callback finds that the main thread does not wait
        have hy : s.yielded mainThread = true := by
          by_contra hy
          simp only [hclose, hmain, hy] at hres
          cases hres
        obtain ⟨w, hst⟩ := (World.yielded_iff s).mp hy
        exact absurd hst (hs.main w)
    | readCb | read2Cb | udpRecvCb => cases hn
    | alloc | timerCb | exitCb | connectionCb => cases hT

/-- A coroutine leaves a call only by the callback that serves it. -/
theorem woken_served (hg : s.guard a) (hw : SingleWait s a) {T : ℕ} {w : Wait}
    (hst : s.status T = some (.suspended w)) (hcall : w ≠ .yield) :
    (s.exec a).status T = some (.suspended w) ∨ ∃ e, a = .event e ∧ s.Serves e w := by
  rcases World.exec_woken hs.wait.stack hg hst with hsame | ⟨args, rfl⟩ | ⟨e, rfl, hT⟩
  · exact .inl hsame
  · have hin : s.inCall T = false := hw
    unfold World.inCall at hin
    cases w with
    | yield => exact absurd rfl hcall
    | input | req => simp only [hst] at hin; cases hin
  · obtain ⟨w', hst', hserves⟩ := hs.onlyWaiterResumed hw e rfl T hT
    obtain rfl := Status.suspended.inj (Option.some.inj (hst.symm.trans hst'))
    exact .inr ⟨e, rfl, hserves⟩

/-- A close request of the main thread keeps its target. -/
theorem close_target (hg : s.guard a) {r : ℕ} {q q' : Req} (hq : s.reqs.get r = some q)
    (hk : q.kind = .close) (hlater : q.Later q') : (s.exec a).target q' = s.target q := by
  have hon : q.kind.onHandle = true := by
    rw [hk]
    rfl
  obtain ⟨h, hh⟩ := Option.isSome_iff_exists.mp ((hs.wait.life.shape r q hq).symm.trans hon)
  obtain ⟨x, hx, -, hclosing⟩ := hs.wait.life.pending r q h hq hh
  unfold World.target
  rw [hlater.onHandle, hlater.handle, hon, hh]
  rcases World.data_exec hg hx with hd | ⟨rfl, -⟩
  · exact hd
  · -- tcp open fails on a handle that is being closed
    obtain ⟨-, x', hx', -, -, -, hopen⟩ := hg
    obtain rfl := Option.some.inj (hx.symm.trans hx')
    rw [hclosing hk] at hopen
    exact absurd (hopen rfl) Bool.noConfusion

theorem exec (hg : s.guard a) (ho : OwnerStep s a) (hw : SingleWait s a) :
    ServedOk (s.exec a) := by
  refine ⟨hs.wait.exec hg ho, ?_, ?_⟩
  · intro w hst
    rcases World.exec_suspended hs.wait.stack hg hst with hold | ⟨-, hne, -⟩
    · exact hs.main w hold
    · exact hne rfl
  · intro r q' hq'
    -- the request was there before, or this call has made it
    rcases World.req_before hs.wait.stack hg hq' with
      ⟨q, hq, hlater⟩ | ⟨rfl, boundary, c, L, rfl, hL, hleave, hst⟩
    · rw [hlater.caller]
      rcases hs.pending r q hq with hst | ⟨hmain, hk, htarget⟩
      · refine .inl ?_
        rcases hs.woken_served hg hw hst Wait.noConfusion with hsame | ⟨e, rfl, o, q₀, rfl, hq₀, hk⟩
        · exact hsame
        · obtain rfl := Option.some.inj (hq.symm.trans hq₀)
          rcases World.complete_reqs hq o with ⟨hk', -⟩ | ⟨-, he⟩
          · exact absurd hk' hk
          · rw [show (s.exec (.event (.complete r o))).reqs = _ from he,
              Store.free_get_self] at hq'
            cases hq'
      · refine .inr ⟨hmain, ?_, (hs.close_target hg hq hk hlater).trans htarget⟩
        rcases hlater with rfl | ⟨hk', -⟩
        · exact hk
        · rw [hk] at hk'
          cases hk'
    · obtain ⟨hyield, hclose⟩ := hw L hL
      rw [hleave.caller]
      rcases hleave.submits with hsub | ⟨hmain, hk, h, rfl⟩
      · exact .inl (hst (hyield hsub))
      · refine .inr ⟨hmain, hk, ?_⟩
        obtain ⟨-, x, hx, -⟩ := id hg
        have hdata := hclose hmain h rfl
        unfold World.target
        rw [hk, hleave.handle]
        rcases World.data_exec hg hx with hd | ⟨he, -⟩
        · exact hd.trans hdata
        · cases he

end ServedOk

/-- In every run of owners' steps a callback resumes the coroutine that waits in the call it
serves, and no coroutine waits in a call that has been served. If moreover no coroutine leaves
its calls early, whom a callback resumes does wait in that call. -/
theorem resume_target {as : List Action} (he : couv.Enabled .init as)
    (ho : couv.Along OwnerStep .init as) :
    couv.Along WaiterResumed .init as ∧
    (∀ T w, (couv.run .init as).status T = some (.suspended w) →
      (couv.run .init as).Unserved w) ∧
    (couv.Along SingleWait .init as → couv.Along OnlyWaiterResumed .init as) := by
  have hsteps := Machine.along_and.mpr ⟨he, ho⟩
  have hend : WaitOk (couv.run .init as) :=
    Machine.run_invariant (fun _ _ hs hp => hs.exec hp.1 hp.2) waitOk_init hsteps
  refine ⟨?_, fun T w hst => hend.unserved hst, fun hw => ?_⟩
  · exact Machine.along_of_invariant (fun _ _ hs hp => hs.exec hp.1 hp.2)
      (fun _ _ hs _ => hs.waiterResumed) waitOk_init hsteps
  · exact Machine.along_of_invariant (fun _ _ hs hp => hs.exec hp.1.1 hp.1.2 hp.2)
      (fun _ _ hs hp => hs.onlyWaiterResumed hp.2) servedOk_init
      (Machine.along_and.mpr ⟨hsteps, hw⟩)

/-- A coroutine shuts its own handle down. -/
def ownShutdown : List Action := [.lua .create, .lua (.resume 1 []), .handle (.tcpNew true),
  .call false (.shutdown 0 true), .lua .uvRun, .event (.complete 0 .ok)]

theorem resume_target_shutdown :
    couv.Along WaiterResumed .init ownShutdown ∧ couv.Along OnlyWaiterResumed .init ownShutdown :=
  have h := resume_target (show couv.Enabled .init ownShutdown by decide)
    (show couv.Along OwnerStep .init ownShutdown by decide)
  ⟨h.1, h.2.2 (by decide)⟩

/-- A coroutine makes a handle and finishes; another one closes it. -/
def foreignClose : List Action := [.lua .create, .lua (.resume 1 []), .handle (.tcpNew true),
  .lua (.finish false), .lua .create, .lua (.resume 2 []), .call false (.close 0), .lua .uvRun,
  .event (.complete 0 .ok)]

theorem foreign_close_not_resumed : ¬∀ as : List Action, couv.Enabled .init as →
    couv.Along WaiterResumed .init as ∧
    ∀ T w, (couv.run .init as).status T = some (.suspended w) →
      (couv.run .init as).Unserved w := by
  intro hall
  have hunserved := (hall foreignClose (by decide)).2 2 (.req 0) rfl
  cases hunserved

end Couv
