import Couv.ResumeTarget

/-! What a waiting coroutine goes on with. -/
namespace Couv

/-- The handle that a method is called on. -/
def HandleAct.handle : HandleAct → Option ℕ
  | .tcpNew _ | .udpNew _ | .pipeNew _ | .ttyNew _ | .timerNew _ | .spawn _ _ => none
  | .tcpOpen h _ | .listen h _ _ | .timerStart h _ _ _ | .timerStop h | .timerAgain h
  | .timerSetRepeat h _ | .readStart _ h _ | .readStop h => some h

def Action.uses : Action → Option ℕ
  | .handle m => m.handle
  | .call _ c => c.handle
  | _ => none

/-- A handle is used by the coroutine that created it. -/
def UsedByCreator (s : World) (a : Action) : Prop :=
  ∀ h ∈ a.uses, ∃ x ∈ s.handles.get h, s.current = some x.creator

instance (s : World) (a : Action) : Decidable (UsedByCreator s a) :=
  inferInstanceAs (Decidable (∀ h ∈ a.uses, ∃ x ∈ s.handles.get h, _))

/-- A coroutine leaves a call by the callback that serves this call. -/
def LeftServed (s : World) (a : Action) : Prop :=
  ∀ T w, s.status T = some (.suspended w) → w ≠ .yield →
    (s.exec a).status T = some (.suspended w) ∨ ∃ e, a = .event e ∧ s.Serves e w

/-- A call returns what its own request was completed with in the run, or an input node. -/
def OwnResult (as : List Action) (ret : Return) : Prop :=
  match ret.wait with
  | .yield => ret.source = .lua
  | .input m h => ∃ n node b, ret.source = .node n ∧ n ∈ (couv.run .init as).input.unlinked h ∧
      (couv.run .init as).input.nodes.get n = some node ∧ ret.values = node.values m b
  | .req r => ∃ pre post o q, as = pre ++ .event (.complete r o) :: post ∧
      (couv.run .init pre).reqs.get r = some q ∧ q.caller = ret.thread ∧
      ret.source = .completion r ∧ ret.values = q.kind.args o

namespace World

/-- A resumed coroutine goes on: with what it was resumed with, or from a read with a node. -/
structure Resumption (s : World) (ret : Return) (src : Source) (args : List Value) : Prop where
  waited : s.status ret.thread = some (.suspended ret.wait)
  result : ret.source = src ∧ ret.values = args ∧
      (∀ m h, ret.wait = .input m h → (args.headD .nil).truthy = true) ∨
    ∃ m h n, ret.wait = .input m h ∧ ret.source = .node n

/-- The ways in which a coroutine goes on after a call. -/
inductive Returned (s : World) (a : Action) (ret : Return) : Prop
  | read (m : InputMode) (h n : ℕ) (hwait : ret.wait = .input m h) (hsrc : ret.source = .node n)
  | lua (args : List Value) (ha : a = .lua (.resume ret.thread args))
    (hres : s.Resumption ret .lua args)
  | input (e : Event) (node : InputNode) (ha : a = .event e) (hn : e.node = some node)
    (hT : s.resumed e = some ret.thread) (hres : s.Resumption ret (.input node.handle) [])
  | complete (r : ℕ) (o : Outcome) (q : Req) (ha : a = .event (.complete r o))
    (hq : s.reqs.get r = some q) (hT : s.resumed (.complete r o) = some ret.thread)
    (hres : s.Resumption ret (.completion r) (q.kind.args o))

section
variable {s : World} {a : Action}

theorem couvResume_returns {u : World} (hst : u.status = s.status) (L : ℕ) (src : Source)
    (args : List Value) : (u.couvResume L src args).returns = u.returns ∨
      ∃ ret, (u.couvResume L src args).returns = ret :: u.returns ∧ ret.thread = L ∧
        s.Resumption ret src args := by
  rcases couvResume_cases (s := u) L src args with
    hr | ⟨-, hr⟩ | ⟨w, hw, htruthy, hr⟩ | ⟨m, h, n, node, hw, -, -, -, hr⟩
  · exact .inl (by rw [hr])
  · exact .inl (by rw [hr]; rfl)
  · exact .inr ⟨⟨L, w, src, args⟩, by rw [hr]; rfl, rfl, hst ▸ hw, .inl ⟨rfl, rfl, htruthy⟩⟩
  · exact .inr ⟨⟨L, .input m h, .node n, node.values m u.mem.bufs.next⟩, by rw [hr]; rfl, rfl,
      hst ▸ hw, .inr ⟨m, h, n, rfl, rfl⟩⟩

theorem quiet_returns_luaYield (u : World) (boundary : Bool) (w : Wait) :
    (u.luaYield boundary w).returns = u.returns := by
  rcases luaYield_cases (s := u) boundary w with hr | ⟨L, -, -, -, hr⟩
  · rw [hr]
  · rw [hr]
    rfl

theorem execCall_returns {boundary : Bool} {L : ℕ} {c : Call} (hg : s.guardCall c) :
    (s.execCall boundary L c).returns = s.returns ∨
      ∃ ret, (s.execCall boundary L c).returns = ret :: s.returns ∧ s.Returned a ret := by
  rcases (execCall_spec boundary L hg).cases with
    ⟨m, h, -, hr⟩ | ⟨h, -, hr⟩ | hr | ⟨req, hr⟩ | ⟨t, req, ha, hr⟩
  · rcases couvPrimRead_cases (s := s) boundary L m h with
      ⟨-, hp⟩ | ⟨n, node, -, -, -, hp⟩ | hp
    · exact .inl (by rw [hr, hp, quiet_returns_luaYield])
    · exact .inr ⟨_, by rw [hr, hp]; rfl, .read m h n rfl rfl⟩
    · exact .inl (by rw [hr, hp])
  · left
    rw [hr]
    simp only [couvClose]
    split
    · rfl
    · exact quiet_returns_luaYield _ _ _
  · exact .inl (by rw [hr])
  · exact .inl (by rw [hr]; rfl)
  · left
    rw [hr, submit, quiet_returns_luaYield]
    rcases ha.state with ⟨rfl, -⟩ | ⟨rfl, -⟩ <;> rfl

theorem complete_returns {r : ℕ} {q : Req} (hq : s.reqs.get r = some q) (o : Outcome) :
    (s.complete r o).returns = s.returns ∨ ∃ ret,
      (s.complete r o).returns = ret :: s.returns ∧ s.Returned (.event (.complete r o)) ret := by
  rcases complete_cases hq o with ⟨-, he⟩ | ⟨hk, he⟩ | ⟨hk, hk', t, ht, he⟩
  · exact .inl (by rw [he]; rfl)
  · rw [he]
    -- close_cb: nobody to resume, or the thread of the handle
    obtain ⟨reg, -, ⟨-, he⟩ | ⟨hy, he⟩⟩ := closeCb_cases (s := s) (q.handle.getD 0) r
    · exact .inl (by rw [he]; rfl)
    · have htarget : s.target q = s.data (q.handle.getD 0) := by
        unfold target
        rw [hk]
        rfl
      have hT := resumed_complete hq (by rw [hk]; exact ReqKind.noConfusion)
        (fun _ => htarget ▸ hy) o
      rw [he]
      rcases couvResume_returns (s := s) (u := s.cleaned (q.handle.getD 0) r reg) rfl
          (s.data (q.handle.getD 0)) (.completion r) [] with hr | ⟨ret, hr, hthread, hres⟩
      · exact .inl hr
      · refine .inr ⟨ret, hr, .complete r o q rfl hq ?_ ?_⟩
        · rw [hT, htarget, hthread]
        · rw [hk]
          exact hres
  · -- the callbacks that resume unconditionally
    have hT := resumed_complete hq hk (fun h => absurd h hk') o
    have hst : World.status { t with reqs := s.reqs.free r } = s.status := by
      rcases ht with rfl | rfl <;> rfl
    have hrs : t.returns = s.returns := by rcases ht with rfl | rfl <;> rfl
    rw [he, ← hrs]
    rcases couvResume_returns hst (s.target q) (.completion r) (q.kind.args o) with
      hr | ⟨ret, hr, hthread, hres⟩
    · exact .inl hr
    · exact .inr ⟨ret, hr, .complete r o q rfl hq (hT.trans (congrArg some hthread.symm)) hres⟩

/-- One inversion for the returns after any action. -/
theorem exec_returns (hg : s.guard a) : (s.exec a).returns = s.returns ∨
    ∃ ret, (s.exec a).returns = ret :: s.returns ∧ s.Returned a ret := by
  cases a with
  | lua a =>
    cases a with
    | resume T args =>
      have hresume := couvResume_returns (s := s) (u := s) rfl T .lua args
      have hlua : (s.couvResume T .lua args).returns = s.returns ∨ ∃ ret,
          (s.couvResume T .lua args).returns = ret :: s.returns ∧
            s.Returned (.lua (.resume T args)) ret := by
        rcases hresume with hr | ⟨ret, hr, rfl, hres⟩
        · exact .inl hr
        · exact .inr ⟨ret, hr, .lua args rfl hres⟩
      simp only [exec, execLua]
      split
      · exact hlua
      · exact hlua
      · exact .inl rfl
    | yield boundary => exact .inl (quiet_returns_luaYield s boundary .yield)
    | create | finish | callReturn | uvRun | uvRunReturn => exact .inl rfl
  | handle m =>
    obtain ⟨hs', reg, input, he, -⟩ := (execHandle_spec (L := s.current.getD 0) hg.2).cases
    exact .inl (by simp only [exec, he])
  | call boundary c => exact execCall_returns hg.2
  | heap a =>
    exact .inl (execHeap_proj (fun _ _ => rfl) (fun _ _ => rfl) (fun _ _ => rfl) s a)
  | event e =>
    -- an input callback returns to the coroutine that reads
    cases hn : e.node with
    | some node =>
      obtain ⟨rd, he, -⟩ := inputEvent hg.2 hn
      have hst := takeRead_enqueue_status (s := s) rd node
      have hrs : ((s.takeRead rd).enqueue node).returns = s.returns := by cases rd <;> rfl
      simp only [exec, he, inputCb, takeRead_enqueue_yielded]
      split
      · next hyes =>
        have hT : s.resumed e = some (s.data node.handle) := by
          rw [resumed_node hn, if_pos hyes]
        rw [← hrs]
        rcases couvResume_returns hst (s.data node.handle) (.input node.handle) [] with
          hr | ⟨ret, hr, hthread, hres⟩
        · exact .inl hr
        · exact .inr ⟨ret, hr, .input e node rfl hn (hT.trans (congrArg some hthread.symm)) hres⟩
      · exact .inl hrs
    | none =>
      cases e with
      | readCb | read2Cb | udpRecvCb => cases hn
      | complete r o =>
        obtain ⟨q, hq, -⟩ := hg.2
        exact complete_returns hq o
      | alloc h n env =>
        exact .inl (couvBufAllocCb_proj (fun _ _ => rfl) (fun _ _ => rfl) s h n env)
      | timerCb | exitCb | connectionCb => exact .inl rfl
  | gc g =>
    cases g with
    | buffer b => exact .inl (collectBuffer_proj (fun _ _ => rfl) s b)
    | thread | handle | string => exact .inl rfl

end
end World

theorem ownerStep_of_used {s : World} {a : Action} (hs : AwakeOk s) (hg : s.guard a)
    (hu : UsedByCreator s a) : OwnerStep s a := by
  -- Lua code has linked handles only, and their `handle->data` is their creator
  have hdata : ∀ h types usable, s.Has h types usable → (∃ x ∈ s.handles.get h,
      s.current = some x.creator) → s.current = some (s.data h) := by
    rintro h types usable ⟨x, hx, hl, -⟩ ⟨x', hx', hcur⟩
    obtain rfl := Option.some.inj ((Option.mem_def.mp hx).symm.trans hx')
    rw [World.data_of_get hx, hs.own h x hx hl]
    exact hcur
  cases a with
  | lua | heap | event | gc => trivial
  | handle m =>
    cases m with
    | tcpOpen h ok =>
      cases ok with
      | false => trivial
      | true => exact .inl (hdata h _ _ hg.2 (hu h rfl))
    | tcpNew | udpNew | pipeNew | ttyNew | timerNew | spawn | listen | timerStart | timerStop
    | timerAgain | timerSetRepeat | readStart | readStop => trivial
  | call boundary c =>
    intro _ h hwait
    have hgc := hg.2
    cases c with
    | sleep | getaddrinfo | fs | fsRead | fsWrite => cases hwait
    | read m k =>
      simp only [World.waitsOn] at hwait
      split at hwait
      · obtain rfl := Option.some.inj hwait
        exact hdata k _ _ hgc (hu k rfl)
      · cases hwait
    | write k t ok | write2 k t ok | send k t ok =>
      simp only [World.waitsOn] at hwait
      split at hwait
      · obtain rfl := Option.some.inj hwait
        exact hdata k _ _ hgc.1 (hu k rfl)
      · cases hwait
    | shutdown k ok | tcpConnect k ok =>
      simp only [World.waitsOn] at hwait
      split at hwait
      · obtain rfl := Option.some.inj hwait
        exact hdata k _ _ hgc (hu k rfl)
      · cases hwait
    | pipeConnect k | close k =>
      obtain rfl := Option.some.inj hwait
      exact hdata k _ _ hgc (hu k rfl)

theorem openStep_of_used {s : World} {a : Action} (hu : UsedByCreator s a) : OpenStep s a := by
  intro h hh
  apply hu h
  cases a with
  | handle m =>
    cases m with
    | tcpOpen k ok =>
      cases ok with
      | false => cases hh
      | true => exact hh
    | tcpNew | udpNew | pipeNew | ttyNew | timerNew | spawn | listen | timerStart | timerStop
    | timerAgain | timerSetRepeat | readStart | readStop => cases hh
  | lua | call | heap | event | gc => cases hh

/-- The condition of a run in which no coroutine leaves its calls early. -/
def OwnStep (s : World) (a : Action) : Prop := (s.guard a ∧ UsedByCreator s a) ∧ SingleWait s a

/-- What such a run keeps. -/
structure CompletionOk (s : World) : Prop where
  awake : AwakeOk s
  served : ServedOk s

namespace CompletionOk
variable {s : World} (hs : CompletionOk s) {a : Action}
include hs

theorem exec (h : OwnStep s a) : CompletionOk (s.exec a) where
  awake := hs.awake.exec h.1.1 (openStep_of_used h.1.2)
  served := hs.served.exec h.1.1 (ownerStep_of_used hs.awake h.1.1 h.1.2) h.2

/-- Whom a callback resumes, waits for a request that it made itself. -/
theorem caller_of_wait {r : ℕ} {q : Req} {T : ℕ} (hq : s.reqs.get r = some q)
    (hst : s.status T = some (.suspended (.req r))) : q.caller = T := by
  obtain ⟨q', hq', htarget⟩ := hs.served.wait.req T r hst
  obtain rfl := Option.some.inj (hq.symm.trans hq')
  rcases hs.served.pending r q hq with hcaller | ⟨-, -, hmain⟩
  · obtain ⟨q', hq', htarget'⟩ := hs.served.wait.req _ r hcaller
    obtain rfl := Option.some.inj (hq.symm.trans hq')
    exact htarget'.symm.trans htarget
  · rw [← htarget, hmain] at hst
    exact absurd hst (hs.served.main _)

end CompletionOk

theorem completionOk_init : CompletionOk .init := ⟨awakeOk_init, servedOk_init⟩

/-- A read returns a node that was queued on its handle. -/
theorem ownResult_node {as : List Action} (he : couv.Enabled .init as) {ret : Return}
    (hret : ret ∈ (couv.run .init as).returns) {m : InputMode} {h n : ℕ}
    (hwait : ret.wait = .input m h) (hsrc : ret.source = .node n) : OwnResult as ret := by
  obtain ⟨m', h', node, b, hwait', hn, hget, hvalues⟩ :=
    (run_receivedOk he).values ret hret n hsrc
  rw [hwait] at hwait'
  cases hwait'
  simp only [OwnResult, hwait]
  exact ⟨n, node, b, hsrc, hn, hget, hvalues⟩

theorem ownResult {as : List Action} (h : couv.Along OwnStep .init as) {ret : Return}
    (hret : ret ∈ (couv.run .init as).returns) : OwnResult as ret := by
  have he : couv.Enabled .init as := (Machine.along_and.mp (Machine.along_and.mp h).1).1
  -- the step at which the coroutine goes on
  obtain ⟨pre, a, post, rfl, hbefore, hafter⟩ :=
    Machine.exists_step (P := fun s : World => ret ∈ s.returns) List.not_mem_nil hret
  obtain ⟨hpre, hstep, -⟩ := Machine.along_append.mp h
  have hs : CompletionOk (couv.run .init pre) :=
    Machine.run_invariant (fun _ _ hs hp => hs.exec hp) completionOk_init hpre
  have hreturned : World.Returned (couv.run .init pre) a ret := by
    rcases World.exec_returns hstep.1.1 with hr | ⟨ret', hr, hreturned⟩
    · exact absurd (hr ▸ hafter) hbefore
    · have hmem : ret ∈ ret' :: (couv.run .init pre).returns := hr ▸ hafter
      obtain rfl := (List.mem_cons.mp hmem).resolve_right hbefore
      exact hreturned
  -- one case for each way in which a coroutine goes on
  cases hreturned with
  | read m h n hwait hsrc => exact ownResult_node he hret hwait hsrc
  | lua args ha hres =>
    subst ha
    have hin : World.inCall (couv.run .init pre) ret.thread = false := hstep.2
    unfold World.inCall at hin
    rw [hres.waited] at hin
    cases hw : ret.wait with
    | input | req => rw [hw] at hin; cases hin
    | yield =>
      simp only [OwnResult, hw]
      rcases hres.result with ⟨hsrc, -⟩ | ⟨m, h, n, hwait, -⟩
      · exact hsrc
      · rw [hw] at hwait
        cases hwait
  | input e node ha hn hT hres =>
    subst ha
    obtain ⟨w, hst, hserves⟩ := hs.served.onlyWaiterResumed hstep.2 e rfl _ hT
    have hw : ret.wait = w := Status.suspended.inj (Option.some.inj (hres.waited.symm.trans hst))
    rcases hres.result with ⟨-, -, htruthy⟩ | ⟨m, h, n, hwait, hsrc⟩
    · -- it waits for input, and is resumed with nothing
      cases w with
      | yield => cases hserves
      | input m h => exact absurd (htruthy m h hw) Bool.noConfusion
      | req r =>
        obtain ⟨o, q, rfl, -⟩ := hserves
        cases hn
    · exact ownResult_node he hret hwait hsrc
  | complete r o q ha hq hT hres =>
    subst ha
    obtain ⟨w, hst, hserves⟩ := hs.served.onlyWaiterResumed hstep.2 _ rfl _ hT
    have hw : ret.wait = w := Status.suspended.inj (Option.some.inj (hres.waited.symm.trans hst))
    cases w with
    | yield => cases hserves
    | input m h =>
      obtain ⟨node, hn, -⟩ := hserves
      cases hn
    | req r' =>
      obtain ⟨o', q', he', -⟩ := hserves
      obtain ⟨rfl, -⟩ := Event.complete.inj he'
      simp only [OwnResult, hw]
      rcases hres.result with ⟨hsrc, hvalues, -⟩ | ⟨m, h, n, hwait, -⟩
      · exact ⟨pre, post, o, q, rfl, hq, hs.caller_of_wait hq hst, hsrc, hvalues⟩
      · rw [hw] at hwait
        cases hwait

/-- In every run in which handles are used by their creators and no coroutine leaves a call
early, couv_resume is applied to a coroutine that waits in the call being served only, a
coroutine leaves a call by the callback that serves it only, and every call returns the result
of its own request or an input node. -/
theorem no_foreign_completion {as : List Action} (he : couv.Enabled .init as)
    (hu : couv.Along UsedByCreator .init as) (hw : couv.Along SingleWait .init as) :
    couv.Along OnlyWaiterResumed .init as ∧ couv.Along LeftServed .init as ∧
      ∀ ret ∈ (couv.run .init as).returns, OwnResult as ret := by
  have hsteps : couv.Along OwnStep .init as :=
    Machine.along_and.mpr ⟨Machine.along_and.mpr ⟨he, hu⟩, hw⟩
  refine ⟨?_, ?_, fun ret => ownResult hsteps⟩
  · exact Machine.along_of_invariant (fun _ _ hs hp => hs.exec hp)
      (fun _ _ hs hp => hs.served.onlyWaiterResumed hp.2) completionOk_init hsteps
  · exact Machine.along_of_invariant (fun _ _ hs hp => hs.exec hp)
      (fun _ _ hs hp => fun _ _ hst => hs.served.woken_served hp.1.1 hp.2 hst)
      completionOk_init hsteps

theorem no_foreign_completion_shutdown :
    couv.Along OnlyWaiterResumed .init ownShutdown ∧
      OwnResult ownShutdown ⟨1, .req 0, .completion 0, []⟩ :=
  have h := no_foreign_completion (show couv.Enabled .init ownShutdown by decide)
    (by decide) (by decide)
  ⟨h.1, h.2.2 _ List.mem_cons_self⟩

/-- The input of a handle arrives while its coroutine waits for a shutdown of it. -/
def inputFirst : List Action := [.lua .create, .lua (.resume 1 []), .handle (.tcpNew true),
  .handle (.readStart .read 0 true), .call false (.shutdown 0 true), .lua .uvRun,
  .event (.readCb 0 (-1) none 0 [])]

theorem foreign_completion : ¬∀ as : List Action, couv.Enabled .init as →
    couv.Along UsedByCreator .init as →
    couv.Along OnlyWaiterResumed .init as ∧ couv.Along LeftServed .init as ∧
      ∀ ret ∈ (couv.run .init as).returns, OwnResult as ret := by
  intro hall
  obtain ⟨-, -, hret⟩ := hall inputFirst (by decide) (by decide)
  obtain ⟨pre, post, o, q, -, -, -, hsrc, -⟩ :=
    hret ⟨1, .req 0, .input 0, []⟩ List.mem_cons_self
  cases hsrc

end Couv
