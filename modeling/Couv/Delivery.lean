import Couv.InputQueue

/-! What the reading methods return, and when their coroutines wait. -/
namespace Couv

/-- The node of `h` that a call returned. -/
def Return.nodeOn (r : Return) (h : ℕ) : Option ℕ :=
  match r.wait, r.source with
  | .input _ k, .node n => if k = h then some n else none
  | _, _ => none

/-- The nodes that _read, _read2 and _recv have returned for `h`, oldest first. -/
def receivedOn (rs : List Return) (h : ℕ) : List ℕ := rs.reverse.filterMap (·.nodeOn h)

/-- Every node that a call returned was unlinked for it. -/
structure ReceivedOk (rs : List Return) (i : Input) : Prop where
  order : ∀ h, receivedOn rs h = i.unlinked h
  values : ∀ r ∈ rs, ∀ n, r.source = .node n → ∃ m h node b, r.wait = .input m h ∧
    n ∈ i.unlinked h ∧ i.nodes.get n = some node ∧ r.values = node.values m b

def World.ReceivedOk (s : World) : Prop := Couv.ReceivedOk s.returns s.input

theorem receivedOk_init : World.init.ReceivedOk := ⟨fun _ => rfl, fun _ h => nomatch h⟩

theorem receivedOn_cons (r : Return) (rs : List Return) (h : ℕ) :
    receivedOn (r :: rs) h = receivedOn rs h ++ (r.nodeOn h).toList := by
  unfold receivedOn
  rw [List.reverse_cons, List.filterMap_append]
  cases hn : r.nodeOn h <;> simp [hn]

namespace World.ReceivedOk
variable {s : World} (hs : s.ReceivedOk)
include hs

/-- A return of other values. -/
theorem log {r : Return} (hr : ∀ n, r.source ≠ .node n) : (s.log r).ReceivedOk := by
  have hnode : ∀ h, r.nodeOn h = none := by
    intro h
    unfold Return.nodeOn
    split
    · next n _ hn => exact absurd hn (hr n)
    · rfl
  constructor
  · intro h
    rw [World.log, receivedOn_cons, hnode]
    simpa using hs.order h
  · intro r' hr' n hn
    rcases List.mem_cons.mp hr' with rfl | hr'
    · exact absurd hn (hr n)
    · exact hs.values r' hr' n hn

theorem deliver (L : ℕ) (m : InputMode) (h n : ℕ) {node : InputNode}
    (hn : s.input.nodes.get n = some node) : (s.deliver L m h n node).ReceivedOk := by
  constructor
  · intro k
    have hcons := receivedOn_cons ⟨L, .input m h, .node n, node.values m s.mem.bufs.next⟩
      s.returns k
    have hold := hs.order k
    by_cases hk : h = k
    · subst hk
      simpa [Return.nodeOn, hold, World.deliver] using hcons
    · simpa [Return.nodeOn, hold, World.deliver, hk, Ne.symm hk] using hcons
  · intro r hr n' hn'
    rcases List.mem_cons.mp hr with rfl | hr
    · obtain rfl := Source.node.inj hn'
      exact ⟨m, h, node, _, rfl, by simp [World.deliver], hn, rfl⟩
    · obtain ⟨m', h', node', b, h1, h2, h3, h4⟩ := hs.values r hr n' hn'
      refine ⟨m', h', node', b, h1, ?_, h3, h4⟩
      simp only [World.deliver]
      split
      · next he => exact List.mem_append_left _ (he ▸ h2)
      · exact h2

theorem enqueue (node : InputNode) : (s.enqueue node).ReceivedOk := by
  refine ⟨hs.order, ?_⟩
  intro r hr n hn
  obtain ⟨m, h, node', b, h1, h2, h3, h4⟩ := hs.values r hr n hn
  exact ⟨m, h, node', b, h1, h2, s.input.nodes.alloc_get_of_some h3, h4⟩

theorem luaYield (boundary : Bool) (w : Wait) : (s.luaYield boundary w).ReceivedOk := by
  rcases luaYield_cases (s := s) boundary w with hr | ⟨L, -, -, -, hr⟩
  · rw [hr]
    exact hs
  · rw [hr]
    exact hs

theorem couvPrimRead (boundary : Bool) (L : ℕ) (m : InputMode) (h : ℕ) :
    (s.couvPrimRead boundary L m h).ReceivedOk := by
  rcases couvPrimRead_cases (s := s) boundary L m h with ⟨-, hr⟩ | ⟨n, node, -, -, hn, hr⟩ | hr
  · rw [hr]
    exact hs.luaYield boundary _
  · rw [hr]
    exact hs.deliver L m h n hn
  · rw [hr]
    exact hs

theorem couvResume (L : ℕ) {src : Source} (hsrc : ∀ n, src ≠ .node n) (args : List Value) :
    (s.couvResume L src args).ReceivedOk := by
  have hstart : (s.start L).ReceivedOk := hs
  rcases couvResume_cases (s := s) L src args with
    hr | ⟨-, hr⟩ | ⟨w, -, -, hr⟩ | ⟨m, h, n, node, -, -, -, hn, hr⟩
  · rw [hr]
    exact hs
  · rw [hr]
    exact hstart
  · rw [hr]
    exact hstart.log hsrc
  · rw [hr]
    exact hstart.deliver L m h n hn

theorem execHandle {L : ℕ} {a : HandleAct} (hg : s.guardHandle a) :
    (s.execHandle L a).ReceivedOk := by
  obtain ⟨hs', reg, input, he, -, ⟨-, rfl⟩ | ⟨x, -, -, ⟨rfl, -⟩ | ⟨rfl, -⟩⟩ |
    ⟨h, x, f, -, -, -, -, -, rfl⟩⟩ := (execHandle_spec (L := L) hg).cases
  all_goals
    rw [he]
    exact ⟨hs.order, hs.values⟩

theorem execCall (boundary : Bool) (L : ℕ) {c : Call} (hg : s.guardCall c) :
    (s.execCall boundary L c).ReceivedOk := by
  rcases (execCall_spec boundary L hg).cases with
    ⟨m, h, -, hr⟩ | ⟨h, -, hr⟩ | hr | ⟨req, hr⟩ | ⟨t, req, ha, hr⟩
  · rw [hr]
    exact hs.couvPrimRead boundary L m h
  · have hclose : World.ReceivedOk (newReq (s.modifyHandle h
        (fun x => { x with closing := true, armed := false, reading := none }))
          ⟨.close, some h, 0, L, .none, [], []⟩) := hs
    rw [hr]
    simp only [couvClose]
    split
    · exact hclose
    · exact hclose.luaYield boundary _
  · rw [hr]
    exact hs
  · rw [hr]
    exact hs
  · have hnew : (t.newReq req).ReceivedOk := by
      rcases ha.state with ⟨rfl, -⟩ | ⟨rfl, -⟩ <;> exact hs
    rw [hr]
    exact hnew.luaYield boundary _

theorem complete (r : ℕ) (o : Outcome) : (s.complete r o).ReceivedOk := by
  have hsrc : ∀ n, Source.completion r ≠ .node n := fun _ => Source.noConfusion
  cases hr : s.reqs.get r with
  | none => simpa only [World.complete, hr] using hs
  | some q =>
    rcases complete_cases hr o with ⟨-, he⟩ | ⟨-, he⟩ | ⟨-, -, t, ht, he⟩
    · rw [he]
      exact hs
    · have hclean : ∀ reg, (s.cleaned (q.handle.getD 0) r reg).ReceivedOk := fun _ => hs
      rw [he]
      obtain ⟨reg, -, ⟨-, he⟩ | ⟨-, he⟩⟩ := closeCb_cases (s := s) (q.handle.getD 0) r
      · rw [he]
        exact hclean reg
      · rw [he]
        exact (hclean reg).couvResume _ hsrc _
    · have hfree : World.ReceivedOk { t with reqs := s.reqs.free r } := by
        rcases ht with rfl | rfl <;> exact hs
      rw [he]
      exact hfree.couvResume _ hsrc _

theorem execEvent {e : Event} (hg : s.guardEvent e) : (s.execEvent e).ReceivedOk := by
  cases hn : e.node with
  | some node =>
    obtain ⟨rd, he, -⟩ := inputEvent hg hn
    have hqueue : ((s.takeRead rd).enqueue node).ReceivedOk := by
      cases rd with
      | none => exact hs.enqueue node
      | some rd => exact hs.enqueue node
    rw [he]
    simp only [inputCb]
    split
    · exact hqueue.couvResume _ (fun _ => Source.noConfusion) _
    · exact hqueue
  | none =>
    cases e with
    | readCb | read2Cb | udpRecvCb => cases hn
    | complete r o => exact hs.complete r o
    | alloc h n env =>
      exact (couvBufAllocCb_proj (f := World.ReceivedOk) (fun _ _ => rfl) (fun _ _ => rfl)
        s h n env).mpr hs
    | timerCb h => exact hs
    | exitCb h => exact hs
    | connectionCb h => exact hs

theorem exec {a : Action} (hg : s.guard a) : (s.exec a).ReceivedOk := by
  cases a with
  | lua a =>
    cases a with
    | resume T args =>
      simp only [World.exec, execLua]
      split
      · exact hs.couvResume T (fun _ => Source.noConfusion) args
      · exact hs.couvResume T (fun _ => Source.noConfusion) args
      · exact hs
    | yield boundary => exact hs.luaYield boundary .yield
    | create | finish | callReturn | uvRun | uvRunReturn => exact hs
  | handle m => exact hs.execHandle hg.2
  | call boundary c => exact hs.execCall boundary _ hg.2
  | heap a =>
    exact (execHeap_proj (f := World.ReceivedOk) (fun _ _ => rfl) (fun _ _ => rfl)
      (fun _ _ => rfl) s a).mpr hs
  | event e => exact hs.execEvent hg.2
  | gc g =>
    cases g with
    | buffer b =>
      exact (collectBuffer_proj (f := World.ReceivedOk) (fun _ _ => rfl) s b).mpr hs
    | thread | handle | string => exact hs

end World.ReceivedOk
theorem run_receivedOk {as : List Action} (he : couv.Enabled .init as) :
    (couv.run .init as).ReceivedOk :=
  Machine.run_invariant (fun _ _ hs hg => hs.exec hg) receivedOk_init he

/-! No lost wake-up. -/

/-- The handle that tcp_open takes over. -/
def Action.opens : Action → Option ℕ
  | .handle (.tcpOpen h true) => some h
  | _ => none

/-- A tcp handle is opened by the coroutine that made it. -/
def OpenStep (s : World) (a : Action) : Prop :=
  ∀ h ∈ a.opens, ∃ x ∈ s.handles.get h, s.current = some x.creator

instance (s : World) (a : Action) : Decidable (OpenStep s a) :=
  inferInstanceAs (Decidable (∀ h ∈ a.opens, ∃ x ∈ s.handles.get h, _))

structure AwakeOk (s : World) : Prop where
  stack : s.StackOk
  input : s.InputOk
  own : ∀ h x, s.handles.get h = some x → x.linked = true → x.data = x.creator
  empty : ∀ m h x, s.handles.get h = some x →
    s.status x.creator = some (.suspended (.input m h)) → s.input.queued h = []

theorem awakeOk_init : AwakeOk .init where
  stack := stackOk_init
  input := inputOk_init
  own _ _ h := nomatch h
  empty _ _ _ h := nomatch h

/-- Resuming a coroutine that waits for a queue with a node in it. -/
theorem World.couvResume_running {s : World} {L h n : ℕ} {m : InputMode} {ns : List ℕ}
    (hst : s.status L = some (.suspended (.input m h)))
    (hq : IsQueue s.input.links h (n :: ns)) (src : Source) :
    (s.couvResume L src []).status L = some .running := by
  have hstart : (s.start L).status L = some .running := s.status_setStatus_self _ hst
  have hne : ¬ngxQueueEmpty (s.start L).input.links (.root h) = true := by
    intro he
    cases (ngxQueueEmpty_iff hq).mp he
  unfold couvResume
  rw [hst]
  simp only [List.headD_nil, Value.truthy, Bool.false_eq_true, if_false]
  rcases couvPrimRead_cases (s := s.start L) false L m h with ⟨he, -⟩ | ⟨k, node, -, -, -, hr⟩ | hr
  · exact absurd he hne
  · rw [hr]
    exact hstart
  · rw [hr]
    exact hstart

namespace World.InputOk
variable {s : World} (hs : s.InputOk)
include hs

/-- A node for a handle wakes `handle->data`, if that waits for it. -/
theorem wakes {e : Event} {node : InputNode} (hg : s.guardEvent e) (hn : e.node = some node)
    {m : InputMode} {T : ℕ} (hdata : s.data node.handle = T)
    (hst : s.status T = some (.suspended (.input m node.handle)))
    (hempty : s.input.queued node.handle = []) : (s.execEvent e).status T = some .running := by
  obtain ⟨rd, he, -, ⟨x, hx, hl, hr⟩, -⟩ := inputEvent hg hn
  have htype := hs.queue.reading _ x _ hx hr
  have hroot := hs.queue.root _ x hx hl (InputMode.plain_of_mem htype)
  obtain ⟨happend, hqueued, -⟩ := hs.queue.append hx htype hroot
  have hring := happend.ring node.handle hroot
  rw [hqueued, hempty] at hring
  have hinput := takeRead_enqueue_input (s := s) rd node
  have hstatus := takeRead_enqueue_status (s := s) rd node
  have hyield : ((s.takeRead rd).enqueue node).yielded T = true :=
    (yielded_iff _).mpr ⟨_, hstatus ▸ hst⟩
  rw [he]
  simp only [inputCb]
  rw [hdata, if_pos hyield]
  exact couvResume_running (hstatus ▸ hst) (hinput ▸ hring) _

/-- The queue of a handle stays empty while `handle->data` waits for its input. -/
theorem stays_empty {a : Action} (hg : s.guard a) {m : InputMode} {h T : ℕ}
    (hdata : s.data h = T) (hst : s.status T = some (.suspended (.input m h)))
    (hempty : s.input.queued h = [])
    (hlater : (s.exec a).status T = some (.suspended (.input m h))) :
    (s.exec a).input.queued h = [] := by
  refine (hs.queueStep_exec hg).nil h ?_
  unfold Input.fed
  cases hn : a.node with
  | none => exact hempty
  | some node =>
    by_cases hh : node.handle = h
    · exfalso
      subst hh
      cases a with
      | event e =>
        -- this callback would have woken T
        have hrun := hs.wakes hg.2 hn hdata hst hempty
        rw [show (s.exec (.event e)).status T = some .running from hrun] at hlater
        cases hlater
      | lua | handle | call | heap | gc => cases hn
    · simpa [Input.queued, Input.append, Ne.symm hh] using hempty

/-- A read waits only when it has found the queue empty. -/
theorem starts_empty {boundary : Bool} {m : InputMode} {h : ℕ}
    (hg : s.guard (.call boundary (.read m h)))
    (hempty : ngxQueueEmpty s.input.links (.root h) = true) :
    (s.exec (.call boundary (.read m h))).input.queued h = [] := by
  obtain ⟨-, x, hx, hl, -, ht, -⟩ := id hg
  have hroot := hs.queue.root h x hx hl (InputMode.plain_of_mem ht)
  exact (hs.queueStep_exec hg).nil h ((ngxQueueEmpty_iff (hs.queue.ring h hroot)).mp hempty)

end World.InputOk

namespace AwakeOk
variable {s : World} (hs : AwakeOk s)
include hs

theorem own_exec {a : Action} (hg : s.guard a) (hopen : OpenStep s a) {h : ℕ} {y : Handle}
    (hy : (s.exec a).handles.get h = some y) (hl : y.linked = true) : y.data = y.creator := by
  rcases (World.exec_handles hg).cases with he | ⟨m, L, x, rfl, -, hx, he, -⟩ |
    ⟨k, x, f, hget, he, hf⟩
  · exact hs.own h y (he ▸ hy) hl
  · rw [he] at hy
    rcases s.handles.alloc_eq_some.mp hy with ⟨-, rfl⟩ | ⟨-, hy⟩
    · exact (hx.data hl).trans hx.creator.symm
    · exact hs.own h y hy hl
  · rw [he] at hy
    rcases s.handles.modify_eq_some.mp hy with ⟨rfl, x', hx', rfl⟩ | ⟨-, hy⟩
    · obtain rfl := Option.some.inj (hget.symm.trans hx')
      rw [hf.creator]
      rcases hf.data with hd | ⟨rfl, -, hcur⟩
      · exact hd.trans (hs.own h x hget (hf.linked.symm.trans hl))
      · obtain ⟨x', hx', hcr⟩ := hopen h rfl
        obtain rfl := Option.some.inj (hget.symm.trans hx')
        exact Option.some.inj (hcur.symm.trans hcr)
    · exact hs.own h y hy hl

theorem exec {a : Action} (hg : s.guard a) (hopen : OpenStep s a) : AwakeOk (s.exec a) := by
  refine ⟨hs.stack.exec hg, hs.input.exec hs.stack hg, fun h y => hs.own_exec hg hopen, ?_⟩
  intro m h y hy hst
  rcases World.exec_suspended hs.stack hg hst with hold | ⟨-, -, rfl, hempty⟩
  · obtain ⟨x, hx, hl, -⟩ := hs.input.waits _ m h hold
    obtain ⟨y', hy', -, hcr, -⟩ := World.exec_handle hg hx
    obtain rfl := Option.some.inj (hy.symm.trans hy')
    rw [hcr] at hold hst
    have hdata : s.data h = x.creator := by
      unfold World.data
      rw [hx]
      exact hs.own h x hx hl
    exact hs.input.stays_empty hg hdata hold (hs.empty m h x hx hold) hst
  · exact hs.input.starts_empty hg hempty

end AwakeOk

/-- In every reachable state, for every handle with a queue: the ring is well formed and holds,
in order, exactly the nodes that the callbacks of this handle have appended and the reading
methods have not yet returned; and while the coroutine that made the handle waits for its
input, the queue is empty. -/
theorem input_delivered {as : List Action} (he : couv.Enabled .init as) {h : ℕ} {x : Handle}
    (hx : (couv.run .init as).handles.get h = some x) (hl : x.linked = true)
    (ht : x.type.plain = false) :
    (∃ ns, IsQueue (couv.run .init as).input.links h ns ∧
      receivedOn (couv.run .init as).returns h ++ ns = (couv.run .init as).input.appended h) ∧
    ((couv.run .init as).input.appended h).Nodup ∧
    (∀ n ∈ (couv.run .init as).input.appended h,
      ∃ node ∈ (couv.run .init as).input.nodes.get n, node.handle = h) ∧
    (couv.Along OpenStep .init as → ∀ m,
      (couv.run .init as).status x.creator = some (.suspended (.input m h)) →
        ngxQueueEmpty (couv.run .init as).input.links (.root h) = true) := by
  have hqueue := (run_inputOk he).2.queue
  have hring := hqueue.ring h (hqueue.root h x hx hl ht)
  have hreceived := run_receivedOk he
  refine ⟨⟨_, hring, ?_⟩, hqueue.nodup h, ?_, ?_⟩
  · rw [hreceived.order]
    exact (hqueue.order h).symm
  · intro n hn
    obtain ⟨node, -, hget, hh, -⟩ := hqueue.node h n hn
    exact ⟨node, hget, hh⟩
  · intro hopen m hst
    -- the coroutine waits only if nothing is in the queue
    have hok : AwakeOk (couv.run .init as) :=
      Machine.run_invariant (fun _ _ hs hp => hs.exec hp.1 hp.2) awakeOk_init
        (Machine.along_and.mpr ⟨he, hopen⟩)
    exact (ngxQueueEmpty_iff hring).mpr (hok.empty m h x hx hst)

/-- A coroutine reads a chunk and waits for the next one. -/
def readTwice : List Action := [.lua .create, .lua (.resume 1 []), .handle (.tcpNew true),
  .handle (.readStart .read 0 true), .call false (.read .read 0), .lua .uvRun,
  .event (.alloc 0 2 ⟨true, fun _ => 0, ⟨none, none, 0⟩⟩),
  .event (.readCb 0 1 (some ⟨0, 0, 2⟩) 0 []), .call false (.read .read 0)]

theorem input_delivered_read :
    ngxQueueEmpty (couv.run .init readTwice).input.links (.root 0) = true :=
  (input_delivered (show couv.Enabled .init readTwice by decide) rfl rfl rfl).2.2.2
    (by decide) .read rfl

end Couv
