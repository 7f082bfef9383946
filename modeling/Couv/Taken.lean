import Couv.Delivery

/-! Which node a step hands to which reading method. -/
namespace Couv

/-- The node `node` of the queue of `handle` has been read by `mode`. -/
structure Taken where
  mode : InputMode
  handle : ℕ
  node : ℕ
  deriving DecidableEq, Repr

def Return.taken (r : Return) : Option Taken :=
  match r.wait, r.source with
  | .input m h, .node n => some ⟨m, h, n⟩
  | _, _ => none

theorem Return.taken_eq_some {r : Return} {x : Taken} :
    r.taken = some x ↔ r.wait = .input x.mode x.handle ∧ r.source = .node x.node := by
  unfold Return.taken
  split
  · next m h n hw hn =>
    rw [hw, hn, Option.some.injEq, Wait.input.injEq, Source.node.injEq]
    constructor
    · rintro rfl
      exact ⟨⟨rfl, rfl⟩, rfl⟩
    · rintro ⟨⟨rfl, rfl⟩, rfl⟩
      rfl
  · next hne => exact iff_of_false (by rintro ⟨⟩) (fun h => hne _ _ _ h.1 h.2)

/-- What a coroutine that is resumed with `args` reads again. -/
def World.reading (s : World) (T : ℕ) (args : List Value) : Option (InputMode × ℕ) :=
  match s.status T with
  | some (.suspended (.input m h)) => if (args.headD .nil).truthy then none else some (m, h)
  | _ => none

/-- What the callback of an event resumes with. -/
def World.eventArgs (s : World) : Event → List Value
  | .complete r o => ((s.reqs.get r).map (fun q => q.kind.args o)).getD []
  | _ => []

/-- The reading method that a step runs, and the handle. -/
def World.readBy (s : World) : Action → Option (InputMode × ℕ)
  | .call _ (.read m h) => some (m, h)
  | .lua (.resume T args) => s.reading T args
  | .event e => (s.resumed e).bind fun T => s.reading T (s.eventArgs e)
  | _ => none

/-- The head of the queue that is read. -/
def Input.take (i : Input) (rd : Option (InputMode × ℕ)) : Option Taken :=
  rd.bind fun p => (i.queued p.2).head?.map (Taken.mk p.1 p.2)

/-- The node that a step hands over. -/
def World.takes (s : World) (a : Action) : Option Taken := (s.input.fed a).take (s.readBy a)

/-- Between `s` and `t` the nodes `o` have been read, and returned. -/
structure Took (s t : World) (o : Option Taken) : Prop where
  unlinked : ∀ k, t.input.unlinked k =
    s.input.unlinked k ++ (o.filter (fun x => x.handle = k)).toList.map (·.node)
  returns : t.returns.filterMap Return.taken = o.toList ++ s.returns.filterMap Return.taken

section
variable {s t u : World}

theorem took_none (hi : t.input.unlinked = s.input.unlinked) (hr : t.returns = s.returns) :
    Took s t none := ⟨fun k => by simp [hi], by simp [hr]⟩

theorem Took.of_eq {o : Option Taken} (h : Took u t o)
    (hi : u.input.unlinked = s.input.unlinked) (hr : u.returns = s.returns) : Took s t o :=
  ⟨fun k => hi ▸ h.unlinked k, hr ▸ h.returns⟩

theorem took_log {r : Return} (hr : ∀ n, r.source ≠ .node n) : Took s (s.log r) none := by
  have htaken : r.taken = none := by
    unfold Return.taken
    split
    · next n _ hn => exact absurd hn (hr n)
    · rfl
  exact ⟨fun k => by simp [World.log], by simp [World.log, htaken]⟩

theorem took_deliver (L : ℕ) (m : InputMode) (h n : ℕ) (node : InputNode) :
    Took s (s.deliver L m h n node) (some ⟨m, h, n⟩) := by
  refine ⟨?_, by simp [World.deliver, Return.taken]⟩
  intro k
  by_cases hk : h = k
  · subst hk
    simp [World.deliver, Option.filter]
  · simp [World.deliver, Option.filter, hk, Ne.symm hk]

theorem took_luaYield (boundary : Bool) (w : Wait) : Took s (s.luaYield boundary w) none := by
  rcases World.luaYield_cases (s := s) boundary w with hr | ⟨L, -, -, -, hr⟩ <;>
    rw [hr] <;> exact took_none rfl rfl

/-- A reading method takes the head of its queue. -/
theorem took_couvPrimRead (hq : QueueOk s.handles s.input) (boundary : Bool) (L : ℕ)
    (m : InputMode) {h : ℕ} (hroot : h ∈ s.input.roots) :
    Took s (s.couvPrimRead boundary L m h) (s.input.take (some (m, h))) := by
  have hring := hq.ring h hroot
  cases hcase : s.input.queued h with
  | nil =>
    rw [hcase] at hring
    have hempty := (ngxQueueEmpty_iff hring).mpr rfl
    simp only [World.couvPrimRead, hempty, if_true, Input.take, Option.bind_some, hcase,
      List.head?_nil, Option.map_none]
    exact took_luaYield boundary _
  | cons n ns =>
    rw [hcase] at hring
    have hempty : ngxQueueEmpty s.input.links (.root h) = false := by
      rw [← Bool.not_eq_true, ngxQueueEmpty_iff hring]
      exact List.cons_ne_nil n ns
    obtain ⟨node, -, hn, -⟩ := hq.node h n (hq.queued_sub (hcase ▸ List.mem_cons_self))
    simp only [World.couvPrimRead, hempty, Bool.false_eq_true, if_false, ngxQueueHead_eq hring, hn,
      Input.take, Option.bind_some, hcase, List.head?_cons, Option.map_some]
    exact took_deliver L m h n node

theorem took_couvResume (hq : QueueOk s.handles s.input) (hw : WaitsOk s.handles s.status)
    (T : ℕ) {src : Source} (hsrc : ∀ n, src ≠ .node n) (args : List Value) :
    Took s (s.couvResume T src args) (s.input.take (s.reading T args)) := by
  have hstart : Took s (s.start T) none := took_none rfl rfl
  have hlog : ∀ w, Took s ((s.start T).log ⟨T, w, src, args⟩) none := fun w =>
    (took_log hsrc).of_eq rfl rfl
  -- one case for each status; only a coroutine in a read loop may read
  simp only [World.couvResume]
  split
  · next m h hst =>
    simp only [World.reading, hst]
    split
    · exact hlog _
    · obtain ⟨x, hx, hl, htype⟩ := hw T m h hst
      have hroot := hq.root h x hx hl (InputMode.plain_of_mem htype)
      exact (took_couvPrimRead (s := s.start T) hq false T m hroot).of_eq rfl rfl
  · next w hne hst =>
    have hre : s.reading T args = none := by
      unfold World.reading
      split
      · next m h hst' => exact absurd (hst.symm.trans hst') (by simpa using hne m h)
      · rfl
    rw [hre]
    exact hlog _
  · next hst =>
    simp only [World.reading, hst]
    exact hstart
  · next hst =>
    simp only [World.reading, hst]
    exact hstart
  · next hinput _ _ _ =>
    have hre : s.reading T args = none := by
      unfold World.reading
      split
      · next m h hst => exact absurd hst (hinput m h)
      · rfl
    rw [hre]
    exact took_none rfl rfl

private theorem took_complete (hs : s.InputOk) {r : ℕ} {q : Req} (hq : s.reqs.get r = some q)
    (o : Outcome) : Took s (s.complete r o) (s.takes (.event (.complete r o))) := by
  have hargs : s.eventArgs (.complete r o) = q.kind.args o := by
    simp only [World.eventArgs, hq, Option.map_some, Option.getD_some]
  have hidle : s.resumed (.complete r o) = none → s.takes (.event (.complete r o)) = none := by
    intro hn
    simp only [World.takes, World.readBy, hn, Option.bind_none, Input.take]
  -- the callback resumes `T` in a state with the queues and coroutines of `s`
  have hresume : ∀ {u : World} {T : ℕ}, s.resumed (.complete r o) = some T →
      QueueOk u.handles u.input → WaitsOk u.handles u.status → u.input = s.input →
      u.status = s.status → u.returns = s.returns →
      Took s (u.couvResume T (.completion r) (q.kind.args o))
        (s.takes (.event (.complete r o))) := by
    intro u T hT hqueue hwaits hi hst hr
    have hre : s.reading T (q.kind.args o) = u.reading T (q.kind.args o) := by
      simp only [World.reading, hst]
    have htakes : s.takes (.event (.complete r o)) =
        u.input.take (u.reading T (q.kind.args o)) := by
      simp only [World.takes, World.readBy, hT, Option.bind_some, hargs, hre, hi]
      rfl
    rw [htakes]
    exact (took_couvResume hqueue hwaits T (fun _ => Source.noConfusion) _).of_eq
      (congrArg Input.unlinked hi) hr
  -- sleep_cb resumes no one, and close_cb only a coroutine that has yielded
  rcases World.complete_cases hq o with ⟨hk, he⟩ | ⟨hk, he⟩ | ⟨hk, hk', t, ht, he⟩
  · have hnone : s.resumed (.complete r o) = none := by
      simp only [World.resumed, hq, Option.bind_some, hk]
    rw [he, hidle hnone]
    exact took_none rfl rfl
  · have htarget : s.target q = s.data (q.handle.getD 0) := by
      unfold World.target
      rw [hk]
      rfl
    have hres : s.resumed (.complete r o) = if s.yielded (s.data (q.handle.getD 0)) then
        some (s.data (q.handle.getD 0)) else none := by
      simp only [World.resumed, hq, Option.bind_some, hk, htarget]
    rw [he]
    obtain ⟨reg, -, ⟨hy, he⟩ | ⟨hy, he⟩⟩ := World.closeCb_cases (s := s) (q.handle.getD 0) r
    · rw [he, hidle (by rw [hres, hy]; rfl)]
      exact took_none rfl rfl
    · have hclean := hs.cleaned (q.handle.getD 0) r reg
      have hnil : q.kind.args o = [] := by rw [hk]; rfl
      rw [he, ← hnil]
      exact hresume (by rw [hres, hy]; rfl) hclean.queue hclean.waits rfl rfl rfl
  · have hres := World.resumed_complete hq hk (fun h => absurd h hk') o
    rw [he]
    rcases ht with rfl | rfl
    · exact hresume hres hs.queue hs.waits rfl rfl rfl
    · exact hresume hres hs.queue hs.waits rfl rfl rfl

private theorem took_inputCb (hs : s.InputOk) {e : Event} {node : InputNode}
    (hn : e.node = some node) {x : Handle} (hx : s.handles.get node.handle = some x)
    (hl : x.linked = true) (ht : x.type ∈ node.mode.types) (rd : Option UvRead) :
    Took s (s.inputCb node rd) (s.takes (.event e)) := by
  have hroot := hs.queue.root _ x hx hl (InputMode.plain_of_mem ht)
  have happend := (hs.queue.append hx ht hroot).1
  have hinput := World.takeRead_enqueue_input (s := s) rd node
  have hhandles := World.takeRead_enqueue_handles (s := s) rd node
  have hstatus := World.takeRead_enqueue_status (s := s) rd node
  have hreturns : ((s.takeRead rd).enqueue node).returns = s.returns := by cases rd <;> rfl
  have hunlinked : ((s.takeRead rd).enqueue node).input.unlinked = s.input.unlinked := by
    rw [hinput]
    rfl
  have hfed : s.input.fed (.event e) = s.input.append node := by
    simp only [Input.fed, Action.node, hn]
  have hargs : s.eventArgs e = [] := by
    cases e with
    | complete => cases hn
    | readCb | read2Cb | udpRecvCb | alloc | timerCb | exitCb | connectionCb => rfl
  simp only [World.inputCb, World.takeRead_enqueue_yielded]
  split
  · next hyes =>
    -- the node that is taken is the first of the queue after this one is appended
    have htakes : s.takes (.event e) = ((s.takeRead rd).enqueue node).input.take
        (((s.takeRead rd).enqueue node).reading (s.data node.handle) []) := by
      simp only [World.takes, World.readBy, World.resumed_node hn, if_pos hyes, Option.bind_some,
        hargs, hfed, hinput, World.reading, hstatus]
    rw [htakes]
    exact (took_couvResume (by rw [hinput, hhandles]; exact happend)
      (by rw [hhandles, hstatus]; exact hs.waits) _ (fun _ => Source.noConfusion) _).of_eq
      hunlinked hreturns
  · next hno =>
    simp only [World.takes, World.readBy, World.resumed_node hn, if_neg hno, Option.bind_none,
      Input.take]
    exact took_none hunlinked hreturns

private theorem took_execCall (hs : s.InputOk) (boundary : Bool) (L : ℕ) {c : Call}
    (hg : s.guardCall c) :
    Took s (s.execCall boundary L c) (s.takes (.call boundary c)) := by
  by_cases hread : ∃ m h, c = .read m h
  · obtain ⟨m, h, rfl⟩ := hread
    obtain ⟨x, hx, hl, -, htype, -⟩ := hg
    have hroot := hs.queue.root h x hx hl (InputMode.plain_of_mem htype)
    exact took_couvPrimRead hs.queue boundary L m hroot
  · have hne : ∀ m h, c ≠ .read m h := fun m h he => hread ⟨m, h, he⟩
    have hnone : s.takes (.call boundary c) = none := by
      cases c with
      | read m h => exact absurd rfl (hne m h)
      | write | write2 | send | shutdown | tcpConnect | pipeConnect | close | sleep
      | getaddrinfo | fs | fsRead | fsWrite => rfl
    rw [hnone]
    -- the other calls leave a request, and may yield
    rcases (World.execCall_spec boundary L hg).cases with
      ⟨m, h, rfl, -⟩ | ⟨h, -, hr⟩ | hr | ⟨req, hr⟩ | ⟨t, req, ha, hr⟩
    · exact absurd rfl (hne m h)
    · rw [hr]
      simp only [World.couvClose]
      split
      · exact took_none rfl rfl
      · exact (took_luaYield boundary _).of_eq rfl rfl
    · rw [hr]
      exact took_none rfl rfl
    · rw [hr]
      exact took_none rfl rfl
    · rw [hr, World.submit]
      rcases ha.state with ⟨rfl, -⟩ | ⟨rfl, -⟩ <;>
        exact (took_luaYield boundary _).of_eq rfl rfl

/-- One inversion for what has been read, after any action. -/
theorem exec_took (hs : s.InputOk) {a : Action} (hg : s.guard a) :
    Took s (s.exec a) (s.takes a) := by
  cases a with
  | lua a =>
    cases a with
    | create | finish | callReturn | uvRun | uvRunReturn => exact took_none rfl rfl
    | yield boundary => exact took_luaYield boundary .yield
    | resume T args =>
      have hresume : Took s (s.couvResume T .lua args) (s.takes (.lua (.resume T args))) :=
        took_couvResume hs.queue hs.waits T (fun _ => Source.noConfusion) args
      simp only [World.exec, World.execLua]
      split
      · exact hresume
      · exact hresume
      · -- coroutine.resume rejects the coroutine
        next hne hne' =>
        have hnone : s.takes (.lua (.resume T args)) = none := by
          simp only [World.takes, World.readBy, World.reading]
          split
          · next m h hst => exact absurd hst (hne' _)
          · rfl
        rw [hnone]
        exact took_none rfl rfl
  | handle m =>
    -- the three outcomes of the methods of a handle: none takes a node from its queue
    obtain ⟨hs', reg, input, he, -, ⟨-, rfl⟩ | ⟨x, -, -, hin⟩ | ⟨k, x, f, -, -, -, -, -, rfl⟩⟩ :=
      (World.execHandle_spec (L := s.current.getD 0) hg.2).cases
    · simp only [World.exec, he]
      exact took_none rfl rfl
    · simp only [World.exec, he]
      rcases hin with ⟨rfl, -⟩ | ⟨rfl, -⟩ <;> exact took_none rfl rfl
    · simp only [World.exec, he]
      exact took_none rfl rfl
  | call boundary c => exact took_execCall hs boundary _ hg.2
  | heap a =>
    exact took_none (World.execHeap_proj (f := fun s : World => s.input.unlinked)
      (fun _ _ => rfl) (fun _ _ => rfl) (fun _ _ => rfl) s a)
      (World.execHeap_proj (fun _ _ => rfl) (fun _ _ => rfl) (fun _ _ => rfl) s a)
  | event e =>
    cases hn : e.node with
    | some node =>
      obtain ⟨rd, he, -, ⟨x, hx, hl, hr⟩, -⟩ := World.inputEvent hg.2 hn
      simp only [World.exec, he]
      exact took_inputCb hs hn hx hl (hs.queue.reading _ x _ hx hr) rd
    | none =>
      cases e with
      | readCb | read2Cb | udpRecvCb => cases hn
      | alloc h n env =>
        exact took_none (World.couvBufAllocCb_proj (f := fun s : World => s.input.unlinked)
          (fun _ _ => rfl) (fun _ _ => rfl) s h n env)
          (World.couvBufAllocCb_proj (fun _ _ => rfl) (fun _ _ => rfl) s h n env)
      | timerCb | exitCb | connectionCb => exact took_none rfl rfl
      | complete r o =>
        obtain ⟨q, hq, -⟩ := hg.2
        exact took_complete hs hq o
  | gc g =>
    cases g with
    | thread | handle | string => exact took_none rfl rfl
    | buffer b =>
      exact took_none (World.collectBuffer_proj (f := fun s : World => s.input.unlinked)
        (fun _ _ => rfl) s b) (World.collectBuffer_proj (fun _ _ => rfl) s b)

/-- What has been read changes exactly by the steps that hand over a node. -/
theorem exec_unlinked (hs : s.InputOk) {a : Action} (hg : s.guard a) :
    (s.exec a).input.unlinked = s.input.unlinked ↔ s.takes a = none := by
  have htook := (exec_took hs hg).unlinked
  cases ho : s.takes a with
  | none => exact iff_of_true (funext fun k => by simp [htook k, ho]) rfl
  | some x =>
    refine iff_of_false ?_ (Option.some_ne_none x)
    intro he
    have hk := htook x.handle
    rw [congrFun he] at hk
    simp [ho, Option.filter] at hk

end
end Couv
