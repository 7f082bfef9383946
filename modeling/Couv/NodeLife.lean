import Couv.BlockLife
import Couv.Cleanup
import Couv.Taken

/-! How long an input node lives. No function frees one: it stays allocated when its data has
been handed to Lua, and when its handle is closed with the node in its queue. -/
namespace Couv

/-- The nodes that have been read, and those of closed handles, have been freed; then they are
no longer among those that refer to a block. -/
structure NodesReleased (s : World) : Prop where
  read : ∀ h, ∀ n ∈ s.input.unlinked h, s.input.nodes.get n = none
  closed : ∀ n node x, s.input.nodes.get n = some node → s.handles.get node.handle = some x →
    x.closed = false

/-- The handle from which a coroutine that is resumed with `args` reads again. -/
def World.rereads (s : World) (T : ℕ) (args : List Value) : Option ℕ :=
  match s.status T with
  | some (.suspended (.input _ h)) => if (args.headD .nil).truthy then none else some h
  | _ => none

/-- The step takes a node from a queue and hands it to Lua. -/
def Delivers (s : World) : Action → Prop
  | .call _ (.read _ h) => s.input.queued h ≠ []
  | .lua (.resume T args) => ∃ h ∈ s.rereads T args, s.input.queued h ≠ []
  | .event e => ∃ T ∈ s.resumed e, ∃ h ∈ s.rereads T (s.eventArgs e),
    (s.input.fed (.event e)).queued h ≠ []
  | _ => False

instance (s : World) : DecidablePred (Delivers s)
  | .call _ (.read _ h) => inferInstanceAs (Decidable (s.input.queued h ≠ []))
  | .lua (.resume T args) => inferInstanceAs (Decidable (∃ h ∈ s.rereads T args, _))
  | .event e => inferInstanceAs (Decidable (∃ T ∈ s.resumed e, ∃ h ∈ s.rereads T _, _))
  | .call _ (.write _ _ _) | .call _ (.write2 _ _ _) | .call _ (.send _ _ _)
  | .call _ (.shutdown _ _) | .call _ (.tcpConnect _ _) | .call _ (.pipeConnect _)
  | .call _ (.close _) | .call _ (.sleep _) | .call _ (.getaddrinfo _) | .call _ (.fs _ _)
  | .call _ (.fsRead _ _ _ _ _ _) | .call _ (.fsWrite _ _ _ _ _ _) | .lua .create
  | .lua (.yield _) | .lua (.finish _) | .lua .callReturn | .lua .uvRun | .lua .uvRunReturn
  | .handle _ | .heap _ | .gc _ => isFalse id

/-- The step reads no node and closes no handle that has unread nodes. -/
def NodeStep (s : World) (a : Action) : Prop :=
  ¬Delivers s a ∧ ∀ h ∈ s.closes a, s.input.queued h = []

instance (s : World) (a : Action) : Decidable (NodeStep s a) :=
  inferInstanceAs (Decidable (_ ∧ ∀ h ∈ s.closes a, _))

section
variable {s : World}

theorem rereads_eq (T : ℕ) (args : List Value) :
    s.rereads T args = (s.reading T args).map Prod.snd := by
  simp only [World.rereads, World.reading]
  cases hst : s.status T with
  | none => rfl
  | some st =>
    cases st with
    | suspended w =>
      cases w with
      | input m h => simp only [apply_ite (Option.map Prod.snd), Option.map_some, Option.map_none]
      | yield | req => rfl
    | fresh | running | finished => rfl

theorem take_eq_none {i : Input} {rd : Option (InputMode × ℕ)} :
    i.take rd = none ↔ ¬∃ h ∈ rd.map Prod.snd, i.queued h ≠ [] := by
  cases rd <;> simp [Input.take]

theorem takes_eq_none {a : Action} : s.takes a = none ↔ ¬Delivers s a := by
  unfold World.takes
  rw [take_eq_none]
  cases a with
  | lua a =>
    cases a with
    | resume T args => simp only [Delivers, World.readBy, rereads_eq]; rfl
    | create | yield | finish | callReturn | uvRun | uvRunReturn => simp [Delivers, World.readBy]
  | call boundary c =>
    cases c with
    | read m h => simp [Delivers, World.readBy]; rfl
    | write | write2 | send | shutdown | tcpConnect | pipeConnect | close | sleep
    | getaddrinfo | fs | fsRead | fsWrite => simp [Delivers, World.readBy]
  | event e =>
    simp only [Delivers, World.readBy, rereads_eq]
    cases s.resumed e <;> simp
  | handle | heap | gc => simp [Delivers, World.readBy]

/-! The nodes that have been allocated. -/

/-- The nodes and the queues they were appended to; reading does not change these. -/
def World.fedNodes (s : World) : Store InputNode × (ℕ → List ℕ) :=
  (s.input.nodes, s.input.appended)

theorem passive_fedNodes : Passive World.fedNodes :=
  ⟨⟨fun _ _ _ => rfl, fun _ => rfl, fun _ _ => rfl, fun _ _ => rfl⟩, fun _ _ _ _ _ _ => rfl⟩

theorem exec_fedNodes {a : Action} (hg : s.guard a) :
    (s.exec a).fedNodes = ((s.input.fed a).nodes, (s.input.fed a).appended) := by
  cases a with
  | lua a => exact passive_fedNodes.execLua s _ a
  | handle m =>
    obtain ⟨hs', reg, input, he, -, ⟨-, rfl⟩ | ⟨x, -, -, hin⟩ | ⟨k, x, f, -, -, -, -, -, rfl⟩⟩ :=
      (World.execHandle_spec (L := s.current.getD 0) hg.2).cases
    · simp only [World.exec, he]
      rfl
    · simp only [World.exec, he]
      rcases hin with ⟨rfl, -⟩ | ⟨rfl, -⟩ <;> rfl
    · simp only [World.exec, he]
      rfl
  | call boundary c =>
    exact passive_fedNodes.execCall (fun _ _ => rfl) (fun _ _ => rfl) (fun _ _ => rfl)
      boundary _ hg.2
  | heap a =>
    exact World.execHeap_proj (f := World.fedNodes) (fun _ _ => rfl) (fun _ _ => rfl)
      (fun _ _ => rfl) s a
  -- only the input callbacks append a node
  | event e =>
    cases hn : e.node with
    | some node =>
      obtain ⟨rd, he, -⟩ := World.inputEvent hg.2 hn
      have hfed : s.input.fed (.event e) = s.input.append node := by
        simp only [Input.fed, Action.node, hn]
      have hqueue : ((s.takeRead rd).enqueue node).fedNodes =
          ((s.input.append node).nodes, (s.input.append node).appended) := by
        cases rd <;> rfl
      simp only [World.exec, he, World.inputCb, hfed]
      split
      · rw [passive_fedNodes.couvResume, hqueue]
      · exact hqueue
    | none =>
      have hfed : s.input.fed (.event e) = s.input := by
        simp only [Input.fed, Action.node, hn]
      rw [hfed]
      cases e with
      | readCb | read2Cb | udpRecvCb => cases hn
      | alloc h n env =>
        exact World.couvBufAllocCb_proj (f := World.fedNodes) (fun _ _ => rfl) (fun _ _ => rfl)
          s h n env
      | timerCb | exitCb | connectionCb => rfl
      | complete r o =>
        obtain ⟨q, hq, -⟩ := hg.2
        exact passive_fedNodes.complete (fun _ _ => rfl) (fun _ _ => rfl) (fun _ _ => rfl) hq o
  | gc g =>
    cases g with
    | thread | handle | string => rfl
    | buffer b => exact World.collectBuffer_proj (f := World.fedNodes) (fun _ _ => rfl) s b

end

/-- Queues and handles are in order, and every node was appended to the queue of its handle. -/
structure NodeOk (s : World) : Prop where
  stack : s.StackOk
  input : s.InputOk
  life : s.LifeOk
  appended : ∀ n node, s.input.nodes.get n = some node → n ∈ s.input.appended node.handle ∧
    ∃ x, s.handles.get node.handle = some x ∧ x.linked = true

theorem nodeOk_init : NodeOk .init :=
  ⟨stackOk_init, inputOk_init, lifeOk_init, fun _ _ h => nomatch h⟩

namespace NodeOk
variable {s : World} {a : Action} (hs : NodeOk s)
include hs

theorem fed_appended (hg : s.guard a) {n : ℕ} {node : InputNode}
    (hn : (s.input.fed a).nodes.get n = some node) :
    n ∈ (s.input.fed a).appended node.handle ∧
      ∃ x, s.handles.get node.handle = some x ∧ x.linked = true := by
  unfold Input.fed at hn ⊢
  split at hn
  · next node' hnode =>
    rcases s.input.nodes.alloc_eq_some.mp hn with ⟨rfl, rfl⟩ | ⟨-, hn⟩
    · constructor
      · simp only [Input.append]
        exact List.mem_append_right _ List.mem_cons_self
      · cases a with
        | event e =>
          obtain ⟨rd, -, -, ⟨x, hx, hl, -⟩, -⟩ := World.inputEvent hg.2 hnode
          exact ⟨x, hx, hl⟩
        | lua | handle | call | heap | gc => cases hnode
    · obtain ⟨hmem, hx⟩ := hs.appended n node hn
      refine ⟨?_, hx⟩
      simp only [Input.append]
      split
      · exact List.mem_append_left _ hmem
      · exact hmem
  · exact hs.appended n node hn

theorem exec (hg : s.guard a) : NodeOk (s.exec a) := by
  refine ⟨hs.stack.exec hg, hs.input.exec hs.stack hg, hs.life.exec hg, ?_⟩
  intro n node hn
  obtain ⟨hnodes, happ⟩ := Prod.mk.inj (exec_fedNodes hg)
  rw [hnodes] at hn
  rw [happ]
  obtain ⟨hmem, x, hx, hl⟩ := hs.fed_appended hg hn
  obtain ⟨y, hy, -, -, hyl⟩ := World.exec_handle hg hx
  exact ⟨hmem, y, hy, hyl.trans hl⟩

/-- Nothing is freed, so nothing may have been read, and no closed handle may have a node. -/
theorem released_iff : NodesReleased s ↔ (∀ h, s.input.unlinked h = []) ∧
    ∀ h x, s.handles.get h = some x → x.closed = true → s.input.queued h = [] := by
  constructor
  · intro hr
    constructor
    · intro h
      rw [List.eq_nil_iff_forall_not_mem]
      intro n hn
      obtain ⟨node, x, hnode, -⟩ := hs.input.queue.node h n (by
        rw [hs.input.queue.order h]
        exact List.mem_append_left _ hn)
      exact Option.some_ne_none _ (hnode.symm.trans (hr.read h n hn))
    · intro h x hx hc
      rw [List.eq_nil_iff_forall_not_mem]
      intro n hn
      obtain ⟨node, x', hnode, hh, hx', -⟩ := hs.input.queue.node h n
        (hs.input.queue.queued_sub hn)
      have hopen := hr.closed n node x' hnode (hh ▸ hx')
      obtain rfl := Option.some.inj (hx.symm.trans hx')
      exact Bool.noConfusion (hc.symm.trans hopen)
  -- every node was appended, so it is read or in the queue
  · rintro ⟨hread, hclosed⟩
    constructor
    · intro h n hn
      rw [hread h] at hn
      cases hn
    · intro n node x hnode hx
      by_contra hopen
      have hmem := (hs.appended n node hnode).1
      rw [hs.input.queue.order, hread, hclosed _ x hx (by simpa using hopen)] at hmem
      cases hmem

/-- A closed handle gets no more input. -/
theorem fed_queued (hg : s.guard a) {h : ℕ} {x : Handle} (hx : s.handles.get h = some x)
    (hc : x.closed = true) : (s.input.fed a).queued h = s.input.queued h := by
  unfold Input.fed
  split
  · next node hnode =>
    cases a with
    | event e =>
      obtain ⟨rd, -, -, ⟨y, hy, hl, hr⟩, -⟩ := World.inputEvent hg.2 hnode
      have hopen := hs.life.known_of_active hy (.inr (by rw [hr]; rfl))
      have hne : h ≠ node.handle := by
        rintro rfl
        obtain rfl := Option.some.inj (hx.symm.trans hy)
        exact Bool.noConfusion (hc.symm.trans hopen.2)
      have htype := hs.input.queue.reading _ y _ hy hr
      exact (hs.input.queue.append hy htype
        (hs.input.queue.root _ y hy hl (InputMode.plain_of_mem htype))).2.2 h hne
    | lua | handle | call | heap | gc => cases hnode
  · rfl

theorem queued_exec (hg : s.guard a) {h : ℕ} {x : Handle} (hx : s.handles.get h = some x)
    (hc : x.closed = true) (hn : s.input.queued h = []) : (s.exec a).input.queued h = [] :=
  (hs.input.queueStep_exec hg).nil h ((hs.fed_queued hg hx hc).trans hn)

/-- The step of the condition, once nothing has been read and closed handles have no node. -/
theorem released_exec (hr : NodesReleased s) (hg : s.guard a) (hstep : NodeStep s a) :
    NodesReleased (s.exec a) := by
  obtain ⟨hread, hclosed⟩ := hs.released_iff.mp hr
  refine (hs.exec hg).released_iff.mpr ⟨?_, ?_⟩
  · intro h
    rw [(exec_unlinked hs.input hg).mpr (takes_eq_none.mpr hstep.1)]
    exact hread h
  · intro h y hy hc
    rcases World.exec_closed hs.life hg hy hc with ⟨x, hx, hxc⟩ | hclose
    · exact hs.queued_exec hg hx hxc (hclosed h x hx hxc)
    · obtain ⟨r, o, q, rfl, -⟩ := World.closes_eq_some.mp hclose
      exact (hs.input.queueStep_exec hg).nil h (hstep.2 h hclose)

/-- A step after which the nodes are still released meets the condition. -/
theorem nodeStep_of_released (hr : NodesReleased s) (hg : s.guard a)
    (hr' : NodesReleased (s.exec a)) : NodeStep s a := by
  obtain ⟨hread, -⟩ := hs.released_iff.mp hr
  obtain ⟨hread', -⟩ := (hs.exec hg).released_iff.mp hr'
  constructor
  · rw [← takes_eq_none, ← exec_unlinked hs.input hg]
    funext h
    rw [hread, hread']
  · intro h hclose
    rw [List.eq_nil_iff_forall_not_mem]
    intro n hn
    obtain ⟨node, x, hnode, hh, hx, -⟩ := hs.input.queue.node h n
      (hs.input.queue.queued_sub hn)
    -- the step has closed the handle of a node that is still there
    obtain ⟨y, hy, hyc⟩ := World.closes_closed hclose hx
    obtain ⟨r, o, q, rfl, -⟩ := World.closes_eq_some.mp hclose
    have hkept : (s.exec (.event (.complete r o))).input.nodes.get n = some node := by
      rw [(Prod.mk.inj (exec_fedNodes hg)).1]
      exact hnode
    exact Bool.noConfusion (hyc.symm.trans (hr'.closed n node y hkept (hh ▸ hy)))

/-- When all handles are closed no node is left, if the condition has been met. -/
theorem no_nodes (hr : NodesReleased s)
    (hall : ∀ h x, s.handles.get h = some x → x.linked = true → x.closed = true) (n : ℕ) :
    s.input.nodes.get n = none := by
  cases hn : s.input.nodes.get n with
  | none => rfl
  | some node =>
    obtain ⟨-, x, hx, hl⟩ := hs.appended n node hn
    exact Bool.noConfusion ((hall _ x hx hl).symm.trans (hr.closed n node x hn hx))

end NodeOk

theorem run_nodeOk {as : List Action} (he : couv.Enabled .init as) :
    NodeOk (couv.run .init as) :=
  Machine.run_invariant (fun _ _ hs hg => hs.exec hg) nodeOk_init he

/-- Without Buffers, nodes and reads no block is left. -/
theorem no_blocks {s : World} (hs : BlocksOk s) (hbufs : ∀ b, s.mem.bufs.get b = none)
    (hnodes : ∀ n, s.input.nodes.get n = none) (hreads : s.reads = []) (blk : ℕ) :
    s.mem.blocks.get blk = none := by
  cases hbl : s.mem.blocks.get blk with
  | none => rfl
  | some bl =>
    -- a live block is counted at least once, and nothing refers to this one
    have hpos := (hs.refs.counted.live blk bl.refCnt (by
      rw [Mem.cells, Store.map_get, hbl]
      rfl)).2.1
    have hzero : s.refs blk = 0 := by
      simp [World.refs, refCount, Store.count_eq_zero _ hbufs, Store.count_eq_zero _ hnodes, hreads]
    exact absurd hzero hpos.ne'

/-- Nodes are released after every part of a run if and only if no step of it reads a node or
closes a handle with unread nodes. If allocations succeed too, then nothing is outstanding once
all handles are closed, all Buffers are collected and libuv holds no buffer. -/
theorem nodes_released_iff {as : List Action} (he : couv.Enabled .init as) :
    (couv.Along NodeStep .init as ↔
      ∀ pre, pre <+: as → NodesReleased (couv.run .init pre)) ∧
    (couv.Along AllocStep .init as → couv.Along NodeStep .init as →
      (∀ h x, (couv.run .init as).handles.get h = some x → x.linked = true →
        x.closed = true) →
      (∀ n, (couv.run .init as).input.nodes.get n = none) ∧
      ((∀ b, (couv.run .init as).mem.bufs.get b = none) → (couv.run .init as).reads = [] →
        ∀ blk, (couv.run .init as).mem.blocks.get blk = none)) := by
  -- the step lemma along the run
  have hrun : ∀ {bs}, couv.Enabled .init bs → couv.Along NodeStep .init bs →
      NodesReleased (couv.run .init bs) := by
    intro bs hbs hstep
    have hinit : NodesReleased World.init := ⟨fun _ _ h => (nomatch h), fun _ _ _ h => nomatch h⟩
    exact (Machine.run_invariant (I := fun s => NodeOk s ∧ NodesReleased s)
      (fun s a hs hp => ⟨hs.1.exec hp.1, hs.1.released_exec hs.2 hp.1 hp.2⟩) ⟨nodeOk_init, hinit⟩
      (Machine.along_and.mpr ⟨hbs, hstep⟩)).2
  refine ⟨⟨?_, ?_⟩, ?_⟩
  · rintro hstep pre ⟨post, rfl⟩
    exact hrun (Machine.along_append.mp he).1 (Machine.along_append.mp hstep).1
  · intro hall
    rw [Machine.along_iff_split]
    rintro pre a post rfl
    have hsplit : pre ++ a :: post = (pre ++ [a]) ++ post := by simp
    obtain ⟨hpre, hg, -⟩ := Machine.along_append.mp he
    have hafter := hall (pre ++ [a]) ⟨post, hsplit.symm⟩
    rw [Machine.run_append] at hafter
    exact (run_nodeOk hpre).nodeStep_of_released (hall pre ⟨a :: post, rfl⟩) hg hafter
  · intro halloc hstep hclosed
    have hnodes := (run_nodeOk he).no_nodes (hrun he hstep) hclosed
    exact ⟨hnodes, fun hbufs hreads => no_blocks (run_blocksOk he halloc) hbufs hnodes hreads⟩

theorem nodes_released_tcp : NodesReleased (couv.run .init tcpClose) :=
  (nodes_released_iff (show couv.Enabled .init tcpClose by decide)).1.mp (by decide) tcpClose
    (List.prefix_refl _)

/-- Input for a tcp handle that is closed before anyone reads it. -/
def unreadClose : List Action := [.lua .create, .lua (.resume 1 []), .handle (.tcpNew true),
  .handle (.readStart .read 0 true), .lua (.yield false), .lua .uvRun,
  .event (.readCb 0 (-1) none 0 []), .lua (.yield false), .lua .uvRunReturn,
  .call false (.close 0), .lua .uvRun, .event (.complete 0 .ok)]

theorem unread_node_kept : ¬∀ as, couv.Enabled .init as →
    NodesReleased (couv.run .init as) := by
  intro hall
  have hopen := (hall unreadClose (by decide)).closed 0 _ _ rfl rfl
  cases hopen

end Couv
