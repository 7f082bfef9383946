import Couv.Stack

/-! The input queues: what the callbacks append, what the reading methods unlink, and the
coroutines that wait for input. -/
namespace Couv

/-- The nodes of `h` that are queued. -/
def Input.queued (i : Input) (h : ℕ) : List ℕ := (i.appended h).drop (i.unlinked h).length

/-- `deliver`, seen from the queues. -/
def Input.unlink (i : Input) (h n : ℕ) : Input :=
  { i with
    links := ngxQueueRemove i.links (.node n)
    unlinked := fun k => if k = h then i.unlinked h ++ [n] else i.unlinked k }

/-- `enqueue`, seen from the queues. -/
def Input.append (i : Input) (node : InputNode) : Input :=
  { i with
    links := ngxQueueInsertTail i.links (.root node.handle) (.node i.nodes.next)
    nodes := i.nodes.alloc node
    appended := fun k => if k = node.handle then i.appended k ++ [i.nodes.next] else i.appended k }

theorem World.takeRead_enqueue_input {s : World} (rd : Option UvRead) (node : InputNode) :
    ((s.takeRead rd).enqueue node).input = s.input.append node := by
  cases rd <;> rfl

/-- `initQueue`, seen from the queues. -/
def Input.initRoot (i : Input) (h : ℕ) : Input :=
  { i with links := ngxQueueInit i.links (.root h), roots := h :: i.roots }

structure QueueOk (hs : Store Handle) (i : Input) : Prop where
  root : ∀ h x, hs.get h = some x → x.linked = true → x.type.plain = false → h ∈ i.roots
  rootLt : ∀ h ∈ i.roots, h < hs.next
  reading : ∀ h x m, hs.get h = some x → x.reading = some m → x.type ∈ m.types
  ring : ∀ h ∈ i.roots, IsQueue i.links h (i.queued h)
  order : ∀ h, i.appended h = i.unlinked h ++ i.queued h
  noRoot : ∀ h, h ∉ i.roots → i.appended h = []
  node : ∀ h, ∀ n ∈ i.appended h, ∃ node x, i.nodes.get n = some node ∧ node.handle = h ∧
    hs.get h = some x ∧ x.type ∈ node.mode.types
  nodup : ∀ h, (i.appended h).Nodup

/-- The mode of a reading method fits classes with a queue only. -/
theorem InputMode.plain_of_mem {m : InputMode} {t : HandleType} (h : t ∈ m.types) :
    t.plain = false := by
  cases m <;> cases t <;> simp [InputMode.types, streamTypes] at h <;> rfl

namespace QueueOk
variable {hs : Store Handle} {i : Input} (hq : QueueOk hs i)
include hq

/-- A node lies in one queue only. -/
theorem handle_unique {h k n : ℕ} (hh : n ∈ i.appended h) (hk : n ∈ i.appended k) : h = k := by
  obtain ⟨node, -, hn, he, -⟩ := hq.node h n hh
  obtain ⟨node', -, hn', he', -⟩ := hq.node k n hk
  obtain rfl := Option.some.inj (hn.symm.trans hn')
  exact he.symm.trans he'

theorem queued_sub {h n : ℕ} (hn : n ∈ i.queued h) : n ∈ i.appended h := by
  rw [hq.order h]
  exact List.mem_append_right _ hn

theorem lt_next {h n : ℕ} (hn : n ∈ i.appended h) : n < i.nodes.next := by
  obtain ⟨node, -, hget, -⟩ := hq.node h n hn
  exact i.nodes.lt_next hget

/-- The head of a queue that is not empty. -/
theorem head {h n : ℕ} (hroot : h ∈ i.roots) (hne : ngxQueueEmpty i.links (.root h) = false)
    (hn : ngxQueueHead i.links (.root h) = .node n) : ∃ ns, i.queued h = n :: ns := by
  have hring := hq.ring h hroot
  cases hcase : i.queued h with
  | nil =>
    rw [hcase] at hring
    rw [(ngxQueueEmpty_iff hring).mpr rfl] at hne
    cases hne
  | cons n' ns =>
    rw [hcase] at hring
    have hhead := ngxQueueHead_eq hring
    rw [hn] at hhead
    obtain rfl := QAddr.node.inj hhead
    exact ⟨ns, rfl⟩

/-- Unlinking the head. -/
theorem unlink {h n : ℕ} {ns : List ℕ} (hroot : h ∈ i.roots) (hh : i.queued h = n :: ns) :
    QueueOk hs (i.unlink h n) ∧ (i.unlink h n).queued h = ns ∧
      ∀ k, k ≠ h → (i.unlink h n).queued k = i.queued k := by
  have hself : (i.unlink h n).queued h = ns := by
    have hdrop : (i.appended h).drop (i.unlinked h).length = n :: ns := hh
    have htail := congrArg (List.drop 1) hdrop
    rw [List.drop_drop] at htail
    simpa [Input.queued, Input.unlink, Nat.add_comm] using htail
  have hother : ∀ k, k ≠ h → (i.unlink h n).queued k = i.queued k := by
    intro k hk
    simp [Input.queued, Input.unlink, hk]
  refine ⟨⟨hq.root, hq.rootLt, hq.reading, ?_, ?_, hq.noRoot, hq.node, hq.nodup⟩, hself, hother⟩
  · intro k hk
    -- the queue of `h` loses its head, and no other queue shares a cell with it
    have hring := hq.ring h hroot
    rw [hh] at hring
    by_cases hkh : k = h
    · subst hkh
      rw [hself]
      exact ngxQueueRemove_isQueue hring
    · rw [hother k hkh]
      refine ngxQueueRemove_isQueue_other hring hkh (hq.ring k hk) ?_
      intro x hx hmem
      exact hkh (hq.handle_unique (hq.queued_sub hx) (hq.queued_sub (hh ▸ hmem)))
  · intro k
    by_cases hkh : k = h
    · subst hkh
      rw [hself]
      have horder := hq.order k
      rw [hh] at horder
      simpa [Input.unlink] using horder
    · rw [hother k hkh]
      simpa [Input.unlink, hkh] using hq.order k

/-- Appending a new node. -/
theorem append {node : InputNode} {x : Handle} (hx : hs.get node.handle = some x)
    (ht : x.type ∈ node.mode.types) (hroot : node.handle ∈ i.roots) :
    QueueOk hs (i.append node) ∧
      (i.append node).queued node.handle = i.queued node.handle ++ [i.nodes.next] ∧
      ∀ k, k ≠ node.handle → (i.append node).queued k = i.queued k := by
  have hfresh : ∀ k, i.nodes.next ∉ i.appended k := fun k hmem =>
    lt_irrefl _ (hq.lt_next hmem)
  have hself : (i.append node).queued node.handle =
      i.queued node.handle ++ [i.nodes.next] := by
    have hle : (i.unlinked node.handle).length ≤ (i.appended node.handle).length := by
      rw [hq.order node.handle, List.length_append]
      omega
    simp [Input.queued, Input.append, List.drop_append_of_le_length hle]
  have hother : ∀ k, k ≠ node.handle → (i.append node).queued k = i.queued k := by
    intro k hk
    simp [Input.queued, Input.append, hk]
  refine ⟨⟨hq.root, hq.rootLt, hq.reading, ?_, ?_, ?_, ?_, ?_⟩, hself, hother⟩
  · intro k hk
    -- the new cell is in no queue yet
    have hring := hq.ring node.handle hroot
    by_cases hkh : k = node.handle
    · subst hkh
      rw [hself]
      exact ngxQueueInsertTail_isQueue hring
        (fun hmem => hfresh _ (hq.queued_sub hmem))
    · rw [hother k hkh]
      refine ngxQueueInsertTail_isQueue_other hring hkh (hq.ring k hk) ?_
      intro y hy
      refine ⟨fun he => hfresh k (he ▸ hq.queued_sub hy), fun hmem => ?_⟩
      exact hkh (hq.handle_unique (hq.queued_sub hy) (hq.queued_sub hmem))
  · intro k
    by_cases hkh : k = node.handle
    · subst hkh
      rw [hself]
      simp only [Input.append, if_pos]
      rw [hq.order, List.append_assoc]
    · rw [hother k hkh]
      simpa [Input.append, hkh] using hq.order k
  · intro k hk
    have hkh : k ≠ node.handle := fun he => hk (he ▸ hroot)
    simpa [Input.append, hkh] using hq.noRoot k hk
  · intro k n hn
    by_cases hkh : k = node.handle
    · subst hkh
      simp only [Input.append, if_pos, List.mem_append, List.mem_singleton] at hn
      rcases hn with hn | rfl
      · obtain ⟨node', x', hget, hrest⟩ := hq.node _ n hn
        exact ⟨node', x', i.nodes.alloc_get_of_some hget, hrest⟩
      · exact ⟨node, x, i.nodes.alloc_get_self node, rfl, hx, ht⟩
    · simp only [Input.append, if_neg hkh] at hn
      obtain ⟨node', x', hget, hrest⟩ := hq.node k n hn
      exact ⟨node', x', i.nodes.alloc_get_of_some hget, hrest⟩
  · intro k
    by_cases hkh : k = node.handle
    · subst hkh
      simp only [Input.append, if_pos]
      rw [List.nodup_append_comm, List.singleton_append, List.nodup_cons]
      exact ⟨hfresh _, hq.nodup _⟩
    · simpa [Input.append, hkh] using hq.nodup k

/-- A change of a handle that keeps its class and whether it is linked. -/
theorem handlesModify {h : ℕ} {f : Handle → Handle} (hf : ∀ x, hs.get h = some x →
    (f x).type = x.type ∧ (f x).linked = x.linked ∧
      ∀ m, (f x).reading = some m → x.reading = some m ∨ x.type ∈ m.types) :
    QueueOk (hs.modify h f) i := by
  refine ⟨?_, hq.rootLt, ?_, hq.ring, hq.order, hq.noRoot, ?_, hq.nodup⟩
  · intro k y hy hl ht
    rcases hs.modify_eq_some.mp hy with ⟨rfl, x, hx, rfl⟩ | ⟨-, hy⟩
    · obtain ⟨h1, h2, -⟩ := hf x hx
      exact hq.root k x hx (h2.symm.trans hl) (h1 ▸ ht)
    · exact hq.root k y hy hl ht
  · intro k y m hy hm
    rcases hs.modify_eq_some.mp hy with ⟨rfl, x, hx, rfl⟩ | ⟨-, hy⟩
    · obtain ⟨h1, -, h3⟩ := hf x hx
      rw [h1]
      exact (h3 m hm).elim (hq.reading k x m hx) id
    · exact hq.reading k y m hy hm
  · intro k n hn
    obtain ⟨node, x, hget, he, hx, ht⟩ := hq.node k n hn
    by_cases hk : k = h
    · subst hk
      exact ⟨node, f x, hget, he, hs.modify_get_self f hx, (hf x hx).1 ▸ ht⟩
    · exact ⟨node, x, hget, he, (hs.modify_get_ne f hk).trans hx, ht⟩

/-- A new handle without a queue, or one whose queue is initialised. -/
theorem handlesAlloc {x : Handle} {i' : Input} (hr : x.reading = none)
    (hi : (i' = i ∧ (x.linked = true → x.type.plain = true)) ∨ i' = i.initRoot hs.next) :
    QueueOk (hs.alloc x) i' := by
  have hnew : hs.next ∉ i.roots := fun hmem => lt_irrefl _ (hq.rootLt _ hmem)
  have hreading : ∀ k y m, (hs.alloc x).get k = some y → y.reading = some m →
      y.type ∈ m.types := by
    intro k y m hy hm
    rcases hs.alloc_eq_some.mp hy with ⟨-, rfl⟩ | ⟨-, hy⟩
    · rw [hr] at hm
      cases hm
    · exact hq.reading k y m hy hm
  have hnode : ∀ k, ∀ n ∈ i.appended k, ∃ node y, i.nodes.get n = some node ∧ node.handle = k ∧
      (hs.alloc x).get k = some y ∧ y.type ∈ node.mode.types := by
    intro k n hn
    obtain ⟨node, y, hget, he, hy, ht⟩ := hq.node k n hn
    exact ⟨node, y, hget, he, hs.alloc_get_of_some hy, ht⟩
  -- without a queue, or with one that is empty
  rcases hi with ⟨rfl, hplain⟩ | rfl
  · refine ⟨?_, ?_, hreading, hq.ring, hq.order, hq.noRoot, hnode, hq.nodup⟩
    · intro k y hy hl ht
      rcases hs.alloc_eq_some.mp hy with ⟨-, rfl⟩ | ⟨-, hy⟩
      · rw [hplain hl] at ht
        cases ht
      · exact hq.root k y hy hl ht
    · exact fun k hk => Nat.lt_succ_of_lt (hq.rootLt k hk)
  · refine ⟨?_, ?_, hreading, ?_, hq.order, ?_, hnode, hq.nodup⟩
    · intro k y hy hl ht
      rcases hs.alloc_eq_some.mp hy with ⟨rfl, -⟩ | ⟨-, hy⟩
      · exact List.mem_cons_self
      · exact List.mem_cons_of_mem _ (hq.root k y hy hl ht)
    · intro k hk
      rcases List.mem_cons.mp hk with rfl | hk
      · exact Nat.lt_succ_self _
      · exact Nat.lt_succ_of_lt (hq.rootLt k hk)
    · intro k hk
      by_cases hkn : k = hs.next
      · subst hkn
        have hempty : (i.initRoot hs.next).queued hs.next = [] := by
          simp [Input.queued, Input.initRoot, hq.noRoot _ hnew]
        rw [hempty]
        exact ngxQueueInit_isQueue _ _
      · exact ngxQueueInit_isQueue_other hkn
          (hq.ring k ((List.mem_cons.mp hk).resolve_left hkn))
    · intro k hk
      exact hq.noRoot k (fun hmem => hk (List.mem_cons_of_mem _ hmem))

end QueueOk

/-! Coroutines that wait for input. -/

/-- A coroutine waits for input on a handle that has a queue. -/
def WaitsOk (hs : Store Handle) (st : ℕ → Option Status) : Prop :=
  ∀ T m h, st T = some (.suspended (.input m h)) →
    ∃ x, hs.get h = some x ∧ x.linked = true ∧ x.type ∈ m.types

structure InputOk (hs : Store Handle) (i : Input) (st : ℕ → Option Status) : Prop where
  queue : QueueOk hs i
  waits : WaitsOk hs st

def World.InputOk (s : World) : Prop := Couv.InputOk s.handles s.input s.status

theorem inputOk_init : World.init.InputOk where
  queue :=
    { root := fun _ _ h => nomatch h
      rootLt := fun _ h => nomatch h
      reading := fun _ _ _ h => nomatch h
      ring := fun _ h => nomatch h
      order := fun _ => rfl
      noRoot := fun _ _ => rfl
      node := fun _ _ h => nomatch h
      nodup := fun _ => List.nodup_nil }
  waits _ _ _ hst := nomatch (World.status_init hst).2

theorem quiet_input : Quiet World.input :=
  ⟨fun _ _ _ => rfl, fun _ => rfl, fun _ _ => rfl, fun _ _ => rfl⟩

namespace World

/-- A step of the queues that appends nothing. -/
structure QueueStep (hs : Store Handle) (i i' : Input) : Prop where
  ok : QueueOk hs i'
  nil : ∀ h, i.queued h = [] → i'.queued h = []
  nodes : i'.nodes = i.nodes

section
variable {s : World} (hq : QueueOk s.handles s.input)
include hq

theorem queueStep_unlink {h n : ℕ} {ns : List ℕ} (hroot : h ∈ s.input.roots)
    (hh : s.input.queued h = n :: ns) : QueueStep s.handles s.input (s.input.unlink h n) := by
  obtain ⟨hok, -, hother⟩ := hq.unlink hroot hh
  refine ⟨hok, ?_, rfl⟩
  intro k hk
  have hne : k ≠ h := by
    rintro rfl
    rw [hh] at hk
    cases hk
  exact (hother k hne).trans hk

theorem queueStep_couvPrimRead (boundary : Bool) (L : ℕ) {m : InputMode} {h : ℕ}
    (hh : ∃ x, s.handles.get h = some x ∧ x.linked = true ∧ x.type ∈ m.types) :
    QueueStep s.handles s.input (s.couvPrimRead boundary L m h).input := by
  obtain ⟨x, hx, hl, ht⟩ := hh
  have hroot := hq.root h x hx hl (InputMode.plain_of_mem ht)
  rcases couvPrimRead_cases (s := s) boundary L m h with ⟨-, hr⟩ | ⟨n, node, he, hn, -, hr⟩ | hr
  · rw [hr, quiet_input.luaYield]
    exact ⟨hq, fun _ => id, rfl⟩
  · obtain ⟨ns, hns⟩ := hq.head hroot he hn
    rw [hr]
    exact queueStep_unlink hq hroot hns
  · rw [hr]
    exact ⟨hq, fun _ => id, rfl⟩

theorem queueStep_couvResume (hw : WaitsOk s.handles s.status) (L : ℕ) (src : Source)
    (args : List Value) : QueueStep s.handles s.input (s.couvResume L src args).input := by
  rcases couvResume_cases (s := s) L src args with
    hr | ⟨-, hr⟩ | ⟨w, -, -, hr⟩ | ⟨m, h, n, node, hst, he, hn, -, hr⟩
  · rw [hr]
    exact ⟨hq, fun _ => id, rfl⟩
  · rw [hr, quiet_input.start]
    exact ⟨hq, fun _ => id, rfl⟩
  · rw [hr, quiet_input.log, quiet_input.start]
    exact ⟨hq, fun _ => id, rfl⟩
  · obtain ⟨x, hx, hl, ht⟩ := hw L m h hst
    have hroot := hq.root h x hx hl (InputMode.plain_of_mem ht)
    obtain ⟨ns, hns⟩ := hq.head hroot he hn
    rw [hr]
    exact queueStep_unlink hq hroot hns

end

namespace InputOk
variable {s : World} (hs : s.InputOk)
include hs

theorem queueStep_execHandle {L : ℕ} {a : HandleAct} (hg : s.guardHandle a) :
    QueueStep (s.execHandle L a).handles s.input (s.execHandle L a).input := by
  obtain ⟨hs', reg, input, he, -, ⟨rfl, rfl⟩ | ⟨x, hx, rfl, hin⟩ |
    ⟨h, x, f, hget, -, -, rfl, hf, rfl⟩⟩ := (execHandle_spec (L := L) hg).cases
  · rw [he]
    exact ⟨hs.queue, fun _ => id, rfl⟩
  · rw [he]
    refine ⟨hs.queue.handlesAlloc hx.idle.2.2.1 ?_, ?_, ?_⟩
    · exact hin.imp (fun h => ⟨h.1, fun hl => (h.2 hl).2⟩) (fun h => h.1)
    · rcases hin with ⟨rfl, -⟩ | ⟨rfl, -⟩ <;> exact fun _ => id
    · rcases hin with ⟨rfl, -⟩ | ⟨rfl, -⟩ <;> rfl
  · rw [he]
    refine ⟨hs.queue.handlesModify ?_, fun _ => id, rfl⟩
    intro y hy
    obtain rfl := Option.some.inj (hget.symm.trans hy)
    exact ⟨hf.type, hf.linked, fun m hm => (hf.reading m hm).imp_right (fun h => h.2)⟩

theorem queueStep_execCall (boundary : Bool) (L : ℕ) {c : Call} (hg : s.guardCall c) :
    QueueStep (s.execCall boundary L c).handles s.input (s.execCall boundary L c).input := by
  rcases (execCall_spec boundary L hg).cases with
    ⟨m, h, rfl, hr⟩ | ⟨h, -, hr⟩ | hr | ⟨req, hr⟩ | ⟨t, req, ha, hr⟩
  · obtain ⟨x, hx, hl, -, ht, -⟩ := hg
    rw [hr, passive_handles.couvPrimRead]
    exact queueStep_couvPrimRead hs.queue boundary L ⟨x, hx, hl, ht⟩
  · have hclose : QueueOk (s.handles.modify h
        (fun x => { x with closing := true, armed := false, reading := none })) s.input :=
      hs.queue.handlesModify (fun x _ => ⟨rfl, rfl, fun _ h => nomatch h⟩)
    rw [hr]
    simp only [couvClose]
    split
    · exact ⟨hclose, fun _ => id, rfl⟩
    · rw [submit, passive_handles.luaYield, quiet_input.luaYield]
      exact ⟨hclose, fun _ => id, rfl⟩
  · rw [hr]
    exact ⟨hs.queue, fun _ => id, rfl⟩
  · rw [hr]
    exact ⟨hs.queue, fun _ => id, rfl⟩
  · rw [hr, submit, passive_handles.luaYield, quiet_input.luaYield]
    rcases ha.state with ⟨rfl, -⟩ | ⟨rfl, -⟩ <;> exact ⟨hs.queue, fun _ => id, rfl⟩

/-- close_cb touches no queue and wakes no one before it has cleaned up. -/
theorem cleaned (h r : ℕ) (reg : RegKey → Option RegVal) : (s.cleaned h r reg).InputOk where
  queue := hs.queue.handlesModify (fun x _ => ⟨rfl, rfl, fun _ => .inl⟩)
  waits := by
    intro T m h' hst
    obtain ⟨x, hx, hl, ht⟩ := hs.waits T m h' hst
    by_cases hh : h' = h
    · subst hh
      exact ⟨_, s.handles.modify_get_self _ hx, hl, ht⟩
    · exact ⟨x, (s.handles.modify_get_ne _ hh).trans hx, hl, ht⟩

theorem queueStep_complete (r : ℕ) (o : Outcome) :
    QueueStep (s.complete r o).handles s.input (s.complete r o).input := by
  cases hr : s.reqs.get r with
  | none =>
    have he : s.complete r o = s := by simp only [complete, hr]
    rw [he]
    exact ⟨hs.queue, fun _ => id, rfl⟩
  | some q =>
    rcases complete_cases hr o with ⟨-, he⟩ | ⟨-, he⟩ | ⟨-, -, t, ht, he⟩
    · rw [he]
      exact ⟨hs.queue, fun _ => id, rfl⟩
    · rw [he]
      obtain ⟨reg, -, ⟨-, he⟩ | ⟨-, he⟩⟩ := closeCb_cases (s := s) (q.handle.getD 0) r
      · rw [he]
        exact ⟨(hs.cleaned _ r reg).queue, fun _ => id, rfl⟩
      · have hclean := hs.cleaned (q.handle.getD 0) r reg
        rw [he, passive_handles.couvResume]
        exact queueStep_couvResume hclean.queue hclean.waits _ _ _
    · rw [he, passive_handles.couvResume]
      rcases ht with rfl | rfl
      · exact queueStep_couvResume (s := { t with reqs := t.reqs.free r }) hs.queue hs.waits _ _ _
      · exact queueStep_couvResume
          (s := { s.couvRawsetp (.reqThread r) none with reqs := s.reqs.free r })
          hs.queue hs.waits _ _ _

/-- A node is appended, then the coroutine of its handle may unlink one. -/
theorem queueStep_inputCb {node : InputNode} {x : Handle}
    (hx : s.handles.get node.handle = some x) (hl : x.linked = true)
    (ht : x.type ∈ node.mode.types) (rd : Option UvRead) :
    QueueStep s.handles (s.input.append node) (s.inputCb node rd).input := by
  have hroot := hs.queue.root _ x hx hl (InputMode.plain_of_mem ht)
  have happend := (hs.queue.append hx ht hroot).1
  have hinput := takeRead_enqueue_input (s := s) rd node
  have hhandles := takeRead_enqueue_handles (s := s) rd node
  have hstatus := takeRead_enqueue_status (s := s) rd node
  simp only [inputCb]
  split
  · rw [← hinput, ← hhandles]
    refine queueStep_couvResume ?_ ?_ _ _ _
    · rw [hinput, hhandles]
      exact happend
    · rw [hhandles, hstatus]
      exact hs.waits
  · rw [hinput]
    exact ⟨happend, fun _ => id, rfl⟩

end InputOk
end World

/-- The queues once the action has appended its node. -/
def Input.fed (i : Input) (a : Action) : Input :=
  match a.node with
  | some node => i.append node
  | none => i

namespace World

namespace InputOk
variable {s : World} (hs : s.InputOk)
include hs

theorem queueStep_execEvent {e : Event} (hg : s.guardEvent e) :
    QueueStep (s.execEvent e).handles (s.input.fed (.event e)) (s.execEvent e).input := by
  cases hn : e.node with
  | some node =>
    obtain ⟨rd, he, -, ⟨x, hx, hl, hr⟩, -⟩ := inputEvent hg hn
    have hhandles := passive_handles.inputCb s (fun _ _ => rfl) (fun _ _ => rfl) node rd
    simp only [Input.fed, Action.node, hn]
    -- the node is appended first, and the waiting coroutine then takes the first one
    rw [he, hhandles]
    exact hs.queueStep_inputCb hx hl (hs.queue.reading _ x _ hx hr) rd
  | none =>
    simp only [Input.fed, Action.node, hn]
    cases e with
    | readCb | read2Cb | udpRecvCb => cases hn
    | complete r o => exact hs.queueStep_complete r o
    | alloc h n env =>
      rw [show (s.execEvent (.alloc h n env)).handles = s.handles from
          couvBufAllocCb_proj (fun _ _ => rfl) (fun _ _ => rfl) s h n env,
        show (s.execEvent (.alloc h n env)).input = s.input from
          couvBufAllocCb_proj (fun _ _ => rfl) (fun _ _ => rfl) s h n env]
      exact ⟨hs.queue, fun _ => id, rfl⟩
    | timerCb h =>
      exact ⟨hs.queue.handlesModify (fun x _ => ⟨rfl, rfl, fun _ => .inl⟩), fun _ => id, rfl⟩
    | exitCb h =>
      exact ⟨hs.queue.handlesModify (fun x _ => ⟨rfl, rfl, fun _ => .inl⟩), fun _ => id, rfl⟩
    | connectionCb h => exact ⟨hs.queue, fun _ => id, rfl⟩

theorem queueStep_exec {a : Action} (hg : s.guard a) :
    QueueStep (s.exec a).handles (s.input.fed a) (s.exec a).input := by
  have hsame : QueueStep s.handles s.input s.input := ⟨hs.queue, fun _ => id, rfl⟩
  cases a with
  | lua a =>
    have hquiet : ∀ {t : World}, t.handles = s.handles → t.input = s.input →
        QueueStep t.handles s.input t.input := by
      intro t h1 h2
      rw [h1, h2]
      exact hsame
    cases a with
    | create => exact hsame
    -- a coroutine that waits for input reads a node when it is resumed
    | resume T args =>
      simp only [exec, execLua]
      split
      · rw [passive_handles.couvResume]
        exact queueStep_couvResume hs.queue hs.waits T .lua args
      · rw [passive_handles.couvResume]
        exact queueStep_couvResume hs.queue hs.waits T .lua args
      · exact hsame
    | yield boundary =>
      exact hquiet (passive_handles.luaYield s boundary .yield)
        (quiet_input.luaYield s boundary .yield)
    | finish callable => exact hsame
    | callReturn => exact hsame
    | uvRun => exact hsame
    | uvRunReturn => exact hsame
  | handle m => exact hs.queueStep_execHandle hg.2
  | call boundary c => exact hs.queueStep_execCall boundary _ hg.2
  | heap a =>
    rw [show (s.exec (.heap a)).handles = s.handles from
        execHeap_proj (fun _ _ => rfl) (fun _ _ => rfl) (fun _ _ => rfl) s a,
      show (s.exec (.heap a)).input = s.input from
        execHeap_proj (fun _ _ => rfl) (fun _ _ => rfl) (fun _ _ => rfl) s a]
    exact hsame
  | event e => exact hs.queueStep_execEvent hg.2
  | gc g =>
    cases g with
    | thread T => exact hsame
    | handle h =>
      exact ⟨hs.queue.handlesModify (fun x _ => ⟨rfl, rfl, fun _ => .inl⟩), fun _ => id, rfl⟩
    | buffer b =>
      rw [show (s.exec (.gc (.buffer b))).handles = s.handles from
          collectBuffer_proj (fun _ _ => rfl) s b,
        show (s.exec (.gc (.buffer b))).input = s.input from
          collectBuffer_proj (fun _ _ => rfl) s b]
      exact hsame
    | string sid => exact hsame

/-- Every step keeps the queues well formed. -/
theorem exec {a : Action} (hstack : s.StackOk) (hg : s.guard a) : (s.exec a).InputOk := by
  refine ⟨(hs.queueStep_exec hg).ok, ?_⟩
  intro T m h hst
  obtain ⟨x, hx, hl, ht⟩ : ∃ x, s.handles.get h = some x ∧ x.linked = true ∧
      x.type ∈ m.types := by
    rcases exec_suspended hstack hg hst with hold | ⟨-, -, rfl, -⟩
    · exact hs.waits T m h hold
    · obtain ⟨-, x, hx, hl, -, ht, -⟩ := hg
      exact ⟨x, hx, hl, ht⟩
  obtain ⟨y, hy, h1, -, h3⟩ := exec_handle hg hx
  exact ⟨y, hy, h3.trans hl, h1 ▸ ht⟩

end InputOk
end World
/-- The queues are well formed in every reachable state. -/
theorem run_inputOk {as : List Action} (he : couv.Enabled .init as) :
    (couv.run .init as).StackOk ∧ (couv.run .init as).InputOk :=
  Machine.run_invariant (I := fun s => s.StackOk ∧ s.InputOk)
    (fun _ _ hs hg => ⟨hs.1.exec hg, hs.2.exec hs.1 hg⟩) ⟨stackOk_init, inputOk_init⟩ he

theorem Input.fed_get {i : Input} {n : ℕ} {node : InputNode} (hn : i.nodes.get n = some node)
    (a : Action) : (i.fed a).nodes.get n = some node := by
  unfold fed
  split
  · exact i.nodes.alloc_get_of_some hn
  · exact hn

/-- A node stays in the store. -/
theorem node_kept {s : World} {n : ℕ} {node : InputNode} {as : List Action} (hstack : s.StackOk)
    (hinput : s.InputOk) (hn : s.input.nodes.get n = some node) (he : couv.Enabled s as) :
    (couv.run s as).input.nodes.get n = some node := by
  have hstep : ∀ (t : World) (a : Action), (t.StackOk ∧ t.InputOk ∧
      t.input.nodes.get n = some node) → t.guard a → (t.exec a).StackOk ∧ (t.exec a).InputOk ∧
      (t.exec a).input.nodes.get n = some node := by
    rintro t a ⟨h1, h2, h3⟩ hg
    refine ⟨h1.exec hg, h2.exec h1 hg, ?_⟩
    rw [(h2.queueStep_exec hg).nodes]
    exact Input.fed_get h3 a
  exact (Machine.run_invariant (I := fun t => t.StackOk ∧ t.InputOk ∧
    t.input.nodes.get n = some node) hstep ⟨hstack, hinput, hn⟩ he).2.2

/-- A node was made by the callback of an event. -/
theorem node_origin {as : List Action} (he : couv.Enabled .init as) {n : ℕ} {node : InputNode}
    (hn : (couv.run .init as).input.nodes.get n = some node) :
    ∃ pre e post, as = pre ++ .event e :: post ∧ (couv.run .init pre).input.nodes.next = n ∧
      e.node = some node := by
  obtain ⟨pre, a, post, rfl, hbefore, hafter⟩ := Machine.exists_step
    (P := fun s : World => s.input.nodes.get n = some node) (by rintro ⟨⟩) hn
  obtain ⟨hpre, hg, -⟩ := Machine.along_append.mp he
  obtain ⟨-, hinput⟩ := run_inputOk hpre
  have hfed : ((couv.run .init pre).input.fed a).nodes.get n = some node := by
    rw [← (hinput.queueStep_exec hg).nodes]
    exact hafter
  unfold Input.fed at hfed
  split at hfed
  · next node' hnode =>
    rcases Store.alloc_eq_some _ |>.mp hfed with ⟨rfl, rfl⟩ | ⟨-, hold⟩
    · cases a with
      | event e => exact ⟨pre, e, post, rfl, rfl, hnode⟩
      | lua | handle | call | heap | gc => cases hnode
    · exact absurd hold hbefore
  · exact absurd hfed hbefore

end Couv
