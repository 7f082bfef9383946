import Couv.Taken

/-! The structures of the input nodes, and the one that a reading method reads a node as. -/
namespace Couv

inductive InputField
  | prev | next | nread | wBuf | pending | addr
  deriving DecidableEq, Repr

/-- A couv_buf_t is a pointer and a uv_buf_t, a uv_handle_type an enum. -/
def InputField.size : InputField → ℕ
  | .prev | .next | .nread => 8
  | .wBuf => 24
  | .pending => 4
  | .addr => sizeofSockaddrStorage

/-- The fields of couv_stream_input_t, couv_pipe_input_t and couv_udp_input_t: what the callback
allocates, and what the method reads. -/
def InputMode.fields : InputMode → List InputField
  | .read => [.prev, .next, .nread, .wBuf]
  | .read2 => [.prev, .next, .nread, .wBuf, .pending]
  | .recv => [.prev, .next, .nread, .wBuf, .addr]

/-- Where the last field ends; every field starts at a multiple of 8. -/
def InputMode.extent (m : InputMode) : ℕ := (m.fields.map InputField.size).sum

def InputMode.sizeof (m : InputMode) : ℕ := (m.extent + 7) / 8 * 8

/-- Nodes of `m'` are read by `m` as what they are, or as a prefix of it. -/
structure InputMode.Reads (m m' : InputMode) : Prop where
  fields : m.fields <+: m'.fields
  inside : m.extent ≤ m'.sizeof

/-- `_read2` may read only the nodes of `read2_cb`, the others all that are on their handles. -/
theorem InputMode.reads_iff {m m' : InputMode} {t : HandleType} (ht : t ∈ m.types)
    (ht' : t ∈ m'.types) : m.Reads m' ↔ (m = .read2 → m' = .read2) := by
  cases m <;> cases m'
  case read.recv | read2.recv | recv.read | recv.read2 =>
    simp only [InputMode.types, streamTypes, List.mem_cons, List.not_mem_nil, or_false] at ht ht'
    simp_all
  -- couv_stream_input_t ends where `pending` would be
  case read2.read => exact iff_of_false (fun h => absurd h.inside (by decide)) (by decide)
  all_goals exact iff_of_true ⟨by decide, by decide⟩ (by decide)

/-- No step gives `_read2` a node of `read_cb`. -/
def ReadTyped (s : World) (a : Action) : Prop :=
  ∀ x ∈ s.takes a, x.mode = .read2 → ∀ node ∈ (s.input.fed a).nodes.get x.node,
    node.mode = .read2

instance (s : World) (a : Action) : Decidable (ReadTyped s a) :=
  inferInstanceAs (Decidable (∀ x ∈ s.takes a, _))

/-- All nodes that have been read were read as what they are. -/
def World.ReadsTyped (s : World) : Prop :=
  ∀ x ∈ s.returns.filterMap Return.taken, ∃ node ∈ s.input.nodes.get x.node,
    x.mode.Reads node.mode

/-- In the run every node is read as what it was allocated as, and `_read2` returns what libuv
passed to `read2_cb` with the chunk. -/
def NodesTyped (as : List Action) : Prop :=
  ∀ r ∈ (couv.run .init as).returns, ∀ m h n, r.wait = .input m h → r.source = .node n →
    ∃ pre e post node, as = pre ++ .event e :: post ∧
      (couv.run .init pre).input.nodes.next = n ∧ e.node = some node ∧ node.handle = h ∧
      m.Reads node.mode ∧ (m = .read2 → ∃ nread rd pending junk b,
        e = .read2Cb h nread rd pending junk ∧
        r.values = [.number nread, .buffer b, .number pending])

section
variable {s : World} {a : Action}

theorem World.InputOk.fed (hs : s.InputOk) (hg : s.guard a) :
    QueueOk s.handles (s.input.fed a) := by
  unfold Input.fed
  split
  · next node hnode =>
    cases a with
    | event e =>
      obtain ⟨rd, -, -, ⟨x, hx, hl, hr⟩, -⟩ := World.inputEvent hg.2 hnode
      have htype := hs.queue.reading _ x _ hx hr
      exact (hs.queue.append hx htype
        (hs.queue.root _ x hx hl (InputMode.plain_of_mem htype))).1
    | lua | handle | call | heap | gc => cases hnode
  · exact hs.queue

/-- A method reads from handles of its class. -/
theorem World.InputOk.reading_type (hs : s.InputOk) {T : ℕ} {args : List Value} {m : InputMode}
    {h : ℕ} (hr : s.reading T args = some (m, h)) :
    ∃ x, s.handles.get h = some x ∧ x.type ∈ m.types := by
  unfold World.reading at hr
  split at hr
  · next m' h' hst =>
    split at hr
    · cases hr
    · cases hr
      obtain ⟨x, hx, -, ht⟩ := hs.waits T m h hst
      exact ⟨x, hx, ht⟩
  · cases hr

theorem World.InputOk.readBy_type (hs : s.InputOk) (hg : s.guard a) {m : InputMode} {h : ℕ}
    (hr : s.readBy a = some (m, h)) : ∃ x, s.handles.get h = some x ∧ x.type ∈ m.types := by
  cases a with
  | lua a =>
    cases a with
    | resume T args => exact hs.reading_type hr
    | create | yield | finish | callReturn | uvRun | uvRunReturn => cases hr
  | call boundary c =>
    cases c with
    | read m' h' =>
      cases hr
      obtain ⟨-, x, hx, -, -, ht, -⟩ := hg
      exact ⟨x, hx, ht⟩
    | write | write2 | send | shutdown | tcpConnect | pipeConnect | close | sleep
    | getaddrinfo | fs | fsRead | fsWrite => cases hr
  | event e =>
    obtain ⟨T, -, hT⟩ := Option.bind_eq_some_iff.mp hr
    exact hs.reading_type hT
  | handle | heap | gc => cases hr

/-- A step hands over a node of the handle it reads, and both fit the class of the handle. -/
theorem World.InputOk.takes_node (hs : s.InputOk) (hg : s.guard a) {x : Taken}
    (hx : s.takes a = some x) : ∃ node t, (s.input.fed a).nodes.get x.node = some node ∧
      t ∈ x.mode.types ∧ t ∈ node.mode.types := by
  obtain ⟨⟨m, h⟩, hr, hhead⟩ := Option.bind_eq_some_iff.mp hx
  obtain ⟨n, hn, rfl⟩ := Option.map_eq_some_iff.mp hhead
  obtain ⟨y, hy, hty⟩ := hs.readBy_type hg hr
  have hfed := hs.fed hg
  obtain ⟨node, y', hnode, -, hy', hty'⟩ :=
    hfed.node h n (hfed.queued_sub (List.mem_of_mem_head? hn))
  obtain rfl := Option.some.inj (hy.symm.trans hy')
  exact ⟨node, y.type, hnode, hty, hty'⟩

/-- A step keeps to the structures exactly if it meets the condition. -/
theorem World.ReadsTyped.exec_iff (hs : s.InputOk) (hr : s.ReadsTyped) (hg : s.guard a) :
    (s.exec a).ReadsTyped ↔ ReadTyped s a := by
  have hnodes := (hs.queueStep_exec hg).nodes
  have hreturns := (exec_took hs hg).returns
  constructor
  · intro hall x hx hmode node hnode
    obtain ⟨node', hnode', hreads⟩ := hall x (by
      rw [hreturns, Option.mem_def.mp hx]
      exact List.mem_cons_self)
    obtain ⟨node'', t, hget, ht, ht'⟩ := hs.takes_node hg hx
    rw [hnodes] at hnode'
    obtain rfl := Option.some.inj (hnode'.symm.trans hnode)
    obtain rfl := Option.some.inj (hnode'.symm.trans hget)
    exact (InputMode.reads_iff ht ht').mp hreads hmode
  -- what was read before, and what this step reads
  · intro htyped x hx
    rw [hreturns] at hx
    rw [hnodes]
    rcases List.mem_append.mp hx with hx | hx
    · have htakes := Option.mem_toList.mp hx
      obtain ⟨node, t, hget, ht, ht'⟩ := hs.takes_node hg htakes
      exact ⟨node, hget, (InputMode.reads_iff ht ht').mpr (fun hm => htyped x htakes hm node hget)⟩
    · obtain ⟨node, hget, hreads⟩ := hr x hx
      exact ⟨node, Input.fed_get hget a, hreads⟩

end

/-- What has been read stays read. -/
theorem taken_kept {s : World} (hs : s.StackOk ∧ s.InputOk) {x : Taken}
    (hx : x ∈ s.returns.filterMap Return.taken) {as : List Action} (he : couv.Enabled s as) :
    x ∈ (couv.run s as).returns.filterMap Return.taken := by
  have hstep : ∀ (t : World) (a : Action), ((t.StackOk ∧ t.InputOk) ∧
      x ∈ t.returns.filterMap Return.taken) → t.guard a →
      ((t.exec a).StackOk ∧ (t.exec a).InputOk) ∧
        x ∈ (t.exec a).returns.filterMap Return.taken := by
    rintro t a ⟨⟨h1, h2⟩, h3⟩ hg
    refine ⟨⟨h1.exec hg, h2.exec h1 hg⟩, ?_⟩
    rw [(exec_took h2 hg).returns]
    exact List.mem_append_right _ h3
  exact (Machine.run_invariant (I := fun t => (t.StackOk ∧ t.InputOk) ∧
    x ∈ t.returns.filterMap Return.taken) hstep ⟨hs, hx⟩ he).2

/-- A run keeps to the structures exactly if all its steps meet the condition. -/
theorem run_readsTyped_iff {as : List Action} (he : couv.Enabled .init as) :
    (couv.run .init as).ReadsTyped ↔ couv.Along ReadTyped .init as := by
  have hprefixes := Machine.prefixes_iff_along (M := couv) (P := ReadTyped)
    (I := fun s => (s.StackOk ∧ s.InputOk) ∧ s.ReadsTyped)
    (fun s a hs hg => by
      rw [and_iff_right ⟨hs.1.1.exec hg, hs.1.2.exec hs.1.1 hg⟩]
      exact hs.2.exec_iff hs.1.2 hg)
    ⟨⟨stackOk_init, inputOk_init⟩, fun _ h => nomatch h⟩ he
  rw [← hprefixes]
  constructor
  · rintro hall pre post rfl
    obtain ⟨hpre, hpost⟩ := Machine.along_append.mp he
    have hs := run_inputOk hpre
    refine ⟨hs, ?_⟩
    intro x hx
    rw [Machine.run_append] at hall
    obtain ⟨node, hnode, hreads⟩ := hall x (taken_kept hs hx hpost)
    -- the node that has been read was there when it was read
    obtain ⟨r, hr, htaken⟩ := List.mem_filterMap.mp hx
    obtain ⟨m, h, n, b, -, -, hn, -⟩ :=
      (run_receivedOk hpre).values r hr _ (Return.taken_eq_some.mp htaken).2
    have hkept := node_kept hs.1 hs.2 hn hpost
    obtain rfl := Option.some.inj (hnode.symm.trans hkept)
    exact ⟨node, hn, hreads⟩
  · intro hall
    exact (hall as [] (List.append_nil as).symm).2

/-- In every run of starts, stops, chunks, reads and everything else, all nodes are read as what
they are, and `_read2` returns what libuv passed to `read2_cb`, if and only if no step gives
`_read2` a node of `read_cb`. -/
theorem nodes_typed_iff {as : List Action} (he : couv.Enabled .init as) :
    NodesTyped as ↔ couv.Along ReadTyped .init as := by
  rw [← run_readsTyped_iff he]
  have hinput := (run_inputOk he).2
  constructor
  · intro hall x hx
    obtain ⟨r, hr, htaken⟩ := List.mem_filterMap.mp hx
    obtain ⟨hw, hn⟩ := Return.taken_eq_some.mp htaken
    obtain ⟨pre, e, post, node, rfl, hnext, hnode, -, hreads, -⟩ := hall r hr _ _ _ hw hn
    obtain ⟨hpre, hcur, hpost⟩ := Machine.along_append.mp he
    have hg : (couv.run .init pre).guard (.event e) := hcur
    have hs := run_inputOk hpre
    have hget : ((couv.run .init pre).exec (.event e)).input.nodes.get x.node = some node := by
      rw [(hs.2.queueStep_exec hg).nodes, ← hnext]
      simp only [Input.fed, Action.node, hnode]
      exact Store.alloc_get_self _ node
    have hend := node_kept (hs.1.exec hg) (hs.2.exec hs.1 hg) hget hpost
    refine ⟨node, ?_, hreads⟩
    rw [Machine.run_append]
    exact hend
  · intro htyped r hr m h n hw hn
    obtain ⟨node, hnode, hreads⟩ := htyped ⟨m, h, n⟩
      (List.mem_filterMap.mpr ⟨r, hr, Return.taken_eq_some.mpr ⟨hw, hn⟩⟩)
    obtain ⟨m', h', node', b, hw', hunlinked, hget, hvalues⟩ := (run_receivedOk he).values r hr n hn
    obtain ⟨rfl, rfl⟩ : m' = m ∧ h' = h := by
      rw [hw] at hw'
      cases hw'
      exact ⟨rfl, rfl⟩
    obtain rfl := Option.some.inj (hget.symm.trans hnode)
    obtain ⟨node'', -, hget', hhandle, -⟩ := hinput.queue.node h' n (by
      rw [hinput.queue.order]
      exact List.mem_append_left _ hunlinked)
    obtain rfl := Option.some.inj (hget.symm.trans hget')
    obtain ⟨pre, e, post, has, hnext, he'⟩ := node_origin he hget
    refine ⟨pre, e, post, node', has, hnext, he', hhandle, hreads, ?_⟩
    rintro rfl
    -- the whole of couv_pipe_input_t is a prefix of this structure only
    have hmode : node'.mode = .read2 := by
      have hinside : InputMode.fields .read2 <+: node'.mode.fields := hreads.fields
      cases hm : node'.mode with
      | read2 => rfl
      | read | recv =>
        rw [hm] at hinside
        exact absurd hinside (by decide)
    cases e with
    | read2Cb k nread rd pending junk =>
      obtain rfl := Option.some.inj he'
      obtain rfl : k = h' := hhandle
      exact ⟨nread, rd, pending, junk, b, rfl, hvalues⟩
    | readCb | udpRecvCb =>
      obtain rfl := Option.some.inj he'
      cases hmode
    | alloc | complete | timerCb | exitCb | connectionCb => cases he'

/-- A coroutine waits in read2 for a pipe that is read with startRead or startRead2. -/
def read2Waiting (m : InputMode) : List Action := [.lua .create, .lua (.resume 1 []),
  .handle (.pipeNew true), .handle (.readStart m 0 true), .call false (.read .read2 0),
  .lua .uvRun]

theorem nodes_typed_iff_read2 :
    NodesTyped (read2Waiting .read2 ++ [.event (.read2Cb 0 (-1) none 7 [])]) :=
  (nodes_typed_iff (show couv.Enabled .init
    (read2Waiting .read2 ++ [.event (.read2Cb 0 (-1) none 7 [])]) by decide)).mpr (by decide)

/-- The number that read2 returns with a chunk of read_cb is what lies behind the node. -/
theorem read2_past_node : ¬∀ as, couv.Enabled .init as → NodesTyped as := by
  intro hall
  have hread := hall (read2Waiting .read ++ [.event (.readCb 0 (-1) none 9 [])]) (by decide)
    ⟨1, .input .read2 0, .node 0, [.number (-1), .buffer 0, .number 9]⟩ List.mem_cons_self
    .read2 0 0 rfl rfl
  obtain ⟨pre, e, post, node, has, -, hnode, -, -, hpending⟩ := hread
  obtain ⟨nread, rd, pending, junk, b, rfl, -⟩ := hpending rfl
  have hmem : Action.event (.read2Cb 0 nread rd pending junk) ∈
      read2Waiting .read ++ [.event (.readCb 0 (-1) none 9 [])] := by
    rw [has]
    exact List.mem_append_right _ List.mem_cons_self
  simp [read2Waiting] at hmem

end Couv
