import Couv.Completion
import Couv.Concat
import Couv.InputData
import Couv.NodeTypes

/-! What the reading methods give to Lua, in lengths and bytes, and what has come in. -/
namespace Couv

/-- A node that the step returns is in a new Buffer. -/
def Hands (s t : World) : Prop :=
  ∀ ret, t.returns = ret :: s.returns → ∀ n, ret.source = .node n → ∃ m h node b,
    ret.wait = .input m h ∧ t.input.nodes.get n = some node ∧ ret.values = node.values m b ∧
      t.mem.bufs.get b = some node.wBuf

section
variable {s t u : World}

theorem hands_same (h : t.returns = s.returns) : Hands s t := by
  intro ret hret
  rw [h] at hret
  exact absurd hret (List.cons_ne_self _ _).symm

theorem Hands.of_eq (h : Hands u t) (hr : u.returns = s.returns) : Hands s t := by
  intro ret hret
  exact h ret (hr ▸ hret)

theorem hands_log {r : Return} (hr : ∀ n, r.source ≠ .node n) (h : t.returns = r :: s.returns) :
    Hands s t := by
  intro ret hret n hn
  obtain ⟨rfl, -⟩ := List.cons.inj (h.symm.trans hret)
  exact absurd hn (hr n)

theorem hands_deliver (L : ℕ) (m : InputMode) (h n : ℕ) {node : InputNode}
    (hn : s.input.nodes.get n = some node) : Hands s (s.deliver L m h n node) := by
  intro ret hret n' hn'
  obtain ⟨rfl, -⟩ := List.cons.inj hret
  obtain rfl := Source.node.inj hn'
  exact ⟨m, h, node, s.mem.bufs.next, rfl, hn, rfl, s.mem.bufs.alloc_get_self _⟩

theorem hands_couvPrimRead (boundary : Bool) (L : ℕ) (m : InputMode) (h : ℕ) :
    Hands s (s.couvPrimRead boundary L m h) := by
  rcases World.couvPrimRead_cases (s := s) boundary L m h with
    ⟨-, hr⟩ | ⟨n, node, -, -, hn, hr⟩ | hr
  · rw [hr]
    exact hands_same (s.quiet_returns_luaYield boundary _)
  · rw [hr]
    exact hands_deliver L m h n hn
  · rw [hr]
    exact hands_same rfl

theorem hands_couvResume (L : ℕ) {src : Source} (hsrc : ∀ n, src ≠ .node n) (args : List Value) :
    Hands s (s.couvResume L src args) := by
  rcases World.couvResume_cases (s := s) L src args with
    hr | ⟨-, hr⟩ | ⟨w, -, -, hr⟩ | ⟨m, h, n, node, -, -, -, hn, hr⟩
  · rw [hr]
    exact hands_same rfl
  · rw [hr]
    exact hands_same rfl
  · rw [hr]
    exact hands_log hsrc rfl
  · rw [hr]
    exact (hands_deliver (s := s.start L) L m h n hn).of_eq rfl

theorem hands_execCall (boundary : Bool) (L : ℕ) {c : Call} (hg : s.guardCall c) :
    Hands s (s.execCall boundary L c) := by
  rcases (World.execCall_spec boundary L hg).cases with
    ⟨m, h, -, hr⟩ | ⟨h, -, hr⟩ | hr | ⟨req, hr⟩ | ⟨t, req, ha, hr⟩
  · rw [hr]
    exact hands_couvPrimRead boundary L m h
  · rw [hr]
    refine hands_same ?_
    simp only [World.couvClose]
    split
    · rfl
    · exact World.quiet_returns_luaYield _ _ _
  · rw [hr]
    exact hands_same rfl
  · rw [hr]
    exact hands_same rfl
  · rw [hr]
    refine hands_same ((World.quiet_returns_luaYield _ _ _).trans ?_)
    rcases ha.state with ⟨rfl, -⟩ | ⟨rfl, -⟩ <;> rfl

theorem hands_complete {r : ℕ} {q : Req} (hq : s.reqs.get r = some q) (o : Outcome) :
    Hands s (s.complete r o) := by
  have hsrc (n : ℕ) : Source.completion r ≠ .node n := Source.noConfusion
  rcases World.complete_cases hq o with ⟨-, he⟩ | ⟨-, he⟩ | ⟨-, -, t, ht, he⟩
  · rw [he]
    exact hands_same rfl
  · rw [he]
    obtain ⟨reg, -, ⟨-, he⟩ | ⟨-, he⟩⟩ := World.closeCb_cases (s := s) (q.handle.getD 0) r
    · rw [he]
      exact hands_same rfl
    · rw [he]
      exact (hands_couvResume _ hsrc []).of_eq rfl
  · rw [he]
    refine (hands_couvResume _ hsrc _).of_eq ?_
    rcases ht with rfl | rfl <;> rfl

/-- One inversion for the values that a step returns from a node. -/
theorem exec_hands {a : Action} (hg : s.guard a) : Hands s (s.exec a) := by
  cases a with
  | lua a =>
    cases a with
    | create | finish | callReturn | uvRun | uvRunReturn => exact hands_same rfl
    | yield boundary => exact hands_same (s.quiet_returns_luaYield boundary .yield)
    | resume T args =>
      have hresume : Hands s (s.couvResume T .lua args) :=
        hands_couvResume T (fun _ => Source.noConfusion) args
      simp only [World.exec, World.execLua]
      split
      · exact hresume
      · exact hresume
      · exact hands_same rfl
  | handle m =>
    obtain ⟨hs', reg, input, he, -⟩ :=
      (World.execHandle_spec (L := s.current.getD 0) hg.2).cases
    exact hands_same (by simp only [World.exec, he])
  | call boundary c => exact hands_execCall boundary _ hg.2
  | heap a =>
    exact hands_same
      (World.execHeap_proj (fun _ _ => rfl) (fun _ _ => rfl) (fun _ _ => rfl) s a)
  | event e =>
    cases hn : e.node with
    | some node =>
      obtain ⟨rd, he, -⟩ := World.inputEvent hg.2 hn
      -- the callback queues its node first, and may then wake the reader, which takes one
      have hreturns : ((s.takeRead rd).enqueue node).returns = s.returns := by cases rd <;> rfl
      simp only [World.exec, he, World.inputCb]
      split
      · exact (hands_couvResume _ (fun _ => Source.noConfusion) []).of_eq hreturns
      · exact hands_same hreturns
    | none =>
      cases e with
      | readCb | read2Cb | udpRecvCb => cases hn
      | complete r o =>
        obtain ⟨q, hq, -⟩ := hg.2
        exact hands_complete hq o
      | alloc h n env =>
        exact hands_same
          (World.couvBufAllocCb_proj (fun _ _ => rfl) (fun _ _ => rfl) s h n env)
      | timerCb | exitCb | connectionCb => exact hands_same rfl
  | gc g =>
    cases g with
    | buffer b => exact hands_same (World.collectBuffer_proj (fun _ _ => rfl) s b)
    | thread | handle | string => exact hands_same rfl

end

/-! Lengths with bytes. -/

/-- What one callback of libuv brings: the length that it reports, and the bytes. -/
structure Chunk where
  nread : ℤ
  bytes : List UInt8
  deriving DecidableEq, Repr

def InputNode.chunk (m : Mem) (node : InputNode) : Chunk :=
  ⟨node.nread, m.shown node.wBuf 1 node.wBuf.len⟩

/-- The chunks in the queue of `h`, with their bytes in `m`. -/
def Input.chunks (i : Input) (m : Mem) (h : ℕ) : List Chunk :=
  (i.queued h).filterMap fun n => (i.nodes.get n).map (InputNode.chunk m)

/-- The first two values that a reading method returns, the Buffer by its bytes. -/
def Mem.returned (m : Mem) : List Value → Option Chunk
  | .number nread :: b :: _ => some ⟨nread, m.contents b⟩
  | _ => none

/-- The nodes for `h` among the new ones. -/
def Action.nodesFor (a : Action) (h : ℕ) : Option InputNode :=
  a.node.filter fun node => node.handle = h

namespace Return

/-- The node of the handle `h` that has been returned. -/
def takenFrom (r : Return) (h : ℕ) : Option Taken := r.taken.filter fun x => x.handle = h

def chunk (m : Mem) (h : ℕ) (r : Return) : Option Chunk :=
  (r.takenFrom h).bind fun _ => m.returned r.values

end Return

/-- What has come in for each handle, and what its reading methods have returned. -/
structure Streams where
  came : ℕ → List Chunk
  got : ℕ → List Chunk

namespace World

/-- What the action brings for `h`. -/
def brings (s : World) (a : Action) (h : ℕ) : List Chunk :=
  (a.nodesFor h).toList.map (InputNode.chunk s.mem)

/-- What methods of `h` have returned since `s`. -/
def gives (s t : World) (h : ℕ) : List Chunk :=
  (t.returns.take (t.returns.length-s.returns.length)).reverse.filterMap (Return.chunk t.mem h)

/-- The chunks for `h` that no call has returned. -/
def unreadChunks (s : World) (h : ℕ) : List Chunk := s.input.chunks s.mem h

end World

def noteChunks (s : World) (d : Streams) (a : ProgAct) : Streams where
  came h :=
    match a with
    | .sys a => d.came h ++ s.brings a h
    | .buffer _ | .fsStore _ _ => d.came h
  got h := d.got h ++ s.gives (s.progExec a) h

/-- The streams of the run `as`. -/
def streams (as : List ProgAct) : Streams :=
  ((prog.withHistory noteChunks).run (.init, ⟨fun _ => [], fun _ => []⟩) as).2

section
variable {s t : World} {a : Action} {m m' : Mem} {h : ℕ}

/-- The bytes of a node are in one block. -/
theorem InputNode.chunk_congr {node : InputNode}
    (hblk : ∀ p, node.wBuf.base = some p → m'.blocks.get p.block = m.blocks.get p.block) :
    node.chunk m' = node.chunk m := by
  have hshown : m'.shown node.wBuf 1 node.wBuf.len = m.shown node.wBuf 1 node.wBuf.len := by
    unfold Mem.shown CouvBuf.at
    cases hp : node.wBuf.base with
    | none => rfl
    | some p =>
      have hbyte (i : ℕ) : m'.byte p.block i = m.byte p.block i := by
        unfold Mem.byte
        rw [hblk p hp]
      simp only [Option.map_some, Mem.bytes, Ptr.add, hbyte]
  simp only [chunk, hshown]

theorem Input.chunks_congr {i : Input} (hsame : ∀ n ∈ i.queued h, ∀ node,
    i.nodes.get n = some node → node.chunk m' = node.chunk m) : i.chunks m' h = i.chunks m h := by
  refine List.filterMap_congr fun n hn => ?_
  cases hget : i.nodes.get n with
  | none => rfl
  | some node => exact congrArg some (hsame n hn node hget)

/-- Lua sees the chunk of the node in the values that a reading method returns. -/
theorem returned_values (mode : InputMode) {node : InputNode} {b : ℕ}
    (hb : m.bufs.get b = some node.wBuf) :
    m.returned (node.values mode b) = some (node.chunk m) := by
  have hcontents : m.contents (.buffer b) = m.shown node.wBuf 1 node.wBuf.len := by
    simp only [Mem.contents, hb, Option.map_some, Option.getD_some]
  cases mode <;> simp only [InputNode.values, Mem.returned, hcontents, InputNode.chunk]

/-- A callback appends its chunk to the queue of its handle. -/
theorem fed_chunks (hs : s.InputOk) (a : Action) (h : ℕ) :
    (s.input.fed a).chunks s.mem h = s.unreadChunks h ++ s.brings a h := by
  unfold Input.fed World.brings World.unreadChunks Action.nodesFor
  cases hnew : a.node with
  | none => exact (List.append_nil _).symm
  | some node =>
    have hle : (s.input.unlinked h).length ≤ (s.input.appended h).length := by
      rw [hs.queue.order h, List.length_append]
      exact Nat.le_add_right _ _
    -- the nodes that were queued before are still there
    have hold : (s.input.queued h).filterMap
          (fun n => ((s.input.append node).nodes.get n).map (InputNode.chunk s.mem)) =
        s.input.chunks s.mem h := by
      refine List.filterMap_congr fun n hn => ?_
      have hlt := hs.queue.lt_next (hs.queue.queued_sub hn)
      simp only [Input.append, Store.alloc_get, if_neg hlt.ne]
    by_cases hh : node.handle = h
    · have hqueued : (s.input.append node).queued h = s.input.queued h ++ [s.input.nodes.next] := by
        simp only [Input.queued, Input.append, if_pos hh.symm, List.drop_append_of_le_length hle]
      have hself : (s.input.append node).nodes.get s.input.nodes.next = some node :=
        s.input.nodes.alloc_get_self node
      simp [Input.chunks, hqueued, hold, hself, hh, Option.filter]
    · have hqueued : (s.input.append node).queued h = s.input.queued h := by
        simp only [Input.queued, Input.append, if_neg (Ne.symm hh)]
      simp [Input.chunks, hqueued, hold, hh, Option.filter]

/-- A step takes from a queue what it returns, and leaves the rest. -/
theorem exec_queued_takes (hs : s.InputOk) (hg : s.guard a) (h : ℕ) :
    (s.input.fed a).queued h =
      ((s.takes a).filter fun x => x.handle = h).toList.map (·.node) ++
        (s.exec a).input.queued h := by
  obtain ⟨-, happ⟩ := Prod.mk.inj (exec_fedNodes hg)
  have hfed : (s.input.fed a).unlinked = s.input.unlinked := by
    unfold Input.fed
    split <;> rfl
  have hqueued : (s.exec a).input.queued h = ((s.input.fed a).queued h).drop
      (((s.takes a).filter fun x => x.handle = h).toList.map (·.node)).length := by
    simp only [Input.queued, happ, (exec_took hs hg).unlinked h, List.length_append, hfed,
      List.drop_drop]
  rw [hqueued]
  cases hx : s.takes a with
  | none => rfl
  | some x =>
    by_cases hh : x.handle = h
    swap
    · simp [Option.filter, hh]
    -- the node is the head of the queue that is read
    obtain ⟨rd, -, hhead⟩ := Option.bind_eq_some_iff.mp hx
    obtain ⟨n, hn, rfl⟩ := Option.map_eq_some_iff.mp hhead
    obtain ⟨ns, hns⟩ := List.head?_eq_some_iff.mp hn
    obtain rfl : rd.2 = h := hh
    simp [Option.filter, hns]

/-- What a step returns is the chunk of the node that it takes. -/
theorem exec_gives (hs : s.InputOk) (hg : s.guard a) (h : ℕ) :
    s.gives (s.exec a) h =
      (((s.takes a).filter fun x => x.handle = h).toList.map (·.node)).filterMap fun n =>
        ((s.exec a).input.nodes.get n).map (InputNode.chunk (s.exec a).mem) := by
  have htook := (exec_took hs hg).returns
  rcases World.exec_returns hg with hr | ⟨ret, hr, -⟩
  · have hnone : s.takes a = none := by
      rw [hr] at htook
      simpa using htook
    simp [World.gives, hr, hnone]
  have htaken : ret.taken = s.takes a := by
    rw [hr] at htook
    cases hret : ret.taken <;> cases htakes : s.takes a <;> simp_all
  have hgives : s.gives (s.exec a) h = ((ret.chunk (s.exec a).mem h)).toList := by
    have hone : s.gives (s.exec a) h = [ret].filterMap (Return.chunk (s.exec a).mem h) := by
      simp [World.gives, hr]
    rw [hone]
    cases hc : ret.chunk (s.exec a).mem h <;> simp [hc]
  rw [hgives, ← htaken]
  unfold Return.chunk Return.takenFrom
  cases hx : ret.taken.filter (fun x => x.handle = h) with
  | none => rfl
  | some x =>
    obtain ⟨hret, -⟩ := Option.filter_eq_some_iff.mp hx
    obtain ⟨-, hsrc⟩ := Return.taken_eq_some.mp hret
    obtain ⟨m, k, node, b, -, hget, hvalues, hb⟩ := exec_hands hg ret hr x.node hsrc
    simp [hget, hvalues, returned_values m hb]

section
variable (hs : InputDataOk s)
include hs

/-- A node that is not read yet, or a new one, has its bytes in unread input. -/
theorem fed_unread (hg : s.guard a) {n : ℕ} {node : InputNode} {p : Ptr}
    (hn : n ∈ (s.input.fed a).queued node.handle)
    (hget : (s.input.fed a).nodes.get n = some node) (hp : node.wBuf.base = some p) :
    s.Unread p.block := by
  have hrefs := hs.flight.blocks.refs
  rcases World.fed_cases hg hn hget with ⟨rd, hbuf, hread⟩ | ⟨hn, hget⟩
  · cases rd with
    | none => rw [hbuf] at hp; cases hp
    | some r =>
      have hr := hread r rfl
      rw [hbuf] at hp
      exact .read r hr (Option.some.inj (hrefs.orig_of_base (.read r hr) hp))
  · exact .node n node hn hget (hrefs.orig_of_base (.node n node hn hget) hp)

/-- What is queued and what comes in, is returned or queued, in this order. -/
theorem exec_chunks (hg : s.guard a) (h : ℕ) :
    s.unreadChunks h ++ s.brings a h = s.gives (s.exec a) h ++ (s.exec a).unreadChunks h := by
  have hin := hs.flight.blocks.input
  obtain ⟨hnodes, -⟩ := Prod.mk.inj (exec_fedNodes hg)
  have hsame : (s.input.fed a).chunks (s.exec a).mem h = (s.input.fed a).chunks s.mem h := by
    refine Input.chunks_congr fun n hn node hget => InputNode.chunk_congr fun p hp => ?_
    obtain ⟨node', -, hget', rfl, -⟩ :=
      (hin.fed hg).node h n ((hin.fed hg).queued_sub hn)
    obtain rfl := Option.some.inj (hget'.symm.trans hget)
    exact hs.progExec_block (a := .sys a) hg (fed_unread hs hg hn hget hp)
  calc s.unreadChunks h ++ s.brings a h
      = (s.input.fed a).chunks (s.exec a).mem h := by rw [hsame, fed_chunks hin]
    _ = s.gives (s.exec a) h ++ (s.exec a).unreadChunks h := by
      rw [exec_gives hin hg h, World.unreadChunks, Input.chunks, Input.chunks, hnodes,
        exec_queued_takes hin hg h, List.filterMap_append]

/-- Calls on Buffers, and libuv in fs.read, leave the queues and the unread bytes alone. -/
theorem other_chunks {a : ProgAct} (hg : s.progGuard a) (hsys : ∀ b, a ≠ .sys b) (h : ℕ) :
    s.gives (s.progExec a) h = [] ∧ (s.progExec a).unreadChunks h = s.unreadChunks h := by
  have hsame : (s.progExec a).input = s.input ∧ (s.progExec a).returns = s.returns := by
    rcases hs.progExec_stores hg hsys with he | ⟨b, buf, q, bs, -, -, he⟩ <;>
      simp only [he, and_self]
  refine ⟨by simp [World.gives, hsame.2], ?_⟩
  unfold World.unreadChunks
  rw [hsame.1]
  refine Input.chunks_congr fun n hn node hget => InputNode.chunk_congr fun p hp => ?_
  have hqueue := hs.flight.blocks.input.queue
  obtain ⟨node', -, hget', rfl, -⟩ := hqueue.node h n (hqueue.queued_sub hn)
  obtain rfl := Option.some.inj (hget'.symm.trans hget)
  exact hs.progExec_block hg
    (.node n node' hn hget (hs.flight.blocks.refs.orig_of_base (.node n node' hn hget) hp))

end

end

/-- What has come in is what has been returned, followed by what is queued. -/
structure StreamsOk (s : World) (d : Streams) : Prop where
  data : InputDataOk s
  split : ∀ h, d.came h = d.got h ++ s.unreadChunks h

theorem StreamsOk.progExec {s : World} {d : Streams} (hs : StreamsOk s d) {a : ProgAct}
    (hg : s.progGuard a) (hstep : ProgStep s a) :
    StreamsOk (s.progExec a) (noteChunks s d a) := by
  refine ⟨hs.data.progExec hg hstep, fun h => ?_⟩
  cases a with
  | sys a =>
    calc d.came h ++ s.brings a h
        = d.got h ++ (s.unreadChunks h ++ s.brings a h) := by rw [hs.split h, List.append_assoc]
      _ = d.got h ++ s.gives (s.exec a) h ++ (s.exec a).unreadChunks h := by
        rw [exec_chunks hs.data hg h, List.append_assoc]
  | buffer op =>
    obtain ⟨hgives, hunread⟩ := other_chunks hs.data hg (fun _ => ProgAct.noConfusion) h
    simp only [noteChunks, hgives, hunread, List.append_nil]
    exact hs.split h
  | fsStore r data =>
    obtain ⟨hgives, hunread⟩ := other_chunks hs.data hg (fun _ => ProgAct.noConfusion) h
    simp only [noteChunks, hgives, hunread, List.append_nil]
    exact hs.split h

theorem run_streamsOk {as : List ProgAct} (he : prog.Enabled .init as)
    (hstep : prog.Along ProgStep .init as) : StreamsOk (prog.run .init as) (streams as) := by
  let start : World × Streams := (.init, ⟨fun _ => [], fun _ => []⟩)
  let I (p : World × Streams) := StreamsOk p.1 p.2
  have hinit : I start := ⟨inputDataOk_init, fun _ => rfl⟩
  have hrun : I ((prog.withHistory noteChunks).run start as) :=
    Machine.run_invariant (fun p a (hp : I p) hg => hp.progExec hg.1 hg.2) hinit
      ((prog.along_withHistory noteChunks (p := start)).mpr (Machine.along_and.mpr ⟨he, hstep⟩))
  change StreamsOk ((prog.withHistory noteChunks).run start as).1 _ at hrun
  rw [prog.withHistory_run noteChunks start as] at hrun
  exact hrun

/-- In every run of actions, calls on Buffers and reads of files whose steps meet `ProgStep`, and
for every handle: the lengths and bytes that callbacks of libuv have brought are, in this order,
those that read, read2 and recv have returned to Lua when they returned, followed by those in the
queue of the handle. -/
theorem read_bytes {as : List ProgAct} (he : prog.Enabled .init as)
    (hstep : prog.Along ProgStep .init as) (h : ℕ) :
    (streams as).came h = (streams as).got h ++ (prog.run .init as).unreadChunks h :=
  (run_streamsOk he hstep).split h

/-- What libuv has stored for the handle is what its method returns. -/
theorem read_bytes_chunk : (streams (storedChunk ++ chunkRead)).got 0 = [⟨2, [7, 7]⟩] := by
  have he : prog.Enabled .init (storedChunk ++ chunkRead) := by decide
  have hstep : prog.Along ProgStep .init (storedChunk ++ chunkRead) := by decide
  have hcame : (streams (storedChunk ++ chunkRead)).came 0 = [⟨2, [7, 7]⟩] := by decide
  have hnone : (prog.run .init (storedChunk ++ chunkRead)).unreadChunks 0 = [] := by decide
  have hall := read_bytes he hstep 0
  rwa [hcame, hnone, List.append_nil, eq_comm] at hall

end Couv
