import Couv.BlockCount

/-! The blocks behind Buffers over whole runs. -/
namespace Couv

theorem quiet_refOk : Quiet World.RefOk :=
  ⟨fun _ _ _ => rfl, fun _ => rfl, fun _ _ => rfl, fun _ _ => rfl⟩

/-- Allocations succeed, of fewer than 2^63 bytes. -/
def World.AllocOk (s : World) (a : Action) : Prop :=
  match a with
  | .heap (.bufNew env arg) => env.ok = true ∧ newSize arg < 2^63
  | .heap (.bufConcat env items total) => env.ok = true ∧ concatSize s.mem items total < 2^63
  | _ => True

instance (s : World) : DecidablePred s.AllocOk
  | .heap (.bufNew _ _) | .heap (.bufConcat _ _ _) => inferInstanceAs (Decidable (_ ∧ _))
  | .heap (.newString _) | .heap (.newTable _) | .heap (.setTable _ _)
  | .heap (.bufSlice _ _ _ _) | .lua _ | .handle _ | .call _ _ | .event _ | .gc _ => isTrue trivial

/-- Moreover a block has fewer than 2^31 references. -/
def AllocStep (s : World) (a : Action) : Prop :=
  s.AllocOk a ∧ (s.exec a).mem.blocks.All (fun blk _ => (s.exec a).refs blk < 2^31)

instance (s : World) (a : Action) : Decidable (AllocStep s a) :=
  inferInstanceAs (Decidable (_ ∧ Store.All _ _))

namespace World

theorem runBuf_mem (s : World) {α : Type} (x : BufM α) :
    s.runBuf x = { s with mem := BufM.after x s.mem } := by
  simp only [runBuf, BufM.after]
  cases x s.mem <;> rfl

/-- The metamethod runs, then the userdata goes. -/
theorem collectBuffer_mem (s : World) (b : ℕ) : s.collectBuffer b =
    { s with mem := { BufM.after (bufferGc (.buffer b)) s.mem with
        bufs := (BufM.after (bufferGc (.buffer b)) s.mem).bufs.free b } } := by
  simp only [collectBuffer, BufM.after]
  cases bufferGc (.buffer b) s.mem <;> rfl

namespace RefOk
variable {s : World} (hs : s.RefOk)
include hs

theorem null_len (b : ℕ) (buf : CouvBuf) (hb : s.mem.bufs.get b = some buf)
    (ho : buf.orig = none) : buf.len = 0 := ((hs.shape buf (.buf b buf hb)).null ho).2

theorem buf_live (b : ℕ) (buf : CouvBuf) (blk : ℕ) (hb : s.mem.bufs.get b = some buf)
    (ho : buf.orig = some blk) : ∃ bl, s.mem.blocks.get blk = some bl := hs.live (.buf b buf hb) ho

section queues
variable (hq : QueueOk s.handles s.input)
include hq

/-- The Buffer that a read returns takes over the reference of the node. -/
theorem deliver (L : ℕ) (m : InputMode) {h n : ℕ} {ns : List ℕ} {node : InputNode}
    (hroot : h ∈ s.input.roots) (hh : s.input.queued h = n :: ns)
    (hn : s.input.nodes.get n = some node) : (s.deliver L m h n node).RefOk := by
  obtain ⟨-, hself, hother⟩ := hq.unlink hroot hh
  -- the node is in the queue of its handle, and its block passes to the new userdata
  have hmem : n ∈ s.input.queued node.handle := by
    have happended : n ∈ s.input.appended h := hq.queued_sub (hh ▸ List.mem_cons_self)
    obtain ⟨node', -, hn', hk, -⟩ := hq.node h n happended
    obtain rfl := Option.some.inj (hn.symm.trans hn')
    rw [hk, hh]
    exact List.mem_cons_self
  change Couv.RefOk { s.mem with bufs := s.mem.bufs.alloc node.wBuf } (s.input.unlink h n) s.reads
  refine Couv.RefOk.transfer hs rfl rfl rfl ?_ ?_
  · intro blk
    rw [refCount_allocBuf]
    exact refCount_unlink hq hroot hh hn
  · intro buf hb
    cases hb with
    | buf b buf hb =>
      rcases s.mem.bufs.alloc_eq_some.mp hb with ⟨-, rfl⟩ | ⟨-, hb⟩
      · exact .inl (.node n node hmem hn)
      · exact .inl (.buf b buf hb)
    | node k node' hk hget =>
      refine .inl (.node k node' ?_ hget)
      by_cases hkh : node'.handle = h
      · rw [hkh, hself] at hk
        rw [hkh, hh]
        exact List.mem_cons_of_mem _ hk
      · rw [hother _ hkh] at hk
        exact hk
    | read r hr => exact .inl (.read r hr)

theorem couvPrimRead (boundary : Bool) (L : ℕ) {m : InputMode} {h : ℕ}
    (hroot : h ∈ s.input.roots) : (s.couvPrimRead boundary L m h).RefOk := by
  rcases couvPrimRead_cases (s := s) boundary L m h with ⟨-, hr⟩ | ⟨n, node, he, hh, hn, hr⟩ | hr
  · rw [hr, quiet_refOk.luaYield]
    exact hs
  · obtain ⟨ns, hns⟩ := hq.head hroot he hh
    rw [hr]
    exact hs.deliver hq L m hroot hns hn
  · rw [hr]
    exact hs

theorem couvResume (hw : WaitsOk s.handles s.status) (L : ℕ) (src : Source)
    (args : List Value) : (s.couvResume L src args).RefOk := by
  rcases couvResume_cases (s := s) L src args with
    hr | ⟨-, hr⟩ | ⟨w, -, -, hr⟩ | ⟨m, h, n, node, hst, he, hh, hn, hr⟩
  · rw [hr]
    exact hs
  · rw [hr, quiet_refOk.start]
    exact hs
  · rw [hr, quiet_refOk.log, quiet_refOk.start]
    exact hs
  · obtain ⟨x, hx, hl, ht⟩ := hw L m h hst
    have hroot := hq.root h x hx hl (InputMode.plain_of_mem ht)
    obtain ⟨ns, hns⟩ := hq.head hroot he hh
    rw [hr]
    exact World.RefOk.deliver (s := s.start L) hs hq L m hroot hns hn

end queues

/-- An input callback: the node takes over the reference of libuv. -/
theorem enqueue (hq : QueueOk s.handles s.input) {node : InputNode} {rd : Option UvRead}
    (hbuf : node.wBuf = inputBuf rd) (hready : s.InputReady node.mode node.handle rd) :
    ((s.takeRead rd).enqueue node).RefOk := by
  obtain ⟨⟨x, hx, hl, hr⟩, hread⟩ := hready
  have ht := hq.reading _ x _ hx hr
  have hroot := hq.root _ x hx hl (InputMode.plain_of_mem ht)
  obtain ⟨-, hself, hother⟩ := hq.append hx ht hroot
  -- what holds a block afterwards held it before, or is the new node
  have hholder : ∀ rs, (∀ r ∈ rs, r ∈ s.reads) → ∀ buf,
      Holder s.mem.bufs (s.input.append node) rs buf →
        Holder s.mem.bufs s.input s.reads buf ∨ buf = inputBuf rd := by
    intro rs hrs buf hb
    cases hb with
    | buf b buf hb => exact .inl (.buf b buf hb)
    | read r hr => exact .inl (.read r (hrs r hr))
    | node n node' hn hget =>
      rcases s.input.nodes.alloc_eq_some.mp hget with ⟨-, rfl⟩ | ⟨hne, hget⟩
      · exact .inr hbuf
      · refine .inl (.node n node' ?_ hget)
        by_cases hh : node'.handle = node.handle
        · rw [hh, hself, List.mem_append, List.mem_singleton] at hn
          rw [hh]
          exact hn.resolve_right hne
        · rw [hother _ hh] at hn
          exact hn
  have hcount : ∀ blk, refCount s.mem.bufs (s.input.append node) s.reads blk =
      refCount s.mem.bufs s.input s.reads blk + ((inputBuf rd).refersTo blk).toNat := by
    intro blk
    rw [refCount_append hq hx ht hroot, hbuf]
  cases rd with
  | none =>
    change Couv.RefOk s.mem (s.input.append node) s.reads
    refine Couv.RefOk.transfer hs rfl rfl rfl ?_ ?_
    · exact hcount
    · exact hholder s.reads (fun _ => id)
  | some rd =>
    have hmem := (hread rd rfl).1
    change Couv.RefOk s.mem (s.input.append node) (s.reads.erase rd)
    refine Couv.RefOk.transfer hs rfl rfl rfl ?_ ?_
    · intro blk
      have htake := refCount_takeRead s.mem.bufs (s.input.append node) blk hmem
      have hadd := hcount blk
      omega
    · intro buf hb
      rcases hholder _ (fun _ => List.mem_of_mem_erase) buf hb with hb | rfl
      · exact .inl hb
      · exact .inl (.read rd hmem)

theorem couvBufAllocCb (h : ℕ) {n : ℕ} (hn : n < 2^31) (env : AllocEnv) :
    (s.couvBufAllocCb h n env).RefOk := by
  -- libuv suggests an int, so the size with the counter does not wrap
  have hsize : (couvBufMemHeader+n) % 2^64 = couvBufMemHeader+n :=
    Nat.mod_eq_of_lt (by unfold couvBufMemHeader; omega)
  cases henv : env.ok with
  | false =>
    have he : s.couvBufAllocCb h n env = s := by
      simp only [World.couvBufAllocCb, couvBufMemAlloc, henv, if_true]
    rw [he]
    exact hs
  | true =>
    have halloc : couvBufMemAlloc env n s.mem = .ok s.mem.blocks.next
        { s.mem with blocks := s.mem.blocks.alloc ⟨1, n, env.junk⟩ } := by
      simp only [couvBufMemAlloc, henv, hsize]
      rw [if_neg (by decide), if_neg (by omega), Nat.add_sub_cancel_left]
    have he : s.couvBufAllocCb h n env = { s with
        mem := { s.mem with blocks := s.mem.blocks.alloc ⟨1, n, env.junk⟩ }
        reads := ⟨h, s.mem.blocks.next, n⟩ :: s.reads } := by
      simp only [World.couvBufAllocCb, halloc]
    rw [he]
    change Couv.RefOk { s.mem with blocks := s.mem.blocks.alloc ⟨1, n, env.junk⟩ } s.input
      (⟨h, s.mem.blocks.next, n⟩ :: s.reads)
    refine Couv.RefOk.allocBlock (n := n) hs (s.mem.blocks.map_alloc _ _)
      (s.mem.blocks.map_alloc _ _) rfl ?_ ?_
    · intro blk
      rw [refCount_addRead]
      congr 1
      by_cases hb : blk = s.mem.blocks.next
      · simp [CouvBuf.refersTo, inputBuf, hb]
      · simp [CouvBuf.refersTo, inputBuf, hb, Ne.symm hb]
    · intro buf hb
      cases hb with
      | buf b buf hb => exact .inl (.buf b buf hb)
      | node k node hk hget => exact .inl (.node k node hk hget)
      | read r hr =>
        rcases List.mem_cons.mp hr with rfl | hr
        · exact .inr rfl
        · exact .inl (.read r hr)

theorem collectBuffer (hfew : ∀ blk, s.refs blk < 2^31) {b : ℕ}
    (hb : (s.mem.bufs.get b).isSome) : (s.collectBuffer b).RefOk := by
  obtain ⟨buf, hget⟩ := Option.isSome_iff_exists.mp hb
  have hgc := after_bufferGc hget
  rw [collectBuffer_mem]
  cases ho : buf.orig with
  | none =>
    rw [ho, if_pos rfl] at hgc
    rw [hgc]
    exact Couv.RefOk.collectNull hs hget ho
  | some blk =>
    rw [ho, if_neg (Option.some_ne_none blk)] at hgc
    rw [hgc]
    exact Couv.RefOk.collect hs hget ho (hfew blk)

section steps
variable (hin : s.InputOk)
include hin

theorem execLua (L : ℕ) (a : LuaAct) : (s.execLua L a).RefOk := by
  cases a with
  | resume T args =>
    have hresume := hs.couvResume hin.queue hin.waits T .lua args
    simp only [World.execLua]
    split
    · exact hresume
    · exact hresume
    · exact hs
  | yield boundary =>
    simp only [World.execLua]
    rw [quiet_refOk.luaYield]
    exact hs
  | create | finish | callReturn | uvRun | uvRunReturn => exact hs

omit hin in
/-- An empty queue holds nothing. -/
theorem initQueue (h : ℕ) : (s.initQueue h).RefOk := by
  refine Couv.RefOk.transfer hs rfl rfl rfl (fun _ => rfl) ?_
  intro buf hb
  left
  cases hb with
  | buf b buf hb => exact .buf b buf hb
  | node n node hn hget => exact .node n node hn hget
  | read r hr => exact .read r hr

omit hin in
theorem execHandle {L : ℕ} {a : HandleAct} (hg : s.guardHandle a) :
    (s.execHandle L a).RefOk := by
  obtain ⟨hs', reg, input, he, -, ⟨-, rfl⟩ | ⟨x, -, -, ⟨rfl, -⟩ | ⟨rfl, -⟩⟩ |
    ⟨h, x, f, -, -, -, -, -, rfl⟩⟩ := (execHandle_spec (L := L) hg).cases
  all_goals
    rw [he]
    first
    | exact hs
    | exact hs.initQueue _

theorem execCall (boundary : Bool) (L : ℕ) {c : Call} (hg : s.guardCall c) :
    (s.execCall boundary L c).RefOk := by
  by_cases hread : ∃ m h, c = .read m h
  · obtain ⟨m, h, rfl⟩ := hread
    obtain ⟨x, hx, hl, -, ht, -⟩ := hg
    exact hs.couvPrimRead hin.queue boundary L
      (hin.queue.root h x hx hl (InputMode.plain_of_mem ht))
  · rw [quiet_refOk.execCall (fun _ _ => rfl) (fun _ _ => rfl) (fun _ _ => rfl) boundary L hg
      (fun m h he => hread ⟨m, h, he⟩)]
    exact hs

theorem complete (r : ℕ) (o : Outcome) : (s.complete r o).RefOk := by
  cases hr : s.reqs.get r with
  | none => simpa only [World.complete, hr] using hs
  | some q =>
    rcases complete_cases hr o with ⟨-, he⟩ | ⟨-, he⟩ | ⟨-, -, t, ht, he⟩
    · rw [he]
      exact hs
    · rw [he]
      obtain ⟨reg, -, ⟨-, he⟩ | ⟨-, he⟩⟩ := closeCb_cases (s := s) (q.handle.getD 0) r
      · rw [he]
        exact hs
      · rw [he]
        have hclean := hin.cleaned (q.handle.getD 0) r reg
        exact World.RefOk.couvResume (s := s.cleaned (q.handle.getD 0) r reg) hs hclean.queue
          hclean.waits _ _ _
    · have hfree : World.RefOk { t with reqs := s.reqs.free r } := by
        rcases ht with rfl | rfl <;> exact hs
      rw [he]
      refine hfree.couvResume ?_ ?_ _ _ _
      · rcases ht with rfl | rfl <;> exact hin.queue
      · rcases ht with rfl | rfl <;> exact hin.waits

theorem execEvent {e : Event} (hg : s.guardEvent e) : (s.execEvent e).RefOk := by
  cases hn : e.node with
  | some node =>
    obtain ⟨rd, he, hbuf, hready⟩ := inputEvent hg hn
    have henq := hs.enqueue hin.queue hbuf hready
    obtain ⟨⟨x, hx, hl, hr⟩, -⟩ := hready
    have ht := hin.queue.reading _ x _ hx hr
    have hroot := hin.queue.root _ x hx hl (InputMode.plain_of_mem ht)
    -- the node is in the queue before the coroutine is resumed
    have happend := (hin.queue.append hx ht hroot).1
    rw [he]
    simp only [inputCb]
    split
    · refine henq.couvResume ?_ ?_ _ _ _
      · cases rd <;> exact happend
      · cases rd <;> exact hin.waits
    · exact henq
  | none =>
    cases e with
    | readCb | read2Cb | udpRecvCb => cases hn
    | complete r o => exact hs.complete hin r o
    | alloc h n env => exact hs.couvBufAllocCb h hg.1 env
    | timerCb | exitCb | connectionCb => exact hs

omit hin in
/-- The Buffer functions of Lua code. -/
theorem execHeap {a : HeapAct} (halloc : AllocStep s (.heap a)) : (s.execHeap a).RefOk := by
  have hfew : ∀ {α : Type} (x : BufM α), s.exec (.heap a) = s.runBuf x →
      s.mem.Allocs (BufM.after x s.mem) → (s.runBuf x).RefOk := by
    intro α x he hm
    have hbound := halloc.2
    rw [he, runBuf_mem] at hbound
    rw [runBuf_mem]
    exact Couv.RefOk.allocs hs hm (fun blk bl hbl => (Store.all_iff _).mp hbound blk bl hbl)
  cases a with
  | newString | newTable | setTable => exact hs
  | bufNew env arg => exact hfew _ rfl (bufferNew_allocs halloc.1.1 s.mem halloc.1.2)
  | bufSlice env self first last =>
    exact hfew _ rfl (bufferSlice_allocs hs.null_len hs.buf_live env _ _ _)
  | bufConcat env items total =>
    exact hfew _ rfl (bufferConcat_allocs halloc.1.1 s.mem halloc.1.2)

theorem exec (hfew : ∀ blk, s.refs blk < 2^31) {a : Action} (hg : s.guard a)
    (halloc : AllocStep s a) : (s.exec a).RefOk := by
  cases a with
  | lua a => exact hs.execLua hin _ a
  | handle m => exact hs.execHandle hg.2
  | call boundary c => exact hs.execCall hin boundary _ hg.2
  | heap a => exact hs.execHeap halloc
  | event e => exact hs.execEvent hin hg.2
  | gc g =>
    cases g with
    | buffer b => exact hs.collectBuffer hfew hg.1
    | thread | handle | string => exact hs

end steps

end RefOk
end World

/-- What a run in which allocations succeed keeps. -/
structure BlocksOk (s : World) : Prop where
  stack : s.StackOk
  input : s.InputOk
  refs : s.RefOk
  few : ∀ blk, s.refs blk < 2^31

theorem blocksOk_init : BlocksOk .init where
  stack := stackOk_init
  input := inputOk_init
  refs := refOk_init
  few blk := by
    have hzero : World.init.refs blk = 0 := refOk_init.counted.gone blk rfl
    omega

theorem BlocksOk.exec {s : World} (hs : BlocksOk s) {a : Action} (hg : s.guard a)
    (halloc : AllocStep s a) : BlocksOk (s.exec a) := by
  have hrefs := hs.refs.exec hs.input hs.few hg halloc
  refine ⟨hs.stack.exec hg, hs.input.exec hs.stack hg, hrefs, fun blk => ?_⟩
  cases hbl : (s.exec a).mem.blocks.get blk with
  | some bl => exact (Store.all_iff _).mp halloc.2 blk bl hbl
  | none =>
    have hzero : (s.exec a).refs blk = 0 := hrefs.counted.gone blk (by
      rw [Mem.cells, Store.map_get, hbl]
      rfl)
    omega

theorem run_blocksOk {as : List Action} (he : couv.Enabled .init as)
    (halloc : couv.Along AllocStep .init as) : BlocksOk (couv.run .init as) :=
  Machine.run_invariant (fun _ _ hs hp => hs.exec hp.1 hp.2) blocksOk_init
    (Machine.along_and.mpr ⟨he, halloc⟩)

/-- In every reachable state of a run in which allocations succeed, the counter of a live block
is the number of the live Buffers, queued nodes and outstanding reads that refer to it; a block
has been freed, once, exactly when that number is 0; no one refers to a freed block; and a Buffer
without a block has length 0, so that slice retains no NULL. -/
theorem blocks_counted {as : List Action} (he : couv.Enabled .init as)
    (halloc : couv.Along AllocStep .init as) :
    (∀ blk bl, (couv.run .init as).mem.blocks.get blk = some bl →
      bl.refCnt = (couv.run .init as).refs blk) ∧
    (∀ blk < (couv.run .init as).mem.blocks.next,
      ((couv.run .init as).mem.blocks.get blk = none ↔ (couv.run .init as).refs blk = 0) ∧
      (couv.run .init as).mem.freed.count blk =
        if (couv.run .init as).refs blk = 0 then 1 else 0) ∧
    (∀ blk ∈ (couv.run .init as).mem.freed, blk < (couv.run .init as).mem.blocks.next) ∧
    (∀ buf blk, Holder (couv.run .init as).mem.bufs (couv.run .init as).input
      (couv.run .init as).reads buf → buf.orig = some blk →
        ((couv.run .init as).mem.blocks.get blk).isSome) ∧
    (∀ b buf, (couv.run .init as).mem.bufs.get b = some buf → buf.orig = none → buf.len = 0) ∧
    ∀ env self first last m,
      bufferSlice env self first last (couv.run .init as).mem ≠ .error .fault m := by
  have hs := (run_blocksOk he halloc).refs
  generalize couv.run .init as = s at hs
  have hcell : ∀ blk, s.mem.cells.get blk = (s.mem.blocks.get blk).map (·.refCnt) :=
    fun _ => rfl
  -- the counts, the freed blocks, the holders and slice, in this order
  refine ⟨?_, ?_, hs.counted.fresh, ?_, hs.null_len, ?_⟩
  · intro blk bl hbl
    exact (hs.counted.live blk bl.refCnt (by rw [hcell, hbl]; rfl)).1
  · intro blk hlt
    refine ⟨⟨fun hnone => hs.counted.gone blk (by rw [hcell, hnone]; rfl), fun hzero => ?_⟩,
      hs.counted.count_freed hlt⟩
    cases hbl : s.mem.blocks.get blk with
    | none => rfl
    | some bl =>
      have hpos := (hs.counted.live blk bl.refCnt (by rw [hcell, hbl]; rfl)).2.1
      exact absurd hzero hpos.ne'
  · intro buf blk hb ho
    exact Option.isSome_iff_exists.mpr (hs.live hb ho)
  · intro env self first last m hfault
    rcases bufferSlice_cases hs.null_len hs.buf_live env self first last with
      ⟨e, hr⟩ | ⟨b, buf, buf', blk, bl, -, -, -, -, -, hr⟩
    · rw [hr] at hfault
      cases hfault
    · rw [hr] at hfault
      cases hfault

/-- A Buffer and a slice of it are made and collected. -/
def sliceCollected : List Action :=
  let env : AllocEnv := ⟨true, fun _ => 0, ⟨none, none, 0⟩⟩
  [.heap (.bufNew env (.number 4)), .heap (.bufSlice env (.buffer 0) (.number 2) .nil),
    .gc (.buffer 0), .gc (.buffer 1)]

theorem blocks_counted_slice : (couv.run .init sliceCollected).mem.freed.count 0 = 1 :=
  (((blocks_counted (show couv.Enabled .init sliceCollected by decide)
    (show couv.Along AllocStep .init sliceCollected by decide)).2.1 0 (by decide)).2).trans
      (if_pos (by decide))

end Couv
