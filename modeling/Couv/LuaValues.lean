import Couv.BlockLife
import Couv.BufferCalls
import Couv.Pending

/-! The strings, tables and Buffers of Lua code, and the coroutines, after a step: only the
collector takes them, and only Lua code writes to a table. -/
namespace Couv
namespace World

/-- The values of `s` are still there in `s'`. -/
structure Retains (s s' : World) : Prop where
  strings : s'.strings = s.strings
  tables : s'.tables = s.tables
  collected : s'.collected = s.collected
  bufs : ∀ b buf, s.mem.bufs.get b = some buf → s'.mem.bufs.get b = some buf
  sizes : s.mem.sizes.Later s'.mem.sizes
  next : s.mem.bufs.next ≤ s'.mem.bufs.next
  nodes : ∀ n node, s.input.nodes.get n = some node → s'.input.nodes.get n = some node
  /-- a new Buffer is that of a node -/
  made : ∀ b buf, s'.mem.bufs.get b = some buf → s.mem.bufs.get b = some buf ∨
    s.mem.bufs.next ≤ b ∧ ∃ n node, s'.input.nodes.get n = some node ∧ node.wBuf = buf

namespace Retains
variable {s t : World}

theorem refl (s : World) : s.Retains s where
  strings := rfl
  tables := rfl
  collected := rfl
  bufs _ _ := id
  sizes := .refl _
  next := le_rfl
  nodes _ _ := id
  made _ _ := .inl

theorem later (h : s.Retains t) : s.mem.bufs.Later t.mem.bufs :=
  ⟨h.next, fun b buf hb ht => (h.made b buf ht).resolve_right (fun hnew => absurd hb hnew.1.not_gt)⟩

/-- Parts of the state that hold no values. -/
theorem of_eq {t' : World} (h : s.Retains t) (hstr : t'.strings = t.strings)
    (htab : t'.tables = t.tables) (hcol : t'.collected = t.collected)
    (hmem : t'.mem = t.mem) (hnodes : t'.input.nodes = t.input.nodes) : s.Retains t' where
  strings := hstr.trans h.strings
  tables := htab.trans h.tables
  collected := hcol.trans h.collected
  bufs := by
    rw [hmem]
    exact h.bufs
  sizes := by
    rw [hmem]
    exact h.sizes
  next := by
    rw [hmem]
    exact h.next
  nodes := by
    rw [hnodes]
    exact h.nodes
  made := by
    rw [hmem, hnodes]
    exact h.made

section
variable (h : s.Retains t)
include h

theorem start (L : ℕ) : s.Retains (t.start L) :=
  h.of_eq rfl rfl (funext (t.collected_setStatus L _)) rfl rfl

theorem luaYield (boundary : Bool) (w : Wait) : s.Retains (t.luaYield boundary w) := by
  rcases luaYield_cases (s := t) boundary w with hr | ⟨L, -, -, -, hr⟩
  · rw [hr]
    exact h
  · rw [hr]
    exact h.of_eq rfl rfl (funext (t.collected_setStatus L _)) rfl rfl

theorem deliver (L : ℕ) (m : InputMode) (k : ℕ) {n : ℕ} {node : InputNode}
    (hn : t.input.nodes.get n = some node) : s.Retains (t.deliver L m k n node) where
  strings := h.strings
  tables := h.tables
  collected := h.collected
  bufs b buf hb := t.mem.bufs.alloc_get_of_some (h.bufs b buf hb)
  sizes := h.sizes
  next := h.next.trans (Nat.le_succ _)
  nodes := h.nodes
  made b buf hb := by
    rcases t.mem.bufs.alloc_eq_some.mp hb with ⟨rfl, rfl⟩ | ⟨-, hb⟩
    · exact .inr ⟨h.next, n, node, hn, rfl⟩
    · exact h.made b buf hb

/-- A new node. -/
theorem enqueue (node : InputNode) : s.Retains (t.enqueue node) where
  strings := h.strings
  tables := h.tables
  collected := h.collected
  bufs := h.bufs
  sizes := h.sizes
  next := h.next
  nodes n node' hn := t.input.nodes.alloc_get_of_some (h.nodes n node' hn)
  made b buf hb := by
    refine (h.made b buf hb).imp_right ?_
    rintro ⟨hle, n, node', hn, hbuf⟩
    exact ⟨hle, n, node', t.input.nodes.alloc_get_of_some hn, hbuf⟩

theorem couvPrimRead (boundary : Bool) (L : ℕ) (m : InputMode) (k : ℕ) :
    s.Retains (t.couvPrimRead boundary L m k) := by
  rcases couvPrimRead_cases (s := t) boundary L m k with ⟨-, hr⟩ | ⟨n, node, -, -, hn, hr⟩ | hr
  · rw [hr]
    exact h.luaYield boundary _
  · rw [hr]
    exact h.deliver L m k hn
  · rw [hr]
    exact h

theorem couvResume (L : ℕ) (src : Source) (args : List Value) :
    s.Retains (t.couvResume L src args) := by
  rcases couvResume_cases (s := t) L src args with
    hr | ⟨-, hr⟩ | ⟨w, -, -, hr⟩ | ⟨m, k, n, node, -, -, -, hn, hr⟩
  · rw [hr]
    exact h
  · rw [hr]
    exact h.start L
  · rw [hr]
    exact (h.start L).of_eq rfl rfl rfl rfl rfl
  · rw [hr]
    exact (h.start L).deliver L m k hn

end

theorem execLua (s : World) (L : ℕ) (a : LuaAct) : s.Retains (s.execLua L a) := by
  cases a with
  | create => exact (refl s).of_eq rfl rfl (passive_collected.create s) rfl rfl
  | resume T args =>
    simp only [World.execLua]
    split
    · exact (refl s).couvResume T .lua args
    · exact (refl s).couvResume T .lua args
    · exact refl s
  | yield boundary => exact (refl s).luaYield boundary .yield
  | finish callable =>
    exact (refl s).of_eq rfl rfl (funext (s.collected_setStatus L (.finished callable))) rfl rfl
  | callReturn | uvRun | uvRunReturn => exact (refl s).of_eq rfl rfl rfl rfl rfl

theorem execHandle (s : World) (L : ℕ) {a : HandleAct} (hg : s.guardHandle a) :
    s.Retains (s.execHandle L a) := by
  obtain ⟨hs, reg, input, he, -, hinput⟩ := (execHandle_spec (L := L) hg).cases
  rw [he]
  rcases hinput with ⟨-, rfl⟩ | ⟨x, -, -, ⟨rfl, -⟩ | ⟨rfl, -⟩⟩ | ⟨k, x, f, -, -, -, -, -, rfl⟩
  all_goals exact (refl s).of_eq rfl rfl rfl rfl rfl

theorem execCall (s : World) (boundary : Bool) (L : ℕ) {c : Call} (hg : s.guardCall c) :
    s.Retains (s.execCall boundary L c) := by
  rcases (execCall_spec boundary L hg).cases with
    ⟨m, k, -, hr⟩ | ⟨k, -, hr⟩ | hr | ⟨req, hr⟩ | ⟨t, req, ha, hr⟩
  · rw [hr]
    exact (refl s).couvPrimRead boundary L m k
  · rw [hr]
    simp only [couvClose]
    split
    · exact (refl s).of_eq rfl rfl rfl rfl rfl
    · refine Retains.luaYield ?_ boundary _
      exact (refl s).of_eq rfl rfl rfl rfl rfl
  · rw [hr]
    exact refl s
  · rw [hr]
    exact (refl s).of_eq rfl rfl rfl rfl rfl
  · have hnew : s.Retains (t.newReq req) := by
      rcases ha.state with ⟨rfl, -⟩ | ⟨rfl, -⟩
      · exact (refl _).of_eq rfl rfl rfl rfl rfl
      · exact (refl s).of_eq rfl rfl rfl rfl rfl
    rw [hr]
    exact hnew.luaYield boundary _

theorem complete (s : World) (r : ℕ) (o : Outcome) : s.Retains (s.complete r o) := by
  cases hr : s.reqs.get r with
  | none => simpa only [World.complete, hr] using refl s
  | some q =>
    rcases complete_cases hr o with ⟨-, he⟩ | ⟨-, he⟩ | ⟨-, -, t, ht, he⟩
    · rw [he]
      exact (refl s).of_eq rfl rfl rfl rfl rfl
    · have hclean : ∀ reg, s.Retains (s.cleaned (q.handle.getD 0) r reg) :=
        fun reg => (refl s).of_eq rfl rfl rfl rfl rfl
      rw [he]
      obtain ⟨reg, -, ⟨-, he⟩ | ⟨-, he⟩⟩ := closeCb_cases (s := s) (q.handle.getD 0) r
      · rw [he]
        exact hclean reg
      · rw [he]
        exact (hclean reg).couvResume _ _ _
    · rw [he]
      refine Retains.couvResume ?_ _ _ _
      rcases ht with rfl | rfl
      · exact (refl _).of_eq rfl rfl rfl rfl rfl
      · exact (refl s).of_eq rfl rfl rfl rfl rfl

theorem couvBufAllocCb (s : World) (h n : ℕ) (env : AllocEnv) :
    s.Retains (s.couvBufAllocCb h n env) := by
  rcases couvBufMemAlloc_cases env n s.mem with ⟨-, he⟩ | ⟨-, he⟩
  · simp only [World.couvBufAllocCb, he]
    exact refl s
  · simp only [World.couvBufAllocCb, he]
    have hsizes := s.mem.sizes_allocBlock ⟨1, newBlockSize n, env.junk⟩
    exact { refl s with sizes := hsizes ▸ s.mem.sizes.later_alloc _ }

theorem execEvent (s : World) {e : Event} (hg : s.guardEvent e) : s.Retains (s.execEvent e) := by
  cases hn : e.node with
  | some node =>
    obtain ⟨rd, he, -⟩ := inputEvent hg hn
    have henq : s.Retains ((s.takeRead rd).enqueue node) := by
      refine Retains.enqueue ?_ node
      cases rd <;> exact (refl s).of_eq rfl rfl rfl rfl rfl
    rw [he]
    simp only [inputCb]
    split
    · exact henq.couvResume _ _ _
    · exact henq
  | none =>
    cases e with
    | readCb | read2Cb | udpRecvCb => cases hn
    | complete r o => exact complete s r o
    | alloc h n env => exact .couvBufAllocCb s h n env
    | timerCb | exitCb | connectionCb => exact (refl s).of_eq rfl rfl rfl rfl rfl

end Retains
end World

/-- The value that the collector takes. -/
def Action.collects : Action → Option Item
  | .gc (.buffer b) => some (.buffer b)
  | .gc (.string sid) => some (.str sid)
  | _ => none

namespace World
variable {s : World} {a : Action}

theorem exec_retains (hg : s.guard a) (hheap : ∀ h, a ≠ .heap h) (hgc : ∀ g, a ≠ .gc g) :
    s.Retains (s.exec a) := by
  cases a with
  | lua a => exact .execLua s _ a
  | handle m => exact .execHandle s _ hg.2
  | call boundary c => exact .execCall s boundary _ hg.2
  | heap a => exact absurd rfl (hheap a)
  | event e => exact .execEvent s hg.2
  | gc g => exact absurd rfl (hgc g)

/-- Only the collector ends the life of a string. -/
theorem exec_strings (hg : s.guard a) {sid : ℕ} {str : LuaString}
    (hs : s.strings.get sid = some str) :
    (s.exec a).strings.get sid = some str ∨ a.collects = some (.str sid) := by
  by_cases hheap : ∃ h, a = .heap h
  · obtain ⟨h, rfl⟩ := hheap
    left
    cases h with
    | newString str => exact s.strings.alloc_get_of_some hs
    | newTable | setTable => exact hs
    | bufNew | bufSlice | bufConcat => simpa only [exec, execHeap, runBuf_mem] using hs
  -- a heap action or a collection may change the strings, no other action
  by_cases hgc : ∃ g, a = .gc g
  · obtain ⟨g, rfl⟩ := hgc
    cases g with
    | thread | handle => exact .inl hs
    | buffer b =>
      left
      change (s.collectBuffer b).strings.get sid = some str
      rw [collectBuffer_mem]
      exact hs
    | string sid' =>
      by_cases hsid : sid = sid'
      · exact .inr (by rw [hsid]; rfl)
      · exact .inl ((s.strings.free_get_ne hsid).trans hs)
  · left
    rw [(exec_retains hg (not_exists.mp hheap) (not_exists.mp hgc)).strings]
    exact hs

/-- A Buffer function makes one Buffer at most. -/
theorem execHeap_bufs (s : World) (h : HeapAct) : s.mem.OneBuf (s.execHeap h).mem := by
  cases h with
  | newString | newTable | setTable => exact .inl rfl
  | bufNew env arg =>
    simp only [execHeap, runBuf_mem]
    exact bufferNew_oneBuf env s.mem arg
  | bufSlice env self first last =>
    simp only [execHeap, runBuf_mem]
    exact bufferSlice_oneBuf env s.mem self first last
  | bufConcat env items total =>
    simp only [execHeap, runBuf_mem]
    exact bufferConcat_oneBuf env s.mem items total

theorem collectBuffer_bufs (s : World) (b : ℕ) :
    (s.collectBuffer b).mem.bufs = s.mem.bufs.free b := by
  have hafter : (BufM.after (bufferGc (.buffer b)) s.mem).bufs = s.mem.bufs := by
    rcases after_bufferGc_cases s.mem b with he | ⟨ptr, he⟩
    · rw [he]
    · rw [he, after_release_bufs]
  rw [collectBuffer_mem, hafter]

/-- Only the collector ends the life of a Buffer, and no step changes where it points. -/
theorem exec_bufs (hg : s.guard a) {b : ℕ} {buf : CouvBuf} (hb : s.mem.bufs.get b = some buf) :
    (s.exec a).mem.bufs.get b = some buf ∨ a.collects = some (.buffer b) := by
  by_cases hheap : ∃ h, a = .heap h
  · obtain ⟨h, rfl⟩ := hheap
    left
    rcases execHeap_bufs s h with he | ⟨buf', he⟩
    · exact he ▸ hb
    · exact he ▸ s.mem.bufs.alloc_get_of_some hb
  by_cases hgc : ∃ g, a = .gc g
  · obtain ⟨g, rfl⟩ := hgc
    cases g with
    | thread | handle | string => exact .inl hb
    | buffer b' =>
      by_cases hbb : b = b'
      · exact .inr (by rw [hbb]; rfl)
      · left
        change (s.collectBuffer b').mem.bufs.get b = some buf
        rw [collectBuffer_bufs, s.mem.bufs.free_get_ne hbb]
        exact hb
  · exact .inl ((exec_retains hg (not_exists.mp hheap) (not_exists.mp hgc)).bufs b buf hb)

theorem execHeap_later (s : World) (h : HeapAct) :
    s.mem.sizes.Later (s.execHeap h).mem.sizes := by
  cases h with
  | newString | newTable | setTable => exact .refl _
  | bufNew env arg =>
    simp only [execHeap, runBuf_mem]
    exact bufferNew_later env s.mem arg
  | bufSlice env self first last =>
    simp only [execHeap, runBuf_mem]
    exact bufferSlice_later env s.mem self first last
  | bufConcat env items total =>
    simp only [execHeap, runBuf_mem]
    exact bufferConcat_later env s.mem items total

theorem collectBuffer_later (s : World) (b : ℕ) :
    s.mem.sizes.Later (s.collectBuffer b).mem.sizes := by
  rw [collectBuffer_mem]
  change s.mem.sizes.Later (BufM.after (bufferGc (.buffer b)) s.mem).sizes
  rcases after_bufferGc_cases s.mem b with he | ⟨ptr, he⟩
  · rw [he]
    exact .refl _
  · rw [he]
    exact release_later ptr s.mem

/-- No step changes a Buffer or the size of a block, or uses an address twice. -/
theorem exec_later (hg : s.guard a) : s.mem.bufs.Later (s.exec a).mem.bufs ∧
    s.mem.sizes.Later (s.exec a).mem.sizes := by
  by_cases hheap : ∃ h, a = .heap h
  · obtain ⟨h, rfl⟩ := hheap
    refine ⟨?_, execHeap_later s h⟩
    rcases execHeap_bufs s h with he | ⟨buf, he⟩
    · simp only [exec, he]
      exact .refl _
    · simp only [exec, he]
      exact s.mem.bufs.later_alloc buf
  by_cases hgc : ∃ g, a = .gc g
  · obtain ⟨g, rfl⟩ := hgc
    cases g with
    | thread | handle | string => exact ⟨.refl _, .refl _⟩
    | buffer b =>
      refine ⟨?_, collectBuffer_later s b⟩
      simp only [exec, execGc, collectBuffer_bufs]
      exact s.mem.bufs.later_free b
  · have h := exec_retains hg (not_exists.mp hheap) (not_exists.mp hgc)
    exact ⟨h.later, h.sizes⟩

/-- Only Lua code takes a value out of a table. -/
theorem exec_argItems (hg : s.guard a) {arg : Arg} {i : Item} (hi : i ∈ s.argItems arg)
    (hset : ∀ t items, a = .heap (.setTable t items) → arg = .table t → i ∈ items) :
    i ∈ (s.exec a).argItems arg := by
  cases arg with
  | none => cases hi
  | item j => exact hi
  | table t =>
    obtain ⟨items, ht, hmem⟩ : ∃ items, s.tables.get t = some items ∧ i ∈ items := by
      cases ht : s.tables.get t with
      | none =>
        simp only [argItems, ht, Option.getD_none] at hi
        cases hi
      | some items => exact ⟨items, rfl, by simpa only [argItems, ht, Option.getD_some] using hi⟩
    have hnew : ∀ items', (s.exec a).tables.get t = some items' → i ∈ items' →
        i ∈ (s.exec a).argItems (.table t) := by
      intro items' ht' hmem'
      simpa only [argItems, ht', Option.getD_some] using hmem'
    by_cases hheap : ∃ h, a = .heap h
    · obtain ⟨h, rfl⟩ := hheap
      cases h with
      | newTable items' => exact hnew items (s.tables.alloc_get_of_some ht) hmem
      | setTable t' items' =>
        -- only setTable changes a table
        by_cases htt : t = t'
        · subst htt
          exact hnew items' (s.tables.modify_get_self _ ht) (hset t items' rfl rfl)
        · exact hnew items ((s.tables.modify_get_ne _ htt).trans ht) hmem
      | newString => exact hnew items ht hmem
      | bufNew | bufSlice | bufConcat =>
        exact hnew items (by simpa only [exec, execHeap, runBuf_mem] using ht) hmem
    by_cases hgc : ∃ g, a = .gc g
    · obtain ⟨g, rfl⟩ := hgc
      cases g with
      | thread | handle | string => exact hnew items ht hmem
      | buffer b =>
        refine hnew items ?_ hmem
        change (s.collectBuffer b).tables.get t = some items
        rw [collectBuffer_mem]
        exact ht
    · refine hnew items ?_ hmem
      rw [(exec_retains hg (not_exists.mp hheap) (not_exists.mp hgc)).tables]
      exact ht

theorem exec_collected (hg : s.guard a) (T : ℕ) :
    (s.exec a).collected T = s.collected T ∨ a = .gc (.thread T) := by
  by_cases hheap : ∃ h, a = .heap h
  · obtain ⟨h, rfl⟩ := hheap
    exact .inl (congrFun (execHeap_proj (f := World.collected) (fun _ _ => rfl) (fun _ _ => rfl)
      (fun _ _ => rfl) s h) T)
  by_cases hgc : ∃ g, a = .gc g
  · obtain ⟨g, rfl⟩ := hgc
    cases g with
    | handle | string => exact .inl rfl
    | buffer b =>
      exact .inl (congrFun (collectBuffer_proj (f := World.collected) (fun _ _ => rfl) s b) T)
    | thread L =>
      by_cases hT : T = L
      · exact .inr (by rw [hT])
      · left
        simp only [exec, execGc, collectThread, collected, s.threads.modify_get_ne _ hT]
  · exact .inl (congrFun
      (exec_retains hg (not_exists.mp hheap) (not_exists.mp hgc)).collected T)

end World
end Couv
