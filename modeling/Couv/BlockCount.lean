import Couv.BlockHeap
import Couv.InputQueue

/-! Who refers to a block, and its counter. -/
namespace Couv

def CouvBuf.refersTo (buf : CouvBuf) (blk : ℕ) : Bool := buf.orig = some blk

/-- A node in its queue that refers to the block. -/
def Input.holds (i : Input) (blk n : ℕ) (node : InputNode) : Bool :=
  decide (n ∈ i.queued node.handle) && node.wBuf.refersTo blk

/-- The live Buffers, queued nodes and outstanding reads that refer to the block. -/
def refCount (bufs : Store CouvBuf) (i : Input) (rs : List UvRead) (blk : ℕ) : ℕ :=
  bufs.count (fun _ buf => buf.refersTo blk) + i.nodes.count (i.holds blk) +
    rs.countP (fun r => (inputBuf (some r)).refersTo blk)

def World.refs (s : World) (blk : ℕ) : ℕ := refCount s.mem.bufs s.input s.reads blk

section
variable (bufs : Store CouvBuf) (i : Input) (rs : List UvRead) (blk : ℕ)

theorem refCount_allocBuf (buf : CouvBuf) : refCount (bufs.alloc buf) i rs blk =
    refCount bufs i rs blk + (buf.refersTo blk).toNat := by
  unfold refCount
  rw [Store.count_alloc]
  omega

variable {bufs} in
theorem refCount_freeBuf {b : ℕ} {buf : CouvBuf} (h : bufs.get b = some buf) :
    refCount (bufs.free b) i rs blk + (buf.refersTo blk).toNat = refCount bufs i rs blk := by
  have hfree := Store.count_free (fun _ buf => buf.refersTo blk) h
  unfold refCount
  omega

theorem refCount_addRead (r : UvRead) : refCount bufs i (r :: rs) blk =
    refCount bufs i rs blk + ((inputBuf (some r)).refersTo blk).toNat := by
  unfold refCount
  rw [List.countP_cons]
  cases h : (inputBuf (some r)).refersTo blk with
  | false => simp
  | true =>
    simp
    omega

variable {rs} in
theorem refCount_takeRead {r : UvRead} (h : r ∈ rs) : refCount bufs i (rs.erase r) blk +
    ((inputBuf (some r)).refersTo blk).toNat = refCount bufs i rs blk := by
  have hperm := (List.perm_cons_erase h).countP_eq (fun r => (inputBuf (some r)).refersTo blk)
  rw [List.countP_cons] at hperm
  unfold refCount
  rw [hperm]
  cases h : (inputBuf (some r)).refersTo blk with
  | false => simp
  | true =>
    simp
    omega

variable {bufs i rs blk} {hs : Store Handle} (hq : QueueOk hs i)
include hq

theorem refCount_append {node : InputNode} {x : Handle} (hx : hs.get node.handle = some x)
    (ht : x.type ∈ node.mode.types) (hroot : node.handle ∈ i.roots) :
    refCount bufs (i.append node) rs blk =
      refCount bufs i rs blk + (node.wBuf.refersTo blk).toNat := by
  obtain ⟨-, hself, hother⟩ := hq.append hx ht hroot
  have hnew : (i.append node).holds blk i.nodes.next node = node.wBuf.refersTo blk := by
    simp [Input.holds, hself]
  have hold : i.nodes.count ((i.append node).holds blk) = i.nodes.count (i.holds blk) := by
    apply Store.count_congr
    intro n node' hn
    have hne : n ≠ i.nodes.next := (i.nodes.lt_next hn).ne
    unfold Input.holds
    by_cases hh : node'.handle = node.handle
    · simp [hh, hself, hne]
    · rw [hother _ hh]
  unfold refCount
  rw [show (i.append node).nodes = i.nodes.alloc node from rfl, Store.count_alloc, hold, hnew]
  omega

theorem refCount_unlink {h n : ℕ} {ns : List ℕ} {node : InputNode} (hroot : h ∈ i.roots)
    (hh : i.queued h = n :: ns) (hn : i.nodes.get n = some node) :
    refCount bufs (i.unlink h n) rs blk + (node.wBuf.refersTo blk).toNat =
      refCount bufs i rs blk := by
  obtain ⟨-, hself, hother⟩ := hq.unlink hroot hh
  have hmem : n ∈ i.appended h := hq.queued_sub (hh ▸ List.mem_cons_self)
  have hhandle : node.handle = h := by
    obtain ⟨node', -, hn', hk, -⟩ := hq.node h n hmem
    obtain rfl := Option.some.inj (hn.symm.trans hn')
    exact hk
  have hnodup : (n :: ns).Nodup := by
    have hall := hq.nodup h
    rw [hq.order h, hh] at hall
    exact (List.nodup_append.mp hall).2.1
  -- the node holds the block as long as it is queued
  have hbefore : i.holds blk n node = node.wBuf.refersTo blk := by
    simp [Input.holds, hhandle, hh]
  have hafter : (i.unlink h n).holds blk n node = false := by
    have hnot := (List.nodup_cons.mp hnodup).1
    simp [Input.holds, hhandle, hself, hnot]
  have hcount := Store.count_change_at (i.holds blk) (q := (i.unlink h n).holds blk) hn (by
    intro k node' hne _
    unfold Input.holds
    by_cases hk : node'.handle = h
    · simp [hk, hself, hh, hne]
    · rw [hother _ hk])
  rw [hbefore, hafter] at hcount
  unfold refCount
  rw [show (i.unlink h n).nodes = i.nodes from rfl]
  simp only [Bool.toNat_false, Nat.add_zero] at hcount
  omega

end

/-- What refers to a block. -/
inductive Holder (bufs : Store CouvBuf) (i : Input) (rs : List UvRead) : CouvBuf → Prop
  | buf (b : ℕ) (buf : CouvBuf) (h : bufs.get b = some buf) : Holder bufs i rs buf
  | node (n : ℕ) (node : InputNode) (hn : n ∈ i.queued node.handle)
    (h : i.nodes.get n = some node) : Holder bufs i rs node.wBuf
  | read (r : UvRead) (h : r ∈ rs) : Holder bufs i rs (inputBuf (some r))

theorem Holder.refs_pos {bufs : Store CouvBuf} {i : Input} {rs : List UvRead} {buf : CouvBuf}
    (h : Holder bufs i rs buf) {blk : ℕ} (ho : buf.orig = some blk) :
    0 < refCount bufs i rs blk := by
  have hrefers : buf.refersTo blk = true := decide_eq_true ho
  unfold refCount
  cases h with
  | buf b buf h =>
    have := Store.count_pos_of_get (fun _ buf => CouvBuf.refersTo buf blk) h hrefers
    omega
  | node n node hn h =>
    have := Store.count_pos_of_get (i.holds blk) h (by simp [Input.holds, hn, hrefers])
    omega
  | read r h =>
    have : 0 < rs.countP (fun r => (inputBuf (some r)).refersTo blk) :=
      List.countP_pos_iff.mpr ⟨r, h, hrefers⟩
    omega

/-- NULL has length 0, and any other Buffer lies in its block. -/
structure CouvBuf.Shape (buf : CouvBuf) (sizes : Store ℕ) : Prop where
  null : buf.orig = none → buf.base = none ∧ buf.len = 0
  inside : ∀ blk, buf.orig = some blk → ∃ off : ℕ, buf.base = some ⟨blk, off⟩ ∧
    ∀ n, sizes.get blk = some n → off + buf.len ≤ n

/-- A part of a Buffer lies in the same block. -/
theorem CouvBuf.Shape.sub {buf buf' : CouvBuf} {sizes : Store ℕ} {blk : ℕ} (h : buf.Shape sizes)
    (ho : buf.orig = some blk) (ho' : buf'.orig = some blk)
    (hin : ∃ i : ℤ, 0 ≤ i ∧ i + buf'.len ≤ buf.len ∧ buf'.base = buf.base.map (·.add i)) :
    buf'.Shape sizes := by
  refine ⟨fun hn => ?_, fun blk' hb => ?_⟩
  · rw [ho'] at hn
    cases hn
  · obtain rfl := Option.some.inj (ho'.symm.trans hb)
    obtain ⟨off, hbase, hoff⟩ := h.inside blk ho
    obtain ⟨i, hi, hlen, hbase'⟩ := hin
    refine ⟨off+i.toNat, ?_, fun n hn => ?_⟩
    · rw [hbase', hbase]
      simp only [Option.map_some, Ptr.add, Option.some.injEq, Ptr.mk.injEq, true_and]
      omega
    · have := hoff n hn
      omega

/-- The counter of every block is right. -/
structure RefOk (m : Mem) (i : Input) (rs : List UvRead) : Prop where
  counted : Counted m.cells m.freed (refCount m.bufs i rs)
  shape : ∀ buf, Holder m.bufs i rs buf → buf.Shape m.sizes

def World.RefOk (s : World) : Prop := Couv.RefOk s.mem s.input s.reads

theorem refOk_init : World.init.RefOk where
  counted := by
    refine counted_empty.congr (fun blk => ?_)
    rfl
  shape buf h := by cases h with
    | buf _ _ h => cases h
    | node _ _ hn => cases hn
    | read _ h => cases h

namespace RefOk
variable {m m' : Mem} {i i' : Input} {rs rs' : List UvRead} (h : RefOk m i rs)
include h

/-- A holder's block is live. -/
theorem live {buf : CouvBuf} (hb : Holder m.bufs i rs buf) {blk : ℕ} (ho : buf.orig = some blk) :
    ∃ bl, m.blocks.get blk = some bl := by
  obtain ⟨n, hn⟩ := h.counted.get_of_pos (hb.refs_pos ho)
  obtain ⟨bl, hbl, -⟩ := Option.map_eq_some_iff.mp hn
  exact ⟨bl, hbl⟩

/-- Holders pass blocks on to each other. -/
theorem transfer (hcells : m'.cells = m.cells) (hsizes : m'.sizes = m.sizes)
    (hfreed : m'.freed = m.freed)
    (hrefs : ∀ blk, refCount m'.bufs i' rs' blk = refCount m.bufs i rs blk)
    (hholder : ∀ buf, Holder m'.bufs i' rs' buf →
      Holder m.bufs i rs buf ∨ buf = ⟨none, none, 0⟩) : RefOk m' i' rs' := by
  constructor
  · rw [hcells, hfreed]
    exact h.counted.congr hrefs
  · intro buf hb
    rw [hsizes]
    rcases hholder buf hb with hb | rfl
    · exact h.shape buf hb
    · exact ⟨fun _ => ⟨rfl, rfl⟩, fun _ ho => nomatch ho⟩

theorem same (hm : m.Same m') : RefOk m' i rs :=
  h.transfer hm.cells hm.sizes hm.freed (fun _ => by rw [hm.bufs]) (fun _ hb => .inl (hm.bufs ▸ hb))

/-- A new block, and its first holder. -/
theorem allocBlock {n : ℕ} (hcells : m'.cells = m.cells.alloc 1)
    (hsizes : m'.sizes = m.sizes.alloc n) (hfreed : m'.freed = m.freed)
    (hrefs : ∀ blk, refCount m'.bufs i' rs' blk =
      refCount m.bufs i rs blk + (if blk = m.blocks.next then 1 else 0))
    (hholder : ∀ buf, Holder m'.bufs i' rs' buf →
      Holder m.bufs i rs buf ∨ buf = ⟨some m.blocks.next, some ⟨m.blocks.next, 0⟩, n⟩) :
    RefOk m' i' rs' := by
  constructor
  · rw [hcells, hfreed]
    exact h.counted.alloc hrefs
  · intro buf hb
    rcases hholder buf hb with hb | rfl
    · obtain ⟨hnull, hinside⟩ := h.shape buf hb
      refine ⟨hnull, fun blk ho => ?_⟩
      obtain ⟨off, hbase, hoff⟩ := hinside blk ho
      refine ⟨off, hbase, fun k hk => hoff k ?_⟩
      -- the block of an old holder is not the new one
      obtain ⟨bl, hbl⟩ := h.live hb ho
      have hne : blk ≠ m.sizes.next := (m.blocks.lt_next hbl).ne
      rw [hsizes, Store.alloc_get, if_neg hne] at hk
      exact hk
    · refine ⟨fun ho => (nomatch ho), fun blk ho => ?_⟩
      obtain rfl := Option.some.inj ho
      refine ⟨0, rfl, fun k hk => ?_⟩
      have hnew : m'.sizes.get m.sizes.next = some n := by rw [hsizes, Store.alloc_get_self]
      obtain rfl := Option.some.inj (hnew.symm.trans hk)
      exact (Nat.zero_add n).le

theorem withNew (env : AllocEnv) (n : ℕ) : RefOk (m.withNew env n) i rs := by
  refine h.allocBlock (n := n) (m.blocks.map_alloc _ _) (m.blocks.map_alloc _ _) rfl ?_ ?_
  · intro blk
    have hrefers : (CouvBuf.refersTo ⟨some m.blocks.next, some ⟨m.blocks.next, 0⟩, n⟩ blk).toNat =
        if blk = m.blocks.next then 1 else 0 := by
      by_cases hb : blk = m.blocks.next
      · simp [CouvBuf.refersTo, hb]
      · simp [CouvBuf.refersTo, hb, Ne.symm hb]
    rw [← hrefers]
    exact refCount_allocBuf _ _ _ _ _
  · intro buf hb
    cases hb with
    | buf b buf hb =>
      rcases m.bufs.alloc_eq_some.mp hb with ⟨-, rfl⟩ | ⟨-, hb⟩
      · exact .inr rfl
      · exact .inl (.buf b buf hb)
    | node n node hn hget => exact .inl (.node n node hn hget)
    | read r hr => exact .inl (.read r hr)

/-- A slice. -/
theorem share {b : ℕ} {buf buf' : CouvBuf} {blk : ℕ} {bl : Block} (hb : m.bufs.get b = some buf)
    (ho : buf.orig = some blk) (hbl : m.blocks.get blk = some bl) (ho' : buf'.orig = some blk)
    (hin : ∃ i : ℤ, 0 ≤ i ∧ i + buf'.len ≤ buf.len ∧ buf'.base = buf.base.map (·.add i))
    (hfew : refCount (m.bufs.alloc buf') i rs blk < 2^31) :
    RefOk { m.setRefCnt blk (cInt (bl.refCnt+1)) with bufs := m.bufs.alloc buf' } i rs := by
  have hrefers : buf'.refersTo blk = true := decide_eq_true ho'
  have hself := refCount_allocBuf m.bufs i rs blk buf'
  rw [hrefers] at hself
  have hcell : m.cells.get blk = some bl.refCnt := by
    rw [Mem.cells, Store.map_get, hbl]
    rfl
  have hcnt := (h.counted.live blk _ hcell).1
  -- the slice is one more holder of the block
  constructor
  · change Counted (m.setRefCnt blk (cInt (bl.refCnt+1))).cells _ _
    rw [Mem.setRefCnt_cells]
    refine h.counted.recount hcell ?_ ?_ ?_
    · change _ = ((refCount (m.bufs.alloc buf') i rs blk : ℕ) : ℤ)
      rw [cInt_of] <;> simp only [Bool.toNat_true] at hself <;> omega
    · change 0 < refCount (m.bufs.alloc buf') i rs blk
      simp only [Bool.toNat_true] at hself
      omega
    · intro d hd
      have hother : buf'.refersTo d = false := by
        simp [CouvBuf.refersTo, ho', Ne.symm hd]
      change refCount (m.bufs.alloc buf') i rs d = _
      rw [refCount_allocBuf, hother]
      rfl
  · intro x hx
    change x.Shape (m.setRefCnt blk (cInt (bl.refCnt+1))).sizes
    rw [Mem.setRefCnt_sizes]
    cases hx with
    | node n node hn hget => exact h.shape _ (.node n node hn hget)
    | read r hr => exact h.shape _ (.read r hr)
    | buf b' x hx =>
      rcases m.bufs.alloc_eq_some.mp hx with ⟨-, rfl⟩ | ⟨-, hx⟩
      · exact (h.shape buf (.buf b buf hb)).sub ho ho' hin
      · exact h.shape x (.buf b' x hx)

theorem allocs (hm : m.Allocs m') (hfew : ∀ blk bl, m'.blocks.get blk = some bl →
    refCount m'.bufs i rs blk < 2^31) : RefOk m' i rs := by
  cases hm with
  | same hsame => exact h.same hsame
  | new env n hsame => exact (h.withNew env n).same hsame
  | slice b buf buf' blk bl hb ho hbl ho' hin he =>
    subst he
    exact h.share hb ho hbl ho' hin (hfew blk _ (m.blocks.modify_get_self _ hbl))

/-- A Buffer without a block is collected. -/
theorem collectNull {b : ℕ} {buf : CouvBuf} (hb : m.bufs.get b = some buf)
    (ho : buf.orig = none) : RefOk { m with bufs := m.bufs.free b } i rs := by
  refine h.transfer rfl rfl rfl ?_ ?_
  · intro blk
    have hfree := refCount_freeBuf i rs blk hb
    have hrefers : buf.refersTo blk = false := by simp [CouvBuf.refersTo, ho]
    rw [hrefers] at hfree
    exact hfree
  · intro x hx
    cases hx with
    | node n node hn hget => exact .inl (.node n node hn hget)
    | read r hr => exact .inl (.read r hr)
    | buf b' x hx => exact .inl (.buf b' x (m.bufs.free_eq_some.mp hx).2)

/-- A Buffer is collected: its reference goes, and with the last one the block. -/
theorem collect {b : ℕ} {buf : CouvBuf} {blk : ℕ} (hb : m.bufs.get b = some buf)
    (ho : buf.orig = some blk) (hfew : refCount m.bufs i rs blk < 2^31) :
    let m' := BufM.after (couvBufMemRelease (some blk)) m
    RefOk { m' with bufs := m'.bufs.free b } i rs := by
  have hrefers : buf.refersTo blk = true := decide_eq_true ho
  have hself := refCount_freeBuf i rs blk hb
  rw [hrefers, Bool.toNat_true] at hself
  have hother : ∀ d, d ≠ blk → refCount (m.bufs.free b) i rs d = refCount m.bufs i rs d := by
    intro d hd
    have hfree := refCount_freeBuf i rs d hb
    have hnot : buf.refersTo d = false := by simp [CouvBuf.refersTo, ho, Ne.symm hd]
    rw [hnot] at hfree
    exact hfree
  obtain ⟨bl, hbl⟩ := h.live (.buf b buf hb) ho
  have hcell : m.cells.get blk = some bl.refCnt := by
    rw [Mem.cells, Store.map_get, hbl]
    rfl
  have hcnt := (h.counted.live blk _ hcell).1
  have hint : cInt (bl.refCnt-1) = bl.refCnt-1 := cInt_of (by omega) (by omega)
  have hholder : ∀ x, Holder (m.bufs.free b) i rs x → Holder m.bufs i rs x := by
    intro x hx
    cases hx with
    | node n node hn hget => exact .node n node hn hget
    | read r hr => exact .read r hr
    | buf b' x hx => exact .buf b' x (m.bufs.free_eq_some.mp hx).2
  -- the last holder frees the block; any other leaves it one count less
  by_cases hlast : bl.refCnt - 1 = 0
  · have hm : BufM.after (couvBufMemRelease (some blk)) m =
        { m with blocks := m.blocks.free blk, freed := m.freed ++ [blk] } := by
      simp only [BufM.after, couvBufMemRelease, hbl, hint, if_pos hlast]
    have hcells : (m.blocks.free blk).map (·.refCnt) = m.cells.free blk := m.blocks.map_free _ _
    have hsizes : (m.blocks.free blk).map (·.size) = m.sizes.free blk := m.blocks.map_free _ _
    rw [hm]
    constructor
    · change Counted ((m.blocks.free blk).map (·.refCnt)) _ _
      rw [hcells]
      refine h.counted.free hcell ?_ hother
      change refCount (m.bufs.free b) i rs blk = 0
      omega
    · intro x hx
      obtain ⟨hnull, hinside⟩ := h.shape x (hholder x hx)
      refine ⟨hnull, fun blk' hblk => ?_⟩
      obtain ⟨off, hbase, hoff⟩ := hinside blk' hblk
      refine ⟨off, hbase, fun n hn => hoff n ?_⟩
      change ((m.blocks.free blk).map (·.size)).get blk' = some n at hn
      rw [hsizes] at hn
      exact ((Store.free_eq_some _).mp hn).2
  · have hm : BufM.after (couvBufMemRelease (some blk)) m =
        m.setRefCnt blk (bl.refCnt-1) := by
      simp only [BufM.after, couvBufMemRelease, hbl, hint, if_neg hlast]
    rw [hm]
    constructor
    · change Counted (m.setRefCnt blk (bl.refCnt-1)).cells _ _
      rw [Mem.setRefCnt_cells]
      refine h.counted.recount hcell ?_ ?_ hother
      · change _ = ((refCount (m.bufs.free b) i rs blk : ℕ) : ℤ)
        omega
      · change 0 < refCount (m.bufs.free b) i rs blk
        omega
    · intro x hx
      change x.Shape (m.setRefCnt blk (bl.refCnt-1)).sizes
      rw [Mem.setRefCnt_sizes]
      exact h.shape x (hholder x hx)

end RefOk
end Couv
