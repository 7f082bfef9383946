import Couv.BufferStores
import Couv.BufferFits
import Couv.InFlight

/-! Input that no one has read yet: who has its block, and who may write to it. -/
namespace Couv

/-! What a call on Buffers does to a block that it does not get. -/

section
variable {blk : ℕ} {m : Mem}

theorem store_other {p : Option Ptr} (h : ∀ q ∈ p, q.block ≠ blk) (bs : List UInt8) (m : Mem) :
    (BufM.after (memStore p bs) m).blocks.get blk = m.blocks.get blk := by
  cases p with
  | none => rfl
  | some q =>
    by_cases hin : m.InBlock q bs.length
    · rw [BufM.after_ok (if_pos hin : memStore (some q) bs m = .ok () (m.store q bs))]
      exact m.blocks.modify_get_ne _ (h q rfl).symm
    · rw [BufM.after_error (if_neg hin : memStore (some q) bs m = .error .fault m)]

theorem concatCopy_other {dst : Ptr} (h : dst.block ≠ blk) (buffers : List UvBuf) (total : ℤ)
    (m : Mem) :
    (BufM.after (concatCopy dst total buffers) m).blocks.get blk = m.blocks.get blk := by
  induction buffers generalizing dst total m with
  | nil => rfl
  | cons buf buffers ih =>
    unfold concatCopy
    split
    swap
    · rfl
    let len := if cInt buf.len > total then total else cInt buf.len
    rcases uvBufLoad_cases buf len m with ⟨bs, hl⟩ | hl
    swap
    · rw [BufM.after_bind_error hl]
    rw [BufM.after_bind_ok hl]
    -- the store keeps to the block that the loop goes on in
    have hstore := store_other (p := some dst) (by simpa using h) bs m
    rcases store_cases (some dst) bs m with ⟨m', hst⟩ | hst
    · rw [BufM.after_ok hst] at hstore
      rw [BufM.after_bind_ok hst, ih (show (dst.add len).block ≠ blk from h) _ m', hstore]
    · rw [BufM.after_bind_error hst]

theorem make_other (hold : blk < m.blocks.next) (env : AllocEnv) (n : ℕ) :
    (m.make env n).blocks.get blk = m.blocks.get blk := by
  change (m.blocks.alloc _).get blk = _
  rw [Store.alloc_get, if_neg hold.ne]

theorem bufferNew_other (hold : blk < m.blocks.next) (env : AllocEnv) (arg : Value) :
    (BufM.after (bufferNew env arg) m).blocks.get blk = m.blocks.get blk := by
  cases harg : bufferNewArg arg with
  | error e =>
    have hcall : bufferNew env arg m = .error (.raise e) m := BufM.bind_check_error m harg
    rw [BufM.after_error hcall]
  | ok p =>
    obtain ⟨n, str⟩ := p
    cases str with
    | none =>
      rcases new_cases env m n (fun b _ => pure [Value.buffer b]) with ⟨-, he⟩ | ⟨-, he⟩
      · have hcall : bufferNew env arg m = .error _ (m.abandon env.uninit) :=
          (BufM.bind_check_ok m harg).trans he
        rw [BufM.after_error hcall]
        rfl
      · have hcall : bufferNew env arg m = .ok [.buffer m.bufs.next] (m.make env n) :=
          (BufM.bind_check_ok m harg).trans he
        rw [BufM.after_ok hcall]
        exact make_other hold env n
    | some s =>
      rcases new_cases env m n (fun b blk => memStore (some ⟨blk, 0⟩) s >>= fun _ =>
          pure [Value.buffer b]) with ⟨-, he⟩ | ⟨-, he⟩
      · have hcall : bufferNew env arg m = .error _ (m.abandon env.uninit) :=
          (BufM.bind_check_ok m harg).trans he
        rw [BufM.after_error hcall]
        rfl
      -- the string goes into the new block
      · have hcall : bufferNew env arg m = (memStore (some ⟨m.blocks.next, 0⟩) s >>= fun _ =>
            pure [Value.buffer m.bufs.next]) (m.make env n) :=
          (BufM.bind_check_ok m harg).trans he
        have hafter : BufM.after (bufferNew env arg) m =
            BufM.after (memStore (some ⟨m.blocks.next, 0⟩) s >>= fun _ =>
              pure [Value.buffer m.bufs.next]) (m.make env n) := by
          simp only [BufM.after, hcall]
        rw [hafter, BufM.after_bind_pure, store_other (by simpa using hold.ne'),
          make_other hold]

theorem bufferConcat_other (hold : blk < m.blocks.next) (env : AllocEnv) (items : List Value)
    (total : Value) :
    (BufM.after (bufferConcat env items total) m).blocks.get blk = m.blocks.get blk := by
  unfold bufferConcat
  rcases checkbuforstrtable_cases m items with ⟨buffers, hb⟩ | ⟨e, hb⟩
  swap
  · rw [BufM.after_bind_error hb]
  rw [BufM.after_bind_ok hb]
  rcases BufM.check_cases (luaLOptint 2 total 0) m with ⟨t, -, ht⟩ | ⟨e, ht⟩
  swap
  · rw [BufM.after_bind_error ht]
  rw [BufM.after_bind_ok ht]
  let n := concatForwards buffers t
  change (BufM.after (bufferNew env (.number n) >>= fun target =>
    couvCheckbuf 1 (target.headD .nil) >>= fun buf =>
      concatCopy (buf.base.getD ⟨0, 0⟩) n buffers >>= fun _ => pure target) m).blocks.get blk = _
  -- the size is a number, so no string is copied
  rcases bufferNew_cases env m (.number n) with
    ⟨e, harg, -⟩ | ⟨k, str, harg, ⟨-, hn⟩ | ⟨-, m', -, hm', hn⟩⟩
  · cases harg
  · rw [BufM.after_bind_error hn]
    rfl
  · obtain ⟨rfl, rfl⟩ := Prod.mk.inj (Except.ok.inj harg)
    obtain rfl := hm' rfl
    have hn := hn.resolve_right fun h => h.1 rfl
    have hget : couvCheckbuf 1 (([Value.buffer m.bufs.next] : List Value).headD .nil)
        (m.make env (cSizeT n)) = .ok ⟨some m.blocks.next, some ⟨m.blocks.next, 0⟩, cSizeT n⟩
          (m.make env (cSizeT n)) := by
      simp only [couvCheckbuf, List.headD_cons, Mem.make, Store.alloc_get_self]
    rw [BufM.after_bind_ok hn, BufM.after_bind_ok hget, BufM.after_bind_pure,
      concatCopy_other hold.ne', make_other hold]

/-- A block that no Buffer refers to. -/
def Mem.NoBuf (m : Mem) (blk : ℕ) : Prop :=
  ∀ b buf, m.bufs.get b = some buf → buf.orig ≠ some blk

theorem bufferSlice_other (hno : m.NoBuf blk) (env : AllocEnv) (self first last : Value) :
    (BufM.after (bufferSlice env self first last) m).blocks.get blk = m.blocks.get blk := by
  rcases bufferSlice_outcomes m env self first last with
    ⟨e, hr⟩ | ⟨b, buf, -, hb, -, ⟨-, hr⟩ | ⟨buf', d, bl, ho, -, -, -, hr⟩⟩
  · rw [BufM.after_error hr]
  · rw [BufM.after_error hr]
  · rw [BufM.after_ok hr]
    refine m.blocks.modify_get_ne _ ?_
    rintro rfl
    exact hno b buf hb ho

theorem release_other {ptr : Option ℕ} (h : ptr ≠ some blk) (m : Mem) :
    (BufM.after (couvBufMemRelease ptr) m).blocks.get blk = m.blocks.get blk := by
  rcases release_cases ptr m with hr | ⟨d, bl, rfl, -, hr | hr⟩
  · rw [BufM.after_error hr]
  all_goals
    have hne : blk ≠ d := fun he => h (congrArg some he.symm)
    rw [BufM.after_ok hr]
  · exact m.blocks.free_get_ne hne
  · exact m.blocks.modify_get_ne _ hne

theorem bufferGc_other (hno : m.NoBuf blk) {b : ℕ} {buf : CouvBuf} (hb : m.bufs.get b = some buf) :
    (BufM.after (bufferGc (.buffer b)) m).blocks.get blk = m.blocks.get blk := by
  rw [after_bufferGc hb]
  split
  · rfl
  · exact release_other (hno b buf hb) m

end

/-! Steps of the system. -/

namespace World

def blocks (s : World) : Store Block := s.mem.blocks

theorem passive_blocks : Passive World.blocks :=
  ⟨⟨fun _ _ _ => rfl, fun _ => rfl, fun _ _ => rfl, fun _ _ => rfl⟩, fun _ _ _ _ _ _ => rfl⟩

section
variable {s : World} {a : Action} {blk : ℕ}

/-- No step touches a block that no Buffer refers to. -/
theorem exec_block (hg : s.guard a) (hold : blk < s.mem.blocks.next) (hno : s.mem.NoBuf blk) :
    (s.exec a).mem.blocks.get blk = s.mem.blocks.get blk := by
  have hsame : (s.exec a).blocks = s.blocks →
      (s.exec a).mem.blocks.get blk = s.mem.blocks.get blk := fun he => congrArg (·.get blk) he
  cases a with
  | lua a => exact hsame (passive_blocks.execLua s _ a)
  | handle m =>
    obtain ⟨hs, reg, input, he, -⟩ := (execHandle_spec (L := s.current.getD 0) hg.2).cases
    exact hsame (by simp only [exec, he]; rfl)
  | call boundary c =>
    exact hsame (passive_blocks.execCall (fun _ _ => rfl) (fun _ _ => rfl) (fun _ _ => rfl)
      boundary _ hg.2)
  | heap h =>
    cases h with
    | newString | newTable | setTable => rfl
    | bufNew env arg =>
      simp only [exec, execHeap, runBuf_mem]
      exact bufferNew_other hold env arg
    | bufSlice env self first last =>
      simp only [exec, execHeap, runBuf_mem]
      exact bufferSlice_other hno env self first last
    | bufConcat env items total =>
      simp only [exec, execHeap, runBuf_mem]
      exact bufferConcat_other hold env items total
  | event e =>
    cases hn : e.node with
    | some node =>
      obtain ⟨rd, he, -⟩ := inputEvent hg.2 hn
      refine hsame ?_
      simp only [exec, he]
      exact passive_blocks.inputCb s (fun _ _ => rfl) (fun _ _ => rfl) node rd
    | none =>
      cases e with
      | readCb | read2Cb | udpRecvCb => cases hn
      | timerCb | exitCb | connectionCb => rfl
      | complete r o =>
        obtain ⟨q, hq, -⟩ := hg.2
        exact hsame (passive_blocks.complete (fun _ _ => rfl) (fun _ _ => rfl) (fun _ _ => rfl)
          hq o)
      | alloc h n env =>
        simp only [exec, execEvent, couvBufAllocCb]
        -- the allocation takes an address that no block has had
        rcases couvBufMemAlloc_cases env n s.mem with ⟨-, he⟩ | ⟨-, he⟩
        · simp only [he]
        · simp only [he]
          rw [Store.alloc_get, if_neg hold.ne]
  | gc g =>
    cases g with
    | thread | handle | string => rfl
    | buffer b =>
      -- buffer_gc releases the block of this Buffer, which is another one
      obtain ⟨buf, hb⟩ := Option.isSome_iff_exists.mp hg.1
      simp only [exec, execGc, collectBuffer_mem]
      exact bufferGc_other hno hb

/-- A block with input that no call has returned yet: it is in a queue, or libuv has it. -/
inductive Unread (s : World) (blk : ℕ) : Prop
  | node (n : ℕ) (node : InputNode) (hn : n ∈ s.input.queued node.handle)
    (hget : s.input.nodes.get n = some node) (hblk : node.wBuf.orig = some blk)
  | read (r : UvRead) (hr : r ∈ s.reads) (hblk : r.block = blk)

/-- What is in a queue after the step was there before, or the step has appended it. -/
theorem exec_queued (hs : s.InputOk) (hg : s.guard a) {h n : ℕ}
    (hn : n ∈ (s.exec a).input.queued h) : n ∈ (s.input.fed a).queued h := by
  obtain ⟨-, happ⟩ := Prod.mk.inj (exec_fedNodes hg)
  have hfed : (s.input.fed a).unlinked = s.input.unlinked := by
    unfold Input.fed
    split <;> rfl
  unfold Input.queued at hn ⊢
  rw [happ, (exec_took hs hg).unlinked h, List.length_append, ← List.drop_drop] at hn
  rw [hfed]
  exact List.mem_of_mem_drop hn

/-- A node in a queue is new, with what libuv has passed, or it was there before. -/
theorem fed_cases (hg : s.guard a) {n : ℕ} {node : InputNode}
    (hn : n ∈ (s.input.fed a).queued node.handle)
    (hget : (s.input.fed a).nodes.get n = some node) :
    (∃ rd, node.wBuf = inputBuf rd ∧ ∀ r, rd = some r → r ∈ s.reads) ∨
      n ∈ s.input.queued node.handle ∧ s.input.nodes.get n = some node := by
  unfold Input.fed at hn hget
  split at hn
  swap
  · next hnone =>
    simp only [hnone] at hget
    exact .inr ⟨hn, hget⟩
  next new hnew =>
  simp only [hnew] at hget
  rcases s.input.nodes.alloc_eq_some.mp hget with ⟨rfl, rfl⟩ | ⟨hne, hget⟩
  · cases a with
    | event e =>
      obtain ⟨rd, -, hbuf, -, hread⟩ := inputEvent hg.2 hnew
      exact .inl ⟨rd, hbuf, fun r hr => (hread r hr).1⟩
    | lua | handle | call | heap | gc => cases hnew
  · refine .inr ⟨?_, hget⟩
    simp only [Input.queued, Input.append] at hn ⊢
    split at hn
    · rw [List.drop_append] at hn
      rcases List.mem_append.mp hn with hn | hn
      · exact hn
      · exact absurd (List.mem_singleton.mp (List.mem_of_mem_drop hn)) hne
    · exact hn

/-- Unread input comes from couv_buf_alloc_cb. -/
theorem unread_exec (hs : s.InputOk) (hg : s.guard a) (h : (s.exec a).Unread blk) :
    s.Unread blk ∨ blk = s.mem.blocks.next ∧
      ((s.exec a).mem.blocks.get blk).map (·.refCnt) = some 1 := by
  cases h with
  | node n node hn hget hblk =>
    left
    obtain ⟨hnodes, -⟩ := Prod.mk.inj (exec_fedNodes hg)
    rw [hnodes] at hget
    rcases fed_cases hg (exec_queued hs hg hn) hget with ⟨rd, hbuf, hread⟩ | ⟨hn, hget⟩
    · rw [hbuf] at hblk
      cases rd with
      | none => cases hblk
      | some r => exact .read r (hread r rfl) (Option.some.inj hblk)
    · exact .node n node hn hget hblk
  | read r hr hblk =>
    by_cases halloc : ∃ h n env, a = .event (.alloc h n env)
    swap
    · have hold := exec_reads hg (fun h n env he => halloc ⟨h, n, env, he⟩) r hr
      exact .inl (.read r hold hblk)
    obtain ⟨h, n, env, rfl⟩ := halloc
    simp only [exec, execEvent, couvBufAllocCb] at hr ⊢
    rcases couvBufMemAlloc_cases env n s.mem with ⟨-, he⟩ | ⟨-, he⟩
    · simp only [he] at hr
      exact .inl (.read r hr hblk)
    · simp only [he] at hr ⊢
      rcases List.mem_cons.mp hr with rfl | hr
      · subst hblk
        exact .inr ⟨rfl, by rw [Store.alloc_get_self]; rfl⟩
      · exact .inl (.read r hr hblk)

end
end World

/-! Programs, with the stores into Buffers that the system leaves out. -/

/-- The operation makes a Buffer, which `HeapAct` has as an action of the system. -/
def BufOp.makes : BufOp → Bool
  | .new _ _ | .slice _ _ _ _ => true
  | _ => false

/-- What may happen next: an action of the system, any other call on Buffers, or libuv stores
the bytes that it has read for fs.read. -/
inductive ProgAct
  | sys (a : Action)
  | buffer (op : BufOp)
  | fsStore (r : ℕ) (data : List UInt8)

namespace World

variable (s : World)

/-- Where libuv stores for the request: the range that fs.read gave to uv_fs_read. -/
def fsTarget (r : ℕ) : Option (Ptr × ℕ) :=
  match s.reqs.get r with
  | some q =>
    match q.kind, q.ranges with
    | .fs .read, [.mem (some p) len] => some (p, len)
    | _, _ => none
  | none => none

def progGuard : ProgAct → Prop
  | .sys a => s.guard a
  | .buffer op => s.current.isSome ∧ op.makes = false
  | .fsStore r data => ∃ t ∈ s.fsTarget r, data.length ≤ t.2

instance : DecidablePred s.progGuard
  | .sys a => inferInstanceAs (Decidable (s.guard a))
  | .buffer _ => inferInstanceAs (Decidable (_ ∧ _))
  | .fsStore r _ => inferInstanceAs (Decidable (∃ t ∈ s.fsTarget r, _))

def progExec : ProgAct → World
  | .sys a => s.exec a
  | .buffer op => s.runBuf op.exec
  | .fsStore r data => s.runBuf (memStore ((s.fsTarget r).map (·.1)) data)

end World

def prog : Machine World ProgAct := ⟨World.progGuard, World.progExec⟩

instance (s : World) (a : ProgAct) : Decidable (prog.guard s a) :=
  inferInstanceAs (Decidable (s.progGuard a))

/-- Allocations succeed, a block has fewer than 2^31 references, and who waits for a request with
memory goes on waiting for it, with the values of the request in their table. -/
def ProgStep (s : World) : ProgAct → Prop
  | .sys a => AllocStep s a ∧ FlightStep s a
  | .buffer _ | .fsStore _ _ => True

instance (s : World) : DecidablePred (ProgStep s)
  | .sys _ => inferInstanceAs (Decidable (_ ∧ _))
  | .buffer _ | .fsStore _ _ => isTrue trivial

/-- Unread input belongs to one queue, or to libuv, alone. -/
structure InputDataOk (s : World) : Prop where
  flight : FlightOk s
  alone : ∀ blk, s.Unread blk → s.refs blk = 1

theorem inputDataOk_init : InputDataOk .init := by
  refine ⟨flightOk_init, fun blk h => ?_⟩
  cases h with
  | node n node hn => cases hn
  | read r hr => cases hr

/-- Other bytes in the blocks change nothing else. -/
theorem FlightOk.bytes {s : World} (hs : FlightOk s) {m : Mem} (h : s.mem.Same m) :
    FlightOk { s with mem := m } := by
  have hrefs : ∀ blk, refCount m.bufs s.input s.reads blk = s.refs blk := by
    intro blk
    rw [h.bufs]
    rfl
  refine ⟨⟨hs.blocks.stack, hs.blocks.input, Couv.RefOk.same hs.blocks.refs h, fun blk => ?_⟩,
    hs.keys, hs.life, fun r q hq hr => ?_⟩
  · exact (hrefs blk).trans_lt (hs.blocks.few blk)
  · have hheld := hs.held r q hq hr
    refine ⟨hheld.waits, hheld.alive, hheld.key, hheld.owners, fun rg hrg => ?_⟩
    obtain ⟨i, hi, hb⟩ := hheld.ranges rg hrg
    refine ⟨i, hi, ?_⟩
    cases hb with
    | str sid str hstr => exact .str sid str hstr
    | buffer b buf p k len hb hp hin =>
      exact .buffer b buf p k len ((congrArg (·.get b) h.bufs).trans hb) hp hin

theorem Mem.store_same (m : Mem) (p : Ptr) (bs : List UInt8) : m.Same (m.store p bs) := by
  have hcnt (b : Block) : (b.store p.off.toNat bs).refCnt = b.refCnt := rfl
  have hsize (b : Block) : (b.store p.off.toNat bs).size = b.size := rfl
  exact ⟨m.blocks.map_modify_of_eq _ hcnt _, m.blocks.map_modify_of_eq _ hsize _, rfl, rfl⟩

namespace World
variable {s t : World} {blk : ℕ}

/-- The pointer of a Buffer or of a node points into its block. -/
theorem RefOk.orig_of_base (hs : s.RefOk) {buf : CouvBuf} {p : Ptr}
    (hbuf : Holder s.mem.bufs s.input s.reads buf) (hp : buf.base = some p) :
    buf.orig = some p.block := by
  have hshape := hs.shape buf hbuf
  cases ho : buf.orig with
  | none =>
    rw [(hshape.null ho).1] at hp
    cases hp
  | some blk =>
    obtain ⟨off, hbase, -⟩ := hshape.inside blk ho
    obtain rfl := Option.some.inj (hbase.symm.trans hp)
    rfl

theorem RefOk.refs_of_cell (hs : s.RefOk)
    (h : (s.mem.blocks.get blk).map (·.refCnt) = some 1) : s.refs blk = 1 := by
  have hcount := (hs.counted.live blk 1 h).1
  change (1 : ℤ) = s.refs blk at hcount
  omega

theorem RefOk.cell_of_refs (hs : s.RefOk) (h : s.refs blk = 1) :
    (s.mem.blocks.get blk).map (·.refCnt) = some 1 := by
  obtain ⟨n, hn⟩ := hs.counted.get_of_pos (c := blk) (Nat.one_pos.trans_eq h.symm)
  have hcount : n = s.refs blk := (hs.counted.live blk n hn).1
  rw [h] at hcount
  exact hn.trans (congrArg some hcount)

/-- A block that nobody touches keeps its one owner. -/
theorem RefOk.refs_one (hs : s.RefOk) (ht : t.RefOk)
    (hblk : t.mem.blocks.get blk = s.mem.blocks.get blk) (h : s.refs blk = 1) :
    t.refs blk = 1 := by
  apply ht.refs_of_cell
  rw [hblk]
  exact hs.cell_of_refs h

/-- The one owner of a block is a Buffer, unless the block is unread. -/
theorem buffer_of_read (hone : s.refs blk = 1) (h : ¬s.Unread blk) :
    ∃! b, ∃ buf, s.mem.bufs.get b = some buf ∧ buf.orig = some blk := by
  have hnodes : s.input.nodes.count (s.input.holds blk) = 0 := by
    by_contra hpos
    obtain ⟨n, node, hget, hp⟩ := Store.exists_of_count_pos _ (Nat.pos_of_ne_zero hpos)
    obtain ⟨hn, hblk⟩ := Bool.and_eq_true_iff.mp hp
    exact h (.node n node (of_decide_eq_true hn) hget (of_decide_eq_true hblk))
  have hreads : s.reads.countP (fun r => (inputBuf (some r)).refersTo blk) = 0 := by
    by_contra hpos
    obtain ⟨r, hr, hblk⟩ := List.countP_pos_iff.mp (Nat.pos_of_ne_zero hpos)
    exact h (.read r hr (Option.some.inj (of_decide_eq_true hblk)))
  have hbufs : s.mem.bufs.count (fun _ buf => buf.refersTo blk) = 1 := by
    unfold refs refCount at hone
    omega
  obtain ⟨b, buf, hb, hblk⟩ := Store.exists_of_count_pos _ (hbufs.symm ▸ Nat.one_pos)
  refine ⟨b, ⟨buf, hb, of_decide_eq_true hblk⟩, ?_⟩
  rintro b' ⟨buf', hb', hblk'⟩
  exact Store.eq_of_count_le_one _ hbufs.le hb' (decide_eq_true hblk') hb hblk

end World

namespace InputDataOk
variable {s : World} (hs : InputDataOk s) {blk : ℕ}
include hs

theorem unread_noBuf (h : s.Unread blk) : s.mem.NoBuf blk := by
  intro b buf hb ho
  have hone := hs.alone blk h
  have hbuf := Store.count_pos_of_get (fun _ buf => CouvBuf.refersTo buf blk) hb (decide_eq_true ho)
  unfold World.refs refCount at hone
  cases h with
  | node n node hn hget hblk =>
    have hnode := Store.count_pos_of_get (s.input.holds blk) hget
      (by simp [Input.holds, hn, CouvBuf.refersTo, hblk])
    omega
  | read r hr hblk =>
    have hread : 0 < s.reads.countP (fun r => (inputBuf (some r)).refersTo blk) :=
      List.countP_pos_iff.mpr ⟨r, hr, decide_eq_true (congrArg some hblk)⟩
    omega

theorem unread_old (h : s.Unread blk) : blk < s.mem.blocks.next := by
  have hlive : ∃ bl, s.mem.blocks.get blk = some bl := by
    cases h with
    | node n node hn hget hblk => exact hs.flight.blocks.refs.live (.node n node hn hget) hblk
    | read r hr hblk =>
      exact hs.flight.blocks.refs.live (.read r hr) (congrArg some hblk)
  obtain ⟨bl, hbl⟩ := hlive
  exact s.mem.blocks.lt_next hbl

theorem bytes {m : Mem} (h : s.mem.Same m) : InputDataOk { s with mem := m } := by
  refine ⟨hs.flight.bytes h, fun blk hun => ?_⟩
  have hold : s.Unread blk := by
    cases hun with
    | node n node hn hget hblk => exact .node n node hn hget hblk
    | read r hr hblk => exact .read r hr hblk
  have hone := hs.alone blk hold
  unfold World.refs at hone ⊢
  rw [h.bufs]
  exact hone

section
variable {a : ProgAct} (hg : s.progGuard a)
include hg

/-- Other calls on Buffers, and libuv, store into one Buffer at most. -/
theorem progExec_stores (hsys : ∀ b, a ≠ .sys b) : s.progExec a = s ∨
    ∃ b buf q bs, s.mem.bufs.get b = some buf ∧ buf.orig = some q.block ∧
      s.progExec a = { s with mem := s.mem.store q bs } := by
  have hrefs := hs.flight.blocks.refs
  cases a with
  | sys b => exact absurd rfl (hsys b)
  | buffer op =>
    simp only [World.progExec, World.runBuf_mem]
    have hnew : ∀ env arg, op ≠ .new env arg := by
      rintro env arg rfl
      cases hg.2
    have hslice : ∀ env self first last, op ≠ .slice env self first last := by
      rintro env self first last rfl
      cases hg.2
    rcases storesOnce_exec s.mem op hnew hslice with he | ⟨b, buf, i, q, bs, hb, hq, he⟩
    · exact .inl (by rw [he])
    · obtain ⟨p, hp, rfl⟩ := Option.map_eq_some_iff.mp hq
      have ho : buf.orig = some p.block := hrefs.orig_of_base (.buf b buf hb) hp
      exact .inr ⟨b, buf, p.add i, bs, hb, ho, by rw [he]⟩
  | fsStore r data =>
    obtain ⟨⟨p, len⟩, htarget, -⟩ := hg
    have hp : (s.fsTarget r).map (·.1) = some p := by rw [htarget]; rfl
    simp only [World.progExec, World.runBuf_mem, hp]
    -- the request of fs.read has its range in a Buffer
    obtain ⟨q, hq, hrange⟩ : ∃ q, s.reqs.get r = some q ∧ q.ranges = [.mem (some p) len] := by
      unfold World.fsTarget at htarget
      split at htarget
      · next q hq =>
        split at htarget
        · next p' len' _ hr =>
          obtain ⟨rfl, rfl⟩ := Prod.mk.inj (Option.some.inj htarget)
          exact ⟨q, hq, hr⟩
        · cases htarget
      · cases htarget
    have hheld := hs.flight.held r q hq (hrange ▸ List.cons_ne_nil _ _)
    obtain ⟨i, -, hback⟩ := hheld.ranges _ (hrange ▸ List.mem_cons_self)
    cases hback with
    | buffer b buf p' i len hb hp' hin =>
      have ho : buf.orig = some p'.block := hrefs.orig_of_base (.buf b buf hb) hp'
      by_cases hin : s.mem.InBlock (p'.add i) data.length
      · have hst : memStore (some (p'.add i)) data s.mem = .ok () (s.mem.store (p'.add i) data) :=
          if_pos hin
        exact .inr ⟨b, buf, p'.add i, data, hb, ho, by rw [BufM.after_ok hst]⟩
      · have hst : memStore (some (p'.add i)) data s.mem = .error .fault s.mem := if_neg hin
        exact .inl (by rw [BufM.after_error hst])

theorem progExec_block (h : s.Unread blk) :
    (s.progExec a).mem.blocks.get blk = s.mem.blocks.get blk := by
  by_cases hsys : ∃ b, a = .sys b
  · obtain ⟨b, rfl⟩ := hsys
    exact World.exec_block hg (hs.unread_old h) (hs.unread_noBuf h)
  rcases hs.progExec_stores hg fun b he => hsys ⟨b, he⟩ with he | ⟨b, buf, q, bs, hb, ho, he⟩
  · rw [he]
  · rw [he]
    refine s.mem.blocks.modify_get_ne _ ?_
    rintro rfl
    exact hs.unread_noBuf h b buf hb ho

theorem progExec (hstep : ProgStep s a) : InputDataOk (s.progExec a) := by
  by_cases hsys : ∃ b, a = .sys b
  · obtain ⟨b, rfl⟩ := hsys
    have hflight := hs.flight.exec hg hstep.1 hstep.2
    refine ⟨hflight, fun blk h => ?_⟩
    rcases World.unread_exec hs.flight.blocks.input hg h with hold | ⟨-, hcell⟩
    · exact hs.flight.blocks.refs.refs_one hflight.blocks.refs
        (hs.progExec_block hg hold) (hs.alone blk hold)
    · exact hflight.blocks.refs.refs_of_cell hcell
  rcases hs.progExec_stores hg fun b he => hsys ⟨b, he⟩ with he | ⟨b, buf, q, bs, -, -, he⟩
  · rw [he]
    exact hs
  · rw [he]
    exact hs.bytes (s.mem.store_same q bs)

end

end InputDataOk

/-- In every run of actions, calls on Buffers and reads of files whose steps meet `ProgStep`, the
block of input that no one has read has one owner, which is no Buffer. Until it is read, that step
included, its bytes stay what libuv has left there, and then the one owner is a Buffer. -/
theorem unread_input_kept {as : List ProgAct} (he : prog.Enabled .init as)
    (hstep : prog.Along ProgStep .init as) :
    (∀ blk, (prog.run .init as).Unread blk →
      (prog.run .init as).refs blk = 1 ∧ (prog.run .init as).mem.NoBuf blk) ∧
    ∀ pre mid post blk, as = pre ++ mid ++ post → (prog.run .init pre).Unread blk →
      prog.Along (fun s _ => s.Unread blk) (prog.run .init pre) mid →
      (prog.run .init (pre ++ mid)).mem.blocks.get blk =
        (prog.run .init pre).mem.blocks.get blk ∧
      ((prog.run .init (pre ++ mid)).Unread blk ∨ ∃! b, ∃ buf,
        (prog.run .init (pre ++ mid)).mem.bufs.get b = some buf ∧ buf.orig = some blk) := by
  have hall := Machine.along_and.mpr ⟨he, hstep⟩
  have hrun : ∀ bs, prog.Along (fun s a => s.progGuard a ∧ ProgStep s a) .init bs →
      InputDataOk (prog.run .init bs) := fun bs h =>
    Machine.run_invariant (fun _ _ hs hp => hs.progExec hp.1 hp.2) inputDataOk_init h
  refine ⟨fun blk h => ⟨(hrun as hall).alone blk h, (hrun as hall).unread_noBuf h⟩, ?_⟩
  intro pre mid post blk has hun halong
  rw [has, List.append_assoc] at hall
  obtain ⟨hpre, hrest⟩ := Machine.along_append.mp hall
  have hmid := (Machine.along_append.mp hrest).1
  -- the block is untouched as long as it is unread before each step
  have hkept : InputDataOk (prog.run (prog.run .init pre) mid) ∧
      (prog.run (prog.run .init pre) mid).mem.blocks.get blk =
        (prog.run .init pre).mem.blocks.get blk := by
    refine Machine.run_invariant
      (I := fun t => InputDataOk t ∧ t.mem.blocks.get blk = (prog.run .init pre).mem.blocks.get blk)
      ?_ ⟨hrun pre hpre, rfl⟩ (Machine.along_and.mpr ⟨hmid, halong⟩)
    rintro t a ⟨ht, hblk⟩ ⟨⟨hg, hs⟩, hunread⟩
    exact ⟨ht.progExec hg hs, (ht.progExec_block hg hunread).trans hblk⟩
  rw [Machine.run_append]
  obtain ⟨hend, hblk⟩ := hkept
  have hone := (hrun pre hpre).flight.blocks.refs.refs_one hend.flight.blocks.refs hblk
    ((hrun pre hpre).alone blk hun)
  refine ⟨hblk, ?_⟩
  by_cases h : (prog.run (prog.run .init pre) mid).Unread blk
  · exact .inl h
  · exact .inr (World.buffer_of_read hone h)

/-- A coroutine makes a Buffer and a tcp handle, and libuv has stored two bytes for the handle. -/
def storedChunk : List ProgAct := [.sys (.lua .create), .sys (.lua (.resume 1 [])),
  .sys (.heap (.bufNew ⟨true, fun _ => 0, ⟨none, none, 0⟩⟩ (.number 4))),
  .sys (.handle (.tcpNew true)), .sys (.handle (.readStart .read 0 true)),
  .sys (.lua (.yield false)), .sys (.lua .uvRun),
  .sys (.event (.alloc 0 2 ⟨true, fun _ => 7, ⟨none, none, 0⟩⟩))]

/-- Its callback, and what the coroutine that it wakes does up to its read. -/
def chunkRead : List ProgAct := [.sys (.event (.readCb 0 2 (some ⟨0, 1, 2⟩) 0 [])),
  .buffer (.fill (.buffer 0) (.number 1) .nil .nil), .sys (.call false (.read .read 0))]

theorem unread_input_kept_chunk :
    ((prog.run .init (storedChunk ++ chunkRead)).mem.blocks.get 1).map (·.mem 0) = some 7 := by
  have he : prog.Enabled .init (storedChunk ++ chunkRead) := by decide
  have hstep : prog.Along ProgStep .init (storedChunk ++ chunkRead) := by decide
  have hun : prog.Along (fun s _ => s.Unread 1) (prog.run .init storedChunk) chunkRead :=
    ⟨.read ⟨0, 1, 2⟩ (by decide) rfl, .node 0 _ (by decide) rfl rfl,
      .node 0 _ (by decide) rfl rfl, trivial⟩
  have hkept := (unread_input_kept he hstep).2 storedChunk chunkRead [] 1
    (List.append_nil _).symm hun.1 hun
  rw [hkept.1]
  decide

end Couv
