import Couv.BufferRefine
import Couv.RefCount

/-! What the Buffer functions that allocate do to the counters and the sizes of the blocks. -/
namespace Couv

def Mem.cells (m : Mem) : Store ℤ := m.blocks.map (·.refCnt)

def Mem.sizes (m : Mem) : Store ℕ := m.blocks.map (·.size)

theorem Mem.setRefCnt_cells (m : Mem) (blk : ℕ) (c : ℤ) :
    (m.setRefCnt blk c).cells = m.cells.modify blk (fun _ => c) :=
  m.blocks.map_modify (·.refCnt) (fun _ => rfl) blk

theorem Mem.setRefCnt_sizes (m : Mem) (blk : ℕ) (c : ℤ) :
    (m.setRefCnt blk c).sizes = m.sizes :=
  m.blocks.map_modify_of_eq (·.size) (g := fun b => { b with refCnt := c }) (fun _ => rfl) blk

/-- Only bytes may differ. -/
structure Mem.Same (m m' : Mem) : Prop where
  cells : m'.cells = m.cells
  sizes : m'.sizes = m.sizes
  bufs : m'.bufs = m.bufs
  freed : m'.freed = m.freed

theorem Mem.Same.refl (m : Mem) : m.Same m := ⟨rfl, rfl, rfl, rfl⟩

theorem Mem.Same.trans {m₁ m₂ m₃ : Mem} (h : m₁.Same m₂) (h' : m₂.Same m₃) : m₁.Same m₃ :=
  ⟨h'.cells.trans h.cells, h'.sizes.trans h.sizes, h'.bufs.trans h.bufs, h'.freed.trans h.freed⟩

namespace BufM
variable {α β : Type}

/-- The memory after a call, whether it returns or raises. -/
def after (x : BufM α) (m : Mem) : Mem :=
  match x m with
  | .ok _ m' => m'
  | .error _ m' => m'

/-- The call changes bytes at most. -/
def Keeps (x : BufM α) : Prop := ∀ m : Mem, m.Same (after x m)

theorem after_ok {x : BufM α} {m m' : Mem} {a : α} (h : x m = .ok a m') : after x m = m' := by
  rw [after, h]

theorem after_error {x : BufM α} {m m' : Mem} {e : Failure} (h : x m = .error e m') :
    after x m = m' := by
  rw [after, h]

theorem after_bind_ok {x : BufM α} {f : α → BufM β} {m m' : Mem} {a : α} (h : x m = .ok a m') :
    after (x >>= f) m = after (f a) m' := by
  unfold after
  rw [run_bind_ok h]

theorem after_bind_error {x : BufM α} {f : α → BufM β} {m m' : Mem} {e : Failure}
    (h : x m = .error e m') : after (x >>= f) m = m' := by
  unfold after
  rw [run_bind_error h]

theorem after_bind_pure (x : BufM α) (b : β) (m : Mem) :
    after (x >>= fun _ => pure b) m = after x m := by
  cases hr : x m with
  | ok a m' =>
    rw [after_bind_ok hr]
    simp only [after, hr]
    rfl
  | error e m' =>
    rw [after_bind_error hr]
    simp only [after, hr]

theorem keeps_pure (a : α) : Keeps (pure a) := fun m => .refl m

theorem keeps_bind {x : BufM α} {f : α → BufM β} (hx : Keeps x) (hf : ∀ a, Keeps (f a)) :
    Keeps (x >>= f) := by
  intro m
  have h := hx m
  cases hr : x m with
  | ok a m' =>
    rw [after_bind_ok hr]
    simp only [after, hr] at h
    exact h.trans (hf a m')
  | error e m' =>
    rw [after_bind_error hr]
    simp only [after, hr] at h
    exact h

/-- A check leaves the memory as it is. -/
theorem check_cases (x : Except LuaError α) (m : Mem) :
    (∃ a, x = .ok a ∧ check x m = .ok a m) ∨ ∃ e, check x m = .error (.raise e) m := by
  cases x with
  | ok a => exact .inl ⟨a, rfl, rfl⟩
  | error e => exact .inr ⟨_, rfl⟩

end BufM

section
variable {α : Type}

theorem keeps_load (p : Option Ptr) (n : ℤ) : BufM.Keeps (memLoad p n) := by
  intro m
  have hm : BufM.after (memLoad p n) m = m := by
    cases p with
    | none => rfl
    | some p =>
      by_cases h : 0 ≤ n ∧ m.InBlock p n.toNat
      · simp only [BufM.after, memLoad, if_pos h]
      · simp only [BufM.after, memLoad, if_neg h]
  rw [hm]
  exact .refl m

theorem keeps_store (p : Option Ptr) (bs : List UInt8) : BufM.Keeps (memStore p bs) := by
  intro m
  cases p with
  | none => exact .refl m
  | some p =>
    by_cases h : m.InBlock p bs.length
    · have hm : BufM.after (memStore (some p) bs) m = m.store p bs := by
        simp only [BufM.after, memStore, if_pos h]
      rw [hm]
      have hcnt (b : Block) : (b.store p.off.toNat bs).refCnt = b.refCnt := rfl
      have hsize (b : Block) : (b.store p.off.toNat bs).size = b.size := rfl
      exact ⟨m.blocks.map_modify_of_eq _ hcnt _, m.blocks.map_modify_of_eq _ hsize _, rfl, rfl⟩
    · have hm : BufM.after (memStore (some p) bs) m = m := by
        simp only [BufM.after, memStore, if_neg h]
      rw [hm]
      exact .refl m

theorem keeps_uvBufLoad (buf : UvBuf) (n : ℤ) : BufM.Keeps (buf.load n) := by
  cases buf with
  | mem base len => exact keeps_load base n
  | str s =>
    simp only [UvBuf.load]
    split
    · exact BufM.keeps_pure _
    · exact fun m => .refl m

theorem keeps_concatCopy (dst : Ptr) (total : ℤ) (buffers : List UvBuf) :
    BufM.Keeps (concatCopy dst total buffers) := by
  induction buffers generalizing dst total with
  | nil => exact BufM.keeps_pure ()
  | cons buf buffers ih =>
    simp only [concatCopy]
    split
    · refine BufM.keeps_bind (keeps_uvBufLoad buf _) ?_
      intro bytes
      exact BufM.keeps_bind (keeps_store _ bytes) (fun _ => ih _ _)
    · exact BufM.keeps_pure ()

/-- Looking an argument up leaves the memory as it is. -/
theorem checkbuf_cases (arg : ℕ) (v : Value) (m : Mem) :
    (∃ b buf, v = .buffer b ∧ m.bufs.get b = some buf ∧ couvCheckbuf arg v m = .ok buf m) ∨
      ∃ e, couvCheckbuf arg v m = .error (.raise e) m := by
  unfold couvCheckbuf
  split
  · next b =>
    split
    · next buf hb => exact .inl ⟨b, buf, rfl, hb, rfl⟩
    · exact .inr ⟨_, rfl⟩
  · exact .inr ⟨_, rfl⟩

end

/-- The `__gc` metamethod releases the block, if there is one. -/
theorem after_bufferGc {m : Mem} {b : ℕ} {buf : CouvBuf} (hb : m.bufs.get b = some buf) :
    BufM.after (bufferGc (.buffer b)) m =
      if buf.orig = none then m else BufM.after (couvBufMemRelease buf.orig) m := by
  have hcheck : couvCheckbuf 1 (.buffer b) m = .ok buf m := by
    simp only [couvCheckbuf, hb]
  unfold bufferGc
  rw [BufM.after_bind_ok hcheck]
  cases ho : buf.orig with
  | none => rfl
  | some blk =>
    rw [if_neg (Option.some_ne_none blk)]
    exact BufM.after_bind_pure (couvBufMemRelease (some blk)) [] m

/-- The finaliser does nothing, or releases. -/
theorem after_bufferGc_cases (m : Mem) (b : ℕ) : BufM.after (bufferGc (.buffer b)) m = m ∨
    ∃ ptr, BufM.after (bufferGc (.buffer b)) m = BufM.after (couvBufMemRelease ptr) m := by
  cases hb : m.bufs.get b with
  | some buf =>
    rw [after_bufferGc hb]
    split
    · exact .inl rfl
    · exact .inr ⟨_, rfl⟩
  | none =>
    have hcheck : couvCheckbuf 1 (.buffer b) m =
        .error (.raise (.argError 1 "couv.Buffer expected")) m := by
      simp only [couvCheckbuf, hb]
    exact .inl (BufM.after_bind_error hcheck)

/-- A release faults, frees the block, or lowers its counter. -/
theorem release_cases (ptr : Option ℕ) (m : Mem) : couvBufMemRelease ptr m = .error .fault m ∨
    ∃ blk bl, ptr = some blk ∧ m.blocks.get blk = some bl ∧
      (couvBufMemRelease ptr m =
          .ok () { m with blocks := m.blocks.free blk, freed := m.freed ++ [blk] } ∨
        couvBufMemRelease ptr m = .ok () (m.setRefCnt blk (cInt (bl.refCnt-1)))) := by
  cases ptr with
  | none => exact .inl rfl
  | some blk =>
    cases hbl : m.blocks.get blk with
    | none => exact .inl (by simp only [couvBufMemRelease, hbl])
    | some bl =>
      refine .inr ⟨blk, bl, rfl, hbl, ?_⟩
      by_cases hc : cInt (bl.refCnt-1) = 0
      · exact .inl (by simp only [couvBufMemRelease, hbl, if_pos hc])
      · exact .inr (by simp only [couvBufMemRelease, hbl, if_neg hc])

theorem after_release_bufs (ptr : Option ℕ) (m : Mem) :
    (BufM.after (couvBufMemRelease ptr) m).bufs = m.bufs := by
  rcases release_cases ptr m with hr | ⟨blk, bl, -, -, hr | hr⟩
  · rw [BufM.after_error hr]
  · rw [BufM.after_ok hr]
  · rw [BufM.after_ok hr, Mem.setRefCnt]

/-- What a Buffer function may do to the userdata and their blocks: nothing, make a Buffer with
a block of its own, or make one that shares the block of another. -/
inductive Mem.Allocs (m m' : Mem) : Prop
  | same (h : m.Same m')
  | new (env : AllocEnv) (n : ℕ) (h : (m.withNew env n).Same m')
  | slice (b : ℕ) (buf buf' : CouvBuf) (blk : ℕ) (bl : Block) (hb : m.bufs.get b = some buf)
    (ho : buf.orig = some blk) (hbl : m.blocks.get blk = some bl) (ho' : buf'.orig = some blk)
    (hin : ∃ i : ℤ, 0 ≤ i ∧ i + buf'.len ≤ buf.len ∧ buf'.base = buf.base.map (·.add i))
    (h : m' = { m.setRefCnt blk (cInt (bl.refCnt+1)) with bufs := m.bufs.alloc buf' })

/-- The number of bytes that buffer_new asks for. -/
def newSize (arg : Value) : ℕ :=
  match bufferNewArg arg with
  | .ok (n, _) => n
  | .error _ => 0

/-- The length that buffer_concat asks for, if its arguments are right. -/
def concatSize (m : Mem) (items : List Value) (totalLength : Value) : ℕ :=
  match couvCheckbuforstrtable items m, luaLOptint 2 totalLength 0 with
  | .ok buffers _, .ok total => cSizeT (if total = 0 then concatTotal buffers else total)
  | _, _ => 0

theorem checkbuforstrtable_cases (m : Mem) (items : List Value) :
    (∃ buffers, couvCheckbuforstrtable items m = .ok buffers m) ∨
      ∃ e, couvCheckbuforstrtable items m = .error e m := by
  unfold couvCheckbuforstrtable
  split
  · next buffers _ => exact .inl ⟨buffers, rfl⟩
  · exact .inr ⟨_, rfl⟩

section
variable {env : AllocEnv} (henv : env.ok = true) {n : ℕ} (hn : n < 2^63) {arg : Value} (m : Mem)
include henv hn

theorem bufferNew_length (harg : bufferNewArg arg = .ok (n, none)) :
    bufferNew env arg m = .ok [.buffer m.bufs.next] (m.withNew env n) :=
  (BufM.bind_check_ok m harg).trans (bufferNew_alloc henv hn _)

theorem bufferNew_string {s : LuaString} (harg : bufferNewArg arg = .ok (n, some s)) :
    bufferNew env arg m = (memStore (some ⟨m.blocks.next, 0⟩) s >>= fun _ =>
      pure [.buffer m.bufs.next]) (m.withNew env n) :=
  (BufM.bind_check_ok m harg).trans (bufferNew_alloc henv hn _)

end

section
variable {env : AllocEnv} (henv : env.ok = true) (m : Mem)
include henv

theorem bufferNew_allocs {arg : Value} (hn : newSize arg < 2^63) :
    m.Allocs (BufM.after (bufferNew env arg) m) := by
  rcases BufM.check_cases (bufferNewArg arg) m with ⟨⟨n, str⟩, harg, -⟩ | ⟨e, hr⟩
  · have hsize : n < 2^63 := by
      simpa only [newSize, harg] using hn
    refine .new env n ?_
    unfold BufM.after
    cases str with
    | none =>
      rw [bufferNew_length henv hsize m harg]
      exact .refl _
    | some s =>
      rw [bufferNew_string henv hsize m harg]
      exact BufM.keeps_bind (keeps_store _ s) (fun _ => BufM.keeps_pure _) (m.withNew env n)
  · have hafter : BufM.after (bufferNew env arg) m = m := BufM.after_bind_error hr
    rw [hafter]
    exact .same (.refl m)

theorem bufferConcat_allocs {items : List Value} {totalLength : Value}
    (hn : concatSize m items totalLength < 2^63) :
    m.Allocs (BufM.after (bufferConcat env items totalLength) m) := by
  unfold bufferConcat
  rcases checkbuforstrtable_cases m items with ⟨buffers, hb⟩ | ⟨e, hb⟩
  · rw [BufM.after_bind_ok hb]
    rcases BufM.check_cases (luaLOptint 2 totalLength 0) m with ⟨total, ht, hr⟩ | ⟨e, hr⟩
    · rw [BufM.after_bind_ok hr]
      have hsize : cSizeT (if total = 0 then concatTotal buffers else total) < 2^63 := by
        simpa only [concatSize, hb, ht] using hn
      rw [BufM.after_bind_ok (bufferNew_length henv hsize m rfl)]
      -- the new block, and then copies into it
      refine .new env (cSizeT (if total = 0 then concatTotal buffers else total)) ?_
      rcases checkbuf_cases 1 (([Value.buffer m.bufs.next] : List Value).headD .nil)
          (m.withNew env (cSizeT (if total = 0 then concatTotal buffers else total))) with
        ⟨-, buf, -, -, hget⟩ | ⟨e, hget⟩
      · rw [BufM.after_bind_ok hget]
        exact BufM.keeps_bind (keeps_concatCopy _ _ buffers) (fun _ => BufM.keeps_pure _) _
      · rw [BufM.after_bind_error hget]
        exact .refl _
    · rw [BufM.after_bind_error hr]
      exact .same (.refl m)
  · rw [BufM.after_bind_error hb]
    exact .same (.refl m)

end

/-- The int of a length is at most the length. -/
theorem cInt_le (n : ℕ) : cInt n ≤ n := by
  by_cases h : n < 2^31
  · exact (cInt_len h).le
  · have hmax : cInt n ≤ 2^31-1 := (cInt_mem n).2
    omega

/-- A slice raises, leaves a userdata because it has no live block to share, or shares the block
of its Buffer. -/
theorem bufferSlice_outcomes (m : Mem) (env : AllocEnv) (self first last : Value) :
    (∃ e, bufferSlice env self first last m = .error (.raise e) m) ∨
      ∃ b buf, self = .buffer b ∧ m.bufs.get b = some buf ∧ 0 < buf.len ∧
        (((∀ blk bl, buf.orig = some blk → m.blocks.get blk ≠ some bl) ∧
          bufferSlice env self first last m =
            .error .fault { m with bufs := m.bufs.alloc env.uninit }) ∨
        ∃ buf' blk bl, buf.orig = some blk ∧ m.blocks.get blk = some bl ∧ buf'.orig = some blk ∧
          (∃ i : ℤ, 0 ≤ i ∧ i + buf'.len ≤ buf.len ∧ buf'.base = buf.base.map (·.add i)) ∧
          bufferSlice env self first last m = .ok [.buffer m.bufs.next]
            { m.setRefCnt blk (cInt (bl.refCnt+1)) with bufs := m.bufs.alloc buf' }) := by
  unfold bufferSlice
  rcases checkbuf_cases 1 self m with ⟨b, buf, hself, hb, hr⟩ | ⟨e, hr⟩
  swap
  · exact .inl ⟨e, run_bind_error hr⟩
  rw [run_bind_ok hr]
  rcases BufM.check_cases (luaLOptint 2 first 1) m with ⟨f, -, hr⟩ | ⟨e, hr⟩
  swap
  · exact .inl ⟨e, run_bind_error hr⟩
  rw [run_bind_ok hr]
  rcases BufM.check_cases (luaLOptint 3 last buf.len) m with ⟨l, -, hr⟩ | ⟨e, hr⟩
  swap
  · exact .inl ⟨e, run_bind_error hr⟩
  rw [run_bind_ok hr]
  rcases BufM.check_cases (couvArgcheckindex 2 f 1 (cInt buf.len)) m with ⟨_, hf, hr⟩ | ⟨e, hr⟩
  swap
  · exact .inl ⟨e, run_bind_error hr⟩
  rw [run_bind_ok hr]
  rcases BufM.check_cases (couvArgcheckindex 3 l f (cInt buf.len)) m with ⟨_, hl, hr⟩ | ⟨e, hr⟩
  swap
  · exact .inl ⟨e, run_bind_error hr⟩
  rw [run_bind_ok hr]
  -- all checks passed: the buffer shows the bytes from f to l
  have hf := couvArgcheckindex_ok hf
  have hl := couvArgcheckindex_ok hl
  have hle := cInt_le buf.len
  have hmax : cInt buf.len ≤ 2^31-1 := (cInt_mem buf.len).2
  have hnew : newBufUserdata env.uninit m =
      .ok m.bufs.next { m with bufs := m.bufs.alloc env.uninit } := rfl
  refine .inr ⟨b, buf, hself, hb, by omega, ?_⟩
  -- the retain of NULL or of a freed block is outside live memory
  cases ho : buf.orig with
  | none =>
    have hretain : couvBufMemRetain none { m with bufs := m.bufs.alloc env.uninit } =
        .error .fault { m with bufs := m.bufs.alloc env.uninit } := rfl
    refine .inl ⟨?_, (run_bind_ok hnew).trans (run_bind_error hretain)⟩
    intro blk bl h
    cases h
  | some blk =>
    cases hbl : m.blocks.get blk with
    | none =>
      have hretain : couvBufMemRetain (some blk) { m with bufs := m.bufs.alloc env.uninit } =
          .error .fault { m with bufs := m.bufs.alloc env.uninit } := by
        simp only [couvBufMemRetain, hbl]
      refine .inl ⟨?_, (run_bind_ok hnew).trans (run_bind_error hretain)⟩
      intro blk' bl h hbl'
      obtain rfl := Option.some.inj h
      cases hbl.symm.trans hbl'
    | some bl =>
      have hsize : (cSizeT (l-f+1) : ℤ) = l-f+1 := by
        unfold cSizeT
        omega
      have hretain : couvBufMemRetain (some blk) { m with bufs := m.bufs.alloc env.uninit } =
          .ok () { m.setRefCnt blk (cInt (bl.refCnt+1)) with
            bufs := m.bufs.alloc env.uninit } := by
        simp only [couvBufMemRetain, hbl, Mem.setRefCnt]
      have hset (buf' : CouvBuf) : setBufUserdata m.bufs.next buf'
          { m.setRefCnt blk (cInt (bl.refCnt+1)) with bufs := m.bufs.alloc env.uninit } =
          .ok () { m.setRefCnt blk (cInt (bl.refCnt+1)) with bufs := m.bufs.alloc buf' } := by
        simp only [setBufUserdata, Store.alloc_modify]
      refine .inr ⟨_, blk, bl, rfl, hbl, ?_, ⟨f-1, by omega, ?_, ?_⟩,
        (run_bind_ok hnew).trans ((run_bind_ok hretain).trans (run_bind_ok (hset _)))⟩
      · rfl
      · change f-1+(cSizeT (l-f+1) : ℤ) ≤ buf.len
        omega
      · rfl

/-- Where every Buffer with bytes has a live block, a slice never retains NULL. -/
theorem bufferSlice_cases {m : Mem} (hnull : ∀ b buf, m.bufs.get b = some buf →
      buf.orig = none → buf.len = 0) (hlive : ∀ b buf blk, m.bufs.get b = some buf →
      buf.orig = some blk → ∃ bl, m.blocks.get blk = some bl) (env : AllocEnv)
    (self first last : Value) :
    (∃ e, bufferSlice env self first last m = .error (.raise e) m) ∨
      ∃ b buf buf' blk bl, m.bufs.get b = some buf ∧ buf.orig = some blk ∧
        m.blocks.get blk = some bl ∧ buf'.orig = some blk ∧
        (∃ i : ℤ, 0 ≤ i ∧ i + buf'.len ≤ buf.len ∧ buf'.base = buf.base.map (·.add i)) ∧
        bufferSlice env self first last m = .ok [.buffer m.bufs.next]
          { m.setRefCnt blk (cInt (bl.refCnt+1)) with bufs := m.bufs.alloc buf' } := by
  rcases bufferSlice_outcomes m env self first last with
    hr | ⟨b, buf, -, hb, hlen, ⟨hno, -⟩ | ⟨buf', blk, bl, h⟩⟩
  · exact .inl hr
  · -- a Buffer without a live block has no index
    cases ho : buf.orig with
    | none =>
      have hzero := hnull b buf hb ho
      omega
    | some blk =>
      obtain ⟨bl, hbl⟩ := hlive b buf blk hb ho
      exact absurd hbl (hno blk bl ho)
  · exact .inr ⟨b, buf, buf', blk, bl, hb, h⟩

theorem bufferSlice_allocs {m : Mem} (hnull : ∀ b buf, m.bufs.get b = some buf →
      buf.orig = none → buf.len = 0) (hlive : ∀ b buf blk, m.bufs.get b = some buf →
      buf.orig = some blk → ∃ bl, m.blocks.get blk = some bl) (env : AllocEnv)
    (self first last : Value) : m.Allocs (BufM.after (bufferSlice env self first last) m) := by
  unfold BufM.after
  rcases bufferSlice_cases hnull hlive env self first last with
    ⟨e, hr⟩ | ⟨b, buf, buf', blk, bl, hb, ho, hbl, ho', hin, hr⟩
  · rw [hr]
    exact .same (.refl m)
  · rw [hr]
    exact .slice b buf buf' blk bl hb ho hbl ho' hin rfl

end Couv
