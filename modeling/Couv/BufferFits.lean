import Couv.LuaValues
import Couv.NodeLife

/-! The length of a Buffer and the size of its block: what Buffer.new promises for a number, and
what then holds of every Buffer that Lua code gets. -/
namespace Couv

/-! One call. -/

/-- The Buffer `b` has the length `n`, and its block has room for the counter and `n` bytes. -/
def Mem.Made (m : Mem) (b : ℕ) (n : ℤ) : Prop :=
  ∃ buf blk bl, m.bufs.get b = some buf ∧ (buf.len : ℤ) = n ∧ buf.orig = some blk ∧
    buf.base = some ⟨blk, 0⟩ ∧ m.blocks.get blk = some bl ∧ buf.len ≤ bl.size

/-- Buffer.new raises or makes a Buffer of the length `n`. -/
def NewKept (env : AllocEnv) (m : Mem) (arg : Value) (n : ℤ) : Prop :=
  (∃ e m', bufferNew env arg m = .error (.raise e) m') ∨
    ∃ b m', bufferNew env arg m = .ok [.buffer b] m' ∧ m'.Made b n

/-- The allocation fails, or the length is a size_t that leaves room for the counter. -/
def LengthFits (env : AllocEnv) (n : ℤ) : Prop :=
  env.ok = false ∨ 0 ≤ n ∧ n < 2^64-couvBufMemHeader

instance (env : AllocEnv) (n : ℤ) : Decidable (LengthFits env n) :=
  inferInstanceAs (Decidable (_ ∨ _))

theorem bufferNewArg_number {arg : Value} {n : ℤ} (h : arg.luaNumber = some n) :
    bufferNewArg arg = .ok (cSizeT n, none) := by
  cases arg <;> simp_all [bufferNewArg, Value.luaNumber]

/-- The Buffer that a successful allocation makes. -/
theorem Mem.make_made (m : Mem) (env : AllocEnv) (k : ℕ) (n : ℤ) :
    (m.make env k).Made m.bufs.next n ↔ (k : ℤ) = n ∧ k ≤ newBlockSize k := by
  constructor
  · rintro ⟨buf, blk, bl, hb, hlen, ho, -, hbl, hin⟩
    have hbuf := Option.some.inj ((m.bufs.alloc_get_self _).symm.trans hb)
    subst hbuf
    obtain rfl := Option.some.inj ho
    have hblk := Option.some.inj ((m.blocks.alloc_get_self _).symm.trans hbl)
    subst hblk
    exact ⟨hlen, hin⟩
  · rintro ⟨hlen, hin⟩
    exact ⟨_, _, _, m.bufs.alloc_get_self _, hlen, rfl, rfl, m.blocks.alloc_get_self _, hin⟩

theorem new_kept_iff (env : AllocEnv) (m : Mem) {arg : Value} {n : ℤ}
    (h : arg.luaNumber = some n) : NewKept env m arg n ↔ LengthFits env n := by
  have harg := bufferNewArg_number h
  have hlt : cSizeT n < 2^64 := by
    unfold cSizeT
    omega
  have hself : 0 ≤ n → n < 2^64 → (cSizeT n : ℤ) = n := by
    unfold cSizeT
    omega
  -- the argument is wrong, there is no block, or there is one
  rcases bufferNew_cases env m arg with
    ⟨e, he, -⟩ | ⟨k, str, hk, ⟨hno, hr⟩ | ⟨hno, m', hsame, hm', hr⟩⟩
  · cases harg.symm.trans he
  · obtain ⟨rfl, rfl⟩ := Prod.mk.inj (Except.ok.inj (harg.symm.trans hk))
    cases hok : env.ok with
    | false =>
      rw [hok] at hr
      exact iff_of_true (.inl ⟨_, _, hr⟩) (.inl hok)
    | true =>
      rw [hok] at hr
      refine iff_of_false ?_ ?_
      · rintro (⟨e, m', he⟩ | ⟨b, m', he, -⟩)
        · cases hr.symm.trans he
        · cases hr.symm.trans he
      · -- the counter does not fit what malloc gives
        have hwrap := hno.resolve_left (by rw [hok]; exact Bool.noConfusion)
        rintro (hfail | ⟨h0, hn⟩)
        · cases hok.symm.trans hfail
        · have := hself h0 (by omega)
          unfold couvBufMemHeader at hwrap hn
          omega
  · obtain ⟨rfl, rfl⟩ := Prod.mk.inj (Except.ok.inj (harg.symm.trans hk))
    obtain rfl := hm' rfl
    have hr := hr.resolve_right (fun h => h.1 rfl)
    obtain ⟨hok, hsize⟩ := not_or.mp hno
    have hkept : NewKept env m arg n ↔ (m.make env (cSizeT n)).Made m.bufs.next n := by
      constructor
      · rintro (⟨e, m', he⟩ | ⟨b, m', he, hmade⟩)
        · cases hr.symm.trans he
        · obtain ⟨hvs, rfl⟩ := EStateM.Result.ok.inj (hr.symm.trans he)
          obtain rfl := Value.buffer.inj (List.cons.inj hvs).1
          exact hmade
      · intro hmade
        exact .inr ⟨_, _, hr, hmade⟩
    rw [hkept, m.make_made]
    constructor
    · rintro ⟨hlen, -⟩
      refine .inr ⟨by omega, ?_⟩
      unfold couvBufMemHeader at hsize ⊢
      omega
    · rintro (hfail | ⟨h0, hn⟩)
      · exact absurd hfail hok
      · have hlen := hself h0 (by omega)
        refine ⟨hlen, (newBlockSize_eq ?_).ge⟩
        unfold couvBufMemHeader at hn ⊢
        omega

theorem concatForwards_inCInt (buffers : List UvBuf) {t : ℤ} (ht : InCInt t) :
    InCInt (concatForwards buffers t) := by
  unfold concatForwards
  split
  · exact concatTotal_inCInt buffers
  · exact ht

/-- The number that buffer_concat forwards, if its arguments are right. -/
def concatLength (m : Mem) (items : List Value) (total : Value) : Option ℤ :=
  match couvCheckbuforstrtable items m, luaLOptint 2 total 0 with
  | .ok buffers _, .ok t => some (concatForwards buffers t)
  | _, _ => none

theorem concat_kept_iff (env : AllocEnv) (m : Mem) {items : List Value} {total : Value} {n : ℤ}
    (h : concatLength m items total = some n) :
    NewKept env m (.number n) n ↔ env.ok = false ∨ 0 ≤ n := by
  have hn : n < 2^64-couvBufMemHeader := by
    unfold concatLength at h
    split at h
    · next buffers _ t _ ht =>
      obtain rfl := Option.some.inj h
      have hint := (concatForwards_inCInt buffers (luaLOptint_mem ht)).2
      unfold cIntMax at hint
      unfold couvBufMemHeader
      omega
    · cases h
  rw [new_kept_iff env m rfl]
  unfold LengthFits
  rw [and_iff_left hn]

/-! Runs. -/

/-- What Buffer.new takes the length from. -/
def newLength : Value → Option ℤ
  | .string s => some s.length
  | v => v.luaNumber

/-- The lengths that Lua code asks for leave room for the counter. -/
def NewStep (s : World) : Action → Prop
  | .heap (.bufNew env arg) => ∀ n ∈ newLength arg, LengthFits env n
  | .heap (.bufConcat env items total) => ∀ n ∈ concatLength s.mem items total, LengthFits env n
  | _ => True

instance (s : World) : DecidablePred (NewStep s)
  | .heap (.bufNew _ _) | .heap (.bufConcat _ _ _) => inferInstanceAs (Decidable (∀ n ∈ _, _))
  | .heap (.newString _) | .heap (.newTable _) | .heap (.setTable _ _)
  | .heap (.bufSlice _ _ _ _) | .lua _ | .handle _ | .call _ _ | .event _ | .gc _ => isTrue trivial

/-- The Buffer call returns. -/
def HeapAct.returns (s : World) : HeapAct → Bool
  | .bufNew env arg => s.checks (bufferNew env arg)
  | .bufSlice env self first last => s.checks (bufferSlice env self first last)
  | .bufConcat env items total => s.checks (bufferConcat env items total)
  | _ => true

/-- The Buffer that is sliced. -/
def HeapAct.sliced : HeapAct → Option ℕ
  | .bufSlice _ (.buffer b) _ _ => some b
  | _ => none

/-- The userdata that Lua code never gets: those of calls that did not return, and slices of
them. -/
def World.lost (s : World) (ud : List ℕ) : Action → List ℕ
  | .heap h =>
    if (s.execHeap h).mem.bufs.next = s.mem.bufs.next then ud
    else if h.returns s = true ∧ ∀ b ∈ h.sliced, b ∉ ud then ud
    else s.mem.bufs.next :: ud
  | _ => ud

theorem LengthFits.blockSize {env : AllocEnv} {k : ℤ} {n : ℕ} (h : LengthFits env k)
    (hno : ¬NoBlock env n) (hn : n = cSizeT k ∨ (n : ℤ) = k) : newBlockSize n = n := by
  apply newBlockSize_eq
  unfold couvBufMemHeader
  rcases h with hfail | ⟨h0, hlt⟩
  · exact absurd (.inl hfail) hno
  · unfold couvBufMemHeader at hlt
    unfold cSizeT at hn
    omega

theorem newLength_of_arg {arg : Value} {n : ℕ} {str : Option LuaString}
    (h : bufferNewArg arg = .ok (n, str)) :
    ∃ k, newLength arg = some k ∧ (n = cSizeT k ∨ (n : ℤ) = k) := by
  unfold bufferNewArg at h
  split at h
  · next s =>
    obtain ⟨rfl, -⟩ := Prod.mk.inj (Except.ok.inj h)
    exact ⟨s.length, rfl, .inr rfl⟩
  · next hstr =>
    split at h
    · next k hk =>
      obtain ⟨rfl, -⟩ := Prod.mk.inj (Except.ok.inj h)
      refine ⟨k, ?_, .inl rfl⟩
      cases arg with
      | string s => exact absurd rfl (hstr s)
      | _ => exact hk
    · cases h

/-- A Buffer that Lua code has is no longer than its block. -/
def BuffersFit (s : World) (lost : List ℕ) : Prop :=
  ∀ b buf, b ∉ lost → s.mem.bufs.get b = some buf → (buf.orig = none → buf.len = 0) ∧
    ∀ blk bl, buf.orig = some blk → s.mem.blocks.get blk = some bl →
      ∃ off : ℕ, buf.base = some ⟨blk, off⟩ ∧ off+buf.len ≤ bl.size

/-- The Buffer lies in its block as long as that is there. -/
structure Mem.Placed (m : Mem) (buf : CouvBuf) : Prop where
  shape : buf.Shape m.sizes
  old : ∀ blk, buf.orig = some blk → blk < m.blocks.next

theorem Mem.Placed.later {m m' : Mem} {buf : CouvBuf} (h : m.Placed buf)
    (hl : m.sizes.Later m'.sizes) : m'.Placed buf := by
  refine ⟨⟨h.shape.null, ?_⟩, fun blk ho => (h.old blk ho).trans_le hl.next⟩
  intro blk ho
  obtain ⟨off, hbase, hin⟩ := h.shape.inside blk ho
  exact ⟨off, hbase, fun n hn => hin n (hl.old blk n (h.old blk ho) hn)⟩

theorem placed_null (m : Mem) : m.Placed ⟨none, none, 0⟩ :=
  ⟨⟨fun _ => ⟨rfl, rfl⟩, fun _ ho => by cases ho⟩, fun _ ho => by cases ho⟩

/-- A new block. -/
theorem placed_new {m m' : Mem} {n k : ℕ} (hsizes : m'.sizes = m.sizes.alloc k) (hk : n ≤ k) :
    m'.Placed ⟨some m.blocks.next, some ⟨m.blocks.next, 0⟩, n⟩ := by
  refine ⟨⟨fun ho => (by cases ho), ?_⟩, ?_⟩
  · intro blk ho
    obtain rfl := Option.some.inj ho
    refine ⟨0, rfl, fun j hj => ?_⟩
    rw [hsizes] at hj
    obtain rfl := Option.some.inj ((m.sizes.alloc_get_self k).symm.trans hj)
    change 0+n ≤ k
    omega
  · intro blk ho
    obtain rfl := Option.some.inj ho
    have hnext : m'.sizes.next = m.sizes.next+1 := by rw [hsizes, Store.alloc_next]
    change m.sizes.next < m'.sizes.next
    omega

/-- A part of a Buffer. -/
theorem Mem.Placed.sub {m : Mem} {buf buf' : CouvBuf} {blk : ℕ} (h : m.Placed buf)
    (ho : buf.orig = some blk) (ho' : buf'.orig = some blk)
    (hin : ∃ i : ℤ, 0 ≤ i ∧ i + buf'.len ≤ buf.len ∧ buf'.base = buf.base.map (·.add i)) :
    m.Placed buf' := by
  refine ⟨h.shape.sub ho ho' hin, ?_⟩
  intro blk' hb
  obtain rfl := Option.some.inj (ho'.symm.trans hb)
  exact h.old blk ho

/-- Every Buffer that Lua code has or may get lies in its block. -/
structure FitOk (p : World × List ℕ) : Prop where
  bufs : ∀ b buf, b ∉ p.2 → p.1.mem.bufs.get b = some buf → p.1.mem.Placed buf
  nodes : ∀ n node, p.1.input.nodes.get n = some node → p.1.mem.Placed node.wBuf
  reads : ∀ r ∈ p.1.reads, p.1.mem.Placed (inputBuf (some r))

theorem fitOk_init : FitOk (.init, []) where
  bufs b buf _ hb := by cases hb
  nodes n node hn := by cases hn
  reads r hr := by cases hr

/-- Only couv_buf_alloc_cb gives libuv a buffer. -/
theorem World.exec_reads {s : World} {a : Action} (hg : s.guard a)
    (hne : ∀ h n env, a ≠ .event (.alloc h n env)) : ∀ r ∈ (s.exec a).reads, r ∈ s.reads := by
  have hsame : (s.exec a).reads = s.reads → ∀ r ∈ (s.exec a).reads, r ∈ s.reads :=
    fun he _ hr => he ▸ hr
  cases a with
  | lua a => exact hsame (passive_reads.execLua s _ a)
  | handle m =>
    obtain ⟨hs, reg, input, he, -⟩ := (execHandle_spec (L := s.current.getD 0) hg.2).cases
    refine hsame ?_
    simp only [exec, he]
  | call boundary c =>
    exact hsame (passive_reads.execCall (fun _ _ => rfl) (fun _ _ => rfl) (fun _ _ => rfl)
      boundary _ hg.2)
  | heap h =>
    exact hsame (execHeap_proj (f := reads) (fun _ _ => rfl) (fun _ _ => rfl) (fun _ _ => rfl) s h)
  | event e =>
    cases hn : e.node with
    | some node =>
      -- an input callback takes its buffer from libuv
      obtain ⟨rd, he, -⟩ := inputEvent hg.2 hn
      have hreads : (s.inputCb node rd).reads = (s.takeRead rd).reads := by
        simp only [inputCb]
        split
        · rw [passive_reads.couvResume]
          rfl
        · rfl
      change ∀ r ∈ (s.execEvent e).reads, r ∈ s.reads
      rw [he, hreads]
      cases rd with
      | none => exact fun _ => id
      | some r => exact fun _ => List.mem_of_mem_erase
    | none =>
      cases e with
      | readCb | read2Cb | udpRecvCb => cases hn
      | alloc h n env => exact absurd rfl (hne h n env)
      | timerCb | exitCb | connectionCb => exact hsame rfl
      | complete r o =>
        obtain ⟨q, hq, -⟩ := hg.2
        exact hsame (passive_reads.complete (fun _ _ => rfl) (fun _ _ => rfl) (fun _ _ => rfl)
          hq o)
  | gc g =>
    cases g with
    | thread | handle | string => exact hsame rfl
    | buffer b => exact hsame (collectBuffer_proj (f := reads) (fun _ _ => rfl) s b)

namespace FitOk
variable {s : World} {ud : List ℕ} (h : FitOk (s, ud)) {a : Action}

include h in
theorem exec_nodes (hg : s.guard a) (n : ℕ) (node : InputNode)
    (hn : (s.exec a).input.nodes.get n = some node) : (s.exec a).mem.Placed node.wBuf := by
  have hl := (World.exec_later hg).2
  obtain ⟨hnodes, -⟩ := Prod.mk.inj (exec_fedNodes hg)
  rw [hnodes] at hn
  unfold Input.fed at hn
  split at hn
  swap
  · exact (h.nodes n node hn).later hl
  next node' hnode =>
  -- the new node takes over the buffer of libuv
  rcases s.input.nodes.alloc_eq_some.mp hn with ⟨-, rfl⟩ | ⟨-, hn⟩
  swap
  · exact (h.nodes n node hn).later hl
  cases a with
  | event e =>
    obtain ⟨rd, -, hbuf, -, hread⟩ := World.inputEvent hg.2 hnode
    rw [hbuf]
    cases rd with
    | none => exact placed_null _
    | some r => exact (h.reads r (hread r rfl).1).later hl
  | lua | handle | call | heap | gc => cases hnode

include h in
theorem exec_readBufs (hg : s.guard a) (r : UvRead) (hr : r ∈ (s.exec a).reads) :
    (s.exec a).mem.Placed (inputBuf (some r)) := by
  have hl := (World.exec_later hg).2
  -- only couv_buf_alloc_cb makes a read
  by_cases halloc : ∃ h n env, a = .event (.alloc h n env)
  swap
  · have hold := World.exec_reads hg (fun h n env he => halloc ⟨h, n, env, he⟩) r hr
    exact (h.reads r hold).later hl
  obtain ⟨k, n, env, rfl⟩ := halloc
  have hn : n < 2^31 := hg.2.1
  have hsize : newBlockSize n = n := newBlockSize_eq (by unfold couvBufMemHeader; omega)
  simp only [World.exec, World.execEvent, World.couvBufAllocCb] at hr hl ⊢
  rcases couvBufMemAlloc_cases env n s.mem with ⟨-, he⟩ | ⟨-, he⟩
  · simp only [he] at hr hl ⊢
    exact h.reads r hr
  · simp only [he] at hr hl ⊢
    rcases List.mem_cons.mp hr with rfl | hr
    · exact placed_new (s.mem.sizes_allocBlock _) hsize.ge
    · exact (h.reads r hr).later hl

/-- A Buffer call makes no userdata, or one that fits its block when Lua code gets it. -/
def HeapFits (s : World) (ud : List ℕ) (h : HeapAct) : Prop :=
  (s.execHeap h).mem.bufs = s.mem.bufs ∨
    ∃ buf, (s.execHeap h).mem.bufs = s.mem.bufs.alloc buf ∧
      (h.returns s = true → (∀ b ∈ h.sliced, b ∉ ud) → (s.execHeap h).mem.Placed buf)

include h in
theorem execHeap_bufs {m : HeapAct} (hm : HeapFits s ud m) (b : ℕ) (buf : CouvBuf)
    (hb : b ∉ s.lost ud (.heap m)) (hget : (s.execHeap m).mem.bufs.get b = some buf) :
    (s.execHeap m).mem.Placed buf := by
  have hl := World.execHeap_later s m
  simp only [World.lost] at hb
  rcases hm with he | ⟨new, he, hnew⟩
  · rw [he, if_pos rfl] at hb
    rw [he] at hget
    exact (h.bufs b buf hb hget).later hl
  · rw [he, Store.alloc_next, if_neg (Nat.succ_ne_self _)] at hb
    rw [he] at hget
    rcases s.mem.bufs.alloc_eq_some.mp hget with ⟨rfl, rfl⟩ | ⟨-, hget⟩
    · split at hb
      · next hret => exact hnew hret.1 hret.2
      · exact absurd List.mem_cons_self hb
    · refine (h.bufs b buf (fun hmem => hb ?_) hget).later hl
      split
      · exact hmem
      · exact List.mem_cons_of_mem _ hmem

theorem not_checks {α : Type} {x : BufM α} {e : Failure} {m : Mem} (hr : x s.mem = .error e m) :
    s.checks x ≠ true := by
  simp only [World.checks, hr]
  exact Bool.false_ne_true

/-- The userdata of a call that makes a block for `n` bytes. -/
theorem placed_make {env : AllocEnv} {n : ℕ} {m' : Mem} (hsame : (s.mem.make env n).Same m')
    (hn : newBlockSize n = n) :
    m'.Placed ⟨some s.mem.blocks.next, some ⟨s.mem.blocks.next, 0⟩, n⟩ :=
  placed_new (hsame.sizes.trans (s.mem.make_sizes env n)) hn.ge

theorem heapFits_new (env : AllocEnv) {arg : Value} (hfit : ∀ n ∈ newLength arg, LengthFits env n) :
    HeapFits s ud (.bufNew env arg) := by
  unfold HeapFits
  simp only [World.execHeap, World.runBuf_mem, HeapAct.returns]
  rcases bufferNew_cases env s.mem arg with
    ⟨e, -, hr⟩ | ⟨n, str, harg, ⟨-, hr⟩ | ⟨hno, m', hsame, -, hr | ⟨-, hr⟩⟩⟩
  · rw [BufM.after_error hr]
    exact .inl rfl
  · rw [BufM.after_error hr]
    exact .inr ⟨env.uninit, rfl, fun hret => absurd hret (not_checks hr)⟩
  · rw [BufM.after_ok hr]
    obtain ⟨k, hk, hnk⟩ := newLength_of_arg harg
    exact .inr ⟨_, hsame.bufs, fun _ _ => placed_make hsame ((hfit k hk).blockSize hno hnk)⟩
  · rw [BufM.after_error hr]
    exact .inr ⟨_, hsame.bufs, fun hret => absurd hret (not_checks hr)⟩

theorem heapFits_concat (env : AllocEnv) {items : List Value} {total : Value}
    (hfit : ∀ n ∈ concatLength s.mem items total, LengthFits env n) :
    HeapFits s ud (.bufConcat env items total) := by
  unfold HeapFits
  simp only [World.execHeap, World.runBuf_mem, HeapAct.returns]
  rcases bufferConcat_cases env s.mem items total with
    ⟨e, hr, -⟩ | ⟨buffers, t, hb, ht, ⟨-, hr⟩ | ⟨hno, m', hsame, hr | hr⟩⟩
  · rw [BufM.after_error hr]
    exact .inl rfl
  · rw [BufM.after_error hr]
    exact .inr ⟨env.uninit, rfl, fun hret => absurd hret (not_checks hr)⟩
  · rw [BufM.after_ok hr]
    have hlen : concatLength s.mem items total = some (concatForwards buffers t) := by
      simp only [concatLength, hb, ht]
    exact .inr ⟨_, hsame.bufs, fun _ _ =>
      placed_make hsame ((hfit _ hlen).blockSize hno (.inl rfl))⟩
  · rw [BufM.after_error hr]
    exact .inr ⟨_, hsame.bufs, fun hret => absurd hret (not_checks hr)⟩

include h in
theorem heapFits_slice (env : AllocEnv) (self first last : Value) :
    HeapFits s ud (.bufSlice env self first last) := by
  unfold HeapFits
  simp only [World.execHeap, World.runBuf_mem, HeapAct.returns]
  rcases bufferSlice_outcomes s.mem env self first last with
    ⟨e, hr⟩ | ⟨b, buf, rfl, hb, -, ⟨-, hr⟩ | ⟨buf', blk, bl, ho, -, ho', hin, hr⟩⟩
  · rw [BufM.after_error hr]
    exact .inl rfl
  · rw [BufM.after_error hr]
    exact .inr ⟨env.uninit, rfl, fun hret => absurd hret (not_checks hr)⟩
  · rw [BufM.after_ok hr]
    refine .inr ⟨buf', rfl, fun _ hsliced => ?_⟩
    have hparent := (h.bufs b buf (hsliced b rfl) hb).sub ho ho' hin
    refine hparent.later ?_
    change s.mem.sizes.Later (s.mem.setRefCnt blk _).sizes
    rw [Mem.setRefCnt_sizes]
    exact .refl _

include h in
theorem exec (hg : s.guard a) (hstep : NewStep s a) : FitOk (s.exec a, s.lost ud a) := by
  refine ⟨?_, h.exec_nodes hg, h.exec_readBufs hg⟩
  have hl := (World.exec_later hg).2
  by_cases hheap : ∃ m, a = .heap m
  · obtain ⟨m, rfl⟩ := hheap
    refine h.execHeap_bufs ?_
    cases m with
    | newString | newTable | setTable => exact .inl rfl
    | bufNew env arg => exact heapFits_new env hstep
    | bufSlice env self first last => exact h.heapFits_slice env self first last
    | bufConcat env items total => exact heapFits_concat env hstep
  have hlost : s.lost ud a = ud := by
    cases a with
    | heap m => exact absurd ⟨m, rfl⟩ hheap
    | lua | handle | call | event | gc => rfl
  rw [hlost]
  intro b buf hb hget
  by_cases hgc : ∃ g, a = .gc g
  · obtain ⟨g, rfl⟩ := hgc
    refine (h.bufs b buf hb ?_).later hl
    cases g with
    | thread | handle | string => exact hget
    | buffer b' =>
      simp only [World.exec, World.execGc, World.collectBuffer_bufs] at hget
      exact (s.mem.bufs.free_eq_some.mp hget).2
  · have hret := World.exec_retains hg (not_exists.mp hheap) (not_exists.mp hgc)
    rcases hret.made b buf hget with hold | ⟨-, n, node, hn, rfl⟩
    · exact (h.bufs b buf hb hold).later hl
    · exact h.exec_nodes hg n node hn

end FitOk

/-- The userdata that Lua code never got in a run. -/
def lostIn (as : List Action) : List ℕ := ((couv.withHistory World.lost).run (.init, []) as).2

theorem run_fitOk {as : List Action} (he : couv.Enabled .init as)
    (hnew : couv.Along NewStep .init as) : FitOk (couv.run .init as, lostIn as) := by
  have hrun : FitOk ((couv.withHistory World.lost).run (.init, []) as) := by
    refine Machine.run_invariant (fun p a hp hstep => FitOk.exec hp hstep.1 hstep.2) fitOk_init
      ((couv.along_withHistory World.lost).mpr (Machine.along_and.mpr ⟨he, hnew⟩))
  have hfst := couv.withHistory_run World.lost (.init, []) as
  rw [← Prod.mk.eta (p := (couv.withHistory World.lost).run (.init, []) as), hfst] at hrun
  exact hrun

/-- For a number, Buffer.new keeps its promise exactly when the allocation fails or the number is a
length that leaves room for the counter, and concat forwards a promise that is kept exactly when it
is not negative. In a run that asks for such lengths only, no Buffer that Lua code gets is longer
than its block. -/
theorem buffers_fit (env : AllocEnv) (m : Mem) (arg : Value) (items : List Value) (total : Value)
    (n : ℤ) (as : List Action) :
    (arg.luaNumber = some n → (NewKept env m arg n ↔ LengthFits env n)) ∧
    (concatLength m items total = some n →
      (NewKept env m (.number n) n ↔ env.ok = false ∨ 0 ≤ n)) ∧
    (couv.Enabled .init as → couv.Along NewStep .init as →
      BuffersFit (couv.run .init as) (lostIn as)) := by
  refine ⟨new_kept_iff env m, concat_kept_iff env m, ?_⟩
  intro he hnew b buf hb hget
  obtain ⟨hnull, hinside⟩ := ((run_fitOk he hnew).bufs b buf hb hget).shape
  refine ⟨fun ho => (hnull ho).2, ?_⟩
  intro blk bl ho hbl
  obtain ⟨off, hbase, hin⟩ := hinside blk ho
  refine ⟨off, hbase, hin bl.size ?_⟩
  rw [Mem.sizes, Store.map_get, hbl]
  rfl

/-- A Buffer that could not be allocated, one that could, and a slice of it. -/
def newAndSlice : List Action :=
  let env (ok : Bool) : AllocEnv := ⟨ok, fun _ => 0, ⟨none, none, 7⟩⟩
  [.heap (.bufNew (env false) (.number 4)), .heap (.bufNew (env true) (.number 4)),
    .heap (.bufSlice (env true) (.buffer 1) (.number 2) .nil)]

theorem buffers_fit_slice :
    let env : AllocEnv := ⟨true, fun _ => 0, ⟨none, none, 7⟩⟩
    NewKept env .empty (.number 4) 4 ∧ lostIn newAndSlice = [0] ∧
      BuffersFit (couv.run .init newAndSlice) (lostIn newAndSlice) := by
  intro env
  obtain ⟨hnew, -, hrun⟩ := buffers_fit env .empty (.number 4) [] .nil 4 newAndSlice
  exact ⟨(hnew rfl).mpr (.inr (by decide)), by decide, hrun (by decide) (by decide)⟩

/-- Buffer.new(-1) asks malloc for 3 bytes, and the counter is stored past their end. -/
theorem minus_one_overflows :
    let env : AllocEnv := ⟨true, fun _ => 0, ⟨none, none, 0⟩⟩
    (∃ m, bufferNew env (.number (-1)) .empty = .error .fault m) ∧
      ¬NewKept env .empty (.number (-1)) (-1) := by
  intro env
  have hfault : bufferNew env (.number (-1)) .empty =
      .error .fault (Mem.empty.abandon env.uninit) := rfl
  refine ⟨⟨_, hfault⟩, ?_⟩
  rintro (⟨e, m', he⟩ | ⟨b, m', he, -⟩)
  · cases hfault.symm.trans he
  · cases hfault.symm.trans he

end Couv
