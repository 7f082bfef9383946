import Couv.BlockHeap

/-! What the Buffer functions that make a userdata can do, whether or not the allocation of its
block succeeds. -/
namespace Couv

/-- The block that malloc gives for a Buffer of length `n`, less the counter in front. -/
def newBlockSize (n : ℕ) : ℕ := (couvBufMemHeader+n) % 2^64 - couvBufMemHeader

theorem newBlockSize_eq {n : ℕ} (h : n < 2^64-couvBufMemHeader) : newBlockSize n = n := by
  unfold newBlockSize
  unfold couvBufMemHeader at *
  omega

namespace Mem
variable (m : Mem)

theorem sizes_allocBlock (b : Block) :
    Mem.sizes { m with blocks := m.blocks.alloc b } = m.sizes.alloc b.size :=
  m.blocks.map_alloc _ _

/-- The userdata that is left when its block could not be allocated. -/
def abandon (u : CouvBuf) : Mem := { m with bufs := m.bufs.alloc u }

/-- A block and its Buffer. -/
def make (env : AllocEnv) (n : ℕ) : Mem :=
  { m with
    blocks := m.blocks.alloc ⟨1, newBlockSize n, env.junk⟩
    bufs := m.bufs.alloc ⟨some m.blocks.next, some ⟨m.blocks.next, 0⟩, n⟩ }

end Mem

/-- couv_alloc fails, or the counter does not fit the block it gives. -/
def NoBlock (env : AllocEnv) (n : ℕ) : Prop :=
  env.ok = false ∨ (couvBufMemHeader+n) % 2^64 < couvBufMemHeader

theorem store_cases (p : Option Ptr) (bs : List UInt8) (m : Mem) :
    (∃ m', memStore p bs m = .ok () m') ∨ memStore p bs m = .error .fault m := by
  unfold memStore
  split
  · exact .inr rfl
  · split
    · exact .inl ⟨_, rfl⟩
    · exact .inr rfl

theorem couvBufMemAlloc_cases (env : AllocEnv) (n : ℕ) (m : Mem) :
    (NoBlock env n ∧ couvBufMemAlloc env n m =
      .error (if env.ok then .fault else .raise (.error "ENOMEM")) m) ∨
      (¬NoBlock env n ∧ couvBufMemAlloc env n m = .ok m.blocks.next
        { m with blocks := m.blocks.alloc ⟨1, newBlockSize n, env.junk⟩ }) := by
  unfold NoBlock couvBufMemAlloc
  cases env.ok with
  | false => exact .inl ⟨.inl rfl, if_pos rfl⟩
  | true =>
    by_cases hsize : (couvBufMemHeader+n) % 2^64 < couvBufMemHeader
    · refine .inl ⟨.inr hsize, ?_⟩
      simp only [if_pos hsize]
      rfl
    · refine .inr ⟨not_or.mpr ⟨Bool.noConfusion, hsize⟩, ?_⟩
      simp only [if_neg hsize]
      rfl

section new
variable (env : AllocEnv) (m : Mem)

/-- The statements of buffer_new up to the copy of the string. -/
theorem new_cases {α : Type} (n : ℕ) (f : ℕ → ℕ → BufM α) :
    let call : BufM α := do
      let b ← newBufUserdata env.uninit
      let blk ← couvBufMemAlloc env n
      setBufUserdata b ⟨some blk, some ⟨blk, 0⟩, n⟩
      f b blk
    (NoBlock env n ∧ call m = .error (if env.ok then .fault else .raise (.error "ENOMEM"))
      (m.abandon env.uninit)) ∨
      (¬NoBlock env n ∧ call m = f m.bufs.next m.blocks.next (m.make env n)) := by
  intro call
  have hnew : newBufUserdata env.uninit m = .ok m.bufs.next (m.abandon env.uninit) := rfl
  have hset (blk : ℕ) (buf : CouvBuf) (m₁ : Mem) : setBufUserdata blk buf m₁ =
      .ok () { m₁ with bufs := m₁.bufs.modify blk (fun _ => buf) } := rfl
  rcases couvBufMemAlloc_cases env n (m.abandon env.uninit) with ⟨hno, halloc⟩ | ⟨hno, halloc⟩
  · exact .inl ⟨hno, (run_bind_ok hnew).trans (run_bind_error halloc)⟩
  · refine .inr ⟨hno, (run_bind_ok hnew).trans ((run_bind_ok halloc).trans
      ((run_bind_ok (hset _ _ _)).trans ?_))⟩
    simp only [Mem.abandon, Store.alloc_modify]
    rfl

/-- buffer_new rejects its argument, leaves a userdata without a block, or makes a Buffer; the
copy of a string touches bytes only. -/
theorem bufferNew_cases (arg : Value) :
    (∃ e, bufferNewArg arg = .error e ∧ bufferNew env arg m = .error (.raise e) m) ∨
      ∃ n str, bufferNewArg arg = .ok (n, str) ∧
        ((NoBlock env n ∧ bufferNew env arg m =
          .error (if env.ok then .fault else .raise (.error "ENOMEM")) (m.abandon env.uninit)) ∨
        (¬NoBlock env n ∧ ∃ m', (m.make env n).Same m' ∧ (str = none → m' = m.make env n) ∧
          (bufferNew env arg m = .ok [.buffer m.bufs.next] m' ∨
            str ≠ none ∧ bufferNew env arg m = .error .fault m'))) := by
  cases harg : bufferNewArg arg with
  | error e => exact .inl ⟨e, rfl, BufM.bind_check_error m harg⟩
  | ok p =>
    obtain ⟨n, str⟩ := p
    refine .inr ⟨n, str, rfl, ?_⟩
    cases str with
    -- no string to copy, so the call ends with the new buffer
    | none =>
      rcases new_cases env m n (fun b _ => pure [Value.buffer b]) with ⟨hno, he⟩ | ⟨hno, he⟩
      · exact .inl ⟨hno, (BufM.bind_check_ok m harg).trans he⟩
      · exact .inr ⟨hno, _, .refl _, fun _ => rfl, .inl ((BufM.bind_check_ok m harg).trans he)⟩
    | some s =>
      rcases new_cases env m n (fun b blk => memStore (some ⟨blk, 0⟩) s >>= fun _ =>
          pure [Value.buffer b]) with ⟨hno, he⟩ | ⟨hno, he⟩
      · exact .inl ⟨hno, (BufM.bind_check_ok m harg).trans he⟩
      · have hcall : bufferNew env arg m = (memStore (some ⟨m.blocks.next, 0⟩) s >>= fun _ =>
            pure [Value.buffer m.bufs.next]) (m.make env n) :=
          (BufM.bind_check_ok m harg).trans he
        have hne : some s ≠ none := Option.some_ne_none s
        have hkeeps := keeps_store (some ⟨m.blocks.next, 0⟩) s (m.make env n)
        unfold BufM.after at hkeeps
        refine .inr ⟨hno, ?_⟩
        rcases store_cases (some ⟨m.blocks.next, 0⟩) s (m.make env n) with ⟨m', hst⟩ | hst
        · rw [hst] at hkeeps
          exact ⟨m', hkeeps, fun h => absurd h hne, .inl (hcall.trans (run_bind_ok hst))⟩
        · rw [hst] at hkeeps
          exact ⟨_, hkeeps, fun h => absurd h hne, .inr ⟨hne, hcall.trans (run_bind_error hst)⟩⟩

end new

/-! Buffer.concat. -/

/-- The number that buffer_concat passes to buffer_new. -/
def concatForwards (buffers : List UvBuf) (totalLength : ℤ) : ℤ :=
  if totalLength = 0 then concatTotal buffers else totalLength

theorem concatTotal_inCInt (buffers : List UvBuf) : InCInt (concatTotal buffers) := by
  unfold concatTotal
  induction buffers using List.reverseRecOn with
  | nil => exact inCInt_of (by decide) (by decide)
  | append_singleton buffers buf ih =>
    rw [List.foldl_append]
    exact cInt_mem _

theorem load_cases (p : Option Ptr) (n : ℤ) (m : Mem) :
    (∃ bs, memLoad p n m = .ok bs m) ∨ memLoad p n m = .error .fault m := by
  unfold memLoad
  split
  · exact .inr rfl
  · split
    · exact .inl ⟨_, rfl⟩
    · exact .inr rfl

theorem uvBufLoad_cases (buf : UvBuf) (n : ℤ) (m : Mem) :
    (∃ bs, buf.load n m = .ok bs m) ∨ buf.load n m = .error .fault m := by
  cases buf with
  | mem base len => exact load_cases base n m
  | str s =>
    by_cases h : 0 ≤ n ∧ n ≤ s.length
    · exact .inl ⟨s.take n.toNat, by simp only [UvBuf.load, if_pos h, BufM.pure_run]⟩
    · refine .inr ?_
      simp only [UvBuf.load, if_neg h]
      rfl

theorem concatCopy_cases (buffers : List UvBuf) : ∀ (dst : Ptr) (total : ℤ) (m : Mem), ∃ m',
    m.Same m' ∧ (concatCopy dst total buffers m = .ok () m' ∨
      concatCopy dst total buffers m = .error .fault m') := by
  induction buffers with
  | nil => exact fun _ _ m => ⟨m, .refl m, .inl rfl⟩
  | cons buf buffers ih =>
    intro dst total m
    -- each turn loads from the next buffer, stores and goes on; both may fault
    unfold concatCopy
    split
    swap
    · exact ⟨m, .refl m, .inl rfl⟩
    rcases uvBufLoad_cases buf (if cInt buf.len > total then total else cInt buf.len) m with
      ⟨bs, hl⟩ | hl
    swap
    · exact ⟨m, .refl m, .inr (run_bind_error hl)⟩
    have hkeeps := keeps_store (some dst) bs m
    unfold BufM.after at hkeeps
    rcases store_cases (some dst) bs m with ⟨m₁, hst⟩ | hst
    swap
    · exact ⟨m, .refl m, .inr ((run_bind_ok hl).trans (run_bind_error hst))⟩
    rw [hst] at hkeeps
    obtain ⟨m', hsame, hend⟩ := ih (dst.add (if cInt buf.len > total then total else cInt buf.len))
      (total - (if cInt buf.len > total then total else cInt buf.len)) m₁
    refine ⟨m', hkeeps.trans hsame, ?_⟩
    rcases hend with he | he
    · exact .inl ((run_bind_ok hl).trans ((run_bind_ok hst).trans he))
    · exact .inr ((run_bind_ok hl).trans ((run_bind_ok hst).trans he))

/-- buffer_concat rejects an argument, or ends as buffer_new does for the length it forwards;
the copies touch bytes only. -/
theorem bufferConcat_cases (env : AllocEnv) (m : Mem) (items : List Value) (total : Value) :
    (∃ e, bufferConcat env items total m = .error (.raise e) m ∧
      ¬∃ buffers t, couvCheckbuforstrtable items m = .ok buffers m ∧
        luaLOptint 2 total 0 = .ok t) ∨
      ∃ buffers t, couvCheckbuforstrtable items m = .ok buffers m ∧
        luaLOptint 2 total 0 = .ok t ∧
        ((NoBlock env (cSizeT (concatForwards buffers t)) ∧ bufferConcat env items total m =
          .error (if env.ok then .fault else .raise (.error "ENOMEM")) (m.abandon env.uninit)) ∨
        (¬NoBlock env (cSizeT (concatForwards buffers t)) ∧
          ∃ m', (m.make env (cSizeT (concatForwards buffers t))).Same m' ∧
          (bufferConcat env items total m = .ok [.buffer m.bufs.next] m' ∨
            bufferConcat env items total m = .error .fault m'))) := by
  unfold bufferConcat
  rcases checkbuforstrtable_cases m items with ⟨buffers, hb⟩ | ⟨e, hb⟩
  swap
  · obtain ⟨e', rfl⟩ : ∃ e', e = .raise e' := by
      unfold couvCheckbuforstrtable at hb
      split at hb
      · cases hb
      · exact ⟨_, (EStateM.Result.error.inj hb).1.symm⟩
    refine .inl ⟨e', run_bind_error hb, ?_⟩
    rintro ⟨buffers, t, hb', -⟩
    cases hb.symm.trans hb'
  rw [run_bind_ok hb]
  cases ht : luaLOptint 2 total 0 with
  | error e =>
    refine .inl ⟨e, BufM.bind_check_error m rfl, ?_⟩
    rintro ⟨buffers, t, -, ht'⟩
    cases ht'
  | ok t =>
    rw [BufM.bind_check_ok m rfl]
    refine .inr ⟨buffers, t, hb, rfl, ?_⟩
    -- the size is a number, so no string is copied
    rcases bufferNew_cases env m (.number (concatForwards buffers t)) with
      ⟨e, harg, -⟩ | ⟨n, str, harg, ⟨hno, hn⟩ | ⟨hno, m', hsame, hm', hn⟩⟩
    · cases harg
    · obtain ⟨rfl, -⟩ := Prod.mk.inj (Except.ok.inj harg)
      exact .inl ⟨hno, run_bind_error hn⟩
    · obtain ⟨rfl, rfl⟩ := Prod.mk.inj (Except.ok.inj harg)
      obtain rfl := hm' rfl
      have hn := hn.resolve_right (fun h => h.1 rfl)
      let n := cSizeT (concatForwards buffers t)
      have hget : couvCheckbuf 1 (([Value.buffer m.bufs.next] : List Value).headD .nil)
          (m.make env n) = .ok ⟨some m.blocks.next, some ⟨m.blocks.next, 0⟩, n⟩
            (m.make env n) := by
        simp only [couvCheckbuf, List.headD_cons, Mem.make, Store.alloc_get_self]
      obtain ⟨m', hsame, hend⟩ := concatCopy_cases buffers ⟨m.blocks.next, 0⟩
        (concatForwards buffers t) (m.make env n)
      refine .inr ⟨hno, m', hsame, ?_⟩
      rcases hend with he | he
      · exact .inl ((run_bind_ok hn).trans ((run_bind_ok hget).trans (run_bind_ok he)))
      · exact .inr ((run_bind_ok hn).trans ((run_bind_ok hget).trans (run_bind_error he)))

/-! A call makes one userdata at most, and changes none. -/

def Mem.OneBuf (m m' : Mem) : Prop := m'.bufs = m.bufs ∨ ∃ buf, m'.bufs = m.bufs.alloc buf

theorem bufferNew_oneBuf (env : AllocEnv) (m : Mem) (arg : Value) :
    m.OneBuf (BufM.after (bufferNew env arg) m) := by
  rcases bufferNew_cases env m arg with
    ⟨e, -, hr⟩ | ⟨n, str, -, ⟨-, hr⟩ | ⟨-, m', hsame, -, hr | ⟨-, hr⟩⟩⟩
  · rw [BufM.after_error hr]
    exact .inl rfl
  · rw [BufM.after_error hr]
    exact .inr ⟨_, rfl⟩
  · rw [BufM.after_ok hr]
    exact .inr ⟨_, hsame.bufs⟩
  · rw [BufM.after_error hr]
    exact .inr ⟨_, hsame.bufs⟩

theorem bufferConcat_oneBuf (env : AllocEnv) (m : Mem) (items : List Value) (total : Value) :
    m.OneBuf (BufM.after (bufferConcat env items total) m) := by
  rcases bufferConcat_cases env m items total with
    ⟨e, hr, -⟩ | ⟨buffers, t, -, -, ⟨-, hr⟩ | ⟨-, m', hsame, hr | hr⟩⟩
  · rw [BufM.after_error hr]
    exact .inl rfl
  · rw [BufM.after_error hr]
    exact .inr ⟨_, rfl⟩
  · rw [BufM.after_ok hr]
    exact .inr ⟨_, hsame.bufs⟩
  · rw [BufM.after_error hr]
    exact .inr ⟨_, hsame.bufs⟩

theorem bufferSlice_oneBuf (env : AllocEnv) (m : Mem) (self first last : Value) :
    m.OneBuf (BufM.after (bufferSlice env self first last) m) := by
  rcases bufferSlice_outcomes m env self first last with
    ⟨e, hr⟩ | ⟨b, buf, -, -, -, ⟨-, hr⟩ | ⟨buf', blk, bl, -, -, -, -, hr⟩⟩
  · rw [BufM.after_error hr]
    exact .inl rfl
  · rw [BufM.after_error hr]
    exact .inr ⟨_, rfl⟩
  · rw [BufM.after_ok hr]
    exact .inr ⟨_, rfl⟩

/-! Nor does it give a block another size. -/

theorem Mem.Same.later {m₀ m m' : Mem} (h : m.Same m') (hm : m₀.sizes.Later m.sizes) :
    m₀.sizes.Later m'.sizes := by
  rw [h.sizes]
  exact hm

theorem Mem.make_sizes (m : Mem) (env : AllocEnv) (n : ℕ) :
    (m.make env n).sizes = m.sizes.alloc (newBlockSize n) :=
  m.sizes_allocBlock ⟨1, newBlockSize n, env.junk⟩

theorem Mem.make_later (m : Mem) (env : AllocEnv) (n : ℕ) :
    m.sizes.Later (m.make env n).sizes := by
  rw [m.make_sizes]
  exact m.sizes.later_alloc _

theorem bufferNew_later (env : AllocEnv) (m : Mem) (arg : Value) :
    m.sizes.Later (BufM.after (bufferNew env arg) m).sizes := by
  rcases bufferNew_cases env m arg with
    ⟨e, -, hr⟩ | ⟨n, str, -, ⟨-, hr⟩ | ⟨-, m', hsame, -, hr | ⟨-, hr⟩⟩⟩
  · rw [BufM.after_error hr]
    exact .refl _
  · rw [BufM.after_error hr]
    exact .refl _
  · rw [BufM.after_ok hr]
    exact hsame.later (m.make_later env n)
  · rw [BufM.after_error hr]
    exact hsame.later (m.make_later env n)

theorem bufferConcat_later (env : AllocEnv) (m : Mem) (items : List Value) (total : Value) :
    m.sizes.Later (BufM.after (bufferConcat env items total) m).sizes := by
  rcases bufferConcat_cases env m items total with
    ⟨e, hr, -⟩ | ⟨buffers, t, -, -, ⟨-, hr⟩ | ⟨-, m', hsame, hr | hr⟩⟩
  · rw [BufM.after_error hr]
    exact .refl _
  · rw [BufM.after_error hr]
    exact .refl _
  · rw [BufM.after_ok hr]
    exact hsame.later (m.make_later env _)
  · rw [BufM.after_error hr]
    exact hsame.later (m.make_later env _)

theorem bufferSlice_later (env : AllocEnv) (m : Mem) (self first last : Value) :
    m.sizes.Later (BufM.after (bufferSlice env self first last) m).sizes := by
  rcases bufferSlice_outcomes m env self first last with
    ⟨e, hr⟩ | ⟨b, buf, -, -, -, ⟨-, hr⟩ | ⟨buf', blk, bl, -, -, -, -, hr⟩⟩
  · rw [BufM.after_error hr]
    exact .refl _
  · rw [BufM.after_error hr]
    exact .refl _
  · rw [BufM.after_ok hr]
    change m.sizes.Later (m.setRefCnt blk _).sizes
    rw [Mem.setRefCnt_sizes]
    exact .refl _

theorem release_later (ptr : Option ℕ) (m : Mem) :
    m.sizes.Later (BufM.after (couvBufMemRelease ptr) m).sizes := by
  rcases release_cases ptr m with hr | ⟨blk, bl, -, -, hr | hr⟩
  · rw [BufM.after_error hr]
    exact .refl _
  · have hsizes : (m.blocks.free blk).map (·.size) = m.sizes.free blk := m.blocks.map_free _ _
    rw [BufM.after_ok hr]
    change m.sizes.Later ((m.blocks.free blk).map (·.size))
    rw [hsizes]
    exact m.sizes.later_free blk
  · rw [BufM.after_ok hr, Mem.setRefCnt_sizes]
    exact .refl _

end Couv
