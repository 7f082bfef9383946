import Couv.IntMethods

/-! Copies from one Buffer to another, and from a string into a Buffer. -/
namespace Couv

/-- A Buffer shorter than 2^31 bytes; if it shows bytes at all, they lie in a live block. -/
structure Mem.ShortBuf (m : Mem) (b : ℕ) (buf : CouvBuf) : Prop where
  get : m.bufs.get b = some buf
  fits : 0 < buf.len → m.Fits buf
  small : buf.len < 2^31

/-- The ints that buffer_copy takes from its arguments pass its checks. -/
structure CopyArgs (buf target : CouvBuf) (targetFirst sourceFirst sourceLast : Value)
    (t f l : ℤ) : Prop where
  targetFirst : luaLOptint 3 targetFirst 1 = .ok t
  sourceFirst : luaLOptint 4 sourceFirst 1 = .ok f
  sourceLast : luaLOptint 5 sourceLast buf.len = .ok l
  target : couvArgcheckindex 3 t 1 (cInt target.len) = .ok ()
  first : couvArgcheckindex 4 f 1 (cInt buf.len) = .ok ()
  last : couvArgcheckindex 5 l f (cInt buf.len) = .ok ()

/-- The ints that buffer_write takes from its arguments pass its checks. -/
structure WriteArgs (buf : CouvBuf) (position length : Value) (p n : ℤ) : Prop where
  position : luaLOptint 3 position 1 = .ok p
  length : luaLOptint 4 length (buf.len-p+1) = .ok n
  first : couvArgcheckindex 3 p 1 (cInt buf.len) = .ok ()
  last : couvArgcheckindex 4 n 0 (cInt (cInt buf.len - p + 1)) = .ok ()

/-- `Buffer.new(s):copy(target, target_first, source_first, source_last)` -/
def newCopy (env : AllocEnv) (s : LuaString)
    (target targetFirst sourceFirst sourceLast : Value) : BufM (List Value) := do
  let source ← bufferNew env (.string s)
  bufferCopy (source.headD .nil) target targetFirst sourceFirst sourceLast

/-- The same memory with one more block and one more Buffer. -/
def Mem.Extends (m m' : Mem) : Prop :=
  ∃ bl buf, m' = { m with blocks := m.blocks.alloc bl, bufs := m.bufs.alloc buf }

section
variable {m : Mem} {b t : ℕ} {buf target : CouvBuf}

theorem Mem.ShortBuf.load (hb : m.ShortBuf b buf) {f : ℤ} {k : ℕ} (h1 : 1 ≤ f) (hk : 0 < k)
    (hf : f-1+k ≤ buf.len) : memLoad (buf.at (f-1)) k m = .ok (m.shown buf f k) m ∧
      (m.shown buf f k).length = k := by
  obtain ⟨q, hq, -, hin⟩ := (hb.fits (by omega)).at_inBlock (i := f-1) (n := k) (by omega) hf
  simp only [Mem.shown, hq]
  refine ⟨if_pos ⟨Int.natCast_nonneg k, hin⟩, ?_⟩
  rw [Mem.bytes, List.length_map, List.length_range]

theorem Mem.ShortBuf.store (ht : m.ShortBuf t target) {p : ℤ} (bs : List UInt8) (h1 : 1 ≤ p)
    (hk : 0 < bs.length) (hp : p-1+bs.length ≤ target.len) :
    ∃ q, target.at (p-1) = some q ∧ memStore (target.at (p-1)) bs m = .ok () (m.store q bs) ∧
      m.Stores target p bs (m.store q bs) := by
  obtain ⟨q, hq, h0, hin⟩ :=
    (ht.fits (by omega)).at_inBlock (i := p-1) (n := bs.length) (by omega) hp
  refine ⟨q, hq, ?_, Mem.stores_store hq h0 hin⟩
  rw [hq]
  exact if_pos hin

/-- Within the checks the copied range fits both Buffers, and the arithmetic is exact. -/
theorem CopyArgs.bounds {tv fv lv : Value} {tf f l : ℤ} (h : CopyArgs buf target tv fv lv tf f l)
    (hb : buf.len < 2^31) (ht : target.len < 2^31) :
    (1 ≤ tf ∧ tf ≤ target.len) ∧ (1 ≤ f ∧ f ≤ l ∧ l ≤ buf.len) ∧
      cInt (cInt target.len - tf + 1) = target.len-tf+1 := by
  have h1 := couvArgcheckindex_ok h.target
  have h2 := couvArgcheckindex_ok h.first
  have h3 := couvArgcheckindex_ok h.last
  rw [cInt_len ht] at h1
  rw [cInt_len hb] at h2 h3
  refine ⟨h1, ⟨h2.1, h3⟩, ?_⟩
  rw [cInt_len ht, cInt_of (by omega) (by omega)]

/-- The source is read before the target is written, so overlaps do not matter. -/
theorem copy_run (hb : m.ShortBuf b buf) (ht : m.ShortBuf t target) {tv fv lv : Value}
    {tf f l : ℤ} (h : CopyArgs buf target tv fv lv tf f l) {k : ℕ}
    (hk : (k : ℤ) = min (l-f+1) (target.len-tf+1)) : ∃ q, target.at (tf-1) = some q ∧
      bufferCopy (.buffer b) (.buffer t) tv fv lv m =
        .ok [.number k] (m.store q (m.shown buf f k)) ∧
      m.Stores target tf (m.shown buf f k) (m.store q (m.shown buf f k)) ∧
      (m.shown buf f k).length = k := by
  obtain ⟨⟨ht1, ht2⟩, ⟨hf1, hf2, hl⟩, hroom⟩ := h.bounds hb.small ht.small
  obtain ⟨hload, hlen⟩ := hb.load (f := f) (k := k) hf1 (by omega) (by omega)
  obtain ⟨q, hq, hstore, hst⟩ := ht.store (p := tf) (m.shown buf f k) ht1 (by omega)
    (by omega)
  -- the clamp of the source: no more than fits behind target_first
  have hmin : (if l-f+1 > target.len-tf+1 then target.len-tf+1 else l-f+1) = (k : ℤ) := by
    split <;> omega
  have hpos : (k : ℤ) > 0 := by omega
  refine ⟨q, hq, ?_, hst, hlen⟩
  unfold bufferCopy
  rw [run_bind_ok (checkbuf_ok hb.get 1), run_bind_ok (checkbuf_ok ht.get 2),
    BufM.bind_check_ok m h.targetFirst, BufM.bind_check_ok m h.sourceFirst,
    BufM.bind_check_ok m h.sourceLast, BufM.bind_check_ok m h.target,
    BufM.bind_check_ok m h.first, BufM.bind_check_ok m h.last]
  simp only [hroom, hmin, if_pos hpos]
  exact (run_bind_ok hload).trans (run_bind_ok hstore)

/-- Within the checks the written range fits the Buffer. -/
theorem WriteArgs.bounds {pv nv : Value} {p n : ℤ} (h : WriteArgs buf pv nv p n)
    (hb : buf.len < 2^31) : 1 ≤ p ∧ p ≤ buf.len ∧ 0 ≤ n ∧ n ≤ buf.len-p+1 := by
  have h1 := couvArgcheckindex_ok h.first
  have h2 := couvArgcheckindex_ok h.last
  rw [cInt_len hb] at h1 h2
  rw [cInt_of (by omega) (by omega)] at h2
  exact ⟨h1.1, h1.2, h2⟩

theorem write_run (hb : m.ShortBuf b buf) {s : LuaString} (hs : s.length < 2^31) {pv nv : Value}
    {p n : ℤ} (h : WriteArgs buf pv nv p n) {k : ℕ} (hk : (k : ℤ) = min n s.length)
    (hpos : 0 < k) : ∃ q, buf.at (p-1) = some q ∧
      bufferWrite (.buffer b) (.ok s) pv nv m = .ok [.number k] (m.store q (s.take k)) ∧
      m.Stores buf p (s.take k) (m.store q (s.take k)) := by
  obtain ⟨hp1, hp2, hn0, hn⟩ := h.bounds hb.small
  have hlen : (s.take k).length = k := List.length_take_of_le (by omega)
  obtain ⟨q, hq, hstore, hst⟩ := hb.store (p := p) (s.take k) hp1 (by omega) (by omega)
  have hmin : (if n > s.length then (s.length : ℤ) else n) = k := by
    split <;> omega
  have hload : (UvBuf.str s).load k m = .ok (s.take k) m := by
    change (if _ then _ else _ : BufM _) m = _
    rw [if_pos (by omega), Int.toNat_natCast]
    exact BufM.pure_run _ m
  have hpos' : (k : ℤ) > 0 := by omega
  refine ⟨q, hq, ?_, hst⟩
  unfold bufferWrite
  rw [run_bind_ok (checkbuf_ok hb.get 1), BufM.bind_check_ok m rfl,
    BufM.bind_check_ok m h.position, BufM.bind_check_ok m h.length,
    BufM.bind_check_ok m h.first, BufM.bind_check_ok m h.last]
  simp only [cInt_len hs, hmin, if_pos hpos']
  exact (run_bind_ok hload).trans (run_bind_ok hstore)

end

/-! Buffers with a block of their own. -/

/-- The Buffer that Buffer.new makes for `n` bytes. -/
def Mem.newBuf (m : Mem) (n : ℕ) : CouvBuf := ⟨some m.blocks.next, some ⟨m.blocks.next, 0⟩, n⟩

/-- The memory with a new Buffer of `n` bytes, of which the first are `bs`. -/
def Mem.newBytes (m : Mem) (env : AllocEnv) (n : ℕ) (bs : List UInt8) : Mem :=
  { m with
    blocks := m.blocks.alloc ((⟨1, n, env.junk⟩ : Block).store 0 bs)
    bufs := m.bufs.alloc (m.newBuf n) }

section
variable (m : Mem) (env : AllocEnv) {n : ℕ} (bs : List UInt8)

theorem withNew_store :
    (m.withNew env n).store ⟨m.blocks.next, 0⟩ bs = m.newBytes env n bs := by
  simp only [Mem.store, Mem.withNew, Mem.newBytes, Mem.newBuf, Store.alloc_modify]
  rfl

theorem withNew_inBlock : (m.withNew env n).InBlock ⟨m.blocks.next, 0⟩ n :=
  ⟨_, m.blocks.alloc_get_self _, le_rfl, by simp⟩

theorem newString_run {s : LuaString} (henv : env.ok = true) (hs : s.length < 2^63) :
    bufferNew env (.string s) m = .ok [.buffer m.bufs.next] (m.newBytes env s.length s) := by
  rw [bufferNew_string henv hs m rfl]
  have hstore : memStore (some ⟨m.blocks.next, 0⟩) s (m.withNew env s.length) =
      .ok () (m.newBytes env s.length s) := by
    rw [← withNew_store]
    exact if_pos (withNew_inBlock m env)
  exact run_bind_ok hstore

theorem newBytes_byte {i : ℕ} (hi : i < bs.length) :
    (m.newBytes env n bs).byte m.blocks.next i = bs[i] := by
  simp only [Mem.byte, Mem.newBytes, Store.alloc_get_self]
  change (if 0 ≤ i ∧ i < 0+bs.length then bs.getD (i-0) 0 else _) = _
  rw [if_pos (by omega), Nat.sub_zero, List.getD_eq_getElem?_getD, List.getElem?_eq_getElem hi]
  rfl

/-- A prefix of the new Buffer shows a prefix of its bytes. -/
theorem newBytes_shown {k : ℕ} (hk : k ≤ bs.length) :
    (m.newBytes env n bs).shown (m.newBuf n) 1 k = bs.take k := by
  apply List.ext_getElem?
  intro j
  change ((List.range k).map (fun i => (m.newBytes env n bs).byte m.blocks.next (0+i)))[j]? = _
  rw [List.getElem?_map, List.getElem?_take]
  by_cases hj : j < k
  · rw [List.getElem?_range hj, if_pos hj, List.getElem?_eq_getElem (by omega), Option.map_some,
      Nat.zero_add, newBytes_byte m env bs (by omega)]
  · rw [List.getElem?_eq_none (by simpa using hj), if_neg hj]
    rfl

theorem newBytes_shortBuf (hn : n < 2^31) :
    (m.newBytes env n bs).ShortBuf m.bufs.next (m.newBuf n) where
  get := m.bufs.alloc_get_self _
  fits _ := ⟨m.blocks.next, _, 0, m.blocks.alloc_get_self _, by simp [Mem.newBuf, Block.store],
    rfl, rfl⟩
  small := hn

variable {m} {b : ℕ} {buf : CouvBuf}

/-- The Buffers that were there are not affected. -/
theorem Mem.ShortBuf.newBytes (hb : m.ShortBuf b buf) :
    (m.newBytes env n bs).ShortBuf b buf where
  get := m.bufs.alloc_get_of_some hb.get
  fits hpos := by
    obtain ⟨blk, bl, off, hbl, h⟩ := hb.fits hpos
    exact ⟨blk, bl, off, m.blocks.alloc_get_of_some hbl, h⟩
  small := hb.small

/-- A store into an old block and the new block do not meet. -/
theorem store_newBytes {q : Ptr} {ys : List UInt8} (hq : (m.blocks.get q.block).isSome) :
    (m.store q ys).Extends ((m.newBytes env n bs).store q ys) := by
  refine ⟨(⟨1, n, env.junk⟩ : Block).store 0 bs, m.newBuf n, ?_⟩
  have hne : q.block ≠ m.blocks.next := by
    obtain ⟨bl, hbl⟩ := Option.isSome_iff_exists.mp hq
    exact (m.blocks.lt_next hbl).ne
  have hblocks : (m.newBytes env n bs).blocks.modify q.block (·.store q.off.toNat ys) =
      (m.blocks.modify q.block (·.store q.off.toNat ys)).alloc
        ((⟨1, n, env.junk⟩ : Block).store 0 bs) := by
    refine Store.ext rfl ?_
    intro a
    simp only [Mem.newBytes, Store.modify_get, Store.alloc_get, Store.modify_next]
    split
    · next ha => rw [ha, if_neg hne]
    · rfl
  simp only [Mem.store, hblocks]
  rfl

/-- The arguments of copy for all of the string that is written, from its first byte on. -/
theorem WriteArgs.copyArgs (m : Mem) {s : LuaString} (hpos : 0 < s.length) (hs : s.length < 2^31)
    {pv nv : Value} {p n : ℤ} (hn : 1 ≤ n) (h : WriteArgs buf pv nv p n) :
    CopyArgs (m.newBuf s.length) buf pv (.number 1) (.number (min n s.length)) p 1
      (min n s.length) where
  targetFirst := h.position
  sourceFirst := luaLCheckint_number 4 (inCInt_of (by omega) (by omega))
  sourceLast := luaLCheckint_number 5 (inCInt_of (by omega) (by omega))
  target := h.first
  first := by rw [Mem.newBuf, cInt_len hs, couvArgcheckindex, if_pos (by omega)]
  last := by rw [Mem.newBuf, cInt_len hs, couvArgcheckindex, if_pos (by omega)]

/-- write does what copy does from a Buffer that is made of the string. -/
theorem write_newCopy (hb : m.ShortBuf b buf) {env : AllocEnv} (henv : env.ok = true)
    {s : LuaString} (hne : s ≠ []) (hs : s.length < 2^31) {pv nv : Value} {p n : ℤ} (hn : 1 ≤ n)
    (h : WriteArgs buf pv nv p n) : ∃ (k : ℕ) (m₁ m₂ : Mem), (k : ℤ) = min n s.length ∧
      bufferWrite (.buffer b) (.ok s) pv nv m = .ok [.number k] m₁ ∧
      newCopy env s (.buffer b) pv (.number 1) (.number (min n s.length)) m =
        .ok [.number k] m₂ ∧
      m.Stores buf p (s.take k) m₁ ∧ m₁.Extends m₂ := by
  obtain ⟨hp1, hp2, hn0, hn'⟩ := h.bounds hb.small
  have hpos := List.length_pos_of_ne_nil hne
  have hk : ((min n s.length).toNat : ℤ) = min n s.length := by omega
  obtain ⟨q, hq, hwrite, hst⟩ := write_run hb hs h hk (by omega)
  have hsrc := newBytes_shortBuf m env s hs
  obtain ⟨q', hq', hcopy, -, -⟩ := copy_run hsrc (hb.newBytes env s) (h.copyArgs m hpos hs hn)
    (k := (min n s.length).toNat) (by omega)
  -- copy from the temporary Buffer stores at the address that write stores at
  obtain rfl := Option.some.inj (hq'.symm.trans hq)
  rw [newBytes_shown m env s (by omega)] at hcopy
  obtain ⟨q₀, hq₀, -, hin⟩ := (hb.fits (by omega)).at_inBlock (i := p-1) (n := 0) (by omega)
    (by omega)
  obtain rfl := Option.some.inj (hq₀.symm.trans hq)
  exact ⟨_, _, _, hk, hwrite, (run_bind_ok (newString_run m env henv (by omega))).trans hcopy,
    hst, store_newBytes env s hin.isSome⟩

end

/-- copy moves the bytes that the source showed before the call and changes nothing else, also
when the two ranges overlap; write does the same with the bytes of a string. -/
theorem copy_and_write {m : Mem} {b t : ℕ} {buf target : CouvBuf} (hb : m.ShortBuf b buf)
    (ht : m.ShortBuf t target) :
    (∀ tv fv lv tf f l, CopyArgs buf target tv fv lv tf f l → ∃ (k : ℕ) (m' : Mem),
      (k : ℤ) = min (l-f+1) (target.len-tf+1) ∧
        bufferCopy (.buffer b) (.buffer t) tv fv lv m = .ok [.number k] m' ∧
        (m.shown buf f k).length = k ∧ m.Stores target tf (m.shown buf f k) m') ∧
    ∀ (env : AllocEnv) s pv nv p n, env.ok = true → s ≠ [] → s.length < 2^31 → 1 ≤ n →
      WriteArgs target pv nv p n → ∃ (k : ℕ) (m₁ m₂ : Mem), (k : ℤ) = min n s.length ∧
        bufferWrite (.buffer t) (.ok s) pv nv m = .ok [.number k] m₁ ∧
        newCopy env s (.buffer t) pv (.number 1) (.number (min n s.length)) m =
          .ok [.number k] m₂ ∧
        m.Stores target p (s.take k) m₁ ∧ m₁.Extends m₂ := by
  refine ⟨?_, fun env s pv nv p n henv hne hs hn h => write_newCopy ht henv hne hs hn h⟩
  intro tv fv lv tf f l h
  obtain ⟨⟨-, ht2⟩, ⟨-, hf2, -⟩, -⟩ := h.bounds hb.small ht.small
  have hk : ((min (l-f+1) (target.len-tf+1)).toNat : ℤ) = min (l-f+1) (target.len-tf+1) := by
    omega
  obtain ⟨q, -, hrun, hst, hlen⟩ := copy_run hb ht h hk
  exact ⟨_, _, hk, hrun, hlen, hst⟩

/-- Three bytes of a Buffer moved up by one position. -/
theorem copy_and_write_overlap : ∃ m',
    bufferCopy (.buffer 0) (.buffer 0) (.number 2) .nil (.number 3)
        (Mem.empty.newBytes ⟨true, fun _ => 0, ⟨none, none, 0⟩⟩ 4 [97, 98, 99, 100]) =
      .ok [.number 3] m' ∧ m'.shown (Mem.empty.newBuf 4) 2 3 = [97, 98, 99] := by
  have hb := newBytes_shortBuf Mem.empty ⟨true, fun _ => 0, ⟨none, none, 0⟩⟩ (n := 4)
    [97, 98, 99, 100] (by decide)
  obtain ⟨k, m', hk, hrun, -, hst⟩ := (copy_and_write hb hb).1 (.number 2) .nil (.number 3) 2 1 3
    ⟨rfl, rfl, rfl, if_pos (by decide), if_pos (by decide), if_pos (by decide)⟩
  have hmin : min (3-1+1) ((Mem.empty.newBuf 4).len-2+1 : ℤ) = 3 := by decide
  obtain rfl : k = 3 := by exact_mod_cast hk.trans hmin
  have hshown := hst.shown
  rw [newBytes_shown Mem.empty _ _ (by decide)] at hshown
  exact ⟨m', hrun, hshown⟩

end Couv
