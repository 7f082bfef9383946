import Couv.IntCodec

/-! The integer methods of a Buffer: what they store, what they read, and how the two undo each
other. -/
namespace Couv

/-- A Buffer lies inside a live block; its length is any size_t. -/
def Mem.Fits (m : Mem) (buf : CouvBuf) : Prop :=
  ∃ blk bl, ∃ off : ℕ, m.blocks.get blk = some bl ∧ off+buf.len ≤ bl.size ∧
    buf.orig = some blk ∧ buf.base = some ⟨blk, off⟩

theorem Mem.Fits.at_inBlock {m : Mem} {buf : CouvBuf} (h : m.Fits buf) {i : ℤ} {n : ℕ}
    (h0 : 0 ≤ i) (hn : i+n ≤ buf.len) :
    ∃ q, buf.at i = some q ∧ 0 ≤ q.off ∧ m.InBlock q n := by
  obtain ⟨blk, bl, off, hbl, hin, -, hbase⟩ := h
  refine ⟨⟨blk, off+i⟩, ?_, ?_, bl, hbl, ?_, ?_⟩
  · rw [CouvBuf.at, hbase]
    rfl
  · change 0 ≤ (off : ℤ)+i
    omega
  · change 0 ≤ (off : ℤ)+i
    omega
  · change (off : ℤ)+i+n ≤ bl.size
    omega

theorem Mem.Triple.fits {m : Mem} {buf : CouvBuf} (h : m.Triple buf) : m.Fits buf := by
  obtain ⟨blk, bl, off, hbl, hin, -, ho, hbase⟩ := h
  exact ⟨blk, bl, off, hbl, hin, ho, hbase⟩

/-- The bytes at the positions from `p` on. -/
def Mem.shown (m : Mem) (buf : CouvBuf) (p : ℤ) (n : ℕ) : List UInt8 :=
  match buf.at (p-1) with
  | some q => m.bytes q n
  | none => []

/-- The `n` positions from `p` on are at index `i` of the block. -/
def CouvBuf.Covers (buf : CouvBuf) (p : ℤ) (n : ℕ) (blk i : ℕ) : Prop :=
  ∃ q, buf.at (p-1) = some q ∧ q.block = blk ∧ q.off ≤ i ∧ i < q.off+n

/-- A call that stores `bs` at the positions from `p` on, and changes nothing else. -/
structure Mem.Stores (m : Mem) (buf : CouvBuf) (p : ℤ) (bs : List UInt8) (m' : Mem) : Prop where
  shown : m'.shown buf p bs.length = bs
  others : ∀ blk i, ¬buf.Covers p bs.length blk i → m'.byte blk i = m.byte blk i
  same : m.Same m'

section
variable {m : Mem}

theorem Mem.byte_store (q : Ptr) (bs : List UInt8) (hq : (m.blocks.get q.block).isSome)
    (blk i : ℕ) : (m.store q bs).byte blk i =
      if blk = q.block ∧ q.off.toNat ≤ i ∧ i < q.off.toNat+bs.length then
        bs.getD (i-q.off.toNat) 0
      else m.byte blk i := by
  obtain ⟨bl, hbl⟩ := Option.isSome_iff_exists.mp hq
  simp only [byte, store, Store.modify_get]
  by_cases hb : blk = q.block
  · subst hb
    rw [if_pos rfl, hbl, Option.map_some]
    simp only [Block.store, true_and]
  · rw [if_neg hb, if_neg (fun h => hb h.1)]

theorem Mem.bytes_store (q : Ptr) (bs : List UInt8) (hq : (m.blocks.get q.block).isSome) :
    (m.store q bs).bytes q bs.length = bs := by
  apply List.ext_getElem?
  intro k
  rw [bytes, List.getElem?_map]
  by_cases hk : k < bs.length
  · rw [List.getElem?_range hk, Option.map_some, byte_store q bs hq, if_pos (by omega),
      Nat.add_sub_cancel_left, List.getD_eq_getElem?_getD, List.getElem?_eq_getElem hk]
    rfl
  · rw [List.getElem?_eq_none (by simpa using hk), List.getElem?_eq_none (by simpa using hk)]
    rfl

/-- Storing what is there changes nothing. -/
theorem Mem.store_bytes (q : Ptr) (n : ℕ) : m.store q (m.bytes q n) = m := by
  have hblk : m.blocks.modify q.block (·.store q.off.toNat (m.bytes q n)) = m.blocks := by
    refine Store.ext rfl ?_
    intro a
    rw [Store.modify_get]
    split
    swap
    · rfl
    next ha =>
    subst ha
    cases hbl : m.blocks.get q.block with
    | none => rfl
    | some bl =>
      rw [Option.map_some]
      congr 1
      have hlen : (m.bytes q n).length = n := by rw [bytes, List.length_map, List.length_range]
      have hmem : (bl.store q.off.toNat (m.bytes q n)).mem = bl.mem := by
        -- within the range the store puts back the byte that was there
        funext j
        simp only [Block.store, hlen]
        split
        · next hj =>
          rw [bytes, List.getD_eq_getElem?_getD, List.getElem?_map,
            List.getElem?_range (by omega)]
          simp only [Option.map_some, Option.getD_some, byte, hbl]
          congr 1
          omega
        · rfl
      cases bl
      simp only [Block.store] at hmem ⊢
      rw [hmem]
  unfold store
  rw [hblk]

variable {b : ℕ} {buf : CouvBuf} (hb : m.bufs.get b = some buf) (ht : m.Triple buf) {p : ℤ} {n : ℕ}
  (h1 : 1 ≤ p) (hn : p ≤ buf.len-n+1)

include ht h1 hn in
/-- Positions of a Buffer lie in its block. -/
theorem Mem.Triple.at_inBlock : ∃ q, buf.at (p-1) = some q ∧ 0 ≤ q.off ∧ m.InBlock q n :=
  ht.fits.at_inBlock (by omega) (by omega)

theorem Mem.Triple.same {m' : Mem} (ht : m.Triple buf) (h : m.Same m') : m'.Triple buf := by
  obtain ⟨blk, bl, off, hbl, hin, hlen, ho, hbase⟩ := ht
  have hsize : m'.sizes.get blk = some bl.size := by
    rw [h.sizes, Mem.sizes, Store.map_get, hbl]
    rfl
  rw [Mem.sizes, Store.map_get] at hsize
  obtain ⟨bl', hbl', hs⟩ := Option.map_eq_some_iff.mp hsize
  exact ⟨blk, bl', off, hbl', by omega, hlen, ho, hbase⟩

theorem Mem.InBlock.isSome {q : Ptr} (h : m.InBlock q n) : (m.blocks.get q.block).isSome := by
  obtain ⟨bl, hbl, -⟩ := h
  rw [hbl]
  rfl

theorem Mem.stores_store {q : Ptr} {bs : List UInt8} (hq : buf.at (p-1) = some q)
    (h0 : 0 ≤ q.off) (hin : m.InBlock q bs.length) : m.Stores buf p bs (m.store q bs) where
  shown := by
    simp only [shown, hq]
    exact bytes_store q bs hin.isSome
  others blk i hout := by
    rw [byte_store q bs hin.isSome, if_neg]
    rintro ⟨rfl, h1, h2⟩
    exact hout ⟨q, hq, rfl, by omega, by omega⟩
  same := by
    have h := keeps_store (some q) bs m
    simp only [BufM.after, memStore, if_pos hin] at h
    exact h

theorem checkbuf_ok (hb : m.bufs.get b = some buf) (arg : ℕ) :
    couvCheckbuf arg (.buffer b) m = .ok buf m := by
  simp only [couvCheckbuf, hb]

include ht h1 hn in
theorem position_ok (hpos : 0 < n) :
    luaLCheckint 2 (.number p) = .ok p ∧
      couvArgcheckindex 2 p 1 (cInt (cInt buf.len-(n-1 : ℕ))) = .ok () := by
  obtain ⟨-, -, -, -, -, hlen, -, -⟩ := ht
  refine ⟨luaLCheckint_number 2 (inCInt_of (by omega) (by omega)), ?_⟩
  rw [cInt_len, cInt_of, couvArgcheckindex, if_pos] <;> omega

end

section
variable {m : Mem} {b : ℕ} {buf : CouvBuf} (hb : m.bufs.get b = some buf) (ht : m.Triple buf)
  {p : ℤ} (h1 : 1 ≤ p)
include hb ht h1

theorem reader_run (r : Reader) (hn : p ≤ buf.len-r.width+1) :
    r.method (.buffer b) (.number p) m = .ok [r.decode (m.shown buf p r.width)] m := by
  obtain ⟨hpos, hcheck⟩ := position_ok ht h1 hn r.width_pos.1
  obtain ⟨q, hq, -, hin⟩ := ht.at_inBlock h1 hn
  have hload : memLoad (buf.at (p-1)) r.width m = .ok (m.bytes q r.width) m := by
    rw [hq]
    exact if_pos ⟨Int.natCast_nonneg _, hin⟩
  have hshown : m.shown buf p r.width = m.bytes q r.width := by
    simp only [Mem.shown, hq]
  rw [r.method_eq, hshown]
  exact (run_bind_ok (checkbuf_ok hb 1)).trans ((BufM.bind_check_ok m hpos).trans
    ((BufM.bind_check_ok m hcheck).trans (run_bind_ok hload)))

theorem writer_run (w : Writer) (hn : p ≤ buf.len-w.width+1) {bs : List UInt8}
    (hw : w.bytes = .ok bs) : ∃ q, buf.at (p-1) = some q ∧
      w.method (.buffer b) (.number p) m = .ok [] (m.store q bs) ∧
        m.Stores buf p bs (m.store q bs) := by
  obtain ⟨hpos, hcheck⟩ := position_ok ht h1 hn w.width_pos.1
  obtain ⟨q, hq, h0, hin⟩ := ht.at_inBlock h1 hn
  rw [← w.bytes_length hw] at hin
  have hstore : memStore (buf.at (p-1)) bs m = .ok () (m.store q bs) := by
    rw [hq]
    exact if_pos hin
  refine ⟨q, hq, ?_, Mem.stores_store hq h0 hin⟩
  rw [w.method_eq]
  exact (run_bind_ok (checkbuf_ok hb 1)).trans ((BufM.bind_check_ok m hpos).trans
    ((BufM.bind_check_ok m hw).trans ((BufM.bind_check_ok m hcheck).trans
      (run_bind_ok hstore))))

end

/-- The integer methods of the type `x` at the position `p` of the Buffer `b`. -/
structure IntCodec (m : Mem) (b : ℕ) (buf : CouvBuf) (x : IntType) (p : ℤ) : Prop where
  /-- exactly the digits are stored, in the order of the type -/
  write : ∀ v, ∃ m', (x.writer (.number v)).method (.buffer b) (.number p) m = .ok [] m' ∧
    m.Stores buf p (x.bytes v) m'
  read : x.reader.method (.buffer b) (.number p) m =
    .ok [.number (x.number (m.shown buf p x.width))] m
  /-- the number read back is the only one of the type that is congruent -/
  readBack : ∀ v m', (x.writer (.number v)).method (.buffer b) (.number p) m = .ok [] m' →
    ∃ n, x.reader.method (.buffer b) (.number p) m' = .ok [.number n] m' ∧ x.InRange n ∧
      n ≡ v [ZMOD 2^(8*x.width)] ∧ ∀ k, x.InRange k → k ≡ v [ZMOD 2^(8*x.width)] → k = n
  writeBack : ∀ n, x.reader.method (.buffer b) (.number p) m = .ok [.number n] m →
    (x.writer (.number n)).method (.buffer b) (.number p) m = .ok [] m
  congruent : ∀ n k, x.reader.method (.buffer b) (.number p) m = .ok [.number n] m →
    x.unsigned.reader.method (.buffer b) (.number p) m = .ok [.number k] m →
      n ≡ k [ZMOD 2^(8*x.width)]

/-- Reading in one byte order is reading in the other after the bytes have been reversed. -/
def ReadsReversed (m : Mem) (b : ℕ) (buf : CouvBuf) (r : Reader) (p : ℤ) : Prop :=
  (∃ m', m.Stores buf p (m.shown buf p r.width).reverse m') ∧
    ∀ m', m.Stores buf p (m.shown buf p r.width).reverse m' →
      ∃ vs, r.method (.buffer b) (.number p) m = .ok vs m ∧
        r.swap.method (.buffer b) (.number p) m' = .ok vs m'

/-- Writing in one byte order stores the reverse of what the other stores. -/
def WritesReversed (m : Mem) (b : ℕ) (buf : CouvBuf) (w : Writer) (p : ℤ) : Prop :=
  ∀ bs, w.bytes = .ok bs → ∃ m₁ m₂, w.method (.buffer b) (.number p) m = .ok [] m₁ ∧
    w.swap.method (.buffer b) (.number p) m = .ok [] m₂ ∧
      m.Stores buf p bs m₁ ∧ m.Stores buf p bs.reverse m₂

section
variable {m : Mem} {b : ℕ} {buf : CouvBuf} {p : ℤ}

theorem Mem.shown_length (ht : m.Triple buf) {n : ℕ} (h1 : 1 ≤ p) (hn : p ≤ buf.len-n+1) :
    (m.shown buf p n).length = n := by
  obtain ⟨q, hq, -, -⟩ := ht.at_inBlock h1 hn
  simp only [shown, hq, bytes, List.length_map, List.length_range]

variable (hb : m.bufs.get b = some buf) (ht : m.Triple buf) (h1 : 1 ≤ p)
include hb ht h1

theorem intCodec (x : IntType) (hn : p ≤ buf.len-x.width+1) : IntCodec m b buf x p := by
  have hwrite (v : ℤ) := writer_run hb ht h1 (x.writer (.number v))
    (by rw [x.writer_width]; exact hn) (x.writer_bytes v)
  have hread {m' : Mem} (hb' : m'.bufs.get b = some buf) (ht' : m'.Triple buf) :
      x.reader.method (.buffer b) (.number p) m' =
        .ok [.number (x.number (m'.shown buf p x.width))] m' := by
    have hr := reader_run hb' ht' h1 x.reader (by rw [x.reader_width]; exact hn)
    rwa [x.reader_width, x.reader_decode (Mem.shown_length ht' h1 hn)] at hr
  -- a write, a read, reading what was written, writing what was read, the unsigned reader
  refine ⟨?_, hread hb ht, ?_, ?_, ?_⟩
  · intro v
    obtain ⟨q, -, hrun, hst⟩ := hwrite v
    exact ⟨_, hrun, hst⟩
  · intro v m' hrun'
    obtain ⟨q, -, hrun, hst⟩ := hwrite v
    obtain rfl := (EStateM.Result.ok.inj (hrun.symm.trans hrun')).2
    have hshown := hst.shown
    rw [x.bytes_length] at hshown
    have hr := hread (by rw [hst.same.bufs]; exact hb) (ht.same hst.same)
    rw [hshown] at hr
    obtain ⟨hrange, hmod⟩ := x.number_bytes v
    refine ⟨_, hr, hrange, hmod, ?_⟩
    intro k hk hkv
    exact x.inRange_unique hrange hk (hkv.trans hmod.symm)
  · intro n hn'
    have hlen := Mem.shown_length ht h1 hn
    obtain rfl : x.number (m.shown buf p x.width) = n :=
      Value.number.inj (List.cons.inj (EStateM.Result.ok.inj ((hread hb ht).symm.trans hn')).1).1
    obtain ⟨q, hq, hrun, -⟩ := hwrite (x.number (m.shown buf p x.width))
    have hsame : m.store q (m.shown buf p x.width) = m := by
      simp only [Mem.shown, hq, Mem.store_bytes]
    rw [hrun, x.bytes_number hlen, hsame]
  · intro n k hn' hk'
    have hk := reader_run hb ht h1 x.unsigned.reader
      (by rw [x.unsigned.reader_width, x.unsigned_width]; exact hn)
    rw [x.unsigned.reader_width, x.unsigned.reader_decode
      (Mem.shown_length ht h1 (by rw [x.unsigned_width]; exact hn)), x.unsigned_width] at hk
    obtain rfl := Value.number.inj
      (List.cons.inj (EStateM.Result.ok.inj ((hread hb ht).symm.trans hn')).1).1
    obtain rfl := Value.number.inj (List.cons.inj (EStateM.Result.ok.inj (hk.symm.trans hk')).1).1
    exact x.number_unsigned _

theorem readsReversed (r : Reader) (hn : p ≤ buf.len-r.width+1) :
    ReadsReversed m b buf r p := by
  have hlen := Mem.shown_length ht h1 hn
  refine ⟨?_, ?_⟩
  · obtain ⟨q, hq, h0, hin⟩ := ht.at_inBlock h1 hn
    exact ⟨_, Mem.stores_store hq h0 (by rw [List.length_reverse, hlen]; exact hin)⟩
  · intro m' hst
    have hshown := hst.shown
    rw [List.length_reverse, hlen] at hshown
    have hr := reader_run (hst.same.bufs ▸ hb : m'.bufs.get b = some buf) (ht.same hst.same) h1
      r.swap (by rw [r.swap_width]; exact hn)
    rw [r.swap_width, hshown, r.swap_decode (by rw [List.length_reverse, hlen]),
      List.reverse_reverse] at hr
    exact ⟨_, reader_run hb ht h1 r hn, hr⟩

theorem writesReversed (w : Writer) (hn : p ≤ buf.len-w.width+1) :
    WritesReversed m b buf w p := by
  intro bs hw
  have hswap : w.swap.bytes = .ok bs.reverse := by rw [w.swap_bytes, hw]; rfl
  obtain ⟨q, -, hrun, hst⟩ := writer_run hb ht h1 w hn hw
  obtain ⟨q', -, hrun', hst'⟩ := writer_run hb ht h1 w.swap (by rw [w.swap_width]; exact hn) hswap
  exact ⟨_, _, hrun, hrun', hst, hst'⟩

end

/-- Every position of a Buffer that has room for the number holds it in every integer type, and
the two byte orders of a width, the floating ones included, are each other's reverse. -/
theorem int_codecs {m : Mem} {b : ℕ} {buf : CouvBuf} (hb : m.bufs.get b = some buf)
    (ht : m.Triple buf) :
    (∀ (x : IntType) (p : ℤ), 1 ≤ p → p ≤ buf.len-x.width+1 → IntCodec m b buf x p) ∧
      (∀ (r : Reader) (p : ℤ), 1 ≤ p → p ≤ buf.len-r.width+1 → ReadsReversed m b buf r p) ∧
        ∀ (w : Writer) (p : ℤ), 1 ≤ p → p ≤ buf.len-w.width+1 → WritesReversed m b buf w p :=
  ⟨fun x _ h1 hn => intCodec hb ht h1 x hn, fun r _ h1 hn => readsReversed hb ht h1 r hn,
    fun w _ h1 hn => writesReversed hb ht h1 w hn⟩

/-- A new Buffer of four bytes. -/
def fourBytes : Mem := Mem.empty.withNew ⟨true, fun _ => 0, ⟨none, none, 0⟩⟩ 4

theorem int_codecs_fourBytes :
    IntCodec fourBytes 0 ⟨some 0, some ⟨0, 0⟩, 4⟩ .int16be 3 ∧
      IntType.int16be.bytes (-2) = [0xFF, 0xFE] := by
  have hcodecs := @int_codecs fourBytes 0 ⟨some 0, some ⟨0, 0⟩, 4⟩ rfl
    ⟨0, ⟨1, 4, fun _ => 0⟩, 0, rfl, by decide, by decide, rfl, rfl⟩
  exact ⟨hcodecs.1 .int16be 3 (by decide) (by decide), by decide⟩

end Couv
