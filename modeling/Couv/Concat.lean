import Couv.BufferCalls
import Couv.BufferCopy
import Couv.IndexCheck

/-! Buffer.concat: the total length, the copy loop and its memmoves. -/
namespace Couv

/-! Elements. -/

/-- A Lua string or a Buffer userdata; a Buffer with a base lies in a live block. -/
def Mem.IsData (m : Mem) (v : Value) : Prop :=
  (∃ s, v = .string s) ∨
    ∃ b buf, v = .buffer b ∧ m.bufs.get b = some buf ∧ (buf.base = none ∨ m.Fits buf)

/-- The bytes of a string or a Buffer. -/
def Mem.contents (m : Mem) : Value → List UInt8
  | .string s => s
  | .buffer b => ((m.bufs.get b).map (fun buf => m.shown buf 1 buf.len)).getD []
  | _ => []

def UvBuf.bytes (m : Mem) : UvBuf → List UInt8
  | .str s => s
  | .mem (some p) n => m.bytes p n
  | .mem none _ => []

/-- The range is a string, or lies in a live block. -/
inductive UvBuf.Readable (m : Mem) : UvBuf → Prop
  | str (s : LuaString) : Readable m (.str s)
  | mem {p : Ptr} {n : ℕ} (h : m.InBlock p n) : Readable m (.mem (some p) n)

section
variable {m : Mem}

theorem Mem.bytes_length (p : Ptr) (n : ℕ) : (m.bytes p n).length = n := by
  rw [bytes, List.length_map, List.length_range]

theorem UvBuf.Readable.bytes_length {buf : UvBuf} (h : buf.Readable m) :
    (buf.bytes m).length = buf.len := by
  cases h with
  | str s => rfl
  | mem _ => exact Mem.bytes_length _ _

/-- An accepted element gives the range of its bytes. -/
theorem Mem.IsData.range {v : Value} (hv : m.IsData v) {buf : UvBuf}
    (h : couvTobuforstr m v = some buf) :
    buf.Readable m ∧ buf.bytes m = m.contents v ∧ (buf.len : ℤ) = m.lenOf v := by
  rcases hv with ⟨s, rfl⟩ | ⟨b, w, rfl, hb, hw⟩
  · obtain rfl := Option.some.inj h
    exact ⟨.str s, rfl, rfl⟩
  · simp only [couvTobuforstr, hb] at h
    rcases hw with hnone | ⟨blk, bl, off, hbl, hin, -, hbase⟩
    · rw [hnone] at h
      cases h
    · rw [hbase] at h
      obtain rfl := Option.some.inj h
      refine ⟨.mem ⟨bl, hbl, ?_, ?_⟩, ?_, ?_⟩
      · exact Int.natCast_nonneg off
      · change (off : ℤ)+w.len ≤ bl.size
        omega
      · simp only [contents, hb, Option.map_some, Option.getD_some, shown, CouvBuf.at, hbase,
          Ptr.add, UvBuf.bytes, sub_self, add_zero]
      · simp only [lenOf, hb, Option.map_some, Option.getD_some, UvBuf.len]

/-- The accepted list gives the ranges of the bytes of its elements. -/
theorem ranges_of_table {items : List Value} (hd : ∀ v ∈ items, m.IsData v)
    {buffers : List UvBuf} (h : items.mapM (couvTobuforstr m) = some buffers) :
    (∀ buf ∈ buffers, buf.Readable m) ∧
      (buffers.map (UvBuf.bytes m)).flatten = (items.map m.contents).flatten ∧
      buffers.map (fun buf => (buf.len : ℤ)) = items.map m.lenOf := by
  induction items generalizing buffers with
  | nil =>
    obtain rfl := Option.some.inj h
    exact ⟨fun _ h => (List.not_mem_nil h).elim, rfl, rfl⟩
  | cons v items ih =>
    rw [List.mapM_cons] at h
    obtain ⟨buf, hbuf, h⟩ := Option.bind_eq_some_iff.mp h
    obtain ⟨rest, hrest, h⟩ := Option.bind_eq_some_iff.mp h
    obtain rfl := Option.some.inj h
    obtain ⟨hr, hbytes, hlen⟩ := (hd v List.mem_cons_self).range hbuf
    obtain ⟨hrs, hbs, hls⟩ := ih (fun w hw => hd w (List.mem_cons_of_mem _ hw)) hrest
    refine ⟨List.forall_mem_cons.mpr ⟨hr, hrs⟩, ?_, ?_⟩
    · rw [List.map_cons, List.map_cons, List.flatten_cons, List.flatten_cons, hbytes, hbs]
    · rw [List.map_cons, List.map_cons, hlen, hls]

theorem checkbuforstrtable_ok {items : List Value} {buffers : List UvBuf} {m' : Mem} :
    couvCheckbuforstrtable items m = .ok buffers m' ↔
      m' = m ∧ items.mapM (couvTobuforstr m) = some buffers := by
  unfold couvCheckbuforstrtable
  cases items.mapM (couvTobuforstr m) with
  | none => exact iff_of_false (fun h => by cases h) (fun h => by cases h.2)
  | some buffers' =>
    constructor
    · intro h
      cases h
      exact ⟨rfl, rfl⟩
    · rintro ⟨rfl, h⟩
      obtain rfl := Option.some.inj h
      rfl

/-! Memory in parts. -/

theorem Mem.store_nil (p : Ptr) : m.store p [] = m := m.store_bytes p 0

/-- Two stores one behind the other. -/
theorem Mem.store_append {p : Ptr} (h0 : 0 ≤ p.off) (xs ys : List UInt8) :
    (m.store p xs).store (p.add xs.length) ys = m.store p (xs ++ ys) := by
  have hblk (bl : Block) : (bl.store p.off.toNat xs).store (p.off+xs.length).toNat ys =
      bl.store p.off.toNat (xs ++ ys) := by
    have hoff : (p.off+xs.length).toNat = p.off.toNat+xs.length := by omega
    have hmem : ((bl.store p.off.toNat xs).store (p.off+xs.length).toNat ys).mem =
        (bl.store p.off.toNat (xs ++ ys)).mem := by
      funext j
      simp only [Block.store, hoff, List.length_append, List.getD_eq_getElem?_getD]
      rcases Nat.lt_or_ge j (p.off.toNat+xs.length) with hj | hj
      · -- before the second store
        rw [if_neg (by omega), List.getElem?_append]
        by_cases hp : p.off.toNat ≤ j
        · rw [if_pos ⟨hp, hj⟩, if_pos (by omega), if_pos (by omega)]
        · rw [if_neg (by omega), if_neg (by omega)]
      · rw [List.getElem?_append_right (by omega), Nat.sub_sub]
        by_cases hy : j < p.off.toNat+xs.length+ys.length
        · rw [if_pos ⟨hj, hy⟩, if_pos (by omega)]
        · rw [if_neg (by omega), if_neg (by omega), if_neg (by omega)]
    cases bl
    simp only [Block.store] at hmem ⊢
    rw [hmem]
  have hmod : (m.blocks.modify p.block (·.store p.off.toNat xs)).modify (p.add xs.length).block
      (·.store (p.add xs.length).off.toNat ys) =
        m.blocks.modify p.block (·.store p.off.toNat (xs ++ ys)) := by
    refine Store.ext rfl ?_
    intro a
    simp only [Store.modify_get, Ptr.add]
    split
    · rw [if_pos trivial, Option.map_map]
      congr 1
      funext bl
      exact hblk bl
    · rfl
  simp only [store, hmod]

theorem UvBuf.Readable.load {buf : UvBuf} (h : buf.Readable m) {k : ℕ} (hk : k ≤ buf.len) :
    buf.load k m = .ok ((buf.bytes m).take k) m := by
  cases h with
  | str s =>
    change (if _ then _ else _ : BufM _) m = _
    rw [if_pos ⟨Int.natCast_nonneg k, by exact_mod_cast hk⟩]
    rfl
  | @mem p n hin =>
    obtain ⟨bl, hbl, h0, hn⟩ := hin
    have hk' : k ≤ n := hk
    have hload : (UvBuf.mem (some p) n).load k m = .ok (m.bytes p k) m :=
      if_pos ⟨Int.natCast_nonneg k, bl, hbl, h0, by rw [Int.toNat_natCast]; omega⟩
    rw [hload, bytes, Mem.bytes, Mem.bytes, ← List.map_take, List.take_range, min_eq_left hk']

/-- A store into another block does not change the bytes of a range. -/
theorem UvBuf.bytes_store {buf : UvBuf} (h : buf.Readable m) {q : Ptr} (bs : List UInt8)
    (hq : ∀ p n, buf = .mem (some p) n → p.block ≠ q.block) :
    buf.bytes (m.store q bs) = buf.bytes m ∧ buf.Readable (m.store q bs) := by
  cases h with
  | str s => exact ⟨rfl, .str s⟩
  | @mem p n hin =>
    have hget : (m.store q bs).blocks.get p.block = m.blocks.get p.block :=
      Store.modify_get_ne _ _ (hq p n rfl)
    obtain ⟨bl, hbl, h⟩ := hin
    refine ⟨?_, .mem ⟨bl, hget.trans hbl, h⟩⟩
    simp only [bytes, Mem.bytes, Mem.byte, hget]

end

/-! The copy loop. -/

/-- One memmove of the loop: `len` bytes of `src` to the offset `off` of the result. -/
structure Move where
  off : ℤ
  src : UvBuf
  len : ℤ

/-- The memmoves that the loop performs from the offset `off` on. -/
def concatMoves (off total : ℤ) : List UvBuf → List Move
  | [] => []
  | buf :: buffers =>
    if total > 0 then
      let len := cInt buf.len
      let len := if len > total then total else len
      ⟨off, buf, len⟩ :: concatMoves (off+len) (total-len) buffers
    else []

def Move.run (base : Ptr) (mv : Move) : BufM Unit := do
  let bytes ← mv.src.load mv.len
  memStore (some (base.add mv.off)) bytes

/-- The length is not negative and fits the source and the `n` bytes of the target. -/
structure Move.Within (mv : Move) (n : ℤ) : Prop where
  off : 0 ≤ mv.off
  len : 0 ≤ mv.len
  target : mv.off+mv.len ≤ n
  source : mv.len ≤ mv.src.len

theorem concatCopy_moves (base : Ptr) (buffers : List UvBuf) : ∀ off total : ℤ,
    concatCopy (base.add off) total buffers =
      (concatMoves off total buffers).forM (Move.run base) := by
  induction buffers with
  | nil => exact fun _ _ => rfl
  | cons buf buffers ih =>
    intro off total
    unfold concatCopy concatMoves
    split
    · have hadd (len : ℤ) : (base.add off).add len = base.add (off+len) := by
        simp only [Ptr.add, add_assoc]
      have hcons (mv : Move) (mvs : List Move) : (mv :: mvs).forM (Move.run base) =
          (Move.run base mv >>= fun _ => mvs.forM (Move.run base)) := rfl
      simp only [hadd, ih, hcons, Move.run, bind_assoc]
    · rfl

theorem concatMoves_within {buffers : List UvBuf} (hs : ∀ buf ∈ buffers, buf.len < 2^31) :
    ∀ {off total : ℤ}, 0 ≤ off → 0 ≤ total →
      ∀ mv ∈ concatMoves off total buffers, mv.Within (off+total) := by
  induction buffers with
  | nil => exact fun _ _ mv hmv => (List.not_mem_nil hmv).elim
  | cons buf buffers ih =>
    intro off total hoff htotal mv hmv
    have hlen := cInt_len (hs buf List.mem_cons_self)
    unfold concatMoves at hmv
    split at hmv
    swap
    · exact (List.not_mem_nil hmv).elim
    rw [hlen] at hmv
    rcases List.mem_cons.mp hmv with rfl | hmv
    · refine ⟨hoff, ?_, ?_, ?_⟩ <;> dsimp only <;> split <;> omega
    · -- the offset and the rest of the total move by the same length
      have h := ih (fun b hb => hs b (List.mem_cons_of_mem _ hb)) (by split <;> omega)
        (by split <;> omega) mv hmv
      rwa [add_add_sub_cancel] at h

/-- One memmove, of as many bytes of the element as there is room for. -/
theorem concatCopy_cons {m : Mem} {buf : UvBuf} {buffers : List UvBuf} {blk off total k : ℕ}
    (hs : buf.len < 2^31) (hr : buf.Readable m) (hin : m.InBlock ⟨blk, off⟩ total)
    (hk : k = min buf.len total) : concatCopy ⟨blk, off⟩ total (buf :: buffers) m =
      concatCopy ⟨blk, (off+k : ℕ)⟩ (total-k : ℕ) buffers
        (m.store ⟨blk, off⟩ ((buf.bytes m).take k)) := by
  rw [concatCopy]
  by_cases htotal : (total : ℤ) > 0
  swap
  -- no room is left: the loop ends, and there is nothing to copy
  · obtain ⟨rfl, rfl⟩ : total = 0 ∧ k = 0 := by omega
    rw [if_neg htotal, List.take_zero, Mem.store_nil]
    cases buffers with
    | nil => rfl
    | cons buf buffers =>
      rw [concatCopy, if_neg (by omega)]
  have hmin : (if (buf.len : ℤ) > total then (total : ℤ) else buf.len) = k := by
    split <;> omega
  have hxs : ((buf.bytes m).take k).length = k :=
    List.length_take_of_le (by rw [hr.bytes_length]; omega)
  obtain ⟨bl, hbl, h0, hsize⟩ := hin
  have hstore : memStore (some ⟨blk, off⟩) ((buf.bytes m).take k) m =
      .ok () (m.store ⟨blk, off⟩ ((buf.bytes m).take k)) :=
    if_pos ⟨bl, hbl, h0, by rw [hxs]; omega⟩
  have hdst : (⟨blk, off⟩ : Ptr).add k = ⟨blk, (off+k : ℕ)⟩ := by
    rw [Ptr.add, Nat.cast_add]
  have hrest : (total : ℤ)-k = (total-k : ℕ) := by omega
  simp only [if_pos htotal, cInt_len hs, hmin]
  rw [run_bind_ok (hr.load (by omega)), run_bind_ok hstore, hdst, hrest]

/-- With no element as long as 2^31 bytes, the loop stores the first bytes of the concatenation. -/
theorem concatCopy_run {blk : ℕ} {buffers : List UvBuf} (hs : ∀ buf ∈ buffers, buf.len < 2^31)
    (hsrc : ∀ p n, UvBuf.mem (some p) n ∈ buffers → p.block ≠ blk) :
    ∀ {m : Mem} {off total : ℕ}, (∀ buf ∈ buffers, buf.Readable m) →
      m.InBlock ⟨blk, off⟩ total → concatCopy ⟨blk, off⟩ total buffers m =
        .ok () (m.store ⟨blk, off⟩ ((buffers.map (UvBuf.bytes m)).flatten.take total)) := by
  induction buffers with
  | nil =>
    intro m off total _ _
    rw [List.map_nil, List.flatten_nil, List.take_nil, Mem.store_nil]
    rfl
  | cons buf buffers ih =>
    intro m off total hr hin
    have hrbuf := hr buf List.mem_cons_self
    obtain ⟨k, hk⟩ : ∃ k, k = min buf.len total := ⟨_, rfl⟩
    rw [concatCopy_cons (hs buf List.mem_cons_self) hrbuf hin hk]
    -- the rest of the list, in the memory after the first memmove
    have hother (b : UvBuf) (hb : b ∈ buffers) := UvBuf.bytes_store
      (hr b (List.mem_cons_of_mem _ hb)) (q := ⟨blk, off⟩) ((buf.bytes m).take k)
      (fun p n he => hsrc p n (he ▸ List.mem_cons_of_mem _ hb))
    obtain ⟨bl, hbl, h0, hsize⟩ := hin
    have hin' : (m.store ⟨blk, off⟩ ((buf.bytes m).take k)).InBlock ⟨blk, (off+k : ℕ)⟩
        (total-k) := by
      refine ⟨_, Store.modify_get_self _ _ hbl, Int.natCast_nonneg _, ?_⟩
      dsimp only [Block.store] at hsize ⊢
      omega
    rw [ih (fun b hb => hs b (List.mem_cons_of_mem _ hb))
      (fun p n hb => hsrc p n (List.mem_cons_of_mem _ hb)) (fun b hb => (hother b hb).2) hin',
      List.map_congr_left (fun b hb => (hother b hb).1)]
    have hxs : ((buf.bytes m).take k).length = k :=
      List.length_take_of_le (by rw [hrbuf.bytes_length]; omega)
    -- the first memmove and the store of the rest are one store
    have happ := Mem.store_append (m := m) (p := ⟨blk, off⟩) h0 ((buf.bytes m).take k)
      ((buffers.map (UvBuf.bytes m)).flatten.take (total-k))
    have hdst : (⟨blk, off⟩ : Ptr).add ((buf.bytes m).take k).length = ⟨blk, (off+k : ℕ)⟩ := by
      rw [hxs, Ptr.add, Nat.cast_add]
    rw [hdst] at happ
    have htake : (buf.bytes m).take k = (buf.bytes m).take total := by
      rw [← List.take_length (l := buf.bytes m), List.take_take, List.take_take,
        hrbuf.bytes_length]
      congr 1
      omega
    have hsub : total-k = total-buf.len := by omega
    rw [happ, List.map_cons, List.flatten_cons, List.take_append, hrbuf.bytes_length, htake, hsub]

/-! The call. -/

section
variable {m : Mem} {buffers : List UvBuf}

/-- A range that can be read is not affected by a new Buffer. -/
theorem UvBuf.Readable.withNew {buf : UvBuf} (h : buf.Readable m) (env : AllocEnv) (n : ℕ) :
    buf.Readable (m.withNew env n) ∧ buf.bytes (m.withNew env n) = buf.bytes m ∧
      ∀ p k, buf = .mem (some p) k → p.block ≠ m.blocks.next := by
  cases h with
  | str s => exact ⟨.str s, rfl, fun p k he => by cases he⟩
  | @mem p k hin =>
    obtain ⟨bl, hbl, h⟩ := hin
    have hget : (m.withNew env n).blocks.get p.block = m.blocks.get p.block := by
      rw [hbl]
      exact m.blocks.alloc_get_of_some hbl
    refine ⟨.mem ⟨bl, hget.trans hbl, h⟩, ?_, ?_⟩
    · simp only [bytes, Mem.bytes, Mem.byte, hget]
    · intro p' k' he
      cases he
      exact (m.blocks.lt_next hbl).ne

/-- The concatenation of the ranges. -/
def concatBytes (m : Mem) (buffers : List UvBuf) : List UInt8 :=
  (buffers.map (UvBuf.bytes m)).flatten

theorem bufferConcat_run {env : AllocEnv} (henv : env.ok = true) {items : List Value}
    (hacc : couvCheckbuforstrtable items m = .ok buffers m)
    (hr : ∀ buf ∈ buffers, buf.Readable m) (hs : ∀ buf ∈ buffers, buf.len < 2^31)
    {total : Value} {t : ℤ} (ht : luaLOptint 2 total 0 = .ok t) {n : ℕ} (hn : n < 2^31)
    (hnt : concatForwards buffers t = n) :
    bufferConcat env items total m =
      .ok [.buffer m.bufs.next] (m.newBytes env n ((concatBytes m buffers).take n)) := by
  have hsize : cSizeT n = n := by
    unfold cSizeT
    omega
  have hnew : bufferNew env (.number n) m = .ok [.buffer m.bufs.next] (m.withNew env n) :=
    bufferNew_length henv (by omega) m (by simp only [bufferNewArg, Value.luaNumber, hsize])
  -- the ranges lie in older blocks, so they still show what they showed before Buffer.new
  have hcopy := concatCopy_run hs
    (fun p k hb => ((hr _ hb).withNew env n).2.2 p k rfl)
    (fun buf hb => ((hr buf hb).withNew env n).1) (withNew_inBlock m env)
  rw [List.map_congr_left (fun buf hb => ((hr buf hb).withNew env n).2.1)] at hcopy
  have hget : couvCheckbuf 1 (.buffer m.bufs.next) (m.withNew env n) =
      .ok (m.newBuf n) (m.withNew env n) := checkbuf_ok (m.bufs.alloc_get_self _) 1
  unfold concatForwards at hnt
  unfold bufferConcat
  rw [run_bind_ok hacc, BufM.bind_check_ok m ht]
  simp only [hnt]
  rw [run_bind_ok hnew]
  exact (run_bind_ok hget).trans ((run_bind_ok hcopy).trans
    (congrArg (EStateM.Result.ok _) (withNew_store m env _)))

end

/-- A fresh Buffer `b` of `n` bytes, the first of which are those of the elements, was made and
nothing else was changed. -/
structure Mem.Concats (m : Mem) (items : List Value) (n : ℕ) (m' : Mem) : Prop where
  fresh : m.bufs.get m.bufs.next = none ∧ m.blocks.get m.blocks.next = none
  get : m'.bufs.get m.bufs.next = some (m.newBuf n)
  block : ∃ bl, m'.blocks.get m.blocks.next = some bl ∧ bl.size = n
  shown : m'.shown (m.newBuf n) 1 (min n (items.map m.contents).flatten.length) =
    (items.map m.contents).flatten.take (min n (items.map m.contents).flatten.length)
  bufs : ∀ b, b ≠ m.bufs.next → m'.bufs.get b = m.bufs.get b
  blocks : ∀ blk, blk ≠ m.blocks.next → m'.blocks.get blk = m.blocks.get blk
  freed : m'.freed = m.freed

theorem newBytes_concats (m : Mem) (env : AllocEnv) (n : ℕ) (items : List Value) :
    m.Concats items n (m.newBytes env n ((items.map m.contents).flatten.take n)) where
  fresh := ⟨m.bufs.fresh _ le_rfl, m.blocks.fresh _ le_rfl⟩
  get := m.bufs.alloc_get_self _
  block := ⟨_, m.blocks.alloc_get_self _, rfl⟩
  shown := by
    rw [newBytes_shown m env _ (by rw [List.length_take]), List.take_take]
    congr 1
    omega
  bufs b hb := if_neg hb
  blocks blk hblk := if_neg hblk
  freed := rfl

/-- What an accepted list of strings and Buffers gives. -/
theorem ranges_of_check {m : Mem} {items : List Value} (hd : ∀ v ∈ items, m.IsData v)
    {buffers : List UvBuf} (hacc : couvCheckbuforstrtable items m = .ok buffers m) :
    (∀ buf ∈ buffers, buf.Readable m) ∧
      concatBytes m buffers = (items.map m.contents).flatten ∧
      buffers.map (fun buf => (buf.len : ℤ)) = items.map m.lenOf :=
  ranges_of_table hd (checkbuforstrtable_ok.mp hacc).2

/-- With a length `n` the first `n` bytes are copied, by memmoves inside the `n` bytes of the
new Buffer. -/
theorem concat_with_length {env : AllocEnv} (henv : env.ok = true) {m : Mem}
    {items : List Value} (hd : ∀ v ∈ items, m.IsData v) (hs : ∀ v ∈ items, m.lenOf v < 2^31)
    {buffers : List UvBuf} (hacc : couvCheckbuforstrtable items m = .ok buffers m)
    {total : Value} {n : ℕ} (ht : luaLOptint 2 total 0 = .ok (n : ℤ)) (h1 : 1 ≤ n)
    (hn : n < 2^31) :
    (∃ m', bufferConcat env items total m = .ok [.buffer m.bufs.next] m' ∧
      m.Concats items n m') ∧
    (∀ base : Ptr, concatCopy base n buffers = (concatMoves 0 n buffers).forM (Move.run base)) ∧
      ∀ mv ∈ concatMoves 0 n buffers, mv.Within n := by
  obtain ⟨hr, hbytes, hlens⟩ := ranges_of_check hd hacc
  have hshort : ∀ buf ∈ buffers, buf.len < 2^31 := by
    intro buf hbuf
    have hmem : (buf.len : ℤ) ∈ items.map m.lenOf := hlens ▸ List.mem_map_of_mem hbuf
    obtain ⟨v, hv, hlen⟩ := List.mem_map.mp hmem
    have hlt := hs v hv
    omega
  have hrun := bufferConcat_run henv hacc hr hshort ht hn (if_neg (by omega))
  rw [hbytes] at hrun
  refine ⟨⟨_, hrun, newBytes_concats m env n items⟩, ?_, ?_⟩
  · intro base
    have hmoves := concatCopy_moves base buffers 0 n
    rwa [Ptr.add, add_zero] at hmoves
  -- every move stays in the new block
  · have hin : ∀ mv ∈ concatMoves 0 n buffers, mv.Within (0+n) :=
      concatMoves_within hshort le_rfl (by omega)
    rwa [zero_add] at hin

/-- malloc succeeds. -/
def plenty : AllocEnv := ⟨true, fun _ => 0, ⟨none, none, 0⟩⟩

/-- Memory with one Buffer, which shows two bytes. -/
def twoBytes : Mem := Mem.empty.newBytes plenty 2 [120, 121]

theorem twoBytes_isData : twoBytes.IsData (.buffer 0) :=
  .inr ⟨0, _, rfl, rfl, .inr ⟨0, _, 0, rfl, by decide, rfl, rfl⟩⟩

/-- The first element, the whole Buffer, and nothing of the last one. -/
theorem concat_with_length_four : ∃ m',
    bufferConcat plenty [.string [97, 98], .buffer 0, .string [99]] (.number 4) twoBytes =
      .ok [.buffer 1] m' ∧ m'.shown (twoBytes.newBuf 4) 1 4 = [97, 98, 120, 121] := by
  have hd : ∀ v ∈ [Value.string [97, 98], .buffer 0, .string [99]], twoBytes.IsData v := by
    simp only [List.forall_mem_cons]
    exact ⟨.inl ⟨_, rfl⟩, twoBytes_isData, .inl ⟨_, rfl⟩, fun _ h => (List.not_mem_nil h).elim⟩
  obtain ⟨⟨m', hrun, hm'⟩, -⟩ := @concat_with_length plenty rfl twoBytes _ hd (by decide) _ rfl
    (.number 4) 4 rfl (by decide) (by decide)
  exact ⟨m', hrun, hm'.shown⟩

/-! Without a length. -/

/-- The lengths of the ranges, as one sum. -/
def lenSum (buffers : List UvBuf) : ℤ := (buffers.map (fun buf => (buf.len : ℤ))).sum

/-- What concat without a length should do: raise, or make a Buffer of all the bytes; no partial
total wraps, and every memmove fits. -/
structure ConcatKept (env : AllocEnv) (m : Mem) (items : List Value) : Prop where
  outcome : (∃ e m', bufferConcat env items .nil m = .error (.raise e) m') ∨
    ∃ m', bufferConcat env items .nil m = .ok [.buffer m.bufs.next] m' ∧
      m.Concats items (items.map m.contents).flatten.length m'
  totals : ∀ buffers, couvCheckbuforstrtable items m = .ok buffers m →
    ∀ k, concatTotal (buffers.take k) = lenSum (buffers.take k)
  moves : ∀ buffers, couvCheckbuforstrtable items m = .ok buffers m →
    ∀ mv ∈ concatMoves 0 (concatTotal buffers) buffers, mv.Within (concatTotal buffers)

/-- The elements are rejected, or their lengths add up to an int. -/
def ConcatFits (m : Mem) (items : List Value) : Prop :=
  (∃ buffers, couvCheckbuforstrtable items m = .ok buffers m) → (items.map m.lenOf).sum < 2^31

theorem lenSum_nonneg (buffers : List UvBuf) : 0 ≤ lenSum buffers := by
  unfold lenSum
  induction buffers with
  | nil => exact le_rfl
  | cons buf buffers ih =>
    rw [List.map_cons, List.sum_cons]
    omega

theorem lenSum_append (xs ys : List UvBuf) : lenSum (xs ++ ys) = lenSum xs+lenSum ys := by
  simp only [lenSum, List.map_append, List.sum_append]

theorem lenSum_take_le (buffers : List UvBuf) (k : ℕ) :
    lenSum (buffers.take k) ≤ lenSum buffers := by
  have hsplit := lenSum_append (buffers.take k) (buffers.drop k)
  rw [List.take_append_drop] at hsplit
  have hrest := lenSum_nonneg (buffers.drop k)
  omega

/-- The int accumulation is exact as long as the sum is an int. -/
theorem concatTotal_exact {buffers : List UvBuf} (h : lenSum buffers < 2^31) :
    concatTotal buffers = lenSum buffers := by
  induction buffers using List.reverseRecOn with
  | nil => rfl
  | append_singleton buffers buf ih =>
    have hsum := lenSum_append buffers [buf]
    have hone : lenSum [buf] = buf.len := add_zero _
    have h0 := lenSum_nonneg buffers
    have hprev := ih (by omega)
    unfold concatTotal at hprev ⊢
    rw [List.foldl_concat, hprev, cInt_of (by omega) (by omega)]
    omega

theorem lenSum_short {buffers : List UvBuf} (h : lenSum buffers < 2^31) :
    ∀ buf ∈ buffers, buf.len < 2^31 := by
  intro buf hbuf
  obtain ⟨xs, ys, rfl⟩ := List.append_of_mem hbuf
  have hsplit := lenSum_append xs (buf :: ys)
  have hcons := lenSum_append [buf] ys
  have hone : lenSum [buf] = buf.len := add_zero _
  have hx := lenSum_nonneg xs
  have hy := lenSum_nonneg ys
  rw [List.singleton_append] at hcons
  omega

theorem concatBytes_length {m : Mem} {buffers : List UvBuf}
    (hr : ∀ buf ∈ buffers, buf.Readable m) :
    ((concatBytes m buffers).length : ℤ) = lenSum buffers := by
  unfold concatBytes lenSum
  induction buffers with
  | nil => rfl
  | cons buf buffers ih =>
    obtain ⟨hbuf, hrest⟩ := List.forall_mem_cons.mp hr
    rw [List.map_cons, List.map_cons, List.flatten_cons, List.length_append, List.sum_cons,
      Nat.cast_add, hbuf.bytes_length, ih hrest]

/-- Without memory, or with elements of another kind, the call raises. -/
theorem bufferConcat_raises {env : AllocEnv} {m : Mem} {items : List Value}
    (h : env.ok = false ∨ ¬∃ buffers, couvCheckbuforstrtable items m = .ok buffers m) :
    ∃ e m', bufferConcat env items .nil m = .error (.raise e) m' := by
  rcases bufferConcat_cases env m items .nil with
    ⟨e, hr, -⟩ | ⟨buffers, t, hacc, -, ⟨-, hr⟩ | ⟨hno, -⟩⟩
  · exact ⟨_, _, hr⟩
  · have henv := h.resolve_right (not_not.mpr ⟨buffers, hacc⟩)
    rw [henv] at hr
    exact ⟨_, _, hr⟩
  · exact absurd (.inl (h.resolve_right (not_not.mpr ⟨buffers, hacc⟩))) hno

theorem concat_outcome (env : AllocEnv) {m : Mem} {items : List Value}
    (hd : ∀ v ∈ items, m.IsData v) {buffers : List UvBuf}
    (hacc : couvCheckbuforstrtable items m = .ok buffers m) (hsum : lenSum buffers < 2^31) :
    (∃ e m', bufferConcat env items .nil m = .error (.raise e) m') ∨
      ∃ m', bufferConcat env items .nil m = .ok [.buffer m.bufs.next] m' ∧
        m.Concats items (items.map m.contents).flatten.length m' := by
  cases henv : env.ok with
  | false => exact .inl (bufferConcat_raises (.inl henv))
  | true =>
    obtain ⟨hr, hbytes, -⟩ := ranges_of_check hd hacc
    have hlen := concatBytes_length hr
    have hforward : concatForwards buffers 0 = (concatBytes m buffers).length := by
      rw [concatForwards, if_pos rfl, concatTotal_exact hsum, hlen]
    have hnone : luaLOptint 2 .nil 0 = .ok 0 := rfl
    have hrun := bufferConcat_run henv hacc hr (lenSum_short hsum) hnone (by omega) hforward
    rw [hbytes] at hrun
    exact .inr ⟨_, hrun, newBytes_concats m env _ items⟩

/-- concat without a length keeps its promise exactly when the lengths of the elements it accepts
add up to less than 2^31. -/
theorem concat_without_length (env : AllocEnv) {m : Mem} {items : List Value}
    (hd : ∀ v ∈ items, m.IsData v) : ConcatKept env m items ↔ ConcatFits m items := by
  constructor
  · rintro h ⟨buffers, hacc⟩
    -- the last partial total is an int, so it can only be the sum when that is one
    obtain ⟨-, -, hlens⟩ := ranges_of_check hd hacc
    have htotal := h.totals buffers hacc buffers.length
    have hmax := (concatTotal_inCInt buffers).2
    unfold cIntMax at hmax
    rw [List.take_length, lenSum, hlens] at htotal
    omega
  · intro h
    rcases checkbuforstrtable_cases m items with ⟨buffers, hacc⟩ | ⟨e, hrej⟩
    · obtain ⟨-, -, hlens⟩ := ranges_of_check hd hacc
      have hsum : lenSum buffers < 2^31 := by
        rw [lenSum, hlens]
        exact h ⟨buffers, hacc⟩
      have huniq {bs : List UvBuf} (hb : couvCheckbuforstrtable items m = .ok bs m) :
          bs = buffers :=
        (EStateM.Result.ok.inj (hb.symm.trans hacc)).1
      refine ⟨concat_outcome env hd hacc hsum, ?_, ?_⟩
      · intro bs hbs k
        obtain rfl := huniq hbs
        exact concatTotal_exact ((lenSum_take_le bs k).trans_lt hsum)
      · intro bs hbs
        obtain rfl := huniq hbs
        have hin : ∀ mv ∈ concatMoves 0 (concatTotal bs) bs, mv.Within (0+concatTotal bs) :=
          concatMoves_within (lenSum_short hsum) le_rfl
            (by rw [concatTotal_exact hsum]; exact lenSum_nonneg bs)
        rwa [zero_add] at hin
    · have hno (bs : List UvBuf) : couvCheckbuforstrtable items m ≠ .ok bs m := by
        intro hb
        cases hrej.symm.trans hb
      exact ⟨.inl (bufferConcat_raises (.inr (fun ⟨bs, hbs⟩ => hno bs hbs))),
        fun bs hbs => absurd hbs (hno bs), fun bs hbs => absurd hbs (hno bs)⟩

theorem concat_without_length_twice :
    ConcatKept plenty twoBytes [.buffer 0, .buffer 0] := by
  have hd : ∀ v ∈ [Value.buffer 0, .buffer 0], twoBytes.IsData v := by
    simp only [List.forall_mem_cons]
    exact ⟨twoBytes_isData, twoBytes_isData, fun _ h => (List.not_mem_nil h).elim⟩
  exact (concat_without_length plenty hd).mpr (fun _ => by decide)

/-- Memory with one Buffer, of 2^30 bytes. -/
def gibibyte : Mem := Mem.empty.newBytes plenty (2^30) []

/-- Four times the same 2^30 bytes: the total wraps to 0 and the new Buffer is empty. -/
theorem four_gibibytes_lost :
    (∃ m', bufferConcat plenty [.buffer 0, .buffer 0, .buffer 0, .buffer 0] .nil gibibyte =
      .ok [.buffer 1] m' ∧ m'.bufs.get 1 = some (gibibyte.newBuf 0)) ∧
      ¬ConcatKept plenty gibibyte [.buffer 0, .buffer 0, .buffer 0, .buffer 0] := by
  have hacc : couvCheckbuforstrtable [.buffer 0, .buffer 0, .buffer 0, .buffer 0] gibibyte =
      .ok (List.replicate 4 (.mem (some ⟨0, 0⟩) (2^30))) gibibyte := rfl
  refine ⟨?_, ?_⟩
  · have hr : ∀ buf ∈ List.replicate 4 (UvBuf.mem (some ⟨0, 0⟩) (2^30)),
        buf.Readable gibibyte := by
      intro buf hbuf
      obtain rfl := List.eq_of_mem_replicate hbuf
      exact .mem (by decide)
    have hnone : luaLOptint 2 .nil 0 = .ok 0 := rfl
    have hplenty : plenty.ok = true := rfl
    have hrun := bufferConcat_run (n := 0) hplenty hacc hr (by decide) hnone (by decide)
      (by decide)
    exact ⟨_, hrun, rfl⟩
  · intro h
    have htotal := h.totals _ hacc 4
    revert htotal
    decide

end Couv
