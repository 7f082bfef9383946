import Couv.BufferOp

/-! The operations of buffer.c refine the operations on views. -/
namespace Couv

open Arrays (Effect)

/-- The view that a Buffer is. -/
def CouvBuf.view (buf : CouvBuf) : View :=
  ⟨buf.orig.getD 0, (buf.base.map (·.off.toNat)).getD 0, buf.len⟩

def Block.bytes (b : Block) : List UInt8 := (List.range b.size).map b.mem

/-- The byte arrays and views that memory represents. -/
def Mem.arrays (m : Mem) : Arrays := ⟨m.blocks.map Block.bytes, m.bufs.map CouvBuf.view⟩

/-- A Buffer is a triple of a block, an offset and a length, and lies inside its block. -/
def Mem.Triple (m : Mem) (buf : CouvBuf) : Prop :=
  ∃ blk bl, ∃ off : ℕ, m.blocks.get blk = some bl ∧ off+buf.len ≤ bl.size ∧
    buf.len < 2^31 ∧ buf.orig = some blk ∧ buf.base = some ⟨blk, off⟩

def Mem.Views (m : Mem) : Prop := ∀ b buf, m.bufs.get b = some buf → m.Triple buf

/-- The Buffer `b` is `buf` and shows the bytes `bs`. -/
structure Mem.Shows (m : Mem) (b : ℕ) (buf : CouvBuf) (bs : List UInt8) : Prop where
  get : m.bufs.get b = some buf
  own : m.arrays.own b = some bs
  len : bs.length = buf.len
  small : buf.len < 2^31

theorem Block.bytes_length (b : Block) : b.bytes.length = b.size := by
  simp only [bytes, List.length_map, List.length_range]

theorem Block.bytes_getElem? (b : Block) (i : ℕ) :
    b.bytes[i]? = if i < b.size then some (b.mem i) else none := by
  simp only [bytes, List.getElem?_map]
  split
  · next h => rw [List.getElem?_range h]; rfl
  · next h => rw [List.getElem?_eq_none (by simpa using h)]; rfl

theorem Block.store_bytes (b : Block) {i : ℕ} {bs : List UInt8} (h : i+bs.length ≤ b.size) :
    (b.store i bs).bytes = overwrite b.bytes i bs := by
  apply List.ext_getElem?
  intro j
  rw [overwrite_getElem? (by rw [b.bytes_length]; exact h), bytes_getElem?, bytes_getElem?]
  change (if j < b.size then some (if i ≤ j ∧ j < i+bs.length then bs.getD (j-i) 0 else b.mem j)
    else none) = _
  by_cases hj : i ≤ j ∧ j < i+bs.length
  · rw [if_pos (by omega), if_pos hj, if_pos hj, List.getD_eq_getElem?_getD,
      List.getElem?_eq_getElem (by omega)]
    rfl
  · rw [if_neg hj, if_neg hj]

section
variable {m : Mem}

theorem Mem.Views.shows (hm : m.Views) {b : ℕ} {buf : CouvBuf} (h : m.bufs.get b = some buf) :
    ∃ bs, m.Shows b buf bs := by
  obtain ⟨blk, bl, off, hbl, hin, hs, ho, hb⟩ := hm b buf h
  have hown : m.arrays.own b = some (m.arrays.bytes buf.view) := by
    simp only [Arrays.own, Mem.arrays, Store.map_get, h, Option.map_some]
  refine ⟨_, h, hown, ?_, hs⟩
  refine Arrays.bytes_length _ (v := buf.view) ?_
  simp only [Arrays.Inside, CouvBuf.view, Arrays.array, Mem.arrays, Store.map_get, ho, hb,
    Option.getD_some, Option.map_some, hbl, Int.toNat_natCast, Block.bytes_length]
  exact hin

/-- A range of the bytes a Buffer shows lies in its live block. -/
theorem Mem.Views.inBlock (hm : m.Views) {b : ℕ} {buf : CouvBuf}
    (h : m.bufs.get b = some buf) {i : ℤ} {n : ℕ} (hi : 0 ≤ i) (hn : i+n ≤ buf.len) :
    ∃ blk bl, ∃ off : ℕ, m.blocks.get blk = some bl ∧ off+buf.len ≤ bl.size ∧
      buf.orig = some blk ∧ buf.base = some ⟨blk, off⟩ ∧ m.InBlock ⟨blk, off+i⟩ n := by
  obtain ⟨blk, bl, off, hbl, hin, -, ho, hb⟩ := hm b buf h
  refine ⟨blk, bl, off, hbl, hin, ho, hb, bl, hbl, ?_, ?_⟩
  · change 0 ≤ (off : ℤ)+i
    omega
  · change (off : ℤ)+i+n ≤ bl.size
    omega

/-- A load inside a Buffer gives the bytes it shows there. -/
theorem Mem.Views.load (hm : m.Views) {b : ℕ} {buf : CouvBuf} {bs : List UInt8}
    (h : m.Shows b buf bs) {i n : ℤ} (hi : 0 ≤ i) (h0 : 0 ≤ n) (hn : i+n ≤ bs.length) :
    memLoad (buf.at i) n m = .ok (window bs i.toNat n.toNat) m := by
  obtain ⟨blk, bl, off, hbl, hin, ho, hb, hblk⟩ :=
    hm.inBlock h.get (n := n.toNat) hi (by have := h.len; omega)
  have hload : memLoad (buf.at i) n m = .ok (m.bytes ⟨blk, off+i⟩ n.toNat) m := by
    simp only [memLoad, CouvBuf.at, hb, Option.map_some, Ptr.add]
    rw [if_pos ⟨h0, hblk⟩]
  rw [hload]
  congr 1
  have hbs : bs = window bl.bytes off buf.len := by
    have hown := h.own
    simp only [Arrays.own, Mem.arrays, Store.map_get, h.get, Option.map_some, Arrays.bytes,
      CouvBuf.view, Arrays.array, ho, hb, Option.getD_some, hbl, Int.toNat_natCast,
      Option.some.injEq] at hown
    exact hown.symm
  have hlen := h.len
  rw [hbs, window_window _ (by omega)]
  -- byte by byte: both sides read the block at off+i+j
  apply List.ext_getElem?
  intro j
  rw [window_getElem?, Mem.bytes, List.getElem?_map]
  by_cases hj : j < n.toNat
  · have ho' : ((off : ℤ)+i).toNat = off+i.toNat := by omega
    rw [if_pos hj, List.getElem?_range hj, Block.bytes_getElem?, if_pos (by omega)]
    simp only [Option.map_some, Mem.byte, hbl, ho']
  · rw [if_neg hj, List.getElem?_eq_none (by simpa using hj)]
    rfl

theorem Mem.Views.modify (hm : m.Views) {blk : ℕ} {f : Block → Block}
    (hf : ∀ b, (f b).size = b.size) :
    Mem.Views { m with blocks := m.blocks.modify blk f } := by
  intro b buf hb
  obtain ⟨blk', bl, off, hbl, hin, hs, ho, hbase⟩ := hm b buf hb
  by_cases he : blk' = blk
  · subst he
    exact ⟨blk', f bl, off, Store.modify_get_self _ f hbl, by rw [hf]; exact hin, hs, ho, hbase⟩
  · exact ⟨blk', bl, off, (Store.modify_get_ne _ f he).trans hbl, hin, hs, ho, hbase⟩

theorem Mem.Views.alloc (hm : m.Views) {buf : CouvBuf} (h : m.Triple buf) :
    Mem.Views { m with bufs := m.bufs.alloc buf } := by
  intro b buf' hb
  rw [Store.alloc_get] at hb
  split at hb
  · obtain rfl := Option.some.inj hb
    exact h
  · exact hm b buf' hb

/-- A store inside a Buffer is the effect of that name on the view. -/
theorem Mem.Views.store (hm : m.Views) {b : ℕ} {buf : CouvBuf} {bs : List UInt8}
    (h : m.Shows b buf bs) {i : ℤ} {ys : List UInt8} (hi : 0 ≤ i)
    (hn : i+ys.length ≤ bs.length) :
    ∃ m', memStore (buf.at i) ys m = .ok () m' ∧
      m'.arrays = m.arrays.apply (.store b i.toNat ys) ∧ m'.Views := by
  obtain ⟨blk, bl, off, hbl, hin, ho, hb, hblk⟩ :=
    hm.inBlock h.get (n := ys.length) hi (by have := h.len; omega)
  have hlen := h.len
  refine ⟨m.store ⟨blk, off+i⟩ ys, ?_, ?_, hm.modify (fun _ => rfl)⟩
  · simp only [memStore, CouvBuf.at, hb, Option.map_some, Ptr.add]
    rw [if_pos hblk]
  · have ho' : ((off : ℤ)+i).toNat = off+i.toNat := by omega
    have hv : m.arrays.views.get b = some buf.view := by
      simp only [Mem.arrays, Store.map_get, h.get, Option.map_some]
    simp only [Arrays.apply, hv, CouvBuf.view, ho, hb, Option.getD_some, Option.map_some,
      Int.toNat_natCast]
    simp only [Mem.arrays, Mem.store, Arrays.storeAt, ho', Arrays.mk.injEq, and_true]
    -- the block that is written, and the others
    refine Store.ext rfl ?_
    intro a
    by_cases ha : a = blk
    · subst ha
      rw [Store.map_get, Store.modify_get_self _ _ hbl, Store.modify_get_self _ _ (x := bl.bytes)
        (by rw [Store.map_get, hbl]; rfl), Option.map_some,
        bl.store_bytes (by omega)]
    · rw [Store.map_get, Store.modify_get_ne _ _ ha, Store.modify_get_ne _ _ ha, Store.map_get]

end

/-! What it means that a run of code in `m` does what a specification says, and the rules
for the statements the functions are made of. -/

/-- A specified error is raised before anything is changed. -/
def Does {α : Type} (m : Mem) (x : BufM α) : Except LuaError (α × Effect) → Prop
  | .ok (a, eff) => ∃ m', x m = .ok a m' ∧ m'.arrays = m.arrays.apply eff ∧ m'.Views
  | .error e => x m = .error (.raise e) m

section
variable {m : Mem} {α β : Type}

theorem does_return (hm : m.Views) (a : α) : Does m (pure a) (.ok (a, .none)) :=
  ⟨m, rfl, rfl, hm⟩

/-- The same check on both sides. -/
theorem does_check {x y : Except LuaError β} {f : β → BufM α}
    {g : β → Except LuaError (α × Effect)} (hxy : x = y)
    (h : ∀ a, y = .ok a → Does m (f a) (g a)) : Does m (BufM.check x >>= f) (y >>= g) := by
  subst hxy
  cases x with
  | error e => exact BufM.bind_check_error m rfl
  | ok a =>
    have hd := h a rfl
    have hb := BufM.bind_check_ok (x := .ok a) (f := f) m rfl
    change Does m _ (g a)
    revert hd
    cases g a with
    | error e => exact fun hd => hb.trans hd
    | ok r => exact fun ⟨m', h1, h2⟩ => ⟨m', hb.trans h1, h2⟩

/-- Two checks that raise the same errors, before code that does not use their results. -/
theorem does_check_of_iff {x y : Except LuaError β} {f : β → BufM α}
    {g : β → Except LuaError (α × Effect)} (hxy : ∀ e, x = .error e ↔ y = .error e)
    (h : ∀ a a', Does m (f a) (g a')) : Does m (BufM.check x >>= f) (y >>= g) := by
  cases x with
  | error e =>
    rw [(hxy e).mp rfl]
    exact BufM.bind_check_error m rfl
  | ok a =>
    cases y with
    | error e => cases (hxy e).mpr rfl
    | ok a' => exact h a a'

/-- A statement that only reads. -/
theorem does_bind {x : BufM β} {a : β} {f : β → BufM α} {e : Except LuaError (α × Effect)}
    (hx : x m = .ok a m) (h : Does m (f a) e) : Does m (x >>= f) e := by
  have hb : (x >>= f) m = f a m := run_bind_ok hx
  cases e with
  | error e => exact hb.trans h
  | ok r =>
    obtain ⟨m', h1, h2⟩ := h
    exact ⟨m', hb.trans h1, h2⟩

theorem does_load (hm : m.Views) {b : ℕ} {buf : CouvBuf} {bs : List UInt8}
    (hs : m.Shows b buf bs) {i n : ℤ} (hi : 0 ≤ i) (h0 : 0 ≤ n) (hn : i+n ≤ bs.length)
    {f : List UInt8 → BufM α} {e : Except LuaError (α × Effect)}
    (h : Does m (f (window bs i.toNat n.toNat)) e) :
    Does m (memLoad (buf.at i) n >>= f) e :=
  does_bind (hm.load hs hi h0 hn) h

theorem does_store (hm : m.Views) {b : ℕ} {buf : CouvBuf} {bs : List UInt8}
    (hs : m.Shows b buf bs) {i : ℤ} {ys : List UInt8} (hi : 0 ≤ i)
    (hn : i+ys.length ≤ bs.length) (a : α) :
    Does m (memStore (buf.at i) ys >>= fun _ => pure a) (.ok (a, .store b i.toNat ys)) := by
  obtain ⟨m', hst, ha, hv⟩ := hm.store hs hi hn
  exact ⟨m', run_bind_ok hst, ha, hv⟩

theorem does_checkbuf (hm : m.Views) {arg : ℕ} {v : Value} {f : CouvBuf → BufM α}
    {g : ℕ × List UInt8 → Except LuaError (α × Effect)}
    (h : ∀ b buf bs, v = .buffer b → m.Shows b buf bs → Does m (f buf) (g (b, bs))) :
    Does m (couvCheckbuf arg v >>= f) (BufOp.ownOf m.arrays.own arg v >>= g) := by
  cases v with
  | buffer b =>
    cases hb : m.bufs.get b with
    | none =>
      have hown : m.arrays.own b = none := by
        simp only [Arrays.own, Mem.arrays, Store.map_get, hb, Option.map_none]
      have hx : couvCheckbuf arg (.buffer b) m =
          .error (.raise (.argError arg "couv.Buffer expected")) m := by
        simp only [couvCheckbuf, hb]
      simp only [BufOp.ownOf, hown]
      exact run_bind_error hx
    | some buf =>
      obtain ⟨bs, hs⟩ := hm.shows hb
      have hx : couvCheckbuf arg (.buffer b) m = .ok buf m := by
        simp only [couvCheckbuf, hb]
      simp only [BufOp.ownOf, hs.own]
      exact does_bind hx (h b buf bs rfl hs)
  | _ => exact run_bind_error rfl

end

/-! The numeric arguments. -/

theorem luaLCheckint_eq {arg : ℕ} {v : Value} (h : BufOp.NumArg v) :
    luaLCheckint arg v = luaLCheckinteger arg v := by
  unfold luaLCheckint luaLCheckinteger
  cases hv : luaTonumber v with
  | none => rfl
  | some n => exact congrArg Except.ok (cInt_eq_self (h n hv))

theorem luaLOptint_eq {arg : ℕ} {v : Value} {d d' : ℤ} (h : BufOp.NumArg v)
    (hd : cInt d = d') : luaLOptint arg v d = luaLOptlong arg v d' := by
  unfold luaLOptint luaLOptlong
  split
  · exact congrArg Except.ok hd
  · exact luaLCheckint_eq h

/-- Whether an optional argument is accepted does not depend on its default. -/
theorem luaLOptint_error_iff {arg : ℕ} {v : Value} (d d' : ℤ) (h : BufOp.NumArg v)
    (e : LuaError) : luaLOptint arg v d = .error e ↔ luaLOptlong arg v d' = .error e := by
  unfold luaLOptint luaLOptlong
  split
  · constructor <;> intro he <;> cases he
  · rw [luaLCheckint_eq h]

theorem inCInt_of {x : ℤ} (h0 : -2^31 ≤ x) (h1 : x < 2^31) : InCInt x := by
  unfold InCInt cIntMin cIntMax
  omega

theorem cInt_of {x : ℤ} (h0 : -2^31 ≤ x) (h1 : x < 2^31) : cInt x = x :=
  cInt_eq_self (inCInt_of h0 h1)

theorem cInt_len {len : ℕ} (h : len < 2^31) : cInt len = len := cInt_of (by omega) (by omega)

theorem cInt_len_sub {len k : ℕ} (h : len < 2^31) (hk : k < 2^31) :
    cInt (cInt len - k) = len-k := by
  rw [cInt_len h, cInt_of] <;> omega

/-! Groups of argument checks. -/

section
variable {m : Mem} {α β : Type}

/-- The two bounds that slice, fill and toString take. -/
theorem does_range {b : ℕ} {buf : CouvBuf} {bs : List UInt8} (hs : m.Shows b buf bs)
    (arg : ℕ) {first last : Value} (hf : BufOp.NumArg first) (hl : BufOp.NumArg last)
    {k : ℤ → ℤ → BufM α} {g : ℤ × ℤ → Except LuaError (α × Effect)}
    (h : ∀ f l : ℤ, 1 ≤ f → f ≤ l → l ≤ bs.length → Does m (k f l) (g (f, l))) :
    Does m (do
      let first ← BufM.check (luaLOptint arg first 1)
      let last ← BufM.check (luaLOptint (arg+1) last buf.len)
      BufM.check (couvArgcheckindex arg first 1 (cInt buf.len))
      BufM.check (couvArgcheckindex (arg+1) last first (cInt buf.len))
      k first last) (BufOp.rangeOf arg first last bs.length >>= g) := by
  have hlen := hs.len
  have hsmall : bs.length < 2^31 := hlen ▸ hs.small
  simp only [BufOp.rangeOf, bind_assoc, pure_bind, ← hlen, cInt_len hsmall]
  apply does_check (luaLOptint_eq hf (cInt_of (by omega) (by omega)))
  intro f _
  apply does_check (luaLOptint_eq hl (cInt_len hsmall))
  intro l _
  apply does_check rfl
  intro _ h1
  apply does_check rfl
  intro _ h2
  have h1 := couvArgcheckindex_ok h1
  have h2 := couvArgcheckindex_ok h2
  exact h f l h1.1 h2.1 h2.2

/-- A position and a length that defaults to the rest. The default is computed before the
position is checked, so it may wrap; then the check on the position raises. -/
theorem does_position {n : ℕ} (hn : n < 2^31) (argP argL : ℕ) {position len : Value}
    (hp : BufOp.NumArg position) (hl : BufOp.NumArg len) {d : ℤ → ℤ}
    (hd : ∀ p, cInt (d p) = cInt (n-p+1)) (mid : Except LuaError β) {k : ℤ → ℤ → β → BufM α}
    {g : ℤ → ℤ → β → Except LuaError (α × Effect)}
    (h : ∀ (p l : ℤ) c, 1 ≤ p → p ≤ n → 0 ≤ l → l ≤ n-p+1 → Does m (k p l c) (g p l c)) :
    Does m (do
      let position ← BufM.check (luaLOptint argP position 1)
      let len ← BufM.check (luaLOptint argL len (d position))
      let c ← BufM.check mid
      BufM.check (couvArgcheckindex argP position 1 (cInt n))
      BufM.check (couvArgcheckindex argL len 0 (cInt (cInt n - position + 1)))
      k position len c) (do
      let position ← luaLOptlong argP position 1
      let len ← luaLOptlong argL len (n-position+1)
      let c ← mid
      couvArgcheckindex argP position 1 n
      couvArgcheckindex argL len 0 (n-position+1)
      g position len c) := by
  simp only [cInt_len hn]
  apply does_check (luaLOptint_eq hp (cInt_of (by omega) (by omega)))
  intro p _
  -- the default of the length is narrowed to an int, which matters only for a bad position
  by_cases hr : 1 ≤ p ∧ p ≤ n
  · have hrest : cInt (n-p+1) = n-p+1 := cInt_of (by omega) (by omega)
    rw [hrest]
    apply does_check (luaLOptint_eq hl ((hd p).trans hrest))
    intro l _
    apply does_check rfl
    intro c _
    apply does_check rfl
    intro _ _
    apply does_check rfl
    intro _ h0
    have h0 := couvArgcheckindex_ok h0
    exact h p l c hr.1 hr.2 h0.1 h0.2
  · have hbad : couvArgcheckindex argP p 1 n = .error (.argError argP "index out of range") :=
      if_neg hr
    apply does_check_of_iff (luaLOptint_error_iff _ _ hl)
    intro l l'
    apply does_check rfl
    intro c _
    rw [hbad]
    exact BufM.bind_check_error m rfl

theorem does_position_plain {n : ℕ} (hn : n < 2^31) (argP argL : ℕ) {position len : Value}
    (hp : BufOp.NumArg position) (hl : BufOp.NumArg len) {k : ℤ → ℤ → BufM α}
    {g : ℤ → ℤ → Except LuaError (α × Effect)}
    (h : ∀ p l : ℤ, 1 ≤ p → p ≤ n → 0 ≤ l → l ≤ n-p+1 → Does m (k p l) (g p l)) :
    Does m (do
      let position ← BufM.check (luaLOptint argP position 1)
      let len ← BufM.check (luaLOptint argL len (n-position+1))
      BufM.check (couvArgcheckindex argP position 1 (cInt n))
      BufM.check (couvArgcheckindex argL len 0 (cInt (cInt n - position + 1)))
      k position len) (do
      let position ← luaLOptlong argP position 1
      let len ← luaLOptlong argL len (n-position+1)
      couvArgcheckindex argP position 1 n
      couvArgcheckindex argL len 0 (n-position+1)
      g position len) :=
  does_position hn argP argL hp hl (fun _ => rfl) (.ok ()) (fun p l _ => h p l)

end

/-! One lemma for each operation. -/

section
variable {m : Mem} (hm : m.Views)
include hm

theorem does_read (r : Reader) (self : Value) {pos : Value} (hp : BufOp.NumArg pos) :
    Does m (r.method self pos) (BufOp.specRead m.arrays.own r self pos) := by
  rw [r.method_eq]
  apply does_checkbuf hm
  intro b buf bs _ hs
  have hlen := hs.len
  have hsmall := hs.small
  have hw := r.width_pos
  apply does_check (luaLCheckint_eq hp)
  intro p _
  have hmax : cInt (cInt buf.len - (r.width-1 : ℕ)) = bs.length-r.width+1 := by
    rw [cInt_len_sub hsmall (by omega)]
    omega
  rw [hmax]
  apply does_check rfl
  intro _ hr
  obtain ⟨h1, h2⟩ := couvArgcheckindex_ok hr
  apply does_load hm hs (by omega) (by omega) (by omega)
  exact does_return hm _

theorem does_put (w : Writer) (self : Value) {pos : Value} (hp : BufOp.NumArg pos) :
    Does m (w.method self pos) (BufOp.specPut m.arrays.own w self pos) := by
  rw [w.method_eq]
  apply does_checkbuf hm
  intro b buf bs _ hs
  have hlen := hs.len
  have hsmall := hs.small
  have hw := w.width_pos
  apply does_check (luaLCheckint_eq hp)
  intro p _
  apply does_check rfl
  intro ys hys
  have hyl := w.bytes_length hys
  have hmax : cInt (cInt buf.len - (w.width-1 : ℕ)) = bs.length-w.width+1 := by
    rw [cInt_len_sub hsmall (by omega)]
    omega
  rw [hmax]
  apply does_check rfl
  intro _ hr
  obtain ⟨h1, h2⟩ := couvArgcheckindex_ok hr
  exact does_store hm hs (by omega) (by simp only [id_eq]; omega) _

theorem does_fill (self byte : Value) {first last : Value} (hf : BufOp.NumArg first)
    (hl : BufOp.NumArg last) {next : ℕ} :
    Does m (bufferFill self byte first last)
      ((BufOp.fill self byte first last).spec next m.arrays.own) := by
  apply does_checkbuf hm
  intro b buf bs _ hs
  apply does_check rfl
  intro byte _
  apply does_range hs 3 hf hl
  intro f l h1 h2 h3
  have hsize : cSizeT (l-f+1) = (l-f+1).toNat := by
    have := hs.len
    have := hs.small
    unfold cSizeT
    omega
  rw [hsize]
  exact does_store hm hs (by omega) (by rw [List.length_replicate]; omega) _

theorem does_toString (self : Value) {first last : Value} (hf : BufOp.NumArg first)
    (hl : BufOp.NumArg last) {next : ℕ} :
    Does m (bufferToString self first last)
      ((BufOp.toString self first last).spec next m.arrays.own) := by
  apply does_checkbuf hm
  intro b buf bs _ hs
  apply does_range hs 2 hf hl
  intro f l h1 h2 h3
  apply does_load hm hs (by omega) (by omega) (by omega)
  exact does_return hm _

theorem does_length (self : Value) {next : ℕ} :
    Does m (bufferLength self) ((BufOp.length self).spec next m.arrays.own) := by
  apply does_checkbuf hm
  intro b buf bs _ hs
  change Does m _ (.ok ([Value.number bs.length], .none))
  rw [hs.len]
  exact does_return hm _

theorem does_copy (self target : Value) {targetFirst sourceFirst sourceLast : Value}
    (ht : BufOp.NumArg targetFirst) (hf : BufOp.NumArg sourceFirst)
    (hl : BufOp.NumArg sourceLast) {next : ℕ} :
    Does m (bufferCopy self target targetFirst sourceFirst sourceLast)
      ((BufOp.copy self target targetFirst sourceFirst sourceLast).spec next m.arrays.own) := by
  apply does_checkbuf hm
  intro b buf bs _ hs
  apply does_checkbuf hm
  intro t tbuf ts _ hts
  have hlen := hs.len
  have htlen := hts.len
  have hsmall : bs.length < 2^31 := hlen ▸ hs.small
  have htsmall : ts.length < 2^31 := htlen ▸ hts.small
  rw [← hlen, ← htlen, cInt_len hsmall, cInt_len htsmall]
  have hone : cInt 1 = 1 := by decide
  apply does_check (luaLOptint_eq ht hone)
  intro tf _
  apply does_check (luaLOptint_eq hf hone)
  intro f _
  apply does_check (luaLOptint_eq hl (cInt_len hsmall))
  intro l _
  apply does_check rfl
  intro _ h1
  apply does_check rfl
  intro _ h2
  apply does_check rfl
  intro _ h3
  have h1 := couvArgcheckindex_ok h1
  have h2 := couvArgcheckindex_ok h2
  have h3 := couvArgcheckindex_ok h3
  -- the room in the target is at least one byte, so the length is positive
  have hroom : cInt (ts.length-tf+1) = ts.length-tf+1 := cInt_of (by omega) (by omega)
  rw [hroom]
  have hmin : (if l-f+1 > ts.length-tf+1 then ts.length-tf+1 else l-f+1) =
      min (l-f+1) (ts.length-tf+1) := by
    split <;> omega
  have hpos : 0 < min (l-f+1) (ts.length-tf+1) := by omega
  have hmem : (window bs (f-1).toNat (min (l-f+1) (ts.length-tf+1)).toNat).length =
      (min (l-f+1) (ts.length-tf+1)).toNat := window_length (by omega)
  simp only [hmin, gt_iff_lt, if_pos hpos]
  apply does_load hm hs (by omega) (by omega) (by omega)
  exact does_store hm hts (by omega) (by rw [hmem]; omega) _

theorem does_write (self : Value) {str : Except LuaError LuaString} {position len : Value}
    (hp : BufOp.NumArg position) (hl : BufOp.NumArg len)
    (hstr : ∀ s, str = .ok s → s.length < 2^31) {next : ℕ} :
    Does m (bufferWrite self str position len)
      ((BufOp.write self str position len).spec next m.arrays.own) := by
  apply does_checkbuf hm
  intro b buf bs _ hs
  apply does_check rfl
  intro s hs'
  have hsmall : bs.length < 2^31 := hs.len ▸ hs.small
  rw [← hs.len]
  apply does_position_plain hsmall 3 4 hp hl
  intro p l h1 h2 h3 h4
  have hslen := hstr s hs'
  have hmin : (if l > s.length then (s.length : ℤ) else l) = min l s.length := by
    split <;> omega
  simp only [cInt_len hslen, hmin, gt_iff_lt]
  -- a length of 0 stores nothing, as the view operation does
  by_cases hpos : 0 < min l s.length
  · rw [if_pos hpos]
    apply does_bind (by
      change (if 0 ≤ min l s.length ∧ min l s.length ≤ s.length then _ else _ : BufM _) m = _
      rw [if_pos (by omega)]
      exact BufM.pure_run _ m)
    exact does_store hm hs (by omega) (by rw [List.length_take]; omega) _
  · have hzero : (min l s.length).toNat = 0 := by omega
    rw [if_neg hpos]
    simp only [hzero, List.take_zero]
    exact ⟨m, rfl, (Arrays.apply_store_nil _ _ _).symm, hm⟩

theorem does_index (b : ℕ) {key : Value} (hk : ∀ s ∈ luaTolstring key, BufOp.NumArg (.string s))
    {next : ℕ} : Does m (bufferIndex b key) ((BufOp.index b key).spec next m.arrays.own) := by
  simp only [bufferIndex, BufOp.spec]
  apply does_check rfl
  intro s hs
  have hs : luaTolstring key = some s := by
    unfold luaLCheckstring at hs
    split at hs
    · next h => rw [h, Except.ok.inj hs]
    · cases hs
  split
  · exact does_return hm _
  · exact does_read hm .uint8 (.buffer b) (hk s hs)

theorem does_fsRead (fd buf : Value) {bufPos len fileOffset : Value} (data : List UInt8)
    (hp : BufOp.NumArg bufPos) (hl : BufOp.NumArg len) {next : ℕ} :
    Does m (BufOp.fsRead fd buf bufPos len fileOffset data).exec
      ((BufOp.fsRead fd buf bufPos len fileOffset data).spec next m.arrays.own) := by
  simp only [BufOp.exec, fsRead, bind_assoc]
  apply does_check rfl
  intro fd _
  apply does_checkbuf hm
  intro b buf bs _ hs
  have hsmall : bs.length < 2^31 := hs.len ▸ hs.small
  rw [← hs.len]
  apply does_position hsmall 3 4 hp hl (fun _ => rfl)
  intro p l off h1 h2 h3 h4
  simp only [pure_bind, uvFsReadStore]
  exact does_store hm hs (by omega) (by rw [List.length_take]; omega) _

/-- The range `buf` of fs.write holds the bytes `bs`. -/
structure Holds (m : Mem) (buf : UvBuf) (bs : List UInt8) : Prop where
  len : buf.len = bs.length
  small : bs.length < 2^31
  load : ∀ fd p l off : ℤ, 1 ≤ p → 0 ≤ l → p-1+l ≤ bs.length →
    uvFsWriteLoad ⟨fd, buf, p, l, off⟩ m = .ok (window bs (p-1).toNat l.toNat) m

omit hm in
theorem holds_str {s : LuaString} (h : s.length < 2^31) : Holds m (.str s) s where
  len := rfl
  small := h
  load fd p l off h1 h2 h3 := by
    change (if _ then _ else _ : BufM _) m = _
    rw [if_pos ⟨h1, h2, h3⟩]
    rfl

theorem holds_mem {b : ℕ} {buf : CouvBuf} {bs : List UInt8} (hs : m.Shows b buf bs) :
    Holds m (.mem buf.base buf.len) bs where
  len := hs.len.symm
  small := hs.len ▸ hs.small
  load _ p _ _ h1 h2 h3 := by
    have h0 : 0 ≤ p-1 := by omega
    exact hm.load hs h0 h2 h3

theorem does_checkbuforstr {α : Type} {arg : ℕ} {v : Value} (hv : BufOp.ShortStr v)
    {f : UvBuf → BufM α} {g : List UInt8 → Except LuaError (α × Effect)}
    (h : ∀ buf bs, Holds m buf bs → Does m (f buf) (g bs)) :
    Does m (couvCheckbuforstr arg v >>= f) (BufOp.ownOrStr m.arrays.own arg v >>= g) := by
  cases v with
  | string s => exact does_bind rfl (h (.str s) s (holds_str hv))
  | buffer b =>
    cases hb : m.bufs.get b with
    | none =>
      have hown : m.arrays.own b = none := by
        simp only [Arrays.own, Mem.arrays, Store.map_get, hb, Option.map_none]
      simp only [BufOp.ownOrStr, hown]
      refine run_bind_error ?_
      simp only [couvCheckbuforstr, couvTobuforstr, hb]
    | some buf =>
      obtain ⟨bs, hs⟩ := hm.shows hb
      obtain ⟨blk, _, off, -, -, -, -, hbase⟩ := hm b buf hb
      simp only [BufOp.ownOrStr, hs.own]
      refine does_bind ?_ (h (.mem buf.base buf.len) bs (holds_mem hm hs))
      simp only [couvCheckbuforstr, couvTobuforstr, hb, hbase, Option.map_some]
  | _ => exact run_bind_error rfl

theorem does_fsWrite (fd : Value) {buf bufPos len fileOffset : Value} (hb : BufOp.ShortStr buf)
    (hp : BufOp.NumArg bufPos) (hl : BufOp.NumArg len) {next : ℕ} :
    Does m (BufOp.fsWrite fd buf bufPos len fileOffset).exec
      ((BufOp.fsWrite fd buf bufPos len fileOffset).spec next m.arrays.own) := by
  simp only [BufOp.exec, fsWrite, bind_assoc]
  apply does_check rfl
  intro fd _
  apply does_checkbuforstr hm hb
  intro buf bs hbs
  have hwrap (p : ℤ) : cInt (cInt (cInt bs.length - p + 1)) = cInt (bs.length-p+1) := by
    rw [cInt_eq_self (cInt_mem _), cInt_len hbs.small]
  rw [hbs.len]
  apply does_position hbs.small 3 4 hp hl hwrap
  intro p l off h1 h2 h3 h4
  simp only [pure_bind]
  exact does_bind (hbs.load _ _ _ _ h1 h3 (by omega)) (does_return hm _)

/-- The memory after the allocation of a Buffer with a block of its own. -/
def Mem.withNew (m : Mem) (env : AllocEnv) (n : ℕ) : Mem :=
  { m with
    blocks := m.blocks.alloc ⟨1, n, env.junk⟩
    bufs := m.bufs.alloc ⟨some m.blocks.next, some ⟨m.blocks.next, 0⟩, n⟩ }

theorem withNew_views (env : AllocEnv) {n : ℕ} (hn : n < 2^31) : (m.withNew env n).Views := by
  intro b buf hb
  rw [Mem.withNew, Store.alloc_get] at hb
  split at hb
  · obtain rfl := Option.some.inj hb
    exact ⟨m.blocks.next, _, 0, Store.alloc_get_self _ _, by simp, hn, rfl, rfl⟩
  · obtain ⟨blk, bl, off, hbl, h⟩ := hm b buf hb
    exact ⟨blk, bl, off, Store.alloc_get_of_some _ hbl, h⟩

omit hm in
theorem withNew_arrays (env : AllocEnv) (n : ℕ) :
    (m.withNew env n).arrays = m.arrays.apply (.alloc ((List.range n).map env.junk)) := by
  simp only [Mem.arrays, Mem.withNew, Store.map_alloc, Arrays.apply, Block.bytes, CouvBuf.view,
    Option.getD_some, Option.map_some, Int.toNat_zero, Store.map_next, List.length_map,
    List.length_range]

omit hm in
/-- The statements of buffer_new up to the copy of the string. -/
theorem bufferNew_alloc {env : AllocEnv} (henv : env.ok = true) {n : ℕ} (hn : n < 2^63)
    {α : Type} (f : ℕ → ℕ → BufM α) :
    (do
      let b ← newBufUserdata env.uninit
      let blk ← couvBufMemAlloc env n
      setBufUserdata b ⟨some blk, some ⟨blk, 0⟩, n⟩
      f b blk : BufM α) m = f m.bufs.next m.blocks.next (m.withNew env n) := by
  have hsize : (couvBufMemHeader+n) % 2^64 = couvBufMemHeader+n :=
    Nat.mod_eq_of_lt (by unfold couvBufMemHeader; omega)
  have hnew : newBufUserdata env.uninit m =
      .ok m.bufs.next { m with bufs := m.bufs.alloc env.uninit } := rfl
  have hset (b : ℕ) (buf : CouvBuf) (m₁ : Mem) : setBufUserdata b buf m₁ =
      .ok () { m₁ with bufs := m₁.bufs.modify b (fun _ => buf) } := rfl
  have halloc (m₁ : Mem) : couvBufMemAlloc env n m₁ =
      .ok m₁.blocks.next { m₁ with blocks := m₁.blocks.alloc ⟨1, n, env.junk⟩ } := by
    simp only [couvBufMemAlloc, henv, hsize]
    rw [if_neg (by decide), if_neg (by omega), Nat.add_sub_cancel_left]
  rw [run_bind_ok hnew, run_bind_ok (halloc _), run_bind_ok (hset _ _ _)]
  simp only [Store.alloc_modify]
  rfl

omit hm in
theorem bufferNewArg_ok {arg : Value} (hstr : BufOp.ShortStr arg)
    (hnum : ∀ n ∈ arg.luaNumber, 0 ≤ n ∧ n < 2^31) {n : ℕ} {str : Option LuaString}
    (h : bufferNewArg arg = .ok (n, str)) : n < 2^31 ∧ ∀ s, str = some s → s.length = n := by
  unfold bufferNewArg at h
  split at h
  · next s =>
    obtain ⟨rfl, rfl⟩ := Prod.mk.inj (Except.ok.inj h)
    exact ⟨hstr, fun t ht => congrArg List.length (Option.some.inj ht).symm⟩
  · split at h
    · next x hx =>
      obtain ⟨rfl, rfl⟩ := Prod.mk.inj (Except.ok.inj h)
      have := hnum x hx
      exact ⟨by unfold cSizeT; omega, fun t ht => nomatch ht⟩
    · cases h

theorem does_new {env : AllocEnv} (henv : env.ok = true) {arg : Value}
    (hstr : BufOp.ShortStr arg) (hnum : ∀ n ∈ arg.luaNumber, 0 ≤ n ∧ n < 2^31) :
    Does m (bufferNew env arg) ((BufOp.new env arg).spec m.bufs.next m.arrays.own) := by
  apply does_check rfl
  rintro ⟨n, str⟩ hr
  obtain ⟨hn, hsn⟩ := bufferNewArg_ok hstr hnum hr
  have hv := withNew_views hm env hn
  cases str with
  | none => exact ⟨_, bufferNew_alloc henv (by omega) _, withNew_arrays env n, hv⟩
  | some s =>
    have hlen := hsn s rfl
    obtain ⟨bs, hs⟩ := hv.shows (Store.alloc_get_self _ _)
    have hbs : bs.length = n := hs.len
    obtain ⟨m', hst, ha, hv'⟩ := hv.store hs le_rfl (show 0+(s.length : ℤ) ≤ _ by omega)
    refine ⟨m', (bufferNew_alloc henv (by omega) _).trans (run_bind_ok hst), ?_, hv'⟩
    rw [ha, withNew_arrays]
    exact Arrays.apply_alloc_store _ (by simp [hlen])

theorem does_slice {env : AllocEnv} (self : Value) {first last : Value}
    (hf : BufOp.NumArg first) (hl : BufOp.NumArg last) :
    Does m (bufferSlice env self first last)
      ((BufOp.slice env self first last).spec m.bufs.next m.arrays.own) := by
  apply does_checkbuf hm
  intro b buf bs _ hs
  apply does_range hs 2 hf hl
  intro f l h1 h2 h3
  obtain ⟨blk, bl, off, hbl, hin, hsmall, ho, hbase⟩ := hm b buf hs.get
  have hlen := hs.len
  have hsize : cSizeT (l-f+1) = (l-f+1).toNat := by
    unfold cSizeT
    omega
  have hoff : (off : ℤ)+(f-1) = (off+(f-1).toNat : ℕ) := by omega
  let slice : CouvBuf := ⟨some blk, some ⟨blk, (off+(f-1).toNat : ℕ)⟩, (l-f+1).toNat⟩
  let retain (b : Block) : Block := { b with refCnt := cInt (bl.refCnt+1) }
  -- the C calls one by one: new userdata, retain, fill in
  have hret : couvBufMemRetain (some blk) { m with bufs := m.bufs.alloc env.uninit } =
      .ok () { m with
        blocks := m.blocks.modify blk retain
        bufs := m.bufs.alloc env.uninit } := by
    simp only [couvBufMemRetain, hbl, Mem.setRefCnt, retain]
  have hset : setBufUserdata m.bufs.next slice { m with
        blocks := m.blocks.modify blk retain
        bufs := m.bufs.alloc env.uninit } =
      .ok () { m with
        blocks := m.blocks.modify blk retain
        bufs := m.bufs.alloc slice } := by
    simp only [setBufUserdata, Store.alloc_modify]
  have hnew : newBufUserdata env.uninit m =
      .ok m.bufs.next { m with bufs := m.bufs.alloc env.uninit } := rfl
  simp only [ho, CouvBuf.at, hbase, Option.map_some, Ptr.add, hsize, hoff]
  refine ⟨_, (run_bind_ok hnew).trans ((run_bind_ok hret).trans (run_bind_ok hset)), ?_, ?_⟩
  · have hv : m.arrays.views.get b = some ⟨blk, off, buf.len⟩ := by
      simp only [Mem.arrays, Store.map_get, hs.get, Option.map_some, CouvBuf.view, ho, hbase,
        Option.getD_some, Int.toNat_natCast]
    simp only [Arrays.apply, hv]
    simp only [Mem.arrays, Store.map_alloc, View.sub, CouvBuf.view, slice, Option.getD_some,
      Option.map_some, Int.toNat_natCast, Arrays.mk.injEq, and_true]
    have hbytes (b : Block) : (retain b).bytes = b.bytes := rfl
    exact m.blocks.map_modify_of_eq Block.bytes hbytes blk
  · have hmod : Mem.Views { m with blocks := m.blocks.modify blk retain } :=
      hm.modify (fun _ => rfl)
    refine hmod.alloc ?_
    refine ⟨blk, retain bl, off+(f-1).toNat, Store.modify_get_self _ _ hbl, ?_, ?_, rfl, rfl⟩
    · change off+(f-1).toNat+(l-f+1).toNat ≤ bl.size
      omega
    · change (l-f+1).toNat < 2^31
      omega

/-- Every operation does what its specification on views says. -/
theorem exec_does {op : BufOp} (h : op.InRange) :
    Does m op.exec (op.spec m.bufs.next m.arrays.own) := by
  cases op with
  | new env arg => exact does_new hm h.1 h.2.1 h.2.2
  | slice env self first last => exact does_slice hm self h.2.1 h.2.2
  | fill self byte first last => exact does_fill hm self byte h.1 h.2
  | toString self first last => exact does_toString hm self h.1 h.2
  | copy self target tf f l => exact does_copy hm self target h.1 h.2.1 h.2.2
  | write self str position len =>
    refine does_write hm self h.1 h.2.1 ?_
    rintro s rfl
    exact h.2.2
  | length self => exact does_length hm self
  | read r self pos => exact does_read hm r self h
  | put w self pos => exact does_put hm w self h
  | index b key => exact does_index hm b h
  | newindex self pos value => exact does_put hm (.uint8 value) self h
  | fsRead fd buf p l off data => exact does_fsRead hm fd buf data h.1 h.2
  | fsWrite fd buf p l off => exact does_fsWrite hm fd h.1 h.2.1 h.2.2

end

/-- Buffers stay views on blocks in every run. -/
theorem bufMachine_views {m : Mem} (hm : m.Views) {ops : List BufOp}
    (h : bufMachine.Enabled m ops) : (bufMachine.run m ops).Views := by
  refine Machine.run_invariant ?_ hm h
  intro m op hm hop
  have hd := exec_does hm hop
  change (bufStep m op).Views
  unfold bufStep
  cases hs : op.spec m.bufs.next m.arrays.own with
  | error e =>
    rw [hs] at hd
    rw [show op.exec m = .error (.raise e) m from hd]
    exact hm
  | ok r =>
    rw [hs] at hd
    obtain ⟨m', hx, -, hv⟩ := hd
    rw [hx]
    exact hv

end Couv
