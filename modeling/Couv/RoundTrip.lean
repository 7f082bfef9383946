import Couv.Concat
import Couv.FsPaths

/-! What is put into a Buffer, a slice, a concatenation or a file comes out again. -/
namespace Couv

/-! Whole Buffers. -/

theorem optint_first : luaLOptint 2 .nil 1 = .ok 1 := rfl

theorem optint_last {len : ℕ} (hs : len < 2^31) : luaLOptint 3 .nil len = .ok (len : ℤ) :=
  congrArg Except.ok (cInt_len hs)

/-- The default range passes the checks when there are bytes. -/
theorem defaultRange_ok {len : ℕ} (hs : len < 2^31) (hpos : 0 < len) :
    couvArgcheckindex 2 1 1 (cInt len) = .ok () ∧
      couvArgcheckindex 3 len 1 (cInt len) = .ok () := by
  rw [cInt_len hs]
  exact ⟨if_pos (by omega), if_pos (by omega)⟩

section
variable {m : Mem} {b : ℕ} {buf : CouvBuf}

theorem toString_run (hb : m.ShortBuf b buf) (hpos : 0 < buf.len) :
    bufferToString (.buffer b) .nil .nil m = .ok [.string (m.shown buf 1 buf.len)] m := by
  have hsmall := hb.small
  obtain ⟨hfirst, hlast⟩ := defaultRange_ok hsmall hpos
  obtain ⟨hload, -⟩ := hb.load (f := 1) (k := buf.len) le_rfl hpos (by omega)
  have hlen : (buf.len : ℤ)-1+1 = buf.len := by omega
  unfold bufferToString
  rw [run_bind_ok (checkbuf_ok hb.get 1), BufM.bind_check_ok m optint_first,
    BufM.bind_check_ok m (optint_last hsmall), BufM.bind_check_ok m hfirst,
    BufM.bind_check_ok m hlast, hlen]
  exact run_bind_ok hload

/-- An empty Buffer has no position 1. -/
theorem toString_empty (hb : m.ShortBuf b buf) (hlen : buf.len = 0) :
    ∃ e, bufferToString (.buffer b) .nil .nil m = .error (.raise e) m := by
  unfold bufferToString
  rw [run_bind_ok (checkbuf_ok hb.get 1), BufM.bind_check_ok m optint_first,
    BufM.bind_check_ok m (optint_last hb.small), hlen]
  exact ⟨_, BufM.bind_check_error m rfl⟩

theorem slice_empty (env : AllocEnv) (hb : m.ShortBuf b buf) (hlen : buf.len = 0) :
    ∃ e, bufferSlice env (.buffer b) .nil .nil m = .error (.raise e) m := by
  unfold bufferSlice
  rw [run_bind_ok (checkbuf_ok hb.get 1), BufM.bind_check_ok m optint_first,
    BufM.bind_check_ok m (optint_last hb.small), hlen]
  exact ⟨_, BufM.bind_check_error m rfl⟩

/-- The default slice shows what the Buffer shows. -/
theorem slice_run (env : AllocEnv) (hb : m.ShortBuf b buf) (hpos : 0 < buf.len) :
    ∃ m' buf', bufferSlice env (.buffer b) .nil .nil m = .ok [.buffer m.bufs.next] m' ∧
      m'.ShortBuf m.bufs.next buf' ∧ buf'.len = buf.len ∧
      m'.shown buf' 1 buf.len = m.shown buf 1 buf.len := by
  have hsmall := hb.small
  obtain ⟨hfirst, hlast⟩ := defaultRange_ok hsmall hpos
  obtain ⟨blk, bl, off, hbl, hin, ho, hbase⟩ := hb.fits hpos
  -- the three steps of buffer_slice behind its checks: userdata, retain, fields
  have hnew : newBufUserdata env.uninit m =
      .ok m.bufs.next { m with bufs := m.bufs.alloc env.uninit } := rfl
  have hretain : couvBufMemRetain buf.orig { m with bufs := m.bufs.alloc env.uninit } =
      .ok () { m.setRefCnt blk (cInt (bl.refCnt+1)) with bufs := m.bufs.alloc env.uninit } := by
    simp only [couvBufMemRetain, ho, hbl, Mem.setRefCnt]
  have hset (buf' : CouvBuf) : setBufUserdata m.bufs.next buf'
      { m.setRefCnt blk (cInt (bl.refCnt+1)) with bufs := m.bufs.alloc env.uninit } =
      .ok () { m.setRefCnt blk (cInt (bl.refCnt+1)) with bufs := m.bufs.alloc buf' } := by
    simp only [setBufUserdata, Store.alloc_modify]
  have hsize : cSizeT ((buf.len : ℤ)-1+1) = buf.len := by
    unfold cSizeT
    omega
  have hget : (m.setRefCnt blk (cInt (bl.refCnt+1))).blocks.get blk =
      some { bl with refCnt := cInt (bl.refCnt+1) } := Store.modify_get_self _ _ hbl
  refine ⟨{ m.setRefCnt blk (cInt (bl.refCnt+1)) with
      bufs := m.bufs.alloc ⟨buf.orig, buf.at (1-1), buf.len⟩ },
    ⟨buf.orig, buf.at (1-1), buf.len⟩, ?_, ⟨?_, ?_, hsmall⟩, rfl, ?_⟩
  · unfold bufferSlice
    rw [run_bind_ok (checkbuf_ok hb.get 1), BufM.bind_check_ok m optint_first,
      BufM.bind_check_ok m (optint_last hsmall), BufM.bind_check_ok m hfirst,
      BufM.bind_check_ok m hlast, hsize]
    exact (run_bind_ok hnew).trans ((run_bind_ok hretain).trans (run_bind_ok (hset _)))
  · exact m.bufs.alloc_get_self _
  · intro _
    refine ⟨blk, _, off, hget, hin, ho, ?_⟩
    simp only [CouvBuf.at, hbase, Option.map_some, Ptr.add, sub_self, add_zero]
  · -- only the counter of the block has changed
    simp only [Mem.shown, CouvBuf.at, hbase, Option.map_some, Ptr.add, sub_self, add_zero]
    simp only [Mem.bytes, Mem.byte, hget, hbl]

end

/-! The round trips. -/

def newToString (env : AllocEnv) (s : LuaString) : BufM (List Value) := do
  let buf ← bufferNew env (.string s)
  bufferToString (buf.headD .nil) .nil .nil

def newSliceToString (env : AllocEnv) (s : LuaString) : BufM (List Value) := do
  let buf ← bufferNew env (.string s)
  let slice ← bufferSlice env (buf.headD .nil) .nil .nil
  bufferToString (slice.headD .nil) .nil .nil

def concatToString (env : AllocEnv) (items : List Value) : BufM (List Value) := do
  let buf ← bufferConcat env items .nil
  bufferToString (buf.headD .nil) .nil .nil

inductive RoundTrip
  | string (s : LuaString)
  | slice (s : LuaString)
  | concat (items : List Value)
  | fsWrite (fd : ℤ) (s : LuaString)

namespace RoundTrip

/-- What goes in. -/
def bytes (m : Mem) : RoundTrip → List UInt8
  | string s | slice s | fsWrite _ s => s
  | concat items => (items.map m.contents).flatten

/-- A string, or a list of strings and Buffers. -/
def Given (m : Mem) : RoundTrip → Prop
  | concat items => ∀ v ∈ items, m.IsData v
  | _ => True

/-- The same comes out, on the main thread and in a coroutine for fs.write. -/
def Kept (env : AllocEnv) (m : Mem) : RoundTrip → Prop
  | string s => ∃ m', newToString env s m = .ok [.string s] m'
  | slice s => ∃ m', newSliceToString env s m = .ok [.string s] m'
  | concat items => ∃ m', concatToString env items m =
    .ok [.string (items.map m.contents).flatten] m'
  | fsWrite fd s => ∃ b r,
    FsFn.write.branches m [.value (.number fd), .value (.string s)] = .ok b ∧
      b.sync = .write r ∧ b.async = .write r ∧ uvFsWriteLoad r m = .ok s m

/-- There is memory for the Buffer that is made, and every Buffer of a list has a base. -/
def Possible (env : AllocEnv) (m : Mem) : RoundTrip → Prop
  | string _ | slice _ => env.ok = true
  | concat items => env.ok = true ∧ ∃ buffers, couvCheckbuforstrtable items m = .ok buffers m
  | fsWrite _ _ => True

end RoundTrip

/-! Each of them. -/

/-- The Buffer that a call makes is turned into a string exactly when it has bytes. -/
theorem toString_of_made {x : BufM (List Value)} {m m₁ : Mem} {b : ℕ} {buf : CouvBuf}
    {bs : List UInt8} (hx : x m = .ok [.buffer b] m₁) (hb : m₁.ShortBuf b buf)
    (hshown : m₁.shown buf 1 buf.len = bs) :
    (∃ m', (x >>= fun r => bufferToString (r.headD .nil) .nil .nil) m = .ok [.string bs] m') ↔
      0 < buf.len := by
  rw [run_bind_ok hx]
  change (∃ m', bufferToString (.buffer b) .nil .nil m₁ = .ok [.string bs] m') ↔ _
  rcases Nat.eq_zero_or_pos buf.len with hlen | hpos
  · obtain ⟨e, he⟩ := toString_empty hb hlen
    refine iff_of_false ?_ (by omega)
    rintro ⟨m', h⟩
    cases he.symm.trans h
  · exact iff_of_true ⟨m₁, hshown ▸ toString_run hb hpos⟩ hpos

/-- A call that raises is not followed by another. -/
theorem not_ok_of_error {α : Type} {x : BufM (List Value)} {f : List Value → BufM α} {m m' : Mem}
    {e : Failure} (hx : x m = .error e m') (a : α) : ¬∃ m', (x >>= f) m = .ok a m' := by
  rintro ⟨m₁, h⟩
  cases (run_bind_error hx).symm.trans h

section
variable (env : AllocEnv) (m : Mem) {s : LuaString} (hs : s.length < 2^31)

theorem bufferNew_nomem (henv : env.ok = false) (s : LuaString) :
    ∃ e m', bufferNew env (.string s) m = .error e m' := by
  rcases bufferNew_cases env m (.string s) with ⟨e, he, -⟩ | ⟨n, str, -, ⟨-, hr⟩ | ⟨hno, -⟩⟩
  · cases he
  · exact ⟨_, _, hr⟩
  · exact absurd (.inl henv) hno

include hs

theorem string_kept_iff :
    (RoundTrip.string s).Kept env m ↔ s ≠ [] ∧ env.ok = true := by
  cases henv : env.ok with
  | false =>
    obtain ⟨e, m', hnew⟩ := bufferNew_nomem env m henv s
    exact iff_of_false (not_ok_of_error hnew _) (fun h => Bool.noConfusion h.2)
  | true =>
    have hshown := newBytes_shown m env (n := s.length) s le_rfl
    rw [List.take_length] at hshown
    have hmade := toString_of_made (newString_run m env henv (by omega))
      (newBytes_shortBuf m env s hs) hshown
    rw [and_iff_left rfl, ← List.length_pos_iff]
    exact hmade

theorem slice_kept_iff :
    (RoundTrip.slice s).Kept env m ↔ s ≠ [] ∧ env.ok = true := by
  cases henv : env.ok with
  | false =>
    obtain ⟨e, m', hnew⟩ := bufferNew_nomem env m henv s
    exact iff_of_false (not_ok_of_error hnew _) (fun h => Bool.noConfusion h.2)
  | true =>
    have hnew := newString_run m env henv (s := s) (by omega)
    have hb := newBytes_shortBuf m env s hs
    have hrun (r : List Value) : (∃ m', newSliceToString env s m = .ok r m') ↔
        ∃ m', (bufferSlice env (.buffer m.bufs.next) .nil .nil >>= fun sl =>
          bufferToString (sl.headD .nil) .nil .nil) (m.newBytes env s.length s) = .ok r m' := by
      unfold newSliceToString
      rw [run_bind_ok hnew]
      rfl
    rw [and_iff_left rfl, ← List.length_pos_iff, RoundTrip.Kept, hrun]
    -- slice has no bounds for the empty string
    rcases Nat.eq_zero_or_pos s.length with hlen | hpos
    · obtain ⟨e, he⟩ := slice_empty env hb hlen
      exact iff_of_false (not_ok_of_error he _) (by omega)
    · obtain ⟨m', buf', hslice, hb', hlen', hshown⟩ := slice_run env hb hpos
      have hstring := newBytes_shown m env (n := s.length) s le_rfl
      rw [List.take_length] at hstring
      rw [toString_of_made hslice hb' (by rw [hlen']; exact hshown.trans hstring), hlen']
      rfl

theorem fsWrite_string (fd : ℤ) (hpos : 0 < s.length) :
    fsWrite (.number fd) (.string s) .nil .nil .nil m =
      .ok ⟨cInt fd, .str s, 1, s.length, -1⟩ m := by
  have hbuf : couvCheckbuforstr 2 (.string s) m = .ok (.str s) m := rfl
  have hfirst : luaLOptint 3 .nil 1 = .ok 1 := rfl
  have hrest : cInt (cInt (UvBuf.str s).len - 1 + 1) = s.length := by
    rw [sub_add_cancel, UvBuf.len, cInt_len hs, cInt_len hs]
  have hlast : luaLOptint 4 .nil (cInt (cInt (UvBuf.str s).len - 1 + 1)) =
      .ok (s.length : ℤ) := by
    rw [hrest]
    exact congrArg Except.ok (cInt_len hs)
  have hpos1 : couvArgcheckindex 3 1 1 (cInt (UvBuf.str s).len) = .ok () :=
    if_pos ⟨le_rfl, by rw [UvBuf.len, cInt_len hs]; omega⟩
  have hpos2 : couvArgcheckindex 4 s.length 0 s.length = .ok () := if_pos ⟨by omega, le_rfl⟩
  unfold fsWrite
  rw [BufM.bind_check_ok m (rfl : luaLCheckint 1 (.number fd) = .ok (cInt fd)),
    run_bind_ok hbuf, BufM.bind_check_ok m hfirst, BufM.bind_check_ok m hlast,
    BufM.bind_check_ok m (rfl : luaLOptlong 5 .nil (-1) = .ok (-1)), hrest,
    BufM.bind_check_ok m hpos1, BufM.bind_check_ok m hpos2]
  rfl

omit hs in
theorem fsWrite_empty (fd : ℤ) :
    ∃ e, fsWrite (.number fd) (.string []) .nil .nil .nil m = .error e m :=
  ⟨_, rfl⟩

omit hs in
theorem write_branches_ok (args : List LuaArg) {r : FsRange} {m' : Mem}
    (h : fsWrite (argAt args 1).toValue (argAt args 2).toValue (argAt args 3).toValue
      (argAt args 4).toValue (argAt args 5).toValue m = .ok r m') :
    FsFn.write.branches m args = .ok ⟨.write r, .write r, .common⟩ := by
  simp only [FsFn.branches, h]

omit hs in
theorem write_branches_error (args : List LuaArg) {e : Failure} {m' : Mem}
    (h : fsWrite (argAt args 1).toValue (argAt args 2).toValue (argAt args 3).toValue
      (argAt args 4).toValue (argAt args 5).toValue m = .error e m') :
    FsFn.write.branches m args = .error e := by
  simp only [FsFn.branches, h]

theorem fsWrite_kept_iff (fd : ℤ) : (RoundTrip.fsWrite fd s).Kept env m ↔ s ≠ [] := by
  rcases Nat.eq_zero_or_pos s.length with hlen | hpos
  · obtain rfl := List.eq_nil_of_length_eq_zero hlen
    obtain ⟨e, he⟩ := fsWrite_empty m fd
    refine iff_of_false ?_ (fun h => h rfl)
    rintro ⟨b, r, h, -⟩
    cases (write_branches_error m [.value (.number fd), .value (.string [])] he).symm.trans h
  · refine iff_of_true ⟨_, _, write_branches_ok m [.value (.number fd), .value (.string s)]
      (fsWrite_string m hs fd hpos), rfl, rfl, ?_⟩ (List.length_pos_iff.mp hpos)
    have hin : (1 : ℤ) ≤ 1 ∧ (0 : ℤ) ≤ s.length ∧ (1 : ℤ)-1+s.length ≤ s.length := by omega
    simp only [uvFsWriteLoad, if_pos hin]
    simp only [sub_self, Int.toNat_zero, List.drop_zero, Int.toNat_natCast, List.take_length]
    rfl

end

theorem concat_kept_iff_possible (env : AllocEnv) {m : Mem} {items : List Value}
    (hd : ∀ v ∈ items, m.IsData v) (hlen : (items.map m.contents).flatten.length < 2^31) :
    (RoundTrip.concat items).Kept env m ↔ (items.map m.contents).flatten ≠ [] ∧
      (RoundTrip.concat items).Possible env m := by
  by_cases hp : (RoundTrip.concat items).Possible env m
  · obtain ⟨henv, buffers, hacc⟩ := hp
    obtain ⟨hr, hbytes, -⟩ := ranges_of_check hd hacc
    have hsum := concatBytes_length hr
    rw [hbytes] at hsum
    have hshort : lenSum buffers < 2^31 := by omega
    have hforward : concatForwards buffers 0 = (items.map m.contents).flatten.length := by
      rw [concatForwards, if_pos rfl, concatTotal_exact hshort, hsum]
    have hnone : luaLOptint 2 .nil 0 = .ok 0 := rfl
    have hrun := bufferConcat_run henv hacc hr (lenSum_short hshort) hnone hlen hforward
    rw [hbytes, List.take_length] at hrun
    have hshown := newBytes_shown m env (n := (items.map m.contents).flatten.length)
      (items.map m.contents).flatten le_rfl
    rw [List.take_length] at hshown
    rw [and_iff_left ⟨henv, buffers, hacc⟩, ← List.length_pos_iff]
    exact toString_of_made hrun (newBytes_shortBuf m env _ hlen) hshown
  · -- without memory, or with a Buffer without a base, concat raises
    have hbad : env.ok = false ∨ ¬∃ buffers, couvCheckbuforstrtable items m = .ok buffers m := by
      by_contra h
      obtain ⟨henv, hacc⟩ := not_or.mp h
      exact hp ⟨Bool.not_eq_false _ ▸ henv, not_not.mp hacc⟩
    obtain ⟨e, m', hr⟩ := bufferConcat_raises hbad
    exact iff_of_false (not_ok_of_error hr _) (fun h => hp h.2)

/-- What is put in comes out again exactly when it is not empty, there is memory for it, and no
Buffer of a list is without a base. -/
theorem round_trips (env : AllocEnv) (m : Mem) (x : RoundTrip) (hg : x.Given m)
    (hlen : (x.bytes m).length < 2^31) :
    x.Kept env m ↔ x.bytes m ≠ [] ∧ x.Possible env m := by
  cases x with
  | string s => exact string_kept_iff env m hlen
  | slice s => exact slice_kept_iff env m hlen
  | concat items => exact concat_kept_iff_possible env hg hlen
  | fsWrite fd s => exact (fsWrite_kept_iff env m hlen fd).trans (and_iff_left trivial).symm

theorem round_trips_nul : (RoundTrip.slice [0, 97]).Kept plenty .empty :=
  (round_trips plenty .empty (.slice [0, 97]) trivial (by decide)).mpr
    ⟨List.cons_ne_nil _ _, rfl⟩

/-- Buffer.new("") is made, but its toString() and slice() raise; so does fs.write(fd, ""). -/
theorem empty_raises : (∃ m', bufferNew plenty (.string []) .empty = .ok [.buffer 0] m' ∧
    bufferToString (.buffer 0) .nil .nil m' =
      .error (.raise (.argError 2 "index out of range")) m' ∧
    bufferSlice plenty (.buffer 0) .nil .nil m' =
      .error (.raise (.argError 2 "index out of range")) m') ∧
    FsFn.write.branches .empty [.value (.number 1), .value (.string [])] =
      .error (.raise (.argError 3 "index out of range")) ∧
    ¬(RoundTrip.string []).Kept plenty .empty := by
  refine ⟨⟨_, rfl, rfl, rfl⟩, rfl, ?_⟩
  rintro ⟨m', h⟩
  cases h

end Couv
