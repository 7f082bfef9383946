import Couv.CString
import Couv.LuaStack
import Couv.Requests
import Mathlib.Logic.Function.Basic

/-! fs.c: the table of names that readdir returns. -/
namespace Couv

/-- A slot of the stack of Lua. -/
inductive TableSlot
  | value (v : Value)
  | table (t : ℕ)
  deriving DecidableEq, Repr

/-- What a table has under the integers. -/
abbrev IntTable := ℤ → TableSlot

/-- `len` bytes from the offset `off` on. -/
structure ByteRange where
  off : ℕ
  len : ℕ
  deriving DecidableEq, Repr

/-- The stack, the tables, and what has been read of the entries, oldest first. -/
structure ReaddirState where
  stack : LuaStack TableSlot
  tables : Store IntTable
  reads : List ByteRange

namespace ReaddirState
variable (s : ReaddirState)

/-- `lua_createtable`, to which the sizes are hints. -/
def luaCreatetable : ReaddirState :=
  { s with
    stack := s.stack.push (.table s.tables.next)
    tables := s.tables.alloc fun _ => .value .nil }

def read (off len : ℕ) : ReaddirState := { s with reads := s.reads ++ [⟨off, len⟩] }

/-- `lua_rawseti`, which pops the value. -/
def luaRawseti (index i : ℤ) : Except Failure ReaddirState :=
  match s.stack.get index, s.stack.get (-1) with
  | some (.table t), some v =>
    .ok { s with
      stack := s.stack.pop 1
      tables := s.tables.modify t fun f => Function.update f i v }
  | _, _ => .error .fault

/-- The values on the stack, in order. -/
def pushValues (vs : List Value) : ReaddirState :=
  { s with stack := s.stack.pushAll (vs.map .value) }

end ReaddirState

section
variable (mem : List UInt8)

/-! A pointer is an offset from `entries`, and `mem` are the bytes from there to the end of the
block. -/

namespace ReaddirState
variable (s : ReaddirState)

/-- `strchr(p, c)` -/
def strchr (p : ℕ) (c : UInt8) : Except Failure (Option ℕ × ReaddirState) :=
  match Couv.strchr c (mem.drop p) with
  | some (found, n) => .ok (found.map (p + ·), s.read p n)
  | none => .error .fault

def luaPushlstring (p len : ℕ) : Except Failure ReaddirState :=
  if p+len ≤ mem.length then
    .ok { s.read p len with stack := s.stack.push (.value (.string ((mem.drop p).take len))) }
  else .error .fault

end ReaddirState

/-- The body of the loop of `fs_push_readdir_results`, with the `q` that it finds. -/
def readdirEntry (i : ℤ) (p : ℕ) (s : ReaddirState) : Except Failure (ℕ × ReaddirState) := do
  let (q, s) ← s.strchr mem p 0
  match q with
  | none => throw (.raise (.error "invalid readdir results"))
  | some q => do
    let s ← s.luaPushlstring mem p (q-p)
    let s ← s.luaRawseti (-2) i
    return (q, s)

/-- The loop from `i` and `p` on. No int comes after INT_MAX, so `++i` is undefined there. -/
def readdirLoop (entryCount i : ℤ) (p : ℕ) (s : ReaddirState) : Except Failure ReaddirState :=
  if i ≤ entryCount then do
    let (q, s) ← readdirEntry mem i p s
    if i = cIntMax then throw .fault
    readdirLoop entryCount (i+1) (q+1) s
  else .ok s
termination_by (entryCount+1-i).toNat

def fsPushReaddirResults (entryCount : ℤ) (s : ReaddirState) :
    Except Failure (ℕ × ReaddirState) := do
  let s ← readdirLoop mem entryCount 1 0 s.luaCreatetable
  return (1, s)

/-- `fs_push_common_results` of a readdir, before the request is cleaned up. `req->result` is
handed over as an int. -/
def fsPushCommonReaddir (o : Outcome) (s : ReaddirState) : Except Failure (ℕ × ReaddirState) :=
  if o.status < 0 then
    .ok ((fsError .readdir o).length, s.pushValues (fsError .readdir o))
  else do
    let (_, s) ← fsPushReaddirResults mem (cInt o.status) s
    return (1, s)

end

/-! Tables of strings. -/

/-- The strings under `i`, `i+1`, …. -/
def fillFrom (i : ℤ) : List LuaString → IntTable → IntTable
  | [], f => f
  | x :: xs, f => fillFrom (i+1) xs (Function.update f i (.value (.string x)))

/-- The strings are under 1, 2, …, and there is nothing else. -/
def stringTable (xs : List LuaString) : IntTable := fun k =>
  if 1 ≤ k then (xs[(k-1).toNat]?.map fun x => .value (.string x)).getD (.value .nil)
  else .value .nil

theorem fillFrom_of_lt {i k : ℤ} (xs : List LuaString) (f : IntTable) (h : k < i) :
    fillFrom i xs f k = f k := by
  induction xs generalizing i f with
  | nil => rfl
  | cons x xs ih => rw [fillFrom, ih _ (by omega), Function.update_of_ne h.ne]

theorem fillFrom_get (i : ℤ) (xs : List LuaString) (f : IntTable) (j : ℕ) :
    fillFrom i xs f (i+j) = (xs[j]?.map fun x => .value (.string x)).getD (f (i+j)) := by
  induction xs generalizing i j f with
  | nil => rfl
  | cons x xs ih =>
    rw [fillFrom]
    cases j with
    | zero =>
      have hi : i+(0 : ℕ) = i := add_zero i
      rw [hi, fillFrom_of_lt _ _ (Int.lt_succ i), Function.update_self]
      rfl
    | succ j =>
      have hj : i+(j+1 : ℕ) = i+1+j := by omega
      have hne : i+1+j ≠ i := by omega
      rw [hj, ih, Function.update_of_ne hne, List.getElem?_cons_succ]

theorem fillFrom_eq_stringTable (xs : List LuaString) :
    fillFrom 1 xs (fun _ => .value .nil) = stringTable xs := by
  funext k
  unfold stringTable
  split
  · next h =>
    obtain ⟨j, rfl⟩ : ∃ j : ℕ, k = 1+j := ⟨(k-1).toNat, by omega⟩
    have hj : (1+(j : ℤ)-1).toNat = j := by omega
    rw [fillFrom_get, hj]
  · next h => exact fillFrom_of_lt xs _ (by omega)

/-- A list is not longer than another with the same table. -/
theorem length_le_of_stringTable {xs ys : List LuaString} (h : stringTable xs = stringTable ys) :
    xs.length ≤ ys.length := by
  by_contra hlt
  have hk := congrFun h (1+ys.length)
  have hle : (1 : ℤ) ≤ 1+ys.length := by omega
  have hidx : (1+(ys.length : ℤ)-1).toNat = ys.length := by omega
  rw [stringTable, stringTable, if_pos hle, if_pos hle, hidx,
    List.getElem?_eq_getElem (not_le.mp hlt), List.getElem?_eq_none le_rfl] at hk
  cases hk

/-! The loop. -/

/-- What is read of the names from `p` on: each up to its NUL, and its characters once more. -/
def entryReads (p : ℕ) : List CText → List ByteRange
  | [] => []
  | t :: ts => [⟨p, t.stored.length⟩, ⟨p, t.bytes.length⟩] ++ entryReads (p+t.stored.length) ts

/-- Nothing behind the last NUL. -/
theorem entryReads_inside (ts : List CText) (p : ℕ) :
    ∀ r ∈ entryReads p ts, r.off+r.len ≤ p+(packed ts).length := by
  induction ts generalizing p with
  | nil => exact fun r hr => (List.not_mem_nil hr).elim
  | cons t ts ih =>
    intro r hr
    have hlen := t.stored_length
    rw [packed_cons, List.length_append]
    rcases List.mem_append.mp hr with hr | hr
    · rw [List.mem_pair] at hr
      rcases hr with rfl | rfl <;> dsimp only <;> omega
    · have h := ih (p+t.stored.length) r hr
      omega

section
variable {mem : List UInt8} (st : LuaStack TableSlot) (T : Store IntTable)

/-- The state in the loop: the new table is on the stack. -/
def filling (f : IntTable) (reads : List ByteRange) : ReaddirState :=
  ⟨st.push (.table T.next), T.alloc f, reads⟩

/-- One entry: its characters come under `i`, and it is read up to its NUL. -/
theorem readdirEntry_run {t : CText} {rest : List UInt8} {p : ℕ}
    (hmem : mem.drop p = t.stored ++ rest) (i : ℤ) (f : IntTable) (reads : List ByteRange) :
    readdirEntry mem i p (filling st T f reads) =
      .ok (p+t.bytes.length, filling st T (Function.update f i (.value (.string t.bytes)))
        (reads ++ [⟨p, t.stored.length⟩, ⟨p, t.bytes.length⟩])) := by
  have hlen := congrArg List.length hmem
  rw [List.length_drop, List.length_append, t.stored_length] at hlen
  have hin : p+t.bytes.length ≤ mem.length := by omega
  have htake : (mem.drop p).take t.bytes.length = t.bytes := by
    rw [hmem, CText.stored, List.append_assoc, List.take_left]
  have hstr : (filling st T f reads).strchr mem p 0 =
      .ok (some (p+t.bytes.length), filling st T f (reads ++ [⟨p, t.stored.length⟩])) := by
    rw [ReaddirState.strchr, hmem, strchr_stored]
    rfl
  have hpush : (filling st T f (reads ++ [⟨p, t.stored.length⟩])).luaPushlstring mem p
      (p+t.bytes.length-p) = .ok ⟨(st.push (.table T.next)).push (.value (.string t.bytes)),
        T.alloc f, reads ++ [⟨p, t.stored.length⟩, ⟨p, t.bytes.length⟩]⟩ := by
    rw [Nat.add_sub_cancel_left, ReaddirState.luaPushlstring, if_pos hin, htake, filling,
      ReaddirState.read, List.append_assoc]
    rfl
  have hset : ReaddirState.luaRawseti ⟨(st.push (.table T.next)).push (.value (.string t.bytes)),
      T.alloc f, reads ++ [⟨p, t.stored.length⟩, ⟨p, t.bytes.length⟩]⟩ (-2) i =
        .ok (filling st T (Function.update f i (.value (.string t.bytes)))
          (reads ++ [⟨p, t.stored.length⟩, ⟨p, t.bytes.length⟩])) := by
    simp only [ReaddirState.luaRawseti, LuaStack.get_second, LuaStack.get_top, Store.alloc_modify,
      LuaStack.pop_push, LuaStack.pop_zero, filling]
  simp only [readdirEntry, hstr, hpush, hset, bind, Except.bind, pure, Except.pure]

/-- One turn of the loop. -/
theorem readdirLoop_cons {t : CText} {rest : List UInt8} {p : ℕ}
    (hmem : mem.drop p = t.stored ++ rest) {count i : ℤ} (hi : i ≤ count) (f : IntTable)
    (reads : List ByteRange) : readdirLoop mem count i p (filling st T f reads) =
      if i = cIntMax then .error .fault
      else readdirLoop mem count (i+1) (p+t.stored.length)
        (filling st T (Function.update f i (.value (.string t.bytes)))
          (reads ++ [⟨p, t.stored.length⟩, ⟨p, t.bytes.length⟩])) := by
  rw [readdirLoop, if_pos hi, readdirEntry_run st T hmem, t.stored_length]
  by_cases hmax : i = cIntMax
  · rw [if_pos hmax]
    simp only [if_pos hmax]
    rfl
  · rw [if_neg hmax]
    simp only [if_neg hmax]
    rfl

/-- As many turns as there are names, below INT_MAX. -/
theorem readdirLoop_run {count : ℤ} (hmax : count < cIntMax) {rest : List UInt8}
    (ts : List CText) : ∀ {i : ℤ} {p : ℕ}, mem.drop p = packed ts ++ rest →
      ts.length = (count+1-i).toNat → ∀ (f : IntTable) (reads : List ByteRange),
        readdirLoop mem count i p (filling st T f reads) =
          .ok (filling st T (fillFrom i (ts.map CText.bytes) f) (reads ++ entryReads p ts)) := by
  induction ts with
  | nil =>
    intro i p _ hcount f reads
    rw [List.length_nil] at hcount
    rw [readdirLoop, if_neg (by omega), entryReads, List.append_nil]
    rfl
  | cons t ts ih =>
    intro i p hmem hcount f reads
    rw [List.length_cons] at hcount
    -- the cursor is at the start of a name before and after the turn
    obtain ⟨hname, hrest⟩ := drop_packed_cons hmem
    have hi : i ≤ count := by omega
    rw [readdirLoop_cons st T hname hi, if_neg (by omega), ih hrest (by omega),
      List.append_assoc]
    rfl

/-- With INT_MAX names all of them are read, and then `++i` overflows. -/
theorem readdirLoop_overflows {rest : List UInt8} (ts : List CText) :
    ∀ {i : ℤ} {p : ℕ}, mem.drop p = packed ts ++ rest → i+ts.length = cIntMax+1 → i ≤ cIntMax →
      ∀ (f : IntTable) (reads : List ByteRange),
        readdirLoop mem cIntMax i p (filling st T f reads) = .error .fault := by
  induction ts with
  | nil =>
    intro i p _ hcount hi
    rw [List.length_nil] at hcount
    omega
  | cons t ts ih =>
    intro i p hmem hcount hi f reads
    rw [List.length_cons] at hcount
    obtain ⟨hname, hrest⟩ := drop_packed_cons hmem
    rw [readdirLoop_cons st T hname hi]
    split
    · rfl
    · exact ih hrest (by omega) (by omega) _ _

end

/-! The call. -/

/-- What the call should leave: one new table on the stack, which has exactly the names, and no
read behind the last NUL. -/
structure NamesPushed (names : List CText) (s s' : ReaddirState) : Prop where
  stack : s'.stack = s.stack.push (.table s.tables.next)
  tables : s'.tables = s.tables.alloc (stringTable (names.map CText.bytes))
  reads : ∃ rs, s'.reads = s.reads ++ rs ∧ ∀ r ∈ rs, r.off+r.len ≤ (packed names).length

section
variable (names : List CText) (rest : List UInt8) (s : ReaddirState)

/-- The state with the table of the first names. -/
def ReaddirState.pushNames : ReaddirState :=
  ⟨s.stack.push (.table s.tables.next), s.tables.alloc (stringTable (names.map CText.bytes)),
    s.reads ++ entryReads 0 names⟩

theorem namesPushed_pushNames : NamesPushed names s (s.pushNames names) where
  stack := rfl
  tables := rfl
  reads := by
    refine ⟨_, rfl, ?_⟩
    intro r hr
    have h := entryReads_inside names 0 r hr
    omega

/-- A count below INT_MAX takes as many names. -/
theorem fsPushReaddirResults_run {count : ℤ} (hmax : count < cIntMax)
    (hcount : names.length = count.toNat) :
    fsPushReaddirResults (packed names ++ rest) count s = .ok (1, s.pushNames names) := by
  have hrun : readdirLoop (packed names ++ rest) count 1 0 s.luaCreatetable =
      .ok (filling s.stack s.tables (fillFrom 1 (names.map CText.bytes) fun _ => .value .nil)
        (s.reads ++ entryReads 0 names)) :=
    readdirLoop_run s.stack s.tables hmax names rfl (by omega) _ s.reads
  rw [fillFrom_eq_stringTable] at hrun
  rw [fsPushReaddirResults, hrun]
  rfl

theorem fsPushReaddirResults_overflows (hlen : names.length = cIntMax) :
    fsPushReaddirResults (packed names ++ rest) cIntMax s = .error .fault := by
  have hrun : readdirLoop (packed names ++ rest) cIntMax 1 0 s.luaCreatetable = .error .fault :=
    readdirLoop_overflows s.stack s.tables names rfl (by omega) (by decide) _ s.reads
  rw [fsPushReaddirResults, hrun]
  rfl

/-- The call does what it should exactly for fewer than INT_MAX names. With more, the count is
another number as an int, and names are missing from the table. -/
theorem readdir_decoded_iff : (∃ s', fsPushReaddirResults (packed names ++ rest)
    (cInt names.length) s = .ok (1, s') ∧ NamesPushed names s s') ↔ names.length < 2^31-1 := by
  constructor
  · rintro ⟨s', hrun, hs'⟩
    by_contra hge
    have hmem := cInt_mem names.length
    unfold InCInt cIntMin cIntMax at hmem
    obtain ⟨count, hcount⟩ : ∃ count, count = cInt names.length := ⟨_, rfl⟩
    rw [← hcount] at hrun hmem
    -- the call reads the first `count` names, whatever lies behind them
    have hsplit : packed names ++ rest =
        packed (names.take count.toNat) ++ (packed (names.drop count.toNat) ++ rest) := by
      rw [← List.append_assoc, ← packed_append, List.take_append_drop]
    have hlen : (names.take count.toNat).length = count.toNat :=
      List.length_take_of_le (by omega)
    rw [hsplit] at hrun
    rcases lt_or_eq_of_le hmem.2 with hlt | rfl
    -- fewer than all of them, so the table is shorter
    · rw [fsPushReaddirResults_run _ _ s hlt hlen] at hrun
      obtain rfl := (Prod.mk.inj (Except.ok.inj hrun)).2
      have htable := congrArg (fun T => T.get s.tables.next) hs'.tables
      simp only [ReaddirState.pushNames, Store.alloc_get_self] at htable
      have hle := length_le_of_stringTable (Option.some.inj htable).symm
      rw [List.length_map, List.length_map, hlen] at hle
      omega
    · have hfault := fsPushReaddirResults_overflows (names.take (2^31-1 : ℤ).toNat)
        (packed (names.drop (2^31-1 : ℤ).toNat) ++ rest) s (by rw [hlen]; rfl)
      cases hfault.symm.trans hrun
  · intro hlt
    have hcount : cInt names.length = names.length := cInt_eq_self (by
      unfold InCInt cIntMin cIntMax
      omega)
    rw [hcount]
    refine ⟨_, fsPushReaddirResults_run names rest s ?_ (Int.toNat_natCast _).symm,
      namesPushed_pushNames names s⟩
    unfold cIntMax
    omega

end

/-- As many empty names as an int can count. -/
def intMaxNames : List CText := List.replicate (2^31-1) ⟨[], List.not_mem_nil⟩

/-- All names have been put into the table when `++i` overflows. -/
theorem int_max_names_overflow : ¬∃ s', fsPushReaddirResults (packed intMaxNames ++ [])
    (cInt intMaxNames.length) ⟨⟨[]⟩, .empty, []⟩ = .ok (1, s') ∧
      NamesPushed intMaxNames ⟨⟨[]⟩, .empty, []⟩ s' := by
  have hlen : intMaxNames.length = 2^31-1 := List.length_replicate
  have hcount : cInt intMaxNames.length = cIntMax := by
    rw [hlen]
    decide
  rintro ⟨s', hrun, -⟩
  rw [hcount, fsPushReaddirResults_overflows _ _ _ (by rw [hlen]; decide)] at hrun
  cases hrun

/-! The results. -/

/-- The slot holds the value; a list of strings is a table. -/
def ReaddirState.Shows (s : ReaddirState) : Value → TableSlot → Prop
  | .strings xs, slot => ∃ t, slot = .table t ∧ s.tables.get t = some (stringTable xs)
  | v, slot => slot = .value v

/-- The values that a readdir completes with are what is made of the bytes at `req->ptr`. -/
theorem fsPushCommonReaddir_shows {o : Outcome} {names : List CText}
    (hentries : o.entries = names.map CText.bytes)
    (hstatus : 0 ≤ o.status → o.status = names.length) (hshort : names.length < 2^31-1)
    (rest : List UInt8) (s : ReaddirState) :
    ∃ s' slots, fsPushCommonReaddir (packed names ++ rest) o s = .ok (slots.length, s') ∧
      s'.stack = s.stack.pushAll slots ∧
      List.Forall₂ s'.Shows (fsPushCommonResults .readdir o) slots := by
  unfold fsPushCommonReaddir fsPushCommonResults
  split
  · refine ⟨_, (fsError .readdir o).map .value, by rw [List.length_map], rfl, ?_⟩
    exact .cons rfl (.cons rfl .nil)
  · next hneg =>
    have hcount : cInt o.status = o.status := cInt_eq_self (by
      unfold InCInt cIntMin cIntMax
      omega)
    have hmax : o.status < cIntMax := by
      unfold cIntMax
      omega
    have hrun := fsPushReaddirResults_run names rest s hmax (by omega)
    refine ⟨s.pushNames names, [.table s.tables.next], ?_, rfl, ?_⟩
    · rw [hcount, hrun]
      rfl
    · refine .cons ⟨_, rfl, ?_⟩ .nil
      rw [hentries]
      exact Store.alloc_get_self _ _

end Couv
