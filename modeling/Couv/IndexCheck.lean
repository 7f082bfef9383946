import Couv.IntMethods

/-! Which indices the methods of a Buffer accept. The numbers are narrowed to C ints before
they are compared with the length, itself narrowed to an int. -/
namespace Couv

/-- What the indices of a call have to satisfy. -/
inductive IndexBounds
  | position (count : ℤ)
  | range (len : ℤ)
  | copy (target source : ℤ)
  | part (len : ℤ)

namespace IndexBounds

def Holds : IndexBounds → List ℤ → Prop
  | position n, [p] => 1 ≤ p ∧ p ≤ n
  | range n, [first, last] => (1 ≤ first ∧ first ≤ n) ∧ first ≤ last ∧ last ≤ n
  | copy t s, [targetFirst, first, last] =>
    (1 ≤ targetFirst ∧ targetFirst ≤ t) ∧ (1 ≤ first ∧ first ≤ s) ∧ first ≤ last ∧ last ≤ s
  | part n, [p, len] => (1 ≤ p ∧ p ≤ n) ∧ 0 ≤ len ∧ len ≤ n-p+1
  | _, _ => False

def lens : IndexBounds → List ℤ
  | position n | range n | part n => [n]
  | copy t s => [t, s]

/-- The bounds after the conversion of the lengths to int. -/
def narrow : IndexBounds → IndexBounds
  | position n => position (cInt n)
  | range n => range (cInt n)
  | copy t s => copy (cInt t) (cInt s)
  | part n => part (cInt n)

/-- Every length is a C int. -/
def Short (B : IndexBounds) : Prop := ∀ n ∈ B.lens, InCInt n

/-- What lies above the low 32 bits, which `cInt` reads with a sign. -/
def cHigh (x : ℤ) : ℤ := x.bdiv (2^32)

/-- The condition for lengths that are no ints. When the low halves of the indices lie within the
low halves of the lengths, their high halves, which count from 0, have to lie within the high
halves of the lengths; when they do not, one of the indices has to be out of bounds. -/
def Halves : IndexBounds → List ℤ → Prop
  | position n, [p] =>
    if 1 ≤ cInt p ∧ cInt p ≤ cInt n then 0 ≤ cHigh p ∧ cHigh p ≤ cHigh n
    else p < 1 ∨ n < p
  | range n, [first, last] =>
    if 1 ≤ cInt first ∧ cInt first ≤ cInt last ∧ cInt last ≤ cInt n then
      0 ≤ cHigh first ∧ cHigh first ≤ cHigh last ∧ cHigh last ≤ cHigh n
    else first < 1 ∨ last < first ∨ n < last
  | copy t s, [targetFirst, first, last] =>
    if (1 ≤ cInt targetFirst ∧ cInt targetFirst ≤ cInt t) ∧
        1 ≤ cInt first ∧ cInt first ≤ cInt last ∧ cInt last ≤ cInt s then
      (0 ≤ cHigh targetFirst ∧ cHigh targetFirst ≤ cHigh t) ∧
        0 ≤ cHigh first ∧ cHigh first ≤ cHigh last ∧ cHigh last ≤ cHigh s
    else targetFirst < 1 ∨ t < targetFirst ∨ first < 1 ∨ last < first ∨ s < last
  | part n, [p, len] =>
    if (1 ≤ cInt p ∧ cInt p ≤ cInt n) ∧ 0 ≤ cInt len ∧ cInt p + cInt len ≤ cInt n + 1 then
      0 ≤ cHigh p ∧ 0 ≤ cHigh len ∧ cHigh p + cHigh len ≤ cHigh n
    else p < 1 ∨ n < p ∨ len < 0 ∨ n+1 < p+len
  | _, _ => True

/-- No other indices within the bounds have the low 32 bits of `is`; with a length that is no int
itself, the high halves fit where the low halves do. -/
def Unaliased (B : IndexBounds) (is : List ℤ) : Prop :=
  (B.Short → ∀ js, B.Holds js → List.Forall₂ (· ≡ · [ZMOD 2^32]) js is → js = is) ∧
    (¬B.Short → B.Halves is)

variable {B : IndexBounds} {is : List ℤ}

theorem Short.narrow (h : B.Short) : B.narrow = B := by
  cases B with
  | position n => exact congrArg position (cInt_eq_self (h n List.mem_cons_self))
  | range n => exact congrArg range (cInt_eq_self (h n List.mem_cons_self))
  | part n => exact congrArg part (cInt_eq_self (h n List.mem_cons_self))
  | copy t s =>
    exact congrArg₂ copy (cInt_eq_self (h t List.mem_cons_self))
      (cInt_eq_self (h s (List.mem_cons_of_mem _ List.mem_cons_self)))

/-- Indices within short bounds are ints. -/
theorem Short.indices (h : B.Short) (hb : B.Holds is) : ∀ i ∈ is, InCInt i := by
  unfold Short lens at h
  unfold InCInt cIntMin cIntMax at *
  unfold Holds at hb
  split at hb
  all_goals
    first
    | exact hb.elim
    | simp only [List.forall_mem_cons] at h ⊢
      simp only [List.not_mem_nil, false_implies, implies_true, and_true] at h ⊢
      omega

theorem map_cInt (h : ∀ i ∈ is, InCInt i) : is.map cInt = is := by
  rw [List.map_congr_left (fun i hi => cInt_eq_self (h i hi)), List.map_id']

theorem cInt_modEq (x : ℤ) : cInt x ≡ x [ZMOD 2^32] := Int.bmod_emod

theorem cInt_congr {x y : ℤ} (h : x ≡ y [ZMOD 2^32]) : cInt x = cInt y := by
  unfold cInt
  rw [← Int.emod_bmod x, ← Int.emod_bmod y]
  exact congrArg (Int.bmod · (2^32)) h

/-- A number is made of its halves. -/
theorem halves (x : ℤ) : x = cInt x + 2^32 * cHigh x ∧ -2^31 ≤ cInt x ∧ cInt x < 2^31 := by
  obtain ⟨h1, h2⟩ := cInt_mem x
  unfold cIntMin at h1
  unfold cIntMax at h2
  exact ⟨(Int.bmod_add_bdiv x (2^32)).symm, h1, by omega⟩

/-- What narrowing lengths and indices does is what their halves decide. -/
theorem halves_iff : (B.narrow.Holds (is.map cInt) ↔ B.Holds is) ↔ B.Halves is := by
  have hother : (False ↔ False) ↔ True := iff_of_true Iff.rfl trivial
  -- one case for each number of indices; the bounds hold of the right number only
  cases B with
  | position n =>
    rcases is with _ | ⟨p, _ | ⟨_, _⟩⟩
    · exact hother
    · have hn := halves n
      have hp := halves p
      simp only [narrow, List.map_cons, List.map_nil, Holds, Halves]
      split <;> omega
    · exact hother
  | range n =>
    rcases is with _ | ⟨first, _ | ⟨last, _ | ⟨_, _⟩⟩⟩
    · exact hother
    · exact hother
    · have hn := halves n
      have hfirst := halves first
      have hlast := halves last
      simp only [narrow, List.map_cons, List.map_nil, Holds, Halves]
      split <;> omega
    · exact hother
  | copy t s =>
    rcases is with _ | ⟨targetFirst, _ | ⟨first, _ | ⟨last, _ | ⟨_, _⟩⟩⟩⟩
    · exact hother
    · exact hother
    · exact hother
    · have ht := halves t
      have hs := halves s
      have htarget := halves targetFirst
      have hfirst := halves first
      have hlast := halves last
      simp only [narrow, List.map_cons, List.map_nil, Holds, Halves]
      split <;> omega
    · exact hother
  | part n =>
    rcases is with _ | ⟨p, _ | ⟨len, _ | ⟨_, _⟩⟩⟩
    · exact hother
    · exact hother
    · have hn := halves n
      have hp := halves p
      have hlen := halves len
      simp only [narrow, List.map_cons, List.map_nil, Holds, Halves]
      split <;> omega
    · exact hother

/-- When the conversion of the indices, and of lengths that are no ints, does not matter. -/
theorem narrow_iff : (B.narrow.Holds (is.map cInt) ↔ B.Holds is) ↔ B.Unaliased is := by
  unfold Unaliased
  by_cases hs : B.Short
  swap
  · exact ⟨fun h => ⟨fun h' => absurd h' hs, fun _ => halves_iff.mp h⟩,
      fun h => halves_iff.mpr (h.2 hs)⟩
  -- the conversion leaves short lengths as they are, so only the indices are narrowed
  rw [hs.narrow]
  constructor
  · intro h
    refine ⟨?_, fun h' => absurd hs h'⟩
    intro _ js hjs hmod
    -- numbers that agree modulo 2^32 are narrowed to the same int
    have hmap : is.map cInt = js := by
      rw [← map_cInt (hs.indices hjs)]
      clear h hjs
      induction hmod with
      | nil => rfl
      | cons hhead _ ih => rw [List.map_cons, List.map_cons, ih, cInt_congr hhead]
    have his : B.Holds is := h.mp (hmap ▸ hjs)
    rw [← hmap, map_cInt (hs.indices his)]
  · rintro ⟨h, -⟩
    refine ⟨?_, ?_⟩
    · intro hmap
      have heq := h hs _ hmap (List.forall₂_map_left_iff.mpr (List.forall₂_same.mpr
        (fun i _ => cInt_modEq i)))
      exact heq ▸ hmap
    · intro his
      rwa [map_cInt (hs.indices his)]

end IndexBounds

/-! The calls. -/

/-- An optional number. -/
def optNumber : Option ℤ → Value
  | some n => .number n
  | none => .nil

/-- A call of a method that takes indices, with integers for them. -/
inductive IndexedCall
  | read (r : Reader) (self : ℕ) (pos : ℤ)
  | put (w : Writer) (self : ℕ) (pos : ℤ)
  | slice (env : AllocEnv) (self : ℕ) (first last : Option ℤ)
  | fill (self : ℕ) (byte : ℤ) (first last : Option ℤ)
  | toString (self : ℕ) (first last : Option ℤ)
  | copy (self target : ℕ) (targetFirst sourceFirst sourceLast : Option ℤ)
  | write (self : ℕ) (str : LuaString) (position length : Option ℤ)
  | fsRead (fd : ℤ) (buf : ℕ) (bufPos length fileOffset : Option ℤ) (data : List UInt8)
  | fsWrite (fd : ℤ) (buf : Value) (bufPos length fileOffset : Option ℤ)

namespace IndexedCall

def op : IndexedCall → BufOp
  | read r self pos => .read r (.buffer self) (.number pos)
  | put w self pos => .put w (.buffer self) (.number pos)
  | slice env self first last => .slice env (.buffer self) (optNumber first) (optNumber last)
  | fill self byte first last =>
    .fill (.buffer self) (.number byte) (optNumber first) (optNumber last)
  | toString self first last => .toString (.buffer self) (optNumber first) (optNumber last)
  | copy self target targetFirst sourceFirst sourceLast =>
    .copy (.buffer self) (.buffer target) (optNumber targetFirst) (optNumber sourceFirst)
      (optNumber sourceLast)
  | write self str position len =>
    .write (.buffer self) (.ok str) (optNumber position) (optNumber len)
  | fsRead fd buf bufPos len fileOffset data =>
    .fsRead (.number fd) (.buffer buf) (optNumber bufPos) (optNumber len) (optNumber fileOffset)
      data
  | fsWrite fd buf bufPos len fileOffset =>
    .fsWrite (.number fd) buf (optNumber bufPos) (optNumber len) (optNumber fileOffset)

end IndexedCall

/-- The length of a string or a Buffer. -/
def Mem.lenOf (m : Mem) : Value → ℤ
  | .string s => s.length
  | .buffer b => ((m.bufs.get b).map (fun buf => (buf.len : ℤ))).getD 0
  | _ => 0

/-- A Buffer inside its block. -/
def Mem.HasBuf (m : Mem) (b : ℕ) : Prop := ∃ buf, m.bufs.get b = some buf ∧ m.Fits buf

namespace IndexedCall
variable (m : Mem)

/-- The other arguments are those the method expects. -/
def Given : IndexedCall → Prop
  | read _ self _ | slice _ self _ _ | fill self _ _ _ | toString self _ _ | write self _ _ _ =>
    m.HasBuf self
  | put w self _ => m.HasBuf self ∧ ∃ bs, w.bytes = .ok bs
  | copy self target _ _ _ => m.HasBuf self ∧ m.HasBuf target
  | fsRead _ buf _ _ _ _ => m.HasBuf buf
  | fsWrite _ buf _ _ _ => (∃ s, buf = .string s) ∨ ∃ b, buf = .buffer b ∧ m.HasBuf b

def bounds : IndexedCall → IndexBounds
  | read r self _ => .position (m.lenOf (.buffer self) - r.width + 1)
  | put w self _ => .position (m.lenOf (.buffer self) - w.width + 1)
  | slice _ self _ _ | fill self _ _ _ | toString self _ _ => .range (m.lenOf (.buffer self))
  | copy self target _ _ _ => .copy (m.lenOf (.buffer target)) (m.lenOf (.buffer self))
  | write self _ _ _ => .part (m.lenOf (.buffer self))
  | fsRead _ buf _ _ _ _ => .part (m.lenOf (.buffer buf))
  | fsWrite _ buf _ _ _ => .part (m.lenOf buf)

/-- The range that a call asks for, an absent bound being the first or the last position. -/
def range (len : ℤ) (first last : Option ℤ) : List ℤ := [first.getD 1, last.getD len]

/-- The part that a call asks for; an absent length is that of the rest. -/
def part (len : ℤ) (position length : Option ℤ) : List ℤ :=
  [position.getD 1, length.getD (len - position.getD 1 + 1)]

def indices : IndexedCall → List ℤ
  | read _ _ pos | put _ _ pos => [pos]
  | slice _ self first last | fill self _ first last | toString self first last =>
    range (m.lenOf (.buffer self)) first last
  | copy self _ targetFirst sourceFirst sourceLast =>
    targetFirst.getD 1 :: range (m.lenOf (.buffer self)) sourceFirst sourceLast
  | write self _ position len => part (m.lenOf (.buffer self)) position len
  | fsRead _ buf bufPos len _ _ => part (m.lenOf (.buffer buf)) bufPos len
  | fsWrite _ buf bufPos len _ => part (m.lenOf buf) bufPos len

end IndexedCall

/-- The call returns when `P` holds and raises the index error otherwise. -/
def Decides (m : Mem) (x : BufM (List Value)) (P : Prop) : Prop :=
  (P → ∃ vs m', x m = .ok vs m') ∧
    (¬P → ∃ arg, x m = .error (.raise (.argError arg "index out of range")) m)

section
variable {α : Type} {m : Mem} {x y : BufM (List Value)} {P Q : Prop}

theorem decides_iff (h : Decides m x P) : Decides m x Q ↔ (P ↔ Q) := by
  constructor
  · intro h'
    refine ⟨?_, ?_⟩
    · intro hp
      by_contra hq
      obtain ⟨vs, m', hok⟩ := h.1 hp
      obtain ⟨arg, herr⟩ := h'.2 hq
      cases hok.symm.trans herr
    · intro hq
      by_contra hp
      obtain ⟨vs, m', hok⟩ := h'.1 hq
      obtain ⟨arg, herr⟩ := h.2 hp
      cases hok.symm.trans herr
  · rintro h'
    rwa [← h']

theorem decides_of_eq (hx : x m = y m) (h : Decides m y P) : Decides m x P := by
  unfold Decides at *
  rwa [hx]

theorem decides_bind {z : BufM α} {a : α} {f : α → BufM (List Value)} (hz : z m = .ok a m)
    (h : Decides m (f a) P) : Decides m (z >>= f) P :=
  decides_of_eq (run_bind_ok hz) h

theorem decides_check {z : Except LuaError α} {a : α} {f : α → BufM (List Value)}
    (hz : z = .ok a) (h : Decides m (f a) P) : Decides m (BufM.check z >>= f) P :=
  decides_bind (BufM.check_ok hz m) h

/-- One index check, then the rest of the call. -/
theorem decides_index {arg : ℕ} {i lo hi : ℤ} {f : Unit → BufM (List Value)}
    (h : lo ≤ i ∧ i ≤ hi → Decides m (f ()) P) :
    Decides m (BufM.check (couvArgcheckindex arg i lo hi) >>= f) ((lo ≤ i ∧ i ≤ hi) ∧ P) := by
  by_cases hi : lo ≤ i ∧ i ≤ hi
  · rw [and_iff_right hi]
    exact decides_check (if_pos hi) (h hi)
  · refine ⟨fun h' => absurd h'.1 hi, fun _ => ⟨arg, ?_⟩⟩
    exact BufM.bind_check_error m (if_neg hi)

/-- The last index check. -/
theorem decides_last {arg : ℕ} {i lo hi : ℤ} {f : Unit → BufM (List Value)}
    (h : lo ≤ i ∧ i ≤ hi → ∃ vs m', f () m = .ok vs m') :
    Decides m (BufM.check (couvArgcheckindex arg i lo hi) >>= f) (lo ≤ i ∧ i ≤ hi) := by
  refine ⟨?_, fun hi => ⟨arg, BufM.bind_check_error m (if_neg hi)⟩⟩
  intro hi
  obtain ⟨vs, m', hf⟩ := h hi
  exact ⟨vs, m', (BufM.bind_check_ok m (if_pos hi)).trans hf⟩

end

section
variable (arg : ℕ)

theorem checkint_number (n : ℤ) : luaLCheckint arg (.number n) = .ok (cInt n) := rfl

theorem optint_number (o : Option ℤ) (d : ℤ) :
    luaLOptint arg (optNumber o) d = .ok (cInt (o.getD d)) := by
  cases o <;> rfl

theorem optlong_number (o : Option ℤ) (d : ℤ) :
    luaLOptlong arg (optNumber o) d = .ok (o.getD d) := by
  cases o <;> rfl

end

/-! The checks that each method makes are the bounds on the narrowed numbers; what passes them
lies in the block. -/

theorem cInt_le_self {x : ℤ} (h : -2^31 ≤ x) : cInt x ≤ x := by
  by_cases hx : x < 2^31
  · exact (cInt_of h hx).le
  · have := (cInt_mem x).2
    unfold cIntMax at this
    omega

theorem cInt_cInt_sub (x y : ℤ) : cInt (cInt x - y) = cInt (x - y) :=
  IndexBounds.cInt_congr ((IndexBounds.cInt_modEq x).sub_right y)

theorem cInt_rest (x p : ℤ) : cInt (x - cInt p + 1) = cInt (x - p + 1) :=
  IndexBounds.cInt_congr (((IndexBounds.cInt_modEq p).sub_left x).add_right 1)

section
variable {m : Mem} {b : ℕ} {buf : CouvBuf} (hb : m.bufs.get b = some buf) (hf : m.Fits buf)

include hf in
theorem Mem.Fits.load_ok {i n : ℤ} (h0 : 0 ≤ i) (hn : 0 ≤ n) (h : i+n ≤ buf.len) :
    ∃ bs, memLoad (buf.at i) n m = .ok bs m := by
  obtain ⟨q, hq, -, hin⟩ := hf.at_inBlock (n := n.toNat) h0 (by omega)
  exact ⟨_, by rw [hq]; exact if_pos ⟨hn, hin⟩⟩

include hf in
theorem Mem.Fits.store_ok {i : ℤ} (bs : List UInt8) (h0 : 0 ≤ i) (h : i+bs.length ≤ buf.len) :
    ∃ m', memStore (buf.at i) bs m = .ok () m' := by
  obtain ⟨q, hq, -, hin⟩ := hf.at_inBlock h0 h
  exact ⟨_, by rw [hq]; exact if_pos hin⟩

include hb in
theorem Mem.lenOf_buffer : m.lenOf (.buffer b) = buf.len := by
  simp only [Mem.lenOf, hb, Option.map_some, Option.getD_some]

include hb in
/-- The position that is checked for an item of `width` bytes. -/
theorem decides_position {width : ℕ} (hw : 1 ≤ width ∧ width ≤ 8) (p : ℤ)
    {f : Unit → BufM (List Value)}
    (h : 1 ≤ cInt p → cInt p - 1 + width ≤ buf.len → ∃ vs m', f () m = .ok vs m') :
    Decides m
      (BufM.check (couvArgcheckindex 2 (cInt p) 1 (cInt (cInt buf.len-(width-1 : ℕ)))) >>= f)
      (1 ≤ cInt p ∧ cInt p ≤ cInt (m.lenOf (.buffer b) - width + 1)) := by
  have hcount : cInt (cInt buf.len-(width-1 : ℕ)) = cInt (buf.len-width+1) := by
    rw [cInt_cInt_sub]
    congr 1
    omega
  rw [hcount, Mem.lenOf_buffer hb]
  apply decides_last
  intro hp
  have := cInt_le_self (show -2^31 ≤ (buf.len-width+1 : ℤ) by omega)
  exact h hp.1 (by omega)

include hb hf in
theorem decides_read (r : Reader) (p : ℤ) :
    Decides m (r.method (.buffer b) (.number p))
      (1 ≤ cInt p ∧ cInt p ≤ cInt (m.lenOf (.buffer b) - r.width + 1)) := by
  rw [r.method_eq]
  apply decides_bind (checkbuf_ok hb 1)
  apply decides_check (checkint_number 2 p)
  apply decides_position hb r.width_pos
  intro h1 hn
  obtain ⟨bs, hload⟩ := hf.load_ok (show 0 ≤ cInt p - 1 by omega) (Int.natCast_nonneg r.width) hn
  exact ⟨_, _, run_bind_ok hload⟩

include hb hf in
theorem decides_put (w : Writer) {bs : List UInt8} (hw : w.bytes = .ok bs) (p : ℤ) :
    Decides m (w.method (.buffer b) (.number p))
      (1 ≤ cInt p ∧ cInt p ≤ cInt (m.lenOf (.buffer b) - w.width + 1)) := by
  rw [w.method_eq]
  apply decides_bind (checkbuf_ok hb 1)
  apply decides_check (checkint_number 2 p)
  apply decides_check hw
  apply decides_position hb w.width_pos
  intro h1 hn
  rw [← w.bytes_length hw] at hn
  obtain ⟨m', hstore⟩ := hf.store_ok bs (show 0 ≤ cInt p - 1 by omega) hn
  exact ⟨_, _, run_bind_ok hstore⟩

include hb in
/-- The two bounds of slice, fill and toString. -/
theorem decides_range (arg : ℕ) (first last : Option ℤ) {k : ℤ → ℤ → BufM (List Value)}
    (h : ∀ f l : ℤ, 1 ≤ f → f ≤ l → l ≤ buf.len → l < 2^31 → ∃ vs m', k f l m = .ok vs m') :
    Decides m (do
      let first ← BufM.check (luaLOptint arg (optNumber first) 1)
      let last ← BufM.check (luaLOptint (arg+1) (optNumber last) buf.len)
      BufM.check (couvArgcheckindex arg first 1 (cInt buf.len))
      BufM.check (couvArgcheckindex (arg+1) last first (cInt buf.len))
      k first last)
      ((IndexBounds.range (m.lenOf (.buffer b))).narrow.Holds
        ((IndexedCall.range (m.lenOf (.buffer b)) first last).map cInt)) := by
  rw [Mem.lenOf_buffer hb]
  apply decides_check (optint_number _ _ _)
  apply decides_check (optint_number _ _ _)
  apply decides_index
  intro h1
  apply decides_last
  intro h2
  have hle := cInt_le buf.len
  have hmax := (cInt_mem buf.len).2
  unfold cIntMax at hmax
  exact h _ _ h1.1 h2.1 (by omega) (by omega)

/-- The position and the length that write, fs.read and fs.write check. -/
theorem decides_part (n : ℕ) (argP argL : ℕ) {p l p' l' : ℤ} (hp : p' = cInt p) (hl : l' = cInt l)
    {f : BufM (List Value)}
    (h : 1 ≤ p' → 0 ≤ l' → p'-1+l' ≤ n → l' < 2^31 → ∃ vs m', f m = .ok vs m') :
    Decides m (do
      BufM.check (couvArgcheckindex argP p' 1 (cInt n))
      BufM.check (couvArgcheckindex argL l' 0 (cInt (cInt n - p' + 1)))
      f) ((IndexBounds.part n).narrow.Holds ([p, l].map cInt)) := by
  subst hp hl
  apply decides_index
  intro h1
  have hle := cInt_le n
  have hmax := (cInt_mem n).2
  unfold cIntMax at hmax
  -- the room behind the position is an int
  have hrest : cInt (cInt n - cInt p + 1) = cInt n - cInt p + 1 := cInt_of (by omega) (by omega)
  rw [hrest]
  apply decides_last
  intro h2
  exact h h1.1 h2.1 (by omega) (by omega)

theorem getD_rest (o : Option ℤ) (n p : ℤ) :
    cInt (o.getD (n - cInt p + 1)) = cInt (o.getD (n - p + 1)) := by
  cases o with
  | some v => rfl
  | none => exact cInt_rest n p

/-- fs.write computes the default from the length as an int. -/
theorem getD_intRest (o : Option ℤ) (n p : ℤ) :
    cInt (o.getD (cInt (cInt n - cInt p + 1))) = cInt (o.getD (n - p + 1)) := by
  cases o with
  | some v => rfl
  | none =>
    refine IndexBounds.cInt_congr ((IndexBounds.cInt_modEq _).trans ?_)
    exact ((IndexBounds.cInt_modEq n).sub (IndexBounds.cInt_modEq p)).add_right 1

include hb hf

theorem decides_slice (env : AllocEnv) (first last : Option ℤ) :
    Decides m (bufferSlice env (.buffer b) (optNumber first) (optNumber last))
      ((IndexBounds.range (m.lenOf (.buffer b))).narrow.Holds
        ((IndexedCall.range (m.lenOf (.buffer b)) first last).map cInt)) := by
  apply decides_bind (checkbuf_ok hb 1)
  apply decides_range hb
  intro f l _ _ _ _
  obtain ⟨blk, bl, off, hbl, -, ho, -⟩ := hf
  have hnew : newBufUserdata env.uninit m =
      .ok m.bufs.next { m with bufs := m.bufs.alloc env.uninit } := rfl
  have hretain : couvBufMemRetain buf.orig { m with bufs := m.bufs.alloc env.uninit } = .ok ()
      ({ m with bufs := m.bufs.alloc env.uninit }.setRefCnt blk (cInt (bl.refCnt+1))) := by
    simp only [couvBufMemRetain, ho, hbl]
  exact ⟨_, _, (run_bind_ok hnew).trans ((run_bind_ok hretain).trans rfl)⟩

theorem decides_fill (byte : ℤ) (first last : Option ℤ) :
    Decides m (bufferFill (.buffer b) (.number byte) (optNumber first) (optNumber last))
      ((IndexBounds.range (m.lenOf (.buffer b))).narrow.Holds
        ((IndexedCall.range (m.lenOf (.buffer b)) first last).map cInt)) := by
  apply decides_bind (checkbuf_ok hb 1)
  apply decides_check (checkint_number 2 byte)
  apply decides_range hb
  intro f l h1 h2 h3 h4
  obtain ⟨m', hstore⟩ := hf.store_ok
    (List.replicate (cSizeT (l-f+1)) (toUchar (BitVec.ofInt 32 (cInt byte))))
    (show 0 ≤ f-1 by omega) (by rw [List.length_replicate, cSizeT]; omega)
  exact ⟨_, _, run_bind_ok hstore⟩

theorem decides_toString (first last : Option ℤ) :
    Decides m (bufferToString (.buffer b) (optNumber first) (optNumber last))
      ((IndexBounds.range (m.lenOf (.buffer b))).narrow.Holds
        ((IndexedCall.range (m.lenOf (.buffer b)) first last).map cInt)) := by
  apply decides_bind (checkbuf_ok hb 1)
  apply decides_range hb
  intro f l h1 h2 h3 h4
  obtain ⟨bs, hload⟩ := hf.load_ok (show 0 ≤ f-1 by omega) (show 0 ≤ l-f+1 by omega) (by omega)
  exact ⟨_, _, run_bind_ok hload⟩

theorem decides_write (str : LuaString) (position len : Option ℤ) :
    Decides m (bufferWrite (.buffer b) (.ok str) (optNumber position) (optNumber len))
      ((IndexBounds.part (m.lenOf (.buffer b))).narrow.Holds
        ((IndexedCall.part (m.lenOf (.buffer b)) position len).map cInt)) := by
  rw [Mem.lenOf_buffer hb]
  apply decides_bind (checkbuf_ok hb 1)
  apply decides_check rfl
  apply decides_check (optint_number _ _ _)
  apply decides_check (optint_number _ _ _)
  apply decides_part buf.len 3 4 rfl (getD_rest _ _ _)
  intro h1 h2 h3 _
  generalize cInt (len.getD (buf.len - cInt (position.getD 1) + 1)) = l at h2 h3 ⊢
  have hstr := cInt_le str.length
  have hmin : (if l > cInt str.length then cInt str.length else l) ≤ l ∧
      (if l > cInt str.length then cInt str.length else l) ≤ str.length := by
    split <;> omega
  generalize (if l > cInt str.length then cInt str.length else l) = n at hmin ⊢
  -- for a length of 0 nothing is touched
  by_cases hn : n > 0
  swap
  · exact ⟨[.number n], m, by simp only [if_neg hn]; rfl⟩
  have hload : (UvBuf.str str).load n m = .ok (str.take n.toNat) m := by
    simp only [UvBuf.load, if_pos (show 0 ≤ n ∧ n ≤ str.length by omega), BufM.pure_run]
  obtain ⟨m', hstore⟩ := hf.store_ok (str.take n.toNat)
    (show 0 ≤ cInt (position.getD 1) - 1 by omega) (by rw [List.length_take]; omega)
  refine ⟨[.number n], m', ?_⟩
  simp only [if_pos hn]
  exact (run_bind_ok hload).trans (run_bind_ok hstore)

theorem decides_copy {t : ℕ} {target : CouvBuf} (ht : m.bufs.get t = some target)
    (hft : m.Fits target) (targetFirst sourceFirst sourceLast : Option ℤ) :
    Decides m (bufferCopy (.buffer b) (.buffer t) (optNumber targetFirst) (optNumber sourceFirst)
        (optNumber sourceLast))
      ((IndexBounds.copy (m.lenOf (.buffer t)) (m.lenOf (.buffer b))).narrow.Holds
        ((targetFirst.getD 1 ::
          IndexedCall.range (m.lenOf (.buffer b)) sourceFirst sourceLast).map cInt)) := by
  rw [Mem.lenOf_buffer hb, Mem.lenOf_buffer ht]
  apply decides_bind (checkbuf_ok hb 1)
  apply decides_bind (checkbuf_ok ht 2)
  apply decides_check (optint_number _ _ _)
  apply decides_check (optint_number _ _ _)
  apply decides_check (optint_number _ _ _)
  apply decides_index
  intro h1
  apply decides_index
  intro h2
  apply decides_last
  intro h3
  have hle := cInt_le buf.len
  have htle := cInt_le target.len
  have htmax := (cInt_mem target.len).2
  unfold cIntMax at htmax
  -- the room in the target is an int
  have hroom : cInt (cInt target.len - cInt (targetFirst.getD 1) + 1) =
      cInt target.len - cInt (targetFirst.getD 1) + 1 := cInt_of (by omega) (by omega)
  rw [hroom]
  generalize cInt (targetFirst.getD 1) = tf at h1 ⊢
  generalize cInt (sourceFirst.getD 1) = f at h2 h3 ⊢
  generalize cInt (sourceLast.getD buf.len) = l at h3 ⊢
  have hmin : (if l-f+1 > cInt target.len - tf + 1 then cInt target.len - tf + 1 else l-f+1) ≤
        l-f+1 ∧
      (if l-f+1 > cInt target.len - tf + 1 then cInt target.len - tf + 1 else l-f+1) ≤
        cInt target.len - tf + 1 := by
    split <;> omega
  generalize (if l-f+1 > cInt target.len - tf + 1 then cInt target.len - tf + 1 else l-f+1) = n
    at hmin ⊢
  by_cases hn : n > 0
  swap
  · exact ⟨[.number n], m, by simp only [if_neg hn]; rfl⟩
  obtain ⟨q, hq, -, hin⟩ := hf.at_inBlock (n := n.toNat) (show 0 ≤ f-1 by omega) (by omega)
  have hload : memLoad (buf.at (f-1)) n m = .ok (m.bytes q n.toNat) m := by
    rw [hq]
    exact if_pos ⟨hn.le, hin⟩
  have hbytes : (m.bytes q n.toNat).length = n.toNat := by
    rw [Mem.bytes, List.length_map, List.length_range]
  obtain ⟨m', hstore⟩ := hft.store_ok (m.bytes q n.toNat) (show 0 ≤ tf-1 by omega)
    (by rw [hbytes]; omega)
  refine ⟨[.number n], m', ?_⟩
  simp only [if_pos hn]
  exact (run_bind_ok hload).trans (run_bind_ok hstore)

theorem decides_fsRead (fd : ℤ) (bufPos len fileOffset : Option ℤ) (data : List UInt8) :
    Decides m (BufOp.fsRead (.number fd) (.buffer b) (optNumber bufPos) (optNumber len)
        (optNumber fileOffset) data).exec
      ((IndexBounds.part (m.lenOf (.buffer b))).narrow.Holds
        ((IndexedCall.part (m.lenOf (.buffer b)) bufPos len).map cInt)) := by
  rw [Mem.lenOf_buffer hb]
  simp only [BufOp.exec, fsRead, bind_assoc]
  apply decides_check (checkint_number 1 fd)
  apply decides_bind (checkbuf_ok hb 2)
  apply decides_check (optint_number _ _ _)
  apply decides_check (optint_number _ _ _)
  apply decides_check (optlong_number _ _ _)
  apply decides_part buf.len 3 4 rfl (getD_rest _ _ _)
  intro h1 h2 h3 _
  generalize cInt (len.getD (buf.len - cInt (bufPos.getD 1) + 1)) = l at h2 h3 ⊢
  obtain ⟨m', hstore⟩ := hf.store_ok (data.take l.toNat)
    (show 0 ≤ cInt (bufPos.getD 1) - 1 by omega) (by rw [List.length_take]; omega)
  simp only [pure_bind, uvFsReadStore]
  exact ⟨_, m', run_bind_ok hstore⟩

end

/-- The bytes that fs.write hands to libuv. -/
theorem decides_fsWrite {m : Mem} {v : Value} {n : ℕ} (hlen : m.lenOf v = n) {buf : UvBuf}
    (hv : couvTobuforstr m v = some buf) (hn : buf.len = n)
    (hload : ∀ fd p l off : ℤ, 1 ≤ p → 0 ≤ l → p-1+l ≤ n →
      ∃ bs, uvFsWriteLoad ⟨fd, buf, p, l, off⟩ m = .ok bs m)
    (fd : ℤ) (bufPos len fileOffset : Option ℤ) :
    Decides m (BufOp.fsWrite (.number fd) v (optNumber bufPos) (optNumber len)
        (optNumber fileOffset)).exec
      ((IndexBounds.part (m.lenOf v)).narrow.Holds
        ((IndexedCall.part (m.lenOf v) bufPos len).map cInt)) := by
  have hcheck : couvCheckbuforstr 2 v m = .ok buf m := by
    simp only [couvCheckbuforstr, hv]
  rw [hlen]
  simp only [BufOp.exec, fsWrite, bind_assoc]
  -- the five arguments in the order in which they are checked
  apply decides_check (checkint_number 1 fd)
  apply decides_bind hcheck
  rw [hn]
  apply decides_check (optint_number _ _ _)
  apply decides_check (optint_number _ _ _)
  apply decides_check (optlong_number _ _ _)
  apply decides_part n 3 4 rfl (getD_intRest _ _ _)
  intro h1 h2 h3 _
  simp only [pure_bind]
  obtain ⟨bs, hbs⟩ := hload _ _ _ _ h1 h2 h3
  exact ⟨_, m, run_bind_ok hbs⟩

/-- The call returns when the indices it was given lie within the bounds, and raises the index
error otherwise. -/
def IndexDecided (m : Mem) (c : IndexedCall) : Prop :=
  Decides m c.op.exec ((c.bounds m).Holds (c.indices m))

/-- What the code decides are the narrowed indices, against the narrowed lengths. -/
theorem decides_narrow {m : Mem} {c : IndexedCall} (hc : c.Given m) :
    Decides m c.op.exec ((c.bounds m).narrow.Holds ((c.indices m).map cInt)) := by
  cases c with
  | read r self pos =>
    obtain ⟨buf, hb, hf⟩ := hc
    exact decides_read hb hf r pos
  | put w self pos =>
    obtain ⟨⟨buf, hb, hf⟩, bs, hw⟩ := hc
    exact decides_put hb hf w hw pos
  | slice env self first last =>
    obtain ⟨buf, hb, hf⟩ := hc
    exact decides_slice hb hf env first last
  | fill self byte first last =>
    obtain ⟨buf, hb, hf⟩ := hc
    exact decides_fill hb hf byte first last
  | toString self first last =>
    obtain ⟨buf, hb, hf⟩ := hc
    exact decides_toString hb hf first last
  | copy self target targetFirst sourceFirst sourceLast =>
    obtain ⟨⟨buf, hb, hf⟩, tbuf, ht, hft⟩ := hc
    exact decides_copy hb hf ht hft targetFirst sourceFirst sourceLast
  | write self str position len =>
    obtain ⟨buf, hb, hf⟩ := hc
    exact decides_write hb hf str position len
  | fsRead fd buf bufPos len fileOffset data =>
    obtain ⟨buf, hb, hf⟩ := hc
    exact decides_fsRead hb hf fd bufPos len fileOffset data
  -- the bytes are those of a string or of a buffer
  | fsWrite fd v bufPos len fileOffset =>
    rcases hc with ⟨s, rfl⟩ | ⟨b, rfl, buf, hb, hf⟩
    · refine decides_fsWrite (n := s.length) rfl rfl rfl ?_ fd bufPos len fileOffset
      intro fd p l off h1 h2 h3
      exact ⟨_, congrFun (if_pos ⟨h1, h2, h3⟩) m⟩
    · obtain ⟨blk, bl, off, -, -, -, hbase⟩ := id hf
      have hv : couvTobuforstr m (.buffer b) = some (.mem buf.base buf.len) := by
        simp only [couvTobuforstr, hb, hbase, Option.map_some]
      refine decides_fsWrite (Mem.lenOf_buffer hb) hv rfl ?_ fd bufPos len fileOffset
      intro fd p l off h1 h2 h3
      exact hf.load_ok (show 0 ≤ p-1 by omega) h2 h3

/-- A call decides the indices it was given exactly when no others within the bounds have the
same low 32 bits; on a Buffer whose length is no int, when their high halves fit as their low
halves do. -/
theorem index_decided_iff {m : Mem} {c : IndexedCall} (hc : c.Given m) :
    IndexDecided m c ↔ (c.bounds m).Unaliased (c.indices m) :=
  (decides_iff (decides_narrow hc)).trans IndexBounds.narrow_iff

theorem fourBytes_hasBuf : fourBytes.HasBuf 0 :=
  ⟨⟨some 0, some ⟨0, 0⟩, 4⟩, rfl, 0, ⟨1, 4, fun _ => 0⟩, 0, rfl, le_rfl, rfl, rfl⟩

/-- The slice from 2 to 3 of a Buffer of four bytes. -/
theorem index_decided_slice :
    IndexDecided fourBytes (.slice ⟨true, fun _ => 0, ⟨none, none, 0⟩⟩ 0 (some 2) (some 3)) := by
  apply (index_decided_iff (m := fourBytes) (c := .slice ⟨true, fun _ => 0, ⟨none, none, 0⟩⟩ 0
    (some 2) (some 3)) fourBytes_hasBuf).mpr
  apply IndexBounds.narrow_iff.mp
  exact iff_of_true ⟨by decide, by decide⟩ ⟨by decide, by decide⟩

/-- readUInt8 at 2^32+1 gives the byte at position 1. -/
theorem index_misread : fourBytes.HasBuf 0 ∧
    (IndexedCall.read .uint8 0 (2^32+1)).op.exec fourBytes = .ok [.number 0] fourBytes ∧
      ¬IndexDecided fourBytes (.read .uint8 0 (2^32+1)) := by
  have hread : (IndexedCall.read .uint8 0 (2^32+1)).op.exec fourBytes =
      .ok [.number 0] fourBytes := rfl
  refine ⟨fourBytes_hasBuf, hread, ?_⟩
  rintro ⟨-, hraise⟩
  obtain ⟨arg, herr⟩ := hraise (fun h => absurd h.2 (by decide))
  cases hread.symm.trans herr

end Couv
