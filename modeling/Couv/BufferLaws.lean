import Couv.BufferRefine

/-! What the refinement says about Buffers: which bytes an operation touches, and how slices
and aliases behave. -/
namespace Couv

open Arrays (Effect)

namespace BufOp

/-- A store goes to a Buffer of the list, inside the bytes it shows. -/
def Within (own : ℕ → Option (List UInt8)) (bufs : List Value) :
    Except LuaError (List Value × Effect) → Prop
  | .ok (_, .store b start bs) =>
    .buffer b ∈ bufs ∧ ∃ xs, own b = some xs ∧ start+bs.length ≤ xs.length
  | _ => True

section
variable {own : ℕ → Option (List UInt8)} {bufs : List Value} {β : Type}

theorem within_bind {x : Except LuaError β} {f : β → Except LuaError (List Value × Effect)}
    (h : ∀ a, x = .ok a → Within own bufs (f a)) : Within own bufs (x >>= f) := by
  cases x with
  | error e => trivial
  | ok a => exact h a rfl

theorem within_none (vs : List Value) : Within own bufs (.ok (vs, .none)) := trivial

theorem ownOf_ok {arg b : ℕ} {v : Value} {bs : List UInt8} (h : ownOf own arg v = .ok (b, bs)) :
    v = .buffer b ∧ own b = some bs := by
  unfold ownOf at h
  split at h
  · split at h
    · next c xs hc =>
      obtain ⟨rfl, rfl⟩ := Prod.mk.inj (Except.ok.inj h)
      exact ⟨rfl, hc⟩
    · cases h
  · cases h

theorem rangeOf_ok {arg : ℕ} {first last : Value} {len : ℕ} {r : ℤ × ℤ}
    (h : rangeOf arg first last len = .ok r) : 1 ≤ r.1 ∧ r.1 ≤ r.2 ∧ r.2 ≤ len := by
  obtain ⟨f, -, h⟩ := bind_eq_ok h
  obtain ⟨l, -, h⟩ := bind_eq_ok h
  obtain ⟨_, h1, h⟩ := bind_eq_ok h
  obtain ⟨_, h2, h⟩ := bind_eq_ok h
  obtain rfl := Except.ok.inj h
  have h1 := couvArgcheckindex_ok h1
  have h2 := couvArgcheckindex_ok h2
  exact ⟨h1.1, h2.1, h2.2⟩

theorem within_put (w : Writer) (self pos : Value) :
    Within own [self] (specPut own w self pos) := by
  apply within_bind
  rintro ⟨b, bs⟩ hb
  obtain ⟨rfl, hown⟩ := ownOf_ok hb
  apply within_bind
  intro p _
  apply within_bind
  intro ys hys
  apply within_bind
  intro _ hr
  have hr := couvArgcheckindex_ok hr
  have hl := w.bytes_length hys
  exact ⟨by simp, bs, hown, by omega⟩

theorem within_read (r : Reader) (self pos : Value) :
    Within own bufs (specRead own r self pos) := by
  apply within_bind
  intro _ _
  apply within_bind
  intro _ _
  apply within_bind
  intro _ _
  exact within_none _

theorem within_fill (self byte first last : Value) (next : ℕ) :
    Within own [self] ((BufOp.fill self byte first last).spec next own) := by
  apply within_bind
  rintro ⟨b, bs⟩ hb
  obtain ⟨rfl, hown⟩ := ownOf_ok hb
  apply within_bind
  intro _ _
  apply within_bind
  rintro ⟨f, l⟩ hr
  obtain ⟨h1, h2, h3⟩ := rangeOf_ok hr
  dsimp only at h1 h2 h3
  exact ⟨by simp, bs, hown, by rw [List.length_replicate]; omega⟩

theorem within_copy (self target tf f l : Value) (next : ℕ) :
    Within own [self, target] ((BufOp.copy self target tf f l).spec next own) := by
  apply within_bind
  rintro ⟨b, bs⟩ hb
  apply within_bind
  rintro ⟨t, ts⟩ ht
  obtain ⟨rfl, hown⟩ := ownOf_ok ht
  apply within_bind
  intro tf _
  apply within_bind
  intro f _
  apply within_bind
  intro l _
  apply within_bind
  intro _ h1
  apply within_bind
  intro _ h2
  apply within_bind
  intro _ h3
  have h1 := couvArgcheckindex_ok h1
  -- no more bytes than the target has from the position on
  have hlen : (window bs (f-1).toNat (min (l-f+1) (ts.length-tf+1)).toNat).length ≤
      (ts.length-tf+1).toNat := by
    simp only [window, List.length_take]
    omega
  exact ⟨by simp, ts, hown, by omega⟩

theorem within_write (self : Value) (str : Except LuaError LuaString) (position len : Value)
    (next : ℕ) : Within own [self] ((BufOp.write self str position len).spec next own) := by
  apply within_bind
  rintro ⟨b, bs⟩ hb
  obtain ⟨rfl, hown⟩ := ownOf_ok hb
  apply within_bind
  intro s _
  apply within_bind
  intro p _
  apply within_bind
  intro l _
  apply within_bind
  intro _ h1
  apply within_bind
  intro _ h2
  have h1 := couvArgcheckindex_ok h1
  have h2 := couvArgcheckindex_ok h2
  exact ⟨by simp, bs, hown, by rw [List.length_take]; omega⟩

theorem within_fsRead (fd buf p l off : Value) (data : List UInt8) (next : ℕ) :
    Within own [buf] ((BufOp.fsRead fd buf p l off data).spec next own) := by
  apply within_bind
  intro _ _
  apply within_bind
  rintro ⟨b, bs⟩ hb
  obtain ⟨rfl, hown⟩ := ownOf_ok hb
  apply within_bind
  intro p _
  apply within_bind
  intro l _
  apply within_bind
  intro _ _
  apply within_bind
  intro _ h1
  apply within_bind
  intro _ h2
  have h1 := couvArgcheckindex_ok h1
  have h2 := couvArgcheckindex_ok h2
  exact ⟨by simp, bs, hown, by rw [List.length_take]; omega⟩

/-- Every operation stores inside the bytes of a Buffer it is given. -/
theorem spec_within (next : ℕ) (op : BufOp) : Within own op.buffers (op.spec next own) := by
  cases op with
  | fill self byte first last => exact within_fill self byte first last next
  | copy self target tf f l => exact within_copy self target tf f l next
  | write self str position len => exact within_write self str position len next
  | put w self pos => exact within_put w self pos
  | newindex self pos value => exact within_put (.uint8 value) self pos
  | fsRead fd buf p l off data => exact within_fsRead fd buf p l off data next
  -- the others store nothing
  | read r self pos => exact within_read r self pos
  | index b key =>
    apply within_bind
    intro key _
    split
    · trivial
    · exact within_read .uint8 _ _
  | new env arg =>
    apply within_bind
    intro _ _
    trivial
  | length self =>
    apply within_bind
    intro _ _
    trivial
  | slice env self first last =>
    apply within_bind
    intro _ _
    apply within_bind
    intro _ _
    trivial
  | toString self first last =>
    apply within_bind
    intro _ _
    apply within_bind
    intro _ _
    trivial
  | fsWrite fd buf p l off =>
    apply within_bind
    intro _ _
    apply within_bind
    intro _ _
    apply within_bind
    intro _ _
    apply within_bind
    intro _ _
    apply within_bind
    intro _ _
    apply within_bind
    intro _ _
    apply within_bind
    intro _ _
    trivial

theorem ownOf_congr {own own' : ℕ → Option (List UInt8)} (arg : ℕ) {v : Value}
    (h : ∀ b, v = .buffer b → own' b = own b) : ownOf own' arg v = ownOf own arg v := by
  cases v with
  | buffer b => simp only [ownOf, h b rfl]
  | _ => rfl

theorem ownOrStr_congr {own own' : ℕ → Option (List UInt8)} (arg : ℕ) {v : Value}
    (h : ∀ b, v = .buffer b → own' b = own b) : ownOrStr own' arg v = ownOrStr own arg v := by
  cases v with
  | buffer b => simp only [ownOrStr, h b rfl]
  | _ => rfl

/-- What an operation does depends on the bytes of the Buffers it is given only. -/
theorem spec_congr {own own' : ℕ → Option (List UInt8)} (next : ℕ) (op : BufOp)
    (h : ∀ b, .buffer b ∈ op.buffers → own' b = own b) :
    op.spec next own' = op.spec next own := by
  have hown (arg : ℕ) (v : Value) (hv : v ∈ op.buffers) : ownOf own' arg v = ownOf own arg v :=
    ownOf_congr arg (fun b hb => h b (hb ▸ hv))
  have hstr (arg : ℕ) (v : Value) (hv : v ∈ op.buffers) :
      ownOrStr own' arg v = ownOrStr own arg v :=
    ownOrStr_congr arg (fun b hb => h b (hb ▸ hv))
  cases op <;> simp [spec, specRead, specPut, buffers] at hown hstr ⊢ <;> simp [hown, hstr]

end
end BufOp

/-! Slices. -/

/-- The Buffer `c` shows the bytes `first` to `last` of the Buffer `b`. -/
def SliceOf (A : Arrays) (c b : ℕ) (first last : ℤ) : Prop :=
  ∃ v, A.views.get b = some v ∧
    A.views.get c = some (v.sub (first-1).toNat (last-first+1).toNat) ∧
    1 ≤ first ∧ first ≤ last ∧ last ≤ v.len

section
variable {m m' : Mem} {vs : List Value} {α β : Type}

theorem bind_check_inv {x : Except LuaError β} {f : β → BufM α} {a : α}
    (h : (BufM.check x >>= f) m = .ok a m') : ∃ b, x = .ok b ∧ f b m = .ok a m' := by
  cases x with
  | error e =>
    rw [BufM.bind_check_error m rfl] at h
    cases h
  | ok b =>
    rw [BufM.bind_check_ok m rfl] at h
    exact ⟨b, rfl, h⟩

theorem checkbuf_inv {b arg : ℕ} {f : CouvBuf → BufM α} {a : α}
    (h : (couvCheckbuf arg (.buffer b) >>= f) m = .ok a m') :
    ∃ buf, m.bufs.get b = some buf ∧ f buf m = .ok a m' := by
  cases hb : m.bufs.get b with
  | none =>
    have hx : couvCheckbuf arg (.buffer b) m =
        .error (.raise (.argError arg "couv.Buffer expected")) m := by
      simp only [couvCheckbuf, hb]
    rw [run_bind_error hx] at h
    cases h
  | some buf =>
    have hx : couvCheckbuf arg (.buffer b) m = .ok buf m := by simp only [couvCheckbuf, hb]
    rw [run_bind_ok hx] at h
    exact ⟨buf, rfl, h⟩

theorem checkbuf_run {b arg : ℕ} {buf : CouvBuf} (f : CouvBuf → BufM α)
    (h : m.bufs.get b = some buf) : (couvCheckbuf arg (.buffer b) >>= f) m = f buf m := by
  have hx : couvCheckbuf arg (.buffer b) m = .ok buf m := by simp only [couvCheckbuf, h]
  exact run_bind_ok hx

theorem Mem.Triple.eq_view {buf : CouvBuf} (h : m.Triple buf) :
    buf = ⟨some buf.view.array, some ⟨buf.view.array, buf.view.off⟩, buf.view.len⟩ := by
  obtain ⟨blk, _, off, -, -, -, ho, hb⟩ := h
  obtain ⟨orig, base, len⟩ := buf
  obtain rfl : orig = some blk := ho
  obtain rfl : base = some ⟨blk, off⟩ := hb
  simp [CouvBuf.view]

/-- The parent of a slice: the same block, and the slice's pointers are the parent's, shifted
by `first-1`. -/
theorem SliceOf.parent (hm : m.Views) {c b : ℕ} {first last : ℤ} {buf : CouvBuf}
    (h : SliceOf m.arrays c b first last) (hc : m.bufs.get c = some buf) :
    ∃ pbuf, m.bufs.get b = some pbuf ∧ pbuf.orig = buf.orig ∧ pbuf.len < 2^31 ∧
      1 ≤ first ∧ first ≤ last ∧ last ≤ pbuf.len ∧ (buf.len : ℤ) = last-first+1 ∧
      ∀ i, buf.at i = pbuf.at (i+(first-1)) := by
  obtain ⟨v, hv, hcv, h1, h2, h3⟩ := h
  simp only [Mem.arrays, Store.map_get, Option.map_eq_some_iff] at hv
  obtain ⟨pbuf, hp, rfl⟩ := hv
  simp only [Mem.arrays, Store.map_get, hc, Option.map_some, Option.some.injEq] at hcv
  -- both Buffers are what their views say
  have hbuf := (hm c buf hc).eq_view
  have hpbuf := (hm b pbuf hp).eq_view
  have hpbase := congrArg CouvBuf.base hpbuf
  obtain ⟨_, _, _, -, -, hsmall, -⟩ := hm b pbuf hp
  rw [hcv] at hbuf
  refine ⟨pbuf, hp, ?_, hsmall, h1, h2, h3, ?_, ?_⟩
  · rw [hpbuf, hbuf]
    rfl
  · rw [hbuf]
    change ((last-first+1).toNat : ℤ) = last-first+1
    omega
  · intro i
    rw [hbuf]
    simp only [CouvBuf.at, hpbase, Option.map_some, Ptr.add, View.sub, Option.some.injEq,
      Ptr.mk.injEq, true_and]
    push_cast
    omega

/-- A range check that a slice passes, the parent passes at the shifted position. -/
theorem argcheck_shift {arg : ℕ} {p first len plen k : ℤ} {u : Unit} (hf : 1 ≤ first)
    (hl : len+(first-1) ≤ plen) (h : couvArgcheckindex arg p 1 (len-k) = .ok u) :
    couvArgcheckindex arg (p+first-1) 1 (plen-k) = .ok () := by
  have h := couvArgcheckindex_ok h
  exact if_pos ⟨by omega, by omega⟩

theorem slice_read (hm : m.Views) {c b : ℕ} {first last p : ℤ}
    (hs : SliceOf m.arrays c b first last) (hp : InCInt p) (r : Reader)
    (h : r.method (.buffer c) (.number p) m = .ok vs m') :
    r.method (.buffer b) (.number (p+first-1)) m = .ok vs m' := by
  rw [r.method_eq] at h ⊢
  have hw := r.width_pos
  obtain ⟨buf, hc, h⟩ := checkbuf_inv h
  obtain ⟨pbuf, hb, -, hsmall, h1, h2, h3, h4, hat⟩ := hs.parent hm hc
  obtain ⟨q, hq, h⟩ := bind_check_inv h
  rw [luaLCheckint_number 2 hp] at hq
  obtain rfl := Except.ok.inj hq
  obtain ⟨_, hr, h⟩ := bind_check_inv h
  rw [cInt_len_sub (by omega) (by omega)] at hr
  have hr' := argcheck_shift h1 (show (buf.len : ℤ)+(first-1) ≤ pbuf.len by omega) hr
  have hp' := couvArgcheckindex_ok hr'
  refine (checkbuf_run _ hb).trans ?_
  refine (BufM.bind_check_ok m (luaLCheckint_number 2 ?_)).trans ?_
  · exact inCInt_of (by omega) (by omega)
  rw [cInt_len_sub hsmall (by omega)]
  refine (BufM.bind_check_ok m hr').trans ?_
  rw [hat, show p-1+(first-1) = p+first-1-1 by omega] at h
  exact h

theorem slice_put (hm : m.Views) {c b : ℕ} {first last p : ℤ}
    (hs : SliceOf m.arrays c b first last) (hp : InCInt p) (w : Writer)
    (h : w.method (.buffer c) (.number p) m = .ok vs m') :
    w.method (.buffer b) (.number (p+first-1)) m = .ok vs m' := by
  rw [w.method_eq] at h ⊢
  have hw := w.width_pos
  -- the checks of the slice, and what they have shown
  obtain ⟨buf, hc, h⟩ := checkbuf_inv h
  obtain ⟨pbuf, hb, -, hsmall, h1, h2, h3, h4, hat⟩ := hs.parent hm hc
  obtain ⟨q, hq, h⟩ := bind_check_inv h
  rw [luaLCheckint_number 2 hp] at hq
  obtain rfl := Except.ok.inj hq
  obtain ⟨ys, hys, h⟩ := bind_check_inv h
  obtain ⟨_, hr, h⟩ := bind_check_inv h
  rw [cInt_len_sub (by omega) (by omega)] at hr
  have hr' := argcheck_shift h1 (show (buf.len : ℤ)+(first-1) ≤ pbuf.len by omega) hr
  have hp' := couvArgcheckindex_ok hr'
  -- the same checks of the parent, at the shifted position
  refine (checkbuf_run _ hb).trans ?_
  refine (BufM.bind_check_ok m (luaLCheckint_number 2 ?_)).trans ?_
  · exact inCInt_of (by omega) (by omega)
  refine (BufM.bind_check_ok m hys).trans ?_
  rw [cInt_len_sub hsmall (by omega)]
  refine (BufM.bind_check_ok m hr').trans ?_
  rw [hat, show p-1+(first-1) = p+first-1-1 by omega] at h
  exact h

/-- Slicing a slice gives the Buffer that slicing the parent gives. -/
theorem slice_slice (hm : m.Views) {c b : ℕ} {first last k l : ℤ}
    (hs : SliceOf m.arrays c b first last) (hk : InCInt k) (hl : InCInt l) (env : AllocEnv)
    (h : bufferSlice env (.buffer c) (.number k) (.number l) m = .ok vs m') :
    bufferSlice env (.buffer b) (.number (first+k-1)) (.number (first+l-1)) m = .ok vs m' := by
  have hopt (arg : ℕ) {x : ℤ} (d : ℤ) (hx : InCInt x) : luaLOptint arg (.number x) d = .ok x :=
    luaLCheckint_number arg hx
  -- the checks of the slice, and what they have shown
  obtain ⟨buf, hc, h⟩ := checkbuf_inv h
  obtain ⟨pbuf, hb, horig, hsmall, h1, h2, h3, h4, hat⟩ := hs.parent hm hc
  obtain ⟨q, hq, h⟩ := bind_check_inv h
  rw [hopt 2 1 hk] at hq
  obtain rfl := Except.ok.inj hq
  obtain ⟨q, hq, h⟩ := bind_check_inv h
  rw [hopt 3 _ hl] at hq
  obtain rfl := Except.ok.inj hq
  obtain ⟨_, hr, h⟩ := bind_check_inv h
  obtain ⟨_, hr', h⟩ := bind_check_inv h
  rw [cInt_len (by omega)] at hr hr'
  have hr := couvArgcheckindex_ok hr
  have hr' := couvArgcheckindex_ok hr'
  -- the same checks of the parent, at the shifted bounds
  refine (checkbuf_run _ hb).trans ?_
  refine (BufM.bind_check_ok m (hopt 2 1 (inCInt_of (by omega) (by omega)))).trans ?_
  refine (BufM.bind_check_ok m (hopt 3 _ (inCInt_of (by omega) (by omega)))).trans ?_
  rw [cInt_len hsmall]
  refine (BufM.bind_check_ok m (if_pos ⟨by omega, by omega⟩)).trans ?_
  refine (BufM.bind_check_ok m (if_pos ⟨by omega, by omega⟩)).trans ?_
  rw [hat, show k-1+(first-1) = first+k-1-1 by omega,
    show l-k+1 = first+l-1-(first+k-1)+1 by omega, ← horig] at h
  exact h

/-- An accepted operation has the effect that is specified. -/
theorem Mem.Views.accepted (hm : m.Views) {op : BufOp} (hop : op.InRange)
    (h : op.exec m = .ok vs m') :
    ∃ eff, op.spec m.bufs.next m.arrays.own = .ok (vs, eff) ∧
      m'.arrays = m.arrays.apply eff ∧ m'.Views := by
  have hd := exec_does hm hop
  revert hd
  cases op.spec m.bufs.next m.arrays.own with
  | error e =>
    intro hd
    change op.exec m = .error (.raise e) m at hd
    rw [h] at hd
    cases hd
  | ok r =>
    rintro ⟨m₁, hx, ha, hv⟩
    rw [h] at hx
    cases hx
    exact ⟨r.2, rfl, ha, hv⟩

/-- A raised error was specified and nothing has changed. -/
theorem Mem.Views.raised (hm : m.Views) {op : BufOp} (hop : op.InRange) {f : Failure}
    (h : op.exec m = .error f m') : m' = m ∧ ∃ e, f = .raise e := by
  have hd := exec_does hm hop
  revert hd
  cases op.spec m.bufs.next m.arrays.own with
  | error e =>
    intro hd
    change op.exec m = .error (.raise e) m at hd
    rw [h] at hd
    cases hd
    exact ⟨rfl, e, rfl⟩
  | ok r =>
    rintro ⟨m₁, hx, -⟩
    rw [h] at hx
    cases hx

/-- The view that a store goes to. -/
theorem Mem.Views.target (hm : m.Views) {b : ℕ} {xs : List UInt8}
    (h : m.arrays.own b = some xs) : ∃ w ys, m.arrays.views.get b = some w ∧
      w.len = xs.length ∧ m.arrays.arrays.get w.array = some ys ∧ m.arrays.Inside w := by
  simp only [Arrays.own, Option.map_eq_some_iff] at h
  obtain ⟨w, hw, rfl⟩ := h
  have hw' := hw
  simp only [Mem.arrays, Store.map_get, Option.map_eq_some_iff] at hw'
  obtain ⟨buf, hb, rfl⟩ := hw'
  obtain ⟨blk, bl, off, hbl, hin, -, ho, hbase⟩ := hm b buf hb
  have harr : m.arrays.arrays.get buf.view.array = some bl.bytes := by
    simp only [Mem.arrays, Store.map_get, CouvBuf.view, ho, Option.getD_some, hbl,
      Option.map_some]
  have hinside : m.arrays.Inside buf.view := by
    simp only [Arrays.Inside, Arrays.array, harr, Option.getD_some, Block.bytes_length]
    simpa only [CouvBuf.view, hbase, Option.map_some, Option.getD_some, Int.toNat_natCast]
      using hin
  exact ⟨buf.view, bl.bytes, hw, (Arrays.bytes_length _ hinside).symm, harr, hinside⟩

theorem Mem.Views.kept (hm : m.Views) {op : BufOp} (hop : op.InRange) {b : ℕ} {v : View}
    (hv : m.arrays.views.get b = some v) : (bufStep m op).arrays.views.get b = some v := by
  unfold bufStep
  split
  · next vs m' h =>
    obtain ⟨eff, -, ha, -⟩ := hm.accepted hop h
    rw [ha]
    exact Arrays.apply_views hv eff
  · next f m' h =>
    rw [(hm.raised hop h).1]
    exact hv

/-- After an accepted operation every view shows what was stored into its range. -/
theorem Mem.Views.seen (hm : m.Views) {op : BufOp} (hop : op.InRange)
    (h : op.exec m = .ok vs m') {b start : ℕ} {bs : List UInt8} {w : View}
    (hs : op.spec m.bufs.next m.arrays.own = .ok (vs, .store b start bs))
    (hw : m.arrays.views.get b = some w) (v : View) (j : ℕ) (hj : j < v.len) :
    (m'.arrays.bytes v)[j]? =
      if v.array = w.array ∧ w.off+start ≤ v.off+j ∧ v.off+j < w.off+start+bs.length then
        bs[v.off+j-(w.off+start)]?
      else (m.arrays.bytes v)[j]? := by
  obtain ⟨eff, hs', ha, -⟩ := hm.accepted hop h
  rw [hs] at hs'
  obtain rfl := (Prod.mk.inj (Except.ok.inj hs')).2
  have hwi : BufOp.Within m.arrays.own op.buffers _ := BufOp.spec_within m.bufs.next op
  rw [hs] at hwi
  obtain ⟨-, xs, hxs, hle⟩ := hwi
  obtain ⟨w', ys, hw', hlen, hys, hin⟩ := hm.target hxs
  rw [hw] at hw'
  obtain rfl := Option.some.inj hw'
  rw [ha]
  exact Arrays.apply_store_seen hw hys hin (by omega) v j hj

/-- Bytes outside the views of the Buffers an operation is given stay as they were. -/
theorem Mem.Views.frame (hm : m.Views) {op : BufOp} (hop : op.InRange)
    (h : op.exec m = .ok vs m') {c j : ℕ} {xs : List UInt8}
    (hxs : m.arrays.arrays.get c = some xs)
    (hout : ∀ b v, .buffer b ∈ op.buffers → m.arrays.views.get b = some v →
      ¬(v.array = c ∧ v.off ≤ j ∧ j < v.off+v.len)) :
    (m'.arrays.array c)[j]? = xs[j]? := by
  have hold : (m.arrays.array c)[j]? = xs[j]? := by
    simp only [Arrays.array, hxs, Option.getD_some]
  obtain ⟨eff, hs, ha, -⟩ := hm.accepted hop h
  have hwi : BufOp.Within m.arrays.own op.buffers _ := BufOp.spec_within m.bufs.next op
  rw [ha]
  cases eff with
  | none => exact hold
  | alloc bs =>
    simp only [Arrays.array, Arrays.apply, Store.alloc_get_of_some _ hxs, Option.getD_some]
  | view b start len =>
    rw [← hold]
    simp only [Arrays.apply]
    split <;> rfl
  -- a store stays in the view of b, and j is outside of it
  | store b start bs =>
    rw [hs] at hwi
    obtain ⟨hb, ys, hys, hle⟩ := hwi
    obtain ⟨w, zs, hw, hlen, hzs, hin⟩ := hm.target hys
    simp only [Arrays.apply, hw]
    rw [← hold]
    apply Arrays.storeAt_frame hzs
    · have : m.arrays.array w.array = zs := by
        simp only [Arrays.array, hzs, Option.getD_some]
      unfold Arrays.Inside at hin
      rw [this] at hin
      omega
    · rintro ⟨hc, h1, h2⟩
      exact hout b w hb hw ⟨hc.symm, by omega, by omega⟩

theorem slice_sliceOf (hm : m.Views) {b : ℕ} {i j : ℤ} (hi : InCInt i) (hj : InCInt j)
    {env : AllocEnv} (henv : env.ok = true)
    (h : bufferSlice env (.buffer b) (.number i) (.number j) m = .ok vs m') :
    ∃ c, vs = [.buffer c] ∧ SliceOf m'.arrays c b i j := by
  have hnum {x : ℤ} (hx : InCInt x) : BufOp.NumArg (.number x) := by
    intro n hn
    obtain rfl := Option.some.inj hn
    exact hx
  have hop : (BufOp.slice env (.buffer b) (.number i) (.number j)).InRange :=
    ⟨henv, hnum hi, hnum hj⟩
  obtain ⟨eff, hs, ha, -⟩ := hm.accepted hop h
  -- the specification of slice, with numbers for both bounds
  obtain ⟨⟨b', bs⟩, hb, hs⟩ := bind_eq_ok hs
  obtain ⟨hbb, hown⟩ := BufOp.ownOf_ok hb
  obtain rfl := Value.buffer.inj hbb
  obtain ⟨⟨f, l⟩, hr, hs⟩ := bind_eq_ok hs
  have hbounds := BufOp.rangeOf_ok hr
  obtain ⟨f', hf, hr⟩ := bind_eq_ok hr
  obtain ⟨l', hl, hr⟩ := bind_eq_ok hr
  obtain ⟨_, -, hr⟩ := bind_eq_ok hr
  obtain ⟨_, -, hr⟩ := bind_eq_ok hr
  obtain ⟨rfl, rfl⟩ := Prod.mk.inj (Except.ok.inj hr)
  obtain rfl : i = f' := Except.ok.inj hf
  obtain rfl : j = l' := Except.ok.inj hl
  obtain ⟨rfl, rfl⟩ := Prod.mk.inj (Except.ok.inj hs)
  obtain ⟨w, _, hw, hlen, -, -⟩ := hm.target hown
  have h1 : 1 ≤ i ∧ i ≤ j ∧ j ≤ bs.length := hbounds
  refine ⟨m.bufs.next, rfl, w, ?_, ?_, h1.1, h1.2.1, by omega⟩
  · rw [ha]
    exact Arrays.apply_views hw _
  · rw [ha]
    simp only [Arrays.apply, hw]
    exact Store.alloc_get_self _ _

end

/-- What holds of all Buffers and operations in a memory. -/
structure BufferLaws (m : Mem) : Prop where
  /-- a Buffer is a triple inside its block -/
  views : m.Views
  /-- an operation does on memory what is specified on the bytes that Buffers show -/
  refines : ∀ op : BufOp, op.InRange → Does m op.exec (op.spec m.bufs.next m.arrays.own)
  raises : ∀ (op : BufOp) f m', op.InRange → op.exec m = .error f m' →
    m' = m ∧ ∃ e, f = .raise e
  /-- it depends on no bytes but those of its own Buffers -/
  reads : ∀ (op : BufOp) own, (∀ b, .buffer b ∈ op.buffers → own b = m.arrays.own b) →
    op.spec m.bufs.next own = op.spec m.bufs.next m.arrays.own
  /-- and changes no others -/
  writes : ∀ (op : BufOp) vs m', op.InRange → op.exec m = .ok vs m' →
    ∀ c xs j, m.arrays.arrays.get c = some xs →
      (∀ b v, .buffer b ∈ op.buffers → m.arrays.views.get b = some v →
        ¬(v.array = c ∧ v.off ≤ j ∧ j < v.off+v.len)) →
      (m'.arrays.array c)[j]? = xs[j]?
  /-- every alias sees what is stored, where its view overlaps the stored range -/
  seen : ∀ (op : BufOp) vs m' b start bs w, op.InRange → op.exec m = .ok vs m' →
    op.spec m.bufs.next m.arrays.own = .ok (vs, .store b start bs) →
    m.arrays.views.get b = some w → ∀ (v : View) j, j < v.len →
      (m'.arrays.bytes v)[j]? =
        if v.array = w.array ∧ w.off+start ≤ v.off+j ∧ v.off+j < w.off+start+bs.length then
          bs[v.off+j-(w.off+start)]?
        else (m.arrays.bytes v)[j]?
  slice : ∀ env b i j vs m', env.ok = true → InCInt i → InCInt j →
    bufferSlice env (.buffer b) (.number i) (.number j) m = .ok vs m' →
    ∃ c, vs = [.buffer c] ∧ SliceOf m'.arrays c b i j
  /-- the same memory and the same results as the operation on the parent -/
  slice_read : ∀ c b first last p (r : Reader) vs m', SliceOf m.arrays c b first last →
    InCInt p → r.method (.buffer c) (.number p) m = .ok vs m' →
    r.method (.buffer b) (.number (p+first-1)) m = .ok vs m'
  slice_put : ∀ c b first last p (w : Writer) vs m', SliceOf m.arrays c b first last →
    InCInt p → w.method (.buffer c) (.number p) m = .ok vs m' →
    w.method (.buffer b) (.number (p+first-1)) m = .ok vs m'
  slice_slice : ∀ c b i j k l env vs m', SliceOf m.arrays c b i j → InCInt k → InCInt l →
    bufferSlice env (.buffer c) (.number k) (.number l) m = .ok vs m' →
    bufferSlice env (.buffer b) (.number (i+k-1)) (.number (i+l-1)) m = .ok vs m'

theorem bufferLaws_of_views {m : Mem} (hm : m.Views) : BufferLaws m where
  views := hm
  refines _ hop := exec_does hm hop
  raises _ _ _ hop h := hm.raised hop h
  reads op _ h := BufOp.spec_congr m.bufs.next op h
  writes _ _ _ hop h _ _ _ hxs hout := hm.frame hop h hxs hout
  seen _ _ _ _ _ _ _ hop h hs hw v j hj := hm.seen hop h hs hw v j hj
  slice _ _ _ _ _ _ henv hi hj h := slice_sliceOf hm hi hj henv h
  slice_read _ _ _ _ _ r _ _ hs hp h := slice_read hm hs hp r h
  slice_put _ _ _ _ _ w _ _ hs hp h := slice_put hm hs hp w h
  slice_slice _ _ _ _ _ _ env _ _ hs hk hl h := slice_slice hm hs hk hl env h

theorem views_kept {m : Mem} (hm : m.Views) {ops : List BufOp} (h : bufMachine.Enabled m ops)
    {b : ℕ} {v : View} (hv : m.arrays.views.get b = some v) :
    (bufMachine.run m ops).arrays.views.get b = some v := by
  have hstep (m : Mem) (op : BufOp) (hm : m.Views ∧ m.arrays.views.get b = some v)
      (hop : bufMachine.guard m op) :
      (bufMachine.exec m op).Views ∧ (bufMachine.exec m op).arrays.views.get b = some v := by
    have hone : bufMachine.Enabled m [op] := ⟨hop, trivial⟩
    exact ⟨bufMachine_views hm.1 hone, hm.1.kept hop hm.2⟩
  exact (Machine.run_invariant hstep ⟨hm, hv⟩ h).2

/-- In every run of Buffer operations the laws hold in every state, and the views made so
far, slices of any depth among them, stay the same views. -/
theorem buffers_refine_views {ops more : List BufOp}
    (h : bufMachine.Enabled .empty (ops ++ more)) :
    BufferLaws (bufMachine.run .empty ops) ∧
      ∀ b v, (bufMachine.run .empty ops).arrays.views.get b = some v →
        (bufMachine.run .empty (ops ++ more)).arrays.views.get b = some v := by
  obtain ⟨h1, h2⟩ := Machine.along_append.mp h
  have hempty : Mem.empty.Views := fun b buf hb => nomatch hb
  have hm := bufMachine_views hempty h1
  refine ⟨bufferLaws_of_views hm, ?_⟩
  intro b v hv
  rw [Machine.run_append]
  exact views_kept hm h2 hv

/-- A slice of "abcd", and a write to it. -/
def abcdSlice : List BufOp :=
  let env : AllocEnv := ⟨true, fun _ => 0, ⟨none, none, 0⟩⟩
  [.new env (.string [97, 98, 99, 100]), .slice env (.buffer 0) (.number 2) (.number 3)]

def abcdPut : List BufOp := [.put (.uint8 (.number 90)) (.buffer 1) (.number 1)]

/-- The write at position 1 of the slice is seen at position 2 of its parent. -/
theorem buffers_refine_views_abcd :
    BufferLaws (bufMachine.run .empty abcdSlice) ∧
      (bufMachine.run .empty (abcdSlice ++ abcdPut)).arrays.own 0 = some [97, 90, 99, 100] := by
  have hint (x : ℕ) (h : x < 2^31) : BufOp.NumArg (.number x) := by
    intro n hn
    obtain rfl := Option.some.inj hn
    exact inCInt_of (by omega) (by omega)
  have hrun : bufMachine.Enabled .empty (abcdSlice ++ abcdPut) :=
    ⟨⟨rfl, show 4 < 2^31 by decide, fun n hn => nomatch hn⟩,
      ⟨rfl, hint 2 (by decide), hint 3 (by decide)⟩, hint 1 (by decide), trivial⟩
  exact ⟨(buffers_refine_views hrun).1, by decide +kernel⟩

end Couv
