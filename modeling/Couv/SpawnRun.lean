import Couv.SpawnStrings

/-! The pieces of Process.spawn: what each leaves on the stack, writes and keeps, over every
collection. -/
namespace Couv

variable {N : Type}

/-! Runs. -/

/-- What the values `bs` lead to stays, in every moment from `σ` to `τ`. -/
structure Goes (bs : List (LuaVal N)) (σ τ : CallState N) : Prop where
  keeps : Keeps LuaObj.refs (objects bs) σ.heap τ.heap
  entries : σ.entries <+: τ.entries
  moments : ∃ ms, τ.moments = σ.moments ++ ms ∧ ∀ m ∈ ms, objects bs ⊆ m.roots ∧
    Keeps LuaObj.refs (objects bs) σ.heap m.heap ∧ m.entries <+: τ.entries

namespace Goes
variable {bs bs' : List (LuaVal N)} {σ τ υ : CallState N}

theorem refl : Goes bs σ σ where
  keeps := keeps_refl
  entries := List.prefix_rfl
  moments := ⟨[], (List.append_nil _).symm, fun _ h => nomatch h⟩

theorem trans (h : Goes bs σ τ) (h' : Goes bs τ υ) : Goes bs σ υ where
  keeps := h.keeps.trans h'.keeps
  entries := h.entries.trans h'.entries
  moments := by
    obtain ⟨ms, hms, hall⟩ := h.moments
    obtain ⟨ms', hms', hall'⟩ := h'.moments
    refine ⟨ms ++ ms', by rw [hms', hms, List.append_assoc], ?_⟩
    intro m hm
    rcases List.mem_append.mp hm with hm | hm
    · obtain ⟨hb, hk, he⟩ := hall m hm
      exact ⟨hb, hk, he.trans h'.entries⟩
    · obtain ⟨hb, hk, he⟩ := hall' m hm
      exact ⟨hb, h.keeps.trans hk, he⟩

theorem mono (h : Goes bs σ τ) (hb : bs' ⊆ bs) : Goes bs' σ τ where
  keeps := h.keeps.mono (objects_subset hb)
  entries := h.entries
  moments := by
    obtain ⟨ms, hms, hall⟩ := h.moments
    refine ⟨ms, hms, ?_⟩
    intro m hm
    obtain ⟨hbm, hk, he⟩ := hall m hm
    exact ⟨List.Subset.trans (objects_subset hb) hbm, hk.mono (objects_subset hb), he⟩

end Goes

namespace CallState
variable (env : SpawnEnv N)

def Sound (σ : CallState N) : Prop := LuaHeap.Sound env.toLuaStrings σ.roots σ.heap

/-- The state as the log has it. -/
def now (σ : CallState N) : Moment N := ⟨σ.heap, σ.roots, σ.entries⟩

theorem now_moment (σ : CallState N) : (σ.moment env).now ∈ (σ.moment env).moments :=
  List.mem_append_right _ List.mem_cons_self

variable {env} {σ τ : CallState N} {bs : List (LuaVal N)}

theorem Sound.keeps_moment (hs : σ.Sound env) :
    Keeps LuaObj.refs σ.roots σ.heap (σ.moment env).heap := env.collect_keeps _ _ _ hs

theorem Sound.moment (hs : σ.Sound env) : (σ.moment env).Sound env where
  closed := hs.keeps_moment.closed hs.closed
  interned := env.collect_interned _ _ _ hs

/-- One call of the API, which makes `τ` out of `σ` before the collector runs. -/
theorem Sound.goes_moment (hτ : τ.Sound env) (hb : bs ⊆ τ.held)
    (hk : Keeps LuaObj.refs (objects bs) σ.heap τ.heap) (he : τ.entries = σ.entries)
    (hm : τ.moments = σ.moments) : Goes bs σ (τ.moment env) := by
  have hk' := hk.trans (hτ.keeps_moment.mono (objects_subset hb))
  refine ⟨hk', he ▸ List.prefix_rfl, [(τ.moment env).now], by rw [← hm]; rfl, ?_⟩
  intro m hm
  obtain rfl := List.mem_singleton.mp hm
  exact ⟨objects_subset hb, hk', List.prefix_rfl⟩

end CallState

/-- The values `bs` are on the stack `s` or in the registry. -/
def Based (bs : List (LuaVal N)) (s : LuaStack (LuaVal N)) (σ : CallState N) : Prop :=
  bs ⊆ s.slots ++ σ.processMtbl :: σ.others

/-- A piece of the program that leaves the stack `s` and writes the entries `es`. -/
structure Ran (env : SpawnEnv N) (bs : List (LuaVal N)) (s : LuaStack (LuaVal N))
    (es : List CStr) (σ τ : CallState N) : Prop where
  goes : Goes bs σ τ
  sound : τ.Sound env
  stack : τ.stack = s
  mtbl : τ.processMtbl = σ.processMtbl
  others : τ.others = σ.others
  entries : τ.entries = σ.entries ++ es

section
variable {env : SpawnEnv N} {bs : List (LuaVal N)} {s t : LuaStack (LuaVal N)} {es fs : List CStr}
  {σ τ υ : CallState N} {v : LuaVal N}

theorem Ran.trans (h : Ran env bs s es σ τ) (h' : Ran env bs t fs τ υ) :
    Ran env bs t (es ++ fs) σ υ where
  goes := h.goes.trans h'.goes
  sound := h'.sound
  stack := h'.stack
  mtbl := h'.mtbl.trans h.mtbl
  others := h'.others.trans h.others
  entries := by rw [h'.entries, h.entries, List.append_assoc]

theorem Ran.based {bs' : List (LuaVal N)} (h : Ran env bs' t es σ τ) (hb : Based bs s σ) :
    Based bs s τ := by
  unfold Based
  rw [h.mtbl, h.others]
  exact hb

theorem Based.push (hb : Based bs s σ) (v : LuaVal N) : Based bs (s.push v) σ :=
  List.subset_cons_of_subset _ hb

theorem Based.cons (hb : Based bs s σ) (v : LuaVal N) : Based (v :: bs) (s.push v) σ :=
  List.cons_subset_cons _ hb

theorem Based.held (hb : Based bs s σ) (hs : σ.stack = s) : bs ⊆ σ.held := by
  rw [CallState.held, hs]
  exact hb

theorem Ran.held (h : Ran env bs s es σ τ) :
    τ.held = s.slots ++ σ.processMtbl :: σ.others := by
  rw [CallState.held, h.stack, h.mtbl, h.others]

theorem ran_refl (hσ : σ.Sound env) (hs : σ.stack = s) : Ran env bs s [] σ σ where
  goes := .refl
  sound := hσ
  stack := hs
  mtbl := rfl
  others := rfl
  entries := (List.append_nil _).symm

/-! The calls of the API. -/

variable (hσ : σ.Sound env)
include hσ

theorem ran_push (hb : bs ⊆ σ.held)
    (hv : ∀ a ∈ objects [v], Reach LuaObj.refs σ.heap σ.roots a) :
    Ran env bs (σ.stack.push v) [] σ ((σ.push v).moment env) := by
  have hroots : (σ.push v).roots = objects [v] ++ σ.roots := objects_append [v] σ.held
  have hsound : (σ.push v).Sound env := by
    refine ⟨hσ.closed.of_reach ?_, hσ.interned⟩
    intro a ha
    rw [hroots] at ha
    exact (List.mem_append.mp ha).elim (hv a) .root
  exact ⟨hsound.goes_moment (List.subset_cons_of_subset _ hb) keeps_refl rfl rfl, hsound.moment,
    rfl, rfl, rfl, (List.append_nil _).symm⟩

omit hσ in
theorem ran_pushNew (hb : bs ⊆ σ.held) {r : LuaHeap N × ℕ}
    (hr : LuaHeap.Sound env.toLuaStrings (r.2 :: σ.roots) r.1)
    (hk : Keeps LuaObj.refs σ.roots σ.heap r.1) :
    Ran env bs (σ.stack.push (.object r.2)) [] σ ((σ.pushNew r).moment env) := by
  have hsound : (σ.pushNew r).Sound env := hr
  exact ⟨hsound.goes_moment (List.subset_cons_of_subset _ hb) (hk.mono (objects_subset hb)) rfl rfl,
    hsound.moment, rfl, rfl, rfl, (List.append_nil _).symm⟩

omit hσ in
theorem top_value (hs : σ.stack = s.push v) : (σ.stack.get (-1)).getD .nil = v := by
  rw [hs, LuaStack.get_top]
  rfl

omit hσ in
theorem pop_stack (hs : σ.stack = s.push v) : (σ.pop 1).stack = s := by
  rw [CallState.pop, hs, LuaStack.pop_push, LuaStack.pop_zero]

omit hσ in
theorem pop_held (hs : σ.stack = s.push v) :
    (σ.pop 1).held = s.slots ++ σ.processMtbl :: σ.others := by
  rw [CallState.held, pop_stack hs]
  rfl

theorem sound_pop (hs : σ.stack = s.push v) : (σ.pop 1).Sound env := by
  refine ⟨hσ.closed.mono (objects_subset ?_), hσ.interned⟩
  rw [pop_held hs, CallState.held, hs]
  exact List.subset_cons_self _ _

theorem ran_pop (hs : σ.stack = s.push v) (hb : Based bs s σ) :
    Ran env bs s [] σ ((σ.pop 1).moment env) := by
  have hsound := sound_pop hσ hs
  exact ⟨hsound.goes_moment (pop_held hs ▸ hb) keeps_refl rfl rfl, hsound.moment, pop_stack hs, rfl,
    rfl, (List.append_nil _).symm⟩

omit hσ in
theorem luaGetfield_ok {key : OptionKey} (hrun : SpawnM.luaGetfield env key σ = .ok ((), τ)) :
    ∃ a found, σ.stack.get 1 = some (.object a) ∧ σ.heap.lookup key.text 100 a = .ok found ∧
      τ = (σ.pushFound env.toLuaStrings found).moment env := by
  unfold SpawnM.luaGetfield at hrun
  split at hrun
  swap
  · cases hrun
  next a ha =>
  split at hrun
  · next found hl => exact ⟨a, found, ha, hl, (Prod.mk.inj (Except.ok.inj hrun)).2.symm⟩
  · cases hrun

theorem ran_pushFound (hb : bs ⊆ σ.held) {a n : ℕ} {key : LuaString} {found : Found N}
    (ha : .object a ∈ σ.held) (hl : σ.heap.lookup key n a = .ok found) :
    ∃ v, Ran env bs (σ.stack.push v) [] σ ((σ.pushFound env.toLuaStrings found).moment env) := by
  cases found with
  | value v =>
    refine ⟨v, ran_push hσ hb ?_⟩
    intro b hb
    refine reach_of_reach ?_ (LuaHeap.lookup_reach hl hb)
    intro c hc
    obtain rfl := List.mem_singleton.mp hc
    exact .root (mem_objects.mpr ha)
  | string s =>
    exact ⟨_, ran_pushNew hb (LuaHeap.newString_sound hσ s) (LuaHeap.newString_keeps hσ.closed s)⟩
  | array xs =>
    obtain ⟨hs, hk, -⟩ := LuaHeap.newArray_spec xs hσ
    exact ⟨_, ran_pushNew hb hs hk⟩

theorem luaGetfield_ran {key : OptionKey} (hb : bs ⊆ σ.held)
    (hrun : SpawnM.luaGetfield env key σ = .ok ((), τ)) :
    ∃ v, Ran env bs (σ.stack.push v) [] σ τ := by
  obtain ⟨a, found, ha, hl, rfl⟩ := luaGetfield_ok hrun
  exact ran_pushFound hσ hb (List.mem_append_left _ (LuaStack.mem_of_get ha)) hl

end

/-! The arrays. -/

namespace LuaHeap

theorem arrayOf_eq_some {h : LuaHeap N} {v : LuaVal N} {xs : List (LuaVal N)} :
    h.arrayOf v = some xs ↔
      ∃ a fields index, v = .object a ∧ h.get a = some (.table xs fields index) := by
  unfold arrayOf
  split
  · next a =>
    split
    · next array fields index hget => simp [hget]
    · next hne =>
      simp only [reduceCtorEq, LuaVal.object.injEq, false_iff]
      rintro ⟨_, fields, index, rfl, hget⟩
      exact hne _ _ _ hget
  · next hne =>
    simp only [reduceCtorEq, false_iff]
    rintro ⟨a, -, -, rfl, -⟩
    exact hne a rfl

/-- The elements of a table are what it leads to. -/
theorem reach_arrayOf {h : LuaHeap N} {v : LuaVal N} {xs : List (LuaVal N)}
    (hv : h.arrayOf v = some xs) {x : LuaVal N} (hx : x ∈ xs) {b : ℕ} (hb : b ∈ objects [x]) :
    Reach LuaObj.refs h (objects [v]) b := by
  obtain ⟨a, fields, index, rfl, hget⟩ := arrayOf_eq_some.mp hv
  have ha : Reach LuaObj.refs h (objects [LuaVal.object (N := N) a]) a :=
    .root (mem_objects.mpr List.mem_cons_self)
  exact ha.step hget (List.mem_append_left _ (objects_singleton (List.mem_append_left _ hx) hb))

theorem arrayOf_keeps {h h' : LuaHeap N} {v : LuaVal N}
    (hk : Keeps LuaObj.refs (objects [v]) h h') : h'.arrayOf v = h.arrayOf v := by
  cases v with
  | object a =>
    have hget := hk a (.root (mem_objects.mpr List.mem_cons_self))
    simp only [arrayOf, hget]
  | nil | boolean | number => rfl

end LuaHeap

/-- `e` points into the string of the value `v`; what `bs` leads to is that of the heap `h`. -/
structure EntryOf (L : LuaStrings N) (h : LuaHeap N) (bs : List (LuaVal N)) (v : LuaVal N)
    (e : CStr) : Prop where
  text : h.text L v = some e.text
  holds : Reach LuaObj.refs h (objects bs) e.obj ↔ h.Holds L (objects bs) v
  string : Reach LuaObj.refs h (objects bs) e.obj → h.get e.obj = some (.string e.text)

section
variable {env : SpawnEnv N} {bs : List (LuaVal N)} {s : LuaStack (LuaVal N)} {σ τ : CallState N}
  {v x : LuaVal N} {h : LuaHeap N}

theorem luaTostring_cases (hs : σ.stack = s.push x) {o : Option CStr}
    (hrun : SpawnM.luaTostring env σ = .ok (o, τ)) :
    (o = none ∧ τ = σ) ∨
    (∃ a t, x = .object a ∧ σ.heap.get a = some (.string t) ∧ o = some ⟨a, t⟩ ∧ τ = σ) ∨
    (∃ n, x = .number n ∧
      o = some ⟨(σ.heap.newString env.toLuaStrings (env.tostr n)).2, env.tostr n⟩ ∧
      τ = ((σ.pop 1).pushNew (σ.heap.newString env.toLuaStrings (env.tostr n))).moment env) := by
  unfold SpawnM.luaTostring at hrun
  rw [hs, LuaStack.get_top] at hrun
  split at hrun
  · next a hx =>
    obtain rfl := Option.some.inj hx
    split at hrun
    · next t ht =>
      obtain ⟨ho, hτ⟩ := Prod.mk.inj (Except.ok.inj hrun)
      exact .inr (.inl ⟨a, t, rfl, ht, ho.symm, hτ.symm⟩)
    · obtain ⟨ho, hτ⟩ := Prod.mk.inj (Except.ok.inj hrun)
      exact .inl ⟨ho.symm, hτ.symm⟩
  · next n hx =>
    obtain rfl := Option.some.inj hx
    obtain ⟨ho, hτ⟩ := Prod.mk.inj (Except.ok.inj hrun)
    exact .inr (.inr ⟨n, rfl, ho.symm, hτ.symm⟩)
  · obtain ⟨ho, hτ⟩ := Prod.mk.inj (Except.ok.inj hrun)
    exact .inl ⟨ho.symm, hτ.symm⟩

theorem luaTostring_ran (hσ : σ.Sound env) (hs : σ.stack = s.push x)
    (hb : Based bs s σ) {o : Option CStr}
    (hrun : SpawnM.luaTostring env σ = .ok (o, τ)) :
    ∃ x', Ran env bs (s.push x') [] σ τ := by
  rcases luaTostring_cases hs hrun with ⟨-, rfl⟩ | ⟨a, t, -, -, -, rfl⟩ | ⟨n, -, -, rfl⟩
  · exact ⟨x, ran_refl hσ hs⟩
  · exact ⟨x, ran_refl hσ hs⟩
  · have hsound : ((σ.pop 1).pushNew (σ.heap.newString env.toLuaStrings (env.tostr n))).Sound env :=
      LuaHeap.newString_sound (sound_pop hσ hs) _
    have hbs : bs ⊆ (σ.pop 1).held := pop_held hs ▸ hb
    have hk := LuaHeap.newString_keeps (L := env.toLuaStrings) hσ.closed (env.tostr n)
    have hsub : objects bs ⊆ σ.roots := by
      refine List.Subset.trans (objects_subset hb) (objects_subset ?_)
      rw [CallState.held, hs]
      exact List.subset_cons_self _ _
    exact ⟨_, hsound.goes_moment (List.subset_cons_of_subset _ hbs) (hk.mono hsub) rfl rfl,
      hsound.moment, congrArg (LuaStack.push · _) (pop_stack hs), rfl, rfl,
      (List.append_nil _).symm⟩

/-- The pointer for an element of the table `v`, in a heap that has kept the table. -/
theorem luaTostring_entry (hσ : σ.Sound env) (hs : σ.stack = s.push x)
    (hc : Closed LuaObj.refs (objects bs) h) (hb : bs ⊆ σ.held)
    (hk : Keeps LuaObj.refs (objects (v :: bs)) h σ.heap)
    (hx : ∀ a ∈ objects [x], Reach LuaObj.refs h (objects [v]) a) {e : CStr}
    (hrun : SpawnM.luaTostring env σ = .ok (some e, τ)) :
    EntryOf env.toLuaStrings h bs x e := by
  have hkb : Keeps LuaObj.refs (objects bs) h σ.heap :=
    hk.mono (objects_subset (List.subset_cons_self _ _))
  rcases luaTostring_cases hs hrun with ⟨ho, -⟩ | ⟨a, t, rfl, ht, ho, -⟩ | ⟨n, rfl, ho, -⟩
  · cases ho
  · obtain rfl := Option.some.inj ho
    have ha : Reach LuaObj.refs h (objects (v :: bs)) a :=
      (hx a (mem_objects.mpr List.mem_cons_self)).mono (objects_singleton List.mem_cons_self)
    have hget : h.get a = some (.string t) := (hk a ha).symm.trans ht
    exact ⟨by simp only [LuaHeap.text, hget], Iff.rfl, fun _ => hget⟩
  -- a number is converted in place: the string is interned or new
  · obtain rfl := Option.some.inj ho
    have hsub : objects bs ⊆ σ.roots := objects_subset hb
    have hkn := hkb.trans ((LuaHeap.newString_keeps (L := env.toLuaStrings) hσ.closed
      (env.tostr n)).mono hsub)
    have hget := LuaHeap.newString_get (L := env.toLuaStrings) (h := σ.heap) (env.tostr n)
    refine ⟨rfl, ?_, fun hr => (hkn _ hr).symm.trans hget⟩
    exact LuaHeap.reach_made hc (LuaHeap.newString_interned hσ.interned _) hkn hget
      (.inl (env.interned_tostr n))

theorem SpawnM.bind_eq_ok {α β : Type} {f : SpawnM N α} {g : α → SpawnM N β}
    {r : β × CallState N} (hrun : (f >>= g) σ = .ok r) :
    ∃ a τ, f σ = .ok (a, τ) ∧ g a τ = .ok r := by
  obtain ⟨⟨a, τ⟩, hf, hg⟩ := Couv.bind_eq_ok hrun
  exact ⟨a, τ, hf, hg⟩

theorem SpawnM.value_bind {α : Type} (index : ℤ) (f : LuaVal N → SpawnM N α) :
    (SpawnM.value index >>= f) σ = f ((σ.stack.get index).getD .nil) σ := rfl

theorem SpawnM.array_bind {α : Type} (v : LuaVal N)
    (f : Option (List (LuaVal N)) → SpawnM N α) :
    (SpawnM.array v >>= f) σ = f (σ.heap.arrayOf v) σ := rfl

theorem SpawnM.check_same {α : Type} {x : Except LuaError α} {a : α}
    (hrun : SpawnM.check x σ = .ok (a, τ)) : τ = σ := by
  cases x with
  | ok a => exact (Prod.mk.inj (Except.ok.inj hrun)).2.symm
  | error e => cases hrun

theorem luaPop_ran (hσ : σ.Sound env) (hs : σ.stack = s.push v)
    (hb : Based bs s σ)
    (hrun : SpawnM.luaPop env 1 σ = .ok ((), τ)) : Ran env bs s [] σ τ := by
  obtain rfl := (Prod.mk.inj (Except.ok.inj hrun)).2
  exact ran_pop hσ hs hb

theorem luaRawgeti_ran (hσ : σ.Sound env) (hs : σ.stack = s.push v) (hb : bs ⊆ σ.held) {i : ℕ}
    (hrun : SpawnM.luaRawgeti env (-1) i σ = .ok ((), τ)) :
    Ran env bs ((s.push v).push (((σ.heap.arrayOf v).getD []).getD (i-1) .nil)) [] σ τ := by
  unfold SpawnM.luaRawgeti at hrun
  rw [top_value hs] at hrun
  obtain rfl := (Prod.mk.inj (Except.ok.inj hrun)).2
  rw [← hs]
  refine ran_push hσ hb ?_
  -- the table is on the stack, and a missing element is nil
  intro a ha
  cases hxs : σ.heap.arrayOf v with
  | none =>
    rw [hxs] at ha
    cases ha
  | some xs =>
    rw [hxs, Option.getD_some, List.getD_eq_getElem?_getD] at ha
    cases hx : xs[i-1]? with
    | none =>
      rw [hx] at ha
      cases ha
    | some x =>
      rw [hx] at ha
      refine (LuaHeap.reach_arrayOf hxs (List.mem_of_getElem? hx) ha).mono ?_
      rw [CallState.roots, CallState.held, hs]
      exact objects_singleton List.mem_cons_self

theorem ran_store (hσ : σ.Sound env) (hs : σ.stack = s) (e : CStr) :
    Ran env bs s [e] σ { σ with entries := σ.entries ++ [e] } where
  goes := ⟨keeps_refl, List.prefix_append _ _, [], (List.append_nil _).symm, fun _ h => nomatch h⟩
  sound := hσ
  stack := hs
  mtbl := rfl
  others := rfl
  entries := rfl

/-- One entry for each element of the table, in order. -/
theorem fillStrs_ran {xs : List (LuaVal N)} (hxs : h.arrayOf v = some xs)
    (hc : Closed LuaObj.refs (objects bs) h) {k i : ℕ} (hi : i+k = xs.length+1) (hi₁ : 1 ≤ i)
    {es : List CStr} (hσ : σ.Sound env) (hs : σ.stack = s.push v)
    (hb : Based bs s σ)
    (hk : Keeps LuaObj.refs (objects (v :: bs)) h σ.heap)
    (hrun : SpawnM.fillStrs env (-1) i k σ = .ok (es, τ)) :
    Ran env (v :: bs) (s.push v) es σ τ ∧
    List.Forall₂ (EntryOf env.toLuaStrings h bs) (xs.drop (i-1)) es := by
  -- k strings are missing, and i is the index of the next one
  induction k generalizing i σ es with
  | zero =>
    obtain ⟨rfl, rfl⟩ := Prod.mk.inj (Except.ok.inj hrun)
    rw [List.drop_eq_nil_of_le (by omega)]
    exact ⟨ran_refl hσ hs, .nil⟩
  | succ k ih =>
    have hx : i-1 < xs.length := by omega
    obtain ⟨_, σ₁, hget, hrun⟩ := SpawnM.bind_eq_ok hrun
    obtain ⟨arg, σ₂, htostr, hrun⟩ := SpawnM.bind_eq_ok hrun
    obtain ⟨_, σ₃, hpop, hrun⟩ := SpawnM.bind_eq_ok hrun
    have h₁ := luaRawgeti_ran hσ hs ((hb.cons v).held hs) hget
    have harr : σ.heap.arrayOf v = some xs := by
      rw [LuaHeap.arrayOf_keeps (hk.mono (objects_singleton List.mem_cons_self)), hxs]
    rw [harr, Option.getD_some, List.getD_eq_getElem?_getD, List.getElem?_eq_getElem hx,
      Option.getD_some] at h₁
    have hb₁ := h₁.based hb
    obtain ⟨x', h₂⟩ := luaTostring_ran h₁.sound h₁.stack (hb₁.cons v) htostr
    have hb₂ := h₂.based hb₁
    have h₃ := luaPop_ran h₂.sound h₂.stack (hb₂.cons v) hpop
    cases arg with
    | none => cases hrun
    | some e =>
      obtain ⟨_, σ₄, hstore, hrun⟩ := SpawnM.bind_eq_ok hrun
      obtain rfl := (Prod.mk.inj (Except.ok.inj hstore)).2
      have h₄ := (h₁.trans h₂).trans (h₃.trans (ran_store h₃.sound h₃.stack e))
      obtain ⟨es', τ', hrest, hrun⟩ := SpawnM.bind_eq_ok hrun
      obtain ⟨rfl, rfl⟩ := Prod.mk.inj (Except.ok.inj hrun)
      obtain ⟨h₅, hall⟩ := ih (i := i+1) (by omega) (by omega) h₄.sound h₄.stack (h₃.based hb₂)
        (hk.trans h₄.goes.keeps) hrest
      refine ⟨h₄.trans h₅, ?_⟩
      -- the element at i comes in front of the remaining ones
      have hdrop : xs.drop (i-1) = xs[i-1] :: xs.drop (i+1-1) := by
        rw [List.drop_eq_getElem_cons hx]
        congr 2
        omega
      rw [hdrop]
      refine .cons ?_ hall
      refine luaTostring_entry (v := v) h₁.sound h₁.stack hc ?_ (hk.trans h₁.goes.keeps) ?_ htostr
      · exact ((hb₁.push v).push _).held h₁.stack
      · intro a ha
        exact LuaHeap.reach_arrayOf hxs (List.getElem_mem hx) ha

theorem strArray_ran {ok : Bool} {p : Option (List (Option CStr))} {n : ℕ} (hσ : σ.Sound env)
    (hs : σ.stack = s.push v) (hb : Based bs s σ)
    (hrun : SpawnM.couvTonullterminatedstrarray env (-1) ok σ = .ok ((p, n), τ)) :
    ∃ es, Ran env (v :: bs) (s.push v) es σ τ ∧ n = es.length ∧
      ((v = .nil ∧ p = none ∧ es = []) ∨
      ∃ xs, σ.heap.arrayOf v = some xs ∧ p = some (es.map some ++ [none]) ∧
        List.Forall₂ (EntryOf env.toLuaStrings σ.heap bs) xs es) := by
  unfold SpawnM.couvTonullterminatedstrarray at hrun
  rw [SpawnM.value_bind, top_value hs] at hrun
  cases hnil : v.isNil with
  | true =>
    rw [hnil] at hrun
    obtain ⟨hpn, rfl⟩ := Prod.mk.inj (Except.ok.inj hrun)
    obtain ⟨rfl, rfl⟩ := Prod.mk.inj hpn
    have hv : v = .nil := by
      cases v with
      | nil => rfl
      | boolean | number | object => cases hnil
    -- nil gives a NULL array
    exact ⟨[], ran_refl hσ hs, rfl, .inl ⟨hv, rfl, rfl⟩⟩
  | false =>
    rw [hnil, if_neg Bool.false_ne_true, SpawnM.array_bind] at hrun
    cases hxs : σ.heap.arrayOf v with
    | none =>
      rw [hxs] at hrun
      cases hrun
    | some xs =>
      rw [hxs] at hrun
      obtain ⟨_, _, hcheck, hrun⟩ := SpawnM.bind_eq_ok hrun
      rw [SpawnM.check_same hcheck] at hrun
      obtain ⟨es, σ₃, hfill, hrun⟩ := SpawnM.bind_eq_ok hrun
      obtain ⟨hpn, rfl⟩ := Prod.mk.inj (Except.ok.inj hrun)
      obtain ⟨rfl, rfl⟩ := Prod.mk.inj hpn
      have hheld := (hb.push v).held hs
      obtain ⟨hran, hall⟩ := fillStrs_ran hxs (hσ.closed.mono (objects_subset hheld))
        (Nat.add_comm _ _) le_rfl hσ hs hb keeps_refl hfill
      exact ⟨es, hran, hall.length_eq, .inr ⟨xs, rfl, rfl, hall⟩⟩

end

/-! The other options, which write no entries. -/

section
variable {env : SpawnEnv N} {bs : List (LuaVal N)} {s : LuaStack (LuaVal N)} {σ τ : CallState N}
  {v : LuaVal N}

theorem SpawnM.checkFlags_same {flags : LuaVal N} (hrun : SpawnM.checkFlags flags σ = .ok ((), τ)) :
    τ = σ := by
  unfold SpawnM.checkFlags at hrun
  split at hrun
  · exact (Prod.mk.inj (Except.ok.inj hrun)).2.symm
  · cases hrun

theorem SpawnM.checkCallback_same {cb : LuaVal N} (hrun : SpawnM.checkCallback cb σ = .ok ((), τ)) :
    τ = σ := by
  unfold SpawnM.checkCallback at hrun
  split at hrun
  · exact (Prod.mk.inj (Except.ok.inj hrun)).2.symm
  · cases hrun

theorem SpawnM.checkStdioClass_same (hrun : SpawnM.checkStdioClass σ = .ok ((), τ)) : τ = σ := by
  unfold SpawnM.checkStdioClass at hrun
  split at hrun
  · split at hrun
    · cases hrun
    · exact (Prod.mk.inj (Except.ok.inj hrun)).2.symm
  · exact (Prod.mk.inj (Except.ok.inj hrun)).2.symm

/-- A field whose value is read and popped. -/
theorem field_ran {α : Type} {key : OptionKey} {f : SpawnM N α} {x : α} (hσ : σ.Sound env)
    (hs : σ.stack = s) (hb : Based bs s σ)
    (hf : ∀ σ₁ τ₁ y v, σ₁.Sound env → σ₁.stack = s.push v → Based bs s σ₁ →
      f σ₁ = .ok (y, τ₁) → ∃ v', Ran env bs (s.push v') [] σ₁ τ₁)
    (hrun : SpawnM.field env key f σ = .ok (x, τ)) : Ran env bs s [] σ τ := by
  subst hs
  obtain ⟨_, σ₁, hfield, hrun⟩ := SpawnM.bind_eq_ok hrun
  obtain ⟨y, σ₂, hbody, hrun⟩ := SpawnM.bind_eq_ok hrun
  obtain ⟨_, σ₃, hpop, hrun⟩ := SpawnM.bind_eq_ok hrun
  obtain ⟨-, rfl⟩ := Prod.mk.inj (Except.ok.inj hrun)
  obtain ⟨v, h₁⟩ := luaGetfield_ran hσ hb hfield
  have hb₁ : Based bs σ.stack σ₁ := h₁.based hb
  obtain ⟨v', h₂⟩ := hf σ₁ σ₂ y v h₁.sound h₁.stack hb₁ hbody
  have hb₂ := h₂.based hb₁
  exact (h₁.trans h₂).trans (luaPop_ran h₂.sound h₂.stack hb₂ hpop)

theorem field_tostring {key : OptionKey} {o : Option CStr} (hσ : σ.Sound env) (hs : σ.stack = s)
    (hb : Based bs s σ) (hrun : SpawnM.field env key (SpawnM.luaTostring env) σ = .ok (o, τ)) :
    Ran env bs s [] σ τ :=
  field_ran hσ hs hb (fun _ _ _ _ hσ₁ hs hb₁ hf => luaTostring_ran hσ₁ hs hb₁ hf) hrun

theorem field_pure {key : OptionKey} (hσ : σ.Sound env) (hs : σ.stack = s)
    (hb : Based bs s σ) (hrun : SpawnM.field env key (pure ()) σ = .ok ((), τ)) :
    Ran env bs s [] σ τ := by
  refine field_ran hσ hs hb ?_ hrun
  intro σ₁ τ₁ _ v hσ₁ hs _ hf
  obtain rfl := (Prod.mk.inj (Except.ok.inj hf)).2
  exact ⟨v, ran_refl hσ₁ hs⟩

theorem stdioContainer_ran {i : ℕ} (hσ : σ.Sound env) (hs : σ.stack = s.push v)
    (hb : Based bs s σ) (hrun : SpawnM.stdioContainer env i σ = .ok ((), τ)) :
    Ran env bs (s.push v) [] σ τ := by
  obtain ⟨_, σ₁, hget, hrun⟩ := SpawnM.bind_eq_ok hrun
  have h₁ := luaRawgeti_ran hσ hs ((hb.push v).held hs) hget
  generalize ((σ.heap.arrayOf v).getD []).getD (i-1) .nil = w at h₁
  have hb₁ := h₁.based (hb.push v)
  rw [SpawnM.value_bind, SpawnM.array_bind] at hrun
  cases helem : σ₁.heap.arrayOf ((σ₁.stack.get (-1)).getD .nil) with
  | none =>
    rw [helem] at hrun
    cases hrun
  | some elem =>
  rw [helem] at hrun
  obtain ⟨_, _, hcheck, hrun⟩ := SpawnM.bind_eq_ok hrun
  rw [SpawnM.check_same hcheck] at hrun
  -- the flags
  obtain ⟨_, σ₂, hget₂, hrun⟩ := SpawnM.bind_eq_ok hrun
  have h₂ := luaRawgeti_ran h₁.sound h₁.stack ((hb₁.push w).held h₁.stack) hget₂
  rw [SpawnM.value_bind] at hrun
  obtain ⟨_, _, hflags, hrun⟩ := SpawnM.bind_eq_ok hrun
  rw [SpawnM.checkFlags_same hflags] at hrun
  obtain ⟨_, σ₃, hpop, hrun⟩ := SpawnM.bind_eq_ok hrun
  have h₃ := luaPop_ran h₂.sound h₂.stack (h₂.based (hb₁.push w)) hpop
  have hb₃ := h₃.based (h₂.based hb₁)
  have hran₃ := (h₁.trans h₂).trans h₃
  split at hrun
  · -- the stream or the file descriptor
    obtain ⟨_, σ₄, hget₄, hrun⟩ := SpawnM.bind_eq_ok hrun
    have h₄ := luaRawgeti_ran h₃.sound h₃.stack ((hb₃.push w).held h₃.stack) hget₄
    obtain ⟨_, _, hclass, hrun⟩ := SpawnM.bind_eq_ok hrun
    rw [SpawnM.checkStdioClass_same hclass] at hrun
    obtain ⟨_, σ₅, hpop₅, hrun⟩ := SpawnM.bind_eq_ok hrun
    have h₅ := luaPop_ran h₄.sound h₄.stack (h₄.based (hb₃.push w)) hpop₅
    have h₆ := luaPop_ran h₅.sound h₅.stack (h₅.based (h₄.based hb₃)) hrun
    exact hran₃.trans ((h₄.trans h₅).trans h₆)
  · exact hran₃.trans (luaPop_ran h₃.sound h₃.stack hb₃ hrun)

theorem stdioLoop_ran {k i : ℕ} (hσ : σ.Sound env) (hs : σ.stack = s.push v)
    (hb : Based bs s σ) (hrun : SpawnM.stdioLoop env i k σ = .ok ((), τ)) :
    Ran env bs (s.push v) [] σ τ := by
  induction k generalizing i σ with
  | zero =>
    obtain rfl := (Prod.mk.inj (Except.ok.inj hrun)).2
    exact ran_refl hσ hs
  | succ k ih =>
    obtain ⟨_, σ₁, hbody, hrun⟩ := SpawnM.bind_eq_ok hrun
    have h₁ := stdioContainer_ran hσ hs hb hbody
    exact h₁.trans (ih h₁.sound h₁.stack (h₁.based hb) hrun)

theorem stdio_ran {ok : Bool} (hσ : σ.Sound env) (hs : σ.stack = s) (hb : Based bs s σ)
    (hrun : SpawnM.couvCheckstdiocontainers env ok σ = .ok ((), τ)) :
    ∃ v, Ran env bs (s.push v) [] σ τ := by
  subst hs
  obtain ⟨_, σ₁, hfield, hrun⟩ := SpawnM.bind_eq_ok hrun
  obtain ⟨v, h₁⟩ := luaGetfield_ran hσ hb hfield
  refine ⟨v, h₁.trans ?_⟩
  rw [SpawnM.value_bind] at hrun
  split at hrun
  · obtain rfl := (Prod.mk.inj (Except.ok.inj hrun)).2
    exact ran_refl h₁.sound h₁.stack
  · rw [SpawnM.array_bind] at hrun
    cases hxs : σ₁.heap.arrayOf ((σ₁.stack.get (-1)).getD .nil) with
    | none =>
      rw [hxs] at hrun
      cases hrun
    | some xs =>
      rw [hxs] at hrun
      obtain ⟨_, _, hcheck, hrun⟩ := SpawnM.bind_eq_ok hrun
      rw [SpawnM.check_same hcheck] at hrun
      exact stdioLoop_ran h₁.sound h₁.stack (h₁.based hb) hrun

/-- The callback moves from the stack to the registry. -/
theorem rawsetp_goes (hσ : σ.Sound env) (hs : σ.stack = s.push v) (hb : Based bs s σ)
    (hrun : SpawnM.couvRawsetp env σ = .ok ((), τ)) :
    Goes bs σ τ ∧ τ.Sound env ∧ bs ⊆ τ.held ∧ τ.entries = σ.entries := by
  obtain rfl := (Prod.mk.inj (Except.ok.inj hrun)).2
  let υ : CallState N := { σ.pop 1 with others := (σ.stack.get (-1)).getD .nil :: σ.others }
  have hheld : υ.held = s.slots ++ σ.processMtbl :: v :: σ.others := by
    change (σ.pop 1).stack.slots ++ σ.processMtbl :: (σ.stack.get (-1)).getD .nil :: σ.others = _
    rw [pop_stack hs, top_value hs]
  have hbs : bs ⊆ υ.held := by
    intro x hx
    have hx' := hb hx
    simp only [hheld, List.mem_append, List.mem_cons] at hx' ⊢
    tauto
  have hsub : υ.held ⊆ σ.held := by
    intro x hx
    rw [hheld] at hx
    rw [CallState.held, hs]
    simp only [LuaStack.push, List.mem_append, List.mem_cons] at hx ⊢
    tauto
  have hsound : υ.Sound env := ⟨hσ.closed.mono (objects_subset hsub), hσ.interned⟩
  exact ⟨hsound.goes_moment hbs keeps_refl rfl rfl, hsound.moment, hbs, rfl⟩

theorem spawnRest_goes {o : Option CStr} (hσ : σ.Sound env) (hs : σ.stack = s)
    (hb : Based bs s σ) (hrun : SpawnM.spawnRest env σ = .ok (o, τ)) :
    Goes bs σ τ ∧ τ.Sound env ∧ bs ⊆ τ.held ∧ τ.entries = σ.entries := by
  obtain ⟨cwd, σ₁, hcwd, hrun⟩ := SpawnM.bind_eq_ok hrun
  have h₁ := field_tostring hσ hs hb hcwd
  -- flags, uid and gid
  obtain ⟨_, σ₂, hflags, hrun⟩ := SpawnM.bind_eq_ok hrun
  have h₂ := h₁.trans (field_pure h₁.sound h₁.stack (h₁.based hb) hflags)
  obtain ⟨_, σ₃, huid, hrun⟩ := SpawnM.bind_eq_ok hrun
  have h₃ := h₂.trans (field_pure h₂.sound h₂.stack (h₂.based hb) huid)
  obtain ⟨_, σ₄, hgid, hrun⟩ := SpawnM.bind_eq_ok hrun
  have h₄ := h₃.trans (field_pure h₃.sound h₃.stack (h₃.based hb) hgid)
  -- stdio
  obtain ⟨_, σ₅, hstdio, hrun⟩ := SpawnM.bind_eq_ok hrun
  obtain ⟨w, h₅'⟩ := stdio_ran h₄.sound h₄.stack (h₄.based hb) hstdio
  have h₅ := h₄.trans h₅'
  obtain ⟨_, σ₆, hpop, hrun⟩ := SpawnM.bind_eq_ok hrun
  have h₆ := h₅.trans (luaPop_ran h₅.sound h₅.stack (h₅.based hb) hpop)
  -- exitCb
  obtain ⟨_, σ₇, hexit, hrun⟩ := SpawnM.bind_eq_ok hrun
  obtain ⟨cb, h₇'⟩ := luaGetfield_ran h₆.sound ((h₆.based hb).held h₆.stack) hexit
  have h₇ := h₆.trans h₇'
  rw [SpawnM.value_bind] at hrun
  obtain ⟨_, _, hcb, hrun⟩ := SpawnM.bind_eq_ok hrun
  rw [SpawnM.checkCallback_same hcb] at hrun
  obtain ⟨_, σ₈, hset, hrun⟩ := SpawnM.bind_eq_ok hrun
  obtain ⟨-, rfl⟩ := Prod.mk.inj (Except.ok.inj hrun)
  obtain ⟨hg, hσ₈, hb₈, he⟩ := rawsetp_goes h₇.sound h₇.stack (h₆.stack ▸ h₇.based hb) hset
  have he₇ : σ₇.entries = σ.entries := by simpa using h₇.entries
  exact ⟨h₇.goes.trans hg, hσ₈, hb₈, he.trans he₇⟩

end

end Couv
