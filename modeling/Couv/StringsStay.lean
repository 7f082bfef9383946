import Couv.SpawnRun
import Mathlib.Data.List.ReduceOption

/-! Which strings of Process.spawn stay until uv_spawn has returned. -/
namespace Couv

variable {N : Type}

/-- As `EntryOf`, for an element of an array among the options. -/
structure ElemOf (L : LuaStrings N) (h : LuaHeap N) (bs : List (LuaVal N)) (x : Elem N)
    (e : CStr) : Prop where
  text : x.text L h = some e.text
  anchored : Reach LuaObj.refs h (objects bs) e.obj ↔ x.Anchored L h (objects bs)
  string : Reach LuaObj.refs h (objects bs) e.obj → h.get e.obj = some (.string e.text)

section
variable {L : LuaStrings N} {bs : List (LuaVal N)} {h h' : LuaHeap N} {e : CStr}

theorem LuaHeap.anchored_keeps (hk : Keeps LuaObj.refs (objects bs) h h') (s : LuaString) :
    h'.Anchored L (objects bs) s ↔ h.Anchored L (objects bs) s := by
  refine and_congr_right fun _ => exists_congr fun a => ?_
  rw [hk.reach]
  exact and_congr_right fun ha => by rw [hk a ha]

/-- An element of a table that the options lead to. -/
theorem EntryOf.elemOf_held {x : LuaVal N} (he : EntryOf L h' bs x e)
    (hk : Keeps LuaObj.refs (objects bs) h h')
    (hx : ∀ a ∈ objects [x], Reach LuaObj.refs h (objects bs) a) : ElemOf L h bs (.held x) e := by
  obtain ⟨htext, hholds, hstring⟩ := he
  rw [hk.reach] at hholds hstring
  refine ⟨?_, ?_, fun hr => (hk _ hr).symm.trans (hstring hr)⟩
  · cases x with
    | object a =>
      have hget := hk a (hx a (mem_objects.mpr List.mem_cons_self))
      simpa only [Elem.text, LuaHeap.text, hget] using htext
    | nil | boolean | number => exact htext
  · cases x with
    | object a =>
      have ha := hx a (mem_objects.mpr List.mem_cons_self)
      exact iff_of_true (hholds.mpr (hk.reach.mpr ha)) trivial
    | number n => exact hholds.trans (LuaHeap.anchored_keeps hk _)
    | nil | boolean => cases htext

/-- An element that an `__index` function has made, in the heap `h''`. -/
theorem EntryOf.elemOf_made {y : N ⊕ LuaString} {x : LuaVal N} {h'' : LuaHeap N}
    (he : EntryOf L h' bs x e) (hc : Closed LuaObj.refs (objects bs) h)
    (hi : h''.Interned L) (hk'' : Keeps LuaObj.refs (objects bs) h h'')
    (hnew : LuaHeap.NewValue L h.next h'' y x) (hx : ∀ a ∈ objects [x], h'.get a = h''.get a)
    (hk : Keeps LuaObj.refs (objects bs) h h') : ElemOf L h bs (.made y) e := by
  obtain ⟨htext, hholds, hstring⟩ := he
  rw [hk.reach] at hholds hstring
  cases y with
  | inl n =>
    obtain rfl : x = .number n := hnew
    exact ⟨htext, hholds.trans (LuaHeap.anchored_keeps hk _),
      fun hr => (hk _ hr).symm.trans (hstring hr)⟩
  | inr s =>
    obtain ⟨a, rfl, hget, hnew⟩ := hnew
    have hget' := (hx a (mem_objects.mpr List.mem_cons_self)).trans hget
    refine ⟨?_, ?_, fun hr => (hk _ hr).symm.trans (hstring hr)⟩
    · simpa only [Elem.text, LuaHeap.text, hget'] using htext
    · calc Reach LuaObj.refs h (objects bs) e.obj
        _ ↔ Reach LuaObj.refs h (objects bs) a := hholds.trans hk.reach
        _ ↔ h.Anchored L (objects bs) s := LuaHeap.reach_made hc hi hk'' hget hnew

end

theorem forall₂_through {α β γ : Type*} {R : α → β → Prop} {S : β → γ → Prop} {T : α → γ → Prop}
    {xs : List α} {ys : List β} {zs : List γ} (h : ∀ x, ∀ y ∈ ys, ∀ z, R x y → S y z → T x z)
    (hxy : List.Forall₂ R xs ys) (hyz : List.Forall₂ S ys zs) : List.Forall₂ T xs zs := by
  induction hxy generalizing zs with
  | nil =>
    cases hyz
    exact .nil
  | cons hr _ ih =>
    cases hyz with
    | cons hs hyz =>
      exact .cons (h _ _ List.mem_cons_self _ hr hs)
        (ih (fun x y hy z => h x y (List.mem_cons_of_mem _ hy) z) hyz)

section
variable {env : SpawnEnv N} {bs : List (LuaVal N)} {s : LuaStack (LuaVal N)} {σ τ : CallState N}
  {options : LuaVal N}

theorem push_inj {s : LuaStack (LuaVal N)} {v w : LuaVal N} (h : s.push v = s.push w) : v = w :=
  (List.cons.inj (congrArg LuaStack.slots h)).1

/-- The elements of the field that is on the stack. -/
theorem found_elements {key : OptionKey} {v : LuaVal N} {xs : List (LuaVal N)} {es : List CStr}
    (hσ : σ.Sound env) (hb : bs ⊆ σ.held) (hget : σ.stack.get 1 = some options)
    (hopt : options ∈ bs) (hrun : SpawnM.luaGetfield env key σ = .ok ((), τ))
    (hv : τ.stack = σ.stack.push v) (hk : Keeps LuaObj.refs (objects bs) σ.heap τ.heap)
    (hxs : τ.heap.arrayOf v = some xs)
    (hes : List.Forall₂ (EntryOf env.toLuaStrings τ.heap bs) xs es) :
    List.Forall₂ (ElemOf env.toLuaStrings σ.heap bs) (σ.heap.elements options key) es := by
  obtain ⟨a, found, ha, hl, rfl⟩ := luaGetfield_ok hrun
  obtain rfl := Option.some.inj (hget.symm.trans ha)
  simp only [LuaHeap.elements, hl]
  cases found with
  | value w =>
    obtain rfl : w = v := push_inj hv
    have hw : ∀ b ∈ objects [w], Reach LuaObj.refs σ.heap (objects bs) b := by
      intro b hb
      refine reach_of_reach ?_ (LuaHeap.lookup_reach hl hb)
      intro c hc
      obtain rfl := List.mem_singleton.mp hc
      exact .root (mem_objects.mpr hopt)
    have harr : σ.heap.arrayOf w = some xs :=
      (LuaHeap.arrayOf_keeps (hk.of_reach hw)).symm.trans hxs
    simp only [harr, Option.getD_some]
    refine List.forall₂_map_left_iff.mpr (forall₂_through (R := Eq) ?_ (List.forall₂_refl xs) hes)
    rintro x _ hx e rfl he
    exact he.elemOf_held hk fun b hb => reach_of_reach hw (LuaHeap.reach_arrayOf harr hx hb)
  | string s =>
    -- a string has no elements
    obtain rfl := push_inj hv
    obtain ⟨b, fields, index, hobj, hb⟩ := LuaHeap.arrayOf_eq_some.mp hxs
    obtain rfl := LuaVal.object.inj hobj
    have hsound : (σ.pushNew (σ.heap.newString env.toLuaStrings s)).Sound env :=
      LuaHeap.newString_sound hσ s
    have hstr := (hsound.keeps_moment _ (.root List.mem_cons_self)).trans
      (LuaHeap.newString_get (L := env.toLuaStrings) (h := σ.heap) s)
    exact absurd (hb.symm.trans hstr) (by simp)
  | array ys =>
    obtain rfl := push_inj hv
    obtain ⟨hs, hkn, vs, hvs, hnew⟩ := LuaHeap.newArray_spec (L := env.toLuaStrings) ys hσ
    have hsound : (σ.pushNew (σ.heap.newArray env.toLuaStrings ys)).Sound env := hs
    have hroot : Reach LuaObj.refs (σ.heap.newArray env.toLuaStrings ys).1
        ((σ.heap.newArray env.toLuaStrings ys).2 :: σ.roots)
        (σ.heap.newArray env.toLuaStrings ys).2 := .root List.mem_cons_self
    have hvs' := (hsound.keeps_moment _ hroot).trans hvs
    have harr := LuaHeap.arrayOf_eq_some.mpr ⟨_, _, _, rfl, hvs'⟩
    obtain rfl : xs = vs := Option.some.inj (hxs.symm.trans harr)
    refine List.forall₂_map_left_iff.mpr (forall₂_through ?_ hnew hes)
    intro y x hx e hy he
    refine he.elemOf_made (hσ.closed.mono (objects_subset hb)) hs.interned
      (hkn.mono (objects_subset hb)) hy ?_ hk
    -- the new table keeps its elements in the collection that follows
    intro b hb
    refine hsound.keeps_moment b (hroot.step hvs (List.mem_append_left _ ?_))
    exact objects_singleton (List.mem_append_left _ hx) hb

theorem nil_elements {key : OptionKey} (hget : σ.stack.get 1 = some options)
    (hrun : SpawnM.luaGetfield env key σ = .ok ((), τ)) (hv : τ.stack = σ.stack.push .nil) :
    σ.heap.elements options key = [] := by
  obtain ⟨a, found, ha, hl, rfl⟩ := luaGetfield_ok hrun
  obtain rfl := Option.some.inj (hget.symm.trans ha)
  simp only [LuaHeap.elements, hl]
  cases found with
  | value w =>
    obtain rfl : w = .nil := push_inj hv
    rfl
  | string s => cases push_inj hv
  | array ys => cases push_inj hv

/-- The arrays of the options: one entry for each element, and the string of the entry is reached
through `bs` if the element is anchored there. -/
theorem field_strs {key : OptionKey} {ok : Bool} {p : Option (List (Option CStr))} {n : ℕ}
    (hσ : σ.Sound env) (hs : σ.stack = s) (hb : Based bs s σ) (hget : s.get 1 = some options)
    (hopt : options ∈ bs)
    (hrun : SpawnM.field env key (SpawnM.couvTonullterminatedstrarray env (-1) ok) σ =
      .ok ((p, n), τ)) :
    ∃ es, Ran env bs s es σ τ ∧ τ.now ∈ τ.moments ∧ n = es.length ∧
      ((p = none ∧ es = []) ∨ p = some (es.map some ++ [none])) ∧
      List.Forall₂ (ElemOf env.toLuaStrings σ.heap bs) (σ.heap.elements options key) es := by
  subst hs
  -- the three calls: lua_getfield, the array of strings, lua_pop
  obtain ⟨_, σ₁, hfield, hrun⟩ := SpawnM.bind_eq_ok hrun
  obtain ⟨⟨p', n'⟩, σ₂, harr, hrun⟩ := SpawnM.bind_eq_ok hrun
  obtain ⟨_, σ₃, hpop, hrun⟩ := SpawnM.bind_eq_ok hrun
  obtain ⟨hpn, rfl⟩ := Prod.mk.inj (Except.ok.inj hrun)
  obtain ⟨rfl, rfl⟩ := Prod.mk.inj hpn
  obtain ⟨v, h₁⟩ := luaGetfield_ran hσ hb hfield
  have hb₁ : Based bs σ.stack σ₁ := h₁.based hb
  obtain ⟨es, h₂, hn, hes⟩ := strArray_ran h₁.sound h₁.stack hb₁ harr
  have hb₂ := h₂.based hb₁
  have h₂' : Ran env bs (σ.stack.push v) es σ₁ σ₂ :=
    { h₂ with goes := h₂.goes.mono (List.subset_cons_self _ _) }
  have h₃ := luaPop_ran h₂.sound h₂.stack hb₂ hpop
  have hnow : σ₃.now ∈ σ₃.moments := by
    obtain rfl := (Prod.mk.inj (Except.ok.inj hpop)).2
    exact CallState.now_moment env _
  refine ⟨es, by simpa using (h₁.trans h₂').trans h₃, hnow, hn, ?_, ?_⟩
  · exact hes.imp And.right fun ⟨_, _, hp, _⟩ => hp
  rcases hes with ⟨rfl, -, rfl⟩ | ⟨xs, hxs, -, hall⟩
  · rw [nil_elements hget hfield h₁.stack]
    exact .nil
  · exact found_elements hσ hb hget hopt hfield h₁.stack h₁.goes.keeps hxs hall

end

/-! What the condition reads at the start of the call. -/

namespace LuaHeap
variable {h h' : LuaHeap N} {options : LuaVal N} {key : OptionKey}

/-- A value that is found among the options. -/
theorem reach_found {a n : ℕ} {s : LuaString} {v : LuaVal N}
    (hl : h.lookup s n a = .ok (.value v)) {b : ℕ} (hb : b ∈ objects [v]) :
    Reach LuaObj.refs h (objects [LuaVal.object (N := N) a]) b := lookup_reach hl hb

theorem elements_keeps (hk : Keeps LuaObj.refs (objects [options]) h h') :
    h'.elements options key = h.elements options key := by
  cases options with
  | nil | boolean | number => rfl
  | object a =>
    have hl : h'.lookup key.text 100 a = h.lookup key.text 100 a := lookup_keeps key.text hk
    simp only [elements, hl]
    split
    · next v hv => rw [arrayOf_keeps (hk.of_reach fun b hb => reach_found hv hb)]
    · rfl
    · rfl

theorem elements_text {L : LuaStrings N} (hk : Keeps LuaObj.refs (objects [options]) h h')
    {x : Elem N} (hx : x ∈ h.elements options key) : x.text L h' = x.text L h := by
  cases x with
  | made y => cases y <;> rfl
  | held v =>
    cases v with
    | nil | boolean | number => rfl
    -- only a held object has a text in the heap, and the table leads to it
    | object b =>
      have hb : Reach LuaObj.refs h (objects [options]) b := by
        cases options with
        | nil | boolean | number => cases hx
        | object a =>
          simp only [elements] at hx
          split at hx
          · next w hw =>
            obtain ⟨y, hy, hyb⟩ := List.mem_map.mp hx
            obtain rfl := Elem.held.inj hyb
            cases hxs : h.arrayOf w with
            | none =>
              rw [hxs] at hy
              cases hy
            | some xs =>
              rw [hxs] at hy
              exact reach_of_reach (fun c hc => reach_found hw hc)
                (reach_arrayOf hxs hy (mem_objects.mpr List.mem_cons_self))
          · obtain ⟨y, -, hyb⟩ := List.mem_map.mp hx
            cases hyb
          · cases hx
      simp only [Elem.text, text, hk b hb]

end LuaHeap

theorem Elem.anchored_congr {L : LuaStrings N} {h h' : LuaHeap N} {roots roots' : List ℕ}
    (hs : ∀ s, h'.Anchored L roots' s ↔ h.Anchored L roots s) (x : Elem N) :
    x.Anchored L h' roots' ↔ x.Anchored L h roots := by
  cases x with
  | held v =>
    cases v with
    | number n => exact hs _
    | nil | boolean | object => exact Iff.rfl
  | made y =>
    cases y with
    | inl n => exact hs _
    | inr s => exact hs _

section
variable {env : SpawnEnv N} {σ τ : CallState N}

/-- The new handle, which leads to no string that is not reached without it. -/
theorem handle_ran (hσ : σ.Sound env) (hrun : SpawnM.couvNewProcessHandle env σ = .ok ((), τ)) :
    Ran env σ.held (σ.stack.push (.object σ.heap.next)) [] σ τ ∧
    τ.heap.get σ.heap.next = some (.userdata false [σ.processMtbl]) ∧
    ∀ b, Reach LuaObj.refs τ.heap τ.roots b ↔
      b = σ.heap.next ∨ Reach LuaObj.refs σ.heap σ.roots b := by
  obtain rfl := (Prod.mk.inj (Except.ok.inj hrun)).2
  have hmtbl : ∀ b ∈ (LuaObj.userdata false [σ.processMtbl]).refs,
      Reach LuaObj.refs σ.heap σ.roots b := fun b hb =>
    .root (objects_singleton (List.mem_append_right _ List.mem_cons_self) hb)
  have hsound : (σ.pushNew (σ.heap.alloc (.userdata false [σ.processMtbl]),
      σ.heap.next)).Sound env := by
    refine ⟨hσ.closed.alloc hmtbl, ?_⟩
    intro t ht a b ha hb
    simp only [CallState.pushNew, Store.alloc_eq_some, reduceCtorEq, and_false, false_or] at ha hb
    exact hσ.interned t ht a b ha.2 hb.2
  have hk := hsound.keeps_moment
  refine ⟨ran_pushNew (List.Subset.refl _) hsound (hσ.closed.keeps_alloc _), ?_, ?_⟩
  · exact (hk _ (.root List.mem_cons_self)).trans (Store.alloc_get_self _ _)
  · intro b
    exact hk.reach.trans (hσ.closed.reach_alloc hmtbl)

theorem anchored_handle (hσ : σ.Sound env)
    (hrun : SpawnM.couvNewProcessHandle env σ = .ok ((), τ)) (s : LuaString) :
    τ.heap.Anchored env.toLuaStrings τ.roots s ↔ σ.heap.Anchored env.toLuaStrings σ.roots s := by
  obtain ⟨hran, hud, hreach⟩ := handle_ran hσ hrun
  refine and_congr_right fun _ => exists_congr fun a => ?_
  rw [hreach]
  constructor
  · rintro ⟨rfl | ha, hget⟩
    · rw [hud] at hget
      cases hget
    · exact ⟨ha, (hran.goes.keeps a ha).symm.trans hget⟩
  · rintro ⟨ha, hget⟩
    exact ⟨.inr ha, (hran.goes.keeps a ha).trans hget⟩

end

section
variable {env : SpawnEnv N} {σ τ : CallState N} {o : SpawnStrs}

theorem elemOf_keeps {L : LuaStrings N} {bs : List (LuaVal N)} {h h' : LuaHeap N}
    {options : LuaVal N} {key : OptionKey} {es : List CStr}
    (hk : Keeps LuaObj.refs (objects bs) h h') (hopt : options ∈ bs)
    (hes : List.Forall₂ (ElemOf L h' bs) (h'.elements options key) es) :
    List.Forall₂ (ElemOf L h bs) (h.elements options key) es := by
  have hko := hk.mono (objects_singleton hopt)
  rw [LuaHeap.elements_keeps hko] at hes
  refine forall₂_through (R := Eq) ?_ (List.forall₂_refl _) hes
  rintro x _ hx e rfl ⟨htext, hanch, hstring⟩
  rw [hk.reach] at hanch hstring
  refine ⟨(LuaHeap.elements_text hko hx).symm.trans htext, ?_,
    fun hr => (hk _ hr).symm.trans (hstring hr)⟩
  exact hanch.trans (Elem.anchored_congr (LuaHeap.anchored_keeps hk) x)

/-- The run from the new handle to the return of uv_spawn. -/
theorem spawn_run (hσ : σ.Sound env) (hrun : SpawnM.couvProcessSpawn env σ = .ok (o, τ)) :
    ∃ σ₁ options as es, SpawnM.couvNewProcessHandle env σ = .ok ((), σ₁) ∧
      σ₁.stack.get 1 = some options ∧ (σ₁.heap.arrayOf options).isSome ∧
      Goes σ₁.held σ₁ τ ∧ τ.entries = σ₁.entries ++ (as ++ es) ∧
      (∃ m ∈ τ.moments, m.roots = σ₁.roots ∧ m.entries = σ₁.entries ++ (as ++ es) ∧
        Keeps LuaObj.refs σ₁.roots σ₁.heap m.heap) ∧
      o.args = some (as.map some ++ [none]) ∧
      ((o.env = none ∧ es = []) ∨ o.env = some (es.map some ++ [none])) ∧
      List.Forall₂ (ElemOf env.toLuaStrings σ₁.heap σ₁.held) (σ₁.heap.elements options .args) as ∧
      List.Forall₂ (ElemOf env.toLuaStrings σ₁.heap σ₁.held) (σ₁.heap.elements options .env)
        es := by
  obtain ⟨_, σ₁, hhandle, hrun⟩ := SpawnM.bind_eq_ok hrun
  obtain ⟨h₁, -⟩ := handle_ran hσ hhandle
  rw [SpawnM.value_bind, SpawnM.array_bind] at hrun
  cases hopt : σ₁.stack.get 1 with
  | none =>
    rw [hopt] at hrun
    cases hrun
  | some options =>
  rw [hopt, Option.getD_some] at hrun
  cases htable : σ₁.heap.arrayOf options with
  | none =>
    rw [htable] at hrun
    cases hrun
  | some xs =>
  rw [htable] at hrun
  have hmem : options ∈ σ₁.held := List.mem_append_left _ (LuaStack.mem_of_get hopt)
  have hb : Based σ₁.held σ₁.stack σ₁ := List.Subset.refl _
  -- args and file
  obtain ⟨⟨p, n⟩, σ₂, hargs, hrun⟩ := SpawnM.bind_eq_ok hrun
  obtain ⟨as, h₂, -, hn, hp, has⟩ := field_strs h₁.sound rfl hb hopt hmem hargs
  obtain ⟨_, _, hargc, hrun⟩ := SpawnM.bind_eq_ok hrun
  have hp' : p = some (as.map some ++ [none]) := by
    refine hp.resolve_left ?_
    rintro ⟨-, rfl⟩
    subst hn
    cases hargc
  rw [SpawnM.check_same hargc] at hrun
  obtain ⟨file, σ₃, hfile, hrun⟩ := SpawnM.bind_eq_ok hrun
  have h₃ := h₂.trans (field_tostring h₂.sound h₂.stack (h₂.based hb) hfile)
  -- env
  obtain ⟨⟨q, n'⟩, σ₄, henv, hrun⟩ := SpawnM.bind_eq_ok hrun
  obtain ⟨es, h₄', hnow, -, hq, hes⟩ := field_strs h₃.sound h₃.stack (h₃.based hb) hopt hmem henv
  have h₄ := h₃.trans h₄'
  obtain ⟨cwd, σ₅, hrest, hrun⟩ := SpawnM.bind_eq_ok hrun
  obtain ⟨hg₅, hσ₅, hb₅, he₅⟩ := spawnRest_goes h₄.sound h₄.stack (h₄.based hb) hrest
  -- uv_spawn
  obtain ⟨_, σ₆, huv, hrun⟩ := SpawnM.bind_eq_ok hrun
  obtain ⟨rfl, rfl⟩ := Prod.mk.inj (Except.ok.inj hrun)
  obtain rfl := (Prod.mk.inj (Except.ok.inj huv)).2
  have hgo : Goes σ₁.held σ₄ (σ₅.moment env) :=
    hg₅.trans (hσ₅.goes_moment hb₅ keeps_refl rfl rfl)
  have hentries₄ : σ₄.entries = σ₁.entries ++ (as ++ es) := by simpa using h₄.entries
  have hentries : (σ₅.moment env).entries = σ₁.entries ++ (as ++ es) := he₅.trans hentries₄
  have hroots : σ₄.roots = σ₁.roots := congrArg objects h₄.held
  refine ⟨σ₁, options, as, es, hhandle, hopt, by rw [htable]; rfl, h₄.goes.trans hgo, hentries,
    ⟨σ₄.now, ?_, hroots, hentries₄, h₄.goes.keeps⟩, hp', hq, has,
    elemOf_keeps h₃.goes.keeps hmem hes⟩
  obtain ⟨ms, hms, -⟩ := hgo.moments
  change σ₄.now ∈ (σ₅.moment env).moments
  rw [hms]
  exact List.mem_append_left _ hnow

theorem texts_eq {L : LuaStrings N} {bs : List (LuaVal N)} {h : LuaHeap N} {xs : List (Elem N)}
    {es : List CStr} (hes : List.Forall₂ (ElemOf L h bs) xs es) :
    texts (es.map some ++ [none]) = xs.map (·.text L h) ++ [none] := by
  have htexts : List.Forall₂ Eq (es.map fun e => some e.text) (xs.map (·.text L h)) := by
    refine List.forall₂_map_left_iff.mpr (List.forall₂_map_right_iff.mpr ?_)
    exact hes.flip.imp fun e x he => he.text.symm
  rw [texts, List.map_append, List.map_map]
  exact congrArg (· ++ [none]) (List.forall₂_eq_eq_eq ▸ htexts)

/-- An entry that is reached at the start is reached in every moment, and one that is not is not
reached when the environment array has been built. -/
theorem stringsStay_iff {σ₁ : CallState N} {es : List CStr}
    (hold : ∀ m ∈ σ₁.moments, m.entries = []) (hgo : Goes σ₁.held σ₁ τ) (hτ : τ.entries = es)
    (hm : ∃ m ∈ τ.moments, m.roots = σ₁.roots ∧ m.entries = es ∧
      Keeps LuaObj.refs σ₁.roots σ₁.heap m.heap) :
    τ.StringsStay ↔ ∀ e ∈ es, Reach LuaObj.refs σ₁.heap σ₁.roots e.obj := by
  constructor
  · obtain ⟨m, hmem, hroots, hentries, hk⟩ := hm
    intro hstay e he
    have hr := hstay m hmem e (hentries ▸ he)
    rw [hroots] at hr
    exact hk.reach.mp hr
  · intro hall m hmem e he
    obtain ⟨ms, hms, hmoments⟩ := hgo.moments
    rw [hms] at hmem
    rcases List.mem_append.mp hmem with hmem | hmem
    · rw [hold m hmem] at he
      cases he
    · obtain ⟨hroots, hk, hentries⟩ := hmoments m hmem
      have hr := hall e (hτ ▸ hentries.subset he)
      exact (hk.reach.mpr hr).mono hroots

theorem forall_iff_of_forall₂ {α β : Type*} {R : α → β → Prop} {p : α → Prop} {q : β → Prop}
    (hpq : ∀ x y, R x y → (q y ↔ p x)) {xs : List α} {ys : List β} (h : List.Forall₂ R xs ys) :
    (∀ y ∈ ys, q y) ↔ ∀ x ∈ xs, p x := by
  induction h with
  | nil => simp
  | cons hr _ ih => rw [List.forall_mem_cons, List.forall_mem_cons, hpq _ _ hr, ih]

theorem pointers_eq (es : List CStr) : (es.map some ++ [none]).reduceOption = es := by
  simp [List.reduceOption, List.filterMap_append]

theorem exists_of_forall₂ {α β : Type*} {R : α → β → Prop} {xs : List α} {ys : List β}
    (h : List.Forall₂ R xs ys) {y : β} (hy : y ∈ ys) : ∃ x ∈ xs, R x y := by
  induction h with
  | nil => cases hy
  | cons hr _ ih =>
    rcases List.mem_cons.mp hy with rfl | hy
    · exact ⟨_, List.mem_cons_self, hr⟩
    · obtain ⟨x, hx, hxy⟩ := ih hy
      exact ⟨x, List.mem_cons_of_mem _ hx, hxy⟩

/-- The options of the call are below the new handle. -/
theorem options_get {options : LuaVal N} (hσ : σ.Sound env)
    (hrun : SpawnM.couvNewProcessHandle env σ = .ok ((), τ)) (hopt : τ.stack.get 1 = some options)
    (htable : (τ.heap.arrayOf options).isSome) : σ.stack.get 1 = some options := by
  obtain ⟨hran, hud, -⟩ := handle_ran hσ hrun
  rw [hran.stack] at hopt
  by_cases htop : 1 ≤ σ.stack.gettop
  · rwa [LuaStack.get_push (by decide) (by exact_mod_cast htop)] at hopt
  · -- a call without arguments finds the handle, which is no table
    have hslots : σ.stack.slots = [] := List.length_eq_zero_iff.mp (by
      change ¬1 ≤ σ.stack.slots.length at htop
      omega)
    have hmem := LuaStack.mem_of_get hopt
    rw [LuaStack.push, hslots] at hmem
    obtain rfl := List.mem_singleton.mp hmem
    obtain ⟨xs, hxs⟩ := Option.isSome_iff_exists.mp htable
    obtain ⟨a, fields, index, ha, hget⟩ := LuaHeap.arrayOf_eq_some.mp hxs
    obtain rfl := LuaVal.object.inj ha
    rw [hud] at hget
    cases hget

end

/-- The arrays that uv_spawn gets have one entry for each element, with its text, and NULL at the
end. Their strings can be reached until it returns, and are then still there, exactly when each
element that is not a string of the options has the text of a string that is reached at the start
of the call. -/
theorem spawn_strings_stay {env : SpawnEnv N} {heap : LuaHeap N} {stack : LuaStack (LuaVal N)}
    {processMtbl options : LuaVal N} {others : List (LuaVal N)} {τ : CallState N} {o : SpawnStrs}
    (hσ : (CallState.start heap stack processMtbl others).Sound env)
    (hopt : stack.get 1 = some options)
    (hrun : SpawnM.couvProcessSpawn env (.start heap stack processMtbl others) = .ok (o, τ)) :
    o.args.map texts =
      some ((heap.elements options .args).map (·.text env.toLuaStrings heap) ++ [none]) ∧
    ((o.env = none ∧ heap.elements options .env = []) ∨ o.env.map texts =
      some ((heap.elements options .env).map (·.text env.toLuaStrings heap) ++ [none])) ∧
    τ.entries = (o.args.getD [] ++ o.env.getD []).reduceOption ∧
    (τ.StringsStay → ∀ e ∈ τ.entries, τ.heap.get e.obj = some (.string e.text)) ∧
    (τ.StringsStay ↔ ∀ x ∈ heap.elements options .args ++ heap.elements options .env,
      x.Anchored env.toLuaStrings heap (objects (stack.slots ++ processMtbl :: others))) := by
  obtain ⟨σ₁, options', as, es, hhandle, hopt₁, htable, hgo, hentries, hm, hargs, henv, has, hes⟩ :=
    spawn_run hσ hrun
  obtain ⟨h₁, -, -⟩ := handle_ran hσ hhandle
  obtain rfl := Option.some.inj (hopt.symm.trans (options_get hσ hhandle hopt₁ htable))
  -- up to the strings, nothing that the options lead to has changed
  have hk : Keeps LuaObj.refs (objects [options]) heap σ₁.heap :=
    h₁.goes.keeps.mono (objects_singleton (List.mem_append_left _ (LuaStack.mem_of_get hopt)))
  have helems : ∀ key, σ₁.heap.elements options key = heap.elements options key := fun key =>
    LuaHeap.elements_keeps hk
  have htexts : ∀ key, (heap.elements options key).map (·.text env.toLuaStrings σ₁.heap) =
      (heap.elements options key).map (·.text env.toLuaStrings heap) := fun key =>
    List.map_congr_left fun x hx => LuaHeap.elements_text hk hx
  have hempty : σ₁.entries = [] := h₁.entries
  rw [hempty, List.nil_append] at hentries hm
  -- no moment before the first string has a pointer to it
  have hold : ∀ m ∈ σ₁.moments, m.entries = [] := by
    obtain ⟨ms, hms, hall⟩ := h₁.goes.moments
    intro m hm
    rw [hms] at hm
    have hprefix := (hall m hm).2.2
    rw [hempty] at hprefix
    exact List.prefix_nil.mp hprefix
  have hstay := stringsStay_iff hold hgo hentries hm
  refine ⟨?_, ?_, ?_, ?_, ?_⟩
  · rw [hargs, Option.map_some, texts_eq has, helems, htexts]
  · rcases henv with ⟨hnone, rfl⟩ | hsome
    · refine .inl ⟨hnone, ?_⟩
      rw [helems] at hes
      exact List.forall₂_nil_right_iff.mp hes
    · right
      rw [hsome, Option.map_some, texts_eq hes, helems, htexts]
  · rw [hentries, hargs]
    rcases henv with ⟨hnone, rfl⟩ | hsome
    · rw [hnone, Option.getD_some, Option.getD_none, List.append_nil, List.append_nil,
        pointers_eq]
    · rw [hsome, Option.getD_some, Option.getD_some, List.reduceOption_append, pointers_eq,
        pointers_eq]
  · intro h e he
    rw [hentries] at he
    have hr := hstay.mp h e he
    obtain ⟨x, -, hx⟩ := exists_of_forall₂ (List.rel_append has hes) he
    exact (hgo.keeps _ hr).trans (hx.string hr)
  · rw [hstay]
    rw [helems] at has hes
    refine forall_iff_of_forall₂ ?_ (List.rel_append has hes)
    intro x e he
    exact he.anchored.trans (Elem.anchored_congr (anchored_handle hσ hhandle) x)

/-! A call with a string and the number 5, whose text the registry has as a string, or nothing. -/

theorem closed_of_refs {h : LuaHeap N} {roots : List ℕ} (hr : ∀ a ∈ roots, (h.get a).isSome)
    (hrefs : ∀ a < h.next, ∀ b ∈ ((h.get a).map LuaObj.refs).getD [], (h.get b).isSome) :
    Closed LuaObj.refs roots h := by
  intro a ha
  refine reach_subset (p := fun a => (h.get a).isSome) hr ?_ ha
  intro a x _ hx b hb
  refine hrefs a (h.lt_next hx) b ?_
  rw [hx]
  exact hb

def LuaHeap.stringAt (h : LuaHeap N) (a : ℕ) : Option LuaString :=
  match h.get a with
  | some (.string s) => some s
  | _ => none

theorem interned_of_stringAt {L : LuaStrings N} {h : LuaHeap N}
    (hs : ∀ a < h.next, ∀ b < h.next, h.stringAt a = h.stringAt b → (h.stringAt a).isSome → a = b) :
    h.Interned L := by
  have hat : ∀ {a s}, h.get a = some (.string s) → h.stringAt a = some s := by
    intro a s ha
    simp only [LuaHeap.stringAt, ha]
  intro s _ a b ha hb
  refine hs a (h.lt_next ha) b (h.lt_next hb) ((hat ha).trans (hat hb).symm) ?_
  rw [hat ha]
  rfl

/-- Numbers of one digit, and a collector that leaves all objects. -/
def digitEnv : SpawnEnv ℕ where
  tostr n := [UInt8.ofNat (48+n)]
  interned _ := true
  interned_tostr _ := rfl
  collect _ _ h := h
  collect_keeps _ _ _ _ := keeps_refl
  collect_interned _ _ _ h := h.interned
  allocs _ := true

/-- `Process.spawn{args = args, exitCb = f}`; the object 3 is the string "a". -/
def spawnHeap (args : List (LuaVal ℕ)) : LuaHeap ℕ :=
  ((((((Store.empty.alloc (.table [] [(.object 1, .object 2), (.object 4, .object 5)] .none)).alloc
    (.string OptionKey.args.text)).alloc (.table args [] .none)).alloc (.string [97])).alloc
    (.string OptionKey.exitCb.text)).alloc (.function [])).alloc (.table [] [] .none)

def spawnCall (args : List (LuaVal ℕ)) : CallState ℕ :=
  .start (spawnHeap args) ⟨[.object 0]⟩ (.object 6) []

/-- The registry holds the string "5", the object 7. -/
def anchoredCall (args : List (LuaVal ℕ)) : CallState ℕ :=
  .start ((spawnHeap args).alloc (.string [53])) ⟨[.object 0]⟩ (.object 6) [.object 7]

theorem spawn_strings_stay_anchored : ∃ o τ,
    SpawnM.couvProcessSpawn digitEnv (anchoredCall [.object 3, .number 5]) = .ok (o, τ) ∧
      τ.StringsStay := by
  have hσ : (anchoredCall [.object 3, .number 5]).Sound digitEnv :=
    ⟨closed_of_refs (by decide) (by decide), interned_of_stringAt (by decide)⟩
  refine ⟨_, _, rfl, ?_⟩
  refine (spawn_strings_stay hσ rfl rfl).2.2.2.2.mpr ?_
  have hfive : (Elem.held (.number 5)).Anchored digitEnv.toLuaStrings
      (anchoredCall [.object 3, .number 5]).heap (anchoredCall [.object 3, .number 5]).roots :=
    ⟨rfl, 7, .root (show 7 ∈ [0, 6, 7] by decide), rfl⟩
  intro x hx
  have hx : x ∈ [Elem.held (.object 3), .held (.number 5)] := hx
  rcases List.mem_pair.mp hx with rfl | rfl
  · trivial
  · exact hfive

/-- An entry has the object `b`, which nothing refers to. -/
theorem not_stringsStay {τ : CallState N} {b : ℕ}
    (h : ∃ m ∈ τ.moments, (∃ e ∈ m.entries, e.obj = b) ∧ b ∉ m.roots ∧
      ∀ a < m.heap.next, b ∉ ((m.heap.get a).map LuaObj.refs).getD []) : ¬τ.StringsStay := by
  obtain ⟨m, hm, ⟨e, he, rfl⟩, hroots, hrefs⟩ := h
  exact fun hstay => not_reach_of_refs hroots hrefs (hstay m hm e he)

/-- The string "5", the object 8, is made for the conversion; when it has been popped, nothing
holds it. -/
theorem spawn_number_dangles : ∃ o τ,
    SpawnM.couvProcessSpawn digitEnv (spawnCall [.object 3, .number 5]) = .ok (o, τ) ∧
      ¬τ.StringsStay :=
  ⟨_, _, rfl, not_stringsStay (b := 8) (by decide)⟩

end Couv
