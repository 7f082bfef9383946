import Couv.ClassCheck

/-! Tables with their fields, what a C module does to them, and how Lua looks a field up. -/
namespace Couv

/-- A C function, with the class that it checks its first argument for. -/
structure CFunction where
  name : String
  self : Option String
  deriving DecidableEq, Repr

/-- What a field holds. A function of Lua code calls a function that it finds by two indexings of
a table that it has, with the arguments it gets. -/
inductive FieldVal
  | obj (v : Obj)
  | number (n : ℤ)
  | cfunction (f : CFunction)
  | lua (field method : String)
  deriving DecidableEq, Repr

namespace FieldVal

def nil : FieldVal := .obj .nil

def toObj : FieldVal → Obj
  | .obj v => v
  | .number _ | .cfunction _ | .lua _ _ => .other 0

end FieldVal

structure LuaTable where
  metatable : Option ℕ
  fields : String → FieldVal

/-- The field `k` of the table at `t`. -/
def fieldOf (tables : Store LuaTable) (t : ℕ) (k : String) : FieldVal :=
  match tables.get t with
  | some c => c.fields k
  | none => .nil

/-- The class check sees the metatables, and their `__index`. -/
def LuaTable.classTable (t : LuaTable) : ClassTable := ⟨t.metatable, (t.fields "__index").toObj⟩

/-- The stack of a C module that is loaded, and the objects of the Lua state. -/
structure LuaState where
  stack : LuaStack FieldVal
  tables : Store LuaTable
  userdata : ℕ → Option ℕ
  types : Obj → Option ℕ
  registry : String → Obj

namespace LuaState
variable (s : LuaState)

def objs : LuaObjs := ⟨s.tables.map LuaTable.classTable, s.userdata, s.types, s.registry⟩

/-! The API. -/

def push (v : FieldVal) : LuaState := { s with stack := s.stack.push v }

def pop (n : ℕ) : LuaState := { s with stack := s.stack.pop n }

def luaNewtable : LuaState :=
  { s with
    stack := s.stack.push (.obj (.table s.tables.next))
    tables := s.tables.alloc ⟨none, fun _ => .nil⟩ }

/-- A store into the table `t`, which has no `__newindex`. -/
def rawset (t : ℕ) (k : String) (v : FieldVal) : LuaState :=
  { s with
    tables := s.tables.modify t (fun c => { c with fields := Function.update c.fields k v }) }

def luaSetfield (idx : ℤ) (k : String) : LuaState :=
  match s.stack.get idx with
  | some (.obj (.table t)) => (s.rawset t k ((s.stack.get (-1)).getD .nil)).pop 1
  | _ => s.pop 1

/-- `lua_getfield(L, LUA_REGISTRYINDEX, ..)` and `lua_setfield(L, LUA_REGISTRYINDEX, ..)` -/
def luaGetregistry (name : String) : LuaState := s.push (.obj (s.registry name))

def luaSetregistry (name : String) : LuaState :=
  { s with
    stack := s.stack.pop 1
    registry := fun n => if n = name then ((s.stack.get (-1)).getD .nil).toObj else s.registry n }

def luaSetmetatable (idx : ℤ) : LuaState :=
  match s.stack.get idx, s.stack.get (-1) with
  | some (.obj (.table t)), some (.obj (.table m)) =>
    { s with
      stack := s.stack.pop 1
      tables := s.tables.modify t (fun c => { c with metatable := some m }) }
  | some (.obj (.table t)), _ =>
    { s with
      stack := s.stack.pop 1
      tables := s.tables.modify t (fun c => { c with metatable := none }) }
  | _, _ => s.pop 1

def luaLNewmetatable (tname : String) : LuaState :=
  if s.registry tname ≠ .nil then s.luaGetregistry tname
  else
    let s := s.luaNewtable
    ({ s with stack := s.stack.push ((s.stack.get (-1)).getD .nil) }).luaSetregistry tname

/-- Every value is pushed and stored in the table below it. -/
def setfields (l : List (String × FieldVal)) : LuaState :=
  l.foldl (fun s p => (s.push p.2).luaSetfield (-2) p.1) s

/-! auxlib.c -/

def couvLSetfuncs (l : List (String × CFunction)) : LuaState :=
  s.setfields (l.map (fun p => (p.1, .cfunction p.2)))

def couvNewmetatable (tname : String) (superTname : Option String) : LuaState :=
  let s := s.luaLNewmetatable tname
  -- metatable.__index = metatable
  let s := (s.push ((s.stack.get (-1)).getD .nil)).luaSetfield (-2) "__index"
  match superTname with
  | some name => (s.luaGetregistry name).luaSetmetatable (-2)
  | none => s

/-! Lua's own access to fields. -/

def rawget (t : ℕ) (k : String) : FieldVal := fieldOf s.tables t k

/-- `v[k]`; none when it raises, calls a function, or uses the fuel up. -/
def index : ℕ → Obj → String → Option FieldVal
  | 0, _, _ => none
  | fuel+1, .table t, k =>
    if s.rawget t k ≠ .nil then some (s.rawget t k)
    else
      match s.objs.metatableOf (.table t) with
      | none => some .nil
      | some m =>
        match s.rawget m "__index" with
        | .obj .nil => some .nil
        | .obj v => index fuel v k
        | _ => none
  | fuel+1, v, k =>
    match s.objs.metatableOf v with
    | none => none
    | some m =>
      match s.rawget m "__index" with
      | .obj .nil => none
      | .obj v => index fuel v k
      | _ => none

/-! What the operations make of the tables. -/

/-- The fields `l` in front of those of `f`; the last of two with one name counts. -/
def overlay (l : List (String × FieldVal)) (f : String → FieldVal) : String → FieldVal :=
  l.foldl (fun f p => Function.update f p.1 p.2) f

theorem overlay_cons (p : String × FieldVal) (l : List (String × FieldVal))
    (f : String → FieldVal) : overlay (p :: l) f = overlay l (Function.update f p.1 p.2) := rfl

theorem overlay_of_notMem {l : List (String × FieldVal)} {f : String → FieldVal} {k : String}
    (h : k ∉ l.map Prod.fst) : overlay l f k = f k := by
  induction l generalizing f with
  | nil => rfl
  | cons p l ih =>
    rw [List.map_cons, List.mem_cons, not_or] at h
    rw [overlay_cons, ih h.2, Function.update_of_ne h.1]

theorem overlay_congr {l : List (String × FieldVal)} {f g : String → FieldVal} {k : String}
    (h : f k = g k) : overlay l f k = overlay l g k := by
  induction l generalizing f g with
  | nil => exact h
  | cons p l ih =>
    rw [overlay_cons, overlay_cons]
    refine ih ?_
    by_cases hk : k = p.1
    · rw [hk, Function.update_self, Function.update_self]
    · rw [Function.update_of_ne hk, Function.update_of_ne hk, h]

/-- What is found in an overlay is one of its fields, or what lies below. -/
theorem mem_of_overlay {l : List (String × FieldVal)} {f : String → FieldVal} {k : String}
    {v : FieldVal} (h : overlay l f k = v) : f k = v ∨ (k, v) ∈ l := by
  induction l generalizing f with
  | nil => exact .inl h
  | cons p l ih =>
    rw [overlay_cons] at h
    rcases ih h with hf | hl
    · by_cases hk : k = p.1
      · subst hk
        rw [Function.update_self] at hf
        subst hf
        exact .inr List.mem_cons_self
      · rw [Function.update_of_ne hk] at hf
        exact .inl hf
    · exact .inr (List.mem_cons_of_mem _ hl)

theorem modify_modify {α : Type*} (s : Store α) (a : ℕ) (f g : α → α) :
    (s.modify a f).modify a g = s.modify a (fun x => g (f x)) := by
  refine Store.ext rfl ?_
  intro b
  simp only [Store.modify_get]
  split
  · rw [if_pos trivial, Option.map_map]
    rfl
  · rfl

theorem modify_id {α : Type*} (s : Store α) (a : ℕ) : s.modify a (fun x => x) = s := by
  refine Store.ext rfl ?_
  intro b
  rw [Store.modify_get]
  split
  · next h => rw [Option.map_id', h]
  · rfl

theorem fieldOf_alloc (tables : Store LuaTable) (x : LuaTable) (u : ℕ) (k : String) :
    fieldOf (tables.alloc x) u k = if u = tables.next then x.fields k else fieldOf tables u k := by
  unfold fieldOf
  rw [Store.alloc_get]
  by_cases hu : u = tables.next
  · rw [if_pos hu, if_pos hu]
  · rw [if_neg hu, if_neg hu]

theorem fieldOf_modify {tables : Store LuaTable} {t : ℕ} (ht : (tables.get t).isSome)
    (k : String) (v : FieldVal) (u : ℕ) (l : String) :
    fieldOf (tables.modify t (fun c => { c with fields := Function.update c.fields k v })) u l =
      if u = t ∧ l = k then v else fieldOf tables u l := by
  obtain ⟨c, hc⟩ := Option.isSome_iff_exists.mp ht
  unfold fieldOf
  by_cases hu : u = t
  · subst hu
    rw [Store.modify_get, if_pos rfl, hc]
    by_cases hl : l = k
    · subst hl
      rw [if_pos ⟨rfl, rfl⟩]
      exact Function.update_self _ _ _
    · rw [if_neg (fun h => hl h.2)]
      exact Function.update_of_ne hl _ _
  · rw [Store.modify_get_ne _ _ hu, if_neg (fun h => hu h.1)]

theorem modify_live {α : Type*} (tables : Store α) (t : ℕ) (f : α → α) (u : ℕ) :
    ((tables.modify t f).get u).isSome = (tables.get u).isSome := by
  rw [Store.modify_get]
  split
  · next h => rw [Option.isSome_map, h]
  · rfl

variable {s} {st : LuaStack FieldVal} {t : ℕ}

theorem luaSetfield_run {v : FieldVal} (hst : s.stack = (st.push (.obj (.table t))).push v)
    (k : String) : s.luaSetfield (-2) k =
      { s.rawset t k v with stack := st.push (.obj (.table t)) } := by
  unfold luaSetfield
  rw [hst, LuaStack.get_second, LuaStack.get_top]
  dsimp only
  rw [pop, rawset, hst]
  rfl

/-- The stores end where they began, with the fields in the table on the top. -/
theorem setfields_run (hst : s.stack = st.push (.obj (.table t))) (l : List (String × FieldVal)) :
    s.setfields l =
      { s with tables :=
        s.tables.modify t (fun c => { c with fields := overlay l c.fields }) } := by
  induction l generalizing s with
  | nil =>
    change s = { s with tables := s.tables.modify t (fun c => c) }
    rw [modify_id]
  | cons p l ih =>
    have hpush : (s.push p.2).stack = (st.push (.obj (.table t))).push p.2 := by
      rw [push, hst]
    change ((s.push p.2).luaSetfield (-2) p.1).setfields l = _
    rw [luaSetfield_run hpush, ih rfl, rawset]
    dsimp only [push]
    rw [modify_modify, hst]
    rfl

/-- A name that is not in use gets a new table. -/
theorem luaLNewmetatable_run {tname : String} (h : s.registry tname = .nil) :
    s.luaLNewmetatable tname =
      { s with
        stack := s.stack.push (.obj (.table s.tables.next))
        tables := s.tables.alloc ⟨none, fun _ => .nil⟩
        registry := fun n => if n = tname then .table s.tables.next else s.registry n } := by
  unfold luaLNewmetatable
  rw [if_neg (by simp [h])]
  simp only [luaNewtable, luaSetregistry, LuaStack.get_top, Option.getD_some, LuaStack.pop_push,
    LuaStack.pop_zero]
  rfl

/-- The metatable that lua_setmetatable makes of a value. -/
def metatableFrom : Obj → Option ℕ
  | .table m => some m
  | _ => none

theorem luaSetmetatable_run {v : Obj} (hst : s.stack = (st.push (.obj (.table t))).push (.obj v)) :
    s.luaSetmetatable (-2) =
      { s with
        stack := st.push (.obj (.table t))
        tables := s.tables.modify t (fun c => { c with metatable := metatableFrom v }) } := by
  unfold luaSetmetatable
  rw [hst, LuaStack.get_second, LuaStack.get_top]
  cases v <;> rfl

theorem couvNewmetatable_run {tname : String} (h : s.registry tname = .nil)
    (superTname : Option String) :
    s.couvNewmetatable tname superTname =
      { s with
        stack := s.stack.push (.obj (.table s.tables.next))
        tables := s.tables.alloc
          ⟨superTname.bind (fun name => metatableFrom
              (if name = tname then .table s.tables.next else s.registry name)),
            Function.update (fun _ => .nil) "__index" (.obj (.table s.tables.next))⟩
        registry := fun n => if n = tname then .table s.tables.next else s.registry n } := by
  let index : String → FieldVal :=
    Function.update (fun _ => .nil) "__index" (.obj (.table s.tables.next))
  have hmade : ((s.luaLNewmetatable tname).push
      (((s.luaLNewmetatable tname).stack.get (-1)).getD .nil)).luaSetfield (-2) "__index" =
      { s with
        stack := s.stack.push (.obj (.table s.tables.next))
        tables := s.tables.alloc ⟨none, index⟩
        registry := fun n => if n = tname then .table s.tables.next else s.registry n } := by
    rw [luaLNewmetatable_run h, LuaStack.get_top, Option.getD_some, luaSetfield_run rfl]
    simp only [rawset, push, Store.alloc_modify, index]
  unfold couvNewmetatable
  dsimp only
  rw [hmade]
  cases superTname with
  | none => rfl
  | some name =>
    dsimp only
    rw [luaSetmetatable_run rfl, luaGetregistry]
    simp only [push, Store.alloc_modify, Option.bind_some, index]

/-- The class check sees of couv_newmetatable what its own model of it does. -/
theorem couvNewmetatable_objs {tname : String} (h : s.registry tname = .nil)
    (superTname : Option String) (so : LuaStack Obj) :
    (s.couvNewmetatable tname superTname).objs =
      (s.objs.couvNewmetatable so tname superTname).1 := by
  have hobjs : s.objs.registry tname = .nil := h
  rw [couvNewmetatable_run h]
  unfold LuaObjs.couvNewmetatable LuaObjs.luaLNewmetatable
  rw [if_neg (by simp [hobjs])]
  simp only [LuaStack.get_top, LuaStack.get_second, Option.getD_some, LuaObjs.setindex]
  cases superTname with
  | none =>
    simp only [objs, Store.map_alloc, LuaObjs.setregistry, Store.alloc_modify, LuaTable.classTable,
      Function.update_self]
    rfl
  | some name =>
    simp only [objs, Store.map_alloc, LuaObjs.setregistry, LuaStack.pop_push, LuaStack.pop_zero,
      LuaStack.get_second, LuaObjs.setmetatable, Store.alloc_modify, LuaTable.classTable,
      Function.update_self, Option.bind_some]
    simp only [Store.map_next]
    generalize (if name = tname then Obj.table s.tables.next else s.registry name) = v
    cases v <;> rfl

/-! Lookups through the classes. -/

/-- A table without a metatable that no class has. -/
theorem classes_newTable {names : List String} {sup : String → Option String} {o : LuaObjs}
    (h : o.Classes names sup) (x : Obj) :
    ({ o with tables := o.tables.alloc ⟨none, x⟩ } : LuaObjs).Classes names sup := by
  let o' : LuaObjs := { o with tables := o.tables.alloc ⟨none, x⟩ }
  have hmeta (u : ℕ) : o'.metatableOf (.table u) =
      if u = o.tables.next then none else o.metatableOf (.table u) := by
    change ((o.tables.alloc _).get u).bind _ = _
    rw [Store.alloc_get]
    split <;> rfl
  have hold {n : String} {t : ℕ} (ht : o.registry n = .table t) : t ≠ o.tables.next :=
    (h.closed.registry n t ht).ne
  refine ⟨⟨?_, ?_⟩, ?_, h.inj, h.order, ?_⟩
  · intro t s hs
    change o'.metatableOf (.table t) = some s at hs
    rw [hmeta] at hs
    split at hs
    · cases hs
    · exact (h.closed.metatable t s hs).trans (Nat.lt_succ_self _)
  · intro n t ht
    exact (h.closed.registry n t ht).trans (Nat.lt_succ_self _)
  · intro n hn
    obtain ⟨t, ht, hlive, hmt⟩ := h.made n hn
    refine ⟨t, ht, ?_, ?_⟩
    · change ((o.tables.alloc _).get t).isSome
      rwa [Store.alloc_get, if_neg (hold ht)]
    · change o'.metatableOf (.table t) = _
      rw [hmeta, if_neg (hold ht)]
      exact hmt
  · intro t s ht hs n hn
    change o'.metatableOf (.table t) = some s at hs
    rw [hmeta] at hs
    split at hs
    · cases hs
    · exact h.foreign t s ht hs n hn

end LuaState

/-- What a class finds under a name: its own field, or what the class above it finds. -/
inductive Inherits (sup : String → Option String) (own : String → String → FieldVal) (k : String) :
    String → FieldVal → Prop
  | own {c : String} (h : own c k ≠ .nil) : Inherits sup own k c (own c k)
  | above {c d : String} {v : FieldVal} (h : own c k = .nil) (hs : sup c = some d)
    (hd : Inherits sup own k d v) : Inherits sup own k c v
  | none {c : String} (h : own c k = .nil) (hs : sup c = none) : Inherits sup own k c .nil

namespace LuaState
variable {s : LuaState} {names : List String} {sup : String → Option String}
  {own : String → String → FieldVal}

/-- The tables of the classes are their own `__index`, and have the fields `own`. -/
structure HasFields (s : LuaState) (names : List String) (own : String → String → FieldVal) :
    Prop where
  index : ∀ c ∈ names, ∀ t, s.registry c = .table t → s.rawget t "__index" = .obj (.table t)
  field : ∀ c ∈ names, ∀ t, s.registry c = .table t → ∀ k, k ≠ "__index" → s.rawget t k = own c k

/-- An indexing goes up from class to class, no further than there are classes. -/
theorem index_class (hc : s.objs.Classes names sup) (hf : s.HasFields names own) {k : String}
    (hk : k ≠ "__index") (i : ℕ) : ∀ {c : String} {t : ℕ}, c ∈ names → names.idxOf c = i →
      s.registry c = .table t → ∃ v, Inherits sup own k c v ∧
        ∀ fuel, i < fuel → s.index fuel (.table t) k = some v := by
  -- the class above comes earlier in `names`, so the induction is on the place of the class
  induction i using Nat.strong_induction_on with
  | _ i ih =>
    intro c t hcn hi ht
    obtain ⟨t', ht', -, hmt⟩ := hc.made c hcn
    obtain rfl := Obj.table.inj (ht.symm.trans ht')
    have hown := hf.field c hcn t ht k hk
    by_cases hnil : own c k = .nil
    · cases hs : sup c with
      | none =>
        rw [hs] at hmt
        refine ⟨.nil, .none hnil hs, ?_⟩
        intro fuel hfuel
        obtain ⟨n, rfl⟩ : ∃ n, fuel = n+1 := ⟨fuel-1, by omega⟩
        rw [index, hown, if_neg (by simp [hnil]), hmt]
        rfl
      | some d =>
        obtain ⟨-, hd, hlt⟩ := hc.order c d hs
        obtain ⟨u, hu, -, -⟩ := hc.made d hd
        obtain ⟨v, hv, hrun⟩ := ih _ (hi ▸ hlt) hd rfl hu
        rw [hs, Option.bind_some, LuaObjs.classTable_eq_some.mpr hu] at hmt
        refine ⟨v, .above hnil hs hv, ?_⟩
        intro fuel hfuel
        obtain ⟨n, rfl⟩ : ∃ n, fuel = n+1 := ⟨fuel-1, by omega⟩
        rw [index, hown, if_neg (by simp [hnil]), hmt]
        dsimp only
        rw [hf.index d hd u hu]
        exact hrun n (by omega)
    · refine ⟨own c k, .own hnil, ?_⟩
      intro fuel hfuel
      obtain ⟨n, rfl⟩ : ∃ n, fuel = n+1 := ⟨fuel-1, by omega⟩
      rw [index, hown, if_pos hnil]

/-- A userdata finds what its class finds. -/
theorem index_instance (hc : s.objs.Classes names sup) (hf : s.HasFields names own) {k : String}
    (hk : k ≠ "__index") {c : String} (hcn : c ∈ names) {u : ℕ}
    (hu : s.objs.metatableOf (.userdata u) = s.objs.classTable c) :
    ∃ v, Inherits sup own k c v ∧
      ∀ fuel, names.length < fuel → s.index fuel (.userdata u) k = some v := by
  obtain ⟨t, ht, -, -⟩ := hc.made c hcn
  obtain ⟨v, hv, hrun⟩ := index_class hc hf hk _ hcn rfl ht
  refine ⟨v, hv, ?_⟩
  intro fuel hfuel
  obtain ⟨n, rfl⟩ : ∃ n, fuel = n+1 := ⟨fuel-1, by omega⟩
  have hidx := List.idxOf_lt_length_iff.mpr hcn
  rw [LuaObjs.classTable_eq_some.mpr ht] at hu
  simp only [index, hu, hf.index c hcn t ht]
  exact hrun n (by omega)

end LuaState

/-- What is found is a field of the class or of one above it. -/
theorem Inherits.subclass {sup : String → Option String} {own : String → String → FieldVal}
    {k c : String} {v : FieldVal} (h : Inherits sup own k c v) (hv : v ≠ .nil) :
    ∃ d, Subclass sup c d ∧ v = own d k := by
  induction h with
  | own h => exact ⟨_, .refl, rfl⟩
  | above h hs _ ih =>
    obtain ⟨d, hd, he⟩ := ih hv
    exact ⟨d, .head hs hd, he⟩
  | none h hs => exact absurd rfl hv

theorem Inherits.eq_own {sup : String → Option String} {own : String → String → FieldVal}
    {k c : String} {v : FieldVal} (h : Inherits sup own k c v) (hown : own c k ≠ .nil) :
    v = own c k := by
  cases h with
  | own => rfl
  | above hnil | none hnil => exact absurd hnil hown

end Couv
