import Couv.Methods

/-! The methods that the objects of couv have once the module is loaded. -/
namespace Couv

/-- What couv.lua defines: under `native.field.name` a function that calls `native.field.method`
with its arguments. -/
def luaMethods : List (String × String × String) :=
  [("_Handle", "close", "_close"), ("_Stream", "read", "_read"),
    ("_Stream", "shutdown", "_shutdown"), ("_Stream", "write", "_write"),
    ("_Tcp", "connect", "_connect"), ("_Pipe", "connect", "_connect"),
    ("_Pipe", "read2", "_read2"), ("_Udp", "recv", "_recv"), ("_Udp", "send", "_send")]

namespace LuaState

/-- An assignment of couv.lua; it raises if `native` has no such table. -/
def defineMethod (native : ℕ) (s : LuaState) (p : String × String × String) : LuaState :=
  match s.index 1 (.table native) p.1 with
  | some (.obj (.table t)) => s.rawset t p.2.1 (.lua p.1 p.2.2)
  | _ => s

def couvLua (s : LuaState) (native : ℕ) : LuaState := luaMethods.foldl (defineMethod native) s

/-- The C function that a method calls, with the first argument that the method is called with. -/
def callee (s : LuaState) (fuel native : ℕ) : FieldVal → Option CFunction
  | .cfunction f => some f
  | .lua field method =>
    match s.index fuel (.table native) field with
    | some (.obj (.table t)) =>
      match s.index fuel (.table t) method with
      | some (.cfunction f) => some f
      | _ => none
    | _ => none
  | .obj _ | .number _ => none

variable {s : LuaState} {st : LuaStack FieldVal} {native : ℕ}

/-- The class check sees the new metatable; the other table that is made is no metatable. -/
theorem openClass_run (hst : s.stack = st.push (.obj (.table native))) (c : ClassOpen)
    (h : s.registry c.tname = .nil) :
    s.openClass c =
      { s with
        tables := (((s.tables.alloc ⟨none, overlay c.statics (fun _ => .nil)⟩).modify native
          (fun x => { x with
            fields := Function.update x.fields c.field (.obj (.table s.tables.next)) })).alloc
          ⟨c.superTname.bind (fun name => metatableFrom
              (if name = c.tname then .table (s.tables.next+1) else s.registry name)),
            overlay (c.methods.map (fun p => (p.1, .cfunction p.2)))
              (Function.update (fun _ => .nil) "__index" (.obj (.table (s.tables.next+1))))⟩).modify
          native (fun x => { x with
            fields := Function.update x.fields c.mfield (.obj (.table (s.tables.next+1))) })
        registry := fun n => if n = c.tname then .table (s.tables.next+1) else s.registry n } := by
  -- the table of the static functions
  let s₁ : LuaState :=
    { s with
      stack := s.stack.push (.obj (.table s.tables.next))
      tables := s.tables.alloc ⟨none, overlay c.statics (fun _ => .nil)⟩ }
  have h₁ : s.luaNewtable.setfields c.statics = s₁ := by
    rw [setfields_run rfl]
    simp only [luaNewtable, Store.alloc_modify, s₁]
  let s₂ : LuaState :=
    { s with
      tables := (s.tables.alloc ⟨none, overlay c.statics (fun _ => .nil)⟩).modify native
        (fun x => { x with
          fields := Function.update x.fields c.field (.obj (.table s.tables.next)) }) }
  have h₂ : s₁.luaSetfield (-2) c.field = s₂ := by
    have hs₁ : s₁.stack = (st.push (.obj (.table native))).push (.obj (.table s.tables.next)) := by
      rw [← hst]
    rw [luaSetfield_run hs₁, rawset, ← hst]
  -- the metatable, which is its own `__index`
  let s₃ : LuaState :=
    { s with
      stack := s.stack.push (.obj (.table (s.tables.next+1)))
      tables := s₂.tables.alloc
        ⟨c.superTname.bind (fun name => metatableFrom
            (if name = c.tname then .table (s.tables.next+1) else s.registry name)),
          overlay (c.methods.map (fun p => (p.1, .cfunction p.2)))
            (Function.update (fun _ => .nil) "__index" (.obj (.table (s.tables.next+1))))⟩
      registry := fun n => if n = c.tname then .table (s.tables.next+1) else s.registry n }
  have h₃ : (s₂.couvNewmetatable c.tname c.superTname).couvLSetfuncs c.methods = s₃ := by
    have hreg : s₂.registry c.tname = .nil := h
    rw [couvNewmetatable_run hreg, couvLSetfuncs, setfields_run rfl]
    exact congrArg (fun x => { s₃ with tables := x }) (Store.alloc_modify s₂.tables _ _)
  have hs₃ : s₃.stack =
      (st.push (.obj (.table native))).push (.obj (.table (s.tables.next+1))) := by
    rw [← hst]
  unfold openClass
  dsimp only
  rw [h₁, h₂, h₃, luaSetfield_run hs₃, rawset, ← hst]

/-- The class check sees a new table without a metatable, and the call of couv_newmetatable. -/
theorem openClass_objs (hst : s.stack = st.push (.obj (.table native))) {c : ClassOpen}
    (h : s.registry c.tname = .nil) (hfield : c.field ≠ "__index") (hmfield : c.mfield ≠ "__index")
    (hmethods : "__index" ∉ c.methods.map Prod.fst) : ∃ x : Obj, (s.openClass c).objs =
      (({ s.objs with tables := s.objs.tables.alloc ⟨none, x⟩ } : LuaObjs).couvNewmetatable ⟨[]⟩
        c.tname c.superTname).1 := by
  let T : LuaTable := ⟨none, overlay c.statics (fun _ => .nil)⟩
  refine ⟨T.classTable.index, ?_⟩
  -- a store into the module's table changes no metatable
  have hstore {k : String} (hk : k ≠ "__index") (v : FieldVal) (tables : Store LuaTable) :
      (tables.modify native (fun x => { x with fields := Function.update x.fields k v })).map
        LuaTable.classTable = tables.map LuaTable.classTable := by
    refine Store.map_modify_of_eq _ _ (fun x => ?_) native
    simp only [LuaTable.classTable, Function.update_of_ne hk.symm]
  have hindex (f : String → FieldVal) :
      overlay (c.methods.map (fun p => (p.1, .cfunction p.2))) f "__index" = f "__index" := by
    refine overlay_of_notMem ?_
    rw [List.map_map]
    exact hmethods
  let s₁ : LuaState := { s with tables := s.tables.alloc T }
  have hobjs : s₁.objs = { s.objs with tables := s.objs.tables.alloc T.classTable } := by
    simp only [objs, s₁, Store.map_alloc]
  have hreg : s₁.registry c.tname = .nil := h
  rw [← show T.classTable = ⟨none, T.classTable.index⟩ from rfl, ← hobjs,
    ← couvNewmetatable_objs hreg, openClass_run hst c h, couvNewmetatable_run hreg]
  simp only [objs, hstore hmfield, Store.map_alloc, hstore hfield, LuaTable.classTable, hindex, s₁,
    T]
  rfl

/-- The fields of the module's table and of the new metatable; tables that were there keep
theirs. -/
theorem openClass_rawget (hst : s.stack = st.push (.obj (.table native)))
    (hlive : (s.tables.get native).isSome) {c : ClassOpen} (h : s.registry c.tname = .nil) :
    (∀ k, (s.openClass c).rawget native k = if k = c.mfield then .obj (.table (s.tables.next+1))
      else if k = c.field then .obj (.table s.tables.next) else s.rawget native k) ∧
    (∀ k, (s.openClass c).rawget (s.tables.next+1) k =
      overlay (c.methods.map (fun p => (p.1, .cfunction p.2)))
        (Function.update (fun _ => .nil) "__index" (.obj (.table (s.tables.next+1)))) k) ∧
    ∀ u k, u < s.tables.next → u ≠ native → (s.openClass c).rawget u k = s.rawget u k := by
  obtain ⟨x, hx⟩ := Option.isSome_iff_exists.mp hlive
  have hlt : native < s.tables.next := s.tables.lt_next hx
  -- the four stores into tables, the last one first
  have hrawget (u : ℕ) (k : String) : (s.openClass c).rawget u k =
      if u = native ∧ k = c.mfield then .obj (.table (s.tables.next+1))
      else if u = s.tables.next+1 then overlay (c.methods.map (fun p => (p.1, .cfunction p.2)))
        (Function.update (fun _ => .nil) "__index" (.obj (.table (s.tables.next+1)))) k
      else if u = native ∧ k = c.field then .obj (.table s.tables.next)
      else if u = s.tables.next then overlay c.statics (fun _ => .nil) k
      else s.rawget u k := by
    rw [openClass_run hst c h]
    unfold rawget
    dsimp only
    rw [fieldOf_modify, fieldOf_alloc, fieldOf_modify, fieldOf_alloc]
    · rfl
    · rwa [Store.alloc_get, if_neg hlt.ne]
    · rw [Store.alloc_get, if_neg (by simp only [Store.modify_next, Store.alloc_next]; omega),
        modify_live, Store.alloc_get, if_neg hlt.ne]
      exact hlive
  refine ⟨?_, ?_, ?_⟩
  · intro k
    rw [hrawget]
    simp only [true_and, if_neg hlt.ne, if_neg (show native ≠ s.tables.next+1 by omega)]
  · intro k
    rw [hrawget, if_neg (fun hh => by omega), if_pos rfl]
  · intro u k hu hne
    rw [hrawget, if_neg (fun hh => hne hh.1), if_neg (by omega), if_neg (fun hh => hne hh.1),
      if_neg hu.ne]

/-- The module is being loaded: its table lies on the stack, over `st`. The classes `names` are
there, with the methods `own`, and the table has their metatables under the names `exported`. -/
structure Opened (st : LuaStack FieldVal) (native : ℕ) (names : List String)
    (sup : String → Option String) (own : String → String → FieldVal)
    (exported : List (String × String)) (s : LuaState) : Prop where
  stack : s.stack = st.push (.obj (.table native))
  live : (s.tables.get native).isSome
  classes : s.objs.Classes names sup
  fields : s.HasFields names own
  apart : ∀ c ∈ names, s.registry c ≠ .table native
  exported : ∀ p ∈ exported, p.2 ∈ names ∧ s.rawget native p.1 = .obj (s.registry p.2)

end LuaState

/-- The methods that the class gets in C. -/
def ClassOpen.own (c : ClassOpen) : String → FieldVal :=
  LuaState.overlay (c.methods.map (fun p => (p.1, .cfunction p.2))) (fun _ => .nil)

/-- The class is not there, but the one above it is, and the module has nothing under its names. -/
structure ClassOpen.Fits (names : List String) (exported : List (String × String)) (c : ClassOpen) :
    Prop where
  superTname : ∀ d ∈ c.superTname, d ∈ names
  field : c.field ≠ "__index"
  mfield : c.mfield ≠ "__index"
  methods : "__index" ∉ c.methods.map Prod.fst
  exported : ∀ p ∈ exported, p.1 ≠ c.field ∧ p.1 ≠ c.mfield

namespace LuaState
variable {s : LuaState} {st : LuaStack FieldVal} {native : ℕ} {names : List String}
  {sup : String → Option String} {own : String → String → FieldVal}
  {exported : List (String × String)}

theorem openClass_registry (hst : s.stack = st.push (.obj (.table native))) {c : ClassOpen}
    (h : s.registry c.tname = .nil) (n : String) : (s.openClass c).registry n =
      if n = c.tname then .table (s.tables.next+1) else s.registry n := by
  rw [openClass_run hst c h]

theorem Opened.openClass (h : Opened st native names sup own exported s) {c : ClassOpen}
    (hnew : s.registry c.tname = .nil) (hc : c.Fits names exported) :
    Opened st native (names ++ [c.tname]) (ClassCall.setSuper sup (c.tname, c.superTname))
      (Function.update own c.tname c.own) (exported ++ [(c.mfield, c.tname)]) (s.openClass c) := by
  have hnot : c.tname ∉ names := by
    intro hn
    obtain ⟨t, ht, -, -⟩ := h.classes.made c.tname hn
    cases hnew.symm.trans ht
  have hreg (n : String) := openClass_registry h.stack hnew n
  have hold {n : String} (hn : n ∈ names) : (s.openClass c).registry n = s.registry n := by
    rw [hreg, if_neg (fun he : n = c.tname => hnot (he ▸ hn))]
  obtain ⟨hnative, hmeta, hkept⟩ := openClass_rawget h.stack h.live hnew
  obtain ⟨x, hx⟩ := Option.isSome_iff_exists.mp h.live
  have hlt : native < s.tables.next := s.tables.lt_next hx
  -- the tables of the classes that were there
  have htable {n : String} (hn : n ∈ names) {t : ℕ} (ht : s.registry n = .table t) :
      t < s.tables.next ∧ t ≠ native :=
    ⟨h.classes.closed.registry n t ht, fun he => h.apart n hn (he ▸ ht)⟩
  refine ⟨?_, ?_, ?_, ⟨?_, ?_⟩, ?_, ?_⟩
  · rw [openClass_run h.stack c hnew]
    exact h.stack
  · rw [openClass_run h.stack c hnew]
    dsimp only
    have hne : native ≠ s.tables.next+1 := by omega
    rw [modify_live, Store.alloc_get, Store.modify_next, Store.alloc_next, if_neg hne, modify_live,
      Store.alloc_get, if_neg hlt.ne]
    exact h.live
  · obtain ⟨y, hobjs⟩ := openClass_objs h.stack hnew hc.field hc.mfield hc.methods
    have hord : ClassCall.Ordered names (c.tname, c.superTname) :=
      fun d hd => ⟨hc.superTname d hd, fun hn => absurd hn hnot⟩
    have hstep := ((classes_newTable h.classes y).step (c := (c.tname, c.superTname))
      (fun _ => hnew) hord ⟨[]⟩).1
    rw [hobjs]
    rwa [ClassCall.register, if_neg hnot] at hstep
  · intro n hn t ht
    rcases List.mem_append.mp hn with hn | hn
    · rw [hold hn] at ht
      obtain ⟨htlt, htne⟩ := htable hn ht
      rw [hkept t _ htlt htne, h.fields.index n hn t ht]
    · rw [List.mem_singleton.mp hn, hreg, if_pos rfl] at ht
      obtain rfl := Obj.table.inj ht
      rw [hmeta, overlay_of_notMem]
      · exact Function.update_self _ _ _
      · rw [List.map_map]
        exact hc.methods
  · intro n hn t ht k hk
    rcases List.mem_append.mp hn with hn | hn
    · rw [hold hn] at ht
      obtain ⟨htlt, htne⟩ := htable hn ht
      rw [hkept t _ htlt htne, h.fields.field n hn t ht k hk,
        Function.update_of_ne (fun he : n = c.tname => hnot (he ▸ hn))]
    · rw [List.mem_singleton.mp hn, hreg, if_pos rfl] at ht
      obtain rfl := Obj.table.inj ht
      rw [hmeta, List.mem_singleton.mp hn, Function.update_self]
      exact overlay_congr (Function.update_of_ne hk _ _)
  · intro n hn
    rcases List.mem_append.mp hn with hn | hn
    · rw [hold hn]
      exact h.apart n hn
    · rw [List.mem_singleton.mp hn, hreg, if_pos rfl]
      intro he
      obtain rfl := Obj.table.inj he
      omega
  · intro p hp
    rcases List.mem_append.mp hp with hp | hp
    · obtain ⟨hmem, hval⟩ := h.exported p hp
      obtain ⟨hf, hm⟩ := hc.exported p hp
      refine ⟨List.mem_append_left _ hmem, ?_⟩
      rw [hnative, if_neg hm, if_neg hf, hold hmem]
      exact hval
    · rw [List.mem_singleton.mp hp]
      refine ⟨List.mem_append_right _ (List.mem_singleton_self _), ?_⟩
      rw [hnative, if_pos rfl, hreg, if_pos rfl]

end LuaState

/-- The classes fit one after the other. -/
def FitsAll (names : List String) (exported : List (String × String)) : List ClassOpen → Prop
  | [] => True
  | c :: cs => c.Fits names exported ∧
    FitsAll (names ++ [c.tname]) (exported ++ [(c.mfield, c.tname)]) cs

/-- The methods of the classes, those of `own` among them. -/
def ownOf (own : String → String → FieldVal) (cs : List ClassOpen) : String → String → FieldVal :=
  cs.foldl (fun own c => Function.update own c.tname c.own) own

namespace LuaState
variable {s : LuaState} {st : LuaStack FieldVal} {native : ℕ} {names : List String}
  {sup : String → Option String} {own : String → String → FieldVal}
  {exported : List (String × String)}

/-- Loading classes one after the other. -/
theorem Opened.openClasses {cs : List ClassOpen} (h : Opened st native names sup own exported s)
    (hnew : ∀ c ∈ cs, s.registry c.tname = .nil) (hnodup : (cs.map ClassOpen.tname).Nodup)
    (hfits : FitsAll names exported cs) :
    Opened st native (names ++ cs.map ClassOpen.tname)
      (superOf sup (cs.map (fun c => (c.tname, c.superTname)))) (ownOf own cs)
      (exported ++ cs.map (fun c => (c.mfield, c.tname))) (cs.foldl LuaState.openClass s) := by
  induction cs generalizing s names sup own exported with
  | nil =>
    simp only [List.map_nil, List.append_nil]
    exact h
  | cons c cs ih =>
    rw [List.map_cons, List.nodup_cons] at hnodup
    have hstep := h.openClass (hnew c List.mem_cons_self) hfits.1
    have hrest : ∀ d ∈ cs, (s.openClass c).registry d.tname = .nil := by
      intro d hd
      have hne : d.tname ≠ c.tname := fun he => hnodup.1 (he ▸ List.mem_map_of_mem hd)
      rw [openClass_registry h.stack (hnew c List.mem_cons_self), if_neg hne]
      exact hnew d (List.mem_cons_of_mem _ hd)
    have hall := ih hstep hrest hnodup.2 hfits.2
    rw [List.append_assoc, List.append_assoc] at hall
    exact hall

/-! The part of the module without classes. -/

/-- Tables are added or get fields; no metatable is set. -/
structure Grows (T T' : Store LuaTable) : Prop where
  next : T.next ≤ T'.next
  live : ∀ t, (T.get t).isSome → (T'.get t).isSome
  metatable : ∀ t c', T'.get t = some c' → ∀ m, c'.metatable = some m →
    ∃ c, T.get t = some c ∧ c.metatable = some m

theorem Grows.trans {T T' T'' : Store LuaTable} (h : Grows T T') (h' : Grows T' T'') :
    Grows T T'' where
  next := h.next.trans h'.next
  live t ht := h'.live t (h.live t ht)
  metatable t c hc m hm := by
    obtain ⟨c', hc', hm'⟩ := h'.metatable t c hc m hm
    exact h.metatable t c' hc' m hm'

theorem grows_alloc (T : Store LuaTable) (f : String → FieldVal) :
    Grows T (T.alloc ⟨none, f⟩) where
  next := Nat.le_succ _
  live t ht := by
    obtain ⟨c, hc⟩ := Option.isSome_iff_exists.mp ht
    rw [T.alloc_get_of_some hc]
    rfl
  metatable t c hc m hm := by
    rcases T.alloc_eq_some.mp hc with ⟨-, rfl⟩ | ⟨-, hc⟩
    · cases hm
    · exact ⟨c, hc, hm⟩

theorem grows_modify (T : Store LuaTable) (t : ℕ) (f : (String → FieldVal) → String → FieldVal) :
    Grows T (T.modify t (fun c => { c with fields := f c.fields })) where
  next := le_rfl
  live u hu := by rwa [modify_live]
  metatable u c hc m hm := by
    rcases T.modify_eq_some.mp hc with ⟨rfl, d, hd, rfl⟩ | ⟨-, hc⟩
    · exact ⟨d, hd, hm⟩
    · exact ⟨c, hc, hm⟩

theorem Grows.closed {T : Store LuaTable} {registry : String → Obj} (h : s.objs.Closed)
    (hT : Grows s.tables T)
    (hreg : ∀ n t, registry n = .table t → s.registry n = .table t ∨ t < T.next) :
    ({ s with tables := T, registry := registry } : LuaState).objs.Closed where
  metatable t m hm := by
    change ((T.map LuaTable.classTable).get t).bind ClassTable.metatable = some m at hm
    obtain ⟨x, hx, hm⟩ := Option.bind_eq_some_iff.mp hm
    rw [Store.map_get] at hx
    obtain ⟨c', hc', rfl⟩ := Option.map_eq_some_iff.mp hx
    obtain ⟨c, hc, hcm⟩ := hT.metatable t c' hc' m hm
    have hold : s.objs.metatableOf (.table t) = some m := by
      change ((s.tables.map LuaTable.classTable).get t).bind ClassTable.metatable = some m
      rw [Store.map_get, hc]
      exact hcm
    exact (h.metatable t m hold).trans_le hT.next
  registry n t ht := by
    rcases hreg n t ht with hr | hlt
    · exact (h.registry n t hr).trans_le hT.next
    · exact hlt

/-- A registered name. -/
def register (s : LuaState) (name : String) (v : Obj) (n : String) : Obj :=
  if n = name then v else s.registry n

theorem luaopenCouvLoop_run (hst : s.stack = st.push (.obj (.table native))) (loop : ℕ) :
    ∃ T, Grows s.tables T ∧ s.luaopenCouvLoop loop =
      { s with tables := T, registry := s.register "couv.loop" (.lightuserdata loop) } := by
  let s' : LuaState := { s with registry := s.register "couv.loop" (.lightuserdata loop) }
  have hset : (s.push (.obj (.lightuserdata loop))).luaSetregistry "couv.loop" = s' := by
    simp only [luaSetregistry, push, LuaStack.get_top, Option.getD_some, LuaStack.pop_push,
      LuaStack.pop_zero]
    rfl
  have hst' : s'.stack = st.push (.obj (.table native)) := hst
  unfold luaopenCouvLoop
  rw [hset, couvLSetfuncs, setfields_run hst']
  exact ⟨_, grows_modify _ _ _, rfl⟩

/-- A new metatable with methods. -/
theorem newmetatable_methods {name : String} (h : s.registry name = .nil)
    (methods : List (String × CFunction)) : ∃ T, Grows s.tables T ∧ s.tables.next < T.next ∧
      (T.get s.tables.next).isSome ∧ (s.luaLNewmetatable name).couvLSetfuncs methods =
        { s with
          stack := s.stack.push (.obj (.table s.tables.next))
          tables := T
          registry := s.register name (.table s.tables.next) } := by
  rw [luaLNewmetatable_run h, couvLSetfuncs, setfields_run rfl]
  refine ⟨_, (grows_alloc s.tables _).trans (grows_modify _ _ _), Nat.lt_succ_self _, ?_, rfl⟩
  rw [modify_live, Store.alloc_get_self]
  rfl

/-- A new table with functions, under a name in the module's table. -/
theorem newtable_functions (hst : s.stack = st.push (.obj (.table native)))
    (functions : List (String × CFunction)) (name : String) : ∃ T, Grows s.tables T ∧
      (s.luaNewtable.couvLSetfuncs functions).luaSetfield (-2) name = { s with tables := T } := by
  let fields := overlay (functions.map (fun p => (p.1, .cfunction p.2))) (fun _ => .nil)
  let s' : LuaState :=
    { s with
      stack := s.stack.push (.obj (.table s.tables.next))
      tables := s.tables.alloc ⟨none, fields⟩ }
  have hfuncs : s.luaNewtable.couvLSetfuncs functions = s' := by
    rw [couvLSetfuncs, setfields_run rfl]
    simp only [luaNewtable, Store.alloc_modify, s', fields]
  have hst' : s'.stack = (st.push (.obj (.table native))).push (.obj (.table s.tables.next)) := by
    rw [← hst]
  refine ⟨_, (grows_alloc s.tables fields).trans (grows_modify _ native (fun f =>
    Function.update f name (.obj (.table s.tables.next)))), ?_⟩
  rw [hfuncs, luaSetfield_run hst', rawset, ← hst]

theorem luaopenCouvBuffer_run (hst : s.stack = st.push (.obj (.table native)))
    (h : s.registry "couv.Buffer" = .nil) (methods : List (String × CFunction)) :
    ∃ T, Grows s.tables T ∧ s.tables.next < T.next ∧ s.luaopenCouvBuffer methods =
      { s with
        tables := T
        registry := s.register "couv.Buffer" (.table s.tables.next) } := by
  obtain ⟨T, hT, hlt, -, hrun⟩ := newmetatable_methods h methods
  let s' : LuaState :=
    { s with tables := T, registry := s.register "couv.Buffer" (.table s.tables.next) }
  have hpop : ((s.luaLNewmetatable "couv.Buffer").couvLSetfuncs methods).pop 1 = s' := by
    rw [hrun]
    rfl
  have hst' : s'.stack = st.push (.obj (.table native)) := hst
  obtain ⟨T', hT', hrun'⟩ := newtable_functions hst' [("concat", ⟨"buffer_concat", none⟩),
    ("isBuffer", ⟨"buffer_is_buffer", none⟩), ("new", ⟨"buffer_new", none⟩)] "Buffer"
  refine ⟨T', hT.trans hT', hlt.trans_le hT'.next, ?_⟩
  unfold luaopenCouvBuffer
  rw [hpop]
  exact hrun'

theorem luaopenCouvFs_run (hst : s.stack = st.push (.obj (.table native)))
    (h : s.registry "couv.fs.Stat" = .nil) (functions methods : List (String × CFunction)) :
    ∃ T, Grows s.tables T ∧ ∃ t < T.next, s.luaopenCouvFs functions methods =
      { s with tables := T, registry := s.register "couv.fs.Stat" (.table t) } := by
  obtain ⟨T, hT, hrun⟩ := newtable_functions hst functions "fs"
  let s' : LuaState := { s with tables := T }
  have h' : s'.registry "couv.fs.Stat" = .nil := h
  obtain ⟨T', hT', hlt, hlive, hrun'⟩ := newmetatable_methods h' methods
  refine ⟨T'.modify T.next (fun c => { c with
    fields := Function.update c.fields "__index" (.obj (.table T.next)) }),
    (hT.trans hT').trans (grows_modify _ _ (fun f => Function.update f "__index" _)), T.next, hlt,
    ?_⟩
  unfold luaopenCouvFs
  dsimp only
  rw [hrun]
  change ((s'.luaLNewmetatable "couv.fs.Stat").couvLSetfuncs methods).luaSetfield (-1) "__index" = _
  rw [hrun', luaSetfield, LuaStack.get_top]
  dsimp only
  rw [pop, rawset]
  rfl

/-- The module in front of its classes. -/
theorem luaopenCouvNative_start {s : LuaState} (env : NativeEnv) (hclosed : s.objs.Closed)
    (hbuffer : s.registry "couv.Buffer" = .nil) (hstat : s.registry "couv.fs.Stat" = .nil) :
    ∃ s' native, s.luaopenCouvNative env = (couvOpens env.const env.types).foldl openClass s' ∧
      s'.stack = s.stack.push (.obj (.table native)) ∧ (s'.tables.get native).isSome ∧
      s'.objs.Closed ∧ ∀ n, n ∉ ["couv.loop", "couv.Buffer", "couv.fs.Stat"] →
        s'.registry n = s.registry n := by
  let native := s.tables.next
  let fields := overlay (env.functions.map (fun p => (p.1, .cfunction p.2))) (fun _ => .nil)
  -- the table of the module, then what loop, Buffer and fs add to it one after the other
  let s₁ : LuaState :=
    { s with
      stack := s.stack.push (.obj (.table native))
      tables := s.tables.alloc ⟨none, fields⟩ }
  have h₁ : s.luaNewtable.couvLSetfuncs env.functions = s₁ := by
    rw [couvLSetfuncs, setfields_run rfl]
    simp only [luaNewtable, Store.alloc_modify, s₁, fields, native]
  have hst₁ : s₁.stack = s.stack.push (.obj (.table native)) := rfl
  obtain ⟨T₂, hT₂, h₂⟩ := luaopenCouvLoop_run hst₁ env.loop
  let s₂ : LuaState :=
    { s₁ with tables := T₂, registry := s₁.register "couv.loop" (.lightuserdata env.loop) }
  have hst₂ : s₂.stack = s.stack.push (.obj (.table native)) := rfl
  have hbuffer₂ : s₂.registry "couv.Buffer" = .nil := hbuffer
  obtain ⟨T₃, hT₃, hlt₃, h₃⟩ := luaopenCouvBuffer_run hst₂ hbuffer₂ env.bufferMethods
  let s₃ : LuaState :=
    { s₂ with tables := T₃, registry := s₂.register "couv.Buffer" (.table T₂.next) }
  have hst₃ : s₃.stack = s.stack.push (.obj (.table native)) := rfl
  have hstat₃ : s₃.registry "couv.fs.Stat" = .nil := hstat
  obtain ⟨T₄, hT₄, t, ht, h₄⟩ := luaopenCouvFs_run hst₃ hstat₃ env.fsFunctions env.fsStatMethods
  have hgrows : Grows s₁.tables T₄ := (hT₂.trans hT₃).trans hT₄
  let s₄ : LuaState :=
    { s₃ with tables := T₄, registry := s₃.register "couv.fs.Stat" (.table t) }
  have hreg (n : String) : s₄.registry n = if n = "couv.fs.Stat" then .table t
      else if n = "couv.Buffer" then .table T₂.next
      else if n = "couv.loop" then .lightuserdata env.loop else s.registry n := rfl
  refine ⟨s₄, native, ?_, hst₃, ?_, ?_, ?_⟩
  · unfold luaopenCouvNative
    dsimp only
    rw [h₁, h₂]
    change List.foldl openClass ((s₂.luaopenCouvBuffer _).luaopenCouvFs _ _) _ = _
    rw [h₃]
    change List.foldl openClass (s₃.luaopenCouvFs _ _) _ = _
    rw [h₄]
  · refine hgrows.live native ?_
    change ((s.tables.alloc ⟨none, fields⟩).get s.tables.next).isSome
    rw [Store.alloc_get_self]
    rfl
  · refine @Grows.closed s T₄ s₄.registry hclosed ((grows_alloc s.tables fields).trans hgrows) ?_
    intro n u hu
    rw [hreg] at hu
    split at hu
    · obtain rfl := Obj.table.inj hu
      exact .inr ht
    · split at hu
      · obtain rfl := Obj.table.inj hu
        exact .inr (hlt₃.trans_le hT₄.next)
      · split at hu
        · cases hu
        · exact .inl hu
  · intro n hn
    simp only [List.mem_cons, List.not_mem_nil, or_false, not_or] at hn
    rw [hreg, if_neg hn.2.2, if_neg hn.2.1, if_neg hn.1]

end LuaState

theorem couvOpens_fits (const : String → ℤ) (types : List String) :
    FitsAll [] [] (couvOpens const types) := by
  refine ⟨?_, ?_, ?_, ?_, ?_, ?_, ?_, ?_, ?_, ?_, ?_, trivial⟩ <;> constructor <;>
    simp [couvSockAddr, couvSockAddrV4, couvSockAddrV6, couvHandle, couvProcess, couvTimer,
      couvUdp, couvStream, couvPipe, couvTcp, couvTty, methodsOf]

theorem couvOpens_nodup (const : String → ℤ) (types : List String) :
    ((couvOpens const types).map ClassOpen.tname).Nodup := by
  change [_, _, _, _, _, _, _, _, _, _, _].Nodup
  simp [couvSockAddr, couvSockAddrV4, couvSockAddrV6, couvHandle, couvProcess, couvTimer,
    couvUdp, couvStream, couvPipe, couvTcp, couvTty]

/-- Every method checks its first argument for the class that has it, or for none. -/
theorem couvOpens_self (const : String → ℤ) (types : List String) :
    ∀ c ∈ couvOpens const types, ∀ p ∈ c.methods, p.2.self = none ∨ p.2.self = some c.tname := by
  have hmethods (self : String) (l : List (String × String)) :
      ∀ p ∈ methodsOf self l, p.2.self = none ∨ p.2.self = some self := by
    intro p hp
    obtain ⟨q, -, rfl⟩ := List.mem_map.mp hp
    exact .inr rfl
  intro c hc
  simp only [couvOpens, List.mem_cons, List.not_mem_nil, or_false] at hc
  rcases hc with rfl | rfl | rfl | rfl | rfl | rfl | rfl | rfl | rfl | rfl | rfl
  iterate 10 exact hmethods _ _
  intro p hp
  simp only [couvTty, List.mem_cons, List.not_mem_nil, or_false] at hp
  rcases hp with rfl | rfl | rfl
  · exact .inr rfl
  · exact .inl rfl
  · exact .inr rfl

/-! The methods of couv.lua. -/

/-- The methods of the classes after an assignment of couv.lua. -/
def defineOwn (exported : List (String × String)) (own : String → String → FieldVal)
    (p : String × String × String) : String → String → FieldVal :=
  match exported.lookup p.1 with
  | some c => Function.update own c (Function.update (own c) p.2.1 (.lua p.1 p.2.2))
  | none => own

namespace LuaState
variable {s : LuaState} {st : LuaStack FieldVal} {native : ℕ} {names : List String}
  {sup : String → Option String} {own : String → String → FieldVal}
  {exported : List (String × String)}

theorem mem_of_lookup {k c : String} (h : exported.lookup k = some c) : (k, c) ∈ exported := by
  obtain ⟨l₁, l₂, rfl, -⟩ := List.lookup_eq_some_iff.mp h
  exact List.mem_append_right _ List.mem_cons_self

/-- The module has the metatables of its classes under their names. -/
theorem Opened.index_native (h : Opened st native names sup own exported s) {k c : String}
    (hk : exported.lookup k = some c) : ∃ t, c ∈ names ∧ s.registry c = .table t ∧
      ∀ fuel, 0 < fuel → s.index fuel (.table native) k = some (.obj (.table t)) := by
  obtain ⟨hc, hval⟩ := h.exported _ (mem_of_lookup hk)
  obtain ⟨t, ht, -, -⟩ := h.classes.made c hc
  refine ⟨t, hc, ht, ?_⟩
  intro fuel hfuel
  obtain ⟨n, rfl⟩ : ∃ n, fuel = n+1 := ⟨fuel-1, by omega⟩
  have ht' : s.objs.registry c = .table t := ht
  change s.rawget native k = .obj (s.objs.registry c) at hval
  rw [index, hval, ht', if_pos (by simp [FieldVal.nil])]

/-- Userdata may be made. -/
theorem Opened.withUserdata (h : Opened st native names sup own exported s) (u : ℕ → Option ℕ) :
    Opened st native names sup own exported { s with userdata := u } :=
  ⟨h.stack, h.live, h.classes.of_tables rfl rfl, ⟨h.fields.index, h.fields.field⟩, h.apart,
    h.exported⟩

theorem Opened.defineMethod (h : Opened st native names sup own exported s)
    {p : String × String × String} {c : String} (hc : exported.lookup p.1 = some c)
    (hname : p.2.1 ≠ "__index") :
    Opened st native names sup (defineOwn exported own p) exported (s.defineMethod native p) := by
  obtain ⟨t, hcn, ht, hindex⟩ := h.index_native hc
  have hrun : LuaState.defineMethod native s p = s.rawset t p.2.1 (.lua p.1 p.2.2) := by
    rw [LuaState.defineMethod, hindex 1 Nat.one_pos]
  obtain ⟨t', ht', hlive, -⟩ := h.classes.made c hcn
  obtain rfl := Obj.table.inj (ht.symm.trans ht')
  have hlive' : (s.tables.get t).isSome := by
    change ((s.tables.map LuaTable.classTable).get t).isSome at hlive
    rwa [Store.map_get, Option.isSome_map] at hlive
  -- one field of one class changes
  have hget (u : ℕ) (k : String) : (s.rawset t p.2.1 (.lua p.1 p.2.2)).rawget u k =
      if u = t ∧ k = p.2.1 then .lua p.1 p.2.2 else s.rawget u k :=
    fieldOf_modify hlive' _ _ u k
  have hobjs : (s.rawset t p.2.1 (.lua p.1 p.2.2)).objs = s.objs := by
    have hmap := Store.map_modify_of_eq s.tables LuaTable.classTable
      (g := fun c => { c with fields := Function.update c.fields p.2.1 (.lua p.1 p.2.2) })
      (fun x => by simp only [LuaTable.classTable, Function.update_of_ne hname.symm]) t
    simp only [objs, rawset, hmap]
  rw [hrun, defineOwn, hc]
  refine ⟨h.stack, ?_, hobjs ▸ h.classes, ⟨?_, ?_⟩, h.apart, ?_⟩
  · change ((s.tables.modify t _).get native).isSome
    rw [modify_live]
    exact h.live
  · intro d hd u hu
    rw [hget, if_neg (fun hh => hname hh.2.symm)]
    exact h.fields.index d hd u hu
  · intro d hd u hu k hk
    rw [hget]
    by_cases hdc : d = c
    · subst hdc
      obtain rfl := Obj.table.inj (ht.symm.trans hu)
      dsimp only
      rw [Function.update_self]
      by_cases hkn : k = p.2.1
      · rw [if_pos ⟨rfl, hkn⟩, hkn, Function.update_self]
      · rw [if_neg (fun hh => hkn hh.2), Function.update_of_ne hkn]
        exact h.fields.field d hd _ hu k hk
    · have hne : u ≠ t := fun he => hdc (h.classes.inj d hd c hcn (hu.trans (he ▸ ht.symm)))
      dsimp only
      rw [if_neg (fun hh => hne hh.1), Function.update_of_ne hdc]
      exact h.fields.field d hd u hu k hk
  · intro q hq
    obtain ⟨hmem, hval⟩ := h.exported q hq
    refine ⟨hmem, ?_⟩
    have hne : native ≠ t := fun he => h.apart c hcn (he ▸ ht)
    rw [hget, if_neg (fun hh => hne hh.1)]
    exact hval

theorem Opened.defineMethods {l : List (String × String × String)}
    (h : Opened st native names sup own exported s)
    (hl : ∀ p ∈ l, (exported.lookup p.1).isSome ∧ p.2.1 ≠ "__index") :
    Opened st native names sup (l.foldl (defineOwn exported) own) exported
      (l.foldl (LuaState.defineMethod native) s) := by
  induction l generalizing s own with
  | nil => exact h
  | cons p l ih =>
    obtain ⟨hsome, hname⟩ := hl p List.mem_cons_self
    obtain ⟨c, hc⟩ := Option.isSome_iff_exists.mp hsome
    exact ih (h.defineMethod hc hname) (fun q hq => hl q (List.mem_cons_of_mem _ hq))

end LuaState

theorem ownOf_cases (own : String → String → FieldVal) (cs : List ClassOpen) (d k : String) :
    ownOf own cs d k = own d k ∨ ∃ c ∈ cs, c.tname = d ∧ ownOf own cs d k = c.own k := by
  induction cs generalizing own with
  | nil => exact .inl rfl
  | cons c cs ih =>
    rcases ih (Function.update own c.tname c.own) with he | ⟨c', hc', hd, he⟩
    · change ownOf own (c :: cs) d k = _ at he
      by_cases hcd : d = c.tname
      · subst hcd
        rw [Function.update_self] at he
        exact .inr ⟨c, List.mem_cons_self, rfl, he⟩
      · rw [Function.update_of_ne hcd] at he
        exact .inl he
    · exact .inr ⟨c', List.mem_cons_of_mem _ hc', hd, he⟩

/-- What couv.lua makes of the methods. -/
theorem defineOwn_cases (exported : List (String × String)) (l : List (String × String × String))
    (own : String → String → FieldVal) (d k : String) :
    l.foldl (defineOwn exported) own d k = own d k ∨
      ∃ p ∈ l, p.2.1 = k ∧ exported.lookup p.1 = some d ∧
        l.foldl (defineOwn exported) own d k = .lua p.1 p.2.2 := by
  induction l generalizing own with
  | nil => exact .inl rfl
  | cons p l ih =>
    rcases ih (defineOwn exported own p) with he | ⟨q, hq, hk, hd, he⟩
    · rw [List.foldl_cons, he, defineOwn]
      cases hc : exported.lookup p.1 with
      | none => exact .inl rfl
      | some c =>
        dsimp only
        by_cases hdc : d = c
        · subst hdc
          rw [Function.update_self]
          by_cases hkn : k = p.2.1
          · subst hkn
            rw [Function.update_self]
            exact .inr ⟨p, List.mem_cons_self, rfl, hc, rfl⟩
          · rw [Function.update_of_ne hkn]
            exact .inl rfl
        · rw [Function.update_of_ne hdc]
          exact .inl rfl
    · exact .inr ⟨q, List.mem_cons_of_mem _ hq, hk, hd, he⟩

/-! The classes of couv. -/

def couvExports (env : NativeEnv) : List (String × String) :=
  (couvOpens env.const env.types).map (fun c => (c.mfield, c.tname))

/-- The methods of the classes in C. -/
def nativeOwn (env : NativeEnv) : String → String → FieldVal :=
  ownOf (fun _ _ => .nil) (couvOpens env.const env.types)

/-- Those with the methods of couv.lua over them. -/
def couvOwn (env : NativeEnv) : String → String → FieldVal :=
  luaMethods.foldl (defineOwn (couvExports env)) (nativeOwn env)

theorem nativeOwn_cases (env : NativeEnv) (d k : String) : nativeOwn env d k = .nil ∨
    ∃ f, nativeOwn env d k = .cfunction f ∧ (f.self = none ∨ f.self = some d) := by
  rcases ownOf_cases (fun _ _ => .nil) (couvOpens env.const env.types) d k with
    he | ⟨c, hc, rfl, he⟩
  · exact .inl he
  · rw [nativeOwn, he]
    rcases LuaState.mem_of_overlay (rfl : c.own k = c.own k) with hnil | hmem
    · exact .inl hnil.symm
    · obtain ⟨p, hp, hpk⟩ := List.mem_map.mp hmem
      refine .inr ⟨p.2, (congrArg Prod.snd hpk).symm, ?_⟩
      exact couvOpens_self env.const env.types c hc p hp

/-- Every method of couv.lua calls a method of C that it does not replace. -/
theorem luaMethods_target (env : NativeEnv) : ∀ p ∈ luaMethods, ∃ d f,
    (couvExports env).lookup p.1 = some d ∧ p.2.1 ≠ "__index" ∧ p.2.2 ≠ "__index" ∧
      p.2.2 ∉ luaMethods.map (fun q => q.2.1) ∧ nativeOwn env d p.2.2 = .cfunction f ∧
      f.self = some d := by
  intro p hp
  simp only [luaMethods, List.mem_cons, List.not_mem_nil, or_false] at hp
  rcases hp with rfl | rfl | rfl | rfl | rfl | rfl | rfl | rfl | rfl <;>
    exact ⟨_, _, rfl, by decide, by decide, by decide, rfl, rfl⟩

/-- A method is one of C, or one of couv.lua over one of C, which checks for the class or for
none. -/
theorem couvOwn_cases (env : NativeEnv) (d k : String) : couvOwn env d k = .nil ∨
    (∃ f, couvOwn env d k = .cfunction f ∧ (f.self = none ∨ f.self = some d)) ∨
    ∃ field method f, couvOwn env d k = .lua field method ∧
      (couvExports env).lookup field = some d ∧ method ≠ "__index" ∧
      couvOwn env d method = .cfunction f ∧ f.self = some d := by
  rcases defineOwn_cases (couvExports env) luaMethods (nativeOwn env) d k with
    he | ⟨p, hp, -, hd, he⟩
  · rcases nativeOwn_cases env d k with hnil | ⟨f, hf, hself⟩
    · exact .inl (he.trans hnil)
    · exact .inr (.inl ⟨f, he.trans hf, hself⟩)
  · obtain ⟨d', f, hd', -, hmethod, hnot, hf, hself⟩ := luaMethods_target env p hp
    obtain rfl := Option.some.inj (hd.symm.trans hd')
    refine .inr (.inr ⟨p.1, p.2.2, f, he, hd, hmethod, ?_, hself⟩)
    rcases defineOwn_cases (couvExports env) luaMethods (nativeOwn env) d p.2.2 with
      hkept | ⟨q, hq, hqk, -⟩
    · exact hkept.trans hf
    · exact absurd (List.mem_map.mpr ⟨q, hq, hqk⟩) hnot

/-- The names that the module registers metatables under. -/
def couvNames : List String := "couv.Buffer" :: "couv.fs.Stat" :: couvClasses.map Prod.fst

open LuaState

/-- The state after `require 'couv'`. -/
theorem couv_opened (env : NativeEnv) {s : LuaState} (hclosed : s.objs.Closed)
    (hnew : ∀ name ∈ couvNames, s.registry name = .nil) :
    ∃ native, (s.luaopenCouvNative env).stack = s.stack.push (.obj (.table native)) ∧
      Opened s.stack native (couvClasses.map Prod.fst) (superOf (fun _ => none) couvClasses)
        (couvOwn env) (couvExports env) ((s.luaopenCouvNative env).couvLua native) := by
  have hname {n : String} (hn : n ∈ couvNames) := hnew n hn
  obtain ⟨s', native, hrun, hst, hlive, hclosed', hreg⟩ :=
    luaopenCouvNative_start env hclosed (hname (by decide)) (hname (by decide))
  have hbase : Opened s.stack native [] (fun _ => none) (fun _ _ => .nil) [] s' :=
    ⟨hst, hlive, LuaObjs.classes_nil hclosed', ⟨fun c hc => absurd hc List.not_mem_nil,
      fun c hc => absurd hc List.not_mem_nil⟩, fun c hc => absurd hc List.not_mem_nil,
      fun p hp => absurd hp List.not_mem_nil⟩
  have hnil : ∀ c ∈ couvOpens env.const env.types, s'.registry c.tname = .nil := by
    intro c hc
    have hmem : c.tname ∈ couvClasses.map Prod.fst :=
      List.mem_map_of_mem (f := ClassOpen.tname) hc
    have hother : c.tname ∉ ["couv.loop", "couv.Buffer", "couv.fs.Stat"] := by
      have hall : ∀ n ∈ couvClasses.map Prod.fst,
          n ∉ ["couv.loop", "couv.Buffer", "couv.fs.Stat"] := by decide
      exact hall _ hmem
    rw [hreg _ hother]
    exact hname (List.mem_cons_of_mem _ (List.mem_cons_of_mem _ hmem))
  have hopened := hbase.openClasses hnil (couvOpens_nodup env.const env.types)
    (couvOpens_fits env.const env.types)
  rw [← hrun] at hopened
  refine ⟨native, hopened.stack, ?_⟩
  refine Opened.defineMethods hopened ?_
  intro p hp
  obtain ⟨d, f, hd, hne, -⟩ := luaMethods_target env p hp
  exact ⟨Option.isSome_iff_exists.mpr ⟨d, hd⟩, hne⟩

section
variable {names : List String} {sup : String → Option String}

theorem subclass_mem {o : LuaObjs} (h : o.Classes names sup) {c d : String} (hc : c ∈ names)
    (hd : Subclass sup c d) : d ∈ names := by
  induction hd with
  | refl => exact hc
  | tail _ hs _ => exact (h.order _ _ hs).2.1

/-- The check for a class lets the instances of the classes below pass. -/
theorem check_instance {o : LuaObjs} (h : o.Classes names sup) {c d : String} (hc : c ∈ names)
    (hd : Subclass sup c d) {v : ℕ} (hv : o.metatableOf (.userdata v) = o.classTable c)
    {st : LuaStack Obj} {arg : ℤ} (hst : st.get arg = some (.userdata v)) {fuel : ℕ}
    (hfuel : names.length ≤ fuel) :
    o.couvLCheckudataclass fuel st arg d = some (.ok (.userdata v, st)) := by
  obtain ⟨ts, hts, hlen⟩ := h.instance_chain hc hv
  have hmem := (h.mem_chain hts (subclass_mem h hc hd)).mpr ⟨c, hc, hv, hd⟩
  rw [LuaObjs.couvLCheckudataclass, LuaObjs.test_run hst rfl hts (hlen.trans hfuel), if_pos hmem]
  rfl

end

/-- Once couv is loaded into a Lua state that has none of its names, the module's table lies on
the stack. A userdata made later, of any class, finds under every name but `__index`, under which
each class has its own table, what the nearest class has there: nothing, a C function, or a
function of couv.lua; and called with the userdata the method comes to a C function that accepts
it. -/
theorem methods_accept (env : NativeEnv) {s : LuaState} (hclosed : s.objs.Closed)
    (hnew : ∀ name ∈ couvNames, s.registry name = .nil) :
    ∃ native, (s.luaopenCouvNative env).stack = s.stack.push (.obj (.table native)) ∧
      ∀ u : ℕ → Option ℕ,
        let t := { (s.luaopenCouvNative env).couvLua native with userdata := u }
        ∀ c ∈ couvClasses.map Prod.fst, ∀ v, u v = t.objs.classTable c → ∀ k, k ≠ "__index" →
          ∃ r, Inherits (superOf (fun _ => none) couvClasses) (couvOwn env) k c r ∧
            (∀ fuel > 11, t.index fuel (.userdata v) k = some r) ∧
            (r = .nil ∨ ∃ f, (∀ fuel > 11, t.callee fuel native r = some f) ∧
              ∀ tname ∈ f.self, ∀ st arg, ∀ fuel ≥ 11, st.get arg = some (.userdata v) →
                t.objs.couvLCheckudataclass fuel st arg tname = some (.ok (.userdata v, st))) := by
  obtain ⟨native, hst, hopened⟩ := couv_opened env hclosed hnew
  refine ⟨native, hst, ?_⟩
  intro u t c hc v hv k hk
  have ht : Opened s.stack native (couvClasses.map Prod.fst) (superOf (fun _ => none) couvClasses)
      (couvOwn env) (couvExports env) t := hopened.withUserdata u
  have hlen : (couvClasses.map Prod.fst).length = 11 := rfl
  obtain ⟨r, hr, hindex⟩ := index_instance ht.classes ht.fields hk hc hv
  refine ⟨r, hr, hindex, ?_⟩
  by_cases hnil : r = .nil
  · exact .inl hnil
  obtain ⟨d, hd, hown⟩ := hr.subclass hnil
  -- what the check for the class of the method, or for none, gives
  have haccept {f : CFunction} (hself : f.self = none ∨ f.self = some d) : ∀ tname ∈ f.self,
      ∀ st arg, ∀ fuel ≥ 11, st.get arg = some (.userdata v) →
        t.objs.couvLCheckudataclass fuel st arg tname = some (.ok (.userdata v, st)) := by
    intro tname htn st arg fuel hfuel hget
    rcases hself with hnone | hsome
    · rw [hnone] at htn
      cases htn
    · rw [hsome] at htn
      obtain rfl := Option.mem_some_iff.mp htn
      exact check_instance ht.classes hc hd hv hget (hlen ▸ hfuel)
  right
  rcases couvOwn_cases env d k with
    he | ⟨f, he, hself⟩ | ⟨field, method, f, he, hfield, hm, hf, hself⟩
  · exact absurd (hown.trans he) hnil
  · refine ⟨f, ?_, haccept hself⟩
    intro fuel _
    rw [hown, he]
    rfl
  · -- couv.lua goes through the module's table to the class and finds the method there
    refine ⟨f, ?_, haccept (.inr hself)⟩
    obtain ⟨a, hdn, ha, hnative⟩ := ht.index_native hfield
    obtain ⟨w, hw, hrun⟩ := index_class ht.classes ht.fields hm _ hdn rfl ha
    have hne : couvOwn env d method ≠ .nil := by
      rw [hf]
      exact FieldVal.noConfusion
    have hidx := List.idxOf_lt_length_iff.mpr hdn
    intro fuel hfuel
    rw [hown, he, callee, hnative fuel (by omega)]
    dsimp only
    rw [hrun fuel (by omega), hw.eq_own hne, hf]

/-- A Lua state without tables, and a module without further functions. -/
def bareState : LuaState := ⟨⟨[]⟩, .empty, fun _ => none, fun _ => none, fun _ => .nil⟩

def bareEnv : NativeEnv := ⟨fun _ => 0, ["TCP"], 0, [], [], [], []⟩

theorem methods_accept_bind : ∃ native, ∃ u : ℕ → Option ℕ,
    let t := { (bareState.luaopenCouvNative bareEnv).couvLua native with userdata := u }
    ∃ f : CFunction, f.name = "tcp_bind" ∧
      t.index 12 (.userdata 0) "bind" = some (.cfunction f) ∧
      t.objs.couvLCheckudataclass 11 ⟨[.userdata 0]⟩ 1 "couv.Tcp" =
        some (.ok (.userdata 0, ⟨[.userdata 0]⟩)) := by
  have hclosed : bareState.objs.Closed := ⟨fun t m h => (by cases h), fun n t h => (by cases h)⟩
  have hclass (t : LuaState) (u : ℕ → Option ℕ) :
      t.objs.classTable "couv.Tcp" = { t with userdata := u }.objs.classTable "couv.Tcp" := rfl
  obtain ⟨native, -, hall⟩ := methods_accept bareEnv hclosed (fun _ _ => rfl)
  let u : ℕ → Option ℕ := fun _ =>
    ((bareState.luaopenCouvNative bareEnv).couvLua native).objs.classTable "couv.Tcp"
  obtain ⟨r, hr, hindex, hfound⟩ := hall u "couv.Tcp" (by decide) 0 (hclass _ u) "bind"
    (by decide)
  have hown : couvOwn bareEnv "couv.Tcp" "bind" = .cfunction ⟨"tcp_bind", some "couv.Tcp"⟩ := rfl
  have hne : couvOwn bareEnv "couv.Tcp" "bind" ≠ .nil := by
    rw [hown]
    exact FieldVal.noConfusion
  obtain rfl := (hr.eq_own hne).trans hown
  rcases hfound with hnil | ⟨f, hf, haccept⟩
  · exact FieldVal.noConfusion hnil
  · obtain rfl : _ = f := Option.some.inj (hf 12 (by decide))
    exact ⟨native, u, _, rfl, hindex 12 (by decide),
      haccept "couv.Tcp" rfl ⟨[.userdata 0]⟩ 1 11 le_rfl rfl⟩

end Couv
