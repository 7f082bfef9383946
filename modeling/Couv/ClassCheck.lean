import Couv.LuaStack
import Couv.System
import Mathlib.Logic.Relation

/-! auxlib.c: metatables as classes, and the check that a userdata is of a class or of a class
below it. -/
namespace Couv

/-- A Lua value, as far as the class check tells them apart. -/
inductive Obj
  | nil
  | table (t : ℕ)
  | userdata (u : ℕ)
  | lightuserdata (p : ℕ)
  | other (k : ℕ)
  deriving DecidableEq, Repr

/-- A metatable: its own metatable, and its `__index`. -/
structure ClassTable where
  metatable : Option ℕ
  index : Obj

/-- The tables, the metatables of the userdata, those of the other types, and the registry. -/
structure LuaObjs where
  tables : Store ClassTable
  userdata : ℕ → Option ℕ
  types : Obj → Option ℕ
  registry : String → Obj

namespace LuaObjs
variable (o : LuaObjs)

/-- `lua_touserdata`; NULL is none. -/
def touserdata : Option Obj → Option Obj
  | some (.userdata u) => some (.userdata u)
  | some (.lightuserdata p) => if p = 0 then none else some (.lightuserdata p)
  | _ => none

/-- `lua_getmetatable` on a value -/
def metatableOf : Obj → Option ℕ
  | .table t => (o.tables.get t).bind (·.metatable)
  | .userdata u => o.userdata u
  | v => o.types v

def getmetatable (v : Option Obj) : Option ℕ := v.bind o.metatableOf

/-- `lua_setmetatable` on a table, with a table or nil -/
def setmetatable (v mt : Option Obj) : LuaObjs :=
  let mt := match mt with
    | some (.table s) => some s
    | _ => none
  match v with
  | some (.table t) =>
    { o with tables := o.tables.modify t (fun c => { c with metatable := mt }) }
  | _ => o

/-- `lua_setfield(.., "__index")` on a table -/
def setindex (v x : Option Obj) : LuaObjs :=
  match v with
  | some (.table t) =>
    { o with tables := o.tables.modify t (fun c => { c with index := x.getD .nil }) }
  | _ => o

def setregistry (name : String) (v : Obj) : LuaObjs :=
  { o with registry := fun n => if n = name then v else o.registry n }

/-- `luaL_newmetatable`: the table that is registered, or a new one. -/
def luaLNewmetatable (st : LuaStack Obj) (tname : String) : LuaObjs × LuaStack Obj :=
  if o.registry tname ≠ .nil then (o, st.push (o.registry tname))
  else
    let o' := { o with tables := o.tables.alloc ⟨none, .nil⟩ }
    (o'.setregistry tname (.table o.tables.next), st.push (.table o.tables.next))

def couvNewmetatable (st : LuaStack Obj) (tname : String) (superTname : Option String) :
    LuaObjs × LuaStack Obj :=
  let (o, st) := o.luaLNewmetatable st tname
  let st := st.push ((st.get (-1)).getD .nil)
  let o := o.setindex (st.get (-2)) (st.get (-1))
  let st := st.pop 1
  match superTname with
  | some name =>
    let st := st.push (o.registry name)
    (o.setmetatable (st.get (-2)) (st.get (-1)), st.pop 1)
  | none => (o, st)

/-- The loop of `couvL_testudataclass`: the metatable on the top gives way to its own one. -/
def testLoop (st : LuaStack Obj) : ℕ → Option (Bool × LuaStack Obj)
  | 0 => none
  | fuel+1 =>
    match o.getmetatable (st.get (-1)) with
    | none => some (false, st)
    | some t =>
      let st := (st.push (.table t)).remove (-2)
      if st.rawequal (-1) (-2) then some (true, st.pop 2) else testLoop st fuel

/-- None when the fuel is used up, and some none for NULL. -/
def couvLTestudataclass (fuel : ℕ) (st : LuaStack Obj) (arg : ℤ) (tname : String) :
    Option (Option Obj × LuaStack Obj) :=
  let arg := st.absindex arg
  match touserdata (st.get arg) with
  | none => some (none, st)
  | some p =>
    let st := st.push (o.registry tname)
    match o.getmetatable (st.get arg) with
    | none => some (none, st.pop 1)
    | some t =>
      let st := st.push (.table t)
      if st.rawequal (-1) (-2) then some (some p, st.pop 2)
      else
        match o.testLoop st fuel with
        | none => none
        | some (true, st) => some (some p, st)
        | some (false, st) => some (none, (st.pop 1).pop 1)

/-- `couvL_checkudataclass`, which luaL_error leaves without a message position here. -/
def couvLCheckudataclass (fuel : ℕ) (st : LuaStack Obj) (arg : ℤ) (tname : String) :
    Option (Except String (Obj × LuaStack Obj)) :=
  (o.couvLTestudataclass fuel st arg tname).map (fun r =>
    match r.1 with
    | some p => .ok (p, r.2)
    | none => .error s!"bad argument {arg} ({tname} expected)")

/-! The chain of metatables. -/

/-- The metatables of metatables from that of `v` on, up to a table without one. -/
inductive Chain : Obj → List ℕ → Prop
  | nil {v : Obj} (h : o.metatableOf v = none) : Chain v []
  | cons {v : Obj} {t : ℕ} {ts : List ℕ} (h : o.metatableOf v = some t) (ht : Chain (.table t) ts) :
    Chain v (t :: ts)

variable {o}

/-- The stack below the two metatables is as it was before, whether or not one is found. -/
theorem testLoop_run {t : ℕ} {ts : List ℕ} (h : o.Chain (.table t) ts) (st : LuaStack Obj)
    (r : Obj) : ∀ {fuel : ℕ}, ts.length < fuel →
      (r ∈ ts.map Obj.table ∧
        o.testLoop ((st.push r).push (.table t)) fuel = some (true, st)) ∨
      (r ∉ ts.map Obj.table ∧ ∃ s, o.testLoop ((st.push r).push (.table t)) fuel =
        some (false, (st.push r).push (.table s))) := by
  induction ts generalizing t with
  | nil =>
    intro fuel hfuel
    obtain ⟨n, rfl⟩ : ∃ n, fuel = n+1 := ⟨fuel-1, by simp at hfuel; omega⟩
    cases h with
    | nil h =>
      refine .inr ⟨List.not_mem_nil, t, ?_⟩
      simp only [testLoop, LuaStack.get_top, getmetatable, Option.bind_some, h]
  | cons s ts ih =>
    intro fuel hfuel
    obtain ⟨n, rfl⟩ : ∃ n, fuel = n+1 := ⟨fuel-1, by simp at hfuel; omega⟩
    cases h with
    | cons h hs =>
      simp only [testLoop, LuaStack.get_top, getmetatable, Option.bind_some, h,
        LuaStack.remove_second, LuaStack.rawequal_top]
      -- one turn of the loop: `s` has taken the place of `t`, above `r`
      by_cases hr : Obj.table s = r
      · subst hr
        refine .inl ⟨List.mem_map_of_mem List.mem_cons_self, ?_⟩
        simp only [decide_true, if_true, LuaStack.pop_push, LuaStack.pop_zero]
      · rw [if_neg (by simpa using hr)]
        have hn : ts.length < n := by
          rw [List.length_cons] at hfuel
          omega
        rcases ih hs hn with ⟨hmem, hrun⟩ | ⟨hmem, hrun⟩
        · exact .inl ⟨List.mem_cons_of_mem _ hmem, hrun⟩
        · refine .inr ⟨?_, hrun⟩
          rw [List.map_cons, List.mem_cons, not_or]
          exact ⟨Ne.symm hr, hmem⟩

theorem get_valid {V : Type*} {st : LuaStack V} {arg : ℤ} {v : V} (h : st.get arg = some v) :
    st.Valid arg := by
  by_contra hno
  rw [LuaStack.get_of_not_valid hno] at h
  cases h

/-- The check finds the registered metatable in the chain, and leaves the stack as it was. -/
theorem test_run {st : LuaStack Obj} {arg : ℤ} {v p : Obj} {ts : List ℕ} {fuel : ℕ}
    (hv : st.get arg = some v) (hp : touserdata (some v) = some p) (hc : o.Chain v ts)
    (hfuel : ts.length ≤ fuel) (tname : String) : o.couvLTestudataclass fuel st arg tname =
      some (if o.registry tname ∈ ts.map Obj.table then some p else none, st) := by
  have hvalid := get_valid hv
  obtain ⟨h0, hi⟩ := hvalid.absindex
  have habs := hvalid.get_absindex.trans hv
  -- the index is absolute, so it still finds the value below what is pushed
  have hpush := (LuaStack.get_push h0 hi (o.registry tname)).trans habs
  simp only [couvLTestudataclass, habs, hp, hpush, getmetatable, Option.bind_some]
  cases hc with
  | nil h =>
    simp only [h, List.map_nil, List.not_mem_nil, if_false]
    rfl
  | @cons _ t ts h ht =>
    simp only [h, LuaStack.rawequal_top]
    by_cases heq : Obj.table t = o.registry tname
    · simp only [heq, decide_true, if_true, List.map_cons, List.mem_cons, true_or,
        LuaStack.pop_push, LuaStack.pop_zero]
    · have hmem : o.registry tname ∈ (t :: ts).map Obj.table ↔
          o.registry tname ∈ ts.map Obj.table := by
        rw [List.map_cons, List.mem_cons, or_iff_right (Ne.symm heq)]
      simp only [heq, decide_false, Bool.false_eq_true, if_false, hmem]
      have hlt : ts.length < fuel := hfuel
      rcases testLoop_run ht st (o.registry tname) hlt with
        ⟨hin, hrun⟩ | ⟨hin, s, hrun⟩
      · rw [hrun, if_pos hin]
      · rw [hrun, if_neg hin]
        rfl

/-- What is no userdata is of no class. -/
theorem test_other {st : LuaStack Obj} {arg : ℤ} (hv : touserdata (st.get arg) = none)
    (harg : 0 < arg ∨ st.Valid arg) (fuel : ℕ) (tname : String) :
    o.couvLTestudataclass fuel st arg tname = some (none, st) := by
  have habs : st.get (st.absindex arg) = st.get arg := by
    rcases harg with h | h
    · rw [LuaStack.absindex, if_neg (by omega)]
    · exact h.get_absindex
  simp only [couvLTestudataclass, habs, hv]

/-! Hierarchies. -/

/-- The metatable registered for a class. -/
def classTable (o : LuaObjs) (name : String) : Option ℕ :=
  match o.registry name with
  | .table t => some t
  | _ => none

theorem classTable_eq_some {name : String} {t : ℕ} :
    o.classTable name = some t ↔ o.registry name = .table t := by
  unfold classTable
  cases o.registry name <;> simp

/-- Only tables that exist are metatables or registered. -/
structure Closed (o : LuaObjs) : Prop where
  metatable : ∀ t s, o.metatableOf (.table t) = some s → s < o.tables.next
  registry : ∀ name t, o.registry name = .table t → t < o.tables.next

theorem setindex_metatableOf (t : ℕ) (x : Option Obj) (u : ℕ) :
    (o.setindex (some (.table t)) x).metatableOf (.table u) = o.metatableOf (.table u) := by
  simp only [setindex, metatableOf, Store.modify_get]
  split
  · next h =>
    subst h
    cases o.tables.get u <;> rfl
  · rfl

theorem setmetatable_metatableOf {t : ℕ} (ht : (o.tables.get t).isSome) (name : String) (u : ℕ) :
    (o.setmetatable (some (.table t)) (some (o.registry name))).metatableOf (.table u) =
      if u = t then o.classTable name else o.metatableOf (.table u) := by
  obtain ⟨c, hc⟩ := Option.isSome_iff_exists.mp ht
  simp only [setmetatable, metatableOf, Store.modify_get]
  split
  · simp only [hc, Option.map_some, Option.bind_some, classTable]
    cases o.registry name <;> rfl
  · rfl

/-- What couv_newmetatable does to the metatables, once its table is there. -/
theorem newmetatable_spec {o₁ : LuaObjs} {st : LuaStack Obj} {name : String} {t : ℕ}
    (h : o.luaLNewmetatable st name = (o₁, st.push (.table t))) (ht : (o₁.tables.get t).isSome)
    (super : Option String) : ∃ o', o.couvNewmetatable st name super = (o', st.push (.table t)) ∧
      o'.registry = o₁.registry ∧ o'.tables.next = o₁.tables.next ∧
      (∀ u, (o'.tables.get u).isSome = (o₁.tables.get u).isSome) ∧
      ∀ u, o'.metatableOf (.table u) =
        if u = t ∧ super.isSome then super.bind o₁.classTable else o₁.metatableOf (.table u) := by
  -- the stores into a metatable add and remove none
  have hmod (tables : Store ClassTable) (f : ClassTable → ClassTable) (u : ℕ) :
      ((tables.modify t f).get u).isSome = (tables.get u).isSome := by
    rw [Store.modify_get]
    split
    · next h => rw [Option.isSome_map, h]
    · rfl
  simp only [couvNewmetatable, h, LuaStack.get_top, LuaStack.get_second, Option.getD_some,
    LuaStack.pop_push, LuaStack.pop_zero]
  cases super with
  | none =>
    refine ⟨_, rfl, rfl, rfl, hmod _ _, ?_⟩
    intro u
    rw [if_neg (by simp)]
    exact setindex_metatableOf t _ u
  | some s =>
    refine ⟨_, rfl, rfl, rfl, fun u => (hmod _ _ u).trans (hmod _ _ u), ?_⟩
    intro u
    rw [setmetatable_metatableOf (by rw [setindex, hmod]; exact ht), setindex_metatableOf]
    simp only [Option.isSome_some, and_true, Option.bind_some]
    rfl

end LuaObjs

/-- A call of couv_newmetatable: the name of a class, and of the class above it. -/
abbrev ClassCall := String × Option String

namespace ClassCall

/-- The classes in the order of their first registration. -/
def register (names : List String) (c : ClassCall) : List String :=
  if c.1 ∈ names then names else names ++ [c.1]

/-- Without a superclass the call leaves the one that was set. -/
def setSuper (sup : String → Option String) (c : ClassCall) : String → Option String :=
  fun n => if n = c.1 ∧ c.2.isSome then c.2 else sup n

/-- The superclass is registered, and before the class itself. -/
def Ordered (names : List String) (c : ClassCall) : Prop :=
  ∀ s ∈ c.2, s ∈ names ∧ (c.1 ∈ names → names.idxOf s < names.idxOf c.1)

end ClassCall

/-- Every call of the list finds its superclass. -/
def OrderedCalls (names : List String) : List ClassCall → Prop
  | [] => True
  | c :: calls => c.Ordered names ∧ OrderedCalls (c.register names) calls

def namesOf (names : List String) (calls : List ClassCall) : List String :=
  calls.foldl ClassCall.register names

def superOf (sup : String → Option String) (calls : List ClassCall) : String → Option String :=
  calls.foldl ClassCall.setSuper sup

/-- `d` is the class `c` or a class above it. -/
def Subclass (sup : String → Option String) : String → String → Prop :=
  Relation.ReflTransGen (fun c d => sup c = some d)

namespace LuaObjs

/-- The calls one after the other, each with the stack as it is then. -/
def newmetatables (st : LuaStack Obj) (o : LuaObjs) (calls : List ClassCall) : LuaObjs :=
  calls.foldl (fun o c => (o.couvNewmetatable st c.1 c.2).1) o

/-- The metatables of the classes `names` are those of the hierarchy `sup`. -/
structure Classes (names : List String) (sup : String → Option String) (o : LuaObjs) : Prop where
  closed : o.Closed
  made : ∀ n ∈ names, ∃ t, o.registry n = .table t ∧ (o.tables.get t).isSome ∧
    o.metatableOf (.table t) = (sup n).bind o.classTable
  inj : ∀ n ∈ names, ∀ n' ∈ names, o.registry n = o.registry n' → n = n'
  order : ∀ n s, sup n = some s → n ∈ names ∧ s ∈ names ∧ names.idxOf s < names.idxOf n
  foreign : ∀ t s, (∀ n ∈ names, o.registry n ≠ .table t) → o.metatableOf (.table t) = some s →
    ∀ n ∈ names, o.registry n ≠ .table s

variable {names : List String} {sup : String → Option String} {o : LuaObjs}

theorem Classes.sup_none (h : o.Classes names sup) {n : String} (hn : n ∉ names) :
    sup n = none := by
  cases hs : sup n with
  | none => rfl
  | some s => exact absurd (h.order n s hs).1 hn

/-- A new table without a metatable, registered under the name. -/
def addClass (o : LuaObjs) (name : String) : LuaObjs :=
  { o with
    tables := o.tables.alloc ⟨none, .nil⟩
    registry := fun n => if n = name then .table o.tables.next else o.registry n }

section
variable (o) (name : String)

theorem addClass_registry_self : (o.addClass name).registry name = .table o.tables.next :=
  if_pos rfl

theorem addClass_registry {n : String} (hn : n ≠ name) :
    (o.addClass name).registry n = o.registry n :=
  if_neg hn

theorem addClass_metatableOf (u : ℕ) : (o.addClass name).metatableOf (.table u) =
    if u = o.tables.next then none else o.metatableOf (.table u) := by
  simp only [metatableOf, addClass, Store.alloc_get]
  split <;> rfl

end

theorem Closed.addClass (h : o.Closed) (name : String) : (o.addClass name).Closed where
  metatable t s hs := by
    rw [addClass_metatableOf] at hs
    split at hs
    · cases hs
    · exact (h.metatable t s hs).trans (Nat.lt_succ_self _)
  registry n t ht := by
    by_cases hn : n = name
    · subst hn
      obtain rfl := Obj.table.inj ((addClass_registry_self o n).symm.trans ht)
      exact Nat.lt_succ_self _
    · rw [addClass_registry o name hn] at ht
      exact (h.registry n t ht).trans (Nat.lt_succ_self _)

/-- Nothing refers to the new table, so the other classes stay as they were. -/
theorem Classes.addClass (h : o.Classes names sup) {name : String} (hname : name ∉ names) :
    (o.addClass name).Classes (names ++ [name]) sup := by
  have hne {n : String} (hn : n ∈ names) : n ≠ name := fun he => hname (he ▸ hn)
  have hold {n : String} (hn : n ∈ names) : (o.addClass name).registry n = o.registry n :=
    addClass_registry o name (hne hn)
  have hself := addClass_registry_self o name
  have hmeta := addClass_metatableOf o name
  -- no class has the new table yet
  have hfresh {n : String} (hn : n ∈ names) : o.registry n ≠ .table o.tables.next :=
    fun he => (h.closed.registry n _ he).false
  refine ⟨h.closed.addClass name, ?_, ?_, ?_, ?_⟩
  · intro n hn
    rcases List.mem_append.mp hn with hn | hn
    · obtain ⟨t, ht, hlive, hmt⟩ := h.made n hn
      have hnext : t ≠ o.tables.next := (h.closed.registry n t ht).ne
      refine ⟨t, (hold hn).trans ht, ?_, ?_⟩
      · change ((o.tables.alloc _).get t).isSome
        rwa [Store.alloc_get, if_neg hnext]
      · rw [hmeta, if_neg hnext, hmt]
        cases hs : sup n with
        | none => rfl
        | some s =>
          change o.classTable s = (o.addClass name).classTable s
          rw [classTable, classTable, hold (h.order n s hs).2.1]
    · obtain rfl := List.mem_singleton.mp hn
      refine ⟨o.tables.next, hself, ?_, ?_⟩
      · change ((o.tables.alloc _).get o.tables.next).isSome
        rw [Store.alloc_get_self]
        rfl
      · rw [hmeta, if_pos rfl, h.sup_none hname]
        rfl
  · intro n hn n' hn' he
    rcases List.mem_append.mp hn with hn | hn <;> rcases List.mem_append.mp hn' with hn' | hn'
    · rw [hold hn, hold hn'] at he
      exact h.inj n hn n' hn' he
    · rw [List.mem_singleton.mp hn', hold hn, hself] at he
      exact absurd he (hfresh hn)
    · rw [List.mem_singleton.mp hn, hold hn', hself] at he
      exact absurd he.symm (hfresh hn')
    · rw [List.mem_singleton.mp hn, List.mem_singleton.mp hn']
  · intro n s hs
    obtain ⟨hn, hs', hlt⟩ := h.order n s hs
    refine ⟨List.mem_append_left _ hn, List.mem_append_left _ hs', ?_⟩
    rwa [List.idxOf_append_of_mem hn, List.idxOf_append_of_mem hs']
  · intro t s ht hs n hn
    rw [hmeta] at hs
    split at hs
    · cases hs
    have ht' : ∀ m ∈ names, o.registry m ≠ .table t := fun m hm =>
      hold hm ▸ ht m (List.mem_append_left _ hm)
    rcases List.mem_append.mp hn with hn | hn
    · rw [hold hn]
      exact h.foreign t s ht' hs n hn
    · obtain rfl := List.mem_singleton.mp hn
      rw [hself]
      intro he
      exact (h.closed.metatable t s hs).ne (Obj.table.inj he).symm

/-- luaL_newmetatable adds a class at the end, or finds the one that is there. -/
theorem Classes.luaLNewmetatable (h : o.Classes names sup) {c : ClassCall}
    (hnew : c.1 ∉ names → o.registry c.1 = .nil) (st : LuaStack Obj) :
    ∃ o₁ t, o.luaLNewmetatable st c.1 = (o₁, st.push (.table t)) ∧
      o₁.registry c.1 = .table t ∧ o₁.Classes (c.register names) sup ∧
      ∀ n, n ≠ c.1 → o₁.registry n = o.registry n := by
  by_cases hc : c.1 ∈ names
  · obtain ⟨t, hreg, -, -⟩ := h.made c.1 hc
    refine ⟨o, t, ?_, hreg, ?_, fun n _ => rfl⟩
    · rw [LuaObjs.luaLNewmetatable, hreg, if_pos (by simp)]
    · rwa [ClassCall.register, if_pos hc]
  · refine ⟨o.addClass c.1, o.tables.next, ?_, addClass_registry_self o c.1, ?_,
      fun n hn => addClass_registry o c.1 hn⟩
    · rw [LuaObjs.luaLNewmetatable, hnew hc, if_neg (by simp)]
      rfl
    · rw [ClassCall.register, if_neg hc]
      exact h.addClass hc

/-- Setting the metatable of a class that is there. -/
theorem Classes.setSuper (h : o.Classes names sup) {c : ClassCall} {t : ℕ} {o' : LuaObjs}
    (hc : c.1 ∈ names) (hreg : o.registry c.1 = .table t)
    (hord : ∀ s ∈ c.2, s ∈ names ∧ names.idxOf s < names.idxOf c.1)
    (hreg' : o'.registry = o.registry) (hnext : o'.tables.next = o.tables.next)
    (hlive : ∀ u, (o'.tables.get u).isSome = (o.tables.get u).isSome)
    (hmeta : ∀ u, o'.metatableOf (.table u) =
      if u = t ∧ c.2.isSome then c.2.bind o.classTable else o.metatableOf (.table u)) :
    o'.Classes names (c.setSuper sup) := by
  have hclass : o'.classTable = o.classTable := by
    funext n
    rw [classTable, classTable, hreg']
  refine ⟨⟨?_, ?_⟩, ?_, ?_, ?_, ?_⟩
  · intro u s hs
    rw [hmeta] at hs
    rw [hnext]
    split at hs
    · obtain ⟨name, -, hname⟩ := Option.bind_eq_some_iff.mp hs
      exact h.closed.registry name s (classTable_eq_some.mp hname)
    · exact h.closed.metatable u s hs
  · intro n u hu
    rw [hnext]
    exact h.closed.registry n u (hreg' ▸ hu)
  · intro n hn
    obtain ⟨u, hu, hul, hmt⟩ := h.made n hn
    refine ⟨u, hreg' ▸ hu, (hlive u).trans hul, ?_⟩
    -- the table is that of the call exactly when the class is
    have hiff : u = t ↔ n = c.1 := by
      constructor
      · rintro rfl
        exact h.inj n hn c.1 hc (hu.trans hreg.symm)
      · rintro rfl
        exact Obj.table.inj (hu.symm.trans hreg)
    rw [hmeta, hclass, ClassCall.setSuper]
    simp only [hiff]
    split
    · rfl
    · exact hmt
  · rw [hreg']
    exact h.inj
  · intro n s hs
    rw [ClassCall.setSuper] at hs
    split at hs
    · next hn =>
      obtain ⟨hs', hlt⟩ := hord s hs
      rw [hn.1]
      exact ⟨hc, hs', hlt⟩
    · exact h.order n s hs
  · intro u s hu hs n hn
    rw [hreg'] at hu ⊢
    have hne : u ≠ t := fun he => hu c.1 hc (he ▸ hreg)
    rw [hmeta, if_neg (fun hh => hne hh.1)] at hs
    exact h.foreign u s hu hs n hn

theorem Classes.step (h : o.Classes names sup) {c : ClassCall}
    (hnew : c.1 ∉ names → o.registry c.1 = .nil) (hord : c.Ordered names) (st : LuaStack Obj) :
    (o.couvNewmetatable st c.1 c.2).1.Classes (c.register names) (c.setSuper sup) ∧
      ∀ n, n ≠ c.1 → (o.couvNewmetatable st c.1 c.2).1.registry n = o.registry n := by
  obtain ⟨o₁, t, hrun, hreg, h₁, hother⟩ := h.luaLNewmetatable hnew st
  have hmem : c.1 ∈ c.register names := by
    unfold ClassCall.register
    split
    · assumption
    · exact List.mem_append_right _ (List.mem_singleton_self _)
  obtain ⟨t', ht', hlive, -⟩ := h₁.made c.1 hmem
  obtain rfl := Obj.table.inj (hreg.symm.trans ht')
  obtain ⟨o', hcall, hreg', hnext, hlive', hmeta⟩ := newmetatable_spec hrun hlive c.2
  rw [hcall]
  refine ⟨h₁.setSuper hmem hreg ?_ hreg' hnext hlive' hmeta, ?_⟩
  · intro s hs
    obtain ⟨hs', hlt⟩ := hord s hs
    unfold ClassCall.register
    split
    · next hc => exact ⟨hs', hlt hc⟩
    · next hc =>
      refine ⟨List.mem_append_left _ hs', ?_⟩
      rw [List.idxOf_append_of_mem hs', List.idxOf_append_of_notMem hc]
      have := List.idxOf_lt_length_iff.mpr hs'
      omega
  · intro n hn
    change o'.registry n = _
    rw [hreg', hother n hn]

/-- The hierarchy after any sequence of calls. -/
theorem Classes.run (st : LuaStack Obj) (calls : List ClassCall) :
    ∀ {names : List String} {sup : String → Option String} {o : LuaObjs}, o.Classes names sup →
      (∀ c ∈ calls, c.1 ∉ names → o.registry c.1 = .nil) → OrderedCalls names calls →
        (newmetatables st o calls).Classes (namesOf names calls) (superOf sup calls) := by
  induction calls with
  | nil => exact fun h _ _ => h
  | cons c calls ih =>
    intro names sup o h hnew hord
    obtain ⟨h', hother⟩ := h.step (hnew c List.mem_cons_self) hord.1 st
    refine ih h' ?_ hord.2
    intro d hd hdn
    -- a class that is still not there is not the one of this call
    have hsub : d.1 ≠ c.1 ∧ d.1 ∉ names := by
      unfold ClassCall.register at hdn
      split at hdn
      · next hc => exact ⟨fun he => hdn (he ▸ hc), hdn⟩
      · rw [List.mem_append, List.mem_singleton, not_or] at hdn
        exact ⟨hdn.2, hdn.1⟩
    rw [hother d.1 hsub.1]
    exact hnew d (List.mem_cons_of_mem _ hd) hsub.2

theorem classes_nil (h : o.Closed) : o.Classes [] (fun _ => none) where
  closed := h
  made n hn := absurd hn List.not_mem_nil
  inj n hn := absurd hn List.not_mem_nil
  order n s hs := by cases hs
  foreign t s _ _ n hn := absurd hn List.not_mem_nil

/-- Userdata and the metatables of other types do not matter. -/
theorem Classes.of_tables {o' : LuaObjs} (h : o.Classes names sup) (ht : o'.tables = o.tables)
    (hr : o'.registry = o.registry) : o'.Classes names sup := by
  obtain ⟨tables, userdata, types, registry⟩ := o
  obtain ⟨tables', userdata', types', registry'⟩ := o'
  obtain rfl : tables' = tables := ht
  obtain rfl : registry' = registry := hr
  exact ⟨⟨h.closed.metatable, h.closed.registry⟩, h.made, h.inj, h.order, h.foreign⟩

theorem Chain.unique {v : Obj} {ts us : List ℕ} (h : o.Chain v ts) (h' : o.Chain v us) :
    ts = us := by
  induction h generalizing us with
  | nil h =>
    cases h' with
    | nil _ => rfl
    | cons h' _ => cases h.symm.trans h'
  | cons h _ ih =>
    cases h' with
    | nil h' => cases h.symm.trans h'
    | cons h' ht' =>
      obtain rfl := Option.some.inj (h.symm.trans h')
      rw [ih ht']

/-- From the table of a class the chain goes through the classes above it. -/
theorem Classes.chain (h : o.Classes names sup) (k : ℕ) : ∀ {n : String} {t : ℕ}, n ∈ names →
    names.idxOf n = k → o.registry n = .table t → ∃ ts, o.Chain (.table t) ts ∧ ts.length ≤ k ∧
      ∀ d ∈ names, ∀ s, o.registry d = .table s → (s ∈ t :: ts ↔ Subclass sup n d) := by
  -- by the place of the class in the list: the class above it is further in front
  induction k using Nat.strong_induction_on with
  | _ k ih =>
    intro n t hn hk ht
    obtain ⟨t', ht', -, hmt⟩ := h.made n hn
    obtain rfl := Obj.table.inj (ht.symm.trans ht')
    have hself {d : String} {s : ℕ} (hd : d ∈ names) (hs : o.registry d = .table s) :
        s = t ↔ d = n := by
      constructor
      · rintro rfl
        exact h.inj d hd n hn (hs.trans ht.symm)
      · rintro rfl
        exact Obj.table.inj (hs.symm.trans ht)
    cases hsup : sup n with
    | none =>
      rw [hsup] at hmt
      refine ⟨[], .nil hmt, Nat.zero_le _, ?_⟩
      intro d hd s hs
      rw [List.mem_singleton, hself hd hs, Subclass, Relation.ReflTransGen.cases_head_iff]
      constructor
      · exact fun he => .inl he.symm
      · rintro (he | ⟨m, hm, -⟩)
        · exact he.symm
        · cases hsup.symm.trans hm
    | some m =>
      obtain ⟨-, hm, hlt⟩ := h.order n m hsup
      obtain ⟨u, hu, -, -⟩ := h.made m hm
      obtain ⟨ts, hchain, hlen, hmem⟩ := ih _ (hk ▸ hlt) hm rfl hu
      rw [hsup, Option.bind_some, classTable_eq_some.mpr hu] at hmt
      refine ⟨u :: ts, .cons hmt hchain, ?_, ?_⟩
      · rw [List.length_cons]
        omega
      · intro d hd s hs
        rw [List.mem_cons, hself hd hs, hmem d hd s hs, Subclass,
          Relation.ReflTransGen.cases_head_iff (a := n)]
        constructor
        · rintro (he | hsub)
          · exact .inl he.symm
          · exact .inr ⟨m, hsup, hsub⟩
        · rintro (he | ⟨m', hm', hsub⟩)
          · exact .inl he.symm
          · obtain rfl := Option.some.inj (hsup.symm.trans hm')
            exact .inr hsub

/-- From a table that is of no class the chain meets no class. -/
theorem Classes.chain_foreign (h : o.Classes names sup) {v : Obj} {ts : List ℕ}
    (hc : o.Chain v ts) : ∀ {t : ℕ}, v = .table t → (∀ n ∈ names, o.registry n ≠ .table t) →
      ∀ n ∈ names, ∀ s ∈ t :: ts, o.registry n ≠ .table s := by
  induction hc with
  | nil _ =>
    rintro t - ht n hn s hs
    rw [List.mem_singleton.mp hs]
    exact ht n hn
  | cons hmt _ ih =>
    rintro t rfl ht n hn s hs
    rcases List.mem_cons.mp hs with rfl | hs
    · exact ht n hn
    · exact ih rfl (h.foreign t _ ht hmt) n hn s hs

/-- A registered metatable is in the chain of the instances of its class and of those below. -/
theorem Classes.mem_chain (h : o.Classes names sup) {v : Obj} {ts : List ℕ} (hc : o.Chain v ts)
    {tname : String} (htn : tname ∈ names) : o.registry tname ∈ ts.map Obj.table ↔
      ∃ c ∈ names, o.metatableOf v = o.classTable c ∧ Subclass sup c tname := by
  obtain ⟨s, hs, -, -⟩ := h.made tname htn
  have hmap (us : List ℕ) : o.registry tname ∈ us.map Obj.table ↔ s ∈ us := by
    rw [hs, List.mem_map_of_injective (fun a b hab => Obj.table.inj hab)]
  rw [hmap]
  cases hc with
  | nil hmt =>
    refine iff_of_false List.not_mem_nil ?_
    rintro ⟨c, hcn, hcv, -⟩
    obtain ⟨u, hu, -, -⟩ := h.made c hcn
    cases (hmt.symm.trans hcv).trans (classTable_eq_some.mpr hu)
  | @cons _ t ts hmt hts =>
    -- a metatable that is of no class leads to none: the classes are not above it
    by_cases hclass : ∃ c ∈ names, o.registry c = .table t
    · obtain ⟨c, hcn, hct⟩ := hclass
      obtain ⟨us, hchain, -, hmem⟩ := h.chain _ hcn rfl hct
      obtain rfl := hchain.unique hts
      rw [hmem tname htn s hs]
      constructor
      · exact fun hsub => ⟨c, hcn, hmt.trans (classTable_eq_some.mpr hct).symm, hsub⟩
      · rintro ⟨c', hcn', hcv', hsub⟩
        have hct' := classTable_eq_some.mp (hcv'.symm.trans hmt)
        rwa [h.inj c hcn c' hcn' (hct.trans hct'.symm)]
    · have hno : ∀ n ∈ names, o.registry n ≠ .table t := fun n hn he => hclass ⟨n, hn, he⟩
      refine iff_of_false (fun hmem => h.chain_foreign hts rfl hno tname htn s hmem hs) ?_
      rintro ⟨c, hcn, hcv, -⟩
      exact hno c hcn (classTable_eq_some.mp (hcv.symm.trans hmt))

/-- `o` has the tables and the registry that the calls leave, from a state in which no class of
theirs was registered; userdata may have been made since. -/
def AfterCalls (calls : List ClassCall) (o : LuaObjs) : Prop :=
  ∃ st₀ o₀, o₀.Closed ∧ (∀ c ∈ calls, o₀.registry c.1 = .nil) ∧
    o.tables = (newmetatables st₀ o₀ calls).tables ∧
    o.registry = (newmetatables st₀ o₀ calls).registry

theorem AfterCalls.classes {calls : List ClassCall} (h : o.AfterCalls calls)
    (hord : OrderedCalls [] calls) :
    o.Classes (namesOf [] calls) (superOf (fun _ => none) calls) := by
  obtain ⟨st₀, o₀, hclosed, hnew, ht, hr⟩ := h
  exact ((classes_nil hclosed).run st₀ calls (fun c hc _ => hnew c hc) hord).of_tables ht hr

/-- The chain of an instance is finite. -/
theorem Classes.instance_chain (h : o.Classes names sup) {v : Obj} {c : String} (hc : c ∈ names)
    (hv : o.metatableOf v = o.classTable c) : ∃ ts, o.Chain v ts ∧ ts.length ≤ names.length := by
  obtain ⟨t, ht, -, -⟩ := h.made c hc
  obtain ⟨ts, hchain, hlen, -⟩ := h.chain _ hc rfl ht
  refine ⟨t :: ts, .cons (hv.trans (classTable_eq_some.mpr ht)) hchain, ?_⟩
  have hidx := List.idxOf_lt_length_iff.mpr hc
  rw [List.length_cons]
  omega

end LuaObjs

open LuaObjs in
/-- The test ends, gives the userdata exactly when the registered metatable is in its chain, and
leaves the stack as it was; so a check accepts the instances of its class and of those below. -/
theorem class_check (o : LuaObjs) (st : LuaStack Obj) (arg : ℤ) (tname : String) :
    (∀ v p ts fuel, st.get arg = some v → touserdata (some v) = some p → o.Chain v ts →
      ts.length ≤ fuel → o.couvLTestudataclass fuel st arg tname =
        some (if o.registry tname ∈ ts.map Obj.table then some p else none, st)) ∧
    (0 < arg ∨ st.Valid arg → touserdata (st.get arg) = none →
      ∀ fuel, o.couvLTestudataclass fuel st arg tname = some (none, st)) ∧
    ∀ calls, OrderedCalls [] calls → o.AfterCalls calls → tname ∈ namesOf [] calls →
      ∀ v p, st.get arg = some v → touserdata (some v) = some p →
        ((∃ c ∈ namesOf [] calls, o.metatableOf v = o.classTable c) →
          ∃ ts, o.Chain v ts ∧ ts.length ≤ (namesOf [] calls).length) ∧
        ∀ ts fuel, o.Chain v ts → ts.length ≤ fuel →
          (o.couvLCheckudataclass fuel st arg tname = some (.ok (p, st)) ↔
            ∃ c ∈ namesOf [] calls, o.metatableOf v = o.classTable c ∧
              Subclass (superOf (fun _ => none) calls) c tname) := by
  refine ⟨fun v p ts fuel hv hp hc hfuel => test_run hv hp hc hfuel tname,
    fun harg hv fuel => test_other hv harg fuel tname, ?_⟩
  intro calls hord hafter htn v p hv hp
  -- the tables are as the calls of couv_newmetatable have left them
  have hclasses := hafter.classes hord
  refine ⟨fun ⟨c, hcn, hcv⟩ => hclasses.instance_chain hcn hcv, ?_⟩
  intro ts fuel hc hfuel
  rw [← hclasses.mem_chain hc htn, couvLCheckudataclass, test_run hv hp hc hfuel tname]
  split
  · next hmem => exact iff_of_true rfl hmem
  · next hmem => exact iff_of_false (fun he => by cases he) hmem

/-! The classes of couv. -/

/-- The calls of couv_newmetatable in the order of luaopen_couv_native. -/
def couvClasses : List ClassCall :=
  [("couv.SockAddr", none),
    ("couv.SockAddrV4", some "couv.SockAddr"),
    ("couv.SockAddrV6", some "couv.SockAddr"),
    ("couv.Handle", none),
    ("couv.Process", some "couv.Handle"),
    ("couv.Timer", some "couv.Handle"),
    ("couv.Udp", some "couv.Handle"),
    ("couv.Stream", some "couv.Handle"),
    ("couv.Pipe", some "couv.Stream"),
    ("couv.Tcp", some "couv.Stream"),
    ("couv.Tty", some "couv.Stream")]

theorem couvClasses_ordered : OrderedCalls [] couvClasses := by
  simp [OrderedCalls, couvClasses, ClassCall.Ordered, ClassCall.register]

/-- The metatable that a handle of the type is given. -/
def HandleType.className : HandleType → String
  | .tcp => "couv.Tcp"
  | .udp => "couv.Udp"
  | .pipe => "couv.Pipe"
  | .tty => "couv.Tty"
  | .timer => "couv.Timer"
  | .process => "couv.Process"

theorem subclass_iff {sup : String → Option String} {c d : String} :
    Subclass sup c d ↔ c = d ∨ ∃ s, sup c = some s ∧ Subclass sup s d :=
  Relation.ReflTransGen.cases_head_iff.trans (or_congr_left Iff.rfl)

/-- The classes above a handle type. -/
theorem couvClasses_above (t : HandleType) (d : String) :
    Subclass (superOf (fun _ => none) couvClasses) t.className d ↔
      t.className = d ∨ (t ∈ streamTypes ∧ "couv.Stream" = d) ∨ "couv.Handle" = d := by
  have hhandle : Subclass (superOf (fun _ => none) couvClasses) "couv.Handle" d ↔
      "couv.Handle" = d := by
    have hsup : superOf (fun _ => none) couvClasses "couv.Handle" = none := rfl
    rw [subclass_iff, hsup]
    simp
  have hstream : Subclass (superOf (fun _ => none) couvClasses) "couv.Stream" d ↔
      "couv.Stream" = d ∨ "couv.Handle" = d := by
    have hsup : superOf (fun _ => none) couvClasses "couv.Stream" = some "couv.Handle" := rfl
    rw [subclass_iff, hsup, ← hhandle]
    simp
  have hsup : superOf (fun _ => none) couvClasses t.className =
      if t ∈ streamTypes then some "couv.Stream" else some "couv.Handle" := by
    cases t <;> rfl
  rw [subclass_iff, hsup]
  split
  · next ht => simp [ht, hstream]
  · next ht => simp [ht, hhandle]

/-- The types that a check for a class of streams, or for one type, lets through. -/
theorem couvClasses_types (t u : HandleType) :
    (Subclass (superOf (fun _ => none) couvClasses) t.className "couv.Stream" ↔ t ∈ streamTypes) ∧
      (Subclass (superOf (fun _ => none) couvClasses) t.className u.className ↔ t ∈ [u]) := by
  rw [couvClasses_above, couvClasses_above]
  cases t <;> cases u <;> decide

/-- The classes of couv in a Lua state that had no tables, and a Tcp userdata. -/
def couvObjs : LuaObjs :=
  let o := LuaObjs.newmetatables ⟨[]⟩ ⟨.empty, fun _ => none, fun _ => none, fun _ => .nil⟩
    couvClasses
  { o with userdata := fun _ => o.classTable "couv.Tcp" }

theorem class_check_tcp : couvObjs.couvLCheckudataclass 11 ⟨[.userdata 0]⟩ (-1) "couv.Stream" =
    some (.ok (.userdata 0, ⟨[.userdata 0]⟩)) := by
  have hclosed : LuaObjs.Closed ⟨.empty, fun _ => none, fun _ => none, fun _ => .nil⟩ :=
    ⟨fun t s h => (by cases h), fun n t h => (by cases h)⟩
  have hafter : couvObjs.AfterCalls couvClasses :=
    ⟨⟨[]⟩, _, hclosed, fun _ _ => rfl, rfl, rfl⟩
  obtain ⟨hchain, hiff⟩ := (class_check couvObjs ⟨[.userdata 0]⟩ (-1) "couv.Stream").2.2 couvClasses
    couvClasses_ordered hafter (by decide) (.userdata 0) (.userdata 0) rfl rfl
  obtain ⟨ts, hts, hlen⟩ := hchain ⟨"couv.Tcp", by decide, rfl⟩
  exact (hiff ts 11 hts hlen).mpr
    ⟨"couv.Tcp", by decide, rfl, (couvClasses_types .tcp .tcp).1.mpr (by decide)⟩

end Couv
