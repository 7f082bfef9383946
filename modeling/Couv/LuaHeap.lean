import Couv.Reach
import Couv.Value
import Mathlib.Data.List.Find

/-! The objects of Lua: tables with what their `__index` finds, and strings, which are made once
for each text. `N` is the type of the numbers. -/
namespace Couv

inductive LuaVal (N : Type)
  | nil
  | boolean (b : Bool)
  | number (n : N)
  | object (a : ℕ)
  deriving DecidableEq, Repr

/-- What an `__index` function returns: one of its upvalues, a string or a new table with an array
of numbers and strings. -/
inductive LuaMade (N : Type)
  | upvalue (i : ℕ)
  | string (s : LuaString)
  | array (xs : List (N ⊕ LuaString))

/-- The `__index` of a table, if it has one. -/
inductive LuaIndex (N : Type)
  | none
  | table (a : ℕ)
  | function (upvalues : List (LuaVal N)) (made : LuaString → LuaMade N)

inductive LuaObj (N : Type)
  | string (s : LuaString)
  | table (array : List (LuaVal N)) (fields : List (LuaVal N × LuaVal N)) (index : LuaIndex N)
  | function (upvalues : List (LuaVal N))
  | userdata (stream : Bool) (refs : List (LuaVal N))

variable {N : Type}

/-- The objects among the values. -/
def objects (vs : List (LuaVal N)) : List ℕ :=
  vs.filterMap fun v =>
    match v with
    | .object a => some a
    | _ => none

theorem mem_objects {vs : List (LuaVal N)} {a : ℕ} : a ∈ objects vs ↔ .object a ∈ vs := by
  rw [objects, List.mem_filterMap]
  constructor
  · rintro ⟨v, hv, ha⟩
    cases v with
    | object b =>
      obtain rfl : b = a := Option.some.inj ha
      exact hv
    | nil | boolean | number => cases ha
  · exact fun h => ⟨_, h, rfl⟩

theorem objects_subset {vs ws : List (LuaVal N)} (h : vs ⊆ ws) : objects vs ⊆ objects ws :=
  fun _ ha => mem_objects.mpr (h (mem_objects.mp ha))

theorem objects_append (vs ws : List (LuaVal N)) :
    objects (vs ++ ws) = objects vs ++ objects ws := List.filterMap_append

theorem objects_singleton {v : LuaVal N} {vs : List (LuaVal N)} (h : v ∈ vs) :
    objects [v] ⊆ objects vs := by
  apply objects_subset
  intro w hw
  obtain rfl := List.mem_singleton.mp hw
  exact h

def LuaIndex.refs : LuaIndex N → List ℕ
  | none => []
  | table a => [a]
  | function upvalues _ => objects upvalues

def LuaObj.refs : LuaObj N → List ℕ
  | string _ => []
  | table array fields index =>
    objects (array ++ fields.flatMap fun f => [f.1, f.2]) ++ index.refs
  | function upvalues => objects upvalues
  | userdata _ refs => objects refs

abbrev LuaHeap (N : Type) := Store (LuaObj N)

/-! Lookups. -/

def LuaVal.isNil : LuaVal N → Bool
  | nil => true
  | _ => false

/-- What a lookup finds: a value that the table leads to, or something that is made for it. -/
inductive Found (N : Type)
  | value (v : LuaVal N)
  | string (s : LuaString)
  | array (xs : List (N ⊕ LuaString))

namespace LuaHeap

/-- `v` is the string `s`. -/
def isString (h : LuaHeap N) (v : LuaVal N) (s : LuaString) : Bool :=
  match v with
  | .object a =>
    match h.get a with
    | some (.string t) => t = s
    | _ => false
  | _ => false

/-- `lua_getfield` on the object `a`. Lua follows no more than 100 tables. -/
def lookup (h : LuaHeap N) (key : LuaString) : ℕ → ℕ → Except LuaError (Found N)
  | 0, _ => .error (.error "loop in gettable")
  | n+1, a =>
    match h.get a with
    | some (.table _ fields index) =>
      match fields.find? fun f => !f.2.isNil && h.isString f.1 key with
      | some f => .ok (.value f.2)
      | none =>
        match index with
        | .none => .ok (.value .nil)
        | .table b => h.lookup key n b
        | .function upvalues made =>
          match made key with
          | .upvalue i => .ok (.value (upvalues.getD i .nil))
          | .string s => .ok (.string s)
          | .array xs => .ok (.array xs)
    | _ => .error (.error "attempt to index")

theorem isString_iff {h : LuaHeap N} {v : LuaVal N} {s : LuaString} :
    h.isString v s = true ↔ ∃ a, v = .object a ∧ h.get a = some (.string s) := by
  unfold isString
  split
  · next a =>
    split
    · next t ht => simp [ht]
    · next hne =>
      simp only [Bool.false_eq_true, LuaVal.object.injEq, exists_eq_left', false_iff]
      exact fun h' => hne _ h'
  · next hne =>
    simp only [Bool.false_eq_true, false_iff]
    rintro ⟨a, rfl, -⟩
    exact hne a rfl

theorem isString_keeps {h h' : LuaHeap N} {v : LuaVal N} (hk : Keeps LuaObj.refs (objects [v]) h h')
    (s : LuaString) : h'.isString v s = h.isString v s := by
  cases v with
  | object a =>
    have hget := hk a (.root (mem_objects.mpr List.mem_cons_self))
    simp only [isString, hget]
  | nil | boolean | number => rfl

/-- A table leads to its keys and to the values of its fields. -/
theorem reach_fields {h : LuaHeap N} {a : ℕ} {array : List (LuaVal N)}
    {fields : List (LuaVal N × LuaVal N)} {index : LuaIndex N}
    (hget : h.get a = some (.table array fields index)) {f : LuaVal N × LuaVal N}
    (hf : f ∈ fields) {v : LuaVal N} (hv : v ∈ [f.1, f.2]) {b : ℕ} (hb : b ∈ objects [v]) :
    Reach LuaObj.refs h [a] b := by
  have hfields : v ∈ fields.flatMap fun f => [f.1, f.2] := List.mem_flatMap.mpr ⟨f, hf, hv⟩
  have hroot : Reach LuaObj.refs h [a] a := .root List.mem_cons_self
  exact hroot.step hget
    (List.mem_append_left _ (objects_singleton (List.mem_append_right _ hfields) hb))

/-- A value that is found is one that the table leads to. -/
theorem lookup_reach {h : LuaHeap N} {key : LuaString} {v : LuaVal N} {n a b : ℕ}
    (hl : h.lookup key n a = .ok (.value v)) (hb : b ∈ objects [v]) :
    Reach LuaObj.refs h [a] b := by
  have hroot : ∀ {a}, Reach LuaObj.refs h [a] a := .root List.mem_cons_self
  induction n generalizing a with
  | zero => cases hl
  | succ n ih =>
    rw [lookup] at hl
    split at hl
    swap
    · cases hl
    next array fields index hget =>
    split at hl
    · next f hf =>
      obtain rfl := Found.value.inj (Except.ok.inj hl)
      exact reach_fields hget (List.mem_of_find?_eq_some hf) (by simp) hb
    · split at hl
      · obtain rfl := Found.value.inj (Except.ok.inj hl)
        cases hb
      -- the lookup goes on in the table __index, to which this one leads
      · next c =>
        have hc : Reach LuaObj.refs h [a] c :=
          hroot.step hget (List.mem_append_right _ List.mem_cons_self)
        refine reach_of_reach ?_ (ih hl)
        rintro _ hmem
        obtain rfl := List.mem_singleton.mp hmem
        exact hc
      -- an __index function gives one of its upvalues or something new
      · next upvalues made =>
        split at hl
        · next i _ =>
          obtain rfl := Found.value.inj (Except.ok.inj hl)
          refine hroot.step hget (List.mem_append_right _ (mem_objects.mpr ?_))
          have hi := List.mem_singleton.mp (mem_objects.mp hb)
          rw [List.getD_eq_getElem?_getD] at hi
          cases hup : upvalues[i]? with
          | none =>
            rw [hup] at hi
            cases hi
          | some v =>
            rw [hup] at hi
            obtain rfl : LuaVal.object b = v := hi
            exact List.mem_of_getElem? hup
        · cases hl
        · cases hl

/-- A lookup reads what the table leads to and nothing else. -/
theorem lookup_keeps {h h' : LuaHeap N} (key : LuaString) {n a : ℕ}
    (hk : Keeps LuaObj.refs [a] h h') : h'.lookup key n a = h.lookup key n a := by
  have hroot : ∀ {a}, Reach LuaObj.refs h [a] a := .root List.mem_cons_self
  induction n generalizing a with
  | zero => rfl
  | succ n ih =>
    have hget : h'.get a = h.get a := hk a hroot
    cases hx : h.get a with
    | none => simp only [lookup, hget, hx]
    | some x =>
      cases x with
      | string | function | userdata => simp only [lookup, hget, hx]
      | table array fields index =>
        -- the strings that are keys are kept, so the same field is found
        have hfind : fields.find? (fun f => !f.2.isNil && h'.isString f.1 key) =
            fields.find? fun f => !f.2.isNil && h.isString f.1 key := by
          refine List.find?_congr ?_
          intro f hf
          rw [isString_keeps (hk.of_reach ?_) key]
          exact fun b hb => reach_fields hx hf List.mem_cons_self hb
        cases index with
        | none | function => simp only [lookup, hget, hx, hfind]
        | table c =>
          have hc : Reach LuaObj.refs h [a] c :=
            hroot.step hx (List.mem_append_right _ List.mem_cons_self)
          have hrec := ih (a := c) (hk.of_reach (by
            intro b hb
            obtain rfl := List.mem_singleton.mp hb
            exact hc))
          simp only [lookup, hget, hx, hfind, hrec]

end LuaHeap

/-! Strings that are made once for each text: all of them, or the short ones; those of numbers
always. -/

structure LuaStrings (N : Type) where
  tostr : N → LuaString
  interned : LuaString → Bool
  interned_tostr : ∀ n, interned (tostr n) = true

namespace LuaHeap

def findString (h : LuaHeap N) (s : LuaString) : Option ℕ :=
  (List.range h.next).find? fun a => h.isString (.object a) s

variable (L : LuaStrings N)

/-- The string `s`, which may be there. -/
def newString (h : LuaHeap N) (s : LuaString) : LuaHeap N × ℕ :=
  match if L.interned s then h.findString s else none with
  | some a => (h, a)
  | none => (h.alloc (.string s), h.next)

/-- No text is made twice. -/
def Interned (h : LuaHeap N) : Prop :=
  ∀ s, L.interned s = true → ∀ a b, h.get a = some (.string s) → h.get b = some (.string s) → a = b

/-- The roots reach a string of this text, which is the one that a conversion finds. -/
def Anchored (h : LuaHeap N) (roots : List ℕ) (s : LuaString) : Prop :=
  L.interned s = true ∧ ∃ a, Reach LuaObj.refs h roots a ∧ h.get a = some (.string s)

variable {L} {h : LuaHeap N} {roots : List ℕ}

theorem findString_eq_some {s : LuaString} {a : ℕ} (hf : h.findString s = some a) :
    h.get a = some (.string s) := by
  have htrue : h.isString (.object a) s = true :=
    List.find?_some (p := fun a => h.isString (.object a) s) hf
  obtain ⟨_, hv, hget⟩ := isString_iff.mp htrue
  obtain rfl := LuaVal.object.inj hv
  exact hget

theorem findString_eq_none {s : LuaString} (hf : h.findString s = none) (a : ℕ) :
    h.get a ≠ some (.string s) := by
  intro hget
  have hmem : a ∈ List.range h.next := List.mem_range.mpr (h.lt_next hget)
  exact List.find?_eq_none.mp hf a hmem (isString_iff.mpr ⟨a, rfl, hget⟩)

/-- The string is an old one, or it is new and no other has its text. -/
theorem newString_cases (L : LuaStrings N) (h : LuaHeap N) (s : LuaString) :
    (∃ a, h.newString L s = (h, a) ∧ L.interned s = true ∧ h.get a = some (.string s)) ∨
    (h.newString L s = (h.alloc (.string s), h.next) ∧
      (L.interned s = true → ∀ a, h.get a ≠ some (.string s))) := by
  unfold newString
  by_cases hi : L.interned s = true
  · rw [if_pos hi]
    cases hf : h.findString s with
    | some a => exact .inl ⟨a, rfl, hi, findString_eq_some hf⟩
    | none => exact .inr ⟨rfl, fun _ => findString_eq_none hf⟩
  · rw [if_neg hi]
    exact .inr ⟨rfl, fun h => absurd h hi⟩

theorem newString_get (s : LuaString) :
    (h.newString L s).1.get (h.newString L s).2 = some (.string s) := by
  rcases newString_cases L h s with ⟨a, heq, -, hget⟩ | ⟨heq, -⟩ <;> rw [heq]
  · exact hget
  · exact h.alloc_get_self _

theorem newString_keeps (hc : Closed LuaObj.refs roots h) (s : LuaString) :
    Keeps LuaObj.refs roots h (h.newString L s).1 := by
  rcases newString_cases L h s with ⟨a, heq, -⟩ | ⟨heq, -⟩ <;> rw [heq]
  · exact keeps_refl
  · exact hc.keeps_alloc _

theorem newString_interned (hi : Interned L h) (s : LuaString) :
    Interned L (h.newString L s).1 := by
  rcases newString_cases L h s with ⟨a, heq, -⟩ | ⟨heq, hnew⟩ <;> rw [heq]
  · exact hi
  · intro t ht a b ha hb
    simp only [Store.alloc_eq_some, LuaObj.string.injEq] at ha hb
    rcases ha with ⟨rfl, rfl⟩ | ⟨-, ha⟩ <;> rcases hb with ⟨rfl, hst⟩ | ⟨-, hb⟩
    · rfl
    · exact absurd hb (hnew ht b)
    · subst hst
      exact absurd ha (hnew ht a)
    · exact hi t ht a b ha hb

theorem newString_next (s : LuaString) : h.next ≤ (h.newString L s).1.next := by
  rcases newString_cases L h s with ⟨a, heq, -⟩ | ⟨heq, -⟩ <;> rw [heq]
  exact Nat.le_succ _

/-- The object is an old one only if its text is interned. -/
theorem newString_new (s : LuaString) :
    L.interned s = true ∨ h.next ≤ (h.newString L s).2 := by
  rcases newString_cases L h s with ⟨a, heq, hs, -⟩ | ⟨heq, -⟩ <;> rw [heq]
  · exact .inl hs
  · exact .inr le_rfl

/-- The roots reach a string that has been made only if they reached its text before. -/
theorem reach_made {h' : LuaHeap N} (hc : Closed LuaObj.refs roots h) (hi : Interned L h')
    (hk : Keeps LuaObj.refs roots h h') {a : ℕ} {s : LuaString}
    (hget : h'.get a = some (.string s)) (hnew : L.interned s = true ∨ h.next ≤ a) :
    Reach LuaObj.refs h roots a ↔ Anchored L h roots s := by
  constructor
  · intro hr
    have hs : L.interned s = true := hnew.resolve_right (hc.lt_next hr).not_ge
    exact ⟨hs, a, hr, (hk a hr).symm.trans hget⟩
  · rintro ⟨hs, b, hr, hb⟩
    obtain rfl := hi s hs a b hget ((hk b hr).trans hb)
    exact hr

/-- What every call of Lua can rely on. -/
structure Sound (L : LuaStrings N) (roots : List ℕ) (h : LuaHeap N) : Prop where
  closed : Closed LuaObj.refs roots h
  interned : Interned L h

theorem newString_sound (hs : Sound L roots h) (s : LuaString) :
    Sound L ((h.newString L s).2 :: roots) (h.newString L s).1 where
  interned := newString_interned hs.interned s
  closed := by
    have hclosed := (newString_keeps (L := L) hs.closed s).closed hs.closed
    refine fun b hb => ?_
    have hcases : b = (h.newString L s).2 ∨ Reach LuaObj.refs (h.newString L s).1 roots b := by
      refine reach_subset (p := fun b => b = (h.newString L s).2 ∨
        Reach LuaObj.refs (h.newString L s).1 roots b) ?_ ?_ hb
      · exact fun b hb => (List.mem_cons.mp hb).imp id .root
      · rintro b x (rfl | hb) hx c hc
        · rw [newString_get] at hx
          obtain rfl := Option.some.inj hx
          cases hc
        · exact .inr (hb.step hx hc)
    rcases hcases with rfl | hb
    · rw [newString_get]
      rfl
    · exact hclosed b hb

variable (L) in
def newValues (h : LuaHeap N) : List (N ⊕ LuaString) → LuaHeap N × List (LuaVal N)
  | [] => (h, [])
  | .inl n :: xs =>
    let r := newValues h xs
    (r.1, .number n :: r.2)
  | .inr s :: xs =>
    let r := h.newString L s
    let r' := newValues r.1 xs
    (r'.1, .object r.2 :: r'.2)

variable (L) in
/-- A table with these numbers and strings as its array. -/
def newArray (h : LuaHeap N) (xs : List (N ⊕ LuaString)) : LuaHeap N × ℕ :=
  let r := h.newValues L xs
  (r.1.alloc (.table r.2 [] .none), r.1.next)

/-- `v` is made for `x`, in a heap whose objects from `next` on are new. -/
def NewValue (L : LuaStrings N) (next : ℕ) (h : LuaHeap N) (x : N ⊕ LuaString) (v : LuaVal N) :
    Prop :=
  match x with
  | .inl n => v = .number n
  | .inr s => ∃ a, v = .object a ∧ h.get a = some (.string s) ∧ (L.interned s = true ∨ next ≤ a)

theorem NewValue.mono {next next' : ℕ} {h' : LuaHeap N} {x : N ⊕ LuaString} {v : LuaVal N}
    (hv : NewValue L next h x v) (hle : next' ≤ next)
    (hk : ∀ a s, h.get a = some (.string s) → h'.get a = some (.string s)) :
    NewValue L next' h' x v := by
  cases x with
  | inl n => exact hv
  | inr s =>
    obtain ⟨a, hv, hget, hnew⟩ := hv
    exact ⟨a, hv, hk a s hget, hnew.imp id hle.trans⟩

theorem newValues_spec (xs : List (N ⊕ LuaString)) (hs : Sound L roots h) :
    Sound L (objects (h.newValues L xs).2 ++ roots) (h.newValues L xs).1 ∧
    Keeps LuaObj.refs roots h (h.newValues L xs).1 ∧
    List.Forall₂ (NewValue L h.next (h.newValues L xs).1) xs (h.newValues L xs).2 := by
  induction xs generalizing h roots with
  | nil => exact ⟨hs, keeps_refl, .nil⟩
  | cons x xs ih =>
    cases x with
    | inl n =>
      obtain ⟨hs', hk, hall⟩ := ih hs
      exact ⟨hs', hk, .cons rfl hall⟩
    | inr s =>
      -- the strings made so far are roots while the rest is made
      obtain ⟨hs', hk, hall⟩ := ih (newString_sound hs s)
      have hk₁ := newString_keeps (L := L) hs.closed s
      have hget : ((h.newString L s).1.newValues L xs).1.get (h.newString L s).2 =
          some (.string s) :=
        (hk _ (.root List.mem_cons_self)).trans (newString_get s)
      refine ⟨⟨hs'.closed.mono ?_, hs'.interned⟩, hk₁.trans (hk.mono (List.subset_cons_self _ _)),
        .cons ⟨_, rfl, hget, newString_new s⟩
          (hall.imp fun x v hv => hv.mono (newString_next s) fun _ _ => id)⟩
      intro b hb
      have hb' : b ∈ (h.newString L s).2 ::
        (objects ((h.newString L s).1.newValues L xs).2 ++ roots) := hb
      simp only [List.mem_append, List.mem_cons] at hb' ⊢
      tauto

theorem newArray_spec (xs : List (N ⊕ LuaString)) (hs : Sound L roots h) :
    Sound L ((h.newArray L xs).2 :: roots) (h.newArray L xs).1 ∧
    Keeps LuaObj.refs roots h (h.newArray L xs).1 ∧
    ∃ vs, (h.newArray L xs).1.get (h.newArray L xs).2 = some (.table vs [] .none) ∧
      List.Forall₂ (NewValue L h.next (h.newArray L xs).1) xs vs := by
  obtain ⟨hs', hk, hall⟩ := newValues_spec xs hs
  have hrefs : ∀ b ∈ (LuaObj.table (h.newValues L xs).2 [] .none).refs,
      Reach LuaObj.refs (h.newValues L xs).1 (objects (h.newValues L xs).2 ++ roots) b := by
    intro b hb
    have hb' : b ∈ objects (h.newValues L xs).2 := by
      simpa [LuaObj.refs, LuaIndex.refs] using hb
    exact .root (List.mem_append_left _ hb')
  have hclosed := hs'.closed.alloc hrefs
  refine ⟨⟨hclosed.mono ?_, ?_⟩, hk.trans ?_, _, Store.alloc_get_self _ _,
    hall.imp fun x v hv => hv.mono le_rfl fun _ _ => Store.alloc_get_of_some _⟩
  · exact List.cons_subset_cons _ (List.subset_append_right _ _)
  · intro t ht a b ha hb
    simp only [newArray, Store.alloc_eq_some, reduceCtorEq, and_false, false_or] at ha hb
    exact hs'.interned t ht a b ha.2 hb.2
  · exact (hs'.closed.mono (List.subset_append_right _ _)).keeps_alloc _

end LuaHeap

end Couv
