import Mathlib.Algebra.Ring.Int.Defs
import Mathlib.Algebra.Ring.Nat
import Mathlib.Data.List.Induction

/-! A stack whose slots are counted from the bottom by 1, 2, … and from the top by -1, -2, …. -/
namespace Couv

/-- The top comes first. -/
@[ext] structure LuaStack (V : Type*) where
  slots : List V

namespace LuaStack
variable {V : Type*} (s : LuaStack V)

def gettop : ℕ := s.slots.length

def push (v : V) : LuaStack V := ⟨v :: s.slots⟩

/-- Push the values in order, so that the last one is on top. -/
def pushAll (vs : List V) : LuaStack V := vs.foldl push s

def pop (n : ℕ) : LuaStack V := ⟨s.slots.drop n⟩

/-- `idx` is a slot that is in use. -/
def Valid (idx : ℤ) : Prop := (0 < idx ∧ idx ≤ s.gettop) ∨ (idx < 0 ∧ -idx ≤ s.gettop)

instance (idx : ℤ) : Decidable (s.Valid idx) := inferInstanceAs (Decidable (_ ∨ _))

/-- How far below the top a slot is. -/
def depth (idx : ℤ) : ℕ := if idx < 0 then (-idx-1).toNat else (s.gettop-idx).toNat

def get (idx : ℤ) : Option V := if s.Valid idx then s.slots[s.depth idx]? else none

def remove (idx : ℤ) : LuaStack V :=
  if s.Valid idx then ⟨s.slots.eraseIdx (s.depth idx)⟩ else s

/-- The index from the bottom. -/
def absindex (idx : ℤ) : ℤ := if idx < 0 then s.gettop+idx+1 else idx

/-- Two slots in use hold the same value. -/
def rawequal [DecidableEq V] (i j : ℤ) : Bool :=
  (s.get i).isSome && s.get i = s.get j

@[simp] theorem gettop_push (v : V) : (s.push v).gettop = s.gettop+1 := rfl

@[simp] theorem pop_zero : s.pop 0 = s := rfl

@[simp] theorem pop_push (v : V) (n : ℕ) : (s.push v).pop (n+1) = s.pop n := rfl

@[simp] theorem pushAll_nil : s.pushAll [] = s := rfl

@[simp] theorem pushAll_cons (v : V) (vs : List V) : s.pushAll (v :: vs) = (s.push v).pushAll vs :=
  rfl

@[simp] theorem get_top (v : V) : (s.push v).get (-1) = some v := by
  have hv : (s.push v).Valid (-1) := .inr ⟨by omega, by rw [gettop_push]; omega⟩
  rw [get, if_pos hv]
  rfl

@[simp] theorem get_second (a b : V) : ((s.push a).push b).get (-2) = some a := by
  have hv : ((s.push a).push b).Valid (-2) :=
    .inr ⟨by omega, by rw [gettop_push, gettop_push]; omega⟩
  rw [get, if_pos hv]
  rfl

@[simp] theorem remove_second (a b : V) : ((s.push a).push b).remove (-2) = s.push b := by
  have hv : ((s.push a).push b).Valid (-2) :=
    .inr ⟨by omega, by rw [gettop_push, gettop_push]; omega⟩
  rw [remove, if_pos hv]
  rfl

@[simp] theorem rawequal_top [DecidableEq V] (a b : V) :
    ((s.push a).push b).rawequal (-1) (-2) = decide (b = a) := by
  simp [rawequal]

variable {s}

/-- A slot counted from the bottom does not move when the stack grows. -/
theorem get_push {idx : ℤ} (h0 : 0 < idx) (hi : idx ≤ s.gettop) (v : V) :
    (s.push v).get idx = s.get idx := by
  have hv : s.Valid idx := .inl ⟨h0, hi⟩
  have hv' : (s.push v).Valid idx := .inl ⟨h0, by rw [gettop_push]; omega⟩
  have hd : (s.push v).depth idx = s.depth idx+1 := by
    rw [depth, depth, if_neg (by omega), if_neg (by omega), gettop_push]
    omega
  rw [get, get, if_pos hv, if_pos hv', hd]
  rfl

theorem mem_of_get {idx : ℤ} {v : V} (h : s.get idx = some v) : v ∈ s.slots := by
  unfold get at h
  split at h
  · exact List.mem_of_getElem? h
  · cases h

theorem get_of_not_valid {idx : ℤ} (h : ¬s.Valid idx) : s.get idx = none := if_neg h

theorem Valid.absindex {idx : ℤ} (h : s.Valid idx) :
    0 < s.absindex idx ∧ s.absindex idx ≤ s.gettop := by
  unfold LuaStack.absindex
  rcases h with h | h <;> split <;> omega

/-- Both indices name the same slot. -/
theorem Valid.get_absindex {idx : ℤ} (h : s.Valid idx) : s.get (s.absindex idx) = s.get idx := by
  have habs := h.absindex
  have hd : s.depth (s.absindex idx) = s.depth idx := by
    rw [depth, if_neg (by omega)]
    rcases h with h | h
    · rw [LuaStack.absindex, if_neg (by omega), depth, if_neg (by omega)]
    · rw [LuaStack.absindex, if_pos h.1, depth, if_pos h.1]
      omega
  rw [get, get, if_pos h, if_pos (.inl habs), hd]

theorem pushAll_slots (vs : List V) :
    ∀ s : LuaStack V, (s.pushAll vs).slots = vs.reverse ++ s.slots := by
  induction vs with
  | nil => exact fun _ => rfl
  | cons v vs ih =>
    intro s
    rw [pushAll_cons, ih, List.reverse_cons, List.append_assoc]
    rfl

theorem pushAll_inj {vs ws : List V} (h : s.pushAll vs = s.pushAll ws) : vs = ws := by
  have hslots := congrArg slots h
  rw [pushAll_slots, pushAll_slots] at hslots
  exact List.reverse_inj.mp (List.append_cancel_right hslots)

end LuaStack
end Couv
