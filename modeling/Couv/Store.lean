import Mathlib.Data.Finset.Card
import Mathlib.Data.Finset.Range
import Mathlib.Order.Interval.Finset.Nat

/-! Stores of allocated objects. An address is never given out twice, so an
object that has been freed stays absent. -/
namespace Couv

/-- A finite map from addresses to objects with an allocation frontier. -/
structure Store (α : Type*) where
  next : ℕ
  get : ℕ → Option α
  fresh : ∀ a, next ≤ a → get a = none

namespace Store
variable {α : Type*} (s : Store α)

def empty : Store α := ⟨0, fun _ => none, fun _ _ => rfl⟩

/-- Allocate `x` at the frontier, whose address is `s.next`. -/
def alloc (x : α) : Store α where
  next := s.next + 1
  get a := if a = s.next then some x else s.get a
  fresh a ha := by
    rw [if_neg (by omega)]
    exact s.fresh a (by omega)

/-- Update the object at `a`, if there is one. -/
def modify (a : ℕ) (f : α → α) : Store α where
  next := s.next
  get b := if b = a then (s.get a).map f else s.get b
  fresh b hb := by
    split
    · next h => subst h; rw [s.fresh b hb]; rfl
    · exact s.fresh b hb

def free (a : ℕ) : Store α where
  next := s.next
  get b := if b = a then none else s.get b
  fresh b hb := by
    split
    · rfl
    · exact s.fresh b hb

@[ext] theorem ext {s t : Store α} (hn : s.next = t.next) (hg : ∀ a, s.get a = t.get a) :
    s = t := by
  obtain ⟨n, g, hf⟩ := s
  obtain ⟨n', g', hf'⟩ := t
  obtain rfl : n = n' := hn
  obtain rfl : g = g' := funext hg
  rfl

/-- The same addresses, with every object seen through `f`. -/
def map {β : Type*} (f : α → β) : Store β where
  next := s.next
  get a := (s.get a).map f
  fresh a ha := by rw [s.fresh a ha]; rfl

theorem lt_next {a : ℕ} {x : α} (h : s.get a = some x) : a < s.next := by
  by_contra hge
  rw [s.fresh a (by omega)] at h
  cases h

@[simp] theorem empty_get (a : ℕ) : (empty : Store α).get a = none := rfl

@[simp] theorem alloc_next (x : α) : (s.alloc x).next = s.next + 1 := rfl

@[simp] theorem modify_next (a : ℕ) (f : α → α) : (s.modify a f).next = s.next := rfl

@[simp] theorem free_next (a : ℕ) : (s.free a).next = s.next := rfl

@[simp] theorem alloc_get_self (x : α) : (s.alloc x).get s.next = some x := if_pos rfl

theorem alloc_get (x : α) (a : ℕ) :
    (s.alloc x).get a = if a = s.next then some x else s.get a := rfl

theorem alloc_get_of_some {x y : α} {a : ℕ} (h : s.get a = some y) :
    (s.alloc x).get a = some y := by
  rw [alloc_get, if_neg (s.lt_next h).ne, h]

theorem modify_get (a b : ℕ) (f : α → α) :
    (s.modify a f).get b = if b = a then (s.get a).map f else s.get b := rfl

theorem modify_get_ne {a b : ℕ} (f : α → α) (h : b ≠ a) : (s.modify a f).get b = s.get b :=
  if_neg h

theorem modify_get_self {a : ℕ} {x : α} (f : α → α) (h : s.get a = some x) :
    (s.modify a f).get a = some (f x) := by
  rw [modify_get, if_pos rfl, h]
  rfl

theorem free_get (a b : ℕ) : (s.free a).get b = if b = a then none else s.get b := rfl

@[simp] theorem free_get_self (a : ℕ) : (s.free a).get a = none := if_pos rfl

theorem free_get_ne {a b : ℕ} (h : b ≠ a) : (s.free a).get b = s.get b := if_neg h

theorem alloc_eq_some {x y : α} {a : ℕ} :
    (s.alloc x).get a = some y ↔ (a = s.next ∧ y = x) ∨ (a ≠ s.next ∧ s.get a = some y) := by
  rw [alloc_get]
  split
  · next h => simp [h, eq_comm]
  · next h => simp [h]

theorem modify_eq_some {a b : ℕ} {f : α → α} {y : α} :
    (s.modify a f).get b = some y ↔
      (b = a ∧ ∃ x, s.get a = some x ∧ y = f x) ∨ (b ≠ a ∧ s.get b = some y) := by
  rw [modify_get]
  split
  · next h => simp [h, eq_comm]
  · next h => simp [h]

theorem free_eq_some {a b : ℕ} {y : α} :
    (s.free a).get b = some y ↔ b ≠ a ∧ s.get b = some y := by
  rw [free_get]
  split
  · next h => simp [h]
  · next h => simp [h]

/-- Filling in an object right after its allocation. -/
theorem alloc_modify (x : α) (f : α → α) : (s.alloc x).modify s.next f = s.alloc (f x) := by
  refine Store.ext rfl ?_
  intro a
  by_cases ha : a = s.next
  · subst ha; rw [modify_get_self _ f (s.alloc_get_self x), alloc_get_self]
  · rw [modify_get_ne _ f ha, alloc_get, alloc_get, if_neg ha, if_neg ha]

/-- `t` comes after `s`: what lies at an address that `s` has given out was there before. -/
structure Later (s t : Store α) : Prop where
  next : s.next ≤ t.next
  old : ∀ a x, a < s.next → t.get a = some x → s.get a = some x

theorem Later.refl : s.Later s := ⟨le_rfl, fun _ _ _ => id⟩

theorem Later.trans {s t u : Store α} (h : s.Later t) (h' : t.Later u) : s.Later u :=
  ⟨h.next.trans h'.next, fun a x ha hx => h.old a x ha (h'.old a x (ha.trans_le h.next) hx)⟩

theorem later_alloc (x : α) : s.Later (s.alloc x) := by
  refine ⟨Nat.le_succ _, fun a y ha hy => ?_⟩
  rwa [alloc_get, if_neg ha.ne] at hy

theorem later_free (a : ℕ) : s.Later (s.free a) :=
  ⟨le_rfl, fun _ _ _ hy => (s.free_eq_some.mp hy).2⟩

/-- Every object has the property. -/
def All (p : ℕ → α → Prop) : Prop := ∀ a < s.next, ∀ x ∈ s.get a, p a x

instance (p : ℕ → α → Prop) [∀ a x, Decidable (p a x)] : Decidable (s.All p) :=
  inferInstanceAs (Decidable (∀ a < s.next, ∀ x ∈ s.get a, p a x))

theorem all_iff {p : ℕ → α → Prop} : s.All p ↔ ∀ a x, s.get a = some x → p a x :=
  ⟨fun h a x hx => h a (s.lt_next hx) x hx, fun h a _ x hx => h a x hx⟩

section map
variable {β : Type*} (f : α → β)

@[simp] theorem map_next : (s.map f).next = s.next := rfl

@[simp] theorem map_get (a : ℕ) : (s.map f).get a = (s.get a).map f := rfl

theorem map_alloc (x : α) : (s.alloc x).map f = (s.map f).alloc (f x) := by
  refine Store.ext rfl ?_
  intro a
  rw [map_get, alloc_get, alloc_get, map_next, map_get]
  split <;> rfl

theorem map_modify {g : α → α} {g' : β → β} (h : ∀ x, f (g x) = g' (f x)) (a : ℕ) :
    (s.modify a g).map f = (s.map f).modify a g' := by
  refine Store.ext rfl ?_
  intro b
  rw [map_get, modify_get, modify_get, map_get, map_get]
  split
  · cases s.get a <;> simp [h]
  · rfl

/-- An update that `f` does not see. -/
theorem map_modify_of_eq {g : α → α} (h : ∀ x, f (g x) = f x) (a : ℕ) :
    (s.modify a g).map f = s.map f := by
  refine Store.ext rfl ?_
  intro b
  rw [map_get, modify_get, map_get]
  split
  · next hb => subst hb; cases s.get b <;> simp [h]
  · rfl

theorem map_free (a : ℕ) : (s.free a).map f = (s.map f).free a := by
  refine Store.ext rfl ?_
  intro b
  rw [map_get, free_get, free_get, map_get]
  split <;> rfl

end map

/-! The number of objects with a property, which may look at their address. -/

def count (p : ℕ → α → Bool) : ℕ :=
  ((Finset.range s.next).filter (fun a => (s.get a).any (p a))).card

variable {s} (p : ℕ → α → Bool)

private theorem range_succ_filter (n : ℕ) (q : ℕ → Bool) :
    ((Finset.range (n+1)).filter (fun a => q a)).card =
      ((Finset.range n).filter (fun a => q a)).card + (q n).toNat := by
  rw [Finset.range_add_one, Finset.filter_insert]
  cases hq : q n
  · simp
  · rw [if_pos rfl, Finset.card_insert_of_notMem (by simp)]
    rfl

theorem count_alloc (x : α) : (s.alloc x).count p = s.count p + (p s.next x).toNat := by
  have hold : (Finset.range s.next).filter (fun a => ((s.alloc x).get a).any (p a)) =
      (Finset.range s.next).filter (fun a => (s.get a).any (p a)) := by
    apply Finset.filter_congr
    intro a ha
    rw [alloc_get, if_neg (Finset.mem_range.mp ha).ne]
  unfold count
  rw [alloc_next, range_succ_filter s.next (fun a => ((s.alloc x).get a).any (p a)), hold,
    alloc_get_self]
  rfl

/-- Counting over a set splits off any one of its members. -/
private theorem card_filter_split (n a : ℕ) (ha : a < n) (q : ℕ → Bool) :
    ((Finset.range n).filter (fun b => q b)).card =
      (((Finset.range n).erase a).filter (fun b => q b)).card + (q a).toNat := by
  have hins : Finset.range n = insert a ((Finset.range n).erase a) :=
    (Finset.insert_erase (Finset.mem_range.mpr ha)).symm
  conv_lhs => rw [hins]
  rw [Finset.filter_insert]
  cases hq : q a
  · simp
  · rw [if_pos rfl, Finset.card_insert_of_notMem (by simp)]
    rfl

/-- Two counts that differ at one address. -/
private theorem count_change {q : ℕ → α → Bool} {s t : Store α} {a : ℕ} (hn : t.next = s.next)
    (ha : a < s.next) (hget : ∀ b, b ≠ a → (t.get b).any (q b) = (s.get b).any (p b)) :
    t.count q + ((s.get a).any (p a)).toNat = s.count p + ((t.get a).any (q a)).toNat := by
  have hrest : ((Finset.range s.next).erase a).filter (fun b => (t.get b).any (q b)) =
      ((Finset.range s.next).erase a).filter (fun b => (s.get b).any (p b)) := by
    apply Finset.filter_congr
    intro b hb
    rw [hget b (Finset.ne_of_mem_erase hb)]
  unfold count
  rw [hn, card_filter_split s.next a ha (fun b => (t.get b).any (q b)),
    card_filter_split s.next a ha (fun b => (s.get b).any (p b)), hrest]
  omega

theorem count_free {a : ℕ} {x : α} (h : s.get a = some x) :
    (s.free a).count p + (p a x).toNat = s.count p := by
  have hc := count_change p (q := p) (s := s) (t := s.free a) rfl (s.lt_next h)
    (fun b hb => by rw [s.free_get_ne hb])
  rw [h, free_get_self] at hc
  simpa using hc

theorem count_congr {q : ℕ → α → Bool} (h : ∀ a x, s.get a = some x → q a x = p a x) :
    s.count q = s.count p := by
  unfold count
  congr 1
  apply Finset.filter_congr
  intro a _
  cases hx : s.get a with
  | none => simp
  | some x => simp [h a x hx]

/-- Two properties that differ at one object. -/
theorem count_change_at {q : ℕ → α → Bool} {a : ℕ} {x : α} (h : s.get a = some x)
    (hne : ∀ b y, b ≠ a → s.get b = some y → q b y = p b y) :
    s.count q + (p a x).toNat = s.count p + (q a x).toNat := by
  have hc := count_change p (q := q) (s := s) (t := s) rfl (s.lt_next h) (by
    intro b hb
    cases hy : s.get b with
    | none => simp
    | some y => simp [hne b y hb hy])
  rw [h] at hc
  exact hc

theorem count_eq_zero (h : ∀ a, s.get a = none) : s.count p = 0 := by
  unfold count
  rw [Finset.card_eq_zero, Finset.filter_eq_empty_iff]
  intro a _
  simp [h a]

theorem count_pos_of_get {a : ℕ} {x : α} (h : s.get a = some x) (hp : p a x = true) :
    0 < s.count p := by
  unfold count
  apply Finset.card_pos.mpr
  refine ⟨a, Finset.mem_filter.mpr ⟨Finset.mem_range.mpr (s.lt_next h), ?_⟩⟩
  rw [h]
  exact hp

theorem exists_of_count_pos (h : 0 < s.count p) : ∃ a x, s.get a = some x ∧ p a x = true := by
  unfold count at h
  obtain ⟨a, ha⟩ := Finset.card_pos.mp h
  exact ⟨a, (Option.any_eq_true _ _).mp (Finset.mem_filter.mp ha).2⟩

/-- Of one object there is one address. -/
theorem eq_of_count_le_one (h : s.count p ≤ 1) {a b : ℕ} {x y : α} (hx : s.get a = some x)
    (hpx : p a x = true) (hy : s.get b = some y) (hpy : p b y = true) : a = b := by
  unfold count at h
  have hmem {a : ℕ} {x : α} (hx : s.get a = some x) (hp : p a x = true) :
      a ∈ (Finset.range s.next).filter (fun a => (s.get a).any (p a)) := by
    refine Finset.mem_filter.mpr ⟨Finset.mem_range.mpr (s.lt_next hx), ?_⟩
    rw [hx]
    exact hp
  exact Finset.card_le_one.mp h a (hmem hx hpx) b (hmem hy hpy)

end Store
end Couv
