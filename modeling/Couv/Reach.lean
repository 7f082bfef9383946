import Couv.Store

/-! Objects that refer to one another: what the roots reach, and heaps that agree on it. -/
namespace Couv

section
variable {α : Type*} (refs : α → List ℕ)

/-- What the roots reach through the references that the objects hold. -/
inductive Reach (s : Store α) (roots : List ℕ) : ℕ → Prop
  | root {a : ℕ} (h : a ∈ roots) : Reach s roots a
  | step {a b : ℕ} {x : α} (h : Reach s roots a) (hx : s.get a = some x) (hb : b ∈ refs x) :
    Reach s roots b

/-- Every object that the roots reach is there. -/
def Closed (roots : List ℕ) (s : Store α) : Prop :=
  ∀ a, Reach refs s roots a → (s.get a).isSome

/-- What the roots reach in `s` is the same in `t`; the rest may have gone, and new objects may
have come. -/
def Keeps (roots : List ℕ) (s t : Store α) : Prop :=
  ∀ a, Reach refs s roots a → t.get a = s.get a

end

variable {α : Type*} {refs : α → List ℕ} {s t u : Store α} {roots roots' : List ℕ}

theorem reach_of_reach (h : ∀ a ∈ roots', Reach refs s roots a) {a : ℕ}
    (ha : Reach refs s roots' a) : Reach refs s roots a := by
  induction ha with
  | root ha => exact h _ ha
  | step _ hx hb ih => exact ih.step hx hb

theorem Reach.mono {a : ℕ} (ha : Reach refs s roots a) (h : roots ⊆ roots') :
    Reach refs s roots' a := reach_of_reach (fun _ hb => .root (h hb)) ha

/-- A set that holds the roots and the references of its objects holds all that is reached. -/
theorem reach_subset {p : ℕ → Prop} (hroots : ∀ a ∈ roots, p a)
    (hrefs : ∀ a x, p a → s.get a = some x → ∀ b ∈ refs x, p b) {a : ℕ}
    (ha : Reach refs s roots a) : p a := by
  induction ha with
  | root ha => exact hroots _ ha
  | step _ hx hb ih => exact hrefs _ _ ih hx _ hb

/-- What nothing refers to is not reached. -/
theorem not_reach_of_refs {b : ℕ} (hr : b ∉ roots)
    (hrefs : ∀ a < s.next, b ∉ ((s.get a).map refs).getD []) : ¬Reach refs s roots b := by
  intro hb
  refine reach_subset (p := fun a => a ≠ b) ?_ ?_ hb rfl
  · rintro _ ha rfl
    exact hr ha
  · rintro a x _ hx _ hc rfl
    refine hrefs a (s.lt_next hx) ?_
    rw [hx]
    exact hc

theorem keeps_refl : Keeps refs roots s s := fun _ _ => rfl

namespace Keeps
variable (h : Keeps refs roots s t)
include h

theorem reach {a : ℕ} : Reach refs t roots a ↔ Reach refs s roots a := by
  constructor <;> intro ha
  · induction ha with
    | root ha => exact .root ha
    | step _ hx hb ih => exact ih.step ((h _ ih).symm.trans hx) hb
  · induction ha with
    | root ha => exact .root ha
    | step ha hx hb ih => exact ih.step ((h _ ha).trans hx) hb

theorem trans (h' : Keeps refs roots t u) : Keeps refs roots s u := by
  intro a ha
  exact (h' a (h.reach.mpr ha)).trans (h a ha)

theorem of_reach (hr : ∀ a ∈ roots', Reach refs s roots a) : Keeps refs roots' s t :=
  fun a ha => h a (reach_of_reach hr ha)

theorem mono (hr : roots' ⊆ roots) : Keeps refs roots' s t := h.of_reach fun _ ha => .root (hr ha)

theorem closed (hc : Closed refs roots s) : Closed refs roots t := by
  intro a ha
  have ha' := h.reach.mp ha
  rw [h a ha']
  exact hc a ha'

end Keeps

namespace Closed
variable (h : Closed refs roots s)
include h

theorem of_reach (hr : ∀ a ∈ roots', Reach refs s roots a) : Closed refs roots' s :=
  fun a ha => h a (reach_of_reach hr ha)

theorem mono (hr : roots' ⊆ roots) : Closed refs roots' s := h.of_reach fun _ ha => .root (hr ha)

theorem lt_next {a : ℕ} (ha : Reach refs s roots a) : a < s.next := by
  obtain ⟨x, hx⟩ := Option.isSome_iff_exists.mp (h a ha)
  exact s.lt_next hx

theorem keeps_alloc (x : α) : Keeps refs roots s (s.alloc x) := by
  intro a ha
  rw [Store.alloc_get, if_neg (h.lt_next ha).ne]

theorem reach_alloc {x : α} (hx : ∀ b ∈ refs x, Reach refs s roots b) {a : ℕ} :
    Reach refs (s.alloc x) (s.next :: roots) a ↔ a = s.next ∨ Reach refs s roots a := by
  have hk := h.keeps_alloc x
  constructor
  · refine reach_subset (p := fun a => a = s.next ∨ Reach refs s roots a) ?_ ?_
    · intro b hb
      exact (List.mem_cons.mp hb).imp id .root
    · rintro b y (rfl | hb) hy c hc
      · obtain rfl : x = y := Option.some.inj ((s.alloc_get_self x).symm.trans hy)
        exact .inr (hx c hc)
      · exact .inr (hb.step ((hk b hb).symm.trans hy) hc)
  · rintro (rfl | ha)
    · exact .root List.mem_cons_self
    · exact (hk.reach.mpr ha).mono (List.subset_cons_self _ _)

theorem alloc {x : α} (hx : ∀ b ∈ refs x, Reach refs s roots b) :
    Closed refs (s.next :: roots) (s.alloc x) := by
  intro a ha
  rcases (h.reach_alloc hx).mp ha with rfl | ha
  · rw [Store.alloc_get_self]
    rfl
  · rw [h.keeps_alloc x a ha]
    exact h a ha

end Closed

end Couv
