import Mathlib.Data.List.Nodup

/-! Intrusive doubly linked rings. Every cell carries its two links; a ring is
entered through a root cell that carries no data. -/
namespace Couv

/-- The links of all cells. -/
structure Links (α : Type*) where
  prev : α → α
  next : α → α

namespace Links
variable {α : Type*} [DecidableEq α]

def setPrev (L : Links α) (x y : α) : Links α :=
  { L with prev := fun z => if z = x then y else L.prev z }

def setNext (L : Links α) (x y : α) : Links α :=
  { L with next := fun z => if z = x then y else L.next z }

@[simp] theorem setPrev_prev (L : Links α) (x y z : α) :
    (L.setPrev x y).prev z = if z = x then y else L.prev z := rfl

@[simp] theorem setPrev_next (L : Links α) (x y z : α) : (L.setPrev x y).next z = L.next z := rfl

@[simp] theorem setNext_prev (L : Links α) (x y z : α) : (L.setNext x y).prev z = L.prev z := rfl

@[simp] theorem setNext_next (L : Links α) (x y z : α) :
    (L.setNext x y).next z = if z = x then y else L.next z := rfl

/-- Following `next` from `a` passes exactly the cells `xs` before `b`, and `prev`
leads back. -/
def Segment (L : Links α) : α → List α → α → Prop
  | a, [], b => L.next a = b ∧ L.prev b = a
  | a, x :: xs, b => L.next a = x ∧ L.prev x = a ∧ Segment L x xs b

/-- The ring rooted at `h` holds exactly the cells `xs`, in this order. -/
structure IsRing (L : Links α) (h : α) (xs : List α) : Prop where
  segment : L.Segment h xs h
  nodup : (h :: xs).Nodup

variable {L L' : Links α}

omit [DecidableEq α] in
theorem segment_append (a y b : α) (xs ys : List α) :
    L.Segment a (xs ++ y :: ys) b ↔ L.Segment a xs y ∧ L.Segment y ys b := by
  induction xs generalizing a with
  | nil => simp only [List.nil_append, Segment, and_assoc]
  | cons x xs ih => simp only [List.cons_append, Segment, ih, and_assoc]

omit [DecidableEq α] in
/-- A segment depends only on the links it follows. -/
theorem segment_congr (a b : α) (xs : List α)
    (hnext : ∀ z ∈ a :: xs, L'.next z = L.next z)
    (hprev : ∀ z ∈ xs ++ [b], L'.prev z = L.prev z) (h : L.Segment a xs b) :
    L'.Segment a xs b := by
  induction xs generalizing a with
  | nil => exact ⟨(hnext a (by simp)).trans h.1, (hprev b (by simp)).trans h.2⟩
  | cons x xs ih =>
    refine ⟨(hnext a (by simp)).trans h.1, (hprev x (by simp)).trans h.2.1, ?_⟩
    apply ih x
    · exact fun z hz => hnext z (List.mem_cons_of_mem a hz)
    · exact fun z hz => hprev z (List.mem_cons_of_mem x hz)
    · exact h.2.2

omit [DecidableEq α] in
/-- A ring is kept by every change to links of other cells. -/
theorem isRing_congr (h : α) (xs : List α) (hnext : ∀ z ∈ h :: xs, L'.next z = L.next z)
    (hprev : ∀ z ∈ h :: xs, L'.prev z = L.prev z) (hr : L.IsRing h xs) : L'.IsRing h xs := by
  refine ⟨segment_congr h h xs hnext ?_ hr.segment, hr.nodup⟩
  intro z hz
  apply hprev z
  simpa [or_comm] using hz

omit [DecidableEq α] in
theorem isRing_nil (h : α) (hn : L.next h = h) (hp : L.prev h = h) : L.IsRing h [] :=
  ⟨⟨hn, hp⟩, List.nodup_singleton h⟩

omit [DecidableEq α] in
/-- The emptiness test on the root decides whether the ring holds a cell. -/
theorem isRing_prev_eq_root_iff {h : α} {xs : List α} (hr : L.IsRing h xs) :
    h = L.prev h ↔ xs = [] := by
  constructor
  · intro he
    rcases List.eq_nil_or_concat xs with hnil | ⟨ys, l, rfl⟩
    · exact hnil
    · have hs := hr.segment
      rw [List.concat_eq_append, segment_append] at hs
      have hl : l = h := hs.2.2.symm.trans he.symm
      have hn := (List.nodup_cons.mp hr.nodup).1
      exact absurd (by simp [hl]) hn
  · rintro rfl
    exact hr.segment.2.symm

omit [DecidableEq α] in
theorem isRing_next_root {h x : α} {xs : List α} (hr : L.IsRing h (x :: xs)) : L.next h = x :=
  hr.segment.1

/-- Splice a new cell `x` in before the root. -/
def insertTail (L : Links α) (h x : α) : Links α :=
  let L := L.setPrev x (L.prev h)
  let L := L.setNext (L.prev x) x
  let L := L.setNext x h
  L.setPrev h x

theorem insertTail_prev_ne {h x z : α} (hx : z ≠ x) (hh : z ≠ h) :
    (L.insertTail h x).prev z = L.prev z := by
  simp [insertTail, hx, hh]

theorem insertTail_next_ne {h x z : α} (hx : z ≠ x) (hl : z ≠ L.prev h) :
    (L.insertTail h x).next z = L.next z := by
  simp [insertTail, hx, hl]

theorem insertTail_isRing {h x : α} {xs : List α} (hr : L.IsRing h xs) (hxh : x ≠ h)
    (hxs : x ∉ xs) : (L.insertTail h x).IsRing h (xs ++ [x]) := by
  have hnd : (h :: (xs ++ [x])).Nodup := by
    have h1 := hr.nodup
    rw [← List.cons_append, List.nodup_append_comm, List.singleton_append, List.nodup_cons]
    exact ⟨by simp [hxh, hxs], h1⟩
  refine ⟨?_, hnd⟩
  rw [segment_append]
  -- the old last cell, or the root itself in an empty ring, now precedes `x`
  have hlast : (L.insertTail h x).Segment x [] h := by
    constructor <;> simp [insertTail]
  refine ⟨?_, hlast⟩
  -- the cells before `x` keep their links, except the last one
  rcases List.eq_nil_or_concat xs with rfl | ⟨ys, l, rfl⟩
  · have hp : L.prev h = h := hr.segment.2
    constructor <;> simp [insertTail, hp, hxh, hxh.symm]
  · rw [List.concat_eq_append] at *
    obtain ⟨hs, -, hpl⟩ := (segment_append h l h ys []).mp hr.segment
    have hnd' := hr.nodup
    simp only [List.nodup_cons, List.mem_append, List.mem_singleton, not_or,
      List.nodup_append, List.nodup_nil] at hnd' hxs
    have hxl : l ≠ x := fun he => hxs.2 he.symm
    rw [segment_append]
    constructor
    · apply segment_congr h l ys _ _ hs
      · intro z hz
        apply insertTail_next_ne
        · rintro rfl; rcases List.mem_cons.mp hz with hz | hz
          · exact hxh hz
          · exact hxs.1 hz
        · rw [hpl]; rintro rfl; rcases List.mem_cons.mp hz with hz | hz
          · exact hnd'.1.2 hz.symm
          · exact hnd'.2.2.2 z hz z (by simp) rfl
      · intro z hz
        rcases List.mem_append.mp hz with hz | hz
        · exact insertTail_prev_ne (fun he => hxs.1 (he ▸ hz)) (fun he => hnd'.1.1 (he ▸ hz))
        · obtain rfl := List.mem_singleton.mp hz
          exact insertTail_prev_ne hxl (fun he => hnd'.1.2 he.symm)
    · constructor <;> simp [insertTail, hpl, hxl, hxh]

/-- Splicing into one ring leaves every ring without its cells as it was. -/
theorem insertTail_isRing_other {h x k : α} {xs ys : List α} (hr : L.IsRing h xs)
    (hk : L.IsRing k ys) (hd : ∀ z ∈ k :: ys, z ≠ x ∧ z ∉ h :: xs) :
    (L.insertTail h x).IsRing k ys := by
  have hp : L.prev h ∈ h :: xs := by
    rcases List.eq_nil_or_concat xs with rfl | ⟨zs, l, rfl⟩
    · rw [hr.segment.2]; simp
    · have hs := hr.segment
      rw [List.concat_eq_append, segment_append] at hs
      rw [hs.2.2]
      simp
  apply isRing_congr k ys _ _ hk
  · intro z hz
    exact insertTail_next_ne (hd z hz).1 (fun he => (hd z hz).2 (he ▸ hp))
  · intro z hz
    exact insertTail_prev_ne (hd z hz).1 (fun he => (hd z hz).2 (by simp [he]))

/-- Take `x` out of the ring it is in. -/
def remove (L : Links α) (x : α) : Links α :=
  let L := L.setPrev (L.next x) (L.prev x)
  L.setNext (L.prev x) (L.next x)

/-- Removing the head leaves the rest, in order. -/
theorem remove_head_isRing {h x : α} {xs : List α} (hr : L.IsRing h (x :: xs)) :
    (L.remove x).IsRing h xs := by
  obtain ⟨-, hpx, hs⟩ := hr.segment
  have hnd := hr.nodup
  simp only [List.nodup_cons, List.mem_cons, not_or] at hnd
  refine ⟨?_, by simp [hnd]⟩
  -- the root and the cell after `x` now point to each other
  cases xs with
  | nil =>
    have hnx : L.next x = h := hs.1
    constructor <;> simp [remove, hnx, hpx, Ne.symm hnd.1.1]
  | cons y ys =>
    obtain ⟨hnx, -, hrest⟩ := hs
    simp only [List.mem_cons, not_or, List.nodup_cons] at hnd
    refine ⟨by simp [remove, hnx, hpx], by simp [remove, hnx, hpx], ?_⟩
    apply segment_congr y h ys _ _ hrest
    · intro z hz
      have hzh : z ≠ h := by
        rintro rfl
        rcases List.mem_cons.mp hz with hz | hz
        · exact hnd.1.2.1 hz
        · exact hnd.1.2.2 hz
      simp [remove, hnx, hpx, hzh]
    · intro z hz
      have hzy : z ≠ y := by
        rintro rfl
        rcases List.mem_append.mp hz with hz | hz
        · exact hnd.2.2.1 hz
        · exact hnd.1.2.1 (List.mem_singleton.mp hz).symm
      simp [remove, hnx, hzy]

theorem remove_head_isRing_other {h x k : α} {xs ys : List α} (hr : L.IsRing h (x :: xs))
    (hk : L.IsRing k ys) (hd : ∀ z ∈ k :: ys, z ∉ h :: x :: xs) : (L.remove x).IsRing k ys := by
  obtain ⟨-, hpx, hs⟩ := hr.segment
  -- remove writes to h and to the node behind x, which are both in the first ring
  have hnext : L.next x ∈ h :: xs := by
    cases xs with
    | nil => rw [hs.1]; simp
    | cons y ys => rw [hs.1]; simp
  have hxh : x ≠ L.next x := by
    have hnd := hr.nodup
    simp only [List.nodup_cons, List.mem_cons, not_or] at hnd
    intro he
    rw [← he] at hnext
    rcases List.mem_cons.mp hnext with hz | hz
    · exact hnd.1.1 hz.symm
    · exact hnd.2.1 hz
  apply isRing_congr k ys _ _ hk
  · intro z hz
    have hzh : z ≠ h := fun he => hd z hz (by simp [he])
    simp [remove, hpx, hzh, hxh]
  · intro z hz
    have hzn : z ≠ L.next x := fun he => by
      have := he ▸ hnext
      exact hd z hz (by rcases List.mem_cons.mp this with h | h <;> simp [h])
    simp [remove, hzn]

end Links
end Couv
