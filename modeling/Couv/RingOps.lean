import Couv.Ring
import Mathlib.Logic.Function.Basic

/-! Many rings in one set of links, and what the operations on them do to the lists they hold. -/
namespace Couv
namespace Links
variable {α : Type*} [DecidableEq α] {L L' : Links α}

/-! A ring seen from another of its cells. -/

omit [DecidableEq α] in
theorem isRing_rotate (h c : α) (ys zs : List α) :
    L.IsRing h (ys ++ c :: zs) ↔ L.IsRing c (zs ++ h :: ys) := by
  have hperm : (h :: (ys ++ c :: zs)).Perm (c :: (zs ++ h :: ys)) := by
    rw [← List.cons_append, ← List.cons_append]
    exact List.perm_append_comm
  constructor
  · rintro ⟨hs, hnd⟩
    rw [segment_append] at hs
    exact ⟨(segment_append c h c zs ys).mpr hs.symm, hperm.nodup hnd⟩
  · rintro ⟨hs, hnd⟩
    rw [segment_append] at hs
    exact ⟨(segment_append h c h ys zs).mpr hs.symm, hperm.symm.nodup hnd⟩

omit [DecidableEq α] in
/-- The last link of a segment comes from one of its cells. -/
theorem segment_end {a b : α} {xs : List α} (hs : L.Segment a xs b) : L.prev b ∈ a :: xs := by
  induction xs generalizing a with
  | nil => exact List.mem_singleton.mpr hs.2
  | cons x xs ih => exact List.mem_cons_of_mem a (ih hs.2.2)

omit [DecidableEq α] in
/-- A segment that is made to lead elsewhere. -/
theorem segment_relink {a b c : α} {xs : List α} (hs : L.Segment a xs b)
    (hnd : (a :: xs).Nodup) (hnext : ∀ z ∈ a :: xs, z ≠ L.prev b → L'.next z = L.next z)
    (hprev : ∀ z ∈ xs, L'.prev z = L.prev z) (hl : L'.next (L.prev b) = c)
    (hc : L'.prev c = L.prev b) : L'.Segment a xs c := by
  induction xs generalizing a with
  | nil =>
    obtain ⟨-, hp⟩ := hs
    rw [hp] at hl hc
    exact ⟨hl, hc⟩
  | cons x xs ih =>
    obtain ⟨hn, hp, hs⟩ := hs
    have ha : a ≠ L.prev b := by
      rintro rfl
      exact (List.nodup_cons.mp hnd).1 (segment_end hs)
    refine ⟨(hnext a List.mem_cons_self ha).trans hn, (hprev x List.mem_cons_self).trans hp, ?_⟩
    apply ih hs (List.nodup_cons.mp hnd).2
    · exact fun z hz => hnext z (List.mem_cons_of_mem a hz)
    · exact fun z hz => hprev z (List.mem_cons_of_mem x hz)

omit [DecidableEq α] in
theorem isRing_prev_mem {h : α} {xs : List α} (hr : L.IsRing h xs) : L.prev h ∈ h :: xs :=
  segment_end hr.segment

omit [DecidableEq α] in
theorem isRing_next_mem {h : α} {xs : List α} (hr : L.IsRing h xs) : L.next h ∈ h :: xs := by
  cases xs with
  | nil => exact List.mem_singleton.mpr hr.segment.1
  | cons x xs => exact List.mem_cons_of_mem h (hr.segment.1 ▸ List.mem_cons_self)

/-! The operations. -/

def init (L : Links α) (q : α) : Links α :=
  let L := L.setPrev q q
  L.setNext q q

/-- Splice a new cell `x` in behind `h`. -/
def insertHead (L : Links α) (h x : α) : Links α :=
  let L := L.setNext x (L.next h)
  let L := L.setPrev (L.next x) x
  let L := L.setPrev x h
  L.setNext h x

/-- Give the cells of `h` from `q` on to the root `n`. -/
def split (L : Links α) (h q n : α) : Links α :=
  let L := L.setPrev n (L.prev h)
  let L := L.setNext (L.prev n) n
  let L := L.setNext n q
  let L := L.setPrev h (L.prev q)
  let L := L.setNext (L.prev h) h
  L.setPrev q n

/-- Put the cells of `n` behind those of `h`; `n` is no root any more. -/
def add (L : Links α) (h n : α) : Links α :=
  let L := L.setNext (L.prev h) (L.next n)
  let L := L.setPrev (L.next n) (L.prev h)
  let L := L.setPrev h (L.prev n)
  L.setNext (L.prev h) h

/-- Behind a cell is before the next one. -/
theorem insertHead_eq {h x : α} (hp : L.prev (L.next h) = h) (hxh : x ≠ h) (hxn : x ≠ L.next h) :
    L.insertHead h x = L.insertTail (L.next h) x := by
  unfold insertHead insertTail setPrev setNext
  simp only [Links.mk.injEq, if_true, hp]
  constructor
  · funext z
    by_cases h1 : z = x
    · simp only [h1, if_true, if_neg hxn]
    · simp only [h1, if_false]
  · funext z
    by_cases h1 : z = h
    · simp only [h1, if_true, if_neg hxh.symm]
    · simp only [h1, if_false]

theorem insertHead_isRing {h x : α} {xs : List α} (hr : L.IsRing h xs) (hx : x ∉ h :: xs) :
    (L.insertHead h x).IsRing h (x :: xs) := by
  have hxh : x ≠ h := fun he => hx (he ▸ List.mem_cons_self)
  cases xs with
  | nil =>
    obtain ⟨hn, hp⟩ := hr.segment
    rw [insertHead_eq (by rw [hn, hp]) hxh (by rwa [hn]), hn]
    exact insertTail_isRing hr hxh List.not_mem_nil
  | cons y ys =>
    obtain ⟨hn, hp, -⟩ := hr.segment
    have hxy : x ≠ y := fun he => hx (he ▸ List.mem_cons_of_mem h List.mem_cons_self)
    rw [insertHead_eq (by rw [hn, hp]) hxh (by rwa [hn]), hn]
    -- the ring from its first cell on, and back
    have hrot : L.IsRing y (ys ++ [h]) := (isRing_rotate h y [] ys).mp hr
    have hmem : x ∉ ys ++ [h] := by
      intro hz
      rcases List.mem_append.mp hz with hz | hz
      · exact hx (List.mem_cons_of_mem h (List.mem_cons_of_mem y hz))
      · exact hxh (List.mem_singleton.mp hz)
    have hins := insertTail_isRing hrot hxy hmem
    rw [List.append_assoc] at hins
    exact (isRing_rotate h y [x] ys).mpr hins

/-- Any cell can be taken out. -/
theorem remove_isRing {h x : α} {ys zs : List α} (hr : L.IsRing h (ys ++ x :: zs)) :
    (L.remove x).IsRing h (ys ++ zs) := by
  rcases List.eq_nil_or_concat ys with rfl | ⟨ys, p, rfl⟩
  · exact remove_head_isRing hr
  · -- seen from the cell before it, `x` is the head
    rw [List.concat_eq_append, List.append_assoc, List.singleton_append] at hr ⊢
    have hhead := remove_head_isRing ((isRing_rotate h p ys (x :: zs)).mp hr)
    exact (isRing_rotate h p ys zs).mpr hhead

section
variable {h q n : α} {ys zs : List α}

theorem split_next (hqn : q ≠ n) (z : α) : (L.split h q n).next z =
    if z = L.prev q then h else if z = n then q else if z = L.prev h then n else L.next z := by
  simp only [split, setPrev, setNext, if_true, if_neg hqn]

theorem split_prev (hqn : q ≠ n) (z : α) : (L.split h q n).prev z =
    if z = q then n else if z = h then L.prev q else if z = n then L.prev h else L.prev z := by
  simp only [split, setPrev, setNext, if_true, if_neg hqn]

/-- The cells from `q` on go to the new root. -/
theorem split_isRing (hr : L.IsRing h (ys ++ q :: zs)) (hn : n ∉ h :: (ys ++ q :: zs)) :
    (L.split h q n).IsRing h ys ∧ (L.split h q n).IsRing n (q :: zs) := by
  obtain ⟨hys, hzs⟩ := (segment_append h q h ys zs).mp hr.segment
  rw [← List.cons_append, List.mem_append, not_or] at hn
  obtain ⟨hny, hnz⟩ := hn
  have hnd : ((h :: ys) ++ (q :: zs)).Nodup := hr.nodup
  obtain ⟨hndy, hndz, hdis⟩ := List.nodup_append.mp hnd
  have hp := segment_end hys
  have hl := segment_end hzs
  have hqn : q ≠ n := fun he => hnz (he ▸ List.mem_cons_self)
  have hh : h ∈ h :: ys := List.mem_cons_self
  have hq : q ∈ q :: zs := List.mem_cons_self
  have hy {z : α} (hz : z ∈ h :: ys) : z ≠ n := fun he => hny (he ▸ hz)
  have hz {z : α} (hz : z ∈ q :: zs) : z ≠ n := fun he => hnz (he ▸ hz)
  refine ⟨⟨segment_relink hys hndy ?_ ?_ ?_ ?_, hndy⟩,
    ⟨⟨?_, ?_, segment_relink hzs hndz ?_ ?_ ?_ ?_⟩, List.nodup_cons.mpr ⟨hnz, hndz⟩⟩⟩
  -- what the old root keeps
  · intro z hzy hzp
    rw [split_next hqn, if_neg hzp, if_neg (hy hzy), if_neg (hdis z hzy _ hl)]
  · intro z hzy
    have hzh : z ≠ h := fun he => (List.nodup_cons.mp hndy).1 (he ▸ hzy)
    have hzy' := List.mem_cons_of_mem h hzy
    rw [split_prev hqn, if_neg (hdis z hzy' q hq), if_neg hzh, if_neg (hy hzy')]
  · rw [split_next hqn, if_pos rfl]
  · rw [split_prev hqn, if_neg (hdis h hh q hq), if_pos rfl]
  -- what the new one gets
  · rw [split_next hqn, if_neg (hy hp).symm, if_pos rfl]
  · rw [split_prev hqn, if_pos rfl]
  · intro z hzz hzl
    rw [split_next hqn, if_neg (hdis _ hp z hzz).symm, if_neg (hz hzz), if_neg hzl]
  · intro z hzz
    have hzq : z ≠ q := fun he => (List.nodup_cons.mp hndz).1 (he ▸ hzz)
    have hzz' := List.mem_cons_of_mem q hzz
    rw [split_prev hqn, if_neg hzq, if_neg (hdis h hh z hzz').symm, if_neg (hz hzz')]
  · rw [split_next hqn, if_neg (hdis _ hp _ hl).symm, if_neg (hz hl), if_pos rfl]
  · rw [split_prev hqn, if_neg hqn.symm, if_neg (hy hh).symm, if_pos rfl]

theorem add_next (hhn : L.prev h ≠ n) (z : α) : (L.add h n).next z =
    if z = (if n = L.next n then L.prev h else L.prev n) then h
    else if z = L.prev h then L.next n else L.next z := by
  simp only [add, setPrev, setNext, if_true, if_neg hhn.symm]

theorem add_prev (hhn : L.prev h ≠ n) (hh : h ≠ L.next n) (z : α) : (L.add h n).prev z =
    if z = h then (if n = L.next n then L.prev h else L.prev n)
    else if z = L.next n then L.prev h else L.prev z := by
  simp only [add, setPrev, setNext, if_true, if_neg hhn.symm, if_neg hh]

/-- The cells of `n` come behind those of `h`, also when there are none. -/
theorem add_isRing (hr : L.IsRing h ys) (hr' : L.IsRing n zs)
    (hdis : ∀ a ∈ h :: ys, ∀ b ∈ n :: zs, a ≠ b) : (L.add h n).IsRing h (ys ++ zs) := by
  have hl := isRing_prev_mem hr
  have hhn : L.prev h ≠ n := hdis _ hl n List.mem_cons_self
  have hhf : h ≠ L.next n := hdis h List.mem_cons_self _ (isRing_next_mem hr')
  have hnd : ((h :: ys) ++ zs).Nodup := by
    refine List.nodup_append.mpr ⟨hr.nodup, (List.nodup_cons.mp hr'.nodup).2, ?_⟩
    exact fun a ha b hb => hdis a ha b (List.mem_cons_of_mem n hb)
  have hndy := hr.nodup
  have hhy (z : α) (hz : z ∈ ys) : z ≠ h := fun he => (List.nodup_cons.mp hndy).1 (he ▸ hz)
  refine ⟨?_, hnd⟩
  cases zs with
  | nil =>
    -- the last cell is linked back to the root
    obtain ⟨hf, -⟩ := hr'.segment
    rw [List.append_nil]
    refine segment_relink hr.segment hndy ?_ ?_ ?_ ?_
    · intro z _ hzl
      rw [add_next hhn, if_pos hf.symm, if_neg hzl, if_neg hzl]
    · intro z hz
      have hzn : z ≠ L.next n := hf.symm ▸ hdis z (List.mem_cons_of_mem h hz) n List.mem_cons_self
      rw [add_prev hhn hhf, if_neg (hhy z hz), if_neg hzn]
    · rw [add_next hhn, if_pos hf.symm, if_pos rfl]
    · rw [add_prev hhn hhf, if_pos rfl, if_pos hf.symm]
  | cons f zs =>
    obtain ⟨hf, -, hzs⟩ := hr'.segment
    have hndz := (List.nodup_cons.mp hr'.nodup).2
    have hnf : n ≠ L.next n := by
      rw [hf]
      exact fun he => (List.nodup_cons.mp hr'.nodup).1 (he ▸ List.mem_cons_self)
    have hl' := segment_end hzs
    rw [segment_append]
    refine ⟨segment_relink hr.segment hndy ?_ ?_ ?_ ?_, segment_relink hzs hndz ?_ ?_ ?_ ?_⟩
    · intro z hz hzl
      rw [add_next hhn, if_neg hnf, if_neg (hdis z hz _ (List.mem_cons_of_mem n hl')), if_neg hzl]
    · intro z hz
      have hzf := hdis z (List.mem_cons_of_mem h hz) _ (isRing_next_mem hr')
      rw [add_prev hhn hhf, if_neg (hhy z hz), if_neg hzf]
    · rw [add_next hhn, if_neg hnf, if_neg (hdis _ hl _ (List.mem_cons_of_mem n hl')), if_pos rfl,
        hf]
    · rw [add_prev hhn hhf, if_neg (hf ▸ hhf.symm), if_pos hf.symm]
    · intro z hz hzl
      rw [add_next hhn, if_neg hnf, if_neg hzl,
        if_neg (hdis _ hl z (List.mem_cons_of_mem n hz)).symm]
    · intro z hz
      have hzh := (hdis h List.mem_cons_self z
        (List.mem_cons_of_mem n (List.mem_cons_of_mem f hz))).symm
      have hzf : z ≠ L.next n := hf ▸ fun he => (List.nodup_cons.mp hndz).1 (he ▸ hz)
      rw [add_prev hhn hhf, if_neg hzh, if_neg hzf]
    · rw [add_next hhn, if_neg hnf, if_pos rfl]
    · rw [add_prev hhn hhf, if_pos rfl, if_neg hnf]

end

/-! Runs. -/

/-- The roots, and the cells that their rings hold. -/
abbrev Rings (α : Type*) := α → Option (List α)

/-- A cell of no ring. -/
def Fresh (Q : Rings α) (x : α) : Prop := ∀ h xs, Q h = some xs → x ∉ h :: xs

inductive RingOp (α : Type*)
  | init (q : α)
  | insertHead (h x : α)
  | insertTail (h x : α)
  | remove (x : α)
  | split (h q n : α)
  | add (h n : α)

def exec (L : Links α) : RingOp α → Links α
  | .init q => L.init q
  | .insertHead h x => L.insertHead h x
  | .insertTail h x => L.insertTail h x
  | .remove x => L.remove x
  | .split h q n => L.split h q n
  | .add h n => L.add h n

/-- What an operation does to the lists. A cell can be inserted next to a root or to any other
cell of a ring. -/
inductive Act : Rings α → RingOp α → Rings α → Prop
  | init {Q : Rings α} {q : α} (hq : Fresh Q q) : Act Q (.init q) (Function.update Q q (some []))
  | insertHead {Q : Rings α} {h x : α} {xs : List α} (hQ : Q h = some xs) (hx : Fresh Q x) :
    Act Q (.insertHead h x) (Function.update Q h (some (x :: xs)))
  | insertAfter {Q : Rings α} {h c x : α} {ys zs : List α} (hQ : Q h = some (ys ++ c :: zs))
    (hx : Fresh Q x) :
    Act Q (.insertHead c x) (Function.update Q h (some (ys ++ c :: x :: zs)))
  | insertTail {Q : Rings α} {h x : α} {xs : List α} (hQ : Q h = some xs) (hx : Fresh Q x) :
    Act Q (.insertTail h x) (Function.update Q h (some (xs ++ [x])))
  | insertBefore {Q : Rings α} {h c x : α} {ys zs : List α} (hQ : Q h = some (ys ++ c :: zs))
    (hx : Fresh Q x) :
    Act Q (.insertTail c x) (Function.update Q h (some (ys ++ x :: c :: zs)))
  | remove {Q : Rings α} {h x : α} {ys zs : List α} (hQ : Q h = some (ys ++ x :: zs)) :
    Act Q (.remove x) (Function.update Q h (some (ys ++ zs)))
  | split {Q : Rings α} {h q n : α} {ys zs : List α} (hQ : Q h = some (ys ++ q :: zs))
    (hn : Fresh Q n) :
    Act Q (.split h q n) (Function.update (Function.update Q h (some ys)) n (some (q :: zs)))
  | add {Q : Rings α} {h n : α} {ys zs : List α} (hne : h ≠ n) (hQ : Q h = some ys)
    (hQ' : Q n = some zs) :
    Act Q (.add h n) (Function.update (Function.update Q h (some (ys ++ zs))) n none)

/-- The links hold exactly these rings, and no two of them share a cell. -/
structure Holds (L : Links α) (Q : Rings α) : Prop where
  ring : ∀ h xs, Q h = some xs → L.IsRing h xs
  apart : ∀ h k xs ys, Q h = some xs → Q k = some ys → h ≠ k →
    ∀ a ∈ h :: xs, ∀ b ∈ k :: ys, a ≠ b

/-- Beyond the cells of `S` the links are as before. -/
def SameOff (L L' : Links α) (S : α → Prop) : Prop :=
  ∀ z, ¬S z → L'.next z = L.next z ∧ L'.prev z = L.prev z

section
variable {Q Q' : Rings α} {h : α} {xs : List α}

omit [DecidableEq α] in
theorem Fresh.not_root {x : α} (hx : Fresh Q x) : Q x = none := by
  cases hQ : Q x with
  | none => rfl
  | some xs => exact absurd List.mem_cons_self (hx x xs hQ)

omit [DecidableEq α] in
/-- Cells of different rings are different, so a cell of one ring is no other root. -/
theorem Holds.root_eq (hL : L.Holds Q) (hQ : Q h = some xs) {k : α} {ys : List α}
    (hk : Q k = some ys) (hmem : k ∈ h :: xs) : k = h := by
  by_contra hne
  exact hL.apart h k xs ys hQ hk (Ne.symm hne) k hmem k List.mem_cons_self rfl

omit [DecidableEq α] in
/-- New rings among the cells of `S`, which hold all the cells of the old ones that they
replace. -/
theorem Holds.relink (hL : L.Holds Q) {S : α → Prop} (hoff : L.SameOff L' S)
    (hkeep : ∀ k ys, Q' k = some ys → ¬S k → Q k = some ys ∧ ∀ z ∈ ys, ¬S z)
    (hnew : ∀ k ys, Q' k = some ys → S k → L'.IsRing k ys ∧ ∀ z ∈ ys, S z)
    (hapart : ∀ h k xs ys, Q' h = some xs → Q' k = some ys → h ≠ k → S h → S k →
      ∀ a ∈ h :: xs, ∀ b ∈ k :: ys, a ≠ b) : L'.Holds Q' := by
  have hin {k : α} {ys : List α} (hk : Q' k = some ys) (hS : S k) : ∀ z ∈ k :: ys, S z :=
    List.forall_mem_cons.mpr ⟨hS, (hnew k ys hk hS).2⟩
  have hout {k : α} {ys : List α} (hk : Q' k = some ys) (hS : ¬S k) : ∀ z ∈ k :: ys, ¬S z :=
    List.forall_mem_cons.mpr ⟨hS, (hkeep k ys hk hS).2⟩
  constructor
  · intro k ys hk
    by_cases hS : S k
    · exact (hnew k ys hk hS).1
    · exact isRing_congr k ys (fun z hz => (hoff z (hout hk hS z hz)).1)
        (fun z hz => (hoff z (hout hk hS z hz)).2) (hL.ring k ys (hkeep k ys hk hS).1)
  · intro k k' ys ys' hk hk' hne
    by_cases hS : S k <;> by_cases hS' : S k'
    · exact hapart k k' ys ys' hk hk' hne hS hS'
    · rintro a ha b hb rfl
      exact hout hk' hS' a hb (hin hk hS a ha)
    · rintro a ha b hb rfl
      exact hout hk hS a ha (hin hk' hS' a hb)
    · exact hL.apart k k' ys ys' (hkeep k ys hk hS).1 (hkeep k' ys' hk' hS').1 hne

/-- One ring changes, and may take up fresh cells. -/
theorem Holds.update (hL : L.Holds Q) (hQ : Q h = some xs) {xs' : List α}
    (hr : L'.IsRing h xs') (hcells : ∀ z ∈ xs', z ∈ h :: xs ∨ Fresh Q z)
    (hoff : L.SameOff L' fun z => z ∈ h :: xs ∨ z ∈ xs') :
    L'.Holds (Function.update Q h (some xs')) := by
  have hroot {k : α} {ys : List α} (hk : Function.update Q h (some xs') k = some ys)
      (hS : k ∈ h :: xs ∨ k ∈ xs') : k = h := by
    by_contra hne
    rw [Function.update_of_ne hne] at hk
    rcases hS.elim .inl (hcells k) with hmem | hfresh
    · exact hne (hL.root_eq hQ hk hmem)
    · rw [hfresh.not_root] at hk
      cases hk
  refine hL.relink hoff ?_ ?_ ?_
  · intro k ys hk hS
    have hne : k ≠ h := fun he => hS (.inl (he ▸ List.mem_cons_self))
    rw [Function.update_of_ne hne] at hk
    refine ⟨hk, ?_⟩
    intro z hz hS'
    rcases hS'.elim .inl (hcells z) with hmem | hfresh
    · exact hL.apart h k xs ys hQ hk hne.symm z hmem z (List.mem_cons_of_mem k hz) rfl
    · exact hfresh k ys hk (List.mem_cons_of_mem k hz)
  · intro k ys hk hS
    obtain rfl := hroot hk hS
    rw [Function.update_self] at hk
    obtain rfl := Option.some.inj hk
    exact ⟨hr, fun z hz => .inr hz⟩
  · intro k k' ys ys' hk hk' hne hS hS'
    exact absurd ((hroot hk hS).trans (hroot hk' hS').symm) hne

end

/-! The cells whose links an operation changes. -/

section
variable {h x : α} {xs ys zs : List α}

omit [DecidableEq α] in
/-- The neighbours of a cell are in its ring. -/
theorem isRing_neighbours (hr : L.IsRing h (ys ++ x :: zs)) :
    L.prev x ∈ h :: (ys ++ x :: zs) ∧ L.next x ∈ h :: (ys ++ x :: zs) := by
  have hrot := (isRing_rotate h x ys zs).mp hr
  have hmem : ∀ z ∈ x :: (zs ++ h :: ys), z ∈ h :: (ys ++ x :: zs) := by
    simp only [List.mem_cons, List.mem_append]
    tauto
  exact ⟨hmem _ (isRing_prev_mem hrot), hmem _ (isRing_next_mem hrot)⟩

theorem insertTail_off (hr : L.IsRing h xs) :
    L.SameOff (L.insertTail h x) fun z => z ∈ h :: xs ∨ z = x := by
  intro z hz
  rw [not_or] at hz
  have hzh : z ≠ h := fun he => hz.1 (he ▸ List.mem_cons_self)
  have hzl : z ≠ L.prev h := fun he => hz.1 (he ▸ isRing_prev_mem hr)
  exact ⟨insertTail_next_ne hz.2 hzl, insertTail_prev_ne hz.2 hzh⟩

theorem insertHead_off (hr : L.IsRing h xs) :
    L.SameOff (L.insertHead h x) fun z => z ∈ h :: xs ∨ z = x := by
  intro z hz
  rw [not_or] at hz
  have hzh : z ≠ h := fun he => hz.1 (he ▸ List.mem_cons_self)
  have hzn : z ≠ L.next h := fun he => hz.1 (he ▸ isRing_next_mem hr)
  simp only [insertHead, setPrev, setNext, if_true, if_neg hz.2, if_neg hzh, if_neg hzn, and_self]

theorem remove_off (hr : L.IsRing h (ys ++ x :: zs)) :
    L.SameOff (L.remove x) fun z => z ∈ h :: (ys ++ x :: zs) := by
  intro z hz
  obtain ⟨hp, hn⟩ := isRing_neighbours hr
  have hzp : z ≠ L.prev x := fun he => hz (he ▸ hp)
  have hzn : z ≠ L.next x := fun he => hz (he ▸ hn)
  have hxn : x ≠ L.next x := by
    -- the ring from `x` on holds the root at least
    have hrot := (isRing_rotate h x ys zs).mp hr
    obtain ⟨y, rest, hrest⟩ : ∃ y rest, zs ++ h :: ys = y :: rest := by
      cases zs <;> exact ⟨_, _, rfl⟩
    rw [hrest] at hrot
    rw [isRing_next_root hrot]
    exact fun he => (List.nodup_cons.mp hrot.nodup).1 (he ▸ List.mem_cons_self)
  simp only [remove, setPrev, setNext, if_neg hxn, if_neg hzp, if_neg hzn, and_self]

theorem split_off {q n : α} (hr : L.IsRing h (ys ++ q :: zs)) (hn : n ∉ h :: (ys ++ q :: zs)) :
    L.SameOff (L.split h q n) fun z => z ∈ h :: (ys ++ q :: zs) ∨ z = n := by
  intro z hz
  rw [not_or] at hz
  have hq : q ∈ h :: (ys ++ q :: zs) := by simp
  have hqn : q ≠ n := fun he => hn (he ▸ hq)
  have hzq : z ≠ q := fun he => hz.1 (he ▸ hq)
  have hzh : z ≠ h := fun he => hz.1 (he ▸ List.mem_cons_self)
  have hzp : z ≠ L.prev q := fun he => hz.1 (he ▸ (isRing_neighbours hr).1)
  have hzl : z ≠ L.prev h := fun he => hz.1 (he ▸ isRing_prev_mem hr)
  rw [split_next hqn, split_prev hqn, if_neg hzp, if_neg hz.2, if_neg hzl, if_neg hzq, if_neg hzh,
    if_neg hz.2]
  exact ⟨rfl, rfl⟩

theorem add_off {n : α} (hr : L.IsRing h ys) (hr' : L.IsRing n zs)
    (hdis : ∀ a ∈ h :: ys, ∀ b ∈ n :: zs, a ≠ b) :
    L.SameOff (L.add h n) fun z => z ∈ h :: ys ∨ z ∈ n :: zs := by
  intro z hz
  rw [not_or] at hz
  have hhn : L.prev h ≠ n := hdis _ (isRing_prev_mem hr) n List.mem_cons_self
  have hhf : h ≠ L.next n := hdis h List.mem_cons_self _ (isRing_next_mem hr')
  have hzh : z ≠ h := fun he => hz.1 (he ▸ List.mem_cons_self)
  have hzl : z ≠ L.prev h := fun he => hz.1 (he ▸ isRing_prev_mem hr)
  have hzl' : z ≠ L.prev n := fun he => hz.2 (he ▸ isRing_prev_mem hr')
  have hzf : z ≠ L.next n := fun he => hz.2 (he ▸ isRing_next_mem hr')
  have hzi : z ≠ if n = L.next n then L.prev h else L.prev n := by
    split
    · exact hzl
    · exact hzl'
  rw [add_next hhn, add_prev hhn hhf, if_neg hzi, if_neg hzl, if_neg hzh, if_neg hzf]
  exact ⟨rfl, rfl⟩

end

section
variable {Q : Rings α} {h x : α} {xs : List α}

omit [DecidableEq α] in
theorem SameOff.mono {S T : α → Prop} (h : L.SameOff L' S) (hST : ∀ z, S z → T z) :
    L.SameOff L' T := fun z hz => h z (fun hS => hz (hST z hS))

/-- A ring takes up one fresh cell. -/
theorem Holds.insert (hL : L.Holds Q) (hQ : Q h = some xs) (hx : Fresh Q x) {xs' : List α}
    (hr : L'.IsRing h xs') (hxs : ∀ z, z ∈ xs' ↔ z ∈ xs ∨ z = x)
    (hoff : L.SameOff L' fun z => z ∈ h :: xs ∨ z = x) :
    L'.Holds (Function.update Q h (some xs')) := by
  refine hL.update hQ hr ?_ (hoff.mono ?_)
  · intro z hz
    rcases (hxs z).mp hz with hz | rfl
    · exact .inl (List.mem_cons_of_mem h hz)
    · exact .inr hx
  · rintro z (hz | rfl)
    · exact .inl hz
    · exact .inr ((hxs z).mpr (.inr rfl))

omit [DecidableEq α] in
theorem mem_rotate {c z : α} {ys zs : List α} (hz : z ∈ c :: (zs ++ h :: ys)) :
    z ∈ h :: (ys ++ c :: zs) := by
  simp only [List.mem_cons, List.mem_append] at hz ⊢
  tauto

theorem Holds.init (hL : L.Holds Q) (hx : Fresh Q x) :
    (L.init x).Holds (Function.update Q x (some [])) := by
  refine hL.relink (S := fun z => z = x) ?_ ?_ ?_ ?_
  · intro z hz
    simp only [Links.init, setPrev, setNext, if_neg hz, and_self]
  · intro k ys hk hne
    rw [Function.update_of_ne hne] at hk
    exact ⟨hk, fun z hz hzx => hx k ys hk (hzx ▸ List.mem_cons_of_mem k hz)⟩
  · rintro k ys hk rfl
    rw [Function.update_self] at hk
    obtain rfl := Option.some.inj hk
    exact ⟨isRing_nil k (by simp [Links.init]) (by simp [Links.init]), List.forall_mem_nil _⟩
  · rintro k k' ys ys' - - hne rfl rfl
    exact absurd rfl hne

theorem Holds.insertAfter (hL : L.Holds Q) {c : α} {ys zs : List α}
    (hQ : Q h = some (ys ++ c :: zs)) (hx : Fresh Q x) :
    (L.insertHead c x).Holds (Function.update Q h (some (ys ++ c :: x :: zs))) := by
  have hrot := (isRing_rotate h c ys zs).mp (hL.ring _ _ hQ)
  have hmem : x ∉ c :: (zs ++ h :: ys) := fun hz => hx _ _ hQ (mem_rotate hz)
  have hr := (isRing_rotate h c ys (x :: zs)).mpr (insertHead_isRing hrot hmem)
  refine hL.insert hQ hx hr ?_ ((insertHead_off hrot).mono fun z => .imp_left mem_rotate)
  intro z
  simp only [List.mem_append, List.mem_cons]
  tauto

theorem Holds.insertBefore (hL : L.Holds Q) {c : α} {ys zs : List α}
    (hQ : Q h = some (ys ++ c :: zs)) (hx : Fresh Q x) :
    (L.insertTail c x).Holds (Function.update Q h (some (ys ++ x :: c :: zs))) := by
  have hrot := (isRing_rotate h c ys zs).mp (hL.ring _ _ hQ)
  have hmem : x ∉ c :: (zs ++ h :: ys) := fun hz => hx _ _ hQ (mem_rotate hz)
  rw [List.mem_cons, not_or] at hmem
  have hins := insertTail_isRing hrot hmem.1 hmem.2
  rw [List.append_assoc, List.cons_append] at hins
  have hr := (isRing_rotate h c (ys ++ [x]) zs).mpr hins
  rw [List.append_assoc, List.singleton_append] at hr
  refine hL.insert hQ hx hr ?_ ((insertTail_off hrot).mono fun z => .imp_left mem_rotate)
  intro z
  simp only [List.mem_append, List.mem_cons]
  tauto

/-- A split divides one ring between its root and a fresh one. -/
theorem Holds.split (hL : L.Holds Q) {q n : α} {ys zs : List α}
    (hQ : Q h = some (ys ++ q :: zs)) (hn : Fresh Q n) :
    (L.split h q n).Holds
      (Function.update (Function.update Q h (some ys)) n (some (q :: zs))) := by
  have hr := hL.ring _ _ hQ
  have hnh : h ≠ n := fun he => hn _ _ hQ (he ▸ List.mem_cons_self)
  obtain ⟨hry, hrz⟩ := split_isRing hr (hn _ _ hQ)
  have hnd : ((h :: ys) ++ (q :: zs)).Nodup := hr.nodup
  have hdis := (List.nodup_append.mp hnd).2.2
  have hny : n ∉ h :: ys := fun hz => hn _ _ hQ (List.mem_append_left (q :: zs) hz)
  -- a queue whose root the split has touched is one of the two halves
  have hroot {k : α} {xs : List α} (hk : Function.update (Function.update Q h (some ys)) n
      (some (q :: zs)) k = some xs) (hS : k ∈ h :: (ys ++ q :: zs) ∨ k = n) :
      (k = h ∧ xs = ys) ∨ (k = n ∧ xs = q :: zs) := by
    by_cases hkn : k = n
    · subst hkn
      rw [Function.update_self] at hk
      exact .inr ⟨rfl, (Option.some.inj hk).symm⟩
    rw [Function.update_of_ne hkn] at hk
    by_cases hkh : k = h
    · subst hkh
      rw [Function.update_self] at hk
      exact .inl ⟨rfl, (Option.some.inj hk).symm⟩
    rw [Function.update_of_ne hkh] at hk
    exact absurd (hL.root_eq hQ hk (hS.resolve_right hkn)) hkh
  -- the other queues, the rings of the halves, and that the halves are apart
  refine hL.relink (split_off hr (hn _ _ hQ)) ?_ ?_ ?_
  · intro k xs hk hS
    rw [not_or] at hS
    have hkh : k ≠ h := fun he => hS.1 (he ▸ List.mem_cons_self)
    rw [Function.update_of_ne hS.2, Function.update_of_ne hkh] at hk
    refine ⟨hk, ?_⟩
    rintro z hz (hmem | rfl)
    · exact hL.apart h k _ xs hQ hk hkh.symm z hmem z (List.mem_cons_of_mem k hz) rfl
    · exact hn k xs hk (List.mem_cons_of_mem k hz)
  · intro k xs hk hS
    obtain ⟨rfl, rfl⟩ | ⟨rfl, rfl⟩ := hroot hk hS
    · exact ⟨hry, fun z hz => .inl (List.mem_cons_of_mem k (List.mem_append_left _ hz))⟩
    · exact ⟨hrz, fun z hz => .inl (List.mem_cons_of_mem h (List.mem_append_right _ hz))⟩
  · intro k k' xs xs' hk hk' hne hS hS'
    obtain ⟨rfl, rfl⟩ | ⟨rfl, rfl⟩ := hroot hk hS <;>
      obtain ⟨rfl, rfl⟩ | ⟨rfl, rfl⟩ := hroot hk' hS'
    · exact absurd rfl hne
    · intro a ha b hb he
      rcases List.mem_cons.mp hb with rfl | hb
      · exact hny (he ▸ ha)
      · exact hdis a ha b hb he
    · intro a ha b hb he
      rcases List.mem_cons.mp ha with rfl | ha
      · exact hny (he ▸ hb)
      · exact hdis b hb a ha he.symm
    · exact absurd rfl hne

theorem Holds.add (hL : L.Holds Q) {n : α} {ys zs : List α} (hne : h ≠ n) (hQ : Q h = some ys)
    (hQ' : Q n = some zs) : (L.add h n).Holds
      (Function.update (Function.update Q h (some (ys ++ zs))) n none) := by
  have hdis := hL.apart h n ys zs hQ hQ' hne
  have hr := add_isRing (hL.ring _ _ hQ) (hL.ring _ _ hQ') hdis
  -- the root of the second queue holds no queue any more
  have hroot {k : α} {xs : List α} (hk : Function.update (Function.update Q h (some (ys ++ zs))) n
      none k = some xs) (hS : k ∈ h :: ys ∨ k ∈ n :: zs) : k = h ∧ xs = ys ++ zs := by
    have hkn : k ≠ n := by
      rintro rfl
      rw [Function.update_self] at hk
      cases hk
    rw [Function.update_of_ne hkn] at hk
    by_cases hkh : k = h
    · subst hkh
      rw [Function.update_self] at hk
      exact ⟨rfl, (Option.some.inj hk).symm⟩
    rw [Function.update_of_ne hkh] at hk
    exact absurd hS (not_or.mpr ⟨fun hz => hkh (hL.root_eq hQ hk hz),
      fun hz => hkn (hL.root_eq hQ' hk hz)⟩)
  refine hL.relink (add_off (hL.ring _ _ hQ) (hL.ring _ _ hQ') hdis) ?_ ?_ ?_
  · intro k xs hk hS
    rw [not_or] at hS
    have hkh : k ≠ h := fun he => hS.1 (he ▸ List.mem_cons_self)
    have hkn : k ≠ n := fun he => hS.2 (he ▸ List.mem_cons_self)
    rw [Function.update_of_ne hkn, Function.update_of_ne hkh] at hk
    refine ⟨hk, ?_⟩
    rintro z hz (hmem | hmem)
    · exact hL.apart h k ys xs hQ hk hkh.symm z hmem z (List.mem_cons_of_mem k hz) rfl
    · exact hL.apart n k zs xs hQ' hk hkn.symm z hmem z (List.mem_cons_of_mem k hz) rfl
  · intro k xs hk hS
    obtain ⟨rfl, rfl⟩ := hroot hk hS
    refine ⟨hr, fun z hz => ?_⟩
    exact (List.mem_append.mp hz).imp (List.mem_cons_of_mem k) (List.mem_cons_of_mem n)
  · intro k k' xs xs' hk hk' hne hS hS'
    exact absurd ((hroot hk hS).1.trans (hroot hk' hS').1.symm) hne

end

/-- Every operation does to the links what it does to the lists. -/
theorem Act.holds {Q Q' : Rings α} {o : RingOp α} (ha : Act Q o Q') (hL : L.Holds Q) :
    (L.exec o).Holds Q' := by
  cases ha with
  | init hq => exact hL.init hq
  | insertHead hQ hx =>
    have hr := hL.ring _ _ hQ
    refine hL.insert hQ hx (insertHead_isRing hr (hx _ _ hQ)) ?_ (insertHead_off hr)
    exact fun z => List.mem_cons.trans or_comm
  | insertAfter hQ hx => exact hL.insertAfter hQ hx
  | insertTail hQ hx =>
    have hr := hL.ring _ _ hQ
    have hmem := hx _ _ hQ
    rw [List.mem_cons, not_or] at hmem
    refine hL.insert hQ hx (insertTail_isRing hr hmem.1 hmem.2) ?_ (insertTail_off hr)
    exact fun z => List.mem_append.trans (or_congr_right List.mem_singleton)
  | insertBefore hQ hx => exact hL.insertBefore hQ hx
  | remove hQ =>
    have hr := hL.ring _ _ hQ
    have hcells {h x z : α} {ys zs : List α} (hz : z ∈ ys ++ zs) : z ∈ h :: (ys ++ x :: zs) := by
      simp only [List.mem_append, List.mem_cons] at hz ⊢
      tauto
    exact hL.update hQ (remove_isRing hr) (fun z hz => .inl (hcells hz))
      ((remove_off hr).mono fun z => .inl)
  | split hQ hn => exact hL.split hQ hn
  | add hne hQ hQ' => exact hL.add hne hQ hQ'

/-- What a sequence of operations does to the lists. -/
inductive Acts : Rings α → List (RingOp α) → Rings α → Prop
  | nil {Q : Rings α} : Acts Q [] Q
  | cons {Q Q' Q'' : Rings α} {o : RingOp α} {os : List (RingOp α)} (ha : Act Q o Q')
    (hs : Acts Q' os Q'') : Acts Q (o :: os) Q''

theorem Acts.holds {Q Q' : Rings α} {os : List (RingOp α)} (ha : Acts Q os Q') (hL : L.Holds Q) :
    (os.foldl exec L).Holds Q' := by
  induction ha generalizing L with
  | nil => exact hL
  | cons ha _ ih => exact ih (ha.holds hL)

end Links
end Couv
