import Couv.Store

/-! The C heap of one call: blocks from malloc, and which of them have been freed. Programs on
it may raise, and fault when they touch a block that is not live. -/
namespace Couv

structure CHeap where
  live : Store Unit
  /-- the blocks passed to free, the last one first -/
  freed : List ℕ

namespace CHeap

def empty : CHeap := ⟨.empty, []⟩

def alloc (h : CHeap) : CHeap := { h with live := h.live.alloc () }

def free (h : CHeap) (a : ℕ) : CHeap := ⟨h.live.free a, a :: h.freed⟩

/-- Every block has been freed exactly once. -/
def Released (h : CHeap) : Prop := ∀ a < h.live.next, h.freed.count a = 1

instance (h : CHeap) : Decidable h.Released :=
  inferInstanceAs (Decidable (∀ a < h.live.next, _))

/-- The blocks that are still to be freed; all others have been freed once. -/
structure Owes (h : CHeap) (as : List ℕ) : Prop where
  nodup : as.Nodup
  live : ∀ a, (h.live.get a).isSome ↔ a ∈ as
  count : ∀ a < h.live.next, h.freed.count a = if a ∈ as then 0 else 1
  old : ∀ a ∈ h.freed, a < h.live.next

theorem owes_empty : empty.Owes [] where
  nodup := List.nodup_nil
  live a := by simp [empty]
  count a ha := absurd ha (Nat.not_lt_zero a)
  old a ha := absurd ha List.not_mem_nil

namespace Owes
variable {h : CHeap} {as : List ℕ} (ho : h.Owes as)
include ho

theorem lt_next {a : ℕ} (ha : a ∈ as) : a < h.live.next := by
  obtain ⟨u, hu⟩ := Option.isSome_iff_exists.mp ((ho.live a).mpr ha)
  exact h.live.lt_next hu

theorem alloc : h.alloc.Owes (h.live.next :: as) where
  nodup := List.nodup_cons.mpr ⟨fun hmem => (ho.lt_next hmem).false, ho.nodup⟩
  live a := by
    rw [CHeap.alloc, Store.alloc_get, List.mem_cons]
    split
    · next ha => simp [ha]
    · next ha => rw [ho.live a, or_iff_right ha]
  count a ha := by
    simp only [CHeap.alloc, Store.alloc_next] at ha
    by_cases hnext : a = h.live.next
    · rw [if_pos (hnext ▸ List.mem_cons_self)]
      exact List.count_eq_zero.mpr fun hmem => (ho.old a hmem).ne hnext
    · change h.freed.count a = _
      rw [ho.count a (by omega)]
      simp only [List.mem_cons, hnext, false_or]
  old a ha := (ho.old a ha).trans (Nat.lt_succ_self _)

theorem free {a : ℕ} (ha : a ∈ as) : (h.free a).Owes (as.erase a) where
  nodup := ho.nodup.erase a
  live b := by
    rw [CHeap.free, Store.free_get, ho.nodup.mem_erase_iff]
    split
    · next hb => simp [hb]
    · next hb => rw [ho.live b, and_iff_right hb]
  count b hb := by
    have hcount := ho.count b hb
    simp only [CHeap.free, List.count_cons, ho.nodup.mem_erase_iff]
    by_cases hab : b = a
    · subst hab
      simp [hcount, ha]
    · have hba : (a == b) = false := by simp [Ne.symm hab]
      simp [hcount, hab, hba]
  old b hb := by
    rcases List.mem_cons.mp hb with rfl | hb
    · exact ho.lt_next ha
    · exact ho.old b hb

theorem freeHead {a : ℕ} {bs : List ℕ} (h' : as = a :: bs) : (h.free a).Owes bs := by
  subst h'
  simpa only [List.erase_cons_head] using ho.free List.mem_cons_self

theorem perm {bs : List ℕ} (hp : as.Perm bs) : h.Owes bs where
  nodup := hp.nodup_iff.mp ho.nodup
  live a := (ho.live a).trans hp.mem_iff
  count a ha := by simp only [ho.count a ha, hp.mem_iff]
  old := ho.old

/-- Nothing is owed exactly when everything is released. -/
theorem released_iff : h.Released ↔ as = [] := by
  constructor
  · intro hr
    apply List.eq_nil_iff_forall_not_mem.mpr
    intro a ha
    have hone := hr a (ho.lt_next ha)
    rw [ho.count a (ho.lt_next ha), if_pos ha] at hone
    cases hone
  · rintro rfl a ha
    rw [ho.count a ha, if_neg List.not_mem_nil]

end Owes
end CHeap

/-- How a program stops: it raises, or it touches a block that is not live. -/
inductive Stop (ε : Type)
  | raise (e : ε)
  | fault

abbrev HeapM (ε : Type) := EStateM (Stop ε) CHeap

namespace HeapM
variable {ε α β : Type}

def raise (e : ε) : HeapM ε α := throw (.raise e)

def check (x : Except ε α) : HeapM ε α :=
  match x with
  | .ok a => pure a
  | .error e => raise e

/-- malloc, and the error when it fails. -/
def malloc (ok : Bool) (e : ε) : HeapM ε ℕ := fun h =>
  if ok then .ok h.live.next h.alloc else .error (.raise e) h

/-- A load or a store in the block `a`. -/
def use (a : ℕ) : HeapM ε Unit := fun h =>
  if (h.live.get a).isSome then .ok () h else .error .fault h

/-- free, which does nothing for NULL. -/
def free (p : Option ℕ) : HeapM ε Unit := fun h =>
  match p with
  | none => .ok () h
  | some a => if (h.live.get a).isSome then .ok () (h.free a) else .error .fault h

/-- From `h`, the program returns into `Q` or raises into `R`, without a fault. -/
def wp (x : HeapM ε α) (Q : α → CHeap → Prop) (R : CHeap → Prop) (h : CHeap) : Prop :=
  match x h with
  | .ok a h' => Q a h'
  | .error (.raise _) h' => R h'
  | .error .fault _ => False

section rules
variable {Q : α → CHeap → Prop} {R : CHeap → Prop} {h : CHeap}

theorem wp_bind {x : HeapM ε α} {f : α → HeapM ε β} {Q : β → CHeap → Prop} :
    wp (x >>= f) Q R h ↔ wp x (fun a => wp (f a) Q R) R h := by
  change (match EStateM.bind x f h with
    | .ok a h' => Q a h'
    | .error (.raise _) h' => R h'
    | .error .fault _ => False) ↔ _
  unfold EStateM.bind wp
  cases x h with
  | ok a h' => rfl
  | error e h' => cases e <;> rfl

theorem wp_raise (e : ε) : wp (raise e : HeapM ε α) Q R h ↔ R h := Iff.rfl

theorem wp_malloc {ok : Bool} {e : ε} {Q : ℕ → CHeap → Prop} : wp (malloc ok e) Q R h ↔
    (ok = true ∧ Q h.live.next h.alloc) ∨ ok = false ∧ R h := by
  cases ok <;> simp [wp, malloc]

section owned
variable {as : List ℕ} {a : ℕ} {Q : Unit → CHeap → Prop} (ho : h.Owes as) (ha : a ∈ as)
include ho ha

theorem wp_use : wp (use a : HeapM ε Unit) Q R h ↔ Q () h := by
  simp only [wp, use, (ho.live a).mpr ha, if_true]

theorem wp_free : wp (free (some a) : HeapM ε Unit) Q R h ↔ Q () (h.free a) := by
  simp only [wp, free, (ho.live a).mpr ha, if_true]

end owned

end rules
end HeapM
end Couv
