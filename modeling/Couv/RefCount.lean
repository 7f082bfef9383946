import Couv.Store
import Mathlib.Algebra.Ring.Int.Defs

/-! Reference counting: a store of counters, the cells that have been freed, in order, and the
number of references to each cell. -/
namespace Couv

/-- A live cell counts its references, of which there is one at least; any other cell has none,
and has been freed once if it was ever allocated. -/
structure Counted (cells : Store ℤ) (freed : List ℕ) (refs : ℕ → ℕ) : Prop where
  live : ∀ c n, cells.get c = some n → n = refs c ∧ 0 < refs c ∧ c ∉ freed
  gone : ∀ c, cells.get c = none → refs c = 0
  once : ∀ c < cells.next, cells.get c = none → freed.count c = 1
  fresh : ∀ c ∈ freed, c < cells.next

theorem counted_empty : Counted .empty [] (fun _ => 0) where
  live _ _ h := nomatch h
  gone _ _ := rfl
  once _ h := absurd h (Nat.not_lt_zero _)
  fresh _ h := nomatch h

namespace Counted
variable {cells : Store ℤ} {freed : List ℕ} {refs refs' : ℕ → ℕ} (h : Counted cells freed refs)
include h

theorem congr (hrefs : ∀ c, refs' c = refs c) : Counted cells freed refs' := by
  obtain rfl : refs' = refs := funext hrefs
  exact h

/-- A cell that is referred to is live. -/
theorem get_of_pos {c : ℕ} (hc : 0 < refs c) : ∃ n, cells.get c = some n := by
  cases hn : cells.get c with
  | some n => exact ⟨n, rfl⟩
  | none =>
    rw [h.gone c hn] at hc
    exact absurd hc (lt_irrefl 0)

theorem next_refs : refs cells.next = 0 := h.gone _ (cells.fresh _ le_rfl)

/-- A new cell belongs to the one who allocates it. -/
theorem alloc (hrefs : ∀ c, refs' c = refs c + (if c = cells.next then 1 else 0)) :
    Counted (cells.alloc 1) freed refs' := by
  have hfreed : cells.next ∉ freed := fun hmem => lt_irrefl _ (h.fresh _ hmem)
  -- live cells, cells without references, freed once
  refine ⟨?_, ?_, ?_, fun c hc => Nat.lt_succ_of_lt (h.fresh c hc)⟩
  · intro c n hn
    rcases cells.alloc_eq_some.mp hn with ⟨rfl, rfl⟩ | ⟨hne, hn⟩
    · rw [hrefs, if_pos rfl, h.next_refs]
      exact ⟨rfl, Nat.one_pos, hfreed⟩
    · rw [hrefs, if_neg hne, Nat.add_zero]
      exact h.live c n hn
  · intro c hn
    have hne : c ≠ cells.next := by
      rintro rfl
      rw [Store.alloc_get_self] at hn
      cases hn
    rw [Store.alloc_get, if_neg hne] at hn
    rw [hrefs, if_neg hne, h.gone c hn]
  · intro c hc hn
    have hne : c ≠ cells.next := by
      rintro rfl
      rw [Store.alloc_get_self] at hn
      cases hn
    rw [Store.alloc_get, if_neg hne] at hn
    rw [Store.alloc_next] at hc
    exact h.once c (by omega) hn

/-- The counter of a live cell follows its references, as long as some are left. -/
theorem recount {c : ℕ} {n n' : ℤ} (hn : cells.get c = some n) (hn' : n' = refs' c)
    (hpos : 0 < refs' c) (hrefs : ∀ d, d ≠ c → refs' d = refs d) :
    Counted (cells.modify c (fun _ => n')) freed refs' := by
  refine ⟨?_, ?_, ?_, h.fresh⟩
  · intro d m hm
    rcases cells.modify_eq_some.mp hm with ⟨rfl, x, -, rfl⟩ | ⟨hne, hm⟩
    · exact ⟨hn', hpos, (h.live d n hn).2.2⟩
    · rw [hrefs d hne]
      exact h.live d m hm
  · intro d hd
    have hne : d ≠ c := by
      rintro rfl
      rw [cells.modify_get_self _ hn] at hd
      cases hd
    rw [hrefs d hne]
    exact h.gone d ((cells.modify_get_ne _ hne).symm.trans hd)
  · intro d hlt hd
    have hne : d ≠ c := by
      rintro rfl
      rw [cells.modify_get_self _ hn] at hd
      cases hd
    exact h.once d hlt ((cells.modify_get_ne _ hne).symm.trans hd)

/-- The last reference frees the cell. -/
theorem free {c : ℕ} {n : ℤ} (hn : cells.get c = some n) (hzero : refs' c = 0)
    (hrefs : ∀ d, d ≠ c → refs' d = refs d) :
    Counted (cells.free c) (freed ++ [c]) refs' := by
  refine ⟨?_, ?_, ?_, ?_⟩
  · intro d m hm
    obtain ⟨hne, hm⟩ := cells.free_eq_some.mp hm
    obtain ⟨h1, h2, h3⟩ := h.live d m hm
    rw [hrefs d hne]
    exact ⟨h1, h2, by simp [h3, hne]⟩
  · intro d hd
    by_cases hdc : d = c
    · exact hdc ▸ hzero
    · rw [hrefs d hdc]
      exact h.gone d ((cells.free_get_ne hdc).symm.trans hd)
  · intro d hlt hd
    rw [List.count_append]
    by_cases hdc : d = c
    · subst hdc
      rw [List.count_eq_zero.mpr (h.live d n hn).2.2]
      simp
    · rw [h.once d hlt ((cells.free_get_ne hdc).symm.trans hd)]
      simp [Ne.symm hdc]
  · intro d hd
    rcases List.mem_append.mp hd with hd | hd
    · exact h.fresh d hd
    · obtain rfl := List.mem_singleton.mp hd
      exact cells.lt_next hn

/-- A cell has been freed exactly when it has no references. -/
theorem count_freed {c : ℕ} (hc : c < cells.next) :
    freed.count c = if refs c = 0 then 1 else 0 := by
  cases hn : cells.get c with
  | none => rw [h.once c hc hn, if_pos (h.gone c hn)]
  | some n =>
    obtain ⟨-, hpos, hfreed⟩ := h.live c n hn
    rw [if_neg hpos.ne', List.count_eq_zero.mpr hfreed]

end Counted
end Couv
