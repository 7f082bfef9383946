import Couv.Ring

/-! ngx-queue.h: the macros, on the links of all queue cells. -/
namespace Couv

/-- A cell: the `input_queue` in a handle, or an input node. -/
inductive QAddr
  | root (h : ℕ)
  | node (n : ℕ)
  deriving DecidableEq, Repr

def ngxQueueInit (L : Links QAddr) (q : QAddr) : Links QAddr :=
  let L := L.setPrev q q
  L.setNext q q

def ngxQueueEmpty (L : Links QAddr) (h : QAddr) : Bool := h = L.prev h

def ngxQueueInsertTail (L : Links QAddr) (h x : QAddr) : Links QAddr :=
  let L := L.setPrev x (L.prev h)
  let L := L.setNext (L.prev x) x
  let L := L.setNext x h
  L.setPrev h x

def ngxQueueHead (L : Links QAddr) (h : QAddr) : QAddr := L.next h

def ngxQueueRemove (L : Links QAddr) (x : QAddr) : Links QAddr :=
  let L := L.setPrev (L.next x) (L.prev x)
  L.setNext (L.prev x) (L.next x)

/-- The queue of the handle `h` holds exactly the nodes `ns`, oldest first. -/
def IsQueue (L : Links QAddr) (h : ℕ) (ns : List ℕ) : Prop :=
  L.IsRing (.root h) (ns.map .node)

section
variable {L : Links QAddr} {h k n : ℕ} {ns ms : List ℕ}

theorem ngxQueueInit_isQueue (L : Links QAddr) (h : ℕ) :
    IsQueue (ngxQueueInit L (.root h)) h [] :=
  Links.isRing_nil _ (by simp [ngxQueueInit]) (by simp [ngxQueueInit])

/-- Initialising one root leaves every other queue as it was. -/
theorem ngxQueueInit_isQueue_other (hkh : k ≠ h) (hq : IsQueue L k ns) :
    IsQueue (ngxQueueInit L (.root h)) k ns := by
  have hne : ∀ z ∈ QAddr.root k :: ns.map .node, z ≠ .root h := by
    intro z hz
    simp only [List.mem_cons, List.mem_map] at hz
    rcases hz with rfl | ⟨n, -, rfl⟩
    · simpa using hkh
    · simp
  apply Links.isRing_congr _ _ _ _ hq
  · intro z hz
    simp [ngxQueueInit, hne z hz]
  · intro z hz
    simp [ngxQueueInit, hne z hz]

theorem ngxQueueEmpty_iff (hq : IsQueue L h ns) : ngxQueueEmpty L (.root h) = true ↔ ns = [] := by
  have hr := Links.isRing_prev_eq_root_iff hq
  simpa [ngxQueueEmpty] using hr

theorem ngxQueueHead_eq (hq : IsQueue L h (n :: ns)) : ngxQueueHead L (.root h) = .node n :=
  Links.isRing_next_root hq

theorem ngxQueueInsertTail_isQueue (hq : IsQueue L h ns) (hn : n ∉ ns) :
    IsQueue (ngxQueueInsertTail L (.root h) (.node n)) h (ns ++ [n]) := by
  unfold IsQueue
  rw [List.map_append]
  exact Links.insertTail_isRing hq (by simp) (by simpa using hn)

theorem ngxQueueInsertTail_isQueue_other (hq : IsQueue L h ns) (hkh : k ≠ h)
    (hk : IsQueue L k ms) (hd : ∀ x ∈ ms, x ≠ n ∧ x ∉ ns) :
    IsQueue (ngxQueueInsertTail L (.root h) (.node n)) k ms := by
  apply Links.insertTail_isRing_other hq hk
  intro z hz
  simp only [List.mem_cons, List.mem_map] at hz
  rcases hz with rfl | ⟨x, hx, rfl⟩
  · simpa using hkh
  · have := hd x hx
    simp [this.1, this.2]

theorem ngxQueueRemove_isQueue (hq : IsQueue L h (n :: ns)) :
    IsQueue (ngxQueueRemove L (.node n)) h ns :=
  Links.remove_head_isRing hq

theorem ngxQueueRemove_isQueue_other (hq : IsQueue L h (n :: ns)) (hkh : k ≠ h)
    (hk : IsQueue L k ms) (hd : ∀ x ∈ ms, x ∉ n :: ns) :
    IsQueue (ngxQueueRemove L (.node n)) k ms := by
  apply Links.remove_head_isRing_other hq hk
  intro z hz
  simp only [List.mem_cons, List.mem_map] at hz
  rcases hz with rfl | ⟨x, hx, rfl⟩
  · simpa using hkh
  · have := hd x hx
    simp only [List.mem_cons, not_or] at this
    simp [this.1, this.2]

end
end Couv
