import Couv.NgxQueue
import Couv.RingOps

/-! ngx-queue.h: the other macros, and what any sequence of macros makes of the queues. -/
namespace Couv

open Links (Rings RingOp Act Acts Fresh)

/-- Also `ngx_queue_insert_after`. -/
def ngxQueueInsertHead (L : Links QAddr) (h x : QAddr) : Links QAddr :=
  let L := L.setNext x (L.next h)
  let L := L.setPrev (L.next x) x
  let L := L.setPrev x h
  L.setNext h x

def ngxQueueLast (L : Links QAddr) (h : QAddr) : QAddr := L.prev h

def ngxQueueSentinel (h : QAddr) : QAddr := h

def ngxQueueNext (L : Links QAddr) (q : QAddr) : QAddr := L.next q

def ngxQueuePrev (L : Links QAddr) (q : QAddr) : QAddr := L.prev q

def ngxQueueSplit (L : Links QAddr) (h q n : QAddr) : Links QAddr :=
  let L := L.setPrev n (L.prev h)
  let L := L.setNext (L.prev n) n
  let L := L.setNext n q
  let L := L.setPrev h (L.prev q)
  let L := L.setNext (L.prev h) h
  L.setPrev q n

def ngxQueueAdd (L : Links QAddr) (h n : QAddr) : Links QAddr :=
  let L := L.setNext (L.prev h) (L.next n)
  let L := L.setPrev (L.next n) (L.prev h)
  let L := L.setPrev h (L.prev n)
  L.setNext (L.prev h) h

/-- The cells that the loop body sees, if the loop from `q` on ends within `fuel` rounds. -/
def ngxQueueForeachFrom (L : Links QAddr) (h q : QAddr) : ℕ → Option (List QAddr)
  | 0 => if q = ngxQueueSentinel h then some [] else none
  | fuel+1 =>
    if q = ngxQueueSentinel h then some []
    else (ngxQueueForeachFrom L h (ngxQueueNext L q) fuel).map (q :: ·)

def ngxQueueForeach (L : Links QAddr) (h : QAddr) (fuel : ℕ) : Option (List QAddr) :=
  ngxQueueForeachFrom L h (ngxQueueHead L h) fuel

/-- The macros that write. -/
def ngxQueueExec (L : Links QAddr) : RingOp QAddr → Links QAddr
  | .init q => ngxQueueInit L q
  | .insertHead h x => ngxQueueInsertHead L h x
  | .insertTail h x => ngxQueueInsertTail L h x
  | .remove x => ngxQueueRemove L x
  | .split h q n => ngxQueueSplit L h q n
  | .add h n => ngxQueueAdd L h n

theorem ngxQueueExec_eq : ngxQueueExec = Links.exec := by
  funext L o
  cases o <;> rfl

section
variable {L : Links QAddr} {h q : QAddr} {xs : List QAddr}

theorem ngxQueueForeachFrom_eq (hs : L.Segment q xs h) (hh : h ∉ xs) {fuel : ℕ}
    (hfuel : xs.length ≤ fuel) : ngxQueueForeachFrom L h (ngxQueueNext L q) fuel = some xs := by
  induction xs generalizing q fuel with
  | nil =>
    have hend : ngxQueueNext L q = ngxQueueSentinel h := hs.1
    cases fuel <;> exact if_pos hend
  | cons x xs ih =>
    obtain ⟨hn, -, hs⟩ := hs
    rw [List.mem_cons, not_or] at hh
    obtain ⟨fuel, rfl⟩ := Nat.exists_eq_add_of_lt hfuel
    have hx : ngxQueueNext L q = x := hn
    have hne : x ≠ ngxQueueSentinel h := fun he => hh.1 he.symm
    rw [hx, Nat.add_assoc, Nat.add_comm fuel 1, ← Nat.add_assoc, Nat.add_right_comm,
      ngxQueueForeachFrom, if_neg hne, ih hs hh.2 (Nat.le_add_right _ _)]
    rfl

/-- The loop ends after the last cell, and sees the cells in their order. -/
theorem ngxQueueForeach_eq (hr : L.IsRing h xs) {fuel : ℕ} (hfuel : xs.length ≤ fuel) :
    ngxQueueForeach L h fuel = some xs :=
  ngxQueueForeachFrom_eq hr.segment (List.nodup_cons.mp hr.nodup).1 hfuel

theorem ngxQueueLast_eq (hr : L.IsRing h xs) : ngxQueueLast L h = xs.getLastD h := by
  rcases List.eq_nil_or_concat xs with rfl | ⟨ys, l, rfl⟩
  · exact hr.segment.2
  · have hs := hr.segment
    rw [List.concat_eq_append, Links.segment_append] at hs
    rw [List.concat_eq_append, List.getLastD_concat]
    exact hs.2.2

theorem ngxQueueHead_eq_headD (hr : L.IsRing h xs) : ngxQueueHead L h = xs.headD h := by
  cases xs with
  | nil => exact hr.segment.1
  | cons x xs => exact hr.segment.1

end

/-- What the reading macros find of a queue that holds `xs`. -/
structure QueueHolds (L : Links QAddr) (h : QAddr) (xs : List QAddr) : Prop where
  empty : ngxQueueEmpty L h = true ↔ xs = []
  head : ngxQueueHead L h = xs.headD h
  last : ngxQueueLast L h = xs.getLastD h
  /-- a cell leads to the next one, and that one back -/
  next : ∀ ys a b zs, xs = ys ++ a :: b :: zs → ngxQueueNext L a = b ∧ ngxQueuePrev L b = a
  foreach : ∀ fuel, xs.length ≤ fuel → ngxQueueForeach L h fuel = some xs

theorem queueHolds {L : Links QAddr} {h : QAddr} {xs : List QAddr} (hr : L.IsRing h xs) :
    QueueHolds L h xs where
  empty := by
    have hempty := Links.isRing_prev_eq_root_iff hr
    simpa only [ngxQueueEmpty, decide_eq_true_eq] using hempty
  head := ngxQueueHead_eq_headD hr
  last := ngxQueueLast_eq hr
  next ys a b zs hxs := by
    obtain rfl := hxs
    obtain ⟨hn, hp, -⟩ := ((Links.segment_append h a h ys (b :: zs)).mp hr.segment).2
    exact ⟨hn, hp⟩
  foreach _ hfuel := ngxQueueForeach_eq hr hfuel

/-- After any sequence of macros, from links with whatever contents, every queue reads as the
list that the sequence makes of it. -/
theorem ngx_queue_runs {os : List (RingOp QAddr)} {Q : Rings QAddr}
    (hacts : Acts (fun _ => none) os Q) (L : Links QAddr) {h : QAddr} {xs : List QAddr}
    (hQ : Q h = some xs) : QueueHolds (os.foldl ngxQueueExec L) h xs := by
  have hL : L.Holds (fun _ => none) :=
    ⟨fun _ _ hnone => (nomatch hnone), fun _ _ _ _ hnone => (nomatch hnone)⟩
  rw [ngxQueueExec_eq]
  exact queueHolds ((hacts.holds hL).ring h xs hQ)

theorem fresh_update {Q : Rings QAddr} {h x : QAddr} {xs : List QAddr} (hx : Fresh Q x)
    (hxs : x ∉ h :: xs) : Fresh (Function.update Q h (some xs)) x := by
  intro k ys hk
  by_cases hkh : k = h
  · subst hkh
    rw [Function.update_self] at hk
    obtain rfl := Option.some.inj hk
    exact hxs
  · rw [Function.update_of_ne hkh] at hk
    exact hx k ys hk

/-- One node goes to a new root and comes back after the other has been removed. -/
def splitAndAdd : List (RingOp QAddr) :=
  [.init (.root 0), .insertTail (.root 0) (.node 1), .insertHead (.root 0) (.node 2),
    .split (.root 0) (.node 1) (.root 7), .remove (.node 2), .add (.root 0) (.root 7)]

theorem acts_splitAndAdd :
    ∃ Q, Acts (fun _ => none) splitAndAdd Q ∧ Q (.root 0) = some [.node 1] := by
  have hfresh (x : QAddr) : Fresh (fun _ : QAddr => none) x := fun _ _ hnone => (nomatch hnone)
  have hadd {Q : Rings QAddr} (h0 : Q (.root 0) = some []) (h7 : Q (.root 7) = some [.node 1]) :=
    Acts.cons (Act.add (by decide) h0 h7) .nil
  exact ⟨_, .cons (.init (hfresh _)) (.cons (.insertTail rfl (fresh_update (hfresh _) (by decide)))
    (.cons (.insertHead rfl (fresh_update (fresh_update (hfresh _) (by decide)) (by decide)))
      (.cons (@Act.split QAddr _ _ (.root 0) (.node 1) (.root 7) [.node 2] [] rfl
          (fresh_update (fresh_update (fresh_update (hfresh _) (by decide)) (by decide))
            (by decide)))
        (.cons (@Act.remove QAddr _ _ (.root 0) (.node 2) [] [] rfl) (hadd rfl rfl))))), rfl⟩

theorem ngx_queue_runs_splitAndAdd :
    QueueHolds (splitAndAdd.foldl ngxQueueExec ⟨fun q => q, fun q => q⟩) (.root 0) [.node 1] := by
  obtain ⟨Q, hacts, hQ⟩ := acts_splitAndAdd
  exact ngx_queue_runs hacts _ hQ

end Couv
