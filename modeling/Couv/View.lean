import Mathlib.Data.List.Basic
import Couv.Store

/-! Views on shared byte arrays: any number of views may lie in one array, and a view
of a view is again a view of the array. -/
namespace Couv

variable {β : Type*}

/-- Replace the elements from `i` on by `ys`. -/
def overwrite (xs : List β) (i : ℕ) (ys : List β) : List β :=
  xs.take i ++ ys ++ xs.drop (i+ys.length)

/-- The `n` elements from `i` on. -/
def window (xs : List β) (i n : ℕ) : List β := (xs.drop i).take n

theorem overwrite_length {xs ys : List β} {i : ℕ} (h : i+ys.length ≤ xs.length) :
    (overwrite xs i ys).length = xs.length := by
  simp only [overwrite, List.length_append, List.length_take, List.length_drop]
  omega

theorem overwrite_nil (xs : List β) (i : ℕ) : overwrite xs i [] = xs := by
  simp only [overwrite, List.append_nil, List.length_nil, Nat.add_zero, List.take_append_drop]

theorem overwrite_all {xs ys : List β} (h : xs.length = ys.length) : overwrite xs 0 ys = ys := by
  simp [overwrite, ← h]

theorem overwrite_getElem? {xs ys : List β} {i : ℕ} (h : i+ys.length ≤ xs.length) (j : ℕ) :
    (overwrite xs i ys)[j]? =
      if i ≤ j ∧ j < i+ys.length then ys[j-i]? else xs[j]? := by
  have hlen : (xs.take i).length = i := by rw [List.length_take]; omega
  unfold overwrite
  rw [List.append_assoc]
  rcases Nat.lt_or_ge j i with hj | hj
  · rw [List.getElem?_append_left (by omega), List.getElem?_take_of_lt hj,
      if_neg (by omega)]
  · rw [List.getElem?_append_right (by omega), hlen]
    rcases Nat.lt_or_ge (j-i) ys.length with hy | hy
    · rw [List.getElem?_append_left hy, if_pos (by omega)]
    · rw [List.getElem?_append_right hy, List.getElem?_drop, if_neg (by omega)]
      congr 1
      omega

theorem window_length {xs : List β} {i n : ℕ} (h : i+n ≤ xs.length) :
    (window xs i n).length = n := by
  simp only [window, List.length_take, List.length_drop]
  omega

theorem window_getElem? (xs : List β) (i n j : ℕ) :
    (window xs i n)[j]? = if j < n then xs[i+j]? else none := by
  unfold window
  rw [List.getElem?_take]
  split
  · rw [List.getElem?_drop]
  · rfl

/-- A window of a window. -/
theorem window_window (xs : List β) {i n j k : ℕ} (h : j+k ≤ n) :
    window (window xs i n) j k = window xs (i+j) k := by
  apply List.ext_getElem?
  intro l
  simp only [window_getElem?]
  split
  · rw [if_pos (by omega)]
    congr 1
    omega
  · rfl

structure View where
  array : ℕ
  off : ℕ
  len : ℕ
  deriving DecidableEq

/-- The part of a view from `start` on. -/
def View.sub (v : View) (start len : ℕ) : View := ⟨v.array, v.off+start, len⟩

/-- Byte arrays and the views on them. -/
structure Arrays where
  arrays : Store (List UInt8)
  views : Store View

namespace Arrays
variable (A : Arrays)

def array (a : ℕ) : List UInt8 := (A.arrays.get a).getD []

/-- The bytes a view shows. -/
def bytes (v : View) : List UInt8 := window (A.array v.array) v.off v.len

/-- The bytes of the view named `b`. -/
def own (b : ℕ) : Option (List UInt8) := (A.views.get b).map A.bytes

/-- A view lies inside its array. -/
def Inside (v : View) : Prop := v.off+v.len ≤ (A.array v.array).length

theorem bytes_length {v : View} (h : A.Inside v) : (A.bytes v).length = v.len :=
  window_length h

/-- What one operation does to the arrays and views. -/
inductive Effect
  | none
  | alloc (bs : List UInt8)
  | view (b start len : ℕ)
  | store (b start : ℕ) (bs : List UInt8)
  deriving DecidableEq

def storeAt (a i : ℕ) (bs : List UInt8) : Arrays :=
  { A with arrays := A.arrays.modify a (fun xs => overwrite xs i bs) }

def apply : Effect → Arrays
  | .none => A
  | .alloc bs =>
    { arrays := A.arrays.alloc bs, views := A.views.alloc ⟨A.arrays.next, 0, bs.length⟩ }
  | .view b start len =>
    match A.views.get b with
    | Option.none => A
    | some v => { A with views := A.views.alloc (v.sub start len) }
  | .store b start bs =>
    match A.views.get b with
    | Option.none => A
    | some v => A.storeAt v.array (v.off+start) bs

theorem apply_store_nil (b i : ℕ) : A.apply (.store b i []) = A := by
  cases hb : A.views.get b with
  | none => simp only [apply, hb]
  | some v =>
    simp only [apply, hb, storeAt, overwrite_nil]
    congr 1
    refine Store.ext rfl ?_
    intro a
    rw [Store.modify_get]
    split
    · next h =>
      rw [h]
      exact Option.map_id_apply
    · rfl

/-- Filling a new array. -/
theorem apply_alloc_store {xs ys : List UInt8} (h : xs.length = ys.length) :
    (A.apply (.alloc xs)).apply (.store A.views.next 0 ys) = A.apply (.alloc ys) := by
  simp only [apply, Store.alloc_get_self, storeAt, Nat.zero_add, h]
  congr 1
  rw [Store.alloc_modify, overwrite_all h]

variable {A}

theorem storeAt_array {a i : ℕ} {bs xs : List UInt8} (hxs : A.arrays.get a = some xs)
    (c : ℕ) :
    (A.storeAt a i bs).array c = if c = a then overwrite xs i bs else A.array c := by
  simp only [array, storeAt, Store.modify_get]
  split
  · rw [hxs]
    rfl
  · rfl

/-- A store changes nothing outside the stored range of its own array. -/
theorem storeAt_frame {a i : ℕ} {bs xs : List UInt8} (hxs : A.arrays.get a = some xs)
    (hi : i+bs.length ≤ xs.length) (c j : ℕ) (h : ¬(c = a ∧ i ≤ j ∧ j < i+bs.length)) :
    ((A.storeAt a i bs).array c)[j]? = (A.array c)[j]? := by
  rw [storeAt_array hxs]
  split
  · next hc =>
    subst hc
    rw [overwrite_getElem? hi, if_neg (fun hh => h ⟨rfl, hh⟩)]
    simp only [array, hxs, Option.getD_some]
  · rfl

/-- Every view that shows the stored range shows the stored bytes. -/
theorem storeAt_bytes {a i : ℕ} {bs xs : List UInt8} (hxs : A.arrays.get a = some xs)
    (hi : i+bs.length ≤ xs.length) (v : View) (hv : v.array = a) (j : ℕ) (hj : j < v.len)
    (hin : i ≤ v.off+j ∧ v.off+j < i+bs.length) :
    ((A.storeAt a i bs).bytes v)[j]? = bs[v.off+j-i]? := by
  unfold bytes
  rw [hv, storeAt_array hxs, if_pos rfl, window_getElem?, if_pos hj, overwrite_getElem? hi,
    if_pos hin]

/-- After a store every view shows the stored bytes where it overlaps the stored range and
its old bytes elsewhere. -/
theorem apply_store_seen {b start : ℕ} {bs : List UInt8} {w : View} {xs : List UInt8}
    (hw : A.views.get b = some w) (hxs : A.arrays.get w.array = some xs) (hin : A.Inside w)
    (hb : start+bs.length ≤ w.len) (v : View) (j : ℕ) (hj : j < v.len) :
    ((A.apply (.store b start bs)).bytes v)[j]? =
      if v.array = w.array ∧ w.off+start ≤ v.off+j ∧ v.off+j < w.off+start+bs.length then
        bs[v.off+j-(w.off+start)]?
      else (A.bytes v)[j]? := by
  have hlen : w.off+start+bs.length ≤ xs.length := by
    unfold Inside array at hin
    rw [hxs, Option.getD_some] at hin
    omega
  simp only [apply, hw]
  split
  · next h => exact storeAt_bytes hxs hlen v h.1 j hj h.2
  · next h =>
    unfold bytes
    rw [window_getElem?, window_getElem?, if_pos hj, if_pos hj]
    exact storeAt_frame hxs hlen _ _ h

/-- No effect changes a view that exists. -/
theorem apply_views {b : ℕ} {v : View} (hv : A.views.get b = some v) (eff : Effect) :
    (A.apply eff).views.get b = some v := by
  cases eff with
  | none => exact hv
  | alloc bs => exact Store.alloc_get_of_some _ hv
  | view c start len =>
    simp only [apply]
    split
    · exact hv
    · exact Store.alloc_get_of_some _ hv
  | store c start bs =>
    simp only [apply]
    split <;> exact hv

end Arrays
end Couv
