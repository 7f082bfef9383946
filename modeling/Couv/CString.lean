import Mathlib.Algebra.Ring.Nat
import Mathlib.Data.List.Basic

/-! C strings: bytes up to a NUL, and several of them one behind the other. -/
namespace Couv

/-- The characters of a C string. -/
structure CText where
  bytes : List UInt8
  nulFree : 0 ∉ bytes
  deriving DecidableEq, Repr

/-- The characters in memory, and the NUL. -/
def CText.stored (t : CText) : List UInt8 := t.bytes ++ [0]

/-- Strings one behind the other. -/
def packed (ts : List CText) : List UInt8 := (ts.map CText.stored).flatten

/-- `strchr`, with the bytes that may be read from the pointer on: how far away the character is,
or none for NULL, and how many bytes are read. There is no result if it reads on behind them. -/
def strchr (c : UInt8) : List UInt8 → Option (Option ℕ × ℕ)
  | [] => none
  | b :: bs =>
    if b = c then some (some 0, 1)
    else if b = 0 then some (none, 1)
    else (strchr c bs).map fun r => (r.1.map (· + 1), r.2+1)

theorem CText.stored_length (t : CText) : t.stored.length = t.bytes.length+1 :=
  List.length_append

@[simp] theorem packed_nil : packed [] = [] := rfl

@[simp] theorem packed_cons (t : CText) (ts : List CText) :
    packed (t :: ts) = t.stored ++ packed ts := rfl

theorem packed_append (ts us : List CText) : packed (ts ++ us) = packed ts ++ packed us := by
  rw [packed, List.map_append, List.flatten_append]
  rfl

/-- In front of the other strings stands the first one. -/
theorem drop_packed_cons {mem rest : List UInt8} {p : ℕ} {t : CText} {ts : List CText}
    (h : mem.drop p = packed (t :: ts) ++ rest) : mem.drop p = t.stored ++ (packed ts ++ rest) ∧
      mem.drop (p+t.stored.length) = packed ts ++ rest := by
  rw [packed_cons, List.append_assoc] at h
  refine ⟨h, ?_⟩
  rw [← List.drop_drop, h, List.drop_left]

/-- The NUL is found behind the last character, and nothing behind it is read. -/
theorem strchr_nul {bs : List UInt8} (h : 0 ∉ bs) (rest : List UInt8) :
    strchr 0 (bs ++ 0 :: rest) = some (some bs.length, bs.length+1) := by
  induction bs with
  | nil => rfl
  | cons b bs ih =>
    obtain ⟨hb, hbs⟩ := not_or.mp (mt List.mem_cons.mpr h)
    rw [List.cons_append, strchr, if_neg (Ne.symm hb), if_neg (Ne.symm hb), ih hbs]
    rfl

theorem strchr_stored (t : CText) (rest : List UInt8) :
    strchr 0 (t.stored ++ rest) = some (some t.bytes.length, t.stored.length) := by
  rw [CText.stored_length, CText.stored, List.append_assoc]
  exact strchr_nul t.nulFree rest

end Couv
