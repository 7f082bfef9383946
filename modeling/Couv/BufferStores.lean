import Couv.BufferCalls
import Couv.BufferOp

/-! What the operations on Buffers store: one that makes no Buffer stores once at most, into a
Buffer that it is given. -/
namespace Couv

/-- A call that leaves the memory as it is, and gives a result with `P` if it returns. -/
def BufM.Reads {α : Type} (x : BufM α) (m : Mem) (P : α → Prop) : Prop :=
  (∃ e, x m = .error e m) ∨ ∃ a, x m = .ok a m ∧ P a

/-- A call that stores into one Buffer at most. -/
def BufM.StoresOnce {α : Type} (x : BufM α) (m : Mem) : Prop :=
  after x m = m ∨ ∃ b buf i q bs, m.bufs.get b = some buf ∧ buf.at i = some q ∧
    after x m = m.store q bs

/-- The pointer is NULL, or points into a Buffer. -/
def Mem.IntoBuffer (m : Mem) (p : Option Ptr) : Prop :=
  ∃ b buf i, m.bufs.get b = some buf ∧ p = buf.at i

namespace BufM
variable {α β : Type} {m : Mem} {P : α → Prop} {Q : β → Prop}

theorem reads_pure {a : α} (h : P a) : Reads (pure a) m P := .inr ⟨a, rfl, h⟩

theorem reads_bind {x : BufM α} {f : α → BufM β} (hx : Reads x m P)
    (hf : ∀ a, P a → Reads (f a) m Q) : Reads (x >>= f) m Q := by
  rcases hx with ⟨e, he⟩ | ⟨a, ha, hP⟩
  · exact .inl ⟨e, run_bind_error he⟩
  · rcases hf a hP with ⟨e, he⟩ | ⟨b, hb, hQ⟩
    · exact .inl ⟨e, (run_bind_ok ha).trans he⟩
    · exact .inr ⟨b, (run_bind_ok ha).trans hb, hQ⟩

theorem reads_check (x : Except LuaError α) : Reads (check x) m fun _ => True := by
  cases x with
  | error e => exact .inl ⟨_, rfl⟩
  | ok a => exact .inr ⟨a, rfl, trivial⟩

theorem reads_checkbuf (arg : ℕ) (v : Value) :
    Reads (couvCheckbuf arg v) m fun buf => ∃ b, m.bufs.get b = some buf := by
  rcases checkbuf_cases arg v m with ⟨b, buf, -, hb, he⟩ | ⟨e, he⟩
  · exact .inr ⟨buf, he, b, hb⟩
  · exact .inl ⟨_, he⟩

theorem reads_load (p : Option Ptr) (n : ℤ) : Reads (memLoad p n) m fun _ => True := by
  rcases load_cases p n m with ⟨bs, he⟩ | he
  · exact .inr ⟨bs, he, trivial⟩
  · exact .inl ⟨_, he⟩

theorem reads_uvBufLoad (buf : UvBuf) (n : ℤ) : Reads (buf.load n) m fun _ => True := by
  rcases uvBufLoad_cases buf n m with ⟨bs, he⟩ | he
  · exact .inr ⟨bs, he, trivial⟩
  · exact .inl ⟨_, he⟩

theorem reads_checkbuforstr (arg : ℕ) (v : Value) :
    Reads (couvCheckbuforstr arg v) m fun _ => True := by
  cases hbuf : couvTobuforstr m v with
  | none =>
    refine .inl ⟨.raise (.argError arg "must be string or Buffer"), ?_⟩
    simp only [couvCheckbuforstr, hbuf]
  | some buf => exact .inr ⟨buf, by simp only [couvCheckbuforstr, hbuf], trivial⟩

theorem storesOnce_bind {x : BufM α} {f : α → BufM β} (hx : Reads x m P)
    (hf : ∀ a, P a → StoresOnce (f a) m) : StoresOnce (x >>= f) m := by
  rcases hx with ⟨e, he⟩ | ⟨a, ha, hP⟩
  · exact .inl (after_bind_error he)
  · unfold StoresOnce
    rw [after_bind_ok ha]
    exact hf a hP

/-- The store that ends a call. -/
theorem storesOnce_store {p : Option Ptr} (hp : m.IntoBuffer p) (bs : List UInt8) (vs : β) :
    StoresOnce (memStore p bs >>= fun _ => pure vs) m := by
  obtain ⟨b, buf, i, hb, rfl⟩ := hp
  unfold StoresOnce
  rw [after_bind_pure]
  cases hq : buf.at i with
  | none => exact .inl rfl
  | some q =>
    by_cases hin : m.InBlock q bs.length
    · exact .inr ⟨b, buf, i, q, bs, hb, hq, after_ok (if_pos hin)⟩
    · exact .inl (after_error (if_neg hin))

theorem storesOnce_ite {p : Prop} [Decidable p] {x y : BufM α} (hx : StoresOnce x m)
    (hy : StoresOnce y m) : StoresOnce (if p then x else y) m := by
  split
  · exact hx
  · exact hy

end BufM

namespace Mem

theorem intoBuffer_at {m : Mem} {b : ℕ} {buf : CouvBuf} (hb : m.bufs.get b = some buf) (i : ℤ) :
    m.IntoBuffer (buf.at i) := ⟨b, buf, i, hb, rfl⟩

end Mem

section
variable {m : Mem}

open BufM

theorem storesOnce_method (r : Reader) (self pos : Value) : StoresOnce (r.method self pos) m := by
  rw [r.method_eq]
  refine storesOnce_bind (reads_checkbuf 1 self) fun buf _ => ?_
  refine storesOnce_bind (reads_check _) fun position _ => ?_
  refine storesOnce_bind (reads_check _) fun _ _ => ?_
  exact storesOnce_bind (reads_load _ _) fun _ _ => .inl rfl

theorem storesOnce_put (w : Writer) (self pos : Value) : StoresOnce (w.method self pos) m := by
  rw [w.method_eq]
  refine storesOnce_bind (reads_checkbuf 1 self) fun buf ⟨b, hb⟩ => ?_
  refine storesOnce_bind (reads_check _) fun position _ => ?_
  refine storesOnce_bind (reads_check _) fun value _ => ?_
  refine storesOnce_bind (reads_check _) fun _ _ => ?_
  exact storesOnce_store (Mem.intoBuffer_at hb _) _ _

end

open BufM in
/-- Buffer.new and slice are the operations that make a Buffer. -/
theorem storesOnce_exec (m : Mem) (op : BufOp) (hnew : ∀ env arg, op ≠ .new env arg)
    (hslice : ∀ env self first last, op ≠ .slice env self first last) :
    StoresOnce op.exec m := by
  cases op with
  | new env arg => exact absurd rfl (hnew env arg)
  | slice env self first last => exact absurd rfl (hslice env self first last)
  | fill self byte first last =>
    refine storesOnce_bind (reads_checkbuf 1 self) fun buf ⟨b, hb⟩ => ?_
    refine storesOnce_bind (reads_check _) fun byte _ => ?_
    refine storesOnce_bind (reads_check _) fun first _ => ?_
    refine storesOnce_bind (reads_check _) fun last _ => ?_
    refine storesOnce_bind (reads_check _) fun _ _ => ?_
    refine storesOnce_bind (reads_check _) fun _ _ => ?_
    exact storesOnce_store (Mem.intoBuffer_at hb _) _ _
  | toString self first last =>
    refine storesOnce_bind (reads_checkbuf 1 self) fun buf _ => ?_
    refine storesOnce_bind (reads_check _) fun first _ => ?_
    refine storesOnce_bind (reads_check _) fun last _ => ?_
    refine storesOnce_bind (reads_check _) fun _ _ => ?_
    refine storesOnce_bind (reads_check _) fun _ _ => ?_
    exact storesOnce_bind (reads_load _ _) fun _ _ => .inl rfl
  | copy self target targetFirst sourceFirst sourceLast =>
    refine storesOnce_bind (reads_checkbuf 1 self) fun buf _ => ?_
    refine storesOnce_bind (reads_checkbuf 2 target) fun target ⟨b, hb⟩ => ?_
    refine storesOnce_bind (reads_check _) fun targetFirst _ => ?_
    refine storesOnce_bind (reads_check _) fun sourceFirst _ => ?_
    refine storesOnce_bind (reads_check _) fun sourceLast _ => ?_
    refine storesOnce_bind (reads_check _) fun _ _ => ?_
    refine storesOnce_bind (reads_check _) fun _ _ => ?_
    refine storesOnce_bind (reads_check _) fun _ _ => ?_
    -- without bytes to copy nothing is stored
    refine storesOnce_ite ?_ (.inl rfl)
    refine storesOnce_bind (reads_load _ _) fun bytes _ => ?_
    exact storesOnce_store (Mem.intoBuffer_at hb _) _ _
  | write self str position length =>
    refine storesOnce_bind (reads_checkbuf 1 self) fun buf ⟨b, hb⟩ => ?_
    refine storesOnce_bind (reads_check _) fun str _ => ?_
    refine storesOnce_bind (reads_check _) fun position _ => ?_
    refine storesOnce_bind (reads_check _) fun length _ => ?_
    refine storesOnce_bind (reads_check _) fun _ _ => ?_
    refine storesOnce_bind (reads_check _) fun _ _ => ?_
    refine storesOnce_ite ?_ (.inl rfl)
    refine storesOnce_bind (reads_uvBufLoad _ _) fun bytes _ => ?_
    exact storesOnce_store (Mem.intoBuffer_at hb _) _ _
  | length self => exact storesOnce_bind (reads_checkbuf 1 self) fun buf _ => .inl rfl
  | read r self pos => exact storesOnce_method r self pos
  | put w self pos => exact storesOnce_put w self pos
  | index b key =>
    change StoresOnce (bufferIndex b key) m
    refine storesOnce_bind (reads_check _) fun key _ => ?_
    exact storesOnce_ite (.inl rfl) (storesOnce_method .uint8 _ _)
  | newindex self pos value => exact storesOnce_put (.uint8 value) self pos
  | fsRead fd buf bufPos length fileOffset data =>
    -- the range that libuv fills lies in the Buffer that was checked
    have hrange : Reads (fsRead fd buf bufPos length fileOffset) m fun r =>
        ∃ b buf, m.bufs.get b = some buf ∧ r.base = .mem buf.base buf.len := by
      refine reads_bind (reads_check _) fun fd _ => ?_
      refine reads_bind (reads_checkbuf 2 buf) fun buf ⟨b, hb⟩ => ?_
      refine reads_bind (reads_check _) fun bufPos _ => ?_
      refine reads_bind (reads_check _) fun length _ => ?_
      refine reads_bind (reads_check _) fun fileOffset _ => ?_
      refine reads_bind (reads_check _) fun _ _ => ?_
      refine reads_bind (reads_check _) fun _ _ => ?_
      exact reads_pure ⟨b, buf, hb, rfl⟩
    refine storesOnce_bind hrange fun r ⟨b, buf, hb, hr⟩ => ?_
    unfold uvFsReadStore
    rw [hr]
    exact storesOnce_store (Mem.intoBuffer_at hb _) _ _
  | fsWrite fd buf bufPos length fileOffset =>
    have hrange : Reads (fsWrite fd buf bufPos length fileOffset) m fun _ => True := by
      refine reads_bind (reads_check _) fun fd _ => ?_
      refine reads_bind (reads_checkbuforstr 2 buf) fun buf _ => ?_
      refine reads_bind (reads_check _) fun bufPos _ => ?_
      refine reads_bind (reads_check _) fun length _ => ?_
      refine reads_bind (reads_check _) fun fileOffset _ => ?_
      refine reads_bind (reads_check _) fun _ _ => ?_
      refine reads_bind (reads_check _) fun _ _ => ?_
      exact reads_pure trivial
    refine storesOnce_bind hrange fun r _ => ?_
    -- uv_fs_write reads its range, of a Buffer or of a string
    have hload : Reads (uvFsWriteLoad r) m fun _ => True := by
      unfold uvFsWriteLoad
      split
      · exact reads_load _ _
      · split
        · exact reads_pure trivial
        · exact .inl ⟨_, rfl⟩
    exact storesOnce_bind hload fun _ _ => .inl rfl

end Couv
