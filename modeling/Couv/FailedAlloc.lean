import Couv.LuaValues
import Couv.ReqBlocks

/-! Buffer.new and Buffer.concat when couv_alloc fails: what is left to the collector, and what to
no one. -/
namespace Couv

open HeapM

/-- The error of couv_alloc. -/
def enomem : LuaError := .error "ENOMEM"

/-- The memory of Buffers, and the C heap of the call. -/
abbrev ConcatM := EStateM (Stop CallError) (Mem × CHeap)

namespace ConcatM
variable {α β : Type}

def onMem (x : BufM α) : ConcatM α := fun s =>
  match x s.1 with
  | .ok a m => .ok a (m, s.2)
  | .error (.raise e) m => .error (.raise (.lua e)) (m, s.2)
  | .error .fault m => .error .fault (m, s.2)

/-- The C code may look at the Buffers. -/
def onHeap (x : Mem → ReqM α) : ConcatM α := fun s =>
  match x s.1 s.2 with
  | .ok a h => .ok a (s.1, h)
  | .error e h => .error e (s.1, h)

end ConcatM

open ConcatM in
/-- `buffer_concat`, with the array of uv_buf_t that couv_checkbuforstrtable obtains. -/
def bufferConcatArray (env : AllocEnv) (arrayOk : Bool) (items : Option (List Value))
    (totalLength : Value) : ConcatM (List Value) := do
  let buffers ← onHeap (fun m => ReqM.couvCheckbuforstrtable m 1 items arrayOk)
  -- the elements of the array
  let bufs ← onMem (Couv.couvCheckbuforstrtable (items.getD []))
  let total ← onMem (BufM.check (luaLOptint 2 totalLength 0))
  onHeap (fun _ => use buffers)
  let total := if total = 0 then concatTotal bufs else total
  let target ← onMem (bufferNew env (.number total))
  let buf ← onMem (couvCheckbuf 1 (target.headD .nil))
  onHeap (fun _ => use buffers)
  onMem (concatCopy (buf.base.getD ⟨0, 0⟩) total bufs)
  onHeap (fun _ => free (some buffers))
  return target

/-- A call that makes a Buffer. -/
inductive AllocCall
  | new (env : AllocEnv) (arg : Value)
  | concat (env : AllocEnv) (arrayOk : Bool) (items : Option (List Value)) (totalLength : Value)

def AllocCall.run : AllocCall → ConcatM (List Value)
  | new env arg => ConcatM.onMem (bufferNew env arg)
  | concat env arrayOk items totalLength => bufferConcatArray env arrayOk items totalLength

/-- couv_alloc fails in the call, and its error is raised. -/
def AllocCall.Fails (c : AllocCall) (m m' : Mem) (h' : CHeap) : Prop :=
  c.run (m, .empty) = .error (.raise (.lua enomem)) (m', h')

/-- The collector runs the finaliser of the userdata `b`, which touches no block. -/
def QuietGc (m : Mem) (b : ℕ) : Prop :=
  ∃ vs m', bufferGc (.buffer b) m = .ok vs m' ∧ m'.blocks = m.blocks ∧ m'.freed = m.freed

/-- A failed call has touched no block, nothing is freed when the collector takes a userdata that
the call left, whenever that is, and the array is freed. -/
structure FailedAtomic (s : World) (m' : Mem) (h' : CHeap) : Prop where
  blocks : m'.blocks = s.mem.blocks
  freed : m'.freed = s.mem.freed
  later : ∀ b, s.mem.bufs.get b = none → (m'.bufs.get b).isSome → ∀ mid,
    couv.Enabled { s with mem := m' } mid →
      ((couv.run { s with mem := m' } mid).mem.bufs.get b).isSome →
        QuietGc (couv.run { s with mem := m' } mid).mem b
  array : h'.Released

/-- The allocation that fails leaves nothing behind: fresh userdata memory happens to have a NULL
`orig`, or concat could not allocate the array. -/
def AllocCall.Clean : AllocCall → Prop
  | new env _ => env.uninit.orig = none
  | concat _ arrayOk _ _ => arrayOk = false

/-! What the parts of a sequence did. -/

namespace ConcatM
variable {α : Type} {s s' : Mem × CHeap}

theorem onMem_ok {x : BufM α} {a : α} (h : onMem x s = .ok a s') :
    x s.1 = .ok a s'.1 ∧ s'.2 = s.2 := by
  unfold onMem at h
  split at h
  · next hx =>
    obtain ⟨rfl, rfl⟩ := EStateM.Result.ok.inj h
    exact ⟨hx, rfl⟩
  · cases h
  · cases h

theorem onMem_raise {x : BufM α} {e : LuaError} (h : onMem x s = .error (.raise (.lua e)) s') :
    x s.1 = .error (.raise e) s'.1 ∧ s'.2 = s.2 := by
  unfold onMem at h
  split at h
  · cases h
  · next hx =>
    obtain ⟨he, rfl⟩ := EStateM.Result.error.inj h
    obtain rfl := CallError.lua.inj (Stop.raise.inj he)
    exact ⟨hx, rfl⟩
  · cases h

theorem onHeap_ok {x : Mem → ReqM α} {a : α} (h : onHeap x s = .ok a s') :
    x s.1 s.2 = .ok a s'.2 ∧ s'.1 = s.1 := by
  unfold onHeap at h
  split at h
  · next hx =>
    obtain ⟨rfl, rfl⟩ := EStateM.Result.ok.inj h
    exact ⟨hx, rfl⟩
  · cases h

theorem onHeap_error {x : Mem → ReqM α} {e : Stop CallError} (h : onHeap x s = .error e s') :
    x s.1 s.2 = .error e s'.2 ∧ s'.1 = s.1 := by
  unfold onHeap at h
  split at h
  · cases h
  · next hx =>
    obtain ⟨rfl, rfl⟩ := EStateM.Result.error.inj h
    exact ⟨hx, rfl⟩

end ConcatM

namespace HeapM
variable {ε : Type} {h h' : CHeap} {a : ℕ}

theorem use_ok {u : Unit} (hu : (use a : HeapM ε Unit) h = .ok u h') : h' = h := by
  unfold use at hu
  split at hu
  · exact (EStateM.Result.ok.inj hu).2.symm
  · cases hu

theorem use_error {e : Stop ε} (hu : (use a : HeapM ε Unit) h = .error e h') : e = .fault := by
  unfold use at hu
  split at hu
  · cases hu
  · exact (EStateM.Result.error.inj hu).1.symm

theorem free_error {p : Option ℕ} {e : Stop ε} (hf : (free p : HeapM ε Unit) h = .error e h') :
    e = .fault := by
  unfold free at hf
  split at hf
  · cases hf
  · split at hf
    · cases hf
    · exact (EStateM.Result.error.inj hf).1.symm

end HeapM

/-! The arguments are checked with errors of their own. -/

theorem luaLOptint_enomem {arg : ℕ} {v : Value} {d : ℤ} : luaLOptint arg v d ≠ .error enomem := by
  intro h
  unfold luaLOptint luaLCheckint at h
  split at h
  · cases h
  · split at h
    · cases h
    · cases h

theorem bufferNewArg_enomem {arg : Value} : bufferNewArg arg ≠ .error enomem := by
  intro h
  unfold bufferNewArg at h
  split at h
  · cases h
  · split at h
    · cases h
    · cases h

theorem check_enomem {α : Type} {x : Except LuaError α} {m m' : Mem}
    (h : BufM.check x m = .error (.raise enomem) m') : x = .error enomem := by
  cases x with
  | ok a => cases h
  | error e => rw [Failure.raise.inj (EStateM.Result.error.inj h).1]

theorem check_same {α : Type} {x : Except LuaError α} {a : α} {m m' : Mem}
    (h : BufM.check x m = .ok a m') : m' = m := by
  cases x with
  | ok b => exact (EStateM.Result.ok.inj h).2.symm
  | error e => cases h

theorem couvCheckbuf_enomem (arg : ℕ) (v : Value) (m m' : Mem) :
    couvCheckbuf arg v m ≠ .error (.raise enomem) m' := by
  intro h
  unfold couvCheckbuf at h
  split at h
  · split at h
    · cases h
    · cases h
  · cases h

theorem couvCheckbuforstrtable_enomem (items : List Value) (m m' : Mem) :
    couvCheckbuforstrtable items m ≠ .error (.raise enomem) m' := by
  intro h
  unfold couvCheckbuforstrtable at h
  split at h
  · cases h
  · cases h

theorem checkbuforstrtable_same {items : List Value} (m : Mem) (buffers : List UvBuf) (m' : Mem)
    (h : couvCheckbuforstrtable items m = .ok buffers m') : m' = m := by
  unfold couvCheckbuforstrtable at h
  split at h
  · exact (EStateM.Result.ok.inj h).2.symm
  · cases h

theorem concatCopy_enomem (buffers : List UvBuf) (dst : Ptr) (total : ℤ) (m m' : Mem) :
    concatCopy dst total buffers m ≠ .error (.raise enomem) m' := by
  intro h
  obtain ⟨m₁, -, he | he⟩ := concatCopy_cases buffers dst total m
  · cases he.symm.trans h
  · cases he.symm.trans h

/-- Buffer.new without memory leaves its userdata as it was found. -/
theorem bufferNew_enomem {env : AllocEnv} {arg : Value} {m m' : Mem}
    (h : bufferNew env arg m = .error (.raise enomem) m') : m' = m.abandon env.uninit := by
  rcases bufferNew_cases env m arg with
    ⟨e, harg, he⟩ | ⟨n, str, -, ⟨-, he⟩ | ⟨-, m₁, -, -, he | ⟨-, he⟩⟩⟩
  · obtain rfl := Failure.raise.inj (EStateM.Result.error.inj (he.symm.trans h)).1
    exact absurd harg bufferNewArg_enomem
  · exact (EStateM.Result.error.inj (he.symm.trans h)).2.symm
  · cases he.symm.trans h
  · cases he.symm.trans h

/-! The array. -/

section array
open ReqM
variable {m : Mem} {items : List Value} {h h' : CHeap}

theorem bufLoop_ok {a : ℕ} {u : Unit} (hl : bufLoop m a items h = .ok u h') : h' = h := by
  induction items with
  | nil => exact (EStateM.Result.ok.inj hl).2.symm
  | cons v items ih =>
    cases hv : couvTobuforstr m v with
    | some buf =>
      simp only [bufLoop, hv] at hl
      obtain ⟨_, h₁, huse, hrest⟩ := run_bind_eq_ok hl
      obtain rfl := use_ok huse
      exact ih hrest
    | none =>
      simp only [bufLoop, hv] at hl
      obtain ⟨_, h₁, _, hraise⟩ := run_bind_eq_ok hl
      cases hraise

theorem bufLoop_enomem {a : ℕ} : bufLoop m a items h ≠ .error (.raise (.lua enomem)) h' := by
  intro hl
  induction items with
  | nil => cases hl
  | cons v items ih =>
    cases hv : couvTobuforstr m v with
    | some buf =>
      simp only [bufLoop, hv] at hl
      rcases run_bind_eq_error hl with huse | ⟨_, h₁, huse, hrest⟩
      · cases use_error huse
      · obtain rfl := use_ok huse
        exact ih hrest
    | none =>
      simp only [bufLoop, hv] at hl
      rcases run_bind_eq_error hl with hfree | ⟨_, h₁, _, hraise⟩
      · cases free_error hfree
      · cases hraise

theorem bufArray_ok {arg a : ℕ} {items : Option (List Value)} {ok : Bool}
    (hc : ReqM.couvCheckbuforstrtable m arg items ok h = .ok a h') : ok = true ∧ h' = h.alloc := by
  cases items with
  | none => cases hc
  | some items =>
    obtain ⟨a', h₁, hm, hrest⟩ := run_bind_eq_ok hc
    obtain ⟨u, h₂, hl, hret⟩ := run_bind_eq_ok hrest
    obtain rfl := bufLoop_ok hl
    obtain rfl := (EStateM.Result.ok.inj hret).2
    unfold couvAlloc malloc at hm
    cases ok with
    | false => cases hm
    | true => exact ⟨rfl, (EStateM.Result.ok.inj hm).2.symm⟩

theorem bufArray_enomem {arg : ℕ} {items : Option (List Value)} {ok : Bool}
    (hc : ReqM.couvCheckbuforstrtable m arg items ok h = .error (.raise (.lua enomem)) h') :
    ok = false ∧ h' = h := by
  cases items with
  | none => cases hc
  | some items =>
    rcases run_bind_eq_error hc with hm | ⟨a, h₁, -, hc⟩
    · unfold couvAlloc malloc at hm
      cases ok with
      | false => exact ⟨rfl, (EStateM.Result.error.inj hm).2.symm⟩
      | true => cases hm
    · rcases run_bind_eq_error hc with hl | ⟨u, h₂, -, hc⟩
      · exact absurd hl bufLoop_enomem
      · cases hc

end array

/-! Buffer.concat does to the memory what the function without the array does. -/

/-- The first outcome with the array left out. -/
inductive Shows {α : Type} : EStateM.Result (Stop CallError) (Mem × CHeap) α →
    EStateM.Result Failure Mem α → Prop
  | ok (a : α) (m : Mem) (h : CHeap) : Shows (.ok a (m, h)) (.ok a m)
  | raise (e : LuaError) (m : Mem) (h : CHeap) :
    Shows (.error (.raise (.lua e)) (m, h)) (.error (.raise e) m)
  | fault (m : Mem) (h : CHeap) : Shows (.error .fault (m, h)) (.error .fault m)

namespace ConcatM
variable {α β : Type} {m : Mem} {h : CHeap} {a : ℕ}

theorem shows_onMem (x : BufM α) : Shows (onMem x (m, h)) (x m) := by
  unfold onMem
  split
  · next hx => exact hx ▸ .ok _ _ h
  · next hx => exact hx ▸ .raise _ _ h
  · next hx => exact hx ▸ .fault _ h

theorem shows_bind {x : BufM α} {f : α → ConcatM β} {g : α → BufM β}
    (hf : ∀ a m, Shows (f a (m, h)) (g a m)) :
    Shows ((onMem x >>= f) (m, h)) ((x >>= g) m) := by
  have hx := shows_onMem (m := m) (h := h) x
  change Shows (EStateM.bind _ f _) (EStateM.bind x g m)
  unfold EStateM.bind
  cases hr : x m with
  | ok a m₁ =>
    simp only [onMem, hr]
    exact hf a m₁
  | error e m₁ =>
    cases e with
    | raise e =>
      simp only [onMem, hr]
      exact .raise e m₁ h
    | fault =>
      simp only [onMem, hr]
      exact .fault m₁ h

theorem onHeap_bind_ok {x : Mem → ReqM α} {f : α → ConcatM β} {h' : CHeap} {a : α}
    (hx : x m h = .ok a h') : (onHeap x >>= f) (m, h) = f a (m, h') := by
  change EStateM.bind _ f _ = _
  simp only [EStateM.bind, onHeap, hx]

theorem onHeap_bind_error {x : Mem → ReqM α} {f : α → ConcatM β} {h' : CHeap}
    {e : Stop CallError} (hx : x m h = .error e h') :
    (onHeap x >>= f) (m, h) = .error e (m, h') := by
  change EStateM.bind _ f _ = _
  simp only [EStateM.bind, onHeap, hx]

end ConcatM

section loop
open ReqM
variable {m : Mem} {h : CHeap} {a : ℕ} (ha : (h.live.get a).isSome) {items : List Value}
include ha

theorem use_live : (use a : ReqM Unit) h = .ok () h := if_pos ha

theorem bufLoop_some {bufs : List UvBuf} (hm : items.mapM (couvTobuforstr m) = some bufs) :
    bufLoop m a items h = .ok () h := by
  induction items generalizing bufs with
  | nil => rfl
  | cons v items ih =>
    cases hv : couvTobuforstr m v with
    | none => simp [List.mapM_cons, hv] at hm
    | some buf =>
      cases hrest : items.mapM (couvTobuforstr m) with
      | none => simp [List.mapM_cons, hrest] at hm
      | some bufs =>
        simp only [bufLoop, hv]
        rw [run_bind_ok (use_live ha)]
        exact ih hrest

theorem bufLoop_none (hm : items.mapM (couvTobuforstr m) = none) :
    bufLoop m a items h = .error (.raise (.lua
      (.argError 1 "must be an array (table) of buffers or strings"))) (h.free a) := by
  induction items with
  | nil => cases hm
  | cons v items ih =>
    cases hv : couvTobuforstr m v with
    | none =>
      simp only [bufLoop, hv]
      exact run_bind_ok (if_pos ha)
    | some buf =>
      cases hrest : items.mapM (couvTobuforstr m) with
      | some bufs => simp [List.mapM_cons, hv, hrest] at hm
      | none =>
        simp only [bufLoop, hv]
        rw [run_bind_ok (use_live ha)]
        exact ih hrest

end loop

open ConcatM in
theorem concatArray_shows (env : AllocEnv) (items : List Value) (total : Value) (m : Mem)
    (h : CHeap) : Shows (bufferConcatArray env true (some items) total (m, h))
      (bufferConcat env items total m) := by
  have ha : (h.alloc.live.get h.live.next).isSome := by
    rw [CHeap.alloc, Store.alloc_get_self]
    rfl
  have harray : ReqM.couvCheckbuforstrtable m 1 (some items) true h =
      ((ReqM.bufLoop m h.live.next items >>= fun _ => pure h.live.next) : ReqM ℕ) h.alloc := rfl
  unfold bufferConcatArray bufferConcat
  cases hm : items.mapM (couvTobuforstr m) with
  | none =>
    have hfilled := harray.trans (run_bind_error (bufLoop_none ha hm))
    have hlist : couvCheckbuforstrtable items m = .error (.raise
        (.argError 1 "must be an array (table) of buffers or strings")) m := by
      simp only [couvCheckbuforstrtable, hm]
    rw [onHeap_bind_error hfilled, run_bind_error hlist]
    exact .raise _ m _
  | some bufs =>
    have hfilled := harray.trans (run_bind_ok (bufLoop_some ha hm))
    rw [onHeap_bind_ok hfilled]
    -- both run the same checks and copies; the accesses of the array do not show
    refine shows_bind fun bufs m => ?_
    refine shows_bind fun total m => ?_
    rw [onHeap_bind_ok (if_pos ha)]
    refine shows_bind fun target m => ?_
    refine shows_bind fun buf m => ?_
    rw [onHeap_bind_ok (if_pos ha)]
    refine shows_bind fun _ m => ?_
    rw [onHeap_bind_ok (if_pos ha)]
    exact .ok target m _

/-! The steps of Buffer.concat. -/

namespace ConcatM
variable {α β : Type}

/-- The program does not report ENOMEM. -/
def Silent (x : ConcatM α) : Prop := ∀ s s', x s ≠ .error (.raise (.lua enomem)) s'

/-- The program only reads the memory, and does not report ENOMEM. -/
structure Checks (x : ConcatM α) : Prop where
  same : ∀ s a s', x s = .ok a s' → s' = s
  silent : Silent x

theorem silent_pure (a : α) : Silent (pure a) := fun _ _ h => by cases h

theorem Silent.bind {x : ConcatM α} {f : α → ConcatM β} (hx : Silent x) (hf : ∀ a, Silent (f a)) :
    Silent (x >>= f) := by
  intro s s' h
  rcases run_bind_eq_error h with h | ⟨a, t, -, h⟩
  · exact hx s s' h
  · exact hf a t s' h

theorem silent_onMem {x : BufM α} (hx : ∀ m m', x m ≠ .error (.raise enomem) m') :
    Silent (onMem x) := fun _ _ h => hx _ _ (onMem_raise h).1

theorem checks_onMem {x : BufM α} (hsame : ∀ m a m', x m = .ok a m' → m' = m)
    (hx : ∀ m m', x m ≠ .error (.raise enomem) m') : Checks (onMem x) where
  same s a s' h := by
    obtain ⟨hok, hheap⟩ := onMem_ok h
    exact Prod.ext (hsame _ _ _ hok) hheap
  silent := silent_onMem hx

theorem checks_use (a : ℕ) : Checks (onHeap (fun _ => use a)) where
  same s u s' h := by
    obtain ⟨hok, hmem⟩ := onHeap_ok h
    exact Prod.ext hmem (use_ok hok)
  silent s s' h := by cases use_error (onHeap_error h).1

theorem silent_free (p : Option ℕ) : Silent (onHeap (fun _ => free p)) := fun _ _ h => by
  cases free_error (onHeap_error h).1

/-- A sequence that reports ENOMEM does so after its checks. -/
theorem Checks.bind_error {x : ConcatM α} {f : α → ConcatM β} {s s' : Mem × CHeap} (hx : Checks x)
    (h : (x >>= f) s = .error (.raise (.lua enomem)) s') :
    ∃ a, f a s = .error (.raise (.lua enomem)) s' := by
  rcases run_bind_eq_error h with h | ⟨a, t, hok, h⟩
  · exact absurd h (hx.silent s s')
  · exact ⟨a, hx.same s a t hok ▸ h⟩

/-- What follows the allocation. -/
theorem Silent.bind_error {x : ConcatM α} {f : α → ConcatM β} {s s' : Mem × CHeap}
    (hf : ∀ a, Silent (f a)) (h : (x >>= f) s = .error (.raise (.lua enomem)) s') :
    x s = .error (.raise (.lua enomem)) s' := by
  rcases run_bind_eq_error h with h | ⟨a, t, -, h⟩
  · exact h
  · exact absurd h (hf a t s')

end ConcatM

/-! How the calls fail. -/

section fails
open ConcatM
variable {env : AllocEnv} {m m' : Mem} {h' : CHeap}

theorem new_fails {arg : Value} (hf : (AllocCall.new env arg).Fails m m' h') :
    m' = m.abandon env.uninit ∧ h' = .empty := by
  obtain ⟨hx, hheap⟩ := onMem_raise hf
  exact ⟨bufferNew_enomem hx, hheap⟩

/-- Either the array is not there, or the userdata is left as it was found and the array is
never freed. -/
theorem concat_fails {arrayOk : Bool} {items : Option (List Value)} {total : Value}
    (hf : (AllocCall.concat env arrayOk items total).Fails m m' h') :
    (arrayOk = false ∧ m' = m ∧ h' = .empty) ∨
      (arrayOk = true ∧ m' = m.abandon env.uninit ∧ h' = CHeap.empty.alloc) := by
  change bufferConcatArray env arrayOk items total (m, .empty) = _ at hf
  unfold bufferConcatArray at hf
  rcases run_bind_eq_error hf with harr | ⟨a, t, harr, hf⟩
  · obtain ⟨harr, hm⟩ := onHeap_error harr
    obtain ⟨hno, hheap⟩ := bufArray_enomem harr
    exact .inl ⟨hno, hm, hheap⟩
  obtain ⟨harr, hm⟩ := onHeap_ok harr
  obtain ⟨hok, hheap⟩ := bufArray_ok harr
  obtain rfl : t = (m, CHeap.empty.alloc) := Prod.ext hm hheap
  obtain ⟨bufs, hf⟩ := (checks_onMem checkbuforstrtable_same
    (couvCheckbuforstrtable_enomem _)).bind_error hf
  obtain ⟨total, hf⟩ := (checks_onMem (fun _ _ _ => check_same)
    fun _ _ h => luaLOptint_enomem (check_enomem h)).bind_error hf
  obtain ⟨-, hf⟩ := (checks_use a).bind_error hf
  -- what follows Buffer.new raises no ENOMEM
  have hnew := Silent.bind_error (fun target => ?_) hf
  · obtain ⟨hnew, hheap⟩ := onMem_raise hnew
    exact .inr ⟨hok, bufferNew_enomem hnew, hheap⟩
  · refine (silent_onMem (couvCheckbuf_enomem _ _)).bind fun buf => ?_
    refine (checks_use a).silent.bind fun _ => ?_
    refine (silent_onMem (concatCopy_enomem _ _ _)).bind fun _ => ?_
    exact (silent_free _).bind fun _ => silent_pure target

/-- The step of the system ends in the memory of the failed call. -/
theorem new_exec {s : World} {arg : Value} (hf : (AllocCall.new env arg).Fails s.mem m' h') :
    s.exec (.heap (.bufNew env arg)) = { s with mem := m' } := by
  obtain ⟨hx, -⟩ := onMem_raise hf
  simp only [World.exec, World.execHeap, World.runBuf, hx]

theorem concat_exec {s : World} {items : List Value} {total : Value}
    (hf : (AllocCall.concat env true (some items) total).Fails s.mem m' h') :
    s.exec (.heap (.bufConcat env items total)) = { s with mem := m' } := by
  have hshows := concatArray_shows env items total s.mem .empty
  change bufferConcatArray env true (some items) total (s.mem, .empty) = _ at hf
  rw [hf] at hshows
  simp only [World.exec, World.execHeap, World.runBuf]
  cases hc : bufferConcat env items total s.mem with
  | ok vs m =>
    rw [hc] at hshows
    cases hshows
  | error e m =>
    rw [hc] at hshows
    cases hshows
    rfl

end fails

/-! The finaliser. -/

theorem release_moves {ptr : Option ℕ} {m m' : Mem} {u : Unit}
    (h : couvBufMemRelease ptr m = .ok u m') :
    ¬(m'.blocks = m.blocks ∧ m'.freed = m.freed) := by
  rintro ⟨hblocks, hfreed⟩
  rcases release_cases ptr m with he | ⟨blk, bl, -, hbl, he | he⟩
  · cases he.symm.trans h
  · obtain rfl := (EStateM.Result.ok.inj (he.symm.trans h)).2
    have hlen := congrArg List.length hfreed
    simp at hlen
  · obtain rfl := (EStateM.Result.ok.inj (he.symm.trans h)).2
    -- the counter is never its own predecessor, not even modulo 2^32
    have hget := m.blocks.modify_get_self (fun b => { b with refCnt := cInt (bl.refCnt-1) }) hbl
    unfold Mem.setRefCnt at hblocks
    simp only at hblocks
    rw [hblocks, hbl] at hget
    have hcnt := congrArg Block.refCnt (Option.some.inj hget)
    have hmod : cInt (bl.refCnt-1) % 2^32 = (bl.refCnt-1) % 2^32 := Int.bmod_emod
    simp only at hcnt
    omega

/-- The finaliser of a Buffer touches no block just when its `orig` is NULL. -/
theorem quietGc_iff {m : Mem} {b : ℕ} {buf : CouvBuf} (hb : m.bufs.get b = some buf) :
    QuietGc m b ↔ buf.orig = none := by
  have hcheck : couvCheckbuf 1 (.buffer b) m = .ok buf m := by
    simp only [couvCheckbuf, hb]
  unfold QuietGc bufferGc
  rw [run_bind_ok hcheck]
  cases ho : buf.orig with
  | none => exact iff_of_true ⟨[], m, rfl, rfl, rfl⟩ rfl
  | some blk =>
    refine iff_of_false ?_ (Option.some_ne_none blk)
    rintro ⟨vs, m', hgc, hquiet⟩
    obtain ⟨u, m₁, hrel, hret⟩ := run_bind_eq_ok hgc
    obtain rfl := (EStateM.Result.ok.inj hret).2
    exact release_moves hrel hquiet

/-- A userdata keeps its contents until it is collected, whatever the program does. -/
theorem World.run_bufs {s : World} {as : List Action} (h : couv.Enabled s as) :
    s.mem.bufs.Later (couv.run s as).mem.bufs :=
  couv.run_invariant (I := fun s' => s.mem.bufs.Later s'.mem.bufs)
    (fun _ _ hs hg => hs.trans (exec_later hg).1) (.refl _) h

section atomic
variable {s : World} {env : AllocEnv} {m' : Mem} {h' : CHeap}

/-- The call has left nothing. -/
theorem FailedAtomic.unchanged : FailedAtomic s s.mem .empty where
  blocks := rfl
  freed := rfl
  later b hb hsome := by
    rw [hb] at hsome
    cases hsome
  array _ ha := absurd ha (Nat.not_lt_zero _)

/-- The call has left a userdata. -/
theorem failedAtomic_abandon : FailedAtomic s (s.mem.abandon env.uninit) h' ↔
    env.uninit.orig = none ∧ h'.Released := by
  have hself : (s.mem.abandon env.uninit).bufs.get s.mem.bufs.next = some env.uninit :=
    s.mem.bufs.alloc_get_self _
  constructor
  · intro h
    refine ⟨?_, h.array⟩
    have hsome : ((s.mem.abandon env.uninit).bufs.get s.mem.bufs.next).isSome := by
      rw [hself]
      rfl
    -- the next collection will do
    exact (quietGc_iff hself).mp
      (h.later s.mem.bufs.next (s.mem.bufs.fresh _ le_rfl) hsome [] trivial hsome)
  · rintro ⟨horig, harray⟩
    refine ⟨rfl, rfl, ?_, harray⟩
    intro b hb hsome mid hmid hlive
    obtain ⟨buf, hbuf⟩ := Option.isSome_iff_exists.mp hlive
    refine (quietGc_iff hbuf).mpr ?_
    obtain ⟨buf', hbuf'⟩ := Option.isSome_iff_exists.mp hsome
    have hold := (World.run_bufs hmid).old b buf (Store.lt_next _ hbuf') hbuf
    rcases (s.mem.bufs.alloc_eq_some).mp hold with ⟨-, rfl⟩ | ⟨-, hb'⟩
    · exact horig
    · cases hb.symm.trans hb'

/-- Exactly when a failed allocation is atomic. -/
theorem failed_atomic_iff {c : AllocCall} (hfail : c.Fails s.mem m' h') :
    FailedAtomic s m' h' ↔ c.Clean := by
  cases c with
  | new env arg =>
    obtain ⟨rfl, rfl⟩ := new_fails hfail
    rw [failedAtomic_abandon]
    exact and_iff_left fun _ ha => absurd ha (Nat.not_lt_zero _)
  | concat env arrayOk items total =>
    rcases concat_fails hfail with ⟨hno, rfl, rfl⟩ | ⟨hok, rfl, rfl⟩
    · exact iff_of_true .unchanged hno
    · refine iff_of_false ?_ (by simp only [AllocCall.Clean, hok]; exact Bool.noConfusion)
      rw [failedAtomic_abandon]
      exact fun h => absurd (h.2 0 (Nat.zero_lt_one)) (by decide)

theorem failed_atomic_null : FailedAtomic .init (Mem.empty.abandon ⟨none, none, 0⟩) .empty :=
  (failed_atomic_iff (s := .init)
    (c := .new ⟨false, fun _ => 0, ⟨none, none, 0⟩⟩ (.number 4)) rfl).mpr rfl

/-- The memory of the new userdata still holds a pointer to the block of another Buffer. The
collection of the userdata frees the block of that Buffer. -/
theorem abandoned_frees :
    let s := couv.run .init [.heap (.bufNew ⟨true, fun _ => 0, ⟨none, none, 0⟩⟩ (.number 4))]
    let m := s.mem.abandon ⟨some 0, none, 0⟩
    (AllocCall.new ⟨false, fun _ => 0, ⟨some 0, none, 0⟩⟩ (.number 4)).Fails s.mem m .empty ∧
      ¬FailedAtomic s m .empty ∧
      (∃ buf ∈ s.mem.bufs.get 0, buf.orig = some 0) ∧
      couv.Enabled { s with mem := m } [.gc (.buffer 1)] ∧
      (World.exec { s with mem := m } (.gc (.buffer 1))).mem.freed = [0] := by
  intro s m
  refine ⟨rfl, ?_, ⟨_, rfl, rfl⟩, by decide, rfl⟩
  have hself : m.bufs.get 1 = some ⟨some 0, none, 0⟩ := rfl
  intro h
  have hquiet := h.later 1 rfl rfl [] trivial rfl
  cases (quietGc_iff hself).mp hquiet

end atomic

end Couv
