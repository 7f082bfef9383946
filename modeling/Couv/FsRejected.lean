import Couv.LuaStack
import Couv.ReqBlocks

/-! An fs call of a coroutine whose request libuv rejects. -/
namespace Couv

/-- A slot of the stack of a coroutine that is in an fs call. -/
inductive FsSlot
  | value (v : Value)
  | thread (L : ℕ)

/-- The stack of the coroutine, the threads kept in the registry under the keys of requests, and
the C heap. -/
structure FsState where
  stack : LuaStack FsSlot
  threads : ℕ → Option FsSlot
  heap : CHeap

/-- `return n`, or `return lua_yield(L, 0)` -/
inductive FsReturn
  | results (n : ℕ)
  | yield
  deriving DecidableEq

namespace FsState
variable (s : FsState)

/-- The values are pushed, then the request is cleaned up, and freed when it has a callback. -/
def pushResults (req : ℕ) (r : UvFsReq) (vs : List Value) : FsState × FsReturn :=
  ({ s with
      stack := s.stack.pushAll (vs.map .value)
      heap := if r.cb then s.heap.free req else s.heap }, .results vs.length)

/-- `fs_error` -/
def fsError (req : ℕ) (r : UvFsReq) (lastError : ℤ) : FsState × FsReturn :=
  s.pushResults req r (Couv.fsError r.fsType (r.outcome lastError))

/-- `fs_push_exists_results` -/
def fsPushExistsResults (req : ℕ) (r : UvFsReq) (lastError : ℤ) : FsState × FsReturn :=
  s.pushResults req r (Couv.fsPushExistsResults (r.outcome lastError))

/-- `couv_rawsetp(L, LUA_REGISTRYINDEX, COUV_THREAD_REG_KEY(req))`, which pops the value. -/
def rawsetp (req : ℕ) : FsState :=
  { s with
    stack := s.stack.pop 1
    threads := fun a => if a = req then s.stack.get (-1) else s.threads a }

def fsAfterAsyncCall (req : ℕ) (ret : ℤ) (pushFunc : FsState → FsState × FsReturn) :
    FsState × FsReturn :=
  if ret < 0 then pushFunc { s with stack := s.stack.pop 1 }
  else (s.rawsetp req, .yield)

/-- The branch of a coroutine: couvL_is_mainthread leaves the thread on the stack, fs_alloc_req
gives a block, and libuv fills in the request `r` and returns `ret`. Every function but fs_exists
passes fs_error on. -/
def fsAsyncCall (push : FsPush) (L : ℕ) (r : UvFsReq) (ret lastError : ℤ) : FsState × FsReturn :=
  let req := s.heap.live.next
  let s := { s with stack := s.stack.push (.thread L), heap := s.heap.alloc }
  match push with
  | .common => s.fsAfterAsyncCall req ret (fun s => s.fsError req r lastError)
  | .exists => s.fsAfterAsyncCall req ret (fun s => s.fsPushExistsResults req r lastError)

end FsState

/-- `fs_error` pushes nil in front of the name for these types. -/
def FsType.hasResult : FsType → Bool
  | .open | .read | .write | .lstat | .fstat | .stat | .readlink | .readdir => true
  | _ => false

/-- The functions with two results are those that error1 wraps. -/
theorem FsFn.branches_push {fn : FsFn} {m : Mem} {args : List LuaArg} {b : FsBranches}
    (h : fn.branches m args = .ok b) (hfn : fn ≠ .exists) :
    b.push = .common ∧ fn.wrap = if b.async.fsType.hasResult then error1 else error0 := by
  have hok {x : Except LuaError FsBranches} (hx : x.mapError Failure.raise = .ok b) :
      x = .ok b := by
    cases x with
    | error e => cases hx
    | ok b' => exact congrArg Except.ok (Except.ok.inj hx)
  -- by the number of checks before the calls
  cases fn with
  | «exists» => exact absurd rfl hfn
  | read | write =>
    simp only [branches] at h
    split at h
    · obtain rfl := Except.ok.inj h
      exact ⟨rfl, rfl⟩
    · cases h
  | chmod | fchmod | ftruncate | link | mkdir | rename | symlink =>
    obtain ⟨_, -, h⟩ := bind_eq_ok (hok h)
    obtain ⟨_, -, h⟩ := bind_eq_ok h
    cases h
    exact ⟨rfl, rfl⟩
  | chown | fchown | futime | utime | «open» =>
    obtain ⟨_, -, h⟩ := bind_eq_ok (hok h)
    obtain ⟨_, -, h⟩ := bind_eq_ok h
    obtain ⟨_, -, h⟩ := bind_eq_ok h
    cases h
    exact ⟨rfl, rfl⟩
  | _ =>
    obtain ⟨_, -, h⟩ := bind_eq_ok (hok h)
    cases h
    exact ⟨rfl, rfl⟩

theorem FsFn.branches_exists {m : Mem} {args : List LuaArg} {b : FsBranches}
    (h : FsFn.exists.branches m args = .ok b) : b.push = .exists := by
  cases hx : fsExists args with
  | error e =>
    rw [branches, hx] at h
    cases h
  | ok b' =>
    rw [branches, hx] at h
    obtain rfl := Except.ok.inj h
    obtain ⟨_, -, hx⟩ := bind_eq_ok hx
    cases hx
    rfl

/-- An error that is pushed is raised by the wrapper. -/
theorem wrap_fsError {fn : FsFn} {t : FsType} (h : fn.wrap = if t.hasResult then error1 else error0)
    (o : Outcome) : fn.wrap (fsError t o) = .error (.errname o.code) := by
  rw [h]
  cases t <;> rfl

/-- What the rejected branch pushes. -/
def FsPush.rejected (push : FsPush) (r : UvFsReq) (lastError : ℤ) : List Value :=
  match push with
  | .common => fsError r.fsType (r.outcome lastError)
  | .exists => fsPushExistsResults (r.outcome lastError)

/-- What a rejected call should leave: it returns, its results are all that is on the stack, and
after the wrapper it has ended as the call of the main thread that fails with the last error; the
request was freed once, and no registry entry was made. -/
structure RejectKept (fn : FsFn) (m : Mem) (args : List LuaArg) (lastError : ℤ) (s : FsState)
    (end_ : FsState × FsReturn) : Prop where
  results : ∃ vs, end_.2 = .results vs.length ∧ end_.1.stack = s.stack.pushAll (vs.map .value) ∧
    ∀ o errorno, o.status < 0 → o.code = lastError →
      fn.wrap vs = (fn.runSync m args o errorno).ended
  freed : end_.1.heap.freed = s.heap.live.next :: s.heap.freed
  gone : end_.1.heap.live.get s.heap.live.next = none
  threads : end_.1.threads = s.threads

section
variable {fn : FsFn} {m : Mem} {args : List LuaArg} {b : FsBranches} {o : Outcome}

/-- The request that libuv leaves has a callback, so it is freed and its own code is read. -/
theorem fsAsyncCall_rejected (s : FsState) (L : ℕ) {ret : ℤ} (hret : ret < 0) (push : FsPush)
    (b : FsBranches) (o : Outcome) (lastError : ℤ) :
    s.fsAsyncCall push L (b.asyncReq o) ret lastError =
      ({ s with
          stack := s.stack.pushAll ((push.rejected (b.asyncReq o) lastError).map .value)
          heap := s.heap.alloc.free s.heap.live.next },
        .results (push.rejected (b.asyncReq o) lastError).length) := by
  cases push <;>
    simp only [FsState.fsAsyncCall, FsState.fsAfterAsyncCall, if_pos hret, FsState.fsError,
      FsState.fsPushExistsResults, FsState.pushResults, LuaStack.pop_push, LuaStack.pop_zero] <;>
    rfl

/-- The heap is the one that the block-level model of the call leaves. -/
theorem fsReq_rejected {env : ReqEnv} (hb : fn.branches env.mem args = .ok b)
    (hT : env.thread ≠ mainThread) (halloc : env.allocs 0 = true) {code : ℤ}
    (huv : env.uv = some code) (s : FsState) (L : ℕ) {ret : ℤ} (hret : ret < 0) (o : Outcome)
    (lastError : ℤ) : fsReq env fn args s.heap =
      .ok .returned (s.fsAsyncCall b.push L (b.asyncReq o) ret lastError).1.heap := by
  have hlive : (s.heap.alloc.live.get s.heap.live.next).isSome := by
    rw [CHeap.alloc, Store.alloc_get_self]
    rfl
  rw [fsAsyncCall_rejected s L hret]
  simp only [fsReq, hb, if_neg hT, huv, ReqM.couvAlloc, halloc, fsReqCb]
  simp only [bind, EStateM.bind, HeapM.malloc, HeapM.use, HeapM.free, hlive, if_true]
  rfl

/-- How the call of the main thread ends that fails. -/
theorem runSync_fails (hb : fn.branches m args = .ok b) (o : Outcome) (ho : o.status < 0)
    (errorno : ℤ) : (fn.runSync m args o errorno).ended =
      if fn = .exists then .returns [.boolean false] else .error (.errname o.code) := by
  have hne : decide (o.status = 0) = false := decide_eq_false (by omega)
  simp only [FsFn.runSync, hb]
  split
  · next hfn =>
    subst hfn
    rw [FsFn.branches_exists hb]
    change FsEnd.returns [.boolean (decide (o.status = 0))] = _
    rw [hne]
  · next hfn =>
    obtain ⟨hpush, hwrap⟩ := FsFn.branches_push hb hfn
    rw [← FsFn.branches_same hb] at hwrap
    rw [hpush]
    change fn.wrap (if o.status < 0 then fsError _ _ else _) = _
    rw [if_pos ho, wrap_fsError hwrap]
    rfl

/-- How the rejected call of a coroutine ends. -/
theorem wrap_rejected (hb : fn.branches m args = .ok b) (o : Outcome) (lastError : ℤ) :
    fn.wrap (b.push.rejected (b.asyncReq o) lastError) =
      if fn = .exists then .returns [.boolean (o.status = 0)] else .error (.errname o.code) := by
  split
  · next hfn =>
    subst hfn
    rw [FsFn.branches_exists hb]
    rfl
  · next hfn =>
    obtain ⟨hpush, hwrap⟩ := FsFn.branches_push hb hfn
    rw [hpush]
    exact wrap_fsError hwrap _

/-- The results of a rejected call that is as it should be end it as the failed call. -/
theorem RejectKept.wrap_eq {s : FsState} {L : ℕ} {ret lastError : ℤ} (hret : ret < 0)
    (h : RejectKept fn m args lastError s
      (s.fsAsyncCall b.push L (b.asyncReq o) ret lastError)) (errorno : ℤ) :
    fn.wrap (b.push.rejected (b.asyncReq o) lastError) =
      (fn.runSync m args ⟨-1, lastError, [], [], [], []⟩ errorno).ended := by
  rw [fsAsyncCall_rejected s L hret] at h
  obtain ⟨vs, -, hstack, hend⟩ := h.results
  have hvs : vs = b.push.rejected (b.asyncReq o) lastError :=
    List.map_injective_iff.mpr (fun _ _ hv => FsSlot.value.inj hv)
      (LuaStack.pushAll_inj hstack).symm
  have hneg : (-1 : ℤ) < 0 := by decide
  exact hvs ▸ hend ⟨-1, lastError, [], [], [], []⟩ errorno hneg rfl

end

/-- The blocks and the stack are as they should be, but the call ends with the error code of the
request, which is 0, and exists takes its result 0 for success: only a function that raises, and
only when the last error is 0 as well, ends as it should. -/
theorem reject_kept_iff {fn : FsFn} {m : Mem} {args : List LuaArg} {b : FsBranches}
    (hb : fn.branches m args = .ok b) {o : Outcome} (hresult : o.status = 0) (herrno : o.code = 0)
    {ret : ℤ} (hret : ret < 0) (s : FsState) (L : ℕ) (lastError : ℤ) :
    RejectKept fn m args lastError s (s.fsAsyncCall b.push L (b.asyncReq o) ret lastError) ↔
      fn ≠ .exists ∧ lastError = 0 := by
  have hwrap := wrap_rejected hb o lastError
  have hneg : (-1 : ℤ) < 0 := by decide
  constructor
  · intro h
    have hsync := h.wrap_eq hret 0
    rw [hwrap, runSync_fails hb _ hneg] at hsync
    by_cases hfn : fn = .exists
    · rw [if_pos hfn, if_pos hfn, hresult] at hsync
      cases hsync
    · rw [if_neg hfn, if_neg hfn, herrno] at hsync
      exact ⟨hfn, (Value.errname.inj (FsEnd.error.inj hsync)).symm⟩
  · rintro ⟨hfn, rfl⟩
    rw [fsAsyncCall_rejected s L hret]
    refine ⟨⟨_, rfl, rfl, ?_⟩, rfl, ?_, rfl⟩
    · intro o' errorno ho' hcode
      rw [hwrap, runSync_fails hb o' ho', if_neg hfn, if_neg hfn, herrno, hcode]
    · exact Store.free_get_self _ _

/-- A coroutine with one argument on its stack. -/
def oneArg (v : Value) : FsState := ⟨⟨[.value v]⟩, fun _ => none, .empty⟩

/-- Without a recorded cause both forms raise the name of the code 0. -/
theorem reject_kept_close : RejectKept .close .empty [.value (.number 3)] 0 (oneArg (.number 3))
    ((oneArg (.number 3)).fsAsyncCall .common 1
      ((⟨.close 3, .close 3, .common⟩ : FsBranches).asyncReq .ok) (-1) 0) :=
  (reject_kept_iff (b := ⟨.close 3, .close 3, .common⟩) rfl (o := .ok) rfl rfl (by decide) _ 1
    0).mpr ⟨by decide, rfl⟩

/-- With the last error 26, close raises the name of the code 0, and exists is true. -/
theorem rejected_by_libuv : ¬RejectKept .close .empty [.value (.number 3)] 26 (oneArg (.number 3))
    ((oneArg (.number 3)).fsAsyncCall .common 1
      ((⟨.close 3, .close 3, .common⟩ : FsBranches).asyncReq .ok) (-1) 26) ∧
    ¬RejectKept .exists .empty [.value (.string [97])] 26 (oneArg (.string [97]))
      ((oneArg (.string [97])).fsAsyncCall .exists 1
        ((⟨.stat (.string [97]), .stat (.string [97]), .exists⟩ : FsBranches).asyncReq .ok) (-1)
        26) := by
  constructor
  · intro h
    have hend := RejectKept.wrap_eq (b := ⟨.close 3, .close 3, .common⟩) (by decide) h 0
    cases hend
  · intro h
    have hend := RejectKept.wrap_eq
      (b := ⟨.stat (.string [97]), .stat (.string [97]), .exists⟩) (by decide) h 0
    cases hend

end Couv
