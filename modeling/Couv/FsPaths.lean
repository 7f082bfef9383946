import Couv.Fs
import Couv.Pending

/-! The synchronous and the asynchronous path of an fs call end in the same way. -/
namespace Couv

/-- A `uv_fs_t`; `cb` says whether it has a callback. -/
structure UvFsReq where
  fsType : FsType
  cb : Bool
  result : ℤ
  errorno : ℤ
  text : LuaString
  stat : List UInt8
  entries : List LuaString

namespace UvFsReq
variable (req : UvFsReq)

/-- The code in `fs_error`; `lastError` is that of the loop. -/
def errcode (lastError : ℤ) : ℤ := if req.cb then req.errorno else lastError

/-- What the request reports, with the error code that fs_error chooses. -/
def outcome (lastError : ℤ) : Outcome :=
  ⟨req.result, req.errcode lastError, [], req.text, req.stat, req.entries⟩

end UvFsReq

/-- `fs_push_common_results` or `fs_push_exists_results` -/
def FsPush.values (push : FsPush) (req : UvFsReq) (lastError : ℤ) : List Value :=
  match push with
  | .common => fsPushCommonResults req.fsType (req.outcome lastError)
  | .exists => fsPushExistsResults (req.outcome lastError)

/-! couv.lua -/

/-- How a call ends for the caller: with its results, by an error of the C function, or by
`error` with a value. -/
inductive FsEnd
  | returns (vs : List Value)
  | raises (e : Failure)
  | error (err : Value)
  deriving DecidableEq, Repr

/-- The value `i` of a list of results, counted from 0. -/
def resultAt (vs : List Value) (i : ℕ) : Value := vs.getD i .nil

def error0 (vs : List Value) : FsEnd :=
  if (resultAt vs 0).truthy then .error (resultAt vs 0) else .returns []

def error1 (vs : List Value) : FsEnd :=
  if (resultAt vs 1).truthy then .error (resultAt vs 1) else .returns [resultAt vs 0]

/-- `uv.fs.exists` is the C function itself. -/
def FsFn.wrap (fn : FsFn) : List Value → FsEnd :=
  match fn with
  | .exists => .returns
  | .open | .read | .write | .lstat | .fstat | .stat | .readlink | .readdir => error1
  | _ => error0

/-! The two paths. -/

/-- What libuv was called with, and how the call ended. -/
structure FsRun where
  uvCall : Option UvFsCall
  ended : FsEnd

/-- The branch of the main thread. libuv leaves its error in the loop; `errorno` of the request
on the C stack is not read. -/
def FsFn.runSync (fn : FsFn) (m : Mem) (args : List LuaArg) (o : Outcome) (errorno : ℤ) : FsRun :=
  match fn.branches m args with
  | .error e => ⟨none, .raises e⟩
  | .ok b =>
    let req : UvFsReq := ⟨b.sync.fsType, false, o.status, errorno, o.text, o.stat, o.entries⟩
    ⟨some b.sync, fn.wrap (b.push.values req o.code)⟩

/-- The request that the callback of the other branch gets. -/
def FsBranches.asyncReq (b : FsBranches) (o : Outcome) : UvFsReq :=
  ⟨b.async.fsType, true, o.status, o.code, o.text, o.stat, o.entries⟩

/-- The branch of a coroutine, when libuv accepts the request and its callback resumes the
call. `lastError` is what the loop holds by then. -/
def FsFn.runAsync (fn : FsFn) (m : Mem) (args : List LuaArg) (o : Outcome) (lastError : ℤ) :
    FsRun :=
  match fn.branches m args with
  | .error e => ⟨none, .raises e⟩
  | .ok b => ⟨some b.async, fn.wrap (b.push.values (b.asyncReq o) lastError)⟩

/-- The kind of request that a coroutine waits for. -/
def FsBranches.kind (b : FsBranches) : FsType :=
  match b.push with
  | .common => b.async.fsType
  | .exists => .exists

/-! The two branches of every function are written with the same arguments. -/

/-- A check that passes gives branches with one libuv call. -/
def SameCall (x : Except LuaError FsBranches) : Prop := ∀ b, x = .ok b → b.sync = b.async

theorem sameCall_pure {b : FsBranches} (h : b.sync = b.async) : SameCall (pure b) := by
  intro b' hb
  obtain rfl := Except.ok.inj hb
  exact h

theorem sameCall_bind {α : Type} {x : Except LuaError α} {f : α → Except LuaError FsBranches}
    (h : ∀ a, SameCall (f a)) : SameCall (x >>= f) := by
  intro b hb
  obtain ⟨a, -, hb⟩ := bind_eq_ok hb
  exact h a b hb

theorem sameCall_one {α : Type} {x : Except LuaError α} {f : α → FsBranches}
    (h : ∀ a, (f a).sync = (f a).async) : SameCall (do let a ← x; return f a) :=
  sameCall_bind fun a => sameCall_pure (h a)

theorem sameCall_two {α β : Type} {x : Except LuaError α} {y : Except LuaError β}
    {f : α → β → FsBranches} (h : ∀ a b, (f a b).sync = (f a b).async) :
    SameCall (do let a ← x; let b ← y; return f a b) :=
  sameCall_bind fun a => sameCall_one (h a)

theorem sameCall_three {α β γ : Type} {x : Except LuaError α} {y : Except LuaError β}
    {z : Except LuaError γ} {f : α → β → γ → FsBranches}
    (h : ∀ a b c, (f a b c).sync = (f a b c).async) :
    SameCall (do let a ← x; let b ← y; let c ← z; return f a b c) :=
  sameCall_bind fun a => sameCall_two (h a)

theorem FsFn.branches_same {fn : FsFn} {m : Mem} {args : List LuaArg} {b : FsBranches}
    (h : fn.branches m args = .ok b) : b.sync = b.async := by
  have hchecks : ∀ {x : Except LuaError FsBranches}, SameCall x →
      x.mapError Failure.raise = .ok b → b.sync = b.async := by
    intro x hx hb
    cases x with
    | error e => cases hb
    | ok b' => exact hx b (congrArg Except.ok (Except.ok.inj hb))
  cases fn with
  | read | write =>
    simp only [branches] at h
    split at h
    · obtain rfl := Except.ok.inj h
      rfl
    · cases h
  | chmod | fchmod | ftruncate | link | mkdir | rename | symlink =>
    exact hchecks (sameCall_two fun _ _ => rfl) h
  | chown | fchown | futime | utime =>
    exact hchecks (sameCall_three fun _ _ _ => rfl) h
  | _ =>
    first
    | exact hchecks (sameCall_one fun _ => rfl) h
    | exact hchecks (sameCall_three fun _ _ _ => rfl) h

/-- The values pushed for an asynchronous request are those that its callback resumes with. -/
theorem values_async (b : FsBranches) (o : Outcome) (lastError : ℤ) :
    b.push.values (b.asyncReq o) lastError = (ReqKind.fs b.kind).args o := by
  obtain ⟨sync, async, push⟩ := b
  cases push with
  | common => cases async <;> rfl
  | _ => rfl

/-- The error code is the only difference between the two kinds of requests. -/
theorem values_sync {b : FsBranches} (h : b.sync = b.async) (o : Outcome) (errorno : ℤ) :
    b.push.values ⟨b.sync.fsType, false, o.status, errorno, o.text, o.stat, o.entries⟩ o.code =
      (ReqKind.fs b.kind).args o := by
  rw [← values_async b o 0, h]
  cases b.push <;> rfl

/-- The callback hands these values to the coroutine that waits. -/
theorem complete_fs {s : World} {r L : ℕ} {q : Req} {t : FsType} (hr : s.reqs.get r = some q)
    (hk : q.kind = .fs t) (hL : q.data = L) (hw : s.status L = some (.suspended (.req r)))
    (o : Outcome) : (s.complete r o).returns =
      ⟨L, .req r, .completion r, (ReqKind.fs t).args o⟩ :: s.returns := by
  have htarget : s.target q = L := by
    unfold World.target
    rw [hk]
    exact hL
  rw [← hk, ← htarget]
  exact (World.complete_resumes hr (by rw [hk]; exact ReqKind.noConfusion) (htarget ▸ hw) o).2

/-- For every fs call and every outcome, the call of the main thread and that of a coroutine
hand the same arguments to libuv and end in the same way, and so does a coroutine that waits in
the call when the callback of its request runs. -/
theorem fs_paths_agree (fn : FsFn) (m : Mem) (args : List LuaArg) (o : Outcome)
    (errorno lastError : ℤ) :
    (fn.runSync m args o errorno).uvCall = (fn.runAsync m args o lastError).uvCall ∧
      (fn.runSync m args o errorno).ended = (fn.runAsync m args o lastError).ended ∧
      ∀ b, fn.branches m args = .ok b → ∀ (s : World) (r L : ℕ) (q : Req),
        s.reqs.get r = some q → q.kind = .fs b.kind → q.data = L →
        s.status L = some (.suspended (.req r)) →
        ∃ vs, (s.complete r o).returns = ⟨L, .req r, .completion r, vs⟩ :: s.returns ∧
          fn.wrap vs = (fn.runSync m args o errorno).ended := by
  unfold FsFn.runSync FsFn.runAsync
  cases hb : fn.branches m args with
  | error e =>
    refine ⟨rfl, rfl, ?_⟩
    intro b h
    cases h
  | ok b =>
    -- both branches make the same call
    have hsame := FsFn.branches_same hb
    refine ⟨congrArg some hsame, ?_, ?_⟩
    · simp only [values_sync hsame, values_async]
    · intro b' hb' s r L q hr hk hL hw
      obtain rfl := Except.ok.inj hb'
      refine ⟨_, complete_fs hr hk hL hw o, ?_⟩
      simp only [values_sync hsame]

/-- A coroutine in `uv.fs.close(3)`. -/
def closeWaiting : World :=
  couv.run .init [.lua .create, .lua (.resume 1 []), .call false (.fs .other true)]

theorem fs_paths_agree_close : ∃ vs,
    (closeWaiting.complete 0 ⟨-1, 9, [], [], [], []⟩).returns =
      ⟨1, .req 0, .completion 0, vs⟩ :: closeWaiting.returns ∧
      FsFn.close.wrap vs = (FsFn.close.runSync .empty [.value (.number 3)]
        ⟨-1, 9, [], [], [], []⟩ 0).ended :=
  (fs_paths_agree .close .empty [.value (.number 3)] ⟨-1, 9, [], [], [], []⟩ 0 0).2.2
    ⟨.close 3, .close 3, .common⟩ rfl closeWaiting 0 1 _ rfl rfl rfl rfl

end Couv
