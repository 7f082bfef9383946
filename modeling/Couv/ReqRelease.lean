import Couv.ReqBlocks

/-! When a call releases its blocks exactly once. -/
namespace Couv
open HeapM ReqM

/-- From `h` on, a call that raises or does not suspend has released every block when it ends,
and one that suspends when its callback has run; no block is used after its release. -/
def Ends (env : ReqEnv) (x : ReqM ReqEnd) (h : CHeap) : Prop :=
  wp x (fun r h =>
    match r with
    | .returned => h.Released
    | .accepted callback =>
      (env.Suspends → wp callback (fun _ h => h.Released) CHeap.Released h) ∧
        (¬env.Suspends → h.Released)) CHeap.Released h

def ReleasedOnce (env : ReqEnv) (c : ReqCall) : Prop := Ends env (c.run env) .empty

/-! The rules for the statements of a call; what is owed must be nothing where it may end. -/

section rules
variable {env : ReqEnv} {h : CHeap} {as : List ℕ} (ho : h.Owes as)
include ho

theorem ends_raise (e : CallError) : Ends env (raise e) h ↔ as = [] := ho.released_iff

theorem ends_raise_bind {α : Type} (e : CallError) {f : α → ReqM ReqEnd} :
    Ends env (raise e >>= f) h ↔ as = [] := ho.released_iff

theorem ends_returned : Ends env (pure .returned) h ↔ as = [] := ho.released_iff

theorem ends_accepted (callback : ReqM Unit) : Ends env (pure (.accepted callback)) h ↔
    (env.Suspends → wp callback (fun _ h => h.Released) CHeap.Released h) ∧
      (¬env.Suspends → as = []) := by
  rw [← ho.released_iff]
  rfl

theorem ends_checked {α : Type} {x : Except LuaError α} {f : α → ReqM ReqEnd} :
    Ends env (checked x >>= f) h ↔
      (∀ a, x = .ok a → Ends env (f a) h) ∧ (x.isOk = false → as = []) := by
  unfold Ends
  rw [wp_bind, ← ho.released_iff]
  cases x with
  | ok a =>
    change wp (f a) _ _ h ↔ _
    simp [Except.isOk, Except.toBool]
  | error e =>
    change h.Released ↔ _
    simp [Except.isOk, Except.toBool]

/-- A check with something owed has to pass. -/
theorem ends_checked_next (hne : as ≠ []) {x : Except LuaError Unit} {f : Unit → ReqM ReqEnd} :
    Ends env (checked x >>= f) h ↔ x.isOk ∧ Ends env (f ()) h := by
  rw [ends_checked ho]
  cases x with
  | ok u =>
    simp only [Except.isOk, Except.toBool, reduceCtorEq, false_implies, and_true, true_and]
    exact ⟨fun hall => hall () trivial, fun hf _ _ => hf⟩
  | error e => simp [Except.isOk, Except.toBool, hne]

theorem ends_alloc {ok : Bool} {f : ℕ → ReqM ReqEnd} : Ends env (couvAlloc ok >>= f) h ↔
    (ok = true → Ends env (f h.live.next) h.alloc) ∧ (ok = false → as = []) := by
  unfold Ends
  rw [wp_bind, ← ho.released_iff, couvAlloc, wp_malloc]
  cases ok <;> simp

theorem ends_uvCheck {uv : Option ℤ} {f : Unit → ReqM ReqEnd} : Ends env (uvCheck uv >>= f) h ↔
    (uv = none → Ends env (f ()) h) ∧ (uv ≠ none → as = []) := by
  unfold Ends
  rw [wp_bind, ← ho.released_iff]
  cases uv with
  | none =>
    change wp (f ()) _ _ h ↔ _
    simp
  | some code =>
    change h.Released ↔ _
    simp

theorem ends_use {a : ℕ} (ha : a ∈ as) {f : Unit → ReqM ReqEnd} :
    Ends env (use a >>= f) h ↔ Ends env (f ()) h := by
  unfold Ends
  rw [wp_bind, wp_use ho ha]

theorem ends_free {a : ℕ} (ha : a ∈ as) {f : Unit → ReqM ReqEnd} :
    Ends env (free (some a) >>= f) h ↔ Ends env (f ()) (h.free a) := by
  unfold Ends
  rw [wp_bind, wp_free ho ha]

theorem ends_useOpt {p : Option ℕ} (hp : ∀ a ∈ p, a ∈ as) {f : Unit → ReqM ReqEnd} :
    Ends env (useOpt p >>= f) h ↔ Ends env (f ()) h := by
  cases p with
  | none => rfl
  | some a => exact ends_use ho (hp a rfl)

end rules

theorem isOk_bind {α β : Type} {x : Except LuaError α} {f : α → Except LuaError β} :
    (x >>= f).isOk ↔ ∃ a, x = .ok a ∧ (f a).isOk := by
  cases x with
  | error e => simp [bind, Except.bind, Except.isOk, Except.toBool]
  | ok a => simp [bind, Except.bind]

/-! The callbacks free all that their call has left. -/

section callbacks
variable {h : CHeap}

theorem reqCb_releases {req : ℕ} (ho : h.Owes [req]) :
    wp (reqCb req) (fun _ h => h.Released) CHeap.Released h := by
  have hmem : req ∈ [req] := List.mem_cons_self
  have hdone := ho.free hmem
  rw [reqCb, wp_bind, wp_use ho hmem, wp_free ho hmem, hdone.released_iff]
  simp

/-- `write_cb`; `udp_send_cb` is the same with a holder for the request. -/
theorem writeCb_releases {req bufs : ℕ} (ho : h.Owes [req, bufs]) :
    wp (writeCb req bufs) (fun _ h => h.Released) CHeap.Released h := by
  have hne : req ≠ bufs := by simpa using ho.nodup
  have hreq : req ∈ [req, bufs] := List.mem_cons_self
  have hbufs : bufs ∈ [req, bufs] := by simp
  have hreq' : req ∈ [req, bufs].erase bufs := by simp [hne]
  have hdone := (ho.free hbufs).free hreq'
  rw [writeCb, wp_bind, wp_use ho hreq, wp_bind, wp_free ho hbufs, wp_free (ho.free hbufs) hreq',
    hdone.released_iff]
  simp [hne]

theorem getaddrinfoReqCb_iff {status : ℤ} {addrs : List (List UInt8)} {req : ℕ}
    (ho : h.Owes [req]) : wp (getaddrinfoReqCb status addrs req) (fun _ h => h.Released)
      CHeap.Released h ↔ (getaddrinfoCb status addrs).err = none := by
  have hmem : req ∈ [req] := List.mem_cons_self
  have hdone := ho.free hmem
  rw [getaddrinfoReqCb, wp_bind, wp_use ho hmem]
  split
  · next e he =>
    rw [wp_raise, ho.released_iff, he]
    simp
  · next he =>
    rw [wp_free ho hmem, hdone.released_iff, he]
    simp

end callbacks

/-- couv_checkbuforstrtable returns its array. -/
def BufsMade (m : Mem) (items : Option (List Value)) (ok : Bool) : Prop :=
  ok = true ∧ ∃ l, items = some l ∧ ∀ v ∈ l, (couvTobuforstr m v).isSome

/-! The calls that make one request. -/

section calls
variable {env : ReqEnv} {h : CHeap} {as : List ℕ} (ho : h.Owes as)
include ho

/-- A request is made and handed to libuv. -/
theorem ends_submit {ok : Bool} {callback : ℕ → ReqM Unit}
    (hcb : wp (callback h.live.next) (fun _ h => h.Released) CHeap.Released h.alloc) :
    Ends env (do
      let req ← couvAlloc ok
      use req
      uvCheck env.uv
      return .accepted (callback req)) h ↔
      (ok = true → env.uv = none ∧ env.Suspends) ∧ (ok = false → as = []) := by
  have hnew := ho.alloc
  rw [ends_alloc ho, ends_use hnew List.mem_cons_self, ends_uvCheck hnew, ends_accepted hnew]
  have hne : h.live.next :: as ≠ [] := List.cons_ne_nil _ _
  simp only [hcb, hne, implies_true, true_and]
  tauto

theorem ends_bufLoop {m : Mem} {buffers : ℕ} (ha : buffers ∈ as) {items : List Value}
    {f : Unit → ReqM ReqEnd} : Ends env (bufLoop m buffers items >>= f) h ↔
      ((∀ v ∈ items, (couvTobuforstr m v).isSome) → Ends env (f ()) h) ∧
        (¬(∀ v ∈ items, (couvTobuforstr m v).isSome) → as.erase buffers = []) := by
  induction items with
  | nil =>
    change Ends env (f ()) h ↔ _
    simp
  | cons v items ih =>
    cases hv : couvTobuforstr m v with
    | none =>
      simp only [bufLoop, hv, bind_assoc]
      rw [ends_free ho ha, ends_raise_bind (ho.free ha)]
      simp [hv]
    | some buf =>
      simp only [bufLoop, hv, bind_assoc]
      rw [ends_use ho ha, ih]
      simp [hv]

/-- The array of `uv_buf_t`s: without it the call raises with nothing owed. -/
theorem ends_bufs {m : Mem} {arg : ℕ} {items : Option (List Value)} {ok : Bool}
    {f : ℕ → ReqM ReqEnd} : Ends env (ReqM.couvCheckbuforstrtable m arg items ok >>= f) h ↔
      (BufsMade m items ok → Ends env (f h.live.next) h.alloc) ∧
        (¬BufsMade m items ok → as = []) := by
  cases items with
  | none =>
    change Ends env (raise _ >>= f) h ↔ _
    rw [ends_raise_bind ho]
    simp [BufsMade]
  | some items =>
    have hnew := ho.alloc
    simp only [ReqM.couvCheckbuforstrtable, bind_assoc, pure_bind]
    rw [ends_alloc ho, ends_bufLoop hnew List.mem_cons_self, List.erase_cons_head]
    cases ok <;> simp [BufsMade]

theorem ends_strLoop {args : ℕ} (ha : args ∈ as) {xs : List (Option LuaString)}
    {f : Unit → ReqM ReqEnd} : Ends env (strLoop args xs >>= f) h ↔
      ((∀ x ∈ xs, x.isSome) → Ends env (f ()) h) ∧
        (¬(∀ x ∈ xs, x.isSome) → as.erase args = []) := by
  induction xs with
  | nil =>
    simp only [strLoop]
    rw [ends_use ho ha]
    simp
  | cons x xs ih =>
    cases x with
    | none =>
      simp only [strLoop, bind_assoc]
      rw [ends_free ho ha, ends_raise_bind (ho.free ha)]
      simp
    | some x =>
      simp only [strLoop, bind_assoc]
      rw [ends_use ho ha, ih]
      simp

/-- An array of strings: the rest of the call goes on with it, or with NULL. -/
theorem ends_strArray {a : StrArray} {ok : Bool} {f : Option ℕ × ℕ → ReqM ReqEnd} :
    Ends env (couvTonullterminatedstrarray a ok >>= f) h ↔
      match a with
      | .nil => Ends env (f (none, 0)) h
      | .other => as = []
      | .array xs => (ok = true ∧ (∀ x ∈ xs, x.isSome) →
          Ends env (f (some h.live.next, xs.length)) h.alloc) ∧
          (¬(ok = true ∧ ∀ x ∈ xs, x.isSome) → as = []) := by
  cases a with
  | nil => rfl
  | other => exact ends_raise_bind ho _
  | array xs =>
    simp only [couvTonullterminatedstrarray, bind_assoc, pure_bind]
    rw [ends_alloc ho, ends_strLoop ho.alloc List.mem_cons_self, List.erase_cons_head]
    cases ok <;> simp

/-- An element that fails its check leaves the array behind. -/
theorem ends_stdioLoop {stdio : ℕ} (ha : stdio ∈ as) {es : List StdioElem}
    {f : Unit → ReqM ReqEnd} : Ends env (stdioLoop stdio es >>= f) h ↔
      (stdioElems es).isOk ∧ Ends env (f ()) h := by
  induction es with
  | nil =>
    change Ends env (f ()) h ↔ _
    simp [stdioElems, Except.isOk, Except.toBool, pure, Except.pure]
  | cons e es ih =>
    have hcons : stdioElems (e :: es) = stdioElem e >>= fun _ => stdioElems es := rfl
    simp only [stdioLoop, bind_assoc]
    rw [ends_checked_next ho (List.ne_nil_of_mem ha), ends_use ho ha, ih, hcons, isOk_bind]
    cases stdioElem e with
    | error err => simp [Except.isOk, Except.toBool]
    | ok u => simp [Except.isOk, Except.toBool]

/-- The stdio array, which an element that fails its check leaves behind. -/
theorem ends_stdio (hne : as ≠ []) {a : Stdio} {ok : Bool} {f : Option ℕ → ReqM ReqEnd} :
    Ends env (couvCheckstdiocontainers a ok >>= f) h ↔ (stdioChecks a ok).isOk ∧
      match a with
      | .table _ => Ends env (f (some h.live.next)) h.alloc
      | _ => Ends env (f none) h := by
  cases a with
  | nil =>
    change Ends env (f none) h ↔ _
    simp [stdioChecks, Except.isOk, Except.toBool]
  | other =>
    refine (ends_raise_bind ho _).trans ?_
    simp [stdioChecks, Except.isOk, Except.toBool, hne]
  | table es =>
    have hnew := ho.alloc
    simp only [couvCheckstdiocontainers, bind_assoc, pure_bind]
    rw [ends_alloc ho, ends_use hnew List.mem_cons_self, ends_stdioLoop hnew List.mem_cons_self]
    cases ok with
    | false =>
      simp [stdioChecks, couvAllocCheck, Except.isOk, Except.toBool, bind, Except.bind, hne]
    | true => simp [stdioChecks, couvAllocCheck, Except.isOk, Except.toBool, bind, Except.bind]

end calls

/-! Process.spawn. -/

theorem strElems_isOk {xs : List (Option LuaString)} :
    (strElems xs).isOk ↔ ∀ x ∈ xs, x.isSome := by
  have hsome : (xs.mapM id).isSome ↔ ∀ x ∈ xs, x.isSome := by
    induction xs with
    | nil => simp
    | cons x xs ih =>
      cases x with
      | none => simp
      | some s =>
        cases hxs : xs.mapM id with
        | none => simpa [hxs] using ih
        | some strs => simpa [hxs] using ih
  rw [← hsome]
  unfold strElems
  cases xs.mapM id <;> simp [Except.isOk, Except.toBool]

theorem strElems_length {xs : List (Option LuaString)} {strs : List LuaString}
    (h : strElems xs = .ok strs) : strs.length = xs.length := by
  unfold strElems at h
  split at h
  · next strs' hs =>
    obtain rfl := Except.ok.inj h
    clear h
    induction xs generalizing strs' with
    | nil =>
      obtain rfl : strs' = [] := by simpa using hs.symm
      rfl
    | cons x xs ih =>
      cases x with
      | none => simp at hs
      | some s =>
        cases hxs : xs.mapM id with
        | none => simp [hxs] at hs
        | some rest =>
          obtain rfl : strs' = s :: rest := by simpa [hxs] using hs.symm
          simp [ih rest hxs]
  · cases h

section spawn
variable {env : ReqEnv} {h : CHeap}

theorem ends_freeOpt {p : Option ℕ} {as : List ℕ} (ho : h.Owes (p.toList ++ as))
    {f : Unit → ReqM ReqEnd} : ∃ h', h'.Owes as ∧
      (Ends env (freeOpt p >>= f) h ↔ Ends env (f ()) h') := by
  cases p with
  | none => exact ⟨h, ho, Iff.rfl⟩
  | some a => exact ⟨h.free a, ho.freeHead rfl, ends_free ho List.mem_cons_self⟩

theorem strArrayChecks_isOk {xs : List (Option LuaString)} {ok : Bool} :
    (strArrayChecks (.array xs) ok).isOk ↔ ok = true ∧ ∀ x ∈ xs, x.isSome := by
  unfold strArrayChecks
  rw [isOk_bind, ← strElems_isOk]
  cases ok with
  | false => simp [couvAllocCheck]
  | true => simp [couvAllocCheck]

/-- A second array of strings: a failure leaves the first. -/
theorem ends_strArray_next {as : List ℕ} (ho : h.Owes as) (hne : as ≠ []) {a : StrArray}
    {ok : Bool} {f : Option ℕ × ℕ → ReqM ReqEnd} :
    Ends env (couvTonullterminatedstrarray a ok >>= f) h ↔ (strArrayChecks a ok).isOk ∧
      match a with
      | .array xs => Ends env (f (some h.live.next, xs.length)) h.alloc
      | _ => Ends env (f (none, 0)) h := by
  rw [ends_strArray ho]
  cases a with
  | nil => simp [strArrayChecks, Except.isOk, Except.toBool]
  | other => simp [strArrayChecks, Except.isOk, Except.toBool, hne]
  | array xs =>
    rw [strArrayChecks_isOk]
    simp only [hne]
    tauto

/-- The end of couv_process_spawn, when all arrays have been made. -/
theorem ends_spawnTail {args : ℕ} {envs stdio : Option ℕ} {cb : LuaArg}
    (ho : h.Owes (args :: (envs.toList ++ stdio.toList))) : Ends env (do
      let _ ← checked (checkExitCb cb)
      useOpt (some args)
      useOpt envs
      useOpt stdio
      uvCheck env.uv
      freeOpt (some args)
      freeOpt envs
      freeOpt stdio
      return .returned) h ↔ (checkExitCb cb).isOk ∧ env.uv = none := by
  have hargs : ∀ a ∈ some args, a ∈ args :: (envs.toList ++ stdio.toList) := by simp
  have henvs : ∀ a ∈ envs, a ∈ args :: (envs.toList ++ stdio.toList) := by
    rintro a rfl
    simp
  have hstdio : ∀ a ∈ stdio, a ∈ args :: (envs.toList ++ stdio.toList) := by
    rintro a rfl
    simp
  have hne : args :: (envs.toList ++ stdio.toList) ≠ [] := List.cons_ne_nil _ _
  have hfrees : Ends env (do
      freeOpt (some args)
      freeOpt envs
      freeOpt stdio
      return .returned) h := by
    -- every array that was obtained is freed once
    obtain ⟨h₁, ho₁, he₁⟩ := @ends_freeOpt env h (some args) _ ho _
    obtain ⟨h₂, ho₂, he₂⟩ := @ends_freeOpt env h₁ envs _ ho₁ _
    have ho₂' : h₂.Owes (stdio.toList ++ []) := by
      simpa only [List.append_nil] using ho₂
    obtain ⟨h₃, ho₃, he₃⟩ := @ends_freeOpt env h₂ stdio [] ho₂' _
    exact he₁.mpr (he₂.mpr (he₃.mpr ((ends_returned ho₃).mpr rfl)))
  rw [ends_checked ho]
  simp only [ends_useOpt ho hargs, ends_useOpt ho henvs, ends_useOpt ho hstdio, ends_uvCheck ho,
    hfrees, hne, implies_true, true_and]
  cases checkExitCb cb with
  | error e => simp [Except.isOk, Except.toBool]
  | ok f => simp [Except.isOk, Except.toBool]

/-- The end of couv_process_spawn from the stdio option on. -/
theorem ends_spawnStdio {args : ℕ} {envs : Option ℕ} {stdio : Stdio} {cb : LuaArg} {ok : Bool}
    (ho : h.Owes (args :: envs.toList)) : Ends env (do
      let stdio ← couvCheckstdiocontainers stdio ok
      let _ ← checked (checkExitCb cb)
      useOpt (some args)
      useOpt envs
      useOpt stdio
      uvCheck env.uv
      freeOpt (some args)
      freeOpt envs
      freeOpt stdio
      return .returned) h ↔
      (stdioChecks stdio ok).isOk ∧ (checkExitCb cb).isOk ∧ env.uv = none := by
  rw [ends_stdio ho (List.cons_ne_nil _ _)]
  refine and_congr_right fun _ => ?_
  cases stdio with
  | table es =>
    refine ends_spawnTail (ho.alloc.perm ?_)
    exact @List.perm_append_comm _ [h.live.next] (args :: envs.toList)
  | nil | other => exact ends_spawnTail (by simpa using ho)

/-- The args array is obtained and stays. -/
def ArgsMade (options : Option SpawnOptions) (ok : Bool) : Prop :=
  ∃ o xs, options = some o ∧ o.args = .array xs ∧ ok = true ∧ ∀ x ∈ xs, x.isSome

theorem argsMade_iff {o : SpawnOptions} {ok : Bool} : ArgsMade (some o) ok ↔
    ∃ xs, o.args = .array xs ∧ ok = true ∧ ∀ x ∈ xs, x.isSome := by
  constructor
  · rintro ⟨o', xs, hopt, hmade⟩
    obtain rfl := Option.some.inj hopt
    exact ⟨xs, hmade⟩
  · rintro ⟨xs, hmade⟩
    exact ⟨o, xs, rfl, hmade⟩

/-- The checks of spawn, once the strings of the args array are there. -/
theorem spawnChecks_isOk {o : SpawnOptions} {allocs : ℕ → Bool} {strs : List LuaString}
    (h : strArrayChecks o.args (allocs 0) = .ok strs) : (spawnChecks (some o) allocs).isOk ↔
      (checkArgc strs).isOk ∧ (strArrayChecks o.env (allocs 1)).isOk ∧
        (stdioChecks o.stdio (allocs 2)).isOk ∧ (checkExitCb o.exitCb).isOk := by
  simp only [spawnChecks, h, isOk_bind, Except.ok.injEq, exists_eq_left']
  cases checkArgc strs <;> cases strArrayChecks o.env (allocs 1) <;>
    cases stdioChecks o.stdio (allocs 2) <;> simp [Except.isOk, Except.toBool]

/-- The count that couv_process_spawn checks is that of the strings. -/
theorem checkArgc_isOk {xs : List (Option LuaString)} {strs : List LuaString}
    (h : strElems xs = .ok strs) : (luaLArgcheck (xs.length ≠ 0) (-1)
      "must have non-empty string array at key \"args\"").isOk = (checkArgc strs).isOk := by
  rw [← strElems_length h]
  unfold checkArgc luaLArgcheck
  cases strs <;> rfl

theorem ends_spawn (options : Option SpawnOptions) :
    Ends env (couvProcessSpawn env options) .empty ↔ (ArgsMade options (env.allocs 0) →
      (spawnChecks options env.allocs).isOk ∧ env.uv = none) := by
  have ho := CHeap.owes_empty
  cases options with
  | none =>
    refine iff_of_true ((ends_raise ho _).mpr rfl) ?_
    rintro ⟨o, xs, hopt, -⟩
    cases hopt
  | some o =>
    unfold couvProcessSpawn
    rw [ends_strArray ho, argsMade_iff]
    cases hargs : o.args with
    | nil =>
      refine iff_of_true ?_ (fun ⟨_, hxs, _⟩ => StrArray.noConfusion hxs)
      simp [ends_checked ho, luaLArgcheck]
    | other => exact iff_of_true rfl (fun ⟨_, hxs, _⟩ => StrArray.noConfusion hxs)
    | array xs =>
      simp only [StrArray.array.injEq, exists_eq_left', implies_true, and_true]
      refine imp_congr_right ?_
      rintro ⟨hok, hxs⟩
      -- the args array is block 0, and the only one that is owed
      have ho₁ : CHeap.empty.alloc.Owes [0] := ho.alloc
      obtain ⟨strs, hstrs⟩ : ∃ strs, strElems xs = .ok strs := by
        have hall := strElems_isOk.mpr hxs
        cases he : strElems xs with
        | error e => simp [he, Except.isOk, Except.toBool] at hall
        | ok strs => exact ⟨strs, rfl⟩
      have hargsOk : strArrayChecks o.args (env.allocs 0) = .ok strs := by
        rw [hargs, hok]
        exact hstrs
      rw [spawnChecks_isOk hargsOk, ends_checked_next ho₁ (List.cons_ne_nil _ _),
        checkArgc_isOk hstrs, ends_strArray_next ho₁ (List.cons_ne_nil _ _)]
      simp only [and_assoc]
      refine and_congr_right fun _ => and_congr_right fun _ => ?_
      cases o.env with
      | array ys =>
        have ho₂ : CHeap.empty.alloc.alloc.Owes (0 :: (some 1).toList) :=
          ho₁.alloc.perm (List.Perm.swap 0 1 [])
        exact ends_spawnStdio ho₂
      | nil | other => exact @ends_spawnStdio env _ 0 none o.stdio o.exitCb _ ho₁

end spawn

/-! The checks of fs_read and fs_write do not touch the bytes of a Buffer. -/

namespace BufM
variable {α β : Type}

def NoFault (x : BufM α) : Prop := ∀ m m', x m ≠ .error .fault m'

theorem noFault_pure (a : α) : NoFault (pure a) := by
  intro m m' h
  cases h

theorem noFault_check (x : Except LuaError α) : NoFault (check x) := by
  intro m m' h
  cases x <;> cases h

theorem noFault_bind {x : BufM α} {f : α → BufM β} (hx : NoFault x) (hf : ∀ a, NoFault (f a)) :
    NoFault (x >>= f) := by
  intro m m' h
  cases hr : x m with
  | ok a m₁ => exact hf a m₁ m' ((run_bind_ok hr).symm.trans h)
  | error e m₁ =>
    rw [run_bind_error hr] at h
    obtain ⟨rfl, -⟩ := EStateM.Result.error.inj h
    exact hx m m₁ hr

/-- A check in front. -/
theorem noFault_check_bind {x : Except LuaError α} {f : α → BufM β} (hf : ∀ a, NoFault (f a)) :
    NoFault (check x >>= f) :=
  noFault_bind (noFault_check x) hf

end BufM
open BufM

theorem noFault_checkbuf (arg : ℕ) (v : Value) : NoFault (couvCheckbuf arg v) := by
  intro m m' h
  unfold couvCheckbuf at h
  split at h
  · split at h <;> cases h
  · cases h

theorem noFault_checkbuforstr (arg : ℕ) (v : Value) : NoFault (couvCheckbuforstr arg v) := by
  intro m m' h
  unfold couvCheckbuforstr at h
  split at h <;> cases h

theorem noFault_fsRead (fd buf bufPos length fileOffset : Value) :
    NoFault (fsRead fd buf bufPos length fileOffset) :=
  noFault_check_bind fun _ => noFault_bind (noFault_checkbuf _ _) fun _ =>
    noFault_check_bind fun _ => noFault_check_bind fun _ => noFault_check_bind fun _ =>
    noFault_check_bind fun _ => noFault_check_bind fun _ => noFault_pure _

theorem noFault_fsWrite (fd arg bufPos length fileOffset : Value) :
    NoFault (fsWrite fd arg bufPos length fileOffset) :=
  noFault_check_bind fun _ => noFault_bind (noFault_checkbuforstr _ _) fun _ =>
    noFault_check_bind fun _ => noFault_check_bind fun _ => noFault_check_bind fun _ =>
    noFault_check_bind fun _ => noFault_check_bind fun _ => noFault_pure _

/-! All calls. -/

/-- With its first block obtained, the call makes it to libuv without an error, libuv accepts
it and the call suspends; the calls that free their blocks when libuv rejects them may be
rejected. -/
def ReqCall.GoesThrough (env : ReqEnv) : ReqCall → Prop
  | write self items =>
    (self.checkstream 1).isOk ∧ BufsMade env.mem items (env.allocs 0) →
      env.allocs 1 = true ∧ env.uv = none ∧ env.Suspends
  | write2 self items sendHandle =>
    (self.checkstream 1).isOk ∧ BufsMade env.mem items (env.allocs 0) →
      (sendHandle.checkstream 3).isOk ∧ env.allocs 1 = true ∧ env.uv = none ∧ env.Suspends
  | udpSend self items addr =>
    (self.checkudataclass 1 [.udp] "couv.Udp").isOk ∧ BufsMade env.mem items (env.allocs 0) →
      (addr.checksockaddr 3).isOk ∧ env.allocs 1 = true ∧ env.uv = none ∧ env.Suspends
  | shutdown self =>
    (self.checkstream 1).isOk ∧ env.allocs 0 = true → env.uv = none ∧ env.Suspends
  | tcpConnect self addr =>
    (self.checkudataclass 1 [.tcp] "couv.Tcp").isOk ∧ (addr.checksockaddr 2).isOk ∧
      env.allocs 0 = true → env.uv = none ∧ env.Suspends
  | pipeConnect self name =>
    (self.checkudataclass 1 [.pipe] "couv.Pipe").isOk ∧ (name.checkstring 2).isOk ∧
      env.allocs 0 = true → env.Suspends
  | getaddrinfo node service hints status addrs =>
    (getaddrinfoArgs env.thread node service hints).isOk ∧ env.allocs 0 = true ∧ env.uv = none →
      env.Suspends ∧ (status = 0 → ∀ addr ∈ addrs, saFamily addr = afInet ∨
        saFamily addr = afInet6)
  | sleep timeout =>
    (sleepArgs env.thread timeout).isOk ∧ env.allocs 0 = true → env.uv = none ∧ env.Suspends
  | spawn options =>
    ArgsMade options (env.allocs 0) → (spawnChecks options env.allocs).isOk ∧ env.uv = none
  | fs fn args =>
    (fn.branches env.mem args).isOk ∧ env.thread ≠ mainThread ∧ env.allocs 0 = true ∧
      env.uv = none → env.Suspends

section main
variable {env : ReqEnv}

/-- A check in front of everything else. -/
theorem ends_first {α : Type} {x : Except LuaError α} {f : α → ReqM ReqEnd} {P : Prop}
    (h : ∀ a, Ends env (f a) .empty ↔ P) :
    Ends env (checked x >>= f) .empty ↔ (x.isOk → P) := by
  rw [ends_checked CHeap.owes_empty]
  simp only [h, implies_true, and_true]
  cases x with
  | ok a => simp [Except.isOk, Except.toBool]
  | error e => simp [Except.isOk, Except.toBool]

theorem ends_firstAlloc {ok : Bool} {f : ℕ → ReqM ReqEnd} :
    Ends env (couvAlloc ok >>= f) .empty ↔ (ok = true → Ends env (f 0) CHeap.empty.alloc) := by
  rw [ends_alloc CHeap.owes_empty]
  simp only [implies_true, and_true]
  rfl

/-- The array of a table of buffers, as the first block. -/
theorem ends_firstBufs {m : Mem} {arg : ℕ} {items : Option (List Value)} {ok : Bool}
    {f : ℕ → ReqM ReqEnd} : Ends env (ReqM.couvCheckbuforstrtable m arg items ok >>= f) .empty ↔
      (BufsMade m items ok → Ends env (f 0) CHeap.empty.alloc) := by
  rw [ends_bufs CHeap.owes_empty]
  simp only [implies_true, and_true]
  rfl

/-- What write, write2 and send do once their array is there: the checks left, and the request. -/
theorem ends_withBufs {α : Type} {x : Except LuaError α} {ok : Bool} {callback : ℕ → ReqM Unit}
    (hcb : wp (callback 1) (fun _ h => h.Released) CHeap.Released CHeap.empty.alloc.alloc) :
    Ends env (do
      let _ ← checked x
      let req ← couvAlloc ok
      use req
      uvCheck env.uv
      return .accepted (callback req)) CHeap.empty.alloc ↔
      x.isOk ∧ ok = true ∧ env.uv = none ∧ env.Suspends := by
  have ho₁ : CHeap.empty.alloc.Owes [0] := CHeap.owes_empty.alloc
  rw [ends_checked ho₁, ends_submit ho₁ hcb]
  cases x with
  | error e => simp [Except.isOk, Except.toBool]
  | ok a => cases ok <;> simp [Except.isOk, Except.toBool]

theorem ends_write (self : LuaArg) (items : Option (List Value)) :
    Ends env (couvWrite env self items) .empty ↔ ReqCall.GoesThrough env (.write self items) := by
  have ho₁ : CHeap.empty.alloc.Owes [0] := CHeap.owes_empty.alloc
  have hcb : wp (writeCb 1 0) (fun _ h => h.Released) CHeap.Released CHeap.empty.alloc.alloc :=
    writeCb_releases ho₁.alloc
  simp only [ReqCall.GoesThrough, and_imp]
  refine ends_first fun _ => ends_firstBufs.trans (imp_congr_right fun _ => ?_)
  refine (@ends_submit _ _ _ ho₁ _ (fun req => writeCb req 0) hcb).trans ?_
  cases env.allocs 1 <;> simp

theorem ends_write2 (self : LuaArg) (items : Option (List Value)) (sendHandle : LuaArg) :
    Ends env (couvWrite2 env self items sendHandle) .empty ↔
      ReqCall.GoesThrough env (.write2 self items sendHandle) := by
  have ho₁ : CHeap.empty.alloc.Owes [0] := CHeap.owes_empty.alloc
  simp only [ReqCall.GoesThrough, and_imp]
  refine ends_first fun _ => ends_firstBufs.trans (imp_congr_right fun _ => ?_)
  exact @ends_withBufs env _ _ _ (fun req => writeCb req 0) (writeCb_releases ho₁.alloc)

theorem ends_udpSend (self : LuaArg) (items : Option (List Value)) (addr : LuaArg) :
    Ends env (udpSend env self items addr) .empty ↔
      ReqCall.GoesThrough env (.udpSend self items addr) := by
  have ho₁ : CHeap.empty.alloc.Owes [0] := CHeap.owes_empty.alloc
  simp only [ReqCall.GoesThrough, and_imp]
  refine ends_first fun _ => ends_firstBufs.trans (imp_congr_right fun _ => ?_)
  exact @ends_withBufs env _ _ _ (fun req => udpSendCb req 0) (writeCb_releases ho₁.alloc)

/-- A call with a request and nothing else. -/
theorem ends_single {ok : Bool} : Ends env (do
      let req ← couvAlloc ok
      use req
      uvCheck env.uv
      return .accepted (reqCb req)) .empty ↔ (ok = true → env.uv = none ∧ env.Suspends) := by
  have ho := CHeap.owes_empty
  rw [ends_submit ho (reqCb_releases ho.alloc)]
  simp

theorem ends_shutdown (self : LuaArg) :
    Ends env (couvShutdown env self) .empty ↔ ReqCall.GoesThrough env (.shutdown self) := by
  simp only [ReqCall.GoesThrough, and_imp]
  exact ends_first fun _ => ends_single

theorem ends_tcpConnect (self addr : LuaArg) : Ends env (tcpConnect env self addr) .empty ↔
    ReqCall.GoesThrough env (.tcpConnect self addr) := by
  simp only [ReqCall.GoesThrough, and_imp]
  exact ends_first fun _ => ends_first fun _ => ends_single

theorem ends_sleep (timeout : LuaArg) :
    Ends env (couvSleep env timeout) .empty ↔ ReqCall.GoesThrough env (.sleep timeout) := by
  simp only [ReqCall.GoesThrough, and_imp]
  exact ends_first fun _ => ends_single

theorem ends_pipeConnect (self name : LuaArg) : Ends env (pipeConnect env self name) .empty ↔
    ReqCall.GoesThrough env (.pipeConnect self name) := by
  have ho := CHeap.owes_empty
  have hnew := ho.alloc
  simp only [ReqCall.GoesThrough, and_imp]
  refine ends_first fun _ => ends_first fun _ => ?_
  rw [ends_alloc ho, ends_use hnew List.mem_cons_self, ends_accepted hnew]
  simp [reqCb_releases hnew]

/-- Pushing a list of addresses fails at one of another family. -/
theorem pushAll_err {addrs : List (List UInt8)} : (pushAll addrs).err = none ↔
    ∀ addr ∈ addrs, saFamily addr = afInet ∨ saFamily addr = afInet6 := by
  induction addrs with
  | nil => simp [pushAll]
  | cons addr addrs ih =>
    rw [List.forall_mem_cons, ← ih, pushAll]
    cases hp : couvLPushsockaddr addr with
    | ok ud => simp [(couvLPushsockaddr_isOk addr).mp (by rw [hp]; rfl)]
    | error e =>
      have hno : ¬(saFamily addr = afInet ∨ saFamily addr = afInet6) := by
        rw [← couvLPushsockaddr_isOk, hp]
        exact Bool.false_ne_true
      simp [hno]

theorem ends_getaddrinfo (node service : LuaArg) (hints : Hints) (status : ℤ)
    (addrs : List (List UInt8)) : Ends env (couvGetaddrinfo env node service hints status addrs)
      .empty ↔ ReqCall.GoesThrough env (.getaddrinfo node service hints status addrs) := by
  have ho := CHeap.owes_empty
  have hnew : CHeap.empty.alloc.Owes [0] := ho.alloc
  have hpush : (getaddrinfoCb status addrs).err = none ↔ (status = 0 → ∀ addr ∈ addrs,
      saFamily addr = afInet ∨ saFamily addr = afInet6) := by
    unfold getaddrinfoCb
    split
    · next hs => simp [hs, pushAll_err]
    · next hs => simp [hs]
  simp only [ReqCall.GoesThrough, and_imp, ← hpush]
  refine ends_first fun _ => ends_firstAlloc.trans (imp_congr_right fun _ => ?_)
  rw [ends_use hnew List.mem_cons_self]
  cases env.uv with
  | some code =>
    refine iff_of_true ?_ (fun hn => absurd hn (Option.some_ne_none code))
    exact (ends_free hnew List.mem_cons_self).mpr ((ends_raise (hnew.freeHead rfl) _).mpr rfl)
  | none =>
    -- the callback raises on an address of another family
    have hcb := @getaddrinfoReqCb_iff _ status addrs _ hnew
    rw [ends_accepted hnew, hcb]
    simp only [List.cons_ne_nil, imp_false, not_not, true_implies]
    tauto

/-- fs_read and fs_write only check before they branch. -/
theorem branches_no_fault (fn : FsFn) (m : Mem) (args : List LuaArg) :
    fn.branches m args ≠ .error .fault := by
  have hchecks : ∀ x : Except LuaError FsBranches,
      x.mapError Failure.raise ≠ .error .fault := by
    intro x hx
    cases x <;> cases hx
  cases fn with
  | read =>
    intro h
    simp only [FsFn.branches] at h
    split at h
    · cases h
    · next e m' he =>
      obtain rfl := Except.error.inj h
      exact noFault_fsRead _ _ _ _ _ m m' he
  | write =>
    intro h
    simp only [FsFn.branches] at h
    split at h
    · cases h
    · next e m' he =>
      obtain rfl := Except.error.inj h
      exact noFault_fsWrite _ _ _ _ _ m m' he
  | _ => exact hchecks _

theorem ends_fs (fn : FsFn) (args : List LuaArg) :
    Ends env (fsReq env fn args) .empty ↔ ReqCall.GoesThrough env (.fs fn args) := by
  have ho := CHeap.owes_empty
  have hnew : CHeap.empty.alloc.Owes [0] := ho.alloc
  have hfault := branches_no_fault fn env.mem args
  simp only [ReqCall.GoesThrough, and_imp]
  unfold fsReq
  cases hb : fn.branches env.mem args with
  | error e =>
    cases e with
    | fault => exact absurd hb hfault
    | raise e =>
      simp only
      rw [ends_raise ho]
      simp [Except.isOk, Except.toBool]
  | ok b =>
    -- in the main thread the request is on the C stack
    by_cases hL : env.thread = mainThread
    · simp only [hL, if_true]
      rw [ends_returned ho]
      simp
    · simp only [hL, if_false]
      rw [ends_firstAlloc]
      have hiff : ((Except.ok b : Except Failure FsBranches).isOk = true →
          env.thread ≠ mainThread → env.allocs 0 = true → env.uv = none → env.Suspends) ↔
          (env.allocs 0 = true → env.uv = none → env.Suspends) :=
        ⟨fun hall => hall rfl hL, fun hall _ _ => hall⟩
      rw [hiff]
      refine imp_congr_right fun _ => ?_
      rw [ends_use hnew List.mem_cons_self]
      cases env.uv with
      | some code =>
        refine iff_of_true ?_ (fun hn => absurd hn (Option.some_ne_none code))
        change Ends env (fsReqCb 0 >>= fun _ => pure .returned) CHeap.empty.alloc
        rw [fsReqCb, bind_assoc, ends_use hnew List.mem_cons_self,
          ends_free hnew List.mem_cons_self, ends_returned (hnew.freeHead rfl)]
      | none =>
        rw [ends_accepted hnew]
        have hcb := reqCb_releases hnew
        simp only [List.cons_ne_nil, imp_false, not_not, true_implies]
        exact and_iff_right fun _ => hcb

/-- A call releases each of its blocks exactly once if and only if it goes through to libuv and
suspends once it has obtained the first of them. -/
theorem released_once_iff (env : ReqEnv) (c : ReqCall) :
    ReleasedOnce env c ↔ c.GoesThrough env := by
  cases c with
  | write self items => exact ends_write self items
  | write2 self items sendHandle => exact ends_write2 self items sendHandle
  | shutdown self => exact ends_shutdown self
  | tcpConnect self addr => exact ends_tcpConnect self addr
  | pipeConnect self name => exact ends_pipeConnect self name
  | udpSend self items addr => exact ends_udpSend self items addr
  | getaddrinfo node service hints status addrs =>
    exact ends_getaddrinfo node service hints status addrs
  | sleep timeout => exact ends_sleep timeout
  | spawn options => exact ends_spawn options
  | fs fn args => exact ends_fs fn args

/-- A coroutine's write of one string to a stream, which libuv rejects. -/
def rejectedWrite : ReqEnv := ⟨1, false, fun _ => true, some (-32), .empty⟩

/-- Neither the request nor the array of `uv_buf_t`s is freed. -/
theorem rejected_write_leaks : ¬∀ env c, ReleasedOnce env c := by
  intro hall
  have hends := hall rejectedWrite (.write (.handle .tcp 0) (some [.string [104, 105]]))
  have hleft : CHeap.empty.alloc.alloc.Released := hends
  exact absurd hleft (by decide)

end main
end Couv
