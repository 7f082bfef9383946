import Couv.Completion
import Couv.FsPaths
import Couv.KeyWrites

/-! What the public methods of couv.lua make of a failure that libuv reports to the callback of
their request. -/
namespace Couv

/-- The methods that suspend, apart from those of fs and from close and sleep. -/
inductive AsyncOp
  | write | write2 | shutdown | tcpConnect | pipeConnect | udpSend | getaddrinfo
  deriving DecidableEq, Repr

namespace AsyncOp

def kind : AsyncOp → ReqKind
  | .write => .write
  | .write2 => .write2
  | .shutdown => .shutdown
  | .tcpConnect | .pipeConnect => .connect
  | .udpSend => .send
  | .getaddrinfo => .getaddrinfo

/-- What couv.lua does with the results of `_write`, `_shutdown`, `_connect`, `_send` and
`native.getaddrinfo`. -/
def wrap : AsyncOp → List Value → FsEnd
  | .write | .shutdown | .tcpConnect | .pipeConnect | .udpSend => error0
  | .getaddrinfo => error1
  -- stream.c registers this one as `write2`, and couv.lua does not mention it
  | .write2 => .returns

end AsyncOp

/-- The method that makes a call of a native function. -/
def Call.method : Call → Option AsyncOp
  | .write _ _ _ => some .write
  | .write2 _ _ _ => some .write2
  | .shutdown _ _ => some .shutdown
  | .tcpConnect _ _ => some .tcpConnect
  | .pipeConnect _ => some .pipeConnect
  | .send _ _ _ => some .udpSend
  | .getaddrinfo _ => some .getaddrinfo
  | .read _ _ | .close _ | .sleep _ | .fs _ _ | .fsRead _ _ _ _ _ _ | .fsWrite _ _ _ _ _ _ => none

/-- A `struct addrinfo` and the bytes at its `ai_addr`. -/
structure AddrinfoC where
  family : ℤ
  socktype : ℤ
  protocol : ℤ
  addr : List UInt8
  deriving DecidableEq, Repr

/-- The loop of `getaddrinfo_cb`. -/
def pushAddrinfos : List AddrinfoC → Except LuaError (List Addrinfo)
  | [] => .ok []
  | p :: ps => do
    let ud ← couvLPushsockaddr p.addr
    let infos ← pushAddrinfos ps
    return ⟨p.family, p.socktype, p.protocol, ud⟩ :: infos

/-- The callback of a request, with the list that uv_getaddrinfo may have found. An error that it
raises is raised on the suspended coroutine, outside of every call. -/
def World.runCallback (s : World) (r : ℕ) (o : Outcome) (res : List AddrinfoC) :
    Except LuaError World :=
  match s.reqs.get r with
  | none => .ok s
  | some q =>
    if q.kind = .getaddrinfo ∧ o.status = 0 then
      (pushAddrinfos res).map fun infos => s.complete r { o with infos := infos }
    else .ok (s.complete r o)

/-- The method raises the error name of a negative status, and returns no error value else. -/
def Raises (o : Outcome) (e : FsEnd) : Prop :=
  if o.status < 0 then e = .error (.errname o.code)
  else ∃ vs, e = .returns vs ∧ ∀ code, .errname code ∉ vs

/-- After the run `as` the coroutine `L` is suspended in the call `c`, with the request `r`. -/
structure InMethod (as : List Action) (c : Call) (L r : ℕ) : Prop where
  called : ∃ pre boundary mid, as = pre ++ .call boundary c :: mid ∧
    (couv.run .init pre).top = some L ∧ (couv.run .init pre).reqs.next = r ∧
    (couv.run .init (pre ++ [.call boundary c])).status L = some (.suspended (.req r))
  waits : (couv.run .init as).status L = some (.suspended (.req r))

/-- The callback of `r` ends the method of `L` as it should. -/
def World.EndsRight (s : World) (op : AsyncOp) (L r : ℕ) (o : Outcome) (res : List AddrinfoC) :
    Prop :=
  ∃ t vs, s.runCallback r o res = .ok t ∧
    t.returns = ⟨L, .req r, .completion r, vs⟩ :: s.returns ∧ Raises o (op.wrap vs)

/-! What each method makes of each outcome. -/

theorem error0_nil : error0 [] = .returns [] := rfl

theorem error0_errname (code : ℤ) : error0 [.errname code] = .error (.errname code) := rfl

theorem error1_errname (code : ℤ) :
    error1 [.nil, .errname code] = .error (.errname code) := rfl

theorem raises_ok {o : Outcome} (ho : 0 ≤ o.status) {vs : List Value}
    (hvs : ∀ code, .errname code ∉ vs) : Raises o (.returns vs) := by
  unfold Raises
  rw [if_neg ho.not_gt]
  exact ⟨vs, rfl, hvs⟩

/-- The values of the callback end the method as they should, but for a failed write2. -/
theorem raises_iff (op : AsyncOp) {o : Outcome} (ho : o.status ≤ 0) :
    Raises o (op.wrap (op.kind.args o)) ↔ (op = .write2 → 0 ≤ o.status) := by
  by_cases hneg : o.status < 0
  -- write2 returns the name of the error; the others hand it to error()
  · have hstatus : statusArgs o = [.errname o.code] := if_pos hneg
    have hinfo : addrinfoArgs o = [.nil, .errname o.code] := if_neg hneg.ne
    unfold Raises
    rw [if_pos hneg]
    cases op with
    | write2 =>
      refine iff_of_false ?_ (fun h => absurd (h rfl) hneg.not_ge)
      rintro ⟨⟩
    | getaddrinfo =>
      refine iff_of_true ?_ (fun h => nomatch h)
      change error1 (addrinfoArgs o) = _
      rw [hinfo, error1_errname]
    | write | shutdown | tcpConnect | pipeConnect | udpSend =>
      refine iff_of_true ?_ (fun h => nomatch h)
      change error0 (statusArgs o) = _
      rw [hstatus, error0_errname]
  · have hzero : 0 ≤ o.status := not_lt.mp hneg
    have hstatus : statusArgs o = [] := if_neg hneg
    have hinfo : addrinfoArgs o = [.addrinfos o.infos] := if_pos (le_antisymm ho hzero)
    refine iff_of_true ?_ (fun _ => hzero)
    cases op with
    | getaddrinfo =>
      change Raises o (error1 (addrinfoArgs o))
      rw [hinfo]
      exact raises_ok hzero (by simp [resultAt])
    | write2 =>
      change Raises o (.returns (statusArgs o))
      rw [hstatus]
      exact raises_ok hzero (by simp)
    | write | shutdown | tcpConnect | pipeConnect | udpSend =>
      change Raises o (error0 (statusArgs o))
      rw [hstatus, error0_nil]
      exact raises_ok hzero (by simp)

theorem pushAddrinfos_isOk (res : List AddrinfoC) : (pushAddrinfos res).isOk ↔
    ∀ p ∈ res, saFamily p.addr = afInet ∨ saFamily p.addr = afInet6 := by
  induction res with
  | nil => simp [pushAddrinfos, Except.isOk, Except.toBool]
  | cons p ps ih =>
    rw [List.forall_mem_cons, ← couvLPushsockaddr_isOk, ← ih, pushAddrinfos]
    cases couvLPushsockaddr p.addr with
    | error e => simp [bind, Except.bind, Except.isOk, Except.toBool]
    | ok ud =>
      cases pushAddrinfos ps <;> simp [bind, Except.bind, pure, Except.pure, Except.isOk,
        Except.toBool]

/-! The request of a suspended method. -/

namespace World
variable {s : World}

theorem submitBufs_kind {kind : ReqKind} {boundary : Bool} {h L t : ℕ} {ok : Bool} {q : Req}
    (hq : (s.submitBufs kind boundary h L t ok).reqs.get s.reqs.next = some q) :
    q.kind = kind := by
  have hnone := s.reqs.fresh _ le_rfl
  unfold submitBufs at hq
  split at hq
  · exact absurd (hnone.symm.trans hq) (Option.some_ne_none q).symm
  · split at hq
    · rw [submit_reqs, Store.alloc_get_self] at hq
      obtain rfl := Option.some.inj hq
      rfl
    · exact absurd (hnone.symm.trans hq) (Option.some_ne_none q).symm

theorem submit_kind {req : Req} {boundary : Bool} {ok : Bool} {q : Req}
    (hq : (if ok then s.submit boundary req else s).reqs.get s.reqs.next = some q) :
    q = req := by
  split at hq
  · rw [submit_reqs, Store.alloc_get_self] at hq
    exact (Option.some.inj hq).symm
  · exact absurd ((s.reqs.fresh _ le_rfl).symm.trans hq) (Option.some_ne_none q).symm

/-- The request that a method leaves is one of its kind. -/
theorem execCall_kind {boundary : Bool} {L : ℕ} {c : Call} {op : AsyncOp} (hc : c.method = some op)
    {q : Req} (hq : (s.execCall boundary L c).reqs.get s.reqs.next = some q) :
    q.kind = op.kind := by
  cases c with
  | write | write2 | send =>
    cases hc
    exact submitBufs_kind hq
  | shutdown | tcpConnect =>
    cases hc
    rw [submit_kind hq]
    rfl
  | pipeConnect h =>
    cases hc
    have hkind := @submit_kind _ _ _ true _ hq
    rw [hkind]
    rfl
  | getaddrinfo ok =>
    cases hc
    simp only [execCall, couvGetaddrinfo, submitAnchored] at hq
    split at hq
    · exact absurd ((s.reqs.fresh _ le_rfl).symm.trans hq) (Option.some_ne_none q).symm
    · split at hq
      · rw [submit_reqs] at hq
        obtain rfl := Option.some.inj ((s.reqs.alloc_get_self _).symm.trans hq)
        rfl
      -- refused: couv_getaddrinfo frees its request
      · have hfree : ∀ req, (((s.couvRawsetp (.reqThread s.reqs.next)
            (some (.thread L))).skipReq req).reqs.get s.reqs.next) = none := fun req =>
          Store.free_get_self (s.reqs.alloc req) s.reqs.next
        rw [hfree] at hq
        cases hq
  | read | close | sleep | fs | fsRead | fsWrite => cases hc

end World

/-- The facts about the request `r` of the method that do not change while it is pending. -/
structure MethodReq (s : World) (c : Call) (op : AsyncOp) (L r : ℕ) : Prop where
  lt : r < s.reqs.next
  req : ∀ q, s.reqs.get r = some q → q.kind = op.kind ∧ q.handle = c.handle ∧
    (c.handle = none → q.data = L)

theorem AsyncOp.kind_ne (op : AsyncOp) : op.kind ≠ .sleep ∧ op.kind ≠ .close := by
  cases op <;> exact ⟨ReqKind.noConfusion, ReqKind.noConfusion⟩

theorem MethodReq.exec {s : World} {c : Call} {op : AsyncOp} {L r : ℕ}
    (hm : MethodReq s c op L r) (hs : s.StackOk) {a : Action} (hg : s.guard a) :
    MethodReq (s.exec a) c op L r := by
  refine ⟨hm.lt.trans_le (World.exec_reqs_next hs hg), ?_⟩
  intro q hq
  rcases World.req_before hs hg hq with ⟨q', hq', rfl | ⟨hk, -⟩⟩ | ⟨hnext, -⟩
  · exact hm.req q hq'
  · exact absurd ((hm.req q' hq').1.symm.trans hk) op.kind_ne.1
  · exact absurd hnext hm.lt.ne

theorem World.running_of_top {s : World} (hs : s.StackOk) {L : ℕ} (h : s.top = some L) :
    s.status L = some .running := by
  refine hs.running L ?_
  unfold World.top at h
  split at h
  · next L' rest hf =>
    rw [hf, Option.some.inj h]
    exact List.mem_cons_self
  · cases h

/-- While a method waits, its request is as the call has left it. -/
theorem InMethod.methodReq {as : List Action} {c : Call} {op : AsyncOp} {L r : ℕ}
    (hin : InMethod as c L r) (hc : c.method = some op) (he : couv.Enabled .init as) :
    MethodReq (couv.run .init as) c op L r := by
  obtain ⟨pre, boundary, mid, rfl, htop, rfl, hst⟩ := hin.called
  have hL := World.current_of_top htop
  obtain ⟨hpre, hcur, hmid⟩ := Machine.along_append.mp he
  have hg : (couv.run .init pre).guard (.call boundary c) := hcur
  have hs := (run_inputOk hpre).1
  have hcall := World.execCall_reqs hs boundary hL hg.2
  have hexec : (couv.run .init pre).exec (.call boundary c) =
      (couv.run .init pre).execCall boundary L c := by
    simp only [World.exec, hL, Option.getD_some]
  have hrun : couv.run .init (pre ++ [.call boundary c]) =
      (couv.run .init pre).execCall boundary L c := by
    rw [Machine.run_append, ← hexec]
    rfl
  rw [hrun] at hst
  have hafter : MethodReq ((couv.run .init pre).exec (.call boundary c)) c op L
      (couv.run .init pre).reqs.next := by
    rw [hexec]
    rcases hcall.cases with ⟨-, hsame | ⟨m, h, rfl⟩⟩ | ⟨req, hleave, hreqs, -⟩
    · -- a coroutine that runs does not wait
      rw [hsame, World.running_of_top hs htop] at hst
      cases hst
    · cases hc
    · refine ⟨by rw [hreqs]; exact Nat.lt_succ_self _, ?_⟩
      intro q hq
      have hk := World.execCall_kind hc hq
      rw [hreqs, Store.alloc_get_self] at hq
      obtain rfl := Option.some.inj hq
      exact ⟨hk, hleave.handle, hleave.data⟩
  rw [Machine.run_append]
  exact (Machine.run_invariant (I := fun s => s.StackOk ∧ MethodReq s c op L _)
    (fun s a hs hg => ⟨hs.1.exec hg, hs.2.exec hs.1 hg⟩) ⟨hs.exec hg, hafter⟩ hmid).2

/-- The coroutine that the callback resumes. -/
theorem MethodReq.target {s : World} {c : Call} {op : AsyncOp} {L r : ℕ}
    (hm : MethodReq s c op L r) (hc : c.method = some op) {q : Req}
    (hq : s.reqs.get r = some q) : s.target q = L ↔ ∀ h ∈ c.handle, s.data h = L := by
  obtain ⟨hk, hh, hd⟩ := hm.req q hq
  unfold World.target
  cases c with
  | getaddrinfo =>
    cases hc
    rw [hk, hd rfl]
    exact iff_of_true rfl (fun h hh => nomatch hh)
  | write h | write2 h | shutdown h | tcpConnect h | pipeConnect h | send h =>
    cases hc
    rw [hk, hh]
    exact ⟨fun ht k hk => Option.some.inj hk ▸ ht, fun hall => hall h rfl⟩
  | read | close | sleep | fs | fsRead | fsWrite => cases hc

section
variable {s : World} {c : Call} {op : AsyncOp} {L r : ℕ} (hm : MethodReq s c op L r)
  (hc : c.method = some op) (hw : s.status L = some (.suspended (.req r)))
include hm hc hw

/-- The call ends with what its callback hands over exactly if it is the one that is resumed. -/
theorem complete_ends {q : Req} (hq : s.reqs.get r = some q) (o : Outcome) (vs : List Value) :
    (s.complete r o).returns = ⟨L, .req r, .completion r, vs⟩ :: s.returns ↔
      (∀ h ∈ c.handle, s.data h = L) ∧ vs = op.kind.args o := by
  obtain ⟨hk, -, -⟩ := hm.req q hq
  have hne := op.kind_ne
  rw [← hm.target hc hq, ← hk]
  constructor
  · intro hret
    -- the call returns only if the callback resumes its coroutine
    have htarget : s.target q = L := by
      rcases World.complete_returns hq o with hsame | ⟨ret, hret', hreturned⟩
      · rw [hsame] at hret
        exact absurd hret (List.cons_ne_self _ _).symm
      · rw [hret'] at hret
        obtain rfl := (List.cons.inj hret).1
        cases hreturned with
        | read m h n hwait => cases hwait
        | lua args ha => cases ha
        | input e node ha hn =>
          cases ha
          cases hn
        | complete r' o' q' ha hq' hT =>
          cases ha
          have hres := World.resumed_complete hq (by rw [hk]; exact hne.1)
            (fun h => absurd (hk.symm.trans h) hne.2) o
          exact Option.some.inj (hres.symm.trans hT)
    refine ⟨htarget, ?_⟩
    have hown := (World.complete_resumes hq (by rw [hk]; exact hne.1) (htarget ▸ hw) o).2
    rw [hown] at hret
    exact (Return.mk.inj (List.cons.inj hret).1).2.2.2.symm
  · rintro ⟨rfl, rfl⟩
    exact (World.complete_resumes hq (by rw [hk]; exact hne.1) hw o).2

/-- The callback ends the method as it should exactly under these conditions. -/
theorem endsRight_iff {q : Req} (hq : s.reqs.get r = some q) {o : Outcome} (ho : o.status ≤ 0)
    (res : List AddrinfoC) : s.EndsRight op L r o res ↔
      (op = .write2 → 0 ≤ o.status) ∧ (∀ h ∈ c.handle, s.data h = L) ∧
        (op = .getaddrinfo → o.status = 0 →
          ∀ p ∈ res, saFamily p.addr = afInet ∨ saFamily p.addr = afInet6) := by
  obtain ⟨hk, -, -⟩ := hm.req q hq
  have hcb : ∀ o' : Outcome, o'.status = o.status → o'.code = o.code →
      ((∃ vs, (s.complete r o').returns = ⟨L, .req r, .completion r, vs⟩ :: s.returns ∧
        Raises o (op.wrap vs)) ↔
        (op = .write2 → 0 ≤ o.status) ∧ (∀ h ∈ c.handle, s.data h = L)) := by
    intro o' hst hcode
    have hraises : Raises o (op.wrap (op.kind.args o')) ↔ (op = .write2 → 0 ≤ o.status) := by
      have hiff := raises_iff op (o := o') (hst ▸ ho)
      unfold Raises at hiff ⊢
      rw [hst, hcode] at hiff
      exact hiff
    constructor
    · rintro ⟨vs, hret, hvs⟩
      -- the values that came back are those of this callback
      obtain ⟨hdata, rfl⟩ := (complete_ends hm hc hw hq o' vs).mp hret
      exact ⟨hraises.mp hvs, hdata⟩
    · rintro ⟨h2, hdata⟩
      exact ⟨_, (complete_ends hm hc hw hq o' _).mpr ⟨hdata, rfl⟩, hraises.mpr h2⟩
  have hgai : q.kind = .getaddrinfo ↔ op = .getaddrinfo := by
    rw [hk]
    cases op <;> decide
  simp only [World.EndsRight, World.runCallback, hq, hgai]
  rw [← and_assoc]
  split
  · next hfound =>
    obtain ⟨hop, hzero⟩ := hfound
    simp only [hop, hzero, true_implies, ← pushAddrinfos_isOk]
    cases hp : pushAddrinfos res with
    | error e =>
      -- the callback raises, and the method does not return
      refine iff_of_false ?_ (fun h => nomatch h.2)
      rintro ⟨t, vs, ht, -⟩
      cases ht
    | ok infos =>
      have hend := hcb { o with infos := infos } rfl rfl
      rw [hop, hzero] at hend
      constructor
      · rintro ⟨t, vs, ht, hrest⟩
        cases ht
        exact ⟨hend.mp ⟨vs, hrest⟩, rfl⟩
      · rintro ⟨hcond, -⟩
        obtain ⟨vs, hrest⟩ := hend.mpr hcond
        exact ⟨_, vs, rfl, hrest⟩
  · next hnot =>
    have hend := hcb o rfl rfl
    constructor
    · rintro ⟨t, vs, ht, hrest⟩
      cases ht
      exact ⟨hend.mp ⟨vs, hrest⟩, fun hop hzero => absurd ⟨hop, hzero⟩ hnot⟩
    · rintro ⟨hcond, -⟩
      obtain ⟨vs, hrest⟩ := hend.mpr hcond
      exact ⟨_, vs, rfl, hrest⟩

end

/-- For every method, every run in which a coroutine is suspended in it, every status of 0 or less
and every list that getaddrinfo may have found: the callback ends the method with the error name
of a negative status, and without an error value else, if and only if the method is not a write2
that fails, `handle->data` is the coroutine, and the found addresses are of the two families. -/
theorem async_fail_iff {as : List Action} {c : Call} {op : AsyncOp} {L r : ℕ} {o : Outcome}
    (hc : c.method = some op) (he : couv.Enabled .init as) (hin : InMethod as c L r)
    (hg : (couv.run .init as).guard (.event (.complete r o))) (ho : o.status ≤ 0)
    (res : List AddrinfoC) : (couv.run .init as).EndsRight op L r o res ↔
      (op = .write2 → 0 ≤ o.status) ∧ (∀ h ∈ c.handle, (couv.run .init as).data h = L) ∧
        (op = .getaddrinfo → o.status = 0 →
          ∀ p ∈ res, saFamily p.addr = afInet ∨ saFamily p.addr = afInet6) := by
  obtain ⟨q, hq, -⟩ := hg.2
  exact endsRight_iff (hin.methodReq hc he) hc hin.waits hq ho res

/-- A coroutine has made a pipe. -/
def pipeReady : List Action := [.lua .create, .lua (.resume 1 []), .heap (.newTable []),
  .handle (.pipeNew true)]

/-- It calls a method of the pipe, and the main thread runs the loop. -/
def pipeCall (c : Call) : List Action := pipeReady ++ [.call false c, .lua .uvRun]

theorem async_fail_iff_write : (couv.run .init (pipeCall (.write 0 0 true))).EndsRight .write 1 0
    ⟨-1, 32, [], [], [], []⟩ [] := by
  have hin : InMethod (pipeCall (.write 0 0 true)) (.write 0 0 true) 1 0 :=
    ⟨⟨pipeReady, false, [.lua .uvRun], rfl, rfl, rfl, rfl⟩, rfl⟩
  exact (async_fail_iff rfl (by decide) hin (by decide) (by decide) []).mpr (by decide)

/-- A write2 that fails returns the error name. -/
theorem write2_fails : ¬∀ (as : List Action) (c : Call) (op : AsyncOp) (L r : ℕ) (o : Outcome)
    (res : List AddrinfoC), c.method = some op → couv.Enabled .init as → InMethod as c L r →
    (couv.run .init as).guard (.event (.complete r o)) → o.status ≤ 0 →
      (couv.run .init as).EndsRight op L r o res := by
  intro hall
  have hin : InMethod (pipeCall (.write2 0 0 true)) (.write2 0 0 true) 1 0 :=
    ⟨⟨pipeReady, false, [.lua .uvRun], rfl, rfl, rfl, rfl⟩, rfl⟩
  obtain ⟨t, vs, -, -, hraises⟩ := hall _ _ .write2 1 0 ⟨-1, 32, [], [], [], []⟩ [] rfl
    (by decide) hin (by decide) (by decide)
  cases hraises

end Couv
