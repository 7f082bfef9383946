import Couv.CallbackThread
import Couv.Delivery

/-! The requests after a step, and the callbacks that wake the coroutine waiting for them. -/
namespace Couv
namespace World

/-- lua_yield succeeds: a coroutine runs, with no C call between. -/
def CanYield (s : World) (boundary : Bool) : Prop :=
  boundary = false ∧ ∃ L ∈ s.top, L ≠ mainThread

instance (s : World) (boundary : Bool) : Decidable (s.CanYield boundary) :=
  inferInstanceAs (Decidable (_ ∧ ∃ L ∈ s.top, _))

/-- The request `req` that the call `c` of `L` leaves. -/
structure Leaves (s : World) (L : ℕ) (c : Call) (req : Req) : Prop where
  caller : req.caller = L
  handle : req.handle = c.handle
  onHandle : req.kind.onHandle = c.handle.isSome
  data : c.handle = none → req.data = L
  waits : s.waitsOn c = c.handle
  submits : s.submits L c = true ∨ L = mainThread ∧ req.kind = .close ∧ ∃ h, c = .close h
  memory : s.Lends c req

/-- What a call does to the requests, and to the coroutine that makes it. -/
structure CallReqs (s : World) (boundary : Bool) (L : ℕ) (c : Call) (s' : World) : Prop where
  cases : (s'.reqs = s.reqs ∨ ∃ req, s'.reqs = (s.reqs.alloc req).free s.reqs.next) ∧
      (s'.status = s.status ∨ ∃ m h, c = .read m h) ∨
    ∃ req, s.Leaves L c req ∧ s'.reqs = s.reqs.alloc req ∧
      (s.CanYield boundary → s'.status L = some (.suspended (.req s.reqs.next)))

section
variable {s : World}

theorem current_of_top {L : ℕ} (h : s.top = some L) : s.current = some L := by
  unfold top at h
  unfold current
  split at h
  · next hf => simpa only [hf] using h
  · cases h

theorem status_submit {u : World} {boundary : Bool} {L : ℕ} (hs : u.StackOk)
    (hL : u.current = some L) (req : Req) (hy : u.CanYield boundary) :
    (u.submit boundary req).status L = some (.suspended (.req u.reqs.next)) := by
  obtain ⟨hb, T, hT, hne⟩ := hy
  obtain rfl : T = L := Option.some.inj ((current_of_top hT).symm.trans hL)
  obtain ⟨rest, hrest⟩ : ∃ rest, u.frames = .thread T :: rest := by
    unfold top at hT
    split at hT
    · next L' rest hf => exact ⟨rest, by rw [hf, Option.some.inj hT]⟩
    · cases hT
  have hrun : (u.newReq req).status T = some .running :=
    hs.running T (by rw [hrest]; exact List.mem_cons_self)
  have hyield : (u.newReq req).luaYield boundary (.req u.reqs.next) =
      (u.newReq req).suspend T (.req u.reqs.next) := by
    have hf : (u.newReq req).frames = .thread T :: rest := hrest
    unfold luaYield
    rw [hf]
    exact if_neg (by simp [hb, hne])
  rw [submit, hyield]
  exact status_setStatus_self _ _ hrun

theorem submit_reqs (u : World) (boundary : Bool) (req : Req) :
    (u.submit boundary req).reqs = u.reqs.alloc req :=
  passive_reqs.luaYield _ boundary _

theorem execCall_reqs (hs : s.StackOk) (boundary : Bool) {L : ℕ} {c : Call}
    (hL : s.current = some L) (hg : s.guardCall c) :
    s.CallReqs boundary L c (s.execCall boundary L c) := by
  rcases (execCall_spec boundary L hg).cases with
    ⟨m, h, rfl, hr⟩ | ⟨h, rfl, hr⟩ | hr | ⟨req, hr⟩ | ⟨t, req, ha, hr⟩
  · refine ⟨.inl ⟨.inl ?_, .inr ⟨m, h, rfl⟩⟩⟩
    rw [hr, passive_reqs.couvPrimRead]
  · let u := s.modifyHandle h
      (fun x => { x with closing := true, armed := false, reading := none })
    have hsome : (Call.close h).handle = none → (0 : ℕ) = L := fun hc =>
      absurd hc (Option.some_ne_none h)
    rw [hr]
    simp only [couvClose]
    split
    · -- close in the main thread submits its request without waiting
      next hmain =>
      refine ⟨.inr ⟨_, ⟨rfl, rfl, rfl, hsome, rfl, .inr ⟨hmain, rfl, h, rfl⟩,
        lends_none⟩, rfl, ?_⟩⟩
      rintro ⟨-, T, hT, hne⟩
      have hTL := Option.some.inj ((current_of_top hT).symm.trans hL)
      exact absurd (hTL.trans hmain) hne
    · next hmain =>
      exact ⟨.inr ⟨_, ⟨rfl, rfl, rfl, hsome, rfl, .inl (decide_eq_true hmain), lends_none⟩,
        submit_reqs u boundary _, status_submit (u := u) hs hL _⟩⟩
  · exact ⟨.inl ⟨.inl (by rw [hr]), .inl (by rw [hr])⟩⟩
  · exact ⟨.inl ⟨.inr ⟨req, by rw [hr]; rfl⟩, .inl (by rw [hr]; rfl)⟩⟩
  -- a call without a handle keeps its coroutine in the request
  · have hdata : c.handle = none → req.data = L := by
      intro hc
      rcases ha.state with ⟨-, hh⟩ | ⟨-, hd, -⟩
      · rw [hc] at hh
        cases hh
      · exact hd
    rw [hr]
    refine ⟨.inr ⟨req, ⟨ha.caller, ha.handle, ha.onHandle, hdata, ha.waits, .inl ha.submits,
      ha.memory⟩, ?_, ?_⟩⟩
    · rw [submit_reqs]
      rcases ha.state with ⟨rfl, -⟩ | ⟨rfl, -⟩ <;> rfl
    · rcases ha.state with ⟨rfl, -⟩ | ⟨rfl, -⟩
      · exact status_submit hs hL req
      · exact status_submit (u := s.couvRawsetp _ _) hs hL req

end
end World

/-- The same request, perhaps a sleep whose timer is now being closed. -/
def Req.Later (q q' : Req) : Prop := q' = q ∨ q.kind = .sleep ∧ q' = { q with kind := .sleepClose }

namespace Req.Later
variable {q q' : Req} (h : q.Later q')
include h

theorem caller : q'.caller = q.caller := by
  rcases h with rfl | ⟨-, rfl⟩ <;> rfl

theorem handle : q'.handle = q.handle := by
  rcases h with rfl | ⟨-, rfl⟩ <;> rfl

theorem data : q'.data = q.data := by
  rcases h with rfl | ⟨-, rfl⟩ <;> rfl

theorem memory : q'.arg = q.arg ∧ q'.owners = q.owners ∧ q'.ranges = q.ranges := by
  rcases h with rfl | ⟨-, rfl⟩ <;> exact ⟨rfl, rfl, rfl⟩

theorem onHandle : q'.kind.onHandle = q.kind.onHandle := by
  rcases h with rfl | ⟨hk, rfl⟩
  · rfl
  · rw [hk]
    rfl

end Req.Later

namespace World

/-- What a step does to the requests. -/
structure ReqsSpec (s : World) (a : Action) (s' : World) : Prop where
  cases : s'.reqs = s.reqs ∨
    (∃ boundary c L, a = .call boundary c ∧ s.current = some L ∧ s.CallReqs boundary L c s') ∨
    ∃ r o req, a = .event (.complete r o) ∧ s.reqs.get r = some req ∧
      (req.kind = .sleep ∧ s'.reqs = s.reqs.modify r (fun q => { q with kind := .sleepClose }) ∨
        req.kind ≠ .sleep ∧ s'.reqs = s.reqs.free r)

section
variable {s : World} {a : Action}

theorem complete_reqs {r : ℕ} {req : Req} (hr : s.reqs.get r = some req) (o : Outcome) :
    req.kind = .sleep ∧ (s.complete r o).reqs =
        s.reqs.modify r (fun q => { q with kind := .sleepClose }) ∨
      req.kind ≠ .sleep ∧ (s.complete r o).reqs = s.reqs.free r := by
  rcases complete_cases hr o with ⟨hk, he⟩ | ⟨hk, he⟩ | ⟨hk, -, t, -, he⟩
  · exact .inl ⟨hk, by rw [he]; rfl⟩
  · refine .inr ⟨by rw [hk]; exact ReqKind.noConfusion, ?_⟩
    rw [he]
    obtain ⟨reg, -, ⟨-, he⟩ | ⟨-, he⟩⟩ := closeCb_cases (s := s) (req.handle.getD 0) r
    · rw [he]
      rfl
    · rw [he, passive_reqs.couvResume]
      rfl
  · exact .inr ⟨hk, by rw [he, passive_reqs.couvResume]⟩

/-- One inversion for the requests after any action. -/
theorem exec_reqs (hs : s.StackOk) (hg : s.guard a) : s.ReqsSpec a (s.exec a) := by
  cases a with
  | lua a => exact ⟨.inl (passive_reqs.execLua s _ a)⟩
  | handle m =>
    obtain ⟨hs', reg, input, he, -⟩ := (execHandle_spec (L := s.current.getD 0) hg.2).cases
    exact ⟨.inl (by simp only [exec, he])⟩
  | call boundary c =>
    obtain ⟨L, hL⟩ := Option.isSome_iff_exists.mp hg.1
    refine ⟨.inr (.inl ⟨boundary, c, L, rfl, hL, ?_⟩)⟩
    simp only [exec, hL]
    exact execCall_reqs hs boundary hL hg.2
  | heap a =>
    exact ⟨.inl (execHeap_proj (fun _ _ => rfl) (fun _ _ => rfl) (fun _ _ => rfl) s a)⟩
  | event e =>
    cases hn : e.node with
    | some node =>
      obtain ⟨rd, he, -⟩ := inputEvent hg.2 hn
      refine ⟨.inl ?_⟩
      simp only [exec, he]
      exact passive_reqs.inputCb s (fun _ _ => rfl) (fun _ _ => rfl) node rd
    | none =>
      cases e with
      | readCb | read2Cb | udpRecvCb => cases hn
      | complete r o =>
        obtain ⟨req, hr, -⟩ := hg.2
        exact ⟨.inr (.inr ⟨r, o, req, rfl, hr, complete_reqs hr o⟩)⟩
      | alloc h n env =>
        exact ⟨.inl (couvBufAllocCb_proj (fun _ _ => rfl) (fun _ _ => rfl) s h n env)⟩
      | timerCb | exitCb | connectionCb => exact ⟨.inl rfl⟩
  | gc g =>
    cases g with
    | buffer b => exact ⟨.inl (collectBuffer_proj (fun _ _ => rfl) s b)⟩
    | thread | handle | string => exact ⟨.inl rfl⟩

/-- A pending request was pending before the step, or the step is the call that leaves it. -/
theorem req_before (hs : s.StackOk) (hg : s.guard a) {r : ℕ} {req : Req}
    (hr : (s.exec a).reqs.get r = some req) :
    (∃ q, s.reqs.get r = some q ∧ q.Later req) ∨
      r = s.reqs.next ∧ ∃ boundary c L, a = .call boundary c ∧ s.current = some L ∧
        s.Leaves L c req ∧
        (s.CanYield boundary → (s.exec a).status L = some (.suspended (.req r))) := by
  -- nothing, a call, a sleep_cb, or another callback
  rcases (exec_reqs hs hg).cases with he | ⟨boundary, c, L, rfl, hL, hcall⟩ |
    ⟨q, o, req', rfl, hq, ⟨hk, he⟩ | ⟨-, he⟩⟩
  · exact .inl ⟨req, he ▸ hr, .inl rfl⟩
  · rcases hcall.cases with ⟨he | ⟨req', he⟩, -⟩ | ⟨req', hleave, he, hst⟩
    · exact .inl ⟨req, he ▸ hr, .inl rfl⟩
    · rw [he] at hr
      obtain ⟨hne, hr⟩ := (Store.free_eq_some _).mp hr
      exact .inl ⟨req, (s.reqs.alloc_eq_some.mp hr).resolve_left (fun h => hne h.1) |>.2, .inl rfl⟩
    · rw [he] at hr
      rcases s.reqs.alloc_eq_some.mp hr with ⟨rfl, rfl⟩ | ⟨-, hr⟩
      · exact .inr ⟨rfl, boundary, c, L, rfl, hL, hleave, hst⟩
      · exact .inl ⟨req, hr, .inl rfl⟩
  · rw [he] at hr
    rcases s.reqs.modify_eq_some.mp hr with ⟨rfl, x, hx, rfl⟩ | ⟨-, hr⟩
    · obtain rfl := Option.some.inj (hq.symm.trans hx)
      exact .inl ⟨req', hq, .inr ⟨hk, rfl⟩⟩
    · exact .inl ⟨req, hr, .inl rfl⟩
  · rw [he] at hr
    exact .inl ⟨req, (s.reqs.free_eq_some.mp hr).2, .inl rfl⟩

/-- A request stays pending until its callback. -/
theorem req_after (hs : s.StackOk) (hg : s.guard a) {r : ℕ} {req : Req}
    (hr : s.reqs.get r = some req) :
    (∃ q, (s.exec a).reqs.get r = some q ∧ req.Later q) ∨
      req.kind ≠ .sleep ∧ ∃ o, a = .event (.complete r o) := by
  have hne : r ≠ s.reqs.next := (s.reqs.lt_next hr).ne
  rcases (exec_reqs hs hg).cases with he | ⟨boundary, c, L, rfl, hL, hcall⟩ |
    ⟨q, o, req', rfl, hq, ⟨hk, he⟩ | ⟨hk, he⟩⟩
  · exact .inl ⟨req, he ▸ hr, .inl rfl⟩
  · rcases hcall.cases with ⟨he | ⟨req', he⟩, -⟩ | ⟨req', -, he, -⟩
    · exact .inl ⟨req, he ▸ hr, .inl rfl⟩
    · refine .inl ⟨req, ?_, .inl rfl⟩
      rw [he, Store.free_get_ne _ hne]
      exact s.reqs.alloc_get_of_some hr
    · exact .inl ⟨req, he ▸ s.reqs.alloc_get_of_some hr, .inl rfl⟩
  · by_cases hrq : r = q
    · subst hrq
      obtain rfl := Option.some.inj (hq.symm.trans hr)
      exact .inl ⟨_, he ▸ s.reqs.modify_get_self _ hr, .inr ⟨hk, rfl⟩⟩
    · exact .inl ⟨req, he ▸ (s.reqs.modify_get_ne _ hrq).trans hr, .inl rfl⟩
  · by_cases hrq : r = q
    · subst hrq
      obtain rfl := Option.some.inj (hq.symm.trans hr)
      exact .inr ⟨hk, o, rfl⟩
    · exact .inl ⟨req, he ▸ (s.reqs.free_get_ne hrq).trans hr, .inl rfl⟩

/-- The coroutine that waits for a request, if it is the target, goes on with the result. -/
theorem complete_resumes {r : ℕ} {req : Req} (hr : s.reqs.get r = some req)
    (hk : req.kind ≠ .sleep) (hst : s.status (s.target req) = some (.suspended (.req r)))
    (o : Outcome) :
    (s.complete r o).status (s.target req) = some .running ∧
      (s.complete r o).returns =
        ⟨s.target req, .req r, .completion r, req.kind.args o⟩ :: s.returns := by
  have hresume : ∀ u : World, u.status = s.status → u.returns = s.returns → ∀ args,
      (u.couvResume (s.target req) (.completion r) args).status (s.target req) =
          some .running ∧
        (u.couvResume (s.target req) (.completion r) args).returns =
          ⟨s.target req, .req r, .completion r, args⟩ :: s.returns := by
    intro u hu hrs args
    have hst' : u.status (s.target req) = some (.suspended (.req r)) := hu ▸ hst
    have he : u.couvResume (s.target req) (.completion r) args =
        (u.start (s.target req)).log ⟨s.target req, .req r, .completion r, args⟩ := by
      simp only [couvResume, hst']
    rw [he]
    exact ⟨status_setStatus_self _ _ hst', congrArg _ hrs⟩
  -- only close_cb looks whether its coroutine has yielded; the others resume it anyway
  rcases complete_cases hr o with ⟨hk', -⟩ | ⟨hk', he⟩ | ⟨-, -, t, ht, he⟩
  · exact absurd hk' hk
  · have htarget : s.target req = s.data (req.handle.getD 0) := by
      unfold target
      rw [hk']
      rfl
    rw [he]
    obtain ⟨reg, -, ⟨hy, -⟩ | ⟨-, he⟩⟩ := closeCb_cases (s := s) (req.handle.getD 0) r
    · -- the coroutine has yielded, so close_cb does resume it
      rw [← htarget, (yielded_iff s).mpr ⟨_, hst⟩] at hy
      cases hy
    · rw [he, ← htarget, hk']
      exact hresume (s.cleaned _ r reg) rfl rfl []
  · rw [he]
    apply hresume
    · rcases ht with rfl | rfl <;> rfl
    · rcases ht with rfl | rfl <;> rfl

end
end World
end Couv
