import Couv.RegistryKeys

/-! What the registry keeps alive: the memory of a handle that the loop knows, and the
lua_State that its callbacks use. -/
namespace Couv

/-! Handles. -/

/-- The registry keeps the userdata of the handle. -/
def World.UserdataAnchored (s : World) (h : ℕ) : Prop :=
  s.registry (couvUserdataRegKey h) = some (.userdata h)

instance (s : World) (h : ℕ) : Decidable (s.UserdataAnchored h) :=
  inferInstanceAs (Decidable (_ = _))

theorem userdataEntry_eq_some_iff {h : ℕ} {x : Handle} :
    x.userdataEntry h = some (.userdata h) ↔ (x.type = .timer → x.started = true) := by
  unfold Handle.userdataEntry
  split
  · next hx => simp [hx.1, hx.2]
  · next hx =>
    rw [not_and, Bool.not_eq_false] at hx
    simpa using hx

/-- In every reachable state the registry keeps a handle that the loop knows, unless it is a
timer that has never been started. Exactly such timers may be collected. -/
theorem handle_memory_anchored {as : List Action} (he : couv.Enabled .init as) {h : ℕ} {x : Handle}
    (hx : (couv.run .init as).handles.get h = some x) (hk : x.Known) :
    ((couv.run .init as).UserdataAnchored h ↔ (x.type = .timer → x.started = true)) ∧
      (couv.guard (couv.run .init as) (.gc (.handle h)) ↔
        ¬(x.type = .timer → x.started = true)) ∧
      (x.collected = true → ¬(x.type = .timer → x.started = true)) := by
  have hs := run_keysOk he
  have hkey := (hs.keys h x hx hk).2
  have hiff : (couv.run .init as).UserdataAnchored h ↔ (x.type = .timer → x.started = true) := by
    unfold World.UserdataAnchored couvUserdataRegKey
    rw [hkey]
    exact userdataEntry_eq_some_iff
  refine ⟨hiff, ?_, ?_⟩
  · rw [← hiff]
    constructor
    · exact fun hg => hg.2
    · exact fun hn => ⟨by rw [hx]; rfl, hn⟩
  · intro hc hst
    obtain ⟨ht, hns⟩ := hs.collected h x hx hk hc
    rw [hst ht] at hns
    cases hns

/-- A timer that the main thread makes and starts. -/
theorem handle_memory_anchored_timer :
    (couv.run .init [.handle (.timerNew true),
      .handle (.timerStart 0 7 false .ok)]).UserdataAnchored 0 :=
  (handle_memory_anchored (by decide) rfl (by decide)).1.mpr (fun _ => rfl)

/-- A timer that has not been started is collected while the loop knows it. -/
theorem timer_memory_not_anchored : ¬∀ as, couv.Enabled .init as → ∀ h x,
    (couv.run .init as).handles.get h = some x → x.Known →
      (couv.run .init as).UserdataAnchored h ∧ x.collected = false := by
  intro hall
  have h := hall [.handle (.timerNew true), .gc (.handle 0)] (by decide) 0 _ rfl (by decide)
  exact Bool.noConfusion h.2

/-! Coroutines. -/

/-- Nothing that runs, and nothing that the registry holds, is collected (`dead`). -/
structure LiveOk (frames : List Frame) (dead : ℕ → Bool) (reg : RegKey → Option RegVal)
    (rs : Store Req) : Prop where
  main : dead mainThread = false
  frames : ∀ L, .thread L ∈ frames ∨ .call L ∈ frames → dead L = false
  thread : ∀ h T, reg (.thread h) = some (.thread T) → dead T = false
  reqThread : ∀ r T, reg (.reqThread r) = some (.thread T) → dead T = false
  fresh : ∀ r, rs.next ≤ r → reg (.reqThread r) = none
  held : ∀ r q, rs.get r = some q → q.kind.onHandle = false →
    reg (.reqThread r) = some (.thread q.data)

def World.LiveOk (s : World) : Prop := Couv.LiveOk s.frames s.collected s.registry s.reqs

theorem liveOk_init : World.init.LiveOk where
  main := rfl
  frames L h := by
    have hL : L = mainThread := by simpa [World.init] using h
    rw [hL]
    rfl
  thread _ _ h := nomatch h
  reqThread _ _ h := nomatch h
  fresh _ _ := rfl
  held _ _ h := nomatch h

namespace LiveOk
variable {fr : List Frame} {dead : ℕ → Bool} {reg : RegKey → Option RegVal} {rs : Store Req}
  (h : LiveOk fr dead reg rs)
include h

theorem tail : LiveOk fr.tail dead reg rs :=
  { h with frames := fun L hL =>
      h.frames L (hL.imp List.mem_of_mem_tail List.mem_of_mem_tail) }

theorem cons {f : Frame} (hf : ∀ L, f = .thread L ∨ f = .call L → dead L = false) :
    LiveOk (f :: fr) dead reg rs := by
  refine { h with frames := ?_ }
  intro L hL
  simp only [List.mem_cons] at hL
  rcases hL with (hL | hL) | (hL | hL)
  · exact hf L (.inl hL.symm)
  · exact h.frames L (.inl hL)
  · exact hf L (.inr hL.symm)
  · exact h.frames L (.inr hL)

/-- A request that is submitted with its coroutine registered, or on a handle. -/
theorem reqsAlloc {q : Req} (hq : q.kind.onHandle = false →
    reg (.reqThread rs.next) = some (.thread q.data))
    (hf : ∀ r, rs.next < r → reg (.reqThread r) = none) : LiveOk fr dead reg (rs.alloc q) := by
  refine { h with fresh := ?_, held := ?_ }
  · intro r hr
    exact hf r hr
  · intro r q' hq' hon
    rcases rs.alloc_eq_some.mp hq' with ⟨rfl, rfl⟩ | ⟨-, hq'⟩
    · exact hq hon
    · exact h.held r q' hq' hon

theorem reqsFree (r : ℕ) : LiveOk fr dead reg (rs.free r) :=
  { h with held := fun r' q hq => h.held r' q (rs.free_eq_some.mp hq).2 }

end LiveOk

namespace World.LiveOk
variable {s : World} (hs : s.LiveOk)
include hs

/-- The lua_State that runs has not been collected. -/
theorem current {L : ℕ} (hL : s.current = some L) : s.collected L = false := by
  apply hs.frames
  unfold World.current at hL
  split at hL
  · next T rest hf =>
    obtain rfl := Option.some.inj hL
    exact .inl (by rw [hf]; exact List.mem_cons_self)
  · next T rest hf =>
    obtain rfl := Option.some.inj hL
    exact .inr (by rw [hf]; exact List.mem_cons_self)
  · cases hL

theorem couvResume {L : ℕ} (hL : s.collected L = false) (src : Source) (args : List Value) :
    (s.couvResume L src args).LiveOk := by
  unfold World.LiveOk
  rw [passive_collected.couvResume, passive_registry.couvResume, passive_reqs.couvResume]
  rcases World.couvResume_frames (s := s) L src args with hf | hf
  · rw [hf]
    exact hs
  · rw [hf]
    refine LiveOk.cons hs ?_
    rintro T (hT | hT)
    · rw [← Frame.thread.inj hT]
      exact hL
    · cases hT

theorem luaYield (boundary : Bool) (w : Wait) : (s.luaYield boundary w).LiveOk := by
  unfold World.LiveOk
  rw [passive_collected.luaYield, passive_registry.luaYield, passive_reqs.luaYield]
  rcases World.luaYield_frames (s := s) boundary w with hf | hf
  · rw [hf]
    exact hs
  · rw [hf]
    exact LiveOk.tail hs

theorem couvPrimRead (boundary : Bool) (L : ℕ) (m : InputMode) (h : ℕ) :
    (s.couvPrimRead boundary L m h).LiveOk := by
  unfold World.LiveOk
  rw [passive_collected.couvPrimRead, passive_registry.couvPrimRead, passive_reqs.couvPrimRead]
  rcases World.couvPrimRead_frames (s := s) boundary L m h with hf | hf
  · rw [hf]
    exact hs
  · rw [hf]
    exact LiveOk.tail hs

theorem execLua {L : ℕ} {a : LuaAct} (hg : s.guardLua a) : (s.execLua L a).LiveOk := by
  cases a with
  | create =>
    exact (congrArg (fun d => Couv.LiveOk s.frames d s.registry s.reqs)
      (passive_collected.create s)).mpr hs
  | resume T args =>
    simp only [World.execLua]
    split
    · exact hs.couvResume hg.2.2.1 .lua args
    · exact hs.couvResume hg.2.2.1 .lua args
    · exact hs
  | yield boundary => exact hs.luaYield boundary .yield
  | finish callable =>
    have hdead := passive_collected.setStatus s L (.finished callable)
    exact (congrArg (fun d => Couv.LiveOk s.frames.tail d s.registry s.reqs) hdead).mpr
      (LiveOk.tail hs)
  | callReturn => exact LiveOk.tail hs
  | uvRun =>
    refine LiveOk.cons hs ?_
    rintro T (hT | hT) <;> cases hT
  | uvRunReturn => exact LiveOk.tail hs

theorem execHandle {L : ℕ} {a : HandleAct} (hL : s.current = some L) (hg : s.guardHandle a) :
    (s.execHandle L a).LiveOk := by
  obtain ⟨hs', reg, input, he, hreg, -⟩ := (World.execHandle_spec (L := L) hg).cases
  rw [he]
  refine ⟨hs.main, hs.frames, ?_, ?_, ?_, ?_⟩
  · intro h T hT
    rcases hreg.thread _ T hT with hT | ⟨rfl, -⟩
    · exact hs.thread h T hT
    · exact hs.current hL
  · intro r T hT
    exact hs.reqThread r T ((hreg.req r).symm.trans hT)
  · intro r hr
    exact (hreg.req r).trans (hs.fresh r hr)
  · intro r q hq hon
    exact (hreg.req r).trans (hs.held r q hq hon)

/-- Registering the coroutine that runs for the next request. -/
private theorem anchorNext {L : ℕ} (hL : s.collected L = false) (q : Req)
    (hq : q.kind.onHandle = false → q.data = L) :
    ((s.couvRawsetp (.reqThread s.reqs.next) (some (.thread L))).newReq q).LiveOk := by
  refine ⟨hs.main, hs.frames, ?_, ?_, ?_, ?_⟩
  · intro h T hT
    exact hs.thread h T (by simpa [World.newReq] using hT)
  -- the key of the new request, and the keys of the others
  · intro r T hT
    simp only [World.newReq, couvRawsetp_registry] at hT
    split at hT
    · rw [← RegVal.thread.inj (Option.some.inj hT)]
      exact hL
    · exact hs.reqThread r T hT
  · intro r hr
    have hlt : s.reqs.next < r := hr
    have hne : RegKey.reqThread r ≠ .reqThread s.reqs.next := by simpa using hlt.ne'
    simp only [World.newReq, couvRawsetp_registry, if_neg hne]
    exact hs.fresh r hlt.le
  · intro r q' hq' hon
    simp only [World.newReq, couvRawsetp_registry, RegKey.reqThread.injEq]
    rcases s.reqs.alloc_eq_some.mp hq' with ⟨rfl, rfl⟩ | ⟨hne, hq'⟩
    · rw [if_pos rfl, hq hon]
    · rw [if_neg hne]
      exact hs.held r q' hq' hon

theorem execCall {boundary : Bool} {L : ℕ} {c : Call} (hL : s.current = some L)
    (hg : s.guardCall c) : (s.execCall boundary L c).LiveOk := by
  have hnew : ∀ q : Req, q.kind.onHandle = true → (s.newReq q).LiveOk := by
    intro q hq
    refine LiveOk.reqsAlloc hs (fun h => ?_) (fun r hr => hs.fresh r (le_of_lt hr))
    rw [hq] at h
    cases h
  rcases (World.execCall_spec boundary L hg).cases with
    ⟨m, h, -, hr⟩ | ⟨h, -, hr⟩ | hr | ⟨req, hr⟩ | ⟨t, req, ha, hr⟩
  · rw [hr]
    exact hs.couvPrimRead boundary L m h
  · rw [hr]
    have hclose : World.LiveOk (World.newReq (s.modifyHandle h
        (fun x => { x with closing := true, armed := false, reading := none }))
          ⟨.close, some h, 0, L, .none, [], []⟩) := hnew _ rfl
    simp only [World.couvClose]
    split
    · exact hclose
    · exact hclose.luaYield boundary _
  · rw [hr]
    exact hs
  · -- a rejected sleep or getaddrinfo leaves its thread key and no request
    rw [hr]
    have hskip := hs.anchorNext (hs.current hL) ⟨.getaddrinfo, none, L, L, .none, [], []⟩
      (fun _ => rfl)
    refine ⟨hs.main, hs.frames, hskip.thread, hskip.reqThread, hskip.fresh, ?_⟩
    intro r q hq hon
    obtain ⟨hne, hq⟩ := Store.free_eq_some _ |>.mp hq
    have hkeep := hskip.held r q
    rcases s.reqs.alloc_eq_some.mp hq with ⟨rfl, -⟩ | ⟨-, hq⟩
    · exact absurd rfl hne
    · exact hkeep (s.reqs.alloc_get_of_some hq) hon
  · rw [hr]
    refine World.LiveOk.luaYield ?_ boundary _
    rcases ha.state with ⟨rfl, hh⟩ | ⟨rfl, hd, -⟩
    · exact hnew req (ha.onHandle.trans hh)
    · exact hs.anchorNext (hs.current hL) req (fun _ => hd)

/-- The request is over and its key cleared. -/
private theorem released (r : ℕ) :
    World.LiveOk { s.couvRawsetp (.reqThread r) none with reqs := s.reqs.free r } := by
  refine ⟨hs.main, hs.frames, ?_, ?_, ?_, ?_⟩
  · intro h T hT
    exact hs.thread h T (by simpa using hT)
  · intro r' T hT
    simp only [couvRawsetp_registry] at hT
    split at hT
    · cases hT
    · exact hs.reqThread r' T hT
  · intro r' hr
    simp only [couvRawsetp_registry]
    split
    · rfl
    · exact hs.fresh r' hr
  · intro r' q hq hon
    obtain ⟨hne, hq⟩ := s.reqs.free_eq_some.mp hq
    simp only [couvRawsetp_registry, RegKey.reqThread.injEq, if_neg hne]
    exact hs.held r' q hq hon

private theorem cleaned (h r : ℕ) {reg : RegKey → Option RegVal}
    (hreg : ∀ k, reg k = s.registry k ∨
      reg k = none ∧ (k = .userdata h ∨ k = .thread h ∨ k = .callback h)) :
    (s.cleaned h r reg).LiveOk := by
  have hsub : ∀ k T, reg k = some (.thread T) → s.registry k = some (.thread T) := by
    intro k T hT
    rcases hreg k with hk | ⟨hk, -⟩
    · exact hk.symm.trans hT
    · rw [hk] at hT
      cases hT
  have hreq : ∀ r, reg (.reqThread r) = s.registry (.reqThread r) := by
    intro r
    rcases hreg (.reqThread r) with hk | ⟨-, hk⟩
    · exact hk
    · simp at hk
  refine ⟨hs.main, hs.frames, ?_, ?_, ?_, ?_⟩
  · exact fun k T hT => hs.thread k T (hsub _ T hT)
  · exact fun k T hT => hs.reqThread k T (hsub _ T hT)
  · exact fun k hk => (hreq k).trans (hs.fresh k hk)
  · exact fun k q hq hon => (hreq k).trans (hs.held k q (s.reqs.free_eq_some.mp hq).2 hon)

theorem complete {r : ℕ} {q : Req} (hq : s.reqs.get r = some q)
    (hL : s.collected (s.target q) = false) (o : Outcome) : (s.complete r o).LiveOk := by
  rcases World.complete_cases hq o with ⟨hk, he⟩ | ⟨hk, he⟩ | ⟨-, -, t, ht, he⟩
  · -- the sleep becomes the closing of its timer
    rw [he]
    refine ⟨hs.main, hs.frames, hs.thread, hs.reqThread, hs.fresh, ?_⟩
    intro r' q' hq' hon
    rcases s.reqs.modify_eq_some.mp hq' with ⟨rfl, y, hy, rfl⟩ | ⟨-, hq'⟩
    · obtain rfl := Option.some.inj (hq.symm.trans hy)
      exact hs.held r' q hq (by rw [hk]; rfl)
    · exact hs.held r' q' hq' hon
  · rw [he]
    obtain ⟨reg, hreg, ⟨-, he⟩ | ⟨-, he⟩⟩ :=
      World.closeCb_cases (s := s) (q.handle.getD 0) r
    · rw [he]
      exact hs.cleaned _ r hreg
    · rw [he]
      refine (hs.cleaned _ r hreg).couvResume ?_ _ _
      have htarget : s.target q = s.data (q.handle.getD 0) := by
        simp only [World.target, hk, ReqKind.onHandle, if_true]
      exact htarget ▸ hL
  · rw [he]
    refine World.LiveOk.couvResume ?_ ?_ _ _
    · rcases ht with rfl | rfl
      · exact LiveOk.reqsFree hs r
      · exact hs.released r
    · rcases ht with rfl | rfl
      · exact hL
      · exact hL

/-- An event keeps this if the lua_State its callback uses has not been collected. -/
theorem execEvent {e : Event} (hg : s.guardEvent e)
    (hL : ∀ L ∈ s.eventThread e, s.collected L = false) : (s.execEvent e).LiveOk := by
  -- the input callbacks resume the coroutine that waits on the handle
  have hcb : ∀ node rd, s.collected (s.data node.handle) = false →
      (s.inputCb node rd).LiveOk := by
    intro node rd hd
    have hs' : World.LiveOk ((s.takeRead rd).enqueue node) := by
      cases rd with
      | none => exact hs
      | some rd => exact hs
    have hd' : ((s.takeRead rd).enqueue node).collected (s.data node.handle) = false := by
      cases rd with
      | none => exact hd
      | some rd => exact hd
    simp only [World.inputCb]
    split
    · exact hs'.couvResume hd' _ _
    · exact hs'
  have hcall : ∀ h, s.collected (s.data h) = false → ∀ L, Frame.call (s.data h) = .thread L ∨
      Frame.call (s.data h) = .call L → s.collected L = false := by
    rintro h hd L (he | he)
    · cases he
    · rw [← Frame.call.inj he]
      exact hd
  cases e with
  | alloc h n env =>
    exact (World.couvBufAllocCb_proj (f := World.LiveOk) (fun _ _ => rfl) (fun _ _ => rfl)
      s h n env).mpr hs
  | readCb h nread rd behind junk => exact hcb _ rd (hL _ rfl)
  | read2Cb h nread rd pending junk => exact hcb _ rd (hL _ rfl)
  | udpRecvCb h nread rd behind junk addr => exact hcb _ rd (hL _ rfl)
  | complete r o =>
    obtain ⟨q, hq, -⟩ := hg
    exact hs.complete hq (hL _ (by rw [World.eventThread, hq]; rfl)) o
  | timerCb h => exact LiveOk.cons hs (hcall h (hL _ rfl))
  | exitCb h => exact LiveOk.cons hs (hcall h (hL _ rfl))
  | connectionCb h => exact LiveOk.cons hs (hcall h (hL _ rfl))

/-- The collector takes no coroutine that runs or is in the registry. -/
theorem collectThread {T : ℕ} (hk : s.KeysOk) (hg : s.guardGc (.thread T)) :
    (s.collectThread T).LiveOk := by
  obtain ⟨-, hmain, -, hthread, hcall, hkeys, hreqs⟩ := hg
  have hother : ∀ L, L ≠ T → s.collected L = false → (s.collectThread T).collected L = false := by
    intro L hne hL
    simp only [World.collected, World.collectThread]
    rw [Store.modify_get_ne _ _ hne]
    exact hL
  refine ⟨hother _ hmain.symm hs.main, ?_, ?_, ?_, hs.fresh, hs.held⟩
  · intro L hL
    refine hother L ?_ (hs.frames L hL)
    rintro rfl
    exact hL.elim hthread hcall
  · intro h L hL
    refine hother L ?_ (hs.thread h L hL)
    rintro rfl
    -- a key of a handle that was never made has no entry
    by_cases hlt : h < s.handles.next
    · exact hkeys h hlt hL
    · have hfresh := (hk.fresh h (not_lt.mp hlt)).1
      rw [show s.registry (.thread h) = some (.thread L) from hL] at hfresh
      cases hfresh
  · intro r L hL
    refine hother L ?_ (hs.reqThread r L hL)
    rintro rfl
    by_cases hlt : r < s.reqs.next
    · exact hreqs r hlt hL
    · have hfresh := hs.fresh r (not_lt.mp hlt)
      rw [show s.registry (.reqThread r) = some (.thread L) from hL] at hfresh
      cases hfresh

theorem exec {a : Action} (hk : s.KeysOk) (hg : s.guard a)
    (hL : ∀ e, a = .event e → ∀ L ∈ s.eventThread e, s.collected L = false) :
    (s.exec a).LiveOk := by
  cases a with
  | lua a => exact hs.execLua hg
  | handle a =>
    obtain ⟨L, hcur⟩ := Option.isSome_iff_exists.mp hg.1
    simp only [World.exec, hcur]
    exact hs.execHandle hcur hg.2
  | call boundary c =>
    obtain ⟨L, hcur⟩ := Option.isSome_iff_exists.mp hg.1
    simp only [World.exec, hcur]
    exact hs.execCall hcur hg.2
  | heap a =>
    exact (World.execHeap_proj (f := World.LiveOk) (fun _ _ => rfl) (fun _ _ => rfl)
      (fun _ _ => rfl) s a).mpr hs
  | event e => exact hs.execEvent hg.2 (hL e rfl)
  | gc g =>
    cases g with
    | thread T => exact hs.collectThread hk hg
    | handle h => exact hs
    | buffer b =>
      exact (World.collectBuffer_proj (f := World.LiveOk) (fun _ _ => rfl) s b).mpr hs
    | string sid => exact hs

end World.LiveOk
/-! What `handle->data` is. -/

/-- `handle->data` is the main thread or the coroutine under the thread key. -/
def World.ThreadAnchored (s : World) (h : ℕ) (x : Handle) : Prop :=
  x.data = mainThread ∨ s.registry (couvThreadRegKey h) = some (.thread x.data)

/-- `handle->data` is the main thread, or the creator of a handle that gets a thread key. -/
def Handle.OwnThread (x : Handle) : Prop :=
  x.data = mainThread ∨ x.type.plain = false ∧ x.data = x.creator

instance (x : Handle) : Decidable x.OwnThread := inferInstanceAs (Decidable (_ ∨ _))

theorem threadAnchored_iff {s : World} (hs : s.KeysOk) {h : ℕ} {x : Handle}
    (hx : s.handles.get h = some x) (hk : x.Known) : s.ThreadAnchored h x ↔ x.OwnThread := by
  have hkey := (hs.keys h x hx hk).1
  unfold World.ThreadAnchored Handle.OwnThread couvThreadRegKey
  rw [hkey, Handle.threadEntry]
  rcases htype : x.type with _ | _ | _ | _ | _ | _
  case tty =>
    by_cases hc : x.creator = mainThread
    · simp [HandleType.plain, hc]
    · simp [HandleType.plain, hc, eq_comm]
  all_goals simp [HandleType.plain, eq_comm]

/-- Timers and processes are made in the main thread, and a tcp handle is opened there or by
its creator. -/
def AnchorStep (s : World) : Action → Prop
  | .handle (.timerNew true) | .handle (.spawn _ .ok) => s.current = some mainThread
  | .handle (.tcpOpen h true) =>
    s.current = some mainThread ∨ ∃ x ∈ s.handles.get h, s.current = some x.creator
  | _ => True

instance (s : World) : DecidablePred (AnchorStep s)
  | .handle (.timerNew true) | .handle (.spawn _ .ok) => inferInstanceAs (Decidable (_ = _))
  | .handle (.tcpOpen _ true) => inferInstanceAs (Decidable (_ ∨ ∃ x ∈ Store.get _ _, _))
  | .handle (.timerNew false) | .handle (.spawn _ .argError) | .handle (.spawn _ .uvError)
  | .handle (.tcpOpen _ false) | .handle (.tcpNew _) | .handle (.udpNew _) | .handle (.pipeNew _)
  | .handle (.ttyNew _) | .handle (.listen _ _ _) | .handle (.timerStart _ _ _ _)
  | .handle (.timerStop _) | .handle (.timerAgain _) | .handle (.timerSetRepeat _ _)
  | .handle (.readStart _ _ _) | .handle (.readStop _)
  | .lua _ | .call _ _ | .heap _ | .event _ | .gc _ => isTrue trivial

/-- Every handle that the loop knows calls back on its own coroutine. -/
def World.OwnThreads (s : World) : Prop :=
  ∀ h x, s.handles.get h = some x → x.Known → x.OwnThread

/-- Every step that meets the condition keeps this. -/
theorem World.OwnThreads.exec {s : World} {a : Action} (hs : s.OwnThreads) (hg : s.guard a)
    (hstep : AnchorStep s a) : (s.exec a).OwnThreads := by
  rcases (World.exec_handles hg).cases with he | ⟨m, L, x, rfl, hL, hx, he, hplain⟩ |
    ⟨h, x, f, hget, he, hf⟩
  · unfold World.OwnThreads
    rw [he]
    exact hs
  · intro k y hy hk
    rw [he] at hy
    rcases s.handles.alloc_eq_some.mp hy with ⟨rfl, rfl⟩ | ⟨-, hy⟩
    · have hdata := hx.data hk.1
      rcases hplain hk.1 with hmake | htype
      · -- a timer or a process is made in the main thread
        have hmain : s.current = some mainThread := by
          unfold HandleAct.makesPlain at hmake
          split at hmake
          · exact hstep
          · exact hstep
          · cases hmake
        exact .inl (hdata.trans (Option.some.inj (hL.symm.trans hmain)))
      · exact .inr ⟨htype, hdata.trans hx.creator.symm⟩
    · exact hs k y hy hk
  · intro k y hy hk
    rw [he] at hy
    rcases s.handles.modify_eq_some.mp hy with ⟨rfl, x', hx', rfl⟩ | ⟨-, hy⟩
    · obtain rfl := Option.some.inj (hget.symm.trans hx')
      have hown := hs k x hget ⟨hf.linked.symm.trans hk.1, hf.closed hk.2⟩
      unfold Handle.OwnThread at hown ⊢
      rw [hf.type, hf.creator]
      -- only tcp open gives a handle another thread
      rcases hf.data with hd | ⟨rfl, htcp, hd⟩
      · rwa [hd]
      · rcases hstep with hmain | ⟨y, hy, hcr⟩
        · exact .inl (Option.some.inj (hd.symm.trans hmain))
        · obtain rfl := Option.some.inj (Option.mem_def.mp hy |>.symm.trans hget)
          rw [htcp]
          exact .inr ⟨rfl, Option.some.inj (hd.symm.trans hcr)⟩
    · exact hs k y hy hk

/-- No callback uses a lua_State that has been collected. -/
def CallsLive (s : World) (a : Action) : Prop :=
  ∀ e, a = .event e → ∀ L ∈ s.eventThread e, s.collected L = false

/-- What holds along every run of steps that meet the condition. -/
structure AnchorOk (s : World) : Prop where
  keys : s.KeysOk
  life : s.LifeOk
  own : s.OwnThreads
  live : s.LiveOk

theorem anchorOk_init : AnchorOk .init :=
  ⟨keysOk_init, lifeOk_init, fun _ _ h => (nomatch h), liveOk_init⟩

namespace AnchorOk
variable {s : World} (hs : AnchorOk s)
include hs

/-- The lua_State of a handle that the loop knows has not been collected. -/
theorem data_live {h : ℕ} {x : Handle} (hx : s.handles.get h = some x) (hk : x.Known) :
    s.collected (s.data h) = false := by
  have hdata : s.data h = x.data := by
    unfold World.data
    rw [hx]
    rfl
  rw [hdata]
  rcases (threadAnchored_iff hs.keys hx hk).mpr (hs.own h x hx hk) with hm | hreg
  · rw [hm]
    exact hs.live.main
  · exact hs.live.thread h _ hreg

theorem callsLive {a : Action} (hg : s.guard a) : CallsLive s a := by
  rintro e rfl L hL
  have hactive : ∀ h x, s.handles.get h = some x → x.Active → s.collected (s.data h) = false :=
    fun h x hx ha => hs.data_live hx (hs.life.known_of_active hx ha)
  have hreading : ∀ m h rd, s.InputReady m h rd → s.collected (s.data h) = false := by
    rintro m h rd ⟨⟨x, hx, -, hr⟩, -⟩
    exact hactive h x hx (.inr (by rw [hr]; rfl))
  have harmed : ∀ h types, s.Armed h types → s.collected (s.data h) = false := by
    rintro h types ⟨x, hx, ha, -⟩
    exact hactive h x hx (.inl ha)
  -- a callback runs for a handle that is active, so its thread key is set
  cases e with
  | alloc h n env =>
    obtain rfl := Option.some.inj hL
    obtain ⟨-, -, x, hx, -, hr⟩ := hg
    exact hactive h x hx (.inr hr)
  | readCb h nread rd behind junk =>
    obtain rfl := Option.some.inj hL
    exact hreading _ h rd hg.2
  | read2Cb h nread rd pending junk =>
    obtain rfl := Option.some.inj hL
    exact hreading _ h rd hg.2
  | udpRecvCb h nread rd behind junk addr =>
    obtain rfl := Option.some.inj hL
    exact hreading _ h rd hg.2.1
  | complete r o =>
    obtain ⟨q, hq, rfl⟩ := Option.map_eq_some_iff.mp hL
    have hshape := hs.life.shape r q hq
    unfold World.target
    split
    · next hon =>
      obtain ⟨h, hh⟩ := Option.isSome_iff_exists.mp (hshape.symm.trans hon)
      obtain ⟨x, hx, hk, -⟩ := hs.life.pending r q h hq hh
      rw [hh]
      exact hs.data_live hx hk
    · next hon => exact hs.live.reqThread r _ (hs.live.held r q hq (by simpa using hon))
  | timerCb h =>
    obtain rfl := Option.some.inj hL
    exact harmed h _ hg.2
  | exitCb h =>
    obtain rfl := Option.some.inj hL
    exact harmed h _ hg.2
  | connectionCb h =>
    obtain rfl := Option.some.inj hL
    exact harmed h _ hg.2

theorem exec {a : Action} (hg : s.guard a) (hstep : AnchorStep s a) : AnchorOk (s.exec a) :=
  ⟨hs.keys.exec hg, hs.life.exec hg, hs.own.exec hg hstep,
    hs.live.exec hs.keys hg (hs.callsLive hg)⟩

end AnchorOk

/-- A handle's lua_State is anchored exactly when it is the main thread, or the creator of a
handle of a class that sets the thread key. In every run whose steps keep to that, the
lua_State of every known handle is anchored and no callback uses a collected one. -/
theorem thread_anchored {as : List Action} (he : couv.Enabled .init as) :
    (∀ h x, (couv.run .init as).handles.get h = some x → x.Known →
      ((couv.run .init as).ThreadAnchored h x ↔ x.OwnThread)) ∧
    (couv.Along AnchorStep .init as →
      (∀ h x, (couv.run .init as).handles.get h = some x → x.Known →
        (couv.run .init as).ThreadAnchored h x) ∧ couv.Along CallsLive .init as) := by
  have hiff : ∀ h x, (couv.run .init as).handles.get h = some x → x.Known →
      ((couv.run .init as).ThreadAnchored h x ↔ x.OwnThread) :=
    fun h x hx hk => threadAnchored_iff (run_keysOk he) hx hk
  refine ⟨hiff, fun hstep => ?_⟩
  have halong := Machine.along_and.mpr ⟨he, hstep⟩
  have hok : AnchorOk (couv.run .init as) :=
    Machine.run_invariant (fun _ _ hs hp => hs.exec hp.1 hp.2) anchorOk_init halong
  refine ⟨fun h x hx hk => (hiff h x hx hk).mpr (hok.own h x hx hk), ?_⟩
  exact Machine.along_of_invariant (fun _ _ hs hp => hs.exec hp.1 hp.2)
    (fun _ _ hs hp => hs.callsLive hp.1) anchorOk_init halong

/-- A coroutine makes a tcp handle, closes it and finishes. -/
theorem thread_anchored_tcp : couv.Along CallsLive .init [.lua .create, .lua (.resume 1 []),
    .handle (.tcpNew true), .call false (.close 0), .lua .uvRun, .event (.complete 0 .ok)] :=
  ((thread_anchored (by decide)).2 (by decide)).2

/-- A coroutine starts a timer and is collected before the timer fires. -/
theorem timer_thread_not_anchored :
    ¬(∀ as, couv.Enabled .init as → ∀ h x, (couv.run .init as).handles.get h = some x →
        x.Known → (couv.run .init as).ThreadAnchored h x) ∧
    ¬∀ as, couv.Enabled .init as → couv.Along CallsLive .init as := by
  constructor
  · intro hall
    have h := hall [.lua .create, .lua (.resume 1 []), .handle (.timerNew true)] (by decide) 0 _
      rfl (by decide)
    rcases h with h | h <;> cases h
  · intro hall
    have h := hall [.lua .create, .lua (.resume 1 []), .handle (.timerNew true),
      .handle (.timerStart 0 7 false .ok), .lua (.finish false), .gc (.thread 1), .lua .uvRun,
      .event (.timerCb 0)] (by decide)
    exact Bool.noConfusion (h.2.2.2.2.2.2.2.1 _ rfl _ rfl)

end Couv
