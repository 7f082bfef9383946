import Couv.Steps

/-! How far a handle is in its life, and which requests it may still have. -/
namespace Couv

/-- uv_*_init or uv_spawn has succeeded and the close callback has not run. -/
def Handle.Known (x : Handle) : Prop := x.linked = true ∧ x.closed = false

instance (x : Handle) : Decidable x.Known := inferInstanceAs (Decidable (_ ∧ _))

/-- The handle may have libuv call one of its callbacks without a request. -/
def Handle.Active (x : Handle) : Prop := x.armed = true ∨ x.reading.isSome = true

structure LifeOk (hs : Store Handle) (rs : Store Req) : Prop where
  closed : ∀ h x, hs.get h = some x → x.closed = true → x.closing = true
  active : ∀ h x, hs.get h = some x → x.Active → x.linked = true ∧ x.closing = false
  shape : ∀ r q, rs.get r = some q → q.kind.onHandle = q.handle.isSome
  pending : ∀ r q h, rs.get r = some q → q.handle = some h →
    ∃ x, hs.get h = some x ∧ x.Known ∧ (q.kind = .close → x.closing = true)

/-- Handles and requests agree. -/
def World.LifeOk (s : World) : Prop := Couv.LifeOk s.handles s.reqs

theorem lifeOk_init : World.init.LifeOk where
  closed _ _ h := nomatch h
  active _ _ h := nomatch h
  shape _ _ h := nomatch h
  pending _ _ _ h := nomatch h

theorem passive_lifeOk : Passive World.LifeOk :=
  ⟨⟨fun _ _ _ => rfl, fun _ => rfl, fun _ _ => rfl, fun _ _ => rfl⟩, fun _ _ _ _ _ _ => rfl⟩

namespace World

/-- A handle that Lua code may use has not been closed. -/
theorem LifeOk.known {s : World} (hs : s.LifeOk) {h : ℕ} {types : List HandleType}
    (hh : s.Has h types true) : ∃ x, s.handles.get h = some x ∧ x.Known := by
  obtain ⟨x, hx, hl, -, -, hopen⟩ := hh
  refine ⟨x, hx, hl, ?_⟩
  by_contra hc
  have hcl := hs.closed h x hx (by simpa using hc)
  rw [hopen rfl] at hcl
  cases hcl

/-- An active handle has not been closed. -/
theorem LifeOk.known_of_active {s : World} (hs : s.LifeOk) {h : ℕ} {x : Handle}
    (hx : s.handles.get h = some x) (ha : x.Active) : x.Known := by
  obtain ⟨hl, hopen⟩ := hs.active h x hx ha
  refine ⟨hl, ?_⟩
  by_contra hc
  have hcl := hs.closed h x hx (by simpa using hc)
  rw [hopen] at hcl
  cases hcl

end World

namespace LifeOk
variable {hs : Store Handle} {rs : Store Req} (h : LifeOk hs rs)
include h

theorem handlesAlloc {x : Handle} (hc : x.closed = true → x.closing = true)
    (ha : x.Active → x.linked = true ∧ x.closing = false) : LifeOk (hs.alloc x) rs := by
  refine ⟨?_, ?_, h.shape, ?_⟩
  · intro k y hy
    rcases hs.alloc_eq_some.mp hy with ⟨-, rfl⟩ | ⟨-, hy⟩
    · exact hc
    · exact h.closed k y hy
  · intro k y hy
    rcases hs.alloc_eq_some.mp hy with ⟨-, rfl⟩ | ⟨-, hy⟩
    · exact ha
    · exact h.active k y hy
  · intro r q k hq hk
    obtain ⟨y, hy, hkn⟩ := h.pending r q k hq hk
    exact ⟨y, hs.alloc_get_of_some hy, hkn⟩

/-- An update of the handle `k`, which stays known or has no request left. -/
theorem handlesModify {k : ℕ} {f : Handle → Handle}
    (hf : ∀ x, hs.get k = some x → ((f x).closed = true → (f x).closing = true) ∧
      ((f x).Active → (f x).linked = true ∧ (f x).closing = false))
    (hk : ∀ x, hs.get k = some x → x.Known →
      (f x).Known ∧ (x.closing = true → (f x).closing = true) ∨
        ∀ r q, rs.get r = some q → q.handle ≠ some k) : LifeOk (hs.modify k f) rs := by
  refine ⟨?_, ?_, h.shape, ?_⟩
  · intro k' y hy
    rcases hs.modify_eq_some.mp hy with ⟨rfl, x, hx, rfl⟩ | ⟨-, hy⟩
    · exact (hf x hx).1
    · exact h.closed k' y hy
  · intro k' y hy
    rcases hs.modify_eq_some.mp hy with ⟨rfl, x, hx, rfl⟩ | ⟨-, hy⟩
    · exact (hf x hx).2
    · exact h.active k' y hy
  · intro r q k' hq hqk
    obtain ⟨y, hy, hkn, hcl⟩ := h.pending r q k' hq hqk
    -- the handle stays known, or no request is on it
    by_cases hkk : k' = k
    · subst hkk
      rcases hk y hy hkn with ⟨hn, hcl'⟩ | hn
      · exact ⟨f y, hs.modify_get_self f hy, hn, fun hq => hcl' (hcl hq)⟩
      · exact absurd hqk (hn r q hq)
    · exact ⟨y, (hs.modify_get_ne f hkk).trans hy, hkn, hcl⟩

theorem reqsAlloc {q : Req} (hq : q.kind.onHandle = q.handle.isSome)
    (hk : ∀ k, q.handle = some k →
      ∃ x, hs.get k = some x ∧ x.Known ∧ (q.kind = .close → x.closing = true)) :
    LifeOk hs (rs.alloc q) := by
  refine ⟨h.closed, h.active, ?_, ?_⟩
  · intro r q' hq'
    rcases rs.alloc_eq_some.mp hq' with ⟨-, rfl⟩ | ⟨-, hq'⟩
    · exact hq
    · exact h.shape r q' hq'
  · intro r q' k hq'
    rcases rs.alloc_eq_some.mp hq' with ⟨-, rfl⟩ | ⟨-, hq'⟩
    · exact hk k
    · exact h.pending r q' k hq'

theorem reqsFree (r : ℕ) : LifeOk hs (rs.free r) := by
  refine ⟨h.closed, h.active, ?_, ?_⟩
  · intro r' q hq
    exact h.shape r' q (rs.free_eq_some.mp hq).2
  · intro r' q k hq
    exact h.pending r' q k (rs.free_eq_some.mp hq).2

end LifeOk

namespace World.LifeOk
variable {s : World} (hs : s.LifeOk)
include hs

theorem execHandle {L : ℕ} {a : HandleAct} (hg : s.guardHandle a) :
    (s.execHandle L a).LifeOk := by
  obtain ⟨hs', reg, input, he, -, ⟨rfl, -⟩ | ⟨x, hx, rfl, -⟩ |
    ⟨h, x, f, hget, hl, -, rfl, hf, -⟩⟩ := (execHandle_spec hg).cases
  · rw [he]
    exact hs
  · rw [he]
    refine hs.handlesAlloc ?_ ?_
    · intro hc
      rw [hx.idle.2.1] at hc
      cases hc
    · rintro (ha | hr)
      · exact ⟨(hx.armed ha).1, hx.idle.1⟩
      · rw [hx.idle.2.2.1] at hr
        cases hr
  -- one handle is edited: it stays active only if it was, or it was not closing
  · rw [he]
    have hlife := hs.active h x hget
    refine hs.handlesModify ?_ ?_
    · intro y hy
      obtain rfl := Option.some.inj (hget.symm.trans hy)
      rw [hf.closed, hf.closing, hf.linked]
      refine ⟨hs.closed h x hget, ?_⟩
      rintro (ha | hr)
      · rcases hf.armed ha with ha | ⟨-, hc⟩
        · exact hlife (.inl ha)
        · exact ⟨hl, hc⟩
      · obtain ⟨m, hm⟩ := Option.isSome_iff_exists.mp hr
        rcases hf.reading m hm with hm | ⟨hc, -⟩
        · exact hlife (.inr (by rw [hm]; rfl))
        · exact ⟨hl, hc⟩
    · intro y hy hk
      obtain rfl := Option.some.inj (hget.symm.trans hy)
      left
      exact ⟨⟨hf.linked.trans hk.1, hf.closed.trans hk.2⟩, fun hc => hf.closing.trans hc⟩

theorem submit (boundary : Bool) {q : Req} (hq : q.kind.onHandle = q.handle.isSome)
    (hk : ∀ h, q.handle = some h →
      ∃ x, s.handles.get h = some x ∧ x.Known ∧ (q.kind = .close → x.closing = true)) :
    (s.submit boundary q).LifeOk :=
  (passive_lifeOk.luaYield _ boundary _).mpr (hs.reqsAlloc hq hk)

theorem couvClose (boundary : Bool) {h L : ℕ} {types : List HandleType}
    (hh : s.Has h types true) : (s.couvClose boundary h L).LifeOk := by
  obtain ⟨x, hx, hk⟩ := hs.known hh
  have hclose : (s.modifyHandle h
      (fun x => { x with closing := true, armed := false, reading := none })).LifeOk := by
    refine hs.handlesModify ?_ (fun y _ hy => .inl ⟨hy, fun _ => rfl⟩)
    intro y _
    refine ⟨fun _ => rfl, ?_⟩
    rintro (ha | hr)
    · cases ha
    · cases hr
  have hknown : ∀ k, some h = some k → ∃ y, (s.modifyHandle h
      (fun x => { x with closing := true, armed := false, reading := none })).handles.get k =
        some y ∧ y.Known ∧ (ReqKind.close = .close → y.closing = true) := by
    rintro k hhk
    obtain rfl := Option.some.inj hhk
    exact ⟨_, s.handles.modify_get_self _ hx, hk, fun _ => rfl⟩
  simp only [World.couvClose]
  split
  · exact hclose.reqsAlloc rfl hknown
  · exact hclose.submit boundary rfl hknown

theorem execCall (boundary : Bool) (L : ℕ) {c : Call} (hg : s.guardCall c) :
    (s.execCall boundary L c).LifeOk := by
  rcases (World.execCall_spec boundary L hg).cases with
    ⟨m, h, -, hr⟩ | ⟨h, rfl, hr⟩ | hr | ⟨req, hr⟩ | ⟨t, req, ha, hr⟩
  · rw [hr, passive_lifeOk.couvPrimRead]
    exact hs
  · rw [hr]
    exact hs.couvClose boundary hg
  · rw [hr]
    exact hs
  · -- the request is gone at once
    rw [hr]
    refine ⟨hs.closed, hs.active, ?_, ?_⟩
    · intro r q hq
      obtain ⟨hne, hq⟩ := Store.free_eq_some _ |>.mp hq
      rcases s.reqs.alloc_eq_some.mp hq with ⟨rfl, -⟩ | ⟨-, hq⟩
      · exact absurd rfl hne
      · exact hs.shape r q hq
    · intro r q k hq
      obtain ⟨hne, hq⟩ := Store.free_eq_some _ |>.mp hq
      rcases s.reqs.alloc_eq_some.mp hq with ⟨rfl, -⟩ | ⟨-, hq⟩
      · exact absurd rfl hne
      · exact hs.pending r q k hq
  · rw [hr]
    have hshape : req.kind.onHandle = req.handle.isSome := by rw [ha.onHandle, ha.handle]
    have hknown : ∀ k, req.handle = some k → ∃ x, s.handles.get k = some x ∧ x.Known ∧
        (req.kind = .close → x.closing = true) := by
      intro k hk
      obtain ⟨types, hh⟩ := ha.usable k (ha.handle.symm.trans hk)
      obtain ⟨x, hx, hkn⟩ := hs.known hh
      exact ⟨x, hx, hkn, fun hc => absurd hc ha.kind.1⟩
    rcases ha.state with ⟨rfl, -⟩ | ⟨rfl, -⟩
    · exact hs.submit boundary hshape hknown
    · exact World.LifeOk.submit (s := s.couvRawsetp _ _) hs boundary hshape hknown

theorem sleepCb (r : ℕ) (hk : ∀ q, s.reqs.get r = some q → q.kind = .sleep) :
    (s.sleepCb r).LifeOk := by
  refine ⟨hs.closed, hs.active, ?_, ?_⟩
  · intro r' q hq
    rcases s.reqs.modify_eq_some.mp hq with ⟨rfl, q', hq', rfl⟩ | ⟨-, hq⟩
    · have hshape := hs.shape r' q' hq'
      rw [hk q' hq'] at hshape
      exact hshape
    · exact hs.shape r' q hq
  · intro r' q h hq
    rcases s.reqs.modify_eq_some.mp hq with ⟨rfl, q', hq', rfl⟩ | ⟨-, hq⟩
    · intro hh
      obtain ⟨x, hx, hkn, -⟩ := hs.pending r' q' h hq' hh
      exact ⟨x, hx, hkn, fun hc => nomatch hc⟩
    · exact hs.pending r' q h hq

/-- When close_cb runs the handle has no other request. -/
theorem cleaned {h r : ℕ} (hcl : ∀ x, s.handles.get h = some x → x.closing = true)
    (hlast : ∀ r' q, s.reqs.get r' = some q → q.handle = some h → r' = r)
    (reg : RegKey → Option RegVal) : (s.cleaned h r reg).LifeOk := by
  refine (hs.reqsFree r).handlesModify ?_ ?_
  · intro x hx
    exact ⟨fun _ => hcl x hx, hs.active h x hx⟩
  · intro x hx hk
    right
    intro r' q hq hh
    obtain ⟨hne, hq⟩ := s.reqs.free_eq_some.mp hq
    exact hne (hlast r' q hq hh)

/-- A completable close request is the last request of its handle. -/
theorem complete {r : ℕ} (hc : s.Completable r) (o : Outcome) : (s.complete r o).LifeOk := by
  obtain ⟨q, hq, hlast⟩ := hc
  have hlast : q.kind = .close → _ := fun hk => (Store.all_iff _).mp (hlast hk)
  rcases World.complete_cases hq o with ⟨hk, he⟩ | ⟨hk, he⟩ | ⟨-, -, t, ht, he⟩
  · rw [he]
    refine hs.sleepCb r ?_
    intro q' hq'
    rw [← Option.some.inj (Option.mem_def.mp hq |>.symm.trans hq')]
    exact hk
  · rw [he]
    have hshape := hs.shape r q hq
    rw [hk] at hshape
    obtain ⟨h, hh⟩ := Option.isSome_iff_exists.mp hshape.symm
    -- no other request of the handle is left, and its close was asked for
    have hclean : ∀ reg, (s.cleaned h r reg).LifeOk := by
      refine hs.cleaned ?_ ?_
      · intro x hx
        obtain ⟨y, hy, -, hcl⟩ := hs.pending r q h hq hh
        rw [← Option.some.inj (hy.symm.trans hx)]
        exact hcl hk
      · intro r' q' hq' hh'
        exact hlast hk r' q' hq' (hh'.trans hh.symm)
    rw [hh]
    obtain ⟨reg, -, ⟨-, he⟩ | ⟨-, he⟩⟩ := World.closeCb_cases (s := s) h r
    · exact he ▸ hclean reg
    · rw [Option.getD_some, he, passive_lifeOk.couvResume]
      exact hclean reg
  · rw [he, passive_lifeOk.couvResume]
    rcases ht with rfl | rfl
    · exact hs.reqsFree r
    · exact hs.reqsFree r

theorem execEvent {e : Event} (hg : s.guardEvent e) : (s.execEvent e).LifeOk := by
  have hcb : ∀ node rd, (s.inputCb node rd).LifeOk := fun node rd =>
    (passive_lifeOk.inputCb s (fun _ _ => rfl) (fun _ _ => rfl) node rd).mpr hs
  -- a callback may disarm its handle; a timer that repeats stays armed
  have hstop : ∀ (h : ℕ) (f : Handle → Bool), (∀ x, f x = true → x.armed = true) ∨
      s.Armed h [.timer] → (s.modifyHandle h (fun x => { x with armed := f x })).LifeOk := by
    intro h f hf
    refine hs.handlesModify ?_ (fun y _ hy => .inl ⟨hy, id⟩)
    intro x hx
    refine ⟨hs.closed h x hx, ?_⟩
    rintro (ha | hr)
    · rcases hf with hf | ⟨y, hy, harm, -⟩
      · exact hs.active h x hx (.inl (hf x ha))
      · rw [← Option.some.inj (Option.mem_def.mp hy |>.symm.trans hx)]
        exact hs.active h y hy (.inl harm)
    · exact hs.active h x hx (.inr hr)
  cases e with
  | alloc h n env =>
    exact (World.couvBufAllocCb_proj (f := World.LifeOk) (fun _ _ => rfl) (fun _ _ => rfl)
      s h n env).mpr hs
  | readCb h nread rd behind junk => exact hcb _ rd
  | read2Cb h nread rd pending junk => exact hcb _ rd
  | udpRecvCb h nread rd behind junk addr => exact hcb _ rd
  | complete r o => exact hs.complete hg o
  | timerCb h =>
    exact (passive_lifeOk.push _ _).mpr (hstop h (fun x => x.rep) (.inr hg))
  | exitCb h =>
    exact (passive_lifeOk.push _ _).mpr (hstop h (fun _ => false) (.inl (fun _ h => nomatch h)))
  | connectionCb h => exact (passive_lifeOk.push _ _).mpr hs

/-- Every step keeps handles and requests in agreement. -/
theorem exec {a : Action} (hg : s.guard a) : (s.exec a).LifeOk := by
  cases a with
  | lua a => exact (passive_lifeOk.execLua s _ a).mpr hs
  | handle a => exact hs.execHandle hg.2
  | call boundary c => exact hs.execCall boundary _ hg.2
  | heap a =>
    exact (World.execHeap_proj (f := World.LifeOk) (fun _ _ => rfl) (fun _ _ => rfl)
      (fun _ _ => rfl) s a).mpr hs
  | event e => exact hs.execEvent hg.2
  | gc g =>
    cases g with
    | thread T => exact hs
    | handle h =>
      refine hs.handlesModify ?_ (fun y _ hy => .inl ⟨hy, id⟩)
      intro x hx
      exact ⟨hs.closed h x hx, hs.active h x hx⟩
    | buffer b =>
      exact (World.collectBuffer_proj (f := World.LifeOk) (fun _ _ => rfl) s b).mpr hs
    | string sid => exact hs

end World.LifeOk
end Couv
