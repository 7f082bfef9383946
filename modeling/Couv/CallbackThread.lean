import Couv.Stack

/-! The lua_State on which timer_cb, exit_cb and connection_cb call the Lua callback. -/
namespace Couv

/-- The coroutine that lua_yield would suspend. -/
def World.top (s : World) : Option ℕ :=
  match s.frames with
  | .thread L :: _ => some L
  | _ => none

def Action.arms : Action → Option ℕ
  | .handle m => m.arms
  | _ => none

/-- A coroutine that comes to wait leaves no armed handle behind, and no handle is armed
whose coroutine waits. -/
def QuietStep (s : World) (a : Action) : Prop :=
  (∀ L ∈ s.top, (s.exec a).yielded L = true →
    (s.exec a).handles.All (fun _ x => x.armed = true → x.data ≠ L)) ∧
  ∀ h ∈ a.arms, s.yielded (s.data h) = false

instance (s : World) (a : Action) : Decidable (QuietStep s a) :=
  inferInstanceAs (Decidable ((∀ L ∈ s.top, _) ∧ ∀ h ∈ a.arms, _))

/-- The callback is not called on a coroutine that waits. -/
def CalledIdle (s : World) (a : Action) : Prop :=
  ∀ h, a = .event (.timerCb h) ∨ a = .event (.exitCb h) ∨ a = .event (.connectionCb h) →
    s.yielded (s.data h) = false

theorem World.top_of_head {s : World} {L : ℕ} (h : s.frames.head? = some (.thread L)) :
    s.top = some L := by
  unfold World.top
  cases hf : s.frames with
  | nil => simp [hf] at h
  | cons f rest =>
    rw [hf] at h
    obtain rfl : f = .thread L := by simpa using h
    rfl

theorem World.data_of_get {s : World} {h : ℕ} {x : Handle} (hx : s.handles.get h = some x) :
    s.data h = x.data := by
  unfold World.data
  rw [hx]
  rfl

structure IdleOk (s : World) : Prop where
  stack : s.StackOk
  armed : ∀ h x, s.handles.get h = some x → x.armed = true → s.yielded x.data = false
  calls : ∀ L, .call L ∈ s.frames → s.yielded L = false

theorem idleOk_init : IdleOk .init where
  stack := stackOk_init
  armed _ _ h := nomatch h
  calls L h := by simp [World.init] at h

namespace IdleOk
variable {s : World} (hs : IdleOk s)
include hs

/-- The lua_State that runs does not wait. -/
theorem current_idle {L : ℕ} (hL : s.current = some L) : s.yielded L = false := by
  unfold World.current at hL
  split at hL
  · next T rest hf =>
    obtain rfl := Option.some.inj hL
    have hrun := hs.stack.running T (by rw [hf]; exact List.mem_cons_self)
    unfold World.yielded
    rw [hrun]
  · next T rest hf =>
    obtain rfl := Option.some.inj hL
    exact hs.calls T (by rw [hf]; exact List.mem_cons_self)
  · cases hL

theorem calledIdle {a : Action} (hg : s.guard a) : CalledIdle s a := by
  have harmed : ∀ h types, s.Armed h types → s.yielded (s.data h) = false := by
    rintro h types ⟨x, hx, ha, -⟩
    rw [World.data_of_get hx]
    exact hs.armed h x hx ha
  rintro h (rfl | rfl | rfl)
  · exact harmed h _ hg.2
  · exact harmed h _ hg.2
  · exact harmed h _ hg.2

/-- An armed handle after the step did not belong to a waiting coroutine before it. -/
theorem armed_before {a : Action} (hg : s.guard a) (hq : QuietStep s a) {h : ℕ} {y : Handle}
    (hy : (s.exec a).handles.get h = some y) (harm : y.armed = true) :
    s.yielded y.data = false := by
  rcases (World.exec_handles hg).cases with he | ⟨m, L, x, rfl, hL, hx, he, -⟩ |
    ⟨k, x, f, hget, he, hf⟩
  · exact hs.armed h y (he ▸ hy) harm
  · rw [he] at hy
    rcases s.handles.alloc_eq_some.mp hy with ⟨-, rfl⟩ | ⟨-, hy⟩
    · -- a child process: its coroutine is the one that runs
      rw [hx.data (hx.armed harm).1]
      exact hs.current_idle hL
    · exact hs.armed h y hy harm
  · rw [he] at hy
    rcases s.handles.modify_eq_some.mp hy with ⟨rfl, x', hx', rfl⟩ | ⟨-, hy⟩
    · obtain rfl := Option.some.inj (hget.symm.trans hx')
      rcases hf.data with hd | ⟨-, -, hcur⟩
      · rw [hd]
        rcases hf.armed harm with ha | ⟨m, rfl, hm⟩
        · exact hs.armed h x hget ha
        · rw [← World.data_of_get hget]
          exact hq.2 h hm
      · exact hs.current_idle hcur
    · exact hs.armed h y hy harm

theorem exec {a : Action} (hg : s.guard a) (hq : QuietStep s a) : IdleOk (s.exec a) := by
  have hstack := hs.stack.exec hg
  refine ⟨hstack, ?_, ?_⟩
  · intro h y hy harm
    have hbefore := hs.armed_before hg hq hy harm
    by_contra hyield
    rw [Bool.not_eq_false] at hyield
    rcases World.exec_yielded hs.stack hg hyield with hold | hhead
    · rw [hbefore] at hold
      cases hold
    · exact (Store.all_iff _).mp (hq.1 _ (World.top_of_head hhead) hyield) h y hy harm rfl
  · intro L hmem
    by_contra hyield
    rw [Bool.not_eq_false] at hyield
    rcases World.exec_call_mem hs.stack hg hmem with hold | ⟨hst, k, types, ⟨x, hx, ha, -⟩, rfl⟩
    · rcases World.exec_yielded hs.stack hg hyield with hy | hhead
      · rw [hs.calls L hold] at hy
        cases hy
      · -- a callback on the coroutine on top would lie below it
        have hover := hs.stack.order
        rw [List.eq_cons_of_mem_head? hhead] at hover hold
        rcases List.mem_cons.mp hold with he | hold
        · cases he
        · exact ((List.pairwise_cons.mp hover).1 _ hold).2 rfl
    · obtain ⟨w, hw⟩ := (World.yielded_iff _).mp hyield
      have hy := (World.yielded_iff s).mpr ⟨w, (congrFun hst _).symm.trans hw⟩
      rw [World.data_of_get hx, hs.armed k x hx ha] at hy
      cases hy

end IdleOk

/-- In every run in which a coroutine that comes to wait leaves no armed handle behind, and no
handle of a waiting coroutine is armed, every timer, exit and connection callback is called on
a lua_State that does not wait, and none of them runs on one that does. -/
theorem callback_called_idle {as : List Action} (he : couv.Enabled .init as)
    (hq : couv.Along QuietStep .init as) :
    couv.Along CalledIdle .init as ∧
      ∀ L, .call L ∈ (couv.run .init as).frames → (couv.run .init as).yielded L = false := by
  have halong := Machine.along_and.mpr ⟨he, hq⟩
  have hstep : ∀ s a, IdleOk s → s.guard a ∧ QuietStep s a → IdleOk (s.exec a) :=
    fun _ _ hs hp => hs.exec hp.1 hp.2
  constructor
  · exact Machine.along_of_invariant hstep (fun _ _ hs hp => hs.calledIdle hp.1) idleOk_init
      halong
  · have hok : IdleOk (couv.run .init as) :=
      Machine.run_invariant hstep idleOk_init halong
    exact hok.calls

/-- A coroutine starts a timer and finishes; the timer fires while another one sleeps. -/
theorem callback_called_idle_timer : couv.Along CalledIdle .init [.lua .create, .lua .create,
    .lua (.resume 1 []), .handle (.timerNew true), .handle (.timerStart 0 7 false .ok),
    .lua (.finish false), .lua (.resume 2 []), .call false (.sleep true), .lua .uvRun,
    .event (.timerCb 0)] :=
  (callback_called_idle (by decide) (by decide)).1

/-- A coroutine starts a timer and sleeps; the timer fires during the sleep. -/
theorem callback_called_waiting : ¬∀ as, couv.Enabled .init as →
    couv.Along CalledIdle .init as := by
  intro hall
  have h := hall [.lua .create, .lua (.resume 1 []), .handle (.timerNew true),
    .handle (.timerStart 0 7 false .ok), .call false (.sleep true), .lua .uvRun,
    .event (.timerCb 0)] (by decide)
  exact Bool.noConfusion (h.2.2.2.2.2.2.1 0 (.inl rfl))

end Couv
