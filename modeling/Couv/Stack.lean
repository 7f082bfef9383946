import Couv.Lifecycle
import Mathlib.Logic.Function.Basic

/-! The order of the C stack, and what a step may do to it and to the status of the
coroutines. -/
namespace Couv

/-- A frame over an older one: a coroutine is on the stack once, and neither a callback on it
nor a second loop lies below. -/
def Frame.Over : Frame → Frame → Prop
  | .thread L, g => g ≠ .thread L ∧ g ≠ .call L
  | .loop, g => g ≠ .loop ∧ ∀ L, g ≠ .call L
  | .call _, _ => True

structure StackOk (frames : List Frame) (status : ℕ → Option Status) : Prop where
  order : frames.Pairwise Frame.Over
  calls : ∀ L, .call L ∈ frames → .loop ∈ frames
  running : ∀ L, .thread L ∈ frames → status L = some .running

def World.StackOk (s : World) : Prop := Couv.StackOk s.frames s.status

theorem stackOk_init : World.init.StackOk where
  order := List.pairwise_singleton _ _
  calls L h := by simp [World.init] at h
  running L h := by
    have hL : L = mainThread := by simpa [World.init] using h
    rw [hL]
    rfl

/-- At first there is only the main thread. -/
theorem World.status_init {T : ℕ} {st : Status} (h : World.init.status T = some st) :
    T = mainThread ∧ st = .running := by
  by_cases hT : T = mainThread
  · rw [hT] at h
    exact ⟨hT, (Option.some.inj h).symm⟩
  · have hne : T ≠ (Store.empty (α := Thread)).next := hT
    simp only [World.init, World.status, Store.alloc_get, if_neg hne, Store.empty_get] at h
    cases h

namespace World

/-- lua_resume does something with the coroutine. -/
def Resumable (s : World) (L : ℕ) : Prop :=
  s.status L = some .fresh ∨ s.status L = some (.finished true) ∨
    ∃ w, s.status L = some (.suspended w)

/-- The wait that an action may suspend the running coroutine in. -/
def WaitsFor (s : World) (a : Action) : Wait → Prop
  | .yield => a = .lua (.yield false)
  | .input m h => a = .call false (.read m h) ∧ ngxQueueEmpty s.input.links (.root h) = true
  | .req r => r = s.reqs.next ∧ ∃ c, a = .call false c ∧ ∀ m h, c ≠ .read m h

/-- The action `a` resumes the coroutine `L`. -/
def Wakes (s : World) (a : Action) (L : ℕ) : Prop :=
  (∃ args, a = .lua (.resume L args)) ∨ ∃ e, a = .event e ∧ s.resumed e = some L

/-- The stack and the statuses that the action `a` may leave. -/
inductive Control (s : World) (a : Action) : List Frame → (ℕ → Option Status) → Prop
  | stay : Control s a s.frames s.status
  | start (L : ℕ) (hres : s.Resumable L) (hwake : s.Wakes a L) (hcall : .call L ∉ s.frames) :
    Control s a (.thread L :: s.frames) (Function.update s.status L (some .running))
  | suspend (L : ℕ) (w : Wait) (hhead : s.frames.head? = some (.thread L)) (hne : L ≠ mainThread)
    (hw : s.WaitsFor a w) :
    Control s a s.frames.tail (Function.update s.status L (some (.suspended w)))
  | finish (L : ℕ) (callable : Bool) (hhead : s.frames.head? = some (.thread L))
    (hne : L ≠ mainThread) :
    Control s a s.frames.tail (Function.update s.status L (some (.finished callable)))
  | pop (f : Frame) (hhead : s.frames.head? = some f) (hf : ∀ L, f ≠ .thread L) :
    Control s a s.frames.tail s.status
  | loop (hloop : .loop ∉ s.frames) : Control s a (.loop :: s.frames) s.status
  | call (h : ℕ) (types : List HandleType) (hloop : s.inLoop) (harm : s.Armed h types) :
    Control s a (.call (s.data h) :: s.frames) s.status
  | create (L : ℕ) (hnone : s.status L = none) :
    Control s a s.frames (Function.update s.status L (some .fresh))

theorem Control.of_eq {s t : World} {a : Action} {fr : List Frame} {st : ℕ → Option Status}
    (h : s.Control a fr st) (hf : t.frames = fr) (hs : t.status = st) :
    s.Control a t.frames t.status := by
  rw [hf, hs]
  exact h

theorem inLoop_cons {s : World} (h : s.inLoop) : ∃ rest, s.frames = .loop :: rest := by
  unfold inLoop at h
  cases hf : s.frames with
  | nil => simp [hf] at h
  | cons f rest =>
    rw [hf] at h
    obtain rfl : f = .loop := by simpa using h
    exact ⟨rest, rfl⟩

theorem head_mem {s : World} {f : Frame} (h : s.frames.head? = some f) : f ∈ s.frames :=
  List.mem_of_mem_head? h

/-- A coroutine that exists gets a new status. -/
theorem setStatus_status {s : World} {L : ℕ} {st : Status} (h : s.status L = some st)
    (st' : Status) : (s.setStatus L st').status = Function.update s.status L (some st') := by
  funext T
  rw [status_setStatus, Function.update_apply, h]
  rfl

namespace StackOk
variable {s : World} (hs : s.StackOk)
include hs

/-- While libuv may call back, no callback is on the stack. -/
theorem call_notMem (hloop : s.inLoop) (L : ℕ) : .call L ∉ s.frames := by
  obtain ⟨rest, hrest⟩ := inLoop_cons hloop
  have hover := hs.order
  rw [hrest, List.pairwise_cons] at hover
  rw [hrest]
  intro hmem
  rcases List.mem_cons.mp hmem with he | hmem
  · cases he
  · exact (hover.1 _ hmem).2 L rfl

end StackOk

/-! The functions that move the stack, called in a state `u` that differs from `s` elsewhere. -/

section
variable {s u : World} {a : Action} (hf : u.frames = s.frames) (ht : u.status = s.status)
include hf ht

theorem control_luaYield (hs : s.StackOk) (boundary : Bool) {w : Wait}
    (hw : boundary = false → s.WaitsFor a w) :
    s.Control a (u.luaYield boundary w).frames (u.luaYield boundary w).status := by
  rcases luaYield_cases (s := u) boundary w with hr | ⟨L, hhead, hne, hb, hr⟩
  · rw [hr]
    exact Control.stay.of_eq hf ht
  · rw [hf] at hhead
    have hrun : u.status L = some .running := by
      rw [ht]
      exact hs.running L (head_mem hhead)
    rw [hr]
    refine (Control.suspend L w hhead hne (hw hb)).of_eq (congrArg List.tail hf) ?_
    rw [← ht]
    exact setStatus_status hrun _

theorem control_couvPrimRead (hs : s.StackOk) (boundary : Bool) (L : ℕ) {m : InputMode} {h : ℕ}
    (hw : ngxQueueEmpty u.input.links (.root h) = true → boundary = false →
      s.WaitsFor a (.input m h)) :
    s.Control a (u.couvPrimRead boundary L m h).frames
      (u.couvPrimRead boundary L m h).status := by
  rcases couvPrimRead_cases (s := u) boundary L m h with ⟨he, hr⟩ | ⟨n, node, -, -, -, hr⟩ | hr
  · rw [hr]
    exact control_luaYield hf ht hs boundary (hw he)
  · rw [hr]
    exact Control.stay.of_eq hf ht
  · rw [hr]
    exact Control.stay.of_eq hf ht

theorem control_couvResume {L : ℕ} (hwake : s.Wakes a L) (hcall : .call L ∉ s.frames)
    (src : Source) (args : List Value) :
    s.Control a (u.couvResume L src args).frames (u.couvResume L src args).status := by
  -- the coroutine starts if it is new, has yielded or waits
  have hstart : s.Resumable L → s.Control a (u.start L).frames (u.start L).status := by
    intro hres
    obtain ⟨st, hst⟩ : ∃ st, s.status L = some st := by
      rcases hres with h | h | ⟨w, h⟩ <;> exact ⟨_, h⟩
    refine (Control.start L hres hwake hcall).of_eq (congrArg _ hf) ?_
    rw [← ht]
    exact setStatus_status (ht ▸ hst) _
  rcases couvResume_cases (s := u) L src args with
    hr | ⟨hst, hr⟩ | ⟨w, hst, -, hr⟩ | ⟨m, h, n, node, hst, -, -, -, hr⟩
  · rw [hr]
    exact Control.stay.of_eq hf ht
  · rw [hr]
    rw [ht] at hst
    apply hstart
    rcases hst with hst | hst | ⟨m, h, hst⟩
    · exact .inl hst
    · exact .inr (.inl hst)
    · exact .inr (.inr ⟨_, hst⟩)
  · rw [hr]
    exact (hstart (.inr (.inr ⟨w, ht ▸ hst⟩))).of_eq rfl rfl
  · rw [hr]
    exact (hstart (.inr (.inr ⟨_, ht ▸ hst⟩))).of_eq rfl rfl

end

section
variable {s : World} (hs : s.StackOk)
include hs

theorem control_execLua {L : ℕ} (hL : ∀ T ∈ s.current, T = L) {a : LuaAct}
    (hg : s.guardLua a) :
    s.Control (.lua a) (s.execLua L a).frames (s.execLua L a).status := by
  cases a with
  | create =>
    have hnone : s.status s.threads.next = none := by
      unfold status
      rw [s.threads.fresh _ le_rfl]
      rfl
    refine (Control.create _ hnone).of_eq rfl ?_
    funext T
    simp only [status, execLua, Store.alloc_get, Function.update_apply]
    split <;> rfl
  | resume T args =>
    simp only [execLua]
    split
    · exact control_couvResume rfl rfl (.inl ⟨args, rfl⟩) hg.2.2.2 .lua args
    · exact control_couvResume rfl rfl (.inl ⟨args, rfl⟩) hg.2.2.2 .lua args
    · exact .stay
  | yield boundary => exact control_luaYield rfl rfl hs boundary (fun hb => by rw [hb]; rfl)
  | finish callable =>
    obtain ⟨T, hT, hhead, hne⟩ := hg
    obtain rfl := hL T hT
    exact (Control.finish T callable hhead hne).of_eq rfl
      (setStatus_status (hs.running T (head_mem hhead)) _)
  | callReturn =>
    obtain ⟨T, -, hhead⟩ := hg
    exact (Control.pop _ hhead (fun _ => Frame.noConfusion)).of_eq rfl rfl
  | uvRun => exact (Control.loop hg.2).of_eq rfl rfl
  | uvRunReturn => exact (Control.pop _ hg (fun _ => Frame.noConfusion)).of_eq rfl rfl

theorem control_execCall (boundary : Bool) (L : ℕ) {c : Call} (hg : s.guardCall c) :
    s.Control (.call boundary c) (s.execCall boundary L c).frames
      (s.execCall boundary L c).status := by
  rcases (execCall_spec boundary L hg).cases with
    ⟨m, h, rfl, hr⟩ | ⟨h, rfl, hr⟩ | hr | ⟨req, hr⟩ | ⟨t, req, ha, hr⟩
  · rw [hr]
    exact control_couvPrimRead rfl rfl hs boundary L (fun he hb => ⟨by rw [hb], he⟩)
  · rw [hr]
    simp only [couvClose]
    split
    · exact Control.stay.of_eq rfl rfl
    · refine control_luaYield ?_ ?_ hs boundary
        (fun hb => ⟨rfl, _, by rw [hb], fun _ _ => Call.noConfusion⟩) <;> rfl
  · rw [hr]
    exact .stay
  · rw [hr]
    exact Control.stay.of_eq rfl rfl
  · have hread : ∀ m h, c ≠ .read m h := ha.read
    rw [hr]
    rcases ha.state with ⟨rfl, -⟩ | ⟨rfl, -⟩
    · refine control_luaYield ?_ ?_ hs boundary (fun hb => ⟨rfl, _, by rw [hb], hread⟩) <;> rfl
    · refine control_luaYield ?_ ?_ hs boundary (fun hb => ⟨rfl, _, by rw [hb], hread⟩) <;> rfl

theorem control_complete (hloop : s.inLoop) (r : ℕ) (o : Outcome) :
    s.Control (.event (.complete r o)) (s.complete r o).frames (s.complete r o).status := by
  cases hr : s.reqs.get r with
  | none => simpa only [complete, hr] using Control.stay
  | some q =>
    rcases complete_cases hr o with ⟨-, he⟩ | ⟨hk, he⟩ | ⟨hk, hk', t, ht, he⟩
    · rw [he]
      exact Control.stay.of_eq rfl rfl
    · rw [he]
      obtain ⟨reg, -, ⟨-, he⟩ | ⟨hy, he⟩⟩ := closeCb_cases (s := s) (q.handle.getD 0) r
      · rw [he]
        exact Control.stay.of_eq rfl rfl
      · have htarget : s.target q = s.data (q.handle.getD 0) := by
          unfold target
          rw [hk]
          rfl
        -- close_cb resumes only a coroutine that has yielded
        have hwake : s.Wakes (.event (.complete r o)) (s.data (q.handle.getD 0)) := by
          refine .inr ⟨_, rfl, ?_⟩
          rw [← htarget]
          exact resumed_complete hr (by rw [hk]; exact ReqKind.noConfusion)
            (fun _ => htarget ▸ hy) o
        rw [he]
        refine control_couvResume ?_ ?_ hwake (hs.call_notMem hloop _) _ _ <;> rfl
    · have hwake : s.Wakes (.event (.complete r o)) (s.target q) :=
        .inr ⟨_, rfl, resumed_complete hr hk (fun h => absurd h hk') o⟩
      rw [he]
      rcases ht with rfl | rfl
      · refine control_couvResume ?_ ?_ hwake (hs.call_notMem hloop _) _ _ <;> rfl
      · refine control_couvResume ?_ ?_ hwake (hs.call_notMem hloop _) _ _ <;> rfl

theorem control_execEvent (hloop : s.inLoop) {e : Event} (hg : s.guardEvent e) :
    s.Control (.event e) (s.execEvent e).frames (s.execEvent e).status := by
  cases hn : e.node with
  | some node =>
    obtain ⟨rd, he, -⟩ := inputEvent hg hn
    have hfr : ((s.takeRead rd).enqueue node).frames = s.frames := by cases rd <;> rfl
    have hst := takeRead_enqueue_status (s := s) rd node
    rw [he]
    simp only [inputCb, takeRead_enqueue_yielded]
    split
    · next hyes =>
      have hwake : s.Wakes (.event e) (s.data node.handle) :=
        .inr ⟨e, rfl, by rw [resumed_node hn, if_pos hyes]⟩
      exact control_couvResume hfr hst hwake (hs.call_notMem hloop _) _ _
    · exact Control.stay.of_eq hfr hst
  | none =>
    cases e with
    | readCb | read2Cb | udpRecvCb => cases hn
    | alloc h n env =>
      exact Control.stay.of_eq
        (couvBufAllocCb_proj (f := frames) (fun _ _ => rfl) (fun _ _ => rfl) s h n env)
        (couvBufAllocCb_proj (f := status) (fun _ _ => rfl) (fun _ _ => rfl) s h n env)
    | complete r o => exact control_complete hs hloop r o
    | timerCb h => exact (Control.call h _ hloop hg).of_eq rfl rfl
    | exitCb h => exact (Control.call h _ hloop hg).of_eq rfl rfl
    | connectionCb h => exact (Control.call h _ hloop hg).of_eq rfl rfl

/-- One inversion for the stack and the statuses after any action. -/
theorem exec_control {a : Action} (hg : s.guard a) :
    s.Control a (s.exec a).frames (s.exec a).status := by
  cases a with
  | lua a =>
    refine control_execLua hs ?_ hg
    intro T hT
    rw [Option.mem_def.mp hT]
    rfl
  | handle m =>
    obtain ⟨hs', reg, input, he, -⟩ := (execHandle_spec (L := s.current.getD 0) hg.2).cases
    simp only [exec, he]
    exact Control.stay.of_eq rfl rfl
  | call boundary c => exact control_execCall hs boundary _ hg.2
  | heap a =>
    exact Control.stay.of_eq
      (execHeap_proj (f := frames) (fun _ _ => rfl) (fun _ _ => rfl) (fun _ _ => rfl) s a)
      (execHeap_proj (f := status) (fun _ _ => rfl) (fun _ _ => rfl) (fun _ _ => rfl) s a)
  | event e => exact control_execEvent hs hg.1 hg.2
  | gc g =>
    cases g with
    -- a thread that is collected keeps its status
    | thread T =>
      refine Control.stay.of_eq rfl ?_
      funext L
      simp only [status, exec, execGc, collectThread, Store.modify_get]
      split
      · next hL =>
        rw [hL]
        cases s.threads.get T <;> rfl
      · rfl
    | handle h => exact Control.stay.of_eq rfl rfl
    | buffer b =>
      exact Control.stay.of_eq (collectBuffer_proj (f := frames) (fun _ _ => rfl) s b)
        (collectBuffer_proj (f := status) (fun _ _ => rfl) s b)
    | string sid => exact Control.stay.of_eq rfl rfl

/-- Every step keeps the order of the stack. -/
theorem StackOk.control {a : Action} {fr : List Frame} {st : ℕ → Option Status}
    (h : s.Control a fr st) :
    Couv.StackOk fr st := by
  have htail : ∀ f, s.frames.head? = some f → s.frames = f :: s.frames.tail := fun f hf =>
    List.eq_cons_of_mem_head? hf
  -- what leaves the top of the stack is not on the rest of it
  have hleave : ∀ L, s.frames.head? = some (.thread L) → ∀ st : Status,
      Couv.StackOk s.frames.tail (Function.update s.status L (some st)) := by
    intro L hL st
    have hover := hs.order
    rw [htail _ hL, List.pairwise_cons] at hover
    refine ⟨hover.2, ?_, ?_⟩
    · intro T hT
      have hmem := hs.calls T (List.mem_of_mem_tail hT)
      rw [htail _ hL] at hmem
      exact (List.mem_cons.mp hmem).resolve_left Frame.noConfusion
    · intro T hT
      have hne : T ≠ L := by
        rintro rfl
        exact (hover.1 _ hT).1 rfl
      rw [Function.update_of_ne hne]
      exact hs.running T (List.mem_of_mem_tail hT)
  -- one case for each way a step may move the stack
  cases h with
  | stay => exact hs
  | start L hres hwake hcall =>
    have hthread : .thread L ∉ s.frames := by
      intro hmem
      have hrun := hs.running L hmem
      rcases hres with h | h | ⟨w, h⟩ <;> simp [hrun] at h
    refine ⟨List.pairwise_cons.mpr ⟨?_, hs.order⟩, ?_, ?_⟩
    · intro g hg
      exact ⟨fun he => hthread (he ▸ hg), fun he => hcall (he ▸ hg)⟩
    · intro T hT
      exact List.mem_cons_of_mem _ (hs.calls T ((List.mem_cons.mp hT).resolve_left
        Frame.noConfusion))
    · intro T hT
      rw [Function.update_apply]
      split
      · rfl
      · next hne =>
        exact hs.running T ((List.mem_cons.mp hT).resolve_left (fun he => hne (by simpa using he)))
  | suspend L w hhead hne => exact hleave L hhead _
  | finish L callable hhead hne => exact hleave L hhead _
  | pop f hhead hf =>
    have hover := hs.order
    rw [htail f hhead, List.pairwise_cons] at hover
    refine ⟨hover.2, ?_, fun T hT => hs.running T (List.mem_of_mem_tail hT)⟩
    intro T hT
    have hmem := hs.calls T (List.mem_of_mem_tail hT)
    rw [htail f hhead] at hmem
    rcases List.mem_cons.mp hmem with rfl | hmem
    · exact absurd rfl ((hover.1 _ hT).2 T)
    · exact hmem
  | loop hloop =>
    refine ⟨List.pairwise_cons.mpr ⟨?_, hs.order⟩, fun _ _ => List.mem_cons_self, ?_⟩
    · intro g hg
      refine ⟨fun he => hloop (he ▸ hg), fun L he => hloop ?_⟩
      exact hs.calls L (he ▸ hg)
    · exact fun T hT => hs.running T ((List.mem_cons.mp hT).resolve_left Frame.noConfusion)
  | call h types hloop harm =>
    refine ⟨List.pairwise_cons.mpr ⟨fun _ _ => trivial, hs.order⟩, ?_, ?_⟩
    · intro T _
      exact List.mem_cons_of_mem _ (head_mem hloop)
    · exact fun T hT => hs.running T ((List.mem_cons.mp hT).resolve_left Frame.noConfusion)
  | create L hnone =>
    refine ⟨hs.order, hs.calls, ?_⟩
    intro T hT
    have hrun := hs.running T hT
    rw [Function.update_of_ne, hrun]
    rintro rfl
    rw [hnone] at hrun
    cases hrun

theorem StackOk.exec {a : Action} (hg : s.guard a) : (s.exec a).StackOk :=
  hs.control (exec_control hs hg)

/-- Only the coroutine on top of the stack can come to wait. -/
theorem exec_suspended {a : Action} (hg : s.guard a) {L : ℕ} {w : Wait}
    (h : (s.exec a).status L = some (.suspended w)) :
    s.status L = some (.suspended w) ∨
      s.frames.head? = some (.thread L) ∧ L ≠ mainThread ∧ s.WaitsFor a w := by
  have hcontrol := exec_control hs hg
  generalize (s.exec a).frames = fr at hcontrol
  generalize (s.exec a).status = st at hcontrol h
  cases hcontrol with
  | stay | pop | loop | call => exact .inl h
  | start T | finish T | create T =>
    rw [Function.update_apply] at h
    split at h
    · cases h
    · exact .inl h
  | suspend T w' hhead hne hw =>
    rw [Function.update_apply] at h
    split at h
    · next he =>
      obtain rfl := he
      obtain rfl := Status.suspended.inj (Option.some.inj h)
      exact .inr ⟨hhead, hne, hw⟩
    · exact .inl h

/-- A coroutine waits until it is resumed. -/
theorem exec_woken {a : Action} (hg : s.guard a) {L : ℕ} {w : Wait}
    (h : s.status L = some (.suspended w)) :
    (s.exec a).status L = some (.suspended w) ∨ s.Wakes a L := by
  -- what leaves the stack was running
  have hne : ∀ T, s.frames.head? = some (.thread T) → L ≠ T := by
    rintro T hT rfl
    have hrun := hs.running L (head_mem hT)
    rw [h] at hrun
    cases hrun
  have hcontrol := exec_control hs hg
  generalize (s.exec a).frames = fr at hcontrol
  generalize (s.exec a).status = st at hcontrol ⊢
  cases hcontrol with
  | stay | pop | loop | call => exact .inl h
  | start T hres hwake =>
    by_cases hT : L = T
    · exact .inr (hT ▸ hwake)
    · exact .inl ((Function.update_of_ne hT _ _).trans h)
  | suspend T w' hhead | finish T callable hhead =>
    exact .inl ((Function.update_of_ne (hne T hhead) _ _).trans h)
  | create T hnone =>
    have hT : L ≠ T := by
      rintro rfl
      rw [h] at hnone
      cases hnone
    exact .inl ((Function.update_of_ne hT _ _).trans h)

theorem exec_yielded {a : Action} (hg : s.guard a) {L : ℕ} (h : (s.exec a).yielded L = true) :
    s.yielded L = true ∨ s.frames.head? = some (.thread L) := by
  obtain ⟨w, hw⟩ := (yielded_iff _).mp h
  rcases exec_suspended hs hg hw with hold | ⟨hhead, -⟩
  · exact .inl ((yielded_iff s).mpr ⟨w, hold⟩)
  · exact .inr hhead

/-- A callback after the step was on the stack before, or has just been called. -/
theorem exec_call_mem {a : Action} (hg : s.guard a) {L : ℕ} (h : .call L ∈ (s.exec a).frames) :
    .call L ∈ s.frames ∨ (s.exec a).status = s.status ∧ ∃ k types, s.Armed k types ∧
      L = s.data k := by
  have hcontrol := exec_control hs hg
  generalize (s.exec a).frames = fr at hcontrol h
  generalize (s.exec a).status = st at hcontrol
  cases hcontrol with
  | stay | create => exact .inl h
  | suspend | finish | pop => exact .inl (List.mem_of_mem_tail h)
  | start | loop => exact .inl ((List.mem_cons.mp h).resolve_left Frame.noConfusion)
  | call k types hloop harm =>
    rcases List.mem_cons.mp h with he | h
    · exact .inr ⟨rfl, k, types, harm, Frame.call.inj he⟩
    · exact .inl h

end

end World
end Couv
