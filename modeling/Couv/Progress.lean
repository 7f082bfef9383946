import Couv.Completion

/-! No coroutine waits forever: what the next callbacks do for those that wait. -/
namespace Couv

/-- The step is a callback of the request `r`. -/
def Action.completes (r : ℕ) : Action → Bool
  | .event (.complete r' _) => r' = r
  | _ => false

namespace World

/-- The number of callbacks that a request has: a sleep closes its timer in the first one. -/
def callbacksLeft (s : World) (r : ℕ) : ℕ :=
  if (s.reqs.get r).any (fun q => q.kind = .sleep) then 2 else 1

section
variable {s : World} {a : Action}

theorem callbacksLeft_pos (r : ℕ) : 0 < s.callbacksLeft r := by
  unfold callbacksLeft
  split <;> omega

theorem callbacksLeft_of_get {r : ℕ} {q : Req} (hq : s.reqs.get r = some q) :
    s.callbacksLeft r = if q.kind = .sleep then 2 else 1 := by
  simp only [callbacksLeft, hq, Option.any_some, decide_eq_true_eq]

/-- A request that stays pending has a callback less for each that has run. -/
theorem callbacksLeft_exec (hs : s.StackOk) (hg : s.guard a) {r : ℕ} {q q' : Req}
    (hq : s.reqs.get r = some q) (hq' : (s.exec a).reqs.get r = some q') :
    (s.exec a).callbacksLeft r + (a.completes r).toNat ≤ s.callbacksLeft r := by
  rw [callbacksLeft_of_get hq, callbacksLeft_of_get hq']
  by_cases hc : ∃ o, a = .event (.complete r o)
  · obtain ⟨o, rfl⟩ := hc
    rcases complete_reqs hq o with ⟨hk, he⟩ | ⟨-, he⟩
    · -- sleep_cb, the first callback of two
      have hclose : (s.exec (.event (.complete r o))).reqs.get r =
          some { q with kind := .sleepClose } := by
        rw [show (s.exec (.event (.complete r o))).reqs = _ from he]
        exact s.reqs.modify_get_self _ hq
      obtain rfl := Option.some.inj (hclose.symm.trans hq')
      rw [hk]
      exact Nat.add_le_add_left (Bool.toNat_le _) 1
    · rw [show (s.exec (.event (.complete r o))).reqs = _ from he, Store.free_get_self] at hq'
      cases hq'
  -- any other step leaves the request pending, and its kind may only become that of the close
  · have hcompletes : a.completes r = false := by
      unfold Action.completes
      split
      · next r' o => exact decide_eq_false (fun he => hc ⟨o, he ▸ rfl⟩)
      · rfl
    have hkind : q'.kind = .sleep → q.kind = .sleep := by
      rcases req_after hs hg hq with ⟨q'', hq'', rfl | ⟨-, rfl⟩⟩ | ⟨-, o, rfl⟩
      · rw [Option.some.inj (hq''.symm.trans hq')]
        exact id
      · rw [← Option.some.inj (hq''.symm.trans hq')]
        exact ReqKind.noConfusion
      · exact absurd ⟨o, rfl⟩ hc
    rw [hcompletes, Bool.toNat_false]
    split
    · next hk => rw [if_pos (hkind hk)]
    · split <;> omega

end
end World

namespace CompletionOk
variable {s : World} (hs : CompletionOk s)
include hs

/-- The request that a coroutine waits for is the only one of its handle. -/
theorem alone {T r r' h : ℕ} {q q' : Req} (hst : s.status T = some (.suspended (.req r)))
    (hq : s.reqs.get r = some q) (hq' : s.reqs.get r' = some q') (hh : q.handle = some h)
    (hh' : q'.handle = some h) : r' = r := by
  have htarget {k : ℕ} {p : Req} (hp : s.reqs.get k = some p) (hph : p.handle = some h) :
      s.target p = s.data h := by
    have hshape := hs.served.wait.life.shape k p hp
    unfold World.target
    rw [hshape, hph]
    rfl
  -- the coroutine is `handle->data`
  obtain ⟨p, hp, hpT⟩ := hs.served.wait.req T r hst
  obtain rfl := Option.some.inj (hq.symm.trans hp)
  have hdata : s.data h = T := (htarget hq hh).symm.trans hpT
  rcases hs.served.pending r' q' hq' with hst' | ⟨-, -, hmain⟩
  · obtain ⟨p', hp', hpT'⟩ := hs.served.wait.req _ r' hst'
    obtain rfl := Option.some.inj (hq'.symm.trans hp')
    have hcaller : q'.caller = T := hpT'.symm.trans ((htarget hq' hh').trans hdata)
    rw [hcaller, hst] at hst'
    cases hst'
    rfl
  · rw [← hdata, ← htarget hq' hh', hmain] at hst
    exact absurd hst (hs.served.main _)

/-- libuv can always run the callback of a request that a coroutine waits for. -/
theorem completable {T r : ℕ} (hst : s.status T = some (.suspended (.req r))) :
    s.Completable r := by
  obtain ⟨q, hq, -⟩ := hs.served.wait.req T r hst
  refine ⟨q, hq, ?_⟩
  intro hk
  have hshape := hs.served.wait.life.shape r q hq
  rw [hk] at hshape
  obtain ⟨h, hh⟩ := Option.isSome_iff_exists.mp hshape.symm
  refine (Store.all_iff _).mpr ?_
  intro r' q' hq' hhandle
  exact hs.alone hst hq hq' hh (hhandle.trans hh)

end CompletionOk

/-- A logged return stays in the log. -/
theorem returns_kept {s : World} {as : List Action} (he : couv.Enabled s as) {ret : Return}
    (hret : ret ∈ s.returns) : ret ∈ (couv.run s as).returns := by
  refine Machine.run_invariant (I := fun u : World => ret ∈ u.returns) ?_ hret he
  intro u a hu hg
  rcases World.exec_returns hg with hr | ⟨ret', hr, -⟩
  · exact hr ▸ hu
  · exact hr ▸ List.mem_cons_of_mem _ hu

/-- In every run in which handles are used by their creators and no coroutine leaves a call
early: a coroutine that waits for a request waits on until as many callbacks of this request have
run as were left, no other request of the handle is pending, and libuv can run the next callback;
then the last callback gives it the result. -/
theorem request_wait_bounded {as bs : List Action} (h : couv.Along OwnStep .init (as ++ bs))
    {T r : ℕ} (hst : (couv.run .init as).status T = some (.suspended (.req r))) :
    let s := couv.run .init as
    let t := couv.run .init (as ++ bs)
    (t.status T = some (.suspended (.req r)) ∧
      couv.ticks (fun _ a => a.completes r) s bs < s.callbacksLeft r ∧
      (∀ q ∈ t.reqs.get r, ∀ k ∈ q.handle, t.reqs.All (fun r' q' => q'.handle = some k → r' = r)) ∧
      (t.inLoop → ∀ o, OwnStep t (.event (.complete r o)))) ∨
    ∃ pre o post q, bs = pre ++ .event (.complete r o) :: post ∧
      (couv.run s pre).reqs.get r = some q ∧ q.caller = T ∧
      ⟨T, .req r, .completion r, q.kind.args o⟩ ∈ t.returns := by
  obtain ⟨has, hbs⟩ := Machine.along_append.mp h
  have hs : CompletionOk (couv.run .init as) :=
    Machine.run_invariant (fun _ _ hs hp => hs.exec hp) completionOk_init has
  simp only [Machine.run_append]
  generalize couv.run .init as = s at hst hbs hs
  rcases Machine.along_or_step (M := couv)
      (W := fun u : World => u.status T = some (.suspended (.req r))) hst bs with
    hall | ⟨pre, a, post, rfl, hpre, hend, hleave⟩
  · left
    -- it waits in every state of the rest
    let I (u : World) : Prop := CompletionOk u ∧ u.status T = some (.suspended (.req r))
    have hwaits : ∀ u a, I u → OwnStep u a ∧ (couv.exec u a).status T = some (.suspended (.req r)) →
        I (couv.exec u a) ∧
          (couv.exec u a).callbacksLeft r + (a.completes r).toNat ≤ u.callbacksLeft r := by
      rintro u a ⟨hu, hT⟩ ⟨ha, hT'⟩
      have hu' : CompletionOk (couv.exec u a) := hu.exec ha
      obtain ⟨q, hq, -⟩ := hu.served.wait.req T r hT
      obtain ⟨q', hq', -⟩ := hu'.served.wait.req T r hT'
      exact ⟨⟨hu', hT'⟩, World.callbacksLeft_exec hu.awake.stack ha.1.1 hq hq'⟩
    have hsteps := Machine.along_and.mpr ⟨hbs, hall⟩
    have hbound : (couv.run s bs).callbacksLeft r +
        couv.ticks (fun _ a => a.completes r) s bs ≤ s.callbacksLeft r :=
      Machine.rank_add_ticks_le (I := I) (·.callbacksLeft r) _ hwaits ⟨hs, hst⟩ hsteps
    obtain ⟨hend, hT⟩ : I (couv.run s bs) :=
      Machine.run_invariant (fun u a hu ha => (hwaits u a hu ha).1) ⟨hs, hst⟩ hsteps
    have hpos := (couv.run s bs).callbacksLeft_pos r
    refine ⟨hT, by omega, ?_, ?_⟩
    · intro q hq k hk
      exact (Store.all_iff _).mpr (fun r' q' hq' hk' => hend.alone hT hq hq' hk hk')
    · intro hloop o
      exact ⟨⟨⟨hloop, hend.completable hT⟩, fun _ h => (by cases h)⟩, fun _ h => (by cases h)⟩
  · right
    obtain ⟨hown, hstep, hpost⟩ := Machine.along_append.mp hbs
    have hu : CompletionOk (couv.run s pre) :=
      Machine.run_invariant (fun _ _ hs hp => hs.exec hp) hs hown
    rcases hu.served.woken_served hstep.1.1 hstep.2 hend Wait.noConfusion with
      hsame | ⟨e, rfl, o, q, rfl, hq, hk⟩
    · exact absurd hsame hleave
    obtain ⟨q', hq', htarget⟩ := hu.served.wait.req T r hend
    obtain rfl := Option.some.inj (hq.symm.trans hq')
    have hresumes := World.complete_resumes hq hk (htarget.symm ▸ hend) o
    rw [htarget] at hresumes
    refine ⟨pre, o, post, q, rfl, hq, hu.caller_of_wait hq hend, ?_⟩
    rw [Machine.run_append, Machine.run_cons]
    have henabled : couv.Enabled (couv.exec (couv.run s pre) (.event (.complete r o))) post :=
      (Machine.along_and.mp (Machine.along_and.mp hpost).1).1
    refine returns_kept henabled ?_
    have hlog : (couv.exec (couv.run s pre) (.event (.complete r o))).returns = _ := hresumes.2
    rw [hlog]
    exact List.mem_cons_self

/-- A coroutine sleeps, and its timer has run. -/
def sleepRun : List Action := [.lua .create, .lua (.resume 1 []), .call false (.sleep true)]

def timerRun : List Action := [.lua .uvRun, .event (.complete 0 .ok)]

theorem request_wait_bounded_sleep :
    OwnStep (couv.run .init (sleepRun ++ timerRun)) (.event (.complete 0 .ok)) := by
  have h : couv.Along OwnStep .init (sleepRun ++ timerRun) :=
    Machine.along_and.mpr ⟨Machine.along_and.mpr ⟨show couv.Enabled _ _ by decide, by decide⟩,
      by decide⟩
  rcases request_wait_bounded h (T := 1) (r := 0) rfl with
    ⟨-, -, -, hnext⟩ | ⟨pre, o, post, q, -, -, -, hret⟩
  · exact hnext rfl .ok
  · cases hret

section
variable {s : World}

/-- Resuming a coroutine that waits for a queue whose head is the node. -/
theorem World.couvResume_delivers {L h n : ℕ} {m : InputMode} {ns : List ℕ} {node : InputNode}
    (hst : s.status L = some (.suspended (.input m h)))
    (hq : IsQueue s.input.links h (n :: ns)) (hn : s.input.nodes.get n = some node)
    (src : Source) : s.couvResume L src [] = (s.start L).deliver L m h n node := by
  have hne : ¬ngxQueueEmpty (s.start L).input.links (.root h) = true := by
    intro he
    cases (ngxQueueEmpty_iff hq).mp he
  have hhead : ngxQueueHead (s.start L).input.links (.root h) = .node n := ngxQueueHead_eq hq
  have hget : (s.start L).input.nodes.get n = some node := hn
  unfold couvResume
  rw [hst]
  simp only [List.headD_nil, Value.truthy, Bool.false_eq_true, if_false]
  rw [couvPrimRead, if_neg hne]
  simp only [hhead, hget]

/-- A node for a handle is what `handle->data` reads, if that waits for it. -/
theorem World.InputOk.reads (hs : s.InputOk) {e : Event} {node : InputNode} (hg : s.guardEvent e)
    (hn : e.node = some node) {m : InputMode} {T : ℕ} (hdata : s.data node.handle = T)
    (hst : s.status T = some (.suspended (.input m node.handle)))
    (hempty : s.input.queued node.handle = []) :
    (s.execEvent e).returns = ⟨T, .input m node.handle, .node s.input.nodes.next,
      node.values m s.mem.bufs.next⟩ :: s.returns := by
  obtain ⟨rd, he, -, ⟨x, hx, hl, hr⟩, -⟩ := inputEvent hg hn
  have htype := hs.queue.reading _ x _ hx hr
  have hroot := hs.queue.root _ x hx hl (InputMode.plain_of_mem htype)
  obtain ⟨happend, hqueued, -⟩ := hs.queue.append hx htype hroot
  have hring := happend.ring node.handle hroot
  rw [hqueued, hempty] at hring
  have hinput := takeRead_enqueue_input (s := s) rd node
  have hstatus := takeRead_enqueue_status (s := s) rd node
  have hyield : ((s.takeRead rd).enqueue node).yielded T = true :=
    (yielded_iff _).mpr ⟨_, hstatus ▸ hst⟩
  have hget : ((s.takeRead rd).enqueue node).input.nodes.get s.input.nodes.next = some node := by
    rw [hinput]
    exact s.input.nodes.alloc_get_self node
  rw [he]
  simp only [inputCb]
  rw [hdata, if_pos hyield, couvResume_delivers (hstatus ▸ hst) (hinput ▸ hring) hget]
  cases rd <;> rfl

end

/-- In these runs a coroutine that waits for input of a handle waits on, with nothing queued,
while no input callback runs for the handle; and from the first one that does, it gets the data
of that very callback. -/
theorem next_input_read {as bs : List Action} (h : couv.Along OwnStep .init (as ++ bs))
    {T k : ℕ} {m : InputMode}
    (hst : (couv.run .init as).status T = some (.suspended (.input m k))) :
    let s := couv.run .init as
    let t := couv.run .init (as ++ bs)
    (t.status T = some (.suspended (.input m k)) ∧ t.input.queued k = [] ∧
      ∀ a ∈ bs, ∀ node ∈ a.node, node.handle ≠ k) ∨
    ∃ pre e node post, bs = pre ++ .event e :: post ∧ e.node = some node ∧ node.handle = k ∧
      (∀ a ∈ pre, ∀ node' ∈ a.node, node'.handle ≠ k) ∧
      ⟨T, .input m k, .node (couv.run s pre).input.nodes.next,
        node.values m (couv.run s pre).mem.bufs.next⟩ ∈ t.returns := by
  obtain ⟨has, hbs⟩ := Machine.along_append.mp h
  have hs : CompletionOk (couv.run .init as) :=
    Machine.run_invariant (fun _ _ hs hp => hs.exec hp) completionOk_init has
  simp only [Machine.run_append]
  generalize couv.run .init as = s at hst hbs hs
  -- while it waits, no node comes
  let I (u : World) : Prop := CompletionOk u ∧ u.status T = some (.suspended (.input m k))
  let P (u : World) (a : Action) : Prop :=
    OwnStep u a ∧ (couv.exec u a).status T = some (.suspended (.input m k))
  have hkeep : ∀ u a, I u → P u a → I (couv.exec u a) := fun u a hu ha => ⟨hu.1.exec ha.1, ha.2⟩
  have hnone : ∀ u a, I u → P u a → ∀ node ∈ a.node, node.handle ≠ k := by
    rintro u a ⟨hu, hT⟩ ⟨ha, hT'⟩ node hn rfl
    cases a with
    | event e =>
      obtain ⟨hdata, hempty⟩ := hu.served.wait.read T m _ hT
      have hrun := hu.awake.input.wakes ha.1.1.2 hn hdata hT hempty
      rw [show (couv.exec u (.event e)).status T = some .running from hrun] at hT'
      cases hT'
    | lua | handle | call | heap | gc => cases hn
  rcases Machine.along_or_step (M := couv)
      (W := fun u : World => u.status T = some (.suspended (.input m k))) hst bs with
    hall | ⟨pre, a, post, rfl, hpre, hend, hleave⟩
  · left
    have hsteps : couv.Along P s bs := Machine.along_and.mpr ⟨hbs, hall⟩
    obtain ⟨hend, hT⟩ : I (couv.run s bs) := Machine.run_invariant hkeep ⟨hs, hst⟩ hsteps
    exact ⟨hT, (hend.served.wait.read T m k hT).2,
      Machine.along_forall.mp (Machine.along_of_invariant hkeep hnone ⟨hs, hst⟩ hsteps)⟩
  · right
    obtain ⟨hown, hstep, hpost⟩ := Machine.along_append.mp hbs
    have hu : CompletionOk (couv.run s pre) :=
      Machine.run_invariant (fun _ _ hs hp => hs.exec hp) hs hown
    rcases hu.served.woken_served hstep.1.1 hstep.2 hend Wait.noConfusion with
      hsame | ⟨e, rfl, node, hn, rfl⟩
    · exact absurd hsame hleave
    have hsteps : couv.Along P s pre := Machine.along_and.mpr ⟨hown, hpre⟩
    have hnodes :=
      Machine.along_forall.mp (Machine.along_of_invariant hkeep hnone ⟨hs, hst⟩ hsteps)
    refine ⟨pre, e, node, post, rfl, hn, rfl, hnodes, ?_⟩
    obtain ⟨hdata, hempty⟩ := hu.served.wait.read T m _ hend
    have hlog := hu.awake.input.reads hstep.1.1.2 hn hdata hend hempty
    rw [Machine.run_append, Machine.run_cons]
    refine returns_kept (Machine.along_and.mp (Machine.along_and.mp hpost).1).1 ?_
    rw [show (couv.exec (couv.run s pre) (.event e)).returns = _ from hlog]
    exact List.mem_cons_self

/-- A coroutine reads from its handle, and then a chunk comes. -/
def readRun : List Action := [.lua .create, .lua (.resume 1 []), .handle (.tcpNew true),
  .handle (.readStart .read 0 true), .call false (.read .read 0)]

def chunkRun : List Action := [.lua .uvRun, .event (.alloc 0 2 ⟨true, fun _ => 0, ⟨none, none, 0⟩⟩),
  .event (.readCb 0 1 (some ⟨0, 0, 2⟩) 0 [])]

theorem next_input_read_chunk : ⟨1, .input .read 0, .node 0, [.number 1, .buffer 0]⟩ ∈
    (couv.run .init (readRun ++ chunkRun)).returns := by
  have h : couv.Along OwnStep .init (readRun ++ chunkRun) :=
    Machine.along_and.mpr ⟨Machine.along_and.mpr ⟨show couv.Enabled _ _ by decide, by decide⟩,
      by decide⟩
  rcases next_input_read h (T := 1) (k := 0) (m := .read) rfl with
    ⟨hst, -⟩ | ⟨pre, e, node, post, hbs, hn, -, -, hret⟩
  · cases hst
  · rcases pre with _ | ⟨a, _ | ⟨b, _ | ⟨c, pre⟩⟩⟩
    · cases hbs
    · cases hbs
      cases hn
    · cases hbs
      cases hn
      exact hret
    · have hlength := congrArg List.length hbs
      simp only [chunkRun, List.length_append, List.length_cons, List.length_nil] at hlength
      omega

end Couv
