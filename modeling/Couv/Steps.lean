import Couv.System

/-! Parts of the state that whole groups of actions leave alone, and the spec lemmas of the
composite functions. -/
namespace Couv

namespace Passive
variable {β : Type} {f : World → β} (hf : Passive f) (s : World)
include hf

/-- Control in Lua code touches the coroutines only. -/
theorem execLua (L : ℕ) (a : LuaAct) : f (s.execLua L a) = f s := by
  cases a with
  | create => exact hf.create s
  | resume T args =>
    simp only [World.execLua]
    split
    · exact hf.couvResume s T .lua args
    · exact hf.couvResume s T .lua args
    · rfl
  | yield boundary => exact hf.luaYield s boundary .yield
  | finish callable => exact (hf.pop _).trans (hf.setStatus s L _)
  | callReturn => exact hf.pop s
  | uvRun => exact hf.push s _
  | uvRunReturn => exact hf.pop s

theorem submit (hreqs : ∀ s q, f { s with reqs := q } = f s) (boundary : Bool) (req : Req) :
    f (s.submit boundary req) = f s :=
  (hf.luaYield _ boundary _).trans (hreqs s _)

/-- Queueing a node and waking its coroutine. -/
theorem inputCb (hinput : ∀ s i, f { s with input := i } = f s)
    (hreads : ∀ s r, f { s with reads := r } = f s) (node : InputNode) (rd : Option UvRead) :
    f (s.inputCb node rd) = f s := by
  have htake : f (s.takeRead rd) = f s := by
    cases rd with
    | none => rfl
    | some r => exact hreads s _
  simp only [World.inputCb]
  split
  · rw [hf.couvResume, World.enqueue, hinput, htake]
  · rw [World.enqueue, hinput, htake]

end Passive

/-- A part that lies outside Lua's heap and libuv's reads does not change by a Buffer call. -/
theorem World.runBuf_proj {α β : Type} {f : World → β} (hmem : ∀ s m, f { s with mem := m } = f s)
    (s : World) (x : BufM α) : f (s.runBuf x) = f s := by
  unfold World.runBuf
  split
  · exact hmem s _
  · exact hmem s _

theorem World.execHeap_proj {β : Type} {f : World → β}
    (hmem : ∀ s m, f { s with mem := m } = f s) (hstr : ∀ s x, f { s with strings := x } = f s)
    (htab : ∀ s x, f { s with tables := x } = f s) (s : World) (a : HeapAct) :
    f (s.execHeap a) = f s := by
  cases a with
  | newString str => exact hstr s _
  | newTable items => exact htab s _
  | setTable t items => exact htab s _
  | bufNew env arg => exact runBuf_proj hmem s _
  | bufSlice env self first last => exact runBuf_proj hmem s _
  | bufConcat env items total => exact runBuf_proj hmem s _

theorem World.couvBufAllocCb_proj {β : Type} {f : World → β}
    (hmem : ∀ s m, f { s with mem := m } = f s) (hreads : ∀ s r, f { s with reads := r } = f s)
    (s : World) (h n : ℕ) (env : AllocEnv) : f (s.couvBufAllocCb h n env) = f s := by
  unfold World.couvBufAllocCb
  split
  · next blk m _ => exact (hreads { s with mem := m } _).trans (hmem s _)
  · exact hmem s _

theorem World.collectBuffer_proj {β : Type} {f : World → β}
    (hmem : ∀ s m, f { s with mem := m } = f s) (s : World) (b : ℕ) :
    f (s.collectBuffer b) = f s := by
  unfold World.collectBuffer
  split
  · exact hmem s _
  · exact hmem s _

/-- The handle that a call is made on. -/
def Call.handle : Call → Option ℕ
  | .read _ h | .write h _ _ | .write2 h _ _ | .send h _ _ | .shutdown h _ | .tcpConnect h _
  | .pipeConnect h | .close h => some h
  | .sleep _ | .getaddrinfo _ | .fs _ _ | .fsRead _ _ _ _ _ _ | .fsWrite _ _ _ _ _ _ => none

/-- The calls that hand memory to libuv. -/
def Call.memory : Call → Bool
  | .write _ _ _ | .write2 _ _ _ | .send _ _ _ | .fsRead _ _ _ _ _ _ | .fsWrite _ _ _ _ _ _ => true
  | .read _ _ | .shutdown _ _ | .tcpConnect _ _ | .pipeConnect _ | .close _ | .sleep _
  | .getaddrinfo _ | .fs _ _ => false

/-- The requests whose callback resumes `handle->data`. -/
def ReqKind.onHandle : ReqKind → Bool
  | .write | .write2 | .shutdown | .connect | .send | .close => true
  | .sleep | .sleepClose | .getaddrinfo | .fs _ => false

/-- The node that an event appends. -/
def Event.node : Event → Option InputNode
  | .readCb h nread rd behind junk => some ⟨.read, h, nread, inputBuf rd, behind, junk⟩
  | .read2Cb h nread rd pending junk => some ⟨.read2, h, nread, inputBuf rd, pending, junk⟩
  | .udpRecvCb h nread rd behind junk addr =>
    some ⟨.recv, h, nread, inputBuf rd, behind, World.recvStorage junk addr⟩
  | .alloc _ _ _ | .complete _ _ | .timerCb _ | .exitCb _ | .connectionCb _ => none

def Action.node : Action → Option InputNode
  | .event e => e.node
  | _ => none

namespace World

/-- The handle that a call would wait on: a read that finds its queue empty, and a request that
libuv accepts. -/
def waitsOn (s : World) : Call → Option ℕ
  | .read _ h => if ngxQueueEmpty s.input.links (.root h) then some h else none
  | .write h t ok | .write2 h t ok | .send h t ok =>
    if ok = true ∧ (s.bufOrStrTable t).isSome = true then some h else none
  | .shutdown h ok | .tcpConnect h ok => if ok then some h else none
  | .pipeConnect h | .close h => some h
  | .sleep _ | .getaddrinfo _ | .fs _ _ | .fsRead _ _ _ _ _ _ | .fsWrite _ _ _ _ _ _ => none

/-- The call returns from its checks of the arguments. -/
def checks (s : World) {α : Type} (x : BufM α) : Bool :=
  match x s.mem with
  | .ok _ _ => true
  | .error _ _ => false

/-- A call of `L` that leaves a request for which `L` is to wait. -/
def submits (s : World) (L : ℕ) : Call → Bool
  | .read _ _ => false
  | .write h t ok => (s.waitsOn (.write h t ok)).isSome
  | .write2 h t ok => (s.waitsOn (.write2 h t ok)).isSome
  | .send h t ok => (s.waitsOn (.send h t ok)).isSome
  | .shutdown _ ok | .tcpConnect _ ok => ok
  | .pipeConnect _ => true
  | .close _ => L ≠ mainThread
  | .sleep ok | .getaddrinfo ok | .fs _ ok => ok && L ≠ mainThread
  | .fsRead b fd bufPos length off ok =>
    ok && L ≠ mainThread && s.checks (fsRead fd (.buffer b) bufPos length off)
  | .fsWrite i fd bufPos length off ok =>
    ok && L ≠ mainThread && s.checks (fsWrite fd (s.itemValue i) bufPos length off)

section calls
variable {s : World}

theorem waitsOn_none {c : Call} (h : c.handle = none) : s.waitsOn c = none := by
  cases c with
  | sleep | getaddrinfo | fs | fsRead | fsWrite => rfl
  | read | write | write2 | send | shutdown | tcpConnect | pipeConnect | close => cases h

/-- fs.read or fs.write has computed the range `r` from the item. -/
def FsAccepts (s : World) (i : Item) (r : FsRange) : Prop :=
  ∃ fd bufPos length off m,
    (∃ b, i = .buffer b ∧ fsRead fd (.buffer b) bufPos length off s.mem = .ok r m) ∨
      fsWrite fd (s.itemValue i) bufPos length off s.mem = .ok r m

/-- The memory behind a request: none, that of a table or that of one value. -/
structure Lends (s : World) (c : Call) (req : Req) : Prop where
  cases : (req.arg = .none ∧ req.owners = [] ∧ req.ranges = []) ∨
    (∃ t, req.arg = .table t ∧ s.bufOrStrTable t = some (req.owners, req.ranges)) ∨
    ∃ i r, req.arg = .item i ∧ req.owners = [i] ∧ req.ranges = [fsRangeOf i r] ∧ s.FsAccepts i r
  live : ∀ i ∈ req.owners, s.LiveItem i
  call : req.ranges ≠ [] → c.memory = true

theorem lends_none {c : Call} {kind : ReqKind} {h : Option ℕ} {d L : ℕ} :
    s.Lends c ⟨kind, h, d, L, .none, [], []⟩ :=
  ⟨.inl ⟨rfl, rfl, rfl⟩, fun _ h => (List.not_mem_nil h).elim, fun h => absurd rfl h⟩

/-- The request `req` that a call of `L` submits, `t` being the state up to its thread key. -/
structure Accepts (s : World) (L : ℕ) (c : Call) (t : World) (req : Req) : Prop where
  caller : req.caller = L
  kind : req.kind ≠ .close ∧ req.kind ≠ .sleepClose
  handle : req.handle = c.handle
  onHandle : req.kind.onHandle = c.handle.isSome
  read : ∀ m h, c ≠ .read m h
  waits : s.waitsOn c = c.handle
  submits : s.submits L c = true
  usable : ∀ h, c.handle = some h → ∃ types, s.Has h types true
  state : t = s ∧ c.handle.isSome = true ∨
    t = s.couvRawsetp (.reqThread s.reqs.next) (some (.thread L)) ∧ req.data = L ∧
      L ≠ mainThread ∧ c.handle = none
  memory : s.Lends c req

/-- What a call does: read, close, give up, or submit a request and wait. -/
structure CallSpec (s : World) (boundary : Bool) (L : ℕ) (c : Call) (s' : World) : Prop where
  cases : (∃ m h, c = .read m h ∧ s' = s.couvPrimRead boundary L m h) ∨
    (∃ h, c = .close h ∧ s' = s.couvClose boundary h L) ∨
    s' = s ∨
    (∃ req, s' = (s.couvRawsetp (.reqThread s.reqs.next) (some (.thread L))).skipReq req) ∨
    ∃ t req, s.Accepts L c t req ∧ s' = t.submit boundary req

private theorem callSpec_submit {boundary : Bool} {L : ℕ} {c : Call} {t : World} {req : Req}
    (h : s.Accepts L c t req) : s.CallSpec boundary L c (t.submit boundary req) :=
  ⟨.inr (.inr (.inr (.inr ⟨t, req, h, rfl⟩)))⟩

private theorem callSpec_same {boundary : Bool} {L : ℕ} {c : Call} : s.CallSpec boundary L c s :=
  ⟨.inr (.inr (.inl rfl))⟩

private theorem callSpec_submitBufs {kind : ReqKind} {boundary : Bool} {h L t : ℕ} {ok : Bool}
    {c : Call} {types : List HandleType} (hg : s.Has h types ok) (hread : ∀ m h, c ≠ .read m h)
    (hc : c.handle = some h)
    (hw : ok = true ∧ (s.bufOrStrTable t).isSome = true → s.waitsOn c = some h)
    (hsub : s.submits L c = (s.waitsOn c).isSome) (hlive : s.LiveTable t) (hmem : c.memory = true)
    (hk : kind.onHandle = true) (hne : kind ≠ .close) :
    s.CallSpec boundary L c (s.submitBufs kind boundary h L t ok) := by
  unfold submitBufs
  split
  · exact callSpec_same
  · next items ranges ht =>
    cases ok with
    | false => exact callSpec_same
    | true =>
      apply callSpec_submit
      have hwait := hw ⟨rfl, by rw [ht]; rfl⟩
      refine ⟨rfl, ⟨hne, ?_⟩, hc.symm, by rw [hc]; exact hk, hread, hwait.trans hc.symm,
        by rw [hsub, hwait]; rfl, ?_, .inl ⟨rfl, by rw [hc]; rfl⟩,
        ⟨.inr (.inl ⟨t, rfl, ht⟩), ?_, fun _ => hmem⟩⟩
      · rintro rfl
        cases hk
      · intro h' hh
        obtain rfl := Option.some.inj (hc.symm.trans hh)
        exact ⟨types, hg⟩
      -- the values of the table are alive, and so is what its ranges point to
      · obtain ⟨items', hitems, hall⟩ := hlive
        obtain ⟨items₀, h0, hmap⟩ := Option.bind_eq_some_iff.mp ht
        obtain ⟨rs, -, heq⟩ := Option.map_eq_some_iff.mp hmap
        obtain rfl := Option.some.inj ((Option.mem_def.mp hitems).symm.trans h0)
        obtain ⟨rfl, -⟩ := Prod.mk.inj heq
        exact hall

private theorem callSpec_simple {kind : ReqKind} {boundary : Bool} {h L : ℕ} {ok : Bool}
    {c : Call} {types : List HandleType} (hg : s.Has h types ok) (hread : ∀ m h, c ≠ .read m h)
    (hc : c.handle = some h) (hw : ok = true → s.waitsOn c = some h)
    (hsub : s.submits L c = ok) (hk : kind = .shutdown ∨ kind = .connect) : s.CallSpec boundary L c
      (if ok then s.submit boundary ⟨kind, some h, 0, L, .none, [], []⟩ else s) := by
  have hon : kind.onHandle = true := by rcases hk with rfl | rfl <;> rfl
  cases ok with
  | false => exact callSpec_same
  | true =>
    apply callSpec_submit
    refine ⟨rfl, ?_, hc.symm, by rw [hc]; exact hon, hread, (hw rfl).trans hc.symm, hsub, ?_,
      .inl ⟨rfl, by rw [hc]; rfl⟩, lends_none⟩
    · rcases hk with rfl | rfl <;> exact ⟨ReqKind.noConfusion, ReqKind.noConfusion⟩
    · intro h' hh
      obtain rfl := Option.some.inj (hc.symm.trans hh)
      exact ⟨types, hg⟩

private theorem callRead {c : Call} (hc : c.handle = none) (m : InputMode) (h : ℕ) :
    c ≠ .read m h := by
  rintro rfl
  cases hc

private theorem callSpec_submitAnchored {kind : ReqKind} {boundary : Bool} {L : ℕ} {ok : Bool}
    {c : Call} (hc : c.handle = none) (hsub : s.submits L c = (ok && L ≠ mainThread))
    (hk : kind = .sleep ∨ kind = .getaddrinfo) :
    s.CallSpec boundary L c (s.submitAnchored kind boundary L ok) := by
  unfold submitAnchored
  split
  · exact callSpec_same
  · next hL =>
    cases ok with
    | false => exact ⟨.inr (.inr (.inr (.inl ⟨_, rfl⟩)))⟩
    | true =>
      apply callSpec_submit
      refine ⟨rfl, ?_, hc.symm, ?_, callRead hc, (waitsOn_none hc).trans hc.symm,
        hsub.trans (by simpa using hL), fun h hh => ?_, .inr ⟨rfl, rfl, hL, hc⟩, lends_none⟩
      · rcases hk with rfl | rfl <;> exact ⟨ReqKind.noConfusion, ReqKind.noConfusion⟩
      · rw [hc]
        rcases hk with rfl | rfl <;> rfl
      · rw [hc] at hh
        cases hh

private theorem callSpec_fsAfterAsyncCall {t : FsType} {boundary : Bool} {L : ℕ} {arg : Arg}
    {owners : List Item} {ranges : List Range} {ok : Bool} {c : Call} (hc : c.handle = none)
    (hsub : s.submits L c = (ok && L ≠ mainThread))
    (hlend : s.Lends c ⟨.fs t, none, L, L, arg, owners, ranges⟩) :
    s.CallSpec boundary L c (s.fsAfterAsyncCall t boundary L arg owners ranges ok) := by
  unfold fsAfterAsyncCall
  split
  · exact callSpec_same
  · next hL =>
    apply callSpec_submit
    rw [not_or] at hL
    refine ⟨rfl, ⟨ReqKind.noConfusion, ReqKind.noConfusion⟩, hc.symm, by rw [hc]; rfl,
      callRead hc, (waitsOn_none hc).trans hc.symm, hsub.trans (by simpa using hL.symm),
      fun h hh => ?_, .inr ⟨rfl, rfl, hL.1, hc⟩, hlend⟩
    rw [hc] at hh
    cases hh

/-- One inversion for all calls. -/
theorem execCall_spec (boundary : Bool) (L : ℕ) {c : Call} (hg : s.guardCall c) :
    s.CallSpec boundary L c (s.execCall boundary L c) := by
  -- a call with a handle submits for it, the others anchor their thread
  cases c with
  | read m h => exact ⟨.inl ⟨m, h, rfl, rfl⟩⟩
  | write h t ok =>
    exact callSpec_submitBufs hg.1 (fun _ _ => Call.noConfusion) rfl (fun hw => if_pos hw) rfl
      hg.2 rfl rfl ReqKind.noConfusion
  | write2 h t ok =>
    exact callSpec_submitBufs hg.1 (fun _ _ => Call.noConfusion) rfl (fun hw => if_pos hw) rfl
      hg.2 rfl rfl ReqKind.noConfusion
  | send h t ok =>
    exact callSpec_submitBufs hg.1 (fun _ _ => Call.noConfusion) rfl (fun hw => if_pos hw) rfl
      hg.2 rfl rfl ReqKind.noConfusion
  | shutdown h ok =>
    have hc : (Call.shutdown h ok).handle = some h := rfl
    exact callSpec_simple hg (fun _ _ => Call.noConfusion) hc (fun hw => if_pos hw) rfl (.inl rfl)
  | tcpConnect h ok =>
    have hc : (Call.tcpConnect h ok).handle = some h := rfl
    exact callSpec_simple hg (fun _ _ => Call.noConfusion) hc (fun hw => if_pos hw) rfl (.inr rfl)
  | pipeConnect h =>
    have hc : (Call.pipeConnect h).handle = some h := rfl
    unfold execCall pipeConnect tcpConnect
    exact callSpec_simple hg (fun _ _ => Call.noConfusion) hc (fun _ => rfl) rfl (.inr rfl)
  | close h => exact ⟨.inr (.inl ⟨h, rfl, rfl⟩)⟩
  | sleep ok => exact callSpec_submitAnchored rfl rfl (.inl rfl)
  | getaddrinfo ok => exact callSpec_submitAnchored rfl rfl (.inr rfl)
  | fs t ok => exact callSpec_fsAfterAsyncCall rfl rfl lends_none
  | fsRead b fd bufPos length off ok =>
    simp only [execCall, fsReadCall]
    split
    · exact callSpec_same
    · next r m hr =>
      have hsub : s.submits L (.fsRead b fd bufPos length off ok) = (ok && L ≠ mainThread) := by
        simp only [submits, checks, hr, Bool.and_true]
      refine callSpec_fsAfterAsyncCall rfl hsub
        ⟨.inr (.inr ⟨_, r, rfl, rfl, rfl, ?_⟩), ?_, fun _ => rfl⟩
      · exact ⟨fd, bufPos, length, off, m, .inl ⟨b, rfl, hr⟩⟩
      · intro i hi
        obtain rfl := List.mem_singleton.mp hi
        exact hg
  | fsWrite i fd bufPos length off ok =>
    simp only [execCall, fsWriteCall]
    split
    · exact callSpec_same
    · next r m hr =>
      have hsub : s.submits L (.fsWrite i fd bufPos length off ok) = (ok && L ≠ mainThread) := by
        simp only [submits, checks, hr, Bool.and_true]
      refine callSpec_fsAfterAsyncCall rfl hsub
        ⟨.inr (.inr ⟨_, r, rfl, rfl, rfl, ?_⟩), ?_, fun _ => rfl⟩
      · exact ⟨fd, bufPos, length, off, m, .inr hr⟩
      · intro i' hi
        obtain rfl := List.mem_singleton.mp hi
        exact hg

end calls

/-! Handles. -/

end World

/-- The handle that a method makes able to call back. -/
def HandleAct.arms : HandleAct → Option ℕ
  | .listen h _ true | .timerStart h _ _ .ok | .timerAgain h => some h
  | _ => none

/-- Timers and processes have neither an input queue nor a thread key. -/
def HandleType.plain (t : HandleType) : Bool := t = .timer ∨ t = .process

/-- A timer or a process is made. -/
def HandleAct.makesPlain : HandleAct → Bool
  | .timerNew true | .spawn _ .ok => true
  | _ => false

/-- A handle that a constructor called by `L` has made. -/
structure Handle.Made (x : Handle) (L : ℕ) : Prop where
  creator : x.creator = L
  data : x.linked = true → x.data = L
  idle : x.closing = false ∧ x.closed = false ∧ x.reading = none ∧ x.collected = false
  armed : x.armed = true → x.linked = true ∧ x.type = .process

/-- What the method `a`, called by `L` on the handle `h`, may change of it. -/
structure Handle.Edited (x y : Handle) (L h : ℕ) (a : HandleAct) : Prop where
  type : y.type = x.type
  creator : y.creator = x.creator
  linked : y.linked = x.linked
  closing : y.closing = x.closing
  closed : y.closed = x.closed
  collected : y.collected = x.collected
  data : y.data = x.data ∨ a = .tcpOpen h true ∧ x.type = .tcp ∧ y.data = L
  armed : y.armed = true → x.armed = true ∨ a.arms = some h ∧ x.closing = false
  reading : ∀ m, y.reading = some m → x.reading = some m ∨ x.closing = false ∧ x.type ∈ m.types

namespace World

/-- What a method called by `L` may register. -/
structure Registers (s : World) (L : ℕ) (reg : RegKey → Option RegVal) : Prop where
  req : ∀ r, reg (.reqThread r) = s.registry (.reqThread r)
  thread : ∀ k T, reg k = some (.thread T) →
    s.registry k = some (.thread T) ∨ T = L ∧ k = .thread s.handles.next

/-- What a method does: nothing to any handle, a new handle, or a change of one. -/
structure HandleSpec (s : World) (L : ℕ) (a : HandleAct) (s' : World) : Prop where
  cases : ∃ hs reg input, s' = { s with handles := hs, registry := reg, input := input } ∧
    s.Registers L reg ∧
    ((hs = s.handles ∧ input = s.input) ∨
    (∃ x : Handle, x.Made L ∧ hs = s.handles.alloc x ∧
      ((input = s.input ∧ (x.linked = true → a.makesPlain = true ∧ x.type.plain = true)) ∨
        input = (s.initQueue s.handles.next).input ∧ x.linked = true ∧ x.type.plain = false)) ∨
    ∃ h x f, s.handles.get h = some x ∧ x.linked = true ∧ x.collected = false ∧
      hs = s.handles.modify h f ∧ x.Edited (f x) L h a ∧ input = s.input)

section handles
variable {s : World} {L : ℕ} {a : HandleAct}

private theorem handleSpec_none {s' : World} {reg : RegKey → Option RegVal}
    (he : s' = { s with registry := reg })
    (hreg : s.Registers L reg) : s.HandleSpec L a s' :=
  ⟨_, reg, _, he, hreg, .inl ⟨rfl, rfl⟩⟩

private theorem handleSpec_new {x : Handle} (hx : x.Made L) {s' : World} {hs : Store Handle}
    {reg : RegKey → Option RegVal} {input : Input}
    (he : s' = { s with handles := hs, registry := reg, input := input })
    (hhs : hs = s.handles.alloc x)
    (hreg : s.Registers L reg)
    (hin : (input = s.input ∧ (x.linked = true → a.makesPlain = true ∧ x.type.plain = true)) ∨
      input = (s.initQueue s.handles.next).input ∧ x.linked = true ∧ x.type.plain = false) :
    s.HandleSpec L a s' :=
  ⟨hs, reg, input, he, hreg, .inr (.inl ⟨x, hx, hhs, hin⟩)⟩

private theorem handleSpec_edit {s' : World} {h : ℕ} {x : Handle} {f : Handle → Handle}
    {reg : RegKey → Option RegVal} (hx : s.handles.get h = some x) (hl : x.linked = true)
    (hc : x.collected = false)
    (he : s' = { s with handles := s.handles.modify h f, registry := reg })
    (hreg : s.Registers L reg)
    (hf : x.Edited (f x) L h a) : s.HandleSpec L a s' :=
  ⟨_, reg, _, he, hreg, .inr (.inr ⟨h, x, f, hx, hl, hc, rfl, hf, rfl⟩)⟩

private theorem registers_same : s.Registers L s.registry := ⟨fun _ => rfl, fun _ _ => .inl⟩

private theorem Registers.set {reg : RegKey → Option RegVal} (h : s.Registers L reg) {k : RegKey}
    {v : Option RegVal} (hk : ∀ r, k ≠ .reqThread r)
    (hv : ∀ T, v = some (.thread T) → T = L ∧ k = .thread s.handles.next) :
    s.Registers L (fun k' => if k' = k then v else reg k') := by
  constructor
  · intro r
    change (if _ then _ else _) = _
    rw [if_neg (hk r).symm]
    exact h.req r
  · intro k' T hT
    split at hT
    · next he => exact .inr (he ▸ hv T hT)
    · exact h.thread k' T hT

private theorem handleSpec_initStream {type : HandleType} {v : Option RegVal}
    (hv : ∀ T, v = some (.thread T) → T = L) (ht : type.plain = false) (ok : Bool) :
    s.HandleSpec L a (((s.newHandle type L).couvRawsetp (.thread s.handles.next) v).initStream
      s.handles.next L ok) := by
  have hthread := (registers_same (s := s) (L := L)).set (k := .thread s.handles.next) (v := v)
    (fun _ => RegKey.noConfusion) (fun T h => ⟨hv T h, rfl⟩)
  cases ok with
  | false =>
    refine handleSpec_new ?_ rfl rfl hthread (.inl ⟨rfl, fun h => nomatch h⟩)
    exact ⟨rfl, fun h => (nomatch h), ⟨rfl, rfl, rfl, rfl⟩, fun h => nomatch h⟩
  | true =>
    refine handleSpec_new ?_ rfl (Store.alloc_modify _ _ _) ?_ (.inr ⟨rfl, rfl, ht⟩)
    · exact ⟨rfl, fun _ => rfl, ⟨rfl, rfl, rfl, rfl⟩, fun h => nomatch h⟩
    · exact hthread.set (fun _ => RegKey.noConfusion) (fun _ h => nomatch h)

private theorem handleSpec_unlinked {type : HandleType} {s' : World}
    {reg : RegKey → Option RegVal}
    (he : s' = { s.newHandle type L with registry := reg })
    (hreg : s.Registers L reg) : s.HandleSpec L a s' := by
  refine handleSpec_new ?_ he rfl hreg (.inl ⟨rfl, fun h => nomatch h⟩)
  exact ⟨rfl, fun h => (nomatch h), ⟨rfl, rfl, rfl, rfl⟩, fun h => nomatch h⟩

private theorem handleSpec_newInCoroutine {type : HandleType} (ht : type.plain = false)
    (ok : Bool) :
    s.HandleSpec L a (s.newInCoroutine type L ok) := by
  simp only [newInCoroutine]
  split
  · exact handleSpec_unlinked rfl registers_same
  · refine handleSpec_initStream ?_ ht ok
    intro T h
    exact (RegVal.thread.inj (Option.some.inj h)).symm

private theorem handleSpec_ttyNew (ok : Bool) : s.HandleSpec L a (s.ttyNew L ok) := by
  simp only [ttyNew]
  split
  · cases ok with
    | false => exact handleSpec_unlinked rfl registers_same
    | true =>
      refine handleSpec_new ?_ rfl (Store.alloc_modify _ _ _) ?_ (.inr ⟨rfl, rfl, rfl⟩)
      · exact ⟨rfl, fun _ => rfl, ⟨rfl, rfl, rfl, rfl⟩, fun h => nomatch h⟩
      · exact registers_same.set (fun _ => RegKey.noConfusion) (fun _ h => nomatch h)
  · refine handleSpec_initStream ?_ rfl ok
    intro T h
    exact (RegVal.thread.inj (Option.some.inj h)).symm

private theorem handleSpec_couvTimerCreate (ok : Bool) :
    s.HandleSpec L (.timerNew ok) (s.couvTimerCreate L ok) := by
  cases ok with
  | false => exact handleSpec_unlinked rfl registers_same
  | true =>
    refine handleSpec_new ?_ rfl (Store.alloc_modify _ _ _) registers_same
      (.inl ⟨rfl, fun _ => ⟨rfl, rfl⟩⟩)
    exact ⟨rfl, fun _ => rfl, ⟨rfl, rfl, rfl, rfl⟩, fun h => nomatch h⟩

private theorem handleSpec_couvProcessSpawn (f : ℕ) (r : CallResult) :
    s.HandleSpec L (.spawn f r) (s.couvProcessSpawn L f r) := by
  have hset := (registers_same (s := s) (L := L)).set (k := couvExitCbRegKey s.handles.next)
    (v := some (.func f)) (fun _ => RegKey.noConfusion) (fun _ h => nomatch h)
  cases r with
  | argError => exact handleSpec_unlinked rfl registers_same
  | uvError => exact handleSpec_unlinked rfl hset
  | ok =>
    refine handleSpec_new ?_ rfl ((congrArg (fun hs => Store.modify hs _ _)
      (Store.alloc_modify _ _ _)).trans (Store.alloc_modify _ _ _)) ?_
      (.inl ⟨rfl, fun _ => ⟨rfl, rfl⟩⟩)
    · exact ⟨rfl, fun _ => rfl, ⟨rfl, rfl, rfl, rfl⟩, fun _ => ⟨rfl, rfl⟩⟩
    · exact hset.set (fun _ => RegKey.noConfusion) (fun _ h => nomatch h)

/-- One inversion for all constructors and methods of handles. -/
theorem execHandle_spec (hg : s.guardHandle a) : s.HandleSpec L a (s.execHandle L a) := by
  have hsame : s.HandleSpec L a s := handleSpec_none rfl registers_same
  have hset : ∀ h f, s.Registers L
      (fun k => if k = .callback h then some (.func f) else s.registry k) := fun h f =>
    registers_same.set (fun _ => RegKey.noConfusion) (fun _ h => nomatch h)
  -- constructors make a handle, the other methods edit one
  cases a with
  | tcpNew ok => exact handleSpec_newInCoroutine rfl ok
  | udpNew ok => exact handleSpec_newInCoroutine rfl ok
  | pipeNew ok => exact handleSpec_newInCoroutine rfl ok
  | ttyNew ok => exact handleSpec_ttyNew ok
  | timerNew ok => exact handleSpec_couvTimerCreate ok
  | spawn f r => exact handleSpec_couvProcessSpawn f r
  | tcpOpen h ok =>
    obtain ⟨x, hx, hl, hc, htype, -⟩ := hg
    cases ok with
    | false => exact hsame
    | true =>
      exact handleSpec_edit hx hl hc rfl registers_same
        ⟨rfl, rfl, rfl, rfl, rfl, rfl, .inr ⟨rfl, by simpa using htype, rfl⟩, .inl, fun _ => .inl⟩
  | listen h f ok =>
    obtain ⟨x, hx, hl, hc, -, hopen⟩ := hg
    cases ok with
    | false => exact handleSpec_none rfl (hset h f)
    | true =>
      refine handleSpec_edit hx hl hc rfl ?_
        ⟨rfl, rfl, rfl, rfl, rfl, rfl, .inl rfl, fun _ => .inr ⟨rfl, hopen rfl⟩, fun _ => .inl⟩
      exact (hset h f).set (fun _ => RegKey.noConfusion) (fun _ h => nomatch h)
  | timerStart h f rep r =>
    obtain ⟨x, hx, hl, hc, -, hopen⟩ := hg
    cases r with
    | argError => exact handleSpec_none rfl (hset h f)
    | uvError => exact handleSpec_none rfl (hset h f)
    | ok =>
      refine handleSpec_edit hx hl hc rfl ?_
        ⟨rfl, rfl, rfl, rfl, rfl, rfl, .inl rfl, fun _ => .inr ⟨rfl, hopen rfl⟩, fun _ => .inl⟩
      exact (hset h f).set (fun _ => RegKey.noConfusion) (fun _ h => nomatch h)
  | timerStop h =>
    obtain ⟨x, hx, hl, hc, -⟩ := hg
    exact handleSpec_edit hx hl hc rfl registers_same
      ⟨rfl, rfl, rfl, rfl, rfl, rfl, .inl rfl, fun h => (nomatch h), fun _ => .inl⟩
  | timerAgain h =>
    obtain ⟨x, hx, hl, hc, -, hopen⟩ := hg
    exact handleSpec_edit hx hl hc rfl registers_same
      ⟨rfl, rfl, rfl, rfl, rfl, rfl, .inl rfl, fun _ => .inr ⟨rfl, hopen rfl⟩, fun _ => .inl⟩
  | timerSetRepeat h rep =>
    obtain ⟨x, hx, hl, hc, -⟩ := hg
    exact handleSpec_edit hx hl hc rfl registers_same
      ⟨rfl, rfl, rfl, rfl, rfl, rfl, .inl rfl, .inl, fun _ => .inl⟩
  | readStart m h ok =>
    obtain ⟨x, hx, hl, hc, htype, hopen⟩ := hg
    cases ok with
    | false => exact hsame
    | true =>
      refine handleSpec_edit hx hl hc rfl registers_same
        ⟨rfl, rfl, rfl, rfl, rfl, rfl, .inl rfl, .inl, ?_⟩
      intro m' hm
      obtain rfl := Option.some.inj hm
      exact .inr ⟨hopen rfl, htype⟩
  | readStop h =>
    obtain ⟨x, hx, hl, hc, -⟩ := hg
    exact handleSpec_edit hx hl hc rfl registers_same
      ⟨rfl, rfl, rfl, rfl, rfl, rfl, .inl rfl, .inl, fun _ h => nomatch h⟩

end handles

section callbacks
variable {s : World}

/-- The lua_State that the callback of a request uses. -/
def target (s : World) (req : Req) : ℕ :=
  if req.kind.onHandle then s.data (req.handle.getD 0) else req.data

/-- The lua_State that the callback of an event uses. -/
def eventThread (s : World) : Event → Option ℕ
  | .alloc h _ _ | .readCb h _ _ _ _ | .read2Cb h _ _ _ _ | .udpRecvCb h _ _ _ _ _ | .timerCb h
  | .exitCb h | .connectionCb h => some (s.data h)
  | .complete r _ => (s.reqs.get r).map s.target

/-- The lua_State that the callback of an event applies couv_resume to. -/
def resumed (s : World) (e : Event) : Option ℕ :=
  match e with
  | .complete r _ => (s.reqs.get r).bind fun req =>
      match req.kind with
      | .sleep => none
      | .close => if s.yielded (s.target req) then some (s.target req) else none
      | _ => some (s.target req)
  | _ => e.node.bind fun node =>
      if s.yielded (s.data node.handle) then some (s.data node.handle) else none

theorem resumed_node {e : Event} {node : InputNode} (hn : e.node = some node) :
    s.resumed e = if s.yielded (s.data node.handle) then some (s.data node.handle) else none := by
  cases e with
  | complete => cases hn
  | readCb | read2Cb | udpRecvCb | alloc | timerCb | exitCb | connectionCb =>
    simp only [resumed, hn, Option.bind_some]

theorem resumed_complete {r : ℕ} {req : Req} (hr : s.reqs.get r = some req)
    (hk : req.kind ≠ .sleep) (hy : req.kind = .close → s.yielded (s.target req) = true)
    (o : Outcome) : s.resumed (.complete r o) = some (s.target req) := by
  simp only [resumed, hr, Option.bind_some]
  split
  · next h => exact absurd h hk
  · next h => rw [if_pos (hy h)]
  · rfl

/-- What the callback of a request does: close the timer of a sleep, close a handle, or
resume the target with the result. -/
theorem complete_cases {r : ℕ} {req : Req} (hr : s.reqs.get r = some req) (o : Outcome) :
    (req.kind = .sleep ∧ s.complete r o = s.sleepCb r) ∨
    (req.kind = .close ∧ s.complete r o = s.closeCb (req.handle.getD 0) r) ∨
    (req.kind ≠ .sleep ∧ req.kind ≠ .close ∧
      ∃ t, (t = s ∨ t = s.couvRawsetp (.reqThread r) none) ∧
        s.complete r o = { t with reqs := s.reqs.free r }.couvResume (s.target req)
          (.completion r) (req.kind.args o)) := by
  unfold complete
  rw [hr]
  cases hk : req.kind with
  | sleep => exact .inl ⟨rfl, by simp only [hk]⟩
  | close => exact .inr (.inl ⟨rfl, by simp only [hk]⟩)
  | sleepClose | fs t =>
    refine .inr (.inr ⟨ReqKind.noConfusion, ReqKind.noConfusion, _, .inr rfl, ?_⟩)
    simp only [hk, target, ReqKind.onHandle]
    rfl
  | write | write2 | shutdown | connect | send | getaddrinfo =>
    refine .inr (.inr ⟨ReqKind.noConfusion, ReqKind.noConfusion, _, .inl rfl, ?_⟩)
    simp only [hk, target, ReqKind.onHandle]
    rfl

/-- The clean-up functions clear keys of the handle. -/
theorem couvCleanHandle_cases (h : ℕ) : ∃ reg, s.couvCleanHandle h = { s with registry := reg } ∧
    ∀ k, reg k = s.registry k ∨
      reg k = none ∧ (k = .userdata h ∨ k = .thread h ∨ k = .callback h) := by
  have hset : ∀ (t : World) (k : RegKey),
      (k = .userdata h ∨ k = .thread h ∨ k = .callback h) →
      (∃ reg, t = { s with registry := reg } ∧ ∀ k, reg k = s.registry k ∨
        reg k = none ∧ (k = .userdata h ∨ k = .thread h ∨ k = .callback h)) →
      ∃ reg, t.couvRawsetp k none = { s with registry := reg } ∧ ∀ k, reg k = s.registry k ∨
        reg k = none ∧ (k = .userdata h ∨ k = .thread h ∨ k = .callback h) := by
    rintro t k hk ⟨reg, rfl, hreg⟩
    refine ⟨fun k' => if k' = k then none else reg k', rfl, ?_⟩
    intro k'
    by_cases hkk : k' = k
    · exact .inr ⟨if_pos hkk, hkk ▸ hk⟩
    · simpa only [if_neg hkk] using hreg k'
  have hsame : ∃ reg, s = { s with registry := reg } ∧ ∀ k, reg k = s.registry k ∨
      reg k = none ∧ (k = .userdata h ∨ k = .thread h ∨ k = .callback h) :=
    ⟨s.registry, rfl, fun _ => .inl rfl⟩
  have hu : couvUserdataRegKey h = .userdata h ∨ couvUserdataRegKey h = .thread h ∨
      couvUserdataRegKey h = .callback h := .inl rfl
  have ht : couvThreadRegKey h = .userdata h ∨ couvThreadRegKey h = .thread h ∨
      couvThreadRegKey h = .callback h := .inr (.inl rfl)
  have hc : couvListenCbRegKey h = .userdata h ∨ couvListenCbRegKey h = .thread h ∨
      couvListenCbRegKey h = .callback h := .inr (.inr rfl)
  -- each class clears two or three of the keys
  unfold couvCleanHandle
  split
  · exact hset _ _ hc (hset _ _ hu hsame)
  · exact hset _ _ hc (hset _ _ ht (hset _ _ hu hsame))
  · exact hset _ _ hu (hset _ _ hc hsame)
  · exact hset _ _ ht (hset _ _ hu hsame)
  · exact hset _ _ hc (hset _ _ ht (hset _ _ hu hsame))
  · exact hsame
  · exact hsame

/-- After close_cb has cleaned up `h`, before it wakes anyone. -/
def cleaned (s : World) (h r : ℕ) (reg : RegKey → Option RegVal) : World :=
  { s with
    handles := s.handles.modify h (fun x => { x with closed := true })
    reqs := s.reqs.free r
    registry := reg }

theorem closeCb_cases (h r : ℕ) : ∃ reg, (∀ k, reg k = s.registry k ∨
      reg k = none ∧ (k = .userdata h ∨ k = .thread h ∨ k = .callback h)) ∧
    (s.yielded (s.data h) = false ∧ s.closeCb h r = s.cleaned h r reg ∨
      s.yielded (s.data h) = true ∧
        s.closeCb h r = (s.cleaned h r reg).couvResume (s.data h) (.completion r) []) := by
  obtain ⟨reg, hclean, hreg⟩ := couvCleanHandle_cases
    (s := { s.modifyHandle h (fun x => { x with closed := true }) with reqs := s.reqs.free r }) h
  refine ⟨reg, hreg, ?_⟩
  have he : s.closeCb h r = if (s.cleaned h r reg).yielded (s.data h) then
      (s.cleaned h r reg).couvResume (s.data h) (.completion r) [] else s.cleaned h r reg :=
    congrArg (fun t : World => if t.yielded (s.data h) then
      t.couvResume (s.data h) (.completion r) [] else t) hclean
  have hy : (s.cleaned h r reg).yielded (s.data h) = s.yielded (s.data h) := rfl
  rw [he, hy]
  cases s.yielded (s.data h) with
  | false => exact .inl ⟨rfl, rfl⟩
  | true => exact .inr ⟨rfl, rfl⟩

/-! What an input callback has changed before it resumes anyone. -/

theorem takeRead_enqueue_handles (rd : Option UvRead) (node : InputNode) :
    ((s.takeRead rd).enqueue node).handles = s.handles := by
  cases rd <;> rfl

theorem takeRead_enqueue_status (rd : Option UvRead) (node : InputNode) :
    ((s.takeRead rd).enqueue node).status = s.status := by
  cases rd <;> rfl

theorem takeRead_enqueue_yielded (rd : Option UvRead) (node : InputNode) (L : ℕ) :
    ((s.takeRead rd).enqueue node).yielded L = s.yielded L := by
  cases rd <;> rfl

/-- The three input callbacks are one. -/
theorem inputEvent {e : Event} {node : InputNode} (hg : s.guardEvent e)
    (hn : e.node = some node) : ∃ rd, s.execEvent e = s.inputCb node rd ∧
      node.wBuf = inputBuf rd ∧ s.InputReady node.mode node.handle rd := by
  cases e with
  | readCb h nread rd behind junk =>
    obtain rfl := Option.some.inj hn
    exact ⟨rd, rfl, rfl, hg⟩
  | read2Cb h nread rd pending junk =>
    obtain rfl := Option.some.inj hn
    exact ⟨rd, rfl, rfl, hg⟩
  | udpRecvCb h nread rd behind junk addr =>
    obtain rfl := Option.some.inj hn
    exact ⟨rd, rfl, rfl, hg.1⟩
  | alloc | complete | timerCb | exitCb | connectionCb => cases hn

end callbacks

/-! The handles after any step. -/

/-- What a step may change of the handle `h`. -/
structure HandleStep (s : World) (a : Action) (h : ℕ) (x y : Handle) : Prop where
  type : y.type = x.type
  creator : y.creator = x.creator
  linked : y.linked = x.linked
  closed : y.closed = false → x.closed = false
  data : y.data = x.data ∨
    a = .handle (.tcpOpen h true) ∧ x.type = .tcp ∧ s.current = some y.data
  armed : y.armed = true → x.armed = true ∨ ∃ m, a = .handle m ∧ m.arms = some h
  reading : ∀ m, y.reading = some m → x.reading = some m ∨ x.type ∈ m.types

/-- A step leaves all handles alone, makes one or changes one. -/
structure HandlesSpec (s : World) (a : Action) (hs : Store Handle) : Prop where
  cases : hs = s.handles ∨
    (∃ m L x, a = .handle m ∧ s.current = some L ∧ x.Made L ∧ hs = s.handles.alloc x ∧
      (x.linked = true → m.makesPlain = true ∨ x.type.plain = false)) ∨
    ∃ h x f, s.handles.get h = some x ∧ hs = s.handles.modify h f ∧ s.HandleStep a h x (f x)

section
variable {s : World} {a : Action}

private theorem handlesSpec_modify (h : ℕ) {f : Handle → Handle}
    (hf : ∀ x, s.handles.get h = some x → s.HandleStep a h x (f x)) :
    s.HandlesSpec a (s.handles.modify h f) := by
  cases hx : s.handles.get h with
  | none =>
    refine ⟨.inl (Store.ext rfl fun k => ?_)⟩
    rw [Store.modify_get]
    split
    · next hk => rw [hx, hk, hx]; rfl
    · rfl
  | some x => exact ⟨.inr (.inr ⟨h, x, f, hx, rfl, hf x hx⟩)⟩

private theorem handlesSpec_handle {m : HandleAct} {L : ℕ} (hL : s.current = some L)
    (hg : s.guardHandle m) : s.HandlesSpec (.handle m) (s.execHandle L m).handles := by
  obtain ⟨hs, reg, input, he, -, ⟨rfl, -⟩ | ⟨x, hx, rfl, hin⟩ |
    ⟨h, x, f, hget, -, -, rfl, hf, -⟩⟩ := (execHandle_spec (L := L) hg).cases
  · exact ⟨.inl (by rw [he])⟩
  · refine ⟨.inr (.inl ⟨m, L, x, rfl, hL, hx, by rw [he], ?_⟩)⟩
    intro hl
    exact hin.imp (fun h => (h.2 hl).1) (fun h => h.2.2)
  · refine ⟨.inr (.inr ⟨h, x, f, hget, by rw [he], ?_⟩)⟩
    refine ⟨hf.type, hf.creator, hf.linked, fun hc => hf.closed.symm.trans hc, ?_, ?_, ?_⟩
    · refine hf.data.imp_right ?_
      rintro ⟨rfl, htype, hd⟩
      exact ⟨rfl, htype, hd ▸ hL⟩
    · exact fun h => (hf.armed h).imp_right (fun h => ⟨m, rfl, h.1⟩)
    · exact fun m' hm => (hf.reading m' hm).imp_right (fun h => h.2)

theorem couvClose_handles (boundary : Bool) (h L : ℕ) :
    (s.couvClose boundary h L).handles = s.handles.modify h
      (fun x => { x with closing := true, armed := false, reading := none }) := by
  simp only [couvClose]
  split
  · rfl
  · rw [passive_handles.submit _ (fun _ _ => rfl)]
    rfl

private theorem handlesSpec_call {boundary : Bool} {L : ℕ} {c : Call} (hg : s.guardCall c) :
    s.HandlesSpec a (s.execCall boundary L c).handles := by
  rcases (execCall_spec boundary L hg).cases with
    ⟨m, h, -, hr⟩ | ⟨h, -, hr⟩ | hr | ⟨req, hr⟩ | ⟨t, req, ha, hr⟩
  · exact ⟨.inl (by rw [hr, passive_handles.couvPrimRead])⟩
  · rw [hr, couvClose_handles]
    refine handlesSpec_modify h ?_
    intro x _
    exact ⟨rfl, rfl, rfl, id, .inl rfl, fun h => (nomatch h), fun _ h => nomatch h⟩
  · exact ⟨.inl (by rw [hr])⟩
  · exact ⟨.inl (by rw [hr]; rfl)⟩
  · refine ⟨.inl ?_⟩
    rw [hr, submit, passive_handles.luaYield]
    rcases ha.state with ⟨rfl, -⟩ | ⟨rfl, -⟩ <;> rfl

private theorem handlesSpec_complete (r : ℕ) (o : Outcome) :
    s.HandlesSpec a (s.complete r o).handles := by
  cases hr : s.reqs.get r with
  | none => exact ⟨.inl (by simp only [complete, hr])⟩
  | some q =>
    rcases complete_cases hr o with ⟨-, he⟩ | ⟨-, he⟩ | ⟨-, -, t, ht, he⟩
    · exact ⟨.inl (by rw [he]; rfl)⟩
    · have hclean : ∀ reg, s.HandlesSpec a (s.cleaned (q.handle.getD 0) r reg).handles := by
        intro reg
        refine handlesSpec_modify _ ?_
        intro x _
        exact ⟨rfl, rfl, rfl, fun h => (nomatch h), .inl rfl, .inl, fun _ => .inl⟩
      rw [he]
      obtain ⟨reg, -, ⟨-, he⟩ | ⟨-, he⟩⟩ := closeCb_cases (s := s) (q.handle.getD 0) r
      · rw [he]
        exact hclean reg
      · rw [he, passive_handles.couvResume]
        exact hclean reg
    · refine ⟨.inl ?_⟩
      rw [he, passive_handles.couvResume]
      rcases ht with rfl | rfl <;> rfl

private theorem handlesSpec_event {e : Event} (hg : s.guardEvent e) :
    s.HandlesSpec a (s.execEvent e).handles := by
  have hcb : ∀ node rd, s.HandlesSpec a (s.inputCb node rd).handles := fun node rd =>
    ⟨.inl (passive_handles.inputCb s (fun _ _ => rfl) (fun _ _ => rfl) node rd)⟩
  cases e with
  | alloc h n env =>
    exact ⟨.inl (couvBufAllocCb_proj (fun _ _ => rfl) (fun _ _ => rfl) s h n env)⟩
  | readCb h nread rd behind junk => exact hcb _ rd
  | read2Cb h nread rd pending junk => exact hcb _ rd
  | udpRecvCb h nread rd behind junk addr => exact hcb _ rd
  | complete r o => exact handlesSpec_complete r o
  | timerCb h =>
    refine handlesSpec_modify h ?_
    intro x hx
    obtain ⟨y, hy, harm, -⟩ := hg
    obtain rfl := Option.some.inj (Option.mem_def.mp hy |>.symm.trans hx)
    exact ⟨rfl, rfl, rfl, id, .inl rfl, fun _ => .inl harm, fun _ => .inl⟩
  | exitCb h =>
    refine handlesSpec_modify h ?_
    intro x _
    exact ⟨rfl, rfl, rfl, id, .inl rfl, fun h => (nomatch h), fun _ => .inl⟩
  | connectionCb h => exact ⟨.inl rfl⟩

/-- One inversion for the handles after any action. -/
theorem exec_handles (hg : s.guard a) : s.HandlesSpec a (s.exec a).handles := by
  cases a with
  | lua a => exact ⟨.inl (passive_handles.execLua s _ a)⟩
  | handle m =>
    obtain ⟨L, hcur⟩ := Option.isSome_iff_exists.mp hg.1
    simp only [exec, hcur]
    exact handlesSpec_handle hcur hg.2
  | call boundary c => exact handlesSpec_call hg.2
  | heap a =>
    exact ⟨.inl (execHeap_proj (fun _ _ => rfl) (fun _ _ => rfl) (fun _ _ => rfl) s a)⟩
  | event e => exact handlesSpec_event hg.2
  | gc g =>
    cases g with
    | thread T => exact ⟨.inl rfl⟩
    | handle h =>
      refine handlesSpec_modify h ?_
      intro x _
      exact ⟨rfl, rfl, rfl, id, .inl rfl, .inl, fun _ => .inl⟩
    | buffer b => exact ⟨.inl (collectBuffer_proj (fun _ _ => rfl) s b)⟩
    | string sid => exact ⟨.inl rfl⟩

/-- A handle stays what it is. -/
theorem exec_handle (hg : s.guard a) {h : ℕ} {x : Handle} (hx : s.handles.get h = some x) :
    ∃ y, (s.exec a).handles.get h = some y ∧ y.type = x.type ∧ y.creator = x.creator ∧
      y.linked = x.linked := by
  rcases (exec_handles hg).cases with he | ⟨m, L, x', -, -, -, he, -⟩ | ⟨k, x', f, hk, he, hf⟩
  · exact ⟨x, he ▸ hx, rfl, rfl, rfl⟩
  · exact ⟨x, he ▸ s.handles.alloc_get_of_some hx, rfl, rfl, rfl⟩
  · by_cases hkh : h = k
    · subst hkh
      obtain rfl := Option.some.inj (hk.symm.trans hx)
      exact ⟨f x', he ▸ s.handles.modify_get_self f hx, hf.type, hf.creator, hf.linked⟩
    · exact ⟨x, he ▸ (s.handles.modify_get_ne f hkh).trans hx, rfl, rfl, rfl⟩

end

end World

/-! Parts that do not look at the handles, the requests and the registry. -/

section aside
variable {β : Type} {f : World → β} (hhandles : ∀ s x, f { s with handles := x } = f s)
  (hreqs : ∀ s x, f { s with reqs := x } = f s) (hreg : ∀ s x, f { s with registry := x } = f s)
include hhandles hreqs hreg

/-- A call that is not a read changes nothing else. -/
theorem Quiet.execCall (hf : Quiet f) {s : World} (boundary : Bool) (L : ℕ) {c : Call}
    (hg : s.guardCall c) (hread : ∀ m h, c ≠ .read m h) : f (s.execCall boundary L c) = f s := by
  rcases (World.execCall_spec boundary L hg).cases with
    ⟨m, h, rfl, -⟩ | ⟨h, -, he⟩ | he | ⟨req, he⟩ | ⟨t, req, ha, he⟩
  · exact absurd rfl (hread m h)
  · have hclosing : f (World.newReq (s.modifyHandle h
        (fun x => { x with closing := true, armed := false, reading := none }))
          ⟨.close, some h, 0, L, .none, [], []⟩) = f s := (hreqs _ _).trans (hhandles s _)
    rw [he]
    simp only [World.couvClose]
    split
    · exact hclosing
    · exact (hf.luaYield _ _ _).trans hclosing
  · rw [he]
  · rw [he]
    exact (hreqs _ _).trans (hreg s _)
  · rw [he, World.submit, hf.luaYield]
    rcases ha.state with ⟨rfl, -⟩ | ⟨rfl, -⟩
    · exact hreqs _ _
    · exact (hreqs _ _).trans (hreg s _)

theorem Passive.execCall (hf : Passive f) {s : World} (boundary : Bool) (L : ℕ) {c : Call}
    (hg : s.guardCall c) : f (s.execCall boundary L c) = f s := by
  by_cases hread : ∃ m h, c = .read m h
  · obtain ⟨m, h, rfl⟩ := hread
    exact hf.couvPrimRead s boundary L m h
  · exact hf.toQuiet.execCall hhandles hreqs hreg boundary L hg
      (fun m h he => hread ⟨m, h, he⟩)

theorem Passive.complete (hf : Passive f) {s : World} {r : ℕ} {q : Req}
    (hq : s.reqs.get r = some q) (o : Outcome) : f (s.complete r o) = f s := by
  rcases World.complete_cases hq o with ⟨-, he⟩ | ⟨-, he⟩ | ⟨-, -, t, ht, he⟩
  · rw [he]
    exact hreqs s _
  · let closed := s.handles.modify (q.handle.getD 0) (fun x => { x with closed := true })
    have hclean (reg : RegKey → Option RegVal) : f (s.cleaned (q.handle.getD 0) r reg) = f s :=
      calc
        _ = f { s with handles := closed, reqs := s.reqs.free r } :=
          hreg { s with handles := closed, reqs := s.reqs.free r } reg
        _ = f { s with handles := closed } := hreqs { s with handles := closed } _
        _ = f s := hhandles s closed
    rw [he]
    obtain ⟨reg, -, ⟨-, he⟩ | ⟨-, he⟩⟩ := World.closeCb_cases (s := s) (q.handle.getD 0) r
    · rw [he, hclean]
    · rw [he, hf.couvResume, hclean]
  · rw [he, hf.couvResume, hreqs]
    rcases ht with rfl | rfl
    · rfl
    · exact hreg s _

end aside

end Couv
