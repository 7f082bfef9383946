import Couv.Concat
import Couv.InputData

/-! The bytes that libuv has of a pending write or send. -/
namespace Couv

/-- What a call leaves on the stack of its coroutine while it waits. -/
def Call.arg : Call → Arg
  | .write _ t _ | .write2 _ t _ | .send _ t _ => .table t
  | .fsRead b _ _ _ _ _ => .item (.buffer b)
  | .fsWrite i _ _ _ _ _ => .item i
  | .read _ _ | .shutdown _ _ | .tcpConnect _ _ | .pipeConnect _ | .close _ | .sleep _
  | .getaddrinfo _ | .fs _ _ => .none

theorem forall₂_of_mapM {α β : Type} {f : α → Option β} {xs : List α} {ys : List β}
    (h : xs.mapM f = some ys) : List.Forall₂ (fun x y => f x = some y) xs ys := by
  induction xs generalizing ys with
  | nil =>
    obtain rfl := Option.some.inj h
    exact .nil
  | cons x xs ih =>
    rw [List.mapM_cons] at h
    obtain ⟨y, hy, h⟩ := Option.bind_eq_some_iff.mp h
    obtain ⟨ys, hys, h⟩ := Option.bind_eq_some_iff.mp h
    obtain rfl := Option.some.inj h
    exact .cons hy (ih hys)

namespace World

/-- What libuv reads behind a `uv_buf_t`. -/
def rangeBytes (s : World) : Range → List UInt8
  | .str sid => (s.strings.get sid).getD []
  | .mem base len => (base.map fun p => s.mem.bytes p len).getD []

/-- `rg` is what a call in `s₀` has made of the item `i`, which is still there. -/
inductive Lent (s₀ s : World) : Item → Range → Prop
  | str (sid : ℕ) (str : LuaString) (h₀ : s₀.strings.get sid = some str)
    (h : s.strings.get sid = some str) : Lent s₀ s (.str sid) (.str sid)
  | buffer (b : ℕ) (buf : CouvBuf) (p : Ptr) (hb : s.mem.bufs.get b = some buf)
    (hp : buf.base = some p) : Lent s₀ s (.buffer b) (.mem (some p) buf.len)

section
variable {s₀ s : World} {a : Action} {i : Item} {rg : Range}

/-- The bytes are those of the string, or what the Buffer shows now. -/
theorem Lent.bytes (h : s₀.Lent s i rg) :
    s.rangeBytes rg = s.mem.contents (s₀.itemValue i) := by
  cases h with
  | str sid str h₀ h => simp only [rangeBytes, itemValue, h₀, h, Mem.contents]
  | buffer b buf p hb hp =>
    have hzero : p.add (1-1) = p := by simp [Ptr.add]
    simp only [rangeBytes, itemValue, Mem.contents, Mem.shown, CouvBuf.at, hb, hp, Option.map_some,
      Option.getD_some, hzero]

theorem Lent.exec (h : s₀.Lent s i rg) (hg : s.guard a) (hnot : a.collects ≠ some i) :
    s₀.Lent (s.exec a) i rg := by
  cases h with
  | str sid str h₀ h => exact .str sid str h₀ ((exec_strings hg h).resolve_right hnot)
  | buffer b buf p hb hp => exact .buffer b buf p ((exec_bufs hg hb).resolve_right hnot) hp

theorem lent_of_bufOrStr (hlive : s.LiveItem i) (h : s.bufOrStr i = some rg) : s.Lent s i rg := by
  cases i with
  | str sid =>
    obtain rfl := Option.some.inj h
    obtain ⟨str, hstr⟩ := Option.isSome_iff_exists.mp hlive
    exact .str sid str hstr hstr
  | buffer b =>
    obtain ⟨buf, hb, h⟩ := Option.bind_eq_some_iff.mp h
    obtain ⟨p, hp, rfl⟩ := Option.map_eq_some_iff.mp h
    exact .buffer b buf p hb hp
  | other => cases h

/-- The ranges of a table, in its order. -/
theorem lent_of_table {t : ℕ} {items : List Item} {ranges : List Range}
    (h : s.bufOrStrTable t = some (items, ranges)) (hlive : ∀ i ∈ items, s.LiveItem i) :
    s.tables.get t = some items ∧ List.Forall₂ (s.Lent s) items ranges := by
  obtain ⟨items', hitems, h⟩ := Option.bind_eq_some_iff.mp h
  obtain ⟨rs, hrs, h⟩ := Option.map_eq_some_iff.mp h
  obtain ⟨rfl, rfl⟩ := Prod.mk.inj h
  have hall := (List.forall₂_and_left _ _).mpr ⟨hlive, forall₂_of_mapM hrs⟩
  exact ⟨hitems, hall.imp fun _ _ h => lent_of_bufOrStr h.1 h.2⟩

/-- Where the request of a call comes from. -/
theorem new_req {u : World} {q : Req} (req : Req) (h : u.reqs = s.reqs ∨ u.reqs = s.reqs.alloc req ∨
    u.reqs = (s.reqs.alloc req).free s.reqs.next) (hq : u.reqs.get s.reqs.next = some q) :
    q = req := by
  rcases h with h | h | h
  · rw [h, s.reqs.fresh _ le_rfl] at hq
    cases hq
  · rw [h, Store.alloc_get_self] at hq
    exact (Option.some.inj hq).symm
  · rw [h, Store.free_get_self] at hq
    cases hq

theorem submitBufs_arg {kind : ReqKind} {boundary : Bool} {h L t : ℕ} {ok : Bool} {q : Req}
    (hq : (s.submitBufs kind boundary h L t ok).reqs.get s.reqs.next = some q) :
    q.arg = .table t := by
  unfold submitBufs at hq
  split at hq
  · exact absurd ((s.reqs.fresh _ le_rfl).symm.trans hq) (Option.some_ne_none q).symm
  · split at hq
    · rw [new_req _ (.inr (.inl (submit_reqs ..))) hq]
    · exact absurd ((s.reqs.fresh _ le_rfl).symm.trans hq) (Option.some_ne_none q).symm

theorem submit_arg {boundary : Bool} {req : Req} {ok : Bool} {q : Req}
    (hq : (if ok then s.submit boundary req else s).reqs.get s.reqs.next = some q) :
    q.arg = req.arg := by
  refine congrArg Req.arg (new_req _ ?_ hq)
  split
  · exact .inr (.inl (submit_reqs ..))
  · exact .inl rfl

theorem submitAnchored_arg {kind : ReqKind} {boundary : Bool} {L : ℕ} {ok : Bool} {q : Req}
    (hq : (s.submitAnchored kind boundary L ok).reqs.get s.reqs.next = some q) :
    q.arg = .none := by
  refine congrArg Req.arg (new_req ⟨kind, none, L, L, .none, [], []⟩ ?_ hq)
  unfold submitAnchored
  split
  · exact .inl rfl
  · split
    · exact .inr (.inl (submit_reqs ..))
    · exact .inr (.inr rfl)

theorem fsAfterAsyncCall_arg {t : FsType} {boundary : Bool} {L : ℕ} {arg : Arg}
    {owners : List Item} {ranges : List Range} {ok : Bool} {q : Req}
    (hq : (s.fsAfterAsyncCall t boundary L arg owners ranges ok).reqs.get s.reqs.next = some q) :
    q.arg = arg := by
  refine congrArg Req.arg (new_req ⟨.fs t, none, L, L, arg, owners, ranges⟩ ?_ hq)
  unfold fsAfterAsyncCall
  split
  · exact .inl rfl
  · exact .inr (.inl (submit_reqs ..))

theorem execCall_arg {boundary : Bool} {L : ℕ} {c : Call} {q : Req}
    (hq : (s.execCall boundary L c).reqs.get s.reqs.next = some q) : q.arg = c.arg := by
  have hsame : ∀ {u : World}, u.reqs = s.reqs → u.reqs.get s.reqs.next = some q → False := by
    intro u hu hq
    rw [hu, s.reqs.fresh _ le_rfl] at hq
    cases hq
  cases c with
  | read m h => exact (hsame (passive_reqs.couvPrimRead s boundary L m h) hq).elim
  | write | write2 | send => exact submitBufs_arg hq
  | shutdown | tcpConnect => exact submit_arg hq
  | pipeConnect h => exact @submit_arg _ boundary _ true q hq
  | close h =>
    refine congrArg Req.arg (new_req ⟨.close, some h, 0, L, .none, [], []⟩ ?_ hq)
    simp only [execCall, couvClose]
    split
    · exact .inr (.inl rfl)
    · exact .inr (.inl (submit_reqs ..))
  | sleep | getaddrinfo => exact submitAnchored_arg hq
  | fs => exact fsAfterAsyncCall_arg hq
  -- a call that its checks reject leaves no request
  | fsRead b fd bufPos length off ok =>
    simp only [execCall, fsReadCall] at hq
    split at hq
    · exact (hsame rfl hq).elim
    · exact fsAfterAsyncCall_arg hq
  | fsWrite i fd bufPos length off ok =>
    simp only [execCall, fsWriteCall] at hq
    split at hq
    · exact (hsame rfl hq).elim
    · exact fsAfterAsyncCall_arg hq

end
end World

namespace FlightOk
variable {s : World} (hs : FlightOk s) {a : Action}
include hs

/-- The collector leaves what a request was made from. -/
theorem owner_kept (hg : s.guard a) {r : ℕ} {q : Req} (hq : s.reqs.get r = some q)
    (hr : q.ranges ≠ []) {i : Item} (hi : i ∈ q.owners) : a.collects ≠ some i := by
  have hheld := hs.held r q hq hr
  have hstack : ¬s.NotHeld i := fun h =>
    (Store.all_iff _).mp h r q hq ⟨hheld.waits, hheld.alive, hheld.owners i hi⟩
  intro hc
  cases a with
  | lua | handle | call | heap | event => cases hc
  | gc g =>
    cases g with
    | thread | handle => cases hc
    | buffer b =>
      obtain rfl := Option.some.inj hc
      exact hstack hg.2
    | string sid =>
      obtain rfl := Option.some.inj hc
      exact hstack hg

end FlightOk

/-- The request that the call `c` in `s₀` has made of `items`; the ranges of a table show them. -/
structure SentReq (s₀ : World) (items : List Item) (c : Call) (s : World) (q : Req) : Prop where
  arg : q.arg = c.arg
  handle : q.handle = c.handle
  owners : q.owners = items
  ranges : ∀ t, c.arg = .table t → List.Forall₂ (s₀.Lent s) items q.ranges

/-- As long as the request `r` is pending, it is as the call has left it. -/
structure Sending (s₀ : World) (items : List Item) (c : Call) (r : ℕ) (s : World) : Prop where
  data : InputDataOk s
  lt : r < s.reqs.next
  req : ∀ q, s.reqs.get r = some q → SentReq s₀ items c s q

section
variable {s₀ s : World} {items : List Item} {r : ℕ} {c : Call}

theorem Sending.exec (hs : Sending s₀ items c r s) {a : Action} (hg : s.guard a)
    (hstep : ProgStep s (.sys a)) : Sending s₀ items c r (s.exec a) := by
  have hstack := hs.data.flight.blocks.stack
  refine ⟨hs.data.progExec (a := .sys a) hg hstep,
    hs.lt.trans_le (World.exec_reqs_next hstack hg), fun q' hq' => ?_⟩
  rcases World.req_before hstack hg hq' with ⟨q, hq, hlater⟩ | ⟨hnext, -⟩
  swap
  · exact absurd hnext hs.lt.ne
  obtain ⟨harg, howners, hranges⟩ := hlater.memory
  have hsent := hs.req q hq
  refine ⟨harg.trans hsent.arg, hlater.handle.trans hsent.handle, howners.trans hsent.owners, ?_⟩
  intro t ht
  have hall := hsent.ranges t ht
  rw [hranges]
  -- no item of a request that has ranges is collected
  have hkept : ∀ i ∈ items, a.collects ≠ some i := by
    intro i hi
    refine hs.data.flight.owner_kept hg hq ?_ (hsent.owners ▸ hi)
    intro hnil
    rw [hnil] at hall
    cases hall
    cases hi
  have hboth := (List.forall₂_and_left _ _).mpr ⟨hkept, hall⟩
  exact hboth.imp fun _ _ hi => hi.2.exec hg hi.1

theorem Sending.progExec (hs : Sending s₀ items c r s) {a : ProgAct} (hg : s.progGuard a)
    (hstep : ProgStep s a) : Sending s₀ items c r (s.progExec a) := by
  by_cases hsys : ∃ b, a = .sys b
  · obtain ⟨b, rfl⟩ := hsys
    exact hs.exec hg hstep
  rcases hs.data.progExec_stores hg fun b he => hsys ⟨b, he⟩ with he | ⟨b, buf, p, bs, -, -, he⟩
  · rw [he]
    exact hs
  · have hdata := hs.data.progExec hg hstep
    rw [he] at hdata ⊢
    refine ⟨hdata, hs.lt, fun q hq => ?_⟩
    have hsent := hs.req q hq
    refine { hsent with ranges := fun t ht => (hsent.ranges t ht).imp fun i rg hi => ?_ }
    -- other bytes, in the same Buffers
    cases hi with
    | str sid str h₀ h => exact .str sid str h₀ h
    | buffer b buf p hb hp => exact .buffer b buf p hb hp

/-- The call that leaves the request. -/
theorem sending_of_call (hs : InputDataOk s) {boundary : Bool}
    (hg : s.guard (.call boundary c)) (hstep : ProgStep s (.sys (.call boundary c))) {q : Req}
    {L : ℕ} (hL : s.current = some L) (hleave : s.Leaves L c q)
    (hq : (s.exec (.call boundary c)).reqs.get s.reqs.next = some q) :
    (∀ t, c.arg = .table t → s.tables.get t = some q.owners) ∧
      Sending s q.owners c s.reqs.next (s.exec (.call boundary c)) := by
  have hexec : s.exec (.call boundary c) = s.execCall boundary L c := by
    simp only [World.exec, hL, Option.getD_some]
  have harg : q.arg = c.arg := World.execCall_arg (hexec ▸ hq)
  have htable : ∀ t, c.arg = .table t →
      s.tables.get t = some q.owners ∧ List.Forall₂ (s.Lent s) q.owners q.ranges := by
    intro t ht
    rw [← harg] at ht
    refine World.lent_of_table ?_ hleave.memory.live
    rcases hleave.memory.cases with ⟨hnone, -⟩ | ⟨t', ht', htable⟩ | ⟨i, rg, hitem, -⟩
    · rw [ht] at hnone
      cases hnone
    · rw [ht] at ht'
      obtain rfl := Arg.table.inj ht'
      exact htable
    · rw [ht] at hitem
      cases hitem
  refine ⟨fun t ht => (htable t ht).1, ?_⟩
  have hsys : s.progGuard (.sys (.call boundary c)) := hg
  -- lent before the call, the memory is lent after it
  refine ⟨hs.progExec hsys hstep, Store.lt_next _ hq, fun q' hq' => ?_⟩
  obtain rfl := Option.some.inj (hq.symm.trans hq')
  refine ⟨harg, hleave.handle, rfl, fun t ht => (htable t ht).2.imp fun i rg hi => ?_⟩
  exact hi.exec hg (Option.some_ne_none i).symm

end

/-- The request comes from a call of the run, on the table `t`, and what libuv finds in its ranges
are, in the order of the table at this call, the strings as they were and the Buffers as they are
now. -/
def SentBy (as : List ProgAct) (t : ℕ) (q : Req) : Prop :=
  ∃ pre boundary c post items, as = pre ++ .sys (.call boundary c) :: post ∧
    c.arg = .table t ∧ c.handle = q.handle ∧ (prog.run .init pre).tables.get t = some items ∧
    q.ranges.map (prog.run .init as).rangeBytes = items.map fun i =>
      (prog.run .init as).mem.contents ((prog.run .init pre).itemValue i)

/-- In every run of actions, calls on Buffers and reads of files whose steps meet `ProgStep`, libuv
has for each pending write, write2 and send the bytes of its call, whatever has been added to the
table and stored in the Buffers since. -/
theorem sent_bytes {as : List ProgAct} (he : prog.Enabled .init as)
    (hstep : prog.Along ProgStep .init as) {r t : ℕ} {q : Req}
    (hq : (prog.run .init as).reqs.get r = some q) (harg : q.arg = .table t) :
    SentBy as t q := by
  have hall := Machine.along_and.mpr ⟨he, hstep⟩
  -- the step that makes the request
  obtain ⟨pre, a, post, rfl, hbefore, q₀, hq₀⟩ :=
    Machine.exists_step (P := fun s : World => ∃ q, s.reqs.get r = some q)
      (fun h => by obtain ⟨_, h⟩ := h; cases h) ⟨q, hq⟩
  obtain ⟨hpre, ⟨hg, hst⟩, hpost⟩ := Machine.along_append.mp hall
  have hdata : InputDataOk (prog.run .init pre) :=
    Machine.run_invariant (fun _ _ hs hp => hs.progExec hp.1 hp.2) inputDataOk_init hpre
  by_cases hsys : ∃ b, a = .sys b
  swap
  · have hsame : ((prog.run .init pre).progExec a).reqs = (prog.run .init pre).reqs := by
      rcases hdata.progExec_stores hg fun b he => hsys ⟨b, he⟩ with
        he | ⟨b, buf, p, bs, -, -, he⟩ <;> rw [he]
    exact absurd ⟨q₀, hsame ▸ hq₀⟩ hbefore
  obtain ⟨b, rfl⟩ := hsys
  rcases World.req_before hdata.flight.blocks.stack hg hq₀ with
    ⟨q', hq', -⟩ | ⟨rfl, boundary, c, L, rfl, hL, hleave, -⟩
  · exact absurd ⟨q', hq'⟩ hbefore
  -- from there on the request is as the call has left it
  obtain ⟨htable, hcall⟩ := sending_of_call hdata hg hst hL hleave hq₀
  have hend : Sending (prog.run .init pre) q₀.owners c (prog.run .init pre).reqs.next
      (prog.run (prog.exec (prog.run .init pre) (.sys (.call boundary c))) post) :=
    Machine.run_invariant (fun _ _ hs hp => hs.progExec hp.1 hp.2) hcall hpost
  have hrun : prog.run .init (pre ++ .sys (.call boundary c) :: post) =
      prog.run (prog.exec (prog.run .init pre) (.sys (.call boundary c))) post := by
    rw [Machine.run_append, Machine.run_cons]
  rw [hrun] at hq
  unfold SentBy
  rw [hrun]
  have hsent := hend.req q hq
  have hcarg := hsent.arg.symm.trans harg
  refine ⟨pre, boundary, c, post, q₀.owners, rfl, hcarg, hsent.handle.symm, htable t hcarg, ?_⟩
  have hbytes := ((hsent.ranges t hcarg).imp fun _ _ hi => hi.bytes).flip
  rw [← List.forall₂_eq_eq_eq]
  exact List.forall₂_map_left_iff.mpr (List.forall₂_map_right_iff.mpr hbytes)

/-- A coroutine writes a string and a Buffer, and while it waits the Buffer is filled and the table
gets a third value. -/
def sentRun : List ProgAct := [.sys (.lua .create), .sys (.lua (.resume 1 [])),
  .sys (.heap (.bufNew ⟨true, fun _ => 0, ⟨none, none, 0⟩⟩ (.number 2))),
  .sys (.heap (.newString [104, 105])), .sys (.heap (.newTable [.str 0, .buffer 0])),
  .sys (.handle (.tcpNew true)), .sys (.call false (.write 0 0 true)),
  .buffer (.fill (.buffer 0) (.number 5) .nil .nil),
  .sys (.heap (.setTable 0 [.str 0, .buffer 0, .str 0]))]

/-- The request of the write. -/
def sentReq : Req :=
  { kind := .write, handle := some 0, data := 0, caller := 1, arg := .table 0,
    owners := [.str 0, .buffer 0], ranges := [.str 0, .mem (some ⟨0, 0⟩) 2] }

theorem sent_bytes_filled : SentBy sentRun 0 sentReq ∧
    sentReq.ranges.map (prog.run .init sentRun).rangeBytes = [[104, 105], [5, 5]] := by
  have he : prog.Enabled .init sentRun := by decide
  have hstep : prog.Along ProgStep .init sentRun := by decide
  have hq : (prog.run .init sentRun).reqs.get 0 = some sentReq := by decide
  exact ⟨sent_bytes he hstep hq rfl, by decide⟩

end Couv
