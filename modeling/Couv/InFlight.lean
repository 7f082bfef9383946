import Couv.BufferLaws
import Couv.KeyWrites
import Couv.LuaValues
import Couv.RegistryKeys

/-! The memory that libuv has of the pending requests. A request takes no reference on it: it
is alive because the caller waits, with the value on its stack, and is itself alive. -/
namespace Couv

/-- The bytes of the range are allocated. -/
def World.Allocated (s : World) : Range → Prop
  | .str sid => (s.strings.get sid).isSome
  | .mem base len => ∃ p ∈ base, s.mem.InBlock p len

/-- The memory of every request that libuv has accepted is allocated. -/
def InFlight (s : World) : Prop :=
  ∀ r q, s.reqs.get r = some q → ∀ rg ∈ q.ranges, s.Allocated rg

/-- The request with memory that the coroutine waits for. -/
def World.flight (s : World) (T : ℕ) : Option ℕ :=
  match s.status T with
  | some (.suspended (.req r)) => if ∃ q ∈ s.reqs.get r, q.ranges ≠ [] then some r else none
  | _ => none

def Event.completes : Event → Option ℕ
  | .complete r _ => some r
  | _ => none

/-- The request keeps the coroutine in the registry: it has a key of its own, or the coroutine
made its handle. -/
def World.Keeps (s : World) (q : Req) (T : ℕ) : Prop :=
  q.handle = none ∨
    ∃ h ∈ q.handle, ∃ x ∈ s.handles.get h, x.threadEntry = some (.thread T)

instance (s : World) (q : Req) (T : ℕ) : Decidable (s.Keeps q T) :=
  inferInstanceAs (Decidable (_ ∨ ∃ h ∈ q.handle, ∃ x ∈ s.handles.get h, _))

/-- A coroutine that can wait hands memory to libuv, and waits for the callback: neither
coroutine.resume nor another callback resumes it, and the collector does not take it. No one
takes the values of a request out of its table. -/
def FlightStep (s : World) (a : Action) : Prop :=
  match a with
  | .call boundary c => ∀ L ∈ s.current, c.memory = true → s.submits L c = true →
      s.CanYield boundary ∧ s.collected L = false
  | .lua (.resume T _) => s.flight T = none
  | .event e => ∀ T ∈ s.resumed e, ∀ r ∈ s.flight T, e.completes = some r
  | .heap (.setTable t items) =>
      s.reqs.All (fun _ q => q.arg = .table t → ∀ i ∈ q.owners, i ∈ items)
  | .gc (.thread T) => ∀ r ∈ s.flight T, ∀ q ∈ s.reqs.get r, s.Keeps q T
  | _ => True

instance (s : World) : DecidablePred (FlightStep s)
  | .call _ _ => inferInstanceAs (Decidable (∀ L ∈ s.current, _))
  | .lua (.resume _ _) => inferInstanceAs (Decidable (_ = _))
  | .event e => inferInstanceAs (Decidable (∀ T ∈ s.resumed e, ∀ r ∈ s.flight T, _))
  | .heap (.setTable _ _) => inferInstanceAs (Decidable (Store.All _ _))
  | .gc (.thread T) => inferInstanceAs (Decidable (∀ r ∈ s.flight T, ∀ q ∈ s.reqs.get r, _))
  | .lua .create | .lua (.yield _) | .lua (.finish _) | .lua .callReturn | .lua .uvRun
  | .lua .uvRunReturn | .handle _ | .heap (.newString _) | .heap (.newTable _)
  | .heap (.bufNew _ _) | .heap (.bufSlice _ _ _ _) | .heap (.bufConcat _ _ _)
  | .gc (.handle _) | .gc (.buffer _) | .gc (.string _) => isTrue trivial

/-! The ranges that fs.read and fs.write compute. -/

/-- The range lies inside a value of `len` bytes. -/
def FsRange.Inside (r : FsRange) (len : ℕ) : Prop :=
  1 ≤ r.first ∧ r.first ≤ len ∧ 0 ≤ r.length ∧ r.first-1+r.length ≤ len

/-- The checks of bufPos and length keep the range inside. -/
theorem fsRange_inside {len : ℕ} {r : FsRange} {u v : Unit}
    (hf : couvArgcheckindex 3 r.first 1 (cInt len) = .ok u)
    (hl : couvArgcheckindex 4 r.length 0 (cInt (cInt len-r.first+1)) = .ok v) :
    r.Inside len := by
  have hf := couvArgcheckindex_ok hf
  have hl := couvArgcheckindex_ok hl
  have hle := cInt_le len
  have hmax : cInt len ≤ 2^31-1 := (cInt_mem len).2
  rw [cInt_of (by omega) (by omega)] at hl
  unfold FsRange.Inside
  omega

section
variable {fd bufPos length off : Value} {r : FsRange} {m m' : Mem}

theorem fsRead_inv {b : ℕ} (h : fsRead fd (.buffer b) bufPos length off m = .ok r m') :
    ∃ buf, m.bufs.get b = some buf ∧ r.base = .mem buf.base buf.len ∧ r.Inside buf.len := by
  obtain ⟨fd', -, h⟩ := bind_check_inv h
  obtain ⟨buf, hb, h⟩ := checkbuf_inv h
  obtain ⟨first, -, h⟩ := bind_check_inv h
  obtain ⟨len, -, h⟩ := bind_check_inv h
  obtain ⟨o, -, h⟩ := bind_check_inv h
  obtain ⟨_, hf, h⟩ := bind_check_inv h
  obtain ⟨_, hl, h⟩ := bind_check_inv h
  cases h
  exact ⟨buf, hb, rfl, fsRange_inside hf hl⟩

theorem checkbuforstr_inv {α : Type} {arg : ℕ} {v : Value} {f : UvBuf → BufM α} {a : α}
    (h : (couvCheckbuforstr arg v >>= f) m = .ok a m') :
    ∃ buf, couvTobuforstr m v = some buf ∧ f buf m = .ok a m' := by
  cases hv : couvTobuforstr m v with
  | none =>
    have hx : couvCheckbuforstr arg v m =
        .error (.raise (.argError arg "must be string or Buffer")) m := by
      simp only [couvCheckbuforstr, hv]
    rw [run_bind_error hx] at h
    cases h
  | some buf =>
    have hx : couvCheckbuforstr arg v m = .ok buf m := by simp only [couvCheckbuforstr, hv]
    rw [run_bind_ok hx] at h
    exact ⟨buf, rfl, h⟩

theorem fsWrite_inv {v : Value} (h : fsWrite fd v bufPos length off m = .ok r m') :
    ∃ buf, couvTobuforstr m v = some buf ∧ r.base = buf ∧ r.Inside buf.len := by
  obtain ⟨fd', -, h⟩ := bind_check_inv h
  obtain ⟨buf, hb, h⟩ := checkbuforstr_inv h
  obtain ⟨first, -, h⟩ := bind_check_inv h
  obtain ⟨len, -, h⟩ := bind_check_inv h
  obtain ⟨o, -, h⟩ := bind_check_inv h
  obtain ⟨_, hf, h⟩ := bind_check_inv h
  obtain ⟨_, hl, h⟩ := bind_check_inv h
  cases h
  exact ⟨buf, hb, rfl, fsRange_inside hf hl⟩

end

theorem exists_of_mem_mapM {α β : Type} {f : α → Option β} {xs : List α} {ys : List β}
    (h : xs.mapM f = some ys) {y : β} (hy : y ∈ ys) : ∃ x ∈ xs, f x = some y := by
  induction xs generalizing ys with
  | nil =>
    obtain rfl := Option.some.inj h
    cases hy
  | cons x xs ih =>
    rw [List.mapM_cons] at h
    obtain ⟨z, hz, h⟩ := Option.bind_eq_some_iff.mp h
    obtain ⟨zs, hzs, h⟩ := Option.bind_eq_some_iff.mp h
    obtain rfl := Option.some.inj h
    rcases List.mem_cons.mp hy with rfl | hy
    · exact ⟨x, List.mem_cons_self, hz⟩
    · obtain ⟨x', hx', hf⟩ := ih hzs hy
      exact ⟨x', List.mem_cons_of_mem _ hx', hf⟩

namespace World

/-- The range lies in the string or in the Buffer `i`. -/
inductive Backs (s : World) : Item → Range → Prop
  | str (sid : ℕ) (str : LuaString) (h : s.strings.get sid = some str) :
    Backs s (.str sid) (.str sid)
  | buffer (b : ℕ) (buf : CouvBuf) (p : Ptr) (i len : ℕ) (hb : s.mem.bufs.get b = some buf)
    (hp : buf.base = some p) (hin : i+len ≤ buf.len) :
    Backs s (.buffer b) (.mem (some (p.add i)) len)

/-- The caller of the request waits for it, with the owners of its memory on the stack. -/
structure Held (s : World) (r : ℕ) (q : Req) : Prop where
  waits : s.status q.caller = some (.suspended (.req r))
  alive : s.collected q.caller = false
  key : q.handle = none → s.registry (.reqThread r) = some (.thread q.caller)
  owners : ∀ i ∈ q.owners, i ∈ s.argItems q.arg
  ranges : ∀ rg ∈ q.ranges, ∃ i ∈ q.owners, s.Backs i rg

section
variable {s : World}

theorem flight_of_waits {T r : ℕ} {q : Req} (hst : s.status T = some (.suspended (.req r)))
    (hq : s.reqs.get r = some q) (hr : q.ranges ≠ []) : s.flight T = some r := by
  simp only [flight, hst]
  exact if_pos ⟨q, hq, hr⟩

/-- Who backs a range keeps it allocated. -/
theorem Backs.allocated (hs : s.RefOk) {i : Item} {rg : Range} (h : s.Backs i rg) :
    s.Allocated rg := by
  cases h with
  | str sid str h => exact Option.isSome_iff_exists.mpr ⟨str, h⟩
  | buffer b buf p i len hb hp hin =>
    have hshape := hs.shape buf (.buf b buf hb)
    cases ho : buf.orig with
    | none =>
      rw [(hshape.null ho).1] at hp
      cases hp
    | some blk =>
      obtain ⟨bl, hbl⟩ := hs.buf_live b buf blk hb ho
      obtain ⟨off, hbase, hsize⟩ := hshape.inside blk ho
      obtain rfl := Option.some.inj (hp.symm.trans hbase)
      have hfit := hsize bl.size (by rw [Mem.sizes, Store.map_get, hbl]; rfl)
      refine ⟨_, rfl, bl, hbl, ?_, ?_⟩
      · change (0 : ℤ) ≤ off+i
        omega
      · change (off : ℤ)+i+len ≤ bl.size
        omega

/-! What a call gives to libuv. -/

theorem backs_of_bufOrStr {i : Item} {rg : Range} (hlive : s.LiveItem i)
    (h : s.bufOrStr i = some rg) : s.Backs i rg := by
  cases i with
  | str sid =>
    obtain rfl := Option.some.inj h
    obtain ⟨str, hstr⟩ := Option.isSome_iff_exists.mp hlive
    exact .str sid str hstr
  | buffer b =>
    obtain ⟨buf, hb, h⟩ := Option.bind_eq_some_iff.mp h
    obtain ⟨p, hp, rfl⟩ := Option.map_eq_some_iff.mp h
    have hbacks := Backs.buffer (s := s) b buf p 0 buf.len hb hp (by omega)
    have hzero : p.add (0 : ℕ) = p := by simp [Ptr.add]
    rwa [hzero] at hbacks
  | other => cases h

theorem backs_of_range {b : ℕ} {buf : CouvBuf} {p : Ptr} {r : FsRange} {len : ℕ}
    (hb : s.mem.bufs.get b = some buf) (hp : buf.base = some p) (hr : r.base = .mem (some p) len)
    (hin : r.Inside buf.len) : s.Backs (.buffer b) (fsRangeOf (.buffer b) r) := by
  obtain ⟨h1, -, h2, h3⟩ := hin
  have hbacks := Backs.buffer (s := s) b buf p (r.first-1).toNat r.length.toNat hb hp (by omega)
  have hfirst : (((r.first-1).toNat : ℕ) : ℤ) = r.first-1 := by omega
  rw [hfirst] at hbacks
  simp only [fsRangeOf, hr]
  exact hbacks

/-- fs.read and fs.write give libuv a range of their argument. -/
theorem backs_of_fsAccepts (hs : s.RefOk) {i : Item} {r : FsRange} (hlive : s.LiveItem i)
    (h : s.FsAccepts i r) : s.Backs i (fsRangeOf i r) := by
  obtain ⟨fd, bufPos, length, off, m, ⟨b, rfl, h⟩ | h⟩ := h
  · obtain ⟨buf, hb, hr, hin⟩ := fsRead_inv h
    have hshape := hs.shape buf (.buf b buf hb)
    cases ho : buf.orig with
    | none =>
      -- no index is inside a Buffer without a block
      have hlen := (hshape.null ho).2
      obtain ⟨h1, h2, -⟩ := hin
      omega
    | some blk =>
      obtain ⟨off, hbase, -⟩ := hshape.inside blk ho
      rw [hbase] at hr
      exact backs_of_range hb hbase hr hin
  · obtain ⟨ub, hub, hr, hin⟩ := fsWrite_inv h
    cases i with
    | str sid =>
      obtain ⟨str, hstr⟩ := Option.isSome_iff_exists.mp hlive
      exact .str sid str hstr
    | buffer b =>
      obtain ⟨buf, hb⟩ := Option.isSome_iff_exists.mp hlive
      simp only [couvTobuforstr, itemValue, hb, Option.map_eq_some_iff] at hub
      obtain ⟨p, hp, rfl⟩ := hub
      exact backs_of_range hb hp hr hin
    | other => cases hub

/-- What a call leaves to libuv is backed by the values on its stack. -/
theorem backs_of_lends (hs : s.RefOk) {c : Call} {req : Req} (h : s.Lends c req) :
    (∀ i ∈ req.owners, i ∈ s.argItems req.arg) ∧
      ∀ rg ∈ req.ranges, ∃ i ∈ req.owners, s.Backs i rg := by
  rcases h.cases with ⟨-, ho, hr⟩ | ⟨t, ha, ht⟩ | ⟨i, r, ha, ho, hr, hacc⟩
  · rw [ho, hr]
    exact ⟨fun _ h => (List.not_mem_nil h).elim, fun _ h => (List.not_mem_nil h).elim⟩
  · obtain ⟨items, hitems, ht⟩ := Option.bind_eq_some_iff.mp ht
    obtain ⟨rs, hrs, he⟩ := Option.map_eq_some_iff.mp ht
    obtain ⟨rfl, rfl⟩ := Prod.mk.inj he
    refine ⟨fun i hi => ?_, fun rg hrg => ?_⟩
    · simpa only [ha, argItems, hitems, Option.getD_some] using hi
    · obtain ⟨i, hi, hb⟩ := exists_of_mem_mapM hrs hrg
      exact ⟨i, hi, backs_of_bufOrStr (h.live i hi) hb⟩
  · have hi : i ∈ req.owners := by rw [ho]; exact List.mem_singleton_self i
    refine ⟨fun j hj => ?_, fun rg hrg => ⟨i, hi, ?_⟩⟩
    · rw [ho] at hj
      rw [ha]
      exact hj
    · rw [hr] at hrg
      rw [List.mem_singleton.mp hrg]
      exact backs_of_fsAccepts hs (h.live i hi) hacc

end
end World

/-- What holds along every run in which the callers of such requests keep waiting. -/
structure FlightOk (s : World) : Prop where
  blocks : BlocksOk s
  keys : s.KeysOk
  life : s.LifeOk
  held : ∀ r q, s.reqs.get r = some q → q.ranges ≠ [] → s.Held r q

theorem flightOk_init : FlightOk .init :=
  ⟨blocksOk_init, keysOk_init, lifeOk_init, fun _ _ h => nomatch h⟩

/-- A value that the collector leaves stays where it points. -/
theorem World.backs_exec {s : World} {a : Action} (hg : s.guard a) {rg : Range} {i : Item}
    (hb : s.Backs i rg) (hnot : a.collects ≠ some i) : (s.exec a).Backs i rg := by
  cases hb with
  | str sid str h =>
    exact .str sid str ((World.exec_strings hg h).resolve_right hnot)
  | buffer b buf p k len hb hp hin =>
    exact .buffer b buf p k len ((World.exec_bufs hg hb).resolve_right hnot) hp hin

namespace FlightOk
variable {s : World} (hs : FlightOk s) {a : Action}
include hs

theorem inFlight : InFlight s := by
  intro r q hq rg hrg
  obtain ⟨i, -, hb⟩ := (hs.held r q hq (List.ne_nil_of_mem hrg)).ranges rg hrg
  exact hb.allocated hs.blocks.refs

section
variable (hg : s.guard a) (hf : FlightStep s a) {r : ℕ} {q : Req}
  (hq : s.reqs.get r = some q) (hr : q.ranges ≠ [])
include hg hf hq hr

/-- The caller goes on waiting, unless its request is completed. -/
theorem waits_kept (hne : ∀ o, a = .event (.complete r o) → q.kind = .sleep) :
    (s.exec a).status q.caller = some (.suspended (.req r)) := by
  have hst := (hs.held r q hq hr).waits
  have hflight := World.flight_of_waits hst hq hr
  -- coroutine.resume or a callback may wake the caller
  rcases World.exec_woken hs.blocks.stack hg hst with hsame | ⟨args, rfl⟩ | ⟨e, rfl, hT⟩
  · exact hsame
  · rw [show s.flight q.caller = none from hf] at hflight
    cases hflight
  · have hc := hf q.caller hT r hflight
    cases e with
    | complete r' o =>
      obtain rfl := Option.some.inj hc
      simp only [World.resumed, hq, Option.bind_some, hne o rfl] at hT
      cases hT
    | alloc | readCb | read2Cb | udpRecvCb | timerCb | exitCb | connectionCb => cases hc

/-- The collector does not take the caller. -/
theorem alive_kept : (s.exec a).collected q.caller = false := by
  have hheld := hs.held r q hq hr
  rcases World.exec_collected hg q.caller with hsame | rfl
  · exact hsame.trans hheld.alive
  · exfalso
    -- the collector takes no coroutine that is in the registry
    obtain ⟨-, -, -, -, -, hkeys, hreqs⟩ := hg
    rcases hf r (World.flight_of_waits hheld.waits hq hr) q hq with hh | ⟨h, hh, x, hx, hent⟩
    · exact hreqs r (s.reqs.lt_next hq) (hheld.key hh)
    · obtain ⟨y, hy, hknown, -⟩ := hs.life.pending r q h hq hh
      obtain rfl := Option.some.inj (hy.symm.trans hx)
      exact hkeys h (s.handles.lt_next hx) (((hs.keys.keys h y hx hknown).1).trans hent)

/-- Nothing takes the values that a waiting caller has on its stack. -/
theorem backs_kept {rg : Range} {i : Item} (hi : i ∈ q.owners)
    (hb : s.Backs i rg) : (s.exec a).Backs i rg := by
  have hheld := hs.held r q hq hr
  have hnot : a.collects ≠ some i := by
    have hstack : ∀ j, s.NotHeld j → j ≠ i := by
      rintro j hj rfl
      exact (Store.all_iff _).mp hj r q hq ⟨hheld.waits, hheld.alive, hheld.owners _ hi⟩
    intro hc
    cases a with
    | lua | handle | call | heap | event => cases hc
    | gc g =>
      cases g with
      | thread | handle => cases hc
      | buffer b => exact hstack _ hg.2 (Option.some.inj hc)
      | string sid => exact hstack _ hg (Option.some.inj hc)
  exact World.backs_exec hg hb hnot

/-- A request that stays pending is held as before. -/
theorem held_kept (hne : ∀ o, a = .event (.complete r o) → q.kind = .sleep) :
    (s.exec a).Held r q := by
  have hheld := hs.held r q hq hr
  refine ⟨hs.waits_kept hg hf hq hr hne, hs.alive_kept hg hf hq hr, ?_, ?_, ?_⟩
  · intro hh
    rcases World.exec_reqThread hg (s.reqs.lt_next hq).ne with hsame | ⟨o, he⟩
    · exact hsame.trans (hheld.key hh)
    · have hk := hne o he
      subst he
      rcases World.complete_cases hq o with ⟨-, he⟩ | ⟨hk', -⟩ | ⟨hk', -⟩
      · rw [show s.exec (.event (.complete r o)) = s.sleepCb r from he]
        exact hheld.key hh
      · rw [hk] at hk'
        cases hk'
      · exact absurd hk hk'
  · intro i hi
    refine World.exec_argItems hg (hheld.owners i hi) ?_
    rintro t items rfl harg
    exact (Store.all_iff _).mp hf r q hq harg i hi
  · intro rg hrg
    obtain ⟨i, hi, hb⟩ := hheld.ranges rg hrg
    exact ⟨i, hi, hs.backs_kept hg hf hq hr hi hb⟩

end

/-- A request that a call leaves is held. -/
theorem held_new {boundary : Bool} {c : Call} {L : ℕ} {req : Req}
    (hg : s.guard (.call boundary c)) (hf : FlightStep s (.call boundary c))
    (hL : s.current = some L)
    (hreq : (s.exec (.call boundary c)).reqs.get s.reqs.next = some req)
    (hleave : s.Leaves L c req)
    (hst : s.CanYield boundary → (s.exec (.call boundary c)).status L =
      some (.suspended (.req s.reqs.next)))
    (hr : req.ranges ≠ []) : (s.exec (.call boundary c)).Held s.reqs.next req := by
  have hmem := hleave.memory.call hr
  have hsub : s.submits L c = true := by
    rcases hleave.submits with h | ⟨-, -, h, rfl⟩
    · exact h
    · cases hmem
  -- the condition says that the call can yield and that its coroutine is alive
  obtain ⟨hyield, halive⟩ := hf L hL hmem hsub
  obtain ⟨howners, hranges⟩ := World.backs_of_lends hs.blocks.refs hleave.memory
  have hexec : s.exec (.call boundary c) = s.execCall boundary L c := by
    simp only [World.exec, hL, Option.getD_some]
  refine ⟨?_, ?_, ?_, ?_, ?_⟩
  · rw [hleave.caller]
    exact hst hyield
  · rw [hleave.caller]
    rcases World.exec_collected hg L with hsame | he
    · exact hsame.trans halive
    · cases he
  · intro hh
    rw [hleave.caller, hexec]
    rw [hexec] at hreq
    exact World.call_reqThread hg.2 (hleave.handle.symm.trans hh) hreq
  · intro i hi
    exact World.exec_argItems hg (howners i hi) (fun _ _ he => Action.noConfusion he)
  · intro rg hrg
    obtain ⟨i, hi, hb⟩ := hranges rg hrg
    have hnot : (Action.call boundary c).collects ≠ some i := (Option.some_ne_none i).symm
    exact ⟨i, hi, World.backs_exec hg hb hnot⟩

theorem exec (hg : s.guard a) (halloc : AllocStep s a) (hf : FlightStep s a) :
    FlightOk (s.exec a) := by
  refine ⟨hs.blocks.exec hg halloc, hs.keys.exec hg, hs.life.exec hg, ?_⟩
  intro r q' hq' hr
  rcases World.req_before hs.blocks.stack hg hq' with
    ⟨q, hq, hlater⟩ | ⟨rfl, boundary, c, L, rfl, hL, hleave, hst⟩
  · obtain ⟨harg, howners, hranges⟩ := hlater.memory
    have hheld : (s.exec a).Held r q := by
      refine hs.held_kept hg hf hq (hranges ▸ hr) ?_
      rintro o rfl
      rcases World.complete_reqs hq o with ⟨hk, -⟩ | ⟨-, he⟩
      · exact hk
      -- the callback of any other request ends it
      rw [show (s.exec (.event (.complete r o))).reqs = _ from he, Store.free_get_self] at hq'
      cases hq'
    constructor
    · exact hlater.caller ▸ hheld.waits
    · exact hlater.caller ▸ hheld.alive
    · rw [hlater.handle, hlater.caller]
      exact hheld.key
    · rw [harg, howners]
      exact hheld.owners
    · rw [hranges, howners]
      exact hheld.ranges
  · exact hs.held_new hg hf hL hq' hleave hst hr

end FlightOk

/-- In every run whose steps meet the condition, the memory of every request that has been
accepted is allocated until its callback has run. -/
theorem in_flight_allocated {as : List Action} (he : couv.Enabled .init as)
    (halloc : couv.Along AllocStep .init as) (hf : couv.Along FlightStep .init as) :
    InFlight (couv.run .init as) := by
  have hend : FlightOk (couv.run .init as) :=
    Machine.run_invariant (fun _ _ hs hp => hs.exec hp.1 hp.2.1 hp.2.2) flightOk_init
      (Machine.along_and.mpr ⟨he, Machine.along_and.mpr ⟨halloc, hf⟩⟩)
  exact hend.inFlight

/-- A coroutine writes a string to a handle that it also reads. -/
def stringWrite : List Action := [.heap (.newString [104, 105]), .heap (.newTable [.str 0]),
  .lua .create, .lua (.resume 1 []), .handle (.tcpNew true), .handle (.readStart .read 0 true),
  .call false (.write 0 0 true), .lua .uvRun]

theorem in_flight_allocated_write : (couv.run .init stringWrite).Allocated (.str 0) :=
  in_flight_allocated (show couv.Enabled .init stringWrite by decide)
    (show couv.Along AllocStep .init stringWrite by decide)
    (show couv.Along FlightStep .init stringWrite by decide) 0 _ rfl (.str 0)
    List.mem_cons_self

/-- Input wakes the writer before write_cb, and the string is collected. -/
theorem input_frees_flight : ¬∀ as : List Action, couv.Enabled .init as →
    couv.Along AllocStep .init as → InFlight (couv.run .init as) := by
  intro hall
  have hstr : (couv.run .init (stringWrite ++ [.event (.readCb 0 (-1) none 0 []),
      .gc (.string 0)])).Allocated (.str 0) :=
    hall _ (by decide) (by decide) 0 _ rfl (.str 0) List.mem_cons_self
  cases hstr

end Couv
