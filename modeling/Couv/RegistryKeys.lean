import Couv.Lifecycle

/-! What the registry holds for a handle that the loop knows, in every reachable state. -/
namespace Couv

/-- What the constructor leaves under the thread key. -/
def Handle.threadEntry (x : Handle) : Option RegVal :=
  if x.type ∈ [.tcp, .udp, .pipe] ∨ (x.type = .tty ∧ x.creator ≠ mainThread) then
    some (.thread x.creator)
  else none

/-- What the constructor, or timer_start for a timer, leaves under the userdata key. -/
def Handle.userdataEntry (h : ℕ) (x : Handle) : Option RegVal :=
  if x.type = .timer ∧ x.started = false then none else some (.userdata h)

structure KeysOk (hs : Store Handle) (reg : RegKey → Option RegVal) : Prop where
  keys : ∀ h x, hs.get h = some x → x.Known →
    reg (.thread h) = x.threadEntry ∧ reg (.userdata h) = x.userdataEntry h
  fresh : ∀ h, hs.next ≤ h → reg (.thread h) = none ∧ reg (.userdata h) = none
  collected : ∀ h x, hs.get h = some x → x.Known → x.collected = true →
    x.type = .timer ∧ x.started = false

/-- The registry agrees with the handles. -/
def World.KeysOk (s : World) : Prop := Couv.KeysOk s.handles s.registry

theorem keysOk_init : World.init.KeysOk where
  keys _ _ h := nomatch h
  fresh _ _ := ⟨rfl, rfl⟩
  collected _ _ h := nomatch h

theorem passive_keysOk : Passive World.KeysOk :=
  ⟨⟨fun _ _ _ => rfl, fun _ => rfl, fun _ _ => rfl, fun _ _ => rfl⟩, fun _ _ _ _ _ _ => rfl⟩

/-- A key that is not a thread or userdata key of a handle. -/
def RegKey.Other (k : RegKey) : Prop := ∀ h, k ≠ .thread h ∧ k ≠ .userdata h

theorem other_callback (h : ℕ) : RegKey.Other (.callback h) :=
  fun _ => ⟨RegKey.noConfusion, RegKey.noConfusion⟩

theorem other_reqThread (r : ℕ) : RegKey.Other (.reqThread r) :=
  fun _ => ⟨RegKey.noConfusion, RegKey.noConfusion⟩

namespace World.KeysOk
variable {s : World} (hs : s.KeysOk)
include hs

/-- Setting a key to what belongs there. -/
theorem rawsetp {k : RegKey} {v : Option RegVal}
    (hk : ∀ h x, s.handles.get h = some x → x.Known →
      (k = .thread h → v = x.threadEntry) ∧ (k = .userdata h → v = x.userdataEntry h))
    (hf : ∀ h, s.handles.next ≤ h → k = .thread h ∨ k = .userdata h → v = none) :
    (s.couvRawsetp k v).KeysOk := by
  refine ⟨?_, ?_, hs.collected⟩
  · intro h x hx hkn
    obtain ⟨h1, h2⟩ := hs.keys h x hx hkn
    constructor
    · rw [couvRawsetp_registry]
      split
      · next he => exact (hk h x hx hkn).1 he.symm
      · exact h1
    · rw [couvRawsetp_registry]
      split
      · next he => exact (hk h x hx hkn).2 he.symm
      · exact h2
  · intro h hh
    obtain ⟨h1, h2⟩ := hs.fresh h hh
    constructor
    · rw [couvRawsetp_registry]
      split
      · next he => exact hf h hh (.inl he.symm)
      · exact h1
    · rw [couvRawsetp_registry]
      split
      · next he => exact hf h hh (.inr he.symm)
      · exact h2

theorem rawsetp_other {k : RegKey} (hk : k.Other) (v : Option RegVal) :
    (s.couvRawsetp k v).KeysOk :=
  hs.rawsetp (fun h _ _ _ => ⟨fun he => absurd he (hk h).1, fun he => absurd he (hk h).2⟩)
    (fun h _ he => he.elim (fun he => absurd he (hk h).1) (fun he => absurd he (hk h).2))

/-- Clearing keys of a handle that is closed. -/
theorem cleared {h : ℕ} (hc : ∀ x, s.handles.get h = some x → ¬x.Known)
    {reg : RegKey → Option RegVal} (hreg : ∀ k, reg k = s.registry k ∨
      reg k = none ∧ (k = .userdata h ∨ k = .thread h ∨ k = .callback h)) :
    { s with registry := reg }.KeysOk := by
  have hkeep : ∀ k, k ≠ .userdata h → k ≠ .thread h → k ≠ .callback h →
      reg k = s.registry k := by
    intro k h1 h2 h3
    exact (hreg k).resolve_right (fun hk => hk.2.elim h1 (fun hk => hk.elim h2 h3))
  refine ⟨?_, ?_, hs.collected⟩
  · intro k x hx hk
    have hne : k ≠ h := fun he => hc x (he ▸ hx) hk
    change reg _ = _ ∧ reg _ = _
    rw [hkeep (.thread k) (by simp) (by simpa using hne) (by simp),
      hkeep (.userdata k) (by simpa using hne) (by simp) (by simp)]
    exact hs.keys k x hx hk
  · intro k hle
    have hf := hs.fresh k hle
    exact ⟨(hreg _).elim (fun h => h.trans hf.1) (fun h => h.1),
      (hreg _).elim (fun h => h.trans hf.2) (fun h => h.1)⟩

/-- An update of a handle that keeps its class, its maker and whether it was started, and
does not make it known. -/
theorem modifyHandle (h : ℕ) {f : Handle → Handle} (hf : ∀ x, (f x).Known → x.Known ∧
      (f x).type = x.type ∧ (f x).creator = x.creator ∧ (f x).started = x.started)
    (hc : ∀ x, s.handles.get h = some x → x.Known → (f x).collected = true →
      x.collected = true ∨ x.type = .timer ∧ x.started = false) :
    (s.modifyHandle h f).KeysOk := by
  have hold : ∀ k y, (s.modifyHandle h f).handles.get k = some y → y.Known →
      ∃ x, s.handles.get k = some x ∧ x.Known ∧ y.type = x.type ∧ y.creator = x.creator ∧
        y.started = x.started ∧
        (y.collected = true → x.collected = true ∨ x.type = .timer ∧ x.started = false) := by
    intro k y hy hky
    rcases s.handles.modify_eq_some.mp hy with ⟨rfl, x, hx, rfl⟩ | ⟨-, hy⟩
    · obtain ⟨h1, h2, h3, h4⟩ := hf x hky
      exact ⟨x, hx, h1, h2, h3, h4, hc x hx h1⟩
    · exact ⟨y, hy, hky, rfl, rfl, rfl, .inl⟩
  -- the entries depend on type, creator and started, which stay
  refine ⟨?_, hs.fresh, ?_⟩
  · intro k y hy hky
    obtain ⟨x, hx, hkx, h1, h2, h3, -⟩ := hold k y hy hky
    have hkeys := hs.keys k x hx hkx
    simpa only [modifyHandle_registry, Handle.threadEntry, Handle.userdataEntry, h1, h2, h3]
      using hkeys
  · intro k y hy hky hcol
    obtain ⟨x, hx, hkx, h1, -, h3, h4⟩ := hold k y hy hky
    rw [h1, h3]
    exact (h4 hcol).elim (hs.collected k x hx hkx) id

/-- A new handle: nothing else changes but its own keys. -/
theorem alloc {t : World} {x : Handle} (hh : t.handles = s.handles.alloc x)
    (hreg : ∀ h, h ≠ s.handles.next → t.registry (.thread h) = s.registry (.thread h) ∧
      t.registry (.userdata h) = s.registry (.userdata h))
    (hx : x.Known → x.collected = false ∧
      t.registry (.thread s.handles.next) = x.threadEntry ∧
      t.registry (.userdata s.handles.next) = x.userdataEntry s.handles.next) : t.KeysOk := by
  have hcase : ∀ h y, t.handles.get h = some y →
      (h = s.handles.next ∧ y = x) ∨ (h ≠ s.handles.next ∧ s.handles.get h = some y) := by
    intro h y hy
    exact s.handles.alloc_eq_some.mp (hh ▸ hy)
  refine ⟨?_, ?_, ?_⟩
  · intro h y hy hk
    rcases hcase h y hy with ⟨rfl, rfl⟩ | ⟨hne, hy⟩
    · exact (hx hk).2
    · rw [(hreg h hne).1, (hreg h hne).2]
      exact hs.keys h y hy hk
  · intro h hle
    rw [hh, Store.alloc_next] at hle
    rw [(hreg h (by omega)).1, (hreg h (by omega)).2]
    exact hs.fresh h (by omega)
  · intro h y hy hk hc
    rcases hcase h y hy with ⟨rfl, rfl⟩ | ⟨hne, hy⟩
    · rw [(hx hk).1] at hc
      cases hc
    · exact hs.collected h y hy hk hc

/-! The constructors. -/

/-- tcp_new, udp_new, pipe_new and tty_new, once the thread key `v` is set. -/
theorem initStream {type : HandleType} {L : ℕ} {v : Option RegVal} (ok : Bool)
    (hv : v = (⟨type, L, L, true, false, false, none, false, false, false, false⟩ :
      Handle).threadEntry) (ht : type ≠ .timer) :
    (((s.newHandle type L).couvRawsetp (.thread s.handles.next) v).initStream s.handles.next L
      ok).KeysOk := by
  cases ok with
  | false =>
    refine hs.alloc rfl ?_ (fun hk => by cases hk.1)
    intro h hne
    constructor <;> simp [World.initStream, hne]
  | true =>
    refine hs.alloc (Store.alloc_modify _ _ _) ?_ ?_
    · intro h hne
      constructor <;> simp [World.initStream, couvUserdataRegKey, hne]
    · intro _
      refine ⟨rfl, ?_, ?_⟩
      · simpa [World.initStream, couvUserdataRegKey] using hv
      · simp [World.initStream, couvUserdataRegKey, Handle.userdataEntry, ht]

theorem newInCoroutine {type : HandleType} (ht : type ∈ [.tcp, .udp, .pipe]) (L : ℕ)
    (ok : Bool) : (s.newInCoroutine type L ok).KeysOk := by
  simp only [World.newInCoroutine]
  split
  · exact hs.alloc rfl (fun _ _ => ⟨rfl, rfl⟩) (fun hk => by cases hk.1)
  · refine hs.initStream ok ?_ ?_
    · simp only [Handle.threadEntry]
      rw [if_pos (.inl ht)]
    · rintro rfl
      simp at ht

theorem ttyNew (L : ℕ) (ok : Bool) : (s.ttyNew L ok).KeysOk := by
  simp only [World.ttyNew]
  split
  · next hL =>
    -- in the main thread the key of the new handle is not set and was not set before
    have hset : s.newHandle .tty L =
        (s.newHandle .tty L).couvRawsetp (.thread s.handles.next) none := by
      have hreg : (s.newHandle .tty L).registry =
          ((s.newHandle .tty L).couvRawsetp (.thread s.handles.next) none).registry := by
        funext k
        rw [couvRawsetp_registry]
        split
        · next hk => rw [hk]; exact (hs.fresh _ le_rfl).1
        · rfl
      exact congrArg (fun reg => { s.newHandle .tty L with registry := reg }) hreg
    rw [hset]
    exact hs.initStream ok (by simp [Handle.threadEntry, hL]) (by simp)
  · next hL => exact hs.initStream ok (by simp [Handle.threadEntry, hL]) (by simp)

theorem couvTimerCreate (L : ℕ) (ok : Bool) : (s.couvTimerCreate L ok).KeysOk := by
  simp only [World.couvTimerCreate]
  have hfresh := hs.fresh s.handles.next le_rfl
  split
  · refine hs.alloc (Store.alloc_modify _ _ _) (fun _ _ => ⟨rfl, rfl⟩) (fun _ => ⟨rfl, ?_, ?_⟩)
    · exact hfresh.1
    · exact hfresh.2
  · exact hs.alloc rfl (fun _ _ => ⟨rfl, rfl⟩) (fun hk => by cases hk.1)

theorem couvProcessSpawn (L f : ℕ) (r : CallResult) : (s.couvProcessSpawn L f r).KeysOk := by
  have hfresh := hs.fresh s.handles.next le_rfl
  cases r with
  | argError => exact hs.alloc rfl (fun _ _ => ⟨rfl, rfl⟩) (fun hk => by cases hk.1)
  | uvError => exact hs.alloc rfl (fun _ _ => ⟨rfl, rfl⟩) (fun hk => by cases hk.1)
  | ok =>
    refine hs.alloc ((congrArg (fun hs => Store.modify hs _ _) (Store.alloc_modify _ _ _)).trans
      (Store.alloc_modify _ _ _)) ?_ (fun _ => ⟨rfl, hfresh.1, if_pos rfl⟩)
    intro h hne
    exact ⟨rfl, if_neg (by simpa [couvUserdataRegKey] using hne)⟩

/-! The other methods of handles. -/

/-- An update of fields that the keys do not depend on. -/
theorem touch (h : ℕ) {f : Handle → Handle}
    (hf : ∀ x, (f x).linked = x.linked ∧ (f x).closed = x.closed ∧ (f x).type = x.type ∧
      (f x).creator = x.creator ∧ (f x).started = x.started ∧ (f x).collected = x.collected) :
    (s.modifyHandle h f).KeysOk := by
  refine hs.modifyHandle h ?_ ?_
  · rintro x ⟨h1, h2⟩
    obtain ⟨g1, g2, g3, g4, g5, -⟩ := hf x
    exact ⟨⟨g1.symm.trans h1, g2.symm.trans h2⟩, g3, g4, g5⟩
  · intro x _ _ hc
    exact .inl ((hf x).2.2.2.2.2.symm.trans hc)

theorem couvListen {h f : ℕ} {ok : Bool} (hh : s.Has h streamTypes ok) :
    (s.couvListen h f ok).KeysOk := by
  have hcb := hs.rawsetp_other (other_callback h) (some (.func f))
  have harm : ((s.couvRawsetp (couvListenCbRegKey h) (some (.func f))).modifyHandle h
      (fun x => { x with armed := true })).KeysOk :=
    hcb.touch h (fun _ => ⟨rfl, rfl, rfl, rfl, rfl, rfl⟩)
  obtain ⟨y, hy, -, -, hty, -⟩ := hh
  simp only [World.couvListen]
  split
  · refine harm.rawsetp ?_ ?_
    · intro k x hx hkn
      refine ⟨fun he => (nomatch he), fun he => ?_⟩
      obtain rfl := RegKey.userdata.inj he
      -- the handle is a stream, for which the key is set already
      have hxy : x = { y with armed := true } := by
        rw [modifyHandle_handles, couvRawsetp_handles, Store.modify_get_self _ _ hy] at hx
        exact (Option.some.inj hx).symm
      have hne : y.type ≠ .timer := by
        intro he
        simp [he, streamTypes] at hty
      simp [hxy, Handle.userdataEntry, hne]
    · intro k hle he
      rcases he with he | he
      · cases he
      · obtain rfl := RegKey.userdata.inj he
        have hlt := s.handles.lt_next hy
        exact absurd (hle.trans_lt hlt) (lt_irrefl _)
  · exact hcb

theorem timerStart {h f : ℕ} {rep : Bool} {r : CallResult}
    (hh : s.Has h [.timer] (r != .argError)) : (s.timerStart h f rep r).KeysOk := by
  have hcb := hs.rawsetp_other (other_callback h) (some (.func f))
  obtain ⟨y, hy, -, hcol, -, -⟩ := hh
  cases r with
  | argError => exact hcb
  | uvError => exact hcb
  | ok =>
    -- the call armed this handle and no other
    have hcase : ∀ k x, (s.timerStart h f rep .ok).handles.get k = some x →
        (k = h ∧ x = { y with armed := true, rep := rep, started := true }) ∨
          (k ≠ h ∧ s.handles.get k = some x) := by
      intro k x hx
      rcases s.handles.modify_eq_some.mp hx with ⟨hk, z, hz, rfl⟩ | hx
      · obtain rfl := Option.some.inj (hy.symm.trans hz)
        exact .inl ⟨hk, rfl⟩
      · exact .inr hx
    refine ⟨?_, ?_, ?_⟩
    · intro k x hx hk
      rcases hcase k x hx with ⟨rfl, rfl⟩ | ⟨hne, hx⟩
      · refine ⟨(hs.keys k y hy hk).1, ?_⟩
        simp [World.timerStart, couvUserdataRegKey, Handle.userdataEntry]
      · have hkeys := hs.keys k x hx hk
        simpa [World.timerStart, couvUserdataRegKey, couvTimerCbRegKey, hne] using hkeys
    · intro k hle
      have hlt := s.handles.lt_next hy
      have hne : k ≠ h := (hlt.trans_le hle).ne'
      simpa [World.timerStart, couvUserdataRegKey, couvTimerCbRegKey, hne] using hs.fresh k hle
    · intro k x hx hk hc
      rcases hcase k x hx with ⟨rfl, rfl⟩ | ⟨hne, hx⟩
      · exact Bool.noConfusion (hcol.symm.trans hc)
      · exact hs.collected k x hx hk hc

theorem execHandle {L : ℕ} {a : HandleAct} (hg : s.guardHandle a) :
    (s.execHandle L a).KeysOk := by
  cases a with
  | tcpNew ok => exact hs.newInCoroutine (by simp) L ok
  | udpNew ok => exact hs.newInCoroutine (by simp) L ok
  | pipeNew ok => exact hs.newInCoroutine (by simp) L ok
  | ttyNew ok => exact hs.ttyNew L ok
  | timerNew ok => exact hs.couvTimerCreate L ok
  | spawn f r => exact hs.couvProcessSpawn L f r
  | tcpOpen h ok =>
    cases ok with
    | false => exact hs
    | true => exact hs.touch h (fun _ => ⟨rfl, rfl, rfl, rfl, rfl, rfl⟩)
  | listen h f ok => exact hs.couvListen hg
  | timerStart h f rep r => exact hs.timerStart hg
  | timerStop h => exact hs.touch h (fun _ => ⟨rfl, rfl, rfl, rfl, rfl, rfl⟩)
  | timerAgain h => exact hs.touch h (fun _ => ⟨rfl, rfl, rfl, rfl, rfl, rfl⟩)
  | timerSetRepeat h rep => exact hs.touch h (fun _ => ⟨rfl, rfl, rfl, rfl, rfl, rfl⟩)
  | readStart m h ok =>
    cases ok with
    | false => exact hs
    | true => exact hs.touch h (fun _ => ⟨rfl, rfl, rfl, rfl, rfl, rfl⟩)
  | readStop h => exact hs.touch h (fun _ => ⟨rfl, rfl, rfl, rfl, rfl, rfl⟩)

theorem submit (boundary : Bool) (req : Req) : (s.submit boundary req).KeysOk :=
  (passive_keysOk.luaYield _ boundary _).mpr hs

theorem couvClose (boundary : Bool) (h L : ℕ) : (s.couvClose boundary h L).KeysOk := by
  have hclose : (s.modifyHandle h
      (fun x => { x with closing := true, armed := false, reading := none })).KeysOk :=
    hs.touch h (fun _ => ⟨rfl, rfl, rfl, rfl, rfl, rfl⟩)
  simp only [World.couvClose]
  split
  · exact hclose
  · exact hclose.submit boundary _

theorem execCall (boundary : Bool) (L : ℕ) {c : Call} (hg : s.guardCall c) :
    (s.execCall boundary L c).KeysOk := by
  have hset := hs.rawsetp_other (other_reqThread s.reqs.next) (some (.thread L))
  rcases (World.execCall_spec boundary L hg).cases with
    ⟨m, h, -, hr⟩ | ⟨h, -, hr⟩ | hr | ⟨req, hr⟩ | ⟨t, req, ha, hr⟩
  · rw [hr, passive_keysOk.couvPrimRead]
    exact hs
  · rw [hr]
    exact hs.couvClose boundary h L
  · rw [hr]
    exact hs
  · rw [hr]
    exact hset
  · rw [hr]
    rcases ha.state with ⟨rfl, -⟩ | ⟨rfl, -⟩
    · exact hs.submit boundary req
    · exact hset.submit boundary req

/-- close_cb: the handle is closed when its keys are cleared. -/
theorem closeCb (h r : ℕ) : (s.closeCb h r).KeysOk := by
  have hclosed : (s.modifyHandle h (fun x => { x with closed := true })).KeysOk := by
    refine hs.modifyHandle h (fun x hx => ?_) (fun x _ _ hc => .inl hc)
    exact Bool.noConfusion hx.2
  have hnot : ∀ x, (s.modifyHandle h (fun x => { x with closed := true })).handles.get h =
      some x → ¬x.Known := by
    intro x hx hk
    rcases s.handles.modify_eq_some.mp hx with ⟨-, y, -, rfl⟩ | ⟨hne, -⟩
    · exact Bool.noConfusion hk.2
    · exact hne rfl
  obtain ⟨reg, hreg, ⟨-, he⟩ | ⟨-, he⟩⟩ := World.closeCb_cases (s := s) h r
  · rw [he]
    exact hclosed.cleared hnot hreg
  · rw [he, passive_keysOk.couvResume]
    exact hclosed.cleared hnot hreg

theorem complete (r : ℕ) (o : Outcome) : (s.complete r o).KeysOk := by
  cases hr : s.reqs.get r with
  | none => simpa only [World.complete, hr] using hs
  | some req =>
    rcases World.complete_cases hr o with ⟨-, he⟩ | ⟨-, he⟩ | ⟨-, -, t, ht, he⟩
    · rw [he]
      exact hs
    · rw [he]
      exact hs.closeCb _ r
    · rw [he, passive_keysOk.couvResume]
      rcases ht with rfl | rfl
      · exact hs
      · exact hs.rawsetp_other (other_reqThread r) none

theorem execEvent (e : Event) : (s.execEvent e).KeysOk := by
  have hcb : ∀ node rd, (s.inputCb node rd).KeysOk := fun node rd =>
    (passive_keysOk.inputCb s (fun _ _ => rfl) (fun _ _ => rfl) node rd).mpr hs
  have hpush : ∀ {t : World} (f : Frame), t.KeysOk → (t.push f).KeysOk := fun f ht =>
    (passive_keysOk.push _ f).mpr ht
  cases e with
  | alloc h n env =>
    exact (World.couvBufAllocCb_proj (f := World.KeysOk) (fun _ _ => rfl) (fun _ _ => rfl)
      s h n env).mpr hs
  | readCb h nread rd behind junk => exact hcb _ rd
  | read2Cb h nread rd pending junk => exact hcb _ rd
  | udpRecvCb h nread rd behind junk addr => exact hcb _ rd
  | complete r o => exact hs.complete r o
  | timerCb h => exact hpush _ (hs.touch h (fun _ => ⟨rfl, rfl, rfl, rfl, rfl, rfl⟩))
  | exitCb h => exact hpush _ (hs.touch h (fun _ => ⟨rfl, rfl, rfl, rfl, rfl, rfl⟩))
  | connectionCb h => exact hpush _ hs

theorem execGc {g : Gc} (hg : s.guardGc g) : (s.execGc g).KeysOk := by
  cases g with
  | thread T => exact hs
  | handle h =>
    refine hs.modifyHandle h (fun x hx => ⟨hx, rfl, rfl, rfl⟩) ?_
    intro x hx hk _
    right
    -- the collector takes what has no entry in the registry
    have hkey := (hs.keys h x hx hk).2
    by_contra hc
    rw [Handle.userdataEntry, if_neg hc] at hkey
    exact hg.2 hkey
  | buffer b =>
    exact (World.collectBuffer_proj (f := World.KeysOk) (fun _ _ => rfl) s b).mpr hs
  | string sid => exact hs

/-- Every step keeps the registry in agreement with the handles. -/
theorem exec {a : Action} (hg : s.guard a) : (s.exec a).KeysOk := by
  cases a with
  | lua a => exact (passive_keysOk.execLua s _ a).mpr hs
  | handle a => exact hs.execHandle hg.2
  | call boundary c => exact hs.execCall boundary _ hg.2
  | heap a =>
    exact (World.execHeap_proj (f := World.KeysOk) (fun _ _ => rfl) (fun _ _ => rfl)
      (fun _ _ => rfl) s a).mpr hs
  | event e => exact hs.execEvent e
  | gc g => exact hs.execGc hg

end World.KeysOk

/-- The registry agrees with the handles in every reachable state. -/
theorem run_keysOk {as : List Action} (h : couv.Enabled .init as) :
    (couv.run .init as).KeysOk :=
  Machine.run_invariant (fun _ _ hs hg => hs.exec hg) keysOk_init h

end Couv
