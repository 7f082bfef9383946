import Couv.World

/-! lua_yield, lua_resume, and the reading methods with the loops of couv.lua around them. -/
namespace Couv
namespace World

variable (s : World)

/-- The coroutine `L` runs on top of what runs now. -/
def start (L : ℕ) : World := (s.setStatus L .running).push (.thread L)

/-- The running coroutine `L` waits. -/
def suspend (L : ℕ) (w : Wait) : World := (s.setStatus L (.suspended w)).pop

/-- `lua_yield`. It raises in the main thread, in a callback that lua_call runs, and when
`boundary` says that another C call (pcall, a metamethod) lies between. -/
def luaYield (boundary : Bool) (w : Wait) : World :=
  match s.frames with
  | .thread L :: _ => if L = mainThread ∨ boundary = true then s else s.suspend L w
  -- a Lua function under lua_call, or no Lua code at all
  | _ => s

end World

/-- What `_read`, `_read2` and `_recv` push for a node, `b` being the new Buffer. -/
def InputNode.values (node : InputNode) (m : InputMode) (b : ℕ) : List Value :=
  match m with
  | .read => [.number node.nread, .buffer b]
  | .read2 => [.number node.nread, .buffer b, .number node.pending]
  | .recv => [.number node.nread, .buffer b, .sockaddr (couvLPushsockaddrv4 node.storage)]

namespace World

variable (s : World)

/-- Unlink the node `n`, the head of the queue of `h`, and return its data to `L`. The new
userdata takes over `w_buf` as it is; the node is not freed. -/
def deliver (L : ℕ) (m : InputMode) (h n : ℕ) (node : InputNode) : World :=
  { s with
    input := { s.input with
      links := ngxQueueRemove s.input.links (.node n)
      unlinked := fun k => if k = h then s.input.unlinked h ++ [n] else s.input.unlinked k }
    mem := { s.mem with bufs := s.mem.bufs.alloc node.wBuf }
    returns := ⟨L, .input m h, .node n, node.values m s.mem.bufs.next⟩ :: s.returns }

/-- `couv_prim_read`, `couv_prim_read2` and `udp_prim_recv`, called by `L`. -/
def couvPrimRead (boundary : Bool) (L : ℕ) (m : InputMode) (h : ℕ) : World :=
  if ngxQueueEmpty s.input.links (.root h) then s.luaYield boundary (.input m h)
  else
    -- `ngx_queue_head`, read as a node because the queue is not empty
    match ngxQueueHead s.input.links (.root h) with
    | .root _ => s
    | .node n =>
      match s.input.nodes.get n with
      | none => s
      | some node => s.deliver L m h n node

/-- `lua_resume(L, nargs)`. On a coroutine that neither waits nor can be called it only
leaves an error message on the stack of `L`. -/
def couvResume (L : ℕ) (src : Source) (args : List Value) : World :=
  match s.status L with
  | some (.suspended (.input m h)) =>
    -- the loop of couv.lua calls _read again until its first value is true
    if (args.headD .nil).truthy then (s.start L).log ⟨L, .input m h, src, args⟩
    else (s.start L).couvPrimRead false L m h
  | some (.suspended w) => (s.start L).log ⟨L, w, src, args⟩
  | some .fresh | some (.finished true) => s.start L
  | _ => s

/-! What these can do. -/

section
variable {s}

/-- A yield raises and changes nothing, or suspends the coroutine on top. -/
theorem luaYield_cases (boundary : Bool) (w : Wait) :
    s.luaYield boundary w = s ∨
      ∃ L, s.frames.head? = some (.thread L) ∧ L ≠ mainThread ∧ boundary = false ∧
        s.luaYield boundary w = s.suspend L w := by
  unfold luaYield
  split
  · next L rest hf =>
    by_cases hL : L = mainThread ∨ boundary = true
    · left
      rw [if_pos hL]
    · right
      rw [if_neg hL]
      rw [not_or] at hL
      exact ⟨L, by rw [hf]; rfl, hL.1, by simpa using hL.2, rfl⟩
  · left
    rfl

/-- A read finds the queue empty and yields, or delivers its head. The last case needs a
queue that is not well formed. -/
theorem couvPrimRead_cases (boundary : Bool) (L : ℕ) (m : InputMode) (h : ℕ) :
    (ngxQueueEmpty s.input.links (.root h) = true ∧
      s.couvPrimRead boundary L m h = s.luaYield boundary (.input m h)) ∨
    (∃ n node, ngxQueueEmpty s.input.links (.root h) = false ∧
      ngxQueueHead s.input.links (.root h) = .node n ∧ s.input.nodes.get n = some node ∧
      s.couvPrimRead boundary L m h = s.deliver L m h n node) ∨
    s.couvPrimRead boundary L m h = s := by
  unfold couvPrimRead
  split
  · next he => exact .inl ⟨he, rfl⟩
  · next he =>
    right
    split
    · exact .inr rfl
    · next n hn =>
      split
      · exact .inr rfl
      · next node hnode => exact .inl ⟨n, node, by simpa using he, hn, hnode, rfl⟩

/-- Starting a coroutine that waits and suspending it again in the same wait. -/
theorem suspend_start {L : ℕ} {w : Wait} (h : s.status L = some (.suspended w)) :
    (s.start L).suspend L w = s := by
  have hthreads : ((s.threads.modify L (fun t => { t with status := .running })).modify L
      (fun t => { t with status := .suspended w })) = s.threads := by
    refine Store.ext rfl ?_
    intro T
    rw [Store.modify_get, Store.modify_get]
    split
    · next hT =>
      subst hT
      rw [if_pos rfl]
      simp only [status, Option.map_eq_some_iff] at h
      obtain ⟨t, ht, hst⟩ := h
      rw [ht, ← hst]
      rfl
    · next hT => rw [Store.modify_get, if_neg hT]
  simp only [suspend, start, setStatus, push, pop, List.tail_cons, hthreads]

/-- What resuming a coroutine can do: nothing (also when its read finds the queue still
empty), start it, return `args` to it, or deliver a node to its read. -/
theorem couvResume_cases (L : ℕ) (src : Source) (args : List Value) :
    s.couvResume L src args = s ∨
    ((s.status L = some .fresh ∨ s.status L = some (.finished true) ∨
        ∃ m h, s.status L = some (.suspended (.input m h))) ∧
      s.couvResume L src args = s.start L) ∨
    (∃ w, s.status L = some (.suspended w) ∧
      (∀ m h, w = .input m h → (args.headD .nil).truthy = true) ∧
      s.couvResume L src args = (s.start L).log ⟨L, w, src, args⟩) ∨
    ∃ m h n node, s.status L = some (.suspended (.input m h)) ∧
      ngxQueueEmpty s.input.links (.root h) = false ∧
      ngxQueueHead s.input.links (.root h) = .node n ∧ s.input.nodes.get n = some node ∧
      s.couvResume L src args = (s.start L).deliver L m h n node := by
  unfold couvResume
  split
  · next m h hst =>
    split
    · next ht => exact .inr (.inr (.inl ⟨_, hst, fun _ _ _ => ht, rfl⟩))
    -- a nil resumes a read: it takes the first node or yields once more
    · rcases couvPrimRead_cases (s := s.start L) false L m h with
        ⟨he, hy⟩ | ⟨n, node, he, hh, hn, hd⟩ | hs
      · rcases luaYield_cases (s := s.start L) false (.input m h) with hr | ⟨T, hT, -, -, hr⟩
        · exact .inr (.inl ⟨.inr (.inr ⟨m, h, hst⟩), hy.trans hr⟩)
        · left
          obtain rfl : L = T := by simpa [start, push] using hT
          rw [hy, hr, suspend_start hst]
      · exact .inr (.inr (.inr ⟨m, h, n, node, hst, he, hh, hn, hd⟩))
      · exact .inr (.inl ⟨.inr (.inr ⟨m, h, hst⟩), hs⟩)
  · next w hw hst =>
    exact .inr (.inr (.inl ⟨w, hst, fun m h he => absurd he (hw m h), rfl⟩))
  · next hst => exact .inr (.inl ⟨.inl hst, rfl⟩)
  · next hst => exact .inr (.inl ⟨.inr (.inl hst), rfl⟩)
  · exact .inl rfl

/-! The C stack. -/

theorem luaYield_frames (boundary : Bool) (w : Wait) :
    (s.luaYield boundary w).frames = s.frames ∨
      (s.luaYield boundary w).frames = s.frames.tail := by
  rcases luaYield_cases (s := s) boundary w with h | ⟨L, -, -, -, h⟩
  · exact .inl (by rw [h])
  · exact .inr (by rw [h]; rfl)

theorem couvPrimRead_frames (boundary : Bool) (L : ℕ) (m : InputMode) (h : ℕ) :
    (s.couvPrimRead boundary L m h).frames = s.frames ∨
      (s.couvPrimRead boundary L m h).frames = s.frames.tail := by
  rcases couvPrimRead_cases (s := s) boundary L m h with ⟨-, hr⟩ | ⟨n, node, -, -, -, hr⟩ | hr
  · rw [hr]
    exact luaYield_frames boundary _
  · exact .inl (by rw [hr]; rfl)
  · exact .inl (by rw [hr])

theorem couvResume_frames (L : ℕ) (src : Source) (args : List Value) :
    (s.couvResume L src args).frames = s.frames ∨
      (s.couvResume L src args).frames = .thread L :: s.frames := by
  rcases couvResume_cases (s := s) L src args with
    hr | ⟨-, hr⟩ | ⟨w, -, -, hr⟩ | ⟨m, h, n, node, -, -, -, -, hr⟩
  · exact .inl (by rw [hr])
  all_goals exact .inr (by rw [hr]; rfl)

end

end World

/-- A part of the state that running and waiting do not touch. -/
structure Quiet {β : Type} (f : World → β) : Prop where
  setStatus : ∀ s L st, f (World.setStatus s L st) = f s
  create : ∀ s : World, f { s with threads := s.threads.alloc ⟨.fresh, false⟩ } = f s
  frames : ∀ s fr, f { s with frames := fr } = f s
  returns : ∀ s r, f { s with returns := r } = f s

namespace Quiet
variable {β : Type} {f : World → β} (hf : Quiet f) (s : World)
include hf

theorem push (fr : Frame) : f (s.push fr) = f s := hf.frames s _

theorem pop : f s.pop = f s := hf.frames s _

theorem log (r : Return) : f (s.log r) = f s := hf.returns s _

theorem start (L : ℕ) : f (s.start L) = f s := (hf.push _ _).trans (hf.setStatus s L _)

theorem suspend (L : ℕ) (w : Wait) : f (s.suspend L w) = f s :=
  (hf.pop _).trans (hf.setStatus s L _)

theorem luaYield (boundary : Bool) (w : Wait) : f (s.luaYield boundary w) = f s := by
  rcases World.luaYield_cases (s := s) boundary w with h | ⟨L, -, -, -, h⟩
  · rw [h]
  · rw [h, hf.suspend]

end Quiet

/-- Reading does not touch it either. -/
structure Passive {β : Type} (f : World → β) : Prop extends Quiet f where
  deliver : ∀ s L m h n node, f (World.deliver s L m h n node) = f s

namespace Passive
variable {β : Type} {f : World → β} (hf : Passive f) (s : World)
include hf

theorem couvPrimRead (boundary : Bool) (L : ℕ) (m : InputMode) (h : ℕ) :
    f (s.couvPrimRead boundary L m h) = f s := by
  rcases World.couvPrimRead_cases (s := s) boundary L m h with ⟨-, hr⟩ | ⟨n, node, -, -, -, hr⟩ | hr
  · rw [hr, hf.luaYield]
  · rw [hr, hf.deliver]
  · rw [hr]

theorem couvResume (L : ℕ) (src : Source) (args : List Value) :
    f (s.couvResume L src args) = f s := by
  rcases World.couvResume_cases (s := s) L src args with
    hr | ⟨-, hr⟩ | ⟨w, -, -, hr⟩ | ⟨m, h, n, node, -, -, -, -, hr⟩
  · rw [hr]
  · rw [hr, hf.start]
  · rw [hr, hf.log, hf.start]
  · rw [hr, hf.deliver, hf.start]

end Passive

theorem passive_collected : Passive World.collected where
  setStatus s L st := funext (s.collected_setStatus L st)
  create s := by
    funext T
    simp only [World.collected, Store.alloc_get]
    split
    · next h => rw [h, s.threads.fresh _ le_rfl]; rfl
    · rfl
  frames _ _ := rfl
  returns _ _ := rfl
  deliver _ _ _ _ _ _ := rfl

theorem passive_handles : Passive World.handles :=
  ⟨⟨fun _ _ _ => rfl, fun _ => rfl, fun _ _ => rfl, fun _ _ => rfl⟩, fun _ _ _ _ _ _ => rfl⟩

theorem passive_reqs : Passive World.reqs :=
  ⟨⟨fun _ _ _ => rfl, fun _ => rfl, fun _ _ => rfl, fun _ _ => rfl⟩, fun _ _ _ _ _ _ => rfl⟩

theorem passive_registry : Passive World.registry :=
  ⟨⟨fun _ _ _ => rfl, fun _ => rfl, fun _ _ => rfl, fun _ _ => rfl⟩, fun _ _ _ _ _ _ => rfl⟩

theorem passive_reads : Passive World.reads :=
  ⟨⟨fun _ _ _ => rfl, fun _ => rfl, fun _ _ => rfl, fun _ _ => rfl⟩, fun _ _ _ _ _ _ => rfl⟩

end Couv
