import Mathlib.Data.List.Basic

/-! Guarded deterministic machines. A run is a list of actions; what the
program or its environment may choose is in the action, what it may choose
next is in the guard. -/
namespace Couv

structure Machine (State Action : Type*) where
  guard : State → Action → Prop
  exec : State → Action → State

namespace Machine
variable {State Action : Type*} (M : Machine State Action)

/-- The state after the actions of a run. -/
def run (s : State) (as : List Action) : State :=
  as.foldl M.exec s

/-- Every step of the run, taken from the state it starts in, satisfies `P`. -/
def Along (P : State → Action → Prop) : State → List Action → Prop
  | _, [] => True
  | s, a :: as => P s a ∧ Along P (M.exec s a) as

/-- A run the machine can make: every action is enabled where it is taken. -/
def Enabled (s : State) (as : List Action) : Prop :=
  M.Along M.guard s as

instance decidableAlong (P : State → Action → Prop) [∀ s a, Decidable (P s a)] :
    ∀ s as, Decidable (M.Along P s as)
  | _, [] => inferInstanceAs (Decidable True)
  | s, a :: as =>
    haveI := decidableAlong P (M.exec s a) as
    inferInstanceAs (Decidable (P s a ∧ M.Along P (M.exec s a) as))

instance [∀ s a, Decidable (M.guard s a)] (s : State) (as : List Action) :
    Decidable (M.Enabled s as) :=
  inferInstanceAs (Decidable (M.Along M.guard s as))

@[simp] theorem run_nil (s : State) : M.run s [] = s := rfl

@[simp] theorem run_cons (s : State) (a : Action) (as : List Action) :
    M.run s (a :: as) = M.run (M.exec s a) as := rfl

theorem run_append (s : State) (as bs : List Action) :
    M.run s (as ++ bs) = M.run (M.run s as) bs := List.foldl_append

variable {M} {P Q : State → Action → Prop} {I : State → Prop}

theorem along_and {s : State} {as : List Action} :
    M.Along (fun s a => P s a ∧ Q s a) s as ↔ M.Along P s as ∧ M.Along Q s as := by
  induction as generalizing s with
  | nil => simp only [Along, and_self]
  | cons a as ih =>
    simp only [Along, ih]
    tauto

theorem along_append {s : State} {as bs : List Action} :
    M.Along P s (as ++ bs) ↔ M.Along P s as ∧ M.Along P (M.run s as) bs := by
  induction as generalizing s with
  | nil => simp only [List.nil_append, Along, true_and, run_nil]
  | cons a as ih => simp only [List.cons_append, Along, ih, run_cons, and_assoc]

/-- Every step of a run, with what comes before it. -/
theorem along_iff_split {s : State} {as : List Action} : M.Along P s as ↔
    ∀ pre a post, as = pre ++ a :: post → P (M.run s pre) a := by
  induction as generalizing s with
  | nil => simp only [Along, List.nil_eq_append_iff, reduceCtorEq, and_false, false_implies,
      implies_true]
  | cons b as ih =>
    constructor
    · rintro ⟨hb, hall⟩ pre a post he
      cases pre with
      | nil =>
        obtain ⟨rfl, rfl⟩ := List.cons.inj he
        exact hb
      | cons c pre =>
        obtain ⟨rfl, htail⟩ := List.cons.inj he
        exact ih.mp hall pre a post htail
    · intro hall
      refine ⟨hall [] b as rfl, ih.mpr ?_⟩
      intro pre a post he
      exact hall (b :: pre) a post (by rw [he]; rfl)

theorem along_forall {p : Action → Prop} {s : State} {as : List Action} :
    M.Along (fun _ a => p a) s as ↔ ∀ a ∈ as, p a := by
  induction as generalizing s with
  | nil => simp only [Along, List.not_mem_nil, false_implies, implies_true]
  | cons a as ih => simp only [Along, ih, List.forall_mem_cons]

/-- Step rule: an invariant that every `P`-step keeps makes every step a `Q`-step,
once `Q` follows from the invariant and `P`. -/
theorem along_of_invariant (hstep : ∀ s a, I s → P s a → I (M.exec s a))
    (hQ : ∀ s a, I s → P s a → Q s a) {s : State} {as : List Action} (hs : I s)
    (h : M.Along P s as) : M.Along Q s as := by
  induction as generalizing s with
  | nil => trivial
  | cons a as ih => exact ⟨hQ s a hs h.1, ih (hstep s a hs h.1) h.2⟩

/-- Run rule: what holds at the start and is kept by every `P`-step holds at the
end of every run of `P`-steps. -/
theorem run_invariant (hstep : ∀ s a, I s → P s a → I (M.exec s a)) {s : State}
    {as : List Action} (hs : I s) (h : M.Along P s as) : I (M.run s as) := by
  induction as generalizing s with
  | nil => exact hs
  | cons a as ih => exact ih (hstep s a hs h.1) h.2

/-- Where `P` says exactly which steps keep the invariant, the `P`-runs are those that have it
in every state they reach. -/
theorem prefixes_iff_along {G : State → Action → Prop}
    (hstep : ∀ s a, I s → G s a → (I (M.exec s a) ↔ P s a)) {s : State} {as : List Action}
    (hs : I s) (h : M.Along G s as) :
    (∀ pre post, as = pre ++ post → I (M.run s pre)) ↔ M.Along P s as := by
  induction as generalizing s with
  | nil =>
    refine iff_of_true ?_ trivial
    intro pre post he
    obtain ⟨rfl, -⟩ := List.append_eq_nil_iff.mp he.symm
    exact hs
  -- the state after the first step is where the other steps start
  | cons a as ih =>
    obtain ⟨hg, hrest⟩ := h
    constructor
    · intro hall
      have ha : I (M.exec s a) := hall [a] as rfl
      refine ⟨(hstep s a hs hg).mp ha, (ih ha hrest).mp ?_⟩
      intro pre post he
      exact hall (a :: pre) post (by rw [he]; rfl)
    · rintro ⟨hp, halong⟩ pre post he
      cases pre with
      | nil => exact hs
      | cons b pre =>
        obtain ⟨rfl, htail⟩ := List.cons.inj he
        exact (ih ((hstep s a hs hg).mpr hp) hrest).mpr halong pre post htail

/-- What holds at the end of a run and not at its start begins to hold by some step. -/
theorem exists_step {P : State → Prop} {s : State} {as : List Action} (h0 : ¬P s)
    (h1 : P (M.run s as)) : ∃ pre a post, as = pre ++ a :: post ∧ ¬P (M.run s pre) ∧
      P (M.exec (M.run s pre) a) := by
  induction as generalizing s with
  | nil => exact absurd h1 h0
  | cons a as ih =>
    by_cases h : P (M.exec s a)
    · exact ⟨[], a, as, rfl, h0, h⟩
    · obtain ⟨pre, b, post, rfl, hpre, hb⟩ := ih h h1
      exact ⟨a :: pre, b, post, rfl, hpre, hb⟩

/-- What holds at the start of a run holds after every step, or a step of it ends it. -/
theorem along_or_step {W : State → Prop} {s : State} (h0 : W s) (as : List Action) :
    M.Along (fun s a => W (M.exec s a)) s as ∨ ∃ pre a post, as = pre ++ a :: post ∧
      M.Along (fun s a => W (M.exec s a)) s pre ∧ W (M.run s pre) ∧
        ¬W (M.exec (M.run s pre) a) := by
  induction as generalizing s with
  | nil => exact .inl trivial
  | cons a as ih =>
    by_cases ha : W (M.exec s a)
    · rcases ih ha with hall | ⟨pre, b, post, rfl, hpre, hend, hb⟩
      · exact .inl ⟨ha, hall⟩
      · exact .inr ⟨a :: pre, b, post, rfl, ⟨ha, hpre⟩, hend, hb⟩
    · exact .inr ⟨[], a, as, rfl, trivial, h0, ha⟩

section ticks

/-- How many steps of a run are ticks. -/
def ticks (M : Machine State Action) (tick : State → Action → Bool) : State → List Action → ℕ
  | _, [] => 0
  | s, a :: as => (tick s a).toNat + ticks M tick (M.exec s a) as

/-- Wait rule: a rank that no step raises and that every tick lowers bounds the ticks. -/
theorem rank_add_ticks_le (rank : State → ℕ) (tick : State → Action → Bool)
    (hstep : ∀ s a, I s → P s a → I (M.exec s a) ∧ rank (M.exec s a) + (tick s a).toNat ≤ rank s)
    {s : State} {as : List Action} (hs : I s) (h : M.Along P s as) :
    rank (M.run s as) + M.ticks tick s as ≤ rank s := by
  induction as generalizing s with
  | nil => exact Nat.le_refl _
  | cons a as ih =>
    obtain ⟨hkeep, hrank⟩ := hstep s a hs h.1
    have hrest := ih hkeep h.2
    rw [run_cons, ticks]
    omega

end ticks

section history
variable {History : Type*} (M) (note : State → History → Action → History)

/-- The machine with a history variable, which no guard reads. -/
def withHistory : Machine (State × History) Action where
  guard p a := M.guard p.1 a
  exec p a := (M.exec p.1 a, note p.1 p.2 a)

theorem withHistory_run (p : State × History) (as : List Action) :
    ((M.withHistory note).run p as).1 = M.run p.1 as := by
  induction as generalizing p with
  | nil => rfl
  | cons a as ih => exact ih _

theorem along_withHistory {p : State × History} {as : List Action} :
    (M.withHistory note).Along (fun p a => P p.1 a) p as ↔ M.Along P p.1 as := by
  induction as generalizing p with
  | nil => exact .rfl
  | cons a as ih => exact and_congr_right' ih

end history

section simulation
variable {State' Action' : Type*} (N : Machine State' Action')
  (act : State' → Action' → Option Action)

/-- What a run of `N` does, seen as actions of another machine; some of its steps are none. -/
def shown : State' → List Action' → List Action
  | _, [] => []
  | s, a :: as => (act s a).toList ++ shown (N.exec s a) as

/-- `M` makes every step of `N` whose start satisfies `I`, and its state is what `view` sees. -/
structure Simulates (M : Machine State Action) (N : Machine State' Action') (I : State' → Prop)
    (view : State' → State) (act : State' → Action' → Option Action) : Prop where
  keeps : ∀ s a, I s → I (N.exec s a)
  step : ∀ s a, I s → view (N.exec s a) = M.run (view s) (act s a).toList
  guard : ∀ s a, I s → N.guard s a → M.Enabled (view s) (act s a).toList

namespace Simulates
variable {N} {act} {J : State' → Prop} {view : State' → State}

theorem run (h : Simulates M N J view act) {s : State'} (hs : J s) (as : List Action') :
    J (N.run s as) ∧ view (N.run s as) = M.run (view s) (N.shown act s as) := by
  induction as generalizing s with
  | nil => exact ⟨hs, rfl⟩
  | cons a as ih =>
    obtain ⟨hend, hview⟩ := ih (h.keeps s a hs)
    refine ⟨hend, ?_⟩
    rw [shown, run_append, ← h.step s a hs]
    exact hview

theorem enabled (h : Simulates M N J view act) {s : State'} (hs : J s) {as : List Action'}
    (he : N.Enabled s as) : M.Enabled (view s) (N.shown act s as) := by
  induction as generalizing s with
  | nil => trivial
  | cons a as ih =>
    refine along_append.mpr ⟨h.guard s a hs he.1, ?_⟩
    rw [← h.step s a hs]
    exact ih (h.keeps s a hs) he.2

end Simulates
end simulation

end Machine
end Couv
