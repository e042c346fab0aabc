import Mathlib.Algebra.GroupWithZero.Nat
import Mathlib.Data.List.Basic

/-!
# Runs of a labelled transition system

A system is a relation `Tr : σ → α → σ → Prop` between its states, labelled by
what happens in the step. `Lts.Steps` chains the steps of a run and keeps the
list of their labels, so that a property may speak of what happened and not only
of where the run ended.

Three ways of cutting a system down recur in every development over it:

* `Lts.Guarded` keeps the steps that meet a condition on the state before and
  the label – the runs “whose steps all meet the condition”;
* `Lts.Within` keeps the steps that end in a given set of states – the runs
  “that have the property in every state they reach”;
* `Lts.Observed` runs a history variable beside the state.

`Lts.Steps.invariant` is the one induction behind every safety result, and
`Lts.steps_upheld_iff_guarded` turns an equivalence about one step into an
equivalence about whole runs. `Lts.Simulation` is forward simulation with equal
labels, `Lts.Refinement` forward simulation with labels that are related, and `Lts.LockStep`
the counterpart for two systems that run side by side until one of them stops.
`Lts.Agreement` is for two systems with the same client, which they answer alike as long as
it keeps a protocol.
-/

namespace Lts

variable {σ τ α η : Type*} {Tr : σ → α → σ → Prop}

/-! ### Runs -/

/-- **Runs**: the steps taken one after the other, with their labels. -/
inductive Steps (Tr : σ → α → σ → Prop) : σ → List α → σ → Prop
  /-- The run that takes no step. -/
  | nil (s : σ) : Steps Tr s [] s
  /-- One step, and then a run. -/
  | cons {s t u : σ} {a : α} {l : List α} : Tr s a t → Steps Tr t l u → Steps Tr s (a :: l) u

theorem Steps.single {s t : σ} {a : α} (h : Tr s a t) : Steps Tr s [a] t := .cons h (.nil t)

/-- Two runs compose. -/
theorem Steps.append {s t u : σ} {l m : List α} (h : Steps Tr s l t) (h' : Steps Tr t m u) :
    Steps Tr s (l ++ m) u := by
  induction h with
  | nil => exact h'
  | cons hstep _ ih => exact .cons hstep (ih h')

/-- A run is extended by one step at its end. -/
theorem Steps.snoc {s t u : σ} {l : List α} {a : α} (h : Steps Tr s l t) (h' : Tr t a u) :
    Steps Tr s (l ++ [a]) u :=
  h.append (.single h')

/-- A run splits where its list of labels does. -/
theorem Steps.split {s u : σ} {l m : List α} (h : Steps Tr s (l ++ m) u) :
    ∃ t, Steps Tr s l t ∧ Steps Tr t m u := by
  induction l generalizing s with
  | nil => exact ⟨s, .nil s, h⟩
  | cons a l ih =>
    cases h with
    | cons hstep hrest =>
      obtain ⟨t, hl, hm⟩ := ih hrest
      exact ⟨t, .cons hstep hl, hm⟩

/-- A run splits around each of its labels. -/
theorem Steps.split_cons {s u : σ} {l m : List α} {a : α} (h : Steps Tr s (l ++ a :: m) u) :
    ∃ t t', Steps Tr s l t ∧ Tr t a t' ∧ Steps Tr t' m u := by
  obtain ⟨t, hl, hm⟩ := h.split
  cases hm with
  | cons hstep hrest => exact ⟨t, _, hl, hstep, hrest⟩

/-- **The step that leaves**: a run from inside a set of states to the outside takes a step out
of the set, after which the rest of the run starts outside. -/
theorem Steps.exists_leaving {P : σ → Prop} {s u : σ} {l : List α} (h : Steps Tr s l u) (hs : P s)
    (hu : ¬P u) : ∃ l₁ t a t' l₂, l = l₁ ++ a :: l₂ ∧ Steps Tr s l₁ t ∧ P t ∧ Tr t a t' ∧ ¬P t' ∧
      Steps Tr t' l₂ u := by
  induction h with
  | nil => exact absurd hs hu
  | @cons s t u a l hstep hrest ih =>
    by_cases ht : P t
    · obtain ⟨l₁, t₁, b, t₂, l₂, rfl, hrun, hin, hleave, hout, hrest'⟩ := ih ht hu
      exact ⟨a :: l₁, t₁, b, t₂, l₂, rfl, .cons hstep hrun, hin, hleave, hout, hrest'⟩
    · exact ⟨[], s, a, t, l, rfl, .nil s, hs, hstep, ht, hrest⟩

/-- From a state without steps there is only the run that takes none. -/
theorem Steps.eq_of_stuck {s t : σ} {l : List α} (h : Steps Tr s l t)
    (hstuck : ∀ a u, ¬Tr s a u) : l = [] ∧ t = s := by
  cases h with
  | nil => exact ⟨rfl, rfl⟩
  | cons hstep _ => exact absurd hstep (hstuck _ _)

/-- Where a step is a function of the state, every run is the beginning of one that ends in a
state without steps. -/
theorem Steps.rest_of_stuck (hdet : ∀ s a b t u, Tr s a t → Tr s b u → a = b ∧ t = u) {s t u : σ}
    {l m : List α} (h : Steps Tr s l t) (h' : Steps Tr s m u) (hstuck : ∀ a v, ¬Tr u a v) :
    ∃ r, m = l ++ r ∧ Steps Tr t r u := by
  induction h generalizing m with
  | nil => exact ⟨m, rfl, h'⟩
  | cons hs _ ih =>
    cases h' with
    | nil => exact absurd hs (hstuck _ _)
    | cons hs' hrest =>
      obtain ⟨rfl, rfl⟩ := hdet _ _ _ _ _ hs hs'
      obtain ⟨r, rfl, hr⟩ := ih hrest
      exact ⟨r, rfl, hr⟩

theorem Steps.mono {Tr' : σ → α → σ → Prop} (hsub : ∀ s a t, Tr s a t → Tr' s a t) {s t : σ}
    {l : List α} (h : Steps Tr s l t) : Steps Tr' s l t := by
  induction h with
  | nil s => exact .nil s
  | cons hstep _ ih => exact .cons (hsub _ _ _ hstep) ih

/-- Runs of a system that is a function of the state and the label. -/
def exec (f : σ → α → Option σ) (s : σ) : List α → Option σ
  | [] => some s
  | a :: l => (f s a).bind fun t => exec f t l

theorem exec_eq_some_iff {f : σ → α → Option σ} {s t : σ} {l : List α} :
    exec f s l = some t ↔ Steps (fun s a t => f s a = some t) s l t := by
  induction l generalizing s with
  | nil =>
    rw [exec, Option.some.injEq]
    constructor
    · rintro rfl
      exact .nil s
    · rintro ⟨⟩
      rfl
  | cons a l ih =>
    rw [exec, Option.bind_eq_some_iff]
    constructor
    · rintro ⟨u, hu, ht⟩
      exact .cons hu (ih.mp ht)
    · rintro (_ | ⟨hu, ht⟩)
      exact ⟨_, hu, ih.mpr ht⟩

/-- Such runs, with a condition tested at every step. -/
theorem guarded_of_exec {f : σ → α → Option σ} {C : σ → α → Prop} [∀ s a, Decidable (C s a)]
    {s t : σ} {l : List α} (h : exec (fun s a => if C s a then f s a else none) s l = some t) :
    Steps (fun s a t => f s a = some t ∧ C s a) s l t := by
  induction l generalizing s with
  | nil =>
    obtain rfl := Option.some.inj h
    exact .nil s
  | cons a l ih =>
    obtain ⟨u, hu, ht⟩ := Option.bind_eq_some_iff.mp h
    obtain ⟨hC, hu⟩ := Option.ite_none_right_eq_some.mp hu
    exact .cons ⟨hu, hC⟩ (ih ht)

/-- Runs of a system that answers the operations it is given: the operations with
their answers, and the state afterwards. -/
def answer {ι ρ : Type*} (f : σ → ι → Option (ρ × σ)) (s : σ) :
    List ι → Option (List (ι × ρ) × σ)
  | [] => some ([], s)
  | op :: ops => (f s op).bind fun (r, t) => (answer f t ops).map fun (l, u) => ((op, r) :: l, u)

theorem answer_cons {ι ρ : Type*} {f : σ → ι → Option (ρ × σ)} {op : ι} {ops : List ι} {s t u : σ}
    {r : ρ} {l : List (ι × ρ)} (hf : f s op = some (r, t)) (hl : answer f t ops = some (l, u)) :
    answer f s (op :: ops) = some ((op, r) :: l, u) := by
  simp only [answer, hf, hl, Option.bind_some, Option.map_some]

theorem steps_of_answer {ι ρ : Type*} {f : σ → ι → Option (ρ × σ)} {ops : List ι} {s t : σ}
    {l : List (ι × ρ)} (h : answer f s ops = some (l, t)) :
    Steps (fun s a t => f s a.1 = some (a.2, t)) s l t := by
  induction ops generalizing s l with
  | nil =>
    obtain ⟨rfl, rfl⟩ := Prod.mk.inj (Option.some.inj h)
    exact .nil s
  | cons op ops ih =>
    obtain ⟨⟨r, u⟩, hf, hrest⟩ := Option.bind_eq_some_iff.mp h
    obtain ⟨⟨m, w⟩, hm, hpair⟩ := Option.map_eq_some_iff.mp hrest
    obtain ⟨rfl, rfl⟩ := Prod.mk.inj hpair
    exact .cons hf (ih hm)

/-! ### Invariants -/

/-- **The invariant rule**: what holds at the start and is kept by every step
holds at the end of every run. -/
theorem Steps.invariant {P : σ → Prop} (hstep : ∀ s a t, P s → Tr s a t → P t) {s t : σ}
    {l : List α} (h : Steps Tr s l t) (h0 : P s) : P t := by
  induction h with
  | nil => exact h0
  | cons hs _ ih => exact ih (hstep _ _ _ h0 hs)

/-- Two systems have the same runs where they have the same steps, which may be shown under
an invariant. -/
theorem steps_congr {I : σ → Prop} {Tr' : σ → α → σ → Prop}
    (hinv : ∀ s a t, I s → Tr s a t → I t) (hiff : ∀ s a t, I s → (Tr s a t ↔ Tr' s a t))
    {s t : σ} {l : List α} (hI : I s) : Steps Tr s l t ↔ Steps Tr' s l t := by
  constructor
  · intro h
    induction h with
    | nil s => exact .nil s
    | cons hs _ ih => exact .cons ((hiff _ _ _ hI).mp hs) (ih (hinv _ _ _ hI hs))
  · intro h
    induction h with
    | nil s => exact .nil s
    | cons hs _ ih =>
      have hstep := (hiff _ _ _ hI).mpr hs
      exact .cons hstep (ih (hinv _ _ _ hI hstep))

/-- **The invariant rule with a history**: the history is folded over the labels
of the run, and the invariant relates it to the state. -/
theorem Steps.invariant_foldl {h : η → α → η} {P : η → σ → Prop}
    (hstep : ∀ x s a t, P x s → Tr s a t → P (h x a) t) {s t : σ} {l : List α}
    (hl : Steps Tr s l t) {x : η} (h0 : P x s) : P (l.foldl h x) t := by
  induction hl generalizing x with
  | nil => exact h0
  | cons hs _ ih => exact ih (hstep _ _ _ _ h0 hs)

/-- **The invariant rule with the labels so far**. -/
theorem Steps.invariant_labels {P : List α → σ → Prop}
    (hstep : ∀ l s a t, P l s → Tr s a t → P (l ++ [a]) t) {s t : σ} {l : List α}
    (hl : Steps Tr s l t) {m : List α} (h0 : P m s) : P (m ++ l) t := by
  induction hl generalizing m with
  | nil => rwa [List.append_nil]
  | @cons s t u a l hs _ ih =>
    rw [List.append_cons]
    exact ih (hstep _ _ _ _ h0 hs)

/-- **The invariant rule for labels**: where every step that starts within the
invariant has the property, every step of a run has it. -/
theorem Steps.forall_mem {I : σ → Prop} {P : α → Prop}
    (hstep : ∀ s a t, I s → Tr s a t → I t ∧ P a) {s t : σ} {l : List α} (h : Steps Tr s l t)
    (h0 : I s) : ∀ a ∈ l, P a := by
  induction h with
  | nil => simp
  | cons hs _ ih =>
    obtain ⟨hI, hP⟩ := hstep _ _ _ h0 hs
    exact List.forall_mem_cons.mpr ⟨hP, ih hI⟩

/-! ### Runs that end -/

/-- **The measure rule with credit**: where every step that starts within the invariant makes a
measure smaller, or pays with the credit of its label, a run has at most as many steps as the
measure and the credits say. -/
theorem Steps.length_le_add {I : σ → Prop} {m : σ → ℕ} {w : α → ℕ}
    (hstep : ∀ s a t, I s → Tr s a t → I t ∧ m t < m s + w a) {s t : σ} {l : List α}
    (h : Steps Tr s l t) (h0 : I s) : l.length + m t ≤ m s + (l.map w).sum := by
  induction h with
  | nil => simp
  | cons hs _ ih =>
    obtain ⟨hI, hlt⟩ := hstep _ _ _ h0 hs
    have hle := ih hI
    rw [List.length_cons, List.map_cons, List.sum_cons]
    omega

/-- **The measure rule**: where every step that starts within the invariant makes a measure
smaller, a run has at most as many steps as the measure says. -/
theorem Steps.length_le {I : σ → Prop} {m : σ → ℕ}
    (hstep : ∀ s a t, I s → Tr s a t → I t ∧ m t < m s) {s t : σ} {l : List α}
    (h : Steps Tr s l t) (h0 : I s) : l.length + m t ≤ m s := by
  have hle := h.length_le_add (w := fun _ => 0) hstep h0
  rwa [List.map_const', List.sum_replicate_nat, Nat.mul_zero, Nat.add_zero] at hle

/-- Under such a measure every run goes on to a state without steps. -/
theorem exists_steps_stuck {I : σ → Prop} {m : σ → ℕ}
    (hstep : ∀ s a t, I s → Tr s a t → I t ∧ m t < m s) {s : σ} (h0 : I s) :
    ∃ l t, Steps Tr s l t ∧ ∀ a u, ¬Tr t a u := by
  induction hn : m s using Nat.strongRecOn generalizing s with
  | _ n ih =>
    by_cases hstuck : ∀ a u, ¬Tr s a u
    · exact ⟨[], s, .nil s, hstuck⟩
    · push Not at hstuck
      obtain ⟨a, u, hs⟩ := hstuck
      obtain ⟨hI, hlt⟩ := hstep _ _ _ h0 hs
      obtain ⟨l, t, hl, ht⟩ := ih (m u) (hn ▸ hlt) hI rfl
      exact ⟨a :: l, t, .cons hs hl, ht⟩

/-! ### Runs whose steps all meet a condition -/

/-- The steps that meet the condition `C` on the state before and the label. -/
def Guarded (Tr : σ → α → σ → Prop) (C : σ → α → Prop) : σ → α → σ → Prop :=
  fun s a t => Tr s a t ∧ C s a

/-- The steps that end in a state with the property `P`. -/
def Within (Tr : σ → α → σ → Prop) (P : σ → Prop) : σ → α → σ → Prop :=
  fun s a t => Tr s a t ∧ P t

/-- The system with a history variable beside its state, which may look at the
whole step. -/
def Observed (h : η → σ → α → σ → η) (Tr : σ → α → σ → Prop) : η × σ → α → η × σ → Prop :=
  fun p a q => Tr p.2 a q.2 ∧ q.1 = h p.1 p.2 a q.2

/-- A run with a history is a run. -/
theorem Steps.of_observed {h : η → σ → α → σ → η} {p q : η × σ} {l : List α}
    (hl : Steps (Observed h Tr) p l q) : Steps Tr p.2 l q.2 := by
  induction hl with
  | nil p => exact .nil p.2
  | cons hs _ ih => exact .cons hs.1 ih

/-- A run can be given a history. -/
theorem Steps.observed (h : η → σ → α → σ → η) {s t : σ} {l : List α} (hl : Steps Tr s l t)
    (x : η) : ∃ y, Steps (Observed h Tr) (x, s) l (y, t) := by
  induction hl generalizing x with
  | nil s => exact ⟨x, .nil (x, s)⟩
  | @cons s t u a l hs _ ih =>
    obtain ⟨y, hy⟩ := ih (h x s a t)
    exact ⟨y, .cons ⟨hs, rfl⟩ hy⟩

/-- Where a step starts in a state with the property `P` only, a run that ends in one has it
throughout. -/
theorem Steps.within {P : σ → Prop} (hstart : ∀ s a t, Tr s a t → P s) {s t : σ} {l : List α}
    (h : Steps Tr s l t) (ht : P t) : Steps (Within Tr P) s l t := by
  induction h with
  | nil s => exact .nil s
  | cons hs hrest ih =>
    refine .cons ⟨hs, ?_⟩ (ih ht)
    cases hrest with
    | nil => exact ht
    | cons hs' _ => exact hstart _ _ _ hs'

theorem Steps.of_guarded {C : σ → α → Prop} {s t : σ} {l : List α}
    (h : Steps (Guarded Tr C) s l t) : Steps Tr s l t :=
  h.mono fun _ _ _ hs => hs.1

/-- A condition on the labels alone is met by a run when its labels have it. -/
theorem Steps.guarded_of_forall {C : α → Prop} {s t : σ} {l : List α} (h : Steps Tr s l t)
    (hC : ∀ a ∈ l, C a) : Steps (Guarded Tr fun _ a => C a) s l t := by
  induction h with
  | nil s => exact .nil s
  | cons hs _ ih =>
    exact .cons ⟨hs, hC _ List.mem_cons_self⟩ (ih fun a ha => hC a (List.mem_cons_of_mem _ ha))

/-- The steps with the property `F`. -/
def Upheld (Tr : σ → α → σ → Prop) (F : σ → α → σ → Prop) : σ → α → σ → Prop :=
  fun s a t => Tr s a t ∧ F s a t

/-- **From one step to whole runs**: if a step has the property `F` exactly when it
meets the condition `C`, then the steps of a run all have the property exactly when
they all meet the condition. The equivalence may be proved under an invariant of the
steps that have the property. -/
theorem steps_upheld_iff_guarded {I : σ → Prop} {F : σ → α → σ → Prop} {C : σ → α → Prop}
    (hinv : ∀ s a t, I s → Tr s a t → F s a t → I t)
    (hiff : ∀ s a t, I s → Tr s a t → (F s a t ↔ C s a)) {s t : σ} {l : List α} (hI : I s) :
    Steps (Upheld Tr F) s l t ↔ Steps (Guarded Tr C) s l t := by
  constructor
  · intro h
    induction h with
    | nil s => exact .nil s
    | cons hs _ ih =>
      exact .cons ⟨hs.1, (hiff _ _ _ hI hs.1).mp hs.2⟩ (ih (hinv _ _ _ hI hs.1 hs.2))
  · intro h
    induction h with
    | nil s => exact .nil s
    | cons hs _ ih =>
      have hstep := (hiff _ _ _ hI hs.1).mpr hs.2
      exact .cons ⟨hs.1, hstep⟩ (ih (hinv _ _ _ hI hs.1 hstep))

/-- The same for a property of states: a run has it in every state it reaches exactly
when all of its steps meet the condition. -/
theorem steps_within_iff_guarded {I P : σ → Prop} {C : σ → α → Prop}
    (hinv : ∀ s a t, I s → Tr s a t → I t)
    (hiff : ∀ s a t, I s → P s → Tr s a t → (P t ↔ C s a)) {s t : σ} {l : List α} (hI : I s)
    (h0 : P s) : Steps (Within Tr P) s l t ↔ Steps (Guarded Tr C) s l t :=
  steps_upheld_iff_guarded (I := fun s => I s ∧ P s) (F := fun _ _ t => P t) (C := C)
    (fun s (a : α) t h htr hP => ⟨hinv s a t h.1 htr, hP⟩)
    (fun s (a : α) t h htr => hiff s a t h.1 h.2 htr) ⟨hI, h0⟩

/-! ### Simulation -/

/-- **Forward simulation with equal labels**: related states stay related when
the second system answers a step of the first by one with the same label. -/
def Simulation (R : σ → τ → Prop) (Tr : σ → α → σ → Prop) (Tr' : τ → α → τ → Prop) : Prop :=
  ∀ s x a t, R s x → Tr s a t → ∃ y, Tr' x a y ∧ R t y

/-- A simulation carries whole runs. -/
theorem Simulation.steps {R : σ → τ → Prop} {Tr' : τ → α → τ → Prop} (sim : Simulation R Tr Tr')
    {s t : σ} {l : List α} (h : Steps Tr s l t) {x : τ} (h0 : R s x) :
    ∃ y, Steps Tr' x l y ∧ R t y := by
  induction h generalizing x with
  | nil => exact ⟨x, .nil x, h0⟩
  | cons hs _ ih =>
    obtain ⟨y, hy, hR⟩ := sim _ _ _ _ h0 hs
    obtain ⟨z, hz, hR'⟩ := ih hR
    exact ⟨z, .cons hy hz, hR'⟩

/-- **Refinement**, where labels may be more abstract as well: the second system answers a step
of the first by one whose label is related by `A`. -/
def Refinement {β : Type*} (R : σ → τ → Prop) (A : α → β → Prop) (Tr : σ → α → σ → Prop)
    (Tr' : τ → β → τ → Prop) : Prop :=
  ∀ s x a t, R s x → Tr s a t → ∃ b y, A a b ∧ Tr' x b y ∧ R t y

/-- A refinement carries whole runs. -/
theorem Refinement.steps {β : Type*} {R : σ → τ → Prop} {A : α → β → Prop}
    {Tr' : τ → β → τ → Prop} (h : Refinement R A Tr Tr') {s t : σ} {l : List α}
    (hl : Steps Tr s l t) {x : τ} (h0 : R s x) :
    ∃ m y, List.Forall₂ A l m ∧ Steps Tr' x m y ∧ R t y := by
  induction hl generalizing x with
  | nil => exact ⟨[], x, .nil, .nil x, h0⟩
  | cons hs _ ih =>
    obtain ⟨b, y, hb, hy, hR⟩ := h _ _ _ _ h0 hs
    obtain ⟨m, z, hm, hz, hR'⟩ := ih hR
    exact ⟨b :: m, z, .cons hb hm, .cons hy hz, hR'⟩

/-! ### Lock-step -/

/-- **Lock-step up to a stop**: from related states two systems, each a function of the
state and the label, take the same steps with the labels `A`, to related states or to one
where the first system has stopped. -/
def LockStep (R : σ → τ → Prop) (Stop : σ → Prop) (A : α → Prop) (f : σ → α → Option σ)
    (g : τ → α → Option τ) : Prop :=
  ∀ s x a, R s x → A a → Option.Rel (fun t y => Stop t ∨ R t y) (f s a) (g x a)

variable {R : σ → τ → Prop} {Stop : σ → Prop} {A : α → Prop} {f : σ → α → Option σ}
  {g : τ → α → Option τ}

/-- The second system has every run of the first. -/
theorem LockStep.steps (h : LockStep R Stop A f g) (hstop : ∀ s a, Stop s → f s a = none)
    {s t : σ} {l : List α} (hl : Steps (fun s a t => f s a = some t) s l t) (hA : ∀ a ∈ l, A a)
    {x : τ} (h0 : R s x) :
    ∃ y, Steps (fun x a y => g x a = some y) x l y ∧ (Stop t ∨ R t y) := by
  induction hl generalizing x with
  | nil s => exact ⟨x, .nil x, Or.inr h0⟩
  | @cons s t u a l hs hrest ih =>
    have hrel := h s x a h0 (hA a List.mem_cons_self)
    rw [hs] at hrel
    cases hg : g x a with
    | none =>
      rw [hg] at hrel
      cases hrel
    | some y =>
      rw [hg] at hrel
      cases hrel with
      | some hrel =>
        rcases hrel with hstopped | hR
        · -- the first system has stopped, so the run ends here
          cases hrest with
          | nil => exact ⟨y, .single hg, Or.inl hstopped⟩
          | cons hs' _ => exact absurd (hstop _ _ hstopped) (by rw [hs']; exact nofun)
        · obtain ⟨z, hz, hend⟩ := ih (fun a ha => hA a (List.mem_cons_of_mem _ ha)) hR
          exact ⟨z, .cons hg hz, hend⟩

/-- The first system has every run of the second, up to where it stops. -/
theorem LockStep.steps_back (h : LockStep R Stop A f g) {x y : τ} {l : List α}
    (hl : Steps (fun x a y => g x a = some y) x l y) (hA : ∀ a ∈ l, A a) {s : σ} (h0 : R s x) :
    ∃ m t, m <+: l ∧ Steps (fun s a t => f s a = some t) s m t ∧ (Stop t ∨ m = l ∧ R t y) := by
  induction hl generalizing s with
  | nil x => exact ⟨[], s, List.nil_prefix, .nil s, Or.inr ⟨rfl, h0⟩⟩
  | @cons x y z a l hs hrest ih =>
    have hrel := h s x a h0 (hA a List.mem_cons_self)
    rw [hs] at hrel
    cases hf : f s a with
    | none =>
      rw [hf] at hrel
      cases hrel
    | some t =>
      rw [hf] at hrel
      cases hrel with
      | some hrel =>
        rcases hrel with hstopped | hR
        · exact ⟨[a], t, by simp, .single hf, Or.inl hstopped⟩
        · obtain ⟨m, u, hm, hu, hend⟩ := ih (fun a ha => hA a (List.mem_cons_of_mem _ ha)) hR
          refine ⟨a :: m, u, List.cons_prefix_cons.mpr ⟨rfl, hm⟩, .cons hf hu, ?_⟩
          exact hend.imp_right fun hend => ⟨congrArg _ hend.1, hend.2⟩

/-! ### Agreement with a client that keeps a protocol -/

variable {κ ι ρ ρ' : Type*}

/-- **Agreement**: two systems that answer operations, given one that the protocol `P` allows
in the state `c` of the client, both answer it, with answers that are related by `A` there, and
go to states that are related as before. -/
def Agreement (P : κ → ι → Option κ) (R : κ → σ → τ → Prop) (A : κ → ι → ρ → ρ' → Prop)
    (f : σ → ι → Option (ρ × σ)) (g : τ → ι → Option (ρ' × τ)) : Prop :=
  ∀ c s x op c', R c s x → P c op = some c' →
    ∃ r t r' y, f s op = some (r, t) ∧ g x op = some (r', y) ∧ A c op r r' ∧ R c' t y

/-- **Two lists of answers to one client**, from its state `c`, are related one by one. -/
inductive Answered (P : κ → ι → Option κ) (A : κ → ι → ρ → ρ' → Prop) :
    κ → List (ι × ρ) → List (ι × ρ') → Prop
  | nil (c : κ) : Answered P A c [] []
  | cons {c c' : κ} {op : ι} {r : ρ} {r' : ρ'} {l : List (ι × ρ)} {m : List (ι × ρ')}
      (hop : P c op = some c') (hA : A c op r r') (hrest : Answered P A c' l m) :
      Answered P A c ((op, r) :: l) ((op, r') :: m)

/-- **Two systems that agree answer any client alike**, as long as it keeps the protocol. -/
theorem Agreement.answer {P : κ → ι → Option κ} {R : κ → σ → τ → Prop}
    {A : κ → ι → ρ → ρ' → Prop} {f : σ → ι → Option (ρ × σ)} {g : τ → ι → Option (ρ' × τ)}
    (h : Agreement P R A f g) {ops : List ι} {c c' : κ} (hops : exec P c ops = some c') {s : σ}
    {x : τ} (h0 : R c s x) :
    ∃ l t m y, Lts.answer f s ops = some (l, t) ∧ Lts.answer g x ops = some (m, y) ∧ R c' t y ∧
      Answered P A c l m := by
  induction ops generalizing c s x with
  | nil =>
    obtain rfl := Option.some.inj hops
    exact ⟨[], s, [], x, rfl, rfl, h0, .nil c⟩
  | cons op ops ih =>
    obtain ⟨d, hd, hrest⟩ := Option.bind_eq_some_iff.mp hops
    obtain ⟨r, t, r', y, hf, hg, hA, hR⟩ := h c s x op d h0 hd
    obtain ⟨l, u, m, z, hl, hm, hend, hall⟩ := ih hrest hR
    exact ⟨(op, r) :: l, u, (op, r') :: m, z, answer_cons hf hl, answer_cons hg hm, hend,
      .cons hd hA hall⟩

end Lts
