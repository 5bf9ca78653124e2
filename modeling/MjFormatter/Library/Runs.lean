import Mathlib.Data.List.Basic

/-! # Runs of a fallible step

A step takes a state and an action, fails or gives an outcome, and the outcome holds the next state.  A
`Run` is a sequence of such steps that do not fail and all meet a condition; an invariant that every
step under the condition preserves holds in the state that any run reaches. -/

namespace MjFormatter.Library

universe u

variable {σ α ε ω : Type*}

theorem bind_eq_ok_iff {α β : Type u} {x : Except ε α} {f : α → Except ε β} {b : β} :
    (x >>= f) = .ok b ↔ ∃ a, x = .ok a ∧ f a = .ok b := by
  cases x with
  | error err => simp [bind, Except.bind]
  | ok a => simp [bind, Except.bind]

theorem toOption_eq_some_iff {x : Except ε α} {a : α} : x.toOption = some a ↔ x = .ok a := by
  cases x with
  | error err => simp [Except.toOption]
  | ok b => simp [Except.toOption]

theorem toOption_bind_eq_some_iff {α β : Type u} {x : Except ε α} {f : α → Except ε β} {b : β} :
    (x >>= f).toOption = some b ↔ ∃ a, x = .ok a ∧ (f a).toOption = some b := by
  cases x with
  | error err => simp [bind, Except.bind, Except.toOption]
  | ok a => simp [bind, Except.bind]

/-- The states that can be reached from a state by steps that meet the condition. -/
inductive Run (step : σ → α → Except ε ω) (next : ω → σ) (meets : σ → α → ω → Prop) : σ → List α → σ → Prop
  | nil (state : σ) : Run step next meets state [] state
  | cons {state final : σ} {action : α} {actions : List α} {outcome : ω} :
      step state action = .ok outcome → meets state action outcome →
      Run step next meets (next outcome) actions final → Run step next meets state (action :: actions) final

variable {step : σ → α → Except ε ω} {next : ω → σ} {meets : σ → α → ω → Prop}

theorem Run.invariant {state final : σ} {actions : List α} (run : Run step next meets state actions final)
    (inv : σ → Prop)
    (preserved : ∀ state action outcome, inv state → step state action = .ok outcome →
      meets state action outcome → inv (next outcome))
    (start : inv state) : inv final := by
  induction run with
  | nil state => exact start
  | cons stepped met _ inductionHypothesis => exact inductionHypothesis (preserved _ _ _ start stepped met)

/-! ## The steps of a run -/

structure Step (σ α ω : Type*) where
  before : σ
  action : α
  outcome : ω

variable (step next) in
/-- The steps that the actions make, up to the first one that fails. -/
def steps : σ → List α → List (Step σ α ω)
  | _, [] => []
  | state, action :: actions =>
    match step state action with
    | .error _ => []
    | .ok outcome => ⟨state, action, outcome⟩ :: steps (next outcome) actions

theorem steps_cons {state : σ} {action : α} {actions : List α} {outcome : ω} (stepped : step state action = .ok outcome) :
    steps step next state (action :: actions) = ⟨state, action, outcome⟩ :: steps step next (next outcome) actions := by
  simp only [steps, stepped]

theorem mem_steps {state : σ} {actions : List α} {taken : Step σ α ω} (member : taken ∈ steps step next state actions) :
    step taken.before taken.action = .ok taken.outcome ∧ taken.action ∈ actions := by
  induction actions generalizing state with
  | nil => cases member
  | cons action actions inductionHypothesis =>
    cases stepped : step state action with
    | error err =>
      simp only [steps, stepped] at member
      cases member
    | ok outcome =>
      rw [steps_cons stepped] at member
      cases List.mem_cons.mp member with
      | inl here =>
        subst here
        exact ⟨stepped, List.mem_cons_self⟩
      | inr there =>
        obtain ⟨took, later⟩ := inductionHypothesis there
        exact ⟨took, List.mem_cons_of_mem _ later⟩

/-- What the steps of a run preserve holds at its end. -/
theorem Run.invariant_steps {state final : σ} {actions : List α} (run : Run step next meets state actions final)
    (inv : σ → Prop) (preserved : ∀ taken ∈ steps step next state actions, inv taken.before → inv (next taken.outcome))
    (start : inv state) : inv final := by
  induction run with
  | nil => exact start
  | cons stepped _ _ inductionHypothesis =>
    rw [steps_cons stepped] at preserved
    obtain ⟨first, further⟩ := List.forall_mem_cons.mp preserved
    exact inductionHypothesis further (first start)

/-- What every step preserves about the steps taken so far and the state that they have reached holds in front of
each step. -/
theorem steps_history (inv : List (Step σ α ω) → σ → Prop) {state : σ} {actions : List α}
    (preserved : ∀ earlier, ∀ taken ∈ steps step next state actions, inv earlier taken.before →
      inv (earlier ++ [taken]) (next taken.outcome))
    {front : List (Step σ α ω)} (start : inv front state) {earlier : List (Step σ α ω)} {taken : Step σ α ω}
    {later : List (Step σ α ω)} (split : steps step next state actions = earlier ++ taken :: later) :
    inv (front ++ earlier) taken.before := by
  induction actions generalizing state front earlier with
  | nil => simp [steps] at split
  | cons action actions inductionHypothesis =>
    cases stepped : step state action with
    | error err => simp [steps, stepped] at split
    | ok outcome =>
      rw [steps_cons stepped] at preserved split
      cases earlier with
      | nil =>
        rw [List.nil_append, List.cons.injEq] at split
        rw [List.append_nil, ← split.1]
        exact start
      | cons first earlier =>
        rw [List.cons_append, List.cons.injEq] at split
        obtain ⟨rfl, further⟩ := split
        have reached := inductionHypothesis (fun earlier taken member => preserved earlier taken (List.mem_cons_of_mem _ member))
          (preserved front _ List.mem_cons_self start) further
        rwa [List.append_assoc, List.singleton_append] at reached

/-- What every step preserves holds in front of each step. -/
theorem steps_invariant (inv : σ → Prop) {state : σ} {actions : List α}
    (preserved : ∀ taken ∈ steps step next state actions, inv taken.before → inv (next taken.outcome))
    (start : inv state) {taken : Step σ α ω} (member : taken ∈ steps step next state actions) : inv taken.before := by
  induction actions generalizing state with
  | nil => cases member
  | cons action actions inductionHypothesis =>
    cases stepped : step state action with
    | error err => simp [steps, stepped] at member
    | ok outcome =>
      rw [steps_cons stepped] at preserved member
      obtain ⟨first, further⟩ := List.forall_mem_cons.mp preserved
      cases List.mem_cons.mp member with
      | inl here =>
        subst here
        exact start
      | inr there => exact inductionHypothesis further (first start) there

/-- What a step establishes holds at the end of the run, when every later step preserves it. -/
theorem Run.carried {state final : σ} {actions : List α} (run : Run step next meets state actions final)
    (established : Step σ α ω → σ → Prop)
    (starts : ∀ taken ∈ steps step next state actions, established taken (next taken.outcome))
    (carries : (steps step next state actions).Pairwise fun earlier later =>
      established earlier later.before → established earlier (next later.outcome)) :
    ∀ taken ∈ steps step next state actions, established taken final := by
  induction run with
  | nil => simp [steps]
  | cons stepped _ further inductionHypothesis =>
    rw [steps_cons stepped] at starts carries ⊢
    obtain ⟨first, later⟩ := List.forall_mem_cons.mp starts
    obtain ⟨preserved, apart⟩ := List.pairwise_cons.mp carries
    intro taken member
    cases List.mem_cons.mp member with
    | inl here =>
      subst here
      exact further.invariant_steps (established _) preserved first
    | inr there => exact inductionHypothesis later apart taken there

end MjFormatter.Library
