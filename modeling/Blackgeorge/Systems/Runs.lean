import Mathlib.Data.List.Forall2

/-! Runs of a system that answers calls: a call is answered or refused in each state, and what
the caller saw is kept beside the state that is reached. -/

namespace Blackgeorge.Systems

variable {State Call Answer : Type*}

/-- The calls were made one after another, each where `allowed` has it, and were answered. -/
inductive Run (step : State → Call → Option (Answer × State)) (allowed : State → Call → Prop)
    (start : State) : List Answer → State → Prop
  | start : Run step allowed start [] start
  | call {seen : List Answer} {s s' : State} {c : Call} {a : Answer}
    (h : Run step allowed start seen s) (hc : allowed s c) (hstep : step s c = some (a, s')) :
    Run step allowed start (seen ++ [a]) s'

variable {step : State → Call → Option (Answer × State)} {allowed : State → Call → Prop}
  {start : State}

/-- What holds at the start and is kept by every allowed call holds in every state reached. -/
theorem Run.invariant {I : List Answer → State → Prop} (hstart : I [] start)
    (hcall : ∀ seen s c a s', I seen s → allowed s c → step s c = some (a, s') →
      I (seen ++ [a]) s')
    {seen : List Answer} {s : State} (h : Run step allowed start seen s) : I seen s := by
  induction h with
  | start => exact hstart
  | call _ hc hstep ih => exact hcall _ _ _ _ _ ih hc hstep

/-- The calls of a list made from a state on, with what each is answered. -/
def answers (step : State → Call → Option (Answer × State)) (s : State) :
    List Call → Option (List Answer × State)
  | [] => some ([], s)
  | c :: cs => do
    let (a, s) ← step s c
    let (as, s) ← answers step s cs
    some (a :: as, s)

theorem Run.answers {seen : List Answer} {s : State} (h : Run step allowed start seen s)
    (hallowed : ∀ s c, allowed s c) : ∀ {cs : List Call} {as : List Answer} {s' : State},
      answers step s cs = some (as, s') → Run step allowed start (seen ++ as) s' := by
  intro cs
  induction cs generalizing seen s with
  | nil =>
    intro as s' h'
    obtain ⟨rfl, rfl⟩ := Prod.mk.inj (Option.some.inj h')
    rwa [List.append_nil]
  | cons c cs ih =>
    intro as s' h'
    simp only [Systems.answers, Option.bind_eq_bind, Option.bind_eq_some_iff] at h'
    obtain ⟨⟨a, s₁⟩, hstep, ⟨bs, s₂⟩, hrest, h'⟩ := h'
    obtain ⟨rfl, rfl⟩ := Prod.mk.inj (Option.some.inj h')
    have hrun := ih (h.call (hallowed s c) hstep) hrest
    rwa [List.append_assoc] at hrun

/-! ### Two systems side by side -/

variable {State' Call' Answer' : Type*} {step' : State' → Call' → Option (Answer' × State')}
  {Alike : State → State' → Prop} {Same : Call → Call' → Prop} {Agree : Answer → Answer' → Prop}

/-- Systems that answer like calls alike, and stay alike, answer like lists of calls alike. -/
theorem answers_of_simulation
    (hstep : ∀ s s' c c', Alike s s' → Same c c' → ∃ a a' t t', step s c = some (a, t) ∧
      step' s' c' = some (a', t') ∧ Agree a a' ∧ Alike t t')
    {cs : List Call} {cs' : List Call'} (hcalls : List.Forall₂ Same cs cs') :
    ∀ {s : State} {s' : State'}, Alike s s' → ∃ as as' t t', answers step s cs = some (as, t) ∧
      answers step' s' cs' = some (as', t') ∧ List.Forall₂ Agree as as' ∧ Alike t t' := by
  induction hcalls with
  | nil => exact fun {s s'} h => ⟨[], [], s, s', rfl, rfl, List.Forall₂.nil, h⟩
  | @cons c c' cs cs' hc _ ih =>
    intro s s' h
    obtain ⟨a, a', t, t', hs, hs', ha, ht⟩ := hstep s s' c c' h hc
    obtain ⟨as, as', u, u', hrest, hrest', has, hu⟩ := ih ht
    refine ⟨a :: as, a' :: as', u, u', ?_, ?_, List.Forall₂.cons ha has, hu⟩
    · simp only [answers, hs, hrest, Option.bind_eq_bind, Option.bind_some]
    · simp only [answers, hs', hrest', Option.bind_eq_bind, Option.bind_some]

end Blackgeorge.Systems
