namespace Tenants

-- A service of many tenants: it takes one event after another and answers each.
variable {State Event Answer : Type}

section
variable (step : Event → State → Answer × State)

-- The answers to the events of one tenant, in order.
def answers (mine : Event → Bool) : List Event → State → List Answer
  | [],_ => []
  | e :: events,s =>
    if mine e then (step e s).1 :: answers mine events (step e s).2 else answers mine events (step e s).2

-- What the tenant's part of a state is, and which states and events keep it apart
-- from the rest: an own event acts on the part as on the whole, and another's
-- event does not act on it.
structure Scoped (mine : Event → Bool) (part : State → State) (Sound : State → Prop) (Allowed : Event → Prop) : Prop where
  keeps : ∀ {e s}, Sound s → Allowed e → Sound (step e s).2
  own : ∀ {e s}, Sound s → Allowed e → mine e = true → step e (part s) = ((step e s).1,part (step e s).2)
  other : ∀ {e s}, Sound s → Allowed e → mine e = false → part (step e s).2 = part s

end

variable {step : Event → State → Answer × State} {mine : Event → Bool} {part : State → State} {Sound : State → Prop}
  {Allowed : Event → Prop}

-- A tenant is served as if there were no other, from its part of the state.
theorem answers_alone (apart : Scoped step mine part Sound Allowed) (events : List Event) (allowed : ∀ e ∈ events, Allowed e) (sound : Sound s) :
    answers step mine events s = answers step mine (events.filter mine) (part s) := by
  induction events generalizing s with
  | nil => rfl
  | cons e events ih =>
      have first := allowed e List.mem_cons_self
      have rest := ih (fun e inside => allowed e (List.mem_cons_of_mem _ inside)) (apart.keeps sound first)
      cases is : mine e with
      | true =>
          have acted := apart.own sound first is
          rw [List.filter_cons_of_pos is,answers,answers,if_pos is,if_pos is,acted,rest]
      | false =>
          rw [List.filter_cons_of_neg (by simp [is]),answers,if_neg (by simp [is]),rest,apart.other sound first is]

-- Noninterference: two runs that agree on a tenant's events answer it alike,
-- whatever the others do in them.
theorem two_runs (apart : Scoped step mine part Sound Allowed) {left right : List Event} (same : left.filter mine = right.filter mine)
    (parts : part s = part t) (leftAllowed : ∀ e ∈ left, Allowed e) (rightAllowed : ∀ e ∈ right, Allowed e) (leftSound : Sound s)
    (rightSound : Sound t) : answers step mine left s = answers step mine right t := by
  rw [answers_alone apart left leftAllowed leftSound,answers_alone apart right rightAllowed rightSound,same,parts]

end Tenants
