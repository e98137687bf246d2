import Mathlib.Data.Option.Basic

namespace Runs

-- Runs of a partial step function: a list of events, each taken in the state
-- the one before it left.
variable {Event State : Type} {step : Event → State → Option State} {Fine : Event → State → Prop} {s t : State}

def runAll (step : Event → State → Option State) : List Event → State → Option State
  | [],s => some s
  | event :: rest,s => (step event s).bind (runAll step rest)

-- A condition on every event of a run, in the state it starts from.
def Along (step : Event → State → Option State) (Fine : Event → State → Prop) : List Event → State → Prop
  | [],_ => True
  | event :: rest,s => Fine event s ∧ ∀ next ∈ step event s, Along step Fine rest next

instance alongDecidable (step : Event → State → Option State) (Fine : Event → State → Prop) [∀ event s, Decidable (Fine event s)] :
    ∀ events s, Decidable (Along step Fine events s)
  | [],_ => inferInstanceAs (Decidable True)
  | event :: rest,s =>
    have := alongDecidable step Fine rest
    inferInstanceAs (Decidable (Fine event s ∧ ∀ next ∈ step event s, Along step Fine rest next))

theorem run_append (first second : List Event) (s : State) :
    runAll step (first ++ second) s = (runAll step first s).bind (runAll step second) := by
  induction first generalizing s with
  | nil => rfl
  | cons event rest ih =>
      show (step event s).bind (runAll step (rest ++ second)) = ((step event s).bind (runAll step rest)).bind (runAll step second)
      cases step event s with
      | none => rfl
      | some next => exact ih next

theorem run_then {first second : List Event} {u : State} (one : runAll step first s = some t) (two : runAll step second t = some u) :
    runAll step (first ++ second) s = some u := by
  rw [run_append,one]
  exact two

theorem along_both {Also : Event → State → Prop} (events : List Event) (one : Along step Fine events s)
    (two : Along step Also events s) : Along step (fun event s => Fine event s ∧ Also event s) events s := by
  induction events generalizing s with
  | nil => trivial
  | cons event rest ih => exact ⟨⟨one.1,two.1⟩,fun next taken => ih (one.2 next taken) (two.2 next taken)⟩

theorem along_true (events : List Event) : Along step (fun _ _ => True) events s := by
  induction events generalizing s with
  | nil => trivial
  | cons event rest ih => exact ⟨trivial,fun _ _ => ih⟩

theorem along_listed {P : Event → Prop} (events : List Event) (all : ∀ event ∈ events, P event) :
    Along step (fun event _ => P event) events s := by
  induction events generalizing s with
  | nil => trivial
  | cons event rest ih =>
      obtain ⟨first,later⟩ := List.forall_mem_cons.mp all
      exact ⟨first,fun _ _ => ih later⟩

-- Two conditions that agree on every fine event agree along a fine run.
theorem along_congr {P Q : Event → State → Prop} (same : ∀ event s, Fine event s → (P event s ↔ Q event s)) (events : List Event)
    (fine : Along step Fine events s) : Along step P events s ↔ Along step Q events s := by
  induction events generalizing s with
  | nil => exact Iff.rfl
  | cons event rest ih =>
      refine and_congr (same event s fine.1) (forall_congr' fun next => ?_)
      exact imp_congr_right fun taken => ih (fine.2 next taken)

-- What every fine event keeps holds where a fine run ends.
theorem run_keeps (Inv : State → Prop) (keeps : ∀ event s t, Inv s → Fine event s → step event s = some t → Inv t)
    (events : List Event) (fine : Along step Fine events s) (start : Inv s) (ran : runAll step events s = some t) : Inv t := by
  induction events generalizing s with
  | nil =>
      cases ran
      exact start
  | cons event rest ih =>
      obtain ⟨next,taken,more⟩ := Option.bind_eq_some_iff.mp ran
      exact ih (fine.2 next taken) (keeps event s next start fine.1 taken) more

theorem run_invariant (Inv : State → Prop) (keeps : ∀ event s t, Inv s → step event s = some t → Inv t) (events : List Event)
    (start : Inv s) (ran : runAll step events s = some t) : Inv t :=
  run_keeps Inv (fun event s t inv _ taken => keeps event s t inv taken) events (along_true events) start ran

end Runs
