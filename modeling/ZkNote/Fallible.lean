import Mathlib.Init

namespace Fallible

-- A sequence of fallible steps, taken apart at its first one.
variable {ε α β : Type} {x : Except ε α} {f : α → Except ε β}

theorem bind_done {b : β} (done : (x >>= f) = .ok b) : ∃ a, x = .ok a ∧ f a = .ok b := by
  cases x with
  | error e => cases done
  | ok a => exact ⟨a,rfl,done⟩

theorem bind_failed {e : ε} (failed : (x >>= f) = .error e) :
    x = .error e ∨ ∃ a, x = .ok a ∧ f a = .error e := by
  cases x with
  | error e' =>
      cases failed
      exact .inl rfl
  | ok a => exact .inr ⟨a,rfl,failed⟩

-- A check that let its input pass.
theorem passed {p : Prop} [Decidable p] {details : ε} {next : Except ε α} {value : α}
    (ok : (if p then .error details else next) = .ok value) : ¬p ∧ next = .ok value := by
  split at ok
  · cases ok
  · rename_i fails
    exact ⟨fails,ok⟩

theorem mapped_done {ε' : Type} {g : ε → ε'} {a : α} (done : x.mapError g = .ok a) : x = .ok a := by
  cases x with
  | error e => cases done
  | ok a' =>
      cases done
      rfl

end Fallible
