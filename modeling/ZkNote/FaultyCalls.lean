import ZkNote.CrashLog

namespace FaultyCalls
open CrashLog

-- Programs that stop at the first call that returns an error. One call of a run
-- may do so, and may have had its effect all the same.
variable {Op Disk : Type}

inductive Call (Op : Type) where
  | act (o : Op)
  | quiet
  deriving DecidableEq, Repr

def acts (calls : List (Call Op)) : List Op :=
  calls.filterMap (fun | .act o => some o | .quiet => none)

structure Fault where
  call : Nat
  took : Bool
  deriving DecidableEq, Repr

structure Script (Op : Type) where
  calls : List (Call Op)
  result : Except String Unit

def Script.andThen (p next : Script Op) : Script Op :=
  match p.result with
  | .error message => ⟨p.calls,.error message⟩
  | .ok () => ⟨p.calls ++ next.calls,next.result⟩

-- `fault` is the failure that is still to come, counted from the next call.
structure Outcome (Disk : Type) where
  disk : Disk
  result : Except String Unit
  fault : Option Fault

def later (n : Nat) (fault : Option Fault) : Option Fault := fault.map (fun f => ⟨f.call-n,f.took⟩)

def attempt (apply : Op → Disk → Disk) (p : Script Op) (fault : Option Fault) (d : Disk) : Outcome Disk :=
  match fault with
  | none => ⟨applyAll apply (acts p.calls) d,p.result,none⟩
  | some f =>
    if f.call < p.calls.length then
      ⟨applyAll apply (acts (p.calls.take (if f.took then f.call+1 else f.call))) d,.error "input/output error",none⟩
    else ⟨applyAll apply (acts p.calls) d,p.result,later p.calls.length fault⟩

namespace Outcome

-- Whatever comes of it, the result so far stands.
def dropping (apply : Op → Disk → Disk) (a : Outcome Disk) (next : Disk → Script Op) : Outcome Disk :=
  let b := attempt apply (next a.disk) a.fault a.disk
  ⟨b.disk,a.result,b.fault⟩

def andThen (apply : Op → Disk → Disk) (a : Outcome Disk) (next : Disk → Script Op) : Outcome Disk :=
  match a.result with
  | .error _ => a
  | .ok () => attempt apply (next a.disk) a.fault a.disk

def andTry (apply : Op → Disk → Disk) (a : Outcome Disk) (next : Disk → Script Op) : Outcome Disk :=
  match a.result with
  | .error _ => a
  | .ok () => a.dropping apply next

end Outcome

variable {apply : Op → Disk → Disk} {P Q R : Disk → Prop} {prog : List (Instr Op)} {p q : Script Op} {fault : Option Fault} {d : Disk}
  {applied : List Op} {calls front : List (Call Op)} {n : Nat}

@[simp] theorem acts_nil : acts ([] : List (Call Op)) = [] := rfl
@[simp] theorem acts_act (o : Op) (calls : List (Call Op)) : acts (.act o :: calls) = o :: acts calls := rfl
@[simp] theorem acts_quiet (calls : List (Call Op)) : acts (.quiet :: calls) = acts calls := rfl
@[simp] theorem acts_append (calls more : List (Call Op)) : acts (calls ++ more) = acts calls ++ acts more := List.filterMap_append

theorem acts_flatMap {α : Type} (list : List α) (f : α → List (Call Op)) (g : α → List (Instr Op)) (same : ∀ x, acts (f x) = ops (g x)) :
    acts (list.flatMap f) = ops (list.flatMap g) := by
  induction list with
  | nil => rfl
  | cons x rest ih => rw [List.flatMap_cons,List.flatMap_cons,acts_append,ops_append,same,ih]

theorem acts_shorter (shorter : front <+: calls) : acts front <+: acts calls := by
  obtain ⟨rest,rfl⟩ := shorter
  exact ⟨acts rest,(acts_append front rest).symm⟩

-- Where the failure does not come, and where it does.
def Misses (n : Nat) (fault : Option Fault) : Prop := ∀ f ∈ fault, n ≤ f.call

theorem later_some {f' : Fault} (is : later n fault = some f') : ∃ f, fault = some f ∧ f' = ⟨f.call-n,f.took⟩ := by
  cases fault with
  | none => cases is
  | some f => exact ⟨f,rfl,(Option.some.inj is).symm⟩

theorem attempt_passes (misses : Misses p.calls.length fault) :
    attempt apply p fault d = ⟨applyAll apply (acts p.calls) d,p.result,later p.calls.length fault⟩ := by
  cases fault with
  | none => rfl
  | some f =>
      unfold attempt
      dsimp only
      rw [if_neg (Nat.not_lt.mpr (misses f rfl))]

theorem attempt_stops {f : Fault} (hits : f.call < p.calls.length) :
    attempt apply p (some f) d =
      ⟨applyAll apply (acts (p.calls.take (if f.took then f.call+1 else f.call))) d,.error "input/output error",none⟩ := by
  unfold attempt
  dsimp only
  rw [if_pos hits]

theorem misses_or (n : Nat) (fault : Option Fault) : Misses n fault ∨ ∃ f, fault = some f ∧ f.call < n := by
  cases fault with
  | none => exact .inl (fun f inside => by cases inside)
  | some f =>
      by_cases hits : f.call < n
      · exact .inr ⟨f,rfl,hits⟩
      · refine .inl (fun f' inside => ?_)
        cases inside
        exact Nat.le_of_not_lt hits

theorem attempt_ends (apply : Op → Disk → Disk) (p : Script Op) (fault : Option Fault) (d : Disk) :
    (Misses p.calls.length fault ∧
      attempt apply p fault d = ⟨applyAll apply (acts p.calls) d,p.result,later p.calls.length fault⟩) ∨
    ∃ f, fault = some f ∧ f.call < p.calls.length ∧
      attempt apply p fault d = ⟨(attempt apply p fault d).disk,.error "input/output error",none⟩ := by
  rcases misses_or p.calls.length fault with misses | ⟨f,rfl,hits⟩
  · exact .inl ⟨misses,attempt_passes misses⟩
  · refine .inr ⟨f,rfl,hits,?_⟩
    rw [attempt_stops hits]

theorem misses_later {m : Nat} (misses : Misses n fault) (rest : Misses m (later n fault)) : Misses (n+m) fault := by
  intro f inside
  have one := misses f inside
  obtain rfl := Option.mem_def.mp inside
  have two := rest ⟨f.call-n,f.took⟩ rfl
  dsimp only at two
  omega

theorem later_later (n m : Nat) (fault : Option Fault) : later m (later n fault) = later (n+m) fault := by
  cases fault with
  | none => rfl
  | some f => exact congrArg (fun call => some (Fault.mk call f.took)) (Nat.sub_sub f.call n m)

-- Every write up to a call survives it.
theorem survives_front (shorter : applied <+: ops prog) : Survives prog applied := by
  obtain ⟨front,rest,same,written⟩ : ∃ front rest, prog = front ++ rest ∧ ops front = applied := by
    induction prog generalizing applied with
    | nil =>
        obtain rfl := List.prefix_nil.mp shorter
        exact ⟨[],[],rfl,rfl⟩
    | cons instr prog ih =>
        cases instr with
        | sync =>
            obtain ⟨front,rest,rfl,written⟩ := ih shorter
            exact ⟨.sync :: front,rest,rfl,written⟩
        | op o =>
            cases applied with
            | nil => exact ⟨[],.op o :: prog,rfl,rfl⟩
            | cons o' applied =>
                rw [ops_op,List.cons_prefix_cons] at shorter
                obtain ⟨rfl,tail⟩ := shorter
                obtain ⟨front,rest,rfl,written⟩ := ih tail
                exact ⟨.op o' :: front,rest,rfl,congrArg (o' :: ·) written⟩
  exact ⟨front,[],rest,[],by rw [same,List.append_nil],List.not_mem_nil,List.Sublist.refl _,by rw [written,List.append_nil]⟩

-- What is shown of a cut of the power holds of a failing call.
theorem attempt_crash (fault : Option Fault) (crash : Crash apply P prog Q R) (same : acts p.calls = ops prog) (held : P d) :
    (Misses p.calls.length fault ∧ attempt apply p fault d = ⟨applyAll apply (acts p.calls) d,p.result,later p.calls.length fault⟩ ∧
      Q (applyAll apply (acts p.calls) d)) ∨
    ∃ f x, fault = some f ∧ f.call < p.calls.length ∧ attempt apply p fault d = ⟨x,.error "input/output error",none⟩ ∧ R x := by
  obtain ⟨through,cut⟩ := crash d held
  rcases misses_or p.calls.length fault with misses | ⟨f,rfl,hits⟩
  · exact .inl ⟨misses,attempt_passes misses,same ▸ through⟩
  · have shorter := acts_shorter (p.calls.take_prefix (if f.took then f.call+1 else f.call))
    rw [same] at shorter
    exact .inr ⟨f,_,rfl,hits,attempt_stops hits,cut _ (survives_front shorter)⟩

theorem attempt_steady (steady : ∀ o ∈ acts p.calls, ∀ d, P d → P (apply o d)) (held : P d) : P (attempt apply p fault d).disk := by
  have all : ∀ front, front <+: p.calls → P (applyAll apply (acts front) d) :=
    fun front shorter => apply_steady _ (fun o inside => steady o ((acts_shorter shorter).subset inside)) d held
  unfold attempt
  split
  · exact all _ (List.prefix_refl _)
  · split
    · exact all _ (List.take_prefix _ _)
    · exact all _ (List.prefix_refl _)

end FaultyCalls
