import Mathlib.Data.List.Basic

namespace CrashLog

-- Programs of durable writes with barriers between them, and what a cut of the
-- power may leave of one.
variable {Op Disk : Type}

inductive Instr (Op : Type) where
  | op (o : Op)
  | sync
  deriving DecidableEq, Repr

def ops (prog : List (Instr Op)) : List Op :=
  prog.filterMap (fun | .op o => some o | .sync => none)

def applyAll (apply : Op → Disk → Disk) (list : List Op) (d : Disk) : Disk := list.foldl (fun d o => apply o d) d

-- All writes up to some point are on the disk. Of those after it that no barrier
-- has followed, any may be there and any may be missing.
def Survives (prog : List (Instr Op)) (applied : List Op) : Prop :=
  ∃ synced loose rest part, prog = synced ++ loose ++ rest ∧ .sync ∉ loose ∧ part.Sublist (ops loose) ∧ applied = ops synced ++ part

-- A program that ends with a barrier, or does nothing.
def Closed (prog : List (Instr Op)) : Prop := prog = [] ∨ ∃ front, prog = front ++ [.sync]

variable {apply : Op → Disk → Disk} {P Q R S : Disk → Prop} {p q : List (Instr Op)} {applied : List Op}

@[simp] theorem ops_nil : ops ([] : List (Instr Op)) = [] := rfl
@[simp] theorem ops_op (o : Op) (p : List (Instr Op)) : ops (.op o :: p) = o :: ops p := rfl
@[simp] theorem ops_sync (p : List (Instr Op)) : ops (.sync :: p) = ops p := rfl
@[simp] theorem ops_append (p q : List (Instr Op)) : ops (p ++ q) = ops p ++ ops q := List.filterMap_append

@[simp] theorem apply_nil (d : Disk) : applyAll apply [] d = d := rfl
@[simp] theorem apply_cons (o : Op) (list : List Op) (d : Disk) : applyAll apply (o :: list) d = applyAll apply list (apply o d) := rfl
@[simp] theorem apply_append (xs ys : List Op) (d : Disk) : applyAll apply (xs ++ ys) d = applyAll apply ys (applyAll apply xs d) :=
  List.foldl_append

theorem closed_step (o : Op) : Closed [.op o,.sync] := .inr ⟨[.op o],rfl⟩

theorem closed_append (one : Closed p) (two : Closed q) : Closed (p ++ q) := by
  rcases two with rfl | ⟨front,rfl⟩
  · rwa [List.append_nil]
  · exact .inr ⟨p ++ front,by rw [List.append_assoc]⟩

theorem closed_flatMap {α : Type} (list : List α) (f : α → List (Instr Op)) (closed : ∀ x ∈ list, Closed (f x)) : Closed (list.flatMap f) := by
  induction list with
  | nil => exact .inl rfl
  | cons x list ih =>
      rw [List.flatMap_cons]
      exact closed_append (closed x List.mem_cons_self) (ih (fun y inside => closed y (List.mem_cons_of_mem _ inside)))

theorem survives_whole (p : List (Instr Op)) : Survives p (ops p) := ⟨p,[],[],[],by simp,by simp,List.Sublist.refl _,by simp⟩

theorem survives_sublist (survives : Survives p applied) : applied.Sublist (ops p) := by
  obtain ⟨synced,loose,rest,part,rfl,_,sublist,rfl⟩ := survives
  rw [ops_append,ops_append]
  exact (List.Sublist.append (List.Sublist.refl _) sublist).trans (List.sublist_append_left _ _)

-- A barrier keeps what is lost on one side of it.
theorem survives_append (closed : Closed p) (survives : Survives (p ++ q) applied) :
    Survives p applied ∨ ∃ more, applied = ops p ++ more ∧ Survives q more := by
  obtain ⟨synced,loose,rest,part,same,quiet,sublist,rfl⟩ := survives
  rw [List.append_assoc] at same
  rcases List.append_eq_append_iff.mp same with ⟨later,rfl,behind⟩ | ⟨first,rfl,ahead⟩
  · exact .inr ⟨ops later ++ part,by simp,later,loose,rest,part,by rw [behind,List.append_assoc],quiet,sublist,rfl⟩
  · rcases List.append_eq_append_iff.mp ahead with ⟨middle,whole,behind⟩ | ⟨middle,whole,behind⟩
    · exact .inl ⟨synced,loose,middle,part,by rw [whole,List.append_assoc],quiet,sublist,rfl⟩
    · rcases List.eq_nil_or_concat first with rfl | ⟨init,y,rfl⟩
      · exact .inr ⟨part,by simp,[],loose,rest,part,by rw [List.nil_append,behind,whole]; simp,quiet,sublist,by simp⟩
      -- the last instruction before the boundary would be a barrier among the loose ones
      · rcases closed with empty | ⟨front,last⟩
        · simp at empty
        · rw [List.concat_eq_append,← List.append_assoc] at last
          have barrier : y = .sync := List.singleton_inj.mp (List.append_inj' last rfl).2
          exact absurd (by rw [whole,barrier]; simp) quiet

-- From any state of one kind the program gets to another kind, and wherever it is
-- cut it leaves a state of the third kind.
def Crash (apply : Op → Disk → Disk) (P : Disk → Prop) (prog : List (Instr Op)) (Q R : Disk → Prop) : Prop :=
  ∀ d, P d → Q (applyAll apply (ops prog) d) ∧ ∀ applied, Survives prog applied → R (applyAll apply applied d)

theorem apply_steady (list : List Op) (steady : ∀ o ∈ list, ∀ d, P d → P (apply o d)) (d : Disk) (held : P d) : P (applyAll apply list d) := by
  induction list generalizing d with
  | nil => exact held
  | cons o list ih => exact ih (fun x later => steady x (List.mem_cons_of_mem _ later)) _ (steady o List.mem_cons_self d held)

-- A stretch in which no write leaves the first kind of state.
theorem crash_block (steady : ∀ o ∈ ops p, ∀ d, P d → P (apply o d)) (moves : ∀ d, P d → Q (applyAll apply (ops p) d))
    (within : ∀ d, P d → R d) : Crash apply P p Q R := by
  intro d held
  refine ⟨moves d held,?_⟩
  intro applied survives
  exact within _ (apply_steady applied (fun o inside => steady o ((survives_sublist survives).subset inside)) d held)

theorem crash_skip (within : ∀ d, P d → R d) : Crash apply P [] P R :=
  crash_block (fun _ inside => absurd inside List.not_mem_nil) (fun _ held => held) within

theorem crash_step (o : Op) (moves : ∀ d, P d → Q (apply o d)) (before : ∀ d, P d → R d) (after : ∀ d, Q d → R d) :
    Crash apply P [.op o,.sync] Q R := by
  intro d held
  refine ⟨moves d held,?_⟩
  intro applied survives
  have part : applied.Sublist [o] := survives_sublist survives
  rcases List.sublist_singleton.mp part with rfl | rfl
  · exact before d held
  · exact after _ (moves d held)

theorem crash_seq (closed : Closed p) (one : Crash apply P p Q R) (two : Crash apply Q q S R) : Crash apply P (p ++ q) S R := by
  intro d held
  obtain ⟨middle,first⟩ := one d held
  obtain ⟨final,second⟩ := two _ middle
  refine ⟨by rw [ops_append,apply_append]; exact final,?_⟩
  intro applied survives
  rcases survives_append closed survives with early | ⟨more,rfl,late⟩
  · exact first applied early
  · rw [apply_append]
    exact second more late

-- A loop: `Mid done` holds once the part `done` of the list is through.
theorem crash_flatMap {α : Type} (list : List α) (f : α → List (Instr Op)) (Mid : List α → Disk → Prop)
    (closed : ∀ x ∈ list, Closed (f x))
    (each : ∀ front x rest, list = front ++ x :: rest → Crash apply (Mid front) (f x) (Mid (front ++ [x])) R)
    (within : ∀ front rest, list = front ++ rest → ∀ d, Mid front d → R d) : Crash apply (Mid []) (list.flatMap f) (Mid list) R := by
  have go : ∀ (rest front : List α), list = front ++ rest → Crash apply (Mid front) (rest.flatMap f) (Mid list) R := by
    intro rest
    induction rest with
    | nil =>
        intro front same
        have held := within front [] same
        rw [List.append_nil] at same
        subst same
        exact crash_skip held
    | cons x rest ih =>
        intro front same
        rw [List.flatMap_cons]
        exact crash_seq (closed x (by rw [same]; simp)) (each front x rest same) (ih (front ++ [x]) (by simp [same]))
  exact go list [] rfl

end CrashLog
