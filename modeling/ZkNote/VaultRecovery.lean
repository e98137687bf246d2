import Mathlib.Tactic.Common
import ZkNote.VaultFiles

namespace ZkNote.VaultRecovery
open CrashLog VaultFiles

abbrev Generation := VaultFile → Option Content

def active (d : Dir) : Generation := fun f => d.files f.name

theorem name_inj {f g : VaultFile} (same : f.name = g.name) : f = g := by
  cases f <;> cases g <;> first | rfl | exact absurd same (by decide)

theorem name_ne_journal (f : VaultFile) : f.name ≠ journalName := by cases f <;> decide
theorem name_ne_session (f : VaultFile) : f.name ≠ sessionName := by cases f <;> decide
theorem session_ne_journal : sessionName ≠ journalName := by decide

theorem stage_ne_backup (one two : String) : stagePath one ≠ backupPath two := by
  intro same
  have second := congrArg (fun s : String => s.toList.head?.bind (fun _ => s.toList[1]?)) same
  simp [stagePath,backupPath,String.toList_append] at second

variable {id : String} {g : Generation} {j : Journal} {backup : Generation} {d x : Dir} {listing : String → List String}

-- No transaction is open.
structure Idle (g : Generation) (d : Dir) : Prop where
  journal : d.files journalName = none
  held : active d = g

-- An open transaction that is to be undone: each file is in the backup, was not
-- there before, or has not been moved yet.
structure Undo (id : String) (g : Generation) (j : Journal) (backup : Generation) (d : Dir) : Prop where
  journal : d.files journalName = some (.journal j)
  version : j.formatVersion = 1
  transaction : j.transactionId = id
  uncommitted : j.phase ≠ .committed
  kept : ∀ f, d.inside (backupPath id) f.name = backup f
  moved : ∀ f content, backup f = some content → g f = some content
  absent : ∀ f, backup f = none → j.oldPresent f = false → g f = none
  waiting : ∀ f, backup f = none → j.oldPresent f = true → j.phase = .prepared ∧ active d f = g f

-- A committed one that only has to be cleaned up.
structure Redo (id : String) (g : Generation) (j : Journal) (d : Dir) : Prop where
  journal : d.files journalName = some (.journal j)
  version : j.formatVersion = 1
  transaction : j.transactionId = id
  committed : j.phase = .committed
  held : active d = g

-- The generation that recovery ends with.
def Recoverable (id : String) (g : Generation) (d : Dir) : Prop :=
  Idle g d ∨ (∃ j backup, Undo id g j backup d) ∨ ∃ j, Redo id g j d

theorem put_files (name : String) (content : Content) (d : Dir) : (Op.apply (.put name content) d).files = Function.update d.files name (some content) := rfl
theorem remove_files (name : String) (d : Dir) : (Op.apply (.remove name) d).files = Function.update d.files name none := rfl

theorem active_put (f : VaultFile) (content : Content) (d : Dir) :
    active (Op.apply (.put f.name content) d) = Function.update (active d) f (some content) := by
  funext h
  by_cases same : h = f
  · subst same
    simp [active,put_files]
  · have other : h.name ≠ f.name := fun equal => same (name_inj equal)
    simp [active,put_files,Function.update_of_ne same,Function.update_of_ne other]

theorem active_remove (f : VaultFile) (d : Dir) : active (Op.apply (.remove f.name) d) = Function.update (active d) f none := by
  funext h
  by_cases same : h = f
  · subst same
    simp [active,remove_files]
  · have other : h.name ≠ f.name := fun equal => same (name_inj equal)
    simp [active,remove_files,Function.update_of_ne same,Function.update_of_ne other]

theorem active_remove_journal (d : Dir) : active (Op.apply (.remove journalName) d) = active d := by
  funext h
  simp [active,remove_files,Function.update_of_ne (name_ne_journal h)]

-- Writing a file whose backup decides, or that is to be absent, undoes nothing.
theorem undo_put (undo : Undo id g j backup d) (f : VaultFile) (content : Content) (decided : backup f ≠ none) :
    Undo id g j backup (Op.apply (.put f.name content) d) := by
  refine ⟨?_,undo.version,undo.transaction,undo.uncommitted,undo.kept,undo.moved,undo.absent,?_⟩
  · rw [put_files,Function.update_of_ne (name_ne_journal f).symm]
    exact undo.journal
  · intro h unmoved present
    have apart : h ≠ f := fun same => decided (same ▸ unmoved)
    obtain ⟨phase,here⟩ := undo.waiting h unmoved present
    refine ⟨phase,?_⟩
    rw [active_put,Function.update_of_ne apart]
    exact here

theorem undo_remove (undo : Undo id g j backup d) (f : VaultFile) (new : j.oldPresent f = false) :
    Undo id g j backup (Op.apply (.remove f.name) d) := by
  refine ⟨?_,undo.version,undo.transaction,undo.uncommitted,undo.kept,undo.moved,undo.absent,?_⟩
  · rw [remove_files,Function.update_of_ne (name_ne_journal f).symm]
    exact undo.journal
  · intro h unmoved present
    have apart : h ≠ f := fun same => by rw [same,new] at present; cases present
    obtain ⟨phase,here⟩ := undo.waiting h unmoved present
    refine ⟨phase,?_⟩
    rw [active_remove,Function.update_of_ne apart]
    exact here

-- One turn of the loop goes well, changes only its own file and sets it right.
theorem restore_spec (undo : Undo id g j backup d) (f : VaultFile) :
    (restore d j f).result = .ok () ∧
    (∀ o ∈ ops (restore d j f).instrs, ∀ x, Undo id g j backup x → Undo id g j backup (o.apply x)) ∧
    ∀ x, active x f = active d f → active (run (restore d j f).instrs x) = Function.update (active x) f (g f) := by
  have found : d.inside (backupPath j.transactionId) f.name = backup f := by rw [undo.transaction]; exact undo.kept f
  cases held : backup f with
  | some content =>
      have same : restore d j f = ⟨atomicWrite f.name content,.ok ()⟩ := by simp only [restore,found,held]
      rw [same]
      refine ⟨rfl,?_,?_⟩
      · intro o inside x open'
        rw [List.mem_singleton.mp (show o ∈ [Op.put f.name content] from inside)]
        exact undo_put open' f content (by simp [held])
      · intro x _
        rw [undo.moved f content held]
        exact active_put f content x
  | none =>
      cases present : j.oldPresent f with
      | false =>
          have same : restore d j f = ⟨if (d.files f.name).isSome then [.op (.remove f.name)] else [],.ok ()⟩ := by
            simp [restore,found,held,present]
          rw [same,undo.absent f held present]
          refine ⟨rfl,?_,?_⟩
          · intro o inside x open'
            dsimp only at inside
            split at inside
            · rw [List.mem_singleton.mp (show o ∈ [Op.remove f.name] from inside)]
              exact undo_remove open' f present
            · cases inside
          · intro x here
            cases there : d.files f.name with
            | some content => exact active_remove f x
            | none =>
                have gone : active x f = none := here.trans there
                have stay : Function.update (active x) f none = active x := by rw [← gone,Function.update_eq_self]
                rw [stay]
                rfl
      | true =>
          obtain ⟨phase,here⟩ := undo.waiting f held present
          have same : restore d j f = ⟨[],.ok ()⟩ := by simp [restore,found,held,present,phase]
          rw [same]
          refine ⟨rfl,fun o inside => absurd inside List.not_mem_nil,?_⟩
          intro x still
          have right : active x f = g f := still.trans here
          simp [run,← right]

theorem and_then_ok {p q : Program} (fine : p.result = .ok ()) : p.andThen q = ⟨p.instrs ++ q.instrs,q.result⟩ := by
  unfold Program.andThen
  rw [fine]

theorem run_append (p q : List (Instr Op)) (d : Dir) : run (p ++ q) d = run q (run p d) := by
  simp [run]

theorem rollback_spec (undo : Undo id g j backup d) (list : List VaultFile) (once : list.Nodup) :
    (rollback d j list).result = .ok () ∧ (∃ front, (rollback d j list).instrs = front ++ [.sync]) ∧
    (∀ o ∈ ops (rollback d j list).instrs, ∀ x, Undo id g j backup x → Undo id g j backup (o.apply x)) ∧
    ∀ x, (∀ f ∈ list, active x f = active d f) → ∀ f,
      active (run (rollback d j list).instrs x) f = if f ∈ list then g f else active x f := by
  induction list with
  | nil => exact ⟨rfl,⟨[],rfl⟩,fun o inside => absurd inside List.not_mem_nil,fun x _ f => by simp [rollback,run]⟩
  | cons h rest ih =>
      obtain ⟨apart,distinct⟩ := List.nodup_cons.mp once
      obtain ⟨fine,⟨front,closed⟩,steady,done⟩ := ih distinct
      obtain ⟨first,keeps,sets⟩ := restore_spec undo h
      rw [rollback,and_then_ok first]
      refine ⟨fine,⟨(restore d j h).instrs ++ front,by dsimp only; rw [closed,List.append_assoc]⟩,?_,?_⟩
      · intro o inside
        rcases List.mem_append.mp ((ops_append _ _) ▸ inside) with here | later
        · exact keeps o here
        · exact steady o later
      · intro x same f
        dsimp only
        have set := sets x (same h List.mem_cons_self)
        have still : ∀ f ∈ rest, active (run (restore d j h).instrs x) f = active d f := by
          intro f inside
          have other : f ≠ h := fun equal => apart (equal ▸ inside)
          rw [set,Function.update_of_ne other]
          exact same f (List.mem_cons_of_mem _ inside)
        rw [run_append,done _ still f,set]
        by_cases later : f ∈ rest
        · simp [later]
        · by_cases equal : f = h
          · subst equal
            simp [apart]
          · simp [later,equal]

-- The writes that take one folder apart.
def Removes (folder : String) (o : Op) : Prop := (∃ name, o = .unlink folder name) ∨ o = .rmdir folder

theorem remove_folder_ops (listing : String → List String) (d : Dir) (folder : String) :
    ∀ o ∈ ops (removeFolder listing d folder), Removes folder o := by
  intro o inside
  unfold removeFolder at inside
  split at inside
  · unfold removeDirAll at inside
    rw [ops_append] at inside
    rcases List.mem_append.mp inside with unlinked | last
    · obtain ⟨instr,listed,is⟩ := List.mem_filterMap.mp unlinked
      obtain ⟨name,_,rfl⟩ := List.mem_map.mp listed
      cases is
      exact .inl ⟨name,rfl⟩
    · exact .inr (List.mem_singleton.mp (show o ∈ [Op.rmdir folder] from last))
  · cases inside

theorem removes_files {o : Op} (removes : Removes folder o) (d : Dir) : (o.apply d).files = d.files := by
  rcases removes with ⟨name,rfl⟩ | rfl
  · unfold Op.apply
    dsimp only
    split <;> rfl
  · rfl

theorem removes_other {o : Op} (removes : Removes folder o) (d : Dir) (other : String) (apart : other ≠ folder) :
    (o.apply d).folders other = d.folders other := by
  rcases removes with ⟨name,rfl⟩ | rfl
  · unfold Op.apply
    dsimp only
    split
    · rfl
    · exact Function.update_of_ne apart _ _
  · exact Function.update_of_ne apart _ _

theorem removes_active {o : Op} (removes : Removes folder o) (d : Dir) : active (o.apply d) = active d :=
  funext fun f => congrFun (removes_files removes d) f.name

-- Folders do not matter where no transaction is open.
theorem idle_removes {o : Op} (removes : Removes folder o) (idle : Idle g d) : Idle g (o.apply d) :=
  ⟨by rw [removes_files removes]; exact idle.journal,by rw [removes_active removes]; exact idle.held⟩

-- A folder that is not the transaction's backup does not matter where one is.
theorem recoverable_removes {o : Op} (removes : Removes folder o) (apart : folder ≠ backupPath id) (held : Recoverable id g d) :
    Recoverable id g (o.apply d) := by
  have files := removes_files removes d
  have still := removes_active removes d
  rcases held with idle | ⟨j,backup,undo⟩ | ⟨j,redo⟩
  · exact .inl (idle_removes removes idle)
  · refine .inr (.inl ⟨j,backup,by rw [files]; exact undo.journal,undo.version,undo.transaction,undo.uncommitted,?_,undo.moved,undo.absent,
      by rw [still]; exact undo.waiting⟩)
    intro f
    have same := removes_other removes d (backupPath id) apart.symm
    rw [← undo.kept f,Dir.inside,Dir.inside,same]
  · exact .inr (.inr ⟨j,by rw [files]; exact redo.journal,redo.version,redo.transaction,redo.committed,by rw [still]; exact redo.held⟩)

theorem clean_up_crash (listing : String → List String) (d : Dir) (one two : String) (within : ∀ x, Idle g x → R x) :
    Crash Op.apply (Idle g) (removeFolder listing d one ++ removeFolder listing d two ++ [.sync]) (Idle g) R := by
  have steady : ∀ o ∈ ops (removeFolder listing d one ++ removeFolder listing d two ++ [.sync]), ∀ x, Idle g x → Idle g (o.apply x) := by
    intro o inside x idle
    rw [ops_append,ops_append] at inside
    rcases List.mem_append.mp inside with both | none
    · rcases List.mem_append.mp both with first | second
      · exact idle_removes (remove_folder_ops listing d one o first) idle
      · exact idle_removes (remove_folder_ops listing d two o second) idle
    · cases none
  exact crash_block steady (fun x idle => apply_steady _ steady x idle) within

theorem recover_idle (idle : Idle g d) : recover listing d = ⟨[],.ok ()⟩ := by simp only [recover,idle.journal]

-- Wherever recovery is cut it can be started again, and once it is through the
-- generation is there.
theorem recover_crash (listing : String → List String) (held : Recoverable id g d) :
    (recover listing d).result = .ok () ∧
    Crash Op.apply (· = d) (recover listing d).instrs (Idle g) (Recoverable id g) := by
  rcases held with idle | ⟨j,backup,undo⟩ | ⟨j,redo⟩
  · rw [recover_idle idle]
    refine ⟨rfl,?_⟩
    rintro x rfl
    refine ⟨idle,?_⟩
    intro applied survives
    rw [List.sublist_nil.mp (survives_sublist survives)]
    exact .inl idle
  · obtain ⟨fine,⟨front,closed⟩,steady,done⟩ := rollback_spec undo files (by decide)
    have program : recover listing d = ⟨(rollback d j files).instrs ++ ([.op (.remove journalName),.sync] ++
        (removeFolder listing d (stagePath j.transactionId) ++ removeFolder listing d (backupPath j.transactionId) ++ [.sync])),.ok ()⟩ := by
      simp only [recover,undo.journal,undo.version,ne_eq,not_true_eq_false,if_false,undo.uncommitted,not_false_eq_true,if_true]
      rw [and_then_ok fine]
      simp
    rw [program]
    refine ⟨rfl,?_⟩
    have first : Crash Op.apply (· = d) (rollback d j files).instrs (fun x => Undo id g j backup x ∧ active x = g) (Recoverable id g) := by
      rintro x rfl
      refine ⟨⟨apply_steady _ steady x undo,?_⟩,?_⟩
      · funext f
        have all : f ∈ files := by cases f <;> decide
        have set := done x (fun _ _ => rfl) f
        rw [if_pos all] at set
        exact set
      · intro applied survives
        exact .inr (.inl ⟨j,backup,apply_steady applied (fun o inside => steady o ((survives_sublist survives).subset inside)) x undo⟩)
    refine crash_seq (.inr ⟨front,closed⟩) first (crash_seq (closed_step _) ?_ (clean_up_crash listing d _ _ (fun x idle => .inl idle)))
    refine crash_step _ ?_ (fun x held => .inr (.inl ⟨j,backup,held.1⟩)) (fun x idle => .inl idle)
    rintro x ⟨_,here⟩
    exact ⟨by rw [remove_files,Function.update_self],by rw [active_remove_journal]; exact here⟩
  · have program : recover listing d = ⟨[.op (.remove journalName),.sync] ++
        (removeFolder listing d (stagePath j.transactionId) ++ removeFolder listing d (backupPath j.transactionId) ++ [.sync]),.ok ()⟩ := by
      simp [recover,redo.journal,redo.version,redo.committed,Program.andThen]
    rw [program]
    refine ⟨rfl,crash_seq (closed_step _) ?_ (clean_up_crash listing d _ _ (fun x idle => .inl idle))⟩
    refine crash_step _ ?_ ?_ (fun x idle => .inl idle)
    · rintro x rfl
      exact ⟨by rw [remove_files,Function.update_self],by rw [active_remove_journal]; exact redo.held⟩
    · rintro x rfl
      exact .inr (.inr ⟨j,redo⟩)

theorem recover_closed (fine : (recover listing d).result = .ok ()) : Closed (recover listing d).instrs := by
  unfold recover at fine ⊢
  split
  · exact .inl rfl
  · exact .inl rfl
  · rename_i j journal
    simp only [journal] at fine
    split
    · exact .inl rfl
    · rename_i version
      rw [if_neg version] at fine
      generalize (if j.phase ≠ .committed then rollback d j files else ⟨[],.ok ()⟩) = first at fine ⊢
      cases result : first.result with
      | error message =>
          rw [Program.andThen,result] at fine
          cases fine
      | ok done =>
          rw [and_then_ok result]
          exact .inr ⟨_,(List.append_assoc _ _ _).symm⟩

end ZkNote.VaultRecovery
