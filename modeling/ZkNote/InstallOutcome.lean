import ZkNote.InstallReturns

namespace ZkNote.InstallOutcome
open CrashLog FaultyCalls VaultFiles VaultRecovery VaultReplacement VaultInstall InstallReturns

variable {id : String} {g old new new' : Generation} {moved after after' : Prop} {d x : Dir} {listing : String → List String} {staged : StagedVault}
  {fault : Option Fault} {j : Journal} {o : Op} {a : Outcome Dir}

-- "The journal, not a mixed active directory, defines which generation may be
-- opened": what an open transaction is to be taken back to.
def oldGeneration (d : Dir) : Generation :=
  match d.files journalName with
  | some (.journal j) =>
    if j.phase = .committed then active d
    else fun f => match d.inside (backupPath j.transactionId) f.name with
      | some content => some content
      | none => if j.oldPresent f then active d f else none
  | _ => active d

-- A journal that recovery refuses.
def Refused (d : Dir) (j : Journal) : Prop :=
  j.formatVersion ≠ 1 ∨ (j.phase ≠ .committed ∧ j.phase ≠ .prepared ∧
    ∃ f : VaultFile, d.inside (backupPath j.transactionId) f.name = none ∧ j.oldPresent f = true)

inductive Stuck (d : Dir) : Prop where
  | corrupt (data : List UInt8) (journal : d.files journalName = some (.bytes data))
  | refused (j : Journal) (journal : d.files journalName = some (.journal j)) (refused : Refused d j)

theorem old_or_stuck (d : Dir) : (∃ id, Recoverable id (oldGeneration d) d) ∨ Stuck d := by
  cases journal : d.files journalName with
  | none => exact .inl ⟨"",.inl ⟨journal,by simp only [oldGeneration,journal]⟩⟩
  | some content =>
      cases content with
      | bytes data => exact .inr (.corrupt data journal)
      | journal j =>
          by_cases refused : Refused d j
          · exact .inr (.refused j journal refused)
          · left
            have version : j.formatVersion = 1 := Decidable.not_not.mp (fun other => refused (.inl other))
            by_cases committed : j.phase = .committed
            · exact ⟨j.transactionId,.inr (.inr ⟨j,journal,version,rfl,committed,by simp only [oldGeneration,journal,committed,if_true]⟩)⟩
            · have is : ∀ f, oldGeneration d f = match d.inside (backupPath j.transactionId) f.name with
                  | some content => some content
                  | none => if j.oldPresent f then active d f else none := by
                intro f
                simp only [oldGeneration,journal,committed,if_false]
              refine ⟨j.transactionId,.inr (.inl ⟨j,fun f => d.inside (backupPath j.transactionId) f.name,journal,version,rfl,committed,fun _ => rfl,
                ?_,?_,?_⟩)⟩
              · intro f content kept
                rw [is,kept]
              · intro f gone absent
                rw [is,gone]
                simp only [absent,Bool.false_eq_true,if_false]
              · intro f gone present
                refine ⟨Decidable.not_not.mp (fun other => refused (.inr ⟨committed,other,f,gone,present⟩)),?_⟩
                rw [is,gone]
                simp only [present,if_true]

-- What the rollback loop writes.
def Restores (o : Op) : Prop := ∃ f : VaultFile, (∃ content, o = .put f.name content) ∨ o = .remove f.name

theorem restore_writes (inside : o ∈ ops (VaultFiles.restore d j f).instrs) : Restores o := by
  unfold VaultFiles.restore at inside
  split at inside
  · exact ⟨f,.inl ⟨_,List.mem_singleton.mp inside⟩⟩
  · split at inside
    · dsimp only at inside
      split at inside
      · exact ⟨f,.inr (List.mem_singleton.mp inside)⟩
      · cases inside
    · split at inside <;> cases inside

theorem rollback_writes (list : List VaultFile) (inside : o ∈ ops (VaultFiles.rollback d j list).instrs) : Restores o := by
  induction list with
  | nil => cases inside
  | cons f rest ih =>
      rcases and_then_ops _ _ inside with here | later
      · exact restore_writes here
      · exact ih later

theorem restores_apart (restores : Restores o) (d : Dir) : (o.apply d).files journalName = d.files journalName ∧ (o.apply d).folders = d.folders := by
  obtain ⟨f,⟨content,rfl⟩ | rfl⟩ := restores
  · exact ⟨Function.update_of_ne (name_ne_journal f).symm _ _,rfl⟩
  · exact ⟨Function.update_of_ne (name_ne_journal f).symm _ _,rfl⟩

theorem and_then_error {p : Program} {message : String} (failed : p.result = .error message) (q : Program) : p.andThen q = ⟨p.instrs,.error message⟩ := by
  unfold Program.andThen
  rw [failed]

theorem rollback_missing (phase : j.phase ≠ .prepared) {f : VaultFile} (gone : d.inside (backupPath j.transactionId) f.name = none)
    (present : j.oldPresent f = true) (list : List VaultFile) (inside : f ∈ list) : ∃ message, (VaultFiles.rollback d j list).result = .error message := by
  induction list with
  | nil => cases inside
  | cons h rest ih =>
      unfold VaultFiles.rollback
      cases first : (VaultFiles.restore d j h).result with
      | error message => exact ⟨message,by rw [and_then_error first]⟩
      | ok done =>
          rw [and_then_ok first]
          rcases List.mem_cons.mp inside with rfl | later
          · simp only [VaultFiles.restore,gone,present,phase,Bool.true_eq_false,if_false,ne_eq,not_false_eq_true,if_true] at first
            cases first
          · exact ih later

theorem stuck_same (stuck : Stuck d) (journal : x.files journalName = d.files journalName)
    (backups : ∀ id, x.folders (backupPath id) = d.folders (backupPath id)) : Stuck x := by
  cases stuck with
  | corrupt data is => exact .corrupt data (journal.trans is)
  | refused j is refused =>
      refine .refused j (journal.trans is) ?_
      have same : ∀ f : VaultFile, x.inside (backupPath j.transactionId) f.name = d.inside (backupPath j.transactionId) f.name := by
        intro f
        rw [Dir.inside,Dir.inside,backups]
      rcases refused with version | ⟨one,two,f,gone,present⟩
      · exact .inl version
      · exact .inr ⟨one,two,f,(same f).trans gone,present⟩

theorem stuck_recover (stuck : Stuck d) (listing : String → List String) :
    (∃ message, (VaultFiles.recover listing d).result = .error message) ∧ ∀ o ∈ ops (VaultFiles.recover listing d).instrs, Restores o := by
  cases stuck with
  | corrupt data journal =>
      simp only [VaultFiles.recover,journal]
      exact ⟨⟨_,rfl⟩,fun _ inside => absurd inside List.not_mem_nil⟩
  | refused j journal refused =>
      simp only [VaultFiles.recover,journal]
      by_cases version : j.formatVersion ≠ 1
      · rw [if_pos version]
        exact ⟨⟨_,rfl⟩,fun _ inside => absurd inside List.not_mem_nil⟩
      · rcases refused with other | ⟨uncommitted,phase,f,gone,present⟩
        · exact absurd other version
        · obtain ⟨message,failed⟩ := rollback_missing phase gone present files (by cases f <;> decide)
          rw [if_neg version,if_pos uncommitted,and_then_error failed]
          exact ⟨⟨message,rfl⟩,fun o inside => rollback_writes files inside⟩

theorem stuck_attempt (stuck : Stuck d) (listing : String → List String) (fault : Option Fault) :
    ∃ message, (attempt Op.apply (VaultInstall.recover listing d) fault d).result = .error message ∧
      Stuck (attempt Op.apply (VaultInstall.recover listing d) fault d).disk := by
  obtain ⟨⟨message,failed⟩,writes⟩ := stuck_recover stuck listing
  obtain ⟨same,result⟩ := recover_acts listing d
  have still : Stuck (attempt Op.apply (VaultInstall.recover listing d) fault d).disk := by
    refine attempt_steady (fun o inside x stuck => ?_) stuck
    rw [same] at inside
    obtain ⟨journal,folders⟩ := restores_apart (writes o inside) x
    exact stuck_same stuck journal (fun id => by rw [folders])
  rcases attempt_ends Op.apply (VaultInstall.recover listing d) fault d with ⟨_,passed⟩ | ⟨_,_,_,stopped⟩
  · exact ⟨message,by rw [passed]; exact result.trans failed,still⟩
  · exact ⟨_,by rw [stopped],still⟩

-- Nothing follows a recovery that fails but the drop of the staged vault.
theorem hook_stops {message : String} (failed : (attempt Op.apply (VaultInstall.recover listing d) fault d).result = .error message) :
    VaultInstall.installWithHook listing staged fault d =
      (attempt Op.apply (VaultInstall.recover listing d) fault d).dropping Op.apply (dropStaged listing staged) := by
  unfold VaultInstall.installWithHook
  dsimp only
  rw [(error_stays failed _).2,(error_stays failed _).1,(error_stays failed _).1,(error_stays failed _).1,(error_stays failed _).1]

theorem stuck_hook (stuck : Stuck d) (listing : String → List String) (staged : StagedVault) (fault : Option Fault) :
    ∃ message, (VaultInstall.installWithHook listing staged fault d).result = .error message ∧
      Stuck (VaultInstall.installWithHook listing staged fault d).disk := by
  obtain ⟨message,failed,still⟩ := stuck_attempt stuck listing fault
  rw [hook_stops failed]
  refine ⟨message,failed,?_⟩
  refine attempt_steady (fun o inside x stuck => ?_) still
  have removes := drop_removes listing staged _ o inside
  exact stuck_same stuck (by rw [removes_files removes]) (fun id => removes_other removes x _ (stage_ne_backup staged.id id).symm)

-- The session file, whatever its overwriting comes to.
def withSession (d : Dir) (content : Option Content) : Dir := {d with files := Function.update d.files sessionName content}

theorem with_session_self (d : Dir) : withSession d (d.files sessionName) = d := by
  rw [withSession,Function.update_eq_self]

theorem with_session_files (d : Dir) (content : Option Content) : (withSession d content).files sessionName = content := by
  simp [withSession]

theorem with_session_twice (d : Dir) (first second : Option Content) : withSession (withSession d first) second = withSession d second := by
  unfold withSession
  dsimp only
  rw [Function.update_idem]

theorem zero_session (d : Dir) (fault : Option Fault) :
    ∃ content : Option Content, (attempt Op.apply (zeroSession d) fault d).disk = withSession d content ∧
      content.isSome = (d.files sessionName).isSome := by
  refine attempt_steady (P := fun x => ∃ content : Option Content, x = withSession d content ∧ content.isSome = (d.files sessionName).isSome)
    (fun o inside x held => ?_) ⟨d.files sessionName,(with_session_self d).symm,rfl⟩
  obtain ⟨content,rfl,_⟩ := held
  cases present : d.files sessionName with
  | none =>
      simp only [zeroSession,present] at inside
      cases inside
  | some old =>
      have put : ∃ data, o = .put sessionName data := by
        unfold zeroSession at inside
        rw [present] at inside
        split at inside
        · cases inside
        · cases inside
        · exact ⟨_,List.mem_singleton.mp inside⟩
      obtain ⟨data,rfl⟩ := put
      exact ⟨some data,with_session_twice d content (some data),rfl⟩

theorem remove_session (d : Dir) (content : Option Content) (same : content.isSome = (d.files sessionName).isSome) :
    (removeSession (withSession d content)).calls.length = (removeSession d).calls.length ∧
      applyAll Op.apply (acts (removeSession (withSession d content)).calls) (withSession d content) = withSession d none := by
  unfold removeSession
  rw [with_session_files,same]
  refine ⟨rfl,?_⟩
  cases present : (d.files sessionName).isSome with
  | true => exact with_session_twice d content none
  | false =>
      rw [present] at same
      rw [Option.isNone_iff_eq_none.mp (Option.isSome_eq_false_iff.mp same)]
      rfl

theorem remove_session_stops (d : Dir) (content : Option Content) (fault : Option Fault) :
    ∃ left, (attempt Op.apply (removeSession (withSession d content)) fault (withSession d content)).disk = withSession d left := by
  refine attempt_steady (P := fun x => ∃ left, x = withSession d left) (fun o inside x held => ?_) ⟨content,rfl⟩
  obtain ⟨left,rfl⟩ := held
  unfold removeSession at inside
  dsimp only at inside
  split at inside
  · rw [List.mem_singleton.mp inside]
    exact ⟨none,with_session_twice d left none⟩
  · cases inside

-- The calls up to the cleared session, and what they leave.
def recovered (listing : String → List String) (d : Dir) : Dir := applyAll Op.apply (acts (VaultInstall.recover listing d).calls) d
def cleared (listing : String → List String) (d : Dir) : Dir := withSession (recovered listing d) none

def sessionCalls (d : Dir) : Nat := (zeroSession d).calls.length + (removeSession d).calls.length
def front (listing : String → List String) (d : Dir) : Nat := (VaultInstall.recover listing d).calls.length + sessionCalls (recovered listing d)

theorem clear_attempt (d : Dir) (fault : Option Fault) :
    let c := ((⟨d,.ok (),fault⟩ : Outcome Dir).andTry Op.apply zeroSession).andThen Op.apply removeSession
    (Misses (sessionCalls d) fault ∧ c = ⟨withSession d none,.ok (),later (sessionCalls d) fault⟩) ∨
    (∃ f, fault = some f ∧ f.call < sessionCalls d ∧ c = ⟨withSession d none,.ok (),none⟩) ∨
    ∃ f content, fault = some f ∧ f.call < sessionCalls d ∧ c = ⟨withSession d content,.error "input/output error",none⟩ := by
  intro c
  have is : c = attempt Op.apply (removeSession (attempt Op.apply (zeroSession d) fault d).disk) (attempt Op.apply (zeroSession d) fault d).fault
      (attempt Op.apply (zeroSession d) fault d).disk := rfl
  obtain ⟨content,written,same⟩ := zero_session d fault
  obtain ⟨length,removed⟩ := remove_session d content same
  rw [written] at is
  rcases attempt_ends Op.apply (zeroSession d) fault d with ⟨misses,passed⟩ | ⟨f,rfl,hits,stopped⟩
  · rw [passed] at is
    dsimp only at is
    rcases attempt_ends Op.apply (removeSession (withSession d content)) (later (zeroSession d).calls.length fault) (withSession d content) with
      ⟨misses',passed'⟩ | ⟨f',later',hits,stopped⟩
    · left
      rw [is,passed',removed,length,later_later]
      rw [length] at misses'
      exact ⟨misses_later misses misses',rfl⟩
    · right; right
      obtain ⟨f,rfl,rfl⟩ := later_some later'
      obtain ⟨left,kept⟩ := remove_session_stops d content (later (zeroSession d).calls.length (some f))
      have missed := misses f rfl
      rw [length] at hits
      refine ⟨f,left,rfl,?_,?_⟩
      · unfold sessionCalls
        dsimp only at hits
        omega
      · rw [is,stopped,kept]
  · right; left
    refine ⟨f,rfl,Nat.lt_of_lt_of_le hits (Nat.le_add_right _ _),?_⟩
    rw [stopped] at is
    rw [is]
    exact (attempt_passes (fun _ inside => by cases inside)).trans (by rw [removed]; rfl)

-- The failing call wrote the commit, or came after it, up to the end of the
-- closing recovery.
def Late (listing : String → List String) (staged : StagedVault) (d : Dir) (fault : Option Fault) : Prop :=
  (VaultInstall.recover listing d).result = .ok () ∧ ∃ f, fault = some f ∧ front listing d ≤ f.call ∧
    AfterCommit listing staged (cleared listing d) ⟨f.call-front listing d,f.took⟩

theorem ends_same (ends : Ends old new moved after a) (generation : moved → new = new') (same : after ↔ after') : Ends old new' True after' a := by
  cases ends with
  | early id message failed held before => exact .early id message failed held (fun later => before (same.mpr later))
  | done fine complete idle before => exact .done fine trivial (generation complete ▸ idle) (fun later => before (same.mpr later))
  | late id message failed complete spent held committed =>
      exact .late id message failed trivial spent (generation complete ▸ held) (same.mp committed)

theorem ends_drop (ends : Ends old new moved after a) (listing : String → List String) (staged : StagedVault) :
    Ends old new moved after (a.dropping Op.apply (dropStaged listing staged)) := by
  cases ends with
  | early id message failed held before => exact .early id message failed (drop_recoverable held listing staged _) before
  | done fine complete idle before => exact .done fine complete (drop_idle idle listing staged _) before
  | late id message failed complete spent held committed =>
      refine .late id message failed complete ?_ (drop_recoverable held listing staged _) committed
      unfold Outcome.dropping
      rw [spent]
      rfl

-- A stage that is still there after the recovery is the one that was there before.
theorem folder_removed (listing : String → List String) (d x : Dir) (folder : String) (same : x.folders folder = d.folders folder) :
    (applyAll Op.apply (ops (VaultFiles.removeFolder listing d folder)) x).folders folder = none := by
  unfold VaultFiles.removeFolder
  split
  · unfold VaultFiles.removeDirAll
    rw [ops_append,apply_append]
    exact Function.update_self _ _ _
  · rename_i absent
    rw [ops_nil,apply_nil,same]
    exact Option.not_isSome_iff_eq_none.mp absent

theorem other_folder (listing : String → List String) (d x : Dir) (folder other : String) (apart : other ≠ folder) :
    (applyAll Op.apply (ops (VaultFiles.removeFolder listing d folder)) x).folders other = x.folders other :=
  apply_steady (P := fun y => y.folders other = x.folders other) _
    (fun o inside y same => (removes_other (remove_folder_ops listing d folder o inside) y other apart).trans same) x rfl

theorem stage_kept (listing : String → List String) (staged : StagedVault) (d : Dir) :
    (recovered listing d).folders (stagePath staged.id) = d.folders (stagePath staged.id) ∨
      (recovered listing d).folders (stagePath staged.id) = none := by
  unfold recovered
  rw [(recover_acts listing d).1]
  unfold VaultFiles.recover
  cases d.files journalName with
  | none => exact .inl rfl
  | some content =>
      cases content with
      | bytes data => exact .inl rfl
      | journal j =>
          dsimp only
          split
          · exact .inl rfl
          · have writes : ∀ o ∈ ops (if j.phase ≠ .committed then VaultFiles.rollback d j files else ⟨[],.ok ()⟩).instrs, Restores o := by
              intro o inside
              split at inside
              · exact rollback_writes files inside
              · cases inside
            generalize (if j.phase ≠ .committed then VaultFiles.rollback d j files else ⟨[],.ok ()⟩) = first at writes ⊢
            have undone : (applyAll Op.apply (ops first.instrs) d).folders = d.folders :=
              apply_steady (P := fun x => x.folders = d.folders) _ (fun o inside x same => (restores_apart (writes o inside) x).2.trans same) d rfl
            cases result : first.result with
            | error message =>
                rw [and_then_error result]
                exact .inl (congrFun undone _)
            | ok done =>
                rw [and_then_ok result]
                simp only [ops_append,apply_append,ops_op,ops_sync,ops_nil,apply_cons,apply_nil]
                have start := congrFun undone (stagePath staged.id)
                rw [other_folder listing d _ _ _ (stage_ne_backup staged.id j.transactionId)]
                by_cases mine : stagePath staged.id = stagePath j.transactionId
                · right
                  rw [← mine]
                  exact folder_removed listing d _ _ start
                · left
                  rw [other_folder listing d _ _ _ mine]
                  exact start

theorem moved_stage (moved : (VaultFiles.moveNew staged d).result = .ok ()) : (d.folders (stagePath staged.id)).isSome = true := by
  by_contra absent
  have failed : (VaultFiles.moveNew staged d).result = .error "No such file or directory" := by
    unfold VaultFiles.moveNew
    refine if_neg (fun all => ?_)
    have first := List.all_eq_true.mp all .vault List.mem_cons_self
    rw [Dir.inside,Option.not_isSome_iff_eq_none.mp absent] at first
    cases first
  rw [failed] at moved
  cases moved

theorem new_same (listing : String → List String) (moved : (VaultFiles.moveNew staged (cleared listing d)).result = .ok ()) :
    newGeneration staged (cleared listing d) = newGeneration staged d := by
  have present : ((recovered listing d).folders (stagePath staged.id)).isSome = true := moved_stage moved
  have kept : (recovered listing d).folders (stagePath staged.id) = d.folders (stagePath staged.id) := by
    rcases stage_kept listing staged d with same | gone
    · exact same
    · rw [gone] at present
      cases present
  have stages : stageOf staged (cleared listing d) = stageOf staged d := by
    funext f
    exact congrArg (Option.bind · (· f.name)) kept
  rw [newGeneration,stages]
  rfl

theorem not_late {f : Fault} (sooner : f.call < front listing d) : ¬Late listing staged d (some f) := by
  rintro ⟨_,_,same,reached,_⟩
  cases same
  omega

theorem hook_ends (held : Recoverable id old d) (listing : String → List String) (staged : StagedVault) (fault : Option Fault) :
    Ends old (newGeneration staged d) True (Late listing staged d fault) (VaultInstall.installWithHook listing staged fault d) := by
  rcases recover_attempt held listing fault with ⟨misses,passed,idle⟩ | ⟨f,x,rfl,hits,stopped,held⟩
  · have fine : (VaultInstall.recover listing d).result = .ok () := (recover_acts listing d).2.trans (recover_crash listing held).1
    have sooner : ∀ f', later (VaultInstall.recover listing d).calls.length fault = some f' → f'.call < sessionCalls (recovered listing d) →
        ¬Late listing staged d fault := by
      intro f' is hits
      obtain ⟨f,rfl,rfl⟩ := later_some is
      have missed := misses f rfl
      dsimp only at hits
      refine not_late ?_
      unfold front
      omega
    -- from the cleared session on the call is the swap, the commit and the closing recovery
    have begun : ∀ after, ((attempt Op.apply (VaultInstall.recover listing d) fault d).andTry Op.apply zeroSession).andThen Op.apply removeSession =
        ⟨cleared listing d,.ok (),after⟩ → VaultInstall.installWithHook listing staged fault d =
          (swapping listing staged (cleared listing d) after).dropping Op.apply (dropStaged listing staged) := by
      intro after same
      unfold VaultInstall.installWithHook
      dsimp only
      rw [same]
      rfl
    have ready : Idle old (cleared listing d) := idle_session idle none
    have empty : (cleared listing d).files sessionName = none := with_session_files _ none
    rw [passed] at begun
    rcases clear_attempt (recovered listing d) (later (VaultInstall.recover listing d).calls.length fault) with
      ⟨misses',clean⟩ | ⟨f',is,hits,clean⟩ | ⟨f',content,is,hits,stopped⟩
    · rw [begun _ clean]
      refine ends_drop (ends_same (swapping_ends ready empty listing staged _) (new_same listing) ?_) listing staged
      rw [later_later]
      constructor
      · rintro ⟨f',is,committed⟩
        obtain ⟨f,rfl,rfl⟩ := later_some is
        exact ⟨fine,f,rfl,misses_later misses misses' f rfl,committed⟩
      · rintro ⟨_,f,rfl,_,committed⟩
        exact ⟨_,rfl,committed⟩
    · rw [begun _ clean]
      refine ends_drop (ends_same (swapping_ends ready empty listing staged _) (new_same listing) ?_) listing staged
      constructor
      · rintro ⟨_,none,_⟩
        cases none
      · intro committed
        exact absurd committed (sooner f' is hits)
    · have gone : VaultInstall.installWithHook listing staged fault d =
          (⟨withSession (recovered listing d) content,.error "input/output error",none⟩ : Outcome Dir).dropping Op.apply (dropStaged listing staged) := by
        unfold VaultInstall.installWithHook
        dsimp only
        rw [passed]
        unfold recovered at stopped
        rw [stopped,(error_stays rfl _).1,(error_stays rfl _).1,(error_stays rfl _).1]
        rfl
      rw [gone]
      exact ends_drop (.early id _ rfl (.inl (idle_session idle content)) (sooner f' is hits)) listing staged
  · have failed : (attempt Op.apply (VaultInstall.recover listing d) (some f) d).result = .error "input/output error" := by rw [stopped]
    rw [hook_stops failed,stopped]
    exact ends_drop (.early id _ rfl held (not_late (Nat.lt_of_lt_of_le hits (Nat.le_add_right _ _)))) listing staged

-- Which generation is active once the call has returned.
structure Truthful (old new : Generation) (late : Prop) (out : Dir × Returned) : Prop where
  ok : out.2 = .ok → active out.1 = new
  early : ∀ message, out.2 = .failed message true → ¬late → active out.1 = old
  late : ∀ message, out.2 = .failed message true → late → active out.1 = new

theorem failed_truthful {late : Prop} (out : Dir) (message : String) : Truthful old new late (out,.failed message false) :=
  ⟨fun is => by (cases is),fun _ is => by (cases is),fun _ is => by (cases is)⟩

-- The recovery that follows a failure.
def closing (listing : String → List String) (a : Outcome Dir) : Outcome Dir := attempt Op.apply (VaultInstall.recover listing a.disk) a.fault a.disk

theorem install_opens (checkpoint : Checkpoint) (d₀ : Dir) (fine : (opened checkpoint d₀).2 = .ok ()) :
    install checkpoint listing staged fault d₀ =
      let a := VaultInstall.installWithHook listing staged fault (opened checkpoint d₀).1
      match a.result with
      | .ok () => (a.disk,.ok)
      | .error message => match (closing listing a).result with
        | .ok () => ((closing listing a).disk,.failed message true)
        | .error message => ((closing listing a).disk,.failed message false) := by
  unfold install
  rw [fine]
  rfl

theorem ends_truthful {late : Prop} (ends : Ends old new True late a) (listing : String → List String) :
    Truthful old new late (match a.result with
      | .ok () => (a.disk,.ok)
      | .error message => match (closing listing a).result with
        | .ok () => ((closing listing a).disk,.failed message true)
        | .error message => ((closing listing a).disk,.failed message false)) := by
  cases ends with
  | early id message failed held before =>
      rw [failed]
      unfold closing
      rcases recover_attempt held listing a.fault with ⟨_,passed,idle⟩ | ⟨_,_,_,_,stopped,_⟩
      · rw [passed]
        exact ⟨fun is => by (cases is),fun _ _ _ => idle.held,fun _ _ committed => absurd committed before⟩
      · rw [stopped]
        exact failed_truthful _ _
  | done fine complete idle before =>
      rw [fine]
      exact ⟨fun _ => idle.held,fun _ is => by (cases is),fun _ is => by (cases is)⟩
  | late id message failed complete spent held committed =>
      rw [failed]
      unfold closing
      rw [spent]
      rcases recover_attempt held listing none with ⟨_,passed,idle⟩ | ⟨_,_,none,_⟩
      · rw [passed]
        exact ⟨fun is => by (cases is),fun _ _ before => absurd committed before,fun _ _ _ => idle.held⟩
      · cases none

-- Whatever state the directory is in and whichever call fails, the answer says
-- which generation is active, but for failures once the commit is written.
theorem install_truthful (checkpoint : Checkpoint) (listing : String → List String) (staged : StagedVault) (fault : Option Fault) (d₀ : Dir) :
    Truthful (oldGeneration (opened checkpoint d₀).1) (newGeneration staged (opened checkpoint d₀).1)
      (Late listing staged (opened checkpoint d₀).1 fault) (install checkpoint listing staged fault d₀) := by
  cases fine : (opened checkpoint d₀).2 with
  | error message =>
      unfold install
      rw [fine]
      exact failed_truthful _ _
  | ok done =>
      rw [install_opens checkpoint d₀ fine]
      rcases old_or_stuck (opened checkpoint d₀).1 with ⟨id,held⟩ | stuck
      · exact ends_truthful (hook_ends held listing staged fault) listing
      · obtain ⟨message,failed,stuck⟩ := stuck_hook stuck listing staged fault
        obtain ⟨again,refused,_⟩ := stuck_attempt stuck listing (VaultInstall.installWithHook listing staged fault (opened checkpoint d₀).1).fault
        dsimp only
        rw [failed]
        unfold closing
        dsimp only
        rw [refused]
        exact failed_truthful _ _

-- The commit's rename is through, and the directory cannot be synced.
def unsynced : Dir × Returned := install (fun d => (d,.ok ())) (fun _ => []) ⟨"a","b"⟩ (some ⟨71,false⟩) runningVault

theorem unsynced_untrue : ¬∀ message, unsynced.2 = .failed message true → active unsynced.1 = active runningVault := by
  intro told
  have failed : unsynced.2 = .failed "input/output error" true := rfl
  have here : active unsynced.1 .vault = some (.bytes [2]) := rfl
  have there : active runningVault .vault = some (.bytes [1]) := rfl
  have same := congrFun (told _ failed) .vault
  rw [here,there] at same
  cases same

end ZkNote.InstallOutcome
