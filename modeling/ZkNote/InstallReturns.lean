import ZkNote.VaultInstall

namespace ZkNote.InstallReturns
open CrashLog FaultyCalls VaultFiles VaultRecovery VaultReplacement VaultInstall

variable {id : String} {g : Generation} {d x : Dir} {listing : String → List String} {staged : StagedVault} {fault : Option Fault}

-- Call by call the programs write what they write as whole.
theorem folder_acts (listing : String → List String) (d : Dir) (folder : String) :
    acts (VaultInstall.removeFolder listing d folder) = ops (VaultFiles.removeFolder listing d folder) := by
  unfold VaultInstall.removeFolder VaultFiles.removeFolder
  split
  · unfold VaultInstall.removeDirAll VaultFiles.removeDirAll
    rw [List.cons_append,acts_quiet,acts_append,ops_append]
    have unlinked : acts ((listing folder).map (fun name => Call.act (Op.unlink folder name))) =
        ops ((listing folder).map (fun name => Instr.op (Op.unlink folder name))) := by
      induction listing folder with
      | nil => rfl
      | cons name rest ih => rw [List.map_cons,List.map_cons,acts_act,ops_op,ih]
    rw [unlinked]
    rfl
  · rfl

theorem restore_acts (d : Dir) (j : Journal) (f : VaultFile) :
    acts (VaultInstall.restore d j f).calls = ops (VaultFiles.restore d j f).instrs ∧
      (VaultInstall.restore d j f).result = (VaultFiles.restore d j f).result := by
  unfold VaultInstall.restore VaultFiles.restore
  cases d.inside (backupPath j.transactionId) f.name with
  | some content => exact ⟨rfl,rfl⟩
  | none =>
      dsimp only
      split
      · cases (d.files f.name).isSome <;> exact ⟨rfl,rfl⟩
      · split <;> exact ⟨rfl,rfl⟩

theorem then_acts {p q : Script Op} {p' q' : Program} (one : acts p.calls = ops p'.instrs ∧ p.result = p'.result)
    (two : acts q.calls = ops q'.instrs ∧ q.result = q'.result) :
    acts (p.andThen q).calls = ops (p'.andThen q').instrs ∧ (p.andThen q).result = (p'.andThen q').result := by
  unfold Script.andThen Program.andThen
  rw [one.2]
  cases p'.result with
  | error message => exact ⟨one.1,rfl⟩
  | ok done =>
      dsimp only
      rw [acts_append,ops_append,one.1,two.1]
      exact ⟨rfl,two.2⟩

theorem rollback_acts (d : Dir) (j : Journal) (list : List VaultFile) :
    acts (VaultInstall.rollback d j list).calls = ops (VaultFiles.rollback d j list).instrs ∧
      (VaultInstall.rollback d j list).result = (VaultFiles.rollback d j list).result := by
  induction list with
  | nil => exact ⟨rfl,rfl⟩
  | cons f rest ih => exact then_acts (restore_acts d j f) ih

theorem recover_acts (listing : String → List String) (d : Dir) :
    acts (VaultInstall.recover listing d).calls = ops (VaultFiles.recover listing d).instrs ∧
      (VaultInstall.recover listing d).result = (VaultFiles.recover listing d).result := by
  unfold VaultInstall.recover VaultFiles.recover
  cases d.files journalName with
  | none => exact ⟨rfl,rfl⟩
  | some content =>
      cases content with
      | bytes data => exact ⟨rfl,rfl⟩
      | journal j =>
          dsimp only
          split
          · exact ⟨rfl,rfl⟩
          · apply then_acts
            · split
              · unfold Script.andThen
                dsimp only
                exact rollback_acts d j files
              · exact ⟨rfl,rfl⟩
            · refine ⟨?_,rfl⟩
              have ends : acts syncDir = [] := rfl
              simp only [cleanUp,List.cons_append,acts_act,acts_append,ends,folder_acts,ops_op,ops_sync,ops_append,ops_nil,List.append_nil,
                List.nil_append]

theorem old_acts (staged : StagedVault) (j : Journal) : acts (VaultInstall.moveOld staged j) = ops (VaultFiles.moveOld staged j) := by
  refine acts_flatMap _ _ _ (fun f => ?_)
  split <;> rfl

theorem new_acts (staged : StagedVault) (d : Dir) :
    acts (VaultInstall.moveNew staged d).calls = ops (VaultFiles.moveNew staged d).instrs ∧
      (VaultInstall.moveNew staged d).result = (VaultFiles.moveNew staged d).result :=
  ⟨acts_flatMap _ _ _ (fun _ => rfl),rfl⟩

theorem sync_acts (d : Dir) : acts (syncOld d) = [] := by
  have quiet : acts (syncOld d) = ops (files.flatMap (fun _ => ([] : List (Instr Op)))) := by
    refine acts_flatMap _ _ _ (fun f => ?_)
    split <;> rfl
  rw [quiet]
  rfl

-- Once the session file is gone the swap is the one of the whole program.
theorem swap_acts (staged : StagedVault) (d : Dir) (cleared : d.files sessionName = none) :
    acts (VaultInstall.swap staged d).calls = ops (VaultFiles.swap staged d).instrs ∧
      (VaultInstall.swap staged d).result = (VaultFiles.swap staged d).result := by
  have none : VaultFiles.clearSession d = [] := by
    unfold VaultFiles.clearSession
    rw [cleared]
  unfold VaultInstall.swap VaultFiles.swap
  rw [none]
  split
  · exact ⟨rfl,rfl⟩
  · refine then_acts (then_acts ⟨?_,rfl⟩ (new_acts staged d)) ⟨rfl,rfl⟩
    have ends : acts syncDir = [] := rfl
    simp only [List.cons_append,acts_act,acts_append,ends,sync_acts,old_acts,ops_op,ops_sync,ops_append,List.nil_append,List.append_nil]
    rfl

-- Recovery under a failure: it goes through, or it can be started again.
theorem recover_attempt (held : Recoverable id g d) (listing : String → List String) (fault : Option Fault) :
    (Misses (VaultInstall.recover listing d).calls.length fault ∧
      attempt Op.apply (VaultInstall.recover listing d) fault d =
        ⟨applyAll Op.apply (acts (VaultInstall.recover listing d).calls) d,.ok (),later (VaultInstall.recover listing d).calls.length fault⟩ ∧
      Idle g (applyAll Op.apply (acts (VaultInstall.recover listing d).calls) d)) ∨
    ∃ f x, fault = some f ∧ f.call < (VaultInstall.recover listing d).calls.length ∧
      attempt Op.apply (VaultInstall.recover listing d) fault d = ⟨x,.error "input/output error",none⟩ ∧ Recoverable id g x := by
  obtain ⟨same,result⟩ := recover_acts listing d
  obtain ⟨fine,crash⟩ := recover_crash listing held
  rw [fine] at result
  have ends := attempt_crash fault crash same rfl
  rw [result] at ends
  exact ends

theorem drop_removes (listing : String → List String) (staged : StagedVault) (d : Dir) :
    ∀ o ∈ acts (dropStaged listing staged d).calls, Removes (stagePath staged.id) o := by
  intro o inside
  rw [dropStaged,folder_acts] at inside
  exact remove_folder_ops listing d _ o inside

theorem drop_recoverable (held : Recoverable id g d) (listing : String → List String) (staged : StagedVault) (fault : Option Fault) :
    Recoverable id g (attempt Op.apply (dropStaged listing staged d) fault d).disk :=
  attempt_steady (fun o inside _ held => recoverable_removes (drop_removes listing staged d o inside) (stage_ne_backup staged.id id) held) held

theorem drop_idle (idle : Idle g d) (listing : String → List String) (staged : StagedVault) (fault : Option Fault) :
    Idle g (attempt Op.apply (dropStaged listing staged d) fault d).disk :=
  attempt_steady (fun o inside _ idle => idle_removes (drop_removes listing staged d o inside) idle) idle

-- The three ends of the swap.
theorem swap_shape (staged : StagedVault) (d : Dir) :
    VaultFiles.swap staged d = ⟨clearSession d,.error "File exists"⟩ ∨
    (∃ message, VaultFiles.swap staged d = ⟨opening staged d ++ (VaultFiles.moveNew staged d).instrs,.error message⟩) ∨
    ((VaultFiles.moveNew staged d).result = .ok () ∧ VaultFiles.swap staged d = ⟨uncommitted staged d,.ok ()⟩) := by
  by_cases taken : (d.folders (backupPath staged.id)).isSome = true
  · exact .inl (by simp only [VaultFiles.swap,taken,if_true])
  · have shape : VaultFiles.swap staged d = Program.andThen (Program.andThen ⟨opening staged d,.ok ()⟩ (VaultFiles.moveNew staged d))
        ⟨VaultFiles.writeJournal (journalAt staged d .newInstalled),.ok ()⟩ := by
      simp only [VaultFiles.swap,taken,Bool.false_eq_true,if_false,opening]
    cases result : (VaultFiles.moveNew staged d).result with
    | error message => exact .inr (.inl ⟨message,by rw [shape]; simp only [Program.andThen,result]⟩)
    | ok done => exact .inr (.inr ⟨rfl,by rw [shape]; simp only [Program.andThen,result,uncommitted]⟩)

theorem swap_attempt (idle : Idle g d) (cleared : d.files sessionName = none) (staged : StagedVault) (fault : Option Fault) :
    (Misses (VaultInstall.swap staged d).calls.length fault ∧
      attempt Op.apply (VaultInstall.swap staged d) fault d = ⟨applyAll Op.apply (acts (VaultInstall.swap staged d).calls) d,
        (VaultInstall.swap staged d).result,later (VaultInstall.swap staged d).calls.length fault⟩ ∧
      ((∃ message, (VaultInstall.swap staged d).result = .error message ∧
          Recoverable staged.id g (applyAll Op.apply (acts (VaultInstall.swap staged d).calls) d)) ∨
        (VaultInstall.swap staged d).result = .ok () ∧ (VaultFiles.moveNew staged d).result = .ok () ∧
          ∃ stage, Swapping staged.id (journalAt staged d .newInstalled) g (newGeneration staged d) stage
            (applyAll Op.apply (acts (VaultInstall.swap staged d).calls) d))) ∨
    ∃ f x, fault = some f ∧ f.call < (VaultInstall.swap staged d).calls.length ∧
      attempt Op.apply (VaultInstall.swap staged d) fault d = ⟨x,.error "input/output error",none⟩ ∧ Recoverable staged.id g x := by
  obtain ⟨same,result⟩ := swap_acts staged d cleared
  have none : clearSession d = [] := by
    unfold clearSession
    rw [cleared]
  rcases swap_shape staged d with shape | ⟨message,shape⟩ | ⟨moved,shape⟩
  · rw [shape,none] at same
    rw [shape] at result
    have crash : Crash Op.apply (· = d) [] (Recoverable staged.id g) (Recoverable staged.id g) :=
      crash_block (fun _ inside => absurd inside List.not_mem_nil) (fun x is => is ▸ .inl idle) (fun x is => is ▸ .inl idle)
    rcases attempt_crash fault crash same rfl with ⟨misses,passed,held⟩ | stopped
    · exact .inl ⟨misses,passed,.inl ⟨_,result,held⟩⟩
    · exact .inr stopped
  · rw [shape] at same result
    rcases attempt_crash fault (moved_crash idle staged) same rfl with ⟨misses,passed,held⟩ | stopped
    · exact .inl ⟨misses,passed,.inl ⟨_,result,held.1⟩⟩
    · exact .inr stopped
  · rw [shape] at same result
    rcases attempt_crash fault (uncommitted_crash idle moved) same rfl with ⟨misses,passed,held⟩ | stopped
    · exact .inl ⟨misses,passed,.inr ⟨result,moved,held⟩⟩
    · exact .inr stopped

-- The commit's rename is its fourth call.
theorem commit_attempt (staged : StagedVault) (d x : Dir) (fault : Option Fault) :
    let put := Op.apply (.put journalName (.journal (journalAt staged d .committed))) x
    (Misses 6 fault ∧ attempt Op.apply (VaultInstall.commit staged d) fault x = ⟨put,.ok (),later 6 fault⟩) ∨
    (∃ f, fault = some f ∧ f.call < (if f.took then 3 else 4) ∧ attempt Op.apply (VaultInstall.commit staged d) fault x = ⟨x,.error "input/output error",none⟩) ∨
    ∃ f, fault = some f ∧ (if f.took then 3 else 4) ≤ f.call ∧ f.call < 6 ∧
      attempt Op.apply (VaultInstall.commit staged d) fault x = ⟨put,.error "input/output error",none⟩ := by
  intro put
  have calls : (VaultInstall.commit staged d).calls = [.quiet,.quiet,.quiet,.act (.put journalName (.journal (journalAt staged d .committed))),.quiet,.quiet] := rfl
  rcases misses_or (VaultInstall.commit staged d).calls.length fault with misses | ⟨f,rfl,hits⟩
  · exact .inl ⟨misses,attempt_passes misses⟩
  · right
    have stopped : attempt Op.apply (VaultInstall.commit staged d) (some f) x = _ := attempt_stops hits
    obtain ⟨n,took⟩ := f
    have six : n < 6 := hits
    rw [stopped,calls]
    have cases_ : n = 0 ∨ n = 1 ∨ n = 2 ∨ n = 3 ∨ n = 4 ∨ n = 5 := by omega
    rcases cases_ with rfl | rfl | rfl | rfl | rfl | rfl <;> cases took
    all_goals
      first
      | exact .inl ⟨_,rfl,by decide,rfl⟩
      | exact .inr ⟨_,rfl,by decide,by decide,rfl⟩

-- The directory with the new generation in it and the commit written.
def committedDir (staged : StagedVault) (d : Dir) : Dir :=
  Op.apply (.put journalName (.journal (journalAt staged d .committed))) (applyAll Op.apply (acts (VaultInstall.swap staged d).calls) d)

-- A failure that comes with the commit's rename, once that has taken effect, or
-- with a call after it, up to the end of the closing recovery.
def AfterCommit (listing : String → List String) (staged : StagedVault) (d : Dir) (f : Fault) : Prop :=
  (VaultInstall.swap staged d).result = .ok () ∧ (VaultInstall.swap staged d).calls.length + (if f.took then 3 else 4) ≤ f.call ∧
    f.call < (VaultInstall.swap staged d).calls.length+6+(VaultInstall.recover listing (committedDir staged d)).calls.length

-- From the cleared session on, up to where the staged vault is dropped.
def swapping (listing : String → List String) (staged : StagedVault) (d : Dir) (fault : Option Fault) : Outcome Dir :=
  (((⟨d,.ok (),fault⟩ : Outcome Dir).andThen Op.apply (VaultInstall.swap staged)).andThen Op.apply (fun _ => VaultInstall.commit staged d)).andThen
    Op.apply (VaultInstall.recover listing)

theorem error_stays {message : String} {a : Outcome Dir} (failed : a.result = .error message) (next : Dir → Script Op) :
    a.andThen Op.apply next = a ∧ a.andTry Op.apply next = a := by
  unfold Outcome.andThen Outcome.andTry
  rw [failed]
  exact ⟨rfl,rfl⟩

theorem ok_goes_on (x : Dir) (fault : Option Fault) (next : Dir → Script Op) :
    (⟨x,.ok (),fault⟩ : Outcome Dir).andThen Op.apply next = attempt Op.apply (next x) fault x := rfl

-- What becomes of the generation `old` by the time the staged vault is dropped.
inductive Ends (old new : Generation) (moved after : Prop) (a : Outcome Dir) : Prop where
  | early (id message : String) (failed : a.result = .error message) (held : Recoverable id old a.disk) (before : ¬after)
  | done (fine : a.result = .ok ()) (complete : moved) (idle : Idle new a.disk) (before : ¬after)
  | late (id message : String) (failed : a.result = .error message) (complete : moved) (spent : a.fault = none) (held : Recoverable id new a.disk)
      (committed : after)

theorem swapping_ends (idle : Idle g d) (cleared : d.files sessionName = none) (listing : String → List String) (staged : StagedVault)
    (fault : Option Fault) :
    Ends g (newGeneration staged d) ((VaultFiles.moveNew staged d).result = .ok ()) (∃ f, fault = some f ∧ AfterCommit listing staged d f)
      (swapping listing staged d fault) := by
  unfold swapping
  rw [ok_goes_on]
  rcases swap_attempt idle cleared staged fault with ⟨misses,passed,ends⟩ | ⟨f,x,rfl,hits,stopped,held⟩
  · rcases ends with ⟨message,result,held⟩ | ⟨result,moved,stage,swapped⟩
    · rw [passed,result,(error_stays rfl _).1,(error_stays rfl _).1]
      refine .early staged.id message rfl held (fun after => ?_)
      obtain ⟨_,_,fine,_⟩ := after
      rw [result] at fine
      cases fine
    · rw [passed,result,ok_goes_on]
      rcases commit_attempt staged d _ (later (VaultInstall.swap staged d).calls.length fault) with ⟨misses',passed'⟩ | ⟨f',is,sooner,stopped⟩ |
          ⟨f',is,afterwards,within,stopped⟩
      · rw [passed',ok_goes_on]
        rcases recover_attempt (.inr (.inr ⟨_,committed_redo swapped⟩)) listing (later 6 (later (VaultInstall.swap staged d).calls.length fault)) with
          ⟨misses'',recovered,idle⟩ | ⟨f'',x,is,hits,stopped,held⟩
        · rw [recovered]
          refine .done rfl moved idle (fun after => ?_)
          obtain ⟨f,rfl,_,_,before⟩ := after
          have one := misses f rfl
          have two := misses' _ rfl
          have three := misses'' _ rfl
          dsimp only at two three
          unfold committedDir at before
          omega
        · rw [stopped]
          obtain ⟨f',is',rfl⟩ := later_some is
          obtain ⟨f,rfl,rfl⟩ := later_some is'
          refine .late staged.id _ rfl moved rfl held ⟨f,rfl,result,?_,?_⟩
          · have one := misses f rfl
            have two := misses' _ rfl
            dsimp only at two
            split <;> omega
          · have one := misses f rfl
            have two := misses' _ rfl
            dsimp only at two hits
            unfold committedDir
            omega
      · rw [stopped,(error_stays rfl _).1]
        obtain ⟨f,rfl,rfl⟩ := later_some is
        refine .early staged.id _ rfl (swapping_undo idle.held .newInstalled (by decide) swapped (fun _ => .inl rfl)) (fun after => ?_)
        obtain ⟨_,same,_,least,_⟩ := after
        cases same
        have one := misses f rfl
        dsimp only at sooner
        omega
      · rw [stopped,(error_stays rfl _).1]
        obtain ⟨f,rfl,rfl⟩ := later_some is
        have one := misses f rfl
        dsimp only at afterwards within
        exact .late staged.id _ rfl moved rfl (.inr (.inr ⟨_,committed_redo swapped⟩)) ⟨f,rfl,result,by omega,by omega⟩
  · rw [stopped,(error_stays rfl _).1,(error_stays rfl _).1]
    refine .early staged.id _ rfl held (fun after => ?_)
    obtain ⟨_,same,_,least,_⟩ := after
    cases same
    omega

end ZkNote.InstallReturns
