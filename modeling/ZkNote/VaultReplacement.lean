import Mathlib.Data.List.TakeWhile
import ZkNote.VaultRecovery

namespace ZkNote.VaultReplacement
open CrashLog VaultFiles VaultRecovery

variable {id : String} {g out here stage : Generation} {j : Journal} {d x : Dir} {listing : String → List String} {staged : StagedVault}

-- The swap between two of its writes: the journal, what is in the backup, in the
-- directory and in the stage.
structure Swapping (id : String) (j : Journal) (out here stage : Generation) (x : Dir) : Prop where
  journal : x.files journalName = some (.journal j)
  folder : (x.folders (backupPath id)).isSome = true
  out : ∀ f, x.inside (backupPath id) f.name = out f
  here : ∀ f, active x f = here f
  stage : ∀ f, x.inside (stagePath id) f.name = stage f

theorem swapping_congr {out' here' stage' : Generation} (swapping : Swapping id j out here stage x) (first : ∀ f, out f = out' f)
    (second : ∀ f, here f = here' f) (third : ∀ f, stage f = stage' f) : Swapping id j out' here' stage' x :=
  ⟨swapping.journal,swapping.folder,fun f => (swapping.out f).trans (first f),fun f => (swapping.here f).trans (second f),
    fun f => (swapping.stage f).trans (third f)⟩

theorem active_put_journal (content : Content) (x : Dir) : active (Op.apply (.put journalName content) x) = active x := by
  funext f
  simp [active,put_files,Function.update_of_ne (name_ne_journal f)]

theorem swapping_journal (swapping : Swapping id j out here stage x) (next : Journal) :
    Swapping id next out here stage (Op.apply (.put journalName (.journal next)) x) :=
  ⟨by rw [put_files,Function.update_self],swapping.folder,swapping.out,fun f => by rw [active_put_journal]; exact swapping.here f,swapping.stage⟩

theorem swapping_move_out (swapping : Swapping id j out here stage x) (f : VaultFile) :
    Swapping id j (Function.update out f (here f)) (Function.update here f none) stage (Op.apply (.moveOut f.name (backupPath id)) x) := by
  obtain ⟨inside,exists'⟩ := Option.isSome_iff_exists.mp swapping.folder
  have held : ∀ h, inside h.name = out h := by
    intro h
    have same := swapping.out h
    rwa [Dir.inside,exists',Option.bind_some] at same
  have moved : Op.apply (.moveOut f.name (backupPath id)) x = ⟨Function.update x.files f.name none,
      Function.update x.folders (backupPath id) (some (Function.update inside f.name (x.files f.name)))⟩ := by
    simp only [Op.apply,exists']
  rw [moved]
  refine ⟨?_,by simp,?_,?_,?_⟩
  · dsimp only
    rw [Function.update_of_ne (name_ne_journal f).symm]
    exact swapping.journal
  · intro h
    simp only [Dir.inside,Function.update_self,Option.bind_some]
    by_cases same : h = f
    · subst same
      rw [Function.update_self,Function.update_self]
      exact swapping.here h
    · rw [Function.update_of_ne same,Function.update_of_ne (fun equal => same (name_inj equal))]
      exact held h
  · intro h
    by_cases same : h = f
    · subst same
      simp [active]
    · rw [Function.update_of_ne same,← swapping.here h]
      simp [active,Function.update_of_ne (fun equal : h.name = f.name => same (name_inj equal))]
  · intro h
    rw [← swapping.stage h]
    simp only [Dir.inside,Function.update_of_ne (stage_ne_backup id id)]

theorem swapping_move_in (swapping : Swapping id j out here stage x) (f : VaultFile) (present : (stage f).isSome = true) :
    Swapping id j out (Function.update here f (stage f)) (Function.update stage f none) (Op.apply (.moveIn (stagePath id) f.name) x) := by
  obtain ⟨inside,exists'⟩ : ∃ inside, x.folders (stagePath id) = some inside := by
    cases found : x.folders (stagePath id) with
    | some inside => exact ⟨inside,rfl⟩
    | none =>
        have same := swapping.stage f
        rw [Dir.inside,found,Option.bind_none] at same
        rw [← same] at present
        cases present
  have held : ∀ h, inside h.name = stage h := by
    intro h
    have same := swapping.stage h
    rwa [Dir.inside,exists',Option.bind_some] at same
  have moved : Op.apply (.moveIn (stagePath id) f.name) x = ⟨Function.update x.files f.name (inside f.name),
      Function.update x.folders (stagePath id) (some (Function.update inside f.name none))⟩ := by
    simp only [Op.apply,exists']
  rw [moved]
  have apart : backupPath id ≠ stagePath id := (stage_ne_backup id id).symm
  refine ⟨?_,?_,?_,?_,?_⟩
  · dsimp only
    rw [Function.update_of_ne (name_ne_journal f).symm]
    exact swapping.journal
  · dsimp only
    rw [Function.update_of_ne apart]
    exact swapping.folder
  · intro h
    rw [← swapping.out h]
    simp only [Dir.inside,Function.update_of_ne apart]
  · intro h
    by_cases same : h = f
    · subst same
      simp [active,held]
    · rw [Function.update_of_ne same,← swapping.here h]
      simp [active,Function.update_of_ne (fun equal : h.name = f.name => same (name_inj equal))]
  · intro h
    simp only [Dir.inside,Function.update_self,Option.bind_some]
    by_cases same : h = f
    · subst same
      rw [Function.update_self,Function.update_self]
    · rw [Function.update_of_ne same,Function.update_of_ne (fun equal => same (name_inj equal))]
      exact held h

-- Each file is in the backup as it was, or still in its place before the first
-- journal says otherwise.
theorem swapping_undo (held : active d = g) (phase : Phase) (open' : phase ≠ .committed)
    (swapping : Swapping staged.id (journalAt staged d phase) out here stage x)
    (safe : ∀ f, out f = g f ∨ (out f = none ∧ here f = g f ∧ phase = .prepared)) : Recoverable staged.id g x := by
  have known : ∀ f, (journalAt staged d phase).oldPresent f = (g f).isSome := fun f => by rw [← held]; rfl
  refine .inr (.inl ⟨_,out,swapping.journal,rfl,rfl,open',swapping.out,?_,?_,?_⟩)
  · intro f content moved
    rcases safe f with same | ⟨none,_⟩
    · rw [← same,moved]
    · rw [moved] at none
      cases none
  · intro f _ absent
    rw [known] at absent
    exact Option.isSome_eq_false_iff.mp absent |> Option.isNone_iff_eq_none.mp
  · intro f unmoved present
    rw [known] at present
    rcases safe f with same | ⟨_,still,prepared⟩
    · rw [← same,unmoved] at present
      cases present
    · exact ⟨prepared,(swapping.here f).trans still⟩

-- Nothing has begun: only the session file goes, and a backup directory comes.
structure Ready (id : String) (g stage : Generation) (x : Dir) : Prop extends Idle g x where
  stage : ∀ f, x.inside (stagePath id) f.name = stage f

theorem idle_session (idle : Idle g x) (content : Option Content) :
    Idle g {x with files := Function.update x.files sessionName content} := by
  refine ⟨?_,?_⟩
  · dsimp only
    rw [Function.update_of_ne session_ne_journal.symm]
    exact idle.journal
  · rw [← idle.held]
    funext f
    simp [active,Function.update_of_ne (name_ne_session f)]

theorem session_steady (d : Dir) : ∀ o ∈ ops (clearSession d), ∀ x, Ready id g stage x → Ready id g stage (o.apply x) := by
  intro o inside x ready
  unfold clearSession at inside
  split at inside
  · cases inside
  · simp only [ops_op,ops_nil,List.mem_cons,List.not_mem_nil,or_false] at inside
    rcases inside with rfl | rfl
    · exact ⟨idle_session ready.toIdle _,ready.stage⟩
    · exact ⟨idle_session ready.toIdle _,ready.stage⟩

theorem mkdir_ready (ready : Ready id g stage x) : Ready id g stage (Op.apply (.mkdir (backupPath id)) x) := by
  refine ⟨⟨ready.journal,ready.held⟩,?_⟩
  intro f
  rw [← ready.stage f]
  simp only [Op.apply,Dir.inside,Function.update_of_ne (stage_ne_backup id id)]

theorem begin_crash (d : Dir) :
    Crash Op.apply (Ready id g stage) (clearSession d ++ [.op (.mkdir (backupPath id)),.sync])
      (fun x => Ready id g stage x ∧ (x.folders (backupPath id)).isSome = true ∧ ∀ f : VaultFile, x.inside (backupPath id) f.name = none)
      (Recoverable id g) := by
  have cleared : ∀ o ∈ ops (clearSession d), ∀ x, Ready id g stage x → Ready id g stage (o.apply x) := session_steady d
  refine crash_block ?_ ?_ (fun x ready => .inl ready.toIdle)
  · intro o inside x ready
    rw [ops_append] at inside
    rcases List.mem_append.mp inside with first | last
    · exact cleared o first x ready
    · rw [List.mem_singleton.mp (show o ∈ [Op.mkdir (backupPath id)] from last)]
      exact mkdir_ready ready
  · intro x ready
    rw [ops_append,apply_append]
    have first := apply_steady _ cleared x ready
    refine ⟨mkdir_ready first,?_,?_⟩
    · simp [Op.apply]
    · intro f
      simp [Op.apply,Dir.inside]

theorem journal_crash {P Q : Dir → Prop} (next : Journal) (moves : ∀ x, P x → Q (Op.apply (.put journalName (.journal next)) x))
    (before : ∀ x, P x → Recoverable id g x) (after : ∀ x, Q x → Recoverable id g x) :
    Crash Op.apply P (writeJournal next) Q (Recoverable id g) := crash_step _ moves before after

-- The old files, one after the other.
def outDone (g : Generation) (done : List VaultFile) : Generation := fun f => if f ∈ done then g f else none
def hereLeft (g : Generation) (done : List VaultFile) : Generation := fun f => if f ∈ done then none else g f

theorem done_out (g : Generation) (done : List VaultFile) (f : VaultFile) (fresh : f ∉ done) (h : VaultFile) :
    Function.update (outDone g done) f (hereLeft g done f) h = outDone g (done ++ [f]) h := by
  by_cases same : h = f
  · subst same
    simp [outDone,hereLeft,fresh]
  · simp [outDone,same]

theorem left_here (g : Generation) (done : List VaultFile) (f : VaultFile) (h : VaultFile) :
    Function.update (hereLeft g done) f none h = hereLeft g (done ++ [f]) h := by
  by_cases same : h = f
  · subst same
    simp [hereLeft]
  · simp [hereLeft,same]

theorem move_old_crash (held : active d = g) (staged : StagedVault) (stage : Generation) :
    Crash Op.apply (Swapping staged.id (journalAt staged d .prepared) (fun _ => none) g stage)
      (moveOld staged (journalAt staged d .prepared))
      (Swapping staged.id (journalAt staged d .prepared) g (fun _ => none) stage) (Recoverable staged.id g) := by
  have mid : Crash Op.apply (Swapping staged.id (journalAt staged d .prepared) (outDone g []) (hereLeft g []) stage)
      (moveOld staged (journalAt staged d .prepared))
      (Swapping staged.id (journalAt staged d .prepared) (outDone g files) (hereLeft g files) stage) (Recoverable staged.id g) := by
    have safe : ∀ done x, Swapping staged.id (journalAt staged d .prepared) (outDone g done) (hereLeft g done) stage x → Recoverable staged.id g x := by
      intro done x swapping
      refine swapping_undo held .prepared (by decide) swapping ?_
      intro f
      by_cases inside : f ∈ done
      · exact .inl (by simp [outDone,inside])
      · exact .inr ⟨by simp [outDone,inside],by simp [hereLeft,inside],rfl⟩
    refine crash_flatMap files _ (fun done => Swapping staged.id (journalAt staged d .prepared) (outDone g done) (hereLeft g done) stage) ?_ ?_
      (fun front _ _ => safe front)
    · intro f _
      exact .inr ⟨_,rfl⟩
    · intro front f rest split
      have fresh : f ∉ front := by
        have once : files.Nodup := by decide
        rw [split] at once
        exact fun inside => (List.nodup_append.mp once).2.2 f inside f List.mem_cons_self rfl
      cases present : (journalAt staged d .prepared).oldPresent f with
      | true =>
          refine crash_step _ ?_ (safe front) (safe _)
          intro x swapping
          exact swapping_congr (swapping_move_out swapping f) (done_out g front f fresh) (left_here g front f) (fun _ => rfl)
      | false =>
          -- a file that was not there counts as moved
          have none : g f = none := by
            rw [← held]
            exact Option.isNone_iff_eq_none.mp (by simpa [journalAt,active] using present)
          have same : ∀ h, outDone g front h = outDone g (front ++ [f]) h ∧ hereLeft g front h = hereLeft g (front ++ [f]) h := by
            intro h
            by_cases equal : h = f
            · subst equal
              simp [outDone,hereLeft,none]
            · simp [outDone,hereLeft,equal]
          refine crash_block (fun o inside => absurd inside List.not_mem_nil) ?_ (safe front)
          intro x swapping
          exact swapping_congr swapping (fun h => (same h).1) (fun h => (same h).2) (fun _ => rfl)
  intro x swapping
  have all : ∀ f : VaultFile, f ∈ files := fun f => by cases f <;> decide
  obtain ⟨final,cut⟩ := mid x (swapping_congr swapping (fun _ => rfl) (fun _ => rfl) (fun _ => rfl))
  exact ⟨swapping_congr final (fun f => by simp [outDone,all f]) (fun f => by simp [hereLeft,all f]) (fun _ => rfl),cut⟩

def stageOf (staged : StagedVault) (d : Dir) : Generation := fun f => d.inside (stagePath staged.id) f.name

-- What is staged, and neither of the two side files.
def newGeneration (staged : StagedVault) (d : Dir) : Generation := outDone (stageOf staged d) generationFiles

theorem move_new_crash (held : active d = g) (staged : StagedVault) :
    Crash Op.apply (Swapping staged.id (journalAt staged d .oldMoved) g (fun _ => none) (stageOf staged d)) (moveNew staged d).instrs
      (fun x => Recoverable staged.id g x ∧ ((moveNew staged d).result = .ok () →
        ∃ stage, Swapping staged.id (journalAt staged d .oldMoved) g (newGeneration staged d) stage x))
      (Recoverable staged.id g) := by
  have safe : ∀ (done : List VaultFile) x, Swapping staged.id (journalAt staged d .oldMoved) g (outDone (stageOf staged d) done)
      (hereLeft (stageOf staged d) done) x → Recoverable staged.id g x := by
    intro done x swapping
    exact swapping_undo held .oldMoved (by decide) swapping (fun _ => .inl rfl)
  have mid : Crash Op.apply (Swapping staged.id (journalAt staged d .oldMoved) g (outDone (stageOf staged d) []) (hereLeft (stageOf staged d) []))
      (moveNew staged d).instrs
      (Swapping staged.id (journalAt staged d .oldMoved) g
        (outDone (stageOf staged d) (generationFiles.takeWhile (fun f => (stageOf staged d f).isSome)))
        (hereLeft (stageOf staged d) (generationFiles.takeWhile (fun f => (stageOf staged d f).isSome)))) (Recoverable staged.id g) := by
    refine crash_flatMap _ _ (fun done => Swapping staged.id (journalAt staged d .oldMoved) g (outDone (stageOf staged d) done)
      (hereLeft (stageOf staged d) done)) (fun f _ => closed_step _) ?_ (fun front _ _ => safe front)
    intro front f rest split
    have inside : f ∈ generationFiles.takeWhile (fun f => (stageOf staged d f).isSome) := by
      rw [show generationFiles.takeWhile (fun f => (stageOf staged d f).isSome) = front ++ f :: rest from split]
      simp
    have present : (stageOf staged d f).isSome = true := List.mem_takeWhile_imp (p := fun f => (stageOf staged d f).isSome) inside
    have fresh : f ∉ front := by
      have once : (generationFiles.takeWhile (fun f => (stageOf staged d f).isSome)).Nodup :=
        (show generationFiles.Nodup by decide).sublist (List.takeWhile_sublist _)
      rw [show generationFiles.takeWhile (fun f => (stageOf staged d f).isSome) = front ++ f :: rest from split] at once
      exact fun inside => (List.nodup_append.mp once).2.2 f inside f List.mem_cons_self rfl
    refine crash_step _ ?_ (safe front) (safe _)
    intro x swapping
    have moved := swapping_move_in swapping f (by simpa [hereLeft,fresh] using present)
    exact swapping_congr moved (fun _ => rfl) (done_out _ front f fresh) (left_here _ front f)
  intro x swapping
  obtain ⟨final,cut⟩ := mid x (swapping_congr swapping (fun _ => rfl) (fun _ => rfl) (fun _ => rfl))
  refine ⟨⟨safe _ _ final,?_⟩,cut⟩
  intro fine
  have all : generationFiles.all (fun f => (stageOf staged d f).isSome) = true := by
    by_contra missing
    have failed : (moveNew staged d).result = .error "No such file or directory" := if_neg missing
    rw [failed] at fine
    cases fine
  have whole : generationFiles.takeWhile (fun f => (stageOf staged d f).isSome) = generationFiles :=
    List.takeWhile_eq_self_iff.mpr (List.all_eq_true.mp all)
  rw [whole] at final
  exact ⟨_,final⟩

theorem move_old_closed (staged : StagedVault) (j : Journal) : Closed (moveOld staged j) :=
  closed_flatMap _ _ (fun _ _ => .inr ⟨_,rfl⟩)

theorem move_new_closed (staged : StagedVault) (d : Dir) : Closed (moveNew staged d).instrs :=
  closed_flatMap _ _ (fun _ _ => closed_step _)

-- Up to the moment before the staged files are moved in.
def opening (staged : StagedVault) (d : Dir) : List (Instr Op) :=
  clearSession d ++ [.op (.mkdir (backupPath staged.id)),.sync] ++ writeJournal (journalAt staged d .prepared) ++
    moveOld staged (journalAt staged d .prepared) ++ writeJournal (journalAt staged d .oldMoved)

theorem begin_closed (id : String) (d : Dir) : Closed (clearSession d ++ [.op (.mkdir (backupPath id)),.sync]) :=
  .inr ⟨clearSession d ++ [.op (.mkdir (backupPath id))],by simp⟩

theorem journal_closed (j : Journal) : Closed (writeJournal j) := closed_step _

theorem opening_closed (staged : StagedVault) (d : Dir) : Closed (opening staged d) :=
  closed_append (closed_append (closed_append (begin_closed _ d) (journal_closed _)) (move_old_closed staged _)) (journal_closed _)

theorem opening_crash (idle : Idle g d) (staged : StagedVault) :
    Crash Op.apply (Ready staged.id g (stageOf staged d)) (opening staged d)
      (Swapping staged.id (journalAt staged d .oldMoved) g (fun _ => none) (stageOf staged d)) (Recoverable staged.id g) := by
  have prepared : ∀ x, Swapping staged.id (journalAt staged d .prepared) (fun _ => none) g (stageOf staged d) x → Recoverable staged.id g x :=
    fun x swapping => swapping_undo idle.held .prepared (by decide) swapping (fun f => .inr ⟨rfl,rfl,rfl⟩)
  have emptied : ∀ x, Swapping staged.id (journalAt staged d .prepared) g (fun _ => none) (stageOf staged d) x → Recoverable staged.id g x :=
    fun x swapping => swapping_undo idle.held .prepared (by decide) swapping (fun f => .inl rfl)
  have moved : ∀ x, Swapping staged.id (journalAt staged d .oldMoved) g (fun _ => none) (stageOf staged d) x → Recoverable staged.id g x :=
    fun x swapping => swapping_undo idle.held .oldMoved (by decide) swapping (fun f => .inl rfl)
  have first : Crash Op.apply (Ready staged.id g (stageOf staged d)) _ _ (Recoverable staged.id g) := begin_crash d
  have second : Crash Op.apply (fun x => Ready staged.id g (stageOf staged d) x ∧ (x.folders (backupPath staged.id)).isSome = true ∧
      ∀ f : VaultFile, x.inside (backupPath staged.id) f.name = none) (writeJournal (journalAt staged d .prepared))
      (Swapping staged.id (journalAt staged d .prepared) (fun _ => none) g (stageOf staged d)) (Recoverable staged.id g) := by
    refine journal_crash _ ?_ (fun x held => .inl held.1.toIdle) prepared
    rintro x ⟨ready,folder,empty⟩
    exact ⟨by rw [put_files,Function.update_self],folder,empty,fun f => by rw [active_put_journal,ready.held],ready.stage⟩
  have third := move_old_crash idle.held staged (stageOf staged d)
  have last := journal_crash (journalAt staged d .oldMoved) (fun x swapping => swapping_journal swapping _) emptied moved
  have opened := crash_seq (begin_closed _ d) first second
  have out := crash_seq (closed_append (begin_closed _ d) (journal_closed _)) opened third
  exact crash_seq (closed_append (closed_append (begin_closed _ d) (journal_closed _)) (move_old_closed staged _)) out last

theorem drop_crash (listing : String → List String) (d : Dir) :
    Crash Op.apply (Recoverable id g) (removeFolder listing d (stagePath id)) (Recoverable id g) (Recoverable id g) := by
  have steady : ∀ o ∈ ops (removeFolder listing d (stagePath id)), ∀ x, Recoverable id g x → Recoverable id g (o.apply x) :=
    fun o inside x held => recoverable_removes (remove_folder_ops listing d _ o inside) (stage_ne_backup id id) held
  exact crash_block steady (fun x held => apply_steady _ steady x held) (fun _ held => held)

-- Everything before the commit.
def uncommitted (staged : StagedVault) (d : Dir) : List (Instr Op) :=
  opening staged d ++ (moveNew staged d).instrs ++ writeJournal (journalAt staged d .newInstalled)

theorem uncommitted_closed (staged : StagedVault) (d : Dir) : Closed (uncommitted staged d) :=
  closed_append (closed_append (opening_closed staged d) (move_new_closed staged d)) (journal_closed _)

theorem ready_of_idle (idle : Idle g d) (staged : StagedVault) : Ready staged.id g (stageOf staged d) d := ⟨idle,fun _ => rfl⟩

theorem moved_crash (idle : Idle g d) (staged : StagedVault) :
    Crash Op.apply (· = d) (opening staged d ++ (moveNew staged d).instrs)
      (fun x => Recoverable staged.id g x ∧ ((moveNew staged d).result = .ok () →
        ∃ stage, Swapping staged.id (journalAt staged d .oldMoved) g (newGeneration staged d) stage x))
      (Recoverable staged.id g) := by
  refine crash_seq (opening_closed staged d) ?_ (move_new_crash idle.held staged)
  rintro x rfl
  exact opening_crash idle staged x (ready_of_idle idle staged)

theorem uncommitted_crash (idle : Idle g d) (fine : (moveNew staged d).result = .ok ()) :
    Crash Op.apply (· = d) (uncommitted staged d)
      (fun x => ∃ stage, Swapping staged.id (journalAt staged d .newInstalled) g (newGeneration staged d) stage x)
      (Recoverable staged.id g) := by
  refine crash_seq (closed_append (opening_closed staged d) (move_new_closed staged d)) (moved_crash idle staged) ?_
  refine journal_crash _ ?_ (fun x held => held.1) ?_
  · rintro x ⟨_,moved⟩
    obtain ⟨stage,swapping⟩ := moved fine
    exact ⟨stage,swapping_journal swapping _⟩
  · rintro x ⟨stage,swapping⟩
    exact swapping_undo idle.held .newInstalled (by decide) swapping (fun _ => .inl rfl)

theorem committed_redo (swapping : Swapping staged.id (journalAt staged d .newInstalled) g here stage x) :
    Redo staged.id here (journalAt staged d .committed) (Op.apply (.put journalName (.journal (journalAt staged d .committed))) x) :=
  ⟨by rw [put_files,Function.update_self],rfl,rfl,rfl,by rw [active_put_journal]; exact funext swapping.here⟩

-- The three ways the call can go when no transaction is open.
theorem install_cases (idle : Idle g d) (listing : String → List String) (staged : StagedVault) :
    (∃ x, (installWithHook listing staged d).instrs = clearSession d ++ removeFolder listing x (stagePath staged.id)) ∨
    (∃ x, (installWithHook listing staged d).instrs =
      opening staged d ++ (moveNew staged d).instrs ++ removeFolder listing x (stagePath staged.id)) ∨
    ∃ x, (moveNew staged d).result = .ok () ∧ (installWithHook listing staged d).instrs =
      uncommitted staged d ++ (writeJournal (journalAt staged d .committed) ++
        ((recover listing (run (uncommitted staged d ++ writeJournal (journalAt staged d .committed)) d)).instrs ++
          removeFolder listing x (stagePath staged.id))) := by
  have first : recover listing d = ⟨[],.ok ()⟩ := recover_idle idle
  have here : run [] d = d := rfl
  unfold installWithHook
  simp only [first,here]
  by_cases taken : (d.folders (backupPath staged.id)).isSome = true
  · left
    have failed : swap staged d = ⟨clearSession d,.error "File exists"⟩ := by simp only [swap,taken,if_true]
    simp only [failed,Program.andThen]
    exact ⟨_,rfl⟩
  · right
    have shape : swap staged d = Program.andThen (Program.andThen ⟨opening staged d,.ok ()⟩ (moveNew staged d))
        ⟨writeJournal (journalAt staged d .newInstalled),.ok ()⟩ := by
      simp only [swap,taken,Bool.false_eq_true,if_false,opening]
    cases result : (moveNew staged d).result with
    | error message =>
        left
        have failed : swap staged d = ⟨opening staged d ++ (moveNew staged d).instrs,.error message⟩ := by
          rw [shape]
          simp only [Program.andThen,result]
        simp only [failed,Program.andThen]
        exact ⟨_,rfl⟩
    | ok done =>
        right
        have went : swap staged d = ⟨uncommitted staged d,.ok ()⟩ := by
          rw [shape]
          simp only [Program.andThen,result,uncommitted]
        simp only [went,commit,Program.andThen]
        apply Exists.intro
        refine ⟨trivial,?_⟩
        rw [List.nil_append,List.append_assoc,List.append_assoc]

-- The journal that says the new generation counts.
def Commits (o : Op) : Prop := ∃ j : Journal, o = .put journalName (.journal j) ∧ j.phase = .committed

def Committed (applied : List Op) : Prop := ∃ o ∈ applied, Commits o

theorem removes_not_commit {o : Op} (removes : Removes folder o) : ¬Commits o := by
  rintro ⟨j,rfl,_⟩
  rcases removes with ⟨_,same⟩ | same <;> cases same

-- The writes before the commit.
inductive Swaps (staged : StagedVault) : Op → Prop where
  | zero (content : Content) : Swaps staged (.put sessionName content)
  | session : Swaps staged (.remove sessionName)
  | folder : Swaps staged (.mkdir (backupPath staged.id))
  | journal (d : Dir) (phase : Phase) (open' : phase ≠ .committed) : Swaps staged (.put journalName (.journal (journalAt staged d phase)))
  | out (f : VaultFile) : Swaps staged (.moveOut f.name (backupPath staged.id))
  | new (f : VaultFile) : Swaps staged (.moveIn (stagePath staged.id) f.name)

theorem swaps_not_commit {o : Op} (swaps : Swaps staged o) : ¬Commits o := by
  rintro ⟨j,same,committed⟩
  cases swaps with
  | zero content => exact absurd (Op.put.inj same).1 session_ne_journal
  | journal d phase open' =>
      cases same
      exact open' committed
  | _ => cases same

theorem session_swaps (staged : StagedVault) (d : Dir) (inside : o ∈ ops (clearSession d)) : Swaps staged o := by
  unfold clearSession at inside
  split at inside
  · cases inside
  · simp only [ops_op,ops_nil,List.mem_cons,List.not_mem_nil,or_false] at inside
    rcases inside with rfl | rfl
    · exact .zero _
    · exact .session

theorem journal_swaps (staged : StagedVault) (d : Dir) (phase : Phase) (open' : phase ≠ .committed)
    (inside : o ∈ ops (writeJournal (journalAt staged d phase))) : Swaps staged o := by
  rw [List.mem_singleton.mp (show o ∈ [Op.put journalName (.journal (journalAt staged d phase))] from inside)]
  exact .journal d phase open'

theorem move_old_swaps (staged : StagedVault) (j : Journal) (inside : o ∈ ops (moveOld staged j)) : Swaps staged o := by
  obtain ⟨instr,listed,is⟩ := List.mem_filterMap.mp inside
  obtain ⟨f,_,here⟩ := List.mem_flatMap.mp listed
  rcases List.mem_append.mp here with moved | last
  · split at moved
    · rw [List.mem_singleton.mp moved] at is
      cases is
      exact .out f
    · cases moved
  · rw [List.mem_singleton.mp last] at is
    cases is

theorem move_new_swaps (staged : StagedVault) (d : Dir) (inside : o ∈ ops (moveNew staged d).instrs) : Swaps staged o := by
  obtain ⟨instr,listed,is⟩ := List.mem_filterMap.mp inside
  obtain ⟨f,_,here⟩ := List.mem_flatMap.mp listed
  simp only [List.mem_cons,List.not_mem_nil,or_false] at here
  rcases here with rfl | rfl
  · cases is
    exact .new f
  · cases is

theorem opening_swaps (staged : StagedVault) (d : Dir) (inside : o ∈ ops (opening staged d)) : Swaps staged o := by
  simp only [opening,ops_append,List.mem_append] at inside
  rcases inside with (((session | folder) | prepared) | moved) | old
  · exact session_swaps staged d session
  · rw [List.mem_singleton.mp (show o ∈ [Op.mkdir (backupPath staged.id)] from folder)]
    exact .folder
  · exact journal_swaps staged d _ (by decide) prepared
  · exact move_old_swaps staged _ moved
  · exact journal_swaps staged d _ (by decide) old

theorem uncommitted_swaps (staged : StagedVault) (d : Dir) (inside : o ∈ ops (uncommitted staged d)) : Swaps staged o := by
  simp only [uncommitted,ops_append,List.mem_append] at inside
  rcases inside with (opened | moved) | new
  · exact opening_swaps staged d opened
  · exact move_new_swaps staged d moved
  · exact journal_swaps staged d _ (by decide) new

theorem not_committed {p : List (Instr Op)} {applied : List Op} (quiet : ∀ o ∈ ops p, ¬Commits o) (survives : Survives p applied) : ¬Committed applied := by
  rintro ⟨o,inside,commits⟩
  exact quiet o ((survives_sublist survives).subset inside) commits

-- Where the replacement stops, the commit decides which generation counts.
theorem install_stops (idle : Idle g d) (survives : Survives (installWithHook listing staged d).instrs applied) :
    (¬Committed applied ∧ Recoverable staged.id g (applyAll Op.apply applied d)) ∨
    (Committed applied ∧ Recoverable staged.id (newGeneration staged d) (applyAll Op.apply applied d)) := by
  rcases install_cases idle listing staged with ⟨x,same⟩ | ⟨x,same⟩ | ⟨x,fine,same⟩
  · left
    rw [same] at survives
    refine ⟨not_committed ?_ survives,?_⟩
    · intro o inside
      rcases List.mem_append.mp (ops_append _ _ ▸ inside) with session | dropped
      · exact swaps_not_commit (session_swaps staged d session)
      · exact removes_not_commit (remove_folder_ops listing x _ o dropped)
    · have steady : ∀ o ∈ applied, ∀ y, Idle g y → Idle g (o.apply y) := by
        intro o inside y idle
        rcases List.mem_append.mp (ops_append _ _ ▸ (survives_sublist survives).subset inside) with session | dropped
        · exact (session_steady d o session y ⟨idle,fun _ => rfl⟩ : Ready staged.id g (stageOf staged y) (o.apply y)).toIdle
        · exact idle_removes (remove_folder_ops listing x _ o dropped) idle
      exact .inl (apply_steady applied steady d idle)
  · left
    rw [same] at survives
    refine ⟨not_committed ?_ survives,?_⟩
    · intro o inside
      simp only [ops_append,List.mem_append] at inside
      rcases inside with (opened | moved) | dropped
      · exact swaps_not_commit (opening_swaps staged d opened)
      · exact swaps_not_commit (move_new_swaps staged d moved)
      · exact removes_not_commit (remove_folder_ops listing x _ o dropped)
    · have cut := crash_seq (closed_append (opening_closed staged d) (move_new_closed staged d)) (moved_crash idle staged)
        (fun y held => drop_crash listing x y held.1)
      exact (cut d rfl).2 applied survives
  · rw [same] at survives
    obtain ⟨⟨stage,swapping⟩,before⟩ := uncommitted_crash idle fine d rfl
    rcases survives_append (uncommitted_closed staged d) survives with early | ⟨more,rfl,late⟩
    · exact .inl ⟨not_committed (fun o inside => swaps_not_commit (uncommitted_swaps staged d inside)) early,before applied early⟩
    · have redo := committed_redo swapping
      rcases survives_append (journal_closed _) late with written | ⟨rest,rfl,after⟩
      · rcases List.sublist_singleton.mp (show more.Sublist [_] from survives_sublist written) with rfl | rfl
        · left
          rw [List.append_nil]
          exact ⟨not_committed (fun o inside => swaps_not_commit (uncommitted_swaps staged d inside)) (survives_whole _),before _ (survives_whole _)⟩
        · right
          refine ⟨⟨_,List.mem_append_right _ List.mem_cons_self,_,rfl,rfl⟩,?_⟩
          rw [apply_append]
          exact .inr (.inr ⟨_,redo⟩)
      · right
        refine ⟨⟨_,List.mem_append_right _ (List.mem_append_left _ List.mem_cons_self),_,rfl,rfl⟩,?_⟩
        have here : run (uncommitted staged d ++ writeJournal (journalAt staged d .committed)) d =
            Op.apply (.put journalName (.journal (journalAt staged d .committed))) (applyAll Op.apply (ops (uncommitted staged d)) d) := by
          rw [run_append]
          rfl
        obtain ⟨fine,recovers⟩ := recover_crash listing (.inr (.inr ⟨_,redo⟩))
        rw [here] at after
        have cut := crash_seq (recover_closed fine) recovers (fun y idle => drop_crash listing x y (.inl idle))
        rw [apply_append,apply_append]
        exact (cut _ rfl).2 rest after

-- What a transaction may write.
def OwnName (name : String) : Prop := (∃ f : VaultFile, name = f.name) ∨ name = journalName ∨ name = sessionName
def OwnFolder (id folder : String) : Prop := folder = stagePath id ∨ folder = backupPath id

def Own (id : String) : Op → Prop
  | .put name _ | .remove name => OwnName name
  | .mkdir folder | .rmdir folder | .unlink folder _ => OwnFolder id folder
  | .moveOut name folder | .moveIn folder name => OwnName name ∧ OwnFolder id folder

structure Elsewhere (id : String) (before after : Dir) : Prop where
  files : ∀ name, ¬OwnName name → after.files name = before.files name
  folders : ∀ folder, ¬OwnFolder id folder → after.folders folder = before.folders folder

theorem elsewhere_refl (d : Dir) : Elsewhere id d d := ⟨fun _ _ => rfl,fun _ _ => rfl⟩

theorem elsewhere_trans {a b c : Dir} (one : Elsewhere id a b) (two : Elsewhere id b c) : Elsewhere id a c :=
  ⟨fun name other => (two.files name other).trans (one.files name other),
    fun folder other => (two.folders folder other).trans (one.folders folder other)⟩

theorem own_elsewhere {o : Op} (own : Own id o) (d : Dir) : Elsewhere id d (o.apply d) := by
  have name : ∀ mine, OwnName mine → ∀ (content : Option Content) other, ¬OwnName other →
      Function.update d.files mine content other = d.files other := by
    intro mine held content other apart
    exact Function.update_of_ne (fun same => apart (by rwa [same])) _ _
  have folder : ∀ mine, OwnFolder id mine → ∀ (content : Option (String → Option Content)) other, ¬OwnFolder id other →
      Function.update d.folders mine content other = d.folders other := by
    intro mine held content other apart
    exact Function.update_of_ne (fun same => apart (by rwa [same])) _ _
  cases o with
  | put mine content => exact ⟨name _ own _,fun _ _ => rfl⟩
  | remove mine => exact ⟨name _ own _,fun _ _ => rfl⟩
  | mkdir mine => exact ⟨fun _ _ => rfl,folder _ own _⟩
  | rmdir mine => exact ⟨fun _ _ => rfl,folder _ own _⟩
  | unlink mine file =>
      unfold Op.apply
      dsimp only
      split
      · exact elsewhere_refl d
      · exact ⟨fun _ _ => rfl,folder _ own _⟩
  | moveOut file mine =>
      unfold Op.apply
      dsimp only
      split
      · exact elsewhere_refl d
      · exact ⟨name _ own.1 _,folder _ own.2 _⟩
  | moveIn mine file =>
      unfold Op.apply
      dsimp only
      split
      · exact elsewhere_refl d
      · exact ⟨name _ own.1 _,folder _ own.2 _⟩

theorem all_elsewhere (applied : List Op) (own : ∀ o ∈ applied, Own id o) (d : Dir) : Elsewhere id d (applyAll Op.apply applied d) :=
  apply_steady applied (P := Elsewhere id d) (fun o inside _ still => elsewhere_trans still (own_elsewhere (own o inside) _)) d (elsewhere_refl d)

theorem removes_own {o : Op} (removes : Removes folder o) (mine : OwnFolder id folder) : Own id o := by
  rcases removes with ⟨name,rfl⟩ | rfl <;> exact mine

theorem restore_own (d : Dir) (j : Journal) (f : VaultFile) (inside : o ∈ ops (restore d j f).instrs) : Own id o := by
  unfold restore at inside
  split at inside
  · rw [List.mem_singleton.mp (show o ∈ [Op.put f.name _] from inside)]
    exact .inl ⟨f,rfl⟩
  · split at inside
    · dsimp only at inside
      split at inside
      · rw [List.mem_singleton.mp (show o ∈ [Op.remove f.name] from inside)]
        exact .inl ⟨f,rfl⟩
      · cases inside
    · split at inside <;> cases inside

theorem and_then_ops (p q : Program) (inside : o ∈ ops (p.andThen q).instrs) : o ∈ ops p.instrs ∨ o ∈ ops q.instrs := by
  unfold Program.andThen at inside
  split at inside
  · exact .inl inside
  · exact List.mem_append.mp (ops_append _ _ ▸ inside)

theorem rollback_own (d : Dir) (j : Journal) (list : List VaultFile) (inside : o ∈ ops (rollback d j list).instrs) : Own id o := by
  induction list with
  | nil => cases inside
  | cons f rest ih =>
      rcases and_then_ops _ _ inside with here | later
      · exact restore_own d j f here
      · exact ih later

theorem recover_own (held : Recoverable id g d) (listing : String → List String) (inside : o ∈ ops (recover listing d).instrs) : Own id o := by
  have transaction : ∀ j, d.files journalName = some (.journal j) → j.transactionId = id := by
    intro j journal
    rcases held with idle | ⟨k,_,undo⟩ | ⟨k,redo⟩
    · rw [idle.journal] at journal
      cases journal
    · rw [undo.journal] at journal
      cases journal
      exact undo.transaction
    · rw [redo.journal] at journal
      cases journal
      exact redo.transaction
  unfold recover at inside
  split at inside
  · cases inside
  · cases inside
  · rename_i j journal
    split at inside
    · cases inside
    · rcases and_then_ops _ _ inside with undone | cleaned
      · split at undone
        · exact rollback_own d j files undone
        · cases undone
      · have is := transaction j journal
        simp only [ops_append,List.mem_append,ops_op,ops_sync,ops_nil,List.mem_singleton,List.not_mem_nil,or_false] at cleaned
        rcases cleaned with (rfl | stage) | backup
        · exact .inr (.inl rfl)
        · exact removes_own (remove_folder_ops listing d _ o stage) (.inl (by rw [is]))
        · exact removes_own (remove_folder_ops listing d _ o backup) (.inr (by rw [is]))

theorem swaps_own {o : Op} (swaps : Swaps staged o) : Own staged.id o := by
  cases swaps with
  | zero content => exact .inr (.inr rfl)
  | session => exact .inr (.inr rfl)
  | folder => exact .inr rfl
  | journal d phase open' => exact .inr (.inl rfl)
  | out f => exact ⟨.inl ⟨f,rfl⟩,.inr rfl⟩
  | new f => exact ⟨.inl ⟨f,rfl⟩,.inl rfl⟩

theorem install_own (idle : Idle g d) (inside : o ∈ ops (installWithHook listing staged d).instrs) : Own staged.id o := by
  have dropped : ∀ x, o ∈ ops (removeFolder listing x (stagePath staged.id)) → Own staged.id o :=
    fun x inside => removes_own (remove_folder_ops listing x _ o inside) (.inl rfl)
  rcases install_cases idle listing staged with ⟨x,same⟩ | ⟨x,same⟩ | ⟨x,fine,same⟩
  · rw [same] at inside
    simp only [ops_append,List.mem_append] at inside
    rcases inside with session | last
    · exact swaps_own (session_swaps staged d session)
    · exact dropped x last
  · rw [same] at inside
    simp only [ops_append,List.mem_append] at inside
    rcases inside with (opened | moved) | last
    · exact swaps_own (opening_swaps staged d opened)
    · exact swaps_own (move_new_swaps staged d moved)
    · exact dropped x last
  · obtain ⟨⟨stage,swapping⟩,_⟩ := uncommitted_crash idle fine d rfl
    have redo : Redo staged.id (newGeneration staged d) (journalAt staged d .committed) (run (uncommitted staged d ++ writeJournal (journalAt staged d .committed)) d) := by
      rw [run_append]
      exact committed_redo swapping
    rw [same] at inside
    simp only [ops_append,List.mem_append] at inside
    rcases inside with swapped | written | cleaned | last
    · exact swaps_own (uncommitted_swaps staged d swapped)
    · rw [List.mem_singleton.mp (show o ∈ [Op.put journalName _] from written)]
      exact .inr (.inl rfl)
    · exact recover_own (.inr (.inr ⟨_,redo⟩)) listing cleaned
    · exact dropped x last

-- Recovery is started again and again, and stopped somewhere each time.
inductive Restarts : Dir → Dir → Prop where
  | none (d : Dir) : Restarts d d
  | again {listing : String → List String} {d e : Dir} {applied : List Op} (survives : Survives (recover listing d).instrs applied)
      (more : Restarts (applyAll Op.apply applied d) e) : Restarts d e

theorem restarts_recoverable (held : Recoverable id g d) (restarts : Restarts d e) : Recoverable id g e ∧ Elsewhere id d e := by
  induction restarts with
  | none d => exact ⟨held,elsewhere_refl d⟩
  | @again listing d e applied survives more ih =>
      have cut := ((recover_crash listing held).2 d rfl).2 applied survives
      have still : Elsewhere id d (applyAll Op.apply applied d) :=
        all_elsewhere applied (fun o inside => recover_own held listing ((survives_sublist survives).subset inside)) d
      obtain ⟨held,elsewhere⟩ := ih cut
      exact ⟨held,elsewhere_trans still elsewhere⟩

-- Orphans are other names than the vault's files.
theorem orphan_other {isUuid : String → Bool} (orphan : ((stripPrefix ".write-" name).bind (stripSuffix ".tmp")).any isUuid = true)
    (f : VaultFile) : f.name ≠ name := by
  rintro rfl
  have none : stripPrefix ".write-" f.name = .none := by cases f <;> decide
  rw [none] at orphan
  cases orphan

theorem clean_orphans_active (isUuid : String → Bool) (listing : String → List String) (entries : List String) (d x : Dir)
    (inside : o ∈ ops (cleanOrphans isUuid listing entries d)) : active (o.apply x) = active x := by
  unfold cleanOrphans at inside
  rw [ops_append] at inside
  rcases List.mem_append.mp inside with each | last
  · obtain ⟨instr,listed,is⟩ := List.mem_filterMap.mp each
    obtain ⟨name,_,here⟩ := List.mem_flatMap.mp listed
    rcases List.mem_append.mp here with folder | file
    · split at folder
      · rename_i orphan
        have folded : o ∈ ops (removeFolder listing d name) := by
          rw [removeFolder,if_pos (Bool.and_eq_true_iff.mp orphan).2]
          exact List.mem_filterMap.mpr ⟨instr,folder,is⟩
        exact removes_active (remove_folder_ops listing d name o folded) x
      · cases folder
    · split at file
      · rename_i orphan
        rw [List.mem_singleton.mp file] at is
        cases is
        funext f
        simp only [active,remove_files]
        exact Function.update_of_ne (orphan_other (Bool.and_eq_true_iff.mp orphan).1 f) _ _
      · cases file
  · cases last

theorem recovered_quiet (idle : Idle g d) (survives : Survives (recover listing d).instrs applied) : applyAll Op.apply applied d = d := by
  rw [recover_idle idle] at survives
  rw [List.sublist_nil.mp (survives_sublist survives)]
  rfl

-- Stop the replacement anywhere, and recovery as often as you like: once a
-- recovery is through, the directory holds one whole generation.
theorem replacement_crash_safe (listing : String → List String) (staged : StagedVault) (d₀ : Dir) (fresh : d₀.files journalName = none)
    (stopped : Survives (installWithHook listing staged d₀).instrs applied) (restarted : Restarts (applyAll Op.apply applied d₀) d₁)
    (listing' : String → List String) :
    (recover listing' d₁).result = .ok () ∧
    (¬Committed applied → active (run (recover listing' d₁).instrs d₁) = active d₀) ∧
    (Committed applied → active (run (recover listing' d₁).instrs d₁) = newGeneration staged d₀) ∧
    Elsewhere staged.id d₀ (run (recover listing' d₁).instrs d₁) ∧
    (∀ again applied', Survives (recover again (run (recover listing' d₁).instrs d₁)).instrs applied' →
      active (applyAll Op.apply applied' (run (recover listing' d₁).instrs d₁)) = active (run (recover listing' d₁).instrs d₁)) ∧
    ∀ isUuid again entries applied', Survives (cleanOrphans isUuid again entries (run (recover listing' d₁).instrs d₁)) applied' →
      active (applyAll Op.apply applied' (run (recover listing' d₁).instrs d₁)) = active (run (recover listing' d₁).instrs d₁) := by
  have idle : Idle (active d₀) d₀ := ⟨fresh,rfl⟩
  have placed := all_elsewhere applied (fun o inside => install_own idle ((survives_sublist stopped).subset inside)) d₀
  have rest : ∀ g, Recoverable staged.id g (applyAll Op.apply applied d₀) →
      (recover listing' d₁).result = .ok () ∧ Idle g (run (recover listing' d₁).instrs d₁) ∧
      Elsewhere staged.id d₀ (run (recover listing' d₁).instrs d₁) := by
    intro g held
    obtain ⟨held,elsewhere⟩ := restarts_recoverable held restarted
    obtain ⟨fine,recovers⟩ := recover_crash listing' held
    refine ⟨fine,(recovers d₁ rfl).1,elsewhere_trans (elsewhere_trans placed elsewhere) ?_⟩
    exact all_elsewhere _ (fun o inside => recover_own held listing' inside) d₁
  have after : ∀ g, Idle g (run (recover listing' d₁).instrs d₁) →
      (∀ again applied', Survives (recover again (run (recover listing' d₁).instrs d₁)).instrs applied' →
        active (applyAll Op.apply applied' (run (recover listing' d₁).instrs d₁)) = active (run (recover listing' d₁).instrs d₁)) ∧
      ∀ isUuid again entries applied', Survives (cleanOrphans isUuid again entries (run (recover listing' d₁).instrs d₁)) applied' →
        active (applyAll Op.apply applied' (run (recover listing' d₁).instrs d₁)) = active (run (recover listing' d₁).instrs d₁) := by
    intro g idle
    refine ⟨fun again applied' survives => by rw [recovered_quiet idle survives],?_⟩
    intro isUuid again entries applied' survives
    refine apply_steady applied' (P := fun x => active x = active (run (recover listing' d₁).instrs d₁)) ?_ _ rfl
    intro o inside x same
    exact (clean_orphans_active isUuid again entries _ x ((survives_sublist survives).subset inside)).trans same
  rcases install_stops idle stopped with ⟨uncommitted,held⟩ | ⟨committed,held⟩
  · obtain ⟨fine,final,elsewhere⟩ := rest _ held
    exact ⟨fine,fun _ => final.held,fun yes => absurd yes uncommitted,elsewhere,after _ final⟩
  · obtain ⟨fine,final,elsewhere⟩ := rest _ held
    exact ⟨fine,fun no => absurd committed no,fun _ => final.held,elsewhere,after _ final⟩

-- Stopped after its second rename.
def runningVault : Dir where
  files name := if name ∈ ["vault.json","notes.db","notes.db-wal"] then some (.bytes [1]) else none
  folders folder :=
    if folder = stagePath "a" then some (fun name => if name ∈ ["vault.json","notes.db","vault-link.json"] then some (.bytes [2]) else none)
    else none

def replacing : List (Instr Op) := (installWithHook (fun _ => []) ⟨"a","b"⟩ runningVault).instrs

theorem stopped_replacement_crash_safe :
    active (run (recover (fun _ => []) (applyAll Op.apply (ops (replacing.take 7)) runningVault)).instrs
      (applyAll Op.apply (ops (replacing.take 7)) runningVault)) = active runningVault := by
  have stopped : Survives replacing (ops (replacing.take 7)) :=
    ⟨replacing.take 7,[],replacing.drop 7,[],by simp,by simp,List.Sublist.refl _,by simp⟩
  have uncommitted : ¬Committed (ops (replacing.take 7)) := by
    rintro ⟨o,inside,j,is,committed⟩
    have four : ops (replacing.take 7) = [.mkdir ".backup-a",.put journalName (.journal (journalAt ⟨"a","b"⟩ runningVault .prepared)),
        .moveOut "vault.json" ".backup-a",.moveOut "notes.db" ".backup-a"] := rfl
    rw [four,is] at inside
    simp at inside
    rw [inside] at committed
    cases committed
  exact (replacement_crash_safe (fun _ => []) ⟨"a","b"⟩ runningVault rfl stopped (.none _) (fun _ => [])).2.1 uncommitted

end ZkNote.VaultReplacement
