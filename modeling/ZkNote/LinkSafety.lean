import Mathlib.Logic.Equiv.List
import ZkNote.LinkRuns

namespace ZkNote.LinkSafety
open Fallible KeyedTable ServerOrigin ServerStore VaultIdentity VaultStore VaultLinking LinkRuns Runs

variable {s : Setting} {w w' : World} {client : Client} {loc : Local} {b : VaultBootstrap} {i id : Nat} {task : Task}

-- What the server would answer a GET with.
def Stored (s : Setting) (w : World) (b : VaultBootstrap) : Prop := getVaultBootstrap s.crates w.vaults s.account = .ok (some b)

def Vacant (s : Setting) (w : World) : Prop := w.vaults.find s.account = none

theorem vacant_unstored (vacant : Vacant s w) : ¬Stored s w b := by
  intro stored
  unfold Stored getVaultBootstrap at stored
  rw [show w.vaults.find s.account = none from vacant] at stored
  cases stored

-- An attempt that is under way, or an upload of one that was given up. As long as
-- the account has no vault no link is recorded, so that the attempt could begin still.
structure Underway (s : Setting) (w : World) (i : Nat) (loc : Local) : Prop where
  sane : Sane s loc
  client : ∃ client, w.clients[i]? = some client ∧ SameKind client loc ∧ ¬Foreign s client ∧ (Vacant s w → Ready s client loc)

structure Sound (s : Setting) (w : World) : Prop where
  written : w.written = 0 ∨ w.written = 1 ∧ ¬Vacant s w
  tasks : ∀ task ∈ w.tasks.rows, Underway s w task.client task.loc
  strays : ∀ stray ∈ w.strays, Underway s w stray.1 stray.2
  found : ∀ task ∈ w.tasks.rows, ∀ b, task.reply = some (.found b) → Stored s w b
  created : ∀ task ∈ w.tasks.rows, task.reply = some .created → (task.client,task.loc) ∈ w.uploads
  uploads : ∀ upload ∈ w.uploads, ∃ b client, Stored s w b ∧ Matches s upload.2 b ∧ w.clients[upload.1]? = some client ∧ Ready s client upload.2
  records : ∀ record ∈ w.records, ∃ b, Stored s w b ∧ Matches s record.2 b
  usedTasks : ∀ task ∈ w.tasks.rows, task.id ∈ w.used
  usedResults : ∀ result ∈ w.results, result.1 ∈ w.used

-- What a step leaves as it is.
structure Kept (s : Setting) (w w' : World) : Prop where
  sound : Sound s w'
  row : ∀ row, w.vaults.find s.account = some row → w'.vaults.find s.account = some row
  foreign : ∀ (i : Nat) client, w.clients[i]? = some client → Foreign s client → w'.clients[i]? = some client
  associated : ∀ (i : Nat) client, w.clients[i]? = some client → Associated s client → ∃ client', w'.clients[i]? = some client' ∧ Associated s client'
  uploads : ∀ upload ∈ w.uploads, upload ∈ w'.uploads
  used : ∀ id ∈ w.used, id ∈ w'.used

-- A step that leaves the server and the clients alone.
theorem kept_aside {tasks : Table Nat Task (·.id)} {strays : List (Nat × Local)} {used : List Nat} {results : List (Nat × Ending)} (sound : Sound s w)
    (under : ∀ task ∈ tasks.rows, Underway s w task.client task.loc) (stray : ∀ stray ∈ strays, Underway s w stray.1 stray.2)
    (found : ∀ task ∈ tasks.rows, ∀ b, task.reply = some (.found b) → Stored s w b)
    (created : ∀ task ∈ tasks.rows, task.reply = some .created → (task.client,task.loc) ∈ w.uploads)
    (more : ∀ id ∈ w.used, id ∈ used) (usedTasks : ∀ task ∈ tasks.rows, task.id ∈ used) (usedResults : ∀ result ∈ results, result.1 ∈ used) :
    Kept s w {w with tasks := tasks, strays := strays, used := used, results := results} :=
  ⟨⟨sound.written,fun task inside => ⟨(under task inside).sane,(under task inside).client⟩,fun x inside => ⟨(stray x inside).sane,(stray x inside).client⟩,
    found,created,sound.uploads,sound.records,usedTasks,usedResults⟩,fun _ is => is,fun _ _ is _ => is,fun _ client is home => ⟨client,is,home⟩,
    fun _ is => is,more⟩

theorem kept_trans {mid : World} (first : Kept s w mid) (second : Kept s mid w') : Kept s w w' :=
  ⟨second.sound,fun row is => second.row row (first.row row is),fun i client is foreign => second.foreign i client (first.foreign i client is foreign) foreign,
    fun i client is home => by
      obtain ⟨client',is',home'⟩ := first.associated i client is home
      exact second.associated i client' is' home',
    fun upload is => second.uploads upload (first.uploads upload is),fun id is => second.used id (first.used id is)⟩

theorem kept_refl (sound : Sound s w) : Kept s w w :=
  ⟨sound,fun _ is => is,fun _ _ is _ => is,fun _ client is home => ⟨client,is,home⟩,fun _ is => is,fun _ is => is⟩

-- An upload that reaches the server.
theorem post_kept (sound : Sound s w) (under : Underway s w i loc) : Kept s w (post s i loc w).1 ∧
    ((post s i loc w).2 = .created → (i,loc) ∈ (post s i loc w).1.uploads) := by
  cases posted : createVaultBootstrapHandler s.crates w.vaults s.account (body loc) with
  | mk vaults reply =>
      have is : post s i loc w = ({w with
          vaults := vaults
          written := if reply = .created then w.written + 1 else w.written
          uploads := if reply = .created then (i,loc) :: w.uploads else w.uploads},reply) := by
        rw [post,posted]
      rw [is]
      rcases posted_cases posted with ⟨rfl,other⟩ | ⟨rfl,vacant,b,sent,stored⟩
      · rw [if_neg other,if_neg other]
        exact ⟨kept_refl sound,fun created => absurd created other⟩
      · rw [if_pos rfl,if_pos rfl]
        have vacant : Vacant s w := vacant
        have filled : ∀ b', ¬Stored s w b' := fun b' => vacant_unstored vacant
        have occupied : vaults.find s.account ≠ none := by
          intro none
          rw [getVaultBootstrap,none] at stored
          cases stored
        have under' : ∀ k other, Underway s w k other → Underway s {w with vaults := vaults, written := w.written + 1, uploads := (i,loc) :: w.uploads} k other := by
          intro k other old
          obtain ⟨client,at',same,home,_⟩ := old.client
          exact ⟨old.sane,client,at',same,home,fun empty => absurd empty occupied⟩
        refine ⟨⟨⟨.inr ⟨?_,occupied⟩,fun task inside => under' _ _ (sound.tasks task inside),fun stray inside => under' _ _ (sound.strays stray inside),
          fun task inside b' reply => absurd (sound.found task inside b' reply) (filled b'),
          fun task inside reply => List.mem_cons_of_mem _ (sound.created task inside reply),fun upload inside => ?_,fun record inside => ?_,
          sound.usedTasks,sound.usedResults⟩,fun row is => ?_,fun _ _ is _ => is,fun _ client is home => ⟨client,is,home⟩,
          fun _ old => List.mem_cons_of_mem _ old,fun _ is => is⟩,fun _ => List.mem_cons_self⟩
        · show w.written + 1 = 1
          rcases sound.written with zero | ⟨_,full⟩
          · omega
          · exact absurd vacant full
        · rcases List.mem_cons.mp inside with rfl | old
          · obtain ⟨client,at',_,_,ready⟩ := under.client
            exact ⟨b,client,stored,body_match under.sane sent,at',ready vacant⟩
          · obtain ⟨b',_,before,_⟩ := sound.uploads upload old
            exact absurd before (filled b')
        · obtain ⟨b',before,_⟩ := sound.records record inside
          exact absurd before (filled b')
        · rw [show w.vaults.find s.account = none from vacant] at is
          cases is

theorem stored_same {b' : VaultBootstrap} (one : Stored s w b) (two : Stored s w b') : b = b' := by
  have is : Except.ok (some b) = Except.ok (some b') := one.symm.trans two
  cases is
  rfl

-- A link is recorded when the server holds a bootstrap that matches.
theorem record_kept {client' : Client} {linkedAt : String} (sound : Sound s w) (under : Underway s w i loc) (at' : w.clients[i]? = some client)
    (stored : Stored s w b) (found : Matches s loc b) (recorded : record s client loc linkedAt = .ok client') :
    Kept s w {w with clients := w.clients.set i client', records := (i,loc) :: w.records} ∧ Associated s client' := by
  obtain ⟨_,held,same,home,_⟩ := under.client
  have is := held.symm.trans at'
  cases is
  have associated := record_associated recorded same
  have inside : i < w.clients.length := (List.getElem?_eq_some_iff.mp at').1
  have here : (w.clients.set i client')[i]? = some client' := List.getElem?_set_self inside
  have there : ∀ k, k ≠ i → (w.clients.set i client')[k]? = w.clients[k]? := fun k other => List.getElem?_set_ne (Ne.symm other)
  have full : ¬Vacant s w := fun vacant => vacant_unstored vacant stored
  have under' : ∀ k other, Underway s w k other →
      Underway s {w with clients := w.clients.set i client', records := (i,loc) :: w.records} k other := by
    intro k other old
    by_cases mine : k = i
    · cases mine
      obtain ⟨client,before,kind,_⟩ := old.client
      have is := before.symm.trans at'
      cases is
      exact ⟨old.sane,client',here,(record_kind recorded).mpr kind,associated_home associated,fun vacant => absurd vacant full⟩
    · obtain ⟨client,before,rest⟩ := old.client
      exact ⟨old.sane,client,(there k mine).trans before,rest⟩
  refine ⟨⟨⟨sound.written,fun task inside => under' _ _ (sound.tasks task inside),fun stray inside => under' _ _ (sound.strays stray inside),
    sound.found,sound.created,fun upload inside => ?_,fun record inside => ?_,sound.usedTasks,sound.usedResults⟩,fun _ is => is,
    fun k client before foreign => ?_,fun k client before old => ?_,fun _ is => is,fun _ is => is⟩,associated⟩
  · obtain ⟨b',client,before,matched,kept,ready⟩ := sound.uploads upload inside
    by_cases mine : upload.1 = i
    · rw [mine] at kept
      have is := kept.symm.trans at'
      cases is
      cases stored_same stored before
      exact ⟨b,client',before,matched,by rw [mine]; exact here,recorded_ready ready matched found recorded⟩
    · exact ⟨b',client,before,matched,(there _ mine).trans kept,ready⟩
  · rcases List.mem_cons.mp inside with rfl | old
    · exact ⟨b,stored,found⟩
    · exact sound.records record old
  · by_cases mine : k = i
    · cases mine
      have is := before.symm.trans at'
      cases is
      exact absurd foreign home
    · exact (there k mine).trans before
  · by_cases mine : k = i
    · cases mine
      exact ⟨client',here,associated⟩
    · exact ⟨client,(there k mine).trans before,old⟩

theorem finish_kept (sound : Sound s w) (inside : task ∈ w.tasks.rows) (ending : Ending) : Kept s w (finish task ending w) :=
  kept_aside sound (fun t member => sound.tasks t (mem_delete.mp member).1) sound.strays (fun t member => sound.found t (mem_delete.mp member).1)
    (fun t member => sound.created t (mem_delete.mp member).1) (fun _ old => old) (fun t member => sound.usedTasks t (mem_delete.mp member).1)
    (fun result member => by
      rcases List.mem_cons.mp member with rfl | old
      · exact sound.usedTasks task inside
      · exact sound.usedResults result old)

theorem waiting_kept (phase : Phase) {reply : Option Reply} (sound : Sound s w) (inside : task ∈ w.tasks.rows)
    (found : ∀ b, reply = some (.found b) → Stored s w b) (created : reply = some .created → (task.client,task.loc) ∈ w.uploads) :
    Kept s w {w with tasks := w.tasks.upsert {task with phase := phase, reply := reply}} := by
  have rows : ∀ t ∈ (w.tasks.upsert {task with phase := phase, reply := reply}).rows, t = {task with phase := phase, reply := reply} ∨ t ∈ w.tasks.rows :=
    fun t member => (mem_upsert.mp member).imp_right And.left
  refine kept_aside sound (fun t member => ?_) sound.strays (fun t member => ?_) (fun t member => ?_) (fun _ old => old) (fun t member => ?_) sound.usedResults
  · rcases rows t member with rfl | old
    · exact sound.tasks task inside
    · exact sound.tasks t old
  · rcases rows t member with rfl | old
    · exact found
    · exact sound.found t old
  · rcases rows t member with rfl | old
    · exact created
    · exact sound.created t old
  · rcases rows t member with rfl | old
    · exact sound.usedTasks task inside
    · exact sound.usedTasks t old

theorem start_kept (sound : Sound s w) (taken : step s (.start i id loc) w = some w') : Kept s w w' := by
  simp only [step] at taken
  split at taken
  · cases taken
  · split at taken
    · cases taken
    · rename_i client held
      split at taken
      · cases taken
      · cases taken
        exact kept_aside sound sound.tasks sound.strays sound.found sound.created (fun _ old => List.mem_cons_of_mem _ old)
          (fun task inside => List.mem_cons_of_mem _ (sound.usedTasks task inside)) (fun result inside => by
            rcases List.mem_cons.mp inside with rfl | old
            · exact List.mem_cons_self
            · exact List.mem_cons_of_mem _ (sound.usedResults result old))
      · rename_i ready
        cases taken
        obtain ⟨same,sane,home⟩ := ready_cases ready
        have rows : ∀ t ∈ (w.tasks.upsert ⟨id,i,loc,.inspect,none⟩).rows, t = ⟨id,i,loc,.inspect,none⟩ ∨ t ∈ w.tasks.rows :=
          fun t member => (mem_upsert.mp member).imp_right And.left
        refine kept_aside sound (fun t member => ?_) sound.strays (fun t member => ?_) (fun t member => ?_) (fun _ old => List.mem_cons_of_mem _ old)
          (fun t member => ?_) (fun result inside => List.mem_cons_of_mem _ (sound.usedResults result inside))
        · rcases rows t member with rfl | old
          · exact ⟨sane,client,held,same,home,fun _ => ready⟩
          · exact sound.tasks t old
        · rcases rows t member with rfl | old
          · exact fun b is => (by cases is)
          · exact sound.found t old
        · rcases rows t member with rfl | old
          · exact fun is => (by cases is)
          · exact sound.created t old
        · rcases rows t member with rfl | old
          · exact List.mem_cons_self
          · exact List.mem_cons_of_mem _ (sound.usedTasks t old)

-- An answer comes from the vault the server holds.
theorem answer_kept (sound : Sound s w) (inside : task ∈ w.tasks.rows) : Kept s w (answer s task w).1 ∧ (answer s task w).1.tasks = w.tasks ∧
    (∀ b, (answer s task w).2 = .found b → Stored s (answer s task w).1 b) ∧
    ((answer s task w).2 = .created → (task.client,task.loc) ∈ (answer s task w).1.uploads) := by
  have got : Kept s w w ∧ w.tasks = w.tasks ∧ (∀ b, getVaultBootstrapHandler s.crates w.vaults s.account = .found b → Stored s w b) ∧
      (getVaultBootstrapHandler s.crates w.vaults s.account = .created → (task.client,task.loc) ∈ w.uploads) := by
    refine ⟨kept_refl sound,rfl,fun b is => got_found is,fun is => ?_⟩
    unfold getVaultBootstrapHandler at is
    split at is <;> cases is
  unfold answer
  split
  · obtain ⟨kept,created⟩ := post_kept sound (sound.tasks task inside)
    refine ⟨kept,rfl,fun b is => ?_,created⟩
    exact absurd is post_unfound
  · exact got

theorem serve_kept (sound : Sound s w) (taken : step s (.serve id) w = some w') : Kept s w w' := by
  simp only [step] at taken
  split at taken
  · rename_i task found
    split at taken
    · cases taken
      have inside := find_mem found
      obtain ⟨kept,tasks,got,created⟩ := answer_kept sound inside
      have inside' : task ∈ (answer s task w).1.tasks.rows := by rwa [tasks]
      have more := waiting_kept task.phase kept.sound inside' (fun b is => got b (Option.some.inj is)) (fun is => created (Option.some.inj is))
      exact kept_trans kept more
    · cases taken
  · cases taken

theorem refuse_kept (sound : Sound s w) (taken : step s (.refuse id) w = some w') : Kept s w w' := by
  simp only [step] at taken
  split at taken
  · rename_i task found
    split at taken
    · cases taken
      exact waiting_kept task.phase sound (find_mem found) (fun b is => by cases is) (fun is => by cases is)
    · cases taken
  · cases taken

theorem reply_match {reply : Reply} {phase : Phase} (sound : Sound s w) (inside : task ∈ w.tasks.rows) (replied : task.reply = some reply)
    (recording : resume s task.loc phase reply = .record) : ∃ b, Stored s w b ∧ Matches s task.loc b := by
  rcases resume_record recording with ⟨b,rfl,found⟩ | rfl
  · exact ⟨b,sound.found task inside b replied,found⟩
  · obtain ⟨b,_,stored,found,_⟩ := sound.uploads _ (sound.created task inside replied)
    exact ⟨b,stored,found⟩

theorem go_on_kept {reply : Reply} (sound : Sound s w) (inside : task ∈ w.tasks.rows) (replied : task.reply = some reply) (linkedAt : String) :
    Kept s w (goOn s task reply linkedAt w) := by
  unfold goOn
  split
  · rename_i phase _
    exact waiting_kept phase sound inside (fun b is => by cases is) (fun is => by cases is)
  · exact finish_kept sound inside _
  · rename_i recording
    split
    · exact kept_refl sound
    · rename_i client held
      split
      · exact finish_kept sound inside _
      · rename_i client' recorded
        obtain ⟨b,stored,found⟩ := reply_match sound inside replied recording
        obtain ⟨kept,_⟩ := record_kept sound (sound.tasks task inside) held stored found recorded
        exact kept_trans kept (finish_kept kept.sound inside _)

theorem deliver_kept {linkedAt : String} (sound : Sound s w) (taken : step s (.deliver id linkedAt) w = some w') : Kept s w w' := by
  simp only [step] at taken
  split at taken
  · rename_i task found
    have inside := find_mem found
    split at taken
    · cases taken
    · cases taken
      exact finish_kept sound inside _
    · rename_i reply _ replied
      cases taken
      exact go_on_kept sound inside replied linkedAt
  · cases taken

theorem drop_kept (sound : Sound s w) (taken : step s (.drop id) w = some w') : Kept s w w' := by
  simp only [step] at taken
  split at taken
  · rename_i task found
    cases taken
    have inside := find_mem found
    have kept := finish_kept sound inside .lost
    refine kept_trans kept (kept_aside kept.sound kept.sound.tasks (fun stray member => ?_) kept.sound.found kept.sound.created (fun _ old => old)
      kept.sound.usedTasks kept.sound.usedResults)
    split at member
    · rcases List.mem_cons.mp member with rfl | old
      · exact ⟨(sound.tasks task inside).sane,(sound.tasks task inside).client⟩
      · exact kept.sound.strays stray old
    · exact kept.sound.strays stray member
  · cases taken

theorem land_kept (sound : Sound s w) (taken : step s (.land i) w = some w') : Kept s w w' := by
  simp only [step] at taken
  split at taken
  · rename_i k loc held
    cases taken
    have inside := List.mem_of_getElem? held
    obtain ⟨kept,_⟩ := post_kept sound (sound.strays (k,loc) inside)
    exact kept_trans kept (kept_aside kept.sound kept.sound.tasks (fun stray member => kept.sound.strays stray (List.mem_of_mem_eraseIdx member))
      kept.sound.found kept.sound.created (fun _ old => old) kept.sound.usedTasks kept.sound.usedResults)
  · cases taken

theorem step_kept (sound : Sound s w) (event : Event) (taken : step s event w = some w') : Kept s w w' := by
  cases event with
  | start => exact start_kept sound taken
  | serve => exact serve_kept sound taken
  | refuse => exact refuse_kept sound taken
  | deliver => exact deliver_kept sound taken
  | drop => exact drop_kept sound taken
  | land => exact land_kept sound taken

theorem begin_sound (vaults : Vaults) (clients : List Client) : Sound s (.begin vaults clients) := by
  refine ⟨.inl rfl,?_,?_,?_,?_,?_,?_,?_,?_⟩
  all_goals
    intro x inside
    cases inside

theorem run_kept (sound : Sound s w) (events : List Event) (ran : runAll (step s) events w = some w') : Kept s w w' := by
  refine run_invariant (Kept s w) ?_ events (kept_refl sound) ran
  intro event mid next kept taken
  exact kept_trans kept (step_kept kept.sound event taken)

-- The attempt an event is about.
def attempt : Event → Option Nat
  | .start _ id _ => some id
  | .serve id => some id
  | .refuse id => some id
  | .deliver id _ => some id
  | .drop id => some id
  | .land _ => none

def SameAttempt (id : Nat) (w w' : World) : Prop :=
  w'.tasks.find id = w.tasks.find id ∧ ∀ ending, (id,ending) ∈ w'.results ↔ (id,ending) ∈ w.results

theorem result_other {ending : Ending} {other : Nat} {results : List (Nat × Ending)} {last : Ending} (unlike : other ≠ id) :
    (id,ending) ∈ (other,last) :: results ↔ (id,ending) ∈ results := by
  refine ⟨fun inside => ?_,fun inside => List.mem_cons_of_mem _ inside⟩
  rcases List.mem_cons.mp inside with is | old
  · cases is
    exact absurd rfl unlike
  · exact old

theorem finish_other (unlike : task.id ≠ id) (ending : Ending) (w : World) : SameAttempt id w (finish task ending w) := by
  refine ⟨?_,fun _ => result_other unlike⟩
  have kept := find_delete w.tasks (fun t => t.id = task.id) id
  cases found : w.tasks.find id with
  | none =>
      rw [found] at kept
      exact kept
  | some t =>
      rw [found] at kept
      have own : t.id = id := find_key found
      have stays : (some t).filter (fun t : VaultLinking.Task => !decide (t.id = task.id)) = some t := by
        simp [Option.filter,own,Ne.symm unlike]
      exact kept.trans stays

theorem finish_gone (ending : Ending) (w : World) : (finish task ending w).tasks.find task.id = none := by
  have kept := find_delete w.tasks (fun t => t.id = task.id) task.id
  cases found : w.tasks.find task.id with
  | none =>
      rw [found] at kept
      exact kept
  | some t =>
      rw [found] at kept
      have own : t.id = task.id := find_key found
      have goes : (some t).filter (fun t : VaultLinking.Task => !decide (t.id = task.id)) = none := by
        simp [Option.filter,own]
      exact kept.trans goes

-- An attempt is only moved by its own events.
theorem step_other (event : Event) (taken : step s event w = some w') (unlike : attempt event ≠ some id) : SameAttempt id w w' := by
  cases event with
  | start k other loc =>
      have unlike : other ≠ id := fun same => unlike (congrArg some same)
      simp only [step] at taken
      split at taken
      · cases taken
      · split at taken
        · cases taken
        · split at taken
          · cases taken
          · cases taken
            exact ⟨rfl,fun _ => result_other unlike⟩
          · cases taken
            exact ⟨find_upsert_other w.tasks ⟨other,k,loc,.inspect,none⟩ unlike,fun _ => Iff.rfl⟩
  | serve other =>
      simp only [step] at taken
      split at taken
      · rename_i task found
        have unlike : task.id ≠ id := fun same => unlike (congrArg some ((find_key found).symm.trans same))
        split at taken
        · cases taken
          have aside : (answer s task w).1.tasks = w.tasks ∧ (answer s task w).1.results = w.results := by
            unfold answer
            split <;> exact ⟨rfl,rfl⟩
          refine ⟨?_,fun ending => ?_⟩
          · show ((answer s task w).1.tasks.upsert _).find id = _
            rw [aside.1]
            exact find_upsert_other w.tasks _ unlike
          · show (id,ending) ∈ (answer s task w).1.results ↔ _
            rw [aside.2]
        · cases taken
      · cases taken
  | refuse other =>
      simp only [step] at taken
      split at taken
      · rename_i task found
        have unlike : task.id ≠ id := fun same => unlike (congrArg some ((find_key found).symm.trans same))
        split at taken
        · cases taken
          exact ⟨find_upsert_other w.tasks _ unlike,fun _ => Iff.rfl⟩
        · cases taken
      · cases taken
  | deliver other linkedAt =>
      simp only [step] at taken
      split at taken
      · rename_i task found
        have unlike : task.id ≠ id := fun same => unlike (congrArg some ((find_key found).symm.trans same))
        split at taken
        · cases taken
        · cases taken
          exact finish_other unlike .lost w
        · cases taken
          unfold goOn
          split
          · exact ⟨find_upsert_other w.tasks _ unlike,fun _ => Iff.rfl⟩
          · exact finish_other unlike _ w
          · split
            · exact ⟨rfl,fun _ => Iff.rfl⟩
            · split
              · exact finish_other unlike _ w
              · exact finish_other unlike .linked _
      · cases taken
  | drop other =>
      simp only [step] at taken
      split at taken
      · rename_i task found
        have unlike : task.id ≠ id := fun same => unlike (congrArg some ((find_key found).symm.trans same))
        cases taken
        exact finish_other unlike .lost w
      · cases taken
  | land k =>
      simp only [step] at taken
      split at taken
      · cases taken
        exact ⟨rfl,fun _ => Iff.rfl⟩
      · cases taken

def LinkedNow (s : Setting) (w : World) (i : Nat) : Prop := ∃ client, w.clients[i]? = some client ∧ Associated s client

-- An attempt for a vault that an upload of its client has stored.
structure Retrying (s : Setting) (w : World) (i id : Nat) (loc : Local) : Prop where
  uploaded : (i,loc) ∈ w.uploads
  used : id ∈ w.used
  waiting : ∀ task, w.tasks.find id = some task → task.client = i ∧ task.loc = loc ∧ task.phase ≠ .upload ∧
    ∀ reply, task.reply = some reply → reply = .refused ∨ ∃ b, reply = .found b
  ended : ∀ ending, (id,ending) ∈ w.results → ending = .lost ∨ ending = .linked ∧ LinkedNow s w i
  there : (w.tasks.find id).isSome ∨ ∃ ending, (id,ending) ∈ w.results

theorem linked_kept (kept : Kept s w w') (linked : LinkedNow s w i) : LinkedNow s w' i := by
  obtain ⟨client,held,associated⟩ := linked
  exact kept.associated i client held associated

theorem other_retrying (retrying : Retrying s w i id loc) (kept : Kept s w w') (same : SameAttempt id w w') : Retrying s w' i id loc := by
  refine ⟨kept.uploads _ retrying.uploaded,kept.used _ retrying.used,?_,fun ending inside => ?_,?_⟩
  · rw [same.1]
    exact retrying.waiting
  · exact (retrying.ended ending ((same.2 ending).mp inside)).imp_right (fun linked => ⟨linked.1,linked_kept kept linked.2⟩)
  · rw [same.1]
    exact retrying.there.imp_right (fun ⟨ending,inside⟩ => ⟨ending,(same.2 ending).mpr inside⟩)

-- The attempt ends, lost or linked.
theorem finish_retrying {ending : Ending} (retrying : Retrying s w i id loc) (kept : Kept s w w')
    (good : ending = .lost ∨ ending = .linked ∧ LinkedNow s w' i) (results : w'.results = (id,ending) :: w.results) (gone : w'.tasks.find id = none) :
    Retrying s w' i id loc := by
  refine ⟨kept.uploads _ retrying.uploaded,kept.used _ retrying.used,fun task found => ?_,fun other inside => ?_,.inr ⟨ending,?_⟩⟩
  · rw [gone] at found
    cases found
  · rw [results] at inside
    rcases List.mem_cons.mp inside with is | old
    · cases is
      exact good
    · exact (retrying.ended other old).imp_right (fun linked => ⟨linked.1,linked_kept kept linked.2⟩)
  · rw [results]
    exact List.mem_cons_self

-- The attempt goes on with a request that is no upload.
theorem wait_retrying {phase : Phase} {reply : Option Reply} (retrying : Retrying s w i id loc) (found : w.tasks.find id = some task) (sent : phase ≠ .upload)
    (good : ∀ answer, reply = some answer → answer = .refused ∨ ∃ b, answer = .found b) :
    Retrying s {w with tasks := w.tasks.upsert {task with phase := phase, reply := reply}} i id loc := by
  have own : task.id = id := find_key found
  have now : (w.tasks.upsert {task with phase := phase, reply := reply}).find id = some {task with phase := phase, reply := reply} := by
    rw [← own]
    exact find_upsert_same w.tasks {task with phase := phase, reply := reply}
  obtain ⟨mine,same,_⟩ := retrying.waiting task found
  refine ⟨retrying.uploaded,retrying.used,fun t is => ?_,retrying.ended,.inl ?_⟩
  · have is := now.symm.trans is
    cases is
    exact ⟨mine,same,sent,good⟩
  · show ((w.tasks.upsert {task with phase := phase, reply := reply}).find id).isSome = true
    rw [now]
    rfl

theorem stored_answer (stored : Stored s w b) (sent : task.phase ≠ .upload) : answer s task w = (w,.found b) := by
  have got : getVaultBootstrapHandler s.crates w.vaults s.account = .found b := by
    rw [getVaultBootstrapHandler,show getVaultBootstrap s.crates w.vaults s.account = .ok (some b) from stored]
  unfold answer
  split
  · rename_i is
    exact absurd is sent
  · rw [got]

theorem found_goes (sound : Sound s w) (retrying : Retrying s w i id loc) (found : w.tasks.find id = some task)
    (replied : task.reply = some (.found b)) (linkedAt : String) :
    (∃ client', Associated s client' ∧ (w.clients.set i client')[i]? = some client' ∧ goOn s task (.found b) linkedAt w =
      finish task .linked {w with clients := w.clients.set i client', records := (i,loc) :: w.records}) ∨
    task.phase = .inspect ∧ goOn s task (.found b) linkedAt w = {w with tasks := w.tasks.upsert {task with phase := .recheck, reply := none}} := by
  obtain ⟨mine,same,sent,_⟩ := retrying.waiting task found
  obtain ⟨b',client,stored,matched,held,ready⟩ := sound.uploads _ retrying.uploaded
  cases stored_same stored (sound.found task (find_mem found) b replied)
  obtain ⟨client',recorded⟩ := ready_records ready linkedAt
  unfold goOn
  rw [same,mine]
  rcases resume_match matched sent with is | ⟨first,is⟩
  · refine .inl ⟨client',record_associated recorded (ready_cases ready).1,List.getElem?_set_self (List.getElem?_eq_some_iff.mp held).1,?_⟩
    rw [is]
    simp only [held,recorded]
  · rw [is]
    exact .inr ⟨first,rfl⟩

theorem own_retrying (sound : Sound s w) (retrying : Retrying s w i id loc) (event : Event) (taken : step s event w = some w')
    (own : attempt event = some id) : Retrying s w' i id loc := by
  have kept := step_kept sound event taken
  cases event with
  | land k => cases own
  | start k other loc' =>
      cases own
      simp only [step,retrying.used,if_true] at taken
      cases taken
  | serve other =>
      cases own
      simp only [step] at taken
      split at taken
      · rename_i task found
        split at taken
        · cases taken
          obtain ⟨mine,same,sent,_⟩ := retrying.waiting task found
          obtain ⟨b,_,stored,_⟩ := sound.uploads _ retrying.uploaded
          rw [stored_answer stored sent]
          exact wait_retrying retrying found sent (fun reply is => by
            cases is
            exact .inr ⟨b,rfl⟩)
        · cases taken
      · cases taken
  | refuse other =>
      cases own
      simp only [step] at taken
      split at taken
      · rename_i task found
        split at taken
        · cases taken
          exact wait_retrying retrying found (retrying.waiting task found).2.2.1 (fun reply is => by
            cases is
            exact .inl rfl)
        · cases taken
      · cases taken
  | drop other =>
      cases own
      simp only [step] at taken
      split at taken
      · rename_i task found
        cases taken
        have own : task.id = id := find_key found
        refine finish_retrying retrying kept (.inl rfl) (?_ : _ = (id,Ending.lost) :: w.results) ?_
        · rw [← own]
          rfl
        · rw [← own]
          exact finish_gone .lost w
      · cases taken
  | deliver other linkedAt =>
      cases own
      simp only [step] at taken
      split at taken
      · rename_i task found
        have own : task.id = id := find_key found
        have inside := find_mem found
        obtain ⟨mine,same,sent,replies⟩ := retrying.waiting task found
        split at taken
        · cases taken
        · cases taken
          exact finish_retrying retrying kept (.inl rfl) (by rw [← own]; rfl) (by rw [← own]; exact finish_gone .lost w)
        · rename_i reply unrefused replied
          cases taken
          rcases replies reply replied with rfl | ⟨b,rfl⟩
          · exact absurd rfl unrefused
          rcases found_goes sound retrying found replied linkedAt with ⟨client',associated,now,is⟩ | ⟨_,is⟩
          · rw [is] at kept ⊢
            exact finish_retrying retrying kept (.inr ⟨rfl,client',now,associated⟩) (by rw [← own]; rfl) (by rw [← own]; exact finish_gone .linked _)
          · rw [is]
            exact wait_retrying retrying found (by decide) (fun answer is => by cases is)
      · cases taken

theorem run_retrying (sound : Sound s w) (retrying : Retrying s w i id loc) (events : List Event) (ran : runAll (step s) events w = some w') :
    Sound s w' ∧ Retrying s w' i id loc :=
  run_invariant (fun w => Sound s w ∧ Retrying s w i id loc)
    (fun event w w' held taken => by
      refine ⟨(step_kept held.1 event taken).sound,?_⟩
      by_cases own : attempt event = some id
      · exact own_retrying held.1 held.2 event taken own
      · exact other_retrying held.2 (step_kept held.1 event taken) (step_other event taken own))
    events ⟨sound,retrying⟩ ran

theorem start_retrying (sound : Sound s w) (uploaded : (i,loc) ∈ w.uploads) (fresh : id ∉ w.used) :
    ∃ w', step s (.start i id loc) w = some w' ∧ Sound s w' ∧ Retrying s w' i id loc := by
  obtain ⟨b,client,_,_,held,ready⟩ := sound.uploads _ uploaded
  have taken : step s (.start i id loc) w = some {w with used := id :: w.used, tasks := w.tasks.upsert ⟨id,i,loc,.inspect,none⟩} := by
    simp only [step,if_neg fresh,held,show begin s client loc = some (.ok ()) from ready]
  refine ⟨_,taken,(step_kept sound _ taken).sound,uploaded,List.mem_cons_self,fun task found => ?_,fun ending inside => ?_,.inl ?_⟩
  · have is := (find_upsert_same w.tasks (⟨id,i,loc,.inspect,none⟩ : VaultLinking.Task)).symm.trans found
    cases is
    exact ⟨rfl,rfl,fun is => (by cases is),fun reply is => (by cases is)⟩
  · exact absurd (sound.usedResults (id,ending) inside) fresh
  · show ((w.tasks.upsert ⟨id,i,loc,.inspect,none⟩).find id).isSome = true
    rw [show (w.tasks.upsert ⟨id,i,loc,.inspect,none⟩).find id = _ from find_upsert_same w.tasks (⟨id,i,loc,.inspect,none⟩ : VaultLinking.Task)]
    rfl

theorem serve_goes (sound : Sound s w) (retrying : Retrying s w i id loc) (found : w.tasks.find id = some task) (waits : task.reply = none) :
    ∃ b w', step s (.serve id) w = some w' ∧ w'.tasks.find id = some {task with reply := some (.found b)} := by
  obtain ⟨b,_,stored,_⟩ := sound.uploads _ retrying.uploaded
  have own : task.id = id := find_key found
  have asked : answer s task w = (w,.found b) := stored_answer stored (retrying.waiting task found).2.2.1
  refine ⟨b,{w with tasks := w.tasks.upsert {task with reply := some (.found b)}},?_,?_⟩
  · simp only [step,found,waits,asked,if_true]
  · rw [← own]
    exact find_upsert_same w.tasks {task with reply := some (.found b)}

theorem deliver_goes (sound : Sound s w) (retrying : Retrying s w i id loc) (found : w.tasks.find id = some task)
    (replied : task.reply = some (.found b)) (linkedAt : String) : ∃ w', step s (.deliver id linkedAt) w = some w' ∧
      ((id,.linked) ∈ w'.results ∨ task.phase = .inspect ∧ w'.tasks.find id = some {task with phase := .recheck, reply := none}) := by
  have own : task.id = id := find_key found
  have taken : step s (.deliver id linkedAt) w = some (goOn s task (.found b) linkedAt w) := by
    simp only [step,found,replied]
  refine ⟨_,taken,?_⟩
  rcases found_goes sound retrying found replied linkedAt with ⟨client',_,_,is⟩ | ⟨first,is⟩
  · rw [is,← own]
    exact .inl List.mem_cons_self
  · rw [is,← own]
    exact .inr ⟨first,find_upsert_same w.tasks {task with phase := .recheck, reply := none}⟩

-- The attempt's next request answered: it ends linked or, if it had only inspected, asks again.
theorem answered_goes (sound : Sound s w) (retrying : Retrying s w i id loc) (found : w.tasks.find id = some task) (linkedAt : String)
    (heard : task.reply ≠ some .refused) : ∃ more w', (∀ event ∈ more, attempt event = some id) ∧ runAll (step s) more w = some w' ∧
      ((id,.linked) ∈ w'.results ∨ task.phase = .inspect ∧ w'.tasks.find id = some {task with phase := .recheck, reply := none}) := by
  cases replied : task.reply with
  | none =>
      obtain ⟨b,mid,served,now⟩ := serve_goes sound retrying found replied
      have once : runAll (step s) [.serve id] w = some mid := by
        simp only [runAll,served,Option.bind_some]
      obtain ⟨sound',retrying'⟩ := run_retrying sound retrying [.serve id] once
      obtain ⟨w',delivered,good⟩ := deliver_goes sound' retrying' now rfl linkedAt
      refine ⟨[.serve id,.deliver id linkedAt],w',fun event inside => ?_,?_,good⟩
      · rcases List.mem_cons.mp inside with rfl | inside
        · rfl
        · rw [List.mem_singleton.mp inside]
          rfl
      · simp only [runAll,served,delivered,Option.bind_some]
  | some reply =>
      rcases (retrying.waiting task found).2.2.2 reply replied with rfl | ⟨b,rfl⟩
      · exact absurd replied heard
      · obtain ⟨w',delivered,good⟩ := deliver_goes sound retrying found replied linkedAt
        refine ⟨[.deliver id linkedAt],w',fun event inside => ?_,?_,good⟩
        · rw [List.mem_singleton.mp inside]
          rfl
        · simp only [runAll,delivered,Option.bind_some]

theorem retry_finishes (sound : Sound s w) (retrying : Retrying s w i id loc) (found : w.tasks.find id = some task) (linkedAt : String)
    (heard : task.reply ≠ some .refused) : ∃ more w', (∀ event ∈ more, attempt event = some id) ∧ runAll (step s) more w = some w' ∧
      (id,.linked) ∈ w'.results := by
  obtain ⟨first,mid,mine,ran,good⟩ := answered_goes sound retrying found linkedAt heard
  rcases good with linked | ⟨_,again⟩
  · exact ⟨first,mid,mine,ran,linked⟩
  · obtain ⟨sound',retrying'⟩ := run_retrying sound retrying first ran
    obtain ⟨second,w',mine',ran',good⟩ := answered_goes sound' retrying' again linkedAt (fun is => by cases is)
    rcases good with linked | ⟨is,_⟩
    · refine ⟨first ++ second,w',fun event inside => ?_,run_then ran ran',linked⟩
      rcases List.mem_append.mp inside with old | new
      · exact mine event old
      · exact mine' event new
    · cases is

-- A client's link is the one it had until an attempt of its own records another.
theorem step_saved (event : Event) (taken : step s event w = some w') (unsaved : ∀ loc, (i,loc) ∉ w'.records) :
    w'.clients[i]? = w.clients[i]? ∧ ∀ loc, (i,loc) ∉ w.records := by
  have posted : ∀ k loc, (post s k loc w).1.clients = w.clients ∧ (post s k loc w).1.records = w.records := fun _ _ => ⟨rfl,rfl⟩
  cases event with
  | start k other loc =>
      simp only [step] at taken
      split at taken
      · cases taken
      · split at taken
        · cases taken
        · split at taken <;> cases taken <;> exact ⟨rfl,unsaved⟩
  | serve other =>
      simp only [step] at taken
      split at taken
      · rename_i task found
        split at taken
        · cases taken
          have aside : (answer s task w).1.clients = w.clients ∧ (answer s task w).1.records = w.records := by
            unfold answer
            split <;> exact ⟨rfl,rfl⟩
          refine ⟨congrArg (·[i]?) aside.1,fun loc inside => unsaved loc ?_⟩
          show (i,loc) ∈ (answer s task w).1.records
          rwa [aside.2]
        · cases taken
      · cases taken
  | refuse other =>
      simp only [step] at taken
      split at taken
      · split at taken <;> cases taken
        exact ⟨rfl,unsaved⟩
      · cases taken
  | deliver other linkedAt =>
      simp only [step] at taken
      split at taken
      · rename_i task found
        split at taken
        · cases taken
        · cases taken
          exact ⟨rfl,unsaved⟩
        · cases taken
          unfold goOn at unsaved ⊢
          split at unsaved
          · exact ⟨rfl,unsaved⟩
          · exact ⟨rfl,unsaved⟩
          · split at unsaved
            · exact ⟨rfl,unsaved⟩
            · rename_i client held
              split at unsaved
              · exact ⟨rfl,unsaved⟩
              · have other : task.client ≠ i := fun same => unsaved task.loc (same ▸ List.mem_cons_self)
                exact ⟨List.getElem?_set_ne other,fun loc inside => unsaved loc (List.mem_cons_of_mem _ inside)⟩
      · cases taken
  | drop other =>
      simp only [step] at taken
      split at taken <;> cases taken
      exact ⟨rfl,unsaved⟩
  | land k =>
      simp only [step] at taken
      split at taken <;> cases taken
      exact ⟨rfl,unsaved⟩

theorem run_saved {clients : List Client} {vaults : Vaults} (events : List Event) (ran : runAll (step s) events (.begin vaults clients) = some w)
    (unsaved : ∀ loc, (i,loc) ∉ w.records) : w.clients[i]? = clients[i]? :=
  run_invariant (fun w => (∀ loc, (i,loc) ∉ w.records) → w.clients[i]? = clients[i]?)
    (fun event _ _ before taken unsaved => by
      obtain ⟨same,unsaved'⟩ := step_saved event taken unsaved
      exact same.trans (before unsaved')) events (fun _ => rfl) ran unsaved

-- A retry that was started when an upload of its client had been stored.
structure Retried (s : Setting) (w : World) (i id : Nat) : Prop where
  ended : ∀ ending, (id,ending) ∈ w.results → ending = .lost ∨ ending = .linked ∧ LinkedNow s w i
  there : (∃ task, w.tasks.find id = some task) ∨ ∃ ending, (id,ending) ∈ w.results
  finishes : ∀ task, w.tasks.find id = some task → task.reply = some .refused ∨ ∃ more w', (∀ event ∈ more, attempt event = some id) ∧
    runAll (step s) more w = some w' ∧ (id,.linked) ∈ w'.results ∧ LinkedNow s w' i

structure LinkedSafely (s : Setting) (clients : List Client) (w : World) : Prop where
  written : w.written ≤ 1
  unchanged : ∀ row events, ∀ after ∈ runAll (step s) events w, w.vaults.find s.account = some row → after.vaults.find s.account = some row
  truthful : ∀ record ∈ w.records, ∃ b, Stored s w b ∧ Matches s record.2 b
  saved : ∀ i : Nat, (∀ loc, (i,loc) ∉ w.records) → w.clients[i]? = clients[i]?
  others : ∀ (i : Nat) client events, ∀ after ∈ runAll (step s) events w, w.clients[i]? = some client → Foreign s client → after.clients[i]? = some client
  retries : ∀ i loc id, (i,loc) ∈ w.uploads → id ∉ w.used →
    ∃ started, step s (.start i id loc) w = some started ∧ ∀ events, ∀ after ∈ runAll (step s) events started, Retried s after i id

theorem run_linked_safely (vaults : Vaults) (clients : List Client) (events : List Event) (ran : runAll (step s) events (.begin vaults clients) = some w) :
    LinkedSafely s clients w := by
  have sound : Sound s w := (run_kept (begin_sound vaults clients) events ran).sound
  refine ⟨?_,fun row events after more => (run_kept sound events more).row row,sound.records,fun i => run_saved events ran,
    fun i client events after more => (run_kept sound events more).foreign i client,fun i loc id uploaded fresh => ?_⟩
  · rcases sound.written with zero | ⟨one,_⟩ <;> omega
  · obtain ⟨started,taken,sound',retrying⟩ := start_retrying sound uploaded fresh
    refine ⟨started,taken,fun events after more => ?_⟩
    obtain ⟨sound'',retrying'⟩ := run_retrying sound' retrying events more
    refine ⟨retrying'.ended,retrying'.there.imp_left Option.isSome_iff_exists.mp,fun task found => ?_⟩
    by_cases refused : task.reply = some .refused
    · exact .inl refused
    · obtain ⟨rest,w',mine,ran',linked⟩ := retry_finishes sound'' retrying' found "" refused
      obtain ⟨_,retrying''⟩ := run_retrying sound'' retrying' rest ran'
      refine .inr ⟨rest,w',mine,ran',linked,?_⟩
      rcases retrying''.ended .linked linked with is | ⟨_,now⟩
      · cases is
      · exact now

-- A vault, the texts it is stored in and a server it is linked to; what does not
-- occur here is numbered.
def zeroSalt : List UInt8 := List.replicate 12 0
def zeroNonce : List UInt8 := List.replicate 24 0
def zeroText : List UInt8 := List.replicate 48 0

def numberOf (bytes : List UInt8) : Nat := Encodable.encode (bytes.map UInt8.toNat)
def bytesOf (n : Nat) : Option (List UInt8) := (Encodable.decode n : Option (List Nat)).map (fun numbers => numbers.map UInt8.ofNat)

theorem bytes_number (bytes : List UInt8) : bytesOf (numberOf bytes) = some bytes := by
  simp [bytesOf,numberOf,Function.comp_def]

def encodeKnown (bytes : List UInt8) : String :=
  if bytes = zeroSalt then zeros12
  else if bytes = zeroNonce then zeros24
  else if bytes = zeroText then zeros48
  else String.ofList (List.replicate (numberOf bytes) '#')

def decodeText (text : String) : Option (List UInt8) :=
  if text = zeros12 then some zeroSalt
  else if text = zeros24 then some zeroNonce
  else if text = zeros48 then some zeroText
  else match bytesOf text.length with
  | none => none
  | some bytes => if encodeKnown bytes = text then some bytes else none

theorem spare_apart {n : Nat} {text : String} (unlike : '#' ≠ text.toList.headD '#') : String.ofList (List.replicate n '#') ≠ text := by
  intro same
  have letters := congrArg String.toList same
  rw [String.toList_ofList] at letters
  rw [← letters] at unlike
  cases n <;> exact unlike rfl

theorem encode_decode (bytes : List UInt8) : decodeText (encodeKnown bytes) = some bytes := by
  unfold encodeKnown
  split
  · rename_i is
    rw [is]
    decide
  · rename_i one
    split
    · rename_i is
      rw [is]
      decide
    · rename_i two
      split
      · rename_i is
        rw [is]
        decide
      · rename_i three
        rw [decodeText,if_neg (spare_apart (by decide)),if_neg (spare_apart (by decide)),if_neg (spare_apart (by decide))]
        have length : (String.ofList (List.replicate (numberOf bytes) '#')).length = numberOf bytes := by
          rw [← String.length_toList,String.toList_ofList,List.length_replicate]
        rw [length,bytes_number]
        simp only [encodeKnown,if_neg one,if_neg two,if_neg three,if_true]

theorem decode_encode {text : String} {bytes : List UInt8} (decoded : decodeText text = some bytes) : encodeKnown bytes = text := by
  unfold decodeText at decoded
  split at decoded
  · rename_i is
    cases decoded
    rw [is]
    decide
  · split at decoded
    · rename_i is
      cases decoded
      rw [is]
      decide
    · split at decoded
      · rename_i is
        cases decoded
        rw [is]
        decide
      · split at decoded
        · cases decoded
        · split at decoded
          · rename_i is
            cases decoded
            exact is
          · cases decoded

def lettersOf (text : String) : List Nat := text.toList.map Char.toNat
def textOf (numbers : List Nat) : String := String.ofList (numbers.map Char.ofNat)

theorem text_letters (text : String) : textOf (lettersOf text) = text := by
  simp [textOf,lettersOf,Function.comp_def]

def numberKey (key : WrappedVaultKey) : Nat := Encodable.encode [lettersOf key.cipherSuite,lettersOf key.nonce,lettersOf key.ciphertext]

def keyOfNumber (n : Nat) : Option WrappedVaultKey :=
  match (Encodable.decode n : Option (List (List Nat))) with
  | some [suite,nonce,ciphertext] => some ⟨textOf suite,textOf nonce,textOf ciphertext⟩
  | _ => none

def zeroKeyJson : List UInt8 := asBytes "\x7b\"cipher_suite\":\"xchacha20poly1305\",\"nonce\":\"" ++ asBytes zeros24 ++ asBytes "\",\"ciphertext\":\"" ++
  asBytes zeros48 ++ asBytes "\"\x7d"

def writeKey (key : WrappedVaultKey) : List UInt8 := if key = zeroKey then zeroKeyJson else List.replicate (numberKey key) 0
def readKey (bytes : List UInt8) : Option WrappedVaultKey := if bytes = zeroKeyJson then some zeroKey else keyOfNumber bytes.length

theorem write_read_key (key : WrappedVaultKey) : readKey (writeKey key) = some key := by
  unfold writeKey
  split
  · rename_i is
    rw [is,readKey,if_pos rfl]
  · have unlike : List.replicate (numberKey key) 0 ≠ zeroKeyJson := by
      intro same
      have first : (List.replicate (numberKey key) (0 : UInt8)).headD 0 = zeroKeyJson.headD 0 := congrArg (List.headD · 0) same
      have zero : (List.replicate (numberKey key) (0 : UInt8)).headD 0 = 0 := by
        cases numberKey key <;> rfl
      rw [zero] at first
      revert first
      decide
    rw [readKey,if_neg unlike,List.length_replicate,keyOfNumber,numberKey,Encodable.encodek]
    simp only [text_letters]

def kdfJson (params : StoredKdfParams) : String :=
  "\x7b\"memory_kib\":" ++ toString params.memoryKib.toNat ++ ",\"iterations\":" ++ toString params.iterations.toNat ++ ",\"parallelism\":" ++
    toString params.parallelism.toNat ++ "\x7d"

def zeroParams : StoredKdfParams := ⟨65536,3,1⟩

def numberParams (params : StoredKdfParams) : Nat := Encodable.encode [params.memoryKib.toNat,params.iterations.toNat,params.parallelism.toNat]

def paramsOfNumber (n : Nat) : Option StoredKdfParams :=
  match (Encodable.decode n : Option (List Nat)) with
  | some [memoryKib,iterations,parallelism] => some ⟨UInt32.ofNat memoryKib,UInt32.ofNat iterations,UInt32.ofNat parallelism⟩
  | _ => none

def writeParams (params : StoredKdfParams) : String :=
  if params = zeroParams then kdfJson zeroParams else String.ofList (List.replicate (numberParams params) '#')
def readParams (text : String) : Option StoredKdfParams := if text = kdfJson zeroParams then some zeroParams else paramsOfNumber text.length

theorem write_read_params (params : StoredKdfParams) : readParams (writeParams params) = some params := by
  unfold writeParams
  split
  · rename_i is
    rw [is,readParams,if_pos rfl]
  · have length : (String.ofList (List.replicate (numberParams params) '#')).length = numberParams params := by
      rw [← String.length_toList,String.toList_ofList,List.length_replicate]
    rw [readParams,if_neg (spare_apart (by decide)),length,paramsOfNumber,numberParams,Encodable.encodek]
    simp

def sampleOrigin : String := "https://notes.example"

theorem sample_origin {α : Type} {value other : α} {text : String}
    (read : (if text = sampleOrigin then Except.ok value else .error "invalid URL") = .ok other) : other = value := by
  split at read
  · cases read
    rfl
  · cases read

-- Both parsers at the one address that is used.
def sampleUrls : UrlParsers where
  newUrl := fun text => if text = sampleOrigin then .ok ⟨"https:","","","","","/",sampleOrigin⟩ else .error "invalid URL"
  parse := fun text => if text = sampleOrigin then .ok ⟨"https","",none,some "notes.example","/",none,none,sampleOrigin⟩ else .error "invalid URL"
  webOrigin := by
    intro text url read _
    rw [sample_origin read]
    exact ⟨⟨"notes.example",rfl,by decide⟩,if_pos rfl⟩
  urlOrigin := by
    intro text url read _
    rw [sample_origin read]
    exact ⟨⟨"notes.example",rfl,by decide⟩,if_pos rfl⟩

def sampleSetting : Setting where
  crates :=
    { decode := decodeText
      canonical := fun _ _ _ one two => (decode_encode one).symm.trans (decode_encode two)
      blake2s := fun bytes => (bytes.reverse ++ List.replicate 32 0).take 32
      encode := encodeKnown
      encoded := encode_decode
      kdfToString := writeParams
      kdfFromStr := readParams
      kdfRead := write_read_params
      keyToVec := writeKey
      keyFromSlice := readKey
      keyRead := write_read_key
      digest := fun bytes => by simp }
  urls := sampleUrls
  account := "6f9619ff-8b86-d011-b42d-00c04fc964ff"
  accountSpelled := by decide

def sampleClients : List Client := [.web "https://notes.example" .absent,.native "https://notes.example" .absent]

def sampleData : VaultBootstrapData := ⟨wrapperJson zeroKey,⟨some "argon2id",zeros12,some 65536,none,3,1⟩,wrapperJson zeroKey⟩

-- The web client's upload is stored and its answer lost; the native client with the
-- same vault links while the web client tries again.
def lostUpload : List Event :=
  [.start 0 0 (.web sampleData),.serve 0,.deliver 0 "now",.start 1 1 (.native oldVault),.serve 1,.serve 0,.drop 0,.deliver 1 "now",.serve 1,.deliver 1 "now",
    .start 1 2 (.native oldVault),.start 0 3 (.web sampleData),.serve 3,.serve 2,.deliver 3 "now",.deliver 2 "now",.serve 2,.deliver 2 "now"]

theorem lost_upload_linked : (runAll (step sampleSetting) lostUpload (.begin .empty sampleClients)).isSome = true ∧
    ∀ w ∈ runAll (step sampleSetting) lostUpload (.begin .empty sampleClients), LinkedSafely sampleSetting sampleClients w :=
  ⟨by decide +kernel,fun _ ran => run_linked_safely .empty sampleClients lostUpload ran⟩

end ZkNote.LinkSafety
