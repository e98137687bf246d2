import ZkNote.MergeBases

namespace ZkNote.ConflictReports
open Protocol Adapter KeyedTable LocalStorage MutationQueue Conflict PushChanges

variable {World Key Note : Type} {s t : Storage} {record : ConflictRecord}

-- One push as it went over the wire.
structure Wire where
  request : PushRequest
  reply : Reply PushResponse

-- `NativeHttpSyncAdapter::push_mutation` over any transport, with a log of its
-- exchanges. A push cycle never pulls.
def overWire (transport : PushRequest → World → Reply PushResponse × World) : SyncServerAdapter (World × List Wire) where
  pushMutation request w :=
    let (reply,next) := transport request w.1
    (handleResponse reply,(next,w.2 ++ [⟨request,reply⟩]))
  pullChanges _ _ w := (.error (.connectionFailed ""),w)

-- A body that is a revision conflict's report on the object.
def reports (body : Body PushResponse) (objectId : String) : Bool :=
  body.conflict.any (fun c => c.error == errorRevisionConflict && c.objectId == objectId)

-- A 409 is a replay mismatch or reports the conflict of the pushed object.
def Wire.Honest (wire : Wire) : Prop :=
  match wire.reply with
  | .response 409 body => body.errorJson.bind (·.code) = some errorMutationReplayMismatch ∨ reports body wire.request.objectId = true
  | _ => True

instance (wire : Wire) : Decidable wire.Honest := by
  unfold Wire.Honest
  split <;> infer_instance

-- The answer's body is a report, and the answer is what it reports.
def Wire.Answers (wire : Wire) (c : ConflictResponse) : Prop :=
  ∃ body, wire.reply = .response 409 body ∧ body.conflict = some c ∧ c.error = errorRevisionConflict ∧ c.objectId = wire.request.objectId

def Wire.Reported (wire : Wire) : Prop := ∀ c, handleResponse wire.reply = .error (.conflict c) → wire.Answers c

structure Carries (record : ConflictRecord) (objectId : String) (c : ConflictResponse) : Prop where
  object : record.objectId = objectId
  revision : record.remoteRevision = c.currentRevision
  deleted : record.remoteIsDeleted = c.isDeleted
  envelope : record.remoteEnvelope = c.currentEnvelope

-- Only a 409 is read as a conflict, and the reader falls back to an empty one.
theorem conflict_answer {reply : Reply PushResponse} {c : ConflictResponse} (answered : handleResponse reply = .error (.conflict c)) :
    ∃ body, reply = .response 409 body ∧ body.errorJson.bind (·.code) ≠ some errorMutationReplayMismatch ∧
      c = body.conflict.getD unreadableConflict := by
  cases reply with
  | dropped message => simp [handleResponse] at answered
  | response status body =>
      by_cases is : status = 409
      · subst is
        by_cases replayed : body.errorJson.bind (·.code) = some errorMutationReplayMismatch
        · simp [handleResponse,replayed] at answered
        · simp only [handleResponse,replayed] at answered
          exact ⟨body,rfl,replayed,by simpa using answered.symm⟩
      · simp only [handleResponse,is,if_false] at answered
        repeat' split at answered
        all_goals simp at answered

theorem answer_conflict {body : Body PushResponse} (fresh : body.errorJson.bind (·.code) ≠ some errorMutationReplayMismatch) :
    handleResponse (.response 409 body) = .error (.conflict (body.conflict.getD unreadableConflict)) := by
  simp [handleResponse,fresh]

theorem reported_iff (wire : Wire) : wire.Reported ↔ wire.Honest := by
  constructor
  · intro reported
    unfold Wire.Honest
    split
    · rename_i body reply
      by_cases replayed : body.errorJson.bind (·.code) = some errorMutationReplayMismatch
      · exact .inl replayed
      · have answered := (congrArg handleResponse reply).trans (answer_conflict replayed)
        generalize body.conflict.getD unreadableConflict = c at answered
        obtain ⟨same,is,held,code,object⟩ := reported c answered
        cases reply.symm.trans is
        exact .inr (by simp [reports,held,code,object])
    · trivial
  · intro honest c answered
    obtain ⟨body,reply,fresh,is⟩ := conflict_answer answered
    simp only [Wire.Honest,reply,fresh,false_or] at honest
    cases held : body.conflict with
    | none => simp [reports,held] at honest
    | some report =>
        simp only [reports,held,Option.any_some,Bool.and_eq_true,beq_iff_eq] at honest
        rw [held,Option.getD_some] at is
        exact ⟨body,reply,is ▸ held,is ▸ honest.1,is ▸ honest.2⟩

theorem mark_conflicts {status : MutationStatus} {retries : UInt32 → UInt32} {mutationId : String}
    (done : mark status retries s mutationId = .ok t) : t.conflicts = s.conflicts := by
  cases found : s.getMutation mutationId with
  | none => simp [mark,found] at done
  | some row =>
      rw [PushSteps.mark_row found] at done
      cases done
      rfl

theorem kept_conflicts {status : MutationStatus} {retries : UInt32 → UInt32} (s : Storage) (mutationId : String) :
    (orKeep s (mark status retries s mutationId)).conflicts = s.conflicts := by
  unfold orKeep
  split
  · rename_i done
    exact mark_conflicts done
  · rfl

theorem cleared_conflicts (s : Storage) (objectId : String) : (removeForObject s objectId).conflicts = s.conflicts := by
  rw [MergeBases.removed_frame]

theorem enqueued_conflicts {m : PendingMutation} (done : s.enqueueMutation m = .ok t) : t.conflicts = s.conflicts := by
  rw [(enqueue_cases done).2]

theorem recorded_carries {codec : NoteCodec Key Note} {vaultKey : Option Key} {tick : Tick} {item : PushItemConflict}
    (done : recordConflict codec vaultKey tick s item = .ok (record,t)) : Carries record item.mutation.objectId item.conflict := by
  unfold recordConflict at done
  simp only at done
  split at done
  · cases done
  · cases done
    exact ⟨rfl,rfl,rfl,rfl⟩

-- The records where at most one was added, for the conflict that was answered.
def Added (s t : Storage) (objectId : String) (c : ConflictResponse) : Prop :=
  t.conflicts = s.conflicts ∨ ∃ record, t.conflicts = s.conflicts.upsert record ∧ Carries record objectId c

theorem guarded_added (codec : NoteCodec Key Note) (vaultKey : Option Key) (tick : Tick) (s : Storage) (mutation : PendingMutation)
    (c : ConflictResponse) (alive : ¬(c.isDeleted ∨ mutation.mutationType = .delete)) :
    Added s (evaluateGuardedLww codec vaultKey tick s mutation c).2 mutation.objectId c := by
  have flag : c.isDeleted = false := by simpa using fun gone => alive (.inl gone)
  have written : ∀ {u : Storage} (base winner), u.conflicts = s.conflicts →
      Added s (u.putConflict (resolvedRecord tick mutation c base winner)) mutation.objectId c := by
    intro u base winner same
    exact .inr ⟨_,congrArg (Table.upsert · _) same,⟨rfl,rfl,flag.symm,rfl⟩⟩
  unfold evaluateGuardedLww
  rw [if_neg alive]
  dsimp only
  split
  · split
    · exact .inl (cleared_conflicts _ _)
    · rename_i queued
      exact written _ _ ((enqueued_conflicts queued).trans (cleared_conflicts _ _))
  · refine written _ _ ?_
    exact cleared_conflicts _ _

-- A turn of the push loop writes a record only for a conflict, and from its report.
theorem settle_added (codec : NoteCodec Key Note) (options : PushOptions Key) (tick : Tick) (mutation : PendingMutation) (s : Storage)
    (report : PushReport) (answer : Except SyncNetworkError PushResponse) :
    (settlePush codec options tick mutation s report answer).1.conflicts = s.conflicts ∨
    ∃ c, answer = .error (.conflict c) ∧ Added s (settlePush codec options tick mutation s report answer).1 mutation.objectId c := by
  unfold settlePush
  split
  · cases found : s.getMutation mutation.mutationId with
    | none =>
        simp only [acknowledgeAccepted,found]
        exact .inl trivial
    | some row =>
        simp only [acknowledgeAccepted,found]
        exact .inl rfl
  · rename_i c
    refine .inr ⟨c,rfl,?_⟩
    split
    · rename_i guarded
      have added := guarded_added codec options.vaultKey tick s mutation c guarded.2
      split <;> rename_i out <;> rw [out] at added <;> exact added
    · dsimp only
      split
      · exact .inl (kept_conflicts s mutation.mutationId)
      · rename_i written _ recorded
        have carries := recorded_carries recorded
        rw [(PushSteps.record_conflict_cases recorded).1]
        exact .inr ⟨written,congrArg (Table.upsert · _) (kept_conflicts s mutation.mutationId),carries⟩
  · split
    · exact .inl (kept_conflicts s mutation.mutationId)
    · exact .inl (kept_conflicts s mutation.mutationId)

theorem settle_records (codec : NoteCodec Key Note) (options : PushOptions Key) (tick : Tick) (mutation : PendingMutation)
    (report : PushReport) (answer : Except SyncNetworkError PushResponse)
    (inside : record ∈ (settlePush codec options tick mutation s report answer).1.conflicts.rows) :
    record ∈ s.conflicts.rows ∨ ∃ c, answer = .error (.conflict c) ∧ Carries record mutation.objectId c := by
  rcases settle_added codec options tick mutation s report answer with same | ⟨c,answered,same | ⟨written,put,carries⟩⟩
  · exact .inl (same ▸ inside)
  · exact .inl (same ▸ inside)
  · rw [put] at inside
    rcases mem_upsert.mp inside with rfl | ⟨old,_⟩
    · exact .inr ⟨c,answered,carries⟩
    · exact .inl old

theorem push_loop_keeps {adapter : SyncServerAdapter World} {codec : NoteCodec Key Note} {options : PushOptions Key} {ticks : Nat → Tick}
    (Inv : World → Storage → Prop)
    (turn : ∀ tick mutation w s report, Inv w s →
      Inv (attempt adapter codec options tick mutation w s report).1 (attempt adapter codec options tick mutation w s report).2.1)
    (list : List PendingMutation) {w w' : World} {report : PushReport} (start : Inv w s)
    (ran : pushLoop adapter codec options ticks list w s report = (w',t,result)) : Inv w' t := by
  induction list generalizing w s report with
  | nil =>
      cases ran
      exact start
  | cons mutation rest ih =>
      have next := turn (ticks report.totalAttempted) mutation w s report start
      unfold pushLoop at ran
      split at ran
      · cases ran
        exact start
      · split at ran
        · split at ran
          · rename_i attempted
            rw [attempted] at next
            exact ih next ran
          · rename_i attempted
            rw [attempted] at next
            cases ran
            exact next
          · rename_i attempted
            rw [attempted] at next
            cases ran
            exact next
        · exact ih start ran

def Accounted (s : Storage) (w : World × List Wire) (t : Storage) : Prop :=
  ∀ record ∈ t.conflicts.rows, record ∈ s.conflicts.rows ∨
    ∃ wire ∈ w.2, ∃ c, handleResponse wire.reply = .error (.conflict c) ∧ Carries record wire.request.objectId c

theorem attempt_accounted (transport : PushRequest → World → Reply PushResponse × World) (codec : NoteCodec Key Note)
    (options : PushOptions Key) (tick : Tick) (mutation : PendingMutation) (w : World × List Wire) (report : PushReport)
    (held : Accounted s w t) :
    Accounted s (attempt (overWire transport) codec options tick mutation w t report).1
      (attempt (overWire transport) codec options tick mutation w t report).2.1 := by
  unfold attempt
  dsimp only
  split
  · exact held
  · rename_i flying marked
    intro record inside
    have logged : (⟨requestOf mutation,(transport (requestOf mutation) w.1).1⟩ : Wire) ∈
        w.2 ++ [⟨requestOf mutation,(transport (requestOf mutation) w.1).1⟩] := by simp
    rcases settle_records codec options tick mutation _ _ inside with old | ⟨c,answered,carries⟩
    · rw [mark_conflicts marked] at old
      exact (held record old).imp_right (fun ⟨wire,sent,more⟩ => ⟨wire,List.mem_append_left _ sent,more⟩)
    · exact .inr ⟨_,logged,c,answered,carries⟩

-- Whatever the other end answers: a push reports only conflicts it was told of and
-- stores them as it was told, exactly if every 409 is one that says so.
theorem conflicts_reported_iff (transport : PushRequest → World → Reply PushResponse × World) (codec : NoteCodec Key Note)
    (options : PushOptions Key) (ticks : Nat → Tick) (w : World) (s : Storage) :
    let ran := pushPendingChanges (overWire transport) codec options ticks (w,[]) s
    ((∀ wire ∈ ran.1.2, wire.Reported) ∧
      ∀ record ∈ ran.2.1.conflicts.rows, record ∈ s.conflicts.rows ∨
        ∃ wire ∈ ran.1.2, ∃ c, wire.Answers c ∧ Carries record wire.request.objectId c) ↔
    ∀ wire ∈ ran.1.2, wire.Honest := by
  intro ran
  constructor
  · rintro ⟨reported,_⟩ wire sent
    exact (reported_iff wire).mp (reported wire sent)
  · intro honest
    have reported : ∀ wire ∈ ran.1.2, wire.Reported := fun wire sent => (reported_iff wire).mpr (honest wire sent)
    have accounted : Accounted s ran.1 ran.2.1 := by
      refine push_loop_keeps (fun w t => Accounted s w t) ?_ s.listPendingMutations (fun record inside => .inl inside) (Prod.mk.eta).symm
      intro tick mutation w t report held
      exact attempt_accounted transport codec options tick mutation w report held
    refine ⟨reported,fun record inside => (accounted record inside).imp_right ?_⟩
    rintro ⟨wire,sent,c,answered,carries⟩
    exact ⟨wire,sent,c,reported wire sent c answered,carries⟩

-- A gateway answers with a page of its own.
def proxyPage : Reply PushResponse := .response 409 ⟨.error "expected value at line 1 column 1",none,none,"<html>Conflict</html>"⟩

def oneQueued : Storage := (Storage.new.enqueueMutation (queued change1 firstNote 1 .pending "BBBB" "2026-01-01T00:00:00Z")).toOption.getD .new

def atNoon : Nat → Tick := fun _ => ⟨"2026-01-01T12:00:00Z",change2,change3,0⟩

theorem proxy_page_recorded :
    let ran := pushPendingChanges (overWire (fun _ (w : Unit) => (proxyPage,w))) .standIn .default atNoon ((),[]) oneQueued
    ran.2.1.conflicts.rows.map (fun r => (r.objectId,r.remoteRevision,r.remoteEnvelope.payload.ciphertext,r.resolved)) =
      [(firstNote,0,"",false)] ∧
    ¬∀ wire ∈ ran.1.2, wire.Reported := by
  refine ⟨by decide +kernel,fun reported => ?_⟩
  have dishonest : ¬∀ wire ∈ (pushPendingChanges (overWire (fun _ (w : Unit) => (proxyPage,w))) .standIn .default atNoon ((),[]) oneQueued).1.2,
      wire.Honest := by decide +kernel
  exact dishonest (fun wire sent => (reported_iff wire).mp (reported wire sent))

end ZkNote.ConflictReports
