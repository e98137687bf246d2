import ZkNote.BaseVersions

namespace ZkNote.GuardedPolicy
open Protocol Adapter KeyedTable LocalStorage MutationQueue Conflict PushChanges PushSteps BaseVersions Runs

variable {World Key Note File : Type} {s t : Storage} {options : PushOptions Key} {tick : Tick} {mutation m : PendingMutation}
  {rest : List PendingMutation} {conflict : ConflictResponse} {envelope : EncryptedEnvelope}

-- A turn of the push loop that the guarded policy handles: the rest of the snapshot
-- is still to come, and `Uuid::new_v4` gives ids nobody holds yet.
structure Faced (options : PushOptions Key) (tick : Tick) (s : Storage) (mutation : PendingMutation) (rest : List PendingMutation)
    (conflict : ConflictResponse) : Prop where
  policy : options.conflictPolicy = .guardedLww
  alive : ¬(conflict.isDeleted ∨ mutation.mutationType = .delete)
  listed : Listed (mutation :: rest) s
  retryFresh : s.getMutation tick.retryId = none
  recordFresh : s.conflicts.find tick.conflictId = none

section
variable (codec : NoteCodec Key Note) (options : PushOptions Key) (tick : Tick) (s : Storage) (mutation : PendingMutation) (conflict : ConflictResponse)

def handled : Storage := pushOne codec options tick mutation (.error (.conflict conflict)) s

def wins : Bool := localWins codec options.vaultKey s mutation conflict

def winner : EncryptedEnvelope := if wins codec options s mutation conflict then mutation.envelope else conflict.currentEnvelope

def loser : EncryptedEnvelope := if wins codec options s mutation conflict then conflict.currentEnvelope else mutation.envelope

-- The revision under which the policy archives the loser.
def archivedAt : Nat := if wins codec options s mutation conflict then conflict.currentRevision else mutation.expectedRevision

end

def envelopes (r : ConflictRecord) : List EncryptedEnvelope :=
  [r.localEnvelope,r.remoteEnvelope] ++ r.baseEnvelope.toList ++ r.candidateEnvelope.toList

-- An envelope that the base store or a conflict record still holds.
inductive Retrievable (s : Storage) (objectId : String) (envelope : EncryptedEnvelope) : Prop where
  | base (held : s.getBaseVersion objectId revision = some envelope)
  | record (held : r ∈ s.conflicts.rows) (object : r.objectId = objectId) (inside : envelope ∈ envelopes r)

def BaseKept (s t : Storage) (mutation : PendingMutation) : Prop :=
  ∀ base, s.getBaseVersion mutation.objectId mutation.expectedRevision = some base →
    t.getBaseVersion mutation.objectId mutation.expectedRevision = some base

def OthersKept (s t : Storage) (mutation : PendingMutation) : Prop :=
  ∀ m ∈ s.mutations.rows, m.objectId = mutation.objectId → m.mutationId ≠ mutation.mutationId →
    m ∈ t.mutations.rows ∨ Retrievable t mutation.objectId m.envelope

-- An acknowledgement that finds the archived version leaves it there.
def Spares (codec : NoteCodec Key Note) (objectId : String) (revision : Nat) (envelope : EncryptedEnvelope) :
    Event World Key Note File → Storage → Prop
  | .push options tick m (.ok resp),u =>
    u.getBaseVersion objectId revision = some envelope →
      (pushOne codec options tick m (.ok resp) u).getBaseVersion objectId revision = some envelope
  | _,_ => True

-- The loop goes on, and finds every mutation that its snapshot still lists.
def GoesOn (codec : NoteCodec Key Note) (options : PushOptions Key) (tick : Tick) (s : Storage) (mutation : PendingMutation)
    (rest : List PendingMutation) (conflict : ConflictResponse) : Prop :=
  (settlePush codec options tick mutation (orKeep s (markInFlight s mutation.mutationId)) .default (.error (.conflict conflict))).2.2 = .next ∧
  ∀ m ∈ rest, ready m = true → ∃ u, markInFlight (handled codec options tick s mutation conflict) m.mutationId = .ok u

theorem mem_removed (s : Storage) (objectId : String) :
    m ∈ (removeForObject s objectId).mutations.rows ↔ m ∈ s.mutations.rows ∧ m.objectId ≠ objectId := by
  refine ⟨MergeBases.removed_rows,fun ⟨inside,other⟩ => (MergeBases.removed_all_iff _ s).mpr ⟨inside,fun n listed same => other ?_⟩⟩
  obtain ⟨held,own⟩ := List.mem_filter.mp ((List.perm_insertionSort _ _).mem_iff.mp listed)
  have is : m = n := Option.some.inj ((mem_find inside same).symm.trans (mem_iff_find.mp held))
  rw [is]
  simpa using own

theorem removed_unqueued {mutationId objectId : String} (unused : s.getMutation mutationId = none) :
    (removeForObject s objectId).getMutation mutationId = none := by
  refine find_none_iff.mpr (fun held => ?_)
  obtain ⟨m,inside,own⟩ := List.mem_map.mp held
  exact absurd (List.mem_map.mpr ⟨m,((mem_removed s objectId).mp inside).1,own⟩) (find_none_iff.mp unused)

-- What the policy leaves, in one archived version, the object's queue and one record.
structure Left (s t : Storage) (tick : Tick) (mutation : PendingMutation) (conflict : ConflictResponse) (mine : Bool) : Prop where
  bases : t.baseVersions = s.baseVersions.upsert
    (if mine then ⟨mutation.objectId,conflict.currentRevision,conflict.currentEnvelope⟩
      else ⟨mutation.objectId,mutation.expectedRevision,mutation.envelope⟩)
  queue : ∀ m, m ∈ t.mutations.rows ↔ m ∈ s.mutations.rows ∧ m.objectId ≠ mutation.objectId ∨ mine = true ∧
    m = ⟨tick.retryId,mutation.objectId,conflict.currentRevision,mutation.objectKind,.upsert,mutation.envelope,tick.now,0,.pending⟩
  records : t.conflicts = s.conflicts.upsert (resolvedRecord tick mutation conflict
    (s.getBaseVersion mutation.objectId mutation.expectedRevision) (if mine then mutation.envelope else conflict.currentEnvelope))

theorem evaluate_left (codec : NoteCodec Key Note) (vaultKey : Option Key) (alive : ¬(conflict.isDeleted ∨ mutation.mutationType = .delete))
    (fresh : s.getMutation tick.retryId = none) :
    ∃ outcome t, evaluateGuardedLww codec vaultKey tick s mutation conflict = (.ok outcome,t) ∧
      Left s t tick mutation conflict (localWins codec vaultKey s mutation conflict) := by
  unfold evaluateGuardedLww
  rw [if_neg alive]
  dsimp only
  cases mine : localWins codec vaultKey s mutation conflict with
  | true =>
      rw [if_pos rfl]
      let written := (s.putBaseVersion mutation.objectId conflict.currentRevision conflict.currentEnvelope).putObject
        ⟨mutation.objectId,mutation.objectKind,conflict.currentRevision,0,false,mutation.envelope,tick.now⟩
      let retry : PendingMutation :=
        ⟨tick.retryId,mutation.objectId,conflict.currentRevision,mutation.objectKind,.upsert,mutation.envelope,tick.now,0,.pending⟩
      have unused : (removeForObject written mutation.objectId).mutations.find retry.mutationId = none := removed_unqueued (s := written) fresh
      have queued : (removeForObject written mutation.objectId).enqueueMutation retry =
          .ok {removeForObject written mutation.objectId with mutations := (removeForObject written mutation.objectId).mutations.upsert retry} := by
        rw [Storage.enqueueMutation,insert_fresh unused]
      rw [queued]
      refine ⟨_,_,rfl,?_,fun m => ?_,?_⟩
      · show (removeForObject written mutation.objectId).baseVersions = _
        rw [MergeBases.removed_frame]
        rfl
      · refine (mem_upsert (t := (removeForObject written mutation.objectId).mutations)).trans ?_
        rw [mem_removed]
        constructor
        · rintro (rfl | ⟨kept,_⟩)
          · exact .inr ⟨rfl,rfl⟩
          · exact .inl kept
        · rintro (⟨inside,other⟩ | ⟨_,rfl⟩)
          · exact .inr ⟨⟨inside,other⟩,fun same => find_none_iff.mp fresh
              ((show m.mutationId = tick.retryId from same) ▸ List.mem_map_of_mem inside)⟩
          · exact .inl rfl
      · show Table.upsert (removeForObject written mutation.objectId).conflicts _ = _
        rw [MergeBases.removed_frame]
        rfl
  | false =>
      rw [if_neg Bool.false_ne_true]
      let written := (s.putBaseVersion mutation.objectId mutation.expectedRevision mutation.envelope).putObject
        ⟨mutation.objectId,mutation.objectKind,conflict.currentRevision,0,false,conflict.currentEnvelope,tick.now⟩
      refine ⟨_,_,rfl,?_,fun m => ?_,?_⟩
      · show (removeForObject written mutation.objectId).baseVersions = _
        rw [MergeBases.removed_frame]
        rfl
      · refine (mem_removed written mutation.objectId).trans ?_
        simp only [Bool.false_eq_true,false_and,or_false]
        rfl
      · show Table.upsert (removeForObject written mutation.objectId).conflicts _ = _
        rw [MergeBases.removed_frame]
        rfl

theorem handled_left (codec : NoteCodec Key Note) (faced : Faced options tick s mutation rest conflict) :
    Left s (handled codec options tick s mutation conflict) tick mutation conflict (wins codec options s mutation conflict) ∧
    (settlePush codec options tick mutation (orKeep s (markInFlight s mutation.mutationId)) .default (.error (.conflict conflict))).2.2 = .next := by
  have found := faced.listed.present mutation List.mem_cons_self
  let flying := restatus s mutation .inFlight (saturatingSucc mutation.retryCount)
  have marked : markInFlight s mutation.mutationId = .ok flying := mark_row found _ _
  have others : ∀ m, m ∈ flying.mutations.rows ∧ m.objectId ≠ mutation.objectId ↔ m ∈ s.mutations.rows ∧ m.objectId ≠ mutation.objectId := by
    intro m
    refine and_congr_left fun other => (mem_restatus _ _).trans ⟨?_,fun inside => .inr ⟨inside,fun same => other ?_⟩⟩
    · rintro (rfl | ⟨inside,_⟩)
      · exact absurd rfl other
      · exact inside
    · exact congrArg (·.objectId) (Option.some.inj ((mem_find inside same).symm.trans found))
  have apart : mutation.mutationId ≠ tick.retryId := by
    intro same
    have unused := faced.retryFresh
    rw [← same,found] at unused
    cases unused
  have fresh : flying.getMutation tick.retryId = none := (find_upsert_other s.mutations (PushSteps.marked mutation .inFlight _) apart).trans faced.retryFresh
  obtain ⟨outcome,t,evaluated,bases,queue,records⟩ := evaluate_left codec options.vaultKey faced.alive fresh
  have settled : settlePush codec options tick mutation flying .default (.error (.conflict conflict)) =
      (t,{PushReport.default with lwwResolved := PushReport.default.lwwResolved ++ [outcome]},.next) := by
    simp only [settlePush,if_pos (And.intro faced.policy faced.alive),evaluated]
  have is : handled codec options tick s mutation conflict = t := by
    rw [handled,pushOne,marked]
    exact congrArg Prod.fst settled
  rw [is,marked,orKeep,settled]
  exact ⟨⟨bases,fun m => (queue m).trans (or_congr_left (others m)),records⟩,rfl⟩

-- What an other edit of the object must carry to be found after the policy.
def Survives (s : Storage) (mutation : PendingMutation) (conflict : ConflictResponse) (archived : Nat) (envelope : EncryptedEnvelope) : Prop :=
  envelope = mutation.envelope ∨ envelope = conflict.currentEnvelope ∨
  s.getBaseVersion mutation.objectId mutation.expectedRevision = some envelope ∨
  (∃ b ∈ s.baseVersions.rows, b.objectId = mutation.objectId ∧ b.revision ≠ archived ∧ b.envelope = envelope) ∨
  ∃ r ∈ s.conflicts.rows, r.objectId = mutation.objectId ∧ envelope ∈ envelopes r

instance (s : Storage) (mutation : PendingMutation) (conflict : ConflictResponse) (archived : Nat) (envelope : EncryptedEnvelope) :
    Decidable (Survives s mutation conflict archived envelope) := by
  unfold Survives
  infer_instance

-- The acknowledgement does not go past the archived version.
def Below (objectId : String) (revision : Nat) (envelope : EncryptedEnvelope) : Event World Key Note File → Storage → Prop
  | .push _ _ m (.ok resp),u =>
    u.getBaseVersion objectId revision = some envelope → ∀ row ∈ u.getMutation m.mutationId, row.objectId = objectId → resp.revision ≤ revision
  | _,_ => True

instance (objectId : String) (revision : Nat) (envelope : EncryptedEnvelope) (event : Event World Key Note File) (u : Storage) :
    Decidable (Below objectId revision envelope event u) := by
  unfold Below
  split <;> infer_instance

theorem base_left {mine : Bool} (left : Left s t tick mutation conflict mine) (revision : Nat) :
    t.getBaseVersion mutation.objectId revision =
      if revision = (if mine then conflict.currentRevision else mutation.expectedRevision)
      then some (if mine then conflict.currentEnvelope else mutation.envelope) else s.getBaseVersion mutation.objectId revision := by
  simp only [Storage.getBaseVersion,left.bases,find_upsert]
  cases mine <;> simp only [if_true,Bool.false_eq_true,if_false,Prod.mk.injEq,true_and,eq_comm (b := revision)] <;> split <;> rfl

theorem base_held {objectId : String} : (∃ revision, revision ≠ archived ∧ s.getBaseVersion objectId revision = some envelope) ↔
    ∃ b ∈ s.baseVersions.rows, b.objectId = objectId ∧ b.revision ≠ archived ∧ b.envelope = envelope := by
  constructor
  · rintro ⟨revision,other,held⟩
    obtain ⟨b,found,is⟩ := Option.map_eq_some_iff.mp held
    have key := find_key found
    obtain ⟨own,at_⟩ := Prod.mk.inj key
    exact ⟨b,find_mem found,own,at_ ▸ other,is⟩
  · rintro ⟨b,inside,own,other,is⟩
    have found : s.baseVersions.find (b.objectId,b.revision) = some b := mem_iff_find.mp inside
    exact ⟨b.revision,other,by rw [Storage.getBaseVersion,← own,found,Option.map_some,is]⟩

theorem retrievable_left {mine : Bool} (left : Left s t tick mutation conflict mine) (fresh : s.conflicts.find tick.conflictId = none) :
    Retrievable t mutation.objectId envelope ↔
      Survives s mutation conflict (if mine then conflict.currentRevision else mutation.expectedRevision) envelope := by
  have record : ∀ r, r ∈ t.conflicts.rows ↔ r = resolvedRecord tick mutation conflict
      (s.getBaseVersion mutation.objectId mutation.expectedRevision) (if mine then mutation.envelope else conflict.currentEnvelope) ∨
      r ∈ s.conflicts.rows := by
    intro r
    rw [left.records,mem_upsert]
    refine or_congr_right ⟨And.left,fun inside => ⟨inside,fun same => find_none_iff.mp fresh ?_⟩⟩
    exact (show r.conflictId = tick.conflictId from same) ▸ List.mem_map_of_mem inside
  constructor
  · intro held
    cases held with
    | @base revision held =>
        rw [base_left left] at held
        by_cases at_ : revision = (if mine then conflict.currentRevision else mutation.expectedRevision)
        · rw [if_pos at_] at held
          cases mine
          · exact .inl (Option.some.inj held).symm
          · exact .inr (.inl (Option.some.inj held).symm)
        · rw [if_neg at_] at held
          exact .inr (.inr (.inr (.inl (base_held.mp ⟨revision,at_,held⟩))))
    | record held object inside =>
        rcases (record _).mp held with rfl | old
        · simp only [envelopes,resolvedRecord,List.mem_append,List.mem_cons,List.not_mem_nil,or_false,Option.mem_toList] at inside
          rcases inside with ((is | is) | is) | is
          · exact .inl is
          · exact .inr (.inl is)
          · exact .inr (.inr (.inl is))
          · cases mine
            · exact .inr (.inl (Option.some.inj is).symm)
            · exact .inl (Option.some.inj is).symm
        · exact .inr (.inr (.inr (.inr ⟨_,old,object,inside⟩)))
  · have new := (record _).mpr (.inl rfl)
    rintro (rfl | rfl | base | other | ⟨r,old,object,inside⟩)
    · exact .record new rfl (by simp [envelopes,resolvedRecord])
    · exact .record new rfl (by simp [envelopes,resolvedRecord])
    · exact .record new rfl (by simp [envelopes,resolvedRecord,base])
    · obtain ⟨revision,apart,held⟩ := base_held.mpr other
      exact .base ((base_left left revision).trans (if_neg apart) ▸ held)
    · exact .record ((record r).mpr (.inr old)) object inside

theorem others_left {mine : Bool} (left : Left s t tick mutation conflict mine) (fresh : s.getMutation tick.retryId = none)
    (inside : m ∈ s.mutations.rows) : m ∈ t.mutations.rows ↔ m.objectId ≠ mutation.objectId := by
  refine (left.queue m).trans ⟨?_,fun other => .inl ⟨inside,other⟩⟩
  rintro (⟨_,other⟩ | ⟨_,rfl⟩)
  · exact other
  · exact absurd (List.mem_map_of_mem inside) (find_none_iff.mp fresh)

theorem marked_left {mine : Bool} (left : Left s t tick mutation conflict mine) (fresh : s.getMutation tick.retryId = none)
    (found : s.getMutation m.mutationId = some m) : (∃ u, markInFlight t m.mutationId = .ok u) ↔ m.objectId ≠ mutation.objectId := by
  have inside : m ∈ s.mutations.rows := find_mem found
  constructor
  · rintro ⟨u,marked⟩
    cases held : t.getMutation m.mutationId with
    | none => simp [markInFlight,mark,held] at marked
    | some x =>
        have own : x.mutationId = m.mutationId := find_key held
        rcases (left.queue x).mp (find_mem held) with ⟨old,other⟩ | ⟨_,is⟩
        · have same : x = m := Option.some.inj ((mem_find old own).symm.trans found)
          exact same ▸ other
        · rw [is] at own
          rw [← own,fresh] at found
          cases found
  · intro other
    have held : t.getMutation m.mutationId = some m := mem_iff_find.mp ((others_left left fresh inside).mpr other)
    exact ⟨_,mark_row held _ _⟩

theorem spares_iff (codec : NoteCodec Key Note) (objectId : String) (revision : Nat) (envelope : EncryptedEnvelope)
    (event : Event World Key Note File) (u : Storage) :
    Spares codec objectId revision envelope event u ↔ Below objectId revision envelope event u := by
  unfold Spares Below
  split
  · rename_i options tick m resp
    refine imp_congr_right fun held => ?_
    cases found : u.getMutation m.mutationId with
    | none =>
        have same : pushOne codec options tick m (.ok resp) u = u := by simp only [pushOne,markInFlight,mark,found]
        rw [same]
        exact iff_of_true held (fun row is => by cases is)
    | some row =>
        have own : row.mutationId = m.mutationId := find_key found
        have left : pushOne codec options tick m (.ok resp) u = accept u row resp tick.now := by
          rw [← own] at found
          have held := restatus_found found .inFlight (saturatingSucc row.retryCount)
          have marked : markInFlight u row.mutationId = .ok (restatus u row .inFlight (saturatingSucc row.retryCount)) := mark_row found _ _
          simp only [pushOne,← own,marked,settlePush,acknowledgeAccepted,held]
          exact accept_restatus found .inFlight (saturatingSucc row.retryCount) resp tick.now
        have after : (accept u row resp tick.now).getBaseVersion objectId revision =
            if row.objectId = objectId ∧ revision < resp.revision then none else u.getBaseVersion objectId revision := by
          show ((u.baseVersions.delete _).find (objectId,revision)).map (·.envelope) = _
          rw [find_delete]
          cases base : u.baseVersions.find (objectId,revision) with
          | none => simp [Storage.getBaseVersion,base]
          | some b =>
              have key := find_key base
              obtain ⟨rfl,rfl⟩ := Prod.mk.inj key
              by_cases pruned : row.objectId = b.objectId ∧ b.revision < resp.revision
              · simp [Option.filter,pruned]
              · have kept : ¬(b.objectId = row.objectId ∧ b.revision < resp.revision) := fun both => pruned ⟨both.1.symm,both.2⟩
                rw [if_neg pruned,Storage.getBaseVersion,base]
                simp [Option.filter,kept]
        rw [left,after]
        constructor
        · rintro kept row' ⟨⟩ target
          by_contra above
          rw [if_pos ⟨target,Nat.lt_of_not_le above⟩] at kept
          cases kept
        · intro below
          rw [if_neg (fun both => absurd (below row rfl both.1) (Nat.not_le_of_lt both.2))]
          exact held
  · exact Iff.rfl

-- One conflict handled by the guarded policy, and any run after it: the loser can be
-- found, the base, the object's other edits, the archived version and the rest of the
-- loop are as they should be exactly under these conditions.
theorem guarded_keeps_iff (client : Client Key Note File) (faced : Faced options tick s mutation rest conflict)
    (later : List (Event World Key Note File)) :
    let t := handled client.codec options tick s mutation conflict
    let lost := loser client.codec options s mutation conflict
    let archived := archivedAt client.codec options s mutation conflict
    (Retrievable t mutation.objectId lost ∧ BaseKept s t mutation ∧ OthersKept s t mutation ∧
      Along (Event.run client) (Spares client.codec mutation.objectId archived lost) later t ∧
      GoesOn client.codec options tick s mutation rest conflict) ↔
    ((∀ base, s.getBaseVersion mutation.objectId mutation.expectedRevision = some base → mutation.expectedRevision = archived → base = lost) ∧
      (∀ m ∈ s.mutations.rows, m.objectId = mutation.objectId → m.mutationId ≠ mutation.mutationId →
        Survives s mutation conflict archived m.envelope) ∧
      Along (Event.run client) (Below mutation.objectId archived lost) later t ∧
      ∀ m ∈ rest, ready m = true → m.objectId ≠ mutation.objectId) := by
  intro t lost archived
  obtain ⟨left,flow⟩ := handled_left client.codec faced
  have bases : ∀ revision, t.getBaseVersion mutation.objectId revision =
      if revision = archived then some lost else s.getBaseVersion mutation.objectId revision := base_left left
  have found : Retrievable t mutation.objectId lost := .base ((bases archived).trans (if_pos rfl))
  have base : BaseKept s t mutation ↔
      ∀ base, s.getBaseVersion mutation.objectId mutation.expectedRevision = some base → mutation.expectedRevision = archived → base = lost := by
    refine forall_congr' fun base => imp_congr_right fun held => ?_
    rw [bases]
    by_cases same : mutation.expectedRevision = archived
    · rw [if_pos same]
      exact ⟨fun is _ => (Option.some.inj is).symm,fun is => congrArg some (is same).symm⟩
    · rw [if_neg same]
      exact iff_of_true held (fun is => absurd is same)
  have others : OthersKept s t mutation ↔ ∀ m ∈ s.mutations.rows, m.objectId = mutation.objectId → m.mutationId ≠ mutation.mutationId →
      Survives s mutation conflict archived m.envelope := by
    refine forall_congr' fun m => imp_congr_right fun inside => imp_congr_right fun target => imp_congr_right fun _ => ?_
    rw [others_left left faced.retryFresh inside,retrievable_left left faced.recordFresh]
    exact or_iff_right (not_not.mpr target)
  have spares : Along (Event.run client) (Spares client.codec mutation.objectId archived lost) later t ↔
      Along (Event.run client) (Below mutation.objectId archived lost) later t := by
    have always : Along (Event.run client) (fun _ _ => True) later t := along_true later
    exact along_congr (fun event u _ => spares_iff client.codec mutation.objectId archived lost event u) later always
  have goesOn : GoesOn client.codec options tick s mutation rest conflict ↔ ∀ m ∈ rest, ready m = true → m.objectId ≠ mutation.objectId := by
    refine (and_iff_right flow).trans (forall_congr' fun m => imp_congr_right fun inside => imp_congr_right fun _ => ?_)
    exact marked_left left faced.retryFresh (faced.listed.present m (List.mem_cons_of_mem _ inside))
  rw [and_iff_right found,base,others,spares,goesOn]

-- A note at revision 1 with its base, and edits of it in the queue.
def edit (mutationId : String) (expectedRevision : Nat) (text createdAt : String) : PendingMutation :=
  queued mutationId firstNote expectedRevision .pending text createdAt

def withEdits (edits : List PendingMutation) : Storage :=
  edits.foldl (fun s m => (s.enqueueMutation m).toOption.getD s) (Storage.new.putBaseVersion firstNote 1 (sealedText firstNote "AAAA"))

def guarded : PushOptions Unit := ⟨none,false,.guardedLww,some ()⟩

def theirs : ConflictResponse := ⟨errorRevisionConflict,firstNote,1,2,2,sealedText firstNote "DDDD",false⟩

def drawn : Tick := ⟨"2026-01-01T12:00:00Z",change3,change4,0⟩

-- Two edits of the note are queued, and the first meets a conflict that it loses.
theorem second_edit_lost :
    let ran := pushPendingChanges ⟨fun _ (w : Unit) => (.error (.conflict theirs),w),fun _ _ w => (.error (.connectionFailed ""),w)⟩
      .standIn guarded (fun _ => drawn) ()
      (withEdits [edit change1 1 "BBBB" "2026-01-01T00:00:00Z",edit change2 2 "CCCC" "2026-01-01T00:00:01Z"])
    ran.2.2 = .error (.queue (.notFound s!"mutation '{change2}' not found")) ∧
    ran.2.1.mutations.rows = [] ∧
    ran.2.1.baseVersions.rows.map (fun b => (b.revision,b.envelope.payload.ciphertext)) = [(1,"BBBB")] ∧
    (ran.2.1.conflicts.rows.flatMap envelopes).map (·.payload.ciphertext) = ["BBBB","DDDD","AAAA","DDDD"] := by
  decide +kernel

theorem first_edit_faced : Faced guarded drawn (withEdits [edit change1 1 "EEEE" "2026-01-01T00:00:00Z"])
    (edit change1 1 "EEEE" "2026-01-01T00:00:00Z") [] theirs :=
  ⟨rfl,by decide,⟨by simp,by decide +kernel⟩,by decide +kernel,by decide +kernel⟩

-- A single edit that wins over a later revision is handled well.
theorem only_edit_kept :
    let s := withEdits [edit change1 1 "EEEE" "2026-01-01T00:00:00Z"]
    let t := handled NoteCodec.standIn guarded drawn s (edit change1 1 "EEEE" "2026-01-01T00:00:00Z") theirs
    Retrievable t firstNote (sealedText firstNote "DDDD") ∧
    t.getBaseVersion firstNote 1 = some (sealedText firstNote "AAAA") := by
  intro s t
  have kept := (guarded_keeps_iff .standIn first_edit_faced ([] : List (Event Unit Unit String String))).mpr
    ⟨by decide +kernel,by decide +kernel,trivial,fun m inside => absurd inside List.not_mem_nil⟩
  exact ⟨kept.1,kept.2.1 _ (by decide +kernel)⟩

end ZkNote.GuardedPolicy
