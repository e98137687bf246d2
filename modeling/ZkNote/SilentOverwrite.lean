import ZkNote.CasCounters
import ZkNote.NoteEdits
import ZkNote.PushSteps

namespace ZkNote.SilentOverwrite
open Protocol Adapter KeyedTable ServerStore ServerHistory ServerRoutes SyncLink LinkSteps LocalStorage
open MutationQueue PushChanges PushSteps Notes NoteEdits CasCounters

variable {crates : Crates} {account : String} {Key Note : Type} {codec : NoteCodec Key Note}

def Taken (x : Exchange) : Prop := ∃ resp, x.answer = .ok resp
def Conflicted (x : Exchange) : Prop := ∃ conflict, x.answer = .error (.conflict conflict)

theorem not_both {x : Exchange} (taken : Taken x) (refused : Conflicted x) : False := by
  obtain ⟨resp,fine⟩ := taken
  obtain ⟨conflict,bad⟩ := refused
  rw [fine] at bad
  cases bad

-- What one push of the queue in `s` must not do: after a conflict take a later
-- edit of the same object, or take an edit without all the edits it builds on.
structure NoOverwrite (s : Storage) (pushes : List Exchange) : Prop where
  ordered : pushes.Pairwise (fun x y => x.request.objectId = y.request.objectId → Conflicted x → ¬Taken y)
  lineage : ∀ pre x post, pushes = pre ++ x :: post → Taken x → ∀ p ∈ s.mutations.rows,
    p.objectId = x.request.objectId → p.expectedRevision < x.request.expectedRevision →
    ∃ y ∈ pre, Taken y ∧ y.request = requestOf p

-- What the server's record says of an edit: whether it answers it with the
-- response of then, or, for another object or another request hash, with a mismatch.
def replays (crates : Crates) (m : PendingMutation) (row : ProcessedMutationRow) : Bool :=
  row.objectId == m.objectId && row.requestHash.all (fun hash => hash == computeMutationRequestHash crates (requestOf m))

def recorded (crates : Crates) (db : ServerDb) (account : String) (m : PendingMutation) : Option Bool :=
  (db.processed.find (account,m.mutationId)).map (replays crates m)

def answered (record : PendingMutation → Option Bool) (m : PendingMutation) : Bool := record m == some true

-- The listed edits up to the first answer that ends the loop: a mismatch, or the
-- 404 for an object the server has not got, at any revision but the first.
def reached (record : PendingMutation → Option Bool) (known : String → Bool) : List PendingMutation → List PendingMutation
  | [] => []
  | m :: rest =>
    match record m with
    | some true => m :: reached record known rest
    | some false => []
    | none =>
      if known m.objectId = false ∧ m.expectedRevision ≠ 0 then []
      else m :: reached record (Function.update known m.objectId true) rest

def attempts (crates : Crates) (db : ServerDb) (account : String) (s : Storage) : List PendingMutation :=
  reached (recorded crates db account) (fun o => decide (headAt db account o ≠ 0)) s.listPendingMutations

-- The server can take an edit that its record answers, and one with every revision
-- from the head up to its own expected by an attempt that is not on record. Nothing
-- else of its object is attempted before such an edit, and what is queued below it is.
def Clear (crates : Crates) (db : ServerDb) (account : String) (s : Storage) : Prop :=
  Settling (answered (recorded crates db account)) (·.objectId) (·.expectedRevision) (headAt db account)
    (attempts crates db account s) s.mutations.rows

-- The exchanges of a push beside the verdicts of the counters. A loop may end
-- early, or on an answer that is neither.
inductive Follows (early : Bool) : List Exchange → List (PendingMutation × Bool) → Prop where
  | ended (fine : early = true ∨ out = []) : Follows early [] out
  | silent (untaken : ¬Taken x) (plain : ¬Conflicted x) : Follows early [x] []
  | answered (x : Exchange) (m : PendingMutation) (taken : Bool) (own : x.request = requestOf m)
      (verdict : if taken = true then Taken x else Conflicted x) (next : Follows early more out) :
      Follows early (x :: more) ((m,taken) :: out)

theorem attempt_world {World : Type} {adapter : SyncServerAdapter World} {options : PushOptions Key} {w w' : World}
    (ran : attempt adapter codec options tick row w s report = (w',t,report',flow)) :
    (w' = w ∧ (∃ e, markInFlight s row.mutationId = .error e) ∧ flow ≠ Flow.next) ∨
      (w' = (adapter.pushMutation (requestOf row) w).2 ∧
        ∀ message, (adapter.pushMutation (requestOf row) w).1 = .error (.notFound message) ∨
          (adapter.pushMutation (requestOf row) w).1 = .error (.replayMismatch message) → flow ≠ Flow.next) := by
  unfold attempt at ran
  simp only at ran
  split at ran
  · rename_i e failed
    cases ran
    exact .inl ⟨rfl,⟨e,failed⟩,by simp⟩
  · simp only [Prod.mk.injEq] at ran
    obtain ⟨rfl,settled⟩ := ran
    refine .inr ⟨rfl,?_⟩
    rintro message (answer | answer)
    all_goals
      rw [answer] at settled
      simp only [settlePush,SyncNetworkError.isTransient,Bool.false_eq_true,if_false,Prod.mk.injEq] at settled
      rw [← settled.2.2]
      simp

-- The counters' verdicts on a listing, from the heads of a log.
def verdicts (record : PendingMutation → Option Bool) (log : List Acceptance) (account : String) (list : List PendingMutation) :
    List (PendingMutation × Bool) :=
  outcomes (answered record) (·.objectId) (·.expectedRevision) (headRevision log account)
    (reached record (fun o => decide (headRevision log account o ≠ 0)) list)

variable {record : PendingMutation → Option Bool}

theorem verdicts_taken {row : PendingMutation} (unseen : record row = none)
    (current : row.expectedRevision = headRevision log account row.objectId) :
    verdicts record log account (row :: rest) =
      (row,true) :: verdicts record (log ++ [entryOf log account (requestOf row)]) account rest := by
  have shown : ¬(decide (headRevision log account row.objectId ≠ 0) = false ∧ row.expectedRevision ≠ 0) := by
    rintro ⟨zero,late⟩
    exact late (current.trans (by simpa using zero))
  have known : Function.update (fun o => decide (headRevision log account o ≠ 0)) row.objectId true =
      fun o => decide (headRevision (log ++ [entryOf log account (requestOf row)]) account o ≠ 0) := by
    funext o
    rw [head_accepted]
    by_cases same : o = row.objectId <;> simp [same,requestOf]
  have apart : ¬answered record row = true := by simp [answered,unseen]
  unfold verdicts
  simp only [reached,unseen,shown,if_false]
  rw [outcomes,if_neg apart,if_pos current,known,head_accepted]
  rfl

theorem verdicts_refused {row : PendingMutation} (unseen : record row = none) (present : headRevision log account row.objectId ≠ 0)
    (stale : row.expectedRevision ≠ headRevision log account row.objectId) :
    verdicts record log account (row :: rest) = (row,false) :: verdicts record log account rest := by
  have shown : ¬(decide (headRevision log account row.objectId ≠ 0) = false ∧ row.expectedRevision ≠ 0) := by
    simp [present]
  have known : Function.update (fun o => decide (headRevision log account o ≠ 0)) row.objectId true =
      fun o => decide (headRevision log account o ≠ 0) := by
    funext o
    by_cases same : o = row.objectId <;> simp [same,present]
  have apart : ¬answered record row = true := by simp [answered,unseen]
  unfold verdicts
  simp only [reached,unseen,shown,if_false]
  rw [outcomes,if_neg apart,if_neg stale,known]

theorem verdicts_missing {row : PendingMutation} (unseen : record row = none) (absent : headRevision log account row.objectId = 0)
    (stale : row.expectedRevision ≠ 0) : verdicts record log account (row :: rest) = [] := by
  have cut : decide (headRevision log account row.objectId ≠ 0) = false ∧ row.expectedRevision ≠ 0 :=
    ⟨by simp [absent],stale⟩
  unfold verdicts
  simp only [reached,unseen]
  rw [if_pos cut,outcomes]

theorem verdicts_replayed {row : PendingMutation} (seen : record row = some true) :
    verdicts record log account (row :: rest) = (row,true) :: verdicts record log account rest := by
  have apart : answered record row = true := by simp [answered,seen]
  unfold verdicts
  simp only [reached,seen,outcomes,apart,if_true]

theorem verdicts_mismatched {row : PendingMutation} (seen : record row = some false) :
    verdicts record log account (row :: rest) = [] := by
  simp only [verdicts,reached,seen,outcomes]

variable {options : PushOptions Key} {s t : Storage} {l l' : Link} {row : PendingMutation}

-- One exchange over a quiet link.
theorem quiet_push (account : String) (rep : Represents crates log l.db) (quiet : l.schedule = []) (proper : Proper crates (requestOf row)) :
    ∃ x added, (serverPush crates account (requestOf row) l).2 =
        ⟨(serverPush crates account (requestOf row) l).2.db,[],l.pulls,l.pushes ++ [x]⟩ ∧
      x.request = requestOf row ∧ x.answer = (serverPush crates account (requestOf row) l).1 ∧
      Handled account log (requestOf row) x.answer added ∧
      Represents crates (log ++ added) (serverPush crates account (requestOf row) l).2.db := by
  obtain ⟨added,handled,_,after,answers,link⟩ := push_served rep proper account
  have slot : l.slot = .quiet := by simp [Link.slot,quiet]
  have same : arrivals crates log l = log := by simp [arrivals,slot,Slot.quiet,acceptedBy]
  rw [same] at answers after
  rw [quiet] at link
  exact ⟨_,added,link,rfl,rfl,answers (by rw [slot]; rfl),after⟩

-- The answer of a quiet link to an edit on the record.
theorem record_answer (rep : Represents crates log l.db) (quiet : l.schedule = []) (proper : Proper crates (requestOf row))
    (old : ofMutation log account row.mutationId = some e) :
    (replays crates row (processedOf crates e) = true ∧ ∃ resp, (serverPush crates account (requestOf row) l).1 = .ok resp) ∨
      (replays crates row (processedOf crates e) = false ∧
        ∃ message, (serverPush crates account (requestOf row) l).1 = .error (.replayMismatch message)) := by
  have slot : l.slot = .quiet := by simp [Link.slot,quiet]
  have arrived : l.arrived crates = l.db := by simp [Link.arrived,slot,Slot.quiet,pushAll]
  have fault : l.slot.fault = none := by rw [slot]; rfl
  have passes := admitted_passes proper.admitted
  have result := push_replayed rep proper.parsed old
  have answer : (serverPush crates account (requestOf row) l).1 = handleResponse (pushReply (.ok (replayOutcome
      (processedOf crates e) row.objectId (computeMutationRequestHash crates (requestOf row)) (requestOf row)))) := by
    simp only [serverPush,fault,arrived,pushMutationHandler,passes,result]
    rfl
  rw [answer]
  by_cases object : e.objectId = row.objectId
  · by_cases hash : computeMutationRequestHash crates e.request = computeMutationRequestHash crates (requestOf row)
    · refine .inl ⟨by simp [replays,processedOf,object,hash],?_⟩
      simp only [replayOutcome,processedOf,object,hash,ne_eq,not_true,if_false]
      exact ⟨_,rfl⟩
    · refine .inr ⟨by simp [replays,processedOf,hash],?_⟩
      simp only [replayOutcome,processedOf,object,hash,ne_eq,not_true,not_false_eq_true,if_false,if_true]
      exact ⟨_,rfl⟩
  · refine .inr ⟨by simp [replays,processedOf,object],?_⟩
    simp only [replayOutcome,processedOf,object,ne_eq,not_false_eq_true,if_true]
    exact ⟨_,rfl⟩

-- Under the default options an edit that is taken or conflicts is followed by the next one.
theorem unfinished {l₁ : Link} (thorough : early = false → options = .default ∧ Listed (row :: rest) s)
    (attempted : attempt (honest crates account) codec options tick row l s report = (l₁,t,report₁,flow))
    (verdict : (∃ resp, (serverPush crates account (requestOf row) l).1 = .ok resp) ∨
      ∃ conflict, (serverPush crates account (requestOf row) l).1 = .error (.conflict conflict))
    (stops : flow ≠ .next) : early = true := by
  cases early with
  | true => rfl
  | false =>
      obtain ⟨plain,listed⟩ := thorough rfl
      have outcome := (attempt_outcome (.inl (by rw [plain]; rfl)) (listed.present row List.mem_cons_self) attempted).2.2
      change Outcome options s row (serverPush crates account (requestOf row) l).1 t flow at outcome
      rcases verdict with ⟨resp,answer⟩ | ⟨conflict,answer⟩ <;> rw [answer] at outcome
      · cases outcome
        exact absurd rfl stops
      · cases outcome with
        | conflicting => simp [plain,PushOptions.default] at stops
        | unrecorded _ _ _ keyed => simp [plain,PushOptions.default] at keyed
        | transient _ passing => cases passing
        | fatal _ _ other => exact absurd rfl (other conflict)

-- One exchange beside the verdict on its edit: the rest goes on from the log that it
-- leaves, or its answer ends the loop.
theorem turn_verdict (rep : Represents crates log l.db) (quiet : l.schedule = []) (proper : Proper crates (requestOf row)) (rest : List PendingMutation)
    (mine : (ofMutation log account row.mutationId).map (fun e => replays crates row (processedOf crates e)) = record row) :
    ∃ x, (serverPush crates account (requestOf row) l).2.pushes = l.pushes ++ [x] ∧
      (serverPush crates account (requestOf row) l).2.schedule = [] ∧ x.request = requestOf row ∧
      x.answer = (serverPush crates account (requestOf row) l).1 ∧
      ((∃ taken log₁, Represents crates log₁ (serverPush crates account (requestOf row) l).2.db ∧
          (∀ id, row.mutationId ≠ id → ofMutation log₁ account id = ofMutation log account id) ∧
          (if taken = true then Taken x else Conflicted x) ∧
          verdicts record log account (row :: rest) = (row,taken) :: verdicts record log₁ account rest) ∨
        verdicts record log account (row :: rest) = [] ∧
          ∃ message, x.answer = .error (.notFound message) ∨ x.answer = .error (.replayMismatch message)) := by
  obtain ⟨x,added,link,own,answer,handled,after⟩ := quiet_push account rep quiet proper
  refine ⟨x,by rw [link],by rw [link],own,answer,?_⟩
  cases old : ofMutation log account row.mutationId with
  | some e =>
      rw [old] at mine
      rcases record_answer rep quiet proper old with ⟨flag,resp,given⟩ | ⟨flag,message,given⟩
      · have taken : x.answer = .ok resp := answer.trans given
        rw [Option.map_some,flag] at mine
        rw [taken] at handled
        cases handled with
        | accepted fresh => exact absurd (old.symm.trans fresh) (by simp)
        | replayed => exact .inl ⟨true,log,by simpa using after,fun _ _ => rfl,⟨_,taken⟩,verdicts_replayed mine.symm⟩
      · rw [Option.map_some,flag] at mine
        exact .inr ⟨verdicts_mismatched mine.symm,message,.inr (answer.trans given)⟩
  | none =>
      rw [old] at mine
      have unseen : record row = none := mine.symm
      generalize given : x.answer = reply at handled
      cases handled with
      | accepted _ current => exact .inl ⟨true,_,after,fun _ other => logged_after other,⟨_,given⟩,verdicts_taken unseen current⟩
      | replayed seen => exact absurd (seen.symm.trans old) (by simp)
      | mismatched seen => exact absurd (seen.symm.trans old) (by simp)
      | conflicting _ last stale =>
          have count := last_revision rep last
          exact .inl ⟨false,log,by simpa using after,fun _ _ => rfl,⟨_,given⟩,
            verdicts_refused unseen (last_present last) (fun same => stale (same.trans count.symm))⟩
      | missing _ absent stale message => exact .inr ⟨verdicts_missing unseen absent stale,message,.inl rfl⟩

theorem push_follows (early : Bool) (list : List PendingMutation) (able : ∀ m ∈ list, ready m = true)
    (proper : ∀ m ∈ list, Proper crates (requestOf m)) (distinct : (list.map (·.mutationId)).Nodup)
    (rep : Represents crates log l.db) (quiet : l.schedule = [])
    (seen : ∀ m ∈ list, (ofMutation log account m.mutationId).map (fun e => replays crates m (processedOf crates e)) = record m)
    (thorough : early = false → options = .default ∧ Listed list s)
    (ran : pushLoop (honest crates account) codec options ticks list l s report = (l',t,result)) :
    ∃ more, l'.pushes = l.pushes ++ more ∧ Follows early more (verdicts record log account list) := by
  induction list generalizing log l s report with
  | nil =>
      cases ran
      exact ⟨[],by simp,.ended (.inr rfl)⟩
  | cons row rest ih =>
      simp only [List.map_cons,List.nodup_cons] at distinct
      have others : ∀ m ∈ rest, row.mutationId ≠ m.mutationId := fun m inside same => distinct.1 (same ▸ List.mem_map_of_mem inside)
      unfold pushLoop at ran
      split at ran
      · rename_i full
        cases ran
        refine ⟨[],by simp,.ended (.inl ?_)⟩
        cases early with
        | true => rfl
        | false =>
            rw [(thorough rfl).1] at full
            cases full
      · rw [if_pos (able row List.mem_cons_self)] at ran
        obtain ⟨x,logged,silence,own,answer,turned⟩ := turn_verdict rep quiet (proper row List.mem_cons_self) rest (seen row List.mem_cons_self)
        generalize attempted : attempt (honest crates account) codec options (ticks report.totalAttempted) row l s report = ended at ran
        obtain ⟨l₁,s₁,report₁,flow⟩ := ended
        have halted : flow ≠ .next → l' = l₁ := by
          intro stops
          cases flow with
          | next => exact absurd rfl stops
          | stop => cases ran; rfl
          | abort e => cases ran; rfl
        rcases attempt_world attempted with ⟨rfl,⟨e,failed⟩,stops⟩ | ⟨rfl,lost⟩
        · -- the row is gone from the queue: the loop returns the error
          refine ⟨[],by rw [halted stops]; simp,.ended (.inl ?_)⟩
          cases early with
          | true => rfl
          | false =>
              have found := (thorough rfl).2.present row List.mem_cons_self
              rw [markInFlight,mark_row found] at failed
              cases failed
        · rcases turned with ⟨taken,log₁,rep₁,same₁,verdict,go⟩ | ⟨none,message,given⟩
          · have cut : flow ≠ .next → early = true := by
              refine unfinished thorough attempted ?_
              rw [← answer]
              cases taken with
              | true => exact .inl verdict
              | false => exact .inr verdict
            have last : flow ≠ .next → ∃ more, l'.pushes = l.pushes ++ more ∧ Follows early more (verdicts record log account (row :: rest)) := by
              intro stops
              rw [go]
              exact ⟨[x],by rw [halted stops]; exact logged,.answered x row taken own verdict (.ended (.inl (cut stops)))⟩
            cases flow with
            | next =>
                have onward : early = false → options = .default ∧ Listed rest s₁ := by
                  intro all
                  obtain ⟨plain,listed⟩ := thorough all
                  have outcome := (attempt_outcome (.inl (by rw [plain]; rfl)) (listed.present row List.mem_cons_self) attempted).2.2
                  exact ⟨plain,listed_next listed outcome⟩
                have seen₁ : ∀ m ∈ rest, (ofMutation log₁ account m.mutationId).map (fun e => replays crates m (processedOf crates e)) = record m := by
                  intro m inside
                  rw [same₁ _ (others m inside)]
                  exact seen m (List.mem_cons_of_mem _ inside)
                obtain ⟨more,pushes,follows⟩ := ih (fun m inside => able m (List.mem_cons_of_mem _ inside))
                  (fun m inside => proper m (List.mem_cons_of_mem _ inside)) distinct.2 rep₁ silence seen₁ onward ran
                refine ⟨x :: more,?_,by rw [go]; exact .answered x row taken own verdict follows⟩
                rw [pushes]
                rw [logged]
                simp
            | stop => exact last (by simp)
            | abort e => exact last (by simp)
          · have stops := lost message (by rcases given with given | given <;> simp [← given,answer,honest])
            rw [none]
            refine ⟨[x],by rw [halted stops]; exact logged,.silent ?_ ?_⟩
            · rintro ⟨resp,fine⟩
              rcases given with given | given <;> rw [given] at fine <;> cases fine
            · rintro ⟨conflict,bad⟩
              rcases given with given | given <;> rw [given] at bad <;> cases bad

theorem follows_mem (follows : Follows early pushes out) (inside : x ∈ pushes) (taken : Taken x) :
    ∃ m, (m,true) ∈ out ∧ x.request = requestOf m := by
  induction follows with
  | ended => cases inside
  | silent untaken => exact absurd (List.mem_singleton.mp inside ▸ taken) untaken
  | answered y m flag own verdict next ih =>
      rcases List.mem_cons.mp inside with rfl | later
      · cases flag with
        | true => exact ⟨m,List.mem_cons_self,own⟩
        | false => exact (not_both taken verdict).elim
      · obtain ⟨q,member,same⟩ := ih later
        exact ⟨q,List.mem_cons_of_mem _ member,same⟩

theorem follows_ordered (follows : Follows early pushes out) (clean : Clean (·.objectId) out) :
    pushes.Pairwise (fun x y => x.request.objectId = y.request.objectId → Conflicted x → ¬Taken y) := by
  induction follows with
  | ended => exact .nil
  | silent => exact List.pairwise_singleton _ _
  | answered x m flag own verdict next ih =>
      obtain ⟨first,later⟩ := List.pairwise_cons.mp clean
      refine List.pairwise_cons.mpr ⟨?_,ih later⟩
      intro y inside same conflicted taken
      obtain ⟨q,member,is⟩ := follows_mem next inside taken
      have refused : flag = false := by
        cases flag with
        | false => rfl
        | true => exact (not_both verdict conflicted).elim
      have equal : m.objectId = q.objectId := by
        rw [own,is] at same
        exact same
      exact absurd (first (q,true) member equal refused) (by simp)

theorem follows_lineage (follows : Follows early pushes out) (split : pushes = pre ++ x :: post) (taken : Taken x) :
    ∃ before m after, out = before ++ (m,true) :: after ∧ x.request = requestOf m ∧
      ∀ q, (q,true) ∈ before → ∃ y ∈ pre, Taken y ∧ y.request = requestOf q := by
  induction follows generalizing pre with
  | ended => simp at split
  | silent untaken =>
      cases pre with
      | nil =>
          simp only [List.nil_append,List.cons.injEq] at split
          exact absurd (split.1 ▸ taken) untaken
      | cons first pre => simp at split
  | answered y m flag own verdict next ih =>
      cases pre with
      | nil =>
          simp only [List.nil_append,List.cons.injEq] at split
          obtain ⟨rfl,_⟩ := split
          cases flag with
          | true => exact ⟨[],m,_,rfl,own,by simp⟩
          | false => exact (not_both taken verdict).elim
      | cons first pre =>
          simp only [List.cons_append,List.cons.injEq] at split
          obtain ⟨rfl,split⟩ := split
          obtain ⟨before,q,after,rfl,same,prior⟩ := ih split
          refine ⟨(m,flag) :: before,q,after,rfl,same,?_⟩
          intro p inside
          rcases List.mem_cons.mp inside with equal | later
          · obtain ⟨rfl,rfl⟩ := Prod.mk.inj equal
            exact ⟨y,List.mem_cons_self,verdict,own⟩
          · obtain ⟨z,member,done,is⟩ := prior p later
            exact ⟨z,List.mem_cons_of_mem _ member,done,is⟩

-- A loop that ran to its end leaves no verdict out.
theorem follows_all (follows : Follows false pushes out) (inside : (m,flag) ∈ out) :
    ∃ x ∈ pushes, x.request = requestOf m ∧ if flag = true then Taken x else Conflicted x := by
  induction follows with
  | ended fine =>
      rcases fine with bad | rfl
      · cases bad
      · cases inside
  | silent => cases inside
  | answered x q other own verdict next ih =>
      rcases List.mem_cons.mp inside with equal | later
      · obtain ⟨rfl,rfl⟩ := Prod.mk.inj equal
        exact ⟨x,List.mem_cons_self,own,verdict⟩
      · obtain ⟨y,member,same,is⟩ := ih later
        exact ⟨y,List.mem_cons_of_mem _ member,same,is⟩

theorem ordered_clean (follows : Follows false pushes out)
    (ordered : pushes.Pairwise (fun x y => x.request.objectId = y.request.objectId → Conflicted x → ¬Taken y)) :
    Clean (·.objectId) out := by
  induction follows with
  | ended fine =>
      rcases fine with bad | rfl
      · cases bad
      · exact .nil
  | silent => exact .nil
  | answered x m flag own verdict next ih =>
      obtain ⟨first,later⟩ := List.pairwise_cons.mp ordered
      refine List.pairwise_cons.mpr ⟨?_,ih later⟩
      rintro ⟨q,taken⟩ inside same refused
      cases taken with
      | false => rfl
      | true =>
          obtain ⟨y,member,is,done⟩ := follows_all next inside
          simp only at refused
          subst refused
          exact absurd done (first y member (by rw [own,is]; exact same) verdict)

theorem lineage_split (follows : Follows false pushes out) (split : out = before ++ (m,true) :: after) :
    ∃ pre x post, pushes = pre ++ x :: post ∧ Taken x ∧ x.request = requestOf m ∧
      ∀ y ∈ pre, Taken y → ∃ q, (q,true) ∈ before ∧ y.request = requestOf q := by
  induction follows generalizing before with
  | ended fine =>
      rcases fine with bad | rfl
      · cases bad
      · simp at split
  | silent => simp at split
  | answered x q flag own verdict next ih =>
      cases before with
      | nil =>
          simp only [List.nil_append,List.cons.injEq,Prod.mk.injEq] at split
          obtain ⟨⟨rfl,rfl⟩,_⟩ := split
          exact ⟨[],x,_,rfl,verdict,own,by simp⟩
      | cons first before =>
          simp only [List.cons_append,List.cons.injEq] at split
          obtain ⟨rfl,split⟩ := split
          obtain ⟨pre,y,post,rfl,taken,is,prior⟩ := ih split
          refine ⟨x :: pre,y,post,rfl,taken,is,?_⟩
          intro z inside done
          rcases List.mem_cons.mp inside with rfl | later
          · cases flag with
            | true => exact ⟨q,List.mem_cons_self,own⟩
            | false => exact (not_both done verdict).elim
          · obtain ⟨p,member,same⟩ := prior z later done
            exact ⟨p,List.mem_cons_of_mem _ member,same⟩

theorem reached_sublist (record : PendingMutation → Option Bool) (known : String → Bool) (list : List PendingMutation) :
    (reached record known list).Sublist list := by
  induction list generalizing known with
  | nil => exact .slnil
  | cons m rest ih =>
      rw [reached]
      split
      · exact (ih _).cons_cons m
      · exact List.nil_sublist _
      · split
        · exact List.nil_sublist _
        · exact (ih _).cons_cons m

theorem attempted_queued (inside : m ∈ attempts crates db account s) : m ∈ s.mutations.rows :=
  (mem_pending s m).mp ((reached_sublist _ _ _).subset inside)

theorem attempts_nodup (crates : Crates) (db : ServerDb) (account : String) (s : Storage) : (attempts crates db account s).Nodup :=
  (pending_ids_nodup s).of_map.sublist (reached_sublist _ _ _)

-- Within one push no two attempts of an object expect the same revision.
theorem attempts_distinct (drafted : Drafted base s) (crates : Crates) (db : ServerDb) (account : String) :
    (attempts crates db account s).Pairwise (fun x y => x.objectId = y.objectId → x.expectedRevision ≠ y.expectedRevision) := by
  refine List.Pairwise.imp_of_mem ?_ (attempts_nodup crates db account s)
  intro x y left right differs object level
  exact differs (drafted.distinct x (attempted_queued left) y (attempted_queued right) object level)

def baseOf (s : Storage) (o : String) : Nat := ((s.getObject o).map (·.revision)).getD 0

theorem base_of_stored (s : Storage) : ∀ x ∈ s.objects.rows, x.revision = baseOf s x.objectId := by
  intro x inside
  have held : s.getObject x.objectId = some x := mem_iff_find.mp inside
  simp [baseOf,held]

theorem overwrite_free_iff (crates : Crates) (codec : NoteCodec Key Note) (key : Key) (account : String) (calls : List Call)
    (commands : List Command) (s₀ : Storage) (seals : Seals crates codec) (empty : s₀.mutations.rows = [])
    (sound : Sound crates s₀) (novel : NovelRun crates (baseOf s₀) codec key commands s₀) :
    (∀ options ticks l t result,
      pushPendingChanges (honest crates account) codec options ticks ⟨pushAll crates .newInMemory calls,[],[],[]⟩
        (runCommands codec key commands s₀) = (l,t,result) →
      NoOverwrite (runCommands codec key commands s₀) l.pushes) ↔
    Clear crates (pushAll crates .newInMemory calls) account (runCommands codec key commands s₀) := by
  obtain ⟨fine,drafted⟩ := drafted_run seals commands novel sound (drafted_start empty (base_of_stored s₀))
  generalize runCommands codec key commands s₀ = s at fine drafted ⊢
  have rep : Represents crates _ _ := reached_represents calls
  generalize acceptedBy crates .newInMemory calls = log at rep
  generalize pushAll crates .newInMemory calls = db at rep ⊢
  have heads : headAt db account = headRevision log account := funext (head_at_eq rep)
  have listing : verdicts (recorded crates db account) log account s.listPendingMutations =
      outcomes (answered (recorded crates db account)) (·.objectId) (·.expectedRevision) (headAt db account)
        (attempts crates db account s) := by
    rw [verdicts,attempts,heads]
  have queued : ∀ x ∈ attempts crates db account s, x ∈ s.mutations.rows := fun x => attempted_queued
  have able : ∀ m ∈ s.listPendingMutations, ready m = true := by
    intro m inside
    simp [ready,drafted.pending m ((mem_pending s m).mp inside)]
  have proper : ∀ m ∈ s.listPendingMutations, Proper crates (requestOf m) :=
    fun m inside => sendable_proper (fine.queue m ((mem_pending s m).mp inside))
  have seen : ∀ m ∈ s.listPendingMutations, (ofMutation log account m.mutationId).map
      (fun e => replays crates m (processedOf crates e)) = recorded crates db account m := by
    intro m inside
    rw [recorded,rep.processed,Option.map_map]
    rfl
  rw [Clear,← settling_iff (attempts_nodup crates db account s) queued (attempts_distinct drafted crates db account)]
  constructor
  · intro harmless
    -- the default push attempts everything that can be reached
    generalize ran : pushPendingChanges (honest crates account) codec .default (fun _ => ⟨"","","",0⟩) ⟨db,[],[],[]⟩ s = done
    obtain ⟨l,t,result⟩ := done
    obtain ⟨ordered,lineage⟩ := harmless _ _ l t result ran
    obtain ⟨more,pushes,follows⟩ := push_follows (l := ⟨db,[],[],[]⟩) false s.listPendingMutations able proper
      (pending_ids_nodup s) rep rfl seen (fun _ => ⟨rfl,listed_start s⟩) ran
    rw [List.nil_append] at pushes
    rw [pushes] at ordered lineage
    rw [listing] at follows
    refine ⟨ordered_clean follows ordered,?_⟩
    intro before y after split p member own low
    obtain ⟨pre,x,post,parts,taken,is,prior⟩ := lineage_split follows split
    obtain ⟨z,inside,done,same⟩ := lineage pre x post parts taken p member (by rw [is]; exact own) (by rw [is]; exact low)
    obtain ⟨q,earlier,equal⟩ := prior z inside done
    have ids : q.mutationId = p.mutationId := congrArg PushRequest.mutationId (equal.symm.trans same)
    have tried : (q,true) ∈ outcomes (answered (recorded crates db account)) (·.objectId) (·.expectedRevision)
        (headAt db account) (attempts crates db account s) := by
      rw [split]
      exact List.mem_append_left _ earlier
    have present : q ∈ s.mutations.rows := by
      apply queued
      have mapped := List.mem_map_of_mem (f := Prod.fst) tried
      rwa [outcomes_items] at mapped
    have equal : q = p := Option.some.inj ((mem_find present ids).symm.trans (mem_iff_find.mp member))
    rwa [equal] at earlier
  · rintro ⟨clean,lineage⟩ options ticks l t result ran
    obtain ⟨more,pushes,follows⟩ := push_follows (l := ⟨db,[],[],[]⟩) true s.listPendingMutations able proper
      (pending_ids_nodup s) rep rfl seen (by simp) ran
    rw [List.nil_append] at pushes
    rw [pushes]
    rw [listing] at follows
    refine ⟨follows_ordered follows clean,?_⟩
    intro pre x post parts taken p member own low
    obtain ⟨before,m,after,split,is,prior⟩ := follows_lineage follows parts taken
    have earlier := lineage before m after split p member (by rw [is] at own; exact own) (by rw [is] at low; exact low)
    exact prior p earlier

-- A note is made and edited, and the answer to a first push of its creation was lost.
def noted : List Command :=
  [.create ⟨firstNote,change1,"t1",0⟩ ⟨"","aaaa",[]⟩,.update ⟨"",change3,"t2",0⟩ firstNote ⟨"","cccc",[]⟩]

def drafts : Storage := runCommands .standIn () noted .new

theorem noted_novel (base : String → Nat) (bottom : base firstNote = 0) : NovelRun .standIn base .standIn () noted .new :=
  ⟨⟨by decide,rfl,fun _ => ⟨rfl,bottom,by decide,by simp [Storage.new,Table.empty]⟩⟩,
    ⟨by decide,rfl,by simp [Command.creates]⟩,True.intro⟩

theorem lost_answer_harmless :
    Clear .standIn (pushAll .standIn .newInMemory created) "alice" drafts ∧ ∀ options ticks l t result,
      pushPendingChanges (honest .standIn "alice") NoteCodec.standIn options ticks ⟨pushAll .standIn .newInMemory created,[],[],[]⟩
        drafts = (l,t,result) → NoOverwrite drafts l.pushes := by
  have tried : attempts .standIn (pushAll .standIn .newInMemory created) "alice" drafts =
      [queued change1 firstNote 0 .pending "aaaa" "t1",queued change3 firstNote 1 .pending "cccc" "t2"] := by decide
  have waiting : drafts.mutations.rows =
      [queued change1 firstNote 0 .pending "aaaa" "t1",queued change3 firstNote 1 .pending "cccc" "t2"] := by decide
  have replayed : answered (recorded .standIn (pushAll .standIn .newInMemory created) "alice")
      (queued change1 firstNote 0 .pending "aaaa" "t1") = true := by decide
  have clear : Clear .standIn (pushAll .standIn .newInMemory created) "alice" drafts := by
    rw [Clear,tried,waiting]
    refine ⟨?_,?_⟩
    · intro x y before _ _
      have pair := before.eq_of_length_le (Nat.le_refl _)
      simp only [List.cons.injEq,and_true] at pair
      exact .inl (pair.1 ▸ replayed)
    · intro y tried _ p member _ lower
      simp only [List.mem_cons,List.not_mem_nil,or_false] at tried member
      rcases tried with rfl | rfl <;> rcases member with rfl | rfl <;> simp [queued] at lower
      exact .refl _
  exact ⟨clear,(overwrite_free_iff .standIn .standIn () "alice" created noted .new stand_in_seals rfl
    ⟨by simp [Storage.new,Table.empty],by simp [Storage.new,Table.empty]⟩ (noted_novel _ rfl)).mpr clear⟩

def verdict (x : Exchange) : Option Bool :=
  match x.answer with
  | .ok _ => some true
  | .error (.conflict _) => some false
  | .error _ => none

theorem verdict_success (success : verdict x = some true) : Taken x := by
  unfold verdict at success
  split at success
  · rename_i resp answer
    exact ⟨resp,answer⟩
  · cases success
  · cases success

theorem verdict_conflict (refused : verdict x = some false) : Conflicted x := by
  unfold verdict at refused
  split at refused
  · cases refused
  · rename_i conflict answer
    exact ⟨conflict,answer⟩
  · cases refused

-- The server is at revision 2: the first edit conflicts, and the second, made on
-- top of the first, replaces revision 2 without having seen it.
theorem second_edit_overwrites :
    let run := pushPendingChanges (honest .standIn "alice") NoteCodec.standIn .default (fun _ => ⟨"t3",change1,change1,0⟩)
      ⟨pushAll .standIn .newInMemory movedOn,[],[],[]⟩ editedTwice
    run.1.pushes.map (fun x => (x.request.mutationId,verdict x)) = [(change3,some false),(change4,some true)] ∧
      ¬NoOverwrite editedTwice run.1.pushes := by
  intro run
  have facts : run.1.pushes.map (fun x => (x.request.mutationId,x.request.objectId,verdict x)) =
      [(change3,firstNote,some false),(change4,firstNote,some true)] := by decide
  refine ⟨by decide,?_⟩
  rintro ⟨ordered,_⟩
  generalize run.1.pushes = pushes at facts ordered
  obtain ⟨x,rest,rfl,first,facts⟩ := List.map_eq_cons_iff.mp facts
  obtain ⟨y,_,rfl,second,_⟩ := List.map_eq_cons_iff.mp facts
  simp only [Prod.mk.injEq] at first second
  have refused : Conflicted x := verdict_conflict first.2.2
  have taken : Taken y := verdict_success second.2.2
  exact (List.pairwise_cons.mp ordered).1 y List.mem_cons_self (first.2.1.trans second.2.1.symm) refused taken

end ZkNote.SilentOverwrite
