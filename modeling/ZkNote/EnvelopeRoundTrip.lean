import ZkNote.ServerPages
import ZkNote.ServerRoutes

namespace ZkNote.EnvelopeRoundTrip
open Protocol KeyedTable ServerStore ServerRoutes ServerHistory ServerPages

variable {crates : Crates}

-- What reaches the sync routes: pushes and pulls of any accounts, in any order.
inductive ServerCall where
  | push (accountId : String) (request : PushRequest)
  | pull (accountId : String) (after : Nat) (limit : Option Nat)
  deriving DecidableEq, Repr

def serve (crates : Crates) (db : ServerDb) : ServerCall → ServerDb
  | .push a request => (pushMutationHandler crates db a request).2
  | .pull a after limit => (pullChangesHandler db a after limit).2

def serveAll (crates : Crates) (db : ServerDb) (calls : List ServerCall) : ServerDb :=
  calls.foldl (serve crates) db

theorem handled_push (passed : rejectPush crates request = none) :
    pushMutationHandler crates db a request =
      (pushReply (pushMutation crates db a request).1,(pushMutation crates db a request).2) := by
  simp only [pushMutationHandler,passed]

theorem serve_represents (rep : Represents crates log db) (call : ServerCall) :
    ∃ more, Represents crates (log ++ more) (serve crates db call) := by
  cases call with
  | pull a after limit => exact ⟨[],(List.append_nil log).symm ▸ represents_ensured rep a⟩
  | push a request =>
      cases refused : rejectPush crates request with
      | some reply => exact ⟨[],by simpa [serve,pushMutationHandler,refused] using rep⟩
      | none =>
          refine ⟨(acceptance crates db a request).toList,?_⟩
          simp only [serve,handled_push refused]
          exact push_represents rep a request

theorem served_represents (rep : Represents crates log db) (calls : List ServerCall) :
    ∃ more, Represents crates (log ++ more) (serveAll crates db calls) := by
  induction calls generalizing db log with
  | nil => exact ⟨[],by simpa [serveAll] using rep⟩
  | cons call rest ih =>
      obtain ⟨first,next⟩ := serve_represents rep call
      obtain ⟨more,last⟩ := ih next
      exact ⟨first ++ more,by simpa [serveAll,List.append_assoc] using last⟩

-- The handler compares the two object ids; the two kinds it does not compare.
theorem passed_object (passed : rejectPush crates request = none) :
    request.envelope.objectId = request.objectId := by
  unfold rejectPush at passed
  split at passed
  · cases passed
  · split at passed
    · cases passed
    · split at passed
      · cases passed
      · rename_i same
        exact not_not.mp same

-- What the server hands out for the head with this sequence: every page that
-- reaches it lists it, and pages and conflicts carry the envelope that was sent.
structure ReturnsIntact (crates : Crates) (db : ServerDb) (a : String) (sent : PushRequest) (seq : Nat) : Prop where
  listed : ∀ after limit, asI64 after < seq → db.objects.rows.length ≤ limit →
    ∃ change ∈ (pullChanges db a after limit).1.changes, change.serverSeq = seq
  pulled : ∀ after limit, ∀ change ∈ (pullChanges db a after limit).1.changes, change.serverSeq = seq →
    change.envelope = sent.envelope
  conflicted : ∀ request conflict, request.objectId = sent.objectId →
    (pushMutation crates db a request).1 = .ok (.conflict conflict) → conflict.currentEnvelope = sent.envelope

theorem change_envelope (e : Acceptance) : (changeOf (headOf e)).envelope =
    ⟨e.request.envelope.envelopeVersion,e.objectId,e.request.objectKind,e.request.envelope.wrappedKey,e.request.envelope.payload⟩ := rfl

theorem conflict_envelope (e : Acceptance) (request : PushRequest) : (conflictWith (headOf e) request).currentEnvelope =
    ⟨e.request.envelope.envelopeVersion,request.objectId,e.request.objectKind,e.request.envelope.wrappedKey,e.request.envelope.payload⟩ := rfl

theorem rebuilt_iff (sent : EncryptedEnvelope) (o : String) (kind : UInt16) :
    (⟨sent.envelopeVersion,o,kind,sent.wrappedKey,sent.payload⟩ : EncryptedEnvelope) = sent ↔
      o = sent.objectId ∧ kind = sent.objectKind := by
  obtain ⟨version,objectId,objectKind,key,payload⟩ := sent
  simp

theorem page_whole_table (db : ServerDb) (a : String) (after limit : Nat) (room : db.objects.rows.length ≤ limit) :
    pageRows db a after limit = rowsAfter db a (asI64 after) := by
  apply List.take_of_length_le
  calc (rowsAfter db a (asI64 after)).length
      = (db.objects.rows.filter (fun r => r.accountId = a ∧ asI64 after < r.serverSeq)).length :=
        (List.perm_insertionSort _ _).length_eq
    _ ≤ db.objects.rows.length := List.length_filter_le _ _
    _ ≤ limit := room

theorem head_listed (present : headOf e ∈ db.objects.rows) (account : e.accountId = a) (before : asI64 after < e.seq)
    (room : db.objects.rows.length ≤ limit) : changeOf (headOf e) ∈ (pullChanges db a after limit).1.changes := by
  rw [pull_changes_eq,page_whole_table db a after limit room]
  exact List.mem_map_of_mem (mem_rowsAfter.mpr ⟨present,account,before⟩)

-- Sequences tell the account's heads apart, so a change with this sequence is this head.
theorem change_is_head (rep : Represents crates log db) (present : headOf e ∈ db.objects.rows) (account : e.accountId = a)
    (change : c ∈ (pullChanges db a after limit).1.changes) (same : c.serverSeq = e.seq) : c = changeOf (headOf e) := by
  rw [pull_changes_eq] at change
  obtain ⟨row,paged,rfl⟩ := List.mem_map.mp change
  obtain ⟨inside,owner,_⟩ := mem_rowsAfter.mp (List.mem_of_mem_take paged)
  rw [head_seq_unique rep inside present (owner.trans account.symm) same]

theorem conflict_is_head (rep : Represents crates log db) (last : (ofObject log a o).getLast? = some e)
    (object : crates.parseUuid request.objectId = .ok o)
    (answered : (pushMutation crates db a request).1 = .ok (.conflict conflict)) :
    conflict = conflictWith (headOf e) request := by
  have ends := push_ends rep a request
  generalize acceptance crates db a request = added at ends
  generalize pushMutation crates db a request = result at ends answered
  cases ends with
  | malformed => cases answered
  | missing => cases answered
  | accepted => cases answered
  | replayed parsed old =>
      unfold replayOutcome at answered
      split at answered
      · cases answered
      · simp only [processedOf] at answered
        split at answered <;> cases answered
  | conflicting parsed fresh held stale =>
      have same := Except.ok.inj (parsed.object.symm.trans object)
      subst same
      cases Option.some.inj (held.symm.trans last)
      cases answered
      rfl

theorem head_intact_iff (rep : Represents crates log db) (last : (ofObject log a o).getLast? = some e)
    (passed : rejectPush crates e.request = none) :
    ReturnsIntact crates db a e.request e.seq ↔
      crates.parseUuid e.request.objectId = .ok e.request.objectId ∧ e.request.objectKind = e.request.envelope.objectKind := by
  obtain ⟨member,account,object⟩ := last_mem last
  have parsed := (rep.parsed e member).object
  have sameId := passed_object passed
  have present : headOf e ∈ db.objects.rows := by
    apply find_mem (k := (a,o))
    rw [rep.head,last]; rfl
  constructor
  · intro intact
    have before : asI64 0 < e.seq := by
      rw [asI64_small (by omega)]
      exact_mod_cast (represented_seq_bound rep member).1
    have given := intact.pulled 0 db.objects.rows.length _ (head_listed present account before (Nat.le_refl _)) rfl
    rw [change_envelope,rebuilt_iff] at given
    exact ⟨by rw [parsed,given.1,sameId],given.2⟩
  · intro fine
    have canonical : e.objectId = e.request.objectId := Except.ok.inj (parsed.symm.trans fine.1)
    refine ⟨?_,?_,?_⟩
    · intro after limit before room
      exact ⟨_,head_listed present account before room,rfl⟩
    · intro after limit change listed same
      rw [change_is_head rep present account listed same,change_envelope,rebuilt_iff]
      exact ⟨canonical.trans sameId.symm,fine.2⟩
    · intro request conflict spelled answered
      have reads : crates.parseUuid request.objectId = .ok o := by rw [spelled,parsed,object]
      rw [conflict_is_head rep last reads answered,conflict_envelope,rebuilt_iff]
      exact ⟨spelled.trans sameId.symm,fine.2⟩

-- `Uuid::parse_str` also reads capital hex digits and prints small ones.
def lowerHex : Char → Char
  | 'A' => 'a'
  | 'B' => 'b'
  | 'C' => 'c'
  | 'D' => 'd'
  | 'E' => 'e'
  | 'F' => 'f'
  | c => c

def lowered (text : String) : String := String.ofList (text.toList.map lowerHex)

theorem lowered_twice (text : String) : lowered (lowered text) = lowered text := by
  have again : ∀ c, lowerHex (lowerHex c) = lowerHex c := by
    intro c
    fun_cases lowerHex c with
    | case7 => unfold lowerHex; split <;> simp_all
    | _ => rfl
  have both : lowerHex ∘ lowerHex = lowerHex := funext again
  simp [lowered,both]

def anySpelling : Crates :=
  {Crates.standIn with
    parseUuid := fun text => if hyphenated (lowered text) then .ok (lowered text) else .error "invalid character"
    canonical := by
      intro text spelling read
      split at read
      · rename_i good
        cases read
        rw [lowered_twice,if_pos good]
      · cases read}

def acceptedAt (crates : Crates) (before : List ServerCall) (a : String) (request : PushRequest) : Option Acceptance :=
  acceptance crates (serveAll crates .newInMemory before) a request

def headSeq (db : ServerDb) (a o : String) : Option Nat := (getEncryptedObject db a o).map (·.serverSeq)

-- The head is this acceptance when the object's row carries its sequence.
theorem accepted_then_head (before later : List ServerCall) (passed : rejectPush crates request = none)
    (accepted : acceptedAt crates before a request = some e)
    (head : headSeq (serveAll crates .newInMemory (before ++ .push a request :: later)) a e.objectId = some e.seq) :
    e.request = request ∧ ∃ log, Represents crates log (serveAll crates .newInMemory (before ++ .push a request :: later)) ∧
      (ofObject log a e.objectId).getLast? = some e := by
  obtain ⟨log,start⟩ := served_represents initial_represents before
  rw [List.nil_append] at start
  have ends := push_ends start a request
  rw [show acceptance crates (serveAll crates .newInMemory before) a request = some e from accepted] at ends
  have shape : e.request = request ∧ e.accountId = a := by
    generalize pushMutation crates (serveAll crates .newInMemory before) a request = result at ends
    cases ends with
    | accepted => exact ⟨rfl,rfl⟩
  refine ⟨shape.1,?_⟩
  have next := push_represents start a request
  rw [show acceptance crates (serveAll crates .newInMemory before) a request = some e from accepted] at next
  obtain ⟨more,final⟩ := served_represents next later
  have folded : serveAll crates .newInMemory (before ++ .push a request :: later) =
      serveAll crates (pushMutation crates (serveAll crates .newInMemory before) a request).2 later := by
    simp only [serveAll,List.foldl_append,List.foldl_cons,serve,handled_push passed]
  rw [folded] at head ⊢
  refine ⟨_,final,?_⟩
  rw [headSeq,getEncryptedObject,final.head,Option.map_map] at head
  obtain ⟨f,last,same⟩ := Option.map_eq_some_iff.mp head
  obtain ⟨inside,owner,_⟩ := last_mem last
  rw [last,acceptance_seq_unique final inside (by simp) (owner.trans shape.2.symm) same]

theorem envelope_intact_iff (before later : List ServerCall) (passed : rejectPush crates request = none)
    (accepted : acceptedAt crates before a request = some e)
    (head : headSeq (serveAll crates .newInMemory (before ++ .push a request :: later)) a e.objectId = some e.seq) :
    ReturnsIntact crates (serveAll crates .newInMemory (before ++ .push a request :: later)) a request e.seq ↔
      crates.parseUuid request.objectId = .ok request.objectId ∧ request.objectKind = request.envelope.objectKind := by
  obtain ⟨rfl,log,rep,last⟩ := accepted_then_head before later passed accepted head
  exact head_intact_iff rep last passed

-- A note written under its canonical id, another account's push, and a stale push that conflicts.
def plainRun : List ServerCall :=
  [.push "bob" (upsertOf change1 firstNote 0 "AAAA"),.push "ann" (upsertOf change2 firstNote 0 "BBBB"),.pull "ann" 0 none]

theorem plain_note_intact : ReturnsIntact Crates.standIn
    (serveAll .standIn .newInMemory ([] ++ .push "ann" (upsertOf change1 firstNote 0 "AAAA") :: plainRun)) "ann"
    (upsertOf change1 firstNote 0 "AAAA") 1 :=
  (envelope_intact_iff [] plainRun (e := ⟨"ann",firstNote,change1,upsertOf change1 firstNote 0 "AAAA",1,1⟩)
    (by decide) (by decide) (by decide)).mpr ⟨by decide,rfl⟩

-- The same note under a capital spelling of its id: admitted, stored under the
-- small one, and pulled with the small one in the envelope.
def capitalNote : String := "00000000-0000-4000-8000-00000000000A"

-- A push whose envelope was sealed for another kind than the request names.
def otherKind : PushRequest := {upsertOf change1 firstNote 0 "AAAA" with objectKind := 2}

theorem envelope_returned_changed :
    (∃ e, rejectPush anySpelling (upsertOf change1 capitalNote 0 "AAAA") = none ∧
      acceptedAt anySpelling [] "ann" (upsertOf change1 capitalNote 0 "AAAA") = some e ∧
      headSeq (serveAll anySpelling .newInMemory [.push "ann" (upsertOf change1 capitalNote 0 "AAAA")]) "ann" e.objectId = some e.seq ∧
      ∃ change ∈ (pullChanges (serveAll anySpelling .newInMemory [.push "ann" (upsertOf change1 capitalNote 0 "AAAA")])
          "ann" 0 1).1.changes,
        change.serverSeq = e.seq ∧ change.envelope ≠ sealedText capitalNote "AAAA") ∧
    ∃ e, rejectPush Crates.standIn otherKind = none ∧ acceptedAt Crates.standIn [] "ann" otherKind = some e ∧
      headSeq (serveAll .standIn .newInMemory [.push "ann" otherKind]) "ann" e.objectId = some e.seq ∧
      ∃ change ∈ (pullChanges (serveAll .standIn .newInMemory [.push "ann" otherKind]) "ann" 0 1).1.changes,
        change.serverSeq = e.seq ∧ change.envelope ≠ otherKind.envelope := by
  refine ⟨⟨⟨"ann",firstNote,change1,upsertOf change1 capitalNote 0 "AAAA",1,1⟩,by decide,by decide,by decide,?_⟩,
    ⟨⟨"ann",firstNote,change1,otherKind,1,1⟩,by decide,by decide,by decide,?_⟩⟩ <;> decide

end ZkNote.EnvelopeRoundTrip
