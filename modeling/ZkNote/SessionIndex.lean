import ZkNote.NoteMerge
import ZkNote.PullChanges

namespace ZkNote.SessionIndex
open Fallible Protocol Adapter KeyedTable LocalStorage PlaintextNotes NoteMerge PullChanges

structure IndexedNote where
  id : String
  title : String
  tags : List String
  body : String
  updatedAt : String
  deriving DecidableEq, Repr

-- `insert` and `remove` keep one entry an id; the entries stay in the order of
-- their last insertion.
abbrev InMemorySearchIndex := Table String IndexedNote (·.id)

def indexed (id : String) (note : PlaintextNote) : IndexedNote := ⟨id,note.title,note.tags,note.body,note.updatedAt⟩

namespace InMemorySearchIndex

def remove (index : InMemorySearchIndex) (id : String) : InMemorySearchIndex := index.delete (fun e => e.id = id)

def insert (index : InMemorySearchIndex) (id : String) (note : PlaintextNote) : InMemorySearchIndex :=
  (remove index id).upsert (indexed id note)

theorem find_remove (index : InMemorySearchIndex) (id other : String) :
    (remove index id).find other = if id = other then none else index.find other := by
  rw [remove,find_delete]
  cases found : index.find other with
  | none => simp
  | some e =>
      have own : e.id = other := find_key found
      by_cases same : id = other
      · simp [Option.filter,own,same]
      · simp [Option.filter,own,same,Ne.symm same]

theorem find_insert (index : InMemorySearchIndex) (id : String) (note : PlaintextNote) (other : String) :
    (insert index id note).find other = if id = other then some (indexed id note) else index.find other := by
  rw [insert,find_upsert,find_remove]
  by_cases same : id = other
  · simp [indexed,same]
  · simp [indexed,same]

end InMemorySearchIndex

structure VaultSession (Key : Type) where
  activeKey : Option Key
  searchIndex : Option InMemorySearchIndex

def VaultSession.unlock {Key : Type} (key : Key) : VaultSession Key := ⟨some key,some .empty⟩

def vaultLocked : String := "vault is locked (unlock required)"

variable {World Key : Type}

def indexItem (index : InMemorySearchIndex) (item : DecryptedPullItem PlaintextNote) : InMemorySearchIndex :=
  if item.isDeleted then index.remove item.objectId
  else match item.note with
    | some note => index.insert item.objectId note
    | none => index

-- An error of the pull leaves the index as it was, the storage not.
def pullWithSession (adapter : SyncServerAdapter World) (codec : NoteCodec Key PlaintextNote) (session : VaultSession Key)
    (options : PullOptions) (clock : Nat → String) (fuel : Nat) (w : World) (s : Storage) :
    Option (World × Storage × VaultSession Key × Except PullError (PullReport PlaintextNote)) :=
  match pullRemoteChanges adapter codec session.activeKey options clock fuel w s with
  | none => none
  | some (w,s,.error e) => some (w,s,session,.error e)
  | some (w,s,.ok report) =>
    let session := if session.activeKey.isSome then
        {session with searchIndex := session.searchIndex.map (fun index => report.decryptedItems.foldl indexItem index)}
      else session
    some (w,s,session,.ok report)

def pullItem (o : StoredEncryptedObject) (note : Option PlaintextNote) : DecryptedPullItem PlaintextNote :=
  ⟨o.objectId,o.revision,o.serverSeq,o.isDeleted,note⟩

-- The loop works on the session's index as it goes, so what it did before an
-- object that does not open stays.
def decryptObjects (codec : NoteCodec Key PlaintextNote) (key : Key) :
    List StoredEncryptedObject → Option InMemorySearchIndex →
      Option InMemorySearchIndex × Except PullError (List (DecryptedPullItem PlaintextNote))
  | [],index => (index,.ok [])
  | o :: rest,index =>
    if o.isDeleted then
      let (index,items) := decryptObjects codec key rest (index.map (·.remove o.objectId))
      (index,items.map (pullItem o none :: ·))
    else match codec.decrypt o.envelope key with
      | .error e => (index,.error (.core e))
      | .ok note =>
        let (index,items) := decryptObjects codec key rest (index.map (·.insert o.objectId note))
        (index,items.map (pullItem o (some note) :: ·))

def decryptStoredObjectsOnUnlock (codec : NoteCodec Key PlaintextNote) (s : Storage) (session : VaultSession Key) :
    VaultSession Key × Except PullError (List (DecryptedPullItem PlaintextNote)) :=
  match session.activeKey with
  | none => (session,.error (.core vaultLocked))
  | some key =>
    let (index,items) := decryptObjects codec key (s.listObjects .all) session.searchIndex
    ({session with searchIndex := index},items)

variable {codec : NoteCodec Key PlaintextNote} {key : Key}

def asChange (o : StoredEncryptedObject) : ObjectChange :=
  ⟨o.serverSeq,o.objectId,o.revision,o.objectKind,o.isDeleted,o.envelope⟩

-- Both functions open a list of changes and file what they opened.
theorem decrypt_objects_items (objects : List StoredEncryptedObject) (index : InMemorySearchIndex) :
    (decryptObjects codec key objects (some index)).2 = decryptItems codec key (objects.map asChange) ∧
    ∀ items, decryptItems codec key (objects.map asChange) = .ok items →
      (decryptObjects codec key objects (some index)).1 = some (items.foldl indexItem index) := by
  induction objects generalizing index with
  | nil =>
      refine ⟨rfl,?_⟩
      intro items done
      cases done
      rfl
  | cons o rest ih =>
      rw [decryptObjects,List.map_cons,decryptItems]
      by_cases gone : o.isDeleted = true
      · obtain ⟨same,after⟩ := ih (index.remove o.objectId)
        rw [if_pos gone,if_pos (show (asChange o).isDeleted = true from gone)]
        simp only [Option.map_some,same]
        cases opened : decryptItems codec key (rest.map asChange) with
        | error e => exact ⟨rfl,fun items done => by cases done⟩
        | ok more =>
            refine ⟨by rw [← gone]; rfl,?_⟩
            intro items done
            cases done
            exact after more opened
      · rw [if_neg gone,if_neg (show ¬(asChange o).isDeleted = true from gone)]
        have live : o.isDeleted = false := by simpa using gone
        cases decrypted : codec.decrypt o.envelope key with
        | error e =>
            rw [show codec.decrypt (asChange o).envelope key = .error e from decrypted]
            exact ⟨rfl,fun items done => by cases done⟩
        | ok note =>
            rw [show codec.decrypt (asChange o).envelope key = .ok note from decrypted]
            obtain ⟨same,after⟩ := ih (index.insert o.objectId note)
            simp only [Option.map_some,same]
            cases opened : decryptItems codec key (rest.map asChange) with
            | error e => exact ⟨rfl,fun items done => by cases done⟩
            | ok more =>
                refine ⟨by rw [← live]; rfl,?_⟩
                intro items done
                cases done
                exact after more opened

-- What a change leaves of its object in the index: nothing of a deleted one.
def fileOf (codec : NoteCodec Key PlaintextNote) (key : Key) (change : ObjectChange) : Option IndexedNote :=
  if change.isDeleted then none
  else match codec.decrypt change.envelope key with
    | .error _ => none
    | .ok note => some (indexed change.objectId note)

-- Changes open exactly when the live ones do.
theorem items_iff (changes : List ObjectChange) :
    (∃ items, decryptItems codec key changes = .ok items) ↔
      ∀ change ∈ changes, change.isDeleted = false → ∃ note, codec.decrypt change.envelope key = .ok note := by
  induction changes with
  | nil => simp [decryptItems]
  | cons change rest ih =>
      rw [List.forall_mem_cons,← ih,decryptItems]
      by_cases gone : change.isDeleted = true
      · rw [if_pos gone]
        cases opened : decryptItems codec key rest with
        | error e => simp [bind,Except.bind]
        | ok more => simp [gone,bind,Except.bind,pure,Except.pure]
      · rw [if_neg gone]
        have live : change.isDeleted = false := by simpa using gone
        cases decrypted : codec.decrypt change.envelope key with
        | error e => simp [live]
        | ok note =>
            cases opened : decryptItems codec key rest with
            | error e => simp [bind,Except.bind]
            | ok more => simp [bind,Except.bind,pure,Except.pure]

-- The first change's item, and what filing it does to the index.
theorem first_item (opened : decryptItems codec key (change :: rest) = .ok items) :
    ∃ item more, items = item :: more ∧ decryptItems codec key rest = .ok more ∧
      ∀ index other, (indexItem index item).find other = if change.objectId = other then fileOf codec key change else index.find other := by
  rw [decryptItems] at opened
  by_cases gone : change.isDeleted = true
  · rw [if_pos gone] at opened
    obtain ⟨more,others,opened⟩ := bind_done opened
    cases opened
    refine ⟨_,more,rfl,others,?_⟩
    intro index other
    simp [indexItem,fileOf,gone,InMemorySearchIndex.find_remove]
  · rw [if_neg gone] at opened
    cases decrypted : codec.decrypt change.envelope key with
    | error e =>
        rw [decrypted] at opened
        cases opened
    | ok note =>
        rw [decrypted] at opened
        obtain ⟨more,others,opened⟩ := bind_done opened
        cases opened
        refine ⟨_,more,rfl,others,?_⟩
        intro index other
        simp [indexItem,fileOf,gone,decrypted,InMemorySearchIndex.find_insert]

-- Filing changes of distinct objects: each object of the list ends as its change
-- says and the others stay.
theorem items_filed (changes : List ObjectChange) (distinct : (changes.map (·.objectId)).Nodup)
    (opened : decryptItems codec key changes = .ok items) (index : InMemorySearchIndex) (id : String) :
    (∀ change ∈ changes, change.objectId = id → (items.foldl indexItem index).find id = fileOf codec key change) ∧
    ((∀ change ∈ changes, change.objectId ≠ id) → (items.foldl indexItem index).find id = index.find id) := by
  induction changes generalizing items index with
  | nil =>
      cases opened
      exact ⟨by simp,fun _ => rfl⟩
  | cons change rest ih =>
      obtain ⟨fresh,later⟩ := List.nodup_cons.mp distinct
      obtain ⟨item,more,rfl,others,filed⟩ := first_item opened
      obtain ⟨own,untouched⟩ := ih later others (indexItem index item)
      rw [List.foldl_cons]
      constructor
      · intro other inside same
        rcases List.mem_cons.mp inside with rfl | member
        · have alone : ∀ x ∈ rest, x.objectId ≠ id := by
            intro x member equal
            exact fresh (List.mem_map.mpr ⟨x,member,equal.trans same.symm⟩)
          rw [untouched alone,filed,if_pos same]
        · exact own other member same
      · intro none
        rw [untouched (fun x member => none x (List.mem_cons_of_mem _ member)),filed,if_neg (none change List.mem_cons_self)]

end ZkNote.SessionIndex
