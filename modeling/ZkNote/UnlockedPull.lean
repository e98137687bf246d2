import ZkNote.PullRules
import ZkNote.SessionIndex
import ZkNote.LocalEdits

namespace ZkNote.UnlockedPull
open Protocol Adapter KeyedTable ServerStore ServerHistory ServerPages SyncLink PullRules LocalStorage PullChanges
open PlaintextNotes NoteMerge SessionIndex LocalEdits

variable {Key : Type} {crates : NoteCrates Key} {key : Key} {s t : Storage} {change : ObjectChange}

-- The objects of an honest account: notes and manifests sealed under the vault
-- key, each in an envelope of its own kind, and tombstones.
inductive Sound (crates : NoteCrates Key) (key : Key) (change : ObjectChange) : Prop where
  | note {content : PlaintextNote} (live : change.isDeleted = false) (kind : change.objectKind = objectKindNote)
      (opens : PlaintextNote.decrypt crates change.envelope key = .ok content)
  | manifest (live : change.isDeleted = false) (kind : change.objectKind = objectKindAttachmentManifest)
      (sealed : change.envelope.objectKind = objectKindAttachmentManifest)
  | tombstone (gone : change.isDeleted = true)

def LiveManifest (change : ObjectChange) : Prop :=
  change.isDeleted = false ∧ change.objectKind = objectKindAttachmentManifest

-- What belongs in the index for a stored object.
def currentNote (crates : NoteCrates Key) (key : Key) (o : StoredEncryptedObject) : Option IndexedNote :=
  if o.isDeleted ∨ o.objectKind ≠ objectKindNote then none
  else (PlaintextNote.decrypt crates o.envelope key).toOption.map (indexed o.objectId)

-- An unlocked session whose index holds the stored notes, no more and no less.
def Mirrors (crates : NoteCrates Key) (key : Key) (s : Storage) (session : VaultSession Key) : Prop :=
  session.activeKey = some key ∧
    ∃ index, session.searchIndex = some index ∧ ∀ id, index.find id = (s.getObject id).bind (currentNote crates key)

-- Both functions do what they are for, in either order after an unlock.
structure HandlesEveryKind (server : Crates) (account : String) (crates : NoteCrates Key) (key : Key) (l : Link) (s : Storage) :
    Prop where
  unlocks : ∀ now, ∃ session items, decryptStoredObjectsOnUnlock (noteCodec crates now) s (.unlock key) = (session,.ok items) ∧
    Mirrors crates key s session
  pulls : ∀ now options clock session, Mirrors crates key s session → ∃ fuel l' t session' report,
    pullWithSession (honest server account) (noteCodec crates now) session options clock fuel l s =
      some (l',t,session',.ok report) ∧ Mirrors crates key t session'
  pullsFirst : ∀ now options clock, ∃ fuel l' t session report session' items,
    pullWithSession (honest server account) (noteCodec crates now) (.unlock key) options clock fuel l s =
      some (l',t,session,.ok report) ∧
    decryptStoredObjectsOnUnlock (noteCodec crates now) t session = (session',.ok items) ∧ Mirrors crates key t session'

theorem decrypt_kind (other : envelope.objectKind ≠ objectKindNote) :
    ∃ e, PlaintextNote.decrypt crates envelope key = .error e := by
  unfold PlaintextNote.decrypt
  split <;> exact ⟨_,rfl⟩

theorem kinds_apart : objectKindAttachmentManifest ≠ objectKindNote := by decide

-- Of sound objects the live ones open but for the manifests.
theorem sound_opens (sound : Sound crates key change) (now : String) :
    (change.isDeleted = false → ∃ note, (noteCodec crates now).decrypt change.envelope key = .ok note) ↔ ¬LiveManifest change := by
  cases sound with
  | note live kind opens =>
      constructor
      · rintro _ ⟨_,manifest⟩
        exact kinds_apart (manifest.symm.trans kind)
      · intro _ _
        exact ⟨_,codec_decrypted opens now⟩
  | manifest live kind sealed =>
      constructor
      · intro opens _
        obtain ⟨note,opened⟩ := opens live
        obtain ⟨e,refused⟩ := @decrypt_kind _ crates key change.envelope (by rw [sealed]; exact kinds_apart)
        simp [noteCodec,refused,Except.mapError] at opened
      · intro none
        exact absurd ⟨live,kind⟩ none
  | tombstone gone =>
      constructor
      · rintro _ ⟨live,_⟩
        rw [gone] at live
        cases live
      · intro _ live
        rw [gone] at live
        cases live

theorem sound_filed (sound : Sound crates key (asChange o)) (plain : ¬LiveManifest (asChange o)) (now : String) :
    fileOf (noteCodec crates now) key (asChange o) = currentNote crates key o := by
  cases sound with
  | note live kind opens =>
      have live : o.isDeleted = false := live
      have kind : o.objectKind = objectKindNote := kind
      have opens : PlaintextNote.decrypt crates o.envelope key = .ok _ := opens
      simp [fileOf,asChange,currentNote,live,kind,opens,codec_decrypted opens now,Except.toOption]
  | manifest live kind sealed => exact absurd ⟨live,kind⟩ plain
  | tombstone gone =>
      have gone : o.isDeleted = true := gone
      simp [fileOf,asChange,currentNote,gone]

theorem mem_all (s : Storage) (o : StoredEncryptedObject) : o ∈ s.listObjects .all ↔ o ∈ s.objects.rows := by
  rw [Storage.listObjects,(List.perm_insertionSort _ _).mem_iff]
  simp [ObjectFilter.all]

theorem all_distinct (s : Storage) : (((s.listObjects .all).map asChange).map (·.objectId)).Nodup := by
  have listed := ((List.perm_insertionSort (fun a b : StoredEncryptedObject => a.objectId ≤ b.objectId)
    (s.objects.rows.filter (fun o => (ObjectFilter.all.includeDeleted || !o.isDeleted) &&
      (ObjectFilter.all.kind.all (· == o.objectKind))))).map (·.objectId)).nodup_iff
  rw [List.map_map]
  exact listed.mpr (s.objects.unique.sublist (List.filter_sublist.map _))

-- Unlocking over stored objects that open: the index has them as they are stored
-- and keeps what it had of others.
theorem unlock_files (codec : NoteCodec Key PlaintextNote) (s : Storage) (index : InMemorySearchIndex)
    (opened : decryptItems codec key ((s.listObjects .all).map asChange) = .ok items) :
    ∃ after, decryptStoredObjectsOnUnlock codec s ⟨some key,some index⟩ = (⟨some key,some after⟩,.ok items) ∧
      ∀ id, after.find id = match s.getObject id with
        | some o => fileOf codec key (asChange o)
        | none => index.find id := by
  obtain ⟨same,filed⟩ := @decrypt_objects_items _ codec key (s.listObjects .all) index
  refine ⟨items.foldl indexItem index,?_,?_⟩
  · simp only [decryptStoredObjectsOnUnlock]
    rw [filed items opened,same,opened]
  · intro id
    obtain ⟨own,others⟩ := items_filed _ (all_distinct s) opened index id
    cases found : s.getObject id with
    | some o =>
        have member : o ∈ s.listObjects .all := (mem_all s o).mpr (find_mem found)
        have named : o.objectId = id := find_key found
        exact own (asChange o) (List.mem_map_of_mem member) named
    | none =>
        refine others ?_
        intro change inside same
        obtain ⟨o,member,rfl⟩ := List.mem_map.mp inside
        have present := mem_find ((mem_all s o).mp member) same
        rw [show s.objects.find id = none from found] at present
        cases present

theorem stored_items_iff (stored : ∀ o ∈ s.objects.rows, Sound crates key (asChange o)) (now : String) :
    (∃ items, decryptItems (noteCodec crates now) key ((s.listObjects .all).map asChange) = .ok items) ↔
      ∀ o ∈ s.objects.rows, ¬LiveManifest (asChange o) := by
  rw [items_iff]
  simp only [List.forall_mem_map]
  constructor
  · intro opens o member
    exact (sound_opens (stored o member) now).mp (opens o ((mem_all s o).mpr member))
  · intro plain o member
    have row := (mem_all s o).mp member
    exact (sound_opens (stored o row) now).mpr (plain o row)

-- Over sound objects without live manifests an unlock makes the index a mirror
-- of the store, whatever it held of stored objects before.
theorem unlock_mirrors (stored : ∀ o ∈ s.objects.rows, Sound crates key (asChange o))
    (plain : ∀ o ∈ s.objects.rows, ¬LiveManifest (asChange o)) (index : InMemorySearchIndex)
    (within : ∀ id, s.getObject id = none → index.find id = none) (now : String) :
    ∃ session items, decryptStoredObjectsOnUnlock (noteCodec crates now) s ⟨some key,some index⟩ = (session,.ok items) ∧
      Mirrors crates key s session := by
  obtain ⟨items,opened⟩ := (stored_items_iff stored now).mpr plain
  obtain ⟨after,done,filed⟩ := unlock_files (noteCodec crates now) s index opened
  refine ⟨_,_,done,rfl,after,rfl,?_⟩
  intro id
  rw [filed id]
  cases found : s.getObject id with
  | none => exact within id found
  | some o => exact sound_filed (stored o (find_mem found)) (plain o (find_mem found)) now

-- The rows a pull has taken in so far, and what it did to the store with them.
structure Pulled (account : String) (db : ServerDb) (s : Storage) (p : Progress) : Prop where
  served : ∀ c ∈ p.applied, ∃ r ∈ db.objects.rows, r.accountId = account ∧ currentCursor s < r.serverSeq ∧
    r.serverSeq ≤ p.currentSeq ∧ c = changeOf r
  whole : ∀ r ∈ db.objects.rows, r.accountId = account → currentCursor s < r.serverSeq → r.serverSeq ≤ p.currentSeq →
    changeOf r ∈ p.applied
  distinct : (p.applied.map (·.objectId)).Nodup
  onward : currentCursor s ≤ p.currentSeq
  held : ∀ id, (∃ c ∈ p.applied, c.objectId = id ∧ ∃ now, p.storage.getObject id = some (storedOf c now)) ∨
    (∀ c ∈ p.applied, c.objectId ≠ id) ∧ p.storage.getObject id = s.getObject id

theorem pulled_start (account : String) (db : ServerDb) (s : Storage) : Pulled account db s (startPull s) := by
  refine ⟨by simp [startPull],?_,.nil,Nat.le_refl _,fun id => .inr ⟨by simp [startPull],rfl⟩⟩
  intro r _ _ above below
  exact absurd below (Nat.not_le.mpr above)

theorem pulled_next (pulled : Pulled account db s p) (head : NextHead account db p.currentSeq r) (clock : Nat → String) :
    Pulled account db s (taken clock p r) := by
  have fresh : ∀ c ∈ p.applied, c.objectId ≠ r.objectId := by
    intro c inside same
    obtain ⟨q,member,own,_,below,rfl⟩ := pulled.served c inside
    have key : (fun x : EncryptedObjectRow => (x.accountId,x.objectId)) q = (r.accountId,r.objectId) := by
      simp only [Prod.mk.injEq]
      exact ⟨own.trans head.own.symm,same⟩
    have one := mem_find member key
    rw [mem_find head.member rfl] at one
    cases one
    exact absurd below (Nat.not_le.mpr head.above)
  refine ⟨?_,?_,?_,?_,?_⟩
  · intro c inside
    rcases List.mem_append.mp inside with old | new
    · obtain ⟨q,member,own,above,below,same⟩ := pulled.served c old
      exact ⟨q,member,own,above,Nat.le_trans below (Nat.le_of_lt head.above),same⟩
    · rw [List.mem_singleton.mp new]
      exact ⟨r,head.member,head.own,Nat.lt_of_le_of_lt pulled.onward head.above,Nat.le_refl _,rfl⟩
  · intro q member own above below
    by_cases old : q.serverSeq ≤ p.currentSeq
    · exact List.mem_append_left _ (pulled.whole q member own above old)
    · rw [head.next q member own (Nat.lt_of_not_le old) below]
      exact List.mem_append_right _ List.mem_cons_self
  · simp only [taken,List.map_append,List.map_cons,List.map_nil]
    refine List.nodup_append.mpr ⟨pulled.distinct,List.nodup_singleton _,?_⟩
    intro id old other new
    obtain ⟨c,inside,rfl⟩ := List.mem_map.mp old
    rw [List.mem_singleton.mp new]
    exact fresh c inside
  · exact Nat.le_trans pulled.onward (Nat.le_of_lt head.above)
  · intro id
    have found : (taken clock p r).storage.getObject id =
        if r.objectId = id then some (storedOf (changeOf r) (clock p.applied.length)) else p.storage.getObject id :=
      find_upsert ..
    by_cases own : r.objectId = id
    · left
      rw [if_pos own] at found
      exact ⟨changeOf r,List.mem_append_right _ List.mem_cons_self,own,_,found⟩
    · rw [if_neg own] at found
      rw [found]
      rcases pulled.held id with ⟨c,inside,same,now,there⟩ | ⟨none,there⟩
      · exact .inl ⟨c,List.mem_append_left _ inside,same,now,there⟩
      · refine .inr ⟨?_,there⟩
        intro c inside
        rcases List.mem_append.mp inside with old | new
        · exact none c old
        · rw [List.mem_singleton.mp new]
          exact own

-- Nobody else writes to the account during the pull.
theorem pulled_keeps (server : Crates) (account : String) (clock : Nat → String) (s : Storage) (rows : List EncryptedObjectRow) :
    PullKeeps server account clock (fun slot => slot.others = [])
      (fun _ db p => db.objects.rows = rows ∧ Pulled account db s p) := by
  refine ⟨?_,?_,?_,?_⟩
  · intro log db p r _ kept head
    exact ⟨kept.1,pulled_next kept.2 head clock⟩
  · intro log db p slot _ alone kept
    rw [alone]
    exact kept
  · rintro log db p ⟨same,served,whole,distinct,onward,held⟩
    refine ⟨by simpa using same,?_,?_,distinct,onward,held⟩
    · simpa using served
    · simpa using whole
  · intro log db p n kept
    exact ⟨kept.1,kept.2.served,kept.2.whole,kept.2.distinct,kept.2.onward,kept.2.held⟩

-- A pull with a session that succeeds: its loop ended, its changes opened, and
-- the index was brought up to date with them.
theorem session_pull_iff {adapter : SyncServerAdapter World} {codec : NoteCodec Key PlaintextNote} {w : World} (index : InMemorySearchIndex) :
    (∃ report, pullWithSession adapter codec ⟨some key,some index⟩ options clock fuel w s = some (w',t,session,.ok report)) ↔
      ∃ p items, pullLoop adapter options clock fuel w (startPull s) = some (w',p,.ok ()) ∧
        decryptItems codec key p.applied = .ok items ∧ t = recordSyncSuccess p.storage (clock p.applied.length) ∧
        session = ⟨some key,some (items.foldl indexItem index)⟩ := by
  unfold pullWithSession pullRemoteChanges
  cases looped : pullLoop adapter options clock fuel w (startPull s) with
  | none => simp
  | some out =>
      obtain ⟨w₁,p,ended⟩ := out
      cases ended with
      | error e => simp
      | ok _ =>
          cases opened : decryptItems codec key p.applied with
          | error e =>
              simp only [Except.map,opened]
              constructor
              · rintro ⟨_,done⟩
                cases done
              · rintro ⟨q,items,same,other,_⟩
                cases same
                rw [opened] at other
                cases other
          | ok items =>
              simp only [Except.map,opened,Option.isSome_some,if_true,Option.map_some]
              constructor
              · rintro ⟨report,done⟩
                cases done
                exact ⟨p,items,rfl,opened,rfl,rfl⟩
              · rintro ⟨q,others,same,other,rfl,rfl⟩
                cases same
                rw [opened] at other
                cases other
                exact ⟨_,rfl⟩

variable {server : Crates} {account : String} {log : List Acceptance} {l l' : Link}

-- What an honest server's rows make of a pull's applied changes.
theorem applied_sound (served : ∀ r ∈ db.objects.rows, r.accountId = account → Sound crates key (changeOf r))
    (pulled : Pulled account db s p) : ∀ c ∈ p.applied, Sound crates key c := by
  intro c inside
  obtain ⟨r,member,own,_,_,rfl⟩ := pulled.served c inside
  exact served r member own

-- After a pull the store holds sound objects, live manifests only where there
-- were some before or among the rows.
theorem pulled_stored (pulled : Pulled account db s p) {Fine : ObjectChange → Prop}
    (served : ∀ c ∈ p.applied, Fine c) (stored : ∀ o ∈ s.objects.rows, Fine (asChange o))
    (same : t.objects = p.storage.objects) : ∀ o ∈ t.objects.rows, Fine (asChange o) := by
  intro o member
  have found : p.storage.getObject o.objectId = some o := by
    rw [same] at member
    exact mem_find member rfl
  rcases pulled.held o.objectId with ⟨c,inside,_,now,there⟩ | ⟨_,there⟩
  · rw [found] at there
    cases there
    exact served c inside
  · rw [found] at there
    exact stored o (find_mem there.symm)

theorem pulled_mirrors (pulled : Pulled account db s p) (sound : ∀ c ∈ p.applied, Sound crates key c)
    (plain : ∀ c ∈ p.applied, ¬LiveManifest c) {now : String}
    (opened : decryptItems (noteCodec crates now) key p.applied = .ok items) {index : InMemorySearchIndex}
    (mirrored : ∀ id, index.find id = (s.getObject id).bind (currentNote crates key)) (same : t.objects = p.storage.objects) (id : String) :
    (items.foldl indexItem index).find id = (t.getObject id).bind (currentNote crates key) := by
  obtain ⟨own,others⟩ := items_filed p.applied pulled.distinct opened index id
  have stored : t.getObject id = p.storage.getObject id := by rw [Storage.getObject,same]; rfl
  rcases pulled.held id with ⟨c,inside,named,later,there⟩ | ⟨none,there⟩
  · rw [own c inside named,stored,there]
    exact sound_filed (o := storedOf c later) (sound c inside) (plain c inside) now
  · rw [others none,mirrored id,stored,there]

-- Where an honest quiet server leaves a pull loop.
theorem loop_pulled (rep : Represents server log l.db) (quiet : l.schedule = [])
    (looped : pullLoop (honest server account) options clock fuel l (startPull s) = some (l',p,.ok ())) :
    ∃ db, db.objects.rows = l.db.objects.rows ∧ Pulled account db s p ∧
      (options.maxPages = none → Covered account db p.currentSeq) := by
  have kept := pull_loop_keeps (pulled_keeps server account clock s l.db.objects.rows) rfl fuel rep
    (by simp [quiet]) rfl ⟨rfl,pulled_start account l.db s⟩ looped
  obtain ⟨⟨⟨_,_,same,pulled⟩,_,_⟩,_,covered⟩ := kept
  exact ⟨l'.db,same,pulled,covered rfl⟩

-- No live manifest in the store, nor among the rows a pull has still to take.
structure Plain (account : String) (l : Link) (s : Storage) : Prop where
  stored : ∀ o ∈ s.objects.rows, ¬LiveManifest (asChange o)
  served : ∀ r ∈ l.db.objects.rows, r.accountId = account → currentCursor s < r.serverSeq → ¬LiveManifest (changeOf r)

-- The honest setting: a server that stands for a history of accepted pushes, a
-- quiet network, numbers that fit its columns, and sound objects on both sides.
structure Setting (server : Crates) (account : String) (crates : NoteCrates Key) (key : Key) (log : List Acceptance) (l : Link)
    (s : Storage) : Prop where
  rep : Represents server log l.db
  quiet : l.schedule = []
  cursor : currentCursor s < 2^63
  small : (ofAccount log account).length < 2^63
  served : ∀ r ∈ l.db.objects.rows, r.accountId = account → Sound crates key (changeOf r)
  stored : ∀ o ∈ s.objects.rows, Sound crates key (asChange o)

variable {now : String} {options : PullOptions} {clock : Nat → String}

-- With nothing but notes and tombstones to take, a pull succeeds.
theorem plain_pull (setting : Setting server account crates key log l s) (plain : Plain account l s) (now : String)
    (options : PullOptions) (clock : Nat → String) (index : InMemorySearchIndex) :
    ∃ db p items fuel l' report, Pulled account db s p ∧ (∀ c ∈ p.applied, Sound crates key c) ∧
      (∀ c ∈ p.applied, ¬LiveManifest c) ∧ decryptItems (noteCodec crates now) key p.applied = .ok items ∧
      pullWithSession (honest server account) (noteCodec crates now) ⟨some key,some index⟩ options clock fuel l s =
        some (l',recordSyncSuccess p.storage (clock p.applied.length),⟨some key,some (items.foldl indexItem index)⟩,.ok report) := by
  obtain ⟨l',p,looped⟩ := quiet_loop_returns (p := startPull s) clock options ((ofAccount log account).length+1)
    setting.rep setting.quiet rfl setting.cursor setting.small (by omega) (by omega)
  obtain ⟨db,same,pulled,_⟩ := loop_pulled setting.rep setting.quiet looped
  have sound := applied_sound (by rw [same]; exact setting.served) pulled
  have clear : ∀ c ∈ p.applied, ¬LiveManifest c := by
    intro c inside
    obtain ⟨r,member,own,above,_,rfl⟩ := pulled.served c inside
    rw [same] at member
    exact plain.served r member own above
  obtain ⟨items,opened⟩ := (@items_iff _ (noteCodec crates now) key p.applied).mpr
    (fun c inside => (sound_opens (sound c inside) now).mpr (clear c inside))
  obtain ⟨report,done⟩ := (session_pull_iff index).mpr ⟨p,items,looped,opened,rfl,rfl⟩
  exact ⟨db,p,items,_,l',report,pulled,sound,clear,opened,done⟩

-- A pull to the end that succeeds met no live manifest.
theorem pull_met_none (setting : Setting server account crates key log l s) {index : InMemorySearchIndex}
    (unlimited : options.maxPages = none)
    (ran : pullWithSession (honest server account) (noteCodec crates now) ⟨some key,some index⟩ options clock fuel l s =
      some (l',t,session,.ok report)) :
    ∀ r ∈ l.db.objects.rows, r.accountId = account → currentCursor s < r.serverSeq → ¬LiveManifest (changeOf r) := by
  obtain ⟨p,items,looped,opened,_,_⟩ := (session_pull_iff index).mp ⟨report,ran⟩
  obtain ⟨db,same,pulled,covered⟩ := loop_pulled setting.rep setting.quiet looped
  intro r member own above
  rw [← same] at member
  have inside := pulled.whole r member own above (covered unlimited r member own)
  have opens := (items_iff p.applied).mp ⟨items,opened⟩ (changeOf r) inside
  rw [same] at member
  exact (sound_opens (setting.served r member own) now).mp opens

-- The property fails with any live manifest in its way.
theorem handles_plain (setting : Setting server account crates key log l s)
    (handles : HandlesEveryKind server account crates key l s) : Plain account l s := by
  obtain ⟨session,items,unlocked,mirrors⟩ := handles.unlocks ""
  obtain ⟨active,index,held,mirrored⟩ := id mirrors
  refine ⟨?_,?_⟩
  · refine (stored_items_iff setting.stored "").mp ⟨items,?_⟩
    have result := congrArg Prod.snd unlocked
    simp only [decryptStoredObjectsOnUnlock,VaultSession.unlock] at result
    rw [← (decrypt_objects_items (s.listObjects .all) .empty).1]
    exact result
  · obtain ⟨fuel,l',t,session',report,ran,_⟩ := handles.pulls "" .default (fun _ => "") session mirrors
    obtain rfl : session = ⟨some key,some index⟩ := by
      cases session
      simp_all
    exact pull_met_none setting rfl ran

-- Notes and tombstones are handled in every mix and order; one live manifest in
-- the store or ahead of the cursor makes the one or the other call fail.
theorem handles_every_kind_iff (setting : Setting server account crates key log l s) :
    HandlesEveryKind server account crates key l s ↔
      (∀ o ∈ s.objects.rows, ¬LiveManifest (asChange o)) ∧
      ∀ r ∈ l.db.objects.rows, r.accountId = account → currentCursor s < r.serverSeq → ¬LiveManifest (changeOf r) := by
  constructor
  · intro handles
    obtain ⟨stored,served⟩ := handles_plain setting handles
    exact ⟨stored,served⟩
  · rintro ⟨stored,served⟩
    refine ⟨?_,?_,?_⟩
    · intro now
      exact unlock_mirrors setting.stored stored .empty (fun _ _ => rfl) now
    · rintro now options clock ⟨_,_⟩ ⟨rfl,index,rfl,mirrored⟩
      obtain ⟨db,p,items,fuel,l',report,pulled,sound,clear,opened,ran⟩ :=
        plain_pull setting ⟨stored,served⟩ now options clock index
      exact ⟨fuel,l',_,_,report,ran,rfl,_,rfl,pulled_mirrors pulled sound clear opened mirrored rfl⟩
    · intro now options clock
      obtain ⟨db,p,items,fuel,l',report,pulled,sound,clear,opened,ran⟩ :=
        plain_pull setting ⟨stored,served⟩ now options clock .empty
      have after : ∀ o ∈ (recordSyncSuccess p.storage (clock p.applied.length)).objects.rows, Sound crates key (asChange o) :=
        pulled_stored pulled sound setting.stored rfl
      have still : ∀ o ∈ (recordSyncSuccess p.storage (clock p.applied.length)).objects.rows, ¬LiveManifest (asChange o) :=
        pulled_stored pulled clear stored rfl
      have within : ∀ id, (recordSyncSuccess p.storage (clock p.applied.length)).getObject id = none →
          (items.foldl indexItem .empty).find id = none := by
        intro id absent
        have absent : p.storage.getObject id = none := absent
        rcases pulled.held id with ⟨c,_,_,later,there⟩ | ⟨none,_⟩
        · rw [absent] at there
          cases there
        · exact (items_filed p.applied pulled.distinct opened .empty id).2 none
      obtain ⟨session,more,unlocked,mirrors⟩ := unlock_mirrors after still (items.foldl indexItem .empty) within now
      exact ⟨fuel,l',_,_,report,session,more,ran,unlocked,mirrors⟩

def plans : PlaintextNote :=
  ⟨noteSchemaVersionV1,"Plans","body",["tag"],"2024-01-02T08:00:00Z","2024-01-02T08:00:00Z",[]⟩

def shelf : NoteCrates Unit := NoteCrates.standIn [plans]

-- Alice's account with a note and, under a second id, what the requests leave.
def accountWith (requests : List PushRequest) : List Call :=
  ⟨"alice",upsertOf change1 firstNote 0 "AAAA"⟩ :: requests.map (fun request => ⟨"alice",request⟩)

def linkWith (requests : List PushRequest) : Link := ⟨pushAll .standIn .newInMemory (accountWith requests),[],[],[]⟩

def secondRow (objectKind : UInt16) (revision serverSeq : Nat) (isDeleted : Bool) : EncryptedObjectRow :=
  ⟨"alice",secondNote,objectKind,revision,serverSeq,1,⟨"AAAA","AAAA"⟩,⟨"AAAA","AAAA"⟩,isDeleted⟩

def firstRow : EncryptedObjectRow :=
  ⟨"alice",firstNote,objectKindNote,1,1,1,⟨"AAAA","AAAA"⟩,⟨"AAAA","AAAA"⟩,false⟩

def deletedNote : List PushRequest :=
  [upsertOf change2 secondNote 0 "AAAA",{upsertOf change3 secondNote 1 "AAAA" with isDeleted := true}]

def attachedFile : List PushRequest :=
  [⟨change2,secondNote,0,objectKindAttachmentManifest,
    {sealedText secondNote "AAAA" with objectKind := objectKindAttachmentManifest},false⟩]

theorem deleted_rows : (linkWith deletedNote).db.objects.rows = [firstRow,secondRow objectKindNote 2 3 true] := by decide +kernel

theorem attached_rows :
    (linkWith attachedFile).db.objects.rows = [firstRow,secondRow objectKindAttachmentManifest 1 2 false] := by decide +kernel

theorem plans_sound : Sound shelf () (changeOf firstRow) :=
  .note rfl rfl (show PlaintextNote.decrypt shelf (sealedText firstNote "AAAA") () = .ok plans by decide +kernel)

theorem setting_with (requests : List PushRequest)
    (small : (ofAccount (acceptedBy .standIn .newInMemory (accountWith requests)) "alice").length < 2^63)
    (served : ∀ r ∈ (linkWith requests).db.objects.rows, r.accountId = "alice" → Sound shelf () (changeOf r)) :
    Setting .standIn "alice" shelf () (acceptedBy .standIn .newInMemory (accountWith requests)) (linkWith requests) .new :=
  ⟨reached_represents (accountWith requests),rfl,show 0 < 2^63 by decide,small,served,by simp [Storage.new,Table.empty]⟩

theorem deleted_note_handled : HandlesEveryKind .standIn "alice" shelf () (linkWith deletedNote) .new := by
  have setting := setting_with deletedNote (by decide +kernel) (by
    rw [deleted_rows]
    simp only [List.forall_mem_cons]
    exact ⟨fun _ => plans_sound,fun _ => .tombstone rfl,by simp⟩)
  refine (handles_every_kind_iff setting).mpr ⟨by simp [Storage.new,Table.empty],?_⟩
  rw [deleted_rows]
  simp only [List.forall_mem_cons]
  exact ⟨fun _ _ => by simp [LiveManifest,firstRow,changeOf,objectKindNote,objectKindAttachmentManifest],
    fun _ _ => by simp [LiveManifest,secondRow,changeOf],by simp⟩

-- One attachment is enough: its manifest is pulled as a note.
theorem attached_file_breaks_pull : ¬HandlesEveryKind .standIn "alice" shelf () (linkWith attachedFile) .new := by
  intro handles
  have setting := setting_with attachedFile (by decide +kernel) (by
    rw [attached_rows]
    simp only [List.forall_mem_cons]
    exact ⟨fun _ => plans_sound,fun _ => .manifest rfl rfl rfl,by simp⟩)
  have plain := (handles_plain setting handles).served (secondRow objectKindAttachmentManifest 1 2 false)
    (by rw [attached_rows]; simp) rfl (show 0 < 2 by decide)
  exact plain ⟨rfl,rfl⟩

end ZkNote.UnlockedPull
