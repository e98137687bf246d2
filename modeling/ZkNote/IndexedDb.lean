import Mathlib.Data.List.Sort
import ZkNote.LocalStorage

namespace ZkNote.IndexedDb
open Protocol KeyedTable LocalStorage

-- Key order of a string-keyed object store: by UTF-16 code units.
def utf16 (c : Char) : List Nat :=
  if c.toNat < 0x10000 then [c.toNat]
  else [0xD800 + (c.toNat - 0x10000) / 0x400,0xDC00 + (c.toNat - 0x10000) % 0x400]

def codeUnits (text : String) : List Nat := text.toList.flatMap utf16

def unitsLe : List Nat → List Nat → Bool
  | [],_ => true
  | _ :: _,[] => false
  | a :: as,b :: bs => decide (a < b) || (decide (a = b) && unitsLe as bs)

def keyLe (a b : String) : Prop := unitsLe (codeUnits a) (codeUnits b) = true

instance (a b : String) : Decidable (keyLe a b) := inferInstanceAs (Decidable (unitsLe _ _ = true))

-- `String.prototype.localeCompare`, which depends on the browser's locale but
-- is a consistent comparison in every one.
structure Collation where
  localeCompare : String → String → Ordering
  swapped : ∀ a b, localeCompare b a = (localeCompare a b).swap
  transitive : ∀ a b c, localeCompare a b ≠ .gt → localeCompare b c ≠ .gt → localeCompare a c ≠ .gt

structure SyncStateRow where
  key : String
  state : SyncState
  deriving DecidableEq, Repr

structure BlobRow where
  blobId : String
  data : List UInt8
  size : Nat
  createdAt : String
  deriving DecidableEq, Repr

-- The six object stores of one database.
structure WebDb where
  objects : Table String StoredEncryptedObject (·.objectId)
  mutations : Table String PendingMutation (·.mutationId)
  baseVersions : Table (String × Nat) BaseVersion (fun r => (r.objectId,r.revision))
  syncState : Table String SyncStateRow (·.key)
  conflicts : Table String ConflictRecord (·.conflictId)
  blobs : Table String BlobRow (·.blobId)

def WebDb.new : WebDb := ⟨.empty,.empty,.empty,.empty,.empty,.empty⟩

-- The comparator of `listPendingMutations`: not positive.
def notAfter (collation : Collation) (a b : PendingMutation) : Bool :=
  match collation.localeCompare a.createdAt b.createdAt with
  | .lt => true
  | .gt => false
  | .eq => decide (a.expectedRevision ≤ b.expectedRevision)

def listedBefore (collation : Collation) (a b : PendingMutation) : Prop := notAfter collation a b = true

instance (collation : Collation) : DecidableRel (listedBefore collation) := fun a b =>
  inferInstanceAs (Decidable (notAfter collation a b = true))

def byKey (a b : PendingMutation) : Prop := keyLe a.mutationId b.mutationId

instance : DecidableRel byKey := fun _ _ => inferInstanceAs (Decidable (keyLe _ _))

namespace WebDb

def getObject (db : WebDb) (objectId : String) : Option StoredEncryptedObject := db.objects.find objectId

def putObject (db : WebDb) (object : StoredEncryptedObject) : WebDb :=
  {db with objects := db.objects.upsert object}

def enqueueMutation (db : WebDb) (mutation : PendingMutation) : WebDb :=
  {db with mutations := db.mutations.upsert mutation}

def getMutation (db : WebDb) (mutationId : String) : Option PendingMutation := db.mutations.find mutationId

-- `getAll` answers in key order.
def allMutations (db : WebDb) : List PendingMutation :=
  db.mutations.rows.insertionSort byKey

def listPendingMutations (db : WebDb) (collation : Collation) : List PendingMutation :=
  (db.allMutations.filter (fun m => m.status = .pending)).insertionSort (listedBefore collation)

def removeMutation (db : WebDb) (mutationId : String) : Bool × WebDb :=
  match db.getMutation mutationId with
  | none => (false,db)
  | some _ => (true,{db with mutations := db.mutations.delete (fun m => m.mutationId = mutationId)})

-- A missing `retryCount` leaves the stored one.
def restatus (m : PendingMutation) (status : MutationStatus) (retryCount : Option UInt32) : PendingMutation :=
  {m with status := status,retryCount := retryCount.getD m.retryCount}

def updateMutationStatus (db : WebDb) (mutationId : String) (status : MutationStatus) (retryCount : Option UInt32) :
    Except String WebDb :=
  match db.getMutation mutationId with
  | none => .error s!"Mutation {mutationId} not found"
  | some mutation => .ok (db.enqueueMutation (restatus mutation status retryCount))

def pendingMutationCount (db : WebDb) (collation : Collation) : Nat :=
  ((db.listPendingMutations collation).filter (fun m => m.status = .pending ∨ m.status = .inFlight)).length

def resetInFlightMutations (db : WebDb) : Except String (Nat × WebDb) :=
  (db.allMutations.filter (fun m => m.status = .inFlight)).foldlM
    (fun (count,db) m => (db.updateMutationStatus m.mutationId .pending (some m.retryCount)).map (fun db => (count+1,db))) (0,db)

def getBaseVersion (db : WebDb) (objectId : String) (revision : Nat) : Option EncryptedEnvelope :=
  (db.baseVersions.find (objectId,revision)).map (·.envelope)

def getSyncState (db : WebDb) (identity : String) : SyncState :=
  ((db.syncState.find identity).map (·.state)).getD ⟨0,none,none⟩

def setSyncState (db : WebDb) (state : SyncState) (identity : String) : WebDb :=
  {db with syncState := db.syncState.upsert ⟨identity,state⟩}

def setSyncCursor (db : WebDb) (cursor : Nat) (identity : String) : WebDb :=
  db.setSyncState {db.getSyncState identity with syncCursor := cursor} identity

def putConflict (db : WebDb) (conflict : ConflictRecord) : WebDb :=
  {db with conflicts := db.conflicts.upsert conflict}

end WebDb

-- The key order is linear.
theorem units_total (a b : List Nat) : unitsLe a b = true ∨ unitsLe b a = true := by
  induction a generalizing b with
  | nil => exact .inl rfl
  | cons x xs ih =>
      cases b with
      | nil => exact .inr rfl
      | cons y ys =>
          simp only [unitsLe,Bool.or_eq_true,Bool.and_eq_true,decide_eq_true_eq]
          rcases Nat.lt_trichotomy x y with less | rfl | more
          · exact .inl (.inl less)
          · exact (ih ys).imp (fun le => .inr ⟨rfl,le⟩) (fun le => .inr ⟨rfl,le⟩)
          · exact .inr (.inl more)

theorem units_trans {a b c : List Nat} (one : unitsLe a b = true) (two : unitsLe b c = true) : unitsLe a c = true := by
  induction a generalizing b c with
  | nil => rfl
  | cons x xs ih =>
      cases b with
      | nil => cases one
      | cons y ys =>
          cases c with
          | nil => cases two
          | cons z zs =>
              simp only [unitsLe,Bool.or_eq_true,Bool.and_eq_true,decide_eq_true_eq] at one two ⊢
              rcases one with less | ⟨rfl,one⟩
              · rcases two with further | ⟨rfl,_⟩
                · exact .inl (Nat.lt_trans less further)
                · exact .inl less
              · rcases two with further | ⟨rfl,two⟩
                · exact .inl further
                · exact .inr ⟨rfl,ih one two⟩

theorem units_antisymm {a b : List Nat} (one : unitsLe a b = true) (two : unitsLe b a = true) : a = b := by
  induction a generalizing b with
  | nil =>
      cases b with
      | nil => rfl
      | cons y ys => cases two
  | cons x xs ih =>
      cases b with
      | nil => cases one
      | cons y ys =>
          simp only [unitsLe,Bool.or_eq_true,Bool.and_eq_true,decide_eq_true_eq] at one two
          rcases one with less | ⟨rfl,one⟩
          · omega
          · rcases two with less | ⟨_,two⟩
            · omega
            · rw [ih one two]

-- A code unit below the surrogates' range or above it stands for itself, so the
-- first unit tells how many belong to the first character.
theorem utf16_cancel {c d : Char} {xs ys : List Nat} (same : utf16 c ++ xs = utf16 d ++ ys) : c = d ∧ xs = ys := by
  have validC : c.toNat < 0xD800 ∨ 0xDFFF < c.toNat ∧ c.toNat < 0x110000 := c.valid
  have validD : d.toNat < 0xD800 ∨ 0xDFFF < d.toNat ∧ d.toNat < 0x110000 := d.valid
  have chars : c.toNat = d.toNat → c = d := Char.toNat_inj.mp
  unfold utf16 at same
  split at same <;> split at same
  · simp only [List.cons_append,List.nil_append,List.cons.injEq] at same
    exact ⟨chars same.1,same.2⟩
  · simp only [List.cons_append,List.nil_append,List.cons.injEq] at same
    omega
  · simp only [List.cons_append,List.nil_append,List.cons.injEq] at same
    omega
  · simp only [List.cons_append,List.nil_append,List.cons.injEq] at same
    exact ⟨chars (by omega),same.2.2⟩

theorem code_units_inj {a b : String} (same : codeUnits a = codeUnits b) : a = b := by
  have lists : ∀ as bs : List Char, as.flatMap utf16 = bs.flatMap utf16 → as = bs := by
    intro as
    induction as with
    | nil =>
        intro bs same
        cases bs with
        | nil => rfl
        | cons d ds =>
            rw [List.flatMap_nil,List.flatMap_cons] at same
            unfold utf16 at same
            split at same <;> cases same
    | cons c cs ih =>
        intro bs same
        cases bs with
        | nil =>
            rw [List.flatMap_nil,List.flatMap_cons] at same
            unfold utf16 at same
            split at same <;> cases same
        | cons d ds =>
            rw [List.flatMap_cons,List.flatMap_cons] at same
            obtain ⟨rfl,rest⟩ := utf16_cancel same
            rw [ih ds rest]
  exact String.toList_injective (lists _ _ same)

theorem key_antisymm {a b : String} (one : keyLe a b) (two : keyLe b a) : a = b :=
  code_units_inj (units_antisymm one two)

variable {collation : Collation} {a b c : PendingMutation}

theorem listed_total (collation : Collation) (a b : PendingMutation) : listedBefore collation a b ∨ listedBefore collation b a := by
  unfold listedBefore notAfter
  rw [collation.swapped a.createdAt b.createdAt]
  cases collation.localeCompare a.createdAt b.createdAt with
  | lt => exact .inl rfl
  | gt => exact .inr rfl
  | eq => simpa using Nat.le_total _ _

theorem listed_cases (listed : listedBefore collation a b) :
    collation.localeCompare a.createdAt b.createdAt = .lt ∨
      collation.localeCompare a.createdAt b.createdAt = .eq ∧ a.expectedRevision ≤ b.expectedRevision := by
  unfold listedBefore notAfter at listed
  cases compared : collation.localeCompare a.createdAt b.createdAt with
  | lt => exact .inl rfl
  | gt => rw [compared] at listed; cases listed
  | eq => rw [compared] at listed; exact .inr ⟨rfl,by simpa using listed⟩

-- Equal in the collation is a congruence: it cannot tell two such texts apart.
theorem collation_eq_lt (equal : collation.localeCompare x y = .eq) (less : collation.localeCompare y z = .lt) :
    collation.localeCompare x z = .lt := by
  have forward := collation.transitive x y z (by simp [equal]) (by simp [less])
  cases compared : collation.localeCompare x z with
  | lt => rfl
  | gt => exact absurd compared forward
  | eq =>
      have back : collation.localeCompare z x = .eq := by rw [collation.swapped,compared]; rfl
      have cycle := collation.transitive z x y (by simp [back]) (by simp [equal])
      rw [collation.swapped y z,less] at cycle
      exact absurd rfl cycle

theorem collation_lt_le (less : collation.localeCompare x y = .lt) (notGt : collation.localeCompare y z ≠ .gt) :
    collation.localeCompare x z = .lt := by
  have forward := collation.transitive x y z (by simp [less]) notGt
  cases compared : collation.localeCompare x z with
  | lt => rfl
  | gt => exact absurd compared forward
  | eq =>
      have back : collation.localeCompare z x = .eq := by rw [collation.swapped,compared]; rfl
      have cycle := collation.transitive y z x notGt (by simp [back])
      rw [collation.swapped x y,less] at cycle
      exact absurd rfl cycle

theorem listed_trans (one : listedBefore collation a b) (two : listedBefore collation b c) : listedBefore collation a c := by
  rcases listed_cases one with less | ⟨equal,first⟩
  · have notGt : collation.localeCompare b.createdAt c.createdAt ≠ .gt := by
      rcases listed_cases two with further | ⟨equal,_⟩
      · simp [further]
      · simp [equal]
    simp [listedBefore,notAfter,collation_lt_le less notGt]
  · rcases listed_cases two with less | ⟨same,second⟩
    · simp [listedBefore,notAfter,collation_eq_lt equal less]
    · have forward := collation.transitive a.createdAt b.createdAt c.createdAt (by simp [equal]) (by simp [same])
      unfold listedBefore notAfter
      cases compared : collation.localeCompare a.createdAt c.createdAt with
      | lt => rfl
      | gt => exact absurd compared forward
      | eq => simpa using Nat.le_trans first second

instance (collation : Collation) : Std.Total (listedBefore collation) := ⟨listed_total collation⟩
instance (collation : Collation) : IsTrans PendingMutation (listedBefore collation) := ⟨fun _ _ _ => listed_trans⟩

instance : Std.Total byKey := ⟨fun _ _ => units_total _ _⟩
instance : IsTrans PendingMutation byKey := ⟨fun _ _ _ => units_trans⟩

variable {db : WebDb}

theorem find_restatus (m : PendingMutation) (held : db.getMutation m.mutationId = some m) (mutationId : String) (status : MutationStatus)
    (retryCount : Option UInt32) :
    ((db.enqueueMutation (WebDb.restatus m status retryCount)).getMutation mutationId).isSome = (db.getMutation mutationId).isSome := by
  unfold WebDb.getMutation WebDb.enqueueMutation
  dsimp only
  rw [find_upsert]
  split
  · rename_i same
    have found : db.mutations.find mutationId = some m := same ▸ held
    rw [found]
    rfl
  · rfl

-- A status is set on what is there; no entry comes or goes.
theorem update_found (found : (db.getMutation mutationId).isSome) (status : MutationStatus) (retryCount : Option UInt32) :
    ∃ next, db.updateMutationStatus mutationId status retryCount = .ok next ∧
      ∀ other, (next.getMutation other).isSome = (db.getMutation other).isSome := by
  obtain ⟨m,held⟩ := Option.isSome_iff_exists.mp found
  unfold WebDb.updateMutationStatus
  rw [held]
  have is : m.mutationId = mutationId := find_key held
  exact ⟨_,rfl,fun other => find_restatus m (is ▸ held) other status retryCount⟩

theorem reset_found (db : WebDb) : ∃ count next, db.resetInFlightMutations = .ok (count,next) ∧
    ∀ other, (next.getMutation other).isSome = (db.getMutation other).isSome := by
  have each : ∀ (flying : List PendingMutation) (count : Nat) (now : WebDb), (∀ m ∈ flying, (now.getMutation m.mutationId).isSome) →
      ∃ total next, flying.foldlM (fun (count,db) (m : PendingMutation) =>
          (WebDb.updateMutationStatus db m.mutationId .pending (some m.retryCount)).map (fun db => (count+1,db))) (count,now) = .ok (total,next) ∧
        ∀ other, (next.getMutation other).isSome = (now.getMutation other).isSome := by
    intro flying
    induction flying with
    | nil => exact fun count now _ => ⟨count,now,rfl,fun _ => rfl⟩
    | cons m flying ih =>
        intro count now held
        obtain ⟨middle,updated,kept⟩ := update_found (held m List.mem_cons_self) .pending (some m.retryCount)
        obtain ⟨total,next,reset,same⟩ := ih (count+1) middle (fun x inside => (kept _).trans (held x (List.mem_cons_of_mem _ inside)))
        refine ⟨total,next,?_,fun other => (same other).trans (kept other)⟩
        rw [List.foldlM_cons]
        dsimp only
        rw [updated]
        exact reset
  apply each
  intro m inside
  have member : m ∈ db.mutations.rows := (List.mem_insertionSort byKey).mp (List.mem_of_mem_filter inside)
  exact Option.isSome_iff_exists.mpr ⟨m,mem_iff_find.mp member⟩

end ZkNote.IndexedDb
