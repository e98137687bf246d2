import Mathlib.Algebra.Group.Nat.Defs
import Mathlib.Data.List.Basic
import Mathlib.Order.Basic

namespace ZkNote.AutoLock

structure VaultKey where
  bytes : List UInt8
  sized : bytes.length = 32
  deriving DecidableEq

structure SessionEnvelope where
  key : VaultKey
  createdAt : Nat
  lastActiveAt : Nat
  idleTimeoutSecs : Option Nat
  deriving DecidableEq

structure SessionInfo where
  isActive : Bool
  isExpired : Bool
  idleTimeoutSecs : Option Nat
  idleSecs : Nat
  remainingSecs : Option Nat
  createdAt : Nat
  lastActiveAt : Nat
  deriving DecidableEq

inductive CliError where
  | vaultLocked
  | corruptedSession (message : String)
  | failure (message : String)
  deriving DecidableEq

-- What the bytes of the session file are: 32 of them are the raw key that older
-- versions wrote, all others are read as JSON.
inductive Contents where
  | rawKey (key : VaultKey)
  | envelope (e : SessionEnvelope)
  | unreadable (problem : String)
  deriving DecidableEq

abbrev SessionFile := Option Contents

def saveSessionKeyWithTimeout (now : Nat) (key : VaultKey) (timeoutSecs : Option Nat) : SessionFile :=
  some (.envelope ⟨key,now,now,timeoutSecs.filter (fun s => decide (0 < s))⟩)

def clearSession (_ : SessionFile) : SessionFile := none

def idleExpired (now : Nat) (e : SessionEnvelope) : Bool :=
  match e.idleTimeoutSecs with
  | some timeout => decide (0 < timeout ∧ timeout ≤ now - e.lastActiveAt)
  | none => false

def loadSessionKeyAndTouch (now : Nat) (touch : Bool) (file : SessionFile) : Except CliError VaultKey × SessionFile :=
  match file with
  | none => (.error .vaultLocked,file)
  | some (.rawKey key) => (.ok key,file)
  | some (.unreadable problem) => (.error (.corruptedSession s!"invalid session envelope: {problem}"),file)
  | some (.envelope e) =>
    if idleExpired now e then (.error .vaultLocked,clearSession file)
    else (.ok e.key,if touch then some (.envelope {e with lastActiveAt := now}) else file)

def loadSessionKey (now : Nat) (file : SessionFile) : Except CliError VaultKey × SessionFile := loadSessionKeyAndTouch now true file

def touchSession (now : Nat) (file : SessionFile) : Except CliError Unit × SessionFile :=
  let (loaded,file) := loadSessionKeyAndTouch now true file
  (loaded.map (fun _ => ()),file)

def getSessionInfo (now : Nat) (file : SessionFile) : Except CliError (Option SessionInfo) :=
  match file with
  | none => .ok none
  | some (.rawKey _) => .ok (some ⟨true,false,none,0,none,0,0⟩)
  | some (.unreadable problem) => .error (.corruptedSession s!"invalid session envelope: {problem}")
  | some (.envelope e) =>
    let idleSecs := now - e.lastActiveAt
    let (isExpired,remainingSecs) := match e.idleTimeoutSecs with
      | some timeout => if 0 < timeout then (decide (timeout ≤ idleSecs),some (timeout - idleSecs)) else (false,none)
      | none => (false,none)
    .ok (some ⟨!isExpired,isExpired,e.idleTimeoutSecs,idleSecs,remainingSecs,e.createdAt,e.lastActiveAt⟩)

-- The activity is refreshed whatever the idle time was.
def updateSessionTimeout (now : Nat) (timeoutSecs : Option Nat) (file : SessionFile) : Except CliError SessionInfo × SessionFile :=
  let updated (e : SessionEnvelope) : Except CliError SessionInfo × SessionFile :=
    let file := some (.envelope {e with idleTimeoutSecs := timeoutSecs.filter (fun s => decide (0 < s)),lastActiveAt := now})
    ((getSessionInfo now file).bind (fun info => match info with
      | some info => .ok info
      | none => .error (.failure "failed to read updated session info")),file)
  match file with
  | none => (.error .vaultLocked,file)
  | some (.rawKey key) => updated ⟨key,now,now,none⟩
  | some (.unreadable problem) => (.error (.corruptedSession s!"invalid session envelope: {problem}"),file)
  | some (.envelope e) => updated e

-- `mins * 60` on u64: with overflow checks the command aborts, without them the
-- product wraps.
def minutesToSecs (checks : Bool) (mins : UInt64) : Option (Option Nat) :=
  if mins = 0 then some none
  else if mins.toNat * 60 < 2^64 then some (some (mins.toNat * 60))
  else if checks then none
  else some (some ((mins * 60).toNat))

inductive Op where
  | save (key : VaultKey) (timeoutSecs : Option Nat)
  | load (touch : Bool)
  | touch
  | info
  | autolock (mins : UInt64)
  | clear
  deriving DecidableEq

-- Each operation takes one reading of the clock.
structure Event where
  now : Nat
  op : Op
  deriving DecidableEq

def cmdAutolock (checks : Bool) (now : Nat) (mins : UInt64) (file : SessionFile) : SessionFile :=
  match file with
  | none => none
  | some contents =>
    match minutesToSecs checks mins with
    | none => some contents
    | some secs => (updateSessionTimeout now secs (some contents)).2

def perform (checks : Bool) (file : SessionFile) (event : Event) : SessionFile :=
  match event.op with
  | .save key timeoutSecs => saveSessionKeyWithTimeout event.now key timeoutSecs
  | .load touch => (loadSessionKeyAndTouch event.now touch file).2
  | .touch => (touchSession event.now file).2
  | .info => file
  | .autolock mins => cmdAutolock checks event.now mins file
  | .clear => clearSession file

def performAll (checks : Bool) (file : SessionFile) (events : List Event) : SessionFile := events.foldl (perform checks) file

def Op.isSave : Op → Bool
  | .save .. => true
  | _ => false

-- No call loads the key, and the session is reported expired while it is there.
def LockedOut (now : Nat) (file : SessionFile) : Prop :=
  (∀ touch key, (loadSessionKeyAndTouch now touch file).1 ≠ .ok key) ∧
  (getSessionInfo now file = .ok none ∨ ∃ info, getSessionInfo now file = .ok (some info) ∧ info.isExpired = true)

-- The law: from the moment a session's idle time has reached its timeout until
-- another key is saved.
def AutoLocks (checks : Bool) (file : SessionFile) (events : List Event) : Prop :=
  ∀ before after rest, events = before ++ after ++ rest → (∀ x ∈ after, x.op.isSave = false) →
    ∀ e, performAll checks file before = some (.envelope e) →
    ∀ now, (∀ x ∈ before, x.now ≤ now) → (∀ x ∈ after, now ≤ x.now) → idleExpired now e = true →
    ∀ later, now ≤ later → (∀ x ∈ after, x.now ≤ later) → LockedOut later (performAll checks file (before ++ after))

-- No change of the timeout reaches an expired session, save one that aborts.
def Unrevived (checks : Bool) (file : SessionFile) (events : List Event) : Prop :=
  ∀ before now mins rest, events = before ++ ⟨now,.autolock mins⟩ :: rest →
    ∀ e, performAll checks file before = some (.envelope e) → idleExpired now e = true → minutesToSecs checks mins = none

variable {checks : Bool} {file : SessionFile} {e : SessionEnvelope} {now later : Nat}

theorem expired_later (expired : idleExpired now e = true) (after : now ≤ later) : idleExpired later e = true := by
  unfold idleExpired at expired ⊢
  cases timeout : e.idleTimeoutSecs with
  | none => simp [timeout] at expired
  | some t =>
      simp only [timeout,decide_eq_true_eq] at expired ⊢
      omega

-- Gone, or expired and still there.
def Closed (now : Nat) (file : SessionFile) : Prop := ∀ contents, file = some contents → ∃ e, contents = .envelope e ∧ idleExpired now e = true

theorem closed_absent (now : Nat) : Closed now none := by
  intro contents held
  cases held

theorem closed_expired (expired : idleExpired now e = true) : Closed now (some (.envelope e)) := by
  intro contents held
  cases held
  exact ⟨e,rfl,expired⟩

theorem closed_locked (closed : Closed now file) : LockedOut now file := by
  cases file with
  | none =>
      refine ⟨?_,.inl rfl⟩
      intro touch key loaded
      cases loaded
  | some contents =>
      obtain ⟨e,rfl,expired⟩ := closed contents rfl
      constructor
      · intro touch key loaded
        simp [loadSessionKeyAndTouch,expired] at loaded
      · right
        unfold idleExpired at expired
        cases timeout : e.idleTimeoutSecs with
        | none => simp [timeout] at expired
        | some t =>
            simp only [timeout,decide_eq_true_eq] at expired
            exact ⟨_,rfl,by simp [timeout,expired]⟩

theorem load_closes (closed : Closed now file) (touch : Bool) : (loadSessionKeyAndTouch now touch file).2 = none := by
  cases file with
  | none => rfl
  | some contents =>
      obtain ⟨e,rfl,expired⟩ := closed contents rfl
      simp [loadSessionKeyAndTouch,expired,clearSession]

-- One step from a closed file, by the operation.
theorem step_closed (closed : Closed now file) (after : now ≤ event.now) (unsaved : event.op.isSave = false)
    (unrevived : ∀ mins e, event.op = .autolock mins → file = some (.envelope e) → idleExpired event.now e = true → minutesToSecs checks mins = none) :
    Closed event.now (perform checks file event) := by
  have still : Closed event.now file := by
    intro contents held
    obtain ⟨e,is,expired⟩ := closed contents held
    exact ⟨e,is,expired_later expired after⟩
  obtain ⟨moment,op⟩ := event
  cases op with
  | save key timeoutSecs => cases unsaved
  | load touch =>
      have gone : perform checks file ⟨moment,.load touch⟩ = none := load_closes still touch
      rw [gone]
      exact closed_absent _
  | touch =>
      have gone : perform checks file ⟨moment,.touch⟩ = none := load_closes still true
      rw [gone]
      exact closed_absent _
  | info => exact still
  | clear => exact closed_absent _
  | autolock mins =>
      cases file with
      | none => exact closed_absent _
      | some contents =>
          obtain ⟨e,rfl,expired⟩ := still contents rfl
          have aborted := unrevived mins e rfl rfl expired
          simp only [perform,cmdAutolock,aborted]
          exact still

theorem performAll_append (file : SessionFile) (one two : List Event) :
    performAll checks file (one ++ two) = performAll checks (performAll checks file one) two := List.foldl_append

theorem run_closed (after : List Event) {before rest : List Event} (unrevived : Unrevived checks file (before ++ after ++ rest))
    (unsaved : ∀ x ∈ after, x.op.isSave = false) (ordered : (after.map (·.now)).Pairwise (· ≤ ·))
    (start : ∀ x ∈ after, now ≤ x.now) (closed : Closed now (performAll checks file before))
    (passed : now ≤ later) (last : ∀ x ∈ after, x.now ≤ later) : Closed later (performAll checks file (before ++ after)) := by
  induction after generalizing before now with
  | nil =>
      intro contents held
      rw [List.append_nil] at held
      obtain ⟨e,is,expired⟩ := closed contents held
      exact ⟨e,is,expired_later expired passed⟩
  | cons x tail ih =>
      have step : Closed x.now (performAll checks file (before ++ [x])) := by
        rw [performAll_append]
        apply step_closed closed (start x List.mem_cons_self) (unsaved x List.mem_cons_self)
        intro mins e op held expired
        obtain ⟨moment,_⟩ := x
        cases op
        exact unrevived before moment mins (tail ++ rest) (by simp) e held expired
      rw [List.map_cons,List.pairwise_cons] at ordered
      have begun : Unrevived checks file (before ++ [x] ++ tail ++ rest) := by simpa using unrevived
      have here := ih begun (fun y inside => unsaved y (List.mem_cons_of_mem _ inside)) ordered.2
        (fun y inside => ordered.1 _ (List.mem_map_of_mem inside)) step (last x List.mem_cons_self)
        (fun y inside => last y (List.mem_cons_of_mem _ inside))
      simpa using here

-- A change of the timeout that goes through leaves a session that loads.
theorem autolock_revives (converted : minutesToSecs checks mins = some secs) :
    (loadSessionKeyAndTouch now false (cmdAutolock checks now mins (some (.envelope e)))).1 = .ok e.key := by
  have fresh : idleExpired now {e with idleTimeoutSecs := secs.filter (fun s => decide (0 < s)),lastActiveAt := now} = false := by
    unfold idleExpired
    cases kept : secs.filter (fun s => decide (0 < s)) with
    | none => rfl
    | some timeout =>
        simp only [decide_eq_false_iff_not]
        omega
  simp [cmdAutolock,converted,updateSessionTimeout,loadSessionKeyAndTouch,fresh]

theorem auto_locks_iff (checks : Bool) (file : SessionFile) (events : List Event) (ordered : (events.map (·.now)).Pairwise (· ≤ ·)) :
    AutoLocks checks file events ↔ Unrevived checks file events := by
  constructor
  · intro locks before now mins rest split e held expired
    cases converted : minutesToSecs checks mins with
    | none => rfl
    | some secs =>
        have earlier : ∀ x ∈ before, x.now ≤ now := by
          intro x inside
          rw [split,List.map_append,List.pairwise_append] at ordered
          exact ordered.2.2 x.now (List.mem_map_of_mem inside) now List.mem_cons_self
        have locked := locks before [⟨now,.autolock mins⟩] rest (by simp [split]) (by simp [Op.isSave]) e held now earlier (by simp) expired
          now (Nat.le_refl _) (by simp)
        rw [performAll_append,held] at locked
        exact absurd (autolock_revives converted) (locked.1 false e.key)
  · intro unrevived before after rest split unsaved e held now _ start expired later passed last
    apply closed_locked
    rw [split] at unrevived ordered
    have middle : (after.map (·.now)).Pairwise (· ≤ ·) := by
      rw [List.map_append,List.map_append,List.pairwise_append,List.pairwise_append] at ordered
      exact ordered.1.2.1
    exact run_closed after unrevived unsaved middle start (held ▸ closed_expired expired) passed last

def someKey : VaultKey := ⟨List.replicate 32 7,by decide⟩

-- Saved for one minute, idle for more, inspected and then loaded.
def watched : List Event := [⟨0,.save someKey (some 60)⟩,⟨60,.info⟩,⟨75,.load true⟩,⟨80,.autolock 5⟩]

theorem watched_locks : AutoLocks true none watched := by
  refine (auto_locks_iff true none watched (by decide)).mpr ?_
  intro before now mins rest split e held expired
  rcases before with _ | ⟨a,_ | ⟨b,_ | ⟨c,_ | ⟨d,before⟩⟩⟩⟩ <;> simp [watched] at split
  obtain ⟨rfl,rfl,rfl,_⟩ := split
  cases held

-- The same session, but the timeout is changed before anything loads it.
theorem changed_timeout_revives : ¬AutoLocks true none [⟨0,.save someKey (some 60)⟩,⟨100,.autolock 5⟩] := by
  intro locks
  have locked := locks [⟨0,.save someKey (some 60)⟩] [⟨100,.autolock 5⟩] [] rfl (by decide) ⟨someKey,0,0,some 60⟩ rfl 100 (by decide) (by decide)
    (by decide) 100 (Nat.le_refl _) (by decide)
  exact locked.1 false someKey (by decide)

end ZkNote.AutoLock
