import ZkNote.GuardedPolicy
import ZkNote.NoteMerge
import ZkNote.TimestampGrammar

namespace ZkNote.LastWrite
open Protocol KeyedTable LocalStorage MutationQueue Conflict PlaintextNotes NoteErrors NoteMerge Instants

variable {Key : Type} {crates : NoteCrates Key} {key : Key} {v w : EncryptedEnvelope} {m n : PlaintextNote} {a b : Stamp}
  {outcome : GuardedLwwOutcome}

-- The policy was evaluated with the first envelope as the local edit and the
-- second as the remote version, in any store and at any time.
def Met (crates : NoteCrates Key) (key : Key) (mine theirs : EncryptedEnvelope) (outcome : GuardedLwwOutcome) : Prop :=
  ∃ now tick s t mutation conflict, mutation.envelope = mine ∧ conflict.currentEnvelope = theirs ∧
    evaluateGuardedLww (noteCodec crates now) (some key) tick s mutation conflict = (.ok outcome,t)

def chosen (mine theirs : EncryptedEnvelope) (outcome : GuardedLwwOutcome) : EncryptedEnvelope :=
  match outcome.winner with
  | .mine => mine
  | .theirs => theirs

-- In this pair of roles the later of the two instants wins.
def LaterWins (crates : NoteCrates Key) (key : Key) (mine theirs : EncryptedEnvelope) (a b : Stamp) : Prop :=
  ∀ outcome, Met crates key mine theirs outcome →
    (a.instant < b.instant → chosen mine theirs outcome = theirs) ∧ (b.instant < a.instant → chosen mine theirs outcome = mine)

structure PicksLast (crates : NoteCrates Key) (key : Key) (v w : EncryptedEnvelope) (a b : Stamp) : Prop where
  here : LaterWins crates key v w a b
  there : LaterWins crates key w v b a
  agreed : ∀ o o', Met crates key v w o → Met crates key w v o' → chosen v w o = chosen w v o'

-- The order in which two stamps are read is their order in time.
def InOrder (a b : Stamp) : Prop := (a.instant < b.instant → Reads a b) ∧ (b.instant < a.instant → Reads b a)

def takesLocal (m n : PlaintextNote) (v w : EncryptedEnvelope) : Prop :=
  if m.updatedAt ≠ n.updatedAt then n.updatedAt < m.updatedAt else w.payload.ciphertext < v.payload.ciphertext

instance (m n : PlaintextNote) (v w : EncryptedEnvelope) : Decidable (takesLocal m n v w) := by
  unfold takesLocal
  infer_instance

theorem opened_spelled (opens : PlaintextNote.decrypt crates v key = .ok m) : ∃ stamp, Spells stamp m.updatedAt := by
  exact TimestampGrammar.validated_spelled (valid_iff.mp (PlaintextNote.decrypt_valid opens)).updated

theorem evaluated_winner {Note : Type} {codec : NoteCodec Key Note} {vaultKey : Option Key} {tick : Tick} {s t : Storage} {mutation : PendingMutation}
    {conflict : ConflictResponse} (done : evaluateGuardedLww codec vaultKey tick s mutation conflict = (.ok outcome,t)) :
    outcome.winner = if localWins codec vaultKey s mutation conflict then .mine else .theirs := by
  unfold evaluateGuardedLww at done
  split at done
  · cases done
  · dsimp only at done
    split at done
    · rename_i mine
      rw [if_pos mine]
      split at done <;> cases done
      rfl
    · rename_i theirs
      rw [if_neg theirs]
      cases done
      rfl

theorem met_chosen (opensV : PlaintextNote.decrypt crates v key = .ok m) (opensW : PlaintextNote.decrypt crates w key = .ok n)
    (met : Met crates key v w outcome) : chosen v w outcome = if takesLocal m n v w then v else w := by
  obtain ⟨now,tick,s,t,mutation,conflict,rfl,rfl,done⟩ := met
  have wins : localWins (noteCodec crates now) (some key) s mutation conflict = decide (takesLocal m n mutation.envelope conflict.currentEnvelope) := by
    unfold localWins takesLocal
    simp only [Option.bind_some,codec_decrypted opensV now,codec_decrypted opensW now]
    show (if m.updatedAt ≠ n.updatedAt then _ else _) = _
    split <;> rfl
  unfold chosen
  rw [evaluated_winner done,wins]
  by_cases takes : takesLocal m n mutation.envelope conflict.currentEnvelope <;> simp [takes]

theorem met_once (crates : NoteCrates Key) (key : Key) (v w : EncryptedEnvelope) : ∃ outcome, Met crates key v w outcome := by
  let mutation : PendingMutation := ⟨"","",0,objectKindNote,.upsert,v,"",0,.pending⟩
  let conflict : ConflictResponse := ⟨errorRevisionConflict,"",0,0,0,w,false⟩
  have alive : ¬(conflict.isDeleted ∨ mutation.mutationType = .delete) := by simp [mutation,conflict]
  let tick : Tick := ⟨"","","",0⟩
  have fresh : Storage.new.getMutation tick.retryId = none := rfl
  obtain ⟨outcome,t,done,_⟩ := GuardedPolicy.evaluate_left (noteCodec crates "") (some key) alive fresh
  exact ⟨outcome,"",tick,Storage.new,t,mutation,conflict,rfl,rfl,done⟩

-- What holds of the winners, for every evaluation in either role.
theorem picks_iff (opensV : PlaintextNote.decrypt crates v key = .ok m) (opensW : PlaintextNote.decrypt crates w key = .ok n) :
    PicksLast crates key v w a b ↔
      ((a.instant < b.instant → ¬takesLocal m n v w ∨ v = w) ∧ (b.instant < a.instant → takesLocal m n v w ∨ v = w)) ∧
      ((b.instant < a.instant → ¬takesLocal n m w v ∨ v = w) ∧ (a.instant < b.instant → takesLocal n m w v ∨ v = w)) ∧
      ((takesLocal m n v w ↔ ¬takesLocal n m w v) ∨ v = w) := by
  have here := fun outcome (met : Met crates key v w outcome) => met_chosen opensV opensW met
  have there := fun outcome (met : Met crates key w v outcome) => met_chosen opensW opensV met
  obtain ⟨o,metO⟩ := met_once crates key v w
  obtain ⟨o',metO'⟩ := met_once crates key w v
  have takesOne : ∀ x y : EncryptedEnvelope, ∀ p : Prop, [Decidable p] → ((if p then x else y) = x ↔ p ∨ x = y) := by
    intro x y p _
    by_cases holds : p <;> simp [holds,eq_comm]
  have takesOther : ∀ x y : EncryptedEnvelope, ∀ p : Prop, [Decidable p] → ((if p then x else y) = y ↔ ¬p ∨ x = y) := by
    intro x y p _
    by_cases holds : p <;> simp [holds]
  constructor
  · rintro ⟨first,second,agreed⟩
    have first := first o metO
    have second := second o' metO'
    have agreed := agreed o o' metO metO'
    rw [here o metO] at first agreed
    rw [there o' metO'] at second agreed
    rw [takesOther,takesOne] at first second
    rw [eq_comm (a := w) (b := v)] at second
    refine ⟨first,second,?_⟩
    by_cases one : takesLocal m n v w <;> by_cases other : takesLocal n m w v
    · rw [if_pos one,if_pos other] at agreed
      exact .inr agreed
    · exact .inl ⟨fun _ => other,fun _ => one⟩
    · exact .inl ⟨fun is => absurd is one,fun is => absurd other is⟩
    · rw [if_neg one,if_neg other] at agreed
      exact .inr agreed.symm
  · rintro ⟨first,second,agreed⟩
    refine ⟨fun outcome met => ?_,fun outcome met => ?_,fun o o' met met' => ?_⟩
    · rw [here outcome met,takesOther,takesOne]
      exact first
    · rw [there outcome met,takesOther,takesOne,eq_comm (a := w) (b := v)]
      exact second
    · rw [here o met,there o' met']
      rcases agreed with opposite | same
      · by_cases one : takesLocal m n v w
        · rw [if_pos one,if_neg (opposite.mp one)]
        · rw [if_neg one,if_pos (not_not.mp (fun other => one (opposite.mpr other)))]
      · rw [same]
        simp

-- Stamps in one spelling, as one client's clock writes them, are always in order.
theorem alike_inOrder (letter : a.smallT = b.smallT) (zone : a.zone.text = b.zone.text) (fraction : a.fraction.length = b.fraction.length) :
    InOrder a b :=
  ⟨(alike_order letter zone fraction).mp,(alike_order letter.symm zone.symm fraction.symm).mp⟩

theorem last_write_iff (opensV : PlaintextNote.decrypt crates v key = .ok m) (opensW : PlaintextNote.decrypt crates w key = .ok n) :
    (∃ a, Spells a m.updatedAt) ∧ (∃ b, Spells b n.updatedAt) ∧ ∀ a b, Spells a m.updatedAt → Spells b n.updatedAt →
      (PicksLast crates key v w a b ↔
        InOrder a b ∧ (m.updatedAt ≠ n.updatedAt ∨ v.payload.ciphertext ≠ w.payload.ciphertext ∨ v = w)) := by
  refine ⟨opened_spelled opensV,opened_spelled opensW,fun a b left right => ?_⟩
  rw [picks_iff opensV opensW]
  by_cases same : m.updatedAt = n.updatedAt
  · have instants : a.instant = b.instant := text_instant (left.symm.trans (same ▸ right))
    simp only [InOrder,takesLocal,same,instants,lt_irrefl,ne_eq,not_true_eq_false,if_false,false_implies,true_and,and_self,false_or]
    by_cases cipher : v.payload.ciphertext = w.payload.ciphertext
    · simp [cipher]
    · have total := lt_or_gt_of_ne cipher
      simp only [cipher,not_false_eq_true,true_or,iff_true]
      refine .inl ⟨fun one other => absurd one (not_lt_of_gt other),fun one => total.resolve_left one⟩
  · have apart : v ≠ w := by
      rintro rfl
      cases opensV.symm.trans opensW
      exact same rfl
    have total : ¬n.updatedAt < m.updatedAt ↔ m.updatedAt < n.updatedAt :=
      ⟨fun one => (lt_or_gt_of_ne same).resolve_right one,fun one => not_lt_of_gt one⟩
    have total' : ¬m.updatedAt < n.updatedAt ↔ n.updatedAt < m.updatedAt :=
      ⟨fun one => (lt_or_gt_of_ne same).resolve_left one,fun one => not_lt_of_gt one⟩
    have earlier := spelled_order left right
    have later := spelled_order right left
    simp only [InOrder,takesLocal,ne_eq,same,Ne.symm same,apart,not_false_eq_true,if_true,or_false,true_or,and_true,← earlier,← later]
    constructor
    · rintro ⟨⟨_,second⟩,⟨_,first⟩,_⟩
      exact ⟨first,second⟩
    · rintro ⟨first,second⟩
      exact ⟨⟨fun order => total.mpr (first order),second⟩,⟨fun order => total'.mpr (second order),first⟩,total'.symm⟩

-- Two edits half a second apart, of which the later one is stamped with a fraction.
def stampAt (second fraction : List Char) (secondFit : Digits 2 second ∧ Rfc3339.number second ≤ 60) (fractionFit : ∀ c ∈ fraction, c.isDigit) : Stamp :=
  { year := ['2','0','2','4'],month := ['0','1'],day := ['0','2'],smallT := false,hour := ['0','3'],minute := ['0','4']
    second := second,fraction := fraction,zone := .utc false
    yearFit := ⟨⟨rfl,List.all_eq_true.mp rfl⟩,by decide⟩,monthFit := ⟨⟨rfl,List.all_eq_true.mp rfl⟩,by decide⟩,dayFit := ⟨⟨rfl,List.all_eq_true.mp rfl⟩,by decide⟩
    hourFit := ⟨⟨rfl,List.all_eq_true.mp rfl⟩,by decide⟩,minuteFit := ⟨⟨rfl,List.all_eq_true.mp rfl⟩,by decide⟩,secondFit := secondFit,fractionFit := fractionFit
    zoneFit := trivial }

def onTheSecond : Stamp := stampAt ['0','5'] [] ⟨⟨rfl,List.all_eq_true.mp rfl⟩,by decide⟩ (List.all_eq_true.mp rfl)
def halfPast : Stamp := stampAt ['0','5'] ['5'] ⟨⟨rfl,List.all_eq_true.mp rfl⟩,by decide⟩ (List.all_eq_true.mp rfl)
def nextSecond : Stamp := stampAt ['0','6'] [] ⟨⟨rfl,List.all_eq_true.mp rfl⟩,by decide⟩ (List.all_eq_true.mp rfl)

def edited (updatedAt : String) : PlaintextNote := ⟨1,"title","body",[],"2024-01-01T00:00:00Z",updatedAt,[]⟩

def twoEdits (first second : String) : NoteCrates Unit := NoteCrates.standIn [edited first,edited second]

theorem next_second_wins : PicksLast (twoEdits "2024-01-02T03:04:05Z" "2024-01-02T03:04:06Z") () (sealedText firstNote "A") (sealedText firstNote "B")
    onTheSecond nextSecond :=
  ((last_write_iff (m := edited "2024-01-02T03:04:05Z") (n := edited "2024-01-02T03:04:06Z") (by decide +kernel) (by decide +kernel)).2.2
    onTheSecond nextSecond (by decide) (by decide)).mpr ⟨alike_inOrder rfl rfl rfl,.inl (by decide)⟩

theorem half_second_lost :
    let crates := twoEdits "2024-01-02T03:04:05Z" "2024-01-02T03:04:05.5Z"
    let early := sealedText firstNote "A"
    let late := sealedText firstNote "B"
    PlaintextNote.decrypt crates early () = .ok (edited "2024-01-02T03:04:05Z") ∧
    PlaintextNote.decrypt crates late () = .ok (edited "2024-01-02T03:04:05.5Z") ∧
    Spells onTheSecond "2024-01-02T03:04:05Z" ∧ Spells halfPast "2024-01-02T03:04:05.5Z" ∧ onTheSecond.instant < halfPast.instant ∧
    (evaluateGuardedLww (noteCodec crates "") (some ()) ⟨"","r","q",0⟩ Storage.new ⟨change1,firstNote,0,objectKindNote,.upsert,early,"",0,.pending⟩
      ⟨errorRevisionConflict,firstNote,0,0,0,late,false⟩).1.map (·.winner) = .ok .mine :=
  ⟨by decide +kernel,by decide +kernel,by decide,by decide,within_minute ⟨rfl,rfl,rfl⟩ ⟨rfl,rfl,rfl⟩ (by decide +kernel),by decide +kernel⟩

end ZkNote.LastWrite
