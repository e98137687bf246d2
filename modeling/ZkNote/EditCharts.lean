import ZkNote.LocalEdits

namespace ZkNote.EditCharts
open Protocol KeyedTable LocalStorage Notes LocalEdits StdText

variable {α β : Type} {s t : Storage} {d d' : Disk} {f : Nat → Option StorageError} {c n m : Nat}

-- The local heads and the queue.
abbrev Heads := Table String StoredEncryptedObject (·.objectId) × Table String PendingMutation (·.mutationId)

def heads (s : Storage) : Heads := (s.objects,s.mutations)

def never : Nat → Option StorageError := fun _ => none

theorem bind_ok {x : Edit α} {g : α → Edit β} {a : α} (ran : x d = (.ok a,d')) : (x >>= g) d = g a d' := by
  simp only [bind,ran]

theorem bind_error {x : Edit α} {g : α → Edit β} {e : CliError} (ran : x d = (.error e,d')) : (x >>= g) d = (.error e,d') := by
  simp only [bind,ran]

theorem call_fault {step : Storage → Except StorageError (α × Storage)} {e : StorageError} (fault : f c = some e) :
    call step ⟨s,f,c⟩ = (.error (.storage e),⟨s,f,c+1⟩) := by
  simp only [call,fault]

theorem call_ok {step : Storage → Except StorageError (α × Storage)} {a : α} (calm : f c = none) (done : step s = .ok (a,t)) :
    call step ⟨s,f,c⟩ = (.ok a,⟨t,f,c+1⟩) := by
  simp only [call,calm,done]

theorem call_refused {step : Storage → Except StorageError (α × Storage)} {e : StorageError} (calm : f c = none) (refused : step s = .error e) :
    call step ⟨s,f,c⟩ = (.error (.storage e),⟨s,f,c+1⟩) := by
  simp only [call,calm,refused]

-- The part of an edit before its first head: `n` calls, and what they come to.
structure Prepares (x : Edit α) (s : Storage) (n : Nat) (found : Option α) : Prop where
  ready : ∀ f c a, found = some a → (∀ k < n, f (c+k) = none) → ∃ t, x ⟨s,f,c⟩ = (.ok a,⟨t,f,c+n⟩) ∧ heads t = heads s
  stopped : ∀ f c, (found = none ∨ ∃ k < n, (f (c+k)).isSome = true) → ∃ e d, x ⟨s,f,c⟩ = (.error e,d) ∧ heads d.storage = heads s

theorem prepares_check (result : Except CliError α) : Prepares (check result) s 0 result.toOption where
  ready f c a found calm := by
    cases result with
    | error e => cases found
    | ok b =>
        cases found
        exact ⟨s,rfl,rfl⟩
  stopped f c cause := by
    rcases cause with refused | ⟨k,inside,_⟩
    · cases result with
      | error e => exact ⟨e,⟨s,f,c⟩,rfl,rfl⟩
      | ok b => cases refused
    · exact absurd inside (Nat.not_lt_zero k)

-- A read, or a write that no head and no queue entry comes of.
theorem prepares_call {step : Storage → Except StorageError (α × Storage)} {a : α} (done : step s = .ok (a,t)) (same : heads t = heads s) :
    Prepares (call step) s 1 (some a) where
  ready f c b found calm := by
    cases found
    exact ⟨t,call_ok (calm 0 Nat.one_pos) done,same⟩
  stopped f c cause := by
    rcases cause with refused | ⟨k,inside,fault⟩
    · cases refused
    · have first : k = 0 := by omega
      rw [first] at fault
      obtain ⟨e,is⟩ := Option.isSome_iff_exists.mp fault
      exact ⟨_,_,call_fault is,rfl⟩

theorem prepares_bind {x : Edit α} {g : α → Edit β} {a : α} {found : Option β} (one : Prepares x s n (some a))
    (two : ∀ t, heads t = heads s → Prepares (g a) t m found) : Prepares (x >>= g) s (n+m) found where
  ready f c b is calm := by
    obtain ⟨t,ran,same⟩ := one.ready f c a rfl (fun k inside => calm k (by omega))
    have rest : ∀ k < m, f (c+n+k) = none := by
      intro k inside
      rw [Nat.add_assoc]
      exact calm (n+k) (by omega)
    obtain ⟨u,ran',same'⟩ := (two t same).ready f (c+n) b is rest
    exact ⟨u,by rw [bind_ok ran,ran',Nat.add_assoc],same'.trans same⟩
  stopped f c cause := by
    by_cases early : ∃ k < n, (f (c+k)).isSome = true
    · obtain ⟨e,d,ran,same⟩ := one.stopped f c (.inr early)
      exact ⟨e,d,bind_error ran,same⟩
    · have calm : ∀ k < n, f (c+k) = none := by
        intro k inside
        by_contra fault
        exact early ⟨k,inside,Option.isSome_iff_ne_none.mpr fault⟩
      obtain ⟨t,ran,same⟩ := one.ready f c a rfl calm
      have later : found = none ∨ ∃ k < m, (f (c+n+k)).isSome = true := by
        rcases cause with refused | ⟨k,inside,fault⟩
        · exact .inl refused
        · have beyond : n ≤ k := by
            by_contra under
            rw [calm k (by omega)] at fault
            cases fault
          refine .inr ⟨k-n,by omega,?_⟩
          rwa [Nat.add_assoc,Nat.add_sub_cancel' beyond]
      obtain ⟨e,d,ran',same'⟩ := (two t same).stopped f (c+n) later
      exact ⟨e,d,by rw [bind_ok ran,ran'],same'.trans same⟩

-- An edit by its calls: call `first` writes the first head, and after `last` calls
-- the edit is complete and has come to `whole`.
structure Chart (x : Edit α) (s : Storage) (first last : Option Nat) (whole : Heads) : Prop where
  refused : first = none → ∀ f c, heads (x ⟨s,f,c⟩).2.storage = heads s
  early : ∀ i, first = some i → ∀ f c, (∃ k ≤ i, (f (c+k)).isSome = true) → heads (x ⟨s,f,c⟩).2.storage = heads s
  marked : ∀ i, first = some i → ∀ f c, (∀ k ≤ i, f (c+k) = none) → (x ⟨s,f,c⟩).2.storage.objects ≠ s.objects
  complete : ∀ j, last = some j → ∀ f c, (∀ k < j, f (c+k) = none) → heads (x ⟨s,f,c⟩).2.storage = whole
  done : ∀ j, last = some j → ∀ c, ∃ a, (x ⟨s,never,c⟩).1 = .ok a
  failed : last = none → ∀ c, ∃ e, (x ⟨s,never,c⟩).1 = .error e
  short : ∀ i j, first = some i → last = some j → ∀ f c, (∀ k ≤ i, f (c+k) = none) →
    (∃ k, i < k ∧ k < j ∧ (f (c+k)).isSome = true) → (x ⟨s,f,c⟩).2.storage.mutations.rows.length < whole.2.rows.length

theorem chart_pure (a : α) (s : Storage) : Chart (pure a : Edit α) s none (some 0) (heads s) where
  refused _ f c := rfl
  early i is := by cases is
  marked i is := by cases is
  complete j is f c calm := rfl
  done j is c := ⟨a,rfl⟩
  failed none := by cases none
  short i j is := by cases is

theorem check_ok (a : α) (g : α → Edit β) : (check (.ok a) >>= g) = g a := rfl
theorem check_error (e : CliError) (g : α → Edit β) : (check (.error e) >>= g) = check (.error e) := rfl
theorem core_ok (a : α) (g : α → Edit β) : (core (.ok a) >>= g) = g a := rfl
theorem core_error (message : String) (g : α → Edit β) : (core (.error message) >>= g) = check (.error (.core message)) := rfl

theorem chart_error (e : CliError) (s : Storage) (whole : Heads) : Chart (check (.error e) : Edit α) s none none whole where
  refused _ f c := rfl
  early i is := by cases is
  marked i is := by cases is
  complete j is := by cases is
  done j is := by cases is
  failed _ c := ⟨e,rfl⟩
  short i j is := by cases is

theorem chart_refused {x : Edit α} {g : α → Edit β} {whole : Heads} (one : Prepares x s n none) : Chart (x >>= g) s none none whole where
  refused _ f c := by
    obtain ⟨e,d,ran,same⟩ := one.stopped f c (.inl rfl)
    rw [bind_error ran]
    exact same
  early i is := by cases is
  marked i is := by cases is
  complete j is := by cases is
  done j is := by cases is
  failed _ c := by
    obtain ⟨e,d,ran,_⟩ := one.stopped never c (.inl rfl)
    exact ⟨e,congrArg Prod.fst (bind_error ran)⟩
  short i j is := by cases is

-- Every schedule fails one of the first calls or none of them.
theorem fault_or_calm (f : Nat → Option StorageError) (c n : Nat) : (∃ k < n, (f (c+k)).isSome = true) ∨ ∀ k < n, f (c+k) = none := by
  by_cases early : ∃ k < n, (f (c+k)).isSome = true
  · exact .inl early
  · refine .inr (fun k inside => ?_)
    by_contra fault
    exact early ⟨k,inside,Option.isSome_iff_ne_none.mpr fault⟩

theorem fault_later (calm : ∀ k < n, f (c+k) = none) {k : Nat} (fault : (f (c+k)).isSome = true) :
    n ≤ k ∧ (f (c+n+(k-n))).isSome = true := by
  have beyond : n ≤ k := by
    by_contra under
    rw [calm k (by omega)] at fault
    cases fault
  refine ⟨beyond,?_⟩
  rwa [Nat.add_assoc,Nat.add_sub_cancel' beyond]

theorem calm_later {i : Nat} (calm : ∀ k < n+i, f (c+k) = none) : (∀ k < n, f (c+k) = none) ∧ ∀ k < i, f (c+n+k) = none := by
  refine ⟨fun k inside => calm k (by omega),?_⟩
  intro k inside
  rw [Nat.add_assoc]
  exact calm (n+k) (by omega)

theorem chart_after {x : Edit α} {g : α → Edit β} {a : α} {first last : Option Nat} {whole : Heads} (one : Prepares x s n (some a))
    (two : ∀ t, heads t = heads s → Chart (g a) t first last whole) :
    Chart (x >>= g) s (first.map (n + ·)) (last.map (n + ·)) whole := by
  have stop : ∀ (f : Nat → Option StorageError) c, (∃ k < n, (f (c+k)).isSome = true) → heads ((x >>= g) ⟨s,f,c⟩).2.storage = heads s := by
    intro f c fault
    obtain ⟨e,d,ran,same⟩ := one.stopped f c (.inr fault)
    rw [bind_error ran]
    exact same
  have go : ∀ (f : Nat → Option StorageError) c, (∀ k < n, f (c+k) = none) → ∃ t, (x >>= g) ⟨s,f,c⟩ = g a ⟨t,f,c+n⟩ ∧ heads t = heads s := by
    intro f c calm
    obtain ⟨t,ran,same⟩ := one.ready f c a rfl calm
    exact ⟨t,bind_ok ran,same⟩
  refine ⟨?_,?_,?_,?_,?_,?_,?_⟩
  · intro none f c
    rcases fault_or_calm f c n with fault | calm
    · exact stop f c fault
    · obtain ⟨t,ran,same⟩ := go f c calm
      rw [ran]
      exact ((two t same).refused (Option.map_eq_none_iff.mp none) f (c+n)).trans same
  · intro i is f c fault
    obtain ⟨i',is',rfl⟩ := Option.map_eq_some_iff.mp is
    rcases fault_or_calm f c n with early | calm
    · exact stop f c early
    · obtain ⟨t,ran,same⟩ := go f c calm
      obtain ⟨k,inside,here⟩ := fault
      obtain ⟨beyond,there⟩ := fault_later calm here
      rw [ran]
      exact ((two t same).early i' is' f (c+n) ⟨k-n,by omega,there⟩).trans same
  · intro i is f c calm
    obtain ⟨i',is',rfl⟩ := Option.map_eq_some_iff.mp is
    have upto : ∀ k < n+(i'+1), f (c+k) = none := fun k inside => calm k (by omega)
    obtain ⟨before,after⟩ := calm_later upto
    obtain ⟨t,ran,same⟩ := go f c before
    rw [ran,← (Prod.mk.inj same).1]
    exact (two t same).marked i' is' f (c+n) (fun k inside => after k (by omega))
  · intro j is f c calm
    obtain ⟨j',is',rfl⟩ := Option.map_eq_some_iff.mp is
    obtain ⟨before,after⟩ := calm_later calm
    obtain ⟨t,ran,same⟩ := go f c before
    rw [ran]
    exact (two t same).complete j' is' f (c+n) after
  · intro j is c
    obtain ⟨j',is',rfl⟩ := Option.map_eq_some_iff.mp is
    obtain ⟨t,ran,same⟩ := go never c (fun _ _ => rfl)
    rw [ran]
    exact (two t same).done j' is' (c+n)
  · intro none c
    obtain ⟨t,ran,same⟩ := go never c (fun _ _ => rfl)
    rw [ran]
    exact (two t same).failed (Option.map_eq_none_iff.mp none) (c+n)
  · intro i j isI isJ f c calm fault
    obtain ⟨i',isI',rfl⟩ := Option.map_eq_some_iff.mp isI
    obtain ⟨j',isJ',rfl⟩ := Option.map_eq_some_iff.mp isJ
    have upto : ∀ k < n+(i'+1), f (c+k) = none := fun k inside => calm k (by omega)
    obtain ⟨before,after⟩ := calm_later upto
    obtain ⟨t,ran,same⟩ := go f c before
    obtain ⟨k,above,under,here⟩ := fault
    obtain ⟨beyond,there⟩ := fault_later before here
    rw [ran]
    exact (two t same).short i' j' isI' isJ' f (c+n) (fun k inside => after k (by omega)) ⟨k-n,by omega,by omega,there⟩

def dropResult (x : Edit α) : Edit Unit := fun d => ((x d).1.map (fun _ => ()),(x d).2)

theorem chart_dropResult {x : Edit α} {first last : Option Nat} {whole : Heads} (chart : Chart x s first last whole) :
    Chart (dropResult x) s first last whole where
  refused := chart.refused
  early := chart.early
  marked := chart.marked
  complete := chart.complete
  done j is c := by
    obtain ⟨a,ok⟩ := chart.done j is c
    exact ⟨(),by rw [dropResult,ok]; rfl⟩
  failed none c := by
    obtain ⟨e,bad⟩ := chart.failed none c
    exact ⟨e,by rw [dropResult,bad]; rfl⟩
  short := chart.short

theorem bind_assoc (x : Edit α) (g : α → Edit β) (h : β → Edit γ) : (x >>= g) >>= h = x >>= fun a => g a >>= h := by
  funext d
  cases ran : x d with
  | mk result d' =>
      cases result with
      | error e => rw [bind_error (bind_error ran),bind_error ran]
      | ok a =>
          rw [bind_ok ran]
          have first : (x >>= g) d = g a d' := bind_ok ran
          cases second : g a d' with
          | mk result d'' =>
              cases result with
              | error e => rw [bind_error (first.trans second),bind_error second]
              | ok b => rw [bind_ok (first.trans second),bind_ok second]

-- A first write that stands for `object`, and the queue entry.
structure Puts (write : Edit Unit) (s : Storage) (object : StoredEncryptedObject) : Prop where
  ok : ∀ f c, f c = none → write ⟨s,f,c⟩ = (.ok (),⟨s.putObject object,f,c+1⟩)
  fault : ∀ f c e, f c = some e → write ⟨s,f,c⟩ = (.error (.storage e),⟨s,f,c+1⟩)

theorem puts_object (s : Storage) (object : StoredEncryptedObject) : Puts (putObject object) s object :=
  ⟨fun _ _ calm => call_ok calm rfl,fun _ _ _ fault => call_fault fault⟩

def recorded (h : Heads) (object : StoredEncryptedObject) (mutation : PendingMutation) : Heads := (h.1.upsert object,h.2.upsert mutation)

variable {write : Edit Unit} {object : StoredEncryptedObject} {mutation : PendingMutation}

theorem enqueue_ok (fresh : s.getMutation mutation.mutationId = none) (calm : f c = none) :
    enqueueMutation mutation ⟨s,f,c⟩ = (.ok (),⟨{s with mutations := s.mutations.upsert mutation},f,c+1⟩) := by
  have done : s.enqueueMutation mutation = .ok {s with mutations := s.mutations.upsert mutation} := by
    rw [Storage.enqueueMutation,insert_fresh fresh]
  apply call_ok calm
  rw [done]
  rfl

-- What a record leaves, by which of its two calls fails.
theorem record_done (puts : Puts write s object) (fresh : s.getMutation mutation.mutationId = none) (calm : f c = none) (calm' : f (c+1) = none) :
    (write >>= fun _ => enqueueMutation mutation) ⟨s,f,c⟩ =
      (.ok (),⟨{s with objects := s.objects.upsert object, mutations := s.mutations.upsert mutation},f,c+2⟩) := by
  have put : (s.putObject object).getMutation mutation.mutationId = none := fresh
  rw [bind_ok (puts.ok f c calm),enqueue_ok put calm']
  rfl

theorem record_half (puts : Puts write s object) (calm : f c = none) {e : StorageError} (fault : f (c+1) = some e) :
    (write >>= fun _ => enqueueMutation mutation) ⟨s,f,c⟩ = (.error (.storage e),⟨s.putObject object,f,c+2⟩) := by
  rw [bind_ok (puts.ok f c calm)]
  exact call_fault fault

theorem record_nothing (puts : Puts write s object) {e : StorageError} (fault : f c = some e) :
    (write >>= fun _ => enqueueMutation mutation) ⟨s,f,c⟩ = (.error (.storage e),⟨s,f,c+1⟩) :=
  bind_error (puts.fault f c e fault)

theorem recorded_length (fresh : s.getMutation mutation.mutationId = none) : (s.mutations.upsert mutation).rows.length = s.mutations.rows.length + 1 := by
  rw [upsert_fresh_rows fresh,List.length_append]
  rfl

def Keeps (P : Table String StoredEncryptedObject (·.objectId) → Prop) (x : Edit α) : Prop :=
  ∀ d, P d.storage.objects → P (x d).2.storage.objects

variable {P : Table String StoredEncryptedObject (·.objectId) → Prop}

theorem keeps_pure (a : α) : Keeps P (pure a : Edit α) := fun _ held => held

theorem keeps_check (result : Except CliError α) : Keeps P (check result) := fun _ held => held

theorem keeps_call {step : Storage → Except StorageError (α × Storage)} (steady : ∀ s a t, step s = .ok (a,t) → P s.objects → P t.objects) :
    Keeps P (call step) := by
  intro d held
  obtain ⟨s,f,c⟩ := d
  cases fault : f c with
  | some e =>
      rw [call_fault fault]
      exact held
  | none =>
      cases done : step s with
      | error e =>
          rw [call_refused fault done]
          exact held
      | ok pair =>
          rw [call_ok fault done]
          exact steady s _ _ done held

theorem keeps_bind {x : Edit α} {g : α → Edit β} (one : Keeps P x) (two : ∀ a, Keeps P (g a)) : Keeps P (x >>= g) := by
  intro d held
  have first := one d held
  cases ran : x d with
  | mk result d' =>
      rw [ran] at first
      cases result with
      | error e =>
          rw [bind_error ran]
          exact first
      | ok a =>
          rw [bind_ok ran]
          exact two a d' first

theorem keeps_enqueue (mutation : PendingMutation) : Keeps P (enqueueMutation mutation) := by
  apply keeps_call
  intro s a t done held
  cases made : s.enqueueMutation mutation with
  | error e =>
      rw [made] at done
      cases done
  | ok u =>
      rw [made] at done
      cases done
      rw [(enqueue_cases made).2]
      exact held

theorem keeps_put (steady : ∀ objects, P objects → P (objects.upsert object)) : Keeps P (putObject object) := by
  apply keeps_call
  intro s a t done held
  cases done
  exact steady s.objects held

-- A record and then the rest of the edit, two calls later. `P` tells the new head
-- from the old.
theorem chart_record {rest : Unit → Edit α} {first' last : Option Nat} {whole : Heads} (puts : Puts write s object)
    (fresh : s.getMutation mutation.mutationId = none) (unlike : ¬P s.objects) (like : P (s.objects.upsert object)) (kept : Keeps P (rest ()))
    (chart : Chart (rest ()) {s with objects := s.objects.upsert object, mutations := s.mutations.upsert mutation} first' last whole)
    (ends : ∀ j, last = some j → first' = none → j = 0) (longer : last ≠ none → s.mutations.rows.length < whole.2.rows.length)
    (more : first' ≠ none → last ≠ none → s.mutations.rows.length + 1 < whole.2.rows.length) :
    Chart ((write >>= fun _ => enqueueMutation mutation) >>= rest) s (some 0) (last.map (2 + ·)) whole := by
  have done : ∀ (f : Nat → Option StorageError) c, (∀ k < 2, f (c+k) = none) →
      ((write >>= fun _ => enqueueMutation mutation) >>= rest) ⟨s,f,c⟩ =
        rest () ⟨{s with objects := s.objects.upsert object, mutations := s.mutations.upsert mutation},f,c+2⟩ :=
    fun f c calm => bind_ok (record_done puts fresh (calm 0 (by omega)) (calm 1 (by omega)))
  have half : ∀ (f : Nat → Option StorageError) c, f c = none → (f (c+1)).isSome = true →
      (((write >>= fun _ => enqueueMutation mutation) >>= rest) ⟨s,f,c⟩).2.storage = s.putObject object := by
    intro f c calm fault
    obtain ⟨e,is⟩ := Option.isSome_iff_exists.mp fault
    rw [bind_error (record_half puts calm is)]
  have unfailed : ∀ (f : Nat → Option StorageError) c, f c = none → (f (c+1)).isSome = true ∨ ∀ k < 2, f (c+k) = none := by
    intro f c calm
    cases second : f (c+1) with
    | some e => exact .inl rfl
    | none =>
        right
        intro k inside
        have either : k = 0 ∨ k = 1 := by omega
        rcases either with rfl | rfl
        · exact calm
        · exact second
  refine ⟨(fun none => by cases none),?_,?_,?_,?_,?_,?_⟩
  · intro i is f c fault
    cases is
    obtain ⟨k,inside,here⟩ := fault
    have zero : k = 0 := by omega
    rw [zero,Nat.add_zero] at here
    obtain ⟨e,is⟩ := Option.isSome_iff_exists.mp here
    rw [bind_error (record_nothing puts is)]
  · intro i is f c calm same
    apply unlike
    rw [← same]
    have first := calm 0 (Nat.zero_le i)
    rcases unfailed f c first with fault | both
    · rw [half f c first fault]
      exact like
    · rw [done f c both]
      exact kept _ like
  · intro j is f c calm
    obtain ⟨j',is',rfl⟩ := Option.map_eq_some_iff.mp is
    obtain ⟨before,after⟩ := calm_later calm
    rw [done f c before]
    exact chart.complete j' is' f (c+2) after
  · intro j is c
    obtain ⟨j',is',rfl⟩ := Option.map_eq_some_iff.mp is
    rw [done never c (fun _ _ => rfl)]
    exact chart.done j' is' (c+2)
  · intro none c
    rw [done never c (fun _ _ => rfl)]
    exact chart.failed (Option.map_eq_none_iff.mp none) (c+2)
  · intro i j isI isJ f c calm fault
    cases isI
    obtain ⟨j',isJ',rfl⟩ := Option.map_eq_some_iff.mp isJ
    have ending : last ≠ none := by
      rw [isJ']
      exact Option.some_ne_none j'
    have first := calm 0 (Nat.le_refl 0)
    rcases unfailed f c first with fault' | both
    · rw [half f c first fault']
      exact longer ending
    · obtain ⟨k,above,under,here⟩ := fault
      obtain ⟨beyond,there⟩ := fault_later both here
      rw [done f c both]
      have after : s.mutations.rows.length + 1 = (s.mutations.upsert mutation).rows.length := (recorded_length fresh).symm
      cases opens : first' with
      | none =>
          have nothing := ends j' isJ' opens
          omega
      | some i =>
          have most := more (by rw [opens]; exact Option.some_ne_none i) ending
          rcases fault_or_calm f (c+2) (i+1) with early | calm'
          · obtain ⟨m,low,there'⟩ := early
            have same := chart.early i opens f (c+2) ⟨m,by omega,there'⟩
            rw [(Prod.mk.inj same).2]
            exact after ▸ most
          · obtain ⟨past,_⟩ := fault_later calm' there
            exact chart.short i j' opens isJ' f (c+2) (fun m low => calm' m (by omega)) ⟨k-2,by omega,by omega,there⟩

variable {Key Note : Type} {codec : NoteCodec Key Note} {key : Key}

-- Without a fault these are the edits of one storage.
theorem never_ok {step : Storage → Except StorageError (α × Storage)} {a : α} (c : Nat) (done : step s = .ok (a,t)) :
    call step ⟨s,never,c⟩ = (.ok a,⟨t,never,c+1⟩) := call_ok rfl done

theorem queue_never (mutation : PendingMutation) (a : α) (s : Storage) (c : Nat) :
    (LocalEdits.enqueueMutation mutation >>= fun _ => pure a) ⟨s,never,c⟩ =
      ((queueEdit s mutation).1.map (fun _ => a),⟨(queueEdit s mutation).2,never,c+1⟩) := by
  unfold queueEdit
  cases queued : s.enqueueMutation mutation with
  | error e =>
      have ran : LocalEdits.enqueueMutation mutation ⟨s,never,c⟩ = (.error (.storage e),⟨s,never,c+1⟩) := by
        apply call_refused rfl
        rw [queued]
        rfl
      exact bind_error ran
  | ok t =>
      have ran : LocalEdits.enqueueMutation mutation ⟨s,never,c⟩ = (.ok (),⟨t,never,c+1⟩) := by
        apply never_ok
        rw [queued]
        rfl
      exact bind_ok ran

theorem finish_never (object : StoredEncryptedObject) (mutation : PendingMutation) (a : α) (s : Storage) (c : Nat) :
    (record object mutation >>= fun _ => pure a) ⟨s,never,c⟩ =
      ((queueEdit (s.putObject object) mutation).1.map (fun _ => a),⟨(queueEdit (s.putObject object) mutation).2,never,c+2⟩) := by
  have put : LocalEdits.putObject object ⟨s,never,c⟩ = (.ok (),⟨s.putObject object,never,c+1⟩) := never_ok c rfl
  rw [record,bind_assoc,bind_ok put]
  exact queue_never mutation a _ (c+1)

theorem start_never (s : Storage) (noteId : String) (includeDeleted : Bool) (c : Nat) : ∃ n,
    LocalEdits.findByStart noteId includeDeleted ⟨s,never,c⟩ = (Notes.findByStart s noteId includeDeleted,⟨s,never,n⟩) := by
  unfold LocalEdits.findByStart Notes.findByStart
  by_cases long : 4 ≤ noteId.utf8ByteSize
  · have listing : ∀ filter c, LocalEdits.listObjects filter ⟨s,never,c⟩ = (.ok (s.listObjects filter),⟨s,never,c+1⟩) :=
      fun filter c => never_ok c rfl
    rw [if_pos long,if_pos long,bind_ok (listing _ c)]
    cases listed : (s.listObjects ⟨some objectKindNote,includeDeleted⟩).filter (fun o => startsWith o.objectId noteId) with
    | nil =>
        cases includeDeleted with
        | true => exact ⟨c+1,rfl⟩
        | false =>
            dsimp only
            rw [if_neg Bool.false_ne_true,bind_ok (listing _ (c+1))]
            cases (s.listObjects ⟨some objectKindNote,true⟩).filter (fun o => startsWith o.objectId noteId && o.isDeleted) with
            | nil => exact ⟨c+1+1,rfl⟩
            | cons obj rest => exact ⟨c+1+1,rfl⟩
    | cons obj rest =>
        cases rest with
        | nil => exact ⟨c+1,rfl⟩
        | cons next rest => exact ⟨c+1,rfl⟩
  · rw [if_neg long,if_neg long]
    exact ⟨c,rfl⟩

theorem find_never (s : Storage) (noteId : String) (includeDeleted : Bool) (c : Nat) : ∃ n,
    LocalEdits.findNoteObject noteId includeDeleted ⟨s,never,c⟩ = (Notes.findNoteObject s noteId includeDeleted,⟨s,never,n⟩) := by
  have read : LocalEdits.getObject noteId ⟨s,never,c⟩ = (.ok (s.getObject noteId),⟨s,never,c+1⟩) := never_ok c rfl
  unfold LocalEdits.findNoteObject Notes.findNoteObject
  rw [bind_ok read]
  cases held : s.getObject noteId with
  | none => exact start_never s noteId includeDeleted (c+1)
  | some obj =>
      dsimp only
      split
      · exact ⟨c+1,rfl⟩
      · exact start_never s noteId includeDeleted (c+1)

theorem create_never (draw : Draw) (content : Content) (s : Storage) (c : Nat) : ∃ n,
    LocalEdits.createNote codec key draw content ⟨s,never,c⟩ =
      ((Notes.createNote codec key draw content s).1,⟨(Notes.createNote codec key draw content s).2,never,n⟩) := by
  unfold LocalEdits.createNote Notes.createNote
  cases build : codec.build content.title content.body content.tags none draw.now with
  | error e => exact ⟨c,rfl⟩
  | ok note =>
      rw [core_ok]
      dsimp only
      cases sealed : codec.encrypt draw.seed note key draw.objectId with
      | error e => exact ⟨c,rfl⟩
      | ok envelope =>
          rw [core_ok]
          exact ⟨c+2,finish_never _ _ _ s c⟩
theorem update_never (draw : Draw) (noteId : String) (content : Content) (s : Storage) (c : Nat) : ∃ n,
    LocalEdits.updateNote codec key draw noteId content ⟨s,never,c⟩ =
      ((Notes.updateNote codec key draw noteId content s).1,⟨(Notes.updateNote codec key draw noteId content s).2,never,n⟩) := by
  obtain ⟨n,found⟩ := find_never s noteId false c
  unfold LocalEdits.updateNote Notes.updateNote
  cases result : Notes.findNoteObject s noteId false with
  | error e =>
      rw [result] at found
      exact ⟨n,bind_error found⟩
  | ok stored =>
      rw [result] at found
      rw [bind_ok found]
      dsimp only
      cases unsealed : codec.decrypt stored.envelope key with
      | error e => exact ⟨n,rfl⟩
      | ok prior =>
          rw [core_ok]
          dsimp only
          cases build : codec.build content.title content.body content.tags (some (codec.createdAt prior)) draw.now with
          | error e => exact ⟨n,rfl⟩
          | ok note =>
              have based : LocalEdits.putBaseVersion stored.objectId stored.revision stored.envelope ⟨s,never,n⟩ =
                  (.ok (),⟨s.putBaseVersion stored.objectId stored.revision stored.envelope,never,n+1⟩) := never_ok n rfl
              rw [core_ok,bind_ok based]
              dsimp only
              cases sealed : codec.encrypt draw.seed note key stored.objectId with
              | error e => exact ⟨n+1,rfl⟩
              | ok envelope =>
                  rw [core_ok]
                  exact ⟨n+1+2,finish_never _ _ _ _ (n+1)⟩

theorem delete_never (draw : Draw) (noteId : String) (purge : Bool) (s : Storage) (c : Nat) : ∃ n,
    LocalEdits.deleteNote draw noteId purge ⟨s,never,c⟩ =
      ((Notes.deleteNote draw noteId purge s).1,⟨(Notes.deleteNote draw noteId purge s).2,never,n⟩) := by
  obtain ⟨n,found⟩ := find_never s noteId purge c
  unfold LocalEdits.deleteNote Notes.deleteNote
  cases result : Notes.findNoteObject s noteId purge with
  | error e =>
      rw [result] at found
      exact ⟨n,bind_error found⟩
  | ok stored =>
      rw [result] at found
      rw [bind_ok found]
      dsimp only
      cases purge with
      | true => exact ⟨n+2,rfl⟩
      | false =>
          have based : LocalEdits.putBaseVersion stored.objectId stored.revision stored.envelope ⟨s,never,n⟩ =
              (.ok (),⟨s.putBaseVersion stored.objectId stored.revision stored.envelope,never,n+1⟩) := never_ok n rfl
          rw [if_neg Bool.false_ne_true,if_neg Bool.false_ne_true,bind_ok based]
          cases marked : (s.putBaseVersion stored.objectId stored.revision stored.envelope).markDeleted stored.objectId (stored.revision+1)
              stored.envelope draw.now with
          | error e =>
              refine ⟨n+1+1,bind_error (call_refused rfl ?_)⟩
              rw [marked]
              rfl
          | ok t =>
              have done : LocalEdits.markDeleted stored.objectId (stored.revision+1) stored.envelope draw.now
                  ⟨s.putBaseVersion stored.objectId stored.revision stored.envelope,never,n+1⟩ = (.ok (),⟨t,never,n+1+1⟩) := by
                apply never_ok
                rw [marked]
                rfl
              rw [bind_ok done]
              exact ⟨n+1+1+1,queue_never _ _ t (n+1+1)⟩

end ZkNote.EditCharts
