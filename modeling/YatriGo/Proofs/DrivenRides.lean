import YatriGo.Proofs.DriverFootprint
import YatriGo.Proofs.Locations
import YatriGo.Proofs.RideDrivers

/-! Where the references from drivers to rides come from. Only the accept script makes a new one, for the driver it puts
on the ride; all other writes copy one that was read before. -/

namespace YatriGo
open Concurrent

/-- The ride, if there is one, is one that the driver referred to at some moment. -/
def Named (past : Set Store) (d : DriverId) (active : Option RideId) : Prop :=
  ∀ r, active = some r → ∃ s ∈ past, Refers d r s

/-- The coordinates are those that the hash was given, or reads as. -/
def DriverHash.places (hash : DriverHash) (lat lng : Option ℚ) : Prop :=
  (hash.lat = .ofNumber lat ∧ hash.lng = .ofNumber lng) ∨ (hash.lat.toNumber = lat ∧ hash.lng.toNumber = lng)

/-- The state is about a ride that the driver referred to, and about a place where the driver's hash had it. -/
structure Recalled (past : Set Store) (d : DriverId) (state : DriverState) : Prop where
  ride : Named past d state.activeRideId
  place : ∃ s ∈ past, (s.driverHash d).places state.lat state.lng

/-- A reference that is written to a hash is one that was seen. -/
def references (env : Env) : Evidence (system env) where
  needs := fun _ c past => match c with
    | .multi ws => ∀ d fields r, .hsetDriver d fields ∈ ws → .activeRideId (some r) ∈ fields → ∃ s ∈ past, Refers d r s
    | _ => True
  mono := fun β c past past' hle h => by
    cases c with
    | multi ws =>
      intro d fields r hw hf
      obtain ⟨s, hs, href⟩ := h d fields r hw hf
      exact ⟨s, hle hs, href⟩
    | _ => trivial

abbrev Recalls (env : Env) (i : ℕ) {α : Type} (Q : α → Set Store → Prop) (p : App α) (past : Set Store) : Prop :=
  (references env).Cites i Q p past

variable {env : Env} {i : ℕ} {α β : Type} {past past' : Set Store} {p : App α} {r : RideId} {d d' : DriverId} {state : DriverState}
  {active : Option RideId} {s t : Store} {lat lng : Option ℚ} {socketId : Option SocketId}

theorem Named.mono (h : Named past d active) (hle : past ⊆ past') : Named past' d active := by
  intro r hr
  obtain ⟨s, hs, href⟩ := h r hr
  exact ⟨s, hle hs, href⟩

theorem Recalled.mono (h : Recalled past d state) (hle : past ⊆ past') : Recalled past' d state := by
  obtain ⟨s, hs, hplace⟩ := h.place
  exact ⟨h.ride.mono hle, s, hle hs, hplace⟩

section operations

theorem releaseWrites_unnamed {r' : RideId} {hash : DriverHash} {heartbeatExists : Bool} {now : Time} {fields : List DriverField}
    (hw : .hsetDriver d fields ∈ releaseWrites d' r' hash active heartbeatExists now) : .activeRideId (some r) ∉ fields := by
  simp only [releaseWrites, List.mem_append] at hw
  rcases hw with (hw | hw) | hw
  · simp at hw
  · split_ifs at hw <;> simp at hw
  · split_ifs at hw
    · obtain ⟨-, rfl⟩ := Write.hsetDriver.inj (List.mem_singleton.mp hw)
      simp
    · rcases List.mem_append.mp hw with hw | hw
      · simp only [List.mem_cons, Write.hsetDriver.injEq, List.not_mem_nil, or_false, reduceCtorEq] at hw
        rw [hw.2]
        simp
      · split at hw <;> simp at hw

theorem recalls_elsewhere (h : ∀ d, Elsewhere d p) : Recalls env i (fun _ _ => True) p past := by
  induction p generalizing past with
  | ret a => trivial
  | throw e => trivial
  | cmd c k ih =>
    refine ⟨?_, fun s => ih _ fun d => (h d).2 _⟩
    cases c with
    | multi ws =>
      intro d fields r hw hf
      have hws : ElsewhereWrites d ws := (h d).1
      cases hws with
      | elsewhere hws => exact absurd rfl (hws _ hw)
      | release r' hash active heartbeatExists now => exact absurd hf (releaseWrites_unnamed hw)
    | _ => trivial

theorem Slight.recalls (h : Slight p) : Recalls env i (fun _ _ => True) p past := recalls_elsewhere fun _ => h.elsewhere

theorem recalled_read (h : toDriverSnapshot (s.driverHash d) = some state) (hs : s ∈ past) : Recalled past d state := by
  unfold toDriverSnapshot at h
  cases hstatus : (s.driverHash d).status with
  | none =>
    rw [hstatus] at h
    cases h
  | some status =>
    rw [hstatus] at h
    cases h
    exact ⟨fun r hr => ⟨s, hs, .inr hr⟩, s, hs, .inr ⟨rfl, rfl⟩⟩

theorem recalls_getDriverState : Recalls env i (fun existing u => ∀ state, existing = some state → Recalled u d state)
    (getDriverState d) past :=
  ⟨trivial, fun _ _ hstate => recalled_read hstate (Set.mem_insert ..)⟩

theorem persistWrites_named {fields : List DriverField} (hw : .hsetDriver d' fields ∈ persistWrites env d state)
    (hf : .activeRideId (some r) ∈ fields) : d' = d ∧ state.activeRideId = some r := by
  simp only [persistWrites, List.mem_append] at hw
  rcases hw with (hw | hw) | hw
  · simp only [List.mem_cons, Write.hsetDriver.injEq, reduceCtorEq, List.not_mem_nil, or_false] at hw
    obtain ⟨rfl, rfl⟩ := hw
    simp only [List.mem_cons, DriverField.activeRideId.injEq, reduceCtorEq, List.not_mem_nil, or_false, false_or] at hf
    exact ⟨rfl, hf.symm⟩
  · split_ifs at hw
    · rcases List.mem_append.mp hw with hw | hw
      · simp at hw
      · split at hw <;> simp at hw
    · simp at hw
    · simp at hw
  · split at hw <;> simp at hw

theorem recalls_persist (h : Named past d state.activeRideId) :
    Recalls env i (fun _ u => Recalled u d state) (persistDriverRealtimeState env d state) past := by
  have hneeds : (references env).needs (.multi (persistWrites env d state)) past := by
    intro d' fields r hw hf
    obtain ⟨rfl, hr⟩ := persistWrites_named hw hf
    exact h r hr
  refine ⟨hneeds, fun s => ⟨h.mono ?_, s.multi (persistWrites env d state), ?_, .inl ?_⟩⟩
  · exact (Set.subset_insert _ _).trans (Set.subset_insert _ _)
  · exact Set.mem_insert_of_mem _ (Set.mem_insert ..)
  · exact ⟨persisted_hash.1, persisted_hash.2.1⟩

theorem locksFree_references : LocksFree (references env) := ⟨fun _ => trivial, fun _ _ _ _ => trivial, fun _ _ _ => trivial⟩

theorem named_orElse {existing : Option DriverState} (hexisting : ∀ state, existing = some state → Recalled past d state)
    (hs : s ∈ past) (hactive : s.driverActiveRide d = active) :
    Named past d (active <|> existing.bind DriverState.activeRideId) := by
  intro r hr
  cases active with
  | some r' =>
    cases hr
    exact ⟨s, hs, .inl hactive⟩
  | none =>
    cases existing with
    | none => cases hr
    | some existing => exact (hexisting existing rfl).ride r hr

theorem recalls_heartbeat : Recalls env i (fun state u => Recalled u d state) (heartbeat env d lat lng socketId) past := by
  have hmono : ∀ state u v, u ⊆ v → Recalled u d state → Recalled v d state := fun _ _ _ hle h => h.mono hle
  refine (cites_retryLock (fun _ _ => locksFree_references.withLock hmono fun v _ => ?_) 3).bind fun result u hu hresult => ?_
  · refine recalls_getDriverState.bind fun existing w hw hexisting => ?_
    cases existing with
    | none => trivial
    | some existing =>
      have hknown : Recalled w d existing := hexisting existing rfl
      dsimp only
      split_ifs
      · exact hknown
      · refine ⟨trivial, fun s => ?_⟩
        have hle : w ⊆ insert s (insert s w) := (Set.subset_insert _ _).trans (Set.subset_insert _ _)
        let snapshot : DriverState :=
          { existing with
            lat := lat, lng := lng
            socketId := socketId <|> existing.socketId
            lastHeartbeatAt := some s.clock
            updatedAt := some s.clock }
        have hpersist : Recalls env i (fun _ u => Recalled u d snapshot) (persistDriverRealtimeState env d snapshot)
            (insert s (insert s w)) := recalls_persist (hknown.ride.mono hle)
        exact hpersist.bind fun _ _ _ hsnapshot => hsnapshot
  · cases result with
    | none => trivial
    | some result =>
      exact slight_enqueueDriverSync.recalls.bind fun _ v hv _ => (hresult result rfl).mono hv

theorem recalls_restoreDriverSession : Recalls env i (fun _ _ => True) (restoreDriverSession env d socketId) past := by
  refine (locksFree_references.withLock (Q := fun _ _ => True) (fun _ _ _ _ h => h) fun v _ => ?_).bind fun result u _ _ => ?_
  · refine recalls_getDriverState.bind fun existing w _ hexisting => ?_
    cases existing with
    | none => trivial
    | some existing =>
      dsimp only
      split_ifs
      · trivial
      · refine ⟨trivial, fun s => ?_⟩
        have hle : w ⊆ insert s (insert s w) := (Set.subset_insert _ _).trans (Set.subset_insert _ _)
        let snapshot : DriverState := { existing with socketId, lastHeartbeatAt := some s.clock, updatedAt := some s.clock }
        have hpersist : Recalls env i (fun _ u => Recalled u d snapshot) (persistDriverRealtimeState env d snapshot)
            (insert s (insert s w)) := recalls_persist ((hexisting existing rfl).ride.mono hle)
        exact hpersist.bind fun _ _ _ _ => trivial
  · cases result.join with
    | none => trivial
    | some result => exact slight_enqueueDriverSync.recalls.bind fun _ _ _ _ => trivial

theorem recalls_goOnline : Recalls env i (fun _ _ => True) (goOnline env d lat lng socketId) past := by
  refine (cites_retryLock (Q := fun _ _ => True) (fun _ _ => locksFree_references.withLock (fun _ _ _ _ h => h) fun v _ => ?_) 3).bind
    fun result u _ _ => ?_
  · refine recalls_getDriverState.bind fun existing w _ hexisting => ⟨trivial, fun s => ⟨trivial, fun t => ?_⟩⟩
    have hle : insert s (insert s w) ⊆ insert t (insert t (insert s (insert s w))) :=
      (Set.subset_insert _ _).trans (Set.subset_insert _ _)
    have hnamed : Named (insert s (insert s w)) d (s.driverActiveRide d <|> existing.bind DriverState.activeRideId) := by
      refine named_orElse (fun state hstate => (hexisting state hstate).mono ?_) (Set.mem_insert ..) rfl
      exact (Set.subset_insert _ _).trans (Set.subset_insert _ _)
    exact (recalls_persist (hnamed.mono hle)).bind fun _ _ _ _ => trivial
  · refine recalls_elsewhere fun d' => ⟨trivial, fun driverExists => ?_⟩
    cases driverExists with
    | false => trivial
    | true =>
      cases result with
      | none => trivial
      | some result =>
        exact Slight.elsewhere (slight_enqueueDriverSync.bind fun _ => slight_publish.bind fun _ => trivial)

theorem offlineWrites_named {existing : Option DriverState} {now : Time} {fields : List DriverField}
    (hw : .hsetDriver d' fields ∈ offlineWrites d existing active now) (hf : .activeRideId (some r) ∈ fields) :
    d' = d ∧ active = some r := by
  simp only [offlineWrites, List.mem_cons, Write.hsetDriver.injEq, reduceCtorEq, List.not_mem_nil, or_false, false_or] at hw
  obtain ⟨rfl, rfl⟩ := hw
  simp only [List.mem_cons, DriverField.activeRideId.injEq, reduceCtorEq, List.not_mem_nil, or_false, false_or] at hf
  exact ⟨rfl, hf.symm⟩

theorem recalls_goOffline : Recalls env i (fun _ _ => True) (goOffline env d) past := by
  refine (locksFree_references.withLock (Q := fun _ _ => True) (fun _ _ _ _ h => h) fun v _ => ?_).bind fun result u _ _ => ?_
  · refine recalls_getDriverState.bind fun existing w _ hexisting => ⟨trivial, fun q => ⟨trivial, fun s => ⟨trivial, fun t => ?_⟩⟩⟩
    let seen : Set Store := insert s (insert s (insert q (insert q w)))
    have hnamed : Named (insert t (insert t seen)) d (s.driverActiveRide d <|> existing.bind DriverState.activeRideId) := by
      have hle : w ⊆ seen := by
        intro x hx
        simp only [seen, Set.mem_insert_iff, hx, or_true]
      refine (named_orElse (fun state hstate => (hexisting state hstate).mono hle) (Set.mem_insert ..) rfl).mono ?_
      exact (Set.subset_insert _ _).trans (Set.subset_insert _ _)
    refine ⟨?_, fun _ => slight_publish.recalls.bind fun _ _ _ _ => trivial⟩
    intro d' fields r hw hf
    obtain ⟨rfl, hr⟩ := offlineWrites_named hw hf
    exact hnamed r hr
  · cases result with
    | none => trivial
    | some result => exact ⟨trivial, fun _ => slight_enqueueDriverSync.recalls.bind fun _ _ _ _ => trivial⟩

theorem recalls_scanStaleDriversLoop (ds : List DriverId) : Recalls env i (fun _ _ => True) (scanStaleDriversLoop env ds) past := by
  induction ds generalizing past with
  | nil => trivial
  | cons driverId rest ih =>
    refine ⟨trivial, fun _ => ?_⟩
    dsimp only [Prog.ret_bind]
    split_ifs
    · exact ih
    · exact recalls_goOffline.bind fun _ _ _ _ => ⟨trivial, fun _ => ih.bind fun _ _ _ _ => trivial⟩

/-- No operation writes a reference that it has not seen. -/
theorem recalls_code (op : Op) : Recalls env i (fun _ _ => True) (code env op) past := by
  have hdiscard : ∀ {α : Type} {p : App α}, (∀ d, Elsewhere d p) → Recalls env i (fun _ _ => True) (discard p) past :=
    fun hp => (recalls_elsewhere hp).bind fun _ _ _ _ => trivial
  cases op with
  | requestRide c origin destination metadata => exact hdiscard fun _ => elsewhere_requestRide
  | startDispatch r => exact hdiscard fun _ => elsewhere_startDispatch
  | handleBatchTimeout r batchId => exact hdiscard fun _ => elsewhere_handleBatchTimeout
  | handleDriverRejection r d reason => exact hdiscard fun _ => elsewhere_handleDriverRejection
  | acceptRide r d => exact hdiscard fun _ => elsewhere_acceptRide
  | markDriverArriving r d => exact hdiscard fun _ => elsewhere_transitionByDriver
  | startRide r d => exact hdiscard fun _ => elsewhere_transitionByDriver
  | completeRide r d => exact hdiscard fun _ => elsewhere_transitionByDriver
  | cancelRide r actorType actorId reason => exact hdiscard fun _ => elsewhere_cancelRide
  | requeueRideAfterDriverLoss r d => exact hdiscard fun _ => elsewhere_requeueRideAfterDriverLoss
  | goOnline d lat lng socketId => exact recalls_goOnline.bind fun _ _ _ _ => trivial
  | heartbeat d lat lng socketId => exact recalls_heartbeat.bind fun _ _ _ _ => trivial
  | goOffline d => exact recalls_goOffline.bind fun _ _ _ _ => trivial
  | goOfflineAndDrop d reason =>
    exact recalls_goOffline.bind fun _ _ _ _ => recalls_elsewhere fun _ => elsewhere_handleDriverDrop
  | restoreDriverSession d socketId => exact recalls_restoreDriverSession.bind fun _ _ _ _ => trivial
  | scanStaleDriversAndRecover =>
    refine ⟨trivial, fun _ => (recalls_scanStaleDriversLoop _).bind fun _ _ _ _ => recalls_elsewhere fun _ => ?_⟩
    exact .forEach fun _ _ => elsewhere_handleDriverDrop
  | recoverDispatchingRides => exact slight_recoverDispatchingRides.recalls
  | work job => exact recalls_elsewhere fun _ => elsewhere_work

end operations

section runs

variable {c : Cmd β} {q : State} {as : List Step} {ws : List Write}

theorem persistWrites_pointer (hw : .setDriverActiveRide d r ∈ persistWrites env d' state) :
    d = d' ∧ state.activeRideId = some r := by
  simp only [persistWrites, List.mem_append] at hw
  rcases hw with (hw | hw) | hw
  · simp at hw
  · split_ifs at hw
    · rcases List.mem_append.mp hw with hw | hw
      · simp at hw
      · split at hw <;> simp at hw
    · simp at hw
    · simp at hw
  · split at hw
    · rename_i r' hr'
      obtain ⟨rfl, rfl⟩ := Write.setDriverActiveRide.inj (List.mem_singleton.mp hw)
      exact ⟨rfl, hr'⟩
    · simp at hw

theorem releaseWrites_pointer {r' : RideId} {hash : DriverHash} {heartbeatExists : Bool} {now : Time} :
    .setDriverActiveRide d r ∉ releaseWrites d' r' hash active heartbeatExists now := by
  intro hw
  simp only [releaseWrites, List.mem_append] at hw
  rcases hw with (hw | hw) | hw
  · simp at hw
  · split_ifs at hw <;> simp at hw
  · split_ifs at hw
    · simp at hw
    · rcases List.mem_append.mp hw with hw | hw
      · simp at hw
      · split at hw <;> simp at hw

/-- A MULTI that writes a pointer writes the hash as well. -/
theorem update_pointer (h : Update env False i ws s) (hw : .setDriverActiveRide d r ∈ ws) :
    ∃ fields, .hsetDriver d fields ∈ ws ∧ .activeRideId (some r) ∈ fields := by
  cases h with
  | background h =>
    cases h with
    | minor hminor => exact (hminor _ hw).elim
    | persist d' state =>
      obtain ⟨rfl, hr⟩ := persistWrites_pointer hw
      refine ⟨_, List.mem_append_left _ (List.mem_append_left _ (List.mem_cons_self ..)), ?_⟩
      simp [hr]
    | offline d' existing active now => simp [offlineWrites] at hw
  | create c origin destination metadata now r' mine seq absent alone => simp at hw
  | ride pre post r' g fields holds since write aside =>
    -- the update of the ride is the one write that is not aside, and it is no pointer
    rcases List.mem_append.mp hw with hpre | hpost
    · exact (aside _ (List.mem_append_left _ hpre)).elim
    · rcases List.mem_cons.mp hpost with heq | hpost
      · cases heq
      · exact (aside _ (List.mem_append_right _ hpost)).elim
  | cleanup r' notifiedDrivers currentCustomerRide holds terminal =>
    simp only [cleanupWrites, List.mem_append, List.mem_map] at hw
    split_ifs at hw <;> simp at hw
  | release d' r' driverHash driverActiveRide heartbeatExists now holds driver => exact (releaseWrites_pointer hw).elim

theorem write_names {w : Write} (h : Refers d r (w.apply s)) : Refers d r s ∨ w = .setDriverActiveRide d r ∨
    ∃ fields, w = .hsetDriver d fields ∧ .activeRideId (some r) ∈ fields := by
  cases w with
  | setDriverActiveRide d' r' =>
    rcases h with h | h
    · change put s.driverActiveRide d' (some r') d = some r at h
      rcases eq_or_ne d d' with rfl | hne
      · rw [put_self] at h
        cases h
        exact .inr (.inl rfl)
      · rw [put_of_ne hne] at h
        exact .inl (.inl h)
    · exact .inl (.inr h)
  | delDriverActiveRide d' =>
    -- what is deleted names nothing any more
    rcases h with h | h
    · change put s.driverActiveRide d' none d = some r at h
      rcases eq_or_ne d d' with rfl | hne
      · rw [put_self] at h
        cases h
      · rw [put_of_ne hne] at h
        exact .inl (.inl h)
    · exact .inl (.inr h)
  | hsetDriver d' fields =>
    rcases h with h | h
    · exact .inl (.inl h)
    · change (put s.driverHash d' ((s.driverHash d').hset fields) d).activeRideId = some r at h
      rcases eq_or_ne d d' with rfl | hne
      · rw [put_self] at h
        rcases hset_activeRideId h with hmem | hold
        · exact .inr (.inr ⟨fields, rfl, hmem⟩)
        · exact .inl (.inr hold)
      · rw [put_of_ne hne] at h
        exact .inl (.inr h)
  | _ => exact .inl h

theorem multi_names (h : Refers d r (s.multi ws)) : Refers d r s ∨ .setDriverActiveRide d r ∈ ws ∨
    ∃ fields, .hsetDriver d fields ∈ ws ∧ .activeRideId (some r) ∈ fields := by
  induction ws generalizing s with
  | nil => exact .inl h
  | cons w ws ih =>
    rw [multi_cons] at h
    rcases ih h with h | h | ⟨fields, hw, hf⟩
    · rcases write_names h with h | rfl | ⟨fields, rfl, hf⟩
      · exact .inl h
      · exact .inr (.inl (List.mem_cons_self ..))
      · exact .inr (.inr ⟨fields, List.mem_cons_self .., hf⟩)
    · exact .inr (.inl (List.mem_cons_of_mem _ h))
    · exact .inr (.inr ⟨fields, List.mem_cons_of_mem _ hw, hf⟩)

theorem exec_names (hguar : RideGuar env False i c s) (hneeds : (references env).needs c past)
    (h : Refers d r (exec env i c s).2) :
    Refers d r s ∨ (∃ t ∈ past, Refers d r t) ∨ OnRide d r s ∨ OnRide d r (exec env i c s).2 := by
  cases c with
  | multi ws =>
    rcases multi_names h with h | h | ⟨fields, hw, hf⟩
    · exact .inl h
    · obtain ⟨fields, hw, hf⟩ := update_pointer hguar h
      exact .inr (.inl (hneeds d fields r hw hf))
    · exact .inr (.inl (hneeds d fields r hw hf))
  | _ => exact (exec_refers rfl h).imp_right .inr

theorem OnRide.drove (h : OnRide d r s) (hs : s ∈ past) : Drove past d r := by
  refine ⟨s.ride r, ⟨s, hs, rfl, fun hnone => ?_⟩, h.driver⟩
  have hlive := h.live
  rw [hnone] at hlive
  cases hlive

/-- Whatever ride a driver refers to in a run, it drove. -/
theorem drove_of_refers (hrun : (system env).Run RideLocksKept initial as q) (hs : s ∈ Passed (system env) initial as)
    (h : Refers d r s) : Drove (Passed (system env) initial as) d r := by
  have hall : (rides env False).Holds q ∧ ∀ s ∈ Passed (system env) initial as, ∀ d r, Refers d r s →
      Drove (Passed (system env) initial as) d r := by
    refine hrun.last_induction (I := fun as q => (rides env False).Holds q ∧ ∀ s ∈ Passed (system env) initial as,
      ∀ d r, Refers d r s → Drove (Passed (system env) initial as) d r) ⟨rides_initial, fun s hs d r href => ?_⟩
      fun bs a p q hbs hp hok hnext => ⟨rides_kept (.single hok hnext) hp.1, fun s hs d r href => ?_⟩
    · rw [passed_nil, Set.mem_singleton_iff] at hs
      rw [hs] at href
      rcases href with href | href <;> cases href
    · obtain ⟨hholds, hbefore⟩ := hp
      have hlater : ∀ s ∈ Passed (system env) initial bs, Refers d r s → Drove (Passed (system env) initial (bs ++ [a])) d r :=
        fun s hs href => (hbefore s hs d r href).mono passed_append
      rw [hbs.passed_snoc hnext] at hs
      rcases hs with rfl | hs
      · rcases next_cases hnext with hsame | ⟨i, op, β, c, k, rfl, hi, hstore⟩
        · exact hlater _ hbs.passed (hsame.refers.mp href)
        · -- the step of a thread: the reference is old, was seen by it, or is that of a driver on the ride
          have hneeds : (references env).needs c (Passed (system env) initial bs) :=
            (Evidence.run (E := references env) (fun i op past => recalls_code op) hbs i op _ hi).1
          have hlast : (exec env i c p.store).2 ∈ Passed (system env) initial (bs ++ [.step i]) := by
            rw [← hstore]
            exact (hbs.append (.single hok hnext)).passed
          rw [hstore] at href
          rcases exec_names (hholds.guar hi trivial) hneeds href with href | ⟨t, ht, href⟩ | hon | hon
          · exact hlater _ hbs.passed href
          · exact hlater t ht href
          · exact hon.drove (passed_append hbs.passed)
          · exact hon.drove hlast
      · exact hlater s hs href
  exact hall.2 s hs d r h

end runs

end YatriGo
