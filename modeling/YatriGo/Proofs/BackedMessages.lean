import YatriGo.Proofs.BatchOffers
import YatriGo.Proofs.Locations
import YatriGo.Proofs.Messages
import YatriGo.Proofs.Publications
import YatriGo.Proofs.StaleJobs

/-! Every operation publishes only what it has seen, so that what is published was so. -/

namespace YatriGo
open Concurrent

/-- Every message that is published reports what was in the store before. -/
structure MessagesBacked (env : Env) (ok : State → Step → Prop) : Prop where
  backed : ∀ as q, (system env).Run ok initial as q → ∀ m ∈ q.store.published,
    Supported (Passed (system env) initial as) m

/-- The ride that a message is about. -/
def PublishKey.ride : PublishKey → Option RideId
  | .rideRequested r _ => some r
  | .rideStatus r _ => some r
  | .rideStatusDriver r _ => some r
  | .driverState .. => none
  | .driverAssigned r _ => some r
  | .newRideRequest r .. => some r
  | .rideAssigned r .. => some r
  | .rideCancelled r .. => some r
  | .driverConnectionLost r .. => some r

/-- What is published about a ride goes to its customer, and to drivers that were offered it or drove it;
what is published about a driver goes to that driver. -/
structure OwnRooms (env : Env) (ok : State → Step → Prop) : Prop where
  customer : ∀ as q c key r, (system env).Run ok initial as q → ⟨.customer c, key⟩ ∈ q.store.published → key.ride = some r →
    (q.store.ride r).status ≠ none ∧ (q.store.ride r).customerId = c
  driver : ∀ as q d key r, (system env).Run ok initial as q → ⟨.driver d, key⟩ ∈ q.store.published → key.ride = some r →
    Involved (Passed (system env) initial as) r d
  state : ∀ as q room d atTime, (system env).Run ok initial as q → ⟨room, .driverState d atTime⟩ ∈ q.store.published → room = .driver d

variable {env : Env} {i : ℕ} {α β : Type} {past : Set Store} {p : App α} {r : RideId} {d : DriverId} {ride : RideHash} {now : Time}

section batches

variable {batchId : BatchId} {batchDrivers : List DriverId} {expiresAt : Time} {s : Store}

theorem spares_batchWrites : ∀ w ∈ batchDrivers.flatMap fun d =>
    [Write.saddNotified r d, .hsetResponse r d (.pending batchId), .saddPending d r], w.sparesRides := by
  intro w hw
  obtain ⟨d, -, hw⟩ := List.mem_flatMap.mp hw
  simp only [List.mem_cons, List.not_mem_nil, or_false] at hw
  rcases hw with rfl | rfl | rfl <;> trivial

theorem batchId_batchWrites :
    ((s.multi (batchWrites r ride batchId batchDrivers expiresAt now)).ride r).currentBatchId = some batchId := by
  unfold batchWrites
  rw [ride_multi_hset spares_batchWrites]
  rfl

theorem responses_notify : (s.multi (batchDrivers.flatMap fun d =>
    [.saddNotified r d, .hsetResponse r d (.pending batchId), .saddPending d r])).rideResponses r d =
      if d ∈ batchDrivers then some (.pending batchId) else s.rideResponses r d := by
  induction batchDrivers generalizing s with
  | nil => simp
  | cons d' ds ih =>
    rw [List.flatMap_cons, multi_append, ih]
    show (if d ∈ ds then _ else put s.rideResponses r (put (s.rideResponses r) d' (some (.pending batchId))) r d) = _
    rw [put_self, put_apply]
    by_cases hd : d ∈ ds
    · rw [if_pos hd, if_pos (List.mem_cons_of_mem _ hd)]
    · simp only [hd, if_false, List.mem_cons, or_false]

theorem pending_batchWrites (h : d ∈ batchDrivers) :
    (s.multi (batchWrites r ride batchId batchDrivers expiresAt now)).rideResponses r d = some (.pending batchId) := by
  unfold batchWrites
  rw [multi_append, responses_notify, if_pos h]

end batches

section operations

/-- What `getRide` finds was there. -/
def Found (r : RideId) (result : Option RideHash) (past : Set Store) : Prop := ∀ ride, result = some ride → Saw past r ride

theorem Found.mono {result : Option RideHash} {past' : Set Store} (h : Found r result past) (hle : past ⊆ past') :
    Found r result past' := fun ride hride => (h ride hride).mono hle

theorem found_getRide : Cites env i (Found r) (getRide r) past := by
  have h : Cites env i (Found r) ((getRide r).bind .ret) past := by
    refine cites_getRide (fun u _ ride hride => by cases hride) fun ride u _ hsaw ride' hride => ?_
    cases hride
    exact hsaw
  rwa [Prog.bind_ret] at h

theorem found_updateRideHash {fields : List RideField} : Cites env i (Found r) (updateRideHash r fields) past :=
  (wordless_write _).andThen fun _ _ _ => (wordless_write _).andThen fun _ _ _ => found_getRide

theorem backed_emitRideStatusUpdate (h : Saw past r ride) : Backed env i (emitRideStatusUpdate r ride) past := by
  have hcustomer : Supported past ⟨.customer ride.customerId, .rideStatus r ride.version⟩ := ⟨ride, h, rfl, rfl⟩
  refine (cites_publish hcustomer).bind fun _ u hu _ => ?_
  cases hdriver : ride.driverId with
  | none => trivial
  | some driverId =>
    have hdriver' : Supported u ⟨.driver driverId, .rideStatusDriver r ride.version⟩ := ⟨ride, h.mono hu, hdriver, rfl⟩
    exact cites_publish hdriver'

theorem backed_startFirstDispatch : Backed env i (startFirstDispatch env r ride now) past := by
  refine wordless_updateRideHash.andThen fun _ _ _ => found_getRide.bind fun read u _ hfound => ?_
  cases read with
  | none => trivial
  | some read =>
    refine wordless_appendTimelineEvent.andThen fun _ v hv => wordless_addJob.andThen fun _ w hw => ?_
    exact (backed_emitRideStatusUpdate ((hfound read rfl).mono (hv.trans hw))).bind fun _ _ _ _ => trivial

theorem backed_exhaustSearch : Backed env i (exhaustSearch r ride now) past := by
  refine found_updateRideHash.bind fun read u _ hfound => ?_
  cases read with
  | none => trivial
  | some read =>
    refine wordless_appendTimelineEvent.andThen fun _ v hv => wordless_cleanupTerminalRideKeys.andThen fun _ w hw =>
      wordless_addJob.andThen fun _ x hx => ?_
    exact (backed_emitRideStatusUpdate ((hfound read rfl).mono (hv.trans (hw.trans hx)))).bind fun _ _ _ _ => trivial

theorem backed_sendBatch {batchId : BatchId} {batchDrivers : List DriverId} :
    Backed env i (sendBatch env r ride batchId batchDrivers now) past := by
  refine ⟨trivial, fun s => ?_⟩
  let sent : Store := s.multi (batchWrites r ride batchId batchDrivers (now + env.dispatch.responseTtlMs) now)
  have hsent : ∀ d ∈ batchDrivers, ∀ u, insert s (insert sent past) ⊆ u →
      Supported u ⟨.driver d, .newRideRequest r batchId d⟩ := fun d hd u hu => by
    refine ⟨rfl, sent, hu (Set.mem_insert_of_mem _ (Set.mem_insert ..)), ?_, ?_, notified_batchWrites.mpr (.inr hd)⟩
    · exact batchId_batchWrites
    · exact pending_batchWrites hd
  refine wordless_getRide.andThen fun read u hu => ?_
  cases read with
  | none => trivial
  | some read =>
    refine wordless_appendTimelineEvent.andThen fun _ v hv => wordless_addJob.andThen fun _ w hw =>
      wordless_addJob.andThen fun _ x hx => ?_
    refine Evidence.Cites.bind (Evidence.Cites.forEach fun d hd y hy => ?_) fun _ _ _ _ => trivial
    exact cites_publish (hsent d hd y (hu.trans (hv.trans (hw.trans (hx.trans hy)))))

theorem backed_findDrivers {dispatchRound : ℕ} {searchRadiusKm : ℚ} :
    Backed env i (findDrivers env r ride dispatchRound searchRadiusKm now) past := by
  refine ⟨trivial, fun _ => wordless_getNearestAvailableDrivers.andThen fun candidates _ _ =>
    ⟨trivial, fun _ => (wordless_reserveLoop _ _).andThen fun batchDrivers _ _ => ?_⟩⟩
  split_ifs
  · exact backed_exhaustSearch
  · exact wordless_expandSearch.backed
  · exact backed_sendBatch

theorem backed_continueDispatch {dispatchRound : ℕ} {searchRadiusKm : ℚ} :
    Backed env i (continueDispatch env r ride dispatchRound searchRadiusKm now) past := by
  unfold continueDispatch
  cases openBatch ride with
  | none => exact backed_findDrivers
  | some batchId =>
    dsimp only
    split_ifs
    · trivial
    · refine wordless_endBatch.andThen fun _ _ _ => wordless_getRide.andThen fun read _ _ => ?_
      cases read with
      | none => trivial
      | some read => exact backed_findDrivers

theorem backed_dispatchUnderLock : Backed env i (dispatchUnderLock env r) past := by
  refine wordless_getRide.andThen fun read _ _ => ?_
  cases read with
  | none => trivial
  | some read =>
    dsimp only
    split_ifs
    · trivial
    · exact ⟨trivial, fun _ => backed_startFirstDispatch.bind fun _ _ _ _ => backed_continueDispatch⟩
    · exact ⟨trivial, fun _ => backed_continueDispatch⟩

theorem backed_batchTimeoutUnderLock {batchId : BatchId} : Backed env i (batchTimeoutUnderLock env r batchId) past := by
  refine wordless_getRide.andThen fun read _ _ => ?_
  cases read with
  | none => trivial
  | some read =>
    dsimp only
    split_ifs
    · trivial
    · refine ⟨trivial, fun _ => wordless_endBatch.andThen fun _ _ _ => wordless_getRide.andThen fun read' _ _ => ?_⟩
      cases read' with
      | none => trivial
      | some read' => exact wordless_addJob.andThen fun _ _ _ => backed_dispatchUnderLock

theorem backed_handleDriverRejection {reason : Response} : Backed env i (handleDriverRejection env r d reason) past := by
  refine backed_rideLock fun _ _ => wordless_getRide.andThen fun read _ _ => ?_
  cases read with
  | none => trivial
  | some read =>
    dsimp only
    split_ifs
    · trivial
    · refine ⟨trivial, fun now => ⟨trivial, fun t => ?_⟩⟩
      generalize ((system env).exec i (.hgetallResponses r) t).1 = responses
      dsimp only [Prog.ret_bind]
      split_ifs
      · trivial
      · refine ⟨trivial, fun _ => wordless_applyRejectCooldown.andThen fun _ _ _ =>
          wordless_releaseDriverReservations.andThen fun _ _ _ => wordless_appendTimelineEvent.andThen fun _ _ _ =>
          wordless_getRide.andThen fun updated _ _ => ?_⟩
        cases updated with
        | none => trivial
        | some updated =>
          refine wordless_addJob.andThen fun _ _ _ => ?_
          split_ifs
          · exact wordless_releaseDriverReservations.andThen fun _ _ _ => backed_dispatchUnderLock
          · trivial

/-- After an acceptance the driver is told of its ride, and the others of the batch of its end. -/
theorem backed_afterAccept {batchId : Option BatchId} {otherDrivers : List DriverId} {acceptedAt : Time}
    (hdriven : ∃ ride, Saw past r ride ∧ ride.driverId = some d) (hothers : ∀ d' ∈ otherDrivers, Involved past r d') :
    Backed env i (afterAccept r d batchId otherDrivers acceptedAt) past := by
  refine found_getRide.bind fun read u hu hfound => ?_
  cases read with
  | none => trivial
  | some ride =>
    refine wordless_releaseDriverReservations.andThen fun _ u₁ h₁ => wordless_clearPendingMembership.andThen fun _ u₂ h₂ =>
      wordless_appendTimelineEvent.andThen fun _ u₃ h₃ => wordless_addJob.andThen fun _ u₄ h₄ =>
      wordless_enqueueDriverSync.andThen fun _ u₅ h₅ => ?_
    have hle : u ⊆ u₅ := h₁.trans (h₂.trans (h₃.trans (h₄.trans h₅)))
    have hsaw : Saw u₅ r ride := (hfound ride rfl).mono hle
    have hdriven' : ∃ ride, Saw u₅ r ride ∧ ride.driverId = some d := by
      obtain ⟨ride', hride', hdriver⟩ := hdriven
      exact ⟨ride', hride'.mono (hu.trans hle), hdriver⟩
    have hassigned : Supported u₅ ⟨.customer ride.customerId, .driverAssigned r ride.version⟩ := by
      obtain ⟨ride', hride', hdriver⟩ := hdriven'
      exact ⟨⟨ride, hsaw, rfl, rfl⟩, ride', hride', by simp [hdriver]⟩
    refine (cites_publish hassigned).bind fun _ u₆ h₆ _ => ?_
    refine (backed_emitRideStatusUpdate (hsaw.mono h₆)).bind fun _ u₇ h₇ _ => ?_
    have htold : Supported u₇ ⟨.driver d, .rideAssigned r ride.version d⟩ := by
      obtain ⟨ride', hride', hdriver⟩ := hdriven'
      exact ⟨rfl, ⟨ride, hsaw.mono (h₆.trans h₇), rfl⟩, ride', hride'.mono (h₆.trans h₇), hdriver⟩
    refine (cites_publish htold).bind fun _ u₈ h₈ _ => ?_
    refine (backed_emitRideStatusUpdate (hsaw.mono (h₆.trans (h₇.trans h₈)))).bind fun _ u₉ h₉ _ => ?_
    have hend : u₅ ⊆ u₉ := h₆.trans (h₇.trans (h₈.trans h₉))
    refine Evidence.Cites.bind (Evidence.Cites.forEach fun d' hd' v hv => ?_) fun _ _ _ _ => trivial
    have hcancelled : Supported v ⟨.driver d', .rideCancelled r ride.version d'⟩ :=
      ⟨rfl, ⟨ride, hsaw.mono (hend.trans hv), rfl⟩, (hothers d' hd').mono (hu.trans (hle.trans (hend.trans hv)))⟩
    exact cites_publish hcancelled

theorem backed_acceptRide : Backed env i (acceptRide r d) past := by
  refine found_getRide.bind fun preAcceptRide u hu hfound => ?_
  refine ⟨trivial, fun s => ⟨trivial, fun t => ?_⟩⟩
  let batchId := preAcceptRide.bind RideHash.currentBatchId
  let reservation := batchId.map fun batchId => Token.reservation r batchId
  let others := ((preAcceptRide.map RideHash.currentBatchDrivers).getD []).filter (· ≠ d)
  show Backed env i (if (acceptRideScript r d s.clock reservation t).1 ≤ 0 then .throw rideAlreadyAccepted
    else afterAccept r d batchId others s.clock)
    (insert t (insert (acceptRideScript r d s.clock reservation t).2 (insert s (insert s u))))
  split_ifs with hversion
  · trivial
  · refine backed_afterAccept ?_ fun d' hd' => ?_
    · -- the store after the script
      rcases @acceptRideScript_cases t r d s.clock reservation with ⟨hneg, -⟩ | ⟨-, heq, -⟩
      · omega
      · refine ⟨(t.ride r).accept d s.clock, ⟨_, Set.mem_insert_of_mem _ (Set.mem_insert ..), ?_, ?_⟩, rfl⟩
        · rw [heq]
          exact put_self
        · exact Option.some_ne_none _
    · cases hread : preAcceptRide with
      | none =>
        simp [others, hread] at hd'
      | some ride =>
        obtain ⟨q, hq, hride, -⟩ := hfound ride hread
        simp only [others, hread, Option.map_some, Option.getD_some, List.mem_filter] at hd'
        refine ⟨q, ?_, .inr (.inl (by rw [hride]; exact hd'.1))⟩
        exact Set.mem_insert_of_mem _ (Set.mem_insert_of_mem _ (Set.mem_insert_of_mem _ (Set.mem_insert_of_mem _ hq)))

/-- A cancellation is told to the drivers that were offered the ride, and to its driver. -/
theorem backed_finishTransition {next : RideStatus} {notified : List DriverId} (hsaw : Saw past r ride)
    (hnotified : ∀ d ∈ notified, Involved past r d) : Backed env i (finishTransition r next ride notified now) past := by
  have htell : ∀ u, past ⊆ u → Backed env i (Prog.forEach (fun driverId => emitRideCancelledToDriver driverId r ride.version)
      (notified ++ ride.driverId.toList.filter (· ∉ notified))) u := fun u hu => by
    refine Evidence.Cites.forEach fun d hd v hv => ?_
    have hinvolved : Involved v r d := by
      rcases List.mem_append.mp hd with hd | hd
      · exact (hnotified d hd).mono (hu.trans hv)
      · obtain ⟨s, hs, hride, -⟩ := hsaw
        have hdriver : ride.driverId = some d := Option.mem_toList.mp (List.mem_of_mem_filter hd)
        exact ⟨s, hv (hu hs), .inr (.inr (by rw [hride, hdriver]))⟩
    have hcancelled : Supported v ⟨.driver d, .rideCancelled r ride.version d⟩ :=
      ⟨rfl, ⟨ride, hsaw.mono (hu.trans hv), rfl⟩, hinvolved⟩
    exact cites_publish hcancelled
  have hend : ∀ {p : App (Option RideHash)}, (∀ u, past ⊆ u → Backed env i p u) → ∀ u, past ⊆ u →
      Backed env i ((enqueueRideSync r ride.version).bind fun _ => (notifyRideStatusUpdate r ride).bind fun _ =>
        (emitRideStatusUpdate r ride).bind fun _ => p) u := fun hp u hu => by
    refine wordless_addJob.andThen fun _ v hv => ?_
    refine (backed_emitRideStatusUpdate (hsaw.mono (hu.trans hv))).bind fun _ w hw _ => ?_
    refine (backed_emitRideStatusUpdate (hsaw.mono (hu.trans (hv.trans hw)))).bind fun _ x hx _ => ?_
    exact hp x (hu.trans (hv.trans (hw.trans hx)))
  have htold : ∀ u, past ⊆ u → Backed env i ((Prog.forEach (fun driverId => emitRideCancelledToDriver driverId r ride.version)
      (notified ++ ride.driverId.toList.filter (· ∉ notified))).bind fun _ => (.ret (some ride) : App (Option RideHash))) u :=
    fun u hu => (htell u hu).bind fun _ _ _ _ => trivial
  have hret : ∀ u, past ⊆ u → Backed env i (.ret (some ride) : App (Option RideHash)) u := fun _ _ => trivial
  simp only [finishTransition, Prog.bind_eq, Prog.pure_eq]
  split_ifs
  · exact wordless_cleanupTerminalRideKeys.andThen fun _ u hu => hend htold u hu
  · exact wordless_cleanupTerminalRideKeys.andThen fun _ u hu => hend hret u hu
  · exact hend htold past subset_rfl
  · exact hend hret past subset_rfl

theorem backed_afterTransition {next : RideStatus} {options : TransitionOptions} :
    Backed env i (afterTransition r next options now) past := by
  refine (wordless_write _).andThen fun _ _ _ => wordless_appendTimelineEvent.andThen fun _ _ _ =>
    found_getRide.bind fun read u _ hfound => ?_
  have hread : Cites env i (fun notified v => ∀ d ∈ notified, Involved v r d) (readNotifiedDrivers r next) u := by
    unfold readNotifiedDrivers
    split_ifs
    · exact Evidence.Cites.command trivial fun s d hd => ⟨s, Set.mem_insert .., .inl hd⟩
    · exact fun d hd => absurd hd List.not_mem_nil
  refine hread.bind fun notified v hv hnotified => ?_
  cases read with
  | none => trivial
  | some ride => exact backed_finishTransition ((hfound ride rfl).mono hv) hnotified

theorem backed_transitionRide {next : RideStatus} {options : TransitionOptions} :
    Backed env i (transitionRide env r next options) past := by
  refine backed_withLock (fun _ _ => wordless_getRide.andThen fun read _ _ => ?_) fun result _ _ => ?_
  · cases read with
    | none => trivial
    | some read =>
      dsimp only
      split_ifs
      · exact wordless_getRide.backed
      · have hassert : Wordless (assertTransition (read.status.getD .requested) next) := by
          unfold assertTransition
          split_ifs <;> trivial
        exact hassert.andThen fun _ _ _ => ⟨trivial, fun _ => (wordless_write _).andThen fun _ _ _ => backed_afterTransition⟩
  · cases result.join with
    | none => trivial
    | some ride => trivial

theorem backed_transitionByDriver {next : RideStatus} : Backed env i (transitionByDriver env next r d) past := by
  refine wordless_getRide.andThen fun ride _ _ => ?_
  split_ifs
  · exact backed_transitionRide
  · trivial

theorem backed_cancelRide {actorType : ActorType} {actorId : Option ℕ} {reason : String} :
    Backed env i (cancelRide env r actorType actorId reason) past := by
  refine wordless_getRide.andThen fun ride _ _ => ?_
  cases ride with
  | none => trivial
  | some ride =>
    dsimp only
    split_ifs
    · trivial
    · exact backed_transitionRide

theorem backed_requestRide {c : CustomerId} {origin destination : Location} {metadata : Metadata} :
    Backed env i (requestRide env c origin destination metadata) past := by
  have hcreate : ∀ u, Backed env i (createRide env c origin destination metadata) u := fun u => by
    refine ⟨trivial, fun s => ⟨trivial, fun t => ⟨trivial, fun v => ?_⟩⟩⟩
    generalize ((system env).exec i .now s).1 = now
    generalize ((system env).exec i .uuidv4 t).1 = r
    let ride := requestPayload env c origin destination metadata now
    let created : Store := v.multi [.createRide r ride, .setCustomerActiveRide c r, .saddActiveRide r, .expireRide r]
    have hcreated : ∀ w, created ∈ w → Saw w r ride := fun w hw => ⟨created, hw, put_self, Option.some_ne_none _⟩
    refine wordless_appendTimelineEvent.andThen fun _ w₁ h₁ => (wordless_write _).andThen fun _ w₂ h₂ =>
      wordless_addJob.andThen fun _ w₃ h₃ => ?_
    have hrequested : Supported w₃ ⟨.customer ride.customerId, .rideRequested r ride.version⟩ := by
      refine ⟨ride, hcreated w₃ ?_, rfl, rfl⟩
      exact h₃ (h₂ (h₁ (Set.mem_insert_of_mem _ (Set.mem_insert ..))))
    exact (cites_publish hrequested).bind fun _ _ _ _ => wordless_addJob.andThen fun _ _ _ => trivial
  refine backed_withLock (fun _ _ => ⟨trivial, fun s => ?_⟩) fun result _ _ => ?_
  · generalize ((system env).exec i (.getCustomerActiveRide c) s).1 = active
    have hexisting : Wordless (getExistingRide active) := by
      cases active with
      | none => trivial
      | some active => exact wordless_getRide
    refine hexisting.andThen fun existing _ _ => ?_
    split_ifs
    · trivial
    · exact hcreate _
  · cases result with
    | none => trivial
    | some ride => trivial

theorem backed_requeueRideAfterDriverLoss : Backed env i (requeueRideAfterDriverLoss env r d) past := by
  have hrequeue : ∀ ride u, Backed env i (requeueRide env r d ride) u := fun ride u => by
    refine ⟨trivial, fun _ => wordless_releaseDriverAvailability.andThen fun _ _ _ => ⟨trivial, fun _ => ?_⟩⟩
    refine wordless_appendTimelineEvent.andThen fun _ _ _ => found_getRide.bind fun read v _ hfound => ?_
    cases read with
    | none => trivial
    | some updated =>
      refine wordless_addJob.andThen fun _ w hw => ?_
      refine (backed_emitRideStatusUpdate ((hfound updated rfl).mono hw)).bind fun _ _ _ _ => ?_
      exact wordless_addJob.andThen fun _ _ _ => trivial
  refine backed_withLock (fun _ _ => wordless_getRide.andThen fun read _ _ => ?_) fun result _ _ => ?_
  · cases read with
    | none => trivial
    | some read =>
      dsimp only
      split_ifs
      · trivial
      · trivial
      · exact hrequeue read _
  · cases result.join with
    | none => trivial
    | some ride => trivial

/-- The driver's hash once had this `updatedAt`. -/
def Stamped (past : Set Store) (d : DriverId) (atTime : Time) : Prop := ∃ s ∈ past, (s.driverHash d).updatedAt = some atTime

theorem stamped_persistWrites {s : Store} {state : DriverState} :
    ((s.multi (persistWrites env d state)).driverHash d).updatedAt = some (state.updatedAt.getD 0) := by
  unfold persistWrites
  split_ifs <;> cases state.activeRideId <;> cases state.lat <;> cases state.lng <;>
    simp [Store.multi, Write.apply, DriverHash.hset, DriverHash.setField]

theorem backed_goOnline {lat lng : Option ℚ} {socketId : Option SocketId} :
    Backed env i (goOnline env d lat lng socketId) past := by
  let stamped : DriverState → Set Store → Prop := fun state u => Stamped u d (state.updatedAt.getD 0)
  have hmono : ∀ a u v, u ⊆ v → stamped a u → stamped a v := fun a u v hle ⟨s, hs, hat⟩ => ⟨s, hle hs, hat⟩
  have hpersist : ∀ state u, Cites env i (fun _ v => stamped state v) (persistDriverRealtimeState env d state) u :=
    fun state u => ⟨trivial, fun t => ⟨_, Set.mem_insert_of_mem _ (Set.mem_insert ..), stamped_persistWrites⟩⟩
  have hretry : ∀ {fn : App DriverState}, (∀ u, Cites env i stamped fn u) → Cites env i
      (fun result u => ∀ a, result = some a → stamped a u) (withRetryLock (withLock (.driver d) env.lockTtlMs fn) 3) past :=
    fun hfn => cites_retryLock (fun _ _ => cites_withLock hmono fun v _ => hfn v) 3
  refine (hretry fun v => ?_).bind fun result u _ hresult => ⟨trivial, fun s => ?_⟩
  · refine wordless_getDriverState.andThen fun _ _ _ => ⟨trivial, fun _ => ⟨trivial, fun s => ?_⟩⟩
    exact (hpersist _ _).bind fun _ _ _ h => h
  · generalize ((system env).exec i (.existsDriver d) s).1 = driverExists
    dsimp only [Prog.ret_bind]
    split_ifs
    · trivial
    · cases result with
      | none => trivial
      | some result =>
        refine wordless_enqueueDriverSync.andThen fun _ v hv => ?_
        have hle : u ⊆ v := ((Set.subset_insert _ _).trans (Set.subset_insert _ _)).trans hv
        have hstate : Supported v ⟨.driver d, .driverState d (result.updatedAt.getD 0)⟩ :=
          ⟨rfl, hmono result u v hle (hresult result rfl)⟩
        exact (cites_publish hstate).bind fun _ _ _ _ => trivial

theorem backed_goOffline : Backed env i (goOffline env d) past := by
  refine backed_withLock (fun u _ => wordless_getDriverState.andThen fun existing v _ => ?_) fun result _ _ => ?_
  · refine ⟨trivial, fun _ => ⟨trivial, fun t => ⟨trivial, fun t' => ⟨trivial, fun s => ?_⟩⟩⟩⟩
    generalize ((system env).exec i (.getDriverActiveRide d) t).1 = activeRide
    generalize ((system env).exec i .now t').1 = now
    let activeRideId := activeRide <|> existing.bind DriverState.activeRideId
    let off : Store := s.multi (offlineWrites d existing activeRideId now)
    have hat : (off.driverHash d).updatedAt = some now := by
      simp [off, offlineWrites, Store.multi, Write.apply, DriverHash.hset, DriverHash.setField]
    have hstate : ∀ u, off ∈ u → Supported u ⟨.driver d, .driverState d now⟩ := fun u hu => ⟨rfl, off, hu, hat⟩
    exact (cites_publish (hstate _ (Set.mem_insert_of_mem _ (Set.mem_insert ..)))).bind fun _ _ _ _ => trivial
  · cases result with
    | none => trivial
    | some result => exact ⟨trivial, fun _ => wordless_enqueueDriverSync.andThen fun _ _ _ => trivial⟩

/-- The customer of an ongoing ride is told that its driver is gone. -/
theorem backed_handleDriverDrop {active : Option RideId} {pending : List RideId} {reason : Response} :
    Backed env i (handleDriverDrop env d active pending reason) past := by
  have hpending : Backed env i (Prog.forEach (fun r => do
      let _ ← markDriverUnavailableDuringDispatch env r d reason
      return ()) pending) past :=
    Evidence.Cites.forEach fun _ _ _ _ => backed_handleDriverRejection.bind fun _ _ _ _ => trivial
  refine hpending.bind fun _ u _ _ => ?_
  cases active with
  | none => trivial
  | some active =>
    refine found_getRide.bind fun read v hv hfound => ?_
    cases read with
    | none => trivial
    | some ride =>
      dsimp only
      split_ifs with hlost
      · refine ⟨trivial, fun s => cites_publish ?_⟩
        refine ⟨⟨ride, (hfound ride rfl).mono ?_, rfl, hlost⟩, s, Set.mem_insert .., rfl⟩
        exact (Set.subset_insert _ _).trans (Set.subset_insert _ _)
      · trivial

theorem backed_scanStaleDriversLoop (ds : List DriverId) : Backed env i (scanStaleDriversLoop env ds) past := by
  induction ds generalizing past with
  | nil => trivial
  | cons driverId rest ih =>
    refine ⟨trivial, fun _ => ?_⟩
    dsimp only [Prog.ret_bind]
    split_ifs
    · exact ih
    · exact backed_goOffline.bind fun _ _ _ _ => ⟨trivial, fun _ => ih.bind fun _ _ _ _ => trivial⟩

theorem backed_handleJob (job : JobId) : Backed env i (handleJob env job) past := by
  cases job with
  | dispatchStart rideId version reason =>
    refine Evidence.Cites.tryCatch ?_ fun _ _ _ => trivial
    exact (backed_rideLock fun _ _ => backed_dispatchUnderLock).bind fun _ _ _ _ => trivial
  | dispatchTimeout rideId batchId =>
    exact (backed_rideLock fun _ _ => backed_batchTimeoutUnderLock).bind fun _ _ _ _ => trivial
  | persistRide rideId version =>
    refine wordless_getRide.andThen fun ride _ _ => ?_
    cases ride with
    | none => trivial
    | some ride => exact ⟨trivial, fun _ => ⟨trivial, fun _ => ⟨trivial, fun _ => trivial⟩⟩⟩
  | persistDriver driverId reason suffix =>
    refine wordless_getDriverState.andThen fun state _ _ => ?_
    cases state with
    | none => trivial
    | some state => exact ⟨trivial, fun _ => trivial⟩

/-- Every operation says only what it has seen. -/
theorem backed_code (op : Op) : Backed env i (code env op) past := by
  have hdiscard : ∀ {α : Type} {p : App α}, Backed env i p past → Backed env i (discard p) past :=
    fun hp => hp.bind fun _ _ _ _ => trivial
  cases op with
  | requestRide c origin destination metadata => exact hdiscard backed_requestRide
  | startDispatch r => exact hdiscard (backed_rideLock fun _ _ => backed_dispatchUnderLock)
  | handleBatchTimeout r b => exact hdiscard (backed_rideLock fun _ _ => backed_batchTimeoutUnderLock)
  | handleDriverRejection r d reason => exact hdiscard backed_handleDriverRejection
  | acceptRide r d => exact hdiscard backed_acceptRide
  | markDriverArriving r d => exact hdiscard backed_transitionByDriver
  | startRide r d => exact hdiscard backed_transitionByDriver
  | completeRide r d => exact hdiscard backed_transitionByDriver
  | cancelRide r actorType actorId reason => exact hdiscard backed_cancelRide
  | requeueRideAfterDriverLoss r d => exact hdiscard backed_requeueRideAfterDriverLoss
  | goOnline d lat lng socketId => exact hdiscard backed_goOnline
  | heartbeat d lat lng socketId => exact hdiscard wordless_heartbeat.backed
  | goOffline d => exact hdiscard backed_goOffline
  | goOfflineAndDrop d reason => exact backed_goOffline.bind fun _ _ _ _ => backed_handleDriverDrop
  | restoreDriverSession d socketId => exact hdiscard wordless_restoreDriverSession.backed
  | scanStaleDriversAndRecover =>
    refine ⟨trivial, fun _ => (backed_scanStaleDriversLoop _).bind fun stale _ _ _ => ?_⟩
    exact Evidence.Cites.forEach fun _ _ _ _ => backed_handleDriverDrop
  | recoverDispatchingRides => exact wordless_recoverDispatchingRides.backed
  | work job =>
    refine ⟨trivial, fun _ => ?_⟩
    dsimp only [Prog.ret_bind]
    split_ifs
    · have hhandled : ∀ u, Backed env i ((handleJob env job).bind fun _ => (.ret true : App Bool)) u :=
        fun u => (backed_handleJob job).bind fun _ _ _ _ => trivial
      have hfailed : ∀ (_ : AppError) u, Backed env i (.ret false : App Bool) u := fun _ _ => trivial
      exact (Evidence.Cites.tryCatch (hhandled _) fun e u _ => hfailed e u).bind fun _ _ _ _ => ⟨trivial, fun _ => trivial⟩
    · trivial

end operations

section runs

variable {p q : State} {a : Step} {as : List Step} {m : Message}

theorem published_exec {c : Cmd β} {s : Store} (h : m ∈ (exec env i c s).2.published) :
    m ∈ s.published ∨ c.says = some m := by
  cases c with
  | publish m' =>
    rcases List.mem_append.mp h with h | h
    · exact .inl h
    · rw [List.mem_singleton.mp h]
      exact .inr rfl
  | setIdempotent key =>
    rw [exec_setIdempotent] at h
    exact .inl h
  | _ =>
    rw [(exec_voiceless (by trivial)).2] at h
    exact .inl h

/-- A published message is the last of a thread that was backed for it. -/
theorem supported_published {ok : State → Step → Prop} (hrun : (system env).Run ok initial as q) :
    ∀ m ∈ q.store.published, Supported (Passed (system env) initial as) m := by
  refine hrun.last_induction (I := fun as q => ∀ m ∈ q.store.published, Supported (Passed (system env) initial as) m)
    (fun m hm => absurd hm List.not_mem_nil) fun bs a p q hbs hp _ hnext m hm => ?_
  have hbefore : m ∈ p.store.published → Supported (Passed (system env) initial (bs ++ [a])) m :=
    fun h => (hp m h).mono passed_append
  cases a with
  | call op =>
    cases hnext
    exact hbefore hm
  | env e =>
    obtain ⟨t, ht, rfl⟩ := Option.map_eq_some_iff.mp hnext
    exact hbefore ((event_messages ht).2 ▸ hm)
  | step i =>
    obtain ⟨op, β, c, k, hi, hstore, -⟩ := System.next_step hnext
    rw [hstore] at hm
    rcases published_exec hm with hm | hsays
    · exact hbefore hm
    · have hthread := Evidence.run (E := messages env) (fun i op past => backed_code op) hbs i op _ hi
      cases c with
      | publish m' =>
        cases hsays
        exact hthread.1.mono passed_append
      | _ => cases hsays

theorem messages_backed (env : Env) : MessagesBacked env fun _ _ => True :=
  ⟨fun _ _ hrun => supported_published hrun⟩

theorem customer_step (hp : (rides env False).Holds p) (hnext : (system env).next p a = some q)
    (hexist : (p.store.ride r).status ≠ none) : (q.store.ride r).customerId = (p.store.ride r).customerId := by
  cases ride_step hp hnext r with
  | same heq => rw [heq]
  | create absent c origin destination metadata now heq => exact absurd absent hexist
  | accept d acceptedAt accepts hst hd heq =>
    rw [heq]
    rfl
  | write hash fields ws performs mem since write heq =>
    rw [heq]
    exact hset_customerId

theorem Saw.customer (hrun : (system env).Run RideLocksKept initial as q)
    (hsaw : Saw (Passed (system env) initial as) r ride) :
    (q.store.ride r).status ≠ none ∧ (q.store.ride r).customerId = ride.customerId := by
  obtain ⟨s, ⟨bs, cs, m, rfl, hbs, rfl⟩, hride, hexist⟩ := hsaw
  have hm : (rides env False).Holds m := rides_kept (hrun.head hbs) rides_initial
  have hlater : (rides env False).Holds q ∧ (q.store.ride r).status ≠ none ∧
      (q.store.ride r).customerId = ride.customerId := by
    refine (hrun.rest hbs).invariant (I := fun q => (rides env False).Holds q ∧ (q.store.ride r).status ≠ none ∧
      (q.store.ride r).customerId = ride.customerId) ⟨hm, ?_, ?_⟩ fun p a q hp hok hnext => ?_
    · rw [hride]
      exact hexist
    · rw [hride]
    · obtain ⟨hholds, hthere, hcustomer⟩ := hp
      refine ⟨rides_kept (.single hok hnext) hholds, exist_step hholds hnext hthere, ?_⟩
      rw [customer_step hholds hnext hthere]
      exact hcustomer
  exact hlater.2

theorem own_rooms (env : Env) : OwnRooms env RideLocksKept := by
  have hsupported : ∀ as q m, (system env).Run RideLocksKept initial as q → m ∈ q.store.published →
      Supported (Passed (system env) initial as) m := fun as q m hrun hm => supported_published hrun m hm
  refine ⟨fun as q c key r hrun hm hkey => ?_, fun as q d key r hrun hm hkey => ?_, fun as q room d atTime hrun hm => ?_⟩
  · have h := hsupported as q _ hrun hm
    have hsaw : ∃ ride, Saw (Passed (system env) initial as) r ride ∧ ride.customerId = c := by
      cases key with
      | rideRequested r' v =>
        cases hkey
        obtain ⟨ride, hride, hc, -⟩ := h
        exact ⟨ride, hride, hc⟩
      | rideStatus r' v =>
        cases hkey
        obtain ⟨ride, hride, hc, -⟩ := h
        exact ⟨ride, hride, hc⟩
      | driverAssigned r' v =>
        cases hkey
        obtain ⟨⟨ride, hride, hc, -⟩, -⟩ := h
        exact ⟨ride, hride, hc⟩
      | driverConnectionLost r' d atTime =>
        cases hkey
        obtain ⟨⟨ride, hride, hc, -⟩, -⟩ := h
        exact ⟨ride, hride, hc⟩
      | _ => exact h.elim
    obtain ⟨ride, hride, rfl⟩ := hsaw
    exact hride.customer hrun
  · have h := hsupported as q _ hrun hm
    have hdriven : (∃ ride, Saw (Passed (system env) initial as) r ride ∧ ride.driverId = some d) →
        Involved (Passed (system env) initial as) r d := by
      rintro ⟨ride, ⟨s, hs, hride, -⟩, hdriver⟩
      exact ⟨s, hs, .inr (.inr (by rw [hride, hdriver]))⟩
    cases key with
    | rideStatusDriver r' v =>
      cases hkey
      obtain ⟨ride, hride, hdriver, -⟩ := h
      exact hdriven ⟨ride, hride, hdriver⟩
    | rideAssigned r' v d' =>
      cases hkey
      exact hdriven h.2.2
    | newRideRequest r' b d' =>
      cases hkey
      obtain ⟨-, s, hs, -, -, hnotified⟩ := h
      exact ⟨s, hs, .inl hnotified⟩
    | rideCancelled r' v d' =>
      cases hkey
      exact h.2.2
    | driverState d' atTime => cases hkey
    | _ => exact h.elim
  · have h := hsupported as q _ hrun hm
    cases room with
    | customer c => exact h.elim
    | driver d' =>
      obtain ⟨rfl, -⟩ := h
      rfl

end runs

end YatriGo
