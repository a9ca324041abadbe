import YatriGo.Proofs.Alone

/-! What the dispatch work on one ride leaves alone: other rides, heartbeats, and the messages about lost
connections. -/

namespace YatriGo
open Concurrent

/-- The key of a `driver_connection_lost` message. -/
def PublishKey.lost : PublishKey → Bool
  | .driverConnectionLost .. => true
  | _ => false

/-- Touches no ride but `mine`, which does not become ONGOING, and starts no heartbeat. -/
def Write.near (mine : Option RideId) : Write → Prop
  | .createRide .. => False
  | .hsetRide r fields => mine = some r ∧ .status .ongoing ∉ fields
  | .hsetResponse r _ _ => mine = some r
  | .delResponses r => mine = some r
  | .setHeartbeat .. => False
  | _ => True

/-- A command inside a section: it takes and releases reservations only. -/
def Cmd.near (mine : Option RideId) : ⦃β : Type⦄ → Cmd β → Prop
  | _, .multi ws => ∀ w ∈ ws, w.near mine
  | _, .setNX key .. => ∃ d, key = .reservation d
  | _, .evalReleaseLock key _ => ∃ d, key = .reservation d
  | _, .evalAcceptRide .. => False
  | _, .setIdempotent key => key.lost = false
  | _, .publish m => m.key.lost = false
  | _, _ => True

abbrev NearBy (mine : Option RideId) {α : Type} (p : App α) : Prop := p.Uses (Cmd.near mine)

/-- What is the same in two stores, around a section of the ride `mine`. -/
structure Near (mine : Option RideId) (s t : Store) : Prop where
  ride : ∀ r, mine ≠ some r → t.ride r = s.ride r
  exist : ∀ r, (s.ride r).status ≠ none → (t.ride r).status ≠ none
  ongoing : ∀ r, (t.ride r).status = some .ongoing → (s.ride r).status = some .ongoing
  responses : ∀ r, mine ≠ some r → t.rideResponses r = s.rideResponses r
  heartbeat : ∀ d, s.driverHeartbeat d = none → t.driverHeartbeat d = none
  locks : ∀ key : LockKey, key.mutex → t.locks key = s.locks key
  clock : t.clock = s.clock
  marks : ∀ key : PublishKey, key.lost = true → t.idempotency key = s.idempotency key
  published : ∀ m : Message, m.key.lost = true → (m ∈ t.published ↔ m ∈ s.published)

variable {env : Env} {i : ℕ} {r : RideId} {d : DriverId} {s t u : Store} {mine : Option RideId} {α β : Type}
  {p : App α} {ride : RideHash} {now : Time}

theorem Near.refl : Near mine s s where
  ride := fun _ _ => rfl
  exist := fun _ h => h
  ongoing := fun _ h => h
  responses := fun _ _ => rfl
  heartbeat := fun _ h => h
  locks := fun _ _ => rfl
  clock := rfl
  marks := fun _ _ => rfl
  published := fun _ _ => Iff.rfl

theorem Near.trans (h : Near mine s t) (h' : Near mine t u) : Near mine s u where
  ride := fun r hr => (h'.ride r hr).trans (h.ride r hr)
  exist := fun r hr => h'.exist r (h.exist r hr)
  ongoing := fun r hr => h.ongoing r (h'.ongoing r hr)
  responses := fun r hr => (h'.responses r hr).trans (h.responses r hr)
  heartbeat := fun d hd => h'.heartbeat d (h.heartbeat d hd)
  locks := fun key hk => (h'.locks key hk).trans (h.locks key hk)
  clock := h'.clock.trans h.clock
  marks := fun key hk => (h'.marks key hk).trans (h.marks key hk)
  published := fun m hm => (h'.published m hm).trans (h.published m hm)

theorem status_of_hset {hash : RideHash} {fields : List RideField} {status : RideStatus} (hfields : .status status ∉ fields)
    (h : (hash.hset fields).status = some status) : hash.status = some status := by
  induction fields generalizing hash with
  | nil => exact h
  | cons f fields ih =>
    rw [List.mem_cons, not_or] at hfields
    obtain ⟨hne, hfields⟩ := hfields
    have hrest : (hash.setField f).status = some status := ih hfields h
    cases f with
    | status v => exact absurd (congrArg RideField.status (Option.some.inj hrest).symm) hne
    | _ => exact hrest

theorem Write.near.apply {w : Write} (h : w.near mine) : Near mine s (w.apply s) := by
  cases w with
  | createRide r payload => exact h.elim
  | setHeartbeat d ttl => exact h.elim
  | hsetRide r fields =>
    obtain ⟨hmine, hfields⟩ : mine = some r ∧ RideField.status .ongoing ∉ fields := h
    refine { Near.refl with ride := fun r' hr' => ?_, exist := fun r' hr' => ?_, ongoing := fun r' hr' => ?_ }
    · exact put_of_ne fun heq => hr' (hmine.trans (congrArg some heq.symm))
    · show (put s.ride r _ r').status ≠ none
      rcases eq_or_ne r' r with rfl | hne
      · rw [put_self]
        exact hset_status_ne_none hr'
      · rw [put_of_ne hne]
        exact hr'
    · have hafter : (put s.ride r ((s.ride r).hset fields) r').status = some .ongoing := hr'
      rcases eq_or_ne r' r with rfl | hne
      · rw [put_self] at hafter
        exact status_of_hset hfields hafter
      · rw [put_of_ne hne] at hafter
        exact hafter
  | hsetResponse r d value =>
    have hmine : mine = some r := h
    exact { Near.refl with responses := fun r' hr' => put_of_ne fun heq => hr' (hmine.trans (congrArg some heq.symm)) }
  | delResponses r =>
    have hmine : mine = some r := h
    exact { Near.refl with responses := fun r' hr' => put_of_ne fun heq => hr' (hmine.trans (congrArg some heq.symm)) }
  | delHeartbeat d =>
    refine { Near.refl with heartbeat := fun d' hd' => ?_ }
    show put s.driverHeartbeat d none d' = none
    rcases eq_or_ne d' d with rfl | hne
    · exact put_self
    · rw [put_of_ne hne]
      exact hd'
  | delReservation d =>
    refine { Near.refl with locks := fun key hk => put_of_ne fun heq => ?_ }
    rw [heq] at hk
    exact hk
  | _ => exact { Near.refl with }

theorem near_multi {ws : List Write} (h : ∀ w ∈ ws, w.near mine) : Near mine s (s.multi ws) := by
  induction ws generalizing s with
  | nil => exact .refl
  | cons w ws ih =>
    have hfirst : w.near mine := h w List.mem_cons_self
    exact hfirst.apply.trans (ih fun v hv => h v (List.mem_cons_of_mem _ hv))

theorem near_exec {c : Cmd β} (h : c.near mine) : Near mine s (exec env i c s).2 := by
  cases c with
  | multi ws => exact near_multi h
  | setNX key token ttl =>
    obtain ⟨d, rfl⟩ := h
    cases hl : s.locks (.reservation d) with
    | some lease =>
      rw [exec_setNX_of_some hl]
      exact .refl
    | none =>
      rw [exec_setNX_of_none hl]
      refine { Near.refl with locks := fun key hk => put_of_ne fun heq => ?_ }
      rw [heq] at hk
      exact hk
  | evalReleaseLock key token =>
    obtain ⟨d, rfl⟩ := h
    obtain ⟨locks, hlocks⟩ := @releaseLockScript_eq (.reservation d) token s
    have hstore : (exec env i (.evalReleaseLock (.reservation d) token) s).2 = { s with locks } := hlocks
    rw [hstore]
    refine { Near.refl with locks := fun key hk => ?_ }
    have hne : key ≠ .reservation d := by
      rintro rfl
      exact hk
    have hkept : (releaseLockScript (.reservation d) token s).2.locks key = s.locks key :=
      releaseLockScript_locks_of_ne hne
    rw [hlocks] at hkept
    exact hkept
  | evalAcceptRide r d acceptedAt reservation => exact h.elim
  | setIdempotent key =>
    simp only [exec]
    split
    · exact .refl
    · refine { Near.refl with marks := fun key' hk => put_of_ne fun heq => ?_ }
      have hother : key.lost = false := h
      rw [heq, hother] at hk
      cases hk
  | publish m =>
    have hother : m.key.lost = false := h
    refine { Near.refl with published := fun m' hm' => ?_ }
    show m' ∈ s.published ++ [m] ↔ m' ∈ s.published
    rw [List.mem_append, List.mem_singleton, or_iff_left]
    rintro rfl
    rw [hother] at hm'
    cases hm'
  | addJob job delay =>
    obtain ⟨jobs, hjobs⟩ := @addJob_eq s job delay
    simp only [exec, hjobs]
    exact { Near.refl with }
  | takeJob job =>
    obtain ⟨jobs, hjobs⟩ := @takeJob_eq s job
    simp only [exec, hjobs]
    exact { Near.refl with }
  | finishJob job succeeded =>
    obtain ⟨jobs, hjobs⟩ := @finishJob_eq s job succeeded
    simp only [exec, hjobs]
    exact { Near.refl with }
  | _ => exact { Near.refl with }

theorem NearBy.finish (h : NearBy mine p) (s : Store) : Near mine s (p.finish ((system env).client i) s).2 :=
  Prog.Uses.finish (R := Near mine) h (fun _ => .refl) (fun _ _ _ h h' => h.trans h') (fun _ _ _ hc => near_exec hc) s

theorem NearBy.solo {γ : Type} {note : ℚ → Store → γ} {result : Except AppError α} {notes : List γ}
    (h : NearBy mine p) (hp : Solo env i note p s result t notes) : Near mine s t := by
  have hend : (p.finish ((system env).client i) s).2 = t := congrArg Prod.snd hp.finish
  rw [← hend]
  exact h.finish s

/-- A section that stays nearby, with its lock taken before and given back after it. -/
theorem Near.section {key : LockKey} {ttlMs : ℕ} (hfree : s.locks key = none)
    (h : Near mine (lockTaken i key ttlMs s) t) :
    Near mine s (releaseLockScript key (.uuid ⟨i, s.nextSeq⟩) t).2 := by
  obtain ⟨locks, hlocks⟩ := @releaseLockScript_eq key (.uuid ⟨i, s.nextSeq⟩) t
  have hrelease : ∀ key' : LockKey, key'.mutex → locks key' = s.locks key' := by
    intro key' hkey'
    have hafter : (releaseLockScript key (.uuid ⟨i, s.nextSeq⟩) t).2.locks key' = locks key' := by
      rw [hlocks]
    rcases eq_or_ne key' key with rfl | hne
    · have hheld : t.locks key' = some ⟨.uuid ⟨i, s.nextSeq⟩, s.clock + ttlMs⟩ := (h.locks key' hkey').trans put_self
      rw [hfree, ← hafter]
      simp only [releaseLockScript, hheld, if_true, put_self]
    · rw [← hafter, releaseLockScript_locks_of_ne hne, h.locks key' hkey']
      exact lockTaken_of_ne hne
  rw [hlocks]
  exact {
    ride := h.ride
    exist := h.exist
    ongoing := h.ongoing
    responses := h.responses
    heartbeat := h.heartbeat
    locks := hrelease
    clock := h.clock
    marks := h.marks
    published := h.published }

section programs

theorem near_command {c : Cmd α} (h : c.near mine) : NearBy mine (redis c) := (Prog.uses_perform c).mpr h

theorem near_write {w : Write} (h : w.near mine) : NearBy mine (write w) := by
  apply near_command
  intro v hv
  rw [List.mem_singleton.mp hv]
  exact h

theorem near_publish {room : Room} {key : PublishKey} (h : key.lost = false) : NearBy mine (publish room key) := by
  refine ⟨h, fun allowed => ?_⟩
  cases allowed with
  | false => exact Prog.uses_ret ()
  | true => exact near_command h

theorem near_emitRideStatusUpdate : NearBy mine (emitRideStatusUpdate r ride) := by
  apply Prog.Uses.bind (near_publish rfl)
  intro _
  cases ride.driverId with
  | none => exact Prog.uses_ret ()
  | some driverId => exact near_publish rfl

theorem near_appendTimelineEvent {event : TimelineEventType} {actorType : ActorType} {actorId : Option ℕ}
    {atTime : Time} : NearBy mine (appendTimelineEvent r event actorType actorId atTime) :=
  Prog.Uses.bind (near_write trivial) fun _ => near_write trivial

theorem near_addJob {job : JobId} {delay : ℕ} : NearBy mine (redis (.addJob job delay)) := near_command trivial

theorem near_enqueueDriverSync {reason : SyncReason} {suffix : Option Time} :
    NearBy mine (enqueueDriverSync d reason suffix) := by
  cases suffix with
  | none => exact ⟨trivial, fun _ => near_addJob⟩
  | some suffix => exact near_addJob

theorem near_getRide : NearBy mine (getRide r) := ⟨trivial, fun _ => Prog.uses_ret _⟩

theorem near_updateRideHash {fields : List RideField} (h : .status .ongoing ∉ fields) :
    NearBy (some r) (updateRideHash r fields) := by
  have hwrite : NearBy (some r) (write (.hsetRide r fields)) := near_write ⟨rfl, h⟩
  have hrefresh : NearBy (some r) (refreshRideRealtimeKeys r) := near_write trivial
  exact hwrite.bind fun _ => hrefresh.bind fun _ => near_getRide

theorem near_releaseReservation {token : Token} : NearBy mine (releaseLock (.reservation d) token) :=
  ⟨⟨d, rfl⟩, fun _ => Prog.uses_ret ()⟩

theorem near_releaseDriverReservations {batch : Option BatchId} {ds : List DriverId} :
    NearBy mine (releaseDriverReservations r batch ds) := by
  cases batch with
  | none => exact Prog.uses_ret ()
  | some b => exact .forEach fun d _ => near_releaseReservation

theorem near_applyRejectCooldown : NearBy mine (applyRejectCooldown env d) := by
  unfold applyRejectCooldown
  split_ifs
  · exact Prog.uses_ret ()
  · exact near_write trivial

theorem near_cleanupGhostAvailability : NearBy mine (cleanupGhostAvailability d) := by
  have hwrites : Cmd.near mine (.multi [.srem .available d, .srem .busy d, .srem .online d, .zremGeo d,
      .delHeartbeat d, .delReservation d]) := by
    intro w hw
    simp only [List.mem_cons, List.not_mem_nil, or_false] at hw
    rcases hw with rfl | rfl | rfl | rfl | rfl | rfl <;> trivial
  exact (near_command hwrites).bind fun _ => near_command trivial

theorem near_isDriverReservable : NearBy mine (isDriverReservable env d) := by
  refine ⟨trivial, fun hash => ⟨trivial, fun activeRideId => ⟨trivial, fun reservation => ⟨trivial, fun heartbeat => ?_⟩⟩⟩⟩
  have hcooldown : NearBy mine (isDriverOnRejectCooldown env d) := by
    unfold isDriverOnRejectCooldown
    split_ifs
    · exact Prog.uses_ret false
    · exact ⟨trivial, fun _ => Prog.uses_ret _⟩
  apply hcooldown.bind
  intro rejectCooldown
  have hghost : NearBy mine ((cleanupGhostAvailability d).bind fun _ => (.ret false : App Bool)) :=
    near_cleanupGhostAvailability.bind fun _ => Prog.uses_ret false
  cases toDriverSnapshot hash with
  | none => exact hghost
  | some driverState =>
    cases heartbeat with
    | true => exact Prog.uses_ret _
    | false => exact hghost

theorem near_reserveLoop {b : BatchId} (ds reserved : List DriverId) : NearBy mine (reserveLoop env r b ds reserved) := by
  induction ds generalizing reserved with
  | nil => exact Prog.uses_ret reserved
  | cons d ds ih =>
    apply Prog.Uses.bind near_isDriverReservable
    intro reservable
    cases reservable with
    | false => exact ih reserved
    | true =>
      refine ⟨⟨d, rfl⟩, fun ok => ?_⟩
      generalize hreserved : (if ok = true then reserved ++ [d] else reserved) = next
      simp only [Prog.ret_bind, hreserved]
      split_ifs
      · exact Prog.uses_ret next
      · exact ih next

theorem near_releaseDriverAvailability {driver : Option DriverId} :
    NearBy mine (releaseDriverAvailability driver r now) := by
  cases driver with
  | none => exact Prog.uses_ret ()
  | some d =>
    refine ⟨trivial, fun hash => ⟨trivial, fun active => ⟨trivial, fun heartbeatExists => near_command ?_⟩⟩⟩
    intro w hw
    simp only [releaseWrites] at hw
    cases w <;> first | trivial | (exfalso; revert hw; split_ifs <;> repeat' split) <;> simp

theorem near_cleanupTerminalRideKeys : NearBy mine (cleanupTerminalRideKeys r ride now) := by
  refine ⟨trivial, fun notifiedDrivers => ⟨trivial, fun current => ?_⟩⟩
  have hwrites : Cmd.near mine (.multi (cleanupWrites r ride.customerId notifiedDrivers current)) := by
    intro w hw
    simp only [cleanupWrites] at hw
    cases w <;> first | trivial | (exfalso; revert hw; split_ifs <;> simp)
  have hreservations : NearBy mine (releaseBatchReservations r ride) := by
    unfold releaseBatchReservations
    cases ride.currentBatchId with
    | none => exact Prog.uses_ret ()
    | some b => exact .forEach fun d _ => near_releaseReservation
  have hdriver : NearBy mine (releaseRideDriver r ride now) := by
    unfold releaseRideDriver
    cases ride.driverId with
    | none => exact Prog.uses_ret ()
    | some d => exact Prog.Uses.bind near_releaseDriverAvailability fun _ => near_enqueueDriverSync
  exact (near_command hwrites).bind fun _ => hreservations.bind fun _ => hdriver

theorem near_exhaustSearch : NearBy (some r) (exhaustSearch r ride now) := by
  apply Prog.Uses.bind (near_updateRideHash (by simp [exhaustFields]))
  intro updated
  cases updated with
  | none => exact Prog.uses_throw _
  | some updated =>
    apply Prog.Uses.bind near_appendTimelineEvent
    intro _
    apply Prog.Uses.bind near_cleanupTerminalRideKeys
    intro _
    apply Prog.Uses.bind near_addJob
    intro _
    exact near_emitRideStatusUpdate.bind fun _ => Prog.uses_ret _

theorem near_expandSearch {nextRound : ℕ} {nextRadius : ℚ} :
    NearBy (some r) (expandSearch env r ride nextRound nextRadius now) := by
  apply Prog.Uses.bind (near_updateRideHash (by simp [expandFields]))
  intro updated
  cases updated with
  | none => exact Prog.uses_throw _
  | some updated =>
    apply Prog.Uses.bind near_appendTimelineEvent
    intro _
    apply Prog.Uses.bind near_addJob
    intro _
    exact near_addJob.bind fun _ => Prog.uses_ret _

theorem near_sendBatch {b : BatchId} {ds : List DriverId} : NearBy (some r) (sendBatch env r ride b ds now) := by
  have hwrites : Cmd.near (some r) (.multi (batchWrites r ride b ds (now + env.dispatch.responseTtlMs) now)) := by
    intro w hw
    rcases List.mem_append.mp hw with hw | hw
    · rw [List.mem_singleton.mp hw]
      exact ⟨rfl, by simp [batchFields]⟩
    · obtain ⟨d, -, hd⟩ := List.mem_flatMap.mp hw
      simp only [List.mem_cons, List.not_mem_nil, or_false] at hd
      rcases hd with rfl | rfl | rfl <;> trivial
  apply Prog.Uses.bind (near_command hwrites)
  intro _
  apply Prog.Uses.bind near_getRide
  intro updated
  cases updated with
  | none => exact Prog.uses_throw _
  | some updated =>
    apply Prog.Uses.bind near_appendTimelineEvent
    intro _
    apply Prog.Uses.bind near_addJob
    intro _
    apply Prog.Uses.bind near_addJob
    intro _
    exact Prog.Uses.bind (.forEach fun _ _ => near_publish rfl) fun _ => Prog.uses_ret _

theorem near_getNearestAvailableDrivers {origin : Location} {radiusKm : ℚ} {count : ℕ} :
    NearBy mine (getNearestAvailableDrivers origin radiusKm count) := by
  refine ⟨trivial, fun found => ?_⟩
  cases found with
  | none => trivial
  | some drivers => trivial

theorem near_findDrivers {round : ℕ} {radius : ℚ} : NearBy (some r) (findDrivers env r ride round radius now) := by
  refine ⟨trivial, fun notifiedDrivers => ?_⟩
  apply Prog.Uses.bind near_getNearestAvailableDrivers
  intro candidates
  refine ⟨trivial, fun batchId => ?_⟩
  apply Prog.Uses.bind (near_reserveLoop _ _)
  intro batchDrivers
  split_ifs
  · exact near_exhaustSearch
  · exact near_expandSearch
  · exact near_sendBatch

theorem near_endBatch {b : BatchId} : NearBy (some r) (endBatch r ride b now) := by
  refine ⟨trivial, fun responses => ?_⟩
  have hwrites : Cmd.near (some r) (.multi (timeoutWrites r ride b responses now)) := by
    intro w hw
    rcases List.mem_append.mp hw with hw | hw
    · obtain ⟨d, -, rfl⟩ := List.mem_map.mp hw
      rfl
    · rw [List.mem_singleton.mp hw]
      exact ⟨rfl, by simp [clearBatchFields]⟩
  have hclear : NearBy (some r) (clearPendingMembership r ride.currentBatchDrivers) := by
    unfold clearPendingMembership
    split_ifs
    · exact Prog.uses_ret ()
    · apply near_command
      intro w hw
      obtain ⟨d, -, rfl⟩ := List.mem_map.mp hw
      trivial
  apply Prog.Uses.bind (near_command hwrites)
  intro _
  exact Prog.Uses.bind near_releaseDriverReservations fun _ => hclear.bind fun _ => near_appendTimelineEvent

theorem near_continueDispatch {round : ℕ} {radius : ℚ} :
    NearBy (some r) (continueDispatch env r ride round radius now) := by
  unfold continueDispatch
  cases openBatch ride with
  | none => exact near_findDrivers
  | some b =>
    dsimp only
    split_ifs
    · exact Prog.uses_ret _
    · apply Prog.Uses.bind near_endBatch
      intro _
      apply Prog.Uses.bind near_getRide
      intro updated
      cases updated with
      | none => exact Prog.uses_throw _
      | some updated => exact near_findDrivers

theorem near_dispatchUnderLock : NearBy (some r) (dispatchUnderLock env r) := by
  have hstart : ∀ ride now, NearBy (some r) (startFirstDispatch env r ride now) := by
    intro ride now
    apply Prog.Uses.bind (near_updateRideHash (by simp [startFields]))
    intro _
    apply Prog.Uses.bind near_getRide
    intro updated
    cases updated with
    | none => exact Prog.uses_throw _
    | some updated =>
      apply Prog.Uses.bind near_appendTimelineEvent
      intro _
      apply Prog.Uses.bind near_addJob
      intro _
      exact near_emitRideStatusUpdate.bind fun _ => Prog.uses_ret _
  apply Prog.Uses.bind near_getRide
  intro read
  cases read with
  | none => exact Prog.uses_ret none
  | some read =>
    dsimp only
    split_ifs
    · exact Prog.uses_ret _
    · exact ⟨trivial, fun now => (hstart read now).bind fun ride => near_continueDispatch⟩
    · exact ⟨trivial, fun now => near_continueDispatch⟩

theorem near_rejectUnderLock {reason : Response} {responses : DriverId → Option Response} :
    NearBy (some r) (rejectUnderLock env r d reason ride now responses) := by
  have hwrites : Cmd.near (some r) (.multi (rejectWrites r ride d reason (batchExhausted ride d responses) now)) := by
    intro w hw
    simp only [rejectWrites, List.mem_cons, List.not_mem_nil, or_false] at hw
    rcases hw with rfl | rfl | rfl
    · rfl
    · trivial
    · exact ⟨rfl, by simp [rejectFields]⟩
  apply Prog.Uses.bind (near_command hwrites)
  intro _
  apply Prog.Uses.bind near_applyRejectCooldown
  intro _
  apply Prog.Uses.bind near_releaseDriverReservations
  intro _
  apply Prog.Uses.bind near_appendTimelineEvent
  intro _
  apply Prog.Uses.bind near_getRide
  intro updated
  cases updated with
  | none => exact Prog.uses_throw _
  | some updated =>
    apply Prog.Uses.bind near_addJob
    intro _
    split_ifs
    · exact Prog.Uses.bind near_releaseDriverReservations fun _ => near_dispatchUnderLock
    · exact Prog.uses_ret _

theorem near_rejectionUnderLock {reason : Response} : NearBy (some r) (rejectionUnderLock env r d reason) := by
  apply Prog.Uses.bind near_getRide
  intro read
  cases read with
  | none => exact Prog.uses_ret none
  | some read =>
    dsimp only
    split_ifs
    · exact Prog.uses_ret _
    · refine ⟨trivial, fun now => ⟨trivial, fun responses => ?_⟩⟩
      simp only [Prog.ret_bind]
      split_ifs
      · exact Prog.uses_ret _
      · exact near_rejectUnderLock

end programs

/-- A rejection stays near its ride, with the lock of the ride taken and given back. -/
theorem near_handleDriverRejection {reason : Response} (s : Store) :
    Near (some r) s ((handleDriverRejection env r d reason).finish ((system env).client i) s).2 := by
  cases hlock : s.locks (.ride r) with
  | some lease =>
    have hbusy : Solo env i (fun _ _ => ()) (handleDriverRejection env r d reason) s (.error dispatchLocked)
        { s with nextSeq := s.nextSeq + 1 } [] := alone_withRideLock_busy hlock
    rw [hbusy.finish]
    exact { Near.refl with }
  | none =>
    let held := lockTaken i (.ride r) env.lockTtlMs s
    let p := rejectionUnderLock env r d reason
    have hp : Solo env i (fun _ _ => ()) p held (p.finish ((system env).client i) held).1
        (p.finish ((system env).client i) held).2 _ := ⟨rfl, rfl⟩
    have hkept : Near (some r) held (p.finish ((system env).client i) held).2 := near_rejectionUnderLock.finish held
    have hlocked := (alone_withLock hlock hp).finish
    -- the answer of the section decides between an error and a ride, and the store is the same
    unfold handleDriverRejection withRideLock
    rw [Prog.bind_eq, Prog.finish_bind, hlocked]
    cases (p.finish ((system env).client i) held).1 with
    | error e => exact hkept.section hlock
    | ok answer => cases answer <;> exact hkept.section hlock

end YatriGo
