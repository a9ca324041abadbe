import YatriGo.Concurrent.History
import YatriGo.Proofs.RideSteps

/-! What messages say. Every published message reports something that was in the store at an earlier moment
of the run, and goes to somebody it is about. -/

namespace YatriGo
open Concurrent

/-- At some moment the ride had the hash. -/
def Saw (past : Set Store) (r : RideId) (ride : RideHash) : Prop := ∃ s ∈ past, s.ride r = ride ∧ ride.status ≠ none

/-- At some moment the driver was offered the ride, or drove it. -/
def Involved (past : Set Store) (r : RideId) (d : DriverId) : Prop :=
  ∃ s ∈ past, d ∈ s.rideNotifiedDrivers r ∨ d ∈ (s.ride r).currentBatchDrivers ∨ (s.ride r).driverId = some d

/-- What has been in the store when a message is published. -/
def Supported (past : Set Store) (m : Message) : Prop :=
  match m.room, m.key with
  | .customer c, .rideRequested r v => ∃ ride, Saw past r ride ∧ ride.customerId = c ∧ ride.version = v
  | .customer c, .rideStatus r v => ∃ ride, Saw past r ride ∧ ride.customerId = c ∧ ride.version = v
  | .driver d, .rideStatusDriver r v => ∃ ride, Saw past r ride ∧ ride.driverId = some d ∧ ride.version = v
  | .customer c, .driverAssigned r v =>
    (∃ ride, Saw past r ride ∧ ride.customerId = c ∧ ride.version = v) ∧ ∃ ride, Saw past r ride ∧ ride.driverId ≠ none
  | .driver d, .rideAssigned r v d' => d' = d ∧ (∃ ride, Saw past r ride ∧ ride.version = v) ∧
    ∃ ride, Saw past r ride ∧ ride.driverId = some d
  | .driver d, .newRideRequest r b d' => d' = d ∧
    ∃ s ∈ past, (s.ride r).currentBatchId = some b ∧ s.rideResponses r d = some (.pending b) ∧ d ∈ s.rideNotifiedDrivers r
  | .driver d, .rideCancelled r v d' => d' = d ∧ (∃ ride, Saw past r ride ∧ ride.version = v) ∧ Involved past r d
  | .driver d, .driverState d' atTime => d' = d ∧ ∃ s ∈ past, (s.driverHash d).updatedAt = some atTime
  | .customer c, .driverConnectionLost r d atTime =>
    (∃ ride, Saw past r ride ∧ ride.customerId = c ∧ ride.status = some .ongoing ∧ ride.driverId = some d) ∧
    ∃ s ∈ past, s.clock = atTime
  | _, _ => False

section mono

variable {past past' : Set Store} {r : RideId} {d : DriverId} {ride : RideHash} {m : Message}

theorem Saw.mono (h : Saw past r ride) (hle : past ⊆ past') : Saw past' r ride := by
  obtain ⟨s, hs, hride⟩ := h
  exact ⟨s, hle hs, hride⟩

theorem Involved.mono (h : Involved past r d) (hle : past ⊆ past') : Involved past' r d := by
  obtain ⟨s, hs, hinvolved⟩ := h
  exact ⟨s, hle hs, hinvolved⟩

theorem Supported.mono (h : Supported past m) (hle : past ⊆ past') : Supported past' m := by
  obtain ⟨room, key⟩ := m
  have hsaw : ∀ {r} {P : RideHash → Prop}, (∃ ride, Saw past r ride ∧ P ride) → ∃ ride, Saw past' r ride ∧ P ride :=
    fun ⟨ride, hride, hP⟩ => ⟨ride, hride.mono hle, hP⟩
  have hstore : ∀ {P : Store → Prop}, (∃ s ∈ past, P s) → ∃ s ∈ past', P s := fun ⟨s, hs, hP⟩ => ⟨s, hle hs, hP⟩
  cases room with
  | customer c =>
    cases key with
    | rideRequested r v => exact hsaw h
    | rideStatus r v => exact hsaw h
    | driverAssigned r v => exact ⟨hsaw h.1, hsaw h.2⟩
    | driverConnectionLost r d atTime => exact ⟨hsaw h.1, hstore h.2⟩
    | _ => exact h.elim
  | driver d =>
    cases key with
    | rideStatusDriver r v => exact hsaw h
    | rideAssigned r v d' => exact ⟨h.1, hsaw h.2.1, hsaw h.2.2⟩
    | newRideRequest r b d' => exact ⟨h.1, hstore h.2⟩
    | rideCancelled r v d' => exact ⟨h.1, hsaw h.2.1, h.2.2.mono hle⟩
    | driverState d' atTime => exact ⟨h.1, hstore h.2⟩
    | _ => exact h.elim

end mono

/-- A message needs its support; the other commands need nothing. -/
def messages (env : Env) : Evidence (system env) where
  needs := fun _ c past => match c with
    | .publish m => Supported past m
    | _ => True
  mono := fun β c past past' hle h => by
    cases c with
    | publish m => exact Supported.mono h hle
    | _ => trivial

/-- The message that a command publishes. -/
def Cmd.says : ⦃β : Type⦄ → Cmd β → Option Message
  | _, .publish m => some m
  | _, _ => none

/-- Commands that publish nothing. -/
def Cmd.wordless : ⦃β : Type⦄ → Cmd β → Prop
  | _, .publish _ => False
  | _, _ => True

abbrev Wordless {α : Type} (p : App α) : Prop := p.Uses Cmd.wordless

/-- The program of client `i` says only what it has seen. -/
abbrev Cites (env : Env) (i : ℕ) {α : Type} (Q : α → Set Store → Prop) (p : App α) (past : Set Store) : Prop :=
  (messages env).Cites i Q p past

/-- The program says only what it has seen, whatever that is at its end. -/
abbrev Backed (env : Env) (i : ℕ) {α : Type} (p : App α) (past : Set Store) : Prop := Cites env i (fun _ _ => True) p past

variable {env : Env} {i : ℕ} {α β : Type} {past : Set Store} {p : App α} {r : RideId} {d : DriverId} {ride : RideHash} {now : Time}

section rules

theorem Wordless.backed (h : Wordless p) : Backed env i p past := by
  refine Evidence.Cites.free (fun β c past hc => ?_) h
  cases c with
  | publish m => exact hc.elim
  | _ => trivial

theorem Wordless.andThen {Q : β → Set Store → Prop} {f : α → App β} (h : Wordless p)
    (hf : ∀ a u, past ⊆ u → Cites env i Q (f a) u) : Cites env i Q (p.bind f) past :=
  (h.backed).bind fun a u hu _ => hf a u hu

theorem cites_getRide {Q : α → Set Store → Prop} {f : Option RideHash → App α}
    (hnone : ∀ u, past ⊆ u → Cites env i Q (f none) u)
    (hsome : ∀ ride u, past ⊆ u → Saw u r ride → Cites env i Q (f (some ride)) u) :
    Cites env i Q ((getRide r).bind f) past := by
  refine ⟨trivial, fun s => ?_⟩
  show Cites env i Q (f (toRideSnapshot (s.ride r))) _
  have hle : past ⊆ insert s (insert s past) := (Set.subset_insert _ _).trans (Set.subset_insert _ _)
  unfold toRideSnapshot
  split_ifs with hexist
  · exact hnone _ hle
  · exact hsome _ _ hle ⟨s, Set.mem_insert .., rfl, hexist⟩

theorem cites_publish {room : Room} {key : PublishKey} (h : Supported past ⟨room, key⟩) :
    Backed env i (publish room key) past := by
  refine ⟨trivial, fun s => ?_⟩
  show Backed env i (if ((system env).exec i (.setIdempotent key) s).1 then redis (.publish ⟨room, key⟩) else .ret ()) _
  split_ifs
  · refine ⟨h.mono ((Set.subset_insert _ _).trans (Set.subset_insert _ _)), fun t => trivial⟩
  · trivial

/-- Taking and releasing locks needs no evidence. -/
structure LocksFree (E : Evidence (system env)) : Prop where
  token : ∀ past, E.needs .uuidv4 past
  take : ∀ key token ttlMs past, E.needs (.setNX key token ttlMs) past
  release : ∀ key token past, E.needs (.evalReleaseLock key token) past

section locks

variable {E : Evidence (system env)} {Q : α → Set Store → Prop}

theorem LocksFree.withLock (hE : LocksFree E) {key : LockKey} {ttlMs : ℕ} (hQ : ∀ a u v, u ⊆ v → Q a u → Q a v)
    (h : ∀ u, past ⊆ u → E.Cites i Q p u) :
    E.Cites i (fun result u => ∀ a, result = some a → Q a u) (YatriGo.withLock key ttlMs p) past := by
  rw [withLock_eq]
  have hle : ∀ (s t : Store) (u : Set Store), past ⊆ u → past ⊆ insert s (insert t u) :=
    fun s t u hu => hu.trans ((Set.subset_insert _ _).trans (Set.subset_insert _ _))
  refine ⟨hE.token _, fun s => ⟨hE.take .., fun t => ?_⟩⟩
  generalize ((system env).exec i (.setNX key _ ttlMs) t).1 = ok
  cases ok with
  | false => exact fun a ha => by cases ha
  | true =>
    have hrelease : ∀ token u, E.Cites i (fun _ _ => True) (releaseLock key token) u :=
      fun token u => ⟨hE.release .., fun _ => trivial⟩
    refine Evidence.Cites.bind (Evidence.Cites.tryFinally (h _ ?_) (fun u _ => hrelease _ u) hQ) fun a u _ ha b hb => ?_
    · exact hle _ _ _ (hle _ _ _ subset_rfl)
    · cases hb
      exact ha

theorem cites_retryLock {fn : App (Option α)}
    (h : ∀ u, past ⊆ u → E.Cites i (fun result u => ∀ a, result = some a → Q a u) fn u) (n : ℕ) :
    E.Cites i (fun result u => ∀ a, result = some a → Q a u) (withRetryLock fn n) past := by
  induction n generalizing past with
  | zero => exact fun a ha => by cases ha
  | succ n ih =>
    refine (h past subset_rfl).bind fun result u hu hresult => ?_
    cases result with
    | none => exact ih fun v hv => h v (hu.trans hv)
    | some a => exact hresult

end locks

theorem cites_withLock {Q : α → Set Store → Prop} {key : LockKey} {ttlMs : ℕ} (hQ : ∀ a u v, u ⊆ v → Q a u → Q a v)
    (h : ∀ u, past ⊆ u → Cites env i Q p u) :
    Cites env i (fun result u => ∀ a, result = some a → Q a u) (withLock key ttlMs p) past :=
  LocksFree.withLock ⟨fun _ => trivial, fun _ _ _ _ => trivial, fun _ _ _ => trivial⟩ hQ h

theorem backed_withLock {f : Option α → App β} {key : LockKey} {ttlMs : ℕ} (h : ∀ u, past ⊆ u → Backed env i p u)
    (hf : ∀ result u, past ⊆ u → Backed env i (f result) u) : Backed env i ((withLock key ttlMs p).bind f) past :=
  (cites_withLock (fun _ _ _ _ h => h) h).bind fun result u hu _ => hf result u hu

theorem backed_rideLock {fn : App (Option RideHash)} (h : ∀ u, past ⊆ u → Backed env i fn u) :
    Backed env i (withRideLock env r fn) past := by
  refine backed_withLock h fun result u _ => ?_
  cases result.join with
  | none => trivial
  | some ride => trivial

end rules

section wordless

theorem wordless_redis {c : Cmd α} (h : c.wordless) : Wordless (redis c) := ⟨h, fun _ => trivial⟩

theorem wordless_write (w : Write) : Wordless (write w) := wordless_redis trivial

theorem wordless_getRide : Wordless (getRide r) := ⟨trivial, fun _ => trivial⟩

theorem wordless_getDriverState : Wordless (getDriverState d) := ⟨trivial, fun _ => trivial⟩

theorem wordless_appendTimelineEvent {event : TimelineEventType} {actorType : ActorType} {actorId : Option ℕ} {atTime : Time} :
    Wordless (appendTimelineEvent r event actorType actorId atTime) := (wordless_write _).bind fun _ => wordless_write _

theorem wordless_updateRideHash {fields : List RideField} : Wordless (updateRideHash r fields) :=
  (wordless_write _).bind fun _ => (wordless_write _).bind fun _ => wordless_getRide

theorem wordless_addJob {job : JobId} {delay : ℕ} : Wordless (redis (.addJob job delay)) := wordless_redis trivial

theorem wordless_enqueueDriverSync {reason : SyncReason} {suffix : Option Time} :
    Wordless (enqueueDriverSync d reason suffix) := by
  cases suffix with
  | some suffix => exact wordless_addJob
  | none => exact ⟨trivial, fun _ => wordless_addJob⟩

theorem wordless_releaseLock {key : LockKey} {token : Token} : Wordless (releaseLock key token) := ⟨trivial, fun _ => trivial⟩

theorem wordless_releaseDriverAvailability {driverId : Option DriverId} :
    Wordless (releaseDriverAvailability driverId r now) := by
  cases driverId with
  | none => trivial
  | some driverId => exact ⟨trivial, fun _ => ⟨trivial, fun _ => ⟨trivial, fun _ => wordless_redis trivial⟩⟩⟩

theorem wordless_releaseDriverReservations {batchId : Option BatchId} {ds : List DriverId} :
    Wordless (releaseDriverReservations r batchId ds) := by
  cases batchId with
  | none => trivial
  | some batchId => exact Prog.Uses.forEach fun _ _ => wordless_releaseLock

theorem wordless_clearPendingMembership {ds : List DriverId} : Wordless (clearPendingMembership r ds) := by
  unfold clearPendingMembership
  split_ifs
  · trivial
  · exact wordless_redis trivial

theorem wordless_cleanupTerminalRideKeys : Wordless (cleanupTerminalRideKeys r ride now) := by
  have hbatch : Wordless (releaseBatchReservations r ride) := by
    unfold releaseBatchReservations
    cases ride.currentBatchId with
    | none => trivial
    | some batchId => exact Prog.Uses.forEach fun _ _ => wordless_releaseLock
  have hdriver : Wordless (releaseRideDriver r ride now) := by
    unfold releaseRideDriver
    cases ride.driverId with
    | none => trivial
    | some driverId => exact wordless_releaseDriverAvailability.bind fun _ => wordless_enqueueDriverSync
  exact ⟨trivial, fun _ => ⟨trivial, fun _ => ⟨trivial, fun _ => hbatch.bind fun _ => hdriver⟩⟩⟩

theorem wordless_endBatch {batchId : BatchId} : Wordless (endBatch r ride batchId now) :=
  ⟨trivial, fun _ => ⟨trivial, fun _ => wordless_releaseDriverReservations.bind fun _ =>
    wordless_clearPendingMembership.bind fun _ => wordless_appendTimelineEvent⟩⟩

theorem wordless_isDriverReservable : Wordless (isDriverReservable env d) := by
  have hghost : Wordless (cleanupGhostAvailability d) := ⟨trivial, fun _ => wordless_redis trivial⟩
  have hcooldown : Wordless (isDriverOnRejectCooldown env d) := by
    unfold isDriverOnRejectCooldown
    split_ifs
    · trivial
    · exact ⟨trivial, fun _ => trivial⟩
  refine ⟨trivial, fun hash => ⟨trivial, fun _ => ⟨trivial, fun _ => ⟨trivial, fun alive => hcooldown.bind fun _ => ?_⟩⟩⟩⟩
  cases toDriverSnapshot hash with
  | none => exact hghost.bind fun _ => trivial
  | some state =>
    cases alive with
    | true => trivial
    | false => exact hghost.bind fun _ => trivial

theorem wordless_getNearestAvailableDrivers {origin : Location} {radiusKm : ℚ} {count : ℕ} :
    Wordless (getNearestAvailableDrivers origin radiusKm count) := by
  refine ⟨trivial, fun found => ?_⟩
  cases found with
  | none => trivial
  | some drivers => trivial

theorem wordless_reserveLoop {batchId : BatchId} (candidates reserved : List DriverId) :
    Wordless (reserveLoop env r batchId candidates reserved) := by
  induction candidates generalizing reserved with
  | nil => trivial
  | cons driverId rest ih =>
    refine wordless_isDriverReservable.bind fun reservable => ?_
    cases reservable with
    | false => exact ih _
    | true =>
      refine ⟨trivial, fun ok => ?_⟩
      simp only [Prog.ret_bind]
      generalize (if ok then reserved ++ [driverId] else reserved) = reserved'
      split_ifs
      · trivial
      · exact ih _

theorem wordless_expandSearch {nextRound : ℕ} {nextRadius : ℚ} :
    Wordless (expandSearch env r ride nextRound nextRadius now) := by
  refine wordless_updateRideHash.bind fun updated => ?_
  cases updated with
  | none => trivial
  | some updated =>
    exact wordless_appendTimelineEvent.bind fun _ => wordless_addJob.bind fun _ => wordless_addJob.bind fun _ => trivial

theorem wordless_applyRejectCooldown : Wordless (applyRejectCooldown env d) := by
  unfold applyRejectCooldown
  split_ifs
  · trivial
  · exact wordless_write _

theorem wordless_persist {state : DriverState} : Wordless (persistDriverRealtimeState env d state) := wordless_redis trivial

theorem wordless_withLock {key : LockKey} {ttlMs : ℕ} (h : Wordless p) : Wordless (withLock key ttlMs p) := by
  rw [withLock_eq]
  refine ⟨trivial, fun u => ⟨trivial, fun ok => ?_⟩⟩
  cases ok with
  | false => trivial
  | true => exact (Prog.Uses.tryFinally h wordless_releaseLock).bind fun _ => trivial

theorem wordless_retryLock {fn : App (Option α)} (h : Wordless fn) (n : ℕ) : Wordless (withRetryLock fn n) := by
  induction n with
  | zero => trivial
  | succ n ih =>
    refine h.bind fun result => ?_
    cases result with
    | none => exact ih
    | some a => trivial

theorem wordless_heartbeat {lat lng : Option ℚ} {socketId : Option SocketId} : Wordless (heartbeat env d lat lng socketId) := by
  refine (wordless_retryLock (wordless_withLock ?_) 3).bind fun result => ?_
  · refine wordless_getDriverState.bind fun existing => ?_
    cases existing with
    | none => trivial
    | some existing =>
      dsimp only
      split_ifs
      · trivial
      · exact ⟨trivial, fun _ => wordless_persist.bind fun _ => trivial⟩
  · cases result with
    | none => trivial
    | some result => exact wordless_enqueueDriverSync.bind fun _ => trivial

theorem wordless_restoreDriverSession {socketId : Option SocketId} : Wordless (restoreDriverSession env d socketId) := by
  refine (wordless_withLock ?_).bind fun result => ?_
  · refine wordless_getDriverState.bind fun existing => ?_
    cases existing with
    | none => trivial
    | some existing =>
      dsimp only
      split_ifs
      · trivial
      · exact ⟨trivial, fun _ => wordless_persist.bind fun _ => trivial⟩
  · cases result.join with
    | none => trivial
    | some result => exact wordless_enqueueDriverSync.bind fun _ => trivial

theorem wordless_recoverDispatchingRides : Wordless recoverDispatchingRides := by
  refine ⟨trivial, fun _ => ⟨trivial, fun now => Prog.Uses.forEach fun r _ => wordless_getRide.bind fun ride => ?_⟩⟩
  cases ride with
  | none => exact wordless_write _
  | some ride =>
    dsimp only
    split_ifs
    · trivial
    · cases ride.currentBatchId with
      | none => exact wordless_addJob
      | some batchId => exact wordless_addJob
    · cases ride.currentBatchId with
      | none => exact wordless_addJob
      | some batchId => trivial

end wordless

end YatriGo
