import YatriGo.Proofs.BatchOffers
import YatriGo.Proofs.RideFootprint

/-! A rejection that runs alone: which responses count as an answer to the current batch, and
what is recorded of it. -/

namespace YatriGo
open Concurrent

variable {env : Env} {i : ℕ} {r : RideId} {d d' : DriverId} {b : BatchId} {reason : Response} {s t u : Store} {now : Time}
  {γ : Type} {note : ℚ → Store → γ}

/-- The store right after the rejection was recorded, its fields that matter. -/
structure Recorded (r : RideId) (d : DriverId) (reason : Response) (exhausted : Bool) (now : Time) (s u : Store) :
    Prop where
  seq : u.nextSeq = s.nextSeq
  ride : u.ride r = (s.ride r).hset (rejectFields (s.ride r) exhausted now)
  responses : u.rideResponses r = put (s.rideResponses r) d (some reason)
  released : ∀ b, (s.ride r).currentBatchId = some b →
    (u.locks (.reservation d)).map Lease.token ≠ some (.reservation r b)

theorem offstage_applyRejectCooldown : Offstage (applyRejectCooldown env d) := by
  unfold applyRejectCooldown
  split_ifs
  · exact ⟨Prog.uses_ret (), trivial⟩
  · refine ⟨⟨fun w hw => ?_, fun _ => Prog.uses_ret ()⟩, fun _ => trivial⟩
    rw [List.mem_singleton.mp hw]
    trivial

theorem alone_releaseOwn {batch : Option BatchId} : ∃ t,
    Solo env i note (releaseDriverReservations r batch [d]) s (.ok ()) t [] ∧ t.ride = s.ride ∧ NoOffers s t ∧
      ∀ b, batch = some b → (t.locks (.reservation d)).map Lease.token ≠ some (.reservation r b) := by
  cases batch with
  | none => exact ⟨s, .ret, rfl, .refl, fun b hb => by cases hb⟩
  | some b =>
    obtain ⟨locks, hlocks⟩ := @releaseLockScript_eq (.reservation d) (.reservation r b) s
    refine ⟨(releaseLockScript (.reservation d) (.reservation r b) s).2, .cmd .ret, ?_, noOffers_release, ?_⟩
    · rw [hlocks]
    · rintro _ ⟨⟩
      rw [releaseLockScript_reservation]
      split_ifs with hheld
      · exact fun h => by cases h
      · exact fun h => hheld ⟨rfl, h⟩

/-- A rejection is recorded, and the ride dispatched again once nobody else of the batch is asked any more. -/
theorem alone_rejectUnderLock (h : (s.ride r).status ≠ none) : ∃ u,
    Recorded r d reason (batchExhausted (s.ride r) d (s.rideResponses r)) now s u ∧ Near (some r) s u ∧
    (batchExhausted (s.ride r) d (s.rideResponses r) = false → ∃ ride', Solo env i note
      (rejectUnderLock env r d reason (s.ride r) now (s.rideResponses r)) s (.ok (some ride')) u []) ∧
    (batchExhausted (s.ride r) d (s.rideResponses r) = true → ∀ {result t notes},
      Solo env i note (dispatchUnderLock env r) u result t notes →
      Solo env i note (rejectUnderLock env r d reason (s.ride r) now (s.rideResponses r)) s result t notes) ∧
    u.rideNotifiedDrivers = s.rideNotifiedDrivers := by
  obtain ⟨exhausted, hexhausted⟩ : ∃ e, batchExhausted (s.ride r) d (s.rideResponses r) = e := ⟨_, rfl⟩
  rw [hexhausted]
  let m := s.multi (rejectWrites r (s.ride r) d reason exhausted now)
  have hride : m.ride r = (s.ride r).hset (rejectFields (s.ride r) exhausted now) := put_self
  have hseq : m.nextSeq = s.nextSeq := multi_nextSeq
  have hresponses : m.rideResponses r = put (s.rideResponses r) d (some reason) := put_self
  obtain ⟨_, t₁, ht₁, hride₁, hsame₁⟩ := @alone_offstage env i Unit γ note _ (@offstage_applyRejectCooldown env d) m
  obtain ⟨t₂, ht₂, hride₂, hsame₂, hreleased⟩ := @alone_releaseOwn env i r d t₁ γ note (s.ride r).currentBatchId
  have happend : Behind (appendTimelineEvent r .driverRejected .driver (some d) now) := behind_appendTimelineEvent
  obtain ⟨_, t₃, ht₃, hback₃⟩ := @Behind.alone env i Unit γ note _ happend t₂
  have hsync : Behind (enqueueRideSync r (t₃.ride r).version) := behind_addJob
  obtain ⟨_, t₄, ht₄, hback₄⟩ := @Behind.alone env i Unit γ note _ hsync t₃
  have hride₃ : t₃.ride = m.ride := by rw [hback₃.rides, hride₂, hride₁]
  have hstatus : (t₃.ride r).status ≠ none := by
    rw [hride₃, hride, hset_rejectFields.1]
    exact h
  -- what comes after the MULTI leaves hash, responses and ids alone, and gives the reservation back
  have hrecorded : ∀ v, v.ride = t₄.ride → NoOffers t₄ v → Recorded r d reason exhausted now s v := by
    intro v hv hsame
    have hsame₂₄ : NoOffers t₂ v := (hback₃.noOffers.trans hback₄.noOffers).trans hsame
    refine ⟨?_, ?_, ?_, fun b hb => ?_⟩
    · rw [hsame₂₄.seq, hsame₂.seq, hsame₁.seq, hseq]
    · rw [hv, hback₄.rides, hride₃, hride]
    · rw [hsame₂₄.responses, hsame₂.responses, hsame₁.responses, hresponses]
    · rcases hsame₂₄.locks (.reservation d) with heq | hnone
      · rw [heq]
        exact hreleased b hb
      · rw [hnone]
        exact fun h => by cases h
  have hnear₁ : Near (some r) s t₁ := by
    have hwrites : ∀ w ∈ rejectWrites r (s.ride r) d reason exhausted now, w.near (some r) := by
      intro w hw
      simp only [rejectWrites, List.mem_cons, List.not_mem_nil, or_false] at hw
      rcases hw with rfl | rfl | rfl
      · rfl
      · trivial
      · exact ⟨rfl, by simp [rejectFields]⟩
    exact (near_multi hwrites).trans (near_applyRejectCooldown.solo ht₁)
  have hnear₃ : Near (some r) s t₃ :=
    (hnear₁.trans (near_releaseDriverReservations.solo ht₂)).trans (near_appendTimelineEvent.solo ht₃)
  have hnear₄ : Near (some r) s t₄ := hnear₃.trans (near_addJob.solo ht₄)
  have hnotified : t₄.rideNotifiedDrivers = s.rideNotifiedDrivers := by
    have hm : m.rideNotifiedDrivers = s.rideNotifiedDrivers := by
      apply notified_multi
      intro w hw
      simp only [rejectWrites, List.mem_cons, List.not_mem_nil, or_false] at hw
      rcases hw with rfl | rfl | rfl <;> trivial
    rw [slight_enqueueRideSync.mute.ends ht₄, slight_appendTimelineEvent.mute.ends ht₃,
      slight_releaseDriverReservations.mute.ends ht₂, slight_applyRejectCooldown.mute.ends ht₁, hm]
  -- the part in front of the last decision, to be followed by either of its branches
  have hfront : ∀ {result t notes}, Solo env i note (if exhausted then
        (releaseDriverReservations r (s.ride r).currentBatchId (s.ride r).currentBatchDrivers).bind fun _ =>
          dispatchUnderLock env r
      else .ret (some (t₃.ride r))) t₄ result t notes →
      Solo env i note (rejectUnderLock env r d reason (s.ride r) now (s.rideResponses r)) s result t notes := by
    intro result t notes hrest
    unfold rejectUnderLock
    rw [hexhausted]
    exact Prog.Ends.cmd (ht₁.bind (ht₂.bind (ht₃.bind (alone_getRide hstatus (ht₄.bind hrest)))))
  cases exhausted with
  | false => exact ⟨t₄, hrecorded t₄ rfl .refl, hnear₄, fun _ => ⟨t₃.ride r, hfront .ret⟩, (fun htrue => by cases htrue), hnotified⟩
  | true =>
    obtain ⟨_, t₅, ht₅, hride₅, hsame₅⟩ := @alone_offstage env i Unit γ note _
      (@offstage_releaseDriverReservations r (s.ride r).currentBatchId (s.ride r).currentBatchDrivers) t₄
    have hnear₅ : Near (some r) s t₅ := hnear₄.trans (near_releaseDriverReservations.solo ht₅)
    refine ⟨t₅, hrecorded t₅ hride₅ hsame₅, hnear₅, (fun hfalse => by cases hfalse), fun _ => ?_, ?_⟩
    · intro result t notes hdispatch
      exact hfront (ht₅.bind hdispatch)
    · rw [slight_releaseDriverReservations.mute.ends ht₅, hnotified]

/-- The ride is DISPATCHING, and its current batch `b` still waits for the driver. -/
structure Awaits (r : RideId) (d : DriverId) (b : BatchId) (s : Store) : Prop where
  status : (s.ride r).status = some .dispatching
  batch : (s.ride r).currentBatchId = some b
  response : s.rideResponses r d = some (.pending b)

/-- Rides, responses, reservations, cooldowns and queues are the same. -/
structure Untouched (s t : Store) : Prop where
  ride : t.ride = s.ride
  responses : t.rideResponses = s.rideResponses
  reservations : ∀ d, t.locks (.reservation d) = s.locks (.reservation d)
  cooldowns : t.rejectCooldown = s.rejectCooldown
  jobs : t.jobs = s.jobs

/-- The batch waits for the driver no longer, and the driver does not count as the one that accepted. -/
structure Answered (r : RideId) (d : DriverId) (b : BatchId) (t : Store) : Prop where
  notPending : t.rideResponses r d ≠ some (.pending b)
  notAccepted : t.rideResponses r d ≠ some .accepted
  released : (t.locks (.reservation d)).map Lease.token ≠ some (.reservation r b)

/-- The store that a rejection leaves. -/
def rejectedStore (env : Env) (i : ℕ) (r : RideId) (d : DriverId) (reason : Response) (s : Store) : Store :=
  (system env).after i (handleDriverRejection env r d reason) s

/-- The stores in which a rejection dispatches the ride again. -/
def redispatches (env : Env) (i : ℕ) (r : RideId) (d : DriverId) (reason : Response) (s : Store) : List Store :=
  (handleDriverRejection env r d reason).visits ((system env).client i) (Cmd.searches fun _ u => u) s

/-- No other driver of the batch is still to answer. -/
def LastToAnswer (r : RideId) (d : DriverId) (b : BatchId) (s : Store) : Prop :=
  ∀ d' ∈ (s.ride r).currentBatchDrivers, d' ≠ d → s.rideResponses r d' ≠ some (.pending b)

/-- What a rejection does: nothing, unless the current batch waits for the driver; and then it
records the answer, of this driver alone, and dispatches the ride again after the last one. -/
structure RejectionRule (env : Env) (i : ℕ) (r : RideId) (d : DriverId) (reason : Response) (s : Store) : Prop where
  ignored : (∀ b, ¬ Awaits r d b s) →
    Untouched s (rejectedStore env i r d reason s) ∧ redispatches env i r d reason s = []
  answered : ∀ b, Awaits r d b s → Answered r d b (rejectedStore env i r d reason s) ∧
    ∀ u ∈ redispatches env i r d reason s, Answered r d b u
  others : ∀ b, Awaits r d b s → ∀ d', d' ≠ d →
    (∀ u ∈ redispatches env i r d reason s, u.rideResponses r d' = s.rideResponses r d') ∧
    (redispatches env i r d reason s = [] → (rejectedStore env i r d reason s).rideResponses r d' = s.rideResponses r d')
  redispatched : ∀ b, Awaits r d b s → (redispatches env i r d reason s ≠ [] ↔ LastToAnswer r d b s)

/-- An answer of the driver that is not awaited is dropped, and one that is awaited is a refusal. -/
structure ProperRejection (r : RideId) (d : DriverId) (reason : Response) (s : Store) : Prop where
  dropped : (∀ b, ¬ Awaits r d b s) → s.locks (.ride r) ≠ none ∨ (s.ride r).status ≠ some .dispatching ∨
    ignoresRejection (s.rideResponses r d) = true
  refused : ∀ b, Awaits r d b s → s.locks (.ride r) = none ∧ reason ≠ .pending b ∧ reason ≠ .accepted

theorem untouched_release {token : Token} (h : Untouched s t) :
    Untouched s (releaseLockScript (.ride r) token t).2 := by
  obtain ⟨locks, hlocks⟩ := @releaseLockScript_eq (.ride r) token t
  refine ⟨?_, ?_, fun d => ?_, ?_, ?_⟩
  · rw [hlocks]
    exact h.ride
  · rw [hlocks]
    exact h.responses
  · rw [releaseLockScript_locks_of_ne reservation_ne_ride]
    exact h.reservations d
  · rw [hlocks]
    exact h.cooldowns
  · rw [hlocks]
    exact h.jobs

theorem untouched_lockTaken {ttlMs : ℕ} : Untouched s (lockTaken i (.ride r) ttlMs s) :=
  ⟨rfl, rfl, fun _ => lockTaken_of_ne reservation_ne_ride, rfl, rfl⟩

/-- The rejection finds the ride, and its lock free. -/
def passes (r : RideId) (s : Store) : Bool := (s.locks (.ride r)).isNone && (s.ride r).status.isSome

/-- How a rejection ends that records nothing. -/
def rejectionAnswer (r : RideId) (s : Store) : Except AppError RideHash :=
  if passes r s then .ok (s.ride r) else .error dispatchLocked

/-- A rejection that finds a busy lock, another status, or no response to replace. -/
theorem alone_rejection_ignored (h : s.locks (.ride r) ≠ none ∨ (s.ride r).status ≠ some .dispatching ∨
    ignoresRejection (s.rideResponses r d) = true) :
    ∃ t, Solo env i note (handleDriverRejection env r d reason) s (rejectionAnswer r s) t [] ∧ Untouched s t := by
  unfold rejectionAnswer passes
  cases hlock : s.locks (.ride r) with
  | some lease => exact ⟨_, alone_withRideLock_busy hlock, rfl, rfl, fun _ => rfl, rfl, rfl⟩
  | none =>
    have hcases := h.resolve_left fun hbusy => hbusy hlock
    have hkept : Untouched s (releaseLockScript (.ride r) (.uuid ⟨i, s.nextSeq⟩) (lockTaken i (.ride r) env.lockTtlMs s)).2 :=
      untouched_release untouched_lockTaken
    cases hread : (s.ride r).status with
    | none =>
      have hsnapshot : toRideSnapshot (s.ride r) = none := if_pos hread
      have hsection : Solo env i note (rejectionUnderLock env r d reason) (lockTaken i (.ride r) env.lockTtlMs s) (.ok none)
          (lockTaken i (.ride r) env.lockTtlMs s) [] := by
        apply alone_readRide
        rw [show (lockTaken i (.ride r) env.lockTtlMs s).ride = s.ride from rfl, hsnapshot]
        exact .ret
      exact ⟨_, alone_withRideLock hlock hsection, hkept⟩
    | some status =>
      have hsection : Solo env i note (rejectionUnderLock env r d reason) (lockTaken i (.ride r) env.lockTtlMs s)
          (.ok (some (s.ride r))) (lockTaken i (.ride r) env.lockTtlMs s) [] := by
        refine alone_getRide (show (s.ride r).status ≠ none by rw [hread]; exact Option.some_ne_none status) ?_
        show Solo env i note (if (s.ride r).status ≠ some .dispatching then _ else _) _ _ _ _
        split_ifs with hstatus
        · exact .ret
        · have hignored := hcases.resolve_left hstatus
          refine .cmd (.cmd ?_)
          show Solo env i note (if ignoresRejection (s.rideResponses r d) = true then _ else _) _ _ _ _
          rw [if_pos hignored]
          exact .ret
      exact ⟨_, alone_withRideLock hlock hsection, hkept⟩

/-- The rejection dispatches the ride again, and Redis refuses the search. -/
def searchFails (env : Env) (r : RideId) (d : DriverId) (s : Store) : Bool :=
  batchExhausted (s.ride r) d (s.rideResponses r) && !allowsSearch env (s.ride r) (nextRadiusKm env (s.ride r))

/-- What comes of the search that may follow a rejection. -/
structure Followed (env : Env) (r : RideId) (d : DriverId) (reason : Response) (s t : Store) (result : Except AppError RideHash) :
    Prop where
  answered : searchFails env r d s = false → ∃ ride', result = .ok ride'
  failed : searchFails env r d s = true → ∃ e, result = .error e
  allowed : allowsSearch env (s.ride r) (nextRadiusKm env (s.ride r)) = true →
    allowsSearch env (t.ride r) (nextRadiusKm env (t.ride r)) = true
  unsearched : allowsSearch env (s.ride r) (nextRadiusKm env (s.ride r)) = false →
    t.ride r = (s.ride r).hset (rejectFields (s.ride r) (batchExhausted (s.ride r) d (s.rideResponses r)) s.clock) ∧
      ∀ d', t.rideResponses r d' = put (s.rideResponses r) d (some reason) d'

theorem allows_rejectFields {ride ride' : RideHash} {exhausted : Bool} :
    allowsSearch env (ride.hset (rejectFields ride' exhausted now)) (nextRadiusKm env (ride.hset (rejectFields ride' exhausted now))) =
      allowsSearch env ride (nextRadiusKm env ride) := by
  simp only [allowsSearch, nextRadiusKm, rejectFields, hset_cons, hset_nil, RideHash.setField]

/-- A rejection that replaces a response: `u` is the store right after it was recorded. -/
theorem alone_rejection_recorded (hfree : s.locks (.ride r) = none) (hstatus : (s.ride r).status = some .dispatching)
    (hresponse : ignoresRejection (s.rideResponses r d) = false) : ∃ result u t notes,
    Solo env i (fun _ u => u) (handleDriverRejection env r d reason) s result t notes ∧
    Recorded r d reason (batchExhausted (s.ride r) d (s.rideResponses r)) s.clock (lockTaken i (.ride r) env.lockTtlMs s) u ∧
    notes = (if batchExhausted (s.ride r) d (s.rideResponses r) then [u] else []) ∧
    (if batchExhausted (s.ride r) d (s.rideResponses r) then Renewed r ⟨i, u.nextSeq⟩ u t else NoOffers u t) ∧
    (s.ride r).version < (t.ride r).version ∧
    (∀ d', s.driverHeartbeat d' = none → t.rideResponses r d' = put (s.rideResponses r) d (some reason) d') ∧
    Followed env r d reason s t result := by
  let held := lockTaken i (.ride r) env.lockTtlMs s
  let token : Token := .uuid ⟨i, s.nextSeq⟩
  have hread : (held.ride r).status ≠ none := by
    show (s.ride r).status ≠ none
    rw [hstatus]
    exact Option.some_ne_none _
  have hsection : ∀ {answer t notes}, Solo env i (fun _ u => u)
      (rejectUnderLock env r d reason (held.ride r) s.clock (held.rideResponses r)) held answer t notes →
      Solo env i (fun _ u => u) (rejectionUnderLock env r d reason) held answer t notes := by
    intro answer t notes hrest
    refine alone_getRide hread ?_
    show Solo env i _ (if (s.ride r).status ≠ some .dispatching then _ else _) _ _ _ _
    rw [if_neg (not_not.mpr hstatus)]
    refine .cmd (.cmd ?_)
    show Solo env i _ (if ignoresRejection (s.rideResponses r d) = true then _ else _) _ _ _ _
    rw [hresponse, if_neg Bool.false_ne_true]
    exact hrest
  obtain ⟨u, hrecorded, hnear, hstop, hagain, -⟩ := @alone_rejectUnderLock env i r d reason held s.clock Store (fun _ u => u) hread
  have hversion : (u.ride r).version = (s.ride r).version + 1 := by
    rw [hrecorded.ride]
    rfl
  have hrelease : ∀ t, (releaseLockScript (.ride r) token t).2.ride = t.ride ∧
      (releaseLockScript (.ride r) token t).2.rideResponses = t.rideResponses := by
    intro t
    obtain ⟨locks, hlocks⟩ := @releaseLockScript_eq (.ride r) token t
    rw [hlocks]
    exact ⟨rfl, rfl⟩
  have hkept : allowsSearch env (u.ride r) (nextRadiusKm env (u.ride r)) =
      allowsSearch env (s.ride r) (nextRadiusKm env (s.ride r)) := by
    rw [hrecorded.ride]
    exact allows_rejectFields
  -- without a search, the store is the one right after the answer was recorded
  have hunsearched : (releaseLockScript (.ride r) token u).2.ride r =
      (s.ride r).hset (rejectFields (s.ride r) (batchExhausted (s.ride r) d (s.rideResponses r)) s.clock) ∧
      ∀ d', (releaseLockScript (.ride r) token u).2.rideResponses r d' = put (s.rideResponses r) d (some reason) d' := by
    rw [(hrelease u).1, (hrelease u).2, hrecorded.ride, hrecorded.responses]
    exact ⟨rfl, fun d' => rfl⟩
  have hallowed : allowsSearch env (s.ride r) (nextRadiusKm env (s.ride r)) = true →
      allowsSearch env ((releaseLockScript (.ride r) token u).2.ride r)
        (nextRadiusKm env ((releaseLockScript (.ride r) token u).2.ride r)) = true := by
    rw [(hrelease u).1, hkept]
    exact id
  cases hexhausted : batchExhausted (s.ride r) d (s.rideResponses r) with
  | false =>
    have hfails : searchFails env r d s = false := by
      unfold searchFails
      rw [hexhausted, Bool.false_and]
    rw [hexhausted] at hunsearched
    obtain ⟨ride', hsolo⟩ := hstop hexhausted
    refine ⟨_, u, _, [], alone_withRideLock hfree (hsection hsolo), ?_, rfl, noOffers_release, ?_, fun d' _ => ?_,
      ⟨fun _ => ⟨ride', rfl⟩, fun htrue => ?_, hallowed, fun _ => ?_⟩⟩
    · rw [← hexhausted]
      exact hrecorded
    · rw [(hrelease u).1, hversion]
      exact Nat.lt_succ_self _
    · rw [(hrelease u).2, hrecorded.responses]
      rfl
    · rw [hfails] at htrue
      cases htrue
    · rw [hexhausted]
      exact hunsearched
  | true =>
    rw [hexhausted] at hunsearched
    have hbatch : (u.ride r).currentBatchId = none := by
      rw [hrecorded.ride, hset_rejectFields.2.2]
      exact if_pos hexhausted
    have hstatus' : (u.ride r).status = some .dispatching := by
      rw [hrecorded.ride, hset_rejectFields.1]
      exact hstatus
    have hdispatchable : dispatchable (u.ride r) = true := dispatchable_of_dispatching hstatus'
    have hactive : activeBatch (u.ride r) u.clock = false := activeBatch_of_none hbatch
    cases hallows : allowsSearch env (u.ride r) (nextRadiusKm env (u.ride r)) with
    | false =>
      -- the answer stays recorded when the search fails
      obtain ⟨v, hv, -, -, hrefused⟩ :=
        @alone_dispatchUnderLock_refused env i r u Store (fun _ u => u) hdispatchable hactive hallows
      obtain rfl : v = u := hv hstatus' hbatch
      have hfails : searchFails env r d s = true := by
        unfold searchFails
        rw [hexhausted, ← hkept, hallows]
        rfl
      refine ⟨_, v, _, [v], alone_withRideLock hfree (hsection (hagain hexhausted hrefused)), ?_, rfl,
        noOffers_release.renewed, ?_, fun d' _ => ?_, ⟨fun hfalse => ?_, fun _ => ⟨_, rfl⟩, hallowed, fun _ => ?_⟩⟩
      · rw [← hexhausted]
        exact hrecorded
      · rw [(hrelease v).1, hversion]
        exact Nat.lt_succ_self _
      · rw [(hrelease v).2, hrecorded.responses]
        rfl
      · rw [hfails] at hfalse
        cases hfalse
      · rw [hexhausted]
        exact hunsearched
    | true =>
      obtain ⟨v, hv, -, ride', t, ht, hsearched, hrenewed, hunoffered, -⟩ :=
        @alone_dispatchUnderLock env i r u Store (fun _ u => u) hdispatchable hactive hallows
      obtain rfl : v = u := hv hstatus' hbatch
      have hfails : searchFails env r d s = false := by
        unfold searchFails
        rw [← hkept, hallows, Bool.not_true, Bool.and_false]
      refine ⟨_, v, _, [v], alone_withRideLock hfree (hsection (hagain hexhausted ht)), ?_, rfl,
        hrenewed.trans noOffers_release.renewed, ?_, fun d' hd' => ?_, ⟨fun _ => ⟨ride', rfl⟩, fun htrue => ?_, fun _ => ?_,
          fun hrefused => ?_⟩⟩
      · rw [← hexhausted]
        exact hrecorded
      · rw [(hrelease t).1, hsearched.version, hversion]
        exact (Nat.lt_succ_self _).trans (Nat.lt_succ_self _)
      · rw [(hrelease t).2, hunoffered d' (hnear.heartbeat d' hd'), hrecorded.responses]
        rfl
      · rw [hfails] at htrue
        cases htrue
      · rw [(hrelease t).1]
        exact hsearched.allows hallows
      · rw [← hkept, hallows] at hrefused
        cases hrefused

theorem batchExhausted_iff (hbatch : (s.ride r).currentBatchId = some b) :
    batchExhausted (s.ride r) d (s.rideResponses r) = true ↔ LastToAnswer r d b s := by
  unfold batchExhausted LastToAnswer isPendingResponse
  rw [hbatch, List.all_eq_true]
  simp only [Bool.or_eq_true, decide_eq_true_eq, Bool.not_eq_true', decide_eq_false_iff_not, or_iff_not_imp_left, ne_eq]

theorem ignoresRejection_pending : ignoresRejection (some (.pending b)) = false := by
  simp only [ignoresRejection, reduceCtorEq, Option.some.injEq, decide_false, Bool.or_self]

/-- A proper rejection of an awaited answer: both right after it is recorded and in the end. -/
theorem answered_of_recorded {exhausted : Bool} (hrecorded : Recorded r d reason exhausted now (lockTaken i (.ride r) env.lockTtlMs s) u)
    (hbatch : (s.ride r).currentBatchId = some b) (hfresh : b.client = i → b.seq < s.nextSeq)
    (hpending : reason ≠ .pending b) (haccepted : reason ≠ .accepted) :
    Answered r d b u ∧ ∀ t, Renewed r ⟨i, u.nextSeq⟩ u t → Answered r d b t := by
  have hresponse : u.rideResponses r d = some reason := by
    rw [hrecorded.responses]
    exact put_self
  have hnew : (⟨i, u.nextSeq⟩ : BatchId) ≠ b := by
    rintro rfl
    have hlt : u.nextSeq < s.nextSeq := hfresh rfl
    have hseq : u.nextSeq = s.nextSeq + 1 := hrecorded.seq
    omega
  have hu : Answered r d b u := by
    refine ⟨?_, ?_, hrecorded.released b hbatch⟩
    · rw [hresponse]
      exact fun h => hpending (Option.some.inj h)
    · rw [hresponse]
      exact fun h => haccepted (Option.some.inj h)
  refine ⟨hu, fun t ht => ⟨?_, ?_, ?_⟩⟩
  · rcases ht.response d with hsame | hbatch'
    · rw [hsame]
      exact hu.notPending
    · rw [hbatch']
      exact fun h => hnew (Response.pending.inj (Option.some.inj h))
  · rcases ht.response d with hsame | hbatch'
    · rw [hsame]
      exact hu.notAccepted
    · rw [hbatch']
      exact fun h => by cases h
  · rcases ht.reservation d with hsame | hnone | hbatch'
    · rw [hsame]
      exact hu.released
    · rw [hnone]
      exact fun h => by cases h
    · rw [hbatch']
      exact fun h => hnew (Token.reservation.inj (Option.some.inj h)).2

theorem rejection_ends {result : Except AppError RideHash} {notes : List Store}
    (h : Solo env i (fun _ u => u) (handleDriverRejection env r d reason) s result t notes) :
    rejectedStore env i r d reason s = t ∧ redispatches env i r d reason s = notes :=
  ⟨congrArg Prod.snd h.finish, h.visits⟩

theorem RejectionRule.proper (hrule : RejectionRule env i r d reason s) : ProperRejection r d reason s := by
  refine ⟨fun hnone => ?_, fun b hb => ?_⟩
  · by_contra hproper
    simp only [not_or, not_not, ne_eq, Bool.not_eq_true] at hproper
    obtain ⟨hfree, hstatus, hresponse⟩ := hproper
    obtain ⟨ride', u, t, notes, hsolo, -, -, -, hversion, -⟩ :=
      @alone_rejection_recorded env i r d reason s hfree hstatus hresponse
    obtain ⟨hstore, -⟩ := rejection_ends hsolo
    have hsame : t.ride = s.ride := by
      rw [← hstore]
      exact (hrule.ignored hnone).1.ride
    rw [hsame] at hversion
    exact lt_irrefl _ hversion
  · obtain ⟨hanswered, hvisited⟩ := hrule.answered b hb
    have hfree : s.locks (.ride r) = none := by
      by_contra hbusy
      obtain ⟨t, hsolo, hsame⟩ :=
        @alone_rejection_ignored env i r d reason s Store (fun _ u => u) (.inl hbusy)
      rw [(rejection_ends hsolo).1] at hanswered
      apply hanswered.notPending
      rw [hsame.responses]
      exact hb.response
    have hresponse : ignoresRejection (s.rideResponses r d) = false := by
      rw [hb.response]
      exact ignoresRejection_pending
    obtain ⟨ride', u, t, notes, hsolo, hrecorded, hnotes, hrest, -⟩ :=
      @alone_rejection_recorded env i r d reason s hfree hb.status hresponse
    obtain ⟨hstore, hvisits⟩ := rejection_ends hsolo
    rw [hvisits, hnotes] at hvisited
    rw [hstore] at hanswered
    -- the response is looked at where the next search begins, or at the end
    have hu : u.rideResponses r d ≠ some (.pending b) ∧ u.rideResponses r d ≠ some .accepted := by
      cases hexhausted : batchExhausted (s.ride r) d (s.rideResponses r) with
      | true =>
        rw [hexhausted] at hvisited
        have hanswered' := hvisited u List.mem_cons_self
        exact ⟨hanswered'.notPending, hanswered'.notAccepted⟩
      | false =>
        rw [hexhausted] at hrest
        have hsame : t.rideResponses = u.rideResponses := hrest.responses
        rw [← hsame]
        exact ⟨hanswered.notPending, hanswered.notAccepted⟩
    have hput : u.rideResponses r d = some reason := by
      rw [hrecorded.responses]
      exact put_self
    rw [hput] at hu
    exact ⟨hfree, fun h => hu.1 (congrArg some h), fun h => hu.2 (congrArg some h)⟩

theorem ProperRejection.rule (hproper : ProperRejection r d reason s)
    (hfresh : ∀ b, (s.ride r).currentBatchId = some b → b.client = i → b.seq < s.nextSeq) :
    RejectionRule env i r d reason s := by
  -- what is said of an awaited answer, from the store right after it was recorded
  have hawaited : ∀ b, Awaits r d b s → ∃ u t,
      Recorded r d reason (batchExhausted (s.ride r) d (s.rideResponses r)) s.clock (lockTaken i (.ride r) env.lockTtlMs s) u ∧
      redispatches env i r d reason s = (if batchExhausted (s.ride r) d (s.rideResponses r) then [u] else []) ∧
      rejectedStore env i r d reason s = t ∧
      (if batchExhausted (s.ride r) d (s.rideResponses r) then Renewed r ⟨i, u.nextSeq⟩ u t else NoOffers u t) := by
    intro b hb
    have hresponse : ignoresRejection (s.rideResponses r d) = false := by
      rw [hb.response]
      exact ignoresRejection_pending
    obtain ⟨ride', u, t, notes, hsolo, hrecorded, hnotes, hrest, -⟩ :=
      @alone_rejection_recorded env i r d reason s (hproper.refused b hb).1 hb.status hresponse
    obtain ⟨hstore, hvisits⟩ := rejection_ends hsolo
    exact ⟨u, t, hrecorded, hvisits.trans hnotes, hstore, hrest⟩
  refine ⟨fun hnone => ?_, fun b hb => ?_, fun b hb d' hne => ?_, fun b hb => ?_⟩
  · obtain ⟨t, hsolo, hsame⟩ :=
      @alone_rejection_ignored env i r d reason s Store (fun _ u => u) (hproper.dropped hnone)
    obtain ⟨hstore, hvisits⟩ := rejection_ends hsolo
    rw [hstore]
    exact ⟨hsame, hvisits⟩
  · obtain ⟨u, t, hrecorded, hvisits, hstore, hrest⟩ := hawaited b hb
    obtain ⟨-, hpending, haccepted⟩ := hproper.refused b hb
    obtain ⟨hu, hlater⟩ := answered_of_recorded hrecorded hb.batch (hfresh b hb.batch) hpending haccepted
    rw [hstore, hvisits]
    split_ifs at hrest ⊢
    · refine ⟨hlater t hrest, fun v hv => ?_⟩
      rw [List.mem_singleton.mp hv]
      exact hu
    · exact ⟨hlater t hrest.renewed, fun v hv => by cases hv⟩
  · obtain ⟨u, t, hrecorded, hvisits, hstore, hrest⟩ := hawaited b hb
    have hother : u.rideResponses r d' = s.rideResponses r d' := by
      rw [hrecorded.responses]
      exact put_of_ne hne
    rw [hstore, hvisits]
    split_ifs at hrest ⊢
    · refine ⟨fun v hv => ?_, fun hnil => by cases hnil⟩
      rw [List.mem_singleton.mp hv]
      exact hother
    · refine ⟨fun v hv => (by cases hv), fun _ => ?_⟩
      rw [hrest.responses]
      exact hother
  · obtain ⟨u, t, hrecorded, hvisits, -, -⟩ := hawaited b hb
    rw [hvisits, ← batchExhausted_iff hb.batch]
    split_ifs with hexhausted
    · exact iff_of_true (List.cons_ne_nil _ _) hexhausted
    · exact iff_of_false (fun h => h rfl) hexhausted

/-- A rejection keeps the rule exactly when it is proper. -/
theorem rejection_rule_iff (hfresh : ∀ b, (s.ride r).currentBatchId = some b → b.client = i → b.seq < s.nextSeq) :
    RejectionRule env i r d reason s ↔ ProperRejection r d reason s :=
  ⟨RejectionRule.proper, fun h => h.rule hfresh⟩

/-- Ride `⟨0, 0⟩` is offered to driver 1, in batch `⟨0, 1⟩`. -/
def offeredStore : Store where
  nextSeq := 2
  ride := put (fun _ => {}) ⟨0, 0⟩
    { status := some .dispatching, currentBatchId := some ⟨0, 1⟩, currentBatchDrivers := [1],
      currentBatchExpiresAt := some 12000, dispatchRound := 1, searchRadiusKm := 2, version := 3 }
  rideResponses := put (fun _ _ => none) ⟨0, 0⟩ (put (fun _ => none) 1 (some (.pending ⟨0, 1⟩)))

theorem rejection_rule_offered : RejectionRule townEnv 0 ⟨0, 0⟩ 1 (.text "REJECTED") offeredStore := by
  apply (rejection_rule_iff ?_).mpr
  · refine ⟨fun hnone => ?_, fun b hb => ⟨rfl, (fun h => by cases h), fun h => by cases h⟩⟩
    exact absurd ⟨rfl, rfl, rfl⟩ (hnone ⟨0, 1⟩)
  · rintro b hb -
    have hid : b = ⟨0, 1⟩ := (Option.some.inj hb).symm
    rw [hid]
    decide

/-- The search for ride `⟨0, 0⟩` is to be widened later on; driver 1 let its offer pass. -/
def waitingStore : Store where
  nextSeq := 2
  ride := put (fun _ => {}) ⟨0, 0⟩
    { status := some .dispatching, dispatchRound := 1, searchRadiusKm := 2, version := 4 }
  rideResponses := put (fun _ _ => none) ⟨0, 0⟩ (put (fun _ => none) 1 (some .timeout))

/-- A late rejection of driver 1 uses up a round of the search. -/
theorem late_rejection_dispatches :
    (waitingStore.rideResponses ⟨0, 0⟩ 1 = some .timeout) ∧
      ((rejectedStore townEnv 0 ⟨0, 0⟩ 1 (.text "REJECTED") waitingStore).ride ⟨0, 0⟩).dispatchRound = 2 ∧
      ¬ RejectionRule townEnv 0 ⟨0, 0⟩ 1 (.text "REJECTED") waitingStore := by
  refine ⟨rfl, by decide +kernel, fun hrule => ?_⟩
  have hnone : ∀ b, ¬ Awaits ⟨0, 0⟩ 1 b waitingStore := fun b hb => (by cases hb.batch)
  rcases hrule.proper.dropped hnone with hbusy | hstatus | hresponse
  · exact hbusy rfl
  · exact hstatus rfl
  · revert hresponse
    decide

end YatriGo
