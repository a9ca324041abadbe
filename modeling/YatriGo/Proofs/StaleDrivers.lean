import YatriGo.Proofs.Rejections
import YatriGo.Proofs.Offline
import YatriGo.Proofs.RideSteps

/-! The scan for drivers without a heartbeat, run alone. It takes them offline one by one, and only then
answers for them; what throws on the way leaves the rest undone. -/

namespace YatriGo
open Concurrent

/-- The drivers that a MULTI takes out of `drivers:online` and stores OFFLINE. -/
def Cmd.offlines : ⦃β : Type⦄ → Cmd β → Store → List DriverId
  | _, .multi ws, _ => ws.filterMap fun
    | .hsetDriver d fields => if .srem .online d ∈ ws ∧ .status .offline ∈ fields then some d else none
    | _ => none
  | _, _, _ => []

/-- The active ride of a driver, as `goOffline` reads it. -/
def activeRide (d : DriverId) (s : Store) : Option RideId :=
  s.driverActiveRide d <|> (toDriverSnapshot (s.driverHash d)).bind DriverState.activeRideId

/-- The answer given for a driver that is gone. -/
def heartbeatTimeout : Response := .text "HEARTBEAT_TIMEOUT"

/-- What is to be done for a driver that was taken offline. -/
inductive Owed
  | response (d : DriverId) (r : RideId)
  | notice (d : DriverId) (r : RideId)
  deriving DecidableEq

def Owed.settle (env : Env) : Owed → App Unit
  | .response d r => do
    let _ ← markDriverUnavailableDuringDispatch env r d heartbeatTimeout
    return ()
  | .notice d r => handleDriverDrop env d (some r) [] heartbeatTimeout

def owed (d : DriverId) (active : Option RideId) (pending : List RideId) : List Owed :=
  pending.map (.response d) ++ active.toList.map (.notice d)

/-- What the scan finds to do for `d`. -/
def owedTo (s : Store) (d : DriverId) : List Owed := owed d (activeRide d s) (s.driverPendingDispatches d)

variable {env : Env} {i : ℕ} {r : RideId} {d d' : DriverId} {s t u : Store} {now : Time} {o : Owed}

theorem handleDriverDrop_eq {active : Option RideId} {pending : List RideId} :
    handleDriverDrop env d active pending heartbeatTimeout = .forEach (Owed.settle env) (owed d active pending) := by
  have hpending : Prog.forEach (Owed.settle env) (pending.map (.response d)) = .forEach (fun r => do
      let _ ← markDriverUnavailableDuringDispatch env r d heartbeatTimeout
      return ()) pending := Prog.forEach_map _ _ _
  unfold owed
  rw [Prog.forEach_append, hpending]
  cases active with
  | none => rfl
  | some r =>
    have hlast : Prog.forEach (Owed.settle env) [.notice d r] = Owed.settle env (.notice d r) := Prog.bind_ret _
    simp only [Option.toList_some, List.map_cons, List.map_nil, hlast]
    rfl

theorem scanStaleDriversAndRecover_eq : scanStaleDriversAndRecover env = (scanStaleDrivers env).bind fun impacts =>
    .forEach (Owed.settle env) (impacts.flatMap fun impact => owed impact.driverId impact.activeRideId impact.pendingRideIds) := by
  have hloop : ∀ impacts : List OfflineImpact, Prog.forEach (fun impact => handleDriverDrop env impact.driverId
      impact.activeRideId impact.pendingRideIds heartbeatTimeout) impacts = .forEach (Owed.settle env)
        (impacts.flatMap fun impact => owed impact.driverId impact.activeRideId impact.pendingRideIds) := by
    intro impacts
    simp only [Prog.forEach_flatMap, handleDriverDrop_eq]
  unfold scanStaleDriversAndRecover
  exact congrArg _ (funext hloop)

/-- What is the same around the loop that takes drivers offline. -/
structure Collected (s t : Store) : Prop where
  near : Near none s t
  heartbeat : t.driverHeartbeat = s.driverHeartbeat
  owed : owedTo t = owedTo s

theorem Collected.refl : Collected s s := ⟨.refl, rfl, rfl⟩

theorem Collected.trans (h : Collected s t) (h' : Collected t u) : Collected s u :=
  ⟨h.near.trans h'.near, h'.heartbeat.trans h.heartbeat, h'.owed.trans h.owed⟩

theorem offlines_locking (β : Type) (c : Cmd β) (s : Store) (h : c.locking) : c.offlines s = [] := by
  cases c with
  | multi ws => exact h.elim
  | _ => rfl

theorem offlines_backstage (β : Type) (c : Cmd β) (s : Store) (h : c.backstage) : c.offlines s = [] := by
  cases c with
  | multi ws =>
    apply List.filterMap_eq_nil_iff.mpr
    intro w hw
    have hquiet : w.quiet := h w hw
    cases w <;> first | rfl | exact hquiet.elim
  | _ => rfl

theorem not_offlines_of_elsewhere {β : Type} {c : Cmd β} (h : c.elsewhere d) : d ∉ c.offlines s := by
  cases c with
  | multi ws =>
    intro hd
    obtain ⟨w, hw, hwrite⟩ := List.mem_filterMap.mp hd
    cases w with
    | hsetDriver d' fields =>
      dsimp only at hwrite
      split_ifs at hwrite with honline
      obtain rfl := Option.some.inj hwrite
      obtain ⟨hsrem, hstatus⟩ := honline
      have hws : ElsewhereWrites d' ws := h
      cases hws with
      | elsewhere hws => exact hws _ hw rfl
      | release r hash active heartbeatExists now =>
        -- a release takes nobody out of `drivers:online`
        unfold releaseWrites at hsrem
        revert hsrem
        split_ifs <;> repeat' split
        all_goals simp
    | _ => cases hwrite
  | _ => exact List.not_mem_nil

theorem elsewhere_settle : Elsewhere d (o.settle env) := by
  cases o with
  | response d' r => exact elsewhere_handleDriverRejection.bind fun _ => Prog.uses_ret ()
  | notice d' r =>
    have hdrop : Elsewhere d (handleDriverDrop env d' (some r) [] heartbeatTimeout) := elsewhere_handleDriverDrop
    exact hdrop

theorem offlines_offlineWrites {existing : Option DriverState} {active : Option RideId} :
    Cmd.offlines (.multi (offlineWrites d existing active now)) s = [d] := by
  simp [Cmd.offlines, offlineWrites]

theorem activeRide_offlineWrites : activeRide d'
    (s.multi (offlineWrites d (toDriverSnapshot (s.driverHash d)) (activeRide d s) now)) = activeRide d' s := by
  let written := (s.driverHash d).hset
    [.status .offline, .lat (.ofNumber ((toDriverSnapshot (s.driverHash d)).bind DriverState.lat)),
      .lng (.ofNumber ((toDriverSnapshot (s.driverHash d)).bind DriverState.lng)), .socketId none,
      .activeRideId (activeRide d s), .lastHeartbeatAt (some now), .updatedAt now]
  show (s.driverActiveRide d' <|> (toDriverSnapshot (put s.driverHash d written d')).bind DriverState.activeRideId) = _
  rcases eq_or_ne d' d with rfl | hne
  · have hread : (toDriverSnapshot written).bind DriverState.activeRideId = activeRide d' s := rfl
    rw [put_self, hread]
    unfold activeRide
    cases s.driverActiveRide d' <;> rfl
  · rw [put_of_ne hne]
    rfl

theorem collected_offlineWrites (hstale : s.driverHeartbeat d = none) :
    Collected s (s.multi (offlineWrites d (toDriverSnapshot (s.driverHash d)) (activeRide d s) now)) := by
  have hwrites : ∀ w ∈ offlineWrites d (toDriverSnapshot (s.driverHash d)) (activeRide d s) now, w.near none := by
    intro w hw
    simp only [offlineWrites, List.mem_cons, List.not_mem_nil, or_false] at hw
    rcases hw with rfl | rfl | rfl | rfl | rfl | rfl | rfl <;> trivial
  refine ⟨near_multi hwrites, ?_, ?_⟩
  · show put s.driverHeartbeat d none = s.driverHeartbeat
    funext d'
    rcases eq_or_ne d' d with rfl | hne
    · rw [put_self, hstale]
    · exact put_of_ne hne
  · funext d'
    unfold owedTo
    rw [activeRide_offlineWrites]
    rfl

theorem Behind.collected {α : Type} {p : App α} (h : Behind p) (hnear : NearBy none p) (s : Store) :
    ∃ a t, p.Ends ((system env).client i) Cmd.offlines s (.ok a) t [] ∧ Collected s t := by
  obtain ⟨a, t, ht, hback⟩ := @Behind.ends env i α DriverId p Cmd.offlines h offlines_backstage s
  have hkept : Near none s t := by
    have hend : (p.finish ((system env).client i) s).2 = t := congrArg Prod.snd ht.finish
    rw [← hend]
    exact hnear.finish s
  obtain ⟨_, _, _, _, rfl⟩ := hback
  exact ⟨a, _, ht, hkept, rfl, rfl⟩

theorem Collected.section {key : LockKey} {ttlMs : ℕ} (hfree : s.locks key = none)
    (h : Collected (lockTaken i key ttlMs s) t) : Collected s (releaseLockScript key (.uuid ⟨i, s.nextSeq⟩) t).2 := by
  have hkept := h.near.section hfree
  obtain ⟨locks, hlocks⟩ := @releaseLockScript_eq key (.uuid ⟨i, s.nextSeq⟩) t
  rw [hlocks] at hkept ⊢
  exact ⟨hkept, h.heartbeat, h.owed⟩

theorem ends_goOffline_busy {lease : Lease} (h : s.locks (.driver d) = some lease) :
    (goOffline env d).Ends ((system env).client i) Cmd.offlines s (.error driverLocked)
      { s with nextSeq := s.nextSeq + 1 } [] := by
  unfold goOffline
  exact (ends_withLock_busy offlines_locking h).bind .throw

/-- A driver without a heartbeat is taken offline, if its lock is free. -/
theorem ends_goOffline (hstale : s.driverHeartbeat d = none) (hfree : s.locks (.driver d) = none) : ∃ impact t,
    (goOffline env d).Ends ((system env).client i) Cmd.offlines s (.ok impact) t [d] ∧ Collected s t ∧
      owed impact.driverId impact.activeRideId impact.pendingRideIds = owedTo s d := by
  let held := lockTaken i (.driver d) env.lockTtlMs s
  let existing := toDriverSnapshot (s.driverHash d)
  let m := held.multi (offlineWrites d existing (activeRide d s) s.clock)
  let impact : OfflineImpact :=
    { driverId := d, activeRideId := activeRide d s, pendingRideIds := s.driverPendingDispatches d
      previousStatus := (existing.map DriverState.status).getD .offline }
  have hwritten : Collected held m := @collected_offlineWrites d held s.clock hstale
  have hemit : Behind (emitDriverStateUpdate d s.clock) := behind_publish
  obtain ⟨_, t, ht, hemitted⟩ := @Behind.collected env i Unit _ hemit (near_publish rfl) m
  let u := (releaseLockScript (.driver d) (.uuid ⟨i, s.nextSeq⟩) t).2
  have hsync : Behind (enqueueDriverSync d .offline (some u.clock)) := behind_addJob
  obtain ⟨_, v, hv, hsynced⟩ := @Behind.collected env i Unit _ hsync near_enqueueDriverSync u
  have hsection : Collected s u := (hwritten.trans hemitted).section hfree
  refine ⟨impact, v, ?_, hsection.trans hsynced, rfl⟩
  have hwrite : Cmd.offlines (.multi (offlineWrites d existing (activeRide d s) s.clock)) held = [d] := offlines_offlineWrites
  have hlocked : ∀ {fn : App OfflineImpact}, fn.Ends ((system env).client i) Cmd.offlines held (.ok impact) t [d] →
      (withLock (.driver d) env.lockTtlMs fn).Ends ((system env).client i) Cmd.offlines s (.ok (some impact)) u [d] :=
    fun hfn => ends_withLock offlines_locking hfree hfn
  show ((goOffline env d).Ends ((system env).client i) Cmd.offlines s (.ok impact) v ([d] ++ []))
  unfold goOffline
  refine Prog.Ends.bind (hlocked ?_) (.cmd_unseen rfl rfl (hv.bind .ret))
  refine .cmd_unseen rfl rfl (.cmd_unseen rfl rfl (.cmd_unseen rfl rfl (.cmd_unseen rfl rfl ?_)))
  rw [← List.append_nil [d], ← hwrite]
  exact .cmd_of_eq rfl (ht.bind .ret)

/-- The drivers among `ds` that are without a heartbeat. -/
def staleOnes (s : Store) (ds : List DriverId) : List DriverId := ds.filter fun d => (s.driverHeartbeat d).isNone

/-- Whether the lock of the driver can be taken. -/
def driverFree (s : Store) (d : DriverId) : Bool := (s.locks (.driver d)).isNone

/-- The first stale driver whose lock is held ends the loop, with an error. -/
theorem ends_scanStaleDriversLoop (ds : List DriverId) (s : Store) : ∃ result t,
    (scanStaleDriversLoop env ds).Ends ((system env).client i) Cmd.offlines s result t
      ((staleOnes s ds).takeWhile (driverFree s)) ∧ Collected s t ∧
    ((staleOnes s ds).all (driverFree s) = true → ∃ impacts, result = .ok impacts ∧
      impacts.flatMap (fun impact => owed impact.driverId impact.activeRideId impact.pendingRideIds) =
        (staleOnes s ds).flatMap (owedTo s)) ∧
    ((staleOnes s ds).all (driverFree s) = false → result = .error driverLocked) := by
  induction ds generalizing s with
  | nil => exact ⟨_, s, .ret, .refl, fun _ => ⟨[], rfl, rfl⟩, fun h => by cases h⟩
  | cons d ds ih =>
    cases hstale : s.driverHeartbeat d with
    | some expiresAt =>
      have hskip : staleOnes s (d :: ds) = staleOnes s ds := List.filter_cons_of_neg (by rw [hstale]; exact Bool.false_ne_true)
      obtain ⟨result, t, ht, hscanned, hall, hstopped⟩ := ih s
      rw [hskip]
      refine ⟨result, t, .cmd_unseen rfl rfl ?_, hscanned, hall, hstopped⟩
      rw [hstale]
      exact ht
    | none =>
      have htake : staleOnes s (d :: ds) = d :: staleOnes s ds := List.filter_cons_of_pos (by rw [hstale]; rfl)
      rw [htake]
      -- a driver without heartbeat: the loop goes on with taking it offline
      have hbeat : ∀ {result t notes}, ((goOffline env d).bind fun impact =>
          (redis (.updateDriverDocStatus d .offline)).bind fun _ => (scanStaleDriversLoop env ds).bind fun staleDrivers =>
            (.ret (impact :: staleDrivers) : App _)).Ends ((system env).client i) Cmd.offlines s result t notes →
          (scanStaleDriversLoop env (d :: ds)).Ends ((system env).client i) Cmd.offlines s result t notes := by
        intro result t notes hrest
        refine .cmd_unseen rfl rfl ?_
        rw [hstale]
        exact hrest
      cases hlock : s.locks (.driver d) with
      | some lease =>
        have hheld : driverFree s d = false := by
          unfold driverFree
          rw [hlock]
          rfl
        rw [List.takeWhile_cons_of_neg (by rw [hheld]; exact Bool.false_ne_true), List.all_cons, hheld, Bool.false_and]
        exact ⟨_, _, hbeat (ends_goOffline_busy hlock).bind_error, ⟨{ Near.refl with }, rfl, rfl⟩, (fun h => by cases h), fun _ => rfl⟩
      | none =>
        have hfree : driverFree s d = true := by
          unfold driverFree
          rw [hlock]
          rfl
        rw [List.takeWhile_cons_of_pos hfree, List.all_cons, hfree, Bool.true_and]
        obtain ⟨impact, u, hu, hscanned, himpact⟩ := @ends_goOffline env i d s hstale hlock
        let v : Store := (exec env i (.updateDriverDocStatus d .offline) u).2
        have hdoc : Collected s v := hscanned.trans ⟨near_exec trivial, rfl, rfl⟩
        -- taking `d` offline changes neither who is stale nor whose lock is free
        have hones : staleOnes v ds = staleOnes s ds := by
          unfold staleOnes
          rw [hdoc.heartbeat]
        have hlocks : driverFree v = driverFree s := by
          funext d'
          unfold driverFree
          rw [hdoc.near.locks (.driver d') trivial]
        obtain ⟨result, t, ht, hrest, hall, hstopped⟩ := ih v
        rw [hones, hlocks] at ht hall hstopped
        rw [hdoc.owed] at hall
        cases result with
        | error e =>
          have hends := hbeat (hu.bind (.cmd_unseen rfl rfl ht.bind_error))
          refine ⟨_, t, hends, hdoc.trans hrest, fun h => ?_, fun h => hstopped h⟩
          obtain ⟨impacts, hok, -⟩ := hall h
          cases hok
        | ok impacts =>
          have hends := hbeat (hu.bind (.cmd_unseen rfl rfl (ht.bind .ret)))
          rw [List.append_nil] at hends
          refine ⟨_, t, hends, hdoc.trans hrest, fun h => ⟨_, rfl, ?_⟩, fun h => ?_⟩
          · obtain ⟨impacts', hok, howed⟩ := hall h
            obtain rfl : impacts = impacts' := Except.ok.inj hok
            rw [List.flatMap_cons, List.flatMap_cons, himpact, howed]
          · cases hstopped h

/-- What is done to the ride of a driver that is gone. -/
structure Dropped (r : RideId) (d : DriverId) (s t : Store) : Prop where
  near : Near (some r) s t
  spared : (s.ride r).status ≠ some .dispatching → t.ride r = s.ride r
  responses : (s.ride r).status = some .dispatching → ∀ d', s.driverHeartbeat d' = none → t.rideResponses r d' =
    if d' = d ∧ ignoresRejection (s.rideResponses r d) = false then some heartbeatTimeout else s.rideResponses r d'

/-- The search that follows the answer throws. -/
def answerFails (env : Env) (r : RideId) (d : DriverId) (s : Store) : Bool :=
  decide ((s.ride r).status = some .dispatching) && !ignoresRejection (s.rideResponses r d) && searchFails env r d s

/-- The ride has the same batch, and Redis takes searches for it as before. -/
structure SameOffer (env : Env) (ride ride' : RideHash) : Prop where
  status : ride'.status = ride.status
  batch : ride'.currentBatchId = ride.currentBatchId
  drivers : ride'.currentBatchDrivers = ride.currentBatchDrivers
  allows : allowsSearch env ride' (nextRadiusKm env ride') = allowsSearch env ride (nextRadiusKm env ride)

/-- While Redis refuses the searches for a ride, the answers are all that changes; it does not come to refuse them. -/
structure Unsearched (env : Env) (r : RideId) (d : DriverId) (s t : Store) : Prop where
  allowed : allowsSearch env (s.ride r) (nextRadiusKm env (s.ride r)) = true →
    allowsSearch env (t.ride r) (nextRadiusKm env (t.ride r)) = true
  refused : allowsSearch env (s.ride r) (nextRadiusKm env (s.ride r)) = false → SameOffer env (s.ride r) (t.ride r) ∧
    ∀ d', t.rideResponses r d' =
      if d' = d ∧ (s.ride r).status = some .dispatching ∧ ignoresRejection (s.rideResponses r d) = false then some heartbeatTimeout
      else s.rideResponses r d'

theorem finish_response {result : Except AppError RideHash} {notes : List Store}
    (h : Solo env i (fun _ u => u) (handleDriverRejection env r d heartbeatTimeout) s result t notes) :
    (Owed.settle env (.response d r)).finish ((system env).client i) s = (result.map fun _ => (), t) ∧ Near (some r) s t := by
  have hkept := @near_handleDriverRejection env i r d heartbeatTimeout s
  rw [h.finish] at hkept
  refine ⟨?_, hkept⟩
  have hsettle : Owed.settle env (.response d r) =
      (handleDriverRejection env r d heartbeatTimeout).bind fun _ => (.ret () : App Unit) := rfl
  rw [hsettle, Prog.finish_bind, h.finish]
  cases result <;> rfl

theorem SameOffer.refl {ride : RideHash} : SameOffer env ride ride := ⟨rfl, rfl, rfl, rfl⟩

theorem sameOffer_rejectFields {ride : RideHash} : SameOffer env ride (ride.hset (rejectFields ride false now)) := by
  refine ⟨hset_rejectFields.1, hset_rejectFields.2.2, ?_, allows_rejectFields⟩
  simp only [rejectFields, hset_cons, hset_nil, RideHash.setField, Bool.false_eq_true, if_false]

theorem finish_response_of_passes (h : passes r s = true) : ∃ result t,
    (Owed.settle env (.response d r)).finish ((system env).client i) s = (result, t) ∧ Dropped r d s t ∧
      (answerFails env r d s = false → result = .ok () ∧ Unsearched env r d s t) ∧
      (answerFails env r d s = true → ∃ e, result = .error e) := by
  have hfree : s.locks (.ride r) = none := by
    unfold passes at h
    rw [Bool.and_eq_true, Option.isNone_iff_eq_none] at h
    exact h.1
  -- either the rejection is recorded, or it changes nothing that counts here
  by_cases hrecord : (s.ride r).status = some .dispatching ∧ ignoresRejection (s.rideResponses r d) = false
  · obtain ⟨result, u, t, notes, hsolo, -, -, -, -, hresponses, hfollowed⟩ :=
      @alone_rejection_recorded env i r d heartbeatTimeout s hfree hrecord.1 hrecord.2
    obtain ⟨hfinish, hkept⟩ := finish_response hsolo
    have hfails : answerFails env r d s = searchFails env r d s := by
      unfold answerFails
      rw [hrecord.1, hrecord.2]
      rfl
    refine ⟨_, t, hfinish, ⟨hkept, fun hne => absurd hrecord.1 hne, fun _ d' hd' => ?_⟩, fun hfalse => ?_, fun htrue => ?_⟩
    · rw [hresponses d' hd', put_apply]
      simp only [hrecord.2, and_true]
    · rw [hfails] at hfalse
      obtain ⟨ride', rfl⟩ := hfollowed.answered hfalse
      refine ⟨rfl, hfollowed.allowed, fun hrefused => ?_⟩
      obtain ⟨hride, hall⟩ := hfollowed.unsearched hrefused
      -- no search followed, so the batch was not exhausted
      have hwaiting : batchExhausted (s.ride r) d (s.rideResponses r) = false := by
        unfold searchFails at hfalse
        rw [hrefused, Bool.not_false, Bool.and_true] at hfalse
        exact hfalse
      rw [hride, hwaiting]
      refine ⟨sameOffer_rejectFields, fun d' => ?_⟩
      rw [hall, put_apply]
      simp only [hrecord.1, hrecord.2, and_true]
    · rw [hfails] at htrue
      obtain ⟨e, rfl⟩ := hfollowed.failed htrue
      exact ⟨e, rfl⟩
  · have hignored : s.locks (.ride r) ≠ none ∨ (s.ride r).status ≠ some .dispatching ∨
        ignoresRejection (s.rideResponses r d) = true := by
      rcases not_and_or.mp hrecord with hstatus | hresponse
      · exact .inr (.inl hstatus)
      · exact .inr (.inr (Bool.not_eq_false _ ▸ hresponse))
    obtain ⟨t, hsolo, hsame⟩ := @alone_rejection_ignored env i r d heartbeatTimeout s Store (fun _ u => u) hignored
    obtain ⟨hfinish, hkept⟩ := finish_response hsolo
    unfold rejectionAnswer at hfinish
    rw [if_pos h] at hfinish
    refine ⟨_, t, hfinish, ⟨hkept, fun _ => congrFun hsame.ride r, fun hstatus d' _ => ?_⟩, fun _ => ⟨rfl, ?_, fun _ => ?_⟩,
      fun htrue => ?_⟩
    · rw [hsame.responses, if_neg]
      exact fun hboth => hrecord ⟨hstatus, hboth.2⟩
    · rw [hsame.ride]
      exact id
    · rw [hsame.ride, hsame.responses]
      refine ⟨.refl, fun d' => ?_⟩
      rw [if_neg fun hboth => hrecord hboth.2]
    · unfold answerFails at htrue
      rw [Bool.and_eq_true, Bool.and_eq_true, decide_eq_true_eq, Bool.not_eq_true'] at htrue
      exact absurd htrue.1 hrecord

theorem finish_response_of_refused (h : passes r s = false) : ∃ e t,
    (Owed.settle env (.response d r)).finish ((system env).client i) s = (.error e, t) ∧ Near none s t := by
  have hignored : s.locks (.ride r) ≠ none ∨ (s.ride r).status ≠ some .dispatching ∨
      ignoresRejection (s.rideResponses r d) = true := by
    unfold passes at h
    rw [Bool.and_eq_false_iff] at h
    rcases h with hlock | hstatus
    · exact .inl (Option.isNone_eq_false_iff.mp hlock |> Option.isSome_iff_ne_none.mp)
    · right
      left
      intro heq
      rw [heq] at hstatus
      cases hstatus
  obtain ⟨t, hsolo, hsame⟩ := @alone_rejection_ignored env i r d heartbeatTimeout s Store (fun _ u => u) hignored
  obtain ⟨hfinish, hkept⟩ := finish_response hsolo
  unfold rejectionAnswer at hfinish
  rw [if_neg (by rw [h]; exact Bool.false_ne_true)] at hfinish
  refine ⟨_, t, hfinish, { hkept with ride := fun r' _ => ?_, responses := fun r' _ => ?_ }⟩
  · rw [hsame.ride]
  · rw [hsame.responses]

/-- The driver still has the ride ONGOING. -/
abbrev Protected (s : Store) (d : DriverId) (r : RideId) : Prop :=
  (s.ride r).status = some .ongoing ∧ (s.ride r).driverId = some d

/-- The message that tells the customer. -/
def lostMessage (s : Store) (d : DriverId) (r : RideId) : Message :=
  ⟨.customer (s.ride r).customerId, .driverConnectionLost r d s.clock⟩

/-- The store after the message, if it was not sent before. -/
def noticed (s : Store) (d : DriverId) (r : RideId) : Store :=
  if Protected s d r ∧ s.idempotency (.driverConnectionLost r d s.clock) = false then
    { s with
      idempotency := put s.idempotency (.driverConnectionLost r d s.clock) true
      published := s.published ++ [lostMessage s d r] }
  else s

theorem noticed_of_not_protected (h : ¬ Protected s d r) : noticed s d r = s := if_neg fun hboth => h hboth.1

theorem alone_notice {γ : Type} {note : ℚ → Store → γ} :
    Solo env i note (Owed.settle env (.notice d r)) s (.ok ()) (noticed s d r) [] := by
  show Solo env i note ((getRide r).bind _) s _ _ _
  apply alone_readRide
  by_cases hprotected : Protected s d r
  · have hsnapshot : toRideSnapshot (s.ride r) = some (s.ride r) := if_neg (by rw [hprotected.1]; exact Option.some_ne_none _)
    rw [hsnapshot]
    dsimp only
    rw [if_pos hprotected]
    show Solo env i note (Prog.cmd .now fun now => (emitDriverConnectionLost (s.ride r).customerId r d now)) s _ _ _
    apply Prog.Ends.cmd
    unfold noticed
    cases hmark : s.idempotency (.driverConnectionLost r d s.clock) with
    | true =>
      rw [if_neg fun hboth => by cases hboth.2]
      have hset : exec env i (.setIdempotent (.driverConnectionLost r d s.clock)) s = (false, s) := by
        simp only [exec, hmark, if_true]
      exact .cmd_of_eq hset .ret
    | false =>
      rw [if_pos ⟨hprotected, rfl⟩]
      have hset : exec env i (.setIdempotent (.driverConnectionLost r d s.clock)) s =
          (true, { s with idempotency := put s.idempotency (.driverConnectionLost r d s.clock) true }) := by
        simp only [exec, hmark, Bool.false_eq_true, if_false]
      exact .cmd_of_eq hset (.cmd .ret)
  · rw [noticed_of_not_protected hprotected]
    unfold toRideSnapshot
    split_ifs with hstatus
    · exact .ret
    · dsimp only
      rw [if_neg hprotected]
      exact .ret

/-- The message of a notice that is done, sent unless its key was marked before. -/
def Told (s : Store) (done : List Owed) (m : Message) : Prop :=
  ∃ d r, .notice d r ∈ done ∧ Protected s d r ∧ s.idempotency (.driverConnectionLost r d s.clock) = false ∧
    m = lostMessage s d r

def Marked (s : Store) (done : List Owed) (key : PublishKey) : Prop :=
  ∃ d r, .notice d r ∈ done ∧ Protected s d r ∧ key = .driverConnectionLost r d s.clock

/-- The scan that started in `s` has done `done` by now, and nothing else that is owed. -/
structure Dropping (s : Store) (done : List Owed) (t : Store) : Prop where
  heartbeat : ∀ d, s.driverHeartbeat d = none → t.driverHeartbeat d = none
  locks : ∀ key : LockKey, key.mutex → t.locks key = s.locks key
  clock : t.clock = s.clock
  exist : ∀ r, (s.ride r).status ≠ none → (t.ride r).status ≠ none
  ongoing : ∀ r, (t.ride r).status = some .ongoing → (s.ride r).status = some .ongoing
  spared : ∀ r, (s.ride r).status ≠ some .dispatching → t.ride r = s.ride r
  responses : ∀ d r, s.driverHeartbeat d = none → (t.ride r).status = some .dispatching → t.rideResponses r d =
    if .response d r ∈ done ∧ ignoresRejection (s.rideResponses r d) = false then some heartbeatTimeout
    else s.rideResponses r d
  published : ∀ m : Message, m.key.lost = true → (m ∈ t.published ↔ m ∈ s.published ∨ Told s done m)
  marks : ∀ key : PublishKey, key.lost = true →
    (t.idempotency key = true ↔ s.idempotency key = true ∨ Marked s done key)

variable {done : List Owed}

theorem Collected.dropping (h : Collected s t) : Dropping s [] t where
  heartbeat := fun d hd => by rw [h.heartbeat]; exact hd
  locks := h.near.locks
  clock := h.near.clock
  exist := h.near.exist
  ongoing := h.near.ongoing
  spared := fun r _ => h.near.ride r (Option.some_ne_none r).symm
  responses := fun d r _ _ => by
    rw [h.near.responses r (Option.some_ne_none r).symm, if_neg]
    exact fun hboth => by cases hboth.1
  published := fun m hm => by
    rw [h.near.published m hm, or_iff_left]
    rintro ⟨d, r, hmem, -⟩
    cases hmem
  marks := fun key hkey => by
    rw [h.near.marks key hkey, or_iff_left]
    rintro ⟨d, r, hmem, -⟩
    cases hmem

theorem Dropping.passes (h : Dropping s done t) : YatriGo.passes r t = YatriGo.passes r s := by
  unfold YatriGo.passes
  rw [h.locks (.ride r) trivial]
  by_cases hstatus : (s.ride r).status = none
  · have hsame : t.ride r = s.ride r := by
      apply h.spared
      rw [hstatus]
      exact (Option.some_ne_none _).symm
    rw [hsame]
  · have hnow := h.exist r hstatus
    rw [Option.isSome_iff_ne_none.mpr hstatus, Option.isSome_iff_ne_none.mpr hnow]

theorem Dropping.protected_iff (h : Dropping s done t) : Protected t d r ↔ Protected s d r := by
  have hsame : (s.ride r).status = some .ongoing → t.ride r = s.ride r := by
    intro hstatus
    apply h.spared
    rw [hstatus]
    exact fun heq => by cases heq
  constructor
  · rintro ⟨hstatus, hdriver⟩
    have hbefore := h.ongoing r hstatus
    rw [hsame hbefore] at hdriver
    exact ⟨hbefore, hdriver⟩
  · rintro ⟨hstatus, hdriver⟩
    unfold Protected
    rw [hsame hstatus]
    exact ⟨hstatus, hdriver⟩

theorem told_response {m : Message} : Told s (done ++ [.response d r]) m ↔ Told s done m := by
  simp only [Told, List.mem_append, List.mem_singleton, reduceCtorEq, or_false]

theorem marked_response {key : PublishKey} : Marked s (done ++ [.response d r]) key ↔ Marked s done key := by
  simp only [Marked, List.mem_append, List.mem_singleton, reduceCtorEq, or_false]

/-- The responses after one more of them was recorded. -/
theorem Dropping.response_responses (h : Dropping s done t) (hdropped : Dropped r d t u) {r' : RideId}
    (hd' : s.driverHeartbeat d' = none) (hstatus : (u.ride r').status = some .dispatching) : u.rideResponses r' d' =
    if .response d' r' ∈ done ++ [.response d r] ∧ ignoresRejection (s.rideResponses r' d') = false then some heartbeatTimeout
    else s.rideResponses r' d' := by
  have hother : (d' ≠ d ∨ r' ≠ r) → (.response d' r' ∈ done ++ [.response d r] ↔ (.response d' r' : Owed) ∈ done) := by
    intro hne
    rw [List.mem_append, List.mem_singleton, or_iff_left]
    rintro ⟨⟩
    exact hne.elim (fun hne => hne rfl) fun hne => hne rfl
  rcases eq_or_ne r' r with rfl | hne
  · have hbefore : (t.ride r').status = some .dispatching := by
      by_contra hover
      rw [hdropped.spared hover] at hstatus
      exact hover hstatus
    have hrecorded := hdropped.responses hbefore d' (h.heartbeat d' hd')
    have hearlier := h.responses d' r' hd' hbefore
    rcases eq_or_ne d' d with rfl | hne
    · have hlast : (.response d' r' : Owed) ∈ done ++ [.response d' r'] := List.mem_append_right _ (List.mem_singleton_self _)
      simp only [true_and] at hrecorded
      simp only [hlast, true_and]
      rw [hrecorded]
      by_cases hdone : .response d' r' ∈ done ∧ ignoresRejection (s.rideResponses r' d') = false
      · -- recorded a second time
        rw [if_pos hdone] at hearlier
        rw [hearlier, if_pos hdone.2, ite_self]
      · rw [if_neg hdone] at hearlier
        rw [hearlier]
    · rw [if_neg fun hboth => hne hboth.1] at hrecorded
      rw [hrecorded, hearlier]
      simp only [hother (.inl hne)]
  · have hride : r ≠ r' := hne.symm
    rw [hdropped.near.ride r' fun heq => hride (Option.some.inj heq)] at hstatus
    rw [hdropped.near.responses r' fun heq => hride (Option.some.inj heq), h.responses d' r' hd' hstatus]
    simp only [hother (.inr hne)]

theorem Dropping.response (h : Dropping s done t) (hdropped : Dropped r d t u) : Dropping s (done ++ [.response d r]) u where
  heartbeat := fun d' hd' => hdropped.near.heartbeat d' (h.heartbeat d' hd')
  locks := fun key hkey => (hdropped.near.locks key hkey).trans (h.locks key hkey)
  clock := hdropped.near.clock.trans h.clock
  exist := fun r' hr' => hdropped.near.exist r' (h.exist r' hr')
  ongoing := fun r' hr' => h.ongoing r' (hdropped.near.ongoing r' hr')
  spared := fun r' hr' => by
    have hsame := h.spared r' hr'
    rcases eq_or_ne r' r with rfl | hne
    · rw [← hsame] at hr'
      exact (hdropped.spared hr').trans hsame
    · exact (hdropped.near.ride r' fun heq => hne (Option.some.inj heq).symm).trans hsame
  responses := fun d' r' hd' hstatus => h.response_responses hdropped hd' hstatus
  published := fun m hm => by rw [hdropped.near.published m hm, h.published m hm, told_response]
  marks := fun key hkey => by rw [hdropped.near.marks key hkey, h.marks key hkey, marked_response]

theorem Dropping.stop (h : Dropping s done t) (hkept : Near none t u) : Dropping s done u where
  heartbeat := fun d' hd' => hkept.heartbeat d' (h.heartbeat d' hd')
  locks := fun key hkey => (hkept.locks key hkey).trans (h.locks key hkey)
  clock := hkept.clock.trans h.clock
  exist := fun r' hr' => hkept.exist r' (h.exist r' hr')
  ongoing := fun r' hr' => h.ongoing r' (hkept.ongoing r' hr')
  spared := fun r' hr' => (hkept.ride r' (Option.some_ne_none r').symm).trans (h.spared r' hr')
  responses := fun d' r' hd' hstatus => by
    rw [hkept.ride r' (Option.some_ne_none r').symm] at hstatus
    rw [hkept.responses r' (Option.some_ne_none r').symm]
    exact h.responses d' r' hd' hstatus
  published := fun m hm => by rw [hkept.published m hm, h.published m hm]
  marks := fun key hkey => by rw [hkept.marks key hkey, h.marks key hkey]

theorem exists_notice {P : DriverId → RideId → Prop} : (∃ d' r', .notice d' r' ∈ done ++ [Owed.notice d r] ∧ P d' r') ↔
    (∃ d' r', .notice d' r' ∈ done ∧ P d' r') ∨ P d r := by
  constructor
  · rintro ⟨d', r', hmem, hrest⟩
    rcases List.mem_append.mp hmem with hmem | hmem
    · exact .inl ⟨d', r', hmem, hrest⟩
    · obtain ⟨rfl, rfl⟩ := Owed.notice.inj (List.mem_singleton.mp hmem)
      exact .inr hrest
  · rintro (⟨d', r', hmem, hrest⟩ | hrest)
    · exact ⟨d', r', List.mem_append_left _ hmem, hrest⟩
    · exact ⟨d, r, List.mem_append_right _ (List.mem_singleton_self _), hrest⟩

theorem told_notice {m : Message} : Told s (done ++ [.notice d r]) m ↔ Told s done m ∨ (Protected s d r ∧
    s.idempotency (.driverConnectionLost r d s.clock) = false ∧ m = lostMessage s d r) :=
  exists_notice

theorem marked_notice {key : PublishKey} : Marked s (done ++ [.notice d r]) key ↔ Marked s done key ∨
    (Protected s d r ∧ key = .driverConnectionLost r d s.clock) :=
  exists_notice

theorem response_mem_notice {r' : RideId} :
    (.response d' r' : Owed) ∈ done ++ [.notice d r] ↔ .response d' r' ∈ done := by
  rw [List.mem_append, List.mem_singleton, or_iff_left]
  exact fun heq => by cases heq

theorem Dropping.lostMessage_eq (h : Dropping s done t) (hprotected : Protected s d r) : lostMessage t d r = lostMessage s d r := by
  have hsame : t.ride r = s.ride r := by
    apply h.spared
    rw [hprotected.1]
    exact fun heq => by cases heq
  unfold lostMessage
  rw [hsame, h.clock]

/-- The customer is told, or was told before. -/
theorem Dropping.notice (h : Dropping s done t) : Dropping s (done ++ [.notice d r]) (noticed t d r) := by
  have hmarks := h.marks (.driverConnectionLost r d s.clock) rfl
  by_cases hsend : Protected t d r ∧ t.idempotency (.driverConnectionLost r d t.clock) = false
  · rw [noticed, if_pos hsend]
    obtain ⟨hprotected, hmark⟩ := hsend
    rw [h.protected_iff] at hprotected
    rw [h.clock] at hmark
    have hunmarked : s.idempotency (.driverConnectionLost r d s.clock) = false := by
      by_contra hmarked
      rw [Bool.not_eq_false] at hmarked
      rw [hmarks.mpr (.inl hmarked)] at hmark
      cases hmark
    refine { h with responses := fun d' r' hd' hstatus => ?_, published := fun m hm => ?_, marks := fun key hk => ?_ }
    · simp only [response_mem_notice]
      exact h.responses d' r' hd' hstatus
    · show m ∈ t.published ++ [lostMessage t d r] ↔ _
      rw [List.mem_append, List.mem_singleton, h.published m hm, told_notice, h.lostMessage_eq hprotected, or_assoc,
        and_iff_right hprotected, and_iff_right hunmarked]
    · show put t.idempotency (.driverConnectionLost r d t.clock) true key = true ↔ _
      rw [marked_notice, put_apply, ← or_assoc, ← h.marks key hk, h.clock]
      split_ifs with heq
      · exact iff_of_true rfl (.inr ⟨hprotected, heq⟩)
      · rw [or_iff_left fun hboth => heq hboth.2]
  · -- the key was marked, and if the scan did it, it has told the customer
    rw [noticed, if_neg hsend]
    rw [h.protected_iff, h.clock] at hsend
    -- whoever marked the key has published: before the scan, or an earlier notice of it
    have hearlier : Protected s d r → s.idempotency (.driverConnectionLost r d s.clock) = true ∨ .notice d r ∈ done := by
      intro hprotected
      have hmark : t.idempotency (.driverConnectionLost r d s.clock) = true := by
        rw [← Bool.not_eq_false]
        exact fun hunmarked => hsend ⟨hprotected, hunmarked⟩
      rcases hmarks.mp hmark with hmarked | ⟨d', r', hmem, -, heq⟩
      · exact .inl hmarked
      · obtain ⟨rfl, rfl, -⟩ := PublishKey.driverConnectionLost.inj heq
        exact .inr hmem
    refine { h with responses := fun d' r' hd' hstatus => ?_, published := fun m hm => ?_, marks := fun key hk => ?_ }
    · simp only [response_mem_notice]
      exact h.responses d' r' hd' hstatus
    · rw [h.published m hm, told_notice]
      refine or_congr_right (or_iff_left_of_imp ?_).symm
      rintro ⟨hprotected, hunmarked, hmessage⟩
      rcases hearlier hprotected with hmarked | hmem
      · rw [hunmarked] at hmarked
        cases hmarked
      · exact ⟨d, r, hmem, hprotected, hunmarked, hmessage⟩
    · rw [h.marks key hk, marked_notice, ← or_assoc, iff_comm]
      apply or_iff_left_of_imp
      rintro ⟨hprotected, rfl⟩
      rcases hearlier hprotected with hmarked | hmem
      · exact .inl hmarked
      · exact .inr ⟨d, r, hmem, hprotected, rfl⟩

/-- The answer to the ride is the last one that its batch waited for, after those that are done. -/
def lastAnswer (s : Store) (done : List Owed) (d : DriverId) (r : RideId) : Bool :=
  (s.ride r).currentBatchDrivers.all fun d' =>
    d' = d || decide (.response d' r ∈ done) || !isPendingResponse (s.rideResponses r d') (s.ride r).currentBatchId

/-- The scan ends with it: the ride is dispatched again, and Redis refuses the search. -/
def breaksOff (env : Env) (s : Store) (done : List Owed) : Owed → Bool
  | .response d r => decide ((s.ride r).status = some .dispatching) && !ignoresRejection (s.rideResponses r d) &&
      (lastAnswer s done d r && !allowsSearch env (s.ride r) (nextRadiusKm env (s.ride r)))
  | .notice .. => false

/-- The scan has not been broken off: the rides that Redis refuses searches for are as they were, but for the answers. -/
structure Steady (env : Env) (s : Store) (done : List Owed) (t : Store) : Prop where
  dropping : Dropping s done t
  allowed : ∀ r, allowsSearch env (s.ride r) (nextRadiusKm env (s.ride r)) = true →
    allowsSearch env (t.ride r) (nextRadiusKm env (t.ride r)) = true
  refused : ∀ r, allowsSearch env (s.ride r) (nextRadiusKm env (s.ride r)) = false → SameOffer env (s.ride r) (t.ride r) ∧
    ∀ d, t.rideResponses r d = if .response d r ∈ done ∧ (s.ride r).status = some .dispatching ∧
      ignoresRejection (s.rideResponses r d) = false then some heartbeatTimeout else s.rideResponses r d

theorem SameOffer.trans {ride₁ ride₂ ride₃ : RideHash} (h : SameOffer env ride₁ ride₂) (h' : SameOffer env ride₂ ride₃) :
    SameOffer env ride₁ ride₃ :=
  ⟨h'.status.trans h.status, h'.batch.trans h.batch, h'.drivers.trans h.drivers, h'.allows.trans h.allows⟩

theorem isPending_heartbeatTimeout {b : Option BatchId} : isPendingResponse (some heartbeatTimeout) b = false := by
  cases b with
  | none => decide
  | some b => rfl

theorem ignores_of_pending {response : Option Response} {b : Option BatchId} (h : isPendingResponse response b = true) :
    ignoresRejection response = false := by
  cases b with
  | none =>
    obtain rfl : response = some (.text "PENDING:null") := of_decide_eq_true h
    decide
  | some b =>
    obtain rfl : response = some (.pending b) := of_decide_eq_true h
    exact ignoresRejection_pending

/-- Whether the next answer fails can be told from the store that the scan started in. -/
theorem Steady.answerFails (h : Steady env s done t) :
    YatriGo.answerFails env r d t = breaksOff env s done (.response d r) := by
  show _ = (decide ((s.ride r).status = some .dispatching) && !ignoresRejection (s.rideResponses r d) &&
    (lastAnswer s done d r && !allowsSearch env (s.ride r) (nextRadiusKm env (s.ride r))))
  unfold YatriGo.answerFails searchFails
  cases hallows : allowsSearch env (s.ride r) (nextRadiusKm env (s.ride r)) with
  | true =>
    rw [h.allowed r hallows]
    rw [Bool.not_true, Bool.and_false, Bool.and_false, Bool.and_false, Bool.and_false]
  | false =>
    obtain ⟨hsame, hresponses⟩ := h.refused r hallows
    rw [hsame.allows, hallows, hsame.status]
    by_cases hstatus : (s.ride r).status = some .dispatching
    · have hignores : ignoresRejection (t.rideResponses r d) = ignoresRejection (s.rideResponses r d) := by
        rw [hresponses]
        split_ifs with hdone
        · rw [hdone.2.2]
          decide
        · rfl
      have hpending : ∀ d', isPendingResponse (t.rideResponses r d') (s.ride r).currentBatchId =
          (!decide (.response d' r ∈ done) && isPendingResponse (s.rideResponses r d') (s.ride r).currentBatchId) := by
        intro d'
        rw [hresponses]
        by_cases hdone : (.response d' r : Owed) ∈ done
        · simp only [hdone, true_and, decide_true, Bool.not_true, Bool.false_and]
          split_ifs with hheeded
          · exact isPending_heartbeatTimeout
          · by_contra hpending
            exact hheeded ⟨hstatus, ignores_of_pending (Bool.not_eq_false _ ▸ hpending)⟩
        · simp only [hdone, false_and, if_false, decide_false, Bool.not_false, Bool.true_and]
      have hlast : batchExhausted (t.ride r) d (t.rideResponses r) = lastAnswer s done d r := by
        unfold batchExhausted lastAnswer
        rw [hsame.drivers, hsame.batch]
        simp only [hpending, Bool.not_and, Bool.not_not, Bool.or_assoc]
      rw [hignores, hlast]
    · simp only [hstatus, decide_false, Bool.false_and]

/-- The store that the scan leaves. -/
def scannedStore (env : Env) (i : ℕ) (s : Store) : Store := (system env).after i (scanStaleDriversAndRecover env) s

/-- The drivers that the scan sets OFFLINE. -/
def takenOffline (env : Env) (i : ℕ) (s : Store) : List DriverId :=
  (scanStaleDriversAndRecover env).visits ((system env).client i) Cmd.offlines s

/-- The drivers that the scan finds online and without a heartbeat. -/
def staleDrivers (s : Store) : List DriverId := staleOnes s (s.driverSet .online)

/-- What is owed to the rides of a driver that was set OFFLINE: an answer to each ride that is still
DISPATCHING and was not locked, and a notice if the active ride is ONGOING. -/
def Owes (env : Env) (i : ℕ) (s : Store) : Owed → Prop
  | .response d r => d ∈ takenOffline env i s ∧ r ∈ s.driverPendingDispatches d ∧
    ((scannedStore env i s).ride r).status = some .dispatching ∧ s.locks (.ride r) = none
  | .notice d r => d ∈ takenOffline env i s ∧ activeRide d s = some r ∧ (s.ride r).status = some .ongoing

/-- It is recorded, or was sent, in `t`; the message has the time and the customer of `s`. -/
def SettledIn (s t : Store) : Owed → Prop
  | .response d r => t.rideResponses r d = some heartbeatTimeout
  | .notice d r => lostMessage s d r ∈ t.published

/-- The scan finishes what it starts. -/
def ScanFinishes (env : Env) (i : ℕ) (s : Store) : Prop :=
  ∀ o, Owes env i s o → SettledIn s (scannedStore env i s) o

/-- Whether the scan goes on after it: a ride must be there, and its lock free. -/
def goesOn (s : Store) : Owed → Bool
  | .response _ r => passes r s
  | .notice .. => true

/-- What the scan comes to: nothing if the lock of a stale driver is held, and else what is before the first ride that is
locked or gone, up to the first answer with which it is broken off. -/
def reached (env : Env) (s : Store) : List Owed :=
  if (staleDrivers s).all (driverFree s) then
    Prog.loopDone (goesOn s) (breaksOff env s) [] ((staleDrivers s).flatMap (owedTo s))
  else []

/-- The scan heeds it: there is a response to replace, or a driver's ride to tell about for the first time. -/
def Heedable (s : Store) : Owed → Prop
  | .response d r => ignoresRejection (s.rideResponses r d) = false
  | .notice d r => (s.ride r).driverId = some d ∧ s.idempotency (.driverConnectionLost r d s.clock) = false

theorem Steady.start (h : Collected s t) : Steady env s [] t where
  dropping := h.dropping
  allowed := fun r hallows => by
    rw [h.near.ride r (Option.some_ne_none r).symm]
    exact hallows
  refused := fun r _ => by
    rw [h.near.ride r (Option.some_ne_none r).symm, h.near.responses r (Option.some_ne_none r).symm]
    refine ⟨.refl, fun d => ?_⟩
    rw [if_neg]
    exact fun hboth => by cases hboth.1

/-- One more answer after which the scan goes on. -/
theorem Steady.response (h : Steady env s done t) (hdropped : Dropped r d t u) (hunsearched : Unsearched env r d t u) :
    Steady env s (done ++ [.response d r]) u := by
  have hother : ∀ {d' r'}, (d' ≠ d ∨ r' ≠ r) → ((.response d' r' : Owed) ∈ done ++ [.response d r] ↔ .response d' r' ∈ done) := by
    intro d' r' hne
    rw [List.mem_append, List.mem_singleton, or_iff_left]
    rintro ⟨⟩
    exact hne.elim (fun hne => hne rfl) fun hne => hne rfl
  refine ⟨h.dropping.response hdropped, fun r' hallows => ?_, fun r' hrefused => ?_⟩
  · rcases eq_or_ne r' r with rfl | hne
    · exact hunsearched.allowed (h.allowed r' hallows)
    · rw [hdropped.near.ride r' fun heq => hne (Option.some.inj heq).symm]
      exact h.allowed r' hallows
  · obtain ⟨hsame, hresponses⟩ := h.refused r' hrefused
    rcases eq_or_ne r' r with rfl | hne
    · rw [← hsame.allows] at hrefused
      obtain ⟨hsame', hresponses'⟩ := hunsearched.refused hrefused
      refine ⟨hsame.trans hsame', fun d' => ?_⟩
      rw [hresponses', hsame.status]
      rcases eq_or_ne d' d with rfl | hne
      · have hlast : (.response d' r' : Owed) ∈ done ++ [.response d' r'] := List.mem_append_right _ (List.mem_singleton_self _)
        rw [hresponses]
        simp only [hlast, true_and]
        by_cases hdone : .response d' r' ∈ done ∧ (s.ride r').status = some .dispatching ∧
            ignoresRejection (s.rideResponses r' d') = false
        · -- recorded a second time
          rw [if_pos hdone, if_pos hdone.2, ite_self]
        · rw [if_neg hdone]
      · rw [if_neg fun hboth => hne hboth.1, hresponses]
        simp only [hother (.inl hne)]
    · have hride : some r ≠ some r' := fun heq => hne (Option.some.inj heq).symm
      rw [hdropped.near.ride r' hride, hdropped.near.responses r' hride]
      refine ⟨hsame, fun d' => ?_⟩
      rw [hresponses]
      simp only [hother (.inr hne)]

theorem Steady.notice (h : Steady env s done t) : Steady env s (done ++ [.notice d r]) (noticed t d r) := by
  have hkept : (noticed t d r).ride = t.ride ∧ (noticed t d r).rideResponses = t.rideResponses := by
    unfold noticed
    split_ifs <;> exact ⟨rfl, rfl⟩
  refine ⟨h.dropping.notice, fun r' hallows => ?_, fun r' hrefused => ?_⟩
  · rw [hkept.1]
    exact h.allowed r' hallows
  · rw [hkept.1, hkept.2]
    simp only [response_mem_notice]
    exact h.refused r' hrefused

theorem Steady.settle (h : Steady env s done t) (hgo : goesOn s o = true) (hbreaks : breaksOff env s done o = false) :
    ∃ u, (Owed.settle env o).finish ((system env).client i) t = (.ok (), u) ∧ Steady env s (done ++ [o]) u := by
  cases o with
  | response d r =>
    have hpasses : YatriGo.passes r t = true := h.dropping.passes.trans hgo
    obtain ⟨result, u, hfinish, hdropped, hanswered, -⟩ := @finish_response_of_passes env i r d t hpasses
    obtain ⟨rfl, hunsearched⟩ := hanswered (h.answerFails.trans hbreaks)
    exact ⟨u, hfinish, h.response hdropped hunsearched⟩
  | notice d r =>
    have hsolo : Solo env i (fun _ _ => ()) (Owed.settle env (.notice d r)) t (.ok ()) (noticed t d r) [] := alone_notice
    exact ⟨_, hsolo.finish, h.notice⟩

theorem Steady.breakOff (h : Steady env s done t) (hgo : goesOn s o = true) (hbreaks : breaksOff env s done o = true) :
    ∃ e u, (Owed.settle env o).finish ((system env).client i) t = (.error e, u) ∧ Dropping s (done ++ [o]) u := by
  cases o with
  | response d r =>
    have hpasses : YatriGo.passes r t = true := h.dropping.passes.trans hgo
    obtain ⟨result, u, hfinish, hdropped, -, hfailed⟩ := @finish_response_of_passes env i r d t hpasses
    obtain ⟨e, rfl⟩ := hfailed (h.answerFails.trans hbreaks)
    exact ⟨e, u, hfinish, h.dropping.response hdropped⟩
  | notice d r => cases hbreaks

theorem Dropping.refuse (h : Dropping s done t) (hgo : goesOn s o = false) :
    ∃ e u, (Owed.settle env o).finish ((system env).client i) t = (.error e, u) ∧ Dropping s done u := by
  cases o with
  | response d r =>
    have hpasses : YatriGo.passes r t = false := h.passes.trans hgo
    obtain ⟨e, u, hfinish, hkept⟩ := @finish_response_of_refused env i r d t hpasses
    exact ⟨e, u, hfinish, h.stop hkept⟩
  | notice d r => cases hgo

/-- The run of the scan: the drivers it takes offline, and what it does for them. -/
theorem dropping_scannedStore : Dropping s (reached env s) (scannedStore env i s) ∧
    ∀ d ∈ takenOffline env i s, s.driverHeartbeat d = none := by
  obtain ⟨result, t, ht, hcollected, hall, hstopped⟩ := @ends_scanStaleDriversLoop env i (s.driverSet .online) s
  have hscan : (scanStaleDrivers env).Ends ((system env).client i) Cmd.offlines s result t
      ((staleDrivers s).takeWhile (driverFree s)) := .cmd_unseen rfl rfl ht
  have hstale : ∀ d ∈ (staleDrivers s).takeWhile (driverFree s), s.driverHeartbeat d = none := by
    intro d hd
    have hkept := (List.mem_filter.mp ((List.takeWhile_sublist _).subset hd)).2
    exact Option.isNone_iff_eq_none.mp hkept
  unfold scannedStore takenOffline System.after reached
  rw [scanStaleDriversAndRecover_eq]
  cases hfree : (staleDrivers s).all (driverFree s) with
  | false =>
    -- the lock of a stale driver is held, and no ride is looked at
    obtain rfl := hstopped hfree
    have hends : ((scanStaleDrivers env).bind fun impacts => .forEach (Owed.settle env) (impacts.flatMap fun impact =>
        owed impact.driverId impact.activeRideId impact.pendingRideIds)).Ends ((system env).client i) Cmd.offlines s
        (.error driverLocked) t ((staleDrivers s).takeWhile (driverFree s)) := hscan.bind_error
    rw [hends.finish, hends.visits, if_neg Bool.false_ne_true]
    exact ⟨hcollected.dropping, hstale⟩
  | true =>
    obtain ⟨impacts, rfl, howed⟩ := hall hfree
    have hloop := @Prog.finish_forEach_loopDone Cmd AppError Store Owed ((system env).client i) (Owed.settle env) (goesOn s)
      (breaksOff env s) (Steady env s) (Dropping s) (fun done u hu => hu.dropping)
      (fun done o u hu hgo hbreaks => hu.settle hgo hbreaks) (fun done o u hu hgo hbreaks => hu.breakOff hgo hbreaks)
      (fun done o u hu hgo => hu.dropping.refuse hgo) ((staleDrivers s).flatMap (owedTo s)) [] t (.start hcollected)
    rw [Prog.finish_bind, Prog.visits_bind, hscan.finish, hscan.visits, Prog.resume_ok, howed, if_pos rfl]
    refine ⟨hloop, fun d hd => ?_⟩
    rcases List.mem_append.mp hd with hd | hd
    · exact hstale d hd
    · -- what is done for the rides takes no driver offline
      have hloop : (Prog.forEach (Owed.settle env) (impacts.flatMap fun impact =>
          owed impact.driverId impact.activeRideId impact.pendingRideIds)).Uses (Cmd.elsewhere d) :=
        .forEach fun o _ => elsewhere_settle
      exact absurd hd (hloop.not_visited (fun _ c u hc => not_offlines_of_elsewhere hc) t)

/-- What is owed is done exactly if the scan comes to it and heeds it, or if it was done before. -/
theorem settled_iff (howes : Owes env i s o) :
    SettledIn s (scannedStore env i s) o ↔ (o ∈ reached env s ∧ Heedable s o) ∨ SettledIn s s o := by
  obtain ⟨hdropping, hstale⟩ := @dropping_scannedStore env i s
  cases o with
  | response d r =>
    obtain ⟨hd, -, hstatus, -⟩ := howes
    have hresponse := hdropping.responses d r (hstale d hd) hstatus
    show _ = _ ↔ (_ ∧ ignoresRejection (s.rideResponses r d) = false) ∨ _ = _
    rw [hresponse]
    split_ifs with hdone
    · exact iff_of_true rfl (.inl hdone)
    · rw [or_iff_right hdone]
  | notice d r =>
    obtain ⟨-, -, hongoing⟩ := howes
    have hpublished := hdropping.published (lostMessage s d r) rfl
    show _ ∈ _ ↔ (_ ∧ (s.ride r).driverId = some d ∧ s.idempotency (.driverConnectionLost r d s.clock) = false) ∨ _ ∈ _
    rw [hpublished, or_comm]
    apply or_congr_left
    constructor
    · rintro ⟨d', r', hmem, hprotected, hunmarked, hmessage⟩
      obtain ⟨rfl, rfl, -⟩ := PublishKey.driverConnectionLost.inj (congrArg Message.key hmessage)
      exact ⟨hmem, hprotected.2, hunmarked⟩
    · rintro ⟨hmem, hdriver, hunmarked⟩
      exact ⟨d, r, hmem, ⟨hongoing, hdriver⟩, hunmarked, rfl⟩

/-- The scan finishes exactly when it comes to all that is owed, and heeds it. -/
theorem scan_finishes_iff : ScanFinishes env i s ↔
    ∀ o, Owes env i s o → (o ∈ reached env s ∧ Heedable s o) ∨ SettledIn s s o := by
  constructor
  · exact fun h o howes => (settled_iff howes).mp (h o howes)
  · exact fun h o howes => (settled_iff howes).mpr (h o howes)

/-- Drivers 1 and 2 lose their connection while the ride is offered to driver 1. Driver 2 has just come back, and its
lock is held. -/
def halfGone : List Step :=
  offered ++ .call (.goOnline 2 (some 0) (some 0) none) :: run 3 11 ++
    [.env (.tick 15000), .env (.expireHeartbeat 1), .env (.expireHeartbeat 2)] ++
  .call (.goOnline 2 (some 0) (some 0) none) :: run 4 2

/-- The scan takes driver 1 offline, stops at the lock of driver 2, and leaves the offer to driver 1 open. -/
theorem scan_leaves_offer : ∃ p, (system townEnv).Run (fun _ _ => True) initial halfGone p ∧
    ¬ ScanFinishes townEnv 5 p.store := by
  obtain ⟨p, hrun, hp⟩ := @town_run (fun _ _ => True) (fun _ _ _ => trivial) halfGone
    (fun p => (1 ∈ takenOffline townEnv 5 p.store ∧ ⟨1, 2⟩ ∈ p.store.driverPendingDispatches 1 ∧
      ((scannedStore townEnv 5 p.store).ride ⟨1, 2⟩).status = some .dispatching ∧ p.store.locks (.ride ⟨1, 2⟩) = none) ∧
      (scannedStore townEnv 5 p.store).rideResponses ⟨1, 2⟩ 1 ≠ some heartbeatTimeout) (by decide +kernel)
  obtain ⟨howes, hopen⟩ := of_decide_eq_true hp
  refine ⟨p, hrun, fun hfinishes => hopen ?_⟩
  exact hfinishes (.response 1 ⟨1, 2⟩) howes

end YatriGo
