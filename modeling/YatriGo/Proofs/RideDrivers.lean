import YatriGo.Proofs.BackedMessages
import YatriGo.Proofs.Parties
import YatriGo.Proofs.StuckDrivers

/-! A ride keeps its driver: the script gives a driver to rides that have none, and only a requeue takes one away. -/

namespace YatriGo
open Concurrent

/-- The command takes the driver off no ride. -/
def Cmd.keepsDriver : ⦃β : Type⦄ → Cmd β → Prop
  | _, .multi ws => ∀ w ∈ ws, w.keepsDriver
  | _, _ => True

abbrev KeepsDrivers {α : Type} (p : App α) : Prop := p.Uses Cmd.keepsDriver

/-- No lock of a ride expires while it is held, and no ride is requeued. -/
def RidesServed (p : State) (a : Step) : Prop := RideLocksKept p a ∧ serving a = true

/-- At some moment the driver was the driver of the ride. -/
def Drove (past : Set Store) (d : DriverId) (r : RideId) : Prop := ∃ ride, Saw past r ride ∧ ride.driverId = some d

variable {env : Env} {r : RideId} {d : DriverId} {ride : RideHash} {now : Time} {α : Type} {p : App α}

theorem Drove.mono {past past' : Set Store} (h : Drove past d r) (hle : past ⊆ past') : Drove past' d r := by
  obtain ⟨ride, hride, hdriver⟩ := h
  exact ⟨ride, hride.mono hle, hdriver⟩

section programs

theorem Dispatching.keepsDrivers (h : Dispatching p) : KeepsDrivers p := by
  refine h.mono fun β c hc => ?_
  cases c with
  | multi ws =>
    intro w hw
    have hof : w.ofDispatch := hc w hw
    cases w with
    | hsetRide r fields =>
      refine List.all_eq_true.mpr fun f hf => ?_
      have hfield : f.ofDispatch = true := List.all_eq_true.mp hof f hf
      cases f <;> first | rfl | exact hfield
    | _ => trivial
  | _ => trivial

theorem Slight.keepsDrivers (h : Slight p) : KeepsDrivers p := h.calm.dispatching.keepsDrivers

theorem Background.keepsDrivers (h : Background env p) : KeepsDrivers p := h.calm.dispatching.keepsDrivers

theorem keepsDrivers_loose (h : p.Uses Cmd.loose) : KeepsDrivers p := by
  refine h.mono fun β c hc => ?_
  cases c with
  | multi ws => exact hc
  | _ => trivial

theorem keepsDrivers_withLock {key : LockKey} {ttlMs : ℕ} {fn : App α} (h : KeepsDrivers fn) :
    KeepsDrivers (withLock key ttlMs fn) := by
  refine ⟨trivial, fun token => ⟨trivial, fun ok => ?_⟩⟩
  cases ok with
  | false => trivial
  | true =>
    have hrelease : KeepsDrivers (releaseLock key (.uuid token)) := ⟨trivial, fun _ => trivial⟩
    exact (h.tryFinally hrelease).bind fun _ => trivial

theorem dispatching_finishTransition {next : RideStatus} {notified : List DriverId} :
    Dispatching (finishTransition r next ride notified now) := by
  have htell : Slight (Prog.forEach (fun d => emitRideCancelledToDriver d r ride.version)
      (notified ++ ride.driverId.toList.filter (· ∉ notified))) := .forEach fun _ _ => slight_publish
  have hend : ∀ p : App (Option RideHash), Slight p → Dispatching
      ((enqueueRideSync r ride.version).bind fun _ => (notifyRideStatusUpdate r ride).bind fun _ =>
        (emitRideStatusUpdate r ride).bind fun _ => p) := by
    intro p hp
    have hslight : Slight ((enqueueRideSync r ride.version).bind fun _ => (notifyRideStatusUpdate r ride).bind fun _ =>
        (emitRideStatusUpdate r ride).bind fun _ => p) := slight_enqueueRideSync.bind fun _ =>
      slight_emitRideStatusUpdate.bind fun _ => slight_emitRideStatusUpdate.bind fun _ => hp
    exact hslight.calm.dispatching
  simp only [finishTransition, Prog.bind_eq, Prog.pure_eq]
  split_ifs
  · exact dispatching_cleanupTerminalRideKeys.bind fun _ => hend _ (htell.bind fun _ => trivial)
  · exact dispatching_cleanupTerminalRideKeys.bind fun _ => hend _ trivial
  · exact hend _ (htell.bind fun _ => trivial)
  · exact hend _ trivial

theorem keepsDrivers_transitionRide {next : RideStatus} {options : TransitionOptions} (hdriver : options.driverId = none) :
    KeepsDrivers (transitionRide env r next options) := by
  have hlocked : KeepsDrivers (transitionUnderLock env r next options) := by
    refine slight_getRide.keepsDrivers.bind fun ride => ?_
    cases ride with
    | none => trivial
    | some ride =>
      dsimp only
      split_ifs
      · exact slight_getRide.keepsDrivers
      · refine slight_assertTransition.keepsDrivers.bind fun _ => ⟨trivial, fun now => ?_⟩
        have hupdate : KeepsDrivers (write (.hsetRide r (transitionFields env ride next options now))) := by
          refine ⟨fun w hw => ?_, fun _ => trivial⟩
          rw [List.mem_singleton.mp hw]
          exact transitionFields_keepsDriver hdriver
        refine hupdate.bind fun _ => slight_refreshRideRealtimeKeys.keepsDrivers.bind fun _ => ?_
        refine slight_appendTimelineEvent.keepsDrivers.bind fun _ => slight_getRide.keepsDrivers.bind fun snapshot => ?_
        refine slight_readNotifiedDrivers.keepsDrivers.bind fun notified => ?_
        cases snapshot with
        | none => trivial
        | some snapshot => exact dispatching_finishTransition.keepsDrivers
  refine (keepsDrivers_withLock hlocked).bind fun result => ?_
  cases result.join <;> trivial

theorem keepsDrivers_transitionByDriver {next : RideStatus} : KeepsDrivers (transitionByDriver env next r d) := by
  refine slight_getRide.keepsDrivers.bind fun ride => ?_
  split_ifs
  · exact keepsDrivers_transitionRide rfl
  · trivial

theorem keepsDrivers_cancelRide {actorType : ActorType} {actorId : Option ℕ} {reason : String} :
    KeepsDrivers (cancelRide env r actorType actorId reason) := by
  refine slight_getRide.keepsDrivers.bind fun ride => ?_
  cases ride with
  | none => trivial
  | some ride =>
    dsimp only
    split_ifs
    · trivial
    · exact keepsDrivers_transitionRide rfl

theorem keepsDrivers_requestRide {c : CustomerId} {origin destination : Location} {metadata : Metadata} :
    KeepsDrivers (requestRide env c origin destination metadata) := by
  refine (keepsDrivers_withLock (keepsDrivers_loose loose_requestUnderLock)).bind fun result => ?_
  cases result <;> trivial

theorem keepsDrivers_handleDriverDrop {active : Option RideId} {pending : List RideId} {reason : Response} :
    KeepsDrivers (handleDriverDrop env d active pending reason) := by
  have hpending : KeepsDrivers (Prog.forEach (fun r => discard (handleDriverRejection env r d reason)) pending) :=
    .forEach fun r _ => dispatching_handleDriverRejection.keepsDrivers.bind fun _ => Prog.uses_ret ()
  refine Prog.Uses.bind hpending fun _ => ?_
  cases active with
  | none => trivial
  | some active =>
    refine slight_getRide.keepsDrivers.bind fun ride => ?_
    cases ride with
    | none => trivial
    | some ride =>
      dsimp only
      split_ifs
      · exact ⟨trivial, fun now => slight_publish.keepsDrivers⟩
      · trivial

theorem keepsDrivers_work {job : JobId} : KeepsDrivers (work env job) := by
  have hjob : KeepsDrivers (handleJob env job) := by
    cases job with
    | dispatchStart r version reason =>
      have hstart : KeepsDrivers (discard (startDispatch env r)) :=
        dispatching_startDispatch.keepsDrivers.bind fun _ => trivial
      exact hstart.tryCatch fun _ => trivial
    | dispatchTimeout r batchId => exact dispatching_handleBatchTimeout.keepsDrivers.bind fun _ => trivial
    | persistRide r version => exact slight_syncRide.keepsDrivers
    | persistDriver d reason suffix => exact slight_syncDriver.keepsDrivers
  refine ⟨trivial, fun taken => ?_⟩
  cases taken with
  | false => trivial
  | true =>
    have hrun : KeepsDrivers (Prog.bind (handleJob env job) fun _ => (.ret true : App Bool)) := hjob.bind fun _ => trivial
    exact (hrun.tryCatch fun _ => Prog.uses_ret false).bind fun succeeded => ⟨trivial, fun _ => trivial⟩

theorem keepsDrivers_code {op : Op} (hop : serving (.call op) = true) : KeepsDrivers (code env op) := by
  have hdiscard : ∀ {α : Type} {p : App α}, KeepsDrivers p → KeepsDrivers (discard p) := fun hp => hp.bind fun _ => trivial
  cases op with
  | requestRide c origin destination metadata => exact hdiscard keepsDrivers_requestRide
  | startDispatch r => exact hdiscard dispatching_startDispatch.keepsDrivers
  | handleBatchTimeout r batchId => exact hdiscard dispatching_handleBatchTimeout.keepsDrivers
  | handleDriverRejection r d reason => exact hdiscard dispatching_handleDriverRejection.keepsDrivers
  | acceptRide r d => exact hdiscard dispatching_acceptRide.keepsDrivers
  | markDriverArriving r d => exact hdiscard keepsDrivers_transitionByDriver
  | startRide r d => exact hdiscard keepsDrivers_transitionByDriver
  | completeRide r d => exact hdiscard keepsDrivers_transitionByDriver
  | cancelRide r actorType actorId reason => exact hdiscard keepsDrivers_cancelRide
  | requeueRideAfterDriverLoss r d => cases hop
  | goOnline d lat lng socketId => exact hdiscard background_goOnline.keepsDrivers
  | heartbeat d lat lng socketId => exact hdiscard background_heartbeat.keepsDrivers
  | goOffline d => exact hdiscard background_goOffline.keepsDrivers
  | goOfflineAndDrop d reason => exact background_goOffline.keepsDrivers.bind fun _ => keepsDrivers_handleDriverDrop
  | restoreDriverSession d socketId => exact hdiscard background_restoreDriverSession.keepsDrivers
  | scanStaleDriversAndRecover =>
    exact background_scanStaleDrivers.keepsDrivers.bind fun _ => .forEach fun _ _ => keepsDrivers_handleDriverDrop
  | recoverDispatchingRides => exact slight_recoverDispatchingRides.keepsDrivers
  | work job => exact keepsDrivers_work

end programs

section runs

variable {p q : State} {a : Step} {as : List Step}

/-- What is left of the threads takes no driver off a ride. -/
def AllKeepDrivers (p : State) : Prop :=
  ∀ (i : ℕ) op (rest : App Unit), p.threads[i]? = some (op, rest) → KeepsDrivers rest

theorem AllKeepDrivers.next (h : AllKeepDrivers p) (hserving : serving a = true) (hnext : (system env).next p a = some q) :
    AllKeepDrivers q := by
  intro i op rest hi
  rcases System.next_thread hnext hi with ⟨hbefore, -⟩ | ⟨rfl, rfl, -⟩ | ⟨-, β, c, k, hbefore, -, rfl⟩
  · exact h i op rest hbefore
  · exact keepsDrivers_code hserving
  · exact (h i op _ hbefore).2 _

theorem AllKeepDrivers.not_requeues (h : AllKeepDrivers p) : ¬ Requeues env p a r := by
  rintro ⟨ws, ride, now, hperforms, hmem⟩
  -- the update of a requeue writes an empty driver, which such a thread does not
  obtain ⟨i, op, k, rfl, hi⟩ := hperforms.command
  have hkeeps : (Write.hsetRide r (requeueFields env ride now)).keepsDriver := (h i op _ hi).1 _ hmem
  have hfield : RideField.keepsDriver (.driverId none) = true :=
    List.all_eq_true.mp hkeeps _ (List.mem_cons_of_mem _ (List.mem_cons_self ..))
  cases hfield

/-- Who drove the ride at some moment of the run is its driver at the end. -/
theorem Drove.stays (hrun : (system env).Run RidesServed initial as q) (h : Drove (Passed (system env) initial as) d r) :
    (q.store.ride r).driverId = some d := by
  obtain ⟨ride, ⟨s, ⟨bs, cs, m, rfl, hbs, rfl⟩, hride, hexist⟩, hdriver⟩ := h
  have hm : (rides env False).Holds m ∧ AllKeepDrivers m := by
    refine (hrun.head hbs).invariant (I := fun p => (rides env False).Holds p ∧ AllKeepDrivers p)
      ⟨rides_initial, fun i op rest hi => by simp [initial] at hi⟩ fun p a q hp hok hnext => ?_
    exact ⟨rides_kept (.single hok.1 hnext) hp.1, hp.2.next hok.2 hnext⟩
  -- from that moment on, step by step
  have hlater : ((rides env False).Holds q ∧ AllKeepDrivers q) ∧
      (q.store.ride r).status ≠ none ∧ Party .driver d (q.store.ride r) := by
    refine (hrun.rest hbs).invariant (I := fun q => ((rides env False).Holds q ∧ AllKeepDrivers q) ∧
      (q.store.ride r).status ≠ none ∧ Party .driver d (q.store.ride r)) ⟨hm, ?_⟩ fun p a q hp hok hnext => ?_
    · rw [hride]
      exact ⟨hexist, hdriver⟩
    · obtain ⟨⟨hholds, hkeeps⟩, hthere, hparty⟩ := hp
      refine ⟨⟨rides_kept (.single hok.1 hnext) hholds, hkeeps.next hok.2 hnext⟩, ?_⟩
      exact party_step hholds hnext (fun _ => hkeeps.not_requeues) hthere hparty
  exact hlater.2.2

end runs

end YatriGo
