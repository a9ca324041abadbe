import YatriGo.Proofs.RideSteps
import YatriGo.Proofs.SerialSystem

/-! Between operations that come one after the other, the pools agree with the drivers and
the rides, and nothing refers to an offer or a ride that is over. -/

namespace YatriGo
open Concurrent

/-- The pools and the keys of driver `d` agree with each other and with the rides. -/
structure DriverAgrees (s : Store) (d : DriverId) : Prop where
  geo : d ∈ s.availableDriversGeo.map Prod.fst → d ∈ s.driverSet .available
  available : d ∈ s.driverSet .available →
    (s.driverHash d).status = some .online ∧ s.driverActiveRide d = none ∧
      (s.driverHash d).activeRideId = none ∧ d ∈ s.driverSet .online
  busy : d ∈ s.driverSet .busy ↔ (s.driverHash d).status = some .busy
  onRide : (s.driverHash d).status = some .busy → s.driverActiveRide d ≠ none
  hash : (s.driverHash d).activeRideId = s.driverActiveRide d
  assigned : ∀ r, s.driverActiveRide d = some r ↔ (s.ride r).driverId = some d ∧
    ((s.ride r).status = some .accepted ∨ (s.ride r).status = some .arriving ∨
      (s.ride r).status = some .ongoing)

/-- What reservations, pending lists and pointers refer to. -/
structure NoTrace (s : Store) : Prop where
  reserved : ∀ d r b, (s.locks (.reservation d)).map Lease.token = some (.reservation r b) →
    (s.ride r).status = some .dispatching ∧ (s.ride r).currentBatchId = some b ∧
      d ∈ (s.ride r).currentBatchDrivers
  pending : ∀ d r, r ∈ s.driverPendingDispatches d →
    (s.ride r).status = some .dispatching ∧ d ∈ (s.ride r).currentBatchDrivers ∧
      d ∈ s.rideNotifiedDrivers r ∧
      ∃ b, (s.ride r).currentBatchId = some b ∧ s.rideResponses r d = some (.pending b)
  active : ∀ r, r ∈ s.activeRides ↔ ∃ status, (s.ride r).status = some status ∧ status.terminal = false
  finished : ∀ r status, (s.ride r).status = some status → status.terminal = true →
    (∀ c, s.customerActiveRide c ≠ some r) ∧ (∀ d, s.driverActiveRide d ≠ some r) ∧
      (∀ d, r ∉ s.driverPendingDispatches d) ∧
      ∀ d b, (s.locks (.reservation d)).map Lease.token ≠ some (.reservation r b)

variable {env : Env} {strict : Prop} {X : DriverId → RideId → Prop} {L : Ledger} {s : Store} {as : List Step}
  {p : State} {d : DriverId} {r : RideId}

theorem Ledger.assigned_iff : L.Assigned r d ↔ (L.ride r).driverId = some d ∧
    ((L.ride r).status = some .accepted ∨ (L.ride r).status = some .arriving ∨
      (L.ride r).status = some .ongoing) := by
  unfold Ledger.Assigned
  cases hst : (L.ride r).status with
  | none => simp
  | some status => cases status <;> simp [RideStatus.live]

theorem Ledger.underway_iff : L.Underway r ↔
    ∃ status, (L.ride r).status = some status ∧ status.terminal = false := by
  unfold Ledger.Underway
  rw [Option.any_eq_true]
  simp

theorem Pools.agrees (h : Pools s.ledger s) : DriverAgrees s d := by
  have hfit := h.fit d
  have hgeo : (s.keys d).geo = true ↔ d ∈ s.availableDriversGeo.map Prod.fst := by
    show (s.availableDriversGeo.any fun p => p.1 = d) = true ↔ _
    rw [List.any_eq_true]
    simp
  have havailable : (s.keys d).available = true ↔ d ∈ s.driverSet .available := decide_eq_true_iff
  have honline : (s.keys d).online = true ↔ d ∈ s.driverSet .online := decide_eq_true_iff
  have hbusy : (s.keys d).busy = true ↔ d ∈ s.driverSet .busy := decide_eq_true_iff
  exact
    { geo := fun hd => havailable.mp (hfit.geo (hgeo.mpr hd))
      available := fun hd => by
        obtain ⟨hstatus, hon⟩ := hfit.available (havailable.mpr hd)
        have hactive : s.driverActiveRide d = none := hfit.online hstatus
        have hhash : (s.driverHash d).activeRideId = s.driverActiveRide d := hfit.hash
        exact ⟨hstatus, hactive, hhash.trans hactive, honline.mp hon⟩
      busy := hbusy.symm.trans hfit.busy
      onRide := hfit.onRide
      hash := hfit.hash
      assigned := fun r => (hfit.assigned r).trans Ledger.assigned_iff }

/-- In a run of complete operations, one after the other, the keys of every driver agree
whenever no operation is running. -/
theorem pools_agree (hrun : (system env).Run (fun p a => oneByOne p a) initial as p)
    (hidle : p.idle = true) (d : DriverId) : DriverAgrees p.store d := by
  obtain ⟨L, h⟩ := settled_run hrun hidle
  have hpools := h.pools
  rw [← h.ledger] at hpools
  exact hpools.agrees

theorem turns_run (as : List Step) (P : State → Bool)
    (h : ((system townEnv).steps oneByOne as initial).any P = true) :
    ∃ q, (system townEnv).Run (fun p a => oneByOne p a) initial as q ∧ P q = true :=
  System.exists_run (fun _ _ => id) h

/-- Driver 1 goes online, is offered a ride and accepts it. -/
def accepted : List Step := offered ++ .call (.acceptRide ⟨1, 2⟩ 1) :: run 3 19

theorem pools_agree_accepted : ∃ p : State, p.idle = true ∧
    (p.store.driverHash 1).status = some .busy ∧ DriverAgrees p.store 1 := by
  obtain ⟨p, hrun, hp⟩ := turns_run accepted
    (fun p => p.idle ∧ (p.store.driverHash 1).status = some .busy) (by decide +kernel)
  obtain ⟨hidle, hbusy⟩ := of_decide_eq_true hp
  exact ⟨p, hidle, hbusy, pools_agree hrun hidle 1⟩

theorem Stand.noTrace (h : Even strict X L s) : NoTrace s := by
  obtain rfl : s.ledger = L := h.ledger
  have hpending : ∀ d r, r ∈ s.driverPendingDispatches d → (s.ride r).status = some .dispatching ∧
      d ∈ (s.ride r).currentBatchDrivers ∧ d ∈ s.rideNotifiedDrivers r ∧
      ∃ b, (s.ride r).currentBatchId = some b ∧ s.rideResponses r d = some (.pending b) := by
    intro d r hr
    obtain ⟨⟨b, ho, hresponse⟩, hnotified⟩ := h.listed.pending d r hr
    exact ⟨ho.status, ho.mem, hnotified, b, ho.batch, hresponse⟩
  have hactive : ∀ d r, s.driverActiveRide d = some r → s.ledger.Assigned r d :=
    fun d r hr => ((h.pools.fit d).assigned r).mp hr
  refine ⟨fun d r b hl => ?_, hpending, fun r => (h.listed.active r).trans Ledger.underway_iff,
    fun r status hst hover => ?_⟩
  · have ho := h.reserved d r b hl
    exact ⟨ho.status, ho.batch, ho.mem⟩
  · have hnot : (s.ride r).status ≠ some .dispatching := by
      rw [hst]
      rintro heq
      cases heq
      cases hover
    refine ⟨fun c hc => ?_, fun d hd => ?_, fun d hd => hnot (hpending d r hd).1, fun d b hl => ?_⟩
    · obtain ⟨status', hst', hlive⟩ := Ledger.underway_iff.mp (h.listed.customer c r hc).1
      have heq : some status = some status' := hst.symm.trans hst'
      rw [Option.some.inj heq, hlive] at hover
      cases hover
    · obtain ⟨-, hlive⟩ := hactive d r hd
      have hlive' : (s.ride r).status.any RideStatus.live = true := hlive
      rw [hst] at hlive'
      cases status <;> simp [RideStatus.terminal, RideStatus.live] at hover hlive'
    · exact hnot (h.reserved d r b hl).status

/-- In such a run no offer is leaked, and finished rides leave no trace. -/
theorem no_trace (hrun : (system env).Run (fun p a => oneByOne p a) initial as p)
    (hidle : p.idle = true) : NoTrace p.store := by
  obtain ⟨L, h⟩ := settled_run hrun hidle
  exact Stand.noTrace h

theorem no_trace_offered : ∃ p : State, p.idle = true ∧
    (p.store.locks (.reservation 1)).map Lease.token = some (.reservation ⟨1, 2⟩ ⟨2, 4⟩) ∧
    NoTrace p.store := by
  obtain ⟨p, hrun, hp⟩ := turns_run offered
    (fun p => p.idle ∧ (p.store.locks (.reservation 1)).map Lease.token =
      some (.reservation ⟨1, 2⟩ ⟨2, 4⟩)) (by decide +kernel)
  obtain ⟨hidle, hreserved⟩ := of_decide_eq_true hp
  exact ⟨p, hidle, hreserved, no_trace hrun hidle⟩

end YatriGo
