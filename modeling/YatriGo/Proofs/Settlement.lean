import YatriGo.Proofs.FareSplit
import YatriGo.Proofs.LifeCycle

/-! What a ride records of its end. Until it ends a ride has no bill and no cancellation; at its end it gets
one of the two, and then its hash is not written any more. -/

namespace YatriGo
open Concurrent Arith

/-- The type a ride is billed by. -/
def RideHash.billedType (h : RideHash) : Option String :=
  match h.rideType with
  | some t => if t = "" then h.metadata.rideType else some t
  | none => h.metadata.rideType

def Fare.billing (fare : Fare) : Billing :=
  ⟨fare.currency, fare.totalFare, fare.baseFare, fare.distanceCharge, fare.durationCharge, fare.waitingCharge⟩

/-- The bill is for the trip that the ride records, and both shares of it are recorded. -/
structure RideHash.Billed (env : Env) (h : RideHash) : Prop where
  fare : ∃ waitingMin, h.finalFare =
    some (estimateFare env h.actualDistanceKm h.actualDurationMin h.billedType waitingMin)
  billing : h.billing = h.finalFare.map Fare.billing
  shares : ∀ fare, h.finalFare = some fare → h.commissionAmount = fare.commissionAmount ∧
    h.driverEarning = fare.driverEarning ∧ h.commissionAmount + h.driverEarning = fare.totalFare

structure RideHash.Unbilled (h : RideHash) : Prop where
  fare : h.finalFare = none
  billing : h.billing = none
  commission : h.commissionAmount = 0
  earning : h.driverEarning = 0

/-- The fields of a ride agree with its status. -/
structure RideHash.Settled (env : Env) (h : RideHash) : Prop where
  completed : h.status = some .completed → h.Billed env
  unbilled : h.status ≠ some .completed → h.Unbilled
  cancelled : h.cancellation ≠ none ↔ h.status = some .cancelled
  waiting : h.status = some .requested ∨ h.status = some .dispatching → h.driverId = none ∧ h.acceptedAt = none
  driven : h.status = some .accepted ∨ h.status = some .arriving ∨ h.status = some .ongoing ∨
    h.status = some .completed → h.driverId ≠ none ∧ h.acceptedAt ≠ none

/-- In the runs allowed by `ok` the fields of every ride agree with its status, and nothing is written to a
ride that has ended. -/
structure SettlesOnce (env : Env) (ok : State → Step → Prop) : Prop where
  settled : ∀ as q r, (system env).Run ok initial as q → (q.store.ride r).status ≠ none →
    (q.store.ride r).Settled env
  frozen : ∀ as p bs q r, (system env).Run ok initial as p → (system env).Run ok p bs q →
    (p.store.ride r).terminal → q.store.ride r = p.store.ride r

variable {env : Env} {g h : RideHash} {fields : List RideField} {p q : State} {a : Step} {r : RideId}

theorem estimateFare_shares (hpricing : env.pricing.Sound) {distanceKm durationMin waitingMin : ℚ}
    {rideType : Option String} {fare : Fare} (hfare : fare = estimateFare env distanceKm durationMin rideType waitingMin) :
    fare.commissionAmount + fare.driverEarning = fare.totalFare := by
  have hminimum := hpricing.onGrid
  have htotal : OnGrid 100 (estimateFare env distanceKm durationMin rideType waitingMin).totalFare := roundCurrency_onGrid
  rw [hfare, estimateFare_earning hminimum, estimateFare_commission hminimum,
    roundCurrency_of_onGrid (htotal.sub roundCurrency_onGrid), add_sub_cancel]

theorem settled_requestPayload {c : CustomerId} {origin destination : Location} {metadata : Metadata} {now : Time} :
    (requestPayload env c origin destination metadata now).Settled env where
  completed := fun h => by cases h
  unbilled := fun _ => ⟨rfl, rfl, rfl, rfl⟩
  cancelled := ⟨fun h => absurd rfl h, fun h => by cases h⟩
  waiting := fun _ => ⟨rfl, rfl⟩
  driven := fun h => by
    rcases h with h | h | h | h <;> cases h

/-- A ride that goes from one open status to another, and is not billed on the way. -/
theorem RideHash.Settled.congr (hs : g.Settled env) {status : RideStatus} (hst : g.status = some status) {next : RideStatus}
    (hopen : status.terminal = false ∧ next.terminal = false) (heq : h.status = some next)
    (hwaiting : next = .requested ∨ next = .dispatching → h.driverId = none ∧ h.acceptedAt = none)
    (hdriven : next = .accepted ∨ next = .arriving ∨ next = .ongoing → h.driverId ≠ none ∧ h.acceptedAt ≠ none)
    (hbill : (h.finalFare, h.billing, h.commissionAmount, h.driverEarning, h.cancellation) =
      (g.finalFare, g.billing, g.commissionAmount, g.driverEarning, g.cancellation)) : h.Settled env where
  completed := fun hc => by
    rw [heq] at hc
    cases hc
    cases hopen.2
  unbilled := fun _ => by
    have hunbilled : g.Unbilled := hs.unbilled fun hc => by
      rw [hst] at hc
      cases hc
      cases hopen.1
    simp only [Prod.mk.injEq] at hbill
    obtain ⟨hfare, hbilling, hcommission, hearning, -⟩ := hbill
    exact ⟨hfare.trans hunbilled.fare, hbilling.trans hunbilled.billing, hcommission.trans hunbilled.commission,
      hearning.trans hunbilled.earning⟩
  cancelled := by
    simp only [Prod.mk.injEq] at hbill
    have hnot : ¬ g.cancellation ≠ none := fun hc => by
      have hcancelled := hs.cancelled.mp hc
      rw [hst] at hcancelled
      cases hcancelled
      cases hopen.1
    rw [hbill.2.2.2.2, heq]
    refine ⟨fun hc => absurd hc hnot, fun hc => ?_⟩
    cases hc
    cases hopen.2
  waiting := fun hw => by
    rw [heq, Option.some.injEq, Option.some.injEq] at hw
    exact hwaiting hw
  driven := fun hd => by
    rw [heq] at hd
    simp only [Option.some.injEq] at hd
    rcases hd with hd | hd | hd | rfl
    · exact hdriven (.inl hd)
    · exact hdriven (.inr (.inl hd))
    · exact hdriven (.inr (.inr hd))
    · cases hopen.2

theorem RideHash.Settled.accept (hs : h.Settled env) (hst : h.status = some .dispatching) (d : DriverId) (acceptedAt : Time) :
    (h.accept d acceptedAt).Settled env := by
  refine hs.congr hst ⟨rfl, rfl⟩ rfl (fun hw => ?_) (fun _ => ⟨Option.some_ne_none _, Option.some_ne_none _⟩) rfl
  rcases hw with hw | hw <;> cases hw

section transition

variable {current next : RideStatus} {options : TransitionOptions} {now : Time}

theorem transitionFields_eq (hdriver : options.driverId = none) :
    transitionFields env h next options now = [.status next, .updatedAt now, .version (h.version + 1)] ++
      (if next = .cancelled then [.cancellation ⟨options.actorType.getD .system, options.actorId, options.reason, now⟩]
      else []) ++ (if next = .completed then completionFields env h options now else []) := by
  unfold transitionFields
  rw [hdriver, List.append_nil]

theorem calculateFinalFare_eq {distanceKm durationMin waitingMin : ℚ} :
    calculateFinalFare env h distanceKm durationMin waitingMin =
      estimateFare env distanceKm durationMin h.billedType waitingMin := rfl

theorem hset_completionFields : ∃ distanceKm durationMin waitingMin fare,
    fare = estimateFare env distanceKm durationMin h.billedType waitingMin ∧
    g.hset (completionFields env h options now) = { g with
      actualDistanceKm := distanceKm
      actualDurationMin := durationMin
      finalFare := some fare
      billing := some fare.billing
      commissionAmount := fare.commissionAmount
      driverEarning := fare.driverEarning } := by
  refine ⟨orNumber (options.actualDistanceKm.getD h.actualDistanceKm) h.estimatedDistanceKm,
    orNumber (options.actualDurationMin.getD h.actualDurationMin) (resolveActualDurationMinutes h now),
    options.waitingMin.getD 0, _, calculateFinalFare_eq.symm, ?_⟩
  unfold completionFields
  simp only [calculateFinalFare_eq]
  generalize estimateFare env _ _ _ _ = fare
  simp only [hset_cons, hset_nil, RideHash.setField, Fare.billing]

/-- The ride was driven when it was completed, and the bill is computed from what it says then. -/
theorem settled_complete (hpricing : env.pricing.Sound) (hs : h.Settled env) (hst : h.status = some .ongoing)
    (hdriver : options.driverId = none) : (h.hset (transitionFields env h .completed options now)).Settled env := by
  obtain ⟨distanceKm, durationMin, waitingMin, fare, hfare, heq⟩ :=
    @hset_completionFields env (h.hset [.status .completed, .updatedAt now, .version (h.version + 1)]) h options now
  rw [transitionFields_eq hdriver, if_neg (by decide), if_pos rfl, List.append_nil, hset_append, heq]
  have hdriven := hs.driven (.inr (.inr (.inl hst)))
  have hnot : ¬ h.cancellation ≠ none := fun hc => by
    have hcancelled := hs.cancelled.mp hc
    rw [hst] at hcancelled
    cases hcancelled
  constructor
  case completed =>
    refine fun _ => ⟨⟨waitingMin, congrArg some hfare⟩, rfl, fun fare' hfare' => ?_⟩
    obtain rfl : fare = fare' := Option.some.inj hfare'
    exact ⟨rfl, rfl, estimateFare_shares hpricing hfare⟩
  case unbilled => exact fun hc => absurd rfl hc
  case cancelled =>
    refine ⟨fun hc => absurd hc hnot, fun hc => ?_⟩
    cases hc
  case waiting =>
    intro hw
    rcases hw with hw | hw <;> cases hw
  case driven => exact fun _ => hdriven

theorem settled_cancel (hs : g.Settled env) (hg : g.status ≠ some .completed) (hdriver : options.driverId = none) :
    (g.hset (transitionFields env h .cancelled options now)).Settled env := by
  rw [transitionFields_eq hdriver, if_pos rfl, if_neg (by decide), List.append_nil]
  have hunbilled : g.Unbilled := hs.unbilled hg
  constructor
  case completed =>
    intro hc
    cases hc
  case unbilled => exact fun _ => ⟨hunbilled.fare, hunbilled.billing, hunbilled.commission, hunbilled.earning⟩
  case cancelled => exact ⟨fun _ => rfl, fun _ => Option.some_ne_none _⟩
  case waiting =>
    intro hw
    rcases hw with hw | hw <;> cases hw
  case driven =>
    intro hd
    rcases hd with hd | hd | hd | hd <;> cases hd

end transition

/-- A dispatch that neither starts nor ends leaves all these fields alone. -/
theorem RideHash.Settled.same (hs : g.Settled env)
    (heq : (h.status, h.driverId, h.acceptedAt, h.cancellation) = (g.status, g.driverId, g.acceptedAt, g.cancellation))
    (htrip : (h.actualDistanceKm, h.actualDurationMin, h.billedType) = (g.actualDistanceKm, g.actualDurationMin, g.billedType))
    (hbill : (h.finalFare, h.billing, h.commissionAmount, h.driverEarning) =
      (g.finalFare, g.billing, g.commissionAmount, g.driverEarning)) : h.Settled env := by
  simp only [Prod.mk.injEq] at heq htrip hbill
  obtain ⟨hstatus, hdriver, haccepted, hcancellation⟩ := heq
  obtain ⟨hdistance, hduration, htype⟩ := htrip
  obtain ⟨hfare, hbilling, hcommission, hearning⟩ := hbill
  constructor
  case completed =>
    intro hc
    rw [hstatus] at hc
    obtain ⟨hfare', hbilling', hshares⟩ := hs.completed hc
    rw [← hfare, ← hdistance, ← hduration, ← htype] at hfare'
    rw [← hfare, ← hbilling] at hbilling'
    rw [← hfare, ← hcommission, ← hearning] at hshares
    exact ⟨hfare', hbilling', hshares⟩
  case unbilled =>
    intro hc
    rw [hstatus] at hc
    obtain ⟨hfare', hbilling', hcommission', hearning'⟩ := hs.unbilled hc
    exact ⟨hfare.trans hfare', hbilling.trans hbilling', hcommission.trans hcommission', hearning.trans hearning'⟩
  case cancelled =>
    rw [hcancellation, hstatus]
    exact hs.cancelled
  case waiting =>
    rw [hstatus, hdriver, haccepted]
    exact hs.waiting
  case driven =>
    rw [hstatus, hdriver, haccepted]
    exact hs.driven

theorem not_completed_of_working (h : g.working) : g.status ≠ some .completed := by
  rcases h with h | h <;> (rw [h]; decide)

theorem settled_transition {current next : RideStatus} {options : TransitionOptions} {now : Time}
    (hpricing : env.pricing.Sound) (since : Since h g) (hs : g.Settled env) (hst : h.status = some current)
    (hnext : next ∈ rideTransitions current) (hto : next ≠ .dispatching ∧ next ≠ .accepted)
    (hdriver : options.driverId = none) : (g.hset (transitionFields env h next options now)).Settled env := by
  by_cases hcancelled : next = .cancelled
  · subst hcancelled
    refine settled_cancel hs (fun hg => ?_) hdriver
    -- neither a completed ride nor one that was accepted meanwhile is completed
    cases since with
    | same =>
      rw [hst] at hg
      cases hg
      cases hnext
    | accepted d acceptedAt hst' hd => cases hg
    | absent k hnone =>
      rw [hst] at hnone
      cases hnone
  · -- every other status is reached from one in which the ride cannot be accepted
    have hcurrent : current = .accepted ∧ next = .arriving ∨ current = .arriving ∧ next = .ongoing ∨
        current = .ongoing ∧ next = .completed := by
      cases current <;> simp only [rideTransitions, List.mem_cons, List.not_mem_nil, or_false] at hnext <;>
        grind
    have hsame : g = h := since.eq_of_status hst (by
      rintro rfl
      rcases hcurrent with ⟨hc, -⟩ | ⟨hc, -⟩ | ⟨hc, -⟩ <;> cases hc)
    subst hsame
    rcases hcurrent with ⟨rfl, rfl⟩ | ⟨rfl, rfl⟩ | ⟨rfl, rfl⟩
    · have hdriven := hs.driven (.inl hst)
      rw [transitionFields_eq hdriver]
      exact hs.congr hst ⟨rfl, rfl⟩ rfl (fun hw => by rcases hw with hw | hw <;> cases hw) (fun _ => hdriven) rfl
    · have hdriven := hs.driven (.inr (.inl hst))
      rw [transitionFields_eq hdriver]
      exact hs.congr hst ⟨rfl, rfl⟩ rfl (fun hw => by rcases hw with hw | hw <;> cases hw) (fun _ => hdriven) rfl
    · exact settled_complete hpricing hs hst hdriver

/-- What an update makes of a ride that may have been accepted since it was read. -/
theorem settled_write (hpricing : env.pricing.Sound) (since : Since h g) (hs : g.Settled env)
    (hw : RideWrite env h fields) : (g.hset fields).Settled env := by
  cases hw with
  | start now hst =>
    -- only a DISPATCHING ride can have been accepted since it was read
    obtain rfl : g = h := since.eq_of_status hst (by decide)
    have hwaiting := hs.waiting (.inl hst)
    refine hs.congr hst ⟨rfl, rfl⟩ rfl (fun _ => hwaiting) (fun hd => ?_) rfl
    rcases hd with hd | hd | hd <;> cases hd
  | clear now hst =>
    simp only [clearBatchFields, hset_cons, hset_nil, RideHash.setField]
    exact hs.same rfl rfl rfl
  | exhaust now hst =>
    have hunbilled : g.Unbilled := hs.unbilled (not_completed_of_working (since.working hst))
    constructor
    case completed =>
      intro hc
      cases hc
    case unbilled => exact fun _ => ⟨hunbilled.fare, hunbilled.billing, hunbilled.commission, hunbilled.earning⟩
    case cancelled => exact ⟨fun _ => rfl, fun _ => Option.some_ne_none _⟩
    case waiting =>
      intro hw
      rcases hw with hw | hw <;> cases hw
    case driven =>
      intro hd
      rcases hd with hd | hd | hd | hd <;> cases hd
  | expand nextRound nextRadius now hst =>
    simp only [expandFields, hset_cons, hset_nil, RideHash.setField]
    exact hs.same rfl rfl rfl
  | batch batchId ds expiresAt now hst =>
    simp only [batchFields, hset_cons, hset_nil, RideHash.setField]
    exact hs.same rfl rfl rfl
  | reject exhausted now hst =>
    simp only [rejectFields, hset_cons, hset_nil, RideHash.setField]
    exact hs.same rfl rfl rfl
  | transition current next options now hst hnext hto hdriver =>
    exact settled_transition hpricing since hs hst hnext hto hdriver
  | requeue d now hst hd =>
    obtain ⟨status, hstatus, hopen, hne⟩ : ∃ status, h.status = some status ∧ status.terminal = false ∧ status ≠ .dispatching := by
      rcases hst with hst | hst
      · exact ⟨.accepted, hst, rfl, by decide⟩
      · exact ⟨.arriving, hst, rfl, by decide⟩
    obtain rfl : g = h := since.eq_of_status hstatus hne
    refine hs.congr hstatus ⟨hopen, rfl⟩ rfl (fun _ => ⟨rfl, rfl⟩) (fun hd => ?_) rfl
    rcases hd with hd | hd | hd <;> cases hd

/-- Every ride there is, is settled. -/
def AllSettled (env : Env) (p : State) : Prop := ∀ r, (p.store.ride r).status ≠ none → (p.store.ride r).Settled env

theorem settled_step (hpricing : env.pricing.Sound) (hp : (rides env False).Holds p)
    (hnext : (system env).next p a = some q) (hs : AllSettled env p) : AllSettled env q := by
  intro r hr
  cases ride_step hp hnext r with
  | same heq =>
    rw [heq] at hr ⊢
    exact hs r hr
  | create absent c origin destination metadata now heq =>
    rw [heq]
    exact settled_requestPayload
  | accept d acceptedAt accepts hst hd heq =>
    rw [heq]
    exact (hs r (by rw [hst]; exact Option.some_ne_none _)).accept hst d acceptedAt
  | write read fields ws performs mem since write heq =>
    rw [heq]
    exact settled_write hpricing since (hs r (since.status_ne_none write.status_ne_none)) write

theorem settlement_run (hpricing : env.pricing.Sound) {as : List Step} (hrun : (system env).Run RideLocksKept initial as q) :
    AllSettled env q := by
  have hboth : (rides env False).Holds q ∧ AllSettled env q := by
    refine hrun.invariant (I := fun q => (rides env False).Holds q ∧ AllSettled env q)
      ⟨rides_initial, fun r hr => absurd rfl hr⟩ fun m c m' hm hok hnext => ⟨?_, settled_step hpricing hm.1 hnext hm.2⟩
    exact rides_run (fun p k hk => RideLocksKept.keeps hk) (.single hok hnext) hm.1
  exact hboth.2

theorem ended_step (hp : (rides env False).Holds p) (hnext : (system env).next p a = some q)
    (hended : (p.store.ride r).terminal) : q.store.ride r = p.store.ride r := by
  cases ride_step hp hnext r with
  | same heq => exact heq
  | create absent c origin destination metadata now heq =>
    rcases hended with hended | hended <;> (rw [absent] at hended; cases hended)
  | accept d acceptedAt accepts hst hd heq =>
    rcases hended with hended | hended <;> (rw [hst] at hended; cases hended)
  | write read fields ws performs mem since write heq =>
    exact absurd hended (since.not_terminal write.status_ne_none write.not_terminal)

theorem settles_once (env : Env) (hpricing : env.pricing.Sound) : SettlesOnce env RideLocksKept := by
  refine ⟨fun as q r hrun hr => settlement_run hpricing hrun r hr, fun as p bs q r hrun hrun' hended => ?_⟩
  have hlocks : ∀ (p : State) k, keeps False k → ¬ RideLocksKept p (.env (.expireLease k)) :=
    fun p k hk => RideLocksKept.keeps hk
  have hboth : (rides env False).Holds q ∧ q.store.ride r = p.store.ride r := by
    refine hrun'.invariant (I := fun q => (rides env False).Holds q ∧ q.store.ride r = p.store.ride r)
      ⟨rides_run hlocks hrun rides_initial, rfl⟩ fun m c m' hm hok hnext => ⟨rides_run hlocks (.single hok hnext) hm.1, ?_⟩
    have hended' : (m.store.ride r).terminal := by
      rw [hm.2]
      exact hended
    exact (ended_step hm.1 hnext hended').trans hm.2
  exact hboth.2

theorem settles_once_town : SettlesOnce townEnv RideLocksKept := settles_once townEnv sound_town

end YatriGo
