import YatriGo.Proofs.DriverSteps
import YatriGo.Proofs.Walk

/-! The parts that the ride operations share, run alone: reading and updating a ride, the
end of a batch, and the cleanup of a ride that is over. -/

namespace YatriGo
open Concurrent

variable {env : Env} {strict : Prop} {i : ℕ} {m : Around} {α β : Type}
  {Q : Except AppError α → Assertion} {X : DriverId → RideId → Prop} {L L' L₁ L₃ : Ledger}
  {O : RideId → BatchId → DriverId → Prop} {s : Store} {r : RideId} {d : DriverId} {b : BatchId}
  {ds : List DriverId} {now : Time} {fields : List RideField}

/-- What `f` reads is not changed by the commands around an operation. -/
def Assertion.reading {γ : Type} (A : Assertion) (f : Store → γ)
    (hf : ∀ {s t : Store}, Still s t → f t = f s) (v : γ) : Assertion where
  holds := fun s => A s ∧ f s = v
  steady := fun hst h => ⟨A.steady hst h.1, (hf hst).trans h.2⟩

theorem toRideSnapshot_of_status {g : RideHash} (h : g.status ≠ none) : toRideSnapshot g = some g :=
  if_neg h

theorem leads_getRide {f : Option RideHash → App α} (h : stand strict X L L₁ O L₃ s)
    (next : ∀ t, stand strict X L L₁ O L₃ t → Leads env strict i m Q (f (toRideSnapshot (L.ride r))) t) :
    Leads env strict i m Q ((getRide r).bind f) s := by
  have hread : ∀ t, exec env i (.hgetallRide r) t = (t.ride r, t) := fun _ => rfl
  have hg : Cmd.gentle (.hgetallRide r) := trivial
  refine Leads.read hread hg h fun t ht => ?_
  rw [show t.ride r = L.ride r from congrFun ht.ride r]
  exact next t ht

/-- `updateRideHash` on a ride whose batch is closed afterwards. -/
theorem leads_updateRideHash {f : Option RideHash → App α} (h : stand strict X L L₁ O L₃ s)
    (hfollows : ∀ v, .searchRadiusKm v ∈ fields → Follows env (L.ride r).origin v)
    (hst : (L.ride r).status ≠ none) (closed : (L.hset r fields).Closed r)
    (requested : ((L.ride r).hset fields).status ≠ some .requested)
    (dispatching : ((L.ride r).hset fields).status = some .dispatching →
      ((L.ride r).hset fields).driverId = none)
    (next : ∀ t, stand strict X (L.hset r fields) L₁ O L₃ t →
      Leads env strict i m Q (f (some ((L.ride r).hset fields))) t) :
    Leads env strict i m Q ((updateRideHash r fields).bind f) s := by
  have hset : ∀ t, stand strict X L L₁ O L₃ t →
      stand strict X (L.hset r fields) L₁ O L₃ (t.multi [.hsetRide r fields]) :=
    fun t ht => Stand.hset ht hst closed requested dispatching
  simp only [updateRideHash, write, redis, Prog.bind_eq, Prog.bind_assoc, Prog.perform_bind,
    Prog.cmd_bind]
  have hasked : ∀ t, stand strict X L L₁ O L₃ t → Asked env t → Asked env (t.multi [.hsetRide r fields]) := by
    intro t ht hasked
    refine asked_write (w := .hsetRide r fields) hasked fun v hv => ?_
    rw [show t.ride r = L.ride r from congrFun ht.ride r]
    exact hfollows v hv
  refine Leads.multi h hasked (fun t ht _ => hset t ht) fun t ht => ?_
  refine Leads.quiet ht gentle_refreshRideRealtimeKeys fun _ t ht => ?_
  refine leads_getRide ht fun t ht => ?_
  rw [Ledger.hset_self, toRideSnapshot_of_status (hset_status_ne_none hst)]
  exact next t ht

/-- The release of the reservations that batch `b` has made of `ds`. -/
theorem leads_releases {f : Unit → App α} (h : stand strict X L L₁ O L₃ s)
    (hopen : strict → ∀ d ∈ ds, ¬ L.Open r b d)
    (next : ∀ t, stand strict X L L₁ (fun r' b' d' => O r' b' d' ∧ ¬ (r' = r ∧ b' = b ∧ d' ∈ ds)) L₃ t →
      Leads env strict i m Q (f ()) t) :
    Leads env strict i m Q
      ((Prog.forEach (fun d => releaseLock (.reservation d) (.reservation r b)) ds).bind f) s := by
  induction ds generalizing s O with
  | nil =>
    refine next s (Stand.relabel h (fun _ _ => Iff.rfl) (fun r' b' d' hO => ⟨hO, ?_⟩) (fun _ => Iff.rfl)
      (fun _ => rfl) fun _ _ => id)
    simp
  | cons d ds ih =>
    rw [Prog.forEach, Prog.bind_assoc]
    have hlock : ∀ k : LockKey, k.mutex →
        (Cmd.evalReleaseLock (.reservation d) (.reservation r b)).lockOf ≠ some k := by
      intro k hk heq
      obtain rfl := Option.some.inj heq
      exact hk
    refine Leads.cmd hlock trivial h fun t ht _ => ?_
    have hrelease : stand strict X L L₁ (fun r' b' d' => O r' b' d' ∧ ¬ (r' = r ∧ b' = b ∧ d' = d)) L₃
        (exec env i (.evalReleaseLock (.reservation d) (.reservation r b)) t).2 := by
      refine Stand.release ht (fun hx => hopen hx d List.mem_cons_self) fun r' b' d' hO => ?_
      by_cases heq : r' = r ∧ b' = b ∧ d' = d
      · exact Or.inr heq
      · exact Or.inl ⟨hO, heq⟩
    refine ih hrelease (fun hx d' hd => hopen hx d' (List.mem_cons_of_mem _ hd)) fun t ht => ?_
    refine next t (Stand.relabel ht (fun _ _ => Iff.rfl) (fun r' b' d' hO => ?_) (fun _ => Iff.rfl)
      (fun _ => rfl) fun _ _ => id)
    obtain ⟨⟨hO, hd⟩, hds⟩ := hO
    refine ⟨hO, ?_⟩
    rintro ⟨hr, hb, hmem⟩
    rcases List.mem_cons.mp hmem with heq | hmem
    · exact hd ⟨hr, hb, heq⟩
    · exact hds ⟨hr, hb, hmem⟩

theorem leads_clearPending {f : Unit → App α} (h : stand strict X L L₁ O L₃ s) (hclosed : L.Closed r)
    (hoff : Ledger.EqOff r L₃ L') (hunderway : L₃.Underway r ↔ L'.Underway r)
    (hcustomer : (L'.ride r).customerId = (L₃.ride r).customerId)
    (hawaits : ∀ d, L₃.Awaits r d → d ∈ ds)
    (next : ∀ t, stand strict X L L₁ O L' t → Leads env strict i m Q (f ()) t) :
    Leads env strict i m Q ((clearPendingMembership r ds).bind f) s := by
  unfold clearPendingMembership
  split_ifs with hds
  · have hnil := Stand.clearPending h hclosed hoff hunderway hcustomer hawaits
    rw [hds, List.map_nil, multi_nil] at hnil
    exact next s hnil
  · refine Leads.writes h (fun w hw => ?_) (fun t ht _ => Stand.clearPending ht hclosed hoff hunderway hcustomer hawaits) next
    obtain ⟨d, -, rfl⟩ := List.mem_map.mp hw
    trivial

/-- `endBatch`, when the time of the current batch is over. -/
theorem leads_endBatch {f : Unit → App α} (h : even strict X L s)
    (hst : (L.ride r).status = some .dispatching) (hb : (L.ride r).currentBatchId = some b)
    (next : ∀ L' t, Ledger.EqOff r L L' → L'.ride r = (L.ride r).hset (clearBatchFields (L.ride r) now) →
      even strict X L' t → Leads env strict i m Q (f ()) t) :
    Leads env strict i m Q ((endBatch r (L.ride r) b now).bind f) s := by
  simp only [endBatch, releaseDriverReservations, redis, Prog.bind_eq, Prog.bind_assoc, Prog.perform_bind,
    Prog.cmd_bind]
  have hread : ∀ t, exec env i (.hgetallResponses r) t = (t.rideResponses r, t) := fun _ => rfl
  have hg : Cmd.gentle (.hgetallResponses r) := trivial
  refine Leads.read hread hg h fun t ht => ?_
  rw [show t.rideResponses r = L.responses r from congrFun ht.responses r]
  -- the ledger after the MULTI depends on the store only through `L`
  refine Leads.perform (Cmd.lockless rfl) ht (fun t ht hasked => asked_multi hasked fun w hw => ?_) fun t ht _ => ?_
  · exact follows_timeoutWrites hasked (fun d => congrFun (congrFun ht.responses r) d) hw
  obtain ⟨L', hoff, hnotified, hride, hstand⟩ :=
    @Stand.timeout strict X L L L t L.Offers r b now ht hst
  have hfields := @hset_clearBatchFields (L.ride r) (L.ride r) now
  have hstatus : (L'.ride r).status = some .dispatching := by rw [hride, hfields.1, hst]
  have hbatch : (L'.ride r).currentBatchId = none := by rw [hride, hfields.2.2]
  have hcustomer : (L'.ride r).customerId = (L.ride r).customerId := by rw [hride, hset_customerId]
  have hclosed : L'.Closed r := Or.inr hbatch
  have hunderway : L.Underway r ↔ L'.Underway r := by
    unfold Ledger.Underway
    rw [hstatus, hst]
  have hassigned : ∀ r' d, L.Assigned r' d ↔ L'.Assigned r' d := by
    intro r' d
    rcases eq_or_ne r' r with rfl | hne
    · unfold Ledger.Assigned
      rw [hstatus, hst, hride, hfields.2.1]
    · exact (hoff.assigned hne).symm
  refine leads_releases (m := m) hstand (fun _ d _ ho => ho.not_closed hclosed) fun t ht => ?_
  refine leads_clearPending ht hclosed hoff hunderway hcustomer (fun d ha => ?_) fun t ht => ?_
  · obtain ⟨⟨b', ho, -⟩, -⟩ := ha
    exact ho.mem
  refine Leads.quiet (Stand.relabel ht hassigned (fun r' b' d hO => ?_) (fun _ => Iff.rfl) (fun _ => rfl)
    fun _ _ => id) gentle_appendTimelineEvent fun _ t ht => next L' t hoff hride ht
  obtain ⟨ho, hnot⟩ := hO
  have hne : r' ≠ r := by
    rintro rfl
    have hbb : b' = b := Option.some.inj (ho.batch.symm.trans hb)
    exact hnot ⟨rfl, hbb, ho.mem⟩
  exact hoff.offers hne ho

/-- The release of the driver of ride `r`, whose batch is closed. -/
theorem leads_releaseDriverAvailability {f : Unit → App α} (h : stand strict X L L₁ O L₃ s)
    (hclosed : L.Closed r) (hon : L₁.Assigned r d)
    (hd : ∀ r', L'.Assigned r' d ↔ L₁.Assigned r' d ∧ r' ≠ r)
    (hother : ∀ d', d' ≠ d → ∀ r', L₁.Assigned r' d' ↔ L'.Assigned r' d')
    (next : ∀ t, stand strict X L L' O L₃ t → Leads env strict i m Q (f ()) t) :
    Leads env strict i m Q ((releaseDriverAvailability (some d) r now).bind f) s := by
  simp only [releaseDriverAvailability, redis, Prog.bind_eq, Prog.perform_bind, Prog.cmd_bind]
  have hhash : Cmd.gentle (.hgetallDriver d) := trivial
  have hactive : Cmd.gentle (.getDriverActiveRide d) := trivial
  have hheartbeat : Cmd.gentle (.existsHeartbeat d) := trivial
  have hsame : ∀ {s t : Store}, Still s t → t.driverActiveRide d = s.driverActiveRide d :=
    fun hst => congrFun hst.driverActive d
  refine Leads.cmd (Cmd.lockless rfl) trivial h fun t ht _ => ?_
  generalize (exec env i (.hgetallDriver d) t).1 = hash
  have ht : stand strict X L L₁ O L₃ (exec env i (.hgetallDriver d) t).2 := ht
  refine Leads.cmd (Cmd.lockless rfl) trivial ht fun t ht _ => ?_
  generalize hvalue : (exec env i (.getDriverActiveRide d) t).1 = active
  have hnow : (stand strict X L L₁ O L₃).reading (fun s => s.driverActiveRide d) hsame active
      (exec env i (.getDriverActiveRide d) t).2 := ⟨ht, hvalue⟩
  refine Leads.cmd (Cmd.lockless rfl) trivial hnow fun t ht _ => ?_
  generalize (exec env i (.existsHeartbeat d) t).1 = heartbeatExists
  have ht : (stand strict X L L₁ O L₃).reading (fun s => s.driverActiveRide d) hsame active
      (exec env i (.existsHeartbeat d) t).2 := ht
  refine Leads.writes ht (fun w hw => (releaseWrites_peripheral w hw).offstage) (fun t ht _ => ?_) next
  obtain ⟨hstand, hread⟩ := ht
  have hrelease := @Stand.releaseDriver strict X L L' L₁ L₃ t O r d now hash heartbeatExists hstand hclosed
    hon hd hother
  rw [show t.driverActiveRide d = active from hread] at hrelease
  exact hrelease

/-- The cleanup of a ride that is over: `L` is the ledger before its end. -/
theorem leads_cleanup {f : Unit → App α} (h : stand strict X L' L L.Offers L s)
    (hoff : Ledger.EqOff r L L') (hover : (L'.ride r).terminal)
    (hcustomer : (L'.ride r).customerId = (L.ride r).customerId) (hnotified : L'.notified r = L.notified r)
    (hbatch : ∀ b d, L.Offers r b d →
      (L'.ride r).currentBatchId = some b ∧ d ∈ (L'.ride r).currentBatchDrivers)
    (hdriver : ∀ d, L.Assigned r d ↔ (L'.ride r).driverId = some d)
    (next : ∀ t, even strict X L' t → Leads env strict i m Q (f ()) t) :
    Leads env strict i m Q ((cleanupTerminalRideKeys r (L'.ride r) now).bind f) s := by
  have hunder : ¬ L'.Underway r := by
    unfold Ledger.Underway
    rcases hover with hst | hst <;> (rw [hst]; simp [RideStatus.terminal])
  have hclosed : L'.Closed r := by
    refine Or.inl ?_
    rcases hover with hst | hst <;> (rw [hst]; decide)
  have hfree : ∀ d, ¬ L'.Assigned r d := by
    rintro d ⟨-, hlive⟩
    rcases hover with hst | hst <;> (rw [hst] at hlive; cases hlive)
  simp only [cleanupTerminalRideKeys, redis, Prog.bind_eq, Prog.bind_assoc, Prog.perform_bind, Prog.cmd_bind]
  have hread : ∀ t, exec env i (.smembersNotified r) t = (t.rideNotifiedDrivers r, t) := fun _ => rfl
  have hg : Cmd.gentle (.smembersNotified r) := trivial
  refine Leads.read hread hg h fun t ht => ?_
  rw [show t.rideNotifiedDrivers r = L'.notified r from congrFun ht.notified r]
  have hsame : ∀ {s t : Store}, Still s t → t.customerActiveRide (L'.ride r).customerId =
      s.customerActiveRide (L'.ride r).customerId := fun hst => congrFun hst.customer _
  refine Leads.cmd (Cmd.lockless rfl) trivial ht fun t ht _ => ?_
  generalize hvalue : (exec env i (.getCustomerActiveRide (L'.ride r).customerId) t).1 = current
  have ht : (stand strict X L' L L.Offers L).reading
      (fun s => s.customerActiveRide (L'.ride r).customerId) hsame current
      (exec env i (.getCustomerActiveRide (L'.ride r).customerId) t).2 := ⟨ht, hvalue⟩
  have hclean : ∀ t, (stand strict X L' L L.Offers L).reading
      (fun s => s.customerActiveRide (L'.ride r).customerId) hsame current t →
      stand strict X L' L L.Offers L'
        (t.multi (cleanupWrites r (L'.ride r).customerId (L'.notified r) current)) := by
    rintro t ⟨hstand, hread⟩
    have hcleanup := Stand.cleanup hstand hoff hunder hclosed hcustomer hnotified
    rw [show t.customerActiveRide (L'.ride r).customerId = current from hread] at hcleanup
    exact hcleanup
  refine Leads.writes ht cleanupWrites_offstage (fun t ht _ => hclean t ht) fun t ht => ?_
  -- the reservations of the batch the ride had, if any
  have hreservations : ∀ {f : Unit → App α}, (∀ t, stand strict X L' L L'.Offers L' t →
      Leads env strict i m Q (f ()) t) →
      Leads env strict i m Q ((releaseBatchReservations r (L'.ride r)).bind f) t := by
    intro f hf
    have hkeep : ∀ r' b' d, L.Offers r' b' d → r' ≠ r → L'.Offers r' b' d :=
      fun r' b' d ho hne => hoff.offers hne ho
    unfold releaseBatchReservations
    cases hb : (L'.ride r).currentBatchId with
    | none =>
      refine hf t (Stand.relabel ht (fun _ _ => Iff.rfl) (fun r' b' d ho => hkeep r' b' d ho ?_)
        (fun _ => Iff.rfl) (fun _ => rfl) fun _ _ => id)
      rintro rfl
      have hsome := (hbatch b' d ho).1
      rw [hb] at hsome
      cases hsome
    | some b =>
      refine leads_releases ht (fun _ d _ ho => ho.not_closed hclosed) fun t ht => ?_
      refine hf t (Stand.relabel ht (fun _ _ => Iff.rfl) (fun r' b' d hO => ?_)
        (fun _ => Iff.rfl) (fun _ => rfl) fun _ _ => id)
      obtain ⟨ho, hnot⟩ := hO
      refine hkeep r' b' d ho ?_
      rintro rfl
      obtain ⟨hsome, hmem⟩ := hbatch b' d ho
      rw [hb] at hsome
      exact hnot ⟨rfl, (Option.some.inj hsome).symm, hmem⟩
  refine hreservations fun t ht => ?_
  unfold releaseRideDriver
  have hassigned : ∀ r' d, L'.Assigned r' d ↔ L.Assigned r' d ∧ r' ≠ r := by
    intro r' d
    rcases eq_or_ne r' r with rfl | hne
    · exact iff_of_false (hfree d) fun ha => ha.2 rfl
    · rw [hoff.assigned hne]
      exact (and_iff_left hne).symm
  cases hd : (L'.ride r).driverId with
  | none =>
    refine next t (Stand.relabel ht (fun r' d => ?_) (fun _ _ _ => id) (fun _ => Iff.rfl) (fun _ => rfl)
      fun _ _ => id)
    rw [hassigned]
    refine (and_iff_left_of_imp ?_).symm
    rintro ha rfl
    rw [hdriver, hd] at ha
    cases ha
  | some d =>
    simp only [Prog.bind_eq, Prog.bind_assoc]
    have hon : L.Assigned r d := (hdriver d).mpr hd
    refine leads_releaseDriverAvailability ht hclosed hon (fun r' => hassigned r' d) (fun d' hne r' => ?_)
      fun t ht => Leads.quiet ht gentle_enqueueDriverSync fun _ t ht => next t ht
    rw [hassigned]
    refine (and_iff_left_of_imp ?_).symm
    rintro ha rfl
    rw [hdriver, hd] at ha
    exact hne (Option.some.inj ha).symm

end YatriGo
