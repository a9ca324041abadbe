import YatriGo.Proofs.RideWrites

/-! The contract every client keeps about rides: it writes a ride only while it holds
the ride's lock, from a hash read under that lock. -/

namespace YatriGo
open Concurrent

variable {env : Env} {customers : Prop} {i j n : ℕ} {s t v : Store}

theorem SameRides.refl : SameRides s s := ⟨rfl, le_rfl, fun _ => Or.inl rfl⟩

theorem SameRides.trans (h₁ : SameRides s t) (h₂ : SameRides t v) : SameRides s v where
  ride := h₂.ride.trans h₁.ride
  seq := h₁.seq.trans h₂.seq
  pointer := fun c => by
    rcases h₂.pointer c with h | h
    · rw [h]
      exact h₁.pointer c
    · exact Or.inr h

/-- Writes to neither a ride's hash nor, but to delete it, a customer's pointer. -/
def Write.sparesRides : Write → Prop
  | .createRide .. => False
  | .hsetRide .. => False
  | .setCustomerActiveRide .. => False
  | _ => True

theorem Write.sparesRides.same {w : Write} (h : w.sparesRides) : SameRides s (w.apply s) := by
  cases w with
  | delCustomerActiveRide c =>
    refine ⟨rfl, le_rfl, fun c' => ?_⟩
    change put s.customerActiveRide c none c' = _ ∨ put s.customerActiveRide c none c' = none
    rcases eq_or_ne c' c with rfl | hne
    · exact Or.inr put_self
    · exact Or.inl (put_of_ne hne)
  | createRide r payload => exact h.elim
  | hsetRide r fields => exact h.elim
  | setCustomerActiveRide c r => exact h.elim
  | _ => exact ⟨rfl, le_rfl, fun _ => Or.inl rfl⟩

theorem multi_sameRides {ws : List Write} (h : ∀ w ∈ ws, w.sparesRides) :
    SameRides s (s.multi ws) := by
  induction ws generalizing s with
  | nil => exact SameRides.refl
  | cons w ws ih =>
    have hw : SameRides s (w.apply s) := (h w (List.mem_cons_self ..)).same
    exact hw.trans (ih fun v hv => h v (List.mem_cons_of_mem _ hv))

theorem Write.aside.sparesRides {w : Write} (h : w.aside) : w.sparesRides := by
  cases w <;> trivial

theorem Write.peripheral.sparesRides {w : Write} (h : w.peripheral) : w.sparesRides := by
  cases w <;> trivial

theorem BackgroundWrites.sparesRides {ws : List Write} (h : BackgroundWrites env ws) :
    ∀ w ∈ ws, w.sparesRides := fun w hw => (h.peripheral w hw).sparesRides

theorem cleanupWrites_sparesRides {r : RideId} {c : CustomerId} {ds : List DriverId}
    {current : Option RideId} : ∀ w ∈ cleanupWrites r c ds current, w.sparesRides := by
  intro w hw
  simp only [cleanupWrites] at hw
  cases w <;> first | trivial | (exfalso; revert hw; split_ifs <;> simp)

theorem releaseWrites_sparesRides {d : DriverId} {r : RideId} {hash : DriverHash}
    {active : Option RideId} {heartbeatExists : Bool} {now : Time} :
    ∀ w ∈ releaseWrites d r hash active heartbeatExists now, w.sparesRides :=
  fun w hw => (releaseWrites_peripheral w hw).sparesRides

theorem SameKeys.refl : SameKeys s s := ⟨le_rfl, rfl, rfl, rfl, rfl, rfl, rfl, rfl, rfl, rfl, rfl⟩

theorem SameKeys.trans (h₁ : SameKeys s t) (h₂ : SameKeys t v) : SameKeys s v where
  seq := h₁.seq.trans h₂.seq
  ride := h₂.ride.trans h₁.ride
  notified := h₂.notified.trans h₁.notified
  responses := h₂.responses.trans h₁.responses
  active := h₂.active.trans h₁.active
  driverHash := h₂.driverHash.trans h₁.driverHash
  driverActive := h₂.driverActive.trans h₁.driverActive
  pending := h₂.pending.trans h₁.pending
  driverSet := h₂.driverSet.trans h₁.driverSet
  geo := h₂.geo.trans h₁.geo
  customer := h₂.customer.trans h₁.customer

theorem SameKeys.sameRides (h : SameKeys s t) : SameRides s t :=
  ⟨h.ride, h.seq, fun c => Or.inl (congrFun h.customer c)⟩

theorem exec_sameRides {β : Type} {c : Cmd β} (h : c.single) : SameRides s (exec env i c s).2 :=
  (exec_sameKeys h).sameRides

theorem SameRides.rely (h : SameRides s t) (hl : LeasesStay customers j s t) :
    RideRely customers j s t where
  leases := hl
  seq := h.seq
  mine := fun r _ hr => by rw [h.ride]; exact hr
  exist := fun r hr => by rw [h.ride]; exact ⟨hr, rfl⟩
  terminal := fun r _ => by rw [h.ride]
  locked := fun r _ => by rw [h.ride]; exact .same
  pointer := fun _ c _ => h.pointer c

theorem SameRides.inv (h : SameRides s t) (hs : RideInv customers n s) (hl : Leases customers n t) :
    RideInv customers n t where
  leases := hl
  ids := fun r hr => by
    rw [h.ride] at hr
    exact ⟨(hs.ids r hr).1, (hs.ids r hr).2.trans_le h.seq⟩
  pointers := fun c r hc => by
    rcases h.pointer c with h' | h'
    · rw [h'] at hc
      rw [h.ride]
      exact hs.pointers c r hc
    · rw [h'] at hc
      cases hc

theorem RideRely.refl : RideRely customers i s s := SameRides.refl.rely LeasesStay.refl

theorem Holds.stay {key : LockKey} (h : Holds i key s) (hl : LeasesStay customers i s t)
    (hk : keeps customers key) : Holds i key t := by
  obtain ⟨lease, hlease, ho⟩ := h
  exact ⟨lease, (hl key lease hk ho).mp hlease, ho⟩

theorem Holds.unique {key : LockKey} (h : Holds i key s) (h' : Holds j key s) : i = j := by
  obtain ⟨lease, hlease, ho⟩ := h
  obtain ⟨lease', hlease', ho'⟩ := h'
  rw [hlease] at hlease'
  cases hlease'
  exact ho.unique ho'

theorem RideRely.trans (h₁ : RideRely customers i s t) (h₂ : RideRely customers i t v) :
    RideRely customers i s v where
  leases := h₁.leases.trans h₂.leases
  seq := h₁.seq.trans h₂.seq
  mine := fun r hm hr => h₂.mine r hm (h₁.mine r hm hr)
  exist := fun r hr => by
    obtain ⟨ht, hc⟩ := h₁.exist r hr
    obtain ⟨hv, hc'⟩ := h₂.exist r ht
    exact ⟨hv, hc'.trans hc⟩
  terminal := fun r hr => by
    have ht : t.ride r = s.ride r := h₁.terminal r hr
    rw [h₂.terminal r (by rw [ht]; exact hr), ht]
  locked := fun r hr =>
    (h₁.locked r hr).trans (h₂.locked r (hr.stay h₁.leases trivial))
  pointer := fun hc c hl => by
    rcases h₂.pointer hc c (hl.stay h₁.leases hc) with h | h
    · rw [h]
      exact h₁.pointer hc c hl
    · exact Or.inr h

/-- A MULTI that updates the hash of `r`, seen from all other rides and from customers. -/
theorem multi_update {pre post : List Write} {r : RideId} {fields : List RideField}
    (h : ∀ w ∈ pre ++ post, w.aside) :
    (s.multi (pre ++ .hsetRide r fields :: post)).ride =
      put s.ride r ((s.ride r).hset fields) ∧
    (s.multi (pre ++ .hsetRide r fields :: post)).nextSeq = s.nextSeq ∧
    ∀ c, (s.multi (pre ++ .hsetRide r fields :: post)).customerActiveRide c =
        s.customerActiveRide c ∨
      (s.multi (pre ++ .hsetRide r fields :: post)).customerActiveRide c = none := by
  have hpre : SameRides s (s.multi pre) := multi_sameRides fun w hw =>
    (h w (List.mem_append_left _ hw)).sparesRides
  have hpost := fun u : Store => multi_sameRides (s := u) fun w hw =>
    (h w (List.mem_append_right _ hw)).sparesRides
  refine ⟨?_, multi_nextSeq, fun c => ?_⟩
  · rw [multi_append, multi_cons, (hpost _).ride]
    change put _ r _ = _
    rw [hpre.ride]
  · rw [multi_append, multi_cons]
    rcases (hpost (Write.apply (s.multi pre) (.hsetRide r fields))).pointer c with hc | hc
    · rw [hc]
      exact hpre.pointer c
    · exact Or.inr hc

section Update

variable {ws : List Write}

theorem update_rely (h : Update env customers i ws s) (hij : i ≠ j) :
    RideRely customers j s (s.multi ws) := by
  have hlocks : LeasesStay customers j s (s.multi ws) :=
    .of_locks fun k hk => multi_locks (keeps_mutex hk)
  cases h with
  | background h => exact (multi_sameRides h.sparesRides).rely hlocks
  | cleanup r ds current holds terminal =>
    exact (multi_sameRides cleanupWrites_sparesRides).rely hlocks
  | release d r hash active heartbeatExists now holds driver =>
    exact (multi_sameRides releaseWrites_sparesRides).rely hlocks
  | create c origin destination metadata now r mine seq absent alone =>
    -- the id of the new ride was drawn by this thread, so it is no other thread's ride
    refine ⟨hlocks, le_rfl, fun r' hm hr => ?_, fun r' hr => ?_, fun r' hr => ?_, fun r' hl => ?_,
      fun hc c' hl => ?_⟩
    · have hne : r' ≠ r := fun h' => hij (by rw [← mine, ← hm, h'])
      exact (congrArg RideHash.status (put_of_ne hne)).trans hr
    · have hne : r' ≠ r := fun h' => hr (h' ▸ absent)
      change (put s.ride r _ r').status ≠ none ∧ (put s.ride r _ r').customerId = _
      rw [put_of_ne hne]
      exact ⟨hr, rfl⟩
    · have hne : r' ≠ r := by
        rintro rfl
        rcases hr with hr | hr <;> (rw [absent] at hr; cases hr)
      exact put_of_ne hne
    · rcases eq_or_ne r' r with rfl | hne
      · exact .absent _ absent
      · change Since _ (put s.ride r _ r')
        rw [put_of_ne hne]
        exact .same
    · have hne : c' ≠ c := by
        rintro rfl
        exact hij ((alone hc).1.unique hl)
      exact Or.inl (put_of_ne hne)
  | ride pre post r g fields holds since write aside =>
    obtain ⟨hride, hseq, hpointer⟩ := @multi_update s pre post r fields aside
    have hstatus : (s.ride r).status ≠ none := since.status_ne_none write.status_ne_none
    refine ⟨hlocks, hseq.ge, fun r' hm hr => ?_, fun r' hr => ?_, fun r' hr => ?_, fun r' hl => ?_,
      fun _ c _ => hpointer c⟩
    · have hne : r' ≠ r := fun h' => hstatus (h' ▸ hr)
      rw [hride, put_of_ne hne]
      exact hr
    · rw [hride]
      rcases eq_or_ne r' r with rfl | hne
      · rw [put_self]
        exact ⟨hset_status_ne_none hr, hset_customerId⟩
      · rw [put_of_ne hne]
        exact ⟨hr, rfl⟩
    · have hne : r' ≠ r := by
        rintro rfl
        exact since.not_terminal write.status_ne_none write.not_terminal hr
      rw [hride, put_of_ne hne]
    · have hne : r' ≠ r := by
        rintro rfl
        exact hij (holds.unique hl)
      rw [hride, put_of_ne hne]
      exact .same

theorem update_inv (h : Update env customers i ws s) (hs : RideInv customers n s) (hi : i < n) :
    RideInv customers n (s.multi ws) := by
  have hlocks : Leases customers n (s.multi ws) := fun k lease hk hl => by
    rw [multi_locks (keeps_mutex hk)] at hl
    exact hs.leases k lease hk hl
  cases h with
  | background h => exact (multi_sameRides h.sparesRides).inv hs hlocks
  | cleanup r ds current holds terminal =>
    exact (multi_sameRides cleanupWrites_sparesRides).inv hs hlocks
  | release d r hash active heartbeatExists now holds driver =>
    exact (multi_sameRides releaseWrites_sparesRides).inv hs hlocks
  | create c origin destination metadata now r mine seq absent alone =>
    refine ⟨hlocks, fun r' hr => ?_, fun c' r' hc => ?_⟩
    · rcases eq_or_ne r' r with rfl | hne
      · exact ⟨mine.symm ▸ hi, seq⟩
      · change (put s.ride r _ r').status ≠ none at hr
        rw [put_of_ne hne] at hr
        exact hs.ids r' hr
    · change put s.customerActiveRide c (some r) c' = some r' at hc
      change (put s.ride r _ r').status ≠ none ∧ (put s.ride r _ r').customerId = c'
      rcases eq_or_ne c' c with rfl | hne
      · rw [put_self] at hc
        cases hc
        rw [put_self]
        exact ⟨Option.some_ne_none _, rfl⟩
      · rw [put_of_ne hne] at hc
        obtain ⟨hr, hcustomer⟩ := hs.pointers c' r' hc
        have hne' : r' ≠ r := fun h' => hr (h' ▸ absent)
        rw [put_of_ne hne']
        exact ⟨hr, hcustomer⟩
  | ride pre post r g fields holds since write aside =>
    obtain ⟨hride, hseq, hpointer⟩ := @multi_update s pre post r fields aside
    have hstatus : (s.ride r).status ≠ none := since.status_ne_none write.status_ne_none
    refine ⟨hlocks, fun r' hr => ?_, fun c r' hc => ?_⟩
    · rw [hseq]
      rw [hride] at hr
      rcases eq_or_ne r' r with rfl | hne
      · exact hs.ids r' hstatus
      · rw [put_of_ne hne] at hr
        exact hs.ids r' hr
    · rcases hpointer c with h' | h'
      · rw [h'] at hc
        obtain ⟨hr, hcustomer⟩ := hs.pointers c r' hc
        rw [hride]
        rcases eq_or_ne r' r with rfl | hne
        · rw [put_self]
          exact ⟨hset_status_ne_none hr, hset_customerId.trans hcustomer⟩
        · rw [put_of_ne hne]
          exact ⟨hr, hcustomer⟩
      · rw [h'] at hc
        cases hc

end Update

section accept

variable {r : RideId} {d : DriverId} {acceptedAt : Time} {reservation : Option Token}

/-- The accept script changes nothing, or commits on a ride that is dispatching and has
no driver. -/
theorem acceptRideScript_cases :
    ((acceptRideScript r d acceptedAt reservation s).1 < 0 ∧
      (acceptRideScript r d acceptedAt reservation s).2 = s) ∨
    ((acceptRideScript r d acceptedAt reservation s).1 = (s.ride r).version + 1 ∧
      (acceptRideScript r d acceptedAt reservation s).2 = acceptRideCommit r d acceptedAt s ∧
      acceptRideGuard r d acceptedAt reservation s = 0) := by
  have hguard : acceptRideGuard r d acceptedAt reservation s < 0 ∨
      acceptRideGuard r d acceptedAt reservation s = 0 := by
    unfold acceptRideGuard
    dsimp only
    cases (s.ride r).currentBatchId with
    | none => dsimp only; split_ifs <;> exact Or.inl (by decide)
    | some batchId =>
      dsimp only
      split_ifs <;> first | exact Or.inl (by decide) | exact Or.inr rfl
  unfold acceptRideScript
  rcases hguard with h | h
  · rw [if_pos h]
    exact Or.inl ⟨h, rfl⟩
  · rw [if_neg (by omega)]
    exact Or.inr ⟨rfl, rfl, h⟩

/-- What the guards of the accept script have checked when none of them fails. -/
theorem acceptRideGuard_eq_zero (h : acceptRideGuard r d acceptedAt reservation s = 0) :
    (s.ride r).status = some .dispatching ∧ (s.ride r).driverId = none ∧
    ∃ batchId, (s.ride r).currentBatchId = some batchId ∧
      s.rideResponses r d = some (.pending batchId) ∧ d ∈ s.rideNotifiedDrivers r ∧
      (s.driverHash d).status = some .online ∧
      (s.driverActiveRide d = none ∨ s.driverActiveRide d = some r) := by
  unfold acceptRideGuard at h
  cases hb : (s.ride r).currentBatchId with
  | none =>
    simp only [hb] at h
    split_ifs at h
  | some batchId =>
    simp only [hb] at h
    split_ifs at h with h₁ h₂ h₃ h₄ h₅ h₆ h₇ h₈
    rw [not_not] at h₂ h₃ h₆
    push Not at h₈
    refine ⟨h₂, h₃, batchId, rfl, h₆, h₅, h₈.1, ?_⟩
    by_cases ha : s.driverActiveRide d = none
    · exact Or.inl ha
    · exact Or.inr (h₈.2 ha)

theorem acceptRideScript_rely : RideRely customers j s (acceptRideScript r d acceptedAt reservation s).2 := by
  rcases @acceptRideScript_cases s r d acceptedAt reservation with ⟨-, h⟩ | ⟨-, h, hguard⟩
  · rw [h]
    exact RideRely.refl
  · rw [h]
    obtain ⟨hst, hd, -⟩ := acceptRideGuard_eq_zero hguard
    have hride : (acceptRideCommit r d acceptedAt s).ride =
      put s.ride r ((s.ride r).accept d acceptedAt) := rfl
    refine ⟨.of_locks fun k hk => put_of_ne fun h' => ?_, le_rfl, fun r' _ hr => ?_, fun r' hr => ?_,
      fun r' hr => ?_, fun r' _ => ?_, fun _ c _ => Or.inl rfl⟩
    · rw [h'] at hk
      exact hk
    · have hne : r' ≠ r := by
        rintro rfl
        rw [hst] at hr
        cases hr
      rw [hride, put_of_ne hne]
      exact hr
    · rw [hride]
      rcases eq_or_ne r' r with rfl | hne
      · rw [put_self]
        exact ⟨Option.some_ne_none _, rfl⟩
      · rw [put_of_ne hne]
        exact ⟨hr, rfl⟩
    · have hne : r' ≠ r := by
        rintro rfl
        rcases hr with hr | hr <;> (rw [hst] at hr; cases hr)
      rw [hride, put_of_ne hne]
    · rw [hride]
      rcases eq_or_ne r' r with rfl | hne
      · rw [put_self]
        exact .accepted d acceptedAt hst hd
      · rw [put_of_ne hne]
        exact .same

theorem acceptRideScript_inv (hs : RideInv customers n s) :
    RideInv customers n (acceptRideScript r d acceptedAt reservation s).2 := by
  rcases @acceptRideScript_cases s r d acceptedAt reservation with ⟨-, h⟩ | ⟨-, h, hguard⟩
  · rw [h]
    exact hs
  · obtain ⟨hst, hd, -⟩ := acceptRideGuard_eq_zero hguard
    have hexist : (s.ride r).status ≠ none := by
      rw [hst]
      exact Option.some_ne_none _
    have hrely := @acceptRideScript_rely customers 0 s r d acceptedAt reservation
    refine ⟨fun k lease hk hl => ?_, fun r' hr => ?_, fun c r' hc => ?_⟩
    · rw [acceptRideScript_locks (keeps_mutex hk)] at hl
      exact hs.leases k lease hk hl
    · rw [h] at hr ⊢
      change (put s.ride r _ r').status ≠ none at hr
      rcases eq_or_ne r' r with rfl | hne
      · exact hs.ids r' hexist
      · rw [put_of_ne hne] at hr
        exact hs.ids r' hr
    · have hc' : s.customerActiveRide c = some r' := by
        rw [h] at hc
        exact hc
      obtain ⟨hr, hcustomer⟩ := hs.pointers c r' hc'
      obtain ⟨hr', hcustomer'⟩ := hrely.exist r' hr
      exact ⟨hr', hcustomer'.trans hcustomer⟩

end accept

/-- What a client promises of each of its commands. -/
def RideGuar (env : Env) (customers : Prop) (i : ℕ) : ⦃β : Type⦄ → Cmd β → Store → Prop
  | _, .multi ws, s => Update env customers i ws s
  | _, c, _ => c.ownTokens customers i

theorem RideGuar.ownTokens {β : Type} {c : Cmd β} (h : RideGuar env customers i c s) :
    c.ownTokens customers i := by
  cases c <;> trivial

/-- The contract about rides. Customer locks are part of it when `customers` holds. -/
def rides (env : Env) (customers : Prop) : Contract (system env) where
  inv := RideInv customers
  rely := RideRely customers
  assume := fun _ _ _ _ => True
  guar := fun i _ c s => RideGuar env customers i c s
  post := Free customers
  okOp := fun _ => True
  okEnv := fun e => ∀ k, keeps customers k → e ≠ .expireLease k
  refl := fun _ _ => RideRely.refl
  trans := fun _ _ _ _ => RideRely.trans

theorem rides_step {β : Type} {c : Cmd β} (hi : i < n) (hs : RideInv customers n s)
    (h : RideGuar env customers i c s) : RideInv customers n (exec env i c s).2 := by
  cases c with
  | multi ws => exact update_inv h hs hi
  | evalAcceptRide r d acceptedAt reservation => exact acceptRideScript_inv hs
  | _ => exact (exec_sameRides (by trivial)).inv hs (leases_exec hs.leases hi h.ownTokens)

theorem rides_others {β : Type} {c : Cmd β} (hij : i ≠ j)
    (h : RideGuar env customers i c s) : RideRely customers j s (exec env i c s).2 := by
  cases c with
  | multi ws => exact update_rely h hij
  | evalAcceptRide r d acceptedAt reservation => exact acceptRideScript_rely
  | _ => exact (exec_sameRides (by trivial)).rely (leasesStay_exec h.ownTokens hij)

/-- What an event does, and when it can happen. -/
inductive Happens (s : Store) : Event → Store → Prop
  | tick (ms : ℕ) : Happens s (.tick ms) { s with clock := s.clock + ms }
  | expireHeartbeat (d : DriverId) (expiresAt : Time) (hset : s.driverHeartbeat d = some expiresAt)
      (hover : expiresAt ≤ s.clock) :
      Happens s (.expireHeartbeat d) { s with driverHeartbeat := put s.driverHeartbeat d none }
  | expireCooldown (d : DriverId) (expiresAt : Time) (hset : s.rejectCooldown d = some expiresAt)
      (hover : expiresAt ≤ s.clock) :
      Happens s (.expireCooldown d) { s with rejectCooldown := put s.rejectCooldown d none }
  | expireLease (key : LockKey) (lease : Lease) (hlease : s.locks key = some lease) (hover : lease.expiresAt ≤ s.clock) :
      Happens s (.expireLease key) { s with locks := put s.locks key none }
  | redeliver (job : JobId) (attemptsMade : ℕ) (hjob : s.jobs job = some (.active attemptsMade)) :
      Happens s (.redeliver job) { s with jobs := put s.jobs job (some (.waiting s.clock attemptsMade)) }
  | forget (job : JobId) (hjob : s.jobs job = some .completed ∨ s.jobs job = some .failed) :
      Happens s (.forget job) { s with jobs := put s.jobs job none }

theorem event_happens {e : Event} (h : e.apply s = some t) : Happens s e t := by
  cases e with
  | tick ms =>
    cases h
    exact .tick ms
  | expireHeartbeat d =>
    simp only [Event.apply] at h
    split at h
    next expiresAt hset =>
      split_ifs at h with hover
      cases h
      exact .expireHeartbeat d expiresAt hset hover
    next => cases h
  | expireCooldown d =>
    simp only [Event.apply] at h
    split at h
    next expiresAt hset =>
      split_ifs at h with hover
      cases h
      exact .expireCooldown d expiresAt hset hover
    next => cases h
  | expireLease key =>
    simp only [Event.apply] at h
    split at h
    next lease hlease =>
      split_ifs at h with hover
      cases h
      exact .expireLease key lease hlease hover
    next => cases h
  | redeliver job =>
    simp only [Event.apply] at h
    split at h
    next attemptsMade hjob =>
      cases h
      exact .redeliver job attemptsMade hjob
    next => cases h
  | forget job =>
    simp only [Event.apply] at h
    split at h
    next hjob =>
      cases h
      exact .forget job (.inl hjob)
    next hjob =>
      cases h
      exact .forget job (.inr hjob)
    next => cases h

theorem event_sameKeys {e : Event} (h : e.apply s = some t) : SameKeys s t := by
  cases event_happens h <;> exact ⟨le_rfl, rfl, rfl, rfl, rfl, rfl, rfl, rfl, rfl, rfl, rfl⟩

theorem next_cases {p q : State} {a : Step} (h : (system env).next p a = some q) : SameKeys p.store q.store ∨
    ∃ (i : ℕ) (op : Op) (β : Type) (c : Cmd β) (k : β → App Unit), a = .step i ∧ p.threads[i]? = some (op, .cmd c k) ∧
      q.store = (exec env i c p.store).2 := by
  cases a with
  | call op =>
    cases h
    exact .inl SameKeys.refl
  | env e =>
    obtain ⟨t, ht, rfl⟩ := Option.map_eq_some_iff.mp h
    exact .inl (event_sameKeys ht)
  | step i =>
    obtain ⟨op, β, c, k, hi, hstore, -⟩ := System.next_step h
    exact .inr ⟨i, op, β, c, k, rfl, hi, hstore⟩

theorem event_sameRides {e : Event} (h : e.apply s = some t) : SameRides s t :=
  (event_sameKeys h).sameRides

theorem event_locks {e : Event} {k : LockKey} (h : e.apply s = some t) (hk : e ≠ .expireLease k) :
    t.locks k = s.locks k := by
  cases event_happens h with
  | expireLease key lease hlease hover =>
    apply put_of_ne
    rintro rfl
    exact hk rfl
  | _ => rfl

end YatriGo
