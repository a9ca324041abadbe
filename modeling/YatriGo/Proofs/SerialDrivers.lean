import YatriGo.Proofs.SerialTransitions

/-! The driver operations run alone. A driver that goes offline has its offers withdrawn
one after the other. -/

namespace YatriGo
open Concurrent

variable {env : Env} {strict : Prop} {i : ℕ} {m : Around} {α β : Type}
  {Q : Except AppError α → Assertion} {A : Assertion} {X Y : DriverId → RideId → Prop} {L : Ledger}
  {s t : Store} {r : RideId} {d : DriverId} {hash : DriverHash} {active : Option RideId}
  {on : RideId → Prop} {lat lng : Option ℚ} {socketId : Option SocketId} {reason : Response}
  {offers : List (DriverId × RideId)}

/-- The hash and the active ride of driver `d` are as they were read. -/
def Assertion.driver (A : Assertion) (d : DriverId) (hash : DriverHash) (active : Option RideId) :
    Assertion where
  holds := fun s => A s ∧ s.driverHash d = hash ∧ s.driverActiveRide d = active
  steady := fun hst h => ⟨A.steady hst h.1, (congrFun hst.driverHash d).trans h.2.1,
    (congrFun hst.driverActive d).trans h.2.2⟩

theorem leads_getDriverState {f : Option DriverState → App α} (h : A.driver d hash active s)
    (next : ∀ t, A.driver d hash active t → Leads env strict i m Q (f (toDriverSnapshot hash)) t) :
    Leads env strict i m Q ((getDriverState d).bind f) s := by
  have hread : ∀ t, exec env i (.hgetallDriver d) t = (t.driverHash d, t) := fun _ => rfl
  have hg : Cmd.gentle (.hgetallDriver d) := trivial
  simp only [getDriverState, redis, Prog.bind_eq, Prog.perform_bind, Prog.cmd_bind]
  refine Leads.read hread hg h fun t ht => ?_
  rw [ht.2.1]
  exact next t ht

theorem leads_getDriverActiveRide {f : Option RideId → App α} (h : A.driver d hash active s)
    (next : ∀ t, A.driver d hash active t → Leads env strict i m Q (f active) t) :
    Leads env strict i m Q (.cmd (.getDriverActiveRide d) f) s := by
  have hread : ∀ t, exec env i (.getDriverActiveRide d) t = (t.driverActiveRide d, t) := fun _ => rfl
  have hg : Cmd.gentle (.getDriverActiveRide d) := trivial
  refine Leads.read hread hg h fun t ht => ?_
  rw [ht.2.2]
  exact next t ht

theorem orElse_snapshot (h : hash.activeRideId = active) :
    (active <|> (toDriverSnapshot hash).bind DriverState.activeRideId) = active := by
  cases active with
  | some r => rfl
  | none =>
    unfold toDriverSnapshot
    cases hash.status with
    | none => rfl
    | some status => exact h

theorem Fit.present {k : DriverKeys} {status : DriverStatus} (h : Fit on k) (hst : k.status = some status)
    (hne : status ≠ .offline) : status = if k.activeRide = none then .online else .busy := by
  cases status with
  | offline => exact absurd rfl hne
  | online => rw [if_pos (h.online hst)]
  | busy => rw [if_neg (h.onRide hst)]

theorem leads_persist {state : DriverState} {f : Unit → App α}
    (h : (even strict X L).driver d hash active s) (hride : state.activeRideId = active)
    (hstatus : state.status = if active = none then .online else .busy)
    (next : ∀ t, even strict X L t → Leads env strict i m Q (f ()) t) :
    Leads env strict i m Q ((persistDriverRealtimeState env d state).bind f) s := by
  have hpersist : ∀ t, (even strict X L).driver d hash active t →
      even strict X L (t.multi (persistWrites env d state)) := by
    rintro t ⟨ht, -, hactive⟩
    refine Stand.persist ht ?_ ?_
    · rw [hactive, hride]
    · rw [hactive, hstatus]
  simp only [persistDriverRealtimeState, redis, Prog.perform_bind]
  have hoffstage : ∀ w ∈ persistWrites env d state, w.offstage :=
    fun w hw => ((@BackgroundWrites.persist env d state).peripheral w hw).offstage
  exact Leads.writes h hoffstage (fun t ht _ => hpersist t ht) next

theorem leads_goOnline (h : settled strict X s) :
    Leads env strict i unlocked (fun _ => settled strict X) (goOnline env d lat lng socketId) s := by
  obtain ⟨L, h⟩ := h
  have hmutex : (LockKey.driver d).mutex := trivial
  have hreserves : ¬ (LockKey.driver d).reserves := id
  have hread : (even strict X L).driver d (s.driverHash d) (s.driverActiveRide d) s := ⟨h, rfl, rfl⟩
  have hfit := h.pools.fit d
  have hsame : (s.driverHash d).activeRideId = s.driverActiveRide d := hfit.hash
  simp only [goOnline, redis, Prog.bind_eq, Prog.perform_bind]
  refine Leads.withRetryLock (R := fun _ => settled strict X) hmutex hreserves hread (fun m t ht => ?_)
    (fun result t ht => ?_) fun e t ht => ht
  · refine leads_getDriverState ht fun t ht => ?_
    refine leads_getDriverActiveRide ht fun t ht => ?_
    refine Leads.now ht fun t ht => ?_
    rw [orElse_snapshot hsame]
    exact leads_persist ht rfl rfl fun t ht => Leads.ret ⟨L, ht⟩
  · refine Leads.cmd (Cmd.lockless rfl) trivial ht fun t ht _ => ?_
    generalize (exec env i (.existsDriver d) t).1 = driverExists
    have ht : settled strict X (exec env i (.existsDriver d) t).2 := ht
    split_ifs
    · exact Leads.throw ht
    · refine Leads.quiet ht gentle_enqueueDriverSync fun _ t ht => ?_
      refine Leads.quiet ht gentle_publish fun _ t ht => ?_
      exact Leads.ret ht

/-- `heartbeat` and `restoreDriverSession` write back what they read, unless the driver is
OFFLINE. -/
theorem leads_refresh {state existing : DriverState} {f : Unit → App α}
    (h : (even strict X L).driver d hash active s) (hexisting : toDriverSnapshot hash = some existing)
    (honline : existing.status ≠ .offline) (hstatus : state.status = existing.status)
    (hride : state.activeRideId = existing.activeRideId)
    (next : ∀ t, even strict X L t → Leads env strict i m Q (f ()) t) :
    Leads env strict i m Q ((persistDriverRealtimeState env d state).bind f) s := by
  obtain ⟨hstand, rfl, rfl⟩ := h
  have hfit := hstand.pools.fit d
  have hhash : (s.driverHash d).status = some existing.status ∧
      existing.activeRideId = (s.driverHash d).activeRideId := by
    unfold toDriverSnapshot at hexisting
    cases hst : (s.driverHash d).status with
    | none =>
      rw [hst] at hexisting
      cases hexisting
    | some status =>
      rw [hst] at hexisting
      obtain rfl := Option.some.inj hexisting
      exact ⟨rfl, rfl⟩
  refine leads_persist ⟨hstand, rfl, rfl⟩ ?_ ?_ next
  · rw [hride, hhash.2]
    exact hfit.hash
  · rw [hstatus]
    exact hfit.present hhash.1 honline

theorem leads_heartbeat (h : settled strict X s) :
    Leads env strict i unlocked (fun _ => settled strict X) (heartbeat env d lat lng socketId) s := by
  obtain ⟨L, h⟩ := h
  have hmutex : (LockKey.driver d).mutex := trivial
  have hreserves : ¬ (LockKey.driver d).reserves := id
  have hread : (even strict X L).driver d (s.driverHash d) (s.driverActiveRide d) s := ⟨h, rfl, rfl⟩
  simp only [heartbeat, redis, Prog.bind_eq, Prog.perform_bind]
  refine Leads.withRetryLock (R := fun _ => settled strict X) hmutex hreserves hread (fun m t ht => ?_)
    (fun result t ht => ?_) fun e t ht => ht
  · refine leads_getDriverState ht fun t ht => ?_
    cases hexisting : toDriverSnapshot (s.driverHash d) with
    | none => exact Leads.throw ⟨L, ht.1⟩
    | some existing =>
      dsimp only
      split_ifs with honline
      · exact Leads.ret ⟨L, ht.1⟩
      · refine Leads.now ht fun t ht => ?_
        exact leads_refresh ht hexisting honline rfl rfl fun t ht => Leads.ret ⟨L, ht⟩
  · exact Leads.quiet ht gentle_enqueueDriverSync fun _ t ht => Leads.ret ht

theorem leads_restoreDriverSession (h : settled strict X s) :
    Leads env strict i unlocked (fun _ => settled strict X) (restoreDriverSession env d socketId) s := by
  obtain ⟨L, h⟩ := h
  have hmutex : (LockKey.driver d).mutex := trivial
  have hreserves : ¬ (LockKey.driver d).reserves := id
  have hread : (even strict X L).driver d (s.driverHash d) (s.driverActiveRide d) s := ⟨h, rfl, rfl⟩
  simp only [restoreDriverSession, redis, Prog.bind_eq, Prog.perform_bind]
  refine Leads.withLock (R := fun _ => settled strict X) hmutex hreserves hread (fun m t ht => ?_)
    (fun result t ht => ?_) fun e t ht => ht
  · refine leads_getDriverState ht fun t ht => ?_
    cases hexisting : toDriverSnapshot (s.driverHash d) with
    | none => exact Leads.ret ⟨L, ht.1⟩
    | some existing =>
      dsimp only
      split_ifs with honline
      · exact Leads.ret ⟨L, ht.1⟩
      · refine Leads.now ht fun t ht => ?_
        exact leads_refresh ht hexisting honline rfl rfl fun t ht => Leads.ret ⟨L, ht⟩
  · cases result with
    | none => exact Leads.ret ht
    | some result => exact Leads.quiet ht gentle_enqueueDriverSync fun _ t ht => Leads.ret ht

def OfflineImpact.withdrawn (impact : OfflineImpact) : List (DriverId × RideId) :=
  impact.pendingRideIds.map fun r => (impact.driverId, r)

/-- The end of `goOffline`: the offers of the driver are being withdrawn, too. -/
def departed (strict : Prop) (d : DriverId) (offers : List (DriverId × RideId)) :
    Except AppError OfflineImpact → Assertion
  | .ok impact => (settled strict (withdrawing (impact.withdrawn ++ offers))).with
      (impact.driverId = d ∧ impact.pendingRideIds.Nodup)
  | .error _ => never

theorem withdrawing_offline {rs : List RideId} :
    (fun d' r => withdrawing offers d' r ∨ d' = d ∧ r ∈ rs) =
      withdrawing (rs.map (fun r => (d, r)) ++ offers) := by
  funext d' r
  refine propext ?_
  simp only [withdrawing, List.mem_append, List.mem_map, Prod.mk.injEq]
  constructor
  · rintro (ho | ⟨rfl, hr⟩)
    · exact Or.inr ho
    · exact Or.inl ⟨r, hr, rfl, rfl⟩
  · rintro (⟨r', hr, rfl, rfl⟩ | ho)
    · exact Or.inr ⟨rfl, hr⟩
    · exact Or.inl ho

theorem leads_goOffline (h : settled strict (withdrawing offers) s) :
    Leads env strict i unlocked (departed strict d offers) (goOffline env d) s := by
  obtain ⟨L, h⟩ := h
  have hmutex : (LockKey.driver d).mutex := trivial
  have hreserves : ¬ (LockKey.driver d).reserves := id
  have hpending : ∀ {s t : Store}, Still s t → t.driverPendingDispatches d = s.driverPendingDispatches d :=
    fun hst => congrFun hst.pending d
  have hread : (even strict (withdrawing offers) L).driver d (s.driverHash d) (s.driverActiveRide d) s :=
    ⟨h, rfl, rfl⟩
  have hsame : (s.driverHash d).activeRideId = s.driverActiveRide d := (h.pools.fit d).hash
  simp only [goOffline, redis, Prog.bind_eq, Prog.perform_bind]
  refine Leads.withLock (R := departed strict d offers) hmutex hreserves hread (fun m t ht => ?_)
    (fun impact t ht => ?_) fun e t ht => ht
  · refine leads_getDriverState ht fun t ht => ?_
    refine Leads.cmd (Cmd.lockless rfl) trivial ht fun t ht _ => ?_
    refine Leads.within fun hm => ?_
    -- the pending rides as read; they are the same until the MULTI, in which they are withdrawn
    generalize hrs : (exec env i (.smembersPending d) t).1 = rs
    have hnodup : rs.Nodup := by
      rw [← hrs]
      exact hm.sets.pending d
    have ht : ((even strict (withdrawing offers) L).reading (fun s => s.driverPendingDispatches d) hpending
        rs).driver d (s.driverHash d) (s.driverActiveRide d) (exec env i (.smembersPending d) t).2 :=
      ⟨⟨ht.1, hrs⟩, ht.2⟩
    refine leads_getDriverActiveRide ht fun t ht => ?_
    refine Leads.now ht fun t ht => ?_
    rw [orElse_snapshot hsame]
    generalize toDriverSnapshot (s.driverHash d) = existing
    generalize t.clock = now
    have hoffline : ∀ t, ((even strict (withdrawing offers) L).reading
        (fun s => s.driverPendingDispatches d) hpending rs).driver d (s.driverHash d)
        (s.driverActiveRide d) t → settled strict (withdrawing (rs.map (fun r => (d, r)) ++ offers))
        (t.multi (offlineWrites d existing (s.driverActiveRide d) now)) := by
      rintro t ⟨⟨hstand, hmem⟩, -, hactive⟩
      have hoff := @Stand.offline _ _ _ _ _ _ d now existing hstand
      rw [show t.driverPendingDispatches d = rs from hmem, hactive, withdrawing_offline] at hoff
      exact ⟨L, hoff⟩
    have hoffstage : ∀ w ∈ offlineWrites d existing (s.driverActiveRide d) now, w.offstage :=
      fun w hw => ((@BackgroundWrites.offline env d existing _ now).peripheral w hw).offstage
    refine Leads.writes ht hoffstage (fun t ht _ => hoffline t ht) fun t ht => ?_
    refine Leads.quiet ht gentle_publish fun _ t ht => ?_
    exact Leads.ret ⟨ht, rfl, hnodup⟩
  · refine Leads.now ht fun t ht => ?_
    exact Leads.quiet ht gentle_enqueueDriverSync fun _ t ht => Leads.ret ht

section drop

variable {rs : List RideId} {activeRideId : Option RideId} {p : DriverId × RideId}

theorem settled_idle (hx : ¬ strict) (h : settled strict X s) : settled strict Y s := by
  obtain ⟨L, h⟩ := h
  exact ⟨L, h.ledger, h.sane, h.pools, h.reserved, h.listed, fun hs => absurd hs hx⟩

theorem without_withdrawing (h : (p :: offers).Nodup) :
    without (withdrawing (p :: offers)) p.1 p.2 = withdrawing offers := by
  obtain ⟨hp, -⟩ := List.nodup_cons.mp h
  funext d r
  refine propext ?_
  simp only [without, withdrawing, List.mem_cons]
  constructor
  · rintro ⟨heq | hmem, hne⟩
    · rw [← heq] at hne
      exact absurd ⟨rfl, rfl⟩ hne
    · exact hmem
  · intro hmem
    refine ⟨Or.inr hmem, ?_⟩
    rintro ⟨rfl, rfl⟩
    exact hp hmem

/-- The end of `handleDriverDrop`. It cannot fail when live offers are followed. -/
def dropped (strict : Prop) (offers : List (DriverId × RideId)) : Except AppError Unit → Assertion
  | .ok _ => settled strict (withdrawing offers)
  | .error _ => settled strict noOffer

theorem gentle_emitDriverConnectionLost {c : CustomerId} {now : Time} :
    Gentle (emitDriverConnectionLost c r d now) := gentle_publish

theorem leads_handleDriverDrop (httl : strict → env.dispatch.responseTtlMs ≤ env.dispatch.reservationTtlMs)
    (h : settled strict (withdrawing (rs.map (fun r => (d, r)) ++ offers)) s)
    (hnodup : (rs.map (fun r => (d, r)) ++ offers).Nodup) :
    Leads env strict i unlocked (dropped strict offers) (handleDriverDrop env d activeRideId rs reason) s := by
  simp only [handleDriverDrop, redis, Prog.bind_eq, Prog.perform_bind]
  have hturn : ∀ r rs t, (settled strict (withdrawing ((r :: rs).map (fun r => (d, r)) ++ offers))).with
      ((r :: rs).map (fun r => (d, r)) ++ offers).Nodup t → ∀ f : Unit → App Unit,
      (∀ u, (settled strict (withdrawing (rs.map (fun r => (d, r)) ++ offers))).with
        (rs.map (fun r => (d, r)) ++ offers).Nodup u →
        Leads env strict i unlocked (dropped strict offers) (f ()) u) →
      Leads env strict i unlocked (dropped strict offers)
        (((markDriverUnavailableDuringDispatch env r d reason).bind fun _ => pure ()).bind f) t := by
    rintro r rs t ⟨ht, hnodup⟩ f hf
    have hlisted : strict → strict ∧ withdrawing ((r :: rs).map (fun r => (d, r)) ++ offers) d r :=
      fun hx => ⟨hx, List.mem_append_left _ List.mem_cons_self⟩
    rw [Prog.bind_assoc]
    refine Leads.seq (leads_handleDriverRejection httl ht hlisted) (fun ride u hu => ?_) fun e u hu => ?_
    · refine hf u ⟨?_, (List.nodup_cons.mp hnodup).2⟩
      have hrest : without (withdrawing ((r :: rs).map (fun r => (d, r)) ++ offers)) d r =
          withdrawing (rs.map (fun r => (d, r)) ++ offers) := without_withdrawing hnodup
      rw [← hrest]
      exact hu
    · exact settled_idle hu.2 hu.1
  refine Leads.seq (R := dropped strict offers) ?_ (fun _ t ht => ?_) fun e t ht => ht
  · exact Leads.forEach (A := fun rs => (settled strict (withdrawing (rs.map (fun r => (d, r)) ++ offers))).with
      (rs.map (fun r => (d, r)) ++ offers).Nodup) hturn (fun t ht => ht.1) rs ⟨h, hnodup⟩
  -- the customer of an ongoing ride is told
  · cases activeRideId with
    | none => exact Leads.ret ht
    | some activeRideId =>
      refine Leads.quiet ht gentle_getRide fun ride t ht => ?_
      cases ride with
      | none => exact Leads.ret ht
      | some ride =>
        dsimp only
        split_ifs
        · refine Leads.now ht fun t ht => ?_
          exact Leads.rest ht gentle_emitDriverConnectionLost fun _ t ht => ht
        · exact Leads.ret ht

theorem leads_goOfflineAndDrop (httl : strict → env.dispatch.responseTtlMs ≤ env.dispatch.reservationTtlMs)
    (h : settled strict noOffer s) :
    Leads env strict i unlocked (fun _ => settled strict noOffer) (goOfflineAndDrop env d reason) s := by
  simp only [goOfflineAndDrop, Prog.bind_eq]
  refine Leads.seq (leads_goOffline h) (fun impact t ht => ?_) fun e t ht => ht.elim
  obtain ⟨ht, -, hnodup⟩ := ht
  have hpairs : (impact.pendingRideIds.map (fun r => (impact.driverId, r)) ++ []).Nodup := by
    rw [List.append_nil]
    exact hnodup.map fun _ _ heq => (Prod.mk.inj heq).2
  refine (leads_handleDriverDrop httl ht hpairs).mono fun result u hu => ?_
  cases result with
  | ok _ => exact hu
  | error e => exact hu

end drop

section scan

variable {ds : List DriverId} {impacts : List OfflineImpact}

theorem withdrawing_perm {offers' : List (DriverId × RideId)} (h : offers.Perm offers') :
    withdrawing offers = withdrawing offers' := by
  funext d r
  exact propext h.mem_iff

theorem leads_scanStaleDriversLoop {f : List OfflineImpact → App α}
    (h : settled strict (withdrawing offers) s) (hoffers : offers.Nodup) (hds : ds.Nodup)
    (hnew : ∀ d ∈ ds, ∀ r, (d, r) ∉ offers)
    (next : ∀ impacts t, (impacts.flatMap OfflineImpact.withdrawn ++ offers).Nodup →
      settled strict (withdrawing (impacts.flatMap OfflineImpact.withdrawn ++ offers)) t →
      Leads env strict i unlocked Q (f impacts) t) :
    Leads env strict i unlocked Q ((scanStaleDriversLoop env ds).bind f) s := by
  induction ds generalizing offers s f with
  | nil => exact next [] s hoffers h
  | cons d ds ih =>
    obtain ⟨hd, hrest⟩ := List.nodup_cons.mp hds
    have hlater : ∀ d' ∈ ds, ∀ r, (d', r) ∉ offers := fun d' hd' => hnew d' (List.mem_cons_of_mem _ hd')
    simp only [scanStaleDriversLoop, redis, Prog.bind_eq, Prog.perform_bind, Prog.cmd_bind]
    refine Leads.cmd (Cmd.lockless rfl) trivial h fun t ht _ => ?_
    generalize (exec env i (.existsHeartbeat d) t).1 = heartbeatExists
    have ht : settled strict (withdrawing offers) (exec env i (.existsHeartbeat d) t).2 := ht
    cases heartbeatExists with
    | true => exact ih ht hoffers hrest hlater next
    | false =>
      simp only [Bool.false_eq_true, if_false, Prog.bind_assoc, Prog.cmd_bind]
      refine Leads.seq (leads_goOffline ht) (fun impact t ht => ?_) fun e t ht => ht.elim
      obtain ⟨ht, himpact, hnodup⟩ := ht
      have hdoc : Cmd.gentle (.updateDriverDocStatus d .offline) := trivial
      -- what is withdrawn with this driver is new: the drivers of the loop differ
      have hpairs : (impact.withdrawn ++ offers).Nodup := by
        refine List.nodup_append.mpr ⟨hnodup.map fun _ _ heq => (Prod.mk.inj heq).2, hoffers, ?_⟩
        rintro p hp q hq rfl
        obtain ⟨r, -, rfl⟩ := List.mem_map.mp hp
        rw [himpact] at hq
        exact hnew d List.mem_cons_self r hq
      have hothers : ∀ d' ∈ ds, ∀ r, (d', r) ∉ impact.withdrawn ++ offers := by
        intro d' hd' r hmem
        rcases List.mem_append.mp hmem with hmem | hmem
        · obtain ⟨r', -, heq⟩ := List.mem_map.mp hmem
          rw [himpact] at heq
          rw [(Prod.mk.inj heq).1] at hd
          exact hd hd'
        · exact hlater d' hd' r hmem
      refine Leads.cmd (Cmd.lockless rfl) trivial ht fun t ht _ => ?_
      have ht : settled strict (withdrawing (impact.withdrawn ++ offers))
          (exec env i (.updateDriverDocStatus d .offline) t).2 :=
        (settled strict _).steady (@exec_gentle env i _ t _ hdoc) ht
      refine ih ht hpairs hrest hothers fun impacts t hnodup ht => ?_
      have hperm : (impacts.flatMap OfflineImpact.withdrawn ++ (impact.withdrawn ++ offers)).Perm
          ((impact :: impacts).flatMap OfflineImpact.withdrawn ++ offers) := by
        rw [List.flatMap_cons, ← List.append_assoc]
        exact List.perm_append_comm.append_right offers
      refine next (impact :: impacts) t (hperm.nodup_iff.mp hnodup) ?_
      rw [← withdrawing_perm hperm]
      exact ht

theorem leads_scanStaleDriversAndRecover
    (httl : strict → env.dispatch.responseTtlMs ≤ env.dispatch.reservationTtlMs)
    (h : settled strict noOffer s) :
    Leads env strict i unlocked (fun _ => settled strict noOffer) (scanStaleDriversAndRecover env) s := by
  simp only [scanStaleDriversAndRecover, scanStaleDrivers, redis, Prog.bind_eq, Prog.perform_bind,
    Prog.cmd_bind]
  refine Leads.cmd (Cmd.lockless rfl) trivial h fun t ht _ => ?_
  refine Leads.within fun hm => ?_
  generalize hds : (exec env i .smembersOnline t).1 = onlineDrivers
  have hnodup : onlineDrivers.Nodup := by
    rw [← hds]
    exact hm.sets.online
  have ht : settled strict noOffer (exec env i .smembersOnline t).2 := ht
  refine leads_scanStaleDriversLoop ht List.nodup_nil hnodup (fun _ _ _ => List.not_mem_nil)
    fun impacts t hnodup ht => ?_
  rw [List.append_nil] at hnodup ht
  have hturn : ∀ impact impacts t,
      (settled strict (withdrawing ((impact :: impacts).flatMap OfflineImpact.withdrawn))).with
        ((impact :: impacts).flatMap OfflineImpact.withdrawn).Nodup t → ∀ f : Unit → App Unit,
      (∀ u, (settled strict (withdrawing (impacts.flatMap OfflineImpact.withdrawn))).with
        (impacts.flatMap OfflineImpact.withdrawn).Nodup u →
        Leads env strict i unlocked (fun _ => settled strict noOffer) (f ()) u) →
      Leads env strict i unlocked (fun _ => settled strict noOffer)
        ((handleDriverDrop env impact.driverId impact.activeRideId impact.pendingRideIds
          (.text "HEARTBEAT_TIMEOUT")).bind f) t := by
    rintro impact impacts t ⟨ht, hnodup⟩ f hf
    rw [List.flatMap_cons] at ht hnodup
    refine Leads.seq (leads_handleDriverDrop httl ht hnodup) (fun _ u hu => ?_) fun e u hu => hu
    exact hf u ⟨hu, (List.nodup_append.mp hnodup).2.1⟩
  exact Leads.forEach (A := fun impacts => (settled strict (withdrawing (impacts.flatMap
    OfflineImpact.withdrawn))).with (impacts.flatMap OfflineImpact.withdrawn).Nodup) hturn
    (fun t ht => ht.1) impacts ⟨ht, hnodup⟩

end scan

end YatriGo
