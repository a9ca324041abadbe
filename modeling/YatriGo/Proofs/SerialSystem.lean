import YatriGo.Proofs.SerialDrivers

/-! All operations run alone, what happens between them, and the invariant of the runs in
which they come one after the other. -/

namespace YatriGo
open Concurrent

variable {env : Env} {strict : Prop} {i : ℕ} {m : Around} {α : Type}
  {Q : Except AppError α → Assertion} {X : DriverId → RideId → Prop} {L L₁ L₃ : Ledger}
  {O : RideId → BatchId → DriverId → Prop} {s t : Store} {r : RideId} {d : DriverId} {now : Time}
  {job : JobId}

/-- A ride that is not under way is not listed as active. -/
theorem Stand.unlist (h : Stand strict X L L₁ O L₃ s) (hnot : ¬ L₃.Underway r) :
    Stand strict X L L₁ O L₃ (s.multi [.sremActiveRide r]) where
  ledger := h.ledger
  sane := h.sane
  pools := ⟨h.pools.fit, h.pools.nodup⟩
  reserved := h.reserved
  listed :=
    { active := fun r' => by
        have hactive := h.listed.active r'
        show r' ∈ srem r s.activeRides ↔ _
        rw [mem_srem, hactive, and_iff_left_iff_imp]
        rintro hu rfl
        exact hnot hu
      customer := h.listed.customer
      pending := h.listed.pending }
  offered := fun hx =>
    { secured := fun r' b d hl => (h.offered hx).secured r' b d ⟨hl.toOpen, hl.time⟩
      pending := fun r' b d hl => (h.offered hx).pending r' b d ⟨hl.toOpen, hl.time⟩
      drawn := (h.offered hx).drawn
      known := (h.offered hx).known }

theorem leads_recoverRide {f : Unit → App α} (h : settled strict X s)
    (next : ∀ t, settled strict X t → Leads env strict i m Q (f ()) t) :
    Leads env strict i m Q ((recoverRide now r).bind f) s := by
  obtain ⟨L, h⟩ := h
  simp only [recoverRide, write, redis, Prog.bind_eq, Prog.bind_assoc]
  refine leads_getRide h fun t ht => ?_
  by_cases hnone : (L.ride r).status = none
  · rw [toRideSnapshot, if_pos hnone]
    have hnot : ¬ L.Underway r := fun hu => hu.ne_none hnone
    have hunlist : ∀ t, even strict X L t → even strict X L (t.multi [.sremActiveRide r]) :=
      fun t ht => Stand.unlist ht hnot
    refine Leads.writes ht (fun w hw => ?_) (fun t ht _ => hunlist t ht) fun t ht => next t ⟨L, ht⟩
    rw [List.mem_singleton.mp hw]
    trivial
  · rw [toRideSnapshot_of_status hnone]
    dsimp only
    split_ifs
    · exact next t ⟨L, ht⟩
    · cases (L.ride r).currentBatchId with
      | none => exact Leads.quiet ht gentle_addJob fun _ t ht => next t ⟨L, ht⟩
      | some b => exact Leads.quiet ht gentle_addJob fun _ t ht => next t ⟨L, ht⟩
    · cases (L.ride r).currentBatchId with
      | none => exact Leads.quiet ht gentle_addJob fun _ t ht => next t ⟨L, ht⟩
      | some b => exact next t ⟨L, ht⟩

theorem leads_recoverDispatchingRides (h : settled strict X s) :
    Leads env strict i m (fun _ => settled strict X) recoverDispatchingRides s := by
  simp only [recoverDispatchingRides, redis, Prog.bind_eq, Prog.perform_bind]
  refine Leads.cmd (Cmd.lockless rfl) trivial h fun t ht _ => ?_
  generalize (exec env i .smembersActiveRides t).1 = rideIds
  have ht : settled strict X (exec env i .smembersActiveRides t).2 := ht
  refine Leads.now ht fun t ht => ?_
  exact Leads.forEach (A := fun _ => settled strict X)
    (fun r rs u hu f hf => leads_recoverRide hu hf) (fun u hu => hu) rideIds ht

section jobs

theorem gentle_syncRide : Gentle (syncRide r) := by
  have hread : Cmd.gentle (.lrangeTimeline r) := trivial
  have hnotified : Cmd.gentle (.smembersNotified r) := trivial
  refine gentle_getRide.bind fun ride => ?_
  cases ride with
  | none => exact Gentle.ret
  | some ride =>
    refine (Gentle.command hread).bind fun timeline => ?_
    refine (Gentle.command hnotified).bind fun notified => ?_
    have hdoc : Cmd.gentle (.upsertRideDoc r (rideDocFields ride) notified timeline) := trivial
    exact Gentle.command hdoc

theorem gentle_syncDriver : Gentle (syncDriver d) := by
  refine gentle_getDriverState.bind fun state => ?_
  cases state with
  | none => exact Gentle.ret
  | some state =>
    have hdoc : Cmd.gentle (.upsertDriverDoc d ⟨state.status, state.activeRideId, state.lat, state.lng⟩) :=
      trivial
    exact Gentle.command hdoc

theorem told_settled {X : DriverId → RideId → Prop} {result : Except AppError RideHash} {known : Prop}
    (h : told strict X known result s) : settled strict X s := by
  cases result with
  | ok ride => exact h
  | error e => exact h.1

theorem leads_discard {p : App α} (h : Leads env strict i m (fun _ => settled strict X) p s) :
    Leads env strict i m (fun _ => settled strict X) (discard p) s :=
  Leads.seq h (fun _ _ ht => Leads.ret ht) fun _ _ ht => ht

theorem leads_handleJob (httl : strict → env.dispatch.responseTtlMs ≤ env.dispatch.reservationTtlMs)
    (h : settled strict X s) :
    Leads env strict i unlocked (fun _ => settled strict X) (handleJob env job) s := by
  cases job with
  | dispatchStart r version reason =>
    have hstart : Leads env strict i unlocked (fun _ => settled strict X) (discard (startDispatch env r)) s :=
      leads_discard ((leads_startDispatch httl h).mono fun _ _ => told_settled)
    exact Leads.tryCatch hstart (fun _ _ ht => ht) fun _ _ ht => Leads.ret ht
  | dispatchTimeout r b =>
    exact leads_discard ((leads_handleBatchTimeout httl h).mono fun _ _ => told_settled)
  | persistRide r version => exact Leads.rest h gentle_syncRide fun _ _ ht => ht
  | persistDriver d reason suffix => exact Leads.rest h gentle_syncDriver fun _ _ ht => ht

theorem leads_work (httl : strict → env.dispatch.responseTtlMs ≤ env.dispatch.reservationTtlMs)
    (h : settled strict X s) :
    Leads env strict i unlocked (fun _ => settled strict X) (work env job) s := by
  have htake : Cmd.gentle (.takeJob job) := trivial
  simp only [work, Prog.bind_eq]
  refine Leads.quiet h (Gentle.command htake) fun taken t ht => ?_
  split_ifs
  · have hhandle : Leads env strict i unlocked (fun _ => settled strict X)
        ((handleJob env job).bind fun _ => (Prog.ret true : App Bool)) t :=
      Leads.seq (leads_handleJob httl ht) (fun _ _ hu => Leads.ret hu) fun _ _ hu => hu
    refine Leads.seq (R := fun _ => settled strict X) (Leads.tryCatch hhandle (fun _ _ hu => hu)
      fun _ _ hu => Leads.ret hu) (fun succeeded u hu => ?_) fun _ _ hu => hu
    have hfinish : Cmd.gentle (.finishJob job succeeded) := trivial
    exact Leads.rest hu (Gentle.command hfinish) fun _ _ hv => hv
  · exact Leads.ret ht

end jobs

theorem leads_code (httl : strict → env.dispatch.responseTtlMs ≤ env.dispatch.reservationTtlMs)
    {op : Op} (hop : strict → op.complete = true) (h : settled strict noOffer s) :
    Leads env strict i unlocked (fun _ => settled strict noOffer) (code env op) s := by
  cases op with
  | requestRide c origin destination metadata => exact leads_discard (leads_requestRide h)
  | startDispatch r => exact leads_discard ((leads_startDispatch httl h).mono fun _ _ => told_settled)
  | handleBatchTimeout r b =>
    exact leads_discard ((leads_handleBatchTimeout httl h).mono fun _ _ => told_settled)
  | handleDriverRejection r d reason =>
    have hreject : Leads env strict i unlocked (told strict (without noOffer d r) False)
        (handleDriverRejection env r d reason) s := leads_handleDriverRejection httl h False.elim
    refine leads_discard (hreject.mono fun result t ht => ?_)
    obtain ⟨L, ht⟩ := told_settled ht
    exact ⟨L, Stand.withdraw ht (fun _ _ hx => absurd hx List.not_mem_nil) fun _ _ _ _ _ hx => hx.1⟩
  | acceptRide r d => exact leads_discard (leads_acceptRide h)
  | markDriverArriving r d => exact leads_discard (leads_transitionByDriver (Or.inl rfl) h)
  | startRide r d => exact leads_discard (leads_transitionByDriver (Or.inr (Or.inl rfl)) h)
  | completeRide r d => exact leads_discard (leads_transitionByDriver (Or.inr (Or.inr (Or.inl rfl))) h)
  | cancelRide r actorType actorId reason => exact leads_discard (leads_cancelRide h)
  | requeueRideAfterDriverLoss r d => exact leads_discard (leads_requeueRideAfterDriverLoss h)
  | goOnline d lat lng socketId => exact leads_discard (leads_goOnline h)
  | heartbeat d lat lng socketId => exact leads_discard (leads_heartbeat h)
  | goOffline d =>
    have hx : ¬ strict := fun hx => Bool.false_ne_true (hop hx)
    refine leads_discard ((leads_goOffline h).mono fun result t ht => ?_)
    cases result with
    | ok impact => exact settled_idle hx ht.1
    | error e => exact ht.elim
  | goOfflineAndDrop d reason => exact leads_goOfflineAndDrop httl h
  | restoreDriverSession d socketId => exact leads_discard (leads_restoreDriverSession h)
  | scanStaleDriversAndRecover => exact leads_scanStaleDriversAndRecover httl h
  | recoverDispatchingRides => exact leads_recoverDispatchingRides h
  | work job => exact leads_work httl h

section events

variable {e : Event}

theorem Offered.expire {lease : Lease} (h : Offered X s) (hlease : s.locks (.reservation d) = some lease)
    (hover : lease.expiresAt ≤ s.clock) :
    Offered X { s with locks := put s.locks (.reservation d) none } where
  secured := fun r b d' hl hxd => by
    have hlive : LiveOffer s r b d' := ⟨hl.toOpen, hl.time⟩
    obtain ⟨lease', hlease', htoken, he⟩ := h.secured r b d' hlive hxd
    have hne : d' ≠ d := by
      rintro rfl
      rw [hlease] at hlease'
      obtain rfl := Option.some.inj hlease'
      exact lt_irrefl _ (hlive.time.trans_le (he.trans hover))
    exact ⟨lease', (put_of_ne fun heq => hne (LockKey.reservation.inj heq)).trans hlease', htoken, he⟩
  pending := fun r b d' hl => h.pending r b d' ⟨hl.toOpen, hl.time⟩
  drawn := h.drawn
  known := h.known

theorem Reserved.expire {key : LockKey} (h : Reserved O s) :
    Reserved O { s with locks := put s.locks key none } := by
  intro d r b hl
  have hput : (put s.locks key none (.reservation d)).map Lease.token = some (.reservation r b) := hl
  rw [put_apply] at hput
  split_ifs at hput
  · cases hput
  · exact h d r b hput

/-- What happens between the operations keeps the invariant. -/
theorem settled_event (h : settled strict X s) (hm : Within env unlocked s) (he : e.apply s = some t) :
    settled strict X t ∧ Within env unlocked t := by
  -- an event that changes nothing of concern
  have hstill : Still s t → t.locks = s.locks → t.driverPendingDispatches = s.driverPendingDispatches →
      t.driverSet .online = s.driverSet .online → settled strict X t ∧ Within env unlocked t := by
    intro hst hlocks hpending honline
    exact ⟨(settled strict X).steady hst h, fun k hk => by rw [hlocks]; exact hm.locks k hk, Nat.zero_le _,
      hm.sets.of_eq hpending honline, hm.asked.same hst.ride hst.responses⟩
  have hsame : SameKeys s t := event_sameKeys he
  cases event_happens he with
  | tick ms => exact hstill ⟨⟨hsame, fun _ => rfl⟩, Nat.le_add_right _ _⟩ rfl rfl rfl
  | expireLease key lease hlease hover =>
    have hfree : ¬ key.mutex := by
      intro hk
      rw [hm.locks key hk] at hlease
      cases hlease
    obtain ⟨L, h⟩ := h
    refine ⟨⟨L, h.ledger, h.sane, ⟨h.pools.fit, h.pools.nodup⟩, h.reserved.expire, h.listed.same ⟨rfl, rfl, rfl⟩,
      fun hx => ?_⟩, fun k hk => ?_, Nat.zero_le _, ⟨hm.sets.pending, hm.sets.online⟩,
      hm.asked.same rfl rfl⟩
    · cases key with
      | reservation d => exact (h.offered hx).expire hlease hover
      | _ => exact absurd trivial hfree
    · show put s.locks key none k = none
      rw [put_apply]
      split_ifs
      · rfl
      · exact hm.locks k hk
  | _ => exact hstill ⟨⟨hsame, fun _ => rfl⟩, le_rfl⟩ rfl rfl rfl

end events

theorem settled_empty : settled strict noOffer ({} : Store) := by
  refine ⟨({} : Store).ledger, rfl, ⟨?_, ?_, ?_⟩, ⟨fun d => ?_, List.nodup_nil⟩, ?_, ⟨?_, ?_, ?_⟩, fun _ => ⟨?_, ?_, ?_, ?_⟩⟩
  · exact fun r hr => absurd rfl hr
  · intro r hr
    cases hr
  · intro r hr
    cases hr
  · refine fit_empty.congr fun r => ?_
    exact iff_of_false id fun ha => Option.some_ne_none _ ha.1.symm
  · intro d r b hl
    cases hl
  · exact fun r => iff_of_false List.not_mem_nil fun hu => hu.ne_none rfl
  · intro c r hc
    cases hc
  · intro d r hp
    cases hp
  · intro r b d hl
    cases hl.response
  · intro r b d hl
    cases hl.response
  · intro r b d hr
    cases hr
  · intro d r hx
    cases hx

theorem within_empty : Within env unlocked ({} : Store) :=
  ⟨fun _ _ => rfl, le_rfl, ⟨fun _ => List.nodup_nil, List.nodup_nil⟩, asked_empty⟩

theorem serial_sound (httl : strict → env.dispatch.responseTtlMs ≤ env.dispatch.reservationTtlMs) :
    (serial env strict).Sound where
  alone := fun op i s hop hinv => leads_code httl hop hinv.1 hinv.2
  event := fun e s t hinv he => settled_event hinv.1 hinv.2 he
  calm := fun e s t hcalm he => by
    cases e with
    | tick ms =>
      obtain rfl := Option.some.inj he
      exact ⟨Nat.le_add_right _ _, rfl⟩
    | _ => exact hcalm.elim

/-- A step of a run in which each operation runs to its end before the next. Time may pass
at any point; nothing else happens while an operation runs. -/
def oneByOne (p : State) : Step → Bool
  | .call _ => p.idle
  | .step _ => true
  | .env (.tick _) => true
  | .env _ => p.idle

theorem settled_run {as : List Step} {p : State} (hrun : (system env).Run (fun p a => oneByOne p a) initial as p)
    (hidle : p.idle = true) : settled False noOffer p.store := by
  have hok : ∀ p a, oneByOne p a = true → (serial env False).Ok p a := by
    intro p a ha
    cases a with
    | call op => exact ⟨ha, False.elim⟩
    | step i => exact fun _ _ _ _ _ => False.elim
    | env e => cases e with
      | tick ms => exact Or.inl trivial
      | _ => exact Or.inr ha
  have hstart : (serial env False).Holds initial := Serial.holds_empty ⟨settled_empty, within_empty⟩
  exact ((serial_sound False.elim).run hok hrun hstart hidle).1

end YatriGo
