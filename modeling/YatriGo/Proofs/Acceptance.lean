import YatriGo.Proofs.RideSteps

/-! One driver wins a ride in each episode of its dispatch, and keeps it until the ride
is requeued. -/

namespace YatriGo
open Concurrent

/-- No ride lock expires while it is held. -/
def RideLocksKept (_ : State) (a : Step) : Prop := ∀ r, a ≠ .env (.expireLease (.ride r))

/-- The step performs the update of `requeueRideAfterDriverLoss` on `r`. -/
def Requeues (env : Env) (p : State) (a : Step) (r : RideId) : Prop :=
  ∃ ws ride now, Performs p a ws ∧ .hsetRide r (requeueFields env ride now) ∈ ws

/-- The status of `r` becomes DISPATCHING between the two states. -/
def BecomesDispatching (p q : State) (r : RideId) : Prop :=
  (p.store.ride r).status ≠ some .dispatching ∧ (q.store.ride r).status = some .dispatching

/-- The ride is past its dispatch, with driver `d`. -/
structure RideHash.won (h : RideHash) (d : DriverId) : Prop where
  driver : h.driverId = some d
  exist : h.status ≠ none
  requested : h.status ≠ some .requested
  dispatching : h.status ≠ some .dispatching

variable {env : Env} {p q : State} {a : Step} {r : RideId} {d : DriverId}

theorem won_accept {h : RideHash} {acceptedAt : Time} : (h.accept d acceptedAt).won d :=
  ⟨rfl, Option.some_ne_none _, fun h => (by cases h), fun h => (by cases h)⟩

theorem RideHash.won.congr {h g : RideHash} (hw : h.won d) (hst : g.status = h.status)
    (hd : g.driverId = h.driverId) : g.won d :=
  ⟨hd.trans hw.driver, hst ▸ hw.exist, hst ▸ hw.requested, hst ▸ hw.dispatching⟩

/-- A ride with a driver keeps the driver in every update but a requeue: an update that
was computed before the acceptance writes neither DISPATCHING nor an empty driver. -/
theorem won_write {read h : RideHash} {fields : List RideField} (hw : h.won d)
    (since : Since read h) (write : RideWrite env read fields)
    (hrequeue : ∀ now, fields ≠ requeueFields env read now) : (h.hset fields).won d := by
  cases write with
  | start now hst =>
    have heq : h = read := since.eq_of_status hst (by decide)
    rw [← heq] at hst
    exact absurd hst hw.requested
  | clear now hst => exact hw.congr hset_clearBatchFields.1 hset_clearBatchFields.2.1
  | exhaust now hst =>
    refine ⟨hset_exhaustFields.2.1.trans hw.driver, ?_, ?_, ?_⟩
    all_goals
      rw [hset_exhaustFields.1]
      decide
  | expand nextRound nextRadius now hst => exact hw.congr hset_expandFields.1 hset_expandFields.2.1
  | batch batchId ds expiresAt now hst => exact hw.congr hset_batchFields.1 hset_batchFields.2.1
  | reject exhausted now hst => exact hw.congr hset_rejectFields.1 hset_rejectFields.2.1
  | transition current next options now hst hnext hto hdriver =>
    obtain ⟨hstatus, hd, -⟩ := @hset_transitionFields env read h next options now hdriver
    refine ⟨hd.trans hw.driver, ?_, ?_, ?_⟩
    · rw [hstatus]
      exact Option.some_ne_none _
    · rw [hstatus]
      rintro ⟨rfl⟩
      cases current <;> simp only [rideTransitions, List.mem_cons, List.not_mem_nil,
        reduceCtorEq, or_self] at hnext
    · rw [hstatus]
      rintro ⟨rfl⟩
      exact hto.1 rfl
  | requeue d' now hst hd => exact absurd rfl (hrequeue now)

theorem won_step {customers : Prop} (hp : (rides env customers).Holds p)
    (hnext : (system env).next p a = some q) (hrequeue : ¬ Requeues env p a r)
    (hw : (p.store.ride r).won d) : (q.store.ride r).won d := by
  cases ride_step hp hnext r with
  | same heq => rw [heq]; exact hw
  | create absent c origin destination metadata now heq => exact absurd absent hw.exist
  | accept d' acceptedAt accepts hst hd heq => exact absurd hst hw.dispatching
  | write read fields ws performs mem since write heq =>
    rw [heq]
    refine won_write hw since write fun now h => hrequeue ⟨ws, read, now, performs, ?_⟩
    rw [← h]
    exact mem

theorem rideLocksKept_of_lasting (p : State) (a : Step) (h : lasting p a = true) :
    RideLocksKept p a := by
  rintro r rfl
  cases h

theorem RideLocksKept.keeps {p : State} {k : LockKey} (hk : keeps False k) :
    ¬ RideLocksKept p (.env (.expireLease k)) := by
  intro hkept
  cases k <;> first | exact hk | exact hkept _ rfl

/-- Single winner. Take any run whose ride locks last, and in it any execution of the
accept script. An answer that is not positive comes with an unchanged store. After a
positive answer the ride keeps the driver until a requeue, and before a second positive
answer on the ride its status becomes DISPATCHING again. -/
theorem single_winner {as : List Step} {version : ℤ}
    (hrun : (system env).Run RideLocksKept initial as p)
    (hnext : (system env).next p a = some q) (haccept : Accepts p a r d version) :
    (version ≤ 0 → q.store = p.store) ∧
    (0 < version →
      (∀ bs t, (system env).Run (fun p a => RideLocksKept p a ∧ ¬ Requeues env p a r) q bs t →
        (t.store.ride r).driverId = some d ∧ (t.store.ride r).status ≠ some .dispatching) ∧
      ∀ bs t b d' version', (system env).Run RideLocksKept q bs t → Accepts t b r d' version' →
        0 < version' → ∃ cs c es m m', bs = cs ++ c :: es ∧
          (system env).Run RideLocksKept q cs m ∧ (system env).next m c = some m' ∧
          BecomesDispatching m m' r) := by
  have hlocks : ∀ (p : State) k, keeps False k → ¬ RideLocksKept p (.env (.expireLease k)) :=
    fun p k hk => RideLocksKept.keeps hk
  have hp : (rides env False).Holds p := rides_run hlocks hrun rides_initial
  have hkept : RideLocksKept p a := by
    obtain ⟨i, rfl, -⟩ := haccept
    intro r h
    cases h
  have hq : (rides env False).Holds q :=
    rides_run hlocks (hrun.append (.single hkept hnext)) rides_initial
  refine ⟨fun hversion => haccept.refused hversion hnext, fun hversion => ?_⟩
  obtain ⟨acceptedAt, reservation, -, -, hcommit⟩ := haccept.guard env hversion
  have hride : q.store.ride r = (p.store.ride r).accept d acceptedAt := by
    rw [hcommit q hnext]
    exact put_self
  refine ⟨fun bs t hbs => ?_, fun bs t b d' version' hbs haccept' hversion' => ?_⟩
  · have hwon : (q.store.ride r).won d := hride ▸ won_accept
    have hboth : (rides env False).Holds t ∧ (t.store.ride r).won d := by
      refine hbs.invariant (I := fun t => (rides env False).Holds t ∧ (t.store.ride r).won d)
        ⟨hq, hwon⟩ fun m c m' hm hok hnext' => ⟨?_, won_step hm.1 hnext' hok.2 hm.2⟩
      exact rides_run hlocks (.single hok.1 hnext') hm.1
    exact ⟨hboth.2.driver, hboth.2.dispatching⟩
  · have hnot : ¬ (q.store.ride r).status = some .dispatching := by
      rw [hride]
      exact fun h => by cases h
    obtain ⟨acceptedAt', reservation', hguard, -⟩ := haccept'.guard env hversion'
    have hdispatching : (t.store.ride r).status = some .dispatching :=
      (acceptRideGuard_eq_zero hguard).1
    obtain ⟨cs, c, es, m, m', rfl, hcs, hnext', hm, hm'⟩ :=
      -- a second acceptance finds the ride DISPATCHING, which it is not after the first
      hbs.acquires (P := fun t => (t.store.ride r).status = some .dispatching) hnot hdispatching
    exact ⟨cs, c, es, m, m', rfl, hcs, hnext', hm, hm'⟩

/-- Driver 1 accepts the ride that was offered to it, and keeps it. -/
theorem single_winner_offered :
    ∃ p q : State, Accepts p (.step 3) ⟨1, 2⟩ 1 4 ∧ (system townEnv).next p (.step 3) = some q ∧
      ∀ bs t, (system townEnv).Run
        (fun p a => RideLocksKept p a ∧ ¬ Requeues townEnv p a ⟨1, 2⟩) q bs t →
        (t.store.ride ⟨1, 2⟩).driverId = some 1 := by
  obtain ⟨p, hrun, hp⟩ := town_run rideLocksKept_of_lasting
    (offered ++ .call (.acceptRide ⟨1, 2⟩ 1) :: run 3 2)
    (fun p => peek p 3 (Cmd.acceptance p.store) = some (⟨1, 2⟩, 1, 4) ∧
      ((system townEnv).next p (.step 3)).isSome) (by decide +kernel)
  obtain ⟨haccept, hnext⟩ := of_decide_eq_true hp
  obtain ⟨q, hq⟩ := Option.isSome_iff_exists.mp hnext
  have haccept : Accepts p (.step 3) ⟨1, 2⟩ 1 4 := ⟨3, rfl, haccept⟩
  exact ⟨p, q, haccept, hq, fun bs t hbs =>
    (((single_winner hrun hq haccept).2 (by decide)).1 bs t hbs).1⟩

end YatriGo
