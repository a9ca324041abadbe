import YatriGo.Proofs.RideSteps

/-! What the recovery scan leaves behind: rides that wait for a dispatch nobody will do. -/

namespace YatriGo
open Concurrent

/-- A start-dispatch or batch-timeout job of the ride. -/
def JobId.dispatches (rideId : RideId) : JobId → Prop
  | .dispatchStart r _ _ => r = rideId
  | .dispatchTimeout r _ => r = rideId
  | _ => False

instance (rideId : RideId) (job : JobId) : Decidable (job.dispatches rideId) :=
  match job with
  | .dispatchStart r _ _ => inferInstanceAs (Decidable (r = rideId))
  | .dispatchTimeout r _ => inferInstanceAs (Decidable (r = rideId))
  | .persistRide _ _ => inferInstanceAs (Decidable False)
  | .persistDriver _ _ _ => inferInstanceAs (Decidable False)

/-- The job is still going to be executed, or is being executed. -/
def JobState.pending : JobState → Bool
  | .waiting _ _ => true
  | .active _ => true
  | _ => false

def Scheduled (r : RideId) (s : Store) : Prop :=
  ∃ job : JobId, job.dispatches r ∧ (s.jobs job).any JobState.pending

/-- The ride has a current batch that has not yet expired. -/
def BatchOpen (r : RideId) (s : Store) : Prop :=
  (s.ride r).currentBatchId ≠ none ∧ ∃ e ∈ (s.ride r).currentBatchExpiresAt, s.clock < e

structure Orphan (r : RideId) (s : Store) : Prop where
  active : r ∈ s.activeRides
  searching : (s.ride r).status = some .requested ∨ (s.ride r).status = some .dispatching
  batch : ¬ BatchOpen r s
  job : ¬ Scheduled r s

/-- The ride is DISPATCHING without a batch, or with an expired one, and the queue does not
know the job that the scan adds for it, not even as a finished one. -/
def Rescuable (r : RideId) (s : Store) : Prop :=
  (s.ride r).status = some .dispatching ∧
    (((s.ride r).currentBatchId = none ∧
        s.jobs (.dispatchStart r (s.ride r).version .recoveryNoBatch) = none) ∨
      ∃ batchId, (s.ride r).currentBatchId = some batchId ∧
        (∃ e ∈ (s.ride r).currentBatchExpiresAt, e ≤ s.clock) ∧
        s.jobs (.dispatchTimeout r batchId) = none)

/-- Wherever the scan, called in `p`, has run to its end, no ride is an orphan. -/
def LeavesNoOrphan (env : Env) (p : State) : Prop :=
  ∀ n q, (system env).Run (fun _ _ => True) p
      (.call .recoverDispatchingRides :: run p.threads.length n) q →
    Running q p.threads.length = false → ∀ r, ¬ Orphan r q.store

variable {env : Env} {i : ℕ} {r : RideId} {s : Store} {now : Time}

/-- The job the scan adds for the ride. -/
def recoveryJob (now : Time) (rideId : RideId) (ride : RideHash) : Option JobId :=
  if ride.status ≠ some .dispatching then none
  else
    match ride.currentBatchId with
    | none => some (.dispatchStart rideId ride.version .recoveryNoBatch)
    | some batchId =>
      if ∃ e ∈ ride.currentBatchExpiresAt, e ≤ now then some (.dispatchTimeout rideId batchId)
      else none

/-- One turn of the scan. -/
def recovered (now : Time) (s : Store) (r : RideId) : Store :=
  if (s.ride r).status = none then { s with activeRides := srem r s.activeRides }
  else
    match recoveryJob now r (s.ride r) with
    | some job => addJob job 0 s
    | none => s

theorem finish_getRide {α : Type} (f : Option RideHash → App α) :
    ((getRide r).bind f).finish ((system env).client i) s =
      (f (toRideSnapshot (s.ride r))).finish ((system env).client i) s := rfl

theorem finish_recoverRide : (recoverRide now r).finish ((system env).client i) s =
    (.ok (), recovered now s r) := by
  unfold recoverRide
  rw [Prog.bind_eq, finish_getRide]
  unfold toRideSnapshot recovered recoveryJob
  by_cases hnone : (s.ride r).status = none
  · simp only [if_pos hnone]
    rfl
  · simp only [if_neg hnone]
    by_cases hst : (s.ride r).status = some .dispatching
    · simp only [hst, ne_eq, not_true_eq_false, if_false]
      cases (s.ride r).currentBatchId with
      | none => rfl
      | some b =>
        dsimp only
        split_ifs
        · rfl
        · rfl
    · simp only [ne_eq, hst, not_false_eq_true, if_true]
      rfl

theorem finish_recoverDispatchingRides :
    (recoverDispatchingRides).finish ((system env).client i) s =
      (.ok (), s.activeRides.foldl (recovered s.clock) s) :=
  Prog.finish_forEach (fun _ _ => finish_recoverRide) s.activeRides s

theorem recoveryJob_status {ride : RideHash} {job : JobId} (h : recoveryJob now r ride = some job) :
    ride.status = some .dispatching := by
  by_contra hne
  unfold recoveryJob at h
  rw [if_pos hne] at h
  cases h

theorem recoveryJob_dispatches {ride : RideHash} {job : JobId}
    (h : recoveryJob now r ride = some job) {r' : RideId} : job.dispatches r' ↔ r = r' := by
  unfold recoveryJob at h
  rw [if_neg (not_not.mpr (recoveryJob_status h))] at h
  cases hbatch : ride.currentBatchId with
  | none =>
    simp only [hbatch, Option.some.injEq] at h
    subst h
    exact Iff.rfl
  | some batchId =>
    simp only [hbatch, Option.ite_none_right_eq_some, Option.some.injEq] at h
    obtain ⟨-, rfl⟩ := h
    exact Iff.rfl

/-- What the scan makes of `s` in its turns for `rides`. -/
structure Scanned (now : Time) (rides : List RideId) (s t : Store) : Prop where
  ride : t.ride = s.ride
  clock : t.clock = s.clock
  active : ∀ r, r ∈ t.activeRides ↔ r ∈ s.activeRides ∧ (r ∈ rides → (s.ride r).status ≠ none)
  known : ∀ job state, s.jobs job = some state → t.jobs job = some state
  added : ∀ job, s.jobs job = none → ∀ r ∈ rides, recoveryJob now r (s.ride r) = some job →
    t.jobs job = some (.waiting s.clock 0)
  absent : ∀ job, s.jobs job = none → (∀ r ∈ rides, recoveryJob now r (s.ride r) ≠ some job) →
    t.jobs job = none

theorem Scanned.refl : Scanned now [] s s where
  ride := rfl
  clock := rfl
  active := fun r => by simp only [List.not_mem_nil, false_implies, and_true]
  known := fun _ _ => id
  added := fun _ _ r hr => absurd hr List.not_mem_nil
  absent := fun _ h _ => h

theorem Scanned.cons {rides : List RideId} {t u : Store} (h₁ : Scanned now [r] s t)
    (h₂ : Scanned now rides t u) : Scanned now (r :: rides) s u where
  ride := h₂.ride.trans h₁.ride
  clock := h₂.clock.trans h₁.clock
  active := fun r' => by
    rw [h₂.active, h₁.active, h₁.ride]
    simp only [List.mem_cons, List.not_mem_nil, or_false]
    tauto
  known := fun job state h => h₂.known job state (h₁.known job state h)
  added := fun job hnone r' hr' hjob => by
    have hfirst : recoveryJob now r (s.ride r) = some job ∨ recoveryJob now r (s.ride r) ≠ some job :=
      em _
    rcases hfirst with hfirst | hfirst
    · exact h₂.known job _ (h₁.added job hnone r (List.mem_singleton_self r) hfirst)
    · have hmiddle : t.jobs job = none :=
        h₁.absent job hnone fun x hx => by rwa [List.mem_singleton.mp hx]
      rcases List.mem_cons.mp hr' with rfl | hr'
      · exact absurd hjob hfirst
      · rw [← h₁.ride] at hjob
        rw [← h₁.clock]
        exact h₂.added job hmiddle r' hr' hjob
  absent := fun job hnone hjob => by
    have hmiddle : t.jobs job = none := h₁.absent job hnone fun x hx => by
      rw [List.mem_singleton.mp hx]
      exact hjob r List.mem_cons_self
    refine h₂.absent job hmiddle fun x hx => ?_
    rw [h₁.ride]
    exact hjob x (List.mem_cons_of_mem _ hx)

/-- One turn. -/
theorem scanned_recovered : Scanned now [r] s (recovered now s r) := by
  unfold recovered
  split_ifs with hnone
  · -- a ghost: it has no job, since it has no status
    have hjob : ∀ job, recoveryJob now r (s.ride r) ≠ some job := by
      intro job h
      have hst := recoveryJob_status h
      rw [hnone] at hst
      cases hst
    refine ⟨rfl, rfl, fun r' => ?_, fun _ _ => id, fun job _ r' hr' h => ?_, fun _ h _ => h⟩
    · simp only [mem_srem, List.mem_singleton, ne_eq]
      constructor
      · exact fun h => ⟨h.1, fun heq => absurd heq h.2⟩
      · rintro ⟨h, himp⟩
        exact ⟨h, fun heq => himp heq (by rw [heq]; exact hnone)⟩
    · rw [List.mem_singleton.mp hr'] at h
      exact absurd h (hjob job)
  · have hactive : ∀ r', r' ∈ s.activeRides ↔
        r' ∈ s.activeRides ∧ (r' ∈ [r] → (s.ride r').status ≠ none) := by
      intro r'
      refine ⟨fun h => ⟨h, fun heq => ?_⟩, And.left⟩
      rw [List.mem_singleton.mp heq]
      exact hnone
    split
    · rename_i job hjob
      unfold addJob
      split
      · rename_i state hstate
        refine ⟨rfl, rfl, hactive, fun _ _ => id, fun j hj r' hr' h => ?_, fun _ h _ => h⟩
        rw [List.mem_singleton.mp hr', hjob] at h
        cases h
        rw [hstate] at hj
        cases hj
      · rename_i hfresh
        refine ⟨rfl, rfl, hactive, fun j state hj => ?_, fun j hj r' hr' h => ?_, fun j hj h => ?_⟩
        · have hne : j ≠ job := by
            rintro rfl
            rw [hfresh] at hj
            cases hj
          exact (put_of_ne hne).trans hj
        · rw [List.mem_singleton.mp hr', hjob] at h
          cases h
          exact put_self
        · have hne : j ≠ job := by
            rintro rfl
            exact h r (List.mem_singleton_self r) hjob
          exact (put_of_ne hne).trans hj
    · rename_i hjob
      refine ⟨rfl, rfl, hactive, fun _ _ => id, fun j hj r' hr' h => ?_, fun _ h _ => h⟩
      rw [List.mem_singleton.mp hr', hjob] at h
      cases h

theorem scanned_foldl (rides : List RideId) :
    Scanned now rides s (rides.foldl (recovered now) s) := by
  induction rides generalizing s with
  | nil => exact Scanned.refl
  | cons r rides ih => exact scanned_recovered.cons ih

theorem rescuable_iff : Rescuable r s ↔
    ∃ job, recoveryJob s.clock r (s.ride r) = some job ∧ s.jobs job = none := by
  unfold Rescuable recoveryJob
  by_cases hst : (s.ride r).status = some .dispatching
  · rw [if_neg (not_not.mpr hst)]
    cases hbatch : (s.ride r).currentBatchId with
    | none => simp [hst]
    | some batchId => simp [hst]
  · simp [hst]

/-- An orphan of the scan is one that was there before, and that the scan cannot help. -/
theorem orphan_scanned {t : Store} (h : Scanned s.clock s.activeRides s t) :
    Orphan r t ↔ Orphan r s ∧ ¬ Rescuable r s := by
  rw [rescuable_iff]
  constructor
  · rintro ⟨hactive, hsearching, hbatch, hjob⟩
    have hmem : r ∈ s.activeRides := ((h.active r).mp hactive).1
    refine ⟨⟨hmem, ?_, ?_, ?_⟩, ?_⟩
    · rwa [h.ride] at hsearching
    · unfold BatchOpen at hbatch ⊢
      rwa [h.ride, h.clock] at hbatch
    · rintro ⟨job, hdisp, hpending⟩
      obtain ⟨state, hstate, hst⟩ := (Option.any_eq_true _ _).mp hpending
      exact hjob ⟨job, hdisp, by rw [h.known job state hstate]; exact hst⟩
    · rintro ⟨job, hrec, hfresh⟩
      refine hjob ⟨job, (recoveryJob_dispatches hrec).mpr rfl, ?_⟩
      rw [h.added job hfresh r hmem hrec]
      rfl
  · rintro ⟨⟨hactive, hsearching, hbatch, hjob⟩, hno⟩
    refine ⟨(h.active r).mpr ⟨hactive, fun _ => ?_⟩, ?_, ?_, ?_⟩
    · rcases hsearching with hst | hst <;> simp [hst]
    · rwa [h.ride]
    · unfold BatchOpen at hbatch ⊢
      rwa [h.ride, h.clock]
    · rintro ⟨job, hdisp, hpending⟩
      cases hstate : s.jobs job with
      | some state =>
        rw [h.known job state hstate] at hpending
        exact hjob ⟨job, hdisp, by rw [hstate]; exact hpending⟩
      | none =>
        -- the scan did not add it: it would be the ride's own recovery job
        have habsent : t.jobs job = none := h.absent job hstate fun r' _ hrec => by
          obtain rfl := (recoveryJob_dispatches hrec).mp hdisp
          exact hno ⟨job, hrec, hstate⟩
        rw [habsent] at hpending
        cases hpending

/-- The scan leaves no orphan exactly if it can help every ride that is one. -/
theorem leaves_no_orphan (p : State) :
    LeavesNoOrphan env p ↔ ∀ r, Orphan r p.store → Rescuable r p.store := by
  have hscan : ∀ n q, (system env).Run (fun _ _ => True) p
      (.call .recoverDispatchingRides :: run p.threads.length n) q →
      Running q p.threads.length = false → Scanned p.store.clock p.store.activeRides p.store q.store := by
    intro n q hrun hdone
    obtain ⟨hstore, hthread⟩ := hrun.called
    rw [running_eq_false hthread] at hdone
    rw [hstore, Prog.advance_of_ended hdone]
    change Scanned _ _ _ (recoverDispatchingRides.finish _ _).2
    rw [finish_recoverDispatchingRides]
    exact scanned_foldl _
  constructor
  · intro h r horphan
    obtain ⟨n, q, rest, hrun, hthread, hend⟩ :=
      @System.exists_called _ _ _ _ _ (system env) (fun _ _ => True) p .recoverDispatchingRides fun _ _ => trivial
    have hdone : Running q p.threads.length = false := (running_eq_false hthread).mpr hend
    by_contra hno
    exact h n q hrun hdone r ((orphan_scanned (hscan n q hrun hdone)).mpr ⟨horphan, hno⟩)
  · intro h n q hrun hdone r horphan
    obtain ⟨hbefore, hno⟩ := (orphan_scanned (hscan n q hrun hdone)).mp horphan
    exact hno (h r hbefore)

section known

variable {job : JobId} {p q : State} {a : Step} {jobs : List JobId}

/-- Every job the command adds is one of `jobs`. -/
def Cmd.addsAmong (jobs : List JobId) (_ : Store) : ⦃β : Type⦄ → Cmd β → Bool
  | _, .addJob j _ => j ∈ jobs
  | _, _ => true

/-- The queue knows no jobs but these. -/
def KnowsAmong (jobs : List JobId) (s : Store) : Prop := ∀ job ∉ jobs, s.jobs job = none

theorem KnowsAmong.put {state : Option JobState} (h : KnowsAmong jobs s) (hjob : job ∈ jobs) :
    KnowsAmong jobs { s with jobs := put s.jobs job state } := by
  intro j hj
  have hne : j ≠ job := by
    rintro rfl
    exact hj hjob
  exact (put_of_ne hne).trans (h j hj)

theorem KnowsAmong.mem {state : JobState} (h : KnowsAmong jobs s) (hjob : s.jobs job = some state) :
    job ∈ jobs := by
  by_contra hno
  rw [h job hno] at hjob
  cases hjob

theorem KnowsAmong.exec {β : Type} {c : Cmd β} (h : KnowsAmong jobs s)
    (hadds : c.addsAmong jobs s = true) : KnowsAmong jobs (exec env i c s).2 := by
  have hjobs : c.queueless → _ := @exec_jobs s env i β c
  cases c with
  | addJob job delay =>
    simp only [YatriGo.exec, addJob]
    split
    · exact h
    · exact h.put (of_decide_eq_true hadds)
  | takeJob job =>
    simp only [YatriGo.exec, takeJob]
    split
    · rename_i hjob
      split
      · exact h.put (h.mem hjob)
      · exact h
    · exact h
  | finishJob job ok =>
    simp only [YatriGo.exec, finishJob]
    split
    · rename_i hjob
      exact h.put (h.mem hjob)
    · exact h
  | _ =>
    intro job hjob
    rw [hjobs trivial]
    exact h job hjob

theorem KnowsAmong.event {e : Event} {t : Store} (h : KnowsAmong jobs s) (he : e.apply s = some t) :
    KnowsAmong jobs t := by
  cases event_happens he with
  | redeliver job attemptsMade hjob => exact h.put (h.mem hjob)
  | forget job hjob =>
    rcases hjob with hjob | hjob
    · exact h.put (h.mem hjob)
    · exact h.put (h.mem hjob)
  | _ => exact h

theorem KnowsAmong.next (h : KnowsAmong jobs p.store) (hnext : (system env).next p a = some q)
    (hcheck : Checked (Cmd.addsAmong jobs) p a = true) : KnowsAmong jobs q.store := by
  cases a with
  | call op =>
    cases hnext
    exact h
  | step i =>
    obtain ⟨op, β, c, k, hi, hstore, -⟩ := System.next_step hnext
    rw [hstore]
    exact h.exec (checked_command hcheck hi)
  | env e =>
    simp only [System.next, Option.map_eq_some_iff] at hnext
    obtain ⟨t, ht, rfl⟩ := hnext
    exact h.event ht

theorem KnowsAmong.run {ok : State → Step → Prop} {as : List Step} (h : (system env).Run ok p as q)
    (hok : ∀ p a, ok p a → Checked (Cmd.addsAmong jobs) p a = true) (hp : KnowsAmong jobs p.store) :
    KnowsAmong jobs q.store :=
  h.invariant (I := fun p => KnowsAmong jobs p.store) hp fun p a _ hI ha hnext => hI.next hnext (hok p a ha)

end known

/-- The search of ride ⟨0, 1⟩ is to go on after 1500 ms, and so is a scan that finds it
without a batch. Both start-dispatch jobs are executed while a late rejection holds the
ride's lock, and count as completed. -/
def lostStart : List Step :=
  .call (.requestRide 7 ⟨0, 0⟩ ⟨0, 0⟩ ⟨none, []⟩) :: run 0 14 ++
  .call (.work (.dispatchStart ⟨0, 1⟩ 1 .requested)) :: run 1 26 ++
  .env (.tick 1500) :: .call (.handleDriverRejection ⟨0, 1⟩ 1 .timeout) :: run 2 2 ++
  .call (.work (.dispatchStart ⟨0, 1⟩ 3 .expandRadius)) :: run 3 4 ++
  .call .recoverDispatchingRides :: run 4 4 ++
  .call (.work (.dispatchStart ⟨0, 1⟩ 3 .recoveryNoBatch)) :: run 5 4 ++ run 2 4

def lostJobs : List JobId :=
  [.persistRide ⟨0, 1⟩ 1, .dispatchStart ⟨0, 1⟩ 1 .requested, .persistRide ⟨0, 1⟩ 2,
    .persistRide ⟨0, 1⟩ 3, .dispatchStart ⟨0, 1⟩ 3 .expandRadius,
    .dispatchStart ⟨0, 1⟩ 3 .recoveryNoBatch]

/-- Nothing is in flight after `lostStart`, and every scan from then on finds its job id
taken. -/
theorem ride_orphaned :
    ¬ ∀ as p, (system townEnv).Run (fun p a => lasting p a = true) initial as p →
      LeavesNoOrphan townEnv p := by
  intro h
  let check (p : State) (a : Step) : Bool := lasting p a && Checked (Cmd.addsAmong lostJobs) p a
  let scan : List Step := .call .recoverDispatchingRides :: run 6 4
  have hcheck : ∀ p a, check p a = true →
      lasting p a = true ∧ Checked (Cmd.addsAmong lostJobs) p a = true := by
    intro p a hok
    exact Bool.and_eq_true_iff.mp hok
  have hsteps : ((system townEnv).steps check lostStart initial).any (fun p =>
      decide (p.threads.length = 6 ∧ Idle p = true) &&
      ((system townEnv).steps check scan p).any fun q =>
        Running q 6 = false ∧ ⟨0, 1⟩ ∈ q.store.activeRides ∧
          (q.store.ride ⟨0, 1⟩).status = some .dispatching ∧
          (q.store.ride ⟨0, 1⟩).currentBatchId = none ∧
          ∀ job ∈ lostJobs, job.dispatches ⟨0, 1⟩ → (q.store.jobs job).any JobState.pending = false) =
      true := by decide +kernel
  obtain ⟨p, hrun, hp⟩ := System.exists_run hcheck hsteps
  obtain ⟨hp, hscan⟩ := Bool.and_eq_true_iff.mp hp
  obtain ⟨hlen, -⟩ := of_decide_eq_true hp
  obtain ⟨q, hrun', hq⟩ := System.exists_run hcheck hscan
  obtain ⟨hdone, hactive, hst, hbatch, hjobs⟩ := of_decide_eq_true hq
  have hknown : KnowsAmong lostJobs p.store := KnowsAmong.run hrun (fun p a hok => hok.2) fun _ _ => rfl
  have hknown' : KnowsAmong lostJobs q.store := KnowsAmong.run hrun' (fun p a hok => hok.2) hknown
  have horphan : Orphan ⟨0, 1⟩ q.store := by
    refine ⟨hactive, .inr hst, fun hopen => hopen.1 hbatch, ?_⟩
    rintro ⟨job, hdisp, hpending⟩
    obtain ⟨state, hstate, -⟩ := (Option.any_eq_true _ _).mp hpending
    rw [hjobs job (hknown'.mem hstate) hdisp] at hpending
    cases hpending
  have hfull : LeavesNoOrphan townEnv p := h lostStart p (hrun.mono fun p a hok => hok.1)
  refine hfull 4 q ?_ (by rw [hlen]; exact hdone) ⟨0, 1⟩ horphan
  rw [hlen]
  exact hrun'.mono fun _ _ _ => trivial

end YatriGo
