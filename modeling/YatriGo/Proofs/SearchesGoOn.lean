import YatriGo.Proofs.SearchDebts

/-! No search for a driver is lost. While a ride is looked for, the job that goes on with it waits, or an operation is
still running that ends the search or adds the job. -/

namespace YatriGo
open Concurrent

/-- The command of the step finds the search that depends on it attended. -/
def Attended (p : State) : Step → Bool
  | .step i =>
    match p.threads[i]? with
    | some (op, .cmd c _) => c.attended op p.store
    | _ => true
  | _ => true

/-- A ride that a driver is looked for has its job waiting, or an operation in flight; at rest it has its job. -/
structure SearchesGoOn (env : Env) (ok : State → Step → Prop) : Prop where
  running : ∀ as q r, (system env).Run ok initial as q → (q.store.ride r).sought →
    q.store.awaits (r, (q.store.ride r).currentBatchId) ∨ ∃ i, Running q i = true
  idle : ∀ as q r, (system env).Run ok initial as q → Idle q = true → (q.store.ride r).sought →
    q.store.awaits (r, (q.store.ride r).currentBatchId)

variable {env : Env} {i : ℕ} {β : Type} {r : RideId} {s : Store} {ws : List Write} {p q : State} {a : Step}

section updates

/-- No update begins a search at a batch. -/
theorem RideWrite.unbatched {h g : RideHash} {fields : List RideField} (hw : RideWrite env h fields) (hsince : Since h g)
    (hst : (g.hset fields).status = some .requested) : (g.hset fields).currentBatchId = none := by
  have hworking : h.working → g.status ≠ some .requested := by
    intro hworking hg
    rcases hsince.working hworking with hst | hst
    · rw [hg] at hst
      cases hst
    · rw [hg] at hst
      cases hst
  cases hw with
  | start now hread =>
    rw [hset_startFields.1] at hst
    cases hst
  | clear now hread => exact hset_clearBatchFields.2.2
  | exhaust now hread => exact hset_exhaustFields.2.2
  | expand nextRound nextRadius now hread => exact hset_expandFields.2.2
  | batch batchId batchDrivers expiresAt now hread =>
    rw [hset_batchFields.1] at hst
    exact absurd hst (hworking hread)
  | reject exhausted now hread =>
    rw [hset_rejectFields.1] at hst
    exact absurd hst (hworking (.inl hread))
  | transition current next options now hread hnext hto hdriver =>
    rw [(hset_transitionFields hdriver).1, Option.some.injEq] at hst
    rw [hst] at hnext
    have hnever : RideStatus.requested ∉ rideTransitions current := by cases current <;> decide
    exact absurd hnext hnever
  | requeue d now hread hd => exact hset_requeueFields.2.2

theorem update_unbatched (h : Update env False i ws s) (hs : Unbatched s) : Unbatched (s.multi ws) := by
  have hsame : (∀ w ∈ ws, w.sparesRides) → Unbatched (s.multi ws) := by
    intro hspares
    unfold Unbatched
    rw [(multi_sameRides hspares).ride]
    exact hs
  cases h with
  | background h => exact hsame h.sparesRides
  | create c origin destination metadata now r' mine seq absent alone =>
    intro r hst
    change (put s.ride r' _ r).status = _ at hst
    show (put s.ride r' _ r).currentBatchId = none
    rcases eq_or_ne r r' with rfl | hne
    · rw [put_self]
      rfl
    · rw [put_of_ne hne] at hst ⊢
      exact hs r hst
  | ride pre post r' g fields holds since write aside =>
    intro r hst
    rw [(multi_update aside).1] at hst ⊢
    rcases eq_or_ne r r' with rfl | hne
    · rw [put_self] at hst ⊢
      exact write.unbatched since hst
    · rw [put_of_ne hne] at hst ⊢
      exact hs r hst
  | cleanup r' notifiedDrivers currentCustomerRide holds terminal => exact hsame cleanupWrites_sparesRides
  | release d r' driverHash driverActiveRide heartbeatExists now holds driver => exact hsame releaseWrites_sparesRides

theorem exec_unbatched {c : Cmd β} (hc : RideGuar env False i c s) (hs : Unbatched s) : Unbatched (exec env i c s).2 := by
  cases c with
  | multi ws => exact update_unbatched hc hs
  | evalAcceptRide r d acceptedAt reservation =>
    rcases @acceptRideScript_cases s r d acceptedAt reservation with ⟨-, heq⟩ | ⟨-, heq, -⟩
    · simp only [exec, heq]
      exact hs
    · simp only [exec, heq]
      intro r' hst
      change (put s.ride r _ r').status = _ at hst
      show (put s.ride r _ r').currentBatchId = none
      rcases eq_or_ne r' r with rfl | hne
      · rw [put_self] at hst
        cases hst
      · rw [put_of_ne hne] at hst ⊢
        exact hs r' hst
  | _ =>
    unfold Unbatched
    rw [(exec_sameRides (by trivial)).ride]
    exact hs

end updates

section runs

theorem searches_sound : (searches env).Sound Store.adrift where
  code := balanced_searches.code
  known := fun _ _ _ _ _ _ => trivial
  event := fun _ _ _ _ he => ⟨id, adrift_event he⟩
  exec := fun i β c s x hx => by
    refine ⟨trivial, ?_, not_not.mpr hx⟩
    by_cases hbefore : s.adrift x
    · exact .inl hbefore
    · exact .inr ⟨hx, hbefore⟩

/-- The contract about rides holds, and no search has begun at a batch. -/
structure WellBegun (env : Env) (p : State) : Prop where
  contract : (rides env False).Holds p
  unbatched : Unbatched p.store

theorem WellBegun.next (h : WellBegun env p) (hkept : RideLocksKept p a) (hnext : (system env).next p a = some q) :
    WellBegun env q := by
  refine ⟨rides_run (fun _ _ hk => RideLocksKept.keeps hk) (.single hkept hnext) h.contract, ?_⟩
  rcases next_cases hnext with hsame | ⟨i, op, β, c, k, rfl, hi, hstore⟩
  · unfold Unbatched
    rw [hsame.ride]
    exact h.unbatched
  · rw [hstore]
    exact exec_unbatched (h.contract.guar hi trivial) h.unbatched

/-- What a thread counts on while its ride lock lasts. -/
theorem WellBegun.allows (h : WellBegun env p) (hkept : RideLocksKept p a) (hattended : Attended p a = true)
    (hnext : (system env).next p a = some q) : (searches env).Allows p a q := by
  have hok : (rides env False).Ok p a := by
    cases a with
    | call op => trivial
    | step i => exact fun _ _ _ _ _ => trivial
    | env e =>
      rintro k hk rfl
      exact RideLocksKept.keeps hk hkept
  constructor
  · rintro i op β c k rfl hi
    refine ⟨?_, h.unbatched, ?_⟩
    · simp only [Attended, hi] at hattended
      exact hattended
    · have hguar : RideGuar env False i c p.store := h.contract.guar hi trivial
      cases c with
      | multi ws => exact underLock_update hguar
      | _ => trivial
  · exact fun i hother hi => h.contract.rely rides_sound hok hnext hi hother

/-- In every run whose ride locks last, and in which the searches that depend on a command are attended. -/
theorem searches_go_on (env : Env) : SearchesGoOn env fun p a => RideLocksKept p a ∧ Attended p a = true := by
  have hrunning : ∀ as q r, (system env).Run (fun p a => RideLocksKept p a ∧ Attended p a = true) initial as q →
      (q.store.ride r).sought → q.store.awaits (r, (q.store.ride r).currentBatchId) ∨ ∃ i, Running q i = true := by
    intro as q r hrun hsought
    have hbegun : WellBegun env initial := ⟨rides_initial, fun r hst => by cases hst⟩
    have hinitial : ∀ x, ¬ ({} : Store).adrift x := by
      rintro x ⟨⟨hst | hst, -⟩, -⟩
      · cases hst
      · cases hst
    obtain ⟨debts, hcovers⟩ := Debts.Covers.run (I := WellBegun env) searches_sound hbegun
      (fun m c m' hm hok hnext => ⟨hm.next hok.1 hnext, hm.allows hok.1 hok.2 hnext⟩) hrun hinitial
    by_cases hawaits : q.store.awaits (r, (q.store.ride r).currentBatchId)
    · exact .inl hawaits
    · have hadrift : q.store.adrift (r, (q.store.ride r).currentBatchId) := ⟨⟨hsought, rfl⟩, hawaits⟩
      obtain ⟨i, op, β, c, k, hthread⟩ := hcovers.running hadrift
      exact .inr ⟨i, running_of_thread hthread⟩
  refine ⟨hrunning, fun as q r hrun hidle hsought => (hrunning as q r hrun hsought).resolve_right ?_⟩
  rintro ⟨i, hi⟩
  rw [running_of_idle hidle i] at hi
  cases hi

/-- The search of a new ride is to start while a late rejection holds the ride's lock, so the job that starts it
counts as completed, and nobody looks for a driver. -/
def startRefused : List Step :=
  .call (.requestRide 7 ⟨0, 0⟩ ⟨0, 0⟩ ⟨none, []⟩) :: run 0 14 ++
  .call (.handleDriverRejection ⟨0, 1⟩ 1 .timeout) :: run 1 2 ++
  .call (.work (.dispatchStart ⟨0, 1⟩ 1 .requested)) :: run 2 4 ++ run 1 2

def startRefusedJobs : List JobId := [.persistRide ⟨0, 1⟩ 1, .dispatchStart ⟨0, 1⟩ 1 .requested]

theorem search_lost : ¬ SearchesGoOn townEnv RideLocksKept := by
  intro h
  let check (p : State) (a : Step) : Bool := lasting p a && Checked (Cmd.addsAmong startRefusedJobs) p a
  have hcheck : ∀ p a, check p a = true → RideLocksKept p a ∧ Checked (Cmd.addsAmong startRefusedJobs) p a = true := by
    intro p a hok
    obtain ⟨hlasting, hadds⟩ := Bool.and_eq_true_iff.mp hok
    exact ⟨rideLocksKept_of_lasting p a hlasting, hadds⟩
  have hsteps : ((system townEnv).steps check startRefused initial).any (fun q =>
      decide (Idle q = true ∧ (q.store.ride ⟨0, 1⟩).status = some .requested ∧
        ∀ job ∈ startRefusedJobs, job.resumes ≠ none → (q.store.jobs job).all fun state => !state.waits)) = true := by
    decide +kernel
  obtain ⟨q, hrun, hq⟩ := System.exists_run hcheck hsteps
  obtain ⟨hidle, hst, hjobs⟩ := of_decide_eq_true hq
  have hknown : KnowsAmong startRefusedJobs q.store := KnowsAmong.run hrun (fun _ _ hok => hok.2) fun _ _ => rfl
  obtain ⟨job, readyAt, attemptsMade, hresumes, hwaiting⟩ :=
    h.idle startRefused q ⟨0, 1⟩ (hrun.mono fun _ _ hok => hok.1) hidle (.inl hst)
  -- the job that starts the search is the only one for it, and is done
  by_cases hjob : job ∈ startRefusedJobs
  · have hdone := hjobs job hjob (by rw [hresumes]; exact Option.some_ne_none _)
    rw [hwaiting] at hdone
    cases hdone
  · rw [hknown job hjob] at hwaiting
    cases hwaiting

end runs

end YatriGo
