import YatriGo.Proofs.Balanced
import YatriGo.Proofs.Orphans

/-! A search goes on by jobs: one that starts it between two batches, and one that ends each batch. Whoever
leaves a search without such a job adds one before it ends, and so does the worker that takes it. -/

namespace YatriGo
open Concurrent

/-- A driver is looked for. -/
def RideHash.sought (h : RideHash) : Prop := h.status = some .requested ∨ h.status = some .dispatching

/-- A ride, and the batch that the search for its driver is at, if it is at one. -/
abbrev SearchPoint := RideId × Option BatchId

def RideHash.searches (h : RideHash) (batchId : Option BatchId) : Prop := h.sought ∧ h.currentBatchId = batchId

instance (h : RideHash) (batchId : Option BatchId) : Decidable (h.searches batchId) :=
  inferInstanceAs (Decidable ((h.status = some .requested ∨ h.status = some .dispatching) ∧ h.currentBatchId = batchId))

/-- The point of a search from which the job goes on. -/
def JobId.resumes : JobId → Option SearchPoint
  | .dispatchStart r _ _ => some (r, none)
  | .dispatchTimeout r batchId => some (r, some batchId)
  | _ => none

/-- A job that goes on with the search is waiting. -/
def Store.awaits (s : Store) (x : SearchPoint) : Prop :=
  ∃ job readyAt attemptsMade, job.resumes = some x ∧ s.jobs job = some (.waiting readyAt attemptsMade)

def Store.adrift (s : Store) (x : SearchPoint) : Prop := (s.ride x.1).searches x.2 ∧ ¬ s.awaits x

def JobState.waits : JobState → Bool
  | .waiting .. => true
  | _ => false

/-- The job is tried again when it fails. -/
def JobState.retried : JobState → Bool
  | .waiting .. => true
  | .active attemptsMade => attemptsMade + 1 < maxAttempts
  | _ => false

/-- What a search depends on to go on: Redis accepts the position that it searches around, the worker that starts it
finds the ride's lock free, a job that is added for it is new or is waiting already, and the job of a batch is tried
again when it fails. -/
def Cmd.attended (op : Op) (s : Store) : ⦃β : Type⦄ → Cmd β → Bool
  | _, .setNX (.ride r) .. =>
    match op with
    | .work (.dispatchStart ..) => (s.ride r).searches none → s.locks (.ride r) = none
    | _ => true
  | _, .addJob job _ =>
    op.rescues || job.resumes.all fun x => (s.ride x.1).searches x.2 → (s.jobs job).all JobState.waits
  | _, .finishJob (.dispatchTimeout r batchId) false =>
    (s.ride r).searches (some batchId) → (s.jobs (.dispatchTimeout r batchId)).any JobState.retried
  | _, .geosearch origin radiusKm count => searchable origin radiusKm count
  | _, _ => true

/-- A ride has no batch before its search has started. -/
def Unbatched (s : Store) : Prop := ∀ r, (s.ride r).status = some .requested → (s.ride r).currentBatchId = none

/-- A thread owes a job for each search that it has left adrift. -/
def searches (env : Env) : Debts (system env) SearchPoint where
  known := fun _ _ => True
  changed := fun s t x => t.adrift x ∧ ¬ s.adrift x
  pays := fun _ _ t => {x | ¬ t.adrift x}
  assume := fun i op _ c s => c.attended op s = true ∧ Unbatched s ∧ c.underLock i s
  perform := fun _ _ _ _ => True
  rely := RideRely False
  refl := fun _ _ => RideRely.refl
  trans := fun _ _ _ _ => RideRely.trans

/-- The program runs in thread `i`, and starts with the searches `due` to add jobs for. -/
abbrev Resumes (env : Env) (i : ℕ) (op : Op) (due : Set SearchPoint) {α : Type} (p : App α) (rest : α → Set SearchPoint) :
    Prop := (searches env).Pays i op due p rest

/-- Commands that leave no search adrift. -/
def Cmd.harmless : ⦃β : Type⦄ → Cmd β → Prop
  | _, .multi ws => ∀ w ∈ ws, w.sparesRides
  | _, .takeJob _ => False
  | _, _ => True

variable {env : Env} {i : ℕ} {op : Op} {α β : Type} {p : App α} {due : Set SearchPoint} {rest : α → Set SearchPoint}
  {r : RideId} {d : DriverId} {ride : RideHash} {now : Time} {s t : Store} {x : SearchPoint} {job : JobId}
  {batchId : BatchId}

section jobs

theorem addJob_waits {job' : JobId} {delay readyAt attemptsMade : ℕ} (h : s.jobs job = some (.waiting readyAt attemptsMade)) :
    (addJob job' delay s).jobs job = some (.waiting readyAt attemptsMade) := by
  unfold addJob
  cases hknown : s.jobs job' with
  | some state => exact h
  | none =>
    have hne : job ≠ job' := by
      rintro rfl
      rw [h] at hknown
      cases hknown
    exact (put_of_ne hne).trans h

theorem finishJob_waits {job' : JobId} {succeeded : Bool} {readyAt attemptsMade : ℕ}
    (h : s.jobs job = some (.waiting readyAt attemptsMade)) :
    (finishJob job' succeeded s).jobs job = some (.waiting readyAt attemptsMade) := by
  unfold finishJob
  split
  · next attempts hactive =>
    have hne : job ≠ job' := by
      rintro rfl
      rw [h] at hactive
      cases hactive
    exact (put_of_ne hne).trans h
  · exact h

/-- A harmless command leaves the waiting jobs waiting. -/
theorem awaits_exec {c : Cmd β} (hc : c.harmless) (h : s.awaits x) : (exec env i c s).2.awaits x := by
  obtain ⟨job, readyAt, attemptsMade, hresumes, hwaiting⟩ := h
  refine ⟨job, readyAt, attemptsMade, hresumes, ?_⟩
  have hjobs : c.queueless → _ := @exec_jobs s env i β c
  cases c with
  | takeJob job' => exact hc.elim
  | addJob job' delay => exact addJob_waits hwaiting
  | finishJob job' succeeded => exact finishJob_waits hwaiting
  | _ =>
    rw [hjobs trivial]
    exact hwaiting

/-- A harmless command begins no search, and moves none to another batch. -/
theorem searches_exec {c : Cmd β} (hc : c.harmless) (h : ((exec env i c s).2.ride x.1).searches x.2) :
    (s.ride x.1).searches x.2 := by
  have hsame : SameRides s (exec env i c s).2 → (s.ride x.1).searches x.2 := by
    intro hsame
    rw [hsame.ride] at h
    exact h
  cases c with
  | multi ws => exact hsame (multi_sameRides hc)
  | evalAcceptRide r d acceptedAt reservation =>
    rcases @acceptRideScript_cases s r d acceptedAt reservation with ⟨-, heq⟩ | ⟨-, heq, -⟩
    · simp only [exec, heq] at h
      exact h
    · simp only [exec, heq] at h
      by_cases hr : x.1 = r
      · -- an accepted ride is no longer looked for
        have hride : (acceptRideCommit r d acceptedAt s).ride x.1 = (s.ride r).accept d acceptedAt := by
          rw [hr]
          exact put_self
        rw [hride] at h
        obtain ⟨hsought | hsought, -⟩ := h
        · cases hsought
        · cases hsought
      · have hride : (acceptRideCommit r d acceptedAt s).ride x.1 = s.ride x.1 := put_of_ne hr
        rw [hride] at h
        exact h
  | _ => exact hsame (exec_sameRides (by trivial))

theorem adrift_exec {c : Cmd β} (hc : c.harmless) (h : (exec env i c s).2.adrift x) : s.adrift x :=
  ⟨searches_exec hc h.1, fun hawaits => h.2 (awaits_exec hc hawaits)⟩

theorem adrift_event {e : Event} (he : e.apply s = some t) (h : t.adrift x) : s.adrift x := by
  obtain ⟨hsearches, hnone⟩ := h
  rw [(event_sameKeys he).ride] at hsearches
  refine ⟨hsearches, fun hawaits => hnone ?_⟩
  obtain ⟨job, readyAt, attemptsMade, hresumes, hwaiting⟩ := hawaits
  -- a job that is given back or forgotten was not waiting
  have hother : ∀ {job' : JobId} {state : Option JobState}, s.jobs job' ≠ some (.waiting readyAt attemptsMade) →
      put s.jobs job' state job = some (.waiting readyAt attemptsMade) := by
    intro job' state hstate
    have hne : job ≠ job' := by
      rintro rfl
      exact hstate hwaiting
    exact (put_of_ne hne).trans hwaiting
  refine ⟨job, readyAt, attemptsMade, hresumes, ?_⟩
  cases event_happens he with
  | redeliver job' attempts hactive => exact hother (by rw [hactive]; exact fun h => by cases h)
  | forget job' hended => exact hother (by rcases hended with h | h <;> rw [h] <;> exact fun h => by cases h)
  | _ => exact hwaiting

end jobs

section rules

theorem Cmd.slight.harmless {c : Cmd β} (h : c.slight) : c.harmless := by
  cases c with
  | takeJob job => exact h.elim
  | multi ws =>
    intro w hw
    have hminor : w.minor := h w hw
    cases w <;> trivial
  | _ => trivial

theorem Slight.harmless (h : Slight p) : p.Uses Cmd.harmless := h.mono fun _ _ hc => hc.harmless

theorem heedful_searches : Heedful (searches env) Cmd.harmless where
  slight := fun _ _ hc => hc.harmless
  locks := fun _ _ => ⟨trivial, fun _ => trivial⟩
  perform := fun _ _ _ _ _ => trivial
  news := fun _ _ _ _ _ hc _ hnews => hnews.2 (adrift_exec hc hnews.1)

theorem owing_after {c : Cmd β} {among : Set SearchPoint} {s : Store × Set SearchPoint} (h : (searches env).Owing due s)
    (hold : ∀ x ∈ due, ((system env).exec i c s.1).2.adrift x → x ∈ among)
    (hnew : ∀ x, ((system env).exec i c s.1).2.adrift x → ¬ s.1.adrift x → x ∈ among) :
    (searches env).Owing among (((searches env).view i op).exec c s).2 := by
  refine ⟨?_, fun _ _ => trivial⟩
  rintro x ⟨-, hfrom, hunpaid⟩
  have hadrift : ((system env).exec i c s.1).2.adrift x := not_not.mp hunpaid
  rcases hfrom with hdue | hnews
  · exact hold x (h.among hdue) hadrift
  · exact hnew x hadrift hnews.2

theorem owing_harmless {c : Cmd β} {among : Set SearchPoint} {s : Store × Set SearchPoint} (hs : (searches env).Owing due s)
    (hc : c.harmless) (hold : ∀ x ∈ due, (s.1.ride x.1).searches x.2 → ¬ ((system env).exec i c s.1).2.awaits x → x ∈ among) :
    (searches env).Owing among (((searches env).view i op).exec c s).2 :=
  owing_after hs (fun x hx hafter => hold x hx (searches_exec hc hafter.1) hafter.2)
    fun _ hafter hbefore => absurd (adrift_exec hc hafter) hbefore

theorem resumes_command {c : Cmd α} (hc : c.harmless)
    (hold : ∀ s x, (searches env).assume i op c s → x ∈ due → (s.ride x.1).searches x.2 →
      ¬ ((system env).exec i c s).2.awaits x → x ∈ rest ((system env).exec i c s).1) :
    Resumes env i op due (redis c) rest :=
  Debts.Pays.cmd (fun _ => trivial) fun s hs hassume =>
    Debts.Pays.ret subset_rfl _ (owing_harmless hs hc fun x => hold s.1 x hassume)

/-- The points at which a write of these fields can leave the search for a driver. -/
def pointsOf (r : RideId) (fields : List RideField) : Set SearchPoint :=
  {x | x.1 = r ∧ ∃ h : RideHash, (h.hset fields).searches x.2}

theorem awaits_multi {ws : List Write} : (s.multi ws).awaits x ↔ s.awaits x := by
  unfold Store.awaits
  rw [multi_jobs]

theorem adrift_update {pre post : List Write} {fields : List RideField} (haside : ∀ w ∈ pre ++ post, w.aside)
    (hafter : (s.multi (pre ++ .hsetRide r fields :: post)).adrift x) :
    x.1 ≠ r ∧ s.adrift x ∨ x.1 = r ∧ ((s.ride r).hset fields).searches x.2 ∧ ¬ s.awaits x := by
  obtain ⟨hsearches, hnone⟩ := hafter
  rw [awaits_multi] at hnone
  rw [(multi_update haside).1] at hsearches
  rcases eq_or_ne x.1 r with hr | hr
  · rw [hr, put_self] at hsearches
    exact .inr ⟨hr, hsearches, hnone⟩
  · rw [put_of_ne hr] at hsearches
    exact .inl ⟨hr, hsearches, hnone⟩

theorem resumes_update {pre post : List Write} {fields : List RideField} (haside : ∀ w ∈ pre ++ post, w.aside)
    (hdue : ∀ x ∈ due, x.1 = r) :
    Resumes env i op due (redis (.multi (pre ++ .hsetRide r fields :: post))) fun _ => pointsOf r fields := by
  refine Debts.Pays.cmd (fun _ => trivial) fun s hs _ => Debts.Pays.ret subset_rfl _ (owing_after hs (fun x hx hafter => ?_) ?_)
  · rcases adrift_update haside hafter with ⟨hne, -⟩ | ⟨hr, hsearches, -⟩
    · exact absurd (hdue x hx) hne
    · exact ⟨hr, _, hsearches⟩
  · intro x hafter hbefore
    rcases adrift_update haside hafter with ⟨-, hsame⟩ | ⟨hr, hsearches, -⟩
    · exact absurd hsame hbefore
    · exact ⟨hr, _, hsearches⟩

/-- While the thread holds the ride's lock, the ride is as it was read, or accepted since. -/
def AsRead (i : ℕ) (r : RideId) (ride : RideHash) (s : Store) : Prop := Holds i (.ride r) s → Since ride (s.ride r)

theorem asRead_rely (hst : RideRely False i s t) (h : AsRead i r ride s) : AsRead i r ride t := by
  rintro ⟨lease, hlease, hown⟩
  have hholds : Holds i (.ride r) s := ⟨lease, (hst.leases (.ride r) lease trivial hown).mpr hlease, hown⟩
  exact (h hholds).trans (hst.locked r hholds)

theorem resumes_read {γ : Type} {c : Cmd γ} {k : γ → App α} (hc : c.harmless) (hsame : ∀ s, (exec env i c s).2 = s)
    (hk : ∀ a, (searches env).PaysFrom i op (AsRead i r ride) due (k a) rest) :
    (searches env).PaysFrom i op (AsRead i r ride) due ((redis c).bind k) rest := by
  refine Debts.PaysFrom.read (fun s t hst => asRead_rely hst) (fun _ => trivial) (fun s hs => ?_) (fun s x _ hnews => ?_) hk
  · show AsRead i r ride (exec env i c s).2
    rw [hsame]
    exact hs
  · exact hnews.2 (adrift_exec hc hnews.1)

theorem resumes_heldUpdate {pre post : List Write} {fields : List RideField} (haside : ∀ w ∈ pre ++ post, w.aside)
    (hsame : ∀ h, Since ride h → ∀ slot, (h.hset fields).searches slot → h.searches slot) :
    (searches env).PaysFrom i op (AsRead i r ride) due (redis (.multi (pre ++ .hsetRide r fields :: post))) fun _ => due := by
  refine Debts.PaysFrom.cmd (fun s t hst => asRead_rely hst) (fun _ => trivial) fun s hs hread hassume => ?_
  have hholds : Holds i (.ride r) s.1 :=
    hassume.2.2 r fields (List.mem_append_right _ (List.mem_cons_self ..))
  refine Debts.Pays.ret subset_rfl _ (owing_after hs (fun x hx _ => hx) fun x hafter hbefore => ?_)
  rcases adrift_update haside hafter with ⟨-, hsame'⟩ | ⟨hr, hsearches, hnone⟩
  · exact absurd hsame' hbefore
  · refine absurd ⟨?_, hnone⟩ hbefore
    rw [hr]
    exact hsame _ (hread hholds) _ hsearches

/-- What is left to pay when the ride is read. -/
def standing (due : Set SearchPoint) (ride : RideHash) : Set SearchPoint := {x | x ∈ due ∧ ride.searches x.2}

/-- A thread that has read the ride knows at which point the search is. -/
theorem resumes_getRide {f : Option RideHash → App β} {rest : β → Set SearchPoint} (hdue : ∀ x ∈ due, x.1 = r)
    (hnone : Resumes env i op ∅ (f none) rest)
    (hsome : ∀ ride, (ride.status = some .requested → ride.currentBatchId = none) →
      (searches env).PaysFrom i op (AsRead i r ride) (standing due ride) (f (some ride)) rest) :
    Resumes env i op due ((getRide r).bind f) rest := by
  refine Debts.Pays.cmd (fun _ => trivial) fun s hs hassume => ?_
  show ((searches env).view i op).Safe _ (f (toRideSnapshot (s.1.ride r))) _
  have hafter : (searches env).Owing (standing due (s.1.ride r)) (((searches env).view i op).exec (.hgetallRide r) s).2 := by
    refine owing_harmless hs trivial fun x hx hsearches _ => ⟨hx, ?_⟩
    rw [← hdue x hx]
    exact hsearches
  unfold toRideSnapshot
  split_ifs with hexist
  · refine hnone _ (hafter.mono ?_)
    rintro x ⟨-, ⟨hsought | hsought, -⟩⟩
    · rw [hexist] at hsought
      cases hsought
    · rw [hexist] at hsought
      cases hsought
  · exact hsome _ (hassume.2.1 r) _ hafter fun _ => .same

/-- A job that is added for the search is waiting then. -/
theorem resumes_addJob {delay : ℕ} (hop : op.rescues = false) (hdue : ∀ x ∈ due, job.resumes = some x) :
    Resumes env i op due (redis (.addJob job delay)) fun _ => ∅ := by
  refine resumes_command trivial fun s x hassume hx hsearches hnone => ?_
  have hjob : job.resumes = some x := hdue x hx
  have hstate : (s.jobs job).all JobState.waits = true := by
    have hattended := hassume.1
    simp only [Cmd.attended, hop, hjob, Bool.false_or, Option.all_some, decide_eq_true_eq] at hattended
    exact hattended hsearches
  refine absurd ?_ hnone
  show (addJob job delay s).awaits x
  cases hknown : s.jobs job with
  | none =>
    refine ⟨job, s.clock + delay, 0, hjob, ?_⟩
    unfold addJob
    rw [hknown]
    exact put_self
  | some state =>
    rw [hknown] at hstate
    cases state with
    | waiting readyAt attemptsMade => exact ⟨job, readyAt, attemptsMade, hjob, addJob_waits hknown⟩
    | active attemptsMade => cases hstate
    | completed => cases hstate
    | failed => cases hstate

theorem takeJob_waits {job' : JobId} {readyAt attemptsMade : ℕ} (h : s.jobs job' = some (.waiting readyAt attemptsMade))
    (hafter : (takeJob job s).2.jobs job' ≠ some (.waiting readyAt attemptsMade)) : (takeJob job s).1 = true ∧ job' = job := by
  unfold takeJob at hafter ⊢
  split at hafter
  · next ready attempts hjob =>
    split_ifs at hafter with hready
    · refine ⟨if_pos hready ▸ rfl, ?_⟩
      by_contra hne
      exact hafter ((put_of_ne hne).trans h)
    · exact absurd h hafter
  · exact absurd h hafter

theorem resumes_takeJob : Resumes env i op ∅ (redis (.takeJob job))
    fun taken => {x | taken = true ∧ job.resumes = some x} := by
  refine Debts.Pays.cmd (fun _ => trivial) fun s hs _ => Debts.Pays.ret subset_rfl _ (owing_after hs (fun x hx => hx.elim) ?_)
  rintro x ⟨hsearches, hnone⟩ hbefore
  have hride : (takeJob job s.1).2.ride = s.1.ride := by
    obtain ⟨jobs, hjobs⟩ := @takeJob_eq s.1 job
    rw [hjobs]
  have hsearches : (s.1.ride x.1).searches x.2 := by
    rw [← hride]
    exact hsearches
  obtain ⟨job', readyAt, attemptsMade, hresumes, hwaiting⟩ : s.1.awaits x := not_not.mp fun h => hbefore ⟨hsearches, h⟩
  obtain ⟨htaken, rfl⟩ := takeJob_waits hwaiting fun hafter => hnone ⟨job', readyAt, attemptsMade, hresumes, hafter⟩
  exact ⟨htaken, hresumes⟩

theorem resumes_retry (hdue : ∀ x ∈ due, x = (r, some batchId)) :
    Resumes env i op due (redis (.finishJob (.dispatchTimeout r batchId) false)) fun _ => ∅ := by
  refine resumes_command trivial fun s x hassume hx hsearches hnone => ?_
  rw [hdue x hx] at hsearches
  obtain ⟨state, hstate, hretried⟩ : ∃ state, s.jobs (.dispatchTimeout r batchId) = some state ∧ state.retried = true :=
    (Option.any_eq_true _ _).mp (of_decide_eq_true hassume.1 hsearches)
  have hresumes : JobId.resumes (.dispatchTimeout r batchId) = some x := congrArg some (hdue x hx).symm
  refine absurd ?_ hnone
  show (finishJob (.dispatchTimeout r batchId) false s).awaits x
  cases state with
  | waiting readyAt attemptsMade => exact ⟨_, readyAt, attemptsMade, hresumes, finishJob_waits hstate⟩
  | active attemptsMade =>
    refine ⟨_, s.clock, attemptsMade + 1, hresumes, ?_⟩
    simp only [finishJob, hstate, Bool.false_eq_true, if_false, if_pos (of_decide_eq_true hretried)]
    exact put_self
  | completed => cases hretried
  | failed => cases hretried

end rules

section returns

theorem returns_isDriverReservable : (isDriverReservable env d).NoThrow := by
  have hghost : (cleanupGhostAvailability d).NoThrow := fun _ _ => trivial
  have hcooldown : (isDriverOnRejectCooldown env d).NoThrow := by
    unfold isDriverOnRejectCooldown
    split_ifs
    · trivial
    · exact fun _ => trivial
  have hstate : (getDriverState d).NoThrow := fun _ => trivial
  refine hstate.bind fun driverState activeRideId reservation heartbeatExists => hcooldown.bind fun rejectCooldown => ?_
  cases driverState with
  | none => exact hghost.bind fun _ => trivial
  | some driverState =>
    dsimp only
    split_ifs
    · trivial
    · exact hghost.bind fun _ => trivial

theorem returns_reserveLoop (ds reserved : List DriverId) : (reserveLoop env r batchId ds reserved).NoThrow := by
  induction ds generalizing reserved with
  | nil => trivial
  | cons d ds ih =>
    refine returns_isDriverReservable.bind fun reservable => ?_
    split_ifs
    · refine Prog.NoThrow.bind (fun _ => trivial) fun ok => ?_
      dsimp only
      split_ifs
      · trivial
      · exact ih _
      · trivial
      · exact ih _
    · exact ih _

end returns

section harmless

theorem harmless_multi {ws : List Write} (h : ∀ w ∈ ws, w.peripheral) : (redis (.multi ws)).Uses Cmd.harmless :=
  ⟨fun w hw => (h w hw).sparesRides, fun _ => trivial⟩

theorem harmless_releaseDriverAvailability : (releaseDriverAvailability (some d) r now).Uses Cmd.harmless :=
  ⟨trivial, fun _ => ⟨trivial, fun _ => ⟨trivial, fun _ => harmless_multi releaseWrites_peripheral⟩⟩⟩

theorem harmless_cleanupTerminalRideKeys : (cleanupTerminalRideKeys r ride now).Uses Cmd.harmless := by
  refine ⟨trivial, fun notifiedDrivers => ⟨trivial, fun current => ⟨cleanupWrites_sparesRides, fun _ => ?_⟩⟩⟩
  refine slight_releaseBatchReservations.harmless.bind fun _ => ?_
  unfold releaseRideDriver
  cases ride.driverId with
  | none => trivial
  | some d => exact harmless_releaseDriverAvailability.bind fun _ => slight_enqueueDriverSync.harmless

theorem ofDrivers_searches : OfDrivers (searches env) Cmd.harmless fun _ => ∅ where
  toHeedful := heedful_searches
  persist := fun _ _ d state => heedful_searches.still (harmless_multi (BackgroundWrites.persist d state).peripheral)
  offline := fun _ _ d existing activeRideId now =>
    heedful_searches.still (harmless_multi (@BackgroundWrites.offline env d existing activeRideId now).peripheral)
  existsDriver := fun _ _ _ => (heedful_searches.read (by trivial)).mono subset_rfl fun _ => Set.empty_subset _
  driverSync := fun _ _ _ _ _ => heedful_searches.pass slight_enqueueDriverSync

end harmless

section dispatch

/-- The point of a search between two batches. -/
def betweenBatches (r : RideId) : Set SearchPoint := {(r, none)}

theorem betweenBatches_ride : ∀ x ∈ betweenBatches r, x.1 = r := by
  rintro x rfl
  rfl

theorem standing_ride (h : ∀ x ∈ due, x.1 = r) : ∀ x ∈ standing due ride, x.1 = r := fun x hx => h x hx.1

theorem pointsOf_between {fields : List RideField}
    (h : ∀ g : RideHash, (g.hset fields).sought → (g.hset fields).currentBatchId = none) : pointsOf r fields ⊆ betweenBatches r := by
  rintro x ⟨hr, g, hsought, hslot⟩
  exact Prod.ext hr (hslot.symm.trans (h g hsought))

theorem resumes_append {event : TimelineEventType} {actorType : ActorType} {actorId : Option ℕ} :
    Resumes env i op due (appendTimelineEvent r event actorType actorId now) fun _ => due :=
  heedful_searches.quiet slight_appendTimelineEvent.harmless returns_appendTimelineEvent

theorem resumes_rideSync {version : ℕ} : Resumes env i op due (enqueueRideSync r version) fun _ => due :=
  heedful_searches.read (by trivial)

theorem resumes_refresh : Resumes env i op due (refreshRideRealtimeKeys r) fun _ => due :=
  heedful_searches.quiet slight_refreshRideRealtimeKeys.harmless returns_refreshRideRealtimeKeys

theorem resumes_startJob {version delay : ℕ} {reason : StartReason} (hop : op.rescues = false) (hdue : due ⊆ betweenBatches r) :
    Resumes env i op due (enqueueDispatchStart r version delay reason) fun _ => ∅ :=
  resumes_addJob hop fun _ hx => congrArg some (hdue hx).symm

theorem resumes_exhaustSearch (hdue : ∀ x ∈ due, x.1 = r) : Resumes env i op due (exhaustSearch r ride now) fun _ => ∅ := by
  have hended : pointsOf r (exhaustFields ride now) ⊆ ∅ := by
    rintro x ⟨-, g, ⟨hsought | hsought, -⟩⟩
    · rw [hset_exhaustFields.1] at hsought
      cases hsought
    · rw [hset_exhaustFields.1] at hsought
      cases hsought
  have hupdate : Resumes env i op due (write (.hsetRide r (exhaustFields ride now))) fun _ => ∅ :=
    (@resumes_update env i op due r [] [] _ (fun w hw => by cases hw) hdue).mono subset_rfl fun _ => hended
  refine (hupdate.bind fun _ => heedful_searches.still ?_).bind fun updated => heedful_searches.still ?_
  · exact slight_refreshRideRealtimeKeys.harmless.bind fun _ => slight_getRide.harmless
  · cases updated with
    | none => trivial
    | some updated =>
      refine slight_appendTimelineEvent.harmless.bind fun _ => harmless_cleanupTerminalRideKeys.bind fun _ => ?_
      refine slight_enqueueRideSync.harmless.bind fun _ => slight_emitRideStatusUpdate.harmless.bind fun _ => ?_
      trivial

theorem resumes_expandSearch {nextRound : ℕ} {nextRadius : ℚ} (hop : op.rescues = false) (hdue : ∀ x ∈ due, x.1 = r) :
    Resumes env i op due (expandSearch env r ride nextRound nextRadius now) fun _ => ∅ := by
  have hupdate : Resumes env i op due (write (.hsetRide r (expandFields ride nextRound nextRadius now))) fun _ => betweenBatches r :=
    (@resumes_update env i op due r [] [] _ (fun w hw => by cases hw) hdue).mono subset_rfl fun _ =>
      pointsOf_between fun _ _ => hset_expandFields.2.2
  simp only [expandSearch, updateRideHash, Prog.bind_eq, Prog.bind_assoc]
  refine hupdate.bind fun _ => resumes_refresh.bind fun _ => resumes_getRide betweenBatches_ride ?_ fun updated _ => ?_
  · exact Debts.Pays.throw subset_rfl
  · refine Debts.Pays.given (resumes_append.bind fun _ => resumes_rideSync.bind fun _ => ?_)
    exact (resumes_startJob hop fun x hx => hx.1).bind fun _ => Debts.Pays.ret subset_rfl

/-- A batch that is sent ends by its job. -/
theorem resumes_sendBatch {ds : List DriverId} (hop : op.rescues = false) (hdue : ∀ x ∈ due, x.1 = r) :
    Resumes env i op due (sendBatch env r ride batchId ds now) fun _ => ∅ := by
  have hpoints : pointsOf r (batchFields ride batchId ds (now + env.dispatch.responseTtlMs) now) ⊆ {(r, some batchId)} := by
    rintro x ⟨hr, g, -, hslot⟩
    exact Prod.ext hr (hslot.symm.trans hset_batchFields.2.2)
  have hupdate : Resumes env i op due (redis (.multi (batchWrites r ride batchId ds (now + env.dispatch.responseTtlMs) now)))
      fun _ => {(r, some batchId)} := by
    refine (@resumes_update env i op due r [] _ _ (fun w hw => ?_) hdue).mono subset_rfl fun _ => hpoints
    obtain ⟨d, -, hd⟩ := List.mem_flatMap.mp hw
    simp only [List.mem_cons, List.not_mem_nil, or_false] at hd
    rcases hd with rfl | rfl | rfl <;> trivial
  have hride : ∀ x ∈ ({(r, some batchId)} : Set SearchPoint), x.1 = r := by
    rintro x rfl
    rfl
  refine hupdate.bind fun _ => resumes_getRide hride (Debts.Pays.throw subset_rfl) fun updated _ => ?_
  refine Debts.Pays.given (resumes_append.bind fun _ => resumes_rideSync.bind fun _ => ?_)
  have hjob : Resumes env i op (standing {(r, some batchId)} updated)
      (enqueueBatchTimeout r batchId env.dispatch.responseTtlMs) fun _ => ∅ :=
    resumes_addJob hop fun x hx => congrArg some hx.1.symm
  refine hjob.bind fun _ => heedful_searches.still ?_
  exact Prog.Uses.bind (.forEach fun _ _ => slight_publish.harmless) fun _ => trivial

theorem resumes_getNearestAvailableDrivers {origin : Location} {radiusKm : ℚ} {count : ℕ} :
    Resumes env i op due (getNearestAvailableDrivers origin radiusKm count) fun _ => due := by
  refine Debts.Pays.cmd (fun _ => trivial) fun s hs hassume => ?_
  have hfound : geosearch env origin radiusKm count s.1.availableDriversGeo =
      some (nearest env origin radiusKm count s.1.availableDriversGeo) := geosearch_of_searchable hassume.1
  have hafter : (searches env).Owing due (((searches env).view i op).exec (.geosearch origin radiusKm count) s).2 :=
    owing_harmless hs trivial fun x hx _ _ => hx
  have hanswer : ((system env).exec i (.geosearch origin radiusKm count) s.1).1 =
      some (nearest env origin radiusKm count s.1.availableDriversGeo) := hfound
  rw [hanswer]
  exact Debts.Pays.ret subset_rfl _ hafter

theorem resumes_findDrivers {dispatchRound : ℕ} {searchRadiusKm : ℚ} (hop : op.rescues = false) (hdue : ∀ x ∈ due, x.1 = r) :
    Resumes env i op due (findDrivers env r ride dispatchRound searchRadiusKm now) fun _ => ∅ := by
  refine (heedful_searches.read (by trivial)).bind fun notifiedDrivers => ?_
  refine resumes_getNearestAvailableDrivers.bind fun candidates => ?_
  refine (heedful_searches.read (by trivial)).bind fun batchId => ?_
  refine (heedful_searches.quiet (slight_reserveLoop _ _).harmless (returns_reserveLoop _ _)).bind fun batchDrivers => ?_
  split_ifs
  · exact resumes_exhaustSearch hdue
  · exact resumes_expandSearch hop hdue
  · exact resumes_sendBatch hop hdue

theorem resumes_endBatch (hdue : ∀ x ∈ due, x.1 = r) : Resumes env i op due (endBatch r ride batchId now) fun _ => betweenBatches r := by
  have hupdate : ∀ responses, Resumes env i op due (redis (.multi (timeoutWrites r ride batchId responses now)))
      fun _ => betweenBatches r := by
    refine fun responses => (@resumes_update env i op due r _ [] _ (fun w hw => ?_) hdue).mono subset_rfl fun _ =>
      pointsOf_between fun _ _ => hset_clearBatchFields.2.2
    simp only [List.append_nil, List.mem_map] at hw
    obtain ⟨d, -, rfl⟩ := hw
    trivial
  refine (heedful_searches.read (by trivial)).bind fun responses => (hupdate responses).bind fun _ => ?_
  refine (heedful_searches.quiet slight_releaseDriverReservations.harmless returns_releaseDriverReservations).bind fun _ => ?_
  exact (heedful_searches.quiet slight_clearPendingMembership.harmless returns_clearPendingMembership).bind fun _ => resumes_append

theorem standing_between (hbatch : ride.currentBatchId = some batchId) : standing (betweenBatches r) ride ⊆ ∅ := by
  rintro x ⟨rfl, -, hslot⟩
  rw [hbatch] at hslot
  cases hslot

theorem resumes_continueDispatch {dispatchRound : ℕ} {searchRadiusKm : ℚ} (hop : op.rescues = false) :
    Resumes env i op (standing (betweenBatches r) ride) (continueDispatch env r ride dispatchRound searchRadiusKm now) fun _ => ∅ := by
  unfold continueDispatch
  cases hopen : openBatch ride with
  | none => exact resumes_findDrivers hop (standing_ride betweenBatches_ride)
  | some batchId =>
    have hnone : standing (betweenBatches r) ride ⊆ ∅ := standing_between (openBatch_eq_some hopen).2
    dsimp only
    split_ifs
    · exact Debts.Pays.ret hnone
    · refine (resumes_endBatch (standing_ride betweenBatches_ride)).bind fun _ => ?_
      refine resumes_getRide betweenBatches_ride (Debts.Pays.throw subset_rfl) fun updated _ => Debts.Pays.given ?_
      exact resumes_findDrivers hop (standing_ride betweenBatches_ride)

/-- The search begins where the ride was read: it has no batch yet. -/
theorem resumes_startFirstDispatch (hst : ride.status = some .requested) :
    (searches env).PaysFrom i op (AsRead i r ride) (betweenBatches r) (startFirstDispatch env r ride now)
      fun started => standing (betweenBatches r) started := by
  have hsame : ∀ h, Since ride h → ∀ slot, (h.hset (startFields env ride now)).searches slot → h.searches slot := by
    rintro h hsince slot ⟨-, hslot⟩
    have hread : h.status = some .requested := by
      rw [hsince.eq_of_status hst (by decide)]
      exact hst
    rw [hset_startFields.2.2] at hslot
    exact ⟨.inl hread, hslot⟩
  simp only [startFirstDispatch, updateRideHash, Prog.bind_eq, Prog.bind_assoc]
  refine (@resumes_heldUpdate env i op (betweenBatches r) r ride [] [] _ (fun w hw => by cases hw) hsame).bind fun _ => ?_
  refine resumes_refresh.bind fun _ => ?_
  refine (heedful_searches.quiet slight_getRide.harmless fun _ => trivial).bind fun _ => ?_
  refine resumes_getRide betweenBatches_ride (Debts.Pays.throw subset_rfl) fun started _ => Debts.Pays.given ?_
  refine resumes_append.bind fun _ => resumes_rideSync.bind fun _ => ?_
  refine (heedful_searches.quiet slight_emitRideStatusUpdate.harmless gentle_emitRideStatusUpdate.returns).bind fun _ => ?_
  exact Debts.Pays.ret subset_rfl

theorem resumes_dispatchUnderLock (hop : op.rescues = false) :
    Resumes env i op (betweenBatches r) (dispatchUnderLock env r) fun _ => ∅ := by
  refine resumes_getRide betweenBatches_ride (Debts.Pays.ret subset_rfl) fun read _ => ?_
  dsimp only
  split_ifs with hother hst
  · refine Debts.Pays.given (Debts.Pays.ret ?_)
    rintro x ⟨-, ⟨hsought | hsought, -⟩⟩
    · exact absurd hsought hother.1
    · exact absurd hsought hother.2
  · refine resumes_read trivial (fun _ => rfl) fun now => ?_
    refine ((resumes_startFirstDispatch hst).mono fun x hx => hx.1).bind fun started => ?_
    exact resumes_continueDispatch hop
  · refine Debts.Pays.given ((heedful_searches.read (by trivial)).bind fun now => ?_)
    exact resumes_continueDispatch hop

/-- A worker with the job of a batch goes on where the batch ends. -/
theorem resumes_batchTimeoutUnderLock (hop : op.rescues = false) (hdue : due ⊆ {(r, some batchId)}) :
    Resumes env i op due (batchTimeoutUnderLock env r batchId) fun _ => ∅ := by
  have hride : ∀ x ∈ due, x.1 = r := by
    intro x hx
    rw [hdue hx]
  refine resumes_getRide hride (Debts.Pays.ret subset_rfl) fun ride hunbatched => Debts.Pays.given ?_
  dsimp only
  split_ifs with hother
  · -- at another batch, or none: a requested ride has no batch
    refine Debts.Pays.ret ?_
    rintro x ⟨hx, hsought, hslot⟩
    rw [hdue hx] at hslot
    have hnone : ride.status ≠ some .requested := fun hst => by
      rw [hunbatched hst] at hslot
      cases hslot
    exact hother.elim (fun hst => hst (hsought.resolve_left hnone)) fun hne => hne hslot
  · refine (heedful_searches.read (by trivial)).bind fun now => ?_
    refine (resumes_endBatch (standing_ride hride)).bind fun _ => ?_
    refine resumes_getRide betweenBatches_ride (Debts.Pays.throw subset_rfl) fun updated _ => Debts.Pays.given ?_
    refine resumes_rideSync.bind fun _ => (resumes_dispatchUnderLock hop).mono (fun x hx => hx.1) fun _ => subset_rfl

/-- A rejection that leaves the batch open changes nothing about the search. -/
theorem resumes_rejectUnderLock {reason : Response} {responses : DriverId → Option Response} (hop : op.rescues = false)
    (hst : ride.status = some .dispatching) :
    (searches env).PaysFrom i op (AsRead i r ride) ∅ (rejectUnderLock env r d reason ride now responses) fun _ => ∅ := by
  have haside : ∀ w ∈ [Write.hsetResponse r d reason, .sremPending d r] ++ [], w.aside := by
    intro w hw
    simp only [List.append_nil, List.mem_cons, List.not_mem_nil, or_false] at hw
    rcases hw with rfl | rfl <;> trivial
  have hupdate : (searches env).PaysFrom i op (AsRead i r ride) ∅
      (redis (.multi (rejectWrites r ride d reason (batchExhausted ride d responses) now)))
      fun _ => if batchExhausted ride d responses then betweenBatches r else ∅ := by
    cases hexhausted : batchExhausted ride d responses with
    | true =>
      refine Debts.Pays.given ((resumes_update haside fun x hx => hx.elim).mono subset_rfl fun _ => ?_)
      exact pointsOf_between fun _ _ => hset_rejectFields.2.2
    | false =>
      refine resumes_heldUpdate haside fun h hsince slot hsearches => ?_
      obtain ⟨hsought, hslot⟩ := hsearches
      unfold RideHash.sought at hsought
      rw [hset_rejectFields.1] at hsought
      rw [hset_rejectFields.2.2, if_neg Bool.false_ne_true] at hslot
      cases hsince with
      | same => exact ⟨hsought, hslot⟩
      | accepted d' acceptedAt => rcases hsought with h | h <;> cases h
      | absent h hnone =>
        rw [hst] at hnone
        cases hnone
  have hride : ∀ x ∈ (if batchExhausted ride d responses then betweenBatches r else ∅ : Set SearchPoint), x.1 = r := by
    intro x hx
    split_ifs at hx
    · exact betweenBatches_ride x hx
    · exact hx.elim
  refine hupdate.bind fun _ => ?_
  refine (heedful_searches.quiet slight_applyRejectCooldown.harmless gentle_applyRejectCooldown.returns).bind fun _ => ?_
  refine (heedful_searches.quiet slight_releaseDriverReservations.harmless returns_releaseDriverReservations).bind fun _ => ?_
  refine resumes_append.bind fun _ => resumes_getRide hride (Debts.Pays.throw subset_rfl) fun updated _ => Debts.Pays.given ?_
  refine resumes_rideSync.bind fun _ => ?_
  split_ifs
  · refine (heedful_searches.quiet slight_releaseDriverReservations.harmless returns_releaseDriverReservations).bind fun _ => ?_
    exact (resumes_dispatchUnderLock hop).mono (fun x hx => hx.1) fun _ => subset_rfl
  · exact Debts.Pays.ret fun x hx => hx.1

theorem resumes_rejectionUnderLock {reason : Response} (hop : op.rescues = false) :
    Resumes env i op ∅ (rejectionUnderLock env r d reason) fun _ => ∅ := by
  have hnone : ∀ ride, standing ∅ ride ⊆ (∅ : Set SearchPoint) := fun ride x hx => hx.1
  refine resumes_getRide (fun x hx => hx.elim) (Debts.Pays.ret subset_rfl) fun ride _ => ?_
  dsimp only
  split_ifs with hst
  · exact Debts.Pays.given (Debts.Pays.ret (hnone ride))
  · refine resumes_read trivial (fun _ => rfl) fun now => resumes_read trivial (fun _ => rfl) fun responses => ?_
    split_ifs
    · exact Debts.Pays.given (Debts.Pays.ret (hnone ride))
    · exact (resumes_rejectUnderLock hop (not_not.mp hst)).mono (hnone ride)

end dispatch

section operations

theorem resumes_createRide {c : CustomerId} {origin destination : Location} {metadata : Metadata} (hop : op.rescues = false) :
    Resumes env i op ∅ (createRide env c origin destination metadata) fun _ => ∅ := by
  refine (heedful_searches.read (by trivial)).bind fun now => (heedful_searches.read (by trivial)).bind fun rideId => ?_
  have hmulti : Resumes env i op ∅ (redis (.multi
      [.createRide rideId (requestPayload env c origin destination metadata now), .setCustomerActiveRide c rideId,
        .saddActiveRide rideId, .expireRide rideId])) fun _ => betweenBatches rideId := by
    refine Debts.Pays.cmd (fun _ => trivial) fun s hs _ => Debts.Pays.ret subset_rfl _ (owing_after hs (fun x hx => hx.elim) ?_)
    rintro x ⟨hsearches, hnone⟩ hbefore
    rcases eq_or_ne x.1 rideId with hr | hr
    · -- the ride is new, and has no batch
      refine Prod.ext hr (hsearches.2.symm.trans ?_)
      rw [hr]
      exact congrArg RideHash.currentBatchId put_self
    · refine absurd ⟨?_, fun hawaits => hnone (awaits_multi.mpr hawaits)⟩ hbefore
      change (put s.1.ride rideId _ x.1).searches x.2 at hsearches
      rw [put_of_ne hr] at hsearches
      exact hsearches
  refine hmulti.bind fun _ => resumes_append.bind fun _ => resumes_refresh.bind fun _ => resumes_rideSync.bind fun _ => ?_
  refine (heedful_searches.quiet slight_publish.harmless gentle_publish.returns).bind fun _ => ?_
  exact (resumes_startJob hop subset_rfl).bind fun _ => Debts.Pays.ret subset_rfl

theorem harmless_finishTransition {next : RideStatus} {notifiedDrivers : List DriverId} :
    (finishTransition r next ride notifiedDrivers now).Uses Cmd.harmless := by
  have htell : (Prog.forEach (fun d => emitRideCancelledToDriver d r ride.version)
      (notifiedDrivers ++ ride.driverId.toList.filter (· ∉ notifiedDrivers)) : App Unit).Uses Cmd.harmless :=
    .forEach fun _ _ => slight_publish.harmless
  have hend : ∀ p : App (Option RideHash), p.Uses Cmd.harmless → ((enqueueRideSync r ride.version).bind fun _ =>
      (notifyRideStatusUpdate r ride).bind fun _ => (emitRideStatusUpdate r ride).bind fun _ => p).Uses Cmd.harmless := by
    refine fun p hp => slight_enqueueRideSync.harmless.bind fun _ => slight_emitRideStatusUpdate.harmless.bind fun _ => ?_
    exact slight_emitRideStatusUpdate.harmless.bind fun _ => hp
  simp only [finishTransition, Prog.bind_eq, Prog.pure_eq]
  split_ifs
  · exact harmless_cleanupTerminalRideKeys.bind fun _ => hend _ (htell.bind fun _ => trivial)
  · exact harmless_cleanupTerminalRideKeys.bind fun _ => hend _ trivial
  · exact hend _ (htell.bind fun _ => trivial)
  · exact hend _ trivial

theorem transitionFields_status {next : RideStatus} {options : TransitionOptions} {h : RideHash} :
    (h.hset (transitionFields env ride next options now)).status = some next := by
  obtain ⟨distance, duration, fare, billing, commission, earning, hc⟩ := @completionFields_eq env ride options now
  unfold transitionFields
  rw [hc]
  clear hc
  simp only [hset_append]
  cases options.driverId <;> split_ifs <;> rfl

/-- A transition ends a search, or leaves it alone. -/
theorem resumes_transitionUnderLock {next : RideStatus} {options : TransitionOptions}
    (hto : next ≠ .requested ∧ next ≠ .dispatching) :
    Resumes env i op ∅ (transitionUnderLock env r next options) fun _ => ∅ := by
  have hupdate : ∀ ride now, Resumes env i op ∅ (write (.hsetRide r (transitionFields env ride next options now))) fun _ => ∅ := by
    refine fun ride now => (@resumes_update env i op ∅ r [] [] _ (fun w hw => by cases hw) fun x hx => hx.elim).mono
      subset_rfl fun _ => ?_
    rintro x ⟨-, h, ⟨hsought | hsought, -⟩⟩
    · exact absurd (Option.some.inj (transitionFields_status.symm.trans hsought)) hto.1
    · exact absurd (Option.some.inj (transitionFields_status.symm.trans hsought)) hto.2
  refine (heedful_searches.pass slight_getRide).bind fun ride => ?_
  cases ride with
  | none => exact Debts.Pays.throw subset_rfl
  | some ride =>
    dsimp only
    split_ifs
    · exact heedful_searches.pass slight_getRide
    · refine (heedful_searches.pass slight_assertTransition).bind fun _ => ?_
      refine (heedful_searches.read (by trivial)).bind fun now => (hupdate ride now).bind fun _ => heedful_searches.still ?_
      refine slight_refreshRideRealtimeKeys.harmless.bind fun _ => slight_appendTimelineEvent.harmless.bind fun _ => ?_
      refine slight_getRide.harmless.bind fun snapshot => slight_readNotifiedDrivers.harmless.bind fun notifiedDrivers => ?_
      cases snapshot with
      | none => trivial
      | some snapshot => exact harmless_finishTransition

theorem resumes_requeueRide (hop : op.rescues = false) : Resumes env i op ∅ (requeueRide env r d ride) fun _ => ∅ := by
  have hupdate : ∀ now, Resumes env i op ∅ (redis (.multi
      [.delNotified r, .delResponses r, .hsetRide r (requeueFields env ride now), .expireRide r])) fun _ => betweenBatches r := by
    refine fun now => (@resumes_update env i op ∅ r [.delNotified r, .delResponses r] [.expireRide r] _ (fun w hw => ?_)
      fun x hx => hx.elim).mono subset_rfl fun _ => pointsOf_between fun _ _ => hset_requeueFields.2.2
    simp only [List.cons_append, List.nil_append, List.mem_cons, List.not_mem_nil, or_false] at hw
    rcases hw with rfl | rfl | rfl <;> trivial
  refine (heedful_searches.read (by trivial)).bind fun now => ?_
  refine (heedful_searches.still harmless_releaseDriverAvailability).bind fun _ => (hupdate now).bind fun _ => ?_
  refine resumes_append.bind fun _ => resumes_getRide betweenBatches_ride (Debts.Pays.throw subset_rfl) fun updated _ => Debts.Pays.given ?_
  refine resumes_rideSync.bind fun _ => ?_
  refine (heedful_searches.quiet slight_emitRideStatusUpdate.harmless gentle_emitRideStatusUpdate.returns).bind fun _ => ?_
  exact (resumes_startJob hop fun x hx => hx.1).bind fun _ => Debts.Pays.ret subset_rfl

theorem harmless_acceptRide : (acceptRide r d).Uses Cmd.harmless := by
  refine slight_getRide.harmless.bind fun preAcceptRide => ⟨trivial, fun acceptedAt => ⟨trivial, fun version => ?_⟩⟩
  show Prog.Uses Cmd.harmless (if version ≤ 0 then _ else _)
  split_ifs
  · trivial
  · exact slight_afterAccept.harmless

end operations

section workers

/-- A worker that starts a search finds the ride's lock free. -/
theorem resumes_startDispatch {version : ℕ} {reason : StartReason} :
    Resumes env i (.work (.dispatchStart r version reason)) (betweenBatches r) (startDispatch env r) fun _ => ∅ := by
  have hset : ∀ u : Uuid, Resumes env i (.work (.dispatchStart r version reason)) (betweenBatches r)
      (redis (.setNX (.ride r) (.uuid u) env.lockTtlMs)) fun ok => if ok then betweenBatches r else ∅ := by
    refine fun u => resumes_command trivial fun s x hassume hx hsearches _ => ?_
    obtain rfl : x = (r, none) := hx
    have hfree : s.locks (.ride r) = none := of_decide_eq_true hassume.1 hsearches
    have hok : ((system env).exec i (.setNX (.ride r) (.uuid u) env.lockTtlMs) s).1 = true :=
      congrArg Prod.fst (exec_setNX_of_none hfree)
    rw [hok]
    rfl
  refine (heedful_searches.lockSection hset (resumes_dispatchUnderLock rfl)).bind fun result => ?_
  cases result with
  | none => exact Debts.Pays.throw subset_rfl
  | some ride =>
    cases ride with
    | none => exact Debts.Pays.throw subset_rfl
    | some ride => exact Debts.Pays.ret subset_rfl

theorem resumes_attemptTimeout : Resumes env i (.work (.dispatchTimeout r batchId)) {(r, some batchId)}
    ((do handleJob env (.dispatchTimeout r batchId); return true : App Bool).tryCatch fun _ => (return false : App Bool))
    fun succeeded => if succeeded then ∅ else {(r, some batchId)} := by
  have hlocked : Resumes env i (.work (.dispatchTimeout r batchId)) {(r, some batchId)}
      (withLock (.ride r) env.lockTtlMs (batchTimeoutUnderLock env r batchId))
      fun result => result.elim {(r, some batchId)} fun _ => ∅ :=
    heedful_searches.withLock (resumes_batchTimeoutUnderLock rfl subset_rfl)
  simp only [handleJob, handleBatchTimeout, withRideLock, Prog.bind_eq, Prog.bind_assoc, Prog.pure_eq]
  refine hlocked.bindCatch (fun result => ?_) fun _ => Debts.Pays.ret (Set.empty_subset _)
  cases result with
  | none => exact Debts.Pays.ret subset_rfl
  | some ride =>
    cases ride with
    | none => exact Debts.Pays.ret (Set.empty_subset _)
    | some ride => exact Debts.Pays.ret subset_rfl

theorem resumes_work {job : JobId} : Resumes env i (.work job) ∅ (work env job) fun _ => ∅ := by
  refine resumes_takeJob.bind fun taken => ?_
  cases taken with
  | false => exact Debts.Pays.ret fun x hx => absurd hx.1 Bool.false_ne_true
  | true =>
    -- all jobs but that of a batch pay before they end, and they do not fail with debts
    have hdone : ∀ {due : Set SearchPoint}, Resumes env i (.work job) due (handleJob env job) (fun _ => ∅) →
        Resumes env i (.work job) due ((((handleJob env job).bind fun _ => .ret true).tryCatch fun _ => .ret false).bind
          fun succeeded => redis (.finishJob job succeeded)) fun _ => ∅ := by
      intro due hjob
      have hret : ∀ result : Bool, Resumes env i (.work job) ∅ (.ret result : App Bool) fun _ => ∅ :=
        fun result => Debts.Pays.ret subset_rfl
      refine ((hjob.bind fun _ => hret true).tryCatch fun _ => hret false).bind fun succeeded => ?_
      exact heedful_searches.read (by trivial)
    have htaken : {x | true = true ∧ job.resumes = some x} ⊆ {x | job.resumes = some x} := fun x hx => hx.2
    cases job with
    | dispatchStart r version reason =>
      have hpoint : {x | JobId.resumes (.dispatchStart r version reason) = some x} ⊆ betweenBatches r :=
        fun x hx => (Option.some.inj hx).symm
      have hend : ∀ due, Resumes env i (.work (.dispatchStart r version reason)) ∅ (.ret () : App Unit) fun _ => due :=
        fun due => Debts.Pays.ret (Set.empty_subset _)
      refine (hdone ?_).mono (htaken.trans hpoint) fun _ => subset_rfl
      exact (resumes_startDispatch.bind fun _ => hend _).tryCatch fun _ => hend _
    | dispatchTimeout r batchId =>
      have hpoint : {x | JobId.resumes (.dispatchTimeout r batchId) = some x} ⊆ {(r, some batchId)} :=
        fun x hx => (Option.some.inj hx).symm
      refine (resumes_attemptTimeout.mono (htaken.trans hpoint) fun _ => subset_rfl).bind fun succeeded => ?_
      cases succeeded with
      | true => exact heedful_searches.read (by trivial)
      | false => exact resumes_retry fun x hx => hx
    | persistRide r version =>
      refine (hdone (heedful_searches.pass slight_syncRide)).mono (fun x hx => ?_) fun _ => subset_rfl
      cases hx.2
    | persistDriver d reason suffix =>
      refine (hdone (heedful_searches.pass slight_syncDriver)).mono (fun x hx => ?_) fun _ => subset_rfl
      cases hx.2

theorem balanced_searches : Balanced (searches env) Cmd.harmless fun _ => ∅ where
  toOfDrivers := ofDrivers_searches
  startDispatch := fun _ _ _ hop =>
    heedful_searches.rideLock ((resumes_dispatchUnderLock hop).mono (Set.empty_subset _) fun _ => subset_rfl)
  handleBatchTimeout := fun _ _ _ _ hop =>
    heedful_searches.rideLock (resumes_batchTimeoutUnderLock hop (Set.empty_subset _))
  handleDriverRejection := fun _ _ _ _ _ hop => heedful_searches.rideLock (resumes_rejectionUnderLock hop)
  createRide := fun _ _ _ _ _ _ hop => resumes_createRide hop
  transitionUnderLock := fun _ _ _ _ _ hto => resumes_transitionUnderLock hto
  requeueRide := fun _ op _ _ _ hop => resumes_requeueRide (by cases op <;> first | rfl | cases hop)
  acceptRide := fun _ _ _ _ => heedful_searches.still harmless_acceptRide
  work := fun _ _ => resumes_work

end workers

end YatriGo
