import YatriGo.Concurrent.Sequential
import YatriGo.Proofs.Orphans
import YatriGo.Proofs.SyncDebts

/-! Mongo catches up with Redis: once nothing is in flight and all sync jobs are executed, the
documents agree with the hashes, in the runs in which no step takes an up-to-date document back. -/

namespace YatriGo
open Concurrent

/-- A sync job of the entity waits to be executed. -/
def Waits (s : Store) (x : Entity) : Prop :=
  ∃ job readyAt attemptsMade, JobId.entity job = some x ∧ s.jobs job = some (.waiting readyAt attemptsMade)

/-- No operation is in flight, and all sync jobs have been executed. -/
structure AtRest (p : State) : Prop where
  idle : p.idle = true
  executed : ∀ (job : JobId) x, job.entity = some x → (p.store.jobs job).any JobState.pending = false

/-- In every state at rest the documents agree with the hashes. -/
def Converges (env : Env) (ok : State → Step → Prop) : Prop :=
  ∀ as p, (system env).Run ok initial as p → AtRest p → ∀ x, p.store.knows x → p.store.mirrors x

/-- A document agrees with its hash once no operation is in flight and the sync jobs of this one are executed. -/
def EachConverges (env : Env) (ok : State → Step → Prop) : Prop :=
  ∀ as p x, (system env).Run ok initial as p → p.idle = true → ¬ Waits p.store x → p.store.knows x → p.store.mirrors x

/-- A sync job is dropped only where another one waits or the document is up to date, and an
up-to-date document is overwritten with nothing else. -/
def Cmd.keepsUp (s : Store) : ⦃β : Type⦄ → Cmd β → Prop
  | _, .addJob job _ => ∀ x, job.entity = some x → s.jobs job = none ∨ Waits s x ∨ s.mirrors x
  | _, .upsertRideDoc r fields _ _ => s.mirrors (.ride r) → fields.record = s.record (.ride r)
  | _, .upsertDriverDoc d doc => s.mirrors (.driver d) → doc.record = s.record (.driver d)
  | _, .updateDriverDocStatus d status => s.mirrors (.driver d) → (s.driverHash d).status = some status
  | _, _ => True

/-- A step whose command keeps up; a requeue changes no driver's status or active ride. -/
def KeepsUp (p : State) (a : Step) : Prop :=
  ∀ (i : ℕ) op (β : Type) (c : Cmd β) k, a = .step i → p.threads[i]? = some (op, .cmd c k) →
    c.keepsUp p.store ∧ (op.requeues = true → c.keepsDrivers p.store)

/-- The rest of a worker stores the record `v`, if that is what it reads, or has read. -/
def Brings (x : Entity) (v : Record) {α : Type} : App α → Prop
  | .cmd (.hgetallRide r) k => x = .ride r ∧ ∀ h : RideHash, h.record = v → Brings x v (k h)
  | .cmd (.hgetallDriver d) k => x = .driver d ∧ ∀ h : DriverHash, h.record = v → Brings x v (k h)
  | .cmd (.lrangeTimeline _) k => ∀ timeline, Brings x v (k timeline)
  | .cmd (.smembersNotified _) k => ∀ notifiedDrivers, Brings x v (k notifiedDrivers)
  | .cmd (.upsertRideDoc r fields _ _) _ => x = .ride r ∧ fields.record = v
  | .cmd (.upsertDriverDoc d doc) _ => x = .driver d ∧ doc.record = v
  | _ => False

variable {env : Env} {i : ℕ} {α β : Type} {c : Cmd β} {k : β → App α} {s t : Store} {x : Entity} {v : Record} {r : RideId}
  {d : DriverId}

section documents

theorem multi_docs {ws : List Write} : (s.multi ws).document = s.document := by
  induction ws generalizing s with
  | nil => rfl
  | cons w ws ih =>
    rw [multi_cons, ih]
    cases w <;> rfl

theorem document_put_ride {doc : RideDoc} {ids : List RideId} :
    Store.document { s with rideDocs := put s.rideDocs r (some doc), rideDocIds := ids } x =
      if x = .ride r then some doc.fields.record else s.document x := by
  cases x with
  | ride r' =>
    show ((put s.rideDocs r (some doc) r').map fun doc => doc.fields.record) = _
    rw [put_apply]
    by_cases hr : r' = r
    · rw [if_pos hr, if_pos (congrArg Entity.ride hr)]
      rfl
    · rw [if_neg hr, if_neg fun h => hr (Entity.ride.inj h)]
      rfl
  | driver d => exact (if_neg (by rintro ⟨⟩)).symm

theorem document_put_driver {doc : Option DriverDoc} {ids : List DriverId} :
    Store.document { s with driverDocs := put s.driverDocs d doc, driverDocIds := ids } x =
      if x = .driver d then doc.map DriverDoc.record else s.document x := by
  cases x with
  | ride r => exact (if_neg (by rintro ⟨⟩)).symm
  | driver d' =>
    show (put s.driverDocs d doc d').map DriverDoc.record = _
    rw [put_apply]
    by_cases hd : d' = d
    · rw [if_pos hd, if_pos (congrArg Entity.driver hd)]
    · rw [if_neg hd, if_neg fun h => hd (Entity.driver.inj h)]
      rfl

/-- What is up to date stays so, as long as the hash does not change. -/
theorem mirrors_exec (hkeeps : c.keepsUp s) (h : s.mirrors x) (hsame : (exec env i c s).2.record x = s.record x) :
    (exec env i c s).2.mirrors x := by
  have hclerical : c.clerical → _ := @exec_clerical s env i β c
  have hdoc : (exec env i c s).2.document x = some (s.record x) := by
    cases c with
    | multi ws =>
      show (s.multi ws).document x = _
      rw [multi_docs]
      exact h
    | setNX key token ttl =>
      obtain ⟨locks, hl⟩ := @exec_setNX_eq key token s env i ttl
      rw [hl]
      exact h
    | evalReleaseLock key token =>
      obtain ⟨locks, hl⟩ : ∃ locks, (releaseLockScript key token s).2 = { s with locks } := releaseLockScript_eq
      simp only [exec, hl]
      exact h
    | evalAcceptRide r d acceptedAt reservation =>
      rcases @acceptRideScript_cases s r d acceptedAt reservation with ⟨-, heq⟩ | ⟨-, heq, -⟩
      · simp only [exec, heq]
        exact h
      · simp only [exec, heq]
        exact h
    | uuidv4 => exact h
    | upsertRideDoc r fields notifiedDrivers timeline =>
      refine document_put_ride.trans ?_
      split_ifs with hx
      · subst hx
        exact congrArg some (hkeeps h)
      · exact h
    | upsertDriverDoc d doc =>
      refine document_put_driver.trans ?_
      split_ifs with hx
      · subst hx
        exact congrArg some (hkeeps h)
      · exact h
    | updateDriverDocStatus d status =>
      refine (@document_put_driver s x d _ s.driverDocIds).trans ?_
      split_ifs with hx
      · subst hx
        -- the document keeps its ride, and gets the status that the hash has already
        obtain ⟨doc, hdoc, hrecord⟩ := Option.map_eq_some_iff.mp h
        have hstatus : (s.driverHash d).status = some status := hkeeps h
        have hsame : doc.record = .driver (some status) (s.driverHash d).activeRideId :=
          hrecord.trans (congrArg (Record.driver · _) hstatus)
        rw [hdoc]
        show some (Record.driver (some status) doc.activeRideId) = some (Record.driver _ _)
        rw [hstatus, (Record.driver.inj hsame).2]
      · exact h
    | _ =>
      obtain ⟨idempotency, published, jobs, heq⟩ := hclerical trivial
      rw [heq]
      exact h
  rw [Store.mirrors, hdoc, hsame]

end documents

section jobs

theorem Waits.put_ne {job : JobId} {state : Option JobState} (h : Waits s x)
    (hjob : ∀ readyAt attemptsMade, s.jobs job ≠ some (.waiting readyAt attemptsMade)) :
    Waits { s with jobs := put s.jobs job state } x := by
  obtain ⟨job', readyAt, attemptsMade, hx, hwaits⟩ := h
  have hne : job' ≠ job := by
    rintro rfl
    exact hjob readyAt attemptsMade hwaits
  exact ⟨job', readyAt, attemptsMade, hx, (put_of_ne hne).trans hwaits⟩

theorem Waits.put_waiting {job : JobId} {readyAt : Time} {attemptsMade : ℕ} (h : Waits s x) :
    Waits { s with jobs := put s.jobs job (some (.waiting readyAt attemptsMade)) } x := by
  obtain ⟨job', readyAt', attemptsMade', hx, hwaits⟩ := h
  rcases eq_or_ne job' job with rfl | hne
  · exact ⟨job', readyAt, attemptsMade, hx, put_self⟩
  · exact ⟨job', readyAt', attemptsMade', hx, (put_of_ne hne).trans hwaits⟩

theorem waits_addJob {job : JobId} {delay : ℕ} (h : Waits s x) : Waits (addJob job delay s) x := by
  unfold addJob
  split
  · exact h
  · exact h.put_waiting

theorem waits_added {job : JobId} {delay : ℕ} (hx : job.entity = some x) (h : s.jobs job = none) :
    Waits (addJob job delay s) x := by
  unfold addJob
  rw [h]
  exact ⟨job, _, _, hx, put_self⟩

/-- The entity whose sync job the command takes from the queue. -/
def Cmd.takes (s : Store) : ⦃β : Type⦄ → Cmd β → Option Entity
  | _, .takeJob job => if (YatriGo.takeJob job s).1 then job.entity else none
  | _, _ => none

theorem waits_exec (h : Waits s x) (htakes : c.takes s ≠ some x) : Waits (exec env i c s).2 x := by
  have hjobs : c.queueless → _ := @exec_jobs s env i β c
  cases c with
  | addJob job delay => exact waits_addJob h
  | takeJob job =>
    simp only [Cmd.takes, takeJob] at htakes
    simp only [exec, takeJob]
    split
    · rename_i readyAt attemptsMade hjob
      by_cases hready : readyAt ≤ s.clock
      · simp only [hjob, if_pos hready, if_true] at htakes
        rw [if_pos hready]
        obtain ⟨job', readyAt', attemptsMade', hx, hwaits⟩ := h
        have hne : job' ≠ job := by
          rintro rfl
          exact htakes hx
        exact ⟨job', readyAt', attemptsMade', hx, (put_of_ne hne).trans hwaits⟩
      · rw [if_neg hready]
        exact h
    · exact h
  | finishJob job succeeded =>
    simp only [exec, finishJob]
    split
    · rename_i hactive
      refine h.put_ne fun readyAt attemptsMade hwaiting => ?_
      rw [hactive] at hwaiting
      cases hwaiting
    · exact h
  | _ =>
    obtain ⟨job, readyAt, attemptsMade, hx, hwaits⟩ := h
    refine ⟨job, readyAt, attemptsMade, hx, ?_⟩
    rw [hjobs trivial]
    exact hwaits

theorem waits_event {e : Event} (h : Waits s x) (he : e.apply s = some t) : Waits t x := by
  cases event_happens he with
  | redeliver job attemptsMade hjob => exact h.put_waiting
  | forget job hjob =>
    refine h.put_ne fun readyAt attemptsMade hwaiting => ?_
    rw [hwaiting] at hjob
    rcases hjob with hjob | hjob <;> cases hjob
  | _ => exact h

end jobs

section workers

/-- A step of a worker on its way: it has stored the record, or it still brings it. -/
theorem Brings.step (h : Brings x (s.record x) (.cmd c k)) :
    Brings x (s.record x) (k (exec env i c s).1) ∨ (exec env i c s).2.document x = some (s.record x) := by
  cases c with
  | hgetallRide r =>
    obtain ⟨rfl, hk⟩ := h
    exact .inl (hk (s.ride r) rfl)
  | hgetallDriver d =>
    obtain ⟨rfl, hk⟩ := h
    exact .inl (hk (s.driverHash d) rfl)
  | lrangeTimeline r => exact .inl (h (s.rideTimeline r))
  | smembersNotified r => exact .inl (h (s.rideNotifiedDrivers r))
  | upsertRideDoc r fields notifiedDrivers timeline =>
    obtain ⟨rfl, hfields⟩ := h
    refine .inr (document_put_ride.trans ?_)
    rw [if_pos rfl]
    exact congrArg some hfields
  | upsertDriverDoc d doc =>
    obtain ⟨rfl, hdoc⟩ := h
    refine .inr (document_put_driver.trans ?_)
    rw [if_pos rfl]
    exact congrArg some hdoc
  | _ => exact h.elim

theorem Brings.bind {p : App α} {f : α → App β} (h : Brings x v p) : Brings x v (p.bind f) := by
  induction p with
  | ret a => exact h.elim
  | throw e => exact h.elim
  | cmd c k ih =>
    cases c with
    | hgetallRide r => exact ⟨h.1, fun hash hrecord => ih hash (h.2 hash hrecord)⟩
    | hgetallDriver d => exact ⟨h.1, fun hash hrecord => ih hash (h.2 hash hrecord)⟩
    | lrangeTimeline r => exact fun timeline => ih timeline (h timeline)
    | smembersNotified r => exact fun notifiedDrivers => ih notifiedDrivers (h notifiedDrivers)
    | upsertRideDoc r fields notifiedDrivers timeline => exact h
    | upsertDriverDoc d doc => exact h
    | _ => exact h.elim

theorem Brings.tryCatch {p : App α} {handle : AppError → App α} (h : Brings x v p) :
    Brings x v (p.tryCatch handle) := by
  induction p with
  | ret a => exact h.elim
  | throw e => exact h.elim
  | cmd c k ih =>
    cases c with
    | hgetallRide r => exact ⟨h.1, fun hash hrecord => ih hash (h.2 hash hrecord)⟩
    | hgetallDriver d => exact ⟨h.1, fun hash hrecord => ih hash (h.2 hash hrecord)⟩
    | lrangeTimeline r => exact fun timeline => ih timeline (h timeline)
    | smembersNotified r => exact fun notifiedDrivers => ih notifiedDrivers (h notifiedDrivers)
    | upsertRideDoc r fields notifiedDrivers timeline => exact h
    | upsertDriverDoc d doc => exact h
    | _ => exact h.elim

theorem brings_syncRide (hv : v.stored) : Brings (.ride r) v (syncRide r) := by
  refine ⟨rfl, fun h hrecord => ?_⟩
  have hstatus : h.record.stored := by
    rw [hrecord]
    exact hv
  have hsnapshot : toRideSnapshot h = some h := if_neg hstatus
  show Brings _ v (Prog.bind (.ret (toRideSnapshot h)) _)
  rw [hsnapshot]
  exact fun timeline notifiedDrivers => ⟨rfl, hrecord⟩

theorem brings_syncDriver (hv : v.stored) : Brings (.driver d) v (syncDriver d) := by
  refine ⟨rfl, fun h hrecord => ?_⟩
  show Brings _ v (Prog.bind (.ret (toDriverSnapshot h)) _)
  unfold toDriverSnapshot
  cases hstatus : h.status with
  | none =>
    rw [← hrecord] at hv
    exact absurd hstatus hv
  | some status =>
    refine ⟨rfl, ?_⟩
    rw [← hrecord, DriverHash.record, hstatus]
    rfl

/-- The worker of a sync job takes it, and goes on to copy the entity. -/
theorem work_takes (job : JobId) : ∃ k, work env job = .cmd (.takeJob job) k ∧
    ∀ x, job.entity = some x → (∀ s : Store, s.knows x → Brings x (s.record x) (k true)) ∧
      ∀ taken, (k taken).Uses Cmd.uneventful := by
  refine ⟨_, rfl, fun x hx => ⟨fun s hknown => ?_, fun taken => ?_⟩⟩
  · have hsync : Brings x (s.record x) (handleJob env job) := by
      cases job with
      | persistRide r version =>
        obtain rfl := Option.some.inj hx
        exact brings_syncRide hknown
      | persistDriver d reason suffix =>
        obtain rfl := Option.some.inj hx
        exact brings_syncDriver hknown
      | _ => cases hx
    exact hsync.bind.tryCatch.bind
  · have hsync : (handleJob env job).Uses Cmd.uneventful := by
      cases job with
      | persistRide r version => exact slight_syncRide.uneventful
      | persistDriver d reason suffix => exact slight_syncDriver.uneventful
      | _ => cases hx
    cases taken with
    | false => trivial
    | true =>
      have hcaught : ((handleJob env job).bind fun _ => (.ret true : App Bool)).Uses Cmd.uneventful :=
        hsync.bind fun _ => trivial
      have hfailed : ∀ _ : AppError, (.ret false : App Bool).Uses Cmd.uneventful := fun _ => trivial
      exact (hcaught.tryCatch hfailed).bind fun _ => ⟨trivial, fun _ => trivial⟩

end workers

/-- The record of the entity as it is in Redis is in Mongo, or gets there. -/
inductive OnItsWay (p : State) (debts : ℕ → Set Entity) (x : Entity) : Prop
  | arrived (h : p.store.mirrors x)
  | owed (i : ℕ) (h : x ∈ debts i)
  | waiting (h : Waits p.store x)
  | carried (i : ℕ) (op : Op) (rest : App Unit) (hi : p.threads[i]? = some (op, rest))
      (h : Brings x (p.store.record x) rest)

/-- The threads and what they owe, and that nothing is lost of what Mongo lacks. -/
structure Accounted (env : Env) (p : State) (debts : ℕ → Set Entity) : Prop where
  counts : Counting env p
  holds : (syncs env).Holds p debts
  workers : ∀ (i : ℕ) job x rest, p.threads[i]? = some (.work job, rest) → job.entity = some x →
    rest = work env job ∨ rest.Uses Cmd.uneventful
  records : ∀ x, p.store.knows x → OnItsWay p debts x

variable {p q : State} {a : Step} {debts debts' : ℕ → Set Entity}

theorem Accounted.knows (h : Accounted env p debts) (hnext : (system env).next p a = some q) (hx : p.store.knows x) :
    q.store.knows x := by
  rcases next_cases hnext with hsame | ⟨i, op, β, c, k, rfl, hi, hstore⟩
  · rw [Store.knows, hsame.record]
    exact hx
  · obtain ⟨seen, -, hneeds⟩ := h.counts.seen.needs hi
    rw [hstore]
    exact exec_knows hneeds hx

/-- Where no thread runs, the records stay on their way. -/
theorem OnItsWay.elsewhere (h : OnItsWay p debts x) (hnext : (system env).next p a = some q)
    (hother : ∀ i, a ≠ .step i) (hdebts : debts' = debts) : OnItsWay q debts' x := by
  subst hdebts
  cases a with
  | step i => exact absurd rfl (hother i)
  | call op =>
    cases hnext
    cases h with
    | arrived h => exact .arrived h
    | owed i h => exact .owed i h
    | waiting h => exact .waiting h
    | carried i op' rest hi h =>
      have hlt : i < p.threads.length := (List.getElem?_eq_some_iff.mp hi).1
      exact .carried i op' rest ((List.getElem?_append_left hlt).trans hi) h
  | env e =>
    obtain ⟨t, ht, rfl⟩ := Option.map_eq_some_iff.mp hnext
    have hrecord : t.record x = p.store.record x := by rw [(event_sameKeys ht).record]
    cases h with
    | arrived h =>
      refine .arrived ?_
      have hdoc : t.document x = p.store.document x := by cases event_happens ht <;> rfl
      exact hdoc.trans (h.trans (congrArg some hrecord.symm))
    | owed i h => exact .owed i h
    | waiting h => exact .waiting (waits_event h ht)
    | carried i op rest hi h =>
      refine .carried i op rest hi ?_
      show Brings x (t.record x) rest
      rw [hrecord]
      exact h

section step

variable {op : Op} {k : β → App Unit} (hi : p.threads[i]? = some (op, .cmd c k))
  (hnext : (system env).next p (.step i) = some q)
include hi hnext

theorem next_command : q.store = (exec env i c p.store).2 ∧
    q.threads = p.threads.set i (op, k (exec env i c p.store).1) := by
  obtain ⟨op', β', c', k', hi', hstore, hthreads⟩ := System.next_step hnext
  rw [hi] at hi'
  cases hi'
  exact ⟨hstore, hthreads⟩

variable (h : Accounted env p debts) (hok : KeepsUp p (.step i))
include h hok

/-- A worker takes the job that waited, and brings the record. -/
theorem OnItsWay.taken (hx : p.store.knows x) (hsame : q.store.record x = p.store.record x)
    (htakes : c.takes p.store = some x) : OnItsWay q debts' x := by
  obtain ⟨hstore, hthreads⟩ := next_command hi hnext
  have htakenBy : c.takenBy op := h.holds.perform hi (hok i op β c k rfl hi).2
  cases c with
  | takeJob job =>
    obtain rfl : op = .work job := htakenBy
    obtain ⟨htaken, hjob⟩ : (takeJob job p.store).1 = true ∧ job.entity = some x := by
      simp only [Cmd.takes] at htakes
      split_ifs at htakes with htaken
      exact ⟨htaken, htakes⟩
    obtain ⟨k', hwork, hentity⟩ := @work_takes env job
    rcases h.workers i job x _ hi hjob with hstart | huses
    · rw [hwork] at hstart
      cases hstart
      have hlt : i < p.threads.length := (List.getElem?_eq_some_iff.mp hi).1
      have hanswer : (exec env i (.takeJob job) p.store).1 = true := htaken
      rw [hanswer] at hthreads
      refine .carried i (.work job) (k true) ?_ ?_
      · rw [hthreads]
        exact List.getElem?_set_self hlt
      · rw [hsame]
        exact (hentity x hjob).1 p.store hx
    · exact huses.1.elim
  | _ => cases htakes

/-- The command of a thread leaves the record of the entity on its way. -/
theorem OnItsWay.step (hway : OnItsWay p debts x) (hx : p.store.knows x) (hsame : q.store.record x = p.store.record x)
    (hothers : ∀ j, j ≠ i → debts' j = debts j)
    (hown : debts' i = (syncs env).after c p.store q.store (debts i)) : OnItsWay q debts' x := by
  obtain ⟨hstore, hthreads⟩ := next_command hi hnext
  have hkeeps : c.keepsUp p.store := (hok i op β c k rfl hi).1
  have hlt : i < p.threads.length := (List.getElem?_eq_some_iff.mp hi).1
  have harrived : p.store.mirrors x → q.store.mirrors x := by
    intro hm
    rw [hstore] at hsame ⊢
    exact mirrors_exec hkeeps hm hsame
  cases hway with
  | arrived hm => exact .arrived (harrived hm)
  | owed j hj =>
    rcases eq_or_ne j i with rfl | hne
    · by_cases htold : x ∈ c.tells
      · cases c with
        | addJob job delay =>
          -- a job whose id is known is dropped only where another waits or nothing is missing
          rcases hkeeps x htold with hnone | hwaits | hm
          · refine .waiting ?_
            rw [hstore]
            exact waits_added htold hnone
          · refine .waiting ?_
            rw [hstore]
            exact waits_addJob hwaits
          · exact .arrived (harrived hm)
        | _ => exact htold.elim
      · refine .owed j ?_
        rw [hown]
        refine ⟨?_, .inl hj, htold⟩
        show q.store.knows x
        rw [Store.knows, hsame]
        exact hx
    · refine .owed j ?_
      rw [hothers j hne]
      exact hj
  | waiting hwaits =>
    by_cases htakes : c.takes p.store = some x
    · exact OnItsWay.taken hi hnext h hok hx hsame htakes
    · refine .waiting ?_
      rw [hstore]
      exact waits_exec hwaits htakes
  | carried j op' rest hj hb =>
    rcases eq_or_ne j i with rfl | hne
    · rw [hi] at hj
      cases hj
      -- the worker either still carries the record or has just stored it
      rcases @Brings.step env j _ _ c k p.store x hb with hrest | hdoc
      · refine .carried j op (k (exec env j c p.store).1) ?_ ?_
        · rw [hthreads]
          exact List.getElem?_set_self hlt
        · rw [hsame]
          exact hrest
      · refine .arrived ?_
        rw [Store.mirrors, hsame, hstore]
        exact hdoc
    · refine .carried j op' rest ?_ ?_
      · rw [hthreads, List.getElem?_set_ne hne.symm]
        exact hj
      · rw [hsame]
        exact hb

end step

/-- One step: what it changes, its thread owes, and everything else stays on its way. -/
theorem Accounted.next (h : Accounted env p debts) (hok : KeepsUp p a) (hnext : (system env).next p a = some q) :
    ∃ debts', Accounted env q debts' := by
  obtain ⟨debts', hholds, hothers, hown⟩ := h.holds.next pays_code hnext (fun x => h.knows hnext)
    ⟨fun i op β c k ha hi => (hok i op β c k ha hi).2, fun _ _ _ => trivial⟩
  refine ⟨debts', h.counts.next hnext, hholds, fun i job x rest hi hx => ?_, fun x hx => ?_⟩
  · rcases System.next_thread hnext hi with ⟨hbefore, -⟩ | ⟨-, rfl, -⟩ | ⟨-, β, c, k, hbefore, -, rfl⟩
    · exact h.workers i job x rest hbefore hx
    · exact .inl rfl
    · refine .inr ?_
      rcases h.workers i job x _ hbefore hx with hstart | huses
      · obtain ⟨k', hwork, hentity⟩ := @work_takes env job
        rw [hwork] at hstart
        cases hstart
        exact (hentity x hx).2 _
      · exact huses.2 _
  · cases a with
    | step i =>
      obtain ⟨op, β, c, k, hi, hstore, -⟩ := System.next_step hnext
      have hafter : debts' i = (syncs env).after c p.store q.store (debts i) := hown i op β c k rfl hi
      by_cases hsame : q.store.record x = p.store.record x
      · have hknown : p.store.knows x := by
          rw [Store.knows, ← hsame]
          exact hx
        exact OnItsWay.step hi hnext h hok (h.records x hknown) hknown hsame
          (fun j hj => hothers j fun heq => hj (Action.step.inj heq).symm) hafter
      -- whoever changes the record owes its sync job
      · refine .owed i ?_
        rw [hafter]
        refine ⟨hx, .inr hsame, fun htold => hsame ?_⟩
        have hquiet : x ∉ c.sets := by
          cases c <;> first | exact id | exact htold.elim
        rw [hstore]
        exact exec_record hquiet
    | call op =>
      have hknown : p.store.knows x := by
        cases hnext
        exact hx
      have hother : ∀ i, Action.call op ≠ (.step i : Step) := by rintro i ⟨⟩
      exact (h.records x hknown).elsewhere hnext hother (funext fun i => hothers i (hother i))
    | env e =>
      have hknown : p.store.knows x := by
        obtain ⟨t, ht, rfl⟩ := Option.map_eq_some_iff.mp hnext
        rw [Store.knows, ← (event_sameKeys ht).record]
        exact hx
      have hother : ∀ i, Action.env e ≠ (.step i : Step) := by rintro i ⟨⟩
      exact (h.records x hknown).elsewhere hnext hother (funext fun i => hothers i (hother i))

theorem accounted_initial : Accounted env initial fun _ => ∅ where
  counts := counting_initial
  holds := Debts.holds_empty
  workers := fun i job x rest hi => by simp [initial] at hi
  records := fun x hx => by cases x <;> exact absurd rfl hx

theorem Brings.running {p : App α} (h : Brings x v p) : p.ended = false := by
  cases p with
  | ret a => exact h.elim
  | throw e => exact h.elim
  | cmd c k => rfl

/-- What is on its way when nothing is in flight is there, or waits. -/
theorem Accounted.arrived (h : Accounted env p debts) (hidle : p.idle = true) (hx : p.store.knows x) (hwaits : ¬ Waits p.store x) :
    p.store.mirrors x := by
  cases h.records x hx with
  | arrived hm => exact hm
  | owed i hi =>
    obtain ⟨op, β, c, k, hthread⟩ := h.holds.running hi
    have hended : (Prog.cmd c k : App Unit).ended = true := Pool.idle.ended hidle hthread
    cases hended
  | waiting h => exact absurd h hwaits
  | carried i op rest hi hb =>
    have hended : rest.ended = true := Pool.idle.ended hidle hi
    rw [hb.running] at hended
    cases hended

theorem accounted_run {as : List Step} (hrun : (system env).Run KeepsUp initial as p) : ∃ debts, Accounted env p debts :=
  hrun.invariant (I := fun p => ∃ debts, Accounted env p debts) ⟨_, accounted_initial⟩
    fun _ _ _ ⟨_, hp⟩ hok hnext => hp.next hok hnext

/-- In every run whose steps keep up, each document agrees with its hash once its sync jobs are executed. -/
theorem each_converges (env : Env) : EachConverges env KeepsUp := by
  intro as p x hrun hidle hwaits hx
  obtain ⟨debts, h⟩ := accounted_run hrun
  exact h.arrived hidle hx hwaits

/-- In every run whose steps keep up, the documents agree with the hashes whenever no operation
is in flight and all sync jobs have been executed. -/
theorem converges (env : Env) : Converges env KeepsUp := by
  intro as p hrun hrest x hx
  obtain ⟨debts, h⟩ := accounted_run hrun
  refine h.arrived hrest.idle hx ?_
  rintro ⟨job, readyAt, attemptsMade, hjob, hwaiting⟩
  have hexecuted := hrest.executed job x hjob
  rw [hwaiting] at hexecuted
  cases hexecuted

/-- Driver 1 goes online, and goes offline while the first sync job has read but not yet
stored; the second job is done before the first. -/
def overtaken : List Step :=
  .call (.goOnline 1 (some 0) (some 0) none) :: run 0 11 ++
  .call (.work (.persistDriver 1 .online 0)) :: run 1 2 ++
  .env (.tick 1) :: .call (.goOffline 1) :: run 2 12 ++
  .call (.work (.persistDriver 1 .offline 1)) :: run 3 4 ++ run 1 2

def overtakenJobs : List JobId := [.persistDriver 1 .online 0, .persistDriver 1 .offline 1]

/-- Mongo has the driver online for good, though all jobs are done. -/
theorem not_converges : ¬ Converges townEnv fun _ _ => True := by
  intro h
  have hsteps : ((system townEnv).steps (Checked (Cmd.addsAmong overtakenJobs)) overtaken initial).any (fun p =>
      p.idle && (overtakenJobs.all fun job => !(p.store.jobs job).any JobState.pending) &&
        decide (p.store.record (.driver 1) = .driver (some .offline) none) &&
        decide (p.store.document (.driver 1) = some (.driver (some .online) none))) = true := by decide +kernel
  obtain ⟨p, hrun, hp⟩ := System.exists_run (fun p a => id) hsteps
  simp only [Bool.and_eq_true, decide_eq_true_eq] at hp
  obtain ⟨⟨⟨hidle, hjobs⟩, hrecord⟩, hdoc⟩ := hp
  have hknown : KnowsAmong overtakenJobs p.store := KnowsAmong.run hrun (fun _ _ hok => hok) fun _ _ => rfl
  have hrest : AtRest p := by
    refine ⟨hidle, fun job x _ => ?_⟩
    by_cases hjob : job ∈ overtakenJobs
    · exact Bool.not_eq_true' _ ▸ List.all_eq_true.mp hjobs job hjob
    · rw [hknown job hjob]
      rfl
  have hknows : p.store.knows (.driver 1) := by
    rw [Store.knows, hrecord]
    exact Option.some_ne_none _
  have hmirrors : p.store.document (.driver 1) = some (p.store.record (.driver 1)) :=
    h overtaken p (hrun.mono fun _ _ _ => trivial) hrest (.driver 1) hknows
  rw [hdoc, hrecord] at hmirrors
  cases hmirrors

end YatriGo
