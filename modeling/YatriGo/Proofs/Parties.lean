import YatriGo.Proofs.Acceptance
import YatriGo.Proofs.Requests

/-! Who may move a ride. `cancelRide` never compares the caller with the ride's customer;
the requests of drivers compare the caller with the ride's driver, but before they take
the ride's lock. -/

namespace YatriGo
open Concurrent

/-- The actor is a party of the ride. -/
def Party (actorType : ActorType) (id : ℕ) (h : RideHash) : Prop :=
  match actorType with
  | .customer => h.customerId = id
  | .driver => h.driverId = some id
  | .system => True

/-- In the runs allowed by `ok` only the parties of a ride move it. -/
structure OnlyParties (env : Env) (ok : State → Step → Prop) : Prop where
  records : ∀ as p (i : ℕ) op ws (k : Unit → App Unit) actorType id, (system env).Run ok initial as p →
    p.threads[i]? = some (op, .cmd (.multi ws) k) → op.actor = (actorType, some id) →
    ∀ w ∈ ws, w.credits (op.request.map Prod.fst) op.actor
  moves : ∀ as p q (i : ℕ) op rest actorType id r, (system env).Run ok initial as p → ok p (.step i) →
    p.threads[i]? = some (op, rest) → (system env).next p (.step i) = some q →
    op.actor = (actorType, some id) → (q.store.ride r).status ≠ (p.store.ride r).status →
    Party actorType id (q.store.ride r)
  strangers : ∀ as p q (i : ℕ) op rest actorType id r, (system env).Run ok initial as p → ok p (.step i) →
    p.threads[i]? = some (op, rest) → (system env).next p (.step i) = some q →
    op.request = some (r, actorType, id) → ¬ Party actorType id (p.store.ride r) → q.store = p.store

def Op.cancels : Op → Bool
  | .cancelRide .. => true
  | _ => false

/-- A cancellation that begins finds no ride, a ride that is over, or a ride of its actor. -/
def OwnCancels (env : Env) (p : State) (a : Step) : Prop :=
  ∀ (i : ℕ) op r actorType id, a = .step i → p.threads[i]? = some (op, code env op) →
    op.cancels = true → op.request = some (r, actorType, id) →
    (p.store.ride r).status = none ∨ (p.store.ride r).terminal ∨ Party actorType id (p.store.ride r)

/-- A driver's request on `r` has compared the driver with the ride's, and goes on. -/
def Underway (env : Env) (p : State) (r : RideId) : Prop :=
  ∃ (i : ℕ) (op : Op) (id : ℕ) (rest : App Unit), p.threads[i]? = some (op, rest) ∧ op.request = some (r, .driver, id) ∧
    rest ≠ code env op ∧ rest.ended = false

/-- No ride is requeued while a driver's request on it is under way. -/
def SparesUnderway (env : Env) (p : State) (a : Step) : Prop :=
  ∀ r, Requeues env p a r → ¬ Underway env p r

variable {env : Env} {p q : State} {a : Step} {r : RideId} {actorType : ActorType} {id : ℕ}

theorem driver_write {read h : RideHash} {fields : List RideField} (write : RideWrite env read fields)
    (hrequeue : ∀ now, fields ≠ requeueFields env read now) :
    (h.hset fields).driverId = h.driverId := by
  cases write with
  | start now hst => exact hset_startFields.2.1
  | clear now hst => exact hset_clearBatchFields.2.1
  | exhaust now hst => exact hset_exhaustFields.2.1
  | expand nextRound nextRadius now hst => exact hset_expandFields.2.1
  | batch batchId ds expiresAt now hst => exact hset_batchFields.2.1
  | reject exhausted now hst => exact hset_rejectFields.2.1
  | transition current next options now hst hnext hto hdriver =>
    exact (hset_transitionFields hdriver).2.1
  | requeue d now hst hd => exact absurd rfl (hrequeue now)

/-- A party of a ride stays one, unless the ride is requeued. -/
theorem party_step (hp : (rides env False).Holds p) (hnext : (system env).next p a = some q)
    (hrequeue : actorType = .driver → ¬ Requeues env p a r) (hst : (p.store.ride r).status ≠ none)
    (hparty : Party actorType id (p.store.ride r)) :
    (q.store.ride r).status ≠ none ∧ Party actorType id (q.store.ride r) := by
  cases ride_step hp hnext r with
  | same heq =>
    rw [heq]
    exact ⟨hst, hparty⟩
  | create absent c origin destination metadata now heq => exact absurd absent hst
  | accept d acceptedAt accepts hst' hd heq =>
    rw [heq]
    refine ⟨Option.some_ne_none _, ?_⟩
    cases actorType with
    | driver =>
      have hdriver : (p.store.ride r).driverId = some id := hparty
      rw [hd] at hdriver
      cases hdriver
    | _ => exact hparty
  | write read fields ws performs mem since write heq =>
    rw [heq]
    refine ⟨hset_status_ne_none hst, ?_⟩
    cases actorType with
    | customer => exact hset_customerId.trans hparty
    | system => trivial
    | driver =>
      refine (driver_write write fun now h => hrequeue rfl ⟨ws, read, now, performs, ?_⟩).trans hparty
      rw [← h]
      exact mem

/-- A request begins by reading the ride, and goes on only if it finds one. Then a driver
is the ride's driver, and a cancellation finds a ride that is not over. -/
theorem request_code {op : Op} (h : op.request = some (r, actorType, id)) :
    ∃ k, code env op = .cmd (.hgetallRide r) k ∧ ∀ g, (k g).ended = true ∨
      g.status ≠ none ∧ (Party actorType id g ∨ op.cancels = true ∧ ¬ g.terminal) := by
  have hdriver : ∀ next d, ∃ k, discard (transitionByDriver env next r d) = .cmd (.hgetallRide r) k ∧
      ∀ g, (k g).ended = true ∨ g.status ≠ none ∧ Party .driver d g := by
    intro next d
    refine ⟨_, rfl, fun g => ?_⟩
    by_cases hst : g.status = none
    · left
      simp [toRideSnapshot, hst, Prog.ended]
    · by_cases hd : g.driverId = some d
      · exact Or.inr ⟨hst, hd⟩
      · left
        simp [toRideSnapshot, hst, hd, Prog.ended]
  cases op with
  | markDriverArriving r' d =>
    cases h
    obtain ⟨k, hk, hg⟩ := hdriver .arriving id
    exact ⟨k, hk, fun g => (hg g).imp_right fun h => ⟨h.1, Or.inl h.2⟩⟩
  | startRide r' d =>
    cases h
    obtain ⟨k, hk, hg⟩ := hdriver .ongoing id
    exact ⟨k, hk, fun g => (hg g).imp_right fun h => ⟨h.1, Or.inl h.2⟩⟩
  | completeRide r' d =>
    cases h
    obtain ⟨k, hk, hg⟩ := hdriver .completed id
    exact ⟨k, hk, fun g => (hg g).imp_right fun h => ⟨h.1, Or.inl h.2⟩⟩
  | cancelRide r' actorType' actorId reason =>
    cases actorId with
    | none => cases h
    | some id' =>
      cases h
      refine ⟨_, rfl, fun g => ?_⟩
      cases hst : g.status with
      | none =>
        left
        simp [toRideSnapshot, hst, Prog.ended]
      | some st =>
        cases hterm : st.terminal with
        | true =>
          left
          simp [toRideSnapshot, hst, hterm, Prog.ended]
        | false =>
          right
          refine ⟨Option.some_ne_none _, Or.inr ⟨rfl, ?_⟩⟩
          rintro (h | h) <;> (rw [hst] at h; cases h; cases hterm)
  | _ => cases h

theorem request_actor {op : Op} (h : op.request = some (r, actorType, id)) :
    op.actor = (actorType, some id) := by
  cases op with
  | cancelRide r' actorType' actorId reason =>
    cases actorId <;> cases h
    rfl
  | _ => cases h <;> rfl

/-- A request that has begun and has not ended is one of a party. -/
def Entitled (env : Env) (p : State) : Prop :=
  ∀ (i : ℕ) op rest r actorType id, p.threads[i]? = some (op, rest) →
    op.request = some (r, actorType, id) →
    rest = code env op ∨ rest.ended = true ∨
      (p.store.ride r).status ≠ none ∧ Party actorType id (p.store.ride r)

section Entitled

variable {i : ℕ} {op : Op} {rest : App Unit}

theorem first_step (hi : p.threads[i]? = some (op, code env op))
    (hreq : op.request = some (r, actorType, id)) (hnext : (system env).next p (.step i) = some q) :
    q.store = p.store ∧ ∃ k : RideHash → App Unit, code env op = .cmd (.hgetallRide r) k ∧
      q.threads = p.threads.set i (op, k (p.store.ride r)) ∧
      ∀ g, (k g).ended = true ∨
        g.status ≠ none ∧ (Party actorType id g ∨ op.cancels = true ∧ ¬ g.terminal) := by
  obtain ⟨k, hk, hg⟩ := @request_code env r actorType id op hreq
  obtain ⟨op', β, c, k', hi', hs, ht⟩ := System.next_step hnext
  rw [hi, hk] at hi'
  cases hi'
  exact ⟨hs, k, hk, ht, hg⟩

theorem entitled_kept (hp : (rides env False).Holds p) (hnext : (system env).next p a = some q)
    (hspares : SparesUnderway env p a) (hi : p.threads[i]? = some (op, rest))
    (hreq : op.request = some (r, actorType, id)) (hcode : rest ≠ code env op)
    (hended : ¬ rest.ended = true)
    (hparty : (p.store.ride r).status ≠ none ∧ Party actorType id (p.store.ride r)) :
    (q.store.ride r).status ≠ none ∧ Party actorType id (q.store.ride r) := by
  refine party_step hp hnext ?_ hparty.1 hparty.2
  rintro rfl hrequeues
  exact hspares r hrequeues ⟨i, op, id, rest, hi, hreq, hcode, Bool.eq_false_iff.mpr hended⟩

theorem entitled_step (hp : (rides env False).Holds p) (hnext : (system env).next p a = some q)
    (hown : OwnCancels env p a) (hspares : SparesUnderway env p a) (h : Entitled env p) :
    Entitled env q := by
  -- a thread that does not take the step
  have hother : ∀ (i : ℕ) op rest r actorType id, p.threads[i]? = some (op, rest) →
      op.request = some (r, actorType, id) → rest = code env op ∨ rest.ended = true ∨
        (q.store.ride r).status ≠ none ∧ Party actorType id (q.store.ride r) := by
    intro i op rest r actorType id hi hreq
    by_cases hcode : rest = code env op
    · exact Or.inl hcode
    · by_cases hended : rest.ended = true
      · exact Or.inr (Or.inl hended)
      · refine Or.inr (Or.inr (entitled_kept hp hnext hspares hi hreq hcode hended ?_))
        exact ((h i op rest r actorType id hi hreq).resolve_left hcode).resolve_left hended
  intro i op rest r actorType id hi hreq
  rcases System.next_thread hnext hi with ⟨hbefore, -⟩ | ⟨-, rfl, -⟩ | ⟨rfl, β, c, k, hbefore, -, rfl⟩
  · exact hother i op rest r actorType id hbefore hreq
  · exact Or.inl rfl
  · by_cases hcode : Prog.cmd c k = code env op
    · -- the first command is the read that the request is checked against
      rw [hcode] at hbefore
      obtain ⟨hstore, k', hk', ht', hg⟩ := first_step hbefore hreq hnext
      rw [hk'] at hcode
      cases hcode
      rw [hstore]
      rcases hg (p.store.ride r) with hended | ⟨hst, hparty | ⟨hcancels, hterminal⟩⟩
      · exact Or.inr (Or.inl hended)
      · exact Or.inr (Or.inr ⟨hst, hparty⟩)
      · rcases hown i op r actorType id rfl hbefore hcancels hreq with hnone | hover | hparty
        · exact absurd hnone hst
        · exact absurd hover hterminal
        · exact Or.inr (Or.inr ⟨hst, hparty⟩)
    · refine Or.inr (Or.inr (entitled_kept hp hnext hspares hbefore hreq hcode Bool.false_ne_true ?_))
      exact ((h i op _ r actorType id hbefore hreq).resolve_left hcode).resolve_left Bool.false_ne_true

end Entitled

section credits

variable {op : Op} {s : Store}

/-- A credited MULTI changes the ride of the request, or creates a ride of its customer. -/
theorem credits_multi {subject : Option RideId} {actor : ActorType × Option ℕ} {ws : List Write}
    (h : ∀ w ∈ ws, w.credits subject actor) :
    (s.multi ws).ride r = s.ride r ∨ subject = some r ∨
      actor = (.customer, some ((s.multi ws).ride r).customerId) := by
  induction ws generalizing s with
  | nil => exact Or.inl rfl
  | cons w ws ih =>
    have hw : w.credits subject actor := h w List.mem_cons_self
    have hws := @ih (w.apply s) fun v hv => h v (List.mem_cons_of_mem _ hv)
    rw [multi_cons]
    rcases hws with heq | hrest
    · cases w with
      | createRide r' payload =>
        rw [heq]
        change put s.ride r' payload r = _ ∨ _
        rcases eq_or_ne r r' with rfl | hne
        · right; right
          change actor = (.customer, some (put s.ride r payload r).customerId)
          rw [put_self]
          exact hw
        · exact Or.inl (put_of_ne hne)
      | hsetRide r' fields =>
        rcases eq_or_ne r r' with rfl | hne
        · exact Or.inr (Or.inl hw.1)
        · rw [heq]
          exact Or.inl (put_of_ne hne)
      | _ => exact Or.inl heq
    · exact Or.inr hrest

/-- A command on behalf of an actor changes the ride of the request, or makes the actor a
party of the ride. -/
theorem credits_exec {i : ℕ} {β : Type} {c : Cmd β} (hactor : op.actor = (actorType, some id))
    (h : c.credits (op.request.map Prod.fst) op.actor) :
    (exec env i c s).2.ride r = s.ride r ∨ op.request.map Prod.fst = some r ∨
      Party actorType id ((exec env i c s).2.ride r) := by
  cases c with
  | multi ws =>
    refine (credits_multi h).imp_right fun h => h.imp_right fun hcreated => ?_
    rw [hactor] at hcreated
    cases hcreated
    rfl
  | evalAcceptRide r' d acceptedAt reservation =>
    have hcredit : op.actor = (.driver, some d) := h
    rw [hactor] at hcredit
    cases hcredit
    rcases @acceptRideScript_cases s r' id acceptedAt reservation with ⟨-, h'⟩ | ⟨-, h', -⟩
    · exact Or.inl (congrArg (fun s => s.ride r) h')
    · change (acceptRideScript r' id acceptedAt reservation s).2.ride r = _ ∨ _ ∨
        Party .driver id ((acceptRideScript r' id acceptedAt reservation s).2.ride r)
      rw [h']
      rcases eq_or_ne r r' with rfl | hne
      · right; right
        change (put s.ride r _ r).driverId = some id
        rw [put_self]
        rfl
      · exact Or.inl (put_of_ne hne)
  | _ => exact Or.inl (congrFun (exec_sameRides (by trivial)).ride r)

end credits

/-- No ride lock expires, cancellations are asked for by parties, and no ride is requeued
under a driver's request. -/
structure Respects (env : Env) (p : State) (a : Step) : Prop where
  locks : RideLocksKept p a
  own : OwnCancels env p a
  spares : SparesUnderway env p a

theorem respects_run {as : List Step} (hrun : (system env).Run (Respects env) initial as p) :
    (rides env False).Holds p ∧ Entitled env p := by
  have hlocks : ∀ (p : State) k, keeps False k → ¬ Respects env p (.env (.expireLease k)) :=
    fun p k hk hok => RideLocksKept.keeps hk hok.locks
  refine hrun.invariant (I := fun p => (rides env False).Holds p ∧ Entitled env p)
    ⟨rides_initial, fun i op rest r actorType id hi => by cases hi⟩ fun p a q hI hok hnext => ?_
  exact ⟨rides_run hlocks (.single hok hnext) hI.1,
    entitled_step hI.1 hnext hok.own hok.spares hI.2⟩

theorem only_parties : OnlyParties env (Respects env) := by
  have huses : ∀ as p (i : ℕ) op (rest : App Unit) actorType id,
      ∀ {ok : State → Step → Prop}, (system env).Run ok initial as p →
      p.threads[i]? = some (op, rest) → op.actor = (actorType, some id) →
      Credits (op.request.map Prod.fst) op.actor rest := by
    intro as p i op rest actorType id ok hrun hi hactor
    refine hrun.uses (Q := fun op' => op' = op) ?_ ?_ i op rest hi rfl
    · rintro op' rfl
      exact credits_code hactor
    · intro j op' rest' hj
      cases hj
  refine ⟨fun as p i op ws k actorType id hrun hi hactor => ?_,
    fun as p q i op rest actorType id r hrun hok hi hnext hactor hst => ?_,
    fun as p q i op rest actorType id r hrun hok hi hnext hreq hparty => ?_⟩
  · exact (huses as p i op _ actorType id hrun hi hactor).1
  · obtain ⟨op', β, c, k, hi', hs, -⟩ := System.next_step hnext
    rw [hi] at hi'
    cases hi'
    obtain ⟨hp, hentitled⟩ := respects_run hrun
    have hcredits := (huses as p i op _ actorType id hrun hi hactor).1
    rcases @credits_exec env r actorType id op p.store i β c hactor hcredits with
      heq | hsubject | hnew
    · exact absurd (congrArg RideHash.status ((congrArg (fun s => s.ride r) hs).trans heq)) hst
    · obtain ⟨⟨r', actorType', id'⟩, hreq, rfl⟩ := Option.map_eq_some_iff.mp hsubject
      rw [request_actor hreq] at hactor
      cases hactor
      by_cases hcode : Prog.cmd c k = code env op
      · rw [hcode] at hi
        rw [(first_step hi hreq hnext).1] at hst
        exact absurd rfl hst
      · have hparty := ((hentitled i op _ r' actorType id hi hreq).resolve_left hcode).resolve_left
          Bool.false_ne_true
        exact (entitled_kept hp hnext hok.spares hi hreq hcode Bool.false_ne_true hparty).2
    · rw [hs]
      exact hnew
  · obtain ⟨-, hentitled⟩ := respects_run hrun
    rcases hentitled i op rest r actorType id hi hreq with rfl | hended | ⟨-, hyes⟩
    · exact (first_step hi hreq hnext).1
    · obtain ⟨op', β, c, k, hi', -⟩ := System.next_step hnext
      rw [hi] at hi'
      cases hi'
      cases hended
    · exact absurd hyes hparty

/-- Customer 8 cancels the ride of customer 7. -/
theorem stranger_cancels : ¬ OnlyParties townEnv RideLocksKept := by
  intro h
  obtain ⟨p, hrun, hp⟩ := town_run rideLocksKept_of_lasting
    (.call (.requestRide 7 ⟨0, 0⟩ ⟨0, 0⟩ ⟨none, []⟩) :: run 0 14 ++
      .call (.cancelRide ⟨0, 1⟩ .customer (some 8) "") :: run 1 5)
    (fun p => ((system townEnv).next p (.step 1)).any fun q => (p.threads[1]?).any fun thread =>
      thread.1.actor = (.customer, some 8) ∧
      (q.store.ride ⟨0, 1⟩).status ≠ (p.store.ride ⟨0, 1⟩).status ∧
      (q.store.ride ⟨0, 1⟩).customerId ≠ 8) (by decide +kernel)
  obtain ⟨q, hnext, hq⟩ := (Option.any_eq_true _ _).mp hp
  obtain ⟨⟨op, rest⟩, hi, hthread⟩ := (Option.any_eq_true _ _).mp hq
  obtain ⟨hactor, hst, hcustomer⟩ := of_decide_eq_true hthread
  have hkept : RideLocksKept p (.step 1) := rideLocksKept_of_lasting p _ rfl
  exact hcustomer (h.moves _ p q 1 op rest .customer 8 ⟨0, 1⟩ hrun hkept hi hnext hactor hst)

end YatriGo
