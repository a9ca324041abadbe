import YatriGo.Proofs.DispatchFootprint
import YatriGo.Proofs.Acceptance

/-! Whether dispatch work that was already under way can undo an acceptance. -/

namespace YatriGo
open Concurrent

/-- A step of dispatch work on `r` that is already under way, or of the environment. -/
def DispatchStep (r : RideId) (p : State) : Step → Bool
  | .step i => p.threads[i]?.any fun t => t.1.dispatches r
  | .env _ => true
  | .call _ => false

/-- The ride is accepted by `d`, with no batch left. -/
structure Stands (r : RideId) (d : DriverId) (s : Store) : Prop where
  status : (s.ride r).status = some .accepted
  driver : (s.ride r).driverId = some d
  batch : (s.ride r).currentBatchId = none
  response : s.rideResponses r d = some .accepted

/-- The `new_ride_request` messages for `r`. -/
def offers (r : RideId) (s : Store) : List Message :=
  s.published.filter fun m => match m.key with
    | .newRideRequest r' _ _ => r' = r
    | _ => false

/-- An acceptance stands when dispatch work under way has come to its end, if all its
steps were allowed by `ok`. -/
def AcceptanceStands (env : Env) (ok : State → Step → Prop) : Prop :=
  ∀ as p a q r d version bs t, (system env).Run RideLocksKept initial as p →
    Accepts p a r d version → 0 < version → (system env).next p a = some q →
    (system env).Run (fun p a => RideLocksKept p a ∧ DispatchStep r p a = true ∧ ok p a) q bs t →
    (∀ i op rest, t.threads[i]? = some (op, rest) → op.dispatches r = true → Running t i = false) →
    Stands r d t.store ∧ offers r t.store = offers r q.store

def RideField.respects (status : Option RideStatus) : RideField → Bool
  | .status .cancelled => status = some .dispatching
  | .currentBatchId (some _) => status = some .dispatching
  | _ => true

/-- A cancellation and a new batch find the ride still dispatching, and a response is not
written over an ACCEPTED. -/
def Write.respects (s : Store) : Write → Bool
  | .hsetRide r fields => fields.all (RideField.respects (s.ride r).status)
  | .hsetResponse r d _ => s.rideResponses r d ≠ some .accepted
  | _ => true

/-- The same, and a `new_ride_request` is sent only while the ride is dispatching. -/
def Cmd.respects (s : Store) : ⦃β : Type⦄ → Cmd β → Bool
  | _, .multi ws => ws.all (Write.respects s)
  | _, .publish m => match m.key with
    | .newRideRequest r _ _ => (s.ride r).status = some .dispatching
    | _ => true
  | _, _ => true

def Cmd.sends (m : Message) : ⦃β : Type⦄ → Cmd β → Prop
  | _, .publish m' => m' = m
  | _, _ => False

variable {env : Env} {p q : State} {a : Step} {r : RideId} {d : DriverId} {s : Store}

theorem Write.apply_rideResponses {w : Write} (hset : ∀ v, w ≠ .hsetResponse r d v)
    (hdel : w ≠ .delResponses r) : (w.apply s).rideResponses r d = s.rideResponses r d := by
  cases w with
  | hsetResponse r' d' v =>
    change put s.rideResponses r' (put (s.rideResponses r') d' (some v)) r d = _
    rcases eq_or_ne r r' with rfl | hne
    · have hd : d ≠ d' := fun h => hset v (h ▸ rfl)
      rw [put_self, put_of_ne hd]
    · rw [put_of_ne hne]
  | delResponses r' =>
    have hne : r ≠ r' := fun h => hdel (h ▸ rfl)
    exact congrFun (put_of_ne hne) d
  | _ => rfl

theorem multi_rideResponses {ws : List Write}
    (h : ∀ w ∈ ws, (∀ v, w ≠ .hsetResponse r d v) ∧ w ≠ .delResponses r) :
    (s.multi ws).rideResponses r d = s.rideResponses r d := by
  induction ws generalizing s with
  | nil => rfl
  | cons w ws ih =>
    obtain ⟨hset, hdel⟩ := h w (List.mem_cons_self ..)
    rw [multi_cons, ih fun v hv => h v (List.mem_cons_of_mem _ hv)]
    exact Write.apply_rideResponses hset hdel

theorem multi_published {ws : List Write} : (s.multi ws).published = s.published := by
  induction ws generalizing s with
  | nil => rfl
  | cons w ws ih =>
    rw [multi_cons, ih]
    cases w <;> rfl

/-- Single commands publish their own message at most. -/
theorem exec_published {i : ℕ} {β : Type} {c : Cmd β} (h : c.single) :
    (exec env i c s).2.published = s.published ∨
      ∃ m, c.sends m ∧ (exec env i c s).2.published = s.published ++ [m] := by
  cases c with
  | multi ws => exact h.elim
  | evalAcceptRide r d acceptedAt reservation => exact h.elim
  | publish m => exact Or.inr ⟨m, rfl, rfl⟩
  | setNX key token ttl =>
    cases hl : s.locks key with
    | some lease => rw [exec_setNX_of_some hl]; exact Or.inl rfl
    | none => rw [exec_setNX_of_none hl]; exact Or.inl rfl
  | evalReleaseLock key token =>
    simp only [exec, releaseLockScript]
    split
    · split <;> exact Or.inl rfl
    · exact Or.inl rfl
  | setIdempotent key => simp only [exec]; split <;> exact Or.inl rfl
  | addJob job delay =>
    obtain ⟨jobs, hj⟩ : ∃ jobs, addJob job delay s = { s with jobs } := addJob_eq
    simp only [exec, hj, true_or]
  | takeJob job =>
    obtain ⟨jobs, hj⟩ : ∃ jobs, (takeJob job s).2 = { s with jobs } := takeJob_eq
    simp only [exec, hj, true_or]
  | finishJob job succeeded =>
    obtain ⟨jobs, hj⟩ : ∃ jobs, finishJob job succeeded s = { s with jobs } := finishJob_eq
    simp only [exec, hj, true_or]
  | _ => exact Or.inl rfl

theorem offers_append {m : Message} {published : List Message}
    (hs : published = s.published ++ [m])
    (hm : ∀ b d', m.key ≠ .newRideRequest r b d') :
    published.filter (fun m => match m.key with
      | .newRideRequest r' _ _ => r' = r
      | _ => false) = offers r s := by
  have hnot : (match m.key with
      | .newRideRequest r' _ _ => decide (r' = r)
      | _ => false) = false := by
    cases hkey : m.key with
    | newRideRequest r' b d' =>
      have hne : r' ≠ r := fun h => hm b d' (h ▸ hkey)
      exact decide_eq_false hne
    | _ => rfl
  rw [hs, List.filter_append]
  unfold offers
  simp only [List.filter_cons, hnot, List.filter_nil, List.append_nil, Bool.false_eq_true, if_false]

/-- An update by dispatch work leaves an accepted ride as it is, if it respects it. -/
theorem stands_write {read h : RideHash} {fields : List RideField}
    (hst : h.status = some .accepted) (hd : h.driverId = some d)
    (since : Since read h) (write : RideWrite env read fields)
    (hdispatch : fields.all RideField.ofDispatch = true)
    (hrespects : fields.all (RideField.respects h.status) = true) :
    (h.hset fields).status = some .accepted ∧ (h.hset fields).driverId = some d ∧
      (h.hset fields).currentBatchId = none := by
  have hcheck : ∀ f ∈ fields, RideField.respects (some .accepted) f = true := by
    rw [hst] at hrespects
    exact List.all_eq_true.mp hrespects
  cases write with
  | start now hread =>
    -- a ride read as REQUESTED has not been accepted since
    have heq : h = read := since.eq_of_status hread (by decide)
    rw [← heq, hst] at hread
    cases hread
  | clear now hread =>
    obtain ⟨h₁, h₂, h₃⟩ := @hset_clearBatchFields read h now
    exact ⟨h₁.trans hst, h₂.trans hd, h₃⟩
  | exhaust now hread =>
    have hfield := hcheck (.status .cancelled) (by simp only [exhaustFields, List.mem_cons, true_or])
    cases hfield
  | expand nextRound nextRadius now hread =>
    obtain ⟨h₁, h₂, h₃⟩ := @hset_expandFields read h nextRound nextRadius now
    exact ⟨h₁.trans hst, h₂.trans hd, h₃⟩
  | batch batchId ds expiresAt now hread =>
    have hfield := hcheck (.currentBatchId (some batchId))
      (by simp only [batchFields, List.mem_cons, true_or])
    cases hfield
  | reject exhausted now hread =>
    obtain ⟨h₁, h₂, h₃⟩ := @hset_rejectFields read h exhausted now
    refine ⟨h₁.trans hst, h₂.trans hd, h₃.trans ?_⟩
    have hfield := hcheck (.currentBatchId (if exhausted then none else read.currentBatchId))
      (by simp only [rejectFields, List.mem_cons, true_or])
    cases hbatch : (if exhausted then none else read.currentBatchId : Option BatchId) with
    | none => rfl
    | some batchId =>
      rw [hbatch] at hfield
      cases hfield
  | transition current next options now hread hnext hto hdriver =>
    have hstatus : .status next ∈ transitionFields env read next options now := by
      unfold transitionFields
      simp only [List.mem_append, List.mem_cons, true_or]
    have hof : RideField.ofDispatch (.status next) = true := List.all_eq_true.mp hdispatch _ hstatus
    have hfield := hcheck _ hstatus
    cases next with
    | cancelled => cases hfield
    | dispatching => exact absurd rfl hto.1
    | _ => cases hof
  | requeue d' now hread hread' =>
    have hof : RideField.ofDispatch (.driverId none) = true := List.all_eq_true.mp hdispatch _
      (by simp only [requeueFields, List.mem_cons, true_or, or_true])
    cases hof

theorem event_published {e : Event} {t : Store} (h : e.apply s = some t) :
    t.published = s.published := by
  cases event_happens h <;> rfl

theorem stands_ride (hp : (rides env False).Holds p) (hnext : (system env).next p a = some q)
    (hdispatch : ∀ ws, Performs p a ws → ∀ w ∈ ws, w.ofDispatch)
    (hrespects : Checked Cmd.respects p a = true) (hs : Stands r d p.store) :
    (q.store.ride r).status = some .accepted ∧ (q.store.ride r).driverId = some d ∧
      (q.store.ride r).currentBatchId = none := by
  cases ride_step hp hnext r with
  | same heq =>
    rw [heq]
    exact ⟨hs.status, hs.driver, hs.batch⟩
  | create absent c origin destination metadata now heq =>
    rw [hs.status] at absent
    cases absent
  | accept d' acceptedAt accepts hst hd heq =>
    rw [hs.status] at hst
    cases hst
  | write read fields ws performs mem since write heq =>
    rw [heq]
    have hmulti : Cmd.respects p.store (.multi ws) = true := checked_multi hrespects performs
    have hfields : fields.all (RideField.respects (p.store.ride r).status) = true :=
      List.all_eq_true.mp hmulti _ mem
    exact stands_write hs.status hs.driver since write (hdispatch ws performs _ mem) hfields

/-- Responses and offers of an accepted ride, across a command of dispatch work. -/
theorem stands_command {i : ℕ} {β : Type} {c : Cmd β} (hdispatch : c.ofDispatch)
    (hcheck : Cmd.respects s c = true) (hs : Stands r d s) :
    (exec env i c s).2.rideResponses r d = some .accepted ∧
      offers r (exec env i c s).2 = offers r s := by
  have hsame : c.single → _ := @exec_sameKeys s env i β c
  have hsingle : c.single → _ := @exec_published env s i β c
  cases c with
  | multi ws =>
    refine ⟨(multi_rideResponses fun w hw => ⟨fun v h => ?_, fun h => ?_⟩).trans hs.response, ?_⟩
    · have hrespects : Write.respects s w = true := List.all_eq_true.mp hcheck w hw
      rw [h] at hrespects
      exact absurd hs.response (of_decide_eq_true hrespects)
    · have hof : w.ofDispatch := hdispatch w hw
      rw [h] at hof
      exact hof
    · unfold offers
      exact congrArg _ multi_published
  | evalAcceptRide r' d' acceptedAt reservation =>
    change (acceptRideScript r' d' acceptedAt reservation s).2.rideResponses r d = _ ∧
      offers r (acceptRideScript r' d' acceptedAt reservation s).2 = _
    rcases @acceptRideScript_cases s r' d' acceptedAt reservation with ⟨-, h⟩ | ⟨-, h, hzero⟩
    · rw [h]
      exact ⟨hs.response, rfl⟩
    · rw [h]
      have hne : r ≠ r' := by
        rintro rfl
        have hst := (acceptRideGuard_eq_zero hzero).1
        rw [hs.status] at hst
        cases hst
      refine ⟨?_, rfl⟩
      change put s.rideResponses r' _ r d = _
      rw [put_of_ne hne]
      exact hs.response
  | publish m =>
    refine ⟨hs.response, offers_append rfl fun b d' hkey => ?_⟩
    simp only [Cmd.respects, hkey, hs.status] at hcheck
    cases hcheck
  | _ =>
    refine ⟨(congrFun (congrFun (hsame trivial).responses r) d).trans hs.response, ?_⟩
    rcases hsingle trivial with h | ⟨m, hm, -⟩
    · unfold offers
      rw [h]
    · exact hm.elim

/-- Steps of dispatch work, and of the environment, leave an acceptance as it is. -/
theorem stands_step (hp : (rides env False).Holds p) (hnext : (system env).next p a = some q)
    (huses : ∀ (i : ℕ) (op : Op) (rest : App Unit), p.threads[i]? = some (op, rest) →
      op.dispatches r = true → Dispatching rest)
    (hstep : DispatchStep r p a = true) (hrespects : Checked Cmd.respects p a = true)
    (hs : Stands r d p.store) : Stands r d q.store ∧ offers r q.store = offers r p.store := by
  have hdispatch : ∀ i op (β : Type) (c : Cmd β) (k : β → App Unit), a = .step i →
      p.threads[i]? = some (op, .cmd c k) → c.ofDispatch := by
    rintro i op β c k rfl hi
    simp only [DispatchStep, hi, Option.any_some] at hstep
    exact (huses i op _ hi hstep).1
  obtain ⟨hst, hd, hb⟩ := stands_ride hp hnext (fun ws performs w hw => by
    obtain ⟨i, op, k, ha, hi⟩ := performs.command
    exact hdispatch i op _ _ k ha hi w hw) hrespects hs
  cases a with
  | call op => cases hstep
  | env e =>
    simp only [System.next, Option.map_eq_some_iff] at hnext
    obtain ⟨t, ht, rfl⟩ := hnext
    refine ⟨⟨hst, hd, hb, ?_⟩, ?_⟩
    · rw [(event_sameKeys ht).responses]
      exact hs.response
    · unfold offers
      rw [event_published ht]
  | step i =>
    obtain ⟨op, β, c, k, hi, hstore, -⟩ := System.next_step hnext
    change q.store = (exec env i c p.store).2 at hstore
    obtain ⟨hresponse, hoffers⟩ := @stands_command env r d p.store i β c
      (hdispatch i op β c k rfl hi) (checked_command hrespects hi) hs
    rw [hstore] at hst hd hb ⊢
    exact ⟨⟨hst, hd, hb, hresponse⟩, hoffers⟩

/-- An acceptance stands if dispatch work under way respects it. -/
theorem acceptance_stands :
    AcceptanceStands env fun p a => Checked Cmd.respects p a = true := by
  intro as p a q r d version bs t hrun haccept hversion hnext hbs _
  have hkept : RideLocksKept p a := by
    obtain ⟨i, rfl, -⟩ := haccept
    intro r h
    cases h
  have hrun' : (system env).Run RideLocksKept initial (as ++ [a]) q :=
    hrun.append (.single hkept hnext)
  have hq : (rides env False).Holds q :=
    rides_run (fun p k hk => RideLocksKept.keeps hk) hrun' rides_initial
  have huses : ∀ (i : ℕ) (op : Op) (rest : App Unit), q.threads[i]? = some (op, rest) →
      op.dispatches r = true → Dispatching rest :=
    hrun'.uses (fun op hop => dispatching_code hop) fun i op rest hi _ => by
      simp only [initial, List.getElem?_nil, reduceCtorEq] at hi
  obtain ⟨acceptedAt, reservation, -, -, hcommit⟩ := haccept.guard env hversion
  have hs : Stands r d q.store := by
    rw [hcommit q hnext]
    have hride : (acceptRideCommit r d acceptedAt p.store).ride r =
      (p.store.ride r).accept d acceptedAt := put_self
    refine ⟨?_, ?_, ?_, ?_⟩
    · rw [hride]; rfl
    · rw [hride]; rfl
    · rw [hride]; rfl
    · change put p.store.rideResponses r _ r d = _
      rw [put_self, put_self]
  -- along the run: the contract, the commands left to dispatch work, and the acceptance
  have hinv := hbs.invariant
    (I := fun t => (rides env False).Holds t ∧
      (∀ (i : ℕ) (op : Op) (rest : App Unit), t.threads[i]? = some (op, rest) →
        op.dispatches r = true → Dispatching rest) ∧
      Stands r d t.store ∧ offers r t.store = offers r q.store)
    ⟨hq, huses, hs, rfl⟩ fun m b m' ⟨hm, hu, hst, hof⟩ hok hnext' => by
      obtain ⟨hst', hof'⟩ := stands_step hm hnext' hu hok.2.1 hok.2.2 hst
      have hone : (system env).Run RideLocksKept m [b] m' := .single hok.1 hnext'
      exact ⟨rides_run (fun p k hk => RideLocksKept.keeps hk) hone hm,
        hone.uses (fun op hop => dispatching_code hop) hu, hst', hof'.trans hof⟩
  exact hinv.2.2

/-- Driver 1 comes online when the search has reached its last radius. The search that
finds the batch expired reads the responses, then driver 1 accepts, and then the search
goes on: it writes TIMEOUT over ACCEPTED, and cancels the ride for want of drivers. -/
def lateSearch : List Step :=
  .call (.requestRide 7 ⟨0, 0⟩ ⟨0, 0⟩ ⟨none, []⟩) :: run 0 14 ++
  .call (.startDispatch ⟨0, 1⟩) :: run 1 24 ++
  .call (.startDispatch ⟨0, 1⟩) :: run 2 15 ++
  .call (.goOnline 1 (some 0) (some 0) none) :: run 3 11 ++
  .call (.startDispatch ⟨0, 1⟩) :: run 4 22 ++
  .env (.tick 12000) ::
  .call (.acceptRide ⟨0, 1⟩ 1) :: run 5 2 ++
  .call (.startDispatch ⟨0, 1⟩) :: run 6 5

theorem acceptance_overturned : ¬ AcceptanceStands townEnv fun _ _ => True := by
  intro h
  let finish : State → Option State := (system townEnv).steps
    (fun p a => lasting p a && DispatchStep ⟨0, 1⟩ p a) (run 6 29 ++ run 5 14)
  obtain ⟨p, hrun, hp⟩ := town_run rideLocksKept_of_lasting lateSearch
    (fun p => peek p 5 (Cmd.acceptance p.store) = some (⟨0, 1⟩, 1, 6) ∧
      ((system townEnv).next p (.step 5)).any fun q => (finish q).any fun t =>
        Idle t ∧ (t.store.ride ⟨0, 1⟩).status = some .cancelled) (by decide +kernel)
  obtain ⟨haccept, hp⟩ := of_decide_eq_true hp
  cases hnext : (system townEnv).next p (.step 5) with
  | none =>
    rw [hnext] at hp
    cases hp
  | some q =>
    rw [hnext] at hp
    have himp : ∀ p a, (lasting p a && DispatchStep ⟨0, 1⟩ p a) = true →
        RideLocksKept p a ∧ DispatchStep ⟨0, 1⟩ p a = true ∧ True := fun p a hpa => by
      obtain ⟨h₁, h₂⟩ := Bool.and_eq_true_iff.mp hpa
      exact ⟨rideLocksKept_of_lasting p a h₁, h₂, trivial⟩
    obtain ⟨t, hbs, ht⟩ := System.exists_run himp hp
    obtain ⟨hidle, hcancelled⟩ := of_decide_eq_true ht
    have hstands := (h _ p (.step 5) q ⟨0, 1⟩ 1 6 _ t hrun ⟨5, rfl, haccept⟩ (by decide) hnext hbs
      fun i op rest _ _ => running_of_idle hidle i).1
    rw [hstands.status] at hcancelled
    cases hcancelled

end YatriGo
