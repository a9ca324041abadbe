import Mathlib.Data.Finset.Max
import YatriGo.Proofs.BackedMessages
import YatriGo.Proofs.StatusDebts
import YatriGo.Proofs.Versions

/-! When nothing is in flight, the newest message that the customer has of a ride reports the status that the
ride has, in the runs in which no acceptance comes between an operation's read of a ride and its update. -/

namespace YatriGo
open Concurrent

/-- The newest message about a ride to its customer reports the status that the ride has now: of all versions
that were reported it shows the last, and in this version the ride had no other status. -/
structure CustomersTold (env : Env) (ok : State → Step → Prop) (stand : List Step → Prop) : Prop where
  told : ∀ as q r, (system env).Run ok initial as q → stand as → Idle q = true → (q.store.ride r).status ≠ none →
    ∃ m v, m ∈ q.store.published ∧ m.room = .customer (q.store.ride r).customerId ∧ m.key.reports = some (r, v) ∧
      (∀ m' ∈ q.store.published, ∀ v', m'.key.reports = some (r, v') → v' ≤ v) ∧
      ∀ ride, Saw (Passed (system env) initial as) r ride → ride.version = v → ride.status = (q.store.ride r).status

/-- The ride has had its status since the version `since`, in all stores of the past. -/
def Lasts (past : Set Store) (q : State) (r : RideId) (since : ℕ) : Prop :=
  ∀ ride, Saw past r ride → since ≤ ride.version → ride.status = (q.store.ride r).status

/-- A marked message reports the ride in the version `since` or later. -/
def Store.reported (s : Store) (r : RideId) (since : ℕ) : Prop :=
  ∃ key v, s.idempotency key = true ∧ key.reports = some (r, v) ∧ since ≤ v

/-- The last change of a ride's status has been reported, or a thread owes the report. -/
structure RideTold (past : Set Store) (q : State) (debts : ℕ → Set (RideId × ℕ)) (r : RideId) (since : ℕ) : Prop where
  known : since ≤ (q.store.ride r).version
  lasts : Lasts past q r since
  covered : q.store.reported r since ∨ ∃ i, (r, since) ∈ debts i

variable {env : Env} {p q : State} {a : Step} {as : List Step} {r : RideId} {ride : RideHash}

section versions

theorem timely_holds (hrun : (system env).Run Timely initial as q) : (rides env False).Holds q ∧ Unborn q :=
  (version_run hrun rides_initial fun _ _ => rfl).1

theorem Saw.version (hrun : (system env).Run Timely initial as q) (hsaw : Saw (Passed (system env) initial as) r ride) :
    ride = q.store.ride r ∨ ride.version < (q.store.ride r).version := by
  obtain ⟨s, ⟨bs, cs, m, rfl, hbs, rfl⟩, rfl, -⟩ := hsaw
  obtain ⟨hm, hunborn⟩ := timely_holds (hrun.head hbs)
  rcases (version_run (hrun.rest hbs) hm hunborn).2 r with hsame | hlater
  · exact .inl hsame.symm
  · exact .inr hlater

theorem known_step (hrun : (system env).Run Timely initial as p) (hok : Timely p a) (hnext : (system env).next p a = some q)
    {x : RideId × ℕ} (hx : (informs env).known p.store x) : (informs env).known q.store x := by
  obtain ⟨hholds, hunborn⟩ := timely_holds hrun
  refine ⟨exist_step hholds hnext hx.1, ?_⟩
  rcases version_step hholds hnext hunborn hok x.1 with hsame | hlater
  · rw [hsame]
    exact hx.2
  · exact hx.2.trans hlater.le

end versions

section steps

theorem reported_step (hnext : (system env).next p a = some q) {since : ℕ} (h : p.store.reported r since) :
    q.store.reported r since := by
  obtain ⟨key, v, hmarked, hkey, hle⟩ := h
  exact ⟨key, v, publishes_sound.stays hnext hmarked, hkey, hle⟩

/-- A change of status is owed by the thread that made it. -/
theorem told_changed {debts debts' : ℕ → Set (RideId × ℕ)} (hrun : (system env).Run Timely initial (as ++ [a]) q)
    (hnext : (system env).next p a = some q) (hmoves : (informs env).Moves p a q debts debts')
    (hexist : (q.store.ride r).status ≠ none) (hchanged : (q.store.ride r).status ≠ (p.store.ride r).status) :
    RideTold (Passed (system env) initial (as ++ [a])) q debts' r (q.store.ride r).version := by
  refine ⟨le_rfl, fun ride hsaw hle => ?_, .inr ?_⟩
  · rcases hsaw.version hrun with rfl | hlt
    · rfl
    · omega
  · cases a with
    | call op =>
      cases hnext
      exact absurd rfl hchanged
    | env e =>
      obtain ⟨t, ht, rfl⟩ := Option.map_eq_some_iff.mp hnext
      exact absurd (congrArg RideHash.status (congrFun (event_sameKeys ht).ride r)) hchanged
    | step i =>
      obtain ⟨op, β, c, k, hi, hstore, -⟩ := System.next_step hnext
      refine ⟨i, ?_⟩
      rw [hmoves.stepped i op β c k rfl hi]
      refine ⟨⟨hexist, le_rfl⟩, .inr ⟨hchanged, rfl⟩, fun hpaid => ?_⟩
      -- a command that marks a message writes no ride
      have hsets : Entity.ride r ∈ c.sets := by
        by_contra hsets
        rw [hstore] at hchanged
        exact hchanged (Record.ride.inj (exec_record hsets)).1
      cases c with
      | setIdempotent key => exact hsets
      | _ => exact hpaid

/-- While the status stays, it is still reported or owed. -/
theorem told_same {debts debts' : ℕ → Set (RideId × ℕ)} {since : ℕ} (hrun : (system env).Run Timely initial (as ++ [a]) q)
    (hnext : (system env).next p a = some q) (hmoves : (informs env).Moves p a q debts debts')
    (hknown : (informs env).known q.store (r, since)) (hsame : (q.store.ride r).status = (p.store.ride r).status)
    (h : RideTold (Passed (system env) initial as) p debts r since) :
    RideTold (Passed (system env) initial (as ++ [a])) q debts' r since := by
  refine ⟨hknown.2, fun ride hsaw hle => ?_, ?_⟩
  · obtain ⟨s, hs, hride, hexist⟩ := hsaw
    rcases hrun.passed_concat hs with rfl | hbefore
    · rw [hride]
    · rw [hsame]
      exact h.lasts ride ⟨s, hbefore, hride, hexist⟩ hle
  · rcases h.covered with hreported | ⟨i, hi⟩
    · exact .inl (reported_step hnext hreported)
    · by_cases ha : a = .step i
      · subst ha
        obtain ⟨op, β, c, k, hthread, hstore, -⟩ := System.next_step hnext
        by_cases hpaid : (r, since) ∈ c.reports
        · refine .inl ?_
          cases c with
          | setIdempotent key =>
            obtain ⟨v, hkey, hle⟩ := hpaid
            refine ⟨key, v, ?_, hkey, hle⟩
            rw [hstore]
            show (exec env i (.setIdempotent key) p.store).2.idempotency key = true
            rw [exec_setIdempotent]
            exact put_self
          | _ => exact hpaid.elim
        · refine .inr ⟨i, ?_⟩
          rw [hmoves.stepped i op β c k rfl hthread]
          exact ⟨hknown, .inl hi, hpaid⟩
      · refine .inr ⟨i, ?_⟩
        rw [hmoves.others i ha]
        exact hi

end steps

section runs

theorem told_run (hrun : (system env).Run Timely initial as q) : ∃ debts, (informs env).Holds q debts ∧
    ∀ r, (q.store.ride r).status ≠ none → ∃ since, RideTold (Passed (system env) initial as) q debts r since := by
  refine hrun.last_induction (I := fun as q => ∃ debts, (informs env).Holds q debts ∧
    ∀ r, (q.store.ride r).status ≠ none → ∃ since, RideTold (Passed (system env) initial as) q debts r since)
    ⟨fun _ => ∅, Debts.holds_empty, fun r hr => absurd rfl hr⟩ fun bs a p q hbs hp hok hnext => ?_
  obtain ⟨debts, hholds, htold⟩ := hp
  obtain ⟨debts', hholds', hmoves⟩ := hholds.next balanced_informs.code hnext (fun x => known_step hbs hok hnext)
    (.always (fun _ _ _ _ _ => trivial) fun _ _ _ => trivial)
  have hlast : (system env).Run Timely initial (bs ++ [a]) q := hbs.append (.single hok hnext)
  refine ⟨debts', hholds', fun r hexist => ?_⟩
  by_cases hsame : (q.store.ride r).status = (p.store.ride r).status
  · have hbefore : (p.store.ride r).status ≠ none := by
      rw [← hsame]
      exact hexist
    obtain ⟨since, hsince⟩ := htold r hbefore
    exact ⟨since, told_same hlast hnext hmoves (known_step hbs hok hnext ⟨hbefore, hsince.known⟩) hsame hsince⟩
  · exact ⟨_, told_changed hlast hnext hmoves hexist hsame⟩

theorem owed_idle {debts : ℕ → Set (RideId × ℕ)} (h : (informs env).Holds q debts) (hidle : Idle q = true) (i : ℕ) :
    debts i = ∅ := by
  refine Set.eq_empty_of_forall_notMem fun x hx => ?_
  obtain ⟨op, β, c, k, hthread⟩ := h.running hx
  have hrunning : Running q i = true := running_of_thread hthread
  rw [running_of_idle hidle i] at hrunning
  cases hrunning

/-- The greatest version that has been reported of the ride. -/
theorem exists_newest {ms : List Message} {since : ℕ} (h : ∃ m ∈ ms, ∃ v, m.key.reports = some (r, v) ∧ since ≤ v) :
    ∃ m v, m ∈ ms ∧ m.key.reports = some (r, v) ∧ since ≤ v ∧ ∀ m' ∈ ms, ∀ v', m'.key.reports = some (r, v') → v' ≤ v := by
  obtain ⟨m, hm, v, hkey, hle⟩ := h
  -- the messages about the ride, and the version of each
  let about : Finset Message := (ms.filter fun m => m.key.reports.map Prod.fst = some r).toFinset
  let version : Message → ℕ := fun m => (m.key.reports.map Prod.snd).getD 0
  have habout : ∀ {m' : Message} {v' : ℕ}, m' ∈ ms → m'.key.reports = some (r, v') → m' ∈ about ∧ version m' = v' := by
    intro m' v' hm' hkey'
    have hride : m'.key.reports.map Prod.fst = some r := by rw [hkey', Option.map_some]
    refine ⟨List.mem_toFinset.mpr (List.mem_filter.mpr ⟨hm', decide_eq_true hride⟩), ?_⟩
    show (m'.key.reports.map Prod.snd).getD 0 = v'
    rw [hkey']
    rfl
  obtain ⟨n, hn, hgreatest⟩ := about.exists_max_image version ⟨m, (habout hm hkey).1⟩
  obtain ⟨hmem, hride⟩ := List.mem_filter.mp (List.mem_toFinset.mp hn)
  obtain ⟨⟨r', w⟩, hreports, rfl⟩ := Option.map_eq_some_iff.mp (of_decide_eq_true hride)
  refine ⟨n, w, hmem, hreports, ?_, fun m' hm' v' hkey' => ?_⟩
  · have hlast : version m ≤ version n := hgreatest m (habout hm hkey).1
    rw [(habout hm hkey).2, (habout hmem hreports).2] at hlast
    exact hle.trans hlast
  · have hlast : version m' ≤ version n := hgreatest m' (habout hm' hkey').1
    rw [(habout hm' hkey').2, (habout hmem hreports).2] at hlast
    exact hlast

/-- A message that reports a ride was backed by a hash of this version, and goes to the ride's customer. -/
theorem reports_backed {m : Message} {v : ℕ} {past : Set Store} (h : Supported past m) (hkey : m.key.reports = some (r, v)) :
    ∃ ride, Saw past r ride ∧ m.room = .customer ride.customerId ∧ ride.version = v := by
  obtain ⟨room, key⟩ := m
  cases key with
  | rideRequested r' v' =>
    cases hkey
    cases room with
    | customer c =>
      obtain ⟨ride, hsaw, rfl, hversion⟩ := h
      exact ⟨ride, hsaw, rfl, hversion⟩
    | driver d => exact h.elim
  | rideStatus r' v' =>
    cases hkey
    cases room with
    | customer c =>
      obtain ⟨ride, hsaw, rfl, hversion⟩ := h
      exact ⟨ride, hsaw, rfl, hversion⟩
    | driver d => exact h.elim
  | _ => cases hkey

theorem customers_told (env : Env) : CustomersTold env RideLocksKept (ReadsStand env) := by
  refine ⟨fun as q r hkept hstand hidle hexist => ?_⟩
  have hrun : (system env).Run Timely initial as q := timely_run hkept hstand
  obtain ⟨debts, hholds, htold⟩ := told_run hrun
  obtain ⟨since, -, hlasts, hcovered⟩ := htold r hexist
  obtain ⟨key, v, hmarked, hkey, hle⟩ : q.store.reported r since := by
    refine hcovered.resolve_right ?_
    rintro ⟨i, hi⟩
    rw [owed_idle hholds hidle i] at hi
    exact hi
  have hpublished : ∃ m ∈ q.store.published, ∃ v, m.key.reports = some (r, v) ∧ since ≤ v := by
    obtain ⟨m, hm, rfl⟩ := List.mem_map.mp (published_idle hrun hidle hmarked)
    exact ⟨m, hm, v, hkey, hle⟩
  obtain ⟨m, v, hm, hreports, hv, hnewest⟩ := exists_newest hpublished
  obtain ⟨ride, hsaw, hroom, -⟩ := reports_backed (supported_published hrun m hm) hreports
  refine ⟨m, v, hm, ?_, hreports, hnewest, fun ride hsaw hversion => hlasts ride hsaw (by omega)⟩
  rw [hroom, ((hsaw.customer hkept).2)]

/-- Driver 1 accepts the ride, and its customer is told, after a cancellation has read it. -/
def acceptedMeanwhile : List Step :=
  offered ++ .call (.cancelRide ⟨1, 2⟩ .customer (some 7) "") :: run 3 5 ++ .call (.acceptRide ⟨1, 2⟩ 1) :: run 4 19

/-- The cancellation repeats the version of the acceptance, so its message counts as published already, and the
customer still has the ride as ACCEPTED. -/
theorem cancel_untold : ¬ CustomersTold townEnv RideLocksKept fun _ => True := by
  intro h
  obtain ⟨p, hbefore, hp⟩ := town_run rideLocksKept_of_lasting acceptedMeanwhile
    (fun p => (p.store.ride ⟨1, 2⟩).status = some .accepted ∧ (p.store.ride ⟨1, 2⟩).version = 4) (by decide +kernel)
  obtain ⟨q, hrun, hq⟩ := town_run rideLocksKept_of_lasting (acceptedMeanwhile ++ run 3 23)
    (fun q => Idle q = true ∧ (q.store.ride ⟨1, 2⟩).status = some .cancelled ∧
      q.store.published.filterMap (fun m => m.key.reports) = [(⟨1, 2⟩, 1), (⟨1, 2⟩, 2), (⟨1, 2⟩, 4)]) (by decide +kernel)
  obtain ⟨haccepted, hversion⟩ := of_decide_eq_true hp
  obtain ⟨hidle, hcancelled, hreported⟩ := of_decide_eq_true hq
  have hexist : (q.store.ride ⟨1, 2⟩).status ≠ none := by
    rw [hcancelled]
    exact Option.some_ne_none _
  obtain ⟨m, v, hm, -, hkey, hnewest, htold⟩ := h.told _ q ⟨1, 2⟩ hrun trivial hidle hexist
  have hreports : (⟨1, 2⟩, v) ∈ q.store.published.filterMap fun m => m.key.reports := List.mem_filterMap.mpr ⟨m, hm, hkey⟩
  obtain ⟨m', hm', hlast⟩ : ∃ m' ∈ q.store.published, m'.key.reports = some (⟨1, 2⟩, 4) := by
    refine List.mem_filterMap.mp ?_
    rw [hreported]
    decide
  have hle : 4 ≤ v := hnewest m' hm' 4 hlast
  have hv : v = 4 := by
    rw [hreported] at hreports
    simp only [List.mem_cons, Prod.mk.injEq, true_and, List.not_mem_nil, or_false] at hreports
    omega
  have hsaw : Saw (Passed (system townEnv) initial (acceptedMeanwhile ++ run 3 23)) ⟨1, 2⟩ (p.store.ride ⟨1, 2⟩) := by
    refine ⟨p.store, ⟨acceptedMeanwhile, run 3 23, p, rfl, hbefore.mono fun _ _ _ => trivial, rfl⟩, rfl, ?_⟩
    rw [haccepted]
    exact Option.some_ne_none _
  have hsame := htold _ hsaw (hversion.trans hv.symm)
  rw [haccepted, hcancelled] at hsame
  cases hsame

end runs

end YatriGo
