import YatriGo.Concurrent.History
import YatriGo.Concurrent.Marks
import YatriGo.Proofs.Acceptance
import YatriGo.Proofs.LastReads

/-! What an operation has read of a ride under the ride's lock stands until an acceptance commits on the ride. Where
no acceptance comes between the read and the update, the update counts on from the version that is stored. -/

namespace YatriGo
open Concurrent

def Write.closes (i : ℕ) : Write → Option (Mark ℕ RideId)
  | .hsetRide r _ => some (.closes i r)
  | _ => none

/-- A read opens the ride, an update of its hash closes it, and an acceptance that commits disturbs it. -/
def Cmd.rideMarks (i : ℕ) (s : Store) : ⦃β : Type⦄ → Cmd β → List (Mark ℕ RideId)
  | _, .hgetallRide r => [.opens i r]
  | _, .multi ws => ws.filterMap (Write.closes i)
  | _, .evalAcceptRide r d acceptedAt reservation =>
    if 0 < (acceptRideScript r d acceptedAt reservation s).1 then [.disturbs r] else []
  | _, _ => []

def rideMarks (p : State) : Step → List (Mark ℕ RideId)
  | .step i => (peek p i fun _ c => some (c.rideMarks i p.store)).getD []
  | _ => []

/-- No acceptance commits on a ride between an operation's last read of the ride and its update of the hash. -/
def ReadsStand (env : Env) (as : List Step) : Prop := Undisturbed ((system env).observed rideMarks as initial)

def Cmd.reads (r : RideId) : ⦃β : Type⦄ → Cmd β → Prop
  | _, .hgetallRide r' => r' = r
  | _, _ => False

/-- What thread `i` has read of a ride whose lock it holds is what the ride has, or the ride was accepted since. -/
def Standing (ms : List (Mark ℕ RideId)) (s : Store) (i : ℕ) (seen : ReadVersions) : Prop :=
  ∀ r v, seen r = some v → Holds i (.ride r) s → (s.ride r).status ≠ none ∧ ((s.ride r).version = v ∨ Disturbed ms i r)

/-- Ride locks are kept, and an update of a ride's hash counts on from the version that is stored. -/
def Timely (p : State) (a : Step) : Prop :=
  RideLocksKept p a ∧ ∀ ws r fields, Performs p a ws → .hsetRide r fields ∈ ws → CountsUp (p.store.ride r).version fields

variable {env : Env} {p q : State} {a : Step} {as : List Step} {i j : ℕ} {op : Op} {β : Type} {c : Cmd β} {k : β → App Unit}
  {r : RideId} {v : ℕ} {s : Store} {seen : ReadVersions} {ms : List (Mark ℕ RideId)}

section marks

theorem rideMarks_step (hi : p.threads[i]? = some (op, .cmd c k)) : rideMarks p (.step i) = c.rideMarks i p.store := by
  simp only [rideMarks, peek_eq hi, Option.getD_some]

theorem mem_closes {ws : List Write} {m : Mark ℕ RideId} (hm : m ∈ ws.filterMap (Write.closes i)) : ∃ r, m = .closes i r := by
  obtain ⟨w, -, hw⟩ := List.mem_filterMap.mp hm
  cases w with
  | hsetRide r fields => exact ⟨r, (Option.some.inj hw).symm⟩
  | _ => cases hw

/-- Only a read of thread `i` opens a ride for it. -/
theorem opens_mem_rideMarks (h : .opens j r ∈ c.rideMarks i s) : j = i ∧ c.reads r := by
  cases c with
  | hgetallRide r' =>
    obtain ⟨rfl, rfl⟩ := Mark.opens.inj (List.mem_singleton.mp h)
    exact ⟨rfl, rfl⟩
  | multi ws =>
    obtain ⟨r', hr'⟩ := mem_closes h
    cases hr'
  | evalAcceptRide r' d acceptedAt reservation =>
    simp only [Cmd.rideMarks] at h
    split_ifs at h
    · cases List.mem_singleton.mp h
    · cases h
  | _ => cases h

theorem step_of_opens (h : .opens i r ∈ rideMarks p a) : a = .step i := by
  cases a with
  | step j =>
    obtain ⟨ms, hpeek, hmem⟩ : ∃ ms, (peek p j fun _ c => some (c.rideMarks j p.store)) = some ms ∧ .opens i r ∈ ms := by
      cases hpeek : peek p j fun _ c => some (c.rideMarks j p.store) with
      | none =>
        simp only [rideMarks, hpeek, Option.getD_none] at h
        cases h
      | some ms =>
        simp only [rideMarks, hpeek, Option.getD_some] at h
        exact ⟨ms, rfl, h⟩
    obtain ⟨op, β, c, k, hi, hc⟩ := peek_eq_some hpeek
    cases hc
    obtain ⟨rfl, -⟩ := opens_mem_rideMarks hmem
    rfl
  | call op => cases h
  | env e => cases h

theorem Accepts.disturbs {d : DriverId} {version : ℤ} (h : Accepts p a r d version) (hversion : 0 < version) :
    .disturbs r ∈ rideMarks p a := by
  obtain ⟨i, op, acceptedAt, reservation, k, rfl, hi, rfl⟩ := h.command
  rw [rideMarks_step hi]
  simp only [Cmd.rideMarks]
  rw [if_pos hversion]
  exact List.mem_singleton_self _

end marks

section steps

theorem Performs.holds {ws : List Write} {fields : List RideField} (hp : (rides env False).Holds p) (h : Performs p a ws)
    (hmem : .hsetRide r fields ∈ ws) : ∃ j, a = .step j ∧ Holds j (.ride r) p.store := by
  obtain ⟨j, op, k, rfl, hj⟩ := h.command
  have hguar : RideGuar env False j (.multi ws) p.store := hp.guar hj trivial
  exact ⟨j, rfl, underLock_update hguar r fields hmem⟩

/-- The version of a ride stays, or the step is an acceptance or an update of the ride. -/
theorem version_kept (hp : (rides env False).Holds p) (hnext : (system env).next p a = some q)
    (hexist : (p.store.ride r).status ≠ none) : (q.store.ride r).status ≠ none ∧
      ((q.store.ride r).version = (p.store.ride r).version ∨ .disturbs r ∈ rideMarks p a ∨
        ∃ ws fields, Performs p a ws ∧ .hsetRide r fields ∈ ws) := by
  cases ride_step hp hnext r with
  | same heq =>
    rw [heq]
    exact ⟨hexist, .inl rfl⟩
  | create absent c origin destination metadata now heq => exact absurd absent hexist
  | accept d acceptedAt accepts hst hd heq =>
    rw [heq]
    exact ⟨Option.some_ne_none _, .inr (.inl (accepts.disturbs (by omega)))⟩
  | write read fields ws performs mem since write heq =>
    rw [heq]
    exact ⟨hset_status_ne_none hexist, .inr (.inr ⟨ws, fields, performs, mem⟩)⟩

theorem Standing.kept (hp : (rides env False).Holds p) (hnext : (system env).next p a = some q)
    (h : Standing ms p.store i seen) (hv : seen r = some v) (hheld : Holds i (.ride r) p.store)
    (hopens : .opens i r ∉ rideMarks p a) (hmine : ∀ ws fields, a = .step i → Performs p a ws → .hsetRide r fields ∉ ws) :
    (q.store.ride r).status ≠ none ∧ ((q.store.ride r).version = v ∨ Disturbed (ms ++ rideMarks p a) i r) := by
  obtain ⟨hexist, hversion⟩ := h r v hv hheld
  obtain ⟨hexist', hsame | hdisturbs | ⟨ws, fields, hws, hmem⟩⟩ := version_kept hp hnext hexist
  · exact ⟨hexist', hversion.imp hsame.trans fun hd => hd.append hopens⟩
  · exact ⟨hexist', .inr (disturbed_of_mem hdisturbs hopens)⟩
  · -- only the thread that holds the lock updates the ride
    obtain ⟨j, rfl, hj⟩ := hws.holds hp hmem
    obtain rfl := hj.unique hheld
    exact absurd hmem (hmine ws fields rfl hws)

theorem Standing.others (hp : (rides env False).Holds p) (hnext : (system env).next p a = some q) (hok : RideLocksKept p a)
    (hlt : i < p.threads.length) (hother : a ≠ .step i) (h : Standing ms p.store i seen) :
    Standing (ms ++ rideMarks p a) q.store i seen := by
  intro r v hv hheld
  have hkeeps : ∀ k, keeps False k → a ≠ .env (.expireLease k) := by
    rintro k hk rfl
    exact RideLocksKept.keeps hk hok
  have hrely : RideRely False i p.store q.store := hp.rely rides_sound (rides_ok hkeeps) hnext hlt hother
  obtain ⟨lease, hlease, hown⟩ := hheld
  have hbefore : Holds i (.ride r) p.store := ⟨lease, (hrely.leases (.ride r) lease trivial hown).mpr hlease, hown⟩
  exact h.kept hp hnext hv hbefore (fun hmem => hother (step_of_opens hmem)) fun ws fields ha => absurd ha hother

/-- A release takes no lock. -/
theorem holds_of_release {key : LockKey} {token : Token} {k : LockKey}
    (h : Holds i k (exec env j (.evalReleaseLock key token) s).2) : Holds i k s := by
  obtain ⟨lease, hlease, hown⟩ := h
  refine ⟨lease, ?_, hown⟩
  rcases eq_or_ne k key with rfl | hne
  · simp only [exec, releaseLockScript] at hlease
    split at hlease
    · split at hlease
      · simp only [put_self] at hlease
        cases hlease
      · exact hlease
    · exact hlease
  · rwa [exec, releaseLockScript_locks_of_ne hne] at hlease

theorem Standing.own (hp : (rides env False).Holds p) (hnext : (system env).next p (.step i) = some q)
    (hi : p.threads[i]? = some (op, .cmd c k)) (h : Standing ms p.store i seen) :
    Standing (ms ++ rideMarks p (.step i)) q.store i (c.seenAfter (exec env i c p.store).1 seen) := by
  obtain ⟨hne, -⟩ | ⟨-, β', c', k', hc, hstore, -⟩ := System.thread_next hnext hi
  · exact absurd rfl hne
  cases hc
  have hstore : q.store = (exec env i c p.store).2 := hstore
  intro r v hv hheld
  -- a command that does not read the ride, take its lock or update it, leaves what was read as it is
  have hkept : c.seenAfter (exec env i c p.store).1 seen r = seen r → Holds i (.ride r) p.store → ¬ c.reads r →
      (∀ ws fields, c.writes = some ws → .hsetRide r fields ∉ ws) →
      (q.store.ride r).status ≠ none ∧
        ((q.store.ride r).version = v ∨ Disturbed (ms ++ rideMarks p (.step i)) i r) := by
    intro hsame hbefore hreads hwrites
    refine h.kept hp hnext (hsame.symm.trans hv) hbefore (fun hmem => ?_) fun ws fields _ hw => ?_
    · rw [rideMarks_step hi] at hmem
      exact hreads (opens_mem_rideMarks hmem).2
    · obtain ⟨j, hj, hpeek⟩ := hw
      cases hj
      rw [peek_eq hi] at hpeek
      exact hwrites ws fields hpeek
  have hlocks : c.lockOf ≠ some (.ride r) → Holds i (.ride r) p.store := by
    intro hlock
    obtain ⟨lease, hlease, hown⟩ := hheld
    refine ⟨lease, ?_, hown⟩
    rwa [hstore, @exec_locks env i p.store _ c (.ride r) trivial hlock] at hlease
  cases c with
  | hgetallRide r' =>
    rcases eq_or_ne r r' with rfl | hne
    · have hread : (if (p.store.ride r).status = none then none else some (p.store.ride r).version) = some v :=
        put_self.symm.trans hv
      rw [hstore]
      split_ifs at hread with hexist
      cases hread
      exact ⟨hexist, .inl rfl⟩
    · exact hkept (put_of_ne hne) (hlocks (by rintro ⟨⟩)) (fun h => hne h.symm) fun ws fields hw => by cases hw
  | setNX key token ttl =>
    by_cases hkey : key = .ride r
    · subst hkey
      have hnone : none = some v := put_self.symm.trans hv
      cases hnone
    · refine hkept ?_ (hlocks fun heq => hkey (Option.some.inj heq)) id fun ws fields hw => by cases hw
      cases key with
      | ride r' => exact put_of_ne fun heq => hkey (congrArg LockKey.ride heq.symm)
      | _ => rfl
  | multi ws =>
    have hseen : (if ws.any (Write.updates r) then none else seen r) = some v := hv
    split_ifs at hseen with hupdates
    refine hkept (if_neg hupdates) (hlocks (by rintro ⟨⟩)) id fun ws' fields hw hmem => hupdates ?_
    cases hw
    exact List.any_eq_true.mpr ⟨_, hmem, decide_eq_true rfl⟩
  | evalReleaseLock key token =>
    rw [hstore] at hheld
    exact hkept rfl (holds_of_release hheld) id fun ws fields hw => by cases hw
  | _ => exact hkept rfl (hlocks (by rintro ⟨⟩)) id fun ws fields hw => by cases hw

end steps

section runs

theorem standing_run (hrun : (system env).Run RideLocksKept initial as q) :
    (lastReads env).Holds (Standing ((system env).observed rideMarks as initial) q.store) q := by
  refine hrun.last_induction (I := fun as q => (lastReads env).Holds (Standing ((system env).observed rideMarks as initial)
    q.store) q) Tracker.holds_empty fun bs a p q hbs hstanding hok hnext => ?_
  have hp : (rides env False).Holds p := rides_run (fun _ _ hk => RideLocksKept.keeps hk) hbs rides_initial
  rw [hbs.observed_append, System.observed_single hnext]
  refine hstanding.next (g := fun _ => none) (fun op => counts_code op _) hnext (fun i r v hv => by cases hv)
    (fun i seen hlt hother h => h.others hp hnext hok hlt hother) fun i op β c k seen hstep hi h _ => ?_
  subst hstep
  exact h.own hp hnext hi

/-- Where the reads stand, an update finds the version stored that it counts on from. -/
theorem timely_step (hrun : (system env).Run RideLocksKept initial as p) (hok : RideLocksKept p a)
    (hnext : (system env).next p a = some q) (hstand : ReadsStand env (as ++ [a])) : Timely p a := by
  refine ⟨hok, fun ws r fields hws hmem => ?_⟩
  have hp : (rides env False).Holds p := rides_run (fun _ _ hk => RideLocksKept.keeps hk) hrun rides_initial
  obtain ⟨i, rfl, hheld⟩ := hws.holds hp hmem
  obtain ⟨j, op, k, hj, hi⟩ := hws.command
  cases hj
  obtain ⟨seen, hstanding, hneeds⟩ := (standing_run hrun).needs hi
  obtain ⟨v, hv, hcounts⟩ := hneeds _ hmem
  rw [ReadsStand, hrun.observed_append, System.observed_single hnext, rideMarks_step hi] at hstand
  have hcloses : .closes i r ∈ ws.filterMap (Write.closes i) := List.mem_filterMap.mpr ⟨_, hmem, rfl⟩
  have hopens : .opens i r ∉ ws.filterMap (Write.closes i) := fun h => by
    obtain ⟨r', hr'⟩ := mem_closes h
    cases hr'
  obtain ⟨-, hversion | hdisturbed⟩ := hstanding r v hv hheld
  · rw [hversion]
    exact hcounts
  · exact absurd hdisturbed (hstand.closes hcloses hopens)

theorem timely_run (hrun : (system env).Run RideLocksKept initial as q) (hstand : ReadsStand env as) :
    (system env).Run Timely initial as q := by
  revert hstand
  refine hrun.last_induction (I := fun as q => ReadsStand env as → (system env).Run Timely initial as q)
    (fun _ => .nil _) fun bs a p q hbs ih hok hnext hstand => ?_
  have hbefore : ReadsStand env bs := by
    rw [ReadsStand, hbs.observed_append] at hstand
    exact hstand.left
  exact (ih hbefore).append (.single (timely_step hbs hok hnext hstand) hnext)

end runs

end YatriGo
