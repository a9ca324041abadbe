import Mathlib.Tactic.Linarith
import YatriGo.Proofs.Searches

/-! The rounds and radii of the searches for a ride, while no driver can be reserved. -/

namespace YatriGo
open Concurrent

/-- The runs of a ride, with the searches made for it: it is requested with this pickup, and then
`dispatchUnderLock` runs under its lock, always in a store in which no driver can be reserved.
Whatever else happens in between leaves the hash of the ride alone. -/
inductive RideRun (env : Env) (r : RideId) (origin : Location) : List Search → Store → Prop
  | requested {c : CustomerId} {destination : Location} {metadata : Metadata} {now : Time} {s : Store}
      (h : s.ride r = requestPayload env c origin destination metadata now) : RideRun env r origin [] s
  | other {log : List Search} {s t : Store} (h : RideRun env r origin log s) (hride : t.ride r = s.ride r) :
      RideRun env r origin log t
  | dispatch {log : List Search} {s : Store} (i : ℕ) (h : RideRun env r origin log s)
      (hnone : ∀ d, reservable env s d = false) :
      RideRun env r origin (log ++ (dispatchUnderLock env r).visits ((system env).client i) (Cmd.searches (searchOf r)) s)
        ((system env).after i (dispatchUnderLock env r) s)

/-- The radius of search `k + 1`. -/
def radiusAt (env : Env) (k : ℕ) : ℚ := min (env.dispatch.initialSearchRadiusKm * 2 ^ k) env.dispatch.maxSearchRadiusKm

/-- Search `k + 1`: the first one and the second one both find round 1 in the hash. -/
def searchAt (env : Env) (k : ℕ) : Search := ⟨radiusAt env k, max 1 k⟩

/-- Search `k + 1` is the last one: it was started with round `k`. -/
def stopsAt (env : Env) (k : ℕ) : Prop := env.dispatch.maxRounds ≤ k ∨ env.dispatch.maxSearchRadiusKm ≤ radiusAt env k

/-- The hash of the ride after `n` searches. -/
inductive Progress (env : Env) : ℕ → RideHash → Prop
  | going {n : ℕ} {ride : RideHash} (hgo : ∀ k < n, ¬ stopsAt env k) (hbatch : ride.currentBatchId = none) (hround : ride.dispatchRound = n)
      (hradius : ride.searchRadiusKm = radiusAt env n)
      (hstatus : ride.status = if n = 0 then some .requested else some .dispatching) : Progress env n ride
  | done {n : ℕ} {ride : RideHash} (hgo : ∀ k < n, ¬ stopsAt env k) (hstop : stopsAt env n) (hstatus : ride.status = some .cancelled) :
      Progress env (n + 1) ride

variable {env : Env} {i n : ℕ} {r : RideId} {s t : Store} {log : List Search} {ride : RideHash}
  {origin : Location}

theorem radiusAt_succ (h : 0 < env.dispatch.initialSearchRadiusKm)
    (hmax : env.dispatch.initialSearchRadiusKm ≤ env.dispatch.maxSearchRadiusKm) :
    min (radiusAt env n * 2) env.dispatch.maxSearchRadiusKm = radiusAt env (n + 1) := by
  have hpos : 0 < env.dispatch.maxSearchRadiusKm := h.trans_le hmax
  unfold radiusAt
  rw [min_mul_of_nonneg _ _ (by norm_num : (0 : ℚ) ≤ 2), mul_assoc, ← pow_succ, min_assoc]
  congr 1
  exact min_eq_right (by linarith)

theorem radiusAt_pos (h : 0 < env.dispatch.initialSearchRadiusKm)
    (hmax : env.dispatch.initialSearchRadiusKm ≤ env.dispatch.maxSearchRadiusKm) : 0 < radiusAt env n := by
  unfold radiusAt
  exact lt_min (mul_pos h (by positivity)) (h.trans_le hmax)

theorem radiusAt_zero (hmax : env.dispatch.initialSearchRadiusKm ≤ env.dispatch.maxSearchRadiusKm) :
    radiusAt env 0 = env.dispatch.initialSearchRadiusKm := by
  unfold radiusAt
  rw [pow_zero, mul_one, min_eq_left hmax]

theorem not_reachable {dispatchRound : ℕ} {searchRadiusKm : ℚ} (h : ∀ d, reservable env s d = false)
    (hbatch : (s.ride r).currentBatchId = none) :
    ¬ Reachable env (givenBack r s) r dispatchRound searchRadiusKm := by
  rintro ⟨found, -, d, -, -, hd⟩
  rw [(sameChoice_givenBack hbatch).reservable, h d] at hd
  cases hd

/-- One more search. -/
theorem Progress.search (h : Progress env n (s.ride r)) (hpos : 0 < env.dispatch.initialSearchRadiusKm)
    (hmax : env.dispatch.initialSearchRadiusKm ≤ env.dispatch.maxSearchRadiusKm)
    (hallows : allowsPickup env (s.ride r).origin = true) (hnone : ∀ d, reservable env s d = false)
    (hgoing : (s.ride r).status ≠ some .cancelled) :
    (dispatchUnderLock env r).visits ((system env).client i) (Cmd.searches (searchOf r)) s = [searchAt env n] ∧
      Progress env (n + 1) (((system env).after i (dispatchUnderLock env r) s).ride r) ∧
      (((system env).after i (dispatchUnderLock env r) s).ride r).origin = (s.ride r).origin := by
  cases h with
  | done hgo hstop hstatus => exact absurd hstatus hgoing
  | going hgo hbatch hround hradius hstatus =>
    have hdispatchable : dispatchable (s.ride r) = true := by
      unfold dispatchable
      rw [hstatus]
      split_ifs <;> rfl
    have hactive : activeBatch (s.ride r) s.clock = false := activeBatch_of_none hbatch
    have hnext : nextRadiusKm env (s.ride r) = radiusAt env n := by
      unfold nextRadiusKm orNumber
      rw [hradius, if_neg (radiusAt_pos hpos hmax).ne']
    have hallows' : allowsSearch env (s.ride r) (nextRadiusKm env (s.ride r)) = true := by
      rw [hnext]
      exact searchable_radius hallows (radiusAt_pos hpos hmax).le
    obtain ⟨u, -, hu, ride', t, ht, hsearched, -⟩ :=
      @alone_dispatchUnderLock env i r s _ (searchOf r) hdispatchable hactive hallows'
    have hafter : (system env).after i (dispatchUnderLock env r) s = t := congrArg Prod.snd ht.finish
    have hfound := @not_reachable env r s (s.ride r).dispatchRound (nextRadiusKm env (s.ride r)) hnone hbatch
    have hsearching : searching env (s.ride r) s.clock = started env (s.ride r) s.clock := by
      unfold searching
      rw [started_batch.1, if_pos hbatch]
    -- the REQUESTED branch stores round 1, but the search goes on with the round that was read, 0
    have hstored : (started env (s.ride r) s.clock).dispatchRound = max 1 n := by
      unfold started
      rw [hstatus]
      rcases Nat.eq_zero_or_pos n with rfl | hn
      · rfl
      · rw [if_neg hn.ne', if_neg (by decide), hround]
        exact (max_eq_right hn).symm
    rw [hu] at hsearched
    rw [hafter, ht.visits, searchOf, hu, hnext, hsearching, hstored]
    refine ⟨rfl, ?_, hsearched.origin.trans origin_searching⟩
    rw [hnext, hround] at hsearched hfound
    generalize t.ride r = hash at hsearched
    cases hsearched with
    | sent hreachable b ds hds expiresAt => exact absurd hreachable hfound
    | exhausted hunreachable hstop => exact .done hgo hstop hset_exhaustFields.1
    | expanded hunreachable hgo' =>
      refine .going (fun k hk => ?_) hset_expandFields.2.2 ?_ ?_ ?_
      · rcases Nat.lt_succ_iff_lt_or_eq.mp hk with hk | rfl
        · exact hgo k hk
        · exact hgo'
      · simp only [expandFields, hset_cons, hset_nil, RideHash.setField]
      · rw [← radiusAt_succ hpos hmax]
        simp only [expandFields, hset_cons, hset_nil, RideHash.setField]
      · rw [hset_expandFields.1, status_searching hdispatchable, if_neg (Nat.succ_ne_zero n)]

theorem Progress.stays (hcancelled : (s.ride r).status = some .cancelled) :
    (dispatchUnderLock env r).visits ((system env).client i) (Cmd.searches (searchOf r)) s = [] ∧
      ((system env).after i (dispatchUnderLock env r) s).ride r = s.ride r := by
  have hidle : dispatchable (s.ride r) = false := by
    unfold dispatchable
    rw [hcancelled]
    rfl
  obtain ⟨answer, t, ht, hhash, -⟩ := @alone_dispatchUnderLock_idle env i r s _ (searchOf r) (.inl hidle)
  have hafter : (system env).after i (dispatchUnderLock env r) s = t := congrArg Prod.snd ht.finish
  rw [hafter, hhash]
  refine ⟨ht.visits, started_of_dispatching ?_⟩
  rw [hcancelled]
  decide

theorem progress_requested {c : CustomerId} {destination : Location} {metadata : Metadata} {now : Time}
    (hmax : env.dispatch.initialSearchRadiusKm ≤ env.dispatch.maxSearchRadiusKm) :
    Progress env 0 (requestPayload env c origin destination metadata now) :=
  .going (fun k hk => absurd hk (Nat.not_lt_zero k)) rfl rfl (radiusAt_zero hmax).symm rfl

/-- The searches of a run follow the schedule, and the ride is over with the last one. -/
theorem RideRun.progress (h : RideRun env r origin log s) (hpos : 0 < env.dispatch.initialSearchRadiusKm)
    (hmax : env.dispatch.initialSearchRadiusKm ≤ env.dispatch.maxSearchRadiusKm) (hallows : allowsPickup env origin = true) :
    ∃ n, log = (List.range n).map (searchAt env) ∧ Progress env n (s.ride r) ∧ (s.ride r).origin = origin := by
  induction h with
  | requested hpayload =>
    refine ⟨0, rfl, ?_⟩
    rw [hpayload]
    exact ⟨progress_requested hmax, rfl⟩
  | other h hride ih =>
    obtain ⟨n, hlog, hprogress⟩ := ih
    refine ⟨n, hlog, ?_⟩
    rw [hride]
    exact hprogress
  | @dispatch log s i h hnone ih =>
    obtain ⟨n, hlog, hprogress, horigin⟩ := ih
    by_cases hcancelled : (s.ride r).status = some .cancelled
    · obtain ⟨hvisits, hsame⟩ := @Progress.stays env i r s hcancelled
      refine ⟨n, ?_, ?_⟩
      · rw [hvisits, List.append_nil, hlog]
      · rw [hsame]
        exact ⟨hprogress, horigin⟩
    · rw [← horigin] at hallows
      obtain ⟨hvisits, hafter, hsame⟩ := @Progress.search env i n r s hprogress hpos hmax hallows hnone hcancelled
      refine ⟨n + 1, ?_, hafter, hsame.trans horigin⟩
      rw [hvisits, List.range_succ, List.map_append, ← hlog]
      rfl

/-- By the books, search `k` is the last one. -/
def lastSearch (env : Env) (k : ℕ) : Prop :=
  env.dispatch.maxRounds ≤ k ∨ env.dispatch.maxSearchRadiusKm ≤
    min (env.dispatch.initialSearchRadiusKm * 2 ^ (k - 1)) env.dispatch.maxSearchRadiusKm

/-- The books of rounds and radii: search `k` is made in round `k`, the radius doubles up to the
greatest one, and the ride is cancelled with the first last search. -/
structure Bookkeeping (env : Env) (log : List Search) (ride : RideHash) : Prop where
  searches : ∀ k, 1 ≤ k → k ≤ log.length → log[k - 1]? = some
    ⟨min (env.dispatch.initialSearchRadiusKm * 2 ^ (k - 1)) env.dispatch.maxSearchRadiusKm, k⟩
  first : ∀ k, 1 ≤ k → k < log.length → ¬ lastSearch env k
  cancelled : ride.status = some .cancelled ↔ ∃ k, 1 ≤ k ∧ k ≤ log.length ∧ lastSearch env k
  few : log.length ≤ env.dispatch.maxRounds

/-- No driver is known. -/
def emptyTown (ride : RideId → RideHash) : Store := { ride }

theorem not_reservable_emptyTown {f : RideId → RideHash} (d : DriverId) : reservable env (emptyTown f) d = false := rfl

/-- Unless the first search stops already, there is a second one, with round 1 in the hash. -/
theorem exists_second_search (hpos : 0 < env.dispatch.initialSearchRadiusKm)
    (hmax : env.dispatch.initialSearchRadiusKm ≤ env.dispatch.maxSearchRadiusKm) (hallows : allowsPickup env origin = true)
    (hgo : ¬ stopsAt env 0) (r : RideId) : ∃ s, RideRun env r origin [searchAt env 0, searchAt env 1] s := by
  let payload := requestPayload env 0 origin ⟨0, 0⟩ ⟨none, []⟩ 0
  let s := emptyTown fun _ => payload
  have hrequested : RideRun env r origin [] s := .requested rfl
  have hprogress : Progress env 0 (s.ride r) := progress_requested hmax
  obtain ⟨hvisits, hafter, horigin⟩ := @Progress.search env 0 0 r s hprogress hpos hmax hallows not_reservable_emptyTown (by
    show some RideStatus.requested ≠ _
    decide)
  have hfirst := hrequested.dispatch 0 not_reservable_emptyTown
  rw [hvisits, List.nil_append] at hfirst
  generalize (system env).after 0 (dispatchUnderLock env r) s = t at hfirst hafter horigin
  have hdispatching : (t.ride r).status ≠ some .cancelled := by
    cases hafter with
    | done hgo' hstop hstatus => exact absurd hstop hgo
    | going hgo' hbatch hround hradius hstatus =>
      rw [hstatus]
      decide
  -- everything but the hash may have changed meanwhile
  have hquiet : RideRun env r origin [searchAt env 0] (emptyTown t.ride) := hfirst.other rfl
  have hallows' : allowsPickup env (t.ride r).origin = true := horigin.symm ▸ hallows
  have hsecond := (@Progress.search env 0 1 r (emptyTown t.ride) hafter hpos hmax hallows' not_reservable_emptyTown
    hdispatching).1
  have hrun := hquiet.dispatch 0 not_reservable_emptyTown
  rw [hsecond] at hrun
  exact ⟨(system env).after 0 (dispatchUnderLock env r) (emptyTown t.ride), hrun⟩

/-- A search that Redis refuses leaves the ride DISPATCHING in round 1, and so does the next one. -/
theorem exists_refused_searches (hpos : 0 < env.dispatch.initialSearchRadiusKm)
    (hrefused : allowsPickup env origin = false) (r : RideId) :
    ∃ s, RideRun env r origin
      [⟨env.dispatch.initialSearchRadiusKm, 1⟩, ⟨env.dispatch.initialSearchRadiusKm, 1⟩] s := by
  let payload := requestPayload env 0 origin ⟨0, 0⟩ ⟨none, []⟩ 0
  let s := emptyTown fun _ => payload
  have hrequested : RideRun env r origin [] s := .requested rfl
  have hradius : ∀ ride : RideHash, ride.searchRadiusKm = env.dispatch.initialSearchRadiusKm →
      nextRadiusKm env ride = env.dispatch.initialSearchRadiusKm := by
    intro ride hride
    unfold nextRadiusKm orNumber
    rw [hride, if_neg hpos.ne']
  have hnext : nextRadiusKm env (s.ride r) = env.dispatch.initialSearchRadiusKm := hradius _ rfl
  have hrefused' : allowsSearch env (s.ride r) (nextRadiusKm env (s.ride r)) = false := by
    rw [hnext]
    exact hrefused
  obtain ⟨t, -, hhash, -, ht⟩ := @alone_dispatchUnderLock_refused env 0 r s _ (searchOf r) (decide_eq_true (.inl rfl)) rfl hrefused'
  have hstarted : t.ride r = payload.hset (startFields env payload 0) := hhash
  have hvisits := ht.visits
  have hafter : (system env).after 0 (dispatchUnderLock env r) s = t := congrArg Prod.snd ht.finish
  have hfirst := hrequested.dispatch 0 not_reservable_emptyTown
  rw [hvisits, hafter, searchOf, hnext, hstarted] at hfirst
  have hquiet : RideRun env r origin [⟨env.dispatch.initialSearchRadiusKm, 1⟩] (emptyTown t.ride) := hfirst.other rfl
  -- the second search finds the hash that the first one left
  let u := emptyTown t.ride
  have hride : u.ride r = payload.hset (startFields env payload 0) := hstarted
  have hstatus : (u.ride r).status = some .dispatching := by rw [hride]; rfl
  have hnext' : nextRadiusKm env (u.ride r) = env.dispatch.initialSearchRadiusKm := hradius _ (by rw [hride]; rfl)
  have hrefused'' : allowsSearch env (u.ride r) (nextRadiusKm env (u.ride r)) = false := by
    rw [hnext', hride]
    exact hrefused
  have hactive : activeBatch (u.ride r) u.clock = false := by rw [hride]; rfl
  obtain ⟨v, hv, -, -, hv'⟩ := @alone_dispatchUnderLock_refused env 0 r u _ (searchOf r)
    (dispatchable_of_dispatching hstatus) hactive hrefused''
  obtain rfl : v = u := hv hstatus (by rw [hride]; rfl)
  have hsecond := hquiet.dispatch 0 not_reservable_emptyTown
  rw [hv'.visits, searchOf, hnext', hride] at hsecond
  exact ⟨_, hsecond⟩

/-- The books are kept in every run of a pickup exactly when Redis takes the searches around it, and the first one has
the greatest radius already. -/
theorem bookkeeping_iff (hpos : 0 < env.dispatch.initialSearchRadiusKm)
    (hmax : env.dispatch.initialSearchRadiusKm ≤ env.dispatch.maxSearchRadiusKm)
    (hrounds : 1 ≤ env.dispatch.maxRounds) :
    (∀ r log s, RideRun env r origin log s → Bookkeeping env log (s.ride r)) ↔
      env.dispatch.initialSearchRadiusKm = env.dispatch.maxSearchRadiusKm ∧ allowsPickup env origin = true := by
  constructor
  · intro hbooks
    cases hallows : allowsPickup env origin with
    | false =>
      obtain ⟨s, hrun⟩ := exists_refused_searches hpos hallows ⟨0, 0⟩
      have hsecond := (hbooks _ _ s hrun).searches 2 (by decide) le_rfl
      have hround : 1 = 2 := congrArg Search.round (Option.some.inj hsecond)
      exact absurd hround (by decide)
    | true =>
      refine ⟨?_, rfl⟩
      by_contra hne
      -- were the radii different, the second search would be made in round 1 as well
      have hgo : ¬ stopsAt env 0 := by
        rintro (hzero | hradius)
        · exact absurd (hrounds.trans hzero) (by decide)
        · rw [radiusAt_zero hmax] at hradius
          exact hne (le_antisymm hmax hradius)
      obtain ⟨s, hrun⟩ := exists_second_search hpos hmax hallows hgo ⟨0, 0⟩
      have hsecond := (hbooks _ _ s hrun).searches 2 (by decide) le_rfl
      have hround : 1 = 2 := congrArg Search.round (Option.some.inj hsecond)
      exact absurd hround (by decide)
  · rintro ⟨heq, hallows⟩ r log s hrun
    have hradius : radiusAt env 0 = env.dispatch.maxSearchRadiusKm := by rw [radiusAt_zero hmax, heq]
    have hstop : stopsAt env 0 := .inr hradius.ge
    have hlast : lastSearch env 1 := by
      right
      show _ ≤ radiusAt env 0
      exact hradius.ge
    obtain ⟨n, hlog, hprogress, -⟩ := hrun.progress hpos hmax hallows
    cases hprogress with
    | going hgo hbatch hround hsearchRadius hstatus =>
      have hzero : n = 0 := by
        by_contra hne
        exact hgo 0 (Nat.pos_of_ne_zero hne) hstop
      subst hzero
      subst hlog
      rw [if_pos rfl] at hstatus
      refine ⟨fun k hk hle => absurd (hk.trans hle) (by simp), fun k hk hlt => absurd hlt (by simp), ?_, Nat.zero_le _⟩
      rw [hstatus]
      constructor
      · exact fun h => absurd h (by decide)
      · rintro ⟨k, hk, hle, -⟩
        exact absurd (hk.trans hle) (by simp)
    | @done m ride hgo hstop' hstatus =>
      have hzero : m = 0 := by
        by_contra hne
        exact hgo 0 (Nat.pos_of_ne_zero hne) hstop
      subst hzero
      subst hlog
      refine ⟨fun k hk hle => ?_, fun k hk hlt => ?_, ?_, hrounds⟩
      · obtain rfl : k = 1 := le_antisymm hle hk
        rfl
      · exact absurd hk (Nat.not_le.mpr hlt)
      · exact iff_of_true hstatus ⟨1, le_rfl, le_rfl, hlast⟩

/-- The default configuration with no room to widen the search. -/
def narrowEnv : Env := { townEnv with dispatch := { townEnv.dispatch with initialSearchRadiusKm := 8 } }

theorem bookkeeping_iff_narrow :
    (∀ r log s, RideRun narrowEnv r ⟨0, 0⟩ log s → Bookkeeping narrowEnv log (s.ride r)) ↔
      narrowEnv.dispatch.initialSearchRadiusKm = narrowEnv.dispatch.maxSearchRadiusKm ∧ allowsPickup narrowEnv ⟨0, 0⟩ = true :=
  bookkeeping_iff (by decide) (by decide) (by decide)

/-- With the defaults, the second search is made in round 1, like the first one. -/
theorem second_search_in_round_one :
    ∃ s, RideRun townEnv ⟨0, 0⟩ ⟨0, 0⟩ [⟨2, 1⟩, ⟨4, 1⟩] s ∧ ¬ Bookkeeping townEnv [⟨2, 1⟩, ⟨4, 1⟩] (s.ride ⟨0, 0⟩) := by
  have hgo : ¬ stopsAt townEnv 0 := by
    unfold stopsAt
    decide +kernel
  have hsearches : [searchAt townEnv 0, searchAt townEnv 1] = [⟨2, 1⟩, ⟨4, 1⟩] := by decide +kernel
  obtain ⟨s, hrun⟩ := @exists_second_search townEnv ⟨0, 0⟩ (by decide) (by decide) (by decide +kernel) hgo ⟨0, 0⟩
  rw [hsearches] at hrun
  refine ⟨s, hrun, fun hbooks => ?_⟩
  have hsecond := hbooks.searches 2 (by decide) le_rfl
  have hround : 1 = 2 := congrArg Search.round (Option.some.inj hsecond)
  exact absurd hround (by decide)

end YatriGo
