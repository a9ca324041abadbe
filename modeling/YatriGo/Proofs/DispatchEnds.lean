import Mathlib.Data.Finset.Card
import YatriGo.Proofs.RideSteps
import YatriGo.Proofs.Rejections

/-! Does dispatch end? Rounds are counted only when no driver can be reserved, and from the second round on a driver
that did not answer is offered the ride again. So the searches are few when every batch has a driver that was not
notified before, and without end when a driver just keeps silent. -/

namespace YatriGo
open Concurrent

/-- The calls that dispatch a ride. -/
inductive DispatchCall
  | start
  | timeout (batchId : BatchId)
  | rejection (driverId : DriverId) (reason : Response)

def DispatchCall.section (env : Env) (r : RideId) : DispatchCall → App (Option RideHash)
  | .start => dispatchUnderLock env r
  | .timeout batchId => batchTimeoutUnderLock env r batchId
  | .rejection driverId reason => rejectionUnderLock env r driverId reason

def DispatchCall.code (env : Env) (r : RideId) : DispatchCall → App RideHash
  | .start => startDispatch env r
  | .timeout batchId => handleBatchTimeout env r batchId
  | .rejection driverId reason => handleDriverRejection env r driverId reason

/-- The searches of a step, each with its radius and the store it is made in. -/
def DispatchCall.searches (env : Env) (r : RideId) (i : ℕ) (s : Store) (c : DispatchCall) : List (ℚ × Store) :=
  (c.code env r).visits ((system env).client i) (Cmd.searches Prod.mk) s

def DispatchCall.after (env : Env) (r : RideId) (i : ℕ) (s : Store) (c : DispatchCall) : Store :=
  (system env).after i (c.code env r) s

/-- The searches of a step that Redis took and after which the ride is still DISPATCHING: a batch was sent, or the
search expanded. -/
def DispatchCall.continued (env : Env) (r : RideId) (i : ℕ) (s : Store) (c : DispatchCall) : ℕ :=
  if ((c.after env r i s).ride r).status = some .dispatching then
    ((c.searches env r i s).filter fun search => allowsSearch env (search.2.ride r) search.1).length
  else 0

/-- The geo index lists drivers of `D`, each of them once. -/
structure Town (D : Finset DriverId) (s : Store) : Prop where
  nodup : (s.availableDriversGeo.map Prod.fst).Nodup
  known : ∀ p ∈ s.availableDriversGeo, p.1 ∈ D

/-- The searches find the drivers of `D`, and are as `ok` says. -/
def DispatchCall.Fits (env : Env) (r : RideId) (D : Finset DriverId) (ok : ℚ → Store → Prop) (i : ℕ) (s : Store)
    (c : DispatchCall) : Prop := ∀ search ∈ c.searches env r i s, Town D search.2 ∧ ok search.1 search.2

/-- The runs of a ride that nobody accepts, with the number of searches that went on: it is requested, and then its
dispatch steps run one after the other. Whatever else happens, drivers going online, offline or to other rides, leaves
the hash of the ride and the set of those notified alone. -/
inductive DispatchRun (env : Env) (r : RideId) (D : Finset DriverId) (ok : ℚ → Store → Prop) : ℕ → Store → Prop
  | requested {c : CustomerId} {origin destination : Location} {metadata : Metadata} {now : Time} {s : Store}
      (h : s.ride r = requestPayload env c origin destination metadata now) : DispatchRun env r D ok 0 s
  | meanwhile {n : ℕ} {s t : Store} (h : DispatchRun env r D ok n s) (hride : t.ride r = s.ride r)
      (hnotified : t.rideNotifiedDrivers r = s.rideNotifiedDrivers r) : DispatchRun env r D ok n t
  | step {n : ℕ} {s : Store} (h : DispatchRun env r D ok n s) (i : ℕ) (c : DispatchCall) (hfits : c.Fits env r D ok i s) :
      DispatchRun env r D ok (n + c.continued env r i s) (c.after env r i s)

/-- No driver was found in the end. -/
def Exhausted (ride : RideHash) : Prop :=
  ride.status = some .cancelled ∧ ∃ atTime, ride.cancellation = some ⟨.system, none, "NO_DRIVERS_AVAILABLE", atTime⟩

/-- What a search does to the ride. -/
inductive SearchEnd (ride ride' : RideHash) : Prop
  | sent (dispatching : ride'.status = some .dispatching) (batch : ride'.currentBatchId ≠ none)
      (drivers : ride'.currentBatchDrivers ≠ [])
  | expanded (dispatching : ride'.status = some .dispatching) (batch : ride'.currentBatchId = none)
      (round : ride'.dispatchRound = ride.dispatchRound + 1)
  | exhausted (ended : Exhausted ride')

/-- At most `bound` searches go on, and one that does not cancels the ride. -/
structure EndsWithin (env : Env) (r : RideId) (D : Finset DriverId) (ok : ℚ → Store → Prop) (bound : ℕ) : Prop where
  few : ∀ n s, DispatchRun env r D ok n s → n ≤ bound
  searched : ∀ (n : ℕ) (s : Store) (i : ℕ) (c : DispatchCall), DispatchRun env r D ok n s → c.Fits env r D ok i s →
    c.searches env r i s ≠ [] → SearchEnd (s.ride r) ((c.after env r i s).ride r)
  last : ∀ (s : Store) (i : ℕ) (c : DispatchCall), DispatchRun env r D ok bound s → c.Fits env r D ok i s →
    c.searches env r i s ≠ [] → Exhausted ((c.after env r i s).ride r)

/-- Whatever the drivers do, short of accepting, dispatch ends within a bound that is computed from the rounds, the radii
and the number of drivers. -/
def DispatchEnds : Prop := ∃ bound : ℕ → ℚ → ℚ → ℕ → ℕ,
  ∀ (env : Env) (r : RideId) (D : Finset DriverId), 1 ≤ env.dispatch.batchSize → EndsWithin env r D (fun _ _ => True)
    (bound env.dispatch.maxRounds env.dispatch.initialSearchRadiusKm env.dispatch.maxSearchRadiusKm D.card)

/-- Redis takes the search, and it finds nobody to offer the ride to, or somebody who has not been notified of it. -/
def Fresh (env : Env) (r : RideId) (searchRadiusKm : ℚ) (s : Store) : Prop :=
  allowsSearch env (s.ride r) searchRadiusKm = true ∧
    (offer env r (s.ride r).dispatchRound searchRadiusKm s = [] ∨
      ∃ d ∈ offer env r (s.ride r).dispatchRound searchRadiusKm s, d ∉ s.rideNotifiedDrivers r)

/-- The rounds and the drivers that are left. -/
def remaining (env : Env) (r : RideId) (D : Finset DriverId) (s : Store) : ℕ :=
  (env.dispatch.maxRounds - (s.ride r).dispatchRound) + (D.filter (· ∉ s.rideNotifiedDrivers r)).card

/-- The first round has not begun while the ride is REQUESTED. -/
def Unbegun (r : RideId) (s : Store) : Prop := (s.ride r).status = some .requested → (s.ride r).dispatchRound = 0

variable {env : Env} {r : RideId} {D : Finset DriverId} {ok : ℚ → Store → Prop} {i n : ℕ} {c : DispatchCall}
  {d : DriverId} {b : BatchId} {s t u : Store} {dispatchRound round : ℕ} {searchRadiusKm : ℚ} {now : Time}
  {searches : List (ℚ × Store)} {fn : App (Option RideHash)}

theorem DispatchCall.code_eq : c.code env r = withRideLock env r (c.section env r) := by
  cases c <;> rfl

theorem offer_congr (h : 1 < dispatchRound ↔ 1 < round) :
    offer env r dispatchRound searchRadiusKm s = offer env r round searchRadiusKm s := by
  unfold offer candidates
  simp only [h]

theorem mem_offer (h : d ∈ offer env r dispatchRound searchRadiusKm s) : ∃ p ∈ s.availableDriversGeo, p.1 = d := by
  have hfound := mem_nearest (List.mem_of_mem_filter (List.mem_of_mem_filter (List.mem_of_mem_take h)))
  obtain ⟨p, hp, heq⟩ := List.any_eq_true.mp hfound
  exact ⟨p, hp, of_decide_eq_true heq⟩

theorem Town.congr (h : Town D s) (hgeo : t.availableDriversGeo = s.availableDriversGeo) : Town D t := by
  refine ⟨?_, ?_⟩
  · rw [hgeo]
    exact h.nodup
  · rw [hgeo]
    exact h.known

theorem card_unnotified_lt (h : ∀ d ∈ s.rideNotifiedDrivers r, d ∈ t.rideNotifiedDrivers r) (hD : d ∈ D)
    (hnew : d ∉ s.rideNotifiedDrivers r) (htold : d ∈ t.rideNotifiedDrivers r) :
    (D.filter (· ∉ t.rideNotifiedDrivers r)).card < (D.filter (· ∉ s.rideNotifiedDrivers r)).card := by
  apply Finset.card_lt_card
  refine Finset.ssubset_iff_subset_ne.mpr ⟨?_, fun heq => ?_⟩
  · intro d' hd'
    obtain ⟨hD', hnew'⟩ := Finset.mem_filter.mp hd'
    exact Finset.mem_filter.mpr ⟨hD', fun hold => hnew' (h d' hold)⟩
  · have hmem : d ∈ D.filter (· ∉ s.rideNotifiedDrivers r) := Finset.mem_filter.mpr ⟨hD, hnew⟩
    rw [← heq] at hmem
    exact (Finset.mem_filter.mp hmem).2 htold

/-- What stands around a search leaves the search as it is. -/
structure Level (r : RideId) (s t : Store) : Prop where
  status : (t.ride r).status = (s.ride r).status
  round : (t.ride r).dispatchRound = (s.ride r).dispatchRound
  notified : t.rideNotifiedDrivers r = s.rideNotifiedDrivers r

/-- A dispatch step never goes back: rounds and notified drivers only grow, and REQUESTED is left for good. -/
structure Onward (r : RideId) (s t : Store) : Prop where
  requested : (t.ride r).status = some .requested →
    (s.ride r).status = some .requested ∧ (t.ride r).dispatchRound = (s.ride r).dispatchRound
  round : (s.ride r).dispatchRound ≤ (t.ride r).dispatchRound
  notified : ∀ d ∈ s.rideNotifiedDrivers r, d ∈ t.rideNotifiedDrivers r

/-- A step with its searches: each one that Redis takes does something to the ride, and those that go on leave less to
do. -/
structure Advances (env : Env) (r : RideId) (D : Finset DriverId) (s : Store) (searches : List (ℚ × Store)) (t : Store) :
    Prop where
  onward : Onward r s t
  searched : searches ≠ [] → (∀ search ∈ searches, allowsSearch env (search.2.ride r) search.1 = true) →
    SearchEnd (s.ride r) (t.ride r)
  less : (∀ search ∈ searches, Town D search.2 ∧ Fresh env r search.1 search.2) →
    (t.ride r).status = some .dispatching → remaining env r D t + searches.length ≤ remaining env r D s

theorem Level.refl : Level r s s := ⟨rfl, rfl, rfl⟩

theorem Level.of_eq (hride : t.ride r = s.ride r) (hnotified : t.rideNotifiedDrivers r = s.rideNotifiedDrivers r) :
    Level r s t := by
  refine ⟨?_, ?_, hnotified⟩
  · rw [hride]
  · rw [hride]

theorem Level.remaining (h : Level r s t) : remaining env r D t = remaining env r D s := by
  unfold YatriGo.remaining
  rw [h.round, h.notified]

theorem Level.unbegun (h : Level r s t) (hs : Unbegun r s) : Unbegun r t := by
  intro hrequested
  rw [h.status] at hrequested
  rw [h.round]
  exact hs hrequested

theorem Level.onward (h : Level r s t) : Onward r s t := by
  refine ⟨fun hrequested => ⟨?_, h.round⟩, h.round.ge, fun d hd => ?_⟩
  · rw [← h.status]
    exact hrequested
  · rw [h.notified]
    exact hd

theorem Onward.trans (h : Onward r s t) (h' : Onward r t u) : Onward r s u := by
  refine ⟨fun hrequested => ?_, h.round.trans h'.round, fun d hd => h'.notified d (h.notified d hd)⟩
  obtain ⟨hrequested', hround⟩ := h'.requested hrequested
  obtain ⟨hrequested'', hround'⟩ := h.requested hrequested'
  exact ⟨hrequested'', hround.trans hround'⟩

theorem Onward.unbegun (h : Onward r s t) (hs : Unbegun r s) : Unbegun r t := by
  intro hrequested
  obtain ⟨hrequested', hround⟩ := h.requested hrequested
  rw [hround]
  exact hs hrequested'

theorem Onward.card_le (h : Onward r s t) :
    (D.filter (· ∉ t.rideNotifiedDrivers r)).card ≤ (D.filter (· ∉ s.rideNotifiedDrivers r)).card := by
  apply Finset.card_le_card
  intro d hd
  obtain ⟨hD, hnew⟩ := Finset.mem_filter.mp hd
  exact Finset.mem_filter.mpr ⟨hD, fun hold => hnew (h.notified d hold)⟩

theorem Onward.remaining (h : Onward r s t) : remaining env r D t ≤ remaining env r D s := by
  have hcard := @Onward.card_le r D s t h
  have hround := h.round
  unfold YatriGo.remaining
  omega

theorem Onward.advances (h : Onward r s t) : Advances env r D s [] t := by
  refine ⟨h, fun hnone _ => absurd rfl hnone, fun _ _ => ?_⟩
  exact h.remaining

theorem SearchEnd.congr {ride₁ ride₂ ride' : RideHash} (h : SearchEnd ride₂ ride')
    (hround : ride₂.dispatchRound = ride₁.dispatchRound) : SearchEnd ride₁ ride' := by
  cases h with
  | sent dispatching batch drivers => exact .sent dispatching batch drivers
  | expanded dispatching batch round =>
    apply SearchEnd.expanded dispatching batch
    rw [round, hround]
  | exhausted ended => exact .exhausted ended

theorem Advances.before (h : Advances env r D t searches u) (hst : Level r s t) : Advances env r D s searches u := by
  refine ⟨hst.onward.trans h.onward, fun hsome htaken => (h.searched hsome htaken).congr hst.round, fun hfits hdispatching => ?_⟩
  have hless := h.less hfits hdispatching
  rw [hst.remaining] at hless
  exact hless

theorem Advances.and_then (h : Advances env r D s searches t) (hride : u.ride r = t.ride r)
    (hnotified : u.rideNotifiedDrivers r = t.rideNotifiedDrivers r) : Advances env r D s searches u := by
  have hlevel : Level r t u := .of_eq hride hnotified
  refine ⟨h.onward.trans hlevel.onward, fun hsome htaken => ?_, fun hfits hdispatching => ?_⟩
  · rw [hride]
    exact h.searched hsome htaken
  · rw [hlevel.remaining]
    apply h.less hfits
    rw [← hride]
    exact hdispatching

section fields

variable {ride ride' : RideHash} {ds : List DriverId} {expiresAt : Time} {nextRadius : ℚ} {exhausted : Bool}

theorem round_clearBatchFields : (ride.hset (clearBatchFields ride' now)).dispatchRound = ride.dispatchRound := by
  simp only [clearBatchFields, hset_cons, hset_nil, RideHash.setField]

theorem round_startFields : (ride.hset (startFields env ride' now)).dispatchRound = 1 := by
  simp only [startFields, hset_cons, hset_nil, RideHash.setField]

theorem round_exhaustFields : (ride.hset (exhaustFields ride' now)).dispatchRound = ride.dispatchRound ∧
    (ride.hset (exhaustFields ride' now)).cancellation = some ⟨.system, none, "NO_DRIVERS_AVAILABLE", now⟩ := by
  simp only [exhaustFields, hset_cons, hset_nil, RideHash.setField, and_self]

theorem round_expandFields : (ride.hset (expandFields ride' round nextRadius now)).dispatchRound = round := by
  simp only [expandFields, hset_cons, hset_nil, RideHash.setField]

theorem round_batchFields : (ride.hset (batchFields ride' b ds expiresAt now)).dispatchRound = ride.dispatchRound ∧
    (ride.hset (batchFields ride' b ds expiresAt now)).currentBatchDrivers = ds := by
  simp only [batchFields, hset_cons, hset_nil, RideHash.setField, and_self]

theorem round_rejectFields : (ride.hset (rejectFields ride' exhausted now)).dispatchRound = ride.dispatchRound := by
  simp only [rejectFields, hset_cons, hset_nil, RideHash.setField]

end fields

theorem Searched.searchEnd {found : Prop} {ride ride' ride₀ : RideHash}
    (h : Searched env found ride dispatchRound searchRadiusKm now ride') (hstatus : ride.status = some .dispatching)
    (hround : ride₀.dispatchRound = dispatchRound) : SearchEnd ride₀ ride' := by
  cases h with
  | sent hfound b ds hds expiresAt =>
    apply SearchEnd.sent
    · rw [hset_batchFields.1, hstatus]
    · rw [hset_batchFields.2.2]
      exact Option.some_ne_none b
    · rw [round_batchFields.2]
      exact hds
  | exhausted none stop => exact .exhausted ⟨hset_exhaustFields.1, now, round_exhaustFields.2⟩
  | expanded none go =>
    apply SearchEnd.expanded
    · rw [hset_expandFields.1, hstatus]
    · exact hset_expandFields.2.2
    · rw [round_expandFields, hround]

theorem round_searching (hs : Unbegun r s) :
    (s.ride r).dispatchRound ≤ (searching env (s.ride r) now).dispatchRound ∧
      (1 < (s.ride r).dispatchRound ↔ 1 < (searching env (s.ride r) now).dispatchRound) := by
  have hclear : (searching env (s.ride r) now).dispatchRound = (started env (s.ride r) now).dispatchRound := by
    unfold searching
    split_ifs
    · rfl
    · exact round_clearBatchFields
  rw [hclear]
  unfold started
  split_ifs with hrequested
  · rw [hs hrequested, round_startFields]
    exact ⟨Nat.zero_le 1, by decide⟩
  · exact ⟨le_rfl, Iff.rfl⟩

/-- One execution of `dispatchUnderLock`. -/
theorem dispatchUnderLock_advances (hs : Unbegun r s) : ∃ result t searches,
    Solo env i Prod.mk (dispatchUnderLock env r) s result t searches ∧ Advances env r D s searches t := by
  by_cases hidle : dispatchable (s.ride r) = false ∨ activeBatch (s.ride r) s.clock = true
  · obtain ⟨answer, t, ht, hride, hnotified⟩ := @alone_dispatchUnderLock_idle env i r s _ Prod.mk hidle
    refine ⟨.ok answer, t, [], ht, Onward.advances ⟨fun hrequested => ?_, ?_, fun d hd => ?_⟩⟩
    · rw [hride] at hrequested ⊢
      unfold started at hrequested ⊢
      split_ifs at hrequested ⊢ with hwas
      · rw [hset_startFields.1] at hrequested
        cases hrequested
      · exact ⟨hrequested, rfl⟩
    · rw [hride]
      unfold started
      split_ifs with hrequested
      · rw [hs hrequested]
        exact Nat.zero_le _
      · exact le_rfl
    · rw [hnotified]
      exact hd
  · rw [not_or, Bool.not_eq_false, Bool.not_eq_true] at hidle
    obtain ⟨hdispatchable, hactive⟩ := hidle
    obtain ⟨hround, hlate⟩ := @round_searching env r s s.clock hs
    cases hallows : allowsSearch env (s.ride r) (nextRadiusKm env (s.ride r)) with
    | false =>
      -- the error of Redis: the ride is DISPATCHING, and nothing was searched
      obtain ⟨u, -, hu, hnotified, hrefused⟩ :=
        @alone_dispatchUnderLock_refused env i r s _ Prod.mk hdispatchable hactive hallows
      have htaken : allowsSearch env (u.ride r) (nextRadiusKm env (s.ride r)) = false := by
        unfold allowsSearch at hallows ⊢
        rw [hu, origin_searching]
        exact hallows
      have honward : Onward r s u := by
        refine ⟨fun hrequested => ?_, ?_, fun d hd => ?_⟩
        · rw [hu, status_searching hdispatchable] at hrequested
          cases hrequested
        · rw [hu]
          exact hround
        · rw [hnotified]
          exact hd
      refine ⟨_, u, _, hrefused, honward, fun _ hall => ?_, fun hfits => ?_⟩
      · have htrue := hall _ (List.mem_singleton.mpr rfl)
        rw [htaken] at htrue
        cases htrue
      · have htrue := (hfits _ (List.mem_singleton.mpr rfl)).2.1
        rw [htaken] at htrue
        cases htrue
    | true =>
      obtain ⟨u, -, hu, ride', t, ht, hsearched, -, -, hafter, hnotified⟩ :=
        @alone_dispatchUnderLock env i r s _ Prod.mk hdispatchable hactive hallows
      have hstatus : (u.ride r).status = some .dispatching := by
        rw [hu, status_searching hdispatchable]
      rw [← hu] at hround hlate
      have hallows' : allowsSearch env (u.ride r) (nextRadiusKm env (s.ride r)) = true := by
        unfold allowsSearch at hallows ⊢
        rw [hu, origin_searching]
        exact hallows
      have htold := @notified_findDrivers env i r u s.clock (s.ride r).dispatchRound (nextRadiusKm env (s.ride r)) hstatus
        hallows'
      rw [hafter] at htold
      have hgrown : ∀ d ∈ s.rideNotifiedDrivers r, d ∈ t.rideNotifiedDrivers r := by
        intro d hd
        rw [← hnotified] at hd
        exact (htold.drivers d).mpr (.inl hd)
      have hend : SearchEnd (s.ride r) (t.ride r) := hsearched.searchEnd hstatus rfl
      have hrequested : (t.ride r).status ≠ some .requested := by
        cases hend with
        | sent dispatching batch drivers => rw [dispatching]; decide
        | expanded dispatching batch round => rw [dispatching]; decide
        | exhausted ended => rw [ended.1]; decide
      -- a batch keeps the round and notifies somebody new, a wider search uses up a round
      obtain ⟨hash, hhash⟩ : ∃ hash, t.ride r = hash := ⟨_, rfl⟩
      rw [hhash] at hsearched
      have hprogress : (s.ride r).dispatchRound ≤ (t.ride r).dispatchRound ∧
          (Town D u → Fresh env r (nextRadiusKm env (s.ride r)) u → (t.ride r).status = some .dispatching →
            remaining env r D t + 1 ≤ remaining env r D s) := by
        cases hsearched with
        | sent hfound b ds hds expiresAt =>
          have hsame : (t.ride r).dispatchRound = (u.ride r).dispatchRound := by
            rw [hhash, round_batchFields.1]
          refine ⟨hround.trans hsame.ge, fun htown hfresh _ => ?_⟩
          have hbatch := htold.batch htown.nodup
          rw [offer_congr hlate] at hbatch
          have hdrivers : offer env r (u.ride r).dispatchRound (nextRadiusKm env (s.ride r)) u = ds := by
            rw [← hbatch, hhash, round_batchFields.2]
          unfold Fresh at hfresh
          rw [hdrivers] at hfresh
          obtain ⟨d, hd, hnew⟩ := hfresh.2.resolve_left hds
          obtain ⟨p, hp, hknown⟩ := mem_offer (hdrivers.symm ▸ hd)
          have hD : d ∈ D := by
            rw [← hknown]
            exact htown.known p hp
          rw [hnotified] at hnew
          have hmem : d ∈ t.rideNotifiedDrivers r := by
            apply (htold.drivers d).mpr
            right
            rw [hhash, round_batchFields.2]
            exact hd
          have hcard := card_unnotified_lt hgrown hD hnew hmem
          unfold remaining
          omega
        | exhausted none stop =>
          have hsame : (t.ride r).dispatchRound = (u.ride r).dispatchRound := by
            rw [hhash, round_exhaustFields.1]
          refine ⟨hround.trans hsame.ge, fun _ _ hdispatching => ?_⟩
          rw [hhash, hset_exhaustFields.1] at hdispatching
          cases hdispatching
        | expanded none go =>
          have hnext : (t.ride r).dispatchRound = (s.ride r).dispatchRound + 1 := by
            rw [hhash, round_expandFields]
          have hleft : (s.ride r).dispatchRound < env.dispatch.maxRounds := not_le.mp fun hmax => go (.inl hmax)
          have hle : (s.ride r).dispatchRound ≤ (t.ride r).dispatchRound := by omega
          refine ⟨hle, fun _ _ _ => ?_⟩
          have hcard := @Onward.card_le r D s t ⟨fun h => absurd h hrequested, hle, hgrown⟩
          unfold remaining
          omega
      refine ⟨_, t, _, ht, ⟨fun h => absurd h hrequested, hprogress.1, hgrown⟩, fun _ _ => hend, fun hfits hdispatching => ?_⟩
      obtain ⟨htown, hfresh⟩ := hfits _ (List.mem_singleton.mpr rfl)
      exact hprogress.2 htown hfresh hdispatching

/-- The lock section of a timeout. -/
theorem batchTimeoutUnderLock_advances (hs : Unbegun r s) : ∃ result t searches,
    Solo env i Prod.mk (batchTimeoutUnderLock env r b) s result t searches ∧ Advances env r D s searches t := by
  by_cases hread : (s.ride r).status = none
  · have hsnapshot : toRideSnapshot (s.ride r) = none := if_pos hread
    refine ⟨.ok none, s, [], alone_readRide ?_, Level.refl.onward.advances⟩
    rw [hsnapshot]
    exact .ret
  · by_cases hother : (s.ride r).status ≠ some .dispatching ∨ (s.ride r).currentBatchId ≠ some b
    · refine ⟨.ok (some (s.ride r)), s, [], alone_getRide hread ?_, Level.refl.onward.advances⟩
      simp only [hother, if_true]
      exact .ret
    · rw [not_or, not_not, not_not] at hother
      obtain ⟨hdispatching, hb⟩ := hother
      obtain ⟨u, hu, hchoice, hhash⟩ := @alone_endBatch env i r s _ Prod.mk s.clock b hb
      have hstatus : (u.ride r).status = some .dispatching := by
        rw [hhash, hset_clearBatchFields.1, hdispatching]
      have hsync : Behind (enqueueRideSync r (u.ride r).version) := behind_addJob
      obtain ⟨_, v, hv, hback⟩ := @Behind.alone env i Unit _ Prod.mk _ hsync u
      have hlevel : Level r s v := by
        refine ⟨?_, ?_, ?_⟩
        · rw [hback.rides, hstatus, hdispatching]
        · rw [hback.rides, hhash, round_clearBatchFields]
        · exact congrFun (hback.choice.notified.trans hchoice.notified) r
      obtain ⟨result, t, searches, ht, hadvances⟩ := @dispatchUnderLock_advances env r D i v (hlevel.unbegun hs)
      refine ⟨result, t, searches, alone_getRide hread ?_, hadvances.before hlevel⟩
      simp only [hdispatching, hb, ne_eq, not_true, or_self, if_false]
      exact Prog.Ends.cmd (hu.bind (alone_getRide (hstatus ▸ Option.some_ne_none _) (hv.bind ht)))

/-- The lock section of a rejection. -/
theorem rejectionUnderLock_advances {reason : Response} (hs : Unbegun r s) : ∃ result t searches,
    Solo env i Prod.mk (rejectionUnderLock env r d reason) s result t searches ∧ Advances env r D s searches t := by
  by_cases hread : (s.ride r).status = none
  · have hsnapshot : toRideSnapshot (s.ride r) = none := if_pos hread
    refine ⟨.ok none, s, [], alone_readRide ?_, Level.refl.onward.advances⟩
    rw [hsnapshot]
    exact .ret
  · by_cases hdispatching : (s.ride r).status = some .dispatching
    · have hsection : ∀ {result t searches}, Solo env i Prod.mk (if ignoresRejection (s.rideResponses r d) then
            .ret (some (s.ride r)) else rejectUnderLock env r d reason (s.ride r) s.clock (s.rideResponses r)) s
          result t searches → Solo env i Prod.mk (rejectionUnderLock env r d reason) s result t searches := by
        intro result t searches hrest
        apply alone_getRide hread
        simp only [hdispatching, ne_eq, not_true, if_false]
        exact Prog.Ends.cmd (Prog.Ends.cmd hrest)
      cases hignored : ignoresRejection (s.rideResponses r d) with
      | true =>
        refine ⟨.ok (some (s.ride r)), s, [], hsection ?_, Level.refl.onward.advances⟩
        rw [hignored, if_pos rfl]
        exact .ret
      | false =>
        rw [hignored, if_neg Bool.false_ne_true] at hsection
        obtain ⟨u, hrecorded, -, hstop, hagain, hnotified⟩ := @alone_rejectUnderLock env i r d reason s s.clock _ Prod.mk hread
        have hlevel : Level r s u := by
          refine ⟨?_, ?_, congrFun hnotified r⟩
          · rw [hrecorded.ride, hset_rejectFields.1]
          · rw [hrecorded.ride, round_rejectFields]
        cases hexhausted : batchExhausted (s.ride r) d (s.rideResponses r) with
        | false =>
          obtain ⟨ride', hsolo⟩ := hstop hexhausted
          exact ⟨.ok (some ride'), u, [], hsection hsolo, hlevel.onward.advances⟩
        | true =>
          obtain ⟨result, t, searches, ht, hadvances⟩ := @dispatchUnderLock_advances env r D i u (hlevel.unbegun hs)
          exact ⟨result, t, searches, hsection (hagain hexhausted ht), hadvances.before hlevel⟩
    · refine ⟨.ok (some (s.ride r)), s, [], alone_getRide hread ?_, Level.refl.onward.advances⟩
      simp only [hdispatching, ne_eq, not_false_eq_true, if_true]
      exact .ret

/-- One call of the dispatch. -/
theorem DispatchCall.advances (c : DispatchCall) (i : ℕ) (hs : Unbegun r s) :
    Advances env r D s (c.searches env r i s) (c.after env r i s) := by
  have hall : ∃ result t searches, Solo env i Prod.mk (c.code env r) s result t searches ∧ Advances env r D s searches t := by
    rw [DispatchCall.code_eq]
    cases hlock : s.locks (.ride r) with
    | some lease =>
      have hlevel : Level r s { s with nextSeq := s.nextSeq + 1 } := .of_eq rfl rfl
      exact ⟨_, _, [], alone_withRideLock_busy hlock, hlevel.onward.advances⟩
    | none =>
      have hlevel : Level r s (lockTaken i (.ride r) env.lockTtlMs s) := .of_eq rfl rfl
      have hbegun : Unbegun r (lockTaken i (.ride r) env.lockTtlMs s) := hlevel.unbegun hs
      have hsection : ∃ result t searches, Solo env i Prod.mk (c.section env r) (lockTaken i (.ride r) env.lockTtlMs s)
          result t searches ∧ Advances env r D (lockTaken i (.ride r) env.lockTtlMs s) searches t := by
        cases c with
        | start => exact dispatchUnderLock_advances hbegun
        | timeout b => exact batchTimeoutUnderLock_advances hbegun
        | rejection d reason => exact rejectionUnderLock_advances hbegun
      obtain ⟨result, t, searches, ht, hadvances⟩ := hsection
      obtain ⟨locks, hlocks⟩ := @releaseLockScript_eq (.ride r) (.uuid ⟨i, s.nextSeq⟩) t
      refine ⟨_, _, searches, alone_withRideLock hlock ht, (hadvances.before hlevel).and_then ?_ ?_⟩
      · rw [hlocks]
      · rw [hlocks]
  obtain ⟨result, t, searches, ht, hadvances⟩ := hall
  have hafter : c.after env r i s = t := congrArg Prod.snd ht.finish
  have hsearches : c.searches env r i s = searches := ht.visits
  rw [hafter, hsearches]
  exact hadvances

theorem Advances.continued (h : Advances env r D s (c.searches env r i s) (c.after env r i s))
    (hfits : c.Fits env r D (Fresh env r) i s) :
    c.continued env r i s + remaining env r D (c.after env r i s) ≤ remaining env r D s := by
  unfold DispatchCall.continued
  split_ifs with hdispatching
  · have hfew := List.length_filter_le (fun search => allowsSearch env (search.2.ride r) search.1) (c.searches env r i s)
    have hless := h.less hfits hdispatching
    omega
  · rw [Nat.zero_add]
    exact h.onward.remaining

theorem DispatchRun.unbegun (h : DispatchRun env r D ok n s) : Unbegun r s := by
  induction h with
  | requested hpayload =>
    intro _
    rw [hpayload]
    rfl
  | meanwhile h hride hnotified ih => exact (Level.of_eq hride hnotified).unbegun ih
  | step h i c hfits ih => exact (@DispatchCall.advances env r D _ c i ih).onward.unbegun ih

theorem DispatchRun.bounded (h : DispatchRun env r D (Fresh env r) n s) :
    n + remaining env r D s ≤ env.dispatch.maxRounds + D.card := by
  induction h with
  | requested hpayload =>
    unfold remaining
    rw [Nat.zero_add]
    exact Nat.add_le_add (Nat.sub_le _ _) (Finset.card_filter_le D _)
  | meanwhile h hride hnotified ih =>
    rw [(Level.of_eq hride hnotified).remaining]
    exact ih
  | step h i c hfits ih =>
    have hless := (@DispatchCall.advances env r D _ c i h.unbegun).continued hfits
    omega

/-- Dispatch ends when every search takes somebody new, or nobody. -/
theorem dispatch_ends (env : Env) (r : RideId) (D : Finset DriverId) :
    EndsWithin env r D (Fresh env r) (env.dispatch.maxRounds + D.card) := by
  have hfew : ∀ n s, DispatchRun env r D (Fresh env r) n s → n ≤ env.dispatch.maxRounds + D.card := by
    intro n s h
    have hbounded := h.bounded
    omega
  have hsearched : ∀ (n : ℕ) (s : Store) (i : ℕ) (c : DispatchCall), DispatchRun env r D (Fresh env r) n s →
      c.Fits env r D (Fresh env r) i s → c.searches env r i s ≠ [] → SearchEnd (s.ride r) ((c.after env r i s).ride r) :=
    fun n s i c h hfits hsome => (@DispatchCall.advances env r D s c i h.unbegun).searched hsome
      fun search hsearch => (hfits search hsearch).2.1
  refine ⟨hfew, hsearched, fun s i c h hfits hsome => ?_⟩
  have hnone : c.continued env r i s = 0 := by
    have hnext := hfew _ _ (h.step i c hfits)
    omega
  have hcontinued : ((c.after env r i s).ride r).status ≠ some .dispatching := by
    intro hdispatching
    unfold DispatchCall.continued at hnone
    have htaken : (c.searches env r i s).filter (fun search => allowsSearch env (search.2.ride r) search.1) =
        c.searches env r i s := List.filter_eq_self.mpr fun search hsearch => (hfits search hsearch).2.1
    rw [if_pos hdispatching, htaken] at hnone
    exact hsome (List.length_eq_zero_iff.mp hnone)
  cases hsearched _ s i c h hfits hsome with
  | sent dispatching batch drivers => exact absurd dispatching hcontinued
  | expanded dispatching batch round => exact absurd dispatching hcontinued
  | exhausted ended => exact ended

/-- The ride is offered to driver `d` alone, whom the next search finds again, and nobody else. -/
structure Waiting (env : Env) (r : RideId) (d : DriverId) (s : Store) : Prop where
  status : (s.ride r).status = some .dispatching
  round : 1 < (s.ride r).dispatchRound
  batch : (s.ride r).currentBatchId ≠ none
  drivers : (s.ride r).currentBatchDrivers = [d]
  found : geosearch env (s.ride r).origin (nextRadiusKm env (s.ride r))
    (env.dispatch.batchSize * env.dispatch.candidateMultiplier) s.availableDriversGeo = some [d]
  again : reservable env (givenBack r s) d = true
  free : s.locks (.ride r) = none
  town : Town {d} s

/-- A search that finds just one driver, in a later round. -/
theorem findDrivers_one (hstatus : (s.ride r).status = some .dispatching) (hround : 1 < dispatchRound)
    (hfound : geosearch env (s.ride r).origin searchRadiusKm (env.dispatch.batchSize * env.dispatch.candidateMultiplier)
      s.availableDriversGeo = some [d]) (hreservable : reservable env s d = true) :
    Backstage (Store.multi { s with
        nextSeq := s.nextSeq + 1
        locks := put s.locks (.reservation d)
          (some ⟨.reservation r ⟨i, s.nextSeq⟩, s.clock + env.dispatch.reservationTtlMs⟩) }
        (batchWrites r (s.ride r) ⟨i, s.nextSeq⟩ [d] (now + env.dispatch.responseTtlMs) now))
      ((system env).after i (findDrivers env r (s.ride r) dispatchRound searchRadiusKm now) s) := by
  -- the stores after the batch id was drawn, the driver reserved and the batch recorded
  let drawn : Store := { s with nextSeq := s.nextSeq + 1 }
  let taken : Store := { drawn with
    locks := put s.locks (.reservation d) (some ⟨.reservation r ⟨i, s.nextSeq⟩, s.clock + env.dispatch.reservationTtlMs⟩) }
  let sent : Store := taken.multi (batchWrites r (s.ride r) ⟨i, s.nextSeq⟩ [d] (now + env.dispatch.responseTtlMs) now)
  let note : ℚ → Store → Unit := fun _ _ => ()
  obtain ⟨hallows, hnearest⟩ := geosearch_eq_some.mp hfound
  -- the filter of notified drivers is off
  have hcandidates : candidates env r dispatchRound searchRadiusKm s = [d] := by
    unfold candidates
    rw [hnearest]
    exact List.filter_eq_self.mpr fun d' _ => decide_eq_true (Or.inr hround)
  have hreserve : Solo env i note (reserveDriversForBatch env r ⟨i, s.nextSeq⟩ [d]) drawn (.ok [d]) taken [] := by
    obtain ⟨t, ht, -, hsame⟩ := @alone_isDriverReservable env i d drawn Unit note
    have hdrawn : reservable env drawn d = true := hreservable
    have hfree : drawn.locks (.reservation d) = none := unreserved_of_reservable hdrawn
    have hlock := @exec_setNX_of_none (.reservation d) (.reservation r ⟨i, s.nextSeq⟩) drawn env i
      env.dispatch.reservationTtlMs hfree
    rw [hdrawn, hsame hdrawn] at ht
    refine ht.bind (.cmd_unseen rfl hlock ?_)
    show Solo env i note (if env.dispatch.batchSize ≤ [d].length then .ret [d] else .ret [d]) taken (.ok [d]) taken []
    rw [ite_self]
    exact .ret
  have hride : sent.ride r = (s.ride r).hset (batchFields (s.ride r) ⟨i, s.nextSeq⟩ [d] (now + env.dispatch.responseTtlMs) now) :=
    put_self
  have hread : (sent.ride r).status ≠ none := by
    rw [hride, hset_batchFields.1, hstatus]
    exact Option.some_ne_none _
  obtain ⟨t, ht, hback⟩ := behind_appendTimelineEvent.before
    (fun _ => behind_addJob.before fun _ => behind_addJob.before fun _ =>
      (Behind.forEach (fun d => behind_publish) [d]).before fun _ => alone_ret) sent
  have hsend : Solo env i note (sendBatch env r (s.ride r) ⟨i, s.nextSeq⟩ [d] now) taken
      (.ok (some (sent.ride r))) t [] := Prog.Ends.cmd (alone_getRide hread ht)
  have hall : Solo env i note (findDrivers env r (s.ride r) dispatchRound searchRadiusKm now) s
      (.ok (some (sent.ride r))) t [()] := by
    apply alone_candidates hallows
    rw [hcandidates]
    exact hreserve.bind hsend
  have hend : (system env).after i (findDrivers env r (s.ride r) dispatchRound searchRadiusKm now) s = t :=
    congrArg Prod.snd hall.finish
  rw [hend]
  exact hback

/-- Where a search looks: fields that the end of a batch and the next batch leave alone. -/
structure SameSearch (env : Env) (ride ride' : RideHash) : Prop where
  origin : ride'.origin = ride.origin
  radius : nextRadiusKm env ride' = nextRadiusKm env ride
  round : ride'.dispatchRound = ride.dispatchRound
  status : ride'.status = ride.status

theorem sameSearch_clearBatchFields {ride ride' : RideHash} :
    SameSearch env ride (ride.hset (clearBatchFields ride' now)) := by
  refine ⟨hset_origin, ?_, round_clearBatchFields, hset_clearBatchFields.1⟩
  simp only [nextRadiusKm, clearBatchFields, hset_cons, hset_nil, RideHash.setField]

theorem sameSearch_batchFields {ride ride' : RideHash} {ds : List DriverId} {expiresAt : Time} :
    SameSearch env ride (ride.hset (batchFields ride' b ds expiresAt now)) := by
  refine ⟨?_, ?_, round_batchFields.1, hset_batchFields.1⟩
  · simp only [batchFields, hset_cons, hset_nil, RideHash.setField]
  · simp only [nextRadiusKm, batchFields, hset_cons, hset_nil, RideHash.setField]

theorem SameSearch.trans {ride₁ ride₂ ride₃ : RideHash} (h : SameSearch env ride₁ ride₂) (h' : SameSearch env ride₂ ride₃) :
    SameSearch env ride₁ ride₃ :=
  ⟨h'.origin.trans h.origin, h'.radius.trans h.radius, h'.round.trans h.round, h'.status.trans h.status⟩

/-- The batch is over: the next search looks where the last one did, and finds the driver. -/
structure BatchOver (env : Env) (r : RideId) (d : DriverId) (s t : Store) : Prop where
  search : SameSearch env (s.ride r) (t.ride r)
  batch : (t.ride r).currentBatchId = none
  geo : t.availableDriversGeo = s.availableDriversGeo
  again : reservable env t d = true

/-- A timeout, up to its search. -/
theorem Waiting.batchOver {γ : Type} {note : ℚ → Store → γ} (h : Waiting env r d s) (hb : (s.ride r).currentBatchId = some b) :
    ∃ t, BatchOver env r d s t ∧ Near (some r) (lockTaken i (.ride r) env.lockTtlMs s) t ∧
      ∀ {result u notes}, Solo env i note (dispatchUnderLock env r) t result u notes →
        Solo env i note (batchTimeoutUnderLock env r b) (lockTaken i (.ride r) env.lockTtlMs s) result u notes := by
  let held := lockTaken i (.ride r) env.lockTtlMs s
  have hread : (held.ride r).status ≠ none := by
    show (s.ride r).status ≠ none
    rw [h.status]
    exact Option.some_ne_none _
  obtain ⟨u, hu, hchoice, hhash⟩ := @alone_endBatch env i r held γ note s.clock b hb
  have hsync : Behind (enqueueRideSync r (u.ride r).version) := behind_addJob
  obtain ⟨_, t, ht, hback⟩ := @Behind.alone env i Unit γ note _ hsync u
  have hsame : SameChoice (givenBack r held) t := hchoice.trans hback.choice
  have hride : t.ride r = (s.ride r).hset (clearBatchFields (s.ride r) s.clock) := by
    rw [hback.rides, hhash]
    rfl
  have hreread : (u.ride r).status ≠ none := by
    rw [hhash, hset_clearBatchFields.1]
    exact hread
  -- the section holds the lock of the ride, and no reservation
  have hheld : reservable env (givenBack r held) d = reservable env (givenBack r s) d := by
    apply reservable_congr rfl rfl rfl _ rfl rfl
    have hlock : held.locks (.reservation d) = s.locks (.reservation d) := lockTaken_of_ne reservation_ne_ride
    show (if _ ∧ Option.map _ (held.locks (.reservation d)) = _ then none else held.locks (.reservation d)) = _
    rw [hlock]
    rfl
  refine ⟨t, ⟨?_, ?_, hsame.geo, ?_⟩, (near_endBatch.solo hu).trans (near_addJob.solo ht), fun hrest => alone_getRide hread ?_⟩
  · rw [hride]
    exact sameSearch_clearBatchFields
  · rw [hride]
    exact hset_clearBatchFields.2.2
  · rw [hsame.reservable, hheld, h.again]
  · show Solo env i note (if (s.ride r).status ≠ some .dispatching ∨ (s.ride r).currentBatchId ≠ some b then _ else _) _ _ _ _
    rw [if_neg (not_or.mpr ⟨not_not.mpr h.status, not_not.mpr hb⟩)]
    exact Prog.Ends.cmd (hu.bind (alone_getRide hreread (ht.bind hrest)))

/-- The driver is offered the ride again. -/
theorem BatchOver.sent {γ : Type} {note : ℚ → Store → γ} (h : BatchOver env r d s t) (hs : Waiting env r d s) :
    ∃ ride' u, Solo env i note (dispatchUnderLock env r) t (.ok (some ride')) u [note (nextRadiusKm env (s.ride r)) t] ∧
      Backstage (Store.multi { t with
        nextSeq := t.nextSeq + 1
        locks := put t.locks (.reservation d)
          (some ⟨.reservation r ⟨i, t.nextSeq⟩, t.clock + env.dispatch.reservationTtlMs⟩) }
        (batchWrites r (t.ride r) ⟨i, t.nextSeq⟩ [d] (t.clock + env.dispatch.responseTtlMs) t.clock)) u := by
  have hstatus : (t.ride r).status = some .dispatching := by rw [h.search.status, hs.status]
  have hfound : geosearch env (t.ride r).origin (nextRadiusKm env (t.ride r))
      (env.dispatch.batchSize * env.dispatch.candidateMultiplier) t.availableDriversGeo = some [d] := by
    rw [h.search.origin, h.search.radius, h.geo, hs.found]
  have hround : 1 < (t.ride r).dispatchRound := by
    rw [h.search.round]
    exact hs.round
  obtain ⟨v, hv, -, ride', u, hu, -, -, -, hafter, -⟩ := @alone_dispatchUnderLock env i r t γ note
    (dispatchable_of_dispatching hstatus) (activeBatch_of_none h.batch) (geosearch_eq_some.mp hfound).1
  obtain rfl : v = t := hv hstatus h.batch
  have hsent := @findDrivers_one env r i d v (v.ride r).dispatchRound (nextRadiusKm env (v.ride r)) v.clock hstatus hround
    hfound h.again
  rw [hafter] at hsent
  rw [h.search.radius] at hu
  exact ⟨ride', u, hu, hsent⟩

/-- Around the next timeout, everything is as it was. -/
theorem BatchOver.waiting (h : BatchOver env r d s t) (hs : Waiting env r d s)
    (hsent : Backstage (Store.multi { t with
        nextSeq := t.nextSeq + 1
        locks := put t.locks (.reservation d)
          (some ⟨.reservation r ⟨i, t.nextSeq⟩, t.clock + env.dispatch.reservationTtlMs⟩) }
        (batchWrites r (t.ride r) ⟨i, t.nextSeq⟩ [d] (t.clock + env.dispatch.responseTtlMs) t.clock)) u)
    {locks : LockKey → Option Lease} (hreserved : locks (.reservation d) = u.locks (.reservation d))
    (hfree : locks (.ride r) = none) : Waiting env r d { u with locks } := by
  have hhash : u.ride r =
      (t.ride r).hset (batchFields (t.ride r) ⟨i, t.nextSeq⟩ [d] (t.clock + env.dispatch.responseTtlMs) t.clock) := by
    rw [hsent.rides]
    exact put_self
  have hbatch : (u.ride r).currentBatchId = some ⟨i, t.nextSeq⟩ := by
    rw [hhash]
    exact hset_batchFields.2.2
  have hdrivers : (u.ride r).currentBatchDrivers = [d] := by
    rw [hhash]
    exact round_batchFields.2
  have hsearch : SameSearch env (s.ride r) (u.ride r) := by
    apply h.search.trans
    rw [hhash]
    exact sameSearch_batchFields
  obtain ⟨timeline, published, idempotency, jobs, hu⟩ := hsent
  have hgeo : u.availableDriversGeo = s.availableDriversGeo := by
    rw [← h.geo, hu]
    rfl
  have hlease : locks (.reservation d) = some ⟨.reservation r ⟨i, t.nextSeq⟩, t.clock + env.dispatch.reservationTtlMs⟩ := by
    rw [hreserved, hu]
    exact put_self
  -- the batch gives back the only reservation it made, so the driver can be reserved as before
  have hagain : reservable env (givenBack r { u with locks }) d = reservable env t d := by
    have hunreserved : t.locks (.reservation d) = none := unreserved_of_reservable h.again
    apply reservable_congr
    · show u.driverHash d = _
      rw [hu]
      rfl
    · show u.driverHeartbeat d = _
      rw [hu]
      rfl
    · show u.driverActiveRide d = _
      rw [hu]
      rfl
    · show (if d ∈ (u.ride r).currentBatchDrivers ∧ (locks (.reservation d)).map Lease.token =
        (u.ride r).currentBatchId.map (Token.reservation r) then none else locks (.reservation d)) = _
      rw [hbatch, hdrivers, hlease, hunreserved]
      exact if_pos ⟨List.mem_singleton.mpr rfl, rfl⟩
    · show u.rejectCooldown d = _
      rw [hu]
      rfl
    · show u.clock = _
      rw [hu]
      rfl
  have hfound : geosearch env (u.ride r).origin (nextRadiusKm env (u.ride r))
      (env.dispatch.batchSize * env.dispatch.candidateMultiplier) u.availableDriversGeo = some [d] := by
    rw [hsearch.origin, hsearch.radius, hgeo, hs.found]
  have hround : 1 < (u.ride r).dispatchRound := by
    rw [hsearch.round]
    exact hs.round
  have htown : Town {d} u := hs.town.congr hgeo
  exact ⟨hsearch.status.trans hs.status, hround, hbatch ▸ Option.some_ne_none _, hdrivers, hfound, hagain.trans h.again, hfree,
    htown.1, htown.2⟩

/-- The timeout of a batch that just one driver let pass: the driver is offered the ride again. -/
theorem Waiting.timeout (h : Waiting env r d s) (hb : (s.ride r).currentBatchId = some b) :
    Waiting env r d ((DispatchCall.timeout b).after env r i s) ∧ ∃ u, Town {d} u ∧
      allowsSearch env (u.ride r) (nextRadiusKm env (s.ride r)) = true ∧
      (DispatchCall.timeout b).searches env r i s = [(nextRadiusKm env (s.ride r), u)] := by
  obtain ⟨t, hover, hnear, hsection⟩ := @Waiting.batchOver env r i d b s _ (Prod.mk (α := ℚ) (β := Store)) h hb
  obtain ⟨ride', u, hu, hsent⟩ := @BatchOver.sent env r i d s t _ (Prod.mk (α := ℚ) (β := Store)) hover h
  have hsolo := alone_withRideLock h.free (hsection hu)
  have hsearches : (DispatchCall.timeout b).searches env r i s = [(nextRadiusKm env (s.ride r), t)] := hsolo.visits
  have hstore : (DispatchCall.timeout b).after env r i s = (releaseLockScript (.ride r) (.uuid ⟨i, s.nextSeq⟩) u).2 :=
    congrArg Prod.snd hsolo.finish
  have hfree : (releaseLockScript (.ride r) (.uuid ⟨i, s.nextSeq⟩) u).2.locks (.ride r) = none := by
    rw [(Near.section h.free (hnear.trans (near_dispatchUnderLock.solo hu))).locks (.ride r) trivial, h.free]
  have hreserved : (releaseLockScript (.ride r) (.uuid ⟨i, s.nextSeq⟩) u).2.locks (.reservation d) =
      u.locks (.reservation d) := releaseLockScript_locks_of_ne reservation_ne_ride
  obtain ⟨locks, hlocks⟩ := @releaseLockScript_eq (.ride r) (.uuid ⟨i, s.nextSeq⟩) u
  have htown : Town {d} t := h.town.congr hover.geo
  have hallows : allowsSearch env (t.ride r) (nextRadiusKm env (s.ride r)) = true := by
    unfold allowsSearch
    rw [hover.search.origin]
    exact (geosearch_eq_some.mp h.found).1
  rw [hlocks] at hfree hreserved
  rw [hstore, hlocks]
  exact ⟨hover.waiting h hsent hreserved hfree, t, htown, hallows, hsearches⟩

/-- As long as the driver keeps silent, every timeout makes one more search, and sends one more batch. -/
theorem Waiting.endless (h : Waiting env r d s) (hrun : DispatchRun env r {d} (fun _ _ => True) n s) (m : ℕ) :
    ∃ t, DispatchRun env r {d} (fun _ _ => True) (n + m) t ∧ Waiting env r d t := by
  induction m with
  | zero => exact ⟨s, hrun, h⟩
  | succ m ih =>
    obtain ⟨t, ht, hwaiting⟩ := ih
    obtain ⟨b, hb⟩ := Option.ne_none_iff_exists'.mp hwaiting.batch
    obtain ⟨hnext, u, htown, hallows, hsearches⟩ := @Waiting.timeout env r 0 d b t hwaiting hb
    have hfits : (DispatchCall.timeout b).Fits env r {d} (fun _ _ => True) 0 t := by
      intro search hsearch
      rw [hsearches] at hsearch
      rw [List.mem_singleton.mp hsearch]
      exact ⟨htown, trivial⟩
    have hone : (DispatchCall.timeout b).continued env r 0 t = 1 := by
      unfold DispatchCall.continued
      rw [if_pos hnext.status, hsearches, List.filter_singleton, hallows]
      rfl
    have hstep := ht.step 0 (.timeout b) hfits
    rw [hone] at hstep
    exact ⟨_, hstep, hnext⟩

instance : Decidable (Town D s) := decidable_of_iff
  ((s.availableDriversGeo.map Prod.fst).Nodup ∧ ∀ p ∈ s.availableDriversGeo, p.1 ∈ D)
  ⟨fun h => ⟨h.1, h.2⟩, fun h => ⟨h.nodup, h.known⟩⟩

/-- Driver 1 goes online, and customer 7 requests ride `⟨1, 2⟩`. -/
def silentTown : Store := (system townEnv).after 1 (requestRide townEnv 7 ⟨0, 0⟩ ⟨0, 0⟩ ⟨none, []⟩)
  ((system townEnv).after 0 (YatriGo.goOnline townEnv 1 (some 0) (some 0) none) {})

/-- The offer of round 1 is over, and the search is to be widened; then round 2 has begun. -/
def secondRound : Store := DispatchCall.after townEnv ⟨1, 2⟩ 4
  (DispatchCall.after townEnv ⟨1, 2⟩ 3 (DispatchCall.after townEnv ⟨1, 2⟩ 2 silentTown .start) (.timeout ⟨2, 4⟩)) .start

theorem secondRound_run : ∃ n, DispatchRun townEnv ⟨1, 2⟩ {1} (fun _ _ => True) n secondRound := by
  have hrequested : DispatchRun townEnv ⟨1, 2⟩ {1} (fun _ _ => True) 0 silentTown :=
    .requested (c := 7) (by decide +kernel : silentTown.ride ⟨1, 2⟩ = requestPayload townEnv 7 ⟨0, 0⟩ ⟨0, 0⟩ ⟨none, []⟩ 0)
  have hfirst := hrequested.step 2 .start (by unfold DispatchCall.Fits; decide +kernel)
  have htimeout := hfirst.step 3 (.timeout ⟨2, 4⟩) (by unfold DispatchCall.Fits; decide +kernel)
  exact ⟨_, htimeout.step 4 .start (by unfold DispatchCall.Fits; decide +kernel)⟩

theorem secondRound_waiting : Waiting townEnv ⟨1, 2⟩ 1 secondRound where
  status := by decide +kernel
  round := by decide +kernel
  batch := by decide +kernel
  drivers := by decide +kernel
  found := by decide +kernel
  again := by decide +kernel
  free := by decide +kernel
  town := by decide +kernel

/-- Driver 1 stays online and never answers. -/
theorem dispatch_endless : ¬ DispatchEnds := by
  rintro ⟨bound, hends⟩
  obtain ⟨n, hrun⟩ := secondRound_run
  let limit := bound townEnv.dispatch.maxRounds townEnv.dispatch.initialSearchRadiusKm
    townEnv.dispatch.maxSearchRadiusKm ({1} : Finset DriverId).card
  obtain ⟨t, ht, -⟩ := secondRound_waiting.endless hrun (limit + 1)
  have hfew : n + (limit + 1) ≤ limit := (hends townEnv ⟨1, 2⟩ {1} (by decide)).few _ t ht
  omega

end YatriGo
