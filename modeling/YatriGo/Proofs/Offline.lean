import YatriGo.Proofs.DriverFootprint
import YatriGo.Proofs.RideContract

/-! A driver that is offline, and the programs that leave it so. A heartbeat and a reconnection look at
the status under the driver's lock; a release from a ride does not look again. -/

namespace YatriGo
open Concurrent

/-- `d` is stored OFFLINE and is in none of the pools. -/
structure Off (d : DriverId) (s : Store) : Prop where
  status : (s.driverHash d).status = some .offline
  pools : ∀ pool, d ∉ s.driverSet pool
  geo : ∀ location, (d, location) ∉ s.availableDriversGeo

/-- A release that read `d` ONLINE or BUSY with a heartbeat, while `d` is stored OFFLINE by now. -/
def Cmd.wakes (d : DriverId) (s : Store) : ⦃β : Type⦄ → Cmd β → Prop
  | _, .multi ws => (s.driverHash d).status = some .offline ∧
    ∃ r hash active now, hash.status.getD .offline ≠ .offline ∧ ws = releaseWrites d r hash active true now
  | _, _ => False

/-- Commands that leave `d` offline unless they wake it. -/
def Cmd.silent (d : DriverId) : ⦃β : Type⦄ → Cmd β → Prop
  | _, .multi ws => ElsewhereWrites d ws ∨
    ∃ existing activeRideId now, ws = offlineWrites d existing activeRideId now
  | _, _ => True

variable {env : Env} {r : RideId} {d d' : DriverId} {s t : Store} {i : ℕ} {α β : Type} {now : Time}

theorem Off.congr (h : Off d s) (hhash : t.driverHash = s.driverHash) (hset : t.driverSet = s.driverSet)
    (hgeo : t.availableDriversGeo = s.availableDriversGeo) : Off d t where
  status := by rw [hhash]; exact h.status
  pools := by rw [hset]; exact h.pools
  geo := by rw [hgeo]; exact h.geo

theorem Off.sameKeys (h : Off d s) (hsame : SameKeys s t) : Off d t :=
  h.congr hsame.driverHash hsame.driverSet hsame.geo

theorem Off.apply (h : Off d s) {w : Write} (hw : w.elsewhere d) : Off d (w.apply s) := by
  cases w with
  | hsetDriver d' fields =>
    have hne : d ≠ d' := fun heq => hw heq.symm
    refine ⟨?_, h.pools, h.geo⟩
    show (put s.driverHash d' _ d).status = some .offline
    rw [put_of_ne hne]
    exact h.status
  | sadd pool d' =>
    have hne : d ≠ d' := fun heq => hw heq.symm
    refine ⟨h.status, fun pool' => ?_, h.geo⟩
    show d ∉ put s.driverSet pool (sadd d' (s.driverSet pool)) pool'
    rw [put_apply]
    split_ifs
    · rw [mem_sadd]
      exact not_or_intro hne (h.pools pool)
    · exact h.pools pool'
  | srem pool d' =>
    refine ⟨h.status, fun pool' => ?_, h.geo⟩
    show d ∉ put s.driverSet pool (srem d' (s.driverSet pool)) pool'
    rw [put_apply]
    split_ifs
    · rw [mem_srem]
      exact fun hmem => h.pools pool hmem.1
    · exact h.pools pool'
  | geoadd d' location =>
    have hne : d ≠ d' := fun heq => hw heq.symm
    refine ⟨h.status, h.pools, fun location' hmem => ?_⟩
    rcases mem_geoadd hmem with ⟨heq, -⟩ | hmem
    · exact hne heq
    · exact h.geo location' hmem
  | zremGeo d' => exact ⟨h.status, h.pools, fun location hmem => h.geo location (List.mem_of_mem_filter hmem)⟩
  | _ => exact ⟨h.status, h.pools, h.geo⟩

theorem Off.multi {ws : List Write} (h : Off d s) (hws : ∀ w ∈ ws, w.elsewhere d) : Off d (s.multi ws) := by
  induction ws generalizing s with
  | nil => exact h
  | cons w ws ih =>
    have hw : w.elsewhere d := hws w List.mem_cons_self
    exact ih (h.apply hw) fun v hv => hws v (List.mem_cons_of_mem _ hv)

/-- A release leaves an offline driver OFFLINE, if it does not wake it. -/
theorem Off.release {hash : DriverHash} {active : Option RideId} {heartbeatExists : Bool} (h : Off d s)
    (hwakes : ¬ Cmd.wakes d s (.multi (releaseWrites d r hash active heartbeatExists now))) :
    Off d (s.multi (releaseWrites d r hash active heartbeatExists now)) := by
  have hlead : ∀ w ∈ [Write.srem .busy d, .sremPending d r] ++
      (if active = some r then [.delDriverActiveRide d] else []), w.elsewhere d := by
    intro w hw
    rcases List.mem_append.mp hw with hw | hw
    · simp only [List.mem_cons, List.not_mem_nil, or_false] at hw
      rcases hw with rfl | rfl <;> trivial
    · split_ifs at hw
      · rw [List.mem_singleton.mp hw]
        trivial
      · cases hw
  have hrest := h.multi hlead
  by_cases hasleep : hash.status.getD .offline = .offline ∨ heartbeatExists = false
  · unfold releaseWrites
    rw [multi_append, if_pos hasleep]
    refine ⟨?_, hrest.pools, hrest.geo⟩
    exact congrArg DriverHash.status put_self
  · obtain ⟨hstatus, hbeat⟩ := not_or.mp hasleep
    obtain rfl : heartbeatExists = true := Bool.not_eq_false _ ▸ hbeat
    exact absurd ⟨h.status, r, hash, active, now, hstatus, rfl⟩ hwakes

theorem off_offlineWrites {existing : Option DriverState} {activeRideId : Option RideId} :
    Off d (s.multi (offlineWrites d existing activeRideId now)) where
  status := congrArg DriverHash.status put_self
  pools := fun pool => by
    show d ∉ put (put (put s.driverSet .online _) .available _) .busy _ pool
    cases pool with
    | online => rw [put_of_ne (by decide), put_of_ne (by decide), put_self, mem_srem]; simp
    | available => rw [put_of_ne (by decide), put_self, mem_srem]; simp
    | busy => rw [put_self, mem_srem]; simp
  geo := fun location hmem => by
    have hkept : (d, location) ∈ s.availableDriversGeo.filter (·.1 ≠ d) := hmem
    simp at hkept

/-- The accept script wants an ONLINE driver. -/
theorem Off.accept {acceptedAt : Time} {reservation : Option Token} (h : Off d s) :
    Off d (acceptRideScript r d' acceptedAt reservation s).2 := by
  rcases @acceptRideScript_cases s r d' acceptedAt reservation with ⟨-, heq⟩ | ⟨-, heq, hguard⟩
  · rw [heq]
    exact h
  · obtain ⟨-, -, batchId, -, -, -, honline, -⟩ := acceptRideGuard_eq_zero hguard
    have hne : d ≠ d' := by
      rintro rfl
      rw [h.status] at honline
      cases honline
    rw [heq]
    refine ⟨?_, fun pool => ?_, fun location hmem => h.geo location (List.mem_of_mem_filter hmem)⟩
    · show (put s.driverHash d' _ d).status = some .offline
      rw [put_of_ne hne]
      exact h.status
    · show d ∉ put (put s.driverSet .available (srem d' _)) .busy (sadd d' _) pool
      cases pool with
      | online => exact h.pools .online
      | available =>
        rw [put_of_ne (by decide), put_self, mem_srem]
        exact fun hmem => h.pools .available hmem.1
      | busy =>
        rw [put_self, mem_sadd]
        exact not_or_intro hne (h.pools .busy)

theorem Off.exec {c : Cmd β} (h : Off d s) (hc : c.silent d) (hwakes : ¬ c.wakes d s) :
    Off d (exec env i c s).2 := by
  by_cases hsingle : c.single
  · exact h.sameKeys (exec_sameKeys hsingle)
  · cases c with
    | multi ws =>
      show Off d (s.multi ws)
      rcases hc with hws | ⟨existing, activeRideId, now, rfl⟩
      · cases hws with
        | elsewhere hws => exact h.multi hws
        | release r hash active heartbeatExists now => exact h.release hwakes
      · exact off_offlineWrites
    | evalAcceptRide r d' acceptedAt reservation => exact h.accept
    | _ => exact absurd trivial hsingle

/-- The others leave `d` offline, and so has the thread to, as long as its commands do not wake it. -/
def offline (env : Env) (d : DriverId) (i : ℕ) : View Cmd Store where
  exec := fun _ c s => exec env i c s
  rely := fun s t => Off d s → Off d t
  assume := fun _ c s => ¬ c.wakes d s
  guar := fun _ c s => Off d (exec env i c s).2
  refl := fun _ => id
  trans := fun h₁ h₂ h => h₂ (h₁ h)

/-- Once `d` is offline, the program leaves it so. -/
abbrev StaysOff (env : Env) (d : DriverId) (i : ℕ) (p : App α) : Prop := (offline env d i).Keeps (Off d) p

theorem stable_off : (offline env d i).Stable (Off d) := fun _ _ h => h

section programs

variable {p : App α} {f : α → App β}

theorem staysOff_ret {a : α} : StaysOff env d i (.ret a) := View.Keeps.ret stable_off

theorem staysOff_throw {e : AppError} : StaysOff env d i (.throw e : App α) := View.Keeps.throw stable_off

theorem staysOff_uses (h : p.Uses (Cmd.silent d)) : StaysOff env d i p :=
  View.Keeps.of_uses stable_off (fun _ _ _ hc hoff hwakes => ⟨hoff.exec hc hwakes, hoff.exec hc hwakes⟩) h

theorem staysOff_cmd {c : Cmd β} {k : β → App α} (hc : c.silent d) (hk : ∀ b, StaysOff env d i (k b)) :
    StaysOff env d i (.cmd c k) := by
  have hredis : StaysOff env d i (redis c) := staysOff_uses ⟨hc, fun _ => trivial⟩
  exact View.Keeps.bind hredis hk

theorem staysOff_releaseLock {key : LockKey} {token : Token} : StaysOff env d i (releaseLock key token) :=
  staysOff_uses ⟨trivial, fun _ => trivial⟩

theorem Cmd.elsewhere.silent {c : Cmd β} (h : c.elsewhere d) : c.silent d := by
  cases c with
  | multi ws => exact Or.inl h
  | _ => trivial

theorem Elsewhere.silent (h : Elsewhere d p) : p.Uses (Cmd.silent d) := h.mono fun _ _ hc => hc.silent

theorem Elsewhere.staysOff (h : Elsewhere d p) : StaysOff env d i p := staysOff_uses h.silent

theorem StaysOff.tryFinally {fin : App Unit} (hp : StaysOff env d i p) (hfin : StaysOff env d i fin) :
    StaysOff env d i (p.tryFinally fin) := by
  intro s hs
  refine View.Safe.tryFinally ((hp s hs).mono fun _ t ht => ?_)
  refine (hfin t ht).mono fun ended u hu => ?_
  cases ended <;> exact hu

theorem staysOff_getDriverState {f : Option DriverState → App β}
    (hf : ∀ state : DriverState, state.status = .offline → StaysOff env d i (f (some state))) :
    StaysOff env d i ((getDriverState d).bind f) := by
  intro s hs t ht _
  have hoff : Off d t := ht hs
  have hsome : ∃ state, toDriverSnapshot (t.driverHash d) = some state ∧ state.status = .offline := by
    unfold toDriverSnapshot
    rw [hoff.status]
    exact ⟨_, rfl, rfl⟩
  obtain ⟨state, hread, hstatus⟩ := hsome
  refine ⟨hoff, ?_⟩
  show (offline env d i).Safe _ (f (toDriverSnapshot (t.driverHash d))) t
  rw [hread]
  exact hf state hstatus t hoff

end programs

end YatriGo
