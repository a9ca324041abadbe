import YatriGo.Proofs.DrivenRides
import YatriGo.Socket.Displays

/-! Who is shown what. A customer is shown its own rides and where their drivers are, and a driver the ride that it drives.
What is shown was in the store, and those who are shown it are entitled to it by what was in the store as well. -/

namespace YatriGo
open Concurrent

/-- The ride that a customer is shown after a check. -/
def Shown.ride : Shown → Option (CustomerId × RideId × RideHash)
  | .customerSnapshot c r ride => some (c, r, ride)
  | .rideSnapshot c r ride => some (c, r, ride)
  | .rideDetails (some c) r ride _ => some (c, r, ride)
  | _ => none

/-- The stores that a run passes. -/
def Seen (env : Env) (as : List DisplayStep) : Set Store :=
  Set.image DisplayStore.redis (Passed (displaySystem env) displayInitial as)

/-- Customers are shown their own rides, and drivers the ride that they drive. The position of a driver is told to the
customer of the ride that it drives, while the ride is under way. -/
structure OwnDisplays (env : Env) (ok : DisplayState → DisplayStep → Prop) : Prop where
  rides : ∀ as q x c r ride, (displaySystem env).Run ok displayInitial as q → x ∈ q.store.shown → x.ride = some (c, r, ride) →
    Saw (Seen env as) r ride ∧ ride.customerId = c
  status : ∀ as q c r status version driverId updatedAt, (displaySystem env).Run ok displayInitial as q →
    .rideStatus c r (.found status version driverId updatedAt) ∈ q.store.shown →
    ∃ ride, Saw (Seen env as) r ride ∧ some ride.customerId = c ∧ ride.status = status ∧ ride.version = version ∧
      ride.driverId = driverId ∧ ride.updatedAt = updatedAt
  driver : ∀ as q d state ride, (displaySystem env).Run ok displayInitial as q → .driverSnapshot d state ride ∈ q.store.shown →
    (∃ s ∈ Seen env as, toDriverSnapshot (s.driverHash d) = state) ∧
    ∀ r hash, ride = some (r, hash) → Saw (Seen env as) r hash ∧ (q.store.redis.ride r).driverId = some d
  location : ∀ as q c r d lat lng atTime, (displaySystem env).Run ok displayInitial as q →
    .driverLocation c r d lat lng atTime ∈ q.store.shown →
    (∃ ride, Saw (Seen env as) r ride ∧ ride.customerId = c ∧ canTrackLocation ride.status = true) ∧
    (q.store.redis.ride r).driverId = some d ∧ ∃ s ∈ Seen env as, (s.driverHash d).places lat lng

/-- What has been in the store when something is shown. -/
def Fitting (past : Set Store) : Shown → Prop
  | .customerSnapshot c r ride => Saw past r ride ∧ ∃ s ∈ past, s.customerActiveRide c = some r
  | .driverSnapshot d state ride => (∃ s ∈ past, toDriverSnapshot (s.driverHash d) = state) ∧
    ∀ r hash, ride = some (r, hash) → Saw past r hash ∧ ∃ s ∈ past, Refers d r s
  | .rideSnapshot c r ride => Saw past r ride ∧ ride.customerId = c
  | .rideDetails (some c) r ride _ => Saw past r ride ∧ ride.customerId = c
  | .rideDetails none .. => True
  | .rideStatus c r (.found status version driverId updatedAt) => ∃ ride, Saw past r ride ∧ some ride.customerId = c ∧
    ride.status = status ∧ ride.version = version ∧ ride.driverId = driverId ∧ ride.updatedAt = updatedAt
  | .rideStatus .. => True
  | .subscription .. => True
  | .driverLocation c r d lat lng _ =>
    (∃ ride, Saw past r ride ∧ ride.customerId = c ∧ canTrackLocation ride.status = true) ∧
    (∃ s ∈ past, Refers d r s) ∧ ∃ s ∈ past, (s.driverHash d).places lat lng

/-- The operation of the system that a call contains. Those that only read contain none of its commands. -/
def DisplayOp.base : DisplayOp → Op
  | .call op => op
  | .locationHeartbeat d lat lng socketId => .heartbeat d lat lng socketId
  | .postLocation d lat lng socketId => .heartbeat d lat lng socketId
  | .connectDriver d socketId => .restoreDriverSession d socketId
  | _ => .recoverDispatchingRides

/-- No lock of a ride expires while it is held, and no ride is requeued. -/
def DisplaysServed (_ : DisplayState) (a : DisplayStep) : Prop :=
  (∀ r, a ≠ .env (.expireLease (.ride r))) ∧ ∀ r d, a ≠ .call (.call (.requeueRideAfterDriverLoss r d))

variable {env : Env} {i : ℕ} {past past' : Set Store} {seen : Set DisplayStore} {r : RideId} {d : DriverId} {c : CustomerId}
  {state : DriverState} {x : Shown} {α : Type}

theorem Fitting.mono (h : Fitting past x) (hle : past ⊆ past') : Fitting past' x := by
  have hstore : ∀ {P : Store → Prop}, (∃ s ∈ past, P s) → ∃ s ∈ past', P s := fun ⟨s, hs, hP⟩ => ⟨s, hle hs, hP⟩
  have hsaw : ∀ {P : RideHash → Prop} {r}, (∃ ride, Saw past r ride ∧ P ride) → ∃ ride, Saw past' r ride ∧ P ride :=
    fun ⟨ride, hride, hP⟩ => ⟨ride, hride.mono hle, hP⟩
  cases x with
  | customerSnapshot c r ride => exact ⟨h.1.mono hle, hstore h.2⟩
  | driverSnapshot d state ride =>
    exact ⟨hstore h.1, fun r hash hride => ⟨(h.2 r hash hride).1.mono hle, hstore (h.2 r hash hride).2⟩⟩
  | rideSnapshot c r ride => exact ⟨h.1.mono hle, h.2⟩
  | rideDetails actorId r ride timeline =>
    cases actorId with
    | none => trivial
    | some c => exact ⟨h.1.mono hle, h.2⟩
  | rideStatus c r body =>
    cases body with
    | found status version driverId updatedAt => exact hsaw h
    | _ => trivial
  | subscription c r ride => trivial
  | driverLocation c r d lat lng atTime => exact ⟨hsaw h.1, hstore h.2.1, hstore h.2.2⟩

/-- What is shown needs its support; the other commands need nothing. -/
def displays (env : Env) : Evidence (displaySystem env) where
  needs := fun β c seen => match β, c with
    | _, .show (.emit x) => Fitting (Set.image DisplayStore.redis seen) x
    | _, _ => True
  mono := fun β c seen seen' hle h => by
    cases c with
    | redis c => trivial
    | «show» c =>
      cases c with
      | setLocation key => trivial
      | emit x => exact Fitting.mono h (Set.image_mono hle)

/-- The displays look on at the system. -/
def onlooking (env : Env) : Onlooking (system env) (displaySystem env) where
  store := DisplayStore.redis
  embed := fun _ c => .redis c
  exec := fun _ _ _ _ => ⟨rfl, rfl⟩
  env := fun e s s' h => by
    obtain ⟨t, ht, rfl⟩ := Option.map_eq_some_iff.mp h
    exact ht

/-- What the program shows fits what it has seen, and what it returns fits `Q`. -/
abbrev Fits (env : Env) (i : ℕ) {α : Type} (Q : α → Set Store → Prop) (p : DisplayApp α) (seen : Set DisplayStore) : Prop :=
  (displays env).Cites i (fun a u => Q a (Set.image DisplayStore.redis u)) p seen

section programs

theorem fits_unshown {E : Evidence (system env)} {Q : α → Set Store → Prop} {p : App α}
    (h : E.Cites i Q p (Set.image DisplayStore.redis seen)) : Fits env i Q (unshown p) seen :=
  Onlooking.Cites.lift (O := onlooking env) (fun _ _ _ _ => trivial) h

theorem fits_read {Q : α → Set Store → Prop} {k : Cmd α}
    (h : ∀ s past, s ∈ past → Q ((system env).exec i k s).1 past) : Fits env i Q (unshown (redis k)) seen :=
  ⟨trivial, fun s => h s.redis _ (Set.mem_image_of_mem _ (Set.mem_insert ..))⟩

theorem fits_getRide : Fits env i (Found r) (unshown (getRide r)) seen := fits_unshown found_getRide

theorem fits_getDriverState :
    Fits env i (fun state past => ∃ s ∈ past, toDriverSnapshot (s.driverHash d) = state) (unshown (getDriverState d)) seen :=
  ⟨trivial, fun s => ⟨s.redis, Set.mem_image_of_mem _ (Set.mem_insert ..), rfl⟩⟩

theorem fits_heartbeat {lat lng : Option ℚ} {socketId : Option SocketId} :
    Fits env i (fun state past => Recalled past d state) (unshown (heartbeat env d lat lng socketId)) seen :=
  fits_unshown recalls_heartbeat

theorem displayExec_setLocation {key : LocationKey} {s : DisplayStore} :
    (displayExec env i (.show (.setLocation key)) s).2.redis = s.redis ∧
    (displayExec env i (.show (.setLocation key)) s).2.shown = s.shown := by
  simp only [displayExec]
  split_ifs <;> exact ⟨rfl, rfl⟩

theorem fits_display (h : Fitting (Set.image DisplayStore.redis seen) x) : Fits env i (fun _ _ => True) (display x) seen :=
  ⟨h, fun _ => trivial⟩

/-- A position is told once it is known to be that of a driver of the ride. -/
theorem fits_pushLocationIfNeeded (h : Recalled (Set.image DisplayStore.redis seen) d state) :
    Fits env i (fun _ _ => True) (pushLocationIfNeeded d state) seen := by
  unfold pushLocationIfNeeded
  cases hactive : state.activeRideId with
  | none => trivial
  | some r =>
    refine fits_getRide.bind fun read u hu hfound => ?_
    cases read with
    | none => trivial
    | some ride =>
      dsimp only
      split_ifs with htrack
      · trivial
      · -- all of it is known before the key of the position is set
        have hfits : Fitting (Set.image DisplayStore.redis u)
            (.driverLocation ride.customerId r d state.lat state.lng state.updatedAt) := by
          have hle : Set.image DisplayStore.redis seen ⊆ Set.image DisplayStore.redis u := Set.image_mono hu
          obtain ⟨s, hs, href⟩ := h.ride r hactive
          obtain ⟨t, ht, hplace⟩ := h.place
          refine ⟨⟨ride, hfound ride rfl, rfl, ?_⟩, ⟨s, hle hs, href⟩, t, hle ht, hplace⟩
          exact Bool.eq_true_of_not_eq_false htrack
        refine ⟨trivial, fun s => ?_⟩
        generalize ((displaySystem env).exec i _ s).1 = allowed
        cases allowed with
        | false => trivial
        | true =>
          refine fits_display (hfits.mono (Set.image_mono ?_))
          exact (Set.subset_insert _ _).trans (Set.subset_insert _ _)

theorem fits_locationHeartbeat {lat lng : Option ℚ} {socketId : Option SocketId} :
    Fits env i (fun _ _ => True) (locationHeartbeat env d lat lng socketId) seen := by
  refine Evidence.Cites.tryCatch (fits_getDriverState.bind fun currentState u _ _ => ?_) fun _ _ _ => trivial
  cases currentState with
  | none => trivial
  | some currentState =>
    dsimp only
    split_ifs
    · trivial
    · exact fits_heartbeat.bind fun state v _ hstate => fits_pushLocationIfNeeded hstate

theorem fits_sendDriverSnapshot : Fits env i (fun _ _ => True) (sendDriverSnapshot d) seen := by
  have hpointer : ∀ u, Fits env i (fun active past => Named past d active) (unshown (redis (.getDriverActiveRide d))) u :=
    fun u => fits_read fun s past hs r hr => ⟨s, hs, .inl hr⟩
  refine fits_getDriverState.bind fun driverState u _ hstate => (hpointer u).bind fun active v hv hactive => ?_
  obtain ⟨s, hs, hread⟩ := hstate
  cases active with
  | none => exact fits_display ⟨⟨s, Set.image_mono hv hs, hread⟩, fun r hash hride => by cases hride⟩
  | some r =>
    refine fits_getRide.bind fun read w hw hfound => ?_
    refine fits_display ⟨⟨s, Set.image_mono (hv.trans hw) hs, hread⟩, fun r' hash hride => ?_⟩
    cases read with
    | none => cases hride
    | some ride =>
      cases hride
      exact ⟨hfound _ rfl, (hactive.mono (Set.image_mono hw)) r rfl⟩

theorem fits_sendCustomerSnapshot : Fits env i (fun _ _ => True) (sendCustomerSnapshot c) seen := by
  have hpointer : Fits env i (fun active past => ∃ s ∈ past, s.customerActiveRide c = active)
      (unshown (redis (.getCustomerActiveRide c))) seen := fits_read fun s past hs => ⟨s, hs, rfl⟩
  refine hpointer.bind fun active u _ hactive => ?_
  cases active with
  | none => trivial
  | some r =>
    refine fits_getRide.bind fun read v hv hfound => ?_
    cases read with
    | none => trivial
    | some ride =>
      obtain ⟨s, hs, hpointer⟩ := hactive
      exact fits_display ⟨hfound ride rfl, s, Set.image_mono hv hs, hpointer⟩

theorem fits_getRideSnapshot {customerId : Option CustomerId} :
    Fits env i (fun _ _ => True) (getRideSnapshot r customerId) seen := by
  cases customerId with
  | none => trivial
  | some c =>
    refine fits_getRide.bind fun read u _ hfound => ?_
    cases read with
    | none => trivial
    | some ride =>
      dsimp only
      split_ifs with hother
      · trivial
      · exact fits_display ⟨hfound ride rfl, not_not.mp hother⟩

theorem fits_getRideStatus {customerId : Option CustomerId} :
    Fits env i (fun _ _ => True) (getRideStatus r customerId) seen := by
  refine Evidence.Cites.tryCatch ?_ fun _ _ _ => fits_display trivial
  cases customerId with
  | none => trivial
  | some c =>
    refine fits_getRide.bind fun read u _ hfound => ?_
    cases read with
    | none => exact fits_display trivial
    | some ride =>
      dsimp only
      split_ifs with hother
      · trivial
      · exact fits_display ⟨ride, hfound ride rfl, congrArg some (not_not.mp hother), rfl, rfl, rfl, rfl⟩

theorem fits_getRideDetails {actorId : Option CustomerId} :
    Fits env i (fun _ _ => True) (getRideDetails r actorId) seen := by
  refine fits_getRide.bind fun read u _ hfound => ⟨trivial, fun s => ?_⟩
  have hle : Set.image DisplayStore.redis u ⊆ Set.image DisplayStore.redis (insert s (insert s u)) :=
    Set.image_mono ((Set.subset_insert _ _).trans (Set.subset_insert _ _))
  cases read with
  | none => trivial
  | some ride =>
    dsimp only [Prog.ret_bind]
    split_ifs with hother
    · trivial
    · refine fits_display ?_
      cases actorId with
      | none => trivial
      | some c => exact ⟨(hfound ride rfl).mono hle, by simpa using hother⟩

theorem fits_code (op : DisplayOp) : Fits env i (fun _ _ => True) (displayCode env op) seen := by
  cases op with
  | call op => exact fits_unshown (recalls_code op)
  | locationHeartbeat d lat lng socketId => exact fits_locationHeartbeat
  | postLocation d lat lng socketId => exact fits_heartbeat.bind fun state u _ hstate => fits_pushLocationIfNeeded hstate
  | connectDriver d socketId =>
    have hrestore : Fits env i (fun _ _ => True) (unshown (discard (restoreDriverSession env d socketId))) seen :=
      fits_unshown (recalls_restoreDriverSession.bind fun _ _ _ _ => trivial)
    have hconnected : Fits env i (fun _ _ => True)
        ((unshown (discard (restoreDriverSession env d socketId))).tryCatch fun _ => .ret ()) seen :=
      hrestore.tryCatch fun _ _ _ => trivial
    exact hconnected.bind fun _ _ _ _ => fits_sendDriverSnapshot
  | connectCustomer c => exact fits_sendCustomerSnapshot
  | subscribeRide c r => exact fits_getRide.bind fun _ _ _ _ => fits_display trivial
  | getRideSnapshot r customerId => exact fits_getRideSnapshot
  | getRideStatus r customerId => exact fits_getRideStatus
  | getRideDetails r actorId => exact fits_getRideDetails

end programs

section onlookers

variable {γ : Type}

theorem quiet_display : (display x).Uses (onlooking env).Quiet := ⟨fun _ _ => rfl, fun _ => trivial⟩

theorem quiet_getRide : (unshown (getRide r)).Uses (onlooking env).Quiet := ⟨fun _ _ => rfl, fun _ => trivial⟩

theorem quiet_getDriverState : (unshown (getDriverState d)).Uses (onlooking env).Quiet := ⟨fun _ _ => rfl, fun _ => trivial⟩

theorem quiet_pushLocationIfNeeded : (pushLocationIfNeeded d state).Uses (onlooking env).Quiet := by
  unfold pushLocationIfNeeded
  cases state.activeRideId with
  | none => trivial
  | some r =>
    refine quiet_getRide.bind fun read => ?_
    cases read with
    | none => trivial
    | some ride =>
      dsimp only
      split_ifs
      · trivial
      · refine ⟨fun j s => ?_, fun allowed => ?_⟩
        · exact displayExec_setLocation.1
        · cases allowed with
          | false => trivial
          | true => exact quiet_display

theorem quiet_sendDriverSnapshot : (sendDriverSnapshot d).Uses (onlooking env).Quiet := by
  refine quiet_getDriverState.bind fun driverState => ⟨fun _ _ => rfl, fun active => ?_⟩
  cases active with
  | none => exact quiet_display
  | some r => exact quiet_getRide.bind fun _ => quiet_display

theorem quiet_sendCustomerSnapshot : (sendCustomerSnapshot c).Uses (onlooking env).Quiet := by
  refine ⟨fun _ _ => rfl, fun active => ?_⟩
  cases active with
  | none => trivial
  | some r =>
    refine quiet_getRide.bind fun read => ?_
    cases read with
    | none => trivial
    | some ride => exact quiet_display

theorem quiet_getRideSnapshot {customerId : Option CustomerId} :
    (getRideSnapshot r customerId).Uses (onlooking env).Quiet := by
  cases customerId with
  | none => trivial
  | some c =>
    refine quiet_getRide.bind fun read => ?_
    cases read with
    | none => trivial
    | some ride =>
      dsimp only
      split_ifs
      · trivial
      · exact quiet_display

theorem quiet_getRideStatus {customerId : Option CustomerId} : (getRideStatus r customerId).Uses (onlooking env).Quiet := by
  refine Prog.Uses.tryCatch ?_ fun _ => quiet_display
  cases customerId with
  | none => trivial
  | some c =>
    refine quiet_getRide.bind fun read => ?_
    cases read with
    | none => exact quiet_display
    | some ride =>
      dsimp only
      split_ifs
      · trivial
      · exact quiet_display

theorem quiet_getRideDetails {actorId : Option CustomerId} : (getRideDetails r actorId).Uses (onlooking env).Quiet := by
  refine quiet_getRide.bind fun read => ⟨fun _ _ => rfl, fun timeline => ?_⟩
  cases read with
  | none => trivial
  | some ride =>
    dsimp only [Prog.ret_bind]
    split_ifs
    · trivial
    · exact quiet_display

theorem follows_unshown (p : App α) (g : α → App Unit) : (onlooking env).Follows (unshown p) (p.bind g) :=
  Onlooking.follows_lift (O := onlooking env) p g

/-- A call performs the commands of the operation that it contains, one after the other. -/
theorem follows_code (op : DisplayOp) : (onlooking env).Follows (displayCode env op) (code env op.base) := by
  cases op with
  | call op =>
    have h : (onlooking env).Follows (unshown (code env op)) ((code env op).bind .ret) := follows_unshown _ _
    rw [Prog.bind_ret] at h
    exact h
  | locationHeartbeat d lat lng socketId =>
    refine Onlooking.Follows.tryCatch (Onlooking.Follows.after quiet_getDriverState fun currentState => ?_) fun _ => trivial
    cases currentState with
    | none => trivial
    | some currentState =>
      dsimp only
      split_ifs
      · trivial
      · exact (follows_unshown _ _).bind fun _ => quiet_pushLocationIfNeeded
  | postLocation d lat lng socketId => exact (follows_unshown _ _).bind fun _ => quiet_pushLocationIfNeeded
  | connectDriver d socketId =>
    have hrestore : (onlooking env).Follows (unshown (discard (restoreDriverSession env d socketId)))
        ((discard (restoreDriverSession env d socketId)).bind .ret) := follows_unshown _ _
    rw [Prog.bind_ret] at hrestore
    have hconnected : (onlooking env).Follows
        ((unshown (discard (restoreDriverSession env d socketId))).tryCatch fun _ => .ret ())
        (discard (restoreDriverSession env d socketId)) := hrestore.tryCatch fun _ => trivial
    exact hconnected.bind fun _ => quiet_sendDriverSnapshot
  | connectCustomer c => exact .quiet quiet_sendCustomerSnapshot
  | subscribeRide c r => exact .quiet (quiet_getRide.bind fun _ => quiet_display)
  | getRideSnapshot r customerId => exact .quiet quiet_getRideSnapshot
  | getRideStatus r customerId => exact .quiet quiet_getRideStatus
  | getRideDetails r actorId => exact .quiet quiet_getRideDetails

end onlookers

section runs

variable {β : Type} {ok : DisplayState → DisplayStep → Prop} {as : List DisplayStep} {q : DisplayState} {s : DisplayStore}
  {k : DisplayCmd β}

theorem fitting_exec (hneeds : (displays env).needs k seen) (hx : x ∈ ((displaySystem env).exec i k s).2.shown) :
    x ∈ s.shown ∨ Fitting (Set.image DisplayStore.redis seen) x := by
  cases k with
  | redis k => exact .inl hx
  | «show» k =>
    cases k with
    | setLocation key =>
      exact .inl (displayExec_setLocation.2 ▸ hx)
    | emit y =>
      rcases List.mem_append.mp hx with hx | hx
      · exact .inl hx
      · rw [List.mem_singleton.mp hx]
        exact .inr hneeds

/-- What is shown in a run fits what was in the store before. -/
theorem fitting_shown (hrun : (displaySystem env).Run ok displayInitial as q) :
    ∀ x ∈ q.store.shown, Fitting (Seen env as) x := by
  refine hrun.last_induction (I := fun as q => ∀ x ∈ q.store.shown, Fitting (Seen env as) x)
    (fun x hx => absurd hx List.not_mem_nil) fun bs a p q hbs hp _ hnext x hx => ?_
  have hle : Seen env bs ⊆ Seen env (bs ++ [a]) := Set.image_mono passed_append
  cases a with
  | call op =>
    cases hnext
    exact (hp x hx).mono hle
  | env e =>
    obtain ⟨t, ht, rfl⟩ := Option.map_eq_some_iff.mp hnext
    obtain ⟨u, hu, rfl⟩ := Option.map_eq_some_iff.mp ht
    exact (hp x hx).mono hle
  | step i =>
    obtain ⟨op, β, k, rest, hi, hstore, -⟩ := System.next_step hnext
    rw [hstore] at hx
    have hthread := Evidence.run (E := displays env) (fun i op past => fits_code op) hbs i op _ hi
    rcases fitting_exec hthread.1 hx with hx | hfits
    · exact (hp x hx).mono hle
    · exact hfits.mono hle

/-- A run with displays is a run of the system. -/
theorem run_of_displays (hrun : (displaySystem env).Run DisplaysServed displayInitial as q) :
    ∃ bs n, (system env).Run RidesServed initial bs n ∧ n.store = q.store.redis ∧ Seen env as = Passed (system env) initial bs := by
  have hinitial : (onlooking env).Shadows DisplayOp.base displayInitial initial :=
    ⟨rfl, rfl, fun i op rest hi => by simp [displayInitial] at hi⟩
  have hok : ∀ (m : DisplayState) (n : State) a, (onlooking env).Shadows DisplayOp.base m n → DisplaysServed m a →
      RidesServed n (a.map DisplayOp.base) := by
    intro m n a _ h
    cases a with
    | call op =>
      -- of the calls only those of the system can be a requeue
      refine ⟨fun r hr => (by cases hr), ?_⟩
      cases op with
      | call op =>
        cases op with
        | requeueRideAfterDriverLoss r d => exact absurd rfl (h.2 r d)
        | _ => rfl
      | _ => rfl
    | step i => exact ⟨fun r hr => (by cases hr), rfl⟩
    | env e =>
      refine ⟨fun r hr => h.1 r ?_, rfl⟩
      cases hr
      rfl
  obtain ⟨bs, n, hbs, hn, hpassed⟩ := Onlooking.Shadows.run follows_code hok hinitial hrun
  exact ⟨bs, n, hbs, hn.store, hpassed⟩

theorem driver_of_refers (hrun : (displaySystem env).Run DisplaysServed displayInitial as q) {t : Store}
    (ht : t ∈ Seen env as) (h : Refers d r t) : (q.store.redis.ride r).driverId = some d := by
  obtain ⟨bs, n, hbs, hstore, hpassed⟩ := run_of_displays hrun
  rw [hpassed] at ht
  rw [← hstore]
  exact (drove_of_refers (hbs.mono fun _ _ h => h.1) ht h).stays hbs

theorem Saw.pointer {bs : List Step} {n : State} {t : Store} {ride : RideHash} (hrun : (system env).Run RideLocksKept initial bs n)
    (hsaw : Saw (Passed (system env) initial bs) r ride) (ht : t ∈ Passed (system env) initial bs)
    (hpointer : t.customerActiveRide c = some r) : ride.customerId = c := by
  have hinv : ∃ k, RideInv False k t := by
    obtain ⟨as, cs, m, rfl, has, rfl⟩ := ht
    have hm : (rides env False).Holds m := rides_kept (hrun.head has) rides_initial
    exact ⟨_, hm.inv⟩
  obtain ⟨k, hinv⟩ := hinv
  obtain ⟨hexist, hcustomer⟩ := hinv.pointers c r hpointer
  have hpointed : Saw (Passed (system env) initial bs) r (t.ride r) := ⟨t, ht, rfl, hexist⟩
  rw [← hcustomer, ← (hsaw.customer hrun).2, (hpointed.customer hrun).2]

end runs

theorem own_displays (env : Env) : OwnDisplays env DisplaysServed := by
  refine ⟨fun as q x c r ride hrun hx hride => ?_, fun as q c r status version driverId updatedAt hrun hx => ?_,
    fun as q d state ride hrun hx => ?_, fun as q c r d lat lng atTime hrun hx => ?_⟩
  · have hfits := fitting_shown hrun x hx
    obtain ⟨bs, n, hbs, hstore, hpassed⟩ := run_of_displays hrun
    cases x with
    | customerSnapshot c' r' ride' =>
      cases hride
      obtain ⟨hsaw, s, hs, hpointer⟩ := hfits
      -- the ride may have changed since the pointer was read, but not its customer
      rw [hpassed] at hsaw hs ⊢
      exact ⟨hsaw, Saw.pointer (hbs.mono fun _ _ h => h.1) hsaw hs hpointer⟩
    | rideSnapshot c' r' ride' =>
      cases hride
      exact hfits
    | rideDetails actorId r' ride' timeline =>
      cases actorId with
      | none => cases hride
      | some c' =>
        cases hride
        exact hfits
    | _ => cases hride
  · exact fitting_shown hrun _ hx
  · obtain ⟨hstate, hall⟩ := fitting_shown hrun _ hx
    refine ⟨hstate, fun r hash hride => ?_⟩
    obtain ⟨hsaw, s, hs, href⟩ := hall r hash hride
    -- the pointer named the ride, and no write makes up such a reference
    exact ⟨hsaw, driver_of_refers hrun hs href⟩
  · obtain ⟨hcustomer, ⟨s, hs, href⟩, hplace⟩ := fitting_shown hrun _ hx
    exact ⟨hcustomer, driver_of_refers hrun hs href, hplace⟩

theorem subscription_shown {ok : DisplayState → DisplayStep → Prop} {p q : DisplayState}
    (h : (displaySystem env).Run ok p (.call (.subscribeRide c r) :: List.replicate 2 (.step p.threads.length)) q) :
    .subscription c r (toRideSnapshot (p.store.redis.ride r)) ∈ q.store.shown := by
  rw [h.called.1]
  exact List.mem_append_right _ (List.mem_singleton.mpr rfl)

end YatriGo
