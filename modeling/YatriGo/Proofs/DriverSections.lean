import YatriGo.Proofs.Offline

/-! The sections under the lock of one driver. What an operation does to the driver's presence it does in
such a section, except for the releases; and two threads are never in sections of the same driver. -/

namespace YatriGo
open Concurrent

/-- What a command of client `i` can be answered: a fresh id is its own. -/
def Cmd.answers (i : ℕ) : ⦃β : Type⦄ → Cmd β → β → Prop
  | _, .uuidv4, u => u.client = i
  | _, _, _ => True

/-- The token under which the client holds the lock of `d` after the command. -/
def Cmd.held (d : DriverId) (held : Option Uuid) : ⦃β : Type⦄ → Cmd β → β → Option Uuid
  | _, .setNX key (.uuid u) _, ok => if key = .driver d ∧ ok = true then some u else held
  | _, .evalReleaseLock key _, _ => if key = .driver d then none else held
  | _, _, _ => held

/-- The command can be performed outside the sections of `d`, or starts one. -/
def Cmd.outside (d : DriverId) (i : ℕ) : ⦃β : Type⦄ → Cmd β → Prop
  | _, .setNX key token _ => key = .driver d → token.ownedBy i
  | _, c => c.elsewhere d

/-- The command can be performed in a section of `d` entered with the token `u`, or ends it. -/
def Cmd.inside (d : DriverId) (u : Uuid) : ⦃β : Type⦄ → Cmd β → Prop
  | _, .evalReleaseLock key token => key = .driver d → token = .uuid u
  | _, c => c.lockOf ≠ some (.driver d)

def Cmd.fits (d : DriverId) (i : ℕ) (held : Option Uuid) ⦃β : Type⦄ (c : Cmd β) : Prop :=
  match held with
  | none => c.outside d i
  | some u => c.inside d u

/-- The write of `goOffline`. -/
def Cmd.takesOffline (d : DriverId) : ⦃β : Type⦄ → Cmd β → Prop
  | _, .multi ws => ∃ existing activeRideId now, ws = offlineWrites d existing activeRideId now
  | _, _ => False

/-- The program keeps to the lock of `d`, which its client holds under `held`. If `strict`, it leaves the
driver offline from wherever it is outside a section, and after each write that takes the driver offline. -/
def Watch (env : Env) (d : DriverId) (i : ℕ) (strict : Prop) {α : Type} : App α → Option Uuid → Prop
  | .ret _, held => held = none
  | .throw _, held => held = none
  | .cmd c k, held => c.fits d i held ∧
    (strict → (held = none → StaysOff env d i (.cmd c k)) ∧ (c.takesOffline d → ∀ b, StaysOff env d i (k b))) ∧
    ∀ b, c.answers i b → Watch env d i strict (k b) (c.held d held b)

/-- A section: the program leaves the lock of `d` alone. -/
def InSection (env : Env) (d : DriverId) (i : ℕ) (strict : Prop) {α : Type} : App α → Prop
  | .ret _ => True
  | .throw _ => True
  | .cmd c k => c.lockOf ≠ some (.driver d) ∧
    (strict → c.takesOffline d → ∀ b, StaysOff env d i (k b)) ∧ ∀ b, InSection env d i strict (k b)

/-- `goOnline` of `d`. -/
def Op.onlines (d : DriverId) : Op → Bool
  | .goOnline d' .. => d' = d
  | _ => false

variable {env : Env} {d d' : DriverId} {i j : ℕ} {strict : Prop} {held : Option Uuid} {u : Uuid} {α β : Type}
  {p : App α} {f : α → App β} {s : Store} {c : Cmd β}

theorem held_eq (h : c.lockOf ≠ some (.driver d)) {b : β} : c.held d held b = held := by
  cases c with
  | setNX key token ttl =>
    have hkey : key ≠ .driver d := fun heq => h (congrArg some heq)
    cases token with
    | uuid u => exact if_neg fun hok => hkey hok.1
    | reservation r batchId => rfl
  | evalReleaseLock key token =>
    have hkey : key ≠ .driver d := fun heq => h (congrArg some heq)
    exact if_neg hkey
  | _ => rfl

theorem Cmd.elsewhere.lockOf (h : c.elsewhere d) : c.lockOf ≠ some (.driver d) := by
  intro heq
  cases c with
  | setNX key token ttl => exact h (Option.some_inj.mp heq)
  | evalReleaseLock key token => exact h (Option.some_inj.mp heq)
  | _ => cases heq

theorem Cmd.elsewhere.outside (h : c.elsewhere d) : c.outside d i := by
  cases c with
  | setNX key token ttl => exact fun heq => absurd heq h
  | _ => exact h

theorem inside_of_lockOf (h : c.lockOf ≠ some (.driver d)) : c.inside d u := by
  cases c with
  | evalReleaseLock key token => exact fun heq => absurd (congrArg some heq) h
  | _ => exact h

theorem takesOffline_not_outside (h : c.takesOffline d) : ¬ c.outside d i := by
  intro hout
  cases c with
  | multi ws =>
    obtain ⟨existing, activeRideId, now, heq⟩ := h
    have hws : ElsewhereWrites d ws := hout
    cases hws with
    | elsewhere hws =>
      have hmem : Write.hsetDriver d [.status .offline, .lat (.ofNumber (existing.bind DriverState.lat)),
          .lng (.ofNumber (existing.bind DriverState.lng)), .socketId none, .activeRideId activeRideId,
          .lastHeartbeatAt (some now), .updatedAt now] ∈ ws := by
        rw [heq]
        simp only [offlineWrites, List.mem_cons, or_true, true_or]
      exact hws _ hmem rfl
    | release r hash active heartbeatExists now' => simp [releaseWrites, offlineWrites] at heq
  | _ => exact h

theorem Watch.staysOff (h : Watch env d i strict p none) (hstrict : strict) : StaysOff env d i p := by
  cases p with
  | ret a => exact staysOff_ret
  | throw e => exact staysOff_throw
  | cmd c k => exact (h.2.1 hstrict).1 rfl

theorem Watch.bind (hp : Watch env d i strict p held) (hf : ∀ a, Watch env d i strict (f a) none) :
    Watch env d i strict (p.bind f) held := by
  induction p generalizing held with
  | ret a =>
    have hend : held = none := hp
    rw [hend]
    exact hf a
  | throw e => exact hp
  | cmd c k ih =>
    obtain ⟨hfits, hstays, hk⟩ := hp
    have hrest : strict → ∀ a, StaysOff env d i (f a) := fun hstrict a => (hf a).staysOff hstrict
    refine ⟨hfits, fun hstrict => ⟨fun hnone => ?_, fun ht b => ?_⟩, fun b hb => ih b (hk b hb)⟩
    · exact ((hstays hstrict).1 hnone).bind (hrest hstrict)
    · exact ((hstays hstrict).2 ht b).bind (hrest hstrict)

theorem Elsewhere.watch (h : Elsewhere d p) : Watch env d i strict p none := by
  induction p with
  | ret a => rfl
  | throw e => rfl
  | cmd c k ih =>
    have hc : c.elsewhere d := h.1
    refine ⟨hc.outside, fun _ => ⟨fun _ => h.staysOff, fun _ b => Elsewhere.staysOff (h.2 b)⟩, fun b _ => ?_⟩
    rw [held_eq hc.lockOf]
    exact ih b (h.2 b)

/-- A section ends with the release of the lock, however its program ends. -/
theorem InSection.release (h : InSection env d i strict p) :
    Watch env d i strict (p.tryFinally (releaseLock (.driver d) (.uuid u))) (some u) := by
  have hrelease : ∀ q : App α, Watch env d i strict q none →
      Watch env d i strict ((releaseLock (.driver d) (.uuid u)).bind fun _ => q) (some u) := by
    intro q hq
    refine ⟨fun _ => rfl, fun _ => ⟨fun hsome => (by cases hsome), fun ht => (by cases ht)⟩, fun b _ => ?_⟩
    show Watch env d i strict q (if LockKey.driver d = .driver d then none else some u)
    rw [if_pos rfl]
    exact hq
  induction p with
  | ret a => exact hrelease _ rfl
  | throw e => exact hrelease _ rfl
  | cmd c k ih =>
    obtain ⟨hc, hoffline, hk⟩ := h
    refine ⟨inside_of_lockOf hc, fun hstrict => ⟨fun hsome => (by cases hsome), fun ht b => ?_⟩, fun b _ => ?_⟩
    · exact (hoffline hstrict ht b).tryFinally staysOff_releaseLock
    · rw [held_eq hc]
      exact ih b (hk b)

theorem watch_withLock {ttlMs : ℕ} {fn : App α} (hfn : InSection env d i strict fn)
    (hstays : strict → StaysOff env d i fn) : Watch env d i strict (withLock (.driver d) ttlMs fn) none := by
  rw [withLock_eq]
  have hsection : ∀ u, strict → StaysOff env d i
      ((fn.tryFinally (releaseLock (.driver d) (.uuid u))).bind fun result => .ret (some result)) := by
    intro u hstrict
    exact ((hstays hstrict).tryFinally staysOff_releaseLock).bind fun _ => staysOff_ret
  have hacquire : ∀ u, strict → StaysOff env d i (.cmd (.setNX (.driver d) (.uuid u) ttlMs) fun ok =>
      if ok then (fn.tryFinally (releaseLock (.driver d) (.uuid u))).bind fun result => .ret (some result)
      else .ret none) := by
    intro u hstrict
    refine staysOff_cmd trivial fun ok => ?_
    split_ifs
    · exact hsection u hstrict
    · exact staysOff_ret
  refine ⟨trivial, fun hstrict => ⟨fun _ => staysOff_cmd trivial fun u => hacquire u hstrict,
    fun ht => (by cases ht)⟩, fun u hu => ?_⟩
  refine ⟨fun _ => ⟨u, rfl, hu⟩, fun hstrict => ⟨fun _ => hacquire u hstrict, fun ht => (by cases ht)⟩, fun ok _ => ?_⟩
  cases ok with
  | false =>
    show (if LockKey.driver d = .driver d ∧ false = true then some u else none) = none
    exact if_neg fun hok => Bool.false_ne_true hok.2
  | true =>
    show Watch env d i strict ((fn.tryFinally (releaseLock (.driver d) (.uuid u))).bind fun result =>
      .ret (some result)) (if LockKey.driver d = .driver d ∧ true = true then some u else none)
    rw [if_pos ⟨rfl, rfl⟩]
    exact hfn.release.bind fun _ => rfl

theorem watch_withRetryLock {fn : App (Option α)} (h : Watch env d i strict fn none) (n : ℕ) :
    Watch env d i strict (withRetryLock fn n) none := by
  induction n with
  | zero => rfl
  | succ n ih =>
    refine h.bind fun result => ?_
    cases result with
    | none => exact ih
    | some result => rfl

section operations

variable {lat lng : Option ℚ} {socketId : Option SocketId}

theorem not_takesOffline_persist {state : DriverState} :
    ¬ Cmd.takesOffline d (.multi (persistWrites env d' state)) := by
  rintro ⟨existing, activeRideId, now, heq⟩
  simp [persistWrites, offlineWrites] at heq

theorem inSection_persist {k : Unit → App α} {state : DriverState} (hk : ∀ b, InSection env d i strict (k b)) :
    InSection env d i strict ((persistDriverRealtimeState env d' state).bind k) :=
  ⟨by rintro ⟨⟩, fun _ ht => absurd ht not_takesOffline_persist, hk⟩

theorem inSection_read {c : Cmd β} {k : β → App α} (hc : c.lockOf ≠ some (.driver d))
    (ht : ¬ c.takesOffline d) (hk : ∀ b, InSection env d i strict (k b)) :
    InSection env d i strict ((redis c).bind k) := ⟨hc, fun _ h => absurd h ht, hk⟩

theorem Slight.inSection (h : Slight p) : InSection env d i strict p := by
  induction p with
  | ret a => trivial
  | throw e => trivial
  | cmd c k ih =>
    have hc : c.elsewhere d := (Slight.elsewhere h).1
    refine ⟨hc.lockOf, fun _ _ b => Elsewhere.staysOff (Slight.elsewhere (h.2 b)), fun b => ih b (h.2 b)⟩

theorem watch_goOnline (hloose : d' = d → ¬ strict) :
    Watch env d i strict (goOnline env d' lat lng socketId) none := by
  rcases eq_or_ne d' d with rfl | hne
  · have hstrict : ¬ strict := hloose rfl
    refine (watch_withRetryLock (watch_withLock ?_ fun h => absurd h hstrict) 3).bind fun result => ?_
    · refine inSection_read (by rintro ⟨⟩) id fun hash => inSection_read (by rintro ⟨⟩) id fun activeRide => ?_
      exact inSection_read (by rintro ⟨⟩) id fun now => inSection_persist fun _ => trivial
    · apply Elsewhere.watch
      refine ⟨trivial, fun driverExists => ?_⟩
      cases driverExists with
      | false => trivial
      | true =>
        cases result with
        | none => trivial
        | some result =>
          exact Slight.elsewhere (slight_enqueueDriverSync.bind fun _ => slight_publish.bind fun _ => trivial)
  · exact (elsewhere_goOnline hne).watch

/-- A heartbeat finds an offline driver OFFLINE, under the driver's lock. -/
theorem watch_heartbeat : Watch env d i strict (heartbeat env d' lat lng socketId) none := by
  rcases eq_or_ne d' d with rfl | hne
  · refine (watch_withRetryLock (watch_withLock ?_ fun _ => ?_) 3).bind fun result => ?_
    · refine inSection_read (by rintro ⟨⟩) id fun hash => ?_
      cases toDriverSnapshot hash with
      | none => trivial
      | some existing =>
        simp only [Prog.pure_eq]
        split_ifs
        · trivial
        · exact inSection_read (by rintro ⟨⟩) id fun now => inSection_persist fun _ => trivial
    · refine staysOff_getDriverState fun state hstatus => ?_
      dsimp only
      rw [if_pos hstatus]
      exact staysOff_ret
    · cases result with
      | none => rfl
      | some result => exact slight_enqueueDriverSync.elsewhere.watch.bind fun _ => rfl
  · exact (elsewhere_heartbeat hne).watch

theorem watch_restoreDriverSession : Watch env d i strict (restoreDriverSession env d' socketId) none := by
  rcases eq_or_ne d' d with rfl | hne
  · refine (watch_withLock ?_ fun _ => ?_).bind fun result => ?_
    · refine inSection_read (by rintro ⟨⟩) id fun hash => ?_
      cases toDriverSnapshot hash with
      | none => trivial
      | some existing =>
        simp only [Prog.pure_eq]
        split_ifs
        · trivial
        · exact inSection_read (by rintro ⟨⟩) id fun now => inSection_persist fun _ => trivial
    · refine staysOff_getDriverState fun state hstatus => ?_
      dsimp only
      rw [if_pos hstatus]
      exact staysOff_ret
    · cases result.join with
      | none => rfl
      | some result => exact slight_enqueueDriverSync.elsewhere.watch.bind fun _ => rfl
  · exact (elsewhere_restoreDriverSession hne).watch

theorem watch_goOffline : Watch env d i strict (goOffline env d') none := by
  rcases eq_or_ne d' d with rfl | hne
  · have hend : ∀ now impact, Slight ((emitDriverStateUpdate d' now).bind fun _ => (.ret impact : App OfflineImpact)) :=
      fun _ _ => slight_publish.bind fun _ => trivial
    refine (watch_withLock ?_ fun _ => staysOff_uses ?_).bind fun result => ?_
    · refine inSection_read (by rintro ⟨⟩) id fun hash => inSection_read (by rintro ⟨⟩) id fun pendingRideIds => ?_
      refine inSection_read (by rintro ⟨⟩) id fun activeRide => inSection_read (by rintro ⟨⟩) id fun now => ?_
      exact ⟨by rintro ⟨⟩, fun _ _ _ => (hend _ _).elsewhere.staysOff, fun _ => (hend _ _).inSection⟩
    · refine ⟨trivial, fun hash => ⟨trivial, fun pendingRideIds => ⟨trivial, fun activeRide => ⟨trivial, fun now => ?_⟩⟩⟩⟩
      exact ⟨Or.inr ⟨_, _, _, rfl⟩, fun _ => (hend _ _).elsewhere.silent⟩
    · cases result with
      | none => rfl
      | some result =>
        have hsync : Elsewhere d' (Prog.cmd .now fun now => enqueueDriverSync d' .offline (some now)) :=
          ⟨trivial, fun _ => slight_enqueueDriverSync.elsewhere⟩
        exact hsync.watch.bind fun _ => rfl
  · exact (elsewhere_goOffline hne).watch

theorem watch_scanStaleDriversLoop (ds : List DriverId) :
    Watch env d i strict (scanStaleDriversLoop env ds) none := by
  induction ds with
  | nil => rfl
  | cons d' ds ih =>
    have hread : Elsewhere d (redis (.existsHeartbeat d')) := elsewhere_redis (by trivial)
    refine hread.watch.bind fun heartbeatExists => ?_
    cases heartbeatExists with
    | true => exact ih
    | false =>
      refine watch_goOffline.bind fun impact => ?_
      have hdoc : Elsewhere d (redis (.updateDriverDocStatus d' .offline)) := elsewhere_redis (by trivial)
      exact hdoc.watch.bind fun _ => ih.bind fun _ => rfl

theorem watch_discard (h : Watch env d i strict p none) : Watch env d i strict (discard p) none :=
  h.bind fun _ => rfl

/-- Every operation but `goOnline` leaves an offline driver offline from wherever it is outside a section. -/
theorem watch_code (op : Op) (hloose : op.onlines d = true → ¬ strict) :
    Watch env d i strict (code env op) none := by
  cases op with
  | requestRide c origin destination metadata => exact watch_discard elsewhere_requestRide.watch
  | startDispatch r => exact watch_discard elsewhere_startDispatch.watch
  | handleBatchTimeout r batchId => exact watch_discard elsewhere_handleBatchTimeout.watch
  | handleDriverRejection r d' reason => exact watch_discard elsewhere_handleDriverRejection.watch
  | acceptRide r d' => exact watch_discard elsewhere_acceptRide.watch
  | markDriverArriving r d' => exact watch_discard elsewhere_transitionByDriver.watch
  | startRide r d' => exact watch_discard elsewhere_transitionByDriver.watch
  | completeRide r d' => exact watch_discard elsewhere_transitionByDriver.watch
  | cancelRide r actorType actorId reason => exact watch_discard elsewhere_cancelRide.watch
  | requeueRideAfterDriverLoss r d' => exact watch_discard elsewhere_requeueRideAfterDriverLoss.watch
  | goOnline d' lat lng socketId =>
    exact watch_discard (watch_goOnline fun heq => hloose (decide_eq_true heq))
  | heartbeat d' lat lng socketId => exact watch_discard watch_heartbeat
  | goOffline d' => exact watch_discard watch_goOffline
  | goOfflineAndDrop d' reason => exact watch_goOffline.bind fun _ => elsewhere_handleDriverDrop.watch
  | restoreDriverSession d' socketId => exact watch_discard watch_restoreDriverSession
  | scanStaleDriversAndRecover =>
    have hread : Elsewhere d (redis .smembersOnline) := elsewhere_redis (by trivial)
    have hscan : Watch env d i strict (scanStaleDrivers env) none :=
      hread.watch.bind fun ds => watch_scanStaleDriversLoop ds
    refine hscan.bind fun staleDrivers => Elsewhere.watch ?_
    exact .forEach fun _ _ => elsewhere_handleDriverDrop
  | recoverDispatchingRides => exact slight_recoverDispatchingRides.elsewhere.watch
  | work job => exact elsewhere_work.watch

end operations

end YatriGo
