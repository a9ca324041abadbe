import YatriGo.Concurrent.Sequential
import YatriGo.Proofs.Asked
import YatriGo.Proofs.Ledger
import YatriGo.Proofs.Locking

/-! Walking through an operation that runs alone: the invariant it starts from, what may
happen meanwhile, and one rule for each kind of command. -/

namespace YatriGo
open Concurrent

/-- A statement about the store that neither the commands around an operation nor time
changes. -/
structure Assertion where
  holds : Store → Prop
  steady : ∀ {s t : Store}, Still s t → holds s → holds t

instance : CoeFun Assertion fun _ => Store → Prop := ⟨Assertion.holds⟩

/-- What stays the same around a part of an operation: who holds the locks, and that the
time `since` has come. -/
structure Around where
  locks : LockKey → Option Lease
  since : Time

/-- The sets that operations go through have no duplicates. -/
structure Sets (s : Store) : Prop where
  pending : ∀ d, (s.driverPendingDispatches d).Nodup
  online : (s.driverSet .online).Nodup

/-- All locks but the reservations are as in `m`, and the time of `m` has come. -/
structure Within (env : Env) (m : Around) (s : Store) : Prop where
  locks : ∀ k : LockKey, k.mutex → s.locks k = m.locks k
  since : m.since ≤ s.clock
  sets : Sets s
  asked : Asked env s

def unlocked : Around := ⟨fun _ => none, 0⟩

def stand (strict : Prop) (X : DriverId → RideId → Prop) (L L₁ : Ledger)
    (O : RideId → BatchId → DriverId → Prop) (L₃ : Ledger) : Assertion where
  holds := Stand strict X L L₁ O L₃
  steady := fun hst h => h.still hst

/-- All keys agree with the rides as they are. -/
abbrev even (strict : Prop) (X : DriverId → RideId → Prop) (L : Ledger) : Assertion :=
  stand strict X L L L.Offers L

def settled (strict : Prop) (X : DriverId → RideId → Prop) : Assertion where
  holds := fun s => ∃ L, even strict X L s
  steady := fun hst ⟨L, h⟩ => ⟨L, h.still hst⟩

def never : Assertion where
  holds := fun _ => False
  steady := fun _ => id

def Assertion.with (A : Assertion) (φ : Prop) : Assertion where
  holds := fun s => A s ∧ φ
  steady := fun hst h => ⟨A.steady hst h.1, h.2⟩

/-- The offers that are being withdrawn. -/
def withdrawing (offers : List (DriverId × RideId)) : DriverId → RideId → Prop :=
  fun d r => (d, r) ∈ offers

abbrev noOffer : DriverId → RideId → Prop := withdrawing []

/-- The offer of the ride to the driver is live. -/
def offerLive (s : Store) (r : RideId) (d : DriverId) : Bool :=
  decide ((s.ride r).status = some .dispatching) &&
    ((s.ride r).currentBatchId.any fun b => decide (s.rideResponses r d = some (.pending b))) &&
    decide (s.clock < (s.ride r).currentBatchExpiresAt.getD 0)

/-- Neither a cleanup of a driver who has a live offer, nor a rejection whose reason is the
text of a pending response. -/
def Cmd.fair (s : Store) : ⦃β : Type⦄ → Cmd β → Bool
  | _, .multi [.srem .available d, .srem .busy _, .srem .online _, .zremGeo _, .delHeartbeat _,
      .delReservation _] => (s.driverPendingDispatches d).all fun r => !offerLive s r d
  | _, .multi [.hsetResponse r _ (.pending b), .sremPending .., .hsetRide ..] =>
    decide (b.seq < s.nextSeq) && decide ((s.ride r).currentBatchId ≠ some b)
  | _, _ => true

/-- `goOffline` comes with the withdrawal of the driver's offers. -/
def Op.complete : Op → Bool
  | .goOffline _ => false
  | _ => true

def Event.passes : Event → Prop
  | .tick _ => True
  | _ => False

/-- Only the clock moves on. -/
def Drift (s t : Store) : Prop := s.clock ≤ t.clock ∧ t = { s with clock := t.clock }

theorem Drift.still {s t : Store} (h : Drift s t) : Still s t := by
  obtain ⟨hclock, ht⟩ := h
  rw [ht]
  exact ⟨⟨⟨le_rfl, rfl, rfl, rfl, rfl, rfl, rfl, rfl, rfl, rfl, rfl⟩, fun _ => rfl⟩, hclock⟩

theorem Drift.locks {s t : Store} (h : Drift s t) : t.locks = s.locks := by
  rw [h.2]

/-- Operations one after the other, with or without following the live offers. -/
def serial (env : Env) (strict : Prop) : Serial (system env) where
  inv := fun s => settled strict noOffer s ∧ Within env unlocked s
  drift := Drift
  assume := fun _ c s => strict → c.fair s = true
  okOp := fun op => strict → op.complete = true
  calm := Event.passes
  refl := fun s => ⟨le_rfl, rfl⟩
  trans := fun h₁ h₂ => ⟨h₁.1.trans h₂.1, by
    rw [h₂.2, h₁.2]⟩

/-- Run alone from `s`, with the locks as in `m`, the program ends in `Q` and leaves these
locks as they were. -/
def Leads (env : Env) (strict : Prop) (i : ℕ) (m : Around) {α : Type}
    (Q : Except AppError α → Assertion) (p : App α) (s : Store) : Prop :=
  Within env m s → ((serial env strict).view i).Safe (fun r t => Q r t ∧ Within env m t) p s

def Write.gentle : Write → Prop
  | .expireRide _ => True
  | .rpushTimeline .. => True
  | .setRejectCooldown .. => True
  | _ => False

/-- Commands that neither take locks nor touch a key that the invariants depend on. -/
def Cmd.gentle : ⦃β : Type⦄ → Cmd β → Prop
  | _, .multi ws => ∀ w ∈ ws, w.gentle
  | _, .setNX .. => False
  | _, .evalReleaseLock .. => False
  | _, .evalAcceptRide .. => False
  | _, _ => True

/-- The program changes nothing of concern, and returns. -/
structure Gentle {α : Type} (p : App α) : Prop where
  uses : p.Uses Cmd.gentle
  returns : p.NoThrow

variable {env : Env} {strict : Prop} {i : ℕ} {m : Around} {α β : Type}
  {Q R : Except AppError α → Assertion} {A B : Assertion} {s t : Store}

theorem Sets.of_eq (h : Sets s) (hpending : t.driverPendingDispatches = s.driverPendingDispatches)
    (honline : t.driverSet .online = s.driverSet .online) : Sets t where
  pending := by rw [hpending]; exact h.pending
  online := by rw [honline]; exact h.online

theorem Within.drift (h : Within env m s) (ht : Drift s t) : Within env m t where
  locks := fun k hk => by rw [ht.locks]; exact h.locks k hk
  since := h.since.trans ht.1
  sets := h.sets.of_eq (by rw [ht.2]) (by rw [ht.2])
  asked := h.asked.same (by rw [ht.2]) (by rw [ht.2])

section sets

variable {ν : Type} [DecidableEq ν] {x : ν} {xs : List ν}

theorem nodup_sadd (h : xs.Nodup) : (sadd x xs).Nodup := by
  unfold sadd
  split_ifs with hx
  · exact h
  · exact List.nodup_append.mpr ⟨h, List.nodup_singleton x, fun y hy z hz => by
      rw [List.mem_singleton.mp hz]
      exact ne_of_mem_of_not_mem hy hx⟩

theorem nodup_srem (h : xs.Nodup) : (srem x xs).Nodup := h.filter _

end sets

theorem sets_write {w : Write} (h : Sets s) : Sets (w.apply s) := by
  have hput : ∀ d xs, xs.Nodup → ∀ d', (put s.driverPendingDispatches d xs d').Nodup := by
    intro d xs hxs d'
    rw [put_apply]
    split_ifs
    · exact hxs
    · exact h.pending d'
  cases w with
  | sadd p d => cases p with
    | online => exact ⟨h.pending, nodup_sadd h.online⟩
    | available => exact ⟨h.pending, h.online⟩
    | busy => exact ⟨h.pending, h.online⟩
  | srem p d => cases p with
    | online => exact ⟨h.pending, nodup_srem h.online⟩
    | available => exact ⟨h.pending, h.online⟩
    | busy => exact ⟨h.pending, h.online⟩
  | saddPending d r => exact ⟨hput d _ (nodup_sadd (h.pending d)), h.online⟩
  | sremPending d r => exact ⟨hput d _ (nodup_srem (h.pending d)), h.online⟩
  | _ => exact ⟨h.pending, h.online⟩

theorem exec_sets {c : Cmd β} (h : Sets s) : Sets (exec env i c s).2 := by
  have hsame : c.single → _ := @exec_sameKeys s env i β c
  cases c with
  | multi ws =>
    clear hsame
    show Sets (s.multi ws)
    induction ws generalizing s with
    | nil => exact h
    | cons w ws ih => exact ih (sets_write h)
  | evalAcceptRide r d acceptedAt reservation =>
    simp only [exec, acceptRideScript]
    split_ifs
    · exact h
    · refine ⟨fun d' => ?_, h.online⟩
      show (put s.driverPendingDispatches d (srem r (s.driverPendingDispatches d)) d').Nodup
      rw [put_apply]
      split_ifs
      · exact nodup_srem (h.pending d)
      · exact h.pending d'
  | _ =>
    refine ⟨fun d => ?_, ?_⟩
    · rw [(hsame trivial).pending]
      exact h.pending d
    · rw [(hsame trivial).driverSet]
      exact h.online

theorem exec_clock {c : Cmd β} : (exec env i c s).2.clock = s.clock := by
  have hmulti : ∀ (ws : List Write) (u : Store), (u.multi ws).clock = u.clock := by
    intro ws
    induction ws with
    | nil => exact fun _ => rfl
    | cons w ws ih =>
      intro u
      rw [multi_cons, ih]
      cases w <;> rfl
  have hclerical : c.clerical → _ := @exec_clerical s env i β c
  cases c with
  | multi ws => exact hmulti ws s
  | setNX key token ttl =>
    obtain ⟨locks, hl⟩ := @exec_setNX_eq key token s env i ttl
    rw [hl]
  | evalReleaseLock key token =>
    obtain ⟨locks, hl⟩ : ∃ locks, (releaseLockScript key token s).2 = { s with locks } :=
      releaseLockScript_eq
    simp only [exec, hl]
  | evalAcceptRide r d acceptedAt reservation =>
    simp only [exec, acceptRideScript]
    split_ifs <;> rfl
  | uuidv4 => rfl
  | upsertRideDoc r fields ds timeline => rfl
  | upsertDriverDoc d doc => rfl
  | updateDriverDocStatus d status => rfl
  | _ =>
    obtain ⟨idempotency, published, jobs, heq⟩ := hclerical trivial
    rw [heq]

theorem Cmd.gentle.lockOf {c : Cmd β} (h : c.gentle) (k : LockKey) : c.lockOf ≠ some k := by
  cases c <;> first | exact h.elim | exact (Option.some_ne_none _).symm

theorem Cmd.lockless {c : Cmd β} (h : c.lockOf = none) : ∀ k : LockKey, k.mutex → c.lockOf ≠ some k := by
  intro k _ hk
  rw [h] at hk
  cases hk

theorem Still.trans {u : Store} (h₁ : Still s t) (h₂ : Still t u) : Still s u :=
  ⟨h₁.toSameRefs.trans h₂.toSameRefs, h₁.clock.trans h₂.clock⟩

theorem still_multi {ws : List Write} (h : ∀ w ∈ ws, w.gentle) : Still s (s.multi ws) := by
  induction ws generalizing s with
  | nil => exact Still.refl
  | cons w ws ih =>
    have hw : Still s (w.apply s) := by
      have hg : w.gentle := h w List.mem_cons_self
      cases w with
      | expireRide r => exact Still.refl
      | rpushTimeline r e =>
        exact ⟨⟨⟨le_rfl, rfl, rfl, rfl, rfl, rfl, rfl, rfl, rfl, rfl, rfl⟩, fun _ => rfl⟩, le_rfl⟩
      | setRejectCooldown d ttl =>
        exact ⟨⟨⟨le_rfl, rfl, rfl, rfl, rfl, rfl, rfl, rfl, rfl, rfl, rfl⟩, fun _ => rfl⟩, le_rfl⟩
      | _ => exact hg.elim
    exact hw.trans (ih fun v hv => h v (List.mem_cons_of_mem _ hv))

theorem exec_gentle {c : Cmd β} (h : c.gentle) : Still s (exec env i c s).2 := by
  cases c with
  | multi ws => exact still_multi h
  | setNX key token ttl => exact h.elim
  | evalReleaseLock key token => exact h.elim
  | evalAcceptRide r d acceptedAt reservation => exact h.elim
  | _ => exact ⟨exec_quiet trivial, exec_clock.symm.le⟩

theorem asked_gentle {c : Cmd β} (h : c.gentle) (hasked : Asked env s) : Asked env (exec env i c s).2 := by
  have hsame : Still s (exec env i c s).2 := exec_gentle h
  exact hasked.same hsame.ride hsame.responses

namespace Leads

theorem mono {p : App α} (h : Leads env strict i m R p s) (himp : ∀ r t, R r t → Q r t) :
    Leads env strict i m Q p s :=
  fun hm => (h hm).mono fun r t ht => ⟨himp r t ht.1, ht.2⟩

theorem ret {a : α} (h : Q (.ok a) s) : Leads env strict i m Q (.ret a) s := by
  intro hm t ht
  exact ⟨(Q _).steady (Drift.still ht) h, hm.drift ht⟩

theorem throw {e : AppError} (h : Q (.error e) s) : Leads env strict i m Q (.throw e) s := by
  intro hm t ht
  exact ⟨(Q _).steady (Drift.still ht) h, hm.drift ht⟩

theorem perform {c : Cmd β} {f : β → App α} (hlock : ∀ k : LockKey, k.mutex → c.lockOf ≠ some k) (h : A s)
    (hasked : ∀ t, A t → Asked env t → Asked env (exec env i c t).2)
    (next : ∀ t, A t → (strict → c.fair t = true) →
      Leads env strict i m Q (f (exec env i c t).1) (exec env i c t).2) :
    Leads env strict i m Q (.cmd c f) s := by
  intro hm t ht hfair
  have hA : A t := A.steady (Drift.still ht) h
  have hmt : Within env m (exec env i c t).2 :=
    have hmt := hm.drift ht
    ⟨fun k hk => (exec_locks hk (hlock k hk)).trans (hmt.locks k hk), by rw [exec_clock]; exact hmt.since,
      exec_sets hmt.sets, hasked t hA hmt.asked⟩
  exact ⟨trivial, next t hA hfair hmt⟩

theorem cmd {c : Cmd β} {f : β → App α} (hlock : ∀ k : LockKey, k.mutex → c.lockOf ≠ some k) (hsingle : c.single)
    (h : A s) (next : ∀ t, A t → (strict → c.fair t = true) →
      Leads env strict i m Q (f (exec env i c t).1) (exec env i c t).2) :
    Leads env strict i m Q (.cmd c f) s :=
  perform hlock h (fun _ _ hasked => asked_single hsingle hasked) next

theorem read {c : Cmd β} {f : β → App α} {v : Store → β} (hc : ∀ t, exec env i c t = (v t, t))
    (hlock : c.gentle) (h : A s) (next : ∀ t, A t → Leads env strict i m Q (f (v t)) t) :
    Leads env strict i m Q (.cmd c f) s := by
  refine perform (fun k _ => hlock.lockOf k) h (fun t _ hasked => by rw [hc]; exact hasked) fun t ht _ => ?_
  rw [hc]
  exact next t ht

theorem within {p : App α} (h : Within env m s → Leads env strict i m Q p s) :
    Leads env strict i m Q p s := fun hm => h hm hm

theorem now {f : Time → App α} (h : A s)
    (next : ∀ t, A t → Leads env strict i ⟨m.locks, t.clock⟩ Q (f t.clock) t) :
    Leads env strict i m Q (.cmd .now f) s := by
  intro hm t ht _
  have hmt : Within env m t := hm.drift ht
  refine ⟨trivial, (next t (A.steady (Drift.still ht) h) ⟨hmt.locks, le_rfl, hmt.sets, hmt.asked⟩).mono fun r u hu => ?_⟩
  exact ⟨hu.1, hu.2.locks, hmt.since.trans hu.2.since, hu.2.sets, hu.2.asked⟩

theorem multi {ws : List Write} {f : Unit → App α} (h : A s)
    (hasked : ∀ t, A t → Asked env t → Asked env (t.multi ws))
    (hw : ∀ t, A t → (strict → (Cmd.multi ws).fair t = true) → B (t.multi ws))
    (next : ∀ t, B t → Leads env strict i m Q (f ()) t) :
    Leads env strict i m Q (.cmd (.multi ws) f) s := by
  refine perform (Cmd.lockless rfl) h hasked fun t ht hfair => ?_
  exact next _ (hw t ht hfair)

theorem writes {ws : List Write} {f : Unit → App α} (h : A s) (hws : ∀ w ∈ ws, w.offstage)
    (hw : ∀ t, A t → (strict → (Cmd.multi ws).fair t = true) → B (t.multi ws))
    (next : ∀ t, B t → Leads env strict i m Q (f ()) t) :
    Leads env strict i m Q (.cmd (.multi ws) f) s :=
  multi h (fun _ _ hasked => asked_multi hasked fun w hmem => (hws w hmem).follows) hw next

theorem seq {p : App β} {R : Except AppError β → Assertion} {f : β → App α}
    (h : Leads env strict i m R p s) (hok : ∀ a t, R (.ok a) t → Leads env strict i m Q (f a) t)
    (herr : ∀ e t, R (.error e) t → Q (.error e) t) : Leads env strict i m Q (p.bind f) s := by
  intro hm
  refine View.Safe.bind ((h hm).mono fun r t ht => ?_)
  cases r with
  | ok a => exact hok a t ht.1 ht.2
  | error e => exact ⟨herr e t ht.1, ht.2⟩

theorem quiet {p : App β} {f : β → App α} (h : A s) (hp : Gentle p)
    (next : ∀ a t, A t → Leads env strict i m Q (f a) t) : Leads env strict i m Q (p.bind f) s := by
  obtain ⟨hp, hn⟩ := hp
  induction p generalizing s with
  | ret a => exact next a s h
  | throw e => exact hn.elim
  | cmd c k ih =>
    refine perform (fun key _ => hp.1.lockOf key) h (fun t _ hasked => asked_gentle hp.1 hasked) fun t ht _ => ?_
    exact ih _ (A.steady (exec_gentle hp.1) ht) (hp.2 _) (hn _)

theorem rest {p : App α} (h : A s) (hp : Gentle p) (hQ : ∀ a t, A t → Q (.ok a) t) :
    Leads env strict i m Q p s := by
  have hret : p.bind Prog.ret = p := by
    induction p with
    | ret a => rfl
    | throw e => rfl
    | cmd c k ih =>
      rw [Prog.cmd_bind]
      congr 1
      funext b
      exact ih b ⟨hp.1.2 b, hp.2 b⟩
  rw [← hret]
  exact quiet h hp fun a t ht => ret (hQ a t ht)

theorem tryCatch {p : App α} {handle : AppError → App α} (h : Leads env strict i m R p s)
    (hok : ∀ a t, R (.ok a) t → Q (.ok a) t)
    (herr : ∀ e t, R (.error e) t → Leads env strict i m Q (handle e) t) :
    Leads env strict i m Q (p.tryCatch handle) s := by
  intro hm
  refine View.Safe.tryCatch ((h hm).mono fun r t ht => ?_)
  cases r with
  | ok a => exact ⟨hok a t ht.1, ht.2⟩
  | error e => exact herr e t ht.1 ht.2

theorem forEach {g : β → App Unit} {A : List β → Assertion} {R : Except AppError Unit → Assertion}
    (hturn : ∀ x xs t, A (x :: xs) t → ∀ f : Unit → App Unit,
      (∀ u, A xs u → Leads env strict i m R (f ()) u) → Leads env strict i m R ((g x).bind f) t)
    (hend : ∀ t, A [] t → R (.ok ()) t) (xs : List β) {s : Store} (h : A xs s) :
    Leads env strict i m R (Prog.forEach g xs) s := by
  induction xs generalizing s with
  | nil => exact ret (hend s h)
  | cons x xs ih => exact hturn x xs s h _ fun u hu => ih hu

/-- The release of the lock that a section took, at its end. -/
theorem releaseLock {key : LockKey} {token : Token} {lease : Lease} (hr : ¬ key.reserves)
    (htoken : lease.token = token) (h : B s)
    (hm : Within env ⟨put unlocked.locks key (some lease), 0⟩ s) :
    ((serial env strict).view i).Safe (fun r t => r = .ok () ∧ B t ∧ Within env unlocked t)
      (releaseLock key token) s := by
  intro t ht _
  have hlease : t.locks key = some lease := by
    rw [Drift.locks ht]
    by_cases hk : key.mutex
    · exact (hm.locks key hk).trans put_self
    · cases key <;> first | exact absurd trivial hk | exact absurd trivial hr
  have hstill : Still t (exec env i (.evalReleaseLock key token) t).2 :=
    ⟨exec_quiet (show (Cmd.evalReleaseLock key token).quiet from hr), exec_clock.symm.le⟩
  have hB : B (exec env i (.evalReleaseLock key token) t).2 :=
    B.steady hstill (B.steady (Drift.still ht) h)
  have hfree : Within env unlocked (exec env i (.evalReleaseLock key token) t).2 := by
    refine ⟨fun k hk => ?_, Nat.zero_le _, exec_sets (hm.drift ht).sets, asked_single trivial (hm.drift ht).asked⟩
    simp only [exec, releaseLockScript, hlease, htoken, if_true]
    rw [put_apply, Drift.locks ht]
    split_ifs with heq
    · rfl
    · rw [hm.locks k hk]
      exact put_of_ne heq
  exact ⟨trivial, fun u hu => ⟨rfl, B.steady (Drift.still hu) hB, hfree.drift hu⟩⟩

/-- A lock section that starts with all locks free: the lock is taken, and free again at
the end, however the section ends. -/
theorem withLock {key : LockKey} {ttlMs : ℕ} {fn : App β} {R : Except AppError β → Assertion}
    {f : Option β → App α} (hk : key.mutex) (hr : ¬ key.reserves) (h : A s)
    (body : ∀ m t, A t → Leads env strict i m R fn t)
    (hok : ∀ a t, R (.ok a) t → Leads env strict i unlocked Q (f (some a)) t)
    (herr : ∀ e t, R (.error e) t → Q (.error e) t) :
    Leads env strict i unlocked Q ((YatriGo.withLock key ttlMs fn).bind f) s := by
  rw [withLock_eq]
  refine cmd (c := .uuidv4) (Cmd.lockless rfl) trivial h fun t ht _ => ?_
  intro hm u hu _
  have hmu : Within env unlocked u := hm.drift hu
  have hAu : A u := A.steady (Drift.still hu) (A.steady (@exec_gentle env i _ t .uuidv4 trivial) ht)
  have hfree : u.locks key = none := hmu.locks key hk
  refine ⟨trivial, ?_⟩
  generalize hlease : (⟨.uuid (exec env i .uuidv4 t).1, u.clock + ttlMs⟩ : Lease) = lease
  have hset : exec env i (.setNX key (.uuid (exec env i .uuidv4 t).1) ttlMs) u =
      (true, { u with locks := put u.locks key (some lease) }) := by
    rw [exec_setNX_of_none hfree, hlease]
  have hAv : A { u with locks := put u.locks key (some lease) } := by
    have hstill : Still u (exec env i (.setNX key (.uuid (exec env i .uuidv4 t).1) ttlMs) u).2 :=
      ⟨exec_quiet (show (Cmd.setNX key _ ttlMs).quiet from hr), exec_clock.symm.le⟩
    rw [hset] at hstill
    exact A.steady hstill hAu
  have hmv : Within env ⟨put unlocked.locks key (some lease), 0⟩
      { u with locks := put u.locks key (some lease) } := by
    refine ⟨fun k hk' => ?_, Nat.zero_le _, ⟨hmu.sets.pending, hmu.sets.online⟩, hmu.asked.same rfl rfl⟩
    show put u.locks key (some lease) k = _
    rw [put_apply, hmu.locks k hk']
    rfl
  have hview : ((serial env strict).view i).exec
      (.setNX key (.uuid (exec env i .uuidv4 t).1) ttlMs) u = _ := hset
  rw [hview]
  refine View.Safe.bind (View.Safe.bind (View.Safe.tryFinally ?_))
  refine (body _ _ hAv hmv).mono fun r w hw => ?_
  have htoken : lease.token = .uuid (exec env i .uuidv4 t).1 := by rw [← hlease]
  refine (releaseLock hr htoken hw.1 hw.2).mono ?_
  rintro _ x ⟨rfl, hx, hmx⟩
  cases r with
  | error e => exact ⟨herr e x hx, hmx⟩
  | ok a =>
    intro y hy
    exact hok a y ((R _).steady (Drift.still hy) hx) (hmx.drift hy)

theorem withRetryLock {key : LockKey} {ttlMs n : ℕ} {fn : App β} {R : Except AppError β → Assertion}
    {f : Option β → App α} (hk : key.mutex) (hr : ¬ key.reserves) (h : A s)
    (body : ∀ m t, A t → Leads env strict i m R fn t)
    (hok : ∀ a t, R (.ok a) t → Leads env strict i unlocked Q (f (some a)) t)
    (herr : ∀ e t, R (.error e) t → Q (.error e) t) :
    Leads env strict i unlocked Q
      ((YatriGo.withRetryLock (YatriGo.withLock key ttlMs fn) (n + 1)).bind f) s := by
  rw [YatriGo.withRetryLock, Prog.bind_eq, Prog.bind_assoc]
  exact withLock hk hr h body hok herr

end Leads

section gentle

variable {p : App α} {f : α → App β} {r : RideId} {d : DriverId} {ride : RideHash} {now : Time}

theorem Gentle.ret {a : α} : Gentle (.ret a : App α) := ⟨trivial, trivial⟩

theorem Gentle.command {c : Cmd α} (h : c.gentle) : Gentle (redis c) :=
  ⟨⟨h, fun _ => trivial⟩, fun _ => trivial⟩

theorem Gentle.bind (hp : Gentle p) (hf : ∀ a, Gentle (f a)) : Gentle (p.bind f) :=
  ⟨hp.uses.bind fun a => (hf a).uses, hp.returns.bind fun a => (hf a).returns⟩

theorem Gentle.forEach {g : α → App Unit} (h : ∀ x, Gentle (g x)) (xs : List α) :
    Gentle (Prog.forEach g xs) :=
  ⟨Prog.Uses.forEach fun x _ => (h x).uses, Prog.NoThrow.forEach fun x => (h x).returns⟩

theorem gentle_write {w : Write} (h : w.gentle) : Gentle (write w) := by
  refine Gentle.command fun v hv => ?_
  rw [List.mem_singleton.mp hv]
  exact h

theorem gentle_refreshRideRealtimeKeys : Gentle (refreshRideRealtimeKeys r) := by
  have hexpire : Write.gentle (.expireRide r) := trivial
  exact gentle_write hexpire

theorem gentle_appendTimelineEvent {event : TimelineEventType} {actorType : ActorType}
    {actorId : Option ℕ} {atTime : Time} : Gentle (appendTimelineEvent r event actorType actorId atTime) := by
  have hpush : Write.gentle (.rpushTimeline r ⟨event, actorType, actorId, atTime⟩) := trivial
  exact (gentle_write hpush).bind fun _ => gentle_refreshRideRealtimeKeys

theorem gentle_applyRejectCooldown : Gentle (applyRejectCooldown env d) := by
  unfold applyRejectCooldown
  split_ifs
  · exact Gentle.ret
  · have hset : Write.gentle (.setRejectCooldown d (env.driver.rejectCooldownSeconds * 1000)) := trivial
    exact gentle_write hset

theorem gentle_publish {room : Room} {key : PublishKey} : Gentle (publish room key) := by
  have hset : Cmd.gentle (.setIdempotent key) := trivial
  refine (Gentle.command hset).bind fun allowed => ?_
  have hpublish : Cmd.gentle (.publish ⟨room, key⟩) := trivial
  split_ifs
  · exact Gentle.command hpublish
  · exact Gentle.ret

theorem gentle_emitRideStatusUpdate : Gentle (emitRideStatusUpdate r ride) := by
  refine gentle_publish.bind fun _ => ?_
  cases ride.driverId with
  | none => exact Gentle.ret
  | some driverId => exact gentle_publish

theorem gentle_addJob {job : JobId} {delay : ℕ} : Gentle (redis (.addJob job delay)) := by
  have hadd : Cmd.gentle (.addJob job delay) := trivial
  exact Gentle.command hadd

theorem gentle_enqueueDriverSync {reason : SyncReason} {suffix : Option Time} :
    Gentle (enqueueDriverSync d reason suffix) := by
  cases suffix with
  | some suffix => exact gentle_addJob
  | none =>
    have hnow : Cmd.gentle .now := trivial
    exact (Gentle.command hnow).bind fun _ => gentle_addJob

theorem gentle_readNotifiedDrivers {next : RideStatus} : Gentle (readNotifiedDrivers r next) := by
  unfold readNotifiedDrivers
  have hread : Cmd.gentle (.smembersNotified r) := trivial
  split_ifs
  · exact Gentle.command hread
  · exact Gentle.ret

theorem gentle_getRide : Gentle (getRide r) := by
  have hread : Cmd.gentle (.hgetallRide r) := trivial
  exact (Gentle.command hread).bind fun _ => Gentle.ret

end gentle

end YatriGo
