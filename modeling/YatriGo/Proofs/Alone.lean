import YatriGo.Proofs.Walk

/-! Operations that run alone: how they end, what they leave as it is, and the searches they make. -/

namespace YatriGo
open Concurrent

/-- What `note` says of a search, from its radius and the store it is made in. -/
def Cmd.searches {γ : Type} (note : ℚ → Store → γ) : ⦃β : Type⦄ → Cmd β → Store → List γ
  | _, .geosearch _ radiusKm _, s => [note radiusKm s]
  | _, _, _ => []

/-- How a program of client `i` ends that runs alone, and the searches it makes. -/
abbrev Solo (env : Env) (i : ℕ) {γ : Type} (note : ℚ → Store → γ) {α : Type} (p : App α) (s : Store)
    (result : Except AppError α) (t : Store) (notes : List γ) : Prop :=
  p.Ends ((system env).client i) (Cmd.searches note) s result t notes

/-- Timelines, messages and jobs aside, the stores are the same. -/
def Backstage (s t : Store) : Prop :=
  ∃ timeline published idempotency jobs, t = { s with
    rideTimeline := timeline, published := published, idempotency := idempotency, jobs := jobs }

/-- Reads but no searches, entries of timelines, messages and jobs. -/
def Cmd.backstage : ⦃β : Type⦄ → Cmd β → Prop
  | _, .multi ws => ∀ w ∈ ws, w.quiet
  | _, .uuidv4 => False
  | _, .setNX .. => False
  | _, .evalReleaseLock .. => False
  | _, .evalAcceptRide .. => False
  | _, .geosearch .. => False
  | _, .upsertRideDoc .. => False
  | _, .upsertDriverDoc .. => False
  | _, .updateDriverDocStatus .. => False
  | _, _ => True

structure Behind {α : Type} (p : App α) : Prop where
  uses : p.Uses Cmd.backstage
  returns : p.NoThrow

variable {env : Env} {i : ℕ} {r : RideId} {d d' : DriverId} {s t u : Store} {α β γ : Type} {note : ℚ → Store → γ} {p : App α}
  {f : α → App β} {ride : RideHash} {now : Time}

theorem Backstage.refl : Backstage s s := ⟨_, _, _, _, rfl⟩

theorem Backstage.trans (h : Backstage s t) (h' : Backstage t u) : Backstage s u := by
  obtain ⟨_, _, _, _, rfl⟩ := h
  obtain ⟨_, _, _, _, rfl⟩ := h'
  exact ⟨_, _, _, _, rfl⟩

theorem Backstage.rides (h : Backstage s t) : t.ride = s.ride := by
  obtain ⟨_, _, _, _, rfl⟩ := h
  rfl

/-- No reservation is made, no response is recorded, and no id is drawn. -/
structure NoOffers (s t : Store) : Prop where
  seq : t.nextSeq = s.nextSeq
  responses : t.rideResponses = s.rideResponses
  locks : ∀ key, t.locks key = s.locks key ∨ t.locks key = none

/-- The reservations made and the responses recorded belong to batch `b` of the ride. -/
structure Renewed (r : RideId) (b : BatchId) (s t : Store) : Prop where
  response : ∀ d, t.rideResponses r d = s.rideResponses r d ∨ t.rideResponses r d = some (.pending b)
  reservation : ∀ d, t.locks (.reservation d) = s.locks (.reservation d) ∨ t.locks (.reservation d) = none ∨
    (t.locks (.reservation d)).map Lease.token = some (.reservation r b)

theorem NoOffers.refl : NoOffers s s := ⟨rfl, rfl, fun _ => .inl rfl⟩

theorem NoOffers.trans (h : NoOffers s t) (h' : NoOffers t u) : NoOffers s u := by
  refine ⟨h'.seq.trans h.seq, h'.responses.trans h.responses, fun key => ?_⟩
  rcases h'.locks key with hsame | hnone
  · rw [hsame]
    exact h.locks key
  · exact .inr hnone

theorem NoOffers.renewed {b : BatchId} (h : NoOffers s t) : Renewed r b s t := by
  refine ⟨fun d => .inl (by rw [h.responses]), fun d => ?_⟩
  rcases h.locks (.reservation d) with hsame | hnone
  · exact .inl hsame
  · exact .inr (.inl hnone)

theorem Renewed.trans {b : BatchId} (h : Renewed r b s t) (h' : Renewed r b t u) : Renewed r b s u := by
  constructor
  · intro d
    rcases h'.response d with hsame | hnew
    · rw [hsame]
      exact h.response d
    · exact .inr hnew
  · intro d
    rcases h'.reservation d with hsame | hnew
    · rw [hsame]
      exact h.reservation d
    · exact .inr hnew

theorem Backstage.noOffers (h : Backstage s t) : NoOffers s t := by
  obtain ⟨_, _, _, _, rfl⟩ := h
  exact ⟨rfl, rfl, fun _ => .inl rfl⟩

theorem backstage_multi {ws : List Write} (h : ∀ w ∈ ws, w.quiet) : Backstage s (s.multi ws) := by
  induction ws generalizing s with
  | nil => exact .refl
  | cons w ws ih =>
    have hquiet : w.quiet := h w List.mem_cons_self
    have hfirst : Backstage s (w.apply s) := by
      cases w with
      | expireRide r => exact .refl
      | rpushTimeline r e => exact ⟨_, _, _, _, rfl⟩
      | _ => exact hquiet.elim
    exact hfirst.trans (ih fun v hv => h v (List.mem_cons_of_mem _ hv))

theorem exec_backstage {c : Cmd β} (h : c.backstage) :
    Backstage s (exec env i c s).2 ∧ c.searches note s = [] := by
  have hclerical : c.clerical → _ := @exec_clerical s env i β c
  cases c with
  | multi ws => exact ⟨backstage_multi h, rfl⟩
  | uuidv4 => exact h.elim
  | setNX key token ttl => exact h.elim
  | evalReleaseLock key token => exact h.elim
  | evalAcceptRide r d acceptedAt reservation => exact h.elim
  | geosearch origin radius count => exact h.elim
  | upsertRideDoc r fields ds timeline => exact h.elim
  | upsertDriverDoc d doc => exact h.elim
  | updateDriverDocStatus d status => exact h.elim
  | _ =>
    obtain ⟨idempotency, published, jobs, heq⟩ := hclerical trivial
    rw [heq]
    exact ⟨⟨_, _, _, _, rfl⟩, rfl⟩

theorem Behind.ends {look : ⦃β : Type⦄ → Cmd β → Store → List γ} (h : Behind p)
    (hlook : ∀ (β : Type) (c : Cmd β) (s : Store), c.backstage → look c s = []) (s : Store) :
    ∃ a t, p.Ends ((system env).client i) look s (.ok a) t [] ∧ Backstage s t := by
  have hstep : ∀ (δ : Type) (c : Cmd δ) (s : Store), c.backstage →
      Backstage s ((system env).client i c s).2 ∧ look c s = [] := by
    intro δ c s hc
    have hkeep : Backstage s (exec env i c s).2 ∧ c.searches (fun _ _ => ()) s = [] := exec_backstage hc
    exact ⟨hkeep.1, hlook δ c s hc⟩
  exact h.uses.ends (R := Backstage) h.returns (fun _ => .refl) (fun _ _ _ h h' => h.trans h') hstep s

theorem Behind.alone (h : Behind p) (s : Store) : ∃ a t, Solo env i note p s (.ok a) t [] ∧ Backstage s t := by
  apply h.ends
  intro β c s hc
  have hkeep : Backstage s (exec env i c s).2 ∧ c.searches note s = [] := @exec_backstage env i s β γ note c hc
  exact hkeep.2

theorem Behind.ret {a : α} : Behind (.ret a : App α) := ⟨trivial, trivial⟩

theorem Behind.command {c : Cmd α} (h : c.backstage) : Behind (redis c) :=
  ⟨⟨h, fun _ => trivial⟩, fun _ => trivial⟩

theorem Behind.bind (hp : Behind p) (hf : ∀ a, Behind (f a)) : Behind (p.bind f) :=
  ⟨hp.uses.bind fun a => (hf a).uses, hp.returns.bind fun a => (hf a).returns⟩

theorem Behind.forEach {g : α → App Unit} (h : ∀ x, Behind (g x)) (xs : List α) : Behind (Prog.forEach g xs) :=
  ⟨Prog.Uses.forEach fun x _ => (h x).uses, Prog.NoThrow.forEach fun x => (h x).returns⟩

theorem behind_write {w : Write} (h : w.quiet) : Behind (write w) := by
  have hc : Cmd.backstage (.multi [w]) := by
    intro v hv
    rw [List.mem_singleton.mp hv]
    exact h
  exact Behind.command hc

theorem behind_appendTimelineEvent {event : TimelineEventType} {actorType : ActorType} {actorId : Option ℕ}
    {atTime : Time} : Behind (appendTimelineEvent r event actorType actorId atTime) := by
  have hpush : Write.quiet (.rpushTimeline r ⟨event, actorType, actorId, atTime⟩) := trivial
  have hexpire : Write.quiet (.expireRide r) := trivial
  exact (behind_write hpush).bind fun _ => behind_write hexpire

theorem behind_addJob {job : JobId} {delay : ℕ} : Behind (redis (.addJob job delay)) := by
  have hadd : Cmd.backstage (.addJob job delay) := trivial
  exact Behind.command hadd

theorem behind_publish {room : Room} {key : PublishKey} : Behind (publish room key) := by
  have hset : Cmd.backstage (.setIdempotent key) := trivial
  have hpublish : Cmd.backstage (.publish ⟨room, key⟩) := trivial
  refine (Behind.command hset).bind fun allowed => ?_
  split_ifs
  · exact Behind.command hpublish
  · exact Behind.ret

theorem behind_emitRideStatusUpdate : Behind (emitRideStatusUpdate r ride) := by
  refine behind_publish.bind fun _ => ?_
  cases ride.driverId with
  | none => exact Behind.ret
  | some driverId => exact behind_publish

/-- Anything but searches, reservations, and what a ride and its responses are. -/
def Cmd.offstage : ⦃β : Type⦄ → Cmd β → Prop
  | _, .multi ws => ∀ w ∈ ws, w.offstage
  | _, .evalAcceptRide .. => False
  | _, .geosearch .. => False
  | _, .uuidv4 => False
  | _, .setNX .. => False
  | _, _ => True

theorem noOffers_multi {ws : List Write} (h : ∀ w ∈ ws, w.offstage) : (s.multi ws).ride = s.ride ∧ NoOffers s (s.multi ws) := by
  induction ws generalizing s with
  | nil => exact ⟨rfl, .refl⟩
  | cons w ws ih =>
    have hoffstage : w.offstage := h w List.mem_cons_self
    have hfirst : (w.apply s).ride = s.ride ∧ NoOffers s (w.apply s) := by
      cases w with
      | createRide r payload => exact hoffstage.elim
      | hsetRide r fields => exact hoffstage.elim
      | hsetResponse r d value => exact hoffstage.elim
      | delResponses r => exact hoffstage.elim
      | delReservation d =>
        refine ⟨rfl, rfl, rfl, fun key => ?_⟩
        rcases eq_or_ne key (.reservation d) with rfl | hne
        · exact .inr put_self
        · exact .inl (put_of_ne hne)
      | _ => exact ⟨rfl, rfl, rfl, fun _ => .inl rfl⟩
    obtain ⟨hride, hkept⟩ := @ih (w.apply s) fun v hv => h v (List.mem_cons_of_mem _ hv)
    exact ⟨hride.trans hfirst.1, hfirst.2.trans hkept⟩

theorem noOffers_release {key : LockKey} {token : Token} : NoOffers s (releaseLockScript key token s).2 := by
  refine ⟨?_, ?_, fun key' => ?_⟩
  · obtain ⟨locks, hlocks⟩ := @releaseLockScript_eq key token s
    rw [hlocks]
  · obtain ⟨locks, hlocks⟩ := @releaseLockScript_eq key token s
    rw [hlocks]
  · unfold releaseLockScript
    split
    · split
      · rcases eq_or_ne key' key with rfl | hne
        · exact .inr put_self
        · exact .inl (put_of_ne hne)
      · exact .inl rfl
    · exact .inl rfl

theorem exec_offstage {c : Cmd β} (h : c.offstage) :
    ((exec env i c s).2.ride = s.ride ∧ NoOffers s (exec env i c s).2) ∧ c.searches note s = [] := by
  have hback : c.backstage → Backstage s (exec env i c s).2 ∧ c.searches note s = [] := exec_backstage
  cases c with
  | multi ws => exact ⟨noOffers_multi h, rfl⟩
  | evalAcceptRide r d acceptedAt reservation => exact h.elim
  | geosearch origin radius count => exact h.elim
  | uuidv4 => exact h.elim
  | setNX key token ttl => exact h.elim
  | evalReleaseLock key token => exact ⟨⟨(exec_sameRides (by trivial)).ride, noOffers_release⟩, rfl⟩
  | upsertRideDoc r fields ds timeline => exact ⟨⟨rfl, rfl, rfl, fun _ => .inl rfl⟩, rfl⟩
  | upsertDriverDoc d doc => exact ⟨⟨rfl, rfl, rfl, fun _ => .inl rfl⟩, rfl⟩
  | updateDriverDocStatus d status => exact ⟨⟨rfl, rfl, rfl, fun _ => .inl rfl⟩, rfl⟩
  | _ =>
    obtain ⟨hsame, hnote⟩ := hback trivial
    exact ⟨⟨hsame.rides, hsame.noOffers⟩, hnote⟩

/-- A program that returns, and does nothing but what is offstage. -/
structure Offstage {α : Type} (p : App α) : Prop where
  uses : p.Uses Cmd.offstage
  returns : p.NoThrow

theorem alone_offstage (h : Offstage p) (s : Store) :
    ∃ a t, Solo env i note p s (.ok a) t [] ∧ t.ride = s.ride ∧ NoOffers s t := by
  have hstep : ∀ (γ : Type) (c : Cmd γ) (s : Store), c.offstage →
      (((system env).client i c s).2.ride = s.ride ∧ NoOffers s ((system env).client i c s).2) ∧
        c.searches note s = [] := fun _ _ _ hc => exec_offstage hc
  exact h.uses.ends (R := fun s t : Store => t.ride = s.ride ∧ NoOffers s t) h.returns (fun _ => ⟨rfl, .refl⟩)
    (fun _ _ _ h h' => ⟨h'.1.trans h.1, h.2.trans h'.2⟩) hstep s

theorem offstage_releaseDriverReservations {batch : Option BatchId} {ds : List DriverId} :
    Offstage (releaseDriverReservations r batch ds) := by
  cases batch with
  | none => exact ⟨Prog.uses_ret (), trivial⟩
  | some b => exact ⟨.forEach fun d _ => ⟨trivial, fun _ => Prog.uses_ret ()⟩, .forEach fun d _ => trivial⟩

theorem offstage_cleanupTerminalRideKeys : Offstage (cleanupTerminalRideKeys r ride now) := by
  have hrelease : Offstage (releaseBatchReservations r ride) := by
    unfold releaseBatchReservations
    cases ride.currentBatchId with
    | none => exact ⟨Prog.uses_ret (), trivial⟩
    | some b => exact ⟨.forEach fun d _ => ⟨trivial, fun _ => Prog.uses_ret ()⟩, .forEach fun d _ => trivial⟩
  have hdriver : Offstage (releaseRideDriver r ride now) := by
    unfold releaseRideDriver
    cases ride.driverId with
    | none => exact ⟨Prog.uses_ret (), trivial⟩
    | some d =>
      refine ⟨?_, fun _ _ _ _ _ _ => trivial⟩
      exact ⟨trivial, fun hash => ⟨trivial, fun active => ⟨trivial, fun heartbeatExists =>
        ⟨fun w hw => (releaseWrites_peripheral w hw).offstage, fun _ => ⟨trivial, fun now =>
          ⟨trivial, fun _ => Prog.uses_ret ()⟩⟩⟩⟩⟩⟩
  refine ⟨?_, fun _ _ _ => hrelease.returns.bind fun _ => hdriver.returns⟩
  exact ⟨trivial, fun ds => ⟨trivial, fun current => ⟨cleanupWrites_offstage, fun _ =>
    hrelease.uses.bind fun _ => hdriver.uses⟩⟩⟩

theorem alone_updateRideHash {fields : List RideField} (h : ((s.ride r).hset fields).status ≠ none) :
    Solo env i note (updateRideHash r fields) s (.ok (some ((s.ride r).hset fields)))
      { s with ride := put s.ride r ((s.ride r).hset fields) } [] := by
  have hsnapshot : toRideSnapshot ((s.ride r).hset fields) = some ((s.ride r).hset fields) := if_neg h
  refine Prog.Ends.cmd (Prog.Ends.cmd (Prog.Ends.cmd ?_))
  show Solo env i note (.ret (toRideSnapshot (put s.ride r ((s.ride r).hset fields) r))) _ _ _ _
  rw [put_self, hsnapshot]
  exact Prog.Ends.ret

theorem alone_readRide {f : Option RideHash → App α} {result : Except AppError α} {notes : List γ}
    (hf : Solo env i note (f (toRideSnapshot (s.ride r))) s result t notes) :
    Solo env i note ((getRide r).bind f) s result t notes := by
  have hread : Solo env i note (getRide r) s (.ok (toRideSnapshot (s.ride r))) s [] := .cmd .ret
  exact hread.bind hf

theorem alone_getRide {f : Option RideHash → App α} {result : Except AppError α} {notes : List γ}
    (h : (s.ride r).status ≠ none) (hf : Solo env i note (f (some (s.ride r))) s result t notes) :
    Solo env i note ((getRide r).bind f) s result t notes := by
  have hsnapshot : toRideSnapshot (s.ride r) = some (s.ride r) := if_neg h
  apply alone_readRide
  rw [hsnapshot]
  exact hf

theorem Behind.before {x : β} (hp : Behind p)
    (hf : ∀ a t, ∃ u, Solo env i note (f a) t (.ok x) u [] ∧ Backstage t u) (s : Store) :
    ∃ u, Solo env i note (p.bind f) s (.ok x) u [] ∧ Backstage s u := by
  obtain ⟨a, t, ht, hst⟩ := hp.alone s
  obtain ⟨u, hu, htu⟩ := hf a t
  exact ⟨u, ht.bind hu, hst.trans htu⟩

theorem alone_ret {x : β} (s : Store) : ∃ u, Solo env i note (.ret x) s (.ok x) u [] ∧ Backstage s u :=
  ⟨s, .ret, .refl⟩

theorem ride_multi_hset {fields : List RideField} {ws : List Write} (h : ∀ w ∈ ws, w.sparesRides) :
    (s.multi ([.hsetRide r fields] ++ ws)).ride r = (s.ride r).hset fields := by
  rw [multi_append, (multi_sameRides h).ride]
  exact put_self

theorem releaseLockScript_reservation {d d' : DriverId} {token : Token} :
    (releaseLockScript (.reservation d) token s).2.locks (.reservation d') =
      if d' = d ∧ (s.locks (.reservation d')).map Lease.token = some token then none
      else s.locks (.reservation d') := by
  rcases eq_or_ne d' d with rfl | hne
  · unfold releaseLockScript
    cases hlease : s.locks (.reservation d') with
    | none => simp only [hlease, ite_self]
    | some lease =>
      by_cases htoken : lease.token = token
      · simp only [htoken, Option.map_some, and_self, if_true, put_self]
      · simp only [htoken, hlease, Option.map_some, Option.some.injEq, and_false, if_false]
  · have hkey : LockKey.reservation d' ≠ .reservation d := fun heq => hne (LockKey.reservation.inj heq)
    rw [releaseLockScript_locks_of_ne hkey, if_neg fun h => hne h.1]

/-- The reservations of a batch are given back one by one. -/
theorem alone_releaseDriverReservations {b : BatchId} (ds : List DriverId) (s : Store) :
    ∃ locks, Solo env i note (releaseDriverReservations r (some b) ds) s (.ok ()) { s with locks } [] ∧
      ∀ d, locks (.reservation d) =
        if d ∈ ds ∧ (s.locks (.reservation d)).map Lease.token = some (.reservation r b) then none
        else s.locks (.reservation d) := by
  induction ds generalizing s with
  | nil =>
    refine ⟨s.locks, .ret, fun d => ?_⟩
    simp only [List.not_mem_nil, false_and, if_false]
  | cons d ds ih =>
    obtain ⟨first, hfirst⟩ := @releaseLockScript_eq (.reservation d) (.reservation r b) s
    obtain ⟨locks, ht, hlocks⟩ := ih (releaseLockScript (.reservation d) (.reservation r b) s).2
    rw [hfirst] at ht
    have hall : Solo env i note (releaseDriverReservations r (some b) (d :: ds)) s (.ok ()) { s with locks } [] := by
      refine Prog.Ends.cmd ?_
      show Solo env i note _ (releaseLockScript (.reservation d) (.reservation r b) s).2 _ _ _
      rw [hfirst]
      exact ht
    refine ⟨locks, hall, fun d' => ?_⟩
    rw [hlocks d', releaseLockScript_reservation]
    by_cases hhead : d' = d ∧ (s.locks (.reservation d')).map Lease.token = some (.reservation r b)
    · rw [if_pos hhead, ite_self, if_pos ⟨hhead.1 ▸ List.mem_cons_self, hhead.2⟩]
    · rw [if_neg hhead]
      have hiff : (d' ∈ d :: ds ∧ (s.locks (.reservation d')).map Lease.token = some (.reservation r b)) ↔
          d' ∈ ds ∧ (s.locks (.reservation d')).map Lease.token = some (.reservation r b) := by
        rw [List.mem_cons]
        constructor
        · rintro ⟨heq | hmem, htoken⟩
          · exact absurd ⟨heq, htoken⟩ hhead
          · exact ⟨hmem, htoken⟩
        · exact fun h => ⟨.inr h.1, h.2⟩
      simp only [hiff]

/-- The store in which client `i` has just taken a free lock. -/
def lockTaken (i : ℕ) (key : LockKey) (ttlMs : ℕ) (s : Store) : Store :=
  { s with
    nextSeq := s.nextSeq + 1
    locks := put s.locks key (some ⟨.uuid ⟨i, s.nextSeq⟩, s.clock + ttlMs⟩) }

theorem lockTaken_of_ne {key key' : LockKey} {ttlMs : ℕ} (h : key' ≠ key) :
    (lockTaken i key ttlMs s).locks key' = s.locks key' := put_of_ne h

theorem reservation_ne_ride : LockKey.reservation d ≠ .ride r := fun h => by cases h

/-- The commands with which a section is entered and left. -/
def Cmd.locking : ⦃β : Type⦄ → Cmd β → Prop
  | _, .uuidv4 => True
  | _, .setNX .. => True
  | _, .evalReleaseLock .. => True
  | _, _ => False

section withLock

variable {look : ⦃β : Type⦄ → Cmd β → Store → List γ} {key : LockKey} {ttlMs : ℕ} {result : Except AppError α} {notes : List γ}

theorem ends_withLock_busy {lease : Lease} (hlook : ∀ (β : Type) (c : Cmd β) (s : Store), c.locking → look c s = [])
    (h : s.locks key = some lease) : (withLock key ttlMs p).Ends ((system env).client i) look s (.ok none)
      { s with nextSeq := s.nextSeq + 1 } [] := by
  have hbusy := @exec_setNX_of_some key (.uuid ⟨i, s.nextSeq⟩) { s with nextSeq := s.nextSeq + 1 } env i ttlMs lease h
  exact .cmd_unseen (hlook _ _ _ trivial) rfl (.cmd_unseen (hlook _ _ _ trivial) hbusy .ret)

theorem ends_withLock (hlook : ∀ (β : Type) (c : Cmd β) (s : Store), c.locking → look c s = []) (h : s.locks key = none)
    (hp : p.Ends ((system env).client i) look (lockTaken i key ttlMs s) result t notes) :
    (withLock key ttlMs p).Ends ((system env).client i) look s (result.map some)
      (releaseLockScript key (.uuid ⟨i, s.nextSeq⟩) t).2 notes := by
  have hfree := @exec_setNX_of_none key (.uuid ⟨i, s.nextSeq⟩) { s with nextSeq := s.nextSeq + 1 } env i ttlMs h
  have hrelease : (releaseLock key (.uuid ⟨i, s.nextSeq⟩)).Ends ((system env).client i) look t (.ok ())
      (releaseLockScript key (.uuid ⟨i, s.nextSeq⟩) t).2 [] := .cmd_unseen (hlook _ _ _ trivial) rfl .ret
  have hsection := hp.tryFinally hrelease
  rw [List.append_nil] at hsection
  refine .cmd_unseen (hlook _ _ _ trivial) rfl (.cmd_unseen (hlook _ _ _ trivial) hfree ?_)
  cases result with
  | ok a =>
    have hall := Prog.Ends.bind (f := fun a => (Prog.ret (some a) : App (Option α))) hsection .ret
    rw [List.append_nil] at hall
    exact hall
  | error e => exact hsection.bind_error

end withLock

theorem searches_locking {c : Cmd β} (h : c.locking) : c.searches note s = [] := by
  cases c with
  | geosearch origin radius count => exact h.elim
  | _ => rfl

theorem alone_withLock_busy {key : LockKey} {lease : Lease} {ttlMs : ℕ} (h : s.locks key = some lease) :
    Solo env i note (withLock key ttlMs p) s (.ok none) { s with nextSeq := s.nextSeq + 1 } [] :=
  ends_withLock_busy (fun _ _ _ hc => searches_locking hc) h

theorem alone_withLock {key : LockKey} {ttlMs : ℕ} {result : Except AppError α} {notes : List γ}
    (h : s.locks key = none) (hp : Solo env i note p (lockTaken i key ttlMs s) result t notes) :
    Solo env i note (withLock key ttlMs p) s (result.map some)
      (releaseLockScript key (.uuid ⟨i, s.nextSeq⟩) t).2 notes :=
  ends_withLock (fun _ _ _ hc => searches_locking hc) h hp

/-- The answer of `withRideLock`: nothing counts as a busy lock. -/
def lockAnswer : Except AppError (Option RideHash) → Except AppError RideHash
  | .ok none => .error dispatchLocked
  | .ok (some ride) => .ok ride
  | .error e => .error e

theorem alone_withRideLock_busy {fn : App (Option RideHash)} {lease : Lease} (h : s.locks (.ride r) = some lease) :
    Solo env i note (withRideLock env r fn) s (.error dispatchLocked) { s with nextSeq := s.nextSeq + 1 } [] :=
  (alone_withLock_busy h).bind .throw

theorem alone_withRideLock {fn : App (Option RideHash)} {answer : Except AppError (Option RideHash)} {notes : List γ}
    (h : s.locks (.ride r) = none)
    (hfn : Solo env i note fn (lockTaken i (.ride r) env.lockTtlMs s) answer t notes) :
    Solo env i note (withRideLock env r fn) s (lockAnswer answer)
      (releaseLockScript (.ride r) (.uuid ⟨i, s.nextSeq⟩) t).2 notes := by
  have hsection := alone_withLock h hfn
  rw [← List.append_nil notes]
  cases answer with
  | error e => rw [List.append_nil]; exact hsection.bind_error
  | ok answer => cases answer with
    | none => exact hsection.bind .throw
    | some ride => exact hsection.bind .ret

end YatriGo
