import YatriGo.Proofs.DriverRides
import YatriGo.Proofs.DispatchFootprint

/-! The references from drivers to rides, in the driver's pointer and in its hash. The
end of a ride removes them while it holds the ride's lock, so a reference to a ride that
is over belongs to a client that has the lock. -/

namespace YatriGo
open Concurrent

/-- Driver `d` refers to ride `r`, in its pointer or in its hash. -/
def Refers (d : DriverId) (r : RideId) (s : Store) : Prop :=
  s.driverActiveRide d = some r ∨ (s.driverHash d).activeRideId = some r

instance {d : DriverId} {r : RideId} {s : Store} : Decidable (Refers d r s) :=
  inferInstanceAs (Decidable (_ ∨ _))

def DriverField.refersWell (d : DriverId) (s : Store) : DriverField → Bool
  | .activeRideId (some r) => OnRide d r s ∨ Refers d r s
  | _ => true

/-- A reference is written only to a ride the driver is on, or where it stands already. -/
def Write.refersWell (s : Store) : Write → Bool
  | .hsetDriver d fields => fields.all (DriverField.refersWell d s)
  | .setDriverActiveRide d r => OnRide d r s ∨ s.driverActiveRide d = some r
  | _ => true

def Cmd.refersWell (s : Store) : ⦃β : Type⦄ → Cmd β → Bool
  | _, .multi ws => ws.all (Write.refersWell s)
  | _, _ => true

/-- No driver refers to `r` once it is over. -/
def Tidy (r : RideId) (s : Store) : Prop := (s.ride r).terminal → ∀ d, ¬ Refers d r s

/-- Driver `d` may refer to `r`: it is on the ride, or the ride is over and someone has
the ride's lock. -/
structure Referable (d : DriverId) (r : RideId) (s : Store) : Prop where
  driver : (s.ride r).driverId = some d
  live : (s.ride r).status.any RideStatus.live = true ∨
    ((s.ride r).terminal ∧ ∃ lease, s.locks (.ride r) = some lease)

def Referred (s : Store) : Prop := ∀ d r, Refers d r s → Referable d r s

section exec

variable {env : Env} {i j : ℕ} {s t : Store} {d : DriverId} {r : RideId}

theorem not_terminal_of_live {h : RideHash} (hlive : h.status.any RideStatus.live = true) :
    ¬ h.terminal := by
  rintro (hst | hst) <;> (rw [hst] at hlive; cases hlive)

theorem hset_activeRideId {h : DriverHash} {fields : List DriverField}
    (ha : (h.hset fields).activeRideId = some r) :
    .activeRideId (some r) ∈ fields ∨ h.activeRideId = some r := by
  induction fields generalizing h with
  | nil => exact Or.inr ha
  | cons f fields ih =>
    have htail : .activeRideId (some r) ∈ fields ∨ (h.setField f).activeRideId = some r := ih ha
    rcases htail with hmem | hf
    · exact Or.inl (List.mem_cons_of_mem _ hmem)
    · cases f with
      | activeRideId v =>
        have hv : v = some r := hf
        rw [hv]
        exact Or.inl (List.mem_cons_self ..)
      | _ => exact Or.inr hf

/-- What `d` refers to in `t` it has referred to in `s`, or was on. -/
structure RefersAsIn (s t : Store) : Prop where
  pointer : ∀ d r, t.driverActiveRide d = some r → s.driverActiveRide d = some r ∨ OnRide d r s
  hash : ∀ d r, (t.driverHash d).activeRideId = some r → Refers d r s ∨ OnRide d r s

theorem RefersAsIn.refl : RefersAsIn s s := ⟨fun _ _ => Or.inl, fun _ _ h => Or.inl (Or.inr h)⟩

theorem RefersAsIn.write {w : Write} (h : RefersAsIn s t) (hw : w.refersWell s = true) :
    RefersAsIn s (w.apply t) := by
  cases w with
  | setDriverActiveRide d r =>
    refine ⟨fun d' r' hr => ?_, h.hash⟩
    change put t.driverActiveRide d (some r) d' = some r' at hr
    rcases eq_or_ne d' d with rfl | hne
    · rw [put_self] at hr
      cases hr
      exact (of_decide_eq_true hw).symm
    · rw [put_of_ne hne] at hr
      exact h.pointer d' r' hr
  | delDriverActiveRide d =>
    refine ⟨fun d' r' hr => ?_, h.hash⟩
    change put t.driverActiveRide d none d' = some r' at hr
    rcases eq_or_ne d' d with rfl | hne
    · rw [put_self] at hr
      cases hr
    · rw [put_of_ne hne] at hr
      exact h.pointer d' r' hr
  | hsetDriver d fields =>
    refine ⟨h.pointer, fun d' r' hr => ?_⟩
    change (put t.driverHash d ((t.driverHash d).hset fields) d').activeRideId = some r' at hr
    rcases eq_or_ne d' d with rfl | hne
    · rw [put_self] at hr
      rcases hset_activeRideId hr with hmem | hold
      · have hfield : DriverField.refersWell d' s (.activeRideId (some r')) = true :=
          List.all_eq_true.mp hw _ hmem
        exact (of_decide_eq_true hfield).symm
      · exact h.hash d' r' hold
    · rw [put_of_ne hne] at hr
      exact h.hash d' r' hr
  | _ => exact ⟨h.pointer, h.hash⟩

theorem multi_refers {ws : List Write} (h : RefersAsIn s t)
    (hws : ∀ w ∈ ws, w.refersWell s = true) : RefersAsIn s (t.multi ws) := by
  induction ws generalizing t with
  | nil => exact h
  | cons w ws ih =>
    rw [multi_cons]
    exact ih (h.write (hws w (List.mem_cons_self ..))) fun v hv => hws v (List.mem_cons_of_mem _ hv)

theorem SameKeys.refers (h : SameKeys s t) : Refers d r t ↔ Refers d r s := by
  unfold Refers
  rw [h.driverActive, h.driverHash]

/-- A command adds references only to rides that the driver is on, before or after it. -/
theorem exec_pointer {β : Type} {c : Cmd β} (hc : Cmd.refersWell s c = true)
    (h : (exec env i c s).2.driverActiveRide d = some r) :
    s.driverActiveRide d = some r ∨ OnRide d r s ∨ OnRide d r (exec env i c s).2 := by
  have hsame : c.single → _ := @exec_sameKeys s env i β c
  cases c with
  | multi ws =>
    have hws : RefersAsIn s (s.multi ws) := multi_refers .refl (List.all_eq_true.mp hc)
    rcases hws.pointer d r h with h | h
    · exact Or.inl h
    · exact Or.inr (Or.inl h)
  | evalAcceptRide r' d' acceptedAt reservation =>
    change (acceptRideScript r' d' acceptedAt reservation s).2.driverActiveRide d = _ at h
    change _ ∨ _ ∨ OnRide d r (acceptRideScript r' d' acceptedAt reservation s).2
    rcases @acceptRideScript_cases s r' d' acceptedAt reservation with ⟨-, heq⟩ | ⟨-, heq, -⟩
    · rw [heq] at h
      exact Or.inl h
    · rw [heq] at h ⊢
      change put s.driverActiveRide d' (some r') d = some r at h
      rcases eq_or_ne d d' with rfl | hne
      · rw [put_self] at h
        cases h
        refine Or.inr (Or.inr ⟨?_, ?_⟩)
        · change (put s.ride r _ r).status.any RideStatus.live = true
          rw [put_self]
          rfl
        · change (put s.ride r _ r).driverId = _
          rw [put_self]
          rfl
      · rw [put_of_ne hne] at h
        exact Or.inl h
  | _ =>
    rw [(hsame trivial).driverActive] at h
    exact Or.inl h

theorem exec_refers {β : Type} {c : Cmd β} (hc : Cmd.refersWell s c = true)
    (h : Refers d r (exec env i c s).2) :
    Refers d r s ∨ OnRide d r s ∨ OnRide d r (exec env i c s).2 := by
  rcases h with h | h
  · exact (exec_pointer hc h).imp_left Or.inl
  have hsame : c.single → _ := @exec_sameKeys s env i β c
  cases c with
  | multi ws =>
    have hws : RefersAsIn s (s.multi ws) := multi_refers .refl (List.all_eq_true.mp hc)
    exact (hws.hash d r h).imp_right Or.inl
  | evalAcceptRide r' d' acceptedAt reservation =>
    change ((acceptRideScript r' d' acceptedAt reservation s).2.driverHash d).activeRideId = _ at h
    rcases @acceptRideScript_cases s r' d' acceptedAt reservation with ⟨-, heq⟩ | ⟨-, heq, -⟩
    · rw [heq] at h
      exact Or.inl (Or.inr h)
    · rw [heq] at h
      change (put s.driverHash d' _ d).activeRideId = some r at h
      rcases eq_or_ne d d' with rfl | hne
      · -- the script sets the pointer to the same ride
        rw [put_self] at h
        have hpointer : (exec env i (.evalAcceptRide r' d acceptedAt reservation) s).2.driverActiveRide d =
            some r := by
          change (acceptRideScript r' d acceptedAt reservation s).2.driverActiveRide d = _
          rw [heq]
          cases h
          exact put_self
        exact (exec_pointer rfl hpointer).imp_left Or.inl
      · rw [put_of_ne hne] at h
        exact Or.inl (Or.inr h)
  | _ =>
    rw [(hsame trivial).driverHash] at h
    exact Or.inl (Or.inr h)

theorem Tidy.exec {β : Type} {c : Cmd β} (h : Tidy r s) (hc : Cmd.refersWell s c = true)
    (hterminal : ((exec env i c s).2.ride r).terminal → (s.ride r).terminal) :
    Tidy r (exec env i c s).2 := by
  intro hr d href
  rcases exec_refers hc href with href | hon | hon
  · exact h (hterminal hr) d href
  · exact not_terminal_of_live hon.live (hterminal hr)
  · exact not_terminal_of_live hon.live hr

theorem not_terminal_accept {h : RideHash} {acceptedAt : Time} : ¬ (h.accept d acceptedAt).terminal := by
  rintro (h | h) <;> cases h

theorem not_terminal_payload {c : CustomerId} {origin destination : Location} {metadata : Metadata}
    {now : Time} : ¬ (requestPayload env c origin destination metadata now).terminal := by
  rintro (h | h) <;> cases h

theorem terminal_others {β : Type} {c : Cmd β} (hij : i ≠ j) (hl : Holds j (.ride r) s)
    (hg : RideGuar env False i c s) (h : ((exec env i c s).2.ride r).terminal) :
    (s.ride r).terminal := by
  have hchange := ride_exec hg r
  generalize (exec env i c s).2.ride r = g at hchange h
  cases hchange with
  | same => exact h
  | create absent c origin destination metadata now => exact absurd h not_terminal_payload
  | accept d acceptedAt accepts hst hd => exact absurd h not_terminal_accept
  | write read fields ws writes mem holds since write => exact absurd (holds.unique hl) hij

theorem hset_calm {h : RideHash} {fields : List RideField} (hf : fields.all RideField.calm = true)
    (ht : (h.hset fields).terminal) : h.terminal := by
  induction fields generalizing h with
  | nil => exact ht
  | cons f fields ih =>
    rw [List.all_cons, Bool.and_eq_true_iff] at hf
    have hset : (h.setField f).terminal := ih hf.2 ht
    cases f with
    | status v =>
      have hv : v = .dispatching := of_decide_eq_true hf.1
      rw [hv] at hset
      rcases hset with hst | hst <;> cases hst
    | _ => exact hset.congr rfl

theorem terminal_calm {β : Type} {c : Cmd β} (hcalm : c.calm) (hg : RideGuar env False i c s)
    (h : ((exec env i c s).2.ride r).terminal) : (s.ride r).terminal := by
  have hchange := ride_exec hg r
  generalize (exec env i c s).2.ride r = g at hchange h
  cases hchange with
  | same => exact h
  | create absent c origin destination metadata now => exact absurd h not_terminal_payload
  | accept d acceptedAt accepts hst hd => exact absurd h not_terminal_accept
  | write read fields ws writes mem holds since write =>
    cases c with
    | multi ws' =>
      cases writes
      exact hset_calm (hcalm _ mem) h
    | _ => cases writes

end exec

/-- Fields that leave the driver of the ride alone. -/
def RideField.keepsDriver : RideField → Bool
  | .driverId _ => false
  | _ => true

def Write.keepsDriver : Write → Prop
  | .hsetRide _ fields => fields.all RideField.keepsDriver = true
  | _ => True

/-- What a client promises: it takes the driver off no ride, and gives the lock of a
ride that is over back only when no driver refers to the ride. -/
def TidyGuar : ⦃β : Type⦄ → Cmd β → Store → Prop
  | _, .multi ws, _ => ∀ w ∈ ws, w.keepsDriver
  | _, .evalReleaseLock (.ride r) _, s => Tidy r s
  | _, _, _ => True

/-- What a client counts on for the rides whose lock it has. -/
structure TidyRely (i : ℕ) (s t : Store) : Prop where
  rides : RideRely False i s t
  tidy : ∀ r, Holds i (.ride r) s → Tidy r s → Tidy r t
  pointer : ∀ r d, Holds i (.ride r) s → (s.ride r).terminal → s.driverActiveRide d ≠ some r →
    t.driverActiveRide d ≠ some r

/-- The ride invariant, and every reference is one that may stand. -/
structure TidyInv (n : ℕ) (s : Store) : Prop where
  rides : RideInv False n s
  referred : Referred s

section contract

variable {env : Env} {i j n : ℕ} {s t v : Store} {d : DriverId} {r : RideId}

theorem SameKeys.tidy (h : SameKeys s t) (ht : Tidy r s) : Tidy r t := by
  intro hr d href
  rw [h.ride] at hr
  exact ht hr d (h.refers.mp href)

theorem SameKeys.tidyRely (h : SameKeys s t) (hl : LeasesStay False i s t) : TidyRely i s t where
  rides := h.sameRides.rely hl
  tidy := fun _ _ => h.tidy
  pointer := fun r d _ _ hne => by
    rw [h.driverActive]
    exact hne

theorem TidyRely.refl : TidyRely i s s := ⟨RideRely.refl, fun _ _ => id, fun _ _ _ _ => id⟩

theorem TidyRely.trans (h₁ : TidyRely i s t) (h₂ : TidyRely i t v) : TidyRely i s v where
  rides := h₁.rides.trans h₂.rides
  tidy := fun r hl ht => h₂.tidy r (hl.stay h₁.rides.leases trivial) (h₁.tidy r hl ht)
  pointer := fun r d hl hr hne => by
    have ht : (t.ride r).terminal := by
      rw [h₁.rides.terminal r hr]
      exact hr
    exact h₂.pointer r d (hl.stay h₁.rides.leases trivial) ht (h₁.pointer r d hl hr hne)

theorem tidyRely_exec {β : Type} {c : Cmd β} (hij : i ≠ j) (hg : RideGuar env False i c s)
    (hc : Cmd.refersWell s c = true) : TidyRely j s (exec env i c s).2 := by
  have hrides : RideRely False j s (exec env i c s).2 := rides_others hij hg
  refine ⟨hrides, fun r hl ht => ht.exec hc (terminal_others hij hl hg), fun r d hl hr hne hpointer => ?_⟩
  rcases exec_pointer hc hpointer with h | hon | hon
  · exact hne h
  · exact not_terminal_of_live hon.live hr
  · rw [← hrides.terminal r hr] at hr
    exact not_terminal_of_live hon.live hr

theorem hset_keepsDriver {h : RideHash} {fields : List RideField}
    (hf : fields.all RideField.keepsDriver = true) : (h.hset fields).driverId = h.driverId := by
  induction fields generalizing h with
  | nil => rfl
  | cons f fields ih =>
    rw [List.all_cons, Bool.and_eq_true_iff] at hf
    rw [hset_cons, ih hf.2]
    cases f with
    | driverId v => cases hf.1
    | _ => rfl

/-- An update of a ride with a driver on it leaves the driver on it, or ends the ride. -/
theorem live_write {read h : RideHash} {fields : List RideField}
    (hlive : h.status.any RideStatus.live = true) (since : Since read h)
    (write : RideWrite env read fields) (hf : fields.all RideField.keepsDriver = true) :
    (h.hset fields).status.any RideStatus.live = true ∨ (h.hset fields).terminal := by
  cases write with
  | start now hst =>
    rw [since.eq_of_status hst (by decide), hst] at hlive
    cases hlive
  | clear now hst => rw [hset_clearBatchFields.1]; exact Or.inl hlive
  | exhaust now hst => exact Or.inr (Or.inr hset_exhaustFields.1)
  | expand nextRound nextRadius now hst => rw [hset_expandFields.1]; exact Or.inl hlive
  | batch batchId ds expiresAt now hst => rw [hset_batchFields.1]; exact Or.inl hlive
  | reject exhausted now hst => rw [hset_rejectFields.1]; exact Or.inl hlive
  | transition current next options now hst hnext hto hoptions =>
    obtain ⟨hstatus, -⟩ := @hset_transitionFields env read h next options now hoptions
    unfold RideHash.terminal
    rw [hstatus]
    cases next with
    | requested => cases current <;> simp [rideTransitions] at hnext
    | dispatching => exact absurd rfl hto.1
    | accepted => exact absurd rfl hto.2
    | arriving => exact Or.inl rfl
    | ongoing => exact Or.inl rfl
    | completed => exact Or.inr (Or.inl rfl)
    | cancelled => exact Or.inr (Or.inr rfl)
  | requeue d' now hst hread => cases hf

theorem OnRide.referable (h : OnRide d r s) : Referable d r s := ⟨h.driver, Or.inl h.live⟩

theorem Referable.status (h : Referable d r s) :
    (s.ride r).status ≠ none ∧ (s.ride r).status ≠ some .dispatching := by
  rcases h.live with hlive | ⟨hr | hr, -⟩
  · refine ⟨?_, ?_⟩ <;> (intro hst; rw [hst] at hlive; cases hlive)
  · rw [hr]
    decide
  · rw [hr]
    decide

/-- A reference that may stand before a command may stand after it, unless the ride is
over and its lock is released. -/
theorem Referable.exec {β : Type} {c : Cmd β} (h : Referable d r s) (hg : RideGuar env False i c s)
    (ht : TidyGuar c s) (hlocked : (s.ride r).terminal → (∃ lease, s.locks (.ride r) = some lease) →
      ∃ lease, (exec env i c s).2.locks (.ride r) = some lease) :
    Referable d r (exec env i c s).2 := by
  have hchange := ride_exec hg r
  generalize hgen : (YatriGo.exec env i c s).2.ride r = g at hchange
  cases hchange with
  | same =>
    refine ⟨by rw [hgen]; exact h.driver, ?_⟩
    rw [hgen]
    exact h.live.imp_right fun hr => ⟨hr.1, hlocked hr.1 hr.2⟩
  | create absent c origin destination metadata now => exact absurd absent h.status.1
  | accept d acceptedAt accepts hst hd => exact absurd hst h.status.2
  | write read fields ws writes mem holds since write =>
    cases c with
    | multi ws' =>
      cases writes
      have hf : fields.all RideField.keepsDriver = true := ht _ mem
      obtain ⟨lease, hlease, -⟩ := holds
      have hlease' : (YatriGo.exec env i (.multi ws) s).2.locks (.ride r) = some lease :=
        (multi_locks (by trivial)).trans hlease
      refine ⟨?_, ?_⟩
      · rw [hgen, hset_keepsDriver hf]
        exact h.driver
      · rw [hgen]
        rcases h.live with hlive | ⟨hr, -⟩
        · exact (live_write hlive since write hf).imp_right fun hr => ⟨hr, lease, hlease'⟩
        · exact absurd hr (since.not_terminal write.status_ne_none write.not_terminal)
    | _ => cases writes

/-- Every command keeps all references such that they may stand. -/
theorem referred_exec {β : Type} {c : Cmd β} (hs : Referred s) (hg : RideGuar env False i c s)
    (hc : Cmd.refersWell s c = true) (ht : TidyGuar c s) : Referred (exec env i c s).2 := by
  intro d r href
  rcases exec_refers hc href with hold | hon | hon
  · refine (hs d r hold).exec hg ht fun hr hlease => ?_
    by_cases hlock : c.lockOf = some (.ride r)
    · cases c with
      | setNX key token ttl =>
        cases hlock
        obtain ⟨lease, hlease⟩ := hlease
        rw [exec_setNX_of_some hlease]
        exact ⟨lease, hlease⟩
      | evalReleaseLock key token =>
        cases hlock
        exact absurd hold (ht hr d)
      | _ => cases hlock
    · obtain ⟨lease, hlease⟩ := hlease
      exact ⟨lease, (exec_locks (by trivial) hlock).trans hlease⟩
  · exact hon.referable.exec hg ht fun hr => absurd hr (not_terminal_of_live hon.live)
  · exact hon.referable

theorem Referred.tidy (hs : Referred s) (h : s.locks (.ride r) = none) : Tidy r s := by
  intro hr d href
  rcases (hs d r href).live with hlive | ⟨-, lease, hlease⟩
  · exact not_terminal_of_live hlive hr
  · rw [h] at hlease
    cases hlease

/-- The contract about references, kept by the clients that keep the one about rides. -/
def tidies (env : Env) : Contract (system env) where
  inv := TidyInv
  rely := TidyRely
  assume := fun i _ c s => RideGuar env False i c s ∧ Cmd.refersWell s c = true
  guar := fun _ _ c s => TidyGuar c s
  post := Free False
  okOp := fun op => serving (.call op) = true
  okEnv := fun e => ∀ k, keeps False k → e ≠ .expireLease k
  refl := fun _ _ => TidyRely.refl
  trans := fun _ _ _ _ => TidyRely.trans

end contract

end YatriGo
