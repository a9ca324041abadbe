import YatriGo.Proofs.StandingReads

/-! The version of a ride. The accept script counts it up without the ride's lock, the
other operations write the version they read plus one; so an update that was computed
before an acceptance and lands after it repeats the version of the acceptance. -/

namespace YatriGo
open Concurrent

/-- The fields whose change a new version announces. -/
def RideHash.state (h : RideHash) :
    Option RideStatus × Option DriverId × Option BatchId × List DriverId × Option Time :=
  (h.status, h.driverId, h.currentBatchId, h.currentBatchDrivers, h.currentBatchExpiresAt)

/-- In the runs whose steps satisfy `ok` and whose schedules satisfy `stand` a version identifies a state of the
ride. -/
structure VersionsIdentify (env : Env) (ok : State → Step → Prop) (stand : List Step → Prop) : Prop where
  increases : ∀ as p a q r, (system env).Run ok initial as p → ok p a →
    (system env).next p a = some q → stand (as ++ [a]) → (q.store.ride r).state ≠ (p.store.ride r).state →
    (p.store.ride r).version < (q.store.ride r).version
  identifies : ∀ as p bs q r, (system env).Run ok initial as p → (system env).Run ok p bs q → stand (as ++ bs) →
    (q.store.ride r).version = (p.store.ride r).version →
    (q.store.ride r).state = (p.store.ride r).state

variable {env : Env} {p q : State} {a : Step} {r : RideId}

theorem Since.version {h g : RideHash} (since : Since h g) (hs : h.status ≠ none) :
    g.version = h.version ∨ g.version = h.version + 1 := by
  cases since with
  | same => exact Or.inl rfl
  | accepted d acceptedAt hst hd => exact Or.inr rfl
  | absent g hst => exact absurd hst hs

/-- A ride that does not exist has version 0. -/
def Unborn (p : State) : Prop := ∀ r, (p.store.ride r).status = none → (p.store.ride r).version = 0

theorem unborn_step (hp : (rides env False).Holds p) (hnext : (system env).next p a = some q)
    (hu : Unborn p) : Unborn q := by
  intro r hr
  cases ride_step hp hnext r with
  | same heq => rw [heq] at hr ⊢; exact hu r hr
  | create absent c origin destination metadata now heq => rw [heq] at hr; cases hr
  | accept d acceptedAt accepts hst hd heq => rw [heq] at hr; cases hr
  | write read fields ws performs mem since write heq =>
    rw [heq] at hr
    exact absurd hr (hset_status_ne_none (since.status_ne_none write.status_ne_none))

/-- A step leaves the hash of a ride alone or increases its version. -/
theorem version_step (hp : (rides env False).Holds p) (hnext : (system env).next p a = some q)
    (hu : Unborn p) (htimely : Timely p a) (r : RideId) :
    q.store.ride r = p.store.ride r ∨ (p.store.ride r).version < (q.store.ride r).version := by
  cases ride_step hp hnext r with
  | same heq => exact Or.inl heq
  | create absent c origin destination metadata now heq =>
    right
    rw [heq, hu r absent]
    exact Nat.zero_lt_one
  | accept d acceptedAt accepts hst hd heq =>
    right
    rw [heq]
    exact Nat.lt_succ_self _
  | write read fields ws performs mem since write heq =>
    right
    have hcounts : read.version + 1 = (p.store.ride r).version + 1 :=
      (htimely.2 ws r fields performs mem).2 _ write.countsUp.1
    rw [heq, write.version, hcounts]
    exact Nat.lt_succ_self _

theorem version_run {as : List Step}
    (hrun : (system env).Run Timely p as q)
    (hp : (rides env False).Holds p) (hu : Unborn p) :
    ((rides env False).Holds q ∧ Unborn q) ∧
    ∀ r, q.store.ride r = p.store.ride r ∨ (p.store.ride r).version < (q.store.ride r).version := by
  induction hrun with
  | nil p => exact ⟨⟨hp, hu⟩, fun r => Or.inl rfl⟩
  | @cons p m q a as hok hnext rest ih =>
    have hm : (rides env False).Holds m :=
      rides_run (fun p k hk => RideLocksKept.keeps hk) (.single hok.1 hnext) hp
    obtain ⟨hq, hlater⟩ := ih hm (unborn_step hp hnext hu)
    refine ⟨hq, fun r => ?_⟩
    rcases version_step hp hnext hu hok r with h₁ | h₁ <;> rcases hlater r with h₂ | h₂
    · exact Or.inl (h₂.trans h₁)
    · exact Or.inr (h₁ ▸ h₂)
    · exact Or.inr (h₂ ▸ h₁)
    · exact Or.inr (h₁.trans h₂)

/-- As long as no acceptance comes between an operation's read of a ride and its update, versions identify states. -/
theorem versions_identify : VersionsIdentify env RideLocksKept (ReadsStand env) where
  increases := by
    intro as p a q r hrun hok hnext hstand hne
    have hlast : (system env).Run Timely initial (as ++ [a]) q := timely_run (hrun.append (.single hok hnext)) hstand
    obtain ⟨⟨hp, hup⟩, -⟩ := version_run (hlast.head hrun) rides_initial fun _ _ => rfl
    rcases version_step hp hnext hup (timely_step hrun hok hnext hstand) r with h | h
    · exact absurd (congrArg RideHash.state h) hne
    · exact h
  identifies := by
    intro as p bs q r hrun hrun' hstand hversion
    have hall : (system env).Run Timely initial (as ++ bs) q := timely_run (hrun.append hrun') hstand
    obtain ⟨⟨hp, hup⟩, -⟩ := version_run (hall.head hrun) rides_initial fun _ _ => rfl
    rcases (version_run (hall.rest hrun) hp hup).2 r with h | h
    · exact congrArg RideHash.state h
    · omega

/-- A cancellation that read the ride before driver 1 accepted it writes version 4 again,
now with the status CANCELLED. -/
theorem version_repeats : ¬ VersionsIdentify townEnv RideLocksKept fun _ => True := by
  intro h
  obtain ⟨p, hrun, hp⟩ := town_run rideLocksKept_of_lasting
    (offered ++ .call (.cancelRide ⟨1, 2⟩ .customer (some 7) "") :: run 3 5 ++
      .call (.acceptRide ⟨1, 2⟩ 1) :: run 4 3)
    (fun p => ((system townEnv).next p (.step 3)).any fun q =>
      (q.store.ride ⟨1, 2⟩).state ≠ (p.store.ride ⟨1, 2⟩).state ∧
      (q.store.ride ⟨1, 2⟩).version = 4 ∧ (p.store.ride ⟨1, 2⟩).version = 4) (by decide +kernel)
  cases hnext : (system townEnv).next p (.step 3) with
  | none =>
    rw [hnext] at hp
    cases hp
  | some q =>
    rw [hnext] at hp
    obtain ⟨hstate, hq, hp⟩ := of_decide_eq_true hp
    have hlt : (p.store.ride ⟨1, 2⟩).version < (q.store.ride ⟨1, 2⟩).version :=
      h.increases _ p (.step 3) q ⟨1, 2⟩ hrun (rideLocksKept_of_lasting p _ rfl) hnext trivial hstate
    omega

end YatriGo
