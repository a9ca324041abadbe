import YatriGo.Proofs.RefsOperations

/-! Whether a driver can be left with a ride that is over. -/

namespace YatriGo
open Concurrent

/-- In every state reached by steps allowed by `ok` in which nothing is in flight, a
driver refers only to rides of its own that go on. -/
def NoStuckDriver (env : Env) (ok : State → Step → Prop) : Prop :=
  ∀ as p d r, (system env).Run ok initial as p → Idle p = true → Refers d r p.store →
    (p.store.ride r).driverId = some d ∧ (p.store.ride r).status ≠ none ∧ ¬ (p.store.ride r).terminal

variable {env : Env} {p q : State}

/-- Nothing in flight, no lock of a ride held. -/
theorem unlocked_of_idle (hp : (rides env False).Holds p) (hidle : Idle p = true) (r : RideId) :
    p.store.locks (.ride r) = none := by
  by_contra hne
  obtain ⟨lease, hlease⟩ := Option.ne_none_iff_exists'.mp hne
  obtain ⟨i, hi, hown⟩ := hp.inv.leases (.ride r) lease trivial hlease
  have hthread : p.threads[i]? = some p.threads[i] := List.getElem?_eq_getElem hi
  have hnot : Running p i = false := running_of_idle hidle i
  have hfree : Free False i p.store := by
    cases hrest : p.threads[i].2 with
    | ret a =>
      have hsafe := hp.safe i p.threads[i].1 (.ret a) (by rw [hthread, ← hrest])
      exact hsafe p.store RideRely.refl
    | throw e =>
      have hsafe := hp.safe i p.threads[i].1 (.throw e) (by rw [hthread, ← hrest])
      exact hsafe p.store RideRely.refl
    | cmd c k =>
      have hpeek : p.threads[i]? = some (p.threads[i].1, .cmd c k) := by rw [hthread, ← hrest]
      unfold Running at hnot
      rw [peek_eq hpeek] at hnot
      cases hnot
  exact hfree (.ride r) lease trivial hlease hown

/-- No driver is stuck, as long as a reference is written only to a ride the driver is on,
or where it stands already. -/
theorem no_stuck_driver :
    NoStuckDriver env fun p a => Serving p a ∧ Checked Cmd.refersWell p a = true := by
  intro as p d r hrun hidle href
  have hboth : (rides env False).Holds p ∧ (tidies env).Holds p := by
    refine hrun.invariant (I := fun p => (rides env False).Holds p ∧ (tidies env).Holds p)
      ⟨rides_initial, tidies_initial⟩ fun p a q hp hok hnext => ⟨?_, ?_⟩
    · exact rides_run (fun p k hk hkept => hkept.1 k (keeps_mutex hk) rfl) (.single hok.1 hnext) hp.1
    · refine hp.2.next tidies_sound ?_ hnext
      cases a with
      | call op => exact hok.1.2
      | step i => exact fun op β c k hi => ⟨hp.1.guar hi trivial, checked_command hok.2 hi⟩
      | env e =>
        rintro k hk rfl
        exact hok.1.1 k (keeps_mutex hk) rfl
  have hfree : p.store.locks (.ride r) = none := unlocked_of_idle hboth.1 hidle r
  have hreferable : Referable d r p.store := hboth.2.inv.referred d r href
  have hlive : (p.store.ride r).status.any RideStatus.live = true := by
    rcases hreferable.live with h | ⟨-, lease, hlease⟩
    · exact h
    · rw [hfree] at hlease
      cases hlease
  exact ⟨hreferable.driver, hreferable.status.1, not_terminal_of_live hlive⟩

/-- A heartbeat of driver 1 reads its hash while the ride is under way, and writes it back
when the ride is over: driver 1 is BUSY with it for good. -/
theorem driver_stuck : ¬ NoStuckDriver townEnv Serving := by
  intro h
  let schedule : List Step := offered ++
    .call (.acceptRide ⟨1, 2⟩ 1) :: run 3 19 ++
    .call (.markDriverArriving ⟨1, 2⟩ 1) :: run 4 18 ++
    .call (.startRide ⟨1, 2⟩ 1) :: run 5 18 ++
    .call (.heartbeat 1 (some 0) (some 0) none) :: run 6 4 ++
    .call (.completeRide ⟨1, 2⟩ 1) :: run 7 27 ++ run 6 3
  have hsteps : ((system townEnv).steps (fun p a => lasting p a && serving a) schedule initial).any
      (fun p => Idle p ∧ Refers 1 ⟨1, 2⟩ p.store ∧ (p.store.driverHash 1).status = some .busy ∧
        (p.store.ride ⟨1, 2⟩).status = some .completed) = true := by decide +kernel
  obtain ⟨p, hrun, hp⟩ := System.exists_run serving_of_lasting hsteps
  obtain ⟨hidle, href, -, hst⟩ := of_decide_eq_true hp
  exact (h schedule p 1 ⟨1, 2⟩ hrun hidle href).2.2 (Or.inl hst)

end YatriGo
