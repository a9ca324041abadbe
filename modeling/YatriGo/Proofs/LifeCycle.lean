import YatriGo.Proofs.Acceptance

/-! The life cycle of a ride. Only `transitionRide` consults the table of transitions;
dispatch, requeueing and the accept script write the status directly, and the script may
run between the read and the write of another operation. -/

namespace YatriGo
open Concurrent

/-- The status of a ride moves along `rideTransitions` in the runs allowed by `ok`. -/
structure FollowsTransitions (env : Env) (ok : State → Step → Prop) : Prop where
  starts : ∀ as p a q r s, (system env).Run ok initial as p → ok p a →
    (system env).next p a = some q → (p.store.ride r).status = none →
    (q.store.ride r).status = some s → s = .requested
  follows : ∀ as p a q r s, (system env).Run ok initial as p → ok p a →
    (system env).next p a = some q → (p.store.ride r).status = some s →
    (q.store.ride r).status = some s ∨
      ∃ s' ∈ rideTransitions s, (q.store.ride r).status = some s'
  stays : ∀ as p bs q r s, (system env).Run ok initial as p → (system env).Run ok p bs q →
    s.terminal = true → (p.store.ride r).status = some s → (q.store.ride r).status = some s
  passes : ∀ as q r, (system env).Run ok initial as q → (q.store.ride r).status = some .completed →
    ∃ bs₁ bs₂ bs₃ bs₄ bs₅ p₁ p₂ p₃ p₄, as = bs₁ ++ bs₂ ++ bs₃ ++ bs₄ ++ bs₅ ∧
      (system env).Run ok initial bs₁ p₁ ∧ (p₁.store.ride r).status = some .dispatching ∧
      (system env).Run ok p₁ bs₂ p₂ ∧ (p₂.store.ride r).status = some .accepted ∧
      (system env).Run ok p₂ bs₃ p₃ ∧ (p₃.store.ride r).status = some .arriving ∧
      (system env).Run ok p₃ bs₄ p₄ ∧ (p₄.store.ride r).status = some .ongoing ∧
      (system env).Run ok p₄ bs₅ q

variable {env : Env} {p q : State} {a : Step} {r : RideId} {s : RideStatus}

/-- An update moves the status it overwrites along the table. That status is the one the
operation had read, or ACCEPTED where it had read DISPATCHING. -/
theorem status_write {read h : RideHash} {fields : List RideField} (since : Since read h)
    (write : RideWrite env read fields) (hs : h.status = some s) :
    (h.hset fields).status = some s ∨
      ∃ s' ∈ rideTransitions s, (h.hset fields).status = some s' := by
  cases write with
  | start now hst =>
    have heq : h = read := since.eq_of_status hst (by decide)
    rw [heq, hst] at hs
    cases hs
    exact Or.inr ⟨.dispatching, by decide, hset_startFields.1⟩
  | clear now hst => exact Or.inl (hset_clearBatchFields.1.trans hs)
  | exhaust now hst =>
    right
    refine ⟨.cancelled, ?_, hset_exhaustFields.1⟩
    rcases since.working hst with h' | h' <;> (rw [h'] at hs; cases hs; decide)
  | expand nextRound nextRadius now hst => exact Or.inl (hset_expandFields.1.trans hs)
  | batch batchId ds expiresAt now hst => exact Or.inl (hset_batchFields.1.trans hs)
  | reject exhausted now hst => exact Or.inl (hset_rejectFields.1.trans hs)
  | transition current next options now hst hnext hto hdriver =>
    right
    refine ⟨next, ?_, (hset_transitionFields hdriver).1⟩
    cases since with
    | same =>
      rw [hst] at hs
      cases hs
      exact hnext
    | accepted d acceptedAt hst' hd =>
      -- the table was consulted for DISPATCHING, and ACCEPTED is overwritten
      rw [hst] at hst'
      cases hst'
      cases hs
      simp only [rideTransitions, List.mem_cons, List.not_mem_nil, or_false] at hnext
      rcases hnext with rfl | rfl
      · exact absurd rfl hto.2
      · decide
    | absent g hnone =>
      rw [hst] at hnone
      cases hnone
  | requeue d now hst hd =>
    right
    refine ⟨.dispatching, ?_, hset_requeueFields.1⟩
    have heq : h = read := by
      rcases hst with hst | hst
      · exact since.eq_of_status hst (by decide)
      · exact since.eq_of_status hst (by decide)
    rw [← heq, hs] at hst
    rcases hst with hst | hst <;> (cases hst; decide)

theorem status_starts (hp : (rides env False).Holds p) (hnext : (system env).next p a = some q)
    (hnone : (p.store.ride r).status = none) (hs : (q.store.ride r).status = some s) :
    s = .requested := by
  cases ride_step hp hnext r with
  | same heq =>
    rw [heq, hnone] at hs
    cases hs
  | create absent c origin destination metadata now heq =>
    rw [heq] at hs
    cases hs
    rfl
  | accept d acceptedAt accepts hst hd heq =>
    rw [hnone] at hst
    cases hst
  | write read fields ws performs mem since write heq =>
    exact absurd hnone (since.status_ne_none write.status_ne_none)

theorem status_follows (hp : (rides env False).Holds p) (hnext : (system env).next p a = some q)
    (hs : (p.store.ride r).status = some s) :
    (q.store.ride r).status = some s ∨
      ∃ s' ∈ rideTransitions s, (q.store.ride r).status = some s' := by
  cases ride_step hp hnext r with
  | same heq => exact Or.inl (by rw [heq]; exact hs)
  | create absent c origin destination metadata now heq =>
    rw [absent] at hs
    cases hs
  | accept d acceptedAt accepts hst hd heq =>
    rw [hst] at hs
    cases hs
    exact Or.inr ⟨.accepted, by decide, by rw [heq]; rfl⟩
  | write read fields ws performs mem since write heq =>
    rw [heq]
    exact status_write since write hs

theorem terminal_stays {ok : State → Step → Prop} {bs : List Step}
    (hlocks : ∀ p k, keeps False k → ¬ ok p (.env (.expireLease k)))
    (hp : (rides env False).Holds p) (hrun : (system env).Run ok p bs q) (hterm : s.terminal = true)
    (hs : (p.store.ride r).status = some s) : (q.store.ride r).status = some s := by
  have hboth : (rides env False).Holds q ∧ (q.store.ride r).status = some s := by
    refine hrun.invariant (I := fun q => (rides env False).Holds q ∧ (q.store.ride r).status = some s)
      ⟨hp, hs⟩ fun m c m' hm hok hnext => ⟨rides_run hlocks (.single hok hnext) hm.1, ?_⟩
    rcases status_follows hm.1 hnext hm.2 with h | ⟨s', hmem, -⟩
    · exact h
    · cases s <;> simp_all [rideTransitions, RideStatus.terminal]
  exact hboth.2

/-- A status other than REQUESTED was reached from one that leads to it. -/
theorem came_from {ok : State → Step → Prop} {as : List Step}
    (hlocks : ∀ p k, keeps False k → ¬ ok p (.env (.expireLease k)))
    (hrun : (system env).Run ok initial as q) (hne : s ≠ .requested)
    (hs : (q.store.ride r).status = some s) :
    ∃ bs cs p s₀, as = bs ++ cs ∧ (system env).Run ok initial bs p ∧ (system env).Run ok p cs q ∧
      (p.store.ride r).status = some s₀ ∧ s ∈ rideTransitions s₀ := by
  have hinit : ¬ (initial.store.ride r).status = some s := by
    intro h
    cases h
  obtain ⟨bs, a, cs, m, m', rfl, hbs, hnext, hm, hm'⟩ :=
    hrun.acquires (P := fun p => (p.store.ride r).status = some s) hinit hs
  obtain ⟨m'', hbs', hrest⟩ := hrun.split
  obtain rfl : m'' = m := hbs'.unique hbs
  have hholds : (rides env False).Holds m'' := rides_run hlocks hbs rides_initial
  cases hst : (m''.store.ride r).status with
  | none => exact absurd (status_starts hholds hnext hst hm') hne
  | some s₀ =>
    refine ⟨bs, a :: cs, m'', s₀, rfl, hbs, hrest, hst, ?_⟩
    rcases status_follows hholds hnext hst with h | ⟨s', hmem, h⟩
    · rw [h, ← hst] at hm'
      exact absurd hm' hm
    · rw [h] at hm'
      cases hm'
      exact hmem

theorem follows_transitions : FollowsTransitions env RideLocksKept := by
  have hlocks : ∀ (p : State) k, keeps False k → ¬ RideLocksKept p (.env (.expireLease k)) :=
    fun p k hk => RideLocksKept.keeps hk
  refine ⟨fun as p a q r s hrun _ hnext => ?_, fun as p a q r s hrun _ hnext => ?_,
    fun as p bs q r s hrun hrun' => ?_, fun as q r hrun hs => ?_⟩
  · exact status_starts (rides_run hlocks hrun rides_initial) hnext
  · exact status_follows (rides_run hlocks hrun rides_initial) hnext
  · exact terminal_stays hlocks (rides_run hlocks hrun rides_initial) hrun'
  · obtain ⟨as₄, bs₅, p₄, s₄, rfl, hrun₄, h₅, hs₄, hmem₄⟩ := came_from hlocks hrun (by decide) hs
    obtain rfl : s₄ = .ongoing := by
      cases s₄ <;> simp [rideTransitions] at hmem₄ ⊢
    obtain ⟨as₃, bs₄, p₃, s₃, rfl, hrun₃, h₄, hs₃, hmem₃⟩ := came_from hlocks hrun₄ (by decide) hs₄
    obtain rfl : s₃ = .arriving := by
      cases s₃ <;> simp [rideTransitions] at hmem₃ ⊢
    obtain ⟨as₂, bs₃, p₂, s₂, rfl, hrun₂, h₃, hs₂, hmem₂⟩ := came_from hlocks hrun₃ (by decide) hs₃
    obtain rfl : s₂ = .accepted := by
      cases s₂ <;> simp [rideTransitions] at hmem₂ ⊢
    obtain ⟨bs₁, bs₂, p₁, s₁, rfl, hrun₁, h₂, hs₁, hmem₁⟩ := came_from hlocks hrun₂ (by decide) hs₂
    obtain rfl : s₁ = .dispatching := by
      cases s₁ <;> simp [rideTransitions] at hmem₁ ⊢
    exact ⟨bs₁, bs₂, bs₃, bs₄, bs₅, p₁, p₂, p₃, p₄, rfl, hrun₁, hs₁, h₂, hs₂, h₃, hs₃, h₄, hs₄, h₅⟩

end YatriGo
