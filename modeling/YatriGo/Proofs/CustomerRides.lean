import YatriGo.Proofs.Acceptance

/-! One active ride per customer. The customer's pointer is set under the customer's
lock, together with the ride it names, but a terminal cleanup deletes it under the
ride's lock, by what it had read. -/

namespace YatriGo
open Concurrent

/-- No lock of a ride, a driver or a customer expires while it is held. -/
def LocksKept (_ : State) (a : Step) : Prop := ∀ k : LockKey, k.mutex → a ≠ .env (.expireLease k)

theorem locksKept_of_lasting (p : State) (a : Step) (h : lasting p a = true) : LocksKept p a := by
  rintro k - rfl
  cases h

/-- `r` is a ride of customer `c` that is neither COMPLETED nor CANCELLED. -/
structure ActiveRide (c : CustomerId) (r : RideId) (s : Store) : Prop where
  exist : (s.ride r).status ≠ none
  going : ¬ (s.ride r).terminal
  customer : (s.ride r).customerId = c

/-- Thread `i` is a `requestRide` of customer `c` that is still running. -/
def Requesting (c : CustomerId) (p : State) (i : ℕ) : Prop :=
  Running p i = true ∧ ∃ origin destination metadata rest,
    p.threads[i]? = some (.requestRide c origin destination metadata, rest)

/-- In every state reached by steps allowed by `ok`, every customer has one active ride at
most, and its pointer names it. -/
def OneActiveRide (env : Env) (ok : State → Step → Prop) : Prop :=
  ∀ as p c, (system env).Run ok initial as p →
    (∀ r r', ActiveRide c r p.store → ActiveRide c r' p.store → r = r') ∧
    ∀ r, ActiveRide c r p.store → (∀ i, ¬ Requesting c p i) → p.store.customerActiveRide c = some r

instance {h : RideHash} : Decidable h.terminal :=
  inferInstanceAs (Decidable (h.status = some .completed ∨ h.status = some .cancelled))

/-- The pointer of a customer is not deleted while it names a ride that goes on. -/
def Write.sparesPointer (s : Store) : Write → Bool
  | .delCustomerActiveRide c => (s.customerActiveRide c).all fun r => (s.ride r).terminal
  | _ => true

def Cmd.sparesPointers (s : Store) : ⦃β : Type⦄ → Cmd β → Bool
  | _, .multi ws => ws.all (Write.sparesPointer s)
  | _, _ => true

variable {env : Env} {p q : State} {a : Step} {s t : Store} {c : CustomerId} {r : RideId}

/-- The pointers name all active rides. -/
def Pointed (s : Store) : Prop := ∀ c r, ActiveRide c r s → s.customerActiveRide c = some r

theorem ActiveRide.congr (h : ActiveRide c r t) (heq : t.ride r = s.ride r) : ActiveRide c r s where
  exist := by rw [← heq]; exact h.exist
  going := by rw [← heq]; exact h.going
  customer := by rw [← heq]; exact h.customer

theorem multi_customerActiveRide {ws : List Write}
    (h : ∀ w ∈ ws, w ≠ .delCustomerActiveRide c ∧ ∀ r, w ≠ .setCustomerActiveRide c r) :
    (s.multi ws).customerActiveRide c = s.customerActiveRide c := by
  induction ws generalizing s with
  | nil => rfl
  | cons w ws ih =>
    obtain ⟨hdel, hset⟩ := h w (List.mem_cons_self ..)
    rw [multi_cons, ih fun v hv => h v (List.mem_cons_of_mem _ hv)]
    cases w with
    | delCustomerActiveRide c' =>
      have hne : c ≠ c' := fun h' => hdel (h' ▸ rfl)
      exact put_of_ne hne
    | setCustomerActiveRide c' r =>
      have hne : c ≠ c' := fun h' => hset r (h' ▸ rfl)
      exact put_of_ne hne
    | _ => rfl

theorem Write.peripheral.pointer {w : Write} (h : w.peripheral) :
    w ≠ .delCustomerActiveRide c ∧ ∀ r, w ≠ .setCustomerActiveRide c r := by
  refine ⟨?_, fun r => ?_⟩
  · rintro rfl
    exact h
  · rintro rfl
    exact h

theorem Write.aside.pointer {w : Write} (h : w.aside) :
    w ≠ .delCustomerActiveRide c ∧ ∀ r, w ≠ .setCustomerActiveRide c r := by
  refine ⟨?_, fun r => ?_⟩
  · rintro rfl
    exact h
  · rintro rfl
    exact h

theorem Pointed.same (h : Pointed s) (hride : t.ride = s.ride)
    (hpointer : ∀ c r, ActiveRide c r s → t.customerActiveRide c = s.customerActiveRide c) :
    Pointed t := by
  intro c r hr
  have hs : ActiveRide c r s := hr.congr (congrFun hride r)
  rw [hpointer c r hs]
  exact h c r hs

theorem pointed_update {i : ℕ} {ws : List Write} (hs : Pointed s) (hu : Update env True i ws s)
    (hcheck : Cmd.sparesPointers s (.multi ws) = true) : Pointed (s.multi ws) := by
  cases hu with
  | background h =>
    exact hs.same (multi_sameRides h.sparesRides).ride fun c r _ =>
      multi_customerActiveRide fun w hw => (h.peripheral w hw).pointer
  | release d r hash active heartbeatExists now holds driver =>
    exact hs.same (multi_sameRides releaseWrites_sparesRides).ride fun c r _ =>
      multi_customerActiveRide fun w hw => (releaseWrites_peripheral w hw).pointer
  | cleanup r ds current holds terminal =>
    refine hs.same (multi_sameRides cleanupWrites_sparesRides).ride fun c r' hr' => ?_
    apply multi_customerActiveRide
    intro w hw
    refine ⟨?_, ?_⟩
    · -- the pointer names `r'`, which goes on
      rintro rfl
      have hspares : Write.sparesPointer s (.delCustomerActiveRide c) = true :=
        List.all_eq_true.mp hcheck _ hw
      simp only [Write.sparesPointer, hs c r' hr', Option.all_some, decide_eq_true_eq] at hspares
      exact hr'.going hspares
    · rintro r rfl
      simp only [cleanupWrites] at hw
      revert hw
      split_ifs <;> simp
  | create c origin destination metadata now r mine seq absent alone =>
    intro c' r' hr'
    obtain ⟨-, hterminal⟩ := alone trivial
    change put s.customerActiveRide c (some r) c' = some r'
    rcases eq_or_ne r' r with rfl | hne
    · have hc : c' = c := by
        rw [← hr'.customer]
        change (put s.ride r' _ r').customerId = c
        rw [put_self]
        rfl
      rw [hc, put_self]
    · have hride : (s.multi [.createRide r (requestPayload env c origin destination metadata now),
          .setCustomerActiveRide c r, .saddActiveRide r, .expireRide r]).ride r' = s.ride r' :=
        put_of_ne hne
      have hactive : ActiveRide c' r' s := hr'.congr hride
      have hpointer : s.customerActiveRide c' = some r' := hs c' r' hactive
      -- the caller had no ride that goes on: `requestRide` checks it under the customer's lock
      have hne' : c' ≠ c := by
        rintro rfl
        exact hactive.going (hterminal r' hpointer)
      rw [put_of_ne hne']
      exact hpointer
  | ride pre post r read fields holds since write aside =>
    intro c' r' hr'
    obtain ⟨hride, -, -⟩ := @multi_update s pre post r fields aside
    have hactive : ActiveRide c' r' s := by
      rcases eq_or_ne r' r with rfl | hne
      · have hexist := since.status_ne_none write.status_ne_none
        refine ⟨hexist, since.not_terminal write.status_ne_none write.not_terminal, ?_⟩
        rw [← hr'.customer, hride, put_self]
        exact hset_customerId.symm
      · have hsame : (s.multi (pre ++ .hsetRide r fields :: post)).ride r' = s.ride r' := by
          rw [hride, put_of_ne hne]
        exact hr'.congr hsame
    rw [multi_customerActiveRide fun w hw => ?_]
    · exact hs c' r' hactive
    · rcases List.mem_append.mp hw with h | h
      · exact (aside w (List.mem_append_left _ h)).pointer
      · rcases List.mem_cons.mp h with rfl | h
        · exact ⟨fun h => (by cases h), fun r h => (by cases h)⟩
        · exact (aside w (List.mem_append_right _ h)).pointer

theorem pointed_step (hp : (rides env True).Holds p) (hnext : (system env).next p a = some q)
    (hcheck : Checked Cmd.sparesPointers p a = true) (hs : Pointed p.store) : Pointed q.store := by
  have hsame : SameKeys p.store q.store → Pointed q.store := fun h =>
    hs.same h.ride fun c _ _ => congrFun h.customer c
  rcases next_cases hnext with h | ⟨i, op, β, c, k, rfl, hi, hstore⟩
  · exact hsame h
  · have hguar : RideGuar env True i c p.store := hp.guar hi trivial
    have hcmd : Cmd.sparesPointers p.store c = true := checked_command hcheck hi
    rw [hstore] at hsame ⊢
    cases c with
    | multi ws => exact pointed_update hs hguar hcmd
    | evalAcceptRide r d acceptedAt reservation =>
      change Pointed (acceptRideScript r d acceptedAt reservation p.store).2
      rcases @acceptRideScript_cases p.store r d acceptedAt reservation with ⟨-, h⟩ | ⟨-, h, hzero⟩
      · rw [h]
        exact hs
      · obtain ⟨hst, -⟩ := acceptRideGuard_eq_zero hzero
        rw [h]
        intro c r' hr'
        apply hs c r'
        rcases eq_or_ne r' r with rfl | hne
        · have hcustomer : (put p.store.ride r' _ r').customerId = c := hr'.customer
          rw [put_self] at hcustomer
          refine ⟨?_, ?_, hcustomer⟩
          · rw [hst]
            exact Option.some_ne_none _
          · rintro (h | h) <;> (rw [hst] at h; cases h)
        · exact hr'.congr (put_of_ne hne)
    | _ => exact hsame (exec_sameKeys (by trivial))

theorem LocksKept.keeps {k : LockKey} (hk : keeps True k) : ¬ LocksKept p (.env (.expireLease k)) :=
  fun hkept => hkept k (keeps_mutex hk) rfl

/-- A customer has one active ride at most, and the pointer names it, as long as no
cleanup deletes a pointer that has moved on to another ride that goes on. -/
theorem one_active_ride :
    OneActiveRide env fun p a => LocksKept p a ∧ Checked Cmd.sparesPointers p a = true := by
  intro as p c hrun
  have hboth : (rides env True).Holds p ∧ Pointed p.store := by
    refine hrun.invariant (I := fun p => (rides env True).Holds p ∧ Pointed p.store)
      ⟨rides_initial, fun c r hr => absurd rfl hr.exist⟩ fun p a q hp hok hnext => ⟨?_, ?_⟩
    · exact rides_run (fun p k hk => LocksKept.keeps hk) (.single hok.1 hnext) hp.1
    · exact pointed_step hp.1 hnext hok.2 hp.2
  refine ⟨fun r r' hr hr' => ?_, fun r hr _ => hboth.2 c r hr⟩
  have h₁ : p.store.customerActiveRide c = some r := hboth.2 c r hr
  rw [hboth.2 c r' hr'] at h₁
  cases h₁
  rfl

instance {c : CustomerId} {r : RideId} {s : Store} : Decidable (ActiveRide c r s) :=
  decidable_of_iff ((s.ride r).status ≠ none ∧ ¬ (s.ride r).terminal ∧ (s.ride r).customerId = c)
    ⟨fun h => ⟨h.1, h.2.1, h.2.2⟩, fun h => ⟨h.exist, h.going, h.customer⟩⟩

/-- Customer 7 cancels its ride and requests another while the cleanup of the first is
about to delete the pointer. The cleanup deletes it, and a third request is not refused. -/
theorem two_active_rides : ¬ OneActiveRide townEnv LocksKept := by
  intro h
  let request : Step := .call (.requestRide 7 ⟨0, 0⟩ ⟨0, 0⟩ ⟨none, []⟩)
  obtain ⟨p, hrun, hp⟩ := town_run locksKept_of_lasting
    (request :: run 0 14 ++ .call (.cancelRide ⟨0, 1⟩ .customer (some 7) "") :: run 1 13 ++
      request :: run 2 15 ++ run 1 6 ++ request :: run 3 14)
    (fun p => ActiveRide 7 ⟨2, 4⟩ p.store ∧ ActiveRide 7 ⟨3, 6⟩ p.store) (by decide +kernel)
  obtain ⟨h₁, h₂⟩ := of_decide_eq_true hp
  have heq : (⟨2, 4⟩ : RideId) = ⟨3, 6⟩ := (h _ p 7 hrun).1 ⟨2, 4⟩ ⟨3, 6⟩ h₁ h₂
  exact absurd heq (by decide)

end YatriGo
