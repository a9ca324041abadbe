import YatriGo.Concurrent.History
import YatriGo.Concurrent.Sequential
import YatriGo.Concurrent.Windows
import YatriGo.Services.RateLimit

/-! What the rate limiter allows. The first request of a window sets its end in a second command, so a window
lasts from its first request to a full length after that command, and for ever if the command never comes. -/

namespace YatriGo
open Concurrent

abbrev RateState := Pool RateCmd AppError RateStore RateOp

abbrev RateStep := Action RateOp RateEvent

def RateLimits.limit (limits : RateLimits) : RateScope → RateLimit
  | .requestRide => limits.requestRide
  | .acceptRide => limits.acceptRide

def RateLimit.windowMs (limit : RateLimit) : ℕ := limit.windowSeconds.toNat * 1000

def RateLimit.most (limit : RateLimit) : ℕ := limit.maxRequests.toNat

/-- The time of an INCR of the counter, and its answer. -/
def counts (key : RateKey) (p : RateState) : RateStep → List (ℕ × ℕ)
  | .step i =>
    match p.threads[i]? with
    | some (_, .cmd (.incr key') _) =>
      if key' = key then [(p.store.clock, (RateCmd.exec i (.incr key) p.store).1)] else []
    | _ => []
  | _ => []

/-- The requests that a run has counted, newest first. -/
def requests (limits : RateLimits) (key : RateKey) (as : List RateStep) (p : RateState) : List (ℕ × ℕ) :=
  ((rateSystem limits).observed (counts key) as p).reverse

/-- The counter whose window is about to get its end. -/
def opensWindow : Prog RateCmd AppError Unit → Option RateKey
  | .cmd (.expire key _) _ => some key
  | _ => none

/-- Thread `i` has opened a window, and has yet to set its end. -/
def Opening (key : RateKey) (p : RateState) (i : ℕ) : Prop :=
  ∃ op rest, p.threads[i]? = some (op, rest) ∧ opensWindow rest = some key

/-- Nothing runs yet. -/
def rateInitial : RateState := ⟨{}, []⟩

/-- What the limiter does with the requests of each actor, in every interleaving: a request passes when its INCR
answers at most `maxRequests`, and otherwise fails; in a stretch of time as long as `n` windows, as many requests
pass as `n + 1` windows let pass; when nothing runs, every counter is gone after one window; but a window whose end
is never set lasts for ever, and whatever time passes, it does not let `maxRequests` more requests pass. -/
structure LimitsRate (limits : RateLimits) : Prop where
  outcome : ∀ as q (i : ℕ) op (key : RateKey) (k : ℕ → Prog RateCmd AppError Unit),
    (rateSystem limits).Run (fun _ _ => True) rateInitial as q → q.threads[i]? = some (op, .cmd (.incr key) k) →
    ∀ count, (count ≤ (limits.limit key.scope).most → (k count).NoThrow) ∧
      ((limits.limit key.scope).most < count → ∃ message code, k count = .throw ⟨message, 429, code⟩)
  bound : ∀ as q (key : RateKey) since n, (rateSystem limits).Run (fun _ _ => True) rateInitial as q →
    (granted (limits.limit key.scope).most since (since + n * (limits.limit key.scope).windowMs)
      (requests limits key as rateInitial)).length ≤ (n + 1) * (limits.limit key.scope).most
  recovers : ∀ as q (key : RateKey) later, (rateSystem limits).Run (fun _ _ => True) rateInitial as q → q.idle = true →
    q.store.clock + (limits.limit key.scope).windowMs < later →
    ({ q.store with clock := later } : RateStore).counter key = none
  lockout : ∀ as p bs q (key : RateKey) (i : ℕ), (rateSystem limits).Run (fun _ _ => True) rateInitial as p →
    Opening key p i → (rateSystem limits).Run (fun _ a => a ≠ .step i) p bs q → ∀ deadline,
    (granted (limits.limit key.scope).most 0 deadline (requests limits key bs p)).length < (limits.limit key.scope).most

variable {limits : RateLimits} {key : RateKey} {p q : RateState} {a : RateStep} {as bs : List RateStep} {s t : RateStore}
  {i j : ℕ}

section commands

theorem counter_of_live {counter : Counter} (h : s.counter key = some counter) : s.counters key = some counter ∧
    ∀ expiresAt, counter.expiresAt = some expiresAt → s.clock ≤ expiresAt := by
  unfold RateStore.counter at h
  obtain ⟨hcounter, hlive⟩ := Option.filter_eq_some_iff.mp h
  refine ⟨hcounter, fun expiresAt hexpires => ?_⟩
  rw [hexpires] at hlive
  simpa using hlive

theorem counter_gone {counter : Counter} (h : s.counter key = none) (hcounter : s.counters key = some counter) :
    ∃ expiresAt, counter.expiresAt = some expiresAt ∧ expiresAt < s.clock := by
  unfold RateStore.counter at h
  rw [hcounter] at h
  cases hexpires : counter.expiresAt with
  | none => simp [hexpires] at h
  | some expiresAt => exact ⟨expiresAt, rfl, by simpa [hexpires] using h⟩

theorem counter_endless {counter : Counter} (h : s.counters key = some counter) (hexpires : counter.expiresAt = none) :
    s.counter key = some counter := by
  unfold RateStore.counter
  rw [h]
  simp [hexpires]

end commands

section programs

variable {rest : Prog RateCmd AppError Unit} {op : RateOp}

/-- What can be left of a request. -/
inductive Limiting (limits : RateLimits) : Prog RateCmd AppError Unit → Prop
  | ret : Limiting limits (.ret ())
  | throw (e : AppError) : Limiting limits (.throw e)
  | incr (key : RateKey) (k : ℕ → Prog RateCmd AppError Unit) (enabled : 0 < (limits.limit key.scope).most)
      (opens : k 1 = .cmd (.expire key (limits.limit key.scope).windowSeconds.toNat) fun _ => .ret ())
      (passes : ∀ count, count ≠ 1 → count ≤ (limits.limit key.scope).most → k count = .ret ())
      (fails : ∀ count, (limits.limit key.scope).most < count → ∃ message code, k count = .throw ⟨message, 429, code⟩) :
      Limiting limits (.cmd (.incr key) k)
  | expire (key : RateKey) (enabled : 0 < (limits.limit key.scope).most) :
      Limiting limits (.cmd (.expire key (limits.limit key.scope).windowSeconds.toNat) fun _ => .ret ())

theorem limiting_enforceLimit {scope : RateScope} {actorId : Option ℕ} {code message : String} :
    Limiting limits (enforceLimit scope actorId (limits.limit scope) code message) := by
  unfold enforceLimit
  cases actorId with
  | none => exact .ret
  | some actorId =>
    dsimp only
    split_ifs with hdisabled
    · exact .ret
    · have henabled : 0 < (limits.limit scope).maxRequests := by omega
      have hmost : ((limits.limit scope).most : ℤ) = (limits.limit scope).maxRequests := Int.toNat_of_nonneg henabled.le
      have hcap : ∀ count : ℕ, (limits.limit scope).maxRequests < count ↔ (limits.limit scope).most < count := by omega
      refine .incr ⟨scope, actorId⟩ _ (by show 0 < (limits.limit scope).most; omega) ?_ (fun count hne hle => ?_) fun count hlt => ?_
      · have hpass : ¬ (limits.limit scope).maxRequests < (1 : ℕ) := by omega
        simp only [Prog.bind_eq, Prog.pure_eq, Prog.ret_bind, Prog.perform_bind, if_true, if_neg hpass]
      · have hpass : ¬ (limits.limit scope).maxRequests < count := by rwa [hcap, Nat.not_lt]
        simp only [Prog.bind_eq, Prog.pure_eq, Prog.ret_bind, if_neg hne, if_neg hpass]
      · have hne : count ≠ 1 := by
          change (limits.limit scope).most < count at hlt
          omega
        refine ⟨message, code, ?_⟩
        simp only [Prog.bind_eq, Prog.pure_eq, Prog.ret_bind, if_neg hne, if_pos ((hcap count).mpr hlt)]

theorem code_cases : (rateSystem limits).code op = .ret () ∨ ∃ key k, (rateSystem limits).code op = .cmd (.incr key) k := by
  have henforce : ∀ {scope : RateScope} {actorId : Option ℕ} {limit : RateLimit} {code message : String},
      enforceLimit scope actorId limit code message = .ret () ∨
        ∃ key k, enforceLimit scope actorId limit code message = .cmd (.incr key) k := fun {scope actorId limit code message} => by
    unfold enforceLimit
    cases actorId with
    | none => exact .inl rfl
    | some actorId =>
      dsimp only
      split_ifs
      · exact .inl rfl
      · exact .inr ⟨_, _, rfl⟩
  cases op with
  | requestRide customerId => exact henforce
  | acceptRide driverId => exact henforce

theorem limiting_code : Limiting limits ((rateSystem limits).code op) := by
  cases op with
  | requestRide customerId => exact @limiting_enforceLimit limits .requestRide customerId _ _
  | acceptRide driverId => exact @limiting_enforceLimit limits .acceptRide driverId _ _

end programs

theorem Limiting.command (h : Limiting limits rest) :
    match rest with
    | .cmd (.incr key) k => 0 < (limits.limit key.scope).most ∧
      k 1 = .cmd (.expire key (limits.limit key.scope).windowSeconds.toNat) (fun _ => .ret ()) ∧
      (∀ count, count ≠ 1 → count ≤ (limits.limit key.scope).most → k count = .ret ()) ∧
      ∀ count, (limits.limit key.scope).most < count → ∃ message code, k count = .throw ⟨message, 429, code⟩
    | .cmd (.expire key seconds) k => seconds = (limits.limit key.scope).windowSeconds.toNat ∧ k = fun _ => .ret ()
    | _ => True := by
  cases h with
  | ret => trivial
  | throw e => trivial
  | incr key k enabled opens passes fails => exact ⟨enabled, opens, passes, fails⟩
  | expire key enabled => exact ⟨rfl, rfl⟩

theorem Limiting.next {β : Type} {c : RateCmd β} {k : β → Prog RateCmd AppError Unit} (h : Limiting limits (.cmd c k)) (i : ℕ) (s : RateStore) :
    Limiting limits (k (RateCmd.exec i c s).1) := by
  cases h with
  | incr key k enabled opens passes fails =>
    generalize (RateCmd.exec i (.incr key) s).1 = count
    by_cases hone : count = 1
    · rw [hone, opens]
      exact .expire key enabled
    · rcases Nat.lt_or_ge (limits.limit key.scope).most count with hlt | hle
      · obtain ⟨message, code, hfail⟩ := fails count hlt
        rw [hfail]
        exact .throw _
      · rw [passes count hone hle]
        exact .ret
  | expire key enabled => exact .ret

theorem limiting_run (hrun : (rateSystem limits).Run (fun _ _ => True) rateInitial as q) :
    ∀ (i : ℕ) op rest, q.threads[i]? = some (op, rest) → Limiting limits rest := by
  refine hrun.invariant (I := fun q => ∀ (i : ℕ) op rest, q.threads[i]? = some (op, rest) → Limiting limits rest)
    (fun i op rest hi => by simp [rateInitial] at hi) fun p a q hp _ hnext i op rest hi => ?_
  rcases System.next_thread hnext hi with ⟨hbefore, -⟩ | ⟨-, rfl, -⟩ | ⟨-, β, c, k, hbefore, -, rfl⟩
  · exact hp i op rest hbefore
  · exact limiting_code
  · exact (hp i op _ hbefore).next i p.store

/-- The counter and the requests that it has counted. -/
inductive Tally (width : ℕ) : List (ℕ × ℕ) → Option Counter → Prop
  | fresh : Tally width [] none
  | counting {log : List (ℕ × ℕ)} {start : ℕ} {counter : Counter} (windows : Windowed width log start counter.count)
      (lasts : ∀ expiresAt, counter.expiresAt = some expiresAt → start + width ≤ expiresAt) : Tally width log (some counter)

section tally

variable {width seconds : ℕ} {log : List (ℕ × ℕ)}

theorem exec_incr_live {counter : Counter} (h : s.counter key = some counter) : RateCmd.exec i (.incr key) s =
    (counter.count + 1, { s with counters := put s.counters key (some { counter with count := counter.count + 1 }) }) := by
  simp only [RateCmd.exec, h]

theorem exec_incr_gone (h : s.counter key = none) :
    RateCmd.exec i (.incr key) s = (1, { s with counters := put s.counters key (some ⟨1, none⟩) }) := by
  simp only [RateCmd.exec, h]

theorem Tally.incr (h : Tally width log (s.counters key)) (hpast : ∀ e ∈ log, e.1 ≤ s.clock) :
    Tally width ((s.clock, (RateCmd.exec i (.incr key) s).1) :: log) ((RateCmd.exec i (.incr key) s).2.counters key) := by
  cases hcounter : s.counter key with
  | some counter =>
    simp only [exec_incr_live hcounter, put_self]
    rw [(counter_of_live hcounter).1] at h
    cases h with
    | counting windows lasts => exact .counting (windows.counted hpast) lasts
  | none =>
    simp only [exec_incr_gone hcounter, put_self]
    generalize hkey : s.counters key = found at h
    cases h with
    | fresh => exact .counting (.first _) fun _ h => by cases h
    | counting windows lasts =>
      obtain ⟨expiresAt, hexpires, hover⟩ := counter_gone hcounter hkey
      have hlasts := lasts expiresAt hexpires
      exact .counting (windows.opened (hlasts.trans hover.le) hpast) fun _ h => by cases h

theorem Tally.expire (h : Tally width log (s.counters key)) (hpast : ∀ e ∈ log, e.1 ≤ s.clock) (hwidth : width = seconds * 1000) :
    Tally width log ((RateCmd.exec i (.expire key seconds) s).2.counters key) := by
  cases hcounter : s.counter key with
  | none =>
    simp only [RateCmd.exec, hcounter]
    exact h
  | some counter =>
    simp only [RateCmd.exec, hcounter, put_self]
    rw [(counter_of_live hcounter).1] at h
    cases h with
    | counting windows lasts =>
      obtain ⟨e, he, hstart⟩ := windows.start_mem
      have hbefore : e.1 ≤ s.clock := hpast e he
      refine .counting windows fun expiresAt hexpires => ?_
      obtain rfl : s.clock + seconds * 1000 = expiresAt := Option.some.inj hexpires
      omega

theorem counters_incr_of_ne {key' : RateKey} (h : key' ≠ key) :
    (RateCmd.exec i (.incr key') s).2.counters key = s.counters key := by
  cases hcounter : s.counter key' with
  | some counter =>
    rw [exec_incr_live hcounter]
    exact put_of_ne h.symm
  | none =>
    rw [exec_incr_gone hcounter]
    exact put_of_ne h.symm

theorem counters_expire_of_ne {key' : RateKey} (h : key' ≠ key) :
    (RateCmd.exec i (.expire key' seconds) s).2.counters key = s.counters key := by
  cases hcounter : s.counter key' with
  | some counter =>
    simp only [RateCmd.exec, hcounter]
    exact put_of_ne h.symm
  | none => simp only [RateCmd.exec, hcounter]

theorem rate_clock {β : Type} {c : RateCmd β} : (RateCmd.exec i c s).2.clock = s.clock := by
  cases c <;> (simp only [RateCmd.exec]; split <;> rfl)

end tally

section runs

variable {ok : RateState → RateStep → Prop}

theorem requests_snoc (hrun : (rateSystem limits).Run ok p bs q) {q' : RateState} (hnext : (rateSystem limits).next q a = some q') :
    requests limits key (bs ++ [a]) p = (counts key q a).reverse ++ requests limits key bs p := by
  unfold requests
  rw [hrun.observed_append, System.observed_single hnext, List.reverse_append]

theorem counts_step {op : RateOp} {β : Type} {c : RateCmd β} {k : β → Prog RateCmd AppError Unit}
    (hi : p.threads[i]? = some (op, .cmd c k)) : counts key p (.step i) =
      match c with
      | .incr key' => if key' = key then [(p.store.clock, (RateCmd.exec i (.incr key) p.store).1)] else []
      | .expire .. => [] := by
  simp only [counts, hi]
  cases c <;> rfl

/-- In every run the counter agrees with the requests that it has counted. -/
theorem tally_run (hrun : (rateSystem limits).Run ok rateInitial as q) :
    Tally (limits.limit key.scope).windowMs (requests limits key as rateInitial) (q.store.counters key) ∧
      ∀ e ∈ requests limits key as rateInitial, e.1 ≤ q.store.clock := by
  refine hrun.last_induction (I := fun as q => Tally (limits.limit key.scope).windowMs (requests limits key as rateInitial)
    (q.store.counters key) ∧ ∀ e ∈ requests limits key as rateInitial, e.1 ≤ q.store.clock)
    ⟨.fresh, fun e he => by cases he⟩ fun bs a p q hbs hp _ hnext => ?_
  obtain ⟨htally, hpast⟩ := hp
  rw [requests_snoc hbs hnext]
  cases a with
  | call op =>
    cases hnext
    exact ⟨htally, hpast⟩
  | env e =>
    cases hnext
    exact ⟨htally, fun e' he' => (hpast e' he').trans (Nat.le_add_right _ _)⟩
  | step i =>
    obtain ⟨op, β, c, k, hi, hstore, -⟩ := System.next_step hnext
    have hclock : q.store.clock = p.store.clock := by
      rw [hstore]
      exact rate_clock
    have hlimiting := limiting_run (hbs.mono fun _ _ _ => trivial) i op _ hi
    rw [counts_step hi, hclock, hstore]
    cases c with
    | incr key' =>
      rcases eq_or_ne key' key with rfl | hne
      · simp only [if_true, List.reverse_singleton, List.singleton_append]
        refine ⟨htally.incr hpast, fun e he => ?_⟩
        rcases List.mem_cons.mp he with rfl | he
        · exact le_rfl
        · exact hpast e he
      · simp only [if_neg hne, List.reverse_nil, List.nil_append]
        refine ⟨?_, hpast⟩
        show Tally _ _ ((RateCmd.exec i (.incr key') p.store).2.counters key)
        rw [counters_incr_of_ne hne]
        exact htally
    | expire key' seconds =>
      simp only [List.reverse_nil, List.nil_append]
      refine ⟨?_, hpast⟩
      show Tally _ _ ((RateCmd.exec i (.expire key' seconds) p.store).2.counters key)
      rcases eq_or_ne key' key with rfl | hne
      · have hseconds : seconds = (limits.limit key'.scope).windowSeconds.toNat := hlimiting.command.1
        exact htally.expire hpast (by rw [hseconds]; rfl)
      · rw [counters_expire_of_ne hne]
        exact htally

/-- A counter lacks an end exactly as long as the one request that opened its window has yet to set it. -/
structure Openings (key : RateKey) (p : RateState) : Prop where
  endless : ∀ i, Opening key p i → ∃ counter, p.store.counters key = some counter ∧ counter.expiresAt = none
  unique : ∀ i j, Opening key p i → Opening key p j → i = j
  opener : ∀ counter, p.store.counters key = some counter → counter.expiresAt = none → ∃ i, Opening key p i
  positive : ∀ counter, p.store.counters key = some counter → 0 < counter.count

theorem opensWindow_code {op : RateOp} : opensWindow ((rateSystem limits).code op) = none := by
  rcases @code_cases limits op with h | ⟨key, k, h⟩
  · rw [h]
    rfl
  · rw [h]
    rfl

theorem Limiting.enabled {rest : Prog RateCmd AppError Unit} (h : Limiting limits rest) (hopens : opensWindow rest = some key) :
    0 < (limits.limit key.scope).most := by
  cases h with
  | ret => cases hopens
  | throw e => cases hopens
  | incr key' k enabled opens passes fails => cases hopens
  | expire key' enabled =>
    cases hopens
    exact enabled

theorem opensWindow_incr {k : ℕ → Prog RateCmd AppError Unit} (h : Limiting limits (.cmd (.incr key) k)) (count : ℕ) :
    opensWindow (k count) = if count = 1 then some key else none := by
  obtain ⟨enabled, opens, passes, fails⟩ := h.command
  split_ifs with hone
  · rw [hone, opens]
    rfl
  · rcases Nat.lt_or_ge (limits.limit key.scope).most count with hlt | hle
    · obtain ⟨message, code, hfail⟩ := fails count hlt
      rw [hfail]
      rfl
    · rw [passes count hone hle]
      rfl

theorem opensWindow_expire {seconds : ℕ} {k : Unit → Prog RateCmd AppError Unit}
    (h : Limiting limits (.cmd (.expire key seconds) k)) : opensWindow (k ()) = none := by
  rw [h.command.2]
  rfl

theorem opening_other {i : ℕ} (hnext : (rateSystem limits).next p (.step i) = some q) (hne : j ≠ i) :
    Opening key q j ↔ Opening key p j := by
  obtain ⟨op, β, c, k, hi, -, hthreads⟩ := System.next_step hnext
  unfold Opening
  rw [hthreads, List.getElem?_set_ne hne.symm]

theorem opening_self {i : ℕ} {op : RateOp} {β : Type} {c : RateCmd β} {k : β → Prog RateCmd AppError Unit}
    (hnext : (rateSystem limits).next p (.step i) = some q) (hi : p.threads[i]? = some (op, .cmd c k)) :
    Opening key q i ↔ opensWindow (k (RateCmd.exec i c p.store).1) = some key := by
  obtain ⟨op', β', c', k', hi', -, hthreads⟩ := System.next_step hnext
  rw [hi] at hi'
  cases hi'
  unfold Opening
  rw [hthreads, List.getElem?_set_self (List.getElem?_eq_some_iff.mp hi).1]
  constructor
  · rintro ⟨op', rest, heq, hopens⟩
    cases heq
    exact hopens
  · exact fun hopens => ⟨op, _, rfl, hopens⟩

theorem Openings.congr (h : Openings key p) (hcounter : q.store.counters key = p.store.counters key)
    (hopening : ∀ j, Opening key q j ↔ Opening key p j) : Openings key q where
  endless := fun i hi => by
    rw [hcounter]
    exact h.endless i ((hopening i).mp hi)
  unique := fun i j hi hj => h.unique i j ((hopening i).mp hi) ((hopening j).mp hj)
  opener := fun counter hkey hexpires => by
    rw [hcounter] at hkey
    obtain ⟨i, hi⟩ := h.opener counter hkey hexpires
    exact ⟨i, (hopening i).mpr hi⟩
  positive := fun counter hkey => h.positive counter (hcounter ▸ hkey)

/-- A new request is not in the middle of anything. -/
theorem opening_call {op : RateOp} (hnext : (rateSystem limits).next p (.call op) = some q) :
    Opening key q j ↔ Opening key p j := by
  constructor
  · rintro ⟨op', rest, hj, hopens⟩
    rcases System.next_thread hnext hj with ⟨hbefore, -⟩ | ⟨-, rfl, -⟩ | ⟨hstep, -⟩
    · exact ⟨op', rest, hbefore, hopens⟩
    · rw [opensWindow_code] at hopens
      cases hopens
    · cases hstep
  · rintro ⟨op', rest, hj, hopens⟩
    cases hnext
    refine ⟨op', rest, ?_, hopens⟩
    rw [List.getElem?_append_left (List.getElem?_eq_some_iff.mp hj).1]
    exact hj

theorem Openings.incr {op : RateOp} {k : ℕ → Prog RateCmd AppError Unit} (h : Openings key p)
    (hi : p.threads[i]? = some (op, .cmd (.incr key) k)) (hshape : Limiting limits (.cmd (.incr key) k))
    (hnext : (rateSystem limits).next p (.step i) = some q) (hstore : q.store = (RateCmd.exec i (.incr key) p.store).2) :
    Openings key q := by
  have hself : Opening key q i ↔ (RateCmd.exec i (.incr key) p.store).1 = 1 := by
    rw [opening_self hnext hi]
    show opensWindow (k (RateCmd.exec i (.incr key) p.store).1) = _ ↔ _
    rw [opensWindow_incr hshape]
    split_ifs with hone <;> simp [hone]
  have hbefore : ¬ Opening key p i := by
    rintro ⟨op', rest, heq, hopens⟩
    rw [hi] at heq
    cases heq
    cases hopens
  cases hcounter : p.store.counter key with
  | some counter =>
    obtain ⟨hkey, -⟩ := counter_of_live hcounter
    have hpositive : 0 < counter.count := h.positive counter hkey
    rw [exec_incr_live hcounter] at hself hstore
    have hnot : ¬ Opening key q i := fun hopening => by
      have hone := hself.mp hopening
      simp only at hone
      omega
    have hopening : ∀ j, Opening key q j ↔ Opening key p j := fun j => by
      rcases eq_or_ne j i with rfl | hne
      · exact ⟨fun h => absurd h hnot, fun h => absurd h hbefore⟩
      · exact opening_other hnext hne
    have hkey' : q.store.counters key = some { counter with count := counter.count + 1 } := by
      rw [hstore]
      exact put_self
    refine ⟨fun j hj => ?_, fun j j' hj hj' => ?_, fun counter' hcounter' hexpires => ?_, fun counter' hcounter' => ?_⟩
    · obtain ⟨counter', hcounter', hendless⟩ := h.endless j ((hopening j).mp hj)
      rw [hkey] at hcounter'
      cases hcounter'
      exact ⟨_, hkey', hendless⟩
    · exact h.unique j j' ((hopening j).mp hj) ((hopening j').mp hj')
    · rw [hkey'] at hcounter'
      cases hcounter'
      obtain ⟨j, hj⟩ := h.opener counter hkey hexpires
      exact ⟨j, (hopening j).mpr hj⟩
    · rw [hkey'] at hcounter'
      cases hcounter'
      exact Nat.succ_pos _
  | none =>
    rw [exec_incr_gone hcounter] at hself hstore
    have hothers : ∀ j, Opening key q j → j = i := fun j hj => by
      by_contra hne
      -- the counter of a window that has no end would still be there
      obtain ⟨counter, hkey, hendless⟩ := h.endless j ((opening_other hnext hne).mp hj)
      rw [counter_endless hkey hendless] at hcounter
      cases hcounter
    have hkey' : q.store.counters key = some ⟨1, none⟩ := by
      rw [hstore]
      exact put_self
    refine ⟨fun j hj => ⟨_, hkey', rfl⟩, fun j j' hj hj' => ?_, fun counter' _ _ => ⟨i, hself.mpr rfl⟩, fun counter' hcounter' => ?_⟩
    · rw [hothers j hj, hothers j' hj']
    · rw [hkey'] at hcounter'
      cases hcounter'
      exact Nat.one_pos

theorem Openings.expire {op : RateOp} {seconds : ℕ} {k : Unit → Prog RateCmd AppError Unit} (h : Openings key p)
    (hi : p.threads[i]? = some (op, .cmd (.expire key seconds) k)) (hshape : Limiting limits (.cmd (.expire key seconds) k))
    (hnext : (rateSystem limits).next p (.step i) = some q) (hstore : q.store = (RateCmd.exec i (.expire key seconds) p.store).2) :
    Openings key q := by
  have hopening : Opening key p i := ⟨op, _, hi, rfl⟩
  obtain ⟨counter, hkey, hendless⟩ := h.endless i hopening
  have hkey' : q.store.counters key = some { counter with expiresAt := some (p.store.clock + seconds * 1000) } := by
    rw [hstore]
    simp only [RateCmd.exec, counter_endless hkey hendless, put_self]
  have hnobody : ∀ j, ¬ Opening key q j := fun j hj => by
    rcases eq_or_ne j i with rfl | hne
    · rw [opening_self hnext hi] at hj
      change opensWindow (k ()) = some key at hj
      rw [opensWindow_expire hshape] at hj
      cases hj
    · exact hne (h.unique j i ((opening_other hnext hne).mp hj) hopening)
  refine ⟨fun j hj => absurd hj (hnobody j), fun j j' hj => absurd hj (hnobody j), fun counter' hcounter' hexpires => ?_,
    fun counter' hcounter' => ?_⟩
  · rw [hkey'] at hcounter'
    cases hcounter'
    cases hexpires
  · rw [hkey'] at hcounter'
    cases hcounter'
    exact h.positive counter hkey

theorem Openings.next (h : Openings key p) (hlimiting : ∀ (i : ℕ) op rest, p.threads[i]? = some (op, rest) → Limiting limits rest)
    (hnext : (rateSystem limits).next p a = some q) : Openings key q := by
  cases a with
  | env e =>
    cases hnext
    exact h.congr rfl fun j => Iff.rfl
  | call op =>
    refine h.congr ?_ fun j => opening_call hnext
    cases hnext
    rfl
  | step i =>
    obtain ⟨op, β, c, k, hi, hstore, -⟩ := System.next_step hnext
    have hshape : Limiting limits (.cmd c k) := hlimiting i op _ hi
    -- a step on another counter opens and ends no window of this one
    have hother : q.store.counters key = p.store.counters key → opensWindow (.cmd c k) ≠ some key →
        opensWindow (k (RateCmd.exec i c p.store).1) ≠ some key → Openings key q := fun hcounter hbefore hafter => by
      refine h.congr hcounter fun j => ?_
      rcases eq_or_ne j i with rfl | hne
      · rw [opening_self hnext hi]
        refine ⟨fun hopens => absurd hopens hafter, ?_⟩
        rintro ⟨op', rest, heq, hopens⟩
        rw [hi] at heq
        cases heq
        exact absurd hopens hbefore
      · exact opening_other hnext hne
    cases c with
    | incr key' =>
      rcases eq_or_ne key' key with rfl | hne
      · exact h.incr hi hshape hnext hstore
      · refine hother ?_ (fun h => by cases h) ?_
        · rw [hstore]
          exact counters_incr_of_ne hne
        · rw [opensWindow_incr hshape]
          split_ifs <;> simp [hne]
    | expire key' seconds =>
      rcases eq_or_ne key' key with rfl | hne
      · exact h.expire hi hshape hnext hstore
      · refine hother ?_ (fun h => hne (Option.some.inj h)) ?_
        · rw [hstore]
          exact counters_expire_of_ne hne
        · show opensWindow (k ()) ≠ some key
          rw [opensWindow_expire hshape]
          exact (Option.some_ne_none key).symm

theorem openings_run (hrun : (rateSystem limits).Run (fun _ _ => True) rateInitial as q) : Openings key q := by
  have hboth : Openings key q ∧ ∀ (i : ℕ) op rest, q.threads[i]? = some (op, rest) → Limiting limits rest := by
    refine ⟨?_, limiting_run hrun⟩
    refine hrun.last_induction (I := fun _ q => Openings key q) ?_ fun bs a p q hbs hp _ hnext => hp.next (limiting_run hbs) hnext
    refine ⟨?_, ?_, fun counter h => (by cases h), fun counter h => by cases h⟩
    · rintro i ⟨op, rest, hi, -⟩
      simp [rateInitial] at hi
    · rintro i j ⟨op, rest, hi, -⟩
      simp [rateInitial] at hi
  exact hboth.1

/-- As long as the thread that opened a window makes no step, the window lasts, and its counter counts on. -/
theorem lasting_run (hrun : (rateSystem limits).Run (fun _ _ => True) rateInitial as p) (hopening : Opening key p i)
    (hbs : (rateSystem limits).Run (fun _ a => a ≠ .step i) p bs q) :
    Opening key q i ∧ ∃ counter, q.store.counters key = some counter ∧ ∀ most since deadline, 0 < most →
      (granted most since deadline (requests limits key bs p)).length + 1 ≤ min counter.count most := by
  refine hbs.last_induction (I := fun bs q => Opening key q i ∧ ∃ counter, q.store.counters key = some counter ∧
    ∀ most since deadline, 0 < most →
      (granted most since deadline (requests limits key bs p)).length + 1 ≤ min counter.count most) ?_ ?_
  · have hopenings : Openings key p := openings_run hrun
    obtain ⟨counter, hkey, -⟩ := hopenings.endless i hopening
    refine ⟨hopening, counter, hkey, fun most since deadline hmost => ?_⟩
    exact le_min (hopenings.positive counter hkey) hmost
  · intro cs a m m' hcs hm ha hnext
    obtain ⟨hstill, counter, hkey, hgranted⟩ := hm
    have hm : (rateSystem limits).Run (fun _ _ => True) rateInitial (as ++ cs) m := hrun.append (hcs.mono fun _ _ _ => trivial)
    have hopenings : Openings key m := openings_run hm
    have hlive : m.store.counter key = some counter := by
      obtain ⟨counter', hkey', hendless⟩ := hopenings.endless i hstill
      rw [hkey] at hkey'
      cases hkey'
      exact counter_endless hkey hendless
    rw [requests_snoc hcs hnext]
    cases a with
    | call op =>
      refine ⟨(opening_call hnext).mpr hstill, counter, ?_, hgranted⟩
      cases hnext
      exact hkey
    | env e =>
      cases hnext
      exact ⟨hstill, counter, hkey, hgranted⟩
    | step j =>
      obtain ⟨op, β, c, k, hj, hstore, -⟩ := System.next_step hnext
      have hne : i ≠ j := by
        rintro rfl
        exact ha rfl
      refine ⟨(opening_other hnext hne).mpr hstill, ?_⟩
      rw [counts_step hj, hstore]
      cases c with
      | incr key' =>
        rcases eq_or_ne key' key with rfl | hkeys
        · simp only [if_true, List.reverse_singleton, List.singleton_append]
          refine ⟨{ counter with count := counter.count + 1 }, ?_, fun most since deadline hmost => ?_⟩
          · show (RateCmd.exec j (.incr key') m.store).2.counters key' = _
            rw [exec_incr_live hlive]
            exact put_self
          · have hbefore := hgranted most since deadline hmost
            rw [granted_cons, exec_incr_live hlive]
            simp only
            split_ifs with hnew <;> omega
        · simp only [if_neg hkeys, List.reverse_nil, List.nil_append]
          exact ⟨counter, (@counters_incr_of_ne key m.store j key' hkeys).trans hkey, hgranted⟩
      | expire key' seconds =>
        simp only [List.reverse_nil, List.nil_append]
        rcases eq_or_ne key' key with rfl | hkeys
        · exact absurd (hopenings.unique i j hstill ⟨op, _, hj, rfl⟩) hne
        · exact ⟨counter, (counters_expire_of_ne hkeys).trans hkey, hgranted⟩

/-- A window that has an end, ends within one window from now. -/
theorem ends_run (hrun : (rateSystem limits).Run (fun _ _ => True) rateInitial as q) : ∀ counter expiresAt,
    q.store.counters key = some counter → counter.expiresAt = some expiresAt →
    expiresAt ≤ q.store.clock + (limits.limit key.scope).windowMs := by
  refine hrun.last_induction (I := fun _ q => ∀ counter expiresAt, q.store.counters key = some counter →
    counter.expiresAt = some expiresAt → expiresAt ≤ q.store.clock + (limits.limit key.scope).windowMs)
    (fun counter expiresAt h => by cases h) fun bs a p q hbs hp _ hnext counter expiresAt hcounter hexpires => ?_
  cases a with
  | call op =>
    cases hnext
    exact hp counter expiresAt hcounter hexpires
  | env e =>
    cases hnext
    have hbefore := hp counter expiresAt hcounter hexpires
    show expiresAt ≤ p.store.clock + e.ms + _
    omega
  | step i =>
    obtain ⟨op, β, c, k, hi, hstore, -⟩ := System.next_step hnext
    have hshape : Limiting limits (.cmd c k) := limiting_run hbs i op _ hi
    have hclock : q.store.clock = p.store.clock := by
      rw [hstore]
      exact rate_clock
    rw [hclock]
    rw [hstore] at hcounter
    cases c with
    | incr key' =>
      change (RateCmd.exec i (.incr key') p.store).2.counters key = some counter at hcounter
      rcases eq_or_ne key' key with rfl | hne
      · cases hlive : p.store.counter key' with
        | some counter' =>
          simp only [exec_incr_live hlive, put_self, Option.some.injEq] at hcounter
          subst hcounter
          exact hp counter' expiresAt (counter_of_live hlive).1 hexpires
        | none =>
          simp only [exec_incr_gone hlive, put_self, Option.some.injEq] at hcounter
          subst hcounter
          cases hexpires
      · rw [counters_incr_of_ne hne] at hcounter
        exact hp counter expiresAt hcounter hexpires
    | expire key' seconds =>
      change (RateCmd.exec i (.expire key' seconds) p.store).2.counters key = some counter at hcounter
      rcases eq_or_ne key' key with rfl | hne
      · cases hlive : p.store.counter key' with
        | some counter' =>
          simp only [RateCmd.exec, hlive, put_self, Option.some.injEq] at hcounter
          subst hcounter
          obtain rfl : p.store.clock + seconds * 1000 = expiresAt := Option.some.inj hexpires
          rw [hshape.command.1]
          exact le_rfl
        | none =>
          simp only [RateCmd.exec, hlive] at hcounter
          exact hp counter expiresAt hcounter hexpires
      · rw [counters_expire_of_ne hne] at hcounter
        exact hp counter expiresAt hcounter hexpires

end runs

end YatriGo
