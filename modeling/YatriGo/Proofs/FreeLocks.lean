import YatriGo.Concurrent.Debts
import YatriGo.Proofs.Orderly
import YatriGo.Proofs.RideSteps

/-! No lock is left behind. Whoever takes a ride's, a driver's or a customer's lock owes its release until it
has released it, also where it throws, and also where the lease has expired meanwhile. -/

namespace YatriGo
open Concurrent

/-- The lock is taken, with the token. -/
def Store.taken (s : Store) (x : LockKey × Token) : Prop := x.1.mutex ∧ (s.locks x.1).map Lease.token = some x.2

def Cmd.gives : ⦃β : Type⦄ → Cmd β → Set (LockKey × Token)
  | _, .evalReleaseLock key token => {(key, token)}
  | _, _ => ∅

/-- A lock that becomes taken is to be released by the thread that took it. -/
def releases (env : Env) : Debts (system env) (LockKey × Token) where
  known := fun _ _ => True
  changed := fun s t x => t.taken x ∧ ¬ s.taken x
  pays := fun _ c _ => c.gives
  assume := fun _ _ _ _ _ => True
  perform := fun _ _ _ _ => True

/-- Whenever a lock of a ride, a driver or a customer is taken, an operation is still running that releases this lock,
with the token it was taken with, before it ends; so at rest all of them are free. -/
structure LocksReturned (env : Env) (ok : State → Step → Prop) : Prop where
  returned : ∀ as q key lease, (system env).Run ok initial as q → key.mutex → q.store.locks key = some lease →
    ∃ i, Running q i = true ∧ ∀ bs q', (system env).Run ok q bs q' → Running q' i = false →
      ∃ cs ds m op k, bs = cs ++ .step i :: ds ∧ (system env).Run ok q cs m ∧
        m.threads[i]? = some (op, .cmd (.evalReleaseLock key lease.token) k)
  free : ∀ as q key, (system env).Run ok initial as q → Idle q = true → key.mutex → q.store.locks key = none

variable {env : Env} {i : ℕ} {op : Op} {α β : Type} {s t : Store} {x : LockKey × Token} {due : Set (LockKey × Token)}
  {p q : State} {a : Step}

theorem taken_other {c : Cmd β} (hc : c.lockOf ≠ some x.1) (h : (exec env i c s).2.taken x) : s.taken x := by
  obtain ⟨hmutex, hlock⟩ := h
  rw [exec_locks hmutex hc] at hlock
  exact ⟨hmutex, hlock⟩

theorem taken_setNX {key : LockKey} {token : Token} {ttl : ℕ}
    (h : (exec env i (.setNX key token ttl) s).2.taken x) : s.taken x ∨ x = (key, token) := by
  rcases eq_or_ne key x.1 with heq | hne
  · obtain ⟨hmutex, hlock⟩ := h
    cases hl : s.locks key with
    | some lease =>
      rw [exec_setNX_of_some hl] at hlock
      exact .inl ⟨hmutex, hlock⟩
    | none =>
      simp only [exec_setNX_of_none hl, ← heq, put_self, Option.map_some, Option.some.injEq] at hlock
      exact .inr (Prod.ext heq.symm hlock.symm)
  · have hc : (Cmd.setNX key token ttl).lockOf ≠ some x.1 := fun h => hne (Option.some.inj h)
    exact .inl (taken_other hc h)

theorem taken_release {key : LockKey} {token : Token}
    (h : (exec env i (.evalReleaseLock key token) s).2.taken x) : s.taken x ∧ x ≠ (key, token) := by
  rcases eq_or_ne key x.1 with heq | hne
  · obtain ⟨hmutex, hlock⟩ := h
    simp only [exec, releaseLockScript, ← heq] at hlock
    cases hl : s.locks key with
    | none =>
      simp only [hl, Option.map_none, reduceCtorEq] at hlock
    | some lease =>
      simp only [hl] at hlock
      split_ifs at hlock with htoken
      · simp only [put_self, Option.map_none, reduceCtorEq] at hlock
      · refine ⟨⟨hmutex, by rw [← heq]; exact hlock⟩, fun hx => htoken ?_⟩
        rw [hl, Option.map_some, hx] at hlock
        exact Option.some.inj hlock
  · have hc : (Cmd.evalReleaseLock key token).lockOf ≠ some x.1 := fun h => hne (Option.some.inj h)
    exact ⟨taken_other hc h, fun hx => hne (congrArg Prod.fst hx).symm⟩

theorem plain_noNews {c : Cmd β} (hc : c.plain) : ¬ (releases env).changed s (exec env i c s).2 x := by
  rintro ⟨htaken, hnot⟩
  refine hnot (taken_other (fun hlock => ?_) htaken)
  cases c with
  | setNX key token ttl =>
    cases hlock
    exact hc htaken.1
  | evalReleaseLock key token => exact hnot (taken_release htaken).1
  | _ => cases hlock

theorem publish_keeps {room : Room} {key : PublishKey} :
    ((releases env).view i op).Keeps ((releases env).Owing due) (publish room key) := by
  have hquiet : ∀ (γ : Type) (c : Cmd γ) t, c.lockOf = none → (releases env).Owing due t →
      ((releases env).view i op).assume c t →
      ((releases env).view i op).guar c t ∧ (releases env).Owing due (((releases env).view i op).exec c t).2 := by
    refine fun γ c t hc ht _ => ⟨trivial, ht.noNews fun x _ hnews => hnews.2 (taken_other ?_ hnews.1)⟩
    rw [hc]
    exact Option.some_ne_none _ |>.symm
  refine View.Keeps.of_uses (q := fun _ c => c.lockOf = none) Debts.stable_owing hquiet ⟨rfl, fun allowed => ?_⟩
  cases allowed with
  | false => trivial
  | true => exact ⟨rfl, fun _ => trivial⟩

theorem release_keeps {key : LockKey} {token : Token} {t : Store × Set (LockKey × Token)}
    (ht : (releases env).Owing (insert (key, token) due) t) :
    ((releases env).view i op).Safe (fun _ => (releases env).Owing due) (releaseLock key token) t := by
  refine View.Safe.cmd Debts.stable_owing ht fun u hu _ => ⟨trivial, View.Safe.ret Debts.stable_owing ?_ fun _ => id⟩
  have hnone : ∀ x, (releases env).known ((system env).exec i (.evalReleaseLock key token) u.1).2 x →
      (releases env).changed u.1 ((system env).exec i (.evalReleaseLock key token) u.1).2 x →
      x ∈ (∅ : Set (LockKey × Token)) := fun x _ hnews => absurd (taken_release hnews.1).1 hnews.2
  refine (hu.exec hnone).mono ?_
  rintro y ⟨(rfl | hy) | hy, hunpaid⟩
  · exact absurd rfl hunpaid
  · exact hy
  · exact hy.elim

theorem section_keeps {key : LockKey} {ttlMs : ℕ} {fn : App α}
    (hfn : ∀ due, ((releases env).view i op).Keeps ((releases env).Owing due) fn) :
    ((releases env).view i op).Keeps ((releases env).Owing due) (withLock key ttlMs fn) := by
  intro t ht
  have hread : Cmd.uuidv4.plain := trivial
  rw [withLock_eq]
  refine View.Safe.cmd Debts.stable_owing ht fun u hu _ => ⟨trivial, ?_⟩
  have hu' : (releases env).Owing due (((releases env).view i op).exec .uuidv4 u).2 :=
    hu.noNews fun x _ hnews => plain_noNews hread hnews
  refine View.Safe.cmd Debts.stable_owing hu' fun v hv _ => ⟨trivial, ?_⟩
  generalize (((releases env).view i op).exec .uuidv4 u).1 = token
  have hafter : (releases env).Owing (due ∪ {(key, .uuid token)})
      (((releases env).view i op).exec (.setNX key (.uuid token) ttlMs) v).2 :=
    (hv.exec fun x _ hnews => (taken_setNX hnews.1).resolve_left hnews.2).mono Set.sdiff_subset
  cases hlock : v.1.locks key with
  | some lease =>
    have hbusy : exec env i (.setNX key (.uuid token) ttlMs) v.1 = (false, v.1) := exec_setNX_of_some hlock
    have hanswer : (((releases env).view i op).exec (.setNX key (.uuid token) ttlMs) v).1 = false := congrArg Prod.fst hbusy
    have hsame : (releases env).Owing due (((releases env).view i op).exec (.setNX key (.uuid token) ttlMs) v).2 := by
      refine hv.noNews fun x _ hnews => hnews.2 ?_
      have htaken := hnews.1
      change Store.taken (exec env i (.setNX key (.uuid token) ttlMs) v.1).2 x at htaken
      rw [hbusy] at htaken
      exact htaken
    rw [hanswer]
    exact View.Safe.ret Debts.stable_owing hsame fun _ => id
  | none =>
    have hanswer : (((releases env).view i op).exec (.setNX key (.uuid token) ttlMs) v).1 = true := by
      show (exec env i (.setNX key (.uuid token) ttlMs) v.1).1 = true
      rw [exec_setNX_of_none hlock]
    rw [hanswer, if_pos rfl]
    rw [Set.union_singleton] at hafter
    refine View.Safe.bind (View.Safe.tryFinally ((hfn _ _ hafter).mono fun r w hw => (release_keeps hw).mono fun ended z hz => ?_))
    cases ended with
    | ok _ =>
      cases r with
      | ok a => exact View.Safe.ret Debts.stable_owing hz fun _ => id
      | error e => exact hz
    | error e => exact hz

theorem releases_code (i : ℕ) (op : Op) : (releases env).Pays i op ∅ (code env op) fun _ => ∅ := by
  have hkeeps : ((releases env).view i op).Keeps ((releases env).Owing ∅) (code env op) := by
    have hplain : ∀ (β : Type) (c : Cmd β) due t, c.plain → (releases env).Owing due t → ((releases env).view i op).assume c t →
        ((releases env).view i op).guar c t ∧ (releases env).Owing due (((releases env).view i op).exec c t).2 :=
      fun _ c due t hc ht _ => ⟨trivial, ht.noNews fun x _ hnews => plain_noNews hc hnews⟩
    exact Orderly.keeps (fun _ => Debts.stable_owing) hplain (fun _ _ _ => publish_keeps)
      (fun _ _ _ _ _ hfn _ => section_keeps hfn) (orderly_code op) ∅
  refine fun s hs => (hkeeps s hs).mono fun r t ht => ?_
  cases r <;> exact ht

theorem taken_event {e : Event} (h : e.apply s = some t) (htaken : t.taken x) : s.taken x := by
  obtain ⟨hmutex, hlock⟩ := htaken
  refine ⟨hmutex, ?_⟩
  cases event_happens h with
  | expireLease key lease hlease hover =>
    rcases eq_or_ne x.1 key with heq | hne
    · simp only [heq, put_self, Option.map_none, reduceCtorEq] at hlock
    · change (put s.locks key none x.1).map Lease.token = some x.2 at hlock
      rw [put_of_ne hne] at hlock
      exact hlock
  | _ => exact hlock

theorem releases_sound : (releases env).Sound Store.taken where
  code := releases_code
  known := fun _ _ _ _ _ _ => trivial
  event := fun _ _ _ _ h => ⟨fun _ => trivial, taken_event h⟩
  exec := fun i β c s x htaken => by
    refine ⟨trivial, ?_, fun hx => ?_⟩
    · by_cases hbefore : s.taken x
      · exact .inl hbefore
      · exact .inr ⟨htaken, hbefore⟩
    · cases c with
      | evalReleaseLock key token => exact (taken_release htaken).2 hx
      | _ => exact hx.elim

theorem releases_allows {m m' : State} : (releases env).Allows m a m' :=
  .always (fun _ _ _ _ _ => trivial) fun _ _ _ => trivial

/-- The thread that owes the release of a lock. -/
theorem owed_release {ok : State → Step → Prop} {as : List Step} {key : LockKey} {lease : Lease}
    (hrun : (system env).Run ok initial as q) (hmutex : key.mutex) (hlease : q.store.locks key = some lease) :
    ∃ debts i, (releases env).Holds q debts ∧ (key, lease.token) ∈ debts i := by
  have hinitial : ∀ x, ¬ ({} : Store).taken x := by
    rintro x ⟨-, hx⟩
    cases hx
  obtain ⟨debts, hcovers⟩ := Debts.Covers.run (I := fun _ => True) releases_sound trivial
    (fun m c m' _ _ _ => ⟨trivial, releases_allows⟩) hrun hinitial
  obtain ⟨i, hi⟩ := hcovers.owed (key, lease.token) ⟨hmutex, by rw [hlease, Option.map_some]⟩
  exact ⟨debts, i, hcovers.holds, hi⟩

theorem locks_returned (env : Env) : LocksReturned env fun _ _ => True where
  returned := by
    intro as q key lease hrun hmutex hlease
    obtain ⟨debts, i, hholds, hi⟩ := owed_release hrun hmutex hlease
    obtain ⟨op, β, c, k, hthread⟩ := hholds.running hi
    refine ⟨i, running_of_thread hthread, fun bs q' hrest hended => ?_⟩
    have hend : ∀ op (β : Type) (c : Cmd β) k, q'.threads[i]? ≠ some (op, .cmd c k) := by
      intro op β c k hlast
      rw [running_of_thread hlast] at hended
      cases hended
    obtain ⟨cs, ds, m, op, β, c, k, hbs, hcs, hthread, hgives⟩ :=
      hholds.settles releases_sound (fun _ _ _ => releases_allows) hrest hi trivial hend
    cases c with
    | evalReleaseLock key' token =>
      cases hgives
      exact ⟨cs, ds, m, op, k, hbs, hcs, hthread⟩
    | _ => exact hgives.elim
  free := by
    intro as q key hrun hidle hmutex
    cases hlock : q.store.locks key with
    | none => rfl
    | some lease =>
      obtain ⟨debts, i, hholds, hi⟩ := owed_release hrun hmutex hlock
      obtain ⟨op, β, c, k, hthread⟩ := hholds.running hi
      have hrunning : Running q i = true := running_of_thread hthread
      rw [running_of_idle hidle i] at hrunning
      cases hrunning

end YatriGo
