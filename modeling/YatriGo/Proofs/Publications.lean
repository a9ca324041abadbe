import YatriGo.Concurrent.Debts
import YatriGo.Proofs.AcceptanceStands
import YatriGo.Proofs.Orderly

/-! Messages are published exactly once. A thread that marks a dedupe key owes the message, and only the
thread that owes a message publishes it; keys stay marked, as within the idempotency window. -/

namespace YatriGo
open Concurrent

def Cmd.emits : ⦃β : Type⦄ → Cmd β → Set PublishKey
  | _, .publish m => {m.key}
  | _, _ => ∅

def Cmd.marks : ⦃β : Type⦄ → Cmd β → Option PublishKey
  | _, .setIdempotent key => some key
  | _, _ => none

/-- A message is published only by the thread that marked its key. -/
def publishes (env : Env) : Debts (system env) PublishKey where
  known := fun s key => s.idempotency key = true
  changed := fun s _ key => s.idempotency key = false
  pays := fun _ c _ => c.emits
  assume := fun _ _ _ _ _ => True
  perform := fun _ _ c due => c.emits ⊆ due

def Store.publishedKeys (s : Store) : List PublishKey := s.published.map Message.key

/-- The key is marked and nothing has been published under it. -/
def Store.unsent (s : Store) (key : PublishKey) : Prop := s.idempotency key = true ∧ key ∉ s.publishedKeys

/-- No message is published twice, only marked keys are used, and for a marked key whose message is still missing an
operation is still running that publishes it before it ends; so at rest every message has been published. -/
structure PublishesOnce (env : Env) (ok : State → Step → Prop) : Prop where
  once : ∀ as q, (system env).Run ok initial as q → q.store.publishedKeys.Nodup
  marked : ∀ as q, (system env).Run ok initial as q → ∀ key ∈ q.store.publishedKeys, q.store.idempotency key = true
  coming : ∀ as q key, (system env).Run ok initial as q → q.store.idempotency key = true →
    key ∉ q.store.publishedKeys → ∃ i, Running q i = true ∧
      ∀ bs q', (system env).Run ok q bs q' → Running q' i = false →
        ∃ cs ds m op room k, bs = cs ++ .step i :: ds ∧ (system env).Run ok q cs m ∧
          m.threads[i]? = some (op, .cmd (.publish ⟨room, key⟩) k)
  sent : ∀ as q, (system env).Run ok initial as q → Idle q = true → ∀ key,
    q.store.idempotency key = true ↔ key ∈ q.store.publishedKeys

variable {env : Env} {i : ℕ} {op : Op} {α β : Type} {s t : Store} {key : PublishKey} {due : Set PublishKey}
  {p q : State} {a : Step}

section frame

def Cmd.voiceless : ⦃β : Type⦄ → Cmd β → Prop
  | _, .setIdempotent _ => False
  | _, .publish _ => False
  | _, _ => True

theorem multi_idempotency {ws : List Write} : (s.multi ws).idempotency = s.idempotency := by
  induction ws generalizing s with
  | nil => rfl
  | cons w ws ih =>
    rw [multi_cons, ih]
    cases w <;> rfl

theorem exec_voiceless {c : Cmd β} (h : c.voiceless) :
    (exec env i c s).2.idempotency = s.idempotency ∧ (exec env i c s).2.published = s.published := by
  cases c with
  | multi ws => exact ⟨multi_idempotency, multi_published⟩
  | evalAcceptRide r d acceptedAt reservation =>
    simp only [exec, acceptRideScript]
    split <;> exact ⟨rfl, rfl⟩
  | setNX key token ttl =>
    cases hl : s.locks key with
    | some lease => rw [exec_setNX_of_some hl]; exact ⟨rfl, rfl⟩
    | none => rw [exec_setNX_of_none hl]; exact ⟨rfl, rfl⟩
  | evalReleaseLock key token =>
    obtain ⟨locks, hl⟩ : ∃ locks, (releaseLockScript key token s).2 = { s with locks } := releaseLockScript_eq
    simp only [exec, hl, and_self]
  | setIdempotent key => exact h.elim
  | publish m => exact h.elim
  | addJob job delay =>
    obtain ⟨jobs, hj⟩ : ∃ jobs, addJob job delay s = { s with jobs } := addJob_eq
    simp only [exec, hj, and_self]
  | takeJob job =>
    obtain ⟨jobs, hj⟩ : ∃ jobs, (takeJob job s).2 = { s with jobs } := takeJob_eq
    simp only [exec, hj, and_self]
  | finishJob job succeeded =>
    obtain ⟨jobs, hj⟩ : ∃ jobs, finishJob job succeeded s = { s with jobs } := finishJob_eq
    simp only [exec, hj, and_self]
  | _ => exact ⟨rfl, rfl⟩

theorem exec_setIdempotent : exec env i (.setIdempotent key) s =
    (!s.idempotency key, { s with idempotency := put s.idempotency key true }) := by
  simp only [exec]
  cases hmarked : s.idempotency key with
  | false => rfl
  | true =>
    have hsame : put s.idempotency key true = s.idempotency := by
      funext x
      rw [put_apply]
      split_ifs with hx
      · rw [hx, hmarked]
      · rfl
    rw [if_pos rfl, hsame]
    rfl

theorem exec_idempotency {c : Cmd β} (h : c.marks = none) : (exec env i c s).2.idempotency = s.idempotency := by
  cases c with
  | setIdempotent key => cases h
  | publish m => rfl
  | _ => exact (exec_voiceless (by trivial)).1

theorem stays_marked {c : Cmd β} (h : s.idempotency key = true) : (exec env i c s).2.idempotency key = true := by
  cases c with
  | setIdempotent key' =>
    rw [exec_setIdempotent]
    show put s.idempotency key' true key = true
    rw [put_apply]
    split_ifs
    · rfl
    · exact h
  | _ =>
    rw [exec_idempotency rfl]
    exact h

theorem marked_exec {c : Cmd β} (hmarks : c.marks ≠ some key) (h : (exec env i c s).2.idempotency key = true) :
    s.idempotency key = true := by
  cases c with
  | setIdempotent key' =>
    rw [exec_setIdempotent] at h
    change put s.idempotency key' true key = true at h
    rw [put_of_ne (by rintro rfl; exact hmarks rfl)] at h
    exact h
  | _ =>
    rw [exec_idempotency rfl] at h
    exact h

theorem publishedKeys_voiceless {c : Cmd β} (h : c.voiceless) : (exec env i c s).2.publishedKeys = s.publishedKeys :=
  congrArg (List.map Message.key) (exec_voiceless h).2

theorem publishedKeys_exec {c : Cmd β} :
    (exec env i c s).2.publishedKeys = s.publishedKeys ∧ c.emits = ∅ ∨
      ∃ key, (exec env i c s).2.publishedKeys = s.publishedKeys ++ [key] ∧ c.emits = {key} := by
  cases c with
  | publish m => exact .inr ⟨m.key, List.map_append .., rfl⟩
  | setIdempotent key =>
    rw [exec_setIdempotent]
    exact .inl ⟨rfl, rfl⟩
  | _ => exact .inl ⟨publishedKeys_voiceless (by trivial), rfl⟩

theorem event_messages {e : Event} (h : e.apply s = some t) : t.idempotency = s.idempotency ∧ t.published = s.published := by
  cases event_happens h <;> exact ⟨rfl, rfl⟩

end frame

section debts

theorem plain_marks {c : Cmd β} (h : c.plain) : c.marks = none ∧ c.emits = ∅ := by
  cases c with
  | setIdempotent key => exact h.elim
  | publish m => exact h.elim
  | _ => exact ⟨rfl, rfl⟩

theorem unmarked_noNews {c : Cmd β} (h : c.marks = none) (hknown : (publishes env).known (exec env i c s).2 key) :
    ¬ (publishes env).changed s (exec env i c s).2 key := by
  intro hnews
  change s.idempotency key = false at hnews
  have hbefore : s.idempotency key = true := marked_exec (by rw [h]; exact (Option.some_ne_none _).symm) hknown
  rw [hnews] at hbefore
  cases hbefore

theorem marked_news {t : Store × Set PublishKey} {x : PublishKey}
    (hknown : (publishes env).known (exec env i (.setIdempotent key) t.1).2 x)
    (hnews : (publishes env).changed t.1 (exec env i (.setIdempotent key) t.1).2 x) :
    x = key ∧ t.1.idempotency key = false := by
  change t.1.idempotency x = false at hnews
  have hx : x = key := by
    by_contra hne
    have hmarks : (Cmd.setIdempotent key).marks ≠ some x := fun h => hne (Option.some.inj h).symm
    have hbefore : t.1.idempotency x = true := marked_exec hmarks hknown
    rw [hnews] at hbefore
    cases hbefore
  exact ⟨hx, hx ▸ hnews⟩

theorem publish_pays {room : Room} :
    ((publishes env).view i op).Keeps ((publishes env).Owing due) (publish room key) := by
  intro t ht
  unfold publish markIdempotent redis
  simp only [Prog.bind_eq, Prog.perform_bind]
  refine View.Safe.cmd Debts.stable_owing ht fun u hu _ => ⟨Set.empty_subset _, ?_⟩
  have hanswer : (((publishes env).view i op).exec (.setIdempotent key) u).1 = !u.1.idempotency key :=
    congrArg Prod.fst exec_setIdempotent
  rw [hanswer]
  cases hmarked : u.1.idempotency key with
  | true =>
    have hsame : (publishes env).Owing due (((publishes env).view i op).exec (.setIdempotent key) u).2 := by
      refine hu.noNews fun x hknown hnews => ?_
      rw [(marked_news hknown hnews).2] at hmarked
      cases hmarked
    exact View.Safe.ret Debts.stable_owing hsame fun _ => id
  | false =>
    have hafter : (publishes env).Owing (due ∪ {key}) (((publishes env).view i op).exec (.setIdempotent key) u).2 :=
      (hu.exec fun x hknown hnews => (marked_news hknown hnews).1).mono Set.sdiff_subset
    have howed : key ∈ (((publishes env).view i op).exec (.setIdempotent key) u).2.2 := by
      refine ⟨?_, .inr hmarked, fun h => h.elim⟩
      show (exec env i (.setIdempotent key) u.1).2.idempotency key = true
      rw [exec_setIdempotent]
      exact put_self
    -- the thread owes this message until it publishes it
    have hstable : ((publishes env).view i op).Stable fun t => (publishes env).Owing (due ∪ {key}) t ∧ key ∈ t.2 :=
      fun s t hst h => ⟨h.1.rely hst, by rw [hst.2.1]; exact h.2⟩
    refine View.Safe.cmd hstable ⟨hafter, howed⟩ fun v hv _ => ⟨?_, View.Safe.ret Debts.stable_owing ?_ fun _ => id⟩
    · exact Set.singleton_subset_iff.mpr hv.2
    · have hnone : ∀ x, (publishes env).known ((system env).exec i (.publish ⟨room, key⟩) v.1).2 x →
          (publishes env).changed v.1 ((system env).exec i (.publish ⟨room, key⟩) v.1).2 x → x ∈ (∅ : Set PublishKey) :=
        fun x hknown hnews => absurd hnews (unmarked_noNews rfl hknown)
      refine (hv.1.exec hnone).mono ?_
      rintro x ⟨(hx | hx) | hx, hunpaid⟩
      · exact hx
      · exact absurd hx hunpaid
      · exact hx.elim

/-- Locks are no news. -/
theorem lock_pays {key : LockKey} {ttlMs : ℕ} {fn : App α}
    (hfn : ((publishes env).view i op).Keeps ((publishes env).Owing due) fn) :
    ((publishes env).view i op).Keeps ((publishes env).Owing due) (withLock key ttlMs fn) := by
  have hquiet : ∀ {γ : Type} {c : Cmd γ}, c.marks = none → c.emits = ∅ →
      ((publishes env).view i op).Keeps ((publishes env).Owing due) (redis c) := by
    intro γ c hmarks hemits
    refine View.Keeps.command Debts.stable_owing fun t ht _ => ⟨?_, ht.noNews fun x hknown => unmarked_noNews hmarks hknown⟩
    show c.emits ⊆ t.2
    rw [hemits]
    exact Set.empty_subset _
  have hrelease : ∀ token, ((publishes env).view i op).Keeps ((publishes env).Owing due) (releaseLock key token) := by
    intro token
    have heval : ((publishes env).view i op).Keeps ((publishes env).Owing due) (redis (.evalReleaseLock key token)) :=
      hquiet rfl rfl
    exact heval.bind fun _ => View.Keeps.ret Debts.stable_owing
  have htoken : ((publishes env).view i op).Keeps ((publishes env).Owing due) (redis .uuidv4) := hquiet rfl rfl
  have hset : ∀ token, ((publishes env).view i op).Keeps ((publishes env).Owing due) (redis (.setNX key token ttlMs)) :=
    fun token => hquiet rfl rfl
  rw [withLock_eq]
  refine htoken.bind fun u => (hset (.uuid u)).bind fun ok => ?_
  cases ok with
  | false => exact View.Keeps.ret Debts.stable_owing
  | true => exact (hfn.tryFinally (hrelease _)).bind fun _ => View.Keeps.ret Debts.stable_owing

theorem publishes_code (i : ℕ) (op : Op) : (publishes env).Pays i op ∅ (code env op) fun _ => ∅ := by
  have hplain : ∀ (β : Type) (c : Cmd β) due t, c.plain → (publishes env).Owing due t → ((publishes env).view i op).assume c t →
      ((publishes env).view i op).guar c t ∧ (publishes env).Owing due (((publishes env).view i op).exec c t).2 := by
    intro β c due t hc ht _
    obtain ⟨hmarks, hemits⟩ := plain_marks hc
    refine ⟨?_, ht.noNews fun x hknown => unmarked_noNews hmarks hknown⟩
    show c.emits ⊆ t.2
    rw [hemits]
    exact Set.empty_subset _
  have hkeeps : ((publishes env).view i op).Keeps ((publishes env).Owing ∅) (code env op) :=
    Orderly.keeps (fun _ => Debts.stable_owing) hplain (fun _ _ _ => publish_pays) (fun _ _ _ _ _ hfn x => lock_pays (hfn x))
      (orderly_code op) ∅
  refine fun s hs => (hkeeps s hs).mono fun r t ht => ?_
  cases r <;> exact ht

theorem publishes_sound : (publishes env).Sound Store.unsent where
  code := publishes_code
  known := fun _ _ _ _ _ h => stays_marked h
  event := fun e s t key h => by
    obtain ⟨hidempotency, hpublished⟩ := event_messages h
    refine ⟨fun hmarked => ?_, fun ⟨hmarked, hmissing⟩ => ⟨?_, ?_⟩⟩
    · show t.idempotency key = true
      rw [hidempotency]
      exact hmarked
    · rw [← hidempotency]
      exact hmarked
    · unfold Store.publishedKeys at hmissing ⊢
      rw [← hpublished]
      exact hmissing
  exec := fun i β c s key ⟨hmarked, hmissing⟩ => by
    change key ∉ (exec env i c s).2.publishedKeys at hmissing
    have hbefore : key ∉ s.publishedKeys ∧ key ∉ c.emits := by
      rcases @publishedKeys_exec env i β s c with ⟨hkeys, hemits⟩ | ⟨key', hkeys, hemits⟩
      · rw [hkeys] at hmissing
        rw [hemits]
        exact ⟨hmissing, Set.notMem_empty _⟩
      · rw [hkeys, List.mem_append, List.mem_singleton, not_or] at hmissing
        rw [hemits]
        exact ⟨hmissing.1, hmissing.2⟩
    refine ⟨hmarked, ?_, hbefore.2⟩
    cases hknown : s.idempotency key with
    | true => exact .inl ⟨hknown, hbefore.1⟩
    | false => exact .inr hknown

end debts

/-- Of the messages that were published, none is owed, and none is published twice. -/
structure Sent (p : State) (debts : ℕ → Set PublishKey) : Prop where
  nodup : p.store.publishedKeys.Nodup
  marked : ∀ key ∈ p.store.publishedKeys, p.store.idempotency key = true
  paid : ∀ key ∈ p.store.publishedKeys, ∀ i, key ∉ debts i

theorem Sent.same {debts debts' : ℕ → Set PublishKey} (h : Sent p debts) (hkeys : q.store.publishedKeys = p.store.publishedKeys)
    (hmarked : ∀ key, p.store.idempotency key = true → q.store.idempotency key = true)
    (hdebts : ∀ i, ∀ key ∈ debts' i, key ∈ debts i ∨ p.store.idempotency key = false) : Sent q debts' := by
  refine ⟨?_, fun key hkey => ?_, fun key hkey i hi => ?_⟩
  · rw [hkeys]
    exact h.nodup
  · rw [hkeys] at hkey
    exact hmarked key (h.marked key hkey)
  · rw [hkeys] at hkey
    rcases hdebts i key hi with hdue | hunmarked
    · exact h.paid key hkey i hdue
    · rw [h.marked key hkey] at hunmarked
      cases hunmarked

theorem Sent.next {debts debts' : ℕ → Set PublishKey} (h : Sent p debts) (hexclusive : (publishes env).Exclusive p debts)
    (hholds : (publishes env).Holds p debts) (hnext : (system env).next p a = some q)
    (hmoves : (publishes env).Moves p a q debts debts') : Sent q debts' := by
  have hmarked : ∀ key, p.store.idempotency key = true → q.store.idempotency key = true :=
    fun key => publishes_sound.stays hnext
  have hdebts : ∀ i, ∀ key ∈ debts' i, key ∈ debts i ∨ p.store.idempotency key = false := by
    intro i key hi
    by_cases ha : a = .step i
    · subst ha
      obtain ⟨op, β, c, k, hthread, -, -⟩ := System.next_step hnext
      rw [hmoves.stepped i op β c k rfl hthread] at hi
      exact hi.2.1
    · rw [hmoves.others i ha] at hi
      exact .inl hi
  cases a with
  | call op =>
    cases hnext
    exact h.same rfl hmarked hdebts
  | env e =>
    obtain ⟨t, ht, rfl⟩ := Option.map_eq_some_iff.mp hnext
    exact h.same (congrArg (List.map Message.key) (event_messages ht).2) hmarked hdebts
  | step j =>
    obtain ⟨op, β, c, k, hj, hstore, -⟩ := System.next_step hnext
    rcases @publishedKeys_exec env j β p.store c with ⟨hkeys, -⟩ | ⟨key, hkeys, hemits⟩
    · exact h.same (by rw [hstore]; exact hkeys) hmarked hdebts
    · -- the thread owed the message it publishes, so nobody else does and nobody did
      have howed : key ∈ debts j := by
        have hperform : c.emits ⊆ debts j := hholds.perform hj trivial
        rw [hemits] at hperform
        exact hperform rfl
      have hpaid : ∀ i, key ∉ debts' i := by
        intro i hi
        rcases eq_or_ne i j with rfl | hne
        · rw [hmoves.stepped i op β c k rfl hj] at hi
          exact hi.2.2 (by rw [show (publishes env).pays c q.store = {key} from hemits]; rfl)
        · rw [hmoves.others i (fun h => hne (Action.step.inj h).symm)] at hi
          exact hne (hexclusive.apart i j key hi howed)
      have hnew : key ∉ p.store.publishedKeys := fun hkey => h.paid key hkey j howed
      have hkeys' : q.store.publishedKeys = p.store.publishedKeys ++ [key] := by
        rw [hstore]
        exact hkeys
      refine ⟨?_, fun x hx => ?_, fun x hx i hi => ?_⟩
      · rw [hkeys']
        exact h.nodup.append (List.nodup_singleton key) (List.disjoint_singleton.mpr hnew)
      · rw [hkeys', List.mem_append, List.mem_singleton] at hx
        rcases hx with hx | rfl
        · exact hmarked x (h.marked x hx)
        · exact hmarked x (hexclusive.known j x howed)
      · rw [hkeys', List.mem_append, List.mem_singleton] at hx
        rcases hx with hx | rfl
        · rcases hdebts i x hi with hdue | hunmarked
          · exact h.paid x hx i hdue
          · rw [h.marked x hx] at hunmarked
            cases hunmarked
        · exact hpaid i hi

theorem sent_run {ok : State → Step → Prop} {as : List Step} (hrun : (system env).Run ok initial as q) :
    ∃ debts, (publishes env).Covers Store.unsent q debts ∧ Sent q debts := by
  have hthree : ∃ debts, (publishes env).Covers Store.unsent q debts ∧ (publishes env).Exclusive q debts ∧ Sent q debts := by
    refine hrun.invariant (I := fun q => ∃ debts, (publishes env).Covers Store.unsent q debts ∧
      (publishes env).Exclusive q debts ∧ Sent q debts) ?_ fun m c m' hm _ hnext => ?_
    · refine ⟨fun _ => ∅, ⟨Debts.holds_empty, fun key h => ?_⟩, ⟨fun _ _ h => h.elim, fun _ _ _ h => h.elim⟩,
        List.nodup_nil, fun key h => (List.not_mem_nil h).elim, fun key h => (List.not_mem_nil h).elim⟩
      cases h.1
    · obtain ⟨debts, hcovers, hexclusive, hsent⟩ := hm
      obtain ⟨debts', hcovers', hmoves⟩ := hcovers.next publishes_sound hnext (.always (fun _ _ _ _ _ => trivial) fun _ _ _ => trivial)
      have hnews : ∀ (s t : Store) key, (publishes env).changed s t key → ¬ (publishes env).known s key := by
        intro s t key hchanged hknown
        change s.idempotency key = false at hchanged
        change s.idempotency key = true at hknown
        rw [hchanged] at hknown
        cases hknown
      exact ⟨debts', hcovers', hexclusive.next publishes_sound hnews hnext hmoves,
        hsent.next hexclusive hcovers.holds hnext hmoves⟩
  obtain ⟨debts, hcovers, -, hsent⟩ := hthree
  exact ⟨debts, hcovers, hsent⟩

theorem published_idle {ok : State → Step → Prop} {as : List Step} (hrun : (system env).Run ok initial as q)
    (hidle : Idle q = true) (hmarked : q.store.idempotency key = true) : key ∈ q.store.publishedKeys := by
  obtain ⟨debts, hcovers, -⟩ := sent_run hrun
  by_contra hkey
  obtain ⟨i, op, β, c, k, hthread⟩ := hcovers.running ⟨hmarked, hkey⟩
  have hrunning : Running q i = true := running_of_thread hthread
  rw [running_of_idle hidle i] at hrunning
  cases hrunning

theorem publishes_once (env : Env) : PublishesOnce env fun _ _ => True where
  once := by
    intro as q hrun
    obtain ⟨debts, -, hsent⟩ := sent_run hrun
    exact hsent.nodup
  marked := by
    intro as q hrun
    obtain ⟨debts, -, hsent⟩ := sent_run hrun
    exact hsent.marked
  coming := by
    intro as q key hrun hmarked hmissing
    obtain ⟨debts, hcovers, -⟩ := sent_run hrun
    obtain ⟨i, hi⟩ := hcovers.owed key ⟨hmarked, hmissing⟩
    obtain ⟨op, β, c, k, hthread⟩ := hcovers.holds.running hi
    refine ⟨i, running_of_thread hthread, fun bs q' hrest hended => ?_⟩
    have hend : ∀ op (β : Type) (c : Cmd β) k, q'.threads[i]? ≠ some (op, .cmd c k) := by
      intro op β c k hlast
      rw [running_of_thread hlast] at hended
      cases hended
    obtain ⟨cs, ds, m, op, β, c, k, hbs, hcs, hthread, hemits⟩ := hcovers.holds.settles publishes_sound
      (fun _ _ _ => .always (fun _ _ _ _ _ => trivial) fun _ _ _ => trivial) hrest hi hmarked hend
    cases c with
    | publish m' =>
      obtain ⟨room, key'⟩ := m'
      cases hemits
      exact ⟨cs, ds, m, op, room, k, hbs, hcs, hthread⟩
    | _ => exact hemits.elim
  sent := by
    intro as q hrun hidle key
    refine ⟨published_idle hrun hidle, fun hkey => ?_⟩
    obtain ⟨debts, -, hsent⟩ := sent_run hrun
    exact hsent.marked key hkey

end YatriGo
