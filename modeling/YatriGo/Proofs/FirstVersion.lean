import YatriGo.Proofs.LastReads
import YatriGo.Proofs.RideSteps

/-! A ride has version 1 as long as it is as it was requested. No lock is needed for this:
what an operation read of a ride, it read of a ride that had a version. -/

namespace YatriGo
open Concurrent

/-- The hash of a ride that was requested, or updated since. -/
def Counted (env : Env) (h : RideHash) : Prop :=
  h.status = none ∨ 2 ≤ h.version ∨
    ∃ c origin destination metadata now, h = requestPayload env c origin destination metadata now

/-- All rides are counted, and the versions that are read are those of rides that exist. -/
structure Counting (env : Env) (p : State) : Prop where
  rides : ∀ r, Counted env (p.store.ride r)
  seen : (lastReads env).Holds (fun _ seen => ∀ r v, seen r = some v → 1 ≤ v) p

variable {env : Env} {r : RideId} {d : DriverId} {s : Store} {β : Type} {ride : RideHash} {seen : ReadVersions} {p q : State} {a : Step}

theorem Counted.one_le (h : Counted env ride) (hexist : ride.status ≠ none) : 1 ≤ ride.version := by
  rcases h with hnone | htwo | ⟨c, origin, destination, metadata, now, rfl⟩
  · exact absurd hnone hexist
  · omega
  · exact le_rfl

theorem hset_version_le {h : RideHash} {fields : List RideField} (hall : ∀ v, .version v ∈ fields → 2 ≤ v)
    (hsome : 2 ≤ h.version ∨ ∃ v, .version v ∈ fields) : 2 ≤ (h.hset fields).version := by
  induction fields generalizing h with
  | nil =>
    rcases hsome with hold | ⟨v, hv⟩
    · exact hold
    · cases hv
  | cons f fields ih =>
    rw [hset_cons]
    refine ih (fun v hv => hall v (List.mem_cons_of_mem _ hv)) ?_
    cases f with
    | version v => exact Or.inl (hall v List.mem_cons_self)
    | _ =>
      rcases hsome with hold | ⟨v, hv⟩
      · exact Or.inl hold
      · exact Or.inr ⟨v, (List.mem_cons.mp hv).resolve_left (by rintro ⟨⟩)⟩

section steps

theorem Write.countsOn.counted {w : Write} (hw : w.countsOn env seen) (hseen : ∀ r v, seen r = some v → 1 ≤ v)
    (hs : ∀ r, Counted env (s.ride r)) : ∀ r, Counted env ((w.apply s).ride r) := by
  intro r
  cases w with
  | createRide r' payload =>
    show Counted env (put s.ride r' payload r)
    rcases eq_or_ne r r' with rfl | hne
    · rw [put_self]
      exact Or.inr (Or.inr hw)
    · rw [put_of_ne hne]
      exact hs r
  | hsetRide r' fields =>
    show Counted env (put s.ride r' _ r)
    rcases eq_or_ne r r' with rfl | hne
    · obtain ⟨v, hv, hmem, hall⟩ := hw
      have hone : 1 ≤ v := hseen r v hv
      rw [put_self]
      refine Or.inr (Or.inl (hset_version_le (fun w hw => ?_) (Or.inr ⟨_, hmem⟩)))
      rw [hall w hw]
      exact Nat.succ_le_succ hone
    · rw [put_of_ne hne]
      exact hs r
  | _ => exact hs r

theorem counted_multi {ws : List Write} (hws : ∀ w ∈ ws, w.countsOn env seen) (hseen : ∀ r v, seen r = some v → 1 ≤ v)
    (hs : ∀ r, Counted env (s.ride r)) : ∀ r, Counted env ((s.multi ws).ride r) := by
  induction ws generalizing s with
  | nil => exact hs
  | cons w ws ih =>
    have hw : w.countsOn env seen := hws w List.mem_cons_self
    exact ih (fun v hv => hws v (List.mem_cons_of_mem _ hv)) (hw.counted hseen hs)

theorem counted_accept {acceptedAt : Time} {reservation : Option Token} (hs : ∀ r, Counted env (s.ride r)) :
    ∀ r', Counted env ((acceptRideScript r d acceptedAt reservation s).2.ride r') := by
  intro r'
  rcases @acceptRideScript_cases s r d acceptedAt reservation with ⟨-, heq⟩ | ⟨-, heq, hguard⟩
  · rw [heq]
    exact hs r'
  · rw [heq]
    show Counted env (put s.ride r ((s.ride r).accept d acceptedAt) r')
    rcases eq_or_ne r' r with rfl | hne
    · have hexist : (s.ride r').status ≠ none := by
        rw [(acceptRideGuard_eq_zero hguard).1]
        exact Option.some_ne_none _
      rw [put_self]
      exact Or.inr (Or.inl (Nat.succ_le_succ ((hs r').one_le hexist)))
    · rw [put_of_ne hne]
      exact hs r'

theorem counted_exec {i : ℕ} {c : Cmd β} (hc : c.countsOn env seen) (hseen : ∀ r v, seen r = some v → 1 ≤ v)
    (hs : ∀ r, Counted env (s.ride r)) : ∀ r, Counted env ((exec env i c s).2.ride r) := by
  by_cases hsingle : c.single
  · rw [(exec_sameKeys hsingle).ride]
    exact hs
  · cases c with
    | multi ws => exact counted_multi hc hseen hs
    | evalAcceptRide r d acceptedAt reservation => exact counted_accept hs
    | _ => exact absurd trivial hsingle

/-- What is read of a counted ride is a version. -/
theorem seenAfter_counted {i : ℕ} {c : Cmd β} (hseen : ∀ r v, seen r = some v → 1 ≤ v) (hs : ∀ r, Counted env (s.ride r)) :
    ∀ r v, c.seenAfter (exec env i c s).1 seen r = some v → 1 ≤ v := by
  intro r v hv
  cases c with
  | hgetallRide r' =>
    rcases eq_or_ne r r' with rfl | hne
    · have hread : (if (s.ride r).status = none then none else some (s.ride r).version) = some v := put_self.symm.trans hv
      split_ifs at hread with hexist
      cases hread
      exact (hs r).one_le hexist
    · exact hseen r v ((put_of_ne hne).symm.trans hv)
  | setNX key token ttl =>
    cases key with
    | ride r' =>
      rcases eq_or_ne r r' with rfl | hne
      · have hnone : none = some v := put_self.symm.trans hv
        cases hnone
      · exact hseen r v ((put_of_ne hne).symm.trans hv)
    | _ => exact hseen r v hv
  | multi ws =>
    have hkept : (if ws.any (Write.updates r) then none else seen r) = some v := hv
    split_ifs at hkept
    exact hseen r v hkept
  | _ => exact hseen r v hv

theorem Counting.next (h : Counting env p) (hnext : (system env).next p a = some q) : Counting env q where
  rides := by
    rcases next_cases hnext with hsame | ⟨i, op, β, c, k, rfl, hi, hstore⟩
    · rw [hsame.ride]
      exact h.rides
    · obtain ⟨seen, hseen, hneeds⟩ := h.seen.needs hi
      rw [hstore]
      exact counted_exec hneeds hseen h.rides
  seen := by
    refine h.seen.next (g := fun _ => none) (fun op => counts_code op _) hnext (fun i r v hv => by cases hv)
      (fun i seen _ _ hseen => hseen) fun i op β c k seen _ hi hseen _ => ?_
    exact seenAfter_counted hseen h.rides

end steps

theorem counting_initial : Counting env initial := ⟨fun _ => Or.inl rfl, Tracker.holds_empty⟩

theorem counted_run {as : List Step} (hrun : (system env).Run (fun _ _ => True) initial as p) :
    ∀ r, Counted env (p.store.ride r) :=
  (hrun.invariant counting_initial fun _ _ _ h _ hnext => h.next hnext).rides

end YatriGo
