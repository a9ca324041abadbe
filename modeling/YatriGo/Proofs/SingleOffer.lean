import YatriGo.Proofs.KeysAgree

/-! A driver has one live offer at a time, secured by its reservation, unless a driver with
a live offer is cleaned up as a ghost or rejects with the text of a pending response. -/

namespace YatriGo
open Concurrent

/-- At most one offer to each driver is live, and the reservation is the one of that offer. -/
structure OfferedOnce (s : Store) : Prop where
  single : ∀ d r r', offerLive s r d = true → offerLive s r' d = true → r = r'
  reserved : ∀ d r, offerLive s r d = true → ∃ b, (s.ride r).currentBatchId = some b ∧
    (s.locks (.reservation d)).map Lease.token = some (.reservation r b)

/-- One operation after the other, where drivers that go offline have their offers withdrawn. -/
def wholeTurns (p : State) : Step → Bool
  | .call op => p.idle && op.complete
  | a => oneByOne p a

/-- In every run whose steps are `ok`, all live offers are single whenever no operation is
running. -/
def OffersSingle (env : Env) (ok : State → Step → Prop) : Prop :=
  ∀ as p, (system env).Run ok initial as p → p.idle = true → OfferedOnce p.store

variable {env : Env} {s : Store} {r : RideId} {d : DriverId} {as : List Step} {p : State}

theorem offerLive_iff : offerLive s r d = true ↔ ∃ b, LiveOffer s r b d := by
  constructor
  · intro h
    simp only [offerLive, Bool.and_eq_true, decide_eq_true_eq, Option.any_eq_true] at h
    obtain ⟨⟨hst, b, hbatch, hresponse⟩, htime⟩ := h
    exact ⟨b, ⟨hst, hbatch, hresponse⟩, htime⟩
  · rintro ⟨b, hl⟩
    exact hl.offerLive

theorem Offered.once (h : Offered noOffer s) : OfferedOnce s := by
  have htoken : ∀ d r b, LiveOffer s r b d →
      (s.locks (.reservation d)).map Lease.token = some (.reservation r b) := by
    intro d r b hl
    obtain ⟨lease, hlease, ht, -⟩ := h.secured r b d hl List.not_mem_nil
    rw [hlease, Option.map_some, ht]
  refine ⟨fun d r r' hr hr' => ?_, fun d r hr => ?_⟩
  · obtain ⟨b, hl⟩ := offerLive_iff.mp hr
    obtain ⟨b', hl'⟩ := offerLive_iff.mp hr'
    have hsame := (htoken d r b hl).symm.trans (htoken d r' b' hl')
    exact (Token.reservation.inj (Option.some.inj hsame)).1
  · obtain ⟨b, hl⟩ := offerLive_iff.mp hr
    exact ⟨b, hl.batch, htoken d r b hl⟩

/-- Fair commands keep the live offers of every driver single. -/
theorem offered_once (httl : env.dispatch.responseTtlMs ≤ env.dispatch.reservationTtlMs) :
    OffersSingle env fun p a => wholeTurns p a = true ∧ Checked Cmd.fair p a = true := by
  intro as p hrun hidle
  have hok : ∀ p a, wholeTurns p a = true ∧ Checked Cmd.fair p a = true → (serial env True).Ok p a := by
    rintro p a ⟨hturn, hfair⟩
    cases a with
    | call op =>
      rw [wholeTurns, Bool.and_eq_true] at hturn
      exact ⟨hturn.1, fun _ => hturn.2⟩
    | step i => exact fun op β c k hi _ => checked_command hfair hi
    | env e => cases e with
      | tick ms => exact Or.inl trivial
      | _ => exact Or.inr hturn
  have hstart : (serial env True).Holds initial := Serial.holds_empty ⟨settled_empty, within_empty⟩
  obtain ⟨⟨L, h⟩, -⟩ := (serial_sound fun _ => httl).run hok hrun hstart hidle
  exact (h.offered trivial).once

theorem offered_once_town : ∃ p : State, p.idle = true ∧ offerLive p.store ⟨1, 2⟩ 1 = true ∧
    OfferedOnce p.store := by
  have hsteps : ((system townEnv).steps (fun p a => wholeTurns p a && Checked Cmd.fair p a) offered
      initial).any (fun p => p.idle && offerLive p.store ⟨1, 2⟩ 1) = true := by decide +kernel
  obtain ⟨p, hrun, hp⟩ := System.exists_run (fun _ _ => (Bool.and_eq_true _ _).mp) hsteps
  obtain ⟨hidle, hlive⟩ := (Bool.and_eq_true _ _).mp hp
  exact ⟨p, hidle, hlive, offered_once (by decide) offered p hrun hidle⟩

/-- While a ride is offered to driver 1, its heartbeat expires. The dispatch of a second ride
cleans up its reservation. The driver resumes its heartbeat, and is offered the second ride. -/
def offeredTwice : List Step :=
  .call (.goOnline 1 (some 0) (some 0) none) :: run 0 11 ++ [.env (.tick 5000)] ++
  .call (.requestRide 7 ⟨0, 0⟩ ⟨0, 0⟩ ⟨none, []⟩) :: run 1 14 ++
  .call (.startDispatch ⟨1, 2⟩) :: run 2 31 ++
  [.env (.tick 10000), .env (.expireHeartbeat 1)] ++
  .call (.requestRide 8 ⟨0, 0⟩ ⟨0, 0⟩ ⟨none, []⟩) :: run 3 14 ++
  .call (.startDispatch ⟨3, 6⟩) :: run 4 31 ++
  .call (.heartbeat 1 (some 0) (some 0) none) :: run 5 7 ++ [.env (.tick 1500)] ++
  .call (.startDispatch ⟨3, 6⟩) :: run 6 22

theorem driver_offered_twice :
    townEnv.dispatch.responseTtlMs ≤ townEnv.dispatch.reservationTtlMs ∧
      ¬ OffersSingle townEnv fun p a => wholeTurns p a = true := by
  refine ⟨by decide, fun h => ?_⟩
  have hsteps : ((system townEnv).steps wholeTurns offeredTwice initial).any
      (fun p => p.idle && (offerLive p.store ⟨1, 2⟩ 1 && offerLive p.store ⟨3, 6⟩ 1)) = true := by
    decide +kernel
  obtain ⟨p, hrun, hp⟩ := System.exists_run (fun _ _ => id) hsteps
  obtain ⟨hidle, hboth⟩ := (Bool.and_eq_true _ _).mp hp
  obtain ⟨hfirst, hsecond⟩ := (Bool.and_eq_true _ _).mp hboth
  have hsame : (⟨1, 2⟩ : RideId) = ⟨3, 6⟩ := (h offeredTwice p hrun hidle).single 1 _ _ hfirst hsecond
  cases hsame

end YatriGo
