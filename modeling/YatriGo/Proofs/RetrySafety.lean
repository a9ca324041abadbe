import YatriGo.Proofs.KeysAgree
import YatriGo.Proofs.RideRefs

/-! Whether an operation that ends a ride can be stopped after any of its commands and
called again. -/

namespace YatriGo
open Concurrent

/-- The operation ends ride `r`: a completion by the ride's driver, or a cancellation. -/
inductive Ends (r : RideId) (s : Store) : RideStatus → Op → Prop
  | complete (driverId : DriverId) (status : (s.ride r).status = some .ongoing)
      (driver : (s.ride r).driverId = some driverId) : Ends r s .completed (.completeRide r driverId)
  | cancel (actorType : ActorType) (actorId : Option ℕ) (reason : String) (status : RideStatus)
      (now : (s.ride r).status = some status) (unfinished : status.terminal = false) :
      Ends r s .cancelled (.cancelRide r actorType actorId reason)

/-- The MULTI of `cleanupTerminalRideKeys` is this command of the operation. A cancellation
reads the notified drivers once more. -/
def cleanupAt (next : RideStatus) : ℕ := if next = .cancelled then 14 else 13

/-- The reservations that the operation releases one by one after it. -/
def batchReservations (ride : RideHash) : List DriverId :=
  if ride.currentBatchId = none then [] else ride.currentBatchDrivers

/-- The MULTI of `releaseDriverAvailability`, after three reads. -/
def releaseAt (next : RideStatus) (ride : RideHash) : ℕ :=
  cleanupAt next + (batchReservations ride).length + 4

/-- The command of the operation, counted from 1, that removes the reference, if any does. -/
def removedAt (next : RideStatus) (r : RideId) (s : Store) : Ref → Option ℕ
  | .active => some (cleanupAt next)
  | .customer => some (cleanupAt next)
  | .pending d =>
    if d ∈ s.rideNotifiedDrivers r then some (cleanupAt next)
    else if (s.ride r).driverId = some d then some (releaseAt next (s.ride r))
    else none
  | .reservation d b =>
    if (s.ride r).currentBatchId = some b ∧ d ∈ batchReservations (s.ride r) then
      some (cleanupAt next + (batchReservations (s.ride r)).idxOf d + 1)
    else none
  | .pointer d => if (s.ride r).driverId = some d then some (releaseAt next (s.ride r)) else none
  | .hash d => if (s.ride r).driverId = some d then some (releaseAt next (s.ride r)) else none

/-- The operation, called in the store `s`, was stopped after `n` commands in `t`. -/
structure Cut (next : RideStatus) (r : RideId) (s : Store) (n : ℕ) (t : Store) : Prop where
  early : n ≤ 5 → SameRefs s t
  status : 6 ≤ n → (t.ride r).status = some next
  driver : (t.ride r).driverId = (s.ride r).driverId
  batch : (t.ride r).currentBatchId = (s.ride r).currentBatchId
  batchDrivers : (t.ride r).currentBatchDrivers = (s.ride r).currentBatchDrivers
  customer : (t.ride r).customerId = (s.ride r).customerId
  notified : t.rideNotifiedDrivers = s.rideNotifiedDrivers
  held : ∀ ref : Ref, ref.Held r t ↔ ref.Held r s ∧ ∀ k, removedAt next r s ref = some k → n < k

variable {env : Env} {i n : ℕ} {r : RideId} {s t u : Store} {ref : Ref} {next : RideStatus} {k : ℕ}
  {α β : Type}

section removedAt

theorem cleanupAt_le (h : removedAt next r s ref = some k) : cleanupAt next ≤ k := by
  cases ref <;> simp only [removedAt, releaseAt] at h <;> grind

theorem not_removed_before (h : n + 1 < cleanupAt next) (ref : Ref) :
    removedAt next r s ref ≠ some (n + 1) := by
  intro hk
  have := cleanupAt_le hk
  omega

theorem twelve_lt_cleanupAt : 12 < cleanupAt next := by
  unfold cleanupAt
  split <;> omega

/-- After the last reservation only the driver's references are left. -/
theorem removedAt_le (h : removedAt next r s ref = some k) :
    k ≤ cleanupAt next + (batchReservations (s.ride r)).length ∨
      (k = releaseAt next (s.ride r) ∧ (s.ride r).driverId ≠ none) := by
  have hdriver : ∀ d, (s.ride r).driverId = some d → (s.ride r).driverId ≠ none := by
    intro d hd hnone
    rw [hd] at hnone
    cases hnone
  cases ref with
  | active => cases h; exact .inl (Nat.le_add_right _ _)
  | customer => cases h; exact .inl (Nat.le_add_right _ _)
  | pending d =>
    simp only [removedAt] at h
    split_ifs at h with hnotified hd
    · cases h
      exact .inl (Nat.le_add_right _ _)
    · cases h
      exact .inr ⟨rfl, hdriver d hd⟩
  | reservation d b =>
    simp only [removedAt, Option.ite_none_right_eq_some, Option.some.injEq] at h
    obtain ⟨⟨-, hd⟩, rfl⟩ := h
    have := List.idxOf_lt_length_of_mem hd
    exact .inl (by omega)
  | pointer d =>
    simp only [removedAt, Option.ite_none_right_eq_some, Option.some.injEq] at h
    exact .inr ⟨h.2.symm, hdriver d h.1⟩
  | hash d =>
    simp only [removedAt, Option.ite_none_right_eq_some, Option.some.injEq] at h
    exact .inr ⟨h.2.symm, hdriver d h.1⟩

end removedAt

/-- A command that removes the references in `X`, which are those due to be removed by it. -/
theorem Cut.remove {X : Ref → Prop} (h : Cut next r s n t) (hn : 6 ≤ n)
    (hride : u.ride = t.ride) (hnotified : u.rideNotifiedDrivers = t.rideNotifiedDrivers)
    (hX : ∀ ref : Ref, ref.Held r u ↔ ref.Held r t ∧ ¬ X ref)
    (due : ∀ ref : Ref, ref.Held r t → removedAt next r s ref = some (n + 1) → X ref)
    (done : ∀ ref : Ref, ref.Held r t → X ref → ∃ k, removedAt next r s ref = some k ∧ k ≤ n + 1) :
    Cut next r s (n + 1) u where
  early := fun h => absurd h (by omega)
  status := fun _ => by rw [hride]; exact h.status hn
  driver := by rw [hride]; exact h.driver
  batch := by rw [hride]; exact h.batch
  batchDrivers := by rw [hride]; exact h.batchDrivers
  customer := by rw [hride]; exact h.customer
  notified := hnotified.trans h.notified
  held := fun ref => by
    rw [hX]
    constructor
    · rintro ⟨hheld, hnot⟩
      obtain ⟨hs, hlt⟩ := (h.held ref).mp hheld
      refine ⟨hs, fun k hk => ?_⟩
      have hk' := hlt k hk
      have hne : k ≠ n + 1 := by
        rintro rfl
        exact hnot (due ref hheld hk)
      omega
    · rintro ⟨hs, hlt⟩
      have hheld : ref.Held r t := (h.held ref).mpr ⟨hs, fun k hk => by have := hlt k hk; omega⟩
      refine ⟨hheld, fun hx => ?_⟩
      obtain ⟨k, hk, hle⟩ := done ref hheld hx
      have := hlt k hk
      omega

theorem Cut.same (h : Cut next r s n t) (hsame : SameRefs t u) (hn : n ≠ 5)
    (hno : ∀ ref, removedAt next r s ref ≠ some (n + 1)) : Cut next r s (n + 1) u where
  early := fun hle => (h.early (by omega)).trans hsame
  status := fun hle => by rw [hsame.ride]; exact h.status (by omega)
  driver := by rw [hsame.ride]; exact h.driver
  batch := by rw [hsame.ride]; exact h.batch
  batchDrivers := by rw [hsame.ride]; exact h.batchDrivers
  customer := by rw [hsame.ride]; exact h.customer
  notified := hsame.notified.trans h.notified
  held := fun ref => by
    rw [hsame.held, h.held]
    refine and_congr_right fun _ => forall₂_congr fun k hk => ?_
    have hne : k ≠ n + 1 := by
      rintro rfl
      exact hno ref hk
    omega

/-- The operation alone, with its cuts described. -/
abbrev cuts (env : Env) (i : ℕ) (next : RideStatus) (r : RideId) (s : Store) :
    View Cmd (ℕ × Store) := View.alone ((system env).client i) (Cut next r s)

theorem Cut.quiet {Q : Except AppError α → ℕ × Store → Prop} {c : Cmd β} {f : β → App α}
    (h : Cut next r s n t) (hc : c.quiet) (hn : n ≠ 5)
    (hno : ∀ ref, removedAt next r s ref ≠ some (n + 1))
    (rest : ∀ u, SameRefs t u → Cut next r s (n + 1) u →
      (cuts env i next r s).Safe Q (f (exec env i c t).1) (n + 1, u)) :
    (cuts env i next r s).Safe Q (.cmd c f) (n, t) := by
  have hsame : SameRefs t (exec env i c t).2 := exec_quiet hc
  exact View.safe_alone_cmd.mpr ⟨h, rest _ hsame (h.same hsame hn hno)⟩

/-- Everything that the operation removes is removed. -/
def Done (next : RideStatus) (r : RideId) (s : Store) (x : ℕ × Store) : Prop :=
  Cut next r s x.1 x.2 ∧ 6 ≤ x.1 ∧ ∀ ref k, removedAt next r s ref = some k → k ≤ x.1

theorem done_keeps {p : App α} (hp : p.Uses Cmd.quiet) :
    (cuts env i next r s).Keeps (Done next r s) p := by
  refine View.Keeps.of_uses (View.stable_alone _) (fun β c x hc hx _ => ⟨hx.1, ?_⟩) hp
  obtain ⟨hcut, hsix, hall⟩ := hx
  have hno : ∀ ref, removedAt next r s ref ≠ some (x.1 + 1) := by
    intro ref hk
    have := hall ref _ hk
    omega
  refine ⟨hcut.same (exec_quiet hc) (by omega) hno, Nat.le_succ_of_le hsix, fun ref k hk => ?_⟩
  exact Nat.le_succ_of_le (hall ref k hk)

section removals

theorem cleanupWrites_clears {c : CustomerId} {notified : List DriverId} {current : Option RideId} :
    ∀ w ∈ cleanupWrites r c notified current, w.clears := by
  intro w hw
  simp only [cleanupWrites, List.mem_append, List.mem_singleton, List.mem_map] at hw
  rcases hw with ((rfl | hw) | rfl) | ⟨d, -, rfl⟩
  · trivial
  · split_ifs at hw
    · rw [List.mem_singleton.mp hw]
      trivial
    · cases hw
  · trivial
  · trivial

/-- The MULTI of the cleanup. -/
theorem Cut.cleanup (h : Cut next r s n t) (hn : n + 1 = cleanupAt next) :
    Cut next r s (n + 1) (t.multi (cleanupWrites r (t.ride r).customerId (t.rideNotifiedDrivers r)
      (t.customerActiveRide (t.ride r).customerId))) := by
  -- what is due at this command is among its writes, and they remove nothing before its turn
  have hten : 12 < cleanupAt next := twelve_lt_cleanupAt
  obtain ⟨hsame, -⟩ := @held_multi r t .active _ (@cleanupWrites_clears r (t.ride r).customerId
    (t.rideNotifiedDrivers r) (t.customerActiveRide (t.ride r).customerId))
  refine h.remove (by omega) hsame.ride hsame.notified
    (fun ref => (held_multi cleanupWrites_clears).2) (fun ref hheld hk => ?_) fun ref hheld hX => ?_
  · cases ref with
    | active => exact ⟨.sremActiveRide r, by simp [cleanupWrites], rfl⟩
    | customer =>
      have hcur : t.customerActiveRide (t.ride r).customerId = some r := hheld
      exact ⟨.delCustomerActiveRide (t.ride r).customerId, by simp [cleanupWrites, hcur], rfl⟩
    | pending d =>
      simp only [removedAt, releaseAt] at hk
      split_ifs at hk with hd
      · refine ⟨.sremPending d r, ?_, rfl, rfl⟩
        rw [h.notified]
        simp [cleanupWrites, hd]
      · simp only [Option.some.injEq] at hk
        omega
    | reservation d b =>
      simp only [removedAt, Option.ite_none_right_eq_some, Option.some.injEq] at hk
      omega
    | pointer d =>
      simp only [removedAt, releaseAt, Option.ite_none_right_eq_some, Option.some.injEq] at hk
      omega
    | hash d =>
      simp only [removedAt, releaseAt, Option.ite_none_right_eq_some, Option.some.injEq] at hk
      omega
  · obtain ⟨w, hw, hremoves⟩ := hX
    simp only [cleanupWrites, List.mem_append, List.mem_singleton, List.mem_map] at hw
    rcases hw with ((rfl | hw) | rfl) | ⟨d, hd, rfl⟩
    · cases ref with
      | active => exact ⟨_, rfl, by omega⟩
      | _ => exact hremoves.elim
    · split_ifs at hw
      · rw [List.mem_singleton.mp hw] at hremoves
        cases ref with
        | customer => exact ⟨_, rfl, by omega⟩
        | _ => exact hremoves.elim
      · cases hw
    · cases ref <;> exact hremoves.elim
    · cases ref with
      | pending d' =>
        obtain ⟨rfl, -⟩ := hremoves
        rw [h.notified] at hd
        exact ⟨cleanupAt next, if_pos hd, by omega⟩
      | _ => exact hremoves.elim

/-- The release of one reservation of the batch. -/
theorem Cut.releaseReservation {b : BatchId} {d : DriverId} {before after : List DriverId}
    (h : Cut next r s n t) (hn : n = cleanupAt next + before.length)
    (hb : (s.ride r).currentBatchId = some b)
    (hds : batchReservations (s.ride r) = before ++ d :: after) :
    Cut next r s (n + 1) (releaseLockScript (.reservation d) (.reservation r b) t).2 := by
  have hten : 12 < cleanupAt next := twelve_lt_cleanupAt
  have hmem : d ∈ batchReservations (s.ride r) := by rw [hds]; simp
  obtain ⟨locks, hl⟩ : ∃ locks, (releaseLockScript (.reservation d) (.reservation r b) t).2 =
    { t with locks } := releaseLockScript_eq
  refine h.remove (by omega) (by rw [hl]) (by rw [hl]) (fun ref => held_release)
    (fun ref _ hk => ?_) ?_
  · cases ref with
    | active => simp only [removedAt, Option.some.injEq] at hk; omega
    | customer => simp only [removedAt, Option.some.injEq] at hk; omega
    | reservation d' b' =>
      simp only [removedAt, Option.ite_none_right_eq_some, Option.some.injEq] at hk
      obtain ⟨⟨hb', hmem'⟩, hidx⟩ := hk
      have hpos : (batchReservations (s.ride r)).idxOf d' = before.length := by omega
      have hget : (batchReservations (s.ride r))[(batchReservations (s.ride r)).idxOf d']? = some d' :=
        List.getElem?_idxOf hmem'
      rw [hpos, hds, List.getElem?_append_right le_rfl, Nat.sub_self] at hget
      cases hget
      rw [hb] at hb'
      cases hb'
      rfl
    | pending d' =>
      have hlen : before.length < (batchReservations (s.ride r)).length := by rw [hds]; simp
      simp only [removedAt, releaseAt] at hk
      split_ifs at hk <;> simp only [Option.some.injEq] at hk <;> omega
    | pointer d' =>
      have hlen : before.length < (batchReservations (s.ride r)).length := by rw [hds]; simp
      simp only [removedAt, releaseAt, Option.ite_none_right_eq_some, Option.some.injEq] at hk
      omega
    | hash d' =>
      have hlen : before.length < (batchReservations (s.ride r)).length := by rw [hds]; simp
      simp only [removedAt, releaseAt, Option.ite_none_right_eq_some, Option.some.injEq] at hk
      omega
  · rintro ref - rfl
    have hle : (batchReservations (s.ride r)).idxOf d ≤ before.length := by
      rw [hds, List.idxOf_append]
      split
      · rename_i hin
        exact (List.idxOf_lt_length_of_mem hin).le
      · simp
    exact ⟨_, if_pos ⟨hb, hmem⟩, by omega⟩

theorem releaseWrites_clears {d : DriverId} {hash : DriverHash} {active : Option RideId}
    {heartbeatExists : Bool} {now : Time} :
    ∀ w ∈ releaseWrites d r hash active heartbeatExists now, w.clears := by
  intro w hw
  have hfields : ∀ st a, DriverField.activeRideId a ∈
      [.activeRideId none, .updatedAt now, DriverField.status st] → a = none := by
    intro st a ha
    simpa using ha
  simp only [releaseWrites, List.mem_append, List.mem_cons, List.not_mem_nil, or_false] at hw
  rcases hw with ((rfl | rfl) | hw) | hw
  · trivial
  · trivial
  · split_ifs at hw
    · rw [List.mem_singleton.mp hw]
      trivial
    · cases hw
  · split_ifs at hw
    · rw [List.mem_singleton.mp hw]
      exact hfields _
    · simp only [List.mem_append, List.mem_cons, List.not_mem_nil, or_false] at hw
      rcases hw with (rfl | rfl | rfl) | hw
      · exact hfields _
      · trivial
      · trivial
      · split at hw
        · rw [List.mem_singleton.mp hw]
          trivial
        · cases hw

theorem releaseWrites_hash {d : DriverId} {hash : DriverHash} {active : Option RideId}
    {heartbeatExists : Bool} {now : Time} :
    ∃ w ∈ releaseWrites d r hash active heartbeatExists now, ∀ c, w.removes r c (.hash d) := by
  by_cases hoff : hash.status.getD .offline = .offline ∨ heartbeatExists = false
  · refine ⟨.hsetDriver d [.activeRideId none, .updatedAt now, .status .offline], ?_, fun c => ⟨rfl, ?_⟩⟩
    · simp [releaseWrites, hoff]
    · exact List.mem_cons_self
  · refine ⟨.hsetDriver d [.activeRideId none, .updatedAt now, .status .online], ?_, fun c => ⟨rfl, ?_⟩⟩
    · simp only [releaseWrites, if_neg hoff]
      simp
    · exact List.mem_cons_self

/-- The write removes references of `d` only. -/
theorem releaseWrites_removes {d : DriverId} {hash : DriverHash} {active : Option RideId}
    {heartbeatExists : Bool} {now : Time} {c : CustomerId} {w : Write}
    (hw : w ∈ releaseWrites d r hash active heartbeatExists now) (hremoves : w.removes r c ref) :
    ref = .pending d ∨ ref = .pointer d ∨ ref = .hash d := by
  have hmem : ∀ fields, .hsetDriver d fields = w → ref = .pending d ∨ ref = .pointer d ∨ ref = .hash d := by
    rintro fields rfl
    cases ref with
    | hash d' => rw [hremoves.1]; exact .inr (.inr rfl)
    | _ => exact hremoves.elim
  simp only [releaseWrites, List.mem_append, List.mem_cons, List.not_mem_nil, or_false] at hw
  rcases hw with ((rfl | rfl) | hw) | hw
  · cases ref <;> exact hremoves.elim
  · cases ref with
    | pending d' => rw [hremoves.1]; exact .inl rfl
    | _ => exact hremoves.elim
  · split_ifs at hw
    · rw [List.mem_singleton.mp hw] at hremoves
      cases ref with
      | pointer d' =>
        have hd : d' = d := hremoves
        rw [hd]
        exact .inr (.inl rfl)
      | _ => exact hremoves.elim
    · cases hw
  · split_ifs at hw
    · exact hmem _ (List.mem_singleton.mp hw).symm
    · simp only [List.mem_append, List.mem_cons, List.not_mem_nil, or_false] at hw
      rcases hw with (rfl | rfl | rfl) | hw
      · exact hmem _ rfl
      · cases ref <;> exact hremoves.elim
      · cases ref <;> exact hremoves.elim
      · split at hw
        · rw [List.mem_singleton.mp hw] at hremoves
          cases ref <;> exact hremoves.elim
        · cases hw

/-- The MULTI that releases the driver. -/
theorem Cut.releaseDriver {d : DriverId} {heartbeatExists : Bool} {now : Time}
    (h : Cut next r s n t) (hn : n + 1 = releaseAt next (s.ride r)) (hd : (s.ride r).driverId = some d) :
    Cut next r s (n + 1) (t.multi (releaseWrites d r (t.driverHash d) (t.driverActiveRide d)
      heartbeatExists now)) := by
  have hten : 12 < cleanupAt next := twelve_lt_cleanupAt
  have hlt : cleanupAt next + (batchReservations (s.ride r)).length + 4 = n + 1 := hn.symm
  obtain ⟨hsame, -⟩ := @held_multi r t .active _ (@releaseWrites_clears r d (t.driverHash d)
    (t.driverActiveRide d) heartbeatExists now)
  refine h.remove (by omega) hsame.ride hsame.notified
    (fun ref => (held_multi releaseWrites_clears).2) (fun ref hheld hk => ?_) fun ref hheld hX => ?_
  · cases ref with
    | active => simp only [removedAt, Option.some.injEq] at hk; omega
    | customer => simp only [removedAt, Option.some.injEq] at hk; omega
    | reservation d' b' =>
      simp only [removedAt, Option.ite_none_right_eq_some, Option.some.injEq] at hk
      have := List.idxOf_lt_length_of_mem hk.1.2
      omega
    | pending d' =>
      simp only [removedAt, hd] at hk
      split_ifs at hk with hnotified hd'
      · simp only [Option.some.injEq] at hk
        omega
      · cases hd'
        exact ⟨.sremPending d r, by simp [releaseWrites], rfl, rfl⟩
    | pointer d' =>
      simp only [removedAt, hd, Option.ite_none_right_eq_some] at hk
      cases hk.1
      have hpointer : t.driverActiveRide d = some r := hheld
      exact ⟨.delDriverActiveRide d, by simp [releaseWrites, hpointer], rfl⟩
    | hash d' =>
      simp only [removedAt, hd, Option.ite_none_right_eq_some] at hk
      cases hk.1
      obtain ⟨w, hw, hremoves⟩ := @releaseWrites_hash r d (t.driverHash d) (t.driverActiveRide d)
        heartbeatExists now
      exact ⟨w, hw, hremoves _⟩
  · obtain ⟨w, hw, hremoves⟩ := hX
    rcases releaseWrites_removes hw hremoves with rfl | rfl | rfl
    · simp only [removedAt, hd, if_true]
      split_ifs
      · exact ⟨_, rfl, by omega⟩
      · exact ⟨_, rfl, by omega⟩
    · exact ⟨releaseAt next (s.ride r), if_pos hd, by omega⟩
    · exact ⟨releaseAt next (s.ride r), if_pos hd, by omega⟩

end removals

section quiet

variable {d : DriverId} {ride : RideHash} {now : Time}

theorem quiet_publish {room : Room} {key : PublishKey} : (publish room key).Uses Cmd.quiet := by
  refine ⟨trivial, fun allowed => ?_⟩
  cases allowed with
  | false => trivial
  | true => exact ⟨trivial, fun _ => trivial⟩

theorem quiet_emitRideStatusUpdate : (emitRideStatusUpdate r ride).Uses Cmd.quiet := by
  refine quiet_publish.bind fun _ => ?_
  cases ride.driverId with
  | none => trivial
  | some d => exact quiet_publish

theorem quiet_enqueueDriverSync {reason : SyncReason} :
    (enqueueDriverSync d reason none).Uses Cmd.quiet :=
  ⟨trivial, fun _ => ⟨trivial, fun _ => trivial⟩⟩

theorem quiet_releaseRideLock {token : Token} : (releaseLock (.ride r) token).Uses Cmd.quiet :=
  ⟨not_false, fun _ => trivial⟩

end quiet

section walk

variable {ride : RideHash} {now : Time} {options : TransitionOptions}

theorem Cut.done (h : Cut next r s n t) (hsix : 6 ≤ n)
    (hall : ∀ ref k, removedAt next r s ref = some k → k ≤ n) : Done next r s (n, t) := ⟨h, hsix, hall⟩

theorem walk_reservations {b : BatchId} (hb : (s.ride r).currentBatchId = some b)
    {before after : List DriverId} (hds : batchReservations (s.ride r) = before ++ after)
    (h : Cut next r s (cleanupAt next + before.length) t) :
    (cuts env i next r s).Safe
      (fun e x => e = .ok () ∧ Cut next r s x.1 x.2 ∧
        x.1 = cleanupAt next + (batchReservations (s.ride r)).length)
      (Prog.forEach (fun d => releaseLock (.reservation d) (.reservation r b)) after)
      (cleanupAt next + before.length, t) := by
  induction after generalizing before t with
  | nil =>
    refine View.safe_alone_ret.mpr ⟨rfl, h, ?_⟩
    rw [hds, List.append_nil]
  | cons d after ih =>
    refine View.safe_alone_cmd.mpr ⟨h, ?_⟩
    have hnext : Cut next r s (cleanupAt next + before.length + 1)
        (releaseLockScript (.reservation d) (.reservation r b) t).2 := h.releaseReservation rfl hb hds
    have hlen : cleanupAt next + (before ++ [d]).length = cleanupAt next + before.length + 1 := by
      simp only [List.length_append, List.length_singleton]
      omega
    rw [← hlen] at hnext ⊢
    exact ih (by rw [hds, List.append_assoc, List.singleton_append]) hnext

theorem walk_releaseBatchReservations (hbatch : ride.currentBatchId = (s.ride r).currentBatchId)
    (hdrivers : ride.currentBatchDrivers = (s.ride r).currentBatchDrivers)
    (h : Cut next r s (cleanupAt next) t) :
    (cuts env i next r s).Safe
      (fun e x => e = .ok () ∧ Cut next r s x.1 x.2 ∧
        x.1 = cleanupAt next + (batchReservations (s.ride r)).length)
      (releaseBatchReservations r ride) (cleanupAt next, t) := by
  unfold releaseBatchReservations
  rw [hbatch, hdrivers]
  cases hb : (s.ride r).currentBatchId with
  | none =>
    have hnil : batchReservations (s.ride r) = [] := if_pos hb
    refine View.safe_alone_ret.mpr ⟨rfl, h, ?_⟩
    rw [hnil, List.length_nil, Nat.add_zero]
  | some b =>
    have hds : batchReservations (s.ride r) = (s.ride r).currentBatchDrivers :=
      if_neg (by rw [hb]; exact Option.some_ne_none b)
    have hwalk := @walk_reservations env i r s t next b hb [] (s.ride r).currentBatchDrivers hds h
    exact hwalk

theorem walk_releaseRideDriver (hdriver : ride.driverId = (s.ride r).driverId)
    (h : Cut next r s n t) (hn : n = cleanupAt next + (batchReservations (s.ride r)).length) :
    (cuts env i next r s).Safe (fun _ => Done next r s) (releaseRideDriver r ride now) (n, t) := by
  have hten : 12 < cleanupAt next := twelve_lt_cleanupAt
  unfold releaseRideDriver
  rw [hdriver]
  cases hd : (s.ride r).driverId with
  | none =>
    refine View.safe_alone_ret.mpr (h.done (by omega) fun ref k hk => ?_)
    rcases removedAt_le hk with hle | ⟨-, hne⟩
    · omega
    · exact absurd hd hne
  | some d =>
    have hlast : releaseAt next (s.ride r) = n + 4 := by rw [hn]; rfl
    have hgap : ∀ m, n ≤ m → m < n + 3 → ∀ ref, removedAt next r s ref ≠ some (m + 1) := by
      intro m hm hm' ref hk
      rcases removedAt_le hk with hle | ⟨heq, -⟩ <;> omega
    simp only [releaseDriverAvailability, redis, Prog.bind_eq, Prog.perform_bind, Prog.cmd_bind]
    have h₁ : Cut next r s (n + 1) t := h.same SameRefs.refl (by omega) (hgap n le_rfl (by omega))
    have h₂ : Cut next r s (n + 2) t :=
      h₁.same SameRefs.refl (by omega) (hgap (n + 1) (by omega) (by omega))
    have h₃ : Cut next r s (n + 3) t :=
      h₂.same SameRefs.refl (by omega) (hgap (n + 2) (by omega) (by omega))
    refine View.safe_alone_cmd.mpr ⟨h, View.safe_alone_cmd.mpr ⟨h₁, View.safe_alone_cmd.mpr ⟨h₂, ?_⟩⟩⟩
    refine View.safe_alone_cmd.mpr ⟨h₃, ?_⟩
    refine done_keeps quiet_enqueueDriverSync _ (Cut.done ?_ (by omega) fun ref k hk => ?_)
    · exact h₃.releaseDriver hlast.symm hd
    · rcases removedAt_le hk with hle | ⟨heq, -⟩ <;> omega

theorem walk_cleanup (hride : t.ride r = ride) (h : Cut next r s n t) (hn : n + 3 = cleanupAt next) :
    (cuts env i next r s).Safe (fun _ => Done next r s) (cleanupTerminalRideKeys r ride now) (n, t) := by
  have hten : 12 < cleanupAt next := twelve_lt_cleanupAt
  have h₁ : Cut next r s (n + 1) t := h.same SameRefs.refl (by omega) (not_removed_before (by omega))
  have h₂ : Cut next r s (n + 2) t := h₁.same SameRefs.refl (by omega) (not_removed_before (by omega))
  have h₃ : Cut next r s (n + 3) (t.multi (cleanupWrites r (t.ride r).customerId
      (t.rideNotifiedDrivers r) (t.customerActiveRide (t.ride r).customerId))) := h₂.cleanup hn
  subst hride
  simp only [cleanupTerminalRideKeys, redis, Prog.bind_eq, Prog.perform_bind]
  refine View.safe_alone_cmd.mpr ⟨h, View.safe_alone_cmd.mpr ⟨h₁, View.safe_alone_cmd.mpr ⟨h₂, ?_⟩⟩⟩
  refine View.Safe.bind ?_
  rw [hn] at h₃ ⊢
  refine (walk_releaseBatchReservations h.batch h.batchDrivers h₃).mono ?_
  rintro e x ⟨rfl, hx, hlen⟩
  exact walk_releaseRideDriver h.driver hx hlen

theorem walk_finishTransition {notified : List DriverId} (hterminal : next.terminal)
    (hride : t.ride r = ride) (h : Cut next r s n t) (hn : n + 3 = cleanupAt next) :
    (cuts env i next r s).Safe (fun _ => Done next r s)
      (finishTransition r next ride notified now) (n, t) := by
  simp only [finishTransition, if_pos hterminal, Prog.bind_eq, Prog.pure_eq]
  refine (walk_cleanup hride h hn).andThen fun _ => done_keeps ?_
  refine Prog.Uses.bind ⟨trivial, fun _ => trivial⟩ fun _ => ?_
  refine quiet_emitRideStatusUpdate.bind fun _ => quiet_emitRideStatusUpdate.bind fun _ => ?_
  split_ifs
  · exact Prog.Uses.bind (Prog.Uses.forEach fun _ _ => quiet_publish) fun _ => trivial
  · trivial

/-- From the command after the HSET on. -/
theorem walk_afterTransition (hterminal : next.terminal) (h : Cut next r s 6 t) :
    (cuts env i next r s).Safe (fun _ => Done next r s)
      (afterTransition r next options now) (6, t) := by
  have hten : 12 < cleanupAt next := twelve_lt_cleanupAt
  have hquiet : ∀ w : Write, w.quiet → ∀ v ∈ [w], v.quiet := by
    intro w hw v hv
    rw [List.mem_singleton.mp hv]
    exact hw
  simp only [afterTransition, refreshRideRealtimeKeys, appendTimelineEvent, getRide, write, redis,
    Prog.bind_eq, Prog.perform_bind, Prog.cmd_bind, Prog.pure_eq, Prog.ret_bind]
  refine h.quiet (hquiet _ trivial) (by omega) (not_removed_before (by omega)) fun u _ h => ?_
  refine h.quiet (hquiet _ trivial) (by omega) (not_removed_before (by omega)) fun u _ h => ?_
  refine h.quiet (hquiet _ trivial) (by omega) (not_removed_before (by omega)) fun u _ h => ?_
  have h₁ : Cut next r s 10 u := h.same SameRefs.refl (by omega) (not_removed_before (by omega))
  have hst : (u.ride r).status = some next := h.status (by omega)
  have hsnapshot : toRideSnapshot (u.ride r) = some (u.ride r) := by
    unfold toRideSnapshot
    rw [hst, if_neg (Option.some_ne_none next)]
  have hfinish : ∀ m notified, Cut next r s m u → m + 3 = cleanupAt next →
      (cuts env i next r s).Safe (fun _ => Done next r s)
        (finishTransition r next (u.ride r) notified now) (m, u) :=
    fun m notified hm hlen => walk_finishTransition hterminal rfl hm hlen
  refine View.safe_alone_cmd.mpr ⟨h, ?_⟩
  rw [show toRideSnapshot ((system env).client i (.hgetallRide r) u).1 = some (u.ride r) from hsnapshot]
  unfold readNotifiedDrivers
  split_ifs with hcancelled
  · have hat : cleanupAt next = 14 := if_pos hcancelled
    have h₂ : Cut next r s 11 u :=
      h₁.same SameRefs.refl (by omega) (not_removed_before (by omega))
    exact View.safe_alone_cmd.mpr ⟨h₁, hfinish 11 _ h₂ hat.symm⟩
  · have hat : cleanupAt next = 13 := if_neg hcancelled
    exact hfinish 10 _ h₁ hat.symm

/-- The HSET. -/
theorem Cut.hset (h : Cut next r s 5 t) (hdriver : options.driverId = none) :
    Cut next r s 6 (t.multi [.hsetRide r (transitionFields env ride next options now)]) := by
  have hten : 12 < cleanupAt next := twelve_lt_cleanupAt
  obtain ⟨hst, hd, -, hb, hds⟩ := @hset_transitionFields env ride (t.ride r) next options now hdriver
  have hr : (t.multi [.hsetRide r (transitionFields env ride next options now)]).ride r =
    (t.ride r).hset (transitionFields env ride next options now) := put_self
  refine ⟨fun hle => absurd hle (by omega), fun _ => ?_, ?_, ?_, ?_, ?_, h.notified, fun ref => ?_⟩
  · rw [hr, hst]
  · rw [hr, hd, h.driver]
  · rw [hr, hb, h.batch]
  · rw [hr, hds, h.batchDrivers]
  · rw [hr, hset_customerId, h.customer]
  · have hheld : ref.Held r (t.multi [.hsetRide r (transitionFields env ride next options now)]) ↔
        ref.Held r t := by
      cases ref with
      | customer =>
        unfold Ref.Held
        rw [hr, hset_customerId]
        exact Iff.rfl
      | _ => exact Iff.rfl
    rw [hheld, h.held]
    refine and_congr_right fun _ => forall₂_congr fun k hk => ?_
    have := cleanupAt_le hk
    omega

theorem walk_transitionUnderLock {current : RideStatus} (hcurrent : (s.ride r).status = some current)
    (hlegal : next ∈ rideTransitions current) (hterminal : next.terminal)
    (hdriver : options.driverId = none) (h : Cut next r s 3 t) :
    (cuts env i next r s).Safe (fun _ => Done next r s)
      (transitionUnderLock env r next options) (3, t) := by
  have hten : 12 < cleanupAt next := twelve_lt_cleanupAt
  have hst : (t.ride r).status = some current := by rw [(h.early (by omega)).ride, hcurrent]
  have hne : some current ≠ some next := by
    intro heq
    cases heq
    cases next <;> simp [rideTransitions] at hlegal
  have hsnapshot : toRideSnapshot (t.ride r) = some (t.ride r) := by
    unfold toRideSnapshot
    rw [hst, if_neg (Option.some_ne_none current)]
  have h₁ : Cut next r s 4 t := h.same SameRefs.refl (by omega) (not_removed_before (by omega))
  have h₂ : Cut next r s 5 t := h₁.same SameRefs.refl (by omega) (not_removed_before (by omega))
  simp only [transitionUnderLock, getRide, redis, Prog.bind_eq, Prog.perform_bind, Prog.cmd_bind,
    Prog.pure_eq, Prog.ret_bind]
  refine View.safe_alone_cmd.mpr ⟨h, ?_⟩
  rw [show toRideSnapshot ((system env).client i (.hgetallRide r) t).1 = some (t.ride r) from hsnapshot]
  dsimp only
  rw [hst, if_neg hne, Option.getD_some, assertTransition, if_pos hlegal, Prog.pure_eq, Prog.ret_bind]
  refine View.safe_alone_cmd.mpr ⟨h₁, View.safe_alone_cmd.mpr ⟨h₂, ?_⟩⟩
  exact walk_afterTransition hterminal (h₂.hset hdriver)

/-- The transition alone, once the operation has read the ride and found the lock free. -/
theorem walk_transitionRide {current : RideStatus} (hcurrent : (s.ride r).status = some current)
    (hlegal : next ∈ rideTransitions current) (hterminal : next.terminal)
    (hdriver : options.driverId = none) (hfree : s.locks (.ride r) = none) (h : Cut next r s 1 s) :
    (cuts env i next r s).Safe (fun _ => Done next r s) (transitionRide env r next options) (1, s) := by
  have hten : 12 < cleanupAt next := twelve_lt_cleanupAt
  unfold transitionRide
  rw [withLock_eq]
  simp only [Prog.bind_eq, Prog.cmd_bind]
  let token : Token := .uuid ((system env).client i .uuidv4 s).1
  let u : Store := ((system env).client i .uuidv4 s).2
  let setNX : Cmd Bool := .setNX (.ride r) token env.lockTtlMs
  have hu : u.locks (.ride r) = none := hfree
  have hu₂ : Cut next r s 2 u :=
    h.same (@exec_quiet env i s _ .uuidv4 trivial) (by omega) (not_removed_before (by omega))
  have hu₃ : Cut next r s 3 ((system env).client i setNX u).2 :=
    hu₂.same (@exec_quiet env i u _ setNX not_false) (by omega) (not_removed_before (by omega))
  have hok : ((system env).client i setNX u).1 = true := by
    change (exec env i (.setNX (.ride r) token env.lockTtlMs) u).1 = true
    rw [exec_setNX_of_none hu]
  refine View.safe_alone_cmd.mpr ⟨h, View.safe_alone_cmd.mpr ⟨hu₂, ?_⟩⟩
  rw [show ((system env).client i (.setNX (.ride r) token env.lockTtlMs) u).1 = true from hok, if_pos rfl,
    Prog.bind_assoc]
  refine View.Safe.andThen (View.Safe.tryFinally ?_) fun result => done_keeps ?_
  · refine (walk_transitionUnderLock hcurrent hlegal hterminal hdriver hu₃).mono fun e x hx => ?_
    refine (done_keeps quiet_releaseRideLock x hx).mono fun f y hy => ?_
    cases f <;> exact hy
  · rw [Prog.ret_bind]
    cases (some result).join <;> trivial

/-- The operation alone, from a store in which the ride goes on and its lock is free. -/
theorem walk_ends {op : Op} (hop : Ends r s next op) (hfree : s.locks (.ride r) = none) :
    (cuts env i next r s).Safe (fun _ => Done next r s) (code env op) (0, s) := by
  have hten : 12 < cleanupAt next := twelve_lt_cleanupAt
  have h₀ : Cut next r s 0 s := by
    refine ⟨fun _ => SameRefs.refl, fun h => absurd h (by omega), rfl, rfl, rfl, rfl, rfl, fun ref => ?_⟩
    refine (and_iff_left fun k hk => ?_).symm
    have := cleanupAt_le hk
    omega
  have h₁ : Cut next r s 1 s := h₀.same SameRefs.refl (by omega) (not_removed_before (by omega))
  have hsnapshot : (s.ride r).status ≠ none → toRideSnapshot (s.ride r) = some (s.ride r) := by
    intro hne
    unfold toRideSnapshot
    rw [if_neg hne]
  cases hop with
  | complete d hst hd =>
    have hsnap : toRideSnapshot (s.ride r) = some (s.ride r) :=
      hsnapshot (by rw [hst]; exact Option.some_ne_none _)
    refine View.Safe.andThen ?_ fun _ => done_keeps trivial
    refine View.safe_alone_cmd.mpr ⟨h₀, ?_⟩
    simp only [Prog.pure_eq, Prog.ret_bind]
    rw [show toRideSnapshot ((system env).client i (.hgetallRide r) s).1 = some (s.ride r) from hsnap,
      if_pos (show (some (s.ride r)).bind RideHash.driverId = some d from hd)]
    exact walk_transitionRide hst (by simp [rideTransitions]) rfl rfl hfree h₁
  | cancel actorType actorId reason current hst hopen =>
    have hsnap : toRideSnapshot (s.ride r) = some (s.ride r) :=
      hsnapshot (by rw [hst]; exact Option.some_ne_none _)
    refine View.Safe.andThen ?_ fun _ => done_keeps trivial
    refine View.safe_alone_cmd.mpr ⟨h₀, ?_⟩
    simp only [Prog.pure_eq, Prog.ret_bind]
    rw [show toRideSnapshot ((system env).client i (.hgetallRide r) s).1 = some (s.ride r) from hsnap]
    dsimp only
    rw [hst, Option.map_some, Option.getD_some, if_neg (by rw [hopen]; exact Bool.false_ne_true)]
    refine walk_transitionRide hst ?_ rfl rfl hfree h₁
    cases current with
    | completed => cases hopen
    | cancelled => cases hopen
    | _ => simp [rideTransitions]

end walk

theorem cut_advance {op : Op} (hop : Ends r s next op) (hfree : s.locks (.ride r) = none) (n : ℕ) :
    Cut next r s n ((code env op).advance ((system env).client i) n s).2 := by
  have hcut := (@walk_ends env i r s next op hop hfree).cut ?_ n
  · rwa [Nat.zero_add] at hcut
  · rintro e m t ⟨hm, hsix, hall⟩ l
    refine ⟨fun hle => absurd hle (by omega), fun _ => hm.status hsix, hm.driver, hm.batch,
      hm.batchDrivers, hm.customer, hm.notified, fun ref => ?_⟩
    rw [hm.held]
    refine and_congr_right fun _ => forall₂_congr fun k hk => ?_
    have := hall ref k hk
    omega

section still

/-- A program alone whose cuts all have the references of `s`. -/
abbrev still (env : Env) (i : ℕ) (s : Store) : View Cmd (ℕ × Store) :=
  View.alone ((system env).client i) fun _ t => SameRefs s t

theorem still_keeps {p : App α} (hp : p.Uses Cmd.quiet) :
    (still env i s).Keeps (fun x => SameRefs s x.2) p := by
  refine View.Keeps.of_uses (View.stable_alone _) (fun β c x hc hx _ => ⟨hx, ?_⟩) hp
  exact hx.trans (exec_quiet hc)

theorem still_transitionRide {options : TransitionOptions}
    (hwhy : (s.ride r).status = some next ∨ t.locks (.ride r) ≠ none) (h : SameRefs s t) :
    (still env i s).Safe (fun _ x => SameRefs s x.2) (transitionRide env r next options) (n, t) := by
  unfold transitionRide
  rw [withLock_eq]
  simp only [Prog.bind_eq, Prog.cmd_bind]
  let token : Token := .uuid ((system env).client i .uuidv4 t).1
  let u : Store := ((system env).client i .uuidv4 t).2
  have hu : SameRefs s u := h.trans (@exec_quiet env i t _ .uuidv4 trivial)
  refine View.safe_alone_cmd.mpr ⟨h, View.safe_alone_cmd.mpr ⟨hu, ?_⟩⟩
  -- a busy lock stops it before it reads, otherwise the ride is in the status already
  cases hlock : u.locks (.ride r) with
  | some lease =>
    have hbusy : exec env i (.setNX (.ride r) token env.lockTtlMs) u = (false, u) :=
      exec_setNX_of_some hlock
    rw [show (system env).client i (.setNX (.ride r) token env.lockTtlMs) u = (false, u) from hbusy]
    exact View.safe_alone_throw.mpr hu
  | none =>
    have hst : (s.ride r).status = some next := by
      rcases hwhy with hst | hlocked
      · exact hst
      · exact absurd (show t.locks (.ride r) = none from hlock) hlocked
    let w : Store := { u with locks := put u.locks (.ride r) (some ⟨token, u.clock + env.lockTtlMs⟩) }
    have hok : exec env i (.setNX (.ride r) token env.lockTtlMs) u = (true, w) :=
      exec_setNX_of_none hlock
    have hw : SameRefs s w := by
      have hquiet := @exec_quiet env i u _ (.setNX (.ride r) token env.lockTtlMs) not_false
      rw [hok] at hquiet
      exact hu.trans hquiet
    have hsnapshot : toRideSnapshot (w.ride r) = some (w.ride r) := by
      unfold toRideSnapshot
      rw [hw.ride, hst, if_neg (Option.some_ne_none next)]
    rw [show (system env).client i (.setNX (.ride r) token env.lockTtlMs) u = (true, w) from hok,
      if_pos rfl, Prog.bind_assoc]
    refine View.Safe.andThen (View.Safe.tryFinally ?_) fun result => still_keeps ?_
    · have hbody : (still env i s).Safe (fun _ x => SameRefs s x.2)
          (transitionUnderLock env r next options) (n + 1 + 1, w) := by
        refine View.safe_alone_cmd.mpr ⟨hw, ?_⟩
        simp only [Prog.pure_eq, Prog.ret_bind]
        rw [show toRideSnapshot ((system env).client i (.hgetallRide r) w).1 = some (w.ride r) from hsnapshot]
        dsimp only
        rw [if_pos (by rw [hw.ride, hst])]
        exact still_keeps (p := getRide r) ⟨trivial, fun _ => trivial⟩ _ hw
      refine hbody.mono fun e x hx => ?_
      refine (still_keeps quiet_releaseRideLock x hx).mono fun f y hy => ?_
      cases f <;> exact hy
    · rw [Prog.ret_bind]
      cases (some result).join <;> trivial

/-- The operation changes no reference when the ride is over, or its lock is busy. -/
theorem still_ends {op : Op} (hop : Ends r s next op) {u : Store}
    (hwhy : (u.ride r).status = some next ∨ u.locks (.ride r) ≠ none) :
    (still env i u).Safe (fun _ x => SameRefs u x.2) (code env op) (0, u) := by
  cases hop with
  | complete d hst hd =>
    refine View.Safe.andThen ?_ fun _ => still_keeps trivial
    refine View.safe_alone_cmd.mpr ⟨SameRefs.refl, ?_⟩
    simp only [Prog.pure_eq, Prog.ret_bind]
    split_ifs
    · exact still_transitionRide hwhy SameRefs.refl
    · exact View.safe_alone_throw.mpr SameRefs.refl
  | cancel actorType actorId reason current hst hopen =>
    refine View.Safe.andThen ?_ fun _ => still_keeps trivial
    refine View.safe_alone_cmd.mpr ⟨SameRefs.refl, ?_⟩
    simp only [Prog.pure_eq, Prog.ret_bind]
    cases toRideSnapshot ((system env).client i (.hgetallRide r) u).1 with
    | none => exact View.safe_alone_throw.mpr SameRefs.refl
    | some ride =>
      dsimp only
      split_ifs
      · exact View.safe_alone_ret.mpr SameRefs.refl
      · exact still_transitionRide hwhy SameRefs.refl

end still

/-- The ride is over and nothing refers to it. -/
structure Settled (r : RideId) (s : Store) : Prop where
  ended : (s.ride r).terminal
  refs : ∀ ref : Ref, ¬ ref.Held r s

/-- The first call has thrown, and its `finally` has released the lock of the ride. -/
def thrown (r : RideId) (p : State) : State :=
  { p with store := { p.store with locks := put p.store.locks (.ride r) none } }

/-- Called again in `p`, in which the first call has stopped or thrown, or at any later time,
once the lock of the ride is free, the operation leaves the ride over and without references. -/
def RetrySettles (env : Env) (p : State) (op : Op) (r : RideId) : Prop :=
  ∀ p' (events : List Event) m k q, p' = p ∨ p' = thrown r p →
    (system env).Run (fun _ _ => True) p' (events.map .env) m →
    m.store.locks (.ride r) = none →
    (system env).Run (fun _ _ => True) m (.call op :: run m.threads.length k) q →
    Running q m.threads.length = false → Settled r q.store

/-- The second call does the operation from its start: the first one was stopped before
its HSET, or found the lock of the ride busy. -/
def StartsOver (r : RideId) (s : Store) (n : ℕ) : Prop := n ≤ 5 ∨ s.locks (.ride r) ≠ none

/-- Every reference that stands in `s` is due to be removed by the operation, and the first
call has removed it or the second one starts over. -/
def AllRemoved (next : RideStatus) (r : RideId) (s : Store) (n : ℕ) : Prop :=
  ∀ ref : Ref, ref.Held r s → ∃ k, removedAt next r s ref = some k ∧ (k ≤ n ∨ StartsOver r s n)

section retry

variable {op : Op} {p m q : State}

/-- Time passes: reservations may expire, the rest stays. -/
structure Waited (s t : Store) : Prop extends SameKeys s t where
  reservations : ∀ d lease, t.locks (.reservation d) = some lease → s.locks (.reservation d) = some lease

theorem Waited.held (h : Waited s t) (hheld : ref.Held r t) : ref.Held r s := by
  cases ref with
  | reservation d b =>
    obtain ⟨lease, hlease, htoken⟩ := Option.map_eq_some_iff.mp hheld
    exact Option.map_eq_some_iff.mpr ⟨lease, h.reservations d lease hlease, htoken⟩
  | _ =>
    refine (h.toSameKeys.held ?_).mp hheld
    intro d b hr
    cases hr

theorem event_waited {e : Event} (h : e.apply s = some t) : Waited s t := by
  refine ⟨event_sameKeys h, fun d lease hlease => ?_⟩
  cases event_happens h with
  | expireLease key lease' hlease' hover =>
    have hput : put s.locks key none (.reservation d) = some lease := hlease
    rw [put_apply] at hput
    split_ifs at hput
    exact hput
  | _ => exact hlease

theorem Waited.trans (h₁ : Waited s t) (h₂ : Waited t u) : Waited s u :=
  ⟨h₁.toSameKeys.trans h₂.toSameKeys, fun d lease h => h₁.reservations d lease (h₂.reservations d lease h)⟩

theorem run_waited {events : List Event} {ok : State → Step → Prop}
    (h : (system env).Run ok p (events.map .env) m) : Waited p.store m.store := by
  induction events generalizing p with
  | nil =>
    cases h
    exact ⟨SameKeys.refl, fun _ _ => id⟩
  | cons e events ih =>
    cases h with
    | cons hok hnext hrest =>
      simp only [System.next, Option.map_eq_some_iff] at hnext
      obtain ⟨t, ht, rfl⟩ := hnext
      exact (event_waited ht).trans (ih hrest)

theorem thrown_waited : Waited p.store (thrown r p).store := by
  refine ⟨⟨le_rfl, rfl, rfl, rfl, rfl, rfl, rfl, rfl, rfl, rfl, rfl⟩, fun d lease hlease => ?_⟩
  have hne : LockKey.reservation d ≠ .ride r := by
    intro h
    cases h
  rwa [← @put_of_ne _ _ _ p.store.locks _ _ none hne]

/-- The lock of the ride becomes free by the passing of time. -/
theorem exists_unlocked (p : State) (r : RideId) :
    ∃ (events : List Event) (m : State), (system env).Run (fun _ _ => True) p (events.map .env) m ∧
      m.store.locks (.ride r) = none ∧ SameRefs p.store m.store := by
  cases hl : p.store.locks (.ride r) with
  | none => exact ⟨[], p, .nil p, hl, SameRefs.refl⟩
  | some lease =>
    let late : Store := { p.store with clock := p.store.clock + lease.expiresAt }
    let free : Store := { late with locks := put late.locks (.ride r) none }
    have hexpire : (Event.expireLease (.ride r)).apply late = some free := by
      simp only [Event.apply, late, hl, Nat.le_add_left, if_true, free]
    refine ⟨[.tick lease.expiresAt, .expireLease (.ride r)], ⟨free, p.threads⟩, ?_, put_self, ?_⟩
    · refine .cons trivial (q := ⟨late, p.threads⟩) rfl (.cons trivial ?_ (.nil _))
      simp only [System.next, system, hexpire, Option.map_some]
    · refine ⟨⟨le_rfl, rfl, rfl, rfl, rfl, rfl, rfl, rfl, rfl, rfl, rfl⟩, fun d => ?_⟩
      have hne : LockKey.reservation d ≠ .ride r := by
        intro h
        cases h
      exact @put_of_ne _ _ _ late.locks _ _ none hne

theorem still_advance (hop : Ends r s next op)
    (hwhy : (u.ride r).status = some next ∨ u.locks (.ride r) ≠ none) (n : ℕ) :
    SameRefs u ((code env op).advance ((system env).client i) n u).2 := by
  have hcut := (@still_ends env i r s next op hop u hwhy).cut (fun _ _ _ h _ => h) n
  exact hcut

theorem Ends.same (hop : Ends r s next op) (h : u.ride = s.ride) : Ends r u next op := by
  cases hop with
  | complete d hst hd => exact .complete d (by rw [h]; exact hst) (by rw [h]; exact hd)
  | cancel actorType actorId reason current hst hopen =>
    exact .cancel actorType actorId reason current (by rw [h]; exact hst) hopen

theorem first_call (hop : Ends r s next op)
    (hcut : t = ((code env op).advance ((system env).client i) n s).2) :
    (StartsOver r s n → SameRefs s t) ∧ (¬ StartsOver r s n → 6 ≤ n ∧ Cut next r s n t) := by
  rw [hcut]
  by_cases hlocked : s.locks (.ride r) = none
  · refine ⟨fun hover => ?_, fun hover => ⟨?_, cut_advance hop hlocked n⟩⟩
    · have hfive : n ≤ 5 := hover.resolve_right fun h => h hlocked
      exact (cut_advance hop hlocked n).early hfive
    · by_contra hsix
      exact hover (.inl (by omega))
  · exact ⟨fun _ => still_advance hop (.inr hlocked) n, fun hover => absurd (.inr hlocked) hover⟩

/-- What the second call makes of a store `u` that is reached from a cut of the first. -/
theorem retried (hop : Ends r s next op)
    (hcut : t = ((code env op).advance ((system env).client i) n s).2)
    (hwait : Waited t u) (hfree : u.locks (.ride r) = none) (j : ℕ) :
    (((code env op).finish ((system env).client j) u).2.ride r).status = some next ∧
      ∀ ref : Ref, ref.Held r ((code env op).finish ((system env).client j) u).2 ↔
        ref.Held r u ∧ (StartsOver r s n → removedAt next r s ref = none) := by
  obtain ⟨hearly, hlate⟩ := first_call hop hcut
  by_cases hover : StartsOver r s n
  · -- nothing has happened to the ride, so the second call is a first one
    have hsame : SameRefs s t := hearly hover
    have hride : u.ride = s.ride := hwait.ride.trans hsame.ride
    have hnotified : u.rideNotifiedDrivers = s.rideNotifiedDrivers := hwait.notified.trans hsame.notified
    obtain ⟨m, hdone, hsix, hall⟩ := (@walk_ends env j r u next op (hop.same hride) hfree).finish
    refine ⟨hdone.status hsix, fun ref => ?_⟩
    have hremoved : removedAt next r u ref = removedAt next r s ref := by
      unfold removedAt
      rw [hride, hnotified]
    rw [hdone.held ref, hremoved]
    refine and_congr_right fun _ => ⟨fun h _ => ?_, fun h k hk => ?_⟩
    · by_contra hne
      obtain ⟨k, hk⟩ := Option.ne_none_iff_exists'.mp hne
      have hle := hall ref k (by rw [hremoved]; exact hk)
      have := h k hk
      omega
    · rw [h hover] at hk
      cases hk
  · -- the ride is over, and the second call returns early
    obtain ⟨hsix, hfirst⟩ := hlate hover
    have hst : (u.ride r).status = some next := by
      rw [hwait.ride]
      exact hfirst.status hsix
    obtain ⟨m, hsame⟩ := (@still_ends env j r s next op hop u (.inl hst)).finish
    refine ⟨by rw [hsame.ride]; exact hst, fun ref => ?_⟩
    rw [hsame.held]
    exact (and_iff_left fun h => absurd h hover).symm

/-- Stopped after `n` commands in `m`, the operation can be called again with success exactly
if all references are removed by what it does in both calls. -/
theorem retry_settles (hop : Ends r p.store next op)
    (hcut : (system env).Run (fun _ _ => True) p (.call op :: run p.threads.length n) m) :
    RetrySettles env m op r ↔ AllRemoved next r p.store n := by
  have hstore := hcut.called.1
  obtain ⟨hearly, hlate⟩ := first_call hop hstore
  have hretry : ∀ m' k q, Waited m.store m'.store → m'.store.locks (.ride r) = none →
      (system env).Run (fun _ _ => True) m' (.call op :: run m'.threads.length k) q →
      Running q m'.threads.length = false → (q.store.ride r).status = some next ∧
        ∀ ref : Ref, ref.Held r q.store ↔
          ref.Held r m'.store ∧ (StartsOver r p.store n → removedAt next r p.store ref = none) := by
    intro m' k q hwait hfree hrun hdone
    obtain ⟨hend, hthread⟩ := hrun.called
    rw [running_eq_false hthread] at hdone
    rw [hend, Prog.advance_of_ended hdone]
    exact retried hop hstore hwait hfree _
  constructor
  · intro hsettles ref hheld
    obtain ⟨events, m', hwait, hfree, hsame⟩ := @exists_unlocked env m r
    obtain ⟨k, q, rest, hrun, hthread, hend⟩ :=
      @System.exists_called _ _ _ _ _ (system env) (fun _ _ => True) m' op fun _ _ => trivial
    have hdone : Running q m'.threads.length = false := (running_eq_false hthread).mpr hend
    obtain ⟨-, hrefs⟩ := hretry m' k q (run_waited hwait) hfree hrun hdone
    have hgone : ¬ ref.Held r q.store :=
      (hsettles m events m' k q (.inl rfl) hwait hfree hrun hdone).refs ref
    by_contra hno
    push Not at hno
    -- a reference that neither call removes is still held after the second one
    refine hgone ((hrefs ref).mpr ⟨hsame.held.mpr ?_, fun hover => ?_⟩)
    · by_cases hover : StartsOver r p.store n
      · exact (hearly hover).held.mpr hheld
      · exact ((hlate hover).2.held ref).mpr ⟨hheld, fun k hk => (hno k hk).1⟩
    · by_contra hne
      obtain ⟨k, hk⟩ := Option.ne_none_iff_exists'.mp hne
      exact (hno k hk).2 hover
  · intro hall p' events m' k q hstart hevents hfree hrun hdone
    have hwait : Waited m.store m'.store := by
      rcases hstart with rfl | rfl
      · exact run_waited hevents
      · exact thrown_waited.trans (run_waited hevents)
    obtain ⟨hst, hrefs⟩ := hretry m' k q hwait hfree hrun hdone
    refine ⟨?_, fun ref hheld => ?_⟩
    · cases hop with
      | complete => exact .inl hst
      | cancel => exact .inr hst
    · obtain ⟨hm', hnone⟩ := (hrefs ref).mp hheld
      have hm : ref.Held r m.store := hwait.held hm'
      by_cases hover : StartsOver r p.store n
      · obtain ⟨k, hk, -⟩ := hall ref ((hearly hover).held.mp hm)
        rw [hnone hover] at hk
        cases hk
      · obtain ⟨hs, hlt⟩ := ((hlate hover).2.held ref).mp hm
        obtain ⟨k, hk, hle⟩ := hall ref hs
        have := hlt k hk
        rcases hle with hle | hle
        · omega
        · exact hover hle

/-- Driver 1 is under way with ride ⟨1, 2⟩. -/
def ongoingTrip : List Step :=
  accepted ++ .call (.markDriverArriving ⟨1, 2⟩ 1) :: run 4 18 ++ .call (.startRide ⟨1, 2⟩ 1) :: run 5 18

/-- Stopped after it has released the driver, the completion of the trip can be called again. -/
theorem retry_settles_after_release : ∃ as p m, (system townEnv).Run (fun p a => oneByOne p a) initial as p ∧
    (⟨1, 2⟩ ∈ p.store.activeRides ∧ p.store.customerActiveRide 7 = some ⟨1, 2⟩ ∧ p.store.driverActiveRide 1 = some ⟨1, 2⟩) ∧
    (system townEnv).Run (fun _ _ => True) p (.call (.completeRide ⟨1, 2⟩ 1) :: run p.threads.length 17) m ∧
    RetrySettles townEnv m (.completeRide ⟨1, 2⟩ 1) ⟨1, 2⟩ := by
  let all : State → Step → Bool := fun _ _ => true
  have hsteps : ((system townEnv).steps oneByOne ongoingTrip initial).any (fun p =>
      decide (p.idle = true ∧ p.threads.length = 6 ∧ (p.store.ride ⟨1, 2⟩).status = some .ongoing ∧
        (p.store.ride ⟨1, 2⟩).driverId = some 1 ∧ releaseAt .completed (p.store.ride ⟨1, 2⟩) = 17 ∧
        ⟨1, 2⟩ ∈ p.store.activeRides ∧ p.store.customerActiveRide 7 = some ⟨1, 2⟩ ∧
        p.store.driverActiveRide 1 = some ⟨1, 2⟩) &&
      ((system townEnv).steps all (.call (.completeRide ⟨1, 2⟩ 1) :: run 6 17) p).any fun _ => true) = true := by
    decide +kernel
  obtain ⟨p, hrun, hp⟩ := turns_run _ _ hsteps
  obtain ⟨hp, hp'⟩ := Bool.and_eq_true_iff.mp hp
  obtain ⟨hidle, hlen, hst, hd, hrelease, hrefs⟩ := of_decide_eq_true hp
  obtain ⟨m, hcut, -⟩ := System.exists_run (fun _ _ _ => trivial) hp'
  replace hcut : (system townEnv).Run (fun _ _ => True) p
      (.call (.completeRide ⟨1, 2⟩ 1) :: run p.threads.length 17) m := by
    rw [hlen]
    exact hcut
  refine ⟨ongoingTrip, p, m, hrun, hrefs, hcut, (retry_settles (.complete 1 hst hd) hcut).mpr fun ref hheld => ?_⟩
  -- between complete operations only offers reserve drivers, and only the driver of the ride points to it
  obtain ⟨L, hsettled⟩ := settled_run hrun hidle
  have htrace : NoTrace p.store := hsettled.noTrace
  have hagrees : ∀ d, DriverAgrees p.store d := by
    intro d
    have hpools := hsettled.pools
    rw [← hsettled.ledger] at hpools
    exact hpools.agrees
  have hdriver : ∀ d, p.store.driverActiveRide d = some ⟨1, 2⟩ → removedAt .completed ⟨1, 2⟩ p.store (.pointer d) = some 17 := by
    intro d hpointer
    rw [removedAt, if_pos ((hagrees d).assigned _ |>.mp hpointer).1, hrelease]
  cases ref with
  | active => exact ⟨13, rfl, .inl (by decide)⟩
  | customer => exact ⟨13, rfl, .inl (by decide)⟩
  | pending d =>
    have hdispatching := (htrace.pending d _ hheld).1
    rw [hst] at hdispatching
    cases hdispatching
  | reservation d b =>
    have hdispatching := (htrace.reserved d _ b hheld).1
    rw [hst] at hdispatching
    cases hdispatching
  | pointer d => exact ⟨17, hdriver d hheld, .inl le_rfl⟩
  | hash d => exact ⟨17, hdriver d ((hagrees d).hash.symm.trans hheld), .inl le_rfl⟩

end retry

/-- The ride is under way, completed up to the HSET, and called again when the lease of its
lock is over: it stays on the list of active rides for good. -/
theorem completion_lost :
    ¬ ∀ as p op r n m next, (system townEnv).Run (fun p a => lasting p a = true) initial as p →
      Ends r p.store next op →
      (system townEnv).Run (fun _ _ => True) p (.call op :: run p.threads.length n) m →
      RetrySettles townEnv m op r := by
  intro h
  let all : State → Step → Bool := fun _ _ => true
  let complete : Op := .completeRide ⟨1, 2⟩ 1
  let wait : List Event := [.tick 5000, .expireLease (.ride ⟨1, 2⟩)]
  have hsteps : ((system townEnv).steps lasting ongoingTrip initial).any (fun p =>
      decide (p.threads.length = 6 ∧ (p.store.ride ⟨1, 2⟩).status = some .ongoing ∧
        (p.store.ride ⟨1, 2⟩).driverId = some 1) &&
      ((system townEnv).steps all (.call complete :: run 6 6) p).any fun m =>
      ((system townEnv).steps all (wait.map .env) m).any fun m' =>
        decide (m'.threads.length = 7 ∧ (m'.store.locks (.ride ⟨1, 2⟩)).isNone) &&
      ((system townEnv).steps all (.call complete :: run 7 6) m').any fun q =>
        decide (Running q 7 = false ∧ ⟨1, 2⟩ ∈ q.store.activeRides)) = true := by decide +kernel
  obtain ⟨p, hrun, hp⟩ := System.exists_run (fun p a hok => hok) hsteps
  obtain ⟨hp, hp'⟩ := Bool.and_eq_true_iff.mp hp
  obtain ⟨hlen, hst, hd⟩ := of_decide_eq_true hp
  obtain ⟨m, hcut, hm⟩ := System.exists_run (fun _ _ _ => trivial) hp'
  obtain ⟨m', hwait, hm'⟩ := System.exists_run (fun _ _ _ => trivial) hm
  obtain ⟨hm', hretry⟩ := Bool.and_eq_true_iff.mp hm'
  obtain ⟨hlen', hfree⟩ := of_decide_eq_true hm'
  obtain ⟨q, hrun', hq⟩ := System.exists_run (fun _ _ _ => trivial) hretry
  obtain ⟨hdone, hactive⟩ := of_decide_eq_true hq
  replace hcut : (system townEnv).Run (fun _ _ => True) p
      (.call complete :: run p.threads.length 6) m := by
    rw [hlen]
    exact hcut
  rw [← hlen'] at hrun' hdone
  have hsettles : RetrySettles townEnv m complete ⟨1, 2⟩ :=
    h ongoingTrip p complete ⟨1, 2⟩ 6 m .completed hrun (.complete 1 hst hd) hcut
  have hsettled : Settled ⟨1, 2⟩ q.store :=
    hsettles m wait m' 6 q (.inl rfl) hwait (Option.isNone_iff_eq_none.mp hfree) hrun' hdone
  exact hsettled.refs .active hactive

end YatriGo
