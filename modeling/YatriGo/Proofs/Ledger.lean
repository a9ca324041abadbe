import YatriGo.Proofs.DriverPools
import YatriGo.Proofs.RideRefs

/-! What the rides say about drivers and customers, and what it means that the keys of
drivers, reservations and lists agree with a ledger of rides. An operation changes the
ledger and the keys in several steps, so each group of keys has a ledger of its own. -/

namespace YatriGo
open Concurrent

structure Ledger where
  ride : RideId → RideHash
  notified : RideId → List DriverId
  responses : RideId → DriverId → Option Response

def Store.ledger (s : Store) : Ledger := ⟨s.ride, s.rideNotifiedDrivers, s.rideResponses⟩

namespace Ledger

/-- The ride exists and is not over. -/
def Underway (L : Ledger) (r : RideId) : Prop :=
  (L.ride r).status.any (fun status => !status.terminal) = true

/-- Driver `d` is on the ride. -/
def Assigned (L : Ledger) (r : RideId) (d : DriverId) : Prop :=
  (L.ride r).driverId = some d ∧ (L.ride r).status.any RideStatus.live = true

/-- `d` is in the current batch `b` of the ride. -/
structure Offers (L : Ledger) (r : RideId) (b : BatchId) (d : DriverId) : Prop where
  status : (L.ride r).status = some .dispatching
  batch : (L.ride r).currentBatchId = some b
  mem : d ∈ (L.ride r).currentBatchDrivers

/-- The response of `d` to the current batch `b` is still pending. -/
structure Open (L : Ledger) (r : RideId) (b : BatchId) (d : DriverId) : Prop where
  status : (L.ride r).status = some .dispatching
  batch : (L.ride r).currentBatchId = some b
  response : L.responses r d = some (.pending b)

/-- No batch of the ride is open. -/
def Closed (L : Ledger) (r : RideId) : Prop :=
  (L.ride r).status ≠ some .dispatching ∨ (L.ride r).currentBatchId = none

/-- The ride waits for the answer of `d` to the current batch. -/
structure Awaits (L : Ledger) (r : RideId) (d : DriverId) : Prop where
  offer : ∃ b, L.Offers r b d ∧ L.responses r d = some (.pending b)
  notified : d ∈ L.notified r

/-- The two ledgers say the same of all rides but `r`. -/
structure EqOff (r : RideId) (L L' : Ledger) : Prop where
  ride : ∀ r', r' ≠ r → L'.ride r' = L.ride r'
  notified : ∀ r', r' ≠ r → L'.notified r' = L.notified r'
  responses : ∀ r', r' ≠ r → L'.responses r' = L.responses r'

/-- What holds of all rides between any two commands. -/
structure Sane (L : Ledger) (nextSeq : ℕ) : Prop where
  fresh : ∀ r, (L.ride r).status ≠ none → r.seq < nextSeq
  requested : ∀ r, (L.ride r).status = some .requested →
    (L.ride r).driverId = none ∧ (L.ride r).currentBatchId = none
  dispatching : ∀ r, (L.ride r).status = some .dispatching → (L.ride r).driverId = none

section lemmas

variable {L L' : Ledger} {r r' : RideId} {d : DriverId} {b : BatchId} {n : ℕ}

theorem EqOff.refl : EqOff r L L := ⟨fun _ _ => rfl, fun _ _ => rfl, fun _ _ => rfl⟩

theorem EqOff.trans {L'' : Ledger} (h₁ : EqOff r L L') (h₂ : EqOff r L' L'') : EqOff r L L'' where
  ride := fun r' hr => (h₂.ride r' hr).trans (h₁.ride r' hr)
  notified := fun r' hr => (h₂.notified r' hr).trans (h₁.notified r' hr)
  responses := fun r' hr => (h₂.responses r' hr).trans (h₁.responses r' hr)

theorem EqOff.underway (h : EqOff r L L') (hr : r' ≠ r) : L'.Underway r' ↔ L.Underway r' := by
  unfold Underway
  rw [h.ride r' hr]

theorem EqOff.assigned (h : EqOff r L L') (hr : r' ≠ r) : L'.Assigned r' d ↔ L.Assigned r' d := by
  unfold Assigned
  rw [h.ride r' hr]

theorem EqOff.offers (h : EqOff r L L') (hr : r' ≠ r) (ho : L.Offers r' b d) : L'.Offers r' b d where
  status := by rw [h.ride r' hr, ho.status]
  batch := by rw [h.ride r' hr, ho.batch]
  mem := by rw [h.ride r' hr]; exact ho.mem

theorem EqOff.awaits (h : EqOff r L L') (hr : r' ≠ r) (ha : L.Awaits r' d) : L'.Awaits r' d := by
  obtain ⟨⟨b, ho, hresp⟩, hn⟩ := ha
  exact ⟨⟨b, h.offers hr ho, by rw [h.responses r' hr, hresp]⟩, by rw [h.notified r' hr]; exact hn⟩

theorem Offers.underway (h : L.Offers r b d) : L.Underway r := by
  unfold Underway
  rw [h.status]
  rfl

theorem Open.not_closed (h : L.Open r b d) : ¬ L.Closed r := by
  rintro (hc | hc)
  · exact hc h.status
  · have hbatch := h.batch
    rw [hc] at hbatch
    cases hbatch

theorem Offers.not_closed (h : L.Offers r b d) : ¬ L.Closed r := by
  rintro (hc | hc)
  · exact hc h.status
  · have hbatch := h.batch
    rw [hc] at hbatch
    cases hbatch

theorem EqOff.opened (h : EqOff r L L') (hr : r' ≠ r) (ho : L'.Open r' b d) : L.Open r' b d where
  status := by rw [← h.ride r' hr]; exact ho.status
  batch := by rw [← h.ride r' hr]; exact ho.batch
  response := by rw [← h.responses r' hr]; exact ho.response

theorem Underway.ne_none (h : L.Underway r) : (L.ride r).status ≠ none := by
  intro hs
  rw [Underway, hs] at h
  cases h

theorem Assigned.ne_none (h : L.Assigned r d) : (L.ride r).status ≠ none := by
  intro hs
  rw [Assigned, hs] at h
  cases h.2

theorem Sane.mono (h : L.Sane n) {m : ℕ} (hm : n ≤ m) : L.Sane m :=
  { h with fresh := fun r hr => (h.fresh r hr).trans_le hm }

/-- The rest of the ledger stays sane when one ride changes. -/
theorem Sane.update (h : L.Sane n) (hoff : EqOff r L L')
    (fresh : (L'.ride r).status ≠ none → r.seq < n)
    (requested : (L'.ride r).status = some .requested →
      (L'.ride r).driverId = none ∧ (L'.ride r).currentBatchId = none)
    (dispatching : (L'.ride r).status = some .dispatching → (L'.ride r).driverId = none) :
    L'.Sane n where
  fresh := fun r' hr => by
    rcases eq_or_ne r' r with rfl | hne
    · exact fresh hr
    · rw [hoff.ride r' hne] at hr
      exact h.fresh r' hr
  requested := fun r' hr => by
    rcases eq_or_ne r' r with rfl | hne
    · exact requested hr
    · rw [hoff.ride r' hne] at hr ⊢
      exact h.requested r' hr
  dispatching := fun r' hr => by
    rcases eq_or_ne r' r with rfl | hne
    · exact dispatching hr
    · rw [hoff.ride r' hne] at hr ⊢
      exact h.dispatching r' hr

end lemmas

end Ledger

/-- The keys of the drivers agree with the ledger. -/
structure Pools (L : Ledger) (s : Store) : Prop where
  fit : ∀ d, Fit (fun r => L.Assigned r d) (s.keys d)
  nodup : (s.availableDriversGeo.map Prod.fst).Nodup

/-- The reservations of drivers that rides have made are among those in `O`. -/
def Reserved (O : RideId → BatchId → DriverId → Prop) (s : Store) : Prop :=
  ∀ d r b, (s.locks (.reservation d)).map Lease.token = some (.reservation r b) → O r b d

/-- The lists that name rides. -/
structure Listed (L : Ledger) (s : Store) : Prop where
  active : ∀ r, r ∈ s.activeRides ↔ L.Underway r
  customer : ∀ c r, s.customerActiveRide c = some r → L.Underway r ∧ (L.ride r).customerId = c
  pending : ∀ d r, r ∈ s.driverPendingDispatches d → L.Awaits r d

/-- The offer of the current batch to `d` is open, and its time is not over. -/
structure LiveOffer (s : Store) (r : RideId) (b : BatchId) (d : DriverId) : Prop
    extends s.ledger.Open r b d where
  time : s.clock < (s.ride r).currentBatchExpiresAt.getD 0

/-- The reservation of `d` is the one batch `b` made, and lasts up to `e`. -/
def Secured (s : Store) (r : RideId) (b : BatchId) (d : DriverId) (e : Time) : Prop :=
  ∃ lease, s.locks (.reservation d) = some lease ∧ lease.token = .reservation r b ∧ e ≤ lease.expiresAt

/-- All live offers are secured by a reservation, except the offers in `X`, which are
being withdrawn. -/
structure Offered (X : DriverId → RideId → Prop) (s : Store) : Prop where
  secured : ∀ r b d, LiveOffer s r b d → ¬ X d r →
    Secured s r b d ((s.ride r).currentBatchExpiresAt.getD 0)
  pending : ∀ r b d, LiveOffer s r b d → r ∈ s.driverPendingDispatches d
  drawn : ∀ r b d, s.rideResponses r d = some (.pending b) → b.seq < s.nextSeq
  known : ∀ d r, X d r → (s.ride r).status ≠ none

/-- Where an operation stands: the rides are as in `L`, the drivers agree with `L₁`, the
reservations with `O` and the lists with `L₃`. Only with `strict` are live offers followed. -/
structure Stand (strict : Prop) (X : DriverId → RideId → Prop) (L L₁ : Ledger)
    (O : RideId → BatchId → DriverId → Prop) (L₃ : Ledger) (s : Store) : Prop where
  ledger : s.ledger = L
  sane : L.Sane s.nextSeq
  pools : Pools L₁ s
  reserved : Reserved O s
  listed : Listed L₃ s
  offered : strict → Offered X s

variable {strict : Prop} {X : DriverId → RideId → Prop} {L L' L₁ L₃ : Ledger} {s t : Store}
  {O : RideId → BatchId → DriverId → Prop}
  {r r' : RideId} {b : BatchId} {d : DriverId}

/-- Nothing changes that the invariants depend on, but time passes. -/
structure Still (s t : Store) : Prop extends SameRefs s t where
  clock : s.clock ≤ t.clock

theorem Still.refl : Still s s := ⟨SameRefs.refl, le_rfl⟩

theorem Still.ledger (h : Still s t) : t.ledger = s.ledger := by
  unfold Store.ledger
  rw [h.ride, h.notified, h.responses]

theorem Still.keys (h : Still s t) : t.keys d = s.keys d := by
  simp only [Store.keys, h.driverHash, h.driverActive, h.driverSet, h.geo]

theorem Pools.still (h : Pools L s) (hst : Still s t) : Pools L t where
  fit := fun d => by rw [hst.keys]; exact h.fit d
  nodup := by rw [hst.geo]; exact h.nodup

theorem Reserved.still (h : Reserved O s) (hst : Still s t) : Reserved O t := fun d r b hl => by
  rw [hst.reservations] at hl
  exact h d r b hl

theorem Listed.still (h : Listed L s) (hst : Still s t) : Listed L t where
  active := fun r => by rw [hst.active]; exact h.active r
  customer := fun c r hc => by rw [hst.customer] at hc; exact h.customer c r hc
  pending := fun d r hp => by rw [hst.pending] at hp; exact h.pending d r hp

theorem LiveOffer.earlier (h : LiveOffer t r b d) (hst : Still s t) : LiveOffer s r b d where
  toOpen := by rw [← hst.ledger]; exact h.toOpen
  time := by rw [← hst.ride]; exact hst.clock.trans_lt h.time

theorem Offered.still (h : Offered X s) (hst : Still s t) : Offered X t where
  secured := fun r b d hl hx => by
    obtain ⟨lease, hlease, htoken, he⟩ := h.secured r b d (hl.earlier hst) hx
    exact ⟨lease, by rw [hst.reservations, hlease], htoken, by rw [hst.ride]; exact he⟩
  pending := fun r b d hl => by rw [hst.pending]; exact h.pending r b d (hl.earlier hst)
  drawn := fun r b d hr => by rw [hst.responses] at hr; exact (h.drawn r b d hr).trans_le hst.seq
  known := fun d r hx => by rw [hst.ride]; exact h.known d r hx

theorem Stand.still (h : Stand strict X L L₁ O L₃ s) (hst : Still s t) :
    Stand strict X L L₁ O L₃ t where
  ledger := by rw [hst.ledger, h.ledger]
  sane := h.sane.mono hst.seq
  pools := h.pools.still hst
  reserved := h.reserved.still hst
  listed := h.listed.still hst
  offered := fun hx => (h.offered hx).still hst

theorem Stand.ride (h : Stand strict X L L₁ O L₃ s) : s.ride = L.ride := congrArg Ledger.ride h.ledger

theorem Stand.notified (h : Stand strict X L L₁ O L₃ s) : s.rideNotifiedDrivers = L.notified :=
  congrArg Ledger.notified h.ledger

theorem Stand.responses (h : Stand strict X L L₁ O L₃ s) : s.rideResponses = L.responses :=
  congrArg Ledger.responses h.ledger

end YatriGo
