import YatriGo.Queues.JobIds

/-! Two jobs have the same id when each part of it is the same after sanitising, and never else. The parts that
name rides, versions and reasons are sanitised already. -/

namespace YatriGo
open Text Js

/-- What every sanitised part is. -/
structure ProperPart (text : Units) : Prop where
  nonempty : text ≠ []
  legal : ∀ u ∈ text, letterOrDigit u = true ∨ u = dash ∨ u = underscore
  dashes : ¬ [dash, dash] <:+: text
  underscores : ¬ [underscore, underscore] <:+: text
  head : ∀ u ∈ text.head?, u ≠ dash ∧ u ≠ underscore
  last : ∀ u ∈ text.getLast?, u ≠ dash ∧ u ≠ underscore

variable {u c : CodeUnit} {value text a b : Units}

theorem isMark_eq_false : isMark u = false ↔ u ≠ dash ∧ u ≠ underscore := by
  simp only [isMark, Bool.or_eq_false_iff, decide_eq_false_iff_not, ne_eq]

theorem illegal_eq_false : illegal u = false ↔ letterOrDigit u = true ∨ u = dash ∨ u = underscore := by
  simp only [illegal, isMark, Bool.not_eq_false', Bool.or_eq_true, decide_eq_true_eq]

theorem proper_of_all {first last : CodeUnit} (hall : (text.all fun u => !illegal u) = true) (hhead : text.head? = some first)
    (hlast : text.getLast? = some last) (hends : isMark first = false ∧ isMark last = false)
    (hdashes : ¬ [dash, dash] <:+: text) (hunderscores : ¬ [underscore, underscore] <:+: text) : ProperPart text := by
  refine ⟨fun hnil => ?_, fun u hu => ?_, hdashes, hunderscores, fun u hu => ?_, fun u hu => ?_⟩
  · rw [hnil] at hhead
    cases hhead
  · have hlegal := List.all_eq_true.mp hall u hu
    rw [Bool.not_eq_true'] at hlegal
    exact illegal_eq_false.mp hlegal
  · rw [hhead] at hu
    cases hu
    exact isMark_eq_false.mp hends.1
  · rw [hlast] at hu
    cases hu
    exact isMark_eq_false.mp hends.2

theorem colonOrSpace_of_legal (h : letterOrDigit u = true ∨ u = dash ∨ u = underscore) : colonOrSpace u = false := by
  rcases h with hplain | rfl | rfl
  · simp only [letterOrDigit, isUpper, Bool.or_eq_true, Bool.and_eq_true, decide_eq_true_eq] at hplain
    simp only [colonOrSpace, List.mem_cons, List.not_mem_nil, or_false, Bool.or_eq_false_iff, Bool.and_eq_false_iff,
      decide_eq_false_iff_not]
    omega
  · decide
  · decide

theorem letterOrDigit_ne (h : letterOrDigit u = true) : u ≠ dash ∧ u ≠ underscore := by
  constructor
  · rintro rfl
    revert h
    decide
  · rintro rfl
    revert h
    decide

theorem proper_sanitizeJobIdPart : ProperPart (sanitizeJobIdPart value) := by
  unfold sanitizeJobIdPart
  dsimp only
  split_ifs with hempty
  · exact proper_of_all (by decide) rfl rfl (by decide) (by decide) (by decide)
  · have hsub := @trim_isInfix _ isMark
      (collapse underscore (collapse dash (replaceAll illegal dash (replaceAll colonOrSpace underscore value))))
    refine ⟨hempty, fun u hu => ?_, ?_, ?_, fun u hu => ?_, fun u hu => ?_⟩
    · have hreplaced := mem_collapse (mem_collapse (hsub.subset hu))
      rcases mem_replaceAll hreplaced with rfl | ⟨-, hlegal⟩
      · exact .inr (.inl rfl)
      · exact illegal_eq_false.mp hlegal
    · -- no two dashes stand together once the underscores between them are one
      exact single_iff.mp ((Single.collapse single_collapse).of_isInfix hsub)
    · exact single_iff.mp (single_collapse.of_isInfix hsub)
    · exact isMark_eq_false.mp (trim_head hu)
    · exact isMark_eq_false.mp (trim_last hu)

theorem ProperPart.sanitize_eq (h : ProperPart text) : sanitizeJobIdPart text = text := by
  have hcolons : replaceAll colonOrSpace underscore text = text :=
    replaceAll_eq_self fun u hu => colonOrSpace_of_legal (h.legal u hu)
  have hillegal : replaceAll illegal dash text = text :=
    replaceAll_eq_self fun u hu => illegal_eq_false.mpr (h.legal u hu)
  have htrim : trim isMark text = text :=
    trim_eq_self (fun u hu => isMark_eq_false.mpr (h.head u hu)) fun u hu => isMark_eq_false.mpr (h.last u hu)
  unfold sanitizeJobIdPart
  rw [hcolons, hillegal, collapse_eq_self (single_iff.mpr h.dashes), collapse_eq_self (single_iff.mpr h.underscores), htrim]
  exact if_neg h.nonempty

theorem ProperPart.part (h : ProperPart text) : Part underscore text where
  nonempty := h.nonempty
  single := single_iff.mpr h.underscores
  head := fun hhead => (h.head underscore hhead).2 rfl
  last := fun hlast => (h.last underscore hlast).2 rfl

theorem buildJobId_inj {parts parts' : List Units} :
    buildJobId parts = buildJobId parts' ↔ List.Forall₂ (fun a b => sanitizeJobIdPart a = sanitizeJobIdPart b) parts parts' := by
  have hparts : ∀ parts : List Units, ∀ t ∈ parts.map sanitizeJobIdPart, Part underscore t := by
    intro parts t ht
    obtain ⟨value, -, rfl⟩ := List.mem_map.mp ht
    exact proper_sanitizeJobIdPart.part
  have hmap : List.Forall₂ (fun a b => sanitizeJobIdPart a = sanitizeJobIdPart b) parts parts' ↔
      parts.map sanitizeJobIdPart = parts'.map sanitizeJobIdPart := by
    have heq : List.Forall₂ (· = ·) (parts.map sanitizeJobIdPart) (parts'.map sanitizeJobIdPart) ↔
        parts.map sanitizeJobIdPart = parts'.map sanitizeJobIdPart := by rw [List.forall₂_eq_eq_eq]
    rw [← heq, List.forall₂_map_left_iff, List.forall₂_map_right_iff]
  rw [hmap]
  constructor
  · exact intercalate_inj (hparts parts) (hparts parts')
  · intro h
    unfold buildJobId
    rw [h]

/-- Two proper parts with a mark between them. -/
theorem ProperPart.append (ha : ProperPart a) (hb : ProperPart b) (hc : c = dash ∨ c = underscore) :
    ProperPart (a ++ c :: b) where
  nonempty := List.append_ne_nil_of_left_ne_nil ha.nonempty _
  legal := fun u hu => by
    rcases List.mem_append.mp hu with hu | hu
    · exact ha.legal u hu
    · rcases List.mem_cons.mp hu with rfl | hu
      · exact .inr hc
      · exact hb.legal u hu
  dashes := single_iff.mp ((single_iff.mpr ha.dashes).append_cons (single_iff.mpr hb.dashes)
    (fun u hu => (ha.last u hu).1) fun u hu => (hb.head u hu).1)
  underscores := single_iff.mp ((single_iff.mpr ha.underscores).append_cons (single_iff.mpr hb.underscores)
    (fun u hu => (ha.last u hu).2) fun u hu => (hb.head u hu).2)
  head := fun u hu => by
    rw [List.head?_append_of_ne_nil _ ha.nonempty] at hu
    exact ha.head u hu
  last := fun u hu => by
    rw [List.getLast?_append_of_ne_nil _ (List.cons_ne_nil c b), List.getLast?_cons_of_ne_nil hb.nonempty] at hu
    exact hb.last u hu

theorem proper_of_letters (hne : text ≠ []) (h : ∀ u ∈ text, letterOrDigit u = true) : ProperPart text where
  nonempty := hne
  legal := fun u hu => .inl (h u hu)
  dashes := fun hsub => (letterOrDigit_ne (h dash (hsub.subset List.mem_cons_self))).1 rfl
  underscores := fun hsub => (letterOrDigit_ne (h underscore (hsub.subset List.mem_cons_self))).2 rfl
  head := fun u hu => letterOrDigit_ne (h u (List.mem_of_mem_head? hu))
  last := fun u hu => letterOrDigit_ne (h u (List.mem_of_mem_getLast? hu))

theorem proper_intercalate {parts : List Units} (hc : c = dash ∨ c = underscore) (hne : parts ≠ [])
    (h : ∀ a ∈ parts, a ≠ [] ∧ ∀ u ∈ a, letterOrDigit u = true) : ProperPart ([c].intercalate parts) := by
  induction parts with
  | nil => exact absurd rfl hne
  | cons a parts ih =>
    obtain ⟨hnonempty, hletters⟩ := h a List.mem_cons_self
    have ha : ProperPart a := proper_of_letters hnonempty hletters
    cases parts with
    | nil =>
      rw [List.intercalate_singleton]
      exact ha
    | cons b parts =>
      have hrest := ih (List.cons_ne_nil b parts) fun a' ha' => h a' (List.mem_cons_of_mem a ha')
      rw [List.intercalate_cons_cons, List.append_assoc]
      exact ha.append hrest hc

theorem letterOrDigit_of_isHexDigit (h : isHexDigit u = true) : letterOrDigit u = true := by
  simp only [isHexDigit, Bool.or_eq_true, Bool.and_eq_true, decide_eq_true_eq] at h
  simp only [letterOrDigit, isUpper, Bool.or_eq_true, Bool.and_eq_true, decide_eq_true_eq]
  omega

theorem letterOrDigit_of_isUpper (h : isUpper u = true) : letterOrDigit u = true := by
  unfold letterOrDigit
  rw [h, Bool.or_true, Bool.true_or]

theorem IsUuid.proper (h : IsUuid text) : ProperPart text := by
  obtain ⟨groups, hlengths, hdigits, rfl⟩ := h
  apply proper_intercalate (.inl rfl)
  · rintro rfl
    cases hlengths
  · intro a ha
    refine ⟨?_, fun u hu => letterOrDigit_of_isHexDigit (hdigits a ha u hu)⟩
    rintro rfl
    have hzero : 0 ∈ groups.map List.length := List.mem_map.mpr ⟨[], ha, rfl⟩
    rw [hlengths] at hzero
    revert hzero
    decide

theorem IsReason.proper (h : IsReason text) : ProperPart text := by
  obtain ⟨words, hne, hwords, rfl⟩ := h
  apply proper_intercalate (.inr rfl) hne
  intro a ha
  obtain ⟨hnonempty, hletters⟩ := hwords a ha
  exact ⟨hnonempty, fun u hu => letterOrDigit_of_isUpper (hletters u hu)⟩

theorem toNat_codeUnit {x : Char} (h : x.toNat < 65536) : (codeUnit x).toNat = x.toNat := by
  unfold codeUnit
  rw [Nat.toUInt16, UInt16.toNat_ofNat', Nat.mod_eq_of_lt h]

theorem isDigit_toNat {x : Char} (h : x.isDigit = true) : 48 ≤ x.toNat ∧ x.toNat ≤ 57 := by
  simp only [Char.isDigit, ge_iff_le, Bool.and_eq_true, decide_eq_true_eq, UInt32.le_iff_toNat_le] at h
  exact h

theorem proper_numberText {n : ℕ} : ProperPart (numberText n) := by
  apply proper_of_letters
  · exact fun hnil => Nat.toDigits_ne_nil (List.map_eq_nil_iff.mp hnil)
  · intro u hu
    obtain ⟨x, hx, rfl⟩ := List.mem_map.mp hu
    obtain ⟨hlow, hhigh⟩ := isDigit_toNat (Nat.isDigit_of_mem_toDigits (by decide) (by decide) hx)
    have hsame := @toNat_codeUnit x (by omega)
    simp only [letterOrDigit, isUpper, Bool.or_eq_true, Bool.and_eq_true, decide_eq_true_eq]
    omega

theorem numberText_inj {n n' : ℕ} (h : numberText n = numberText n') : n = n' := by
  have hback : ∀ n : ℕ, (numberText n).map (fun u => Char.ofNat u.toNat) = Nat.toDigits 10 n := by
    intro n
    unfold numberText
    rw [List.map_map]
    apply (List.map_congr_left ?_).trans (List.map_id _)
    intro x hx
    have hdigit := isDigit_toNat (Nat.isDigit_of_mem_toDigits (by decide) (by decide) hx)
    show Char.ofNat (codeUnit x).toNat = x
    rw [toNat_codeUnit (by omega), Char.ofNat_toNat]
  rw [← @Nat.ofDigitChars_ten_toDigits n, ← @Nat.ofDigitChars_ten_toDigits n', ← hback n, ← hback n', h]

theorem buildJobId_inj_of_proper {parts parts' : List Units} (h : ∀ t ∈ parts, ProperPart t)
    (h' : ∀ t ∈ parts', ProperPart t) : buildJobId parts = buildJobId parts' ↔ parts = parts' := by
  have hsame : ∀ parts : List Units, (∀ t ∈ parts, ProperPart t) → parts.map sanitizeJobIdPart = parts := by
    intro parts hparts
    exact (List.map_congr_left fun t ht => (hparts t ht).sanitize_eq).trans (List.map_id' parts)
  unfold buildJobId
  rw [hsame parts h, hsame parts' h']
  constructor
  · exact intercalate_inj (fun t ht => (h t ht).part) fun t ht => (h' t ht).part
  · exact congrArg _

theorem RideJob.proper_parts (job : RideJob) : ∀ t ∈ job.parts, ProperPart t := by
  cases job with
  | startDispatch rideId version reason =>
    have hkind : ProperPart (units "dispatch-start") :=
      proper_of_all (by decide) rfl rfl (by decide) (by decide) (by decide)
    simp only [RideJob.parts, List.forall_mem_cons]
    exact ⟨hkind, rideId.property.proper, proper_numberText, reason.property.proper, fun t ht => by cases ht⟩
  | batchTimeout rideId batchId =>
    have hkind : ProperPart (units "dispatch-timeout") :=
      proper_of_all (by decide) rfl rfl (by decide) (by decide) (by decide)
    simp only [RideJob.parts, List.forall_mem_cons]
    exact ⟨hkind, rideId.property.proper, batchId.property.proper, fun t ht => by cases ht⟩
  | persistRide rideId version =>
    have hkind : ProperPart (units "persist-ride") :=
      proper_of_all (by decide) rfl rfl (by decide) (by decide) (by decide)
    simp only [RideJob.parts, List.forall_mem_cons]
    exact ⟨hkind, rideId.property.proper, proper_numberText, fun t ht => by cases ht⟩

theorem RideJob.parts_inj {job job' : RideJob} (h : job.parts = job'.parts) : job = job' := by
  -- the first part names the kind
  cases job with
  | startDispatch rideId version reason =>
    cases job' with
    | startDispatch rideId' version' reason' =>
      simp only [RideJob.parts, List.cons.injEq, true_and, and_true] at h
      obtain ⟨hride, hversion, hreason⟩ := h
      rw [Subtype.ext hride, numberText_inj hversion, Subtype.ext hreason]
    | _ => exact absurd (List.cons.inj h).1 (by decide)
  | batchTimeout rideId batchId =>
    cases job' with
    | batchTimeout rideId' batchId' =>
      simp only [RideJob.parts, List.cons.injEq, true_and, and_true] at h
      obtain ⟨hride, hbatch⟩ := h
      rw [Subtype.ext hride, Subtype.ext hbatch]
    | _ => exact absurd (List.cons.inj h).1 (by decide)
  | persistRide rideId version =>
    cases job' with
    | persistRide rideId' version' =>
      simp only [RideJob.parts, List.cons.injEq, true_and, and_true] at h
      obtain ⟨hride, hversion⟩ := h
      rw [Subtype.ext hride, numberText_inj hversion]
    | _ => exact absurd (List.cons.inj h).1 (by decide)

theorem StartReason.text_inj {reason reason' : StartReason} (h : units reason.text = units reason'.text) : reason = reason' := by
  revert h
  cases reason <;> cases reason' <;> decide

theorem RideJob.jobId_inj {job job' : RideJob} : job.jobId = job'.jobId ↔ job = job' :=
  (buildJobId_inj_of_proper job.proper_parts job'.proper_parts).trans ⟨RideJob.parts_inj, congrArg _⟩

section store

/-- The ids that the job is known by are read back from their texts. -/
def JobId.ReadBack (names : Uuid → UuidText) (back : UuidText → Uuid) : JobId → Prop
  | .dispatchStart rideId _ _ => back (names rideId) = rideId
  | .dispatchTimeout rideId batchId => back (names rideId) = rideId ∧ back (names batchId) = batchId
  | .persistRide rideId _ => back (names rideId) = rideId
  | .persistDriver .. => True

variable {names : Uuid → UuidText} {back : UuidText → Uuid} {job job' : JobId} {ride ride' : RideJob}

theorem JobId.rideJob_inj (hback : job.ReadBack names back) (hback' : job'.ReadBack names back)
    (h : job.rideJob names = some ride) (h' : job'.rideJob names = some ride) : job = job' := by
  cases job with
  | dispatchStart rideId version reason =>
    obtain rfl := Option.some.inj h
    cases job' with
    | dispatchStart rideId' version' reason' =>
      obtain ⟨hride, hversion, hreason⟩ := RideJob.startDispatch.inj (Option.some.inj h')
      have hid : back (names rideId') = rideId := hride ▸ hback
      rw [← hid, ← hversion, ← StartReason.text_inj (congrArg Subtype.val hreason), hback']
    | _ => cases h'
  | dispatchTimeout rideId batchId =>
    obtain rfl := Option.some.inj h
    cases job' with
    | dispatchTimeout rideId' batchId' =>
      obtain ⟨hride, hbatch⟩ := RideJob.batchTimeout.inj (Option.some.inj h')
      have hid : back (names rideId') = rideId := hride ▸ hback.1
      have hid' : back (names batchId') = batchId := hbatch ▸ hback.2
      rw [← hid, ← hid', hback'.1, hback'.2]
    | _ => cases h'
  | persistRide rideId version =>
    obtain rfl := Option.some.inj h
    cases job' with
    | persistRide rideId' version' =>
      obtain ⟨hride, hversion⟩ := RideJob.persistRide.inj (Option.some.inj h')
      have hid : back (names rideId') = rideId := hride ▸ hback
      rw [← hid, ← hversion, hback']
    | _ => cases h'
  | persistDriver driverId reason dedupeSuffix => cases h

theorem JobId.jobId_agree (hback : job.ReadBack names back) (hback' : job'.ReadBack names back)
    (h : job.rideJob names = some ride) (h' : job'.rideJob names = some ride') : ride.jobId = ride'.jobId ↔ job = job' := by
  rw [RideJob.jobId_inj]
  constructor
  · rintro rfl
    exact JobId.rideJob_inj hback hback' h h'
  · rintro rfl
    exact Option.some.inj (h.symm.trans h')

end store

/-- Job ids are the same only where each part is sanitised to the same; what the sanitising leaves is proper; and the
jobs of a ride are told apart by their ids. -/
theorem job_ids_tell_apart :
    (∀ parts parts' : List Units, buildJobId parts = buildJobId parts' ↔
      List.Forall₂ (fun a b => sanitizeJobIdPart a = sanitizeJobIdPart b) parts parts') ∧
    (∀ value, sanitizeJobIdPart (sanitizeJobIdPart value) = sanitizeJobIdPart value ∧ ProperPart (sanitizeJobIdPart value)) ∧
    ∀ job job' : RideJob, job.jobId = job'.jobId ↔ job = job' := by
  refine ⟨fun parts parts' => buildJobId_inj, fun value => ?_, fun job job' => RideJob.jobId_inj⟩
  have hproper : ProperPart (sanitizeJobIdPart value) := proper_sanitizeJobIdPart
  exact ⟨hproper.sanitize_eq, hproper⟩

end YatriGo
