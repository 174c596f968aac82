import ContextLattice.Outbox.System

/-!
# Garbage collection on the two backends

Both backends delete old completed rows, and outstanding rows that have not moved for long. Mongo
reads the age of a row off `updated_at`, SQLite off `completed_at` or `last_attempt_at`.
-/

namespace ContextLattice

open Foundation

variable {π : Type*}

/-! ### The two collections -/

structure Retention where
  succeededHours : ℤ
  failedHours : ℤ
  staleHours : ℤ
  staleTargets : List FanoutTarget

namespace Retention

variable (ret : Retention) (clk : Clock)

def collects (r : OutboxRow π) : Bool :=
  !r.status.outstanding || decide (r.target ∈ ret.staleTargets)

def cutoff : JobStatus → Stamp
  | .succeeded => outboxGcCutoffIso clk ret.succeededHours
  | .failed => outboxGcCutoffIso clk ret.failedHours
  | .pending | .retrying | .running => outboxGcCutoffIso clk ret.staleHours

def sqliteDeletes (r : OutboxRow π) : Bool :=
  gcExpired clk ret.succeededHours ret.failedHours ret.staleHours ret.staleTargets r

def mongoDeletes (r : OutboxRow π) : Bool :=
  match r.status with
  | .succeeded => decide (r.updatedAt < outboxGcCutoffIso clk ret.succeededHours)
  | .failed => decide (r.updatedAt < outboxGcCutoffIso clk ret.failedHours)
  | .pending | .retrying | .running =>
    decide (r.target ∈ ret.staleTargets) &&
      decide (r.updatedAt < outboxGcCutoffIso clk ret.staleHours)

def ageColumn (r : OutboxRow π) : Stamp :=
  (if r.status.outstanding then r.lastAttemptAt else r.completedAt).getD r.updatedAt

variable {ret clk} {r : OutboxRow π}

theorem sqliteDeletes_iff :
    ret.sqliteDeletes clk r = true ↔
      ret.collects r = true ∧ ageColumn r < ret.cutoff clk r.status := by
  unfold sqliteDeletes gcExpired collects ageColumn cutoff
  cases r.status <;> simp [JobStatus.outstanding]

theorem mongoDeletes_iff :
    ret.mongoDeletes clk r = true ↔
      ret.collects r = true ∧ r.updatedAt < ret.cutoff clk r.status := by
  unfold mongoDeletes collects cutoff
  cases r.status <;> simp [JobStatus.outstanding]

/-- **Any table.** The same rows are deleted exactly if no cut-off lies between the columns of a row
that is looked at. -/
theorem sameRows_iff (ret : Retention) (clk : Clock) (ob : Outbox π) :
    (ob.deleteWhere (ret.sqliteDeletes clk)).rows = (ob.deleteWhere (ret.mongoDeletes clk)).rows ↔
      ∀ r ∈ ob.rows, ret.collects r = true →
        (ageColumn r < ret.cutoff clk r.status ↔ r.updatedAt < ret.cutoff clk r.status) := by
  constructor
  · intro h r hr hcollects
    have hmem := congrArg (r ∈ ·) h
    simp only [Outbox.mem_deleteWhere, hr, true_and, eq_iff_iff, ← Bool.not_eq_true,
      not_iff_not, sqliteDeletes_iff, mongoDeletes_iff, hcollects] at hmem
    exact hmem
  · intro h
    refine List.filter_congr fun r hr => ?_
    have heq : ret.sqliteDeletes clk r = ret.mongoDeletes clk r := by
      rw [Bool.eq_iff_iff, sqliteDeletes_iff, mongoDeletes_iff]
      exact and_congr_right (h r hr)
    rw [heq]

end Retention

/-! ### When a payload was written -/

structure DatedState (π : Type*) where
  sys : OutboxState π
  writtenAt : Dict ℕ Stamp := .empty

inductive DatedOp (π : Type*) where
  | step (op : OutboxOp π)
  | mongoGc (clk : Clock) (ret : Retention)

def DatedState.empty : DatedState π := { sys := .empty }

def OutboxOp.clock? : OutboxOp π → Option Clock
  | .enqueue clk .. | .claim clk .. | .markSuccess clk .. | .markRetry clk .. | .markFailed clk ..
  | .failLetta clk .. | .recover clk .. | .gc clk .. => some clk
  | .deliver .. | .prune .. | .restart .. => none

variable (cfg : OutboxConfig)

def payloadRow (clk : Clock) (force : Bool) (drawn : String) (event : FanoutEvent π)
    (target : FanoutTarget) (ob : Outbox π) : Option ℕ :=
  match coalesceCandidate cfg clk force event target ob with
  | some row => some row.id
  | none =>
    match ob.findKey? (dedupeKeyOf (effectiveEventId drawn event) target) with
    | some row => if force then some row.id else none
    | none => some ob.nextId

def datedStep (s : DatedState π) : DatedOp π → DatedState π
  | .step op =>
    { sys := outboxStep cfg s.sys op
      writtenAt := match op with
        | .enqueue clk force drawn event target =>
          match payloadRow cfg clk force drawn event target s.sys.outbox with
          | some i => s.writtenAt.set i clk.now
          | none => s.writtenAt
        | _ => s.writtenAt }
  | .mongoGc clk ret => { s with sys := s.sys.delete (ret.mongoDeletes clk) }

def ClockForward (s : DatedState π) : DatedOp π → Prop
  | .step op => ∀ clk ∈ op.clock?, ∀ r ∈ s.sys.outbox.rows, r.updatedAt ≤ clk.now
  | .mongoGc _ _ => True

instance (s : DatedState π) : ∀ op : DatedOp π, Decidable (ClockForward s op)
  | .step op =>
    inferInstanceAs (Decidable (∀ clk ∈ op.clock?, ∀ r ∈ s.sys.outbox.rows, r.updatedAt ≤ clk.now))
  | .mongoGc _ _ => isTrue trivial

structure RowDated (writtenAt : Dict ℕ Stamp) (r : OutboxRow π) : Prop where
  written : ∃ w, writtenAt.get? r.id = some w ∧ w ≤ r.updatedAt
  attempted : ∀ a, r.lastAttemptAt = some a → a ≤ r.updatedAt
  completed : r.status.outstanding = false → r.completedAt = some r.updatedAt

def Dated (s : DatedState π) : Prop := ∀ r ∈ s.sys.outbox.rows, RowDated s.writtenAt r

variable {cfg} {s : DatedState π} {writtenAt : Dict ℕ Stamp} {r r' : OutboxRow π}

variable {now : Stamp}

section

variable (h : RowDated writtenAt r)

include h

theorem RowDated.renew (hid : r'.id = r.id) (hnow : r.updatedAt ≤ now)
    (hupdated : r'.updatedAt = now)
    (hattempt : r'.lastAttemptAt = r.lastAttemptAt ∨ r'.lastAttemptAt = some now)
    (hcompleted : r'.status.outstanding = false → r'.completedAt = some now) :
    RowDated writtenAt r' where
  written := by
    obtain ⟨w, hw, hle⟩ := h.written
    exact ⟨w, hid ▸ hw, hupdated ▸ hle.trans hnow⟩
  attempted := by
    intro a ha
    rw [hupdated]
    rcases hattempt with heq | heq
    · exact (h.attempted a (heq ▸ ha)).trans hnow
    · rw [heq] at ha
      exact (Option.some.inj ha).ge
  completed := fun hout => hupdated ▸ hcompleted hout

theorem RowDated.set_of_ne {i : ℕ} (hne : r.id ≠ i) (w : Stamp) :
    RowDated (writtenAt.set i w) r where
  written := by
    rw [Dict.get?_set_of_ne hne]
    exact h.written
  attempted := h.attempted
  completed := h.completed

theorem RowDated.rewrite (hid : r'.id = r.id) (hnow : r.updatedAt ≤ now)
    (hupdated : r'.updatedAt = now) (hattempt : r'.lastAttemptAt = r.lastAttemptAt)
    (hstatus : r'.status.outstanding = true) :
    RowDated (writtenAt.set r.id now) r' where
  written := ⟨now, by rw [hid, Dict.get?_set], hupdated.ge⟩
  attempted := fun a ha => hupdated ▸ (h.attempted a (hattempt ▸ ha)).trans hnow
  completed := fun hout => by rw [hstatus] at hout; cases hout

theorem RowDated.change {op : OutboxOp π} (hchange : JobChange cfg s.sys op r r')
    (hnow : ∀ clk, op.clock? = some clk → r.updatedAt ≤ clk.now)
    (hop : ∀ clk force drawn event target, op ≠ .enqueue clk force drawn event target) :
    RowDated writtenAt r' := by
  cases hchange with
  | same => exact h
  | coalesced | requeued => exact (hop _ _ _ _ _ rfl).elim
  | claimed => exact h.renew rfl (hnow _ rfl) rfl (.inr rfl) fun hout => by cases hout
  | succeeded => exact h.renew rfl (hnow _ rfl) rfl (.inl rfl) fun _ => rfl
  | retried =>
    refine h.renew rfl (hnow _ rfl) rfl (.inl rfl) fun hout => ?_
    simp only [retryWrite] at hout ⊢
    split at hout
    · cases hout
    · rename_i hleft
      rw [if_neg hleft]
  | failed | lettaFailed => exact h.renew rfl (hnow _ rfl) rfl (.inl rfl) fun _ => rfl
  | recovered => exact h.renew rfl (hnow _ rfl) rfl (.inl rfl) fun hout => by cases hout

end

theorem Dated.update {ob : Outbox π} {row : OutboxRow π} {f : OutboxRow π → OutboxRow π} {hf}
    (hs : ∀ r ∈ ob.rows, RowDated writtenAt r) (hrow : row ∈ ob.rows) (hnow : row.updatedAt ≤ now)
    (hupdated : (f row).updatedAt = now) (hattempt : (f row).lastAttemptAt = row.lastAttemptAt)
    (hstatus : (f row).status.outstanding = true) :
    ∀ r ∈ (ob.update row.id f hf).rows, RowDated (writtenAt.set row.id now) r := by
  intro r' hr'
  obtain ⟨r, hr, rfl⟩ := Outbox.mem_updateWhere.mp hr'
  split
  · rename_i hid
    obtain rfl : r = row := Table.eq_of_mem_of_key hr hrow (by simpa using hid)
    exact (hs r hr).rewrite (congrArg RowIdent.id (hf r)) hnow hupdated hattempt hstatus
  · rename_i hid
    exact (hs r hr).set_of_ne (by simpa using hid) now

theorem Dated.enqueue (hs : Dated s) {clk : Clock} (force : Bool) (drawn : String)
    (event : FanoutEvent π) (target : FanoutTarget)
    (hnow : ∀ r ∈ s.sys.outbox.rows, r.updatedAt ≤ clk.now) :
    Dated (datedStep cfg s (.step (.enqueue clk force drawn event target))) := by
  intro r' hr'
  simp only [datedStep]
  have hplaced := placed_enqueueTarget cfg clk force drawn event target s.sys.outbox
  simp only [datedStep, outboxStep] at hr'
  generalize enqueueTarget cfg clk force drawn event target s.sys.outbox = ob' at hplaced hr'
  cases hplaced with
  | @coalesced row h =>
    obtain ⟨hrow, -, -, -, hwaiting, -⟩ := coalesceCandidate_eq_some h
    have hpayload : payloadRow cfg clk force drawn event target s.sys.outbox = some row.id := by
      simp [payloadRow, h]
    rw [hpayload]
    exact Dated.update hs hrow (hnow row hrow) rfl rfl
      (JobStatus.outstanding_of_waiting hwaiting) r' hr'
  | @requeued row hforce h =>
    have hrow := (Outbox.findKey?_eq_some h).1
    have hpayload : payloadRow cfg clk force drawn event target s.sys.outbox = some row.id := by
      simp [payloadRow, coalesceCandidate, hforce, h]
    rw [hpayload]
    exact Dated.update hs hrow (hnow row hrow) rfl rfl rfl r' hr'
  | existing hforce hcandidate h =>
    subst hforce
    have hpayload : payloadRow cfg clk false drawn event target s.sys.outbox = none := by
      simp [payloadRow, hcandidate, h]
    rw [hpayload]
    exact hs r' hr'
  | inserted hcandidate h =>
    have hpayload : payloadRow cfg clk force drawn event target s.sys.outbox =
        some s.sys.outbox.nextId := by
      simp [payloadRow, hcandidate, h]
    have hkey : s.sys.outbox.findKey? (newJob cfg clk s.sys.outbox.nextId
        (effectiveEventId drawn event) event target).dedupeKey = none := h
    rw [hpayload]
    rcases (Outbox.mem_insert hkey).mp hr' with hr | rfl
    · exact (hs r' hr).set_of_ne (s.sys.outbox.id_lt r' hr).ne clk.now
    · exact
        { written := ⟨clk.now, Dict.get?_set .., le_rfl⟩
          attempted := fun a ha => by cases ha
          completed := fun hout => by cases hout }

theorem Dated.step (hs : Dated s) {op : DatedOp π} (hclock : ClockForward s op) :
    Dated (datedStep cfg s op) := by
  cases op with
  | mongoGc clk ret =>
    intro r hr
    exact hs r (Outbox.mem_deleteWhere.mp hr).1
  | step op =>
    by_cases hop : ∃ clk force drawn event target, op = .enqueue clk force drawn event target
    · obtain ⟨clk, force, drawn, event, target, rfl⟩ := hop
      exact hs.enqueue force drawn event target (hclock clk rfl)
    · have hnot : ∀ clk force drawn event target, op ≠ .enqueue clk force drawn event target :=
        fun clk force drawn event target heq => hop ⟨clk, force, drawn, event, target, heq⟩
      have hsame : (datedStep cfg s (.step op)).writtenAt = s.writtenAt := by
        cases op with
        | enqueue => exact (hnot _ _ _ _ _ rfl).elim
        | _ => rfl
      intro r' hr'
      rw [hsame]
      obtain ⟨r, hr, hchange⟩ | hinserts := exists_change_of_mem hr'
      · exact (hs r hr).change hchange (fun clk hclk => hclock clk hclk r hr) hnot
      · cases hinserts
        exact (hnot _ _ _ _ _ rfl).elim

theorem Dated.run {ops : List (DatedOp π)}
    (hclock : Along (datedStep cfg) ClockForward .empty ops) :
    Dated (Foundation.run (datedStep cfg) .empty ops) := by
  have hstep : ∀ (s : DatedState π) op, Dated s → ClockForward s op → Dated (datedStep cfg s op) :=
    fun s op hs hop => hs.step hop
  have hempty : Dated (.empty : DatedState π) := fun r hr => by cases hr
  exact hclock.invariant hstep hempty

/-! ### What is deleted -/

def DatedState.WrittenSince (s : DatedState π) (t : Stamp) (r : OutboxRow π) : Prop :=
  ∃ w, s.writtenAt.get? r.id = some w ∧ t ≤ w

def KeepsRecent (s : DatedState π) (ret : Retention) (clk : Clock)
    (deletes : OutboxRow π → Bool) : Prop :=
  ∀ r ∈ s.sys.outbox.rows, r.status.outstanding = true →
    s.WrittenSince (outboxGcCutoffIso clk ret.staleHours) r → deletes r = false

variable {ret : Retention} {clk : Clock}

theorem Retention.cutoff_of_outstanding (h : r.status.outstanding = true) :
    ret.cutoff clk r.status = outboxGcCutoffIso clk ret.staleHours := by
  cases hstatus : r.status with
  | pending | retrying | running => rfl
  | succeeded | failed =>
    rw [hstatus] at h
    cases h

theorem RowDated.ageColumn_spec {writtenAt : Dict ℕ Stamp} (h : RowDated writtenAt r) :
    Retention.ageColumn r ≤ r.updatedAt ∧
      (r.status.outstanding = false → Retention.ageColumn r = r.updatedAt) := by
  unfold Retention.ageColumn
  cases hout : r.status.outstanding with
  | true =>
    refine ⟨?_, fun h => by cases h⟩
    rw [if_pos rfl]
    cases hattempt : r.lastAttemptAt with
    | none => exact le_rfl
    | some a => exact h.attempted a hattempt
  | false => simp [h.completed hout]

theorem Dated.sameRows_iff (hs : Dated s) :
    (s.sys.outbox.deleteWhere (ret.sqliteDeletes clk)).rows =
        (s.sys.outbox.deleteWhere (ret.mongoDeletes clk)).rows ↔
      ∀ r ∈ s.sys.outbox.rows, r.status.outstanding = true → r.target ∈ ret.staleTargets →
        ∀ a, r.lastAttemptAt = some a → a < outboxGcCutoffIso clk ret.staleHours →
          r.updatedAt < outboxGcCutoffIso clk ret.staleHours := by
  rw [Retention.sameRows_iff]
  refine forall₂_congr fun r hr => ?_
  obtain ⟨hle, hterminal⟩ := (hs r hr).ageColumn_spec
  cases hout : r.status.outstanding with
  | false => simp [hterminal hout]
  | true =>
    rw [Retention.cutoff_of_outstanding hout]
    simp only [Retention.collects, hout, Bool.not_true, Bool.false_or, decide_eq_true_eq,
      forall_const]
    refine imp_congr_right fun _ => ⟨fun h a ha hlt => ?_, fun h => ⟨fun hlt => ?_, hle.trans_lt⟩⟩
    · have hcolumn : Retention.ageColumn r = a := by simp [Retention.ageColumn, hout, ha]
      exact h.mp (hcolumn ▸ hlt)
    · cases ha : r.lastAttemptAt with
      | none => simpa [Retention.ageColumn, hout, ha] using hlt
      | some a => exact h a ha (by simpa [Retention.ageColumn, hout, ha] using hlt)

theorem Dated.keepsRecent_mongo (hs : Dated s) : KeepsRecent s ret clk (ret.mongoDeletes clk) := by
  rintro r hr hout ⟨w, hw, hle⟩
  obtain ⟨w', hw', hupdated⟩ := (hs r hr).written
  obtain rfl : w = w' := Option.some.inj (hw.symm.trans hw')
  rw [← Bool.not_eq_true, Retention.mongoDeletes_iff, Retention.cutoff_of_outstanding hout]
  exact fun h => not_lt_of_ge (hle.trans hupdated) h.2

theorem Dated.keepsRecent_sqlite_iff (hs : Dated s) :
    KeepsRecent s ret clk (ret.sqliteDeletes clk) ↔
      ∀ r ∈ s.sys.outbox.rows, r.status.outstanding = true → r.target ∈ ret.staleTargets →
        s.WrittenSince (outboxGcCutoffIso clk ret.staleHours) r →
        ∀ a, r.lastAttemptAt = some a → outboxGcCutoffIso clk ret.staleHours ≤ a := by
  refine forall₃_congr fun r hr hout => ?_
  have hdeletes : ret.sqliteDeletes clk r = false ↔
      (r.target ∈ ret.staleTargets →
        outboxGcCutoffIso clk ret.staleHours ≤ Retention.ageColumn r) := by
    rw [← Bool.not_eq_true, Retention.sqliteDeletes_iff, Retention.cutoff_of_outstanding hout]
    simp only [Retention.collects, hout, Bool.not_true, Bool.false_or, decide_eq_true_eq, not_and,
      not_lt]
  rw [hdeletes]
  constructor
  · intro h htarget hsince a ha
    have hcolumn : Retention.ageColumn r = a := by simp [Retention.ageColumn, hout, ha]
    exact hcolumn ▸ h hsince htarget
  · intro h hsince htarget
    cases ha : r.lastAttemptAt with
    | some a => simpa [Retention.ageColumn, hout, ha] using h htarget hsince a ha
    | none =>
      -- a row that was never attempted is as old as its last change
      obtain ⟨w, hw, hle⟩ := hsince
      obtain ⟨w', hw', hupdated⟩ := (hs r hr).written
      obtain rfl : w = w' := Option.some.inj (hw.symm.trans hw')
      simpa [Retention.ageColumn, hout, ha] using hle.trans hupdated

/-- **Garbage collection.** The backends delete the same rows exactly if no cut-off lies between the
columns they read; Mongo deletes no new payload, and SQLite may. -/
theorem gc_safe_iff {ops : List (DatedOp π)}
    (hclock : Along (datedStep cfg) ClockForward .empty ops) (ret : Retention) (clk : Clock) :
    let s := run (datedStep cfg) .empty ops
    let cutoff := outboxGcCutoffIso clk ret.staleHours
    (∀ ob : Outbox π, (ob.deleteWhere (ret.sqliteDeletes clk)).rows =
        (ob.deleteWhere (ret.mongoDeletes clk)).rows ↔
      ∀ r ∈ ob.rows, ret.collects r = true → (Retention.ageColumn r < ret.cutoff clk r.status ↔
        r.updatedAt < ret.cutoff clk r.status)) ∧
    ((s.sys.outbox.deleteWhere (ret.sqliteDeletes clk)).rows =
        (s.sys.outbox.deleteWhere (ret.mongoDeletes clk)).rows ↔
      ∀ r ∈ s.sys.outbox.rows, r.status.outstanding = true → r.target ∈ ret.staleTargets →
        ∀ a, r.lastAttemptAt = some a → a < cutoff → r.updatedAt < cutoff) ∧
    KeepsRecent s ret clk (ret.mongoDeletes clk) ∧
    (KeepsRecent s ret clk (ret.sqliteDeletes clk) ↔
      ∀ r ∈ s.sys.outbox.rows, r.status.outstanding = true → r.target ∈ ret.staleTargets →
        s.WrittenSince cutoff r → ∀ a, r.lastAttemptAt = some a → cutoff ≤ a) := by
  intro s cutoff
  have hs : Dated s := Dated.run hclock
  exact ⟨Retention.sameRows_iff ret clk, hs.sameRows_iff, hs.keepsRecent_mongo,
    hs.keepsRecent_sqlite_iff⟩

/-! ### A new payload in an old row -/

def agingEvent (eventId : String) : FanoutEvent Unit :=
  ⟨eventId, "app", "a.md", "note", "", [], ()⟩

def revivedRow : List (DatedOp Unit) :=
  [.step (.enqueue .noon false "" (agingEvent "e1") .letta),
    .step (.claim (.frozen "2025-01-01T12:00:01Z") 0 24 none none),
    .step (.markRetry (.frozen "2025-01-01T12:00:02Z") 0 1 0 "timeout"),
    .step (.enqueue (.frozen "2025-01-09T12:00:00Z") false "" (agingEvent "e2") .letta)]

def minuteLater : Clock := ⟨"2025-01-09T12:01:00Z", fun _ => "", fun _ => "2025-01-08T12:01:00Z"⟩

def oneDay : Retention := ⟨24, 24, 24, [.letta]⟩

theorem gc_safe_iff_revivedRow :
    KeepsRecent (run (datedStep .default) .empty revivedRow) oneDay minuteLater
      (oneDay.mongoDeletes minuteLater) := by
  have hclock : Along (datedStep .default) ClockForward .empty revivedRow := by decide +kernel
  exact (gc_safe_iff hclock oneDay minuteLater).2.2.1

/-- SQLite deletes it a minute after it was coalesced into the row. -/
theorem sqlite_deletes_new_payload :
    let s := run (datedStep .default) .empty revivedRow
    s.sys.outbox.rows.map (fun r => (r.payload.eventId, r.status)) = [("e2", .retrying)] ∧
      Dict.get? s.writtenAt 1 = some "2025-01-09T12:00:00Z" ∧
      (s.sys.outbox.deleteWhere (oneDay.sqliteDeletes minuteLater)).rows = [] ∧
      (s.sys.outbox.deleteWhere (oneDay.mongoDeletes minuteLater)).rows.length = 1 := by
  decide +kernel

end ContextLattice
