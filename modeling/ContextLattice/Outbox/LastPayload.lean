import ContextLattice.Outbox.Collect

/-!
# The payload that is delivered last

The outstanding rows of one target, project and file are a **lane**. They are claimed in the order
`next_attempt_at`, `id`, and an enqueue that writes a payload makes its row due now.
-/

namespace ContextLattice

open Foundation

variable {π : Type*}

/-! ### Lanes -/

structure Lane where
  target : FanoutTarget
  project : String
  file : String
deriving DecidableEq

def RowIdent.lane (r : RowIdent) : Lane := ⟨r.target, r.project, r.file⟩

def FanoutEvent.lane (event : FanoutEvent π) (target : FanoutTarget) : Lane :=
  ⟨target, event.project, event.file⟩

def Outbox.laneRows (ob : Outbox π) (lane : Lane) : List (OutboxRow π) :=
  ob.rows.filter fun r => decide (r.lane = lane)

/-- A row is outstanding, and no other outstanding row comes at its place or later. -/
structure IsLastOf (cfg : OutboxConfig) (rows : List (OutboxRow π)) (r : OutboxRow π) : Prop where
  mem : r ∈ rows
  outstanding : r.status.outstanding = true
  last : ∀ r' ∈ rows, r'.status.outstanding = true → r' ≠ r → ¬ dueFirst cfg r r'

/-- Where a row stands in the order of the claims. -/
def OutboxRow.due (r : OutboxRow π) : Stamp × ℕ := (r.nextAttemptAt, r.id)

def DueBefore (cfg : OutboxConfig) (a b : Stamp × ℕ) : Prop :=
  a.1 < b.1 ∨ a.1 = b.1 ∧ cfg.rank a.2 < cfg.rank b.2

/-- The outstanding row of the lane that comes last, if there is one, carries the event. -/
def LastIs (cfg : OutboxConfig) (ob : Outbox π) (lane : Lane) (event : FanoutEvent π) : Prop :=
  ∀ r, IsLastOf cfg (ob.laneRows lane) r → r.payload = event

section

variable (cfg : OutboxConfig)

instance (a b : Stamp × ℕ) : Decidable (DueBefore cfg a b) := inferInstanceAs (Decidable (_ ∨ _))

instance [DecidableEq π] (rows : List (OutboxRow π)) (r : OutboxRow π) :
    Decidable (IsLastOf cfg rows r) :=
  decidable_of_iff (r ∈ rows ∧ r.status.outstanding = true ∧
      ∀ r' ∈ rows, r'.status.outstanding = true → r' ≠ r → ¬ dueFirst cfg r r')
    ⟨fun h => ⟨h.1, h.2.1, h.2.2⟩, fun h => ⟨h.mem, h.outstanding, h.last⟩⟩

instance [DecidableEq π] (ob : Outbox π) (lane : Lane) (event : FanoutEvent π) :
    Decidable (LastIs cfg ob lane event) :=
  decidable_of_iff (∀ r ∈ ob.laneRows lane, IsLastOf cfg (ob.laneRows lane) r → r.payload = event)
    ⟨fun h r hr => h r hr.mem hr, fun h r _ => h r⟩

end

section

variable {cfg : OutboxConfig} {ob : Outbox π} {lane : Lane} {r row : OutboxRow π}

theorem Outbox.mem_laneRows : r ∈ ob.laneRows lane ↔ r ∈ ob.rows ∧ r.lane = lane := by
  simp [laneRows, List.mem_filter]

theorem not_dueFirst_iff {a b : OutboxRow π} : ¬ dueFirst cfg a b ↔ DueBefore cfg b.due a.due := by
  rw [dueFirst, DueBefore, OutboxRow.due, OutboxRow.due, not_or, not_and, not_lt, not_le]
  constructor
  · rintro ⟨hle, hrank⟩
    exact hle.lt_or_eq.imp_right fun heq => ⟨heq, hrank heq.symm⟩
  · rintro (hlt | ⟨heq, hrank⟩)
    · exact ⟨hlt.le, fun heq => absurd heq.symm hlt.ne⟩
    · exact ⟨heq.le, fun _ => hrank⟩

variable {f : OutboxRow π → OutboxRow π}

theorem Outbox.laneRows_update_of_ne {hf} (hrow : row ∈ ob.rows) (hne : row.lane ≠ lane) :
    (ob.update row.id f hf).laneRows lane = ob.laneRows lane := by
  have hlane : ∀ r, (f r).lane = r.lane := fun r => congrArg RowIdent.lane (hf r)
  change (ob.rows.map _).filter _ = ob.rows.filter _
  rw [List.filter_map]
  have hcomp : ∀ r ∈ ob.rows, ((fun r : OutboxRow π => decide (r.lane = lane)) ∘
      fun r => if decide (r.id = row.id) = true then f r else r) r = decide (r.lane = lane) := by
    intro r _
    simp only [Function.comp]
    split
    · rw [hlane]
    · rfl
  rw [List.filter_congr hcomp]
  refine (List.map_congr_left fun r hr => ?_).trans (List.map_id _)
  obtain ⟨hr, hin⟩ := List.mem_filter.mp hr
  refine if_neg fun hid => hne ?_
  obtain rfl : r = row := Table.eq_of_mem_of_key hr hrow (by simpa using hid)
  simpa using hin

variable {hid : row.id = ob.nextId}

theorem Outbox.laneRows_insert_of_ne (hkey : ob.findKey? row.dedupeKey = none)
    (hne : row.lane ≠ lane) : (ob.insert row hid).laneRows lane = ob.laneRows lane := by
  rw [laneRows, rows_insert hkey, List.filter_append, laneRows]
  simp [hne]

theorem Outbox.mem_laneRows_insert (hkey : ob.findKey? row.dedupeKey = none)
    (hlane : row.lane = lane) :
    r ∈ (ob.insert row hid).laneRows lane ↔ r = row ∨ r ∈ ob.laneRows lane ∧ r.id ≠ row.id := by
  rw [mem_laneRows, mem_insert hkey, mem_laneRows]
  constructor
  · rintro ⟨hr | rfl, hlane'⟩
    · exact .inr ⟨⟨hr, hlane'⟩, hid ▸ (ob.id_lt r hr).ne⟩
    · exact .inl rfl
  · rintro (rfl | ⟨⟨hr, hlane'⟩, -⟩)
    · exact ⟨.inr rfl, hlane⟩
    · exact ⟨.inl hr, hlane'⟩

theorem Outbox.mem_laneRows_update {hf} (hrow : row ∈ ob.laneRows lane) :
    r ∈ (ob.update row.id f hf).laneRows lane ↔
      r = f row ∨ r ∈ ob.laneRows lane ∧ r.id ≠ row.id := by
  obtain ⟨hmem, hlane⟩ := mem_laneRows.mp hrow
  rw [mem_laneRows, mem_laneRows]
  constructor
  · rintro ⟨hr, hlane'⟩
    obtain ⟨r₀, hr₀, rfl⟩ := mem_updateWhere.mp hr
    split
    · rename_i hid
      obtain rfl : r₀ = row := Table.eq_of_mem_of_key hr₀ hmem (by simpa using hid)
      exact .inl rfl
    · rename_i hid
      rw [if_neg hid] at hlane'
      exact .inr ⟨⟨hr₀, hlane'⟩, by simpa using hid⟩
  · rintro (rfl | ⟨⟨hr, hlane'⟩, hne⟩)
    · exact ⟨mem_update hmem, (congrArg RowIdent.lane (hf row)).trans hlane⟩
    · exact ⟨mem_updateWhere.mpr ⟨r, hr, by simp [hne]⟩, hlane'⟩

/-- **One more row**: it is the last of all if the others come before it; otherwise the last of the
others is, if it comes later. -/
theorem forall_isLastOf_iff {rows others : List (OutboxRow π)} {event : FanoutEvent π}
    (hout : row.status.outstanding = true)
    (hrows : ∀ r, r ∈ rows ∧ r.status.outstanding = true ↔
      r = row ∨ r ∈ others ∧ r.status.outstanding = true) (hnew : row ∉ others) :
    (∀ r, IsLastOf cfg rows r → r.payload = event) ↔
      ((∀ r ∈ others, r.status.outstanding = true → DueBefore cfg r.due row.due) →
          row.payload = event) ∧
        ∀ r, IsLastOf cfg others r → DueBefore cfg row.due r.due → r.payload = event := by
  have hrow := (hrows row).mpr (.inl rfl)
  have hnewLast : IsLastOf cfg rows row ↔
      ∀ r ∈ others, r.status.outstanding = true → DueBefore cfg r.due row.due := by
    constructor
    · intro h r hr hr_out
      have hmem := (hrows r).mpr (.inr ⟨hr, hr_out⟩)
      refine not_dueFirst_iff.mp (h.last r hmem.1 hr_out ?_)
      rintro rfl
      exact hnew hr
    · refine fun h => ⟨hrow.1, hout, fun r hr hr_out hne => not_dueFirst_iff.mpr ?_⟩
      obtain ⟨hr, -⟩ := ((hrows r).mp ⟨hr, hr_out⟩).resolve_left hne
      exact h r hr hr_out
  have holdLast : ∀ r, r ≠ row →
      (IsLastOf cfg rows r ↔ IsLastOf cfg others r ∧ DueBefore cfg row.due r.due) := by
    intro r hne
    constructor
    · intro h
      have hmem := ((hrows r).mp ⟨h.mem, h.outstanding⟩).resolve_left hne
      refine ⟨⟨hmem.1, h.outstanding, fun r' hr' hout' hne' => ?_⟩,
        not_dueFirst_iff.mp (h.last row hrow.1 hout hne.symm)⟩
      exact h.last r' ((hrows r').mpr (.inr ⟨hr', hout'⟩)).1 hout' hne'
    · rintro ⟨h, hbefore⟩
      refine ⟨((hrows r).mpr (.inr ⟨h.mem, h.outstanding⟩)).1, h.outstanding,
        fun r' hr' hout' hne' => ?_⟩
      rcases (hrows r').mp ⟨hr', hout'⟩ with rfl | ⟨hr', -⟩
      · exact not_dueFirst_iff.mpr hbefore
      · exact h.last r' hr' hout' hne'
  constructor
  · refine fun h => ⟨fun hall => h row (hnewLast.mpr hall), fun r hr hbefore => h r ?_⟩
    have hne : r ≠ row := by
      rintro rfl
      exact hnew hr.mem
    exact (holdLast r hne).mpr ⟨hr, hbefore⟩
  · rintro ⟨hfirst, hrest⟩ r hr
    by_cases hne : r = row
    · subst hne
      exact hfirst (hnewLast.mp hr)
    · obtain ⟨hlast, hbefore⟩ := (holdLast r hne).mp hr
      exact hrest r hlast hbefore

end

/-! ### Enqueues -/

structure Enqueue (π : Type*) where
  clk : Clock
  drawn : String
  event : FanoutEvent π
  target : FanoutTarget

namespace Enqueue

def lane (e : Enqueue π) : Lane := e.event.lane e.target

def key (e : Enqueue π) : String := dedupeKeyOf (effectiveEventId e.drawn e.event) e.target

end Enqueue

section

variable (cfg : OutboxConfig) (force : Bool)

def enqueueStep (ob : Outbox π) (e : Enqueue π) : Outbox π :=
  enqueueTarget cfg e.clk force e.drawn e.event e.target ob

/-- The row with the key of the event, if there is one, is of the same file. -/
def Keyed (ob : Outbox π) (e : Enqueue π) : Prop := ∀ r ∈ ob.findKey? e.key, r.lane = e.lane

instance (ob : Outbox π) (e : Enqueue π) : Decidable (Keyed ob e) :=
  inferInstanceAs (Decidable (∀ r ∈ ob.findKey? e.key, r.lane = e.lane))

/-- The rows of the lane that the enqueue leaves alone, if it writes to row `i`. -/
def otherRows (ob : Outbox π) (e : Enqueue π) (i : ℕ) : List (OutboxRow π) :=
  (ob.laneRows e.lane).filter fun r => decide (r.id ≠ i)

/-- What decides, in the table **before** an enqueue, whether `event` comes last after it. The
enqueue may find its row there and leave it: then the last row counts. Otherwise it makes row `i`
due now: then its own event counts if all other outstanding rows are due before, and else the last
of those that are due later, such as one that waits for a retry. -/
def LastAfter (ob : Outbox π) (e : Enqueue π) (event : FanoutEvent π) : Prop :=
  match payloadRow cfg e.clk force e.drawn e.event e.target ob with
  | none => LastIs cfg ob e.lane event
  | some i =>
    ((∀ r ∈ otherRows ob e i, r.status.outstanding = true →
        DueBefore cfg r.due (e.clk.now, i)) → e.event = event) ∧
      ∀ r, IsLastOf cfg (otherRows ob e i) r → DueBefore cfg (e.clk.now, i) r.due →
        r.payload = event

instance [DecidableEq π] (ob : Outbox π) (e : Enqueue π) (event : FanoutEvent π) :
    Decidable (LastAfter cfg force ob e event) :=
  match h : payloadRow cfg e.clk force e.drawn e.event e.target ob with
  | none => decidable_of_iff (LastIs cfg ob e.lane event) (by rw [LastAfter, h])
  | some i => decidable_of_iff
      (((∀ r ∈ otherRows ob e i, r.status.outstanding = true →
          DueBefore cfg r.due (e.clk.now, i)) → e.event = event) ∧
        ∀ r ∈ otherRows ob e i, IsLastOf cfg (otherRows ob e i) r →
          DueBefore cfg (e.clk.now, i) r.due → r.payload = event)
      (by
        rw [LastAfter, h]
        exact and_congr_right' ⟨fun h r hr => h r hr.mem hr, fun h r _ => h r⟩)

variable {cfg force} {ob : Outbox π} {e : Enqueue π} {lane : Lane} {event : FanoutEvent π}

theorem enqueueFanoutOutbox_fst (clk : Clock) (drawn : String) (targets : List FanoutTarget) :
    (enqueueFanoutOutbox cfg clk force drawn event targets ob).1 =
      run (enqueueStep cfg force) ob (targets.map fun target => ⟨clk, drawn, event, target⟩) := by
  rw [enqueueFanoutOutbox, run, List.foldl_map]
  exact (List.foldl_hom Prod.fst fun _ _ => rfl).symm

/-- The last enqueue of a lane. -/
theorem exists_last_enqueue {es : List (Enqueue π)} (h : ∃ e ∈ es, e.lane = lane) :
    ∃ before e after, es = before ++ e :: after ∧ e.lane = lane ∧
      ∀ e' ∈ after, e'.lane ≠ lane := by
  induction es with
  | nil => simp at h
  | cons e es ih =>
    by_cases hlater : ∃ e' ∈ es, e'.lane = lane
    · obtain ⟨before, e', after, rfl, hlane, hafter⟩ := ih hlater
      exact ⟨e :: before, e', after, rfl, hlane, hafter⟩
    · push Not at hlater
      obtain ⟨e', he', hlane⟩ := h
      rcases List.mem_cons.mp he' with rfl | he'
      · exact ⟨[], e', es, rfl, hlane, hlater⟩
      · exact absurd hlane (hlater e' he')

variable (cfg force ob e) in
theorem placed_enqueueStep : Placed cfg e.clk force e.drawn e.event e.target ob
    (enqueueStep cfg force ob e) := placed_enqueueTarget ..

theorem laneRows_enqueueStep_of_ne (hkeyed : Keyed ob e) (hne : e.lane ≠ lane) :
    (enqueueStep cfg force ob e).laneRows lane = ob.laneRows lane := by
  have hplaced := placed_enqueueStep cfg force ob e
  generalize enqueueStep cfg force ob e = ob' at hplaced ⊢
  cases hplaced with
  | coalesced h =>
    obtain ⟨hrow, htarget, hproject, hfile, -⟩ := coalesceCandidate_eq_some h
    refine Outbox.laneRows_update_of_ne hrow fun hlane => hne ?_
    rw [← hlane, RowIdent.lane, htarget, hproject, hfile]
    rfl
  | requeued hforce h =>
    refine Outbox.laneRows_update_of_ne (Outbox.findKey?_eq_some h).1 fun hlane => hne ?_
    rw [← hlane, hkeyed _ h]
  | existing => rfl
  | inserted hcandidate h => exact Outbox.laneRows_insert_of_ne h hne

/-- A write to row `i` of the table. -/
structure WrittenTo (ob ob' : Outbox π) (e : Enqueue π) (i : ℕ) (row : OutboxRow π) : Prop where
  due : row.due = (e.clk.now, i)
  payload : row.payload = e.event
  outstanding : row.status.outstanding = true
  mem : ∀ r, r ∈ ob'.laneRows e.lane ↔ r = row ∨ r ∈ otherRows ob e i

theorem WrittenTo.lastIs_iff {ob' : Outbox π} {i : ℕ} {row : OutboxRow π}
    (h : WrittenTo ob ob' e i row) : LastIs cfg ob' e.lane event ↔
      ((∀ r ∈ otherRows ob e i, r.status.outstanding = true →
          DueBefore cfg r.due (e.clk.now, i)) → e.event = event) ∧
        ∀ r, IsLastOf cfg (otherRows ob e i) r → DueBefore cfg (e.clk.now, i) r.due →
          r.payload = event := by
  have hid : row.id = i := congrArg Prod.snd h.due
  have hnew : row ∉ otherRows ob e i := fun hmem => by simp [otherRows, hid] at hmem
  have hrows : ∀ r, r ∈ ob'.laneRows e.lane ∧ r.status.outstanding = true ↔
      r = row ∨ r ∈ otherRows ob e i ∧ r.status.outstanding = true := by
    intro r
    rw [h.mem, or_and_right]
    exact or_congr_left (and_iff_left_of_imp fun hr => hr ▸ h.outstanding)
  rw [LastIs, forall_isLastOf_iff h.outstanding hrows hnew, h.due, h.payload]

theorem writtenTo_enqueueStep (hkeyed : Keyed ob e) {i : ℕ}
    (h : payloadRow cfg e.clk force e.drawn e.event e.target ob = some i) :
    ∃ row, WrittenTo ob (enqueueStep cfg force ob e) e i row := by
  have hother : ∀ r, r ∈ otherRows ob e i ↔ r ∈ ob.laneRows e.lane ∧ r.id ≠ i := by
    simp [otherRows, List.mem_filter]
  have hplaced := placed_enqueueStep cfg force ob e
  generalize enqueueStep cfg force ob e = ob' at hplaced ⊢
  cases hplaced with
  | @coalesced row hcandidate =>
    obtain ⟨hrow, htarget, hproject, hfile, hwaiting, -⟩ := coalesceCandidate_eq_some hcandidate
    have hlane : row.lane = e.lane := by
      rw [RowIdent.lane, htarget, hproject, hfile]
      rfl
    obtain rfl : row.id = i := by simpa [payloadRow, hcandidate] using h
    refine ⟨coalesceWrite e.clk e.event row, rfl, rfl, JobStatus.outstanding_of_waiting hwaiting,
      fun r => ?_⟩
    rw [hother]
    exact Outbox.mem_laneRows_update (Outbox.mem_laneRows.mpr ⟨hrow, hlane⟩)
  | @requeued row hforce hkey =>
    obtain rfl : row.id = i := by simpa [payloadRow, coalesceCandidate, hforce, hkey] using h
    refine ⟨requeueJobWrite cfg e.clk e.event row, rfl, rfl, rfl, fun r => ?_⟩
    rw [hother]
    exact Outbox.mem_laneRows_update
      (Outbox.mem_laneRows.mpr ⟨(Outbox.findKey?_eq_some hkey).1, hkeyed _ hkey⟩)
  | existing hforce hcandidate hkey =>
    rw [payloadRow, hcandidate] at h
    simp [hkey, hforce] at h
  | inserted hcandidate hkey =>
    obtain rfl : ob.nextId = i := by simpa [payloadRow, hcandidate, hkey] using h
    refine ⟨newJob cfg e.clk ob.nextId (effectiveEventId e.drawn e.event) e.event e.target, rfl,
      rfl, rfl, fun r => ?_⟩
    rw [hother]
    exact Outbox.mem_laneRows_insert hkey rfl

theorem enqueueStep_of_not_written
    (h : payloadRow cfg e.clk force e.drawn e.event e.target ob = none) :
    enqueueStep cfg force ob e = ob := by
  have hplaced := placed_enqueueStep cfg force ob e
  generalize enqueueStep cfg force ob e = ob' at hplaced ⊢
  cases hplaced with
  | coalesced hcandidate => simp [payloadRow, hcandidate] at h
  | requeued hforce hkey => simp [payloadRow, coalesceCandidate, hforce, hkey] at h
  | existing => rfl
  | inserted hcandidate hkey => simp [payloadRow, hcandidate, hkey] at h

/-- **Step.** -/
theorem lastIs_enqueueStep_iff (hkeyed : Keyed ob e) :
    LastIs cfg (enqueueStep cfg force ob e) e.lane event ↔ LastAfter cfg force ob e event := by
  rw [LastAfter]
  split
  · rename_i hrow
    rw [enqueueStep_of_not_written hrow]
  · rename_i i hrow
    obtain ⟨row, hwritten⟩ := writtenTo_enqueueStep hkeyed hrow
    exact hwritten.lastIs_iff

/-- **Run.** Enqueues of other files leave the rows of a lane alone. -/
theorem laneRows_run_of_ne {es : List (Enqueue π)}
    (hkeyed : Along (enqueueStep cfg force) Keyed ob es) (hne : ∀ e ∈ es, e.lane ≠ lane) :
    (run (enqueueStep cfg force) ob es).laneRows lane = ob.laneRows lane := by
  induction es generalizing ob with
  | nil => rfl
  | cons e es ih =>
    rw [List.forall_mem_cons] at hne
    rw [run_cons, ih hkeyed.2 hne.2, laneRows_enqueueStep_of_ne hkeyed.1 hne.1]

/-- After a run of enqueues the last one of a lane decides what comes last in it. -/
theorem lastIs_run_iff {pre post : List (Enqueue π)}
    (hkeyed : Along (enqueueStep cfg force) Keyed ob (pre ++ e :: post))
    (hpost : ∀ e' ∈ post, e'.lane ≠ e.lane) :
    LastIs cfg (run (enqueueStep cfg force) ob (pre ++ e :: post)) e.lane event ↔
      LastAfter cfg force (run (enqueueStep cfg force) ob pre) e event := by
  obtain ⟨-, hstep, hrest⟩ := along_append.mp hkeyed
  rw [← lastIs_enqueueStep_iff hstep, LastIs, run_append, run_cons,
    laneRows_run_of_ne hrest hpost]
  rfl

end

end ContextLattice
