import Mathlib.Data.List.Infix
import ContextLattice.Outbox.Delivery

/-!
# What becomes of an enqueued event

An enqueued event should stay *on its way*: in an outstanding row, or delivered, or replaced by a
later event of the same file. Coalescing keeps the key of the row it overwrites, so a call can find
a row keyed by its event that carries another one.
-/

namespace ContextLattice

open Foundation

variable {π : Type*}

/-! ### Events and their files -/

def SameEvent (p e : FanoutEvent π) : Prop := p = e ∨ e.eventId ≠ "" ∧ p.eventId = e.eventId

instance [DecidableEq π] (p e : FanoutEvent π) : Decidable (SameEvent p e) :=
  inferInstanceAs (Decidable (_ ∨ _))

def Owned (owner : String → String × String) : OutboxOp π → Prop
  | .enqueue _ _ drawn event _ => owner (effectiveEventId drawn event) = (event.project, event.file)
  | _ => True

instance (owner : String → String × String) (op : OutboxOp π) : Decidable (Owned owner op) :=
  match op with
  | .enqueue .. | .claim .. | .deliver .. | .markSuccess .. | .markRetry .. | .markFailed ..
  | .failLetta .. | .recover .. | .gc .. | .prune .. | .restart .. => by
    unfold Owned
    infer_instance

def EventOwned (owner : String → String × String) (e : FanoutEvent π) : Prop :=
  e.eventId ≠ "" → owner e.eventId = (e.project, e.file)

structure RowOwned (owner : String → String × String) (r : OutboxRow π) : Prop where
  id : owner r.eventId = (r.project, r.file)
  payload : (r.payload.project, r.payload.file) = (r.project, r.file)
  event : EventOwned owner r.payload

variable {owner : String → String × String} {cfg : OutboxConfig} {s : OutboxState π}
  {op : OutboxOp π} {r r' : OutboxRow π} {p e : FanoutEvent π}

variable {clk : Clock} {force : Bool} {drawn : String} {target : FanoutTarget}

theorem Owned.event (h : Owned owner (.enqueue clk force drawn e target)) : EventOwned owner e := by
  intro hne
  have howned : owner (effectiveEventId drawn e) = (e.project, e.file) := h
  rwa [effectiveEventId, if_neg hne] at howned

theorem SameEvent.file_eq (h : SameEvent p e) (hp : EventOwned owner p) (he : EventOwned owner e) :
    (p.project, p.file) = (e.project, e.file) := by
  rcases h with rfl | ⟨hne, hid⟩
  · rfl
  · rw [← hp (hid ▸ hne), ← he hne, hid]

theorem eventId_of_findKey? {ob : Outbox π}
    (h : ob.findKey? (dedupeKeyOf (effectiveEventId drawn e) target) = some r) :
    r ∈ ob.rows ∧ r.eventId = effectiveEventId drawn e ∧ r.target = target := by
  obtain ⟨hmem, hkey⟩ := Outbox.findKey?_eq_some h
  exact ⟨hmem, dedupeKeyOf_inj.mp hkey⟩

theorem RowOwned.change (hr : RowOwned owner r) (howned : Owned owner op)
    (h : JobChange cfg s op r r') : RowOwned owner r' := by
  cases h with
  | coalesced h =>
    obtain ⟨-, -, hproject, hfile, -⟩ := coalesceCandidate_eq_some h
    exact ⟨hr.id, Prod.ext hproject.symm hfile.symm, howned.event⟩
  | requeued h =>
    obtain ⟨-, hid, -⟩ := eventId_of_findKey? h
    have hevent := hr.id
    rw [hid] at hevent
    exact ⟨hr.id, howned.symm.trans hevent, howned.event⟩
  | _ => exact ⟨hr.id, hr.payload, hr.event⟩

def RowsOwned (owner : String → String × String) (s : OutboxState π) : Prop :=
  ∀ r ∈ s.outbox.rows, RowOwned owner r

theorem RowsOwned.step (hs : RowsOwned owner s) (howned : Owned owner op) :
    RowsOwned owner (outboxStep cfg s op) := by
  intro r' hr'
  rcases exists_change_of_mem hr' with ⟨r, hr, hchange⟩ | hinserts
  · exact (hs r hr).change howned hchange
  · cases hinserts
    exact ⟨howned, rfl, howned.event⟩

/-! ### The way of an event -/

variable (t : FanoutTarget) (e : FanoutEvent π) (base s : OutboxState π)

def ReplacedSince : Prop :=
  ∃ x ∈ s.replaced.drop base.replaced.length, x.target = t ∧ SameEvent x.old e ∧
    ¬ SameEvent x.new e ∧ x.new.project = e.project ∧ x.new.file = e.file

def DeletedSince : Prop :=
  ∃ d ∈ s.deleted.drop base.deleted.length, d.1 = t ∧ SameEvent d.2 e

def OnItsWay : Prop :=
  (∃ r ∈ s.outbox.rows, r.target = t ∧ r.status.outstanding = true ∧ SameEvent r.payload e) ∨
    (∃ d ∈ s.delivered, d.1 = t ∧ SameEvent d.2 e) ∨ ReplacedSince t e base s

def GivenUp : Prop :=
  (∃ r ∈ s.outbox.rows, r.target = t ∧ r.status = .failed ∧ SameEvent r.payload e) ∨
    DeletedSince t e base s

def Accounted : Prop :=
  (∃ r ∈ s.outbox.rows, r.target = t ∧ r.status ≠ .succeeded ∧ SameEvent r.payload e) ∨
    (∃ d ∈ s.delivered, d.1 = t ∧ SameEvent d.2 e) ∨ ReplacedSince t e base s ∨
      DeletedSince t e base s

def Continues : Prop := base.replaced <+: s.replaced ∧ base.deleted <+: s.deleted

variable {t : FanoutTarget} {e : FanoutEvent π} {base s : OutboxState π}

theorem Accounted.onItsWay_or_givenUp (h : Accounted t e base s) :
    OnItsWay t e base s ∨ GivenUp t e base s := by
  rcases h with ⟨r, hr, ht, hstatus, hsame⟩ | hdelivered | hreplaced | hdeleted
  · cases hs : r.status with
    | succeeded => exact absurd hs hstatus
    | failed => exact .inr (.inl ⟨r, hr, ht, hs, hsame⟩)
    | _ => exact .inl (.inl ⟨r, hr, ht, by rw [hs]; rfl, hsame⟩)
  · exact .inl (.inr (.inl hdelivered))
  · exact .inl (.inr (.inr hreplaced))
  · exact .inr (.inr hdeleted)

theorem Continues.step (h : Continues base s) : Continues base (outboxStep cfg s op) :=
  ⟨h.1.trans (history_mono cfg s op).2.1, h.2.trans (history_mono cfg s op).2.2⟩

private theorem mem_drop_append {α : Type*} {l l' : List α} {x : α} {n : ℕ} (hn : n ≤ l.length)
    (hx : x ∈ l') : x ∈ (l ++ l').drop n := by
  rw [List.drop_append_of_le_length hn]
  exact List.mem_append_right _ hx

private theorem accounted_of_overwritten {r r' : OutboxRow π} {event : FanoutEvent π}
    (hcont : Continues base s) (hr' : r' ∈ (outboxStep cfg s op).outbox.rows) (ht : r'.target = t)
    (hstatus : r'.status ≠ .succeeded) (hpayload : r'.payload = event)
    (hlog : (outboxStep cfg s op).replaced = s.replaced ++ [⟨t, r.payload, event⟩])
    (hsame : SameEvent r.payload e)
    (hfile : (event.project, event.file) = (e.project, e.file)) :
    Accounted t e base (outboxStep cfg s op) := by
  by_cases hnew : SameEvent event e
  · exact .inl ⟨r', hr', ht, hstatus, hpayload ▸ hnew⟩
  · obtain ⟨hproject, hfile⟩ := Prod.ext_iff.mp hfile
    refine .inr (.inr (.inl ⟨⟨t, r.payload, event⟩, ?_, rfl, hsame, hnew, hproject, hfile⟩))
    rw [hlog]
    exact mem_drop_append hcont.1.length_le (by simp)

private theorem accounted_of_change {r r' : OutboxRow π} (hsound : DeliverySound s)
    (hrow : RowOwned owner r) (he : EventOwned owner e) (howned : Owned owner op)
    (hmarks : SuccessMatches s op) (hcont : Continues base s) (hr : r ∈ s.outbox.rows)
    (hr' : r' ∈ (outboxStep cfg s op).outbox.rows) (hchange : JobChange cfg s op r r')
    (ht : r.target = t) (hstatus : r.status ≠ .succeeded) (hsame : SameEvent r.payload e) :
    Accounted t e base (outboxStep cfg s op) := by
  -- whatever the row carries after the step is of the file of `e`
  have hrow' := hrow.change howned hchange
  have ht' : r'.target = t := (congrArg RowIdent.target hchange.ident).trans ht
  have hfile : (r'.payload.project, r'.payload.file) = (e.project, e.file) := by
    have hcolumns : (r'.project, r'.file) = (r.project, r.file) :=
      congrArg (fun i => (i.project, i.file)) hchange.ident
    rw [hrow'.payload, hcolumns, ← hrow.payload]
    exact hsame.file_eq hrow.event he
  cases hchange with
  | same => exact .inl ⟨r, hr', ht, hstatus, hsame⟩
  | coalesced h =>
    obtain ⟨-, rfl, -⟩ := coalesceCandidate_eq_some h
    subst ht
    refine accounted_of_overwritten hcont hr' rfl hstatus rfl ?_ hsame hfile
    simp [outboxStep, overwrittenRow, h, coalesceWrite]
  | requeued h =>
    obtain ⟨-, -, rfl⟩ := eventId_of_findKey? h
    subst ht
    refine accounted_of_overwritten hcont hr' rfl (by simp [requeueJobWrite]) rfl ?_ hsame hfile
    simp [outboxStep, overwrittenRow, coalesceCandidate, h, requeueJobWrite]
  | claimed => exact .inl ⟨_, hr', ht', by simp [claimJobWrite], hsame⟩
  | succeeded h hdelivered =>
    -- the mark stands for a push of the payload in the row
    obtain ⟨hheld, -, hid⟩ := OutboxState.job?_eq_some h
    have htarget := congrArg RowIdent.target (hsound.ident _ hheld r hr hid.symm)
    refine .inr (.inl ⟨_, delivered_mono (hsound.pushed _ hheld hdelivered), ?_, ?_⟩)
    · exact htarget.symm.trans ht
    · rw [← hmarks _ h hdelivered r hr rfl]
      exact hsame
  | retried => exact .inl ⟨_, hr', ht', status_retryWrite_ne_succeeded _ _ _ _, hsame⟩
  | failed | lettaFailed => exact .inl ⟨_, hr', ht', by simp [failureWrite], hsame⟩
  | recovered => exact .inl ⟨_, hr', ht', by simp [recoverJobWrite], hsame⟩

theorem Accounted.step (h : Accounted t e base s) (hsound : DeliverySound s)
    (hrows : RowsOwned owner s) (he : EventOwned owner e) (howned : Owned owner op)
    (hmarks : SuccessMatches s op) (hcont : Continues base s) :
    Accounted t e base (outboxStep cfg s op) := by
  obtain ⟨-, hreplaced, hdeleted⟩ := history_mono cfg s op
  rcases h with ⟨r, hr, ht, hstatus, hsame⟩ | ⟨d, hd, hd'⟩ | ⟨x, hx, hx'⟩ | ⟨d, hd, hd'⟩
  · rcases change_of_mem cfg op hr with ⟨r', hr', hchange⟩ | ⟨l, hl, hmem⟩
    · exact accounted_of_change hsound (hrows r hr) he howned hmarks hcont hr hr' hchange ht
        hstatus hsame
    · refine .inr (.inr (.inr ⟨(r.target, r.payload), ?_, ht, hsame⟩))
      rw [hl]
      exact mem_drop_append hcont.2.length_le hmem
  · exact .inr (.inl ⟨d, delivered_mono hd, hd'⟩)
  · exact .inr (.inr (.inl ⟨x, (hreplaced.drop _).subset hx, hx'⟩))
  · exact .inr (.inr (.inr ⟨d, (hdeleted.drop _).subset hd, hd'⟩))

/-- If the call neither forces a requeue nor coalesces, a row keyed by its event carries the event.
-/
def KeyedRow (cfg : OutboxConfig) (clk : Clock) (force : Bool) (drawn : String)
    (e : FanoutEvent π) (t : FanoutTarget) (ob : Outbox π) : Prop :=
  force = false → coalesceCandidate cfg clk force e t ob = none →
    ∀ r, ob.findKey? (dedupeKeyOf (effectiveEventId drawn e) t) = some r → SameEvent r.payload e

theorem accounted_enqueue (hsound : DeliverySound s)
    (hkeyed : KeyedRow cfg clk force drawn e t s.outbox) :
    Accounted t e (outboxStep cfg s (.enqueue clk force drawn e t))
      (outboxStep cfg s (.enqueue clk force drawn e t)) := by
  have hplaced := placed_enqueueTarget cfg clk force drawn e t s.outbox
  have hrows : (outboxStep cfg s (.enqueue clk force drawn e t)).outbox =
    enqueueTarget cfg clk force drawn e t s.outbox := rfl
  generalize enqueueTarget cfg clk force drawn e t s.outbox = ob' at hplaced hrows
  cases hplaced with
  | @coalesced row h =>
    obtain ⟨hmem, ht, -, -, hwaiting, -⟩ := coalesceCandidate_eq_some h
    refine .inl ⟨coalesceWrite clk e row, ?_, ht, fun hstatus => ?_, .inl rfl⟩
    · rw [hrows]
      exact Outbox.mem_update hmem
    · have hold : row.status = .succeeded := hstatus
      simp [hold, JobStatus.waiting] at hwaiting
  | @requeued row hforce h =>
    obtain ⟨hmem, -, ht⟩ := eventId_of_findKey? h
    refine .inl ⟨requeueJobWrite cfg clk e row, ?_, ht, by simp [requeueJobWrite], .inl rfl⟩
    rw [hrows]
    exact Outbox.mem_update hmem
  | @existing row hforce hcandidate h =>
    obtain ⟨hmem, -, ht⟩ := eventId_of_findKey? h
    have hsame := hkeyed hforce hcandidate row h
    -- a row that succeeded was delivered; any other one still carries the event
    by_cases hstatus : row.status = .succeeded
    · exact .inr (.inl ⟨_, delivered_mono (hsound.succeeded row hmem hstatus), ht, hsame⟩)
    · refine .inl ⟨row, ?_, ht, hstatus, hsame⟩
      rw [hrows]
      exact hmem
  | inserted hcandidate h =>
    refine .inl ⟨newJob cfg clk s.outbox.nextId (effectiveEventId drawn e) e t, ?_, rfl, ?_,
      .inl rfl⟩
    · rw [hrows]
      exact Outbox.mem_insert_self _ _ rfl h
    · simp [newJob]

def Orderly (owner : String → String × String) (s : OutboxState π) (op : OutboxOp π) : Prop :=
  SuccessMatches s op ∧ Owned owner op

instance [DecidableEq π] (owner : String → String × String) (s : OutboxState π)
    (op : OutboxOp π) : Decidable (Orderly owner s op) :=
  inferInstanceAs (Decidable (_ ∧ _))

/-- **An enqueued event stays on its way until it is given up**: it is outstanding, was delivered,
or was replaced by a later event of the file. -/
theorem enqueued_onItsWay {clk : Clock} {force : Bool} {drawn : String}
    {pre post : List (OutboxOp π)}
    (hops : Along (outboxStep cfg) (Orderly owner) .empty
      (pre ++ .enqueue clk force drawn e t :: post))
    (hkeyed : KeyedRow cfg clk force drawn e t (run (outboxStep cfg) .empty pre).outbox) :
    let base := run (outboxStep cfg) .empty (pre ++ [.enqueue clk force drawn e t])
    let s := run (outboxStep cfg) base post
    OnItsWay t e base s ∨ GivenUp t e base s := by
  intro base s
  refine Accounted.onItsWay_or_givenUp ?_
  rw [along_append, along_cons] at hops
  obtain ⟨hpre, hcall, hpost⟩ := hops
  -- the invariants of the table hold at the call and are kept along the run
  have hsound : DeliverySound (run (outboxStep cfg) .empty pre) :=
    Along.invariant (fun s op hs hop => hs.step hop.1) .empty hpre
  have hrows : RowsOwned owner (run (outboxStep cfg) .empty pre) :=
    Along.invariant (fun s op hs hop => hs.step hop.2) (by simp [RowsOwned, OutboxState.empty]) hpre
  have hbase : base = outboxStep cfg (run (outboxStep cfg) .empty pre)
      (.enqueue clk force drawn e t) := by simp [base]
  let Inv (s : OutboxState π) : Prop :=
    DeliverySound s ∧ RowsOwned owner s ∧ Continues base s ∧ Accounted t e base s
  have hInv : Inv base := by
    refine ⟨?_, ?_, ⟨List.prefix_rfl, List.prefix_rfl⟩, ?_⟩
    · rw [hbase]
      exact hsound.step hcall.1
    · rw [hbase]
      exact hrows.step hcall.2
    · rw [hbase]
      exact accounted_enqueue hsound hkeyed
  rw [← hbase] at hpost
  have hs : Inv s := by
    refine Along.invariant (fun s op hs hop => ?_) hInv hpost
    obtain ⟨hsound, hrows, hcont, haccounted⟩ := hs
    exact ⟨hsound.step hop.1, hrows.step hop.2, hcont.step,
      haccounted.step hsound hrows hcall.2.event hop.2 hop.1 hcont⟩
  exact hs.2.2.2

/-! ### An event that failed for good -/

theorem enqueued_onItsWay_coalesced :
    let base := run (outboxStep .default) .empty
      ([.enqueue tick false "" (plainEvent "e1" "a.md") .qdrant] ++
        [.enqueue tick false "" (plainEvent "e2" "a.md") .qdrant])
    let s := run (outboxStep .default) base
      [.claim tick 0 24 none none, .deliver 0 1, .markSuccess tick 0 1]
    OnItsWay .qdrant (plainEvent "e2" "a.md") base s ∨
      GivenUp .qdrant (plainEvent "e2" "a.md") base s := by
  have horderly : Along (outboxStep .default) (Orderly fun _ => ("docs", "a.md")) .empty
      ([.enqueue tick false "" (plainEvent "e1" "a.md") .qdrant] ++
        .enqueue tick false "" (plainEvent "e2" "a.md") .qdrant ::
          [.claim tick 0 24 none none, .deliver 0 1, .markSuccess tick 0 1]) := by decide
  exact enqueued_onItsWay horderly fun _ h => absurd h (by decide)

def failedBacklog : List (OutboxOp Unit) :=
  [.enqueue tick false "" (plainEvent "e1" "a.md") .letta, .failLetta tick "disabled"]

/-- Enqueued again without force, the event counts as existing and its failed row is left alone. -/
theorem failed_left_alone :
    let s := run (outboxStep .default) .empty failedBacklog
    let base := outboxStep .default s (.enqueue tick false "" (plainEvent "e1" "a.md") .letta)
    (enqueueFanoutOutbox .default tick false "" (plainEvent "e1" "a.md") [.letta]
        s.outbox).2.existing = 1 ∧
      ¬ OnItsWay .letta (plainEvent "e1" "a.md") base base := by
  unfold OnItsWay ReplacedSince
  decide

end ContextLattice
