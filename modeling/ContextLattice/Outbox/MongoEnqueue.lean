import ContextLattice.Outbox.System

/-!
# Enqueueing in Mongo, one operation at a time

In Mongo `enqueue_fanout_outbox` makes up to four operations for each target, any of which may
raise, with or without effect. The insertion stands in a `try` whose handler takes **every**
exception for a duplicate key.
-/

namespace ContextLattice

open Foundation List

variable {π : Type*}

/-! ### The call -/

structure EnqueueCall (π : Type*) where
  clk : Clock
  force : Bool
  drawn : String
  event : FanoutEvent π

/-- How an operation ends: with its result, or with an exception; `applied` is whether it took
effect nevertheless. -/
inductive MongoAnswer where
  | done
  | raised (applied : Bool)
deriving DecidableEq

inductive MongoPoint where
  | candidate
  | coalesce (id : ℕ)
  | lookup
  | requeue (id : ℕ)
  | insert
deriving DecidableEq

inductive Settlement where
  | coalesced | existing | requeued | inserted
  | duplicate
  | swallowed
deriving DecidableEq

def Settlement.countsExisting : Settlement → Bool
  | existing | requeued | duplicate | swallowed => true
  | coalesced | inserted => false

def Settlement.count (target : FanoutTarget) (n : EnqueueResult) : Settlement → EnqueueResult
  | coalesced =>
    { n with
      coalesced := n.coalesced + 1
      coalescedByTarget := n.coalescedByTarget.set target
        ((n.coalescedByTarget.get? target).getD 0 + 1) }
  | existing | duplicate | swallowed => { n with existing := n.existing + 1 }
  | requeued => { n with existing := n.existing + 1, requeued := n.requeued + 1 }
  | inserted => { n with inserted := n.inserted + 1 }

structure MongoCall (π : Type*) where
  outbox : Outbox π
  todo : List FanoutTarget
  point : MongoPoint
  raised : Bool := false
  result : EnqueueResult := {}
  settled : List (FanoutTarget × Settlement) := []

def MongoCall.Returned (s : MongoCall π) : Prop := s.raised = false ∧ s.todo = []

/-- An operation of the call, or one of another writer: an update that keeps the identity of the
rows, an insertion, or a deletion. -/
inductive MongoOp (π : Type*) where
  | call (answer : MongoAnswer)
  | update (p : OutboxRow π → Bool) (f : OutboxRow π → OutboxRow π)
      (hf : ∀ r, (f r).toRowIdent = r.toRowIdent)
  | insert (row : ℕ → OutboxRow π) (hid : ∀ i, (row i).id = i)
  | delete (p : OutboxRow π → Bool)

section

variable (cfg : OutboxConfig) (req : EnqueueCall π)

namespace EnqueueCall

def eventId : String := effectiveEventId req.drawn req.event

def coalesces (target : FanoutTarget) : Bool :=
  !req.force && decide (req.event.project ≠ "") && decide (req.event.file ≠ "") &&
    fanoutCoalescerActiveForTarget cfg target

def firstPoint : List FanoutTarget → MongoPoint
  | [] => .lookup
  | target :: _ => if req.coalesces cfg target then .candidate else .lookup

theorem firstPoint_ne (targets : List FanoutTarget) (i : ℕ) :
    req.firstPoint cfg targets ≠ .coalesce i := by
  unfold firstPoint
  split
  · exact MongoPoint.noConfusion
  · split <;> exact MongoPoint.noConfusion

def coalesceSelects (i : ℕ) (r : OutboxRow π) : Bool := decide (r.id = i) && r.status.waiting

def coalesceRow (i : ℕ) (ob : Outbox π) : Outbox π :=
  ob.updateWhere (coalesceSelects i) (coalesceWrite req.clk req.event) fun _ => rfl

def requeueRow (i : ℕ) (ob : Outbox π) : Outbox π :=
  ob.update i (requeueJobWrite cfg req.clk req.event) fun _ => rfl

def insertRow (target : FanoutTarget) (ob : Outbox π) : Outbox π :=
  ob.insert (newJob cfg req.clk ob.nextId req.eventId req.event target) rfl

end EnqueueCall

end

/-! ### A row for a target -/

section

variable (req : EnqueueCall π)

def EnqueueCall.HasRow (ob : Outbox π) (target : FanoutTarget) : Prop :=
  ∃ r ∈ ob.rows, (r.target = target ∧ r.payload = req.event) ∨
    r.dedupeKey = dedupeKeyOf req.eventId target

variable {req} {ob ob' : Outbox π} {target : FanoutTarget}

inductive EnqueueCall.OwnWrite (req : EnqueueCall π) (ob : Outbox π) : Outbox π → Prop
  | none : OwnWrite req ob ob
  | update {p : OutboxRow π → Bool} {f : OutboxRow π → OutboxRow π}
      (hf : ∀ r, (f r).toRowIdent = r.toRowIdent) (h : ∀ r, (f r).payload = req.event) :
      OwnWrite req ob (ob.updateWhere p f hf)
  | insert {row : OutboxRow π} {hid : row.id = ob.nextId} : OwnWrite req ob (ob.insert row hid)

theorem EnqueueCall.OwnWrite.ite {applied : Bool} (h : req.OwnWrite ob ob') :
    req.OwnWrite ob (if applied then ob' else ob) := by
  split
  · exact h
  · exact .none

theorem EnqueueCall.HasRow.write (h : req.HasRow ob target) (hwrite : req.OwnWrite ob ob') :
    req.HasRow ob' target := by
  obtain ⟨r, hr, hrow⟩ := h
  cases hwrite with
  | none => exact ⟨r, hr, hrow⟩
  | update hf hpayload =>
    refine ⟨_, Outbox.mem_updateWhere.mpr ⟨r, hr, rfl⟩, ?_⟩
    split
    · refine hrow.imp (fun h => ⟨?_, hpayload r⟩) fun hkey => ?_
      · exact (congrArg RowIdent.target (hf r)).trans h.1
      · exact (congrArg RowIdent.dedupeKey (hf r)).trans hkey
    · exact hrow
  | insert => exact ⟨r, Outbox.mem_insert_of_mem hr, hrow⟩

theorem EnqueueCall.hasRow_insertRow (cfg : OutboxConfig) (req : EnqueueCall π) (ob : Outbox π)
    (target : FanoutTarget) : req.HasRow (req.insertRow cfg target ob) target := by
  rcases hkey : ob.findKey? (dedupeKeyOf req.eventId target) with _ | r
  · exact ⟨_, Outbox.mem_insert_self _ _ _ hkey, .inr rfl⟩
  · obtain ⟨hr, hkey⟩ := Outbox.findKey?_eq_some hkey
    exact ⟨r, Outbox.mem_insert_of_mem hr, .inr hkey⟩

theorem EnqueueCall.ownWrite_requeueRow (cfg : OutboxConfig) (req : EnqueueCall π) (ob : Outbox π)
    (i : ℕ) : req.OwnWrite ob (req.requeueRow cfg i ob) :=
  .update (f := requeueJobWrite cfg req.clk req.event) (fun _ => rfl) fun _ => rfl

theorem EnqueueCall.hasRow_requeueRow_iff (cfg : OutboxConfig) (i : ℕ) :
    req.HasRow (req.requeueRow cfg i ob) target ↔
      (∃ r ∈ ob.rows, r.id = i ∧ r.target = target) ∨ req.HasRow ob target := by
  constructor
  · rintro ⟨r', hr', hrow⟩
    rw [requeueRow] at hr'
    obtain ⟨r, hr, rfl⟩ := Outbox.mem_updateWhere.mp hr'
    split at hrow
    · rename_i hid
      exact hrow.imp (fun h => ⟨r, hr, of_decide_eq_true hid, h.1⟩) fun hkey => ⟨r, hr, .inr hkey⟩
    · exact .inr ⟨r, hr, hrow⟩
  · rintro (⟨r, hr, rfl, htarget⟩ | h)
    · exact ⟨_, Outbox.mem_update hr, .inl ⟨htarget, rfl⟩⟩
    · exact h.write (ownWrite_requeueRow cfg req ob i)

end

/-! ### The operations -/

section

variable (cfg : OutboxConfig) (req : EnqueueCall π)

namespace MongoCall

def start (ob : Outbox π) (targets : List FanoutTarget) : MongoCall π where
  outbox := ob
  todo := targets
  point := req.firstPoint cfg targets

def settle (s : MongoCall π) (target : FanoutTarget) (rest : List FanoutTarget)
    (how : Settlement) : MongoCall π :=
  { s with
    todo := rest
    point := req.firstPoint cfg rest
    result := how.count target s.result
    settled := s.settled ++ [(target, how)] }

end MongoCall

def MongoCall.Reported (s : MongoCall π) : Prop :=
  ∀ e ∈ s.settled, req.HasRow s.outbox e.1 ∧ e.2 ≠ .swallowed

section

variable {cfg} {req} {s : MongoCall π} {ob' : Outbox π} {target : FanoutTarget}

theorem MongoCall.reported_settle_iff {rest : List FanoutTarget} {how : Settlement} :
    (s.settle cfg req target rest how).Reported req ↔
      s.Reported req ∧ req.HasRow s.outbox target ∧ how ≠ .swallowed := by
  refine ⟨fun h => ⟨fun e he => ?_, ?_⟩, fun h e he => ?_⟩
  · exact h e (mem_append_left _ he)
  · exact h (target, how) (mem_append_right _ (mem_singleton_self _))
  · rcases mem_append.mp he with he | he
    · exact h.1 e he
    · obtain rfl := mem_singleton.mp he
      exact h.2

theorem MongoCall.Reported.write (h : s.Reported req) (hwrite : req.OwnWrite s.outbox ob') :
    ({ s with outbox := ob' } : MongoCall π).Reported req :=
  fun e he => ⟨(h e he).1.write hwrite, (h e he).2⟩

end

variable [DecidableEq π]

def EnqueueCall.modifies (i : ℕ) (ob : Outbox π) : Bool :=
  ob.rows.any fun r => EnqueueCall.coalesceSelects i r &&
    decide (coalesceWrite req.clk req.event r ≠ r)

namespace MongoCall

def operate (s : MongoCall π) (target : FanoutTarget) (rest : List FanoutTarget) :
    MongoPoint → MongoAnswer → MongoCall π
  | .candidate, .done =>
    { s with
      point := match coalesceCandidate cfg req.clk req.force req.event target s.outbox with
        | some row => .coalesce row.id
        | none => .lookup }
  | .coalesce i, .done =>
    if req.modifies i s.outbox then
      { s with outbox := req.coalesceRow i s.outbox }.settle cfg req target rest .coalesced
    else { s with point := .lookup }
  | .lookup, .done =>
    match s.outbox.findKey? (dedupeKeyOf req.eventId target) with
    | some row =>
      if req.force then { s with point := .requeue row.id }
      else s.settle cfg req target rest .existing
    | none => { s with point := .insert }
  | .requeue i, .done =>
    { s with outbox := req.requeueRow cfg i s.outbox }.settle cfg req target rest .requeued
  | .insert, .done =>
    { s with outbox := req.insertRow cfg target s.outbox }.settle cfg req target rest
      (if s.outbox.findKey? (dedupeKeyOf req.eventId target) = none then .inserted
        else .duplicate)
  | .insert, .raised applied =>
    -- the handler of the insertion takes any error for a duplicate
    { s with
      outbox := if applied then req.insertRow cfg target s.outbox else s.outbox }.settle
        cfg req target rest .swallowed
  | .coalesce i, .raised applied =>
    { s with
      raised := true
      outbox := if applied then req.coalesceRow i s.outbox else s.outbox }
  | .requeue i, .raised applied =>
    { s with
      raised := true
      outbox := if applied then req.requeueRow cfg i s.outbox else s.outbox }
  | .candidate, .raised _ | .lookup, .raised _ => { s with raised := true }

end MongoCall

def mongoStep (s : MongoCall π) : MongoOp π → MongoCall π
  | .call answer =>
    match s.raised, s.todo with
    | false, target :: rest => s.operate cfg req target rest s.point answer
    | _, _ => s
  | .update p f hf => { s with outbox := s.outbox.updateWhere p f hf }
  | .insert row hid => { s with outbox := s.outbox.insert (row s.outbox.nextId) (hid _) }
  | .delete p => { s with outbox := s.outbox.deleteWhere p }

/-! ### A row for every target -/

/-- An insertion does not raise, unless it is refused for its key, and the row of a forced requeue
is still there, or another one for the target. -/
def EnqueueCall.Answered (req : EnqueueCall π) (ob : Outbox π) (target : FanoutTarget) :
    MongoPoint → MongoAnswer → Prop
  | .insert, answer => answer = .done
  | .requeue i, .done => (∃ r ∈ ob.rows, r.id = i ∧ r.target = target) ∨ req.HasRow ob target
  | _, _ => True

def ReportsErrors (s : MongoCall π) : MongoOp π → Prop
  | .call answer => s.raised = false → ∀ target ∈ s.todo.head?,
    req.Answered s.outbox target s.point answer
  | op => ∀ e ∈ s.settled, req.HasRow (mongoStep cfg req s op).outbox e.1

variable {cfg} {req} {s : MongoCall π} {ob ob' : Outbox π} {target : FanoutTarget}

def MongoCall.PointSound (s : MongoCall π) : Prop :=
  s.raised = false → ∀ i, s.point = .coalesce i → i < s.outbox.nextId ∧
    ∀ target ∈ s.todo.head?, ∀ r ∈ s.outbox.rows, r.id = i → r.target = target

theorem EnqueueCall.hasRow_coalesceRow {i : ℕ} (hmodified : req.modifies i ob = true)
    (hsound : ∀ r ∈ ob.rows, r.id = i → r.target = target) :
    req.HasRow (req.coalesceRow i ob) target := by
  obtain ⟨r, hr, hselects⟩ := any_eq_true.mp hmodified
  rw [Bool.and_eq_true] at hselects
  refine ⟨coalesceWrite req.clk req.event r, ?_, .inl ⟨?_, rfl⟩⟩
  · exact Outbox.mem_updateWhere.mpr ⟨r, hr, by rw [if_pos hselects.1]⟩
  · simp only [coalesceSelects, Bool.and_eq_true, decide_eq_true_eq] at hselects
    exact hsound r hr hselects.1.1

/-- **Step lemma.** An operation for a target keeps what was reported exactly if it is answered as
`Answered` says. -/
theorem MongoCall.reported_operate_iff (hs : s.Reported req) (rest : List FanoutTarget)
    (point : MongoPoint) (answer : MongoAnswer)
    (hsound : ∀ i, point = .coalesce i → ∀ r ∈ s.outbox.rows, r.id = i → r.target = target) :
    (s.operate cfg req target rest point answer).Reported req ↔
      req.Answered s.outbox target point answer := by
  cases point with
  | candidate => cases answer <;> exact iff_of_true hs trivial
  | coalesce i =>
    refine iff_of_true ?_ trivial
    have hwrite : req.OwnWrite s.outbox (req.coalesceRow i s.outbox) :=
      .update (f := coalesceWrite req.clk req.event) (fun _ => rfl) fun _ => rfl
    cases answer with
    | done =>
      simp only [operate]
      split
      · rename_i hmodified
        refine reported_settle_iff.mpr ⟨hs.write hwrite, ?_, Settlement.noConfusion⟩
        exact EnqueueCall.hasRow_coalesceRow hmodified (hsound i rfl)
      · exact hs
    | raised applied => exact hs.write hwrite.ite
  | lookup =>
    refine iff_of_true ?_ trivial
    cases answer with
    | done =>
      simp only [operate]
      split
      · rename_i row hkey
        obtain ⟨hrow, hkey⟩ := Outbox.findKey?_eq_some hkey
        split
        · exact hs
        · exact reported_settle_iff.mpr ⟨hs, ⟨row, hrow, .inr hkey⟩, Settlement.noConfusion⟩
      · exact hs
    | raised applied => exact hs
  | requeue i =>
    have hwrite := EnqueueCall.ownWrite_requeueRow cfg req s.outbox i
    cases answer with
    | done =>
      rw [EnqueueCall.Answered, ← EnqueueCall.hasRow_requeueRow_iff cfg]
      refine reported_settle_iff.trans ⟨fun h => h.2.1, fun h => ?_⟩
      exact ⟨hs.write hwrite, h, Settlement.noConfusion⟩
    | raised applied => exact iff_of_true (hs.write hwrite.ite) trivial
  | insert =>
    cases answer with
    | done =>
      refine iff_of_true (reported_settle_iff.mpr ⟨hs.write .insert, ?_, ?_⟩) rfl
      · exact EnqueueCall.hasRow_insertRow cfg req s.outbox target
      · split <;> exact Settlement.noConfusion
    | raised applied =>
      refine iff_of_false (fun h => ?_) MongoAnswer.noConfusion
      exact (reported_settle_iff.mp h).2.2 rfl

theorem MongoCall.operate_cases (cfg : OutboxConfig) (req : EnqueueCall π) (s : MongoCall π)
    (target : FanoutTarget) (rest : List FanoutTarget) (point : MongoPoint)
    (answer : MongoAnswer) :
    (∃ ob point' raised, s.operate cfg req target rest point answer =
        { s with outbox := ob, point := point', raised := raised }) ∨
      ∃ ob how, s.operate cfg req target rest point answer =
        ({ s with outbox := ob } : MongoCall π).settle cfg req target rest how := by
  cases point with
  | candidate => cases answer <;> exact .inl ⟨_, _, _, rfl⟩
  | coalesce i =>
    cases answer with
    | done =>
      simp only [operate]
      split
      · exact .inr ⟨_, _, rfl⟩
      · exact .inl ⟨_, _, _, rfl⟩
    | raised applied => exact .inl ⟨_, _, _, rfl⟩
  | lookup =>
    cases answer with
    | done =>
      simp only [operate]
      split
      · split
        · exact .inl ⟨_, _, _, rfl⟩
        · exact .inr ⟨s.outbox, _, rfl⟩
      · exact .inl ⟨_, _, _, rfl⟩
    | raised applied => exact .inl ⟨_, _, _, rfl⟩
  | requeue i =>
    cases answer with
    | done => exact .inr ⟨_, _, rfl⟩
    | raised applied => exact .inl ⟨_, _, _, rfl⟩
  | insert => cases answer <;> exact .inr ⟨_, _, rfl⟩

structure MongoCall.Counted (targets : List FanoutTarget) (s : MongoCall π) : Prop where
  through : s.settled.map Prod.fst ++ s.todo = targets
  existing : s.result.existing = s.settled.countP fun e => e.2.countsExisting

theorem MongoCall.Counted.step {targets : List FanoutTarget} (hs : s.Counted targets)
    (op : MongoOp π) : (mongoStep cfg req s op).Counted targets := by
  cases op with
  | call answer =>
    simp only [mongoStep]
    split
    · rename_i target rest hraised htodo
      rcases operate_cases cfg req s target rest s.point answer with
        ⟨ob, point, raised, heq⟩ | ⟨ob, how, heq⟩
      · rw [heq]
        exact ⟨hs.through, hs.existing⟩
      · rw [heq]
        refine ⟨?_, ?_⟩
        · simpa [settle, htodo] using hs.through
        · have hexisting := hs.existing
          cases how <;> simp [settle, Settlement.count, Settlement.countsExisting, hexisting]
    · exact hs
  | _ => exact ⟨hs.through, hs.existing⟩

theorem MongoCall.pointSound_operate {rest : List FanoutTarget} (htodo : s.todo = target :: rest)
    (point : MongoPoint) (answer : MongoAnswer) :
    (s.operate cfg req target rest point answer).PointSound := by
  intro hlive i hi
  cases point with
  | candidate =>
    cases answer with
    | done =>
      simp only [operate] at hi ⊢
      split at hi
      · rename_i row hcandidate
        obtain ⟨hrow, htarget, -⟩ := coalesceCandidate_eq_some hcandidate
        obtain rfl := MongoPoint.coalesce.inj hi
        refine ⟨s.outbox.id_lt row hrow, fun t ht r hr hid => ?_⟩
        rw [Table.eq_of_mem_of_key hr hrow hid, htarget]
        simpa [htodo] using ht
      · cases hi
    | raised applied => cases hlive
  | coalesce j =>
    cases answer with
    | done =>
      simp only [operate] at hi
      split at hi
      · exact absurd hi (req.firstPoint_ne cfg rest i)
      · cases hi
    | raised applied => cases hlive
  | lookup =>
    cases answer with
    | done =>
      simp only [operate] at hi
      split at hi
      · split at hi
        · cases hi
        · exact absurd hi (req.firstPoint_ne cfg rest i)
      · cases hi
    | raised applied => cases hlive
  | requeue j =>
    cases answer with
    | done => exact absurd hi (req.firstPoint_ne cfg rest i)
    | raised applied => cases hlive
  | insert => cases answer <;> exact absurd hi (req.firstPoint_ne cfg rest i)

theorem MongoCall.PointSound.step (hs : s.PointSound) (op : MongoOp π) :
    (mongoStep cfg req s op).PointSound := by
  cases op with
  | call answer =>
    simp only [mongoStep]
    split
    · exact pointSound_operate ‹_› s.point answer
    · exact hs
  | update p f hf =>
    intro hlive i hi
    obtain ⟨hlt, hsound⟩ := hs hlive i hi
    refine ⟨hlt, fun t ht r' hr' hid => ?_⟩
    have hr' : r' ∈ (s.outbox.updateWhere p f hf).rows := hr'
    obtain ⟨r, hr, rfl⟩ := Outbox.mem_updateWhere.mp hr'
    split at hid
    · rename_i hp
      rw [if_pos hp, congrArg RowIdent.target (hf r)]
      exact hsound t ht r hr ((congrArg RowIdent.id (hf r)).symm.trans hid)
    · rename_i hp
      rw [if_neg hp]
      exact hsound t ht r hr hid
  | insert row hid =>
    intro hlive i hi
    obtain ⟨hlt, hsound⟩ := hs hlive i hi
    refine ⟨hlt.trans_le (Outbox.nextId_le_insert ..), fun t ht r hr hrid => ?_⟩
    rcases Outbox.mem_or_eq_of_mem_insert hr with hr | rfl
    · exact hsound t ht r hr hrid
    · exact absurd (hrid.symm.trans (hid _)) hlt.ne
  | delete p =>
    intro hlive i hi
    obtain ⟨hlt, hsound⟩ := hs hlive i hi
    exact ⟨hlt, fun t ht r hr hid => hsound t ht r (Outbox.mem_deleteWhere.mp hr).1 hid⟩

theorem MongoCall.reported_step_iff (hsound : s.PointSound) (hs : s.Reported req)
    (op : MongoOp π) : (mongoStep cfg req s op).Reported req ↔ ReportsErrors cfg req s op := by
  cases op with
  | call answer =>
    simp only [mongoStep, ReportsErrors]
    split
    · rename_i target rest hraised htodo
      rw [htodo, hraised]
      simp only [List.head?_cons, Option.mem_some_iff, forall_eq', true_implies]
      refine reported_operate_iff hs rest s.point answer fun i hi r hr hid => ?_
      exact (hsound hraised i hi).2 target (by rw [htodo]; rfl) r hr hid
    · rename_i hhalted
      refine iff_of_true hs fun hraised target htarget => ?_
      obtain ⟨rest, htodo⟩ := List.head?_eq_some_iff.mp htarget
      exact absurd htodo (hhalted target rest hraised)
  | _ =>
    refine ⟨fun h e he => (h e he).1, fun h e he => ⟨h e he, (hs e he).2⟩⟩

/-- **Enqueueing in Mongo reports its errors** exactly if every insertion is carried out or refused
for its key, every forced requeue leaves a row, and others keep those rows. -/
theorem mongo_enqueue_reports_iff (cfg : OutboxConfig) (req : EnqueueCall π) (ob : Outbox π)
    (targets : List FanoutTarget) (ops : List (MongoOp π)) :
    let start := MongoCall.start cfg req ob targets
    let s := run (mongoStep cfg req) start ops
    ((∀ pre post, ops = pre ++ post → (run (mongoStep cfg req) start pre).Reported req) ↔
      Along (mongoStep cfg req) (ReportsErrors cfg req) start ops) ∧
    (s.Returned → s.settled.map Prod.fst = targets) ∧
    s.result.existing = s.settled.countP fun e => e.2.countsExisting := by
  intro start s
  have hiff : ∀ (s : MongoCall π) op, s.PointSound → s.Reported req →
      ((mongoStep cfg req s op).Reported req ↔ ReportsErrors cfg req s op) :=
    fun s op hsound hs => MongoCall.reported_step_iff hsound hs op
  have hpoint : start.PointSound :=
    fun _ i hi => absurd hi (req.firstPoint_ne cfg targets i)
  have hreported : start.Reported req := fun e he => by cases he
  have hstep : ∀ (s : MongoCall π) op, s.Counted targets →
      (mongoStep cfg req s op).Counted targets := fun s op hs => hs.step op
  have hcounted : s.Counted targets := run_invariant hstep ⟨rfl, rfl⟩ ops
  refine ⟨forall_run_iff_along hiff (fun s op hs _ => hs.step op) hpoint hreported,
    fun hreturned => ?_, hcounted.existing⟩
  simpa [hreturned.2] using hcounted.through

end

/-! ### An insertion that fails -/

def plainEnqueue : EnqueueCall Unit :=
  ⟨.frozen "10:00:00Z", false, "", ⟨"e1", "app", "a.md", "note", "", [], ()⟩⟩

def lostInsertion : List (MongoOp Unit) :=
  [.call .done, .call .done, .call (.raised false)]

/-- **A swallowed error.** The call returns and counts the target as existing; the collection is
empty. -/
theorem insert_error_swallowed :
    let s := run (mongoStep .default plainEnqueue)
      (MongoCall.start .default plainEnqueue .empty [.qdrant]) lostInsertion
    (s.raised = false ∧ s.todo = []) ∧ s.result.existing = 1 ∧ s.result.inserted = 0 ∧
      s.outbox.rows = [] := by
  decide +kernel

end ContextLattice
