import ContextLattice.Foundation.Gather
import ContextLattice.Outbox.System

/-!
# Pushing to Qdrant

`push_batch_to_qdrant` draws new point ids for every attempt, so each upsert that takes effect
**adds** points. The model remembers the event a point was made for.
-/

namespace ContextLattice

open Foundation List

variable {π : Type*}

/-! ### The push -/

structure QdrantConfig (π : Type*) extends OutboxConfig where
  qdrantCollection : String
  collectionOf : π → String

structure UpsertedPoint (π : Type*) where
  collection : String
  project : String
  file : String
  summary : String
  topicPath : Option String
  topicTags : Option (List String)
  ts : ℤ
  origin : FanoutEvent π

inductive UpsertAnswer where
  | ok
  | raised (applied otherDimension : Bool)

structure CollectionAnswer where
  prepared : Bool := true
  upsert : UpsertAnswer := .ok
  fallback : UpsertAnswer := .ok

section

variable (cfg : QdrantConfig π)

def qdrantCollectionOf (event : FanoutEvent π) : String :=
  let named := cfg.collectionOf event.rest
  let collection := strip (if named ≠ "" then named else cfg.qdrantCollection)
  if collection ≠ "" then collection else cfg.qdrantCollection

def qdrantPointPayload (ts : ℤ) (collection : String) (event : FanoutEvent π) :
    UpsertedPoint π where
  collection := collection
  project := event.project
  file := event.file
  summary := truncate 500 event.summary
  topicPath := if event.topicPath ≠ "" then some event.topicPath else none
  topicTags := if event.topicTags ≠ [] then some event.topicTags else none
  ts := ts
  origin := event

def UpsertAnswer.written (points : List (UpsertedPoint π)) : UpsertAnswer → List (UpsertedPoint π)
  | .ok | .raised true _ => points
  | .raised false _ => []

def pushCollection (ts : ℤ) (collection : String) (events : List (FanoutEvent π))
    (answer : CollectionAnswer) : List (UpsertedPoint π) × Bool :=
  -- every attempt makes points with ids of their own
  let points := events.map (qdrantPointPayload ts collection)
  if !answer.prepared then ([], false)
  else
    match answer.upsert with
    | .ok => (points, true)
    | .raised _ false => (answer.upsert.written points, false)
    | .raised _ true =>
      (answer.upsert.written points ++ answer.fallback.written points,
        match answer.fallback with
        | .ok => true
        | .raised .. => false)

def pushCollections (ts : ℤ) (answers : String → CollectionAnswer) :
    List (String × List (FanoutEvent π)) → List (UpsertedPoint π) × Bool
  | [] => ([], true)
  | (collection, events) :: groups =>
    let (points, ok) := pushCollection ts collection events (answers collection)
    if ok then
      let (more, ok') := pushCollections ts answers groups
      (points ++ more, ok')
    else (points, false)

def groupByCollection (events : List (FanoutEvent π)) : List (String × List (FanoutEvent π)) :=
  (events.map (qdrantCollectionOf cfg)).eraseDups.map fun collection =>
    (collection, events.filter fun event => decide (qdrantCollectionOf cfg event = collection))

def pushBatchToQdrant (ts : ℤ) (answers : String → CollectionAnswer)
    (events : List (FanoutEvent π)) : List (UpsertedPoint π) × Bool :=
  pushCollections ts answers (groupByCollection cfg events)

end

/-! ### How many points -/

section

def UpsertAnswer.applied : UpsertAnswer → ℕ
  | .ok | .raised true _ => 1
  | .raised false _ => 0

namespace CollectionAnswer

/-- How many upserts of the points of a collection take effect. -/
def applied (answer : CollectionAnswer) : ℕ :=
  if !answer.prepared then 0
  else
    match answer.upsert with
    | .raised _ true => answer.upsert.applied + answer.fallback.applied
    | _ => answer.upsert.applied

/-- The upsert, or after a dimension error the fallback, is acknowledged. -/
def acknowledged (answer : CollectionAnswer) : Bool :=
  answer.prepared &&
    match answer.upsert, answer.fallback with
    | .ok, _ | .raised _ true, .ok => true
    | _, _ => false

end CollectionAnswer

/-- How many upserts for a collection take effect in a push, which goes through the collections and
stops at the first that is not acknowledged. -/
def appliedTo (answers : String → CollectionAnswer) : List String → String → ℕ
  | [], _ => 0
  | c :: cs, collection =>
    (if c = collection then (answers c).applied else 0) +
      if (answers c).acknowledged then appliedTo answers cs collection else 0

variable {answers : String → CollectionAnswer} {collection : String} {cs : List String}

theorem appliedTo_of_not_mem (h : collection ∉ cs) : appliedTo answers cs collection = 0 := by
  induction cs with
  | nil => rfl
  | cons c cs ih =>
    rw [mem_cons, not_or] at h
    rw [appliedTo, if_neg (Ne.symm h.1), ih h.2]
    split <;> rfl

theorem appliedTo_le (h : cs.Nodup) :
    appliedTo answers cs collection ≤ (answers collection).applied := by
  induction cs with
  | nil => exact Nat.zero_le _
  | cons c cs ih =>
    obtain ⟨hc, hcs⟩ := nodup_cons.mp h
    have hrest := ih hcs
    rw [appliedTo]
    by_cases heq : c = collection
    · subst heq
      rw [if_pos rfl, appliedTo_of_not_mem hc]
      split <;> exact Nat.le_refl _
    · rw [if_neg heq]
      split <;> omega

theorem CollectionAnswer.one_le_applied {answer : CollectionAnswer}
    (h : answer.acknowledged = true) : 1 ≤ answer.applied := by
  obtain ⟨_ | _, _ | ⟨_ | _, _ | _⟩, _ | _⟩ := answer <;>
    simp_all [CollectionAnswer.acknowledged, CollectionAnswer.applied, UpsertAnswer.applied]

theorem one_le_appliedTo (hall : ∀ c ∈ cs, (answers c).acknowledged = true) (h : collection ∈ cs) :
    1 ≤ appliedTo answers cs collection := by
  induction cs with
  | nil => cases h
  | cons c cs ih =>
    obtain ⟨hc, hcs⟩ := forall_mem_cons.mp hall
    rw [appliedTo, hc, if_pos rfl]
    rcases mem_cons.mp h with rfl | h
    · have hone := CollectionAnswer.one_le_applied hc
      rw [if_pos rfl]
      omega
    · have hone := ih hcs h
      omega

variable {cfg : QdrantConfig π} (ts : ℤ) (events : List (FanoutEvent π)) {event : FanoutEvent π}

theorem acknowledged_pushCollection (collection : String) (answer : CollectionAnswer) :
    (pushCollection ts collection events answer).2 = answer.acknowledged := by
  obtain ⟨_ | _, _ | ⟨_, _ | _⟩, _ | _⟩ := answer <;> rfl

theorem acknowledged_pushCollections (mine : String → List (FanoutEvent π)) (cs : List String) :
    (pushCollections ts answers (cs.map fun c => (c, mine c))).2 =
      cs.all fun c => (answers c).acknowledged := by
  induction cs with
  | nil => rfl
  | cons c cs ih =>
    have hack := acknowledged_pushCollection ts (mine c) c (answers c)
    rw [map_cons, pushCollections, all_cons]
    cases hok : (answers c).acknowledged with
    | false => simp [hack, hok]
    | true => simp [hack, hok, ih]

variable [DecidableEq π]

def qdrantCollections (cfg : QdrantConfig π) (events : List (FanoutEvent π)) : List String :=
  (events.map (qdrantCollectionOf cfg)).eraseDups

theorem countP_written (collection : String) (answer : UpsertAnswer) :
    (answer.written (events.map (qdrantPointPayload ts collection))).countP
      (fun p => decide (p.origin = event)) = answer.applied * events.count event := by
  have hall : (events.map (qdrantPointPayload ts collection)).countP
      (fun p => decide (p.origin = event)) = events.count event := by
    rw [countP_map, count]
    exact countP_congr fun e _ => by simp [qdrantPointPayload]
  rcases answer with _ | ⟨_ | _, otherDimension⟩
  · rw [UpsertAnswer.written, hall, UpsertAnswer.applied, Nat.one_mul]
  · rw [UpsertAnswer.applied, Nat.zero_mul]
    rfl
  · rw [UpsertAnswer.written, hall, UpsertAnswer.applied, Nat.one_mul]

theorem countP_pushCollection (collection : String) (answer : CollectionAnswer) :
    (pushCollection ts collection events answer).1.countP (fun p => decide (p.origin = event)) =
      answer.applied * events.count event := by
  obtain ⟨prepared, upsert, fallback⟩ := answer
  cases prepared with
  | false => simp [pushCollection, CollectionAnswer.applied]
  | true =>
    rcases upsert with _ | ⟨applied, _ | _⟩
    · exact countP_written ts events collection .ok
    · exact countP_written ts events collection (.raised applied false)
    · simp only [pushCollection, CollectionAnswer.applied, Bool.not_true, Bool.false_eq_true,
        if_false, countP_append, countP_written, Nat.add_mul]

theorem countP_pushCollections (cs : List String) :
    (pushCollections ts answers (cs.map fun c => (c, events.filter fun e =>
        decide (qdrantCollectionOf cfg e = c)))).1.countP (fun p => decide (p.origin = event)) =
      appliedTo answers cs (qdrantCollectionOf cfg event) * events.count event := by
  induction cs with
  | nil => simp [pushCollections, appliedTo]
  | cons c cs ih =>
    generalize hmine : (events.filter fun e => decide (qdrantCollectionOf cfg e = c)) = mine
    have hcount : mine.count event =
        if c = qdrantCollectionOf cfg event then events.count event else 0 := by
      subst hmine
      split
      · rename_i hc
        exact count_filter (by simp [hc])
      · rename_i hc
        exact count_eq_zero.mpr fun hmem => hc (of_decide_eq_true (mem_filter.mp hmem).2).symm
    have hfirst : (pushCollection ts c mine (answers c)).1.countP
        (fun p => decide (p.origin = event)) =
          (if c = qdrantCollectionOf cfg event then (answers c).applied else 0) *
            events.count event := by
      rw [countP_pushCollection, hcount]
      split <;> simp
    have hack := acknowledged_pushCollection ts mine c (answers c)
    rw [map_cons, hmine, pushCollections, appliedTo]
    cases hok : (answers c).acknowledged with
    | false => simp [hack, hok, hfirst]
    | true => simp [hack, hok, hfirst, countP_append, ih, Nat.add_mul]

theorem countP_pushBatchToQdrant (cfg : QdrantConfig π) (ts : ℤ)
    (answers : String → CollectionAnswer) (events : List (FanoutEvent π)) (event : FanoutEvent π) :
    (pushBatchToQdrant cfg ts answers events).1.countP (fun p => decide (p.origin = event)) =
      appliedTo answers (qdrantCollections cfg events) (qdrantCollectionOf cfg event) *
        events.count event :=
  countP_pushCollections ts events _

end

theorem run_deliver (cfg : OutboxConfig) (worker : ℕ) (ids : List ℕ) (s : OutboxState π) :
    (run (outboxStep cfg) s (ids.map (.deliver worker))).outbox = s.outbox ∧
      ∀ h ∈ (run (outboxStep cfg) s (ids.map (.deliver worker))).held,
        ∃ h₀ ∈ s.held, h.job = h₀.job ∧ (h.delivered = true →
          h₀.delivered = true ∨ h₀.worker = worker ∧ h₀.job.id ∈ ids) := by
  induction ids generalizing s with
  | nil => exact ⟨rfl, fun h hh => ⟨h, hh, rfl, .inl⟩⟩
  | cons i ids ih =>
    obtain ⟨houtbox, hheld⟩ := ih (outboxStep cfg s (.deliver worker i))
    refine ⟨houtbox, fun h hh => ?_⟩
    obtain ⟨h₁, hh₁, hjob, hpushed⟩ := hheld h hh
    obtain ⟨h₀, hh₀, rfl⟩ := mem_map.mp hh₁
    refine ⟨h₀, hh₀, ?_⟩
    by_cases hit : h₀.isJob worker i = true
    · rw [if_pos hit] at hjob
      simp only [HeldJob.isJob, decide_eq_true_eq] at hit
      exact ⟨hjob, fun _ => .inr ⟨hit.1, by simp [hit.2]⟩⟩
    · rw [if_neg hit] at hjob hpushed
      refine ⟨hjob, fun hdelivered => (hpushed hdelivered).imp_right fun h => ⟨h.1, ?_⟩⟩
      exact mem_cons_of_mem _ h.2

/-! ### The outbox and the points -/

structure QdrantState (π : Type*) where
  sys : OutboxState π
  points : List (UpsertedPoint π) := []

inductive QdrantOp (π : Type*) where
  | step (op : OutboxOp π)
  | push (worker : ℕ) (ids : List ℕ) (ts : ℤ) (answers : String → CollectionAnswer)

def QdrantState.empty : QdrantState π := { sys := .empty }

section

variable (cfg : QdrantConfig π)

namespace QdrantState

def batch (s : QdrantState π) (worker : ℕ) (ids : List ℕ) : List (HeldJob π) :=
  s.sys.held.filter fun h =>
    decide (h.worker = worker ∧ h.job.id ∈ ids ∧ h.job.target = .qdrant)

def deliversQdrant (s : QdrantState π) : OutboxOp π → Bool
  | .deliver w i => s.sys.held.any fun h => h.isJob w i && decide (h.job.target = .qdrant)
  | _ => false

def count [DecidableEq π] (s : QdrantState π) (event : FanoutEvent π) : ℕ :=
  s.points.countP fun p => decide (p.origin = event)

end QdrantState

def qdrantStep (s : QdrantState π) : QdrantOp π → QdrantState π
  | .step op =>
    if s.deliversQdrant op then s else { s with sys := outboxStep cfg.toOutboxConfig s.sys op }
  | .push worker ids ts answers =>
    let jobs := s.batch worker ids
    let (points, ok) := pushBatchToQdrant cfg ts answers (jobs.map fun h => h.job.payload)
    { sys := if ok then run (outboxStep cfg.toOutboxConfig) s.sys
        ((jobs.map fun h => h.job.id).map (.deliver worker)) else s.sys
      points := s.points ++ points }

/-! ### What a step does -/

section

variable {cfg} {s : QdrantState π}

theorem outbox_push (s : QdrantState π) (w : ℕ) (ids : List ℕ) (ts : ℤ)
    (answers : String → CollectionAnswer) :
    (qdrantStep cfg s (.push w ids ts answers)).sys.outbox = s.sys.outbox := by
  simp only [qdrantStep]
  split
  · exact (run_deliver ..).1
  · rfl

variable {op : OutboxOp π}

theorem succeeded_cases {r' : OutboxRow π}
    (hr' : r' ∈ (outboxStep cfg.toOutboxConfig s.sys op).outbox.rows)
    (hstatus : r'.status = .succeeded) :
    r' ∈ s.sys.outbox.rows ∨ ∃ clk w r h, op = .markSuccess clk w r.id ∧ r ∈ s.sys.outbox.rows ∧
      s.sys.job? w r.id = some h ∧ h.delivered = true ∧ r' = successWrite clk r := by
  rcases exists_change_of_mem hr' with ⟨r, hr, hchange⟩ | hinserts
  · cases hchange with
    | same => exact .inl hr
    | coalesced h =>
      -- only a waiting row is coalesced into
      have hwaiting := (coalesceCandidate_eq_some h).2.2.2.2.1
      have hsucceeded : r.status = .succeeded := hstatus
      rw [hsucceeded] at hwaiting
      cases hwaiting
    | succeeded h hdelivered => exact .inr ⟨_, _, r, _, rfl, hr, h, hdelivered, rfl⟩
    | retried =>
      simp only [retryWrite] at hstatus
      split at hstatus <;> cases hstatus
    | requeued | claimed | failed | lettaFailed | recovered => cases hstatus
  · cases hinserts
    cases hstatus

variable {h : HeldJob π}

theorem delivered_of_mem_held (hh : h ∈ (qdrantStep cfg s (.step op)).sys.held)
    (htarget : h.job.target = .qdrant) (hdelivered : h.delivered = true) :
    ∃ h₀ ∈ s.sys.held, h₀.job = h.job ∧ h₀.delivered = true := by
  simp only [qdrantStep] at hh
  split at hh
  · exact ⟨h, hh, rfl, hdelivered⟩
  rename_i hop
  cases op with
  | claim clk worker limit target excludeTarget =>
    rcases mem_append.mp hh with hold | hnew
    · exact ⟨h, mem_of_mem_filter hold, rfl, hdelivered⟩
    · obtain ⟨job, -, rfl⟩ := mem_map.mp hnew
      cases hdelivered
  | deliver worker jobId =>
    obtain ⟨h₀, hh₀, rfl⟩ := mem_map.mp hh
    split at hdelivered
    · -- a delivery of a job of Qdrant is not such a step
      rename_i hjob
      exact absurd (any_eq_true.mpr ⟨h₀, hh₀, by simpa [hjob] using htarget⟩) hop
    · rename_i hjob
      rw [if_neg hjob]
      exact ⟨h₀, hh₀, rfl, hdelivered⟩
  | restart worker => exact ⟨h, mem_of_mem_filter hh, rfl, hdelivered⟩
  | markSuccess | markRetry | markFailed =>
    refine ⟨h, ?_, rfl, hdelivered⟩
    simp only [outboxStep] at hh
    repeat' split at hh
    all_goals exact hh
  | _ => exact ⟨h, hh, rfl, hdelivered⟩

theorem delivered_of_mem_held_push {w : ℕ} {ids : List ℕ} {ts : ℤ}
    {answers : String → CollectionAnswer}
    (hh : h ∈ (qdrantStep cfg s (.push w ids ts answers)).sys.held)
    (htarget : h.job.target = .qdrant) (hdelivered : h.delivered = true) :
    ∃ h₀ ∈ s.sys.held, h₀.job = h.job ∧ (h₀.delivered = true ∨ h₀ ∈ s.batch w ids ∧
      (pushBatchToQdrant cfg ts answers
        ((s.batch w ids).map fun h => h.job.payload)).2 = true) := by
  simp only [qdrantStep] at hh
  split at hh
  · rename_i hok
    obtain ⟨h₀, hh₀, hjob, hpushed⟩ := (run_deliver cfg.toOutboxConfig w _ s.sys).2 h hh
    refine ⟨h₀, hh₀, hjob.symm, (hpushed hdelivered).imp_right fun ⟨hworker, hid⟩ => ⟨?_, hok⟩⟩
    obtain ⟨h₁, hh₁, hid⟩ := mem_map.mp hid
    have hids := (mem_filter.mp hh₁).2
    simp only [decide_eq_true_eq] at hids
    refine mem_filter.mpr ⟨hh₀, decide_eq_true ⟨hworker, hid ▸ hids.2.1, ?_⟩⟩
    rw [← hjob, htarget]
  · exact ⟨h, hh, rfl, .inl hdelivered⟩

theorem heldSound_qdrantStep (hs : HeldSound s.sys) (op : QdrantOp π) :
    HeldSound (qdrantStep cfg s op).sys := by
  cases op with
  | step op =>
    simp only [qdrantStep]
    split
    · exact hs
    · exact hs.step op
  | push w ids ts answers =>
    simp only [qdrantStep]
    split
    · have hstep : ∀ (s : OutboxState π) op, HeldSound s →
          HeldSound (outboxStep cfg.toOutboxConfig s op) := fun s op hs => hs.step op
      exact run_invariant hstep hs _
    · exact hs

end

/-! ### One point for an event -/

variable [DecidableEq π]

def OnePoint (s : QdrantState π) : Prop :=
  ∀ r ∈ s.sys.outbox.rows, r.target = .qdrant → r.status = .succeeded → s.count r.payload = 1

/-- The upserts of an event that an operation gets through: for every place of the event in the
batch, those that take effect for its collection. -/
def upsertsOf (s : QdrantState π) (op : QdrantOp π) (event : FanoutEvent π) : ℕ :=
  match op with
  | .step _ => 0
  | .push w ids _ answers =>
    let events := (s.batch w ids).map fun h => h.job.payload
    appliedTo answers (qdrantCollections cfg events) (qdrantCollectionOf cfg event) *
      events.count event

def upsertsIn (s : QdrantState π) : List (QdrantOp π) → FanoutEvent π → ℕ
  | [], _ => 0
  | op :: ops, event => upsertsOf cfg s op event + upsertsIn (qdrantStep cfg s op) ops event

/-- A success mark comes after exactly one upsert of the payload its row carries, and a push applies
none of a row marked as succeeded. -/
def UpsertedOnce (before : List (QdrantOp π)) : QdrantOp π → Prop
  | .step (.markSuccess _ w i) => ∀ h ∈ (run (qdrantStep cfg) .empty before).sys.job? w i,
    h.delivered = true → ∀ r ∈ (run (qdrantStep cfg) .empty before).sys.outbox.rows,
      r.id = i → r.target = .qdrant → upsertsIn cfg .empty before r.payload = 1
  | .push w ids ts answers => ∀ r ∈ (run (qdrantStep cfg) .empty before).sys.outbox.rows,
    r.target = .qdrant → r.status = .succeeded →
      upsertsOf cfg (run (qdrantStep cfg) .empty before) (.push w ids ts answers) r.payload = 0
  | _ => True

/-- The same of the points in a state. -/
def KeepsOnePoint (s : QdrantState π) : QdrantOp π → Prop
  | .step (.markSuccess _ w i) => ∀ h ∈ s.sys.job? w i, h.delivered = true →
    ∀ r ∈ s.sys.outbox.rows, r.id = i → r.target = .qdrant → s.count r.payload = 1
  | .push w ids ts answers => ∀ r ∈ s.sys.outbox.rows, r.target = .qdrant →
    r.status = .succeeded → upsertsOf cfg s (.push w ids ts answers) r.payload = 0
  | _ => True

/-- A success mark finds the payload its job was claimed with; of what is pushed there is no point
yet, no payload is in the batch twice, and the upsert and its fallback do not both take effect. -/
def PushesOnce (s : QdrantState π) : QdrantOp π → Prop
  | .step (.markSuccess _ w i) => ∀ h ∈ s.sys.job? w i, h.delivered = true →
    ∀ r ∈ s.sys.outbox.rows, r.id = i → r.payload = h.job.payload
  | .push w ids _ answers => ((s.batch w ids).map fun h => h.job.payload).Nodup ∧
    ∀ h ∈ s.batch w ids, s.count h.job.payload = 0 ∧
      (answers (qdrantCollectionOf cfg h.job.payload)).applied ≤ 1
  | _ => True

variable {cfg} {s : QdrantState π}

theorem count_push (s : QdrantState π) (w : ℕ) (ids : List ℕ) (ts : ℤ)
    (answers : String → CollectionAnswer) (event : FanoutEvent π) :
    (qdrantStep cfg s (.push w ids ts answers)).count event =
      s.count event + upsertsOf cfg s (.push w ids ts answers) event := by
  rw [upsertsOf, ← countP_pushBatchToQdrant cfg ts]
  exact countP_append

theorem count_step (s : QdrantState π) (op : OutboxOp π) (event : FanoutEvent π) :
    (qdrantStep cfg s (.step op)).count event = s.count event := by
  simp only [qdrantStep]
  split <;> rfl

theorem count_run (s : QdrantState π) (ops : List (QdrantOp π)) (event : FanoutEvent π) :
    (run (qdrantStep cfg) s ops).count event = s.count event + upsertsIn cfg s ops event := by
  induction ops generalizing s with
  | nil => rfl
  | cons op ops ih =>
    have hstep : (qdrantStep cfg s op).count event = s.count event + upsertsOf cfg s op event := by
      cases op with
      | step op => exact count_step s op event
      | push w ids ts answers => exact count_push s w ids ts answers event
    rw [run_cons, ih, hstep, upsertsIn, Nat.add_assoc]

theorem upsertedOnce_iff (before : List (QdrantOp π)) (op : QdrantOp π) :
    UpsertedOnce cfg before op ↔ KeepsOnePoint cfg (run (qdrantStep cfg) .empty before) op := by
  have hcount : ∀ event, (run (qdrantStep cfg) .empty before).count event =
      upsertsIn cfg .empty before event := by
    intro event
    rw [count_run]
    exact Nat.zero_add _
  rcases op with ⟨⟨⟩⟩ | _ <;> simp only [UpsertedOnce, KeepsOnePoint, hcount]

theorem onePoint_markSuccess_iff (hs : OnePoint s) (clk : Clock) (w i : ℕ) :
    OnePoint (qdrantStep cfg s (.step (.markSuccess clk w i))) ↔
      KeepsOnePoint cfg s (.step (.markSuccess clk w i)) := by
  constructor
  · intro h held hheld hdelivered r hr hid htarget
    have hjob : s.sys.job? w i = some held := hheld
    have hmem : successWrite clk r ∈
        (outboxStep cfg.toOutboxConfig s.sys (.markSuccess clk w i)).outbox.rows := by
      rw [outboxStep, hjob]
      simp only [hdelivered, ↓reduceIte, ← hid]
      exact Outbox.mem_update hr
    exact h (successWrite clk r) hmem htarget rfl
  · intro h r' hr' htarget hstatus
    rcases succeeded_cases hr' hstatus with hold | ⟨_, _, r, held, heq, hr, hjob, hdelivered, rfl⟩
    · exact hs r' hold htarget hstatus
    · cases heq
      exact h held hjob hdelivered r hr rfl htarget

theorem onePoint_step_iff (hs : OnePoint s) (op : QdrantOp π) :
    OnePoint (qdrantStep cfg s op) ↔ KeepsOnePoint cfg s op := by
  cases op with
  | push w ids ts answers =>
    rw [OnePoint, outbox_push]
    refine forall₄_congr fun r hr htarget hstatus => ?_
    rw [count_push, hs r hr htarget hstatus]
    omega
  | step op =>
    by_cases hmark : ∃ clk w i, op = .markSuccess clk w i
    · obtain ⟨clk, w, i, rfl⟩ := hmark
      exact onePoint_markSuccess_iff hs clk w i
    · have hkeeps : KeepsOnePoint cfg s (.step op) := by
        cases op with
        | markSuccess clk w i => exact (hmark ⟨clk, w, i, rfl⟩).elim
        | _ => trivial
      refine iff_of_true (fun r' hr' htarget hstatus => ?_) hkeeps
      rw [count_step]
      simp only [qdrantStep] at hr'
      split at hr'
      · exact hs r' hr' htarget hstatus
      · rcases succeeded_cases hr' hstatus with hold | ⟨clk, w, r, h, heq, -⟩
        · exact hs r' hold htarget hstatus
        · exact (hmark ⟨clk, w, r.id, heq⟩).elim

def PushedHavePoints (s : QdrantState π) : Prop :=
  ∀ h ∈ s.sys.held, h.job.target = .qdrant → h.delivered = true → 1 ≤ s.count h.job.payload

variable {w : ℕ} {ids : List ℕ}

theorem one_le_count_push {ts : ℤ} {answers : String → CollectionAnswer} {h : HeldJob π}
    (hh : h ∈ s.batch w ids) (hok : (pushBatchToQdrant cfg ts answers
      ((s.batch w ids).map fun h => h.job.payload)).2 = true) :
    1 ≤ (qdrantStep cfg s (.push w ids ts answers)).count h.job.payload := by
  have hmem : h.job.payload ∈ (s.batch w ids).map fun h => h.job.payload := mem_map_of_mem hh
  rw [pushBatchToQdrant, groupByCollection, acknowledged_pushCollections] at hok
  have happlied := one_le_appliedTo (all_eq_true.mp hok)
    (mem_eraseDups.mpr (mem_map_of_mem (f := qdrantCollectionOf cfg) hmem))
  rw [count_push]
  exact (Nat.mul_pos happlied (count_pos_iff.mpr hmem)).trans_le (Nat.le_add_left _ _)

theorem PushedHavePoints.step (hs : PushedHavePoints s) (op : QdrantOp π) :
    PushedHavePoints (qdrantStep cfg s op) := by
  intro h hh htarget hdelivered
  cases op with
  | step op =>
    obtain ⟨h₀, hh₀, hjob, hdelivered₀⟩ := delivered_of_mem_held hh htarget hdelivered
    rw [count_step, ← hjob]
    exact hs h₀ hh₀ (hjob ▸ htarget) hdelivered₀
  | push w ids ts answers =>
    obtain ⟨h₀, hh₀, hjob, hbefore | ⟨hbatch, hok⟩⟩ :=
      delivered_of_mem_held_push hh htarget hdelivered
    · have hone := hs h₀ hh₀ (hjob ▸ htarget) hbefore
      rw [← hjob, count_push]
      omega
    · rw [← hjob]
      exact one_le_count_push hbatch hok

theorem count_push_eq_one {ts : ℤ} {answers : String → CollectionAnswer} {event : FanoutEvent π}
    (hop : PushesOnce cfg s (.push w ids ts answers)) (hone : s.count event = 1) :
    (qdrantStep cfg s (.push w ids ts answers)).count event = 1 := by
  -- what has a point already is not in the batch
  have hnone : ((s.batch w ids).map fun h => h.job.payload).count event = 0 := by
    refine count_eq_zero.mpr fun hmem => ?_
    obtain ⟨h, hh, rfl⟩ := mem_map.mp hmem
    have hzero := (hop.2 h hh).1
    omega
  rw [count_push, hone, upsertsOf, hnone, Nat.mul_zero]

theorem count_push_le_one {ts : ℤ} {answers : String → CollectionAnswer} {h : HeldJob π}
    (hop : PushesOnce cfg s (.push w ids ts answers)) (hh : h ∈ s.batch w ids) :
    (qdrantStep cfg s (.push w ids ts answers)).count h.job.payload ≤ 1 := by
  obtain ⟨hnodup, hall⟩ := hop
  obtain ⟨hzero, happlied⟩ := hall h hh
  have hplace := nodup_iff_count_le_one.mp hnodup h.job.payload
  rw [count_push, hzero, Nat.zero_add, upsertsOf]
  exact Nat.mul_le_mul ((appliedTo_le (nodup_eraseDups _)).trans happlied) hplace

structure PushedOnce (s : QdrantState π) : Prop where
  one : OnePoint s
  held : ∀ h ∈ s.sys.held, h.job.target = .qdrant → h.delivered = true →
    s.count h.job.payload = 1
  sound : HeldSound s.sys

theorem PushedOnce.push (hs : PushedOnce s) {ts : ℤ} {answers : String → CollectionAnswer}
    (hop : PushesOnce cfg s (.push w ids ts answers)) :
    PushedOnce (qdrantStep cfg s (.push w ids ts answers)) := by
  refine ⟨fun r hr htarget hstatus => ?_, fun h hh htarget hdelivered => ?_,
    heldSound_qdrantStep hs.sound _⟩
  · rw [outbox_push] at hr
    exact count_push_eq_one hop (hs.one r hr htarget hstatus)
  · obtain ⟨h₀, hh₀, hjob, hbefore | ⟨hbatch, hok⟩⟩ :=
      delivered_of_mem_held_push hh htarget hdelivered
    · rw [← hjob]
      exact count_push_eq_one hop (hs.held h₀ hh₀ (hjob ▸ htarget) hbefore)
    · rw [← hjob]
      exact le_antisymm (count_push_le_one hop hbatch) (one_le_count_push hbatch hok)

theorem PushedOnce.step (hs : PushedOnce s) {op : QdrantOp π} (hop : PushesOnce cfg s op) :
    PushedOnce (qdrantStep cfg s op) := by
  cases op with
  | push w ids ts answers => exact hs.push hop
  | step op =>
    refine ⟨(onePoint_step_iff hs.one (.step op)).mpr ?_, fun h hh htarget hdelivered => ?_,
      heldSound_qdrantStep hs.sound _⟩
    · cases op with
      | markSuccess clk w i =>
        intro h hjob hdelivered r hr hid htarget
        obtain ⟨hheld, -, hjobId⟩ := OutboxState.job?_eq_some hjob
        -- the job was claimed from this row, so it is one of Qdrant
        have hident := hs.sound.ident h hheld r hr (hid.trans hjobId.symm)
        rw [hop h hjob hdelivered r hr hid]
        exact hs.held h hheld ((congrArg RowIdent.target hident).symm.trans htarget) hdelivered
      | _ => trivial
    · obtain ⟨h₀, hh₀, hjob, hdelivered₀⟩ := delivered_of_mem_held hh htarget hdelivered
      rw [count_step, ← hjob]
      exact hs.held h₀ hh₀ (hjob ▸ htarget) hdelivered₀

/-- **One point for an event** that is marked as succeeded, exactly if the answers of Qdrant let one
upsert of the payload of its row through before the mark, and none later. -/
theorem qdrant_once_iff (cfg : QdrantConfig π) (ops : List (QdrantOp π)) :
    ((∀ pre post, ops = pre ++ post → OnePoint (run (qdrantStep cfg) .empty pre)) ↔
      ∀ before op after, ops = before ++ op :: after → UpsertedOnce cfg before op) ∧
    (Along (qdrantStep cfg) (PushesOnce cfg) .empty ops →
      OnePoint (run (qdrantStep cfg) .empty ops)) ∧
    PushedHavePoints (run (qdrantStep cfg) .empty ops) := by
  have hiff : ∀ (s : QdrantState π) op, OnePoint s →
      (OnePoint (qdrantStep cfg s op) ↔ KeepsOnePoint cfg s op) :=
    fun s op hs => onePoint_step_iff hs op
  have honce : ∀ (s : QdrantState π) op, PushedOnce s → PushesOnce cfg s op →
      PushedOnce (qdrantStep cfg s op) := fun s op hs hop => hs.step hop
  have hpoints : ∀ (s : QdrantState π) op, PushedHavePoints s →
      PushedHavePoints (qdrantStep cfg s op) := fun s op hs => hs.step op
  have hempty : OnePoint (.empty : QdrantState π) := fun r hr => by cases hr
  refine ⟨?_, fun h => ?_, ?_⟩
  · rw [forall_run_iff_along_of_step hiff hempty, along_iff]
    simp only [upsertedOnce_iff]
  · have hstart : PushedOnce (.empty : QdrantState π) :=
      ⟨hempty, (fun h hh => by cases hh), .empty⟩
    exact (h.invariant honce hstart).one
  · have hstart : PushedHavePoints (.empty : QdrantState π) := fun h hh => by cases hh
    exact run_invariant hpoints hstart ops

end

/-! ### Points that are made twice -/

def QdrantConfig.default : QdrantConfig String where
  toOutboxConfig := .default
  qdrantCollection := "memmcp_notes"
  collectionOf := id

def qdrantEvent (eventId file collection : String) : FanoutEvent String :=
  ⟨eventId, "app", file, "note", "", [], collection⟩

def lostAcknowledgement : List (QdrantOp String) :=
  [.step (.enqueue .noon false "" (qdrantEvent "e1" "a.md" "") .qdrant),
    .step (.claim .noon 0 24 none none),
    .push 0 [1] 0 fun _ => { upsert := .raised true false },
    .step (.markRetry .noon 0 1 0 "Qdrant upsert failed: timeout"),
    .step (.claim .noon 0 24 none none),
    .push 0 [1] 0 fun _ => {},
    .step (.markSuccess .noon 0 1)]

def halfBatch : List (QdrantOp String) :=
  [.step (.enqueue .noon false "" (qdrantEvent "e1" "a.md" "one") .qdrant),
    .step (.enqueue .noon false "" (qdrantEvent "e2" "b.md" "two") .qdrant),
    .step (.claim .noon 0 24 none none),
    .push 0 [1, 2] 0 fun collection =>
      { upsert := if collection = "two" then .raised false false else .ok },
    .step (.markRetry .noon 0 1 0 "Qdrant upsert failed: unavailable"),
    .step (.markRetry .noon 0 2 0 "Qdrant upsert failed: unavailable"),
    .step (.claim .noon 0 24 none none),
    .push 0 [1, 2] 0 fun _ => {},
    .step (.markSuccess .noon 0 1), .step (.markSuccess .noon 0 2)]

/-- **Redelivered.** The rows are marked as succeeded, and an event has two points. -/
theorem redelivery_adds_point :
    let s := run (qdrantStep .default) .empty lostAcknowledgement
    let t := run (qdrantStep .default) .empty halfBatch
    (s.sys.outbox.rows.map (fun r => (r.payload.eventId, r.status)) = [("e1", .succeeded)] ∧
      s.points.map (fun p => p.origin.eventId) = ["e1", "e1"]) ∧
    (t.sys.outbox.rows.map (fun r => (r.payload.eventId, r.status)) =
        [("e1", .succeeded), ("e2", .succeeded)] ∧
      t.points.map (fun p => p.origin.eventId) = ["e1", "e1", "e2"]) := by
  decide +kernel

end ContextLattice
