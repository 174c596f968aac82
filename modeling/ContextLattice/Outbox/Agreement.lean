import ContextLattice.Outbox.Mongo

/-!
# The two outboxes agree

A history of calls is run against both implementations of the outbox. Jobs have different ids in the
two, so a mark names its job by its place among the jobs handed out. `OutboxRow.asDoc newId` is the
document for a row.
-/

namespace ContextLattice

open Foundation List

variable {ι π : Type*}

/-! ### Histories of calls -/

inductive OutboxCall (π : Type*) where
  | enqueue (clk : Clock) (force : Bool) (drawn mongoDrawn : String) (event : FanoutEvent π)
      (targets : List FanoutTarget)
  | claim (clk : Clock) (limit : ℤ) (target excludeTarget : Option FanoutTarget)
  | markSuccess (clk : Clock) (job : ℕ)
  | markFailed (clk : Clock) (job : ℕ) (error : String)
  | markRetry (clk : Clock) (job : ℕ) (jitter : ℚ) (error : String)
  | failLetta (clk : Clock) (error : String)
  | recover (clk : Clock) (maxAgeSecs : ℤ)

def OutboxCall.now : OutboxCall π → Stamp
  | enqueue clk .. | claim clk .. | markSuccess clk .. | markFailed clk .. | markRetry clk ..
  | failLetta clk .. | recover clk .. => clk.now

def OutboxCall.Regular : OutboxCall π → Prop
  | enqueue _ _ _ _ event targets => event.eventId ≠ "" ∧ targets.Nodup
  | markFailed _ _ error | markRetry _ _ _ error | failLetta _ error => error ≠ ""
  | claim .. | markSuccess .. | recover .. => True

instance : (call : OutboxCall π) → Decidable call.Regular
  | .enqueue _ _ _ _ event targets =>
    inferInstanceAs (Decidable (event.eventId ≠ "" ∧ targets.Nodup))
  | .markFailed _ _ error | .markRetry _ _ _ error | .failLetta _ error =>
    inferInstanceAs (Decidable (error ≠ ""))
  | .claim .. | .markSuccess .. | .recover .. => inferInstanceAs (Decidable True)

inductive CallAnswer (ρ : Type*) where
  | counters (n : EnqueueResult)
  | jobs (l : List ρ)
  | marked
  | nextStatus (status : JobStatus)
  | changed (n : ℕ)

namespace CallAnswer

variable {ρ ρ' : Type*}

def map (g : ρ → ρ') : CallAnswer ρ → CallAnswer ρ'
  | counters n => counters n
  | jobs l => jobs (l.map g)
  | marked => marked
  | nextStatus status => nextStatus status
  | changed n => changed n

def handed : CallAnswer ρ → List ρ
  | jobs l => l
  | _ => []

theorem handed_map (g : ρ → ρ') (answer : CallAnswer ρ) :
    (answer.map g).handed = answer.handed.map g := by
  cases answer <;> rfl

end CallAnswer

structure CallHistory (σ ρ : Type*) where
  store : σ
  jobs : List ρ := []
  answers : List (CallAnswer ρ) := []

def CallHistory.record {σ ρ : Type*} (h : CallHistory σ ρ) :
    Option (σ × CallAnswer ρ) → CallHistory σ ρ
  | none => h
  | some (store, answer) => ⟨store, h.jobs ++ answer.handed, h.answers ++ [answer]⟩

section

variable (cfg : OutboxConfig)

def sqliteCallResult (h : CallHistory (Outbox π) (OutboxRow π)) :
    OutboxCall π → Option (Outbox π × CallAnswer (OutboxRow π))
  | .enqueue clk force drawn _ event targets =>
    let (ob, n) := enqueueFanoutOutbox cfg clk force drawn event targets h.store
    some (ob, .counters n)
  | .claim clk limit target excludeTarget =>
    let (ob, jobs) := claimFanoutBatch cfg clk limit target excludeTarget h.store
    some (ob, .jobs jobs)
  | .markSuccess clk job =>
    h.jobs[job]?.map fun job => (markFanoutSuccess clk job.id h.store, .marked)
  | .markFailed clk job error =>
    h.jobs[job]?.map fun job => (markFanoutFailed clk job.id error h.store, .marked)
  | .markRetry clk job jitter error =>
    h.jobs[job]?.map fun job => (markFanoutRetry cfg clk job jitter error h.store,
      .nextStatus (if attemptsLeft cfg job then .retrying else .failed))
  | .failLetta clk error =>
    some (failLettaBacklog clk error h.store, .changed (h.store.rows.filter fun r =>
      decide (r.target = .letta) && r.status.outstanding).length)
  | .recover clk maxAgeSecs =>
    some (recoverStaleRunningJobs clk maxAgeSecs h.store,
      .changed (h.store.rows.filter (staleRunning clk maxAgeSecs)).length)

def sqliteCallStep (h : CallHistory (Outbox π) (OutboxRow π)) (call : OutboxCall π) :
    CallHistory (Outbox π) (OutboxRow π) :=
  h.record (sqliteCallResult cfg h call)

variable [LinearOrder ι] [DecidableEq π] (newId : ℕ → ι)

def mongoCallResult (h : CallHistory (MongoOutbox ι π) (OutboxDoc ι π)) :
    OutboxCall π → Option (MongoOutbox ι π × CallAnswer (OutboxDoc ι π))
  | .enqueue clk force _ mongoDrawn event targets =>
    let (m, n) := enqueueFanoutOutboxMongo cfg clk newId force mongoDrawn event targets h.store
    some (m, .counters n)
  | .claim clk limit target excludeTarget =>
    let (m, jobs) := claimFanoutBatchMongo clk limit target excludeTarget h.store
    some (m, .jobs jobs)
  | .markSuccess clk job =>
    h.jobs[job]?.map fun job => (markFanoutSuccessMongo clk job.id h.store, .marked)
  | .markFailed clk job error =>
    h.jobs[job]?.map fun job => (markFanoutFailedMongo clk job.id error h.store, .marked)
  | .markRetry clk job jitter error =>
    h.jobs[job]?.map fun job =>
      let (m, status) := markFanoutRetryMongo cfg clk job jitter error h.store
      (m, .nextStatus status)
  | .failLetta clk error =>
    let (m, n) := failLettaBacklogMongo clk error h.store
    some (m, .changed n)
  | .recover clk maxAgeSecs =>
    let (m, n) := recoverStaleRunningJobsMongo clk maxAgeSecs h.store
    some (m, .changed n)

def mongoCallStep (h : CallHistory (MongoOutbox ι π) (OutboxDoc ι π)) (call : OutboxCall π) :
    CallHistory (MongoOutbox ι π) (OutboxDoc ι π) :=
  h.record (mongoCallResult cfg newId h call)

end

/-! ### Rows and documents -/

def OutboxRow.asDoc (newId : ℕ → ι) (r : OutboxRow π) : OutboxDoc ι π where
  id := newId r.id
  eventId := r.eventId
  target := r.target
  project := r.project
  file := r.file
  summary := r.summary
  payload := r.payload
  topicPath := r.topicPath
  topicTags := r.topicTags
  status := r.status
  attempts := r.attempts
  maxAttempts := r.maxAttempts
  nextAttemptAt := r.nextAttemptAt
  lastAttemptAt := r.lastAttemptAt
  completedAt := r.completedAt
  lastError := r.lastError
  createdAt := r.createdAt
  updatedAt := r.updatedAt
  dedupeKey := r.dedupeKey

structure Mirrors (newId : ℕ → ι) (ob : Outbox π) (m : MongoOutbox ι π) : Prop where
  rows : m.docs.rows = ob.rows.map (OutboxRow.asDoc newId)
  drawn : m.drawn = ob.nextId

def Explained (past : List Stamp) (r : OutboxRow π) : Prop :=
  r.updatedAt ∈ past ∧ (r.status = .retrying → r.lastError.getD "" ≠ "")

theorem Explained.mono {past past' : List Stamp} {r : OutboxRow π} (h : Explained past r)
    (hpast : past ⊆ past') : Explained past' r :=
  ⟨hpast h.1, h.2⟩

theorem Mirrors.empty (newId : ℕ → ι) : Mirrors newId (.empty : Outbox π) .empty := ⟨rfl, rfl⟩

section

variable [LinearOrder ι] {newId : ℕ → ι} {ob : Outbox π} {m : MongoOutbox ι π} {clk : Clock}

theorem Mirrors.mark [DecidableEq π] (h : Mirrors newId ob m) (hmono : StrictMono newId)
    {i : ℕ} {p : OutboxDoc ι π → Bool} {f : OutboxRow π → OutboxRow π}
    {g : OutboxDoc ι π → OutboxDoc ι π} {hf hg}
    (hp : ∀ r ∈ ob.rows, r.id = i → p (r.asDoc newId) = true)
    (hfg : ∀ r : OutboxRow π, g (r.asDoc newId) = (f r).asDoc newId) :
    Mirrors newId (ob.update i f hf) { m with docs := (m.docs.updateOne p g hg (newId i)).1 } := by
  have hid : ∀ r : OutboxRow π, (f r).id = r.id := fun r => congrArg RowIdent.id (hf r)
  refine ⟨Table.updateWhere_image hid hg h.rows (fun r hr => ?_) fun r _ _ => hfg r, h.drawn⟩
  have hkey : (r.asDoc newId).id = newId i ↔ r.id = i := hmono.injective.eq_iff
  rw [Bool.eq_iff_iff, Bool.and_eq_true, decide_eq_true_eq, decide_eq_true_eq, hkey]
  exact ⟨And.left, fun hid => ⟨hid, hp r hr hid⟩⟩

omit [LinearOrder ι] in
theorem Mirrors.lookup (h : Mirrors newId ob m) (key : String) :
    findDocKey? m.docs key = (ob.findKey? key).map (OutboxRow.asDoc newId) := by
  rw [findDocKey?, h.rows, List.find?_map]
  rfl

theorem Mirrors.insert (h : Mirrors newId ob m) (hmono : StrictMono newId)
    (row : OutboxRow π) (hid : row.id = ob.nextId) (hkey : ob.findKey? row.dedupeKey = none) :
    ∃ docs, insertOne m.docs (row.asDoc newId) = some docs ∧
      Mirrors newId (ob.insert row hid) ⟨docs, m.drawn + 1⟩ := by
  have hfree : m.docs.find? (newId row.id) = none := by
    rw [Table.find?_eq_none, h.rows]
    intro d hd hd'
    obtain ⟨r, hr, rfl⟩ := mem_map.mp hd
    exact (ob.id_lt r hr).ne ((hmono.injective hd').trans hid)
  have hnokey : findDocKey? m.docs row.dedupeKey = none := by
    rw [h.lookup, hkey]
    rfl
  refine ⟨m.docs.insert (row.asDoc newId) hfree, ?_, ?_, ?_⟩
  · exact (dif_pos hfree).trans (if_pos hnokey)
  · rw [Outbox.rows_insert hkey, map_append, ← h.rows]
    rfl
  · have hnext : (ob.insert row hid).nextId = ob.nextId + 1 := by
      rw [Outbox.insert, dif_pos hkey]
      rfl
    rw [hnext, h.drawn]

end

/-! ### Enqueueing -/

section

variable [LinearOrder ι] [DecidableEq π] {cfg : OutboxConfig} {newId : ℕ → ι} {clk : Clock}
  {force : Bool} {drawn : String} {event : FanoutEvent π} {target : FanoutTarget}
  {ob : Outbox π} {m : MongoOutbox ι π} {n : EnqueueResult}

theorem Mirrors.keyed (h : Mirrors newId ob m) (hmono : StrictMono newId)
    (hcandidate : coalesceCandidate cfg clk force event target ob = none) :
    Mirrors newId (enqueueTarget cfg clk force drawn event target ob)
        (enqueueKeyMongo cfg clk newId force (effectiveEventId drawn event) event target n m).1 ∧
      (enqueueKeyMongo cfg clk newId force (effectiveEventId drawn event) event target n m).2 =
        countTarget cfg clk force drawn event target ob n := by
  rw [enqueueKeyMongo, enqueueTarget, countTarget, hcandidate, h.lookup]
  rcases hkey : ob.findKey? (dedupeKeyOf (effectiveEventId drawn event) target) with _ | row
  · obtain ⟨docs, hinsert, hmirrors⟩ := h.insert hmono
      (newJob cfg clk ob.nextId (effectiveEventId drawn event) event target) rfl hkey
    have hdoc : insertOne m.docs (newDoc cfg clk (newId m.drawn) (effectiveEventId drawn event)
        event target) = some docs := by
      rw [h.drawn]
      exact hinsert
    simp only [Option.map_none, hdoc]
    exact ⟨hmirrors, rfl⟩
  · cases force with
    | false => exact ⟨h, rfl⟩
    | true => exact ⟨h.mark hmono (fun _ _ _ => rfl) fun _ => rfl, rfl⟩

omit [DecidableEq π] in
theorem Mirrors.candidate (h : Mirrors newId ob m) (hmono : StrictMono newId)
    (hrank : StrictMono cfg.rank) :
    m.docs.findOne (candidateQuery cfg clk event target) latestDocFirst =
      (ob.table.findOne (coalescible cfg clk event target) (newestFirst cfg)).map
        (OutboxRow.asDoc newId) := by
  rw [Table.findOne, Table.findOne, ← List.head?_map]
  refine congrArg List.head? (Table.sortedMatches_image h.rows (fun r _ => rfl) fun a _ b _ => ?_)
  simp only [newestFirst, latestDocFirst, hrank.le_iff_le]
  exact or_congr Iff.rfl (and_congr_right fun _ => hmono.le_iff_le.symm)

theorem Mirrors.placed (h : Mirrors newId ob m) (hmono : StrictMono newId)
    (hrank : StrictMono cfg.rank) (force : Bool) (drawn : String) (event : FanoutEvent π)
    (n : EnqueueResult) (hfresh : ∀ r ∈ ob.rows, r.target = target → r.updatedAt ≠ clk.now) :
    Mirrors newId (enqueueTarget cfg clk force drawn event target ob)
        (enqueueTargetMongo cfg clk newId force (effectiveEventId drawn event) event target n
          m).1 ∧
      (enqueueTargetMongo cfg clk newId force (effectiveEventId drawn event) event target n m).2 =
        countTarget cfg clk force drawn event target ob n := by
  rcases hcandidate : coalesceCandidate cfg clk force event target ob with _ | row
  · have hnone : (if !force && decide (event.project ≠ "") && decide (event.file ≠ "") &&
        fanoutCoalescerActiveForTarget cfg target then
        m.docs.findOne (candidateQuery cfg clk event target) latestDocFirst else none) = none := by
      rw [coalesceCandidate] at hcandidate
      rw [h.candidate hmono hrank]
      split
      · rw [if_pos ‹_›] at hcandidate
        exact congrArg (Option.map _) hcandidate
      · rfl
    simp only [enqueueTargetMongo, hnone]
    exact h.keyed hmono hcandidate
  · have hsome : (if !force && decide (event.project ≠ "") && decide (event.file ≠ "") &&
        fanoutCoalescerActiveForTarget cfg target then
        m.docs.findOne (candidateQuery cfg clk event target) latestDocFirst else none) =
          some (row.asDoc newId) := by
      rw [coalesceCandidate] at hcandidate
      rw [h.candidate hmono hrank]
      split
      · rw [if_pos ‹_›] at hcandidate
        exact congrArg (Option.map _) hcandidate
      · rw [if_neg ‹_›] at hcandidate
        cases hcandidate
    obtain ⟨hrow, htarget, -, -, hwaiting, -⟩ := coalesceCandidate_eq_some hcandidate
    -- the stamp is new, so the update modifies the document
    have hmodified : 0 < (m.docs.updateOne (fun d => d.status.waiting) (coalesceSet clk event)
        (id_coalesceSet clk event) (row.asDoc newId).id).2 := by
      refine length_pos_of_mem (a := row.asDoc newId) (mem_filter.mpr ⟨?_, ?_⟩)
      · rw [h.rows]
        exact mem_map_of_mem hrow
      · have hne : coalesceSet clk event (row.asDoc newId) ≠ row.asDoc newId := fun heq =>
          hfresh row hrow htarget (congrArg OutboxDoc.updatedAt heq).symm
        simp only [Bool.and_eq_true, decide_eq_true_eq]
        exact ⟨⟨trivial, hwaiting⟩, hne⟩
    simp only [enqueueTargetMongo, hsome]
    rw [if_pos hmodified, enqueueTarget, countTarget, hcandidate]
    refine ⟨h.mark hmono (fun r hr hid => ?_) fun _ => rfl, rfl⟩
    rw [Table.eq_of_mem_of_key hr hrow hid]
    exact hwaiting

omit [DecidableEq π] in
theorem mem_enqueueTarget {r : OutboxRow π}
    (hr : r ∈ (enqueueTarget cfg clk force drawn event target ob).rows) :
    r ∈ ob.rows ∨ r.target = target ∧ r.updatedAt = clk.now ∧
      (r.status = .retrying →
        ∃ r₀ ∈ ob.rows, r₀.status = .retrying ∧ r₀.lastError = r.lastError) := by
  have hplaced := placed_enqueueTarget cfg clk force drawn event target ob
  generalize enqueueTarget cfg clk force drawn event target ob = ob' at hplaced hr
  cases hplaced with
  | coalesced h =>
    obtain ⟨hrow, htarget, -⟩ := coalesceCandidate_eq_some h
    obtain ⟨r₀, hr₀, rfl⟩ := Outbox.mem_updateWhere.mp hr
    split
    · rename_i hid
      obtain rfl := Table.eq_of_mem_of_key hr₀ hrow (of_decide_eq_true hid)
      exact .inr ⟨htarget, rfl, fun hretrying => ⟨r₀, hr₀, hretrying, rfl⟩⟩
    · exact .inl hr₀
  | requeued hforce h =>
    obtain ⟨hrow, hkey⟩ := Outbox.findKey?_eq_some h
    obtain ⟨r₀, hr₀, rfl⟩ := Outbox.mem_updateWhere.mp hr
    split
    · rename_i hid
      obtain rfl := Table.eq_of_mem_of_key hr₀ hrow (of_decide_eq_true hid)
      exact .inr ⟨(dedupeKeyOf_inj.mp hkey).2, rfl, fun hretrying => by cases hretrying⟩
    · exact .inl hr₀
  | existing => exact .inl hr
  | inserted hcandidate h =>
    rcases Outbox.mem_or_eq_of_mem_insert hr with hold | rfl
    · exact .inl hold
    · exact .inr ⟨rfl, rfl, fun hretrying => by cases hretrying⟩

variable {targets : List FanoutTarget}

theorem Mirrors.enqueue (h : Mirrors newId ob m) (hmono : StrictMono newId)
    (hrank : StrictMono cfg.rank) (hnodup : targets.Nodup) (clk : Clock) (force : Bool)
    (drawn : String) (event : FanoutEvent π) (n : EnqueueResult)
    (hfresh : ∀ r ∈ ob.rows, r.target ∈ targets → r.updatedAt ≠ clk.now) :
    let sqlite := targets.foldl (fun (ob, n) target =>
      (enqueueTarget cfg clk force drawn event target ob,
        countTarget cfg clk force drawn event target ob n)) (ob, n)
    let mongo := targets.foldl (fun (m, n) target =>
      enqueueTargetMongo cfg clk newId force (effectiveEventId drawn event) event target n m) (m, n)
    Mirrors newId sqlite.1 mongo.1 ∧ mongo.2 = sqlite.2 := by
  induction targets generalizing ob m n with
  | nil => exact ⟨h, rfl⟩
  | cons target targets ih =>
    rw [nodup_cons] at hnodup
    obtain ⟨hmirrors, hcount⟩ := h.placed hmono hrank force drawn event n fun r hr htarget =>
      hfresh r hr (htarget ▸ mem_cons_self)
    simp only [foldl_cons]
    generalize enqueueTargetMongo cfg clk newId force (effectiveEventId drawn event) event target n
      m = placed at hmirrors hcount ⊢
    obtain ⟨m', n'⟩ := placed
    obtain rfl : n' = _ := hcount
    refine ih hmirrors hnodup.2 _ fun r hr htarget => ?_
    rcases mem_enqueueTarget hr with hold | ⟨hserved, -⟩
    · exact hfresh r hold (mem_cons_of_mem _ htarget)
    · exact absurd (hserved ▸ htarget) hnodup.1

omit [DecidableEq π] in
theorem explained_enqueue {past : List Stamp} (h : ∀ r ∈ ob.rows, Explained past r)
    (hnow : clk.now ∈ past) :
    ∀ r ∈ (targets.foldl (fun (ob, n) target =>
      (enqueueTarget cfg clk force drawn event target ob,
        countTarget cfg clk force drawn event target ob n)) (ob, n)).1.rows, Explained past r := by
  induction targets generalizing ob n with
  | nil => exact h
  | cons target targets ih =>
    refine ih fun r hr => ?_
    rcases mem_enqueueTarget hr with hold | ⟨-, hwritten, hretrying⟩
    · exact h r hold
    · refine ⟨hwritten ▸ hnow, fun hstatus => ?_⟩
      obtain ⟨r₀, hr₀, hstatus₀, herror⟩ := hretrying hstatus
      exact herror ▸ (h r₀ hr₀).2 hstatus₀

end

/-! ### Claims, marks and recovery -/

section

variable [LinearOrder ι] [DecidableEq π] {cfg : OutboxConfig} {newId : ℕ → ι} {clk : Clock}
  {ob : Outbox π} {m : MongoOutbox ι π} {past : List Stamp}

omit [DecidableEq π] in
theorem claimFanoutBatch_snd (cfg : OutboxConfig) (clk : Clock) (limit : ℤ)
    (target excludeTarget : Option FanoutTarget) (ob : Outbox π) :
    (claimFanoutBatch cfg clk limit target excludeTarget ob).2 =
      ((ob.table.sortedMatches (dueJob clk target excludeTarget) (dueFirst cfg)).take
        (max 1 (min limit 256)).toNat).map (claimJobWrite clk) := by
  rw [← filterMap_eq_map, claimFanoutBatch, dueIds, filterMap_map]
  refine filterMap_congr fun r hr => ?_
  have hrow : r ∈ ob.rows := (Table.mem_sortedMatches.mp (mem_of_mem_take hr)).1
  have hclaimed := mem_claimFanoutBatch.mpr ⟨r, hrow, (if_pos (mem_map_of_mem hr)).symm⟩
  exact Table.find?_of_mem hclaimed

omit [DecidableEq π] in
theorem Mirrors.claim (h : Mirrors newId ob m) (hmono : StrictMono newId)
    (hrank : StrictMono cfg.rank) (clk : Clock) (limit : ℤ)
    (target excludeTarget : Option FanoutTarget) :
    Mirrors newId (claimFanoutBatch cfg clk limit target excludeTarget ob).1
        (claimFanoutBatchMongo clk limit target excludeTarget m).1 ∧
      (claimFanoutBatchMongo clk limit target excludeTarget m).2 =
        (claimFanoutBatch cfg clk limit target excludeTarget ob).2.map (OutboxRow.asDoc newId) := by
  have hdue : ∀ r ∈ ob.rows, dueDoc clk target excludeTarget (r.asDoc newId) =
      dueJob clk target excludeTarget r := by
    intro r _
    cases target <;> cases excludeTarget <;> rfl
  have hmatches : m.docs.sortedMatches (dueDoc clk target excludeTarget) dueDocFirst =
      (ob.table.sortedMatches (dueJob clk target excludeTarget) (dueFirst cfg)).map
        (OutboxRow.asDoc newId) := by
    refine Table.sortedMatches_image h.rows hdue fun a _ b _ => ?_
    simp only [dueFirst, dueDocFirst, hrank.le_iff_le]
    exact or_congr Iff.rfl (and_congr_right fun _ => hmono.le_iff_le.symm)
  have hbatch := Table.takeBatch_eq (p := dueDoc clk target excludeTarget) (id_claimSet clk)
    id_eq_of_dueDocFirst (fun _ => rfl) (max 1 (min limit 256)).toNat m.docs
  rw [hmatches, ← map_take, map_map] at hbatch
  simp only [claimFanoutBatchMongo, hbatch, claimFanoutBatch_snd]
  have hid : ∀ r : OutboxRow π, (claimJobWrite clk r).id = r.id := fun _ => rfl
  refine ⟨⟨Table.updateWhere_image hid (id_claimSet clk) h.rows (fun r _ => ?_)
    fun _ _ _ => rfl, h.drawn⟩, ?_⟩
  · -- the ids that were selected, on both sides
    rw [dueIds, decide_eq_decide, mem_map, mem_map]
    exact exists_congr fun r' => and_congr_right fun _ => hmono.injective.eq_iff
  · rw [map_map, map_map]
    rfl

theorem Mirrors.retry (h : Mirrors newId ob m) (hmono : StrictMono newId) (cfg : OutboxConfig)
    (clk : Clock) (job : OutboxRow π) (jitter : ℚ) (error : String) :
    Mirrors newId (markFanoutRetry cfg clk job jitter error ob)
        (markFanoutRetryMongo cfg clk (job.asDoc newId) jitter error m).1 ∧
      (markFanoutRetryMongo cfg clk (job.asDoc newId) jitter error m).2 =
        if attemptsLeft cfg job then .retrying else .failed := by
  rcases hleft : attemptsLeft cfg job with _ | _
  · have hspent : ¬ (job.asDoc newId).attempts < if (job.asDoc newId).maxAttempts = 0 then
        cfg.fanoutMaxAttempts else (job.asDoc newId).maxAttempts := of_decide_eq_false hleft
    simp only [markFanoutRetryMongo, if_neg hspent]
    refine ⟨h.mark hmono (fun _ _ _ => rfl) fun r => ?_, rfl⟩
    simp [retryWrite, hleft, OutboxRow.asDoc]
  · have hmore : (job.asDoc newId).attempts < if (job.asDoc newId).maxAttempts = 0 then
        cfg.fanoutMaxAttempts else (job.asDoc newId).maxAttempts := of_decide_eq_true hleft
    simp only [markFanoutRetryMongo, if_pos hmore]
    refine ⟨h.mark hmono (fun _ _ _ => rfl) fun r => ?_, rfl⟩
    simp [retryWrite, hleft, OutboxRow.asDoc]

variable {p : OutboxRow π → Bool}

theorem Mirrors.updateMany (h : Mirrors newId ob m) {q : OutboxDoc ι π → Bool}
    {f : OutboxRow π → OutboxRow π} {g : OutboxDoc ι π → OutboxDoc ι π}
    (hf : ∀ r, (f r).toRowIdent = r.toRowIdent) (hg : ∀ d, (g d).id = d.id)
    (hp : ∀ r ∈ ob.rows, q (r.asDoc newId) = p r)
    (hfg : ∀ r : OutboxRow π, g (r.asDoc newId) = (f r).asDoc newId)
    (hmodifies : ∀ d, q d = true → g d ≠ d) :
    Mirrors newId (ob.updateWhere p f hf) { m with docs := (m.docs.updateMany q g hg).1 } ∧
      (m.docs.updateMany q g hg).2 = (ob.rows.filter p).length := by
  have hid : ∀ r : OutboxRow π, (f r).id = r.id := fun r => congrArg RowIdent.id (hf r)
  refine ⟨⟨Table.updateWhere_image hid hg h.rows hp fun r _ _ => hfg r, h.drawn⟩, ?_⟩
  rw [Table.updateMany_snd hg fun d _ => hmodifies d, Table.filter_image h.rows hp, length_map]

theorem Mirrors.recover (h : Mirrors newId ob m) (hexplained : ∀ r ∈ ob.rows, Explained past r)
    (clk : Clock) (maxAgeSecs : ℤ) :
    Mirrors newId (recoverStaleRunningJobs clk maxAgeSecs ob)
        (recoverStaleRunningJobsMongo clk maxAgeSecs m).1 ∧
      (recoverStaleRunningJobsMongo clk maxAgeSecs m).2 =
        (ob.rows.filter (staleRunning clk maxAgeSecs)).length := by
  have hmodifies : ∀ d : OutboxDoc ι π, staleDoc clk maxAgeSecs d = true →
      recoverSet clk d ≠ d := by
    intro d hstale heq
    have hrunning : d.status = .running := by
      rw [staleDoc, Bool.and_eq_true, decide_eq_true_eq] at hstale
      exact hstale.1
    rw [← heq] at hrunning
    cases hrunning
  -- the second update looks at the rows the first one left
  have hfirst : (m.docs.updateWhere (staleDoc clk maxAgeSecs) (recoverSet clk)
      (id_recoverSet clk)).rows = ob.rows.map fun r =>
        if staleRunning clk maxAgeSecs r then recoverSet clk (r.asDoc newId)
        else r.asDoc newId := by
    rw [Table.rows_updateWhere, h.rows, map_map]
    rfl
  have hsecond : ∀ r ∈ ob.rows,
      (fun d => if unexplained clk d then recoverErrorSet d else d)
        (if staleRunning clk maxAgeSecs r then recoverSet clk (r.asDoc newId)
          else r.asDoc newId) =
      (if staleRunning clk maxAgeSecs r then recoverJobWrite clk r else r).asDoc newId := by
    intro r hr
    rcases staleRunning clk maxAgeSecs r with _ | _
    · -- a row that was retrying before has its error text
      have hnot : unexplained clk (r.asDoc newId) = false := by
        rw [unexplained, Bool.and_eq_false_iff, Bool.and_eq_false_iff]
        by_cases hstatus : r.status = .retrying
        · exact .inr (decide_eq_false ((hexplained r hr).2 hstatus))
        · exact .inl (.inl (decide_eq_false hstatus))
      simp [hnot]
    · by_cases herror : r.lastError.getD "" = ""
      · simp [unexplained, recoverSet, recoverErrorSet, recoverJobWrite, OutboxRow.asDoc, herror]
      · simp [unexplained, recoverSet, recoverJobWrite, OutboxRow.asDoc, herror]
  refine ⟨⟨?_, h.drawn⟩, ?_⟩
  · calc ((m.docs.updateWhere (staleDoc clk maxAgeSecs) (recoverSet clk)
          (id_recoverSet clk)).updateWhere (unexplained clk) recoverErrorSet
            id_recoverErrorSet).rows
        = ob.rows.map fun r =>
            (if staleRunning clk maxAgeSecs r then recoverJobWrite clk r else r).asDoc newId := by
          rw [Table.rows_updateWhere, hfirst, map_map]
          exact map_congr_left hsecond
      _ = (recoverStaleRunningJobs clk maxAgeSecs ob).rows.map (OutboxRow.asDoc newId) := by
          change _ = (ob.rows.map fun r => if staleRunning clk maxAgeSecs r then
            recoverJobWrite clk r else r).map (OutboxRow.asDoc newId)
          rw [map_map]
          rfl
  · refine (Table.updateMany_snd (id_recoverSet clk) fun d _ => hmodifies d).trans ?_
    rw [Table.filter_image h.rows fun _ _ => rfl, length_map]
    rfl

omit [DecidableEq π] in
theorem explained_updateWhere (f : OutboxRow π → OutboxRow π)
    (hf : ∀ r, (f r).toRowIdent = r.toRowIdent) (h : ∀ r ∈ ob.rows, Explained past r)
    (hwritten : ∀ r, Explained past (f r)) :
    ∀ r ∈ (ob.updateWhere p f hf).rows, Explained past r := by
  intro r hr
  obtain ⟨r₀, hr₀, rfl⟩ := Outbox.mem_updateWhere.mp hr
  split
  · exact hwritten r₀
  · exact h r₀ hr₀

theorem truncate_ne_empty {error : String} (h : error ≠ "") : truncate 2000 error ≠ "" := by
  intro heq
  have hlist : error.toList.take 2000 = [] := by
    simpa [truncate] using congrArg String.toList heq
  rw [take_eq_nil_iff] at hlist
  exact h (String.toList_inj.mp (hlist.resolve_left (by decide)))

end

/-! ### The simulation -/

section

variable {cfg : OutboxConfig} {newId : ℕ → ι} {past : List Stamp}
  {s : CallHistory (Outbox π) (OutboxRow π)} {m : CallHistory (MongoOutbox ι π) (OutboxDoc ι π)}

structure Agrees (newId : ℕ → ι) (past : List Stamp) (s : CallHistory (Outbox π) (OutboxRow π))
    (m : CallHistory (MongoOutbox ι π) (OutboxDoc ι π)) : Prop where
  mirrors : Mirrors newId s.store m.store
  jobs : m.jobs = s.jobs.map (OutboxRow.asDoc newId)
  answers : m.answers = s.answers.map (CallAnswer.map (OutboxRow.asDoc newId))
  explained : ∀ r ∈ s.store.rows, Explained past r

inductive ResultsAgree (newId : ℕ → ι) (past : List Stamp) :
    Option (Outbox π × CallAnswer (OutboxRow π)) →
      Option (MongoOutbox ι π × CallAnswer (OutboxDoc ι π)) → Prop
  | none : ResultsAgree newId past none none
  | some {ob : Outbox π} {m : MongoOutbox ι π} (h : Mirrors newId ob m)
      (hexplained : ∀ r ∈ ob.rows, Explained past r) (answer : CallAnswer (OutboxRow π)) :
      ResultsAgree newId past (some (ob, answer)) (some (m, answer.map (OutboxRow.asDoc newId)))

theorem Agrees.mono {past' : List Stamp} (h : Agrees newId past s m) (hpast : past ⊆ past') :
    Agrees newId past' s m :=
  { h with explained := fun r hr => (h.explained r hr).mono hpast }

theorem Agrees.record (h : Agrees newId past s m) {result result'}
    (hresult : ResultsAgree newId past result result') :
    Agrees newId past (s.record result) (m.record result') := by
  cases hresult with
  | none => exact h
  | some hmirrors hexplained answer =>
    refine ⟨hmirrors, ?_, ?_, hexplained⟩
    · simp only [CallHistory.record, h.jobs, CallAnswer.handed_map, map_append]
    · simp only [CallHistory.record, h.answers, map_append, map_cons, map_nil]

theorem Agrees.marked (h : Agrees newId past s m) (job : ℕ)
    {mark : OutboxRow π → Outbox π × CallAnswer (OutboxRow π)}
    {mark' : OutboxDoc ι π → MongoOutbox ι π × CallAnswer (OutboxDoc ι π)}
    (hmark : ∀ r : OutboxRow π,
      ResultsAgree newId past (some (mark r)) (some (mark' (r.asDoc newId)))) :
    ResultsAgree newId past (s.jobs[job]?.map mark) (m.jobs[job]?.map mark') := by
  rw [h.jobs, List.getElem?_map]
  rcases s.jobs[job]? with _ | r
  · exact .none
  · exact hmark r

variable [LinearOrder ι] [DecidableEq π]

theorem Agrees.step (h : Agrees newId past s m) (hmono : StrictMono newId)
    (hrank : StrictMono cfg.rank) {call : OutboxCall π} (hregular : call.Regular)
    (hnow : call.now ∉ past) :
    Agrees newId (call.now :: past) (sqliteCallStep cfg s call)
      (mongoCallStep cfg newId m call) := by
  have hold : Agrees newId (call.now :: past) s m := h.mono (subset_cons_self _ _)
  have hin : call.now ∈ call.now :: past := mem_cons_self
  refine hold.record ?_
  cases call with
  | enqueue clk force drawn mongoDrawn event targets =>
    obtain ⟨hid, hnodup⟩ := hregular
    have hdrawn : effectiveEventId mongoDrawn event = effectiveEventId drawn event := by
      simp [effectiveEventId, hid]
    have hfresh : ∀ r ∈ s.store.rows, r.target ∈ targets → r.updatedAt ≠ clk.now := by
      intro r hr _ heq
      have hwritten := (h.explained r hr).1
      rw [heq] at hwritten
      exact hnow hwritten
    obtain ⟨hmirrors, hcount⟩ :=
      h.mirrors.enqueue hmono hrank hnodup clk force drawn event {} hfresh
    simp only [sqliteCallResult, mongoCallResult, enqueueFanoutOutbox, enqueueFanoutOutboxMongo,
      hdrawn, hcount]
    exact .some hmirrors (explained_enqueue hold.explained hin) (.counters _)
  | claim clk limit target excludeTarget =>
    obtain ⟨hmirrors, hjobs⟩ := h.mirrors.claim hmono hrank clk limit target excludeTarget
    simp only [sqliteCallResult, mongoCallResult, hjobs]
    refine .some hmirrors ?_ (.jobs _)
    exact explained_updateWhere (claimJobWrite clk) (fun _ => rfl) hold.explained
      fun _ => ⟨hin, fun hstatus => by cases hstatus⟩
  | markSuccess clk job =>
    refine hold.marked job fun r => .some (h.mirrors.mark hmono (fun _ _ _ => rfl) fun _ => rfl) ?_
      .marked
    exact explained_updateWhere (successWrite clk) (fun _ => rfl) hold.explained
      fun _ => ⟨hin, fun hstatus => by cases hstatus⟩
  | markFailed clk job error =>
    refine hold.marked job fun r => .some (h.mirrors.mark hmono (fun _ _ _ => rfl) fun _ => rfl) ?_
      .marked
    exact explained_updateWhere (failureWrite clk error) (fun _ => rfl) hold.explained
      fun _ => ⟨hin, fun hstatus => by cases hstatus⟩
  | markRetry clk job jitter error =>
    refine hold.marked job fun r => ?_
    obtain ⟨hmirrors, hstatus⟩ := h.mirrors.retry hmono cfg clk r jitter error
    simp only [hstatus]
    refine .some hmirrors ?_ (.nextStatus _)
    exact explained_updateWhere (retryWrite cfg clk r jitter error) (fun _ => rfl) hold.explained
      fun _ => ⟨hin, fun _ => truncate_ne_empty hregular⟩
  | failLetta clk error =>
    have hmodifies : ∀ d : OutboxDoc ι π,
        (decide (d.target = .letta) && d.status.outstanding) = true →
          failureSet clk error d ≠ d := by
      intro d hd heq
      rw [← heq, Bool.and_eq_true] at hd
      cases hd.2
    obtain ⟨hmirrors, hcount⟩ := h.mirrors.updateMany (f := failureWrite clk error) (fun _ => rfl)
      (id_failureSet clk error) (fun _ _ => rfl) (fun _ => rfl) hmodifies
    simp only [sqliteCallResult, mongoCallResult, failLettaBacklogMongo, hcount]
    refine .some hmirrors ?_ (.changed _)
    exact explained_updateWhere (failureWrite clk error) (fun _ => rfl) hold.explained
      fun _ => ⟨hin, fun hstatus => by cases hstatus⟩
  | recover clk maxAgeSecs =>
    obtain ⟨hmirrors, hcount⟩ := h.mirrors.recover h.explained clk maxAgeSecs
    simp only [sqliteCallResult, mongoCallResult, hcount]
    refine .some hmirrors ?_ (.changed _)
    refine explained_updateWhere (recoverJobWrite clk) (fun _ => rfl) hold.explained
      fun r => ⟨hin, fun _ => ?_⟩
    by_cases herror : r.lastError.getD "" = "" <;> simp [recoverJobWrite, herror]

theorem Agrees.run (h : Agrees newId past s m) (hmono : StrictMono newId)
    (hrank : StrictMono cfg.rank) {calls : List (OutboxCall π)}
    (hregular : ∀ call ∈ calls, call.Regular) (hclock : (calls.map OutboxCall.now).Nodup)
    (hpast : ∀ call ∈ calls, call.now ∉ past) :
    ∃ past', Agrees newId past' (Foundation.run (sqliteCallStep cfg) s calls)
      (Foundation.run (mongoCallStep cfg newId) m calls) := by
  induction calls generalizing past s m with
  | nil => exact ⟨past, h⟩
  | cons call calls ih =>
    rw [map_cons, nodup_cons] at hclock
    have hstep := h.step hmono hrank (hregular call mem_cons_self)
      (hpast call mem_cons_self)
    refine ih hstep (fun c hc => hregular c (mem_cons_of_mem _ hc)) hclock.2 fun c hc => ?_
    rw [mem_cons, not_or]
    exact ⟨fun heq => hclock.1 (heq ▸ mem_map_of_mem hc), hpast c (mem_cons_of_mem _ hc)⟩

/-- **The two outboxes agree** after every history of regular calls at different stamps, up to the
ids of the jobs. -/
theorem outboxes_agree (cfg : OutboxConfig) (hrank : StrictMono cfg.rank) (newId : ℕ → ι)
    (hmono : StrictMono newId) (calls : List (OutboxCall π))
    (hregular : ∀ call ∈ calls, call.Regular) (hclock : (calls.map OutboxCall.now).Nodup) :
    let s := run (sqliteCallStep cfg) ⟨.empty, [], []⟩ calls
    let m := run (mongoCallStep cfg newId) ⟨.empty, [], []⟩ calls
    m.store.docs.rows = s.store.rows.map (OutboxRow.asDoc newId) ∧
      m.answers = s.answers.map (CallAnswer.map (OutboxRow.asDoc newId)) := by
  have hempty : Agrees newId [] (⟨.empty, [], []⟩ : CallHistory (Outbox π) (OutboxRow π))
      ⟨.empty, [], []⟩ := ⟨.empty newId, rfl, rfl, by simp⟩
  obtain ⟨past, h⟩ := hempty.run hmono hrank hregular hclock (by simp)
  exact ⟨h.mirrors.rows, h.answers⟩

end

def mixedCalls : List (OutboxCall Unit) :=
  let clk := fun now => (⟨now, fun _ => now, fun _ => "0"⟩ : Clock)
  let event := fun eventId => (⟨eventId, "p", "f.md", "s", "t", [], ()⟩ : FanoutEvent Unit)
  [.enqueue (clk "1") false "a" "b" (event "e1") [.mongoRaw, .letta],
    .enqueue (clk "2") false "a" "b" (event "e2") [.mongoRaw, .letta],
    .enqueue (clk "3") true "a" "b" (event "e1") [.mongoRaw],
    .claim (clk "4") 8 none (some .qdrant),
    .markSuccess (clk "5") 0,
    .markRetry (clk "6") 1 0 "refused",
    .recover (clk "7") 0,
    .failLetta (clk "8") "disabled"]

theorem outboxes_agree_mixedCalls :
    (∀ call ∈ mixedCalls, call.Regular) ∧ (mixedCalls.map OutboxCall.now).Nodup ∧
      (let s := run (sqliteCallStep .default) ⟨.empty, [], []⟩ mixedCalls
       let m := run (mongoCallStep .default (100 + ·)) ⟨.empty, [], []⟩ mixedCalls
       m.store.docs.rows = s.store.rows.map (OutboxRow.asDoc (100 + ·)) ∧
         m.answers = s.answers.map (CallAnswer.map (OutboxRow.asDoc (100 + ·)))) :=
  ⟨by decide, by decide, outboxes_agree .default strictMono_id (100 + ·)
    (fun _ _ h => Nat.add_lt_add_left h 100) mixedCalls (by decide) (by decide)⟩

end ContextLattice
