import ContextLattice.Foundation.Handout
import ContextLattice.Outbox.Agreement

/-!
# Claims are exclusive

In SQLite a claim is one transaction; in Mongo it is a loop of atomic `find_one_and_update`, with
other operations in between. A row that was handed out is not waiting (`JobTaken`, `DocTaken`).
-/

namespace ContextLattice

open Foundation List

variable {ι π : Type*}

/-! ### Eligible rows -/

structure Eligible (clk : Clock) (target excludeTarget : Option FanoutTarget) (status : JobStatus)
    (nextAttemptAt : Stamp) (rowTarget : FanoutTarget) : Prop where
  waiting : status.waiting = true
  due : nextAttemptAt ≤ clk.now
  only : ∀ t, target = some t → rowTarget = t
  other : target = none → ∀ t, excludeTarget = some t → rowTarget ≠ t

variable {clk : Clock} {target excludeTarget : Option FanoutTarget}

theorem eligible_of_dueDoc {d : OutboxDoc ι π} (h : dueDoc clk target excludeTarget d = true) :
    Eligible clk target excludeTarget d.status d.nextAttemptAt d.target := by
  simp only [dueDoc, Bool.and_eq_true, decide_eq_true_eq] at h
  obtain ⟨⟨hwaiting, hdue⟩, htarget⟩ := h
  refine ⟨hwaiting, hdue, fun t ht => ?_, fun hnone t ht => ?_⟩
  · subst ht
    simpa using htarget
  · subst hnone ht
    simpa using htarget

theorem eligible_of_dueJob {r : OutboxRow π} (h : dueJob clk target excludeTarget r = true) :
    Eligible clk target excludeTarget r.status r.nextAttemptAt r.target := by
  have hdoc : dueDoc clk target excludeTarget (r.asDoc id) = true := h
  exact eligible_of_dueDoc hdoc

/-! ### SQLite -/

variable (cfg : OutboxConfig)

def handedJobs (s : OutboxState π) : OutboxOp π → List (OutboxRow π)
  | .claim clk _ limit target excludeTarget =>
    (claimFanoutBatch cfg clk limit target excludeTarget s.outbox).2
  | _ => []

def ReleasesJob (s : OutboxState π) (op : OutboxOp π) (i : ℕ) : Prop :=
  match op with
  | .markSuccess _ _ jobId | .markRetry _ _ jobId _ _ | .markFailed _ _ jobId _ => jobId = i
  | .failLetta .. => ∃ r ∈ s.outbox.rows, r.id = i ∧ r.target = .letta ∧ r.status.outstanding = true
  | .recover clk maxAgeSecs => ∃ r ∈ s.outbox.rows, r.id = i ∧ staleRunning clk maxAgeSecs r = true
  | _ => False

def OutboxOp.forces : OutboxOp π → Bool
  | .enqueue _ force _ _ _ => force
  | _ => false

def JobTaken (s : OutboxState π) (i : ℕ) : Prop :=
  i < s.outbox.nextId ∧ ∀ r ∈ s.outbox.rows, r.id = i → r.status.waiting = false

variable {cfg} {s : OutboxState π} {op : OutboxOp π}

theorem mem_handedJobs {job : OutboxRow π} (h : job ∈ handedJobs cfg s op) :
    ∃ clk worker limit target excludeTarget, op = .claim clk worker limit target excludeTarget ∧
      ∃ r ∈ s.outbox.rows, r.id ∈ dueIds cfg clk limit target excludeTarget s.outbox ∧
        dueJob clk target excludeTarget r = true ∧ job = claimJobWrite clk r := by
  cases op with
  | claim clk worker limit target excludeTarget =>
    rw [handedJobs, claimFanoutBatch_snd] at h
    obtain ⟨r, hr, rfl⟩ := mem_map.mp h
    obtain ⟨hrow, hdue⟩ := Table.mem_sortedMatches.mp (mem_of_mem_take hr)
    exact ⟨clk, worker, limit, target, excludeTarget, rfl, r, hrow, mem_map_of_mem hr, hdue, rfl⟩
  | _ => cases h

theorem nodup_handedJobs (cfg : OutboxConfig) (s : OutboxState π) (op : OutboxOp π) :
    ((handedJobs cfg s op).map fun job => job.id).Nodup := by
  cases op with
  | claim clk worker limit target excludeTarget =>
    rw [handedJobs, claimFanoutBatch_snd, map_map]
    exact (Table.nodup_sortedMatches ..).sublist ((take_sublist _ _).map _)
  | _ => exact nodup_nil

theorem JobTaken.step {i : ℕ} (h : JobTaken s i) (hforce : op.forces = false)
    (hrelease : ¬ ReleasesJob s op i) : JobTaken (outboxStep cfg s op) i := by
  refine ⟨h.1.trans_le (nextId_le_step cfg s op), fun r' hr' hid => ?_⟩
  rcases exists_change_of_mem hr' with ⟨r, hr, hchange⟩ | hinserts
  · have hid₀ : r.id = i := (congrArg RowIdent.id hchange.ident).symm.trans hid
    have hnot : r.status.waiting = false := h.2 r hr hid₀
    cases hchange with
    | same => exact hnot
    | coalesced hcandidate =>
      exact absurd (coalesceCandidate_eq_some hcandidate).2.2.2.2.1 (by simp [hnot])
    | requeued => cases hforce
    | claimed | succeeded | failed | lettaFailed => rfl
    | retried => exact absurd hid₀ hrelease
    | @recovered clk maxAgeSecs _ _ =>
      -- a row that is not stale is not the one the update wrote
      simp only [outboxStep, recoverStaleRunningJobs] at hr'
      obtain ⟨r₀, hr₀, heq⟩ := Outbox.mem_updateWhere.mp hr'
      rcases hstale : staleRunning clk maxAgeSecs r₀ with _ | _
      · rw [hstale, if_neg Bool.false_ne_true] at heq
        rw [heq] at hid ⊢
        exact h.2 r₀ hr₀ hid
      · rw [hstale, if_pos rfl] at heq
        rw [heq] at hid
        exact absurd ⟨r₀, hr₀, hid, hstale⟩ hrelease
  · cases hinserts
    exact absurd hid.symm h.1.ne

theorem handedOnce_sqlite (cfg : OutboxConfig) (s : OutboxState π) {es : List (OutboxOp π)}
    (hforce : ∀ op ∈ es, op.forces = false) :
    HandedOnce (outboxStep cfg) (fun s op => (handedJobs cfg s op).map fun job => job.id)
      ReleasesJob s es := by
  have hfree : ∀ (s : OutboxState π) (op : OutboxOp π) (i : ℕ),
      i ∈ (handedJobs cfg s op).map (fun job => job.id) → ¬ JobTaken s i := by
    intro s op i hi htaken
    obtain ⟨job, hjob, rfl⟩ := mem_map.mp hi
    obtain ⟨clk, _, _, _, _, -, r, hr, -, hdue, rfl⟩ := mem_handedJobs hjob
    have hwaiting := (eligible_of_dueJob hdue).waiting
    rw [htaken.2 r hr rfl] at hwaiting
    cases hwaiting
  have htakes : ∀ (s : OutboxState π) (op : OutboxOp π) (i : ℕ),
      i ∈ (handedJobs cfg s op).map (fun job => job.id) → JobTaken (outboxStep cfg s op) i := by
    intro s op i hi
    obtain ⟨job, hjob, rfl⟩ := mem_map.mp hi
    obtain ⟨clk, worker, limit, target, excludeTarget, rfl, r, hr, hid, -, rfl⟩ :=
      mem_handedJobs hjob
    refine ⟨s.outbox.id_lt r hr, fun r' hr' hr'id => ?_⟩
    obtain ⟨r₀, -, rfl⟩ := mem_claimFanoutBatch.mp hr'
    by_cases hr₀ : r₀.id ∈ dueIds cfg clk limit target excludeTarget s.outbox
    · rw [if_pos hr₀]
      rfl
    · rw [if_neg hr₀] at hr'id
      exact absurd (hr'id ▸ hid) hr₀
  have hkeeps : ∀ (s : OutboxState π) (op : OutboxOp π) (i : ℕ), op.forces = false →
      JobTaken s i → ¬ ReleasesJob s op i → JobTaken (outboxStep cfg s op) i :=
    fun s op i hforce h hrelease => h.step hforce hrelease
  exact handedOnce_of_taken (nodup_handedJobs cfg) hfree htakes hkeeps hforce

/-! ### Mongo, one operation at a time -/

structure ClaimArgs where
  clk : Clock
  target : Option FanoutTarget
  excludeTarget : Option FanoutTarget

structure ClaimLoop (ι π : Type*) extends ClaimArgs where
  left : ℕ
  rows : List (OutboxDoc ι π) := []

structure ClaimState (ι π : Type*) where
  outbox : MongoOutbox ι π
  calls : ℕ → Option (ClaimLoop ι π)

inductive ClaimOp (ι π : Type*) where
  | start (call : ℕ) (clk : Clock) (limit : ℤ) (target excludeTarget : Option FanoutTarget)
  | take (call : ℕ)
  | coalesce (clk : Clock) (event : FanoutEvent π) (id : ι)
  | insert (clk : Clock) (eventId : String) (event : FanoutEvent π) (target : FanoutTarget)
  | markSuccess (clk : Clock) (id : ι)
  | markFailed (clk : Clock) (id : ι) (error : String)
  | markRetry (clk : Clock) (job : OutboxDoc ι π) (jitter : ℚ) (error : String)
  | failLetta (clk : Clock) (error : String) (id : ι)
  | recover (clk : Clock) (maxAgeSecs : ℤ) (id : ι)
  | explain (clk : Clock) (id : ι)

section

variable [LinearOrder ι] [DecidableEq π] (cfg : OutboxConfig) (newId : ℕ → ι)

def ClaimState.round (s : ClaimState ι π) (call : ℕ) :
    Option (ClaimLoop ι π × Option (OutboxDocs ι π × OutboxDoc ι π)) :=
  match s.calls call with
  | none => none
  | some loop =>
    if loop.left = 0 then none
    else some (loop, s.outbox.docs.findOneAndUpdate
      (dueDoc loop.clk loop.target loop.excludeTarget) dueDocFirst (claimSet loop.clk)
      (id_claimSet loop.clk))

def ClaimState.write (s : ClaimState ι π) (p : OutboxDoc ι π → Bool)
    (f : OutboxDoc ι π → OutboxDoc ι π) (hf : ∀ d, (f d).id = d.id) (id : ι) : ClaimState ι π :=
  { s with outbox := { s.outbox with docs := (s.outbox.docs.updateOne p f hf id).1 } }

def claimStep (s : ClaimState ι π) : ClaimOp ι π → ClaimState ι π
  | .start call clk limit target excludeTarget =>
    { s with
      calls := Function.update s.calls call
        (some ⟨⟨clk, target, excludeTarget⟩, (max 1 (min limit 256)).toNat, []⟩) }
  | .take call =>
    match s.round call with
    | none => s
    | some (loop, none) =>
      -- `if not row: break`
      { s with calls := Function.update s.calls call (some { loop with left := 0 }) }
    | some (loop, some (docs, d)) =>
      { outbox := { s.outbox with docs }
        calls := Function.update s.calls call
          (some { loop with left := loop.left - 1, rows := loop.rows ++ [d] }) }
  | .coalesce clk event id =>
    s.write (fun d => d.status.waiting) (coalesceSet clk event) (id_coalesceSet clk event) id
  | .insert clk eventId event target =>
    match insertOne s.outbox.docs (newDoc cfg clk (newId s.outbox.drawn) eventId event target) with
    | some docs => { s with outbox := ⟨docs, s.outbox.drawn + 1⟩ }
    | none => { s with outbox := { s.outbox with drawn := s.outbox.drawn + 1 } }
  | .markSuccess clk id => { s with outbox := markFanoutSuccessMongo clk id s.outbox }
  | .markFailed clk id error => { s with outbox := markFanoutFailedMongo clk id error s.outbox }
  | .markRetry clk job jitter error =>
    { s with outbox := (markFanoutRetryMongo cfg clk job jitter error s.outbox).1 }
  | .failLetta clk error id =>
    s.write (fun d => decide (d.target = .letta) && d.status.outstanding) (failureSet clk error)
      (id_failureSet clk error) id
  | .recover clk maxAgeSecs id =>
    s.write (staleDoc clk maxAgeSecs) (recoverSet clk) (id_recoverSet clk) id
  | .explain clk id => s.write (unexplained clk) recoverErrorSet id_recoverErrorSet id

def handedDocs (s : ClaimState ι π) : ClaimOp ι π → List (OutboxDoc ι π)
  | .take call =>
    match s.round call with
    | some (_, some (_, d)) => [d]
    | _ => []
  | _ => []

def ReleasesDoc (s : ClaimState ι π) (op : ClaimOp ι π) (i : ι) : Prop :=
  match op with
  | .markSuccess _ id | .markFailed _ id _ => id = i
  | .markRetry _ job _ _ => job.id = i
  | .failLetta _ _ id => id = i ∧ ∃ d ∈ s.outbox.docs.rows, d.id = i ∧ d.target = .letta ∧
      d.status.outstanding = true
  | .recover clk maxAgeSecs id => id = i ∧ ∃ d ∈ s.outbox.docs.rows, d.id = i ∧
      staleDoc clk maxAgeSecs d = true
  | _ => False

def DocTaken (s : ClaimState ι π) (i : ι) : Prop :=
  ∃ d ∈ s.outbox.docs.rows, d.id = i ∧ d.status.waiting = false

variable {cfg newId} {s : ClaimState ι π} {op : ClaimOp ι π} {i : ι}

variable {call : ℕ} {loop : ClaimLoop ι π} {d : OutboxDoc ι π}

omit [DecidableEq π] in
theorem ClaimState.round_eq
    {taken : Option (OutboxDocs ι π × OutboxDoc ι π)} (h : s.round call = some (loop, taken)) :
    s.calls call = some loop ∧ taken = s.outbox.docs.findOneAndUpdate
      (dueDoc loop.clk loop.target loop.excludeTarget) dueDocFirst (claimSet loop.clk)
      (id_claimSet loop.clk) := by
  rw [round] at h
  rcases hcall : s.calls call with _ | loop'
  · rw [hcall] at h
    cases h
  · rw [hcall] at h
    dsimp only at h
    split at h
    · cases h
    · rw [Option.some.injEq, Prod.mk.injEq] at h
      obtain ⟨rfl, rfl⟩ := h
      exact ⟨rfl, rfl⟩

omit [DecidableEq π] in
theorem ClaimState.round_eq_some {docs : OutboxDocs ι π} (h : s.round call = some (loop, some (docs,
    d))) : s.calls call = some loop ∧ ∃ d₀ ∈ s.outbox.docs.rows, dueDoc loop.clk loop.target
    loop.excludeTarget d₀ = true ∧ d = claimSet loop.clk d₀ ∧ docs = s.outbox.docs.update d₀.id
    (claimSet loop.clk) (id_claimSet loop.clk) := by
  obtain ⟨hcall, htaken⟩ := round_eq h
  obtain ⟨d₀, hd₀, heq⟩ := Option.map_eq_some_iff.mp htaken.symm
  obtain ⟨hmem, hdue⟩ := Table.findOne_eq_some hd₀
  rw [Prod.mk.injEq] at heq
  exact ⟨hcall, d₀, hmem, hdue, heq.2.symm, heq.1.symm⟩

omit [DecidableEq π] in
theorem mem_of_insertOne {docs docs' : OutboxDocs ι π} {new : OutboxDoc ι π}
    (h : insertOne docs new = some docs') (hd : d ∈ docs.rows) : d ∈ docs'.rows := by
  rw [insertOne] at h
  split at h
  · split at h
    · rw [Option.some.injEq] at h
      subst h
      exact mem_append_left _ hd
    · cases h
  · cases h

theorem DocTaken.write (h : DocTaken s i) {p : OutboxDoc ι π → Bool}
    {f : OutboxDoc ι π → OutboxDoc ι π} {hf : ∀ d, (f d).id = d.id} {id : ι}
    (hkeeps : ∀ d ∈ s.outbox.docs.rows, d.id = i → d.status.waiting = false → id = i →
      p d = true → (f d).status.waiting = false) : DocTaken (s.write p f hf id) i := by
  obtain ⟨d, hd, hid, hnot⟩ := h
  refine ⟨if (decide (d.id = id) && p d) then f d else d, mem_map_of_mem hd, ?_⟩
  split
  · rename_i hp
    rw [Bool.and_eq_true, decide_eq_true_eq] at hp
    exact ⟨(hf d).trans hid, hkeeps d hd hid hnot (hp.1.symm.trans hid) hp.2⟩
  · exact ⟨hid, hnot⟩

theorem DocTaken.step (h : DocTaken s i) (hrelease : ¬ ReleasesDoc s op i) :
    DocTaken (claimStep cfg newId s op) i := by
  cases op with
  | start => exact h
  | take call =>
    obtain ⟨d, hd, hid, hnot⟩ := h
    rw [claimStep]
    split
    · exact ⟨d, hd, hid, hnot⟩
    · exact ⟨d, hd, hid, hnot⟩
    · rename_i loop docs d' hround
      obtain ⟨-, d₀, -, -, -, rfl⟩ := ClaimState.round_eq_some hround
      refine ⟨if d.id = d₀.id then claimSet loop.clk d else d, ?_, ?_⟩
      · rw [Table.rows_update]
        exact mem_map_of_mem hd
      · split
        · exact ⟨hid, rfl⟩
        · exact ⟨hid, hnot⟩
  | coalesce clk event id =>
    refine h.write fun d _ _ hnot _ hwaiting => ?_
    rw [hnot] at hwaiting
    cases hwaiting
  | insert clk eventId event target =>
    obtain ⟨d, hd, hid, hnot⟩ := h
    simp only [claimStep]
    split
    · rename_i docs hdocs
      exact ⟨d, mem_of_insertOne hdocs hd, hid, hnot⟩
    · exact ⟨d, hd, hid, hnot⟩
  | markSuccess | markFailed => exact h.write fun _ _ _ _ hid _ => absurd hid hrelease
  | markRetry clk job jitter error =>
    rw [claimStep, markFanoutRetryMongo]
    generalize (if job.maxAttempts = 0 then cfg.fanoutMaxAttempts else job.maxAttempts) = n
    split <;> exact h.write fun _ _ _ _ hid _ => absurd hid hrelease
  | failLetta clk error id => exact h.write fun _ _ _ _ _ _ => rfl
  | recover clk maxAgeSecs id =>
    exact h.write fun d hd hdi _ hid hstale => absurd ⟨hid, d, hd, hdi, hstale⟩ hrelease
  | explain clk id => exact h.write fun _ _ _ hnot _ _ => hnot

omit [DecidableEq π] in
theorem mem_handedDocs (h : d ∈ handedDocs s op) :
    ∃ call loop docs, op = .take call ∧ s.round call = some (loop, some (docs, d)) := by
  cases op with
  | take call =>
    rw [handedDocs] at h
    split at h
    · rename_i loop docs d' hround
      obtain rfl := mem_singleton.mp h
      exact ⟨call, loop, docs, rfl, hround⟩
    · cases h
  | _ => cases h

theorem handedOnce_mongo (cfg : OutboxConfig) (newId : ℕ → ι) (s : ClaimState ι π)
    (es : List (ClaimOp ι π)) :
    HandedOnce (claimStep cfg newId) (fun s op => (handedDocs s op).map fun d => d.id)
      ReleasesDoc s es := by
  have hnodup : ∀ (s : ClaimState ι π) (op : ClaimOp ι π),
      ((handedDocs s op).map fun d => d.id).Nodup := by
    intro s op
    cases op with
    | take call =>
      rw [handedDocs]
      split
      · exact nodup_singleton _
      · exact nodup_nil
    | _ => exact nodup_nil
  have hfree : ∀ (s : ClaimState ι π) (op : ClaimOp ι π) (i : ι),
      i ∈ (handedDocs s op).map (fun d => d.id) → ¬ DocTaken s i := by
    rintro s op i hi ⟨d, hd, hid, hnot⟩
    obtain ⟨d', hd', rfl⟩ := mem_map.mp hi
    obtain ⟨call, loop, docs, -, hround⟩ := mem_handedDocs hd'
    obtain ⟨-, d₀, hd₀, hdue, rfl, -⟩ := ClaimState.round_eq_some hround
    obtain rfl : d = d₀ := Table.eq_of_mem_of_key hd hd₀ hid
    rw [(eligible_of_dueDoc hdue).waiting] at hnot
    cases hnot
  have htakes : ∀ (s : ClaimState ι π) (op : ClaimOp ι π) (i : ι),
      i ∈ (handedDocs s op).map (fun d => d.id) → DocTaken (claimStep cfg newId s op) i := by
    intro s op i hi
    obtain ⟨d', hd', rfl⟩ := mem_map.mp hi
    obtain ⟨call, loop, docs, rfl, hround⟩ := mem_handedDocs hd'
    obtain ⟨-, d₀, hd₀, -, rfl, rfl⟩ := ClaimState.round_eq_some hround
    rw [claimStep, hround]
    refine ⟨claimSet loop.clk d₀, ?_, rfl, rfl⟩
    rw [Table.rows_update]
    exact mem_map.mpr ⟨d₀, hd₀, if_pos rfl⟩
  have hkeeps : ∀ (s : ClaimState ι π) (op : ClaimOp ι π) (i : ι), True →
      DocTaken s i → ¬ ReleasesDoc s op i → DocTaken (claimStep cfg newId s op) i :=
    fun s op i _ h hrelease => h.step hrelease
  exact handedOnce_of_taken hnodup hfree htakes hkeeps fun _ _ => trivial

theorem batch_step {loop' : ClaimLoop ι π}
    (h : (claimStep cfg newId s op).calls call = some loop') {job : OutboxDoc ι π}
    (hjob : job ∈ loop'.rows) :
    (∃ loop, s.calls call = some loop ∧ job ∈ loop.rows ∧
        loop.toClaimArgs = loop'.toClaimArgs) ∨
      op = .take call ∧ ∃ d ∈ s.outbox.docs.rows, job = claimSet loop'.clk d ∧
        dueDoc loop'.clk loop'.target loop'.excludeTarget d = true := by
  cases op with
  | start call' clk limit target excludeTarget =>
    simp only [claimStep, Function.update_apply] at h
    split at h
    · rw [Option.some.injEq] at h
      subst h
      cases hjob
    · exact .inl ⟨loop', h, hjob, rfl⟩
  | take call' =>
    rw [claimStep] at h
    split at h
    · exact .inl ⟨loop', h, hjob, rfl⟩
    · -- the loop breaks off
      rename_i loop hround
      simp only [Function.update_apply] at h
      split at h
      · rename_i hcall
        rw [Option.some.injEq] at h
        subst h hcall
        exact .inl ⟨loop, (ClaimState.round_eq hround).1, hjob, rfl⟩
      · exact .inl ⟨loop', h, hjob, rfl⟩
    · rename_i loop docs d' hround
      obtain ⟨hloop, d, hd, hdue, rfl, -⟩ := ClaimState.round_eq_some hround
      simp only [Function.update_apply] at h
      split at h
      · rename_i hcall
        rw [Option.some.injEq] at h
        subst h hcall
        rcases mem_append.mp hjob with hold | hnew
        · exact .inl ⟨loop, hloop, hold, rfl⟩
        · exact .inr ⟨rfl, d, hd, mem_singleton.mp hnew, hdue⟩
      · exact .inl ⟨loop', h, hjob, rfl⟩
  | insert clk eventId event target =>
    rw [claimStep] at h
    split at h <;> exact .inl ⟨loop', h, hjob, rfl⟩
  | _ => exact .inl ⟨loop', h, hjob, rfl⟩

theorem batch_run (cfg : OutboxConfig) (newId : ℕ → ι) (m : MongoOutbox ι π)
    (es : List (ClaimOp ι π))
    (h : (run (claimStep cfg newId) ⟨m, fun _ => none⟩ es).calls call = some loop)
    {job : OutboxDoc ι π} (hjob : job ∈ loop.rows) :
    ∃ pre post, es = pre ++ .take call :: post ∧
      ∃ d ∈ (run (claimStep cfg newId) ⟨m, fun _ => none⟩ pre).outbox.docs.rows,
        job = claimSet loop.clk d ∧
          dueDoc loop.clk loop.target loop.excludeTarget d = true := by
  induction es using List.reverseRecOn generalizing loop with
  | nil => cases h
  | append_singleton es op ih =>
    rw [run_append, run_cons, run_nil] at h
    rcases batch_step h hjob with ⟨loop₀, hcall, hmem, hargs⟩ | ⟨rfl, hd⟩
    · obtain ⟨pre, post, rfl, hd⟩ := ih hcall hmem
      rw [hargs] at hd
      exact ⟨pre, post ++ [op], by simp, hd⟩
    · exact ⟨es, [], rfl, hd⟩

end

/-! ### Both backends -/

/-- **Claims are exclusive** on both backends: between two hand-outs of a row it is released, and
every batch holds rows that were waiting and due when they were taken. -/
theorem claims_exclusive [LinearOrder ι] [DecidableEq π] (cfg : OutboxConfig) (newId : ℕ → ι) :
    (∀ (s : OutboxState π) (es : List (OutboxOp π)), (∀ op ∈ es, op.forces = false) →
      HandedOnce (outboxStep cfg) (fun s op => (handedJobs cfg s op).map fun job => job.id)
          ReleasesJob s es ∧
        ∀ pre post clk worker limit target excludeTarget,
          es = pre ++ .claim clk worker limit target excludeTarget :: post →
          let before := run (outboxStep cfg) s pre
          ∀ job ∈ (claimFanoutBatch cfg clk limit target excludeTarget before.outbox).2,
            ∃ r ∈ before.outbox.rows, job = claimJobWrite clk r ∧
              Eligible clk target excludeTarget r.status r.nextAttemptAt r.target) ∧
    ∀ (m : MongoOutbox ι π) (es : List (ClaimOp ι π)),
      HandedOnce (claimStep cfg newId) (fun s op => (handedDocs s op).map fun d => d.id)
          ReleasesDoc ⟨m, fun _ => none⟩ es ∧
        ∀ call loop, (run (claimStep cfg newId) ⟨m, fun _ => none⟩ es).calls call = some loop →
          ∀ job ∈ loop.rows, ∃ pre post, es = pre ++ .take call :: post ∧
            ∃ d ∈ (run (claimStep cfg newId) ⟨m, fun _ => none⟩ pre).outbox.docs.rows,
              job = claimSet loop.clk d ∧
                Eligible loop.clk loop.target loop.excludeTarget d.status d.nextAttemptAt
                  d.target := by
  refine ⟨fun s es hforce => ⟨handedOnce_sqlite cfg s hforce, ?_⟩, fun m es =>
    ⟨handedOnce_mongo cfg newId _ es, fun call loop hcall job hjob => ?_⟩⟩
  · intro pre post clk worker limit target excludeTarget _ before job hjob
    have hhanded :
        job ∈ handedJobs cfg before (.claim clk worker limit target excludeTarget) := hjob
    obtain ⟨_, _, _, _, _, heq, r, hr, -, hdue, rfl⟩ := mem_handedJobs hhanded
    cases heq
    exact ⟨r, hr, rfl, eligible_of_dueJob hdue⟩
  · obtain ⟨pre, post, hes, d, hd, hjob', hdue⟩ := batch_run cfg newId m es hcall hjob
    exact ⟨pre, post, hes, d, hd, hjob', eligible_of_dueDoc hdue⟩

def rehandedRun : List (OutboxOp Unit) :=
  [.enqueue (.frozen "1") false "" ⟨"e", "p", "f.md", "s", "t", [], ()⟩ .qdrant,
    .claim (.frozen "2") 0 8 none none,
    .markRetry (.frozen "3") 0 1 0 "refused",
    .claim (.frozen "4") 1 8 none none]

theorem claims_exclusive_rehandedRun :
    (handedJobs .default (run (outboxStep .default) .empty (rehandedRun.take 1))
        (.claim (.frozen "2") 0 8 none none)).map (fun job => job.id) = [1] ∧
      (handedJobs .default (run (outboxStep .default) .empty (rehandedRun.take 3))
        (.claim (.frozen "4") 1 8 none none)).map (fun job => job.id) = [1] ∧
      (∀ op ∈ rehandedRun, op.forces = false) ∧
      HandedOnce (outboxStep .default)
        (fun s op => (handedJobs .default s op).map fun job => job.id) ReleasesJob .empty
        rehandedRun :=
  ⟨by decide +kernel, by decide +kernel, by decide,
    ((claims_exclusive .default (id : ℕ → ℕ)).1 .empty rehandedRun (by decide)).1⟩

end ContextLattice
