import ContextLattice.Outbox.System

/-!
# The retry budget of an event

`mark_fanout_retry` gives a job up after `FANOUT_MAX_ATTEMPTS` attempts. They are counted in the
row, and coalescing does not set the count back. `BudgetState` adds the history of the attempts.
-/

namespace ContextLattice

open Foundation List

variable {π : Type*}

structure BudgetState (π : Type*) where
  sys : OutboxState π
  attempted : List (ℕ × FanoutEvent π) := []

def BudgetState.empty : BudgetState π := { sys := .empty }

section

variable (cfg : OutboxConfig)

def attemptsBegun (s : OutboxState π) : OutboxOp π → List (ℕ × FanoutEvent π)
  | .claim clk _ limit target excludeTarget =>
    (claimFanoutBatch cfg clk limit target excludeTarget s.outbox).2.map fun job =>
      (job.id, job.payload)
  | _ => []

def budgetStep (s : BudgetState π) (op : OutboxOp π) : BudgetState π where
  sys := outboxStep cfg s.sys op
  attempted := s.attempted ++ attemptsBegun cfg s.sys op

variable [DecidableEq π]

def BudgetState.made (s : BudgetState π) (i : ℕ) (event : FanoutEvent π) : ℕ :=
  s.attempted.count (i, event)

def FullBudget (s : BudgetState π) : OutboxOp π → Prop
  | .markRetry _ w i _ _ => ∀ h ∈ s.sys.job? w i, attemptsLeft cfg h.job = false →
    ∀ r ∈ s.sys.outbox.rows, r.id = i → cfg.fanoutMaxAttempts ≤ s.made i r.payload
  | _ => True

/-- A payload is coalesced into a row not attempted yet, or with the same payload; and a mark that
gives its row up finds the payload the job was claimed with. -/
def OwnAttempts (s : BudgetState π) : OutboxOp π → Prop
  | .enqueue clk force _ event target =>
    ∀ r ∈ coalesceCandidate cfg clk force event target s.sys.outbox,
      r.attempts = 0 ∨ r.payload = event
  | .markRetry _ w i _ _ => ∀ h ∈ s.sys.job? w i, attemptsLeft cfg h.job = false →
    ∀ r ∈ s.sys.outbox.rows, r.id = i → r.payload = h.job.payload
  | _ => True

instance (s : BudgetState π) (op : OutboxOp π) : Decidable (OwnAttempts cfg s op) :=
  match op with
  | .enqueue .. | .claim .. | .deliver .. | .markSuccess .. | .markRetry .. | .markFailed ..
  | .failLetta .. | .recover .. | .gc .. | .prune .. | .restart .. => by
    unfold OwnAttempts
    infer_instance

def Covered (s : BudgetState π) (r : OutboxRow π) : Prop :=
  r.attempts ≤ s.made r.id r.payload ∧ r.maxAttempts = cfg.fanoutMaxAttempts

variable {cfg} {s : BudgetState π} {op : OutboxOp π} {r r' : OutboxRow π}

theorem Covered.mono (h : Covered cfg s r) : Covered cfg (budgetStep cfg s op) r :=
  ⟨h.1.trans (by simp [BudgetState.made, budgetStep]), h.2⟩

theorem JobChange.covered (hchange : JobChange cfg s.sys op r r') (hop : ¬ op.claims)
    (hown : OwnAttempts cfg s op) (hr : Covered cfg s r) : Covered cfg s r' := by
  cases hchange with
  | same => exact hr
  | coalesced h =>
    -- the count stays, the payload changes
    rcases hown r h with hzero | hsame
    · exact ⟨le_of_eq_of_le hzero (Nat.zero_le _), hr.2⟩
    · exact ⟨hsame ▸ hr.1, hr.2⟩
  | requeued => exact ⟨Nat.zero_le _, rfl⟩
  | claimed => exact absurd trivial hop
  | _ => exact hr

theorem covered_claimed {clk : Clock} {w : ℕ} {limit : ℤ}
    {target excludeTarget : Option FanoutTarget} (hr : r ∈ s.sys.outbox.rows)
    (hcovered : Covered cfg s r)
    (hid : r.id ∈ dueIds cfg clk limit target excludeTarget s.sys.outbox) :
    Covered cfg (budgetStep cfg s (.claim clk w limit target excludeTarget))
      (claimJobWrite clk r) := by
  refine ⟨?_, hcovered.2⟩
  have hjob : claimJobWrite clk r ∈
      (claimFanoutBatch cfg clk limit target excludeTarget s.sys.outbox).2 :=
    mem_claimed_of_mem_dueIds (mem_claimFanoutBatch.mpr ⟨r, hr, by rw [if_pos hid]⟩) hid
  have hone : 0 < (attemptsBegun cfg s.sys (.claim clk w limit target excludeTarget)).count
      (r.id, r.payload) := count_pos_iff.mpr (mem_map.mpr ⟨_, hjob, rfl⟩)
  have hcount := hcovered.1
  simp only [BudgetState.made, budgetStep, count_append] at hcount ⊢
  simp only [claimJobWrite]
  omega

structure BudgetSound (cfg : OutboxConfig) (s : BudgetState π) : Prop where
  rows : ∀ r ∈ s.sys.outbox.rows, Covered cfg s r
  held : ∀ h ∈ s.sys.held, Covered cfg s h.job

theorem BudgetSound.empty : BudgetSound cfg (.empty : BudgetState π) :=
  ⟨by simp [BudgetState.empty, OutboxState.empty], by simp [BudgetState.empty, OutboxState.empty]⟩

section

variable (hs : BudgetSound cfg s) (hown : OwnAttempts cfg s op)

include hs hown

theorem BudgetSound.covered_of_mem (hr' : r' ∈ (outboxStep cfg s.sys op).outbox.rows) :
    Covered cfg (budgetStep cfg s op) r' := by
  by_cases hop : op.claims
  · cases op with
    | claim clk w limit target excludeTarget =>
      obtain ⟨r, hr, rfl⟩ := mem_claimFanoutBatch.mp hr'
      split
      · exact covered_claimed hr (hs.rows r hr) ‹_›
      · exact (hs.rows r hr).mono
    | _ => exact hop.elim
  · rcases exists_change_of_mem hr' with ⟨r, hr, hchange⟩ | hinserts
    · exact (hchange.covered hop hown (hs.rows r hr)).mono
    · cases hinserts
      exact ⟨Nat.zero_le _, rfl⟩

theorem BudgetSound.step : BudgetSound cfg (budgetStep cfg s op) := by
  refine ⟨fun r' hr' => hs.covered_of_mem hown hr', fun h hh => ?_⟩
  rcases held_of_mem hh with ⟨h₀, hh₀, hjob, -⟩ | ⟨hmem, -⟩
  · rw [hjob]
    exact (hs.held h₀ hh₀).mono
  · exact hs.covered_of_mem hown hmem

theorem BudgetSound.fullBudget : FullBudget cfg s op := by
  cases op with
  | markRetry clk w i jitter error =>
    intro h hjob hspent r hr hid
    obtain ⟨hheld, -, hid'⟩ := OutboxState.job?_eq_some hjob
    obtain ⟨hattempts, hmax⟩ := hs.held h hheld
    have hle : cfg.fanoutMaxAttempts ≤ h.job.attempts := by
      simpa [attemptsLeft, hmax] using hspent
    rw [hown h hjob hspent r hr hid, ← hid']
    exact hle.trans hattempts
  | _ => trivial

end

/-- **The full budget**: rows the retry path gives up had `FANOUT_MAX_ATTEMPTS` attempts with the
payload they carry. -/
theorem budget_spent (cfg : OutboxConfig) (es : List (OutboxOp π))
    (h : Along (budgetStep cfg) (OwnAttempts cfg) .empty es) (pre post : List (OutboxOp π))
    (op : OutboxOp π) (hes : es = pre ++ op :: post) :
    FullBudget cfg (run (budgetStep cfg) .empty pre) op := by
  subst hes
  obtain ⟨hpre, hown⟩ := h.step_of_append
  have hsound : BudgetSound cfg (run (budgetStep cfg) .empty pre) :=
    Along.invariant (fun s op hs hown => hs.step hown) .empty hpre
  exact hsound.fullBudget hown

end

/-! ### The bound on the attempts -/

variable (cfg : OutboxConfig)

def WithinMaximum (s : OutboxState π) : Prop :=
  ∀ r ∈ s.outbox.rows, r.attempts ≤ r.maxAttempts

def ClaimsUnspent (s : OutboxState π) : OutboxOp π → Prop
  | .claim clk _ limit target excludeTarget => ∀ r ∈ s.outbox.rows,
    r.id ∈ dueIds cfg clk limit target excludeTarget s.outbox → r.attempts < r.maxAttempts
  | _ => True

def OutboxOp.givesUp : OutboxOp π → Bool
  | .markRetry .. | .markFailed .. | .failLetta .. => true
  | _ => false

variable {cfg} {s : OutboxState π} {op : OutboxOp π} {r r' : OutboxRow π}

theorem JobChange.attempts_le (hchange : JobChange cfg s op r r') (hop : ¬ op.claims)
    (hr : r.attempts ≤ r.maxAttempts) : r'.attempts ≤ r'.maxAttempts := by
  cases hchange with
  | claimed => exact absurd trivial hop
  | requeued => exact Nat.zero_le _
  | _ => exact hr

variable {clk : Clock}

theorem withinMaximum_claim_iff (hs : WithinMaximum s) {w : ℕ} {limit : ℤ}
    {target excludeTarget : Option FanoutTarget} :
    WithinMaximum (outboxStep cfg s (.claim clk w limit target excludeTarget)) ↔
      ClaimsUnspent cfg s (.claim clk w limit target excludeTarget) := by
  constructor
  · intro h r hr hid
    have hmem := mem_claimFanoutBatch.mpr ⟨r, hr, by rw [if_pos hid]⟩
    exact h _ hmem
  · intro h r' hr'
    obtain ⟨r, hr, rfl⟩ := mem_claimFanoutBatch.mp hr'
    split
    · exact h r hr ‹_›
    · exact hs r hr

theorem withinMaximum_step_iff (hs : WithinMaximum s) :
    WithinMaximum (outboxStep cfg s op) ↔ ClaimsUnspent cfg s op := by
  by_cases hop : op.claims
  · cases op with
    | claim clk w limit target excludeTarget => exact withinMaximum_claim_iff hs
    | _ => exact hop.elim
  · have hok : ClaimsUnspent cfg s op := by
      cases op with
      | claim => exact absurd trivial hop
      | _ => trivial
    refine iff_of_true (fun r' hr' => ?_) hok
    rcases exists_change_of_mem hr' with ⟨r, hr, hchange⟩ | hinserts
    · exact hchange.attempts_le hop (hs r hr)
    · cases hinserts
      exact Nat.zero_le _

theorem not_failed_step (hs : ∀ r ∈ s.outbox.rows, r.status ≠ .failed) (hop : op.givesUp = false) :
    ∀ r ∈ (outboxStep cfg s op).outbox.rows, r.status ≠ .failed := by
  intro r' hr'
  rcases exists_change_of_mem hr' with ⟨r, hr, hchange⟩ | hinserts
  · have hr := hs r hr
    cases hchange with
    | same | coalesced => exact hr
    | retried | failed | lettaFailed => cases hop
    | requeued | claimed | succeeded | recovered => exact JobStatus.noConfusion
  · cases hinserts
    exact JobStatus.noConfusion

/-- **The bound on the attempts** is kept exactly if no claim takes a row that is at it. Only a
report or the end of the Letta backlog fails a row. -/
theorem attempts_bounded_iff (cfg : OutboxConfig) (ops : List (OutboxOp π)) :
    ((∀ pre post, ops = pre ++ post →
        WithinMaximum (run (outboxStep cfg) .empty pre)) ↔
      Along (outboxStep cfg) (ClaimsUnspent cfg) .empty ops) ∧
    ((∀ op ∈ ops, op.givesUp = false) →
      ∀ r ∈ (run (outboxStep cfg) .empty ops).outbox.rows, r.status ≠ .failed) := by
  constructor
  · have hiff : ∀ (s : OutboxState π) op, WithinMaximum s →
        (WithinMaximum (outboxStep cfg s op) ↔ ClaimsUnspent cfg s op) :=
      fun s op hs => withinMaximum_step_iff hs
    have hempty : WithinMaximum (.empty : OutboxState π) := fun r hr => by cases hr
    exact forall_run_iff_along_of_step hiff hempty
  · intro hops
    have hsilent : Along (outboxStep cfg) (fun _ op => op.givesUp = false) .empty ops :=
      along_iff.mpr fun pre op post hes => hops op (by simp [hes])
    have hstep : ∀ (s : OutboxState π) op, (∀ r ∈ s.outbox.rows, r.status ≠ .failed) →
        op.givesUp = false → ∀ r ∈ (outboxStep cfg s op).outbox.rows, r.status ≠ .failed :=
      fun s op hs hop => not_failed_step hs hop
    exact hsilent.invariant hstep fun r hr => by cases hr

/-! ### A job that kills its worker -/

def deadlyEvent : FanoutEvent Unit := ⟨"e1", "app", "a.md", "huge", "", [], ()⟩

def deadlyAttempt : List (OutboxOp Unit) :=
  [.claim .noon 0 24 none none, .restart 0, .recover .noon 0]

def deadlyRun (n : ℕ) : List (OutboxOp Unit) :=
  .enqueue .noon false "" deadlyEvent .qdrant ::
    (List.replicate n deadlyAttempt).flatten

def AttemptedTimes (n : ℕ) (s : OutboxState Unit) : Prop :=
  ∃ r, s.outbox.rows = [r] ∧ r.status.waiting = true ∧ r.nextAttemptAt = Clock.noon.now ∧
    r.attempts = n ∧ r.maxAttempts = 40

variable {ob : Outbox π}

theorem rows_claim_single (cfg : OutboxConfig) (limit : ℤ) {r : OutboxRow π}
    (hrows : ob.rows = [r]) (hdue : dueJob clk none none r = true) :
    (claimFanoutBatch cfg clk limit none none ob).1.rows = [claimJobWrite clk r] := by
  have hids : dueIds cfg clk limit none none ob = [r.id] := by
    rw [dueIds, hrows, filter_cons_of_pos hdue, filter_nil, insertionSort_cons,
      insertionSort_nil, orderedInsert_nil, take_of_length_le (by simp)]
    rfl
  simp only [claimFanoutBatch, hids]
  change ob.rows.map _ = _
  simp [hrows]

theorem rows_recover_single {maxAgeSecs : ℤ} {r : OutboxRow π} (hrows : ob.rows = [r])
    (hstale : staleRunning clk maxAgeSecs r = true) :
    (recoverStaleRunningJobs clk maxAgeSecs ob).rows = [recoverJobWrite clk r] := by
  change ob.rows.map _ = _
  simp [hrows, hstale]

theorem AttemptedTimes.attempt {n : ℕ} {s : OutboxState Unit} (hs : AttemptedTimes n s) :
    AttemptedTimes (n + 1) (run (outboxStep .default) s deadlyAttempt) := by
  obtain ⟨r, hrows, hwaiting, hnext, hattempts, hmax⟩ := hs
  have hdue : dueJob .noon none none r = true := by
    simp [dueJob, hwaiting, hnext]
  have hclaimed := rows_claim_single .default 24 hrows hdue
  have hstale : staleRunning .noon 0 (claimJobWrite .noon r) = true := by
    simp [staleRunning, claimJobWrite, Clock.noon, Clock.frozen]
  exact ⟨_, rows_recover_single hclaimed hstale, rfl, rfl, congrArg (· + 1) hattempts, hmax⟩

/-- **Recovered without end**: with the default maximum of forty the job is attempted any number of
times. -/
theorem recovered_without_end (n : ℕ) :
    AttemptedTimes n (run (outboxStep .default) .empty (deadlyRun n)) := by
  induction n with
  | zero => exact ⟨_, rfl, rfl, rfl, rfl, rfl⟩
  | succ n ih =>
    have hrun : deadlyRun (n + 1) = deadlyRun n ++ deadlyAttempt := by
      simp [deadlyRun, replicate_succ']
    rw [hrun, run_append]
    exact ih.attempt

/-- The forty-first attempt is made, and the job waits for the next. -/
theorem attempted_beyond_maximum :
    (∀ op ∈ deadlyRun 41, op.givesUp = false) ∧
      ∃ r ∈ (run (outboxStep .default) .empty (deadlyRun 41)).outbox.rows,
        r.status.waiting = true ∧ r.maxAttempts < r.attempts := by
  obtain ⟨r, hrows, hwaiting, -, hattempts, hmax⟩ := recovered_without_end 41
  refine ⟨by decide +kernel, r, by simp [hrows], hwaiting, ?_⟩
  rw [hattempts, hmax]
  decide

/-! ### An event that comes in late -/

def budgetEvent (eventId summary : String) : FanoutEvent Unit :=
  ⟨eventId, "app", "a.md", summary, "", [], ()⟩

def failedAttempt : List (OutboxOp Unit) :=
  [.claim .noon 0 24 none none, .markRetry .noon 0 1 0 "timeout"]

def lateEvent : List (OutboxOp Unit) :=
  .enqueue .noon false "" (budgetEvent "e1" "first") .qdrant ::
    (List.replicate 39 failedAttempt).flatten ++
    [.enqueue .noon false "" (budgetEvent "e2" "second") .qdrant]

/-- With a budget of forty the second event is given up after the only attempt made with its
payload. -/
theorem failed_after_one_attempt :
    let s := run (budgetStep .default) .empty (lateEvent ++ failedAttempt)
    s.sys.outbox.rows.map (fun r => (r.id, r.status, r.payload.eventId)) = [(1, .failed, "e2")] ∧
      s.made 1 (budgetEvent "e2" "second") = 1 := by
  decide +kernel

theorem budget_spent_single :
    Along (budgetStep .default) (OwnAttempts .default) .empty
        (.enqueue .noon false "" (budgetEvent "e1" "first") .qdrant ::
          (List.replicate 40 failedAttempt).flatten) ∧
      FullBudget .default (run (budgetStep .default) .empty
        (.enqueue .noon false "" (budgetEvent "e1" "first") .qdrant ::
          (List.replicate 39 failedAttempt).flatten ++ [.claim .noon 0 24 none none]))
        (.markRetry .noon 0 1 0 "timeout") := by
  have halong : Along (budgetStep .default) (OwnAttempts .default) .empty
      (.enqueue .noon false "" (budgetEvent "e1" "first") .qdrant ::
        (List.replicate 40 failedAttempt).flatten) := by decide +kernel
  exact ⟨halong, budget_spent _ _ halong _ [] _ rfl⟩

end ContextLattice
