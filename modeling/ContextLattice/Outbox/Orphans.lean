import ContextLattice.Outbox.Worker

/-!
# Rows that stay running

A running row that no iteration in flight has still to mark is lost to the workers. `Attended`:
every running row is owed by an iteration in flight; `Handled` is what a step must meet for that.
-/

namespace ContextLattice

open Foundation List

variable {π : Type*}

/-! ### Where a running row comes from -/

variable {cfg : OutboxConfig} {s : OutboxState π} {op : OutboxOp π} {r r' : OutboxRow π}

theorem status_retryWrite_ne_running (clk : Clock) (job : OutboxRow π) (jitter : ℚ)
    (error : String) : (retryWrite cfg clk job jitter error r).status ≠ .running := by
  rw [retryWrite]
  dsimp only
  split <;> decide

theorem JobChange.running (h : JobChange cfg s op r r') (hop : ¬ op.claims)
    (hr' : r'.status = .running) : r.status = .running := by
  cases h with
  | same | coalesced => exact hr'
  | claimed => exact absurd trivial hop
  | retried => exact absurd hr' (status_retryWrite_ne_running _ _ _ _)
  | _ => cases hr'

theorem running_of_step (hop : ¬ op.claims) (hr' : r' ∈ (outboxStep cfg s op).outbox.rows)
    (hrunning : r'.status = .running) :
    ∃ r ∈ s.outbox.rows, r.id = r'.id ∧ r.status = .running := by
  rcases exists_change_of_mem hr' with ⟨r, hr, hchange⟩ | hinserts
  · exact ⟨r, hr, congrArg RowIdent.id hchange.ident.symm, hchange.running hop hrunning⟩
  · cases hinserts
    cases hrunning

theorem running_of_run {ops : List (OutboxOp π)} (hops : ∀ op ∈ ops, ¬ op.claims)
    (hr' : r' ∈ (run (outboxStep cfg) s ops).outbox.rows) (hrunning : r'.status = .running) :
    ∃ r ∈ s.outbox.rows, r.id = r'.id ∧ r.status = .running := by
  induction ops generalizing s with
  | nil => exact ⟨r', hr', rfl, hrunning⟩
  | cons op ops ih =>
    rw [forall_mem_cons] at hops
    obtain ⟨r₁, hr₁, hid₁, hrunning₁⟩ := ih hops.2 hr'
    obtain ⟨r, hr, hid, hrunning⟩ := running_of_step hops.1 hr₁ hrunning₁
    exact ⟨r, hr, hid.trans hid₁, hrunning⟩

variable {target excludeTarget : Option FanoutTarget}

theorem running_of_claim {clk : Clock} {w : ℕ} {limit : ℤ}
    (hr' : r' ∈ (outboxStep cfg s (.claim clk w limit target excludeTarget)).outbox.rows)
    (hrunning : r'.status = .running) :
    (∃ r ∈ s.outbox.rows, r.id = r'.id ∧ r.status = .running) ∨
      r'.id ∈ dueIds cfg clk limit target excludeTarget s.outbox := by
  obtain ⟨r, hr, rfl⟩ := mem_claimFanoutBatch.mp hr'
  split at hrunning
  · rename_i hid
    rw [if_pos hid]
    exact .inr hid
  · rename_i hid
    rw [if_neg hid]
    exact .inl ⟨r, hr, rfl, hrunning⟩

variable {i : ℕ}

theorem status_ne_running_of_update {ob : Outbox π} {f : OutboxRow π → OutboxRow π} {hf}
    (hstatus : ∀ r, (f r).status ≠ .running) (hr' : r' ∈ (ob.update i f hf).rows)
    (hid : r'.id = i) : r'.status ≠ .running := by
  obtain ⟨r, -, rfl⟩ := Outbox.mem_updateWhere.mp hr'
  split at hid
  · rw [if_pos ‹_›]
    exact hstatus r
  · exact absurd (decide_eq_true hid) ‹_›

/-! ### What a call settles -/

variable {wcfg : WorkerConfig} {w : ℕ} {clk : Clock} {jitter : ℚ} {g : LettaRuntime}
  {job : OutboxRow π} {error : String}

def RowSettled (s : OutboxState π) (i : ℕ) : Prop :=
  ∀ r ∈ s.outbox.rows, r.id = i → r.status ≠ .running

theorem settled_markSuccess (cfg : OutboxConfig) (hpushed : Pushed s w job) :
    RowSettled (outboxStep cfg s (.markSuccess clk w job.id)) job.id := by
  obtain ⟨h, hjob, hdelivered⟩ := hpushed
  intro r hr
  simp only [outboxStep, hjob, hdelivered, if_true] at hr
  exact status_ne_running_of_update (fun _ h => by cases h) hr

theorem settled_markFailed (cfg : OutboxConfig) (hholds : InHands s w job) :
    RowSettled (outboxStep cfg s (.markFailed clk w job.id error)) job.id := by
  obtain ⟨h, hjob, -⟩ := hholds
  intro r hr
  simp only [outboxStep, hjob] at hr
  exact status_ne_running_of_update (fun _ h => by cases h) hr

theorem settled_markRetry (hholds : InHands s w job) :
    RowSettled (outboxStep cfg s (.markRetry clk w job.id jitter error)) job.id := by
  obtain ⟨h, hjob, rfl⟩ := hholds
  intro r hr
  simp only [outboxStep, hjob] at hr
  exact status_ne_running_of_update (fun _ => status_retryWrite_ne_running _ _ _ _) hr

theorem settled_failLetta (cfg : OutboxConfig) (hs : HeldSound s) (hholds : InHands s w job)
    (hletta : job.target = .letta) (reason : String) :
    RowSettled (outboxStep cfg s (.failLetta clk reason)) job.id := by
  obtain ⟨h, hjob, rfl⟩ := hholds
  intro r hr hid hrunning
  simp only [outboxStep, failLettaBacklog] at hr
  obtain ⟨r₀, hr₀, rfl⟩ := Outbox.mem_updateWhere.mp hr
  split at hrunning
  · cases hrunning
  · rename_i hp
    have hid₀ : r₀.id = h.job.id := by simpa [hp] using hid
    have htarget : r₀.target = h.job.target :=
      congrArg RowIdent.target (hs.ident h (OutboxState.job?_eq_some hjob).1 r₀ hr₀ hid₀)
    simp [htarget, hletta, hrunning, JobStatus.outstanding] at hp

theorem letta_of_failLettaBacklog {reason : String}
    (h : (handleFanoutJobError wcfg g job error).call = .failLettaBacklog reason) :
    job.target = .letta := by
  by_contra hne
  rw [handleFanoutJobError, if_neg hne] at h
  repeat' split at h
  all_goals cases h

theorem settled_handler (hs : HeldSound s) (hholds : InHands s w job) :
    RowSettled (run (outboxStep cfg) s
      ((handleFanoutJobError wcfg g job error).call.ops w clk jitter job error)) job.id := by
  rcases hcall : (handleFanoutJobError wcfg g job error).call with reason | _ | _ | _
  · exact settled_failLetta cfg hs hholds (letta_of_failLettaBacklog hcall) reason
  · obtain ⟨h, hjob, -⟩ := hholds
    exact settled_markSuccess cfg (delivered_deliver hjob)
  · exact settled_markFailed cfg hholds
  · exact settled_markRetry hholds

/-! ### What an iteration owes -/

variable {rest : List (FanoutTarget × List (OutboxRow π))}

theorem owed_ofChunks {p : FanoutTarget × List (OutboxRow π)} (hp : p ∈ rest) (hjob : job ∈ p.2) :
    ∃ it, Iteration.ofChunks rest = some it ∧ job ∈ it.owed := by
  cases rest with
  | nil => cases hp
  | cons first rest =>
    refine ⟨_, rfl, ?_⟩
    rcases mem_cons.mp hp with rfl | hp
    · exact mem_append_left _ hjob
    · exact mem_append_right _ (mem_flatMap.mpr ⟨p, hp, hjob⟩)

theorem owed_marking {chunk : List (OutboxRow π)} {todo : List (OutboxRow π × Option String)}
    (hjob : job ∈ todo.map Prod.fst ∨ ∃ p ∈ rest, job ∈ p.2) :
    ∃ it, Iteration.marking chunk rest todo = some it ∧ job ∈ it.owed := by
  cases todo with
  | nil =>
    obtain ⟨p, hp, hjob⟩ := hjob.resolve_left not_mem_nil
    exact owed_ofChunks hp hjob
  | cons q todo => exact ⟨_, rfl, mem_append.mpr (hjob.imp_right mem_flatMap.mpr)⟩

theorem owed_handling {error : String} {todo : List (OutboxRow π)}
    (hjob : job ∈ todo ∨ ∃ p ∈ rest, job ∈ p.2) :
    ∃ it, Iteration.handling error rest todo = some it ∧ job ∈ it.owed := by
  cases todo with
  | nil =>
    obtain ⟨p, hp, hjob⟩ := hjob.resolve_left not_mem_nil
    exact owed_ofChunks hp hjob
  | cons first todo => exact ⟨_, rfl, mem_append.mpr (hjob.imp_right mem_flatMap.mpr)⟩

variable {it : Iteration π} {answer : Answer}

/-- The rows that a call of the handler takes out of the running ones. -/
def HandlerCall.settles (job r : OutboxRow π) : HandlerCall → Bool
  | .failLettaBacklog _ => decide (r.target = .letta)
  | _ => decide (r.id = job.id)

/-- An iteration is at a call that no `except` clause of the chunk guards: `fail_letta_backlog` for
a chunk that is skipped, or the handler's own mark. With the rows that the call settles. -/
def uncaught (cfg : WorkerConfig) (g : LettaRuntime) (it : Iteration π) :
    Option (OutboxRow π → Bool) :=
  match it.phase with
  | .push target _ =>
    if decide (target = .letta) && !lettaSwitchedOn cfg g then
      some fun r => decide (r.target = .letta)
    else none
  | .mark .. => none
  | .handle job _ error => some fun r => (handleFanoutJobError cfg g job error).call.settles job r

/-- What becomes of a job an iteration owes: it is owed on, it is settled, or an unguarded call
raised. -/
inductive Fate (cfg : OutboxConfig) (s : OutboxState π) (o : Outcome π) (answer : Answer)
    (unguarded : Option (OutboxRow π → Bool)) (job : OutboxRow π) : Prop
  | owed {it' : Iteration π} (hnext : o.next = some it') (hjob : job ∈ it'.owed)
  | settled (h : RowSettled (run (outboxStep cfg) s o.ops) job.id)
  | dropped {error : String} {took : Bool} {settles : OutboxRow π → Bool}
      (hanswer : answer = .raised error took) (hunguarded : unguarded = some settles)

private theorem Fate.ofOwed {o : Outcome π} {unguarded : Option (OutboxRow π → Bool)}
    (h : ∃ it', o.next = some it' ∧ job ∈ it'.owed) : Fate cfg s o answer unguarded job := by
  obtain ⟨it', hnext, hjob⟩ := h
  exact .owed hnext hjob

theorem fate_of_mem_owed (hs : HeldSound s) (h : Linked s w it) (hjob : job ∈ it.owed) :
    Fate cfg s (proceed wcfg w clk jitter g it answer) answer (uncaught wcfg g it) job := by
  obtain ⟨phase, rest⟩ := it
  replace hjob : job ∈ phase.owed ∨ ∃ p ∈ rest, job ∈ p.2 :=
    (mem_append.mp hjob).imp_right mem_flatMap.mp
  cases phase with
  | push target chunk =>
    by_cases hoff : (decide (target = .letta) && !lettaSwitchedOn wcfg g) = true
    · cases answer with
      | returned failed =>
        rcases hjob with hjob | ⟨p, hp, hjob⟩
        · refine .settled ?_
          simp only [proceed, proceedPush, hoff, if_true]
          have hletta : target = .letta := by simpa using (Bool.and_eq_true_iff.mp hoff).1
          exact settled_failLetta cfg hs (h.held job hjob) ((h.grouped job hjob).trans hletta) _
        · refine .ofOwed ?_
          simp only [proceed, proceedPush, hoff, if_true]
          exact owed_ofChunks hp hjob
      | raised error took => exact .dropped rfl (if_pos hoff)
    · refine .ofOwed ?_
      simp only [proceed, proceedPush, if_neg hoff]
      cases answer with
      | returned failed =>
        refine owed_marking (hjob.imp_left fun hjob => ?_)
        rw [map_map]
        exact mem_map.mpr ⟨job, hjob, rfl⟩
      | raised error took => exact owed_handling hjob
  | mark chunk first result todo =>
    cases answer with
    | returned failed =>
      rcases or_assoc.mp (hjob.imp_left mem_cons.mp) with rfl | htodo
      · refine .settled ?_
        cases result with
        | none => exact settled_markSuccess cfg (h.pushed job (by simp [Phase.pushed]))
        | some error => exact settled_handler hs (h.held job h.grouped.1)
      · refine .ofOwed ?_
        cases result <;> exact owed_marking htodo
    | raised error took =>
      -- the `except` clause starts again with the first job of the chunk
      have hchunk : job ∈ chunk ∨ ∃ p ∈ rest, job ∈ p.2 := by
        refine hjob.imp_left fun hjob => ?_
        rcases mem_cons.mp hjob with rfl | htodo
        · exact h.grouped.1
        · obtain ⟨p, hp, rfl⟩ := mem_map.mp htodo
          exact h.grouped.2 p hp
      refine .ofOwed ?_
      cases result <;> exact owed_handling hchunk
  | handle first todo error =>
    cases answer with
    | returned failed =>
      rcases or_assoc.mp (hjob.imp_left mem_cons.mp) with rfl | htodo
      · exact .settled (settled_handler hs (h.held job (mem_cons_self ..)))
      · exact .ofOwed (owed_handling htodo)
    | raised e took => exact .dropped rfl rfl

/-! #### Calls that are not guarded -/

theorem Linked.inHands_of_owed (h : Linked s w it) (hjob : job ∈ it.owed) : InHands s w job := by
  rcases mem_append.mp hjob with hjob | hjob
  · refine h.held job ?_
    obtain ⟨phase, rest⟩ := it
    cases phase with
    | push | handle => exact hjob
    | mark chunk first result todo =>
      rcases mem_cons.mp hjob with rfl | htodo
      · exact h.grouped.1
      · obtain ⟨p, hp, rfl⟩ := mem_map.mp htodo
        exact h.grouped.2 p hp
  · obtain ⟨p, hp, hin⟩ := mem_flatMap.mp hjob
    exact h.heldRest p hp job hin

theorem mem_update_of_ne {ob : Outbox π} {f : OutboxRow π → OutboxRow π}
    (hf : ∀ r, (f r).toRowIdent = r.toRowIdent) (hr : r ∈ ob.rows) (hne : r.id ≠ i) :
    r ∈ (ob.update i f hf).rows :=
  Outbox.mem_updateWhere.mpr ⟨r, hr, by simp [hne]⟩

theorem mem_failLettaBacklog_of_ne {ob : Outbox π} (hr : r ∈ ob.rows) (hne : r.target ≠ .letta)
    (reason : String) : r ∈ (failLettaBacklog clk reason ob).rows :=
  Outbox.mem_updateWhere.mpr ⟨r, hr, by simp [hne]⟩

theorem mem_handler_of_not_settles {call : HandlerCall} (hr : r ∈ s.outbox.rows)
    (h : call.settles job r = false) :
    r ∈ (run (outboxStep cfg) s (call.ops w clk jitter job error)).outbox.rows := by
  cases call with
  | failLettaBacklog reason => exact mem_failLettaBacklog_of_ne hr (of_decide_eq_false h) reason
  | markFanoutSuccess =>
    generalize hpushed : outboxStep cfg s (.deliver w job.id) = pushed
    have hr' : r ∈ pushed.outbox.rows := hpushed ▸ hr
    rw [HandlerCall.ops, run_cons, run_cons, run_nil, hpushed, outboxStep]
    split
    · exact hr'
    · split
      · exact mem_update_of_ne (f := successWrite clk) (fun _ => rfl) hr' (of_decide_eq_false h)
      · exact hr'
  | markFanoutFailed =>
    rw [HandlerCall.ops, run_cons, run_nil, outboxStep]
    split
    · exact hr
    · exact mem_update_of_ne (f := failureWrite clk error) (fun _ => rfl) hr (of_decide_eq_false h)
  | markFanoutRetry =>
    rw [HandlerCall.ops, run_cons, run_nil, outboxStep]
    split
    · exact hr
    · rename_i held hheld
      refine mem_update_of_ne (f := retryWrite cfg clk held.job jitter error) (fun _ => rfl) hr ?_
      rw [(OutboxState.job?_eq_some hheld).2.2]
      exact of_decide_eq_false h

section

variable {settles : OutboxRow π → Bool} {took : Bool} (h : uncaught wcfg g it = some settles)

include h

theorem next_of_uncaught : (proceed wcfg w clk jitter g it (.raised error took)).next = none := by
  obtain ⟨phase, rest⟩ := it
  cases phase with
  | push target chunk =>
    have hoff := (Option.ite_none_right_eq_some.mp h).1
    simp only [proceed, proceedPush, hoff, if_true]
  | mark => cases h
  | handle => rfl

theorem mem_of_uncaught (hr : r ∈ s.outbox.rows) (hnot : ¬ (took = true ∧ settles r = true)) :
    r ∈ (run (outboxStep cfg) s
      (proceed wcfg w clk jitter g it (.raised error took)).ops).outbox.rows := by
  cases took with
  | false =>
    obtain ⟨phase, rest⟩ := it
    cases phase with
    | push target chunk =>
      have hoff := (Option.ite_none_right_eq_some.mp h).1
      simp only [proceed, proceedPush, hoff, if_true]
      exact hr
    | mark => cases h
    | handle => exact hr
  | true =>
    have hother : settles r = false := by simpa using hnot
    obtain ⟨phase, rest⟩ := it
    cases phase with
    | push target chunk =>
      obtain ⟨hoff, hsettles⟩ := Option.ite_none_right_eq_some.mp h
      rw [← Option.some.inj hsettles] at hother
      simp only [proceed, proceedPush, hoff, if_true]
      exact mem_failLettaBacklog_of_ne hr (of_decide_eq_false hother) _
    | mark => cases h
    | handle first todo e =>
      rw [← Option.some.inj h] at hother
      exact mem_handler_of_not_settles hr hother

theorem settled_of_uncaught (hs : HeldSound s) (hlinked : Linked s w it) (hjob : job ∈ it.owed)
    (hr : r ∈ s.outbox.rows) (hid : r.id = job.id) (hsettles : settles r = true) :
    RowSettled (run (outboxStep cfg) s
      (proceed wcfg w clk jitter g it (.raised error true)).ops) job.id := by
  have hheld := hlinked.inHands_of_owed hjob
  have htarget : r.target = job.target := by
    obtain ⟨held, hmem, rfl⟩ := hheld
    exact congrArg RowIdent.target (hs.ident held (OutboxState.job?_eq_some hmem).1 r hr hid)
  obtain ⟨phase, rest⟩ := it
  cases phase with
  | push target chunk =>
    obtain ⟨hoff, hsome⟩ := Option.ite_none_right_eq_some.mp h
    rw [← Option.some.inj hsome] at hsettles
    simp only [proceed, proceedPush, hoff, if_true]
    exact settled_failLetta cfg hs hheld (htarget.symm.trans (of_decide_eq_true hsettles)) _
  | mark => cases h
  | handle first todo e =>
    rw [← Option.some.inj h] at hsettles
    rcases hcall : (handleFanoutJobError wcfg g first e).call with reason | _ | _ | _
    · rw [hcall] at hsettles
      simp only [proceed, proceedHandler, hcall]
      exact settled_failLetta cfg hs hheld (htarget.symm.trans (of_decide_eq_true hsettles)) reason
    all_goals
      rw [hcall] at hsettles
      have hfirst : r.id = first.id := of_decide_eq_true hsettles
      rw [← hid, hfirst]
      exact settled_handler hs (hlinked.held first (mem_cons_self ..))

end

/-! ### The service -/

variable {cfg : WorkerConfig} {s : FanoutService π}

def FanoutService.Owed (s : FanoutService π) (i : ℕ) : Prop :=
  ∃ w it, s.workers.get? w = some it ∧ ∃ job ∈ it.owed, job.id = i

def Attended (s : FanoutService π) : Prop :=
  ∀ r ∈ s.sys.outbox.rows, r.status = .running → s.Owed r.id

/-- An iteration in flight of another worker has the row still to mark. -/
def FanoutService.OwedBut (s : FanoutService π) (w i : ℕ) : Prop :=
  ∃ w' it, w' ≠ w ∧ s.workers.get? w' = some it ∧ ∃ job ∈ it.owed, job.id = i

def FanoutService.Quiet (s : FanoutService π) : Prop := s.workers.rows = []

/-- A start-up finds no young running row, a claim that raises has taken no rows, and when a call
raises that is not guarded, each running row that the iteration owes was settled by that very call
or is owed by another iteration. -/
def Handled (cfg : WorkerConfig) (s : FanoutService π) : ServiceOp π → Prop
  | .restart clk => ∀ r ∈ s.sys.outbox.rows, r.status = .running →
    staleRunning clk cfg.fanoutRunningStaleSecs r = true
  | .claimRaised clk w taken target excludeTarget => s.workers.get? w = none →
    ∀ i ∈ dueIds cfg.toOutboxConfig clk taken target excludeTarget s.sys.outbox, s.Owed i
  | .proceed w _ _ (.raised _ took) => ∀ it ∈ s.workers.get? w,
    ∀ settles ∈ uncaught cfg s.letta it, ∀ job ∈ it.owed, ∀ r ∈ s.sys.outbox.rows,
      r.id = job.id → r.status = .running →
        (took = true ∧ settles r = true) ∨ s.OwedBut w r.id
  | _ => True

theorem Attended.not_running (h : Attended s) (hquiet : s.Quiet) {r : OutboxRow π}
    (hr : r ∈ s.sys.outbox.rows) : r.status ≠ .running := by
  intro hrunning
  obtain ⟨w, it, hit, -⟩ := h r hr hrunning
  have hrow := Dict.get?_eq_some.mp hit
  rw [hquiet] at hrow
  cases hrow

/-! #### One lemma for each kind of step -/

theorem attended_other (ha : Attended s) (op : OutboxOp π) :
    Attended (serviceStep cfg s (.other op)) := by
  intro r' hr' hrunning
  have hops : ∀ op' ∈ serviceOps cfg s (.other op), ¬ op'.claims := by
    intro op' hop'
    simp only [serviceOps] at hop'
    split at hop'
    · rename_i hout
      obtain rfl := mem_singleton.mp hop'
      cases op' <;> first | exact id | cases hout
    · cases hop'
  obtain ⟨r, hr, hid, hr_running⟩ := running_of_run hops hr' hrunning
  rw [← hid]
  exact ha r hr hr_running

theorem FanoutService.Owed.of_ne {s' : FanoutService π} {w w' : ℕ} {it : Iteration π}
    {job : OutboxRow π} {next : Option (Iteration π)}
    (hworkers : s'.workers = setIteration s.workers w next) (hne : w' ≠ w)
    (hit : s.workers.get? w' = some it) (hjob : job ∈ it.owed) : s'.Owed job.id := by
  refine ⟨w', it, ?_, job, hjob, rfl⟩
  rw [hworkers, get?_setIteration, if_neg hne, hit]

theorem attended_claim (ha : Attended s) (clk : Clock) (w : ℕ) (limit : ℤ)
    (target excludeTarget : Option FanoutTarget) :
    Attended (serviceStep cfg s (.claim clk w limit target excludeTarget)) := by
  rcases hidle : s.workers.get? w with _ | busy
  · intro r' hr' hrunning
    have hworkers : (serviceStep cfg s (.claim clk w limit target excludeTarget)).workers =
        setIteration s.workers w (Iteration.ofChunks (batchChunks cfg
          (claimFanoutBatch cfg.toOutboxConfig clk limit target excludeTarget
            s.sys.outbox).2)) := by
      simp only [serviceStep, serviceWorkers, hidle]
    simp only [serviceStep, serviceOps, hidle, run_cons, run_nil] at hr'
    rcases running_of_claim hr' hrunning with ⟨r, hr, hid, hr_running⟩ | hdue
    · obtain ⟨w', it, hit, job, hjob, hid'⟩ := ha r hr hr_running
      have hne : w' ≠ w := by
        rintro rfl
        rw [hit] at hidle
        cases hidle
      rw [← hid, ← hid']
      exact .of_ne hworkers hne hit hjob
    · -- a claimed row is one of the jobs of the new iteration
      obtain ⟨p, hp, hin⟩ := exists_mem_batchChunks cfg (mem_claimed_of_mem_dueIds hr' hdue)
      obtain ⟨it, hnext, howed⟩ := owed_ofChunks hp hin
      refine ⟨w, it, ?_, r', howed, rfl⟩
      rw [hworkers, get?_setIteration, if_pos rfl, hnext]
  · have hsame : serviceStep cfg s (.claim clk w limit target excludeTarget) = s := by
      simp only [serviceStep, serviceOps, serviceWorkers, serviceLetta, hidle, run_nil]
    rw [hsame]
    exact ha

theorem attended_claimRaised_iff (ha : Attended s) {clk : Clock} {w : ℕ} {taken : ℤ} :
    Attended (serviceStep cfg s (.claimRaised clk w taken target excludeTarget)) ↔
      Handled cfg s (.claimRaised clk w taken target excludeTarget) := by
  rcases hidle : s.workers.get? w with _ | busy
  · -- the table is the one the claim leaves, the iterations are the ones before it
    have houtbox : (serviceStep cfg s (.claimRaised clk w taken target excludeTarget)).sys.outbox =
        (outboxStep cfg.toOutboxConfig s.sys (.claim clk w taken target excludeTarget)).outbox := by
      simp only [serviceStep, serviceOps, hidle, run_cons, run_nil]
      rfl
    constructor
    · intro h _ i hi
      obtain ⟨r, hr, rfl⟩ := mem_map.mp hi
      have hrow : r ∈ s.sys.outbox.rows :=
        mem_of_mem_filter ((mem_insertionSort _).mp (mem_of_mem_take hr))
      refine h (claimJobWrite clk r) ?_ rfl
      rw [houtbox]
      exact mem_claimFanoutBatch.mpr ⟨r, hrow, by rw [if_pos hi]⟩
    · intro h r' hr' hrunning
      rw [houtbox] at hr'
      rcases running_of_claim hr' hrunning with ⟨r, hr, hid, hr_running⟩ | hdue
      · rw [← hid]
        exact ha r hr hr_running
      · exact h hidle _ hdue
  · have hsame : serviceStep cfg s (.claimRaised clk w taken target excludeTarget) = s := by
      simp only [serviceStep, serviceOps, serviceWorkers, serviceLetta, hidle, run_nil]
    rw [hsame]
    refine iff_of_true ha fun hnone => ?_
    rw [hidle] at hnone
    cases hnone

section

variable {w : ℕ} {clk : Clock} {jitter : ℚ} {answer : Answer} {it : Iteration π}
  (hbusy : s.workers.get? w = some it)

include hbusy

theorem workers_proceed : (serviceStep cfg s (.proceed w clk jitter answer)).workers =
    setIteration s.workers w (proceed cfg w clk jitter s.letta it answer).next := by
  simp only [serviceStep, serviceWorkers, hbusy]

theorem outbox_proceed : (serviceStep cfg s (.proceed w clk jitter answer)).sys.outbox =
    (run (outboxStep cfg.toOutboxConfig) s.sys
      (proceed cfg w clk jitter s.letta it answer).ops).outbox := by
  simp only [serviceStep, serviceOps, hbusy, run_append]
  rw [releaseOps]
  split <;> rfl

theorem attended_proceed (hs : ServiceSound s) (ha : Attended s)
    (hhandled : Handled cfg s (.proceed w clk jitter answer)) :
    Attended (serviceStep cfg s (.proceed w clk jitter answer)) := by
  intro r' hr' hrunning
  rw [outbox_proceed hbusy] at hr'
  obtain ⟨r, hr, hid, hr_running⟩ := running_of_run (fun op hop hclaims => by
    cases op with
    | claim clk' w' => exact not_frees_of_mem_proceed hop (rfl : w' = w')
    | _ => exact hclaims) hr' hrunning
  obtain ⟨w', it', hit', job, hjob, hid'⟩ := ha r hr hr_running
  by_cases hne : w' = w
  · subst hne
    obtain rfl : it' = it := Option.some.inj (hit'.symm.trans hbusy)
    have hlinked := hs.linked w' it' hit'
    cases fate_of_mem_owed hs.held hlinked hjob with
    | owed hnext howed =>
      rw [← hid, ← hid']
      refine ⟨w', _, ?_, job, howed, rfl⟩
      rw [workers_proceed hbusy, get?_setIteration, if_pos rfl, hnext]
    | settled hsettled => exact absurd hrunning (hsettled r' hr' (hid.symm.trans hid'.symm))
    | dropped hanswer hunguarded =>
      subst hanswer
      rcases hhandled it' hit' _ hunguarded job hjob r hr hid'.symm hr_running with
        ⟨rfl, hsettles⟩ | hother
      · exact absurd hrunning (settled_of_uncaught hunguarded hs.held hlinked hjob hr hid'.symm
          hsettles r' hr' (hid.symm.trans hid'.symm))
      · obtain ⟨w'', it'', hne, hit'', job', hjob', hid''⟩ := hother
        rw [← hid, ← hid'']
        exact .of_ne (workers_proceed hbusy) hne hit'' hjob'
  · rw [← hid, ← hid']
    exact .of_ne (workers_proceed hbusy) hne hit' hjob

theorem handled_of_attended {error : String} {took : Bool}
    (h : Attended (serviceStep cfg s (.proceed w clk jitter (.raised error took)))) :
    Handled cfg s (.proceed w clk jitter (.raised error took)) := by
  intro it' hit' settles hunguarded job hjob r hr hid hrunning
  obtain rfl : it' = it := Option.some.inj (Eq.symm hit' |>.trans hbusy)
  rw [or_iff_not_imp_left]
  intro hnot
  -- the row is still there, and the iteration that owed it is over
  have hr' : r ∈
      (serviceStep cfg s (.proceed w clk jitter (.raised error took))).sys.outbox.rows := by
    rw [outbox_proceed hbusy]
    exact mem_of_uncaught hunguarded hr hnot
  obtain ⟨w', it'', hit'', hjob''⟩ := h r hr' hrunning
  rw [workers_proceed hbusy, get?_setIteration, next_of_uncaught hunguarded] at hit''
  split at hit''
  · cases hit''
  · rename_i hne
    exact ⟨w', it'', hne, hit'', hjob''⟩

end

theorem outbox_run_restart {α : Type*} {c : OutboxConfig} (ps : List (ℕ × α))
    (sys : OutboxState π) :
    (run (outboxStep c) sys (ps.map fun p => .restart p.1)).outbox = sys.outbox := by
  induction ps generalizing sys with
  | nil => rfl
  | cons p ps ih =>
    rw [map_cons, run_cons, ih]
    rfl

theorem outbox_restart (cfg : WorkerConfig) (s : FanoutService π) (clk : Clock) :
    (serviceStep cfg s (.restart clk)).sys.outbox =
      recoverStaleRunningJobs clk cfg.fanoutRunningStaleSecs s.sys.outbox := by
  simp only [serviceStep, serviceOps, run_append, run_cons, run_nil, outboxStep]
  rw [outbox_run_restart]

theorem attended_restart_iff {clk : Clock} :
    Attended (serviceStep cfg s (.restart clk)) ↔ Handled cfg s (.restart clk) := by
  have hrows : ∀ r', r' ∈ (serviceStep cfg s (.restart clk)).sys.outbox.rows ↔
      ∃ r ∈ s.sys.outbox.rows, r' = if staleRunning clk cfg.fanoutRunningStaleSecs r then
        recoverJobWrite clk r else r := by
    intro r'
    rw [outbox_restart]
    exact Outbox.mem_updateWhere
  constructor
  · intro h r hr hrunning
    by_contra hfresh
    -- a row the recovery passes over is still running, and nothing is in flight
    obtain ⟨w, it, hit, -⟩ := h r ((hrows r).mpr ⟨r, hr, by rw [if_neg hfresh]⟩) hrunning
    cases hit
  · intro h r' hr' hrunning
    obtain ⟨r, hr, rfl⟩ := (hrows r').mp hr'
    split at hrunning
    · cases hrunning
    · exact absurd (h r hr hrunning) ‹_›

theorem attended_step_iff (hs : ServiceSound s) (ha : Attended s) (op : ServiceOp π) :
    Attended (serviceStep cfg s op) ↔ Handled cfg s op := by
  cases op with
  | other op => exact iff_of_true (attended_other ha op) trivial
  | claim clk w limit target excludeTarget =>
    exact iff_of_true (attended_claim ha clk w limit target excludeTarget) trivial
  | claimRaised clk w taken target excludeTarget => exact attended_claimRaised_iff ha
  | proceed w clk jitter answer =>
    rcases hbusy : s.workers.get? w with _ | it
    · have hsame : serviceStep cfg s (.proceed w clk jitter answer) = s := by
        simp only [serviceStep, serviceOps, serviceWorkers, serviceLetta, hbusy, run_nil]
      rw [hsame]
      refine iff_of_true ha ?_
      cases answer with
      | returned => trivial
      | raised error took =>
        intro it hit
        rw [hbusy] at hit
        cases hit
    · refine ⟨fun h => ?_, attended_proceed hbusy hs ha⟩
      cases answer with
      | returned => trivial
      | raised error took => exact handled_of_attended hbusy h
  | restart clk => exact attended_restart_iff

theorem attended_fresh : Attended (.fresh : FanoutService π) := fun _ hr => nomatch hr

/-- **No orphans**: running rows are owed by iterations in flight, and can be claimed after a
restart, exactly when every step meets `Handled`. -/
theorem none_orphaned_iff (cfg : WorkerConfig) (es : List (ServiceOp π)) :
    ((∀ pre post, es = pre ++ post →
        Attended (run (serviceStep cfg) .fresh pre) ∧
          ((run (serviceStep cfg) .fresh pre).Quiet →
            ∀ r ∈ (run (serviceStep cfg) .fresh pre).sys.outbox.rows, r.status ≠ .running)) ∧
      ∀ pre clk post, es = pre ++ .restart clk :: post →
        ∀ r ∈ (run (serviceStep cfg) .fresh pre).sys.outbox.rows, r.status = .running →
          ∃ r' ∈ (run (serviceStep cfg) .fresh (pre ++ [.restart clk])).sys.outbox.rows,
            r'.id = r.id ∧
              ∀ clk' : Clock, clk.now ≤ clk'.now → dueJob clk' none none r' = true) ↔
      Along (serviceStep cfg) (Handled cfg) .fresh es := by
  have hiff : (∀ pre post, es = pre ++ post → Attended (run (serviceStep cfg) .fresh pre)) ↔
      Along (serviceStep cfg) (Handled cfg) .fresh es :=
    forall_run_iff_along (fun s op (hs : ServiceSound s) ha => attended_step_iff hs ha op)
      (fun s op hs _ => hs.step op) ServiceSound.fresh attended_fresh
  constructor
  · rintro ⟨hstates, -⟩
    exact hiff.mp fun pre post h => (hstates pre post h).1
  · intro halong
    refine ⟨fun pre post h => ?_, fun pre clk post h r hr hrunning => ?_⟩
    · have hattended := hiff.mpr halong pre post h
      exact ⟨hattended, fun hquiet r hr => hattended.not_running hquiet hr⟩
    · subst h
      rw [run_append]
      have hstale := halong.step_of_append.2 r hr hrunning
      refine ⟨recoverJobWrite clk r, ?_, rfl, fun clk' hle => ?_⟩
      · rw [run_cons, run_nil, outbox_restart]
        exact Outbox.mem_updateWhere.mpr ⟨r, hr, by rw [if_pos hstale]⟩
      · simp only [dueJob, recoverJobWrite, JobStatus.waiting, Bool.true_and, Bool.and_true]
        exact decide_eq_true hle

/-! ### Two ways to lose a row -/

def clockAt (now past : Stamp) : Clock where
  now := now
  after := fun _ => now
  ago := fun _ => past

def noteEvent : FanoutEvent Unit := ⟨"e1", "app", "a.md", "note", "", [], ()⟩

def claimedNote : List (ServiceOp Unit) :=
  [.other (.enqueue (clockAt "10:00:00Z" "09:59:54Z") false "" noteEvent .qdrant),
    .other (.enqueue (clockAt "10:00:00Z" "09:59:54Z") false "" noteEvent .mindsdb),
    .claim (clockAt "10:00:01Z" "09:58:01Z") 0 24 none (some .letta)]

def quickRestart : List (ServiceOp Unit) :=
  claimedNote ++ [.restart (clockAt "10:00:31Z" "09:58:31Z")]

def abortedBatch : List (ServiceOp Unit) :=
  claimedNote ++
    [.proceed 0 (clockAt "10:00:02Z" "09:58:02Z") 0 (.raised "connection refused" false),
      .proceed 0 (clockAt "10:00:03Z" "09:58:03Z") 0 (.raised "database is locked" false)]

def orphans {π : Type*} (s : FanoutService π) : List (ℕ × JobStatus) :=
  if s.workers.rows.isEmpty then
    (s.sys.outbox.rows.filter fun r => decide (r.status = .running)).map fun r => (r.id, r.status)
  else []

/-- **Both rows stay running** after a restart within the cut-off, and after an exception of the
handler. -/
theorem orphaned_rows :
    orphans (run (serviceStep .default) .fresh quickRestart) = [(1, .running), (2, .running)] ∧
      orphans (run (serviceStep .default) .fresh abortedBatch) =
        [(1, .running), (2, .running)] := by
  decide +kernel

end ContextLattice
