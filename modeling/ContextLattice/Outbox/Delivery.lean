import ContextLattice.Outbox.System

/-!
# What a success mark stands for

The marks of a worker are keyed by the row id alone. `MarksMatch` says when a mark still finds the
row the worker had in hand.
-/

namespace ContextLattice

open Foundation

variable {π : Type*}

def SuccessMatches (s : OutboxState π) : OutboxOp π → Prop
  | .markSuccess _ w i => ∀ h ∈ s.job? w i, h.delivered = true →
    ∀ r ∈ s.outbox.rows, r.id = i → r.payload = h.job.payload
  | _ => True

def FailureMatches (s : OutboxState π) : OutboxOp π → Prop
  | .markRetry _ w i _ _ => (s.job? w i).isSome →
    ∀ r ∈ s.outbox.rows, r.id = i → r.status ≠ .succeeded
  | .markFailed _ w i _ => (s.job? w i).isSome →
    ∀ r ∈ s.outbox.rows, r.id = i → r.status ≠ .succeeded
  | _ => True

def MarksMatch (s : OutboxState π) (op : OutboxOp π) : Prop :=
  SuccessMatches s op ∧ FailureMatches s op

instance [DecidableEq π] (s : OutboxState π) (op : OutboxOp π) :
    Decidable (SuccessMatches s op) :=
  match op with
  | .enqueue .. | .claim .. | .deliver .. | .markSuccess .. | .markRetry .. | .markFailed ..
  | .failLetta .. | .recover .. | .gc .. | .prune .. | .restart .. => by
    unfold SuccessMatches
    infer_instance

instance (s : OutboxState π) (op : OutboxOp π) : Decidable (FailureMatches s op) :=
  match op with
  | .enqueue .. | .claim .. | .deliver .. | .markSuccess .. | .markRetry .. | .markFailed ..
  | .failLetta .. | .recover .. | .gc .. | .prune .. | .restart .. => by
    unfold FailureMatches
    infer_instance

instance [DecidableEq π] (s : OutboxState π) (op : OutboxOp π) : Decidable (MarksMatch s op) :=
  inferInstanceAs (Decidable (_ ∧ _))

def OutboxOp.forced : OutboxOp π → Prop
  | .enqueue _ force _ _ _ => force = true
  | _ => False

structure DeliverySound (s : OutboxState π) : Prop extends HeldSound s where
  succeeded : ∀ r ∈ s.outbox.rows, r.status = .succeeded → (r.target, r.payload) ∈ s.delivered

variable {cfg : OutboxConfig} {s : OutboxState π} {op : OutboxOp π} {r r' : OutboxRow π}

theorem DeliverySound.empty : DeliverySound (.empty : OutboxState π) :=
  ⟨.empty, by simp [OutboxState.empty]⟩

theorem status_retryWrite_ne_succeeded (clk : Clock) (job : OutboxRow π) (jitter : ℚ)
    (error : String) : (retryWrite cfg clk job jitter error r).status ≠ .succeeded := by
  rw [retryWrite]
  dsimp only
  split <;> decide

theorem JobChange.succeeded_cases (h : JobChange cfg s op r r') (hr' : r'.status = .succeeded) :
    (r.status = .succeeded ∧ r'.payload = r.payload) ∨
      ∃ clk w held, op = .markSuccess clk w r.id ∧ s.job? w r.id = some held ∧
        held.delivered = true ∧ r'.payload = r.payload := by
  cases h with
  | same => exact .inl ⟨hr', rfl⟩
  | coalesced h =>
    -- a payload is coalesced into waiting rows only
    obtain ⟨-, -, -, -, hwaiting, -⟩ := coalesceCandidate_eq_some h
    have hstatus : r.status = .succeeded := hr'
    simp [hstatus, JobStatus.waiting] at hwaiting
  | succeeded h hdelivered => exact .inr ⟨_, _, _, rfl, h, hdelivered, rfl⟩
  | retried => exact absurd hr' (status_retryWrite_ne_succeeded _ _ _ _)
  | _ => cases hr'

theorem DeliverySound.step (hs : DeliverySound s) (hmarks : SuccessMatches s op) :
    DeliverySound (outboxStep cfg s op) := by
  refine ⟨hs.toHeldSound.step op, fun r' hr' hstatus => ?_⟩
  rcases exists_change_of_mem hr' with ⟨r, hr, hchange⟩ | hinserts
  · have htarget : r'.target = r.target := congrArg RowIdent.target hchange.ident
    rcases hchange.succeeded_cases hstatus with
      ⟨hold, hpayload⟩ | ⟨clk, w, held, rfl, hjob, hdelivered, hpayload⟩
    · rw [htarget, hpayload]
      exact delivered_mono (hs.succeeded r hr hold)
    · -- the mark finds the payload that was pushed
      obtain ⟨hheld, -, hid⟩ := OutboxState.job?_eq_some hjob
      have hident := hs.ident held hheld r hr hid.symm
      rw [htarget, hpayload, hmarks held hjob hdelivered r hr rfl, congrArg RowIdent.target hident]
      exact delivered_mono (hs.pushed held hheld hdelivered)
  · cases hinserts
    cases hstatus

theorem succeeded_step (hmarks : FailureMatches s op) (hr : r ∈ s.outbox.rows)
    (hstatus : r.status = .succeeded) (hr' : r' ∈ (outboxStep cfg s op).outbox.rows)
    (hid : r'.id = r.id) : r'.status = .succeeded ∨ op.forced := by
  rcases exists_change_of_mem hr' with ⟨r₀, hr₀, hchange⟩ | hinserts
  · have hid₀ : r₀.id = r.id := (congrArg RowIdent.id hchange.ident).symm.trans hid
    obtain rfl : r₀ = r := Table.eq_of_mem_of_key hr₀ hr hid₀
    cases hchange with
    | same | coalesced => exact .inl hstatus
    | requeued => exact .inr rfl
    | claimed h => simp [hstatus, JobStatus.waiting] at h
    | succeeded => exact .inl rfl
    | retried h => exact absurd hstatus (hmarks (by simp [h]) r₀ hr rfl)
    | failed h => exact absurd hstatus (hmarks (by simp [h]) r₀ hr rfl)
    | lettaFailed h => simp [hstatus, JobStatus.outstanding] at h
    | recovered h => simp [hstatus] at h
  · cases hinserts
    exact absurd hid.symm (s.outbox.id_lt r hr).ne

/-- **Success marks are sound along the runs whose marks match**: the payload was delivered. -/
theorem succeeded_sound {ops : List (OutboxOp π)}
    (hops : Along (outboxStep cfg) MarksMatch .empty ops) :
    (∀ pre post, ops = pre ++ post → ∀ r ∈ (run (outboxStep cfg) .empty pre).outbox.rows,
        r.status = .succeeded →
          (r.target, r.payload) ∈ (run (outboxStep cfg) .empty pre).delivered) ∧
      ∀ pre op post, ops = pre ++ op :: post →
        ∀ r ∈ (run (outboxStep cfg) .empty pre).outbox.rows, r.status = .succeeded →
          ∀ r' ∈ (run (outboxStep cfg) .empty (pre ++ [op])).outbox.rows, r'.id = r.id →
            r'.status = .succeeded ∨ op.forced := by
  refine ⟨?_, ?_⟩
  · rintro pre post rfl
    rw [along_append] at hops
    have hsound : DeliverySound (run (outboxStep cfg) .empty pre) :=
      Along.invariant (fun s op hs hop => hs.step hop.1) .empty hops.1
    exact hsound.succeeded
  · rintro pre op post rfl r hr hstatus r' hr' hid
    rw [run_append] at hr'
    exact succeeded_step hops.step_of_append.2.2 hr hstatus hr' hid

/-! ### Two marks that do not match -/

def plainEvent (eventId file : String) : FanoutEvent Unit :=
  ⟨eventId, "docs", file, eventId, "", [], ()⟩

def tick : Clock := .noon

/-- `e2` is coalesced into the row of `e1` and claimed; a forced requeue resets the row; the worker
marks it. -/
def lateSuccess : List (OutboxOp Unit) :=
  [.enqueue tick false "" (plainEvent "e1" "a.md") .qdrant,
    .enqueue tick false "" (plainEvent "e2" "a.md") .qdrant,
    .claim tick 0 24 none none,
    .enqueue tick true "" (plainEvent "e1" "a.md") .qdrant,
    .deliver 0 1, .markSuccess tick 0 1]

def raisingBatch : List (OutboxOp Unit) :=
  [.enqueue tick false "" (plainEvent "e1" "a.md") .qdrant,
    .enqueue tick false "" (plainEvent "e2" "b.md") .qdrant,
    .claim tick 0 24 none none, .deliver 0 1, .deliver 0 2, .markSuccess tick 0 1]

theorem succeeded_sound_run :
    (run (outboxStep .default) .empty raisingBatch).outbox.rows.map (fun r => r.status) =
        [.succeeded, .running] ∧
      ∀ r ∈ (run (outboxStep .default) .empty raisingBatch).outbox.rows, r.status = .succeeded →
        (r.target, r.payload) ∈ (run (outboxStep .default) .empty raisingBatch).delivered := by
  refine ⟨by decide, (succeeded_sound ?_).1 _ [] (List.append_nil _).symm⟩
  decide

/-- The row ends as succeeded with a payload no worker ever pushed; and an error puts a row that
succeeded back. -/
theorem undelivered_succeeded :
    (¬ ∀ r ∈ (run (outboxStep .default) .empty lateSuccess).outbox.rows, r.status = .succeeded →
        (r.target, r.payload) ∈ (run (outboxStep .default) .empty lateSuccess).delivered) ∧
      (run (outboxStep .default) .empty raisingBatch).outbox.rows.map (fun r => r.status) =
        [.succeeded, .running] ∧
      (run (outboxStep .default) .empty
        (raisingBatch ++ [.markRetry tick 0 1 0 "locked"])).outbox.rows.map (fun r => r.status) =
        [.retrying, .running] := by
  refine ⟨by decide, by decide, by decide⟩

end ContextLattice
