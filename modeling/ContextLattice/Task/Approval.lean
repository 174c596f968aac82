import ContextLattice.Task.Queue

/-!
# The approval gate

A task is *gated* while its row requires an approval and has none. The risk is read off the
**normalised** payload, and a request can mark itself approved.
-/

namespace ContextLattice

open Foundation

def Gated (id : String) (db : TaskDb) : Prop :=
  ∃ r, db.find? id = some r ∧ r.approvalRequired = true ∧ r.approved = false

def TaskOp.approves (id : String) : TaskOp → Prop
  | .approve _ id' _ _ => id' = id
  | _ => False

variable {py : Python} {cfg : TaskConfig} {id : String} {db : TaskDb}

theorem TaskChange.gate {op : TaskOp} {r r' : TaskRow} (h : TaskChange py cfg id op r r')
    (hop : ¬ op.approves id) :
    r'.approvalRequired = r.approvalRequired ∧ r'.approved = r.approved := by
  cases h with
  | approved => exact absurd rfl hop
  | _ => exact ⟨rfl, rfl⟩

theorem Gated.step (py : Python) (cfg : TaskConfig) (op : TaskOp) (h : Gated id db)
    (hop : ¬ op.approves id) : Gated id (taskStep py cfg db op) := by
  obtain ⟨r, hr, hrequired, happroved⟩ := h
  rcases taskStep_change py cfg op hr with ⟨-, hsame⟩ | ⟨-, r', hr', hchange⟩
  · exact ⟨r, hsame, hrequired, happroved⟩
  · obtain ⟨hrequired', happroved'⟩ := hchange.gate hop
    exact ⟨r', hr', hrequired'.trans hrequired, happroved'.trans happroved⟩

theorem Gated.run {ops : List TaskOp} (h : Gated id db) (hops : ∀ op ∈ ops, ¬ op.approves id) :
    Gated id (run (taskStep py cfg) db ops) :=
  run_invariant_of_mem (fun _ op hop h => h.step py cfg op (hops op hop)) h

theorem Gated.not_claimed (h : Gated id db) (clk : Clock) (worker : Option String) :
    (claimTask py cfg clk worker db).2 ≠ some id := by
  obtain ⟨r, hr, hrequired, happroved⟩ := h
  rcases find?_claimTask py cfg clk worker hr with ⟨hne, -⟩ | ⟨-, hclaimable, -⟩
  · exact hne
  · simp [claimable, hrequired, happroved] at hclaimable

theorem Gated.not_handedOut (h : Gated id db) (op : TaskOp) :
    handedOut py cfg db op ≠ some id := by
  cases op with
  | claim clk clkRecover worker =>
    -- a claim recovers expired leases first, which keeps the task gated
    exact (h.step py cfg (.recover clkRecover 25) not_false).not_claimed clk worker
  | select clk worker => exact h.not_claimed clk worker
  | _ => simp [handedOut]

/-! ### New tasks -/

variable {clk : Clock} {taskId : String} {req : TaskRequest} {db' : TaskDb} {row : TaskRow}
  {payload normalized : Payload} {action : String}

theorem declaredRiskLevel_normalized
    (h : validateTaskPayloadContract py cfg payload = .ok normalized) :
    declaredRiskLevel py normalized = declaredRiskLevel py payload := by
  simp only [declaredRiskLevel]
  rw [get?_validateTaskPayloadContract h (by decide),
    get?_validateTaskPayloadContract h (by decide),
    get?_validateTaskPayloadContract h (by decide)]

theorem selfApproved_normalized (h : validateTaskPayloadContract py cfg payload = .ok normalized) :
    selfApproved normalized = selfApproved payload := by
  simp only [selfApproved, flag]
  rw [get?_validateTaskPayloadContract h (by decide),
    get?_validateTaskPayloadContract h (by decide)]

def asksForApproval (py : Python) (payload : Payload) : Prop :=
  (∀ level, declaredRiskLevel py payload = some level → level = "high" ∨ level = "critical") ∨
    flag payload "approval_required" = true

theorem approvalRequired_normalized
    (h : validateTaskPayloadContract py cfg payload = .ok normalized)
    (hon : cfg.highRiskApprovalRequired = true)
    (hdeclared : detectActionType py payload = some action)
    (hsettled : settledAction py payload = some action)
    (hrisky : action ∈ cfg.highRiskActions) (hasks : asksForApproval py payload) :
    approvalRequired py cfg normalized = true := by
  rw [approvalRequired, Bool.or_eq_true]
  rcases hasks with hlevel | hflag
  · -- the stated level decides if there is one, the action type otherwise
    right
    rw [requiresApproval, hon, Bool.true_and, decide_eq_true_eq, detectRiskLevel,
      declaredRiskLevel_normalized h]
    rcases hstated : declaredRiskLevel py payload with _ | level
    · simp [detectActionType_normalized h hdeclared hsettled, hrisky]
    · simpa using hlevel level hstated
  · left
    rw [flag, get?_validateTaskPayloadContract h (by decide)]
    exact hflag

/-- **No execution before approval** of a request of a high-risk type that neither states a lower
risk nor approves itself. -/
theorem no_claim_before_approval
    (hcreate : createTaskRecord py cfg clk taskId req db = .ok (db', row))
    (hpayload : req.payload = some payload) (hon : cfg.highRiskApprovalRequired = true)
    (hdeclared : detectActionType py payload = some action)
    (hsettled : settledAction py payload = some action)
    (hrisky : action ∈ cfg.highRiskActions) (hasks : asksForApproval py payload)
    (hself : selfApproved payload = false) (ops : List TaskOp)
    (hops : ∀ op ∈ ops, ¬ op.approves row.id) (claim : TaskOp) :
    handedOut py cfg (run (taskStep py cfg) db' ops) claim ≠ some row.id := by
  obtain ⟨normalized, due, hnormalized, hrow⟩ :=
    taskRowOf_eq_ok hpayload (createTaskRecord_eq_ok hcreate).1
  have hgated : Gated row.id db' := by
    refine ⟨row, find?_of_createTaskRecord hcreate, ?_, ?_⟩
    · rw [hrow]
      exact approvalRequired_normalized hnormalized hon hdeclared hsettled hrisky hasks
    · rw [hrow]
      exact (selfApproved_normalized hnormalized).trans hself
  exact Gated.not_handedOut (hgated.run hops) claim

/-! ### A payment that approves itself -/

def paymentConfig : TaskConfig :=
  { TaskConfig.default with taskAllowedActions := ["payment"] }

def paymentRequest (approved : Option Bool) : AgentTaskCreate :=
  { title := "pay", actionType := some "payment", approved := approved }

theorem no_claim_before_approval_payment :
    ∃ db' row, createAgentTask .ascii paymentConfig .noon "t1" (paymentRequest none) .empty =
        .ok (db', row) ∧
      handedOut .ascii paymentConfig (run (taskStep .ascii paymentConfig) db' [.recover .noon 25])
        (.claim .noon .noon none) ≠ some row.id := by
  obtain ⟨db', row, h⟩ : ∃ db' row,
      createAgentTask .ascii paymentConfig .noon "t1" (paymentRequest none) .empty =
        .ok (db', row) := ⟨_, _, rfl⟩
  have hdeclared : detectActionType .ascii (paymentRequest none).taskPayload = some "payment" :=
    rfl
  refine ⟨db', row, h, no_claim_before_approval h rfl rfl hdeclared rfl ?_ ?_ rfl _ ?_ _⟩
  · decide
  · exact .inl fun _ hlevel => by cases hlevel
  · simp [TaskOp.approves]

/-- The payment that marks itself approved goes to the next worker, with no approve call. -/
theorem selfApproved_handed_out :
    ∃ db' row, createAgentTask .ascii paymentConfig .noon "t1" (paymentRequest (some true)) .empty =
        .ok (db', row) ∧
      detectActionType .ascii (paymentRequest (some true)).taskPayload = some "payment" ∧
      "payment" ∈ paymentConfig.highRiskActions ∧
      paymentConfig.highRiskApprovalRequired = true ∧
      handedOut .ascii paymentConfig db' (.claim .noon .noon none) = some row.id :=
  ⟨_, _, rfl, rfl, by decide, rfl, by decide⟩

end ContextLattice
