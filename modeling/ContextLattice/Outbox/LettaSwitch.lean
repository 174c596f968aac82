import Mathlib.Data.List.DropRight
import ContextLattice.Outbox.Worker

/-!
# Switching Letta off

A failed delivery to Letta switches it off after an error that counts as permanent, or after several
server errors in a row. Both are read off the text of the error, which ends with the beginning of
the response.
-/

namespace ContextLattice

open Foundation

variable {π : Type*} (cfg : WorkerConfig)

inductive LettaRequest where
  | sync | agentFetch | agentLookup | agentCreate | agentLookupRetry | agentEndpointPatch

def LettaRequest.label : LettaRequest → String
  | .sync => "Letta sync"
  | .agentFetch => "Letta agent fetch"
  | .agentLookup => "Letta agent lookup"
  | .agentCreate => "Letta agent create"
  | .agentLookupRetry => "Letta agent lookup retry"
  | .agentEndpointPatch => "Letta agent endpoint patch"

/-- How a delivery ends: an error response to one of the requests, or another exception with the
text the handler sees. -/
inductive LettaOutcome where
  | success
  | response (request : LettaRequest) (status : ℕ) (body : String)
  | raised (text : String)

def LettaOutcome.errorText : LettaOutcome → Option String
  | .success => none
  | .response request status body => some (strip (request.label ++ " failed: status=" ++
      toString status ++ " body=" ++ truncate 300 body))
  | .raised text => some text

def LettaOutcome.serverError : LettaOutcome → Bool
  | .response _ status _ => 500 ≤ status ∧ status ≤ 599
  | _ => false

structure LettaDelivery (π : Type*) where
  job : OutboxRow π
  outcome : LettaOutcome
  target_eq : job.target = .letta

def lettaStep (g : LettaRuntime) (d : LettaDelivery π) : LettaRuntime :=
  match d.outcome.errorText with
  | none => g.resetStreak
  | some error => (handleFanoutJobError cfg g d.job error).after

def lettaRun (ds : List (LettaDelivery π)) : LettaRuntime := run (lettaStep cfg) {} ds

def SwitchedOff (ds : List (LettaDelivery π)) : Prop :=
  (lettaRun cfg ds).enabled = false ∨
    ∃ pre d error reason, ds = pre ++ [d] ∧ d.outcome.errorText = some error ∧
      (handleFanoutJobError cfg (lettaRun cfg pre) d.job error).call = .failLettaBacklog reason

/-- The last response has a status of the permanent list, or the last deliveries, as many as the
threshold, have ended with a server error each. -/
def Cause (ds : List (LettaDelivery π)) : Prop :=
  (∃ d request status body, ds.getLast? = some d ∧ d.outcome = .response request status body ∧
      status ∈ [400, 401, 403, 404, 405, 410, 422]) ∨
    max 1 cfg.lettaTransientErrorThreshold ≤ ((ds.rtakeWhile (·.outcome.serverError)).length : ℤ)

/-! ### What the texts say -/

def LettaDelivery.readsPermanent (d : LettaDelivery π) : Bool :=
  d.outcome.errorText.any (isLettaPermanentError cfg.py)

def LettaDelivery.readsTransient (d : LettaDelivery π) : Bool :=
  d.outcome.errorText.any fun error =>
    !isLettaPermanentError cfg.py error && isLettaTransientServerError cfg.py error

/-- By the texts of the errors, the last one is permanent, or the last ones, as many as the
threshold, are server errors. -/
def TextCause (ds : List (LettaDelivery π)) : Prop :=
  (∃ d, ds.getLast? = some d ∧ d.readsPermanent cfg = true) ∨
    cfg.lettaDisableOnTransientErrors = true ∧ max 1 cfg.lettaTransientErrorThreshold ≤
      ((ds.rtakeWhile (·.readsTransient cfg)).length : ℤ)

variable {cfg} {ds : List (LettaDelivery π)} {d : LettaDelivery π}

theorem LettaRuntime.enabled_setDisabled (reason : String) (g : LettaRuntime) :
    (g.setDisabled reason).enabled = false := by
  cases h : g.enabled <;> simp [setDisabled, h]

variable (cfg) in
def LettaDelivery.turnsOff (g : LettaRuntime) (d : LettaDelivery π) : Bool :=
  d.readsPermanent cfg || (d.readsTransient cfg && cfg.lettaDisableOnTransientErrors &&
    decide (max 1 cfg.lettaTransientErrorThreshold ≤ ((g.transientErrorStreak + 1 : ℕ) : ℤ)))

theorem handleFanoutJobError_spec (g : LettaRuntime) {error : String}
    (h : d.outcome.errorText = some error) :
    ((∃ reason, (handleFanoutJobError cfg g d.job error).call = .failLettaBacklog reason) ↔
        d.turnsOff cfg g = true) ∧
      (handleFanoutJobError cfg g d.job error).after.enabled = (g.enabled && !d.turnsOff cfg g) ∧
      (d.turnsOff cfg g = false → cfg.lettaDisableOnTransientErrors = true →
        (handleFanoutJobError cfg g d.job error).after.transientErrorStreak =
          if d.readsTransient cfg then g.transientErrorStreak + 1 else 0) := by
  rw [LettaDelivery.turnsOff, LettaDelivery.readsPermanent, LettaDelivery.readsTransient, h,
    handleFanoutJobError, if_pos d.target_eq]
  generalize hN : max 1 cfg.lettaTransientErrorThreshold = N
  cases hpermanent : isLettaPermanentError cfg.py error with
  | true => simp [hpermanent, LettaRuntime.resetStreak, LettaRuntime.enabled_setDisabled]
  | false =>
    cases hon : cfg.lettaDisableOnTransientErrors with
    | false => simp [hpermanent, recordLettaTransientFailure, hon]
    | true =>
      cases htransient : isLettaTransientServerError cfg.py error with
      | false =>
        simp [hpermanent, htransient, recordLettaTransientFailure, hon, LettaRuntime.resetStreak]
      | true =>
        by_cases hlong : N ≤ (g.transientErrorStreak : ℤ) + 1
        · simp [hpermanent, htransient, recordLettaTransientFailure, hon, hN, hlong,
            LettaRuntime.enabled_setDisabled]
        · simp [hpermanent, htransient, recordLettaTransientFailure, hon, hN, hlong]

variable (cfg) in
theorem lettaStep_spec (g : LettaRuntime) (d : LettaDelivery π) :
    (lettaStep cfg g d).enabled = (g.enabled && !d.turnsOff cfg g) ∧
      (d.turnsOff cfg g = false → cfg.lettaDisableOnTransientErrors = true →
        (lettaStep cfg g d).transientErrorStreak =
          if d.readsTransient cfg then g.transientErrorStreak + 1 else 0) := by
  rw [lettaStep]
  split
  · rename_i h
    simp [LettaDelivery.turnsOff, LettaDelivery.readsPermanent, LettaDelivery.readsTransient, h,
      LettaRuntime.resetStreak]
  · rename_i error h
    exact (handleFanoutJobError_spec g h).2

theorem lettaRun_concat : lettaRun cfg (ds ++ [d]) = lettaStep cfg (lettaRun cfg ds) d := by
  rw [lettaRun, run_append, run_cons, run_nil, lettaRun]

theorem SwitchedOff.enabled_eq (h : SwitchedOff cfg ds) : (lettaRun cfg ds).enabled = false := by
  obtain h | ⟨pre, d, error, reason, rfl, herror, hcall⟩ := h
  · exact h
  · have hturns := (handleFanoutJobError_spec (lettaRun cfg pre) herror).1.mp ⟨reason, hcall⟩
    rw [lettaRun_concat, (lettaStep_spec cfg _ d).1, hturns, Bool.not_true, Bool.and_false]

theorem turnsOff_iff_textCause {g : LettaRuntime}
    (h : cfg.lettaDisableOnTransientErrors = true →
      g.transientErrorStreak = (ds.rtakeWhile (·.readsTransient cfg)).length) :
    d.turnsOff cfg g = true ↔ TextCause cfg (ds ++ [d]) := by
  simp only [TextCause, List.getLast?_concat, Option.some.injEq, exists_eq_left',
    LettaDelivery.turnsOff, Bool.or_eq_true, Bool.and_eq_true, decide_eq_true_eq,
    List.rtakeWhile_concat]
  refine or_congr_right ?_
  cases hserver : cfg.lettaDisableOnTransientErrors with
  | false => simp
  | true =>
    cases d.readsTransient cfg with
    | false => simp
    | true => simp [h hserver]

/-- **The switch and the texts.** Letta is off exactly when the texts were a cause at some point;
while it is on, the streak counts the last server errors. -/
theorem lettaRun_spec (ds : List (LettaDelivery π)) :
    ((lettaRun cfg ds).enabled = false ↔ ∃ h, h <+: ds ∧ TextCause cfg h) ∧
      ((lettaRun cfg ds).enabled = true → cfg.lettaDisableOnTransientErrors = true →
        (lettaRun cfg ds).transientErrorStreak =
          (ds.rtakeWhile (·.readsTransient cfg)).length) := by
  induction ds using List.reverseRecOn with
  | nil =>
    have hnone : ¬ ∃ h, h <+: ([] : List (LettaDelivery π)) ∧ TextCause cfg h := by
      simp [TextCause]
    exact ⟨iff_of_false (by simp [lettaRun]) hnone, fun _ _ => rfl⟩
  | append_singleton ds d ih =>
    obtain ⟨hoff, hstreak⟩ := ih
    obtain ⟨henabled, hcount⟩ := lettaStep_spec cfg (lettaRun cfg ds) d
    have hprefixes : (∃ h, h <+: ds ++ [d] ∧ TextCause cfg h) ↔
        (lettaRun cfg ds).enabled = false ∨ TextCause cfg (ds ++ [d]) := by
      simp only [List.prefix_concat_iff, or_and_right, exists_or, exists_eq_left, hoff, or_comm]
    rw [lettaRun_concat, hprefixes, henabled]
    cases hon : (lettaRun cfg ds).enabled with
    | false => simp
    | true =>
      have hcause := turnsOff_iff_textCause (hstreak hon) (d := d)
      refine ⟨by simpa using hcause, fun hstays hserver => ?_⟩
      rw [hcount (by simpa using hstays) hserver, List.rtakeWhile_concat, hstreak hon hserver]
      split <;> simp

variable (cfg) in
/-- **Letta is switched off for cause** exactly when every point at which the error texts read as a
cause has a cause before it or is one. -/
theorem letta_off_for_cause_iff (ds : List (LettaDelivery π)) :
    (∀ h, h <+: ds → SwitchedOff cfg h → ∃ h', h' <+: h ∧ Cause cfg h') ↔
      ∀ h, h <+: ds → TextCause cfg h → ∃ h', h' <+: h ∧ Cause cfg h' := by
  constructor
  · intro hall h hh htext
    exact hall h hh (.inl ((lettaRun_spec h).1.mpr ⟨h, List.prefix_rfl, htext⟩))
  · intro hall h hh hoff
    obtain ⟨h₁, hpre, htext⟩ := (lettaRun_spec h).1.mp hoff.enabled_eq
    obtain ⟨h₂, hpre₂, hcause⟩ := hall h₁ (hpre.trans hh) htext
    exact ⟨h₂, hpre₂.trans hpre, hcause⟩

def modelMissing : LettaDelivery Unit where
  job := ⟨⟨1, "e1", .letta, "app", "a.md", "2025-01-01T12:00:00Z"⟩, "note",
    ⟨"e1", "app", "a.md", "note", "", [], ()⟩, "", [], .running, 1, 8, "2025-01-01T12:00:00Z",
    none, none, none, "2025-01-01T12:00:00Z"⟩
  outcome := .response .sync 500 "model not found"
  target_eq := rfl

/-- One server error switches Letta off, with a threshold of sixty. -/
theorem server_error_disables :
    WorkerConfig.default.lettaTransientErrorThreshold = 60 ∧
      SwitchedOff .default [modelMissing] ∧ ∀ h, h <+: [modelMissing] → ¬ Cause .default h := by
  refine ⟨rfl, .inl (by decide +kernel), fun h hpre hcause => ?_⟩
  have hlength : h.length ≤ 1 := hpre.length_le
  rcases hcause with ⟨d, request, status, body, hlast, hd, hstatus⟩ | hstreak
  · obtain rfl : d = modelMissing :=
      List.mem_singleton.mp (hpre.subset (List.mem_of_getLast? hlast))
    obtain ⟨-, rfl, -⟩ := LettaOutcome.response.inj hd
    exact absurd hstatus (by decide)
  · have hlong : WorkerConfig.default.lettaTransientErrorThreshold = 60 := rfl
    have hshort := (List.rtakeWhile_suffix (·.outcome.serverError) h).length_le
    rw [hlong] at hstreak
    omega

end ContextLattice
