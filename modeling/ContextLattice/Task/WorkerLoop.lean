import ContextLattice.Foundation.Run
import ContextLattice.Task.Row

/-!
# The loop of an internal task worker

The loop of `_agent_task_worker` moves from one awaited call to the next (`WorkerPoint`), whatever
they answer. The failure is reported **inside** the exception handler, where nothing is caught.
-/

namespace ContextLattice

open Foundation

inductive WorkerEnding where
  | cancelled
  | raised (error : String)
deriving DecidableEq

inductive WorkerPoint where
  | claiming
  | pausing
  | executing (task : TaskRow)
  | reporting (task : TaskRow) (result : Json)
  | recordingSuccess
  | requeuing (task : TaskRow) (error : String)
  | recordingFailure
  | backingOff
  | ended (ending : WorkerEnding)

inductive WorkerAnswer where
  | claimed (task : Option TaskRow)
  | executed (result : Json)
  | stored (row : Option TaskRow)
  | finished
  | raised (error : String)
  | cancelled

structure WorkerHealth where
  workersRunning : ℕ
  claimed : ℕ
  succeeded : ℕ
  retried : ℕ
  failed : ℕ
  lastWorkerError : Option String
deriving DecidableEq

structure TaskWorker where
  point : WorkerPoint
  health : WorkerHealth

namespace TaskWorker

def handle (w : TaskWorker) (task : Option TaskRow) (error : String) : TaskWorker where
  point := match task with
    | some t => if t.id = "" then .backingOff else .requeuing t error
    | none => .backingOff
  health := { w.health with lastWorkerError := some (truncate 300 error) }

def finish (w : TaskWorker) (ending : WorkerEnding) : TaskWorker where
  point := .ended ending
  health := { w.health with workersRunning := w.health.workersRunning - 1 }

def succeed (w : TaskWorker) : TaskWorker where
  point := .claiming
  health := { w.health with succeeded := w.health.succeeded + 1 }

def countRetry (w : TaskWorker) (row : Option TaskRow) : TaskWorker where
  point := .claiming
  health :=
    if row.any (·.status = .queued) then { w.health with retried := w.health.retried + 1 }
    else { w.health with failed := w.health.failed + 1 }

def step (writeback : Bool) (w : TaskWorker) (a : WorkerAnswer) : TaskWorker :=
  match w.point, a with
  | .ended _, _ => w
  | _, .cancelled => w.finish .cancelled
  | .claiming, .claimed none => { w with point := .pausing }
  | .claiming, .claimed (some task) =>
    { point := .executing task, health := { w.health with claimed := w.health.claimed + 1 } }
  | .claiming, .raised error => w.handle none error
  | .pausing, .finished => { w with point := .claiming }
  | .executing task, .executed result => { w with point := .reporting task result }
  | .executing task, .raised error => w.handle (some task) error
  | .reporting _ _, .stored row =>
    if row.isSome && writeback then { w with point := .recordingSuccess } else w.succeed
  | .reporting task _, .raised error => w.handle (some task) error
  | .recordingSuccess, .finished | .recordingSuccess, .raised _ => w.succeed
  | .requeuing _ _, .stored row =>
    if row.any (·.status = .failed) && writeback then { w with point := .recordingFailure }
    else w.countRetry row
  -- the exception leaves the handler, and with it the loop
  | .requeuing _ _, .raised error => w.finish (.raised error)
  | .recordingFailure, .finished | .recordingFailure, .raised _ => w.countRetry none
  | .backingOff, .finished => { w with point := .claiming }
  | _, _ => w

def Live (w : TaskWorker) : Prop := ∀ ending, w.point ≠ .ended ending

def Crashed (w : TaskWorker) : Prop := ∃ error, w.point = .ended (.raised error)

def ReportRaises (w : TaskWorker) (a : WorkerAnswer) : Prop :=
  ∃ task error error', w.point = .requeuing task error ∧ a = .raised error'

def Answers : WorkerPoint → WorkerAnswer → Prop
  | .claiming, a => (∃ task, a = .claimed task) ∨ ∃ error, a = .raised error
  | .executing _, a => (∃ result, a = .executed result) ∨ ∃ error, a = .raised error
  | .reporting _ _, a | .requeuing _ _, a => (∃ row, a = .stored row) ∨ ∃ error, a = .raised error
  | .recordingSuccess, a | .recordingFailure, a => a = .finished ∨ ∃ error, a = .raised error
  | .pausing, a | .backingOff, a => a = .finished
  | .ended _, _ => False

def awaitsLeft : WorkerPoint → ℕ
  | .claiming | .ended _ => 0
  | .pausing | .backingOff | .recordingSuccess | .recordingFailure => 1
  | .requeuing _ _ => 2
  | .reporting _ _ => 3
  | .executing _ => 4

variable {writeback : Bool} {w : TaskWorker} {a : WorkerAnswer}

theorem point_step_cancelled (hlive : w.Live) :
    (step writeback w .cancelled).point = .ended .cancelled := by
  obtain ⟨point, health⟩ := w
  cases point with
  | ended ending => exact absurd rfl (hlive ending)
  | _ => rfl

theorem handle_spec (w : TaskWorker) (task : Option TaskRow) (error : String) :
    (w.handle task error).Live ∧ awaitsLeft (w.handle task error).point ≤ 2 := by
  cases task with
  | none => simp [handle, Live, awaitsLeft]
  | some t => by_cases hid : t.id = "" <;> simp [handle, Live, awaitsLeft, hid]

theorem live_step (hlive : w.Live) (hcancel : a ≠ .cancelled) (hreport : ¬ ReportRaises w a) :
    (step writeback w a).Live := by
  obtain ⟨point, health⟩ := w
  have hhandle := fun task error => (handle_spec ⟨point, health⟩ task error).1
  cases point with
  | ended ending => exact absurd rfl (hlive ending)
  | claiming =>
    cases a with
    | claimed task => cases task <;> simp [step, Live]
    | raised error => exact hhandle none error
    | cancelled => exact absurd rfl hcancel
    | _ => exact hlive
  | executing task =>
    cases a with
    | executed result => simp [step, Live]
    | raised error => exact hhandle (some task) error
    | cancelled => exact absurd rfl hcancel
    | _ => exact hlive
  | reporting task result =>
    cases a with
    | stored row =>
      simp only [step]
      split <;> simp [Live, succeed]
    | raised error => exact hhandle (some task) error
    | cancelled => exact absurd rfl hcancel
    | _ => exact hlive
  | requeuing task error =>
    cases a with
    | stored row =>
      simp only [step]
      split <;> simp [Live, countRetry]
    | raised error' => exact absurd ⟨task, error, error', rfl, rfl⟩ hreport
    | cancelled => exact absurd rfl hcancel
    | _ => exact hlive
  | pausing | backingOff | recordingSuccess | recordingFailure =>
    cases a with
    | cancelled => exact absurd rfl hcancel
    | _ => simp [step, Live, succeed, countRetry]

theorem crashed_of_reportRaises (h : ReportRaises w a) : (step writeback w a).Crashed := by
  obtain ⟨task, error, error', hpoint, rfl⟩ := h
  obtain ⟨point, health⟩ := w
  subst hpoint
  exact ⟨error', rfl⟩

theorem crashed_step_iff (h : ¬ w.Crashed) :
    (step writeback w a).Crashed ↔ ReportRaises w a := by
  refine ⟨fun hcrashed => ?_, crashed_of_reportRaises⟩
  by_contra hreport
  by_cases hended : ∃ ending, w.point = .ended ending
  · obtain ⟨ending, hended⟩ := hended
    have hsame : step writeback w a = w := by simp [step, hended]
    exact h (hsame ▸ hcrashed)
  · have hlive : w.Live := fun ending hpoint => hended ⟨ending, hpoint⟩
    obtain ⟨error, hpoint⟩ := hcrashed
    by_cases hcancel : a = .cancelled
    · subst hcancel
      rw [point_step_cancelled hlive] at hpoint
      cases hpoint
    · exact live_step hlive hcancel hreport _ hpoint

theorem awaitsLeft_step (hanswers : Answers w.point a) (hreport : ¬ ReportRaises w a)
    (hpoint : w.point ≠ .claiming) :
    awaitsLeft (step writeback w a).point < awaitsLeft w.point := by
  obtain ⟨point, health⟩ := w
  have hhandle := fun task error => (handle_spec ⟨point, health⟩ task error).2
  cases point with
  | ended ending => exact hanswers.elim
  | claiming => exact absurd rfl hpoint
  | executing task =>
    obtain ⟨result, rfl⟩ | ⟨error, rfl⟩ := hanswers
    · simp [step, awaitsLeft]
    · exact Nat.lt_of_le_of_lt (hhandle (some task) error) (by decide : 2 < 4)
  | reporting task result =>
    obtain ⟨row, rfl⟩ | ⟨error, rfl⟩ := hanswers
    · simp only [step]
      split <;> simp [awaitsLeft, succeed]
    · exact Nat.lt_of_le_of_lt (hhandle (some task) error) (by decide : 2 < 3)
  | requeuing task error =>
    obtain ⟨row, rfl⟩ | ⟨error', rfl⟩ := hanswers
    · simp only [step]
      split <;> simp [awaitsLeft, countRetry]
    · exact absurd ⟨task, error, error', rfl, rfl⟩ hreport
  | recordingSuccess | recordingFailure =>
    obtain rfl | ⟨error, rfl⟩ := hanswers <;> simp [step, awaitsLeft, succeed, countRetry]
  | pausing | backingOff =>
    obtain rfl := hanswers
    simp [step, awaitsLeft]

variable {as : List WorkerAnswer}

theorem exists_claiming
    (hanswers : Along (step writeback) (fun w a => Answers w.point a ∧ ¬ ReportRaises w a) w as)
    (hlength : awaitsLeft w.point ≤ as.length) (hlive : w.Live) :
    ∃ pre post, as = pre ++ post ∧ (run (step writeback) w pre).point = .claiming := by
  induction as generalizing w with
  | nil =>
    refine ⟨[], [], rfl, ?_⟩
    obtain ⟨point, health⟩ := w
    cases point with
    | claiming => rfl
    | ended ending => exact absurd rfl (hlive ending)
    | _ => simp [awaitsLeft] at hlength
  | cons a as ih =>
    by_cases hpoint : w.point = .claiming
    · exact ⟨[], a :: as, rfl, hpoint⟩
    · obtain ⟨⟨hanswer, hreport⟩, has⟩ := hanswers
      have hcancel : a ≠ .cancelled := by
        rintro rfl
        obtain ⟨point, health⟩ := w
        cases point <;> simp [Answers] at hanswer
      have hnearer : awaitsLeft (step writeback w a).point < awaitsLeft w.point :=
        awaitsLeft_step hanswer hreport hpoint
      have hlength' : awaitsLeft (step writeback w a).point ≤ as.length := by
        rw [List.length_cons] at hlength
        omega
      obtain ⟨pre, post, rfl, hclaiming⟩ := ih has hlength' (live_step hlive hcancel hreport)
      exact ⟨a :: pre, post, rfl, hclaiming⟩

theorem cancelled_mem_of_ended (hlive : w.Live)
    (hended : (run (step writeback) w as).point = .ended .cancelled) : .cancelled ∈ as := by
  by_contra hnot
  induction as generalizing w with
  | nil => exact hlive _ hended
  | cons a as ih =>
    rw [List.mem_cons, not_or] at hnot
    by_cases hreport : ReportRaises w a
    · -- a worker that crashed does not end a second time
      obtain ⟨error, hpoint⟩ : (step writeback w a).Crashed := crashed_of_reportRaises hreport
      have hstays : ∀ (w : TaskWorker) a, w.point = .ended (.raised error) →
          (step writeback w a).point = .ended (.raised error) := by
        intro w a hw
        simp [step, hw]
      rw [run_cons, run_invariant hstays hpoint as] at hended
      cases hended
    · exact ih (live_step hlive (Ne.symm hnot.1) hreport) hended hnot.2

/-- **The worker goes on** if and only if no report of a failure raises. -/
theorem worker_goes_on_iff (hlive : w.Live) :
    ((∀ pre post, as = pre ++ post → ¬ (run (step writeback) w pre).Crashed) ↔
        Along (step writeback) (fun w a => ¬ ReportRaises w a) w as) ∧
      ((run (step writeback) w as).point = .ended .cancelled → .cancelled ∈ as) ∧
      (Along (step writeback) (fun w a => Answers w.point a ∧ ¬ ReportRaises w a) w as →
        awaitsLeft w.point ≤ as.length →
        ∃ pre post, as = pre ++ post ∧ (run (step writeback) w pre).point = .claiming) := by
  refine ⟨?_, cancelled_mem_of_ended hlive, fun hanswers hlength =>
    exists_claiming hanswers hlength hlive⟩
  have hstart : ¬ w.Crashed := fun ⟨error, hpoint⟩ => hlive _ hpoint
  have hiff : ∀ w a, ¬ Crashed w → (¬ (step writeback w a).Crashed ↔ ¬ ReportRaises w a) :=
    fun w a hw => not_congr (crashed_step_iff hw)
  exact forall_run_iff_along_of_step hiff hstart

/-! ### A database that is locked twice -/

def started : TaskWorker := ⟨.claiming, ⟨1, 0, 0, 0, 0, none⟩⟩

def claimedTask : TaskRow :=
  newRow .default .noon "t1"
    { title := "find", project := none, agent := none, priority := 0, payload := none
      runAfter := none, maxAttempts := none } "2025-01-01T12:00:00Z"

theorem worker_goes_on_requeued :
    ∃ pre post,
      [.raised "no answer", .stored (some claimedTask), .claimed none, .finished] = pre ++ post ∧
        (run (step true) ⟨.executing claimedTask, started.health⟩ pre).point = .claiming :=
  (worker_goes_on_iff fun _ h => by cases h).2.2
    ⟨⟨.inr ⟨_, rfl⟩, by simp [ReportRaises]⟩, ⟨.inl ⟨_, rfl⟩, by simp [ReportRaises]⟩,
      ⟨.inl ⟨_, rfl⟩, by simp [ReportRaises]⟩, ⟨rfl, by simp [ReportRaises]⟩, trivial⟩ (by decide)

/-- The database is locked when a failure is reported, and the worker is gone though nobody
cancelled it. -/
theorem locked_database_ends_worker :
    let w := run (step true) started
      [.claimed (some claimedTask), .raised "no answer", .raised "database is locked"]
    w.point = .ended (.raised "database is locked") ∧ w.health.workersRunning = 0 :=
  ⟨rfl, rfl⟩

end TaskWorker

end ContextLattice
