import ContextLattice.Task.Queue

/-!
# Terminal statuses

Claims, recoveries and approvals leave terminal statuses alone. A status update and a retry requeue
test nothing.
-/

namespace ContextLattice

open Foundation

def TaskOp.replays (id : String) : TaskOp → Prop
  | .replay _ id' _ _ _ => id' = id
  | _ => False

variable (py : Python) (cfg : TaskConfig) (id : String)

def KeepsTerminal (db : TaskDb) (op : TaskOp) : Prop :=
  ∀ r, db.find? id = some r → r.status.terminal = true →
    ((taskStep py cfg db op).find? id).map TaskRow.status = some r.status ∨ op.replays id

/-- The reports that agree with a terminal row: a status update repeats the status, and a retry
requeue finds a failed task without attempts left. -/
def AgreesWith (r : TaskRow) : TaskOp → Prop
  | .update _ id' status message metadata => id' = id →
    ∀ u, prepareStatusUpdate py status message metadata = .ok u → u.status = r.status
  | .requeue _ id' _ _ => id' = id → r.status = .failed ∧ exhausted cfg r
  | _ => True

def ReportsAgree (db : TaskDb) (op : TaskOp) : Prop :=
  ∀ r, db.find? id = some r → r.status.terminal = true → AgreesWith py cfg id r op

variable {py cfg id} {db : TaskDb} {op : TaskOp} {r r' : TaskRow}

theorem approvedStatus_of_terminal {s : TaskStatus} (h : s.terminal = true) :
    approvedStatus s = s := by
  cases s <;> first | rfl | cases h

theorem claimable_of_terminal {now : Stamp} {name : String} (h : r.status.terminal = true) :
    claimable py now name r = false := by
  cases hs : r.status <;> simp_all [claimable, TaskStatus.terminal]

theorem leaseExpired_of_terminal {now : Stamp} (h : r.status.terminal = true) :
    leaseExpired now r = false := by
  cases hs : r.status <;> simp_all [leaseExpired, TaskStatus.terminal]

theorem TaskChange.status_of_terminal (h : TaskChange py cfg id op r r')
    (hterminal : r.status.terminal = true) (hagrees : AgreesWith py cfg id r op) :
    r'.status = r.status ∨ op.replays id := by
  cases h with
  | recovered h => simp [leaseExpired_of_terminal hterminal] at h
  | selected h => simp [claimable_of_terminal hterminal] at h
  | claimed h => simp [claimable_of_terminal hterminal] at h
  | claimRecovered h => simp [leaseExpired_of_terminal hterminal] at h
  | reclaimed h => simp [leaseExpired_of_terminal hterminal] at h
  | approved => exact .inl (approvedStatus_of_terminal hterminal)
  | updated h => exact .inl (hagrees rfl _ h)
  | requeued =>
    -- without attempts left, a requeue writes `failed` again
    obtain ⟨hfailed, hexhausted⟩ := hagrees rfl
    left
    simp [requeueWrite, hexhausted, hfailed]
  | replayed => exact .inr rfl

theorem keepsTerminal_iff : KeepsTerminal py cfg id db op ↔ ReportsAgree py cfg id db op := by
  refine ⟨fun h r hr hterminal => ?_, fun h r hr hterminal => ?_⟩
  · -- only these two operations write a status without looking at the one that is there
    have hkeep := h r hr hterminal
    cases op with
    | update clk id' status message metadata =>
      rintro rfl u hu
      rw [taskStep_update hu, find?_run _ hr] at hkeep
      simpa [RowOp.write, statusWrite, TaskOp.replays] using hkeep
    | requeue clk id' error worker =>
      rintro rfl
      have hstep : taskStep py cfg db (.requeue clk id' error worker) =
          (RowOp.requeue error worker).run cfg clk id' db := rfl
      rw [hstep, find?_run _ hr] at hkeep
      simp only [RowOp.write, requeueWrite, Option.map_some, Option.some.injEq, TaskOp.replays,
        or_false] at hkeep
      split at hkeep
      · exact ⟨hkeep.symm, ‹_›⟩
      · -- attempts are left, so the row goes back to the queue and was not terminal
        simp [← hkeep, TaskStatus.terminal] at hterminal
    | _ => trivial
  · rcases taskStep_change py cfg op hr with ⟨-, hsame⟩ | ⟨-, r', hr', hchange⟩
    · exact .inl (by rw [hsame, Option.map_some])
    · rw [hr']
      simpa using hchange.status_of_terminal hterminal (h r hr hterminal)

/-- **Terminal statuses are final exactly along the runs whose reports agree with them.** -/
theorem terminal_final_iff (py : Python) (cfg : TaskConfig) (id : String) (db : TaskDb)
    (ops : List TaskOp) :
    (∀ pre op post, ops = pre ++ op :: post →
        KeepsTerminal py cfg id (run (taskStep py cfg) db pre) op) ↔
      Along (taskStep py cfg) (ReportsAgree py cfg id) db ops := by
  rw [along_iff]
  simp only [keepsTerminal_iff]

/-! ### A worker that fails late -/

def canceledRun : List TaskOp :=
  let clk : Clock := .noon
  [.create clk "t1"
      { title := "find", project := none, agent := none, priority := 0
        payload := some (Dict.set (Dict.set .empty "action" (.str "search")) "query" (.str "x"))
        runAfter := none, maxAttempts := none },
    .claim clk clk (some "w1"), .update clk "t1" "canceled" none none]

/-- The worker fails after the cancellation: its requeue puts the canceled task back into the
queue. -/
theorem canceled_requeued :
    let db := run (taskStep .ascii .default) .empty canceledRun
    let late : TaskOp := .requeue (.frozen "2025-01-01T12:00:05Z") "t1" "timeout" (some "w1")
    (db.find? "t1").map TaskRow.status = some .canceled ∧
      ((taskStep .ascii .default db late).find? "t1").map TaskRow.status = some .queued ∧
      ¬ KeepsTerminal .ascii .default "t1" db late := by
  refine ⟨rfl, rfl, fun h => ?_⟩
  rcases h _ rfl rfl with hkept | hreplay
  · cases hkept
  · exact hreplay

end ContextLattice
