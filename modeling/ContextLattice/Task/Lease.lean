import ContextLattice.Task.Transactions

/-!
# Leases

Until the lease of a task runs out, no claim, no recovery and no call about another task touches it.
A report is applied **whoever sends it**.
-/

namespace ContextLattice

open Foundation

structure Leased (worker : String) (lease : Stamp) (result : Option Json) (r : TaskRow) : Prop where
  status : r.status = .running
  claimedBy : r.claimedBy = some worker
  leaseExpiresAt : r.leaseExpiresAt = some lease
  result : r.result = result

def RowOp.isReport : RowOp → Bool
  | .update u => u.status = .succeeded || u.status = .failed
  | .requeue _ _ => true
  | .approve _ _ | .replay _ _ _ => false

def PendingCall.leavesLease (id : String) (p : PendingCall) : Prop :=
  p.id = id → match p.op with
    | .approve _ _ => p.seen.status = .running
    | .update _ | .requeue _ _ | .replay _ _ _ => False

def LeavesLease (id : String) (lease : Stamp) (s : TaskSystem) (t : TaskTransaction) : Prop :=
  (∀ clk limit, t = .recover clk limit → ¬ lease ≤ clk.now) ∧
    ∀ p, t.committed s = some p → p.leavesLease id

variable {py : Python} {cfg : TaskConfig} {id worker : String} {lease : Stamp}
  {result : Option Json} {s : TaskSystem} {r : TaskRow}

theorem Leased.step {t : TaskTransaction} (hr : s.db.find? id = some r)
    (h : Leased worker lease result r) (ht : LeavesLease id lease s t) :
    ∃ r', (transactionStep py cfg s t).db.find? id = some r' ∧ Leased worker lease result r' := by
  obtain ⟨r', hr', hchange⟩ := transactionStep_change py cfg s t hr
  refine ⟨r', hr', ?_⟩
  cases hchange with
  | kept => exact h
  | recovered hmem hexpired =>
    -- the lease would have to be over
    rename_i clk limit
    simp only [leaseExpired, h.leaseExpiresAt, Option.any_some, Bool.and_eq_true,
      decide_eq_true_eq] at hexpired
    exact absurd hexpired.2 (ht.1 clk limit rfl)
  | selected hout hclaimable => simp [claimable, h.status] at hclaimable
  | written hcall hid =>
    rename_i call p
    have hleaves := ht.2 p hcall hid
    rcases p with ⟨clk, id', op, seen⟩
    cases op with
    | approve approver note =>
      have hseen : seen.status = .running := hleaves
      exact ⟨by simp [RowOp.write, approveWrite, hseen, approvedStatus], h.claimedBy,
        h.leaseExpiresAt, h.result⟩
    | update | requeue | replay => exact hleaves.elim

theorem Leased.run {ts : List TaskTransaction} (hr : s.db.find? id = some r)
    (h : Leased worker lease result r)
    (hts : Along (transactionStep py cfg) (LeavesLease id lease) s ts) :
    ∃ r', (Foundation.run (transactionStep py cfg) s ts).db.find? id = some r' ∧
      Leased worker lease result r' := by
  let Inv (s : TaskSystem) : Prop := ∃ r, s.db.find? id = some r ∧ Leased worker lease result r
  have hstep : ∀ s t, Inv s → LeavesLease id lease s t → Inv (transactionStep py cfg s t) := by
    rintro s t ⟨r, hr, h⟩ ht
    exact h.step hr ht
  exact hts.invariant hstep ⟨r, hr, h⟩

theorem write_of_isReport (p : PendingCall) (hreport : p.op.isReport = true) (r : TaskRow) :
    (p.op.write cfg p.clk p.seen r).status ≠ .running ∧
      (p.op.write cfg p.clk p.seen r).leaseExpiresAt = none ∧
      (p.op.write cfg p.clk p.seen r).claimedBy = none := by
  rcases p with ⟨clk, id', op, seen⟩
  cases op with
  | update u =>
    rcases u with ⟨status, message, metadata, override, res⟩
    cases status <;> simp_all [RowOp.isReport, RowOp.write, statusWrite, TaskStatus.terminal]
  | requeue error worker =>
    refine ⟨?_, rfl, rfl⟩
    simp only [RowOp.write, requeueWrite]
    split <;> simp
  | approve | replay => cases hreport

/-- **A lease holds until it runs out or a report comes in**, whoever sends the report. -/
theorem leased_until_report {ts : List TaskTransaction} (hr : s.db.find? id = some r)
    (hleased : Leased worker lease result r)
    (hts : Along (transactionStep py cfg) (LeavesLease id lease) s ts) :
    let s' := run (transactionStep py cfg) s ts
    (∃ r', s'.db.find? id = some r' ∧ Leased worker lease result r') ∧
      ∀ call p, Dict.get? s'.calls call = some p → p.id = id → p.op.isReport = true →
        ∃ r', (transactionStep py cfg s' (.commit call)).db.find? id = some r' ∧
          r'.status ≠ .running ∧ r'.leaseExpiresAt = none ∧ r'.claimedBy = none := by
  intro s'
  obtain ⟨r', hr', hleased'⟩ := hleased.run hr hts
  refine ⟨⟨r', hr', hleased'⟩, ?_⟩
  intro call p hcall hid hreport
  have hstep : (transactionStep py cfg s' (.commit call)).db =
      p.op.commit cfg p.clk p.id p.seen s'.db := by
    simp [transactionStep, hcall]
  refine ⟨p.op.write cfg p.clk p.seen r', ?_, write_of_isReport p hreport r'⟩
  rw [hstep, find?_commit_call cfg p hr', if_pos hid]

/-! ### A worker that reports late -/

/-- A clock by which the lease taken now runs until the given time. -/
def Clock.leasing (now lease : Stamp) : Clock := ⟨now, fun _ => lease, fun _ => now⟩

def reclaimedRun : List TaskTransaction :=
  [.create .noon "t1"
      { title := "find", project := none, agent := none, priority := 0
        payload := some (Dict.set (Dict.set .empty "action" (.str "search")) "query" (.str "x"))
        runAfter := none, maxAttempts := none },
    .select (.leasing "2025-01-01T12:00:00Z" "2025-01-01T12:02:00Z") (some "w1"),
    .recover (.frozen "2025-01-01T12:02:01Z") 25,
    .select (.leasing "2025-01-01T12:02:02Z" "2025-01-01T12:04:02Z") (some "w2")]

def lateReport : StatusUpdate where
  status := .succeeded
  message := some "Task executed successfully"
  metadata := none
  runAfterOverride := none
  result := some (.str "answer of w1")

theorem leased_until_report_reclaimed :
    let s := run (transactionStep .ascii .default) .empty reclaimedRun
    ∃ r', (run (transactionStep .ascii .default) s
        [.recover (.frozen "2025-01-01T12:02:03Z") 25,
          .read 1 (.frozen "2025-01-01T12:02:03Z") "t1" (.update lateReport)]).db.find? "t1" =
        some r' ∧ Leased "w2" "2025-01-01T12:04:02Z" none r' := by
  intro s
  obtain ⟨r, hr, hleased⟩ : ∃ r, s.db.find? "t1" = some r ∧
      Leased "w2" "2025-01-01T12:04:02Z" none r := ⟨_, rfl, rfl, rfl, rfl, rfl⟩
  refine (leased_until_report hr hleased ?_).1
  refine ⟨⟨?_, ?_⟩, ⟨?_, ?_⟩, trivial⟩
  · rintro _ _ ⟨⟩
    decide
  · simp [TaskTransaction.committed]
  · simp
  · simp [TaskTransaction.committed]

/-- The first worker reports while the second one holds the task: its result counts, and the lease
is gone. -/
theorem late_report_applied :
    let s := run (transactionStep .ascii .default) .empty reclaimedRun
    let s' := run (transactionStep .ascii .default) s
      [.read 1 (.frozen "2025-01-01T12:02:03Z") "t1" (.update lateReport), .commit 1]
    ((s.db.find? "t1").map fun r => (r.status, r.claimedBy, r.leaseExpiresAt)) =
        some (.running, some "w2", some "2025-01-01T12:04:02Z") ∧
      ((s'.db.find? "t1").map fun r => (r.status, r.claimedBy, r.leaseExpiresAt, r.result)) =
        some (.succeeded, none, none, some (.str "answer of w1")) :=
  ⟨rfl, rfl⟩

end ContextLattice
