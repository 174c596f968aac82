import ContextLattice.Task.Queue

/-!
# Interleaved task transactions

Any number of callers, and one transaction after another. Approve, update status, requeue and replay
are **two** events: the early read, and the write transaction at any later point.
-/

namespace ContextLattice

open Foundation

structure PendingCall where
  clk : Clock
  id : String
  op : RowOp
  seen : TaskRow

structure TaskSystem where
  db : TaskDb
  calls : Dict ℕ PendingCall

def TaskSystem.empty : TaskSystem := ⟨.empty, .empty⟩

inductive TaskTransaction where
  | create (clk : Clock) (taskId : String) (req : TaskRequest)
  | recover (clk : Clock) (limit : ℤ)
  | select (clk : Clock) (worker : Option String)
  | read (call : ℕ) (clk : Clock) (id : String) (op : RowOp)
  | commit (call : ℕ)

variable (py : Python) (cfg : TaskConfig)

def transactionStep (s : TaskSystem) : TaskTransaction → TaskSystem
  | .create clk taskId req => { s with db := taskStep py cfg s.db (.create clk taskId req) }
  | .recover clk limit => { s with db := recoverExpiredTaskLeases clk limit s.db }
  | .select clk worker => { s with db := (claimTask py cfg clk worker s.db).1 }
  | .read call clk id op =>
    match s.db.find? id with
    | none => s
    | some seen => { s with calls := s.calls.set call ⟨clk, id, op, seen⟩ }
  | .commit call =>
    match s.calls.get? call with
    | none => s
    | some p =>
      { db := p.op.commit cfg p.clk p.id p.seen s.db, calls := s.calls.erase call }

def TaskTransaction.handsOut (s : TaskSystem) : TaskTransaction → Option String
  | .select clk worker => (claimTask py cfg clk worker s.db).2
  | _ => none

def TaskTransaction.committed (s : TaskSystem) : TaskTransaction → Option PendingCall
  | .commit call => s.calls.get? call
  | _ => none

variable {id : String} {r : TaskRow}

theorem find?_commit_call (p : PendingCall) {db : TaskDb} (hr : db.find? id = some r) :
    (p.op.commit cfg p.clk p.id p.seen db).find? id =
      some (if p.id = id then p.op.write cfg p.clk p.seen r else r) := by
  split
  · rename_i h
    subst h
    rw [find?_commit, hr, Option.map_some]
  · rename_i h
    exact (TaskDb.find?_write_of_ne (fun heq => h heq.symm) ..).trans hr

inductive TaskTransaction.Change (id : String) (s : TaskSystem) :
    TaskTransaction → TaskRow → TaskRow → Prop
  | kept {t : TaskTransaction} {r : TaskRow} (hout : t.handsOut py cfg s ≠ some id)
      (hcommit : ∀ p, t.committed s = some p → p.id ≠ id)
      (hrecover : ∀ clk limit, t = .recover clk limit → id ∉ expiredIds clk.now limit s.db) :
      Change id s t r r
  | recovered {clk : Clock} {limit : ℤ} {r : TaskRow} (hmem : id ∈ expiredIds clk.now limit s.db)
      (hexpired : leaseExpired clk.now r = true) :
      Change id s (.recover clk limit) r (recoverWrite clk r)
  | selected {clk : Clock} {worker : Option String} {r : TaskRow}
      (hout : (claimTask py cfg clk worker s.db).2 = some id)
      (hclaimable : claimable py clk.now (workerName worker) r = true) :
      Change id s (.select clk worker) r (claimWrite cfg clk (workerName worker) r)
  | written {call : ℕ} {p : PendingCall} {r : TaskRow} (hcall : s.calls.get? call = some p)
      (hid : p.id = id) : Change id s (.commit call) r (p.op.write cfg p.clk p.seen r)

theorem transactionStep_change (s : TaskSystem) (t : TaskTransaction)
    (hr : s.db.find? id = some r) :
    ∃ r', (transactionStep py cfg s t).db.find? id = some r' ∧ t.Change py cfg id s r r' := by
  cases t with
  | create clk taskId req =>
    refine ⟨r, ?_, .kept (by simp [TaskTransaction.handsOut]) (by simp [TaskTransaction.committed])
      (by simp)⟩
    rcases taskStep_change py cfg (.create clk taskId req) hr with ⟨-, hfind⟩ | ⟨htouch, -⟩
    · exact hfind
    · exact htouch.elim
  | recover clk limit =>
    have hfind := find?_recoverExpiredTaskLeases clk limit s.db id
    rw [hr, Option.map_some] at hfind
    split at hfind
    · rename_i hmem
      exact ⟨_, hfind, .recovered hmem (leaseExpired_of_mem_expiredIds hmem hr)⟩
    · rename_i hmem
      refine ⟨_, hfind, .kept (by simp [TaskTransaction.handsOut])
        (by simp [TaskTransaction.committed]) ?_⟩
      rintro _ _ ⟨⟩
      exact hmem
  | select clk worker =>
    rcases find?_claimTask py cfg clk worker hr with ⟨hne, hfind⟩ | ⟨hout, hclaimable, hfind⟩
    · exact ⟨_, hfind, .kept hne (by simp [TaskTransaction.committed]) (by simp)⟩
    · exact ⟨_, hfind, .selected hout hclaimable⟩
  | read call clk id' op =>
    refine ⟨r, ?_, .kept (by simp [TaskTransaction.handsOut]) (by simp [TaskTransaction.committed])
      (by simp)⟩
    simp only [transactionStep]
    split <;> exact hr
  | commit call =>
    rcases hcall : s.calls.get? call with _ | p
    · refine ⟨r, by simpa [transactionStep, hcall] using hr, .kept
        (by simp [TaskTransaction.handsOut]) (by simp [TaskTransaction.committed, hcall]) (by simp)⟩
    · have hfind := find?_commit_call cfg p hr
      have hstep : (transactionStep py cfg s (.commit call)).db =
          p.op.commit cfg p.clk p.id p.seen s.db := by
        simp [transactionStep, hcall]
      rw [hstep, hfind]
      split
      · exact ⟨_, rfl, .written hcall ‹_›⟩
      · refine ⟨_, rfl, .kept (by simp [TaskTransaction.handsOut]) ?_ (by simp)⟩
        intro p' hp'
        rw [TaskTransaction.committed, hcall] at hp'
        cases hp'
        assumption

theorem change_of_step {r' : TaskRow} {s : TaskSystem} {t : TaskTransaction}
    (hr : s.db.find? id = some r) (hr' : (transactionStep py cfg s t).db.find? id = some r') :
    t.Change py cfg id s r r' := by
  obtain ⟨r'', hr'', hchange⟩ := transactionStep_change py cfg s t hr
  rw [hr'] at hr''
  exact Option.some.inj hr'' ▸ hchange

theorem transactionStep_created (s : TaskSystem) (t : TaskTransaction)
    (hnew : s.db.find? id = none) (hr : (transactionStep py cfg s t).db.find? id = some r) :
    ∃ clk taskId req db', t = .create clk taskId req ∧
      createTaskRecord py cfg clk taskId req s.db = .ok (db', r) := by
  cases t with
  | create clk taskId req =>
    simp only [transactionStep, taskStep] at hr
    split at hr
    · rename_i db' row hcreate
      refine ⟨clk, taskId, req, db', rfl, ?_⟩
      obtain ⟨-, hfree, htasks⟩ := createTaskRecord_eq_ok hcreate
      by_cases hid : row.id = id
      · have hrow := find?_of_createTaskRecord hcreate
        rw [hid, hr] at hrow
        rw [hcreate, Option.some.inj hrow]
      · rw [TaskDb.find?, htasks, Table.find?_insert_of_ne hid] at hr
        rw [TaskDb.find?, hr] at hnew
        cases hnew
    · rw [hnew] at hr
      cases hr
  | recover clk limit =>
    simp [transactionStep, find?_recoverExpiredTaskLeases, hnew] at hr
  | select clk worker =>
    -- a selection rewrites a row that is there, which is another one
    simp only [transactionStep, claimTask] at hr
    split at hr
    · rw [hnew] at hr
      cases hr
    · rename_i row hnext
      have hrow := (nextClaimable_eq_some hnext).1
      have hne : id ≠ row.id := by
        rintro rfl
        rw [hnew] at hrow
        cases hrow
      rw [TaskDb.find?_write_of_ne hne, hnew] at hr
      cases hr
  | read call clk id' op =>
    simp only [transactionStep] at hr
    split at hr <;> · rw [hnew] at hr; cases hr
  | commit call =>
    rcases hcall : s.calls.get? call with _ | p
    · simp only [transactionStep, hcall] at hr
      rw [hnew] at hr
      cases hr
    · simp only [transactionStep, hcall] at hr
      by_cases hid : id = p.id
      · subst hid
        rw [find?_commit, hnew] at hr
        cases hr
      · rw [RowOp.commit, TaskDb.find?_write_of_ne hid, hnew] at hr
        cases hr

variable {py cfg} in
theorem transactionStep_pending {s : TaskSystem} {t : TaskTransaction} {call : ℕ}
    {p : PendingCall} (hp : Dict.get? (transactionStep py cfg s t).calls call = some p) :
    s.calls.get? call = some p ∨
      (transactionStep py cfg s t).db = s.db ∧ s.db.find? p.id = some p.seen := by
  cases t with
  | create | recover | select => exact .inl hp
  | read call' clk id op =>
    rcases hr : s.db.find? id with _ | seen
    · exact .inl (by simpa [transactionStep, hr] using hp)
    · simp only [transactionStep, hr] at hp
      rcases Dict.get?_set_eq_some.mp hp with ⟨-, rfl⟩ | ⟨-, hp⟩
      · exact .inr ⟨by simp only [transactionStep, hr], hr⟩
      · exact .inl hp
  | commit call' =>
    rcases hcall : s.calls.get? call' with _ | q
    · exact .inl (by simpa [transactionStep, hcall] using hp)
    · simp only [transactionStep, hcall] at hp
      exact .inl (Dict.get?_erase_eq_some.mp hp).2

/-! ### Operations that nobody overtakes -/

def RowOp.transactions (clk : Clock) (id : String) (op : RowOp) : List TaskTransaction :=
  [.read 0 clk id op, .commit 0]

def TaskOp.transactions : TaskOp → List TaskTransaction
  | .create clk taskId req => [.create clk taskId req]
  | .claim clk clkRecover worker => [.recover clkRecover 25, .select clk worker]
  | .select clk worker => [.select clk worker]
  | .recover clk limit => [.recover clk limit]
  | .approve clk id approver note => (RowOp.approve approver note).transactions clk id
  | .update clk id status message metadata =>
    match prepareStatusUpdate py status message metadata with
    | .ok u => (RowOp.update u).transactions clk id
    | .error _ => [] -- refused before the database is opened
  | .requeue clk id error worker => (RowOp.requeue error worker).transactions clk id
  | .replay clk id actor note reset => (RowOp.replay actor note reset).transactions clk id

theorem run_rowOp_transactions (clk : Clock) (id : String) (op : RowOp) (db : TaskDb) :
    run (transactionStep py cfg) ⟨db, .empty⟩ (op.transactions clk id) =
      ⟨op.run cfg clk id db, .empty⟩ := by
  rcases hr : db.find? id with _ | seen
  · simp [RowOp.transactions, transactionStep, RowOp.run, hr]
  · have hdone : Dict.erase (Dict.set .empty 0 (⟨clk, id, op, seen⟩ : PendingCall)) 0 = .empty :=
      rfl
    simp [RowOp.transactions, transactionStep, RowOp.run, hr, hdone]

theorem run_op_transactions (op : TaskOp) (db : TaskDb) :
    run (transactionStep py cfg) ⟨db, .empty⟩ (op.transactions py) =
      ⟨taskStep py cfg db op, .empty⟩ := by
  cases op with
  | create | claim | select | recover => rfl
  | approve | requeue | replay => exact run_rowOp_transactions py cfg ..
  | update clk id status message metadata =>
    rcases hu : prepareStatusUpdate py status message metadata with e | u
    · simp [TaskOp.transactions, taskStep, updateTaskStatus, hu, bind, Except.bind]
    · rw [taskStep_update hu]
      simpa [TaskOp.transactions, hu] using run_rowOp_transactions py cfg clk id (.update u) db

/-- **Runs of whole operations are runs of transactions**: what holds of every interleaving holds of
every sequence of operations. -/
theorem run_transactions (ops : List TaskOp) (db : TaskDb) :
    run (transactionStep py cfg) ⟨db, .empty⟩ (ops.flatMap (TaskOp.transactions py)) =
      ⟨run (taskStep py cfg) db ops, .empty⟩ := by
  induction ops generalizing db with
  | nil => rfl
  | cons op ops ih =>
    rw [List.flatMap_cons, run_append, run_op_transactions, ih, run_cons]

end ContextLattice
