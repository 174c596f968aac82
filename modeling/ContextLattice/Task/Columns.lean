import ContextLattice.Task.Transactions

/-!
# What the columns of a task say together

A claim, a recovery, a requeue and a replay write status, lease, claimant and `completed_at`; a
status update copies the lease or the stamp of the row it has read; an approval writes the status
only.
-/

namespace ContextLattice

open Foundation List

/-! ### Properties of every row -/

variable (py : Python) (cfg : TaskConfig) (P : TaskRow → Prop)

def EveryTask (db : TaskDb) : Prop := ∀ id r, db.find? id = some r → P r

def EverySeen (s : TaskSystem) : Prop := ∀ call p, s.calls.get? call = some p → P p.seen

structure RowInvariant : Prop where
  created {clk : Clock} {taskId : String} {req : TaskRequest} {row : TaskRow} :
    taskRowOf py cfg clk taskId req = .ok row → P row
  recovered {now : Stamp} {r : TaskRow} (clk : Clock) :
    leaseExpired now r = true → P r → P (recoverWrite clk r)
  selected {now : Stamp} {name : String} {r : TaskRow} (clk : Clock) :
    claimable py now name r = true → P r → P (claimWrite cfg clk name r)

/-- What an event commits meets the condition `Ok`, a condition on the operation, on the row its
call has read and on the row it finds. -/
def CommitsMeet (Ok : RowOp → TaskRow → TaskRow → Prop) (s : TaskSystem)
    (t : TaskTransaction) : Prop :=
  ∀ p r, t.committed s = some p → s.db.find? p.id = some r → Ok p.op p.seen r

variable {py cfg P} {Ok : RowOp → TaskRow → TaskRow → Prop} {s : TaskSystem}
  {t : TaskTransaction}

theorem EverySeen.step (hseen : EverySeen P s)
    (hstep : EveryTask P (transactionStep py cfg s t).db) :
    EverySeen P (transactionStep py cfg s t) := by
  intro call p hp
  rcases transactionStep_pending hp with hp | ⟨hdb, hr⟩
  · exact hseen call p hp
  · exact hstep p.id p.seen (hdb ▸ hr)

section

variable (hP : RowInvariant py cfg P)
  (hok : ∀ op clk seen r, P seen → P r → (P (op.write cfg clk seen r) ↔ Ok op seen r))

include hP hok

theorem everyTask_step_iff (hseen : EverySeen P s) (hs : EveryTask P s.db) :
    EveryTask P (transactionStep py cfg s t).db ↔ CommitsMeet Ok s t := by
  constructor
  · intro hstep p r hcommitted hr
    cases t with
    | commit call =>
      have hcall : s.calls.get? call = some p := hcommitted
      have hfind : (transactionStep py cfg s (.commit call)).db.find? p.id =
          some (p.op.write cfg p.clk p.seen r) := by
        simp only [transactionStep, hcall]
        rw [find?_commit_call cfg p hr, if_pos rfl]
      exact (hok p.op p.clk p.seen r (hseen call p hcall) (hs p.id r hr)).mp (hstep p.id _ hfind)
    | create | recover | select | read => cases hcommitted
  · intro hcommits id r' hr'
    rcases hr : s.db.find? id with _ | r
    · obtain ⟨clk, taskId, req, db', -, hcreate⟩ := transactionStep_created py cfg s t hr hr'
      exact hP.created (createTaskRecord_eq_ok hcreate).1
    · have hchange := change_of_step py cfg hr hr'
      have hrow : P r := hs id r hr
      cases hchange with
      | kept => exact hrow
      | recovered _ hexpired => exact hP.recovered _ hexpired hrow
      | selected _ hclaimable => exact hP.selected _ hclaimable hrow
      | written hcall hid =>
        subst hid
        exact (hok _ _ _ r (hseen _ _ hcall) hrow).mpr (hcommits _ r hcall hr)

/-- **Rows, exactly.** Every task meets the property if and only if every write meets the condition
exact for single writes. -/
theorem every_iff_along (ts : List TaskTransaction) :
    (∀ pre post, ts = pre ++ post →
        EveryTask P (run (transactionStep py cfg) .empty pre).db) ↔
      Along (transactionStep py cfg) (CommitsMeet Ok) .empty ts := by
  have hseen : EverySeen P .empty := by
    intro call p hp
    cases hp
  have hempty : EveryTask P TaskSystem.empty.db := by
    intro id r hr
    cases hr
  have hiff : ∀ (s : TaskSystem) (t : TaskTransaction), EverySeen P s → EveryTask P s.db →
      (EveryTask P (transactionStep py cfg s t).db ↔ CommitsMeet Ok s t) :=
    fun s t => everyTask_step_iff hP hok
  have hinv : ∀ (s : TaskSystem) (t : TaskTransaction), EverySeen P s →
      EveryTask P (transactionStep py cfg s t).db → EverySeen P (transactionStep py cfg s t) :=
    fun s t => EverySeen.step
  exact forall_run_iff_along (P := fun s : TaskSystem => EveryTask P s.db) hiff hinv hseen hempty

end

variable {taskId : String} {req : TaskRequest} {row : TaskRow}

theorem taskRowOf_fresh {py : Python} {cfg : TaskConfig} {clk : Clock}
    (h : taskRowOf py cfg clk taskId req = .ok row) :
    row.status = .queued ∧ row.leaseExpiresAt = none ∧ row.claimedBy = none ∧
      row.completedAt = none := by
  rcases hpayload : req.payload with _ | payload
  · simp only [taskRowOf, hpayload, bind, Except.bind] at h
    split at h
    · cases h
    · cases h
      exact ⟨rfl, rfl, rfl, rfl⟩
  · obtain ⟨normalized, due, -, rfl⟩ := taskRowOf_eq_ok hpayload h
    exact ⟨rfl, rfl, rfl, rfl⟩

/-! ### The lease of a running task -/

def LeaseHeld (r : TaskRow) : Prop :=
  r.status = .running ↔ r.leaseExpiresAt.isSome ∧ r.claimedBy.isSome

instance (r : TaskRow) : Decidable (LeaseHeld r) := inferInstanceAs (Decidable (_ ↔ _))

/-- An approval finds the task running exactly if it read it so, and an update to running read it
running. -/
def KeepsLease : RowOp → TaskRow → TaskRow → Prop
  | .approve _ _, seen, row => seen.status = .running ↔ row.status = .running
  | .update u, seen, _ => u.status = .running → seen.status = .running
  | .requeue _ _, _, _ | .replay _ _ _, _, _ => True

theorem approvedStatus_eq_running {s : TaskStatus} :
    approvedStatus s = .running ↔ s = .running := by
  cases s <;> simp [approvedStatus]

theorem leaseHeld_write_iff (cfg : TaskConfig) (op : RowOp) (clk : Clock) (seen r : TaskRow)
    (hseen : LeaseHeld seen) (hr : LeaseHeld r) :
    LeaseHeld (op.write cfg clk seen r) ↔ KeepsLease op seen r := by
  cases op with
  | approve approver note =>
    -- the columns of the lease are those of the row found, the status that of the row read
    have hstatus : LeaseHeld (approveWrite clk seen r) ↔
        (seen.status = .running ↔ r.leaseExpiresAt.isSome ∧ r.claimedBy.isSome) := by
      simp only [LeaseHeld, approveWrite, approvedStatus_eq_running]
    exact hstatus.trans (iff_congr Iff.rfl (Iff.symm hr))
  | update u =>
    by_cases hrunning : u.status = .running
    · have hlease : LeaseHeld (statusWrite clk u seen r) ↔
          seen.leaseExpiresAt.isSome ∧ seen.claimedBy.isSome := by
        simp [LeaseHeld, statusWrite, hrunning, TaskStatus.terminal]
      exact hlease.trans ((Iff.symm hseen).trans ⟨fun h _ => h, fun h => h hrunning⟩)
    · have hdrops : (u.status.terminal || u.status ∈ [.queued, .approved, .blocked]) = true := by
        cases h : u.status <;> simp_all [TaskStatus.terminal]
      have hlease : (statusWrite clk u seen r).leaseExpiresAt = none := if_pos hdrops
      have hstatus : (statusWrite clk u seen r).status = u.status := rfl
      simp [RowOp.write, LeaseHeld, KeepsLease, hrunning, hlease, hstatus]
  | requeue error worker =>
    by_cases h : exhausted cfg seen <;>
      simp [RowOp.write, LeaseHeld, requeueWrite, KeepsLease, h]
  | replay actor note reset => simp [RowOp.write, LeaseHeld, replayWrite, KeepsLease]

theorem leaseHeld_rowInvariant (py : Python) (cfg : TaskConfig) :
    RowInvariant py cfg LeaseHeld where
  created h := by
    obtain ⟨hstatus, hlease, hclaimed, -⟩ := taskRowOf_fresh h
    simp [LeaseHeld, hstatus, hlease]
  recovered clk _ _ := by simp [LeaseHeld, recoverWrite]
  selected clk _ _ := by simp [LeaseHeld, claimWrite]

variable {id : String} {r : TaskRow} {limit : ℤ}

theorem mem_expiredIds {db : TaskDb} {now : Stamp} (hr : db.find? id = some r)
    (hexpired : leaseExpired now r = true) (hlimit : db.tasks.rows.length ≤ limit) :
    id ∈ expiredIds now limit db := by
  obtain ⟨hmem, rfl⟩ := Table.find?_eq_some hr
  have hle : (db.tasks.rows.filter (leaseExpired now)).length ≤ limit.toNat := by
    have := length_filter_le (leaseExpired now) db.tasks.rows
    omega
  refine mem_map_of_mem ?_
  rw [take_of_length_le (by rwa [length_insertionSort]), mem_insertionSort]
  exact mem_filter.mpr ⟨hmem, hexpired⟩

theorem find?_recover_of_no_lease {db : TaskDb} {clk : Clock} (hr : db.find? id = some r)
    (hlease : r.leaseExpiresAt = none) :
    (recoverExpiredTaskLeases clk limit db).find? id = some r := by
  have hnot : id ∉ expiredIds clk.now limit db := by
    intro hmem
    simpa [leaseExpired, hlease] using leaseExpired_of_mem_expiredIds hmem hr
  rw [find?_recoverExpiredTaskLeases, hr, Option.map_some, if_neg hnot]

/-- **Leases, exactly.** A task is running exactly when it has a lease and a claimant, if and only
if no update or approval was committed for a status it did not read. -/
theorem lease_held_iff (py : Python) (cfg : TaskConfig) (ts : List TaskTransaction) :
    ((∀ pre post, ts = pre ++ post →
        EveryTask LeaseHeld (run (transactionStep py cfg) .empty pre).db) ↔
      Along (transactionStep py cfg) (CommitsMeet KeepsLease) .empty ts) ∧
    (Along (transactionStep py cfg) (CommitsMeet KeepsLease) .empty ts →
      let db := (run (transactionStep py cfg) .empty ts).db
      ∀ id r, db.find? id = some r → r.status = .running →
        ∃ lease, r.leaseExpiresAt = some lease ∧ ∀ clk (limit : ℤ), lease ≤ clk.now →
          db.tasks.rows.length ≤ limit →
          (recoverExpiredTaskLeases clk limit db).find? id = some (recoverWrite clk r)) := by
  have hiff := every_iff_along (leaseHeld_rowInvariant py cfg) (leaseHeld_write_iff cfg) ts
  refine ⟨hiff, ?_⟩
  intro halong db id r hr hrunning
  have hheld : LeaseHeld r := hiff.mpr halong ts [] (append_nil ts).symm id r hr
  obtain ⟨lease, hlease⟩ := Option.isSome_iff_exists.mp (hheld.mp hrunning).1
  refine ⟨lease, hlease, fun clk limit hle hlimit => ?_⟩
  have hexpired : leaseExpired clk.now r = true := by
    simpa [leaseExpired, hrunning, hlease] using hle
  rw [find?_recoverExpiredTaskLeases, hr, Option.map_some,
    if_pos (mem_expiredIds hr hexpired hlimit)]

def reportedRun : List TaskOp :=
  let clk : Clock := .noon
  [.create clk "t1"
      { title := "find", project := none, agent := none, priority := 0
        payload := some (Dict.set (Dict.set .empty "action" (.str "search")) "query" (.str "x"))
        runAfter := none, maxAttempts := none },
    .update clk "t1" "running" none none]

/-- The reported task is running without a lease or a claimant, and no lease recovery, at no time
and with no limit, ever takes it. -/
theorem reported_without_lease :
    let s := run (transactionStep .ascii .default) .empty
      (reportedRun.flatMap (TaskOp.transactions .ascii))
    ∃ r, s.db.find? "t1" = some r ∧ r.status = .running ∧ r.leaseExpiresAt = none ∧
      r.claimedBy = none ∧ ¬ LeaseHeld r ∧
      ∀ clk limit, (recoverExpiredTaskLeases clk limit s.db).find? "t1" = some r := by
  intro s
  exact ⟨_, rfl, rfl, rfl, rfl, by decide, fun clk limit => find?_recover_of_no_lease rfl rfl⟩

/-! ### The stamp of a finished task -/

def Stamped (r : TaskRow) : Prop := r.completedAt.isSome ↔ r.status.terminal = true

instance (r : TaskRow) : Decidable (Stamped r) := inferInstanceAs (Decidable (_ ↔ _))

/-- An approval finds the task finished exactly if it read it so, and an update finishes the task or
read it unfinished. -/
def KeepsStamp : RowOp → TaskRow → TaskRow → Prop
  | .approve _ _, seen, row => seen.status.terminal = row.status.terminal
  | .update u, seen, _ => u.status.terminal = false → seen.status.terminal = false
  | .requeue _ _, _, _ | .replay _ _ _, _, _ => True

theorem terminal_approvedStatus (s : TaskStatus) :
    (approvedStatus s).terminal = s.terminal := by
  cases s <;> rfl

theorem stamped_write_iff (cfg : TaskConfig) (op : RowOp) (clk : Clock) (seen r : TaskRow)
    (hseen : Stamped seen) (hr : Stamped r) :
    Stamped (op.write cfg clk seen r) ↔ KeepsStamp op seen r := by
  cases op with
  | approve approver note =>
    have hstamp : Stamped (approveWrite clk seen r) ↔
        (r.completedAt.isSome ↔ seen.status.terminal = true) := by
      simp only [Stamped, approveWrite, terminal_approvedStatus]
    have hterminal : r.completedAt.isSome ↔ r.status.terminal = true := hr
    rw [RowOp.write, hstamp, hterminal, KeepsStamp, ← Bool.eq_iff_iff]
    exact eq_comm
  | update u =>
    cases hterminal : u.status.terminal with
    | true => simp [RowOp.write, Stamped, statusWrite, KeepsStamp, hterminal]
    | false =>
      -- the stamp of the row read is carried over
      have hstamp : Stamped (statusWrite clk u seen r) ↔ ¬ seen.completedAt.isSome := by
        simp [Stamped, statusWrite, hterminal]
      have hfinished : seen.completedAt.isSome ↔ seen.status.terminal = true := hseen
      rw [RowOp.write, hstamp, hfinished]
      simp [KeepsStamp, hterminal]
  | requeue error worker =>
    by_cases h : exhausted cfg seen <;>
      simp [RowOp.write, Stamped, requeueWrite, KeepsStamp, h, TaskStatus.terminal]
  | replay actor note reset =>
    simp [RowOp.write, Stamped, replayWrite, KeepsStamp, TaskStatus.terminal]

theorem stamped_rowInvariant (py : Python) (cfg : TaskConfig) : RowInvariant py cfg Stamped where
  created h := by
    obtain ⟨hstatus, -, -, hstamp⟩ := taskRowOf_fresh h
    simp [Stamped, hstatus, hstamp, TaskStatus.terminal]
  recovered clk hexpired hr := by
    simp only [leaseExpired, Bool.and_eq_true, decide_eq_true_eq] at hexpired
    simp_all [Stamped, recoverWrite, TaskStatus.terminal]
  selected clk hclaimable hr := by
    simp only [claimable, Bool.and_eq_true, Bool.or_eq_true, decide_eq_true_eq] at hclaimable
    rcases hclaimable.1.1.1.1 with hstatus | hstatus <;>
      simp_all [Stamped, claimWrite, TaskStatus.terminal]

/-- **Completion stamps, exactly.** A task has a stamp exactly when its status is terminal, if and
only if every commit found what it read. -/
theorem completed_iff (py : Python) (cfg : TaskConfig) (ts : List TaskTransaction) :
    (∀ pre post, ts = pre ++ post →
        EveryTask Stamped (run (transactionStep py cfg) .empty pre).db) ↔
      Along (transactionStep py cfg) (CommitsMeet KeepsStamp) .empty ts :=
  every_iff_along (stamped_rowInvariant py cfg) (stamped_write_iff cfg) ts

/-- A task is reported as failed, and then as queued again: it waits in the queue with the stamp of
its failure. -/
theorem requeued_with_stamp :
    let clk : Clock := .frozen "2025-01-01T12:00:05Z"
    let ops := reportedRun ++
      [.update clk "t1" "failed" none none, .update clk "t1" "queued" none none]
    let s := run (transactionStep .ascii .default) .empty
      (ops.flatMap (TaskOp.transactions .ascii))
    ∃ r, s.db.find? "t1" = some r ∧ r.status = .queued ∧
      r.completedAt = some "2025-01-01T12:00:05Z" ∧ ¬ Stamped r :=
  ⟨_, rfl, rfl, rfl, by decide⟩

/-! ### The events of a task -/

def TaskDb.newestEvent (db : TaskDb) (id : String) : Option TaskEvent :=
  (db.events.filter (·.taskId = id)).getLast?

def EventsMatch (db : TaskDb) : Prop :=
  ∀ id r, db.find? id = some r → (db.newestEvent id).map TaskEvent.status = some r.status

def ApprovesWaiting (db : TaskDb) : TaskOp → Prop
  | .approve _ id _ _ => ∀ r, db.find? id = some r → r.status ∈ [.queued, .blocked, .approved]
  | _ => True

variable {e : TaskEvent}

theorem newestEvent_append {db db' : TaskDb} (h : db'.events = db.events ++ [e]) (id : String) :
    db'.newestEvent id = if e.taskId = id then some e else db.newestEvent id := by
  rw [TaskDb.newestEvent, h, filter_append]
  by_cases hid : e.taskId = id
  · simp [hid]
  · simp [hid, TaskDb.newestEvent]

variable {clk : Clock} {db : TaskDb}

section

variable (hdb : EventsMatch db)

include hdb

theorem eventsMatch_write_iff (id : String) (f : TaskRow → TaskRow) (hf) (he : e.taskId = id) :
    EventsMatch (db.write id f hf e) ↔
      ∀ r, db.find? id = some r → (f r).status = e.status := by
  have hnewest := newestEvent_append (show (db.write id f hf e).events = db.events ++ [e] from rfl)
  constructor
  · intro h r hr
    have hmatch := h id (f r) (by rw [TaskDb.find?_write, hr, Option.map_some])
    rw [hnewest, if_pos he] at hmatch
    exact (Option.some.inj hmatch).symm
  · intro h id' r' hr'
    rw [hnewest]
    by_cases hid : id' = id
    · subst hid
      rw [TaskDb.find?_write] at hr'
      obtain ⟨r, hr, rfl⟩ := Option.map_eq_some_iff.mp hr'
      rw [if_pos he, Option.map_some, h r hr]
    · rw [TaskDb.find?_write_of_ne hid] at hr'
      rw [if_neg (fun heq => hid (heq.symm.trans he))]
      exact hdb id' r' hr'

theorem EventsMatch.recover (clk : Clock) (limit : ℤ) :
    EventsMatch (recoverExpiredTaskLeases clk limit db) := by
  rw [recoverExpiredTaskLeases]
  generalize expiredIds clk.now limit db = ids
  induction ids generalizing db with
  | nil => exact hdb
  | cons id ids ih =>
    have hone : EventsMatch (recoverOne clk db id) :=
      (eventsMatch_write_iff hdb id _ _ rfl).mpr fun _ _ => rfl
    exact ih hone

theorem EventsMatch.claimTask (worker : Option String) :
    EventsMatch (claimTask py cfg clk worker db).1 := by
  rcases hnext : nextClaimable py clk.now (workerName worker) db with _ | row
  · simpa [ContextLattice.claimTask, hnext] using hdb
  · simp only [ContextLattice.claimTask, hnext]
    refine (eventsMatch_write_iff hdb row.id _ _ rfl).mpr ?_
    intro r _
    rfl

theorem EventsMatch.create {db' : TaskDb}
    (h : createTaskRecord py cfg clk taskId req db = .ok (db', row)) : EventsMatch db' := by
  obtain ⟨hrow, hnew, htasks⟩ := createTaskRecord_eq_ok h
  obtain ⟨e, hid, hstatus, hevents⟩ :
      ∃ e : TaskEvent, e.taskId = row.id ∧ e.status = .queued ∧ db'.events = db.events ++ [e] := by
    simp only [createTaskRecord, hrow, bind, Except.bind, dif_pos hnew] at h
    cases h
    exact ⟨_, rfl, rfl, rfl⟩
  intro id r hr
  rw [newestEvent_append hevents]
  rw [TaskDb.find?, htasks] at hr
  by_cases heq : row.id = id
  · subst heq
    rw [Table.find?_insert] at hr
    obtain rfl := Option.some.inj hr
    rw [if_pos hid, Option.map_some, hstatus, (taskRowOf_fresh hrow).1]
  · rw [Table.find?_insert_of_ne heq] at hr
    rw [if_neg (fun h' => heq (hid.symm.trans h'))]
    exact hdb id r hr

theorem eventsMatch_run_iff (clk : Clock) (id : String) (op : RowOp) :
    EventsMatch (op.run cfg clk id db) ↔ ∀ r, db.find? id = some r →
      (op.write cfg clk r r).status = (op.event cfg clk r).status := by
  rcases hr : db.find? id with _ | seen
  · simp [RowOp.run, hr, hdb]
  · have hid : (op.event cfg clk seen).taskId = id := by
      have hseen : seen.id = id := (Table.find?_eq_some hr).2
      cases op <;> exact hseen
    simp only [RowOp.run, hr, RowOp.commit]
    rw [eventsMatch_write_iff hdb _ _ _ hid, hr]
    simp

theorem eventsMatch_step_iff (op : TaskOp) :
    EventsMatch (taskStep py cfg db op) ↔ ApprovesWaiting db op := by
  cases op with
  | create clk taskId req =>
    refine iff_of_true ?_ trivial
    rw [taskStep]
    split
    · exact hdb.create ‹_›
    · exact hdb
  | claim clk clkRecover worker =>
    exact iff_of_true ((hdb.recover clkRecover 25).claimTask worker) trivial
  | select clk worker => exact iff_of_true (hdb.claimTask worker) trivial
  | recover clk limit => exact iff_of_true (hdb.recover clk limit) trivial
  | approve clk id approver note =>
    refine (eventsMatch_run_iff hdb clk id (.approve approver note)).trans ?_
    refine forall_congr' fun r => imp_congr_right fun _ => ?_
    -- the event says `approved` whatever status the approval leaves
    have hstatus : approvedStatus r.status = .approved ↔
        r.status ∈ [TaskStatus.queued, .blocked, .approved] := by
      cases r.status <;> simp [approvedStatus]
    exact hstatus
  | update clk id status message metadata =>
    refine iff_of_true ?_ trivial
    rcases hu : prepareStatusUpdate py status message metadata with e | u
    · simpa [taskStep, updateTaskStatus, hu, bind, Except.bind] using hdb
    · rw [taskStep_update hu]
      exact (eventsMatch_run_iff hdb clk id (.update u)).mpr fun _ _ => rfl
  | requeue clk id error worker =>
    exact iff_of_true ((eventsMatch_run_iff hdb clk id (.requeue error worker)).mpr
      fun _ _ => rfl) trivial
  | replay clk id actor note reset =>
    exact iff_of_true ((eventsMatch_run_iff hdb clk id (.replay actor note reset)).mpr
      fun _ _ => rfl) trivial

end

/-- **Events, exactly.** The newest event of each task records its status if and only if every
approval finds its task queued, blocked or approved already. -/
theorem events_match_iff (py : Python) (cfg : TaskConfig) (ops : List TaskOp) :
    (∀ pre post, ops = pre ++ post → EventsMatch (run (taskStep py cfg) .empty pre)) ↔
      Along (taskStep py cfg) ApprovesWaiting .empty ops := by
  have hempty : EventsMatch .empty := by
    intro id r hr
    cases hr
  have hiff : ∀ (db : TaskDb) (op : TaskOp), EventsMatch db →
      (EventsMatch (taskStep py cfg db op) ↔ ApprovesWaiting db op) :=
    fun db op hdb => eventsMatch_step_iff hdb op
  exact forall_run_iff_along_of_step hiff hempty

/-- A running task is approved: it stays running, and its newest event says `approved`. -/
theorem running_logged_approved :
    let clk : Clock := .frozen "2025-01-01T12:00:05Z"
    let db := run (taskStep .ascii .default) .empty
      (reportedRun ++ [.approve clk "t1" none none])
    (db.find? "t1").map TaskRow.status = some .running ∧
      (db.newestEvent "t1").map TaskEvent.status = some .approved ∧ ¬ EventsMatch db := by
  intro clk db
  have hevent : (db.newestEvent "t1").map TaskEvent.status = some .approved := by decide +kernel
  refine ⟨rfl, hevent, fun h => ?_⟩
  have hmatch := h "t1" _ rfl
  cases hmatch

end ContextLattice
