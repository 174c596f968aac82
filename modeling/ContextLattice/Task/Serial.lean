import ContextLattice.Task.Queue

/-!
# Overlapping task operations

`overlapped` is the run in which `first` commits between the early read and the write of `late`. The
late write **carries** values over from its early read, or **absorbs** `first`.
-/

namespace ContextLattice

open Foundation

variable (py : Python) (cfg : TaskConfig) (clk : Clock) (id : String)

def overlapped (late : RowOp) (first : TaskOp) (db : TaskDb) : TaskDb :=
  match db.find? id with
  | none => taskStep py cfg db first
  | some seen => late.commit cfg clk id seen (taskStep py cfg db first)

def Serialisable (late : RowOp) (first : TaskOp) (db : TaskDb) : Prop :=
  (overlapped py cfg clk id late first db).find? id =
      (late.run cfg clk id (taskStep py cfg db first)).find? id ∨
    (overlapped py cfg clk id late first db).find? id =
      (taskStep py cfg (late.run cfg clk id db) first).find? id

def Carries : RowOp → TaskRow → TaskRow → Prop
  | .approve _ _, r, r' => approvedStatus r.status = approvedStatus r'.status
  | .update u, r, r' =>
    (u.runAfterOverride = none → u.status ∉ [.queued, .approved] → r.runAfter = r'.runAfter) ∧
      (u.status = .running → r.leaseExpiresAt = r'.leaseExpiresAt) ∧
      (u.status = .running → r.claimedBy = r'.claimedBy) ∧
      (u.status ≠ .failed → r.lastError = r'.lastError) ∧
      (u.status = .failed →
        failureText u.message r.lastError = failureText u.message r'.lastError) ∧
      (u.result = none → r.result = r'.result) ∧
      (u.status.terminal = false → r.completedAt = r'.completedAt)
  | .requeue _ _, r, r' =>
    (exhausted cfg r ↔ exhausted cfg r') ∧ (exhausted cfg r → r.runAfter = r'.runAfter) ∧
      (¬ exhausted cfg r → clk.after (taskRetryDelaySecs cfg r.attempts) =
        clk.after (taskRetryDelaySecs cfg r'.attempts))
  | .replay _ _ reset, r, r' => reset = false → r.attempts = r'.attempts

/-- What a replay overwrites, and an update or a requeue of a row that was not claimed; an approval
nothing. -/
def Absorbs : RowOp → TaskRow → TaskRow → Prop
  | .approve _ _, _, _ => False
  | .update _, r, r' => r'.attempts = r.attempts
  | .requeue _ _, r, r' => r'.attempts = r.attempts
  | .replay _ _ _, _, _ => True

/-! ### The first serial order -/

variable {cfg : TaskConfig} {clk : Clock}

theorem Carries.refl (late : RowOp) (r : TaskRow) : Carries cfg clk late r r := by
  cases late <;> simp [Carries]

theorem write_eq_write_iff (late : RowOp) (r r' : TaskRow) :
    late.write cfg clk r r' = late.write cfg clk r' r' ↔ Carries cfg clk late r r' := by
  cases late with
  | approve approver note => simp [RowOp.write, approveWrite, Carries]
  | update u =>
    rcases u with ⟨status, message, metadata, override, result⟩
    simp only [RowOp.write, statusWrite, TaskRow.mk.injEq, Carries, true_and]
    cases status <;> cases override <;> cases result <;> simp [TaskStatus.terminal]
  | requeue error worker =>
    simp only [RowOp.write, requeueWrite, TaskRow.mk.injEq, Carries, true_and]
    by_cases h : exhausted cfg r <;> by_cases h' : exhausted cfg r' <;> simp [h, h']
  | replay actor note reset => cases reset <;> simp [RowOp.write, replayWrite, Carries]

/-! ### The second serial order -/

variable {py : Python} {clkFirst : Clock} {id : String} {r r' q' : TaskRow} {first : TaskOp}
  {late : RowOp}

theorem TaskChange.of_skips (h : TaskChange py cfg id first r r') {db : TaskDb}
    (hskips : ¬ Touches py cfg id db first) :
    (∃ clk, leaseExpired clk.now r = true ∧ r' = recoverWrite clk r) ∨
      ∃ clk name row, (row = r ∨ ∃ clkRecover, row = recoverWrite clkRecover r) ∧
        r' = claimWrite cfg clk name row := by
  cases h with
  | recovered h => exact .inl ⟨_, h, rfl⟩
  | claimRecovered h => exact .inl ⟨_, h, rfl⟩
  | selected | claimed => exact .inr ⟨_, _, _, .inl rfl, rfl⟩
  | reclaimed => exact .inr ⟨_, _, _, .inr ⟨_, rfl⟩, rfl⟩
  | updated h => exact absurd ⟨rfl, _, h⟩ hskips
  | _ => exact absurd rfl hskips

theorem TaskChange.absorbs_iff (clk : Clock) (h : TaskChange py cfg id first r r') {db : TaskDb}
    (hskips : ¬ Touches py cfg id db first) :
    Absorbs late r r' ↔ late.write cfg clk r r' = late.write cfg clk r r := by
  rcases h.of_skips hskips with ⟨clkFirst, hexpired, rfl⟩ | ⟨clkFirst, name, row, hrow, rfl⟩
  · -- recovery clears the lease, which every late write but an approval clears too
    cases late with
    | approve approver note =>
      refine iff_of_false not_false fun hlost => ?_
      have hlease : none = r.leaseExpiresAt := congrArg TaskRow.leaseExpiresAt hlost
      simp [leaseExpired, ← hlease] at hexpired
    | _ => exact iff_of_true (by first | rfl | trivial) rfl
  · -- a claim counts the attempt, and only a replay writes the counter
    have hatt : (claimWrite cfg clkFirst name row).attempts ≠ r.attempts := by
      rcases hrow with rfl | ⟨clkRecover, rfl⟩ <;> simp [claimWrite, recoverWrite]
    cases late with
    | approve approver note =>
      exact iff_of_false not_false fun hlost => hatt (congrArg TaskRow.attempts hlost :)
    | update u => exact iff_of_false hatt fun hlost => hatt (congrArg TaskRow.attempts hlost :)
    | requeue error worker =>
      exact iff_of_false hatt fun hlost => hatt (congrArg TaskRow.attempts hlost :)
    | replay actor note reset =>
      refine iff_of_true trivial ?_
      rcases hrow with rfl | ⟨clkRecover, rfl⟩ <;> rfl

/-! ### There is no third way -/

theorem truncate_truncate (n : ℕ) (s : String) : truncate n (truncate n s) = truncate n s := by
  simp [truncate, List.take_take]

theorem failureText_failureText (m e : Option String) :
    failureText m (some (failureText m e)) = failureText m e := by
  cases hm : m.filter (· ≠ "") with
  | none => simp only [failureText, hm, Option.getD_none, Option.getD_some, truncate_truncate]
  | some a => simp only [failureText, hm, Option.getD_some]

theorem failureText_comm {m m' : Option String} {e : Option String}
    (h : failureText m' (some (failureText m e)) = failureText m e) :
    failureText m (some (failureText m' e)) = failureText m e := by
  simp only [failureText, Option.getD_some] at h ⊢
  cases hm : m.filter (· ≠ "") with
  | none =>
    cases hm' : m'.filter (· ≠ "") with
    | none => simp [truncate_truncate]
    | some a' =>
      rw [hm, hm'] at h
      simpa [truncate_truncate] using h
  | some a => rfl

def LeavesSerial (cfg : TaskConfig) (clk clkFirst : Clock) (first late : RowOp) (r : TaskRow) :
    Prop :=
  first.write cfg clkFirst (late.write cfg clk r r) (late.write cfg clk r r) =
    late.write cfg clk r (first.write cfg clkFirst r r)

theorem approvedStatus_approvedStatus (s : TaskStatus) :
    approvedStatus (approvedStatus s) = approvedStatus s := by
  cases s <;> rfl

theorem approvedStatus_ne_queued (s : TaskStatus) : approvedStatus s ≠ .queued := by
  cases s <;> decide

theorem exhausted_congr {row row' : TaskRow} (hmax : row.maxAttempts = row'.maxAttempts)
    (hatt : row.attempts = row'.attempts) : exhausted cfg row ↔ exhausted cfg row' := by
  simp [exhausted, attemptLimit, hmax, hatt]

private theorem carries_approve {approver note : Option String} (first : RowOp)
    (h : LeavesSerial cfg clk clkFirst first (.approve approver note) r) :
    Carries cfg clk (.approve approver note) r (first.write cfg clkFirst r r) := by
  have hstatus := congrArg TaskRow.status h
  cases first with
  | approve _ _ => exact (approvedStatus_approvedStatus _).symm
  | update u =>
    have hsame : u.status = approvedStatus r.status := hstatus
    simp [Carries, RowOp.write, statusWrite, hsame, approvedStatus_approvedStatus]
  | requeue error worker =>
    -- an approval never leaves a queued task, so the requeue failed the task for good
    have hq : exhausted cfg (approveWrite clk r r) ↔ exhausted cfg r := exhausted_congr rfl rfl
    have hsame : (if exhausted cfg (approveWrite clk r r) then TaskStatus.failed else .queued) =
        approvedStatus r.status := hstatus
    by_cases hex : exhausted cfg r
    · rw [if_pos (hq.mpr hex)] at hsame
      simp only [Carries, RowOp.write, requeueWrite, if_pos hex, ← hsame]
      rfl
    · rw [if_neg (fun h => hex (hq.mp h))] at hsame
      exact absurd hsame.symm (approvedStatus_ne_queued _)
  | replay _ _ _ => exact absurd hstatus.symm (approvedStatus_ne_queued _)

private theorem carries_requeue {error : String} {worker : Option String} (first : RowOp)
    (h : LeavesSerial cfg clk clkFirst first (.requeue error worker) r) :
    Carries cfg clk (.requeue error worker) r (first.write cfg clkFirst r r) := by
  have hdue := congrArg TaskRow.runAfter h
  cases first with
  | replay _ _ _ =>
    -- the serial run ends without an error text, the overlap with one
    have herror := congrArg TaskRow.lastError h
    cases herror
  | approve _ _ =>
    refine ⟨exhausted_congr rfl rfl, fun hex => ?_, fun _ => rfl⟩
    simpa [RowOp.write, approveWrite, requeueWrite, hex] using hdue.symm
  | update u =>
    refine ⟨exhausted_congr rfl rfl, fun hex => ?_, fun _ => rfl⟩
    simpa [RowOp.write, statusWrite, requeueWrite, hex] using hdue.symm
  | requeue _ _ =>
    refine ⟨exhausted_congr rfl rfl, fun hex => ?_, fun _ => rfl⟩
    simp [RowOp.write, requeueWrite, hex]

private theorem carries_replay {actor note : Option String} {reset : Bool} (first : RowOp)
    (h : LeavesSerial cfg clk clkFirst first (.replay actor note reset) r) :
    Carries cfg clk (.replay actor note reset) r (first.write cfg clkFirst r r) := by
  rintro rfl
  cases first with
  | replay _ _ _ => exact (congrArg TaskRow.attempts h).symm
  | _ => rfl

private theorem carries_update {u : StatusUpdate} (first : RowOp)
    (h : LeavesSerial cfg clk clkFirst first (.update u) r) :
    Carries cfg clk (.update u) r (first.write cfg clkFirst r r) := by
  have hstatus := congrArg TaskRow.status h
  have hdue := congrArg TaskRow.runAfter h
  have herror := congrArg TaskRow.lastError h
  have hresult := congrArg TaskRow.result h
  have hdone := congrArg TaskRow.completedAt h
  cases first with
  | approve _ _ =>
    refine ⟨fun hover hnot => ?_, fun _ => rfl, fun _ => rfl, fun _ => rfl, fun _ => rfl,
      fun _ => rfl, fun _ => rfl⟩
    simpa [RowOp.write, approveWrite, statusWrite, hover, hnot] using hdue.symm
  | update v =>
    have hsame : v.status = u.status := hstatus
    refine ⟨fun hover hnot => ?_, fun hrun => ?_, fun hrun => ?_, fun hne => ?_, fun heq => ?_,
      fun hnone => ?_, fun hterm => ?_⟩
    · simpa [RowOp.write, statusWrite, hover, hsame, hnot] using hdue.symm
    · simp [RowOp.write, statusWrite, hsame, hrun, TaskStatus.terminal]
    · simp [RowOp.write, statusWrite, hsame, hrun, TaskStatus.terminal]
    · simp [RowOp.write, statusWrite, hsame, hne]
    · have htext : failureText v.message (some (failureText u.message r.lastError)) =
          failureText u.message r.lastError := by
        simpa [RowOp.write, statusWrite, hsame, heq] using herror
      simpa [RowOp.write, statusWrite, hsame, heq] using (failureText_comm htext).symm
    · simpa [RowOp.write, statusWrite, hnone] using hresult.symm
    · simp [RowOp.write, statusWrite, hsame, hterm]
  | requeue error worker =>
    have hq : exhausted cfg (statusWrite clk u r r) ↔ exhausted cfg r := exhausted_congr rfl rfl
    have hsame : (if exhausted cfg (statusWrite clk u r r) then TaskStatus.failed else .queued) =
        u.status := hstatus
    by_cases hex : exhausted cfg r
    · -- both operations fail the task, with the same text
      rw [if_pos (hq.mpr hex)] at hsame
      refine ⟨fun _ _ => ?_, fun hrun => ?_, fun hrun => ?_, fun hne => ?_, fun heq => ?_,
        fun _ => rfl, fun hterm => ?_⟩
      · simp [RowOp.write, requeueWrite, hex]
      · simp [← hsame] at hrun
      · simp [← hsame] at hrun
      · exact absurd hsame.symm hne
      · have htext : errorText error = failureText u.message r.lastError := by
          simpa [RowOp.write, requeueWrite, statusWrite, heq] using herror
        simp only [RowOp.write, requeueWrite, htext, failureText_failureText]
      · simp [← hsame, TaskStatus.terminal] at hterm
    · -- both operations queue the task
      rw [if_neg (fun h => hex (hq.mp h))] at hsame
      refine ⟨fun _ hnot => ?_, fun hrun => ?_, fun hrun => ?_, fun hne => ?_, fun heq => ?_,
        fun _ => rfl, fun hterm => ?_⟩
      · simp [← hsame] at hnot
      · simp [← hsame] at hrun
      · simp [← hsame] at hrun
      · simpa [RowOp.write, requeueWrite, statusWrite, hne] using herror.symm
      · simp [← hsame] at heq
      · have hkept : (if exhausted cfg (statusWrite clk u r r) then some clkFirst.now else none) =
            if u.status.terminal then some clk.now else r.completedAt := hdone
        rw [if_neg (fun h => hex (hq.mp h)), hterm] at hkept
        simpa [RowOp.write, requeueWrite, hex] using hkept.symm
  | replay actor note reset =>
    have hsame : TaskStatus.queued = u.status := hstatus
    refine ⟨fun _ hnot => ?_, fun hrun => ?_, fun hrun => ?_, fun hne => ?_, fun heq => ?_,
      fun _ => rfl, fun hterm => ?_⟩
    · simp [← hsame] at hnot
    · simp [← hsame] at hrun
    · simp [← hsame] at hrun
    · simpa [RowOp.write, replayWrite, statusWrite, hne] using herror.symm
    · simp [← hsame] at heq
    · simpa [RowOp.write, replayWrite, statusWrite, hterm] using hdone.symm

theorem carries_of_leavesSerial (first : RowOp) (h : LeavesSerial cfg clk clkFirst first late r) :
    Carries cfg clk late r (first.write cfg clkFirst r r) := by
  cases late with
  | approve _ _ => exact carries_approve first h
  | update _ => exact carries_update first h
  | requeue _ _ => exact carries_requeue first h
  | replay _ _ _ => exact carries_replay first h

/-! ### Serialisability -/

variable {db : TaskDb}

private theorem carries_of_reclaimed {clkFirst clkRecover : Clock} {worker : Option String}
    (hr : TaskChange py cfg id (.claim clkFirst clkRecover worker) r r')
    (h : claimWrite cfg clkFirst (workerName worker)
        (recoverWrite clkRecover (late.write cfg clk r r)) = late.write cfg clk r r') :
    Carries cfg clk late r r' := by
  have hstatus := congrArg TaskRow.status h
  have hatt := congrArg TaskRow.attempts h
  cases late with
  | requeue error worker =>
    simp only [RowOp.write, claimWrite, requeueWrite] at hstatus
    split at hstatus <;> cases hstatus
  | replay actor note reset => cases hstatus
  | approve approver note =>
    have hrunning : .running = approvedStatus r.status := hstatus
    cases hr with
    | claimRecovered => simp [RowOp.write, claimWrite, recoverWrite, approveWrite] at hatt
    | _ => exact hrunning.symm
  | update u =>
    have hrunning : u.status = .running := hstatus.symm
    have hdue := congrArg TaskRow.runAfter h
    have hlease := congrArg TaskRow.leaseExpiresAt h
    have hworker := congrArg TaskRow.claimedBy h
    have herror := congrArg TaskRow.lastError h
    simp only [RowOp.write, claimWrite, recoverWrite, statusWrite, hrunning]
      at hdue hlease hworker herror
    cases hr with
    | claimRecovered => simp [RowOp.write, claimWrite, recoverWrite, statusWrite] at hatt
    | claimed =>
      refine ⟨fun _ _ => rfl, fun _ => ?_, fun _ => ?_, fun _ => rfl, fun _ => rfl, fun _ => rfl,
        fun _ => rfl⟩
      · simpa [claimWrite, TaskStatus.terminal] using hlease.symm
      · simpa [claimWrite, TaskStatus.terminal] using hworker.symm
    | reclaimed =>
      refine ⟨fun hover _ => ?_, fun _ => ?_, fun _ => ?_, fun _ => ?_, fun heq => ?_,
        fun _ => rfl, fun _ => rfl⟩
      · simpa [claimWrite, recoverWrite, hover] using hdue.symm
      · simpa [claimWrite, TaskStatus.terminal] using hlease.symm
      · simpa [claimWrite, TaskStatus.terminal] using hworker.symm
      · simpa [claimWrite, recoverWrite] using herror.symm
      · simp [hrunning] at heq

theorem TaskChange.carries (hr : TaskChange py cfg id first r r')
    (hq : TaskChange py cfg id first (late.write cfg clk r r) q')
    (h : q' = late.write cfg clk r r') : Carries cfg clk late r r' := by
  -- both rows have the status `late` writes, so `first` kept the status
  have hstatus : q'.status = (late.write cfg clk r r).status := by
    rw [h]
    cases late <;> rfl
  cases hq with
  | recovered hexpired => simp [leaseExpired, ← hstatus, recoverWrite] at hexpired
  | claimRecovered hexpired => simp [leaseExpired, ← hstatus, recoverWrite] at hexpired
  | selected hclaimable => simp [claimable, ← hstatus, claimWrite] at hclaimable
  | claimed hclaimable => simp [claimable, ← hstatus, claimWrite] at hclaimable
  | reclaimed => exact carries_of_reclaimed hr h
  | approved =>
    cases hr
    exact carries_of_leavesSerial (.approve none none) h
  | updated hu =>
    cases hr with
    | updated hu' =>
      obtain rfl := Except.ok.inj (hu.symm.trans hu')
      exact carries_of_leavesSerial (.update _) h
  | requeued =>
    cases hr
    exact carries_of_leavesSerial (.requeue _ none) h
  | replayed =>
    cases hr
    exact carries_of_leavesSerial (.replay none none _) h

/-- **Exactly the overlaps that are serialisable**: `late` carries over what it would have read, or
`first` would pass over the row and `late` overwrites what it did. -/
theorem serialisable_iff (hr : db.find? id = some r)
    (hr' : (taskStep py cfg db first).find? id = some r') :
    Serialisable py cfg clk id late first db ↔
      Carries cfg clk late r r' ∨
        ¬ Touches py cfg id (late.run cfg clk id db) first ∧ Absorbs late r r' := by
  have hover : (overlapped py cfg clk id late first db).find? id =
      some (late.write cfg clk r r') := by
    simp [overlapped, hr, hr']
  have hlate : (late.run cfg clk id db).find? id = some (late.write cfg clk r r) :=
    find?_run late hr
  rw [Serialisable, hover, find?_run late hr', Option.some.injEq, write_eq_write_iff]
  rcases taskStep_change py cfg first hr with ⟨-, hsame⟩ | ⟨-, r₁, hr₁, hchange⟩
  · -- `first` passes over the row, so the early read is not stale
    obtain rfl : r' = r := Option.some.inj (hr'.symm.trans hsame)
    exact ⟨fun _ => .inl (.refl late r'), fun _ => .inl (.refl late r')⟩
  · -- `first` changes the row: the second order depends on what it does after `late`
    obtain rfl : r₁ = r' := Option.some.inj (hr₁.symm.trans hr')
    rcases taskStep_change py cfg first hlate with ⟨hskips, hsame⟩ | ⟨htouches, q', hq', hchange'⟩
    · rw [hsame, Option.some.injEq, hchange.absorbs_iff clk hskips]
      simp only [hskips, not_false_eq_true, true_and]
    · rw [hq', Option.some.injEq]
      refine ⟨?_, ?_⟩
      · rintro (hcarries | hsecond)
        · exact .inl hcarries
        · exact .inl (hchange.carries hchange' hsecond.symm)
      · rintro (hcarries | ⟨hskips, -⟩)
        · exact .inl hcarries
        · exact absurd htouches hskips

/-! ### A claim overlapped by an approval -/

def dueTask : TaskRow :=
  newRow .default .noon "t1"
    { title := "find", project := none, agent := none, priority := 0, payload := none
      runAfter := none, maxAttempts := none } "2025-01-01T12:00:00Z"

def dueDb : TaskDb := ⟨.insert .empty dueTask rfl, []⟩

def workerClaim : TaskOp :=
  .claim ⟨"2025-01-01T12:00:01Z", fun _ => "2025-01-01T12:02:01Z", fun _ => ""⟩
    (.frozen "2025-01-01T12:00:01Z") (some "w1")

def claimThenApprove : TaskDb :=
  overlapped .ascii .default (.frozen "2025-01-01T12:00:02Z") "t1" (.approve none none)
    workerClaim dueDb

theorem serialisable_iff_replay :
    Serialisable .ascii .default (.frozen "2025-01-01T12:00:02Z") "t1" (.replay none none true)
      workerClaim dueDb :=
  (serialisable_iff rfl rfl).mpr (.inl fun h => by cases h)

/-- The approval puts the claimed task back, and the next worker is handed the task while the first
one holds it. -/
theorem claimed_then_approved :
    ¬ Serialisable .ascii .default (.frozen "2025-01-01T12:00:02Z") "t1" (.approve none none)
        workerClaim dueDb ∧
      (claimThenApprove.find? "t1").map TaskRow.claimedBy = some (some "w1") ∧
      handedOut .ascii .default claimThenApprove
        (.claim (.frozen "2025-01-01T12:00:03Z") (.frozen "2025-01-01T12:00:03Z") (some "w2")) =
          some "t1" := by
  refine ⟨?_, rfl, by decide⟩
  -- either serial run ends with the claimed task running
  rintro (h | h) <;> exact absurd (congrArg (Option.map TaskRow.status) h) (by decide)

end ContextLattice
