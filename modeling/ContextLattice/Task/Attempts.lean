import ContextLattice.Task.Transactions

/-!
# Attempts

A task can be **stranded**, offered with no attempt left, since recovery, replay, status update and
approval put it back without looking. And it can be handed out more often than `max_attempts` times,
since a replay writes back the number it read.
-/

namespace ContextLattice

open Foundation

/-! ### The bounds of the counters -/

structure Counted (r : TaskRow) : Prop where
  attempts_le : r.attempts ≤ r.maxAttempts
  one_le : 1 ≤ r.maxAttempts
  le_fifty : r.maxAttempts ≤ 50

theorem taskRowOf_counters {py : Python} {cfg : TaskConfig} {clk : Clock} {taskId : String}
    {req : TaskRequest} {row : TaskRow} (h : taskRowOf py cfg clk taskId req = .ok row) :
    row.status = .queued ∧ row.attempts = 0 ∧ row.agent = req.agent ∧ Counted row := by
  have hcap : ∀ n : ℕ, 1 ≤ max 1 (min n 50) ∧ max 1 (min n 50) ≤ 50 := by
    intro n
    omega
  unfold taskRowOf at h
  simp only [bind, Except.bind] at h
  split at h
  · split at h
    · cases h
    · cases h
      exact ⟨rfl, rfl, rfl, Nat.zero_le _, (hcap _).1, (hcap _).2⟩
  · split at h
    · cases h
    · split at h
      · cases h
      · cases h
        exact ⟨rfl, rfl, rfl, Nat.zero_le _, (hcap _).1, (hcap _).2⟩

theorem counters_write (cfg : TaskConfig) (p : PendingCall) (r : TaskRow) :
    (p.op.write cfg p.clk p.seen r).maxAttempts = r.maxAttempts ∧
      (p.op.write cfg p.clk p.seen r).agent = r.agent ∧
      ((p.op.write cfg p.clk p.seen r).attempts = r.attempts ∨
        ∃ actor note reset, p.op = .replay actor note reset ∧
          (p.op.write cfg p.clk p.seen r).attempts = if reset then 0 else p.seen.attempts) := by
  rcases p with ⟨clk, id, op, seen⟩
  cases op with
  | approve | update | requeue => exact ⟨rfl, rfl, .inl rfl⟩
  | replay actor note reset => exact ⟨rfl, rfl, .inr ⟨actor, note, reset, rfl, rfl⟩⟩

variable {py : Python} {cfg : TaskConfig} {s : TaskSystem} {t : TaskTransaction} {id : String}
  {r r' : TaskRow}

theorem TaskTransaction.Change.fixed (h : t.Change py cfg id s r r') :
    r'.maxAttempts = r.maxAttempts ∧ r'.agent = r.agent := by
  cases h with
  | kept | recovered | selected => exact ⟨rfl, rfl⟩
  | written hcall hid =>
    rename_i call p
    obtain ⟨hmax, hagent, -⟩ := counters_write cfg p r
    exact ⟨hmax, hagent⟩

structure AttemptsBounded (s : TaskSystem) : Prop where
  row : ∀ id r, s.db.find? id = some r → Counted r
  call : ∀ call p, s.calls.get? call = some p →
    ∃ r, s.db.find? p.id = some r ∧ p.seen.attempts ≤ r.maxAttempts

theorem AttemptsBounded.empty : AttemptsBounded .empty where
  row := fun _ _ h => by cases h
  call := fun _ _ h => by cases h

theorem AttemptsBounded.change (hs : AttemptsBounded s) (hr : s.db.find? id = some r)
    (h : t.Change py cfg id s r r') : Counted r' := by
  have hcounted := hs.row id r hr
  obtain ⟨hmax, -⟩ := h.fixed
  refine ⟨?_, hmax ▸ hcounted.one_le, hmax ▸ hcounted.le_fifty⟩
  cases h with
  | kept | recovered => exact hcounted.attempts_le
  | selected hout hclaimable =>
    -- the query asks for an attempt that is left
    simp only [claimable, Bool.and_eq_true, decide_eq_true_eq] at hclaimable
    exact hclaimable.1.1.2
  | written hcall hid =>
    rename_i call p
    rw [hmax]
    obtain ⟨-, -, hkeep | ⟨actor, note, reset, -, hwrite⟩⟩ := counters_write cfg p r
    · rw [hkeep]
      exact hcounted.attempts_le
    · obtain ⟨q, hq, hseen⟩ := hs.call call p hcall
      rw [hid, hr] at hq
      obtain rfl := Option.some.inj hq
      rw [hwrite]
      split
      · exact Nat.zero_le _
      · exact hseen

theorem AttemptsBounded.step (hs : AttemptsBounded s) (t : TaskTransaction) :
    AttemptsBounded (transactionStep py cfg s t) := by
  have hlater : ∀ {id r}, s.db.find? id = some r →
      ∃ r', (transactionStep py cfg s t).db.find? id = some r' ∧
        r'.maxAttempts = r.maxAttempts := by
    intro id r hr
    obtain ⟨r', hr', hchange⟩ := transactionStep_change py cfg s t hr
    exact ⟨r', hr', hchange.fixed.1⟩
  constructor
  case row =>
    intro id r' hr'
    rcases hr : s.db.find? id with _ | r
    · obtain ⟨clk, taskId, req, db', -, hcreate⟩ := transactionStep_created py cfg s t hr hr'
      exact (taskRowOf_counters (createTaskRecord_eq_ok hcreate).1).2.2.2
    · have hchange := change_of_step py cfg hr hr'
      exact hs.change hr hchange
  case call =>
    -- a call that is pending afterwards was pending before, or has just read its row
    have hold : ∀ call p, s.calls.get? call = some p →
        ∃ r, (transactionStep py cfg s t).db.find? p.id = some r ∧
          p.seen.attempts ≤ r.maxAttempts := by
      intro call p hp
      obtain ⟨r, hr, hseen⟩ := hs.call call p hp
      obtain ⟨r', hr', hmax⟩ := hlater hr
      exact ⟨r', hr', hmax ▸ hseen⟩
    intro call p hp
    rcases transactionStep_pending hp with hp | ⟨hdb, hr⟩
    · exact hold call p hp
    · rw [hdb]
      exact ⟨p.seen, hr, (hs.row p.id p.seen hr).attempts_le⟩

theorem attemptsBounded_run (ts : List TaskTransaction) :
    AttemptsBounded (run (transactionStep py cfg) .empty ts) :=
  run_invariant (fun _ t hs => hs.step t) .empty ts

/-! ### Hand-outs -/

variable (py : Python) (cfg : TaskConfig) (id : String)

def handOuts (s : TaskSystem) : List TaskTransaction → ℕ
  | [] => 0
  | t :: ts =>
    (if t.handsOut py cfg s = some id then 1 else 0) + handOuts (transactionStep py cfg s t) ts

def ResetsAttempts (s : TaskSystem) (t : TaskTransaction) : Prop :=
  ∃ p actor note, t.committed s = some p ∧ p.id = id ∧ p.op = .replay actor note true

def NotOvertaken (s : TaskSystem) (t : TaskTransaction) : Prop :=
  ∀ p actor note r, t.committed s = some p → p.id = id → p.op = .replay actor note false →
    s.db.find? id = some r → r.attempts ≤ p.seen.attempts

variable {py cfg id}

theorem attempts_of_handsOut {t : TaskTransaction} (hout : t.handsOut py cfg s = some id)
    (hr : s.db.find? id = some r) :
    ∃ r', (transactionStep py cfg s t).db.find? id = some r' ∧
      r'.attempts = r.attempts + 1 := by
  obtain ⟨r', hr', hchange⟩ := transactionStep_change py cfg s t hr
  refine ⟨r', hr', ?_⟩
  cases hchange with
  | kept hne => exact absurd hout hne
  | selected => rfl
  | recovered | written => cases hout

theorem find?_of_handsOut {t : TaskTransaction} (hout : t.handsOut py cfg s = some id) :
    ∃ r, s.db.find? id = some r := by
  cases t with
  | select clk worker =>
    simp only [TaskTransaction.handsOut, claimTask] at hout
    split at hout
    · cases hout
    · rename_i row hnext
      cases hout
      exact ⟨row, (nextClaimable_eq_some hnext).1⟩
  | create | recover | read | commit => cases hout

theorem attempts_mono (py : Python) (cfg : TaskConfig) {t : TaskTransaction}
    (hr : s.db.find? id = some r)
    (hreset : ¬ ResetsAttempts id s t) (hfresh : NotOvertaken id s t) :
    ∃ r', (transactionStep py cfg s t).db.find? id = some r' ∧
      r.attempts + (if t.handsOut py cfg s = some id then 1 else 0) ≤ r'.attempts := by
  by_cases hout : t.handsOut py cfg s = some id
  · obtain ⟨r', hr', hattempts⟩ := attempts_of_handsOut hout hr
    exact ⟨r', hr', by simp [hout, hattempts]⟩
  · obtain ⟨r', hr', hchange⟩ := transactionStep_change py cfg s t hr
    refine ⟨r', hr', ?_⟩
    rw [if_neg hout, Nat.add_zero]
    cases hchange with
    | kept | recovered => exact le_rfl
    | selected => exact Nat.le_succ _
    | written hcall hid =>
      rename_i call p
      obtain ⟨-, -, hkeep | ⟨actor, note, reset, hop, hwrite⟩⟩ := counters_write cfg p r
      · exact hkeep.ge
      · cases reset with
        | true => exact absurd ⟨p, actor, note, hcall, hid, hop⟩ hreset
        | false =>
          rw [hwrite]
          exact hfresh p actor note r hcall hid hop hr

theorem handOuts_add_le {ts : List TaskTransaction} (hr : s.db.find? id = some r)
    (hreset : Along (transactionStep py cfg) (fun s t => ¬ ResetsAttempts id s t) s ts)
    (hfresh : Along (transactionStep py cfg) (NotOvertaken id) s ts) :
    ∃ r', (run (transactionStep py cfg) s ts).db.find? id = some r' ∧
      r'.maxAttempts = r.maxAttempts ∧ r.attempts + handOuts py cfg id s ts ≤ r'.attempts := by
  induction ts generalizing s r with
  | nil => exact ⟨r, hr, rfl, le_rfl⟩
  | cons t ts ih =>
    obtain ⟨r₁, hr₁, hle₁⟩ := attempts_mono py cfg hr hreset.1 hfresh.1
    have hchange := change_of_step py cfg hr hr₁
    obtain ⟨r₂, hr₂, hmax, hle₂⟩ := ih hr₁ hreset.2 hfresh.2
    refine ⟨r₂, hr₂, hmax.trans hchange.fixed.1, ?_⟩
    rw [handOuts]
    omega

/-- **Bounded hand-outs**: between two resets a task is handed out at most as often as its cap says,
if no replay that keeps the attempts is overtaken by a claim. -/
theorem handOuts_le (py : Python) (cfg : TaskConfig) (pre : List TaskTransaction) (id : String) :
    let s := run (transactionStep py cfg) .empty pre
    (∀ t, t.handsOut py cfg s = some id → ∃ r r', s.db.find? id = some r ∧
        (transactionStep py cfg s t).db.find? id = some r' ∧ r'.attempts = r.attempts + 1) ∧
      ∀ r, s.db.find? id = some r →
        (r.attempts ≤ r.maxAttempts ∧ 1 ≤ r.maxAttempts ∧ r.maxAttempts ≤ 50) ∧
        ∀ ts, (∃ r', (run (transactionStep py cfg) s ts).db.find? id = some r' ∧
            r'.maxAttempts = r.maxAttempts) ∧
          (Along (transactionStep py cfg) (fun s t => ¬ ResetsAttempts id s t) s ts →
            Along (transactionStep py cfg) (NotOvertaken id) s ts →
            handOuts py cfg id s ts ≤ r.maxAttempts) := by
  intro s
  have hbounded : AttemptsBounded s := attemptsBounded_run pre
  refine ⟨fun t hout => ?_, fun r hr => ⟨?_, fun ts => ⟨?_, fun hreset hfresh => ?_⟩⟩⟩
  · obtain ⟨r, hr⟩ := find?_of_handsOut hout
    obtain ⟨r', hr', hattempts⟩ := attempts_of_handsOut hout hr
    exact ⟨r, r', hr, hr', hattempts⟩
  · obtain ⟨hle, hone, hfifty⟩ := hbounded.row id r hr
    exact ⟨hle, hone, hfifty⟩
  · let Inv (s : TaskSystem) : Prop :=
      ∃ r', s.db.find? id = some r' ∧ r'.maxAttempts = r.maxAttempts
    have hstep : ∀ s t, Inv s → Inv (transactionStep py cfg s t) := by
      rintro s t ⟨q, hq, hmax⟩
      obtain ⟨q', hq', hchange⟩ := transactionStep_change py cfg s t hq
      exact ⟨q', hq', hchange.fixed.1.trans hmax⟩
    exact run_invariant hstep ⟨r, hr, rfl⟩ ts
  · obtain ⟨r', hr', hmax, hle⟩ := handOuts_add_le hr hreset hfresh
    have hbounded' : AttemptsBounded (run (transactionStep py cfg) s ts) :=
      run_invariant (fun _ t hs => hs.step t) hbounded ts
    have hle' := (hbounded'.row id r' hr').attempts_le
    omega

def onceTask : TaskTransaction :=
  .create .noon "t1"
    { title := "find", project := none, agent := none, priority := 0
      payload := some (Dict.set (Dict.set .empty "action" (.str "search")) "query" (.str "x"))
      runAfter := none, maxAttempts := some 1 }

theorem handOuts_le_once :
    let s := run (transactionStep .ascii .default) .empty [onceTask]
    handOuts .ascii .default "t1" s
      [.select .noon (some "w1"),
        .recover (.frozen "2025-01-01T12:00:01Z") 25,
        .select (.frozen "2025-01-01T12:00:01Z") (some "w2")] ≤ 1 := by
  intro s
  obtain ⟨r, hr, hmax⟩ : ∃ r, s.db.find? "t1" = some r ∧ r.maxAttempts = 1 := ⟨_, rfl, rfl⟩
  rw [← hmax]
  refine (((handOuts_le .ascii .default [onceTask] "t1").2 r hr).2 _).2 ⟨?_, ?_, ?_, trivial⟩
    ⟨?_, ?_, ?_, trivial⟩
  iterate 3
    · rintro ⟨p, actor, note, hp, -⟩
      cases hp
  all_goals
    intro p actor note r hp
    cases hp

/-- A replay that keeps the attempts is overtaken by a claim: the claim is forgotten, and the task
that may be tried once is handed out twice. -/
theorem overtaken_replay :
    let s := run (transactionStep .ascii .default) .empty [onceTask]
    let clk : Clock := .noon
    let ts : List TaskTransaction :=
      [.read 1 clk "t1" (.replay none none false), .select clk (some "w1"), .commit 1,
        .select clk (some "w2")]
    ((s.db.find? "t1").map fun r => r.maxAttempts) = some 1 ∧
      Along (transactionStep .ascii .default) (fun s t => ¬ ResetsAttempts "t1" s t) s ts ∧
      handOuts .ascii .default "t1" s ts = 2 := by
  intro s clk ts
  refine ⟨rfl, ⟨?_, ?_, ?_, ?_, trivial⟩, by decide⟩
  all_goals
    rintro ⟨p, actor, note, hp, -, hop⟩
    cases hp <;> cases hop

/-! ### Stranded tasks -/

def TaskStatus.offered : TaskStatus → Bool
  | queued | approved => true
  | running | blocked | succeeded | failed | canceled => false

variable (py : Python) (cfg : TaskConfig)

def AgentServed (agent : Option String) : Prop :=
  ∃ worker, offeredTo py (workerName worker) agent = true

def Served (r : TaskRow) : Prop :=
  r.attempts < r.maxAttempts ∧ ∃ worker, ∀ now, (∀ due ∈ r.runAfter, due ≤ now) →
    claimable py now (workerName worker) { r with approved := true } = true

def NotStranded (s : TaskSystem) : Prop :=
  ∀ id r, s.db.find? id = some r → r.status.offered = true → Served py r

def RowOp.leavesAttempts (op : RowOp) (seen row : TaskRow) : Prop :=
  match op with
  | .approve _ _ => (approvedStatus seen.status).offered = true → row.attempts < row.maxAttempts
  | .update u => u.status.offered = true → row.attempts < row.maxAttempts
  | .requeue _ _ => ¬ exhausted cfg seen → row.attempts < row.maxAttempts
  | .replay _ _ reset => reset = false → seen.attempts < row.maxAttempts

def StrandsNone (s : TaskSystem) : TaskTransaction → Prop
  | .create clk taskId req => ∀ db' row,
    createTaskRecord py cfg clk taskId req s.db = .ok (db', row) → AgentServed py req.agent
  | .recover clk limit => ∀ id ∈ expiredIds clk.now limit s.db, ∀ r, s.db.find? id = some r →
    r.attempts < r.maxAttempts
  | .commit call => ∀ p r, s.calls.get? call = some p → s.db.find? p.id = some r →
    p.op.leavesAttempts cfg p.seen r
  | .select .. | .read .. => True

variable {py cfg}

theorem served_iff_of_offered {r : TaskRow} (hoffered : r.status.offered = true) :
    Served py r ↔ r.attempts < r.maxAttempts ∧ AgentServed py r.agent := by
  have hstatus : (decide (r.status = .queued) || decide (r.status = .approved)) = true := by
    cases hs : r.status <;> simp_all [TaskStatus.offered]
  constructor
  · rintro ⟨hleft, worker, hclaim⟩
    refine ⟨hleft, worker, ?_⟩
    -- at the very moment it is due
    have h := hclaim (r.runAfter.getD "") fun due hdue => by simp [Option.mem_def.mp hdue]
    simp only [claimable, Bool.and_eq_true] at h
    exact h.2
  · rintro ⟨hleft, worker, hagent⟩
    refine ⟨hleft, worker, fun now hdue => ?_⟩
    simp only [claimable, Bool.or_true, Bool.and_true, hstatus, hleft, hagent, decide_true,
      Bool.true_and]
    rcases hafter : r.runAfter with _ | due
    · rfl
    · simpa using hdue due hafter

theorem served_write_iff {p : PendingCall} {r : TaskRow} (hone : 1 ≤ r.maxAttempts)
    (hserved : AgentServed py r.agent) :
    ((p.op.write cfg p.clk p.seen r).status.offered = true →
        Served py (p.op.write cfg p.clk p.seen r)) ↔ p.op.leavesAttempts cfg p.seen r := by
  obtain ⟨hmax, hagent, -⟩ := counters_write cfg p r
  have hiff : ((p.op.write cfg p.clk p.seen r).status.offered = true →
      Served py (p.op.write cfg p.clk p.seen r)) ↔
      ((p.op.write cfg p.clk p.seen r).status.offered = true →
        (p.op.write cfg p.clk p.seen r).attempts < r.maxAttempts) := by
    refine forall_congr' fun hoffered => ?_
    rw [served_iff_of_offered hoffered, hmax, hagent]
    exact and_iff_left hserved
  rw [hiff]
  rcases p with ⟨clk, id, op, seen⟩
  cases op with
  | approve | update => rfl
  | requeue error worker =>
    by_cases h : exhausted cfg seen <;>
      simp [RowOp.write, requeueWrite, RowOp.leavesAttempts, h, TaskStatus.offered]
  | replay actor note reset =>
    cases reset <;> simp [RowOp.write, replayWrite, RowOp.leavesAttempts, TaskStatus.offered]
    omega

def Servable (py : Python) (s : TaskSystem) : Prop :=
  ∀ id r, s.db.find? id = some r → 1 ≤ r.maxAttempts ∧ AgentServed py r.agent

theorem Servable.step (hs : Servable py s) (hstep : NotStranded py (transactionStep py cfg s t)) :
    Servable py (transactionStep py cfg s t) := by
  intro id r' hr'
  rcases hr : s.db.find? id with _ | r
  · obtain ⟨clk, taskId, req, db', -, hcreate⟩ := transactionStep_created py cfg s t hr hr'
    obtain ⟨hqueued, -, -, hcounted⟩ := taskRowOf_counters (createTaskRecord_eq_ok hcreate).1
    have hoffered : r'.status.offered = true := by rw [hqueued]; rfl
    exact ⟨hcounted.one_le, ((served_iff_of_offered hoffered).mp (hstep id r' hr' hoffered)).2⟩
  · have hchange := change_of_step py cfg hr hr'
    rw [hchange.fixed.1, hchange.fixed.2]
    exact hs id r hr

theorem NotStranded.step (hserv : Servable py s) (hs : NotStranded py s)
    (ht : StrandsNone py cfg s t) : NotStranded py (transactionStep py cfg s t) := by
  intro id r' hr' hoffered
  rcases hr : s.db.find? id with _ | r
  · obtain ⟨clk, taskId, req, db', rfl, hcreate⟩ := transactionStep_created py cfg s t hr hr'
    obtain ⟨-, hzero, hagent, hcounted⟩ := taskRowOf_counters (createTaskRecord_eq_ok hcreate).1
    rw [served_iff_of_offered hoffered, hzero, hagent]
    exact ⟨hcounted.one_le, ht db' r' hcreate⟩
  · have hchange := change_of_step py cfg hr hr'
    obtain ⟨hone, hagent⟩ := hserv id r hr
    cases hchange with
    | kept => exact hs id r' hr hoffered
    | recovered hmem => exact (served_iff_of_offered hoffered).mpr ⟨ht id hmem r hr, hagent⟩
    | selected => cases hoffered
    | written hcall hid =>
      subst hid
      exact (served_write_iff hone hagent).mpr (ht _ r hcall hr) hoffered

theorem NotStranded.strandsNone (hserv : Servable py s)
    (hstep : NotStranded py (transactionStep py cfg s t)) : StrandsNone py cfg s t := by
  cases t with
  | create clk taskId req =>
    intro db' row hcreate
    obtain ⟨hqueued, -, hagent, -⟩ := taskRowOf_counters (createTaskRecord_eq_ok hcreate).1
    have hoffered : row.status.offered = true := by rw [hqueued]; rfl
    have hfind :
        (transactionStep py cfg s (.create clk taskId req)).db.find? row.id = some row := by
      simpa [transactionStep, taskStep, hcreate] using find?_of_createTaskRecord hcreate
    rw [← hagent]
    exact ((served_iff_of_offered hoffered).mp (hstep row.id row hfind hoffered)).2
  | recover clk limit =>
    intro id hmem r hr
    have hfind : (transactionStep py cfg s (.recover clk limit)).db.find? id =
        some (recoverWrite clk r) := by
      simp [transactionStep, find?_recoverExpiredTaskLeases, hr, hmem]
    exact (hstep id _ hfind rfl).1
  | commit call =>
    intro p r hcall hr
    have hfind : (transactionStep py cfg s (.commit call)).db.find? p.id =
        some (p.op.write cfg p.clk p.seen r) := by
      simp only [transactionStep, hcall]
      rw [find?_commit_call cfg p hr, if_pos rfl]
    obtain ⟨hone, hagent⟩ := hserv p.id r hr
    exact (served_write_iff hone hagent).mp (hstep p.id _ hfind)
  | select | read => trivial

/-- **Stranded tasks, exactly.** Every available task has attempts left and a worker that can claim
it if and only if every event leaves the tasks it puts back an attempt. -/
theorem not_stranded_iff (py : Python) (cfg : TaskConfig) (ts : List TaskTransaction) :
    (∀ pre post, ts = pre ++ post →
        NotStranded py (run (transactionStep py cfg) .empty pre)) ↔
      Along (transactionStep py cfg) (StrandsNone py cfg) .empty ts := by
  have hempty : Servable py .empty := fun id r hr => by cases hr
  refine forall_run_iff_along (fun s t hserv hs => ⟨?_, ?_⟩) (fun s t hserv hstep => ?_) hempty ?_
  · exact fun hstep => hstep.strandsNone hserv
  · exact fun ht => hs.step hserv ht
  · exact hserv.step hstep
  · intro id r hr
    cases hr

/-- Lease recovery puts a task back with its only attempt used up, and no worker can claim it any
more. -/
theorem recovered_stranded :
    let s := run (transactionStep .ascii .default) .empty
      [onceTask, .select .noon (some "w1"),
        .recover (.frozen "2025-01-01T12:00:01Z") 25]
    ((s.db.find? "t1").map fun r => (r.status, r.attempts, r.maxAttempts)) =
        some (.queued, 1, 1) ∧ ¬ NotStranded .ascii s := by
  intro s
  refine ⟨rfl, fun h => ?_⟩
  obtain ⟨r, hr, hqueued, hattempts⟩ : ∃ r, s.db.find? "t1" = some r ∧ r.status = .queued ∧
      ¬ r.attempts < r.maxAttempts := ⟨_, rfl, rfl, by decide⟩
  exact hattempts (h "t1" r hr (by rw [hqueued]; rfl)).1

end ContextLattice
