import ContextLattice.Stamps

/-!
# Due times

`_task_parse_datetime` guards `fromisoformat` only: the conversion of a number, and the move to UTC,
may raise.
-/

namespace ContextLattice

open Foundation

/-- The instants a text denotes, in microseconds from the beginning of year 1: whole seconds since
the epoch, or a local time less its offset. -/
inductive Denotes (py : Python) (s : String) : ℤ → Prop
  | seconds {n : ℕ} (hdigit : py.isdigit (strip s) = true)
      (hnumber : py.wholeNumber (strip s) = some n) : Denotes py s (DateTime.epochMicros n)
  | iso {wall : DateTime} {offset : Option ℤ} (hdigit : py.isdigit (strip s) = false)
      (hiso : py.fromisoformat (isoCandidate (strip s)) = some (wall, offset)) :
      Denotes py s (wall.micros - offset.getD 0)

/-- A number with a digit that is not decimal or beyond the year 9999, or a local time whose instant
lies outside the years. -/
def ParseRaises (py : Python) (s : String) : Prop :=
  strip s ≠ "" ∧
    (py.isdigit (strip s) = true ∧ (∀ n, py.wholeNumber (strip s) = some n → 253402300799 < n) ∨
      py.isdigit (strip s) = false ∧ ∃ t offset,
        py.fromisoformat (isoCandidate (strip s)) = some (t, some offset) ∧
          ((t.micros : ℤ) - offset < 0 ∨ (endDays * 86400 * 10 ^ 6 : ℕ) ≤ (t.micros : ℤ) - offset))

variable {py : Python} {s : String}

theorem taskParseDatetime_of_isdigit (hempty : strip s ≠ "")
    (hdigit : py.isdigit (strip s) = true) :
    ParseRaises py s ∧ taskParseDatetime py s = .error .internal ∨
      ¬ ParseRaises py s ∧ ∃ t : DateTime, taskParseDatetime py s = .ok (some t.isoformat) ∧
        Denotes py s t.micros := by
  have hraises : ParseRaises py s ↔
      ∀ n, py.wholeNumber (strip s) = some n → 253402300799 < n := by
    simp [ParseRaises, hempty, hdigit]
  rw [hraises]
  unfold taskParseDatetime
  dsimp only
  rw [if_neg hempty, if_pos hdigit]
  cases hnumber : py.wholeNumber (strip s) with
  | none => exact .inl ⟨fun n hn => (Option.some_ne_none n hn.symm).elim, rfl⟩
  | some n =>
    rw [Option.bind_some]
    cases hutc : DateTime.utcfromtimestamp n with
    | none =>
      refine .inl ⟨fun m hm => ?_, rfl⟩
      rw [← Option.some.inj hm]
      exact DateTime.utcfromtimestamp_eq_none_iff.mp hutc
    | some t =>
      have hplace : t.micros = DateTime.epochMicros n := DateTime.micros_of_ofMicros hutc
      refine .inr ⟨fun hlarge => ?_, t, rfl, hplace ▸ .seconds hdigit hnumber⟩
      have hnone := DateTime.utcfromtimestamp_eq_none_iff.mpr (hlarge n rfl)
      exact Option.some_ne_none t (hutc.symm.trans hnone)

theorem taskParseDatetime_of_not_isdigit (hempty : strip s ≠ "")
    (hdigit : py.isdigit (strip s) = false) :
    ParseRaises py s ∧ taskParseDatetime py s = .error .internal ∨
      ¬ ParseRaises py s ∧ (taskParseDatetime py s = .ok none ∨
        ∃ t : DateTime, taskParseDatetime py s = .ok (some t.isoformat) ∧
          Denotes py s t.micros) := by
  have hraises : ParseRaises py s ↔ ∃ t offset,
      py.fromisoformat (isoCandidate (strip s)) = some (t, some offset) ∧
        DateTime.ofInstant (t.micros - offset) = none := by
    simp only [ParseRaises, hempty, hdigit, DateTime.ofInstant_eq_none_iff, ne_eq,
      not_false_eq_true, Bool.false_eq_true, false_and, false_or, true_and]
  rw [hraises]
  unfold taskParseDatetime
  dsimp only
  rw [if_neg hempty, hdigit]
  cases hiso : py.fromisoformat (isoCandidate (strip s)) with
  | none => exact .inr ⟨by simp, .inl rfl⟩
  | some found =>
    obtain ⟨t, offset⟩ := found
    cases offset with
    | none =>
      have hdenotes : Denotes py s t.micros := by
        simpa using Denotes.iso hdigit hiso
      exact .inr ⟨by simp, .inr ⟨t, rfl, hdenotes⟩⟩
    | some offset =>
      cases hutc : DateTime.ofInstant (t.micros - offset) with
      | none => exact .inl ⟨⟨t, offset, rfl, hutc⟩, by simp [hutc]⟩
      | some u =>
        refine .inr ⟨by simp [hutc], .inr ⟨u, by simp [hutc], ?_⟩⟩
        rw [DateTime.micros_of_ofInstant hutc]
        exact .iso hdigit hiso

theorem taskParseDatetime_cases (py : Python) (s : String) :
    ParseRaises py s ∧ taskParseDatetime py s = .error .internal ∨
      ¬ ParseRaises py s ∧ (taskParseDatetime py s = .ok none ∨
        ∃ t : DateTime, taskParseDatetime py s = .ok (some t.isoformat) ∧
          Denotes py s t.micros) := by
  by_cases hempty : strip s = ""
  · exact .inr ⟨fun h => h.1 hempty, .inl (by simp [taskParseDatetime, hempty])⟩
  cases hdigit : py.isdigit (strip s) with
  | true => exact (taskParseDatetime_of_isdigit hempty hdigit).imp_right fun h => ⟨h.1, .inr h.2⟩
  | false => exact taskParseDatetime_of_not_isdigit hempty hdigit

theorem exists_taskParseDatetime_iff :
    (∃ r, taskParseDatetime py s = .ok r) ↔ ¬ ParseRaises py s := by
  obtain ⟨hraises, h⟩ | ⟨hraises, h | ⟨t, h, -⟩⟩ := taskParseDatetime_cases py s <;>
    simp [h, hraises]

/-! ### Creation and status updates -/

def PayloadAccepted (py : Python) (cfg : TaskConfig) (req : TaskRequest) : Prop :=
  ∀ payload, req.payload = some payload →
    ∃ normalized, validateTaskPayloadContract py cfg payload = .ok normalized

/-- Whatever else the request asks for, a task with this due time is refused with 422, or is stored
with an instant the text denotes. -/
def DueTimeValidated (py : Python) (cfg : TaskConfig) (runAfter : String) : Prop :=
  ∀ clk taskId req db, req.runAfter = some runAfter → PayloadAccepted py cfg req →
    db.tasks.find? taskId = none →
    (∃ detail, createTaskRecord py cfg clk taskId req db = .error ⟨422, detail⟩) ∨
      ∃ db' row, ∃ t : DateTime, createTaskRecord py cfg clk taskId req db = .ok (db', row) ∧
        db'.find? taskId = some row ∧ row.runAfter = some (stamp t) ∧
          Denotes py runAfter t.micros

variable {cfg : TaskConfig} {clk : Clock} {taskId : String} {req : TaskRequest} {db : TaskDb}

theorem taskRowOf_of_accepted (h : PayloadAccepted py cfg req) :
    (∃ e, dueAt py clk req.runAfter = .error e ∧ taskRowOf py cfg clk taskId req = .error e) ∨
      ∃ due row, dueAt py clk req.runAfter = .ok due ∧
        taskRowOf py cfg clk taskId req = .ok row ∧ row.id = taskId ∧
        row.runAfter = some due := by
  unfold taskRowOf
  cases hpayload : req.payload with
  | none =>
    cases hdue : dueAt py clk req.runAfter with
    | error e => exact .inl ⟨e, rfl, rfl⟩
    | ok due => exact .inr ⟨due, _, rfl, rfl, rfl, rfl⟩
  | some payload =>
    obtain ⟨normalized, hok⟩ := h payload hpayload
    cases hdue : dueAt py clk req.runAfter with
    | error e => exact .inl ⟨e, rfl, by simp [hok, bind, Except.bind]⟩
    | ok due =>
      refine .inr ⟨due, newPayloadRow py cfg clk taskId req due normalized, rfl, ?_, rfl, rfl⟩
      simp [hok, bind, Except.bind]

theorem dueAt_cases (py : Python) (clk : Clock) (hne : s ≠ "") :
    ParseRaises py s ∧ dueAt py clk (some s) = .error .internal ∨
      ¬ ParseRaises py s ∧
        (dueAt py clk (some s) = .error ⟨422, "run_after must be ISO-8601 timestamp"⟩ ∨
          ∃ t, dueAt py clk (some s) = .ok (stamp t) ∧ Denotes py s t.micros) := by
  simp only [dueAt, hne, if_false, bind, Except.bind]
  obtain ⟨hraises, h⟩ | ⟨hraises, h | ⟨t, h, hdenotes⟩⟩ := taskParseDatetime_cases py s
  · exact .inl ⟨hraises, by rw [h]⟩
  · exact .inr ⟨hraises, .inl (by rw [h])⟩
  · exact .inr ⟨hraises, .inr ⟨t, by rw [h]; rfl, hdenotes⟩⟩

theorem createTaskRecord_of_error {e : HttpError}
    (hrow : taskRowOf py cfg clk taskId req = .error e) :
    createTaskRecord py cfg clk taskId req db = .error e := by
  simp [createTaskRecord, hrow, bind, Except.bind]

theorem createTaskRecord_of_fresh {row : TaskRow}
    (hrow : taskRowOf py cfg clk taskId req = .ok row) (hid : row.id = taskId)
    (hfresh : db.tasks.find? taskId = none) :
    ∃ db', createTaskRecord py cfg clk taskId req db = .ok (db', row) ∧
      db'.find? taskId = some row := by
  subst hid
  obtain ⟨db', h⟩ : ∃ db', createTaskRecord py cfg clk row.id req db = .ok (db', row) := by
    simp [createTaskRecord, hrow, bind, Except.bind, hfresh]
  exact ⟨db', h, find?_of_createTaskRecord h⟩

def plainRequest (runAfter : String) : TaskRequest where
  title := ""
  project := none
  agent := none
  priority := 0
  payload := none
  runAfter := some runAfter
  maxAttempts := none

theorem payloadAccepted_plainRequest : PayloadAccepted py cfg (plainRequest s) := by
  intro payload h
  cases h

theorem dueTimeValidated_iff :
    DueTimeValidated py cfg s ↔ s ≠ "" ∧ ¬ ParseRaises py s := by
  constructor
  · -- probe with a request that has nothing but the due time, on an empty table
    intro h
    have hprobe := h (.frozen "") "" (plainRequest s) ⟨.empty, []⟩ rfl
      payloadAccepted_plainRequest rfl
    by_cases hne : s = ""
    · subst hne
      obtain ⟨detail, hcreate⟩ | ⟨db', row, t, hcreate, -, hrow, -⟩ := hprobe
      · cases hcreate
      · cases hcreate
        have hempty : (stamp t).toList = [] := by rw [← Option.some.inj hrow]; rfl
        simp [stamp] at hempty
    · refine ⟨hne, fun hraises => ?_⟩
      obtain ⟨-, hdue⟩ | ⟨hnot, -⟩ := dueAt_cases py (.frozen "") hne
      · have herror : createTaskRecord py cfg (.frozen "") "" (plainRequest s) ⟨.empty, []⟩ =
            .error .internal := by
          refine createTaskRecord_of_error ?_
          simp [taskRowOf, plainRequest, hdue, bind, Except.bind]
        rw [herror] at hprobe
        obtain ⟨detail, hcreate⟩ | ⟨db', row, t, hcreate, -⟩ := hprobe
        · cases hcreate
        · cases hcreate
      · exact hnot hraises
  · rintro ⟨hne, hraises⟩ clk taskId req db hreq hpayload hfresh
    have hdue := dueAt_cases py clk hne
    rw [← hreq] at hdue
    obtain ⟨e, hdue', hrow⟩ | ⟨due, row, hdue', hrow, hid, hafter⟩ :=
      @taskRowOf_of_accepted py cfg clk taskId req hpayload
    · left
      obtain ⟨hraises', -⟩ | ⟨-, hdue | ⟨t, hdue, -⟩⟩ := hdue
      · exact absurd hraises' hraises
      · obtain rfl := Except.error.inj (hdue'.symm.trans hdue)
        exact ⟨_, createTaskRecord_of_error hrow⟩
      · rw [hdue] at hdue'
        cases hdue'
    · right
      obtain ⟨hraises', -⟩ | ⟨-, hdue | ⟨t, hdue, hdenotes⟩⟩ := hdue
      · exact absurd hraises' hraises
      · rw [hdue] at hdue'
        cases hdue'
      · obtain rfl := Except.ok.inj (hdue'.symm.trans hdue)
        obtain ⟨db', hcreate, hfind⟩ :=
          @createTaskRecord_of_fresh py cfg clk taskId req db row hrow hid hfresh
        exact ⟨db', row, t, hcreate, hfind, hafter, hdenotes⟩

/-- **Due times** are refused or stored as an instant they denote if and only if the text is not
empty and reading it does not raise. -/
theorem dueTime_validated_iff (py : Python) (cfg : TaskConfig) :
    (∀ s, DueTimeValidated py cfg s ↔ s ≠ "" ∧ ¬ ParseRaises py s) ∧
      ∀ status message metadata v, TaskStatus.ofText (py.stripLower status) ≠ none →
        Dict.get? metadata "run_after" = some v →
        ((∃ u, prepareStatusUpdate py status message (some metadata) = .ok u) ↔
          ¬ (v.truthy = true ∧ ParseRaises py (py.str v))) := by
  refine ⟨fun _ => dueTimeValidated_iff, fun status message metadata v hstatus hv => ?_⟩
  obtain ⟨normalized, hnormalized⟩ := Option.ne_none_iff_exists'.mp hstatus
  simp only [prepareStatusUpdate, hnormalized, Option.bind_some, hv]
  cases htruthy : v.truthy with
  | false => simp [bind, Except.bind]
  | true =>
    simp only [if_true, true_and, ← exists_taskParseDatetime_iff]
    cases hparse : taskParseDatetime py (py.str v) with
    | error | ok => simp [bind, Except.bind]

/-! ### A second too late -/

/-- The second after the year 9999: creation and the status update end in an unexpected
exception. -/
theorem year_10000_raises :
    createTaskRecord .ascii .default .noon "t1"
        (plainRequest "253402300800") ⟨.empty, []⟩ = .error .internal ∧
      prepareStatusUpdate .ascii "queued" none
        (some (Dict.set .empty "run_after" (.str "253402300800"))) = .error .internal := by
  have hraises : taskParseDatetime .ascii "253402300800" = .error .internal := by
    obtain ⟨-, h⟩ | ⟨hnot, -⟩ := taskParseDatetime_cases .ascii "253402300800"
    · exact h
    · refine absurd ⟨by decide, .inl ⟨by decide, ?_⟩⟩ hnot
      intro n hn
      have hvalue : Python.ascii.wholeNumber (strip "253402300800") = some 253402300800 := by
        decide +kernel
      obtain rfl := Option.some.inj (hvalue.symm.trans hn)
      decide
  constructor
  · refine createTaskRecord_of_error ?_
    simp [taskRowOf, plainRequest, dueAt, hraises, bind, Except.bind]
  · have hstatus : TaskStatus.ofText (Python.ascii.stripLower "queued") = some .queued := by decide
    simp [prepareStatusUpdate, hstatus, hraises, Json.truthy, Python.str, bind, Except.bind]

end ContextLattice
