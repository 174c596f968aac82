import ContextLattice.Task.Queue

/-!
# Agent affinity

The claim query reads the agent of a task with SQLite's `trim` and `lower`, the worker's name is
prepared by Python's `strip` and `lower`.
-/

namespace ContextLattice

open Foundation

def Ready (now : Stamp) (row : TaskRow) : Prop :=
  (row.status = .queued ∨ row.status = .approved) ∧
    (row.approvalRequired = true → row.approved = true) ∧
    row.attempts < row.maxAttempts ∧ ∀ due, row.runAfter = some due → due ≤ now

def internalWorker (py : Python) (worker : Option String) : Bool :=
  "internal-worker".toList.isPrefixOf (py.lower (workerName worker)).toList

def AddressedTo (py : Python) (worker agent : Option String) : Prop :=
  ∀ a, agent = some a →
    py.stripLower a = "" ∨ py.stripLower a = "any" ∨
      py.stripLower a = py.lower (workerName worker) ∨
      internalWorker py worker = true ∧ py.stripLower a = "internal" ∨
      internalWorker py worker = false ∧ py.stripLower a = "external"

def ReadAlike (py : Python) (agent : Option String) : Prop :=
  ∀ a, agent = some a → sqlLower (sqlTrim a) = py.stripLower a

variable {py : Python} {a : String}

theorem sqlLower_eq_empty_iff {s : String} : sqlLower s = "" ↔ s = "" := by
  rw [← String.toList_inj, ← String.toList_inj, sqlLower, String.toList_ofList]
  exact List.map_eq_nil_iff

theorem strip_sqlTrim (a : String) : strip (sqlTrim a) = strip a := by
  have hblank : ∀ c : Char, (c == ' ') = true → isSpace c = true := by
    intro c hc
    rw [beq_iff_eq.mp hc]
    decide
  rw [strip, sqlTrim, String.toList_ofList, stripList_stripList_of_imp hblank, strip]

theorem stripLower_of_sqlLower (hpy : py.LowersAscii)
    (hword : ∀ c ∈ (sqlLower (sqlTrim a)).toList, c.toNat < 128 ∧ isSpace c = false) :
    py.stripLower a = sqlLower (sqlTrim a) := by
  have hchar : ∀ c ∈ (sqlTrim a).toList, c.toLower.toNat < 128 ∧ isSpace c = false := by
    intro c hc
    rw [← Python.isSpace_toLower]
    refine hword _ ?_
    rw [sqlLower, String.toList_ofList]
    exact List.mem_map_of_mem hc
  have hascii : ∀ c ∈ (sqlTrim a).toList, c.toNat < 128 := by
    intro c hc
    have hlt := (hchar c hc).1
    rw [Python.toNat_toLower] at hlt
    split at hlt <;> omega
  calc py.stripLower a = py.lower (strip (sqlTrim a)) := by rw [Python.stripLower, strip_sqlTrim]
    _ = py.lower (sqlTrim a) := by rw [strip_of_not_isSpace fun c hc => (hchar c hc).2]
    _ = sqlLower (sqlTrim a) := hpy _ hascii

theorem readAlike_of_reserved (hpy : py.LowersAscii)
    (h : sqlLower (sqlTrim a) ∈ ["", "any", "internal", "external"]) :
    sqlLower (sqlTrim a) = py.stripLower a := by
  have hwords : (["", "any", "internal", "external"].all fun w =>
      w.toList.all fun c => decide (c.toNat < 128) && !isSpace c) = true := by decide
  refine (stripLower_of_sqlLower hpy fun c hc => ?_).symm
  simpa using List.all_eq_true.mp (List.all_eq_true.mp hwords _ h) c hc

variable {worker : Option String}

theorem offeredTo_eq_true_iff {agent : Option String} :
    offeredTo py (workerName worker) agent = true ↔ ∀ a, agent = some a →
      sqlLower (sqlTrim a) = "" ∨ sqlLower (sqlTrim a) = "any" ∨
        sqlLower (sqlTrim a) = py.lower (workerName worker) ∨
        internalWorker py worker = true ∧ sqlLower (sqlTrim a) = "internal" ∨
        internalWorker py worker = false ∧ sqlLower (sqlTrim a) = "external" := by
  cases agent with
  | none => simp [offeredTo]
  | some a =>
    simp only [offeredTo, internalWorker, Option.some.injEq, forall_eq', Bool.or_eq_true,
      Bool.and_eq_true, decide_eq_true_eq, Bool.not_eq_true', or_assoc, sqlLower_eq_empty_iff]

theorem ReadAlike.offeredTo_iff {agent : Option String} (h : ReadAlike py agent) :
    offeredTo py (workerName worker) agent = true ↔ AddressedTo py worker agent := by
  rw [offeredTo_eq_true_iff, AddressedTo]
  refine forall₂_congr fun a ha => ?_
  rw [h a ha]

theorem lower_workerName_some (hne : strip a ≠ "") :
    py.lower (workerName (some a)) = py.stripLower a := by
  have ha : a ≠ "" := by
    rintro rfl
    exact hne (by decide)
  simp [workerName, Option.filter, ha, hne, Python.stripLower]

theorem addressedTo_self (hpy : py.LowersAscii) : AddressedTo py (some a) (some a) := by
  rintro b ⟨⟩
  by_cases hne : strip a = ""
  · left
    rw [Python.stripLower, hne, hpy "" (by simp)]
    rfl
  · exact .inr (.inr (.inl (lower_workerName_some hne).symm))

theorem offeredTo_self_iff (hpy : py.LowersAscii) :
    offeredTo py (workerName (some a)) (some a) = true ↔ ReadAlike py (some a) := by
  refine ⟨fun h => ?_, fun h => h.offeredTo_iff.mpr (addressedTo_self hpy)⟩
  rintro b ⟨⟩
  obtain h | h | h | ⟨-, h⟩ | ⟨-, h⟩ := offeredTo_eq_true_iff.mp h a rfl
  · exact readAlike_of_reserved hpy (by simp [h])
  · exact readAlike_of_reserved hpy (by simp [h])
  · by_cases hne : strip a = ""
    · -- a blank name makes an external worker
      have hname : workerName (some a) = "external" := by
        by_cases ha : a = ""
        · subst ha
          decide
        · simp [workerName, Option.filter, ha, hne]
      have hlower : py.lower "external" = "external" := hpy _ (by simp)
      refine readAlike_of_reserved hpy ?_
      rw [h, hname, hlower]
      decide
    · rw [h, lower_workerName_some hne]
  · exact readAlike_of_reserved hpy (by simp [h])
  · exact readAlike_of_reserved hpy (by simp [h])

variable {now : Stamp} {row : TaskRow}

theorem claimable_iff_of_ready (h : Ready now row) (name : String) :
    claimable py now name row = true ↔ offeredTo py name row.agent = true := by
  obtain ⟨hstatus, happroval, hattempts, hdue⟩ := h
  have happ : (!row.approvalRequired || row.approved) = true := by
    cases hreq : row.approvalRequired
    · rfl
    · simpa using happroval hreq
  simp only [claimable, Bool.and_eq_true, Bool.or_eq_true, decide_eq_true_eq, hstatus, happ,
    hattempts, true_and]
  cases hrun : row.runAfter with
  | none => simp
  | some due => simp [hdue due hrun]

/-- **Agent affinity**: a task is offered exactly to its workers if and only if the query and the
interpreter read its agent name alike. -/
theorem claimable_iff_addressedTo (hpy : py.LowersAscii) (hready : Ready now row) :
    ((∀ worker, claimable py now (workerName worker) row = true ↔
        AddressedTo py worker row.agent) ↔ ReadAlike py row.agent) ∧
      ∀ a, row.agent = some a →
        (claimable py now (workerName (some a)) row = true ↔ ReadAlike py row.agent) := by
  have hself : ∀ a, row.agent = some a →
      (claimable py now (workerName (some a)) row = true ↔ ReadAlike py row.agent) := by
    intro a ha
    rw [claimable_iff_of_ready hready, ha, offeredTo_self_iff hpy]
  refine ⟨⟨fun h a ha => ?_, fun h worker => ?_⟩, hself⟩
  · -- the worker of that name decides
    have haddressed : AddressedTo py (some a) row.agent := by
      rw [ha]
      exact addressedTo_self hpy
    exact (hself a ha).mp ((h (some a)).mpr haddressed) a ha
  · rw [claimable_iff_of_ready hready, h.offeredTo_iff]

/-! ### Names with blanks and tabs -/

def taskFor (agent : String) : TaskRow :=
  newRow .default .noon "t1"
    { title := "find", project := none, agent := some agent, priority := 0, payload := none
      runAfter := none, maxAttempts := none } "2025-01-01T12:00:00Z"

theorem ready_taskFor (agent : String) : Ready "2025-01-01T12:00:00Z" (taskFor agent) := by
  have hattempts : (taskFor agent).attempts < (taskFor agent).maxAttempts :=
    Nat.zero_lt_one.trans_le (le_max_left 1 _)
  refine ⟨.inl rfl, fun h => Bool.noConfusion h, hattempts, ?_⟩
  rintro due ⟨⟩
  exact le_refl _

theorem claimable_blanks_and_capitals :
    claimable .ascii "2025-01-01T12:00:00Z" (workerName (some " Bot ")) (taskFor " Bot ") =
      true := by
  refine ((claimable_iff_addressedTo Python.lowersAscii_ascii (ready_taskFor _)).2 _ rfl).mpr ?_
  rintro a ⟨⟩
  decide

/-- A tab before the name does: the task is addressed to the worker of that name, who cannot claim
it. -/
theorem tabbed_agent_not_offered :
    Ready "2025-01-01T12:00:00Z" (taskFor "\tbot") ∧
      AddressedTo .ascii (some "\tbot") (taskFor "\tbot").agent ∧
      claimable .ascii "2025-01-01T12:00:00Z" (workerName (some "\tbot")) (taskFor "\tbot") =
        false :=
  ⟨ready_taskFor _, addressedTo_self Python.lowersAscii_ascii, by decide⟩

end ContextLattice
