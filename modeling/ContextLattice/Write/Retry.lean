import ContextLattice.Write.System

/-!
# Retrying a failed write

The suppression maps record a write before the steps that can fail, so a request that ends in an
error leaves its marks behind.
-/

namespace ContextLattice

open Foundation

def WriteOp.isReceive : WriteOp → Bool
  | .receive .. => true
  | _ => false

variable {env : WriteEnv} {s : WriteState} {op : WriteOp} {rid : ℕ}

theorem maps_step (hop : op.isReceive = false) : (writeStep env s op).maps = s.maps := by
  have hworker (h : op.isWorker = true) := sameHandlers_of_isWorker env s h
  cases op with
  | receive => cases hop
  | rawStored rid clk mongo gate =>
    simp only [writeStep, rawStoredWrite, admitWrite]
    repeat' split
    all_goals rfl
  | seeded rid clk gate =>
    simp only [writeStep, seededWrite]
    repeat' split
    all_goals rfl
  | finish rid gate counts =>
    simp only [writeStep, finishWrite]
    repeat' split
    all_goals rfl
  | flush => rfl
  | take | store | publish | fail => exact (hworker rfl).maps
  | fanout => rfl

theorem maps_run {ops : List WriteOp} (hops : ∀ op ∈ ops, op.isReceive = false) :
    (run (writeStep env) s ops).maps = s.maps :=
  run_invariant_of_mem (P := (WriteState.maps · = s.maps))
    (fun _ op hop h => (maps_step (hops op hop)).trans h) rfl

/-- The request is suppressed, or was: it waits at most for its raw event, and whatever it was
answered was ok. -/
structure SuppressedOk (rid : ℕ) (s : WriteState) : Prop where
  request : ∀ p, s.requests.get? rid = some p →
    (p.stage = .unchanged ∨ p.stage = .seeding) ∧ p.response.latestHashUnchanged = true
  answer : ∀ a, (rid, a) ∈ s.answers → ∃ r, a = .ok r

namespace SuppressedOk

variable {s' : WriteState} {rid' : ℕ}

section

variable (hs : SuppressedOk rid s)

include hs

theorem congr (hrequests : s'.requests = s.requests) (hanswers : s'.answers = s.answers) :
    SuppressedOk rid s' :=
  ⟨by rw [hrequests]; exact hs.request, by rw [hanswers]; exact hs.answer⟩

theorem answered {a : Except HttpError WriteResponse} (h : Answered s rid' a s')
    (ha : rid = rid' → ∃ r, a = .ok r) : SuppressedOk rid s' where
  request := fun p hp => hs.request p (h.get?_of_get? hp)
  answer := by
    intro a' hmem
    rcases h.mem_or hmem with hmem | ⟨hrid, rfl⟩
    · exact hs.answer a' hmem
    · exact ha hrid

theorem goesOn {p : PendingWrite} (h : GoesOn s rid' p s')
    (hp : rid = rid' → (p.stage = .unchanged ∨ p.stage = .seeding) ∧
      p.response.latestHashUnchanged = true) : SuppressedOk rid s' where
  request := by
    intro p' hp'
    rcases h.get?_or hp' with ⟨hrid, rfl⟩ | hp'
    · exact hp hrid
    · exact hs.request p' hp'
  answer := by
    rw [h.answers]
    exact hs.answer

theorem ne_of_stage {p : PendingWrite} (hp : s.requests.get? rid' = some p)
    (hstage : p.stage = .fresh ∨ p.stage = .waiting) : rid ≠ rid' := by
  rintro rfl
  obtain ⟨hwaits, -⟩ := hs.request p hp
  rcases hstage with h | h <;> rw [h] at hwaits <;> simp at hwaits

theorem step (hop : op.isReceive = false) : SuppressedOk rid (writeStep env s op) := by
  cases handlerChange env s op with
  | same hrequests hanswers => exact hs.congr hrequests hanswers
  | rejected | duplicate | received => cases hop
  | admitted h hp hfresh =>
    exact hs.goesOn h fun hrid => absurd hrid (hs.ne_of_stage hp (.inl hfresh))
  | moved h hp hresumes hstage =>
    refine hs.goesOn h fun hrid => ?_
    obtain ⟨-, hunchanged⟩ := hs.request _ (hrid ▸ hp)
    rcases hstage with ⟨-, hseeding⟩ | ⟨-, hchanged, -⟩
    · exact ⟨.inr hseeding, hresumes.response.2.2.trans hunchanged⟩
    · rw [hunchanged] at hchanged
      cases hchanged
  | failed e h hp hstage =>
    exact hs.answered h fun hrid => absurd hrid (hs.ne_of_stage hp hstage)
  | completed h => exact hs.answered h fun _ => ⟨_, rfl⟩

theorem run {ops : List WriteOp} (hops : ∀ op ∈ ops, op.isReceive = false) :
    SuppressedOk rid (Foundation.run (writeStep env) s ops) :=
  run_invariant_of_mem (fun _ op hop hs => hs.step (hops op hop)) hs

end

end SuppressedOk

variable {clk : Clock} {now : ℚ} {requestId : Option String} {drawn : String} {req : MemoryWrite}
  {w : PreparedWrite}

theorem SuppressedOk.receive (hprepare : prepareWrite env.cfg env.lib req = .ok w)
    (hanswers : ∀ a, (rid, a) ∉ s.answers)
    (hverdict : (checkWrite env.cfg now w s.maps).2 ≠ .fresh) :
    SuppressedOk rid (receiveWrite env s rid clk now requestId drawn req) := by
  simp only [receiveWrite, hprepare]
  split
  · refine ⟨fun p hp => ?_, fun a h => ?_⟩
    · simp [WriteState.answer] at hp
    · rcases List.mem_append.mp h with h | h
      · exact absurd h (hanswers a)
      · exact ⟨_, (Prod.mk.inj (List.mem_singleton.mp h)).2⟩
  · refine ⟨fun p hp => ?_, fun a h => absurd h (hanswers a)⟩
    rw [WriteState.setRequest, Dict.get?_set] at hp
    cases hp
    exact ⟨.inl rfl, rfl⟩
  · exact absurd ‹_› hverdict

/-- **Failed requests leave their marks**, unless both tests are switched off for them. -/
theorem failed_unmarked_iff {ops : List WriteOp} {err : HttpError}
    (hprepare : prepareWrite env.cfg env.lib req = .ok w)
    (htimes : ∀ p ∈ s.maps.seen.rows, p.2 ≤ now) (hanswers : ∀ a, (rid, a) ∉ s.answers)
    (hops : ∀ op ∈ ops, op.isReceive = false)
    (herror : (rid, .error err) ∈ (run (writeStep env) s
      (.receive rid clk now requestId drawn req :: ops)).answers) :
    let s' := run (writeStep env) s (.receive rid clk now requestId drawn req :: ops)
    (s'.maps = s.maps ∧ ∀ later, (checkWrite env.cfg later w s'.maps).2 = .fresh) ↔
      dedupeActive env.cfg = false ∧
        (w.hot = true → env.cfg.memoryWriteLatestHashDedupEnabled = false) := by
  intro s'
  have hverdict : (checkWrite env.cfg now w s.maps).2 = .fresh := by
    by_contra hne
    obtain ⟨r, hr⟩ := ((SuppressedOk.receive hprepare hanswers hne).run hops).answer _ herror
    cases hr
  have hmaps : s'.maps = (checkWrite env.cfg now w s.maps).1 := by
    refine (maps_run hops).trans ?_
    simp only [writeStep, receiveWrite, hprepare]
    split <;> rfl
  rw [hmaps]
  refine ⟨fun h => (checkWrite_maps_eq_iff htimes hverdict).mp h.1, fun h => ⟨?_, fun later => ?_⟩⟩
  · exact (checkWrite_maps_eq_iff htimes hverdict).mpr h
  · rw [checkWrite_of_off h.1 h.2]

/-! ### A request that fails and comes again -/

def WriteEnv.sync (dedup : Bool) : WriteEnv :=
  ⟨{ WriteConfig.default with memoryWriteAsync := false, memoryWriteDedupEnabled := dedup },
    .default, .plain⟩

def failingOps (rid : ℕ) : List WriteOp :=
  [.rawStored rid .noon none {}, .take 0, .fail 0 "timeout",
    .finish rid {} {}]

theorem failed_unmarked_iff_off :
    let s' := run (writeStep (.sync false)) .empty (.receive 1 .noon 0
      none "e1" ⟨"docs", "a.md", "one", none⟩ :: failingOps 1)
    (1, .error ⟨502, "Memory write failed: timeout"⟩) ∈ s'.answers ∧
      s'.maps = WriteState.empty.maps := by
  have hprepare : prepareWrite (WriteEnv.sync false).cfg (WriteEnv.sync false).lib
      ⟨"docs", "a.md", "one", none⟩ = .ok ⟨"docs", "a.md", "one", "one", none, false, "root",
        ["root"], "one"⟩ := by decide +kernel
  have herror : (1, .error ⟨502, "Memory write failed: timeout"⟩) ∈
      (run (writeStep (.sync false)) .empty (.receive 1 .noon 0 none
        "e1" ⟨"docs", "a.md", "one", none⟩ :: failingOps 1)).answers := by decide +kernel
  have hiff := failed_unmarked_iff hprepare (by decide) (by simp [WriteState.empty]) (by decide)
    herror
  exact ⟨herror, (hiff.mpr ⟨rfl, by decide⟩).1⟩

def WriteEnv.narrow : WriteEnv :=
  ⟨{ WriteConfig.default with memoryBankQueueMax := 1 }, .default, .plain⟩

def refusedAndRetried : List WriteOp :=
  requestOps 1 0 "e1" "a.md" "one" ++ requestOps 2 1 "e2" "b.md" "two" ++ workerOps 0 ++
    requestOps 3 2 "e3" "b.md" "two" ++ workerOps 0

def failedAndRetried : List WriteOp :=
  .receive 1 .noon 0 none "e1" ⟨"docs", "b.md", "two", none⟩ ::
    failingOps 1 ++ requestOps 2 1 "e2" "b.md" "two" ++ workerOps 0

def dedupedRequests (s : WriteState) : List ℕ :=
  s.answers.filterMap fun a => match a.2 with
    | .ok r => if r.deduped then some a.1 else none
    | .error _ => none

/-- In both cases the second attempt is answered ok as a duplicate, and the file is not in the
memory bank. -/
theorem failed_then_suppressed :
    let s := run (writeStep .narrow) .empty refusedAndRetried
    let s' := run (writeStep (.sync true)) .empty failedAndRetried
    ((2, .error ⟨503, "memory write queue full"⟩) ∈ s.answers ∧ dedupedRequests s = [3] ∧
        Dict.get? s.bank ("docs", "b.md") = none) ∧
      (1, .error ⟨502, "Memory write failed: timeout"⟩) ∈ s'.answers ∧ dedupedRequests s' = [2] ∧
        Dict.get? s'.bank ("docs", "b.md") = none := by
  decide +kernel

end ContextLattice
