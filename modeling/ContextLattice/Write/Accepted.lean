import ContextLattice.Write.System

/-!
# What becomes of an accepted write

A write that is answered ok, and not as a duplicate, is in the queue or in the rollup buffer. The
one step that drops it is an error of the memory-bank call, which the worker only logs.
-/

namespace ContextLattice

open Foundation List

/-! ### Where a write can be -/

def InHand (e : String) (s : WriteState) : Prop :=
  ∃ w job, s.held.get? w = some job ∧ e ∈ job.item.carries

def Stored (e : String) (s : WriteState) : Prop := ∃ item ∈ s.stored, e ∈ item.carries

def FanoutEvent.Carries (event : FanoutEvent FanoutRest) (e : String) : Prop :=
  match event.rest.payload.content with
  | some (.text _) => event.eventId = e
  | some (.rollup r) => e ∈ r.events
  | none => False

def InOutbox (e : String) (s : WriteState) : Prop :=
  ∀ target ∈ [FanoutTarget.qdrant, .mindsdb],
    ∃ r ∈ s.outbox.outbox.rows, r.target = target ∧ r.payload.Carries e

def OnTheWay (e : String) (s : WriteState) : Prop :=
  (Buffered e s.rollups ∨ Queued e s.queue) ∨ InHand e s ∨ Stored e s

/-- The write is queued for the memory bank (buffered, queued or held), or it was stored, or the
outbox has it. -/
def Kept (e : String) (s : WriteState) : Prop := OnTheWay e s ∨ InOutbox e s

def CallsSucceed (e : String) (s : WriteState) : WriteOp → Prop
  | .fail worker _ => ∀ job ∈ s.held.get? worker, e ∈ job.item.carries → job.stored = true
  | _ => True

instance (e : String) (s : WriteState) : ∀ op, Decidable (CallsSucceed e s op)
  | .fail worker _ => inferInstanceAs
    (Decidable (∀ job ∈ s.held.get? worker, e ∈ job.item.carries → job.stored = true))
  | .receive .. | .rawStored .. | .seeded .. | .finish .. | .flush .. | .take .. | .store ..
  | .publish .. | .fanout .. => inferInstanceAs (Decidable True)

def JobsStored (s : WriteState) : Prop :=
  ∀ w job, s.held.get? w = some job → job.stored = true → job.item ∈ s.stored

variable {env : WriteEnv} {s : WriteState} {op : WriteOp} {e : String}

theorem Queued.foldl_put {q : BankQueue} (h : Queued e q) (items : List BankItem) :
    Queued e (items.foldl BankQueue.put q) := by
  induction items generalizing q with
  | nil => exact h
  | cons i items ih => exact ih (h.put i)

theorem JobsStored.step (hs : JobsStored s) : JobsStored (writeStep env s op) := by
  have h := bankChange env s op
  generalize writeStep env s op = s' at h
  cases h with
  | puts items hqueue hheld hbank hstored => simpa [JobsStored, hheld, hstored] using hs
  | taken =>
    intro w job h hjob
    rcases Dict.get?_set_eq_some.mp h with ⟨-, rfl⟩ | ⟨-, h⟩
    · cases hjob
    · exact hs w job h hjob
  | stored =>
    intro w job h hjob
    rcases Dict.get?_set_eq_some.mp h with ⟨-, rfl⟩ | ⟨-, h⟩
    · simp
    · exact mem_append_left _ (hs w job h hjob)
  | published | failed =>
    exact fun w job h hjob => hs w job (Dict.get?_erase_eq_some.mp h).2 hjob

theorem Buffered.enqueue {entries : Dict String RollupEntry} (h : Buffered e entries) (clk : Clock)
    (hot : HotWrite) : Buffered e (enqueueHotMemoryRollup clk hot entries) := by
  obtain ⟨⟨key, entry⟩, hp, he⟩ := h
  have hget := Dict.get?_eq_some.mpr hp
  unfold enqueueHotMemoryRollup
  by_cases hkey : key = fileKey hot.write.project hot.write.file
  · refine ⟨_, Dict.get?_eq_some.mp (Dict.get?_set ..), ?_⟩
    rw [← hkey, hget, Option.getD_some]
    exact mem_append_left _ he
  · exact ⟨(key, entry), Dict.get?_eq_some.mp (by rw [Dict.get?_set_of_ne hkey, hget]), he⟩

theorem buffered_step (h : Buffered e s.rollups) :
    Buffered e (writeStep env s op).rollups ∨ Queued e (writeStep env s op).queue := by
  have hworker (h : op.isWorker = true) := sameHandlers_of_isWorker env s h
  have hhandler (h : op.isHandler = true) := handler_cases env s h
  cases op with
  | receive | rawStored | seeded | finish =>
    refine .inl ?_
    rcases hhandler rfl with ⟨hcore, -⟩ | ⟨rid, p, clk, mongo, gate, -, -, heq⟩
    · rwa [hcore.rollups]
    · rw [heq, admitWrite]
      repeat' split
      all_goals first | exact h | exact h.enqueue ..
  | flush clk now force drawn => exact kept_flush (.inl h)
  | take | store | publish | fail =>
    refine .inl ?_
    rw [(hworker rfl).rollups]
    exact h
  | fanout op => exact .inl h

theorem OnTheWay.step (h : OnTheWay e s) (hjobs : JobsStored s) (hop : CallsSucceed e s op) :
    OnTheWay e (writeStep env s op) := by
  rcases h with (h | h) | h
  · exact .inl (buffered_step h)
  all_goals
    have hchange := bankChange env s op
    generalize writeStep env s op = s' at hchange
  · -- in the queue: only a worker with nothing in hand takes it out
    obtain ⟨item, hitem, he⟩ := h
    cases hchange with
    | puts items hqueue =>
      refine .inl (.inr ?_)
      rw [hqueue]
      exact Queued.foldl_put ⟨item, hitem, he⟩ items
    | taken hidle hqueue =>
      rename_i worker first rest
      rw [hqueue] at hitem
      rcases mem_cons.mp hitem with rfl | hitem
      · exact .inr (.inl ⟨worker, ⟨item, false⟩, Dict.get?_set .., he⟩)
      · exact .inl (.inr ⟨item, by simpa [hqueue] using hitem, he⟩)
    | stored | published | failed => exact .inl (.inr ⟨item, hitem, he⟩)
  · refine .inr ?_
    rcases h with ⟨w, job, hget, he⟩ | ⟨item, hitem, he⟩
    · -- in the hands of a worker, which either keeps it or has had it stored
      cases hchange with
      | puts items hqueue hheld => exact .inl ⟨w, job, by rw [hheld, hget], he⟩
      | taken hidle hqueue =>
        refine .inl ⟨w, job, ?_, he⟩
        rw [Dict.get?_set_of_ne, hget]
        rintro rfl
        rw [hidle] at hget
        cases hget
      | stored hheld =>
        rename_i worker item
        by_cases heq : w = worker
        · rw [heq, hheld] at hget
          cases hget
          exact .inr ⟨item, by simp, he⟩
        · exact .inl ⟨w, job, by rw [Dict.get?_set_of_ne heq, hget], he⟩
      | published ob hheld =>
        rename_i worker clk drawn gate item
        by_cases heq : w = worker
        · rw [heq, hheld] at hget
          cases hget
          exact .inr ⟨item, hjobs worker _ hheld rfl, he⟩
        · exact .inl ⟨w, job, (Dict.get?_erase_of_ne heq).trans hget, he⟩
      | failed hheld =>
        rename_i worker error _
        by_cases heq : w = worker
        · -- the error came after the memory-bank call, so the item is there
          rw [heq, hheld] at hget
          cases hget
          exact .inr ⟨job.item, hjobs worker job hheld (hop job hheld he), he⟩
        · exact .inl ⟨w, job, (Dict.get?_erase_of_ne heq).trans hget, he⟩
    · cases hchange with
      | puts items hqueue hheld hbank hstored => exact .inr ⟨item, by rw [hstored]; exact hitem, he⟩
      | stored => exact .inr ⟨item, mem_append_left _ hitem, he⟩
      | taken | published | failed => exact .inr ⟨item, hitem, he⟩

/-! ### Requests and answers -/

def PendingWrite.Accepted (p : PendingWrite) : Prop :=
  p.response.deduped = false ∧ p.stage ≠ .unchanged ∧ p.stage ≠ .fresh

structure PendingWrite.Coherent (p : PendingWrite) : Prop where
  eventId : p.response.eventId = p.eventId
  unchanged : p.stage = .unchanged → p.response.deduped = true
  deduped : p.response.latestHashUnchanged = true → p.response.deduped = true

structure AcceptedOnTheWay (e : String) (s : WriteState) : Prop where
  jobs : JobsStored s
  coherent : ∀ rid p, s.requests.get? rid = some p → p.Coherent
  request : ∀ rid p, s.requests.get? rid = some p → p.Accepted → p.eventId = e → OnTheWay e s
  answer : ∀ rid r, (rid, .ok r) ∈ s.answers → r.deduped = false → r.eventId = e → OnTheWay e s

variable {rid : ℕ} {p : PendingWrite}

theorem AcceptedOnTheWay.empty : AcceptedOnTheWay e .empty where
  jobs := fun _ _ h => by cases h
  coherent := fun _ _ h => by cases h
  request := fun _ _ h => by cases h
  answer := fun _ _ h => (not_mem_nil h).elim

variable {s' : WriteState}

section

variable (hs : AcceptedOnTheWay e s) (hjobs : JobsStored s')

include hs hjobs

theorem AcceptedOnTheWay.goesOn (hway : OnTheWay e s → OnTheWay e s') (h : GoesOn s rid p s')
    (hp : p.Coherent) (haccepted : p.Accepted → p.eventId = e → OnTheWay e s') :
    AcceptedOnTheWay e s' where
  jobs := hjobs
  coherent := by
    intro rid' p' hp'
    rcases h.get?_or hp' with ⟨-, rfl⟩ | hp'
    · exact hp
    · exact hs.coherent rid' p' hp'
  request := by
    intro rid' p' hp'
    rcases h.get?_or hp' with ⟨-, rfl⟩ | hp'
    · exact haccepted
    · exact fun haccepted' he => hway (hs.request rid' p' hp' haccepted' he)
  answer := by
    rw [h.answers]
    exact fun rid' r hr hdeduped he => hway (hs.answer rid' r hr hdeduped he)

theorem AcceptedOnTheWay.answered {a : Except HttpError WriteResponse}
    (hway : OnTheWay e s → OnTheWay e s') (h : Answered s rid a s')
    (ha : ∀ r, a = .ok r → r.deduped = false → r.eventId = e → OnTheWay e s') :
    AcceptedOnTheWay e s' where
  jobs := hjobs
  coherent := fun rid' p' hp' => hs.coherent rid' p' (h.get?_of_get? hp')
  request := fun rid' p' hp' haccepted he =>
    hway (hs.request rid' p' (h.get?_of_get? hp') haccepted he)
  answer := by
    intro rid' r hr
    rcases h.mem_or hr with hr | ⟨-, hr⟩
    · exact fun hdeduped he => hway (hs.answer rid' r hr hdeduped he)
    · exact ha r hr.symm

theorem AcceptedOnTheWay.mono (hrequests : s'.requests = s.requests)
    (hanswers : s'.answers = s.answers) (hway : OnTheWay e s → OnTheWay e s') :
    AcceptedOnTheWay e s' where
  jobs := hjobs
  coherent := by rw [hrequests]; exact hs.coherent
  request := by
    rw [hrequests]
    exact fun rid p h haccepted he => hway (hs.request rid p h haccepted he)
  answer := by
    rw [hanswers]
    exact fun rid r h hr he => hway (hs.answer rid r h hr he)

end

theorem PendingWrite.Coherent.received {drawn : String} (hid : p.eventId = drawn)
    (hstage : p.stage = .unchanged ∧ p.response = unchangedResponse p.write drawn ∨
      p.stage = .fresh ∧ p.response = freshResponse env p.write drawn) : p.Coherent := by
  rcases hstage with ⟨hstage, hresponse⟩ | ⟨hstage, hresponse⟩
  · constructor <;> simp [hresponse, hid, unchangedResponse]
  · constructor <;> simp [hresponse, hid, hstage, freshResponse]

theorem PendingWrite.Coherent.resumes {p' : PendingWrite} (hp : p.Coherent) (h : p'.Resumes p)
    (hstage : p'.stage ≠ .unchanged) : p'.Coherent where
  eventId := by rw [h.response.1, h.eventId, hp.eventId]
  unchanged := fun h' => absurd h' hstage
  deduped := by
    rw [h.response.2.1, h.response.2.2]
    exact hp.deduped

theorem AcceptedOnTheWay.step (hs : AcceptedOnTheWay e s) (hop : CallsSucceed e s op) :
    AcceptedOnTheWay e (writeStep env s op) := by
  have hjobs : JobsStored (writeStep env s op) := hs.jobs.step
  have hway : OnTheWay e s → OnTheWay e (writeStep env s op) := fun h => h.step hs.jobs hop
  cases handlerChange env s op with
  | same hrequests hanswers => exact hs.mono hjobs hrequests hanswers hway
  | rejected _ h | failed _ h => exact hs.answered hjobs hway h fun r hr => by cases hr
  | duplicate w h =>
    refine hs.answered hjobs hway h ?_
    rintro _ ⟨⟩ hdeduped
    cases hdeduped
  | received h _ hid _ hstage =>
    -- what has not been handed over yet is not accepted
    refine hs.goesOn hjobs hway h (.received hid hstage) fun haccepted => ?_
    rcases hstage with ⟨hstage, -⟩ | ⟨hstage, -⟩
    · exact absurd hstage haccepted.2.1
    · exact absurd hstage haccepted.2.2
  | admitted h hp _ hresumes hstage hplaced =>
    refine hs.goesOn hjobs hway h ((hs.coherent _ _ hp).resumes hresumes hstage.1) ?_
    -- what was buffered or queued carries the event id of the answer
    rintro - he
    rw [hresumes.eventId] at he
    subst he
    rcases hplaced with hrollups | hqueue
    · refine .inl (.inl ?_)
      rw [hrollups]
      exact ⟨_, Dict.get?_eq_some.mp (Dict.get?_set ..), mem_append_right _ mem_cons_self⟩
    · refine .inl (.inr ?_)
      rw [hqueue]
      exact .put_self (by simp [BankItem.carries, writeItem])
  | moved h hp hresumes hstage =>
    have hcoherent := hs.coherent _ _ hp
    rcases hstage with ⟨hunchanged, hseeding⟩ | ⟨hseeding, -, hlater⟩
    · -- a write of an unchanged file is a suppressed one
      refine hs.goesOn hjobs hway h (hcoherent.resumes hresumes (by simp [hseeding])) ?_
      rintro ⟨hdeduped, -⟩
      rw [hresumes.response.2.1, hcoherent.unchanged hunchanged] at hdeduped
      cases hdeduped
    · refine hs.goesOn hjobs hway h (hcoherent.resumes hresumes hlater.1) ?_
      rintro ⟨hdeduped, -⟩ he
      rw [hresumes.response.2.1] at hdeduped
      rw [hresumes.eventId] at he
      exact hway (hs.request _ _ hp ⟨hdeduped, by simp [hseeding]⟩ he)
  | completed h hp hstage hkind =>
    have hcoherent := hs.coherent _ _ hp
    refine hs.answered hjobs hway h ?_
    rintro _ ⟨⟩ hdeduped he
    rw [hkind.2.1] at hdeduped
    rw [hkind.1, hcoherent.eventId] at he
    refine hway (hs.request _ _ hp ⟨hdeduped, fun hunchanged => ?_, hstage⟩ he)
    rw [hcoherent.unchanged hunchanged] at hdeduped
    cases hdeduped

/-- **Accepted writes are kept** in every run in which no memory-bank call fails for them. -/
theorem accepted_kept {ops : List WriteOp} {r : WriteResponse}
    (hops : Along (writeStep env) (CallsSucceed r.eventId) .empty ops)
    (hanswer : (rid, .ok r) ∈ (run (writeStep env) .empty ops).answers)
    (hfresh : r.deduped = false) : Kept r.eventId (run (writeStep env) .empty ops) := by
  have hs : AcceptedOnTheWay r.eventId (run (writeStep env) .empty ops) :=
    Along.invariant (fun _ _ hs hop => hs.step hop) .empty hops
  exact .inl (hs.answer rid r hanswer hfresh rfl)

/-! ### A call that fails -/

def queuedResponse (eventId : String) : WriteResponse where
  eventId := eventId
  warnings := []
  fanout := ⟨"queued", "succeeded", "pending", "pending", "disabled", "pending"⟩

theorem accepted_kept_stored :
    let s := run (writeStep .plain) .empty (requestOps 1 0 "e1" "a.md" "one" ++ workerOps 0)
    (1, .ok (queuedResponse "e1")) ∈ s.answers ∧ Kept "e1" s := by
  have hrun : (1, .ok (queuedResponse "e1")) ∈ (run (writeStep .plain) .empty
      (requestOps 1 0 "e1" "a.md" "one" ++ workerOps 0)).answers ∧
      Along (writeStep .plain) (CallsSucceed "e1") .empty
        (requestOps 1 0 "e1" "a.md" "one" ++ workerOps 0) := by
    decide +kernel
  exact ⟨hrun.1, accepted_kept hrun.2 hrun.1 rfl⟩

private theorem not_kept_of_empty {e : String} {s : WriteState} (hrollups : s.rollups.rows = [])
    (hqueue : s.queue.items = []) (hheld : s.held.rows = []) (hstored : s.stored = [])
    (hrows : s.outbox.outbox.rows = []) : ¬ Kept e s := by
  rintro (((⟨p, hp, -⟩ | ⟨i, hi, -⟩) | ⟨w, job, hget, -⟩ | ⟨i, hi, -⟩) | h)
  · simp [hrollups] at hp
  · simp [hqueue] at hi
  · simpa [hheld] using Dict.get?_eq_some.mp hget
  · simp [hstored] at hi
  · obtain ⟨r, hr, -⟩ := h .qdrant (by simp)
    simp [hrows] at hr

def failedCall : List WriteOp :=
  requestOps 1 0 "e1" "a.md" "one" ++ [.take 0, .fail 0 "timeout"]

/-- The write was answered ok; after the failed call it is nowhere. -/
theorem dropped_by_failure :
    let s := run (writeStep .plain) .empty failedCall
    (1, .ok (queuedResponse "e1")) ∈ s.answers ∧ (queuedResponse "e1").deduped = false ∧
      ¬ Kept "e1" s := by
  intro s
  have hs : (1, .ok (queuedResponse "e1")) ∈ s.answers ∧ s.rollups.rows.length = 0 ∧
      s.queue.items.length = 0 ∧ s.held.rows.length = 0 ∧ s.stored.length = 0 ∧
      s.outbox.outbox.rows.length = 0 := by
    decide +kernel
  obtain ⟨hanswer, hrollups, hqueue, hheld, hstored, hrows⟩ := hs
  refine ⟨hanswer, rfl, not_kept_of_empty ?_ ?_ ?_ ?_ ?_⟩
  · exact eq_nil_of_length_eq_zero hrollups
  · exact eq_nil_of_length_eq_zero hqueue
  · exact eq_nil_of_length_eq_zero hheld
  · exact eq_nil_of_length_eq_zero hstored
  · exact eq_nil_of_length_eq_zero hrows

end ContextLattice
