import ContextLattice.Write.System

/-!
# The memory-bank workers and their waiters

In synchronous mode a request waits through a future, its **waiter**. `set_result` and
`set_exception` raise if the waiter is done, and an exception in the error branch ends the worker.
-/

namespace ContextLattice

open Foundation List

/-! ### The pool -/

structure PoolState where
  write : WriteState
  live : List ℕ
  cancelled : List ℕ
  seen : List ℕ
  processed : ℕ

inductive PoolOp where
  | path (op : WriteOp)
  | cancel (rid : ℕ)

def WriteOp.worker? : WriteOp → Option ℕ
  | .take worker | .store worker | .publish worker .. | .fail worker _ => some worker
  | .receive .. | .rawStored .. | .seeded .. | .finish .. | .flush .. | .fanout _ => none

def WriteOp.request? : WriteOp → Option ℕ
  | .receive rid .. => some rid
  | _ => none

def WriteState.finishes (s : WriteState) : WriteOp → Option (ℕ × BankItem)
  | .publish worker .. => match s.held.get? worker with
    | some ⟨item, true⟩ => some (worker, item)
    | _ => none
  | .fail worker _ => (s.held.get? worker).map fun job => (worker, job.item)
  | _ => none

namespace PoolState

def start (workers : List ℕ) : PoolState := ⟨.empty, workers, [], [], 0⟩

def done (s : PoolState) (rid : ℕ) : Bool :=
  decide (rid ∈ s.cancelled) || (s.write.waiters.get? rid).isSome

def cancel (s : PoolState) (rid : ℕ) : PoolState :=
  match s.write.requests.get? rid with
  | none => s
  | some p =>
    { s with
      write := { s.write with requests := s.write.requests.erase rid }
      cancelled := if p.stage = .waiting && !s.done rid then rid :: s.cancelled
        else s.cancelled }

def finish (s : PoolState) (worker : ℕ) (item : BankItem) (write' : WriteState) : PoolState :=
  if item.waiter.any s.done then
    { s with
      write := { write' with waiters := s.write.waiters }
      live := s.live.filter (· ≠ worker)
      processed := s.processed + 1 }
  else { s with write := write', processed := s.processed + 1 }

end PoolState

def poolStep (env : WriteEnv) (s : PoolState) : PoolOp → PoolState
  | .cancel rid => s.cancel rid
  | .path op =>
    if op.worker?.any (· ∉ s.live) || op.request?.any (· ∈ s.seen) then s
    else match s.write.finishes op with
      | some (worker, item) => s.finish worker item (writeStep env s.write op)
      | none =>
        { s with write := writeStep env s.write op, seen := op.request?.toList ++ s.seen }

/-! ### Who has which waiter -/

def WriteState.flying (s : WriteState) : List ℕ :=
  s.queue.items.filterMap BankItem.waiter ++ s.held.rows.filterMap fun p => p.2.item.waiter

structure Custody (s : PoolState) : Prop where
  nodup : s.write.flying.Nodup
  pending : ∀ rid ∈ s.write.flying, s.write.waiters.get? rid = none ∧ rid ∈ s.seen
  resolved : ∀ rid, s.write.waiters.get? rid ≠ none → rid ∈ s.seen
  requests : ∀ rid p, s.write.requests.get? rid = some p → rid ∈ s.seen
  fresh : ∀ rid p, s.write.requests.get? rid = some p → p.stage = .fresh →
    rid ∉ s.write.flying ∧ s.write.waiters.get? rid = none

variable {env : WriteEnv} {s : WriteState}

theorem waiters_put (q : BankQueue) (item : BankItem) :
    (q.put item).items.filterMap BankItem.waiter =
      q.items.filterMap BankItem.waiter ++ item.waiter.toList := by
  have hnumbered : (item.numbered q.next).waiter = item.waiter := rfl
  cases h : item.waiter <;> simp [hnumbered, h]

theorem waiters_flush (cfg : WriteConfig) (lib : WriteLib) (clk : Clock) (now : ℚ) (force : Bool)
    (drawn : String → String) (entries : Dict String RollupEntry) (q : BankQueue) :
    (flushHotMemoryRollups cfg lib clk now force drawn entries q).2.items.filterMap
      BankItem.waiter = q.items.filterMap BankItem.waiter := by
  unfold flushHotMemoryRollups
  dsimp only
  generalize Table.updateWhere entries _ _ _ = entries'
  induction entries.rows.filter (fun p => p.2.due cfg now force) generalizing entries' q with
  | nil => rfl
  | cons p ps ih =>
    rw [foldl_cons]
    obtain ⟨item, hitem, heq⟩ | heq := flushEntry_cases cfg lib clk drawn (entries', q) p
    · have hwaiter : item.waiter = none := by
        unfold rollupItem at hitem
        cases hfile : buildHotMemoryRollupFile cfg lib p.2.file with
        | error e => simp [hfile, bind, Except.bind] at hitem
        | ok file =>
          simp only [hfile, bind, Except.bind] at hitem
          cases hitem
          rfl
      rw [heq, ih, waiters_put, hwaiter]
      simp
    · rw [heq, ih]

theorem flying_admitWrite (s : WriteState) (rid : ℕ) (p : PendingWrite) (clk : Clock)
    (mongo : Option String) (gate : LettaGate) :
    (admitWrite env s rid p clk mongo gate).waiters = s.waiters ∧
      ((admitWrite env s rid p clk mongo gate).flying = s.flying ∨
        (admitWrite env s rid p clk mongo gate).flying.Perm (rid :: s.flying)) ∧
      ∀ p', Dict.get? (admitWrite env s rid p clk mongo gate).requests rid = some p' →
        p'.stage ≠ .fresh := by
  unfold admitWrite
  split
  · split
    · exact ⟨rfl, .inl rfl, by simp [WriteState.answer]⟩
    · refine ⟨rfl, .inl rfl, ?_⟩
      simp only [WriteState.setRequest, Dict.get?_set, Option.some.injEq, forall_eq']
      split <;> simp
  · split
    · exact ⟨rfl, .inl rfl, by simp [WriteState.answer]⟩
    · rename_i q hput
      refine ⟨rfl, ?_, ?_⟩
      · simp only [WriteState.flying, WriteState.setRequest, enqueueMemoryBankWrite_eq_ok hput,
          waiters_put]
        by_cases hasync : env.cfg.memoryWriteAsync = true
        · left
          simp [writeItem, hasync]
        · right
          simp only [writeItem, hasync, Bool.false_eq_true, if_false, Option.toList_some,
            append_assoc, singleton_append]
          exact perm_middle
      · simp only [WriteState.setRequest, Dict.get?_set, Option.some.injEq, forall_eq']
        repeat' split
        all_goals simp

/-- **The waiters under a step of a handler**: none is resolved, and that of a fresh write may have
come in. -/
theorem flying_handler {op : WriteOp} (hop : op.worker? = none) :
    (writeStep env s op).waiters = s.waiters ∧
      ((writeStep env s op).flying = s.flying ∨
        ∃ rid p, s.requests.get? rid = some p ∧ p.stage = .fresh ∧
          (writeStep env s op).flying.Perm (rid :: s.flying) ∧
          ∀ p', Dict.get? (writeStep env s op).requests rid = some p' → p'.stage ≠ .fresh) := by
  have hhandler (h : op.isHandler = true) := handler_cases env s h
  cases op with
  | receive | rawStored | seeded | finish =>
    rcases hhandler rfl with ⟨h, -⟩ | ⟨rid, p, clk, mongo, gate, hp, hfresh, heq⟩
    · exact ⟨h.waiters, .inl (by rw [WriteState.flying, h.queue, h.held, WriteState.flying])⟩
    · rw [heq]
      obtain ⟨hwaiters, hflying, hstage⟩ := @flying_admitWrite env s rid p clk mongo gate
      refine ⟨hwaiters, hflying.imp_right fun hperm => ?_⟩
      exact ⟨rid, p, hp, hfresh, hperm, hstage⟩
  | flush clk now force drawn =>
    refine ⟨rfl, .inl ?_⟩
    simp only [writeStep, WriteState.flying, waiters_flush]
  | fanout op => exact ⟨rfl, .inl rfl⟩
  | take | store | publish | fail => cases hop

/-- **The waiters under a step of a worker.** The step takes or stores an item and moves no waiter
away, or it finishes an item. -/
theorem flying_worker {op : WriteOp} (hfinishes : s.finishes op = none) (hop : op.worker? ≠ none) :
    (writeStep env s op).waiters = s.waiters ∧ (writeStep env s op).flying.Perm s.flying := by
  cases op with
  | take worker =>
    simp only [writeStep, takeItem]
    split
    · rename_i item rest hidle hqueue
      refine ⟨rfl, ?_⟩
      simp only [WriteState.flying, BankQueue.items_tail, hqueue, tail_cons,
        Dict.rows_set_of_get?_eq_none hidle, filterMap_append, filterMap_cons,
        filterMap_nil]
      cases item.waiter with
      | none => simp
      | some rid =>
        simp only [← append_assoc, cons_append]
        exact perm_append_singleton rid _
    · exact ⟨rfl, .refl _⟩
  | store worker =>
    simp only [writeStep, storeItem]
    split
    · rename_i item hheld
      have hsame : (s.held.set worker ⟨item, true⟩).rows.filterMap
          (fun p => p.2.item.waiter) = s.held.rows.filterMap fun p => p.2.item.waiter :=
        Dict.filterMap_rows_set hheld rfl
      refine ⟨rfl, ?_⟩
      simp only [WriteState.flying, hsame, List.Perm.refl]
    · exact ⟨rfl, .refl _⟩
  | publish worker clk drawn gate =>
    simp only [writeStep, publishItem]
    split
    · rename_i item hheld
      simp [WriteState.finishes, hheld] at hfinishes
    · exact ⟨rfl, .refl _⟩
  | fail worker error =>
    simp only [writeStep, failItem]
    split
    · rename_i job hheld
      simp [WriteState.finishes, hheld] at hfinishes
    · exact ⟨rfl, .refl _⟩
  | receive | rawStored | seeded | finish | flush | fanout => exact absurd rfl hop

variable {worker : ℕ}

theorem flying_perm_erase {job : BankJob} (hheld : s.held.get? worker = some job) :
    s.flying.Perm (job.item.waiter.toList ++ (s.queue.items.filterMap BankItem.waiter ++
      (s.held.erase worker).rows.filterMap fun p => p.2.item.waiter)) := by
  have hrows := (Dict.perm_erase hheld).filterMap fun p => p.2.item.waiter
  refine (hrows.append_left _).trans ?_
  rw [filterMap_cons]
  cases job.item.waiter with
  | none => exact .refl _
  | some rid => exact perm_middle

theorem flying_finishes {op : WriteOp} {worker : ℕ} {item : BankItem}
    (h : s.finishes op = some (worker, item)) :
    op.worker? = some worker ∧ Dict.get? (writeStep env s op).held worker = none ∧
      (writeStep env s op).requests = s.requests ∧
      s.flying.Perm (item.waiter.toList ++ (writeStep env s op).flying) ∧
      ∃ error, (writeStep env s op).waiters = match item.waiter with
        | none => s.waiters
        | some rid => s.waiters.set rid error := by
  cases op with
  | publish worker' clk drawn gate =>
    simp only [WriteState.finishes] at h
    split at h
    · rename_i item' hheld
      cases h
      have hperm := flying_perm_erase hheld
      simp only [writeStep, publishItem, hheld]
      exact ⟨rfl, Dict.get?_erase .., rfl, hperm, none, rfl⟩
    · cases h
  | fail worker' error =>
    simp only [WriteState.finishes, Option.map_eq_some_iff] at h
    obtain ⟨job, hheld, h⟩ := h
    cases h
    have hperm := flying_perm_erase hheld
    simp only [writeStep, failItem, hheld]
    exact ⟨rfl, Dict.get?_erase .., rfl, hperm, some error, rfl⟩
  | take | store | receive | rawStored | seeded | finish | flush | fanout => cases h

/-! ### Custody -/

variable {s : PoolState}

theorem Custody.start (workers : List ℕ) : Custody (.start workers) where
  nodup := nodup_nil
  pending := fun rid h => by cases h
  resolved := fun rid h => absurd rfl h
  requests := fun rid p h => by cases h
  fresh := fun rid p h => by cases h

variable {rid : ℕ}

theorem request_of_writeStep (env : WriteEnv) (w : WriteState) (op : WriteOp) {p : PendingWrite}
    (h : Dict.get? (writeStep env w op).requests rid = some p) :
    op.request? = some rid ∨ (∃ p', w.requests.get? rid = some p') ∧
      (p.stage = .fresh → w.requests.get? rid = some p) := by
  cases handlerChange env w op with
  | same hrequests =>
    rw [hrequests] at h
    exact .inr ⟨⟨p, h⟩, fun _ => h⟩
  | rejected e ha => exact .inr ⟨⟨p, ha.get?_of_get? h⟩, fun _ => ha.get?_of_get? h⟩
  | duplicate w' ha => exact .inr ⟨⟨p, ha.get?_of_get? h⟩, fun _ => ha.get?_of_get? h⟩
  | failed e ha => exact .inr ⟨⟨p, ha.get?_of_get? h⟩, fun _ => ha.get?_of_get? h⟩
  | completed ha => exact .inr ⟨⟨p, ha.get?_of_get? h⟩, fun _ => ha.get?_of_get? h⟩
  | received hg =>
    obtain ⟨rfl, -⟩ | hp := hg.get?_or h
    · exact .inl rfl
    · exact .inr ⟨⟨p, hp⟩, fun _ => hp⟩
  | admitted hg hp hfresh hresumes hstage =>
    obtain ⟨rfl, rfl⟩ | hp' := hg.get?_or h
    · exact .inr ⟨⟨_, hp⟩, fun hf => absurd hf hstage.2⟩
    · exact .inr ⟨⟨p, hp'⟩, fun _ => hp'⟩
  | moved hg hp hresumes hstage =>
    obtain ⟨rfl, rfl⟩ | hp' := hg.get?_or h
    · refine .inr ⟨⟨_, hp⟩, fun hf => ?_⟩
      rw [hf] at hstage
      simp at hstage
    · exact .inr ⟨⟨p, hp'⟩, fun _ => hp'⟩

theorem Custody.cancel (hs : Custody s) (rid : ℕ) : Custody (s.cancel rid) := by
  unfold PoolState.cancel
  split
  · exact hs
  · exact
      { nodup := hs.nodup
        pending := hs.pending
        resolved := hs.resolved
        requests := fun rid' p h => hs.requests rid' p (Dict.get?_erase_eq_some.mp h).2
        fresh := fun rid' p h => hs.fresh rid' p (Dict.get?_erase_eq_some.mp h).2 }

variable {op : WriteOp} {item : BankItem}

theorem Custody.finish (hs : Custody s) (h : s.write.finishes op = some (worker, item)) :
    Custody (s.finish worker item (writeStep env s.write op)) := by
  obtain ⟨-, -, hrequests, hperm, error, hwaiters⟩ := @flying_finishes env s.write op _ _ h
  have hnodup := hperm.nodup_iff.mp hs.nodup
  have hsub : ∀ rid ∈ (writeStep env s.write op).flying, rid ∈ s.write.flying := fun rid hrid =>
    hperm.mem_iff.mpr (mem_append_right _ hrid)
  unfold PoolState.finish
  split
  · exact
      { nodup := hnodup.of_append_right
        pending := fun rid hrid => hs.pending rid (hsub rid hrid)
        resolved := hs.resolved
        requests := fun rid p hp => hs.requests rid p (hrequests ▸ hp)
        fresh := fun rid p hp hstage =>
          have hold := hs.fresh rid p (hrequests ▸ hp) hstage
          ⟨fun hrid => hold.1 (hsub rid hrid), hold.2⟩ }
  · -- only the waiter of the item is resolved, and no other item has it
    have hother : ∀ rid, (item.waiter = some rid → False) →
        Dict.get? (writeStep env s.write op).waiters rid = s.write.waiters.get? rid := by
      intro rid hne
      rw [hwaiters]
      cases hwaiter : item.waiter with
      | none => rfl
      | some rid' =>
        have hrid : rid ≠ rid' := fun heq => hne (hwaiter.trans (congrArg some heq.symm))
        exact Dict.get?_set_of_ne hrid error
    have hown : ∀ rid, item.waiter = some rid → rid ∈ s.write.flying := fun rid hwaiter =>
      hperm.mem_iff.mpr (mem_append_left _ (by simp [hwaiter]))
    have hgone : ∀ rid ∈ (writeStep env s.write op).flying, item.waiter = some rid → False := by
      intro rid hrid hwaiter
      rw [hwaiter, Option.toList_some, singleton_append, nodup_cons] at hnodup
      exact hnodup.1 hrid
    refine
      { nodup := hnodup.of_append_right
        pending := fun rid hrid => ?_
        resolved := fun rid hrid => ?_
        requests := fun rid p hp => hs.requests rid p (hrequests ▸ hp)
        fresh := fun rid p hp hstage => ?_ }
    · rw [hother rid (hgone rid hrid)]
      exact hs.pending rid (hsub rid hrid)
    · by_cases hwaiter : item.waiter = some rid
      · exact (hs.pending rid (hown rid hwaiter)).2
      · exact hs.resolved rid (hother rid hwaiter ▸ hrid)
    · obtain ⟨hnot, hnone⟩ := hs.fresh rid p (hrequests ▸ hp) hstage
      refine ⟨fun hrid => hnot (hsub rid hrid), ?_⟩
      rw [hother rid fun hwaiter => hnot (hown rid hwaiter)]
      exact hnone

theorem Custody.moved (hs : Custody s) (hfinishes : s.write.finishes op = none)
    (hnew : op.request?.any (· ∈ s.seen) = false) :
    Custody { s with
      write := writeStep env s.write op, seen := op.request?.toList ++ s.seen } := by
  have hseen : ∀ rid, rid ∈ s.seen → rid ∈ op.request?.toList ++ s.seen := fun rid h =>
    mem_append_right _ h
  -- a request that comes in has a number that no waiter has
  have hincoming : ∀ rid, op.request? = some rid → rid ∉ s.seen := by
    intro rid hrid
    simpa [hrid] using hnew
  have hunused : ∀ rid, rid ∉ s.seen →
      rid ∉ s.write.flying ∧ s.write.waiters.get? rid = none := fun rid h =>
    ⟨fun hrid => h (hs.pending rid hrid).2, by_contra fun hne => h (hs.resolved rid hne)⟩
  have hrequests : ∀ rid p, Dict.get? (writeStep env s.write op).requests rid = some p →
      rid ∈ op.request?.toList ++ s.seen := by
    intro rid p hp
    obtain hrid | ⟨⟨p', hp'⟩, -⟩ := request_of_writeStep env s.write op hp
    · simp [hrid]
    · exact hseen rid (hs.requests rid p' hp')
  have hfresh : ∀ rid p, Dict.get? (writeStep env s.write op).requests rid = some p →
      p.stage = .fresh → rid ∉ s.write.flying ∧ s.write.waiters.get? rid = none := by
    intro rid p hp hstage
    obtain hrid | ⟨-, hkept⟩ := request_of_writeStep env s.write op hp
    · exact hunused rid (hincoming rid hrid)
    · exact hs.fresh rid p (hkept hstage) hstage
  have hperm : (writeStep env s.write op).flying.Perm s.write.flying →
      (writeStep env s.write op).waiters = s.write.waiters →
      Custody { s with
        write := writeStep env s.write op, seen := op.request?.toList ++ s.seen } := by
    intro hperm hwaiters
    exact
      { nodup := hperm.nodup_iff.mpr hs.nodup
        pending := fun rid hrid => by
          obtain ⟨hnone, hmem⟩ := hs.pending rid (hperm.mem_iff.mp hrid)
          exact ⟨hwaiters ▸ hnone, hseen rid hmem⟩
        resolved := fun rid hrid => hseen rid (hs.resolved rid (hwaiters ▸ hrid))
        requests := hrequests
        fresh := fun rid p hp hstage => by
          obtain ⟨hnot, hnone⟩ := hfresh rid p hp hstage
          exact ⟨fun hrid => hnot (hperm.mem_iff.mp hrid), hwaiters ▸ hnone⟩ }
  cases hworker : op.worker? with
  | some worker =>
    obtain ⟨hwaiters, hflying⟩ := @flying_worker env s.write op hfinishes (by simp [hworker])
    exact hperm hflying hwaiters
  | none =>
    obtain ⟨hwaiters, hflying | ⟨rid, p, hp, hstage, hflying, hleft⟩⟩ :=
      @flying_handler env s.write op hworker
    · exact hperm (hflying ▸ .refl _) hwaiters
    · obtain ⟨hnot, hnone⟩ := hs.fresh rid p hp hstage
      refine
        { nodup := hflying.nodup_iff.mpr (nodup_cons.mpr ⟨hnot, hs.nodup⟩)
          pending := fun rid' hrid' => ?_
          resolved := fun rid' hrid' => hseen rid' (hs.resolved rid' (hwaiters ▸ hrid'))
          requests := hrequests
          fresh := fun rid' p' hp' hstage' => ?_ }
      · obtain rfl | hrid' := mem_cons.mp (hflying.mem_iff.mp hrid')
        · exact ⟨hwaiters ▸ hnone, hseen rid' (hs.requests rid' p hp)⟩
        · obtain ⟨hnone', hmem⟩ := hs.pending rid' hrid'
          exact ⟨hwaiters ▸ hnone', hseen rid' hmem⟩
      · obtain ⟨hnot', hnone'⟩ := hfresh rid' p' hp' hstage'
        refine ⟨fun hrid' => ?_, hwaiters ▸ hnone'⟩
        obtain rfl | hrid' := mem_cons.mp (hflying.mem_iff.mp hrid')
        · exact hleft p' hp' hstage'
        · exact hnot' hrid'

theorem Custody.step (hs : Custody s) (op : PoolOp) : Custody (poolStep env s op) := by
  cases op with
  | cancel rid => exact hs.cancel rid
  | path op =>
    simp only [poolStep]
    split
    · exact hs
    · rename_i hguard
      rw [Bool.or_eq_true, not_or] at hguard
      split
      · rename_i worker item hfinishes
        exact hs.finish hfinishes
      · rename_i hfinishes
        exact hs.moved hfinishes (by simpa using hguard.2)

/-! ### The life of the workers -/

def FinishesCancelled (s : PoolState) (op : PoolOp) : Prop :=
  ∃ step worker item rid, op = .path step ∧ worker ∈ s.live ∧
    s.write.finishes step = some (worker, item) ∧ item.waiter = some rid ∧ rid ∈ s.cancelled

inductive WaiterOutcome where
  | cancelled
  | result
  | exception (error : String)
deriving DecidableEq

def PoolState.outcome (s : PoolState) (rid : ℕ) : Option WaiterOutcome :=
  if rid ∈ s.cancelled then some .cancelled
  else (s.write.waiters.get? rid).map fun error => match error with
    | none => .result
    | some error => .exception error

theorem poolStep_of_finishes (h : s.write.finishes op = some (worker, item)) :
    poolStep env s (.path op) =
      if worker ∈ s.live then s.finish worker item (writeStep env s.write op) else s := by
  have hworker := (@flying_finishes env s.write op _ _ h).1
  have hrequest : op.request? = none := by
    cases op with
    | receive => cases h
    | _ => rfl
  by_cases hlive : worker ∈ s.live <;> simp [poolStep, hworker, hrequest, h, hlive]

theorem live_poolStep_iff (hs : Custody s) (op : PoolOp) :
    (poolStep env s op).live = s.live ↔ ¬ FinishesCancelled s op := by
  cases op with
  | cancel rid =>
    have hlive : (s.cancel rid).live = s.live := by
      unfold PoolState.cancel
      split <;> rfl
    simp [poolStep, hlive, FinishesCancelled]
  | path op =>
    cases hfinishes : s.write.finishes op with
    | none =>
      have hlive : (poolStep env s (.path op)).live = s.live := by
        simp only [poolStep, hfinishes]
        split <;> rfl
      simp [hlive, FinishesCancelled, hfinishes]
    | some p =>
      obtain ⟨worker, item⟩ := p
      rw [poolStep_of_finishes hfinishes]
      by_cases hlive : worker ∈ s.live
      · -- the waiter is pending unless it was cancelled
        have hdone : item.waiter.any s.done = true ↔ ∃ rid, item.waiter = some rid ∧
            rid ∈ s.cancelled := by
          cases hwaiter : item.waiter with
          | none => simp
          | some rid =>
            have hflying : rid ∈ s.write.flying := by
              refine (@flying_finishes env s.write op _ _ hfinishes).2.2.2.1.mem_iff.mpr ?_
              simp [hwaiter]
            simp [PoolState.done, (hs.pending rid hflying).1]
        have hfilter : s.live.filter (· ≠ worker) ≠ s.live := by
          intro heq
          have := filter_eq_self.mp heq worker hlive
          simp at this
        rw [if_pos hlive, PoolState.finish]
        split
        · rename_i hany
          obtain ⟨rid, hwaiter, hcancelled⟩ := hdone.mp hany
          refine ⟨fun heq => absurd heq hfilter, fun hnot => absurd ?_ hnot⟩
          exact ⟨op, worker, item, rid, rfl, hlive, hfinishes, hwaiter, hcancelled⟩
        · rename_i hany
          refine ⟨fun _ => ?_, fun _ => rfl⟩
          rintro ⟨op', worker', item', rid, hop, -, hfinishes', hwaiter, hcancelled⟩
          cases hop
          rw [hfinishes] at hfinishes'
          cases hfinishes'
          exact hany (hdone.mpr ⟨rid, hwaiter, hcancelled⟩)
      · rw [if_neg hlive]
        refine ⟨fun _ => ?_, fun _ => rfl⟩
        rintro ⟨op', worker', item', rid, hop, hlive', hfinishes', -⟩
        cases hop
        rw [hfinishes] at hfinishes'
        cases hfinishes'
        exact hlive hlive'

variable {o : WaiterOutcome}

theorem PoolState.done_of_outcome (h : s.outcome rid = some o) : s.done rid = true := by
  unfold outcome at h
  split at h
  · rename_i hcancelled
    simp [done, hcancelled]
  · obtain ⟨error, hwaiter, -⟩ := Option.map_eq_some_iff.mp h
    simp [done, hwaiter]

theorem PoolState.outcome_congr {s' : PoolState}
    (hcancelled : rid ∈ s'.cancelled ↔ rid ∈ s.cancelled)
    (hwaiters : s'.write.waiters.get? rid = s.write.waiters.get? rid) :
    s'.outcome rid = s.outcome rid := by
  simp only [outcome, hcancelled, hwaiters]

theorem outcome_poolStep (h : s.outcome rid = some o) (op : PoolOp) :
    (poolStep env s op).outcome rid = some o := by
  have hdone := PoolState.done_of_outcome h
  rw [← h]
  cases op with
  | cancel rid' =>
    simp only [poolStep, PoolState.cancel]
    split
    · rfl
    · refine PoolState.outcome_congr ?_ rfl
      split
      · rename_i hpending
        -- the waiter that is cancelled is another one
        have hne : rid ≠ rid' := by
          rintro rfl
          simp [hdone] at hpending
        simp [hne]
      · rfl
  | path op =>
    cases hfinishes : s.write.finishes op with
    | none =>
      have hwaiters : (writeStep env s.write op).waiters = s.write.waiters := by
        cases hworker : op.worker? with
        | none => exact (flying_handler hworker).1
        | some worker => exact (flying_worker hfinishes (by simp [hworker])).1
      simp only [poolStep, hfinishes]
      split
      · rfl
      · exact PoolState.outcome_congr Iff.rfl (congrArg (Dict.get? · rid) hwaiters)
    | some p =>
      obtain ⟨worker, item⟩ := p
      obtain ⟨-, -, -, -, error, hwaiters⟩ := @flying_finishes env s.write op _ _ hfinishes
      rw [poolStep_of_finishes hfinishes, PoolState.finish]
      split
      · split
        · exact PoolState.outcome_congr Iff.rfl rfl
        · rename_i hpending
          refine PoolState.outcome_congr Iff.rfl ?_
          rw [hwaiters]
          cases hwaiter : item.waiter with
          | none => rfl
          | some rid' =>
            have hne : rid ≠ rid' := by
              rintro rfl
              simp [hwaiter, hdone] at hpending
            exact Dict.get?_set_of_ne hne error
      · rfl

/-- **The workers survive** if and only if no worker finishes an item whose waiter was cancelled.
Every waiter is resolved at most once. -/
theorem pool_keeps_workers_iff (env : WriteEnv) (workers : List ℕ) (ops : List PoolOp) :
    ((∀ pre post, ops = pre ++ post →
        (run (poolStep env) (.start workers) pre).live = workers) ↔
      Along (poolStep env) (fun s op => ¬ FinishesCancelled s op) (.start workers) ops) ∧
    (∀ (s : PoolState) op worker item, worker ∈ s.live →
      s.write.finishes op = some (worker, item) →
      Dict.get? (poolStep env s (.path op)).write.held worker = none ∧
        (poolStep env s (.path op)).processed = s.processed + 1) ∧
    ∀ pre post rid o, ops = pre ++ post →
      (run (poolStep env) (.start workers) pre).outcome rid = some o →
      (run (poolStep env) (.start workers) ops).outcome rid = some o := by
  refine ⟨?_, fun s op worker item hlive h => ?_, ?_⟩
  · have hiff : ∀ s op, Custody s → s.live = workers →
        ((poolStep env s op).live = workers ↔ ¬ FinishesCancelled s op) := by
      rintro s op hs rfl
      exact live_poolStep_iff hs op
    exact forall_run_iff_along hiff (fun s op hs _ => hs.step op) (Custody.start workers) rfl
  · have hheld := (@flying_finishes env s.write op _ _ h).2.1
    rw [poolStep_of_finishes h, if_pos hlive, PoolState.finish]
    split <;> exact ⟨hheld, rfl⟩
  · rintro pre post rid o rfl h
    have hstep : ∀ (s : PoolState) op, s.outcome rid = some o →
        (poolStep env s op).outcome rid = some o := fun s op hs => outcome_poolStep hs op
    rw [run_append]
    exact run_invariant hstep h post

/-! ### A client that does not wait -/

def WriteEnv.plainSync : WriteEnv :=
  { WriteEnv.plain with cfg := { WriteConfig.default with memoryWriteAsync := false } }

def impatientOps : List PoolOp :=
  ((requestOps 1 0 "e1" "a.md" "one").take 2 ++ [WriteOp.take 0, WriteOp.store 0]).map .path ++
    [.cancel 1, .path (.publish 0 .noon "" {})]

/-- The item is stored and counted, and the only worker is gone. -/
theorem cancelled_waiter_ends_worker :
    let s := run (poolStep .plainSync) (.start [0]) impatientOps
    s.live = [] ∧ s.outcome 1 = some .cancelled ∧ s.processed = 1 ∧ s.write.stored.length = 1 := by
  decide +kernel

end ContextLattice
