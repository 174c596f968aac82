import ContextLattice.Write.RawEvents

/-!
# Raw events at the moment of the answer

On each branch that ends in an answer the raw event is **secured** before the handler goes on, and
what is secured stays durable whatever the workers do.
-/

namespace ContextLattice

open Foundation List

/-! ### The answer -/

variable {env : WriteEnv} {s : WriteState} {op : WriteOp} {rid : ℕ}

theorem secured_of_request {p' : PendingWrite}
    (hp' : Dict.get? (writeStep env s op).requests rid = some p') (hpast : p'.IsPastStoring) :
    ∃ p, p.rawEvent = p'.rawEvent ∧ Secured s p op := by
  have hbefore (h : s.requests.get? rid = some p') :
      ∃ p, p.rawEvent = p'.rawEvent ∧ Secured s p op := ⟨p', rfl, .before h hpast⟩
  cases handlerChange env s op with
  | same hrequests => exact hbefore (hrequests ▸ hp')
  | rejected _ h | duplicate _ h | failed _ h | completed h => exact hbefore (h.get?_of_get? hp')
  | received h _ _ _ hstage =>
    rcases h.get?_or hp' with ⟨-, rfl⟩ | hp'
    · -- a request that comes in has its event to store
      rcases hstage with ⟨hstage, -⟩ | ⟨hstage, -⟩ <;>
        simp [PendingWrite.IsPastStoring, hstage] at hpast
    · exact hbefore hp'
  | admitted h _ _ hresumes _ _ hsecured | moved h _ hresumes _ hsecured =>
    rcases h.get?_or hp' with ⟨-, rfl⟩ | hp'
    · exact ⟨_, hresumes.rawEvent.symm, hsecured hpast⟩
    · exact hbefore hp'

theorem secured_of_answer {r : WriteResponse}
    (hr : (rid, .ok r) ∈ (writeStep env s op).answers) (hnew : r.isDuplicate = false) :
    (rid, .ok r) ∈ s.answers ∨ ∃ p, s.requests.get? rid = some p ∧ r.SameKind p.response ∧
      Secured s p op := by
  cases handlerChange env s op with
  | same _ hanswers => exact .inl (hanswers ▸ hr)
  | received h | admitted h | moved h => exact .inl (h.answers ▸ hr)
  | rejected _ h | failed _ h => exact .inl ((h.mem_or hr).resolve_right fun h => by cases h.2)
  | duplicate _ h =>
    rcases h.mem_or hr with hr | ⟨-, hr⟩
    · exact .inl hr
    · cases hr
      cases hnew
  | completed h hp _ hkind hsecured =>
    rcases h.mem_or hr with hr | ⟨rfl, hr⟩
    · exact .inl hr
    · cases hr
      exact .inr ⟨_, hp, hkind, hsecured⟩

structure SettledDurable (e : RawEvent) (s : RawState) : Prop where
  request : ∀ rid p, s.path.requests.get? rid = some p → p.rawEvent = e →
    p.IsPastStoring → Durable e s
  answer : ∀ rid r, (rid, .ok r) ∈ s.path.answers → r.isDuplicate = false →
    r.eventId = e.eventId → Durable e s

variable {B : List (ℕ × RawEvent)} {s : RawState} {op : RawOp} {e : RawEvent}

theorem SettledDurable.secured {p : PendingWrite} (h : SettledDurable e s) (hs : FromBuilt B s)
    (hB : DistinctIds B) (hcoalesce : .mongoRaw ∉ env.outbox.fanoutCoalesceTargets)
    (hop : op.op.byWorkers) (hcollects : ¬ op.op.collects) (hp : Secured s.path p op.op)
    (he : p.rawEvent = e) : Durable e (rawStep env s op) := by
  obtain ⟨op, now, applied⟩ := op
  subst he
  cases hp with
  | @stored rid clk gate hp hstage =>
    refine .inl ?_
    have hpersisted : persistedEvents s.path applied (.rawStored rid clk none gate) =
        [p.rawEvent] := by
      simp [persistedEvents, storingEvents, hp, hstage]
    rw [rawStep, hpersisted]
    exact inRawStore_persist hs.raw hB ⟨_, (hs.requests.requests rid p hp).1, rfl⟩
  | @seeded rid clk gate hp hstage =>
    refine .inr ?_
    obtain ⟨hmem, hid, -⟩ := hs.requests.requests rid p hp
    have houtbox : (writeStep env s.path (.seeded rid clk gate)).outbox =
        outboxStep env.outbox s.path.outbox
          (.enqueue clk true "" (seedEvent env p gate) .mongoRaw) := by
      simp only [writeStep, seededWrite, hp, if_pos hstage]
      split <;> rfl
    rw [rawStep, houtbox]
    exact rowCarries_forced (effectiveEventId_seedEvent hB hmem hid gate) rfl
  | @before _ rid hp hpast =>
    have hmem := (hs.requests.requests rid p hp).1
    exact (h.request rid p hp rfl hpast).step hs hB ⟨_, hmem, rfl⟩ hcoalesce hop hcollects

theorem SettledDurable.step (h : SettledDurable e s) (hs : FromBuilt B s) (hB : DistinctIds B)
    (he : ∃ x ∈ B, x.2 = e) (hcoalesce : .mongoRaw ∉ env.outbox.fanoutCoalesceTargets)
    (hop : op.op.byWorkers) (hcollects : ¬ op.op.collects) :
    SettledDurable e (rawStep env s op) where
  request := by
    intro rid p' hp' hraw hpast
    obtain ⟨p, hp, hsecured⟩ := secured_of_request hp' hpast
    exact h.secured hs hB hcoalesce hop hcollects hsecured (hp.trans hraw)
  answer := by
    intro rid r hr hnew hid
    rcases secured_of_answer hr hnew with hr | ⟨p, hp, hkind, hsecured⟩
    · exact (h.answer rid r hr hnew hid).step hs hB he hcoalesce hop hcollects
    · refine h.secured hs hB hcoalesce hop hcollects hsecured ?_
      obtain ⟨hmem, hpid, hcoherent⟩ := hs.requests.requests rid p hp
      obtain ⟨x, hx, rfl⟩ := he
      have hids : p.rawEvent.eventId = x.2.eventId := by
        rw [hpid, ← hcoherent.eventId, ← hkind.1, hid]
      exact congrArg Prod.snd (hB.eq hmem hx hids)

theorem FromBuilt.empty : FromBuilt B .empty where
  requests := ⟨fun _ _ h => (by cases h), fun _ _ h => (by cases h)⟩
  items := ⟨fun _ h => (by cases h), fun _ _ h => (by cases h)⟩
  outbox := ⟨fun _ h => (by cases h), fun _ h => (by cases h)⟩
  raw := fun _ _ h => by cases h

theorem builtEvents_append (env : WriteEnv) (pre post : List RawOp) :
    builtEvents env (pre ++ post) = builtEvents env pre ++ builtEvents env post :=
  filterMap_append

variable {ops : List RawOp}

theorem mem_builtEvents {x : ℕ × RawEvent} :
    x ∈ builtEvents env ops ↔ ∃ op ∈ ops, builtEvent env op.op = some x :=
  mem_filterMap

theorem FromBuilt.run (hs : FromBuilt B s) (hB : DistinctIds B)
    (hcoalesce : .mongoRaw ∉ env.outbox.fanoutCoalesceTargets)
    (hops : ∀ op ∈ ops, op.op.byWorkers) (hbuilt : ∀ x ∈ builtEvents env ops, x ∈ B) :
    FromBuilt B (Foundation.run (rawStep env) s ops) :=
  run_invariant_of_mem (fun _ op hop hs => hs.step hB hcoalesce (hops op hop) fun x hx =>
    hbuilt x (mem_builtEvents.mpr ⟨op, hop, hx⟩)) hs

theorem SettledDurable.run (h : SettledDurable e s) (hs : FromBuilt B s) (hB : DistinctIds B)
    (he : ∃ x ∈ B, x.2 = e) (hcoalesce : .mongoRaw ∉ env.outbox.fanoutCoalesceTargets)
    (hops : ∀ op ∈ ops, op.op.byWorkers) (hcollects : ∀ op ∈ ops, ¬ op.op.collects)
    (hbuilt : ∀ x ∈ builtEvents env ops, x ∈ B) :
    SettledDurable e (Foundation.run (rawStep env) s ops) := by
  refine (run_invariant_of_mem (P := fun s => FromBuilt B s ∧ SettledDurable e s) ?_ ⟨hs, h⟩).2
  rintro s op hop ⟨hs, h⟩
  refine ⟨hs.step hB hcoalesce (hops op hop) fun x hx => ?_,
    h.step hs hB he hcoalesce (hops op hop) (hcollects op hop)⟩
  exact hbuilt x (mem_builtEvents.mpr ⟨op, hop, hx⟩)

theorem DistinctIds.sublist {A : List (ℕ × RawEvent)} (hB : DistinctIds B) (h : A.Sublist B) :
    DistinctIds A :=
  ⟨hB.nodup.sublist (h.map _), fun x hx => hB.hex x (h.subset hx)⟩

theorem settledDurable_before {pre post : List RawOp} {rid : ℕ}
    (hcoalesce : .mongoRaw ∉ env.outbox.fanoutCoalesceTargets)
    (hids : DistinctIds (builtEvents env (pre ++ op :: post)))
    (hops : ∀ op' ∈ pre, op'.op.byWorkers) (hbuilt : builtEvent env op.op = some (rid, e)) :
    SettledDurable e (Foundation.run (rawStep env) .empty pre) := by
  have hcons : builtEvents env (op :: post) = (rid, e) :: builtEvents env post := by
    simp only [builtEvents, filterMap_cons, hbuilt]
  rw [builtEvents_append, hcons] at hids
  have hpre :=
    FromBuilt.empty.run (hids.sublist (sublist_append_left _ _)) hcoalesce hops fun _ hx => hx
  have hother : ∀ x ∈ builtEvents env pre, x.2.eventId ≠ e.eventId := by
    intro x hx
    have hnodup := hids.nodup
    rw [map_append, map_cons, nodup_append] at hnodup
    exact hnodup.2.2 _ (mem_map_of_mem hx) _ mem_cons_self
  constructor
  · rintro rid' p hp rfl -
    exact absurd rfl (hother _ (hpre.requests.requests rid' p hp).1)
  · intro rid' r hr hnew hid
    obtain ⟨e', he', hid'⟩ := hpre.requests.answers rid' r hr hnew
    exact absurd (hid'.trans hid) (hother _ he')

/-- **Raw events are durable at the answer**: the raw store has the event or a row of the outbox
carries it, if no garbage was collected since. -/
theorem raw_event_durable {ops : List RawOp} {rid : ℕ} {r : WriteResponse}
    (hcoalesce : .mongoRaw ∉ env.outbox.fanoutCoalesceTargets)
    (hids : DistinctIds (builtEvents env ops)) (hops : ∀ op ∈ ops, op.op.byWorkers)
    (hanswer : (rid, .ok r) ∈ (run (rawStep env) .empty ops).path.answers)
    (hnew : r.isDuplicate = false) :
    ∃ pre op post e, ops = pre ++ op :: post ∧ builtEvent env op.op = some (rid, e) ∧
      e.eventId = r.eventId ∧ ((∀ op' ∈ post, ¬ op'.op.collects) →
        Durable e (run (rawStep env) .empty ops)) := by
  have hfrom := FromBuilt.empty.run hids hcoalesce hops fun _ hx => hx
  obtain ⟨e, he, hid⟩ := hfrom.requests.answers rid r hanswer hnew
  obtain ⟨op, hop, hbuilt⟩ := mem_builtEvents.mp he
  obtain ⟨pre, post, rfl⟩ := append_of_mem hop
  refine ⟨pre, op, post, e, rfl, hbuilt, hid, fun hcollects => ?_⟩
  obtain ⟨hpre, hpost⟩ := forall_mem_append.mp hops
  have hbefore := settledDurable_before hcoalesce hids hpre hbuilt
  have hfromPre : FromBuilt (builtEvents env (pre ++ op :: post))
      (run (rawStep env) .empty pre) := by
    refine FromBuilt.empty.run hids hcoalesce hpre fun x hx => ?_
    rw [builtEvents_append]
    exact mem_append_left _ hx
  have hsettled : SettledDurable e (run (rawStep env) (run (rawStep env) .empty pre)
      (op :: post)) := by
    refine hbefore.run hfromPre hids ⟨_, he, rfl⟩ hcoalesce hpost ?_ fun x hx => ?_
    · -- the step that brings the request in is not a collection
      refine forall_mem_cons.mpr ⟨fun hcollect => ?_, hcollects⟩
      cases hop : op.op <;> simp [hop, builtEvent, WriteOp.collects] at hbuilt hcollect
    · rw [builtEvents_append]
      exact mem_append_right _ hx
  rw [run_append] at hanswer ⊢
  exact hsettled.answer rid r hanswer hnew hid.symm

/-! ### A run with a failing raw store -/

def contestedRun : List RawOp :=
  let clk : Clock := .noon
  let steps : List WriteOp :=
    [.receive 1 clk 0 none "e1" ⟨"docs", "a.md", "one", none⟩,
      .rawStored 1 clk (some "timeout") {}] ++ workerOps 0 ++
    [.fanout (.claim clk 7 10 none none), .fanout (.deliver 7 1), .seeded 1 clk {},
      .fanout (.markSuccess clk 7 1), .finish 1 {} {}]
  steps.map fun op => ⟨op, clk.now, false⟩

def retryingResponse : WriteResponse where
  eventId := "e1"
  warnings := ["raw-event Mongo write deferred; queued for retry (timeout)"]
  fanout := ⟨"queued", "retrying", "pending", "pending", "disabled", "pending"⟩

theorem raw_event_durable_contestedRun :
    let s := run (rawStep .plain) .empty contestedRun
    (1, .ok retryingResponse) ∈ s.path.answers ∧ ∃ e, e.eventId = "e1" ∧ Durable e s := by
  have hrun : (1, .ok retryingResponse) ∈
        (run (rawStep .plain) .empty contestedRun).path.answers ∧
      ((builtEvents .plain contestedRun).map fun x => x.2.eventId).Nodup ∧
      (∀ x ∈ builtEvents .plain contestedRun, isHexId x.2.eventId = true) := by
    decide +kernel
  obtain ⟨hanswer, hnodup, hhex⟩ := hrun
  have hops : ∀ op ∈ contestedRun, op.op.byWorkers ∧ ¬ op.op.collects := by
    simp [contestedRun, workerOps, WriteOp.byWorkers, WriteOp.collects]
  obtain ⟨pre, op, post, e, hsplit, -, hid, hdurable⟩ := raw_event_durable (by decide)
    ⟨hnodup, hhex⟩ (fun op hop => (hops op hop).1) hanswer rfl
  refine ⟨hanswer, e, hid, hdurable fun op' hop' => (hops op' ?_).2⟩
  rw [hsplit]
  exact mem_append_right _ (mem_cons_of_mem op hop')

end ContextLattice
