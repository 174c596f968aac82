import ContextLattice.Write.Accepted
import ContextLattice.Write.LastWrite

/-!
# Raw events

The handler stores the **raw event** of a write at once; if this fails it seeds a row of the outbox
for it. An *upsert* leaves the first event stored under an id; a call that raised may have got
through all the same.
-/

namespace ContextLattice

open Foundation List

/-! ### The raw store -/

abbrev RawStore := Dict String RawEvent

def persistRawEventToMongo (now : Stamp) (e : RawEvent) (raw : RawStore) : RawStore :=
  raw.set e.eventId { (raw.get? e.eventId).getD e with updatedAt := now }

def RawEvent.SameAs (d e : RawEvent) : Prop := { d with updatedAt := e.updatedAt } = e

def InRawStore (e : RawEvent) (raw : RawStore) : Prop :=
  ∃ d, raw.get? e.eventId = some d ∧ d.SameAs e

structure RawState where
  path : WriteState
  raw : RawStore

def RawState.empty : RawState := ⟨.empty, .empty⟩

/-- A step of the write path, at a clock reading; `applied` says whether a call of the raw store
that raised an error got through all the same. -/
structure RawOp where
  op : WriteOp
  now : Stamp
  applied : Bool := false

def storingEvents (s : WriteState) (rid : ℕ) : List RawEvent :=
  match s.requests.get? rid with
  | none => []
  | some p => if p.stage = .unchanged ∨ p.stage = .fresh then [p.rawEvent] else []

def pushedEvents (o : OutboxState FanoutRest) (worker jobId : ℕ) : List RawEvent :=
  (o.held.filter fun h => h.isJob worker jobId && decide (h.job.target = .mongoRaw)).filterMap
    fun h => h.job.payload.rest.rawEvent

def persistedEvents (s : WriteState) (applied : Bool) : WriteOp → List RawEvent
  | .rawStored rid _ mongo _ => if mongo.isNone || applied then storingEvents s rid else []
  | .fanout (.deliver worker jobId) => pushedEvents s.outbox worker jobId
  | .fanout (.markRetry _ worker jobId _ _) =>
    if applied then pushedEvents s.outbox worker jobId else []
  | .fanout (.markFailed _ worker jobId _) =>
    if applied then pushedEvents s.outbox worker jobId else []
  | _ => []

def rawStep (env : WriteEnv) (s : RawState) (op : RawOp) : RawState where
  path := writeStep env s.path op.op
  raw := (persistedEvents s.path op.applied op.op).foldl
    (fun raw e => persistRawEventToMongo op.now e raw) s.raw

def builtEvent (env : WriteEnv) : WriteOp → Option (ℕ × RawEvent)
  | .receive rid clk _ requestId drawn req =>
    match prepareWrite env.cfg env.lib req with
    | .ok w => some (rid, buildRawMemoryEvent clk requestId drawn w)
    | .error _ => none
  | _ => none

def builtEvents (env : WriteEnv) (ops : List RawOp) : List (ℕ × RawEvent) :=
  ops.filterMap fun op => builtEvent env op.op

def isHexId (id : String) : Bool :=
  decide (id ≠ "") && id.toList.all fun c => decide (c ∈ "0123456789abcdef".toList)

structure DistinctIds (B : List (ℕ × RawEvent)) : Prop where
  nodup : (B.map fun x => x.2.eventId).Nodup
  hex : ∀ x ∈ B, isHexId x.2.eventId = true

def WriteOp.byWorkers : WriteOp → Prop
  | .fanout (.enqueue _ _ _ _ target) => target ≠ .mongoRaw
  | _ => True

def WriteOp.collects : WriteOp → Prop
  | .fanout (.gc ..) => True
  | _ => False

def RowCarries (e : RawEvent) (o : OutboxState FanoutRest) : Prop :=
  ∃ r ∈ o.outbox.rows, r.target = .mongoRaw ∧ r.eventId = e.eventId ∧
    r.payload.rest.rawEvent = some e

def Durable (e : RawEvent) (s : RawState) : Prop := InRawStore e s.raw ∨ RowCarries e s.path.outbox

def WriteResponse.isDuplicate (r : WriteResponse) : Bool := r.deduped && !r.latestHashUnchanged

/-! ### Where rows and items come from -/

def Sourced (B : List (ℕ × RawEvent)) (eventId : String) (raw : Option RawEvent) : Prop :=
  ∃ x ∈ B, eventId = x.2.eventId ∧ raw = some x.2

def RowFrom (B : List (ℕ × RawEvent)) (r : OutboxRow FanoutRest) : Prop :=
  r.target = .mongoRaw → Sourced B r.eventId r.payload.rest.rawEvent

def ItemFrom (B : List (ℕ × RawEvent)) (item : BankItem) : Prop :=
  item.mongoPersisted = false → Sourced B item.eventId item.rawEvent

structure OutboxFrom (B : List (ℕ × RawEvent)) (o : OutboxState FanoutRest) : Prop where
  rows : ∀ r ∈ o.outbox.rows, RowFrom B r
  held : ∀ h ∈ o.held, RowFrom B h.job

def EnqueuesFrom (B : List (ℕ × RawEvent)) : OutboxOp FanoutRest → Prop
  | .enqueue _ _ drawn event target =>
    target = .mongoRaw → Sourced B (effectiveEventId drawn event) event.rest.rawEvent
  | _ => True

def OutboxOp.collects {π : Type*} : OutboxOp π → Prop
  | .gc .. => True
  | _ => False

variable {B : List (ℕ × RawEvent)} {e : RawEvent} {cfg : OutboxConfig}
  {o : OutboxState FanoutRest} {op : OutboxOp FanoutRest} {r r' : OutboxRow FanoutRest}

theorem DistinctIds.eq (hB : DistinctIds B) {x y : ℕ × RawEvent} (hx : x ∈ B) (hy : y ∈ B)
    (h : x.2.eventId = y.2.eventId) : x = y :=
  inj_on_of_nodup_map hB.nodup hx hy h

theorem DistinctIds.ne_empty (hB : DistinctIds B) {x : ℕ × RawEvent} (hx : x ∈ B) :
    x.2.eventId ≠ "" := by
  have h := hB.hex x hx
  rw [isHexId, Bool.and_eq_true, decide_eq_true_eq] at h
  exact h.1

theorem JobChange.rawPayload_cases (h : JobChange cfg o op r r')
    (hcoalesce : .mongoRaw ∉ cfg.fanoutCoalesceTargets) (htarget : r.target = .mongoRaw) :
    r'.payload = r.payload ∨ ∃ clk drawn event, op = .enqueue clk true drawn event .mongoRaw ∧
      r.eventId = effectiveEventId drawn event ∧ r'.payload = event := by
  cases h with
  | coalesced hcandidate =>
    obtain ⟨-, hr, -⟩ := coalesceCandidate_eq_some hcandidate
    rw [← hr, htarget] at hcandidate
    simp [coalesceCandidate, fanoutCoalescerActiveForTarget, hcoalesce] at hcandidate
  | @requeued clk drawn event target _ hkey =>
    obtain ⟨hid, rfl⟩ := dedupeKeyOf_inj.mp (Outbox.findKey?_eq_some hkey).2
    refine .inr ⟨clk, drawn, event, ?_, hid, rfl⟩
    rw [htarget]
  | same | claimed | succeeded | retried | failed | lettaFailed | recovered => exact .inl rfl

theorem RowFrom.change (hr : RowFrom B r) (h : JobChange cfg o op r r')
    (hcoalesce : .mongoRaw ∉ cfg.fanoutCoalesceTargets) (hop : EnqueuesFrom B op) :
    RowFrom B r' := by
  intro htarget
  have hident := h.ident
  have htarget' : r.target = .mongoRaw := by rw [← htarget, hident]
  rw [hident]
  rcases h.rawPayload_cases hcoalesce htarget' with
    hpayload | ⟨clk, drawn, event, rfl, hid, hpayload⟩
  · rw [hpayload]
    exact hr htarget'
  · rw [hpayload, hid]
    exact hop rfl

theorem OutboxFrom.step (ho : OutboxFrom B o) (hcoalesce : .mongoRaw ∉ cfg.fanoutCoalesceTargets)
    (hop : EnqueuesFrom B op) : OutboxFrom B (outboxStep cfg o op) := by
  have hrows : ∀ r ∈ (outboxStep cfg o op).outbox.rows, RowFrom B r := by
    intro r' hr'
    rcases exists_change_of_mem hr' with ⟨r, hr, hchange⟩ | hinserts
    · exact (ho.rows r hr).change hchange hcoalesce hop
    · cases hinserts
      exact hop
  refine ⟨hrows, fun h hh => ?_⟩
  rcases held_of_mem hh with ⟨h₀, hh₀, hjob, -⟩ | ⟨hmem, -⟩
  · rw [hjob]
    exact ho.held h₀ hh₀
  · exact hrows _ hmem

theorem letta_of_deleted {l : List (FanoutTarget × FanoutEvent FanoutRest)}
    (hop : ¬ op.collects) (h : (outboxStep cfg o op).deleted = o.deleted ++ l) :
    ∀ d ∈ l, d.1 = .letta := by
  have hnone (hsame : (outboxStep cfg o op).deleted = o.deleted) : ∀ d ∈ l, d.1 = .letta := by
    rw [hsame] at h
    simp [self_eq_append_right.mp h]
  cases op with
  | gc => exact absurd trivial hop
  | prune statuses limit matched =>
    rw [← append_cancel_left h]
    intro d hd
    obtain ⟨r, hr, rfl⟩ := mem_map.mp hd
    obtain ⟨hr, hid⟩ := mem_filter.mp hr
    obtain ⟨r₀, hr₀, hid⟩ := mem_map.mp (of_decide_eq_true hid)
    have hmem := (mem_insertionSort _).mp (mem_of_mem_filter (mem_of_mem_take hr₀))
    obtain ⟨hmem, hletta⟩ := mem_filter.mp hmem
    rw [← Table.eq_of_mem_of_key hmem hr hid]
    exact (of_decide_eq_true hletta).1
  | markSuccess | markRetry | markFailed =>
    refine hnone ?_
    rw [outboxStep]
    repeat' split
    all_goals rfl
  | enqueue | claim | deliver | failLetta | recover | restart => exact hnone rfl

theorem RowCarries.step (h : RowCarries e o) (hB : DistinctIds B)
    (he : ∃ x ∈ B, x.2 = e) (hcoalesce : .mongoRaw ∉ cfg.fanoutCoalesceTargets)
    (hop : EnqueuesFrom B op) (hcollects : ¬ op.collects) : RowCarries e (outboxStep cfg o op) := by
  obtain ⟨r, hr, htarget, hid, hraw⟩ := h
  rcases change_of_mem cfg op hr with ⟨r', hr', hchange⟩ | ⟨l, hl, hmem⟩
  · have hident := hchange.ident
    refine ⟨r', hr', by rw [hident, htarget], by rw [hident, hid], ?_⟩
    rcases hchange.rawPayload_cases hcoalesce htarget with
      hpayload | ⟨clk, drawn, event, rfl, hid', hpayload⟩
    · rw [hpayload, hraw]
    · -- the event that is enqueued under this id is the same one
      obtain ⟨y, hy, hyid, hyraw⟩ := hop rfl
      obtain ⟨x, hx, rfl⟩ := he
      rw [hpayload, hyraw, hB.eq hy hx (by rw [← hyid, ← hid', hid])]
  · have := letta_of_deleted hcollects hl _ hmem
    rw [htarget] at this
    cases this

variable {clk : Clock}

theorem rowCarries_forced {drawn : String} {event : FanoutEvent FanoutRest}
    (hid : effectiveEventId drawn event = e.eventId) (hraw : event.rest.rawEvent = some e) :
    RowCarries e (outboxStep cfg o (.enqueue clk true drawn event .mongoRaw)) := by
  have hplaced := placed_enqueueTarget cfg clk true drawn event .mongoRaw o.outbox
  simp only [RowCarries, outboxStep]
  generalize enqueueTarget cfg clk true drawn event .mongoRaw o.outbox = ob' at hplaced ⊢
  cases hplaced with
  | coalesced h => simp [coalesceCandidate] at h
  | @requeued row _ h =>
    obtain ⟨hrow, hkey⟩ := Outbox.findKey?_eq_some h
    obtain ⟨hrowid, htarget⟩ := dedupeKeyOf_inj.mp hkey
    refine ⟨requeueJobWrite cfg clk event row, ?_, htarget, hrowid.trans hid, hraw⟩
    exact Outbox.mem_update hrow
  | existing hforce => cases hforce
  | inserted _ h => exact ⟨_, Outbox.mem_insert_self _ _ _ h, rfl, hid, hraw⟩

/-! ### The documents of the raw store -/

def StoreFrom (B : List (ℕ × RawEvent)) (raw : RawStore) : Prop :=
  ∀ id d, raw.get? id = some d → ∃ x ∈ B, x.2.eventId = id ∧ d.SameAs x.2

variable {now : Stamp} {raw : RawStore}

theorem InRawStore.persist (h : InRawStore e raw) (e' : RawEvent) :
    InRawStore e (persistRawEventToMongo now e' raw) := by
  obtain ⟨d, hd, hsame⟩ := h
  unfold persistRawEventToMongo
  by_cases hid : e.eventId = e'.eventId
  · refine ⟨{ d with updatedAt := now }, ?_, hsame⟩
    rw [← hid, Dict.get?_set, hd, Option.getD_some]
  · exact ⟨d, by rw [Dict.get?_set_of_ne hid, hd], hsame⟩

theorem InRawStore.foldl_persist (h : InRawStore e raw) (l : List RawEvent) :
    InRawStore e (l.foldl (fun raw e => persistRawEventToMongo now e raw) raw) := by
  induction l generalizing raw with
  | nil => exact h
  | cons e' l ih => exact ih (h.persist e')

theorem inRawStore_persist (hraw : StoreFrom B raw) (hB : DistinctIds B) (he : ∃ x ∈ B, x.2 = e) :
    InRawStore e (persistRawEventToMongo now e raw) := by
  refine ⟨_, Dict.get?_set .., ?_⟩
  rcases hd : raw.get? e.eventId with _ | d
  · exact rfl
  · obtain ⟨y, hy, hid, hsame⟩ := hraw _ d hd
    obtain ⟨x, hx, rfl⟩ := he
    rw [hB.eq hy hx hid] at hsame
    exact hsame

theorem StoreFrom.persist (hraw : StoreFrom B raw) (he : ∃ x ∈ B, x.2 = e) :
    StoreFrom B (persistRawEventToMongo now e raw) := by
  intro id d hd
  rcases Dict.get?_set_eq_some.mp hd with ⟨rfl, rfl⟩ | ⟨-, hd⟩
  · rcases hold : raw.get? e.eventId with _ | d
    · obtain ⟨x, hx, rfl⟩ := he
      exact ⟨x, hx, rfl, rfl⟩
    · exact hraw _ d hold
  · exact hraw id d hd

theorem StoreFrom.foldl_persist (hraw : StoreFrom B raw) {l : List RawEvent}
    (hl : ∀ e ∈ l, ∃ x ∈ B, x.2 = e) :
    StoreFrom B (l.foldl (fun raw e => persistRawEventToMongo now e raw) raw) := by
  induction l generalizing raw with
  | nil => exact hraw
  | cons e l ih =>
    exact ih (hraw.persist (hl e mem_cons_self)) fun e' he' =>
      hl e' (mem_cons_of_mem e he')

/-! ### Where everything comes from -/

structure RequestsFrom (B : List (ℕ × RawEvent)) (s : WriteState) : Prop where
  requests : ∀ rid p, s.requests.get? rid = some p →
    (rid, p.rawEvent) ∈ B ∧ p.rawEvent.eventId = p.eventId ∧ p.Coherent
  answers : ∀ rid r, (rid, .ok r) ∈ s.answers → r.isDuplicate = false →
    ∃ e, (rid, e) ∈ B ∧ e.eventId = r.eventId

structure ItemsFrom (B : List (ℕ × RawEvent)) (s : WriteState) : Prop where
  queue : ∀ item ∈ s.queue.items, ItemFrom B item
  held : ∀ worker job, s.held.get? worker = some job → ItemFrom B job.item

structure FromBuilt (B : List (ℕ × RawEvent)) (s : RawState) : Prop where
  requests : RequestsFrom B s.path
  items : ItemsFrom B s.path
  outbox : OutboxFrom B s.path.outbox
  raw : StoreFrom B s.raw

variable {env : WriteEnv} {s s' : WriteState} {op : WriteOp} {rid : ℕ} {p : PendingWrite}

theorem RequestsFrom.goesOn (hs : RequestsFrom B s) (h : GoesOn s rid p s')
    (hp : (rid, p.rawEvent) ∈ B ∧ p.rawEvent.eventId = p.eventId ∧ p.Coherent) :
    RequestsFrom B s' where
  requests := by
    intro rid' p' hp'
    rcases h.get?_or hp' with ⟨rfl, rfl⟩ | hp'
    · exact hp
    · exact hs.requests rid' p' hp'
  answers := by
    rw [h.answers]
    exact hs.answers

theorem RequestsFrom.answered {a : Except HttpError WriteResponse} (hs : RequestsFrom B s)
    (h : Answered s rid a s')
    (ha : ∀ r, a = .ok r → r.isDuplicate = false → ∃ e, (rid, e) ∈ B ∧ e.eventId = r.eventId) :
    RequestsFrom B s' where
  requests := fun rid' p' hp' => hs.requests rid' p' (h.get?_of_get? hp')
  answers := by
    intro rid' r hr
    rcases h.mem_or hr with hr | ⟨rfl, hr⟩
    · exact hs.answers rid' r hr
    · exact ha r hr.symm

theorem RequestsFrom.resumes {p' : PendingWrite} (hs : RequestsFrom B s) (h : GoesOn s rid p' s')
    (hp : s.requests.get? rid = some p) (hresumes : p'.Resumes p)
    (hstage : p'.stage ≠ .unchanged) : RequestsFrom B s' := by
  obtain ⟨hmem, hid, hcoherent⟩ := hs.requests rid p hp
  refine hs.goesOn h ⟨?_, ?_, hcoherent.resumes hresumes hstage⟩
  · rw [hresumes.rawEvent]
    exact hmem
  · rw [hresumes.rawEvent, hresumes.eventId]
    exact hid

theorem RequestsFrom.step (hs : RequestsFrom B s) (hop : ∀ x ∈ builtEvent env op, x ∈ B) :
    RequestsFrom B (writeStep env s op) := by
  cases handlerChange env s op with
  | same hrequests hanswers =>
    exact ⟨by rw [hrequests]; exact hs.requests, by rw [hanswers]; exact hs.answers⟩
  | rejected _ h | failed _ h => exact hs.answered h fun r hr => by cases hr
  | duplicate w h =>
    refine hs.answered h ?_
    rintro _ ⟨⟩ hnew
    cases hnew
  | received h hprepare hid hraw hstage =>
    refine hs.goesOn h ⟨?_, ?_, .received hid hstage⟩
    · refine hop _ ?_
      rw [builtEvent, hprepare, hraw]
      rfl
    · rw [hraw, hid]
      rfl
  | admitted h hp _ hresumes hstage => exact hs.resumes h hp hresumes hstage.1
  | moved h hp hresumes hstage =>
    refine hs.resumes h hp hresumes ?_
    rcases hstage with ⟨-, hseeding⟩ | ⟨-, -, hlater, -⟩
    · simp [hseeding]
    · exact hlater
  | @completed _ rid _ p r h hp hstage hkind =>
    obtain ⟨hmem, hid, hcoherent⟩ := hs.requests rid p hp
    refine hs.answered h ?_
    rintro _ ⟨⟩ -
    exact ⟨p.rawEvent, hmem, by rw [hid, hkind.1, hcoherent.eventId]⟩

private theorem itemFrom_foldl_flushEntry {drawn : String → String}
    {st : Dict String RollupEntry × BankQueue} (pending : List (String × RollupEntry))
    (hqueue : ∀ item ∈ st.2.items, ItemFrom B item) :
    ∀ item ∈ (pending.foldl (flushEntry env.cfg env.lib clk drawn) st).2.items,
      ItemFrom B item := by
  induction pending generalizing st with
  | nil => exact hqueue
  | cons q pending ih =>
    rw [foldl_cons]
    rcases flushEntry_cases env.cfg env.lib clk drawn st q with ⟨item, hitem, heq⟩ | heq
    · rw [heq]
      refine ih fun i hi => ?_
      rw [BankQueue.items_put, mem_append, mem_singleton] at hi
      rcases hi with hi | rfl
      · exact hqueue i hi
      · intro hpersisted
        rw [BankItem.numbered, (rollupItem_eq_ok hitem).2] at hpersisted
        cases hpersisted
    · rw [heq]
      exact ih hqueue

theorem ItemsFrom.admitted (hs : ItemsFrom B s) (hp : (rid, p.rawEvent) ∈ B)
    (hid : p.rawEvent.eventId = p.eventId) (clk : Clock) (mongo : Option String)
    (gate : LettaGate) : ItemsFrom B (admitWrite env s rid p clk mongo gate) := by
  unfold admitWrite
  split
  · split <;> exact ⟨hs.queue, hs.held⟩
  · split
    · exact ⟨hs.queue, hs.held⟩
    · rename_i q hput
      refine ⟨fun item hitem => ?_, hs.held⟩
      simp only [WriteState.setRequest, enqueueMemoryBankWrite_eq_ok hput, BankQueue.items_put,
        mem_append, mem_singleton] at hitem
      rcases hitem with hitem | rfl
      · exact hs.queue item hitem
      · exact fun _ => ⟨_, hp, hid.symm, rfl⟩

theorem ItemsFrom.step (hs : ItemsFrom B s) (hrequests : RequestsFrom B s) :
    ItemsFrom B (writeStep env s op) := by
  have hhandler (h : op.isHandler = true) := handler_cases env s h
  cases op with
  | receive | rawStored | seeded | finish =>
    rcases hhandler rfl with ⟨h, -⟩ | ⟨rid, p, clk, mongo, gate, hp, -, heq⟩
    · exact ⟨by rw [h.queue]; exact hs.queue, by rw [h.held]; exact hs.held⟩
    · obtain ⟨hmem, hid, -⟩ := hrequests.requests rid p hp
      rw [heq]
      exact hs.admitted hmem hid clk mongo gate
  | fanout => exact ⟨hs.queue, hs.held⟩
  | flush clk now force drawn => exact ⟨itemFrom_foldl_flushEntry _ hs.queue, hs.held⟩
  | take worker =>
    simp only [writeStep, takeItem]
    split
    · rename_i item rest _ hitems
      refine ⟨fun i hi => hs.queue i (mem_of_mem_tail hi), fun w job hjob => ?_⟩
      rcases Dict.get?_set_eq_some.mp hjob with ⟨-, rfl⟩ | ⟨-, hjob⟩
      · exact hs.queue item (by rw [hitems]; exact mem_cons_self)
      · exact hs.held w job hjob
    · exact hs
  | store worker =>
    simp only [writeStep, storeItem]
    split
    · rename_i item hheld
      refine ⟨hs.queue, fun w job hjob => ?_⟩
      rcases Dict.get?_set_eq_some.mp hjob with ⟨-, rfl⟩ | ⟨-, hjob⟩
      · exact hs.held worker ⟨item, false⟩ hheld
      · exact hs.held w job hjob
    · exact hs
  | publish worker clk drawn gate =>
    simp only [writeStep, publishItem]
    split
    · exact ⟨hs.queue, fun w job hjob => hs.held w job (Dict.get?_erase_eq_some.mp hjob).2⟩
    · exact hs
  | fail worker error =>
    simp only [writeStep, failItem]
    split
    · exact ⟨hs.queue, fun w job hjob => hs.held w job (Dict.get?_erase_eq_some.mp hjob).2⟩
    · exact hs

/-! ### The outbox of a run -/

variable {s : RawState} {op : RawOp}

theorem effectiveEventId_seedEvent {rid : ℕ} {p : PendingWrite} (hB : DistinctIds B)
    (hp : (rid, p.rawEvent) ∈ B) (hid : p.rawEvent.eventId = p.eventId) (gate : LettaGate) :
    effectiveEventId "" (seedEvent env p gate) = p.rawEvent.eventId := by
  have hne : p.eventId ≠ "" := hid ▸ hB.ne_empty hp
  simp [effectiveEventId, seedEvent, hne, hid]

/-- **Inversion.** What a step does to the outbox: it enqueues events under their ids, or runs one
operation of the outbox. -/
theorem exists_outbox_run (env : WriteEnv) (hs : FromBuilt B s) (hB : DistinctIds B) {op : WriteOp}
    (hop : op.byWorkers) :
    ∃ ops, (writeStep env s.path op).outbox = run (outboxStep env.outbox) s.path.outbox ops ∧
      (∀ o ∈ ops, EnqueuesFrom B o) ∧ (¬ op.collects → ∀ o ∈ ops, ¬ o.collects) := by
  have hnone (h : (writeStep env s.path op).outbox = s.path.outbox) :
      ∃ ops, (writeStep env s.path op).outbox = run (outboxStep env.outbox) s.path.outbox ops ∧
        (∀ o ∈ ops, EnqueuesFrom B o) ∧ (¬ op.collects → ∀ o ∈ ops, ¬ o.collects) :=
    ⟨[], h, by simp, by simp⟩
  cases op with
  | receive | rawStored | finish | take | store | fail =>
    refine hnone ?_
    simp only [writeStep, receiveWrite, rawStoredWrite, admitWrite, finishWrite, takeItem,
      storeItem, failItem]
    repeat' split
    all_goals rfl
  | flush => exact hnone rfl
  | seeded rid clk gate =>
    rcases hp : s.path.requests.get? rid with _ | p
    · exact hnone (by simp only [writeStep, seededWrite, hp])
    · by_cases hstage : p.stage = .seeding
      · obtain ⟨hmem, hid, -⟩ := hs.requests.requests rid p hp
        refine ⟨[.enqueue clk true "" (seedEvent env p gate) .mongoRaw], ?_, ?_, ?_⟩
        · simp only [writeStep, seededWrite, hp, if_pos hstage]
          split <;> rfl
        · simp only [forall_mem_singleton]
          exact fun _ => ⟨_, hmem, effectiveEventId_seedEvent hB hmem hid gate, rfl⟩
        · simp [OutboxOp.collects]
      · exact hnone (by simp only [writeStep, seededWrite, hp, if_neg hstage])
  | publish worker clk drawn gate =>
    simp only [writeStep, publishItem]
    split
    · rename_i item hheld
      have hitem : ItemFrom B item := hs.items.held worker ⟨item, true⟩ hheld
      refine ⟨_, rfl, ?_, ?_⟩
      · intro o ho
        obtain ⟨target, htarget, rfl⟩ := mem_map.mp ho
        rintro rfl
        have hpersisted : item.mongoPersisted = false := by
          by_contra h
          simp [fanoutTargets, Bool.not_eq_false _ ▸ h] at htarget
        obtain ⟨x, hx, hid, hraw⟩ := hitem hpersisted
        refine ⟨x, hx, ?_, hraw⟩
        simp [effectiveEventId, fanoutEventOf, hid, hB.ne_empty hx]
      · simp [OutboxOp.collects]
    · exact ⟨[], rfl, by simp, by simp⟩
  | fanout op =>
    refine ⟨[op], rfl, ?_, ?_⟩
    · rw [forall_mem_singleton]
      cases op with
      | enqueue => exact fun htarget => absurd htarget hop
      | _ => trivial
    · cases op <;> simp [OutboxOp.collects, WriteOp.collects]

variable {ops : List (OutboxOp FanoutRest)}

theorem OutboxFrom.run {cfg : OutboxConfig} {o : OutboxState FanoutRest} (ho : OutboxFrom B o)
    (hcoalesce : .mongoRaw ∉ cfg.fanoutCoalesceTargets) (hops : ∀ op ∈ ops, EnqueuesFrom B op) :
    OutboxFrom B (Foundation.run (outboxStep cfg) o ops) :=
  run_invariant_of_mem (fun _ op hop ho => ho.step hcoalesce (hops op hop)) ho

theorem RowCarries.run {cfg : OutboxConfig} {o : OutboxState FanoutRest} (ho : RowCarries e o)
    (hB : DistinctIds B) (he : ∃ x ∈ B, x.2 = e)
    (hcoalesce : .mongoRaw ∉ cfg.fanoutCoalesceTargets) (hops : ∀ op ∈ ops, EnqueuesFrom B op)
    (hcollects : ∀ op ∈ ops, ¬ op.collects) :
    RowCarries e (Foundation.run (outboxStep cfg) o ops) :=
  run_invariant_of_mem
    (fun _ op hop ho => ho.step hB he hcoalesce (hops op hop) (hcollects op hop)) ho

theorem exists_of_mem_persistedEvents (hs : FromBuilt B s) {op : WriteOp} {applied : Bool}
    (he : e ∈ persistedEvents s.path applied op) : ∃ x ∈ B, x.2 = e := by
  have hpushed (worker jobId : ℕ) (he : e ∈ pushedEvents s.path.outbox worker jobId) :
      ∃ x ∈ B, x.2 = e := by
    obtain ⟨h, hh, hraw⟩ := mem_filterMap.mp he
    obtain ⟨hh, hjob⟩ := mem_filter.mp hh
    rw [Bool.and_eq_true, decide_eq_true_eq] at hjob
    obtain ⟨x, hx, -, hx'⟩ := hs.outbox.held h hh hjob.2
    rw [hx', Option.some.injEq] at hraw
    exact ⟨x, hx, hraw⟩
  have hpushedIf (worker jobId : ℕ)
      (he : e ∈ if applied then pushedEvents s.path.outbox worker jobId else []) :
      ∃ x ∈ B, x.2 = e := by
    split at he
    · exact hpushed worker jobId he
    · cases he
  cases op with
  | rawStored rid clk mongo gate =>
    simp only [persistedEvents, storingEvents] at he
    split at he
    · split at he
      · cases he
      · rename_i p hp
        split at he
        · rw [mem_singleton] at he
          exact ⟨_, (hs.requests.requests rid p hp).1, he.symm⟩
        · cases he
    · cases he
  | fanout op =>
    cases op with
    | deliver worker jobId => exact hpushed worker jobId he
    | markRetry clk worker jobId => exact hpushedIf worker jobId he
    | markFailed clk worker jobId => exact hpushedIf worker jobId he
    | _ => cases he
  | _ => cases he

theorem FromBuilt.step (hs : FromBuilt B s) (hB : DistinctIds B)
    (hcoalesce : .mongoRaw ∉ env.outbox.fanoutCoalesceTargets) (hop : op.op.byWorkers)
    (hbuilt : ∀ x ∈ builtEvent env op.op, x ∈ B) : FromBuilt B (rawStep env s op) where
  requests := hs.requests.step hbuilt
  items := hs.items.step hs.requests
  outbox := by
    obtain ⟨ops, hops, hfrom, -⟩ := exists_outbox_run env hs hB hop
    rw [rawStep, hops]
    exact hs.outbox.run hcoalesce hfrom
  raw := hs.raw.foldl_persist fun _ he => exists_of_mem_persistedEvents hs he

theorem Durable.step (h : Durable e s) (hs : FromBuilt B s) (hB : DistinctIds B)
    (he : ∃ x ∈ B, x.2 = e) (hcoalesce : .mongoRaw ∉ env.outbox.fanoutCoalesceTargets)
    (hop : op.op.byWorkers) (hcollects : ¬ op.op.collects) : Durable e (rawStep env s op) := by
  rcases h with h | h
  · exact .inl (h.foldl_persist _)
  · refine .inr ?_
    obtain ⟨ops, hops, hfrom, hnot⟩ := exists_outbox_run env hs hB hop
    rw [rawStep, hops]
    exact h.run hB he hcoalesce hfrom (hnot hcollects)

end ContextLattice
