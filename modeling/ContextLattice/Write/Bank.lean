import ContextLattice.Outbox.System
import ContextLattice.Write.Suppress

/-!
# The memory-bank queue and the rollup buffer

A write becomes an **item** of the memory-bank queue, or is buffered if its file is hot; a flush
turns the entry of a file into one item, a *rollup*. The model keeps the event ids where the source
keeps their number.
-/

namespace ContextLattice

open Foundation List

/-! ### Items -/

structure RawEvent where
  eventId : String
  source : String
  project : String
  file : String
  contentRaw : String
  summary : String
  topicPath : String
  topicTags : List String
  requestId : Option String
  createdAt : Stamp
  updatedAt : Stamp
deriving DecidableEq

structure LettaContext where
  project : String
  file : String
  topicPath : String
  sourceKind : String
  summary : Option String := none
  contentHash : Option String := none
  content : Option String := none
  rollupFile : Option String := none
deriving DecidableEq

structure RollupContent where
  project : String
  sourceFile : String
  sourceContentSha256 : String
  sourceSizeBytes : ℕ
  topicPath : String
  topicTags : List String
  summary : String
  events : List String
  bytesSinceLastRollup : ℕ
  firstSeenAt : Stamp
  lastSeenAt : Stamp
  rollupGeneratedAt : Stamp
deriving DecidableEq

inductive Content where
  | text (s : String)
  | rollup (r : RollupContent)
deriving DecidableEq

structure BankPayload where
  projectName : String
  fileName : String
  content : Option Content
deriving DecidableEq

structure FanoutRest where
  payload : BankPayload
  lettaSession : Option String
  lettaContext : Option LettaContext
  lettaAdmit : Option Bool
  qdrantCollection : String
  rawEvent : Option RawEvent
deriving DecidableEq

structure BankItem where
  ticket : ℕ
  project : String
  file : String
  fileName : String
  content : Content
  summary : String
  topicPath : String
  topicTags : List String
  contentLength : ℕ
  lettaSession : Option String
  lettaAdmit : Bool
  lettaContext : Option LettaContext
  waiter : Option ℕ
  eventId : String
  rawEvent : Option RawEvent
  mongoPersisted : Bool
  qdrantCollection : String
deriving DecidableEq

namespace BankItem

def payload (item : BankItem) : BankPayload :=
  ⟨item.project, item.fileName, some item.content⟩

def carries (item : BankItem) : List String :=
  match item.content with
  | .text _ => [item.eventId]
  | .rollup r => r.events

def numbered (item : BankItem) (ticket : ℕ) : BankItem := { item with ticket := ticket }

end BankItem

/-! ### The queue -/

structure BankQueue where
  items : List BankItem
  next : ℕ
  sorted : items.Pairwise fun a b => a.ticket < b.ticket
  lt_next : ∀ item ∈ items, item.ticket < next

namespace BankQueue

def empty : BankQueue := ⟨[], 0, .nil, by simp⟩

def full (cfg : WriteConfig) (q : BankQueue) : Bool :=
  decide (0 < cfg.memoryBankQueueMax ∧ cfg.memoryBankQueueMax ≤ q.items.length)

def put (q : BankQueue) (item : BankItem) : BankQueue where
  items := q.items ++ [item.numbered q.next]
  next := q.next + 1
  sorted := by
    refine pairwise_append.mpr ⟨q.sorted, pairwise_singleton .., fun a ha b hb => ?_⟩
    rw [mem_singleton.mp hb]
    exact q.lt_next a ha
  lt_next := by
    intro a ha
    rcases mem_append.mp ha with ha | ha
    · exact (q.lt_next a ha).trans (Nat.lt_succ_self _)
    · rw [mem_singleton.mp ha]
      exact Nat.lt_succ_self _

def tail (q : BankQueue) : BankQueue where
  items := q.items.tail
  next := q.next
  sorted := q.sorted.sublist (tail_sublist _)
  lt_next := fun a ha => q.lt_next a (mem_of_mem_tail ha)

@[simp] theorem items_tail (q : BankQueue) : q.tail.items = q.items.tail := rfl

@[simp] theorem items_put (q : BankQueue) (item : BankItem) :
    (q.put item).items = q.items ++ [item.numbered q.next] := rfl

end BankQueue

def enqueueMemoryBankWrite (cfg : WriteConfig) (item : BankItem) (q : BankQueue) :
    Except HttpError BankQueue :=
  if q.full cfg then .error ⟨503, "memory write queue full"⟩ else .ok (q.put item)

/-! ### The rollup buffer -/

structure RollupEntry where
  project : String
  file : String
  topicPath : String
  topicTags : List String
  summary : String
  lastHash : String
  lastSize : ℕ
  lettaSession : Option String
  lettaAdmit : Bool
  lettaContext : Option LettaContext
  qdrantCollection : String
  events : List String
  bytesSinceFlush : ℕ
  firstSeenAt : Stamp
  lastSeenAt : Stamp
  lastFlushMonotonic : ℚ
deriving DecidableEq

structure HotWrite where
  write : PreparedWrite
  eventId : String
  lettaSession : Option String
  lettaAdmit : Bool
  lettaContext : Option LettaContext
  qdrantCollection : String

def newRollupEntry (clk : Clock) (hot : HotWrite) : RollupEntry where
  project := hot.write.project
  file := hot.write.file
  topicPath := hot.write.topicPath
  topicTags := hot.write.topicTags
  summary := hot.write.summary
  lastHash := hot.write.contentHash
  lastSize := hot.write.content.toList.length
  lettaSession := hot.lettaSession
  lettaAdmit := hot.lettaAdmit
  lettaContext := hot.lettaContext
  qdrantCollection := hot.qdrantCollection
  events := []
  bytesSinceFlush := 0
  firstSeenAt := clk.now
  lastSeenAt := clk.now
  lastFlushMonotonic := 0

def RollupEntry.record (clk : Clock) (hot : HotWrite) (entry : RollupEntry) : RollupEntry :=
  { entry with
    topicPath := hot.write.topicPath
    topicTags := hot.write.topicTags
    summary := hot.write.summary
    lastHash := hot.write.contentHash
    lastSize := hot.write.content.toList.length
    lettaSession := hot.lettaSession
    lettaAdmit := hot.lettaAdmit
    lettaContext := hot.lettaContext
    qdrantCollection := hot.qdrantCollection
    lastSeenAt := clk.now
    events := entry.events ++ [hot.eventId]
    bytesSinceFlush := entry.bytesSinceFlush + hot.write.content.toList.length }

def enqueueHotMemoryRollup (clk : Clock) (hot : HotWrite) (entries : Dict String RollupEntry) :
    Dict String RollupEntry :=
  let key := fileKey hot.write.project hot.write.file
  let entry := (entries.get? key).getD (newRollupEntry clk hot)
  entries.set key (entry.record clk hot)

variable (cfg : WriteConfig) (lib : WriteLib) (clk : Clock) (now : ℚ) (force : Bool)

def RollupEntry.due (entry : RollupEntry) : Bool :=
  decide (entry.events ≠ []) &&
    (force || decide (entry.lastFlushMonotonic ≤ 0) ||
      decide (max 1 cfg.hotMemoryRollupFlushSecs ≤ now - entry.lastFlushMonotonic))

def RollupEntry.flushed (entry : RollupEntry) : RollupEntry :=
  { entry with events := [], bytesSinceFlush := 0, lastFlushMonotonic := now }

def buildHotMemoryRollupContent (entry : RollupEntry) : RollupContent where
  project := entry.project
  sourceFile := entry.file
  sourceContentSha256 := entry.lastHash
  sourceSizeBytes := entry.lastSize
  topicPath := entry.topicPath
  topicTags := entry.topicTags
  summary := entry.summary
  events := entry.events
  bytesSinceLastRollup := entry.bytesSinceFlush
  firstSeenAt := entry.firstSeenAt
  lastSeenAt := entry.lastSeenAt
  rollupGeneratedAt := clk.now

def rollupItem (drawn : String) (entry : RollupEntry) : Except HttpError BankItem := do
  let rollupFile ← buildHotMemoryRollupFile cfg lib entry.file
  let context : LettaContext := entry.lettaContext.getD
    { project := entry.project, file := entry.file, topicPath := entry.topicPath, sourceKind := "" }
  .ok { ticket := 0
        project := entry.project
        file := entry.file
        fileName := rollupFile
        content := .rollup (buildHotMemoryRollupContent clk entry)
        summary := truncate 400 entry.summary
        topicPath := entry.topicPath
        topicTags := entry.topicTags
        contentLength := entry.lastSize
        lettaSession := entry.lettaSession
        lettaAdmit := entry.lettaAdmit
        lettaContext := some { context with
          project := entry.project
          file := entry.file
          topicPath := entry.topicPath
          rollupFile := some rollupFile
          sourceKind := "high_frequency_rollup" }
        waiter := none
        eventId := drawn
        rawEvent := none
        mongoPersisted := true
        qdrantCollection := if entry.qdrantCollection = "" then cfg.qdrantCollection
          else entry.qdrantCollection }

def RollupEntry.restored (entry failed : RollupEntry) : RollupEntry :=
  { entry with
    events := entry.events ++ failed.events
    bytesSinceFlush := entry.bytesSinceFlush + failed.bytesSinceFlush }

def restoreEntry (entries : Dict String RollupEntry) (key : String) (failed : RollupEntry) :
    Dict String RollupEntry :=
  Table.update entries key (fun p => (p.1, p.2.restored failed)) fun _ => rfl

def flushEntry (drawn : String → String) (st : Dict String RollupEntry × BankQueue)
    (p : String × RollupEntry) : Dict String RollupEntry × BankQueue :=
  match rollupItem cfg lib clk (drawn p.1) p.2 >>= fun item => enqueueMemoryBankWrite cfg item st.2
    with
  | .ok q => (st.1, q)
  -- the queue is full, or the file has no rollup file
  | .error _ => (restoreEntry st.1 p.1 p.2, st.2)

def flushHotMemoryRollups (drawn : String → String) (entries : Dict String RollupEntry)
    (q : BankQueue) : Dict String RollupEntry × BankQueue :=
  let isDue (p : String × RollupEntry) : Bool := p.2.due cfg now force
  (entries.rows.filter isDue).foldl (flushEntry cfg lib clk drawn)
    (Table.updateWhere entries isDue (fun p => (p.1, p.2.flushed now)) fun _ => rfl, q)

/-! ### What a flush does -/

def Buffered (e : String) (entries : Dict String RollupEntry) : Prop :=
  ∃ p ∈ entries.rows, e ∈ p.2.events

def Queued (e : String) (q : BankQueue) : Prop := ∃ item ∈ q.items, e ∈ item.carries

variable {cfg : WriteConfig} {lib : WriteLib} {clk : Clock} {now : ℚ} {force : Bool}
  {drawn : String → String} {entries : Dict String RollupEntry} {q : BankQueue} {e : String}
  {p : String × RollupEntry} {st : Dict String RollupEntry × BankQueue}

theorem Queued.put (h : Queued e q) (item : BankItem) : Queued e (q.put item) := by
  obtain ⟨i, hi, he⟩ := h
  exact ⟨i, mem_append_left _ hi, he⟩

variable {item : BankItem}

theorem Queued.put_self (h : e ∈ item.carries) : Queued e (q.put item) :=
  ⟨item.numbered q.next, by simp, h⟩

theorem enqueueMemoryBankWrite_eq_ok {q' : BankQueue}
    (h : enqueueMemoryBankWrite cfg item q = .ok q') : q' = q.put item := by
  unfold enqueueMemoryBankWrite at h
  split at h <;> cases h
  rfl

theorem rollupItem_eq_ok {id : String} {entry : RollupEntry}
    (h : rollupItem cfg lib clk id entry = .ok item) :
    item.content = .rollup (buildHotMemoryRollupContent clk entry) ∧
      item.mongoPersisted = true := by
  unfold rollupItem at h
  cases hfile : buildHotMemoryRollupFile cfg lib entry.file with
  | error err => simp [hfile, bind, Except.bind] at h
  | ok file =>
    simp only [hfile, bind, Except.bind] at h
    cases h
    exact ⟨rfl, rfl⟩

theorem flushEntry_cases (cfg : WriteConfig) (lib : WriteLib) (clk : Clock)
    (drawn : String → String) (st : Dict String RollupEntry × BankQueue)
    (p : String × RollupEntry) :
    (∃ item, rollupItem cfg lib clk (drawn p.1) p.2 = .ok item ∧
        flushEntry cfg lib clk drawn st p = (st.1, st.2.put item)) ∨
      flushEntry cfg lib clk drawn st p = (restoreEntry st.1 p.1 p.2, st.2) := by
  unfold flushEntry
  cases hitem : rollupItem cfg lib clk (drawn p.1) p.2 with
  | error err => exact .inr rfl
  | ok item =>
    simp only [bind, Except.bind]
    cases hput : enqueueMemoryBankWrite cfg item st.2 with
    | error err => exact .inr rfl
    | ok q' =>
      rw [enqueueMemoryBankWrite_eq_ok hput]
      exact .inl ⟨item, rfl, rfl⟩

theorem mem_restoreEntry (hp : p ∈ entries.rows) (key : String) (failed : RollupEntry) :
    (if p.1 = key then (p.1, p.2.restored failed) else p) ∈
      (restoreEntry entries key failed).rows := by
  rw [restoreEntry, Table.rows_update]
  exact mem_map_of_mem hp

theorem Buffered.restore (h : Buffered e entries) (key : String) (failed : RollupEntry) :
    Buffered e (restoreEntry entries key failed) := by
  obtain ⟨p, hp, he⟩ := h
  refine ⟨_, mem_restoreEntry hp key failed, ?_⟩
  split
  · exact mem_append_left _ he
  · exact he

theorem Buffered.restore_self {key : String} {failed : RollupEntry}
    (hkey : key ∈ entries.rows.map Prod.fst) (he : e ∈ failed.events) :
    Buffered e (restoreEntry entries key failed) := by
  obtain ⟨p, hp, rfl⟩ := mem_map.mp hkey
  refine ⟨_, mem_restoreEntry hp p.1 failed, ?_⟩
  rw [if_pos rfl]
  exact mem_append_right _ he

@[simp] theorem keys_restoreEntry (entries : Dict String RollupEntry) (key : String)
    (entry : RollupEntry) :
    (restoreEntry entries key entry).rows.map Prod.fst = entries.rows.map Prod.fst := by
  rw [restoreEntry, Table.rows_update, map_map]
  refine map_congr_left fun p _ => ?_
  simp only [Function.comp_apply]
  split <;> rfl

private theorem kept_foldl_flushEntry (pending : List (String × RollupEntry))
    (hkeys : ∀ p ∈ pending, p.1 ∈ st.1.rows.map Prod.fst)
    (h : Buffered e st.1 ∨ Queued e st.2 ∨ ∃ p ∈ pending, e ∈ p.2.events) :
    Buffered e (pending.foldl (flushEntry cfg lib clk drawn) st).1 ∨
      Queued e (pending.foldl (flushEntry cfg lib clk drawn) st).2 := by
  induction pending generalizing st with
  | nil => simpa using h
  | cons p pending ih =>
    have hp := hkeys p mem_cons_self
    have hrest : ∀ p ∈ pending, p.1 ∈ st.1.rows.map Prod.fst := fun p' hp' =>
      hkeys p' (mem_cons_of_mem p hp')
    rw [foldl_cons]
    -- the writes of the entry at hand go into the queue, or back into the buffer
    rcases flushEntry_cases cfg lib clk drawn st p with ⟨item, hitem, heq⟩ | heq
    · rw [heq]
      refine ih hrest ?_
      rcases h with h | h | ⟨p', hp', he⟩
      · exact .inl h
      · exact .inr (.inl (h.put item))
      · rcases mem_cons.mp hp' with rfl | hp'
        · exact .inr (.inl (.put_self (by rwa [BankItem.carries, (rollupItem_eq_ok hitem).1])))
        · exact .inr (.inr ⟨p', hp', he⟩)
    · rw [heq]
      refine ih (by simpa using hrest) ?_
      rcases h with h | h | ⟨p', hp', he⟩
      · exact .inl (h.restore ..)
      · exact .inr (.inl h)
      · rcases mem_cons.mp hp' with rfl | hp'
        · exact .inl (.restore_self hp he)
        · exact .inr (.inr ⟨p', hp', he⟩)

/-- **A flush loses no write**: what was buffered or queued is buffered or queued after it, whether
or not the queue had room. -/
theorem kept_flush (h : Buffered e entries ∨ Queued e q) :
    Buffered e (flushHotMemoryRollups cfg lib clk now force drawn entries q).1 ∨
      Queued e (flushHotMemoryRollups cfg lib clk now force drawn entries q).2 := by
  refine kept_foldl_flushEntry _ (fun p hp => ?_) ?_
  · rw [Table.rows_updateWhere, map_map]
    refine mem_map.mpr ⟨p, mem_of_mem_filter hp, ?_⟩
    simp only [Function.comp_apply]
    split <;> rfl
  · rcases h with ⟨p, hp, he⟩ | h
    · cases hdue : p.2.due cfg now force with
      | true => exact .inr (.inr ⟨p, mem_filter.mpr ⟨hp, hdue⟩, he⟩)
      | false =>
        refine .inl ⟨p, ?_, he⟩
        rw [Table.rows_updateWhere]
        exact mem_map.mpr ⟨p, hp, by simp [hdue]⟩
    · exact .inr (.inl h)

private theorem exists_foldl_put_flushEntry (pending : List (String × RollupEntry)) :
    ∃ items : List BankItem,
      (pending.foldl (flushEntry cfg lib clk drawn) st).2 = items.foldl BankQueue.put st.2 := by
  induction pending generalizing st with
  | nil => exact ⟨[], rfl⟩
  | cons p pending ih =>
    rw [foldl_cons]
    rcases flushEntry_cases cfg lib clk drawn st p with ⟨item, -, heq⟩ | heq
    · rw [heq]
      obtain ⟨items, hitems⟩ := @ih (st.1, st.2.put item)
      exact ⟨item :: items, hitems⟩
    · rw [heq]
      exact ih

theorem exists_foldl_put_flush (cfg : WriteConfig) (lib : WriteLib) (clk : Clock) (now : ℚ)
    (force : Bool) (drawn : String → String) (entries : Dict String RollupEntry) (q : BankQueue) :
    ∃ items : List BankItem,
      (flushHotMemoryRollups cfg lib clk now force drawn entries q).2 =
        items.foldl BankQueue.put q :=
  exists_foldl_put_flushEntry _

end ContextLattice
