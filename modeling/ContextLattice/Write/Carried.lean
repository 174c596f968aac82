import ContextLattice.Write.System

/-!
# What travels through the write path

A property of prepared writes, raw events, entries and items is **carried** if whatever is built
from things with the property has it again.
-/

namespace ContextLattice

open Foundation List

structure Carried (env : WriteEnv) where
  write : PreparedWrite → Prop
  raw : RawEvent → Prop
  entry : RollupEntry → Prop
  item : BankItem → Prop
  raw_build : ∀ {w : PreparedWrite} (clk : Clock) (requestId : Option String) (eventId : String),
    write w → raw (buildRawMemoryEvent clk requestId eventId w)
  item_write : ∀ {p : PendingWrite} (rid : ℕ) (mongo : Option String) (gate : LettaGate),
    write p.write → raw p.rawEvent → item (writeItem env rid p mongo gate)
  entry_new : ∀ {p : PendingWrite} (clk : Clock) (gate : LettaGate),
    write p.write → entry (newRollupEntry clk (hotWriteOf env p gate))
  entry_record : ∀ {p : PendingWrite} {e : RollupEntry} (clk : Clock) (gate : LettaGate),
    write p.write → entry e → entry (e.record clk (hotWriteOf env p gate))
  entry_flushed : ∀ {e : RollupEntry} (now : ℚ), entry e → entry (e.flushed now)
  entry_restored : ∀ {e : RollupEntry} (failed : RollupEntry), entry e → entry (e.restored failed)
  item_rollup : ∀ {e : RollupEntry} {i : BankItem} (clk : Clock) (drawn : String),
    entry e → rollupItem env.cfg env.lib clk drawn e = .ok i → item i
  item_numbered : ∀ {i : BankItem} (ticket : ℕ), item i → item (i.numbered ticket)

namespace Carried

variable {env : WriteEnv} (P : Carried env) {s : WriteState} {op : WriteOp}

structure Everywhere (s : WriteState) : Prop where
  requests : ∀ rid p, s.requests.get? rid = some p → P.write p.write ∧ P.raw p.rawEvent
  rollups : ∀ p ∈ s.rollups.rows, P.entry p.2
  queue : ∀ item ∈ s.queue.items, P.item item
  held : ∀ worker job, s.held.get? worker = some job → P.item job.item
  stored : ∀ item ∈ s.stored, P.item item

def BringsIn : WriteOp → Prop
  | .receive _ _ _ _ _ req => ∀ w, prepareWrite env.cfg env.lib req = .ok w → P.write w
  | _ => True

variable {P}

/-! ### The rollup buffer -/

theorem rollups_enqueue {p : PendingWrite} {entries : Dict String RollupEntry}
    (hwrite : P.write p.write) (hentries : ∀ q ∈ entries.rows, P.entry q.2) (clk : Clock)
    (gate : LettaGate) :
    ∀ q ∈ (enqueueHotMemoryRollup clk (hotWriteOf env p gate) entries).rows, P.entry q.2 := by
  rintro ⟨key, entry⟩ hq
  rcases Dict.get?_set_eq_some.mp (Dict.get?_eq_some.mpr hq) with ⟨-, rfl⟩ | ⟨-, hold⟩
  · refine P.entry_record clk gate hwrite ?_
    rcases hfound : entries.get? (fileKey (hotWriteOf env p gate).write.project
      (hotWriteOf env p gate).write.file) with _ | old
    · exact P.entry_new clk gate hwrite
    · exact hentries _ (Dict.get?_eq_some.mp hfound)
  · exact hentries _ (Dict.get?_eq_some.mp hold)

private theorem everywhere_foldl_flushEntry (clk : Clock) (drawn : String → String)
    (st : Dict String RollupEntry × BankQueue) (pending : List (String × RollupEntry))
    (hpending : ∀ p ∈ pending, P.entry p.2) (hentries : ∀ p ∈ st.1.rows, P.entry p.2)
    (hqueue : ∀ item ∈ st.2.items, P.item item) :
    (∀ p ∈ (pending.foldl (flushEntry env.cfg env.lib clk drawn) st).1.rows, P.entry p.2) ∧
      ∀ item ∈ (pending.foldl (flushEntry env.cfg env.lib clk drawn) st).2.items,
        P.item item := by
  induction pending generalizing st with
  | nil => exact ⟨hentries, hqueue⟩
  | cons p pending ih =>
    have hp := hpending p mem_cons_self
    have hrest := fun p' hp' => hpending p' (mem_cons_of_mem p hp')
    rw [foldl_cons]
    rcases flushEntry_cases env.cfg env.lib clk drawn st p with ⟨item, hitem, heq⟩ | heq
    · rw [heq]
      refine ih _ hrest hentries fun i hi => ?_
      rw [BankQueue.items_put, mem_append, mem_singleton] at hi
      rcases hi with hi | rfl
      · exact hqueue i hi
      · exact P.item_numbered _ (P.item_rollup clk _ hp hitem)
    · rw [heq]
      refine ih _ hrest (fun p' hp' => ?_) hqueue
      rw [restoreEntry, Table.rows_update] at hp'
      obtain ⟨p'', hp'', rfl⟩ := mem_map.mp hp'
      have hold := hentries p'' hp''
      split
      · exact P.entry_restored _ hold
      · exact hold

/-! ### The steps -/

namespace Everywhere

theorem empty : P.Everywhere .empty where
  requests rid p h := by cases h
  rollups p h := by cases h
  queue item h := by cases h
  held worker job h := by cases h
  stored item h := by cases h

section

variable (hs : P.Everywhere s)

include hs

theorem answer (rid : ℕ) (a : Except HttpError WriteResponse) : P.Everywhere (s.answer rid a) :=
  { hs with requests := fun rid' p h => hs.requests rid' p (Dict.get?_erase_eq_some.mp h).2 }

theorem setRequest {p : PendingWrite} (hp : P.write p.write ∧ P.raw p.rawEvent) (rid : ℕ) :
    P.Everywhere (s.setRequest rid p) :=
  { hs with
    requests := by
      intro rid' p' h
      rcases Dict.get?_set_eq_some.mp h with ⟨-, rfl⟩ | ⟨-, h⟩
      · exact hp
      · exact hs.requests rid' p' h }

theorem put {item : BankItem} (hitem : P.item item) :
    P.Everywhere { s with queue := s.queue.put item } :=
  { hs with
    queue := by
      intro i hi
      rw [BankQueue.items_put, mem_append, mem_singleton] at hi
      rcases hi with hi | rfl
      · exact hs.queue i hi
      · exact P.item_numbered _ hitem }

theorem setHeld {job : BankJob} (hjob : P.item job.item) (worker : ℕ) :
    P.Everywhere { s with held := s.held.set worker job } :=
  { hs with
    held := by
      intro worker' job' h
      rcases Dict.get?_set_eq_some.mp h with ⟨-, rfl⟩ | ⟨-, h⟩
      · exact hjob
      · exact hs.held worker' job' h }

theorem finishJob (worker : ℕ) (item : BankItem) (error : Option String) :
    P.Everywhere (s.finishJob worker item error) :=
  { hs with held := fun worker' job h => hs.held worker' job (Dict.get?_erase_eq_some.mp h).2 }

theorem receive {req : MemoryWrite}
    (hreq : ∀ w, prepareWrite env.cfg env.lib req = .ok w → P.write w) (rid : ℕ) (clk : Clock)
    (now : ℚ) (requestId : Option String) (drawn : String) :
    P.Everywhere (receiveWrite env s rid clk now requestId drawn req) := by
  unfold receiveWrite
  split
  · exact hs.answer ..
  · rename_i w hw
    have hwrite := hreq w hw
    have hmaps : P.Everywhere { s with maps := (checkWrite env.cfg now w s.maps).1 } := { hs with }
    have hpending := And.intro hwrite (P.raw_build clk requestId drawn hwrite)
    dsimp only
    split
    · exact hmaps.answer ..
    · exact hmaps.setRequest hpending _
    · exact hmaps.setRequest hpending _

theorem admitted {rid : ℕ} {p : PendingWrite} (hp : s.requests.get? rid = some p) (clk : Clock)
    (mongo : Option String) (gate : LettaGate) :
    P.Everywhere (admitWrite env s rid p clk mongo gate) := by
  have hpending := hs.requests rid p hp
  unfold admitWrite
  dsimp only
  split
  · split
    · exact hs.answer ..
    · have hrollups : P.Everywhere
          { s with rollups := enqueueHotMemoryRollup clk (hotWriteOf env p gate) s.rollups } :=
        { hs with rollups := rollups_enqueue hpending.1 hs.rollups clk gate }
      refine hrollups.setRequest ?_ rid
      exact hpending
  · split
    · exact hs.answer ..
    · rename_i q hput
      rw [enqueueMemoryBankWrite_eq_ok hput]
      have hqueue := hs.put (P.item_write rid mongo gate hpending.1 hpending.2)
      refine hqueue.setRequest ?_ rid
      exact hpending

theorem rawStored (rid : ℕ) (clk : Clock) (mongo : Option String) (gate : LettaGate) :
    P.Everywhere (rawStoredWrite env s rid clk mongo gate) := by
  unfold rawStoredWrite
  split
  · exact hs
  · rename_i p hp
    split
    · split
      · exact hs.answer ..
      · refine hs.setRequest ?_ rid
        exact hs.requests rid p hp
    · exact hs.admitted hp clk mongo gate
    · exact hs

theorem seeded (rid : ℕ) (clk : Clock) (gate : LettaGate) :
    P.Everywhere (seededWrite env s rid clk gate) := by
  unfold seededWrite
  split
  · exact hs
  · rename_i p hp
    have houtbox : ∀ outbox, P.Everywhere { s with outbox := outbox } := fun _ => { hs with }
    split
    · dsimp only
      split
      · exact (houtbox _).answer ..
      · refine (houtbox _).setRequest ?_ rid
        exact hs.requests rid p hp
    · exact hs

theorem finish (rid : ℕ) (gate : LettaGate) (counts : FanoutCounts) :
    P.Everywhere (finishWrite env s rid gate counts) := by
  unfold finishWrite
  split
  · exact hs
  · split
    · exact hs.answer ..
    · split
      · exact hs
      · exact hs.answer ..
      · exact hs.answer ..
    · exact hs

theorem flush (clk : Clock) (now : ℚ) (force : Bool) (drawn : String → String) :
    P.Everywhere (writeStep env s (.flush clk now force drawn)) := by
  have hflushed : ∀ p ∈ (Table.updateWhere s.rollups (fun p => p.2.due env.cfg now force)
      (fun p => (p.1, p.2.flushed now)) fun _ => rfl).rows, P.entry p.2 := by
    intro p hp
    rw [Table.rows_updateWhere] at hp
    obtain ⟨p', hp', rfl⟩ := mem_map.mp hp
    have hold := hs.rollups p' hp'
    split
    · exact P.entry_flushed now hold
    · exact hold
  obtain ⟨hrollups, hqueue⟩ := everywhere_foldl_flushEntry clk drawn (_, s.queue) _
    (fun p hp => hs.rollups p (mem_of_mem_filter hp)) hflushed hs.queue
  exact { hs with rollups := hrollups, queue := hqueue }

theorem take (worker : ℕ) : P.Everywhere (takeItem s worker) := by
  unfold takeItem
  split
  · rename_i item rest _ hitems
    have hqueue : P.Everywhere { s with queue := s.queue.tail } :=
      { hs with queue := fun i hi => hs.queue i (mem_of_mem_tail hi) }
    exact hqueue.setHeld (hs.queue item (by rw [hitems]; exact mem_cons_self)) worker
  · exact hs

theorem store (worker : ℕ) : P.Everywhere (storeItem s worker) := by
  unfold storeItem
  split
  · rename_i item hheld
    have hitem : P.item item := hs.held worker _ hheld
    have hstored : P.Everywhere
        { s with
          bank := s.bank.set (item.project, item.fileName) item.content
          stored := s.stored ++ [item] } :=
      { hs with stored := forall_mem_append.mpr ⟨hs.stored, by simpa using hitem⟩ }
    refine hstored.setHeld ?_ worker
    exact hitem
  · exact hs

theorem publish (worker : ℕ) (clk : Clock) (drawn : String) (gate : LettaGate) :
    P.Everywhere (publishItem env s worker clk drawn gate) := by
  unfold publishItem
  split
  · have hpublished : ∀ outbox published,
        P.Everywhere { s with outbox := outbox, published := published } := fun _ _ => { hs with }
    exact (hpublished _ _).finishJob ..
  · exact hs

theorem fail (worker : ℕ) (error : String) : P.Everywhere (failItem s worker error) := by
  unfold failItem
  split
  · exact hs.finishJob ..
  · exact hs

theorem step (hop : P.BringsIn op) : P.Everywhere (writeStep env s op) := by
  cases op with
  | receive rid clk now requestId drawn req => exact hs.receive hop rid clk now requestId drawn
  | rawStored rid clk mongo gate => exact hs.rawStored rid clk mongo gate
  | seeded rid clk gate => exact hs.seeded rid clk gate
  | finish rid gate counts => exact hs.finish rid gate counts
  | flush clk now force drawn => exact hs.flush clk now force drawn
  | fanout op => exact { hs with }
  | take worker => exact hs.take worker
  | store worker => exact hs.store worker
  | publish worker clk drawn gate => exact hs.publish worker clk drawn gate
  | fail worker error => exact hs.fail worker error

end

end Everywhere

theorem everywhere_of_run {ops : List WriteOp} (hops : ∀ op ∈ ops, P.BringsIn op) :
    P.Everywhere (run (writeStep env) .empty ops) := by
  have halong : Along (writeStep env) (fun _ => P.BringsIn) .empty ops := by
    rw [along_iff]
    rintro pre op post rfl
    exact hops op (by simp)
  exact halong.invariant (fun _ _ hs hop => hs.step hop) .empty

end Carried

end ContextLattice
