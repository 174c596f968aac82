import ContextLattice.Foundation.Ledger
import ContextLattice.Write.Bank
import Mathlib.Algebra.Group.Prod
import Mathlib.Algebra.Order.Group.Multiset

/-!
# Flushes of the rollup buffer

A flush takes the counters of the due entries under the lock, sends the rollups outside it, and puts
the counters of one that could not be queued back. What buffer, flushes and queue hold for a key is
a **tally**.
-/

namespace ContextLattice

open Foundation List

/-! ### The machine -/

structure Flush where
  pending : List (String × RollupEntry)
  failed : Bool

structure RollupState where
  entries : Dict String RollupEntry
  flushes : Dict ℕ Flush
  queue : BankQueue
  queued : List BankItem

def RollupState.empty : RollupState := ⟨.empty, .empty, .empty, []⟩

inductive RollupOp where
  | write (clk : Clock) (hot : HotWrite)
  | start (flush : ℕ) (now : ℚ) (force : Bool)
  | send (flush : ℕ) (clk : Clock) (drawn : String → String) (raises : Bool)
  | restore (flush : ℕ)
  | finish (flush : ℕ)
  | others (queue : BankQueue)

variable (cfg : WriteConfig) (lib : WriteLib)

def sendRollup (clk : Clock) (drawn : String → String) (raises : Bool) (q : BankQueue)
    (p : String × RollupEntry) : Except HttpError (BankItem × BankQueue) := do
  if raises then .error ⟨500, ""⟩
  let item ← rollupItem cfg lib clk (drawn p.1) p.2
  let q ← enqueueMemoryBankWrite cfg item q
  .ok (item, q)

theorem fst_flushed (now : ℚ) (p : String × RollupEntry) : (p.1, p.2.flushed now).1 = p.1 := rfl

def rollupStep (s : RollupState) : RollupOp → RollupState
  | .write clk hot => { s with entries := enqueueHotMemoryRollup clk hot s.entries }
  | .start f now force =>
    let isDue (p : String × RollupEntry) : Bool := p.2.due cfg now force
    match s.flushes.get? f with
    | some _ => s
    | none =>
      { s with
        entries := Table.updateWhere s.entries isDue (fun p => (p.1, p.2.flushed now))
          (fst_flushed now)
        flushes := s.flushes.set f ⟨s.entries.rows.filter isDue, false⟩ }
  | .send f clk drawn raises =>
    match s.flushes.get? f with
    | some ⟨p :: rest, false⟩ =>
      match sendRollup cfg lib clk drawn raises s.queue p with
      | .ok (item, q) =>
        { s with
          queue := q
          queued := s.queued ++ [item]
          flushes := s.flushes.set f ⟨rest, false⟩ }
      | .error _ => { s with flushes := s.flushes.set f ⟨p :: rest, true⟩ }
    | _ => s
  | .restore f =>
    match s.flushes.get? f with
    | some ⟨p :: rest, true⟩ =>
      { s with
        entries := restoreEntry s.entries p.1 p.2
        flushes := s.flushes.set f ⟨rest, false⟩ }
    | _ => s
  | .finish f =>
    match s.flushes.get? f with
    | some ⟨[], false⟩ => { s with flushes := s.flushes.erase f }
    | _ => s
  | .others q => { s with queue := q }

/-! ### Tallies -/

abbrev Tally := Multiset String × ℕ

def HotWrite.key (hot : HotWrite) : String := fileKey hot.write.project hot.write.file

def HotWrite.tally (hot : HotWrite) : Tally := ({hot.eventId}, hot.write.content.toList.length)

def RollupEntry.tally (entry : RollupEntry) : Tally := (↑entry.events, entry.bytesSinceFlush)

def BankItem.tally (key : String) (item : BankItem) : Tally :=
  match item.content with
  | .text _ => 0
  | .rollup r =>
    if fileKey r.project r.sourceFile = key then (↑r.events, r.bytesSinceLastRollup) else 0

def Flush.tally (key : String) (flush : Flush) : Tally :=
  (flush.pending.map fun p => if p.1 = key then p.2.tally else 0).sum

namespace RollupState

variable (key : String) (s : RollupState)

def reported : Tally := (s.queued.map (BankItem.tally key)).sum

def buffered : Tally := Dict.weightAt RollupEntry.tally s.entries key

def flushing : Tally := Dict.total (Flush.tally key) s.flushes

def account : Tally := s.reported key + s.buffered key + s.flushing key

end RollupState

def RollupOp.hotWrite? (key : String) : RollupOp → Option HotWrite
  | .write _ hot => if hot.key = key then some hot else none
  | _ => none

def hotWrites (key : String) (ops : List RollupOp) : List HotWrite :=
  ops.filterMap (RollupOp.hotWrite? key)

def RollupOp.income (key : String) (op : RollupOp) : Tally :=
  ((op.hotWrite? key).map HotWrite.tally).getD 0

theorem income_write (key : String) (clk : Clock) (hot : HotWrite) :
    RollupOp.income key (.write clk hot) = if hot.key = key then hot.tally else 0 := by
  simp only [RollupOp.income, RollupOp.hotWrite?]
  split <;> rfl

/-! ### Entries keep their names -/

def Filed (p : String × RollupEntry) : Prop := fileKey p.2.project p.2.file = p.1

structure RollupState.Sound (s : RollupState) : Prop where
  entries : ∀ p ∈ s.entries.rows, Filed p
  flushes : ∀ f flush, s.flushes.get? f = some flush → ∀ p ∈ flush.pending,
    Filed p ∧ ∃ entry, s.entries.get? p.1 = some entry

variable {cfg : WriteConfig} {lib : WriteLib} {s : RollupState} {op : RollupOp} {f : ℕ}
  {p : String × RollupEntry} {rest : List (String × RollupEntry)}

theorem RollupState.Sound.setFlush (hs : s.Sound) {old : Flush}
    (hold : s.flushes.get? f = some old) (flush : Flush)
    (hsub : ∀ p ∈ flush.pending, p ∈ old.pending) :
    RollupState.Sound { s with flushes := s.flushes.set f flush } where
  entries := hs.entries
  flushes := by
    intro f' flush' hget p hp
    rcases Dict.get?_set_eq_some.mp hget with ⟨-, rfl⟩ | ⟨-, hget⟩
    · exact hs.flushes f old hold p (hsub p hp)
    · exact hs.flushes f' flush' hget p hp

variable {entries : Dict String RollupEntry}

theorem RollupState.Sound.setEntries (hs : s.Sound) (hfiled : ∀ p ∈ entries.rows, Filed p)
    (hkeys : ∀ key, (∃ entry, s.entries.get? key = some entry) →
      ∃ entry, entries.get? key = some entry) :
    RollupState.Sound { s with entries := entries } where
  entries := hfiled
  flushes := fun f flush hget p hp =>
    ⟨(hs.flushes f flush hget p hp).1, hkeys _ (hs.flushes f flush hget p hp).2⟩

theorem get?_restoreEntry (entries : Dict String RollupEntry) (key : String)
    (failed : RollupEntry) (key' : String) :
    Dict.get? (restoreEntry entries key failed) key' =
      (entries.get? key').map fun entry =>
        if key' = key then entry.restored failed else entry := by
  unfold restoreEntry Dict.get?
  by_cases hkey : key' = key
  · subst hkey
    rw [Table.find?_update, Option.map_map, Option.map_map]
    simp only [Function.comp_def, if_true]
  · rw [Table.find?_update_of_ne hkey, Option.map_map]
    simp only [Function.comp_def, if_neg hkey]

theorem get?_flushed (cfg : WriteConfig) (entries : Dict String RollupEntry) (now : ℚ)
    (force : Bool) (key : String) :
    Dict.get? (Table.updateWhere entries (fun p => p.2.due cfg now force)
        (fun p => (p.1, p.2.flushed now)) fun _ => rfl) key =
      (entries.get? key).map fun entry =>
        if entry.due cfg now force then entry.flushed now else entry := by
  unfold Dict.get?
  rw [Table.find?_updateWhere, Option.map_map, Option.map_map]
  congr 1
  funext p
  simp only [Function.comp_apply]
  split <;> rfl

theorem sendRollup_eq_ok {clk : Clock} {drawn : String → String} {raises : Bool} {q q' : BankQueue}
    {item : BankItem} (h : sendRollup cfg lib clk drawn raises q p = .ok (item, q')) :
    rollupItem cfg lib clk (drawn p.1) p.2 = .ok item ∧ q' = q.put item := by
  cases raises with
  | true => cases h
  | false =>
    cases hitem : rollupItem cfg lib clk (drawn p.1) p.2 with
    | error err => simp [sendRollup, hitem, bind, Except.bind] at h
    | ok item' =>
      cases hput : enqueueMemoryBankWrite cfg item' q with
      | error err => simp [sendRollup, hitem, hput, bind, Except.bind] at h
      | ok q'' =>
        simp only [sendRollup, hitem, hput, bind, Except.bind] at h
        cases h
        exact ⟨rfl, enqueueMemoryBankWrite_eq_ok hput⟩

theorem filed_enqueue (h : ∀ p ∈ entries.rows, Filed p) (clk : Clock) (hot : HotWrite) :
    ∀ p ∈ (enqueueHotMemoryRollup clk hot entries).rows, Filed p := by
  rintro ⟨key, entry⟩ hp
  rcases Dict.get?_set_eq_some.mp (Dict.get?_eq_some.mpr hp) with ⟨rfl, rfl⟩ | ⟨-, hold⟩
  · rcases hold : entries.get? (fileKey hot.write.project hot.write.file) with _ | old
    · exact rfl
    · have hfiled : Filed (_, old) := h _ (Dict.get?_eq_some.mp hold)
      exact hfiled
  · exact h _ (Dict.get?_eq_some.mp hold)

theorem filed_of_get?_map {entries entries' : Dict String RollupEntry}
    (h : ∀ p ∈ entries.rows, Filed p) {g : String → RollupEntry → RollupEntry}
    (hg : ∀ key entry, fileKey (g key entry).project (g key entry).file =
      fileKey entry.project entry.file)
    (hget : ∀ key, entries'.get? key = (entries.get? key).map (g key)) :
    ∀ p ∈ entries'.rows, Filed p := by
  rintro ⟨key, entry'⟩ hp
  have hentry := Dict.get?_eq_some.mpr hp
  rw [hget, Option.map_eq_some_iff] at hentry
  obtain ⟨entry, hold, rfl⟩ := hentry
  exact (hg key entry).trans (h _ (Dict.get?_eq_some.mp hold))

theorem RollupState.Sound.start (hs : s.Sound) (f : ℕ) (now : ℚ) (force : Bool) :
    (rollupStep cfg lib s (.start f now force)).Sound := by
  simp only [rollupStep]
  split
  · exact hs
  · have hget := get?_flushed cfg s.entries now force
    refine ⟨filed_of_get?_map hs.entries (fun _ entry => ?_) hget, ?_⟩
    · split <;> rfl
    · intro f' flush hflush p hp
      have hkept : ∀ key, (∃ entry, s.entries.get? key = some entry) →
          ∃ entry, Dict.get? (Table.updateWhere s.entries (fun p => p.2.due cfg now force)
            (fun p => (p.1, p.2.flushed now)) fun _ => rfl) key = some entry := by
        rintro key ⟨entry, hentry⟩
        exact ⟨_, by rw [hget, hentry, Option.map_some]⟩
      rcases Dict.get?_set_eq_some.mp hflush with ⟨-, rfl⟩ | ⟨-, hflush⟩
      · have hmem := mem_of_mem_filter hp
        exact ⟨hs.entries p hmem, hkept p.1 ⟨p.2, Dict.get?_eq_some.mpr hmem⟩⟩
      · have hold := hs.flushes f' flush hflush p hp
        exact ⟨hold.1, hkept p.1 hold.2⟩

theorem RollupState.Sound.step (hs : s.Sound) (op : RollupOp) :
    (rollupStep cfg lib s op).Sound := by
  cases op with
  | write clk hot =>
    refine hs.setEntries (filed_enqueue hs.entries clk hot) fun key hkey => ?_
    exact Dict.exists_get?_set.mpr (.inr hkey)
  | start f now force => exact hs.start f now force
  | send f clk drawn raises =>
    simp only [rollupStep]
    split
    · rename_i p rest hflush
      split
      · have := hs.setFlush hflush ⟨rest, false⟩ fun p' hp' =>
          mem_cons_of_mem p hp'
        exact ⟨this.entries, this.flushes⟩
      · exact hs.setFlush hflush ⟨p :: rest, true⟩ fun p' hp' => hp'
    · exact hs
  | restore f =>
    simp only [rollupStep]
    split
    · rename_i p rest hflush
      have hget := get?_restoreEntry s.entries p.1 p.2
      have hrest := hs.setFlush hflush ⟨rest, false⟩ fun p' hp' =>
        mem_cons_of_mem p hp'
      refine hrest.setEntries (filed_of_get?_map hs.entries (fun _ entry => ?_) hget) ?_
      · split <;> rfl
      · rintro key ⟨entry, hentry⟩
        exact ⟨_, by rw [hget, hentry, Option.map_some]⟩
    · exact hs
  | finish f =>
    simp only [rollupStep]
    split
    · exact ⟨hs.entries, fun f' flush hflush =>
        hs.flushes f' flush (Dict.get?_erase_eq_some.mp hflush).2⟩
    · exact hs
  | others q => exact ⟨hs.entries, hs.flushes⟩

/-! ### The account -/

variable {key : String} {failed : Bool}

def tallyFor (key : String) (p : String × RollupEntry) : Tally :=
  if p.1 = key then p.2.tally else 0

theorem Flush.tally_cons : Flush.tally key ⟨p :: rest, failed⟩ =
    tallyFor key p + Flush.tally key ⟨rest, false⟩ := by
  rw [Flush.tally, map_cons, sum_cons]
  rfl

theorem flushing_set_tail (h : s.flushes.get? f = some ⟨p :: rest, failed⟩) :
    Dict.total (Flush.tally key) (s.flushes.set f ⟨rest, false⟩) + tallyFor key p =
      s.flushing key := by
  have hset := Dict.total_set (Flush.tally key) s.flushes f ⟨rest, false⟩
  rw [Dict.weightAt_eq h, Flush.tally_cons, ← add_assoc] at hset
  exact add_right_cancel hset

theorem buffered_write (s : RollupState) (key : String) (clk : Clock) (hot : HotWrite) :
    Dict.weightAt RollupEntry.tally (enqueueHotMemoryRollup clk hot s.entries) key =
      s.buffered key + RollupOp.income key (.write clk hot) := by
  have htally : ∀ entry : RollupEntry, (entry.record clk hot).tally = entry.tally + hot.tally := by
    intro entry
    exact Prod.ext (Multiset.coe_add entry.events [hot.eventId]).symm rfl
  rw [income_write, enqueueHotMemoryRollup]
  by_cases hkey : hot.key = key
  · rw [if_pos hkey, RollupState.buffered, ← hkey, HotWrite.key,
      Dict.weightAt_eq (Dict.get?_set ..), htally]
    congr 1
    rcases hold : s.entries.get? (fileKey hot.write.project hot.write.file) with _ | old
    · rw [Dict.weightAt_eq_zero hold]
      rfl
    · rw [Dict.weightAt_eq hold]
      rfl
  · rw [if_neg hkey, add_zero, RollupState.buffered, Dict.weightAt, Dict.weightAt]
    congr 2
    exact Dict.get?_set_of_ne (Ne.symm hkey) _

theorem buffered_start (cfg : WriteConfig) (now : ℚ) (force : Bool) :
    Dict.weightAt RollupEntry.tally (Table.updateWhere s.entries (fun p => p.2.due cfg now force)
        (fun p => (p.1, p.2.flushed now)) fun _ => rfl) key +
      Flush.tally key ⟨s.entries.rows.filter fun p => p.2.due cfg now force, false⟩ =
        s.buffered key := by
  have htaken := Dict.sum_filter_rows RollupEntry.tally s.entries
    (fun p => p.2.due cfg now force) key
  rw [Flush.tally, htaken, Dict.weightAt, get?_flushed, RollupState.buffered]
  rcases hentry : s.entries.get? key with _ | entry
  · rw [Dict.weightAt_eq_zero hentry, Dict.weightAt_eq_zero hentry]
    rfl
  · rw [Dict.weightAt_eq hentry, Dict.weightAt_eq hentry]
    simp only [Option.map_some, Option.getD_some]
    split
    · -- the entry keeps nothing
      exact zero_add _
    · exact add_zero _

theorem buffered_restore (key : String) (h : ∃ entry, s.entries.get? p.1 = some entry) :
    Dict.weightAt RollupEntry.tally (restoreEntry s.entries p.1 p.2) key =
      s.buffered key + tallyFor key p := by
  rw [Dict.weightAt, get?_restoreEntry, RollupState.buffered, Dict.weightAt, tallyFor]
  by_cases hkey : p.1 = key
  · subst hkey
    obtain ⟨entry, hentry⟩ := h
    rw [hentry, if_pos rfl]
    simp only [Option.map_some, Option.getD_some, if_true]
    exact Prod.ext (Multiset.coe_add entry.events p.2.events).symm rfl
  · simp only [if_neg hkey, if_neg (Ne.symm hkey), add_zero, Option.map_id']

theorem account_rollupStep (hs : s.Sound) (op : RollupOp) :
    (rollupStep cfg lib s op).account key = s.account key + op.income key := by
  have hincome (hop : op.hotWrite? key = none) : op.income key = 0 := by
    rw [RollupOp.income, hop, Option.map_none, Option.getD_none]
  cases op with
  | write clk hot =>
    have hbuffered := buffered_write s key clk hot
    rw [RollupState.account, RollupState.buffered, rollupStep, hbuffered, RollupState.account]
    simp only [RollupState.reported, RollupState.flushing]
    abel
  | start f now force =>
    simp only [rollupStep, hincome rfl, add_zero]
    split
    · rfl
    · rename_i hnone
      have hset := Dict.total_set (Flush.tally key) s.flushes f
        ⟨s.entries.rows.filter fun p => p.2.due cfg now force, false⟩
      rw [Dict.weightAt_eq_zero hnone, add_zero] at hset
      simp only [RollupState.account, RollupState.flushing, hset]
      rw [← buffered_start (s := s) cfg now force]
      simp only [RollupState.reported, RollupState.buffered]
      abel
  | send f clk drawn raises =>
    simp only [rollupStep, hincome rfl, add_zero]
    split
    · rename_i p rest hflush
      split
      · rename_i item q hsend
        have hp := (hs.flushes f _ hflush p mem_cons_self).1
        have hkey : fileKey p.2.project p.2.file = p.1 := hp
        have htally : item.tally key = tallyFor key p := by
          rw [BankItem.tally, (rollupItem_eq_ok (sendRollup_eq_ok hsend).1).1]
          simp only [buildHotMemoryRollupContent, hkey]
          rfl
        rw [RollupState.account, RollupState.account, ← flushing_set_tail hflush]
        simp only [RollupState.reported, RollupState.flushing, RollupState.buffered,
          map_append, map_singleton, sum_append, sum_singleton, htally]
        abel
      · have hset := Dict.total_set (Flush.tally key) s.flushes f ⟨p :: rest, true⟩
        rw [Dict.weightAt_eq hflush] at hset
        have hsame := add_right_cancel hset
        simp only [RollupState.account, RollupState.flushing, hsame]
        rfl
    · rfl
  | restore f =>
    simp only [rollupStep, hincome rfl, add_zero]
    split
    · rename_i p rest hflush
      have hp := (hs.flushes f _ hflush p mem_cons_self).2
      have hback := buffered_restore key hp
      rw [RollupState.account, RollupState.account, ← flushing_set_tail hflush]
      simp only [RollupState.reported, RollupState.flushing]
      rw [RollupState.buffered, hback]
      abel
    · rfl
  | finish f =>
    simp only [rollupStep, hincome rfl, add_zero]
    split
    · rename_i hflush
      have herase := Dict.total_eq_add_erase (w := Flush.tally key) hflush
      have hempty : Flush.tally key ⟨[], false⟩ = 0 := rfl
      rw [hempty, zero_add] at herase
      simp only [RollupState.account, RollupState.flushing, herase]
      rfl
    · rfl
  | others q => rw [hincome rfl, add_zero]; rfl

theorem RollupState.Sound.empty : RollupState.Sound .empty where
  entries p hp := by cases hp
  flushes f flush h := by cases h

theorem sum_income (key : String) (ops : List RollupOp) :
    (ops.map (RollupOp.income key)).sum = (↑((hotWrites key ops).map HotWrite.eventId),
      ((hotWrites key ops).map fun hot => hot.write.content.toList.length).sum) := by
  induction ops with
  | nil => rfl
  | cons op ops ih =>
    rw [map_cons, sum_cons, ih]
    simp only [RollupOp.income, hotWrites, filterMap_cons]
    cases op.hotWrite? key with
    | none => exact zero_add _
    | some hot => rfl

/-- **Hot rollups conserve events**: queued, buffered and held by a flush, each event of a key is
counted once. -/
theorem rollups_conserved (cfg : WriteConfig) (lib : WriteLib) (ops : List RollupOp)
    (key : String) :
    let s := run (rollupStep cfg lib) .empty ops
    (s.reported key).1 + (s.buffered key).1 + (s.flushing key).1 =
        ↑((hotWrites key ops).map HotWrite.eventId) ∧
      (s.reported key).1.card + (s.buffered key).1.card + (s.flushing key).1.card =
        (hotWrites key ops).length ∧
      (s.reported key).2 + (s.buffered key).2 + (s.flushing key).2 =
        ((hotWrites key ops).map fun hot => hot.write.content.toList.length).sum := by
  intro s
  have hsound : ∀ s op, RollupState.Sound s → (rollupStep cfg lib s op).Sound :=
    fun _ op hs => hs.step op
  have hstep : ∀ s op, RollupState.Sound s → (rollupStep cfg lib s op).account key =
      s.account key + op.income key := fun _ op hs => account_rollupStep hs op
  have hbalance := run_balance hsound hstep .empty ops
  have hempty : RollupState.empty.account key = 0 := rfl
  rw [hempty, zero_add, sum_income] at hbalance
  have hevents := congrArg Prod.fst hbalance
  refine ⟨hevents, ?_, congrArg Prod.snd hbalance⟩
  have hcard := congrArg Multiset.card hevents
  simpa [RollupState.account] using hcard

end ContextLattice
