import ContextLattice.Write.System

/-!
# The order of stored writes

Several workers call the memory bank at once, and nothing keeps two items of one file apart.
-/

namespace ContextLattice

open Foundation List

def SameBankFile (a b : BankItem) : Prop :=
  a.project = b.project ∧ (a.file = b.file ∨ a.fileName = b.fileName)

instance (a b : BankItem) : Decidable (SameBankFile a b) := inferInstanceAs (Decidable (_ ∧ _))

theorem SameBankFile.symm {a b : BankItem} (h : SameBankFile a b) : SameBankFile b a :=
  ⟨h.1.symm, h.2.imp Eq.symm Eq.symm⟩

def NoOverlap (s : WriteState) : WriteOp → Prop
  | .take worker => s.held.get? worker = none → ∀ item ∈ s.queue.items.head?,
    ∀ p ∈ s.held.rows, ¬ SameBankFile p.2.item item
  | _ => True

instance (s : WriteState) : ∀ op, Decidable (NoOverlap s op)
  | .take worker => inferInstanceAs (Decidable (s.held.get? worker = none →
    ∀ item ∈ s.queue.items.head?, ∀ p ∈ s.held.rows, ¬ SameBankFile p.2.item item))
  | .receive .. | .rawStored .. | .seeded .. | .finish .. | .flush .. | .store .. | .publish ..
  | .fail .. | .fanout .. => inferInstanceAs (Decidable True)

def BankQueue.Past (q : BankQueue) (item : BankItem) : Prop :=
  item.ticket < q.next ∧ ∀ i ∈ q.items, item.ticket < i.ticket

variable {q : BankQueue} {item : BankItem}

theorem BankQueue.Past.put (h : q.Past item) (i : BankItem) : (q.put i).Past item := by
  refine ⟨h.1.trans (Nat.lt_succ_self _), fun j hj => ?_⟩
  rcases mem_append.mp hj with hj | hj
  · exact h.2 j hj
  · rw [mem_singleton.mp hj]
    exact h.1

theorem BankQueue.Past.foldl_put (h : q.Past item) (items : List BankItem) :
    (items.foldl BankQueue.put q).Past item := by
  induction items generalizing q with
  | nil => exact h
  | cons i items ih => exact ih (h.put i)

theorem BankQueue.Past.tail (h : q.Past item) : q.tail.Past item :=
  ⟨h.1, fun i hi => h.2 i (mem_of_mem_tail hi)⟩

variable {rest : List BankItem}

theorem BankQueue.past_head (h : q.items = item :: rest) : q.tail.Past item := by
  refine ⟨q.lt_next item (by simp [h]), fun i hi => ?_⟩
  have hsorted := q.sorted
  rw [h, pairwise_cons] at hsorted
  exact hsorted.1 i (by simpa [h] using hi)

def TicketSorted (l : List BankItem) : Prop :=
  l.Pairwise fun a b => SameBankFile a b → a.ticket < b.ticket

variable {l : List BankItem}

theorem TicketSorted.concat {item : BankItem} (hl : TicketSorted l)
    (hnewer : ∀ i ∈ l, SameBankFile i item → i.ticket < item.ticket) :
    TicketSorted (l ++ [item]) := by
  refine pairwise_append.mpr ⟨hl, pairwise_singleton .., ?_⟩
  intro a ha b hb
  rw [mem_singleton.mp hb]
  exact hnewer a ha

structure BankOrdered (s : WriteState) : Prop where
  heldPast : ∀ w job, s.held.get? w = some job → s.queue.Past job.item
  storedPast : ∀ i ∈ s.stored, s.queue.Past i
  publishedPast : ∀ i ∈ s.published, s.queue.Past i
  alone : ∀ w w' job job', s.held.get? w = some job → s.held.get? w' = some job' →
    SameBankFile job.item job'.item → w = w'
  storedLe : ∀ w job, s.held.get? w = some job → ∀ i ∈ s.stored, SameBankFile i job.item →
    i.ticket < job.item.ticket ∨ job.stored = true
  publishedLt : ∀ w job, s.held.get? w = some job → ∀ i ∈ s.published,
    SameBankFile i job.item → i.ticket < job.item.ticket
  storedSorted : TicketSorted s.stored
  publishedSorted : TicketSorted s.published

variable {env : WriteEnv} {s : WriteState} {op : WriteOp}

theorem BankOrdered.empty : BankOrdered .empty where
  heldPast := fun _ _ h => by cases h
  storedPast := fun _ h => (not_mem_nil h).elim
  publishedPast := fun _ h => (not_mem_nil h).elim
  alone := fun _ _ _ _ h => by cases h
  storedLe := fun _ _ h => by cases h
  publishedLt := fun _ _ h => by cases h
  storedSorted := .nil
  publishedSorted := .nil

theorem BankOrdered.finishJob (hs : BankOrdered s) (worker : ℕ) (item : BankItem)
    (error : Option String) : BankOrdered (s.finishJob worker item error) := by
  have hget : ∀ {w job}, Dict.get? (s.held.erase worker) w = some job →
      s.held.get? w = some job :=
    fun h => (Dict.get?_erase_eq_some.mp h).2
  exact
    { heldPast := fun w job h => hs.heldPast w job (hget h)
      storedPast := hs.storedPast
      publishedPast := hs.publishedPast
      alone := fun w w' job job' h h' => hs.alone w w' job job' (hget h) (hget h')
      storedLe := fun w job h => hs.storedLe w job (hget h)
      publishedLt := fun w job h => hs.publishedLt w job (hget h)
      storedSorted := hs.storedSorted
      publishedSorted := hs.publishedSorted }

variable {worker : ℕ}

theorem BankOrdered.take {item : BankItem} (hs : BankOrdered s)
    (hqueue : s.queue.items = item :: rest)
    (hfree : ∀ p ∈ s.held.rows, ¬ SameBankFile p.2.item item) :
    BankOrdered { s with queue := s.queue.tail, held := s.held.set worker ⟨item, false⟩ } := by
  -- the item is newer than all that left the queue before, and older than all that are left
  have hmem : item ∈ s.queue.items := by simp [hqueue]
  have hfree' : ∀ {w job}, s.held.get? w = some job → ¬ SameBankFile job.item item :=
    fun h => hfree _ (Dict.get?_eq_some.mp h)
  constructor
  case heldPast =>
    intro w job h
    rcases Dict.get?_set_eq_some.mp h with ⟨-, rfl⟩ | ⟨-, h⟩
    · exact BankQueue.past_head hqueue
    · exact (hs.heldPast w job h).tail
  case storedPast => exact fun i hi => (hs.storedPast i hi).tail
  case publishedPast => exact fun i hi => (hs.publishedPast i hi).tail
  case alone =>
    intro w w' job job' h h' hsame
    rcases Dict.get?_set_eq_some.mp h with ⟨rfl, rfl⟩ | ⟨-, hw⟩ <;>
      rcases Dict.get?_set_eq_some.mp h' with ⟨rfl, rfl⟩ | ⟨-, hw'⟩
    · rfl
    · exact (hfree' hw' hsame.symm).elim
    · exact (hfree' hw hsame).elim
    · exact hs.alone w w' job job' hw hw' hsame
  case storedLe =>
    intro w job h i hi hsame
    rcases Dict.get?_set_eq_some.mp h with ⟨-, rfl⟩ | ⟨-, h⟩
    · exact .inl ((hs.storedPast i hi).2 item hmem)
    · exact hs.storedLe w job h i hi hsame
  case publishedLt =>
    intro w job h i hi hsame
    rcases Dict.get?_set_eq_some.mp h with ⟨-, rfl⟩ | ⟨-, h⟩
    · exact (hs.publishedPast i hi).2 item hmem
    · exact hs.publishedLt w job h i hi hsame
  case storedSorted => exact hs.storedSorted
  case publishedSorted => exact hs.publishedSorted

theorem BankOrdered.store {item : BankItem} {bank : Dict (String × String) Content}
    (hs : BankOrdered s) (hheld : s.held.get? worker = some ⟨item, false⟩) :
    BankOrdered { s with
      held := s.held.set worker ⟨item, true⟩
      bank := bank
      stored := s.stored ++ [item] } := by
  -- whatever was stored for the file is older than the item
  have hnewer : ∀ i ∈ s.stored, SameBankFile i item → i.ticket < item.ticket := by
    intro i hi hsame
    simpa using hs.storedLe worker _ hheld i hi hsame
  constructor
  case heldPast =>
    intro w job h
    rcases Dict.get?_set_eq_some.mp h with ⟨-, rfl⟩ | ⟨-, h⟩
    · exact hs.heldPast worker ⟨item, false⟩ hheld
    · exact hs.heldPast w job h
  case storedPast =>
    intro i hi
    rcases mem_append.mp hi with hi | hi
    · exact hs.storedPast i hi
    · rw [mem_singleton.mp hi]
      exact hs.heldPast worker _ hheld
  case publishedPast => exact hs.publishedPast
  case alone =>
    intro w w' job job' h h' hsame
    rcases Dict.get?_set_eq_some.mp h with ⟨rfl, rfl⟩ | ⟨-, hw⟩ <;>
      rcases Dict.get?_set_eq_some.mp h' with ⟨rfl, rfl⟩ | ⟨-, hw'⟩
    · rfl
    · exact hs.alone w w' _ job' hheld hw' hsame
    · exact hs.alone w w' job _ hw hheld hsame
    · exact hs.alone w w' job job' hw hw' hsame
  case storedLe =>
    intro w job h i hi hsame
    rcases Dict.get?_set_eq_some.mp h with ⟨-, rfl⟩ | ⟨hne, h⟩
    · exact .inr rfl
    · rcases mem_append.mp hi with hi | hi
      · exact hs.storedLe w job h i hi hsame
      · rw [mem_singleton.mp hi] at hsame
        exact (hne (hs.alone worker w _ job hheld h hsame).symm).elim
  case publishedLt =>
    intro w job h i hi hsame
    rcases Dict.get?_set_eq_some.mp h with ⟨-, rfl⟩ | ⟨-, h⟩
    · exact hs.publishedLt worker _ hheld i hi hsame
    · exact hs.publishedLt w job h i hi hsame
  case storedSorted => exact hs.storedSorted.concat hnewer
  case publishedSorted => exact hs.publishedSorted

theorem BankOrdered.publish {item : BankItem} {ob : OutboxState FanoutRest} (hs : BankOrdered s)
    (hheld : s.held.get? worker = some ⟨item, true⟩) :
    BankOrdered (WriteState.finishJob
      { s with outbox := ob, published := s.published ++ [item] } worker item none) := by
  constructor
  case heldPast => exact (hs.finishJob worker item none).heldPast
  case storedPast => exact hs.storedPast
  case publishedPast =>
    intro i hi
    rcases mem_append.mp hi with hi | hi
    · exact hs.publishedPast i hi
    · rw [mem_singleton.mp hi]
      exact hs.heldPast worker _ hheld
  case alone => exact (hs.finishJob worker item none).alone
  case storedLe => exact (hs.finishJob worker item none).storedLe
  case publishedLt =>
    intro w job h i hi hsame
    obtain ⟨hne, h⟩ := Dict.get?_erase_eq_some.mp h
    rcases mem_append.mp hi with hi | hi
    · exact hs.publishedLt w job h i hi hsame
    · -- no other worker has an item of this file
      rw [mem_singleton.mp hi] at hsame
      exact (hne (hs.alone worker w _ job hheld h hsame).symm).elim
  case storedSorted => exact hs.storedSorted
  case publishedSorted => exact hs.publishedSorted.concat (hs.publishedLt worker _ hheld)

theorem BankOrdered.step (hs : BankOrdered s) (hop : NoOverlap s op) :
    BankOrdered (writeStep env s op) := by
  have h := bankChange env s op
  generalize writeStep env s op = s' at h
  cases h with
  | puts items hqueue hheld hbank hstored hpublished =>
    constructor
    case heldPast =>
      simpa [hqueue, hheld] using fun w job h => (hs.heldPast w job h).foldl_put items
    case storedPast =>
      simpa [hqueue, hstored] using fun i hi => (hs.storedPast i hi).foldl_put items
    case publishedPast =>
      simpa [hqueue, hpublished] using fun i hi => (hs.publishedPast i hi).foldl_put items
    case alone => simpa [hheld] using hs.alone
    case storedLe => simpa [hheld, hstored] using hs.storedLe
    case publishedLt => simpa [hheld, hpublished] using hs.publishedLt
    case storedSorted => simpa [hstored] using hs.storedSorted
    case publishedSorted => simpa [hpublished] using hs.publishedSorted
  | taken hidle hqueue => exact hs.take hqueue (hop hidle _ (by simp [hqueue]))
  | stored hheld => exact hs.store hheld
  | published ob hheld => exact hs.publish hheld
  | failed hheld => exact hs.finishJob ..

def BankMatches (s : WriteState) : Prop :=
  ∀ project fileName, s.bank.get? (project, fileName) =
    (s.stored.filter fun i => decide (i.project = project ∧ i.fileName = fileName)).getLast?.map
      BankItem.content

theorem BankMatches.step (hs : BankMatches s) : BankMatches (writeStep env s op) := by
  have h := bankChange env s op
  generalize writeStep env s op = s' at h
  cases h with
  | puts items hqueue hheld hbank hstored hpublished => simpa [BankMatches, hbank, hstored] using hs
  | taken => exact hs
  | stored hheld =>
    rename_i item
    intro project fileName
    rw [Dict.get?_set_eq]
    split
    · rename_i hkey
      cases hkey
      simp
    · rename_i hne
      have hother : ¬ (item.project = project ∧ item.fileName = fileName) := by
        rintro ⟨rfl, rfl⟩
        exact hne rfl
      simpa [filter_append, hother] using hs project fileName
  | published | failed => exact hs

private theorem getLast?_filter_of_max {P : BankItem → Bool} {item : BankItem}
    (hsorted : (l.filter P).Pairwise fun a b => a.ticket < b.ticket) (hitem : item ∈ l)
    (hP : P item = true) (hmax : ∀ i ∈ l, P i = true → i.ticket ≤ item.ticket) :
    (l.filter P).getLast? = some item := by
  obtain ⟨before, after, heq⟩ := append_of_mem (mem_filter.mpr ⟨hitem, hP⟩)
  have hafter : after = [] := by
    refine eq_nil_iff_forall_not_mem.mpr fun i hi => ?_
    rw [heq, pairwise_append, pairwise_cons] at hsorted
    have hlt := hsorted.2.1.1 i hi
    have hmem : i ∈ l.filter P := by simp [heq, hi]
    obtain ⟨hi', hPi⟩ := mem_filter.mp hmem
    exact (hmax i hi' hPi).not_gt hlt
  rw [heq, hafter]
  simp

/-- **Stored in order**, and published, are the items of one file if no worker takes one while
another has one of the same file. -/
theorem stored_in_order {ops : List WriteOp}
    (hops : Along (writeStep env) NoOverlap .empty ops) :
    let s := run (writeStep env) .empty ops
    (s.stored.Pairwise fun a b => SameBankFile a b → a.ticket < b.ticket) ∧
      (s.published.Pairwise fun a b => SameBankFile a b → a.ticket < b.ticket) ∧
      (∀ item ∈ s.stored,
        (∀ i ∈ s.stored, i.project = item.project ∧ i.fileName = item.fileName →
          i.ticket ≤ item.ticket) →
        Dict.get? s.bank (item.project, item.fileName) = some item.content) ∧
      ∀ item ∈ s.published,
        (∀ i ∈ s.published, i.project = item.project ∧ i.file = item.file →
          i.ticket ≤ item.ticket) →
        (s.published.filter fun i =>
          decide (i.project = item.project ∧ i.file = item.file)).getLast? = some item := by
  intro s
  have hs : BankOrdered s := Along.invariant (fun _ _ hs hop => hs.step hop) .empty hops
  have hbank : BankMatches s := run_invariant (fun _ _ hs => hs.step) (fun _ _ => rfl) ops
  refine ⟨hs.storedSorted, hs.publishedSorted, fun item hitem hmax => ?_,
    fun item hitem hmax => ?_⟩
  · rw [hbank, getLast?_filter_of_max _ hitem (by simp) (by simpa using hmax), Option.map_some]
    refine pairwise_filter.mpr (hs.storedSorted.imp fun hlt ha hb => hlt ?_)
    simp only [decide_eq_true_eq] at ha hb
    exact ⟨ha.1.trans hb.1.symm, .inr (ha.2.trans hb.2.symm)⟩
  · refine getLast?_filter_of_max ?_ hitem (by simp) (by simpa using hmax)
    refine pairwise_filter.mpr (hs.publishedSorted.imp fun hlt ha hb => hlt ?_)
    simp only [decide_eq_true_eq] at ha hb
    exact ⟨ha.1.trans hb.1.symm, .inl (ha.2.trans hb.2.symm)⟩

/-! ### Two workers -/

def keptClear : List WriteOp :=
  requestOps 1 0 "e1" "a.md" "one" ++ requestOps 2 1 "e2" "b.md" "two" ++
    requestOps 3 2 "e3" "a.md" "three" ++ [.take 0, .take 1, .store 1, .store 0] ++
    [.publish 0 .noon "" {}] ++ workerOps 0

theorem stored_in_order_keptClear :
    let s := run (writeStep .plain) .empty keptClear
    s.stored.map (fun i => i.eventId) = ["e2", "e1", "e3"] ∧
      s.stored.Pairwise fun a b => SameBankFile a b → a.ticket < b.ticket := by
  have hops : Along (writeStep .plain) NoOverlap .empty keptClear := by decide +kernel
  exact ⟨by decide +kernel, (stored_in_order hops).1⟩

def overtaken : List WriteOp :=
  requestOps 1 0 "e1" "a.md" "one" ++ requestOps 2 1 "e2" "a.md" "two" ++
    [.take 0, .take 1, .store 1, .store 0, .publish 1 .noon "" {},
      .publish 0 .noon "" {}]

/-- Both calls succeed, yet the file ends with the content of the first write, and so does the
newest payload. -/
theorem earlier_stored_last :
    let s := run (writeStep .plain) .empty overtaken
    s.stored.map (fun i => (i.ticket, i.eventId)) = [(1, "e2"), (0, "e1")] ∧
      s.published.map (fun i => (i.ticket, i.eventId)) = [(1, "e2"), (0, "e1")] ∧
      s.queue.items = [] ∧ s.held.rows.length = 0 ∧
      Dict.get? s.bank ("docs", "a.md") = some (.text "one") := by
  decide +kernel

end ContextLattice
