import ContextLattice.Outbox.Prune
import ContextLattice.Retrieval.SearchKeys
import ContextLattice.Stamps

/-!
# Retention

A retention pass deletes old records of low value. Qdrant and Letta are read page by page (`Sweep`),
Mongo by one query. Letta's pass **goes on** with a row whose date it cannot read, and does not
count what is no object.
-/

namespace ContextLattice

open Foundation List

/-! ### Sweeps -/

/-- A sweep over the pages of a store: the rows it has counted, the rows that are deleted, and
whether it has ended, or raised. -/
structure Sweep (ρ : Type*) where
  scanned : ℕ := 0
  kept : List ρ := []
  ended : Bool := false
  failed : Bool := false

namespace Sweep

variable {α ρ : Type*}

def fail (s : Sweep ρ) : Sweep ρ := { s with ended := true, failed := true }

def goesOn (maxScan maxDeletes : ℕ) (s : Sweep ρ) : Bool :=
  !s.ended && decide (s.scanned < maxScan ∧ s.kept.length < maxDeletes)

def keep (maxDeletes : ℕ) (s : Sweep ρ) (r : ρ) : Sweep ρ :=
  { s with kept := s.kept ++ [r], ended := decide (maxDeletes ≤ s.kept.length + 1) }

def page (row : Sweep ρ → α → Sweep ρ) : Sweep ρ → List α → Sweep ρ :=
  run fun s x => if s.ended then s else row s x

def Only (P : ρ → Prop) (s : Sweep ρ) : Prop := ∀ r ∈ s.kept, P r

variable {P : ρ → Prop} {s : Sweep ρ}

theorem Only.of_kept {s' : Sweep ρ} (hs : s.Only P) (h : s'.kept = s.kept) : s'.Only P := by
  rwa [Only, h]

theorem Only.page {row : Sweep ρ → α → Sweep ρ} (hrow : ∀ s x, s.Only P → (row s x).Only P)
    (hs : s.Only P) (rows : List α) : (s.page row rows).Only P := by
  refine run_invariant (fun s x hs => ?_) hs rows
  split
  · exact hs
  · exact hrow s x hs

theorem Only.keep {n : ℕ} {r : ρ} (hr : P r) (hs : s.Only P) : (s.keep n r).Only P := by
  intro x hx
  rcases mem_append.mp hx with hx | hx
  · exact hs x hx
  · rwa [mem_singleton.mp hx]

end Sweep

/-! ### The passes -/

structure RetentionConfig where
  qdrantHours : ℚ
  mongoHours : ℚ
  lettaHours : ℚ
  scanLimit : ℕ
  maxDeletes : ℕ
  deleteBatch : ℕ
  lettaPageLimit : ℕ
  lettaMaxDeletes : ℕ
  lettaEnabled : Bool

structure StoredPoint where
  id : Option String
  ts : Option FloatValue
  file : String
  topicPath : String
  summary : String

structure MongoDocument where
  updatedAt : Option String
  file : String
  topicPath : String
  summary : String
  source : String

structure ArchivalRow where
  id : String
  createdAt : Option Json
  updatedAt : Option Json
  text : String
  deleteStatus : ℕ

variable {π : Type*} (env : RetrievalEnv) (cfg : PruneConfig π) (ret : RetentionConfig)

def cutFraction (x : ℚ) : ℤ := if 0 ≤ x then ⌊x⌋ else ⌈x⌉

def StoredPoint.lowValue (p : StoredPoint) : Bool :=
  isLowValueMemoryRecord cfg p.file p.topicPath p.summary "" false

def qdrantCutoff (clock : ℚ) : ℚ := clock - max 0 ret.qdrantHours * 3600

def qdrantRow (clock : ℚ) (s : Sweep StoredPoint) (p : StoredPoint) : Sweep StoredPoint :=
  let s := { s with scanned := s.scanned + 1 }
  match p.ts with
  | some (.finite ts) =>
    if cutFraction ts ≤ cutFraction (qdrantCutoff ret clock) ∧ p.lowValue cfg = true ∧
        p.id.isSome then
      s.keep (max 1 ret.maxDeletes) p
    else s
  -- an `OverflowError` is not caught
  | some .infinity | some .negInfinity => s.fail
  | some .nan | none => s

def qdrantGoesOn (s : Sweep StoredPoint) : Bool :=
  s.goesOn (max 100 ret.scanLimit) (max 1 ret.maxDeletes)

def qdrantTurn (clock : ℚ) (s : Sweep StoredPoint) (answer : Option (List StoredPoint × Bool)) :
    Sweep StoredPoint :=
  if qdrantGoesOn ret s then
    match answer with
    | none => s.fail
    | some (points, next) =>
      let s := s.page (qdrantRow cfg ret clock) points
      { s with ended := s.ended || points.isEmpty || !next }
  else s

def qdrantDeleted (clock : ℚ) (answers : List (Option (List StoredPoint × Bool)))
    (batches : ℕ) : List StoredPoint :=
  let s := run (qdrantTurn cfg ret clock) {} answers
  if ret.qdrantHours ≤ 0 ∨ s.failed ∨ qdrantGoesOn ret s then []
  else s.kept.take (batches * max 1 ret.deleteBatch)

def retentionPeriod (hours : ℚ) : ℤ := roundHalfEven (max 0 hours * 3600 * 10 ^ 6)

def retentionCutoffDatetime (now : DateTime) (hours : ℚ) : Option DateTime :=
  DateTime.ofInstant (now.micros - retentionPeriod hours)

def MongoDocument.lowValue (doc : MongoDocument) : Bool :=
  isLowValueMemoryRecord cfg doc.file doc.topicPath doc.summary doc.source false

def mongoDeleted (now : DateTime) (docs : List MongoDocument) : List MongoDocument :=
  match retentionCutoffDatetime now ret.mongoHours with
  | none => []
  | some cutoff =>
    if ret.mongoHours ≤ 0 then []
    else
      let found := docs.filter fun doc => doc.updatedAt.any (· < stamp cutoff)
      let sorted := found.insertionSort fun a b => a.updatedAt.getD "" ≤ b.updatedAt.getD ""
      ((sorted.take (max 100 ret.scanLimit)).filter (·.lowValue cfg)).take (max 1 ret.maxDeletes)

def parseTimestampToDatetime (py : Python) (value : Option Json) : Option (Option DateTime) :=
  let text := strippedText py value
  let normalized := text.toList.flatMap fun c => if c = 'Z' then "+00:00".toList else [c]
  if text = "" then some none
  else
    match py.fromisoformat (String.ofList normalized) with
    | none => some none
    | some (t, none) => some (some t)
    | some (t, some offset) => (DateTime.ofInstant (t.micros - offset)).map some

def ArchivalRow.lowValue (r : ArchivalRow) : Bool :=
  let parsed := parseLettaArchivalContent env r.text
  isLowValueMemoryRecord cfg parsed.file parsed.topicPath parsed.summary "" false

def ArchivalRow.date (r : ArchivalRow) : Option (Option DateTime) :=
  parseTimestampToDatetime cfg.lib.py (Json.orElse r.createdAt r.updatedAt)

def lettaDeleteCap : ℕ := max 1 (min ret.lettaMaxDeletes ret.maxDeletes)

def lettaRow (cutoff : DateTime) (s : Sweep ArchivalRow) (row : Option ArchivalRow) :
    Sweep ArchivalRow :=
  match row with
  | none => s
  | some r =>
    let s := { s with scanned := s.scanned + 1 }
    match r.date cfg with
    | none => s.fail
    | some date =>
      if date.any (fun created => cutoff.micros < created.micros) then { s with ended := true }
      else if r.lowValue env cfg = false ∨ strip r.id = "" then s
      else if r.deleteStatus ∈ [200, 202, 204, 404] then s.keep (lettaDeleteCap ret) r
      else if 400 ≤ r.deleteStatus then s.fail
      else s

def lettaTurn (cutoff : DateTime) (s : Sweep ArchivalRow)
    (answer : Option (List (Option ArchivalRow))) : Sweep ArchivalRow :=
  if s.goesOn (max 100 ret.scanLimit) (lettaDeleteCap ret) then
    match answer with
    | none => s.fail
    | some rows =>
      let s := s.page (lettaRow env cfg ret cutoff) rows
      { s with ended := s.ended || decide (rows.length < max 10 (min ret.lettaPageLimit 200)) }
  else s

def lettaDeleted (now : DateTime) (answers : List (Option (List (Option ArchivalRow)))) :
    List ArchivalRow :=
  match retentionCutoffDatetime now ret.lettaHours with
  | none => []
  | some cutoff =>
    if ret.lettaHours ≤ 0 ∨ ret.lettaEnabled = false then []
    else (run (lettaTurn env cfg ret cutoff) {} answers).kept

/-! ### What is deleted -/

def LowValue (file topicPath kind : String) : Prop :=
  cfg.lib.py.stripLower kind = "high_frequency_rollup" ∨ looksLowValueFile cfg file = true ∨
    looksLowValueTopicPath cfg topicPath = true

def StoredPoint.Old (clock : ℚ) (p : StoredPoint) : Prop :=
  ∃ ts, p.ts = some (.finite ts) ∧ ts ≤ qdrantCutoff ret clock

def StoredPoint.CutAcross (clock : ℚ) (p : StoredPoint) : Prop :=
  ∃ ts, p.ts = some (.finite ts) ∧ qdrantCutoff ret clock < ts ∧
    cutFraction ts = cutFraction (qdrantCutoff ret clock)

def KnownOld (now : DateTime) (hours : ℚ) (date : Option (Option DateTime)) : Prop :=
  ∃ t, date = some (some t) ∧ (t.micros : ℤ) ≤ now.micros - retentionPeriod hours

def Misdated (now : DateTime) (hours : ℚ) (date : Option (Option DateTime)) : Prop :=
  date.join = none ∨ ∃ t, date = some (some t) ∧ now.micros - retentionPeriod hours < t.micros

def MongoDocument.date (doc : MongoDocument) : Option (Option DateTime) :=
  parseTimestampToDatetime cfg.lib.py (doc.updatedAt.map .str)

variable {env cfg ret}

theorem isLowValue_iff {file topicPath summary kind : String} :
    isLowValueMemoryRecord cfg file topicPath summary kind false = true ↔
      LowValue cfg file topicPath kind := by
  simp [isLowValueMemoryRecord, LowValue, or_assoc]

theorem cutFraction_mono {x y : ℚ} (h : x ≤ y) : cutFraction x ≤ cutFraction y := by
  unfold cutFraction
  split_ifs with hx hy hy
  · exact Int.floor_mono h
  · exact absurd (hx.trans h) hy
  · have hx' : ⌈x⌉ ≤ 0 := Int.ceil_le.mpr (by simpa using (not_le.mp hx).le)
    exact hx'.trans (Int.floor_nonneg.mpr hy)
  · exact Int.ceil_mono h

theorem only_qdrantTurn (clock : ℚ) (answers : List (Option (List StoredPoint × Bool))) :
    (run (qdrantTurn cfg ret clock) {} answers).Only fun p => p.lowValue cfg = true ∧
      ∃ ts, p.ts = some (.finite ts) ∧
        cutFraction ts ≤ cutFraction (qdrantCutoff ret clock) := by
  refine run_invariant (fun s answer hs => ?_) (fun r hr => absurd hr not_mem_nil) answers
  unfold qdrantTurn
  split
  · cases answer with
    | none => exact hs
    | some answer =>
      refine (Sweep.Only.page (fun s p hs => ?_) hs answer.1).of_kept rfl
      unfold qdrantRow
      split
      · rename_i ts hts
        split
        · rename_i h
          exact Sweep.Only.keep ⟨h.2.1, ts, hts, h.1⟩ hs
        · exact hs
      all_goals exact hs
  · exact hs

theorem only_lettaTurn (cutoff : DateTime) (answers : List (Option (List (Option ArchivalRow)))) :
    (run (lettaTurn env cfg ret cutoff) {} answers).Only fun r => r.lowValue env cfg = true ∧
      ∃ date, r.date cfg = some date ∧ ∀ t ∈ date, t.micros ≤ cutoff.micros := by
  refine run_invariant (fun s answer hs => ?_) (fun r hr => absurd hr not_mem_nil) answers
  unfold lettaTurn
  split
  · cases answer with
    | none => exact hs
    | some rows =>
      refine (Sweep.Only.page (fun s row hs => ?_) hs rows).of_kept rfl
      cases row with
      | none => exact hs
      | some r =>
        unfold lettaRow
        simp only
        split
        · exact hs
        · rename_i date hdate
          split_ifs with hrecent hvalue hstatus
          · exact hs
          · exact hs
          · have hlow : r.lowValue env cfg = true := by simpa using fun h => hvalue (.inl h)
            have hle : ∀ t ∈ date, t.micros ≤ cutoff.micros := by
              intro t ht
              refine not_lt.mp fun hlt => hrecent ?_
              rw [Option.mem_def.mp ht, Option.any_some]
              exact decide_eq_true hlt
            exact Sweep.Only.keep ⟨hlow, date, hdate, hle⟩ (hs.of_kept rfl)
          · exact hs
          · exact hs
  · exact hs

variable {clock : ℚ} {p : StoredPoint}

theorem StoredPoint.old_iff {ts : ℚ} (hts : p.ts = some (.finite ts))
    (hcut : cutFraction ts ≤ cutFraction (qdrantCutoff ret clock)) :
    p.Old ret clock ↔ ¬ p.CutAcross ret clock := by
  have hsame {x : ℚ} (h : p.ts = some (.finite x)) : x = ts := by
    rw [hts] at h
    exact (FloatValue.finite.inj (Option.some.inj h)).symm
  constructor
  · rintro ⟨x, hx, hle⟩ ⟨y, hy, hlt, -⟩
    rw [hsame hx] at hle
    rw [hsame hy] at hlt
    exact hlt.not_ge hle
  · intro hnot
    refine ⟨ts, hts, not_lt.mp fun hlt => hnot ⟨ts, hts, hlt, ?_⟩⟩
    exact hcut.antisymm (cutFraction_mono hlt.le)

variable {now : DateTime}

theorem knownOld_iff {hours : ℚ} {date : Option (Option DateTime)} :
    KnownOld now hours date ↔ ¬ Misdated now hours date := by
  rcases date with _ | _ | t <;> simp [KnownOld, Misdated]

theorem mem_qdrantDeleted {answers : List (Option (List StoredPoint × Bool))} {batches : ℕ}
    (h : p ∈ qdrantDeleted cfg ret clock answers batches) :
    LowValue cfg p.file p.topicPath "" ∧ (p.Old ret clock ↔ ¬ p.CutAcross ret clock) := by
  simp only [qdrantDeleted] at h
  split at h
  · simp at h
  · obtain ⟨hlow, ts, hts, hcut⟩ := only_qdrantTurn clock answers p (mem_of_mem_take h)
    exact ⟨isLowValue_iff.mp hlow, StoredPoint.old_iff hts hcut⟩

theorem mem_mongoDeleted {docs : List MongoDocument} {doc : MongoDocument}
    (h : doc ∈ mongoDeleted cfg ret now docs) :
    doc ∈ docs ∧ LowValue cfg doc.file doc.topicPath doc.source ∧
      ∃ cutoff, retentionCutoffDatetime now ret.mongoHours = some cutoff ∧
        ∃ text, doc.updatedAt = some text ∧ text < stamp cutoff := by
  unfold mongoDeleted at h
  split at h
  · simp at h
  · rename_i cutoff hcutoff
    split at h
    · simp at h
    · obtain ⟨hmem, hlow⟩ := mem_filter.mp (mem_of_mem_take h)
      have hfound := (mem_insertionSort _).mp (mem_of_mem_take hmem)
      obtain ⟨hdoc, hbefore⟩ := mem_filter.mp hfound
      obtain ⟨text, htext, hlt⟩ := (Option.any_eq_true _ _).mp hbefore
      exact ⟨hdoc, isLowValue_iff.mp hlow, cutoff, hcutoff, text, htext, by simpa using hlt⟩

theorem mem_lettaDeleted {answers : List (Option (List (Option ArchivalRow)))} {r : ArchivalRow}
    (h : r ∈ lettaDeleted env cfg ret now answers) :
    r.lowValue env cfg = true ∧
      (KnownOld now ret.lettaHours (r.date cfg) ↔ r.date cfg ≠ some none) := by
  unfold lettaDeleted at h
  split at h
  · simp at h
  · rename_i cutoff hcutoff
    split at h
    · simp at h
    · obtain ⟨hlow, date, hdate, hle⟩ := only_lettaTurn cutoff answers r h
      refine ⟨hlow, ?_⟩
      rw [hdate, KnownOld, ← DateTime.micros_of_ofInstant hcutoff]
      cases date with
      | none => simp
      | some t => simpa using hle t rfl

theorem lettaDeleted_eq {now cutoff : DateTime}
    (hcutoff : retentionCutoffDatetime now ret.lettaHours = some cutoff)
    (hhours : 0 < ret.lettaHours) (henabled : ret.lettaEnabled = true)
    (answers : List (Option (List (Option ArchivalRow)))) :
    lettaDeleted env cfg ret now answers =
      (run (lettaTurn env cfg ret cutoff) {} answers).kept := by
  unfold lettaDeleted
  generalize retentionCutoffDatetime now ret.lettaHours = o at hcutoff
  subst hcutoff
  exact if_neg (by simp [hhours, henabled])

theorem stamp_before_iff {t cutoff : DateTime} (h : stamp t < stamp cutoff) :
    cutoff.micros < t.micros ↔ SplitSecond t cutoff := by
  have ht := t.microsecond_lt
  have hcutoff := cutoff.microsecond_lt
  rw [stamp_lt_iff] at h
  unfold fractionRank at h
  unfold DateTime.micros SplitSecond
  split_ifs at h <;> omega

variable (env cfg ret) in
/-- **Retention deletes records of low value**, which are known to be old but for these: a time that
`int` cuts, a text that is no date or a later one, and a row without a date. -/
theorem retention_deletes_old_iff (clock : ℚ) (now : DateTime)
    (points : List (Option (List StoredPoint × Bool))) (batches : ℕ) (docs : List MongoDocument)
    (rows : List (Option (List (Option ArchivalRow)))) :
    (∀ p ∈ qdrantDeleted cfg ret clock points batches, LowValue cfg p.file p.topicPath "" ∧
      (p.Old ret clock ↔ ¬ p.CutAcross ret clock)) ∧
    (∀ doc ∈ mongoDeleted cfg ret now docs, LowValue cfg doc.file doc.topicPath doc.source ∧
      (KnownOld now ret.mongoHours (doc.date cfg) ↔
        ¬ Misdated now ret.mongoHours (doc.date cfg)) ∧
      ∀ t, doc.updatedAt = some (stamp t) →
        (now.micros - retentionPeriod ret.mongoHours < t.micros ↔
          ∃ cutoff, retentionCutoffDatetime now ret.mongoHours = some cutoff ∧
            SplitSecond t cutoff)) ∧
    ∀ r ∈ lettaDeleted env cfg ret now rows,
      LowValue cfg (parseLettaArchivalContent env r.text).file
        (parseLettaArchivalContent env r.text).topicPath "" ∧
      (KnownOld now ret.lettaHours (r.date cfg) ↔ r.date cfg ≠ some none) := by
  refine ⟨fun p hp => mem_qdrantDeleted hp, fun doc hdoc => ?_, fun r hr => ?_⟩
  · obtain ⟨-, hlow, cutoff, hcutoff, text, htext, hlt⟩ := mem_mongoDeleted hdoc
    refine ⟨hlow, knownOld_iff, fun t ht => ?_⟩
    obtain rfl : text = stamp t := Option.some.inj (htext.symm.trans ht)
    rw [← DateTime.micros_of_ofInstant hcutoff, Nat.cast_lt, stamp_before_iff hlt]
    simp [hcutoff]
  · obtain ⟨hlow, hold⟩ := mem_lettaDeleted hr
    exact ⟨isLowValue_iff.mp hlow, hold⟩

def RetentionConfig.default : RetentionConfig := ⟨72, 0, 48, 5000, 5000, 128, 100, 1200, true⟩

def undatedRow : ArchivalRow := ⟨"p1", none, none, "topic=tmp", 200⟩

def thirdOfJanuary : DateTime where
  year := 1
  month := 1
  day := 3
  hour := 0
  minute := 0
  second := 0
  microsecond := 0

/-- **Deleted without a date**: nothing is known about the age of the row. -/
theorem undated_row_deleted :
    undatedRow.date PruneConfig.default = some none ∧
      lettaDeleted .plain PruneConfig.default .default thirdOfJanuary [some [some undatedRow]] =
        [undatedRow] := by
  have hdate : undatedRow.date PruneConfig.default = some none := rfl
  have hlow : undatedRow.lowValue .plain PruneConfig.default = true := by decide +kernel
  have hid : strip undatedRow.id ≠ "" := by decide +kernel
  have hmicros : thirdOfJanuary.micros = 172800 * 10 ^ 6 := by decide
  have hperiod : retentionPeriod RetentionConfig.default.lettaHours = 172800 * 10 ^ 6 := by
    have hcast : max 0 RetentionConfig.default.lettaHours * 3600 * 10 ^ 6 =
        ((172800 * 10 ^ 6 : ℤ) : ℚ) := by
      norm_num [RetentionConfig.default]
    rw [retentionPeriod, hcast, roundHalfEven_intCast]
  have hcutoff : retentionCutoffDatetime thirdOfJanuary RetentionConfig.default.lettaHours ≠
      none := by
    rw [retentionCutoffDatetime, hperiod, hmicros, Ne, DateTime.ofInstant_eq_none_iff]
    decide
  obtain ⟨cutoff, hcutoff⟩ := Option.ne_none_iff_exists'.mp hcutoff
  refine ⟨hdate, ?_⟩
  have hrow (s : Sweep ArchivalRow) : (lettaRow .plain PruneConfig.default .default cutoff s
      (some undatedRow)).kept = s.kept ++ [undatedRow] := by
    have hstatus : undatedRow.deleteStatus ∈ [200, 202, 204, 404] := mem_cons_self
    rfl
  exact (lettaDeleted_eq hcutoff (by norm_num [RetentionConfig.default]) rfl _).trans (hrow {})

/-! ### How long a pass takes -/

namespace Sweep

variable {α β ρ : Type*} {row : Sweep ρ → α → Sweep ρ} {counts : α → Bool} {s : Sweep ρ}
  {rows : List α}

theorem ended_page (hs : s.ended = true) (rows : List α) : (s.page row rows).ended = true :=
  @run_invariant _ α _ (fun s => s.ended = true) (fun s x hs => by rwa [if_pos hs]) s hs rows

theorem le_scanned_page (hrow : ∀ s x, s.scanned + (counts x).toNat ≤ (row s x).scanned)
    (h : (s.page row rows).ended = false) :
    s.scanned + rows.countP counts ≤ (s.page row rows).scanned := by
  induction rows generalizing s with
  | nil => exact le_rfl
  | cons x rows ih =>
    have hs : s.ended = false := by
      by_contra hs
      rw [ended_page (Bool.eq_true_of_not_eq_false hs)] at h
      cases h
    have hpage : s.page row (x :: rows) = (row s x).page row rows := by
      simp [page, hs]
    rw [hpage] at h ⊢
    have hcount : (x :: rows).countP counts = rows.countP counts + (counts x).toNat := by
      rw [countP_cons]
      cases counts x <;> rfl
    have hx := hrow s x
    have hrows := ih h
    omega

variable {n m : ℕ}

theorem lt_scanned_of_goesOn (counts : α → Bool) {last : Bool}
    (hrow : ∀ s x, s.scanned + (counts x).toNat ≤ (row s x).scanned)
    (hcounts : last = false → ∃ x ∈ rows, counts x = true)
    (h : goesOn n m { s.page row rows with ended := (s.page row rows).ended || last } = true) :
    s.scanned < (s.page row rows).scanned := by
  simp only [goesOn, Bool.and_eq_true, Bool.not_eq_true', Bool.or_eq_false_iff] at h
  have hpage := le_scanned_page hrow h.1.1
  have hpos := countP_pos_iff.mpr (hcounts h.1.2)
  omega

theorem length_le_scanned {turn : Sweep ρ → β → Sweep ρ} {on : Sweep ρ → Bool} {answers : List β}
    (hturn : ∀ s, ∀ a ∈ answers, on (turn s a) = true →
      on s = true ∧ s.scanned < (turn s a).scanned)
    (h : on (run turn {} answers) = true) : answers.length ≤ (run turn {} answers).scanned := by
  induction answers using List.reverseRecOn with
  | nil => exact Nat.zero_le _
  | append_singleton answers a ih =>
    rw [run_append, run_cons, run_nil] at h ⊢
    obtain ⟨hon, hlt⟩ := hturn _ a (by simp) h
    have hle := ih (fun s a' ha' => hturn s a' (mem_append_left _ ha')) hon
    rw [length_append, length_singleton]
    exact hle.trans_lt hlt

theorem goesOn_lt (h : s.goesOn n m = true) : s.scanned < n := by
  simp only [goesOn, Bool.and_eq_true, decide_eq_true_eq] at h
  exact h.2.1

end Sweep

variable (env cfg ret)

def lettaGoesOn (s : Sweep ArchivalRow) : Bool :=
  s.goesOn (max 100 ret.scanLimit) (lettaDeleteCap ret)

/-- A page that is as long as it may be and has no object in it. -/
def IdlePage (rows : List (Option ArchivalRow)) : Prop :=
  max 10 (min ret.lettaPageLimit 200) ≤ rows.length ∧ ∀ row ∈ rows, row = none

variable {env cfg ret}

theorem scanned_qdrantTurn {s : Sweep StoredPoint} {answer : Option (List StoredPoint × Bool)}
    (h : qdrantGoesOn ret (qdrantTurn cfg ret clock s answer) = true) :
    qdrantGoesOn ret s = true ∧ s.scanned < (qdrantTurn cfg ret clock s answer).scanned := by
  have hrow : ∀ s p, s.scanned + true.toNat ≤ (qdrantRow cfg ret clock s p).scanned := by
    intro s p
    unfold qdrantRow
    split
    · split <;> exact le_rfl
    all_goals exact le_rfl
  unfold qdrantTurn at h ⊢
  split at h
  · rename_i hs
    rw [if_pos hs]
    refine ⟨hs, ?_⟩
    cases answer with
    | none => cases h
    | some answer =>
      obtain ⟨points, next⟩ := answer
      dsimp only [qdrantGoesOn] at h ⊢
      rw [Bool.or_assoc] at h
      refine Sweep.lt_scanned_of_goesOn (fun _ => true) hrow (fun hlast => ?_) h
      cases points with
      | nil => cases hlast
      | cons p points => exact ⟨p, mem_cons_self, rfl⟩
  · rename_i hs
    exact absurd h hs

theorem scanned_lettaRow (cutoff : DateTime) (s : Sweep ArchivalRow) (row : Option ArchivalRow) :
    s.scanned + row.isSome.toNat ≤ (lettaRow env cfg ret cutoff s row).scanned := by
  unfold lettaRow
  cases row with
  | none => exact le_rfl
  | some r =>
    dsimp only
    split
    · exact le_rfl
    · split_ifs <;> exact le_rfl

variable {cutoff : DateTime}

theorem scanned_lettaTurn {s : Sweep ArchivalRow} {answer : Option (List (Option ArchivalRow))}
    (hidle : ∀ rows, answer = some rows → ¬ IdlePage ret rows)
    (h : lettaGoesOn ret (lettaTurn env cfg ret cutoff s answer) = true) :
    lettaGoesOn ret s = true ∧ s.scanned < (lettaTurn env cfg ret cutoff s answer).scanned := by
  unfold lettaTurn at h ⊢
  split at h
  · rename_i hs
    rw [if_pos hs]
    refine ⟨hs, ?_⟩
    cases answer with
    | none => cases h
    | some rows =>
      refine Sweep.lt_scanned_of_goesOn Option.isSome (scanned_lettaRow cutoff) (fun hlast => ?_) h
      by_contra hnone
      refine hidle rows rfl ⟨not_lt.mp (of_decide_eq_false hlast), fun row hrow => ?_⟩
      by_contra hsome
      exact hnone ⟨row, hrow, Option.isSome_iff_ne_none.mpr hsome⟩
  · rename_i hs
    exact absurd h hs

theorem run_lettaTurn_idle {rows : List (Option ArchivalRow)} (hidle : IdlePage ret rows) (n : ℕ) :
    run (lettaTurn env cfg ret cutoff) {} (replicate n (some rows)) = {} := by
  obtain ⟨hfull, hnone⟩ := hidle
  have hpage : Sweep.page (lettaRow env cfg ret cutoff) {} rows = {} := by
    clear hfull
    induction rows with
    | nil => rfl
    | cons row rows ih =>
      obtain ⟨rfl, hrows⟩ := forall_mem_cons.mp hnone
      exact ih hrows
  have hturn : lettaTurn env cfg ret cutoff {} (some rows) = {} := by
    unfold lettaTurn
    rw [if_pos (by simp [Sweep.goesOn, lettaDeleteCap])]
    dsimp only
    rw [hpage, decide_eq_false (not_lt.mpr hfull)]
    rfl
  induction n with
  | zero => rfl
  | succ n ih => rw [replicate_succ, run_cons, hturn, ih]

variable (env cfg ret) in
/-- **How long a retention pass takes**: as many requests as its scan limit, for Letta exactly if no
page is full without an object in it. -/
theorem retention_ends_iff (clock : ℚ) (cutoff : DateTime)
    (pages : Set (Option (List (Option ArchivalRow)))) :
    (∀ answers, max 100 ret.scanLimit ≤ answers.length →
      qdrantGoesOn ret (run (qdrantTurn cfg ret clock) {} answers) = false) ∧
    ((∀ answers, (∀ a ∈ answers, a ∈ pages) → max 100 ret.scanLimit ≤ answers.length →
        lettaGoesOn ret (run (lettaTurn env cfg ret cutoff) {} answers) = false) ↔
      ∀ rows, some rows ∈ pages → ¬ IdlePage ret rows) := by
  refine ⟨fun answers hlength => ?_, fun hends rows hrows hidle => ?_, fun hidle => ?_⟩
  · by_contra hon
    have hon := Bool.eq_true_of_not_eq_false hon
    have hle := Sweep.length_le_scanned (fun s a _ => scanned_qdrantTurn) hon
    exact absurd (Sweep.goesOn_lt hon) (hlength.trans hle).not_gt
  · have hends := hends (replicate (max 100 ret.scanLimit) (some rows))
      (fun a ha => by rwa [eq_of_mem_replicate ha]) (by simp)
    rw [run_lettaTurn_idle hidle] at hends
    simp [lettaGoesOn, Sweep.goesOn, lettaDeleteCap] at hends
  · intro answers hpages hlength
    by_contra hon
    have hon := Bool.eq_true_of_not_eq_false hon
    have hle := Sweep.length_le_scanned (fun s a ha => scanned_lettaTurn fun rows hrows =>
      hidle rows (hrows ▸ hpages a ha)) hon
    exact absurd (Sweep.goesOn_lt hon) (hlength.trans hle).not_gt

/-- **A pass without an end**: Letta answers every request with a hundred numbers. -/
theorem idle_pages_repeat : IdlePage .default (replicate 100 none) ∧
    ∀ n, lettaGoesOn .default (run (lettaTurn .plain PruneConfig.default .default thirdOfJanuary) {}
      (replicate n (some (replicate 100 none)))) = true := by
  have hidle : IdlePage .default (replicate 100 none) :=
    ⟨by decide, fun row hrow => eq_of_mem_replicate hrow⟩
  refine ⟨hidle, fun n => ?_⟩
  rw [run_lettaTurn_idle hidle]
  decide

end ContextLattice
