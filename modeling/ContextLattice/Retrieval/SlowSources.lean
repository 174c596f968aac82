import ContextLattice.Foundation.Decimal
import ContextLattice.Foundation.Run
import ContextLattice.Retrieval.Rows

/-!
# Slow sources

A slow source over a threshold of its shares of errors or timeouts is put into a **cool-down**. The
counts are never reset, so it does not recover by waiting.
-/

namespace ContextLattice

open Foundation List

/-! ### Counts and checks -/

structure SlowSourceConfig where
  enabled : Bool
  minRequests : ℕ
  timeoutRateThreshold : ℚ
  errorRateThreshold : ℚ
  cooldownSecs : ℚ
  slowSources : List RetrievalSource
  lettaDegradedTimeoutSecs : ℚ
  memoryDegradedTimeoutSecs : ℚ
  minRequests_pos : 0 < minRequests
  le_cooldownSecs : 10 ≤ cooldownSecs

structure SourceRecord where
  requests : ℕ
  errors : ℕ
  timeouts : ℕ
  cooldownUntil : ℚ

structure DegradedSource where
  requests : ℕ
  errors : ℕ
  timeouts : ℕ
  timeoutRate : ℚ
  errorRate : ℚ
  cooldownRemainingSecs : ℚ

structure SlowSourcePolicy where
  config : SlowSourceConfig
  explicitSourceOverride : Bool
  degraded : Dict RetrievalSource DegradedSource
  timeoutOverrides : Dict RetrievalSource ℚ

abbrev SourceRecords : Type := RetrievalSource → SourceRecord

def recordRetrievalSourceLatency (s : SourceRecords) (source : RetrievalSource)
    (ok timedOut : Bool) : SourceRecords :=
  Function.update s source { s source with
    requests := (s source).requests + 1
    errors := (s source).errors + if ok then 0 else 1
    timeouts := (s source).timeouts + if timedOut then 1 else 0 }

variable (cfg : SlowSourceConfig)

def SourceRecord.rate (r : SourceRecord) (n : ℕ) : ℚ := if 0 < r.requests then n / r.requests else 0

def SourceRecord.thresholdHit (r : SourceRecord) : Bool :=
  cfg.minRequests ≤ r.requests ∧
    (cfg.timeoutRateThreshold ≤ r.rate r.timeouts ∨ cfg.errorRateThreshold ≤ r.rate r.errors)

def SourceRecord.judged (now : ℚ) (r : SourceRecord) : SourceRecord × Bool :=
  if r.thresholdHit cfg then ({ r with cooldownUntil := now + cfg.cooldownSecs }, true)
  else if r.cooldownUntil > now then (r, true)
  else ({ r with cooldownUntil := 0 }, false)

def degradedTimeoutCapForSource : RetrievalSource → Option ℚ
  | .letta => some cfg.lettaDegradedTimeoutSecs
  | .memoryBank => some cfg.memoryDegradedTimeoutSecs
  | _ => none

def checkSource (now : ℚ) (st : SourceRecords × SlowSourcePolicy) (source : RetrievalSource) :
    SourceRecords × SlowSourcePolicy :=
  let (r, degraded) := (st.1 source).judged cfg now
  let records := Function.update st.1 source r
  if degraded then
    (records, { st.2 with
      degraded := Dict.set st.2.degraded source
        ⟨r.requests, r.errors, r.timeouts, roundTo 6 (r.rate r.timeouts),
          roundTo 6 (r.rate r.errors), roundTo 3 (max 0 (r.cooldownUntil - now))⟩
      timeoutOverrides := match degradedTimeoutCapForSource cfg source with
        | some cap => Dict.set st.2.timeoutOverrides source (max 1 cap)
        | none => st.2.timeoutOverrides })
  else (records, st.2)

def retrievalSlowSourceRuntimePolicy (now : ℚ) (sources : List RetrievalSource)
    (explicitSourceOverride : Bool) (s : SourceRecords) : SourceRecords × SlowSourcePolicy :=
  let policy := ⟨cfg, explicitSourceOverride, .empty, .empty⟩
  let monitored := sources.filter (· ∈ cfg.slowSources)
  if cfg.enabled = false ∨ monitored = [] ∨ explicitSourceOverride then (s, policy)
  else monitored.foldl (checkSource cfg now) (s, policy)

inductive SlowSourceOp where
  | record (time : ℚ) (source : RetrievalSource) (ok timedOut : Bool)
  | check (time : ℚ) (sources : List RetrievalSource) (explicitSourceOverride : Bool)

def SlowSourceOp.time : SlowSourceOp → ℚ
  | .record time .. | .check time .. => time

def slowSourceStep (s : SourceRecords) : SlowSourceOp → SourceRecords
  | .record _ source ok timedOut => recordRetrievalSourceLatency s source ok timedOut
  | .check now sources explicit => (retrievalSlowSourceRuntimePolicy cfg now sources explicit s).1

def SourceRecords.init : SourceRecords := fun _ => ⟨0, 0, 0, 0⟩

/-! ### What a check reports -/

variable {cfg : SlowSourceConfig} {now : ℚ} {source : RetrievalSource}

def SlowSourcePolicy.Reported (policy : SlowSourcePolicy) (source : RetrievalSource) : Prop :=
  (policy.degraded.get? source).isSome

instance (policy : SlowSourcePolicy) : Decidable (policy.Reported source) :=
  inferInstanceAs (Decidable ((policy.degraded.get? source).isSome = true))

theorem SourceRecord.judged_judged (hnow : 0 ≤ now) (r : SourceRecord) :
    (r.judged cfg now).1.judged cfg now = r.judged cfg now := by
  have hsame : ∀ t, ({ r with cooldownUntil := t } : SourceRecord).thresholdHit cfg =
      r.thresholdHit cfg := fun _ => rfl
  by_cases hhit : r.thresholdHit cfg = true
  · simp [judged, hhit, hsame]
  · by_cases hcool : r.cooldownUntil > now
    · simp [judged, hhit, hcool]
    · simp [judged, hhit, hcool, hsame, hnow]

variable (cfg now source) in
theorem checkSource_eq (st : SourceRecords × SlowSourcePolicy) (a : RetrievalSource) :
    (checkSource cfg now st a).1 = Function.update st.1 a ((st.1 a).judged cfg now).1 ∧
      ((checkSource cfg now st a).2.Reported source ↔
        st.2.Reported source ∨ a = source ∧ ((st.1 a).judged cfg now).2 = true) := by
  cases hdegraded : ((st.1 a).judged cfg now).2 with
  | false => simp [checkSource, hdegraded]
  | true =>
    refine ⟨by simp [checkSource, hdegraded], ?_⟩
    by_cases ha : a = source
    · subst ha
      simp [checkSource, hdegraded, SlowSourcePolicy.Reported]
    · simp [checkSource, hdegraded, SlowSourcePolicy.Reported, Dict.get?_set_of_ne (Ne.symm ha), ha]

theorem foldl_checkSource (hnow : 0 ≤ now) (l : List RetrievalSource)
    (st : SourceRecords × SlowSourcePolicy) :
    (l.foldl (checkSource cfg now) st).1 source =
        (if source ∈ l then ((st.1 source).judged cfg now).1 else st.1 source) ∧
      ((l.foldl (checkSource cfg now) st).2.Reported source ↔
        st.2.Reported source ∨ source ∈ l ∧ ((st.1 source).judged cfg now).2 = true) := by
  induction l generalizing st with
  | nil => simp
  | cons a l ih =>
    obtain ⟨ihrecords, ihreported⟩ := ih (checkSource cfg now st a)
    obtain ⟨hrecords, hreported⟩ := checkSource_eq cfg now source st a
    rw [foldl_cons, ihrecords, ihreported, hreported, hrecords]
    by_cases ha : a = source
    · subst ha
      simp only [Function.update_self, SourceRecord.judged_judged hnow, mem_cons, true_or,
        if_true, true_and, ite_self]
      tauto
    · rw [Function.update_of_ne (Ne.symm ha)]
      simp [ha, Ne.symm ha]

def Monitors (cfg : SlowSourceConfig) (source : RetrievalSource) : SlowSourceOp → Prop
  | .record .. => False
  | .check _ sources explicit => cfg.enabled = true ∧ explicit = false ∧ source ∈ sources ∧
    source ∈ cfg.slowSources

instance (op : SlowSourceOp) : Decidable (Monitors cfg source op) :=
  match op with
  | .record .. => isFalse id
  | .check _ sources explicit => inferInstanceAs (Decidable (cfg.enabled = true ∧
      explicit = false ∧ source ∈ sources ∧ source ∈ cfg.slowSources))

variable {sources : List RetrievalSource} {explicit : Bool}

theorem policy_of_monitors (hnow : 0 ≤ now)
    (h : Monitors cfg source (.check now sources explicit)) (s : SourceRecords) :
    (retrievalSlowSourceRuntimePolicy cfg now sources explicit s).1 source =
        ((s source).judged cfg now).1 ∧
      ((retrievalSlowSourceRuntimePolicy cfg now sources explicit s).2.Reported source ↔
        ((s source).judged cfg now).2 = true) := by
  obtain ⟨henabled, hexplicit, hsource, hslow⟩ := h
  have hmem : source ∈ sources.filter (· ∈ cfg.slowSources) :=
    mem_filter.mpr ⟨hsource, decide_eq_true hslow⟩
  have hgo : ¬ (cfg.enabled = false ∨ sources.filter (· ∈ cfg.slowSources) = [] ∨
      explicit = true) := by
    simp [henabled, hexplicit, ne_nil_of_mem hmem]
  rw [retrievalSlowSourceRuntimePolicy, if_neg hgo, (foldl_checkSource hnow _ _).1,
    (foldl_checkSource hnow _ _).2, if_pos hmem]
  simp [hmem, SlowSourcePolicy.Reported]

theorem policy_of_not_monitors (hnow : 0 ≤ now)
    (h : ¬ Monitors cfg source (.check now sources explicit)) (s : SourceRecords) :
    (retrievalSlowSourceRuntimePolicy cfg now sources explicit s).1 source = s source := by
  rw [retrievalSlowSourceRuntimePolicy]
  split
  · rfl
  · rename_i hgo
    rw [(foldl_checkSource hnow _ _).1, if_neg]
    intro hmem
    obtain ⟨hsource, hslow⟩ := mem_filter.mp hmem
    simp only [not_or, Bool.not_eq_false, Bool.not_eq_true] at hgo
    exact h ⟨hgo.1, hgo.2.2, hsource, of_decide_eq_true hslow⟩

variable {op : SlowSourceOp}

theorem slowSourceStep_of_monitors (htime : 0 ≤ op.time) (h : Monitors cfg source op)
    (s : SourceRecords) : slowSourceStep cfg s op source = ((s source).judged cfg op.time).1 := by
  cases op with
  | record => exact h.elim
  | check => exact (policy_of_monitors htime h s).1

theorem cooldownUntil_of_not_monitors (htime : 0 ≤ op.time) (h : ¬ Monitors cfg source op)
    (s : SourceRecords) :
    (slowSourceStep cfg s op source).cooldownUntil = (s source).cooldownUntil := by
  cases op with
  | record time a ok timedOut =>
    by_cases ha : source = a
    · subst ha
      simp [slowSourceStep, recordRetrievalSourceLatency]
    · simp [slowSourceStep, recordRetrievalSourceLatency, Function.update_of_ne ha]
  | check => exact congrArg SourceRecord.cooldownUntil (policy_of_not_monitors htime h s)

theorem lt_cooldownUntil_judged {time : ℚ} (htime : 0 ≤ time) (hnow : time ≤ now)
    (r : SourceRecord) :
    now < (r.judged cfg time).1.cooldownUntil ↔
      if r.thresholdHit cfg then now < time + cfg.cooldownSecs else now < r.cooldownUntil := by
  rw [SourceRecord.judged]
  split
  · rfl
  · split
    · rfl
    · rename_i hcool
      exact iff_of_false (not_lt.mpr (htime.trans hnow))
        (not_lt.mpr ((not_lt.mp hcool).trans hnow))

theorem SourceRecord.judged_snd_iff (hnow : 0 ≤ now) (r : SourceRecord) :
    (r.judged cfg now).2 = true ↔ now < (r.judged cfg now).1.cooldownUntil := by
  have hlong := cfg.le_cooldownSecs
  rw [lt_cooldownUntil_judged hnow le_rfl, judged]
  split
  · exact iff_of_true rfl (by linarith)
  · split
    · rename_i hcool
      exact iff_of_true rfl hcool
    · rename_i hcool
      exact iff_of_false Bool.false_ne_true hcool

/-! ### Histories -/

variable {ops : List SlowSourceOp}

structure Timely (ops : List SlowSourceOp) : Prop where
  nonneg : ∀ op ∈ ops, 0 ≤ op.time
  sorted : ops.Pairwise fun a b => a.time ≤ b.time

def HitAt (cfg : SlowSourceConfig) (source : RetrievalSource) (ops : List SlowSourceOp) (t : ℚ) :
    Prop :=
  ∃ pre op post, ops = pre ++ op :: post ∧ Monitors cfg source op ∧ op.time = t ∧
    (run (slowSourceStep cfg) .init pre source).thresholdHit cfg = true

variable {t : ℚ}

theorem hitAt_concat :
    HitAt cfg source (ops ++ [op]) t ↔ HitAt cfg source ops t ∨ Monitors cfg source op ∧
      op.time = t ∧ (run (slowSourceStep cfg) .init ops source).thresholdHit cfg = true := by
  constructor
  · rintro ⟨pre, op', post, hsplit, hop⟩
    rcases eq_nil_or_concat post with rfl | ⟨post, last, rfl⟩
    · obtain ⟨rfl, hlast⟩ := append_inj' hsplit rfl
      obtain rfl : op = op' := by simpa using hlast
      exact .inr hop
    · rw [concat_eq_append, ← cons_append, ← append_assoc] at hsplit
      exact .inl ⟨pre, op', post, (append_inj' hsplit rfl).1, hop⟩
  · rintro (⟨pre, op', post, rfl, hop⟩ | hop)
    · exact ⟨pre, op', post ++ [op], by simp, hop⟩
    · exact ⟨ops, op, [], rfl, hop⟩

theorem HitAt.exists_mem (h : HitAt cfg source ops t) : ∃ op ∈ ops, op.time = t := by
  obtain ⟨pre, op, post, rfl, -, htime, -⟩ := h
  exact ⟨op, by simp, htime⟩

theorem Timely.of_concat (h : Timely (ops ++ [op])) :
    Timely ops ∧ 0 ≤ op.time ∧ ∀ op' ∈ ops, op'.time ≤ op.time := by
  obtain ⟨hnonneg, hsorted⟩ := h
  obtain ⟨hops, -, hlast⟩ := pairwise_append.mp hsorted
  exact ⟨⟨fun op' h => hnonneg op' (by simp [h]), hops⟩, hnonneg op (by simp),
    fun op' h => hlast op' h op (by simp)⟩

/-- **The cool-down of a source**, seen from a time that has been reached, is that of the checks
that have found a share over its threshold. -/
theorem lt_cooldownUntil_iff (h : Timely ops) {now : ℚ} (hnow : 0 ≤ now)
    (hops : ∀ op ∈ ops, op.time ≤ now) :
    now < (run (slowSourceStep cfg) .init ops source).cooldownUntil ↔
      ∃ t, HitAt cfg source ops t ∧ now < t + cfg.cooldownSecs := by
  induction ops using List.reverseRecOn generalizing now with
  | nil =>
    refine iff_of_false (by simpa [SourceRecords.init] using hnow) ?_
    rintro ⟨t, hit, -⟩
    obtain ⟨op, hop, -⟩ := hit.exists_mem
    cases hop
  | append_singleton ops op ih =>
    obtain ⟨htimely, hpos, hlast⟩ := h.of_concat
    have hle : op.time ≤ now := hops op (by simp)
    have hold := ih htimely hnow fun op' h => (hlast op' h).trans hle
    simp only [run_append, run_cons, run_nil, hitAt_concat]
    by_cases hmonitors : Monitors cfg source op
    · rw [slowSourceStep_of_monitors hpos hmonitors, lt_cooldownUntil_judged hpos hle]
      split
      · rename_i hhit
        -- the cool-down starts again, and ends after every earlier one
        simp only [hmonitors, hhit, true_and, and_true]
        constructor
        · exact fun hlt => ⟨op.time, .inr rfl, hlt⟩
        · rintro ⟨t, hit | rfl, hlt⟩
          · obtain ⟨op', hop', rfl⟩ := hit.exists_mem
            exact hlt.trans_le (by have := hlast op' hop'; gcongr)
          · exact hlt
      · rename_i hhit
        simpa [hhit] using hold
    · rw [cooldownUntil_of_not_monitors hpos hmonitors]
      simpa [hmonitors] using hold

def QuietAt (cfg : SlowSourceConfig) (source : RetrievalSource) (ops : List SlowSourceOp)
    (now : ℚ) : Prop :=
  ∀ t ok timedOut, .record t source ok timedOut ∈ ops → ok = false ∨ timedOut = true →
    t + cfg.cooldownSecs < now

/-- **A slow source recovers** exactly when, for the length of a cool-down, no check has found its
lifetime share of errors or of timeouts over the threshold. -/
theorem slowSource_recovers_iff {now : ℚ} {sources : List RetrievalSource} {explicit : Bool}
    (htimely : Timely (ops ++ [.check now sources explicit]))
    (hmonitors : Monitors cfg source (.check now sources explicit)) :
    (QuietAt cfg source ops now →
        ¬ (retrievalSlowSourceRuntimePolicy cfg now sources explicit
          (run (slowSourceStep cfg) .init ops)).2.Reported source) ↔
      (QuietAt cfg source ops now →
        ∀ t, HitAt cfg source (ops ++ [.check now sources explicit]) t →
          t + cfg.cooldownSecs ≤ now) := by
  obtain ⟨-, hpos, hlast⟩ := htimely.of_concat
  have hnow : 0 ≤ now := hpos
  have hops : ∀ op ∈ ops ++ [.check now sources explicit], op.time ≤ now := by
    intro op hop
    rcases mem_append.mp hop with hop | hop
    · exact hlast op hop
    · rw [mem_singleton.mp hop]
      rfl
  have hend : now < (run (slowSourceStep cfg) .init
      (ops ++ [.check now sources explicit]) source).cooldownUntil ↔ _ :=
    lt_cooldownUntil_iff htimely hnow hops
  rw [run_append, run_cons, run_nil, slowSourceStep_of_monitors hpos hmonitors] at hend
  refine imp_congr_right fun _ => ?_
  rw [(policy_of_monitors hnow hmonitors _).2, SourceRecord.judged_snd_iff hnow]
  simpa only [SlowSourceOp.time, not_exists, not_and, not_lt] using not_congr hend

/-! ### An idle source -/

def SlowSourceConfig.default : SlowSourceConfig where
  enabled := true
  minRequests := 20
  timeoutRateThreshold := 9 / 20
  errorRateThreshold := 11 / 20
  cooldownSecs := 180
  slowSources := [.letta, .memoryBank]
  lettaDegradedTimeoutSecs := 18
  memoryDegradedTimeoutSecs := 5 / 2
  minRequests_pos := by decide
  le_cooldownSecs := by norm_num

def lettaHistory (failed good : ℕ) : List SlowSourceOp :=
  List.replicate failed (.record 1 .letta false false) ++
    List.replicate good (.record 60 .letta true false)

instance (ops : List SlowSourceOp) : Decidable (Timely ops) :=
  decidable_of_iff ((∀ op ∈ ops, 0 ≤ op.time) ∧ ops.Pairwise fun a b => a.time ≤ b.time)
    ⟨fun h => ⟨h.1, h.2⟩, fun h => ⟨h.nonneg, h.sorted⟩⟩

theorem slowSource_recovers_iff_good :
    Timely (lettaHistory 20 20 ++ [.check 1000 [.letta] false]) ∧
      Monitors .default .letta (.check 1000 [.letta] false) ∧
      (QuietAt .default .letta (lettaHistory 20 20) 1000 →
        ∀ t, HitAt .default .letta (lettaHistory 20 20 ++ [.check 1000 [.letta] false]) t →
          t + SlowSourceConfig.default.cooldownSecs ≤ 1000) := by
  have htimely : Timely (lettaHistory 20 20 ++ [.check 1000 [.letta] false]) := by decide +kernel
  have hmonitors : Monitors .default .letta (.check 1000 [.letta] false) := by decide +kernel
  refine ⟨htimely, hmonitors, (slowSource_recovers_iff htimely hmonitors).mp fun _ => ?_⟩
  decide +kernel

/-- Letta has failed twenty times in the first second; a check at a thousand seconds reports it as
degraded. -/
theorem idle_source_degraded :
    Timely (lettaHistory 20 0 ++ [.check 1000 [.letta] false]) ∧
      Monitors .default .letta (.check 1000 [.letta] false) ∧
      QuietAt .default .letta (lettaHistory 20 0) 1000 ∧
      (retrievalSlowSourceRuntimePolicy .default 1000 [.letta] false
        (run (slowSourceStep .default) .init (lettaHistory 20 0))).2.Reported .letta := by
  refine ⟨by decide +kernel, by decide +kernel, ?_, by decide +kernel⟩
  intro t ok timedOut hmem _
  obtain ⟨rfl, -⟩ : t = 1 ∧ ok = false ∧ timedOut = false := by simpa [lettaHistory] using hmem
  decide +kernel

end ContextLattice
