import ContextLattice.Write.System

/-!
# Last write wins

Requests for one file, one after another. A file is written `A`, `B` and `A` again within the
window: the third write is suppressed although the file holds `B`. What the state **tracks** is the
last write that was not suppressed.
-/

namespace ContextLattice

open Foundation List

/-! ### One request at a time -/

structure Moment where
  rid : ℕ
  clk : Clock
  now : ℚ
  requestId : Option String
  drawn : String
  mongo : Option String
  gate : LettaGate
  counts : FanoutCounts
  ids : String → String

inductive SerialOp where
  | write (m : Moment) (req : MemoryWrite)
  | flush (m : Moment) (force : Bool)

def Moment.drain (m : Moment) : List WriteOp :=
  [.take 0, .store 0, .publish 0 m.clk m.drawn m.gate]

def Moment.complete (m : Moment) : List WriteOp :=
  .seeded m.rid m.clk m.gate :: m.drain ++ [.finish m.rid m.gate m.counts]

def SerialOp.steps : SerialOp → List WriteOp
  | .write m req => .receive m.rid m.clk m.now m.requestId m.drawn req ::
    .rawStored m.rid m.clk m.mongo m.gate :: m.complete
  | .flush m force => .flush m.clk m.now force m.ids :: m.drain

def serialStep (env : WriteEnv) (s : WriteState) (op : SerialOp) : WriteState :=
  run (writeStep env) s op.steps

def SerialOp.prepared (env : WriteEnv) : SerialOp → Option PreparedWrite
  | .write _ req => (prepareWrite env.cfg env.lib req).toOption
  | .flush .. => none

def lastWrite (env : WriteEnv) (ops : List SerialOp) : Option PreparedWrite :=
  (ops.filterMap (SerialOp.prepared env)).getLast?

def WritesTo (env : WriteEnv) (project file : String) : SerialOp → Prop
  | .write _ req => ∃ w, prepareWrite env.cfg env.lib req = .ok w ∧ w.project = project ∧
    w.file = file
  | .flush .. => True

def rollupMode (env : WriteEnv) (file : String) : Bool :=
  isHotMemoryFile env.cfg env.lib file && env.cfg.hotMemoryRollupEnabled

def Shows (env : WriteEnv) (s : WriteState) (w : PreparedWrite) : Prop :=
  if w.hotRollupMode env.cfg then
    ∃ rollupFile r, buildHotMemoryRollupFile env.cfg env.lib w.file = .ok rollupFile ∧
      s.bank.get? (w.project, rollupFile) = some (.rollup r) ∧
        r.sourceContentSha256 = w.contentHash
  else s.bank.get? (w.project, w.file) = some (.text w.content)

def SameContent (env : WriteEnv) (v w : PreparedWrite) : Prop :=
  if w.hotRollupMode env.cfg then v.contentHash = w.contentHash else v.content = w.content

def Suppressed (env : WriteEnv) (s : WriteState) (m : Moment) (w : PreparedWrite) : Prop :=
  s.maps.Has env.cfg m.now w

instance (env : WriteEnv) (s : WriteState) (m : Moment) (w : PreparedWrite) :
    Decidable (Suppressed env s m w) :=
  decidable_of_iff ((checkWrite env.cfg m.now w s.maps).2 ≠ .fresh)
    (by rw [Suppressed, Ne, checkWrite_fresh_iff, not_not])

/-! ### What the steps do to the files -/

variable {env : WriteEnv} {s s' s'' : WriteState} {rid : ℕ} {w : PreparedWrite}

structure Idle (s : WriteState) : Prop where
  queue : s.queue.items = []
  held : s.held.get? 0 = none

theorem Idle.congr (h : Idle s) (hcore : SameCore s s') : Idle s' :=
  ⟨by rw [hcore.queue, h.queue], by rw [hcore.held, h.held]⟩

theorem Idle.not_full (h : Idle s) (cfg : WriteConfig) : s.queue.full cfg = false := by
  simp only [BankQueue.full, h.queue, length_nil, decide_eq_false_iff_not]
  omega

theorem Idle.drain (h : Idle s) (m : Moment) : run (writeStep env) s m.drain = s := by
  have htake : takeItem s 0 = s := by simp [takeItem, h.held, h.queue]
  have hstore : storeItem s 0 = s := by simp [storeItem, h.held]
  have hpublish : publishItem env s 0 m.clk m.drawn m.gate = s := by simp [publishItem, h.held]
  simp [Moment.drain, writeStep, htake, hstore, hpublish]

variable {item : BankItem}

theorem drain_one (env : WriteEnv) (hqueue : s.queue.items = [item])
    (hheld : s.held.get? 0 = none) (m : Moment) : let s' := run (writeStep env) s m.drain
    Idle s' ∧ s'.rollups = s.rollups ∧
      s'.bank = s.bank.set (item.project, item.fileName) item.content := by
  have htake : takeItem s 0 =
      { s with queue := s.queue.tail, held := s.held.set 0 ⟨item, false⟩ } := by
    simp [takeItem, hheld, hqueue]
  simp only [Moment.drain, run_cons, run_nil, writeStep, htake, storeItem, Dict.get?_set,
    publishItem]
  refine ⟨⟨?_, ?_⟩, rfl, rfl⟩
  · simp [WriteState.finishJob, hqueue]
  · exact Dict.get?_erase ..

/-! ### One request -/

variable {m : Moment} {req : MemoryWrite}

theorem get?_requests_receive (hprepare : prepareWrite env.cfg env.lib req = .ok w) :
    (Suppressed env s m w → ∀ p, Dict.get? (receiveWrite env s m.rid m.clk m.now m.requestId m.drawn
        req).requests m.rid = some p → p.stage ≠ .fresh) ∧
      (¬ Suppressed env s m w → ∃ p, Dict.get? (receiveWrite env s m.rid m.clk m.now m.requestId
        m.drawn req).requests m.rid = some p ∧ p.stage = .fresh ∧ p.write = w) := by
  rw [Suppressed, ← checkWrite_fresh_iff, ← not_not (a := s.maps.Has env.cfg m.now w),
    ← checkWrite_fresh_iff]
  simp only [receiveWrite, hprepare]
  split
  · rename_i hverdict
    simp [hverdict, WriteState.answer]
  · rename_i hverdict
    simp [hverdict, WriteState.setRequest]
  · rename_i hverdict
    simp [hverdict, WriteState.setRequest]

def handedOver (env : WriteEnv) (s : WriteState) (m : Moment) (req : MemoryWrite) : WriteState :=
  rawStoredWrite env (receiveWrite env s m.rid m.clk m.now m.requestId m.drawn req) m.rid m.clk
    m.mongo m.gate

theorem serialStep_write (env : WriteEnv) (s : WriteState) (m : Moment) (req : MemoryWrite) :
    serialStep env s (.write m req) = run (writeStep env) (handedOver env s m req) m.complete := by
  rw [serialStep, SerialOp.steps, run_cons, run_cons, writeStep, writeStep, handedOver]

theorem Idle.complete (h : Idle s) (m : Moment) :
    SameCore s (run (writeStep env) s m.complete) := by
  have hseeded := sameCore_seeded env s m.rid m.clk m.gate
  rw [Moment.complete, cons_append, run_cons, run_append, writeStep, (h.congr hseeded).drain]
  exact hseeded.trans (sameCore_finish ..)

theorem complete_one (env : WriteEnv) (hqueue : s.queue.items = [item])
    (hheld : s.held.get? 0 = none) (m : Moment) : let s' := run (writeStep env) s m.complete
    Idle s' ∧ s'.rollups = s.rollups ∧
      s'.bank = s.bank.set (item.project, item.fileName) item.content := by
  have hseeded := sameCore_seeded env s m.rid m.clk m.gate
  intro s'
  obtain ⟨hidle, hrollups, hbank⟩ := drain_one env ((congrArg _ hseeded.queue).trans hqueue)
    (by rw [hseeded.held, hheld]) m
  have hfinish :
      SameCore (run (writeStep env) (seededWrite env s m.rid m.clk m.gate) m.drain) s' := by
    exact sameCore_finish ..
  refine ⟨hidle.congr hfinish, ?_, ?_⟩
  · rw [hfinish.rollups, hrollups, hseeded.rollups]
  · rw [hfinish.bank, hbank, hseeded.bank]

theorem serialStep_suppressed (hidle : Idle s)
    (hprepare : prepareWrite env.cfg env.lib req = .ok w) (hsuppressed : Suppressed env s m w) :
    SameCore s (serialStep env s (.write m req)) := by
  have hcore : SameCore s (handedOver env s m req) :=
    (sameCore_receive ..).trans (sameCore_rawStored env m.clk m.mongo m.gate
      ((get?_requests_receive hprepare).1 hsuppressed))
  rw [serialStep_write]
  exact hcore.trans ((hidle.congr hcore).complete m)

theorem handedOver_fresh (hprepare : prepareWrite env.cfg env.lib req = .ok w)
    (hfresh : ¬ Suppressed env s m w) :
    ∃ p s₁, p.write = w ∧ SameCore s s₁ ∧
      handedOver env s m req = admitWrite env s₁ m.rid p m.clk m.mongo m.gate := by
  obtain ⟨p, hp, hstage, hw⟩ := (get?_requests_receive hprepare).2 hfresh
  refine ⟨p, _, hw, sameCore_receive env s m.rid m.clk m.now m.requestId m.drawn req, ?_⟩
  simp only [handedOver, rawStoredWrite, hp, hstage]

section

variable (hidle : Idle s) (hprepare : prepareWrite env.cfg env.lib req = .ok w)
  (hfresh : ¬ Suppressed env s m w)

include hidle hprepare hfresh

theorem serialStep_direct (hmode : w.hotRollupMode env.cfg = false) :
    let s' := serialStep env s (.write m req)
    Idle s' ∧ s'.rollups = s.rollups ∧
      s'.bank = s.bank.set (w.project, w.file) (.text w.content) := by
  obtain ⟨p, s₁, rfl, hcore, hadmitted⟩ := handedOver_fresh hprepare hfresh
  have hidle₁ := hidle.congr hcore
  intro s'
  simp only [admitWrite, hmode, enqueueMemoryBankWrite, hidle₁.not_full, Bool.false_eq_true,
    if_false] at hadmitted
  have hqueue : (handedOver env s m req).queue.items =
      [(writeItem env m.rid p m.mongo m.gate).numbered s₁.queue.next] := by
    rw [hadmitted]
    simp [WriteState.setRequest, hidle₁.queue]
  have hheld : Dict.get? (handedOver env s m req).held 0 = none := by
    rw [hadmitted]
    exact hidle₁.held
  obtain ⟨hidle', hrollups, hbank⟩ := complete_one env hqueue hheld m
  rw [← serialStep_write] at hidle' hrollups hbank
  refine ⟨hidle', ?_, ?_⟩
  · rw [hrollups, hadmitted, ← hcore.rollups]
    rfl
  · rw [hbank, hadmitted, ← hcore.bank]
    rfl

theorem serialStep_rollup {rollupFile : String} (hmode : w.hotRollupMode env.cfg = true)
    (hfile : buildHotMemoryRollupFile env.cfg env.lib w.file = .ok rollupFile) :
    let s' := serialStep env s (.write m req)
    Idle s' ∧ (∃ hot : HotWrite, hot.write = w ∧
        s'.rollups = enqueueHotMemoryRollup m.clk hot s.rollups) ∧ s'.bank = s.bank := by
  obtain ⟨p, s₁, rfl, hcore, hadmitted⟩ := handedOver_fresh hprepare hfresh
  have hidle₁ := hidle.congr hcore
  intro s'
  simp only [admitWrite, hmode, hfile, if_true] at hadmitted
  have hidle₂ : Idle (handedOver env s m req) := by
    rw [hadmitted]
    exact ⟨hidle₁.queue, hidle₁.held⟩
  have hcomplete : SameCore (handedOver env s m req) s' := by
    rw [show s' = _ from serialStep_write env s m req]
    exact hidle₂.complete m
  refine ⟨hidle₂.congr hcomplete, ⟨hotWriteOf env p m.gate, rfl, ?_⟩, ?_⟩
  · rw [hcomplete.rollups, hadmitted, ← hcore.rollups]
    rfl
  · rw [hcomplete.bank, hadmitted, ← hcore.bank]
    rfl

end

/-! ### One flush -/

variable {force : Bool} {key : String} {entry : RollupEntry} {entries : Dict String RollupEntry}
  {q : BankQueue}

variable {cfg : WriteConfig} {lib : WriteLib} {clk : Clock} {now : ℚ} {drawn : String → String}

theorem flush_of_forall_not_due (h : ∀ p ∈ entries.rows, p.2.due cfg now force = false) :
    flushHotMemoryRollups cfg lib clk now force drawn entries q = (entries, q) := by
  have hpending : entries.rows.filter (fun p => p.2.due cfg now force) = [] := by
    simpa [filter_eq_nil_iff] using h
  rw [flushHotMemoryRollups, hpending, foldl_nil]
  refine congrArg (·, q) (Table.ext ?_)
  conv_rhs => rw [← map_id entries.rows]
  exact map_congr_left fun p hp => by simp [h p hp]

theorem serialStep_flush_idle (env : WriteEnv) (m : Moment) (force : Bool) (hidle : Idle s)
    (h : ∀ p ∈ s.rollups.rows, p.2.due env.cfg m.now force = false) :
    SameCore s (serialStep env s (.flush m force)) := by
  have hflush : writeStep env s (.flush m.clk m.now force m.ids) = s := by
    rw [writeStep, flush_of_forall_not_due h]
  rw [serialStep, SerialOp.steps, run_cons, hflush, hidle.drain]
  exact .refl s

theorem flush_single (hrows : entries.rows = [(key, entry)])
    (hdue : entry.due cfg now force = true)
    (hitem : rollupItem cfg lib clk (drawn key) entry = .ok item) (hfull : q.full cfg = false) :
    (flushHotMemoryRollups cfg lib clk now force drawn entries q).1.rows =
        [(key, entry.flushed now)] ∧
      (flushHotMemoryRollups cfg lib clk now force drawn entries q).2 = q.put item := by
  have hpending : entries.rows.filter (fun p => p.2.due cfg now force) = [(key, entry)] := by
    simp [hrows, hdue]
  have hflush : ∀ st : Dict String RollupEntry × BankQueue, st.2 = q →
      flushEntry cfg lib clk drawn st (key, entry) = (st.1, q.put item) := by
    rintro st rfl
    simp [flushEntry, hitem, bind, Except.bind, enqueueMemoryBankWrite, hfull]
  rw [flushHotMemoryRollups, hpending, foldl_cons, foldl_nil, hflush _ rfl]
  exact ⟨by simp [hrows, hdue], rfl⟩

theorem serialStep_flush_due (env : WriteEnv) (m : Moment) (force : Bool)
    {rollupFile : String} (hidle : Idle s) (hrows : s.rollups.rows = [(key, entry)])
    (hdue : entry.due env.cfg m.now force = true)
    (hfile : buildHotMemoryRollupFile env.cfg env.lib entry.file = .ok rollupFile) :
    let s' := serialStep env s (.flush m force)
    Idle s' ∧ s'.rollups.rows = [(key, entry.flushed m.now)] ∧
      s'.bank = s.bank.set (entry.project, rollupFile)
        (.rollup (buildHotMemoryRollupContent m.clk entry)) := by
  obtain ⟨item, hitem, hproject, hfileName, hcontent⟩ : ∃ item,
      rollupItem env.cfg env.lib m.clk (m.ids key) entry = .ok item ∧ item.project = entry.project ∧
        item.fileName = rollupFile ∧
          item.content = .rollup (buildHotMemoryRollupContent m.clk entry) := by
    simp [rollupItem, hfile, bind, Except.bind]
  obtain ⟨hrows', hqueue⟩ := flush_single hrows hdue hitem (hidle.not_full env.cfg)
  intro s'
  -- the state after the flush itself
  let s₁ := writeStep env s (.flush m.clk m.now force m.ids)
  have hqueue₁ : s₁.queue.items = [item.numbered s.queue.next] := by
    rw [show s₁.queue = s.queue.put item from hqueue, BankQueue.items_put, hidle.queue]
    rfl
  have hs' : s' = run (writeStep env) s₁ m.drain := by
    simp only [s', s₁, serialStep, SerialOp.steps, run_cons]
  obtain ⟨hidle', hrollups, hbank⟩ := drain_one env hqueue₁ hidle.held m
  rw [← hs'] at hidle' hrollups hbank
  refine ⟨hidle', by rw [hrollups]; exact hrows', ?_⟩
  rw [hbank, ← hproject, ← hfileName, ← hcontent]
  rfl

/-! ### Sequences of requests -/

structure IsWrite (env : WriteEnv) (project file : String) (w : PreparedWrite) : Prop where
  project_eq : w.project = project
  file_eq : w.file = file
  hot_eq : w.hot = isHotMemoryFile env.cfg env.lib file

structure Tracker (env : WriteEnv) (project file : String)
    (T : Option PreparedWrite → WriteState → Prop) : Prop where
  start : T none .empty
  suppressed : ∀ {v s m req w}, T v s → prepareWrite env.cfg env.lib req = .ok w →
    Suppressed env s m w → T v (serialStep env s (.write m req))
  fresh : ∀ {v s m req w}, T v s → prepareWrite env.cfg env.lib req = .ok w →
    IsWrite env project file w → ¬ Suppressed env s m w →
      T (some w) (serialStep env s (.write m req))
  flush : ∀ {v s m force}, T v s → T v (serialStep env s (.flush m force))
  shows : ∀ {v s w m}, T v s → IsWrite env project file w →
    (Shows env (serialStep env s (.flush m true)) w ↔ ∃ v', v = some v' ∧ SameContent env v' w)

variable {project file : String} {u v : PreparedWrite} {ops pre : List SerialOp}

theorem IsWrite.mode_eq (hw : IsWrite env project file w) :
    w.hotRollupMode env.cfg = rollupMode env file := by
  rw [PreparedWrite.hotRollupMode, hw.hot_eq, rollupMode]

theorem SameContent.refl (w : PreparedWrite) : SameContent env w w := by
  unfold SameContent
  split <;> rfl

section

variable (hv : IsWrite env project file v) (hw : IsWrite env project file w)
  (h : SameContent env u v)

include hv hw h

theorem SameContent.trans (h' : SameContent env v w) : SameContent env u w := by
  unfold SameContent at *
  rw [hv.mode_eq] at h
  rw [hw.mode_eq] at h' ⊢
  split at h' <;> simp_all

theorem SameContent.cancel (h' : SameContent env u w) : SameContent env v w := by
  unfold SameContent at *
  rw [hv.mode_eq] at h
  rw [hw.mode_eq] at h' ⊢
  split at h' <;> simp_all

end

theorem WritesTo.exists_write (h : WritesTo env project file (.write m req)) :
    ∃ w, prepareWrite env.cfg env.lib req = .ok w ∧ IsWrite env project file w := by
  obtain ⟨w, hprepare, hproject, rfl⟩ := h
  exact ⟨w, hprepare, hproject, rfl, (prepareWrite_spec hprepare).hot⟩

theorem WritesTo.isWrite (h : WritesTo env project file (.write m req))
    (hprepare : prepareWrite env.cfg env.lib req = .ok w) : IsWrite env project file w := by
  obtain ⟨w', hprepare', hw'⟩ := h.exists_write
  cases hprepare.symm.trans hprepare'
  exact hw'

theorem lastWrite_write (pre : List SerialOp) (m : Moment)
    (hprepare : prepareWrite env.cfg env.lib req = .ok w) :
    lastWrite env (pre ++ [.write m req]) = some w := by
  simp [lastWrite, SerialOp.prepared, hprepare, Except.toOption]

theorem lastWrite_flush (pre : List SerialOp) (m : Moment) (force : Bool) :
    lastWrite env (pre ++ [.flush m force]) = lastWrite env pre := by
  simp [lastWrite, SerialOp.prepared]

theorem isWrite_lastWrite (hpre : ∀ op ∈ pre, WritesTo env project file op)
    (h : lastWrite env pre = some w) : IsWrite env project file w := by
  obtain ⟨op, hop, hw⟩ := mem_filterMap.mp (mem_of_getLast? h)
  cases op with
  | flush => cases hw
  | write m req =>
    cases hprepare : prepareWrite env.cfg env.lib req with
    | error e => simp [SerialOp.prepared, hprepare, Except.toOption] at hw
    | ok w' =>
      obtain rfl : w' = w := by simpa [SerialOp.prepared, hprepare, Except.toOption] using hw
      exact (hpre _ hop).isWrite hprepare

variable {T : Option PreparedWrite → WriteState → Prop}

theorem Tracker.exists_tracked (hT : Tracker env project file T)
    (hpre : ∀ op ∈ pre, WritesTo env project file op) :
    ∃ v, T v (run (serialStep env) .empty pre) ∧ (lastWrite env pre = none → v = none) := by
  induction pre using List.reverseRecOn with
  | nil => exact ⟨none, hT.start, fun _ => rfl⟩
  | append_singleton pre op ih =>
    obtain ⟨v, hv, hnone⟩ := ih fun op' h => hpre op' (mem_append_left _ h)
    rw [run_append, run_cons, run_nil]
    cases op with
    | flush m force =>
      refine ⟨v, hT.flush hv, fun h => hnone ?_⟩
      rwa [lastWrite_flush] at h
    | write m req =>
      obtain ⟨w, hprepare, hw⟩ := (hpre (.write m req) (by simp)).exists_write
      have hlast : lastWrite env (pre ++ [.write m req]) ≠ none := by
        rw [lastWrite_write pre m hprepare]
        exact Option.some_ne_none w
      by_cases hsuppressed : Suppressed env (run (serialStep env) .empty pre) m w
      · exact ⟨v, hT.suppressed hv hprepare hsuppressed, fun h => absurd h hlast⟩
      · exact ⟨some w, hT.fresh hv hprepare hw hsuppressed, fun h => absurd h hlast⟩

def SuppressedRepeats (env : WriteEnv) (ops : List SerialOp) : Prop :=
  ∀ pre m req post w, ops = pre ++ .write m req :: post → prepareWrite env.cfg env.lib req = .ok w →
    Suppressed env (run (serialStep env) .empty pre) m w →
      ∃ v, lastWrite env pre = some v ∧ SameContent env v w

theorem Tracker.tracks_lastWrite (hT : Tracker env project file T)
    (hops : ∀ op ∈ ops, WritesTo env project file op) (hrepeats : SuppressedRepeats env ops)
    {post : List SerialOp} (heq : ops = pre ++ post) :
    ∃ v, T v (run (serialStep env) .empty pre) ∧
      ∀ w, lastWrite env pre = some w → ∃ v', v = some v' ∧ SameContent env v' w := by
  induction pre using List.reverseRecOn generalizing post with
  | nil => exact ⟨none, hT.start, fun w h => by cases h⟩
  | append_singleton pre op ih =>
    rw [append_assoc, singleton_append] at heq
    obtain ⟨v, hv, hlast⟩ := ih heq
    have hpre : ∀ op ∈ pre, WritesTo env project file op := fun op' h => hops op' (by simp [heq, h])
    rw [run_append, run_cons, run_nil]
    cases op with
    | flush m force =>
      rw [lastWrite_flush]
      exact ⟨v, hT.flush hv, hlast⟩
    | write m req =>
      obtain ⟨w, hprepare, hw⟩ := (hops (.write m req) (by simp [heq])).exists_write
      rw [lastWrite_write pre m hprepare]
      by_cases hsuppressed : Suppressed env (run (serialStep env) .empty pre) m w
      · -- the state stays, and the write looks like the one before it
        refine ⟨v, hT.suppressed hv hprepare hsuppressed, ?_⟩
        rintro _ ⟨⟩
        obtain ⟨u, hu, hsame⟩ := hrepeats pre m req post w heq hprepare hsuppressed
        obtain ⟨v', hv', hsame'⟩ := hlast u hu
        exact ⟨v', hv', hsame'.trans (isWrite_lastWrite hpre hu) hw hsame⟩
      · -- the state tracks the write itself
        refine ⟨some w, hT.fresh hv hprepare hw hsuppressed, ?_⟩
        rintro _ ⟨⟩
        exact ⟨w, rfl, .refl w⟩

def LastWriteShown (env : WriteEnv) (final : Moment) (ops : List SerialOp) : Prop :=
  ∀ pre post w, ops = pre ++ post → lastWrite env pre = some w →
    Shows env (run (serialStep env) .empty (pre ++ [.flush final true])) w

theorem Tracker.lastWriteShown_iff (hT : Tracker env project file T) (final : Moment)
    (hops : ∀ op ∈ ops, WritesTo env project file op) :
    LastWriteShown env final ops ↔ SuppressedRepeats env ops := by
  constructor
  · intro hshown pre m req post w heq hprepare hsuppressed
    have hpre : ∀ op ∈ pre, WritesTo env project file op := fun op h => hops op (by simp [heq, h])
    have hw := (hops (.write m req) (by simp [heq])).isWrite hprepare
    obtain ⟨v, hv, hnone⟩ := hT.exists_tracked hpre
    -- the suppressed write is shown, so it looks like the one tracked before it
    have hshows := hshown (pre ++ [.write m req]) post w (by simp [heq])
      (lastWrite_write pre m hprepare)
    rw [append_assoc, run_append, singleton_append, run_cons, run_cons, run_nil,
      hT.shows (hT.suppressed hv hprepare hsuppressed) hw] at hshows
    obtain ⟨v', rfl, hsame⟩ := hshows
    cases hlast : lastWrite env pre with
    | none => cases hnone hlast
    | some u =>
      have hu := isWrite_lastWrite hpre hlast
      have hshows' := hshown pre (.write m req :: post) u heq hlast
      rw [run_append, run_cons, run_nil, hT.shows hv hu] at hshows'
      obtain ⟨_, ⟨⟩, hsame'⟩ := hshows'
      exact ⟨u, rfl, hsame'.cancel hu hw hsame⟩
  · intro hrepeats pre post w heq hlast
    obtain ⟨v, hv, htracked⟩ := hT.tracks_lastWrite hops hrepeats heq
    have hw := isWrite_lastWrite (fun op h => hops op (by simp [heq, h])) hlast
    rw [run_append, run_cons, run_nil, hT.shows hv hw]
    exact htracked w hlast

/-! ### The two kinds of files -/

variable {rollupFile : String}

structure DirectTrack (project file : String) (v : Option PreparedWrite) (s : WriteState) :
    Prop where
  idle : Idle s
  rollups : s.rollups.rows = []
  bank : s.bank.get? (project, file) = v.map fun w => .text w.content

structure RollupTrack (project file rollupFile : String) (v : Option PreparedWrite)
    (s : WriteState) : Prop where
  idle : Idle s
  untouched : v = none → s.rollups.rows = [] ∧ s.bank.get? (project, rollupFile) = none
  tracked : ∀ w, v = some w → ∃ entry, s.rollups.rows = [(fileKey project file, entry)] ∧
    entry.project = project ∧ entry.file = file ∧ entry.lastHash = w.contentHash ∧
      (entry.events = [] → ∃ r, s.bank.get? (project, rollupFile) = some (.rollup r) ∧
        r.sourceContentSha256 = w.contentHash)

theorem directTracker (hmode : rollupMode env file = false) :
    Tracker env project file (DirectTrack project file) where
  start := ⟨⟨rfl, rfl⟩, rfl, rfl⟩
  suppressed := by
    intro v s m req w hv hprepare hsuppressed
    have hcore := serialStep_suppressed hv.idle hprepare hsuppressed
    exact ⟨hv.idle.congr hcore, by rw [hcore.rollups, hv.rollups], by rw [hcore.bank, hv.bank]⟩
  fresh := by
    intro v s m req w hv hprepare hw hfresh
    obtain ⟨hidle, hrollups, hbank⟩ := serialStep_direct hv.idle hprepare hfresh
      (hw.mode_eq.trans hmode)
    refine ⟨hidle, by rw [hrollups, hv.rollups], ?_⟩
    rw [hbank, hw.project_eq, hw.file_eq, Dict.get?_set]
    rfl
  flush := by
    intro v s m force hv
    have hcore := serialStep_flush_idle env m force hv.idle (by simp [hv.rollups])
    exact ⟨hv.idle.congr hcore, by rw [hcore.rollups, hv.rollups], by rw [hcore.bank, hv.bank]⟩
  shows := by
    intro v s w m hv hw
    have hcore := serialStep_flush_idle env m true hv.idle (by simp [hv.rollups])
    have hdirect : w.hotRollupMode env.cfg = false := hw.mode_eq.trans hmode
    rw [Shows, hdirect, hcore.bank, hw.project_eq, hw.file_eq, hv.bank]
    simp [SameContent, hdirect]

theorem rows_enqueueHot_nil {entries : Dict String RollupEntry} (clk : Clock) (hot : HotWrite)
    (h : entries.rows = []) :
    (enqueueHotMemoryRollup clk hot entries).rows = [(fileKey hot.write.project hot.write.file,
      (newRollupEntry clk hot).record clk hot)] := by
  have hget : entries.get? (fileKey hot.write.project hot.write.file) = none := by
    simp [Dict.get?, Table.find?, h]
  rw [enqueueHotMemoryRollup, hget, Dict.rows_set_of_get?_eq_none hget, h]
  rfl

theorem rows_enqueueHot_single {entries : Dict String RollupEntry} {entry : RollupEntry}
    (clk : Clock) (hot : HotWrite)
    (h : entries.rows = [(fileKey hot.write.project hot.write.file, entry)]) :
    (enqueueHotMemoryRollup clk hot entries).rows =
      [(fileKey hot.write.project hot.write.file, entry.record clk hot)] := by
  have hfind : Table.find? entries (fileKey hot.write.project hot.write.file) =
      some (fileKey hot.write.project hot.write.file, entry) := by simp [Table.find?, h]
  simp [enqueueHotMemoryRollup, Dict.get?, Dict.set, hfind, h]

theorem RollupTrack.flush {v : Option PreparedWrite} {s : WriteState} (m : Moment) (force : Bool)
    (hfile : buildHotMemoryRollupFile env.cfg env.lib file = .ok rollupFile)
    (hv : RollupTrack project file rollupFile v s) :
    RollupTrack project file rollupFile v (serialStep env s (.flush m force)) := by
  cases v with
  | none =>
    obtain ⟨hrows, hbank⟩ := hv.untouched rfl
    have hcore := serialStep_flush_idle env m force hv.idle (by simp [hrows])
    refine ⟨hv.idle.congr hcore, fun _ => ⟨by rw [hcore.rollups, hrows], by rw [hcore.bank, hbank]⟩,
      fun w h => by cases h⟩
  | some v =>
    obtain ⟨entry, hrows, hproject, hentry, hhash, hflushed⟩ := hv.tracked v rfl
    cases hdue : entry.due env.cfg m.now force with
    | false =>
      have hcore := serialStep_flush_idle env m force hv.idle (by simp [hrows, hdue])
      refine ⟨hv.idle.congr hcore, (fun h => nomatch h), ?_⟩
      rintro _ ⟨⟩
      refine ⟨entry, by rw [hcore.rollups, hrows], hproject, hentry, hhash, ?_⟩
      rw [hcore.bank]
      exact hflushed
    | true =>
      obtain ⟨hidle, hrows', hbank⟩ := serialStep_flush_due env m force hv.idle hrows hdue
        (by rw [hentry, hfile])
      refine ⟨hidle, (fun h => nomatch h), ?_⟩
      rintro _ ⟨⟩
      refine ⟨entry.flushed m.now, hrows', hproject, hentry, hhash, fun _ => ?_⟩
      rw [hbank, hproject]
      exact ⟨_, Dict.get?_set .., hhash⟩

theorem RollupTrack.shows {v : Option PreparedWrite} {s : WriteState} {m : Moment}
    (hfile : buildHotMemoryRollupFile env.cfg env.lib file = .ok rollupFile)
    (hv : RollupTrack project file rollupFile v s) (hash : String) :
    (∃ r, Dict.get? (serialStep env s (.flush m true)).bank (project, rollupFile) =
        some (.rollup r) ∧ r.sourceContentSha256 = hash) ↔
      ∃ v', v = some v' ∧ v'.contentHash = hash := by
  cases v with
  | none =>
    have hflush := (hv.flush m true hfile).untouched rfl
    simp [hflush.2]
  | some v =>
    obtain ⟨entry, hrows, hproject, hentry, hhash, hflushed⟩ := hv.tracked v rfl
    have hshown : ∃ r, Dict.get? (serialStep env s (.flush m true)).bank (project, rollupFile) =
        some (.rollup r) ∧ r.sourceContentSha256 = v.contentHash := by
      by_cases hevents : entry.events = []
      · have hcore := serialStep_flush_idle env m true hv.idle
          (by simp [hrows, RollupEntry.due, hevents])
        rw [hcore.bank]
        exact hflushed hevents
      · obtain ⟨-, -, hbank⟩ := serialStep_flush_due env m true hv.idle hrows
          (by simp [RollupEntry.due, hevents]) (by rw [hentry, hfile])
        rw [hbank, hproject]
        exact ⟨_, Dict.get?_set .., hhash⟩
    obtain ⟨r, hget, hr⟩ := hshown
    rw [hget]
    simp [hr]

theorem rollupTracker (hmode : rollupMode env file = true)
    (hfile : buildHotMemoryRollupFile env.cfg env.lib file = .ok rollupFile) :
    Tracker env project file (RollupTrack project file rollupFile) where
  start := ⟨⟨rfl, rfl⟩, fun _ => ⟨rfl, rfl⟩, fun w h => by cases h⟩
  suppressed := by
    intro v s m req w hv hprepare hsuppressed
    have hcore := serialStep_suppressed hv.idle hprepare hsuppressed
    refine ⟨hv.idle.congr hcore, ?_, ?_⟩
    · rw [hcore.rollups, hcore.bank]
      exact hv.untouched
    · rw [hcore.rollups, hcore.bank]
      exact hv.tracked
  fresh := by
    intro v s m req w hv hprepare hw hfresh
    obtain ⟨hidle, ⟨hot, hhot, hrollups⟩, -⟩ := serialStep_rollup hv.idle hprepare hfresh
      (hw.mode_eq.trans hmode) (by rw [hw.file_eq, hfile])
    have hkey : fileKey hot.write.project hot.write.file = fileKey project file := by
      rw [hhot, hw.project_eq, hw.file_eq]
    refine ⟨hidle, (fun h => nomatch h), ?_⟩
    rintro _ ⟨⟩
    cases v with
    | none =>
      refine ⟨(newRollupEntry m.clk hot).record m.clk hot, ?_, ?_, ?_, ?_, ?_⟩
      · rw [hrollups, rows_enqueueHot_nil _ _ (hv.untouched rfl).1, hkey]
      · rw [← hw.project_eq, ← hhot]
        rfl
      · rw [← hw.file_eq, ← hhot]
        rfl
      · rw [← hhot]
        rfl
      · simp [RollupEntry.record]
    | some v =>
      obtain ⟨entry, hrows, hproject, hentry, -, -⟩ := hv.tracked v rfl
      refine ⟨entry.record m.clk hot, ?_, hproject, hentry, ?_, ?_⟩
      · rw [hrollups, rows_enqueueHot_single _ _ (by rw [hrows, hkey]), hkey]
      · rw [← hhot]
        rfl
      · simp [RollupEntry.record]
  flush := fun hv => hv.flush _ _ hfile
  shows := by
    intro v s w m hv hw
    have hrollup : w.hotRollupMode env.cfg = true := hw.mode_eq.trans hmode
    rw [Shows, if_pos hrollup, hw.file_eq, hw.project_eq, hfile]
    simp only [SameContent, hrollup, if_true, Except.ok.injEq]
    rw [← hv.shows hfile w.contentHash]
    constructor
    · rintro ⟨_, r, rfl, h⟩
      exact ⟨r, h⟩
    · rintro ⟨r, h⟩
      exact ⟨rollupFile, r, rfl, h⟩

/-- **When the last write wins**: if and only if every write that is suppressed has the content of
the write just before it. -/
theorem lastWrite_shown_iff {env : WriteEnv} {project file : String} {ops : List SerialOp}
    (final : Moment) (hops : ∀ op ∈ ops, WritesTo env project file op)
    (hrollup : rollupMode env file = true →
      ∃ rollupFile, buildHotMemoryRollupFile env.cfg env.lib file = .ok rollupFile) :
    LastWriteShown env final ops ↔ SuppressedRepeats env ops := by
  cases hmode : rollupMode env file with
  | false => exact (directTracker hmode).lastWriteShown_iff final hops
  | true =>
    obtain ⟨rollupFile, hfile⟩ := hrollup hmode
    exact (rollupTracker hmode hfile).lastWriteShown_iff final hops

/-! ### A content that comes back -/

def moment (rid : ℕ) (now : ℚ) : Moment where
  rid := rid
  clk := .noon
  now := now
  requestId := none
  drawn := "e"
  mongo := none
  gate := {}
  counts := {}
  ids := id

def writeAt (file : String) (now : ℚ) (content : String) : SerialOp :=
  .write (moment 1 now) ⟨"docs", file, content, none⟩

def plainWrite (content : String) : PreparedWrite :=
  ⟨"docs", "a.md", content, content, none, false, "root", ["root"], content⟩

def repeated : List SerialOp := [writeAt "a.md" 0 "A", writeAt "a.md" 1 "A"]

private theorem prepareWrite_A :
    prepareWrite WriteEnv.plain.cfg WriteEnv.plain.lib ⟨"docs", "a.md", "A", none⟩ =
      .ok (plainWrite "A") := by decide +kernel

private theorem prepareWrite_B :
    prepareWrite WriteEnv.plain.cfg WriteEnv.plain.lib ⟨"docs", "a.md", "B", none⟩ =
      .ok (plainWrite "B") := by decide +kernel

theorem lastWrite_shown_iff_repeated : LastWriteShown .plain (moment 2 2) repeated := by
  have hops : ∀ op ∈ repeated, WritesTo .plain "docs" "a.md" op := by
    simp only [repeated, writeAt, forall_mem_cons]
    exact ⟨⟨_, prepareWrite_A, rfl, rfl⟩, ⟨_, prepareWrite_A, rfl, rfl⟩, by simp⟩
  refine (lastWrite_shown_iff (moment 2 2) hops fun h => absurd h (by decide)).mpr ?_
  intro pre m req post w heq hprepare hsuppressed
  rcases pre with _ | ⟨op, _ | ⟨op', pre⟩⟩
  · cases heq
    cases prepareWrite_A.symm.trans hprepare
    exact absurd hsuppressed (by decide +kernel)
  · cases heq
    cases prepareWrite_A.symm.trans hprepare
    exact ⟨plainWrite "A", lastWrite_write [] _ prepareWrite_A, .refl _⟩
  · simp [repeated] at heq

def restored (file : String) : List SerialOp :=
  [writeAt file 0 "A", writeAt file 1 "B", writeAt file 2 "A"]

/-- All three writes are in order. The file ends with the content of the second one; of a hot file,
the rollup has its hash. -/
theorem restored_content_suppressed :
    (∀ op ∈ restored "a.md", WritesTo .plain "docs" "a.md" op) ∧
      ¬ LastWriteShown .plain (moment 2 3) (restored "a.md") ∧
      Dict.get? (run (serialStep .plain) .empty (restored "a.md")).bank ("docs", "a.md") =
        some (.text "B") ∧
      ((Dict.get? (run (serialStep .plain) .empty (restored "x__latest.json" ++
          [.flush (moment 2 3) true])).bank ("docs", "_rollups/x__latest__rollup.json")).any
        fun c => match c with
          | .rollup r => r.sourceContentSha256 == "B"
          | .text _ => false) = true := by
  have hbank : Dict.get? (run (serialStep .plain) .empty (restored "a.md")).bank
        ("docs", "a.md") = some (.text "B") ∧
      Dict.get? (run (serialStep .plain) .empty (restored "a.md" ++
        [.flush (moment 2 3) true])).bank ("docs", "a.md") ≠ some (.text "A") := by
    decide +kernel
  refine ⟨?_, fun h => hbank.2 ?_, hbank.1, by decide +kernel⟩
  · simp only [restored, writeAt, forall_mem_cons]
    exact ⟨⟨_, prepareWrite_A, rfl, rfl⟩, ⟨_, prepareWrite_B, rfl, rfl⟩,
      ⟨_, prepareWrite_A, rfl, rfl⟩, by simp⟩
  · have hlast : lastWrite .plain (restored "a.md") = some (plainWrite "A") :=
      lastWrite_write [writeAt "a.md" 0 "A", writeAt "a.md" 1 "B"] _ prepareWrite_A
    exact h (restored "a.md") [] (plainWrite "A") (by simp) hlast

end ContextLattice
