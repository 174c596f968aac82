import ContextLattice.Write.Carried

/-!
# What the write path hands on

The strings that leave the write path come from a request only through its **prepared** form. Ids,
time stamps and settings are not counted as texts.
-/

namespace ContextLattice

open Foundation List

/-! ### The texts of a record -/

def RawEvent.texts (e : RawEvent) : List String :=
  [e.project, e.file, e.contentRaw, e.summary, e.topicPath] ++ e.topicTags

def LettaContext.texts (c : LettaContext) : List String :=
  [c.project, c.file, c.topicPath] ++ c.summary.toList ++ c.contentHash.toList ++
    c.content.toList ++ c.rollupFile.toList

def Content.texts : Content → List String
  | .text s => [s]
  | .rollup r => [r.project, r.sourceFile, r.sourceContentSha256, r.topicPath, r.summary] ++
    r.topicTags

def BankPayload.texts (p : BankPayload) : List String :=
  [p.projectName, p.fileName] ++ p.content.toList.flatMap Content.texts

def FanoutEvent.texts (e : FanoutEvent FanoutRest) : List String :=
  [e.project, e.file, e.summary, e.topicPath] ++ e.topicTags ++ e.rest.payload.texts ++
    e.rest.lettaContext.toList.flatMap LettaContext.texts ++
    e.rest.rawEvent.toList.flatMap RawEvent.texts

def BankItem.texts (item : BankItem) : List String := (fanoutEventOf "" item).texts

variable (cfg : WriteConfig) (lib : WriteLib)

def PreparedWrite.texts (w : PreparedWrite) : List String :=
  [w.project, w.file, w.content, w.contentHash, w.summary, w.topicPath] ++ w.topicTags ++
    truncate 400 w.summary :: (buildHotMemoryRollupFile cfg lib w.file).toOption.toList

def RollupEntry.texts (entry : RollupEntry) : List String :=
  [entry.project, entry.file, entry.topicPath, entry.summary, entry.lastHash] ++
    entry.topicTags ++ entry.lettaContext.toList.flatMap LettaContext.texts ++
    truncate 400 entry.summary :: (buildHotMemoryRollupFile cfg lib entry.file).toOption.toList

variable (env : WriteEnv)

def handed (s : WriteState) : WriteOp → List String
  | .rawStored rid _ _ _ => (s.requests.get? rid).toList.flatMap (·.rawEvent.texts)
  | .seeded rid _ gate =>
    (s.requests.get? rid).toList.flatMap fun p => (seedEvent env p gate).texts
  | .store worker => (s.held.get? worker).toList.flatMap (·.item.payload.texts)
  | .publish worker _ drawn _ =>
    (s.held.get? worker).toList.flatMap fun job => (fanoutEventOf drawn job.item).texts
  | .receive .. | .finish .. | .flush .. | .take .. | .fail .. | .fanout .. => []

variable {env} {T : String → Prop} {s : WriteState}

/-! ### What is built from a prepared write -/

theorem texts_lettaContextOf {w : PreparedWrite} (h : ∀ t ∈ w.texts env.cfg env.lib, T t) :
    ∀ t ∈ (lettaContextOf env w).toList.flatMap LettaContext.texts, T t := by
  intro t ht
  refine h t ?_
  unfold lettaContextOf at ht
  split at ht
  · simp at ht
  · simp only [Option.toList_some, flatMap_cons, flatMap_nil, LettaContext.texts,
      PreparedWrite.texts, mem_append, mem_cons, not_mem_nil, or_false,
      Option.toList_none] at ht ⊢
    split at ht <;> simp only [Option.toList_some, Option.toList_none, mem_cons,
      not_mem_nil, or_false] at ht <;> tauto

theorem forall_texts_event {e : FanoutEvent FanoutRest} :
    (∀ t ∈ e.texts, T t) ↔ (T e.project ∧ T e.file ∧ T e.summary ∧ T e.topicPath) ∧
      (∀ t ∈ e.topicTags, T t) ∧ (∀ t ∈ e.rest.payload.texts, T t) ∧
      (∀ t ∈ e.rest.lettaContext.toList.flatMap LettaContext.texts, T t) ∧
      ∀ t ∈ e.rest.rawEvent.toList.flatMap RawEvent.texts, T t := by
  simp only [FanoutEvent.texts, forall_mem_append, forall_mem_cons, not_mem_nil,
    false_imp_iff, implies_true, and_true]
  tauto

section

variable {p : PendingWrite} (h : ∀ t ∈ p.write.texts env.cfg env.lib, T t)
  (hraw : ∀ t ∈ p.rawEvent.texts, T t)

include h hraw

theorem texts_writeItem (rid : ℕ) (mongo : Option String) (gate : LettaGate) :
    ∀ t ∈ (writeItem env rid p mongo gate).texts, T t := by
  rw [BankItem.texts, forall_texts_event]
  refine ⟨⟨?_, ?_, ?_, ?_⟩, fun t ht => ?_, ?_, texts_lettaContextOf h, ?_⟩
  iterate 4 exact h _ (by simp [PreparedWrite.texts, writeItem, fanoutEventOf])
  · exact h t (by simp [PreparedWrite.texts, show t ∈ p.write.topicTags from ht])
  · simp only [fanoutEventOf, BankItem.payload, writeItem, BankPayload.texts, Option.toList_some,
      flatMap_cons, flatMap_nil, Content.texts, forall_mem_append,
      forall_mem_cons]
    exact ⟨⟨h _ (by simp [PreparedWrite.texts]), h _ (by simp [PreparedWrite.texts]), by simp⟩,
      ⟨h _ (by simp [PreparedWrite.texts]), by simp⟩, by simp⟩
  · simpa [fanoutEventOf, writeItem] using hraw

theorem texts_seedEvent (gate : LettaGate) : ∀ t ∈ (seedEvent env p gate).texts, T t := by
  rw [forall_texts_event]
  refine ⟨⟨?_, ?_, ?_, ?_⟩, fun t ht => ?_, ?_, ?_, ?_⟩
  iterate 4 exact h _ (by simp [PreparedWrite.texts, seedEvent])
  · exact h t (by simp [PreparedWrite.texts, show t ∈ p.write.topicTags from ht])
  · simp only [seedEvent, BankPayload.texts, Option.toList_none, flatMap_nil, append_nil,
      forall_mem_cons]
    exact ⟨h _ (by simp [PreparedWrite.texts]), h _ (by simp [PreparedWrite.texts]), by simp⟩
  · simp only [seedEvent]
    split
    · simp
    · exact texts_lettaContextOf h
  · simpa [seedEvent] using hraw

end

/-! ### The rollup buffer -/

theorem texts_rollupItem {clk : Clock} {drawn : String} {entry : RollupEntry} {item : BankItem}
    (h : ∀ t ∈ entry.texts env.cfg env.lib, T t)
    (hitem : rollupItem env.cfg env.lib clk drawn entry = .ok item) : ∀ t ∈ item.texts, T t := by
  unfold rollupItem at hitem
  cases hfile : buildHotMemoryRollupFile env.cfg env.lib entry.file with
  | error err => simp [hfile, bind, Except.bind] at hitem
  | ok file =>
    simp only [hfile, bind, Except.bind] at hitem
    obtain rfl := Except.ok.inj hitem
    simp only [RollupEntry.texts, hfile, Except.toOption, forall_mem_append, forall_mem_cons] at h
    obtain ⟨⟨⟨⟨hproject, hfile', htopic, hsummary, hhash, -⟩, htags⟩, hcontext⟩, hshort,
      hrollup⟩ := h
    have hname : T file := by simpa using hrollup
    rw [BankItem.texts, forall_texts_event]
    refine ⟨⟨hproject, hfile', hshort, htopic⟩, htags, ?_, ?_, by simp [fanoutEventOf]⟩
    · simp only [fanoutEventOf, BankItem.payload, buildHotMemoryRollupContent, BankPayload.texts,
        Option.toList_some, flatMap_cons, flatMap_nil, Content.texts,
        forall_mem_append, forall_mem_cons]
      simp_all
    · -- the context of the last write, with the names of the entry
      rcases hlast : entry.lettaContext with _ | context
      · simp [fanoutEventOf, LettaContext.texts, hproject, hfile', htopic, hname]
      · simp only [hlast, Option.toList_some, flatMap_cons, flatMap_nil,
          LettaContext.texts, forall_mem_append, forall_mem_cons] at hcontext
        simp only [fanoutEventOf, Option.getD_some, Option.toList_some, flatMap_cons,
          flatMap_nil, LettaContext.texts, forall_mem_append, forall_mem_cons]
        simp_all

variable (env T) in
def carriedTexts : Carried env where
  write w := ∀ t ∈ w.texts env.cfg env.lib, T t
  raw e := ∀ t ∈ e.texts, T t
  entry e := ∀ t ∈ e.texts env.cfg env.lib, T t
  item i := ∀ t ∈ i.texts, T t
  raw_build clk requestId eventId hwrite t ht := by
    refine hwrite t ?_
    simp only [buildRawMemoryEvent, RawEvent.texts, PreparedWrite.texts, mem_append,
      mem_cons, not_mem_nil, or_false] at ht ⊢
    tauto
  item_write rid mongo gate hwrite hraw := texts_writeItem hwrite hraw rid mongo gate
  entry_new clk _ hwrite := by
    have hcontext := texts_lettaContextOf hwrite
    simp only [RollupEntry.texts, newRollupEntry, PreparedWrite.texts, forall_mem_append,
      forall_mem_cons] at hwrite ⊢
    tauto
  entry_record clk _ hwrite hentry := by
    have hcontext := texts_lettaContextOf hwrite
    simp only [RollupEntry.texts, RollupEntry.record, PreparedWrite.texts, forall_mem_append,
      forall_mem_cons] at hwrite hentry ⊢
    tauto
  entry_flushed _ hentry := hentry
  entry_restored _ hentry := hentry
  item_rollup _ _ hentry hitem := texts_rollupItem hentry hitem
  item_numbered _ hitem := hitem

theorem forall_mem_handed (hs : (carriedTexts env T).Everywhere s) (op : WriteOp) :
    ∀ t ∈ handed env s op, T t := by
  intro t ht
  cases op with
  | rawStored rid clk mongo gate =>
    simp only [handed, mem_flatMap, Option.mem_toList] at ht
    obtain ⟨p, hp, ht⟩ := ht
    exact (hs.requests rid p hp).2 t ht
  | seeded rid clk gate =>
    simp only [handed, mem_flatMap, Option.mem_toList] at ht
    obtain ⟨p, hp, ht⟩ := ht
    obtain ⟨hwrite, hraw⟩ := hs.requests rid p hp
    exact texts_seedEvent hwrite hraw gate t ht
  | store worker =>
    simp only [handed, mem_flatMap, Option.mem_toList] at ht
    obtain ⟨job, hjob, ht⟩ := ht
    exact (forall_texts_event.mp (hs.held worker job hjob)).2.2.1 t ht
  | publish worker clk drawn gate =>
    simp only [handed, mem_flatMap, Option.mem_toList] at ht
    obtain ⟨job, hjob, ht⟩ := ht
    exact hs.held worker job hjob t ht
  | receive | finish | flush | take | fail | fanout => cases ht

/-- **Provenance.** In every run, each string a step hands to a sink is a text of the prepared form
of a request that came in before. -/
theorem handed_from_prepared {ops : List WriteOp} {op : WriteOp} {t : String}
    (ht : t ∈ handed env (run (writeStep env) .empty ops) op) :
    ∃ rid clk now requestId drawn req w, .receive rid clk now requestId drawn req ∈ ops ∧
      prepareWrite env.cfg env.lib req = .ok w ∧ t ∈ w.texts env.cfg env.lib := by
  let T (t : String) : Prop :=
    ∃ rid clk now requestId drawn req w, .receive rid clk now requestId drawn req ∈ ops ∧
      prepareWrite env.cfg env.lib req = .ok w ∧ t ∈ w.texts env.cfg env.lib
  have hops : ∀ op ∈ ops, (carriedTexts env T).BringsIn op := by
    intro op hop
    cases op with
    | receive rid clk now requestId drawn req =>
      exact fun w hw t ht => ⟨rid, clk, now, requestId, drawn, req, w, hop, hw, ht⟩
    | rawStored | seeded | finish | flush | take | store | publish | fail | fanout => trivial
  exact forall_mem_handed (Carried.everywhere_of_run hops) op t ht

end ContextLattice
