import Mathlib.Data.Bool.AllAny
import ContextLattice.Retrieval.Sources
import ContextLattice.Write.Accepted

/-!
# The engine's memory identifiers

A reader of a `memory_id` expects `<project>::<file>` or `<project>/<file>`. The route that puts a
memory returns the id of the **event** of the write: hexadecimal digits without a separator.
-/

namespace ContextLattice.Engine

open Foundation List

/-! ### Identifiers -/

def notInForm : HttpError :=
  ⟨422, "memory_id must be in '<project>::<file>' or '<project>/<file>' form"⟩

def engineSplitMemoryId (memoryId : String) : Except HttpError (String × String) :=
  let token := strip memoryId
  if token = "" then .error ⟨422, "memory_id is required"⟩
  else
    match (splitOnce "::".toList token.toList).or (splitOnce "/".toList token.toList) with
    | none => .error notInForm
    | some (project, fileName) =>
      let project := strip (String.ofList project)
      let fileName := strip (String.ofList fileName)
      if project = "" ∨ fileName = "" then
        .error ⟨422, "memory_id must include both project and file"⟩
      else .ok (project, fileName)

/-! ### Putting -/

structure EngineItem where
  project : Option String
  fileName : Option String
  file : Option String := none
  content : Option String
  topicPath : Option String := none

def strippedText (s : Option String) : Option String :=
  (s.map strip).filter fun t => decide (t ≠ "")

/-- `engine_memory_put`, up to its call of `write_memory`. An empty `file_name` falls back to
`file`. -/
def engineWrite (item : EngineItem) : Except HttpError MemoryWrite :=
  match strippedText item.project, strippedText ((item.fileName.filter (· ≠ "")).or item.file) with
  | some project, some fileName =>
    .ok
      { projectName := project
        fileName := fileName
        content := item.content.getD ""
        topicPath := strippedText item.topicPath }
  | _, _ => .error ⟨422, "project and file_name are required"⟩

def memoryIdOf (w : MemoryWrite) (response : WriteResponse) : String :=
  if response.eventId = "" then w.projectName ++ "::" ++ w.fileName else response.eventId

def PutReturns (env : WriteEnv) (ops : List WriteOp) (item : EngineItem) (memoryId : String) :
    Prop :=
  ∃ rid w response clk now requestId drawn, engineWrite item = .ok w ∧
    .receive rid clk now requestId drawn w ∈ ops ∧
    (rid, .ok response) ∈ (run (writeStep env) .empty ops).answers ∧
    memoryId = memoryIdOf w response

/-- In the run, `engine_memory_batch_put` of the items returns the id among others: it strips the
ids of its puts and leaves out empty ones. -/
def BatchPutReturns (env : WriteEnv) (ops : List WriteOp) (items : List EngineItem)
    (memoryId : String) : Prop :=
  ∃ item ∈ items, ∃ id, PutReturns env ops item id ∧ memoryId = strip id ∧ memoryId ≠ ""

/-! ### Getting, updating, searching -/

structure EngineStore where
  retrieval : RetrievalEnv
  stores : Stores := {}
  remote : String → String → Except ReadFault String
  cache : ReadCache := .empty
  now : ℚ := 0

def EngineStore.read (st : EngineStore) (project fileName : String) : Except HttpError String :=
  (readProjectFile st.retrieval (st.remote project fileName) true none project fileName st.now
    st.cache).1.map FileText.content

structure EngineMemory where
  id : String
  project : String
  fileName : String
  content : String

def engineMemoryGet (st : EngineStore) (memoryId : String) :
    Except HttpError (Option EngineMemory) := do
  let names ← engineSplitMemoryId memoryId
  let content ← st.read names.1 names.2
  return if content = "" then none else some ⟨memoryId, names.1, names.2, content⟩

def engineMemoryUpdate (st : EngineStore) (memoryId : String)
    (merge : String → Except HttpError String) (topicPath : Option String) :
    Except HttpError MemoryWrite := do
  let names ← engineSplitMemoryId (strip memoryId)
  let prior ← st.read names.1 names.2
  let content ← merge prior
  return ⟨names.1, names.2, content, strippedText topicPath⟩

def engineMemoryNeighbors (st : EngineStore) (memoryId : String) (limit : ℤ)
    (topicPath : Option String) : Except HttpError (List Hit) :=
  let memoryId := strip memoryId
  if memoryId = "" then .error ⟨422, "memory_id is required"⟩
  else do
    let names ← engineSplitMemoryId memoryId
    searchTopicRollups st.retrieval st.stores
      { query := names.1 ++ " " ++ names.2
        limit := (max 1 (min limit 100)).toNat
        projectFilter := some names.1
        topicFilter := strippedText topicPath
        now := st.now }

/-! ### Joined names -/

-- a colon at the end of the project goes to the file
example : engineSplitMemoryId ("a:" ++ "::" ++ "b") = .ok ("a", ":b") := by decide +kernel

/-! ### Event ids -/

def HexId (s : String) : Prop := s ≠ "" ∧ ∀ c ∈ s.toList, c ∈ "0123456789abcdef".toList

instance (s : String) : Decidable (HexId s) :=
  decidable_of_iff
    (s ≠ "" ∧ (s.toList.all fun c => decide (c ∈ "0123456789abcdef".toList)) = true)
    (and_congr_right fun _ => all_iff_forall_prop)

theorem HexId.strip_eq {s : String} (h : HexId s) : strip s = s := by
  refine strip_of_not_isSpace fun c hc => ?_
  have hdigits : ∀ c ∈ "0123456789abcdef".toList, isSpace c = false :=
    all_iff_forall_prop.mp (by decide)
  exact hdigits c (h.2 c hc)

theorem HexId.not_split {s : String} (h : HexId s) : engineSplitMemoryId s = .error notInForm := by
  have hcolon : ':' ∉ s.toList := fun hc => absurd (h.2 _ hc) (by decide)
  have hslash : '/' ∉ s.toList := fun hc => absurd (h.2 _ hc) (by decide)
  rw [engineSplitMemoryId]
  rw [h.strip_eq, if_neg h.1, splitOnce_eq_none (by decide) hcolon,
    splitOnce_eq_none (by decide) hslash]
  rfl

theorem HexId.truncate {s : String} (h : HexId s) {n : ℕ} (hn : n ≠ 0) :
    HexId (Foundation.truncate n s) := by
  constructor
  · intro hempty
    have htake : s.toList.take n = [] := by
      have hlist := congrArg String.toList hempty
      rwa [Foundation.truncate, String.toList_ofList] at hlist
    exact h.1 (String.toList_eq_nil_iff.mp ((take_eq_nil_iff.mp htake).resolve_left hn))
  · intro c hc
    rw [Foundation.truncate, String.toList_ofList] at hc
    exact h.2 c (mem_of_mem_take hc)

def HexDigests (lib : WriteLib) : Prop := ∀ s, HexId (lib.sha256 s)

def DrawsHex : WriteOp → Prop
  | .receive _ _ _ _ drawn _ => HexId drawn
  | _ => True

structure HexAnswers (s : WriteState) : Prop where
  request : ∀ rid p, s.requests.get? rid = some p → HexId p.response.eventId
  answer : ∀ rid r, (rid, .ok r) ∈ s.answers → HexId r.eventId

variable {env : WriteEnv} {s s' : WriteState} {rid : ℕ} {p : PendingWrite}

theorem HexAnswers.empty : HexAnswers .empty where
  request := fun _ _ h => by cases h
  answer := fun _ _ h => (not_mem_nil h).elim

theorem HexAnswers.goesOn (hs : HexAnswers s) (h : GoesOn s rid p s')
    (hp : HexId p.response.eventId) : HexAnswers s' where
  request := by
    intro rid' p' hp'
    rcases h.get?_or hp' with ⟨-, rfl⟩ | hp'
    · exact hp
    · exact hs.request rid' p' hp'
  answer := by
    rw [h.answers]
    exact hs.answer

theorem HexAnswers.answered {a : Except HttpError WriteResponse} (hs : HexAnswers s)
    (h : Answered s rid a s') (ha : ∀ r, a = .ok r → HexId r.eventId) : HexAnswers s' where
  request := fun rid' p' hp' => hs.request rid' p' (h.get?_of_get? hp')
  answer := by
    intro rid' r hr
    rcases h.mem_or hr with hr | ⟨-, hr⟩
    · exact hs.answer rid' r hr
    · exact ha r hr.symm

theorem HexAnswers.step (hsha : HexDigests env.lib) (hs : HexAnswers s) {op : WriteOp}
    (hop : DrawsHex op) : HexAnswers (writeStep env s op) := by
  cases handlerChange env s op with
  | same hrequests hanswers =>
    exact ⟨by rw [hrequests]; exact hs.request, by rw [hanswers]; exact hs.answer⟩
  | rejected _ h | failed _ h => exact hs.answered h nofun
  | duplicate w h =>
    have hid : HexId (duplicateResponse env w).eventId := (hsha _).truncate (by decide)
    exact hs.answered h fun r hr => Except.ok.inj hr ▸ hid
  | received h _ _ _ hstage =>
    -- both answers name the event by the id that was drawn
    refine hs.goesOn h ?_
    rcases hstage with ⟨-, hresponse⟩ | ⟨-, hresponse⟩ <;> rw [hresponse] <;> exact hop
  | admitted h hp _ hresumes | moved h hp hresumes =>
    refine hs.goesOn h ?_
    rw [hresumes.response.1]
    exact hs.request _ _ hp
  | completed h hp _ hkind =>
    refine hs.answered h fun r hr => ?_
    rw [← Except.ok.inj hr, hkind.1]
    exact hs.request _ _ hp

theorem HexAnswers.run (hsha : HexDigests env.lib) {ops : List WriteOp}
    (hops : ∀ op ∈ ops, DrawsHex op) (hs : HexAnswers s) :
    HexAnswers (Foundation.run (writeStep env) s ops) :=
  run_invariant_of_mem (fun _ op hop hs => hs.step hsha (hops op hop)) hs

theorem hexId_of_putReturns {env : WriteEnv} (hsha : HexDigests env.lib) {ops : List WriteOp}
    (hops : ∀ op ∈ ops, DrawsHex op) {item : EngineItem} {memoryId : String}
    (h : PutReturns env ops item memoryId) : HexId memoryId := by
  obtain ⟨rid, w, response, clk, now, requestId, drawn, -, -, hanswer, rfl⟩ := h
  have hid := (HexAnswers.empty.run hsha hops).answer rid response hanswer
  rwa [memoryIdOf, if_neg hid.1]

structure Refused (memoryId : String) : Prop where
  split : engineSplitMemoryId memoryId = .error notInForm
  get : ∀ st, engineMemoryGet st memoryId = .error notInForm
  update : ∀ st merge topicPath,
    engineMemoryUpdate st memoryId merge topicPath = .error notInForm
  neighbors : ∀ st limit topicPath,
    engineMemoryNeighbors st memoryId limit topicPath = .error notInForm

theorem HexId.refused {s : String} (h : HexId s) : Refused s where
  split := h.not_split
  get := fun st => by
    rw [engineMemoryGet, h.not_split]
    rfl
  update := fun st merge topicPath => by
    rw [engineMemoryUpdate, h.strip_eq, h.not_split]
    rfl
  neighbors := fun st limit topicPath => by
    rw [engineMemoryNeighbors, h.strip_eq, if_neg h.1, h.not_split]
    rfl

/-- **No id that is returned is accepted** by the routes that get, update and search by an id. -/
theorem put_id_refused (env : WriteEnv) (hsha : HexDigests env.lib) (ops : List WriteOp)
    (hops : ∀ op ∈ ops, DrawsHex op) (memoryId : String)
    (h : (∃ item, PutReturns env ops item memoryId) ∨
      ∃ items, BatchPutReturns env ops items memoryId) : Refused memoryId := by
  rcases h with ⟨item, hput⟩ | ⟨items, item, -, id, hput, rfl, -⟩
  · exact (hexId_of_putReturns hsha hops hput).refused
  · have hid := hexId_of_putReturns hsha hops hput
    rw [hid.strip_eq]
    exact hid.refused

def digestEnv : WriteEnv :=
  { WriteEnv.plain with lib := { WriteLib.plain with sha256 := fun _ => "0" } }

def noteItem : EngineItem where
  project := some "docs"
  fileName := some "a.md"
  content := some "first draft"

def noteId : String := "6f1c2a3b4d5e4f708192a3b4c5d6e7f8"

def notePut : List WriteOp := requestOps 1 0 noteId "a.md" "first draft" ++ workerOps 0

theorem putReturns_note : PutReturns digestEnv notePut noteItem noteId := by
  refine ⟨1, ⟨"docs", "a.md", "first draft", none⟩, queuedResponse noteId,
    .noon, 0, none, noteId, rfl, mem_cons_self, ?_, ?_⟩
  · decide +kernel
  · decide +kernel

theorem put_id_refused_note :
    PutReturns digestEnv notePut noteItem noteId ∧ Refused noteId := by
  have hdraws : ∀ op ∈ notePut, DrawsHex op := by
    simp only [notePut, requestOps, workerOps, cons_append, nil_append,
      forall_mem_cons, DrawsHex, true_and]
    exact ⟨by decide +kernel, fun _ h => (not_mem_nil h).elim⟩
  exact ⟨putReturns_note, put_id_refused digestEnv (fun _ => (by decide +kernel : HexId "0"))
    notePut hdraws noteId (.inl ⟨noteItem, putReturns_note⟩)⟩

/-- The memory bank has the note, and nobody gets it by the id that was returned. -/
theorem stored_and_refused :
    PutReturns digestEnv notePut noteItem noteId ∧
      Dict.get? (run (writeStep digestEnv) .empty notePut).bank ("docs", "a.md") =
        some (.text "first draft") ∧
      ∀ st, engineMemoryGet st noteId = .error notInForm :=
  ⟨putReturns_note, by decide +kernel, (by decide +kernel : HexId noteId).refused.get⟩

end ContextLattice.Engine
