import ContextLattice.Retrieval.Sources

/-!
# Fail-open reads, interleaved

The memory bank looks at a file at one moment (`fetch`) and its answer arrives at a later one
(`deliver`). A file is served **honestly** if the cache has what the last successful read returned,
not older than what a caller got, and the last word on the file was not that it is missing or empty.
-/

namespace ContextLattice

open Foundation

/-! ### Calls -/

/-- A read of a caller, or one that a fail-open answer has scheduled in the background. -/
inductive ReadPurpose where
  | read (allowMissing bootstrapMissing : Bool)
  | refresh (key : String)

/-- A call of the memory bank: `found` is the version it has looked at, if any, and `stub` what is
being written for a missing file. -/
structure ReadCall where
  project : String
  file : String
  purpose : ReadPurpose
  found : Option (ℕ × Option String) := none
  stub : Option String := none

def ReadCall.name (call : ReadCall) : String × String := (call.project, call.file)

/-- How the wait for a call ends; an answer may say that the file is not found. -/
inductive CallEnd where
  | answered (detail : String)
  | timedOut
  | raised (e : HttpError)

/-! ### The state -/

/-- The cache and its refreshes, the calls under way, and the files of the memory bank with their
versions. The last four fields are about the past: the version each key was cached with, the last
successful read of a file, the newest version a caller got, and if it was missing or empty last. -/
structure ReadState where
  clock : ℚ
  cache : ReadCache
  refreshing : Dict String ℚ
  calls : Dict ℕ ReadCall
  next : ℕ
  files : Dict (String × String) (ℕ × Option String)
  answers : List (ℕ × Except HttpError FileText)
  versions : Dict String ℕ
  lastRead : Dict (String × String) (ℕ × String)
  returned : Dict (String × String) ℕ
  gone : Dict (String × String) Bool

namespace ReadState

def empty : ReadState :=
  ⟨0, .empty, .empty, .empty, 0, .empty, [], .empty, .empty, .empty, .empty⟩

def newest (s : ReadState) (name : String × String) : ℕ := (s.returned.get? name).getD 0

def advance (s : ReadState) (now : ℚ) : ReadState := { s with clock := max s.clock now }

def noteText (s : ReadState) (name : String × String) (v : ℕ) (content : String) : ReadState :=
  { s with
    lastRead := s.lastRead.set name (v, content)
    gone := s.gone.set name (decide (content = "")) }

def noteMissing (s : ReadState) (name : String × String) : ReadState :=
  { s with gone := s.gone.set name true }

def noteReturned (s : ReadState) (name : String × String) (v : ℕ) : ReadState :=
  { s with returned := s.returned.set name (max (s.newest name) v) }

def endCall (s : ReadState) (id : ℕ) : ReadState := { s with calls := s.calls.erase id }

def endRefresh (s : ReadState) (id : ℕ) (key : String) : ReadState :=
  { s.endCall id with refreshing := s.refreshing.erase key }

def answerCall (s : ReadState) (id : ℕ) (a : Except HttpError FileText) : ReadState :=
  { s.endCall id with answers := s.answers ++ [(id, a)] }

end ReadState

inductive ReadOp where
  | change (project file : String) (content : Option String)
  | start (project file : String) (allowMissing bootstrapMissing : Bool)
  | fetch (id : ℕ)
  /-- The wait for the memory bank ends; `stub` is what would be written for a missing file. -/
  | deliver (id : ℕ) (now : ℚ) (ending : CallEnd) (stub : Option String)
  | bootstrapped (id : ℕ) (now : ℚ)

section

variable (env : RetrievalEnv) (maxInflight : ℕ)

/-- `_memory_read_cache_set`, which also notes the version. -/
def storeText (s : ReadState) (text : FileText) (version : Option ℕ) :
    Except HttpError ReadState := do
  let cache ← memoryReadCacheSet env text s.clock s.cache
  .ok { s with
        cache := cache
        versions := match memoryReadCacheKey env text.project text.file, version with
          | .ok key, some v => s.versions.set key v
          | .ok key, none => s.versions.erase key
          | .error _, _ => s.versions }

def scheduleMemoryReadCacheRefresh (s : ReadState) (project file key : String) : ReadState :=
  if (s.refreshing.get? key).isSome ∨ maxInflight ≤ s.refreshing.size then s
  else
    { s with
      refreshing := s.refreshing.set key s.clock
      calls := s.calls.set s.next ⟨project, file, .refresh key, none, none⟩
      next := s.next + 1 }

/-- The text that a read which fails is answered with, from the cache. -/
def fallback (s : ReadState) (project file : String) (fault : ReadFault) : Option FileText :=
  if failsOpen env fault then
    match memoryReadCacheGet env project file true s.clock s.cache with
    | .ok (some (text, _), _) => some text
    | _ => none
  else none

/-- A read whose call fails: it is answered from the cache, or a stub is written, or it goes on as
`read_project_file` does without one. -/
def failRead (s : ReadState) (id : ℕ) (call : ReadCall) (allowMissing bootstrapMissing : Bool)
    (fault : ReadFault) (stub : Option String) : ReadState :=
  let out := readProjectFile env (.error fault) allowMissing none call.project call.file s.clock
    s.cache
  let s' := { s with cache := out.2 }
  let key := memoryReadCacheKey env call.project call.file
  match fallback env s call.project call.file fault, key with
  | some _, .ok key =>
    let s' := match s.versions.get? key with
      | some v => s'.noteReturned call.name v
      | none => s'
    (scheduleMemoryReadCacheRefresh maxInflight s' call.project call.file key).answerCall id out.1
  | _, _ =>
    match fault, given stub with
    | .http e, some text =>
      if bootstrapMissing && isMemoryNotFoundHttpError env e then
        { s' with calls := s.calls.set id { call with stub := some text } }
      else s'.answerCall id out.1
    | _, _ => s'.answerCall id out.1

def failCall (s : ReadState) (id : ℕ) (call : ReadCall) (fault : ReadFault)
    (stub : Option String) : ReadState :=
  match call.purpose with
  | .read allowMissing bootstrapMissing =>
    failRead env maxInflight s id call allowMissing bootstrapMissing fault stub
  | .refresh key => s.endRefresh id key

/-- A text arrives: a read returns it, and unless it is empty it is cached. -/
def deliverText (s : ReadState) (id : ℕ) (call : ReadCall) (v : ℕ) (content : String) :
    ReadState :=
  let text : FileText := ⟨call.project, call.file, content⟩
  match call.purpose with
  | .read _ _ =>
    if content = "" then (s.noteReturned call.name v).answerCall id (.ok text)
    else
      match storeText env s text (some v) with
      | .ok s' => (s'.noteReturned call.name v).answerCall id (.ok text)
      | .error e => s.answerCall id (.error e)
  | .refresh key =>
    if content = "" then s.endRefresh id key
    else
      match storeText env s text (some v) with
      | .ok s' => s'.endRefresh id key
      | .error _ => s.endRefresh id key

/-- What the caller sees; the tool's own error for a missing file comes as status 500. -/
def ReadCall.outcome (call : ReadCall) : CallEnd → Option (Except ReadFault (ℕ × String))
  | .answered detail =>
    call.found.map fun
      | (v, some content) => .ok (v, content)
      | (_, none) => .error (.http ⟨500, "memory_bank_read failed: " ++ detail⟩)
  | .timedOut => some (.error .timeout)
  | .raised e => some (.error (.http e))

def ReadCall.reportsMissing (call : ReadCall) : CallEnd → Bool
  | .answered _ => call.found.any fun found => found.2.isNone
  | .timedOut => false
  | .raised e => isMemoryNotFoundHttpError env e

def deliverCall (s : ReadState) (id : ℕ) (call : ReadCall) (ending : CallEnd)
    (stub : Option String) : ReadState :=
  match call.outcome ending with
  | none => s
  | some (.ok (v, content)) =>
    deliverText env (s.noteText call.name v content) id call v content
  | some (.error fault) =>
    let noted := if call.reportsMissing env ending then s.noteMissing call.name else s
    failCall env maxInflight noted id call fault stub

def finishStub (s : ReadState) (id : ℕ) (call : ReadCall) (stub : String) : ReadState :=
  match storeText env s ⟨call.project, call.file, stub⟩ none with
  | .ok s' => s'.answerCall id (.ok ⟨call.project, call.file, stub⟩)
  | .error e => s.answerCall id (.error e)

def readStep (s : ReadState) : ReadOp → ReadState
  | .change project file content =>
    let v := ((s.files.get? (project, file)).map Prod.fst).getD 0
    { s with files := s.files.set (project, file) (v + 1, content) }
  | .start project file allowMissing bootstrapMissing =>
    { s with
      calls := s.calls.set s.next
        ⟨project, file, .read allowMissing bootstrapMissing, none, none⟩
      next := s.next + 1 }
  | .fetch id =>
    match s.calls.get? id with
    | some call =>
      let found := (s.files.get? call.name).getD (0, none)
      { s with calls := s.calls.set id { call with found := some found } }
    | none => s
  | .deliver id now ending stub =>
    match s.calls.get? id with
    | some call =>
      if call.stub.isSome then s
      else deliverCall env maxInflight (s.advance now) id call ending stub
    | none => s
  | .bootstrapped id now =>
    match s.calls.get? id with
    | some call =>
      match call.stub with
      | some stub => finishStub env (s.advance now) id call stub
      | none => s
    | none => s

end

/-! ### Honest reads -/

section

variable (env : RetrievalEnv) (project file : String)

/-- A read that failed now would be answered from the cache. -/
def Live (s : ReadState) : Prop := ∃ text, Serves env s.cache project file s.clock text

/-- The text is what the last successful read of this file returned, not older than what a caller
got, and the file was not missing or empty since. -/
def IsLastRead (s : ReadState) (text : FileText) : Prop :=
  text.project = project ∧ text.file = file ∧
    ∃ key v, memoryReadCacheKey env project file = .ok key ∧
      s.versions.get? key = some v ∧
      s.lastRead.get? (project, file) = some (v, text.content) ∧
      s.newest (project, file) ≤ v ∧ s.gone.get? (project, file) ≠ some true

def Honest (s : ReadState) : Prop :=
  ∀ text, Serves env s.cache project file s.clock text → IsLastRead env project file s text

/-- The step ends a read of the file with an error, and the read is answered with the text. -/
def AnswersFromCache (s : ReadState) (text : FileText) : ReadOp → Prop
  | .deliver id now ending _ =>
    ∃ call allowMissing bootstrapMissing fault, s.calls.get? id = some call ∧
      call.stub = none ∧ call.name = (project, file) ∧
      call.purpose = .read allowMissing bootstrapMissing ∧
      call.outcome ending = some (.error fault) ∧
      fallback env (s.advance now) project file fault = some text
  | .change .. | .start .. | .fetch .. | .bootstrapped .. => False

/-- The two files are cached under one key. -/
def SharesKey (a b : String × String) : Prop :=
  ∃ key, memoryReadCacheKey env a.1 a.2 = .ok key ∧ memoryReadCacheKey env b.1 b.2 = .ok key

/-- A text that is cached now is there for a read that fails now. -/
def Cacheable (now : ℚ) : Prop :=
  env.search.readFailOpenEnabled = true ∧ env.search.readCacheMaxKeys ≠ 0 ∧ 0 < now ∧
    (0 ≤ env.search.readCacheFreshTtlSecs ∨ 0 ≤ env.search.readCacheStaleMaxSecs)

/-- A text under the key of the file is its own and not older than what a caller got, or is not
served; and where the file is found missing or empty, nothing is served for it. -/
def DeliversHonestly (s : ReadState) (call : ReadCall) (ending : CallEnd) : Prop :=
  match call.outcome ending with
  | none => True
  | some (.ok (v, content)) =>
    if content = "" then call.name = (project, file) → ¬ Live env project file s
    else SharesKey env call.name (project, file) → Cacheable env s.clock →
      call.name = (project, file) ∧ s.newest (project, file) ≤ v
  | some (.error _) =>
    call.reportsMissing env ending = true → call.name = (project, file) → ¬ Live env project file s

/-- The condition on a step, in the state it finds: texts of reads arrive honestly, and no stub can
be cached under the key of the file. -/
def KeepsHonest (s : ReadState) : ReadOp → Prop
  | .deliver id now ending _ =>
    ∀ call, s.calls.get? id = some call → call.stub = none →
      DeliversHonestly env project file (s.advance now) call ending
  | .bootstrapped id now =>
    ∀ call, s.calls.get? id = some call → ∀ stub, call.stub = some stub →
      SharesKey env call.name (project, file) →
        if stub = "" then ¬ Live env project file (s.advance now)
        else ¬ Cacheable env (s.advance now).clock
  | .change .. | .start .. | .fetch .. => True

end

section

variable {env : RetrievalEnv} {project file : String} {maxInflight : ℕ} {s s' : ReadState}

/-! ### The cache -/

variable {entry : CachedRead} {now : ℚ} {text : FileText} {cache : ReadCache} {fault : ReadFault}
  {version : Option ℕ}

theorem CachedRead.usable_of_le {now' : ℚ} (hle : now ≤ now')
    (h : entry.usable env true now' = true) : entry.usable env true now = true := by
  have hage : max 0 (now - entry.fetchedMonotonic) ≤ max 0 (now' - entry.fetchedMonotonic) :=
    max_le_max_left 0 (sub_le_sub_right hle _)
  simp only [CachedRead.usable, CachedRead.fresh, Bool.and_eq_true, Bool.or_eq_true,
    decide_eq_true_eq, Bool.true_and] at h ⊢
  exact ⟨h.1, h.2.imp hage.trans hage.trans⟩

theorem snd_readMissing (e : HttpError) (allowMissing : Bool) (cache : ReadCache) :
    (readMissing env e allowMissing none project file now cache).2 = cache := by
  rw [readMissing]
  split <;> rfl

theorem get?_readProjectFile_error {allowMissing : Bool} {key : String}
    (h : Dict.get? (readProjectFile env (.error fault) allowMissing none project file now cache).2
      key = some entry) : cache.get? key = some entry := by
  have hstale : ∀ (otherwise : ReadCache → Except HttpError FileText × ReadCache),
      (∀ cache', (otherwise cache').2 = cache') →
      Dict.get? (serveStale env project file now cache otherwise).2 key = some entry →
      cache.get? key = some entry := by
    intro otherwise hotherwise hget
    rw [serveStale] at hget
    split at hget
    · exact hget
    · rename_i hlookup
      exact (memoryReadCacheGet_ok hlookup).1 key entry hget
    · rename_i hlookup
      rw [hotherwise] at hget
      exact (memoryReadCacheGet_ok hlookup).1 key entry hget
  cases fault with
  | timeout =>
    rw [readProjectFile] at h
    split at h
    · exact hstale _ (fun _ => rfl) h
    · exact h
  | http e =>
    rw [readProjectFile] at h
    split at h
    · exact hstale _ (snd_readMissing e allowMissing) h
    · rwa [snd_readMissing] at h

theorem serves_readProjectFile_error (fault : ReadFault) (allowMissing : Bool)
    (h : Serves env cache project file now text) : Serves env
      (readProjectFile env (.error fault) allowMissing none project file now cache).2 project file
      now text := by
  by_cases hopen : failsOpen env fault = true
  · obtain ⟨cache', hread, hserves⟩ := readProjectFile_of_serves hopen h allowMissing none
    rwa [hread]
  · cases fault <;> rw [failsOpen] at hopen <;> rw [readProjectFile, if_neg hopen]
    · exact h
    · rwa [snd_readMissing]

structure TextStored (env : RetrievalEnv) (s : ReadState) (text : FileText) (version : Option ℕ)
    (s' : ReadState) : Prop where
  clock : s'.clock = s.clock
  lastRead : s'.lastRead = s.lastRead
  returned : s'.returned = s.returned
  gone : s'.gone = s.gone
  own : ∀ key, memoryReadCacheKey env text.project text.file = .ok key → text.content ≠ "" →
    env.search.readCacheMaxKeys ≠ 0 → s'.cache.get? key = some ⟨text, s.clock⟩
  empty : text.content = "" → s'.cache = s.cache
  version : ∀ key, memoryReadCacheKey env text.project text.file = .ok key →
    s'.versions.get? key = version
  cache : ∀ key, memoryReadCacheKey env text.project text.file ≠ .ok key → ∀ entry,
    s'.cache.get? key = some entry → s.cache.get? key = some entry
  versions : ∀ key, memoryReadCacheKey env text.project text.file ≠ .ok key →
    s'.versions.get? key = s.versions.get? key

theorem storeText_spec
    (h : storeText env s text version = .ok s') : TextStored env s text version s' := by
  obtain ⟨cache, hcache, h⟩ := bind_eq_ok h
  obtain rfl := Except.ok.inj h
  refine ⟨rfl, rfl, rfl, rfl, fun key hkey hne hkeys => ?_, fun hempty => ?_, fun key hkey => ?_,
    fun key hkey entry hget => ?_, fun key hkey => ?_⟩
  · rw [memoryReadCacheSet, if_neg (not_or.mpr ⟨hkeys, hne⟩), hkey] at hcache
    rw [← Except.ok.inj hcache]
    exact Dict.get?_evict_moveToEnd hkeys (Dict.get?_set ..)
  · rw [memoryReadCacheSet, if_pos (.inr hempty)] at hcache
    exact (Except.ok.inj hcache).symm
  · rw [hkey]
    cases version with
    | none => exact Dict.get?_erase ..
    | some v => exact Dict.get?_set ..
  · rcases get?_memoryReadCacheSet hcache hget with hold | ⟨hown, -⟩
    · exact hold
    · exact absurd hown hkey
  · cases hown : memoryReadCacheKey env text.project text.file with
    | error e => rfl
    | ok own =>
      have hne : key ≠ own := fun heq => hkey (heq ▸ hown)
      cases version with
      | none => exact Dict.get?_erase_of_ne hne
      | some v => exact Dict.get?_set_of_ne hne v

theorem storeText_error {e : HttpError}
    (h : storeText env s text version = .error e) (key : String) :
    memoryReadCacheKey env text.project text.file ≠ .ok key := by
  intro hkey
  have hset : ∃ cache, memoryReadCacheSet env text s.clock s.cache = .ok cache := by
    rw [memoryReadCacheSet]
    split
    · exact ⟨_, rfl⟩
    · rw [hkey]
      exact ⟨_, rfl⟩
  obtain ⟨cache, hcache⟩ := hset
  unfold storeText at h
  rw [hcache] at h
  cases h

@[simp] theorem schedule_frame (s : ReadState) (project file key : String) :
    (scheduleMemoryReadCacheRefresh maxInflight s project file key).cache = s.cache ∧
      (scheduleMemoryReadCacheRefresh maxInflight s project file key).clock = s.clock ∧
      (scheduleMemoryReadCacheRefresh maxInflight s project file key).answers = s.answers := by
  rw [scheduleMemoryReadCacheRefresh]
  split <;> exact ⟨rfl, rfl, rfl⟩

/-! ### Steps that do not matter to a file -/

/-- Nothing new is cached for the file, and no caller got more of it than the version that is
cached. -/
structure Quiet (env : RetrievalEnv) (project file : String) (s s' : ReadState) : Prop where
  clock : s.clock ≤ s'.clock
  cache : ∀ key, memoryReadCacheKey env project file = .ok key → ∀ entry,
    s'.cache.get? key = some entry → s.cache.get? key = some entry
  versions : ∀ key, memoryReadCacheKey env project file = .ok key →
    s'.versions.get? key = s.versions.get? key
  lastRead : s'.lastRead.get? (project, file) = s.lastRead.get? (project, file)
  gone : s'.gone.get? (project, file) = s.gone.get? (project, file)
  newest : ∀ key v, memoryReadCacheKey env project file = .ok key →
    s.versions.get? key = some v → s'.newest (project, file) ≤ max (s.newest (project, file)) v

namespace Quiet

theorem trans {s'' : ReadState} (h : Quiet env project file s s')
    (h' : Quiet env project file s' s'') : Quiet env project file s s'' where
  clock := h.clock.trans h'.clock
  cache key hkey entry hget := h.cache key hkey entry (h'.cache key hkey entry hget)
  versions key hkey := (h'.versions key hkey).trans (h.versions key hkey)
  lastRead := h'.lastRead.trans h.lastRead
  gone := h'.gone.trans h.gone
  newest key v hkey hv := by
    have hfirst := h.newest key v hkey hv
    have hsecond := h'.newest key v hkey (by rw [h.versions key hkey, hv])
    omega

theorem of_eq (hclock : s.clock ≤ s'.clock) (hcache : s'.cache = s.cache)
    (hversions : s'.versions = s.versions)
    (hlast : s'.lastRead.get? (project, file) = s.lastRead.get? (project, file))
    (hgone : s'.gone.get? (project, file) = s.gone.get? (project, file))
    (hnewest : s'.newest (project, file) = s.newest (project, file)) :
    Quiet env project file s s' where
  clock := hclock
  cache _ _ _ hget := by rwa [hcache] at hget
  versions _ _ := by rw [hversions]
  lastRead := hlast
  gone := hgone
  newest _ _ _ _ := hnewest.le.trans (le_max_left _ _)

theorem advance (s : ReadState) (now : ℚ) : Quiet env project file s (s.advance now) :=
  of_eq (le_max_left _ _) rfl rfl rfl rfl rfl

theorem serves (h : Quiet env project file s s')
    (hs : Serves env s'.cache project file s'.clock text) :
    Serves env s.cache project file s.clock text := by
  obtain ⟨hopen, hkeys, key, entry, hkey, hentry, husable, htext⟩ := hs
  exact ⟨hopen, hkeys, key, entry, hkey, h.cache key hkey entry hentry,
    CachedRead.usable_of_le h.clock husable, htext⟩

theorem honest (h : Quiet env project file s s') (hs : Honest env project file s) :
    Honest env project file s' := by
  intro text hserves
  obtain ⟨hproject, hfile, key, v, hkey, hv, hlast, hnewest, hgone⟩ := hs text (h.serves hserves)
  refine ⟨hproject, hfile, key, v, hkey, ?_, ?_, ?_, ?_⟩
  · rw [h.versions key hkey, hv]
  · rw [h.lastRead, hlast]
  · exact (h.newest key v hkey hv).trans (max_le hnewest le_rfl)
  · rwa [h.gone]

end Quiet

theorem newest_noteReturned (s : ReadState) (name : String × String) (v : ℕ) :
    (s.noteReturned name v).newest name = max (s.newest name) v := by
  rw [ReadState.noteReturned, ReadState.newest]
  simp

theorem newest_noteReturned_of_ne (s : ReadState) {name other : String × String} (h : other ≠ name)
    (v : ℕ) : (s.noteReturned name v).newest other = s.newest other := by
  simp only [ReadState.noteReturned, ReadState.newest]
  rw [Dict.get?_set_of_ne h]

namespace Quiet

theorem schedule (s : ReadState) (project' file' key : String) :
    Quiet env project file s (scheduleMemoryReadCacheRefresh maxInflight s project' file' key) := by
  rw [scheduleMemoryReadCacheRefresh]
  split <;> exact of_eq le_rfl rfl rfl rfl rfl rfl

theorem answerCall (s : ReadState) (id : ℕ) (a : Except HttpError FileText) :
    Quiet env project file s (s.answerCall id a) :=
  of_eq le_rfl rfl rfl rfl rfl rfl

theorem endRefresh (s : ReadState) (id : ℕ) (key : String) :
    Quiet env project file s (s.endRefresh id key) :=
  of_eq le_rfl rfl rfl rfl rfl rfl

variable {name : String × String}

theorem noteReturned {key : String} {v : ℕ}
    (hkey : memoryReadCacheKey env name.1 name.2 = .ok key) (hv : s.versions.get? key = some v) :
    Quiet env project file s (s.noteReturned name v) where
  clock := le_rfl
  cache _ _ _ hget := hget
  versions _ _ := rfl
  lastRead := rfl
  gone := rfl
  newest key' v' hkey' hv' := by
    by_cases hname : (project, file) = name
    · subst hname
      obtain rfl := Except.ok.inj (hkey.symm.trans hkey')
      obtain rfl := Option.some.inj (hv.symm.trans hv')
      rw [newest_noteReturned]
    · rw [newest_noteReturned_of_ne s hname]
      exact le_max_left _ _

theorem noteMissing (hname : name ≠ (project, file)) :
    Quiet env project file s (s.noteMissing name) :=
  of_eq le_rfl rfl rfl rfl (Dict.get?_set_of_ne hname.symm true) rfl

theorem noteText (hname : name ≠ (project, file)) (v : ℕ) (content : String) :
    Quiet env project file s (s.noteText name v content) :=
  of_eq le_rfl rfl rfl (Dict.get?_set_of_ne hname.symm _) (Dict.get?_set_of_ne hname.symm _) rfl

theorem stored {text : FileText} {version : Option ℕ} (h : TextStored env s text version s')
    (hkey : ¬ SharesKey env (text.project, text.file) (project, file)) :
    Quiet env project file s s' where
  clock := h.clock.ge
  cache key hown := h.cache key fun hkey' => hkey ⟨key, hkey', hown⟩
  versions key hown := h.versions key fun hkey' => hkey ⟨key, hkey', hown⟩
  lastRead := by rw [h.lastRead]
  gone := by rw [h.gone]
  newest _ v _ _ := by
    rw [ReadState.newest, h.returned]
    exact le_max_left _ _

theorem failRead (s : ReadState) (id : ℕ) (call : ReadCall) (allowMissing bootstrapMissing : Bool)
    (fault : ReadFault) (stub : Option String) :
    Quiet env project file s
      (failRead env maxInflight s id call allowMissing bootstrapMissing fault stub) := by
  have hlooked : Quiet env project file s { s with
      cache := (readProjectFile env (.error fault) allowMissing none call.project call.file s.clock
        s.cache).2 } := by
    refine ⟨le_rfl, fun key _ entry hget => ?_, fun _ _ => rfl, rfl, rfl,
      fun _ _ _ _ => le_max_left _ _⟩
    exact get?_readProjectFile_error hget
  unfold ContextLattice.failRead
  dsimp only
  split
  · rename_i hkey
    refine Quiet.trans ?_ ((schedule ..).trans (answerCall ..))
    split
    · rename_i v hv
      exact hlooked.trans (noteReturned hkey hv)
    · exact hlooked
  · split
    · split
      · exact hlooked.trans (of_eq le_rfl rfl rfl rfl rfl rfl)
      · exact hlooked.trans (answerCall ..)
    · exact hlooked.trans (answerCall ..)

theorem failCall (s : ReadState) (id : ℕ) (call : ReadCall) (fault : ReadFault)
    (stub : Option String) :
    Quiet env project file s (failCall env maxInflight s id call fault stub) := by
  rw [ContextLattice.failCall]
  split
  · exact failRead ..
  · exact endRefresh ..

end Quiet

theorem live_failCall_iff {call : ReadCall} (hname : call.name = (project, file)) (id : ℕ)
    (stub : Option String) : Live env project file (failCall env maxInflight s id call fault stub) ↔
      Live env project file s := by
  refine ⟨fun ⟨text, h⟩ => ⟨text, (Quiet.failCall ..).serves h⟩, fun ⟨text, h⟩ => ⟨text, ?_⟩⟩
  obtain ⟨rfl, rfl⟩ := Prod.mk.inj hname
  rw [failCall]
  split
  · rename_i allowMissing bootstrapMissing _
    have hcache := serves_readProjectFile_error fault allowMissing h
    unfold failRead
    dsimp only
    split
    · split <;> simpa [ReadState.answerCall, ReadState.endCall, ReadState.noteReturned] using hcache
    · split
      · split <;> exact hcache
      · exact hcache
  · exact h

/-! ### Steps that do matter -/

theorem honest_iff_of_gone (h : s.gone.get? (project, file) = some true) :
    Honest env project file s ↔ ¬ Live env project file s := by
  refine ⟨fun hs => ?_, fun hs text hserves => absurd ⟨text, hserves⟩ hs⟩
  rintro ⟨text, hserves⟩
  obtain ⟨-, -, key, v, -, -, -, -, hgone⟩ := hs text hserves
  exact hgone h

structure Finished (name : String × String) (v : ℕ) (s s' : ReadState) : Prop where
  clock : s'.clock = s.clock
  cache : s'.cache = s.cache
  versions : s'.versions = s.versions
  lastRead : s'.lastRead = s.lastRead
  gone : s'.gone = s.gone
  least : s.newest name ≤ s'.newest name
  most : s'.newest name ≤ max (s.newest name) v
  other : ∀ other, other ≠ name → s'.newest other = s.newest other

theorem finished_answerCall (s : ReadState) (name : String × String) (v id : ℕ)
    (a : Except HttpError FileText) : Finished name v s (s.answerCall id a) :=
  ⟨rfl, rfl, rfl, rfl, rfl, le_rfl, le_max_left _ _, fun _ _ => rfl⟩

theorem finished_endRefresh (s : ReadState) (name : String × String) (v id : ℕ) (key : String) :
    Finished name v s (s.endRefresh id key) :=
  ⟨rfl, rfl, rfl, rfl, rfl, le_rfl, le_max_left _ _, fun _ _ => rfl⟩

theorem finished_noteReturned (s : ReadState) (name : String × String) (v id : ℕ)
    (a : Except HttpError FileText) :
    Finished name v s ((s.noteReturned name v).answerCall id a) := by
  have hnewest := newest_noteReturned s name v
  refine ⟨rfl, rfl, rfl, rfl, rfl, ?_, hnewest.le, fun other hne => ?_⟩
  · exact (le_max_left _ _).trans hnewest.ge
  · exact newest_noteReturned_of_ne s hne v

variable {v : ℕ}

theorem Finished.quiet {name : String × String} (h : Finished name v s s')
    (hname : name ≠ (project, file)) : Quiet env project file s s' :=
  .of_eq h.clock.ge h.cache h.versions (by rw [h.lastRead]) (by rw [h.gone]) (h.other _ hname.symm)

theorem deliverText_cases (s : ReadState) (id : ℕ) (call : ReadCall) (v : ℕ) (content : String) :
    (content ≠ "" ∧ ∃ s', TextStored env s ⟨call.project, call.file, content⟩ (some v) s' ∧
      Finished call.name v s' (deliverText env s id call v content)) ∨
    (content = "" ∨ ∀ key, memoryReadCacheKey env call.project call.file ≠ .ok key) ∧
      Finished call.name v s (deliverText env s id call v content) := by
  rw [deliverText]
  split
  · split
    · exact Or.inr ⟨Or.inl ‹_›, finished_noteReturned ..⟩
    · split
      · exact Or.inl ⟨‹_›, _, storeText_spec ‹_›, finished_noteReturned ..⟩
      · exact Or.inr ⟨Or.inr (storeText_error ‹_›), finished_answerCall ..⟩
  · split
    · exact Or.inr ⟨Or.inl ‹_›, finished_endRefresh ..⟩
    · split
      · exact Or.inl ⟨‹_›, _, storeText_spec ‹_›, finished_endRefresh ..⟩
      · exact Or.inr ⟨Or.inr (storeText_error ‹_›), finished_endRefresh ..⟩

theorem honest_of_not_sharesKey {name : String × String}
    (hkey : ¬ SharesKey env name (project, file))
    (h : name ≠ (project, file) → Honest env project file s) : Honest env project file s := by
  by_cases hname : name = (project, file)
  · rintro text ⟨-, -, key, -, hown, -⟩
    exact absurd ⟨key, by rwa [hname], hown⟩ hkey
  · exact h hname

variable {s'' : ReadState}

theorem live_iff_cacheable (h : TextStored env s text version s') (hclock : s''.clock = s.clock)
    (hcache : s''.cache = s'.cache) (hkey : SharesKey env (text.project, text.file) (project, file))
    (hne : text.content ≠ "") : Live env project file s'' ↔ Cacheable env s.clock := by
  have husable : (⟨text, s.clock⟩ : CachedRead).usable env true s.clock = true ↔ 0 < s.clock ∧
      (0 ≤ env.search.readCacheFreshTtlSecs ∨ 0 ≤ env.search.readCacheStaleMaxSecs) := by
    simp [CachedRead.usable, CachedRead.fresh]
  obtain ⟨key, hstored, hown⟩ := hkey
  rw [Cacheable, ← husable]
  constructor
  · rintro ⟨_, hopen, hkeys, key', entry, hkey', hentry, h', -⟩
    obtain rfl := Except.ok.inj (hown.symm.trans hkey')
    rw [hcache, h.own _ hstored hne hkeys] at hentry
    obtain rfl := Option.some.inj hentry
    exact ⟨hopen, hkeys, hclock ▸ h'⟩
  · rintro ⟨hopen, hkeys, h'⟩
    refine ⟨text, hopen, hkeys, key, ⟨text, s.clock⟩, hown, ?_, hclock ▸ h', rfl⟩
    rw [hcache, h.own _ hstored hne hkeys]

theorem honest_iff_of_foreign (h : TextStored env s text version s')
    (hcache : s''.cache = s'.cache) (hversions : s''.versions = s'.versions)
    (hkey : SharesKey env (text.project, text.file) (project, file))
    (hforeign : version = none ∨ text.content ≠ "" ∧ (text.project, text.file) ≠ (project, file)) :
    Honest env project file s'' ↔ ¬ Live env project file s'' := by
  refine ⟨fun hs => ?_, fun hs text' hserves => absurd ⟨text', hserves⟩ hs⟩
  rintro ⟨served, hserves⟩
  obtain ⟨hproject, hfile, key, v, hown, hv, -⟩ := hs served hserves
  obtain ⟨key', hstored, hown'⟩ := hkey
  obtain rfl := Except.ok.inj (hown'.symm.trans hown)
  rcases hforeign with rfl | ⟨hne, hname⟩
  · rw [hversions, h.version _ hstored] at hv
    cases hv
  · obtain ⟨-, hkeys, key'', entry, hentryKey, hentry, -, rfl⟩ := hserves
    obtain rfl := Except.ok.inj (hown'.symm.trans hentryKey)
    rw [hcache, h.own _ hstored hne hkeys] at hentry
    rw [← Option.some.inj hentry] at hproject hfile
    exact hname (Prod.ext hproject hfile)

theorem honest_iff_of_stored {content : String}
    (h : TextStored env s ⟨project, file, content⟩ (some v) s')
    (hfinished : Finished (project, file) v s' s'') (hne : content ≠ "")
    (hlast : s.lastRead.get? (project, file) = some (v, content))
    (hgone : s.gone.get? (project, file) ≠ some true) :
    Honest env project file s'' ↔
      (Live env project file s'' → s.newest (project, file) ≤ v) := by
  have hsame : s'.newest (project, file) = s.newest (project, file) := by
    rw [ReadState.newest, h.returned, ReadState.newest]
  refine ⟨fun hs => ?_, fun hs served hserves => ?_⟩
  · rintro ⟨served, hserves⟩
    obtain ⟨-, -, key, v', hkey, hv, -, hnewest, -⟩ := hs served hserves
    rw [hfinished.versions, h.version key hkey] at hv
    obtain rfl := Option.some.inj hv
    exact hsame ▸ hfinished.least.trans hnewest
  · have hle := hs ⟨served, hserves⟩
    obtain ⟨-, hkeys, key, entry, hkey, hentry, -, rfl⟩ := hserves
    rw [hfinished.cache, h.own key hkey hne hkeys] at hentry
    rw [← Option.some.inj hentry]
    refine ⟨rfl, rfl, key, v, hkey, ?_, ?_, ?_, ?_⟩
    · rw [hfinished.versions, h.version key hkey]
    · rw [hfinished.lastRead, h.lastRead, hlast]
    · exact hfinished.most.trans (max_le (hsame.le.trans hle) le_rfl)
    · rwa [hfinished.gone, h.gone]

/-! ### The steps -/

section

variable (hs : Honest env project file s) (id : ℕ) (call : ReadCall)

include hs

theorem honest_deliverText_iff (v : ℕ) (content : String)
    (hs' : s' = deliverText env (s.noteText call.name v content) id call v content) :
    Honest env project file s' ↔
      if content = "" then call.name = (project, file) → ¬ Live env project file s
      else SharesKey env call.name (project, file) → Cacheable env s.clock →
        call.name = (project, file) ∧ s.newest (project, file) ≤ v := by
  have hcases := @deliverText_cases env (s.noteText call.name v content) id call v content
  rw [← hs'] at hcases
  have hnoted (hname : call.name ≠ (project, file)) :
      Quiet env project file s (s.noteText call.name v content) := .noteText hname ..
  rcases hcases with ⟨hne, stored, hstored, hfinished⟩ | ⟨hnot, hfinished⟩
  · rw [if_neg hne]
    by_cases hkey : SharesKey env call.name (project, file)
    · have hlive : Live env project file s' ↔ Cacheable env s.clock :=
        live_iff_cacheable (s := s.noteText call.name v content) hstored
          (hfinished.clock.trans hstored.clock) hfinished.cache hkey hne
      rw [forall_prop_of_true hkey, ← hlive]
      by_cases hname : call.name = (project, file)
      · obtain ⟨rfl, rfl⟩ := Prod.mk.inj hname
        rw [honest_iff_of_stored (s := s.noteText call.name v content) hstored hfinished hne
          (Dict.get?_set ..) (by simp [ReadState.noteText, ReadCall.name, hne])]
        exact forall_congr' fun _ => (and_iff_right hname).symm
      · rw [honest_iff_of_foreign hstored hfinished.cache hfinished.versions hkey
          (Or.inr ⟨hne, hname⟩)]
        exact forall_congr' fun _ => iff_of_false not_false fun h => hname h.1
    · refine iff_of_true (honest_of_not_sharesKey hkey fun hname => ?_) fun h => absurd h hkey
      exact (((hnoted hname).trans (.stored hstored hkey)).trans (hfinished.quiet hname)).honest hs
  · have hkept (hname : call.name ≠ (project, file)) : Honest env project file s' :=
      ((hnoted hname).trans (hfinished.quiet hname)).honest hs
    by_cases hempty : content = ""
    · rw [if_pos hempty]
      by_cases hname : call.name = (project, file)
      · rw [honest_iff_of_gone, forall_prop_of_true hname, Live, hfinished.cache, hfinished.clock]
        · rfl
        · rw [hfinished.gone, ← hname]
          simp [ReadState.noteText, hempty]
      · exact iff_of_true (hkept hname) fun h => absurd h hname
    · rw [if_neg hempty]
      have hkey : ¬ SharesKey env call.name (project, file) := by
        rintro ⟨key, hkey, -⟩
        exact absurd hkey (hnot.resolve_left hempty key)
      exact iff_of_true (honest_of_not_sharesKey hkey hkept) fun h => absurd h hkey

theorem honest_failCall_iff (missing : Bool) (fault : ReadFault) (stub : Option String)
    (hs' : s' = failCall env maxInflight (if missing then s.noteMissing call.name else s) id call
      fault stub) :
    Honest env project file s' ↔
      (missing = true → call.name = (project, file) → ¬ Live env project file s) := by
  have hquiet : Quiet env project file (if missing then s.noteMissing call.name else s) s' :=
    hs' ▸ .failCall ..
  cases missing with
  | false => exact iff_of_true (hquiet.honest hs) nofun
  | true =>
    by_cases hname : call.name = (project, file)
    · rw [honest_iff_of_gone, forall_prop_of_true rfl, forall_prop_of_true hname, hs',
        live_failCall_iff hname]
      · rfl
      · rw [hquiet.gone, ← hname]
        exact Dict.get?_set ..
    · refine iff_of_true ?_ fun _ h => absurd h hname
      exact ((Quiet.noteMissing hname).trans hquiet).honest hs

theorem honest_finishStub_iff (stub : String) (hs' : s' = finishStub env s id call stub) :
    Honest env project file s' ↔
      (SharesKey env call.name (project, file) →
        if stub = "" then ¬ Live env project file s else ¬ Cacheable env s.clock) := by
  rw [finishStub] at hs'
  split at hs'
  · rename_i stored hstore
    have hstored := storeText_spec hstore
    by_cases hkey : SharesKey env call.name (project, file)
    · rw [forall_prop_of_true hkey, hs']
      refine (honest_iff_of_foreign hstored rfl rfl hkey (Or.inl rfl)).trans ?_
      split
      · rw [Live, Live, ← hstored.empty ‹_›, ← hstored.clock]
      · rw [live_iff_cacheable hstored hstored.clock rfl hkey ‹_›]
    · refine iff_of_true ?_ fun h => absurd h hkey
      exact hs' ▸ ((Quiet.stored hstored hkey).trans (.answerCall ..)).honest hs
  · rename_i hstore
    refine iff_of_true (hs' ▸ (Quiet.answerCall ..).honest hs) ?_
    rintro ⟨key, hkey, -⟩
    exact absurd hkey (storeText_error hstore key)

end

theorem honest_readStep_iff (hs : Honest env project file s) (op : ReadOp) :
    Honest env project file (readStep env maxInflight s op) ↔
      KeepsHonest env project file s op := by
  cases op with
  | change | start =>
    exact iff_of_true ((Quiet.of_eq le_rfl rfl rfl rfl rfl rfl).honest hs) trivial
  | fetch id =>
    refine iff_of_true ?_ trivial
    rw [readStep]
    split
    · exact (Quiet.of_eq le_rfl rfl rfl rfl rfl rfl).honest hs
    · exact hs
  | deliver id now ending stub =>
    cases hcall : s.calls.get? id with
    | none => simpa [readStep, KeepsHonest, hcall] using hs
    | some call =>
      cases hstub : call.stub with
      | some stub' => simpa [readStep, KeepsHonest, hcall, hstub] using hs
      | none =>
        have hstep : readStep env maxInflight s (.deliver id now ending stub) =
            deliverCall env maxInflight (s.advance now) id call ending stub := by
          simp [readStep, hcall, hstub]
        simp only [KeepsHonest, hcall, Option.some.injEq, forall_eq', hstub, forall_const]
        have hnow : Honest env project file (s.advance now) := (Quiet.advance s now).honest hs
        rw [deliverCall] at hstep
        rw [DeliversHonestly]
        split at hstep
        · exact hstep ▸ iff_of_true hnow trivial
        · exact honest_deliverText_iff hnow id call _ _ hstep
        · exact honest_failCall_iff hnow id call _ _ _ hstep
  | bootstrapped id now =>
    cases hcall : s.calls.get? id with
    | none => simpa [readStep, KeepsHonest, hcall] using hs
    | some call =>
      cases hstub : call.stub with
      | none => simpa [readStep, KeepsHonest, hcall, hstub] using hs
      | some stub =>
        have hstep : readStep env maxInflight s (.bootstrapped id now) =
            finishStub env (s.advance now) id call stub := by
          simp [readStep, hcall, hstub]
        simp only [KeepsHonest, hcall, Option.some.injEq, forall_eq', hstub]
        exact honest_finishStub_iff ((Quiet.advance s now).honest hs) id call stub hstep

/-! ### Reads that are answered from the cache -/

theorem serves_of_fallback (h : fallback env s project file fault = some text) :
    failsOpen env fault = true ∧ Serves env s.cache project file s.clock text := by
  rw [fallback] at h
  split at h
  · rename_i hopen
    have henabled : env.search.readFailOpenEnabled = true := by
      cases fault with
      | timeout => exact hopen
      | http e => exact (Bool.and_eq_true_iff.mp hopen).1
    split at h
    · rename_i hget
      obtain rfl := Option.some.inj h
      obtain ⟨hkeys, key, entry, hkey, hentry, -, husable, rfl⟩ :=
        (memoryReadCacheGet_ok hget).2 _ _ rfl
      exact ⟨hopen, henabled, hkeys, key, entry, hkey, hentry, husable, rfl⟩
    · cases h
  · cases h

theorem failRead_of_fallback {call : ReadCall}
    (h : fallback env s call.project call.file fault = some text) (id : ℕ)
    (allowMissing bootstrapMissing : Bool) (stub : Option String)
    (hs' : s' = failRead env maxInflight s id call allowMissing bootstrapMissing fault stub) :
    s'.answers = s.answers ++ [(id, .ok text)] ∧
      Serves env s'.cache call.project call.file s'.clock text := by
  obtain ⟨hopen, hserves⟩ := serves_of_fallback h
  obtain ⟨cache, hread, hcache⟩ := readProjectFile_of_serves hopen hserves allowMissing none
  obtain ⟨-, -, key, -, hkey, -⟩ := hserves
  subst hs'
  unfold failRead
  rw [hread, h, hkey]
  dsimp only
  split <;> exact ⟨by simp [ReadState.answerCall, ReadState.endCall, ReadState.noteReturned],
    by simpa [ReadState.answerCall, ReadState.endCall, ReadState.noteReturned] using hcache⟩

theorem isLastRead_of_answersFromCache {op : ReadOp}
    (h : AnswersFromCache env project file s text op)
    (hs : Honest env project file (readStep env maxInflight s op)) :
    (∃ id, (readStep env maxInflight s op).answers = s.answers ++ [(id, .ok text)]) ∧
      IsLastRead env project file (readStep env maxInflight s op) text := by
  cases op with
  | deliver id now ending stub =>
    obtain ⟨call, allowMissing, bootstrapMissing, fault, hcall, hstub, hname, hpurpose, hfault,
      htext⟩ := h
    obtain ⟨rfl, rfl⟩ := Prod.mk.inj hname
    have hstep : readStep env maxInflight s (.deliver id now ending stub) =
        failRead env maxInflight
          (if call.reportsMissing env ending then (s.advance now).noteMissing call.name
            else s.advance now) id call allowMissing bootstrapMissing fault stub := by
      simp [readStep, hcall, hstub, deliverCall, hfault, failCall, hpurpose]
    generalize readStep env maxInflight s (.deliver id now ending stub) = s' at hs hstep ⊢
    have hanswer : s'.answers = s.answers ++ [(id, .ok text)] ∧
        Serves env s'.cache call.project call.file s'.clock text := by
      split at hstep
      · exact failRead_of_fallback (s := (s.advance now).noteMissing call.name) htext id _ _ stub
          hstep
      · exact failRead_of_fallback (s := s.advance now) htext id _ _ stub hstep
    exact ⟨⟨id, hanswer.1⟩, hs text hanswer.2⟩
  | change | start | fetch | bootstrapped => exact absurd h id

end

/-! ### Whole runs -/

theorem honest_empty (env : RetrievalEnv) (project file : String) :
    Honest env project file .empty := by
  rintro text ⟨-, -, key, entry, -, hentry, -⟩
  cases hentry

/-- **Fail-open reads** are answered with the last text of this very file, exactly if no step of the
run breaks it. -/
theorem failOpen_honest_iff (env : RetrievalEnv) (maxInflight : ℕ) (project file : String)
    (ops : List ReadOp) :
    ((∀ pre post, ops = pre ++ post →
        Honest env project file (run (readStep env maxInflight) .empty pre)) ↔
      Along (readStep env maxInflight) (KeepsHonest env project file) .empty ops) ∧
    (Along (readStep env maxInflight) (KeepsHonest env project file) .empty ops →
      ∀ pre op post text, ops = pre ++ op :: post →
        AnswersFromCache env project file (run (readStep env maxInflight) .empty pre) text op →
        (∃ id, (run (readStep env maxInflight) .empty (pre ++ [op])).answers =
          (run (readStep env maxInflight) .empty pre).answers ++ [(id, .ok text)]) ∧
        IsLastRead env project file (run (readStep env maxInflight) .empty (pre ++ [op]))
          text) := by
  have hiff : (∀ pre post, ops = pre ++ post →
      Honest env project file (run (readStep env maxInflight) .empty pre)) ↔
      Along (readStep env maxInflight) (KeepsHonest env project file) .empty ops :=
    forall_run_iff_along_of_step (P := Honest env project file)
      (fun s op hs => honest_readStep_iff hs op)
      (honest_empty env project file)
  refine ⟨hiff, fun hrun pre op post text hops hanswers => ?_⟩
  have hafter := hiff.mpr hrun (pre ++ [op]) post (by simpa using hops)
  rw [run_append, run_cons, run_nil] at hafter ⊢
  exact isLastRead_of_answersFromCache hanswers hafter

def deletedOps : List ReadOp :=
  [.change "a" "n.md" (some "old"), .start "a" "n.md" false false, .fetch 0,
    .deliver 0 1 (.answered "") none, .change "a" "n.md" none, .start "a" "n.md" false false,
    .fetch 1, .deliver 1 2 (.answered "File not found") none]

def overtakenOps : List ReadOp :=
  [.change "a" "n.md" (some "old"), .start "a" "n.md" false false, .fetch 0,
    .change "a" "n.md" (some "new"), .start "a" "n.md" false false, .fetch 1,
    .deliver 1 1 (.answered "") none, .deliver 0 2 (.answered "") none,
    .start "a" "n.md" false false, .deliver 2 3 .timedOut none]

/-- The read of the deleted note is answered with its text; so is the read that times out, with a
text older than the one a caller got. -/
theorem deleted_note_served :
    (run (readStep RetrievalEnv.plain 1) .empty deletedOps).answers =
        [(0, .ok ⟨"a", "n.md", "old"⟩), (1, .ok ⟨"a", "n.md", "old"⟩)] ∧
      Dict.get? (run (readStep RetrievalEnv.plain 1) .empty deletedOps).gone ("a", "n.md") =
        some true ∧
      (run (readStep RetrievalEnv.plain 1) .empty overtakenOps).answers =
        [(1, .ok ⟨"a", "n.md", "new"⟩), (0, .ok ⟨"a", "n.md", "old"⟩),
          (2, .ok ⟨"a", "n.md", "old"⟩)] := by
  decide +kernel

end ContextLattice
