import ContextLattice.Retrieval.Rows

/-!
# Reading a file back

`read_project_file` **fails open**: when the memory bank does not answer, a cached text is served if
it is not too old. In the model a cached text carries the file it was read for.
-/

namespace ContextLattice

open Foundation

/-! ### The cache -/

structure FileText where
  project : String
  file : String
  content : String
deriving DecidableEq

structure CachedRead where
  text : FileText
  fetchedMonotonic : ℚ

abbrev ReadCache := Dict String CachedRead

inductive ReadFault where
  | timeout
  | http (e : HttpError)

variable (env : RetrievalEnv)

def memoryReadCacheKey (project file : String) : Except HttpError String := do
  let normalized ← normalizeMemoryPath env.lib file
  .ok (env.lib.py.stripLower project ++ "::" ++ env.lib.py.stripLower normalized)

def CachedRead.fresh (entry : CachedRead) (now : ℚ) : Bool :=
  decide (max 0 (now - entry.fetchedMonotonic) ≤ env.search.readCacheFreshTtlSecs)

def CachedRead.usable (entry : CachedRead) (allowStale : Bool) (now : ℚ) : Bool :=
  decide (0 < entry.fetchedMonotonic) && (entry.fresh env now || (allowStale &&
    decide (max 0 (now - entry.fetchedMonotonic) ≤ env.search.readCacheStaleMaxSecs)))

def memoryReadCacheGet (project file : String) (allowStale : Bool) (now : ℚ) (cache : ReadCache) :
    Except HttpError (Option (FileText × Bool) × ReadCache) :=
  if env.search.readCacheMaxKeys = 0 then .ok (none, cache)
  else do
    let key ← memoryReadCacheKey env project file
    match cache.get? key with
    | none => .ok (none, cache)
    | some entry =>
      if entry.usable env allowStale now then
        .ok (some (entry.text, !entry.fresh env now), cache.moveToEnd key)
      else .ok (none, cache.erase key)

def memoryReadCacheSet (text : FileText) (now : ℚ) (cache : ReadCache) :
    Except HttpError ReadCache :=
  if env.search.readCacheMaxKeys = 0 ∨ text.content = "" then .ok cache
  else do
    let key ← memoryReadCacheKey env text.project text.file
    .ok (((cache.set key ⟨text, now⟩).moveToEnd key).evict env.search.readCacheMaxKeys)

/-! ### The read -/

def isTransientMemoryReadHttpError (e : HttpError) : Bool :=
  let detail := env.lib.py.lower e.detail
  decide (e.status ∈ [408, 429, 500, 502, 503, 504]) || isIn "timeout" detail ||
    isIn "temporarily unavailable" detail

def isMemoryNotFoundHttpError (e : HttpError) : Bool :=
  let detail := env.lib.py.lower e.detail
  ["notfounderror", "resource not found", "file not found", "no such file", "enoent"].any
    fun token => isIn token detail

def readMissing (e : HttpError) (allowMissing : Bool) (bootstrap : Option String)
    (project file : String) (now : ℚ) (cache : ReadCache) : Except HttpError FileText × ReadCache :=
  if isMemoryNotFoundHttpError env e then
    match given bootstrap with
    | some stub =>
      match memoryReadCacheSet env ⟨project, file, stub⟩ now cache with
      | .ok cache' => (.ok ⟨project, file, stub⟩, cache')
      | .error e' => (.error e', cache)
    | none => (if allowMissing then .ok ⟨project, file, ""⟩ else .error e, cache)
  else (.error e, cache)

def serveStale (project file : String) (now : ℚ) (cache : ReadCache)
    (otherwise : ReadCache → Except HttpError FileText × ReadCache) :
    Except HttpError FileText × ReadCache :=
  match memoryReadCacheGet env project file true now cache with
  | .error e => (.error e, cache)
  | .ok (some (text, _), cache') => (.ok text, cache')
  | .ok (none, cache') => otherwise cache'

def failsOpen : ReadFault → Bool
  | .timeout => env.search.readFailOpenEnabled
  | .http e => env.search.readFailOpenEnabled && isTransientMemoryReadHttpError env e

def readProjectFile (remote : Except ReadFault String) (allowMissing : Bool)
    (bootstrap : Option String) (project file : String) (now : ℚ) (cache : ReadCache) :
    Except HttpError FileText × ReadCache :=
  match remote with
  | .error .timeout =>
    let raised : Except HttpError FileText :=
      .error ⟨504, "memory_bank_read timeout for " ++ project ++ "/" ++ file⟩
    if env.search.readFailOpenEnabled then
      serveStale env project file now cache fun cache' => (raised, cache')
    else (raised, cache)
  | .error (.http e) =>
    if env.search.readFailOpenEnabled && isTransientMemoryReadHttpError env e then
      serveStale env project file now cache
        (readMissing env e allowMissing bootstrap project file now)
    else readMissing env e allowMissing bootstrap project file now cache
  | .ok content =>
    if content = "" then (.ok ⟨project, file, ""⟩, cache)
    else
      match memoryReadCacheSet env ⟨project, file, content⟩ now cache with
      | .ok cache' => (.ok ⟨project, file, content⟩, cache')
      | .error e => (.error e, cache)

/-! ### What a read returns -/

variable {env}

def Serves (env : RetrievalEnv) (cache : ReadCache) (project file : String) (now : ℚ)
    (text : FileText) : Prop :=
  env.search.readFailOpenEnabled = true ∧ env.search.readCacheMaxKeys ≠ 0 ∧
    ∃ key entry, memoryReadCacheKey env project file = .ok key ∧ cache.get? key = some entry ∧
      entry.usable env true now = true ∧ entry.text = text

variable {cache cache' : ReadCache} {file project : String} {now : ℚ}

theorem memoryReadCacheGet_ok {out : Option (FileText × Bool)}
    (h : memoryReadCacheGet env project file true now cache = .ok (out, cache')) :
    (∀ key entry, cache'.get? key = some entry → cache.get? key = some entry) ∧
      ∀ text stale, out = some (text, stale) → env.search.readCacheMaxKeys ≠ 0 ∧
        ∃ key entry, memoryReadCacheKey env project file = .ok key ∧
          cache.get? key = some entry ∧ cache'.get? key = some entry ∧
          entry.usable env true now = true ∧ entry.text = text := by
  rw [memoryReadCacheGet] at h
  split at h
  · obtain ⟨rfl, rfl⟩ := Prod.mk.inj (Except.ok.inj h)
    exact ⟨fun _ _ hget => hget, by simp⟩
  · rename_i hkeys
    cases hkey : memoryReadCacheKey env project file with
    | error e =>
      rw [hkey] at h
      cases h
    | ok key =>
      rw [hkey] at h
      dsimp only [bind, Except.bind] at h
      split at h
      · obtain ⟨rfl, rfl⟩ := Prod.mk.inj (Except.ok.inj h)
        exact ⟨fun _ _ hget => hget, by simp⟩
      · rename_i entry hentry
        split at h
        · rename_i husable
          obtain ⟨rfl, rfl⟩ := Prod.mk.inj (Except.ok.inj h)
          refine ⟨fun k e hget => by rwa [Dict.get?_moveToEnd] at hget, fun text stale hout => ?_⟩
          obtain ⟨rfl, -⟩ := Prod.mk.inj (Option.some.inj hout)
          exact ⟨hkeys, key, entry, rfl, hentry, by rwa [Dict.get?_moveToEnd], husable, rfl⟩
        · obtain ⟨rfl, rfl⟩ := Prod.mk.inj (Except.ok.inj h)
          exact ⟨fun k e hget => (Dict.get?_erase_eq_some.mp hget).2, by simp⟩

theorem get?_memoryReadCacheSet {text : FileText}
    (h : memoryReadCacheSet env text now cache = .ok cache') {key : String} {entry : CachedRead}
    (hget : cache'.get? key = some entry) :
    cache.get? key = some entry ∨
      memoryReadCacheKey env text.project text.file = .ok key ∧ entry = ⟨text, now⟩ := by
  rw [memoryReadCacheSet] at h
  split at h
  · rw [← Except.ok.inj h] at hget
    exact Or.inl hget
  · cases hkey : memoryReadCacheKey env text.project text.file with
    | error e => rw [hkey] at h; exact absurd h nofun
    | ok own =>
      rw [hkey] at h
      rw [← Except.ok.inj h] at hget
      have hset := Dict.get?_of_evict hget
      rw [Dict.get?_moveToEnd, Dict.get?_set_eq_some] at hset
      rcases hset with ⟨rfl, rfl⟩ | ⟨-, hold⟩
      · exact Or.inr ⟨rfl, rfl⟩
      · exact Or.inl hold

/-- A read returns a text of the file or one cached under its key, and the cache learns a text of
the file under that key only. -/
structure ReadSpec (env : RetrievalEnv) (project file : String) (now : ℚ) (cache : ReadCache)
    (out : Except HttpError FileText × ReadCache) : Prop where
  text : ∀ t, out.1 = .ok t →
    (t.project = project ∧ t.file = file) ∨ Serves env cache project file now t
  cache : ∀ key entry, out.2.get? key = some entry →
    cache.get? key = some entry ∨ memoryReadCacheKey env project file = .ok key ∧
      entry.text.project = project ∧ entry.text.file = file

theorem readSpec_set {content : String}
    (h : memoryReadCacheSet env ⟨project, file, content⟩ now cache = .ok cache') :
    ReadSpec env project file now cache (.ok ⟨project, file, content⟩, cache') where
  text t ht := by
    rw [← Except.ok.inj ht]
    exact Or.inl ⟨rfl, rfl⟩
  cache key entry hget := by
    rcases get?_memoryReadCacheSet h hget with hold | ⟨hkey, rfl⟩
    · exact Or.inl hold
    · exact Or.inr ⟨hkey, rfl, rfl⟩

theorem readSpec_same {out : Except HttpError FileText}
    (h : ∀ t, out = .ok t → t.project = project ∧ t.file = file) :
    ReadSpec env project file now cache (out, cache) where
  text t ht := Or.inl (h t ht)
  cache _ _ hget := Or.inl hget

theorem readSpec_missing (e : HttpError) (allowMissing : Bool) (bootstrap : Option String)
    (project file : String) (now : ℚ) (cache : ReadCache) :
    ReadSpec env project file now cache
      (readMissing env e allowMissing bootstrap project file now cache) := by
  rw [readMissing]
  split
  · split
    · split
      · rename_i hset
        exact readSpec_set hset
      · exact readSpec_same nofun
    · refine readSpec_same fun t ht => ?_
      split at ht
      · rw [← Except.ok.inj ht]
        exact ⟨rfl, rfl⟩
      · exact absurd ht nofun
  · exact readSpec_same nofun

theorem readSpec_serveStale (hopen : env.search.readFailOpenEnabled = true)
    {otherwise : ReadCache → Except HttpError FileText × ReadCache}
    (h : ∀ cache', ReadSpec env project file now cache' (otherwise cache')) :
    ReadSpec env project file now cache (serveStale env project file now cache otherwise) := by
  rw [serveStale]
  split
  · exact readSpec_same nofun
  · rename_i text stale cache' hget
    obtain ⟨hsub, hserved⟩ := memoryReadCacheGet_ok hget
    obtain ⟨hkeys, key, entry, hkey, hentry, -, husable, rfl⟩ := hserved _ _ rfl
    refine ⟨fun t ht => Or.inr ?_, fun k e he => Or.inl (hsub k e he)⟩
    rw [← Except.ok.inj ht]
    exact ⟨hopen, hkeys, key, entry, hkey, hentry, husable, rfl⟩
  · rename_i cache' hget
    have hsub := (memoryReadCacheGet_ok hget).1
    obtain ⟨htext, hcache⟩ := h cache'
    refine ⟨fun t ht => ?_, fun k e he => (hcache k e he).imp_left (hsub k e)⟩
    rcases htext t ht with hown | ⟨hopen', hkeys, key, entry, hkey, hentry, hrest⟩
    · exact Or.inl hown
    · exact Or.inr ⟨hopen', hkeys, key, entry, hkey, hsub _ _ hentry, hrest⟩

theorem readProjectFile_spec (remote : Except ReadFault String) (allowMissing : Bool)
    (bootstrap : Option String) (project file : String) (now : ℚ) (cache : ReadCache) :
    ReadSpec env project file now cache
      (readProjectFile env remote allowMissing bootstrap project file now cache) := by
  match remote with
  | .error .timeout =>
    rw [readProjectFile]
    split
    · rename_i hopen
      exact readSpec_serveStale hopen fun _ => readSpec_same nofun
    · exact readSpec_same nofun
  | .error (.http e) =>
    rw [readProjectFile]
    split
    · rename_i hopen
      rw [Bool.and_eq_true] at hopen
      exact readSpec_serveStale hopen.1 fun cache' => readSpec_missing ..
    · exact readSpec_missing ..
  | .ok content =>
    rw [readProjectFile]
    split
    · refine readSpec_same fun t ht => ?_
      rw [← Except.ok.inj ht]
      exact ⟨rfl, rfl⟩
    · split
      · rename_i hset
        exact readSpec_set hset
      · exact readSpec_same nofun

theorem readProjectFile_of_serves {fault : ReadFault} (hopen : failsOpen env fault = true)
    {text : FileText} (h : Serves env cache project file now text) (allowMissing : Bool)
    (bootstrap : Option String) :
    ∃ cache', readProjectFile env (.error fault) allowMissing bootstrap project file now cache =
      (.ok text, cache') ∧ Serves env cache' project file now text := by
  obtain ⟨henabled, hkeys, key, entry, hkey, hentry, husable, rfl⟩ := h
  have hget : memoryReadCacheGet env project file true now cache =
      .ok (some (entry.text, !entry.fresh env now), cache.moveToEnd key) := by
    rw [memoryReadCacheGet, if_neg hkeys, hkey]
    change (match cache.get? key with | none => _ | some entry => _) = _
    rw [hentry]
    exact if_pos husable
  refine ⟨cache.moveToEnd key, ?_, henabled, hkeys, key, entry, hkey,
    by rwa [Dict.get?_moveToEnd], husable, rfl⟩
  cases fault <;> rw [failsOpen] at hopen <;> rw [readProjectFile, if_pos hopen, serveStale, hget]

end ContextLattice
