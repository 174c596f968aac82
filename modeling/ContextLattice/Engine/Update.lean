import ContextLattice.Engine.Memory
import ContextLattice.Retrieval.FailOpen
import ContextLattice.Write.Destined

/-!
# Updates of the engine's memories

`engine_memory_update` reads the file of a memory, puts the members of the patch into the JSON
object it finds, and hands the new text to `write_memory`. `Orderly` says when an update of a file
is safe from the others.
-/

namespace ContextLattice.Engine

open Foundation List

/-! ### Merging -/

inductive Loaded (ν : Type*) where
  | object (members : Dict String ν)
  | other

structure JsonText (ν : Type*) where
  loads : String → Option (Loaded ν)
  dumps : Dict String ν → String
  ofText : String → ν
  shown : ν → Option String
  rollupText : RollupContent → String
  loads_empty : loads "" = none
  loads_dumps : ∀ members, ∃ members', loads (dumps members) = some (.object members') ∧
    ∀ k, members'.get? k = members.get? k

section

variable {ν : Type*} (json : JsonText ν)

def previousPayload (prior : String) : Option (Dict String ν) :=
  if prior = "" then some .empty
  else
    match json.loads prior with
    | none => some (Dict.set .empty "content" (json.ofText prior))
    | some (.object members) => some members
    | some .other => none

def mergedText (patch : Dict String ν) (prior : String) : Option String :=
  (previousPayload json prior).map fun previous => json.dumps (Dict.merge previous patch)

def field (text k : String) : Option ν :=
  match json.loads text with
  | some (.object members) => members.get? k
  | _ => none

def HasObject (prior : String) : Prop :=
  prior = "" ∨ json.loads prior = none ∨ ∃ members, json.loads prior = some (.object members)

theorem mergedText_eq_none_iff (patch : Dict String ν) (prior : String) :
    mergedText json patch prior = none ↔ ¬ HasObject json prior := by
  rw [mergedText, Option.map_eq_none_iff, previousPayload, HasObject]
  split
  · simp_all
  · split <;> simp_all

variable {json} {patch : Dict String ν} {prior content k : String} {v : ν}

theorem field_dumps (members : Dict String ν) (k : String) :
    field json (json.dumps members) k = members.get? k := by
  obtain ⟨members', hloads, hmembers⟩ := json.loads_dumps members
  rw [field, hloads]
  exact hmembers k

theorem field_mergedText_of_patch (h : mergedText json patch prior = some content)
    (hk : patch.get? k = some v) : field json content k = some v := by
  obtain ⟨previous, -, rfl⟩ := Option.map_eq_some_iff.mp h
  rw [field_dumps, Dict.get?_merge, hk, Option.some_or]

theorem field_mergedText_of_prior (h : mergedText json patch prior = some content)
    (hpatch : patch.get? k = none) (hk : field json prior k = some v) :
    field json content k = some v := by
  obtain ⟨previous, hprevious, rfl⟩ := Option.map_eq_some_iff.mp h
  rw [field_dumps, Dict.get?_merge, hpatch, Option.none_or]
  rw [field] at hk
  split at hk
  · rename_i members hloads
    have hne : prior ≠ "" := by
      rintro rfl
      cases json.loads_empty.symm.trans hloads
    rw [previousPayload, if_neg hne, hloads] at hprevious
    rwa [← Option.some.inj hprevious]
  · cases hk

end

/-! ### Updates under way -/

def attributeError : HttpError := ⟨500, "Internal Server Error"⟩

structure UpdateCall (ν : Type*) where
  memoryId : String
  name : String × String
  patch : Dict String ν
  found : Option (Option String)
  split : engineSplitMemoryId (strip memoryId) = .ok name

namespace UpdateCall

variable {ν : Type*} (call : UpdateCall ν)

def outcome : CallEnd → Option (Except ReadFault String)
  | .answered detail =>
    call.found.map fun
      | some content => .ok content
      | none => .error (.http ⟨500, "memory_bank_read failed: " ++ detail⟩)
  | .timedOut => some (.error .timeout)
  | .raised e => some (.error (.http e))

variable (ret : RetrievalEnv) (json : JsonText ν) (remote : Except ReadFault String)
  (cache : ReadCache) (now : ℚ)

def store : EngineStore where
  retrieval := ret
  remote _ _ := remote
  cache := cache
  now := now

def prior : Except HttpError String := (store ret remote cache now).read call.name.1 call.name.2

def request : Except HttpError MemoryWrite :=
  engineMemoryUpdate (store ret remote cache now) call.memoryId
    (fun prior => (mergedText json call.patch prior).elim (.error attributeError) .ok)
    ((call.patch.get? "topic_path").bind json.shown)

def raises : Bool :=
  match call.prior ret remote cache now with
  | .ok prior => (mergedText json call.patch prior).isNone
  | .error _ => false

variable {ret json remote cache now call}

theorem request_eq_ok {req : MemoryWrite} (h : call.request ret json remote cache now = .ok req) :
    ∃ prior, call.prior ret remote cache now = .ok prior ∧
      mergedText json call.patch prior = some req.content := by
  simp only [request, engineMemoryUpdate, call.split, bind, Except.bind] at h
  split at h
  · cases h
  · rename_i prior hprior
    refine ⟨prior, hprior, ?_⟩
    cases hmerged : mergedText json call.patch prior with
    | none => simp [hmerged] at h
    | some content =>
      simp only [hmerged, Option.elim_some, pure, Except.pure, Except.ok.injEq] at h
      rw [← h]

theorem raises_eq_true_iff : call.raises ret json remote cache now = true ↔
    ∃ prior, call.prior ret remote cache now = .ok prior ∧ ¬ HasObject json prior := by
  rw [raises]
  split
  · rename_i prior hprior
    simp [hprior, Option.isNone_iff_eq_none, mergedText_eq_none_iff]
  · rename_i e he
    simp [he]

end UpdateCall

/-! ### The state -/

structure AppliedPatch (ν : Type*) where
  uid : ℕ
  name : String × String
  patch : Dict String ν
deriving DecidableEq

structure UpdateState (ν : Type*) where
  write : WriteState
  cache : ReadCache
  calls : Dict ℕ (UpdateCall ν)
  begun : List ℕ
  applied : List (AppliedPatch ν)
  raised : List ℕ

inductive UpdateOp (ν : Type*) where
  | call (uid : ℕ) (memoryId : String) (patch : Dict String ν)
  | look (uid : ℕ)
  | deliver (uid : ℕ) (ending : CallEnd) (readAt : ℚ) (clk : Clock) (now : ℚ)
      (requestId : Option String) (drawn : String)
  | cached (cache : ReadCache)
  | path (op : WriteOp)

namespace UpdateState

variable {ν : Type*}

def start (files : Dict (String × String) Content) : UpdateState ν where
  write := { WriteState.empty with bank := files }
  cache := .empty
  calls := .empty
  begun := []
  applied := []
  raised := []

def patchesOf (s : UpdateState ν) (name : String × String) : List (AppliedPatch ν) :=
  s.applied.filter fun u => decide (u.name = name)

end UpdateState

def contentText {ν : Type*} (json : JsonText ν) : Content → String
  | .text s => s
  | .rollup r => json.rollupText r

def fileText {ν : Type*} (json : JsonText ν) (w : WriteState) (name : String × String) : String :=
  ((w.bank.get? name).map (contentText json)).getD ""

section

variable {ν : Type*} (env : WriteEnv) (ret : RetrievalEnv) (json : JsonText ν)

def callUpdate (s : UpdateState ν) (uid : ℕ) (memoryId : String) (patch : Dict String ν) :
    UpdateState ν :=
  if uid ∈ s.begun ∨ (s.write.requests.get? uid).isSome ∨
      (s.write.answers.any fun a => decide (a.1 = uid)) then s
  else
    match h : engineSplitMemoryId (strip memoryId) with
    | .error _ => { s with begun := s.begun ++ [uid] }
    | .ok name =>
      { s with
        begun := s.begun ++ [uid]
        calls := s.calls.set uid ⟨memoryId, name, patch, none, h⟩ }

def lookUpdate (s : UpdateState ν) (uid : ℕ) : UpdateState ν :=
  match s.calls.get? uid with
  | none => s
  | some call =>
    let found := (s.write.bank.get? call.name).map (contentText json)
    { s with calls := s.calls.set uid { call with found := some found } }

def deliverUpdate (s : UpdateState ν) (uid : ℕ) (ending : CallEnd) (readAt : ℚ) (clk : Clock)
    (now : ℚ) (requestId : Option String) (drawn : String) : UpdateState ν :=
  match s.calls.get? uid with
  | none => s
  | some call =>
    match call.outcome ending with
    | none => s
    | some remote =>
      let s' := { s with
        calls := s.calls.erase uid
        cache := (readProjectFile ret remote true none call.name.1 call.name.2 readAt s.cache).2
        raised := if call.raises ret json remote s.cache readAt then s.raised ++ [uid]
          else s.raised }
      match call.request ret json remote s.cache readAt with
      | .error _ => s'
      | .ok req =>
        { s' with
          write := receiveWrite env s.write uid clk now requestId drawn req
          applied := s.applied ++ [⟨uid, call.name, call.patch⟩] }

def updateStep (s : UpdateState ν) : UpdateOp ν → UpdateState ν
  | .call uid memoryId patch => callUpdate s uid memoryId patch
  | .look uid => lookUpdate json s uid
  | .deliver uid ending readAt clk now requestId drawn =>
    deliverUpdate env ret json s uid ending readAt clk now requestId drawn
  | .cached cache => { s with cache := cache }
  | .path op =>
    if op.request?.any fun rid => decide (rid ∈ s.begun) then s
    else { s with write := writeStep env s.write op }

/-! ### When patches add up -/

variable {env ret json}

/-- The text has the members of the patches that `A` holds of; where several patches have a member,
the last one of them all counts. -/
def Carried (json : JsonText ν) (A : ℕ → Prop) (patches : List (AppliedPatch ν)) (text : String) :
    Prop :=
  ∀ pre u post, patches = pre ++ u :: post → A u.uid → ∀ k v, u.patch.get? k = some v →
    (∀ u' ∈ post, u'.patch.get? k = none) → field json text k = some v

/-- Once nothing is on its way to the file, its text has the members of the updates that were
answered ok, the later ones winning. -/
def Composed (json : JsonText ν) (name : String × String) (s : UpdateState ν) : Prop :=
  (∀ c, ¬ Destined name c s.write) →
    Carried json (fun uid => ∃ r, (uid, .ok r) ∈ s.write.answers) (s.patchesOf name)
      (fileText json s.write name)

variable (env ret json)

/-- The update gets the text the memory bank has, with nothing on its way to the file and with
members, and the write is going to be stored as it is, or suppressed as a repeat of the text the
file has. -/
@[mk_iff]
structure OrderlyRead (name : String × String) (s : UpdateState ν) (call : UpdateCall ν)
    (remote : Except ReadFault String) (readAt now : ℚ) : Prop where
  settled : ∀ c, ¬ Destined name c s.write
  alone : ∀ rid p, ¬ Arriving name rid p s.write
  current : ∀ prior ∈ (call.prior ret remote s.cache readAt).toOption,
    prior = fileText json s.write name
  object : HasObject json (fileText json s.write name)
  stored : ∀ req ∈ (call.request ret json remote s.cache readAt).toOption,
    ∀ w ∈ (prepareWrite env.cfg env.lib req).toOption, w.target = name ∧ w.content = req.content ∧
      w.hotRollupMode env.cfg = false ∧
      (s.write.maps.Has env.cfg now w → req.content = fileText json s.write name)

/-- An update of the file has it to itself, and an update of another one does not write into it. -/
def OrderlyDelivery (name : String × String) (s : UpdateState ν) (uid : ℕ) (ending : CallEnd)
    (readAt now : ℚ) : Prop :=
  ∀ call ∈ s.calls.get? uid, ∀ remote ∈ call.outcome ending,
    if call.name = name then OrderlyRead env ret json name s call remote readAt now
    else ∀ req ∈ (call.request ret json remote s.cache readAt).toOption,
      ∀ w ∈ (prepareWrite env.cfg env.lib req).toOption, w.target ≠ name

def Orderly (name : String × String) (s : UpdateState ν) : UpdateOp ν → Prop
  | .call .. | .look .. | .cached .. => True
  | .deliver uid ending readAt _ now _ _ =>
    OrderlyDelivery env ret json name s uid ending readAt now
  | .path op => Steady env name s.write op

def ReadsObject (s : UpdateState ν) : UpdateOp ν → Prop
  | .deliver uid ending readAt .. =>
    ∀ call remote prior, s.calls.get? uid = some call → call.outcome ending = some remote →
      call.prior ret remote s.cache readAt = .ok prior → HasObject json prior
  | .call .. | .look .. | .cached .. | .path .. => True

/-! ### Conditions one can evaluate -/

instance (prior : String) : Decidable (HasObject json prior) :=
  decidable_of_iff (mergedText json .empty prior ≠ none) (by
    rw [Ne, mergedText_eq_none_iff, not_not])

instance (cfg : WriteConfig) (maps : WriteMaps) (now : ℚ) (w : PreparedWrite) :
    Decidable (maps.Has cfg now w) :=
  decidable_of_iff ((checkWrite cfg now w maps).2 ≠ .fresh) (by
    rw [Ne, checkWrite_fresh_iff, not_not])

instance (name : String × String) (s : UpdateState ν) (call : UpdateCall ν)
    (remote : Except ReadFault String) (readAt now : ℚ) :
    Decidable (OrderlyRead env ret json name s call remote readAt now) :=
  decidable_of_iff _ (orderlyRead_iff ..).symm

instance (name : String × String) (s : UpdateState ν) (uid : ℕ) (ending : CallEnd)
    (readAt now : ℚ) : Decidable (OrderlyDelivery env ret json name s uid ending readAt now) :=
  by delta OrderlyDelivery; infer_instance

instance (name : String × String) (s : UpdateState ν) :
    ∀ op, Decidable (Orderly env ret json name s op)
  | .call .. | .look .. | .cached .. => isTrue trivial
  | .deliver uid ending readAt _ now _ _ =>
    inferInstanceAs (Decidable (OrderlyDelivery env ret json name s uid ending readAt now))
  | .path op => inferInstanceAs (Decidable (Steady env name s.write op))

variable {env ret json} {s s' : UpdateState ν} {name : String × String} {uid rid : ℕ}
  {now : ℚ} {clk : Clock} {requestId : Option String} {drawn : String} {req : MemoryWrite}

theorem raised_step_iff (op : UpdateOp ν) (hs : s.raised = []) :
    (updateStep env ret json s op).raised = [] ↔ ReadsObject ret json s op := by
  cases op with
  | call uid memoryId patch =>
    refine iff_of_true ?_ trivial
    rw [updateStep, callUpdate]
    split
    · exact hs
    · split <;> exact hs
  | look uid =>
    refine iff_of_true ?_ trivial
    rw [updateStep, lookUpdate]
    split <;> exact hs
  | cached cache => exact iff_of_true hs trivial
  | path op =>
    refine iff_of_true ?_ trivial
    rw [updateStep]
    split <;> exact hs
  | deliver uid ending readAt clk now requestId drawn =>
    rw [updateStep, ReadsObject, deliverUpdate]
    split
    · exact iff_of_true hs (by simp_all)
    · rename_i call hcall
      split
      · exact iff_of_true hs (by grind)
      · rename_i remote hremote
        have hobject : (∀ call remote prior, s.calls.get? uid = some call →
            call.outcome ending = some remote → call.prior ret remote s.cache readAt = .ok prior →
              HasObject json prior) ↔ ¬ call.raises ret json remote s.cache readAt = true := by
          rw [UpdateCall.raises_eq_true_iff]
          grind
        rw [hobject]
        cases call.request ret json remote s.cache readAt <;> simp [hs]

/-! ### What carries the patches -/

section

variable {A B : ℕ → Prop} {patches : List (AppliedPatch ν)} {text : String} {u : AppliedPatch ν}

theorem Carried.mono (h : Carried json A patches text)
    (hBA : ∀ u ∈ patches, B u.uid → A u.uid) : Carried json B patches text := by
  intro pre u post heq hu
  exact h pre u post heq (hBA u (by simp [heq]) hu)

private theorem append_singleton_eq {α : Type*} {l pre post : List α} {a x : α}
    (h : l ++ [a] = pre ++ x :: post) :
    l = pre ∧ a = x ∧ post = [] ∨ ∃ post', post = post' ++ [a] ∧ l = pre ++ x :: post' := by
  rcases eq_nil_or_concat post with rfl | ⟨post', b, rfl⟩
  · obtain ⟨rfl, hx⟩ := append_inj' h rfl
    exact .inl ⟨rfl, (List.cons.inj hx).1, rfl⟩
  · rw [concat_eq_append, ← cons_append, ← append_assoc] at h
    obtain ⟨rfl, hb⟩ := append_inj' h rfl
    obtain ⟨rfl, -⟩ := List.cons.inj hb
    exact .inr ⟨post', by simp, rfl⟩

theorem Carried.concat_of_not (h : Carried json A patches text) (hu : ¬ A u.uid) :
    Carried json A (patches ++ [u]) text := by
  intro pre x post heq hx k v hk hpost
  rcases append_singleton_eq heq with ⟨-, rfl, -⟩ | ⟨post', rfl, rfl⟩
  · exact absurd hx hu
  · exact h pre x post' rfl hx k v hk fun u' hu' => hpost u' (mem_append_left _ hu')

theorem Carried.merged {content : String} (h : Carried json A patches text)
    (hnew : ∀ u' ∈ patches, u'.uid ≠ u.uid)
    (hmerged : mergedText json u.patch text = some content) :
    Carried json (fun uid => A uid ∨ uid = u.uid) (patches ++ [u]) content := by
  intro pre x post heq hx k v hk hpost
  rcases append_singleton_eq heq with ⟨-, rfl, -⟩ | ⟨post', rfl, rfl⟩
  · exact field_mergedText_of_patch hmerged hk
  · have hA : A x.uid := hx.resolve_right (hnew x (by simp))
    refine field_mergedText_of_prior hmerged (hpost u (by simp)) ?_
    exact h pre x post' rfl hA k v hk fun u' hu' => hpost u' (mem_append_left _ hu')

end

structure Unused (s : UpdateState ν) (uid : ℕ) : Prop where
  request : s.write.requests.get? uid = none
  admitted : ¬ RequestAdmitted uid s.write
  applied : ∀ u ∈ s.applied, u.uid ≠ uid

structure Booked (s : UpdateState ν) : Prop where
  known : ∀ u ∈ s.applied, u.uid ∈ s.begun
  waiting : ∀ uid call, s.calls.get? uid = some call → uid ∈ s.begun ∧ Unused s uid

structure Composing (env : WriteEnv) (json : JsonText ν) (name : String × String)
    (s : UpdateState ν) : Prop extends Booked s where
  own : ∀ u ∈ s.patchesOf name, ∀ p, s.write.requests.get? u.uid = some p →
    p.stage = .fresh → p.write.target = name
  alone : ∀ rid p rid' p', Arriving name rid p s.write → Arriving name rid' p' s.write → rid = rid'
  arriving : ∀ rid p, Arriving name rid p s.write → (∀ c, ¬ Destined name c s.write) ∧
    p.write.hotRollupMode env.cfg = false ∧
    Carried json (fun uid => RequestAdmitted uid s.write ∨ uid = rid) (s.patchesOf name)
      p.write.content
  destined : ∀ c, Destined name c s.write →
    Carried json (RequestAdmitted · s.write) (s.patchesOf name) (contentText json c)
  settled : (∀ c, ¬ Destined name c s.write) →
    Carried json (RequestAdmitted · s.write) (s.patchesOf name) (fileText json s.write name)

theorem Composing.start (files : Dict (String × String) Content) :
    Composing env json name (.start files) where
  known _ h := absurd h not_mem_nil
  waiting _ _ h := by cases h
  own _ h := absurd h not_mem_nil
  alone _ _ _ _ h := by cases h.1
  arriving _ _ h := by cases h.1
  destined c h := by
    obtain ⟨item, -, -, hitem | ⟨worker, hworker⟩⟩ := h
    · exact absurd hitem not_mem_nil
    · cases hworker
  settled _ pre u post h := by
    have hnil : (UpdateState.start files : UpdateState ν).patchesOf name = [] := rfl
    exact absurd h.symm (append_ne_nil_of_right_ne_nil _ (cons_ne_nil u post))

section

variable (hs : Composing env json name s)

include hs

theorem Composing.composed : Composed json name s :=
  fun hnone => (hs.settled hnone).mono fun _ _ h => .inl h

/-- What a state keeps in which nothing happened to the file. -/
theorem Composing.kept (hbooked : Booked s')
    (hpatches : s'.patchesOf name = s.patchesOf name)
    (hbank : s'.write.bank.get? name = s.write.bank.get? name)
    (hdestined : ∀ c, Destined name c s'.write ↔ Destined name c s.write)
    (hrequests : ∀ u ∈ s.patchesOf name, ∀ p, s'.write.requests.get? u.uid = some p →
      p.stage = .fresh → s.write.requests.get? u.uid = some p)
    (harriving : ∀ rid p, Arriving name rid p s'.write → Arriving name rid p s.write)
    (hadmitted : ∀ u ∈ s.patchesOf name, RequestAdmitted u.uid s'.write →
      RequestAdmitted u.uid s.write) : Composing env json name s' := by
  refine ⟨hbooked, ?_, ?_, ?_, ?_, ?_⟩
  · rw [hpatches]
    exact fun u hu p hp hfresh => hs.own u hu p (hrequests u hu p hp hfresh) hfresh
  · exact fun rid p rid' p' h h' => hs.alone rid p rid' p' (harriving _ _ h) (harriving _ _ h')
  · intro rid p h
    obtain ⟨hnone, hmode, hcarried⟩ := hs.arriving rid p (harriving rid p h)
    rw [hpatches]
    exact ⟨fun c hc => hnone c ((hdestined c).mp hc), hmode,
      hcarried.mono fun u hu h => h.imp_left (hadmitted u hu)⟩
  · rw [hpatches]
    exact fun c hc => (hs.destined c ((hdestined c).mp hc)).mono hadmitted
  · intro hnone
    rw [hpatches, fileText, hbank]
    exact (hs.settled fun c hc => hnone c ((hdestined c).mpr hc)).mono hadmitted

theorem Composing.frame (hwrite : s'.write = s.write) (happlied : s'.applied = s.applied)
    (hbegun : ∀ uid ∈ s.begun, uid ∈ s'.begun)
    (hwaiting : ∀ uid call, s'.calls.get? uid = some call → uid ∈ s'.begun ∧ Unused s uid) :
    Composing env json name s' := by
  obtain ⟨write', cache', calls', begun', applied', raised'⟩ := s'
  subst hwrite happlied
  refine hs.kept ⟨fun u hu => hbegun _ (hs.known u hu), ?_⟩ rfl rfl (fun _ => Iff.rfl)
    (fun _ _ _ hp _ => hp) (fun _ _ h => h) (fun _ _ h => h)
  intro uid call hcall
  obtain ⟨hmem, hrequest, hadmitted, hnew⟩ := hwaiting uid call hcall
  exact ⟨hmem, hrequest, hadmitted, hnew⟩

theorem Composing.call (uid : ℕ) (memoryId : String) (patch : Dict String ν) :
    Composing env json name (callUpdate s uid memoryId patch) := by
  rw [callUpdate]
  split
  · exact hs
  · rename_i hnew
    simp only [not_or, Option.not_isSome_iff_eq_none, any_eq_true, decide_eq_true_eq,
      not_exists, not_and] at hnew
    obtain ⟨hbegun, hrequest, hanswer⟩ := hnew
    have hmem {uid'} (h : uid' ∈ s.begun) : uid' ∈ s.begun ++ [uid] := mem_append_left _ h
    have hunused : Unused s uid := by
      refine ⟨hrequest, ?_, ?_⟩
      · rintro (⟨r, hr⟩ | ⟨p, hp, -⟩)
        · exact hanswer _ hr rfl
        · cases hrequest.symm.trans hp
      · rintro u hu rfl
        exact hbegun (hs.known u hu)
    split
    · refine hs.frame rfl rfl (fun _ => hmem) fun uid' call hcall => ?_
      exact ⟨hmem (hs.waiting uid' call hcall).1, (hs.waiting uid' call hcall).2⟩
    · refine hs.frame rfl rfl (fun _ => hmem) fun uid' call hcall => ?_
      rcases Dict.get?_set_eq_some.mp hcall with ⟨rfl, -⟩ | ⟨-, hcall⟩
      · exact ⟨by simp, hunused⟩
      · exact ⟨hmem (hs.waiting uid' call hcall).1, (hs.waiting uid' call hcall).2⟩

theorem Composing.look (uid : ℕ) : Composing env json name (lookUpdate json s uid) := by
  rw [lookUpdate]
  split
  · exact hs
  · rename_i call hcall
    refine hs.frame rfl rfl (fun _ h => h) fun uid' call' hcall' => ?_
    rcases Dict.get?_set_eq_some.mp hcall' with ⟨rfl, -⟩ | ⟨-, hcall'⟩
    · exact hs.waiting _ call hcall
    · exact hs.waiting uid' call' hcall'

end

theorem Booked.receive (h : Booked s) (hbegun : s'.begun = s.begun)
    (hwrite : s'.write = receiveWrite env s.write rid clk now requestId drawn req)
    (happlied : ∀ u ∈ s'.applied, u ∈ s.applied ∨ u.uid = rid ∧ rid ∈ s.begun)
    (hcalls : ∀ uid call, s'.calls.get? uid = some call →
      uid ≠ rid ∧ s.calls.get? uid = some call) : Booked s' where
  known := by
    intro u hu
    rw [hbegun]
    rcases happlied u hu with hu | ⟨hu, hrid⟩
    · exact h.known u hu
    · rwa [hu]
  waiting := by
    intro uid call hcall
    obtain ⟨hne, hcall⟩ := hcalls uid call hcall
    obtain ⟨hmem, hunused⟩ := h.waiting uid call hcall
    refine ⟨hbegun ▸ hmem, ?_, ?_, ?_⟩
    · rw [hwrite, Option.eq_none_iff_forall_ne_some]
      intro p hp
      rcases get?_requests_of_receive hp with hp | ⟨hrid, -⟩
      · cases hunused.request.symm.trans hp
      · exact hne hrid
    · rw [hwrite]
      intro hadmitted
      exact hadmitted.of_receive.elim hunused.admitted hne
    · rintro u hu rfl
      exact (happlied u hu).elim (fun hu => hunused.applied u hu rfl) fun hu => hne hu.1

section

variable (hs : Composing env json name s)

include hs

theorem Composing.receive_other
    (hreq : ∀ w, prepareWrite env.cfg env.lib req = .ok w → w.target ≠ name)
    (hwrite : s'.write = receiveWrite env s.write rid clk now requestId drawn req)
    (hpatches : s'.patchesOf name = s.patchesOf name)
    (hrid : ∀ u ∈ s.patchesOf name, u.uid ≠ rid) (hbooked : Booked s') :
    Composing env json name s' := by
  have hcore : SameCore s.write s'.write := by
    rw [hwrite]
    exact sameCore_receive ..
  have hdestined (c : Content) : Destined name c s'.write ↔ Destined name c s.write :=
    destined_congr hcore.queue hcore.held
  have hadmitted : ∀ u ∈ s.patchesOf name, RequestAdmitted u.uid s'.write →
      RequestAdmitted u.uid s.write := by
    intro u hu h
    rw [hwrite] at h
    exact h.of_receive.resolve_right (hrid u hu)
  have harriving (rid' p) (h : Arriving name rid' p s'.write) : Arriving name rid' p s.write := by
    obtain ⟨hp, hfresh, htarget⟩ := h
    rw [hwrite] at hp
    rcases get?_requests_of_receive hp with hp | ⟨-, hprepare⟩
    · exact ⟨hp, hfresh, htarget⟩
    · exact absurd htarget (hreq p.write hprepare)
  refine hs.kept hbooked hpatches (by rw [hcore.bank]) hdestined ?_ harriving hadmitted
  intro u hu p hp _
  rw [hwrite] at hp
  exact (get?_requests_of_receive hp).resolve_right fun h => hrid u hu h.1

theorem Composing.receive_own {call : UpdateCall ν} {remote : Except ReadFault String}
    {readAt : ℚ} (hname : call.name = name) (hunused : Unused s uid)
    (horderly : OrderlyRead env ret json name s call remote readAt now)
    (hrequest : call.request ret json remote s.cache readAt = .ok req)
    (hwrite : s'.write = receiveWrite env s.write uid clk now requestId drawn req)
    (happlied : s'.applied = s.applied ++ [⟨uid, call.name, call.patch⟩])
    (hbooked : Booked s') : Composing env json name s' := by
  have hcore : SameCore s.write s'.write := by
    rw [hwrite]
    exact sameCore_receive ..
  have hnone (c : Content) : ¬ Destined name c s'.write := fun hc =>
    horderly.settled c ((destined_congr hcore.queue hcore.held).mp hc)
  have hpatches : s'.patchesOf name = s.patchesOf name ++ [⟨uid, call.name, call.patch⟩] := by
    rw [UpdateState.patchesOf, happlied, filter_append, UpdateState.patchesOf]
    simp [hname]
  have hnew : ∀ u ∈ s.patchesOf name, u.uid ≠ uid :=
    fun u hu => hunused.applied u (mem_of_mem_filter hu)
  have hadmitted : ∀ u ∈ s.patchesOf name, RequestAdmitted u.uid s'.write →
      RequestAdmitted u.uid s.write := by
    intro u hu h
    rw [hwrite] at h
    exact h.of_receive.resolve_right (hnew u hu)
  -- the text that was read has the patches before
  obtain ⟨prior, hprior, hmerged⟩ := UpdateCall.request_eq_ok hrequest
  have hcarried := hs.settled horderly.settled
  rw [← horderly.current prior (mem_toOption.mpr hprior)] at hcarried
  have hstored := horderly.stored req (mem_toOption.mpr hrequest)
  simp only [mem_toOption] at hstored
  have hnext : Carried json (fun rid => RequestAdmitted rid s'.write ∨ rid = uid)
      (s'.patchesOf name) req.content := by
    rw [hpatches]
    exact Carried.merged (u := ⟨uid, call.name, call.patch⟩) (hcarried.mono hadmitted) hnew hmerged
  -- a write that is answered ok at once, or unchanged, is suppressed
  have hsuppressed (h : RequestAdmitted uid s'.write) :
      req.content = fileText json s.write name := by
    rw [hwrite] at h
    rcases receive_spec env s.write uid clk now requestId drawn req with
      ⟨a, ha, hok⟩ | ⟨p, hp, hprepare, hstage⟩
    · rcases h with ⟨r, hr⟩ | ⟨p, hp, -⟩
      · rcases ha.mem_or hr with hr | ⟨-, hr⟩
        · exact absurd (.inl ⟨r, hr⟩) hunused.admitted
        · obtain ⟨w, hw, hhas⟩ := hok r hr.symm
          exact (hstored w hw).2.2.2 hhas
      · cases hunused.request.symm.trans (ha.get?_of_get? hp)
    · rcases h with ⟨r, hr⟩ | ⟨p', hp', hstage'⟩
      · rw [hp.answers] at hr
        exact absurd (.inl ⟨r, hr⟩) hunused.admitted
      · rcases hp.get?_or hp' with ⟨-, rfl⟩ | hp'
        · exact (hstored _ hprepare).2.2.2 (hstage.resolve_left hstage')
        · cases hunused.request.symm.trans hp'
  -- the request itself is the only one that arrives
  have harriving (rid p) (h : Arriving name rid p s'.write) :
      rid = uid ∧ prepareWrite env.cfg env.lib req = .ok p.write := by
    obtain ⟨hp, hstage, htarget⟩ := h
    rw [hwrite] at hp
    rcases get?_requests_of_receive hp with hp | h
    · exact absurd ⟨hp, hstage, htarget⟩ (horderly.alone rid p)
    · exact h
  exact {
    hbooked with
    own := by
      intro u hu p hp hstage
      rw [hpatches, mem_append, mem_singleton] at hu
      rw [hwrite] at hp
      rcases get?_requests_of_receive hp with hp | ⟨-, hprepare⟩
      · rcases hu with hu | rfl
        · exact hs.own u hu p hp hstage
        · cases hunused.request.symm.trans hp
      · exact (hstored p.write hprepare).1
    alone := fun rid p rid' p' h h' => (harriving rid p h).1.trans (harriving rid' p' h').1.symm
    arriving := by
      intro rid p h
      obtain ⟨rfl, hprepare⟩ := harriving rid p h
      obtain ⟨-, hcontent, hmode, -⟩ := hstored p.write hprepare
      exact ⟨hnone, hmode, by rwa [hcontent]⟩
    destined := fun c hc => absurd hc (hnone c)
    settled := by
      intro _
      have hfile : fileText json s'.write name = fileText json s.write name := by
        rw [fileText, hcore.bank, fileText]
      rw [hfile]
      by_cases h : RequestAdmitted uid s'.write
      · rw [← hsuppressed h]
        exact hnext.mono fun _ _ => .inl
      · rw [hpatches]
        exact ((hs.settled horderly.settled).mono hadmitted).concat_of_not h }

theorem Composing.deliver {ending : CallEnd} {readAt : ℚ} (horderly : Orderly env ret json name s
      (.deliver uid ending readAt clk now requestId drawn)) :
    Composing env json name
      (deliverUpdate env ret json s uid ending readAt clk now requestId drawn) := by
  rw [deliverUpdate]
  split
  · exact hs
  · rename_i call hcall
    split
    · exact hs
    · rename_i remote hremote
      obtain ⟨hmem, hunused⟩ := hs.waiting uid call hcall
      have horderly' := horderly call hcall remote hremote
      dsimp only
      split
      · refine hs.frame rfl rfl (fun _ h => h) fun uid' call' hcall' => ?_
        exact hs.waiting uid' call' (Dict.get?_erase_eq_some.mp hcall').2
      · rename_i req hrequest
        have hbooked (s' : UpdateState ν) (hbegun : s'.begun = s.begun)
            (hwrite : s'.write = receiveWrite env s.write uid clk now requestId drawn req)
            (happlied : s'.applied = s.applied ++ [⟨uid, call.name, call.patch⟩])
            (hcalls : s'.calls = s.calls.erase uid) : Booked s' := by
          refine hs.toBooked.receive hbegun hwrite (fun u hu => ?_) fun uid' call' hcall' => ?_
          · rw [happlied, mem_append, mem_singleton] at hu
            exact hu.imp_right fun h => ⟨by rw [h], hmem⟩
          · rw [hcalls] at hcall'
            exact Dict.get?_erase_eq_some.mp hcall'
        by_cases hname : call.name = name
        · rw [if_pos hname] at horderly'
          exact hs.receive_own hname hunused horderly' hrequest rfl rfl
            (hbooked _ rfl rfl rfl rfl)
        · rw [if_neg hname] at horderly'
          refine hs.receive_other (fun w hw => horderly' req (mem_toOption.mpr hrequest) w
            (mem_toOption.mpr hw)) rfl ?_
            (fun u hu => hunused.applied u (mem_of_mem_filter hu)) (hbooked _ rfl rfl rfl rfl)
          simp [UpdateState.patchesOf, hname]

theorem Composing.path {op : WriteOp} (hop : op.request? = none)
    (hsteady : Steady env name s.write op) :
    Composing env json name { s with write := writeStep env s.write op } := by
  have hbooked : Booked { s with write := writeStep env s.write op } := by
    refine ⟨hs.known, fun uid call hcall => ?_⟩
    obtain ⟨hbegun, hunused⟩ := hs.waiting uid call hcall
    have hnone (p) (hp : s.write.requests.get? uid = some p) : False := by
      cases hunused.request.symm.trans hp
    refine ⟨hbegun, ?_, ?_, hunused.applied⟩
    · rw [Option.eq_none_iff_forall_ne_some]
      intro p hp
      obtain ⟨p', hp'⟩ := exists_request_of_step hop hp
      exact hnone p' hp'
    · intro h
      rcases h.of_step hop with h | ⟨p, -, -, -, -, hp, -⟩
      · exact hunused.admitted h
      · exact hnone p hp
  have halone : ∀ rid p rid' p', Arriving name rid p (writeStep env s.write op) →
      Arriving name rid' p' (writeStep env s.write op) → rid = rid' :=
    fun rid p rid' p' h h' => hs.alone rid p rid' p' (h.of_step hop) (h'.of_step hop)
  have hrequests : ∀ u ∈ s.patchesOf name, ∀ p,
      Dict.get? (writeStep env s.write op).requests u.uid = some p → p.stage = .fresh →
        s.write.requests.get? u.uid = some p :=
    fun u _ p hp hfresh => (Arriving.of_step hop ⟨hp, hfresh, rfl⟩).1
  have hown : ∀ u ∈ s.patchesOf name, ∀ p,
      Dict.get? (writeStep env s.write op).requests u.uid = some p → p.stage = .fresh →
        p.write.target = name :=
    fun u hu p hp hfresh => hs.own u hu p (hrequests u hu p hp hfresh) hfresh
  cases fileStep hop hsteady with
  | kept hbank hdestined hadmitted =>
    exact hs.kept hbooked rfl hbank hdestined hrequests (fun _ _ h => h.of_step hop)
      fun u _ => hadmitted u.uid
  | stored c hc hbank hdestined hadmitted =>
    refine ⟨hbooked, hown, halone, ?_, ?_, ?_⟩
    · exact fun rid p h => absurd hc ((hs.arriving rid p (h.of_step hop)).1 c)
    · exact fun c' hc' => (hs.destined c' (hdestined c' hc')).mono fun u _ => hadmitted u.uid
    · intro _
      rw [fileText, hbank]
      exact (hs.destined c hc).mono fun u _ => hadmitted u.uid
  | admitted rid p hp hfresh hgone hbank hdestined hother hadmitted =>
    by_cases htarget : p.write.target = name
    · -- the write of the file is handed over, and nothing else is on its way
      obtain ⟨hnone, hmode, hcarried⟩ := hs.arriving rid p ⟨hp, hfresh, htarget⟩
      refine ⟨hbooked, hown, halone, ?_, ?_, ?_⟩
      · intro rid' p' h
        obtain rfl := hs.alone rid' p' rid p (h.of_step hop) ⟨hp, hfresh, htarget⟩
        exact absurd h (hgone p')
      · intro c hc
        rcases (hdestined hmode c).mp hc with hc | ⟨-, rfl⟩
        · exact absurd hc (hnone c)
        · exact hcarried.mono fun u _ => hadmitted u.uid
      · intro hnone'
        exact absurd ((hdestined hmode _).mpr (.inr ⟨htarget, rfl⟩)) (hnone' _)
    · refine hs.kept hbooked rfl hbank (hother htarget) hrequests
        (fun _ _ h => h.of_step hop) fun u hu h => ?_
      refine (hadmitted u.uid h).resolve_right fun hrid => htarget ?_
      exact hs.own u hu p (hrid ▸ hp) hfresh

theorem Composing.step {op : UpdateOp ν} (hop : Orderly env ret json name s op) :
    Composing env json name (updateStep env ret json s op) := by
  cases op with
  | call uid memoryId patch =>
    exact hs.call uid memoryId patch
  | look uid =>
    exact hs.look uid
  | deliver =>
    rw [updateStep]
    exact hs.deliver hop
  | cached cache =>
    exact hs.frame rfl rfl (fun _ h => h) hs.waiting
  | path op =>
    rw [updateStep]
    split
    · exact hs
    · rename_i hnew
      cases op with
      | receive rid clk now requestId drawn req =>
        have hne : ∀ uid ∈ s.begun, uid ≠ rid := by
          rintro uid huid rfl
          exact hnew (by simpa [WriteOp.request?] using huid)
        refine hs.receive_other hop rfl rfl
          (fun u hu => hne u.uid (hs.known u (mem_of_mem_filter hu))) ?_
        exact hs.toBooked.receive rfl rfl (fun _ => .inl)
          fun uid call hcall => ⟨hne uid (hs.waiting uid call hcall).1, hcall⟩
      | rawStored | seeded | finish | flush | take | store | publish | fail | fanout =>
        exact hs.path rfl hop

end

end

/-- **When updates compose.** No update raises if and only if none gets a JSON value without
members; and orderly updates of a file all end up in it, the later ones winning. -/
theorem updates_compose {ν : Type*} (env : WriteEnv) (ret : RetrievalEnv) (json : JsonText ν)
    (files : Dict (String × String) Content) (ops : List (UpdateOp ν)) :
    ((∀ pre post, ops = pre ++ post →
        (run (updateStep env ret json) (.start files) pre).raised = []) ↔
      Along (updateStep env ret json) (ReadsObject ret json) (.start files) ops) ∧
    ∀ name, Along (updateStep env ret json) (Orderly env ret json name) (.start files) ops →
      ∀ pre post, ops = pre ++ post →
        Composed json name (run (updateStep env ret json) (.start files) pre) := by
  constructor
  · have hiff : ∀ (s : UpdateState ν) op, s.raised = [] →
        ((updateStep env ret json s op).raised = [] ↔ ReadsObject ret json s op) :=
      fun s op hs => raised_step_iff op hs
    exact forall_run_iff_along_of_step hiff rfl
  · rintro name hops pre post rfl
    have hstep : ∀ (s : UpdateState ν) op, Composing env json name s →
        Orderly env ret json name s op → Composing env json name (updateStep env ret json s op) :=
      fun s op hs hop => hs.step hop
    exact (Along.invariant hstep (.start files) (along_append.mp hops).1).composed

/-! ### A format for objects of texts -/

def quoteWord (word : String) : List Char := (word.toList.flatMap fun c => ['=', c]) ++ [';']

def unquoteWords : List Char → List Char → List String
  | '=' :: c :: rest, word => unquoteWords rest (word ++ [c])
  | ';' :: rest, word => String.ofList word :: unquoteWords rest []
  | _, _ => []

def pairUp : List String → List (String × String)
  | k :: v :: rest => (k, v) :: pairUp rest
  | _ => []

theorem unquoteWords_quoteWord (word : String) (rest : List Char) :
    unquoteWords (quoteWord word ++ rest) [] = word :: unquoteWords rest [] := by
  have hread (cs acc : List Char) :
      unquoteWords (cs.flatMap (fun c => ['=', c]) ++ [';'] ++ rest) acc =
        String.ofList (acc ++ cs) :: unquoteWords rest [] := by
    induction cs generalizing acc with
    | nil => simp [unquoteWords]
    | cons c cs ih => simpa [unquoteWords] using ih (acc ++ [c])
  rw [quoteWord, hread, nil_append, String.ofList_toList]

theorem pairUp_unquoteWords (rows : List (String × String)) :
    pairUp (unquoteWords (rows.flatMap fun p => quoteWord p.1 ++ quoteWord p.2) []) = rows := by
  induction rows with
  | nil => rfl
  | cons p rows ih =>
    rw [flatMap_cons, append_assoc, unquoteWords_quoteWord, unquoteWords_quoteWord, pairUp, ih]

def wordJson : JsonText String where
  loads text :=
    match text.toList with
    | 'o' :: words => some (.object ((pairUp (unquoteWords words [])).foldl
        (fun d p => d.set p.1 p.2) .empty))
    | 'a' :: _ => some .other
    | _ => none
  dumps members :=
    String.ofList ('o' :: members.rows.flatMap fun p => quoteWord p.1 ++ quoteWord p.2)
  ofText := id
  shown := given ∘ some
  rollupText _ := "a"
  loads_empty := rfl
  loads_dumps members := by
    refine ⟨Dict.merge .empty members, ?_, fun k => ?_⟩
    · simp only [String.toList_ofList, pairUp_unquoteWords]
      rfl
    · rw [Dict.get?_merge, Dict.get?_empty, Option.or_none]

/-! ### Two updates -/

def patch1 (k v : String) : Dict String String := Dict.set .empty k v

def updateOps (uid : ℕ) (k : String) (ending : CallEnd) : List (UpdateOp String) :=
  [.call uid "docs::n" (patch1 k "yes"), .look uid,
    .deliver uid ending uid .noon uid none "e",
    .path (.rawStored uid .noon none {}), .path (.finish uid {} {})]

def storeOps : List (UpdateOp String) := (workerOps 0).map .path

def holding (text : String) : UpdateState String :=
  .start (Dict.set .empty ("docs", "n") (.text text))

def inOrder : List (UpdateOp String) :=
  updateOps 1 "a" (.answered "") ++ storeOps ++ updateOps 2 "b" (.answered "") ++ storeOps

private theorem orderly_inOrder :
    Along (updateStep .plain .plain wordJson) (Orderly .plain .plain wordJson ("docs", "n"))
      (holding "o") inOrder := by
  decide +kernel

theorem updates_compose_inOrder :
    let s := run (updateStep .plain .plain wordJson) (holding "o") inOrder
    Composed wordJson ("docs", "n") s ∧
      field wordJson (fileText wordJson s.write ("docs", "n")) "a" = some "yes" ∧
      field wordJson (fileText wordJson s.write ("docs", "n")) "b" = some "yes" :=
  ⟨(updates_compose .plain .plain wordJson _ inOrder).2 _ orderly_inOrder inOrder [] (by simp),
    by decide +kernel⟩

def readEarly : List (UpdateOp String) :=
  updateOps 1 "a" (.answered "") ++ updateOps 2 "b" (.answered "") ++ storeOps ++ storeOps

def servedStale : List (UpdateOp String) :=
  updateOps 1 "a" (.answered "") ++ storeOps ++ updateOps 2 "b" .timedOut ++ storeOps

/-- Both updates are answered ok and stored, and the member of the first one is gone. Another JSON
value raises. -/
theorem update_lost_or_raised :
    (∀ ops ∈ [readEarly, servedStale],
      let s := run (updateStep .plain .plain wordJson) (holding "o") ops
      (1, .ok (queuedResponse "e")) ∈ s.write.answers ∧
        (2, .ok (queuedResponse "e")) ∈ s.write.answers ∧ ¬ Composed wordJson ("docs", "n") s) ∧
      (run (updateStep .plain .plain wordJson) (holding "a")
        (updateOps 1 "a" (.answered ""))).raised = [1] := by
  have hruns : ∀ ops ∈ [readEarly, servedStale],
      let s := run (updateStep .plain .plain wordJson) (holding "o") ops
      (1, .ok (queuedResponse "e")) ∈ s.write.answers ∧
        (2, .ok (queuedResponse "e")) ∈ s.write.answers ∧
        (∀ c, ¬ Destined ("docs", "n") c s.write) ∧
        s.patchesOf ("docs", "n") =
          [⟨1, ("docs", "n"), patch1 "a" "yes"⟩, ⟨2, ("docs", "n"), patch1 "b" "yes"⟩] ∧
        field wordJson (fileText wordJson s.write ("docs", "n")) "a" = none := by
    decide +kernel
  refine ⟨fun ops hops => ?_, by decide +kernel⟩
  obtain ⟨hfirst, hsecond, hsettled, hpatches, hlost⟩ := hruns ops hops
  refine ⟨hfirst, hsecond, fun hcomposed => ?_⟩
  have hkept := hcomposed hsettled [] _ _ hpatches ⟨_, hfirst⟩ "a" "yes" (by decide) (by decide)
  rw [hlost] at hkept
  cases hkept

end ContextLattice.Engine
