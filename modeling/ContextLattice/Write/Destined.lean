import ContextLattice.Write.LastWrite
import ContextLattice.Write.Workers

/-!
# Contents on their way to a file

A write of a file is first **arriving**, then **destined** for the file (queued, or in the hands of
a worker), and then stored. `Steady` leaves out that a flush writes a rollup into the file, and that
a worker fails before it stores.
-/

namespace ContextLattice

open Foundation List

def PreparedWrite.target (w : PreparedWrite) : String × String := (w.project, w.file)

def BankItem.target (item : BankItem) : String × String := (item.project, item.fileName)

def Destined (name : String × String) (c : Content) (s : WriteState) : Prop :=
  ∃ item : BankItem, item.target = name ∧ item.content = c ∧
    (item ∈ s.queue.items ∨ ∃ worker, s.held.get? worker = some ⟨item, false⟩)

def WriteState.contentsFor (s : WriteState) (name : String × String) : List Content :=
  (s.queue.items.filter fun item => decide (item.target = name)).map BankItem.content ++
    (s.held.rows.filter fun p => decide (p.2.stored = false ∧ p.2.item.target = name)).map
      fun p => p.2.item.content

theorem destined_iff_mem {name : String × String} {c : Content} {s : WriteState} :
    Destined name c s ↔ c ∈ s.contentsFor name := by
  simp only [Destined, WriteState.contentsFor, mem_append, mem_map, mem_filter, decide_eq_true_eq]
  constructor
  · rintro ⟨item, htarget, rfl, hitem | ⟨worker, hworker⟩⟩
    · exact .inl ⟨item, ⟨hitem, htarget⟩, rfl⟩
    · exact .inr ⟨(worker, ⟨item, false⟩), ⟨Dict.get?_eq_some.mp hworker, rfl, htarget⟩, rfl⟩
  · rintro (⟨item, ⟨hitem, htarget⟩, rfl⟩ | ⟨⟨worker, item, stored⟩, ⟨hmem, hstored, htarget⟩, rfl⟩)
    · exact ⟨item, htarget, rfl, .inl hitem⟩
    · obtain rfl : stored = false := hstored
      exact ⟨item, htarget, rfl, .inr ⟨worker, Dict.get?_eq_some.mpr hmem⟩⟩

instance (name : String × String) (c : Content) (s : WriteState) : Decidable (Destined name c s) :=
  decidable_of_iff _ destined_iff_mem.symm

instance (name : String × String) (s : WriteState) : Decidable (∀ c, ¬ Destined name c s) :=
  decidable_of_iff (s.contentsFor name = []) (by
    simp only [destined_iff_mem, eq_nil_iff_forall_not_mem])

def Arriving (name : String × String) (rid : ℕ) (p : PendingWrite) (s : WriteState) : Prop :=
  s.requests.get? rid = some p ∧ p.stage = .fresh ∧ p.write.target = name

instance (name : String × String) (s : WriteState) : Decidable (∀ rid p, ¬ Arriving name rid p s) :=
  decidable_of_iff (∀ q ∈ s.requests.rows, ¬ (q.2.stage = .fresh ∧ q.2.write.target = name)) (by
    simp only [Arriving, Dict.get?_eq_some, not_and, Prod.forall])

def RequestAdmitted (rid : ℕ) (s : WriteState) : Prop :=
  (∃ r, (rid, .ok r) ∈ s.answers) ∨ ∃ p, s.requests.get? rid = some p ∧ p.stage ≠ .fresh

theorem mem_toOption {ε α : Type*} {e : Except ε α} {a : α} : a ∈ e.toOption ↔ e = .ok a := by
  cases e <;> simp [Except.toOption]

def Steady (env : WriteEnv) (name : String × String) (s : WriteState) : WriteOp → Prop
  | .receive _ _ _ _ _ req => ∀ w, prepareWrite env.cfg env.lib req = .ok w → w.target ≠ name
  | .flush clk now force drawn =>
    ∀ c, Destined name c (writeStep env s (.flush clk now force drawn)) → Destined name c s
  | .fail worker _ => ∀ item, s.held.get? worker = some ⟨item, false⟩ → item.target ≠ name
  | _ => True

instance (env : WriteEnv) (name : String × String) (s : WriteState) :
    ∀ op, Decidable (Steady env name s op)
  | .receive _ _ _ _ _ req =>
    decidable_of_iff (∀ w ∈ (prepareWrite env.cfg env.lib req).toOption, w.target ≠ name) (by
      simp only [Steady, mem_toOption])
  | .flush clk now force drawn =>
    decidable_of_iff (∀ c ∈ (writeStep env s (.flush clk now force drawn)).contentsFor name,
      Destined name c s) (by simp only [Steady, destined_iff_mem])
  | .fail worker _ =>
    decidable_of_iff (∀ job ∈ s.held.get? worker, job.stored = false →
      job.item.target ≠ name) (by
        constructor
        · exact fun h item hitem => h _ hitem rfl
        · rintro h ⟨item, stored⟩ hjob rfl
          exact h item hjob)
  | .rawStored .. | .seeded .. | .finish .. | .take .. | .store .. | .publish .. | .fanout .. =>
    isTrue trivial

inductive FileStep (env : WriteEnv) (name : String × String) (s s' : WriteState) : Prop
  | kept (hbank : s'.bank.get? name = s.bank.get? name)
      (hdestined : ∀ c, Destined name c s' ↔ Destined name c s)
      (hadmitted : ∀ rid, RequestAdmitted rid s' → RequestAdmitted rid s)
  | stored (c : Content) (hc : Destined name c s) (hbank : s'.bank.get? name = some c)
      (hdestined : ∀ c, Destined name c s' → Destined name c s)
      (hadmitted : ∀ rid, RequestAdmitted rid s' → RequestAdmitted rid s)
  | admitted (rid : ℕ) (p : PendingWrite) (hp : s.requests.get? rid = some p)
      (hfresh : p.stage = .fresh) (hgone : ∀ p', ¬ Arriving name rid p' s')
      (hbank : s'.bank.get? name = s.bank.get? name)
      (hdestined : p.write.hotRollupMode env.cfg = false → ∀ c, Destined name c s' ↔
        Destined name c s ∨ p.write.target = name ∧ c = .text p.write.content)
      (hother : p.write.target ≠ name → ∀ c, Destined name c s' ↔ Destined name c s)
      (hadmitted : ∀ rid', RequestAdmitted rid' s' → RequestAdmitted rid' s ∨ rid' = rid)

variable {env : WriteEnv} {name : String × String} {c : Content} {s s' : WriteState} {rid : ℕ}
  {p : PendingWrite} {op : WriteOp} {e : HttpError}

/-! ### Requests -/

variable {rid' worker : ℕ} {item : BankItem}

theorem RequestAdmitted.of_failed (hadmitted : RequestAdmitted rid' s')
    (h : Answered s rid (.error e) s') : RequestAdmitted rid' s := by
  rcases hadmitted with ⟨r, hr⟩ | ⟨p, hp, hstage⟩
  · rcases h.mem_or hr with hr | ⟨-, hr⟩
    · exact .inl ⟨r, hr⟩
    · cases hr
  · exact .inr ⟨p, h.get?_of_get? hp, hstage⟩

theorem RequestAdmitted.of_goesOn (hadmitted : RequestAdmitted rid' s')
    (h : GoesOn s rid p s') : RequestAdmitted rid' s ∨ rid' = rid := by
  rcases hadmitted with ⟨r, hr⟩ | ⟨p', hp', hstage⟩
  · rw [h.answers] at hr
    exact .inl (.inl ⟨r, hr⟩)
  · rcases h.get?_or hp' with ⟨hrid, -⟩ | hp'
    · exact .inr hrid
    · exact .inl (.inr ⟨p', hp', hstage⟩)

theorem RequestAdmitted.of_step (hop : op.request? = none)
    (hadmitted : RequestAdmitted rid' (writeStep env s op)) :
    RequestAdmitted rid' s ∨ ∃ p clk mongo gate, op = .rawStored rid' clk mongo gate ∧
      s.requests.get? rid' = some p ∧ p.stage = .fresh := by
  cases handlerChange env s op with
  | same hrequests hanswers =>
    rw [RequestAdmitted, hrequests, hanswers] at hadmitted
    exact .inl hadmitted
  | rejected | duplicate | received => cases hop
  | failed _ h => exact .inl (hadmitted.of_failed h)
  | admitted h hp hfresh =>
    rcases hadmitted.of_goesOn h with hadmitted | rfl
    · exact .inl hadmitted
    · exact .inr ⟨_, _, _, _, rfl, hp, hfresh⟩
  | moved h hp _ hstage =>
    -- the request was past its first stage already
    rcases hadmitted.of_goesOn h with hadmitted | rfl
    · exact .inl hadmitted
    · refine .inl (.inr ⟨_, hp, ?_⟩)
      rcases hstage with ⟨hstage, -⟩ | ⟨hstage, -⟩ <;> simp [hstage]
  | completed h hp hstage =>
    rcases hadmitted with ⟨r, hr⟩ | ⟨p', hp', hstage'⟩
    · rcases h.mem_or hr with hr | ⟨rfl, -⟩
      · exact .inl (.inl ⟨r, hr⟩)
      · exact .inl (.inr ⟨_, hp, hstage⟩)
    · exact .inl (.inr ⟨p', h.get?_of_get? hp', hstage'⟩)

theorem receive_spec (env : WriteEnv) (s : WriteState) (rid : ℕ) (clk : Clock) (now : ℚ)
    (requestId : Option String) (drawn : String) (req : MemoryWrite) :
    let s' := receiveWrite env s rid clk now requestId drawn req
    (∃ a, Answered s rid a s' ∧ ∀ r, a = .ok r →
        ∃ w, prepareWrite env.cfg env.lib req = .ok w ∧ s.maps.Has env.cfg now w) ∨
      ∃ p, GoesOn s rid p s' ∧ prepareWrite env.cfg env.lib req = .ok p.write ∧
        (p.stage = .fresh ∨ s.maps.Has env.cfg now p.write) := by
  unfold receiveWrite
  dsimp only
  split
  · exact .inl ⟨_, ⟨rfl, rfl⟩, fun r h => by cases h⟩
  · rename_i w hprepare
    have hhas (h : (checkWrite env.cfg now w s.maps).2 ≠ .fresh) : s.maps.Has env.cfg now w := by
      rwa [Ne, checkWrite_fresh_iff, not_not] at h
    split
    · rename_i hverdict
      exact .inl ⟨_, ⟨rfl, rfl⟩, fun r _ => ⟨w, hprepare, hhas (by simp [hverdict])⟩⟩
    · rename_i hverdict
      exact .inr ⟨_, ⟨rfl, rfl⟩, hprepare, .inr (hhas (by simp [hverdict]))⟩
    · exact .inr ⟨_, ⟨rfl, rfl⟩, hprepare, .inl rfl⟩

variable {clk : Clock} {now : ℚ} {requestId : Option String} {drawn : String} {req : MemoryWrite}

theorem RequestAdmitted.of_receive
    (h : RequestAdmitted rid' (receiveWrite env s rid clk now requestId drawn req)) :
    RequestAdmitted rid' s ∨ rid' = rid := by
  rcases receive_spec env s rid clk now requestId drawn req with ⟨a, ha, -⟩ | ⟨p, hp, -⟩
  · rcases h with ⟨r, hr⟩ | ⟨p, hp, hstage⟩
    · exact (ha.mem_or hr).imp (fun hr => .inl ⟨r, hr⟩) fun hrid => hrid.1
    · exact .inl (.inr ⟨p, ha.get?_of_get? hp, hstage⟩)
  · exact h.of_goesOn hp

theorem get?_requests_of_receive
    (h : Dict.get? (receiveWrite env s rid clk now requestId drawn req).requests rid' = some p) :
    s.requests.get? rid' = some p ∨
      rid' = rid ∧ prepareWrite env.cfg env.lib req = .ok p.write := by
  rcases receive_spec env s rid clk now requestId drawn req with ⟨a, ha, -⟩ | ⟨p', hp', hprepare, -⟩
  · exact .inl (ha.get?_of_get? h)
  · rcases hp'.get?_or h with ⟨rfl, rfl⟩ | h
    · exact .inr ⟨rfl, hprepare⟩
    · exact .inl h

theorem Arriving.of_step (hop : op.request? = none) (h : Arriving name rid p (writeStep env s op)) :
    Arriving name rid p s := by
  obtain ⟨hp, hfresh, htarget⟩ := h
  refine ⟨?_, hfresh, htarget⟩
  cases handlerChange env s op with
  | same hrequests => rwa [hrequests] at hp
  | rejected | duplicate | received => cases hop
  | failed _ h | completed h => exact h.get?_of_get? hp
  | admitted h _ _ _ hstage =>
    rcases h.get?_or hp with ⟨-, rfl⟩ | hp
    · exact absurd hfresh hstage.2
    · exact hp
  | moved h _ _ hstage =>
    rcases h.get?_or hp with ⟨-, rfl⟩ | hp
    · rcases hstage with ⟨-, hstage⟩ | ⟨-, -, -, hstage⟩
      · rw [hfresh] at hstage
        cases hstage
      · exact absurd hfresh hstage
    · exact hp

theorem exists_request_of_step (hop : op.request? = none)
    (hp : Dict.get? (writeStep env s op).requests rid = some p) :
    ∃ p', s.requests.get? rid = some p' := by
  cases handlerChange env s op with
  | same hrequests => exact ⟨p, hrequests ▸ hp⟩
  | rejected | duplicate | received => cases hop
  | failed _ h | completed h => exact ⟨p, h.get?_of_get? hp⟩
  | admitted h hp' | moved h hp' =>
    rcases h.get?_or hp with ⟨rfl, -⟩ | hp
    · exact ⟨_, hp'⟩
    · exact ⟨p, hp⟩

/-! ### Contents -/

theorem destined_congr (hqueue : s'.queue = s.queue) (hheld : s'.held = s.held) :
    Destined name c s' ↔ Destined name c s := by
  rw [Destined, Destined, hqueue, hheld]

theorem destined_put (hqueue : s'.queue = s.queue.put item) (hheld : s'.held = s.held) :
    Destined name c s' ↔ Destined name c s ∨ item.target = name ∧ c = item.content := by
  simp only [Destined, hqueue, hheld, BankQueue.items_put, mem_append, mem_singleton]
  constructor
  · rintro ⟨i, htarget, hcontent, (hi | rfl) | hi⟩
    · exact .inl ⟨i, htarget, hcontent, .inl hi⟩
    · exact .inr ⟨htarget, hcontent.symm⟩
    · exact .inl ⟨i, htarget, hcontent, .inr hi⟩
  · rintro (⟨i, htarget, hcontent, hi | hi⟩ | ⟨htarget, rfl⟩)
    · exact ⟨i, htarget, hcontent, .inl (.inl hi)⟩
    · exact ⟨i, htarget, hcontent, .inr hi⟩
    · exact ⟨item.numbered s.queue.next, htarget, rfl, .inl (.inr rfl)⟩

theorem BankQueue.mem_foldl_put {q : BankQueue} (h : item ∈ q.items)
    (items : List BankItem) : item ∈ (items.foldl BankQueue.put q).items := by
  induction items generalizing q with
  | nil => exact h
  | cons i items ih => exact ih (by simp [h])

theorem Destined.foldl_put (h : Destined name c s) (items : List BankItem)
    (hqueue : s'.queue = items.foldl BankQueue.put s.queue) (hheld : s'.held = s.held) :
    Destined name c s' := by
  obtain ⟨item, htarget, hcontent, hitem | hitem⟩ := h
  · refine ⟨item, htarget, hcontent, .inl ?_⟩
    rw [hqueue]
    exact BankQueue.mem_foldl_put hitem items
  · refine ⟨item, htarget, hcontent, .inr ?_⟩
    rwa [hheld]

theorem destined_take {rest : List BankItem}
    (hidle : s.held.get? worker = none) (hqueue : s.queue.items = item :: rest)
    (hqueue' : s'.queue = s.queue.tail) (hheld' : s'.held = s.held.set worker ⟨item, false⟩) :
    Destined name c s' ↔ Destined name c s := by
  have htail : s.queue.tail.items = rest := by rw [BankQueue.items_tail, hqueue, tail_cons]
  simp only [Destined, hqueue', hheld', htail, hqueue, mem_cons]
  constructor
  · rintro ⟨i, htarget, hcontent, hi | ⟨w, hw⟩⟩
    · exact ⟨i, htarget, hcontent, .inl (.inr hi)⟩
    · rcases Dict.get?_set_eq_some.mp hw with ⟨-, ⟨⟩⟩ | ⟨-, hw⟩
      · exact ⟨_, htarget, hcontent, .inl (.inl rfl)⟩
      · exact ⟨i, htarget, hcontent, .inr ⟨w, hw⟩⟩
  · rintro ⟨i, htarget, hcontent, (rfl | hi) | ⟨w, hw⟩⟩
    · exact ⟨i, htarget, hcontent, .inr ⟨worker, Dict.get?_set ..⟩⟩
    · exact ⟨i, htarget, hcontent, .inl hi⟩
    · have hne : w ≠ worker := by
        rintro rfl
        cases hidle.symm.trans hw
      exact ⟨i, htarget, hcontent, .inr ⟨w, (Dict.get?_set_of_ne hne _).trans hw⟩⟩

structure Released (s : WriteState) (worker : ℕ) (s' : WriteState) : Prop where
  queue : s'.queue = s.queue
  held : ∀ w item, s'.held.get? w = some ⟨item, false⟩ ↔
    w ≠ worker ∧ s.held.get? w = some ⟨item, false⟩

theorem Released.destined_of (h : Released s worker s') (hc : Destined name c s') :
    Destined name c s := by
  obtain ⟨item, htarget, hcontent, hitem | ⟨w, hw⟩⟩ := hc
  · exact ⟨item, htarget, hcontent, .inl (h.queue ▸ hitem)⟩
  · exact ⟨item, htarget, hcontent, .inr ⟨w, ((h.held w item).mp hw).2⟩⟩

theorem Released.destined_iff {job : BankJob} (h : Released s worker s')
    (hheld : s.held.get? worker = some job)
    (hjob : job.stored = true ∨ job.item.target ≠ name) :
    Destined name c s' ↔ Destined name c s := by
  refine ⟨h.destined_of, ?_⟩
  rintro ⟨item, htarget, hcontent, hitem | ⟨w, hw⟩⟩
  · exact ⟨item, htarget, hcontent, .inl (h.queue ▸ hitem)⟩
  · refine ⟨item, htarget, hcontent, .inr ⟨w, (h.held w item).mpr ⟨?_, hw⟩⟩⟩
    rintro rfl
    cases hheld.symm.trans hw
    rcases hjob with hjob | hjob
    · cases hjob
    · exact hjob htarget

theorem released_erase (hqueue : s'.queue = s.queue)
    (hheld : s'.held = s.held.erase worker) : Released s worker s' where
  queue := hqueue
  held w item := by rw [hheld, Dict.get?_erase_eq_some]

theorem released_stored (hqueue : s'.queue = s.queue)
    (hheld : s'.held = s.held.set worker ⟨item, true⟩) : Released s worker s' where
  queue := hqueue
  held w i := by
    rw [hheld, Dict.get?_set_eq_some]
    refine or_iff_right ?_
    rintro ⟨-, h⟩
    cases h

/-! ### Steps -/

theorem FileStep.refl (s : WriteState) : FileStep env name s s :=
  .kept rfl (fun _ => Iff.rfl) fun _ h => h

theorem fileStep_worker (hop : op.isWorker = true) (hsteady : Steady env name s op) :
    FileStep env name s (writeStep env s op) := by
  cases op with
  | take worker =>
    simp only [writeStep, takeItem]
    split
    · exact .kept rfl (fun c => destined_take ‹_› ‹_› rfl rfl) fun _ h => h
    · exact .refl s
  | store worker =>
    simp only [writeStep, storeItem]
    split
    · rename_i item hheld
      by_cases htarget : item.target = name
      · refine .stored item.content ⟨item, htarget, rfl, .inr ⟨worker, hheld⟩⟩ ?_
          (fun c hc => ?_) fun _ h => h
        · rw [← htarget]
          exact Dict.get?_set ..
        · refine @Released.destined_of name c s _ worker ?_ hc
          exact released_stored rfl rfl
      · refine .kept (Dict.get?_set_of_ne (Ne.symm htarget) _)
          (fun c => Released.destined_iff ?_ hheld (.inr htarget)) fun _ h => h
        exact released_stored rfl rfl
    · exact .refl s
  | publish worker clk drawn gate =>
    simp only [writeStep, publishItem]
    split
    · rename_i item hheld
      refine .kept rfl (fun c => Released.destined_iff ?_ hheld (.inl rfl)) fun _ h => h
      exact released_erase rfl rfl
    · exact .refl s
  | fail worker error =>
    simp only [writeStep, failItem]
    split
    · rename_i job hheld
      have hjob : job.stored = true ∨ job.item.target ≠ name := by
        obtain ⟨item, stored⟩ := job
        cases stored with
        | true => exact .inl rfl
        | false => exact .inr (hsteady item hheld)
      refine .kept rfl (fun c => Released.destined_iff ?_ hheld hjob) fun _ h => h
      exact released_erase rfl rfl
    · exact .refl s
  | receive | rawStored | seeded | finish | flush | fanout => cases hop

theorem fileStep_admit (hp : s.requests.get? rid = some p) (hfresh : p.stage = .fresh)
    (clk : Clock) (mongo : Option String) (gate : LettaGate) :
    FileStep env name s (admitWrite env s rid p clk mongo gate) := by
  have hgone {q : PendingWrite} {s' : WriteState} (h : GoesOn s rid q s') (hq : q.stage ≠ .fresh)
      (p' : PendingWrite) : ¬ Arriving name rid p' s' := by
    rintro ⟨hp', hfresh', -⟩
    rw [h.requests, Dict.get?_set] at hp'
    exact hq (Option.some.inj hp' ▸ hfresh')
  have hfailed (e : HttpError) : FileStep env name s (s.answer rid (.error e)) :=
    .kept rfl (fun _ => Iff.rfl) fun rid' h => h.of_failed ⟨rfl, rfl⟩
  unfold admitWrite
  dsimp only
  split
  · rename_i hmode
    split
    · exact hfailed _
    · refine .admitted rid p hp hfresh (hgone ⟨rfl, rfl⟩ ?_) rfl (fun h => ?_)
        (fun _ c => destined_congr rfl rfl) fun rid' h => h.of_goesOn ⟨rfl, rfl⟩
      · dsimp only
        split <;> simp
      · rw [hmode] at h
        cases h
  · split
    · exact hfailed _
    · rename_i q hput
      refine .admitted rid p hp hfresh (hgone ⟨rfl, rfl⟩ ?_) rfl (fun _ c => ?_)
        (fun hother c => ?_) fun rid' h => h.of_goesOn ⟨rfl, rfl⟩
      · dsimp only
        repeat' split
        all_goals simp
      · refine Iff.trans (@destined_put name c s _ (writeItem env rid p mongo gate) ?_ rfl) Iff.rfl
        exact enqueueMemoryBankWrite_eq_ok hput
      · refine Iff.trans (@destined_put name c s _ (writeItem env rid p mongo gate) ?_ rfl)
          (or_iff_left fun h => hother h.1)
        exact enqueueMemoryBankWrite_eq_ok hput

theorem fileStep (hop : op.request? = none) (hsteady : Steady env name s op) :
    FileStep env name s (writeStep env s op) := by
  have hhandler (h : op.isHandler = true) := handler_cases env s h
  cases op with
  | receive => cases hop
  | rawStored | seeded | finish =>
    rcases hhandler rfl with ⟨hcore, hnot⟩ | ⟨rid, p, clk, mongo, gate, hp, hfresh, heq⟩
    · refine .kept (by rw [hcore.bank]) (fun c => destined_congr hcore.queue hcore.held) ?_
      intro rid h
      rcases h.of_step hop with h | ⟨p, clk, mongo, gate, heq, hp, hfresh⟩
      · exact h
      · exact absurd hfresh (hnot rid p clk mongo gate heq hp)
    · rw [heq]
      exact fileStep_admit hp hfresh clk mongo gate
  | flush clk now force drawn =>
    obtain ⟨items, hitems⟩ := exists_foldl_put_flush env.cfg env.lib clk now force drawn s.rollups
      s.queue
    exact .kept rfl (fun c => ⟨hsteady c, fun h => h.foldl_put items hitems rfl⟩) fun _ h => h
  | take | store | publish | fail => exact fileStep_worker rfl hsteady
  | fanout => exact .kept rfl (fun c => destined_congr rfl rfl) fun _ h => h

end ContextLattice
