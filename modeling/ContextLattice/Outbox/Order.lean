import ContextLattice.Outbox.Accounted

/-!
# The order of deliveries

Events of a file are numbered by `seq`. Nothing is coalesced into a row that is being delivered, so
a failed delivery can come back after a later one. `InOrder` excludes that.
-/

namespace ContextLattice

open Foundation List

variable {π : Type*}

def SameFile (t t' : FanoutTarget) (e e' : FanoutEvent π) : Prop :=
  t = t' ∧ e.project = e'.project ∧ e.file = e'.file

instance (t t' : FanoutTarget) (e e' : FanoutEvent π) : Decidable (SameFile t t' e e') :=
  inferInstanceAs (Decidable (_ ∧ _ ∧ _))

def enqueuedNumber (seq : π → ℕ) : OutboxOp π → Option ℕ
  | .enqueue _ _ _ event _ => some (seq event.rest)
  | _ => none

def InOrder (cfg : OutboxConfig) (s : OutboxState π) : OutboxOp π → Prop
  | .enqueue clk force drawn event target =>
    coalesceCandidate cfg clk force event target s.outbox = none →
    (force = true ∨ s.outbox.findKey? (dedupeKeyOf (effectiveEventId drawn event) target) = none) →
    ∀ r ∈ s.outbox.rows, SameFile r.target target r.payload event → r.status.outstanding = true →
      r.dedupeKey = dedupeKeyOf (effectiveEventId drawn event) target
  | .deliver w i => ∀ h ∈ s.held, h.isJob w i = true →
    ∃ r ∈ s.outbox.rows, r.id = i ∧ r.status = .running ∧ r.payload = h.job.payload
  | .markRetry _ w i _ _ => (s.job? w i).isSome →
    ∀ r ∈ s.outbox.rows, r.id = i → r.status.outstanding = true
  | _ => True

instance [DecidableEq π] (cfg : OutboxConfig) (s : OutboxState π) (op : OutboxOp π) :
    Decidable (InOrder cfg s op) :=
  match op with
  | .enqueue .. | .claim .. | .deliver .. | .markSuccess .. | .markRetry .. | .markFailed ..
  | .failLetta .. | .recover .. | .gc .. | .prune .. | .restart .. => by
    unfold InOrder
    infer_instance

structure NumbersLe (seq : π → ℕ) (n : ℕ) (s : OutboxState π) : Prop where
  rows : ∀ r ∈ s.outbox.rows, seq r.payload.rest ≤ n
  held : ∀ h ∈ s.held, seq h.job.payload.rest ≤ n
  delivered : ∀ d ∈ s.delivered, seq d.2.rest ≤ n

structure Ordered (owner : String → String × String) (seq : π → ℕ) (s : OutboxState π) : Prop
    extends HeldSound s where
  owned : RowsOwned owner s
  one : ∀ r ∈ s.outbox.rows, ∀ r' ∈ s.outbox.rows, r.status.outstanding = true →
    r'.status.outstanding = true → SameFile r.target r'.target r.payload r'.payload → r = r'
  newest : ∀ r ∈ s.outbox.rows, r.status.outstanding = true → ∀ d ∈ s.delivered,
    SameFile d.1 r.target d.2 r.payload → seq d.2.rest ≤ seq r.payload.rest
  sorted : s.delivered.Pairwise fun d d' =>
    SameFile d.1 d'.1 d.2 d'.2 → seq d.2.rest ≤ seq d'.2.rest

variable {owner : String → String × String} {cfg : OutboxConfig} {seq : π → ℕ}
  {s : OutboxState π} {op : OutboxOp π} {r r' : OutboxRow π} {n : ℕ}

theorem delivered_step (hop : ∀ w i, op ≠ .deliver w i) :
    (outboxStep cfg s op).delivered = s.delivered := by
  cases op with
  | deliver w i => exact absurd rfl (hop w i)
  | _ => simp only [outboxStep, OutboxState.delete] <;> (repeat' split) <;> rfl

theorem JobChange.payload_cases (seq : π → ℕ) (h : JobChange cfg s op r r') :
    r'.payload = r.payload ∨ enqueuedNumber seq op = some (seq r'.payload.rest) := by
  cases h with
  | coalesced | requeued => exact .inr rfl
  | _ => exact .inl rfl

theorem Inserts.number (seq : π → ℕ) (h : Inserts cfg s op r) :
    enqueuedNumber seq op = some (seq r.payload.rest) := by
  cases h
  rfl

theorem NumbersLe.step {m : ℕ} (hs : NumbersLe seq n s) (hnm : n ≤ m)
    (hnum : ∀ k ∈ enqueuedNumber seq op, k ≤ m) : NumbersLe seq m (outboxStep cfg s op) := by
  have hrows : ∀ r' ∈ (outboxStep cfg s op).outbox.rows, seq r'.payload.rest ≤ m := by
    intro r' hr'
    rcases exists_change_of_mem hr' with ⟨r, hr, hchange⟩ | hinserts
    · rcases hchange.payload_cases seq with hsame | hnew
      · rw [hsame]
        exact (hs.rows r hr).trans hnm
      · exact hnum _ hnew
    · exact hnum _ (hinserts.number seq)
  refine ⟨hrows, fun h hh => ?_, fun d hd => ?_⟩
  · rcases held_of_mem hh with ⟨h₀, hh₀, hjob, -⟩ | ⟨hmem, -⟩
    · rw [hjob]
      exact (hs.held h₀ hh₀).trans hnm
    · exact hrows _ hmem
  · by_cases hop : ∃ w i, op = .deliver w i
    · obtain ⟨w, i, rfl⟩ := hop
      rcases mem_append.mp hd with hd | hd
      · exact (hs.delivered d hd).trans hnm
      · obtain ⟨h, hh, rfl⟩ := mem_map.mp hd
        exact (hs.held h (mem_of_mem_filter hh)).trans hnm
    · rw [delivered_step fun w i h => hop ⟨w, i, h⟩] at hd
      exact (hs.delivered d hd).trans hnm

theorem JobChange.outstanding_cases (h : JobChange cfg s op r r') (hop : InOrder cfg s op)
    (hr : r ∈ s.outbox.rows) (hr' : r'.status.outstanding = true) :
    r.status.outstanding = true ∨
      ∃ clk drawn event target, op = .enqueue clk true drawn event target ∧
        s.outbox.findKey? (dedupeKeyOf (effectiveEventId drawn event) target) = some r ∧
        r'.payload = event := by
  cases h with
  | same | coalesced => exact .inl hr'
  | requeued h => exact .inr ⟨_, _, _, _, rfl, h, rfl⟩
  | claimed h => exact .inl (JobStatus.outstanding_of_waiting h)
  | retried h => exact .inl (hop (by simp [h]) r hr rfl)
  | recovered h => exact .inl (by rw [h]; rfl)
  | succeeded | failed | lettaFailed => cases hr'

theorem JobChange.file_eq (h : JobChange cfg s op r r') (hr : RowOwned owner r)
    (hr' : RowOwned owner r') : SameFile r.target r'.target r.payload r'.payload := by
  have hident := h.ident
  have hfile : (r'.project, r'.file) = (r.project, r.file) :=
    congrArg (fun i => (i.project, i.file)) hident
  have hpayload := (hr.payload.trans hfile.symm).trans hr'.payload.symm
  exact ⟨(congrArg RowIdent.target hident).symm, (Prod.ext_iff.mp hpayload).1,
    (Prod.ext_iff.mp hpayload).2⟩

theorem SameFile.symm {t t' : FanoutTarget} {e e' : FanoutEvent π} (h : SameFile t t' e e') :
    SameFile t' t e' e := ⟨h.1.symm, h.2.1.symm, h.2.2.symm⟩

theorem SameFile.trans {t t' t'' : FanoutTarget} {e e' e'' : FanoutEvent π}
    (h : SameFile t t' e e') (h' : SameFile t' t'' e' e'') : SameFile t t'' e e'' :=
  ⟨h.1.trans h'.1, h.2.1.trans h'.2.1, h.2.2.trans h'.2.2⟩

private theorem eq_of_outstanding {r₁ r₂ r₁' r₂' : OutboxRow π} (hs : Ordered owner seq s)
    (howned : Owned owner op) (hop : InOrder cfg s op) (h₁ : r₁ ∈ s.outbox.rows)
    (h₂ : r₂ ∈ s.outbox.rows) (c₁ : JobChange cfg s op r₁ r₁') (c₂ : JobChange cfg s op r₂ r₂')
    (ho₁ : r₁'.status.outstanding = true) (ho₂ : r₂'.status.outstanding = true)
    (hsame : SameFile r₁.target r₂.target r₁.payload r₂.payload) : r₁ = r₂ := by
  -- a forced requeue that opens one of the two rows finds the other one closed
  have hforced : ∀ {ra rb : OutboxRow π} {clk drawn event target},
      op = .enqueue clk true drawn event target → ra ∈ s.outbox.rows → rb ∈ s.outbox.rows →
      s.outbox.findKey? (dedupeKeyOf (effectiveEventId drawn event) target) = some ra →
      rb.status.outstanding = true → SameFile rb.target ra.target rb.payload ra.payload →
      rb = ra := by
    rintro ra rb clk drawn event target rfl ha hb hkey hout hfile
    have hra : SameFile ra.target target ra.payload event := by
      obtain ⟨-, hid, ht⟩ := eventId_of_findKey? hkey
      have hfile : (ra.payload.project, ra.payload.file) = (event.project, event.file) := by
        rw [(hs.owned ra ha).payload, ← (hs.owned ra ha).id, hid]
        exact howned
      exact ⟨ht, (Prod.ext_iff.mp hfile).1, (Prod.ext_iff.mp hfile).2⟩
    have hkeyed := hop (by simp [coalesceCandidate]) (.inl rfl) rb hb (hfile.trans hra) hout
    exact inj_on_of_nodup_map s.outbox.unique hb ha
      (hkeyed.trans (Outbox.findKey?_eq_some hkey).2.symm)
  rcases c₁.outstanding_cases hop h₁ ho₁ with hout₁ | ⟨clk, drawn, event, target, rfl, hkey₁, -⟩
  · rcases c₂.outstanding_cases hop h₂ ho₂ with hout₂ | ⟨clk, drawn, event, target, rfl, hkey₂, -⟩
    · exact hs.one r₁ h₁ r₂ h₂ hout₁ hout₂ hsame
    · exact hforced rfl h₂ h₁ hkey₂ hout₁ hsame
  · rcases c₂.outstanding_cases hop h₂ ho₂ with hout₂ | ⟨_, _, _, _, heq, hkey₂, -⟩
    · exact (hforced rfl h₁ h₂ hkey₁ hout₂ hsame.symm).symm
    · cases heq
      exact Option.some.inj (hkey₁.symm.trans hkey₂)

private theorem not_outstanding_of_inserts {r₁' r₂' : OutboxRow π} (hop : InOrder cfg s op)
    (hrows : RowsOwned owner s) (howned : Owned owner op) (h₁ : Inserts cfg s op r₁')
    (h₂ : r ∈ s.outbox.rows) (c₂ : JobChange cfg s op r r₂') (ho₂ : r₂'.status.outstanding = true)
    (hsame : SameFile r₂'.target r₁'.target r₂'.payload r₁'.payload) : False := by
  have hfile := c₂.file_eq (hrows r h₂) ((hrows r h₂).change howned c₂)
  cases h₁ with
  | mk hcandidate hkey =>
    rcases c₂.outstanding_cases hop h₂ ho₂ with hout | ⟨_, _, _, _, heq, hkey', -⟩
    · have hkeyed := hop hcandidate (.inr hkey) r h₂ (hfile.trans hsame) hout
      rw [Outbox.findKey?, List.find?_eq_none] at hkey
      exact hkey r h₂ (by simpa using hkeyed)
    · cases heq
      rw [hkey] at hkey'
      cases hkey'

theorem Ordered.one_step (hs : Ordered owner seq s) (howned : Owned owner op)
    (hop : InOrder cfg s op) :
    ∀ r ∈ (outboxStep cfg s op).outbox.rows, ∀ r' ∈ (outboxStep cfg s op).outbox.rows,
      r.status.outstanding = true → r'.status.outstanding = true →
        SameFile r.target r'.target r.payload r'.payload → r = r' := by
  intro r₁' h₁' r₂' h₂' ho₁ ho₂ hsame
  -- each of the two rows was there before the step, or is the one it inserts
  rcases exists_change_of_mem h₁' with ⟨r₁, h₁, c₁⟩ | hins₁
  · rcases exists_change_of_mem h₂' with ⟨r₂, h₂, c₂⟩ | hins₂
    · have hf₁ := c₁.file_eq (hs.owned r₁ h₁) ((hs.owned r₁ h₁).change howned c₁)
      have hf₂ := c₂.file_eq (hs.owned r₂ h₂) ((hs.owned r₂ h₂).change howned c₂)
      have heq := eq_of_outstanding hs howned hop h₁ h₂ c₁ c₂ ho₁ ho₂
        ((hf₁.trans hsame).trans hf₂.symm)
      refine Table.eq_of_mem_of_key h₁' h₂' ?_
      rw [congrArg RowIdent.id c₁.ident, congrArg RowIdent.id c₂.ident, heq]
    · exact (not_outstanding_of_inserts hop hs.owned howned hins₂ h₁ c₁ ho₁ hsame).elim
  · rcases exists_change_of_mem h₂' with ⟨r₂, h₂, c₂⟩ | hins₂
    · exact (not_outstanding_of_inserts hop hs.owned howned hins₁ h₂ c₂ ho₂ hsame.symm).elim
    · cases hins₁
      cases hins₂
      rfl

private theorem exists_row_of_pushed {w i : ℕ} (hs : HeldSound s)
    (hop : InOrder cfg s (.deliver w i)) {h : HeldJob π} (hh : h ∈ s.held)
    (hjob : h.isJob w i = true) :
    ∃ r ∈ s.outbox.rows, r.id = i ∧ r.status.outstanding = true ∧ r.target = h.job.target ∧
      r.payload = h.job.payload := by
  obtain ⟨r, hr, hid, hrunning, hpayload⟩ := hop h hh hjob
  have hid' : r.id = h.job.id := by
    simp only [HeldJob.isJob, decide_eq_true_eq] at hjob
    rw [hid, hjob.2]
  exact ⟨r, hr, hid, by rw [hrunning]; rfl, congrArg RowIdent.target (hs.ident h hh r hr hid'),
    hpayload⟩

theorem Ordered.newest_step (hs : Ordered owner seq s) (hle : NumbersLe seq n s)
    (hnum : ∀ k ∈ enqueuedNumber seq op, n ≤ k) (howned : Owned owner op)
    (hop : InOrder cfg s op) :
    ∀ r ∈ (outboxStep cfg s op).outbox.rows, r.status.outstanding = true →
      ∀ d ∈ (outboxStep cfg s op).delivered,
        SameFile d.1 r.target d.2 r.payload → seq d.2.rest ≤ seq r.payload.rest := by
  intro r' hr' hout' d hd hsame
  by_cases hpush : ∃ w i, op = .deliver w i
  · obtain ⟨w, i, rfl⟩ := hpush
    rcases mem_append.mp hd with hd | hd
    · exact hs.newest r' hr' hout' d hd hsame
    · -- the payload pushed is that of the only outstanding row of the file
      obtain ⟨h, hh, rfl⟩ := mem_map.mp hd
      obtain ⟨hh, hjob⟩ := mem_filter.mp hh
      obtain ⟨r, hr, -, hout, ht, hpayload⟩ := exists_row_of_pushed hs.toHeldSound hop hh hjob
      rw [← ht, ← hpayload] at hsame
      rw [← hpayload, hs.one r hr r' hr' hout hout' hsame]
  · rw [delivered_step fun w i h => hpush ⟨w, i, h⟩] at hd
    -- an event enqueued by this step is no older than anything in the state
    have hnew : enqueuedNumber seq op = some (seq r'.payload.rest) →
        seq d.2.rest ≤ seq r'.payload.rest := fun h => (hle.delivered d hd).trans (hnum _ h)
    rcases exists_change_of_mem hr' with ⟨r, hr, hchange⟩ | hinserts
    · rcases hchange.outstanding_cases hop hr hout' with hout | ⟨_, _, _, _, rfl, -, hevent⟩
      · rcases hchange.payload_cases seq with heq | hnumber
        · have hfile := hchange.file_eq (hs.owned r hr) ((hs.owned r hr).change howned hchange)
          rw [heq]
          exact hs.newest r hr hout d hd (hsame.trans hfile.symm)
        · exact hnew hnumber
      · exact hnew (by rw [hevent]; rfl)
    · exact hnew (hinserts.number seq)

theorem Ordered.sorted_step (hs : Ordered owner seq s) (hop : InOrder cfg s op) :
    (outboxStep cfg s op).delivered.Pairwise fun d d' =>
      SameFile d.1 d'.1 d.2 d'.2 → seq d.2.rest ≤ seq d'.2.rest := by
  by_cases hpush : ∃ w i, op = .deliver w i
  · obtain ⟨w, i, rfl⟩ := hpush
    refine pairwise_append.mpr ⟨hs.sorted, pairwise_of_forall_mem_list ?_, ?_⟩
    · -- two jobs pushed together are of one row
      intro d hd d' hd' _
      obtain ⟨h, hh, rfl⟩ := mem_map.mp hd
      obtain ⟨h', hh', rfl⟩ := mem_map.mp hd'
      obtain ⟨hh, hjob⟩ := mem_filter.mp hh
      obtain ⟨hh', hjob'⟩ := mem_filter.mp hh'
      obtain ⟨r, hr, hid, -, -, hpayload⟩ := exists_row_of_pushed hs.toHeldSound hop hh hjob
      obtain ⟨r', hr', hid', -, -, hpayload'⟩ := exists_row_of_pushed hs.toHeldSound hop hh' hjob'
      rw [← hpayload, ← hpayload', Table.eq_of_mem_of_key hr hr' (hid.trans hid'.symm)]
    · -- the row of a job that is pushed is no older than what was delivered
      intro d hd d' hd' hsame
      obtain ⟨h, hh, rfl⟩ := mem_map.mp hd'
      obtain ⟨hh, hjob⟩ := mem_filter.mp hh
      obtain ⟨r, hr, -, hout, ht, hpayload⟩ := exists_row_of_pushed hs.toHeldSound hop hh hjob
      rw [← hpayload]
      exact hs.newest r hr hout d hd (by rw [ht, hpayload]; exact hsame)
  · rw [delivered_step fun w i h => hpush ⟨w, i, h⟩]
    exact hs.sorted

theorem Ordered.step (hs : Ordered owner seq s) (hle : NumbersLe seq n s)
    (hnum : ∀ k ∈ enqueuedNumber seq op, n ≤ k) (howned : Owned owner op)
    (hop : InOrder cfg s op) : Ordered owner seq (outboxStep cfg s op) where
  toHeldSound := hs.toHeldSound.step op
  owned := hs.owned.step howned
  one := hs.one_step howned hop
  newest := hs.newest_step hle hnum howned hop
  sorted := hs.sorted_step hop

theorem Ordered.empty : Ordered owner seq (.empty : OutboxState π) where
  toHeldSound := .empty
  owned := fun _ h => (not_mem_nil h).elim
  one := fun _ h => (not_mem_nil h).elim
  newest := fun _ h => (not_mem_nil h).elim
  sorted := .nil

theorem NumbersLe.empty : NumbersLe seq 0 (.empty : OutboxState π) where
  rows := fun _ h => (not_mem_nil h).elim
  held := fun _ h => (not_mem_nil h).elim
  delivered := fun _ h => (not_mem_nil h).elim

theorem Ordered.run {ops : List (OutboxOp π)} (hs : Ordered owner seq s) (hle : NumbersLe seq n s)
    (hnums : (n :: ops.filterMap (enqueuedNumber seq)).Pairwise (· ≤ ·))
    (hops : Along (outboxStep cfg) (fun s op => InOrder cfg s op ∧ Owned owner op) s ops) :
    Ordered owner seq (run (outboxStep cfg) s ops) := by
  induction ops generalizing s n with
  | nil => exact hs
  | cons op ops ih =>
    obtain ⟨⟨hop, howned⟩, hops⟩ := along_cons.mp hops
    -- the number of an event enqueued here is the next bound
    cases hnum : enqueuedNumber seq op with
    | none =>
      rw [filterMap_cons_none hnum] at hnums
      refine ih (hs.step hle (by simp [hnum]) howned hop) (hle.step le_rfl (by simp [hnum]))
        hnums hops
    | some k =>
      rw [filterMap_cons_some hnum, pairwise_cons] at hnums
      have hnk : n ≤ k := hnums.1 k mem_cons_self
      refine ih (hs.step hle ?_ howned hop) (hle.step hnk ?_) hnums.2 hops
      · simpa [hnum] using hnk
      · simp [hnum]

/-- **Deliveries in order.** Along every run of steps in order a target gets the payloads of a file
in the order of their events. -/
theorem delivered_in_order {ops : List (OutboxOp π)}
    (hops : Along (outboxStep cfg) (fun s op => InOrder cfg s op ∧ Owned owner op) .empty ops)
    (hnums : (ops.filterMap (enqueuedNumber seq)).Pairwise (· ≤ ·)) :
    (run (outboxStep cfg) .empty ops).delivered.Pairwise fun d d' =>
      SameFile d.1 d'.1 d.2 d'.2 → seq d.2.rest ≤ seq d'.2.rest := by
  refine (Ordered.empty.run .empty ?_ hops).sorted
  exact pairwise_cons.mpr ⟨fun k _ => Nat.zero_le k, hnums⟩

/-! ### A retry that overtakes nothing -/

def numberedEvent (eventId : String) (k : ℕ) : FanoutEvent ℕ :=
  ⟨eventId, "docs", "a.md", eventId, "", [], k⟩

def retriedInOrder : List (OutboxOp ℕ) :=
  [.enqueue tick false "" (numberedEvent "e1" 1) .qdrant, .claim tick 0 24 none none,
    .deliver 0 1, .markSuccess tick 0 1,
    .enqueue tick false "" (numberedEvent "e2" 2) .qdrant, .claim tick 0 24 none none,
    .markRetry tick 0 2 0 "timeout",
    .enqueue tick false "" (numberedEvent "e3" 3) .qdrant, .claim tick 0 24 none none,
    .deliver 0 2, .markSuccess tick 0 2]

theorem delivered_in_order_retried :
    let s := run (outboxStep .default) .empty retriedInOrder
    s.delivered.map (fun d => d.2.rest) = [1, 3] ∧
      s.delivered.Pairwise fun d d' => SameFile d.1 d'.1 d.2 d'.2 → d.2.rest ≤ d'.2.rest := by
  have hops : Along (outboxStep .default)
      (fun s op => InOrder .default s op ∧ Owned (fun _ => ("docs", "a.md")) op) .empty
      retriedInOrder := by decide
  have hnums : (retriedInOrder.filterMap (enqueuedNumber id)).Pairwise (· ≤ ·) := by decide
  exact ⟨by decide, delivered_in_order hops hnums⟩

def retriedLate : List (OutboxOp ℕ) :=
  [.enqueue tick false "" (numberedEvent "e1" 1) .qdrant, .claim tick 0 24 none none,
    .enqueue tick false "" (numberedEvent "e2" 2) .qdrant, .claim tick 1 24 none none,
    .deliver 1 2, .markSuccess tick 1 2,
    .markRetry tick 0 1 0 "timeout", .claim tick 0 24 none none,
    .deliver 0 1, .markSuccess tick 0 1]

/-- The target gets the payload of the second event, and after it that of the first. -/
theorem later_then_earlier :
    let s := run (outboxStep .default) .empty retriedLate
    (retriedLate.filterMap (enqueuedNumber id)).Pairwise (· < ·) ∧
      s.delivered.map (fun d => d.2.rest) = [2, 1] ∧
      ¬ s.delivered.Pairwise fun d d' => SameFile d.1 d'.1 d.2 d'.2 → d.2.rest ≤ d'.2.rest := by
  decide

end ContextLattice
