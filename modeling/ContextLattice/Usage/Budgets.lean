import Mathlib.Algebra.Order.BigOperators.Group.List
import Mathlib.Algebra.Order.Ring.Rat
import ContextLattice.Foundation.Search
import ContextLattice.Billing.Entitlements

/-!
# Usage budgets

Two routes **check** that the tokens of the month and those of the request do not exceed the limit,
and later **record** the event. The steps are the single accesses to the database.
-/

namespace ContextLattice.Usage

open Foundation Billing List

/-! ### Events and budgets -/

structure UsageEvent where
  workspaceId : String
  userId : Option String
  tokens : Option ℤ
  costUsd : Option ℚ
  createdAt : ℕ
deriving DecidableEq, Repr

structure UsageBudget where
  tokenLimit : Option ℤ
  costLimitUsd : Option ℚ

structure Ticket where
  workspaceId : String
  userId : Option String
  tokens : Option ℚ
  costUsd : Option ℚ

structure Calendar where
  startOfMonth : ℕ → ℕ
  startOfMonth_le : ∀ now, startOfMonth now ≤ now
  startOfMonth_mono : Monotone startOfMonth

structure UsageConfig where
  calendar : Calendar
  getActiveBudget : String → Option UsageBudget
  enforceBudgets : Bool := true
  plan : PlanConfig := {}
  db : Database
  workspaces : Dict String String
  trim : String → String

structure UsageState where
  now : ℕ
  events : List UsageEvent := []
  inflight : List Ticket := []

def counts (cfg : UsageConfig) (now : ℕ) (workspaceId : String) (e : UsageEvent) : Bool :=
  decide (e.workspaceId = workspaceId ∧ cfg.calendar.startOfMonth now ≤ e.createdAt)

def monthTokens (cfg : UsageConfig) (s : UsageState) (workspaceId : String) : ℤ :=
  ((s.events.filter (counts cfg s.now workspaceId)).map fun e => e.tokens.getD 0).sum

def monthCost (cfg : UsageConfig) (s : UsageState) (workspaceId : String) : ℚ :=
  ((s.events.filter (counts cfg s.now workspaceId)).map fun e => e.costUsd.getD 0).sum

def exceeded (limit : Option ℚ) (projected : ℚ) : Bool :=
  limit.any fun l => decide (l ≠ 0 ∧ l < projected)

def checkUsageLimits (cfg : UsageConfig) (s : UsageState) (workspaceId : String)
    (tokens costUsd : Option ℚ) : Option String :=
  match cfg.getActiveBudget workspaceId with
  | none => none
  | some budget =>
    let projectedTokens := monthTokens cfg s workspaceId + tokens.getD 0
    let projectedCost := monthCost cfg s workspaceId + costUsd.getD 0
    if exceeded (budget.tokenLimit.map (↑)) projectedTokens then some "Token budget exceeded"
    else if exceeded budget.costLimitUsd projectedCost then some "Cost budget exceeded"
    else none

def recordUsageEvent (now : ℕ) (t : Ticket) : Option UsageEvent :=
  match t.tokens with
  | none => some ⟨t.workspaceId, t.userId, none, t.costUsd, now⟩
  | some q =>
    if q.den = 1 ∧ -2147483648 ≤ q.num ∧ q.num ≤ 2147483647 then
      some ⟨t.workspaceId, t.userId, some q.num, t.costUsd, now⟩
    else none

/-! ### The routes up to the record -/

abbrev Caller := Except RouteResponse (String × Option String)

structure UsageEventRequest where
  caller : Caller
  billing : BillingStore := {}
  /-- The number in the body; `none` if there is none, or it counts as false, or is not finite. -/
  tokens : Option ℚ
  costUsd : Option ℚ := none

structure MemoryWriteRequest where
  caller : Caller
  billing : BillingStore := {}
  projectName : String
  content : Option String
  projects : Except String (List String) := .ok []

def requireSubscription (cfg : UsageConfig) (billing : BillingStore) (workspaceId : String) :
    Except RouteResponse Unit :=
  match requireActiveSubscription cfg.plan cfg.db cfg.workspaces billing workspaceId with
  | .ok _ => .ok ()
  | .error message => .error ⟨402, some message⟩

def enforceLimits (cfg : UsageConfig) (s : UsageState) (workspaceId : String)
    (tokens costUsd : Option ℚ) : Except RouteResponse Unit :=
  match cfg.enforceBudgets, checkUsageLimits cfg s workspaceId tokens costUsd with
  | true, some reason => .error ⟨402, some reason⟩
  | _, _ => .ok ()

def usageEvents (cfg : UsageConfig) (s : UsageState) (r : UsageEventRequest) :
    Except RouteResponse Ticket := do
  let caller ← r.caller
  requireSubscription cfg r.billing caller.1
  enforceLimits cfg s caller.1 r.tokens r.costUsd
  return ⟨caller.1, caller.2, r.tokens, r.costUsd⟩

def estimateTokensFromText (cfg : UsageConfig) (content : String) : ℕ :=
  (utf16Length (cfg.trim content) + 3) / 4

def enforcePlan (cfg : UsageConfig) (r : MemoryWriteRequest) (workspaceId projectName : String)
    (content : String) : Except RouteResponse Unit :=
  match getWorkspacePlan cfg.plan cfg.db cfg.workspaces r.billing workspaceId with
  | .error _ => .error ⟨500, none⟩
  | .ok plan =>
    match plan.entitlements with
    | none => .error ⟨500, none⟩
    | some entitlements => do
      requireThat (entitlements.maxWriteBytes.all fun max => decide (utf16Length content ≤ max))
        ⟨413, some ("Payload exceeds " ++ toString (entitlements.maxWriteBytes.getD 0) ++
          " bytes for " ++ plan.planId ++ " plan.")⟩
      match entitlements.maxProjects, r.projects with
      | none, _ => return
      | some _, .error message =>
        throw ⟨502, some (if message = "" then "Failed to validate project limits" else message)⟩
      | some max, .ok names =>
        requireThat (decide (projectName ∈ names ∨ names.length < max))
          ⟨402, some ("Project limit reached for " ++ plan.planId ++ " plan.")⟩

def memoryWrite (cfg : UsageConfig) (s : UsageState) (r : MemoryWriteRequest) :
    Except RouteResponse Ticket := do
  let caller ← r.caller
  requireSubscription cfg r.billing caller.1
  let projectName := cfg.trim r.projectName
  requireThat (decide (projectName ≠ "")) ⟨400, some "projectName is required"⟩
  let content := r.content.getD ""
  let tokens : ℚ := estimateTokensFromText cfg content
  enforcePlan cfg r caller.1 projectName content
  enforceLimits cfg s caller.1 (some tokens) none
  return ⟨caller.1, caller.2, some tokens, none⟩

/-! ### Steps -/

inductive UsageOp where
  | usageEvent (r : UsageEventRequest)
  | memoryWrite (r : MemoryWriteRequest)
  | record (k : ℕ)
  | abort (k : ℕ)
  | tick (d : ℕ)

def admitted (cfg : UsageConfig) (s : UsageState) : UsageOp → Option Ticket
  | .usageEvent r => (usageEvents cfg s r).toOption
  | .memoryWrite r => (memoryWrite cfg s r).toOption
  | .record _ | .abort _ | .tick _ => none

def usageStep (cfg : UsageConfig) (s : UsageState) (op : UsageOp) : UsageState :=
  match op with
  | .usageEvent _ | .memoryWrite _ =>
    { s with inflight := s.inflight ++ (admitted cfg s op).toList }
  | .record k =>
    { s with
      inflight := s.inflight.eraseIdx k
      events := s.events ++ ((s.inflight[k]?).bind (recordUsageEvent s.now)).toList }
  | .abort k => { s with inflight := s.inflight.eraseIdx k }
  | .tick d => { s with now := s.now + d }

/-! ### Totals -/

variable {cfg : UsageConfig} {s : UsageState} {w : String} {op : UsageOp} {t : Ticket}

def Ticket.adds (t : Ticket) : ℤ := (recordUsageEvent 0 t).elim 0 fun e => e.tokens.getD 0

def inflightTokens (s : UsageState) (w : String) : ℤ :=
  ((s.inflight.filter fun t => decide (t.workspaceId = w)).map Ticket.adds).sum

variable {now : ℕ}

theorem recordUsageEvent_eq_some {e : UsageEvent} (h : recordUsageEvent now t = some e) :
    e.workspaceId = t.workspaceId ∧ e.createdAt = now ∧ e.tokens.getD 0 = t.adds := by
  obtain ⟨workspaceId, userId, _ | q, costUsd⟩ := t
  · cases h
    exact ⟨rfl, rfl, rfl⟩
  · simp only [recordUsageEvent] at h
    split at h
    · rename_i hq
      cases h
      refine ⟨rfl, rfl, ?_⟩
      simp only [Ticket.adds, recordUsageEvent, if_pos hq, Option.elim_some]
    · cases h

theorem adds_of_recordUsageEvent_eq_none (h : recordUsageEvent now t = none) : t.adds = 0 := by
  obtain ⟨workspaceId, userId, _ | q, costUsd⟩ := t
  · cases h
  · simp only [recordUsageEvent] at h
    split at h
    · cases h
    · rename_i hq
      simp only [Ticket.adds, recordUsageEvent, if_neg hq, Option.elim_none]

theorem enforceLimits_of_admitted (h : admitted cfg s op = some t) :
    enforceLimits cfg s t.workspaceId t.tokens t.costUsd = .ok () := by
  cases op with
  | usageEvent r =>
    obtain ⟨caller, -, h⟩ := bind_eq_ok (toOption_eq_some.mp h)
    obtain ⟨_, -, h⟩ := bind_eq_ok h
    obtain ⟨_, hlimits, h⟩ := bind_eq_ok h
    cases h
    exact hlimits
  | memoryWrite r =>
    obtain ⟨caller, -, h⟩ := bind_eq_ok (toOption_eq_some.mp h)
    obtain ⟨_, -, h⟩ := bind_eq_ok h
    obtain ⟨_, -, h⟩ := bind_eq_ok h
    obtain ⟨_, -, h⟩ := bind_eq_ok h
    obtain ⟨_, hlimits, h⟩ := bind_eq_ok h
    cases h
    exact hlimits
  | record | abort | tick => cases h

theorem adds_eq (t : Ticket) : (t.adds : ℚ) = t.tokens.getD 0 ∨ t.adds = 0 := by
  rw [Ticket.adds, recordUsageEvent]
  rcases t.tokens with _ | q
  · exact .inr rfl
  · dsimp only
    split
    · rename_i hq
      refine .inl ?_
      exact Rat.coe_int_num_of_den_eq_one hq.1
    · exact .inr rfl

variable {k : ℕ}

theorem inflightTokens_eraseIdx (h : s.inflight[k]? = some t) (events : List UsageEvent) :
    inflightTokens ⟨s.now, events, s.inflight.eraseIdx k⟩ w =
      inflightTokens s w - if t.workspaceId = w then t.adds else 0 := by
  obtain ⟨hk, rfl⟩ := List.getElem?_eq_some_iff.mp h
  have hperm := ((getElem_cons_eraseIdx_perm hk).filter
    fun t => decide (t.workspaceId = w)).map Ticket.adds
  have hsum := hperm.sum_eq
  rw [filter_cons] at hsum
  simp only [inflightTokens]
  split at hsum
  · rename_i hw
    rw [if_pos (of_decide_eq_true hw), ← hsum, map_cons, sum_cons, add_sub_cancel_left]
  · rename_i hw
    rw [if_neg fun h => hw (decide_eq_true h), ← hsum, sub_zero]

theorem monthTokens_record (t : Ticket) (inflight : List Ticket) :
    monthTokens cfg ⟨s.now, s.events ++ (recordUsageEvent s.now t).toList, inflight⟩ w =
      monthTokens cfg s w + if t.workspaceId = w then t.adds else 0 := by
  rcases hrecord : recordUsageEvent s.now t with _ | e
  · simp [monthTokens, adds_of_recordUsageEvent_eq_none hrecord]
  · obtain ⟨hworkspace, hcreated, htokens⟩ := recordUsageEvent_eq_some hrecord
    have hcounts : counts cfg s.now w e = decide (t.workspaceId = w) := by
      rw [counts, hworkspace, hcreated]
      simp [cfg.calendar.startOfMonth_le]
    simp only [monthTokens, Option.toList_some, filter_append, map_append,
      sum_append, filter_singleton, hcounts]
    by_cases hw : t.workspaceId = w <;> simp [hw, htokens]

theorem monthTokens_tick (hnonneg : ∀ e ∈ s.events, e.workspaceId = w → 0 ≤ e.tokens.getD 0)
    (d : ℕ) : monthTokens cfg { s with now := s.now + d } w ≤ monthTokens cfg s w := by
  refine List.Sublist.sum_le_sum ((monotone_filter_right _ ?_).map _) ?_
  · intro e he
    have hle := cfg.calendar.startOfMonth_mono (Nat.le_add_right s.now d)
    simp only [counts, decide_eq_true_eq] at he ⊢
    exact ⟨he.1, hle.trans he.2⟩
  · intro n hn
    obtain ⟨e, he, rfl⟩ := mem_map.mp hn
    obtain ⟨hmem, hcounts⟩ := mem_filter.mp he
    exact hnonneg e hmem (of_decide_eq_true hcounts).1

/-! ### When the budget is kept -/

variable {L : ℤ}

/-- A request that passes the check brings no negative number, nothing if the limit is zero, and
leaves room for the requests that are under way. -/
def Fits (cfg : UsageConfig) (w : String) (L : ℤ) (s : UsageState) (op : UsageOp) : Prop :=
  ∀ t, admitted cfg s op = some t → t.workspaceId = w →
    0 ≤ t.adds ∧ (L = 0 → t.adds = 0) ∧
      (inflightTokens s w = 0 ∨ monthTokens cfg s w + inflightTokens s w + t.adds ≤ L)

instance (s : UsageState) (op : UsageOp) : Decidable (Fits cfg w L s op) :=
  decidable_of_iff ((admitted cfg s op).all fun t => decide (t.workspaceId = w →
      0 ≤ t.adds ∧ (L = 0 → t.adds = 0) ∧
        (inflightTokens s w = 0 ∨ monthTokens cfg s w + inflightTokens s w + t.adds ≤ L)))
    (by simp only [Fits, Option.all_eq_true, decide_eq_true_eq])

structure WithinBudget (cfg : UsageConfig) (w : String) (L : ℤ) (s : UsageState) : Prop where
  events_nonneg : ∀ e ∈ s.events, e.workspaceId = w → 0 ≤ e.tokens.getD 0
  inflight_nonneg : ∀ t ∈ s.inflight, t.workspaceId = w → 0 ≤ t.adds
  total_le : monthTokens cfg s w + inflightTokens s w ≤ L

theorem inflightTokens_nonneg (h : ∀ t ∈ s.inflight, t.workspaceId = w → 0 ≤ t.adds) :
    0 ≤ inflightTokens s w := by
  refine sum_nonneg fun n hn => ?_
  obtain ⟨t, ht, rfl⟩ := mem_map.mp hn
  obtain ⟨hmem, hw⟩ := mem_filter.mp ht
  exact h t hmem (of_decide_eq_true hw)

variable {budget : UsageBudget}

section

variable (henforce : cfg.enforceBudgets = true) (hbudget : cfg.getActiveBudget w = some budget)
  (hlimit : budget.tokenLimit = some L) (hs : WithinBudget cfg w L s) (hfits : Fits cfg w L s op)

include henforce hbudget hlimit hs hfits

theorem total_add_adds_le (ht : admitted cfg s op = some t) (hw : t.workspaceId = w) :
    monthTokens cfg s w + inflightTokens s w + t.adds ≤ L := by
  obtain ⟨-, hzero, hroom⟩ := hfits t ht hw
  rcases hroom with halone | hroom
  · rcases adds_eq t with hadds | hadds
    · by_cases hL : L = 0
      · rw [hzero hL, add_zero]
        exact hs.total_le
      · -- nothing is under way, so the check has seen the whole total
        have hok := enforceLimits_of_admitted ht
        have hcheck : (monthTokens cfg s w : ℚ) + t.adds ≤ L := by
          by_contra hlt
          have hexceeded : exceeded (budget.tokenLimit.map (↑))
              ((monthTokens cfg s w : ℚ) + t.adds) = true := by
            simpa [exceeded, hlimit, hL] using hlt
          rw [hadds] at hexceeded
          simp [enforceLimits, checkUsageLimits, henforce, hw, hbudget, hexceeded] at hok
        rw [halone, add_zero]
        exact_mod_cast hcheck
    · rw [hadds, add_zero]
      exact hs.total_le
  · exact hroom

theorem WithinBudget.admit :
    WithinBudget cfg w L { s with inflight := s.inflight ++ (admitted cfg s op).toList } := by
  rcases ht : admitted cfg s op with _ | t
  · rw [Option.toList_none, append_nil]
    exact hs
  · refine ⟨hs.events_nonneg, ?_, ?_⟩
    · intro t' ht' hw
      rcases mem_append.mp ht' with hold | hnew
      · exact hs.inflight_nonneg t' hold hw
      · rw [Option.toList_some, mem_singleton] at hnew
        exact (hfits t' (hnew ▸ ht) hw).1
    · rw [inflightTokens, filter_append, map_append, sum_append, Option.toList_some,
        filter_singleton]
      change monthTokens cfg s w + (inflightTokens s w + _) ≤ L
      by_cases hw : t.workspaceId = w
      · have hle := total_add_adds_le henforce hbudget hlimit hs hfits ht hw
        simpa [hw, add_assoc] using hle
      · simpa [hw] using hs.total_le

end

theorem WithinBudget.finish (hs : WithinBudget cfg w L s) (h : s.inflight[k]? = some t)
    {events : List UsageEvent} (hevents : ∀ e ∈ events, e.workspaceId = w → 0 ≤ e.tokens.getD 0)
    (htotal : monthTokens cfg ⟨s.now, events, s.inflight.eraseIdx k⟩ w ≤
      monthTokens cfg s w + if t.workspaceId = w then t.adds else 0) :
    WithinBudget cfg w L ⟨s.now, events, s.inflight.eraseIdx k⟩ := by
  refine ⟨hevents, fun t' ht' => hs.inflight_nonneg t' (mem_of_mem_eraseIdx ht'), ?_⟩
  rw [inflightTokens_eraseIdx h]
  have hle := hs.total_le
  omega

theorem WithinBudget.step (henforce : cfg.enforceBudgets = true)
    (hbudget : cfg.getActiveBudget w = some budget) (hlimit : budget.tokenLimit = some L)
    (hs : WithinBudget cfg w L s) (hfits : Fits cfg w L s op) :
    WithinBudget cfg w L (usageStep cfg s op) := by
  cases op with
  | usageEvent | memoryWrite => exact hs.admit henforce hbudget hlimit hfits
  | record k =>
    rw [usageStep]
    rcases ht : s.inflight[k]? with _ | t
    · have hlen := List.getElem?_eq_none_iff.mp ht
      rw [eraseIdx_of_length_le hlen, Option.bind_none, Option.toList_none, append_nil]
      exact hs
    · rw [Option.bind_some]
      refine hs.finish ht ?_ (monthTokens_record t _).le
      intro e he hw
      rcases mem_append.mp he with hold | hnew
      · exact hs.events_nonneg e hold hw
      · obtain ⟨hworkspace, -, htokens⟩ := recordUsageEvent_eq_some (Option.mem_toList.mp hnew)
        rw [htokens]
        exact hs.inflight_nonneg t (mem_of_getElem? ht) (hworkspace ▸ hw)
  | abort k =>
    rw [usageStep]
    rcases ht : s.inflight[k]? with _ | t
    · have hlen := List.getElem?_eq_none_iff.mp ht
      rw [eraseIdx_of_length_le hlen]
      exact hs
    · refine hs.finish ht hs.events_nonneg ?_
      change monthTokens cfg s w ≤ _
      split
      · rename_i hw
        have hnonneg := hs.inflight_nonneg t (mem_of_getElem? ht) hw
        omega
      · rw [add_zero]
  | tick d =>
    refine ⟨hs.events_nonneg, hs.inflight_nonneg, ?_⟩
    have hle : monthTokens cfg { s with now := s.now + d } w ≤ monthTokens cfg s w :=
      monthTokens_tick hs.events_nonneg d
    have htotal := hs.total_le
    change monthTokens cfg { s with now := s.now + d } w + inflightTokens s w ≤ L
    omega

theorem WithinBudget.le_record (hs : WithinBudget cfg w L s) (k : ℕ) :
    monthTokens cfg s w ≤ monthTokens cfg (usageStep cfg s (.record k)) w := by
  rw [usageStep]
  rcases ht : s.inflight[k]? with _ | t
  · rw [Option.bind_none, Option.toList_none, append_nil]
    rfl
  · rw [Option.bind_some, monthTokens_record]
    split
    · rename_i hw
      have hnonneg := hs.inflight_nonneg t (mem_of_getElem? ht) hw
      omega
    · rw [add_zero]

/-- **When the budget is kept**: in every run whose admitted requests all fit. -/
theorem budget_kept (cfg : UsageConfig) (w : String) (budget : UsageBudget) (L : ℤ)
    (henforce : cfg.enforceBudgets = true) (hbudget : cfg.getActiveBudget w = some budget)
    (hlimit : budget.tokenLimit = some L) (hL : 0 ≤ L) (now : ℕ) (ops : List UsageOp)
    (hfits : Along (usageStep cfg) (Fits cfg w L) { now := now } ops) :
    ∀ pre post, ops = pre ++ post →
      monthTokens cfg (run (usageStep cfg) { now := now } pre) w ≤ L ∧
        ∀ k, monthTokens cfg (run (usageStep cfg) { now := now } pre) w ≤
          monthTokens cfg (usageStep cfg (run (usageStep cfg) { now := now } pre)
            (.record k)) w := by
  rintro pre post rfl
  have hfresh : WithinBudget cfg w L { now := now } := by
    refine ⟨fun e he => absurd he not_mem_nil, fun t ht => absurd ht not_mem_nil, ?_⟩
    exact hL
  have hs : WithinBudget cfg w L (run (usageStep cfg) { now := now } pre) :=
    (along_append.mp hfits).1.invariant
      (fun s op hs hop => hs.step henforce hbudget hlimit hop) hfresh
  have hnonneg := inflightTokens_nonneg hs.inflight_nonneg
  have htotal := hs.total_le
  exact ⟨by omega, hs.le_record⟩

def limited (limit : ℤ) : UsageConfig where
  calendar := ⟨fun _ => 0, Nat.zero_le, fun _ _ _ => Nat.le_refl 0⟩
  getActiveBudget _ := some ⟨some limit, none⟩
  db := .preferring fun _ => true
  workspaces := Dict.set .empty "ws_1" "u"
  trim s := s

def spend (tokens : ℚ) : UsageOp :=
  .usageEvent { caller := .ok ("ws_1", none), tokens := some tokens }

/-- A usage event, a refused one, a memory write of two tokens and a last event. -/
def sharedMonth : List UsageOp :=
  [spend 60, .record 0, spend 60,
    .memoryWrite ⟨.ok ("ws_1", none), {}, "notes", some "abcdefgh", .ok []⟩, .record 0,
    spend 38, .record 0]

theorem budget_kept_sequence :
    monthTokens (limited 100) (run (usageStep (limited 100)) { now := 0 } sharedMonth) "ws_1" =
        100 ∧
      ∀ pre post, sharedMonth = pre ++ post →
        monthTokens (limited 100) (run (usageStep (limited 100)) { now := 0 } pre) "ws_1" ≤ 100 ∧
          ∀ k, monthTokens (limited 100) (run (usageStep (limited 100)) { now := 0 } pre) "ws_1" ≤
            monthTokens (limited 100)
              (usageStep (limited 100) (run (usageStep (limited 100)) { now := 0 } pre) (.record k))
              "ws_1" :=
  ⟨by decide +kernel, budget_kept (limited 100) "ws_1" ⟨some 100, none⟩ 100 rfl rfl rfl (by decide)
    0 _ (by decide +kernel)⟩

/-- Two requests of 60 tokens check before either records, so 120 of 100 are spent; a request of −50
tokens is accepted; a limit of zero is none. -/
theorem overspent :
    monthTokens (limited 100) (run (usageStep (limited 100)) { now := 0 }
        [spend 60, spend 60, .record 0, .record 0]) "ws_1" = 120 ∧
      monthTokens (limited 100) (run (usageStep (limited 100)) { now := 0 }
        [spend 60, .record 0]) "ws_1" = 60 ∧
      monthTokens (limited 100) (run (usageStep (limited 100)) { now := 0 }
        [spend 60, .record 0, spend (-50), .record 0]) "ws_1" = 10 ∧
      monthTokens (limited 0) (run (usageStep (limited 0)) { now := 0 }
        [spend 5, .record 0]) "ws_1" = 5 := by
  decide +kernel

/-! ### Requests that do not fit -/

theorem monthTokens_drain (now : ℕ) (events : List UsageEvent) (ts : List Ticket) :
    monthTokens cfg
        (run (usageStep cfg) ⟨now, events, ts⟩ (List.replicate ts.length (.record 0))) w =
      monthTokens cfg ⟨now, events, ts⟩ w + inflightTokens ⟨now, events, ts⟩ w := by
  induction ts generalizing events with
  | nil => exact (add_zero _).symm
  | cons t ts ih =>
    have hstep : usageStep cfg ⟨now, events, t :: ts⟩ (.record 0) =
        ⟨now, events ++ (recordUsageEvent now t).toList, ts⟩ := rfl
    have hrecord : monthTokens cfg ⟨now, events ++ (recordUsageEvent now t).toList, ts⟩ w =
        monthTokens cfg ⟨now, events, t :: ts⟩ w + if t.workspaceId = w then t.adds else 0 :=
      monthTokens_record (s := ⟨now, events, t :: ts⟩) t ts
    have hrest : inflightTokens ⟨now, events, t :: ts⟩ w =
        (if t.workspaceId = w then t.adds else 0) + inflightTokens ⟨now, events, ts⟩ w := by
      by_cases hw : t.workspaceId = w <;> simp [inflightTokens, hw]
    have hsame : inflightTokens ⟨now, events ++ (recordUsageEvent now t).toList, ts⟩ w =
        inflightTokens ⟨now, events, ts⟩ w := rfl
    rw [length_cons, replicate_succ, run_cons, hstep, ih, hrecord, hrest, hsame]
    omega

/-- **The condition is needed.** If an admitted request does not fit, those under way can exceed the
limit, or lower the total. -/
theorem exists_violation (hs : WithinBudget cfg w L s) (hnot : ¬ Fits cfg w L s op) :
    ∃ ks : List ℕ,
      L < monthTokens cfg (run (usageStep cfg) (usageStep cfg s op) (ks.map .record)) w ∨
        ∃ k, monthTokens cfg (usageStep cfg (usageStep cfg s op) (.record k)) w <
          monthTokens cfg (usageStep cfg s op) w := by
  simp only [Fits, not_forall] at hnot
  obtain ⟨t, ht, hw, hnot⟩ := hnot
  have hstep : usageStep cfg s op = ⟨s.now, s.events, s.inflight ++ [t]⟩ := by
    cases op with
    | usageEvent | memoryWrite => rw [usageStep, ht, Option.toList_some]
    | record | abort | tick => cases ht
  have hone : monthTokens cfg (usageStep cfg (usageStep cfg s op) (.record s.inflight.length)) w =
      monthTokens cfg s w + t.adds := by
    have hlast : (s.inflight ++ [t])[s.inflight.length]? = some t := by simp
    rw [hstep, usageStep]
    dsimp only
    rw [hlast, Option.bind_some, monthTokens_record, if_pos hw]
  have hsame : monthTokens cfg (usageStep cfg s op) w = monthTokens cfg s w := by
    rw [hstep]
    rfl
  by_cases hneg : t.adds < 0
  · exact ⟨[], .inr ⟨s.inflight.length, by rw [hone, hsame]; omega⟩⟩
  · by_cases hzero : L = 0 → t.adds = 0
    · -- the requests under way do not fit beside this one
      have hover : L < monthTokens cfg s w + inflightTokens s w + t.adds := by
        by_contra hle
        exact hnot ⟨not_lt.mp hneg, hzero, .inr (not_lt.mp hle)⟩
      refine ⟨List.replicate (s.inflight.length + 1) 0, .inl ?_⟩
      have hdrain : monthTokens cfg (run (usageStep cfg) ⟨s.now, s.events, s.inflight ++ [t]⟩
          (List.replicate (s.inflight ++ [t]).length (.record 0))) w = _ :=
        monthTokens_drain s.now s.events (s.inflight ++ [t])
      have hmore : inflightTokens ⟨s.now, s.events, s.inflight ++ [t]⟩ w =
          inflightTokens s w + t.adds := by
        simp [inflightTokens, hw]
      rw [length_append, length_singleton] at hdrain
      rw [hstep, map_replicate, hdrain, hmore]
      change L < monthTokens cfg s w + _
      omega
    · -- a limit of zero is not checked
      have htotal : 0 ≤ monthTokens cfg s w := by
        refine sum_nonneg fun n hn => ?_
        obtain ⟨e, he, rfl⟩ := mem_map.mp hn
        obtain ⟨hmem, hcounts⟩ := mem_filter.mp he
        exact hs.events_nonneg e hmem (of_decide_eq_true hcounts).1
      refine ⟨[s.inflight.length], .inl ?_⟩
      change L < monthTokens cfg (usageStep cfg (usageStep cfg s op) (.record _)) w
      omega

end ContextLattice.Usage
