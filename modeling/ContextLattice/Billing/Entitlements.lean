import Mathlib.Data.Prod.Lex
import ContextLattice.Billing.Stripe

/-!
# What a workspace is entitled to

A workspace has the plan of its owner, read off **one** row of the owner's subscriptions: the one
updated last. The order of rows with the same update time is up to the database (`Database`).
-/

namespace ContextLattice.Billing

open Foundation List

/-! ### Plans -/

structure PlanEntitlements where
  planId : String
  maxApiKeys : Option ℕ
  maxProjects : Option ℕ
  maxWriteBytes : Option ℕ
deriving DecidableEq, Repr

def planLimits : String → Option PlanEntitlements
  | "starter" => some ⟨"starter", some 3, some 5, some 50000⟩
  | "team" => some ⟨"team", some 10, some 25, some 200000⟩
  | "enterprise" => some ⟨"enterprise", none, none, none⟩
  | _ => none

structure PlanConfig where
  defaultPlanId : String := "starter"
  requireActiveSubscription : Bool := false

def getEntitlements (cfg : PlanConfig) (planId : Option String) : Option PlanEntitlements :=
  (planLimits ((truthyText planId).getD cfg.defaultPlanId)).or (planLimits cfg.defaultPlanId)

def isSubscriptionActive (status : Option String) : Bool :=
  match truthyText status with
  | none => false
  | some status => decide (status = "active" ∨ status = "trialing")

/-! ### The row that is asked for -/

def BillingStore.subscriptionsOf (st : BillingStore) (userId : String) : List Subscription :=
  (st.subscriptions.rows.map Prod.snd).filter fun r => decide (r.userId = userId)

/-- How the database answers `findFirst` with `orderBy: { updatedAt: "desc" }`: with one of the rows
that were updated last. -/
structure Database where
  findFirst : List Subscription → Option Subscription
  isSome_findFirst : ∀ rows, rows ≠ [] → (findFirst rows).isSome
  mem_of_findFirst : ∀ rows r, findFirst rows = some r → r ∈ rows
  updatedAt_le : ∀ rows r, findFirst rows = some r → ∀ s ∈ rows, s.updatedAt ≤ r.updatedAt

namespace Database

-- the order the rows are compared by is the computable one
local instance (priority := 2000) : Preorder (Lex (ℤ × Bool)) :=
  @Prod.Lex.instPreorder ℤ Bool Int.instLinearOrder.toPreorder inferInstance

def preference (p : Subscription → Bool) (r : Subscription) : Lex (ℤ × Bool) :=
  toLex (r.updatedAt, p r)

def preferring (p : Subscription → Bool) : Database where
  findFirst rows := rows.argmax (preference p)
  isSome_findFirst rows hne := by
    rwa [Option.isSome_iff_ne_none, ne_eq, argmax_eq_none]
  mem_of_findFirst _ _ h := argmax_mem h
  updatedAt_le _ _ h _ hs := by
    rcases Prod.Lex.toLex_le_toLex.mp (le_of_mem_argmax hs h) with hlt | ⟨heq, -⟩
    · exact hlt.le
    · exact heq.le

theorem findFirst_preferring {rows : List Subscription} {r : Subscription} (hr : r ∈ rows)
    (hlast : ∀ s ∈ rows, s.updatedAt ≤ r.updatedAt) :
    (preferring fun s => decide (s = r)).findFirst rows = some r := by
  rcases hfirst : (preferring fun s => decide (s = r)).findFirst rows with _ | s
  · have hsome := (preferring fun s => decide (s = r)).isSome_findFirst rows
      (ne_nil_of_mem hr)
    simp [hfirst] at hsome
  · have hs : s ∈ rows := Database.mem_of_findFirst _ _ _ hfirst
    have hle := le_of_mem_argmax hr hfirst
    rcases Prod.Lex.toLex_le_toLex.mp hle with hlt | ⟨-, hpref⟩
    · exact absurd hlt (not_lt.mpr (hlast s hs))
    · have htrue : decide (s = r) = true := top_le_iff.mp (by simpa using hpref)
      rw [of_decide_eq_true htrue]

end Database

/-! ### The report -/

structure WorkspacePlan where
  planId : String
  entitlements : Option PlanEntitlements
  subscription : Option Subscription
  active : Bool

def planOf (cfg : PlanConfig) (row : Option Subscription) : String :=
  (truthyText (row.bind Subscription.planId)).getD cfg.defaultPlanId

def getWorkspacePlan (cfg : PlanConfig) (db : Database) (workspaces : Dict String String)
    (st : BillingStore) (workspaceId : String) : Except String WorkspacePlan :=
  match workspaces.get? workspaceId with
  | none => .error "Workspace not found"
  | some ownerId =>
    let subscription := db.findFirst (st.subscriptionsOf ownerId)
    let planId := planOf cfg subscription
    .ok
      { planId, subscription
        entitlements := getEntitlements cfg (some planId)
        active := isSubscriptionActive (subscription.map Subscription.status) }

structure Requirement where
  required : Bool
  planId : Option String := none
  subscription : Option Subscription := none

def requireActiveSubscription (cfg : PlanConfig) (db : Database)
    (workspaces : Dict String String) (st : BillingStore) (workspaceId : String) :
    Except String Requirement :=
  if cfg.requireActiveSubscription then do
    let plan ← getWorkspacePlan cfg db workspaces st workspaceId
    if plan.active then
      return { required := true, planId := some plan.planId, subscription := plan.subscription }
    let current := (truthyText (plan.subscription.map Subscription.status)).getD "none"
    throw ("Active subscription required (current: " ++ current ++ ")")
  else
    return { required := false }

/-! ### Who is served -/

variable {cfg : PlanConfig} {db : Database} {workspaces : Dict String String}
  {st : BillingStore} {workspaceId ownerId : String}

def Subscription.Active (r : Subscription) : Prop := isSubscriptionActive (some r.status) = true

instance (r : Subscription) : Decidable r.Active := by
  unfold Subscription.Active
  infer_instance

def UpdatedLast (rows : List Subscription) (r : Subscription) : Prop :=
  r ∈ rows ∧ ∀ s ∈ rows, s.updatedAt ≤ r.updatedAt

/-- The workspace is reported as active, with the plan and the entitlements of an active row of its
owner, and the requirement lets it pass. -/
def Served (cfg : PlanConfig) (db : Database) (workspaces : Dict String String)
    (st : BillingStore) (workspaceId ownerId : String) : Prop :=
  (∃ plan r, getWorkspacePlan cfg db workspaces st workspaceId = .ok plan ∧
      plan.active = true ∧ r ∈ st.subscriptionsOf ownerId ∧ r.Active ∧
      plan.planId = planOf cfg (some r) ∧
      plan.entitlements = getEntitlements cfg (some (planOf cfg (some r)))) ∧
    (requireActiveSubscription cfg db workspaces st workspaceId).isOk

theorem served_of_findFirst (howner : workspaces.get? workspaceId = some ownerId)
    {r : Subscription} (hfirst : db.findFirst (st.subscriptionsOf ownerId) = some r)
    (hr : r.Active) : Served cfg db workspaces st workspaceId ownerId := by
  have hactive : isSubscriptionActive (some r.status) = true := hr
  have hplan : getWorkspacePlan cfg db workspaces st workspaceId =
      .ok ⟨planOf cfg (some r), getEntitlements cfg (some (planOf cfg (some r))), some r,
        true⟩ := by
    simp [getWorkspacePlan, howner, hfirst, hactive]
  refine ⟨⟨_, r, hplan, rfl, db.mem_of_findFirst _ _ hfirst, hr, rfl, rfl⟩, ?_⟩
  rw [requireActiveSubscription, hplan]
  split <;> rfl

/-- **Who is served**: an owner with an active subscription exactly if every row that was updated
last is active. -/
theorem served_iff (cfg : PlanConfig) (workspaces : Dict String String) (st : BillingStore)
    (workspaceId ownerId : String) (howner : Dict.get? workspaces workspaceId = some ownerId)
    (hpaying : ∃ r ∈ st.subscriptionsOf ownerId, r.Active) :
    (∀ db, Served cfg db workspaces st workspaceId ownerId) ↔
      ∀ r, UpdatedLast (st.subscriptionsOf ownerId) r → r.Active := by
  constructor
  · intro hserved r hlast
    -- the database that answers with this row
    obtain ⟨⟨plan, _, hplan, hactive, _⟩, _⟩ := hserved (.preferring fun s => decide (s = r))
    have hfirst := Database.findFirst_preferring hlast.1 hlast.2
    simp only [getWorkspacePlan, howner, hfirst, Except.ok.injEq] at hplan
    subst hplan
    exact hactive
  · intro hlast db
    obtain ⟨s, hs, -⟩ := hpaying
    obtain ⟨r, hfirst⟩ := Option.isSome_iff_exists.mp
      (db.isSome_findFirst _ (ne_nil_of_mem hs))
    have hr : UpdatedLast _ r := ⟨db.mem_of_findFirst _ r hfirst, db.updatedAt_le _ r hfirst⟩
    exact served_of_findFirst howner hfirst (hlast r hr)

/-! ### Two subscriptions -/

def secondCheckout : StripeEvent :=
  { checkoutEvent with
    id := "evt_3", object := { customer := some "cus_1", subscription := some "sub_2" } }

def secondDeleted : StripeEvent :=
  { deletedEvent with id := "evt_4", object := { id := "sub_2", status := "canceled" } }

def storeAfter (es : List StripeEvent) : BillingStore :=
  run (fun st d => (handleStripeEvent st d).1) oneCustomer (deliveries es)

def oneWorkspace : Dict String String := Dict.set .empty "ws_1" "user_1"

theorem served_iff_twoCheckouts :
    (∃ r ∈ (storeAfter [checkoutEvent, secondCheckout]).subscriptionsOf "user_1", r.Active) ∧
      ((∀ db, Served {} db oneWorkspace (storeAfter [checkoutEvent, secondCheckout])
          "ws_1" "user_1") ↔
        ∀ r, UpdatedLast ((storeAfter [checkoutEvent, secondCheckout]).subscriptionsOf "user_1") r →
          r.Active) := by
  have hpaying : ∃ r ∈ (storeAfter [checkoutEvent, secondCheckout]).subscriptionsOf "user_1",
      r.Active := by
    decide +kernel
  exact ⟨hpaying, served_iff {} _ _ _ _ (by decide +kernel) hpaying⟩

/-- **A paying owner is refused**: the row updated last is that of the subscription that ended. -/
theorem refused_with_active_row :
    (∃ r ∈ (storeAfter [checkoutEvent, secondCheckout, secondDeleted]).subscriptionsOf "user_1",
        r.Active) ∧
      (getWorkspacePlan {} (.preferring fun _ => true) oneWorkspace
          (storeAfter [checkoutEvent, secondCheckout, secondDeleted]) "ws_1").toOption.map
            WorkspacePlan.active = some false ∧
      requireActiveSubscription { requireActiveSubscription := true }
          (.preferring fun _ => true) oneWorkspace
          (storeAfter [checkoutEvent, secondCheckout, secondDeleted]) "ws_1" =
        .error "Active subscription required (current: canceled)" := by
  refine ⟨by decide +kernel, by decide +kernel, ?_⟩
  rfl

end ContextLattice.Billing
