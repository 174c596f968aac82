import Mathlib.Data.List.Induction
import Mathlib.Data.List.MinMax
import ContextLattice.Foundation.Run
import ContextLattice.Foundation.Table

/-!
# Stripe webhooks

A completed checkout **upserts** the row of its subscription as active; an update or a deletion
overwrites the status of the row **if it is there**. Neither looks at the time Stripe created the
event.
-/

namespace ContextLattice.Billing

open Foundation List

/-! ### The tables -/

inductive Provider where
  | stripe | paypal | solanaPay | kraken | coinbase
deriving DecidableEq, Repr

structure Subscription where
  userId : String
  status : String
  planId : Option String
  currentPeriodEnd : Option ℤ
  updatedAt : ℤ
deriving DecidableEq, Repr

inductive EventStatus where
  | received | processed | failed
deriving DecidableEq, Repr

structure EventRow where
  eventType : String
  payload : String
  status : EventStatus
  error : Option String
  requestId : Option String
  processedAt : Option ℤ

structure BillingStore where
  customers : Dict (Provider × String) String := .empty
  subscriptions : Dict (Provider × String) Subscription := .empty
  events : Dict (Provider × String) EventRow := .empty

def recordBillingEvent (now : ℤ) (provider : Provider) (eventId : String) (input : EventRow)
    (st : BillingStore) : BillingStore :=
  let processedAt := if input.status = .received then none else some now
  let row : EventRow :=
    match st.events.get? (provider, eventId) with
    -- an undefined member leaves the column as it is
    | some row => { input with processedAt := processedAt.or row.processedAt }
    | none => { input with processedAt := processedAt }
  { st with events := st.events.set (provider, eventId) row }

/-! ### Events -/

structure StripeObject where
  id : String := ""
  customer : Option String := none
  subscription : Option String := none
  status : String := ""
  currentPeriodEnd : Option ℤ := none

structure StripeEvent where
  id : String
  type : String
  created : ℕ
  object : StripeObject
  payload : String := ""

namespace StripeEvent

def isCheckout (e : StripeEvent) : Bool := decide (e.type = "checkout.session.completed")

def isChange (e : StripeEvent) : Bool :=
  decide (e.type = "customer.subscription.updated" ∨ e.type = "customer.subscription.deleted")

def handled (e : StripeEvent) : Bool := e.isCheckout || e.isChange

def carried (e : StripeEvent) : String := if e.isCheckout then "active" else e.object.status

theorem not_isChange_of_isCheckout {e : StripeEvent} (h : e.isCheckout = true) :
    e.isChange = false := by
  have htype : e.type = "checkout.session.completed" := by simpa [isCheckout] using h
  rw [isChange, htype]
  decide

end StripeEvent

def truthyText (s : Option String) : Option String := s.filter fun t => decide (t ≠ "")

def applyCheckout (now : ℤ) (e : StripeEvent) (st : BillingStore) : BillingStore :=
  match truthyText e.object.customer, truthyText e.object.subscription with
  | some customerId, some subscriptionId =>
    match st.customers.get? (.stripe, customerId) with
    | none => st
    | some userId =>
      let row : Subscription :=
        match st.subscriptions.get? (.stripe, subscriptionId) with
        | some row => { row with status := "active", updatedAt := now }
        | none => ⟨userId, "active", none, none, now⟩
      { st with subscriptions := st.subscriptions.set (.stripe, subscriptionId) row }
  | _, _ => st

def applyChange (now : ℤ) (e : StripeEvent) (st : BillingStore) : BillingStore :=
  match st.subscriptions.get? (.stripe, e.object.id) with
  | none => st
  | some row =>
    let currentPeriodEnd := (e.object.currentPeriodEnd.filter (· ≠ 0)).map (· * 1000)
    { st with
      subscriptions := st.subscriptions.set (.stripe, e.object.id)
        { row with
          status := e.object.status, currentPeriodEnd := currentPeriodEnd, updatedAt := now } }

def applyStripeEvent (now : ℤ) (e : StripeEvent) (st : BillingStore) : BillingStore :=
  let st := if e.isCheckout then applyCheckout now e st else st
  if e.isChange then applyChange now e st else st

/-! ### The route -/

structure Fault where
  message : String
  applied : Bool

structure StripeDelivery where
  event : StripeEvent
  requestId : String
  now : ℤ
  fault : Option Fault := none

def StripeDelivery.takesEffect (d : StripeDelivery) : Bool := d.fault.all Fault.applied

structure RouteResponse where
  status : ℕ := 200
  error : Option String := none
deriving DecidableEq, Repr

def requireThat (condition : Bool) (response : RouteResponse) : Except RouteResponse Unit :=
  if condition then .ok () else .error response

def handleStripeEvent (st : BillingStore) (d : StripeDelivery) : BillingStore × RouteResponse :=
  let record (status : EventStatus) (error : Option String) :=
    recordBillingEvent d.now .stripe d.event.id
      ⟨d.event.type, d.event.payload, status, error, some d.requestId, none⟩
  let st := record .received none st
  match d.fault with
  | none => (record .processed none (applyStripeEvent d.now d.event st), {})
  | some fault =>
    let message := if fault.message = "" then "stripe webhook error" else fault.message
    let st := if fault.applied then applyStripeEvent d.now d.event st else st
    (record .failed (some message) st, ⟨500, some "Webhook processing failed"⟩)

structure StripeEnv where
  stripeWebhookSecret : Option String
  constructEvent : String → String → String → Except String StripeEvent

def stripeWebhook (env : StripeEnv) (body : String) (signature : Option String)
    (requestId : String) (now : ℤ) (fault : Option Fault) (st : BillingStore) :
    BillingStore × RouteResponse :=
  match truthyText env.stripeWebhookSecret, truthyText signature with
  | none, _ => (st, ⟨500, some "Missing webhook secret"⟩)
  | some _, none => (st, ⟨400, some "Missing signature"⟩)
  | some secret, some signature =>
    match env.constructEvent body signature secret with
    | .error message => (st, ⟨400, some message⟩)
    | .ok event => handleStripeEvent st ⟨event, requestId, now, fault⟩

/-! ### The status of a subscription -/

def BillingStore.status? (st : BillingStore) (sub : String) : Option String :=
  (st.subscriptions.get? (.stripe, sub)).map Subscription.status

/-- A completed checkout of the customer for the subscription, or an event whose object it is. -/
def AboutSubscription (customer sub : String) (e : StripeEvent) : Prop :=
  if e.isCheckout then e.object.customer = some customer ∧ e.object.subscription = some sub
  else e.object.id = sub

instance (customer sub : String) (e : StripeEvent) :
    Decidable (AboutSubscription customer sub e) := by
  unfold AboutSubscription
  infer_instance

def storedStatus (status : Option String) (e : StripeEvent) : Option String :=
  if e.isCheckout then some "active"
  else if e.isChange then status.map fun _ => e.object.status
  else status

variable {st : BillingStore} {customer sub user : String} {now : ℤ} {e : StripeEvent}
  {d : StripeDelivery}

@[simp] theorem customers_recordBillingEvent (provider : Provider) (eventId : String)
    (input : EventRow) :
    (recordBillingEvent now provider eventId input st).customers = st.customers := rfl

@[simp] theorem status?_recordBillingEvent (provider : Provider) (eventId : String)
    (input : EventRow) :
    (recordBillingEvent now provider eventId input st).status? sub = st.status? sub := rfl

theorem customers_applyStripeEvent :
    (applyStripeEvent now e st).customers = st.customers := by
  have hcheckout : (applyCheckout now e st).customers = st.customers := by
    unfold applyCheckout
    repeat' split
    all_goals rfl
  have hchange : ∀ st', (applyChange now e st').customers = st'.customers := by
    intro st'
    unfold applyChange
    split <;> rfl
  unfold applyStripeEvent
  dsimp only
  split
  · rw [hchange]
    split
    · exact hcheckout
    · rfl
  · split
    · exact hcheckout
    · rfl

theorem status?_applyCheckout (hsub : sub ≠ "") (hcustomer : customer ≠ "")
    (hknown : st.customers.get? (.stripe, customer) = some user)
    (hc : e.object.customer = some customer) (hs : e.object.subscription = some sub) :
    (applyCheckout now e st).status? sub = some "active" := by
  have hc' : truthyText e.object.customer = some customer := by simp [truthyText, hc, hcustomer]
  have hs' : truthyText e.object.subscription = some sub := by simp [truthyText, hs, hsub]
  simp only [applyCheckout, hc', hs', hknown]
  rw [BillingStore.status?]
  rw [Dict.get?_set_eq, if_pos rfl]
  split <;> rfl

theorem status?_applyChange (hid : e.object.id = sub) :
    (applyChange now e st).status? sub = (st.status? sub).map fun _ => e.object.status := by
  subst hid
  rw [applyChange, BillingStore.status?]
  rcases hrow : st.subscriptions.get? (Provider.stripe, e.object.id) with _ | row <;>
    simp [BillingStore.status?, hrow]

section

variable (hsub : sub ≠ "") (hcustomer : customer ≠ "")
  (hknown : st.customers.get? (.stripe, customer) = some user)

include hsub hcustomer hknown

theorem status?_applyStripeEvent (habout : AboutSubscription customer sub e) :
    (applyStripeEvent now e st).status? sub = storedStatus (st.status? sub) e := by
  rw [applyStripeEvent, storedStatus]
  rw [AboutSubscription] at habout
  by_cases hcheckout : e.isCheckout = true
  · rw [if_pos hcheckout] at habout
    rw [StripeEvent.not_isChange_of_isCheckout hcheckout, if_neg Bool.false_ne_true,
      if_pos hcheckout, if_pos hcheckout]
    exact status?_applyCheckout hsub hcustomer hknown habout.1 habout.2
  · rw [if_neg hcheckout] at habout
    split
    · exact status?_applyChange habout
    · rfl

theorem status?_handleStripeEvent (habout : AboutSubscription customer sub d.event) :
    (handleStripeEvent st d).1.status? sub =
      if d.takesEffect then storedStatus (st.status? sub) d.event else st.status? sub := by
  have happly : ∀ input : EventRow,
      (applyStripeEvent d.now d.event
        (recordBillingEvent d.now .stripe d.event.id input st)).status? sub =
          storedStatus (st.status? sub) d.event :=
    fun _ => status?_applyStripeEvent hsub hcustomer hknown habout
  rw [handleStripeEvent, StripeDelivery.takesEffect]
  rcases d.fault with _ | ⟨message, applied⟩
  · simpa using happly _
  · cases applied
    · simp
    · simpa using happly _

end

theorem customers_handleStripeEvent : (handleStripeEvent st d).1.customers = st.customers := by
  rw [handleStripeEvent]
  rcases d.fault with _ | ⟨message, applied⟩
  · simp [customers_applyStripeEvent]
  · cases applied <;> simp [customers_applyStripeEvent]

def processedEvents (ds : List StripeDelivery) : List StripeEvent :=
  (ds.filter StripeDelivery.takesEffect).map StripeDelivery.event

theorem status?_run (hsub : sub ≠ "") (hcustomer : customer ≠ "")
    (hknown : st.customers.get? (.stripe, customer) = some user) (ds : List StripeDelivery)
    (habout : ∀ d ∈ ds, AboutSubscription customer sub d.event) :
    (run (fun st d => (handleStripeEvent st d).1) st ds).status? sub =
      (processedEvents ds).foldl storedStatus (st.status? sub) := by
  induction ds generalizing st with
  | nil => rfl
  | cons d ds ih =>
    rw [forall_mem_cons] at habout
    rw [run_cons, ih (by rwa [customers_handleStripeEvent]) habout.2,
      status?_handleStripeEvent hsub hcustomer hknown habout.1, processedEvents, processedEvents]
    rcases heffect : d.takesEffect <;> simp [heffect]

/-! ### Which status is stored in the end -/

def lastCarried (es : List StripeEvent) : Option String :=
  ((es.filter StripeEvent.handled).getLast?).map StripeEvent.carried

def latestCarried (es : List StripeEvent) : Option String :=
  (es.argmax StripeEvent.created).map StripeEvent.carried

def RowThere (status : Option String) (es : List StripeEvent) : Prop :=
  status.isSome = true ∨ ∃ e ∈ es, e.isCheckout = true

theorem lastCarried_concat (es : List StripeEvent) (e : StripeEvent) :
    lastCarried (es ++ [e]) = if e.handled then some e.carried else lastCarried es := by
  rw [lastCarried, filter_append]
  by_cases h : e.handled = true
  · simp [h]
  · simp [h, lastCarried]

theorem isSome_lastCarried {es : List StripeEvent} (h : ∃ e ∈ es, e.isCheckout = true) :
    (lastCarried es).isSome = true := by
  obtain ⟨e, he, hcheckout⟩ := h
  have hmem : e ∈ es.filter StripeEvent.handled :=
    mem_filter.mpr ⟨he, by simp [StripeEvent.handled, hcheckout]⟩
  rw [lastCarried, Option.isSome_map, List.getLast?_isSome]
  exact ne_nil_of_mem hmem

theorem stored_foldl (status : Option String) (es : List StripeEvent) :
    (RowThere status es → es.foldl storedStatus status = (lastCarried es).or status) ∧
      (¬ RowThere status es → es.foldl storedStatus status = none) := by
  induction es using List.reverseRecOn with
  | nil =>
    refine ⟨fun _ => by simp [lastCarried], fun h => ?_⟩
    rw [RowThere, not_or] at h
    simpa using h.1
  | append_singleton es e ih =>
    rw [foldl_append, foldl_cons, foldl_nil, lastCarried_concat, storedStatus]
    by_cases hcheckout : e.isCheckout = true
    · refine ⟨fun _ => ?_, fun h => absurd (.inr ⟨e, by simp, hcheckout⟩) h⟩
      simp [StripeEvent.handled, StripeEvent.carried, hcheckout]
    · have hthere : RowThere status (es ++ [e]) ↔ RowThere status es := by
        simp [RowThere, or_and_right, exists_or, hcheckout]
      rw [hthere, if_neg hcheckout]
      refine ⟨fun h => ?_, fun h => ?_⟩
      · -- the row is there, so an update finds it
        obtain ⟨current, hcurrent⟩ : ∃ x, (lastCarried es).or status = some x := by
          rw [← Option.isSome_iff_exists, Option.isSome_or, Bool.or_eq_true]
          exact h.symm.imp_left isSome_lastCarried
        rw [ih.1 h, StripeEvent.handled]
        by_cases hchange : e.isChange = true
        · simp [hchange, hcurrent, StripeEvent.carried, hcheckout]
        · simp [hchange, hcheckout]
      · rw [ih.2 h]
        split <;> rfl

/-- **When the webhooks converge**: exactly when a row is there in the end and the handled event
delivered last has the status of the event created last. -/
theorem converges_iff (st : BillingStore) (customer sub user : String) (hsub : sub ≠ "")
    (hcustomer : customer ≠ "")
    (hknown : Dict.get? st.customers (.stripe, customer) = some user) (ds : List StripeDelivery)
    (habout : ∀ d ∈ ds, AboutSubscription customer sub d.event)
    (hne : processedEvents ds ≠ []) :
    (run (fun st d => (handleStripeEvent st d).1) st ds).status? sub =
        latestCarried (processedEvents ds) ↔
      RowThere (st.status? sub) (processedEvents ds) ∧
        (lastCarried (processedEvents ds)).or (st.status? sub) =
          latestCarried (processedEvents ds) := by
  rw [status?_run hsub hcustomer hknown ds habout]
  obtain ⟨hthere, hnone⟩ := stored_foldl (st.status? sub) (processedEvents ds)
  by_cases h : RowThere (st.status? sub) (processedEvents ds)
  · rw [hthere h]
    exact ⟨fun heq => ⟨h, heq⟩, And.right⟩
  · rw [hnone h]
    refine iff_of_false (fun heq => hne ?_) fun hand => h hand.1
    rwa [latestCarried, eq_comm, Option.map_eq_none_iff, argmax_eq_none] at heq

/-! ### Deliveries that do not converge -/

def oneCustomer : BillingStore :=
  { customers := Dict.set .empty (.stripe, "cus_1") "user_1" }

def checkoutEvent : StripeEvent :=
  { id := "evt_1", type := "checkout.session.completed", created := 1
    object := { customer := some "cus_1", subscription := some "sub_1" } }

def deletedEvent : StripeEvent :=
  { id := "evt_2", type := "customer.subscription.deleted", created := 2
    object := { id := "sub_1", status := "canceled" } }

def deliveries (es : List StripeEvent) : List StripeDelivery :=
  es.mapIdx fun i e => ⟨e, "", i, none⟩

theorem converges_iff_inOrder :
    (run (fun st d => (handleStripeEvent st d).1) oneCustomer
        (deliveries [checkoutEvent, deletedEvent])).status? "sub_1" = some "canceled" ∧
      ((run (fun st d => (handleStripeEvent st d).1) oneCustomer
          (deliveries [checkoutEvent, deletedEvent])).status? "sub_1" =
          latestCarried (processedEvents (deliveries [checkoutEvent, deletedEvent])) ↔
        RowThere (oneCustomer.status? "sub_1")
            (processedEvents (deliveries [checkoutEvent, deletedEvent])) ∧
          (lastCarried (processedEvents (deliveries [checkoutEvent, deletedEvent]))).or
              (oneCustomer.status? "sub_1") =
            latestCarried (processedEvents (deliveries [checkoutEvent, deletedEvent]))) := by
  refine ⟨by decide +kernel, converges_iff oneCustomer "cus_1" "sub_1" "user_1" (by decide)
    (by decide) (by decide +kernel) _ (by decide +kernel) (by decide +kernel)⟩

/-- **A cancelled subscription comes back** with a checkout event that is late or delivered again;
the end alone is lost. -/
theorem reactivated :
    (run (fun st d => (handleStripeEvent st d).1) oneCustomer
        (deliveries [checkoutEvent, deletedEvent, checkoutEvent])).status? "sub_1" =
        some "active" ∧
      (run (fun st d => (handleStripeEvent st d).1) oneCustomer
        (deliveries [deletedEvent, checkoutEvent])).status? "sub_1" = some "active" ∧
      (run (fun st d => (handleStripeEvent st d).1) oneCustomer
        (deliveries [deletedEvent])).status? "sub_1" = none ∧
      latestCarried [checkoutEvent, deletedEvent] = some "canceled" := by
  decide +kernel

end ContextLattice.Billing
