import ContextLattice.Foundation.Search
import ContextLattice.Billing.Stripe

/-!
# Payment intents

An intent names the provider, the plan and a **reference**. Five routes create intents, five others
set the status of all intents of a provider with a given reference. `Effect` lists what a request
can do to the intents.
-/

namespace ContextLattice.Billing

open Foundation

/-! ### The table -/

/-- A row of the table of intents. -/
structure PaymentIntent where
  userId : String
  provider : Provider
  status : String
  planId : String
  interval : String
  amount : ℕ
  currency : String
  reference : Option String
deriving DecidableEq, Repr

structure PaymentStore where
  billing : BillingStore := {}
  intents : List PaymentIntent := []

def recordPaymentIntent (intent : PaymentIntent) (st : PaymentStore) : PaymentStore :=
  { st with intents := st.intents ++ [intent] }

/-- A member of a request body, as far as the routes look at it. -/
inductive Member where
  | text (s : String)
  /-- An object: the condition on a text column it stands for, and the text it stands for as a new
  value; `none` where the database layer refuses it. -/
  | object (filter : Option (Option String → Bool)) (value : Option String)
  | other (truthy : Bool)

namespace Member

def truthy : Member → Bool
  | text s => decide (s ≠ "")
  | object _ _ => true
  | other truthy => truthy

def filter : Member → Option (Option String → Bool)
  | text s => some fun entry => decide (entry = some s)
  | object filter _ => filter
  | other _ => none

def value : Member → Option String
  | text s => some s
  | object _ value => value
  | other _ => none

def isText : Member → String → Bool
  | text s, t => decide (s = t)
  | object _ _, _ => false
  | other _, _ => false

end Member

/-- The update of all intents of a provider whose reference the filter picks. -/
def setStatus (provider : Provider) (picks : Option String → Bool) (status : String)
    (intents : List PaymentIntent) : List PaymentIntent :=
  intents.map fun i =>
    if i.provider = provider ∧ picks i.reference = true then { i with status := status } else i

/-- The update, unless the database layer refuses the reference or the status. -/
def updatePaymentIntentStatus (provider : Provider) (reference status : Member)
    (st : PaymentStore) : Option PaymentStore :=
  match reference.filter, status.value with
  | some picks, some status =>
    some { st with intents := setStatus provider picks status st.intents }
  | _, _ => none

/-! ### Plans, sessions and providers -/

structure PricedPlan where
  id : String
  monthly : ℕ
  annual : ℕ

def plans : List PricedPlan := [⟨"starter", 19, 190⟩, ⟨"team", 79, 790⟩, ⟨"enterprise", 249, 2490⟩]

structure PlanBody where
  planId : Member
  interval : Member

def billingInterval (interval : Member) : String :=
  if interval.isText "annual" then "annual" else "monthly"

def PricedPlan.price (plan : PricedPlan) (interval : Member) : ℕ :=
  if interval.isText "annual" then plan.annual else plan.monthly

structure SessionUser where
  email : Option String
  id : Option String

inductive ProviderAnswer where
  | raised
  | refused (message : Option String)
  | ok (id : Option String)

/-- A capture of a PayPal order, with PayPal's answer. -/
structure CaptureCall where
  orderId : Member
  answer : ProviderAnswer
  /-- In the address of the call an object reads `[object Object]`; PayPal has no such order. -/
  named : ∀ id filter value, answer = .ok id → orderId ≠ .object filter value

structure WebhookDelivery where
  body : String
  signature : String

structure WebhookPayload where
  eventType : Option String
  eventId : Option String
  reference : Option String

/-- What the two webhook routes differ in. -/
structure WebhookKind where
  provider : Provider
  doneWord : String
  doneStatus : String
  unknownId : String
  errorText : String

structure PaymentEnv where
  authRequired : Bool
  hmac : String → String → String
  webhookSecret : Provider → Option String
  /-- The members of a webhook body; `none` if it is not JSON or the table of events refuses
  them. -/
  parse : Provider → String → Option WebhookPayload
  stripe : StripeEnv
  krakenPayAddress : Option String
  solanaPayEnabled : Bool
  solpayRecipient : Option String
  coinbaseApiKey : Option String
  getStripePriceId : String → String → Option String

inductive PaymentRequest where
  | kraken (body : PlanBody)
  | solanaPay (body : PlanBody) (key : Option String)
  | paypalOrder (body : PlanBody) (answer : ProviderAnswer)
  | coinbaseCharge (body : PlanBody) (answer : ProviderAnswer)
  /-- What Stripe answers to the creation of a customer and of a checkout; `none` if the call
  raises. -/
  | stripeCheckout (planId : String) (interval : Member) (customer checkout : Option String)
  | paypalCapture (call : CaptureCall)
  | solanaVerify (reference status : Member)
  | krakenVerify (reference status : Member)
  | paypalWebhook (d : WebhookDelivery)
  | coinbaseWebhook (d : WebhookDelivery)
  | stripeWebhook (body : String) (signature : Option String)

/-- A request with what surrounds it: the session, and the call that raises, if one does. -/
structure PaymentCall where
  request : PaymentRequest
  signedIn : Bool := false
  session : Option SessionUser := none
  requestId : String := ""
  now : ℤ := 0
  fault : Option Fault := none

/-! ### Routes that create intents -/

variable (env : PaymentEnv) (call : PaymentCall) (st : PaymentStore)

def sessionId : Except RouteResponse String :=
  match call.session.bind fun user => truthyText user.id with
  | none => .error ⟨401, some "Unauthorized"⟩
  | some id => .ok id

def sessionIdWithEmail : Except RouteResponse String :=
  match call.session.bind fun user => truthyText user.email with
  | none => .error ⟨401, some "Unauthorized"⟩
  | some _ => sessionId call

def findPlan (planId : Member) : Except RouteResponse PricedPlan :=
  match plans.find? fun plan => planId.isText plan.id with
  | none => .error ⟨400, some "Invalid plan"⟩
  | some plan => .ok plan

def requireEnv (value : Option String) (missing : String) : Except RouteResponse String :=
  match truthyText value with
  | none => .error ⟨500, some missing⟩
  | some value => .ok value

def ProviderAnswer.id? (defaultMessage : String) :
    ProviderAnswer → Except RouteResponse (Option String)
  | raised => .error ⟨500, none⟩
  | refused message => .error ⟨400, some ((truthyText message).getD defaultMessage)⟩
  | ok id => .ok id

def insertIntent (intent : PaymentIntent) : Except RouteResponse PaymentStore :=
  if call.fault.isSome then .error ⟨500, none⟩ else .ok (recordPaymentIntent intent st)

def kraken (body : PlanBody) : Except RouteResponse PaymentStore := do
  let userId ← sessionId call
  let plan ← findPlan body.planId
  let address ← requireEnv env.krakenPayAddress "Missing KRAKEN_PAY_ADDRESS"
  insertIntent call st
    ⟨userId, .kraken, "pending_manual", plan.id, billingInterval body.interval,
      plan.price body.interval, "USD", some address⟩

def solanaPay (body : PlanBody) (key : Option String) : Except RouteResponse PaymentStore := do
  let userId ← sessionId call
  requireThat env.solanaPayEnabled ⟨503, some "Solana Pay is disabled."⟩
  let plan ← findPlan body.planId
  let _ ← requireEnv env.solpayRecipient "Missing SOLPAY_RECIPIENT"
  requireThat key.isSome ⟨500, none⟩
  insertIntent call st
    ⟨userId, .solanaPay, "created", plan.id, billingInterval body.interval,
      plan.price body.interval, "USD", key⟩

def paypalOrder (body : PlanBody) (answer : ProviderAnswer) :
    Except RouteResponse PaymentStore := do
  let userId ← sessionIdWithEmail call
  let plan ← findPlan body.planId
  let id ← answer.id? "PayPal error"
  insertIntent call st
    ⟨userId, .paypal, "created", plan.id, billingInterval body.interval,
      plan.price body.interval, "USD", id⟩

def coinbaseCharge (body : PlanBody) (answer : ProviderAnswer) :
    Except RouteResponse PaymentStore := do
  let userId ← sessionId call
  let _ ← requireEnv env.coinbaseApiKey "Missing COINBASE_COMMERCE_API_KEY"
  let plan ← findPlan body.planId
  let id ← answer.id? "Coinbase error"
  insertIntent call st
    ⟨userId, .coinbase, "created", plan.id, billingInterval body.interval,
      plan.price body.interval, "USD", some (id.getD "")⟩

def existingCustomer (userId : String) : Option String :=
  (st.billing.customers.rows.find? fun p =>
    decide (p.1.1 = .stripe ∧ p.2 = userId)).bind fun p => truthyText (some p.1.2)

def ensureCustomer (userId : String) (customer : Option String) : Option PaymentStore :=
  match existingCustomer st userId, customer with
  | some _, _ => some st
  | none, none => none
  | none, some customerId =>
    some { st with
      billing := { st.billing with
        customers := st.billing.customers.set (.stripe, customerId) userId } }

def stripeCheckout (planId : String) (interval : Member) (customer checkout : Option String) :
    PaymentStore × RouteResponse :=
  match sessionIdWithEmail call with
  | .error response => (st, response)
  | .ok userId =>
    match truthyText (env.getStripePriceId planId (billingInterval interval)) with
    | none => (st, ⟨400, some "Invalid plan."⟩)
    | some _ =>
      match ensureCustomer st userId customer, checkout with
      | none, _ => (st, ⟨500, none⟩)
      | some st, none => (st, ⟨500, none⟩)
      | some st, some checkoutId =>
        match insertIntent call st
            ⟨userId, .stripe, "created", planId, billingInterval interval, 0, "USD",
              some checkoutId⟩ with
        | .error response => (st, response)
        | .ok st => (st, {})

/-! ### Routes that set a status -/

def writeStatus (provider : Provider) (reference status : Member) :
    Except RouteResponse PaymentStore :=
  match call.fault, updatePaymentIntentStatus provider reference status st with
  | none, some st => .ok st
  | _, _ => .error ⟨500, none⟩

/-- The two verification routes: no check of a session or of a payment. -/
def verifyRoute (provider : Provider) (reference status : Member) :
    Except RouteResponse PaymentStore :=
  if reference.truthy then
    writeStatus call st provider reference (if status.truthy then status else .text "confirmed")
  else
    .error ⟨400, some "Missing reference"⟩

def solanaVerify : Member → Member → Except RouteResponse PaymentStore :=
  verifyRoute call st .solanaPay

def krakenVerify : Member → Member → Except RouteResponse PaymentStore :=
  verifyRoute call st .kraken

def paypalCapture (capture : CaptureCall) : Except RouteResponse PaymentStore := do
  let _ ← sessionIdWithEmail call
  requireThat capture.orderId.truthy ⟨400, some "orderId required"⟩
  let _ ← capture.answer.id? "PayPal capture failed"
  writeStatus call st .paypal capture.orderId (.text "captured")

def paypalKind : WebhookKind :=
  ⟨.paypal, "COMPLETED", "captured", "paypal-unknown", "paypal webhook error"⟩

def coinbaseKind : WebhookKind :=
  ⟨.coinbase, "confirmed", "confirmed", "coinbase-unknown", "coinbase webhook error"⟩

def WebhookKind.statusOf (kind : WebhookKind) (eventType : Option String) : String :=
  if isIn kind.doneWord (eventType.getD "") then kind.doneStatus else "pending"

/-- The delivery carries the signature of the provider's secret. -/
def Verified (provider : Provider) (d : WebhookDelivery) : Prop :=
  ∃ secret, truthyText (env.webhookSecret provider) = some secret ∧
    d.signature = env.hmac secret d.body

/-- The PayPal and Coinbase webhooks: record the event, set the status, record the outcome. -/
def providerWebhook (kind : WebhookKind) (d : WebhookDelivery) : PaymentStore × RouteResponse :=
  match truthyText (env.webhookSecret kind.provider) with
  | none => (st, ⟨500, some "Missing webhook secret"⟩)
  | some secret =>
    if d.signature ≠ env.hmac secret d.body then
      (st, ⟨400, some "Invalid signature"⟩)
    else
      match env.parse kind.provider d.body with
      | none => (st, ⟨500, none⟩)
      | some payload =>
        let record (status : EventStatus) (error : Option String) (st : PaymentStore) :=
          { st with
            billing := recordBillingEvent call.now kind.provider
              ((truthyText payload.eventId).getD kind.unknownId)
              ⟨payload.eventType.getD "", d.body, status, error, some call.requestId, none⟩
              st.billing }
        let received := record .received none st
        let applied :=
          match truthyText payload.reference with
          | none => some received
          | some reference =>
            updatePaymentIntentStatus kind.provider (.text reference)
              (.text (kind.statusOf payload.eventType)) received
        let failed (message : String) (st : PaymentStore) : PaymentStore × RouteResponse :=
          (record .failed (some (if message = "" then kind.errorText else message)) st,
            ⟨500, some "Webhook processing failed"⟩)
        match call.fault, applied with
        | none, some st => (record .processed none st, {})
        | some fault, some st => failed fault.message (if fault.applied then st else received)
        | _, none => failed "" received

/-! ### The dashboard -/

def settleRoute (st : PaymentStore) :
    Except RouteResponse PaymentStore → PaymentStore × RouteResponse
  | .ok st => (st, {})
  | .error response => (st, response)

/-- The routes behind the middleware. -/
def serve (env : PaymentEnv) (st : PaymentStore) (call : PaymentCall) :
    PaymentStore × RouteResponse :=
  match call.request with
  | .kraken body => settleRoute st (kraken env call st body)
  | .solanaPay body key => settleRoute st (solanaPay env call st body key)
  | .paypalOrder body answer => settleRoute st (paypalOrder call st body answer)
  | .coinbaseCharge body answer => settleRoute st (coinbaseCharge env call st body answer)
  | .stripeCheckout planId interval customer checkout =>
    stripeCheckout env call st planId interval customer checkout
  | .paypalCapture capture => settleRoute st (paypalCapture call st capture)
  | .solanaVerify reference status => settleRoute st (solanaVerify call st reference status)
  | .krakenVerify reference status => settleRoute st (krakenVerify call st reference status)
  | .paypalWebhook d => providerWebhook env call st paypalKind d
  | .coinbaseWebhook d => providerWebhook env call st coinbaseKind d
  | .stripeWebhook body signature =>
    let answer :=
      stripeWebhook env.stripe body signature call.requestId call.now call.fault st.billing
    ({ st with billing := answer.1 }, answer.2)

def paymentStep (env : PaymentEnv) (st : PaymentStore) (call : PaymentCall) :
    PaymentStore × RouteResponse :=
  if env.authRequired && !call.signedIn then (st, ⟨307, none⟩) else serve env st call

/-! ### What a request does to the intents -/

/-- What a request can do to the intents. -/
inductive Effect where
  | nothing
  | create (intent : PaymentIntent)
  | update (provider : Provider) (picks : Option String → Bool) (status : String)

def Effect.apply : Effect → List PaymentIntent → List PaymentIntent
  | nothing, intents => intents
  | create intent, intents => intents ++ [intent]
  | update provider picks status, intents => setStatus provider picks status intents

/-- The middleware lets the request through. -/
def Admitted (env : PaymentEnv) (call : PaymentCall) : Prop :=
  (env.authRequired && !call.signedIn) = false

/-- A signed delivery that names a reference and whose update took effect. -/
structure WebhookApplied (env : PaymentEnv) (call : PaymentCall) (kind : WebhookKind)
    (payload : WebhookPayload) (reference : String) : Prop where
  admitted : Admitted env call
  signed : ∃ d : WebhookDelivery, Verified env kind.provider d ∧
    env.parse kind.provider d.body = some payload ∧
    (call.request = .paypalWebhook d ∧ kind = paypalKind ∨
      call.request = .coinbaseWebhook d ∧ kind = coinbaseKind)
  named : truthyText payload.reference = some reference
  applied : call.fault.all Fault.applied = true

/-- PayPal has captured the order that the filter picks. -/
def CaptureAnswered (call : PaymentCall) (picks : Option String → Bool) : Prop :=
  ∃ capture id, call.request = .paypalCapture capture ∧ capture.answer = .ok id ∧
    capture.orderId.filter = some picks

/-- A request to a verification route, with the filter that its reference is and the status that it
sets. -/
def VerifyAsked (call : PaymentCall) (provider : Provider) (picks : Option String → Bool)
    (status : String) : Prop :=
  ∃ reference wanted, (call.request = .solanaVerify reference wanted ∧ provider = .solanaPay ∨
      call.request = .krakenVerify reference wanted ∧ provider = .kraken) ∧
    reference.truthy = true ∧ reference.filter = some picks ∧
    (if wanted.truthy then wanted else .text "confirmed").value = some status

/-- A verification request that is let through and written. Nothing else is asked of it. -/
structure VerifyApplied (env : PaymentEnv) (call : PaymentCall) (provider : Provider)
    (picks : Option String → Bool) (status : String) : Prop where
  admitted : Admitted env call
  asked : VerifyAsked call provider picks status
  written : call.fault = none

/-- The effects of a request, each with what the request needs for it. -/
inductive EffectOf (env : PaymentEnv) (call : PaymentCall) : Effect → Prop
  | nothing : EffectOf env call .nothing
  | create (intent : PaymentIntent)
      (hstatus : intent.status = "created" ∨ intent.status = "pending_manual") :
      EffectOf env call (.create intent)
  | webhook (kind : WebhookKind) (payload : WebhookPayload) (reference : String)
      (h : WebhookApplied env call kind payload reference) :
      EffectOf env call (.update kind.provider (fun entry => decide (entry = some reference))
        (kind.statusOf payload.eventType))
  | capture (picks : Option String → Bool) (h : CaptureAnswered call picks) :
      EffectOf env call (.update .paypal picks "captured")
  | verify (provider : Provider) (picks : Option String → Bool) (status : String)
      (h : VerifyApplied env call provider picks status) :
      EffectOf env call (.update provider picks status)

variable {env : PaymentEnv} {call : PaymentCall} {st st' : PaymentStore}

/-- The route adds one intent that is not settled, or fails. -/
def CreatesOnly (st : PaymentStore) (route : Except RouteResponse PaymentStore) : Prop :=
  ∀ st', route = .ok st' → ∃ intent : PaymentIntent,
    (intent.status = "created" ∨ intent.status = "pending_manual") ∧
      st'.intents = st.intents ++ [intent]

theorem CreatesOnly.bind {α : Type} {x : Except RouteResponse α}
    {f : α → Except RouteResponse PaymentStore} (h : ∀ a, CreatesOnly st (f a)) :
    CreatesOnly st (x >>= f) := by
  intro st' hok
  rcases x with response | a
  · cases hok
  · exact h a st' hok

theorem createsOnly_insertIntent {intent : PaymentIntent}
    (hstatus : intent.status = "created" ∨ intent.status = "pending_manual") :
    CreatesOnly st (insertIntent call st intent) := by
  intro st' hok
  rw [insertIntent] at hok
  split at hok
  · cases hok
  · cases hok
    exact ⟨intent, hstatus, rfl⟩

theorem createsOnly_kraken (body : PlanBody) : CreatesOnly st (kraken env call st body) :=
  .bind fun _ => .bind fun _ => .bind fun _ => createsOnly_insertIntent (.inr rfl)

theorem createsOnly_solanaPay (body : PlanBody) (key : Option String) :
    CreatesOnly st (solanaPay env call st body key) :=
  .bind fun _ => .bind fun _ => .bind fun _ => .bind fun _ => .bind fun _ =>
    createsOnly_insertIntent (.inl rfl)

theorem createsOnly_paypalOrder (body : PlanBody) (answer : ProviderAnswer) :
    CreatesOnly st (paypalOrder call st body answer) :=
  .bind fun _ => .bind fun _ => .bind fun _ => createsOnly_insertIntent (.inl rfl)

theorem createsOnly_coinbaseCharge (body : PlanBody) (answer : ProviderAnswer) :
    CreatesOnly st (coinbaseCharge env call st body answer) :=
  .bind fun _ => .bind fun _ => .bind fun _ => .bind fun _ => createsOnly_insertIntent (.inl rfl)

variable (env call st) in
def HasEffect (intents : List PaymentIntent) : Prop :=
  ∃ effect, EffectOf env call effect ∧ intents = effect.apply st.intents

theorem CreatesOnly.hasEffect {route : Except RouteResponse PaymentStore}
    (h : CreatesOnly st route) : HasEffect env call st (settleRoute st route).1.intents := by
  rcases route with response | st'
  · exact ⟨.nothing, .nothing, rfl⟩
  · obtain ⟨intent, hstatus, hintents⟩ := h st' rfl
    exact ⟨.create intent, .create intent hstatus, hintents⟩

theorem intents_ensureCustomer {userId : String} {customer : Option String}
    (h : ensureCustomer st userId customer = some st') : st'.intents = st.intents := by
  unfold ensureCustomer at h
  split at h <;> cases h <;> rfl

theorem hasEffect_stripeCheckout (planId : String) (interval : Member)
    (customer checkout : Option String) :
    HasEffect env call st
      (stripeCheckout env call st planId interval customer checkout).1.intents := by
  rw [stripeCheckout]
  split
  · exact ⟨.nothing, .nothing, rfl⟩
  · split
    · exact ⟨.nothing, .nothing, rfl⟩
    · split
      · exact ⟨.nothing, .nothing, rfl⟩
      · rename_i hcustomer
        exact ⟨.nothing, .nothing, intents_ensureCustomer hcustomer⟩
      · rename_i hcustomer
        have hintents := intents_ensureCustomer hcustomer
        split
        · exact ⟨.nothing, .nothing, hintents⟩
        · rename_i hinsert
          obtain ⟨intent, hstatus, hnew⟩ := createsOnly_insertIntent (.inl rfl) _ hinsert
          exact ⟨.create intent, .create intent hstatus, by rw [hnew, hintents]; rfl⟩

variable {provider : Provider} {reference status : Member}

theorem writeStatus_eq_ok (h : writeStatus call st provider reference status = .ok st') :
    ∃ picks s, reference.filter = some picks ∧ status.value = some s ∧ call.fault = none ∧
      st'.intents = setStatus provider picks s st.intents := by
  rw [writeStatus, updatePaymentIntentStatus] at h
  rcases hfilter : reference.filter with _ | picks
  · simp [hfilter] at h
  · rcases hvalue : status.value with _ | s
    · simp [hfilter, hvalue] at h
    · rcases hfault : call.fault with _ | fault
      · simp only [hfilter, hvalue, hfault, Except.ok.injEq] at h
        exact ⟨picks, s, rfl, rfl, rfl, by rw [← h]⟩
      · simp [hfilter, hvalue, hfault] at h

theorem hasEffect_verifyRoute (hadmitted : Admitted env call)
    (hreq : call.request = .solanaVerify reference status ∧ provider = .solanaPay ∨
      call.request = .krakenVerify reference status ∧ provider = .kraken) :
    HasEffect env call st
      (settleRoute st (verifyRoute call st provider reference status)).1.intents := by
  rcases hroute : verifyRoute call st provider reference status with response | st'
  · exact ⟨.nothing, .nothing, rfl⟩
  · rw [verifyRoute] at hroute
    split at hroute
    · rename_i htruthy
      obtain ⟨picks, s, hpicks, hs, hfault, hintents⟩ := writeStatus_eq_ok hroute
      exact ⟨_, .verify provider picks s
        ⟨hadmitted, ⟨reference, status, hreq, htruthy, hpicks, hs⟩, hfault⟩, hintents⟩
    · cases hroute

theorem hasEffect_paypalCapture {capture : CaptureCall}
    (hreq : call.request = .paypalCapture capture) :
    HasEffect env call st (settleRoute st (paypalCapture call st capture)).1.intents := by
  rcases hroute : paypalCapture call st capture with response | st'
  · exact ⟨.nothing, .nothing, rfl⟩
  · obtain ⟨_, -, hroute⟩ := bind_eq_ok hroute
    obtain ⟨_, -, hroute⟩ := bind_eq_ok hroute
    obtain ⟨_, hanswer, hroute⟩ := bind_eq_ok hroute
    obtain ⟨picks, s, hpicks, hs, -, hintents⟩ := writeStatus_eq_ok hroute
    cases hs
    rcases hans : capture.answer with _ | message | id
    · rw [hans] at hanswer; cases hanswer
    · rw [hans] at hanswer; cases hanswer
    · exact ⟨_, .capture picks ⟨capture, id, hreq, hans, hpicks⟩, hintents⟩

variable {kind : WebhookKind}

theorem hasEffect_providerWebhook {d : WebhookDelivery} (hadmitted : Admitted env call)
    (hreq : call.request = .paypalWebhook d ∧ kind = paypalKind ∨
      call.request = .coinbaseWebhook d ∧ kind = coinbaseKind) :
    HasEffect env call st (providerWebhook env call st kind d).1.intents := by
  rw [providerWebhook]
  split
  · exact ⟨.nothing, .nothing, rfl⟩
  · rename_i secret hsecret
    split
    · exact ⟨.nothing, .nothing, rfl⟩
    · rename_i hsignature
      split
      · exact ⟨.nothing, .nothing, rfl⟩
      · rename_i payload hparse
        have hverified : Verified env kind.provider d :=
          ⟨secret, hsecret, not_not.mp hsignature⟩
        rcases hnamed : truthyText payload.reference with _ | reference
        · -- an event about no payment
          refine ⟨.nothing, .nothing, ?_⟩
          rcases call.fault with _ | ⟨message, _ | _⟩ <;> rfl
        · have heffect (happlied : call.fault.all Fault.applied = true) :=
            EffectOf.webhook kind payload reference
              ⟨hadmitted, ⟨d, hverified, hparse, hreq⟩, hnamed, happlied⟩
          rcases hfault : call.fault with _ | ⟨message, _ | _⟩
          · exact ⟨_, heffect (by rw [hfault]; rfl), rfl⟩
          · exact ⟨.nothing, .nothing, rfl⟩
          · exact ⟨_, heffect (by rw [hfault]; rfl), rfl⟩

/-- **A request** does nothing to the intents, creates one, or sets the status of those its provider
and reference pick. -/
theorem hasEffect (env : PaymentEnv) (st : PaymentStore) (call : PaymentCall) :
    HasEffect env call st (paymentStep env st call).1.intents := by
  rw [paymentStep]
  split
  · exact ⟨.nothing, .nothing, rfl⟩
  · rename_i hadmitted
    rw [Bool.not_eq_true] at hadmitted
    rw [serve]
    split
    · exact (createsOnly_kraken _).hasEffect
    · exact (createsOnly_solanaPay _ _).hasEffect
    · exact (createsOnly_paypalOrder _ _).hasEffect
    · exact (createsOnly_coinbaseCharge _ _).hasEffect
    · exact hasEffect_stripeCheckout _ _ _ _
    · exact hasEffect_paypalCapture ‹_›
    · exact hasEffect_verifyRoute hadmitted (.inl ⟨‹_›, rfl⟩)
    · exact hasEffect_verifyRoute hadmitted (.inr ⟨‹_›, rfl⟩)
    · exact hasEffect_providerWebhook hadmitted (.inl ⟨‹_›, rfl⟩)
    · exact hasEffect_providerWebhook hadmitted (.inr ⟨‹_›, rfl⟩)
    · exact ⟨.nothing, .nothing, rfl⟩

theorem intents_of_verifyApplied {picks : Option String → Bool} {s : String}
    (h : VerifyApplied env call provider picks s) :
    (paymentStep env st call).1.intents = setStatus provider picks s st.intents := by
  obtain ⟨hadmitted, ⟨reference, wanted, hreq, htruthy, hpicks, hs⟩, hfault⟩ := h
  have hserve : serve env st call =
      settleRoute st (verifyRoute call st provider reference wanted) := by
    rcases hreq with ⟨hreq, rfl⟩ | ⟨hreq, rfl⟩ <;> rw [serve, hreq] <;> rfl
  rw [paymentStep, hadmitted, if_neg Bool.false_ne_true, hserve, verifyRoute, if_pos htruthy,
    writeStatus]
  simp only [hfault, updatePaymentIntentStatus, hpicks, hs, settleRoute]

theorem intents_of_webhookApplied {payload : WebhookPayload} {reference : String}
    (h : WebhookApplied env call kind payload reference) :
    (paymentStep env st call).1.intents =
      setStatus kind.provider (fun entry => decide (entry = some reference))
        (kind.statusOf payload.eventType) st.intents := by
  obtain ⟨hadmitted, ⟨d, ⟨secret, hsecret, hsignature⟩, hparse, hreq⟩, hnamed, happlied⟩ := h
  have hserve : serve env st call = providerWebhook env call st kind d := by
    rcases hreq with ⟨hreq, rfl⟩ | ⟨hreq, rfl⟩ <;> rw [serve, hreq]
  rw [paymentStep, hadmitted, if_neg Bool.false_ne_true, hserve, providerWebhook]
  simp only [hsecret, hsignature, hparse, hnamed, updatePaymentIntentStatus, Member.filter,
    Member.value, ne_eq, not_true_eq_false, if_false]
  rcases hfault : call.fault with _ | fault
  · rfl
  · rw [hfault, Option.all_some] at happlied
    simp only [happlied, if_true]

end ContextLattice.Billing
