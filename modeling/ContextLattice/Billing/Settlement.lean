import ContextLattice.Billing.Payments

/-!
# Which payments are settled

An intent is settled once its status is confirmed or captured: for PayPal and Coinbase only after
the provider said so, for Solana Pay and Kraken after a request that anybody can make.
-/

namespace ContextLattice.Billing

open Foundation List

def Settled (status : String) : Prop := status = "confirmed" ∨ status = "captured"

instance (status : String) : Decidable (Settled status) := by
  unfold Settled
  infer_instance

def paymentRun (env : PaymentEnv) (st : PaymentStore) (calls : List PaymentCall) : PaymentStore :=
  run (fun st call => (paymentStep env st call).1) st calls

variable {env : PaymentEnv} {call : PaymentCall} {st : PaymentStore} {intent : PaymentIntent}

variable {picks : Option String → Bool} {i : ℕ}

theorem mem_setStatus {provider : Provider} {status : String}
    {intents : List PaymentIntent} (h : intent ∈ setStatus provider picks status intents) :
    intent ∈ intents ∨ ∃ old ∈ intents, old.provider = provider ∧ picks old.reference = true ∧
      intent = { old with status := status } := by
  obtain ⟨old, hold, heq⟩ := mem_map.mp h
  split at heq
  · rename_i hpicked
    exact .inr ⟨old, hold, hpicked.1, hpicked.2, heq.symm⟩
  · exact .inl (heq ▸ hold)

theorem getElem?_setStatus {provider : Provider} {status : String}
    {intents : List PaymentIntent} (h : intents[i]? = some intent) :
    (setStatus provider picks status intents)[i]? =
      some (if intent.provider = provider ∧ picks intent.reference = true then
        { intent with status := status } else intent) := by
  rw [setStatus, List.getElem?_map, h, Option.map_some]

/-! ### What it takes -/

/-- A webhook whose signature verifies, or a capture answered with success, for the reference of the
intent. -/
def ProviderProof (env : PaymentEnv) (call : PaymentCall) (intent : PaymentIntent) : Prop :=
  ∃ reference, intent.reference = some reference ∧
    ((∃ d payload, Verified env intent.provider d ∧
        env.parse intent.provider d.body = some payload ∧
        truthyText payload.reference = some reference ∧
        (call.request = .paypalWebhook d ∧ intent.provider = .paypal ∨
          call.request = .coinbaseWebhook d ∧ intent.provider = .coinbase)) ∨
      intent.provider = .paypal ∧ ∃ capture id, call.request = .paypalCapture capture ∧
        capture.answer = .ok id ∧ capture.orderId = .text reference)

/-- A verification request was written: the status in its body settles, and the filter in its body
(a text, or an object such as `not`) picks the reference of the intent. -/
def VerifiedByHand (env : PaymentEnv) (call : PaymentCall) (intent : PaymentIntent) : Prop :=
  ∃ picks status, VerifyApplied env call intent.provider picks status ∧ Settled status ∧
    picks intent.reference = true

/-- No verification request picks an intent of the table. -/
def NoneVerified (env : PaymentEnv) (st : PaymentStore) (calls : List PaymentCall) : Prop :=
  Along (fun st call => (paymentStep env st call).1)
    (fun st call => ∀ intent ∈ st.intents, ¬ VerifiedByHand env call intent) st calls

theorem ProviderProof.provider (h : ProviderProof env call intent) :
    intent.provider = .paypal ∨ intent.provider = .coinbase := by
  obtain ⟨_, -, ⟨_, _, -, -, -, ⟨-, h⟩ | ⟨-, h⟩⟩ | ⟨h, -⟩⟩ := h
  · exact .inl h
  · exact .inr h
  · exact .inl h

theorem WebhookApplied.providerProof {kind : WebhookKind} {payload : WebhookPayload}
    {reference : String} (h : WebhookApplied env call kind payload reference)
    (hprovider : intent.provider = kind.provider) (hreference : intent.reference = some reference) :
    ProviderProof env call intent := by
  obtain ⟨-, ⟨d, hverified, hparse, hreq⟩, hnamed, -⟩ := h
  refine ⟨reference, hreference, .inl ⟨d, payload, ?_, ?_, hnamed, ?_⟩⟩
  · rwa [hprovider]
  · rwa [hprovider]
  · rw [hprovider]
    exact hreq.imp (fun h => ⟨h.1, by rw [h.2]; rfl⟩) fun h => ⟨h.1, by rw [h.2]; rfl⟩

theorem CaptureAnswered.providerProof
    (h : CaptureAnswered call picks) (hprovider : intent.provider = .paypal)
    (hpicked : picks intent.reference = true) : ProviderProof env call intent := by
  obtain ⟨capture, id, hreq, hanswer, hpicks⟩ := h
  rcases horder : capture.orderId with s | ⟨filter, value⟩ | truthy
  · rw [horder] at hpicks
    cases hpicks
    exact ⟨s, of_decide_eq_true hpicked, .inr ⟨hprovider, capture, id, hreq, hanswer, horder⟩⟩
  · exact absurd horder (capture.named id filter value hanswer)
  · rw [horder] at hpicks
    cases hpicks

/-- **Step.** A settled intent was settled before, or the request is the proof, or names it to a
verification route. -/
theorem settled_step (hmem : intent ∈ (paymentStep env st call).1.intents)
    (hsettled : Settled intent.status) :
    (∃ old ∈ st.intents, Settled old.status ∧ old.provider = intent.provider ∧
        old.reference = intent.reference) ∨
      ProviderProof env call intent ∨ VerifiedByHand env call intent ∧ ∃ old ∈ st.intents,
        old.provider = intent.provider ∧ old.reference = intent.reference := by
  obtain ⟨effect, heffect, hintents⟩ := hasEffect env st call
  rw [hintents] at hmem
  cases heffect with
  | nothing => exact .inl ⟨intent, hmem, hsettled, rfl, rfl⟩
  | create new hstatus =>
    rw [Effect.apply] at hmem
    rcases mem_append.mp hmem with hold | hnew
    · exact .inl ⟨intent, hold, hsettled, rfl, rfl⟩
    · -- a new intent waits for its payment
      rw [mem_singleton] at hnew
      subst hnew
      rcases hstatus with h | h <;> rw [h] at hsettled <;> exact absurd hsettled (by decide)
  | webhook kind payload reference happlied =>
    rw [Effect.apply] at hmem
    rcases mem_setStatus hmem with hold | ⟨old, hold, hprovider, hpicked, rfl⟩
    · exact .inl ⟨intent, hold, hsettled, rfl, rfl⟩
    · exact .inr (.inl (happlied.providerProof hprovider (of_decide_eq_true hpicked)))
  | capture picks hanswered =>
    rw [Effect.apply] at hmem
    rcases mem_setStatus hmem with hold | ⟨old, hold, hprovider, hpicked, rfl⟩
    · exact .inl ⟨intent, hold, hsettled, rfl, rfl⟩
    · exact .inr (.inl (hanswered.providerProof hprovider hpicked))
  | verify provider picks status happlied =>
    rw [Effect.apply] at hmem
    rcases mem_setStatus hmem with hold | ⟨old, hold, rfl, hpicked, rfl⟩
    · exact .inl ⟨intent, hold, hsettled, rfl, rfl⟩
    · exact .inr (.inr ⟨⟨picks, status, happlied, hsettled, hpicked⟩, old, hold, rfl, rfl⟩)

theorem ProviderProof.congr {old : PaymentIntent} (h : ProviderProof env call old)
    (hprovider : old.provider = intent.provider) (hreference : old.reference = intent.reference) :
    ProviderProof env call intent := by
  rwa [ProviderProof, ← hprovider, ← hreference]

theorem VerifiedByHand.congr {old : PaymentIntent} (h : VerifiedByHand env call old)
    (hprovider : old.provider = intent.provider) (hreference : old.reference = intent.reference) :
    VerifiedByHand env call intent := by
  rwa [VerifiedByHand, ← hprovider, ← hreference]

theorem VerifiedByHand.provider (h : VerifiedByHand env call intent) :
    intent.provider = .solanaPay ∨ intent.provider = .kraken := by
  obtain ⟨_, _, ⟨-, ⟨_, _, hreq, -⟩, -⟩, -⟩ := h
  exact hreq.imp And.right And.right

/-- **Run.** A settled intent has its proof among the requests, or one of them was a verification
request that picked it in the table. -/
theorem settled_run (env : PaymentEnv) (calls : List PaymentCall) :
    ∀ intent ∈ (paymentRun env {} calls).intents, Settled intent.status →
      (∃ call ∈ calls, ProviderProof env call intent) ∨ ∃ pre call post,
        calls = pre ++ call :: post ∧ VerifiedByHand env call intent ∧
          ∃ old ∈ (paymentRun env {} pre).intents, VerifiedByHand env call old := by
  induction calls using List.reverseRecOn with
  | nil => exact fun intent hmem => absurd hmem not_mem_nil
  | append_singleton calls call ih =>
    intro intent hmem hsettled
    rw [paymentRun, run_append] at hmem
    rcases settled_step hmem hsettled with
      ⟨old, hold, hset, hprovider, hreference⟩ | hproof | ⟨hhand, old, hold, hprovider, hreference⟩
    · rcases ih old hold hset with ⟨c, hc, hproof⟩ | ⟨pre, c, post, rfl, hhand, hpicked⟩
      · exact .inl ⟨c, mem_append_left _ hc, hproof.congr hprovider hreference⟩
      · exact .inr ⟨pre, c, post ++ [call], by simp, hhand.congr hprovider hreference, hpicked⟩
    · exact .inl ⟨call, by simp, hproof⟩
    · exact .inr ⟨calls, call, [], rfl, hhand, old, hold,
        hhand.congr hprovider.symm hreference.symm⟩

theorem settled_of_verifiedByHand (hmem : intent ∈ st.intents)
    (h : VerifiedByHand env call intent) :
    ∃ after ∈ (paymentStep env st call).1.intents, Settled after.status ∧
      after.provider = intent.provider := by
  obtain ⟨picks, status, happlied, hset, hpicked⟩ := h
  obtain ⟨i, hi⟩ := List.getElem?_of_mem hmem
  refine ⟨{ intent with status := status }, mem_of_getElem? (i := i) ?_, hset, rfl⟩
  rw [intents_of_verifyApplied happlied, getElem?_setStatus hi, if_pos ⟨rfl, hpicked⟩]

/-- **What it takes** to settle an intent: the word of the provider, or, for Solana Pay and Kraken,
a request to the verification route. Intents are settled on the word of their provider alone exactly
if no verification request picks one. -/
theorem settled_after (env : PaymentEnv) (calls : List PaymentCall) :
    (∀ intent ∈ (paymentRun env {} calls).intents, Settled intent.status →
      (∃ call ∈ calls, ProviderProof env call intent) ∨
        (intent.provider = .solanaPay ∨ intent.provider = .kraken) ∧
          ∃ call ∈ calls, VerifiedByHand env call intent) ∧
    ((∀ pre post, calls = pre ++ post → ∀ intent ∈ (paymentRun env {} pre).intents,
        Settled intent.status → ∃ call ∈ pre, ProviderProof env call intent) ↔
      NoneVerified env {} calls) := by
  refine ⟨fun intent hmem hset => ?_, fun h => along_iff.mpr ?_, ?_⟩
  · refine (settled_run env calls intent hmem hset).imp_right ?_
    rintro ⟨pre, call, post, rfl, hhand, -⟩
    exact ⟨hhand.provider, call, by simp, hhand⟩
  · rintro pre call post rfl intent hmem hhand
    obtain ⟨after, hafter, hset, hprovider⟩ := settled_of_verifiedByHand hmem hhand
    have hrun : after ∈ (paymentRun env {} (pre ++ [call])).intents := by
      rw [paymentRun, run_append]
      exact hafter
    obtain ⟨c, -, hproof⟩ := h (pre ++ [call]) post (by simp) after hrun hset
    have hnot := hproof.provider
    rw [hprovider] at hnot
    rcases hhand.provider with h | h <;> rw [h] at hnot <;> simp at hnot
  · rintro h pre post rfl intent hmem hset
    refine (settled_run env pre intent hmem hset).resolve_right ?_
    rintro ⟨front, call, back, rfl, -, old, hold, hhand⟩
    exact (along_append.mp h).1.step_of_append.2 old hold hhand

def sampleEnv : PaymentEnv where
  authRequired := false
  hmac secret body := secret ++ body
  webhookSecret _ := some "secret"
  parse _ body := some ⟨some body, some "evt", some "ORDER-1"⟩
  stripe := ⟨none, fun _ _ _ => .error ""⟩
  krakenPayAddress := some "deposit-address"
  solanaPayEnabled := true
  solpayRecipient := none
  coinbaseApiKey := none
  getStripePriceId _ _ := none

def unpaidOrder : List PaymentCall :=
  [{ request := .kraken ⟨.text "enterprise", .text "annual"⟩
     session := some ⟨some "a@example.com", some "user_1"⟩ },
   { request := .krakenVerify (.text "deposit-address") (.other false) }]

theorem settled_after_unpaidOrder :
    ∃ intent ∈ (paymentRun sampleEnv {} unpaidOrder).intents, Settled intent.status ∧
      ((∃ call ∈ unpaidOrder, ProviderProof sampleEnv call intent) ∨
        (intent.provider = .solanaPay ∨ intent.provider = .kraken) ∧
          ∃ call ∈ unpaidOrder, VerifiedByHand sampleEnv call intent) := by
  obtain ⟨intent, hmem, hset⟩ : ∃ intent ∈ (paymentRun sampleEnv {} unpaidOrder).intents,
      Settled intent.status := by decide +kernel
  exact ⟨intent, hmem, hset, (settled_after _ _).1 intent hmem hset⟩

/-- **An intent is confirmed without proof.** No webhook arrived and nothing was captured. -/
theorem confirmed_without_proof :
    (paymentRun sampleEnv {} unpaidOrder).intents =
        [⟨"user_1", .kraken, "confirmed", "enterprise", "annual", 2490, "USD",
          some "deposit-address"⟩] ∧
      ∀ call ∈ unpaidOrder, ∀ intent, ¬ ProviderProof sampleEnv call intent := by
  refine ⟨by decide +kernel, ?_⟩
  intro call hcall intent hproof
  obtain ⟨_, _, ⟨_, _, _, _, _, ⟨hreq, _⟩ | ⟨hreq, _⟩⟩ | ⟨_, _, _, hreq, _⟩⟩ := hproof
  all_goals
    rcases mem_cons.mp hcall with rfl | hcall
    · cases hreq
    · rw [mem_singleton] at hcall
      subst hcall
      cases hreq

/-! ### Whether it stays so -/

def PaymentCall.IsSettlement (call : PaymentCall) : Prop :=
  match call.request with
  | .paypalWebhook _ | .coinbaseWebhook _ | .paypalCapture _ => True
  | _ => False

/-- The request is an applied webhook that names the intent, of an event type that does not speak of
a completed payment. -/
def Reverts (env : PaymentEnv) (call : PaymentCall) (intent : PaymentIntent) : Prop :=
  ∃ kind payload reference, WebhookApplied env call kind payload reference ∧
    isIn kind.doneWord (payload.eventType.getD "") = false ∧
    intent.provider = kind.provider ∧ intent.reference = some reference

def StaysSettled (env : PaymentEnv) (st : PaymentStore) (calls : List PaymentCall) : Prop :=
  ∀ (pre mid post : List PaymentCall) (i : ℕ) (before after : PaymentIntent),
    calls = pre ++ mid ++ post → (paymentRun env st pre).intents[i]? = some before →
    Settled before.status → (paymentRun env st (pre ++ mid)).intents[i]? = some after →
    after.status ≠ "pending"

def NoneReverted (env : PaymentEnv) (st : PaymentStore) (calls : List PaymentCall) : Prop :=
  Along (fun st call => (paymentStep env st call).1)
    (fun st call => ∀ intent ∈ st.intents, Settled intent.status → ¬ Reverts env call intent)
    st calls

theorem stays_settled_step (hcall : call.IsSettlement)
    (hbefore : st.intents[i]? = some intent) (hsettled : Settled intent.status)
    (hnot : ¬ Reverts env call intent) :
    ∃ after, (paymentStep env st call).1.intents[i]? = some after ∧ Settled after.status := by
  obtain ⟨effect, heffect, hintents⟩ := hasEffect env st call
  rw [hintents]
  cases heffect with
  | nothing => exact ⟨intent, hbefore, hsettled⟩
  | create new hstatus =>
    refine ⟨intent, ?_, hsettled⟩
    rw [Effect.apply, List.getElem?_append_left (List.getElem?_eq_some_iff.mp hbefore).1, hbefore]
  | webhook kind payload reference happlied =>
    rw [Effect.apply]
    refine ⟨_, getElem?_setStatus hbefore, ?_⟩
    split
    · rename_i hpicked
      rw [WebhookKind.statusOf]
      split
      · obtain ⟨d, -, -, ⟨-, rfl⟩ | ⟨-, rfl⟩⟩ := happlied.signed
        · exact .inr rfl
        · exact .inl rfl
      · rename_i hword
        rw [Bool.not_eq_true] at hword
        exact absurd ⟨kind, payload, reference, happlied, hword, hpicked.1,
          of_decide_eq_true hpicked.2⟩ hnot
    · exact hsettled
  | capture picks hanswered =>
    refine ⟨_, getElem?_setStatus hbefore, ?_⟩
    split
    · exact .inr rfl
    · exact hsettled
  | verify provider picks status happlied =>
    obtain ⟨_, _, ⟨hreq, -⟩ | ⟨hreq, -⟩, -⟩ := happlied.asked <;>
      simp [PaymentCall.IsSettlement, hreq] at hcall

theorem stays_settled_run {calls : List PaymentCall} (hcalls : ∀ c ∈ calls, c.IsSettlement)
    (hbefore : st.intents[i]? = some intent) (hsettled : Settled intent.status)
    (hnot : NoneReverted env st calls) :
    ∃ after, (paymentRun env st calls).intents[i]? = some after ∧ Settled after.status := by
  induction calls generalizing st intent with
  | nil => exact ⟨intent, hbefore, hsettled⟩
  | cons call calls ih =>
    rw [forall_mem_cons] at hcalls
    obtain ⟨after, hafter, hset⟩ := stays_settled_step hcalls.1 hbefore hsettled
      (hnot.1 intent (mem_of_getElem? hbefore) hsettled)
    exact ih hcalls.2 hafter hset hnot.2

theorem pending_of_reverts (hbefore : st.intents[i]? = some intent) (h : Reverts env call intent) :
    (paymentStep env st call).1.intents[i]? = some { intent with status := "pending" } := by
  obtain ⟨kind, payload, reference, happlied, hword, hprovider, hreference⟩ := h
  rw [intents_of_webhookApplied happlied, getElem?_setStatus hbefore,
    if_pos ⟨hprovider, decide_eq_true hreference⟩, WebhookKind.statusOf, hword,
    if_neg Bool.false_ne_true]

/-- **When settled payments stay settled**: exactly if no applied webhook names a settled intent
with an event type that does not speak of a completed payment. -/
theorem stays_settled_iff (env : PaymentEnv) (st : PaymentStore) (calls : List PaymentCall)
    (hcalls : ∀ call ∈ calls, call.IsSettlement) :
    StaysSettled env st calls ↔ NoneReverted env st calls := by
  constructor
  · intro h
    rw [NoneReverted, along_iff]
    rintro pre call post rfl intent hmem hsettled hreverts
    obtain ⟨i, hi⟩ := List.getElem?_of_mem hmem
    refine h pre [call] post i intent { intent with status := "pending" } (by simp) hi hsettled
      ?_ rfl
    rw [paymentRun, run_append]
    exact pending_of_reverts hi hreverts
  · rintro h pre mid post i before after rfl hbefore hsettled hafter hpending
    rw [NoneReverted, append_assoc, along_append, along_append] at h
    obtain ⟨later, hlater, hset⟩ := stays_settled_run
      (fun c hc => hcalls c (by simp [hc])) hbefore hsettled h.2.1
    rw [paymentRun, run_append] at hafter
    obtain rfl : later = after := Option.some.inj (hlater.symm.trans hafter)
    rw [hpending] at hset
    exact absurd hset (by decide)

def oneOrder : PaymentStore :=
  { intents := [⟨"user_1", .paypal, "created", "team", "monthly", 79, "USD", some "ORDER-1"⟩] }

def signedWebhook (eventType : String) : PaymentCall :=
  { request := .paypalWebhook ⟨eventType, "secret" ++ eventType⟩ }

theorem not_reverts_signedWebhook {eventType : String} (h : isIn "COMPLETED" eventType = true) :
    ¬ Reverts sampleEnv (signedWebhook eventType) intent := by
  rintro ⟨kind, payload, reference, ⟨-, ⟨d, -, hparse, ⟨hreq, rfl⟩ | ⟨hreq, -⟩⟩, -, -⟩, hword, -⟩
  · cases hreq
    cases hparse
    exact Bool.false_ne_true (hword.symm.trans h)
  · cases hreq

theorem stays_settled_iff_completed :
    (paymentRun sampleEnv oneOrder [signedWebhook "CHECKOUT.ORDER.COMPLETED"]).intents.map
        PaymentIntent.status = ["captured"] ∧
      StaysSettled sampleEnv oneOrder
        [signedWebhook "CHECKOUT.ORDER.COMPLETED", signedWebhook "PAYMENT.CAPTURE.COMPLETED"] := by
  refine ⟨by decide +kernel, (stays_settled_iff sampleEnv oneOrder _ ?_).mpr ?_⟩
  · intro call hcall
    rcases mem_cons.mp hcall with rfl | hcall
    · trivial
    · rw [mem_singleton] at hcall
      subst hcall
      trivial
  · exact ⟨fun _ _ _ => not_reverts_signedWebhook (by decide +kernel),
      fun _ _ _ => not_reverts_signedWebhook (by decide +kernel), trivial⟩

/-- **A captured payment is pending again.** The approval of an order arrives after its
completion. -/
theorem pending_after_captured :
    (paymentRun sampleEnv oneOrder
        [signedWebhook "CHECKOUT.ORDER.COMPLETED"]).intents.map PaymentIntent.status =
        ["captured"] ∧
      (paymentRun sampleEnv oneOrder
        [signedWebhook "CHECKOUT.ORDER.COMPLETED",
          signedWebhook "CHECKOUT.ORDER.APPROVED"]).intents.map PaymentIntent.status =
        ["pending"] := by
  decide +kernel

end ContextLattice.Billing
