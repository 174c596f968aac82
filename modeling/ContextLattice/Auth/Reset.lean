import ContextLattice.Foundation.Search
import ContextLattice.Billing.Stripe

/-!
# Password resets

A reset request looks its token up, counts the attempt, writes the new hash and deletes the token,
in separate calls to the database; a step is one of them. Two requests that both found the token
both write their hash.
-/

namespace ContextLattice.Auth

open Foundation Billing List

/-! ### Tables and requests -/

/-- A row of the table of tokens, without the token, which is its key. -/
structure TokenRow where
  identifier : String
  expires : ℕ
deriving DecidableEq, Repr

structure AuthAttempt where
  email : String
  action : String
  createdAt : ℕ

structure ResetEnv where
  trim : String → String
  toLowerCase : String → String
  hash : String → String → String
  window : ℕ := 600000
  maxAttempts : ℕ := 10

inductive Phase where
  | lookup
  | attempt (record : Option TokenRow)
  | update
  | delete
  | done (response : RouteResponse)
deriving DecidableEq, Repr

structure ResetRequest where
  email : String
  token : String
  password : String
  salt : String
  phase : Phase
deriving DecidableEq, Repr

/-- The tables, the requests under way, and the tokens by which a hash was changed. -/
structure ResetState where
  now : ℕ
  tokens : Dict String TokenRow := .empty
  users : Dict String String := .empty
  attempts : List AuthAttempt := []
  requests : List ResetRequest := []
  changes : List String := []

/-- The address has used up the attempts of its window. -/
def isRateLimited (env : ResetEnv) (s : ResetState) (email action : String) : Bool :=
  decide (env.maxAttempts ≤ (s.attempts.filter fun a =>
    decide (a.email = email ∧ a.action = action ∧ s.now ≤ a.createdAt + env.window)).length)

def recordAttempt (email action : String) (s : ResetState) : ResetState :=
  { s with attempts := s.attempts ++ [⟨email, action, s.now⟩] }

def TokenRow.usable (row : TokenRow) (email : String) (now : ℕ) : Bool :=
  decide (row.identifier = email ∧ now ≤ row.expires)

/-! ### The routes -/

/-- The reset route up to its first call: the checks of the payload and of the rate. -/
def arrive (env : ResetEnv) (s : ResetState) (email token password salt : String) :
    ResetRequest :=
  let normalized := env.toLowerCase (env.trim email)
  let phase : Phase :=
    if normalized = "" ∨ token = "" ∨ utf16Length password < 8 then
      .done ⟨400, some "Invalid reset payload"⟩
    else if isRateLimited env s normalized "reset" then .done ⟨429, some "Too many attempts"⟩
    else .lookup
  ⟨normalized, token, password, salt, phase⟩

/-- The next call of a request, with the phase that comes after it. -/
def advance (env : ResetEnv) (s : ResetState) (r : ResetRequest) : ResetState × Phase :=
  match r.phase with
  | .lookup => (s, .attempt (s.tokens.get? r.token))
  | .attempt record =>
    (recordAttempt r.email "reset" s,
      if record.any fun row => row.usable r.email s.now then .update
      else .done ⟨400, some "Invalid or expired token"⟩)
  | .update =>
    match s.users.get? r.email with
    -- an update of a row that is not there raises
    | none => (s, .done ⟨500, none⟩)
    | some _ =>
      ({ s with
          users := s.users.set r.email (env.hash r.salt r.password)
          changes := s.changes ++ [r.token] }, .delete)
  | .delete =>
    match s.tokens.get? r.token with
    -- and so does a deletion
    | none => (s, .done ⟨500, none⟩)
    | some _ => ({ s with tokens := s.tokens.erase r.token }, .done {})
  | .done response => (s, .done response)

/-- The route that issues a token; one that is in use already makes the insertion raise. -/
def requestReset (env : ResetEnv) (s : ResetState) (email drawn : String) : ResetState :=
  let normalized := env.toLowerCase (env.trim email)
  if normalized = "" ∨ isRateLimited env s normalized "reset" = true then s
  else
    let s := recordAttempt normalized "reset" s
    match s.users.get? normalized, s.tokens.get? drawn with
    | some _, none =>
      { s with tokens := s.tokens.set drawn ⟨normalized, s.now + 3600000⟩ }
    | _, _ => s

/-- A step: a request comes in, makes its next call, dies of an exception or with the process, a
token is issued, or time passes. -/
inductive ResetOp where
  | arrive (email token password salt : String)
  | advance (k : ℕ)
  | abort (k : ℕ)
  | requestReset (email drawn : String)
  | tick (d : ℕ)
deriving DecidableEq, Repr

def resetStep (env : ResetEnv) (s : ResetState) (op : ResetOp) : ResetState :=
  match op with
  | .arrive email token password salt =>
    { s with requests := s.requests ++ [arrive env s email token password salt] }
  | .advance k =>
    match s.requests[k]? with
    | none => s
    | some r =>
      { (advance env s r).1 with
        requests := s.requests.set k { r with phase := (advance env s r).2 } }
  | .abort k =>
    match s.requests[k]? with
    | none => s
    | some r => { s with requests := s.requests.set k { r with phase := .done ⟨500, none⟩ } }
  | .requestReset email drawn => requestReset env s email drawn
  | .tick d => { s with now := s.now + d }

/-! ### Armed requests -/

variable {env : ResetEnv} {token : String} {s : ResetState} {r : ResetRequest} {k : ℕ}

/-- The request has found a usable row of the token and is going to change the hash. -/
def waiting (token : String) (now : ℕ) (r : ResetRequest) : Bool :=
  decide (r.token = token) &&
    match r.phase with
    | .attempt record => record.any fun row => row.usable r.email now
    | .update => true
    | .lookup | .delete | .done _ => false

/-- The request has changed the hash and is going to delete the row. -/
def deleting (token : String) (r : ResetRequest) : Bool :=
  decide (r.token = token) && decide (r.phase = .delete)

def waitingCount (token : String) (s : ResetState) : ℕ := s.requests.countP (waiting token s.now)

def deletingCount (token : String) (s : ResetState) : ℕ := s.requests.countP (deleting token)

def NoneArmed (token : String) (s : ResetState) : Prop :=
  waitingCount token s = 0 ∧ deletingCount token s = 0

instance (token : String) (s : ResetState) : Decidable (NoneArmed token s) := by
  unfold NoneArmed
  infer_instance

/-- No request finds a usable row of the token while another is armed, and none dies between
changing the hash and deleting the row. -/
def Apart (token : String) (s : ResetState) : ResetOp → Prop
  | .advance k => ∀ r ∈ s.requests[k]?, r.token = token → r.phase = .lookup →
      ∀ row ∈ s.tokens.get? token, row.usable r.email s.now = true → NoneArmed token s
  | .abort k => ∀ r ∈ s.requests[k]?, deleting token r = false
  | .arrive _ _ _ _ | .requestReset _ _ | .tick _ => True

instance (token : String) (s : ResetState) (op : ResetOp) : Decidable (Apart token s op) := by
  cases op <;> unfold Apart <;> infer_instance

/-- The token is not issued a second time. -/
def ResetOp.NotDrawn (token : String) : ResetOp → Prop
  | .requestReset _ drawn => drawn ≠ token
  | _ => True

/-- At most one request is armed; the token was not used, or once, nobody else is about to, and the
row is gone or about to be. -/
structure OneUse (token : String) (s : ResetState) : Prop where
  armed_le : waitingCount token s + deletingCount token s ≤ 1
  used : s.changes.count token = 0 ∧ deletingCount token s = 0 ∨
    s.changes.count token = 1 ∧ waitingCount token s = 0 ∧
      (s.tokens.get? token = none ∨ deletingCount token s = 1)

variable {r' : ResetRequest} {s' : ResetState}

theorem countP_set_add {p : ResetRequest → Bool} {l : List ResetRequest} {r : ResetRequest}
    (h : l[k]? = some r) :
    (l.set k r').countP p + (p r).toNat = l.countP p + (p r').toNat := by
  have hcons : ∀ (x : ResetRequest) (xs : List ResetRequest),
      (x :: xs).countP p = xs.countP p + (p x).toNat := by
    intro x xs
    rw [countP_cons]
    rcases p x <;> rfl
  induction l generalizing k with
  | nil => cases h
  | cons x xs ih =>
    cases k with
    | zero =>
      cases h
      rw [set_cons_zero, hcons, hcons]
      omega
    | succ k =>
      have hrest := ih h
      rw [set_cons_succ, hcons, hcons]
      omega

theorem counts_replace (token : String) (s' : ResetState)
    (hr : s.requests[k]? = some r) (hreq : s'.requests = s.requests.set k r')
    (hnow : s'.now = s.now) :
    waitingCount token s' + (waiting token s.now r).toNat =
        waitingCount token s + (waiting token s.now r').toNat ∧
      deletingCount token s' + (deleting token r).toNat =
        deletingCount token s + (deleting token r').toNat := by
  rw [waitingCount, waitingCount, deletingCount, deletingCount, hreq, hnow]
  exact ⟨countP_set_add hr, countP_set_add hr⟩

theorem OneUse.of_counts (hs : OneUse token s) (hW : waitingCount token s' ≤ waitingCount token s)
    (hD : deletingCount token s' = deletingCount token s)
    (hchanges : s'.changes.count token = s.changes.count token)
    (htokens : s'.tokens.get? token = s.tokens.get? token) : OneUse token s' := by
  obtain ⟨harmed, hused⟩ := hs
  rw [← hchanges, ← htokens, ← hD] at hused
  refine ⟨by omega, ?_⟩
  rcases hused with ⟨hcount, hd⟩ | ⟨hcount, hw, hgone⟩
  · exact .inl ⟨hcount, hd⟩
  · exact .inr ⟨hcount, by omega, hgone⟩

variable {response : RouteResponse}

section

variable (hs : OneUse token s) (hr : s.requests[k]? = some r)

include hs hr

section

variable (hreq : s'.requests = s.requests.set k r') (hnow : s'.now = s.now)

include hreq hnow

theorem OneUse.of_same (hwaiting : waiting token s.now r' ≤ waiting token s.now r)
    (hdeleting : deleting token r' = deleting token r)
    (hchanges : s'.changes.count token = s.changes.count token)
    (htokens : s'.tokens.get? token = s.tokens.get? token) : OneUse token s' := by
  obtain ⟨hW, hD⟩ := counts_replace token s' hr hreq hnow
  have hle := Bool.toNat_le_toNat hwaiting
  rw [hdeleting] at hD
  exact hs.of_counts (by omega) (by omega) hchanges htokens

theorem OneUse.of_end (hdone : r'.phase = .done response) (hdeleting : deleting token r = false)
    (hchanges : s'.changes = s.changes) (htokens : s'.tokens.get? token = s.tokens.get? token) :
    OneUse token s' := by
  refine hs.of_same hr hreq hnow ?_ ?_ (by rw [hchanges]) htokens
  · simp [waiting, hdone]
  · rw [hdeleting]
    simp [deleting, hdone]

theorem OneUse.lookup (hphase : r.phase = .lookup)
    (hr' : r' = { r with phase := .attempt (s.tokens.get? r.token) })
    (hchanges : s'.changes = s.changes) (htokens : s'.tokens = s.tokens)
    (hapart : Apart token s (.advance k)) : OneUse token s' := by
  have hw : waiting token s.now r = false := by simp [waiting, hphase]
  have hd : deleting token r = false ∧ deleting token r' = false := by
    simp [deleting, hphase, hr']
  rcases hw' : waiting token s.now r'
  · exact hs.of_same hr hreq hnow (hw'.trans hw.symm).le (hd.2.trans hd.1.symm) (by rw [hchanges])
      (by rw [htokens])
  · obtain ⟨hW, hD⟩ := counts_replace token s' hr hreq hnow
    simp only [hw, hw', hd, Bool.toNat_false, Bool.toNat_true, Nat.add_zero] at hW hD
    simp only [hr', waiting, Bool.and_eq_true, decide_eq_true_eq, Option.any_eq_true] at hw'
    obtain ⟨htoken, row, hrow, husable⟩ := hw'
    rw [htoken] at hrow
    obtain ⟨hW0, hD0⟩ := hapart r hr htoken hphase row hrow husable
    refine ⟨by omega, ?_⟩
    rcases hs.used with ⟨hcount, -⟩ | ⟨-, -, hgone⟩
    · exact .inl ⟨hchanges ▸ hcount, by omega⟩
    · -- the row of a token that was used is gone, so it is not found
      rcases hgone with hnone | hone
      · rw [hnone] at hrow
        cases hrow
      · omega

theorem OneUse.attempt {record : Option TokenRow} (hphase : r.phase = .attempt record)
    (hr' : r' = { r with
      phase := if record.any fun row => row.usable r.email s.now then .update
        else .done ⟨400, some "Invalid or expired token"⟩ })
    (hchanges : s'.changes = s.changes) (htokens : s'.tokens = s.tokens) : OneUse token s' := by
  refine hs.of_same hr hreq hnow ?_ ?_ (by rw [hchanges]) (by rw [htokens])
  · rcases h : record.any fun row => row.usable r.email s.now <;> simp [waiting, hphase, hr', h]
  · rcases h : record.any fun row => row.usable r.email s.now <;> simp [deleting, hphase, hr', h]

theorem OneUse.update (hphase : r.phase = .update) (hr' : r' = { r with phase := .delete })
    (hchanges : s'.changes = s.changes ++ [r.token]) (htokens : s'.tokens = s.tokens) :
    OneUse token s' := by
  by_cases htoken : r.token = token
  · obtain ⟨hW, hD⟩ := counts_replace token s' hr hreq hnow
    simp [waiting, hphase, hr', htoken] at hW
    simp [deleting, hphase, hr', htoken] at hD
    have hone : s'.changes.count token = s.changes.count token + 1 := by simp [hchanges, htoken]
    have harmed := hs.armed_le
    refine ⟨by omega, ?_⟩
    rcases hs.used with ⟨hcount, hd0⟩ | ⟨-, hw0, -⟩
    · exact .inr ⟨by omega, by omega, .inr (by omega)⟩
    · omega
  · refine hs.of_same hr hreq hnow ?_ ?_ ?_ (by rw [htokens])
    · simp [waiting, hr', htoken]
    · simp [deleting, hr', htoken]
    · simp [hchanges, htoken]

theorem OneUse.delete (hphase : r.phase = .delete) (hdone : r'.phase = .done response)
    (hchanges : s'.changes = s.changes)
    (htokens : ∀ t, s'.tokens.get? t = if t = r.token then none else s.tokens.get? t) :
    OneUse token s' := by
  by_cases htoken : r.token = token
  · obtain ⟨hW, hD⟩ := counts_replace token s' hr hreq hnow
    simp [waiting, hphase, hdone] at hW
    simp [deleting, hphase, hdone, htoken] at hD
    have harmed := hs.armed_le
    refine ⟨by omega, ?_⟩
    rcases hs.used with ⟨-, hd0⟩ | ⟨hcount, hw0, -⟩
    · omega
    · exact .inr ⟨hchanges ▸ hcount, by omega, .inl (by rw [htokens, if_pos htoken.symm])⟩
  · refine hs.of_end hr hreq hnow hdone (by simp [deleting, htoken]) hchanges ?_
    rw [htokens, if_neg (Ne.symm htoken)]

end

theorem OneUse.advance (hapart : Apart token s (.advance k)) :
    OneUse token (resetStep env s (.advance k)) := by
  rw [resetStep, hr]
  rcases hphase : r.phase with _ | record | _ | _ | response
  · simp only [Auth.advance, hphase]
    exact hs.lookup hr rfl rfl hphase rfl rfl rfl hapart
  · simp only [Auth.advance, hphase, recordAttempt]
    exact hs.attempt hr rfl rfl hphase rfl rfl rfl
  · simp only [Auth.advance, hphase]
    split
    · exact hs.of_end hr rfl rfl rfl (by simp [deleting, hphase]) rfl rfl
    · exact hs.update hr rfl rfl hphase rfl rfl rfl
  · simp only [Auth.advance, hphase]
    split
    · rename_i hnone
      refine hs.delete hr rfl rfl hphase rfl rfl fun t => ?_
      split
      · rename_i ht
        rw [ht, hnone]
      · rfl
    · exact hs.delete hr rfl rfl hphase rfl rfl fun t => Dict.get?_erase_eq ..
  · simp only [Auth.advance, hphase]
    exact hs.of_end hr rfl rfl rfl (by simp [deleting, hphase]) rfl rfl

end

theorem waiting_of_le {now now' : ℕ} (hle : now ≤ now') (h : waiting token now' r = true) :
    waiting token now r = true := by
  simp only [waiting, Bool.and_eq_true] at h ⊢
  refine ⟨h.1, ?_⟩
  have hphase := h.2
  split at hphase
  · obtain ⟨row, hrow, husable⟩ := Option.any_eq_true _ _ |>.mp hphase
    refine (Option.any_eq_true _ _).mpr ⟨row, hrow, ?_⟩
    simp only [TokenRow.usable, decide_eq_true_eq] at husable ⊢
    exact ⟨husable.1, hle.trans husable.2⟩
  · rfl
  all_goals cases hphase

section

variable (hs : OneUse token s)

include hs

theorem OneUse.append (hphase : r.phase = .lookup ∨ ∃ response, r.phase = .done response) :
    OneUse token { s with requests := s.requests ++ [r] } := by
  have hw : waiting token s.now r = false := by
    rcases hphase with h | ⟨resp, h⟩ <;> simp [waiting, h]
  have hd : deleting token r = false := by
    rcases hphase with h | ⟨resp, h⟩ <;> simp [deleting, h]
  have hW : waitingCount token { s with requests := s.requests ++ [r] } = waitingCount token s := by
    simp [waitingCount, hw]
  have hD : deletingCount token { s with requests := s.requests ++ [r] } =
      deletingCount token s := by
    simp [deletingCount, hd]
  exact hs.of_counts hW.le hD rfl rfl

theorem OneUse.of_tables (hreq : s'.requests = s.requests) (hnow : s'.now = s.now)
    (hchanges : s'.changes = s.changes) (htokens : s'.tokens.get? token = s.tokens.get? token) :
    OneUse token s' := by
  have hW : waitingCount token s' = waitingCount token s := by rw [waitingCount, hreq, hnow]; rfl
  have hD : deletingCount token s' = deletingCount token s := by rw [deletingCount, hreq]; rfl
  exact hs.of_counts hW.le hD (by rw [hchanges]) htokens

theorem OneUse.requestReset {email drawn : String} (hdrawn : drawn ≠ token) :
    OneUse token (Auth.requestReset env s email drawn) := by
  unfold Auth.requestReset
  dsimp only
  split
  · exact hs
  · split
    · refine hs.of_tables rfl rfl rfl ?_
      rw [Dict.get?_set_eq, if_neg (Ne.symm hdrawn)]
      rfl
    · exact hs.of_tables rfl rfl rfl rfl

theorem OneUse.tick (d : ℕ) : OneUse token { s with now := s.now + d } := by
  have hW : waitingCount token { s with now := s.now + d } ≤ waitingCount token s :=
    countP_mono_left fun r _ h => waiting_of_le (Nat.le_add_right s.now d) h
  exact hs.of_counts hW rfl rfl rfl

theorem OneUse.step {op : ResetOp} (hdrawn : op.NotDrawn token) (hapart : Apart token s op) :
    OneUse token (resetStep env s op) := by
  cases op with
  | arrive email token' password salt =>
    refine hs.append ?_
    rw [arrive]
    split
    · exact .inr ⟨_, rfl⟩
    · split
      · exact .inr ⟨_, rfl⟩
      · exact .inl rfl
  | advance k =>
    rcases hr : s.requests[k]? with _ | r
    · rw [resetStep, hr]
      exact hs
    · exact hs.advance hr hapart
  | abort k =>
    rw [resetStep]
    split
    · exact hs
    · rename_i r hr
      exact hs.of_end hr rfl rfl rfl (hapart r hr) rfl rfl
  | requestReset email drawn => exact hs.requestReset hdrawn
  | tick d => exact hs.tick d

end

/-- **A token works at most once** if no request finds it while another is armed with it, and none
dies between changing the hash and deleting the row. -/
theorem used_once (env : ResetEnv) (s : ResetState) (token : String) (hrequests : s.requests = [])
    (hchanges : s.changes = []) (ops : List ResetOp) (hdrawn : ∀ op ∈ ops, op.NotDrawn token)
    (hapart : Along (resetStep env) (Apart token) s ops) :
    (run (resetStep env) s ops).changes.count token ≤ 1 := by
  have hstart : OneUse token s := by
    refine ⟨?_, .inl ⟨by rw [hchanges]; rfl, ?_⟩⟩
    · rw [waitingCount, deletingCount, hrequests]
      exact Nat.zero_le 1
    · rw [deletingCount, hrequests]
      rfl
  have hend : OneUse token (run (resetStep env) s ops) := by
    clear hrequests hchanges
    induction ops generalizing s with
    | nil => exact hstart
    | cons op ops ih =>
      rw [forall_mem_cons] at hdrawn
      exact ih _ hdrawn.2 hapart.2 (hstart.step hdrawn.1 hapart.1)
  rcases hend.used with ⟨hcount, -⟩ | ⟨hcount, -⟩ <;> omega

def oneToken : ResetState :=
  { now := 0
    tokens := Dict.set .empty "t" ⟨"a@example.com", 1000⟩
    users := Dict.set .empty "a@example.com" "old" }

def plainEnv : ResetEnv where
  trim s := s
  toLowerCase s := s
  hash salt password := salt ++ password

def useToken (password : String) : ResetOp := .arrive "a@example.com" "t" password "salt:"

theorem used_once_sequence :
    (run (resetStep plainEnv) oneToken
        [useToken "password1", useToken "password2", .advance 0, .advance 0, .advance 0,
          .advance 0, .advance 1, .advance 1]).changes = ["t"] ∧
      (run (resetStep plainEnv) oneToken
        [useToken "password1", useToken "password2", .advance 0, .advance 0, .advance 0,
          .advance 0, .advance 1, .advance 1]).changes.count "t" ≤ 1 :=
  ⟨by decide +kernel, used_once plainEnv oneToken "t" rfl rfl _
    (by simp [useToken, ResetOp.NotDrawn]) (by decide +kernel)⟩

/-- **A token works twice.** Both requests find the row before either deletes it. -/
theorem used_twice :
    (run (resetStep plainEnv) oneToken
        [useToken "password1", useToken "password2", .advance 0, .advance 1, .advance 0,
          .advance 1, .advance 0]).users.rows = [("a@example.com", "salt:password1")] ∧
      (run (resetStep plainEnv) oneToken
        [useToken "password1", useToken "password2", .advance 0, .advance 1, .advance 0,
          .advance 1, .advance 0, .advance 1]).users.rows = [("a@example.com", "salt:password2")] ∧
      (run (resetStep plainEnv) oneToken
        [useToken "password1", useToken "password2", .advance 0, .advance 1, .advance 0,
          .advance 1, .advance 0, .advance 1]).changes = ["t", "t"] := by
  decide +kernel

/-! ### Two armed requests -/

/-- Request `i` left the clock, the other requests and the accounts as they were. -/
structure Undisturbed (i : ℕ) (s s' : ResetState) : Prop where
  now_eq : s'.now = s.now
  requests_eq : ∀ j ≠ i, s'.requests[j]? = s.requests[j]?
  users_isSome : ∀ email, (s.users.get? email).isSome → (s'.users.get? email).isSome

variable {i : ℕ}

theorem Undisturbed.trans {s s'' : ResetState} (h : Undisturbed i s s')
    (h' : Undisturbed i s' s'') : Undisturbed i s s'' where
  now_eq := h'.now_eq.trans h.now_eq
  requests_eq j hj := (h'.requests_eq j hj).trans (h.requests_eq j hj)
  users_isSome email he := h'.users_isSome email (h.users_isSome email he)

theorem exists_change_of_update (env : ResetEnv) (hr : s.requests[k]? = some r)
    (htoken : r.token = token) (hphase : r.phase = .update)
    (huser : (s.users.get? r.email).isSome) :
    Undisturbed k s (resetStep env s (.advance k)) ∧
      (resetStep env s (.advance k)).changes.count token = s.changes.count token + 1 := by
  obtain ⟨old, hold⟩ := Option.isSome_iff_exists.mp huser
  have hstep : resetStep env s (.advance k) =
      { s with
        users := s.users.set r.email (env.hash r.salt r.password)
        changes := s.changes ++ [r.token]
        requests := s.requests.set k { r with phase := .delete } } := by
    simp only [resetStep, hr, advance, hphase, hold]
  rw [hstep]
  refine ⟨⟨rfl, fun j hj => List.getElem?_set_ne (Ne.symm hj), fun email he => ?_⟩, ?_⟩
  · rw [Dict.get?_set_eq]
    split
    · rfl
    · exact he
  · rw [count_append, htoken, count_singleton_self]

theorem exists_change_of_waiting (env : ResetEnv) (hr : s.requests[k]? = some r)
    (hwaiting : waiting token s.now r = true) (huser : (s.users.get? r.email).isSome) :
    ∃ ops, Undisturbed k s (run (resetStep env) s ops) ∧
      (run (resetStep env) s ops).changes.count token = s.changes.count token + 1 := by
  simp only [waiting, Bool.and_eq_true, decide_eq_true_eq] at hwaiting
  obtain ⟨htoken, hphase⟩ := hwaiting
  split at hphase
  · rename_i record hattempt
    have hstep : resetStep env s (.advance k) =
        { recordAttempt r.email "reset" s with
          requests := s.requests.set k { r with phase := .update } } := by
      simp only [resetStep, hr, advance, hattempt, hphase, if_true]
    have hnext :
        (resetStep env s (.advance k)).requests[k]? = some { r with phase := .update } := by
      rw [hstep]
      exact List.getElem?_set_self (List.getElem?_eq_some_iff.mp hr).1
    obtain ⟨hrest, hchange⟩ := exists_change_of_update env hnext htoken rfl
      (by rw [hstep]; exact huser)
    have hfirst : Undisturbed k s (resetStep env s (.advance k)) := by
      rw [hstep]
      exact ⟨rfl, fun j hj => List.getElem?_set_ne (Ne.symm hj), fun _ he => he⟩
    refine ⟨[.advance k, .advance k], hfirst.trans hrest, ?_⟩
    change (resetStep env (resetStep env s (.advance k)) (.advance k)).changes.count token = _
    rw [hchange, hstep]
    rfl
  · exact ⟨[.advance k], exists_change_of_update env hr htoken ‹_› huser⟩
  all_goals cases hphase

/-- Two requests that wait with one token can both change the hash. -/
theorem exists_second_change (env : ResetEnv) (hne : i ≠ k) (hi : s.requests[i]? = some r)
    (hk : s.requests[k]? = some r') (hwaiting : waiting token s.now r = true)
    (hwaiting' : waiting token s.now r' = true) (huser : (s.users.get? r.email).isSome)
    (huser' : (s.users.get? r'.email).isSome) :
    ∃ ops, (run (resetStep env) s ops).changes.count token = s.changes.count token + 2 := by
  obtain ⟨ops, hrest, hchange⟩ := exists_change_of_waiting env hi hwaiting huser
  obtain ⟨ops', -, hchange'⟩ := exists_change_of_waiting env
    ((hrest.requests_eq k (Ne.symm hne)).trans hk) (by rw [hrest.now_eq]; exact hwaiting')
    (hrest.users_isSome _ huser')
  refine ⟨ops ++ ops', ?_⟩
  rw [run_append, hchange', hchange]

end ContextLattice.Auth
