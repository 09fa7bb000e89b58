import HubScope.Server.CaptchaStore
import HubScope.Server.CaptchaTrigger
import HubScope.Server.LoginAlert
import HubScope.Server.LoginDelayer
import HubScope.Server.Session

/-!
# Logging in

An attempt to log in makes its way through calls to the defenses of the server: the trigger that
asks for a captcha, the captcha store, the users table, the brute-force alert and the delay.
Each call is atomic, and attempts interleave between their calls. So many attempts can pass the
trigger before the first of them is recorded as a failure; what the trigger bounds is what passes
it without a captcha beyond those in flight. A failed attempt is answered alike whatever it failed
on, and leaves the same counts behind.

## Main definitions

* `LoginDefenses` — what the server was set up with, and `LoginShared` — what the attempts share
* `LoginPc`, `LoginDefenses.advance` — the next call of an attempt, and what it does
* `LoginDefenses.step` — attempts arrive and advance, captchas are issued, accounts change
* `LoginState.guesses`, `LoginState.pending` — the attempts that passed the trigger, and those of
  them that are not counted yet

## Main results

* `LoginDefenses.guesses_run_le` — how many passwords can be tried within the window
* `LoginDefenses.answers_eq_of_sameGrants` — why an attempt fails cannot be told from outside
-/

set_option autoImplicit false

namespace HubScope

open SlidingWindow

/-- The defenses that the server was set up with, some of which may be disabled, and the
comparison of a stored hash with a password. -/
structure LoginDefenses where
  captchaTrigger : Option CaptchaTrigger
  captchaStore : Option CaptchaStore
  loginDelayer : Option LoginDelayer
  loginAlertTracker : Option LoginAlertTracker
  compareHashAndPassword : String → String → Bool

/-- An attempt to log in, from an address. -/
structure LoginRequest where
  ip : String
  username : String
  password : String
  captchaId : String
  captchaAnswer : String
  deriving DecidableEq

/-- An `audit_logs` row of the action `auth.login`. -/
structure LoginAudit where
  loggedAt : ℤ
  actor : String
  ip : String
  username : String
  detail : String
  result : String
  hubId : Option ℕ
  deriving DecidableEq

/-- The answer to an attempt. The cookie's token is signed over the user and the time of issue. -/
inductive LoginAnswer
  | authenticated (userId : ℕ) (issued : ℤ)
  | refused (status : ℕ) (message : String) (captchaRequired : Bool)
  deriving DecidableEq

/-- What the attempts share. -/
structure LoginShared where
  tables : CaptchaTables
  items : CaptchaItems
  delays : LoginDelays
  events : LoginEvents
  alerts : List LoginFailureSnapshot
  audits : List LoginAudit
  accounts : Accounts

/-- The call an attempt makes next, or the answer it has, with the sleep before it. -/
inductive LoginPc
  | askTrigger
  | verifyCaptcha
  | auditCaptcha (detail message : String)
  | trackCaptcha (message : String)
  | lookup
  | auditFailure (user : Option SessionUser) (reason : String)
  | trackFailure
  | recordFailure
  | penalize
  | resetDelay (user : SessionUser)
  | resetTrigger (user : SessionUser)
  | auditSuccess (user : SessionUser) (issued : ℤ)
  | done (sleep : Option ℤ) (answer : LoginAnswer)
  deriving DecidableEq

/-- `GetUserByUsername`. -/
def Accounts.getUserByUsername (st : Accounts) (username : String) : Option User :=
  st.users.find? fun u => u.username == username

/-- The row that `audit` writes for an attempt. Without a user in the context the actor is the
system. -/
def loginAudit (now : ℤ) (req : LoginRequest) (user : Option SessionUser)
    (detail result : String) : LoginAudit where
  loggedAt := now
  actor := user.elim "system" SessionUser.username
  ip := req.ip
  username := req.username
  detail := detail
  result := result
  hubId := user.bind SessionUser.hubId

namespace LoginShared

/-- `audit`. A row that the store does not take is lost. -/
def audit (s : LoginShared) (ok : Bool) (row : LoginAudit) : LoginShared :=
  { s with audits := if ok then s.audits ++ [row] else s.audits }

end LoginShared

namespace LoginDefenses

variable (cfg : LoginDefenses)

/-- Feed the brute-force tracker, which may fire an alert. -/
def track (s : LoginShared) (now : ℤ) (req : LoginRequest) : LoginShared :=
  match cfg.loginAlertTracker with
  | none => s
  | some t =>
    let (events, alert) := t.record s.events now req.username req.ip
    { s with events, alerts := s.alerts ++ alert.toList }

/-- Compare the attempt with the account that was found. -/
def check (req : LoginRequest) : Option User → LoginPc
  | none => .auditFailure none "user not found"
  | some user =>
    if ¬ user.enabled then .auditFailure (some user.session) "disabled"
    else if ¬ cfg.compareHashAndPassword user.passwordHash req.password then
      .auditFailure (some user.session) "wrong password"
    else .resetDelay user.session

/-- `handleLogin` and `failLogin`: the next call of an attempt. `ok` says whether the database
answers, where it is asked. -/
def advance (now : ℤ) (ok : Bool) (s : LoginShared) (req : LoginRequest) :
    LoginPc → LoginShared × LoginPc
  | .askTrigger =>
    match cfg.captchaTrigger with
    | none => (s, .lookup)
    | some t =>
      if t.required s.tables req.ip req.username now then
        if req.captchaId = "" ∨ req.captchaAnswer = "" then
          (s, .auditCaptcha "captcha required" "请完成验证码")
        else (s, .verifyCaptcha)
      else (s, .lookup)
  | .verifyCaptcha =>
    match cfg.captchaStore with
    | none => (s, .auditCaptcha "captcha wrong" "验证码错误或已过期")
    | some _ =>
      let (items, right) := CaptchaStore.verify s.items req.captchaId req.captchaAnswer now
      ({ s with items },
        if right then .lookup else .auditCaptcha "captcha wrong" "验证码错误或已过期")
  | .auditCaptcha detail message =>
    (s.audit ok (loginAudit now req none detail "failed"), .trackCaptcha message)
  | .trackCaptcha message => (cfg.track s now req, .done none (.refused 401 message true))
  | .lookup =>
    -- a lookup that fails is answered like an unknown user
    (s, cfg.check req (if ok then s.accounts.getUserByUsername req.username else none))
  | .auditFailure user reason =>
    (s.audit ok (loginAudit now req user reason "failed"), .trackFailure)
  | .trackFailure => (cfg.track s now req, .recordFailure)
  | .recordFailure =>
    match cfg.captchaTrigger with
    | none => (s, .penalize)
    | some t => ({ s with tables := t.recordFailure s.tables req.ip req.username now }, .penalize)
  | .penalize =>
    match cfg.loginDelayer with
    | none => (s, .done none (.refused 401 "invalid credentials" false))
    | some d =>
      let (delays, sleep) := d.penalize s.delays req.username now
      ({ s with delays }, .done sleep (.refused 401 "invalid credentials" false))
  -- the delay and the trigger have locks of their own, so other attempts may come in between
  | .resetDelay user =>
    match cfg.loginDelayer with
    | none => (s, .resetTrigger user)
    | some _ => ({ s with delays := LoginDelayer.reset s.delays req.username }, .resetTrigger user)
  | .resetTrigger user =>
    match cfg.captchaTrigger with
    | none => (s, .auditSuccess user now)
    | some _ =>
      ({ s with tables := CaptchaTrigger.reset s.tables req.ip req.username },
        .auditSuccess user now)
  | .auditSuccess user issued =>
    (s.audit ok (loginAudit now req (some user) "" "success"),
      .done none (.authenticated user.userId issued))
  | .done sleep answer => (s, .done sleep answer)

end LoginDefenses

/-- What the attempts share, and the attempts. -/
structure LoginState where
  shared : LoginShared
  attempts : List (LoginRequest × LoginPc)

/-- An attempt arrives or advances, a captcha is asked for, or the accounts change. -/
inductive LoginLabel
  | arrive (req : LoginRequest)
  | advance (i : ℕ) (ok : Bool)
  | captcha (random : Option (String × String))
  | accounts (st : Accounts)

/-- What is seen from outside: the answer to an attempt with the sleep before it, and whether a
captcha was issued. -/
inductive LoginReply
  | login (i : ℕ) (sleep : Option ℤ) (answer : LoginAnswer)
  | captcha (issued : Bool)
  deriving DecidableEq

/-- The answer of an attempt that has just been done. -/
def LoginPc.reply (i : ℕ) : LoginPc → Option LoginReply
  | .done sleep answer => some (.login i sleep answer)
  | _ => none

namespace LoginDefenses

variable (cfg : LoginDefenses)

/-- Ask the store for a captcha. A store that is disabled issues none. -/
def handleCaptcha (items : CaptchaItems) (random : Option (String × String)) (now : ℤ) :
    CaptchaItems × Bool :=
  match cfg.captchaStore with
  | none => (items, false)
  | some st => st.issue items random now

/-- One step, with what is seen of it. -/
def step (s : LoginState) : ℤ × LoginLabel → LoginState × Option LoginReply
  -- nothing is asked yet: the trigger is the attempt's first call
  | (_, .arrive req) => ({ s with attempts := s.attempts ++ [(req, .askTrigger)] }, none)
  | (now, .advance i ok) =>
    match s.attempts[i]? with
    | none => (s, none)
    | some (_, .done ..) => (s, none)
    | some (req, pc) =>
      let (shared, pc) := cfg.advance now ok s.shared req pc
      (⟨shared, s.attempts.set i (req, pc)⟩, pc.reply i)
  | (now, .captcha random) =>
    let (items, issued) := cfg.handleCaptcha s.shared.items random now
    ({ s with shared := { s.shared with items } }, some (.captcha issued))
  | (_, .accounts st) => ({ s with shared := { s.shared with accounts := st } }, none)

end LoginDefenses

/-- The server has just started, with the accounts it finds and the rows audited before. -/
def loginStart (accounts : Accounts) (audits : List LoginAudit) : LoginState where
  shared := ⟨noFailures, ∅, noDelays, ⟨[], none⟩, [], audits, accounts⟩
  attempts := []

/-! ### What the trigger counts -/

/-- An address or a user name: what failures are counted for. -/
inductive LoginKey
  | ip (address : String)
  | username (name : String)

/-- The attempts that a key is about. -/
def LoginKey.isOf : LoginKey → LoginRequest → Bool
  | .ip address, req => req.ip = address
  | .username name, req => req.username = name

/-- The failures in the log of a key. -/
def LoginKey.log : LoginKey → FailureLog → List ℤ
  | .ip address, l => l.byIP address
  | .username name, l => l.byUser name

/-- The table of a key has room for it. -/
def LoginKey.hasRoom (t : CaptchaTrigger) : LoginKey → CaptchaTables → Prop
  | .ip address, s => s.byIP.HasRoom t.maxEntries address
  | .username name, s => s.byUser.HasRoom t.maxEntries name

instance (t : CaptchaTrigger) (s : CaptchaTables) : ∀ key, Decidable (LoginKey.hasRoom t key s)
  | .ip address => inferInstanceAs (Decidable (s.byIP.HasRoom t.maxEntries address))
  | .username name => inferInstanceAs (Decidable (s.byUser.HasRoom t.maxEntries name))

/-- The attempt passed the trigger, and the captcha where one was asked for: its password is
compared, or was. -/
def LoginPc.passed : LoginPc → Bool
  | .askTrigger | .verifyCaptcha | .auditCaptcha .. | .trackCaptcha _ => false
  | .done _ (.refused _ _ captchaRequired) => !captchaRequired
  | _ => true

/-- The attempt passed the trigger, which has not been told of its outcome. -/
def LoginPc.pending : LoginPc → Bool
  | .lookup | .auditFailure .. | .trackFailure | .recordFailure | .resetDelay _
  | .resetTrigger _ => true
  | _ => false

/-- The attempt tells the trigger of a success next. -/
def LoginPc.rewards : LoginPc → Bool
  | .resetTrigger _ => true
  | _ => false

namespace LoginState

/-- The attempts of a key that passed the trigger. -/
def guesses (key : LoginKey) (s : LoginState) : ℕ :=
  s.attempts.countP fun a => key.isOf a.1 && a.2.passed

/-- The attempts of a key that passed the trigger, which has not been told of their outcome. -/
def pending (key : LoginKey) (s : LoginState) : ℕ :=
  s.attempts.countP fun a => key.isOf a.1 && a.2.pending

end LoginState

namespace LoginDefenses

/-- An attempt whose next call neither tells the trigger of a success of the key nor finds a full
table for a failure of the key. -/
def Unrewarded (t : CaptchaTrigger) (key : LoginKey) (tables : CaptchaTables) (now : ℤ)
    (attempt : LoginRequest × LoginPc) : Prop :=
  key.isOf attempt.1 = true →
    attempt.2.rewards = false ∧ (attempt.2 = .recordFailure → key.hasRoom t (t.evict tables now))

instance (t : CaptchaTrigger) (key : LoginKey) (tables : CaptchaTables) (now : ℤ)
    (attempt : LoginRequest × LoginPc) : Decidable (Unrewarded t key tables now attempt) :=
  inferInstanceAs (Decidable (key.isOf attempt.1 = true →
    attempt.2.rewards = false ∧ (attempt.2 = .recordFailure → key.hasRoom t (t.evict tables now))))

/-- A step of a run in which a key is guessed at: it comes before the deadline, it is unrewarded,
and at most `k` attempts of the key are pending after it. -/
def Guessing (cfg : LoginDefenses) (t : CaptchaTrigger) (key : LoginKey) (k : ℕ) (deadline : ℤ)
    (s : LoginState) (a : ℤ × LoginLabel) : Prop :=
  a.1 < deadline ∧ (cfg.step s a).1.pending key ≤ k ∧
    match a.2 with
    | .advance i _ => ∀ attempt ∈ s.attempts[i]?, Unrewarded t key s.shared.tables a.1 attempt
    | .arrive _ | .captcha _ | .accounts _ => True

instance (cfg : LoginDefenses) (t : CaptchaTrigger) (key : LoginKey) (k : ℕ) (deadline : ℤ)
    (s : LoginState) : ∀ a, Decidable (Guessing cfg t key k deadline s a)
  | (now, .advance i ok) =>
    inferInstanceAs (Decidable (now < deadline ∧
      (cfg.step s (now, .advance i ok)).1.pending key ≤ k ∧
      ∀ attempt ∈ s.attempts[i]?, Unrewarded t key s.shared.tables now attempt))
  | (now, .arrive req) =>
    inferInstanceAs (Decidable (now < deadline ∧
      (cfg.step s (now, .arrive req)).1.pending key ≤ k ∧ True))
  | (now, .captcha random) =>
    inferInstanceAs (Decidable (now < deadline ∧
      (cfg.step s (now, .captcha random)).1.pending key ≤ k ∧ True))
  | (now, .accounts st) =>
    inferInstanceAs (Decidable (now < deadline ∧
      (cfg.step s (now, .accounts st)).1.pending key ≤ k ∧ True))

end LoginDefenses

/-- The captchas that were issued. -/
def captchasIssued (out : List LoginReply) : ℕ := out.count (.captcha true)

/-! ### The logs of the trigger -/

namespace CaptchaTrigger

variable {t : CaptchaTrigger} {s : CaptchaTables} {l : FailureLog} {now : ℤ} {req : LoginRequest}

/-- A failure, whether it finds a table full or not, is logged for the keys whose table it finds
with room, and for no others. -/
theorem Simulates.exists_recordFailure (h : Simulates t now s l) (req : LoginRequest) :
    ∃ l', Simulates t now (t.recordFailure s req.ip req.username now) l' ∧ ∀ key : LoginKey,
      (key.isOf req = false → key.log l' = key.log l) ∧
      (key.isOf req = true → key.hasRoom t (t.evict s now) → key.log l' = key.log l ++ [now]) := by
  have hswept := h.evict
  have hcutoff : now - t.window < now := Int.sub_lt_self now t.window_pos
  obtain ⟨byIP, hip, hipOther, hipRoom⟩ := hswept.byIP.exists_record hcutoff t.maxEntries req.ip
  obtain ⟨byUser, huser, huserOther, huserRoom⟩ :=
    hswept.byUser.exists_record hcutoff t.maxEntries req.username
  refine ⟨⟨byIP, byUser⟩, ⟨hip, huser⟩, fun key => ?_⟩
  cases key with
  | ip address =>
    constructor
    · intro hother
      exact hipOther address fun heq => of_decide_eq_false hother heq.symm
    · intro hof hroom
      obtain rfl : req.ip = address := of_decide_eq_true hof
      exact hipRoom hroom
  | username name =>
    constructor
    · intro hother
      exact huserOther name fun heq => of_decide_eq_false hother heq.symm
    · intro hof hroom
      obtain rfl : req.username = name := of_decide_eq_true hof
      exact huserRoom hroom

/-- A success clears the logs of its keys, and no others. -/
theorem Simulates.exists_reset (h : Simulates t now s l) (req : LoginRequest) :
    ∃ l', Simulates t now (reset s req.ip req.username) l' ∧ ∀ key : LoginKey,
      key.isOf req = false → key.log l' = key.log l := by
  refine ⟨⟨_, _⟩, ⟨h.byIP.erase req.ip, h.byUser.erase req.username⟩, fun key hother => ?_⟩
  cases key with
  | ip address => exact Function.update_of_ne (fun heq => of_decide_eq_false hother heq.symm) _ _
  | username name => exact Function.update_of_ne (fun heq => of_decide_eq_false hother heq.symm) _ _

/-- An attempt that no captcha is required of has keys below the threshold. -/
theorem Simulates.length_recent_lt (h : Simulates t now s l) {key : LoginKey}
    (hof : key.isOf req = true) (hfree : t.required s req.ip req.username now = false) :
    (recent (now - t.window) (key.log l)).length < t.threshold := by
  rw [h.required_eq, FailureLog.required, decide_eq_false_iff_not, not_or, Nat.not_le,
    Nat.not_le] at hfree
  cases key with
  | ip address =>
    obtain rfl : req.ip = address := of_decide_eq_true hof
    exact hfree.1
  | username name =>
    obtain rfl : req.username = name := of_decide_eq_true hof
    exact hfree.2

end CaptchaTrigger

/-! ### One step of an attempt -/

namespace CaptchaStore

variable {st : CaptchaStore} {items : CaptchaItems} {id answer : String} {now : ℤ}

theorem size_verify_le (items : CaptchaItems) (id answer : String) (now : ℤ) :
    (verify items id answer now).1.size ≤ items.size := by
  rw [verify_fst]
  exact CaptchaItems.size_erase_le items id

/-- A right answer is one less to be given. -/
theorem size_verify_lt (h : (verify items id answer now).2 = true) :
    (verify items id answer now).1.size + 1 ≤ items.size := by
  -- an answer can only be right if the id is there
  have hid : id ∈ items.keys := by
    rw [verify_snd, CaptchaItems.lookup_sweep] at h
    by_contra hnot
    have hnone : items.lookup id = none := AList.lookup_eq_none.mpr hnot
    rw [hnone] at h
    cases h
  have hpos := List.length_pos_of_mem hid
  rw [verify_fst, CaptchaItems.size, AList.keys_erase, List.length_erase_of_mem hid,
    CaptchaItems.size]
  omega

/-- An issued captcha is at most one more to be answered. -/
theorem size_issue_le (st : CaptchaStore) (items : CaptchaItems)
    (random : Option (String × String)) (now : ℤ) :
    (st.issue items random now).1.size ≤ items.size + (st.issue items random now).2.toNat := by
  have hswept := CaptchaItems.size_sweep_le now items
  by_cases hfull : st.maxEntries ≤ (items.sweep now).size
  · simp only [issue, if_pos hfull]
    exact hswept
  · simp only [issue, if_neg hfull]
    cases random with
    | none => exact hswept
    | some captcha =>
      exact (CaptchaItems.size_insert_le _ captcha.1 _).trans (Nat.succ_le_succ hswept)

end CaptchaStore

namespace LoginDefenses

variable {cfg : LoginDefenses} {t : CaptchaTrigger} {s : LoginShared} {req : LoginRequest}
  {pc : LoginPc} {now : ℤ} {ok : Bool}

@[simp] theorem tables_audit (s : LoginShared) (ok : Bool) (row : LoginAudit) :
    (s.audit ok row).tables = s.tables := rfl

@[simp] theorem items_audit (s : LoginShared) (ok : Bool) (row : LoginAudit) :
    (s.audit ok row).items = s.items := rfl

@[simp] theorem tables_track (cfg : LoginDefenses) (s : LoginShared) (now : ℤ)
    (req : LoginRequest) : (cfg.track s now req).tables = s.tables := by
  rw [track]
  cases cfg.loginAlertTracker <;> rfl

@[simp] theorem items_track (cfg : LoginDefenses) (s : LoginShared) (now : ℤ)
    (req : LoginRequest) : (cfg.track s now req).items = s.items := by
  rw [track]
  cases cfg.loginAlertTracker <;> rfl

/-- The comparison with the account passes no judgement that the trigger could be told yet. -/
theorem check_passed (cfg : LoginDefenses) (req : LoginRequest) (user : Option User) :
    (cfg.check req user).passed = true ∧ (cfg.check req user).pending = true := by
  cases user with
  | none => exact ⟨rfl, rfl⟩
  | some user =>
    rw [check]
    split_ifs <;> exact ⟨rfl, rfl⟩

/-- What a call does to the trigger and to the captchas, and to where the attempt stands. -/
inductive Advance (t : CaptchaTrigger) (now : ℤ) (s : LoginShared) (req : LoginRequest) :
    LoginPc → LoginShared → LoginPc → Prop
  | free (hfree : t.required s.tables req.ip req.username now = false) :
      Advance t now s req .askTrigger s .lookup
  | answered {s' : LoginShared} (htables : s'.tables = s.tables)
      (hitems : s'.items.size + 1 ≤ s.items.size) : Advance t now s req .verifyCaptcha s' .lookup
  | failure : Advance t now s req .recordFailure
      { s with tables := t.recordFailure s.tables req.ip req.username now } .penalize
  | success (user : SessionUser) : Advance t now s req (.resetTrigger user)
      { s with tables := CaptchaTrigger.reset s.tables req.ip req.username }
      (.auditSuccess user now)
  | other {s' : LoginShared} {pc pc' : LoginPc} (htables : s'.tables = s.tables)
      (hitems : s'.items.size ≤ s.items.size) (hpassed : pc'.passed = pc.passed)
      (hpending : pc'.pending = pc.pending) : Advance t now s req pc s' pc'

/-- Every call is one of these. -/
theorem advance_cases (htrigger : cfg.captchaTrigger = some t) (now : ℤ) (ok : Bool)
    (s : LoginShared) (req : LoginRequest) (pc : LoginPc) :
    Advance t now s req pc (cfg.advance now ok s req pc).1 (cfg.advance now ok s req pc).2 := by
  cases pc with
  | askTrigger =>
    cases hrequired : t.required s.tables req.ip req.username now with
    | true =>
      simp only [advance, htrigger, hrequired, if_true]
      split_ifs <;> exact .other rfl le_rfl rfl rfl
    | false =>
      simp only [advance, htrigger, hrequired]
      exact .free hrequired
  | verifyCaptcha =>
    rw [advance]
    cases cfg.captchaStore with
    | none => exact .other rfl le_rfl rfl rfl
    | some st =>
      cases hright : (CaptchaStore.verify s.items req.captchaId req.captchaAnswer now).2 with
      | true =>
        simp only [hright, if_true]
        exact .answered rfl (CaptchaStore.size_verify_lt hright)
      | false =>
        simp only [hright]
        exact .other rfl (CaptchaStore.size_verify_le ..) rfl rfl
  | auditCaptcha detail message => exact .other rfl le_rfl rfl rfl
  | trackCaptcha message =>
    exact .other (tables_track ..) (le_of_eq (congrArg _ (items_track ..))) rfl rfl
  | lookup =>
    obtain ⟨hpassed, hpending⟩ := check_passed cfg req
      (if ok then s.accounts.getUserByUsername req.username else none)
    exact .other rfl le_rfl hpassed hpending
  | auditFailure user reason => exact .other rfl le_rfl rfl rfl
  | trackFailure => exact .other (tables_track ..) (le_of_eq (congrArg _ (items_track ..))) rfl rfl
  | recordFailure =>
    rw [advance, htrigger]
    exact .failure
  | penalize =>
    rw [advance]
    cases cfg.loginDelayer <;> exact .other rfl le_rfl rfl rfl
  | resetDelay user =>
    rw [advance]
    cases cfg.loginDelayer <;> exact .other rfl le_rfl rfl rfl
  | resetTrigger user =>
    rw [advance, htrigger]
    exact .success user
  | auditSuccess user issued => exact .other rfl le_rfl rfl rfl
  | done sleep answer => exact .other rfl le_rfl rfl rfl

end LoginDefenses

/-! ### How many passwords can be tried -/

namespace LoginState

variable {s : LoginState} {i : ℕ} {req : LoginRequest} {pc pc' : LoginPc} {p : LoginPc → Bool}
  {key : LoginKey}

/-- The attempts of a key counted again after one of them advanced. -/
theorem countP_advance {attempts : List (LoginRequest × LoginPc)} (key : LoginKey)
    (p : LoginPc → Bool) (hget : attempts[i]? = some (req, pc)) (pc' : LoginPc) :
    ((attempts.set i (req, pc')).countP fun a => key.isOf a.1 && p a.2) +
        (key.isOf req && p pc).toNat =
      (attempts.countP fun a => key.isOf a.1 && p a.2) + (key.isOf req && p pc').toNat := by
  obtain ⟨hi, hattempt⟩ := List.getElem?_eq_some_iff.mp hget
  -- what is subtracted was counted before
  have hpos : (key.isOf req && p pc) = true →
      0 < attempts.countP fun a => key.isOf a.1 && p a.2 := fun h =>
    List.countP_pos_iff.mpr ⟨(req, pc), List.mem_of_getElem? hget, h⟩
  rw [List.countP_set hi, hattempt]
  cases hold : key.isOf req && p pc <;> cases hnew : key.isOf req && p pc'
  · simp
  · simp
  · have := hpos hold
    simp
    omega
  · have := hpos hold
    simp
    omega

end LoginState

namespace LoginDefenses

variable {cfg : LoginDefenses} {t : CaptchaTrigger} {key : LoginKey} {k : ℕ} {start now now' : ℤ}
  {s₀ s : LoginState} {out : List LoginReply} {a : ℤ × LoginLabel}

/-- The account of the attempts of a key since a state, at a later time: those that are no longer
pending are in the log of the trigger, and the others are few unless captchas paid for them. -/
structure Accounted (t : CaptchaTrigger) (key : LoginKey) (k : ℕ) (start : ℤ) (s₀ : LoginState)
    (now : ℤ) (s : LoginState) (out : List LoginReply) : Prop where
  started : start ≤ now
  told : ∃ l, t.Simulates now s.shared.tables l ∧ s.guesses key + s₀.pending key ≤
    s₀.guesses key + s.pending key + (recent (start - 1) (key.log l)).length
  items : s.shared.items.size ≤ s₀.shared.items.size + captchasIssued out
  bounded : s.guesses key + s.shared.items.size ≤
    s₀.guesses key + (t.threshold - 1 + k) + s₀.shared.items.size + captchasIssued out

theorem captchasIssued_append (out : List LoginReply) (reply : Option LoginReply) :
    captchasIssued out ≤ captchasIssued (out ++ reply.toList) := by
  rw [captchasIssued, captchasIssued, List.count_append]
  exact Nat.le_add_right _ _

/-- A step that lets no attempt pass and tells the trigger nothing keeps the account. -/
theorem Accounted.mono {reply : Option LoginReply} {s' : LoginState}
    (h : Accounted t key k start s₀ now s out) (hle : now ≤ now')
    (htables : s'.shared.tables = s.shared.tables)
    (hitems : s'.shared.items.size ≤ s.shared.items.size)
    (hguesses : s'.guesses key = s.guesses key) (hpending : s'.pending key = s.pending key) :
    Accounted t key k start s₀ now' s' (out ++ reply.toList) := by
  obtain ⟨l, hl, htold⟩ := h.told
  have hissued := captchasIssued_append out reply
  have hitems₀ := h.items
  have hbounded := h.bounded
  refine ⟨h.started.trans hle, ⟨l, ?_, ?_⟩, by omega, by omega⟩
  · rw [htables]
    exact hl.mono hle
  · rwa [hguesses, hpending]

/-- What the trigger was told since a time within the window, it still counts. -/
theorem length_recent_le (log : List ℤ) (hdeadline : now < start + t.window) :
    (recent (start - 1) log).length ≤ (recent (now - t.window) log).length := by
  have hcutoff : now - t.window ≤ start - 1 := by omega
  rw [← recent_recent hcutoff]
  exact List.length_filter_le _ _

/-- **One call of an attempt** keeps the account. -/
theorem Accounted.advance {i : ℕ} {req : LoginRequest} {pc pc' : LoginPc} {shared : LoginShared}
    {reply : Option LoginReply} (h : Accounted t key k start s₀ now s out) (hle : now ≤ now')
    (hdeadline : now' < start + t.window) (hget : s.attempts[i]? = some (req, pc))
    (hadvance : Advance t now' s.shared req pc shared pc')
    (hpending : LoginState.pending key ⟨shared, s.attempts.set i (req, pc')⟩ ≤ k)
    (hguard : Unrewarded t key s.shared.tables now' (req, pc)) :
    Accounted t key k start s₀ now' ⟨shared, s.attempts.set i (req, pc')⟩
      (out ++ reply.toList) := by
  have hguesses : LoginState.guesses key ⟨shared, s.attempts.set i (req, pc')⟩ +
      (key.isOf req && pc.passed).toNat = s.guesses key + (key.isOf req && pc'.passed).toNat :=
    LoginState.countP_advance key LoginPc.passed hget pc'
  have hpendings : LoginState.pending key ⟨shared, s.attempts.set i (req, pc')⟩ +
      (key.isOf req && pc.pending).toNat = s.pending key + (key.isOf req && pc'.pending).toNat :=
    LoginState.countP_advance key LoginPc.pending hget pc'
  have hissued := captchasIssued_append out reply
  have hthreshold := t.threshold_pos
  have hstarted := h.started.trans hle
  obtain ⟨l, hl, htold⟩ := h.told
  have hnow := hl.mono hle
  have hitems₀ := h.items
  have hbounded := h.bounded
  generalize hnext : (⟨shared, s.attempts.set i (req, pc')⟩ : LoginState) = next at *
  have hshared : next.shared = shared := by rw [← hnext]
  cases hadvance with
  | other htables hitems hpassed hpend =>
    rw [hpassed] at hguesses
    rw [hpend] at hpendings
    rw [← hshared] at htables hitems
    exact h.mono hle htables hitems (by omega) (by omega)
  | free hfree =>
    cases hof : key.isOf req with
    | false =>
      simp only [hof, Bool.false_and, Bool.toNat_false, Nat.add_zero] at hguesses hpendings
      exact h.mono hle (by rw [hshared]) (by rw [hshared]) hguesses hpendings
    | true =>
      -- the key is below the threshold, and so is what it was told since the start
      have hlow := hnow.length_recent_lt hof hfree
      have hcount := length_recent_le (key.log l) hdeadline
      simp [hof, LoginPc.passed, LoginPc.pending] at hguesses hpendings
      refine ⟨hstarted, ⟨l, by rwa [hshared], by omega⟩, by rw [hshared]; omega, ?_⟩
      rw [hshared]
      omega
  | answered htables hitems =>
    -- the attempt passes and is pending at once, and the captcha it used up pays for it
    have hcase : (key.isOf req && LoginPc.lookup.passed).toNat ≤ 1 := Bool.toNat_le _
    have hsame : (key.isOf req && LoginPc.lookup.passed).toNat =
      (key.isOf req && LoginPc.lookup.pending).toNat := rfl
    simp [LoginPc.passed, LoginPc.pending] at hguesses hpendings
    have hone : (key.isOf req).toNat ≤ 1 := Bool.toNat_le _
    refine ⟨hstarted, ⟨l, ?_, by omega⟩, by rw [hshared]; omega, by rw [hshared]; omega⟩
    rw [hshared, htables]
    exact hnow
  | failure =>
    obtain ⟨l', hl', hlog⟩ := hnow.exists_recordFailure req
    -- it is pending no longer and, if it is the key's, in the log instead
    have hcounted : s.guesses key + s₀.pending key ≤ s₀.guesses key + next.pending key +
        (recent (start - 1) (key.log l')).length := by
      cases hof : key.isOf req with
      | false =>
        simp only [hof, Bool.false_and, Bool.toNat_false, Nat.add_zero] at hpendings
        rw [(hlog key).1 hof, hpendings]
        exact htold
      | true =>
        have hlater : recent (start - 1) [now'] = [now'] :=
          recent_eq_self (by simp; omega)
        simp [hof, LoginPc.pending] at hpendings
        rw [(hlog key).2 hof ((hguard hof).2 rfl), recent_append, hlater, List.length_append,
          List.length_singleton]
        omega
    simp [LoginPc.passed] at hguesses
    refine ⟨hstarted, ⟨l', by rwa [hshared], by omega⟩, by rw [hshared]; dsimp only; omega, ?_⟩
    rw [hshared]
    dsimp only
    omega
  | success user =>
    obtain ⟨l', hl', hlog⟩ := hnow.exists_reset req
    -- the guard excludes a success of the key, so its log stays
    have hof : key.isOf req = false := Bool.eq_false_iff.mpr fun hof => nomatch (hguard hof).1
    simp only [hof, Bool.false_and, Bool.toNat_false, Nat.add_zero] at hguesses hpendings
    refine ⟨hstarted, ⟨l', by rwa [hshared], ?_⟩, by rw [hshared]; dsimp only; omega, ?_⟩
    · rw [hlog key hof]
      omega
    · rw [hshared]
      dsimp only
      omega

/-- **One step** keeps the account. -/
theorem Accounted.step (htrigger : cfg.captchaTrigger = some t)
    (h : Accounted t key k start s₀ now s out) (hle : now ≤ a.1)
    (hguess : Guessing cfg t key k (start + t.window) s a) :
    Accounted t key k start s₀ a.1 (cfg.step s a).1 (out ++ (cfg.step s a).2.toList) := by
  obtain ⟨hdeadline, hpending, hguard⟩ := hguess
  match a with
  | (now', .arrive req) =>
    -- an attempt that has just arrived has not passed the trigger and waits for nothing
    have hcount : ∀ p : LoginPc → Bool, p .askTrigger = false →
        (s.attempts ++ [(req, LoginPc.askTrigger)]).countP (fun a => key.isOf a.1 && p a.2) =
          s.attempts.countP fun a => key.isOf a.1 && p a.2 := by
      intro p hp
      simp [List.countP_append, hp]
    exact h.mono hle rfl le_rfl (hcount LoginPc.passed rfl) (hcount LoginPc.pending rfl)
  | (_, .accounts st) => exact h.mono hle rfl le_rfl rfl rfl
  | (now', .captcha random) =>
    have hissue : (cfg.handleCaptcha s.shared.items random now').1.size ≤
        s.shared.items.size + (cfg.handleCaptcha s.shared.items random now').2.toNat := by
      rw [handleCaptcha]
      cases cfg.captchaStore with
      | none => exact le_rfl
      | some st => exact st.size_issue_le _ _ _
    simp only [LoginDefenses.step]
    generalize cfg.handleCaptcha s.shared.items random now' = captcha at hissue ⊢
    have hcount : captchasIssued (out ++ [.captcha captcha.2]) =
        captchasIssued out + captcha.2.toNat := by
      rw [captchasIssued, captchasIssued, List.count_append]
      cases captcha.2 <;> rfl
    obtain ⟨l, hl, htold⟩ := h.told
    have hitems := h.items
    have hbounded := h.bounded
    refine ⟨h.started.trans hle, ⟨l, hl.mono hle, htold⟩, ?_, ?_⟩
    · calc captcha.1.size ≤ s.shared.items.size + captcha.2.toNat := hissue
        _ ≤ s₀.shared.items.size + (captchasIssued out + captcha.2.toNat) := by omega
        _ = s₀.shared.items.size + captchasIssued (out ++ [.captcha captcha.2]) := by rw [hcount]
    · calc s.guesses key + captcha.1.size
          ≤ s.guesses key + s.shared.items.size + captcha.2.toNat := by omega
        _ ≤ s₀.guesses key + (t.threshold - 1 + k) + s₀.shared.items.size +
            (captchasIssued out + captcha.2.toNat) := by omega
        _ = s₀.guesses key + (t.threshold - 1 + k) + s₀.shared.items.size +
            captchasIssued (out ++ [.captcha captcha.2]) := by rw [hcount]
  | (now', .advance i ok) =>
    cases hget : s.attempts[i]? with
    | none =>
      simp only [LoginDefenses.step, hget]
      exact h.mono hle rfl le_rfl rfl rfl
    | some attempt =>
      obtain ⟨req, pc⟩ := attempt
      cases pc with
      | done sleep answer =>
        simp only [LoginDefenses.step, hget]
        exact h.mono hle rfl le_rfl rfl rfl
      | _ =>
        simp only [LoginDefenses.step, hget] at hpending ⊢
        exact h.advance hle hdeadline hget (advance_cases htrigger now' ok s.shared req _) hpending
          (hguard _ hget)

/-- One step of the trigger: it still follows a log, whatever its tables have room for. -/
theorem exists_simulates_step (htrigger : cfg.captchaTrigger = some t)
    (h : ∃ l, t.Simulates now s.shared.tables l) (hle : now ≤ a.1) :
    ∃ l, t.Simulates a.1 (cfg.step s a).1.shared.tables l := by
  obtain ⟨l, hl⟩ := h
  have hnow := hl.mono hle
  match a with
  | (now', .arrive req) => exact ⟨l, hnow⟩
  | (now', .accounts st) => exact ⟨l, hnow⟩
  | (now', .captcha random) => exact ⟨l, hnow⟩
  | (now', .advance i ok) =>
    cases hget : s.attempts[i]? with
    | none =>
      simp only [LoginDefenses.step, hget]
      exact ⟨l, hnow⟩
    | some attempt =>
      obtain ⟨req, pc⟩ := attempt
      have hcall : ∃ l', t.Simulates now' (cfg.advance now' ok s.shared req pc).1.tables l' := by
        have hcases := advance_cases htrigger now' ok s.shared req pc
        generalize (cfg.advance now' ok s.shared req pc).1 = shared at hcases
        generalize (cfg.advance now' ok s.shared req pc).2 = pc' at hcases
        cases hcases with
        | free _ => exact ⟨l, hnow⟩
        | answered htables _ => exact ⟨l, by rwa [htables]⟩
        | failure =>
          obtain ⟨l', hl', -⟩ := hnow.exists_recordFailure req
          exact ⟨l', hl'⟩
        | success _ =>
          obtain ⟨l', hl', -⟩ := hnow.exists_reset req
          exact ⟨l', hl'⟩
        | other htables _ _ _ => exact ⟨l, by rwa [htables]⟩
      cases pc with
      | done sleep answer =>
        simp only [LoginDefenses.step, hget]
        exact ⟨l, hnow⟩
      | _ =>
        simp only [LoginDefenses.step, hget]
        exact hcall

/-- The trigger follows some log in every run. -/
theorem exists_simulates_run (htrigger : cfg.captchaTrigger = some t) (accounts : Accounts)
    (audits : List LoginAudit) {before : List (ℤ × LoginLabel)} (hordered : Timed.Ordered before)
    (hbefore : ∀ a ∈ before, a.1 ≤ now) :
    ∃ l, t.Simulates now
      (Timed.run cfg.step (loginStart accounts audits) before).shared.tables l := by
  induction before using List.reverseRecOn generalizing now with
  | nil => exact ⟨.empty, follows_empty _ _ now, follows_empty _ _ now⟩
  | append_singleton before a ih =>
    obtain ⟨hrest, -, hlast⟩ := List.pairwise_append.mp hordered
    have hprevious := ih hrest fun b hb => hlast b hb a (List.mem_singleton.mpr rfl)
    obtain ⟨l, hl⟩ := exists_simulates_step htrigger hprevious le_rfl
    rw [Timed.run_concat]
    exact ⟨l, hl.mono (hbefore a (by simp))⟩

/-- **How many passwords can be tried.** Take any run of attempts that interleave, of captchas
that are issued and of accounts that change, and its part from some time on, shorter than the
window. As long as no attempt of the key succeeds and no failure of it finds a full table, the
attempts of the key whose password is compared in that part are fewer than the threshold, up to
those that are in flight together and those that captchas paid for: captchas that waited for an
answer at the start or were issued since. -/
theorem guesses_run_le (cfg : LoginDefenses) (t : CaptchaTrigger) (key : LoginKey) (k : ℕ)
    (htrigger : cfg.captchaTrigger = some t) (accounts : Accounts) (audits : List LoginAudit)
    (start : ℤ) (before trace : List (ℤ × LoginLabel)) (hbefore : ∀ a ∈ before, a.1 ≤ start)
    (htrace : ∀ a ∈ trace, start ≤ a.1) (hordered : Timed.Ordered (before ++ trace))
    (hserved : Timed.Served cfg.step (cfg.Guessing t key k (start + t.window))
      (Timed.run cfg.step (loginStart accounts audits) before) trace) :
    (Timed.run cfg.step (loginStart accounts audits) (before ++ trace)).guesses key ≤
      (Timed.run cfg.step (loginStart accounts audits) before).guesses key +
        (t.threshold - 1 + k) +
        ((Timed.run cfg.step (loginStart accounts audits) before).shared.items.size +
          captchasIssued (Timed.answers cfg.step
            (Timed.run cfg.step (loginStart accounts audits) before) trace)) := by
  obtain ⟨hfirst, hrest, -⟩ := List.pairwise_append.mp hordered
  have hrun : Timed.run cfg.step (loginStart accounts audits) (before ++ trace) =
      Timed.run cfg.step (Timed.run cfg.step (loginStart accounts audits) before) trace :=
    List.foldl_append
  rw [hrun]
  obtain ⟨l, hl⟩ := exists_simulates_run htrigger accounts audits hfirst hbefore
  generalize Timed.run cfg.step (loginStart accounts audits) before = s₀ at *
  have hstart : Accounted t key k start s₀ start s₀ [] :=
    ⟨le_rfl, ⟨l, hl, by omega⟩, Nat.le_add_right _ _, by omega⟩
  obtain ⟨t', hend⟩ := Timed.served_rule
    (fun _ _ _ _ h hle hguess => h.step htrigger hle hguess) hstart htrace hrest hserved
  have hbounded := hend.bounded
  omega

/-- Defenses that are a trigger with threshold one, and no password that is right. -/
def strictDefenses : LoginDefenses :=
  ⟨some ⟨1, 10, 5, Nat.one_pos, by norm_num⟩, none, none, none, fun _ _ => false⟩

/-- Two attempts from one address, which both ask the trigger before either is recorded as a
failure, and a third one that asks it afterwards. -/
def twoGuesses : List (ℤ × LoginLabel) :=
  [(0, .arrive ⟨"ip", "a", "x", "", ""⟩), (0, .arrive ⟨"ip", "b", "y", "", ""⟩),
    (1, .advance 0 true), (1, .advance 1 true), (1, .advance 0 true), (1, .advance 0 true),
    (1, .advance 0 true), (2, .advance 0 true), (2, .arrive ⟨"ip", "a", "z", "", ""⟩),
    (3, .advance 2 true)]

/-- Both passwords are compared, as many as the bound allows, and the third attempt has to bring a
captcha. -/
theorem guesses_run_le_two :
    (Timed.run strictDefenses.step (loginStart ⟨[], [], 0⟩ []) ([] ++ twoGuesses)).guesses
        (.ip "ip") = 2 ∧
      (Timed.run strictDefenses.step (loginStart ⟨[], [], 0⟩ []) ([] ++ twoGuesses)).guesses
        (.ip "ip") ≤
      (Timed.run strictDefenses.step (loginStart ⟨[], [], 0⟩ []) []).guesses (.ip "ip") +
        (1 - 1 + 2) +
        ((Timed.run strictDefenses.step (loginStart ⟨[], [], 0⟩ []) []).shared.items.size +
          captchasIssued (Timed.answers strictDefenses.step
            (Timed.run strictDefenses.step (loginStart ⟨[], [], 0⟩ []) []) twoGuesses)) :=
  ⟨by decide, guesses_run_le strictDefenses ⟨1, 10, 5, by decide, by decide⟩ (.ip "ip") 2 rfl
    ⟨[], [], 0⟩ [] 0 [] twoGuesses (fun _ ha => absurd ha List.not_mem_nil) (by decide)
    (by unfold Timed.Ordered; decide) (by decide)⟩

end LoginDefenses

/-! ### What is seen from outside -/

/-- The user whom the accounts let in. -/
def LoginDefenses.grants (cfg : LoginDefenses) (accounts : Accounts) (req : LoginRequest) :
    Option ℕ :=
  (accounts.getUserByUsername req.username).bind fun user =>
    if user.enabled ∧ cfg.compareHashAndPassword user.passwordHash req.password then some user.id
    else none

/-- Steps at the same time that differ at most in the accounts, which let in the same users for
the requests. -/
inductive SameGrants (cfg : LoginDefenses) (reqs : List LoginRequest) :
    ℤ × LoginLabel → ℤ × LoginLabel → Prop
  | arrive (now : ℤ) (req : LoginRequest) (hreq : req ∈ reqs) :
      SameGrants cfg reqs (now, .arrive req) (now, .arrive req)
  | advance (now : ℤ) (i : ℕ) (ok : Bool) :
      SameGrants cfg reqs (now, .advance i ok) (now, .advance i ok)
  | captcha (now : ℤ) (random : Option (String × String)) :
      SameGrants cfg reqs (now, .captcha random) (now, .captcha random)
  | accounts (now : ℤ) (st st' : Accounts)
      (hgrants : ∀ req ∈ reqs, cfg.grants st req = cfg.grants st' req) :
      SameGrants cfg reqs (now, .accounts st) (now, .accounts st')

/-- A user of whom only the id is left. -/
def SessionUser.view (user : SessionUser) : SessionUser := ⟨user.userId, .viewer, none, ""⟩

/-- Where an attempt is, without what it failed on. -/
def LoginPc.view : LoginPc → LoginPc
  | .auditFailure _ _ => .auditFailure none ""
  | .resetDelay user => .resetDelay user.view
  | .resetTrigger user => .resetTrigger user.view
  | .auditSuccess user issued => .auditSuccess user.view issued
  | pc => pc

/-- What the attempts share, without the accounts and the audit. -/
def LoginShared.view (s : LoginShared) : LoginShared :=
  { s with audits := [], accounts := ⟨[], [], 0⟩ }

/-- The state, without the accounts, the audit and what attempts failed on. -/
def LoginState.view (s : LoginState) : LoginState :=
  ⟨s.shared.view, s.attempts.map fun a => (a.1, a.2.view)⟩

namespace LoginDefenses

variable {cfg : LoginDefenses} {reqs : List LoginRequest} {s r : LoginState}
  {a b : ℤ × LoginLabel}

@[simp] theorem reply_view (i : ℕ) (pc : LoginPc) : pc.view.reply i = pc.reply i := by
  cases pc <;> rfl

theorem view_track (cfg : LoginDefenses) (s : LoginShared) (now : ℤ) (req : LoginRequest) :
    (cfg.track s now req).view = (cfg.track s.view now req).view := by
  simp only [track]
  cases cfg.loginAlertTracker <;> rfl

/-- Whether the comparison lets the attempt in is all that is seen of it. -/
theorem view_check (cfg : LoginDefenses) (req : LoginRequest) (accounts : Accounts) :
    (cfg.check req (accounts.getUserByUsername req.username)).view =
      (cfg.grants accounts req).elim (.auditFailure none "") fun id =>
        .resetDelay ⟨id, .viewer, none, ""⟩ := by
  rw [grants]
  cases accounts.getUserByUsername req.username with
  | none => rfl
  | some user =>
    cases henabled : user.enabled <;>
      cases hpassword : cfg.compareHashAndPassword user.passwordHash req.password <;>
      simp [check, henabled, hpassword, LoginPc.view, SessionUser.view, User.session]

/-- Apart from the lookup, what is seen of a call depends on what is seen before it. -/
theorem view_advance (cfg : LoginDefenses) (now : ℤ) (ok : Bool) (s : LoginShared)
    (req : LoginRequest) {pc : LoginPc} (hpc : pc ≠ .lookup) :
    (cfg.advance now ok s req pc).1.view = (cfg.advance now ok s.view req pc.view).1.view ∧
      (cfg.advance now ok s req pc).2.view = (cfg.advance now ok s.view req pc.view).2.view := by
  cases pc with
  | lookup => exact absurd rfl hpc
  | askTrigger =>
    simp only [advance, LoginPc.view]
    cases cfg.captchaTrigger with
    | none => exact ⟨rfl, rfl⟩
    | some t =>
      have htables : s.view.tables = s.tables := rfl
      rw [htables]
      dsimp only
      split_ifs <;> exact ⟨rfl, rfl⟩
  | verifyCaptcha =>
    simp only [advance, LoginPc.view]
    cases cfg.captchaStore <;> exact ⟨rfl, rfl⟩
  | trackCaptcha message => exact ⟨view_track cfg s now req, rfl⟩
  | trackFailure => exact ⟨view_track cfg s now req, rfl⟩
  | recordFailure =>
    simp only [advance, LoginPc.view]
    cases cfg.captchaTrigger <;> exact ⟨rfl, rfl⟩
  | penalize =>
    simp only [advance, LoginPc.view]
    cases cfg.loginDelayer <;> exact ⟨rfl, rfl⟩
  | resetDelay user =>
    simp only [advance, LoginPc.view]
    cases cfg.loginDelayer <;> exact ⟨rfl, rfl⟩
  | resetTrigger user =>
    simp only [advance, LoginPc.view]
    cases cfg.captchaTrigger <;> exact ⟨rfl, rfl⟩
  | auditCaptcha detail message => exact ⟨rfl, rfl⟩
  | auditFailure user reason => exact ⟨rfl, rfl⟩
  | auditSuccess user issued => exact ⟨rfl, rfl⟩
  | done sleep answer => exact ⟨rfl, rfl⟩

/-- No call changes the accounts. -/
theorem accounts_advance (cfg : LoginDefenses) (now : ℤ) (ok : Bool) (s : LoginShared)
    (req : LoginRequest) (pc : LoginPc) : (cfg.advance now ok s req pc).1.accounts = s.accounts := by
  have htrack : (cfg.track s now req).accounts = s.accounts := by
    rw [track]
    cases cfg.loginAlertTracker <;> rfl
  cases pc with
  | askTrigger =>
    simp only [advance]
    cases cfg.captchaTrigger with
    | none => rfl
    | some t =>
      dsimp only
      split_ifs <;> rfl
  | verifyCaptcha =>
    simp only [advance]
    cases cfg.captchaStore <;> rfl
  | trackCaptcha message => exact htrack
  | trackFailure => exact htrack
  | recordFailure =>
    simp only [advance]
    cases cfg.captchaTrigger <;> rfl
  | penalize =>
    simp only [advance]
    cases cfg.loginDelayer <;> rfl
  | resetDelay user =>
    simp only [advance]
    cases cfg.loginDelayer <;> rfl
  | resetTrigger user =>
    simp only [advance]
    cases cfg.captchaTrigger <;> rfl
  | lookup => rfl
  | auditCaptcha detail message => rfl
  | auditFailure user reason => rfl
  | auditSuccess user issued => rfl
  | done sleep answer => rfl

/-- Two states look alike, and their accounts let in the same users for the requests. -/
structure Alike (cfg : LoginDefenses) (reqs : List LoginRequest) (s r : LoginState) : Prop where
  view : s.view = r.view
  requested : ∀ a ∈ s.attempts, a.1 ∈ reqs
  grants : ∀ req ∈ reqs, cfg.grants s.shared.accounts req = cfg.grants r.shared.accounts req

/-- What an attempt does looks alike in states that look alike. -/
theorem advance_alike {s r : LoginShared} {req : LoginRequest} {pc pc' : LoginPc} (now : ℤ)
    (ok : Bool) (hview : s.view = r.view) (hpc : pc.view = pc'.view)
    (hgrants : cfg.grants s.accounts req = cfg.grants r.accounts req) :
    (cfg.advance now ok s req pc).1.view = (cfg.advance now ok r req pc').1.view ∧
      (cfg.advance now ok s req pc).2.view = (cfg.advance now ok r req pc').2.view := by
  -- the lookup alone reads the accounts, and of them only whom they let in
  by_cases hlookup : pc = .lookup
  · have hlookup' : pc' = .lookup := by
      subst hlookup
      cases pc' <;> first | rfl | cases hpc
    rw [hlookup, hlookup']
    refine ⟨hview, ?_⟩
    cases ok with
    | false => rfl
    | true => exact (view_check cfg req _).trans (hgrants ▸ (view_check cfg req _).symm)
  · have hlookup' : pc' ≠ .lookup := by
      rintro rfl
      cases pc <;> first | exact hlookup rfl | cases hpc
    obtain ⟨hs, hspc⟩ := view_advance cfg now ok s req hlookup
    obtain ⟨hr, hrpc⟩ := view_advance cfg now ok r req hlookup'
    rw [hs, hspc, hr, hrpc, hview, hpc]
    exact ⟨rfl, rfl⟩

theorem Alike.shared (h : Alike cfg reqs s r) : s.shared.view = r.shared.view :=
  congrArg LoginState.shared h.view

/-- The attempts of states that look alike are those of the same requests. -/
theorem Alike.getElem? (h : Alike cfg reqs s r) (i : ℕ) :
    (s.attempts[i]?).map (fun a => (a.1, a.2.view)) =
      (r.attempts[i]?).map fun a => (a.1, a.2.view) := by
  have hattempts : s.attempts.map (fun a => (a.1, a.2.view)) =
      r.attempts.map fun a => (a.1, a.2.view) := congrArg LoginState.attempts h.view
  rw [← List.getElem?_map, ← List.getElem?_map, hattempts]

/-- The attempt has its answer. -/
def isDone : LoginPc → Bool
  | .done .. => true
  | _ => false

theorem isDone_view (pc : LoginPc) : isDone pc.view = isDone pc := by
  cases pc <;> rfl

/-- What a step does to an attempt. -/
theorem step_advance (cfg : LoginDefenses) {s : LoginState} {i : ℕ} {req : LoginRequest}
    {pc : LoginPc} (hget : s.attempts[i]? = some (req, pc)) (now : ℤ) (ok : Bool) :
    cfg.step s (now, .advance i ok) =
      (⟨(cfg.advance now ok s.shared req pc).1,
        s.attempts.set i (req, (cfg.advance now ok s.shared req pc).2)⟩,
        if isDone pc then none else (cfg.advance now ok s.shared req pc).2.reply i) := by
  cases pc with
  | done sleep answer =>
    obtain ⟨hi, hattempt⟩ := List.getElem?_eq_some_iff.mp hget
    simp only [step, hget, advance, isDone, if_true]
    rw [← hattempt, List.set_getElem_self]
  | _ =>
    simp only [step, hget]
    rfl

/-- **One step.** States that look alike stay so, and answer alike. -/
theorem Alike.step (h : Alike cfg reqs s r) (hab : SameGrants cfg reqs a b) :
    Alike cfg reqs (cfg.step s a).1 (cfg.step r b).1 ∧ (cfg.step s a).2 = (cfg.step r b).2 := by
  have hshared := h.shared
  cases hab with
  | arrive now req hreq =>
    refine ⟨⟨?_, ?_, h.grants⟩, rfl⟩
    · have hattempts := congrArg LoginState.attempts h.view
      simp only [LoginState.view] at hattempts
      simp only [LoginDefenses.step, LoginState.view, List.map_append, hattempts, hshared]
    · intro a ha
      rcases List.mem_append.mp ha with ha | ha
      · exact h.requested a ha
      · rw [List.mem_singleton.mp ha]
        exact hreq
  | accounts now st st' hgrants => exact ⟨⟨h.view, h.requested, hgrants⟩, rfl⟩
  | captcha now random =>
    have hitems : s.shared.view.items = r.shared.view.items := congrArg LoginShared.items hshared
    have hitems : s.shared.items = r.shared.items := hitems
    simp only [LoginDefenses.step, hitems]
    refine ⟨⟨?_, h.requested, h.grants⟩, trivial⟩
    have hattempts := congrArg LoginState.attempts h.view
    simp only [LoginState.view, LoginShared.view, LoginShared.mk.injEq] at hattempts hshared ⊢
    simp only [hattempts, hshared]
  | advance now i ok =>
    have hget := h.getElem? i
    cases hs : s.attempts[i]? with
    | none =>
      have hr : r.attempts[i]? = none := by simpa [hs] using hget.symm
      simp only [LoginDefenses.step, hs, hr]
      exact ⟨h, trivial⟩
    | some attempt =>
      obtain ⟨⟨req', pc'⟩, hr, heq⟩ : ∃ b, r.attempts[i]? = some b ∧
          (b.1, b.2.view) = (attempt.1, attempt.2.view) := by simpa [hs] using hget.symm
      obtain ⟨req, pc⟩ := attempt
      obtain ⟨rfl, hpc⟩ := Prod.mk.inj heq
      have hreq : req' ∈ reqs := h.requested _ (List.mem_of_getElem? hs)
      obtain ⟨hleft, hright⟩ := advance_alike now ok hshared hpc.symm (h.grants _ hreq)
      have hdone : isDone pc = isDone pc' := by rw [← isDone_view pc, ← hpc, isDone_view]
      rw [step_advance cfg hs, step_advance cfg hr]
      refine ⟨⟨?_, ?_, ?_⟩, ?_⟩
      · have hattempts := congrArg LoginState.attempts h.view
        simp only [LoginState.view] at hattempts
        simp only [LoginState.view, List.map_set, hattempts, hleft, hright]
      · intro a ha
        rcases List.mem_or_eq_of_mem_set ha with ha | rfl
        · exact h.requested a ha
        · exact hreq
      · intro req hreq
        rw [accounts_advance, accounts_advance]
        exact h.grants req hreq
      · rw [hdone, ← reply_view, hright, reply_view]

/-- **Why an attempt fails cannot be told from outside.** Take two servers, each with accounts of
its own that change in ways of their own, where the same attempts are made and the same captchas
drawn at the same times, and where the accounts let in the same users for the attempts that are
made. Whether an account exists, is disabled or has another password, all attempts get the same
answers after the same sleeps, and the same captchas are issued. -/
theorem answers_eq_of_sameGrants (cfg : LoginDefenses) (reqs : List LoginRequest)
    (accounts accounts' : Accounts) (audits audits' : List LoginAudit)
    (trace trace' : List (ℤ × LoginLabel))
    (hgrants : ∀ req ∈ reqs, cfg.grants accounts req = cfg.grants accounts' req)
    (htrace : List.Forall₂ (SameGrants cfg reqs) trace trace') :
    Timed.answers cfg.step (loginStart accounts audits) trace =
      Timed.answers cfg.step (loginStart accounts' audits') trace' := by
  have hstart : Alike cfg reqs (loginStart accounts audits) (loginStart accounts' audits') :=
    ⟨rfl, fun _ ha => absurd ha List.not_mem_nil, hgrants⟩
  exact Timed.answers_eq_of_forall₂ (fun _ _ _ _ h hab => h.step hab) hstart htrace

/-- An attempt on the account "a" with all its calls. -/
def wholeAttempt (i : ℕ) (start : ℤ) : List (ℤ × LoginLabel) :=
  (start, .arrive ⟨"ip", "a", "x", "", ""⟩) ::
    (List.range 6).map fun n => (start + 1 + n, .advance i true)

theorem sameGrants_of_mem_wholeAttempt {cfg : LoginDefenses} {i : ℕ} {start : ℤ}
    {a : ℤ × LoginLabel} (ha : a ∈ wholeAttempt i start) :
    SameGrants cfg [⟨"ip", "a", "x", "", ""⟩] a a := by
  rcases List.mem_cons.mp ha with rfl | ha
  · exact .arrive _ _ (List.mem_singleton_self _)
  · obtain ⟨n, -, rfl⟩ := List.mem_map.mp ha
    exact .advance _ _ _

/-- A server that delays the second failure. -/
def delaying : LoginDefenses :=
  ⟨none, none, some ⟨1, 1000, [5], 10, by decide, by decide⟩, none,
    fun hash password => hash = password⟩

/-- Wrong passwords for an account are answered as those for a name without an account are: both
attempts get the 401, the second after a sleep. -/
theorem answers_eq_of_sameGrants_unknown :
    Timed.answers delaying.step
        (loginStart ⟨[⟨1, "a", "secret", none, .superAdmin, true⟩], [], 1⟩ [])
        (wholeAttempt 0 0 ++ wholeAttempt 1 10) =
      [.login 0 none (.refused 401 "invalid credentials" false),
        .login 1 (some 5) (.refused 401 "invalid credentials" false)] := by
  rw [answers_eq_of_sameGrants delaying [⟨"ip", "a", "x", "", ""⟩]
    ⟨[⟨1, "a", "secret", none, .superAdmin, true⟩], [], 1⟩ ⟨[], [], 0⟩ [] []
    (wholeAttempt 0 0 ++ wholeAttempt 1 10) (wholeAttempt 0 0 ++ wholeAttempt 1 10) (by decide)
    (List.forall₂_same.mpr fun a ha => (List.mem_append.mp ha).elim
      sameGrants_of_mem_wholeAttempt sameGrants_of_mem_wholeAttempt)]
  decide

end LoginDefenses

end HubScope
