import HubScope.Lib.Bytes
import HubScope.Lib.RegularLanguage
import HubScope.Server.RateLimit
import HubScope.Server.Session

/-!
# Routes

Every request passes the gates of its route: the rate limiter, the session, which public reads
may go without, and the roles of the route's group. The router goes by the path as it was escaped,
the limiter and the pattern of the public reads by the unescaped one. Nobody gains by the
difference: whatever its escapes, a request gets to a handler only if its sender is cleared for it.

## Main definitions

* `unescape` — percent escapes of a path
* `routes` — the routes with their gates
* `publicReadPattern` — the reads that need no session
* `rateLimit`, `dispatch` — whether a request passes the limiter, and the handler it gets to
* `Handler.clearance`, `Clearance.admits` — who is to get to a handler

## Main results

* `handled_iff` — a request gets to a handler if the limiter lets it pass and its sender is cleared
* `writer_of_handled` — what is not a read comes from an account that may write
-/

set_option autoImplicit false

namespace HubScope

open Bytes Regexp

/-! ### Paths -/

/-- The separator of a path. -/
def slash : Byte := byte '/'

/-- What an escape starts with. -/
def percent : Byte := byte '%'

/-- A path without its percent escapes. -/
def unescape : Bytes → Option Bytes
  | [] => some []
  | c :: rest =>
    if c = percent then
      match rest with
      | high :: low :: rest =>
        match hexVal high.val, hexVal low.val with
        | some h, some l => (unescape rest).map (Fin.ofNat 256 (16 * h + l) :: ·)
        | _, _ => none
      | _ => none
    else (unescape rest).map (c :: ·)

/-- The path of a request: unescaped, and as it was escaped where that says more. -/
structure RequestPath where
  path : Bytes
  rawPath : Option Bytes
  unescaped : ∀ raw ∈ rawPath, unescape raw = some path

/-- The path that the router goes by. -/
def RequestPath.routePath (p : RequestPath) : Bytes := p.rawPath.getD p.path

/-- Methods of requests. -/
inductive Method
  | get | head | post | put | patch | delete | connect | options | trace
  deriving DecidableEq, Repr

/-- The name of a method. -/
def Method.name : Method → String
  | get => "GET"
  | head => "HEAD"
  | post => "POST"
  | put => "PUT"
  | patch => "PATCH"
  | delete => "DELETE"
  | connect => "CONNECT"
  | options => "OPTIONS"
  | trace => "TRACE"

/-! ### Routes -/

/-- A segment of a route: fixed, or any text up to the next separator. -/
inductive Segment
  | lit (w : Bytes)
  | param
  deriving DecidableEq, Repr

/-- The route takes the path. -/
def fits : List Segment → Bytes → Bool
  | [], p => p.isEmpty
  | .lit w :: segs, p => (slash :: w).isPrefixOf p && fits segs (p.drop (w.length + 1))
  | .param :: segs, p =>
    p.head? == some slash && fits segs ((p.drop 1).dropWhile fun c => c ≠ slash)

/-- The handlers of the API. -/
inductive Handler
  | healthz | handleVersion
  | handleLogin | handleLogout | handleAuthMe | handleCaptcha
  | handleCreateHub | handleUpdateHub | handleDeleteHub | handleSyncHub
  | handleCreateClassificationRule | handlePatchClassificationRule
  | handleDeleteClassificationRule
  | handleCreateImageParamRule | handlePatchImageParamRule | handleDeleteImageParamRule
  | handleCreateCase | handlePatchCase
  | handlePutSettings | handleTestLark
  | handleCreateModel | handlePatchModel | handleDeleteModel | handleTrialModel
  | handlePatchEndpoint | handleDeleteEndpoint | handlePruneDeadEndpoints | handleProbeEndpoint
  | handleRunDiscovery | handleCreateEval
  | handleRetryCampaignFailed | handleRetryCampaignUnits | handleCancelCampaign
  | handleConfirmJury | handleRestartCampaign | handleCreateShareLink | handleRevokeShareLink
  | handleListUsers | handleCreateUser | handlePatchUser | handleResetUserPassword
  | handleDeleteUser
  | handleListHubs | handleListModels | handleGetModelEvalSummary
  | handleGetEndpointDetail | handleGetEndpointSeries | handleListProbes
  | handleListClassificationRules | handleListImageParamRules | handleGetOverview
  | handleListSuites | handleLatestEvals | handleListEvals | handleGetEval
  | handleListCampaigns | handleGetCampaign | handleGetCampaignReport
  | handleGetCampaignTrends | handleGetCampaignLiveFeed | handleGetCampaignLiveFeedResult
  | handleGetPublicEvalBoard | handleListShareLinks | handleGetSharedReport
  | handleGetSettings | handleListAlerts | handleListTasks | handleGetTask
  | handleListAuditActions | handleListAuditLogs
  deriving DecidableEq, Repr

/-- What stands before a handler: nothing, the session, or the session and the roles. -/
inductive RouteGate
  | open
  | session
  | roles (allowed : List Role)
  deriving DecidableEq, Repr

/-- A route. -/
structure Route where
  method : Method
  pattern : List Segment
  gate : RouteGate
  handler : Handler
  deriving DecidableEq, Repr

/-- A fixed segment of a route of the API. -/
def lit (s : String) : Segment := .lit (text s)

/-- The routes of one group of the API, which shares its gate. -/
def routeGroup (gate : RouteGate) (rs : List (Method × List Segment × Handler)) : List Route :=
  rs.map fun (method, pattern, handler) => ⟨method, lit "api" :: pattern, gate, handler⟩

/-- `routes`: all endpoints in the order they are registered. -/
def routes : List Route :=
  [⟨.get, [lit "healthz"], .open, .healthz⟩] ++
  routeGroup .open [
    (.get, [lit "version"], .handleVersion),
    (.post, [lit "auth", lit "login"], .handleLogin),
    (.post, [lit "auth", lit "logout"], .handleLogout),
    (.get, [lit "auth", lit "me"], .handleAuthMe),
    (.get, [lit "auth", lit "captcha"], .handleCaptcha)] ++
  routeGroup (.roles [.superAdmin]) [
    (.post, [lit "hubs"], .handleCreateHub),
    (.put, [lit "hubs", .param], .handleUpdateHub),
    (.delete, [lit "hubs", .param], .handleDeleteHub),
    (.post, [lit "hubs", .param, lit "sync"], .handleSyncHub),
    (.post, [lit "classification-rules"], .handleCreateClassificationRule),
    (.patch, [lit "classification-rules", .param], .handlePatchClassificationRule),
    (.delete, [lit "classification-rules", .param], .handleDeleteClassificationRule),
    (.post, [lit "image-param-rules"], .handleCreateImageParamRule),
    (.patch, [lit "image-param-rules", .param], .handlePatchImageParamRule),
    (.delete, [lit "image-param-rules", .param], .handleDeleteImageParamRule),
    (.post, [lit "cases"], .handleCreateCase),
    (.patch, [lit "cases", .param], .handlePatchCase),
    (.put, [lit "settings"], .handlePutSettings),
    (.post, [lit "settings", lit "test-lark"], .handleTestLark)] ++
  routeGroup (.roles [.superAdmin, .admin, .operator]) [
    (.post, [lit "models"], .handleCreateModel),
    (.patch, [lit "models", .param], .handlePatchModel),
    (.delete, [lit "models", .param], .handleDeleteModel),
    (.post, [lit "models", .param, lit "trial"], .handleTrialModel),
    (.patch, [lit "endpoints", .param], .handlePatchEndpoint),
    (.delete, [lit "endpoints", .param], .handleDeleteEndpoint),
    (.post, [lit "endpoints", lit "prune-dead"], .handlePruneDeadEndpoints),
    (.post, [lit "endpoints", .param, lit "probe"], .handleProbeEndpoint),
    (.post, [lit "discovery", lit "run"], .handleRunDiscovery),
    (.post, [lit "evals"], .handleCreateEval),
    (.post, [lit "campaigns", .param, lit "retry-failed"], .handleRetryCampaignFailed),
    (.post, [lit "campaigns", .param, lit "retry-units"], .handleRetryCampaignUnits),
    (.post, [lit "campaigns", .param, lit "cancel"], .handleCancelCampaign),
    (.post, [lit "campaigns", .param, lit "confirm-jury"], .handleConfirmJury),
    (.post, [lit "campaigns", .param, lit "restart"], .handleRestartCampaign),
    (.post, [lit "campaigns", .param, lit "share-links"], .handleCreateShareLink),
    (.delete, [lit "share-links", .param], .handleRevokeShareLink)] ++
  routeGroup (.roles [.superAdmin, .admin]) [
    (.get, [lit "users"], .handleListUsers),
    (.post, [lit "users"], .handleCreateUser),
    (.patch, [lit "users", .param], .handlePatchUser),
    (.put, [lit "users", .param, lit "password"], .handleResetUserPassword),
    (.delete, [lit "users", .param], .handleDeleteUser)] ++
  routeGroup .session [
    (.get, [lit "hubs"], .handleListHubs),
    (.get, [lit "models"], .handleListModels),
    (.get, [lit "models", .param, lit "eval-summary"], .handleGetModelEvalSummary),
    (.get, [lit "endpoints", .param], .handleGetEndpointDetail),
    (.get, [lit "endpoints", .param, lit "series"], .handleGetEndpointSeries),
    (.get, [lit "endpoints", .param, lit "probes"], .handleListProbes),
    (.get, [lit "classification-rules"], .handleListClassificationRules),
    (.get, [lit "image-param-rules"], .handleListImageParamRules),
    (.get, [lit "overview"], .handleGetOverview),
    (.get, [lit "suites"], .handleListSuites),
    (.get, [lit "evals", lit "latest"], .handleLatestEvals),
    (.get, [lit "evals"], .handleListEvals),
    (.get, [lit "evals", .param], .handleGetEval),
    (.get, [lit "campaigns"], .handleListCampaigns),
    (.get, [lit "campaigns", .param], .handleGetCampaign),
    (.get, [lit "campaigns", .param, lit "report"], .handleGetCampaignReport),
    (.get, [lit "campaigns", .param, lit "trends"], .handleGetCampaignTrends),
    (.get, [lit "campaigns", .param, lit "live-feed"], .handleGetCampaignLiveFeed),
    (.get, [lit "campaigns", .param, lit "live-feed", .param],
      .handleGetCampaignLiveFeedResult),
    (.get, [lit "public", lit "eval", lit "board"], .handleGetPublicEvalBoard),
    (.get, [lit "share-links"], .handleListShareLinks),
    (.get, [lit "shared-reports", .param], .handleGetSharedReport),
    (.get, [lit "settings"], .handleGetSettings),
    (.get, [lit "alerts"], .handleListAlerts),
    (.get, [lit "tasks"], .handleListTasks),
    (.get, [lit "tasks", .param], .handleGetTask),
    (.get, [lit "audit-logs", lit "actions"], .handleListAuditActions),
    (.get, [lit "audit-logs"], .handleListAuditLogs)]

/-- A router of the API. The route it finds is one of them, has the method and takes the path. -/
structure Router where
  find : Method → Bytes → Option Route
  mem_routes {method : Method} {p : Bytes} {r : Route} : find method p = some r → r ∈ routes
  method_eq {method : Method} {p : Bytes} {r : Route} : find method p = some r → r.method = method
  fits_pattern {method : Method} {p : Bytes} {r : Route} :
    find method p = some r → fits r.pattern p = true

/-- The router that takes the first route, which is the fixed one where others fit too. -/
def Router.firstFit : Router where
  find method p := routes.find? fun r => r.method == method && fits r.pattern p
  mem_routes h := List.mem_of_find?_eq_some h
  method_eq h := by
    have hfit := List.find?_some h
    exact eq_of_beq (Bool.and_eq_true_iff.mp hfit).1
  fits_pattern h := by
    have hfit := List.find?_some h
    exact (Bool.and_eq_true_iff.mp hfit).2

/-! ### The gates -/

/-- `\d`. -/
def asciiDigit : Regexp Byte := symbol fun c => decide (byte '0' ≤ c ∧ c ≤ byte '9')

/-- What the public reads have after `/api/`. -/
def publicReads : Regexp Byte :=
  .group <| alt (word (text "overview")) <|
    alt (word (text "alerts")) <|
    alt (cat [word (text "endpoints/"), plus asciiDigit,
      opt (.group (alt (word (text "/series")) (word (text "/probes"))))]) <|
    alt (cat [word (text "models/"), plus asciiDigit, word (text "/eval-summary")]) <|
    alt (cat [word (text "shared-reports/"), plus (symbol fun c => c ≠ slash)]) <|
    word (text "public/eval/board")

/-- `publicReadPattern`. -/
def publicReadPattern : Regexp Byte := anchored (seq (word (text "/api/")) publicReads)

/-- What a request says. Its session is the account that a valid cookie names, and `clientIP` the
address it counts as coming from. -/
structure RoutedRequest where
  method : Method
  url : RequestPath
  session : Option ℕ
  clientIP : String

/-- The request as the rate limiter sees it. The path is compared with two ASCII texts alone, so
that a character for each byte will do. -/
def RoutedRequest.limited (req : RoutedRequest) : LimitedRequest :=
  ⟨req.method.name, .ofList (req.url.path.map fun b => Char.ofNat b.val), req.clientIP⟩

/-- The route is in the group of the API, which has the rate limiter before it. The health check
and the version are not. -/
def Route.limited (r : Route) : Bool := r.handler ≠ .healthz && r.handler ≠ .handleVersion

/-- The path is under the group of the API, whether a route takes it or not. -/
def underAPI (p : Bytes) : Bool := p = text "/api" || (text "/api/").isPrefixOf p

/-- The read needs no session. -/
def RoutedRequest.publicRead (req : RoutedRequest) : Bool :=
  (req.method = .get || req.method = .head) && (publicReadPattern.find? req.url.path).isSome

/-- What becomes of a request. -/
inductive RouteAnswer
  | unrouted
  | refused (status : ℕ)
  | handled (handler : Handler) (user : Option SessionUser)
  deriving DecidableEq, Repr

section Gates

variable {β : Type} (limits : RateLimits β) (s : Tier → LimiterTable β) (now : ℤ)
  (getUserByID : ℕ → Option User)

/-- `rateLimit`: whether a request is within the budget of its tier. -/
def rateLimit (req : RoutedRequest) : (Tier → LimiterTable β) × Bool :=
  let (s, passed) := limits.step s (now, req.limited)
  (s, passed.all fun x => x.2)

/-- `requireSession`: a valid session needs an enabled account, on a public read too. -/
def throughSession (req : RoutedRequest) (next : Option SessionUser → RouteAnswer) :
    RouteAnswer :=
  match req.session with
  | some userID =>
    match requireSession (getUserByID userID) with
    | some u => next (some u)
    | none => .refused 401
  | none => if req.publicRead then next none else .refused 401

/-- A request at the gate of its route. -/
def throughGate (r : Route) (req : RoutedRequest) : RouteAnswer :=
  match r.gate with
  | .open => .handled r.handler none
  | .session => throughSession getUserByID req fun u => .handled r.handler u
  | .roles allowed => throughSession getUserByID req fun u =>
      if requireRole allowed u then .handled r.handler u else .refused 403

/-- The limiter stands before an answer. -/
def behindLimit (req : RoutedRequest) (answer : RouteAnswer) :
    (Tier → LimiterTable β) × RouteAnswer :=
  let (s, allowed) := rateLimit limits s now req
  (s, if allowed then answer else .refused 429)

/-- The handler a request gets to, and the tables of the limiter after it. -/
def dispatch (router : Router) (req : RoutedRequest) : (Tier → LimiterTable β) × RouteAnswer :=
  match router.find req.method req.url.routePath with
  | none =>
    -- no route takes the path, but the limiter of the group has counted it
    if underAPI req.url.routePath then behindLimit limits s now req .unrouted else (s, .unrouted)
  | some r =>
    if r.limited then behindLimit limits s now req (throughGate getUserByID r req)
    else (s, throughGate getUserByID r req)

end Gates

variable (getUserByID : ℕ → Option User)

/-! ### Who is to get where -/

/-- What a handler is for, in the order of who may ask for it. -/
inductive Clearance
  | anyone
  | publicRead
  | member
  | hubWriter
  | accountManager
  | globalWriter
  deriving DecidableEq, Repr

/-- What a handler is for. -/
def Handler.clearance : Handler → Clearance
  | .healthz | .handleVersion | .handleLogin | .handleLogout | .handleAuthMe
  | .handleCaptcha => .anyone
  | .handleGetOverview | .handleListAlerts | .handleGetEndpointDetail
  | .handleGetEndpointSeries | .handleListProbes | .handleGetModelEvalSummary
  | .handleGetSharedReport | .handleGetPublicEvalBoard => .publicRead
  | .handleCreateHub | .handleUpdateHub | .handleDeleteHub | .handleSyncHub
  | .handleCreateClassificationRule | .handlePatchClassificationRule
  | .handleDeleteClassificationRule | .handleCreateImageParamRule
  | .handlePatchImageParamRule | .handleDeleteImageParamRule | .handleCreateCase
  | .handlePatchCase | .handlePutSettings | .handleTestLark => .globalWriter
  | .handleCreateModel | .handlePatchModel | .handleDeleteModel | .handleTrialModel
  | .handlePatchEndpoint | .handleDeleteEndpoint | .handlePruneDeadEndpoints
  | .handleProbeEndpoint | .handleRunDiscovery | .handleCreateEval
  | .handleRetryCampaignFailed | .handleRetryCampaignUnits | .handleCancelCampaign
  | .handleConfirmJury | .handleRestartCampaign | .handleCreateShareLink
  | .handleRevokeShareLink => .hubWriter
  | .handleListUsers | .handleCreateUser | .handlePatchUser | .handleResetUserPassword
  | .handleDeleteUser => .accountManager
  | _ => .member

/-- Who sends a request: someone without a session, with the session of an account that is gone
or disabled, or an enabled account. -/
inductive Sender
  | stranger
  | dismissed
  | account (role : Role)
  deriving DecidableEq, Repr

/-- Who sends a request with a session. -/
def sender (session : Option ℕ) : Sender :=
  match session with
  | none => .stranger
  | some userID =>
    match requireSession (getUserByID userID) with
    | none => .dismissed
    | some u => .account u.role

/-- Who may ask for what. -/
def Clearance.admits : Clearance → Sender → Bool
  | .anyone, _ => true
  | .publicRead, .stranger => true
  | .publicRead, .account _ | .member, .account _ => true
  | .hubWriter, .account role => role != .viewer
  | .accountManager, .account role => role == .superAdmin || role == .admin
  | .globalWriter, .account role => role == .superAdmin
  | _, _ => false

variable {getUserByID} {router : Router} {r : Route} {req : RoutedRequest} {h : Handler}

/-! ### Fixed beginnings -/

/-- What all paths of a route begin with. -/
def lead : List Segment → Bytes
  | [] => []
  | .lit w :: segs => slash :: w ++ lead segs
  | .param :: _ => [slash]

/-- All segments of the route are fixed. -/
def fixed (segs : List Segment) : Bool := segs.all (· != .param)

theorem exists_of_fits {segs : List Segment} {p : Bytes} (h : fits segs p = true) :
    ∃ rest, p = lead segs ++ rest ∧ (fixed segs = true → rest = []) := by
  induction segs generalizing p with
  | nil => exact ⟨[], by simpa [fits, lead] using h, fun _ => rfl⟩
  | cons seg segs ih =>
    cases seg with
    | lit w =>
      simp only [fits, Bool.and_eq_true] at h
      obtain ⟨hhead, htail⟩ := h
      obtain ⟨after, rfl⟩ := List.isPrefixOf_iff_prefix.mp hhead
      rw [List.cons_append, List.drop_succ_cons, List.drop_left] at htail
      obtain ⟨rest, rfl, hfixed⟩ := ih htail
      exact ⟨rest, by simp [lead], fun hall => hfixed (by simpa [fixed] using hall)⟩
    | param =>
      simp only [fits, Bool.and_eq_true] at h
      obtain ⟨after, rfl⟩ := List.head?_eq_some_iff.mp (eq_of_beq h.1)
      exact ⟨after, rfl, fun hall => by simp [fixed] at hall⟩

theorem unescape_cons {c : Byte} (hc : c ≠ percent) (rest : Bytes) :
    unescape (c :: rest) = (unescape rest).map (c :: ·) := by
  rw [unescape.eq_def]
  exact if_neg hc

/-- A text without escapes comes through. -/
theorem unescape_append {w : Bytes} (hw : percent ∉ w) (rest : Bytes) :
    unescape (w ++ rest) = (unescape rest).map (w ++ ·) := by
  induction w with
  | nil => simp
  | cons c w ih =>
    have hc : c ≠ percent := fun heq => hw (heq ▸ List.mem_cons_self)
    have hrest : percent ∉ w := fun hmem => hw (List.mem_cons_of_mem c hmem)
    rw [List.cons_append, unescape_cons hc, ih hrest, Option.map_map]
    rfl

/-- **The escapes of a path leave the fixed beginning of its route alone.** -/
theorem exists_path_of_fits {segs : List Segment} {url : RequestPath}
    (h : fits segs url.routePath = true) (hplain : percent ∉ lead segs) :
    ∃ rest, url.path = lead segs ++ rest ∧ (fixed segs = true → rest = []) := by
  -- without escapes the router's path is the path, with them it unescapes to it
  obtain ⟨rest, hrest, hfixed⟩ := exists_of_fits h
  cases hraw : url.rawPath with
  | none => exact ⟨rest, by simpa [RequestPath.routePath, hraw] using hrest, hfixed⟩
  | some raw =>
    have hunescaped := url.unescaped raw hraw
    rw [show raw = lead segs ++ rest by simpa [RequestPath.routePath, hraw] using hrest,
      unescape_append hplain] at hunescaped
    obtain ⟨after, hafter, hpath⟩ := Option.map_eq_some_iff.mp hunescaped
    refine ⟨after, hpath.symm, fun hall => ?_⟩
    rw [hfixed hall] at hafter
    exact (Option.some.inj hafter).symm

/-! ### What the pattern of the public reads leaves out -/

/-- What the paths of the public reads begin with. -/
def publicLeads : List Bytes :=
  [text "/api/overview", text "/api/alerts", text "/api/endpoints/", text "/api/models/",
    text "/api/shared-reports/", text "/api/public/eval/board"]

theorem prefix_of_seq_word {w v : Bytes} {r : Regexp Byte}
    (hv : v ∈ (seq (word w) r).language) : w <+: v := by
  obtain ⟨u, hu, rest, -, rfl⟩ := Language.mem_mul.mp hv
  rw [mem_language_word.mp hu]
  exact List.prefix_append w rest

theorem exists_lead_of_publicRead (h : req.publicRead = true) :
    ∃ w ∈ publicLeads, w <+: req.url.path := by
  obtain ⟨-, hmatch⟩ := Bool.and_eq_true_iff.mp h
  rw [publicReadPattern, isSome_find_anchored_iff rfl] at hmatch
  obtain ⟨u, hu, v, hv, hpath⟩ := Language.mem_mul.mp hmatch
  rw [← hpath, mem_language_word.mp hu]
  have hlead {w : Bytes} (hw : text "/api/" ++ w ∈ publicLeads) (hle : w <+: v) :
      ∃ w ∈ publicLeads, w <+: text "/api/" ++ v :=
    ⟨_, hw, (List.prefix_append_right_inj (text "/api/")).mpr hle⟩
  have hword {w : Bytes} (hw : v ∈ (word w).language) : w <+: v := by
    rw [mem_language_word.mp hw]
  -- one case for each alternative of the pattern, in its order
  rcases hv with hv | hv | hv | hv | hv | hv
  · exact hlead (by decide) (hword hv)
  · exact hlead (by decide) (hword hv)
  · exact hlead (by decide) (prefix_of_seq_word hv)
  · exact hlead (by decide) (prefix_of_seq_word hv)
  · exact hlead (by decide) (prefix_of_seq_word hv)
  · exact hlead (by decide) (hword hv)

/-- What a route of the members begins with, no public read does. -/
theorem member_routes : ∀ r ∈ routes, r.handler.clearance = .member → ∀ w ∈ publicLeads,
    ¬ w <+: lead r.pattern ∧ (fixed r.pattern = false → ¬ lead r.pattern <+: w) := by
  decide +kernel

theorem plain_routes : ∀ r ∈ routes, percent ∉ lead r.pattern := by
  decide +kernel

/-- **A public read is none of the members' routes**, whatever the escapes of its path. -/
theorem clearance_ne_member {r : Route} (hr : r ∈ routes)
    (hfits : fits r.pattern req.url.routePath = true) (h : req.publicRead = true) :
    r.handler.clearance ≠ .member := by
  intro hmember
  obtain ⟨w, hw, hprefix⟩ := exists_lead_of_publicRead h
  obtain ⟨rest, hpath, hfixed⟩ := exists_path_of_fits hfits (plain_routes r hr)
  -- the beginning of a public read and that of the route are beginnings of one path
  obtain ⟨hshort, hlong⟩ := member_routes r hr hmember w hw
  rw [hpath] at hprefix
  cases hall : fixed r.pattern with
  | true =>
    rw [hfixed hall, List.append_nil] at hprefix
    exact hshort hprefix
  | false =>
    -- Of two beginnings of one path one begins with the other.
    rcases List.prefix_or_prefix_of_prefix hprefix (List.prefix_append _ rest) with hle | hle
    · exact hshort hle
    · exact hlong hall hle

/-! ### The gates -/

/-- The gate lets those through whom the clearance admits, public reads apart. -/
def RouteGate.guards : RouteGate → Clearance → Bool
  | .open, c => c == .anyone
  | .session, c => c == .publicRead || c == .member
  -- every role is looked at, so the list is neither too short nor too long
  | .roles allowed, c =>
    !c.admits .stranger && !c.admits .dismissed &&
      [Role.superAdmin, .admin, .operator, .viewer].all fun role =>
        allowed.contains role == c.admits (.account role)

theorem guards_routes : ∀ r ∈ routes, r.gate.guards r.handler.clearance = true := by
  decide +kernel

/-- Only reads are for those who may not write. -/
theorem write_routes : ∀ r ∈ routes, r.method ≠ .get →
    r.handler.clearance ≠ .publicRead ∧ r.handler.clearance ≠ .member := by
  decide +kernel

theorem open_routes : ∀ r ∈ routes, r.method ≠ .get → r.handler.clearance = .anyone →
    r.handler = .handleLogin ∨ r.handler = .handleLogout := by
  decide +kernel

/-- The roles of a gate are those the clearance admits. -/
theorem admits_of_guards {allowed : List Role} {c : Clearance}
    (h : (RouteGate.roles allowed).guards c = true) (s : Sender) :
    c.admits s = true ↔ ∃ role, s = .account role ∧ allowed.contains role = true := by
  simp only [RouteGate.guards, Bool.and_eq_true, Bool.not_eq_true', List.all_eq_true,
    beq_iff_eq] at h
  obtain ⟨⟨hstranger, hdismissed⟩, hroles⟩ := h
  cases s with
  | stranger => simp [hstranger]
  | dismissed => simp [hdismissed]
  | account role =>
    rw [← hroles role (by cases role <;> decide)]
    simp

/-- What the session lets through depends on the sender. -/
theorem throughSession_cases (getUserByID : ℕ → Option User) (req : RoutedRequest)
    (next : Option SessionUser → RouteAnswer) :
    (sender getUserByID req.session = .stranger ∧
      throughSession getUserByID req next = if req.publicRead then next none else .refused 401) ∨
    (sender getUserByID req.session = .dismissed ∧
      throughSession getUserByID req next = .refused 401) ∨
    ∃ u, sender getUserByID req.session = .account u.role ∧
      throughSession getUserByID req next = next (some u) := by
  unfold sender throughSession
  cases req.session with
  | none => exact .inl ⟨rfl, rfl⟩
  | some userID =>
    dsimp only
    cases requireSession (getUserByID userID) with
    | none => exact .inr (.inl ⟨rfl, rfl⟩)
    | some u => exact .inr (.inr ⟨u, rfl, rfl⟩)

/-- Who gets to a handler behind a session. -/
theorem handled_session_iff {k : Handler} :
    (∃ u, throughSession getUserByID req (fun u => .handled k u) = .handled h u) ↔
      k = h ∧ sender getUserByID req.session ≠ .dismissed ∧
        (sender getUserByID req.session = .stranger → req.publicRead = true) := by
  obtain ⟨hsender, heq⟩ | ⟨hsender, heq⟩ | ⟨u, hsender, heq⟩ :=
    throughSession_cases getUserByID req fun u => .handled k u
  · rw [heq, hsender]
    cases req.publicRead <;> simp
  · rw [heq, hsender]
    simp
  · rw [heq, hsender]
    simp

/-- Who gets to a handler behind roles. -/
theorem handled_roles_iff {k : Handler} {allowed : List Role} :
    (∃ u, throughSession getUserByID req
        (fun u => if requireRole allowed u then .handled k u else .refused 403) = .handled h u) ↔
      k = h ∧ ∃ role, sender getUserByID req.session = .account role ∧
        allowed.contains role = true := by
  obtain ⟨hsender, heq⟩ | ⟨hsender, heq⟩ | ⟨u, hsender, heq⟩ :=
    throughSession_cases getUserByID req fun u =>
      if requireRole allowed u then .handled k u else .refused 403
  · rw [heq, hsender]
    cases req.publicRead <;> simp [requireRole]
  · rw [heq, hsender]
    simp
  · rw [heq, hsender]
    cases hrole : allowed.contains u.role <;> simp [requireRole, -List.contains_eq_mem, hrole]

/-- **The gate of a route** lets a request to its handler if the sender is cleared for it. -/
theorem handled_throughGate_iff (hfind : router.find req.method req.url.routePath = some r) :
    (∃ u, throughGate getUserByID r req = .handled h u) ↔ r.handler = h ∧
      h.clearance.admits (sender getUserByID req.session) = true ∧
      (h.clearance = .publicRead → sender getUserByID req.session = .stranger →
        req.publicRead = true) := by
  have hr := router.mem_routes hfind
  have hguards := guards_routes r hr
  unfold throughGate
  cases hgate : r.gate with
  | «open» =>
    rw [hgate] at hguards
    have hc : r.handler.clearance = .anyone := eq_of_beq hguards
    constructor
    · rintro ⟨u, hu⟩
      obtain ⟨rfl, -⟩ := RouteAnswer.handled.inj hu
      simp [hc, Clearance.admits]
    · rintro ⟨rfl, -⟩
      exact ⟨none, rfl⟩
  | session =>
    rw [hgate] at hguards
    have hc : r.handler.clearance = .publicRead ∨ r.handler.clearance = .member := by
      simpa [RouteGate.guards] using hguards
    -- the session lets a stranger through by the path alone, so the pattern has to be right
    have hmember : req.publicRead = true → r.handler.clearance ≠ .member :=
      clearance_ne_member hr (router.fits_pattern hfind)
    dsimp only
    rw [handled_session_iff]
    refine and_congr_right ?_
    rintro rfl
    cases sender getUserByID req.session with
    | stranger =>
      rcases hc with hc | hc
      · simp [hc, Clearance.admits]
      · -- a member's route is not read without a session
        have hprivate : req.publicRead ≠ true := fun hpublic => hmember hpublic hc
        simp [hc, Clearance.admits, hprivate]
    | dismissed => rcases hc with hc | hc <;> simp [hc, Clearance.admits]
    | account role => rcases hc with hc | hc <;> simp [hc, Clearance.admits]
  | roles allowed =>
    rw [hgate] at hguards
    dsimp only
    rw [handled_roles_iff]
    refine and_congr_right ?_
    rintro rfl
    rw [admits_of_guards hguards, iff_self_and]
    rintro ⟨role, hrole, -⟩ - hstranger
    rw [hrole] at hstranger
    cases hstranger

section Dispatch

variable {β : Type} (limits : RateLimits β) (s : Tier → LimiterTable β) (now : ℤ)

theorem handled_behindLimit_iff {answer : RouteAnswer} {u : Option SessionUser} :
    (behindLimit limits s now req answer).2 = .handled h u ↔
      (rateLimit limits s now req).2 = true ∧ answer = .handled h u := by
  change (if (rateLimit limits s now req).2 then answer else .refused 429) = .handled h u ↔ _
  cases (rateLimit limits s now req).2 <;> simp

/-- **A request gets to the handler of its route if the rate limiter lets it pass and its sender is
cleared for it**, and without a session to a public read only by a path that the pattern takes.
The limiter is asked on the routes it stands before. -/
theorem handled_iff (getUserByID : ℕ → Option User) (router : Router) (req : RoutedRequest)
    (h : Handler) :
    (∃ u, (dispatch limits s now getUserByID router req).2 = .handled h u) ↔
      ∃ r, router.find req.method req.url.routePath = some r ∧ r.handler = h ∧
        (r.limited = true → (rateLimit limits s now req).2 = true) ∧
        h.clearance.admits (sender getUserByID req.session) = true ∧
        (h.clearance = .publicRead → sender getUserByID req.session = .stranger →
          req.publicRead = true) := by
  unfold dispatch
  cases hfind : router.find req.method req.url.routePath with
  | none =>
    dsimp only
    split_ifs
    · simp [handled_behindLimit_iff]
    · simp
  | some r =>
    simp only [Option.some.injEq, exists_eq_left']
    -- the limiter and the gate are asked one after the other
    rw [and_left_comm, ← handled_throughGate_iff hfind]
    cases hlimited : r.limited with
    | false => simp
    | true => simp only [if_pos, handled_behindLimit_iff, exists_and_left, forall_const]

end Dispatch

/-- The pattern takes the path for a series, the router for an endpoint of an odd id. -/
example : throughGate (fun _ => none) ⟨.get, [lit "api", lit "endpoints", .param], .session,
    .handleGetEndpointDetail⟩ ⟨.get, ⟨text "/api/endpoints/7/series",
      some (text "/api/endpoints/7%2Fseries"), by decide +kernel⟩, none, "ip"⟩ =
      .handled .handleGetEndpointDetail none := by
  decide +kernel

/-- A stranger reads the overview and may not change the settings. -/
example : (dispatch RateLimits.production noTables 0 (fun _ => none) .firstFit
      ⟨.get, ⟨text "/api/overview", none, nofun⟩, none, "ip"⟩).2 = .handled .handleGetOverview none ∧
    (dispatch RateLimits.production noTables 0 (fun _ => none) .firstFit
      ⟨.put, ⟨text "/api/settings", none, nofun⟩, none, "ip"⟩).2 = .refused 401 := by
  decide +kernel

/-- A handler behind roles admits accounts that may write. -/
theorem Clearance.account_of_admits {c : Clearance} {s : Sender} (h : c.admits s = true)
    (hany : c ≠ .anyone) (hpublic : c ≠ .publicRead) (hmember : c ≠ .member) :
    ∃ role, s = .account role ∧ role ≠ .viewer := by
  cases s with
  | stranger => cases c <;> simp_all [Clearance.admits]
  | dismissed => cases c <;> simp_all [Clearance.admits]
  | account role => cases c <;> cases role <;> simp_all [Clearance.admits]

theorem sender_eq_account {session : Option ℕ} {role : Role}
    (h : sender getUserByID session = .account role) :
    ∃ userID v, session = some userID ∧ getUserByID userID = some v ∧ v.enabled = true ∧
      v.role = role := by
  cases session with
  | none => cases h
  | some userID =>
    unfold sender at h
    dsimp only at h
    cases hu : requireSession (getUserByID userID) with
    | none =>
      rw [hu] at h
      cases h
    | some u =>
      rw [hu] at h
      obtain ⟨v, hv, henabled, rfl⟩ := requireSession_eq_some.mp hu
      exact ⟨userID, v, rfl, hv, henabled, Sender.account.inj h⟩

/-- **What is not a read comes from an account that may write**, but for logging in and out. -/
theorem writer_of_handled {β : Type} (limits : RateLimits β) (s : Tier → LimiterTable β) (now : ℤ)
    (getUserByID : ℕ → Option User) (router : Router) (req : RoutedRequest)
    (hmethod : req.method ≠ .get) (h : Handler) (u : Option SessionUser)
    (hdispatch : (dispatch limits s now getUserByID router req).2 = .handled h u) :
    h = .handleLogin ∨ h = .handleLogout ∨
      ∃ userID v, req.session = some userID ∧ getUserByID userID = some v ∧ v.enabled = true ∧
        v.role ≠ .viewer ∧ h.clearance.admits (.account v.role) = true := by
  obtain ⟨r, hfind, rfl, -, hadmits, -⟩ :=
    (handled_iff limits s now getUserByID router req h).mp ⟨u, hdispatch⟩
  have hr := router.mem_routes hfind
  have hwrite : r.method ≠ .get := router.method_eq hfind ▸ hmethod
  by_cases hany : r.handler.clearance = .anyone
  · rcases open_routes r hr hwrite hany with hlogin | hlogout
    · exact .inl hlogin
    · exact .inr (.inl hlogout)
  · obtain ⟨hpublic, hmember⟩ := write_routes r hr hwrite
    obtain ⟨role, hsender, hviewer⟩ := Clearance.account_of_admits hadmits hany hpublic hmember
    obtain ⟨userID, v, hsession, hv, henabled, rfl⟩ := sender_eq_account hsender
    exact .inr (.inr ⟨userID, v, hsession, hv, henabled, hviewer, hsender ▸ hadmits⟩)

end HubScope
