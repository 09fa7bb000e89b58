import HubScope.Server.Users

/-!
# No lockout

Some enabled super_admin should remain whatever requests the server accepts, also when requests
interleave at their store calls. A user can neither change its own role nor delete itself, but an
enabled super_admin may disable itself. And a request is authorized by the account as it was when
the request came: of two super_admins each can demote, disable or delete the other.

## Main definitions

* `Accounts.isAdministrator` — the id is that of an enabled super_admin
* `UserCall.deposes` — the user a call takes the role, the access or the account of
* `InOffice` — who deposes an administrator is another one at that moment

## Main results

* `administrator_exec` — an administrator is left by every call but one that deposes it
* `administrator_of_reach` — there is an administrator in every run that deposes in office
* `not_administrator_of_reach` — each of the two conditions is needed
-/

set_option autoImplicit false

namespace HubScope

/-- The id is that of an enabled super_admin. -/
def Accounts.isAdministrator (st : Accounts) (id : ℕ) : Bool :=
  st.users.any fun u => u.id = id && u.role = .superAdmin && u.enabled

/-- The requests in flight over the users table. -/
abbrev UserThreads := Threads (ℕ × UserRequest) UserCall UserCall.Ret UserAnswer Accounts

/-- One step of the requests. -/
def userStep (hash : String → Option String) :
    UserThreads → ThreadLabel (ℕ × UserRequest) → Option UserThreads :=
  Threads.step UserCall.exec (manage hash)

/-- The user whose super_admin role, access or account the call takes. -/
def UserCall.deposes : UserCall → Option ℕ
  | .updateUser id role _ enabled =>
    if role.any (· ≠ .superAdmin) || enabled = some false then some id else none
  | .deleteUser id => some id
  | .getUser _ | .getHub _ | .createUser .. | .clearUserHubId _ | .setUserPassword .. => none

/-- The user a call disables. -/
def UserCall.disables : UserCall → Option ℕ
  | .updateUser id _ _ (some false) => some id
  | _ => none

/-- The call a step makes, with the user of the session it is made for. -/
def callOf (s : UserThreads) : ThreadLabel (ℕ × UserRequest) → Option (ℕ × UserCall)
  | .call i true => (s.threads[i]?).bind fun th => th.2.next?.map fun op => (th.1.1, op)
  | .call _ false | .start _ => none

/-- No administrator is disabled by its own request. -/
def sparesSelf (s : UserThreads) (a : ThreadLabel (ℕ × UserRequest)) : Bool :=
  (callOf s a).all fun (user, op) =>
    op.disables.all fun id => !s.shared.isAdministrator id || user ≠ id

/-- An administrator is deposed for a user who is an administrator at that moment. -/
def deposedByAdministrator (s : UserThreads) (a : ThreadLabel (ℕ × UserRequest)) : Bool :=
  (callOf s a).all fun (user, op) =>
    op.deposes.all fun id => !s.shared.isAdministrator id || s.shared.isAdministrator user

/-- Who deposes an administrator is another one at that moment. -/
def InOffice (s : UserThreads) (a : ThreadLabel (ℕ × UserRequest)) : Prop :=
  sparesSelf s a = true ∧ deposedByAdministrator s a = true

instance (s : UserThreads) (a : ThreadLabel (ℕ × UserRequest)) : Decidable (InOffice s a) :=
  inferInstanceAs (Decidable (_ ∧ _))

/-- There is an enabled super_admin. -/
def Administered (st : Accounts) : Prop := ∃ id, st.isAdministrator id = true

variable {st : Accounts} {id user : ℕ} {hash : String → Option String} {op : UserCall}

theorem isAdministrator_iff : st.isAdministrator id = true ↔
    ∃ u ∈ st.users, u.id = id ∧ u.role = .superAdmin ∧ u.enabled = true := by
  unfold Accounts.isAdministrator
  rw [List.any_eq_true]
  simp [and_assoc]

/-! ### What a call leaves -/

/-- A rewritten row stays an administrator if it is another's or the rewriting lets it. -/
theorem administrator_patch {target : ℕ} {f : User → User} (h : st.isAdministrator id = true)
    (hid : ∀ u, (f u).id = u.id)
    (hkeep : id = target → ∀ u : User, u.role = .superAdmin ∧ u.enabled = true →
      (f u).role = .superAdmin ∧ (f u).enabled = true) :
    (st.patch target f).isAdministrator id = true := by
  obtain ⟨u, hu, hu_id, hadmin⟩ := isAdministrator_iff.mp h
  apply isAdministrator_iff.mpr
  by_cases htarget : u.id = target
  · refine ⟨f u, Accounts.mem_patch.mpr ⟨u, hu, if_pos htarget⟩, (hid u).trans hu_id, ?_⟩
    exact hkeep (hu_id.symm.trans htarget) u hadmin
  · exact ⟨u, Accounts.mem_patch.mpr ⟨u, hu, if_neg htarget⟩, hu_id, hadmin⟩

/-- An administrator is left by every call but one that deposes it. -/
theorem administrator_exec (ok : Bool) (h : st.isAdministrator id = true)
    (hop : ok = true → op.deposes ≠ some id) :
    (UserCall.exec st ok op).2.isAdministrator id = true := by
  cases ok with
  | false => cases op <;> exact h
  | true =>
    have hop := hop rfl
    cases op with
    | getUser | getHub => exact h
    | createUser username passwordHash hubId role =>
      obtain heq | heq := UserCall.exec_createUser st true username passwordHash hubId role
      · rw [heq]
        exact h
      · rw [heq]
        obtain ⟨u, hu, hadmin⟩ := isAdministrator_iff.mp h
        exact isAdministrator_iff.mpr ⟨u, List.mem_append_left _ hu, hadmin⟩
    | updateUser target role hubId enabled =>
      show (st.updateUserRow target role hubId enabled).isAdministrator id = true
      refine administrator_patch h (fun _ => rfl) ?_
      rintro rfl u ⟨hrole, henabled⟩
      -- the patch neither changes the role nor disables
      have hkept : role.any (· ≠ .superAdmin) = false ∧ enabled ≠ some false := by
        simpa [UserCall.deposes] using hop
      constructor
      · cases role with
        | none => exact hrole
        | some role => simpa using hkept.1
      · cases enabled with
        | none => exact henabled
        | some flag => simpa using hkept.2
    | clearUserHubId target => exact administrator_patch h (fun _ => rfl) fun _ _ hu => hu
    | setUserPassword target passwordHash =>
      exact administrator_patch h (fun _ => rfl) fun _ _ hu => hu
    | deleteUser target =>
      have hne : id ≠ target := fun heq => hop (heq ▸ rfl)
      obtain ⟨u, hu, hu_id, hadmin⟩ := isAdministrator_iff.mp h
      exact isAdministrator_iff.mpr
        ⟨u, Accounts.mem_deleteUser.mpr ⟨hu, hu_id ▸ hne⟩, hu_id, hadmin⟩

/-! ### What a request does not do -/

/-- The call neither changes the role of the user of its session nor deletes it. -/
def SparesSession (user : ℕ) : UserCall → Prop
  | .updateUser id role _ _ => role ≠ none → user ≠ id
  | .deleteUser id => user ≠ id
  | .getUser _ | .getHub _ | .createUser .. | .clearUserHubId _ | .setUserPassword .. => True

theorem manage_sparesSession (req : ℕ × UserRequest) :
    (manage hash req).All (SparesSession req.1) UserCall.Admits := by
  apply manage_all trivial
  intro u hu
  rw [← hu]
  cases req.2 with
  | create body => exact handleCreateUser_all (fun _ => trivial) fun _ _ _ _ _ => trivial
  | patch id body =>
    exact handlePatchUser_all (fun _ => trivial) (fun _ => trivial) fun _ _ _ hself => hself
  | resetPassword id body =>
    exact handleResetUserPassword_all (fun _ => trivial) fun _ _ => trivial
  | delete id => exact handleDeleteUser_all (fun _ => trivial) fun _ hself => hself

/-- A call that deposes its own user disables it. -/
theorem disables_of_deposes (h : SparesSession user op) (hop : op.deposes = some user) :
    op.disables = some user := by
  cases op with
  | getUser | getHub | createUser | clearUserHubId | setUserPassword => cases hop
  | deleteUser id => exact absurd (Option.some.inj hop).symm h
  | updateUser id role hubId enabled =>
    simp only [UserCall.deposes] at hop
    split at hop
    · rename_i hany
      obtain rfl := Option.some.inj hop
      have hrole : role = none := by_contra fun hne => h hne rfl
      subst hrole
      have hdisabled : enabled = some false := by simpa using hany
      rw [hdisabled]
      rfl
    · cases hop

/-! ### Runs -/

/-- **No lockout.** From accounts with an enabled super_admin, requests that interleave at their
store calls leave one, if whoever deposes an administrator is another one at that moment. -/
theorem administrator_of_reach {s : UserThreads} (hadmin : Administered st)
    (h : Transition.Reach (userStep hash) InOffice ⟨st, []⟩ s) : Administered s.shared := by
  have hspares : ∀ t : UserThreads, Transition.Reach (userStep hash) InOffice ⟨st, []⟩ t →
      ∀ th ∈ t.threads, th.2.All (SparesSession th.1.1) UserCall.Admits := fun t ht =>
    Threads.all_of_reach UserCall.exec_admits manage_sparesSession rfl ht
  apply Transition.Reach.invariant_of hspares hadmin _ h
  intro t a u ht hadmin hguard hstep
  obtain ⟨req, -, hshared, -⟩ | ⟨i, ok, req, p, q, rfl, hget, hadvance, -⟩ :=
    Threads.step_cases hstep
  · rw [hshared]
    exact hadmin
  obtain ⟨id, hid⟩ := hadmin
  cases p with
  | done answer => cases hadvance
  | call op k =>
    have hshared : u.shared = (UserCall.exec t.shared ok op).2 :=
      (Prod.mk.inj (Option.some.inj hadvance)).2.symm
    rw [hshared]
    by_cases hdepose : ok = true ∧ op.deposes = some id
    · -- Whoever deposes the administrator stays one.
      obtain ⟨rfl, hdepose⟩ := hdepose
      have hcall : callOf t (.call i true) = some (req.1, op) := by
        simp only [callOf, hget]
        rfl
      obtain ⟨hself, hoffice⟩ := hguard
      have hactor : t.shared.isAdministrator req.1 = true := by
        unfold deposedByAdministrator at hoffice
        simpa [hcall, hdepose, hid] using hoffice
      refine ⟨req.1, administrator_exec true hactor fun _ heq => ?_⟩
      have hsession := (ht _ (List.mem_of_getElem? hget)).next rfl
      have hdisables := disables_of_deposes hsession heq
      unfold sparesSelf at hself
      simp [hcall, hdisables, hactor] at hself
    · exact ⟨id, administrator_exec ok hid fun hok heq => hdepose ⟨hok, heq⟩⟩

/-- An enabled super_admin. -/
def superAdminUser (id : ℕ) (username : String) : User := ⟨id, username, "", none, .superAdmin, true⟩

/-- Two super_admins. -/
def twoAdministrators : Accounts := ⟨[superAdminUser 1 "root", superAdminUser 2 "deputy"], [], 2⟩

/-- A request that disables a user. -/
def disableRequest (id : ℕ) : UserRequest := .patch (some id) (some ⟨none, some false⟩)

/-- The first super_admin disables the second. -/
def disableLabels : List (ThreadLabel (ℕ × UserRequest)) :=
  [.start (1, disableRequest 2), .call 0 true, .call 0 true, .call 0 true, .call 0 true]

theorem administrator_of_reach_disable : ∃ s : UserThreads,
    Transition.Reach (userStep fun _ => none) InOffice ⟨twoAdministrators, []⟩ s ∧
      s.shared.isAdministrator 2 = false ∧ Administered s.shared := by
  obtain ⟨s, hs, hdisabled⟩ : ∃ s : UserThreads, Transition.replayWith (userStep fun _ => none)
      InOffice ⟨twoAdministrators, []⟩ disableLabels = some s ∧
      s.shared.isAdministrator 2 = false := ⟨_, rfl, rfl⟩
  have hrun := Transition.Reach.of_replayWith hs
  exact ⟨s, hrun, hdisabled, administrator_of_reach ⟨1, rfl⟩ hrun⟩

/-- The only super_admin disables itself. -/
def selfDisableLabels : List (ThreadLabel (ℕ × UserRequest)) :=
  [.start (1, disableRequest 1), .call 0 true, .call 0 true, .call 0 true]

/-- Two super_admins disable each other, and both requests come before either is carried out. -/
def mutualLabels : List (ThreadLabel (ℕ × UserRequest)) :=
  [.start (1, disableRequest 2), .start (2, disableRequest 1), .call 0 true, .call 1 true,
    .call 0 true, .call 1 true, .call 0 true, .call 1 true]

/-- The last super_admin can disable itself, and two can disable each other. -/
theorem not_administrator_of_reach :
    (¬ ∀ (st : Accounts) (s : UserThreads), Administered st →
      Transition.Reach (userStep fun _ => none) (fun s a => deposedByAdministrator s a = true)
        ⟨st, []⟩ s → Administered s.shared) ∧
    ¬ ∀ (st : Accounts) (s : UserThreads), Administered st →
      Transition.Reach (userStep fun _ => none) (fun s a => sparesSelf s a = true)
        ⟨st, []⟩ s → Administered s.shared := by
  -- an administrator is enabled
  have hnone : ∀ {st : Accounts}, (st.users.all fun u => !u.enabled) = true → ¬ Administered st := by
    rintro st hall ⟨id, hid⟩
    obtain ⟨u, hu, -, -, henabled⟩ := isAdministrator_iff.mp hid
    have hdisabled := List.all_eq_true.mp hall u hu
    simp [henabled] at hdisabled
  constructor
  · intro h
    obtain ⟨s, hs, hall⟩ : ∃ s : UserThreads, Transition.replayWith (userStep fun _ => none)
        (fun s a => deposedByAdministrator s a = true)
        ⟨⟨[superAdminUser 1 "root"], [], 1⟩, []⟩ selfDisableLabels = some s ∧
        (s.shared.users.all fun u => !u.enabled) = true := ⟨_, rfl, rfl⟩
    exact hnone hall (h _ s ⟨1, rfl⟩ (.of_replayWith hs))
  · intro h
    obtain ⟨s, hs, hall⟩ : ∃ s : UserThreads, Transition.replayWith (userStep fun _ => none)
        (fun s a => sparesSelf s a = true) ⟨twoAdministrators, []⟩ mutualLabels = some s ∧
        (s.shared.users.all fun u => !u.enabled) = true := ⟨_, rfl, rfl⟩
    exact hnone hall (h _ s ⟨1, rfl⟩ (.of_replayWith hs))

end HubScope
