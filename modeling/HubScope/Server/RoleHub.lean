import HubScope.Server.Users
import Mathlib.Data.List.Nodup

/-!
# The role and the hub of a user

A super_admin is global and every other user belongs to a hub. Creating a user, resetting a
password and deleting a user keep this. A patch writes the role and the hub in two store calls: a
demotion writes no hub at all, and a promotion clears the hub only after the role is written and
the row is read back.

A request runs to its end, and each of its store calls may fail.

## Main definitions

* `RoleHub` — exactly the super_admins have no hub
* `UserAction`, `manageStep` — a request with the outcomes of its calls, run to its end
* `rolePatch` — the user whose role a request writes, and the role
* `KeepsRoleHub` — no demotion of a super_admin, and no promotion that fails half-way

## Main results

* `manageStep_rolePatch` — the tables a patch that writes a role leaves
* `roleHub_step_iff` — a request keeps the roles and hubs just when it meets the condition
* `roleHub_of_reach` — the roles and hubs along every sequence of such requests
* `not_roleHub_of_reach` — each of the two conditions is needed
-/

set_option autoImplicit false

namespace HubScope

/-- Exactly the super_admins have no hub. -/
def RoleHub (st : Accounts) : Prop :=
  ∀ u ∈ st.users, u.role = .superAdmin ↔ u.hubId = none

/-- The primary key of the users table and its sequence. -/
structure Accounts.Keyed (st : Accounts) : Prop where
  nodup : (st.users.map User.id).Nodup
  seq : ∀ u ∈ st.users, u.id ≤ st.userSeq

/-- A request with the user of its session cookie and the outcomes of its store calls. -/
structure UserAction where
  user : ℕ
  request : UserRequest
  outcomes : ℕ → Bool

/-- The tables after a request. -/
def manageStep (hash : String → Option String) (st : Accounts) (a : UserAction) :
    Option Accounts :=
  some ((manage hash (a.user, a.request)).run UserCall.exec a.outcomes 0 st).2

/-- The user whose role a request writes, with the role: a super_admin's patch of the role of
another user whose session check, lookup and update succeed. -/
def rolePatch (st : Accounts) (a : UserAction) : Option (User × Role) :=
  match a.request with
  | .patch (some id) (some ⟨some text, _⟩) =>
    (Role.ofString (trimSpace text)).bind fun role =>
      (st.getUserById id).bind fun target =>
        if ((requireSession (st.getUserById a.user)).any fun u => u.role = .superAdmin) ∧
            a.user ≠ id ∧ a.outcomes 0 = true ∧ a.outcomes 1 = true ∧ a.outcomes 2 = true then
          some (target, role)
        else none
  | _ => none

/-- A request demotes no super_admin, and when it promotes a user the row is read back and the
hub is cleared. -/
def KeepsRoleHub (st : Accounts) (a : UserAction) : Prop :=
  ∀ target role, rolePatch st a = some (target, role) →
    (target.role = .superAdmin → role = .superAdmin) ∧
    (target.role ≠ .superAdmin → role = .superAdmin → a.outcomes 3 = true ∧ a.outcomes 4 = true)

variable {st st' : Accounts} {id : ℕ} {target : User} {role : Role} {enabled : Option Bool}
  {a : UserAction} {hash : String → Option String}

/-! ### What a call leaves -/

theorem keyed_patch {f : User → User} (h : st.Keyed) (hf : ∀ u, (f u).id = u.id) :
    (st.patch id f).Keyed := by
  have hids : (st.patch id f).users.map User.id = st.users.map User.id := by
    unfold Accounts.patch
    rw [List.map_map]
    apply List.map_congr_left
    intro u _
    show User.id (if u.id = id then f u else u) = u.id
    split
    · exact hf u
    · rfl
  constructor
  · rw [hids]
    exact h.nodup
  · intro u hu
    have hmem : u.id ∈ st.users.map User.id := hids ▸ List.mem_map_of_mem hu
    obtain ⟨v, hv, hid⟩ := List.mem_map.mp hmem
    rw [← hid]
    exact h.seq v hv

theorem keyed_exec (h : st.Keyed) (ok : Bool) (op : UserCall) : (UserCall.exec st ok op).2.Keyed := by
  cases ok with
  | false => cases op <;> exact h
  | true =>
    cases op with
    | getUser | getHub => exact h
    | createUser username passwordHash hubId role =>
      obtain heq | heq := UserCall.exec_createUser st true username passwordHash hubId role
      · rw [heq]
        exact h
      rw [heq]
      constructor
      · show ((st.users ++ [st.newUser username passwordHash hubId role]).map User.id).Nodup
        rw [List.map_append, List.nodup_append]
        -- the new id is above all that were given out
        refine ⟨h.nodup, List.nodup_singleton _, ?_⟩
        intro i hi j hj hij
        obtain ⟨u, hu, rfl⟩ := List.mem_map.mp hi
        have hj : j = st.userSeq + 1 := List.mem_singleton.mp hj
        have hle := h.seq u hu
        omega
      · intro u hu
        obtain hu | hu := List.mem_append.mp hu
        · exact Nat.le_succ_of_le (h.seq u hu)
        · rw [List.mem_singleton.mp hu]
          exact Nat.le_refl _
    | updateUser target role hubId enabled => exact keyed_patch h fun _ => rfl
    | clearUserHubId target => exact keyed_patch h fun _ => rfl
    | setUserPassword target passwordHash => exact keyed_patch h fun _ => rfl
    | deleteUser target =>
      exact ⟨h.nodup.sublist (List.filter_sublist.map _),
        fun u hu => h.seq u (Accounts.mem_deleteUser.mp hu).1⟩

/-- A rewriting of rows that keeps the role and the hub keeps the relation. -/
theorem RoleHub.patch {f : User → User} (h : RoleHub st)
    (hf : ∀ u, (f u).role = u.role ∧ (f u).hubId = u.hubId) : RoleHub (st.patch id f) := by
  intro u hu
  obtain ⟨v, hv, rfl⟩ := Accounts.mem_patch.mp hu
  split
  · rw [(hf v).1, (hf v).2]
    exact h v hv
  · exact h v hv

/-- A role written without the hub keeps the relation just when it is global like the old one. -/
theorem roleHub_updateRole_iff (hkeyed : st.Keyed) (h : RoleHub st)
    (htarget : st.getUserById id = some target) :
    RoleHub (st.updateUserRow id (some role) none enabled) ↔
      (target.role = .superAdmin ↔ role = .superAdmin) := by
  obtain ⟨hmem, hid⟩ := Accounts.getUserById_mem htarget
  constructor
  · intro hafter
    have hrow := hafter _ (Accounts.mem_patch.mpr ⟨target, hmem, if_pos hid⟩)
    exact (h target hmem).trans hrow.symm
  · intro hrole u hu
    obtain ⟨v, hv, rfl⟩ := Accounts.mem_patch.mp hu
    split
    · rename_i hvid
      have hsame : v = target :=
        List.inj_on_of_nodup_map hkeyed.nodup hv hmem (hvid.trans hid.symm)
      subst hsame
      exact hrole.symm.trans (h v hv)
    · exact h v hv

/-- A role of super_admin with the hub cleared keeps the relation. -/
theorem RoleHub.promote (h : RoleHub st) :
    RoleHub ((st.updateUserRow id (some .superAdmin) none enabled).clearUserHubId id).2 := by
  intro u hu
  obtain ⟨v, hv, rfl⟩ := Accounts.mem_patch.mp hu
  obtain ⟨w, hw, rfl⟩ := Accounts.mem_patch.mp hv
  by_cases hid : w.id = id
  · simp [hid]
  · simp only [if_neg hid]
    exact h w hw

/-! ### What a request leaves -/

/-- The calls that write neither the role nor the hub of a row there is. -/
def UserCall.KeepsHub : UserCall → Prop
  | .updateUser .. | .clearUserHubId _ => False
  | .createUser _ _ hubId role => role = .superAdmin ↔ hubId = none
  | .getUser _ | .getHub _ | .setUserPassword .. | .deleteUser _ => True

/-- Creating a user, resetting a password and deleting one keep the relation. -/
theorem RoleHub.exec (h : RoleHub st) (ok : Bool) {op : UserCall} (hop : op.KeepsHub) :
    RoleHub (UserCall.exec st ok op).2 := by
  -- the calls that write a role or a hub alone are left out; the others leave both or write both
  cases op with
  | updateUser | clearUserHubId => exact hop.elim
  | getUser | getHub => exact h
  | createUser username passwordHash hubId role =>
    obtain heq | heq := UserCall.exec_createUser st ok username passwordHash hubId role
    · rw [heq]
      exact h
    · rw [heq]
      intro u hu
      obtain hu | hu := List.mem_append.mp hu
      · exact h u hu
      · rw [List.mem_singleton.mp hu]
        exact hop
  | setUserPassword id passwordHash =>
    cases ok with
    | false => exact h
    | true => exact h.patch fun _ => ⟨rfl, rfl⟩
  | deleteUser id =>
    cases ok with
    | false => exact h
    | true => exact fun u hu => h u (Accounts.mem_deleteUser.mp hu).1

/-- The state a program leaves, run on the users table. -/
abbrev runState (outcomes : ℕ → Bool) (n : ℕ) (st : Accounts) (p : UserProgram) : Accounts :=
  (p.run UserCall.exec outcomes n st).2

/-- What a patch leaves that is authorized for its target, where `n` is the call of the update. -/
def afterPatch (outcomes : ℕ → Bool) (n : ℕ) (st : Accounts) (id : ℕ) (target : User)
    (role : Option Role) (enabled : Option Bool) : Accounts :=
  if (role = none ∧ enabled = none) ∨ outcomes n = false then st
  else
    let st := st.updateUserRow id role none enabled
    if (role = some .superAdmin ∧ target.hubId.isSome) ∧ outcomes (n + 1) = true ∧
        outcomes (n + 2) = true then
      (st.clearUserHubId id).2
    else st

variable {outcomes : ℕ → Bool} {n : ℕ} {u : SessionUser}

theorem runState_call {op : UserCall} {k : op.Ret → UserProgram} :
    runState outcomes n st (.call op k) = runState outcomes (n + 1)
      (UserCall.exec st (outcomes n) op).2 (k (UserCall.exec st (outcomes n) op).1) := rfl

theorem runState_done {answer : UserAnswer} : runState outcomes n st (.done answer) = st := rfl

theorem getUserById_patch {f : User → User} (h : st.getUserById id = some target)
    (hf : ∀ u, (f u).id = u.id) : ∃ v, (st.patch id f).getUserById id = some v := by
  obtain ⟨hmem, hid⟩ := Accounts.getUserById_mem h
  apply Option.isSome_iff_exists.mp
  unfold Accounts.getUserById
  rw [List.find?_isSome]
  refine ⟨f target, Accounts.mem_patch.mpr ⟨target, hmem, if_pos hid⟩, ?_⟩
  rw [hf, hid]
  exact beq_self_eq_true id

/-- What `UpdateUser` and the rest of a patch leave. -/
theorem runState_updateUser {role : Option Role} {k : Option User → UserProgram}
    (hnone : ∀ m st, runState outcomes m st (k none) = st)
    (hsome : ∀ m st updated, runState outcomes m st (k (some updated)) =
      if (role = some .superAdmin ∧ target.hubId.isSome) ∧ outcomes m = true then
        (st.clearUserHubId id).2
      else st)
    (htarget : st.getUserById id = some target) :
    runState outcomes n st (updateUser id role none enabled k) =
      afterPatch outcomes n st id target role enabled := by
  unfold updateUser afterPatch
  by_cases hempty : role = none ∧ enabled = none
  · obtain ⟨rfl, rfl⟩ := hempty
    rw [if_pos ⟨rfl, rfl, rfl⟩, if_pos (.inl ⟨rfl, rfl⟩)]
    show runState outcomes (n + 1) st (k (if outcomes n then st.getUserById id else none)) = st
    split
    · rw [htarget, hsome, if_neg (by simp)]
    · exact hnone _ _
  rw [if_neg fun h => hempty ⟨h.1, h.2.2⟩]
  cases hupdate : outcomes n with
  | false =>
    rw [if_pos (.inr rfl)]
    rw [runState_call, UserCall.exec_updateUser, hupdate]
    exact hnone _ _
  | true =>
    rw [if_neg (by simpa using hempty)]
    simp only [runState_call, UserCall.exec_updateUser, UserCall.exec_getUser, hupdate, if_true]
    -- The row is there when it is read back.
    obtain ⟨updated, hrow⟩ : ∃ v, (st.updateUserRow id role none enabled).getUserById id = some v :=
      getUserById_patch htarget fun _ => rfl
    rw [hrow]
    cases hread : outcomes (n + 1) with
    | false =>
      rw [if_neg Bool.false_ne_true, if_neg fun h => Bool.false_ne_true h.2.1]
      exact hnone (n + 1 + 1) _
    | true =>
      refine (hsome (n + 2) _ updated).trans ?_
      simp

/-- The tables a patch of the session `u` leaves. -/
theorem runState_handlePatchUser {req : PatchUserRequest} :
    runState outcomes n st (handlePatchUser u (some id) (some req)) =
      match patchRole req.role with
      | .error _ => st
      | .ok role =>
        if role.isSome ∧ u.userId = id then st
        else
          match if outcomes n then st.getUserById id else none with
          | none => st
          | some target =>
            if (assertCanManageUser u target).isSome then st
            else
              afterPatch outcomes (n + 1) st id target (if u.role = .admin then none else role)
                req.enabled := by
  unfold handlePatchUser
  dsimp only
  cases patchRole req.role with
  | error answer => rfl
  | ok role =>
    dsimp only
    generalize (if u.role = .admin then none else role) = effective
    by_cases hself : role.isSome = true ∧ u.userId = id
    · rw [if_pos hself, if_pos hself, runState_done]
    rw [if_neg hself, if_neg hself, runState_call, UserCall.exec_getUser]
    generalize hlookup : (if outcomes n = true then st.getUserById id else none) = found
    cases found with
    | none => rfl
    | some target =>
      -- the row that was read is still the one of the id
      have htarget : st.getUserById id = some target := by
        split at hlookup
        · exact hlookup
        · cases hlookup
      dsimp only
      cases assertCanManageUser u target with
      | some message => rfl
      | none =>
        rw [if_neg (by simp)]
        refine runState_updateUser (fun _ _ => rfl) (fun m st updated => ?_) htarget
        dsimp only
        -- a super admin belongs to no hub, which is a write of its own
        by_cases hglobal : effective = some .superAdmin ∧
            target.hubId.isSome = true
        · rw [if_pos hglobal, runState_call, UserCall.exec_clearUserHubId]
          cases outcomes m with
          | false =>
            exact (if_neg fun h => Bool.false_ne_true h.2).symm
          | true =>
            rw [if_pos rfl]
            refine Eq.trans ?_ (if_pos ⟨hglobal, rfl⟩).symm
            split
            · rfl
            · rfl
        · rw [if_neg hglobal, if_neg fun h => hglobal h.1, runState_done]

/-- The tables a request leaves, after its session check. -/
theorem runState_manage {req : ℕ × UserRequest} :
    runState outcomes 0 st (manage hash req) =
      match requireSession (if outcomes 0 then st.getUserById req.1 else none) with
      | none => st
      | some u =>
        if requireRole [.superAdmin, .admin] (some u) then
          runState outcomes 1 st (handleUsers hash u req.2)
        else st := by
  unfold manage
  rw [runState_call, UserCall.exec_getUser]
  dsimp only
  cases requireSession (if outcomes 0 = true then st.getUserById req.1 else none) with
  | none => rfl
  | some u =>
    dsimp only
    split
    · rfl
    · rfl

/-- Without a role a patch writes neither the role nor the hub. -/
theorem roleHub_afterPatch_none (h : RoleHub st) :
    RoleHub (afterPatch outcomes n st id target none enabled) := by
  unfold afterPatch
  split
  · exact h
  · simp only [reduceCtorEq, false_and, if_false]
    exact h.patch fun _ => ⟨rfl, rfl⟩

theorem rolePatch_eq_some : rolePatch st a = some (target, role) ↔
    ∃ id text enabled u, a.request = .patch (some id) (some ⟨some text, enabled⟩) ∧
      Role.ofString (trimSpace text) = some role ∧ st.getUserById id = some target ∧
      requireSession (st.getUserById a.user) = some u ∧ u.role = .superAdmin ∧ a.user ≠ id ∧
      a.outcomes 0 = true ∧ a.outcomes 1 = true ∧ a.outcomes 2 = true := by
  unfold rolePatch
  constructor
  · intro h
    split at h
    · rename_i id text enabled hrequest
      obtain ⟨role', hrole, h⟩ := Option.bind_eq_some_iff.mp h
      obtain ⟨target', htarget, h⟩ := Option.bind_eq_some_iff.mp h
      split at h
      · rename_i hconds
        obtain ⟨hadmin, hconds⟩ := hconds
        obtain ⟨u, hu, hsuper⟩ := (Option.any_eq_true _ _).mp hadmin
        cases h
        exact ⟨id, text, enabled, u, hrequest, hrole, htarget, hu, by simpa using hsuper, hconds⟩
      · cases h
    · cases h
  · rintro ⟨id, text, enabled, u, hrequest, hrole, htarget, hu, hsuper, hconds⟩
    rw [hrequest]
    simp only [hrole, htarget, Option.bind_some, hu]
    -- the conditions are those under which the second call of the patch is made
    rw [if_pos ⟨by simpa using hsuper, hconds⟩]

/-- The role of a session that manages users and is not an admin's. -/
theorem superAdmin_of_requireRole (h : requireRole [.superAdmin, .admin] (some u) = true)
    (hrole : u.role ≠ .admin) : u.role = .superAdmin := by
  simpa [requireRole, hrole] using h

/-- What a patch that writes a role leaves. -/
theorem manageStep_rolePatch (h : rolePatch st a = some (target, role)) :
    st.getUserById target.id = some target ∧ ∃ enabled, manageStep hash st a =
      some (afterPatch a.outcomes 2 st target.id target (some role) enabled) := by
  obtain ⟨id, text, enabled, u, hrequest, hrole, htarget, hu, hsuper, hself, h0, h1, h2⟩ :=
    rolePatch_eq_some.mp h
  have hid : target.id = id := (Accounts.getUserById_mem htarget).2
  have huser : u.userId = a.user := by
    obtain ⟨v, hv, -, rfl⟩ := requireSession_eq_some.mp hu
    exact (Accounts.getUserById_mem hv).2
  have hmanages : requireRole [.superAdmin, .admin] (some u) = true := by
    simp [requireRole, hsuper]
  have hpatch : patchRole (some text) = .ok (some role) := by
    simp only [patchRole, hrole]
  -- a super_admin may manage everyone
  have hmay : assertCanManageUser u target = none := if_pos hsuper
  refine ⟨hid ▸ htarget, enabled, ?_⟩
  show some (runState a.outcomes 0 st (manage hash (a.user, a.request))) = _
  rw [runState_manage, h0, if_pos rfl, hu, hrequest]
  dsimp only
  rw [if_pos hmanages]
  show some (runState a.outcomes 1 st (handlePatchUser u (some id) (some ⟨some text, enabled⟩))) = _
  rw [runState_handlePatchUser]
  dsimp only
  rw [hpatch]
  dsimp only
  rw [if_neg fun h => hself (huser ▸ h.2), h1, if_pos rfl, htarget]
  dsimp only
  rw [hmay, if_neg (by simp), if_neg (by simp [hsuper]), hid]

/-- A patch that writes no role keeps the relation. -/
theorem RoleHub.patchRequest {id : Option ℕ} {body : Option PatchUserRequest} (h : RoleHub st)
    (hrequest : a.request = .patch id body) (hnone : rolePatch st a = none) :
    RoleHub (runState a.outcomes 0 st (manage hash (a.user, a.request))) := by
  rw [runState_manage, hrequest]
  dsimp only
  split
  · exact h
  rename_i u hsession
  split
  swap
  · exact h
  rename_i hmanages
  show RoleHub (runState a.outcomes 1 st (handlePatchUser u id body))
  cases id with
  | none => exact h
  | some id =>
  cases body with
  | none => exact h
  | some req =>
  rw [runState_handlePatchUser]
  split
  · exact h
  rename_i role hpatch
  split
  · exact h
  rename_i hself
  split
  · exact h
  rename_i target hlookup
  split
  · exact h
  by_cases hwrites : u.role = .admin ∨ role = none
  · have heffective : (if u.role = .admin then none else role) = none := by
      obtain hadmin | hrole := hwrites
      · exact if_pos hadmin
      · rw [hrole, ite_self]
    rw [heffective]
    exact roleHub_afterPatch_none h
  · -- The role is written unless the update fails.
    obtain ⟨hadmin, hrole⟩ := not_or.mp hwrites
    obtain ⟨role, rfl⟩ := Option.ne_none_iff_exists'.mp hrole
    rw [if_neg hadmin]
    have h1 : a.outcomes 1 = true := by
      by_contra hfail
      rw [if_neg hfail] at hlookup
      cases hlookup
    have h0 : a.outcomes 0 = true := by
      by_contra hfail
      rw [if_neg hfail] at hsession
      cases hsession
    rw [if_pos h1] at hlookup
    rw [if_pos h0] at hsession
    have h2 : a.outcomes 2 = false := by
      by_contra hsucceeds
      obtain ⟨text, enabled⟩ := req
      cases text with
      | none => cases hpatch
      | some text =>
        have hparsed : Role.ofString (trimSpace text) = some role := by
          simp only [patchRole] at hpatch
          split at hpatch
          · cases hpatch
          · rename_i hparsed
            cases hpatch
            exact hparsed
        have huser : u.userId = a.user := by
          obtain ⟨v, hv, -, rfl⟩ := requireSession_eq_some.mp hsession
          exact (Accounts.getUserById_mem hv).2
        have hsome : rolePatch st a = some (target, role) := rolePatch_eq_some.mpr
          ⟨id, text, enabled, u, hrequest, hparsed, hlookup, hsession,
            superAdmin_of_requireRole hmanages hadmin, fun heq => hself ⟨rfl, huser.trans heq⟩, h0, h1,
            by simpa using hsucceeds⟩
        rw [hnone] at hsome
        cases hsome
    unfold afterPatch
    rw [if_pos (.inr h2)]
    exact h

/-- The relation after a role is written, by the outcomes of the calls that follow. -/
theorem roleHub_afterPatch_iff (hkeyed : st.Keyed) (h : RoleHub st)
    (htarget : st.getUserById id = some target) (h2 : outcomes 2 = true) :
    RoleHub (afterPatch outcomes 2 st id target (some role) enabled) ↔
      (target.role = .superAdmin → role = .superAdmin) ∧
      (target.role ≠ .superAdmin → role = .superAdmin →
        outcomes 3 = true ∧ outcomes 4 = true) := by
  have hhub : target.hubId.isSome = true ↔ target.role ≠ .superAdmin := by
    rw [Option.isSome_iff_ne_none, ne_eq, ne_eq, h target (Accounts.getUserById_mem htarget).1]
  unfold afterPatch
  rw [if_neg (by simp [h2])]
  dsimp only
  -- the hub is cleared only on a promotion whose last two calls succeed
  by_cases hcleared : (some role = some Role.superAdmin ∧ target.hubId.isSome = true) ∧
      outcomes (2 + 1) = true ∧ outcomes (2 + 2) = true
  · rw [if_pos hcleared]
    obtain ⟨⟨hrole, hscoped⟩, hcalls⟩ := hcleared
    obtain rfl := Option.some.inj hrole
    exact iff_of_true h.promote ⟨fun _ => rfl, fun _ _ => hcalls⟩
  · rw [if_neg hcleared, roleHub_updateRole_iff hkeyed h htarget, hhub] at *
    constructor
    · intro hiff
      exact ⟨hiff.mp, fun hne hrole => absurd (hiff.mpr hrole) hne⟩
    · rintro ⟨hdemote, hpromote⟩
      refine ⟨hdemote, fun hrole => by_contra fun hne => hcleared ?_⟩
      exact ⟨⟨congrArg some hrole, hne⟩, hpromote hne hrole⟩

/-! ### Sequences of requests -/

theorem Accounts.Keyed.step (h : st.Keyed) (hstep : manageStep hash st a = some st') :
    st'.Keyed := by
  cases hstep
  have hall : (manage hash (a.user, a.request)).All (fun _ => True) UserCall.Admits := by
    apply manage_all trivial
    intro u _
    cases a.request with
    | create body => exact handleCreateUser_all (fun _ => trivial) fun _ _ _ _ _ => trivial
    | patch id body =>
      exact handlePatchUser_all (fun _ => trivial) (fun _ => trivial) fun _ _ _ _ => trivial
    | resetPassword id body =>
      exact handleResetUserPassword_all (fun _ => trivial) fun _ _ => trivial
    | delete id => exact handleDeleteUser_all (fun _ => trivial) fun _ _ => trivial
  exact hall.run (I := Accounts.Keyed) UserCall.exec_admits
    (fun st ok op _ hst => keyed_exec hst ok op) 0 h

/-- A request that is not a patch keeps the relation. -/
theorem RoleHub.request (h : RoleHub st)
    (hhandler : ∀ u, (handleUsers hash u a.request).All UserCall.KeepsHub UserCall.Admits) :
    RoleHub (runState a.outcomes 0 st (manage hash (a.user, a.request))) := by
  have hall : (manage hash (a.user, a.request)).All UserCall.KeepsHub UserCall.Admits :=
    manage_all trivial fun u _ => hhandler u
  exact hall.run UserCall.exec_admits (fun st ok op hop hst => hst.exec ok hop) 0 h

/-- **A request keeps the roles and hubs just when it meets the condition.** -/
theorem roleHub_step_iff (hkeyed : st.Keyed) (h : RoleHub st)
    (hstep : manageStep hash st a = some st') : RoleHub st' ↔ KeepsRoleHub st a := by
  cases hrole : rolePatch st a with
  | some found =>
    obtain ⟨target, role⟩ := found
    obtain ⟨htarget, enabled, (hafter : manageStep hash st a = _)⟩ := manageStep_rolePatch hrole
    obtain ⟨-, -, -, -, -, -, -, -, -, -, -, -, h2⟩ := rolePatch_eq_some.mp hrole
    rw [hafter] at hstep
    cases hstep
    rw [roleHub_afterPatch_iff hkeyed h htarget h2]
    unfold KeepsRoleHub
    constructor
    · intro hconds target' role' heq
      rw [hrole] at heq
      cases heq
      exact hconds
    · intro hkeeps
      exact hkeeps target role hrole
  | none =>
    -- no role is written, so nothing is asked of the request
    have hkeeps : KeepsRoleHub st a := by
      intro target role heq
      rw [hrole] at heq
      cases heq
    refine iff_of_true ?_ hkeeps
    cases hstep
    cases hrequest : a.request with
    | patch id body => exact hrequest ▸ h.patchRequest hrequest hrole
    | create body =>
      rw [← hrequest]
      exact h.request fun u => by
        rw [hrequest]
        exact handleCreateUser_all (fun _ => trivial) fun _ _ _ _ hnew => hnew
    | resetPassword id body =>
      rw [← hrequest]
      exact h.request fun u => by
        rw [hrequest]
        exact handleResetUserPassword_all (fun _ => trivial) fun _ _ => trivial
    | delete id =>
      rw [← hrequest]
      exact h.request fun u => by
        rw [hrequest]
        exact handleDeleteUser_all (fun _ => trivial) fun _ _ => trivial

/-- **Roles and hubs.** Every sequence of requests that meet the condition keeps exactly the
super_admins without a hub. -/
theorem roleHub_of_reach (hkeyed : st.Keyed) (h : RoleHub st)
    (hrun : Transition.Reach (manageStep hash) KeepsRoleHub st st') : RoleHub st' := by
  have hboth : st'.Keyed ∧ RoleHub st' := by
    apply Transition.Reach.invariant (I := fun t => t.Keyed ∧ RoleHub t) ⟨hkeyed, h⟩ _ hrun
    rintro t a t' ⟨hkeyed, h⟩ hkeeps hstep
    exact ⟨hkeyed.step hstep, (roleHub_step_iff hkeyed h hstep).mpr hkeeps⟩
  exact hboth.2

/-- A super_admin, and an operator of hub 1. -/
def mixedAccounts : Accounts :=
  ⟨[⟨1, "root", "", none, .superAdmin, true⟩, ⟨2, "ops", "", some 1, .operator, true⟩], [1], 2⟩

/-- The super_admin writes a user's role. -/
def roleAction (id : ℕ) (role : String) (outcomes : ℕ → Bool) : UserAction :=
  ⟨1, .patch (some id) (some ⟨some role, none⟩), outcomes⟩

theorem roleHub_of_reach_promote : ∃ st : Accounts,
    Transition.Reach (manageStep fun _ => none) KeepsRoleHub mixedAccounts st ∧
      st.getUserById 2 = some ⟨2, "ops", "", none, .superAdmin, true⟩ ∧ RoleHub st := by
  have hguard : KeepsRoleHub mixedAccounts (roleAction 2 "super_admin" fun _ => true) :=
    fun _ _ h => by
      obtain ⟨_, _, _, _, hrequest, hrole, _⟩ := rolePatch_eq_some.mp h
      cases hrequest
      have hsuper : Role.ofString (trimSpace "super_admin") = some .superAdmin := by decide
      rw [hsuper] at hrole
      cases hrole
      exact ⟨fun _ => rfl, fun _ _ => ⟨rfl, rfl⟩⟩
  obtain ⟨st, hst, hpromoted⟩ : ∃ st, manageStep (fun _ => none) mixedAccounts
      (roleAction 2 "super_admin" fun _ => true) = some st ∧
      st.getUserById 2 = some ⟨2, "ops", "", none, .superAdmin, true⟩ := ⟨_, rfl, rfl⟩
  have hrun : Transition.Reach (manageStep fun _ => none) KeepsRoleHub mixedAccounts st :=
    .single hguard hst
  refine ⟨st, hrun, hpromoted, roleHub_of_reach ?_ ?_ hrun⟩
  · exact ⟨by decide, by decide⟩
  · unfold RoleHub
    decide

/-- The relation fails after a demotion whose calls all succeed, and after a promotion whose last
call fails. -/
theorem not_roleHub_of_reach :
    (¬ ∀ st st', st.Keyed → RoleHub st → Transition.Reach (manageStep fun _ => none)
      (fun _ a => ∀ n, a.outcomes n = true) st st' → RoleHub st') ∧
    ¬ ∀ st st', st.Keyed → RoleHub st → Transition.Reach (manageStep fun _ => none)
      (fun st a => ∀ target role, rolePatch st a = some (target, role) →
        target.role = .superAdmin → role = .superAdmin) st st' → RoleHub st' := by
  constructor
  · intro h
    obtain ⟨st', hst', hrow⟩ : ∃ st', manageStep (fun _ => none)
        ⟨[⟨1, "root", "", none, .superAdmin, true⟩, ⟨2, "deputy", "", none, .superAdmin, true⟩],
          [1], 2⟩ (roleAction 2 "admin" fun _ => true) = some st' ∧
        (⟨2, "deputy", "", none, .admin, true⟩ : User) ∈ st'.users := ⟨_, rfl, by decide⟩
    -- the demoted user has no hub, the promoted one keeps its hub
    have hafter := h _ st' ⟨by decide, by decide⟩ (by unfold RoleHub; decide)
      (.single (fun _ => rfl) hst') _ hrow
    exact absurd (hafter.mpr rfl) (by decide)
  · intro h
    obtain ⟨st', hst', hrow⟩ : ∃ st', manageStep (fun _ => none) mixedAccounts
        (roleAction 2 "super_admin" fun n => decide (n ≠ 4)) = some st' ∧
        (⟨2, "ops", "", some 1, .superAdmin, true⟩ : User) ∈ st'.users := ⟨_, rfl, by decide⟩
    have hguard : ∀ target role,
        rolePatch mixedAccounts (roleAction 2 "super_admin" fun n => decide (n ≠ 4)) =
          some (target, role) → target.role = .superAdmin → role = .superAdmin := by
      intro target role hpatch _
      obtain ⟨_, _, _, _, hrequest, hrole, _⟩ := rolePatch_eq_some.mp hpatch
      cases hrequest
      have hsuper : Role.ofString (trimSpace "super_admin") = some .superAdmin := by decide
      rw [hsuper] at hrole
      exact (Option.some.inj hrole).symm
    have hafter := h _ st' ⟨by decide, by decide⟩ (by unfold RoleHub; decide)
      (.single hguard hst') _ hrow
    exact absurd (hafter.mp rfl) (by decide)

end HubScope
