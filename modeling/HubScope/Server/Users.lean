import HubScope.Lib.Resumption
import HubScope.Lib.Text
import HubScope.Server.Session

/-!
# User management

The requests on `/api/users`. Each handler is a program of store calls, so that requests can fail at
any call and interleave at their calls. The hash of a password is a parameter; a password it does
not take is `none`.

The audit row and the hub name of the response are left out: neither is read by a handler.

## Main definitions

* `UserCall`, `UserCall.exec` — the store calls, and what each does
* `handleCreateUser`, `handlePatchUser`, `handleResetUserPassword`, `handleDeleteUser`
* `manage` — a request with the session check before it

## Main results

* `handleCreateUser_all`, `handlePatchUser_all`, `handleResetUserPassword_all`,
  `handleDeleteUser_all` — the calls a handler may make
* `UserCall.exec_admits` — a user that is found has the id that was asked for
-/

set_option autoImplicit false

namespace HubScope

/-! ### Requests -/

/-- `strings.TrimSpace`. -/
def trimSpace (s : String) : String := String.ofList (Text.trimSpace s.toList)

/-- The body of `POST /api/users`. -/
structure CreateUserRequest where
  username : String
  password : String
  role : String
  hubId : Option ℕ

/-- The body of `PATCH /api/users/{id}`; an absent field is `none`. -/
structure PatchUserRequest where
  role : Option String
  enabled : Option Bool

/-- A request on the users, with the user of its session cookie. An id that is not a number and
a body that is not JSON are `none`. -/
inductive UserRequest
  | create (body : Option CreateUserRequest)
  | patch (id : Option ℕ) (body : Option PatchUserRequest)
  | resetPassword (id : Option ℕ) (body : Option String)
  | delete (id : Option ℕ)

/-- A response. -/
inductive UserAnswer
  | error (status : ℕ) (message : String)
  | user (status : ℕ) (u : User)
  | noContent
  deriving DecidableEq, Repr

/-! ### Store calls -/

/-- Why a row was not written. -/
inductive WriteError
  | taken
  | notFound
  | failed
  deriving DecidableEq, Repr

/-- The store calls of the handlers. -/
inductive UserCall
  | getUser (id : ℕ)
  | getHub (id : ℕ)
  | createUser (username passwordHash : String) (hubId : Option ℕ) (role : Role)
  | updateUser (id : ℕ) (role : Option Role) (hubId : Option ℕ) (enabled : Option Bool)
  | clearUserHubId (id : ℕ)
  | setUserPassword (id : ℕ) (passwordHash : String)
  | deleteUser (id : ℕ)

namespace UserCall

/-- What a call answers. Where every error is handled alike it is a `none` or a false. -/
@[reducible] def Ret : UserCall → Type
  | getUser _ => Option User
  | getHub _ | updateUser .. | clearUserHubId _ | deleteUser _ => Bool
  | createUser .. => Except WriteError User
  | setUserPassword .. => Except WriteError Unit

/-- A call on the tables; one that fails changes nothing. -/
def exec (st : Accounts) (ok : Bool) : (op : UserCall) → op.Ret × Accounts
  | getUser id => (if ok then st.getUserById id else none, st)
  | getHub id => (ok && st.hubExists id, st)
  | createUser username passwordHash hubId role =>
    if ok then
      match st.createUser username passwordHash hubId role with
      | none => (.error .taken, st)
      | some (u, st) => (.ok u, st)
    else (.error .failed, st)
  | updateUser id role hubId enabled =>
    if ok then (true, st.updateUserRow id role hubId enabled) else (false, st)
  | clearUserHubId id => if ok then st.clearUserHubId id else (false, st)
  | setUserPassword id passwordHash =>
    if ok then
      let (found, st) := st.setUserPassword id passwordHash
      (if found then .ok () else .error .notFound, st)
    else (.error .failed, st)
  | deleteUser id => if ok then st.deleteUser id else (false, st)

end UserCall

/-- A program of store calls that answers a request. -/
abbrev UserProgram := Resumption UserCall UserCall.Ret UserAnswer

/-- `UpdateUser`: the statement, unless there is nothing to set, and the row read back. -/
def updateUser (id : ℕ) (role : Option Role) (hubId : Option ℕ) (enabled : Option Bool)
    (k : Option User → UserProgram) : UserProgram :=
  if role = none ∧ hubId = none ∧ enabled = none then .call (.getUser id) k
  else
    .call (.updateUser id role hubId enabled) fun (ok : Bool) =>
      if ok then .call (.getUser id) k else k none

/-! ### Authorization -/

/-- `resolveCreateHubID`: the hub of the new user, or why the request is forbidden. -/
def resolveCreateHubId (u : SessionUser) (role : Role) (requested : Option ℕ) :
    Except String (Option ℕ) :=
  if u.role = .superAdmin then
    if role = .superAdmin then
      if requested.isSome then .error "super_admin must not carry a hub_id" else .ok none
    else .ok requested
  else if role ≠ .operator ∧ role ≠ .viewer then .error "admin can only create operator or viewer"
  else if u.hubId = none then .error "insufficient role"
  else if requested.isSome ∧ requested ≠ u.hubId then
    .error "admin can only create users in the own hub"
  else .ok u.hubId

/-- `assertCanManageUser`: why the session may not act on the user. -/
def assertCanManageUser (u : SessionUser) (target : User) : Option String :=
  if u.role = .superAdmin then none
  else if u.role ≠ .admin then some "insufficient role"
  else if u.hubId = none ∨ target.hubId = none ∨ u.hubId ≠ target.hubId then
    some "insufficient role"
  else none

/-- The role field of a patch, trimmed and checked. -/
def patchRole : Option String → Except UserAnswer (Option Role)
  | none => .ok none
  | some text =>
    match Role.ofString (trimSpace text) with
    | none => .error (.error 400 "invalid role")
    | some role => .ok (some role)

/-! ### Handlers -/

/-- `minPasswordLen`, in bytes. -/
def minPasswordLen : ℕ := 8

/-- The last part of `handleCreateUser`: hash the password and insert the row. -/
def insertUser (hash : String → Option String) (req : CreateUserRequest) (username : String)
    (role : Role) (hubId : Option ℕ) : UserProgram :=
  match hash req.password with
  | none => .done (.error 500 "failed to hash password")
  | some passwordHash =>
    .call (.createUser username passwordHash hubId role) fun
      | .error .taken => .done (.error 409 "username already taken")
      | .error _ => .done (.error 500 "failed to create user")
      | .ok u => .done (.user 201 u)

/-- `POST /api/users`. -/
def handleCreateUser (hash : String → Option String) (u : SessionUser)
    (body : Option CreateUserRequest) : UserProgram :=
  match body with
  | none => .done (.error 400 "invalid JSON body")
  | some req =>
    let username := trimSpace req.username
    let roleText := trimSpace req.role
    if username = "" ∨ req.password = "" ∨ roleText = "" then
      .done (.error 400 "username, password, and role are required")
    else if req.password.utf8ByteSize < minPasswordLen then
      .done (.error 400 "password must be at least 8 characters")
    else
      match Role.ofString roleText with
      | none => .done (.error 400 "invalid role")
      | some role =>
        match resolveCreateHubId u role req.hubId with
        | .error message => .done (.error 403 message)
        | .ok hubId =>
          if role ≠ .superAdmin then
            match hubId with
            | none => .done (.error 400 "hub_id is required for this role")
            | some hub =>
              .call (.getHub hub) fun (found : Bool) =>
                if found then insertUser hash req username role hubId
                else .done (.error 400 "hub not found")
          else insertUser hash req username role hubId

/-- `PATCH /api/users/{id}`. -/
def handlePatchUser (u : SessionUser) (id : Option ℕ) (body : Option PatchUserRequest) :
    UserProgram :=
  match id with
  | none => .done (.error 400 "invalid user id")
  | some id =>
    match body with
    | none => .done (.error 400 "invalid JSON body")
    | some req =>
      match patchRole req.role with
      | .error answer => .done answer
      | .ok role =>
        if role.isSome ∧ u.userId = id then .done (.error 403 "cannot change your own role")
        else
          .call (.getUser id) fun
            | none => .done (.error 404 "user not found")
            | some target =>
              match assertCanManageUser u target with
              | some message => .done (.error 403 message)
              | none =>
                -- An admin may flip the enabled flag only.
                let role := if u.role = .admin then none else role
                let clearHub := role = some .superAdmin ∧ target.hubId.isSome
                updateUser id role none req.enabled fun
                  | none => .done (.error 500 "failed to update user")
                  | some updated =>
                    if clearHub then
                      .call (.clearUserHubId id) fun (ok : Bool) =>
                        if ok then .done (.user 200 { updated with hubId := none })
                        else .done (.error 500 "failed to clear hub binding")
                    else .done (.user 200 updated)

/-- `PUT /api/users/{id}/password`. -/
def handleResetUserPassword (hash : String → Option String) (u : SessionUser) (id : Option ℕ)
    (body : Option String) : UserProgram :=
  match id with
  | none => .done (.error 400 "invalid user id")
  | some id =>
    match body with
    | none => .done (.error 400 "invalid JSON body")
    | some password =>
      if password.utf8ByteSize < minPasswordLen then
        .done (.error 400 "password must be at least 8 characters")
      else
        .call (.getUser id) fun
          | none => .done (.error 404 "user not found")
          | some target =>
            match assertCanManageUser u target with
            | some message => .done (.error 403 message)
            | none =>
              match hash password with
              | none => .done (.error 500 "failed to hash password")
              | some passwordHash =>
                .call (.setUserPassword id passwordHash) fun
                  | .error .notFound => .done (.error 404 "user not found")
                  | .error _ => .done (.error 500 "failed to reset password")
                  | .ok () => .done .noContent

/-- `DELETE /api/users/{id}`. -/
def handleDeleteUser (u : SessionUser) (id : Option ℕ) : UserProgram :=
  match id with
  | none => .done (.error 400 "invalid user id")
  | some id =>
    if u.userId = id then .done (.error 403 "cannot delete your own account")
    else
      .call (.getUser id) fun
        | none => .done (.error 404 "user not found")
        | some target =>
          match assertCanManageUser u target with
          | some message => .done (.error 403 message)
          | none =>
            .call (.deleteUser id) fun (ok : Bool) =>
              if ok then .done .noContent else .done (.error 500 "failed to delete user")

/-- The handler of a request. -/
def handleUsers (hash : String → Option String) (u : SessionUser) : UserRequest → UserProgram
  | .create body => handleCreateUser hash u body
  | .patch id body => handlePatchUser u id body
  | .resetPassword id body => handleResetUserPassword hash u id body
  | .delete id => handleDeleteUser u id

/-- A request of the user of a session cookie, behind `requireSession` and `requireRole`. -/
def manage (hash : String → Option String) (req : ℕ × UserRequest) : UserProgram :=
  .call (.getUser req.1) fun user =>
    match requireSession user with
    | none => .done (.error 401 "authentication required")
    | some u =>
      if requireRole [.superAdmin, .admin] (some u) then handleUsers hash u req.2
      else .done (.error 403 "insufficient role")

/-! ### The calls of a handler -/

/-- The answers a call can get: a user that is found has the id that was asked for. -/
def UserCall.Admits : (op : UserCall) → op.Ret → Prop
  | .getUser id, (user : Option User) => ∀ u, user = some u → u.id = id
  | .getHub _, _ | .createUser .., _ | .updateUser .., _ | .clearUserHubId _, _
  | .setUserPassword .., _ | .deleteUser _, _ => True

theorem UserCall.exec_admits (st : Accounts) (ok : Bool) (op : UserCall) :
    op.Admits (exec st ok op).1 := by
  cases op with
  | getUser id =>
    intro u hu
    cases ok with
    | false => cases hu
    | true => exact (Accounts.getUserById_mem hu).2
  | getHub | createUser | updateUser | clearUserHubId | setUserPassword | deleteUser => trivial

@[simp] theorem UserCall.exec_getUser (st : Accounts) (ok : Bool) (id : ℕ) :
    exec st ok (getUser id) = (if ok then st.getUserById id else none, st) := rfl

@[simp] theorem UserCall.exec_updateUser (st : Accounts) (ok : Bool) (id : ℕ) (role : Option Role)
    (hubId : Option ℕ) (enabled : Option Bool) :
    exec st ok (updateUser id role hubId enabled) =
      if ok then (true, st.updateUserRow id role hubId enabled) else (false, st) := rfl

@[simp] theorem UserCall.exec_clearUserHubId (st : Accounts) (ok : Bool) (id : ℕ) :
    exec st ok (clearUserHubId id) = if ok then st.clearUserHubId id else (false, st) := rfl

/-- An insert leaves the tables as they are or appends the new row. -/
theorem UserCall.exec_createUser (st : Accounts) (ok : Bool) (username passwordHash : String)
    (hubId : Option ℕ) (role : Role) :
    (exec st ok (createUser username passwordHash hubId role)).2 = st ∨
      (exec st ok (createUser username passwordHash hubId role)).2 =
        { st with
          users := st.users ++ [st.newUser username passwordHash hubId role]
          userSeq := st.userSeq + 1 } := by
  cases ok with
  | false => exact .inl rfl
  | true =>
    simp only [exec, if_true, Accounts.createUser]
    by_cases htaken : (st.users.any fun u => u.username == username) = true
    · rw [if_pos htaken]
      exact .inl rfl
    · rw [if_neg htaken]
      exact .inr rfl

variable {P : UserCall → Prop} {hash : String → Option String} {u : SessionUser}

/-- A new super_admin has no hub, and a hub that was asked for by another role is kept. -/
theorem resolveCreateHubId_superAdmin {requested hubId : Option ℕ}
    (h : resolveCreateHubId u .superAdmin requested = .ok hubId) : hubId = none := by
  unfold resolveCreateHubId at h
  split at h
  · rw [if_pos rfl] at h
    split at h
    · cases h
    · exact (Except.ok.inj h).symm
  · rw [if_pos (by decide)] at h
    cases h

theorem insertUser_all {req : CreateUserRequest} {username : String} {role : Role}
    {hubId : Option ℕ} (hcreate : ∀ passwordHash, P (.createUser username passwordHash hubId role)) :
    (insertUser hash req username role hubId).All P UserCall.Admits := by
  unfold insertUser
  split
  · exact .done _
  · refine .call (hcreate _) fun r _ => ?_
    split
    · exact .done _
    · exact .done _
    · exact .done _

theorem handleCreateUser_all {body : Option CreateUserRequest} (hhub : ∀ id, P (.getHub id))
    (hcreate : ∀ username passwordHash hubId role, (role = .superAdmin ↔ hubId = none) →
      P (.createUser username passwordHash hubId role)) :
    (handleCreateUser hash u body).All P UserCall.Admits := by
  unfold handleCreateUser
  split
  · exact .done _
  rename_i req
  dsimp only
  split
  · exact .done _
  split
  · exact .done _
  split
  · exact .done _
  rename_i role hrole
  split
  · exact .done _
  rename_i hubId hresolve
  split
  · rename_i hscoped
    split
    · exact .done _
    · rename_i hub
      refine .call (hhub _) fun found _ => ?_
      split
      · exact insertUser_all fun _ => hcreate _ _ _ _ (iff_of_false hscoped (by simp))
      · exact .done _
  · -- a super_admin is created without a hub, whatever was asked for
    rename_i hglobal
    rw [not_not] at hglobal
    subst hglobal
    have hnone : hubId = none := resolveCreateHubId_superAdmin hresolve
    exact insertUser_all fun _ => hcreate _ _ _ _ (iff_of_true rfl hnone)

theorem updateUser_all {id : ℕ} {role : Option Role} {hubId : Option ℕ} {enabled : Option Bool}
    {k : Option User → UserProgram} (hget : P (.getUser id))
    (hupdate : P (.updateUser id role hubId enabled)) (hk : ∀ u, (k u).All P UserCall.Admits) :
    (updateUser id role hubId enabled k).All P UserCall.Admits := by
  unfold updateUser
  split
  · exact .call hget fun r _ => hk r
  · refine .call hupdate fun ok _ => ?_
    split
    · exact .call hget fun r _ => hk r
    · exact hk none

/-- A patch makes no update of a role on the user of its session. -/
theorem handlePatchUser_all {id : Option ℕ} {body : Option PatchUserRequest}
    (hget : ∀ id, P (.getUser id)) (hclear : ∀ id, P (.clearUserHubId id))
    (hupdate : ∀ id role enabled, (role ≠ none → u.userId ≠ id) →
      P (.updateUser id role none enabled)) :
    (handlePatchUser u id body).All P UserCall.Admits := by
  unfold handlePatchUser
  split
  · exact .done _
  rename_i id
  split
  · exact .done _
  rename_i req
  split
  · exact .done _
  rename_i role _
  split
  · exact .done _
  rename_i hself
  refine .call (hget id) fun target _ => ?_
  split
  · exact .done _
  split
  · exact .done _
  dsimp only
  generalize heffective : (if u.role = .admin then none else role) = effective
  apply updateUser_all (hget id)
  · apply hupdate
    intro hrole heq
    -- a role that is written was asked for, and nobody writes their own
    apply hself
    refine ⟨?_, heq⟩
    rw [← heffective] at hrole
    split at hrole
    · exact absurd rfl hrole
    · exact Option.isSome_iff_ne_none.mpr hrole
  · intro updated
    split
    · exact .done _
    split
    · refine .call (hclear id) fun ok _ => ?_
      split
      · exact .done _
      · exact .done _
    · exact .done _

theorem handleResetUserPassword_all {id : Option ℕ} {body : Option String}
    (hget : ∀ id, P (.getUser id)) (hset : ∀ id passwordHash, P (.setUserPassword id passwordHash)) :
    (handleResetUserPassword hash u id body).All P UserCall.Admits := by
  unfold handleResetUserPassword
  split
  · exact .done _
  split
  · exact .done _
  split
  · exact .done _
  refine .call (hget _) fun target _ => ?_
  split
  · exact .done _
  split
  · exact .done _
  split
  · exact .done _
  refine .call (hset _ _) fun r _ => ?_
  split
  · exact .done _
  · exact .done _
  · exact .done _

/-- A deletion is not of the user of its session. -/
theorem handleDeleteUser_all {id : Option ℕ} (hget : ∀ id, P (.getUser id))
    (hdelete : ∀ id, u.userId ≠ id → P (.deleteUser id)) :
    (handleDeleteUser u id).All P UserCall.Admits := by
  unfold handleDeleteUser
  split
  · exact .done _
  split
  · exact .done _
  rename_i hself
  refine .call (hget _) fun target _ => ?_
  split
  · exact .done _
  split
  · exact .done _
  refine .call (hdelete _ hself) fun ok _ => ?_
  split
  · exact .done _
  · exact .done _

/-- A request makes the calls of its handler, in a session of the user of its cookie. -/
theorem manage_all {req : ℕ × UserRequest} (hget : P (.getUser req.1))
    (hhandler : ∀ u : SessionUser, u.userId = req.1 →
      (handleUsers hash u req.2).All P UserCall.Admits) :
    (manage hash req).All P UserCall.Admits := by
  refine .call hget fun user hadmits => ?_
  split
  · exact .done _
  · rename_i u hsession
    split
    · apply hhandler
      obtain ⟨v, rfl, -, rfl⟩ := requireSession_eq_some.mp hsession
      exact hadmits v rfl
    · exact .done _

end HubScope
