import Mathlib.Data.List.Basic

/-!
# The users table

The accounts of the console and the store calls on them. The store runs on a single connection,
so a call is atomic. A table is a list in id order; ids come from a sequence and are not reused.

## Main definitions

* `Role`, `User` — a row and its role
* `Accounts` — the users table, its sequence and the ids of the hubs
* `Accounts.getUserById`, `Accounts.createUser`, `Accounts.updateUserRow`,
  `Accounts.clearUserHubId`, `Accounts.setUserPassword`, `Accounts.deleteUser` — the store calls

## Main results

* `Accounts.getUserById_mem` — a row that is found is in the table
* `Accounts.mem_patch` — the rows after one row is patched
-/

set_option autoImplicit false

namespace HubScope

/-- The roles. -/
inductive Role
  | superAdmin
  | admin
  | operator
  | viewer
  deriving DecidableEq, Repr

/-- The role a string names. -/
def Role.ofString : String → Option Role
  | "super_admin" => some .superAdmin
  | "admin" => some .admin
  | "operator" => some .operator
  | "viewer" => some .viewer
  | _ => none

/-- A `users` row. `hubId` is null for a super_admin. -/
structure User where
  id : ℕ
  username : String
  passwordHash : String
  hubId : Option ℕ
  role : Role
  enabled : Bool
  deriving DecidableEq, Repr

/-- The users table with its id sequence, and the ids of the hubs. -/
structure Accounts where
  users : List User
  hubs : List ℕ
  userSeq : ℕ
  deriving DecidableEq

namespace Accounts

/-- `GetUserByID`. -/
def getUserById (st : Accounts) (id : ℕ) : Option User :=
  st.users.find? fun u => u.id == id

/-- `GetHub`, of which only the existence is used. -/
def hubExists (st : Accounts) (id : ℕ) : Bool :=
  st.hubs.contains id

/-- The row `CreateUser` inserts. -/
def newUser (st : Accounts) (username passwordHash : String) (hubId : Option ℕ) (role : Role) :
    User :=
  ⟨st.userSeq + 1, username, passwordHash, hubId, role, true⟩

/-- `CreateUser`: `none` is `ErrUsernameTaken`. -/
def createUser (st : Accounts) (username passwordHash : String) (hubId : Option ℕ) (role : Role) :
    Option (User × Accounts) :=
  if st.users.any fun u => u.username == username then none
  else
    let u := st.newUser username passwordHash hubId role
    some (u, { st with users := st.users ++ [u], userSeq := st.userSeq + 1 })

/-- One row rewritten. -/
def patch (st : Accounts) (id : ℕ) (f : User → User) : Accounts :=
  { st with users := st.users.map fun u => if u.id = id then f u else u }

/-- The `UPDATE` statement of `UpdateUser`: a `none` leaves its column as it is. -/
def updateUserRow (st : Accounts) (id : ℕ) (role : Option Role) (hubId : Option ℕ)
    (enabled : Option Bool) : Accounts :=
  st.patch id fun u =>
    { u with role := role.getD u.role, hubId := hubId.or u.hubId, enabled := enabled.getD u.enabled }

/-- `ClearUserHubID`; false is `ErrUserNotFound`. -/
def clearUserHubId (st : Accounts) (id : ℕ) : Bool × Accounts :=
  ((st.getUserById id).isSome, st.patch id fun u => { u with hubId := none })

/-- `SetUserPassword`; false is `ErrUserNotFound`. -/
def setUserPassword (st : Accounts) (id : ℕ) (passwordHash : String) : Bool × Accounts :=
  ((st.getUserById id).isSome, st.patch id fun u => { u with passwordHash := passwordHash })

/-- `DeleteUser`; false is `ErrUserNotFound`. -/
def deleteUser (st : Accounts) (id : ℕ) : Bool × Accounts :=
  ((st.getUserById id).isSome, { st with users := st.users.filter fun u => u.id ≠ id })

variable {st : Accounts} {id : ℕ} {u : User} {f : User → User}

theorem getUserById_mem (h : st.getUserById id = some u) : u ∈ st.users ∧ u.id = id := by
  refine ⟨List.mem_of_find?_eq_some h, ?_⟩
  simpa using List.find?_some h

@[simp] theorem hubs_patch (st : Accounts) (id : ℕ) (f : User → User) :
    (st.patch id f).hubs = st.hubs := rfl

/-- The rows after one is rewritten: each is an old row, rewritten if it is the one. -/
theorem mem_patch : u ∈ (st.patch id f).users ↔
    ∃ v ∈ st.users, (if v.id = id then f v else v) = u := by
  unfold patch
  exact List.mem_map

theorem mem_deleteUser : u ∈ (st.deleteUser id).2.users ↔ u ∈ st.users ∧ u.id ≠ id := by
  simp [deleteUser]

end Accounts

end HubScope
