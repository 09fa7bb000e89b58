import HubScope.Store.Users

/-!
# Sessions

A request carries the identity that the session middleware read from the users table: the
account must still be there and enabled. The identity is a copy, which later changes of the
account do not reach.

## Main definitions

* `SessionUser` — the identity a request carries
* `requireSession`, `requireRole` — the middleware
-/

set_option autoImplicit false

namespace HubScope

/-- The identity a request carries. -/
structure SessionUser where
  userId : ℕ
  role : Role
  hubId : Option ℕ
  username : String
  deriving DecidableEq, Repr

/-- The identity of an account. -/
def User.session (u : User) : SessionUser := ⟨u.id, u.role, u.hubId, u.username⟩

/-- `requireSession`: the account that was read is there and enabled. -/
def requireSession (user : Option User) : Option SessionUser :=
  match user with
  | some u => if u.enabled then some u.session else none
  | none => none

/-- `requireRole`: the role is one of those listed. -/
def requireRole (roles : List Role) (u : Option SessionUser) : Bool :=
  match u with
  | some u => roles.contains u.role
  | none => false

theorem requireSession_eq_some {user : Option User} {u : SessionUser} :
    requireSession user = some u ↔ ∃ v, user = some v ∧ v.enabled = true ∧ v.session = u := by
  unfold requireSession
  cases user with
  | none => simp
  | some v => by_cases henabled : v.enabled = true <;> simp [henabled]

end HubScope
