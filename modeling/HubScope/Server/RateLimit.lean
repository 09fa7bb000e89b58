import Mathlib
import HubScope.Lib.Timed
import HubScope.Lib.TokenBucket

/-!
# Rate limits

The server limits the requests of each address by a token bucket for each of four tiers. The
buckets of a tier are kept in a table of bounded size, and a bucket that was idle for ten minutes
is deleted once in a while. An address that finds the table full is turned away; apart from that,
a tier whose bucket fills within those ten minutes answers as if no bucket were ever deleted, and
in any stretch of time lets through no more than its burst and what flows in meanwhile.

Times are whole milliseconds, where the source reads a clock in nanoseconds.

## Main definitions

* `IpLimiter` — the limits of a tier, with `allow` over `LimiterTable`
* `Tier`, `tierFor` — the tiers, and the tier of a request
* `RateLimits.step` — the server under requests to all tiers
* `IpLimiter.Refills` — a bucket fills before it may be deleted

## Main results

* `RateLimits.passed_le` — what a tier lets through in a stretch of time
* `RateLimits.answers_eq_buckets` — deleting idle buckets is not seen
-/

set_option autoImplicit false

namespace HubScope

/-- How long an idle bucket is kept: ten minutes, in the whole milliseconds that stand here for the
source's clock in nanoseconds. -/
def limiterIdleTTL : ℤ := 600000

/-- The default cap of a table. -/
def limiterMaxEntries : ℕ := 100000

/-- The limits of a tier. -/
structure IpLimiter where
  perMinute : ℚ
  burst : ℕ
  maxEntries : ℕ
  perMinute_pos : 0 < perMinute
  burst_pos : 0 < burst

/-- The tokens that flow in within a millisecond. -/
def IpLimiter.rate (l : IpLimiter) : ℚ := l.perMinute / 60000

/-- Build the limits of a tier. What is not positive disables it. -/
def newIPLimiter (perMinute : ℚ) (burst maxEntries : ℤ) : Option IpLimiter :=
  if h : perMinute ≤ 0 ∨ burst ≤ 0 then none
  else some {
    perMinute := perMinute
    burst := burst.toNat
    maxEntries := if maxEntries ≤ 0 then limiterMaxEntries else maxEntries.toNat
    perMinute_pos := not_le.mp fun hle => h (Or.inl hle)
    burst_pos := Int.lt_toNat.mpr (not_le.mp fun hle => h (Or.inr hle)) }

/-- The tiers. -/
inductive Tier
  | login
  | captcha
  | read
  | write
  deriving DecidableEq, Repr

/-- A request: its method, its path and the address it comes from. -/
structure LimitedRequest where
  method : String
  path : String
  ip : String
  deriving DecidableEq

/-- The tier of a request: attempts to log in first, captchas next, reads third, and everything
else is a write. -/
def tierFor (r : LimitedRequest) : Tier :=
  if r.method = "POST" ∧ r.path = "/api/auth/login" then .login
  else if r.method = "GET" ∧ r.path = "/api/auth/captcha" then .captcha
  else if r.method = "GET" ∨ r.method = "HEAD" then .read
  else .write

/-- The configured limits of a tier: tokens a minute, and the burst. -/
structure RateTier where
  perMinute : ℚ
  burst : ℤ

/-- The production limits. -/
def defaultRateLimits : Tier → RateTier
  | .login => ⟨5, 5⟩
  | .captcha => ⟨20, 10⟩
  | .write => ⟨30, 10⟩
  | .read => ⟨1200, 40⟩

section

variable {β : Type}

/-- A bucket, and when it was last used. -/
structure LimiterEntry (β : Type) where
  limiter : β
  seen : ℤ

/-- The buckets by address, and the calls since the last sweep. -/
structure LimiterTable (β : Type) where
  items : AList fun _ : String => LimiterEntry β
  sweeps : ℕ

/-- No address was seen yet. -/
def LimiterTable.empty : LimiterTable β := ⟨∅, 0⟩

namespace IpLimiter

variable (l : IpLimiter)

/-- Delete idle buckets once every 1024 calls. -/
def evict (s : LimiterTable β) (now : ℤ) : LimiterTable β :=
  if 1024 ≤ s.sweeps + 1 then
    ⟨⟨s.items.entries.filter fun e => ¬ e.2.seen < now - limiterIdleTTL,
      s.items.nodupKeys.sublist List.filter_sublist⟩, 0⟩
  else { s with sweeps := s.sweeps + 1 }

/-- The table takes the address. -/
def HasRoom (s : LimiterTable β) (ip : String) : Prop :=
  ip ∈ s.items ∨ s.items.keys.length < l.maxEntries

instance (s : LimiterTable β) (ip : String) : Decidable (l.HasRoom s ip) :=
  inferInstanceAs (Decidable (ip ∈ s.items ∨ s.items.keys.length < l.maxEntries))

/-- Whether one request of an address may proceed. An address that finds the table full may
not. -/
def allow (B : TokenBucket β l.rate l.burst) (s : LimiterTable β) (ip : String) (now : ℤ) :
    LimiterTable β × Bool :=
  let s := evict s now
  match s.items.lookup ip with
  | some e =>
    let (limiter, allowed) := B.allow e.limiter now
    ({ s with items := s.items.insert ip ⟨limiter, now⟩ }, allowed)
  | none =>
    -- fails closed: nobody new gets a bucket while the table is full
    if l.maxEntries ≤ s.items.keys.length then (s, false)
    else
      let (limiter, allowed) := B.allow B.fresh now
      ({ s with items := s.items.insert ip ⟨limiter, now⟩ }, allowed)

/-- A bucket fills before it may be deleted. -/
def Refills : Prop := (l.burst : ℚ) ≤ limiterIdleTTL * l.rate

/-- The tokens an address has: those of its bucket, or of a fresh one. -/
def level (B : TokenBucket β l.rate l.burst) (s : LimiterTable β) (ip : String) (now : ℤ) : ℚ :=
  (s.items.lookup ip).elim l.burst fun e => B.tokens e.limiter now

/-- The table keeps to its size, and its buckets were last used when they were seen. -/
structure Keeps (B : TokenBucket β l.rate l.burst) (now : ℤ) (s : LimiterTable β) : Prop where
  sized : s.items.keys.length ≤ l.maxEntries
  asOf : ∀ ip e, s.items.lookup ip = some e → B.AsOf e.limiter e.seen
  seen : ∀ ip e, s.items.lookup ip = some e → e.seen ≤ now

variable {l} {B : TokenBucket β l.rate l.burst} {s : LimiterTable β} {ip k : String}
  {now now' : ℤ}

/-- The tiers whose bucket fills before it may be deleted. -/
theorem newIPLimiter_refills {perMinute : ℚ} {burst maxEntries : ℤ}
    (hnew : newIPLimiter perMinute burst maxEntries = some l) :
    l.Refills ↔ (burst.toNat : ℚ) ≤ 10 * perMinute := by
  rw [newIPLimiter] at hnew
  by_cases hdisabled : perMinute ≤ 0 ∨ burst ≤ 0
  · rw [dif_pos hdisabled] at hnew
    cases hnew
  · rw [dif_neg hdisabled] at hnew
    obtain rfl := Option.some.inj hnew
    have hten : (limiterIdleTTL : ℚ) * (perMinute / 60000) = 10 * perMinute := by
      norm_num [limiterIdleTTL]
      ring
    rw [Refills, rate, hten]

theorem newIPLimiter_maxEntries {perMinute : ℚ} {burst maxEntries : ℤ}
    (hnew : newIPLimiter perMinute burst maxEntries = some l) :
    l.maxEntries = if maxEntries ≤ 0 then limiterMaxEntries else maxEntries.toNat := by
  rw [newIPLimiter] at hnew
  by_cases hdisabled : perMinute ≤ 0 ∨ burst ≤ 0
  · rw [dif_pos hdisabled] at hnew
    cases hnew
  · rw [dif_neg hdisabled] at hnew
    exact (congrArg IpLimiter.maxEntries (Option.some.inj hnew)).symm

theorem keeps_empty (B : TokenBucket β l.rate l.burst) (now : ℤ) : l.Keeps B now .empty := by
  refine ⟨Nat.zero_le _, fun _ _ h => ?_, fun _ _ h => ?_⟩
  · cases h
  · cases h

theorem Keeps.mono (h : l.Keeps B now s) (hle : now ≤ now') : l.Keeps B now' s :=
  ⟨h.sized, h.asOf, fun ip e he => (h.seen ip e he).trans hle⟩

theorem lookup_evict : (evict s now).items.lookup k =
    if 1024 ≤ s.sweeps + 1 then
      (s.items.lookup k).filter fun e => ¬ e.seen < now - limiterIdleTTL
    else s.items.lookup k := by
  rw [evict]
  split_ifs
  · ext e
    rw [Option.filter_eq_some_iff]
    have hentry : s.items.lookup k = some e ↔ Sigma.mk k e ∈ s.items.entries :=
      AList.mem_lookup_iff
    rw [hentry]
    exact AList.mem_lookup_iff.trans List.mem_filter
  · rfl

/-- The buckets that an eviction leaves. -/
theorem lookup_of_lookup_evict {e : LimiterEntry β} (h : (evict s now).items.lookup k = some e) :
    s.items.lookup k = some e := by
  rw [lookup_evict] at h
  split_ifs at h
  · exact (Option.filter_eq_some_iff.mp h).1
  · exact h

theorem Keeps.evict (h : l.Keeps B now s) : l.Keeps B now (evict s now) := by
  refine ⟨?_, fun ip e he => h.asOf ip e (lookup_of_lookup_evict he),
    fun ip e he => h.seen ip e (lookup_of_lookup_evict he)⟩
  rw [IpLimiter.evict]
  split_ifs
  · have hsub : (s.items.entries.filter fun e => ¬ e.2.seen < now - limiterIdleTTL).Sublist
        s.items.entries := List.filter_sublist
    exact (hsub.map Sigma.fst).length_le.trans h.sized
  · exact h.sized

/-- A bucket that is deleted was full. -/
theorem level_evict (hrefills : l.Refills) (h : l.Keeps B now s) (k : String) :
    l.level B (evict s now) k now = l.level B s k now := by
  rw [level, level, lookup_evict]
  split_ifs
  · cases hlookup : s.items.lookup k with
    | none => rfl
    | some e =>
      by_cases hidle : e.seen < now - limiterIdleTTL
      · have hfull : B.tokens e.limiter now = l.burst := by
          apply B.tokens_eq_burst (h.asOf k e hlookup) (h.seen k e hlookup)
          -- it was idle for as long as the bucket takes to fill
          have hlong : (limiterIdleTTL : ℚ) ≤ (now : ℚ) - e.seen := by
            have hint : limiterIdleTTL ≤ now - e.seen := by omega
            exact_mod_cast hint
          have hrate : 0 ≤ l.rate := div_nonneg l.perMinute_pos.le (by norm_num)
          exact hrefills.trans (mul_le_mul_of_nonneg_right hlong hrate)
        have hgone : ¬ decide (¬ e.seen < now - limiterIdleTTL) = true := by simp only [hidle]; decide
        rw [Option.filter_some, if_neg hgone]
        exact hfull.symm
      · rw [Option.filter_some, if_pos (decide_eq_true hidle)]
  · rfl

/-- Tokens flow in while a table is left alone. -/
theorem level_refill (h : l.Keeps B now s) (hle : now ≤ now') (k : String) :
    l.level B s k now' = min (l.burst : ℚ) (l.level B s k now + (now' - now) * l.rate) := by
  have hrate : 0 ≤ l.rate := div_nonneg l.perMinute_pos.le (by norm_num)
  have hlater : (now : ℚ) ≤ now' := Int.cast_le.mpr hle
  rw [level, level]
  cases hlookup : s.items.lookup k with
  | none =>
    -- an address without a bucket has the tokens of a fresh one, which stays full
    have hflow : 0 ≤ ((now' : ℚ) - now) * l.rate := mul_nonneg (by linarith) hrate
    exact (min_eq_left (le_add_of_nonneg_right hflow)).symm
  | some e =>
    exact B.tokens_refill _ _ _ (B.asOf_mono _ _ _ (h.asOf k e hlookup) (h.seen k e hlookup)) hle

theorem level_le (h : l.Keeps B now s) (hle : now ≤ now') (k : String) :
    l.level B s k now' ≤ l.level B s k now + (now' - now) * l.rate := by
  rw [level_refill h hle]
  exact min_le_right _ _

/-- Put a bucket back after it was used. -/
theorem Keeps.insert {b : β} (h : l.Keeps B now s) (hroom : l.HasRoom s ip) (hb : B.AsOf b now) :
    l.Keeps B now { s with items := s.items.insert ip ⟨b, now⟩ } := by
  have hlookup : ∀ k e, (s.items.insert ip ⟨b, now⟩).lookup k = some e →
      e = ⟨b, now⟩ ∨ s.items.lookup k = some e := by
    intro k e he
    by_cases hk : k = ip
    · rw [hk, AList.lookup_insert] at he
      exact Or.inl (Option.some.inj he).symm
    · rw [AList.lookup_insert_ne hk] at he
      exact Or.inr he
  refine ⟨?_, fun k e he => ?_, fun k e he => ?_⟩
  · dsimp only
    rw [AList.keys_insert, List.length_cons]
    rcases hroom with hmem | hlt
    · have hkey : ip ∈ s.items.keys := AList.mem_keys.mp hmem
      -- the address is among the keys, so the table does not grow
      have hpos := List.length_pos_of_mem hkey
      have hsized := h.sized
      rw [List.length_erase_of_mem hkey]
      omega
    · have hle : (s.items.keys.erase ip).length ≤ s.items.keys.length := List.length_erase_le
      omega
  · rcases hlookup k e he with rfl | he
    · exact hb
    · exact h.asOf k e he
  · rcases hlookup k e he with rfl | he
    · exact le_rfl
    · exact h.seen k e he

/-- What a call does: nothing for an address that finds the table full, and otherwise it takes a
token from the bucket that the address has. -/
theorem allow_cases (l : IpLimiter) (B : TokenBucket β l.rate l.burst) (s : LimiterTable β)
    (ip : String) (now : ℤ) :
    (¬ l.HasRoom (evict s now) ip ∧ l.allow B s ip now = (evict s now, false)) ∨
    l.HasRoom (evict s now) ip ∧ ∃ b, b = ((evict s now).items.lookup ip).elim B.fresh
        LimiterEntry.limiter ∧
      l.allow B s ip now =
        ({ evict s now with
            items := (evict s now).items.insert ip ⟨(B.allow b now).1, now⟩ },
          (B.allow b now).2) := by
  simp only [allow]
  cases hlookup : (evict s now).items.lookup ip with
  | some e =>
    have hmem : ip ∈ (evict s now).items := AList.lookup_isSome.mp (by rw [hlookup]; rfl)
    exact Or.inr ⟨Or.inl hmem, _, rfl, rfl⟩
  | none =>
    have hnot : ip ∉ (evict s now).items := AList.lookup_eq_none.mp hlookup
    by_cases hfull : l.maxEntries ≤ (evict s now).items.keys.length
    · exact Or.inl ⟨fun hroom => hroom.elim hnot (Nat.not_lt.mpr hfull), if_pos hfull⟩
    · exact Or.inr ⟨Or.inr (Nat.not_le.mp hfull), _, rfl, if_neg hfull⟩

/-- What a call leaves of the bucket of another address. -/
theorem lookup_allow_of_ne (hk : k ≠ ip) :
    (l.allow B s ip now).1.items.lookup k = (evict s now).items.lookup k := by
  rcases l.allow_cases B s ip now with ⟨-, heq⟩ | ⟨-, b, -, heq⟩
  · rw [heq]
  · rw [heq]
    exact AList.lookup_insert_ne hk

/-- A bucket was there before the call, or it is the one that the call used. -/
theorem lookup_allow {e : LimiterEntry β} (h : (l.allow B s ip now).1.items.lookup k = some e) :
    s.items.lookup k = some e ∨ k = ip ∧ e.seen = now := by
  by_cases hk : k = ip
  · rcases l.allow_cases B s ip now with ⟨-, heq⟩ | ⟨-, b, -, heq⟩
    · rw [heq] at h
      exact .inl (lookup_of_lookup_evict h)
    · rw [heq, hk, AList.lookup_insert] at h
      exact .inr ⟨hk, by rw [← Option.some.inj h]⟩
  · rw [lookup_allow_of_ne hk] at h
    exact .inl (lookup_of_lookup_evict h)

theorem sweeps_allow (l : IpLimiter) (B : TokenBucket β l.rate l.burst) (s : LimiterTable β)
    (ip : String) (now : ℤ) : (l.allow B s ip now).1.sweeps =
      if 1024 ≤ s.sweeps + 1 then 0 else s.sweeps + 1 := by
  have hevict : (evict s now).sweeps = if 1024 ≤ s.sweeps + 1 then 0 else s.sweeps + 1 := by
    rw [evict]
    split_ifs <;> rfl
  rcases l.allow_cases B s ip now with ⟨-, heq⟩ | ⟨-, b, -, heq⟩
  · rw [heq, hevict]
  · rw [heq]
    exact hevict

/-- The bucket that an address has. -/
theorem bucket_asOf (h : l.Keeps B now s) (k : String) :
    B.AsOf ((s.items.lookup k).elim B.fresh LimiterEntry.limiter) now ∧
      B.tokens ((s.items.lookup k).elim B.fresh LimiterEntry.limiter) now = l.level B s k now := by
  rw [level]
  cases hlookup : s.items.lookup k with
  | none => exact ⟨B.asOf_fresh now, B.tokens_fresh now⟩
  | some e => exact ⟨B.asOf_mono _ _ _ (h.asOf k e hlookup) (h.seen k e hlookup), rfl⟩

theorem Keeps.allow (h : l.Keeps B now s) (ip : String) :
    l.Keeps B now (l.allow B s ip now).1 := by
  rcases l.allow_cases B s ip now with ⟨-, heq⟩ | ⟨hroom, b, rfl, heq⟩
  · rw [heq]
    exact h.evict
  · rw [heq]
    exact h.evict.insert hroom (B.asOf_allow _ _ (bucket_asOf h.evict ip).1)

/-- **One call.** A request that is allowed takes one token of its address, and nothing else
changes the tokens of any address. -/
theorem level_allow (hrefills : l.Refills) (h : l.Keeps B now s) (ip k : String) :
    l.level B (l.allow B s ip now).1 k now =
      l.level B s k now - if k = ip ∧ (l.allow B s ip now).2 = true then 1 else 0 := by
  -- the sweep changes no tokens, so what the call does is what it does after it
  rw [← level_evict hrefills h k]
  rcases l.allow_cases B s ip now with ⟨-, heq⟩ | ⟨-, b, hb, heq⟩
  · rw [heq]
    simp
  · rw [heq]
    obtain ⟨hasOf, htokens⟩ := bucket_asOf h.evict ip
    rw [← hb] at hasOf htokens
    by_cases hk : k = ip
    · rw [hk, ← htokens]
      simpa [level] using B.tokens_allow b now hasOf
    · simp [level, hk, AList.lookup_insert_ne hk]

end IpLimiter

/-! ### The server -/

/-- The limits of each tier, and the buckets of each limit. -/
structure RateLimits (β : Type) where
  limiter : Tier → Option IpLimiter
  bucket : (l : IpLimiter) → TokenBucket β l.rate l.burst

namespace RateLimits

variable (limits : RateLimits β)

/-- One request, with whether it passes. A tier that is disabled lets everything pass. -/
def step (s : Tier → LimiterTable β) :
    ℤ × LimitedRequest → (Tier → LimiterTable β) × Option (LimitedRequest × Bool)
  | (now, r) =>
    match limits.limiter (tierFor r) with
    | none => (s, some (r, true))
    | some l =>
      let (table, allowed) := l.allow (limits.bucket l) (s (tierFor r)) r.ip now
      (Function.update s (tierFor r) table, some (r, allowed))

/-- One request where each address has a bucket of its own for each tier, and keeps it. -/
def bucketStep (f : Tier → String → β) :
    ℤ × LimitedRequest → (Tier → String → β) × Option (LimitedRequest × Bool)
  | (now, r) =>
    match limits.limiter (tierFor r) with
    | none => (f, some (r, true))
    | some l =>
      let (b, allowed) := (limits.bucket l).allow (f (tierFor r) r.ip) now
      (Function.update f (tierFor r) (Function.update (f (tierFor r)) r.ip b), some (r, allowed))

/-- The request does not find the table of its tier full. -/
def finds (s : Tier → LimiterTable β) : ℤ × LimitedRequest → Prop
  | (now, r) => ∀ l ∈ limits.limiter (tierFor r), l.HasRoom (IpLimiter.evict (s (tierFor r)) now) r.ip

instance (s : Tier → LimiterTable β) : ∀ a, Decidable (limits.finds s a)
  | (now, r) => inferInstanceAs (Decidable (∀ l ∈ limits.limiter (tierFor r),
      l.HasRoom (IpLimiter.evict (s (tierFor r)) now) r.ip))

end RateLimits

/-- No address was seen in any tier. -/
def noTables : Tier → LimiterTable β := fun _ => .empty

/-- The requests of an address to a tier that passed. -/
def passedRequests (tier : Tier) (ip : String) (out : List (LimitedRequest × Bool)) : ℕ :=
  out.countP fun x => tierFor x.1 = tier ∧ x.1.ip = ip ∧ x.2 = true

/-! ### Runs -/

namespace RateLimits

variable {limits : RateLimits β} {l : IpLimiter} {tier : Tier} {ip : String} {now now' : ℤ}
  {s : Tier → LimiterTable β} {f : Tier → String → β} {a : ℤ × LimitedRequest}

/-- What a request does to the table of a tier. -/
theorem step_table (hl : limits.limiter tier = some l) (s : Tier → LimiterTable β) (now : ℤ)
    (r : LimitedRequest) :
    (tierFor r ≠ tier ∧ (limits.step s (now, r)).1 tier = s tier ∧
      ∃ allowed, (limits.step s (now, r)).2 = some (r, allowed)) ∨
    tierFor r = tier ∧ limits.step s (now, r) =
      (Function.update s tier (l.allow (limits.bucket l) (s tier) r.ip now).1,
        some (r, (l.allow (limits.bucket l) (s tier) r.ip now).2)) := by
  by_cases htier : tierFor r = tier
  · subst htier
    simp [step, hl]
  · refine Or.inl ⟨htier, ?_⟩
    simp only [step]
    cases limits.limiter (tierFor r) with
    | none => exact ⟨rfl, _, rfl⟩
    | some l' => exact ⟨Function.update_of_ne (Ne.symm htier) _ _, _, rfl⟩

theorem passedRequests_append (tier : Tier) (ip : String) (out : List (LimitedRequest × Bool))
    (r : LimitedRequest) (allowed : Bool) : passedRequests tier ip (out ++ [(r, allowed)]) =
      passedRequests tier ip out + if tierFor r = tier ∧ r.ip = ip ∧ allowed = true then 1 else 0 := by
  simp [passedRequests, List.countP_append]

/-- The tokens of an address and its requests that passed since a time. -/
structure Spent (limits : RateLimits β) (l : IpLimiter) (tier : Tier) (ip : String) (start : ℤ)
    (now : ℤ) (s : Tier → LimiterTable β) (out : List (LimitedRequest × Bool)) : Prop where
  started : start ≤ now
  keeps : l.Keeps (limits.bucket l) now (s tier)
  spent : l.level (limits.bucket l) (s tier) ip now + passedRequests tier ip out ≤
    l.burst + (now - start) * l.rate

/-- **One request.** What an address has and what it has spent flowed in. -/
theorem Spent.step {start : ℤ} {out : List (LimitedRequest × Bool)}
    (hl : limits.limiter tier = some l) (hrefills : l.Refills)
    (h : Spent limits l tier ip start now s out) (hle : now ≤ a.1) :
    Spent limits l tier ip start a.1 (limits.step s a).1
      (out ++ (limits.step s a).2.toList) := by
  obtain ⟨now', r⟩ := a
  have hnow := h.keeps.mono hle
  have hflow := IpLimiter.level_le h.keeps hle ip
  have hspent := h.spent
  rcases step_table hl s now' r with ⟨htier, htable, allowed, hreply⟩ | ⟨htier, heq⟩
  · refine ⟨h.started.trans hle, by rwa [htable], ?_⟩
    -- another tier's request takes nothing from this one
    rw [htable, hreply, Option.toList_some, passedRequests_append, if_neg fun hr => htier hr.1]
    push_cast
    linarith
  · -- a request that passes moves one token from the bucket to the count
    have hlevel := IpLimiter.level_allow hrefills hnow r.ip ip
    rw [heq]
    refine ⟨h.started.trans hle, ?_, ?_⟩
    · have hkeeps := hnow.allow r.ip
      simpa using hkeeps
    · dsimp only
      rw [Function.update_self, Option.toList_some, passedRequests_append, hlevel]
      by_cases hip : r.ip = ip ∧ (l.allow (limits.bucket l) (s tier) r.ip now').2 = true
      · rw [if_pos ⟨hip.1.symm, hip.2⟩, if_pos ⟨htier, hip⟩]
        push_cast
        linarith
      · rw [if_neg fun h => hip ⟨h.1.symm, h.2⟩, if_neg fun h => hip h.2]
        push_cast
        linarith

theorem keeps_run (hl : limits.limiter tier = some l) {before : List (ℤ × LimitedRequest)}
    (hordered : Timed.Ordered before) (hbefore : ∀ a ∈ before, a.1 ≤ now) :
    l.Keeps (limits.bucket l) now (Timed.run limits.step noTables before tier) := by
  induction before using List.reverseRecOn generalizing now with
  | nil => exact IpLimiter.keeps_empty _ now
  | append_singleton before a ih =>
    obtain ⟨now', r⟩ := a
    obtain ⟨hrest, -, hlast⟩ := List.pairwise_append.mp hordered
    have hprevious := ih hrest fun b hb => hlast b hb _ (List.mem_singleton.mpr rfl)
    have hle : now' ≤ now := hbefore (now', r) (by simp)
    rw [Timed.run_concat]
    rcases step_table hl (Timed.run limits.step noTables before) now' r with
      ⟨-, htable, -⟩ | ⟨-, heq⟩
    · rw [htable]
      exact hprevious.mono hle
    · rw [heq]
      have hkeeps := hprevious.allow r.ip
      simpa using hkeeps.mono hle

/-- **What a tier lets through.** Take any run of requests and a stretch of time in it. Of the
requests of one address to a tier whose bucket fills before it may be deleted, no more pass than
the burst and what flows in during the stretch; and the table of the tier keeps to its size. -/
theorem passed_le (limits : RateLimits β) (tier : Tier) (l : IpLimiter) (ip : String)
    (hl : limits.limiter tier = some l) (hrefills : l.Refills) (start stop : ℤ)
    (before trace : List (ℤ × LimitedRequest)) (hbefore : ∀ a ∈ before, a.1 ≤ start)
    (htrace : ∀ a ∈ trace, start ≤ a.1 ∧ a.1 ≤ stop) (hstop : start ≤ stop)
    (hordered : Timed.Ordered (before ++ trace)) :
    (passedRequests tier ip
        (Timed.answers limits.step (Timed.run limits.step noTables before) trace) : ℚ) ≤
        l.burst + (stop - start) * l.rate ∧
      (Timed.run limits.step noTables (before ++ trace) tier).items.keys.length ≤
        l.maxEntries := by
  obtain ⟨hfirst, hrest, -⟩ := List.pairwise_append.mp hordered
  have hkeeps := keeps_run hl hfirst hbefore
  constructor
  · have hserved : ∀ (s : Tier → LimiterTable β) (trace : List (ℤ × LimitedRequest)),
        (∀ a ∈ trace, a.1 ≤ stop) →
        Timed.Served limits.step (fun _ a => a.1 ≤ stop) s trace := by
      intro s trace hle
      induction trace generalizing s with
      | nil => exact trivial
      | cons a trace ih =>
        exact ⟨hle a List.mem_cons_self, ih _ fun b hb => hle b (List.mem_cons_of_mem _ hb)⟩
    -- at the start the address has at most a full bucket
    have hstart : Spent limits l tier ip start start
        (Timed.run limits.step noTables before) [] ∧ start ≤ stop := by
      refine ⟨⟨le_rfl, hkeeps, ?_⟩, hstop⟩
      obtain ⟨hasOf, htokens⟩ := IpLimiter.bucket_asOf hkeeps ip
      have hle := TokenBucket.tokens_le_burst hasOf
      rw [htokens] at hle
      simpa [passedRequests] using hle
    obtain ⟨now, hend, hnow⟩ := Timed.served_rule
      (I := fun now s out => Spent limits l tier ip start now s out ∧ now ≤ stop)
      (fun _ _ _ _ h hle hlate => ⟨h.1.step hl hrefills hle, hlate⟩) hstart
      (fun a ha => (htrace a ha).1) hrest (hserved _ trace fun a ha => (htrace a ha).2)
    obtain ⟨hasOf, htokens⟩ := IpLimiter.bucket_asOf hend.keeps ip
    have hnonneg := (limits.bucket l).tokens_nonneg _ _ hasOf
    have hspent := hend.spent
    have hrate : 0 ≤ l.rate := div_nonneg l.perMinute_pos.le (by norm_num)
    -- the last request came before the end of the stretch
    have hflow : ((now : ℚ) - start) * l.rate ≤ (stop - start) * l.rate :=
      mul_le_mul_of_nonneg_right (by exact_mod_cast Int.sub_le_sub_right hnow start) hrate
    rw [htokens] at hnonneg
    linarith
  · have hlast : ∀ a ∈ before ++ trace, a.1 ≤ stop := by
      intro a ha
      rcases List.mem_append.mp ha with ha | ha
      · exact (hbefore a ha).trans hstop
      · exact (htrace a ha).2
    exact (keeps_run hl hordered hlast).sized

/-- At a time, the tables of the tiers hold what the addresses' own buckets hold. -/
def Mirrors (limits : RateLimits β) (now : ℤ) (s : Tier → LimiterTable β)
    (f : Tier → String → β) : Prop :=
  ∀ tier l, limits.limiter tier = some l → l.Keeps (limits.bucket l) now (s tier) ∧
    ∀ ip, (limits.bucket l).AsOf (f tier ip) now ∧
      l.level (limits.bucket l) (s tier) ip now = (limits.bucket l).tokens (f tier ip) now

theorem Mirrors.mono (h : Mirrors limits now s f) (hle : now ≤ now') :
    Mirrors limits now' s f := by
  intro tier l hl
  obtain ⟨hkeeps, hbuckets⟩ := h tier l hl
  refine ⟨hkeeps.mono hle, fun ip => ?_⟩
  obtain ⟨hasOf, hlevel⟩ := hbuckets ip
  refine ⟨(limits.bucket l).asOf_mono _ _ _ hasOf hle, ?_⟩
  rw [IpLimiter.level_refill hkeeps hle, hlevel,
    (limits.bucket l).tokens_refill _ _ _ hasOf hle]

/-- **One request.** It is answered as by the address's own bucket. -/
theorem Mirrors.step (hrefills : ∀ tier l, limits.limiter tier = some l → l.Refills)
    (h : Mirrors limits now s f) (hle : now ≤ a.1) (hfinds : limits.finds s a) :
    Mirrors limits a.1 (limits.step s a).1 (limits.bucketStep f a).1 ∧
      (limits.step s a).2 = (limits.bucketStep f a).2 := by
  obtain ⟨now, r⟩ := a
  have hnow := h.mono hle
  cases hlimit : limits.limiter (tierFor r) with
  | none =>
    simp only [RateLimits.step, bucketStep, hlimit]
    exact ⟨hnow, trivial⟩
  | some l =>
    obtain ⟨hkeeps, hbuckets⟩ := hnow _ l hlimit
    obtain ⟨hasOf, hlevel⟩ := hbuckets r.ip
    have hrefill := hrefills _ l hlimit
    -- the bucket that is used has the tokens of the address's own
    have hallowed : (l.allow (limits.bucket l) (s (tierFor r)) r.ip now).2 =
        ((limits.bucket l).allow (f (tierFor r) r.ip) now).2 := by
      rcases l.allow_cases (limits.bucket l) (s (tierFor r)) r.ip now with
        ⟨hfull, -⟩ | ⟨-, b, hb, heq⟩
      · exact absurd (hfinds l hlimit) hfull
      · obtain ⟨hbAsOf, hbLevel⟩ := IpLimiter.bucket_asOf hkeeps.evict r.ip
        rw [← hb, IpLimiter.level_evict hrefill hkeeps, hlevel] at hbLevel
        rw [← hb] at hbAsOf
        rw [heq]
        exact ((limits.bucket l).allow_congr hbAsOf hasOf hbLevel).1
    simp only [RateLimits.step, bucketStep, hlimit]
    refine ⟨fun tier l' hl' => ?_, by rw [hallowed]⟩
    by_cases htier : tier = tierFor r
    · subst htier
      obtain rfl : l = l' := Option.some.inj (hlimit.symm.trans hl')
      rw [Function.update_self, Function.update_self]
      refine ⟨hkeeps.allow r.ip, fun ip => ?_⟩
      rw [IpLimiter.level_allow hrefill hkeeps, hallowed]
      by_cases hip : ip = r.ip
      · subst hip
        rw [Function.update_self]
        refine ⟨(limits.bucket l).asOf_allow _ _ hasOf, ?_⟩
        rw [(limits.bucket l).tokens_allow _ _ hasOf, hlevel]
        simp
      · rw [Function.update_of_ne hip, if_neg fun h => hip h.1, sub_zero]
        exact hbuckets ip
    · rw [Function.update_of_ne htier, Function.update_of_ne htier]
      exact hnow tier l' hl'

/-- Every address has fresh buckets. Nothing asks for the bucket of a tier that is disabled. -/
def freshBuckets (limits : RateLimits β) : Tier → String → β := fun tier _ =>
  match limits.limiter tier with
  | some l => (limits.bucket l).fresh
  | none => (limits.bucket ⟨1, 1, 1, by norm_num, Nat.one_pos⟩).fresh

/-- **Deleting idle buckets is not seen.** If every tier's bucket fills before it may be deleted,
then requests at times that never go back, none of which finds a table full, are answered as if
every address had a bucket of its own for each tier and kept it for ever. -/
theorem answers_eq_buckets (limits : RateLimits β)
    (hrefills : ∀ tier l, limits.limiter tier = some l → l.Refills)
    (trace : List (ℤ × LimitedRequest)) (hordered : Timed.Ordered trace)
    (hserved : Timed.Served limits.step limits.finds noTables trace) :
    Timed.answers limits.step noTables trace =
      Timed.answers limits.bucketStep limits.freshBuckets trace := by
  apply Timed.answers_eq (R := Mirrors limits) _ _ hordered hserved
  · exact fun _ _ _ _ h hle hfinds => h.step hrefills hle hfinds
  · intro now tier l hl
    refine ⟨IpLimiter.keeps_empty _ now, fun ip => ?_⟩
    have hfresh : limits.freshBuckets tier ip = (limits.bucket l).fresh := by
      rw [freshBuckets, hl]
    rw [hfresh]
    exact ⟨(limits.bucket l).asOf_fresh now, ((limits.bucket l).tokens_fresh now).symm⟩

/-- The production limits over exact buckets. -/
def production : RateLimits TokenBucket.Level where
  limiter tier := newIPLimiter (defaultRateLimits tier).perMinute (defaultRateLimits tier).burst 0
  bucket l := TokenBucket.exact l.rate l.burst (div_nonneg l.perMinute_pos.le (by norm_num))

/-- In production a bucket fills before it may be deleted. -/
theorem refills_production (tier : Tier) (l : IpLimiter)
    (hl : production.limiter tier = some l) : l.Refills := by
  have hnew : newIPLimiter (defaultRateLimits tier).perMinute (defaultRateLimits tier).burst 0 =
      some l := hl
  rw [IpLimiter.newIPLimiter_refills hnew]
  cases tier <;> norm_num [defaultRateLimits]

/-- Of six attempts to log in that come at once from one address, five pass. -/
theorem passed_le_six :
    (passedRequests .login "ip" (Timed.answers production.step
        (Timed.run production.step noTables [])
        (List.replicate 6 (0, ⟨"POST", "/api/auth/login", "ip"⟩))) : ℚ) ≤
      (5 : ℕ) + ((0 : ℤ) - (0 : ℤ)) * (5 / 60000) ∧
    (Timed.run production.step noTables ([] ++ List.replicate 6
      (0, ⟨"POST", "/api/auth/login", "ip"⟩)) .login).items.keys.length ≤ limiterMaxEntries :=
  passed_le production .login ⟨5, 5, limiterMaxEntries, by norm_num, by decide⟩ "ip" rfl
    (refills_production .login _ rfl) 0 0 [] _ (fun _ ha => absurd ha List.not_mem_nil)
    (by decide) le_rfl (by unfold Timed.Ordered; decide)

/-! ### A run with a deletion -/

/-- What one more request leaves of the table of a tier. -/
theorem table_concat (hl : limits.limiter tier = some l) (trace : List (ℤ × LimitedRequest))
    (a : ℤ × LimitedRequest) : Timed.run limits.step noTables (trace ++ [a]) tier =
      if tierFor a.2 = tier then
        (l.allow (limits.bucket l) (Timed.run limits.step noTables trace tier) a.2.ip a.1).1
      else Timed.run limits.step noTables trace tier := by
  rw [Timed.run_concat]
  rcases step_table hl (Timed.run limits.step noTables trace) a.1 a.2 with
    ⟨htier, htable, -⟩ | ⟨htier, heq⟩
  · rw [if_neg htier]
    exact htable
  · rw [if_pos htier, heq]
    exact Function.update_self tier _ _

/-- A call sweeps when it is the 1024th of its tier since the last one that did. -/
theorem sweeps_run (hl : limits.limiter tier = some l) (trace : List (ℤ × LimitedRequest)) :
    (Timed.run limits.step noTables trace tier).sweeps =
      trace.countP (fun a => tierFor a.2 = tier) % 1024 := by
  induction trace using List.reverseRecOn with
  | nil => rfl
  | append_singleton trace a ih =>
    rw [table_concat hl, List.countP_append, List.countP_singleton]
    by_cases htier : tierFor a.2 = tier
    · simp only [htier, decide_true, if_true]
      rw [IpLimiter.sweeps_allow, ih]
      split_ifs <;> omega
    · simpa [htier] using ih

/-- The addresses with a bucket sent a request, at the time that the bucket was last used. -/
theorem seen_run (hl : limits.limiter tier = some l) (trace : List (ℤ × LimitedRequest))
    {e : LimiterEntry β}
    (he : (Timed.run limits.step noTables trace tier).items.lookup ip = some e) :
    ∃ b ∈ trace, b.2.ip = ip ∧ b.1 = e.seen := by
  induction trace using List.reverseRecOn with
  | nil => cases he
  | append_singleton trace a ih =>
    have hkept : (Timed.run limits.step noTables trace tier).items.lookup ip = some e →
        ∃ b ∈ trace ++ [a], b.2.ip = ip ∧ b.1 = e.seen := by
      intro hbefore
      obtain ⟨b, hb, hseen⟩ := ih hbefore
      exact ⟨b, List.mem_append_left _ hb, hseen⟩
    rw [table_concat hl] at he
    by_cases htier : tierFor a.2 = tier
    · rw [if_pos htier] at he
      rcases IpLimiter.lookup_allow he with hbefore | ⟨rfl, hseen⟩
      · exact hkept hbefore
      · exact ⟨a, List.mem_append_right _ (List.mem_singleton_self a), rfl, hseen.symm⟩
    · rw [if_neg htier] at he
      exact hkept he

/-- A call that sweeps leaves no bucket of another address that was idle. -/
theorem notMem_of_sweep (hl : limits.limiter tier = some l) {trace : List (ℤ × LimitedRequest)}
    (htier : tierFor a.2 = tier)
    (hsweep : trace.countP (fun b => tierFor b.2 = tier) % 1024 = 1023)
    (hidle : ∀ b ∈ trace, b.2.ip = ip → b.1 < a.1 - limiterIdleTTL) (hip : ip ≠ a.2.ip) :
    ip ∉ (Timed.run limits.step noTables (trace ++ [a]) tier).items := by
  -- this call sweeps, and the address it leaves out was last seen by a request of the trace
  have hnow : 1024 ≤ (Timed.run limits.step noTables trace tier).sweeps + 1 := by
    rw [sweeps_run hl, hsweep]
  rw [← AList.lookup_eq_none, table_concat hl, if_pos htier, IpLimiter.lookup_allow_of_ne hip,
    IpLimiter.lookup_evict, if_pos hnow, Option.filter_eq_none_iff]
  intro e he
  obtain ⟨b, hb, hbip, hseen⟩ := seen_run hl trace he
  have hold : e.seen < a.1 - limiterIdleTTL := hseen ▸ hidle b hb hbip
  simp only [hold, not_true, decide_false, Bool.false_eq_true, not_false_eq_true]

/-- Requests of no more addresses than the tables hold never find one full. -/
theorem served_of_addresses (ips : List String)
    (hroom : ∀ tier l, limits.limiter tier = some l → ips.length ≤ l.maxEntries)
    (trace : List (ℤ × LimitedRequest)) (hips : ∀ a ∈ trace, a.2.ip ∈ ips) :
    Timed.Served limits.step limits.finds noTables trace := by
  rw [Timed.served_iff]
  intro before a after htrace l hl
  by_cases hmem : a.2.ip ∈
      (IpLimiter.evict (Timed.run limits.step noTables before (tierFor a.2)) a.1).items
  · exact .inl hmem
  -- the addresses with a bucket and the one without are among those of the requests
  have hnodup : (a.2.ip :: (IpLimiter.evict (Timed.run limits.step noTables before
      (tierFor a.2)) a.1).items.keys).Nodup :=
    List.nodup_cons.mpr ⟨fun h => hmem (AList.mem_keys.mpr h), AList.keys_nodup _⟩
  have hsubset : a.2.ip :: (IpLimiter.evict (Timed.run limits.step noTables before
      (tierFor a.2)) a.1).items.keys ⊆ ips := by
    refine List.cons_subset.mpr ⟨hips a (by rw [htrace]; simp), fun k hk => ?_⟩
    obtain ⟨e, he⟩ := Option.isSome_iff_exists.mp (AList.lookup_isSome.mpr (AList.mem_keys.mp hk))
    obtain ⟨b, hb, rfl, -⟩ := seen_run hl before (IpLimiter.lookup_of_lookup_evict he)
    exact hips b (by rw [htrace]; exact List.mem_append_left _ hb)
  exact .inr ((List.subperm_of_subset hnodup hsubset).length_le.trans (hroom _ l hl))

/-- A read of an address. -/
def readOf (ip : String) : LimitedRequest := ⟨"GET", "/api/overview", ip⟩

/-- A thousand reads of one address, one of another address when the first has been idle for long
enough, and one more of the first. -/
def sweptReads : List (ℤ × LimitedRequest) :=
  List.replicate 1023 (0, readOf "a") ++ [(700000, readOf "b")] ++ [(700000, readOf "a")]

/-- The bucket of the first address is deleted before its last read, which is answered as if it
were not. -/
theorem answers_eq_buckets_two :
    "a" ∉ (Timed.run production.step noTables sweptReads.dropLast .read).items ∧
      Timed.answers production.step noTables sweptReads =
        Timed.answers production.bucketStep production.freshBuckets sweptReads := by
  constructor
  · have hdropLast : sweptReads.dropLast =
        List.replicate 1023 (0, readOf "a") ++ [(700000, readOf "b")] := List.dropLast_concat
    rw [hdropLast]
    refine notMem_of_sweep rfl rfl ?_ (fun b hb _ => ?_) (by decide)
    · rw [List.countP_replicate]
      rfl
    · rw [List.eq_of_mem_replicate hb]
      decide
  · have hread : ∀ a ∈ sweptReads, a = (0, readOf "a") ∨ a = (700000, readOf "b") ∨
        a = (700000, readOf "a") := by
      intro a ha
      rcases List.mem_append.mp ha with ha | ha
      · rcases List.mem_append.mp ha with ha | ha
        · exact .inl (List.eq_of_mem_replicate ha)
        · exact .inr (.inl (List.mem_singleton.mp ha))
      · exact .inr (.inr (List.mem_singleton.mp ha))
    have hordered : Timed.Ordered sweptReads := by
      refine List.pairwise_append.mpr ⟨List.pairwise_append.mpr ⟨?_, List.pairwise_singleton _ _, ?_⟩,
        List.pairwise_singleton _ _, ?_⟩
      · exact List.pairwise_replicate.mpr (.inr le_rfl)
      · intro x hx y hy
        rw [List.eq_of_mem_replicate hx, List.mem_singleton.mp hy]
        decide
      · intro x hx y hy
        rw [List.mem_singleton.mp hy]
        rcases hread x (List.mem_append_left _ hx) with rfl | rfl | rfl <;> decide
    refine answers_eq_buckets production refills_production _ hordered
      (served_of_addresses ["a", "b"] (fun tier l hl => ?_) _ fun a ha => ?_)
    · rw [IpLimiter.newIPLimiter_maxEntries hl]
      decide
    · rcases hread a ha with rfl | rfl | rfl <;> decide

end RateLimits

end

end HubScope
