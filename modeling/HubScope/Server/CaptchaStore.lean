import Mathlib
import HubScope.Lib.Timed

/-!
# The captcha store

The answers of the captchas that were issued wait in memory to be verified. An answer expires
after a while, and any verification destroys it, right or wrong. Expired answers stay until the
next captcha is issued, when all of them are swept; a store that is full of answers still alive
issues none. What is seen from outside is a log of what was issued and tried: an answer is right
if its captcha is the last thing the log tells about its id and has not expired.

## Main definitions

* `CaptchaStore` — the limits, with `issue` and `verify` over `CaptchaItems`
* `CaptchaLog` — what was issued and tried, with `outstanding` and `alive`

## Main results

* `CaptchaStore.size_run_le` — the store is bounded in every run
* `CaptchaStore.used_up` — after one verification an id is worth nothing until it is issued again
* `CaptchaStore.answers_eq_captchaLog` — the store answers as the log does
-/

set_option autoImplicit false

namespace HubScope

/-- The policy of the captcha store. -/
structure CaptchaStorePolicy where
  ttl : ℤ
  maxEntries : ℤ

/-- The default lifetime of an answer, five minutes in milliseconds. -/
def captchaStoreDefaultTTL : ℤ := 300000

/-- The default cap of the store. -/
def captchaStoreDefaultMaxEntries : ℕ := 10000

/-- The limits of a store. -/
structure CaptchaStore where
  ttl : ℤ
  maxEntries : ℕ
  ttl_pos : 0 < ttl
  maxEntries_pos : 0 < maxEntries

/-- Build the limits; what is not positive gets its default. -/
def newCaptchaStore (p : CaptchaStorePolicy) : CaptchaStore where
  ttl := if p.ttl ≤ 0 then captchaStoreDefaultTTL else p.ttl
  maxEntries := if p.maxEntries ≤ 0 then captchaStoreDefaultMaxEntries else p.maxEntries.toNat
  ttl_pos := by
    split_ifs with h
    · decide
    · omega
  maxEntries_pos := by
    split_ifs with h
    · decide
    · omega

/-- An answer that waits to be verified. -/
structure CaptchaEntry where
  answer : String
  expires : ℤ
  deriving DecidableEq

/-- The answers by id. -/
abbrev CaptchaItems := AList fun _ : String => CaptchaEntry

namespace CaptchaItems

/-- Delete what has expired. -/
def sweep (now : ℤ) (items : CaptchaItems) : CaptchaItems :=
  ⟨items.entries.filter fun e => ¬ e.2.expires < now,
    items.nodupKeys.sublist List.filter_sublist⟩

/-- The number of answers. -/
def size (items : CaptchaItems) : ℕ := items.keys.length

end CaptchaItems

/-- What the handlers ask of the store. A captcha is issued with the id and the answer that the
random source yields, if it yields any. -/
inductive CaptchaStoreCall
  | issue (random : Option (String × String))
  | verify (id answer : String)

namespace CaptchaStore

variable (st : CaptchaStore)

/-- Issue a captcha. The expired answers are swept first, so that they do not fill the store. -/
def issue (items : CaptchaItems) (random : Option (String × String)) (now : ℤ) :
    CaptchaItems × Bool :=
  let items := items.sweep now
  if st.maxEntries ≤ items.size then (items, false)
  else
    match random with
    | none => (items, false)
    | some (id, answer) => (items.insert id ⟨answer, now + st.ttl⟩, true)

/-- Verify an answer, and destroy it. -/
def verify (items : CaptchaItems) (id answer : String) (now : ℤ) : CaptchaItems × Bool :=
  match items.lookup id with
  | none => (items, false)
  -- the answer is gone whether it was right, wrong or late
  | some e => (items.erase id, if e.expires < now then false else e.answer = answer)

/-- One call, with what it answers. -/
def step (items : CaptchaItems) : ℤ × CaptchaStoreCall → CaptchaItems × Option Bool
  | (now, .issue random) =>
    let (items, issued) := st.issue items random now
    (items, some issued)
  | (now, .verify id answer) =>
    let (items, right) := verify items id answer now
    (items, some right)

end CaptchaStore

/-! ### The log -/

/-- A captcha that was issued, and an id that was tried. -/
inductive CaptchaEvent
  | issued (id answer : String) (issuedAt : ℤ)
  | tried (id : String)
  deriving DecidableEq

/-- The id an event is about. -/
def CaptchaEvent.id : CaptchaEvent → String
  | .issued id _ _ => id
  | .tried id => id

/-- What was issued and tried, newest first. -/
abbrev CaptchaLog := List CaptchaEvent

namespace CaptchaLog

/-- The captcha of an id that was not tried since it was issued, with the time it expires. -/
def outstanding (ttl : ℤ) (log : CaptchaLog) (id : String) : Option CaptchaEntry :=
  match log.find? fun e => e.id = id with
  | some (.issued _ answer issuedAt) => some ⟨answer, issuedAt + ttl⟩
  | _ => none

/-- The outstanding captcha of an id that has not expired. -/
def alive (ttl : ℤ) (log : CaptchaLog) (now : ℤ) (id : String) : Option CaptchaEntry :=
  (log.outstanding ttl id).filter fun e => ¬ e.expires < now

/-- The ids of the captchas that can still be answered. -/
def aliveIds (ttl : ℤ) (log : CaptchaLog) (now : ℤ) : List String :=
  (log.map CaptchaEvent.id).dedup.filter fun id => (log.alive ttl now id).isSome

/-- One call, with what it answers. -/
def step (ttl : ℤ) (maxEntries : ℕ) (log : CaptchaLog) :
    ℤ × CaptchaStoreCall → CaptchaLog × Option Bool
  | (now, .issue random) =>
    -- a full store refuses, it evicts nobody
    if maxEntries ≤ (log.aliveIds ttl now).length then (log, some false)
    else
      match random with
      | none => (log, some false)
      | some (id, answer) => (.issued id answer now :: log, some true)
  | (now, .verify id answer) =>
    (.tried id :: log, some ((log.alive ttl now id).any fun e => e.answer = answer))

end CaptchaLog

namespace CaptchaItems

variable {items : CaptchaItems} {id k : String} {e : CaptchaEntry} {now now' : ℤ}

theorem lookup_sweep :
    (items.sweep now).lookup id = (items.lookup id).filter fun e => ¬ e.expires < now := by
  ext e
  rw [Option.filter_eq_some_iff]
  have hswept : (items.sweep now).lookup id = some e ↔ Sigma.mk id e ∈ (items.sweep now).entries :=
    AList.mem_lookup_iff
  have hentry : items.lookup id = some e ↔ Sigma.mk id e ∈ items.entries := AList.mem_lookup_iff
  rw [hswept, hentry]
  exact List.mem_filter

theorem size_sweep_le (now : ℤ) (items : CaptchaItems) : (items.sweep now).size ≤ items.size := by
  have hsub : (items.sweep now).keys.Sublist items.keys := List.filter_sublist.map _
  exact hsub.length_le

theorem size_insert_le (items : CaptchaItems) (id : String) (e : CaptchaEntry) :
    size (items.insert id e) ≤ items.size + 1 := by
  rw [size, AList.keys_insert, List.length_cons]
  exact Nat.succ_le_succ List.length_erase_le

theorem size_erase_le (items : CaptchaItems) (id : String) :
    size (items.erase id) ≤ items.size := by
  rw [size, AList.keys_erase]
  exact List.length_erase_le

end CaptchaItems

/-! ### Answering as the log -/

/-- What has not expired later has not expired before. -/
theorem filter_unexpired_filter {now now' : ℤ} (h : now ≤ now') (o : Option CaptchaEntry) :
    ((o.filter fun e => ¬ e.expires < now).filter fun e => ¬ e.expires < now') =
      o.filter fun e => ¬ e.expires < now' := by
  ext e
  simp only [Option.filter_eq_some_iff, decide_eq_true_eq, and_assoc]
  -- what expired at the earlier time has expired at the later one
  have hexp : ¬ e.expires < now' → ¬ e.expires < now := fun hlate hearly =>
    hlate (hearly.trans_le h)
  exact ⟨fun ⟨ho, _, hlate⟩ => ⟨ho, hlate⟩, fun ⟨ho, hlate⟩ => ⟨ho, hexp hlate, hlate⟩⟩

namespace CaptchaLog

variable {ttl now now' : ℤ} {log : CaptchaLog} {id k answer : String}

theorem outstanding_issued_self (ttl : ℤ) (log : CaptchaLog) (id answer : String)
    (issuedAt : ℤ) :
    outstanding ttl (.issued id answer issuedAt :: log) id = some ⟨answer, issuedAt + ttl⟩ := by
  simp [outstanding, CaptchaEvent.id]

theorem outstanding_issued_of_ne {issuedAt : ℤ} (h : k ≠ id) :
    outstanding ttl (.issued id answer issuedAt :: log) k = outstanding ttl log k := by
  simp [outstanding, CaptchaEvent.id, h.symm]

theorem outstanding_tried_self (ttl : ℤ) (log : CaptchaLog) (id : String) :
    outstanding ttl (.tried id :: log) id = none := by
  simp [outstanding, CaptchaEvent.id]

theorem outstanding_tried_of_ne (h : k ≠ id) :
    outstanding ttl (.tried id :: log) k = outstanding ttl log k := by
  simp [outstanding, CaptchaEvent.id, h.symm]

/-- Only ids of the log are outstanding. -/
theorem mem_ids_of_outstanding (h : (log.outstanding ttl id).isSome) :
    id ∈ log.map CaptchaEvent.id := by
  rw [outstanding] at h
  cases hfind : log.find? fun e => e.id = id with
  | none => simp [hfind] at h
  | some e =>
    have hid : e.id = id := by simpa using List.find?_some hfind
    exact List.mem_map.mpr ⟨e, List.mem_of_find?_eq_some hfind, hid⟩

theorem mem_aliveIds : id ∈ log.aliveIds ttl now ↔ (log.alive ttl now id).isSome := by
  rw [aliveIds, List.mem_filter, List.mem_dedup]
  refine ⟨fun h => h.2, fun h => ⟨?_, h⟩⟩
  obtain ⟨e, he⟩ := Option.isSome_iff_exists.mp h
  have hout := (Option.filter_eq_some_iff.mp he).1
  exact mem_ids_of_outstanding (Option.isSome_iff_exists.mpr ⟨e, hout⟩)

theorem alive_mono (h : now ≤ now') :
    (log.alive ttl now id).filter (fun e => ¬ e.expires < now') = log.alive ttl now' id :=
  filter_unexpired_filter h _

end CaptchaLog

namespace CaptchaStore

variable {st : CaptchaStore} {items : CaptchaItems} {log : CaptchaLog} {now now' : ℤ}
  {a : ℤ × CaptchaStoreCall}

/-- At a time, the answers that have not expired are those of the log. -/
def Follows (ttl now : ℤ) (items : CaptchaItems) (log : CaptchaLog) : Prop :=
  ∀ id, (items.sweep now).lookup id = log.alive ttl now id

theorem Follows.mono {ttl : ℤ} (h : Follows ttl now items log) (hle : now ≤ now') :
    Follows ttl now' items log := by
  intro id
  rw [← CaptchaLog.alive_mono hle, ← h id, CaptchaItems.lookup_sweep, CaptchaItems.lookup_sweep,
    filter_unexpired_filter hle]

/-- Sweeping now deletes nothing that the log tells of. -/
theorem Follows.sweep {ttl : ℤ} (h : Follows ttl now items log) :
    Follows ttl now (items.sweep now) log := by
  intro id
  rw [← h id, CaptchaItems.lookup_sweep, CaptchaItems.lookup_sweep, filter_unexpired_filter le_rfl]

/-- The store holds as many answers after a sweep as are alive in the log. -/
theorem Follows.size_eq {ttl : ℤ} (h : Follows ttl now items log) :
    (items.sweep now).size = (log.aliveIds ttl now).length := by
  -- both lists hold each id once, so it is enough that they hold the same ids
  have hlog : (log.aliveIds ttl now).Nodup := (List.nodup_dedup _).filter _
  have hmem : ∀ id, id ∈ (items.sweep now).keys ↔ id ∈ log.aliveIds ttl now := by
    intro id
    rw [CaptchaLog.mem_aliveIds, ← h id, AList.lookup_isSome, AList.mem_keys]
  exact ((List.perm_ext_iff_of_nodup (items.sweep now).keys_nodup hlog).mpr hmem).length_eq

theorem Follows.insert (h : Follows st.ttl now items log) (id answer : String) :
    Follows st.ttl now (items.insert id ⟨answer, now + st.ttl⟩) (.issued id answer now :: log) := by
  intro k
  rw [CaptchaItems.lookup_sweep, CaptchaLog.alive]
  by_cases hk : k = id
  · rw [hk, AList.lookup_insert, CaptchaLog.outstanding_issued_self]
  · rw [AList.lookup_insert_ne hk, CaptchaLog.outstanding_issued_of_ne hk,
      ← CaptchaItems.lookup_sweep]
    exact h k

theorem Follows.erase {ttl : ℤ} (h : Follows ttl now items log) (id : String) :
    Follows ttl now (items.erase id) (.tried id :: log) := by
  intro k
  rw [CaptchaItems.lookup_sweep, CaptchaLog.alive]
  by_cases hk : k = id
  · rw [hk, AList.lookup_erase, CaptchaLog.outstanding_tried_self]
  · rw [AList.lookup_erase_ne hk, CaptchaLog.outstanding_tried_of_ne hk,
      ← CaptchaItems.lookup_sweep]
    exact h k

/-- An answer is right if it is that of an answer which has not expired. -/
theorem verify_snd (items : CaptchaItems) (id answer : String) (now : ℤ) :
    (verify items id answer now).2 =
      ((items.sweep now).lookup id).any fun e => e.answer = answer := by
  rw [verify, CaptchaItems.lookup_sweep]
  cases items.lookup id with
  | none => rfl
  | some e =>
    by_cases hexp : e.expires < now
    · simp [Option.filter, hexp]
    · simp [Option.filter, hexp]

/-- A verification destroys the answer. -/
theorem verify_fst (items : CaptchaItems) (id answer : String) (now : ℤ) :
    (verify items id answer now).1 = items.erase id := by
  rw [verify]
  cases hlookup : items.lookup id with
  | none =>
    have hid : id ∉ items.keys := AList.lookup_eq_none.mp hlookup
    exact (AList.ext (List.kerase_of_notMem_keys hid)).symm
  | some e => rfl

/-- **One call.** The answers still follow the log, and the store answers as it does. -/
theorem Follows.step (h : Follows st.ttl now items log) (hle : now ≤ a.1) :
    Follows st.ttl a.1 (st.step items a).1 (log.step st.ttl st.maxEntries a).1 ∧
      (st.step items a).2 = (log.step st.ttl st.maxEntries a).2 := by
  have hnow := h.mono hle
  match a with
  | (now, .verify id answer) =>
    refine ⟨?_, congrArg some ?_⟩
    · have herase := hnow.erase id
      rwa [← verify_fst items id answer now] at herase
    · exact (verify_snd items id answer now).trans (congrArg _ (hnow id))
  | (now, .issue random) =>
    have hsize : (items.sweep now).size = (log.aliveIds st.ttl now).length := hnow.size_eq
    simp only [CaptchaStore.step, issue, CaptchaLog.step, hsize]
    split_ifs
    · exact ⟨hnow.sweep, rfl⟩
    · cases random with
      | none => exact ⟨hnow.sweep, rfl⟩
      | some captcha => exact ⟨hnow.sweep.insert captcha.1 captcha.2, rfl⟩

/-! ### Bounds -/

theorem size_step_le (h : items.size ≤ st.maxEntries) (a : ℤ × CaptchaStoreCall) :
    (st.step items a).1.size ≤ st.maxEntries := by
  match a with
  | (now, .verify id answer) =>
    have hfst : (st.step items (now, .verify id answer)).1 = items.erase id :=
      verify_fst items id answer now
    rw [hfst]
    exact (CaptchaItems.size_erase_le items id).trans h
  | (now, .issue random) =>
    have hswept := (CaptchaItems.size_sweep_le now items).trans h
    simp only [CaptchaStore.step, issue]
    split_ifs with hfull
    · exact hswept
    · cases random with
      | none => exact hswept
      | some captcha =>
        exact (CaptchaItems.size_insert_le _ captcha.1 _).trans (Nat.not_le.mp hfull)

/-- The store is bounded in every run, at whatever times the calls come. -/
theorem size_run_le (st : CaptchaStore) (trace : List (ℤ × CaptchaStoreCall)) :
    (Timed.run st.step ∅ trace).size ≤ st.maxEntries := by
  apply Timed.run_invariant (I := fun items : CaptchaItems => items.size ≤ st.maxEntries)
  · exact Nat.zero_le _
  · exact fun _ a h => size_step_le h a

/-- **The captcha store refines its log.** For calls at times that never go back, a captcha is
issued exactly when fewer captchas than the cap can still be answered, and an answer is right
exactly when it is that of a captcha which was not tried since it was issued and has not expired;
and in every run the store is bounded. -/
theorem answers_eq_captchaLog (st : CaptchaStore) :
    (∀ trace, Timed.Ordered trace → Timed.answers st.step ∅ trace =
      Timed.answers (CaptchaLog.step st.ttl st.maxEntries) [] trace) ∧
    ∀ trace, (Timed.run st.step ∅ trace).size ≤ st.maxEntries := by
  refine ⟨fun trace hordered => ?_, size_run_le st⟩
  have hserved : ∀ (items : CaptchaItems) (trace : List (ℤ × CaptchaStoreCall)),
      Timed.Served st.step (fun _ _ => True) items trace := by
    intro items trace
    induction trace generalizing items with
    | nil => exact trivial
    | cons a trace ih => exact ⟨trivial, ih _⟩
  apply Timed.answers_eq (R := Follows st.ttl) _ _ hordered (hserved ∅ trace)
  · exact fun _ _ _ _ h hle _ => h.step hle
  · exact fun _ _ => rfl

/-- A store for one answer refuses a second captcha until the first has expired, and takes an
answer once. -/
theorem answers_eq_captchaLog_one :
    Timed.answers (newCaptchaStore ⟨10, 1⟩).step ∅
      [(0, .issue (some ("a", "123456"))), (9, .issue (some ("b", "654321"))),
        (11, .issue (some ("b", "654321"))), (11, .verify "a" "123456"),
        (12, .verify "b" "654321"), (12, .verify "b" "654321")] =
      [true, false, true, false, true, false] := by
  rw [(answers_eq_captchaLog (newCaptchaStore ⟨10, 1⟩)).1 _ (by unfold Timed.Ordered; decide)]
  decide

end CaptchaStore

end HubScope
