import HubScope.Lib.Moment
import HubScope.Lib.Numerals

/-!
# Session tokens

A session token names a user and the second of the login, and carries the MAC of both. A dot
separates its parts. Numerals hold no dot, and neither does a signature in hexadecimal, so that a
token splits in one way, and the MAC binds the numerals as they were written: the leniency of the
readers, which would take `+7` or `007` for the user 7, never comes into play.

Someone without the key presents tokens of any form. What they cannot do is evaluate the MAC: a
MAC in a presented token is one that the server signed.

## Main definitions

* `Mac` — a MAC as an abstract injective function for each key
* `signSession`, `verifySession` — a token is signed, and checked
* `Presentable` — the tokens that are made without the key
* `BindsContent` — a token stands for the user and the login it was signed for

## Main results

* `bindsContent` — tokens bind the user and the second of the login
* `not_bindsContent_instants` — they do not tell two instants of one second apart
-/

set_option autoImplicit false

namespace HubScope

open Bytes Numerals

/-- A message authentication code. For each key it takes different texts to different codes, none
of them empty. -/
structure Mac where
  sum : Bytes → Bytes → Bytes
  sum_injective : ∀ key, Function.Injective (sum key)
  sum_ne_nil : ∀ key text, sum key text ≠ []

/-- How long a session stays valid, in nanoseconds. -/
def sessionTTL : ℤ := 7 * 24 * 3600 * 1000000000

/-- The separator of a token. -/
def dot : Byte := 46

variable (M : Mac) (key : Bytes)

/-- The text that a token's signature covers. -/
def payload (userID : Int64) (issued : Moment) : Bytes :=
  formatInt userID ++ [dot] ++ formatInt issued.unix

/-- The token of a user who logged in. -/
def signSession (userID : Int64) (issued : Moment) : Bytes :=
  payload userID issued ++ [dot] ++ encodeHex (M.sum key (payload userID issued))

/-- The three parts of a token, none of them empty. -/
def splitThree (token : Bytes) : Option (Bytes × Bytes × Bytes) :=
  match cut [dot] token with
  | none => none
  | some (first, rest) =>
    if first = [] then none
    else
      match cut [dot] rest with
      | none => none
      | some (second, third) =>
        if second = [] ∨ third = [] then none else some (first, second, third)

/-- The user whom a token names, if its signature is right and it has not expired. -/
def verifySession (token : Bytes) (now : Moment) : Option Int64 :=
  match splitThree token with
  | none => none
  | some (uidStr, stamp, sigHex) =>
    match decodeHex sigHex with
    | none => none
    | some sig =>
      if sig ≠ M.sum key (uidStr ++ [dot] ++ stamp) then none
      else
        match parseInt uidStr with
        | none => none
        | some userID =>
          match parseInt stamp with
          | none => none
          | some issued =>
            let age := now.sub (Moment.ofUnix issued)
            if age < 0 ∨ age > sessionTTL then none else some userID

/-! ### What tokens are to bind -/

/-- At `now` a login at `issued` does not lie ahead and has not expired. -/
def Unexpired (now issued : Moment) : Prop :=
  0 ≤ now.nanos - issued.nanos ∧ now.nanos - issued.nanos ≤ sessionTTL

instance (now issued : Moment) : Decidable (Unexpired now issued) :=
  inferInstanceAs (Decidable (_ ∧ _))

/-- A token that can be presented after the server signed for `signed`. Without the key nobody
evaluates the MAC, so that the only MACs a token can carry are those of what was signed. -/
def Presentable (signed : Set (Int64 × Moment)) (token : Bytes) : Prop :=
  ∀ first second third sig, splitThree token = some (first, second, third) →
    decodeHex third = some sig → sig ∈ Set.range (M.sum key) →
      ∃ p ∈ signed, sig = M.sum key (payload p.1 p.2)

/-- A token carries the text of a user and a login, and a signature of it. -/
def SignedFor (token : Bytes) (userID : Int64) (issued : Moment) : Prop :=
  ∃ sigHex, token = payload userID issued ++ [dot] ++ sigHex ∧
    decodeHex sigHex = some (M.sum key (payload userID issued))

/-- A token stands for the user and the login it was signed for, where `stamped` is what it tells
of the instant of a login. -/
structure BindsContent (stamped : Moment → Moment) : Prop where
  /-- A signed token names its user as long as the login has not expired. -/
  verifies : ∀ userID issued now, verifySession M key (signSession M key userID issued) now =
    if Unexpired now (stamped issued) then some userID else none
  /-- Different users or logins do not share a signed text. -/
  separates : ∀ userID issued userID' issued',
    payload userID issued = payload userID' issued' →
      userID = userID' ∧ stamped issued = stamped issued'
  /-- An accepted token was signed for an unexpired login, can be taken for no other one, and splits
  in no other way. -/
  accepts : ∀ signed token now userID, Presentable M key signed token →
    verifySession M key token now = some userID →
      ∃ issued, (userID, issued) ∈ signed ∧ Unexpired now (stamped issued) ∧
        SignedFor M key token userID issued ∧
        (∀ userID' issued', SignedFor M key token userID' issued' →
          userID' = userID ∧ stamped issued' = stamped issued) ∧
        ∀ first second third, token = first ++ [dot] ++ second ++ [dot] ++ third →
          first = formatInt userID ∧ second = formatInt issued.unix

/-! ### A token splits in one way -/

variable {M key} {first second third token sigHex : Bytes} {userID : Int64} {now issued : Moment}

theorem splitThree_append (hfirst : dot ∉ first) (hsecond : dot ∉ second) (hne : first ≠ [])
    (hne' : second ≠ []) (hne'' : third ≠ []) :
    splitThree (first ++ [dot] ++ second ++ [dot] ++ third) = some (first, second, third) := by
  have hassoc : first ++ [dot] ++ second ++ [dot] ++ third =
      first ++ [dot] ++ (second ++ [dot] ++ third) := by
    simp only [List.append_assoc]
  rw [hassoc, splitThree, cut_append hfirst]
  simp only [if_neg hne, cut_append hsecond, hne', hne'', or_self, if_false]

theorem of_splitThree (h : splitThree token = some (first, second, third)) :
    token = first ++ [dot] ++ second ++ [dot] ++ third ∧ dot ∉ first ∧ dot ∉ second := by
  rw [splitThree] at h
  split at h
  · nomatch h
  · rename_i first' rest hcut
    split_ifs at h
    split at h
    · nomatch h
    · rename_i second' third' hcut'
      split_ifs at h
      obtain ⟨rfl, hpair⟩ := Prod.mk.inj (Option.some.inj h)
      obtain ⟨rfl, rfl⟩ := Prod.mk.inj hpair
      refine ⟨?_, notMem_of_cut hcut, notMem_of_cut hcut'⟩
      rw [eq_of_cut hcut, eq_of_cut hcut']
      simp only [List.append_assoc]

/-- A text around the first dot. -/
theorem append_dot_inj {a b a' b' : Bytes} (ha : dot ∉ a) (ha' : dot ∉ a')
    (h : a ++ [dot] ++ b = a' ++ [dot] ++ b') : a = a' ∧ b = b' := by
  have hcut := cut_append ha b
  rw [h, cut_append ha'] at hcut
  obtain ⟨heq, heq'⟩ := Prod.mk.inj (Option.some.inj hcut)
  exact ⟨heq.symm, heq'.symm⟩

/-- A text of three parts without dots splits in one way, whatever the parts may hold. -/
theorem splits_unique {a b c : Bytes} (hfirst : dot ∉ first) (hsecond : dot ∉ second)
    (hthird : dot ∉ third)
    (h : a ++ [dot] ++ b ++ [dot] ++ c = first ++ [dot] ++ second ++ [dot] ++ third) :
    a = first ∧ b = second := by
  -- both sides hold two dots, so that none is left for `a` and `b`
  have hcount := congrArg (List.count dot) h
  simp only [List.count_append, List.count_eq_zero_of_not_mem hfirst,
    List.count_eq_zero_of_not_mem hsecond, List.count_eq_zero_of_not_mem hthird] at hcount
  have ha : dot ∉ a := List.count_eq_zero.mp (by omega)
  have hb : dot ∉ b := List.count_eq_zero.mp (by omega)
  rw [List.append_assoc (a ++ [dot]) b, List.append_assoc (first ++ [dot]) second,
    List.append_assoc (a ++ [dot]), List.append_assoc (first ++ [dot])] at h
  obtain ⟨heq, hrest⟩ := append_dot_inj ha hfirst h
  exact ⟨heq, (append_dot_inj hb hsecond hrest).1⟩

/-- Users and seconds of logins are read off the signed text. -/
theorem payload_inj {userID' : Int64} {issued' : Moment}
    (h : payload userID issued = payload userID' issued') :
    userID = userID' ∧ issued.unix = issued'.unix := by
  obtain ⟨huser, hstamp⟩ := append_dot_inj (dot_notMem_formatInt _) (dot_notMem_formatInt _) h
  exact ⟨formatInt_injective huser, formatInt_injective hstamp⟩

/-! ### Verification -/

/-- The age that verification computes, within the width of a duration. -/
theorem age_iff (now issued : Moment) :
    now.sub issued < 0 ∨ now.sub issued > sessionTTL ↔ ¬ Unexpired now issued := by
  have hmin : minDuration < 0 := by decide
  have hmin' : minDuration ≤ sessionTTL := by decide
  have hmax : (0 : ℤ) ≤ maxDuration := by decide
  have hmax' : sessionTTL < maxDuration := by decide
  rw [Moment.sub, gt_iff_lt, saturate_lt_iff hmin hmax, lt_saturate_iff hmin' hmax', Unexpired,
    not_and_or, not_le, not_le]

/-- What an accepted token holds. -/
theorem of_verifySession (h : verifySession M key token now = some userID) :
    ∃ uidStr stamp sigHex unix, splitThree token = some (uidStr, stamp, sigHex) ∧
      decodeHex sigHex = some (M.sum key (uidStr ++ [dot] ++ stamp)) ∧
      parseInt uidStr = some userID ∧ parseInt stamp = some unix ∧
      Unexpired now (Moment.ofUnix unix) := by
  rw [verifySession] at h
  split at h
  · nomatch h
  rename_i uidStr stamp sigHex hsplit
  split at h
  · nomatch h
  rename_i sig hsig
  -- the signature is over the two texts as they stand in the token
  split_ifs at h with hmac
  split at h
  · nomatch h
  rename_i user huser
  split at h
  · nomatch h
  rename_i unix hunix
  simp only [age_iff] at h
  split_ifs at h with hunexpired
  obtain rfl := Option.some.inj h
  rw [not_not.mp hmac] at hsig
  exact ⟨uidStr, stamp, sigHex, unix, hsplit, hsig, huser, hunix, hunexpired⟩

theorem splitThree_signSession (M : Mac) (key : Bytes) (userID : Int64) (issued : Moment) :
    splitThree (signSession M key userID issued) =
      some (formatInt userID, formatInt issued.unix,
        encodeHex (M.sum key (payload userID issued))) :=
  splitThree_append (dot_notMem_formatInt _) (dot_notMem_formatInt _) (formatInt_ne_nil _)
    (formatInt_ne_nil _) (encodeHex_ne_nil (M.sum_ne_nil _ _))

theorem verifySession_signSession (M : Mac) (key : Bytes) (userID : Int64)
    (issued now : Moment) :
    verifySession M key (signSession M key userID issued) now =
      if Unexpired now issued.second then some userID else none := by
  have hmac : ¬ M.sum key (payload userID issued) ≠
      M.sum key (formatInt userID ++ [dot] ++ formatInt issued.unix) := not_not.mpr rfl
  simp only [verifySession, splitThree_signSession, decodeHex_encodeHex, if_neg hmac,
    parseInt_formatInt, Moment.ofUnix_unix, age_iff, ite_not]

/-- A token that the server signed can be presented. -/
theorem presentable_signSession {signed : Set (Int64 × Moment)}
    (hsigned : (userID, issued) ∈ signed) :
    Presentable M key signed (signSession M key userID issued) := by
  intro first second third sig hsplit hsig _
  rw [splitThree_signSession] at hsplit
  obtain ⟨rfl, hpair⟩ := Prod.mk.inj (Option.some.inj hsplit)
  obtain ⟨rfl, rfl⟩ := Prod.mk.inj hpair
  rw [decodeHex_encodeHex] at hsig
  exact ⟨_, hsigned, (Option.some.inj hsig).symm⟩

/-- A token that is signed for a user and a login can be taken for no others. -/
theorem SignedFor.unique {userID' : Int64} {issued' : Moment}
    (h : SignedFor M key token userID issued) (h' : SignedFor M key token userID' issued') :
    userID = userID' ∧ issued.unix = issued'.unix := by
  obtain ⟨sigHex, htoken, hsig⟩ := h
  obtain ⟨sigHex', rfl, hsig'⟩ := h'
  have hsplit := splits_unique (dot_notMem_formatInt _) (dot_notMem_formatInt _)
    (dot_notMem_of_decodeHex hsig) htoken
  exact ⟨(formatInt_injective hsplit.1).symm, (formatInt_injective hsplit.2).symm⟩

/-- An accepted token is signed for a login that the server signed for. -/
theorem exists_signedFor {signed : Set (Int64 × Moment)}
    (hpresent : Presentable M key signed token) (h : verifySession M key token now = some userID) :
    ∃ issued, (userID, issued) ∈ signed ∧ Unexpired now issued.second ∧
      SignedFor M key token userID issued := by
  obtain ⟨uidStr, stamp, sigHex, unix, hsplit, hsig, huser, hunix, hunexpired⟩ := of_verifySession h
  obtain ⟨htoken, hdot, -⟩ := of_splitThree hsplit
  obtain ⟨⟨user, issued⟩, hsigned, hmac⟩ :=
    hpresent _ _ _ _ hsplit hsig (Set.mem_range_self _)
  -- the MAC determines the text it covers, and the numerals in it how they were written
  have htext := M.sum_injective key hmac
  obtain ⟨rfl, rfl⟩ := append_dot_inj hdot (dot_notMem_formatInt _) htext
  rw [parseInt_formatInt] at huser hunix
  obtain rfl := Option.some.inj huser
  obtain rfl := Option.some.inj hunix
  rw [Moment.ofUnix_unix] at hunexpired
  exact ⟨issued, hsigned, hunexpired, sigHex, htoken, hsig⟩

/-- **Tokens bind the user and the second of the login.** A signed token is accepted for its user
exactly while the login has not expired, and whatever else is accepted was signed for the one user and
second that it can be read as. -/
theorem bindsContent (M : Mac) (key : Bytes) : BindsContent M key Moment.second where
  verifies := verifySession_signSession M key
  separates := by
    intro userID issued userID' issued' h
    obtain ⟨huser, hunix⟩ := payload_inj h
    exact ⟨huser, Moment.second_eq_of_unix_eq hunix⟩
  accepts := by
    intro signed token now userID hpresent h
    obtain ⟨issued, hsigned, hunexpired, hfor⟩ := exists_signedFor hpresent h
    refine ⟨issued, hsigned, hunexpired, hfor, ?_, ?_⟩
    · intro userID' issued' hfor'
      obtain ⟨huser, hunix⟩ := hfor'.unique hfor
      exact ⟨huser, Moment.second_eq_of_unix_eq hunix⟩
    · intro first second third htoken
      obtain ⟨sigHex, htoken', hsig⟩ := hfor
      exact splits_unique (dot_notMem_formatInt _) (dot_notMem_formatInt _)
        (dot_notMem_of_decodeHex hsig) (htoken.symm.trans htoken')

/-- The key `secret`, and a login in the second 1750000000. -/
def secretKey : Bytes := ascii ['s', 'e', 'c', 'r', 'e', 't']

def loginAt : Moment := .ofUnix 1750000000

/-- The HMAC-SHA256 of `7.1750000000` under the key `secret`. -/
def loginDigest : Bytes :=
  [232, 224, 110, 250, 58, 220, 115, 162, 230, 252, 184, 45, 55, 184, 26, 114, 32, 229, 209, 125,
    19, 32, 218, 78, 244, 31, 40, 216, 128, 56, 140, 93]

/-- A MAC that agrees with HMAC-SHA256 on the login of the user 7. -/
def loginMac : Mac where
  sum key text := if key = secretKey ∧ text = payload 7 loginAt then loginDigest else 1 :: text
  sum_injective key text text' h := by
    have hhead : ∀ t, loginDigest ≠ 1 :: t := fun t heq =>
      absurd (List.cons.inj heq).1 (by decide)
    dsimp only at h
    split_ifs at h with hkey hkey' hkey'
    · exact hkey.2.trans hkey'.2.symm
    · exact (hhead _ h).elim
    · exact (hhead _ h.symm).elim
    · exact (List.cons.inj h).2
  sum_ne_nil key text := by
    split_ifs
    · exact List.cons_ne_nil _ _
    · exact List.cons_ne_nil _ _

/-- An hour later the user 7 is still logged in, and only because of this login. -/
theorem bindsContent_login :
    verifySession loginMac secretKey (signSession loginMac secretKey 7 loginAt)
        (.ofUnix 1750003600) = some 7 ∧
      Presentable loginMac secretKey {(7, loginAt)} (signSession loginMac secretKey 7 loginAt) ∧
      ∃ issued, ((7, issued) : Int64 × Moment) ∈ ({(7, loginAt)} : Set (Int64 × Moment)) ∧
        Unexpired (.ofUnix 1750003600) issued.second := by
  have hbinds := bindsContent loginMac secretKey
  have hverify : verifySession loginMac secretKey (signSession loginMac secretKey 7 loginAt)
      (.ofUnix 1750003600) = some 7 := by
    rw [hbinds.verifies, if_pos (by decide)]
  have hpresent : Presentable loginMac secretKey {(7, loginAt)}
      (signSession loginMac secretKey 7 loginAt) := presentable_signSession rfl
  obtain ⟨issued, hsigned, hunexpired, -⟩ := hbinds.accepts _ _ _ _ hpresent hverify
  exact ⟨hverify, hpresent, issued, hsigned, hunexpired⟩

/-- Two instants of one second get the same token. -/
theorem not_bindsContent_instants : ¬ BindsContent loginMac secretKey id := by
  intro hbinds
  have hlogins := hbinds.separates 7 loginAt 7 ⟨loginAt.sec, 1, by decide⟩ rfl
  exact absurd hlogins.2 (by decide)

end HubScope
