import Mathlib.Data.Char
import Mathlib.Data.List.Basic
import Mathlib.Data.List.Lex
import Mathlib.Order.Basic
import Mathlib.Tactic.IntervalCases

/-!
# Dates and their texts

Days are counted from the first of January of the year 0, seconds within a day from its start.
The date of a day is found by taking off whole years, then whole months. Texts of dates have
digits of a fixed width with the larger unit first, so that as texts they are ordered as the
days are.

## Main definitions

* `Calendar.locate` — the unit a number falls in and its place there
* `Calendar.civil` — the date of a day
* `Calendar.dateText`, `Calendar.rfc3339` — texts of dates and of points in time

## Main results

* `Calendar.dateText_lt` — later days have greater texts
* `Calendar.rfc3339_midnight_le_iff` — a midnight with its zone compares with a UTC time by day
-/

set_option autoImplicit false

namespace Calendar

/-! ### Order of texts -/

variable {α : Type*} [LinearOrder α]

/-- Texts of one length are compared before what follows them. -/
theorem append_lt_append {a b : List α} (hlen : a.length = b.length) (h : a < b) (x y : List α) :
    a ++ x < b ++ y := by
  induction a generalizing b with
  | nil =>
    obtain rfl : b = [] := List.length_eq_zero_iff.mp hlen.symm
    exact absurd h (lt_irrefl _)
  | cons c a ih =>
    obtain ⟨d, b, rfl⟩ := List.exists_cons_of_length_eq_add_one hlen.symm
    rw [List.cons_lt_cons_iff] at h
    rw [List.cons_append, List.cons_append, List.cons_lt_cons_iff]
    rcases h with h | ⟨rfl, h⟩
    · exact Or.inl h
    · exact Or.inr ⟨rfl, ih (by simpa using hlen) h⟩

theorem append_lt_append_left (a : List α) {x y : List α} (h : x < y) : a ++ x < a ++ y := by
  induction a with
  | nil => exact h
  | cons c a ih => exact List.cons_lt_cons_iff.mpr (Or.inr ⟨rfl, ih⟩)

/-- The last `width` decimal digits. -/
def pad : ℕ → ℕ → List Char
  | 0, _ => []
  | width + 1, n => pad width (n / 10) ++ [Nat.digitChar (n % 10)]

@[simp] theorem length_pad (width n : ℕ) : (pad width n).length = width := by
  induction width generalizing n with
  | zero => rfl
  | succ width ih => simp [pad, ih]

theorem digitChar_lt {a b : ℕ} (h : a < b) (hb : b < 10) : Nat.digitChar a < Nat.digitChar b := by
  have hall : ∀ b < 10, ∀ a < b, Nat.digitChar a < Nat.digitChar b := by decide
  exact hall b hb a h

theorem pad_lt {width n m : ℕ} (h : n < m) (hm : m < 10 ^ width) : pad width n < pad width m := by
  induction width generalizing n m with
  | zero => omega
  | succ width ih =>
    have hbound : m / 10 < 10 ^ width := by
      rw [Nat.div_lt_iff_lt_mul (by norm_num), ← pow_succ]
      exact hm
    rcases (Nat.div_le_div_right h.le : n / 10 ≤ m / 10).lt_or_eq with hlt | heq
    · exact append_lt_append (by simp) (ih hlt hbound) _ _
    · have hlast : n % 10 < m % 10 := by omega
      rw [pad, pad, heq]
      refine append_lt_append_left _ (List.cons_lt_cons_iff.mpr (Or.inl ?_))
      exact digitChar_lt hlast (Nat.mod_lt _ (by norm_num))

/-! ### Dates -/

/-- Take off units of the given lengths from the `i`-th on: the unit the number falls in and its
place there. -/
def locate (len : ℕ → ℕ) : ℕ → ℕ → ℕ → ℕ × ℕ
  | 0, i, d => (i, d)
  | fuel + 1, i, d => if d < len i then (i, d) else locate len fuel (i + 1) (d - len i)

section Locate

variable {len : ℕ → ℕ}

theorem le_locate (fuel i d : ℕ) : i ≤ (locate len fuel i d).1 := by
  induction fuel generalizing i d with
  | zero => exact le_rfl
  | succ fuel ih =>
    rw [locate]
    split_ifs
    · exact le_rfl
    · exact (Nat.le_succ i).trans (ih (i + 1) _)

/-- The place is within its unit. -/
theorem locate_lt_len (hlen : ∀ i, 0 < len i) {fuel d : ℕ} (hfuel : d ≤ fuel) (i : ℕ) :
    (locate len fuel i d).2 < len (locate len fuel i d).1 := by
  induction fuel generalizing i d with
  | zero =>
    rw [locate, Nat.le_zero.mp hfuel]
    exact hlen i
  | succ fuel ih =>
    rw [locate]
    have hpos := hlen i
    split_ifs with h
    · exact h
    · exact ih (by omega) (i + 1)

/-- Units have a length of `c` at least, so there are not more of them than fit. -/
theorem locate_mul_le {c : ℕ} (hlen : ∀ i, c ≤ len i) (fuel i d : ℕ) :
    ((locate len fuel i d).1 - i) * c ≤ d := by
  induction fuel generalizing i d with
  | zero => simp [locate]
  | succ fuel ih =>
    rw [locate]
    split_ifs with h
    · simp
    · have hrest := ih (i + 1) (d - len i)
      have hle : i + 1 ≤ (locate len fuel (i + 1) (d - len i)).1 := le_locate _ _ _
      have hc := hlen i
      obtain ⟨k, hk⟩ := Nat.exists_eq_add_of_le hle
      rw [hk] at hrest ⊢
      have hsplit : (i + 1 + k - i) * c = c + (i + 1 + k - (i + 1)) * c := by
        rw [show i + 1 + k - i = 1 + (i + 1 + k - (i + 1)) by omega, Nat.add_mul, Nat.one_mul]
      omega

/-- A larger number falls in a later unit, or in the same one at a later place. -/
theorem locate_lt (hlen : ∀ i, 0 < len i) {fuel fuel' d d' : ℕ} (h : d < d') (hfuel : d ≤ fuel)
    (hfuel' : d' ≤ fuel') (i : ℕ) :
    (locate len fuel i d).1 < (locate len fuel' i d').1 ∨
      (locate len fuel i d).1 = (locate len fuel' i d').1 ∧
        (locate len fuel i d).2 < (locate len fuel' i d').2 := by
  induction fuel' generalizing fuel d d' i with
  | zero => omega
  | succ fuel' ih =>
    have hpos := hlen i
    rw [show locate len (fuel' + 1) i d' = if d' < len i then (i, d') else
      locate len fuel' (i + 1) (d' - len i) from rfl]
    by_cases hd' : d' < len i
    · rw [if_pos hd']
      cases fuel with
      | zero => exact Or.inr ⟨rfl, h⟩
      | succ fuel =>
        rw [locate, if_pos (h.trans hd')]
        exact Or.inr ⟨rfl, h⟩
    · rw [if_neg hd']
      have hnext : i + 1 ≤ (locate len fuel' (i + 1) (d' - len i)).1 := le_locate _ _ _
      cases fuel with
      | zero => exact Or.inl hnext
      | succ fuel =>
        rw [locate]
        by_cases hd : d < len i
        · rw [if_pos hd]
          exact Or.inl hnext
        · rw [if_neg hd]
          exact ih (by omega) (by omega) (by omega) (i + 1)

end Locate

def isLeap (year : ℕ) : Bool := year % 4 = 0 && (year % 100 ≠ 0 || year % 400 = 0)

def yearLength (year : ℕ) : ℕ := if isLeap year then 366 else 365

/-- The days of a month, which is counted from zero. -/
def monthLength (year month : ℕ) : ℕ :=
  match month with
  | 1 => if isLeap year then 29 else 28
  | 3 | 5 | 8 | 10 => 30
  | _ => 31

structure Date where
  year : ℕ
  month : ℕ
  day : ℕ
  deriving DecidableEq

/-- The date of a day, counted from the first of January of the year 0. -/
def civil (n : ℕ) : Date :=
  let (year, rest) := locate yearLength n 0 n
  let (month, day) := locate (monthLength year) rest 0 rest
  ⟨year, month + 1, day + 1⟩

/-- The weekday of a day, Sunday as zero. -/
def weekday (n : ℕ) : ℕ := (n + 6) % 7

theorem yearLength_bounds (year : ℕ) : 0 < yearLength year ∧ yearLength year ≤ 366 := by
  unfold yearLength
  split_ifs <;> omega

theorem monthLength_bounds (year month : ℕ) :
    28 ≤ monthLength year month ∧ monthLength year month ≤ 31 := by
  unfold monthLength
  split
  · split_ifs <;> omega
  all_goals omega

theorem monthLength_pos (year month : ℕ) : 0 < monthLength year month :=
  lt_of_lt_of_le (by norm_num) (monthLength_bounds year month).1

theorem civil_bounds (n : ℕ) : (civil n).month < 100 ∧ (civil n).day < 100 := by
  let at' := locate yearLength n 0 n
  have hday : at'.2 < yearLength at'.1 :=
    locate_lt_len (fun y => (yearLength_bounds y).1) le_rfl 0
  have hlen := (yearLength_bounds at'.1).2
  have hmonths := locate_mul_le (fun m => (monthLength_bounds at'.1 m).1) at'.2 0 at'.2
  have hplace := locate_lt_len (monthLength_pos at'.1) (le_refl at'.2) 0
  have hmonth := (monthLength_bounds at'.1 (locate (monthLength at'.1) at'.2 0 at'.2).1).2
  constructor
  · change (locate (monthLength at'.1) at'.2 0 at'.2).1 + 1 < 100
    omega
  · change (locate (monthLength at'.1) at'.2 0 at'.2).2 + 1 < 100
    omega

/-- A later day has a later date: the year counts first, then the month, then the day. -/
theorem civil_lt {n m : ℕ} (h : n < m) : (civil n).year < (civil m).year ∨
    (civil n).year = (civil m).year ∧ ((civil n).month < (civil m).month ∨
      (civil n).month = (civil m).month ∧ (civil n).day < (civil m).day) := by
  rcases locate_lt (fun y => (yearLength_bounds y).1) h le_rfl le_rfl 0 with hyear | ⟨hyear, hrest⟩
  · exact Or.inl hyear
  · refine Or.inr ⟨hyear, ?_⟩
    have hmonth := locate_lt (monthLength_pos (locate yearLength m 0 m).1) hrest le_rfl le_rfl 0
    simp only [civil, hyear]
    rcases hmonth with hmonth | ⟨hmonth, hday⟩
    · exact Or.inl (Nat.succ_lt_succ hmonth)
    · exact Or.inr ⟨congrArg (· + 1) hmonth, Nat.succ_lt_succ hday⟩

/-! ### Texts -/

def Date.text (d : Date) : List Char :=
  pad 4 d.year ++ ('-' :: pad 2 d.month ++ ('-' :: pad 2 d.day))

/-- The text of a day's date. -/
def dateText (n : ℕ) : List Char := (civil n).text

@[simp] theorem length_dateText (n : ℕ) : (dateText n).length = 10 := by
  simp [dateText, Date.text]

/-- **Later days have greater texts**, up to the year 9999. -/
theorem dateText_lt {n m : ℕ} (h : n < m) (hm : (civil m).year < 10000) :
    dateText n < dateText m := by
  obtain ⟨hmonth, hday⟩ := civil_bounds m
  unfold dateText Date.text
  rcases civil_lt h with hlt | ⟨heq, hlt | ⟨heq', hlt⟩⟩
  · exact append_lt_append (by simp) (pad_lt hlt hm) _ _
  · rw [heq]
    refine append_lt_append_left _ (append_lt_append (by simp) ?_ _ _)
    exact List.cons_lt_cons_iff.mpr (Or.inr ⟨rfl, pad_lt hlt hmonth⟩)
  · rw [heq, heq']
    refine append_lt_append_left _ (append_lt_append_left _ ?_)
    exact List.cons_lt_cons_iff.mpr (Or.inr ⟨rfl, pad_lt hlt hday⟩)

/-- Hours, minutes and seconds of a second of the day. -/
def clockText (second : ℕ) : List Char :=
  pad 2 (second / 3600) ++ (':' :: pad 2 (second / 60 % 60) ++ (':' :: pad 2 (second % 60)))

/-- The offset of a zone, given in seconds, in hours and minutes. -/
def zoneText (offset : ℤ) : List Char :=
  if offset = 0 then ['Z']
  else
    let minutes := (offset.tdiv 60).natAbs
    (if offset.tdiv 60 < 0 then '-' else '+') ::
      (pad 2 (minutes / 60) ++ (':' :: pad 2 (minutes % 60)))

/-- The RFC 3339 text of a local day and second in a zone. -/
def rfc3339 (day second : ℕ) (offset : ℤ) : List Char :=
  dateText day ++ ('T' :: clockText second ++ zoneText offset)

theorem clockText_zero_lt {second : ℕ} (hpos : 0 < second) (hday : second < 86400) :
    clockText 0 < clockText second := by
  unfold clockText
  rcases Nat.eq_zero_or_pos (second / 3600) with hhour | hhour
  · rcases Nat.eq_zero_or_pos (second / 60 % 60) with hminute | hminute
    · have hsecond : 0 < second % 60 := by omega
      rw [hhour, hminute]
      refine append_lt_append_left _ (append_lt_append_left _ ?_)
      exact List.cons_lt_cons_iff.mpr (Or.inr ⟨rfl, pad_lt hsecond (by omega)⟩)
    · rw [hhour]
      refine append_lt_append_left _ (append_lt_append (by simp) ?_ _ _)
      exact List.cons_lt_cons_iff.mpr (Or.inr ⟨rfl, pad_lt hminute (by omega)⟩)
  · exact append_lt_append (by simp) (pad_lt hhour (by omega)) _ _

/-- The letter for UTC is greater than the sign of any other offset. -/
theorem zoneText_le (offset : ℤ) : zoneText offset ≤ ['Z'] := by
  unfold zoneText
  split_ifs with hzero hneg
  · exact le_rfl
  · exact (List.cons_lt_cons_iff.mpr (Or.inl (by decide))).le
  · exact (List.cons_lt_cons_iff.mpr (Or.inl (by decide))).le

/-- **The text of a midnight in its zone is up to the text of a UTC time just when the local day
is up to the UTC day**, whatever the zone is. -/
theorem rfc3339_midnight_le_iff {day day' second : ℕ} (offset : ℤ) (hsecond : second < 86400)
    (hday : (civil day).year < 10000) (hday' : (civil day').year < 10000) :
    rfc3339 day 0 offset ≤ rfc3339 day' second 0 ↔ day ≤ day' := by
  constructor
  · intro h
    by_contra hlt
    exact absurd h (append_lt_append (by simp) (dateText_lt (not_le.mp hlt) hday) _ _).not_ge
  · intro h
    rcases h.lt_or_eq with hlt | rfl
    · exact (append_lt_append (by simp) (dateText_lt hlt hday') _ _).le
    · rcases Nat.eq_zero_or_pos second with rfl | hpos
      · rcases (zoneText_le offset).lt_or_eq with hzone | hzone
        · exact (append_lt_append_left _ (append_lt_append_left _ hzone)).le
        · rw [rfc3339, hzone]
          exact le_rfl
      · refine (append_lt_append_left _ (append_lt_append ?_ ?_ _ _)).le
        · simp [clockText]
        · exact List.cons_lt_cons_iff.mpr (Or.inr ⟨rfl, clockText_zero_lt hpos hsecond⟩)

end Calendar
