import OledDs18b20.Lib.Blocks

/-! The calendar of the `Time` library: seconds since 1970 in 32 bits, and the date and time that
they stand for. -/
namespace OledDs18b20.Clock
open Lib.Blocks

/-- `tmElements_t`. Years are counted from 1970, and Sunday is day 1 of the week. -/
structure TmElements where
  second : UInt8
  minute : UInt8
  hour : UInt8
  wday : UInt8
  day : UInt8
  month : UInt8
  year : UInt8
deriving DecidableEq

def leapYear (year : ℕ) : Bool :=
  (1970 + year) % 4 = 0 && ((1970 + year) % 100 ≠ 0 || (1970 + year) % 400 = 0)

def yearDays (year : ℕ) : ℕ := if leapYear year then 366 else 365

def monthDays : List ℕ := [31, 28, 31, 30, 31, 30, 31, 31, 30, 31, 30, 31]

/-- The length of a month, which is counted from 0 here. -/
def monthLength (year month : ℕ) : ℕ :=
  if month = 1 then if leapYear year then 29 else 28 else monthDays[month]?.getD 0

/-- The loop over the years, with the days up to the end of the year it stops at. The test is in
16 bits, and the year is a byte. -/
def yearLoop : ℕ → ℕ → ℕ → ℕ → Option (ℕ × ℕ)
  | 0, _, _, _ => none
  | fuel + 1, year, days, time =>
      let days := days + yearDays year
      if days % 2 ^ 16 ≤ time then yearLoop fuel ((year + 1) % 2 ^ 8) days time
      else some (year, days)

def monthLoop (year : ℕ) : ℕ → ℕ → ℕ → ℕ × ℕ
  | 0, month, time => (month, time)
  | turns + 1, month, time =>
      if time ≥ monthLength year month then
        monthLoop year turns (month + 1) (time - monthLength year month)
      else (month, time)

/-- `breakTime`; `none` if the loop over the years has not ended after 256 of them. -/
def breakTime (timeInput : UInt32) : Option TmElements := do
  let time := timeInput.toNat
  let second := time % 60
  let time := time / 60
  let minute := time % 60
  let time := time / 60
  let hour := time % 24
  let time := time / 24
  let wday := (time + 4) % 7 + 1
  let (year, days) ← yearLoop 256 0 0 time
  let time := time - (days - yearDays year)
  let (month, time) := monthLoop year 12 0 time
  return ⟨UInt8.ofNat second, UInt8.ofNat minute, UInt8.ofNat hour, UInt8.ofNat wday,
    UInt8.ofNat (time + 1), UInt8.ofNat (month + 1), UInt8.ofNat year⟩

def secsPerMin : UInt32 := 60
def secsPerHour : UInt32 := 3600
def secsPerDay : UInt32 := secsPerHour * 24

/-- One turn of the loop over the months in `makeTime`; `none` behind the end of `monthDays`. -/
def addMonth (year : ℕ) (seconds : UInt32) (i : ℕ) : Option UInt32 :=
  if i = 2 ∧ leapYear year then some (seconds + secsPerDay * 29)
  else monthDays[i - 1]?.map fun days => seconds + secsPerDay * UInt32.ofNat days

def makeTime (tm : TmElements) : Option UInt32 := do
  let seconds := tm.year.toUInt32 * (secsPerDay * 365)
  let seconds := (List.range tm.year.toNat).foldl
    (fun seconds i => if leapYear i then seconds + secsPerDay else seconds) seconds
  let seconds ← (List.range' 1 (tm.month.toNat - 1)).foldlM (addMonth tm.year.toNat) seconds
  let seconds := seconds + (tm.day.toUInt32 - 1) * secsPerDay
  let seconds := seconds + tm.hour.toUInt32 * secsPerHour
  let seconds := seconds + tm.minute.toUInt32 * secsPerMin
  return seconds + tm.second.toUInt32

namespace TmElements

def dayNumber (tm : TmElements) : ℕ :=
  start yearDays tm.year.toNat + start (monthLength tm.year.toNat) (tm.month.toNat - 1) +
    (tm.day.toNat - 1)

def moment (tm : TmElements) : ℕ :=
  ((tm.dayNumber * 24 + tm.hour.toNat) * 60 + tm.minute.toNat) * 60 + tm.second.toNat

structure Exists (tm : TmElements) : Prop where
  second : tm.second < 60
  minute : tm.minute < 60
  hour : tm.hour < 24
  month : 1 ≤ tm.month.toNat ∧ tm.month.toNat ≤ 12
  day : 1 ≤ tm.day.toNat ∧ tm.day.toNat ≤ monthLength tm.year.toNat (tm.month.toNat - 1)
  wday : tm.wday.toNat = (tm.dayNumber + 4) % 7 + 1

end TmElements

theorem yearDays_ge (year : ℕ) : 365 ≤ yearDays year := by
  unfold yearDays
  split_ifs <;> simp

theorem yearDays_le (year : ℕ) : yearDays year ≤ 366 := by
  unfold yearDays
  split_ifs <;> simp

theorem start_monthLength (year : ℕ) : start (monthLength year) 12 = yearDays year := by
  unfold start monthLength yearDays
  generalize leapYear year = leap
  cases leap <;> decide

theorem yearLoop_eq (fuel : ℕ) {year time : ℕ} (hfuel : year + fuel = 256)
    (hreached : start yearDays year ≤ time) (htime : time < 365 * 137) :
    ∃ found, yearLoop fuel year (start yearDays year) time =
        some (found, start yearDays (found + 1)) ∧
      Locates yearDays time found (time - start yearDays found) := by
  have hyear := mul_le_start yearDays_ge year
  induction fuel generalizing year with
  | zero => omega
  | succ fuel ih =>
      have hlong := yearDays_le year
      have hnext : start yearDays (year + 1) = start yearDays year + yearDays year :=
        start_succ year
      have hsmall : start yearDays (year + 1) % 2 ^ 16 = start yearDays (year + 1) :=
        Nat.mod_eq_of_lt (by omega)
      rw [yearLoop, ← hnext, hsmall]
      by_cases hmore : start yearDays (year + 1) ≤ time
      · have hnextYear := mul_le_start yearDays_ge (year + 1)
        have hbyte : (year + 1) % 2 ^ 8 = year + 1 := Nat.mod_eq_of_lt (by omega)
        rw [if_pos hmore, hbyte]
        exact ih (by omega) hmore hnextYear
      · rw [if_neg hmore]
        exact ⟨year, rfl, by omega, by omega⟩

theorem monthLoop_locates (year turns : ℕ) {month time : ℕ} (hturns : month + turns = 12)
    (htime : start (monthLength year) month + time < yearDays year) :
    Locates (monthLength year) (start (monthLength year) month + time)
      (monthLoop year turns month time).1 (monthLoop year turns month time).2 := by
  induction turns generalizing month time with
  | zero =>
      obtain rfl : month = 12 := by omega
      rw [start_monthLength] at htime
      omega
  | succ turns ih =>
      rw [monthLoop]
      split_ifs with hmore
      · have hstart : start (monthLength year) month + time =
            start (monthLength year) (month + 1) + (time - monthLength year month) := by
          rw [start_succ]
          omega
        rw [hstart] at htime ⊢
        exact ih (by omega) htime
      · exact ⟨rfl, Nat.lt_of_not_le hmore⟩

theorem breakTime_eq (t : UInt32) : ∃ year month day,
    Locates yearDays (t.toNat / 86400) year (t.toNat / 86400 - start yearDays year) ∧
    Locates (monthLength year) (t.toNat / 86400 - start yearDays year) month day ∧
    breakTime t = some ⟨UInt8.ofNat (t.toNat % 60), UInt8.ofNat (t.toNat / 60 % 60),
      UInt8.ofNat (t.toNat / 60 / 60 % 24), UInt8.ofNat ((t.toNat / 60 / 60 / 24 + 4) % 7 + 1),
      UInt8.ofNat (day + 1), UInt8.ofNat (month + 1), UInt8.ofNat year⟩ := by
  have hdays : t.toNat / 60 / 60 / 24 = t.toNat / 86400 := by omega
  have hbound := t.toNat_lt
  obtain ⟨year, hloop, hyear⟩ := yearLoop_eq 256 (Nat.zero_add 256)
    (Nat.zero_le (t.toNat / 86400)) (by omega)
  have hinside := hyear.inside
  have hmonth := monthLoop_locates year 12 (Nat.zero_add 12)
    (by rwa [start_zero, Nat.zero_add])
  rw [start_zero, Nat.zero_add] at hmonth
  refine ⟨year, _, _, hyear, hmonth, ?_⟩
  have hback : start yearDays (year + 1) - yearDays year = start yearDays year := by
    rw [start_succ, Nat.add_sub_cancel]
  rw [start_zero] at hloop
  unfold breakTime
  simp only [hdays, hloop, Option.bind_eq_bind, Option.bind_some, hback]
  rfl

theorem foldl_leapYear (years : ℕ) (seconds : UInt32) :
    (List.range years).foldl
        (fun seconds i => if leapYear i then seconds + secsPerDay else seconds) seconds +
      UInt32.ofNat years * (secsPerDay * 365) =
      seconds + secsPerDay * UInt32.ofNat (start yearDays years) := by
  induction years with
  | zero => simp
  | succ years ih =>
      rw [List.range_succ, List.foldl_append, start_succ, UInt32.ofNat_add, UInt32.ofNat_add]
      have hone : UInt32.ofNat 1 = 1 := rfl
      have hlong : UInt32.ofNat 366 = 366 := rfl
      rw [hone]
      unfold yearDays at ih ⊢
      by_cases hleap : leapYear years = true
      · simp only [List.foldl_cons, List.foldl_nil, hleap, if_true, hlong]
        grind
      · simp only [List.foldl_cons, List.foldl_nil, hleap]
        grind

theorem addMonth_eq (year : ℕ) (seconds : UInt32) {month : ℕ} (hmonth : month < 12) :
    addMonth year seconds (1 + month) =
      some (seconds + secsPerDay * UInt32.ofNat (monthLength year month)) := by
  unfold addMonth monthLength
  generalize leapYear year = leap
  cases leap <;> interval_cases month <;> rfl

theorem foldlM_addMonth (year : ℕ) (seconds : UInt32) {months : ℕ} (hmonths : months ≤ 12) :
    (List.range' 1 months).foldlM (addMonth year) seconds =
      some (seconds + secsPerDay * UInt32.ofNat (start (monthLength year) months)) := by
  induction months with
  | zero => simp
  | succ months ih =>
      rw [List.range'_1_concat, List.foldlM_append, ih (by omega)]
      simp only [Option.bind_eq_bind, Option.bind_some, List.foldlM_cons, List.foldlM_nil,
        addMonth_eq year _ (Nat.lt_of_succ_le hmonths), start_succ, UInt32.ofNat_add]
      apply congrArg some
      grind

theorem makeTime_eq {tm : TmElements} (hmonth : tm.month.toNat ≤ 12) (hday : 1 ≤ tm.day.toNat) :
    makeTime tm = some (UInt32.ofNat tm.moment) := by
  have hyears := foldl_leapYear tm.year.toNat (tm.year.toUInt32 * (secsPerDay * 365))
  rw [UInt32.ofNat_uInt8ToNat] at hyears
  have hday' : UInt32.ofNat (tm.day.toNat - 1) = tm.day.toUInt32 - 1 := by
    have hsplit : UInt32.ofNat (tm.day.toNat - 1 + 1) = tm.day.toUInt32 := by
      rw [Nat.sub_add_cancel hday, UInt32.ofNat_uInt8ToNat]
    have hone : UInt32.ofNat 1 = 1 := rfl
    rw [UInt32.ofNat_add, hone] at hsplit
    grind
  have hsixty : UInt32.ofNat 60 = 60 := rfl
  have htwenty : UInt32.ofNat 24 = 24 := rfl
  unfold makeTime
  simp only [foldlM_addMonth tm.year.toNat _ (by omega : tm.month.toNat - 1 ≤ 12),
    Option.bind_eq_bind, Option.bind_some]
  apply congrArg some
  unfold TmElements.moment TmElements.dayNumber
  simp only [UInt32.ofNat_add, UInt32.ofNat_mul, UInt32.ofNat_uInt8ToNat, hday', hsixty, htwenty]
  unfold secsPerDay secsPerHour secsPerMin at *
  grind

theorem toNat_ofNat_of_lt {value : ℕ} (h : value < 256) : (UInt8.ofNat value).toNat = value := by
  rw [UInt8.toNat_ofNat']
  exact Nat.mod_eq_of_lt h

theorem monthLength_le (year : ℕ) {month : ℕ} (hmonth : month < 12) :
    monthLength year month ≤ 31 := by
  unfold monthLength
  generalize leapYear year = leap
  cases leap <;> interval_cases month <;> decide

theorem breakTime_exists (t : UInt32) :
    ∃ tm, breakTime t = some tm ∧ tm.Exists ∧ tm.moment = t.toNat := by
  obtain ⟨year, month, day, hyear, hmonth, htm⟩ := breakTime_eq t
  have hbound := t.toNat_lt
  have hyears := mul_le_start yearDays_ge 137
  have hyearSmall : year < 137 := hyear.block_lt (by omega)
  have hmonthSmall : month < 12 := hmonth.block_lt (by
    rw [start_monthLength]
    exact hyear.inside)
  have hdaySmall := monthLength_le year hmonthSmall
  have hday := hmonth.inside
  have hplace := hyear.place_eq
  have hplace' := hmonth.place_eq
  refine ⟨_, htm, ?_⟩
  have hnumber : TmElements.dayNumber ⟨UInt8.ofNat (t.toNat % 60),
      UInt8.ofNat (t.toNat / 60 % 60), UInt8.ofNat (t.toNat / 60 / 60 % 24),
      UInt8.ofNat ((t.toNat / 60 / 60 / 24 + 4) % 7 + 1), UInt8.ofNat (day + 1),
      UInt8.ofNat (month + 1), UInt8.ofNat year⟩ = t.toNat / 86400 := by
    unfold TmElements.dayNumber
    simp only [toNat_ofNat_of_lt (by omega : year < 256),
      toNat_ofNat_of_lt (by omega : month + 1 < 256), toNat_ofNat_of_lt (by omega : day + 1 < 256),
      Nat.add_sub_cancel]
    omega
  constructor
  · constructor
    · simp only [UInt8.lt_iff_toNat_lt, toNat_ofNat_of_lt (by omega : t.toNat % 60 < 256)]
      exact Nat.mod_lt _ (by decide)
    · simp only [UInt8.lt_iff_toNat_lt, toNat_ofNat_of_lt (by omega : t.toNat / 60 % 60 < 256)]
      exact Nat.mod_lt _ (by decide)
    · simp only [UInt8.lt_iff_toNat_lt, toNat_ofNat_of_lt (by omega : t.toNat / 60 / 60 % 24 < 256)]
      exact Nat.mod_lt _ (by decide)
    · simp only [toNat_ofNat_of_lt (by omega : month + 1 < 256)]
      omega
    · simp only [toNat_ofNat_of_lt (by omega : year < 256),
        toNat_ofNat_of_lt (by omega : month + 1 < 256),
        toNat_ofNat_of_lt (by omega : day + 1 < 256), Nat.add_sub_cancel]
      omega
    · rw [hnumber, toNat_ofNat_of_lt (by omega)]
      omega
  · unfold TmElements.moment
    rw [hnumber]
    simp only [toNat_ofNat_of_lt (by omega : t.toNat % 60 < 256),
      toNat_ofNat_of_lt (by omega : t.toNat / 60 % 60 < 256),
      toNat_ofNat_of_lt (by omega : t.toNat / 60 / 60 % 24 < 256)]
    omega

namespace TmElements
variable {tm tm' : TmElements}

def yearDay (tm : TmElements) : ℕ :=
  start (monthLength tm.year.toNat) (tm.month.toNat - 1) + (tm.day.toNat - 1)

theorem Exists.locates_month (h : tm.Exists) :
    Locates (monthLength tm.year.toNat) tm.yearDay (tm.month.toNat - 1) (tm.day.toNat - 1) :=
  ⟨rfl, by have hday := h.day; omega⟩

theorem Exists.locates_year (h : tm.Exists) :
    Locates yearDays tm.dayNumber tm.year.toNat tm.yearDay := by
  refine ⟨Nat.add_assoc _ _ _, ?_⟩
  have hlast := h.locates_month.lt_start
  have hmonths := start_mono (monthLength tm.year.toNat)
    (by have hmonth := h.month; omega : tm.month.toNat - 1 + 1 ≤ 12)
  rw [start_monthLength] at hmonths
  omega

theorem Exists.unique (h : tm.Exists) (h' : tm'.Exists) (hmoment : tm.moment = tm'.moment) :
    tm = tm' := by
  have hunits : tm.second.toNat < 60 ∧ tm.minute.toNat < 60 ∧ tm.hour.toNat < 24 :=
    ⟨UInt8.lt_iff_toNat_lt.mp h.second, UInt8.lt_iff_toNat_lt.mp h.minute,
      UInt8.lt_iff_toNat_lt.mp h.hour⟩
  have hunits' : tm'.second.toNat < 60 ∧ tm'.minute.toNat < 60 ∧ tm'.hour.toNat < 24 :=
    ⟨UInt8.lt_iff_toNat_lt.mp h'.second, UInt8.lt_iff_toNat_lt.mp h'.minute,
      UInt8.lt_iff_toNat_lt.mp h'.hour⟩
  unfold moment at hmoment
  have hnumber : tm.dayNumber = tm'.dayNumber := by omega
  have hlocated := h'.locates_year
  rw [← hnumber] at hlocated
  obtain ⟨hyear, hday⟩ := h.locates_year.unique hlocated
  have hlocated' := h'.locates_month
  rw [← hyear, ← hday] at hlocated'
  obtain ⟨hmonth, hday'⟩ := h.locates_month.unique hlocated'
  have hwday := h.wday
  have hwday' := h'.wday
  rw [hnumber] at hwday
  have hmonths := h.month
  have hmonths' := h'.month
  have hdays := h.day
  have hdays' := h'.day
  cases tm
  cases tm'
  simp only [mk.injEq, ← UInt8.toNat_inj] at *
  omega

end TmElements

/-- `breakTime` and `makeTime` are each other's inverse, between all seconds of 32 bits and the
dates and times that exist before the end of them. -/
theorem breakTime_iff (t : UInt32) : (∃ tm, breakTime t = some tm) ∧
    ∀ tm, breakTime t = some tm ↔ tm.Exists ∧ tm.moment < 2 ^ 32 ∧ makeTime tm = some t := by
  obtain ⟨found, hfound, hexists, hmoment⟩ := breakTime_exists t
  refine ⟨⟨found, hfound⟩, fun tm => ?_⟩
  constructor
  · intro htm
    obtain rfl := Option.some.inj (hfound.symm.trans htm)
    refine ⟨hexists, hmoment ▸ t.toNat_lt, ?_⟩
    rw [makeTime_eq hexists.month.2 hexists.day.1, hmoment, UInt32.ofNat_toNat]
  · rintro ⟨htm, hsmall, hmake⟩
    rw [makeTime_eq htm.month.2 htm.day.1] at hmake
    have hvalue := congrArg UInt32.toNat (Option.some.inj hmake)
    rw [UInt32.toNat_ofNat', Nat.mod_eq_of_lt hsmall] at hvalue
    rw [hfound, hexists.unique htm (hmoment.trans hvalue.symm)]

end OledDs18b20.Clock
