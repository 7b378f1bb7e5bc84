import Kdive.Lib.JsonText

/-!
Dates and times of a dynamic language in ISO 8601: the calendar, the text `isoformat` writes, and
the texts `fromisoformat` reads. A date is in one of the calendar or week forms, any character
stands before the time, and a time may come with an offset from UTC.
-/
namespace IsoTime
open JsonText (Str isDigit natOf)

section Calendar

def isLeap (year : Nat) : Bool := year % 4 == 0 && (year % 100 != 0 || year % 400 == 0)

def daysInMonth (year month : Nat) : Nat :=
  if month = 2 then if isLeap year then 29 else 28
  else if month ∈ [4, 6, 9, 11] then 30 else 31

def daysBeforeYear (year : Nat) : Nat :=
  (year - 1) * 365 + (year - 1) / 4 - (year - 1) / 100 + (year - 1) / 400

def daysBeforeMonth (year month : Nat) : Nat :=
  ((List.range (month - 1)).map (fun m => daysInMonth year (m + 1))).sum

/-- The number of a day, where the first of January of the year one is 1. -/
def ymd2ord (year month day : Nat) : Nat :=
  daysBeforeYear year + daysBeforeMonth year month + day

def monthDay (year : Nat) : Nat → Nat → Nat → Nat × Nat
  | 0, month, n => (month, n + 1)
  | turns + 1, month, n =>
    if n < daysInMonth year month then (month, n + 1)
    else monthDay year turns (month + 1) (n - daysInMonth year month)

def ord2ymd (ord : Nat) : Nat × Nat × Nat :=
  let n := ord - 1
  let n400 := n / 146097
  let n := n % 146097
  let n100 := n / 36524
  let n := n % 36524
  let n4 := n / 1461
  let n := n % 1461
  let n1 := n / 365
  let year := n400 * 400 + 1 + n100 * 100 + n4 * 4 + n1
  if n1 = 4 ∨ n100 = 4 then (year - 1, 12, 31)
  else (year, monthDay year 11 1 (n % 365))

def isoweek1monday (year : Nat) : Nat :=
  let firstday := ymd2ord year 1 1
  let firstweekday := (firstday + 6) % 7
  if 3 < firstweekday then firstday + 7 - firstweekday else firstday - firstweekday

def isoweekToGregorian (year week day : Nat) : Option (Nat × Nat × Nat) :=
  let first_weekday := ymd2ord year 1 1 % 7
  let long := first_weekday == 4 || first_weekday == 3 && isLeap year
  if 1 ≤ year ∧ year ≤ 9999 ∧ 0 < week ∧ (week < 53 ∨ week = 53 ∧ long) ∧ 0 < day ∧ day < 8 then
    some (ord2ymd (isoweek1monday year + (week - 1) * 7 + (day - 1)))
  else none

end Calendar

structure Clock where
  hour : Nat
  minute : Nat
  second : Nat
  micro : Nat
  deriving DecidableEq

def Clock.inRange (c : Clock) : Prop :=
  c.hour < 24 ∧ c.minute < 60 ∧ c.second < 60 ∧ c.micro < 1000000

instance (c : Clock) : Decidable c.inRange := by unfold Clock.inRange; infer_instance

def Clock.micros (c : Clock) : Nat :=
  ((c.hour * 60 + c.minute) * 60 + c.second) * 1000000 + c.micro

def clockOf (micros : Nat) : Clock :=
  ⟨micros / 3600000000, micros / 60000000 % 60, micros / 1000000 % 60, micros % 1000000⟩

/-- A `datetime`: its offset is in microseconds, and there is none without a time zone. -/
structure DateTime where
  year : Nat
  month : Nat
  day : Nat
  time : Clock
  offset : Option Int
  yearRange : 1 ≤ year ∧ year ≤ 9999
  monthRange : 1 ≤ month ∧ month ≤ 12
  dayRange : 1 ≤ day ∧ day ≤ daysInMonth year month
  timeRange : time.inRange
  offsetRange : ∀ o ∈ offset, o.natAbs < 86400000000
  deriving DecidableEq

def datetime (year month day : Nat) (time : Clock) (offset : Option Int) : Option DateTime :=
  if valid : (1 ≤ year ∧ year ≤ 9999) ∧ (1 ≤ month ∧ month ≤ 12) ∧
      (1 ≤ day ∧ day ≤ daysInMonth year month) ∧ time.inRange ∧
      ∀ o ∈ offset, o.natAbs < 86400000000 then
    some ⟨year, month, day, time, offset, valid.1, valid.2.1, valid.2.2.1, valid.2.2.2.1,
      valid.2.2.2.2⟩
  else none

/-- Microseconds since the day zero in UTC, of a time with an offset. -/
def DateTime.instant (t : DateTime) (offset : Int) : Int :=
  (ymd2ord t.year t.month t.day * 86400000000 + t.time.micros : Nat) - offset

section Writing

def pad : Nat → Nat → Str
  | 0, _ => []
  | width + 1, n => pad width (n / 10) ++ [48 + n % 10]

def formatTime (c : Clock) : Str :=
  pad 2 c.hour ++ [58] ++ pad 2 c.minute ++ [58] ++ pad 2 c.second ++
    if c.micro = 0 then [] else [46] ++ pad 6 c.micro

def formatOffset : Option Int → Str
  | none => []
  | some o =>
    let c := clockOf o.natAbs
    [if o < 0 then 45 else 43] ++ pad 2 c.hour ++ [58] ++ pad 2 c.minute ++
      if c.second = 0 ∧ c.micro = 0 then []
      else [58] ++ pad 2 c.second ++ if c.micro = 0 then [] else [46] ++ pad 6 c.micro

def DateTime.isoformat (t : DateTime) : Str :=
  pad 4 t.year ++ [45] ++ pad 2 t.month ++ [45] ++ pad 2 t.day ++ [84] ++ formatTime t.time ++
    formatOffset t.offset

end Writing

section Reading

def number (width : Nat) (text : Str) : Option (Nat × Str) :=
  if (text.take width).length = width ∧ (text.take width).all isDigit then
    some (natOf (text.take width), text.drop width)
  else none

def mark (present : Bool) (c : Nat) (text : Str) : Option Str :=
  if present then if text.head? = some c then some text.tail else none else some text

/-- `_find_isoformat_datetime_separator`. -/
def separatorLocation (text : Str) : Option Nat :=
  if text.length = 7 then some 7
  else if text[4]? = some 45 then
    if text[5]? = some 87 then
      if text[8]? = some 45 then
        if text.length = 9 then none
        else if text[10]?.any isDigit then some 8
        else some 10
      else some 8
    else some 10
  else if text[4]? = some 87 then
    let index := 7 + ((text.drop 7).takeWhile isDigit).length
    if index < 9 then some index else if index % 2 = 0 then some 7 else some 8
  else some 8

def weekday (dashes : Bool) (text : Str) : Option Nat :=
  if text = [] then some 1
  else (mark dashes 45 text).bind (fun text =>
    (number 1 text).bind (fun day => if day.2 = [] then some day.1 else none))

/-- `_parse_isoformat_date`. -/
def parseDate (text : Str) : Option (Nat × Nat × Nat) := do
  let year ← number 4 text
  let dashes := year.2.head? == some 45
  let rest ← mark dashes 45 year.2
  if rest.head? = some 87 then
    let week ← number 2 rest.tail
    let day ← weekday dashes week.2
    isoweekToGregorian year.1 week.1 day
  else
    let month ← number 2 rest
    let rest ← mark dashes 45 month.2
    let day ← number 2 rest
    if day.2 = [] then some (year.1, month.1, day.1) else none

def parseFraction : Str → Option Nat
  | [] => some 0
  | c :: digits =>
    if (c = 46 ∨ c = 44) ∧ digits ≠ [] ∧ digits.all isDigit then
      some (natOf (digits.take 6) * 10 ^ (6 - (digits.take 6).length))
    else none

/-- `_parse_hh_mm_ss_ff`. -/
def parseClock (text : Str) : Option Clock := do
  let hour ← number 2 text
  if hour.2 = [] then return ⟨hour.1, 0, 0, 0⟩
  let colons := hour.2.head? == some 58
  let rest ← mark colons 58 hour.2
  let minute ← number 2 rest
  if minute.2 = [] then return ⟨hour.1, minute.1, 0, 0⟩
  let rest ← mark colons 58 minute.2
  let second ← number 2 rest
  let micro ← parseFraction second.2
  return ⟨hour.1, minute.1, second.1, micro⟩

def isSign (c : Nat) : Bool := c == 43 || c == 45 || c == 90

def parseOffset : Str → Option (Option Int)
  | [] => some none
  | [90] => some (some 0)
  | c :: text =>
    if c = 90 then none
    else (parseClock text).bind (fun zone =>
      if zone.inRange then some (some (if c = 45 then -(zone.micros : Int) else zone.micros))
      else none)

def nextDay (year month day : Nat) : Nat × Nat × Nat :=
  if day < daysInMonth year month then (year, month, day + 1)
  else if month < 12 then (year, month + 1, 1) else (year + 1, 1, 1)

def atMidnight (date : Nat × Nat × Nat) (time : Clock) (offset : Option Int) : Option DateTime :=
  if time.hour = 24 ∧ date.2.1 ≤ 12 ∧ date.2.2 ≤ daysInMonth date.1 date.2.1 then
    if time.minute = 0 ∧ time.second = 0 ∧ time.micro = 0 then
      let next := nextDay date.1 date.2.1 date.2.2
      datetime next.1 next.2.1 next.2.2 ⟨0, 0, 0, 0⟩ offset
    else none
  else datetime date.1 date.2.1 date.2.2 time offset

def fromisoformat (text : Str) : Option DateTime := do
  if text.length < 7 then none
  let location ← separatorLocation text
  let date ← parseDate (text.take location)
  if text.length ≤ location then datetime date.1 date.2.1 date.2.2 ⟨0, 0, 0, 0⟩ none
  else
    let rest := text.drop (location + 1)
    let time ← parseClock (rest.takeWhile (fun c => !isSign c))
    let offset ← parseOffset (rest.dropWhile (fun c => !isSign c))
    atMidnight date time offset

end Reading

section RoundTrip

theorem length_pad : ∀ (width n : Nat), (pad width n).length = width := by
  intro width
  induction width with
  | zero =>
    intro n
    rfl
  | succ width ih =>
    intro n
    simp [pad, ih]

theorem isDigit_of_mem_pad : ∀ {width n : Nat}, ∀ c ∈ pad width n, isDigit c = true := by
  intro width
  induction width with
  | zero => simp [pad]
  | succ width ih =>
    intro n c inside
    rw [pad, List.mem_append, List.mem_singleton] at inside
    rcases inside with earlier | rfl
    · exact ih c earlier
    · simp only [isDigit, Bool.and_eq_true, decide_eq_true_eq]
      omega

theorem natOf_pad : ∀ {width n : Nat}, n < 10 ^ width → natOf (pad width n) = n := by
  intro width
  induction width with
  | zero =>
    intro n small
    have zero : n = 0 := by simpa using small
    rw [zero]
    rfl
  | succ width ih =>
    intro n small
    have earlier : natOf (pad width (n / 10)) = n / 10 := by
      apply ih
      rw [Nat.pow_succ] at small
      omega
    unfold natOf at earlier ⊢
    rw [pad, List.foldl_append, earlier]
    simp only [List.foldl_cons, List.foldl_nil]
    omega

theorem number_pad {width n : Nat} (small : n < 10 ^ width) (rest : Str) :
    number width (pad width n ++ rest) = some (n, rest) := by
  have taken : (pad width n ++ rest).take width = pad width n :=
    List.take_left' (length_pad width n)
  have dropped : (pad width n ++ rest).drop width = rest := List.drop_left' (length_pad width n)
  have digits : (pad width n).all isDigit = true :=
    List.all_eq_true.2 (fun c inside => isDigit_of_mem_pad c inside)
  rw [number, taken, dropped, natOf_pad small, if_pos ⟨length_pad width n, digits⟩]

theorem mark_present (c : Nat) (rest : Str) : mark true c (c :: rest) = some rest := by
  simp [mark]

theorem parseFraction_pad {n : Nat} (small : n < 1000000) :
    parseFraction (46 :: pad 6 n) = some n := by
  have digits : (pad 6 n).all isDigit = true :=
    List.all_eq_true.2 (fun c inside => isDigit_of_mem_pad c inside)
  have filled : pad 6 n ≠ [] := by
    rw [← List.length_pos_iff, length_pad]
    decide
  have whole : (pad 6 n).take 6 = pad 6 n := List.take_of_length_le (length_pad 6 n).le
  rw [parseFraction, if_pos ⟨.inl rfl, filled, digits⟩, whole, natOf_pad (by simpa using small),
    length_pad]
  simp

theorem parseClock_minutes {hour minute : Nat} (hours : hour < 24) (minutes : minute < 60) :
    parseClock (pad 2 hour ++ 58 :: pad 2 minute) = some ⟨hour, minute, 0, 0⟩ := by
  have first := number_pad (show hour < 10 ^ 2 by omega) (58 :: pad 2 minute)
  have second := number_pad (show minute < 10 ^ 2 by omega) []
  rw [List.append_nil] at second
  simp only [parseClock, first, Option.bind_eq_bind, Option.bind_some, reduceCtorEq, if_false,
    List.head?_cons, beq_self_eq_true, mark_present, second, if_true]
  rfl

theorem parseClock_seconds {c : Clock} (range : c.inRange) {tail : Str}
    (fraction : parseFraction tail = some c.micro) :
    parseClock (pad 2 c.hour ++ 58 :: (pad 2 c.minute ++ 58 :: (pad 2 c.second ++ tail))) =
      some c := by
  obtain ⟨hours, minutes, seconds, _⟩ := range
  have first := number_pad (show c.hour < 10 ^ 2 by omega)
    (58 :: (pad 2 c.minute ++ 58 :: (pad 2 c.second ++ tail)))
  have second := number_pad (show c.minute < 10 ^ 2 by omega) (58 :: (pad 2 c.second ++ tail))
  have third := number_pad (show c.second < 10 ^ 2 by omega) tail
  simp only [parseClock, first, Option.bind_eq_bind, Option.bind_some, reduceCtorEq, if_false,
    List.head?_cons, beq_self_eq_true, mark_present, second, third, fraction]
  rfl

theorem parseFraction_written {n : Nat} (small : n < 1000000) :
    parseFraction (if n = 0 then [] else [46] ++ pad 6 n) = some n := by
  split_ifs with zero
  · rw [zero]
    rfl
  · exact parseFraction_pad small

theorem parseClock_formatTime {c : Clock} (range : c.inRange) :
    parseClock (formatTime c) = some c := by
  have read := parseClock_seconds range (parseFraction_written range.2.2.2)
  unfold formatTime
  simpa using read

theorem micros_clockOf (n : Nat) : (clockOf n).micros = n := by
  unfold clockOf Clock.micros
  dsimp only
  omega

theorem inRange_clockOf {n : Nat} (small : n < 86400000000) : (clockOf n).inRange := by
  unfold clockOf Clock.inRange
  dsimp only
  omega

theorem parseClock_offset {c : Clock} (range : c.inRange) :
    parseClock (pad 2 c.hour ++ 58 :: (pad 2 c.minute ++
      if c.second = 0 ∧ c.micro = 0 then []
      else [58] ++ pad 2 c.second ++ if c.micro = 0 then [] else [46] ++ pad 6 c.micro)) =
      some c := by
  by_cases plain : c.second = 0 ∧ c.micro = 0
  · rw [if_pos plain, List.append_nil, parseClock_minutes range.1 range.2.1]
    obtain ⟨hour, minute, second, micro⟩ := c
    obtain ⟨rfl, rfl⟩ := plain
    rfl
  · have read := parseClock_seconds range (parseFraction_written range.2.2.2)
    rw [if_neg plain]
    simpa using read

theorem parseOffset_sign {c : Nat} (other : c ≠ 90) (text : Str) :
    parseOffset (c :: text) = (parseClock text).bind (fun zone =>
      if zone.inRange then some (some (if c = 45 then -(zone.micros : Int) else zone.micros))
      else none) := by
  unfold parseOffset
  split
  · simp_all
  · simp_all
  · simp_all

theorem parseOffset_formatOffset {offset : Option Int}
    (range : ∀ o ∈ offset, o.natAbs < 86400000000) :
    parseOffset (formatOffset offset) = some offset := by
  cases offset with
  | none => rfl
  | some o =>
    have small := inRange_clockOf (range o rfl)
    have whole := micros_clockOf o.natAbs
    have read := parseClock_offset small
    have shape : formatOffset (some o) = (if o < 0 then 45 else 43) ::
        (pad 2 (clockOf o.natAbs).hour ++ 58 :: (pad 2 (clockOf o.natAbs).minute ++
          if (clockOf o.natAbs).second = 0 ∧ (clockOf o.natAbs).micro = 0 then []
          else [58] ++ pad 2 (clockOf o.natAbs).second ++
            if (clockOf o.natAbs).micro = 0 then []
            else [46] ++ pad 6 (clockOf o.natAbs).micro)) := by
      simp [formatOffset]
    rw [shape, parseOffset_sign (by split <;> decide), read]
    simp only [Option.bind_some, if_pos small, whole]
    by_cases negative : o < 0
    · rw [if_pos negative, if_pos rfl]
      congr 2
      omega
    · rw [if_neg negative, if_neg (by decide)]
      congr 2
      omega

theorem not_isSign_of_isDigit {c : Nat} (digit : isDigit c = true) : isSign c = false := by
  simp only [isDigit, Bool.and_eq_true, decide_eq_true_eq] at digit
  simp only [isSign, Bool.or_eq_false_iff, beq_eq_false_iff_ne]
  omega

theorem not_isSign_formatTime (c : Clock) : ∀ d ∈ formatTime c, (!isSign d) = true := by
  intro d inside
  rw [Bool.not_eq_true']
  have fraction : d ∈ (if c.micro = 0 then [] else [46] ++ pad 6 c.micro) → isSign d = false := by
    split_ifs
    · simp
    · rw [List.mem_append, List.mem_singleton]
      rintro (rfl | digit)
      · rfl
      · exact not_isSign_of_isDigit (isDigit_of_mem_pad d digit)
  simp only [formatTime, List.mem_append, List.mem_singleton] at inside
  rcases inside with ((((digit | rfl) | digit) | rfl) | digit) | tail
  · exact not_isSign_of_isDigit (isDigit_of_mem_pad d digit)
  · rfl
  · exact not_isSign_of_isDigit (isDigit_of_mem_pad d digit)
  · rfl
  · exact not_isSign_of_isDigit (isDigit_of_mem_pad d digit)
  · exact fraction tail

theorem small_of_isDigit {c : Nat} (digit : isDigit c = true) : c < 128 := by
  simp only [isDigit, Bool.and_eq_true, decide_eq_true_eq] at digit
  omega

theorem small_pad {width n : Nat} : ∀ c ∈ pad width n, c < 128 :=
  fun c inside => small_of_isDigit (isDigit_of_mem_pad c inside)

theorem small_append {a b : Str} (left : ∀ c ∈ a, c < 128) (right : ∀ c ∈ b, c < 128) :
    ∀ c ∈ a ++ b, c < 128 :=
  fun c inside => (List.mem_append.1 inside).elim (left c) (right c)

theorem small_one {d : Nat} (small : d < 128) : ∀ c ∈ [d], c < 128 := by
  simpa using small

theorem small_formatTime (t : Clock) : ∀ c ∈ formatTime t, c < 128 := by
  unfold formatTime
  refine small_append (small_append (small_append (small_append (small_append small_pad
    (small_one (by decide))) small_pad) (small_one (by decide))) small_pad) ?_
  split
  · simp
  · exact small_append (small_one (by decide)) small_pad

theorem small_formatOffset (offset : Option Int) : ∀ c ∈ formatOffset offset, c < 128 := by
  cases offset with
  | none => simp [formatOffset]
  | some o =>
    have sign : (if o < 0 then 45 else 43) < 128 := by
      split <;> decide
    unfold formatOffset
    refine small_append (small_append (small_append (small_append (small_one sign) small_pad)
      (small_one (by decide))) small_pad) ?_
    split
    · simp
    · refine small_append (small_append (small_one (by decide)) small_pad) ?_
      split
      · simp
      · exact small_append (small_one (by decide)) small_pad

theorem small_isoformat (t : DateTime) : ∀ c ∈ t.isoformat, c < 128 := by
  unfold DateTime.isoformat
  exact small_append (small_append (small_append (small_append (small_append (small_append
    (small_append small_pad (small_one (by decide))) small_pad) (small_one (by decide))) small_pad)
    (small_one (by decide))) (small_formatTime t.time)) (small_formatOffset t.offset)

theorem head?_formatOffset (offset : Option Int) :
    ∀ d ∈ (formatOffset offset).head?, (!isSign d) = false := by
  cases offset with
  | none => simp [formatOffset]
  | some o =>
    intro d first
    have same : d = if o < 0 then 45 else 43 := by simpa [formatOffset] using first.symm
    rw [same]
    split <;> rfl

theorem parseDate_written {year month day : Nat} (years : year < 10000) (months : month < 100)
    (days : day < 100) :
    parseDate (pad 4 year ++ 45 :: (pad 2 month ++ 45 :: pad 2 day)) = some (year, month, day) := by
  have first := number_pad (show year < 10 ^ 4 by omega) (45 :: (pad 2 month ++ 45 :: pad 2 day))
  have second := number_pad (show month < 10 ^ 2 by omega) (45 :: pad 2 day)
  have third := number_pad (show day < 10 ^ 2 by omega) []
  rw [List.append_nil] at third
  have calendar : (pad 2 month ++ 45 :: pad 2 day).head? ≠ some 87 := by
    simp only [pad, List.nil_append, List.cons_append, List.head?_cons, Ne, Option.some.injEq]
    omega
  simp only [parseDate, first, Option.bind_eq_bind, Option.bind_some, List.head?_cons,
    beq_self_eq_true, mark_present, calendar, if_false, second, third, if_true]

theorem separatorLocation_written (year month day : Nat) (rest : Str) (some_time : rest ≠ []) :
    separatorLocation ((pad 4 year ++ 45 :: (pad 2 month ++ 45 :: pad 2 day)) ++ rest) = some 10 := by
  have long : ((pad 4 year ++ 45 :: (pad 2 month ++ 45 :: pad 2 day)) ++ rest).length ≠ 7 := by
    have := List.length_pos_iff.2 some_time
    simp only [List.length_append, List.length_cons, length_pad]
    omega
  have fourth : ((pad 4 year ++ 45 :: (pad 2 month ++ 45 :: pad 2 day)) ++ rest)[4]? = some 45 := by
    simp [pad]
  have fifth : ((pad 4 year ++ 45 :: (pad 2 month ++ 45 :: pad 2 day)) ++ rest)[5]? ≠ some 87 := by
    simp only [pad, List.nil_append, List.cons_append, List.getElem?_cons_succ,
      List.getElem?_cons_zero, Ne, Option.some.injEq]
    omega
  rw [separatorLocation, if_neg long, if_pos fourth, if_neg fifth]

theorem datetime_fields (t : DateTime) : datetime t.year t.month t.day t.time t.offset = some t := by
  rw [datetime, dif_pos ⟨t.yearRange, t.monthRange, t.dayRange, t.timeRange, t.offsetRange⟩]

theorem span_time (c : Clock) (offset : Option Int) :
    (formatTime c ++ formatOffset offset).takeWhile (fun d => !isSign d) = formatTime c ∧
      (formatTime c ++ formatOffset offset).dropWhile (fun d => !isSign d) =
        formatOffset offset := by
  rw [List.takeWhile_append_of_pos (not_isSign_formatTime c),
    List.dropWhile_append_of_pos (not_isSign_formatTime c)]
  have first := head?_formatOffset offset
  cases shape : formatOffset offset with
  | nil => simp
  | cons d rest =>
    have sign := first d (by simp [shape])
    simp only [List.takeWhile_cons, List.dropWhile_cons, sign, Bool.false_eq_true, if_false,
      List.append_nil, and_self]

theorem fromisoformat_isoformat (t : DateTime) : fromisoformat t.isoformat = some t := by
  have date_length : (pad 4 t.year ++ 45 :: (pad 2 t.month ++ 45 :: pad 2 t.day)).length = 10 := by
    simp [length_pad]
  have days : daysInMonth t.year t.month ≤ 31 := by
    unfold daysInMonth
    split_ifs <;> omega
  have date := parseDate_written (show t.year < 10000 by have := t.yearRange; omega)
    (show t.month < 100 by have := t.monthRange; omega)
    (show t.day < 100 by have := t.dayRange; omega)
  have shape : t.isoformat = (pad 4 t.year ++ 45 :: (pad 2 t.month ++ 45 :: pad 2 t.day)) ++
      84 :: (formatTime t.time ++ formatOffset t.offset) := by
    simp [DateTime.isoformat]
  have location := separatorLocation_written t.year t.month t.day
    (84 :: (formatTime t.time ++ formatOffset t.offset)) (List.cons_ne_nil _ _)
  have front : t.isoformat.take 10 = pad 4 t.year ++ 45 :: (pad 2 t.month ++ 45 :: pad 2 t.day) := by
    rw [shape]
    exact List.take_left' date_length
  have back : t.isoformat.drop 11 = formatTime t.time ++ formatOffset t.offset := by
    rw [shape, show 11 = 10 + 1 from rfl, ← List.drop_drop, List.drop_left' date_length]
    rfl
  rw [← shape] at location
  have long : 10 < t.isoformat.length := by
    rw [shape, List.length_append, date_length]
    simp
  obtain ⟨time, zone⟩ := span_time t.time t.offset
  have hours : t.time.hour ≠ 24 := by
    have := t.timeRange.1
    omega
  simp only [fromisoformat, Option.bind_eq_bind, location, Option.bind_some, front, date, back, time,
    zone, parseClock_formatTime t.timeRange, parseOffset_formatOffset t.offsetRange]
  rw [if_neg (by omega), if_neg (by omega), atMidnight, if_neg (fun wrong => hours wrong.1)]
  exact datetime_fields t

end RoundTrip

end IsoTime
