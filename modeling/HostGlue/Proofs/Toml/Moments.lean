import HostGlue.Proofs.Toml.Gaps

/-!
# How the dates and times of a TOML text may be written

* `DateSpelled`, `TimeSpelled` and `OffsetSpelled`, the parts;
* **`MomentSpelled`, how a date, a time, or a date with a time may be written**, and
  `scanMoment_append`, that it is read. Behind a date and a blank a time may go on, but none does in
  front of what a value may stand in front of (`Follow.scanTime`).
-/

namespace HostGlue.Toml

/-! ## 1. The grammar -/

/-- So many digits that spell a number. -/
structure Fixed (count n : Nat) (cs : List Char) : Prop where
  length : cs.length = count
  digits : ∀ c ∈ cs, c.isDigit = true
  spelled : Digits.number 10 cs = n

/-- A date as it may be written. -/
inductive DateSpelled : List Char → Prop where
  | mk {year month day : Nat} {ys ms ds : List Char} (years : Fixed 4 year ys)
      (months : Fixed 2 month ms) (days : Fixed 2 day ds)
      (inRange : 1 ≤ month ∧ month ≤ 12 ∧ 1 ≤ day ∧ day ≤ daysIn year month) :
      DateSpelled (ys ++ '-' :: (ms ++ '-' :: ds))

/-- Hours and minutes as they may be written. -/
inductive HourMinuteSpelled : List Char → Prop where
  | mk {hour minute : Nat} {hs ms : List Char} (hours : Fixed 2 hour hs)
      (minutes : Fixed 2 minute ms) (inRange : hour ≤ 23 ∧ minute ≤ 59) :
      HourMinuteSpelled (hs ++ ':' :: ms)

/-- The fraction of a second as it may be written. -/
inductive SecondFractionSpelled : List Char → Prop where
  | none : SecondFractionSpelled []
  | some {d : Char} {ds : List Char} (first : d.isDigit = true)
      (others : ∀ c ∈ ds, c.isDigit = true) : SecondFractionSpelled ('.' :: d :: ds)

/-- A time as it may be written. -/
inductive TimeSpelled : List Char → Prop where
  | mk {second : Nat} {hs ss fs : List Char} (hours : HourMinuteSpelled hs)
      (seconds : Fixed 2 second ss) (inRange : second ≤ 60) (fraction : SecondFractionSpelled fs) :
      TimeSpelled (hs ++ ':' :: (ss ++ fs))

/-- An offset as it may be written, or none. -/
inductive OffsetSpelled : List Char → Prop where
  | none : OffsetSpelled []
  | utc {c : Char} (letter : c = 'Z' ∨ c = 'z') : OffsetSpelled [c]
  | hours {c : Char} {hs : List Char} (sign : c = '+' ∨ c = '-') (hours : HourMinuteSpelled hs) :
      OffsetSpelled (c :: hs)

/-- **A date, a time, or a date with a time as it may be written.** -/
inductive MomentSpelled : List Char → Prop where
  | date {ds : List Char} (date : DateSpelled ds) : MomentSpelled ds
  | time {ts : List Char} (time : TimeSpelled ts) : MomentSpelled ts
  | both {c : Char} {ds ts os : List Char} (date : DateSpelled ds)
      (between : c = 'T' ∨ c = 't' ∨ c = ' ') (time : TimeSpelled ts) (offset : OffsetSpelled os) :
      MomentSpelled (ds ++ c :: (ts ++ os))

/-! ## 2. Reading a date or a time -/

theorem of_scanFixed {count : Nat} {cs rest : List Char} {n : Nat}
    (h : scanFixed count cs = some (n, rest)) :
    (cs.take count).length = count ∧ (∀ c ∈ cs.take count, c.isDigit = true) ∧
      rest = cs.drop count := by
  unfold scanFixed at h
  dsimp only at h
  split at h
  · rename_i hds
    cases h
    exact ⟨hds.1, List.all_eq_true.mp hds.2, rfl⟩
  · cases h

/-- So many digits do not stand at the start of a text that begins with something else. -/
theorem scanFixed_eq_none {count : Nat} (hcount : 0 < count) {c : Char} (hc : c.isDigit = false)
    (cs : List Char) : scanFixed count (c :: cs) = none := by
  obtain ⟨count, rfl⟩ := Nat.exists_eq_succ_of_ne_zero (Nat.pos_iff_ne_zero.mp hcount)
  rw [Option.eq_none_iff_forall_not_mem]
  rintro ⟨n, rest⟩ h
  obtain ⟨-, hdigits, -⟩ := of_scanFixed h
  rw [List.take_succ_cons] at hdigits
  rw [hdigits c List.mem_cons_self] at hc
  cases hc

/-- A text that begins with no digit begins with no date and no time. -/
theorem scanMoment_eq_none {c : Char} (hc : c.isDigit = false) (cs : List Char) :
    scanMoment (c :: cs) = none := by
  rw [scanMoment, scanDate, scanFixed_eq_none (by decide) hc]
  simp only [Option.bind_eq_bind, Option.bind_none]
  rw [scanTime, scanHourMinute, scanFixed_eq_none (by decide) hc]
  rfl

theorem scanFixed_append {count n : Nat} {cs : List Char} (h : Fixed count n cs)
    (rest : List Char) : scanFixed count (cs ++ rest) = some (n, rest) := by
  obtain ⟨rfl, hdigits, rfl⟩ := h
  rw [scanFixed]
  simp only [List.take_left, List.drop_left, List.all_eq_true.mpr hdigits, and_self, if_true]

theorem Fixed.begins {count n : Nat} {cs : List Char} (h : Fixed (count + 1) n cs) :
    ∃ d tail, cs = d :: tail ∧ d.isDigit = true := by
  rcases cs with _ | ⟨d, tail⟩
  · cases h.length
  · exact ⟨d, tail, rfl, h.digits d List.mem_cons_self⟩

theorem scanChar_append (c : Char) (rest : List Char) : scanChar c (c :: rest) = some rest :=
  if_pos rfl

theorem scanDate_append {ds : List Char} (h : DateSpelled ds) (rest : List Char) :
    scanDate (ds ++ rest) = some rest := by
  cases h with
  | mk years months days inRange =>
    simp only [List.append_assoc, List.cons_append]
    rw [scanDate, scanFixed_append years]
    simp only [Option.bind_eq_bind, Option.bind_some, scanChar_append, scanFixed_append months,
      scanFixed_append days]
    exact if_pos inRange

theorem scanHourMinute_append {hs : List Char} (h : HourMinuteSpelled hs) (rest : List Char) :
    scanHourMinute (hs ++ rest) = some rest := by
  cases h with
  | mk hours minutes inRange =>
    rw [List.append_assoc, List.cons_append, scanHourMinute, scanFixed_append hours]
    simp only [Option.bind_eq_bind, Option.bind_some, scanChar_append, scanFixed_append minutes]
    exact if_pos inRange

theorem scanSecondFraction_append {fs : List Char} (h : SecondFractionSpelled fs)
    {rest : List Char} (hrest : NotAhead (fun c => c.isDigit || c == '.') rest) :
    scanSecondFraction (fs ++ rest) = rest := by
  cases h with
  | none =>
    rw [List.nil_append]
    unfold scanSecondFraction
    split
    · exact absurd (hrest _ rfl) (by decide)
    · rfl
  | some first others =>
    have hends : NotAhead Char.isDigit rest := hrest.mono fun c hc => by rw [hc, Bool.true_or]
    rw [List.cons_append, List.cons_append, scanSecondFraction, if_pos first]
    exact dropWhile_append others hends

theorem scanTime_append {ts : List Char} (h : TimeSpelled ts) {rest : List Char}
    (hrest : NotAhead (fun c => c.isDigit || c == '.') rest) :
    scanTime (ts ++ rest) = some rest := by
  cases h with
  | mk hours seconds inRange fraction =>
    simp only [List.append_assoc, List.cons_append]
    rw [scanTime, scanHourMinute_append hours]
    simp only [Option.bind_eq_bind, Option.bind_some, scanChar_append, scanFixed_append seconds,
      scanSecondFraction_append fraction hrest]
    exact if_pos inRange

theorem scanOffset_append {os : List Char} (h : OffsetSpelled os) {rest : List Char}
    (hrest : NotAhead (fun c => c == 'Z' || c == 'z' || c == '+' || c == '-') rest) :
    scanOffset (os ++ rest) = rest := by
  cases h with
  | none =>
    rcases rest with _ | ⟨c, rest⟩
    · rfl
    · have hc := hrest c rfl
      simp only [Bool.or_eq_false_iff] at hc
      simp only [List.nil_append, scanOffset, hc, Bool.or_self, Bool.false_eq_true, if_false]
  | utc letter => rcases letter with rfl | rfl <;> rfl
  | @hours c hs sign hours =>
    have hread : scanHourMinute (hs ++ rest) = some rest := scanHourMinute_append hours rest
    rcases sign with rfl | rfl <;> simp [scanOffset, hread]

/-- How an offset begins. -/
theorem notAhead_offset {os : List Char} (h : OffsetSpelled os) {rest : List Char}
    (hrest : NotAhead (fun c => c.isDigit || c == '.') rest) :
    NotAhead (fun c => c.isDigit || c == '.') (os ++ rest) := by
  cases h with
  | none => exact hrest
  | utc letter => rcases letter with rfl | rfl <;> exact notAhead_cons (by decide) _
  | hours sign => rcases sign with rfl | rfl <;> exact notAhead_cons (by decide) _

/-- A text that begins with no digit begins with no time. -/
theorem scanTime_eq_none {cs : List Char} (h : NotAhead Char.isDigit cs) : scanTime cs = none := by
  rcases cs with _ | ⟨c, cs⟩
  · rfl
  · rw [scanTime, scanHourMinute, scanFixed_eq_none (by decide) (h c rfl)]
    rfl

/-- Behind a date and a blank no time goes on. -/
theorem Follow.scanTime {cs : List Char} (h : Follow (' ' :: cs)) : scanTime cs = none := by
  obtain ⟨ws, tail, heq, hws, htail⟩ := h
  rcases ws with _ | ⟨w, ws⟩
  · rw [List.nil_append] at heq
    subst heq
    exact absurd (htail ' ' rfl) (by decide)
  · have hcs : cs = ws ++ tail := (List.cons.inj heq).2
    have hfollow : Follow cs :=
      ⟨ws, tail, hcs, fun c hc => hws c (List.mem_cons_of_mem w hc), htail⟩
    exact scanTime_eq_none (hfollow.notAhead (by decide) (by decide))

theorem DateSpelled.begins {ds : List Char} (h : DateSpelled ds) :
    ∃ d tail, ds = d :: tail ∧ d.isDigit = true := by
  cases h with
  | mk years =>
    obtain ⟨d, tail, rfl, hd⟩ := years.begins
    exact ⟨d, _, rfl, hd⟩

theorem TimeSpelled.begins {ts : List Char} (h : TimeSpelled ts) :
    ∃ d tail, ts = d :: tail ∧ d.isDigit = true := by
  cases h with
  | mk hours =>
    cases hours with
    | mk hours =>
      obtain ⟨d, tail, rfl, hd⟩ := hours.begins
      exact ⟨d, _, rfl, hd⟩

/-- Two digits and a colon are no four digits. -/
theorem scanFixed_colon {hour : Nat} {hs : List Char} (hours : Fixed 2 hour hs)
    (rest : List Char) : scanFixed 4 (hs ++ ':' :: rest) = none := by
  rw [Option.eq_none_iff_forall_not_mem]
  rintro ⟨n, behind⟩ hread
  obtain ⟨-, hdigits, -⟩ := of_scanFixed hread
  have hmem : ':' ∈ (hs ++ ':' :: rest).take 4 := by
    rw [show 4 = hs.length + 2 by rw [hours.length], List.take_length_add_append]
    exact List.mem_append_right hs List.mem_cons_self
  exact absurd (hdigits ':' hmem) (by decide)

/-- A time begins with two digits only. -/
theorem TimeSpelled.scanDate {ts : List Char} (h : TimeSpelled ts) (rest : List Char) :
    scanDate (ts ++ rest) = none := by
  cases h with
  | mk hours =>
    cases hours with
    | @mk _ _ hs _ hours =>
      simp only [List.append_assoc, List.cons_append]
      rw [Toml.scanDate, scanFixed_colon hours]
      rfl

/-- **A date or a time is read**, whatever a value may stand in front of. -/
theorem scanMoment_append {cs : List Char} (h : MomentSpelled cs) {rest : List Char}
    (hrest : Follow rest) : scanMoment (cs ++ rest) = some rest := by
  have hends : NotAhead (fun c => c.isDigit || c == '.') rest :=
    hrest.notAhead (by decide) (by decide)
  have hoffset : NotAhead (fun c => c == 'Z' || c == 'z' || c == '+' || c == '-') rest :=
    hrest.notAhead (by decide) (by decide)
  cases h with
  | date date =>
    rw [scanMoment, scanDate_append date]
    rcases rest with _ | ⟨c, behind⟩
    · rfl
    · have hletter := hrest.notAhead (p := fun c => c == 'T' || c == 't') (by decide) (by decide) c rfl
      dsimp only at hletter ⊢
      rw [hletter, Bool.false_or]
      split
      · rename_i hblank
        obtain rfl := eq_of_beq hblank
        rw [hrest.scanTime]
      · rfl
  | time time =>
    rw [scanMoment, time.scanDate]
    exact scanTime_append time hends
  | both date between time offset =>
    have hbetween : ∀ c : Char, c = 'T' ∨ c = 't' ∨ c = ' ' →
        (c == 'T' || c == 't' || c == ' ') = true := by
      rintro c (rfl | rfl | rfl) <;> decide
    rw [List.append_assoc, List.cons_append, List.append_assoc, scanMoment, scanDate_append date]
    dsimp only
    rw [if_pos (hbetween _ between), scanTime_append time (notAhead_offset offset hends)]
    exact congrArg some (scanOffset_append offset hoffset)

/-- How a date or a time begins. -/
theorem MomentSpelled.begins {cs : List Char} (h : MomentSpelled cs) :
    ∃ d tail, cs = d :: tail ∧ d.isDigit = true := by
  cases h with
  | date date => exact date.begins
  | time time => exact time.begins
  | both date =>
    obtain ⟨d, tail, rfl, hd⟩ := date.begins
    exact ⟨d, _, rfl, hd⟩

end HostGlue.Toml
