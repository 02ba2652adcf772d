import Mathlib.Data.List.Induction
import Mathlib.Data.Nat.Digits.Defs
import Mathlib.Tactic.IntervalCases
import TableConsole.Proofs.Syntax.Lexeme
import TableConsole.Proofs.Value.Json

/-! # Texts that are dates

A text without signs is a date exactly if it has four, two and two digits with points between them
and the calendar has the day that they name, and then the date is written as the text. A literal
has no signs. Other texts may have a sign in front of each part, which is not written again.
-/

namespace TableConsole

set_option autoImplicit false

namespace Date

def OnCalendar (year : Int) (month day : Nat) : Prop :=
  ∃ d : Std.Time.PlainDate, d.year.toInt = year ∧ d.month.val = month ∧ d.day.val = day

theorem isLeap_iff (year : Int) : Std.Time.Year.Offset.isLeap year = true ↔ IsLeapYear year := by
  have hdvd (n : Int) : year.tmod n = 0 ↔ year % n = 0 :=
    Int.dvd_iff_tmod_eq_zero.symm.trans Int.dvd_iff_emod_eq_zero
  rw [Std.Time.Year.Offset.isLeap, decide_eq_true_iff, IsLeapYear]
  change (year.tmod 4 = 0 ∧ (year.tmod 100 ≠ 0 ∨ year.tmod 400 = 0)) ↔ _
  rw [hdvd, hdvd, ne_eq, hdvd]
  omega

theorem days_eq {month : Nat} (hfirst : 1 ≤ month) (hlast : month ≤ 12) (year : Int) :
    (Std.Time.Month.Ordinal.days (Std.Time.Year.Offset.isLeap year)
      ⟨(month : Int), by omega, by omega⟩).val = daysInMonth year month := by
  by_cases hleap : IsLeapYear year
  · rw [(isLeap_iff year).mpr hleap]
    interval_cases month <;> simp [daysInMonth, hleap] <;> rfl
  · rw [Bool.eq_false_iff.mpr fun h => hleap ((isLeap_iff year).mp h)]
    interval_cases month <;> simp [daysInMonth, hleap] <;> rfl

theorem isDate_iff_onCalendar {year : Int} {month day : Nat} :
    IsDate year month day ↔ OnCalendar year month day := by
  constructor
  · rintro ⟨hfirst, hlast, hday, hdays⟩
    have hmax := daysInMonth_le year month
    refine ⟨⟨year, ⟨month, by omega, by omega⟩, ⟨day, by omega, by omega⟩, ?_⟩, rfl, rfl, rfl⟩
    change (day : Int) ≤ (Std.Time.Month.Ordinal.days _ _).val
    rw [days_eq hfirst hlast]
    omega
  · rintro ⟨⟨calendarYear, ⟨_, hfirst, hlast⟩, ⟨_, hday, _⟩, hvalid⟩, hyear, rfl, rfl⟩
    obtain rfl : calendarYear = year := hyear
    have hfirst : 1 ≤ month := by omega
    have hlast : month ≤ 12 := by omega
    change (day : Int) ≤ (Std.Time.Month.Ordinal.days _ _).val at hvalid
    rw [days_eq hfirst hlast] at hvalid
    exact ⟨hfirst, hlast, by omega, by omega⟩

/-- Digits of a number, zeros in front included. -/
structure Numeral (width n : Nat) (cs : List Char) : Prop where
  length : cs.length = width
  digits : ∀ c ∈ cs, c.isDigit = true
  value : Nat.ofDigitChars 10 cs 0 = n

def digitValue (c : Char) : Nat :=
  c.toNat - '0'.toNat

theorem digitValue_lt {c : Char} (h : c.isDigit = true) : digitValue c < 10 := by
  have hbounds : 48 ≤ c.toNat ∧ c.toNat ≤ 57 := Char.isDigit_iff_toNat.mp h
  change c.toNat - 48 < 10
  omega

theorem ofNat_digitValue {c : Char} (h : c.isDigit = true) :
    Char.ofNat (digitValue c + '0'.toNat) = c := by
  rw [digitValue, Nat.sub_add_cancel (Char.isDigit_iff_toNat.mp h).1, Char.ofNat_toNat]

/-- The digits of a numeral stand with the last one first in the library's lists of digits. -/
theorem ofDigitChars_eq_ofDigits (cs : List Char) :
    Nat.ofDigitChars 10 cs 0 = Nat.ofDigits 10 (cs.reverse.map digitValue) := by
  induction cs using List.reverseRecOn with
  | nil => rfl
  | append_singleton cs c ih =>
    rw [Nat.ofDigitChars_append, Nat.ofDigitChars_cons, Nat.ofDigitChars_nil, ih,
      List.reverse_concat, List.map_cons, Nat.ofDigits_cons, Nat.add_comm]
    rfl

namespace Numeral

variable {width n : Nat} {cs : List Char}

theorem digitValues_lt (h : Numeral width n cs) : ∀ v ∈ cs.reverse.map digitValue, v < 10 := by
  rw [List.forall_mem_map]
  exact fun c hc => digitValue_lt (h.digits c (List.mem_reverse.mp hc))

theorem lt (h : Numeral width n cs) : n < 10 ^ width := by
  have hlt := Nat.ofDigits_lt_base_pow_length (by decide) h.digitValues_lt
  rwa [← ofDigitChars_eq_ofDigits, h.value, List.length_map, List.length_reverse, h.length] at hlt

theorem signless (h : Numeral width n cs) : Signless cs :=
  signless_of_class (by decide) h.digits

theorem map_digitValues (h : Numeral width n cs) :
    (cs.reverse.map digitValue).map (fun v => Char.ofNat (v + '0'.toNat)) = cs.reverse := by
  rw [List.map_map]
  have hchars : ∀ c ∈ cs.reverse, Char.ofNat (digitValue c + '0'.toNat) = c :=
    fun c hc => ofNat_digitValue (h.digits c (List.mem_reverse.mp hc))
  exact (List.map_congr_left hchars).trans (List.map_id' cs.reverse)

theorem eq {ds : List Char} (h : Numeral width n cs) (h' : Numeral width n ds) : cs = ds := by
  have hvalues : cs.reverse.map digitValue = ds.reverse.map digitValue := by
    refine Nat.ofDigits_inj_of_len_eq (b := 10) (by decide) ?_ h.digitValues_lt h'.digitValues_lt ?_
    · simp [h.length, h'.length]
    · rw [← ofDigitChars_eq_ofDigits, ← ofDigitChars_eq_ofDigits, h.value, h'.value]
  rw [← List.reverse_inj, ← h.map_digitValues, ← h'.map_digitValues, hvalues]

theorem of_padded (hwidth : 0 < width) (hn : n < 10 ^ width) :
    Numeral width n (padded width n) where
  length := length_padded hwidth hn
  digits _ := isDigit_of_mem_padded
  value := by
    have hread := @natural?_padded width n
    rw [natural?] at hread
    split at hread
    · exact Option.some.inj hread
    · cases hread

theorem padded_eq (hwidth : 0 < width) (h : Numeral width n cs) : padded width n = cs :=
  (of_padded hwidth h.lt).eq h

end Numeral

theorem natural?_eq_some_iff {width n : Nat} {cs : List Char} (hwidth : 0 < width)
    (hlength : cs.length = width) : natural? cs = some n ↔ Numeral width n cs := by
  have hne : cs ≠ [] := List.ne_nil_of_length_pos (hlength ▸ hwidth)
  rw [natural?]
  constructor
  · intro h
    split at h
    · rename_i hdigits
      exact ⟨hlength, List.all_eq_true.mp hdigits.2, Option.some.inj h⟩
    · cases h
  · rintro ⟨-, hdigits, rfl⟩
    rw [if_pos ⟨hne, List.all_eq_true.mpr hdigits⟩]

theorem ofChars?_eq_some_iff {cs : List Char} {d : Date} :
    ofChars? cs = some d ↔ ∃ ys ms ds, cs = ys ++ '.' :: ms ++ '.' :: ds ∧
      (ys.length = 4 ∧ signed? ys = some d.year) ∧ (ms.length = 2 ∧ unsigned? ms = some d.month) ∧
      ds.length = 2 ∧ unsigned? ds = some d.day := by
  constructor
  · intro h
    unfold ofChars? at h
    split at h
    · rename_i y₁ y₂ y₃ y₄ m₁ m₂ d₁ d₂
      simp only [Option.bind_eq_bind, Option.bind_eq_some_iff] at h
      obtain ⟨year, hyear, month, hmonth, day, hday, hdate⟩ := h
      rw [of?] at hdate
      split at hdate
      · cases hdate
        exact ⟨[y₁, y₂, y₃, y₄], [m₁, m₂], [d₁, d₂], rfl, ⟨rfl, hyear⟩, ⟨rfl, hmonth⟩, rfl, hday⟩
      · cases hdate
    · cases h
  · rintro ⟨ys, ms, ds, rfl, ⟨hys, hyear⟩, ⟨hms, hmonth⟩, hds, hday⟩
    rw [ofChars?_parts hys hms hds, hyear, hmonth, hday]
    exact d.of?_self

def Written (cs : List Char) (year month day : Nat) : Prop :=
  ∃ ys ms ds, cs = ys ++ '.' :: ms ++ '.' :: ds ∧
    Numeral 4 year ys ∧ Numeral 2 month ms ∧ Numeral 2 day ds

theorem ofChars?_eq_some_iff_written {cs : List Char} (h : Signless cs) {d : Date} :
    ofChars? cs = some d ↔ ∃ year : Nat, year = d.year ∧ Written cs year d.month d.day := by
  rw [ofChars?_eq_some_iff]
  constructor
  · rintro ⟨ys, ms, ds, rfl, ⟨hys, hyear⟩, ⟨hms, hmonth⟩, hds, hday⟩
    simp only [Signless, List.forall_mem_append, List.forall_mem_cons] at h
    -- A part without a sign is read as its digits.
    obtain ⟨⟨hys', -, hms'⟩, -, hds'⟩ := h
    rw [Signless.signed?_eq hys', Option.map_eq_some_iff] at hyear
    rw [Signless.unsigned?_eq hms', natural?_eq_some_iff (by decide) hms] at hmonth
    rw [Signless.unsigned?_eq hds', natural?_eq_some_iff (by decide) hds] at hday
    obtain ⟨year, hyear, hcast⟩ := hyear
    rw [natural?_eq_some_iff (by decide) hys] at hyear
    exact ⟨year, hcast, ys, ms, ds, rfl, hyear, hmonth, hday⟩
  · rintro ⟨year, hcast, ys, ms, ds, rfl, hyear, hmonth, hday⟩
    refine ⟨ys, ms, ds, rfl, ⟨hyear.length, ?_⟩, ⟨hmonth.length, ?_⟩, hday.length, ?_⟩
    · rw [hyear.signless.signed?_eq, ← hcast,
        (natural?_eq_some_iff (by decide) hyear.length).mpr hyear]
      rfl
    · rw [hmonth.signless.unsigned?_eq, natural?_eq_some_iff (by decide) hmonth.length]
      exact hmonth
    · rw [hday.signless.unsigned?_eq, natural?_eq_some_iff (by decide) hday.length]
      exact hday

theorem Written.signless {cs : List Char} {year month day : Nat} (h : Written cs year month day) :
    Signless cs := by
  obtain ⟨ys, ms, ds, rfl, hys, hms, hds⟩ := h
  simp only [Signless, List.forall_mem_append, List.forall_mem_cons]
  exact ⟨⟨hys.signless, by decide, hms.signless⟩, by decide, hds.signless⟩

theorem toChars_of_written {cs : List Char} {d : Date} {year : Nat} (hyear : year = d.year)
    (h : Written cs year d.month d.day) : d.toChars = cs := by
  obtain ⟨ys, ms, ds, rfl, hys, hms, hds⟩ := h
  rw [toChars, yearChars, if_neg (by omega), ← hyear, Int.natAbs_natCast,
    hys.padded_eq (by decide), hms.padded_eq (by decide), hds.padded_eq (by decide)]

end Date

namespace Lexer

theorem wordToken_ne_literal (word : List Char) (d : Date) :
    wordToken word ≠ .literal (.date d) := by
  unfold wordToken
  split <;> nofun

theorem readNumber_eq_date {cs rest : List Char} {d : Date}
    (h : readNumber cs = .ok (.literal (.date d), rest)) :
    ∃ run, cs = run ++ rest ∧ (∀ c ∈ run, isNumeric c = true) ∧ Date.ofChars? run = some d := by
  obtain ⟨happend, hnumeric⟩ := numberRun_eq cs
  unfold readNumber at h
  dsimp only at h
  split at h
  · cases h
  split at h
  · cases h
  split at h
  · split at h
    · rename_i d' hdate
      cases h
      exact ⟨(numberRun cs).1, happend.symm, hnumeric, hdate⟩
    · cases h
  · cases h

theorem read_eq_date {c : Char} {cs rest : List Char} {d : Date}
    (h : read c cs = .ok (.literal (.date d), rest)) :
    readNumber (c :: cs) = .ok (.literal (.date d), rest) := by
  unfold read at h
  split at h
  · unfold readLess at h
    split at h <;> cases h
  split at h
  · unfold readGreater at h
    split at h <;> cases h
  split at h
  · unfold readText at h
    split at h <;> cases h
  split at h
  · cases h
  split at h
  · unfold readFunction at h
    split at h <;> cases h
  split at h
  · cases h
  split at h
  · exact h
  split at h
  · exact absurd (congrArg Prod.fst (Except.ok.inj h)) (wordToken_ne_literal _ d)
  · cases h

end Lexer

namespace Date

variable {s : String} {d : Date}

theorem exists_ofText?_iff (h : Signless s.toList) :
    (∃ d, ofText? s = some d) ↔
      ∃ year month day, Written s.toList year month day ∧ OnCalendar year month day := by
  constructor
  · rintro ⟨d, hd⟩
    obtain ⟨year, hyear, hwritten⟩ := (ofChars?_eq_some_iff_written h).mp hd
    exact ⟨year, d.month, d.day, hwritten, hyear ▸ isDate_iff_onCalendar.mp d.isDate⟩
  · rintro ⟨year, month, day, hwritten, hcalendar⟩
    refine ⟨⟨year, month, day, isDate_iff_onCalendar.mpr hcalendar⟩, ?_⟩
    exact (ofChars?_eq_some_iff_written h).mpr ⟨year, rfl, hwritten⟩

theorem toChars_of_ofChars? {cs : List Char} (h : Signless cs) (hd : ofChars? cs = some d) :
    d.toChars = cs := by
  obtain ⟨year, hyear, hwritten⟩ := (ofChars?_eq_some_iff_written h).mp hd
  exact toChars_of_written hyear hwritten

theorem text_of_ofText? (h : Signless s.toList) (hd : ofText? s = some d) : d.text = s := by
  rw [text, toChars_of_ofChars? h hd, String.ofList_toList]

theorem ofText?_of_ofJson (h : Value.ofJson (.text s) = .ok (.date d)) : ofText? s = some d := by
  have hvalue : Value.ofJsonText s = .date d := Except.ok.inj h
  unfold Value.ofJsonText at hvalue
  split at hvalue
  · cases hvalue
  · split at hvalue
    · rename_i hdate
      cases hvalue
      exact hdate
    · cases hvalue

theorem toChars_of_read {c : Char} {cs rest : List Char}
    (h : Lexer.read c cs = .ok (.literal (.date d), rest)) : c :: cs = d.toChars ++ rest := by
  obtain ⟨run, hcs, hnumeric, hdate⟩ := Lexer.readNumber_eq_date (Lexer.read_eq_date h)
  rw [hcs, toChars_of_ofChars? (signless_of_class (by decide) hnumeric) hdate]

/-- A text without signs is a date exactly if it is written as a day of the calendar, and the date
has the numbers and the text, also in a seed document. A text with a sign is not written as a day. A
date literal in front of the text is always written there. -/
theorem canonical_texts (s : String) :
    (Signless s.toList →
      ((∃ d, ofText? s = some d) ↔
        ∃ year month day, Written s.toList year month day ∧ OnCalendar year month day) ∧
      (∀ d, ofText? s = some d →
        (∃ year : Nat, year = d.year ∧ Written s.toList year d.month d.day) ∧ d.text = s) ∧
      ∀ d, Value.ofJson (.text s) = .ok (.date d) → d.text = s) ∧
    (¬ Signless s.toList → ∀ year month day, ¬ Written s.toList year month day) ∧
    ∀ c cs, s.toList = c :: cs → ∀ d rest,
      Lexer.read c cs = .ok (.literal (.date d), rest) → s.toList = d.text.toList ++ rest := by
  refine ⟨fun hs => ⟨exists_ofText?_iff hs, fun d hd => ⟨?_, text_of_ofText? hs hd⟩,
    fun d hd => ?_⟩, fun hs year month day h => hs h.signless, fun c cs hcs d rest hread => ?_⟩
  · exact (ofChars?_eq_some_iff_written hs).mp hd
  · exact text_of_ofText? hs (ofText?_of_ofJson hd)
  · rw [hcs, text, String.toList_ofList]
    exact toChars_of_read hread

/-- The leap day of the year zero, and a literal with text behind it. -/
theorem canonical_texts_zero :
    let d : Date := ⟨0, 2, 29, by decide⟩
    (∃ year month day, Written "0000.02.29".toList year month day ∧ OnCalendar year month day) ∧
      d.text = "0000.02.29" ∧ "0000.02.29+1".toList = d.text.toList ++ ['+', '1'] := by
  intro d
  obtain ⟨hexists, -, hseed⟩ := (canonical_texts "0000.02.29").1 (by decide)
  obtain ⟨-, -, hliteral⟩ := canonical_texts "0000.02.29+1"
  exact ⟨hexists.mp ⟨d, by decide⟩, hseed d rfl,
    hliteral '0' "000.02.29+1".toList rfl d ['+', '1'] rfl⟩

/-- A sign takes a place of a part, and the date does not have it in its text. -/
theorem signed_text_is_date :
    let s := "+123.+1.+1"
    let d : Date := ⟨123, 1, 1, by decide⟩
    ofText? s = some d ∧ Value.ofJson (.text s) = .ok (.date d) ∧ d.text = "0123.01.01" ∧
      ∀ year month day, ¬ Written s.toList year month day := by
  intro s d
  have hdate : ofText? s = some d := by decide
  have hseed : Value.ofJson (.text s) = .ok (.date d) := by
    rw [Value.ofJson, Value.ofJsonText_of_head? (by decide), hdate]
  exact ⟨hdate, hseed, by decide, fun year month day h => absurd h.signless (by decide)⟩

end Date

end TableConsole
