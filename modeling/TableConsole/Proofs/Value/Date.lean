import Mathlib.Algebra.Group.Nat.Defs
import Mathlib.Data.List.Basic
import TableConsole.Date

/-! # Reading written dates back

The three parts of a date have fixed widths, so the text of a date with a year of at most four
digits and no sign is read as the date.
-/

namespace TableConsole.Date

set_option autoImplicit false

section Padded

variable {width n : Nat}

theorem padded_ne_nil : padded width n ≠ [] :=
  List.append_ne_nil_of_right_ne_nil _ Nat.toDigits_ne_nil

theorem isDigit_of_mem_padded {c : Char} (h : c ∈ padded width n) : c.isDigit = true := by
  obtain hzero | hdigit := List.mem_append.mp h
  · rw [List.eq_of_mem_replicate hzero]
    rfl
  · exact Nat.isDigit_of_mem_toDigits (by decide) (by decide) hdigit

theorem natural?_padded : natural? (padded width n) = some n := by
  have hall : (padded width n).all Char.isDigit = true :=
    List.all_eq_true.mpr fun c => isDigit_of_mem_padded
  rw [natural?, if_pos ⟨padded_ne_nil, hall⟩, padded, Nat.ofDigitChars_append,
    Nat.ofDigitChars_replicate_zero, Nat.mul_zero, Nat.ofDigitChars_ten_toDigits]

theorem length_padded (hwidth : 0 < width) (hn : n < 10 ^ width) :
    (padded width n).length = width := by
  have hle : (Nat.toDigits 10 n).length ≤ width :=
    (Nat.length_toDigits_le_iff (by decide) hwidth).mpr hn
  rw [padded, List.length_append, List.length_replicate]
  omega

end Padded

def Signless (cs : List Char) : Prop :=
  ∀ c ∈ cs, c ≠ '+' ∧ c ≠ '-'

instance (cs : List Char) : Decidable (Signless cs) :=
  List.decidableBAll _ cs

theorem signless_of_class {p : Char → Bool} (hp : p '+' = false ∧ p '-' = false) {cs : List Char}
    (h : ∀ c ∈ cs, p c = true) : Signless cs := by
  intro c hc
  constructor <;> rintro rfl
  · exact absurd (h _ hc) (Bool.eq_false_iff.mp hp.1)
  · exact absurd (h _ hc) (Bool.eq_false_iff.mp hp.2)

theorem signless_padded {width n : Nat} : Signless (padded width n) :=
  signless_of_class (p := Char.isDigit) (by decide) fun _ => isDigit_of_mem_padded

theorem Signless.unsigned?_eq {cs : List Char} (h : Signless cs) : unsigned? cs = natural? cs := by
  unfold unsigned?
  split
  · exact absurd rfl (h '+' List.mem_cons_self).1
  · rfl

theorem Signless.signed?_eq {cs : List Char} (h : Signless cs) :
    signed? cs = (natural? cs).map Int.ofNat := by
  unfold signed?
  split
  · exact absurd rfl (h '-' List.mem_cons_self).2
  · rw [h.unsigned?_eq]
    cases natural? cs <;> rfl

theorem ofChars?_parts {ys ms ds : List Char} (hy : ys.length = 4) (hm : ms.length = 2)
    (hd : ds.length = 2) :
    ofChars? (ys ++ '.' :: ms ++ '.' :: ds) =
      (do of? (← signed? ys) (← unsigned? ms) (← unsigned? ds)) := by
  match ys, hy with
  | [y₁, y₂, y₃, y₄], _ =>
    obtain ⟨m₁, m₂, rfl⟩ := List.length_eq_two.mp hm
    obtain ⟨d₁, d₂, rfl⟩ := List.length_eq_two.mp hd
    rfl

/-- The years that have four places for their digits. -/
def HasPlainYear (d : Date) : Prop :=
  0 ≤ d.year ∧ d.year ≤ 9999

theorem month_lt (d : Date) : d.month < 10 ^ 2 := by
  have := d.isDate.2.1
  omega

theorem daysInMonth_le (year : Int) (month : Nat) : daysInMonth year month ≤ 31 := by
  unfold daysInMonth
  split <;> split <;> omega

theorem day_lt (d : Date) : d.day < 10 ^ 2 := by
  have hday := d.isDate.2.2.2
  have hmonth := daysInMonth_le d.year d.month
  omega

theorem yearChars_eq {d : Date} (h : d.HasPlainYear) : yearChars d.year = padded 4 d.year.natAbs :=
  if_neg (Int.not_lt.mpr h.1)

theorem ofChars?_toChars {d : Date} (h : d.HasPlainYear) : ofChars? d.toChars = some d := by
  have hyear : d.year.natAbs < 10 ^ 4 := by
    have := h.2
    have := h.1
    omega
  have hparts := ofChars?_parts (length_padded (by decide) hyear)
    (length_padded (by decide) d.month_lt) (length_padded (by decide) d.day_lt)
  rw [signless_padded.signed?_eq, signless_padded.unsigned?_eq, signless_padded.unsigned?_eq,
    natural?_padded, natural?_padded, natural?_padded] at hparts
  have hsign : ((d.year.natAbs : Nat) : Int) = d.year := Int.natAbs_of_nonneg h.1
  rw [toChars, yearChars_eq h, hparts]
  simpa [hsign] using d.of?_self

end TableConsole.Date
