import TableConsole.Eval.Operator
import TableConsole.Proofs.Number.Equality

/-! # Membership and key equality

A value is a member of a list if it equals an item as an operand does. That is key equality but for
two exceptions: a missing number equals no operand, and a boolean equals the number it counts as.
-/

namespace TableConsole

set_option autoImplicit false

namespace Value

/-- Two missing numbers, or a boolean and the number it counts as. -/
inductive Discordant : Value → Value → Prop
  | missing {x y : Float} : x.isNaN = true → y.isNaN = true → Discordant (.number x) (.number y)
  | booleanLeft {b : Bool} {y : Float} : ((if b then 1 else 0) == y) = true →
      Discordant (.boolean b) (.number y)
  | booleanRight {x : Float} {b : Bool} : (x == if b then 1 else 0) = true →
      Discordant (.number x) (.boolean b)

variable {v w : Value}

theorem number?_eq_some_iff {x : Float} :
    v.number? = some x ↔ v = .number x ∨ ∃ b : Bool, v = .boolean b ∧ x = if b then 1 else 0 := by
  cases v with
  | atom a => cases a <;> simp [number?, Atom.number?, eq_comm]
  | list | table | function => simp [number?]

theorem Discordant.exists_numbers (h : v.Discordant w) :
    (∃ x, v.number? = some x) ∧ ∃ y, w.number? = some y := by
  cases h <;> exact ⟨⟨_, rfl⟩, _, rfl⟩

theorem equals_of_not_number (h : v.number? = none ∨ w.number? = none) :
    v.equals w = v.sameKey w := by
  unfold equals
  split
  · rename_i hv hw
    simp [hv, hw] at h
  · rfl

theorem equals_number_iff {x y : Float} :
    (Value.number x).equals (.number y) = (Value.number x).sameKey (.number y) ↔
      ¬ (x.isNaN = true ∧ y.isNaN = true) := by
  have hequals : (Value.number x).equals (.number y) = (x == y) := rfl
  have hsame : (Value.number x).sameKey (.number y) = (x == y || (x.isNaN && y.isNaN)) := by
    rw [sameKey, agree, Atom.agree, sameNumber]
  rw [hequals, hsame, ← Bool.and_eq_true]
  cases hmissing : x.isNaN && y.isNaN with
  | false => rw [Bool.or_false]; exact iff_of_true rfl Bool.false_ne_true
  | true => rw [Number.beq_eq_false_of_isNaN (Bool.and_eq_true_iff.mp hmissing).1]; decide

theorem equals_boolean (b c : Bool) :
    (Value.boolean b).equals (.boolean c) = (Value.boolean b).sameKey (.boolean c) := by
  cases b <;> cases c <;> decide +kernel

/-- The two equalities differ on discordant values and on no others. -/
theorem equals_eq_sameKey_iff : v.equals w = v.sameKey w ↔ ¬ v.Discordant w := by
  by_cases hnumbers : v.number? = none ∨ w.number? = none
  · refine iff_of_true (equals_of_not_number hnumbers) fun h => ?_
    obtain ⟨⟨x, hv⟩, y, hw⟩ := h.exists_numbers
    simp [hv, hw] at hnumbers
  obtain ⟨hv, hw⟩ := not_or.mp hnumbers
  obtain ⟨x, hv⟩ := Option.ne_none_iff_exists'.mp hv
  obtain ⟨y, hw⟩ := Option.ne_none_iff_exists'.mp hw
  -- Both count as numbers: each is a number or a boolean, and key equality keeps the two apart.
  obtain rfl | ⟨b, rfl, rfl⟩ := number?_eq_some_iff.mp hv <;>
    obtain rfl | ⟨c, rfl, rfl⟩ := number?_eq_some_iff.mp hw
  · rw [equals_number_iff]
    exact not_congr ⟨fun h => .missing h.1 h.2, fun h => by cases h; constructor <;> assumption⟩
  · have hsame : (Value.number x).sameKey (.boolean c) = false := by
      simp [sameKey, agree, Atom.agree]
    have hequals : (Value.number x).equals (.boolean c) = (x == if c then 1 else 0) := rfl
    rw [hsame, hequals, ← Bool.not_eq_true]
    exact not_congr ⟨.booleanRight, fun h => by cases h; assumption⟩
  · have hsame : (Value.boolean b).sameKey (.number y) = false := by
      simp [sameKey, agree, Atom.agree]
    have hequals : (Value.boolean b).equals (.number y) = ((if b then 1 else 0) == y) := rfl
    rw [hsame, hequals, ← Bool.not_eq_true]
    exact not_congr ⟨.booleanLeft, fun h => by cases h; assumption⟩
  · exact iff_of_true (equals_boolean b c) fun h => by cases h

variable {candidates : List Value}

theorem any_equals (h : ∀ c ∈ candidates, ¬ v.Discordant c) :
    candidates.any v.equals = candidates.any v.sameKey := by
  rw [Bool.eq_iff_iff, List.any_eq_true, List.any_eq_true]
  exact exists_congr fun c => and_congr_right fun hc => by rw [equals_eq_sameKey_iff.mpr (h c hc)]

theorem apply_member_of_kind (h : v.kind ≠ .list) :
    BinOp.member.apply v (.list candidates) = .ok (.boolean (candidates.any v.equals)) := by
  cases v with
  | list items => exact absurd rfl h
  | atom | table | function => rfl

/-- Without discordant values a value is a member of a list exactly if it is the same key as one of
the items, and a list is asked for each of its items in order. -/
theorem member_eq_sameKey (candidates : List Value) :
    (∀ v : Value, v.kind ≠ .list → (∀ c ∈ candidates, ¬ v.Discordant c) →
      BinOp.member.apply v (.list candidates) = .ok (.boolean (candidates.any v.sameKey))) ∧
    ∀ items : List Value, (∀ v ∈ items, ∀ c ∈ candidates, ¬ v.Discordant c) →
      BinOp.member.apply (.list items) (.list candidates) =
        .ok (.list (items.map fun v => .boolean (candidates.any v.sameKey))) := by
  constructor
  · intro v hlist h
    rw [apply_member_of_kind hlist, any_equals h]
  · intro items h
    rw [BinOp.apply, member, List.map_congr_left fun v hv => by rw [any_equals (h v hv)]]

theorem member_eq_sameKey_mixed :
    let candidates : List Value := [.list [.null], .boolean true, .number 2, .text "2", .list []]
    let items : List Value := [.list [.null], .boolean false, .number 2, .symbol "2"]
    (BinOp.member.apply (.number 3) (.list candidates) =
        .ok (.boolean (candidates.any (Value.number 3).sameKey)) ∧
      BinOp.member.apply (.list items) (.list candidates) =
        .ok (.list (items.map fun v => .boolean (candidates.any v.sameKey)))) ∧
    candidates.any (Value.number 3).sameKey = false ∧
      (items.map fun v => candidates.any v.sameKey) = [true, false, true, false] := by
  intro candidates items
  have hequal : ∀ v ∈ Value.number 3 :: items, ∀ c ∈ candidates, v.equals c = v.sameKey c := by
    decide +kernel
  have hconcordant : ∀ v ∈ Value.number 3 :: items, ∀ c ∈ candidates, ¬ v.Discordant c :=
    fun v hv c hc => equals_eq_sameKey_iff.mp (hequal v hv c hc)
  obtain ⟨hnumber, hitems⟩ := List.forall_mem_cons.mp hconcordant
  refine ⟨⟨?_, ?_⟩, by decide +kernel, by decide +kernel⟩
  · exact (member_eq_sameKey candidates).1 (.number 3) (by decide) hnumber
  · exact (member_eq_sameKey candidates).2 items hitems

/-- A missing number is no member of a list with it, and a boolean is one of a list without it. -/
theorem member_ne_sameKey :
    (BinOp.member.apply .null (.list [.null]) = .ok (.boolean false) ∧
      Value.null.sameKey .null = true) ∧
    (BinOp.member.apply (.boolean true) (.list [.number 1]) = .ok (.boolean true) ∧
      (Value.boolean true).sameKey (.number 1) = false) := by
  have hnull : [Value.null].any Value.null.equals = false := by decide +kernel
  have htrue : [Value.number 1].any (Value.boolean true).equals = true := by decide +kernel
  rw [apply_member_of_kind (by decide), hnull, apply_member_of_kind (by decide), htrue]
  exact ⟨⟨rfl, by decide +kernel⟩, rfl, by decide +kernel⟩

end Value

end TableConsole
