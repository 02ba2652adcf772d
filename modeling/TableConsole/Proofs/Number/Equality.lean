import TableConsole.Value.Key

/-! # Equality of numbers

Two floats are equal as keys exactly if they are the same up to the sign of a zero, a missing number
being the same as a missing number. So key equality of numbers is an equivalence, although plain
equality is not: a missing number does not equal itself.
-/

namespace TableConsole.Number

open Float.Model

set_option autoImplicit false

def unsignedZero : UnpackedFloat → UnpackedFloat
  | .zero _ => .zero .positive
  | x => x

theorem compare_finite_eq_iff {s s' : UnpackedFloat.Sign} {m m' : Nat} {e e' : Int} {hm : 0 < m}
    {hm' : 0 < m'} :
    (UnpackedFloat.finite s m e hm).compare (.finite s' m' e' hm') = some .eq ↔
      UnpackedFloat.finite s m e hm = .finite s' m' e' hm' := by
  rw [UnpackedFloat.finite.injEq]
  cases s <;> cases s'
  · change some ((compare e e').then (compare m m')).swap = some .eq ↔ _
    simp [Ordering.then_eq_eq, and_comm]
  · exact iff_of_false (fun h => by cases h) fun h => by cases h.1
  · exact iff_of_false (fun h => by cases h) fun h => by cases h.1
  · change some ((compare e e').then (compare m m')) = some .eq ↔ _
    simp [Ordering.then_eq_eq, and_comm]

theorem compare_eq_some_eq_iff (x y : UnpackedFloat) :
    x.compare y = some .eq ↔ unsignedZero x = unsignedZero y ∧ unsignedZero x ≠ .notANumber := by
  cases x with
  | notANumber => exact iff_of_false (fun h => by cases h) fun h => h.2 rfl
  | infinity s =>
    cases y with
    | infinity s' =>
      cases s <;> cases s'
      · exact iff_of_true rfl ⟨rfl, UnpackedFloat.noConfusion⟩
      · exact iff_of_false (fun h => by cases h) fun h => by cases h.1
      · exact iff_of_false (fun h => by cases h) fun h => by cases h.1
      · exact iff_of_true rfl ⟨rfl, UnpackedFloat.noConfusion⟩
    | notANumber | zero | finite =>
      cases s <;> exact iff_of_false (fun h => by cases h) fun h => by cases h.1
  | zero s =>
    cases y with
    | notANumber => exact iff_of_false (fun h => by cases h) fun h => by cases h.1
    | infinity s' | finite s' =>
      cases s' <;> exact iff_of_false (fun h => by cases h) fun h => by cases h.1
    | zero => exact iff_of_true rfl ⟨rfl, UnpackedFloat.noConfusion⟩
  | finite s m e hm =>
    cases y with
    | infinity s' =>
      cases s <;> cases s' <;> exact iff_of_false (fun h => by cases h) fun h => by cases h.1
    | notANumber | zero =>
      cases s <;> exact iff_of_false (fun h => by cases h) fun h => by cases h.1
    | finite s' m' e' hm' =>
      exact compare_finite_eq_iff.trans (and_iff_left UnpackedFloat.noConfusion).symm

theorem isNaN_iff_eq (x : UnpackedFloat) : x.isNaN = true ↔ x = .notANumber := by
  cases x with
  | notANumber => exact iff_of_true rfl rfl
  | infinity | zero | finite => exact iff_of_false Bool.false_ne_true UnpackedFloat.noConfusion

theorem unsignedZero_eq_notANumber_iff (x : UnpackedFloat) :
    unsignedZero x = .notANumber ↔ x = .notANumber := by
  cases x with
  | notANumber | infinity | finite => rfl
  | zero => exact iff_of_false UnpackedFloat.noConfusion UnpackedFloat.noConfusion

def form (x : Float) : UnpackedFloat :=
  unsignedZero x.toModel.unpack

theorem beq_iff_form (x y : Float) : (x == y) = true ↔ form x = form y ∧ form x ≠ .notANumber := by
  change (x.toModel.unpack.compare y.toModel.unpack == some .eq) = true ↔ _
  rw [beq_iff_eq, compare_eq_some_eq_iff]
  rfl

theorem isNaN_iff_form (x : Float) : x.isNaN = true ↔ form x = .notANumber :=
  (isNaN_iff_eq x.toModel.unpack).trans (unsignedZero_eq_notANumber_iff x.toModel.unpack).symm

theorem sameNumber_iff_form (x y : Float) : sameNumber x y = true ↔ form x = form y := by
  rw [sameNumber, Bool.or_eq_true, Bool.and_eq_true, beq_iff_form, isNaN_iff_form, isNaN_iff_form]
  constructor
  · rintro (⟨hform, -⟩ | ⟨hx, hy⟩)
    · exact hform
    · exact hx.trans hy.symm
  · intro hform
    by_cases hx : form x = .notANumber
    · exact .inr ⟨hx, hform ▸ hx⟩
    · exact .inl ⟨hform, hx⟩

theorem beq_symm (x y : Float) (h : (x == y) = true) : (y == x) = true := by
  rw [beq_iff_form] at h ⊢
  exact ⟨h.1.symm, h.1 ▸ h.2⟩

theorem beq_trans (x y z : Float) (hxy : (x == y) = true) (hyz : (y == z) = true) :
    (x == z) = true := by
  rw [beq_iff_form] at hxy hyz ⊢
  exact ⟨hxy.1.trans hyz.1, hxy.2⟩

theorem sameNumber_symm (x y : Float) (h : sameNumber x y = true) : sameNumber y x = true := by
  rw [sameNumber_iff_form] at h ⊢
  exact h.symm

theorem sameNumber_trans (x y z : Float) (hxy : sameNumber x y = true)
    (hyz : sameNumber y z = true) : sameNumber x z = true := by
  rw [sameNumber_iff_form] at hxy hyz ⊢
  exact hxy.trans hyz

theorem beq_self_iff (x : Float) : (x == x) = true ↔ x.isNaN = false := by
  rw [beq_iff_form, ← Bool.not_eq_true, isNaN_iff_form]
  exact and_iff_right rfl

theorem beq_eq_false_of_isNaN {x y : Float} (h : x.isNaN = true) : (x == y) = false := by
  rw [← Bool.not_eq_true, beq_iff_form]
  exact fun hform => hform.2 ((isNaN_iff_form x).mp h)

end TableConsole.Number
