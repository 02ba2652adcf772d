import TableConsole.Proofs.Number.Order

/-! # Order of values

Numbers with booleans, dates, texts and symbols are four scales, each ordered in itself; no other
values compare. On a scale the values that are not missing are ordered up to ties: of two values at
most one comes before the other, and what lies between a value and a later one is after the first or
before the second.
-/

namespace TableConsole

set_option autoImplicit false

instance : Std.TransCmp Date.compare :=
  inferInstanceAs (Std.TransCmp
    (compareLex (compareOn Date.year) (compareLex (compareOn Date.month) (compareOn Date.day))))

theorem Atom.compare?_swap (a b : Atom) : b.compare? a = (a.compare? b).map Ordering.swap := by
  cases a with
  | date d =>
    cases b with
    | date e => exact congrArg some Std.OrientedCmp.eq_swap
    | number | text | boolean | symbol => rfl
  | text s =>
    cases b with
    | text t => exact congrArg some Std.OrientedCmp.eq_swap
    | number | boolean | date | symbol => rfl
  | symbol s =>
    cases b with
    | symbol t => exact congrArg some Std.OrientedCmp.eq_swap
    | number | text | boolean | date => rfl
  | number x =>
    cases b with
    | number | boolean => exact Number.compareNumbers?_swap _ _
    | text | date | symbol => rfl
  | boolean c =>
    cases b with
    | number | boolean => exact Number.compareNumbers?_swap _ _
    | text | date | symbol => rfl

theorem Value.compare?_swap (v w : Value) : w.compare? v = (v.compare? w).map Ordering.swap := by
  cases v with
  | atom a =>
    cases w with
    | atom b => exact a.compare?_swap b
    | list | table | function => rfl
  | list | table | function => cases w <;> rfl

def Kind.scale : Kind → Option Kind
  | .number | .boolean => some .number
  | .text => some .text
  | .date => some .date
  | .symbol => some .symbol
  | .list | .table | .function => none

theorem Kind.scale_eq_some_iff {k k' : Kind} : k.scale = some k' ↔
    (k' = .number ∧ (k = .number ∨ k = .boolean)) ∨
      (k' = k ∧ (k = .date ∨ k = .text ∨ k = .symbol)) := by
  cases k <;> cases k' <;> decide

namespace Value

variable {v w : Value}

theorem exists_atom_of_scale {k : Kind} (h : v.kind.scale = some k) : ∃ a, v = .atom a := by
  cases v with
  | atom a => exact ⟨a, rfl⟩
  | list | table | function => cases h

theorem scale_of_compare? (h : (v.compare? w).isSome = true) :
    ∃ k, v.kind.scale = some k ∧ w.kind.scale = some k := by
  cases v with
  | atom a =>
    cases w with
    | atom b =>
      cases a <;> cases b
      all_goals first | exact ⟨_, rfl, rfl⟩ | cases h
    | list | table | function => cases h
  | list | table | function => cases w <;> cases h

theorem compare?_of_numbers {x y : Float} (hv : v.number? = some x) (hw : w.number? = some y) :
    v.compare? w = compareNumbers? x y := by
  cases v with
  | atom a =>
    cases w with
    | atom b =>
      rw [number?] at hv hw
      cases a with
      | number | boolean =>
        cases b with
        | number | boolean =>
          cases hv
          cases hw
          rfl
        | text | date | symbol => cases hw
      | text | date | symbol => cases hv
    | list | table | function => cases hw
  | list | table | function => cases hv

/-- Any two of the items compare. To compare as wanted is a strict order, up to ties. -/
structure Ordered (wanted : Ordering) (items : List Value) : Prop where
  compares : ∀ v ∈ items, ∀ w ∈ items, (v.compare? w).isSome = true
  asymm : ∀ v ∈ items, ∀ w ∈ items, v.compare? w = some wanted → w.compare? v ≠ some wanted
  between : ∀ u ∈ items, ∀ v ∈ items, ∀ w ∈ items, u.compare? w = some wanted →
    u.compare? v = some wanted ∨ v.compare? w = some wanted

theorem Ordered.mono {wanted : Ordering} {items others : List Value} (h : Ordered wanted items)
    (hsub : others ⊆ items) : Ordered wanted others where
  compares v hv w hw := h.compares v (hsub hv) w (hsub hw)
  asymm v hv w hw := h.asymm v (hsub hv) w (hsub hw)
  between u hu v hv w hw := h.between u (hsub hu) v (hsub hv) w (hsub hw)

section Keys

variable {α : Type} (cmp : α → α → Ordering) [Std.TransCmp cmp] {wanted : Ordering}

theorem compare_between {a c : α} (b : α) (hwanted : wanted ≠ .eq) (h : cmp a c = wanted) :
    cmp a b = wanted ∨ cmp b c = wanted := by
  by_contra hnot
  obtain ⟨hab, hbc⟩ := not_or.mp hnot
  cases wanted with
  | lt =>
    have hge := Std.TransCmp.isGE_trans (Ordering.isGE_iff_ne_lt.mpr hab)
      (Ordering.isGE_iff_ne_lt.mpr hbc)
    exact Ordering.isGE_iff_ne_lt.mp hge h
  | eq => exact hwanted rfl
  | gt =>
    have hle := Std.TransCmp.isLE_trans (Ordering.isLE_iff_ne_gt.mpr hab)
      (Ordering.isLE_iff_ne_gt.mpr hbc)
    exact Ordering.isLE_iff_ne_gt.mp hle h

theorem ordered_of_keys (key : Value → α → Prop) {items : List Value}
    (hkey : ∀ v ∈ items, ∃ a, key v a)
    (hcmp : ∀ v w a b, key v a → key w b → v.compare? w = some (cmp a b))
    (hwanted : wanted ≠ .eq) : Ordered wanted items where
  compares v hv w hw := by
    obtain ⟨a, ha⟩ := hkey v hv
    obtain ⟨b, hb⟩ := hkey w hw
    rw [hcmp v w a b ha hb, Option.isSome_some]
  asymm v _ w _ h := by
    rw [compare?_swap v w, h]
    cases wanted with
    | eq => exact absurd rfl hwanted
    | lt | gt => decide
  between u hu v hv w hw h := by
    obtain ⟨a, ha⟩ := hkey u hu
    obtain ⟨b, hb⟩ := hkey v hv
    obtain ⟨c, hc⟩ := hkey w hw
    rw [hcmp u w a c ha hc, Option.some.injEq] at h
    rw [hcmp u v a b ha hb, hcmp v w b c hb hc, Option.some.injEq, Option.some.injEq]
    exact compare_between cmp b hwanted h

end Keys

theorem ordered_of_scale {k : Kind} {items : List Value} {wanted : Ordering}
    (hscale : ∀ v ∈ items, v.kind.scale = some k)
    (hknown : ∀ v ∈ items, ∀ x, v = .number x → x.isNaN = false) (hwanted : wanted ≠ .eq) :
    Ordered wanted items := by
  have hatom : ∀ v ∈ items, ∃ a, v = .atom a := fun v hv => exists_atom_of_scale (hscale v hv)
  cases k with
  | number =>
    refine ordered_of_keys Number.order (fun v x => v.number? = some x ∧ x.isNaN = false)
      (fun v hv => ?_) ?_ hwanted
    · obtain ⟨a, rfl⟩ := hatom v hv
      cases a with
      | number x => exact ⟨x, rfl, hknown _ hv x rfl⟩
      | boolean b => exact ⟨_, rfl, by cases b <;> decide +kernel⟩
      | text | date | symbol => cases hscale _ hv
    · rintro v w x y ⟨hv, hx⟩ ⟨hw, hy⟩
      rw [compare?_of_numbers hv hw, Number.compareNumbers?_of_not_isNaN hx hy]
  | text =>
    refine ordered_of_keys compare (fun v s => v = .text s) (fun v hv => ?_) ?_ hwanted
    · obtain ⟨a, rfl⟩ := hatom v hv
      cases a with
      | text s => exact ⟨s, rfl⟩
      | number | boolean | date | symbol => cases hscale _ hv
    · rintro v w s t rfl rfl
      rfl
  | date =>
    refine ordered_of_keys Date.compare (fun v d => v = .date d) (fun v hv => ?_) ?_ hwanted
    · obtain ⟨a, rfl⟩ := hatom v hv
      cases a with
      | date d => exact ⟨d, rfl⟩
      | number | boolean | text | symbol => cases hscale _ hv
    · rintro v w d e rfl rfl
      rfl
  | symbol =>
    refine ordered_of_keys compare (fun v s => v = .symbol s) (fun v hv => ?_) ?_ hwanted
    · obtain ⟨a, rfl⟩ := hatom v hv
      cases a with
      | symbol s => exact ⟨s, rfl⟩
      | number | boolean | text | date => cases hscale _ hv
    · rintro v w s t rfl rfl
      rfl
  | boolean | list | table | function =>
    -- There is no such scale.
    refine ordered_of_keys Number.order (fun _ _ => False) (fun v hv => ?_) nofun hwanted
    obtain ⟨a, rfl⟩ := hatom v hv
    cases a <;> cases hscale _ hv

end Value

end TableConsole
