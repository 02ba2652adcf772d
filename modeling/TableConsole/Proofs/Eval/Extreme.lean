import TableConsole.Eval.Builtin
import TableConsole.Proofs.Except
import TableConsole.Proofs.Value.Order

/-! # Least and greatest items

The best item is found in one pass that compares every item with the best one so far and no other.
Where the items are of one scale this is the first item that no item is better than; otherwise some
item does not compare with the best one so far, and the pass fails.
-/

namespace TableConsole

set_option autoImplicit false

namespace Value

/-- No item compares with the value as wanted: for the least item, none is smaller. -/
def unbeaten (wanted : Ordering) (items : List Value) (v : Value) : Bool :=
  items.all fun w => w.compare? v != some wanted

/-- Numbers and booleans, or dates, or texts, or symbols. -/
def OneScale (items : List Value) : Prop :=
  (∀ v ∈ items, v.kind = .number ∨ v.kind = .boolean) ∨ (∀ v ∈ items, v.kind = .date) ∨
    (∀ v ∈ items, v.kind = .text) ∨ ∀ v ∈ items, v.kind = .symbol

instance (items : List Value) : Decidable (OneScale items) :=
  inferInstanceAs (Decidable (_ ∨ _ ∨ _ ∨ _))

variable {wanted : Ordering} {items : List Value} {v : Value}

theorem unbeaten_iff :
    v.unbeaten wanted items = true ↔ ∀ w ∈ items, w.compare? v ≠ some wanted := by
  simp [unbeaten]

theorem oneScale_iff : OneScale items ↔ ∃ k, ∀ v ∈ items, v.kind.scale = some k := by
  simp only [OneScale, Kind.scale_eq_some_iff]
  constructor
  · rintro (h | h | h | h)
    · exact ⟨.number, fun v hv => .inl ⟨rfl, h v hv⟩⟩
    · exact ⟨.date, fun v hv => .inr ⟨(h v hv).symm, .inl (h v hv)⟩⟩
    · exact ⟨.text, fun v hv => .inr ⟨(h v hv).symm, .inr (.inl (h v hv))⟩⟩
    · exact ⟨.symbol, fun v hv => .inr ⟨(h v hv).symm, .inr (.inr (h v hv))⟩⟩
  · rintro ⟨k, h⟩
    have hkind {v : Value} (hv : v ∈ items) (hk : k ≠ .number) : v.kind = k := by
      obtain ⟨hk', -⟩ | ⟨hv, -⟩ := h v hv
      · exact absurd hk' hk
      · exact hv.symm
    cases k with
    | number =>
      refine .inl fun v hv => ?_
      obtain ⟨-, hv⟩ | ⟨hk, hv⟩ := h v hv
      · exact hv
      · rw [← hk] at hv
        exact absurd hv (by decide)
    | date => exact .inr (.inl fun v hv => hkind hv nofun)
    | text => exact .inr (.inr (.inl fun v hv => hkind hv nofun))
    | symbol => exact .inr (.inr (.inr fun v hv => hkind hv nofun))
    | boolean | list | table | function =>
      -- There is no such scale.
      refine .inl fun v hv => ?_
      obtain ⟨hk, -⟩ | ⟨hk, hv⟩ := h v hv
      · cases hk
      · rw [← hk] at hv
        exact absurd hv (by decide)

theorem find?_unbeaten_single (h : Ordered wanted [v]) :
    [v].find? (unbeaten wanted [v]) = some v := by
  have hself : v.unbeaten wanted [v] = true :=
    unbeaten_iff.mpr (List.forall_mem_singleton.mpr fun hv =>
      h.asymm v List.mem_cons_self v List.mem_cons_self hv hv)
  rw [List.find?_cons, hself]

theorem find?_unbeaten_concat {item best : Value} (h : Ordered wanted (items ++ [item]))
    (hbest : items.find? (unbeaten wanted items) = some best) :
    (items ++ [item]).find? (unbeaten wanted (items ++ [item])) =
      some (if item.compare? best = some wanted then item else best) := by
  have hconcat (v : Value) : v.unbeaten wanted (items ++ [item]) =
      (v.unbeaten wanted items && item.compare? v != some wanted) := by
    simp [unbeaten]
  have hitem : item ∈ items ++ [item] := List.mem_append_right items List.mem_cons_self
  have hold : ∀ v ∈ items, v ∈ items ++ [item] := fun v hv => List.mem_append_left [item] hv
  obtain ⟨hunbeaten, before, behind, hsplit, hbefore⟩ := List.find?_eq_some_iff_append.mp hbest
  have hmem : best ∈ items := List.mem_of_find?_eq_some hbest
  have hnone := unbeaten_iff.mp hunbeaten
  by_cases hbetter : item.compare? best = some wanted
  · -- What is unbeaten so far ties with the best one, and so the item is better than that too.
    have hbeaten : ∀ u ∈ items, ¬ u.unbeaten wanted (items ++ [item]) = true := by
      intro u hu hstill
      rw [hconcat, Bool.and_eq_true, bne_iff_ne] at hstill
      obtain hfirst | hsecond := h.between item hitem u (hold u hu) best (hold best hmem) hbetter
      · exact hstill.2 hfirst
      · exact hnone u hu hsecond
    have hnew : item.unbeaten wanted (items ++ [item]) = true := by
      rw [unbeaten_iff]
      intro w hw hlater
      obtain hfirst | hsecond := h.between w hw best (hold best hmem) item hitem hlater
      · obtain hw | hw := List.mem_append.mp hw
        · exact hnone w hw hfirst
        · obtain rfl := List.mem_singleton.mp hw
          exact h.asymm w hitem w hitem hlater hlater
      · exact h.asymm item hitem best (hold best hmem) hbetter hsecond
    rw [if_pos hbetter, List.find?_append, List.find?_eq_none.mpr hbeaten, Option.none_or,
      List.find?_cons, hnew]
  · have hstill : best.unbeaten wanted (items ++ [item]) = true := by
      rw [hconcat, hunbeaten, Bool.true_and, bne_iff_ne]
      exact hbetter
    rw [if_neg hbetter, List.find?_eq_some_iff_append]
    refine ⟨hstill, before, behind ++ [item], by rw [hsplit, List.append_assoc, List.cons_append], ?_⟩
    intro u hu
    rw [hconcat, Bool.not_and, hbefore u hu, Bool.true_or]

end Value

namespace Builtin

open Value

variable {b : Builtin} {wanted : Ordering}

theorem better_eq_ok_iff {item best v : Value} :
    b.better wanted item best = .ok v ↔
      (item.compare? best).isSome = true ∧
        (if item.compare? best = some wanted then item else best) = v := by
  unfold better
  cases item.compare? best <;> simp

theorem foldlM_better_ordered {items done : List Value} {best : Value}
    (h : Ordered wanted (done ++ items))
    (hbest : done.find? (unbeaten wanted done) = some best) :
    ∃ v, items.foldlM (fun best item => b.better wanted item best) best = .ok v ∧
      (done ++ items).find? (unbeaten wanted (done ++ items)) = some v := by
  induction items generalizing done best with
  | nil => exact ⟨best, rfl, by rwa [List.append_nil]⟩
  | cons item items ih =>
    rw [List.append_cons] at h ⊢
    have hprefix : Ordered wanted (done ++ [item]) := h.mono (List.subset_append_left _ items)
    have hmem : best ∈ done := List.mem_of_find?_eq_some hbest
    have hcompares := hprefix.compares item (List.mem_append_right done List.mem_cons_self) best
      (List.mem_append_left [item] hmem)
    obtain ⟨v, hv, hfirst⟩ := ih h (find?_unbeaten_concat hprefix hbest)
    refine ⟨v, ?_, hfirst⟩
    rw [List.foldlM_cons, better_eq_ok_iff.mpr ⟨hcompares, rfl⟩, Except.ok_bind, hv]

theorem scale_of_foldlM_better {items : List Value} {best v : Value}
    (h : items.foldlM (fun best item => b.better wanted item best) best = .ok v) :
    ∀ item ∈ items, ∃ k, item.kind.scale = some k ∧ best.kind.scale = some k := by
  induction items generalizing best with
  | nil => exact List.forall_mem_nil _
  | cons item items ih =>
    rw [List.foldlM_cons] at h
    obtain ⟨next, hnext, h⟩ := Except.bind_eq_ok_iff.mp h
    obtain ⟨hcompares, rfl⟩ := better_eq_ok_iff.mp hnext
    obtain ⟨k, hitem, hbest⟩ := scale_of_compare? hcompares
    refine List.forall_mem_cons.mpr ⟨⟨k, hitem, hbest⟩, fun w hw => ?_⟩
    obtain ⟨k', hw, hlast⟩ := ih h w hw
    have hsame : some k = some k' := by
      rw [← hlast]
      split
      · exact hitem.symm
      · exact hbest.symm
    exact ⟨k', hw, hbest.trans hsame⟩

/-- An item alone is not compared, so there have to be others. -/
theorem foldlM_better_exact {item : Value} {items : List Value} (hne : items ≠ [])
    (hknown : ∀ v ∈ item :: items, ∀ x, v = .number x → x.isNaN = false) (hwanted : wanted ≠ .eq) :
    ((∃ v, items.foldlM (fun best item => b.better wanted item best) item = .ok v) ↔
        OneScale (item :: items)) ∧
      ∀ v, items.foldlM (fun best item => b.better wanted item best) item = .ok v →
        (item :: items).find? (unbeaten wanted (item :: items)) = some v := by
  have hfirst (h : OneScale (item :: items)) :
      ∃ v, items.foldlM (fun best item => b.better wanted item best) item = .ok v ∧
        (item :: items).find? (unbeaten wanted (item :: items)) = some v := by
    obtain ⟨k, hk⟩ := oneScale_iff.mp h
    have hordered := ordered_of_scale hk hknown hwanted
    have hsingle : Ordered wanted [item] := hordered.mono (List.subset_append_left [item] items)
    have hrest : Ordered wanted ([item] ++ items) := hordered
    exact foldlM_better_ordered hrest (find?_unbeaten_single hsingle)
  have hscale (v : Value) (h : items.foldlM (fun best item => b.better wanted item best) item =
      .ok v) : OneScale (item :: items) := by
    have hall := scale_of_foldlM_better h
    obtain ⟨next, hnext⟩ := List.exists_mem_of_ne_nil items hne
    obtain ⟨k, -, hk⟩ := hall next hnext
    refine oneScale_iff.mpr ⟨k, List.forall_mem_cons.mpr ⟨hk, fun w hw => ?_⟩⟩
    obtain ⟨k', hw, hk'⟩ := hall w hw
    exact hw.trans (hk'.symm.trans hk)
  refine ⟨⟨fun ⟨v, h⟩ => hscale v h, fun h => ?_⟩, fun v h => ?_⟩
  · obtain ⟨v, hv, -⟩ := hfirst h
    exact ⟨v, hv⟩
  · obtain ⟨w, hw, hfind⟩ := hfirst (hscale v h)
    obtain rfl := Except.ok.inj (h.symm.trans hw)
    exact hfind

inductive Seeks : Builtin → Ordering → Prop
  | min : Seeks .min .lt
  | max : Seeks .max .gt

theorem Seeks.ne_eq (h : b.Seeks wanted) : wanted ≠ .eq := by
  cases h <;> decide

theorem Seeks.call_eq (h : b.Seeks wanted) (s : Scope) (items : List Value) :
    b.call s [.list items] = b.extreme wanted (.list items) := by
  cases h <;> rfl

theorem extreme_list (b : Builtin) (wanted : Ordering) (items : List Value) :
    b.extreme wanted (.list items) =
      match items.filter (!isMissing ·) with
      | [] => .ok .null
      | item :: items => items.foldlM (fun best item => b.better wanted item best) item := by
  rfl

theorem not_isNaN_of_known {v : Value} (h : isMissing v = false) (x : Float)
    (hv : v = .number x) : x.isNaN = false := by
  subst hv
  exact h

/-- Missing items are left out. Of the others, one alone is the result whatever it is; several need one
scale, and then the result is the first of them that no other comes before, or after. -/
theorem call_first_unbeaten (hb : b.Seeks wanted) (s : Scope) (items : List Value) :
    let known := items.filter (!isMissing ·)
    (known = [] → b.call s [.list items] = .ok .null) ∧
    (∀ v, known = [v] → b.call s [.list items] = .ok v) ∧
    (2 ≤ known.length →
      ((∃ v, b.call s [.list items] = .ok v) ↔ OneScale known) ∧
      ∀ v, b.call s [.list items] = .ok v → known.find? (unbeaten wanted known) = some v) := by
  have hcall := (hb.call_eq s items).trans (extreme_list b wanted items)
  have hknown : ∀ v ∈ items.filter (!isMissing ·), ∀ x, v = .number x → x.isNaN = false :=
    fun v hv => not_isNaN_of_known (by simpa using (List.mem_filter.mp hv).2)
  dsimp only
  generalize items.filter (!isMissing ·) = known at hcall hknown
  refine ⟨?_, ?_, ?_⟩
  · rintro rfl
    exact hcall
  · rintro v rfl
    exact hcall
  · intro hlength
    match known, hlength with
    | item :: next :: more, _ =>
      rw [hcall]
      exact foldlM_better_exact (List.cons_ne_nil next more) hknown hb.ne_eq

theorem call_first_unbeaten_of_ties :
    let items : List Value := [.null, .boolean false, .number (-0), .boolean true, .number 1]
    Builtin.min.call (.global .empty .computed) [.list items] = .ok (.boolean false) ∧
      Builtin.max.call (.global .empty .computed) [.list items] = .ok (.boolean true) := by
  intro items
  have hlength : 2 ≤ (items.filter (!isMissing ·)).length := by decide +kernel
  have hscale : OneScale (items.filter (!isMissing ·)) := by decide +kernel
  constructor
  · obtain ⟨hiff, hfirst⟩ := (call_first_unbeaten .min (.global .empty .computed) items).2.2 hlength
    obtain ⟨v, hv⟩ := hiff.mpr hscale
    have hfind : (items.filter (!isMissing ·)).find? (unbeaten .lt (items.filter (!isMissing ·))) =
        some (.boolean false) := by rfl
    rw [hv, Option.some.inj ((hfirst v hv).symm.trans hfind)]
  · obtain ⟨hiff, hfirst⟩ := (call_first_unbeaten .max (.global .empty .computed) items).2.2 hlength
    obtain ⟨v, hv⟩ := hiff.mpr hscale
    have hfind : (items.filter (!isMissing ·)).find? (unbeaten .gt (items.filter (!isMissing ·))) =
        some (.boolean true) := by rfl
    rw [hv, Option.some.inj ((hfirst v hv).symm.trans hfind)]

end Builtin
end TableConsole
