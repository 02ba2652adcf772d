import TableConsole.Proofs.Eval.RowLocal

/-! # What operators give

The result of an operator is atoms, in lists nested like those it was given.
-/

namespace TableConsole

set_option autoImplicit false

/-- What holds of the leaves, and of lists if it holds of their items, holds of nested lists. -/
theorem Value.overLists_rel {f : Value → Except EvalError Value} {R : Value → Value → Prop}
    (hleaf : ∀ v w, f v = .ok w → R v w)
    (hlist : ∀ vs ws, (∀ w ∈ ws, ∃ v ∈ vs, R v w) → R (.list vs) (.list ws)) :
    ∀ v w, v.overLists f = .ok w → R v w
  | .list vs, w, h => by
    rw [Value.overLists_list, Except.map_eq_ok_iff] at h
    obtain ⟨ws, hws, rfl⟩ := h
    refine hlist vs ws (Except.forall_mem_of_mapM hws fun v hv w hw => ⟨v, hv, ?_⟩)
    exact Value.overLists_rel hleaf hlist v w hw
  | .atom a, w, h => hleaf (.atom a) w h
  | .table t, w, h => hleaf (.table t) w h
  | .function source, w, h => hleaf (.function source) w h

theorem AtomOp.apply_rel {op : AtomOp} {R : Value → Value → Value → Prop}
    (hatoms : ∀ a b v, op.onUnlisted a b = .ok v → R a b v)
    (hleft : ∀ as b vs, b.isAtom → (∀ v ∈ vs, ∃ a ∈ as, R a b v) → R (.list as) b (.list vs))
    (hright : ∀ a bs vs, a.isAtom → (∀ v ∈ vs, ∃ b ∈ bs, R a b v) → R a (.list bs) (.list vs))
    (hboth : ∀ as bs vs, (∀ v ∈ vs, ∃ a ∈ as, ∃ b ∈ bs, R a b v) →
      R (.list as) (.list bs) (.list vs)) :
    ∀ a b v, op.apply a b = .ok v → R a b v
  | .list as, .list bs, v, h => by
    by_cases hlength : as.length = bs.length
    · rw [AtomOp.apply_list_list op hlength, Except.map_eq_ok_iff] at h
      obtain ⟨vs, hvs, rfl⟩ := h
      refine hboth as bs vs (Except.forall_mem_of_mapM hvs fun (a, b) hp v hv => ?_)
      obtain ⟨ha, hb⟩ := List.of_mem_zip hp
      exact ⟨a, ha, b, hb, AtomOp.apply_rel hatoms hleft hright hboth a b v hv⟩
    · rw [AtomOp.apply, if_neg hlength] at h
      cases h
  | .list as, .table t, v, h => by cases h
  | .list as, .atom b, v, h => by
    rw [AtomOp.apply_list_of_isAtom op as rfl] at h
    exact Value.overLists_rel (hatoms · _) (hleft · _ · rfl) _ v h
  | .list as, .function source, v, h => by
    rw [AtomOp.apply_list_of_isAtom op as rfl] at h
    exact Value.overLists_rel (hatoms · _) (hleft · _ · rfl) _ v h
  | .table t, b, v, h => by
    rw [AtomOp.apply] at h
    cases h
  | .atom a, b, v, h => by
    rw [AtomOp.apply_of_isAtom_left op rfl] at h
    exact Value.overLists_rel (hatoms _) (hright _ · · rfl) b v h
  | .function source, b, v, h => by
    rw [AtomOp.apply_of_isAtom_left op rfl] at h
    exact Value.overLists_rel (hatoms _) (hright _ · · rfl) b v h

theorem Value.weightedAverage_isAtom {a b v : Value} (h : a.weightedAverage b = .ok v) :
    v.isAtom := by
  obtain ⟨pairs, -, h⟩ := Except.bind_eq_ok_iff.mp h
  split at h <;> cases h <;> rfl

theorem Value.member_atoms (a b : Value) :
    (a.member b).isAtom = true ∨
      ∃ items vs, a = .list items ∧ a.member b = .list vs ∧ ∀ v ∈ vs, v.isAtom = true := by
  cases a with
  | list items => exact .inr ⟨items, _, rfl, rfl, List.forall_mem_map.mpr fun _ _ => rfl⟩
  | atom | table | function => exact .inl rfl

end TableConsole
