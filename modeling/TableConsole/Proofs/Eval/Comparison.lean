import Mathlib.Data.List.Zip
import TableConsole.Proofs.Eval.RowLocal
import TableConsole.Proofs.Value.KeyEquivalence
import TableConsole.Proofs.Value.Order

/-! # Comparisons on nested values

A comparison with its sides exchanged is the opposite comparison, and unequal is not equal, for
atoms and so for nested lists: an operator on lists is determined by what it does on atoms.
-/

namespace TableConsole

set_option autoImplicit false

/-- Two lists of one length meet item by item, an atom meets every item of a list, and a table or
lists of two lengths are refused. -/
structure Broadcasts (f : Value → Value → Except EvalError Value) : Prop where
  lists : ∀ as bs, as.length = bs.length →
    f (.list as) (.list bs) = ((as.zip bs).mapM fun p => f p.1 p.2).map .list
  uneven : ∀ as bs, as.length ≠ bs.length → (f (.list as) (.list bs)).toOption = none
  left : ∀ as b, b.isAtom → f (.list as) b = (as.mapM (f · b)).map .list
  right : ∀ a bs, a.isAtom → f a (.list bs) = (bs.mapM (f a ·)).map .list
  tables : ∀ t v, (f (.table t) v).toOption = none ∧ (f v (.table t)).toOption = none

namespace Broadcasts

variable {f g : Value → Value → Except EvalError Value}

theorem swap (h : Broadcasts f) : Broadcasts fun a b => f b a where
  lists as bs hlength := by
    rw [h.lists bs as hlength.symm, ← List.zip_swap as bs, List.mapM_map]
    rfl
  uneven as bs hlength := h.uneven bs as (Ne.symm hlength)
  left as b hb := h.right b as hb
  right a bs ha := h.left bs a ha
  tables t v := (h.tables t v).symm

section Rel

variable {R : Value → Value → Prop}

theorem rel_items (hlist : ∀ vs ws, List.Forall₂ R vs ws → R (.list vs) (.list ws)) {α : Type}
    {xs : List α} {p q : α → Except EvalError Value}
    (h : ∀ x ∈ xs, Option.Rel R (p x).toOption (q x).toOption) :
    Option.Rel R ((xs.mapM p).map .list).toOption ((xs.mapM q).map .list).toOption := by
  obtain ⟨e, e', hp, hq⟩ | ⟨vs, ws, hp, hq, hvs⟩ := Except.rel_cases (Except.mapM_rel h)
  · rw [hp, hq]
    exact .none
  · rw [hp, hq]
    exact .some (hlist vs ws hvs)

variable (hlist : ∀ vs ws, List.Forall₂ R vs ws → R (.list vs) (.list ws))
  (hatoms : ∀ a b, a.isAtom → b.isAtom → Option.Rel R (f a b).toOption (g a b).toOption)

include hlist hatoms

theorem rel_of_isAtom (hf : Broadcasts f) (hg : Broadcasts g) {a : Value} (ha : a.isAtom)
    (b : Value) : Option.Rel R (f a b).toOption (g a b).toOption := by
  induction b using Value.memberInduction with
  | atom | function => exact hatoms a _ ha rfl
  | table t =>
    rw [(hf.tables t a).2, (hg.tables t a).2]
    exact .none
  | list bs ih =>
    rw [hf.right a bs ha, hg.right a bs ha]
    exact rel_items hlist ih

/-- What relates the results on atoms, and lists if it relates their items, relates all results. -/
theorem rel (hf : Broadcasts f) (hg : Broadcasts g) (a b : Value) :
    Option.Rel R (f a b).toOption (g a b).toOption := by
  induction a using Value.memberInduction generalizing b with
  | atom | function => exact rel_of_isAtom hlist hatoms hf hg rfl b
  | table t =>
    rw [(hf.tables t b).1, (hg.tables t b).1]
    exact .none
  | list as ih =>
    cases b with
    | atom | function =>
      rw [hf.left as _ rfl, hg.left as _ rfl]
      exact rel_items hlist fun a ha => ih a ha _
    | table t =>
      rw [(hf.tables t _).2, (hg.tables t _).2]
      exact .none
    | list bs =>
      by_cases hlength : as.length = bs.length
      · rw [hf.lists as bs hlength, hg.lists as bs hlength]
        exact rel_items hlist fun p hp => ih p.1 (List.of_mem_zip hp).1 p.2
      · rw [hf.uneven as bs hlength, hg.uneven as bs hlength]
        exact .none

end Rel

/-- Results that agree on atoms agree. -/
theorem toOption_eq (hf : Broadcasts f) (hg : Broadcasts g)
    (hatoms : ∀ a b, a.isAtom → b.isAtom → (f a b).toOption = (g a b).toOption) (a b : Value) :
    (f a b).toOption = (g a b).toOption := by
  have hrel : Option.Rel (· = ·) (f a b).toOption (g a b).toOption := by
    refine rel (fun vs ws h => ?_) (fun a b ha hb => ?_) hf hg a b
    · rw [List.forall₂_eq_eq_eq] at h
      rw [h]
    · rw [hatoms a b ha hb]
      cases (g a b).toOption with
      | none => exact .none
      | some v => exact .some rfl
  obtain ⟨e, e', hf, hg⟩ | ⟨v, w, hf, hg, rfl⟩ := Except.rel_cases hrel
  · rw [hf, hg]
    rfl
  · rw [hf, hg]

end Broadcasts

namespace AtomOp

theorem apply_of_isAtom_right (op : AtomOp) (a : Value) {b : Value} (hb : b.isAtom) :
    op.apply a b = a.overLists (op.onUnlisted · b) := by
  cases a with
  | atom | function => rw [op.apply_of_isAtom_left rfl, Value.overLists_of_isAtom hb,
      Value.overLists_of_isAtom rfl]
  | list as => exact op.apply_list_of_isAtom as hb
  | table t => rw [AtomOp.apply, Value.overLists, onUnlisted]

theorem broadcasts (op : AtomOp) : Broadcasts op.apply where
  lists _ _ hlength := op.apply_list_list hlength
  uneven as bs hlength := by
    rw [apply, if_neg hlength]
    rfl
  left as b hb := by
    simp only [op.apply_of_isAtom_right _ hb, Value.overLists_list]
  right a bs ha := by
    simp only [op.apply_of_isAtom_left ha, Value.overLists_list]
  tables t v := by
    constructor
    · rw [apply]
      rfl
    · cases v with
      | table t' =>
        rw [apply]
        rfl
      | atom | list | function => rfl

theorem onUnlisted_of_isAtom (op : AtomOp) {a b : Value} (ha : a.isAtom) (hb : b.isAtom) :
    op.onUnlisted a b = op.onAtoms a b := by
  cases a with
  | atom | function =>
    cases b with
    | atom | function => rfl
    | list | table => cases hb
  | list | table => cases ha

theorem apply_of_isAtom (op : AtomOp) {a b : Value} (ha : a.isAtom) (hb : b.isAtom) :
    op.apply a b = op.onAtoms a b := by
  rw [op.apply_of_isAtom_left ha, Value.overLists_of_isAtom hb, op.onUnlisted_of_isAtom ha hb]

end AtomOp

def Comparison.flip : Comparison → Comparison
  | .less => .greater
  | .greater => .less
  | .lessEqual => .greaterEqual
  | .greaterEqual => .lessEqual

namespace Comparison

theorem flip_holds_swap (c : Comparison) (o : Ordering) : c.flip.holds o.swap = c.holds o := by
  cases c <;> cases o <;> rfl

theorem flip_onNumbers (c : Comparison) (x y : Float) : c.flip.onNumbers y x = c.onNumbers x y := by
  cases c <;> rfl

theorem apply_of_numbers (c : Comparison) {a b : Value} {x y : Float} (ha : a.number? = some x)
    (hb : b.number? = some y) : c.apply a b = .ok (c.onNumbers x y) := by
  unfold apply
  rw [ha, hb]

theorem apply_of_not_numbers (c : Comparison) {a b : Value}
    (h : a.number? = none ∨ b.number? = none) :
    (c.apply a b).toOption = (a.compare? b).map c.holds := by
  unfold apply
  split
  · next ha hb => simp [ha, hb] at h
  · cases a.compare? b <;> rfl

theorem flip_apply (c : Comparison) (a b : Value) :
    (c.flip.apply b a).toOption = (c.apply a b).toOption := by
  by_cases h : a.number? = none ∨ b.number? = none
  · rw [apply_of_not_numbers c h, apply_of_not_numbers c.flip h.symm, Value.compare?_swap a b,
      Option.map_map]
    exact congrArg (Option.map · _) (funext c.flip_holds_swap)
  · obtain ⟨ha, hb⟩ := not_or.mp h
    obtain ⟨x, ha⟩ := Option.ne_none_iff_exists'.mp ha
    obtain ⟨y, hb⟩ := Option.ne_none_iff_exists'.mp hb
    rw [apply_of_numbers c ha hb, apply_of_numbers c.flip hb ha, flip_onNumbers]

end Comparison

/-- False for true and true for false, in lists of the same structure. -/
inductive Value.Opposite : Value → Value → Prop
  | boolean (b : Bool) : Opposite (.boolean b) (.boolean !b)
  | list {vs ws : List Value} : List.Forall₂ Opposite vs ws → Opposite (.list vs) (.list ws)

/-- A comparison and the opposite one with the sides exchanged have the same result or both fail.
Equal and unequal have opposite results or both fail. -/
theorem BinOp.apply_compare_coherent (l r : Value) :
    (∀ c : Comparison, ((elementwise (.compare c)).apply l r).toOption =
      ((elementwise (.compare c.flip)).apply r l).toOption) ∧
    Option.Rel Value.Opposite ((elementwise .equal).apply l r).toOption
      ((elementwise .notEqual).apply l r).toOption := by
  constructor
  · intro c
    refine (AtomOp.broadcasts _).toOption_eq (AtomOp.broadcasts _).swap (fun a b ha hb => ?_) l r
    rw [AtomOp.apply_of_isAtom _ ha hb, AtomOp.apply_of_isAtom _ hb ha, AtomOp.onAtoms,
      AtomOp.onAtoms, Except.toOption_map, Except.toOption_map, c.flip_apply]
  · refine Broadcasts.rel (fun _ _ => .list) (fun a b ha hb => ?_) (AtomOp.broadcasts _)
      (AtomOp.broadcasts _) l r
    rw [AtomOp.apply_of_isAtom _ ha hb, AtomOp.apply_of_isAtom _ ha hb]
    exact .some (.boolean _)

end TableConsole
