import TableConsole.Eval.Grouping
import Mathlib.Data.List.Forall2

/-! # Partitions

The first item of a part takes the items that are the same as it, the other items are partitioned
on. If sameness is equality of some form, this is the partition into classes of one form: the parts
stand in the order of their first members, and the members of a part keep their order.
-/

namespace TableConsole

set_option autoImplicit false

variable {κ α β φ : Type}

theorem partitionWithin_map (same : κ → κ → Bool) (f : α → β) (limit : Nat)
    (items : List (κ × α)) :
    partitionWithin same limit (items.map fun item => (item.1, f item.2)) =
      (partitionWithin same limit items).map fun part => (part.1, part.2.map f) := by
  induction limit generalizing items with
  | zero => rfl
  | succ limit ih =>
    cases items with
    | nil => rfl
    | cons item items =>
      obtain ⟨key, x⟩ := item
      simp only [List.map_cons, partitionWithin, List.filter_map, List.map_map, ih]
      rfl

theorem partition_map (same : κ → κ → Bool) (f : α → β) (items : List (κ × α)) :
    partition same (items.map fun item => (item.1, f item.2)) =
      (partition same items).map fun part => (part.1, part.2.map f) := by
  unfold partition
  rw [List.length_map, partitionWithin_map]

structure IsPartition (same : κ → κ → Prop) (items : List (κ × α)) (parts : List (List (κ × α))) :
    Prop where
  nonempty : ∀ part ∈ parts, part ≠ []
  perm : parts.flatten.Perm items
  sublist : ∀ part ∈ parts, part.Sublist items
  same : ∀ part ∈ parts, ∀ x ∈ part, ∀ y ∈ items, y ∈ part ↔ same x.1 y.1
  ordered : (parts.filterMap List.head?).Sublist items

/-- The parts, each with its first member apart from the others. -/
def classesWithin (same : κ → κ → Bool) : Nat → List (κ × α) → List ((κ × α) × List (κ × α))
  | 0, _ => []
  | _ + 1, [] => []
  | limit + 1, x :: rest =>
    (x, rest.filter fun y => same x.1 y.1) ::
      classesWithin same limit (rest.filter fun y => !same x.1 y.1)

def classes (same : κ → κ → Bool) (items : List (κ × α)) : List ((κ × α) × List (κ × α)) :=
  classesWithin same items.length items

theorem partitionWithin_eq_classesWithin (same : κ → κ → Bool) (limit : Nat)
    (items : List (κ × α)) :
    partitionWithin same limit items =
      (classesWithin same limit items).map fun c => (c.1.1, (c.1 :: c.2).map (·.2)) := by
  induction limit generalizing items with
  | zero => rfl
  | succ limit ih =>
    cases items with
    | nil => rfl
    | cons x rest => rw [partitionWithin, classesWithin, List.map_cons, List.map_cons, ih]

theorem partition_eq_classes (same : κ → κ → Bool) (items : List (κ × α)) :
    partition same items = (classes same items).map fun c => (c.1.1, (c.1 :: c.2).map (·.2)) :=
  partitionWithin_eq_classesWithin same items.length items

theorem classesWithin_perm (same : κ → κ → Bool) {limit : Nat} {items : List (κ × α)}
    (h : items.length ≤ limit) :
    ((classesWithin same limit items).map fun c => c.1 :: c.2).flatten.Perm items := by
  induction limit generalizing items with
  | zero =>
    obtain rfl := List.eq_nil_of_length_eq_zero (Nat.le_zero.mp h)
    exact .nil
  | succ limit ih =>
    cases items with
    | nil => exact .nil
    | cons x rest =>
      have hrest : (rest.filter fun y => !same x.1 y.1).length ≤ limit :=
        Nat.le_trans (List.length_filter_le _ _) (Nat.le_of_succ_le_succ h)
      rw [classesWithin, List.map_cons, List.flatten_cons, List.cons_append]
      refine List.Perm.cons x ?_
      exact ((ih hrest).append_left _).trans (List.filter_append_perm _ rest)

theorem classesWithin_sublist (same : κ → κ → Bool) (limit : Nat) (items : List (κ × α)) :
    ∀ c ∈ classesWithin same limit items, (c.1 :: c.2).Sublist items := by
  induction limit generalizing items with
  | zero => simp [classesWithin]
  | succ limit ih =>
    cases items with
    | nil => simp [classesWithin]
    | cons x rest =>
      rw [classesWithin, List.forall_mem_cons]
      refine ⟨List.filter_sublist.cons_cons x, ?_⟩
      intro c hc
      exact (ih _ c hc).trans (List.filter_sublist.cons x)

theorem classesWithin_ordered (same : κ → κ → Bool) (limit : Nat) (items : List (κ × α)) :
    ((classesWithin same limit items).map (·.1)).Sublist items := by
  induction limit generalizing items with
  | zero => exact List.nil_sublist items
  | succ limit ih =>
    cases items with
    | nil => exact List.nil_sublist []
    | cons x rest =>
      rw [classesWithin, List.map_cons]
      exact ((ih _).trans List.filter_sublist).cons_cons x

theorem classesWithin_same {same : κ → κ → Bool} {form : κ → φ} (limit : Nat)
    {items : List (κ × α)}
    (hsame : ∀ x ∈ items, ∀ y ∈ items, same x.1 y.1 = true ↔ form x.1 = form y.1) :
    ∀ c ∈ classesWithin same limit items, ∀ x ∈ c.1 :: c.2, ∀ y ∈ items,
      y ∈ c.1 :: c.2 ↔ form x.1 = form y.1 := by
  induction limit generalizing items with
  | zero => simp [classesWithin]
  | succ limit ih =>
    cases items with
    | nil => simp [classesWithin]
    | cons first rest =>
      have hfirst : ∀ y ∈ first :: rest, same first.1 y.1 = true ↔ form first.1 = form y.1 :=
        hsame first List.mem_cons_self
      have hmem : ∀ y ∈ first :: rest, y ∈ first :: (rest.filter fun z => same first.1 z.1) ↔
          form first.1 = form y.1 := by
        intro y hy
        rw [List.mem_cons, List.mem_filter, hfirst y hy]
        constructor
        · rintro (rfl | ⟨-, hform⟩)
          · rfl
          · exact hform
        · intro hform
          exact (List.mem_cons.mp hy).imp_right fun hrest => ⟨hrest, hform⟩
      rw [classesWithin, List.forall_mem_cons]
      constructor
      · intro x hx y hy
        have hxform : form first.1 = form x.1 :=
          (hmem x ((List.filter_sublist.cons_cons first).subset hx)).mp hx
        rw [hmem y hy, hxform]
      · have hrest : ∀ y ∈ first :: rest, y ∈ (rest.filter fun z => !same first.1 z.1) ↔
            form first.1 ≠ form y.1 := by
          intro y hy
          rw [List.mem_filter, Bool.not_eq_true', ← Bool.not_eq_true, hfirst y hy]
          constructor
          · exact And.right
          · intro hform
            have hne : y ≠ first := fun he => hform (he ▸ rfl)
            exact ⟨(List.mem_cons.mp hy).resolve_left hne, hform⟩
        have hsub : (rest.filter fun z => !same first.1 z.1) ⊆ first :: rest :=
          (List.filter_sublist.cons first).subset
        have hlater := ih fun x hx y hy => hsame x (hsub hx) y (hsub hy)
        intro c hc x hx y hy
        have hc' := (classesWithin_sublist same limit _ c hc).subset
        -- What went with the first item has another form than all that is classified later.
        by_cases hy' : y ∈ rest.filter fun z => !same first.1 z.1
        · exact hlater c hc x hx y hy'
        · have hx' : form first.1 ≠ form x.1 := (hrest x (hsub (hc' hx))).mp (hc' hx)
          have hyform : form first.1 = form y.1 := not_not.mp fun hne => hy' ((hrest y hy).mpr hne)
          constructor
          · intro hyc
            exact absurd (hc' hyc) hy'
          · intro hform
            exact absurd (hyform.trans hform.symm) hx'

theorem classes_isPartition {same : κ → κ → Bool} {form : κ → φ} {items : List (κ × α)}
    (hsame : ∀ x ∈ items, ∀ y ∈ items, same x.1 y.1 = true ↔ form x.1 = form y.1) :
    IsPartition (fun k l => same k l = true) items
      ((classes same items).map fun c => c.1 :: c.2) where
  nonempty := List.forall_mem_map.mpr fun c _ => List.cons_ne_nil c.1 c.2
  perm := classesWithin_perm same (Nat.le_refl _)
  sublist := List.forall_mem_map.mpr (classesWithin_sublist same items.length items)
  same := by
    refine List.forall_mem_map.mpr ?_
    intro c hc x hx y hy
    have hx' : x ∈ items := (classesWithin_sublist same items.length items c hc).subset hx
    rw [hsame x hx' y hy]
    exact classesWithin_same items.length hsame c hc x hx y hy
  ordered := by
    have hheads : ((classes same items).map fun c => c.1 :: c.2).filterMap List.head? =
        (classes same items).map (·.1) := by
      rw [List.filterMap_map]
      exact congrFun (List.filterMap_eq_map (f := fun c : (κ × α) × List (κ × α) => c.1)) _
    rw [hheads]
    exact classesWithin_ordered same items.length items

end TableConsole
