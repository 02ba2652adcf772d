import TableConsole.Proofs.Session.Splitting

/-! # Joined lines

Joining puts the lines of a text into groups: a group goes on while the text of its lines so far has
an open bracket, and every line is in one group. The lines fall into such groups in one way only, so
bracket depth alone decides what is joined, and lines that leave no bracket open are not joined.
-/

namespace TableConsole.Statement

set_option autoImplicit false

open Text

abbrev Line := List Char

/-- Lines with one space between them. -/
def spaced (group : List Line) : List Char :=
  [' '].intercalate group

/-- A bracket is open behind each line of the group but its last one. -/
def StaysOpen (group : List Line) : Prop :=
  ∀ first, first <+: group → first ≠ [] → first ≠ group → 0 < bracketDepth (spaced first)

/-- Consecutive groups of lines, none of which could end earlier. A bracket may be open behind the
last of them only, where no line follows. -/
structure Grouped (lines : List Line) (groups : List (List Line)) : Prop where
  flatten : groups.flatten = lines
  ne_nil : ∀ group ∈ groups, group ≠ []
  staysOpen : ∀ group ∈ groups, StaysOpen group
  closed : ∀ group ∈ groups.dropLast, bracketDepth (spaced group) ≤ 0

section Groups

variable {line : Line} {group other lines : List Line} {groups others : List (List Line)}

theorem spaced_singleton (line : Line) : spaced [line] = line :=
  List.intercalate_singleton

theorem spaced_concat (hne : group ≠ []) (line : Line) :
    spaced (group ++ [line]) = spaced group ++ ' ' :: line := by
  induction group with
  | nil => exact absurd rfl hne
  | cons first group ih =>
    cases group with
    | nil => simp [spaced]
    | cons second group =>
      have ih := ih (List.cons_ne_nil second group)
      simp only [spaced, List.cons_append, List.intercalate_cons_cons] at ih ⊢
      simp [ih]

theorem staysOpen_singleton (line : Line) : StaysOpen [line] := by
  intro first hstart hne hwhole
  rw [← List.nil_append [line], List.prefix_concat_iff] at hstart
  obtain rfl | hnil := hstart
  · exact absurd rfl hwhole
  · exact absurd (List.prefix_nil.mp hnil) hne

theorem StaysOpen.concat (h : StaysOpen group) (hopen : 0 < bracketDepth (spaced group))
    (line : Line) : StaysOpen (group ++ [line]) := by
  intro first hstart hne hwhole
  obtain rfl | hstart := List.prefix_concat_iff.mp hstart
  · exact absurd rfl hwhole
  · by_cases hgroup : first = group
    · exact hgroup ▸ hopen
    · exact h first hstart hne hgroup

theorem Grouped.single (hne : group ≠ []) (hgroup : StaysOpen group) : Grouped group [group] where
  flatten := by simp
  ne_nil := by simpa using hne
  staysOpen := by simpa using hgroup
  closed := by simp

theorem Grouped.cons (h : Grouped lines groups) (hne : group ≠ []) (hgroup : StaysOpen group)
    (hclosed : bracketDepth (spaced group) ≤ 0) : Grouped (group ++ lines) (group :: groups) where
  flatten := by rw [List.flatten_cons, h.flatten]
  ne_nil := List.forall_mem_cons.mpr ⟨hne, h.ne_nil⟩
  staysOpen := List.forall_mem_cons.mpr ⟨hgroup, h.staysOpen⟩
  closed := by
    cases groups with
    | nil => simp
    | cons => exact List.forall_mem_cons.mpr ⟨hclosed, h.closed⟩

/-- With the lines of the first group so far in front; a line more either goes on with it or starts
the next one. -/
theorem exists_grouped_of_staysOpen (hne : group ≠ []) (hgroup : StaysOpen group) (lines : List Line) :
    ∃ groups, Grouped (group ++ lines) groups ∧
      joinFrom (spaced group) lines = groups.map spaced := by
  induction lines generalizing group with
  | nil => exact ⟨[group], by simpa using Grouped.single hne hgroup, rfl⟩
  | cons line lines ih =>
    rw [joinFrom]
    split
    · rename_i hopen
      have hjoined := ih (by simp) (hgroup.concat hopen line)
      rwa [spaced_concat hne, List.append_assoc] at hjoined
    · rename_i hclosed
      obtain ⟨groups, hgroups, hjoined⟩ := ih (List.cons_ne_nil line []) (staysOpen_singleton line)
      rw [spaced_singleton] at hjoined
      exact ⟨group :: groups, hgroups.cons hne hgroup (Int.not_lt.mp hclosed), by
        rw [hjoined, List.map_cons]⟩

theorem exists_grouped (lines : List Line) :
    ∃ groups, Grouped lines groups ∧ joinLines lines = groups.map spaced := by
  cases lines with
  | nil => exact ⟨[], ⟨rfl, nofun, nofun, nofun⟩, rfl⟩
  | cons line lines =>
    have hgroups := exists_grouped_of_staysOpen (List.cons_ne_nil line []) (staysOpen_singleton line) lines
    rwa [spaced_singleton] at hgroups

theorem Grouped.eq_nil (h : Grouped lines groups) (hlines : lines = []) : groups = [] := by
  cases groups with
  | nil => rfl
  | cons group groups =>
    have hnil := h.flatten.trans hlines
    rw [List.flatten_cons, List.append_eq_nil_iff] at hnil
    exact absurd hnil.1 (h.ne_nil group List.mem_cons_self)

theorem Grouped.tail (h : Grouped lines (group :: groups)) : Grouped groups.flatten groups where
  flatten := rfl
  ne_nil := (List.forall_mem_cons.mp h.ne_nil).2
  staysOpen := (List.forall_mem_cons.mp h.staysOpen).2
  closed := by
    cases groups with
    | nil => simp
    | cons => exact (List.forall_mem_cons.mp h.closed).2

/-- A first group is not the start of a longer one: a bracket would have to be open behind it. -/
theorem Grouped.eq_of_isPrefix (h : Grouped lines (group :: groups))
    (hother : Grouped lines (other :: others)) (hstart : group <+: other) : group = other := by
  by_contra hne
  have hopen : 0 < bracketDepth (spaced group) :=
    hother.staysOpen other List.mem_cons_self group hstart (h.ne_nil group List.mem_cons_self) hne
  cases groups with
  | nil =>
    have hlines : group = other ++ others.flatten := by
      simpa using h.flatten.trans hother.flatten.symm
    exact hne (hstart.eq_of_length_le (by simp [hlines]))
  | cons next groups =>
    have hclosed := h.closed group List.mem_cons_self
    omega

theorem Grouped.unique (h : Grouped lines groups) (hother : Grouped lines others) :
    groups = others := by
  induction groups generalizing lines others with
  | nil => exact (hother.eq_nil h.flatten.symm).symm
  | cons group groups ih =>
    cases others with
    | nil => exact h.eq_nil hother.flatten.symm
    | cons other others =>
      have hflatten : group ++ groups.flatten = other ++ others.flatten :=
        h.flatten.trans hother.flatten.symm
      have hfirst : group = other := by
        obtain hstart | hstart := List.prefix_or_prefix_of_prefix
          (List.prefix_append group groups.flatten) (hflatten ▸ List.prefix_append other others.flatten)
        · exact h.eq_of_isPrefix hother hstart
        · exact (hother.eq_of_isPrefix h hstart).symm
      subst hfirst
      have hrest : groups.flatten = others.flatten := List.append_cancel_left hflatten
      rw [ih h.tail (hrest ▸ hother.tail)]

theorem grouped_of_closed (h : ∀ line ∈ lines, bracketDepth line ≤ 0) :
    Grouped lines (lines.map fun line => [line]) where
  flatten := by rw [← List.flatMap_def, List.flatMap_singleton']
  ne_nil := by simp
  staysOpen := by simpa using fun line _ => staysOpen_singleton line
  closed group hgroup := by
    obtain ⟨line, hline, rfl⟩ := List.mem_map.mp ((List.dropLast_prefix _).subset hgroup)
    rw [spaced_singleton]
    exact h line hline

end Groups

/-- Without joining each line is a statement, with joining each group of lines is. -/
theorem split_groups (source : String) :
    let lines := contentLines source.toList
    split .perLine source = lines.map (fun line => String.ofList (finish line)) ∧
      (∃ groups, Grouped lines groups ∧ (∀ others, Grouped lines others → others = groups) ∧
        split .brackets source = groups.map fun group => String.ofList (finish (spaced group))) ∧
      ((∀ line ∈ lines, bracketDepth line ≤ 0) → split .brackets source = split .perLine source) := by
  intro lines
  have hperLine : split .perLine source = lines.map (fun line => String.ofList (finish line)) :=
    List.map_map
  obtain ⟨groups, hgroups, hjoined⟩ := exists_grouped lines
  have hbrackets : split .brackets source =
      groups.map fun group => String.ofList (finish (spaced group)) := by
    have hsplit : split .brackets source = ((joinLines lines).map finish).map String.ofList := rfl
    rw [hsplit, hjoined, List.map_map, List.map_map]
    rfl
  refine ⟨hperLine, ⟨groups, hgroups, fun others hothers => hothers.unique hgroups, hbrackets⟩, ?_⟩
  intro hclosed
  rw [hbrackets, hperLine, hgroups.unique (grouped_of_closed hclosed), List.map_map]
  simp [Function.comp_def, spaced_singleton]

/-- A bracket in a string literal, one in a comment, and one that closes nothing. -/
theorem split_groups_closed :
    let source := "x: \"(\" // (\r\n)\n\n y: (1; 2);"
    (∀ line ∈ contentLines source.toList, bracketDepth line ≤ 0) ∧
      split .brackets source = split .perLine source := by
  intro source
  have hclosed : ∀ line ∈ contentLines source.toList, bracketDepth line ≤ 0 := by decide +kernel
  exact ⟨hclosed, (split_groups source).2.2 hclosed⟩

end TableConsole.Statement
