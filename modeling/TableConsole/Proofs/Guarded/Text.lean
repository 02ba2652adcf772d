import Mathlib.Data.String.Basic
import TableConsole.Proofs.Guarded.Basic
import TableConsole.Proofs.Text.Lines
import TableConsole.Statement

/-! # Guarded slices of texts

A scanner that counts bytes cuts a text at an offset, and an offset has to be the place of a
character or the end of the text. Comments and statements found by offsets are compared with the
ones that are found by walking over the characters.
-/

namespace TableConsole.Guarded

open Text
open String (utf8Len)

set_option autoImplicit false

/-- The texts before and behind a byte offset; nothing within a character or beyond the end. -/
def cut? : Nat → List Char → Option (List Char × List Char)
  | 0, cs => some ([], cs)
  | _ + 1, [] => none
  | offset + 1, c :: cs =>
    (minus? (offset + 1) c.utf8Size).bind fun offset =>
      (cut? offset cs).map fun (before, behind) => (c :: before, behind)

@[simp] theorem cut?_utf8Len (cs ds : List Char) : cut? (utf8Len cs) (cs ++ ds) = some (cs, ds) := by
  induction cs with
  | nil => cases ds <;> rfl
  | cons c cs ih =>
    obtain ⟨n, hn⟩ : ∃ n, utf8Len (c :: cs) = n + 1 :=
      Nat.exists_eq_succ_of_ne_zero (by simp [Nat.ne_of_gt c.utf8Size_pos])
    rw [hn, List.cons_append, cut?, ← hn, String.utf8Len_cons, minus?_add, Option.bind_some, ih]
    rfl

/-- The offset of the second of two slashes in code; `slash` says that one is right before. -/
def secondSlash? (q : Quoting) (slash : Bool) (offset : Nat) : List Char → Option Nat
  | [] => none
  | c :: cs =>
    if q = .code ∧ c = '/' ∧ slash then some offset
    else secondSlash? (q.next c) (if q = .code then c == '/' else slash) (offset + c.utf8Size) cs

def stripComment? (cs : List Char) : Option (List Char) :=
  match secondSlash? .code false 0 cs with
  | some offset => (minus? offset 1).bind fun offset => (cut? offset cs).map (·.1)
  | none => some cs

/-- The slash in front counts for the next character only. -/
theorem secondSlash?_of_head {slash : Bool} {cs : List Char} (h : cs.head? ≠ some '/')
    (offset : Nat) : secondSlash? .code slash offset cs = secondSlash? .code false offset cs := by
  cases cs with
  | nil => rfl
  | cons c cs =>
    have hc : c ≠ '/' := by simpa using h
    simp [secondSlash?, hc]

/-- Without a slash in front, the second slash is one byte behind the text before the comment. -/
theorem secondSlash?_eq (q : Quoting) (offset : Nat) (cs : List Char) :
    secondSlash? q false offset cs =
      if beforeComment q cs = cs then none
      else some (offset + utf8Len (beforeComment q cs) + 1) := by
  induction cs generalizing q offset with
  | nil => rfl
  | cons c cs ih =>
    rw [secondSlash?, if_neg (by simp)]
    by_cases hcomment : q = .code ∧ c = '/' ∧ cs.head? = some '/'
    · obtain ⟨rfl, rfl, hhead⟩ := hcomment
      obtain ⟨ds, rfl⟩ := List.head?_eq_some_iff.mp hhead
      rfl
    · have hflag (offset : Nat) :
          secondSlash? (q.next c) (if q = .code then c == '/' else false) offset cs =
            secondSlash? (q.next c) false offset cs := by
        by_cases hslash : q = .code ∧ c = '/'
        · obtain ⟨rfl, rfl⟩ := hslash
          exact secondSlash?_of_head (by simpa using hcomment) offset
        · grind
      rw [hflag, ih, beforeComment, if_neg hcomment]
      simp [Nat.add_assoc, Nat.add_comm, Nat.add_left_comm]

theorem stripComment?_eq (cs : List Char) : stripComment? cs = some (stripComment cs) := by
  rw [stripComment?, secondSlash?_eq, ← stripComment]
  by_cases h : stripComment cs = cs
  · simp [h]
  · rw [if_neg h, Nat.zero_add]
    have hcut := cut?_utf8Len (stripComment cs) (comment cs)
    rw [stripComment_append_comment] at hcut
    simp [hcut]

def colon? (q : Quoting) (depth : Int) (offset : Nat) : List Char → Option Nat
  | [] => none
  | c :: cs =>
    if q = .code ∧ depth = 0 ∧ c = ':' then some offset
    else colon? (q.next c) (depth + q.bracketStep c) (offset + c.utf8Size) cs

def offset? (d : Char) : List Char → Option Nat
  | [] => none
  | c :: cs => if c = d then some 0 else (offset? d cs).map (c.utf8Size + ·)

theorem colon?_eq (q : Quoting) (depth : Int) (offset : Nat) (cs : List Char) :
    colon? q depth offset cs =
      (splitColonFrom q depth cs).map fun (before, _) => offset + utf8Len before := by
  induction cs generalizing q depth offset with
  | nil => rfl
  | cons c cs ih =>
    rw [colon?, splitColonFrom]
    split
    · rfl
    · rw [ih, Option.map_map]
      congr 1
      funext before
      simp [Nat.add_assoc, Nat.add_comm]

theorem offset?_eq (d : Char) (cs : List Char) :
    offset? d cs = if d ∈ cs then some (utf8Len (cs.takeWhile (· != d))) else none := by
  induction cs with
  | nil => rfl
  | cons c cs ih =>
    by_cases hc : c = d
    · simp [offset?, hc]
    · have hne : ¬ d = c := fun h => hc h.symm
      by_cases hmem : d ∈ cs <;> simp [offset?, ih, hc, hne, hmem, Nat.add_comm]

theorem not_mem_of_offset? {d : Char} {cs : List Char} (h : offset? d cs = none) : d ∉ cs := by
  simpa [offset?_eq] using h

theorem cut?_offset? {d : Char} {cs : List Char} {offset : Nat} (h : offset? d cs = some offset) :
    d ∈ cs ∧ cut? offset cs = some (cs.takeWhile (· != d), cs.dropWhile (· != d)) := by
  rw [offset?_eq] at h
  split at h <;> cases h
  have hcut := cut?_utf8Len (cs.takeWhile (· != d)) (cs.dropWhile (· != d))
  rw [List.takeWhile_append_dropWhile] at hcut
  exact ⟨‹_›, hcut⟩

/-- The shape of a text without a binding in it. -/
def shape? (cs : List Char) : Option Statement :=
  let other : Statement :=
    if Statement.startsSelect cs then .query (String.ofList cs) else .expression (String.ofList cs)
  match offset? '[' cs with
  | some opening =>
    (cut? opening cs).map fun (before, _) =>
      let f := trim before
      if ']' ∈ cs ∧ isIdentifier f then .call (String.ofList f) (String.ofList cs) else other
  | none => some other

def ofTrimmed? (cs : List Char) : Option Statement :=
  match colon? .code 0 0 cs with
  | some colon =>
    (cut? colon cs).bind fun (before, _) =>
      let target := trim before
      match offset? '{' target with
      | some brace =>
        (cut? brace target).map fun (before, _) =>
          .definition (String.ofList (trim before)) (String.ofList cs)
      | none =>
        if isIdentifier target then
          (cut? (colon + 1) cs).map fun (_, behind) =>
            .assignment (String.ofList target) (String.ofList (trim behind))
        else shape? cs
  | none => shape? cs

def statement? (s : String) : Option Statement :=
  ofTrimmed? (trim s.toList)

theorem shape?_eq (cs : List Char) (h : Statement.binding? cs = none) :
    shape? cs = some (Statement.ofTrimmed cs) := by
  rw [Statement.ofTrimmed, h, shape?, Statement.callee?]
  cases hopening : offset? '[' cs with
  | none =>
    simp [not_mem_of_offset? hopening]
  | some opening =>
    obtain ⟨hmem, hcut⟩ := cut?_offset? hopening
    by_cases hcall : ']' ∈ cs ∧ isIdentifier (trim (cs.takeWhile (· != '['))) = true <;>
      simp [hcut, hmem, hcall]

theorem ofTrimmed?_eq (cs : List Char) : ofTrimmed? cs = some (Statement.ofTrimmed cs) := by
  rw [ofTrimmed?, colon?_eq]
  cases hsplit : splitColonFrom .code 0 cs with
  | none => exact shape?_eq cs (by rw [Statement.binding?, splitColon?, hsplit])
  | some split =>
    obtain ⟨before, behind⟩ := split
    have hcs := eq_of_splitColonFrom hsplit
    have hbefore : cut? (utf8Len before) cs = some (before, ':' :: behind) := by
      rw [hcs, cut?_utf8Len]
    have hbehind : cut? (utf8Len before + 1) cs = some (before ++ [':'], behind) := by
      have h := cut?_utf8Len (before ++ [':']) behind
      rw [List.append_assoc, List.singleton_append, ← hcs, String.utf8Len_append] at h
      exact h
    have hbinding : Statement.binding? cs =
        if '{' ∈ trim before then
          some (.definition (String.ofList (trim ((trim before).takeWhile (· != '{'))))
            (String.ofList cs))
        else if isIdentifier (trim before) then
          some (.assignment (String.ofList (trim before)) (String.ofList (trim behind)))
        else none := by
      rw [Statement.binding?, splitColon?, hsplit]
    simp only [Option.map_some, Nat.zero_add, hbefore, Option.bind_some]
    cases hbrace : offset? '{' (trim before) with
    | some brace =>
      obtain ⟨hmem, hcut⟩ := cut?_offset? hbrace
      rw [Statement.ofTrimmed, hbinding, if_pos hmem]
      simp [hcut]
    | none =>
      rw [if_neg (not_mem_of_offset? hbrace)] at hbinding
      split at hbinding
      · rename_i hname
        simp [hname, hbehind, Statement.ofTrimmed, hbinding]
      · rename_i hname
        simpa [hname] using shape?_eq cs hbinding

theorem statement?_eq (s : String) : statement? s = some (Statement.ofText s) :=
  ofTrimmed?_eq _

end TableConsole.Guarded
