import TableConsole.Proofs.Display.Columns
import TableConsole.Proofs.Session.Chain
import TableConsole.Proofs.Session.Reference
import TableConsole.Proofs.Session.WellFormed

/-! # What a run displays

The lines of a run are blocks, one for each statement and in their order. A block has the statement
in front unless it is a binding, and then one or two lines for the outcome or one for the error. If
lines are not joined, the statements are the lines of the source that are neither blank nor a
comment from their first character on. There are no lines at all exactly if a statement shows a
table that is too wide.
-/

namespace TableConsole

set_option autoImplicit false

open Text

/-- A blank line, or a comment with nothing in front of it. -/
def Text.isRemark (line : List Char) : Bool :=
  (trim line).isEmpty || "//".toList.isPrefixOf (trim line)

theorem Text.isEmpty_content (line : List Char) : (content line).isEmpty = isRemark line := by
  obtain ⟨before, behind, hline, hbefore, hbehind⟩ := exists_trim line
  rw [isRemark, Bool.eq_iff_iff, List.isEmpty_iff, content, trim_eq_nil_iff]
  cases htrim : trim line with
  | nil =>
    have hblank := trim_eq_nil_iff.mp htrim
    exact iff_of_true (fun c hc => hblank c ((beforeComment_isPrefix .code line).subset hc)) rfl
  | cons c ds =>
    have hc := isBlank_of_trim_eq_cons htrim
    rw [htrim, List.append_assoc, List.cons_append] at hline
    have hstrip := stripComment_append_of_isBlank hbefore (c :: (ds ++ behind))
    have hhead : (ds ++ behind).head? = some '/' ↔ ds.head? = some '/' := by
      cases ds with
      | cons d ds => rfl
      | nil =>
        refine iff_of_false (fun h => ?_) (fun h => ?_)
        · cases hbehind '/' (List.mem_of_head? h)
        · cases h
    by_cases hslashes : c = '/' ∧ ds.head? = some '/'
    · have hnone : stripComment (c :: (ds ++ behind)) = [] := by
        rw [stripComment, beforeComment, if_pos ⟨rfl, hslashes.1, hhead.mpr hslashes.2⟩]
      obtain ⟨rfl, hd⟩ := hslashes
      obtain ⟨ds, rfl⟩ := List.head?_eq_some_iff.mp hd
      rw [hline, hstrip, hnone, List.append_nil]
      exact iff_of_true hbefore rfl
    · have hsome : c ∈ stripComment line := by
        rw [hline, hstrip, stripComment, beforeComment,
          if_neg fun h => hslashes ⟨h.2.1, hhead.mp h.2.2⟩]
        exact List.mem_append_right before List.mem_cons_self
      refine iff_of_false (fun h => ?_) fun hprefix => ?_
      · rw [h c hsome] at hc
        cases hc
      · obtain ⟨rest, hrest⟩ := List.isPrefixOf_iff_prefix.mp hprefix
        cases hrest
        exact hslashes ⟨rfl, rfl⟩

theorem Statement.length_split_perLine (source : String) :
    (split .perLine source).length = (lines source.toList).countP (!isRemark ·) := by
  have hempty : ((!·.isEmpty) ∘ content : List Char → Bool) = (!isRemark ·) :=
    funext fun line => congrArg (!·) (isEmpty_content line)
  simp only [split, splitChars, contentLines, List.length_map, List.filter_map,
    List.countP_eq_length_filter, ← hempty]
  rfl

def Outcome.isBinding : Outcome → Bool
  | .assigned .. | .defined _ => true
  | .value _ => false

theorem evaluate_isBinding {settings : Settings} {symbols : Symbols} {line : String}
    {outcome : Outcome} (h : (evaluate settings symbols line).1 = .ok outcome) :
    outcome.isBinding = (Statement.ofText line).isBinding := by
  rw [evaluate, evaluateStatement] at h
  cases hst : Statement.ofText line with
  | assignment name text =>
    rw [hst] at h
    obtain ⟨v, left, -, -, rfl⟩ := Evaluation.statement_assignment (Prod.ext h rfl)
    rw [Evaluation.reported]
    split <;> rfl
  | definition name source =>
    rw [hst] at h
    cases h
    rfl
  | call | query | expression =>
    rw [hst] at h
    obtain ⟨v, -, rfl⟩ := Except.map_eq_ok_iff.mp h
    rfl

def Style.isPlain : Style → Bool
  | .prompt | .error => false
  | .value | .table | .text | .comment => true

/-- The table that is shown for an outcome. -/
def Outcome.table? : Outcome → Option (Table Value)
  | .assigned _ (.table t) | .value (.table t) => some t
  | _ => none

theorem Outcome.Has.table {P : Value → Prop} {outcome : Outcome} (h : outcome.Has P)
    {t : Table Value} (ht : outcome.table? = some t) : P (.table t) := by
  cases outcome with
  | assigned name v | value v =>
    cases v with
    | table =>
      cases ht
      exact h
    | list | atom | function => cases ht
  | defined name => cases ht

section Lines

variable {v : Value} {outcome : Outcome} {line : DisplayLine} {lines : List DisplayLine}

theorem Value.isPlain_of_display? (h : v.display? = some line) : line.style.isPlain = true := by
  cases v with
  | atom a => cases a <;> cases h <;> rfl
  | list | function =>
    cases h
    rfl
  | table t =>
    obtain ⟨text, -, rfl⟩ := Option.map_eq_some_iff.mp h
    rfl

theorem Value.display?_eq_none_iff :
    v.display? = none ↔ ∃ t, v = .table t ∧ t.text? = none := by
  cases v with
  | atom a => cases a <;> exact iff_of_false nofun fun ⟨_, h, _⟩ => nomatch h
  | list | function => exact iff_of_false nofun fun ⟨_, h, _⟩ => nomatch h
  | table t => simp [Value.display?]

theorem Outcome.display?_assigned (name : String) (h : v.display? = some line) :
    (Outcome.assigned name v).display? = some [.comment ("// Assigned to variable: " ++ name)] ∨
      (Outcome.assigned name v).display? =
        some [.comment ("// Assigned to variable: " ++ name), line] := by
  cases v with
  | table | list =>
    rw [Outcome.display?, h]
    exact .inr rfl
  | atom | function => exact .inl rfl

theorem Outcome.display?_shape (h : outcome.display? = some lines) :
    (∀ line ∈ lines, line.style.isPlain = true) ∧
      (lines.length = 1 ∨ outcome.isBinding = true ∧ lines.length = 2) := by
  cases outcome with
  | assigned name v =>
    cases hv : v.display? with
    | none =>
      obtain ⟨t, rfl, ht⟩ := Value.display?_eq_none_iff.mp hv
      rw [Outcome.display?, hv] at h
      cases h
    | some line =>
      obtain hone | htwo := Outcome.display?_assigned name hv
      · obtain rfl := Option.some.inj (hone.symm.trans h)
        exact ⟨List.forall_mem_singleton.mpr rfl, .inl rfl⟩
      · obtain rfl := Option.some.inj (htwo.symm.trans h)
        refine ⟨List.forall_mem_cons.mpr ⟨rfl, ?_⟩, .inr ⟨rfl, rfl⟩⟩
        exact List.forall_mem_singleton.mpr (Value.isPlain_of_display? hv)
  | defined name =>
    cases h
    exact ⟨List.forall_mem_singleton.mpr rfl, .inl rfl⟩
  | value v =>
    obtain ⟨line, hline, rfl⟩ := Option.map_eq_some_iff.mp h
    exact ⟨List.forall_mem_singleton.mpr (Value.isPlain_of_display? hline), .inl rfl⟩

theorem Outcome.display?_eq_none_iff :
    outcome.display? = none ↔ ∃ t, outcome.table? = some t ∧ t.text? = none := by
  cases outcome with
  | assigned name v =>
    cases v with
    | table t => simp [Outcome.display?, Outcome.table?, Value.display?]
    | list | atom | function => exact iff_of_false nofun fun ⟨_, h, _⟩ => nomatch h
  | defined name => exact iff_of_false nofun fun ⟨_, h, _⟩ => nomatch h
  | value v =>
    rw [Outcome.display?, Option.map_eq_none_iff, Value.display?_eq_none_iff]
    cases v with
    | table t => simp [Outcome.table?]
    | list | atom | function =>
      exact iff_of_false (fun ⟨_, h, _⟩ => nomatch h) fun ⟨_, h, _⟩ => nomatch h

theorem filter_style_eq_nil (h : ∀ line ∈ lines, line.style.isPlain = true) {style : Style}
    (hstyle : style.isPlain = false) : lines.filter (·.style = style) = [] := by
  refine List.filter_eq_nil_iff.mpr fun line hline heq => ?_
  rw [← of_decide_eq_true heq, h line hline] at hstyle
  cases hstyle

end Lines

namespace Session

def errorLines : Except EvalError Outcome → List DisplayLine
  | .ok _ => []
  | .error e => [e.display]

def Shows (result : Except EvalError Outcome) (t : Table Value) : Prop :=
  ∃ outcome, result = .ok outcome ∧ outcome.table? = some t

section Results

variable {result : Except EvalError Outcome} {lines : List DisplayLine}

theorem resultLines?_eq_none_iff :
    resultLines? result = none ↔ ∃ t, Shows result t ∧ t.text? = none := by
  cases result with
  | error e => exact iff_of_false nofun fun ⟨_, ⟨_, h, _⟩, _⟩ => nomatch h
  | ok outcome =>
    rw [resultLines?, Outcome.display?_eq_none_iff]
    simp [Shows]

theorem filter_resultLines? (h : resultLines? result = some lines) :
    lines.filter (·.style = .prompt) = [] ∧ lines.filter (·.style = .error) = errorLines result := by
  cases result with
  | ok outcome =>
    obtain ⟨hplain, -⟩ := Outcome.display?_shape h
    exact ⟨filter_style_eq_nil hplain rfl, filter_style_eq_nil hplain rfl⟩
  | error e =>
    cases h
    exact ⟨rfl, rfl⟩

end Results

def block? (text : String) (result : Except EvalError Outcome) : Option (List DisplayLine) :=
  (resultLines? result).map (heading text ++ ·)

theorem runAll_fst (s : Session) (texts : List String) :
    (s.runAll texts).1 =
      ((s.trace texts).mapM fun step => block? step.1 step.2).map List.flatten := by
  induction texts generalizing s with
  | nil => rfl
  | cons text texts ih =>
    cases h : resultLines? (s.evaluate text).1 with
    | none =>
      rw [runAll_cons_of_none h, trace_cons_of_none h, List.mapM_cons, block?, h]
      rfl
    | some lines =>
      rw [runAll_cons_of_some h, trace_cons_of_some h, List.mapM_cons, block?, h, ih]
      cases ((s.evaluate text).2.trace texts).mapM fun step => block? step.1 step.2 <;> rfl

structure Accounts (text : String) (result : Except EvalError Outcome)
    (block : List DisplayLine) : Prop where
  length : block.length = 1 ∨ block.length = 2
  prompts : block.filter (·.style = .prompt) =
    if (Statement.ofText text).isBinding then [] else [.prompt text]
  first : (Statement.ofText text).isBinding = false → block.head? = some (.prompt text)
  errors : block.filter (·.style = .error) = errorLines result
  last : ∀ e, result = .error e → block.getLast? = some e.display

theorem accounts_of_block? {text : String} {result : Except EvalError Outcome}
    {block : List DisplayLine} (hblock : block? text result = some block)
    (h : ∀ outcome, result = .ok outcome →
      outcome.isBinding = (Statement.ofText text).isBinding) :
    Accounts text result block := by
  obtain ⟨lines, hlines, rfl⟩ := Option.map_eq_some_iff.mp hblock
  obtain ⟨hprompts, herrors⟩ := filter_resultLines? hlines
  constructor
  case length =>
    rw [List.length_append, heading]
    cases result with
    | error e =>
      cases hlines
      cases (Statement.ofText text).isBinding <;> simp
    | ok outcome =>
      obtain hone | ⟨hbinding, htwo⟩ := (Outcome.display?_shape hlines).2
      · cases (Statement.ofText text).isBinding <;> simp [hone]
      · rw [← h outcome rfl, hbinding]
        simp [htwo]
  case prompts =>
    rw [List.filter_append, hprompts, List.append_nil, heading]
    split <;> rfl
  case first =>
    intro hbinding
    rw [heading, hbinding]
    rfl
  case errors =>
    rw [List.filter_append, herrors, heading]
    split <;> rfl
  case last =>
    rintro e rfl
    cases hlines
    exact List.getLast?_concat

abbrev Accounted (trace : List (String × Except EvalError Outcome))
    (blocks : List (List DisplayLine)) : Prop :=
  List.Forall₂ (fun step block => Accounts step.1 step.2 block) trace blocks

theorem map_fst_trace {s : Session} {texts : List String} {output : List DisplayLine}
    (h : (s.runAll texts).1 = some output) : (s.trace texts).map (·.1) = texts := by
  induction texts generalizing s output with
  | nil => rfl
  | cons text texts ih =>
    cases hlines : resultLines? (s.evaluate text).1 with
    | none =>
      rw [runAll_cons_of_none hlines] at h
      cases h
    | some lines =>
      rw [runAll_cons_of_some hlines] at h
      obtain ⟨rest, hrest, -⟩ := Option.map_eq_some_iff.mp h
      rw [trace_cons_of_some hlines, List.map_cons, ih hrest]

theorem isBinding_of_mem_trace {s : Session} {texts : List String}
    {step : String × Except EvalError Outcome} (hstep : step ∈ s.trace texts) {outcome : Outcome}
    (h : step.2 = .ok outcome) : outcome.isBinding = (Statement.ofText step.1).isBinding := by
  induction texts generalizing s with
  | nil => cases hstep
  | cons text texts ih =>
    obtain rfl | hstep := List.mem_cons.mp hstep
    · exact evaluate_isBinding h
    · split at hstep
      · exact ih hstep
      · cases hstep

theorem exists_accounted {s : Session} {texts : List String} {output : List DisplayLine}
    (h : (s.runAll texts).1 = some output) :
    ∃ blocks, output = blocks.flatten ∧ Accounted (s.trace texts) blocks := by
  rw [runAll_fst] at h
  obtain ⟨blocks, hblocks, rfl⟩ := Option.map_eq_some_iff.mp h
  have hpairs := Option.mapM_eq_some_iff.mp hblocks
  refine ⟨blocks, rfl, ?_⟩
  refine (List.forall₂_and_left _ _).mpr ⟨fun step hstep => hstep, hpairs⟩ |>.imp ?_
  rintro step block ⟨hstep, hblock⟩
  exact accounts_of_block? hblock fun outcome => isBinding_of_mem_trace hstep

theorem run_eq_none_iff (s : Session) (source : String) :
    (s.run source).1 = none ↔
      ∃ step ∈ s.trace (s.statements source), ∃ t, Shows step.2 t ∧ t.text? = none := by
  have hrun : (s.run source).1 = _ := s.runAll_fst (s.statements source)
  simp only [hrun, Option.map_eq_none_iff, Option.mapM_eq_none_iff, block?, resultLines?_eq_none_iff]

theorem run_eq_none_iff_fits {s : Session} (hs : s.symbols.WellFormed) (source : String) :
    (s.run source).1 = none ↔
      ∃ step ∈ s.trace (s.statements source), ∃ t, Shows step.2 t ∧ ¬ t.Fits := by
  have htrace := Invariant.keeps_trace Invariant.wellFormed_kept hs (s.statements source)
    fun _ _ => .inl trivial
  have hformed {step} (hstep : step ∈ s.trace (s.statements source)) {t : Table Value}
      (hshows : Shows step.2 t) : t.WellFormed := by
    obtain ⟨outcome, houtcome, ht⟩ := hshows
    have hvalue : (Value.table t).WellFormed := (htrace step hstep outcome houtcome).table ht
    exact (Value.wellFormed_table_iff.mp hvalue).1
  rw [run_eq_none_iff]
  refine exists_congr fun step => and_congr_right fun hstep => exists_congr fun t =>
    and_congr_right fun hshows => ?_
  rw [← TableText.isSome_text?_iff (hformed hstep hshows), Option.not_isSome_iff_eq_none]

section Counts

variable {trace : List (String × Except EvalError Outcome)} {blocks : List (List DisplayLine)}

theorem Accounted.length_le (h : Accounted trace blocks) :
    trace.length ≤ blocks.flatten.length := by
  induction h with
  | nil => exact Nat.le_refl 0
  | cons hblock _ ih =>
    have hlength := hblock.length
    rw [List.flatten_cons, List.length_append, List.length_cons]
    omega

theorem Accounted.countP_errors (h : Accounted trace blocks) :
    blocks.flatten.countP (·.style = .error) = trace.countP (!·.2.isOk) := by
  induction h with
  | nil => rfl
  | @cons step _ _ _ hblock _ ih =>
    rw [List.flatten_cons, List.countP_append, List.countP_eq_length_filter, hblock.errors, ih,
      List.countP_cons, Nat.add_comm]
    cases step.2 <;> rfl

end Counts

/-- If lines are not joined, every line that is no remark is a statement, and what a run displays
are blocks that account for the statements one by one. So there are no fewer lines than statements,
and as many error lines as failures. Nothing is displayed exactly if a statement shows a table that
has no text, which is one that does not fit. -/
theorem output_accounts {s : Session} (hjoin : s.settings.joining = .perLine) (source : String) :
    let trace := s.trace (s.statements source)
    (∀ output, (s.run source).1 = some output →
      (∃ blocks, output = blocks.flatten ∧ Accounted trace blocks) ∧
      trace.length = (lines source.toList).countP (!isRemark ·) ∧
      trace.length ≤ output.length ∧
      output.countP (·.style = .error) = trace.countP (!·.2.isOk)) ∧
    ((s.run source).1 = none ↔ ∃ step ∈ trace, ∃ t, Shows step.2 t ∧ t.text? = none) ∧
    (s.symbols.WellFormed →
      ((s.run source).1 = none ↔ ∃ step ∈ trace, ∃ t, Shows step.2 t ∧ ¬ t.Fits)) := by
  intro trace
  refine ⟨fun output houtput => ?_, run_eq_none_iff s source,
    fun hs => run_eq_none_iff_fits hs source⟩
  have hrun : (s.runAll (s.statements source)).1 = some output := houtput
  obtain ⟨blocks, rfl, haccounted⟩ := exists_accounted hrun
  have hlength : trace.length = (s.statements source).length := by
    rw [← map_fst_trace hrun, List.length_map]
  refine ⟨⟨blocks, rfl, haccounted⟩, ?_, haccounted.length_le, haccounted.countP_errors⟩
  rw [hlength, statements, hjoin, Statement.length_split_perLine]

/-- Remarks, slashes in a text, a lone semicolon, and a binding that shows its value. -/
theorem output_accounts_remarks :
    let s := withSample {}
    let source := "// set-up\n  \nx: (1;\"a // b\") // list\n /\n;\nf\x7bx\x7d: x\nx / 2\n  // end"
    let trace := s.trace (s.statements source)
    s.settings.joining = .perLine ∧ ∃ output, (s.run source).1 = some output ∧
      (∃ blocks, output = blocks.flatten ∧ Accounted trace blocks) ∧
      (lines source.toList).countP (!isRemark ·) = 5 ∧ trace.length = 5 ∧
      output.countP (·.style = .error) = 3 := by
  intro s source trace
  have hshown : (s.run source).1.isSome = true := by decide +kernel
  obtain ⟨output, houtput⟩ := Option.isSome_iff_exists.mp hshown
  obtain ⟨hblocks, hlength, -, herrors⟩ := (output_accounts (s := s) rfl source).1 output houtput
  have hcount : (lines source.toList).countP (!isRemark ·) = 5 := by decide +kernel
  have hfailures : trace.countP (!·.2.isOk) = 3 := by decide +kernel
  exact ⟨rfl, output, houtput, hblocks, hcount, hlength.trans hcount, herrors.trans hfailures⟩

/-- The statement is evaluated, but not even its prompt is displayed. -/
theorem output_accounts_too_wide :
    let cell := String.ofList (List.replicate (TableText.maxWidth + 1) 'x')
    let t : Table Value := ⟨["x"], [[.atom (.text cell)]]⟩
    let s : Session := ⟨{}, Symbols.empty.insert "t" (.table t)⟩
    s.settings.joining = .perLine ∧ (lines "t".toList).countP (!isRemark ·) = 1 ∧
      s.trace (s.statements "t") = [("t", .ok (.value (.table t)))] ∧ (s.run "t").1 = none := by
  intro cell t s
  have hwide : t.text? = none := by
    refine Table.text?_eq_none_of_wide "x" ?_
    rw [String.length_ofList, List.length_replicate]
    exact Nat.lt_succ_self TableText.maxWidth
  have hname : Referable "t" := by decide +kernel
  have hvalue := hname.evaluate s.settings (Symbols.empty.get?_insert_self "t" (.table t))
  have hresult : (s.evaluate "t").1 = .ok (.value (.table t)) := by rw [evaluate_outcome, hvalue]
  have hstatements : s.statements "t" = ["t"] := by decide +kernel
  have hlines : resultLines? (s.evaluate "t").1 = none :=
    resultLines?_eq_none_iff.mpr ⟨t, ⟨_, hresult, rfl⟩, hwide⟩
  have htrace : s.trace (s.statements "t") = [("t", .ok (.value (.table t)))] := by
    rw [hstatements, trace_cons_of_none hlines, hresult]
  refine ⟨rfl, by decide +kernel, htrace, (run_eq_none_iff s "t").mpr ?_⟩
  rw [htrace]
  exact ⟨_, List.mem_singleton_self _, t, ⟨_, rfl, rfl⟩, hwide⟩

end Session

end TableConsole
