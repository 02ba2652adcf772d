import TableConsole.Proofs.Guarded.Display
import TableConsole.Proofs.Guarded.Eval
import TableConsole.Proofs.Guarded.Parser
import TableConsole.Proofs.Guarded.Text
import TableConsole.Proofs.Session.WideTable

/-! # Guarded runs

A run that reads, evaluates and shows its statements with guarded operations only. From the symbols
that any use of a session leaves, it never stops at one of them, and it shows what a run shows. What
remains is the padding of a column that is too wide: there both are cut short.
-/

namespace TableConsole.Guarded

set_option autoImplicit false

def readExpr (text : String) : Except (Halt EvalError) Expr :=
  (exprOf text).mapError (Halt.map .parse)

def readQuery (text : String) : Except (Halt EvalError) Query :=
  (queryOf text).mapError (Halt.map .parse)

def echoing (settings : Settings) (text : String) (r : Except (Halt EvalError) Value) :
    Except (Halt EvalError) Value :=
  match r with
  | .error (.error e) => lift (Evaluation.echoing settings text (.error e))
  | r => r

section Statements

variable (settings : Settings) (symbols : Symbols)

def frame : Frame :=
  ⟨symbols, settings.mode, none⟩

def tableLiteral (text : String) : Except (Halt EvalError) Value :=
  match settings.mode with
  | .canned => .ok (.table (Sample.literal text))
  | .computed => do
    match ← (frame settings symbols).eval (← readExpr text) with
    | .table t => .ok (.table t)
    | v => .error (.error (.table (.notLiteral v.kind)))

def expression (text : String) : Except (Halt EvalError) Value :=
  if "([".isPrefixOf text then echoing settings text (tableLiteral settings symbols text)
  else if Evaluation.isArithmetic text then do
    let e ← (exprOf text).mapError (Halt.map fun _ => .arithmetic text)
    (frame settings symbols).eval e
  else echoing settings text (do (frame settings symbols).eval (← readExpr text))

def call (f source : String) : Except (Halt EvalError) Value :=
  if settings.mode = .canned ∧ Text.contains f "calculateVWAP" then .ok (.table Sample.vwap)
  else echoing settings source (do (frame settings symbols).evalCall (← readExpr source))

def query (text : String) : Except (Halt EvalError) Value :=
  match settings.mode with
  | .canned => .ok (.table (Sample.query text))
  | .computed =>
    echoing settings text (do
      (← (frame settings symbols).answer (← readQuery text)) |> .table |> .ok)

end Statements

abbrev RightHandSide := String → Symbols → Except (Halt EvalError) Value × Symbols

def statement (settings : Settings) (right : RightHandSide) (symbols : Symbols) :
    Statement → Except (Halt EvalError) Outcome × Symbols
  | .assignment name text =>
    match right text symbols with
    | (.ok v, symbols) =>
      let (outcome, symbols) := Evaluation.bind name v symbols
      (.ok outcome, symbols)
    | (.error e, symbols) => (.error e, symbols)
  | .definition name source =>
    (.ok (.defined name), symbols.insert name (.function source))
  | .call f source => ((call settings symbols f source).map .value, symbols)
  | .query text => ((query settings symbols text).map .value, symbols)
  | .expression text => ((expression settings symbols text).map .value, symbols)

def rightHandSide (settings : Settings) : Nat → RightHandSide
  | 0 => fun _ symbols => (.error (.error (.parse .tooDeep)), symbols)
  | budget + 1 => fun text symbols =>
    match statement? text with
    | none => (.error .breach, symbols)
    | some st =>
      match statement settings (rightHandSide settings budget) symbols st with
      | (.ok outcome, symbols) => (lift (Evaluation.valueOf symbols outcome), symbols)
      | (.error e, symbols) => (.error e, symbols)

def resultLines? : Except (Halt EvalError) Outcome → Option (Option (List DisplayLine))
  | .ok outcome => outcomeLines? outcome
  | .error (.error e) => some (some [e.display])
  | .error .breach => none

def runStatement? (s : Session) (text : String) : Option (Option (List DisplayLine) × Session) :=
  (statement? text).bind fun st =>
    let right := rightHandSide s.settings maxNesting
    let (result, symbols) := statement s.settings right s.symbols st
    (resultLines? result).map fun lines =>
      (lines.map ((if st.isBinding then [] else [.prompt text]) ++ ·), { s with symbols })

def runAll? (s : Session) : List String → Option (Option (List DisplayLine) × Session)
  | [] => some (some [], s)
  | text :: texts =>
    (runStatement? s text).bind fun
      | (none, s) => some (none, s)
      | (some block, s) => (runAll? s texts).map fun (lines, s) => (lines.map (block ++ ·), s)

def contentLines? (cs : List Char) : Option (List (List Char)) :=
  ((Text.lines cs).mapM stripComment?).map fun lines =>
    (lines.map Text.trim).filter (!·.isEmpty)

def split? (joining : Joining) (source : String) : Option (List String) :=
  (contentLines? source.toList).map fun lines =>
    ((match joining with
      | .perLine => lines
      | .brackets => Statement.joinLines lines).map Statement.finish).map String.ofList

def run? (s : Session) (source : String) : Option (Option (List DisplayLine) × Session) :=
  (split? s.settings.joining source).bind (runAll? s)

theorem contentLines?_eq (cs : List Char) :
    contentLines? cs = some (Statement.contentLines cs) := by
  have hstrip : (Text.lines cs).mapM stripComment? = some ((Text.lines cs).map Text.stripComment) :=
    Option.mapM_eq_some fun line _ => stripComment?_eq line
  rw [contentLines?, hstrip, Option.map_some, List.map_map]
  rfl

theorem split?_eq (joining : Joining) (source : String) :
    split? joining source = some (Statement.split joining source) := by
  rw [split?, contentLines?_eq]
  rfl

theorem echoing_faithful (settings : Settings) (text : String) {g : Except (Halt EvalError) Value}
    {r : Except EvalError Value} (h : Faithful g r) :
    Faithful (echoing settings text g) (Evaluation.echoing settings text r) := by
  obtain ⟨rfl, hproper⟩ := h
  cases r with
  | ok v => exact .ok v
  | error e =>
    refine .of_proper ?_
    unfold Evaluation.echoing
    dsimp only
    split
    · rfl
    · exact hproper

theorem mapError_faithful {α ε : Type} (f : ε → EvalError) (hf : ∀ e, isProperError (f e))
    (r : Except ε α) : Faithful ((lift r).mapError (Halt.map f)) (r.mapError f) := by
  cases r with
  | ok a => exact .ok a
  | error e => exact .error (hf e)

theorem readExpr_faithful (text : String) :
    Faithful (readExpr text) (Evaluation.readExpr text) := by
  rw [readExpr, exprOf_eq]
  exact mapError_faithful _ (fun _ => rfl) _

theorem readQuery_faithful (text : String) :
    Faithful (readQuery text) (Evaluation.readQuery text) := by
  rw [readQuery, queryOf_eq]
  exact mapError_faithful _ (fun _ => rfl) _

section Statements

variable {settings : Settings} {symbols : Symbols}

theorem frame_sees (h : symbols.WellFormed) :
    (frame settings symbols).Sees (Evaluation.scope settings symbols) :=
  Frame.Sees.global h settings.mode

variable (hsymbols : symbols.WellFormed)

include hsymbols

theorem tableLiteral_faithful (text : String) :
    Faithful (tableLiteral settings symbols text)
      (Evaluation.tableLiteral settings symbols text) := by
  unfold tableLiteral Evaluation.tableLiteral
  cases settings.mode with
  | canned => exact .ok _
  | computed =>
    refine (readExpr_faithful text).bind fun e _ => ?_
    refine ((frame_sees hsymbols).eval_faithful e).bind fun v _ => ?_
    cases v with
    | table t => exact .ok _
    | atom | list | function => exact .error rfl

theorem expression_faithful (text : String) :
    Faithful (expression settings symbols text) (Evaluation.expression settings symbols text) := by
  unfold expression Evaluation.expression
  split
  · exact echoing_faithful settings text (tableLiteral_faithful hsymbols text)
  · split
    · rw [exprOf_eq]
      cases Expr.ofText text with
      | ok e => exact (frame_sees hsymbols).eval_faithful e
      | error e => exact .error rfl
    · refine echoing_faithful settings text ?_
      refine (readExpr_faithful text).bind fun e _ => ?_
      exact (frame_sees hsymbols).eval_faithful e

theorem call_faithful (f source : String) :
    Faithful (call settings symbols f source) (Evaluation.call settings symbols f source) := by
  unfold call Evaluation.call
  split
  · exact .ok _
  · refine echoing_faithful settings source ?_
    refine (readExpr_faithful source).bind fun e _ => ?_
    exact (frame_sees hsymbols).evalCall_faithful e

theorem query_faithful (text : String) :
    Faithful (query settings symbols text) (Evaluation.query settings symbols text) := by
  unfold query Evaluation.query
  cases settings.mode with
  | canned => exact .ok _
  | computed =>
    refine echoing_faithful settings text ?_
    refine (readQuery_faithful text).bind fun q _ => ?_
    refine ((frame_sees hsymbols).answer_faithful q).bind fun t _ => ?_
    exact .ok (Value.table t)

end Statements

structure Agrees {α : Type} (g : Except (Halt EvalError) α × Symbols)
    (r : Except EvalError α × Symbols) : Prop where
  result : Faithful g.1 r.1
  symbols : g.2 = r.2

theorem Agrees.cases {α : Type} {g : Except (Halt EvalError) α × Symbols}
    {r : Except EvalError α × Symbols} (h : Agrees g r) :
    (∃ a left, g = (.ok a, left) ∧ r = (.ok a, left)) ∨
      ∃ e left, isProperError e ∧ g = (.error (.error e), left) ∧ r = (.error e, left) := by
  obtain ⟨result, left⟩ := r
  obtain ⟨⟨hresult, hproper⟩, hleft⟩ := h
  have hg : g = (lift result, left) := Prod.ext hresult hleft
  cases result with
  | ok a => exact .inl ⟨a, left, hg, rfl⟩
  | error e => exact .inr ⟨e, left, hproper, hg, rfl⟩

section Agreement

variable {settings : Settings} {symbols : Symbols}

theorem statement_agrees {right : RightHandSide} {right' : Evaluation.RightHandSide}
    (hright : ∀ text, Agrees (right text symbols) (right' text symbols))
    (hsymbols : symbols.WellFormed) (st : Statement) :
    Agrees (statement settings right symbols st)
      (Evaluation.statement settings right' symbols st) := by
  cases st with
  | assignment name text =>
    obtain ⟨v, left, hg, hr⟩ | ⟨e, left, he, hg, hr⟩ := (hright text).cases
    · rw [statement, hg, Evaluation.statement, hr]
      exact ⟨.ok _, rfl⟩
    · rw [statement, hg, Evaluation.statement, hr]
      exact ⟨.error he, rfl⟩
  | definition name source => exact ⟨.ok _, rfl⟩
  | call f source => exact ⟨(call_faithful hsymbols f source).map Outcome.value, rfl⟩
  | query text => exact ⟨(query_faithful hsymbols text).map Outcome.value, rfl⟩
  | expression text => exact ⟨(expression_faithful hsymbols text).map Outcome.value, rfl⟩

theorem proper_valueOf (symbols : Symbols) (outcome : Outcome) :
    isProper (Evaluation.valueOf symbols outcome) := by
  cases outcome with
  | assigned | value => rfl
  | defined name =>
    rw [Evaluation.valueOf]
    split <;> rfl

theorem rightHandSide_agrees (hsymbols : symbols.WellFormed) (budget : Nat) (text : String) :
    Agrees (rightHandSide settings budget text symbols)
      (Evaluation.rightHandSide settings budget text symbols) := by
  -- On the assignments that may still be chained; all are evaluated with the same symbols.
  induction budget generalizing text with
  | zero => exact ⟨.error rfl, rfl⟩
  | succ budget ih =>
    have hstatement : Agrees
        (statement settings (rightHandSide settings budget) symbols (Statement.ofText text))
        (Evaluation.statement settings (Evaluation.rightHandSide settings budget) symbols
          (Statement.ofText text)) :=
      statement_agrees ih hsymbols _
    simp only [rightHandSide, statement?_eq, Evaluation.rightHandSide]
    obtain ⟨outcome, left, hg, hr⟩ | ⟨e, left, he, hg, hr⟩ := hstatement.cases
    · rw [hg, hr]
      exact ⟨.of_proper (proper_valueOf left outcome), rfl⟩
    · rw [hg, hr]
      exact ⟨.error he, rfl⟩

end Agreement

theorem runStatement?_eq {s : Session} (hs : s.symbols.WellFormed) (text : String) :
    runStatement? s text = some (s.runStatement text) ∧ (s.evaluate text).1 ≠ .error .fault := by
  have hagrees : Agrees
      (statement s.settings (rightHandSide s.settings maxNesting) s.symbols (Statement.ofText text))
      (evaluateStatement s.settings s.symbols (Statement.ofText text)) :=
    statement_agrees (rightHandSide_agrees hs maxNesting) hs _
  have hkeeps := Invariant.keeps_evaluate Invariant.wellFormed_kept s.settings hs text (.inl trivial)
  refine ⟨?_, ne_fault_of_isProper hagrees.result.proper⟩
  rw [runStatement?, statement?_eq, Option.bind_some, Session.runStatement]
  obtain ⟨outcome, left, hg, hr⟩ | ⟨e, left, -, hg, hr⟩ := hagrees.cases
  · have houtcome : outcome.WellFormed := hkeeps.value outcome (congrArg Prod.fst hr)
    dsimp only
    rw [hg, hr, resultLines?, outcomeLines?_eq houtcome]
    rfl
  · dsimp only
    rw [hg, hr]
    rfl

theorem runAll?_eq {s : Session} (hs : s.symbols.WellFormed) (texts : List String) :
    runAll? s texts = some (s.runAll texts) ∧
      ∀ step ∈ s.trace texts, step.2 ≠ .error .fault := by
  induction texts generalizing s with
  | nil => exact ⟨rfl, fun step hstep => absurd hstep List.not_mem_nil⟩
  | cons text texts ih =>
    obtain ⟨hrun, hproper⟩ := runStatement?_eq hs text
    have hkeeps := Invariant.keeps_evaluate Invariant.wellFormed_kept s.settings hs text (.inl trivial)
    obtain ⟨hruns, htrace⟩ := ih (s := (s.evaluate text).2) hkeeps.symbols
    cases h : Session.resultLines? (s.evaluate text).1 with
    | none =>
      rw [Session.trace_cons_of_none h, runAll?, hrun, Session.runAll, Session.runStatement_eq, h]
      exact ⟨rfl, List.forall_mem_singleton.mpr hproper⟩
    | some lines =>
      rw [Session.trace_cons_of_some h, Session.runAll_cons_of_some h, runAll?, hrun,
        Session.runStatement_eq, h]
      refine ⟨?_, List.forall_mem_cons.mpr ⟨hproper, htrace⟩⟩
      dsimp only [Option.map_some, Option.bind_some]
      rw [hruns]
      rfl

end TableConsole.Guarded

namespace TableConsole

/-- However a session was used, whatever is run in it is read, evaluated and shown without an
operation outside its domain, but for one: the run is cut short exactly if it shows a table with a
column that is too wide to be padded. No statement ends in the error that stands for a fault. -/
theorem run_within_domains {symbols : Symbols}
    (h : symbols = Symbols.empty ∨ symbols = Sample.symbols) (actions : List Action)
    (settings : Settings) (source : String) :
    let s : Session := ⟨settings, (history symbols actions).2⟩
    let trace := s.trace (s.statements source)
    Guarded.run? s source = some (s.run source) ∧
      ((s.run source).1 = none ↔ ∃ step ∈ trace, ∃ t, Session.Shows step.2 t ∧ ¬ t.Fits) ∧
      ∀ step ∈ trace, step.2 ≠ .error .fault := by
  intro s trace
  have hs : s.symbols.WellFormed := by
    refine (history_sound ?_ actions).2
    obtain rfl | rfl := h
    · exact Symbols.empty_wellFormed
    · exact Sample.symbols_wellFormed
  obtain ⟨hrun, htrace⟩ := Guarded.runAll?_eq hs (s.statements source)
  refine ⟨?_, Session.run_eq_none_iff_fits hs source, htrace⟩
  rw [Guarded.run?, Guarded.split?_eq]
  exact hrun

/-- A group with a carried column, a repeated weight, a missing column and a literal without end. -/
theorem run_within_domains_seeded :
    let columns := "\"columns\":[\"k\",\"v\"]"
    let rows := "\"rows\":[[1,\"\x60a\"],[2,\"\x60b\"],[1,\"\x60c\"]]"
    let actions : List Action :=
      [.seed ("\x7b\"t\":\x7b" ++ columns ++ "," ++ rows ++ "\x7d\x7d")]
    let source := "select by k from t where k in 1 // é\n2 wavg 3 5\nt[\x60w]\n\x7b[x] \"\x7d\""
    let s : Session := ⟨{}, (history Sample.symbols actions).2⟩
    let trace := s.trace (s.statements source)
    (s.run source).1.map List.length = some 8 ∧ Guarded.run? s source = some (s.run source) ∧
      (¬ ∃ step ∈ trace, ∃ t, Session.Shows step.2 t ∧ ¬ t.Fits) ∧
      ∀ step ∈ trace, step.2 ≠ .error .fault := by
  intro columns rows actions source s trace
  have hlength : (s.run source).1.map List.length = some 8 := by decide +kernel
  obtain ⟨hrun, hcut, hproper⟩ := run_within_domains (.inr rfl) actions {} source
  refine ⟨hlength, hrun, fun hwide => ?_, hproper⟩
  rw [hcut.mpr hwide] at hlength
  cases hlength

/-- One cell of letters, in a fresh session. -/
theorem run_within_domains_too_wide :
    let cell := String.ofList (List.replicate (TableText.maxWidth + 1) 'x')
    ((Session.fresh {}).run ("([] a: \"" ++ cell ++ "\")")).1 = none := by
  intro cell
  refine Session.run_text_of_words (s := .fresh {}) (fun c hc => ?_) rfl ?_
  · rw [String.toList_ofList] at hc
    rw [List.eq_of_mem_replicate hc]
    decide +kernel
  · rw [String.length_ofList, List.length_replicate]
    exact Nat.lt_succ_self TableText.maxWidth

end TableConsole
