import TableConsole.Proofs.Eval.Preservation
import TableConsole.Proofs.Session.Trace

/-! # Statements keep invariants

An invariant that holds of the symbols holds of them after a statement, and of its outcome.
-/

namespace TableConsole

set_option autoImplicit false

/-- What a statement evaluates has no more levels of lists than the limit. -/
def Statement.plain (right : String → Bool) : Statement → Bool
  | .assignment _ text => right text
  | .definition _ _ => true
  | .call _ text | .expression text => (Expr.ofText text).toOption.all (·.levels ≤ maxNesting)
  | .query text => (Query.ofText text).toOption.all fun q => q.Plain

/-- Right-hand sides are read as statements so many times over. -/
def plainText : Nat → String → Bool
  | 0, _ => true
  | budget + 1, text => (Statement.ofText text).plain (plainText budget)

def plainLine (line : String) : Bool :=
  (Statement.ofText line).plain (plainText maxNesting)

def Outcome.Has (P : Value → Prop) : Outcome → Prop
  | .assigned _ v | .value v => P v
  | .defined _ => True

namespace Invariant

open Evaluation

variable {I : Invariant} {free : Prop} {settings : Settings} {symbols : Symbols} {text : String} {v : Value}

theorem value_echoing {r : Except EvalError Value} (hr : ∀ v, r = .ok v → I.value v)
    (h : echoing settings text r = .ok v) : I.value v := by
  unfold echoing at h
  split at h
  · exact hr v h
  · split at h <;> cases h
    exact value_of_isAtom rfl

theorem onScope_scope (hsymbols : I.onSymbols symbols) (settings : Settings) :
    I.OnScope (scope settings symbols) :=
  onScope_global hsymbols settings.mode

section Statements

variable (hI : I.Kept free) (hsymbols : I.onSymbols symbols)

include hI hsymbols

theorem value_readExpr
    (hplain : free ∨ (Expr.ofText text).toOption.all (·.levels ≤ maxNesting) = true)
    (h : (do (← readExpr text).eval (scope settings symbols)) = .ok v) : I.value v := by
  obtain ⟨e, he, h⟩ := Except.bind_eq_ok_iff.mp h
  refine hI.value (onScope_scope hsymbols settings) (hplain.imp_right fun hall => ?_) h
  simpa using Except.of_all_toOption hall (Except.mapError_eq_ok_iff.mp he)

theorem value_tableLiteral
    (hplain : free ∨ (Expr.ofText text).toOption.all (·.levels ≤ maxNesting) = true)
    (h : tableLiteral settings symbols text = .ok v) : I.value v := by
  unfold tableLiteral at h
  split at h
  · cases h
    exact value_of_flat (Sample.literal_flat text)
  · obtain ⟨e, he, h⟩ := Except.bind_eq_ok_iff.mp h
    obtain ⟨w, hw, h⟩ := Except.bind_eq_ok_iff.mp h
    have hvalue : I.value w :=
      value_readExpr hI hsymbols hplain (Except.bind_eq_ok_iff.mpr ⟨e, he, hw⟩)
    split at h <;> cases h
    exact hvalue

theorem value_expression
    (hplain : free ∨ (Expr.ofText text).toOption.all (·.levels ≤ maxNesting) = true)
    (h : expression settings symbols text = .ok v) : I.value v := by
  unfold expression at h
  split at h
  · exact value_echoing (fun _ => value_tableLiteral hI hsymbols hplain) h
  · split at h
    · split at h
      · rename_i e he
        refine value_readExpr hI hsymbols hplain (Except.bind_eq_ok_iff.mpr ⟨e, ?_, h⟩)
        exact Except.mapError_eq_ok_iff.mpr he
      · cases h
    · exact value_echoing (fun _ => value_readExpr hI hsymbols hplain) h

theorem value_callStatement {f : String}
    (hplain : free ∨ (Expr.ofText text).toOption.all (·.levels ≤ maxNesting) = true)
    (h : call settings symbols f text = .ok v) : I.value v := by
  unfold call at h
  split at h
  · cases h
    exact value_of_flat Sample.vwap_flat
  · refine value_echoing (fun w hw => ?_) h
    obtain ⟨e, he, hw⟩ := Except.bind_eq_ok_iff.mp hw
    refine hI.called (onScope_scope hsymbols settings) (hplain.imp_right fun hall => ?_) hw
    simpa using Except.of_all_toOption hall (Except.mapError_eq_ok_iff.mp he)

theorem value_query
    (hplain : free ∨ (Query.ofText text).toOption.all (fun q => decide q.Plain) = true)
    (h : query settings symbols text = .ok v) : I.value v := by
  unfold query at h
  split at h
  · cases h
    exact value_of_flat (Sample.query_flat text)
  · refine value_echoing (fun w hw => ?_) h
    obtain ⟨q, hq, hw⟩ := Except.bind_eq_ok_iff.mp hw
    obtain ⟨t, ht, hw⟩ := Except.bind_eq_ok_iff.mp hw
    cases hw
    have hread : Query.ofText text = .ok q := Except.mapError_eq_ok_iff.mp hq
    refine value_answer hI (onScope_scope hsymbols settings) (hplain.imp_right fun hall => ?_) ht
    have hdecide := Except.of_all_toOption hall hread
    exact of_decide_eq_true hdecide

end Statements

structure Keeps {α : Type} (I : Invariant) (good : α → Prop)
    (result : Except EvalError α × Symbols) : Prop where
  value : ∀ x, result.1 = .ok x → good x
  symbols : I.onSymbols result.2

theorem keeps_error {α : Type} (good : α → Prop) (hsymbols : I.onSymbols symbols) (e : EvalError) :
    I.Keeps good (.error e, symbols) where
  value x hx := by cases hx
  symbols := hsymbols

theorem keeps_value {r : Except EvalError Value} (hsymbols : I.onSymbols symbols)
    (hr : ∀ v, r = .ok v → I.value v) :
    I.Keeps (Outcome.Has I.value) (r.map Outcome.value, symbols) := by
  refine ⟨fun outcome h => ?_, hsymbols⟩
  obtain ⟨v, hv, rfl⟩ := Except.map_eq_ok_iff.mp h
  exact hr v hv

theorem keeps_bind (hsymbols : I.onSymbols symbols) (hv : I.value v) (name : String) :
    I.Keeps (Outcome.Has I.value)
      (.ok (Evaluation.bind name v symbols).1, (Evaluation.bind name v symbols).2) := by
  refine ⟨fun outcome h => ?_, hsymbols.insert name hv⟩
  obtain rfl := Except.ok.inj h
  unfold Evaluation.bind
  split
  · exact trivial
  · exact hv

theorem value_valueOf (hsymbols : I.onSymbols symbols) {outcome : Outcome}
    (houtcome : outcome.Has I.value) (h : valueOf symbols outcome = .ok v) : I.value v := by
  cases outcome with
  | assigned | value =>
    cases h
    exact houtcome
  | defined name =>
    rw [valueOf] at h
    split at h <;> cases h
    exact hsymbols name v ‹_›

theorem keeps_statement (hI : I.Kept free) {right : RightHandSide} {plain : String → Bool}
    (hright : ∀ text symbols, I.onSymbols symbols → free ∨ plain text = true →
      I.Keeps I.value (right text symbols))
    (hsymbols : I.onSymbols symbols) {st : Statement} (hst : free ∨ st.plain plain = true) :
    I.Keeps (Outcome.Has I.value) (statement settings right symbols st) := by
  cases st with
  | assignment name text =>
    have hkeeps := hright text symbols hsymbols hst
    simp only [statement]
    split
    · rename_i v left hvalue
      rw [hvalue] at hkeeps
      exact keeps_bind hkeeps.symbols (hkeeps.value v rfl) name
    · rename_i e left herror
      rw [herror] at hkeeps
      exact keeps_error _ hkeeps.symbols e
  | definition name source =>
    refine ⟨fun outcome h => ?_, hsymbols.insert name (value_of_isAtom rfl)⟩
    obtain rfl := Except.ok.inj h
    exact trivial
  | call f source => exact keeps_value hsymbols fun _ => value_callStatement hI hsymbols hst
  | query text => exact keeps_value hsymbols fun _ => value_query hI hsymbols hst
  | expression text => exact keeps_value hsymbols fun _ => value_expression hI hsymbols hst

theorem keeps_rightHandSide (hI : I.Kept free) (settings : Settings) (budget : Nat)
    (text : String) (symbols : Symbols) (hsymbols : I.onSymbols symbols)
    (htext : free ∨ plainText budget text = true) :
    I.Keeps I.value (rightHandSide settings budget text symbols) := by
  induction budget generalizing text symbols with
  | zero => exact keeps_error _ hsymbols _
  | succ budget ih =>
    have hkeeps : I.Keeps (Outcome.Has I.value)
        (statement settings (rightHandSide settings budget) symbols (Statement.ofText text)) :=
      keeps_statement hI ih hsymbols htext
    simp only [rightHandSide]
    split
    · rename_i outcome left hok
      rw [hok] at hkeeps
      refine ⟨fun v => ?_, hkeeps.symbols⟩
      exact value_valueOf hkeeps.symbols (hkeeps.value outcome rfl)
    · rename_i e left herror
      rw [herror] at hkeeps
      exact keeps_error _ hkeeps.symbols e

theorem keeps_evaluate (hI : I.Kept free) (settings : Settings) (hsymbols : I.onSymbols symbols)
    (line : String) (hline : free ∨ plainLine line = true) :
    I.Keeps (Outcome.Has I.value) (evaluate settings symbols line) :=
  keeps_statement hI (keeps_rightHandSide hI settings maxNesting) hsymbols hline

theorem keeps_after (hI : I.Kept free) {s : Session} (hs : I.onSymbols s.symbols) (texts : List String)
    (htexts : ∀ text ∈ texts, free ∨ plainLine text = true) :
    I.onSymbols (s.after texts).symbols := by
  induction texts generalizing s with
  | nil => exact hs
  | cons text texts ih =>
    obtain ⟨htext, htexts⟩ := List.forall_mem_cons.mp htexts
    exact ih (keeps_evaluate hI s.settings hs text htext).symbols htexts

theorem keeps_trace (hI : I.Kept free) {s : Session} (hs : I.onSymbols s.symbols) (texts : List String)
    (htexts : ∀ text ∈ texts, free ∨ plainLine text = true) :
    ∀ entry ∈ s.trace texts, ∀ outcome, entry.2 = .ok outcome → outcome.Has I.value := by
  induction texts generalizing s with
  | nil => exact fun entry hentry => absurd hentry List.not_mem_nil
  | cons text texts ih =>
    obtain ⟨htext, htexts⟩ := List.forall_mem_cons.mp htexts
    have hstep := keeps_evaluate hI s.settings hs text htext
    refine List.forall_mem_cons.mpr ⟨hstep.value, ?_⟩
    split
    · exact ih (s := (s.evaluate text).2) hstep.symbols htexts
    · exact List.forall_mem_nil _

end Invariant

end TableConsole
