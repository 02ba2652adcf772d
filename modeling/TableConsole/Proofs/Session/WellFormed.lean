import TableConsole.Proofs.Eval.WellFormed
import TableConsole.Proofs.Session.Invariant
import TableConsole.Session.Seed

/-! # Sessions hold well-formed values

Seeds and statements bind well-formed values only and answer with nothing else, whatever was bound
before them by other seeds and statements, under whatever settings.
-/

namespace TableConsole

set_option autoImplicit false

def Symbols.WellFormed (s : Symbols) : Prop :=
  ∀ name v, s.get? name = some v → v.WellFormed

def Outcome.WellFormed (outcome : Outcome) : Prop :=
  outcome.Has Value.WellFormed

theorem Symbols.empty_wellFormed : Symbols.empty.WellFormed :=
  Invariant.wellFormed.onSymbols_empty

theorem Symbols.WellFormed.insert {s : Symbols} (h : s.WellFormed) (name : String) {v : Value}
    (hv : v.WellFormed) : (s.insert name v).WellFormed :=
  Invariant.onSymbols.insert (I := .wellFormed) h name hv

theorem Sample.symbols_wellFormed : Sample.symbols.WellFormed :=
  Symbols.empty_wellFormed.insert "trade" (Invariant.value_of_flat (I := .wellFormed) trade_flat)

theorem Value.ofJsonText_wellFormed (s : String) : (Value.ofJsonText s).WellFormed := by
  unfold Value.ofJsonText
  split
  · exact Value.wellFormed_of_isAtom rfl
  · split <;> exact Value.wellFormed_of_isAtom rfl

mutual

theorem Value.ofJson_wellFormed (j : Json) {v : Value} (h : Value.ofJson j = .ok v) :
    v.WellFormed := by
  cases j with
  | null | boolean | number =>
    cases h
    exact Value.wellFormed_of_isAtom rfl
  | text s =>
    cases h
    exact Value.ofJsonText_wellFormed s
  | array items =>
    rw [Value.ofJson] at h
    obtain ⟨vs, hvs, rfl⟩ := Except.map_eq_ok_iff.mp h
    exact Value.wellFormed_list_iff.mpr (Value.itemsOfJson_wellFormed items hvs)
  | object members =>
    rw [Value.ofJson] at h
    exact Value.ofMembers_wellFormed members h

theorem Value.itemsOfJson_wellFormed (items : List Json) {vs : List Value}
    (h : Value.itemsOfJson items = .ok vs) : ∀ v ∈ vs, v.WellFormed := by
  cases items with
  | nil =>
    cases h
    exact fun v hv => absurd hv List.not_mem_nil
  | cons j js =>
    rw [Value.itemsOfJson] at h
    obtain ⟨v, hv, h⟩ := Except.bind_eq_ok_iff.mp h
    obtain ⟨ws, hws, h⟩ := Except.bind_eq_ok_iff.mp h
    cases h
    exact List.forall_mem_cons.mpr ⟨Value.ofJson_wellFormed j hv, Value.itemsOfJson_wellFormed js hws⟩

theorem Value.ofMembers_wellFormed (members : List (String × Json)) {v : Value}
    (h : Value.ofMembers members = .ok v) : v.WellFormed := by
  unfold Value.ofMembers at h
  split at h
  · split at h
    · dsimp only at h
      split at h
      · obtain ⟨names, -, h⟩ := Except.bind_eq_ok_iff.mp h
        obtain ⟨rows, hrows, h⟩ := Except.bind_eq_ok_iff.mp h
        obtain ⟨t, ht, rfl⟩ := Except.map_eq_ok_iff.mp (Except.mapError_eq_ok_iff.mp h)
        obtain ⟨rfl, hwf⟩ := Table.ofRows_eq_ok_iff.mp ht
        exact Value.wellFormed_table_iff.mpr ⟨hwf, Value.rowsOfJson_wellFormed _ hrows⟩
      · cases h
    · cases h
  · cases h

theorem Value.rowsOfJson_wellFormed (j : Json) {rows : List (List Value)}
    (h : Value.rowsOfJson j = .ok rows) : ∀ row ∈ rows, ∀ v ∈ row, v.WellFormed := by
  cases j with
  | array items =>
    rw [Value.rowsOfJson] at h
    exact Value.rowListOfJson_wellFormed items h
  | null | boolean | number | text | object => cases h

theorem Value.rowListOfJson_wellFormed (items : List Json) {rows : List (List Value)}
    (h : Value.rowListOfJson items = .ok rows) : ∀ row ∈ rows, ∀ v ∈ row, v.WellFormed := by
  cases items with
  | nil =>
    cases h
    exact fun row hrow => absurd hrow List.not_mem_nil
  | cons j js =>
    rw [Value.rowListOfJson] at h
    obtain ⟨v, hv, h⟩ := Except.bind_eq_ok_iff.mp h
    split at h
    · obtain ⟨rest, hrest, h⟩ := Except.bind_eq_ok_iff.mp h
      cases h
      refine List.forall_mem_cons.mpr ⟨?_, Value.rowListOfJson_wellFormed js hrest⟩
      exact Value.wellFormed_list_iff.mp (Value.ofJson_wellFormed j hv)
    · cases h

end

theorem bindMembers_wellFormed {symbols : Symbols} (hsymbols : symbols.WellFormed)
    (members : List (String × Json)) : (bindMembers symbols members).2.WellFormed := by
  induction members generalizing symbols with
  | nil => exact hsymbols
  | cons member members ih =>
    obtain ⟨name, j⟩ := member
    rw [bindMembers]
    split
    · exact ih (hsymbols.insert name (Value.ofJson_wellFormed j ‹_›))
    · exact hsymbols

theorem seed_wellFormed {symbols : Symbols} (hsymbols : symbols.WellFormed) (document : String) :
    (seed symbols document).2.WellFormed := by
  unfold seed
  split
  · exact hsymbols
  · exact bindMembers_wellFormed hsymbols _
  · exact hsymbols

/-- What can be asked of a session; the settings may change from one action to the next. -/
inductive Action
  | seed (document : String)
  | statement (settings : Settings) (line : String)
  | source (settings : Settings) (text : String)

def Action.perform (symbols : Symbols) : Action → List Outcome × Symbols
  | .seed document => ([], (TableConsole.seed symbols document).2)
  | .statement settings line =>
    let (result, symbols) := evaluate settings symbols line
    (result.toOption.toList, symbols)
  | .source settings text =>
    let s : Session := ⟨settings, symbols⟩
    ((s.trace (s.statements text)).filterMap (·.2.toOption), (s.run text).2.symbols)

def history (symbols : Symbols) : List Action → List Outcome × Symbols
  | [] => ([], symbols)
  | action :: actions =>
    let (outcomes, symbols) := action.perform symbols
    let (later, symbols) := history symbols actions
    (outcomes ++ later, symbols)

theorem Action.perform_wellFormed {symbols : Symbols} (hsymbols : symbols.WellFormed)
    (action : Action) : (∀ outcome ∈ (action.perform symbols).1, outcome.WellFormed) ∧
      (action.perform symbols).2.WellFormed := by
  cases action with
  | seed document =>
    exact ⟨fun outcome h => absurd h List.not_mem_nil, seed_wellFormed hsymbols document⟩
  | statement settings line =>
    have hkeeps := Invariant.keeps_evaluate Invariant.wellFormed_kept settings hsymbols line (.inl trivial)
    refine ⟨fun outcome h => hkeeps.value outcome ?_, hkeeps.symbols⟩
    exact Except.toOption_eq_some_iff.mp (Option.mem_toList.mp h)
  | source settings text =>
    let s : Session := ⟨settings, symbols⟩
    have htrace := Invariant.keeps_trace Invariant.wellFormed_kept (s := s) hsymbols (s.statements text)
      fun _ _ => .inl trivial
    constructor
    · intro outcome h
      obtain ⟨entry, hentry, hoption⟩ := List.mem_filterMap.mp h
      exact htrace entry hentry outcome (Except.toOption_eq_some_iff.mp hoption)
    · change (s.run text).2.symbols.WellFormed
      rw [Session.run_snd]
      exact Invariant.keeps_after Invariant.wellFormed_kept (s := s) hsymbols _ fun _ _ => .inl trivial

theorem history_sound {symbols : Symbols} (hsymbols : symbols.WellFormed)
    (actions : List Action) : (∀ outcome ∈ (history symbols actions).1, outcome.WellFormed) ∧
      (history symbols actions).2.WellFormed := by
  induction actions generalizing symbols with
  | nil => exact ⟨fun outcome h => absurd h List.not_mem_nil, hsymbols⟩
  | cons action actions ih =>
    obtain ⟨houtcomes, hleft⟩ := action.perform_wellFormed hsymbols
    obtain ⟨hlater, hfinal⟩ := ih hleft
    exact ⟨List.forall_mem_append.mpr ⟨houtcomes, hlater⟩, hfinal⟩

/-- However a session was used, the tables in it and in its answers are rectangular and their column
names distinct. -/
theorem history_wellFormed {symbols : Symbols}
    (h : symbols = Symbols.empty ∨ symbols = Sample.symbols) (actions : List Action) :
    (∀ outcome ∈ (history symbols actions).1, outcome.WellFormed) ∧
      (history symbols actions).2.WellFormed := by
  refine history_sound ?_ actions
  obtain rfl | rfl := h
  · exact Symbols.empty_wellFormed
  · exact Sample.symbols_wellFormed

/-- A seed binds a table with a table in a cell and fails behind it. -/
theorem history_wellFormed_nested :
    let inner := "\x7b\"columns\":[],\"rows\":[]\x7d"
    let outer := "\x7b\"columns\":[\"u\"],\"rows\":[[" ++ inner ++ "]]\x7d"
    let actions : List Action :=
      [.seed ("\x7b\"a\":" ++ outer ++ ",\"b\":0,\"c\":\x7b\x7d\x7d"),
        .source {} "x: a[`u]\ny: select from a", .statement { mode := .canned } "([] b: 1)"]
    let result := history Sample.symbols actions
    result.1.length = 3 ∧ result.2.names = ["a", "b", "trade", "x", "y"] ∧
      (∀ outcome ∈ result.1, outcome.WellFormed) ∧ result.2.WellFormed := by
  intro inner outer actions result
  have hrun : result.1.length = 3 ∧ result.2.names = ["a", "b", "trade", "x", "y"] := by
    decide +kernel
  exact ⟨hrun.1, hrun.2, history_wellFormed (.inr rfl) actions⟩

end TableConsole
