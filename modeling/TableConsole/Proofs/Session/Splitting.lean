import TableConsole.Proofs.Text.Lines
import TableConsole.Statement

/-! # Splitting source text

Source text falls at its line feeds, and splitting goes on from line to line. A statement that has
been split off can be split once more: it stays what it is unless nothing, a semicolon or a comment
is left in it.
-/

namespace TableConsole

set_option autoImplicit false

namespace Statement

theorem contentLines_of_no_feed {line : List Char} (h : '\n' ∉ line) :
    contentLines line = [Text.content line].filter (!·.isEmpty) := by
  rw [contentLines, Text.lines_of_no_feed h]
  cases line <;> rfl

theorem contentLines_line_append {line : List Char} (h : '\n' ∉ line) (cs : List Char) :
    contentLines (line ++ '\n' :: cs) = contentLines line ++ contentLines cs := by
  rw [contentLines_of_no_feed h, contentLines, Text.lines_append_feed h, List.map_cons,
    ← List.singleton_append, List.filter_append]
  exact congrArg (fun line => [line].filter _ ++ _) (Text.content_dropReturn line)

theorem contentLines_append (cs ds : List Char) :
    contentLines (cs ++ '\n' :: ds) = contentLines cs ++ contentLines ds := by
  by_cases h : '\n' ∈ cs
  · obtain ⟨line, rest, hcs, hline⟩ := List.eq_append_cons_of_mem h
    have hlt : rest.length < cs.length := by simp [hcs]; omega
    rw [hcs, List.append_assoc, List.cons_append, contentLines_line_append hline,
      contentLines_line_append hline, contentLines_append rest ds, List.append_assoc]
  · exact contentLines_line_append h ds
termination_by cs.length

theorem contentLines_eq_flatMap (cs : List Char) :
    contentLines cs = (Text.lines cs).flatMap contentLines := by
  have hlines := Text.no_feed_of_mem_lines cs
  rw [contentLines]
  generalize Text.lines cs = lines at hlines
  induction lines with
  | nil => rfl
  | cons line lines ih =>
    obtain ⟨hline, hlines⟩ := List.forall_mem_cons.mp hlines
    rw [List.flatMap_cons, ← ih hlines, contentLines_of_no_feed hline, ← List.filter_append]
    rfl

open Text

/-- No line feed, and no blank at the start. -/
structure Flush (cs : List Char) : Prop where
  noFeed : '\n' ∉ cs
  head : ∀ c ∈ cs.head?, isBlank c = false

theorem Flush.of_isPrefix {cs ds : List Char} (h : Flush cs) (hleading : ds <+: cs) : Flush ds where
  noFeed hfeed := h.noFeed (hleading.subset hfeed)
  head c hc := by
    obtain ⟨ds, rfl⟩ := List.head?_eq_some_iff.mp hc
    obtain ⟨rest, rfl⟩ := hleading
    exact h.head c rfl

theorem dropBlankEnd_isPrefix (cs : List Char) : dropBlankEnd cs <+: cs :=
  List.rdropWhile_prefix isBlank cs

theorem flush_trim {cs : List Char} (h : '\n' ∉ cs) : Flush (trim cs) := by
  have hdrop : Flush (dropBlank cs) :=
    { noFeed := fun hfeed => h ((List.dropWhile_suffix isBlank).subset hfeed)
      head := fun c hc => by
        have hhead := List.head?_dropWhile_not isBlank cs
        rw [dropBlank] at hc
        rw [Option.mem_def.mp hc] at hhead
        simpa using hhead }
  exact hdrop.of_isPrefix (dropBlankEnd_isPrefix _)

theorem flush_contentLines (cs : List Char) : ∀ line ∈ contentLines cs, Flush line ∧ line ≠ [] := by
  intro line hline
  obtain ⟨hmem, hne⟩ := List.mem_filter.mp hline
  obtain ⟨raw, hraw, rfl⟩ := List.mem_map.mp hmem
  have hfeed := no_feed_of_mem_lines cs raw hraw
  exact ⟨flush_trim fun h => hfeed ((beforeComment_isPrefix .code raw).subset h), by simpa using hne⟩

theorem flush_joinFrom {first : List Char} {lines : List (List Char)}
    (hfirst : Flush first ∧ first ≠ []) (hlines : ∀ line ∈ lines, Flush line ∧ line ≠ []) :
    ∀ text ∈ joinFrom first lines, Flush text := by
  induction lines generalizing first with
  | nil => simpa [joinFrom] using hfirst.1
  | cons line lines ih =>
    obtain ⟨hline, hlines⟩ := List.forall_mem_cons.mp hlines
    rw [joinFrom]
    split
    · refine ih ⟨⟨?_, ?_⟩, by simp⟩ hlines
      · simp [hfirst.1.noFeed, hline.1.noFeed]
      · rw [List.head?_append_of_ne_nil _ hfirst.2]
        exact hfirst.1.head
    · exact List.forall_mem_cons.mpr ⟨hfirst.1, ih hline hlines⟩

theorem dropSemicolon_isPrefix (cs : List Char) : dropSemicolon cs <+: cs := by
  rw [dropSemicolon]
  split
  · exact List.dropLast_prefix cs
  · exact List.prefix_rfl

theorem finish_isPrefix (cs : List Char) : finish cs <+: cs :=
  (dropBlankEnd_isPrefix _).trans (dropSemicolon_isPrefix cs)

theorem dropBlankEnd_finish (cs : List Char) : dropBlankEnd (finish cs) = finish cs :=
  List.rdropWhile_idempotent isBlank _

theorem finish_eq_self {cs : List Char} (hlast : cs.getLast? ≠ some ';')
    (hend : dropBlankEnd cs = cs) : finish cs = cs := by
  rw [finish, dropSemicolon, if_neg hlast, hend]

theorem flush_joinLines {lines : List (List Char)} (h : ∀ line ∈ lines, Flush line ∧ line ≠ []) :
    ∀ text ∈ joinLines lines, Flush text := by
  cases lines with
  | nil => simp [joinLines]
  | cons line lines =>
    obtain ⟨hline, hlines⟩ := List.forall_mem_cons.mp h
    exact flush_joinFrom hline hlines

theorem flush_of_mem_splitChars {joining : Joining} {cs text : List Char}
    (h : text ∈ splitChars joining cs) : Flush text ∧ dropBlankEnd text = text := by
  obtain ⟨raw, hraw, rfl⟩ := List.mem_map.mp h
  refine ⟨Flush.of_isPrefix ?_ (finish_isPrefix raw), dropBlankEnd_finish raw⟩
  cases joining with
  | perLine => exact (flush_contentLines cs raw hraw).1
  | brackets => exact flush_joinLines (flush_contentLines cs) raw hraw

structure Bare (cs : List Char) : Prop where
  ne_nil : cs ≠ []
  noSemicolon : cs.getLast? ≠ some ';'
  noComment : comment cs = []

instance (cs : List Char) : Decidable (Bare cs) :=
  decidable_of_iff (cs ≠ [] ∧ cs.getLast? ≠ some ';' ∧ comment cs = [])
    ⟨fun ⟨hne, hlast, hcomment⟩ => ⟨hne, hlast, hcomment⟩,
      fun h => ⟨h.ne_nil, h.noSemicolon, h.noComment⟩⟩

theorem splitChars_of_flush (joining : Joining) {text : List Char} (h : Flush text) :
    splitChars joining text = ([content text].filter (!·.isEmpty)).map finish := by
  simp only [splitChars, contentLines_of_no_feed h.noFeed]
  cases joining with
  | perLine => rfl
  | brackets => by_cases hempty : (content text).isEmpty <;> simp [hempty, joinLines, joinFrom]

theorem content_sublist (cs : List Char) : (content cs).Sublist (stripComment cs) :=
  (dropBlankEnd_isPrefix _).sublist.trans (List.dropWhile_suffix isBlank).sublist

theorem content_eq_self {cs : List Char} (hflush : Flush cs) (hend : dropBlankEnd cs = cs)
    (hstrip : stripComment cs = cs) : content cs = cs := by
  have hdrop : dropBlank cs = cs := by
    cases cs with
    | nil => rfl
    | cons c cs => exact dropBlank_eq_self (hflush.head c rfl)
  rw [content, hstrip, trim, hdrop, hend]

theorem splitChars_of_stripped (joining : Joining) {text : List Char} (hflush : Flush text)
    (hend : dropBlankEnd text = text) (hstrip : stripComment text = text) (hne : text ≠ []) :
    splitChars joining text = [finish text] := by
  rw [splitChars_of_flush joining hflush, content_eq_self hflush hend hstrip,
    List.filter_cons_of_pos (by simpa using hne), List.filter_nil, List.map_singleton]

/-- A line that nothing is taken from. -/
theorem split_of_line (joining : Joining) {text : List Char} (hflush : Flush text)
    (hslash : '/' ∉ text) {c : Char} (hlast : text.getLast? = some c) (hblank : isBlank c = false)
    (hsemicolon : c ≠ ';') : split joining (String.ofList text) = [String.ofList text] := by
  have hne : text ≠ [] := by
    rintro rfl
    cases hlast
  have hend : dropBlankEnd text = text := by
    obtain ⟨before, rfl⟩ := List.getLast?_eq_some_iff.mp hlast
    rw [dropBlankEnd_eq_rdropWhile, List.rdropWhile_concat_neg _ _ _ (by simp [hblank])]
  have hfinish : finish text = text :=
    finish_eq_self (by rw [hlast]; exact fun h => hsemicolon (Option.some.inj h)) hend
  rw [split, String.toList_ofList,
    splitChars_of_stripped joining hflush hend (beforeComment_eq_self hslash .code) hne, hfinish,
    List.map_singleton]

theorem Bare.stripComment_eq {cs : List Char} (h : Bare cs) : stripComment cs = cs := by
  have hstrip := stripComment_append_comment cs
  rwa [h.noComment, List.append_nil] at hstrip

/-- A statement is split into itself if and only if nothing would be taken from it. -/
theorem splitChars_eq_self_iff {joining : Joining} {cs text : List Char}
    (h : text ∈ splitChars joining cs) : splitChars .brackets text = [text] ↔ Bare text := by
  obtain ⟨hflush, hend⟩ := flush_of_mem_splitChars h
  constructor
  · intro hself
    rw [splitChars_of_flush .brackets hflush] at hself
    have hne : content text ≠ [] := by
      intro hnil
      simp [hnil] at hself
    rw [List.filter_cons_of_pos (by simpa using hne), List.filter_nil, List.map_singleton,
      List.singleton_inj] at hself
    -- the text comes back in full, so none of the steps takes anything from it
    have hlength : text.length ≤ (content text).length := by
      simpa only [hself] using (finish_isPrefix (content text)).length_le
    have hstrip : stripComment text = text :=
      (beforeComment_isPrefix .code text).eq_of_length_le
        (hlength.trans (content_sublist text).length_le)
    have hcontent : content text = text :=
      ((content_sublist text).eq_of_length_le (hstrip.symm ▸ hlength)).trans hstrip
    rw [hcontent] at hself hne
    refine ⟨hne, fun hlast => ?_, by rw [comment, hstrip, List.drop_length]⟩
    have hshort := (dropBlankEnd_isPrefix (dropSemicolon text)).length_le
    rw [← finish, hself, dropSemicolon, if_pos hlast, List.length_dropLast] at hshort
    have hpos := List.length_pos_iff.mpr hne
    omega
  · intro hbare
    rw [splitChars_of_stripped .brackets hflush hend hbare.stripComment_eq hbare.ne_nil,
      finish_eq_self hbare.noSemicolon hend]

theorem stripComment_of_mem_perLine {cs text : List Char} (h : text ∈ splitChars .perLine cs) :
    stripComment text = text := by
  obtain ⟨line, hline, rfl⟩ := List.mem_map.mp h
  obtain ⟨raw, -, rfl⟩ := List.mem_map.mp (List.mem_of_mem_filter hline)
  exact stripComment_of_isPrefix_content (finish_isPrefix _)

theorem splitChars_again {joining : Joining} {cs text : List Char}
    (h : text ∈ splitChars joining cs) (hstrip : joining = .brackets → stripComment text = text)
    (hne : text ≠ []) : splitChars joining text = [finish text] := by
  obtain ⟨hflush, hend⟩ := flush_of_mem_splitChars h
  have hstrip : stripComment text = text := by
    cases joining with
    | perLine => exact stripComment_of_mem_perLine h
    | brackets => exact hstrip rfl
  exact splitChars_of_stripped joining hflush hend hstrip hne

/-- Splitting a text again gives the same text, nothing, or the text without its semicolon. -/
structure SplitsAgain (joining : Joining) (text : String) : Prop where
  empty : text = "" → split joining text = []
  same : text ≠ "" → text.toList.getLast? ≠ some ';' → split joining text = [text]
  semicolon : ∀ front, text.toList = front ++ [';'] →
    split joining text = [String.ofList (dropBlankEnd front)]

/-- Splitting takes nothing from a statement but a further semicolon at its end; a joined statement
may also have a comment, where a string literal went on over its lines. -/
theorem split_again {joining : Joining} {source text : String} (h : text ∈ split joining source)
    (hstrip : joining = .brackets → stripComment text.toList = text.toList) :
    SplitsAgain joining text := by
  obtain ⟨cs, hcs, rfl⟩ := List.mem_map.mp h
  rw [String.toList_ofList] at hstrip
  have hagain (hne : cs ≠ []) :
      split joining (String.ofList cs) = [String.ofList (finish cs)] := by
    rw [split, String.toList_ofList, splitChars_again hcs hstrip hne, List.map_singleton]
  constructor
  · intro hempty
    rw [hempty]
    cases joining <;> rfl
  · intro hne hlast
    rw [String.toList_ofList] at hlast
    obtain ⟨-, hend⟩ := flush_of_mem_splitChars hcs
    rw [hagain (fun hnil => hne (by rw [hnil])), finish_eq_self hlast hend]
  · intro front hfront
    rw [String.toList_ofList] at hfront
    rw [hagain (by simp [hfront]), finish, dropSemicolon, hfront, List.getLast?_concat,
      if_pos rfl, List.dropLast_concat]

/-- Two semicolons behind a joined statement, and a statement of nothing but a semicolon. -/
theorem split_again_terminated :
    "x: (\"//\"; y);" ∈ split .brackets "x: (\"//\"; // two\ny);;" ∧
      stripComment "x: (\"//\"; y);".toList = "x: (\"//\"; y);".toList ∧
      SplitsAgain .brackets "x: (\"//\"; y);" ∧
    "" ∈ split .perLine "; // none\r\n" ∧ SplitsAgain .perLine "" := by
  have hjoined : "x: (\"//\"; y);" ∈ split .brackets "x: (\"//\"; // two\ny);;" := by decide +kernel
  have hstrip : stripComment "x: (\"//\"; y);".toList = "x: (\"//\"; y);".toList := by
    decide +kernel
  have hempty : "" ∈ split .perLine "; // none\r\n" := by decide +kernel
  exact ⟨hjoined, hstrip, split_again hjoined fun _ => hstrip, hempty, split_again hempty nofun⟩

/-- A second semicolon goes when a statement is split again, and so does a comment that comes to
stand outside a string literal when two lines are joined. -/
theorem split_not_idempotent :
    (∀ joining, "x;" ∈ split joining "x;;" ∧ split joining "x;" ≠ ["x;"]) ∧
      "(\"a b\" // c" ∈ split .brackets "(\"a\nb\" // c" ∧
        split .brackets "(\"a b\" // c" ≠ ["(\"a b\" // c"] := by
  refine ⟨fun joining => ?_, by decide +kernel⟩
  cases joining <;> decide +kernel

end Statement

end TableConsole
