import TableConsole.Proofs.Session.Splitting
import TableConsole.Proofs.Session.Trace
import TableConsole.Session.Dialogue

/-! # Dialogues and scripts

A dialogue keeps the lines of an open statement as they were read, with their comments, and runs
them once their brackets close; a script drops the comments first and joins what is left. Both cut
the input in the same places if no comment has a quote or a bracket in it. A dialogue cuts each
statement once more before it runs it, so the statements are also assumed to be cut into themselves.
-/

namespace TableConsole

set_option autoImplicit false

namespace Dialogue

open Text Statement

/-- The kept lines are the start of one statement, which reads `joined` so far. -/
structure Joins (kept joined : List Char) : Prop where
  joinLines_append : ∀ more, joinLines (contentLines kept ++ more) = joinFrom joined more
  depth : bracketDepth kept = bracketDepth joined
  newLine : (Quoting.code.after kept).newLine = (Quoting.code.after joined).newLine

theorem depthFrom_feed (q : Quoting) (cs : List Char) :
    depthFrom q ('\n' :: cs) = depthFrom q.newLine cs := by
  cases q <;> exact Int.zero_add _

theorem depthFrom_space (q : Quoting) (cs : List Char) :
    depthFrom q (' ' :: cs) = depthFrom q.newLine cs := by
  cases q <;> exact Int.zero_add _

theorem after_feed (q : Quoting) (cs : List Char) : q.after ('\n' :: cs) = q.newLine.after cs :=
  rfl

theorem after_space (q : Quoting) (cs : List Char) : q.after (' ' :: cs) = q.newLine.after cs := by
  cases q <;> rfl

section Lines

variable {kept joined line : List Char}

theorem Joins.first (hfeed : '\n' ∉ line) (hcomment : ∀ c ∈ comment line, isInert c = true)
    (hcontent : content line ≠ []) : Joins line (content line) where
  joinLines_append more := by
    rw [contentLines_of_no_feed hfeed, List.filter_cons_of_pos (by simpa using hcontent)]
    rfl
  depth := (depthFrom_content .code hcomment).symm
  newLine := (newLine_after_content .code hcomment).symm

theorem Joins.next (h : Joins kept joined) (hopen : 0 < bracketDepth joined)
    (hfeed : '\n' ∉ line) (hcomment : ∀ c ∈ comment line, isInert c = true)
    (hcontent : content line ≠ []) : Joins (kept ++ '\n' :: line) (joined ++ ' ' :: content line) where
  joinLines_append more := by
    rw [contentLines_append, contentLines_of_no_feed hfeed,
      List.filter_cons_of_pos (by simpa using hcontent), List.append_assoc, h.joinLines_append]
    exact if_pos hopen
  depth := by
    have hdepth := h.depth
    simp only [bracketDepth] at hdepth ⊢
    rw [depthFrom_append, depthFrom_append, depthFrom_feed, depthFrom_space, h.newLine,
      depthFrom_content _ hcomment, hdepth]
  newLine := by
    rw [Quoting.after_append, Quoting.after_append, after_feed, after_space, h.newLine,
      newLine_after_content _ hcomment]

theorem Joins.skip (h : Joins kept joined) (hfeed : '\n' ∉ line)
    (hcomment : ∀ c ∈ comment line, isInert c = true) (hcontent : content line = []) :
    Joins (kept ++ '\n' :: line) joined where
  joinLines_append more := by
    rw [contentLines_append, contentLines_of_no_feed hfeed, hcontent, List.filter_cons_of_neg (by simp),
      List.filter_nil, List.append_nil, h.joinLines_append]
  depth := by
    have hline := depthFrom_content (Quoting.code.after kept) hcomment
    rw [hcontent] at hline
    rw [← h.depth, bracketDepth, depthFrom_append, depthFrom_feed, ← hline]
    exact Int.add_zero _
  newLine := by
    have hline := newLine_after_content (Quoting.code.after kept) hcomment
    rw [hcontent] at hline
    rw [← h.newLine, Quoting.after_append, after_feed, ← hline]
    cases Quoting.code.after kept <;> rfl

theorem Joins.joinLines_closed (h : Joins kept joined) (hclosed : bracketDepth kept ≤ 0)
    (more : List (List Char)) :
    joinLines (contentLines kept ++ more) = joinLines (contentLines kept) ++ joinLines more := by
  have hjoined : joinLines (contentLines kept) = [joined] := by
    simpa [joinFrom] using h.joinLines_append []
  rw [h.joinLines_append, hjoined]
  cases more with
  | nil => rfl
  | cons line lines => exact if_neg (by rw [← h.depth]; omega)

end Lines

/-- A line that is no listing, with nothing in its comment that a scanner would see. -/
structure PlainLine (line : List Char) : Prop where
  noFeed : '\n' ∉ line
  inert : ∀ c ∈ comment line, isInert c = true
  notListing : isListing line = false

theorem exists_bracket_of_depthFrom {q : Quoting} {cs : List Char} (h : 0 < depthFrom q cs) :
    ∃ c ∈ cs, bracketStep c = 1 := by
  induction cs generalizing q with
  | nil => cases h
  | cons c cs ih =>
    by_cases hc : bracketStep c = 1
    · exact ⟨c, List.mem_cons_self, hc⟩
    · have hstep : q.bracketStep c ≤ 0 := by
        simp only [Quoting.bracketStep, bracketStep] at hc ⊢
        split_ifs at hc ⊢ <;> omega
      have hrest : 0 < depthFrom (q.next c) cs := by
        simp only [depthFrom] at h
        omega
      obtain ⟨d, hd, hone⟩ := ih hrest
      exact ⟨d, List.mem_cons_of_mem c hd, hone⟩

theorem exists_mem_trim_of_open {kept : List Char} (hopen : 0 < bracketDepth kept)
    (cs : List Char) : ∃ c ∈ trim (kept ++ cs), bracketStep c = 1 := by
  obtain ⟨c, hc, hbracket⟩ := exists_bracket_of_depthFrom hopen
  refine ⟨c, mem_trim (List.mem_append_left cs hc) ?_, hbracket⟩
  by_contra hblank
  have hinert := isInert_of_isBlank (c := c) (by simpa using hblank)
  simp [(isInert_iff.mp hinert).2] at hbracket

/-- What is kept while a bracket is open is not the line `\v`, whatever comes behind it. -/
theorem isListing_append_of_open {kept : List Char} (hopen : 0 < bracketDepth kept)
    (cs : List Char) : isListing (kept ++ cs) = false := by
  obtain ⟨c, hc, hbracket⟩ := exists_mem_trim_of_open hopen cs
  rw [isListing, beq_eq_false_iff_ne]
  intro hlisting
  rw [hlisting] at hc
  simp only [List.mem_cons, List.not_mem_nil, or_false] at hc
  obtain rfl | rfl := hc <;> simp [bracketStep] at hbracket

/-- What can be kept between two lines. -/
def Kept (kept : List Char) : Prop :=
  kept = [] ∨ 0 < bracketDepth kept ∧ ∃ joined, Joins kept joined

def keep (kept line : List Char) : List Char :=
  if kept.isEmpty then line else kept ++ '\n' :: line

theorem keep_of_open {kept : List Char} (hopen : 0 < bracketDepth kept) (line : List Char) :
    keep kept line = kept ++ '\n' :: line := by
  cases kept with
  | nil => cases hopen
  | cons c cs => rfl

section Keep

variable {kept line : List Char} (hkept : Kept kept)

include hkept

theorem Kept.contentLines_keep (line : List Char) :
    contentLines (keep kept line) = contentLines kept ++ contentLines line := by
  obtain rfl | ⟨hopen, -⟩ := hkept
  · rfl
  · rw [keep_of_open hopen, contentLines_append]

variable (hline : PlainLine line)

include hline

/-- A further line keeps one statement going, unless nothing but empty lines has been read. -/
theorem Kept.joins_keep :
    (∃ joined, Joins (keep kept line) joined) ∨
      contentLines (keep kept line) = [] ∧ bracketDepth (keep kept line) = 0 := by
  obtain rfl | ⟨hopen, joined, hjoins⟩ := hkept
  · by_cases hcontent : content line = []
    · have hdepth := depthFrom_content .code hline.inert
      rw [hcontent] at hdepth
      refine .inr ⟨?_, hdepth.symm⟩
      exact (contentLines_of_no_feed hline.noFeed).trans (by rw [hcontent]; rfl)
    · exact .inl ⟨content line, Joins.first hline.noFeed hline.inert hcontent⟩
  · rw [keep_of_open hopen]
    by_cases hcontent : content line = []
    · exact .inl ⟨joined, hjoins.skip hline.noFeed hline.inert hcontent⟩
    · exact .inl ⟨joined ++ ' ' :: content line,
        hjoins.next (hjoins.depth ▸ hopen) hline.noFeed hline.inert hcontent⟩

theorem Kept.joinLines_keep (hclosed : bracketDepth (keep kept line) ≤ 0)
    (more : List (List Char)) :
    joinLines (contentLines (keep kept line) ++ more) =
      joinLines (contentLines (keep kept line)) ++ joinLines more := by
  obtain ⟨joined, hjoins⟩ | ⟨hempty, -⟩ := hkept.joins_keep hline
  · exact hjoins.joinLines_closed hclosed more
  · rw [hempty]
    rfl

theorem Kept.keep_of_open (hopen : 0 < bracketDepth (keep kept line)) : Kept (keep kept line) := by
  obtain hjoins | ⟨-, hzero⟩ := hkept.joins_keep hline
  · exact .inr ⟨hopen, hjoins⟩
  · omega

theorem Kept.not_listing : isListing (keep kept line) = false := by
  obtain rfl | ⟨hopen, -⟩ := hkept
  · exact hline.notListing
  · rw [Dialogue.keep_of_open hopen]
    exact isListing_append_of_open hopen _

end Keep

/-- The lines of a run with a line break behind each, or what was printed before it was cut short. -/
structure Prints (markup : Bool) (ran : Option (List DisplayLine) × Session)
    (reply : Except String String × Session) : Prop where
  whole : ∀ lines, ran.1 = some lines →
    reply.1 = .ok (String.join ((lines.map (·.render markup)).map ended))
  cut : ran.1 = none → ∃ printed, reply.1 = .error printed
  session : reply.2 = ran.2

theorem script_of_self {s : Session} (hjoin : s.settings.joining = .brackets) (markup : Bool)
    {text : String} (hself : split .brackets text = [text]) :
    s.script markup text =
      ((s.runStatement text).1.map (·.map (·.render markup)), (s.runStatement text).2) := by
  rw [Session.script, Session.run, hjoin, hself, Session.runAll]
  rcases s.runStatement text with ⟨_ | block, left⟩
  · rfl
  · simp [Session.andThen, Session.runAll]

theorem runEach_prints {s : Session} (hjoin : s.settings.joining = .brackets) (markup : Bool)
    {texts : List String} (hself : ∀ text ∈ texts, split .brackets text = [text]) :
    Prints markup (s.runAll texts) (runEach s markup texts) := by
  induction texts generalizing s with
  | nil =>
    refine ⟨fun lines h => ?_, fun h => (by cases h), rfl⟩
    cases h
    rfl
  | cons text texts ih =>
    obtain ⟨hfirst, hself⟩ := List.forall_mem_cons.mp hself
    have hsettings : (s.runStatement text).2.settings.joining = .brackets := hjoin
    rw [runEach, script_of_self hjoin markup hfirst, Session.runAll]
    rcases h : s.runStatement text with ⟨_ | block, left⟩
    · exact ⟨fun _ h => (by cases h), fun _ => ⟨"", rfl⟩, rfl⟩
    · rw [h] at hsettings
      obtain ⟨hwhole, hcut, hsession⟩ := ih (s := left) hsettings hself
      refine ⟨fun lines hlines => ?_, fun hnone => ?_, hsession⟩
      · obtain ⟨rest, hrest, rfl⟩ := Option.map_eq_some_iff.mp hlines
        simp [hwhole rest hrest, written, String.join_append]
      · obtain ⟨printed, hprinted⟩ := hcut (Option.map_eq_none_iff.mp hnone)
        simp [hprinted, written]

/-- The output for a number of further input lines: a prompt behind the lines that are printed for
a complete statement, a continuation for a line that leaves one open, and a line break at the end. -/
inductive Transcript : Nat → List String → String → Prop
  | finish (last : List String) : Transcript 0 last (ended (String.join (last.map ended)))
  | keep {n : Nat} {rendered : List String} {output : String} :
    Transcript n rendered output → Transcript (n + 1) rendered (continuation ++ output)
  | reply (block : List String) {n : Nat} {rendered : List String} {output : String} :
    Transcript n rendered output →
      Transcript (n + 1) (block ++ rendered) (String.join (block.map ended) ++ prompt ++ output)

theorem runKept_prints {s : Session} (hjoin : s.settings.joining = .brackets) (markup : Bool)
    {kept : List Char} {texts : List (List Char)} (htexts : splitChars .brackets kept = texts)
    (hself : ∀ text ∈ texts, split .brackets (String.ofList text) = [String.ofList text]) :
    Prints markup (s.runAll (texts.map String.ofList)) (runKept s markup kept) := by
  rw [runKept, split, String.toList_ofList, htexts]
  exact runEach_prints hjoin markup (List.forall_mem_map.mpr hself)

theorem feed_eq_keep {s : Session} {markup : Bool} {kept line : List Char}
    (hopen : 0 < bracketDepth (keep kept line)) :
    feed ⟨s, kept⟩ markup line = (.ok continuation, ⟨s, keep kept line⟩) :=
  if_pos hopen

theorem feed_eq_reply {s : Session} {markup : Bool} {kept line : List Char}
    (hclosed : bracketDepth (keep kept line) ≤ 0) (hlisting : isListing (keep kept line) = false) :
    feed ⟨s, kept⟩ markup line =
      ((runKept s markup (keep kept line)).1.map (· ++ prompt),
        start (runKept s markup (keep kept line)).2) :=
  (if_neg (Int.not_lt.mpr hclosed)).trans (if_neg (Bool.eq_false_iff.mp hlisting))

theorem finish_eq_of_open {s : Session} {markup : Bool} {kept : List Char}
    (hopen : 0 < bracketDepth kept) :
    finish ⟨s, kept⟩ markup = ((runKept s markup kept).1.map ended, (runKept s markup kept).2) := by
  obtain ⟨c, hc, -⟩ := exists_mem_trim_of_open hopen []
  rw [List.append_nil] at hc
  exact if_neg (by simpa using List.ne_nil_of_mem hc)

structure Replies (markup : Bool) (n : Nat) (ran : Option (List DisplayLine) × Session)
    (reply : Except String String × Session) : Prop where
  whole : ∀ lines, ran.1 = some lines →
    ∃ output, reply.1 = .ok output ∧ Transcript n (lines.map (·.render markup)) output
  cut : ran.1 = none → ∃ printed, reply.1 = .error printed
  session : reply.2 = ran.2

theorem Prints.replies {markup : Bool} {ran : Option (List DisplayLine) × Session}
    {reply : Except String String × Session} (h : Prints markup ran reply)
    {second : Session → Option (List DisplayLine) × Session} {lines : List (List Char)}
    (hrest : Replies markup lines.length (second ran.2) (feedAll (start ran.2) markup lines)) :
    Replies markup (lines.length + 1) (Session.andThen ran second)
      (match (reply.1.map (· ++ prompt), start reply.2) with
        | (.error output, d) => (.error output, d.session)
        | (.ok output, d) =>
          (written output (d.feedAll markup lines).1, (d.feedAll markup lines).2)) := by
  obtain ⟨output, left⟩ := reply
  obtain ⟨hwhole, hcut, rfl⟩ := h
  obtain ⟨_ | block, left⟩ := ran
  · obtain ⟨printed, rfl⟩ := hcut rfl
    exact ⟨nofun, fun _ => ⟨printed, rfl⟩, rfl⟩
  · obtain rfl := hwhole block rfl
    obtain ⟨hwhole, hcut, hsession⟩ := hrest
    refine ⟨fun shown h => ?_, fun h => ?_, hsession⟩
    · obtain ⟨rest, hshown, rfl⟩ := Option.map_eq_some_iff.mp h
      obtain ⟨output, houtput, htranscript⟩ := hwhole rest hshown
      rw [List.map_append]
      exact ⟨_, congrArg (written _) houtput, .reply _ htranscript⟩
    · obtain ⟨printed, hprinted⟩ := hcut (Option.map_eq_none_iff.mp h)
      exact ⟨_, congrArg (written _) hprinted⟩

/-- The lines that are still to come, after the ones that are kept, give the same statements one by
one as joined all at once. The induction is on the lines; what is kept grows with each open one and
is empty again behind a complete statement. -/
theorem feedAll_replies {s : Session} (hjoin : s.settings.joining = .brackets) (markup : Bool)
    {kept : List Char} (hkept : Kept kept) {lines : List (List Char)}
    (hlines : ∀ line ∈ lines, PlainLine line) {texts : List (List Char)}
    (htexts : (joinLines (contentLines kept ++ lines.flatMap contentLines)).map Statement.finish = texts)
    (hself : ∀ text ∈ texts, split .brackets (String.ofList text) = [String.ofList text]) :
    Replies markup lines.length (s.runAll (texts.map String.ofList))
      (feedAll ⟨s, kept⟩ markup lines) := by
  induction lines generalizing s kept texts with
  | nil =>
    rw [List.flatMap_nil, List.append_nil] at htexts
    rw [feedAll]
    obtain rfl | ⟨hopen, -⟩ := hkept
    · subst htexts
      exact ⟨fun lines h => by cases h; exact ⟨_, rfl, .finish []⟩, nofun, rfl⟩
    · obtain ⟨hwhole, hcut, hsession⟩ := runKept_prints hjoin markup htexts hself
      rw [finish_eq_of_open hopen]
      refine ⟨fun lines h => ⟨_, congrArg (Except.map ended) (hwhole lines h), .finish _⟩,
        fun h => ?_, hsession⟩
      obtain ⟨printed, hprinted⟩ := hcut h
      exact ⟨printed, congrArg (Except.map ended) hprinted⟩
  | cons line lines ih =>
    obtain ⟨hline, hlines⟩ := List.forall_mem_cons.mp hlines
    rw [List.flatMap_cons, ← List.append_assoc, ← hkept.contentLines_keep line] at htexts
    rw [feedAll]
    by_cases hopen : 0 < bracketDepth (keep kept line)
    · rw [feed_eq_keep hopen]
      obtain ⟨hwhole, hcut, hsession⟩ := ih hjoin (hkept.keep_of_open hline hopen) hlines htexts hself
      refine ⟨fun lines h => ?_, fun h => ?_, hsession⟩
      · obtain ⟨output, houtput, htranscript⟩ := hwhole lines h
        exact ⟨_, congrArg (written continuation) houtput, .keep htranscript⟩
      · obtain ⟨printed, hprinted⟩ := hcut h
        exact ⟨_, congrArg (written continuation) hprinted⟩
    · have hclosed : bracketDepth (keep kept line) ≤ 0 := by omega
      rw [hkept.joinLines_keep hline hclosed, List.map_append] at htexts
      subst htexts
      obtain ⟨hfirst, hrest⟩ := List.forall_mem_append.mp hself
      have hsettings : (s.runAll (((joinLines (contentLines (keep kept line))).map
          Statement.finish).map String.ofList)).2.settings.joining = .brackets := by
        rw [Session.runAll_settings, hjoin]
      rw [feed_eq_reply hclosed (hkept.not_listing hline), List.map_append, Session.runAll_append]
      exact (runKept_prints hjoin markup rfl hfirst).replies
        (ih hsettings (.inl rfl) hlines rfl hrest)

end Dialogue

/-- The dialogue prints the lines of the script and leaves its session. It is cut short if the
script is. -/
structure Session.Agrees (s : Session) (markup : Bool) (input : String) : Prop where
  output : ∀ rendered, (s.script markup input).1 = some rendered →
    ∃ output, (s.dialogue markup input).1 = .ok (Dialogue.prompt ++ output) ∧
      Dialogue.Transcript (Text.lines input.toList).length rendered output
  cut : (s.script markup input).1 = none → ∃ printed, (s.dialogue markup input).1 = .error printed
  session : (s.dialogue markup input).2 = (s.script markup input).2

/-- Dialogues and scripts agree if comments have neither quotes nor brackets in them and statements
are still bare once they have been split off. -/
theorem Session.dialogue_agrees {s : Session} (hjoin : s.settings.joining = .brackets)
    (markup : Bool) {input : String}
    (hlisting : ∀ line ∈ Text.lines input.toList, Text.trim line ≠ ['\\', 'v'])
    (hcomments : ∀ line ∈ Text.lines input.toList, ∀ c ∈ Text.comment line, Text.isInert c = true)
    (hbare : ∀ text ∈ s.statements input, Statement.Bare text.toList) :
    s.Agrees markup input := by
  have hlines : ∀ line ∈ Text.lines input.toList, Dialogue.PlainLine line := fun line hline =>
    ⟨Text.no_feed_of_mem_lines _ line hline, hcomments line hline,
      beq_eq_false_iff_ne.mpr (hlisting line hline)⟩
  have htexts : (Statement.joinLines (Statement.contentLines [] ++
      (Text.lines input.toList).flatMap Statement.contentLines)).map Statement.finish =
        Statement.splitChars .brackets input.toList := by
    rw [← Statement.contentLines_eq_flatMap]
    rfl
  have hself : ∀ text ∈ Statement.splitChars .brackets input.toList,
      Statement.split .brackets (String.ofList text) = [String.ofList text] := by
    intro text htext
    have hmem : String.ofList text ∈ s.statements input := by
      rw [Session.statements, hjoin]
      exact List.mem_map_of_mem htext
    have h := (Statement.splitChars_eq_self_iff htext).mpr (by simpa using hbare _ hmem)
    rw [Statement.split, String.toList_ofList, h, List.map_singleton]
  obtain ⟨hwhole, hcut, hsession⟩ :=
    Dialogue.feedAll_replies hjoin markup (.inl rfl) hlines htexts hself
  have hrun : s.run input =
      s.runAll ((Statement.splitChars .brackets input.toList).map String.ofList) := by
    rw [Session.run, hjoin, Statement.split]
  refine ⟨fun rendered h => ?_, fun h => ?_, hsession.trans (congrArg Prod.snd hrun).symm⟩
  · obtain ⟨shown, hshown, rfl⟩ := Option.map_eq_some_iff.mp h
    obtain ⟨output, houtput, htranscript⟩ := hwhole shown (hrun ▸ hshown)
    exact ⟨output, congrArg (Dialogue.written Dialogue.prompt) houtput, htranscript⟩
  · obtain ⟨printed, hprinted⟩ := hcut (hrun ▸ Option.map_eq_none_iff.mp h)
    exact ⟨_, congrArg (Dialogue.written Dialogue.prompt) hprinted⟩

/-- Two comments, one of them inside an open bracket, and a statement over three lines. -/
theorem Session.dialogue_agrees_comments :
    (Session.fresh { joining := .brackets }).Agrees false
      "x: (true; // first\n\n  false) // second\nx;\n" := by
  have hcomments : (Text.lines "x: (true; // first\n\n  false) // second\nx;\n".toList).all
      (fun line => (Text.comment line).all Text.isInert) = true := by
    decide +kernel
  refine Session.dialogue_agrees rfl false (by decide +kernel) ?_ (by decide +kernel)
  simpa only [List.all_eq_true] using hcomments

/-- A bracket in a comment closes the one in front of it, and a statement loses two semicolons. -/
theorem Session.dialogue_disagrees :
    (∀ line ∈ Text.lines "x: (true; // )\nfalse)".toList, Text.trim line ≠ ['\\', 'v']) ∧
      ¬ (Session.fresh { joining := .brackets }).Agrees false "x: (true; // )\nfalse)" ∧
      ¬ (Session.fresh { joining := .brackets }).Agrees false "x: true;;" := by
  have differ {s : Session} {input : String}
      (h : (s.dialogue false input).2.symbols.names ≠ (s.script false input).2.symbols.names) :
      ¬ s.Agrees false input := fun hagrees => h (by rw [hagrees.session])
  exact ⟨by decide +kernel, differ (by decide +kernel), differ (by decide +kernel)⟩

end TableConsole
