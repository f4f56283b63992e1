import HiddenText.Proofs.Report.Failures
import HiddenText.Proofs.Report.FindingLine
import Mathlib.Data.List.Infix

/-! # The text report line by line

What a text report writes to a stream is a list of lines, each with a line feed after it
(`fullText_text`).  Paths are written as they are: a line feed in one of them ends a line of the
report.  So the line that says that no source file was found is among the lines of standard output
exactly if it was written there, or stands between two line feeds in a path that is listed there
(`cleanLine_mem_lines_iff`). -/
set_option autoImplicit false

namespace HiddenText.Report

def lines (text : List Char) : List (List Char) := text.splitOn '\n'

def unlines (texts : List String) : List Char := texts.flatMap fun line => line.toList ++ ['\n']

def linesOn (o : Outcome) (maxListed : Nat) : Stream → List String
  | .out => advisoryLines o maxListed ++ if o.blocking = [] then [cleanLine] else []
  | .err => blockingLines o maxListed

def HasInside (line text : List Char) : Prop := '\n' :: (line ++ ['\n']) <:+: text

variable {o : Outcome} {maxListed : Nat}

/-! ## What is written -/

theorem textOn_writeLines (stream target : Stream) (texts : List String) :
    (texts.map (writeLine target)).flatMap (Action.textOn stream) =
      if target = stream then unlines texts else [] := by
  rw [List.flatMap_map]
  split
  · rename_i same
    simp [unlines, writeLine, Action.textOn, same]
  · rename_i other
    simp [writeLine, Action.textOn, other]

theorem fullText_text (o : Outcome) (maxListed : Nat) (stream : Stream) :
    fullText o .text maxListed stream = Utf8.encode (unlines (linesOn o maxListed stream)) := by
  rw [fullText_eq, Action.bytesOn]
  congr 1
  have single : ∀ target line, [writeLine target line] = [line].map (writeLine target) :=
    fun _ _ => rfl
  by_cases clean : o.blocking = []
  · simp only [actions, textActions, if_pos clean, single, List.flatMap_append, textOn_writeLines]
    cases stream with
    | out => simp [linesOn, clean, unlines, Action.textOn]
    | err => simp [linesOn, blockingLines, clean, unlines, Action.textOn]
  · simp only [actions, textActions, if_neg clean, List.flatMap_append, textOn_writeLines]
    cases stream with
    | out => simp [linesOn, clean, Action.textOn]
    | err => simp [linesOn, Action.textOn]

/-! ## Lines -/

theorem lines_of_notMem {text : List Char} (unbroken : '\n' ∉ text) : lines text = [text] :=
  List.splitOn_eq_singleton unbroken

theorem lines_append (first rest : List Char) :
    lines (first ++ '\n' :: rest) = lines first ++ lines rest :=
  List.splitOn_append_cons_self first rest

/-- The lines of a text that stands in a line of its own are, but for the first and the last, what
stands between two of its line feeds. -/
theorem mem_lines_around_iff {line after : List Char} (unbroken : '\n' ∉ line)
    (unended : '\n' ∉ after) (apart : ¬ after <:+ line) : ∀ text {before : List Char},
    '\n' ∉ before → (line ∈ lines (before ++ text ++ after) ↔
      line ++ ['\n'] <+: before ++ text ∨ HasInside line text) := by
  -- `before` is what has been read of the line that the text goes on with
  intro text
  induction text with
  | nil =>
      intro before unmet
      have whole : '\n' ∉ before ++ after := by simp [unmet, unended]
      rw [List.append_nil, lines_of_notMem whole, List.mem_singleton]
      constructor
      · rintro rfl
        exact absurd (List.suffix_append before after) apart
      · rintro (first | inside)
        · exact absurd (first.subset (List.mem_append_right line (List.mem_singleton_self _))) unmet
        · cases List.infix_nil.mp inside
  | cons c rest ih =>
      intro before unmet
      by_cases feed : c = '\n'
      · subst feed
        have parted : before ++ '\n' :: rest ++ after = before ++ '\n' :: (rest ++ after) := by
          simp
        have rest_iff := @ih [] List.not_mem_nil
        have inside_iff : HasInside line ('\n' :: rest) ↔
            line ++ ['\n'] <+: rest ∨ HasInside line rest := by
          rw [HasInside, List.infix_cons_iff, List.cons_prefix_cons, HasInside]
          simp only [true_and]
        rw [List.nil_append] at rest_iff
        rw [parted, lines_append, lines_of_notMem unmet, List.singleton_append, List.mem_cons,
          rest_iff, inside_iff]
        refine or_congr ?_ Iff.rfl
        constructor
        · rintro rfl
          exact ⟨rest, by simp⟩
        · rintro ⟨more, same⟩
          rw [List.append_assoc] at same
          exact (Lists.eq_of_append_cons_eq unbroken unmet same).1
      · have parted : before ++ c :: rest = before ++ [c] ++ rest := by simp
        have unmet' : '\n' ∉ before ++ [c] := by simp [unmet, Ne.symm feed]
        have inside_iff : HasInside line (c :: rest) ↔ HasInside line rest := by
          rw [HasInside, List.infix_cons_iff, List.cons_prefix_cons, HasInside]
          simp [Ne.symm feed]
        rw [parted, ih unmet', inside_iff]

theorem unlines_cons (line : String) (rest : List String) :
    unlines (line :: rest) = line.toList ++ '\n' :: unlines rest := by
  rw [unlines, List.flatMap_cons, List.append_assoc]
  rfl

/-- A line of a text that is written line by line comes from one of them. -/
theorem mem_lines_unlines {line : List Char} (filled : line ≠ []) : ∀ texts : List String,
    line ∈ lines (unlines texts) ↔ ∃ text ∈ texts, line ∈ lines text.toList := by
  intro texts
  induction texts with
  | nil =>
      have only : line ∈ lines [] ↔ line = [] := List.mem_singleton
      simp [unlines, only, filled]
  | cons text rest ih =>
      rw [unlines_cons, lines_append, List.mem_append, ih]
      simp

theorem lines_unlines : ∀ {texts : List String}, (∀ text ∈ texts, '\n' ∉ text.toList) →
    lines (unlines texts) = texts.map String.toList ++ [[]] := by
  intro texts
  induction texts with
  | nil => exact fun _ => rfl
  | cons text rest ih =>
      intro unbroken
      obtain ⟨here, later⟩ := List.forall_mem_cons.mp unbroken
      rw [unlines_cons, lines_append, lines_of_notMem here, ih later]
      rfl

theorem eq_of_unlines_eq {texts texts' : List String}
    (unbroken : ∀ text ∈ texts, '\n' ∉ text.toList)
    (unbroken' : ∀ text ∈ texts', '\n' ∉ text.toList) (same : unlines texts = unlines texts') :
    texts = texts' := by
  have read : texts.map String.toList ++ [[]] = texts'.map String.toList ++ [[]] := by
    rw [← lines_unlines unbroken, ← lines_unlines unbroken', same]
  exact (List.map_inj_right fun _ _ => String.toList_inj.mp).mp (List.append_cancel_right read)

/-! ## The lines of the text report -/

theorem newline_notMem_repr (n : Nat) : '\n' ∉ n.repr.toList :=
  fun known => absurd (isDigit_of_mem_repr known) (by decide)

theorem newline_notMem_advisoryHead (count : Nat) : '\n' ∉ (advisoryHead count).toList := by
  unfold advisoryHead
  simp only [String.toList_append, List.mem_append, not_or]
  exact ⟨⟨by decide, newline_notMem_repr count⟩, by decide⟩

theorem newline_notMem_blockingHead (count : Nat) : '\n' ∉ (blockingHead count).toList := by
  unfold blockingHead
  simp only [String.toList_append, List.mem_append, not_or]
  exact ⟨⟨by decide, newline_notMem_repr count⟩, by decide⟩

def overflowLine (count : Nat) : String := "  ... and " ++ count.repr ++ " more file(s)"

theorem newline_notMem_overflowLine (count : Nat) : '\n' ∉ (overflowLine count).toList := by
  simp only [overflowLine, String.toList_append, List.mem_append, not_or]
  exact ⟨⟨by decide, newline_notMem_repr count⟩, by decide⟩

theorem sectionLines_eq (findings : List Finding) (maxListed : Nat) :
    sectionLines findings maxListed = (findings.take maxListed).map findingLine ++
      if maxListed < findings.length then [overflowLine (findings.length - maxListed)] else [] :=
  rfl

theorem newline_notMem_cleanLine : '\n' ∉ cleanLine.toList := by decide

theorem exists_cleanLine : ∃ rest, cleanLine.toList = 'c' :: rest := ⟨_, rfl⟩

theorem cleanLine_mem_lines_of_head_ne {text : List Char} (unbroken : '\n' ∉ text)
    (other : text.head? ≠ some 'c') : cleanLine.toList ∉ lines text := by
  rw [lines_of_notMem unbroken, List.mem_singleton]
  rintro rfl
  exact other rfl

/-- A path brings the line in as it stands there. -/
theorem cleanLine_mem_lines_findingLine_iff (f : Finding) :
    cleanLine.toList ∈ lines (findingLine f).toList ↔ HasInside cleanLine.toList f.path.toList := by
  have apart : ¬ remark f <:+ cleanLine.toList := by
    intro ends
    have paren : '(' ∈ cleanLine.toList := ends.subset (paren_mem_remark f)
    exact absurd paren (by decide)
  have indented : ¬ cleanLine.toList ++ ['\n'] <+: [' ', ' '] ++ f.path.toList := by
    obtain ⟨rest, begins⟩ := exists_cleanLine
    rw [begins]
    simp
  rw [findingLine_toList, mem_lines_around_iff newline_notMem_cleanLine (newline_notMem_remark f)
    apart _ (by decide)]
  exact or_iff_right indented

theorem cleanLine_mem_lines_advisory_iff (o : Outcome) (maxListed : Nat) :
    (∃ text ∈ advisoryLines o maxListed, cleanLine.toList ∈ lines text.toList) ↔
      ∃ f ∈ o.advisory.take maxListed, HasInside cleanLine.toList f.path.toList := by
  have overflow : ∀ count, cleanLine.toList ∉ lines (overflowLine count).toList := by
    intro count
    refine cleanLine_mem_lines_of_head_ne (newline_notMem_overflowLine count) ?_
    simp [overflowLine]
  have head : ∀ count, cleanLine.toList ∉ lines (advisoryHead count).toList := by
    intro count
    refine cleanLine_mem_lines_of_head_ne (newline_notMem_advisoryHead count) ?_
    unfold advisoryHead
    simp
  by_cases silent : o.advisory = []
  · simp [advisoryLines, silent]
  · rw [advisoryLines, if_neg silent, sectionLines_eq]
    simp only [← cleanLine_mem_lines_findingLine_iff]
    constructor
    · rintro ⟨text, known, has⟩
      simp only [List.mem_cons, List.mem_append, List.mem_map] at known
      rcases known with rfl | ⟨f, listed, rfl⟩ | further
      · exact absurd has (head _)
      · exact ⟨f, listed, has⟩
      · split at further
        · rw [List.mem_singleton.mp further] at has
          exact absurd has (overflow _)
        · cases further
    · rintro ⟨f, listed, has⟩
      refine ⟨findingLine f, ?_, has⟩
      exact List.mem_cons_of_mem _ (List.mem_append_left _ (List.mem_map_of_mem listed))

/-- Standard output has the line that says that nothing blocks if nothing does, and also if a path
that is listed there brings it in. -/
theorem cleanLine_mem_lines_iff (o : Outcome) (maxListed : Nat) :
    cleanLine.toList ∈ lines (unlines (linesOn o maxListed .out)) ↔ o.blocking = [] ∨
      ∃ f ∈ o.advisory.take maxListed, HasInside cleanLine.toList f.path.toList := by
  have filled : cleanLine.toList ≠ [] := by
    obtain ⟨rest, begins⟩ := exists_cleanLine
    rw [begins]
    exact List.cons_ne_nil _ _
  have own : cleanLine.toList ∈ lines cleanLine.toList := by
    rw [lines_of_notMem newline_notMem_cleanLine]
    exact List.mem_singleton_self _
  rw [mem_lines_unlines filled, linesOn, ← cleanLine_mem_lines_advisory_iff]
  by_cases clean : o.blocking = []
  · simp only [clean, if_true, true_or, iff_true]
    exact ⟨cleanLine, List.mem_append_right _ (List.mem_singleton_self _), own⟩
  · simp only [clean, if_false, List.append_nil, false_or]

end HiddenText.Report
