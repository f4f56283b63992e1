import HiddenText.Proofs.Report.Lines

/-! # What a text report tells

As long as no listed path breaks its line, two outcomes with the same text report have as many
findings of each kind and list the same ones (`textReport_eq_iff`).  The line at the head of a
section counts its findings, and so fixes how many lines follow. -/
set_option autoImplicit false

namespace HiddenText.Report

def ListsUnbroken (o : Outcome) (maxListed : Nat) : Prop :=
  ∀ f ∈ o.blocking.take maxListed ++ o.advisory.take maxListed, '\n' ∉ f.path.toList

instance (o : Outcome) (maxListed : Nat) : Decidable (ListsUnbroken o maxListed) :=
  inferInstanceAs (Decidable (∀ f ∈ _, _))

def listing (head : Nat → String) (findings : List Finding) (maxListed : Nat) : List String :=
  if findings = [] then [] else head findings.length :: sectionLines findings maxListed

variable {o o' : Outcome} {maxListed : Nat}

theorem blockingLines_eq (o : Outcome) (maxListed : Nat) :
    blockingLines o maxListed = listing blockingHead o.blocking maxListed := rfl

theorem advisoryLines_eq (o : Outcome) (maxListed : Nat) :
    advisoryLines o maxListed = listing advisoryHead o.advisory maxListed := rfl

/-! ## A section -/

section

variable {head : Nat → String} {findings findings' : List Finding}

theorem newline_notMem_findingLine {f : Finding} (unbroken : '\n' ∉ f.path.toList) :
    '\n' ∉ (findingLine f).toList := by
  rw [findingLine_toList, List.mem_append, List.mem_append, not_or, not_or]
  exact ⟨⟨by decide, unbroken⟩, newline_notMem_remark f⟩

theorem newline_notMem_listing (counts : ∀ count, '\n' ∉ (head count).toList)
    (unbroken : ∀ f ∈ findings.take maxListed, '\n' ∉ f.path.toList) {line : String}
    (known : line ∈ listing head findings maxListed) : '\n' ∉ line.toList := by
  rw [listing] at known
  split at known
  · cases known
  · rw [sectionLines_eq] at known
    simp only [List.mem_cons, List.mem_append, List.mem_map] at known
    rcases known with rfl | ⟨f, listed, rfl⟩ | further
    · exact counts _
    · exact newline_notMem_findingLine (unbroken f listed)
    · split at further
      · rw [List.mem_singleton.mp further]
        exact newline_notMem_overflowLine _
      · cases further

/-- With as many findings, as many of them are listed, and what follows says the same. -/
theorem sectionLines_eq_iff (counts : findings.length = findings'.length) :
    sectionLines findings maxListed = sectionLines findings' maxListed ↔
      findings.take maxListed = findings'.take maxListed := by
  rw [sectionLines_eq, sectionLines_eq, counts, List.append_left_inj]
  exact List.map_inj_right fun _ _ => @findingLine_injective _ _

theorem listing_eq_iff (counts : Function.Injective head) :
    listing head findings maxListed = listing head findings' maxListed ↔
      findings.length = findings'.length ∧
        findings.take maxListed = findings'.take maxListed := by
  cases findings with
  | nil =>
      cases findings' with
      | nil => simp
      | cons f rest => simp [listing]
  | cons f rest =>
      cases findings' with
      | nil => simp [listing]
      | cons f' rest' =>
          rw [listing, listing, if_neg (List.cons_ne_nil _ _), if_neg (List.cons_ne_nil _ _),
            List.cons.injEq, counts.eq_iff]
          exact and_congr_right sectionLines_eq_iff

end

/-! ## The heads -/

theorem repr_between_injective (before after : String) :
    Function.Injective fun count : Nat => before ++ count.repr ++ after := by
  intro count count' same
  have shown := congrArg String.toList same
  simp only [String.toList_append] at shown
  have digits := List.append_cancel_left (List.append_cancel_right shown)
  exact repr_injective (String.toList_inj.mp digits)

theorem blockingHead_injective : Function.Injective blockingHead := repr_between_injective _ _

theorem advisoryHead_injective : Function.Injective advisoryHead := repr_between_injective _ _

/-! ## The report -/

theorem newline_notMem_linesOn (unbroken : ListsUnbroken o maxListed) {stream : Stream}
    {line : String} (known : line ∈ linesOn o maxListed stream) : '\n' ∉ line.toList := by
  obtain ⟨blocking, advisory⟩ := List.forall_mem_append.mp unbroken
  cases stream with
  | err =>
      rw [linesOn, blockingLines_eq] at known
      exact newline_notMem_listing newline_notMem_blockingHead blocking known
  | out =>
      rw [linesOn, advisoryLines_eq] at known
      rcases List.mem_append.mp known with listed | confirmed
      · exact newline_notMem_listing newline_notMem_advisoryHead advisory listed
      · split at confirmed
        · rw [List.mem_singleton.mp confirmed]
          exact newline_notMem_cleanLine
        · cases confirmed

theorem fullText_text_eq_iff (unbroken : ListsUnbroken o maxListed)
    (unbroken' : ListsUnbroken o' maxListed) (stream : Stream) :
    fullText o .text maxListed stream = fullText o' .text maxListed stream ↔
      linesOn o maxListed stream = linesOn o' maxListed stream := by
  rw [fullText_text, fullText_text, Utf8.encode_injective.eq_iff]
  constructor
  · exact eq_of_unlines_eq (fun _ => newline_notMem_linesOn unbroken)
      (fun _ => newline_notMem_linesOn unbroken')
  · exact congrArg unlines

/-- As long as no listed path breaks its line, the text reports of two outcomes are the same on both
streams exactly if the outcomes have as many findings of each kind and list the same ones, down to
the last sample. -/
theorem textReport_eq_iff (unbroken : ListsUnbroken o maxListed)
    (unbroken' : ListsUnbroken o' maxListed) :
    (∀ stream, fullText o .text maxListed stream = fullText o' .text maxListed stream) ↔
      o.blocking.length = o'.blocking.length ∧ o.advisory.length = o'.advisory.length ∧
        o.blocking.take maxListed = o'.blocking.take maxListed ∧
        o.advisory.take maxListed = o'.advisory.take maxListed := by
  have onErr : linesOn o maxListed .err = linesOn o' maxListed .err ↔
      o.blocking.length = o'.blocking.length ∧
        o.blocking.take maxListed = o'.blocking.take maxListed := by
    rw [linesOn, linesOn, blockingLines_eq, blockingLines_eq]
    exact listing_eq_iff blockingHead_injective
  have onOut (same : o.blocking.length = o'.blocking.length) :
      linesOn o maxListed .out = linesOn o' maxListed .out ↔
        o.advisory.length = o'.advisory.length ∧
          o.advisory.take maxListed = o'.advisory.take maxListed := by
    have confirmed : o.blocking = [] ↔ o'.blocking = [] := by
      rw [← List.length_eq_zero_iff, ← List.length_eq_zero_iff, same]
    simp only [linesOn, advisoryLines_eq, confirmed, List.append_left_inj]
    exact listing_eq_iff advisoryHead_injective
  simp only [fullText_text_eq_iff unbroken unbroken']
  constructor
  · intro same
    obtain ⟨blocking, firstBlocking⟩ := onErr.mp (same .err)
    obtain ⟨advisory, firstAdvisory⟩ := (onOut blocking).mp (same .out)
    exact ⟨blocking, advisory, firstBlocking, firstAdvisory⟩
  · rintro ⟨blocking, advisory, firstBlocking, firstAdvisory⟩ stream
    cases stream with
    | err => exact onErr.mpr ⟨blocking, firstBlocking⟩
    | out => exact (onOut blocking).mpr ⟨advisory, firstAdvisory⟩

namespace Sample

def first : Finding := ⟨"a.ts", 1, ['\u202E']⟩
def plain : Finding := ⟨"b.ts", 1, ['\u202E']⟩

/-- Its path reads like a line of the report. -/
def confusable : Finding := ⟨"b.ts: 1 occurrence(s): U+202E.ts", 1, ['\u202E']⟩

end Sample

open Sample in
/-- A finding that is only counted may be another one, and one that is listed may not, even if its
path reads like a line of the report. -/
theorem textReport_eq_iff_confusable :
    ListsUnbroken { blocking := [first, plain] } 2 ∧
      ListsUnbroken { blocking := [first, confusable] } 2 ∧
      (∀ stream, fullText { blocking := [first, plain] } .text 1 stream =
        fullText { blocking := [first, confusable] } .text 1 stream) ∧
      ¬ ∀ stream, fullText { blocking := [first, plain] } .text 2 stream =
        fullText { blocking := [first, confusable] } .text 2 stream := by
  refine ⟨by decide, by decide, ?_, ?_⟩
  · exact (textReport_eq_iff (by decide) (by decide)).mpr ⟨rfl, rfl, rfl, rfl⟩
  · intro same
    obtain ⟨-, -, listed, -⟩ := (textReport_eq_iff (by decide) (by decide)).mp same
    exact absurd listed (by decide)

end HiddenText.Report
