import HiddenText.Proofs.Lists
import HiddenText.Proofs.Report.Lines
import HiddenText.Proofs.Scan.Policy

/-! # Who may say that a tree is clean

The report of a scan has the line that says that nothing blocks if that is so, and else exactly if a
name on the way to a listed documentation file has the line between two line feeds
(`cleanLine_mem_lines_of_scans`): names are shown as they are. -/
set_option autoImplicit false

namespace HiddenText.Report

variable {fs : FileSystem} {config : Config} {processors : Nat} {root canonical : Path}
  {outcome : Outcome}

/-- A path shows the line between line feeds if one of its names does. -/
theorem hasInside_shown_iff {line : List Char} (unbroken : '/' ∉ line) (names : List Name) :
    HasInside line (List.intercalate ['/'] (names.map fun name => Utf8.decodeLossy name.bytes)) ↔
      ∃ name ∈ names, HasInside line (Utf8.decodeLossy name.bytes) := by
  have unmet : '/' ∉ '\n' :: (line ++ ['\n']) := by simp [unbroken]
  rw [HasInside, Lists.infix_intercalate_iff unmet (List.cons_ne_nil _ _)]
  simp only [List.mem_map, exists_exists_and_eq_and, HasInside]

theorem hasInside_path_iff {cls : FileClass} {names : List Name} {finding : Finding}
    (tells : Tells fs config canonical cls (canonical.descend names) finding) {line : List Char}
    (unbroken : '/' ∉ line) : HasInside line finding.path.toList ↔
      ∃ name ∈ names, HasInside line (Utf8.decodeLossy name.bytes) := by
  obtain ⟨names', text, same, -, -, -, rfl⟩ := tells
  obtain rfl := Path.descend_injective _ same
  rw [String.toList_ofList, hasInside_shown_iff unbroken]

/-- What a bucket lists was found in a file below the root, and it lists all that was. -/
theorem mem_findings_iff (cls : FileClass) (told : cls ≠ .ignored)
    (reports : outcome.Reports fs config canonical) {finding : Finding} :
    finding ∈ outcome.findings cls ↔
      ∃ names, Finds fs config canonical cls (canonical.descend names) finding := by
  obtain ⟨-, pairs, all, -, mem⟩ := reports cls told
  rw [all, List.mem_map]
  constructor
  · rintro ⟨⟨path, found⟩, known, rfl⟩
    obtain ⟨met, names, text, rfl, tells⟩ := (mem path found).mp known
    exact ⟨names, met, names, text, rfl, tells⟩
  · rintro ⟨names, finds⟩
    exact ⟨(_, finding), (mem _ _).mpr finds, rfl⟩

theorem exists_validateRoot_of_scans (scans : Scans fs config processors root (.ok outcome)) :
    ∃ canonical, validateRoot fs root = .ok canonical := by
  cases valid : validateRoot fs root with
  | ok canonical => exact ⟨canonical, rfl⟩
  | error e =>
      have failed := scans.agrees_scanTree
      rw [scanTree_of_error config valid] at failed
      cases failed

/-- Standard output of the report of a scan has the line that says that nothing blocks if nothing
does, and besides only if a listed documentation file lies below a name, or has one, that shows
the line between two line feeds. -/
theorem cleanLine_mem_lines_of_scans (maxListed : Nat)
    (scans : Scans fs config processors root (.ok outcome)) :
    ∃ canonical text, validateRoot fs root = .ok canonical ∧
      fullText outcome .text maxListed .out = Utf8.encode text ∧
      (cleanLine.toList ∈ lines text ↔ outcome.blocking = [] ∨
        ∃ finding ∈ outcome.advisory.take maxListed, ∃ names,
          Finds fs config canonical .documentation (canonical.descend names) finding ∧
            ∃ name ∈ names, HasInside cleanLine.toList (Utf8.decodeLossy name.bytes)) := by
  obtain ⟨canonical, valid⟩ := exists_validateRoot_of_scans scans
  obtain ⟨reported, same, reports⟩ := scans.exists_reports valid
  obtain rfl := Except.ok.inj same
  refine ⟨canonical, _, valid, fullText_text _ maxListed .out, ?_⟩
  rw [cleanLine_mem_lines_iff]
  refine or_congr_right (exists_congr fun finding => and_congr_right fun listed => ?_)
  constructor
  · intro inside
    obtain ⟨names, finds⟩ := (mem_findings_iff .documentation nofun reports).mp
      (List.mem_of_mem_take listed)
    exact ⟨names, finds, (hasInside_path_iff finds.2 (by decide)).mp inside⟩
  · rintro ⟨names, finds, inside⟩
    exact (hasInside_path_iff finds.2 (by decide)).mpr inside

namespace Sample

open Walk.Sample

/-- The name of a note that shows the line of a clean tree. -/
def note : Name := ⟨Utf8.encode ('\n' :: (cleanLine.toList ++ ['\n', '.', 'm', 'd'])), by decide⟩

def forged : FileSystem :=
  { objects :=
      [([top], .directory true true), ([top, leaf], .file (Utf8.encode text) true),
       ([top, note], .file (Utf8.encode text) true)] }

theorem forged_opened : forged.openDirectory (Location.path [top]) = .ok [top] := rfl

theorem exists_finds_forged (name : Name) (cls : FileClass)
    (isFile : forged.get? [top, name] = some (.file (Utf8.encode text) true))
    (isClass : classify (Path.relative [name]) .standard = cls)
    (read : forged.read ((Location.path [top]).descend [name]) = .ok (Utf8.encode text)) :
    ∃ finding, Finds forged .standard (Location.path [top]) cls
      ((Location.path [top]).descend [name]) finding := by
  have met : (Location.path [top]).descend [name] ∈
      (Walk.ofRoot forged .standard (Location.path [top])).files :=
    (Walk.mem_files_iff forged_opened _).mpr
      ⟨[], name, ⟨[top], [], .root forged_opened, .inl ⟨_, _, isFile⟩⟩, rfl⟩
  exact ⟨_, met, [name], text, rfl, isClass, read, ⟨'\u202E', by decide, by decide⟩, rfl⟩

end Sample

open Walk.Sample Sample in
/-- A note can say that a tree is clean that is not. -/
theorem cleanLine_mem_lines_of_scans_forged : ∃ outcome,
    Scans forged .standard 1 (Location.path [top]) (.ok outcome) ∧ outcome.blocking ≠ [] ∧
      ∀ maxListed, outcome.advisory.length ≤ maxListed → ∃ shown,
        fullText outcome .text maxListed .out = Utf8.encode shown ∧
          cleanLine.toList ∈ lines shown := by
  have valid : validateRoot forged (Location.path [top]) = .ok (Location.path [top]) := rfl
  have scans : Scans forged .standard 1 (Location.path [top])
      (scanTree forged .standard (Location.path [top])).result := scans_scanTree ..
  obtain ⟨outcome, scanned, reports⟩ := scans.exists_reports valid
  rw [scanned] at scans
  obtain ⟨finding, source⟩ :=
    exists_finds_forged leaf .source rfl (by decide +kernel) rfl
  obtain ⟨advice, noted⟩ :=
    exists_finds_forged note .documentation rfl (by decide +kernel) rfl
  have blocks : finding ∈ outcome.blocking :=
    (mem_findings_iff .source nofun reports).mpr ⟨_, source⟩
  have advises : advice ∈ outcome.advisory :=
    (mem_findings_iff .documentation nofun reports).mpr ⟨_, noted⟩
  have inside : HasInside cleanLine.toList (Utf8.decodeLossy note.bytes) := by
    rw [note, Utf8.decodeLossy_encode]
    exact ⟨[], ['.', 'm', 'd'], by simp⟩
  refine ⟨outcome, scans, List.ne_nil_of_mem blocks, fun maxListed all => ?_⟩
  obtain ⟨canonical, shown, valid', writes, confirms⟩ :=
    cleanLine_mem_lines_of_scans maxListed scans
  obtain rfl : Location.path [top] = canonical := Except.ok.inj (valid.symm.trans valid')
  refine ⟨shown, writes, confirms.mpr (.inr ⟨advice, ?_, [note], noted, note, ?_, inside⟩)⟩
  · rw [List.take_of_length_le all]
    exact advises
  · exact List.mem_singleton_self note

end HiddenText.Report
