import HiddenText.Proofs.Json.Write
import HiddenText.Proofs.Lists
import HiddenText.Proofs.Report.Failures

/-! # The JSON report loses nothing

What is read from the document is the outcome it was made of (`outcome?_document`): the findings of
both buckets in their order, the samples from their labels, and the counts.  A text denotes one
document at most, so that the outcome can be told from the bytes (`document_readable`). -/
set_option autoImplicit false

namespace HiddenText

namespace Json.Tree

def text? : Tree → Option String
  | .text s => some s
  | _ => none

def natural? : Tree → Option Nat
  | .number literal =>
    if literal.all Char.isDigit then some (Nat.ofDigitChars 10 literal 0) else none
  | _ => none

def items? : Tree → Option (List Tree)
  | .array items => some items
  | _ => none

def field? (key : String) : Tree → Option Tree
  | .object fields => fields.lookup key
  | _ => none

theorem natural?_number (n : Nat) : (Json.number n).tree.natural? = some n := by
  have digits : (Nat.toDigits 10 n).all Char.isDigit = true := by
    rw [List.all_eq_true]
    exact fun c known => Nat.isDigit_of_mem_toDigits (by decide) (by decide) known
  rw [tree, natural?, if_pos digits, Nat.ofDigitChars_toDigits (by decide) (by decide)]

end Json.Tree

namespace Report

open Json (Tree)

/-! ## Reading a document -/

def sample? (tree : Tree) : Option Char := do
  let label ← tree.text?
  (Codepoint.parse label).toOption

def finding? (tree : Tree) : Option Finding := do
  let path ← tree.field? "path" >>= Tree.text?
  let occurrences ← tree.field? "occurrence_count" >>= Tree.natural?
  let samples ← tree.field? "samples" >>= Tree.items?
  return { path := path, occurrences := occurrences, samples := ← samples.mapM sample? }

def stats? (tree : Tree) : Option ScanStats := do
  let visited ← tree.field? "files_visited" >>= Tree.natural?
  let scanned ← tree.field? "files_scanned" >>= Tree.natural?
  let skipped ← tree.field? "files_skipped" >>= Tree.natural?
  let errors ← tree.field? "traversal_errors" >>= Tree.natural?
  return {
    filesVisited := visited, filesScanned := scanned, filesSkipped := skipped,
    traversalErrors := errors }

def outcome? (tree : Tree) : Option Outcome := do
  let blocking ← tree.field? "blocking" >>= Tree.items?
  let advisory ← tree.field? "advisory" >>= Tree.items?
  let stats ← tree.field? "stats" >>= stats?
  return {
    blocking := ← blocking.mapM finding?, advisory := ← advisory.mapM finding?, stats := stats }

/-! ## Reading back -/

theorem sample?_label (c : Char) : sample? (Json.text (Codepoint.label c)).tree = some c := by
  rw [sample?, Json.tree]
  simp [Tree.text?, Codepoint.parse_label, Except.toOption]

theorem finding?_findingJson (f : Finding) : finding? (findingJson f).tree = some f := by
  have path : (findingJson f).tree.field? "path" = some (.text f.path) := rfl
  have occurrences : (findingJson f).tree.field? "occurrence_count" =
      some (Json.number f.occurrences).tree := rfl
  have samples : (findingJson f).tree.field? "samples" =
      some (.array (Json.trees (f.samples.map fun c => .text (Codepoint.label c)))) := rfl
  have read := Lists.mapM_map_eq_some sample?_label f.samples
  rw [finding?, path, occurrences, samples, Json.trees_eq_map, List.map_map]
  simp only [Option.bind_eq_bind, Option.bind_some, Tree.text?, Tree.items?,
    Tree.natural?_number, Function.comp_def, read, Option.pure_def]

theorem stats?_statsJson (s : ScanStats) : stats? (statsJson s).tree = some s := by
  have visited : (statsJson s).tree.field? "files_visited" =
      some (Json.number s.filesVisited).tree := rfl
  have scanned : (statsJson s).tree.field? "files_scanned" =
      some (Json.number s.filesScanned).tree := rfl
  have skipped : (statsJson s).tree.field? "files_skipped" =
      some (Json.number s.filesSkipped).tree := rfl
  have errors : (statsJson s).tree.field? "traversal_errors" =
      some (Json.number s.traversalErrors).tree := rfl
  rw [stats?, visited, scanned, skipped, errors]
  simp only [Option.bind_eq_bind, Option.bind_some, Tree.natural?_number, Option.pure_def]

theorem outcome?_document (o : Outcome) : outcome? (document o).tree = some o := by
  have blocking : (document o).tree.field? "blocking" =
      some (.array (Json.trees (o.blocking.map findingJson))) := rfl
  have advisory : (document o).tree.field? "advisory" =
      some (.array (Json.trees (o.advisory.map findingJson))) := rfl
  have stats : (document o).tree.field? "stats" = some (statsJson o.stats).tree := rfl
  have read := Lists.mapM_map_eq_some finding?_findingJson
  rw [outcome?, blocking, advisory, stats, Json.trees_eq_map, Json.trees_eq_map, List.map_map,
    List.map_map]
  simp only [Option.bind_eq_bind, Option.bind_some, Tree.items?, stats?_statsJson,
    Function.comp_def, read, Option.pure_def]

/-! ## The text that is written -/

theorem fullText_json (o : Outcome) (maxListed : Nat) : fullText o .json maxListed .out =
    Utf8.encode ((document o).write 0 ++ ['\n']) := by
  rw [fullText_eq]
  rfl

structure Readable (o : Outcome) (text : List Char) : Prop where
  valid : ∃ tree, Json.Spells text (.value tree) []
  outcome (tree : Tree) (read : Json.Denotes text tree) : outcome? tree = some o
  status (tree : Tree) (read : Json.Denotes text tree) :
    tree.field? "status" = some (.text (if o.blocking = [] then "clean" else "blocking"))
  exitCode (tree : Tree) (read : Json.Denotes text tree) :
    (tree.field? "exit_code" >>= Tree.natural?) = some (if o.blocking = [] then 0 else 2)

theorem document_readable (o : Outcome) : Readable o ((document o).write 0) := by
  have denotes := Json.denotes_write (document o) 0
  constructor
  · exact ⟨_, Json.spells_document (document o) 0⟩
  · intro tree read
    rw [read.unique denotes, outcome?_document]
  · intro tree read
    have status : (document o).tree.field? "status" = some (.text o.exitStatus.name) := rfl
    rw [read.unique denotes, status, Outcome.exitStatus]
    split <;> rfl
  · intro tree read
    have code : (document o).tree.field? "exit_code" =
        some (Json.number o.exitStatus.code).tree := rfl
    rw [read.unique denotes, code, Option.bind_eq_bind, Option.bind_some, Tree.natural?_number,
      Outcome.exitStatus]
    split <;> rfl

/-- The JSON report is one document and a newline.  Whoever reads it finds the outcome, so that
different outcomes have different reports. -/
theorem json_report_readable (o : Outcome) (maxListed : Nat) : ∃ text,
    fullText o .json maxListed .out = Utf8.encode (text ++ ['\n']) ∧ Readable o text ∧
      ∀ o' maxListed', fullText o' .json maxListed' .out = fullText o .json maxListed .out →
        o' = o := by
  refine ⟨_, fullText_json o maxListed, document_readable o, ?_⟩
  intro o' maxListed' same
  rw [fullText_json, fullText_json] at same
  have texts := List.append_cancel_right (Utf8.encode_injective same)
  have denotes := Json.denotes_write (document o') 0
  have other := (document_readable o').outcome _ denotes
  rw [texts] at denotes
  rw [(document_readable o).outcome _ denotes] at other
  exact (Option.some.inj other).symm

end Report
end HiddenText
