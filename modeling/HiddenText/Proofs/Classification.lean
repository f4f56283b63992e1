import HiddenText.Finding
import HiddenText.Proofs.Config.Extension
import HiddenText.Proofs.Config.Settings
import HiddenText.Proofs.Path.Spelling
import HiddenText.Proofs.Results
import HiddenText.Proofs.Text.Lossy

/-! # Configured extensions and extensions of paths

What follows the last dot of a path's last name is read in lower case, and a configured extension
is kept in lower case; so the two meet on every extension without a dot
(`classify_of_configured`).  One with a dot is no extension of any path
(`extensionOf_ne_of_dotted`). -/
set_option autoImplicit false

namespace HiddenText

/-! ## The last name of a path -/

namespace Path

variable {path : Path} {name : Bytes} {others : List Bytes}

theorem component?_of_dot (stem : Bytes) {tail : Bytes} (some : tail ≠ []) (other : tail ≠ dot) :
    component? (stem ++ 0x2E :: tail) = Option.some (.normal (stem ++ 0x2E :: tail)) := by
  have nonempty : ∀ front : Bytes, front ++ 0x2E :: tail ≠ [] :=
    fun front => List.append_ne_nil_of_right_ne_nil front (List.cons_ne_nil _ _)
  have here : stem ++ 0x2E :: tail ≠ dot := by
    intro same
    cases stem with
    | nil => exact some (List.cons.inj same).2
    | cons b stem => exact nonempty stem (List.cons.inj same).2
  have parent : stem ++ 0x2E :: tail ≠ dotDot := by
    intro same
    cases stem with
    | nil => exact other (List.cons.inj same).2
    | cons b stem =>
        have rest := congrArg List.length (List.cons.inj same).2
        have long := List.length_pos_iff.mpr some
        simp at rest
        omega
  rw [component?, if_neg (not_or.mpr ⟨nonempty stem, here⟩), if_neg parent]

theorem fileName?_of_segments (last : segments path = others ++ [name])
    (named : component? name = some (.normal name)) : fileName? path = some name := by
  have behind : moves path = others.filterMap component? ++ [.normal name] := by
    rw [moves, last, List.filterMap_append, List.filterMap_cons_some named]
    rfl
  rw [fileName?_eq, behind, List.getLast?_concat]
  rfl

end Path

/-! ## The extension of a path -/

theorem afterLastDot_around (stem : List Char) {extension : List Char}
    (dotless : '.' ∉ extension) : afterLastDot (stem ++ '.' :: extension) = extension := by
  have kept : ∀ c ∈ extension.reverse, decide (c ≠ '.') = true := by
    intro c mem
    rw [decide_eq_true_iff]
    rintro rfl
    exact dotless (List.mem_reverse.mp mem)
  rw [afterLastDot, if_pos (by simp), List.reverse_append, List.reverse_cons, List.append_assoc,
    List.takeWhile_append_of_pos kept]
  simp

theorem dot_notMem_afterLastDot (name : List Char) : '.' ∉ afterLastDot name := by
  rw [afterLastDot]
  split
  · intro mem
    have kept := List.mem_takeWhile_imp (List.mem_reverse.mp mem)
    simp at kept
  · exact List.not_mem_nil

theorem dot_notMem_extensionOf (path : Path) : '.' ∉ (extensionOf path).toList := by
  rw [extensionOf]
  split
  · exact List.not_mem_nil
  · rw [String.toList_ofList]
    intro mem
    exact dot_notMem_afterLastDot _ (LowerCase.mem_of_mem_ofText mem Config.inert_dot)

theorem extensionOf_ne_of_dotted {extension : String} (dotted : '.' ∈ extension.toList)
    (path : Path) : extensionOf path ≠ extension := by
  rintro rfl
  exact dot_notMem_extensionOf path dotted

theorem extensionOf_of_fileName {path : Path} {stem : Bytes} {extension : String}
    (named : Path.fileName? path = some (stem ++ 0x2E :: Utf8.ofString extension))
    (lower : LowerCase.ofText extension.toList = extension.toList)
    (dotless : '.' ∉ extension.toList) : extensionOf path = extension := by
  have read : Utf8.decodeLossy (stem ++ 0x2E :: Utf8.ofString extension) =
      Utf8.decodeLossy stem ++ '.' :: extension.toList := by
    rw [Utf8.decodeLossy_around stem (by decide), Utf8.ofString, Utf8.decodeLossy_encode]
    rfl
  rw [extensionOf, named]
  simp only [read, afterLastDot_around _ dotless, lower, String.ofList_toList]

theorem fileName?_of_extension {path : Path} {others : List Bytes} {stem : Bytes}
    {extension : String}
    (last : Path.segments path = others ++ [stem ++ 0x2E :: Utf8.ofString extension])
    (some : extension ≠ "") (dotless : '.' ∉ extension.toList) :
    Path.fileName? path = Option.some (stem ++ 0x2E :: Utf8.ofString extension) := by
  refine Path.fileName?_of_segments last (Path.component?_of_dot stem ?_ ?_)
  · intro none
    have text : extension.toList = [] := Utf8.encode_injective none
    exact some (String.toList_eq_nil_iff.mp text)
  · intro dot
    have text : extension.toList = ['.'] := Utf8.encode_injective dot
    rw [text] at dotless
    exact dotless (List.mem_singleton_self _)

/-! ## Classes -/

section

variable {path : Path} {config : Config}

theorem classify_of_ignored {name : Bytes} (known : name ∈ Path.names path)
    (ignored : config.ignores name = true) : classify path config = .ignored := by
  rw [classify, if_pos (List.any_eq_true.mpr ⟨name, known, ignored⟩)]

theorem any_ignores_eq_false {names : List Bytes}
    (kept : ∀ name ∈ names, config.ignores name = false) : names.any config.ignores = false :=
  List.any_eq_false.mpr fun name mem => by simp [kept name mem]

theorem classify_of_kept (kept : ∀ name ∈ Path.names path, config.ignores name = false)
    (some : extensionOf path ≠ "") :
    (extensionOf path ∈ config.sourceExtensions → classify path config = .source) ∧
      (extensionOf path ∈ config.documentationExtensions →
        extensionOf path ∉ config.sourceExtensions → classify path config = .documentation) := by
  rw [classify, any_ignores_eq_false kept]
  constructor
  · intro source
    simp [some, source]
  · intro documentation other
    simp [some, documentation, other]

end

/-- A path whose last segment ends with a dot and an extension, and none of whose names is ignored,
is in the class for which a configuration that was read lists the extension, whatever stands before
the dot; unless there is a dot in the extension.  Then no path at all has that extension. -/
theorem classify_of_configured {text : List Char} {config : Config}
    (read : Config.ofInlineText text = .ok config) {path : Path} {others : List Bytes}
    {stem : Bytes} {extension : String}
    (last : Path.segments path = others ++ [stem ++ 0x2E :: Utf8.ofString extension])
    (kept : ∀ name ∈ Path.names path, config.ignores name = false) :
    ('.' ∉ extension.toList → extension ∈ config.sourceExtensions →
        classify path config = .source) ∧
      ('.' ∉ extension.toList → extension ∈ config.documentationExtensions →
        extension ∉ config.sourceExtensions → classify path config = .documentation) ∧
      ('.' ∈ extension.toList → ∀ other, extensionOf other ≠ extension) := by
  obtain ⟨⟨sources, isSource⟩, documents, isDocument⟩ := Config.exists_extensionSet read
  have meets : Config.KeptForm extension → '.' ∉ extension.toList →
      extensionOf path = extension := fun form dotless => extensionOf_of_fileName
    (fileName?_of_extension last form.nonempty dotless) form.lowerCase dotless
  refine ⟨?_, ?_, extensionOf_ne_of_dotted⟩
  · intro dotless source
    have form := Config.keptForm_of_mem (isSource ▸ source)
    have same := meets form dotless
    exact (classify_of_kept kept (same ▸ form.nonempty)).1 (same ▸ source)
  · intro dotless document other
    have form := Config.keptForm_of_mem (isDocument ▸ document)
    have same := meets form dotless
    exact (classify_of_kept kept (same ▸ form.nonempty)).2 (same ▸ document) (same ▸ other)

/-- A configured extension is written in capitals, the last of them a sigma, and a file has it
after bytes that are no text. -/
theorem classify_of_configured_sigma :
    Config.ofInlineText "source_extensions = [\" .ΟΔΟΣ\"]".toList =
        .ok { Config.standard with sourceExtensions := ["οδος"] } ∧
      Path.segments (Utf8.ofString "a/" ++ [0xE2, 0x82, 0x2E] ++ Utf8.ofString "οδος") =
        [Utf8.ofString "a"] ++ [[0xE2, 0x82] ++ 0x2E :: Utf8.ofString "οδος"] ∧
      (∀ name ∈ Path.names (Utf8.ofString "a/" ++ [0xE2, 0x82, 0x2E] ++ Utf8.ofString "οδος"),
        ({ Config.standard with sourceExtensions := ["οδος"] } : Config).ignores name = false) ∧
      classify (Utf8.ofString "a/" ++ [0xE2, 0x82, 0x2E] ++ Utf8.ofString "οδος")
        { Config.standard with sourceExtensions := ["οδος"] } = .source := by
  have read : Config.ofInlineText "source_extensions = [\" .ΟΔΟΣ\"]".toList =
      .ok { Config.standard with sourceExtensions := ["οδος"] } :=
    toOption_eq_some_iff.mp (by decide +kernel)
  have last : Path.segments (Utf8.ofString "a/" ++ [0xE2, 0x82, 0x2E] ++ Utf8.ofString "οδος") =
      [Utf8.ofString "a"] ++ [[0xE2, 0x82] ++ 0x2E :: Utf8.ofString "οδος"] := by decide +kernel
  have kept : ∀ name ∈ Path.names (Utf8.ofString "a/" ++ [0xE2, 0x82, 0x2E] ++
      Utf8.ofString "οδος"),
      ({ Config.standard with sourceExtensions := ["οδος"] } : Config).ignores name = false := by
    decide +kernel
  exact ⟨read, last, kept, (classify_of_configured read last kept).1 (by decide +kernel)
    (List.mem_singleton_self _)⟩

/-- An extension with a dot is kept as it is written, but the file that ends with it is ignored:
its extension is what follows the last dot. -/
theorem ignored_of_dotted_extension :
    Config.ofInlineText "source_extensions = [\"tar.gz\"]".toList =
        .ok { Config.standard with sourceExtensions := ["tar.gz"] } ∧
      Path.segments (Utf8.ofString "pack.tar.gz") =
        [] ++ [Utf8.ofString "pack" ++ 0x2E :: Utf8.ofString "tar.gz"] ∧
      (∀ name ∈ Path.names (Utf8.ofString "pack.tar.gz"),
        ({ Config.standard with sourceExtensions := ["tar.gz"] } : Config).ignores name = false) ∧
      extensionOf (Utf8.ofString "pack.tar.gz") = "gz" ∧
      classify (Utf8.ofString "pack.tar.gz")
        { Config.standard with sourceExtensions := ["tar.gz"] } = .ignored :=
  ⟨toOption_eq_some_iff.mp (by decide +kernel), by decide +kernel, by decide +kernel,
    by decide +kernel, by decide +kernel⟩

end HiddenText
