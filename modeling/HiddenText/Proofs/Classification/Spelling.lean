import HiddenText.Proofs.Classification
import HiddenText.Proofs.Path.Spelling

/-! # Classes of respelled and of prefixed paths

Extension and class are read off the components of a path, so they are the same in all its
spellings.  Of the directories before it, only their names count, and only whether one of them is
ignored (`classify_below`). -/
set_option autoImplicit false

namespace HiddenText

variable {config : Config} {p q path : Path}

/-! ## What counts -/

theorem extensionOf_congr (same : Path.fileName? p = Path.fileName? q) :
    extensionOf p = extensionOf q := by
  rw [extensionOf, extensionOf, same]

theorem extensionOf_of_respelled (h : Path.Respelled p q) : extensionOf p = extensionOf q := by
  refine extensionOf_congr ?_
  rw [Path.fileName?, Path.fileName?, h.components_eq]

theorem classify_of_respelled (config : Config) (h : Path.Respelled p q) :
    classify p config = classify q config := by
  have names : Path.names p = Path.names q := by
    rw [Path.names, Path.names, h.components_eq]
  rw [classify, classify, names, extensionOf_of_respelled h]

theorem extensionOf_below (directory : Path) {name : Bytes}
    (named : Path.fileName? path = some name) :
    extensionOf (directory ++ Path.slash :: path) = extensionOf path := by
  refine extensionOf_congr ?_
  rw [Path.fileName?_append directory named, named]

/-- Put behind a directory, a path with a name keeps its class, or is ignored with the directory. -/
theorem classify_below (config : Config) (directory : Path) {name : Bytes}
    (named : Path.fileName? path = some name) :
    classify (directory ++ Path.slash :: path) config =
      if (Path.names directory).any config.ignores then .ignored else classify path config := by
  rw [classify, extensionOf_below directory named, Path.names_append, List.any_append]
  cases (Path.names directory).any config.ignores <;> rfl

/-- Without a name at its end, a path takes its extension from the directory before it. -/
example : Path.fileName? Path.dot = none ∧ extensionOf Path.dot = "" ∧
    extensionOf (Utf8.ofString "conf.d" ++ Path.slash :: Path.dot) = "d" := by decide +kernel

/-! ## Ignored names -/

theorem ignores_ofString {name : String} (listed : name ∈ config.ignoredNames) :
    config.ignores (Utf8.ofString name) = true := by
  have read : Utf8.shown (Utf8.ofString name) = name := by
    rw [Utf8.shown, Utf8.ofString, Utf8.decodeLossy_encode, String.ofList_toList]
  rw [Config.ignores, read, List.contains_eq_mem, decide_eq_true listed]

theorem classify_inserted {segment : Bytes} (ordinary : Path.Ordinary segment)
    (ignored : config.ignores segment = true) (front back : Path) :
    classify (front ++ Path.slash :: (segment ++ Path.slash :: back)) config = .ignored := by
  refine classify_of_ignored ?_ ignored
  rw [Path.names_append, Path.names_append, ordinary.names_eq]
  simp

theorem classify_prefixed {segment : Bytes} (ordinary : Path.Ordinary segment)
    (ignored : config.ignores segment = true) (path : Path) :
    classify (segment ++ Path.slash :: path) config = .ignored := by
  refine classify_of_ignored ?_ ignored
  rw [Path.names_append, ordinary.names_eq]
  simp

/-! ## Spellings and directories -/

/-- Extension and class of a path are the same in all its spellings.  They are the same behind
directories none of whose names is ignored, if the path ends in a name; and with an ignored name
put in front of it or behind one of its slashes, every path is ignored. -/
theorem classify_of_spelling (config : Config) :
    (∀ path other, Path.Respelled path other →
        extensionOf other = extensionOf path ∧ classify other config = classify path config) ∧
      (∀ directory path name, Path.fileName? path = some name →
        (∀ segment ∈ Path.names directory, config.ignores segment = false) →
        extensionOf (directory ++ Path.slash :: path) = extensionOf path ∧
          classify (directory ++ Path.slash :: path) config = classify path config) ∧
      ∀ segment, Path.Ordinary segment → config.ignores segment = true →
        (∀ path, classify (segment ++ Path.slash :: path) config = .ignored) ∧
          ∀ front back,
            classify (front ++ Path.slash :: (segment ++ Path.slash :: back)) config =
              .ignored := by
  refine ⟨?_, ?_, ?_⟩
  · intro path other respelled
    exact ⟨(extensionOf_of_respelled respelled).symm, (classify_of_respelled config respelled).symm⟩
  · intro directory path name named kept
    refine ⟨extensionOf_below directory named, ?_⟩
    rw [classify_below config directory named, any_ignores_eq_false kept]
    rfl
  · intro segment ordinary ignored
    exact ⟨classify_prefixed ordinary ignored, classify_inserted ordinary ignored⟩

/-- A source file with capitals in its extension: respelled, behind a directory whose name is no
text, and with the name of a build directory put in. -/
theorem classify_of_spelling_app :
    Path.Respelled (Utf8.ofString "src/App.TS") (Utf8.ofString "src//./App.TS/.") ∧
      extensionOf (Utf8.ofString "src//./App.TS/.") = "ts" ∧
      classify (Utf8.ofString "src//./App.TS/.") .standard = .source ∧
      Path.fileName? (Utf8.ofString "src/App.TS") = some (Utf8.ofString "App.TS") ∧
      (∀ segment ∈ Path.names (0xFF :: Utf8.ofString "/../lib/"),
        Config.standard.ignores segment = false) ∧
      extensionOf ((0xFF :: Utf8.ofString "/../lib/") ++
        Path.slash :: Utf8.ofString "src/App.TS") = "ts" ∧
      classify ((0xFF :: Utf8.ofString "/../lib/") ++
        Path.slash :: Utf8.ofString "src/App.TS") .standard = .source ∧
      Path.Ordinary (Utf8.ofString "dist") ∧ "dist" ∈ Config.standard.ignoredNames ∧
      classify (Utf8.ofString "dist" ++ Path.slash :: Utf8.ofString "src/App.TS") .standard =
        .ignored ∧
      classify (Utf8.ofString "src" ++ Path.slash ::
        (Utf8.ofString "dist" ++ Path.slash :: Utf8.ofString "App.TS")) .standard = .ignored := by
  have respelled : Path.Respelled (Utf8.ofString "src/App.TS") (Utf8.ofString "src//./App.TS/.") :=
    Path.respelled_iff.mpr (by decide +kernel)
  have read : extensionOf (Utf8.ofString "src/App.TS") = "ts" ∧
      classify (Utf8.ofString "src/App.TS") .standard = .source := by decide +kernel
  have named : Path.fileName? (Utf8.ofString "src/App.TS") = some (Utf8.ofString "App.TS") := by
    decide +kernel
  have kept : ∀ segment ∈ Path.names (0xFF :: Utf8.ofString "/../lib/"),
      Config.standard.ignores segment = false := by decide +kernel
  have ordinary : Path.Ordinary (Utf8.ofString "dist") := by decide +kernel
  have listed : "dist" ∈ Config.standard.ignoredNames := by decide +kernel
  obtain ⟨spellings, directories, ignored⟩ := classify_of_spelling .standard
  have other := spellings _ _ respelled
  have behind := directories _ _ _ named kept
  have left := ignored _ ordinary (ignores_ofString listed)
  exact ⟨respelled, other.1.trans read.1, other.2.trans read.2, named, kept,
    behind.1.trans read.1, behind.2.trans read.2, ordinary, listed, left.1 _, left.2 _ _⟩

end HiddenText
