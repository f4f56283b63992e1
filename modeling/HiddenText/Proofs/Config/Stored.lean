import HiddenText.Proofs.Codepoint.Range
import HiddenText.Proofs.Config.Document
import HiddenText.Proofs.Config.Extension

/-! # Stored configurations, written and read again

What a configuration holds can be written as a document again.  All of it comes back as it was,
but for extensions that begin with white space: those are normalized once more
(`ofInlineText_asFields`). -/
set_option autoImplicit false

namespace HiddenText

theorem RestrictedSet.ofLists_self (ranges : List CodepointRange) (calls : List Char) :
    ofLists (ofLists ranges calls).ranges (ofLists ranges calls).allowed =
      ofLists ranges calls := by
  rw [ofLists_eq_iff, ranges_ofLists, allowed_ofLists]
  simp [Ascending.mem_ofList]

namespace Config

variable {text text' : List Char} {fields : List Field} {config : Config} {origin : String}

/-! ## What is stored -/

def asFields (config : Config) : List Field :=
  [⟨.sourceExtensions, config.sourceExtensions⟩,
    ⟨.documentationExtensions, config.documentationExtensions⟩,
    ⟨.ignoredNames, config.ignoredNames⟩,
    ⟨.restrictedRanges, config.restricted.ranges.map CodepointRange.label⟩,
    ⟨.allowedCodepoints, config.restricted.allowed.map Codepoint.label⟩,
    ⟨.sampleCap, config.sampleCap⟩, ⟨.maxListed, config.maxListed⟩,
    ⟨.followLinks, config.followLinks⟩] ++ (config.threads.map (⟨.threads, ·⟩)).toList

/-- A number as documents give them. -/
def IsCount (n : Nat) : Prop := n < 0x8000000000000000

instance (n : Nat) : Decidable (IsCount n) := inferInstanceAs (Decidable (n < _))

structure Stored (config : Config) : Prop where
  sources : ∃ entries, config.sourceExtensions = extensionSet entries
  documents : ∃ entries, config.documentationExtensions = extensionSet entries
  ignored : ∃ entries, config.ignoredNames = nameSet entries
  restricted : ∃ ranges calls, config.restricted = .ofLists ranges calls
  sampleCap : IsCount config.sampleCap
  maxListed : IsCount config.maxListed
  threads : ∀ n, config.threads = some n → n ≠ 0 ∧ IsCount n

theorem fits_of_readFrom {f : Field} {e : String × Toml.Value} (read : f.ReadFrom e)
    (fits : e.2.Fits) : f.plain.Fits := by
  obtain ⟨k, content⟩ := f
  have counts : ∀ {v : Toml.Value} {n : Nat}, v.Fits → Settings.countOf v = .ok n → IsCount n := by
    intro v n fits read
    rw [Settings.countOf.eq_def] at read
    split at read
    case h_1 m =>
      obtain rfl := Except.ok.inj read
      exact Int.ofNat_lt.mp fits.2
    all_goals cases read
  cases k with
  | sourceExtensions | documentationExtensions | ignoredNames | restrictedRanges
  | allowedCodepoints | followLinks => trivial
  | sampleCap | maxListed | threads => exact counts fits read.2

theorem Document.fits (doc : Document text fields) : ∀ f ∈ fields, f.plain.Fits := by
  obtain ⟨entries, parsed, read⟩ := doc
  have fit := (Toml.sound_of_parse parsed).fit
  clear parsed
  induction read with
  | nil => exact List.forall_mem_nil _
  | cons first _ ih =>
      obtain ⟨here, later⟩ := List.forall_mem_cons.mp fit
      exact List.forall_mem_cons.mpr ⟨fits_of_readFrom first here, ih later⟩

theorem DecidedBy.cases {β : Type} {k : Key} {make : k.Content → β} {standard got : β}
    (h : DecidedBy fields k make standard got) :
    (∃ content, Given fields k content ∧ got = make content) ∨ got = standard := by
  by_cases given : ∃ content, Given fields k content
  · obtain ⟨content, given⟩ := given
    exact .inl ⟨content, given, h.1 content given⟩
  · exact .inr (h.2 (not_exists.mp given))

theorem stored_of_read (read : ofText text origin = .ok config) : config.Stored := by
  obtain ⟨fields, doc, made⟩ := ofText_eq_ok_iff_document.mp read
  have follows := follows_of_config_eq_ok doc.distinct made
  obtain ⟨ranges, calls, -, -, whole⟩ := Settings.config_eq_ok_iff.mp made
  obtain ⟨sources, documents⟩ := exists_extensionSet read
  refine ⟨sources, documents, ?_, ⟨ranges, calls, by rw [whole]; rfl⟩, ?_, ?_, ?_⟩
  · rcases follows.ignoredNames.cases with ⟨names, -, same⟩ | same
    · exact ⟨names, same⟩
    · exact ⟨_, same⟩
  · rcases follows.sampleCap.cases with ⟨n, given, same⟩ | same
    · rw [same]
      exact doc.fits _ given
    · rw [same]
      exact (by decide : IsCount 8)
  · rcases follows.maxListed.cases with ⟨n, given, same⟩ | same
    · rw [same]
      exact doc.fits _ given
    · rw [same]
      exact (by decide : IsCount 40)
  · intro n fixed
    rcases follows.threads.cases with ⟨content, given, same⟩ | same
    · obtain ⟨positive, rfl⟩ := fixedThreads_eq_some_iff.mp (same.symm.trans fixed)
      exact ⟨positive, doc.fits _ given⟩
    · rw [same] at fixed
      cases fixed

/-! ## Reading it again -/

theorem distinct_asFields (config : Config) : (config.asFields.map Field.key).Nodup := by
  rw [asFields]
  cases config.threads <;> simp

theorem Stored.document (h : config.Stored) : Document (write config.asFields) config.asFields := by
  refine document_write config.distinct_asFields (List.forall_mem_append.mpr ⟨?_, ?_⟩)
  · simp only [List.forall_mem_cons]
    exact ⟨trivial, trivial, trivial, trivial, trivial, h.sampleCap, h.maxListed, trivial,
      List.forall_mem_nil _⟩
  · intro f mem
    obtain ⟨n, fixed, rfl⟩ := Option.map_eq_some_iff.mp (Option.mem_toList.mp mem)
    exact (h.threads n fixed).2

def asSettings (config : Config) : Settings where
  sourceExtensions := some config.sourceExtensions
  documentationExtensions := some config.documentationExtensions
  ignoredNames := some config.ignoredNames
  restrictedRanges := some (config.restricted.ranges.map CodepointRange.label)
  allowedCodepoints := some (config.restricted.allowed.map Codepoint.label)
  sampleCap := some config.sampleCap
  maxListed := some config.maxListed
  followLinks := some config.followLinks
  threads := config.threads

theorem gathered_asFields (config : Config) : Settings.gathered config.asFields =
    config.asSettings := by
  rw [asFields, asSettings]
  cases config.threads <;> rfl

def renormalized (config : Config) : Config :=
  { config with
    sourceExtensions := extensionSet config.sourceExtensions
    documentationExtensions := extensionSet config.documentationExtensions }

theorem Stored.config_asSettings (h : config.Stored) :
    config.asSettings.config = .ok config.renormalized := by
  obtain ⟨ranges, calls, restricted⟩ := h.restricted
  obtain ⟨names, ignored⟩ := h.ignored
  refine Settings.config_eq_ok_iff.mpr
    ⟨config.restricted.ranges, config.restricted.allowed, ?_, ?_, ?_⟩
  · show (config.restricted.ranges.map CodepointRange.label).map CodepointRange.parse = _
    rw [List.map_map]
    exact List.map_congr_left fun r _ => CodepointRange.parse_label r
  · show (config.restricted.allowed.map Codepoint.label).map Codepoint.parse = _
    rw [List.map_map]
    exact List.map_congr_left fun c _ => Codepoint.parse_label c
  · have set : RestrictedSet.ofLists config.restricted.ranges config.restricted.allowed =
        config.restricted := by
      rw [restricted, RestrictedSet.ofLists_self]
    have kept : nameSet config.ignoredNames = config.ignoredNames := by
      rw [ignored, nameSet_nameSet]
    have threads : (config.threads.map fixedThreads).getD standard.threads = config.threads := by
      cases fixed : config.threads with
      | none => rfl
      | some n => exact fixedThreads_eq_some_iff.mpr ⟨(h.threads n fixed).1, rfl⟩
    have filled : config.asSettings.filledWith config.restricted =
        { config.renormalized with
          ignoredNames := nameSet config.ignoredNames
          threads := (config.asSettings.filledWith config.restricted).threads } := rfl
    rw [set, filled, threads_filledWith, kept]
    show _ = { config.renormalized with
      threads := (config.threads.map fixedThreads).getD standard.threads }
    rw [threads]
    rfl

theorem Stored.renormalized_eq_iff (h : config.Stored) : config.renormalized = config ↔
    ∀ e ∈ config.sourceExtensions ++ config.documentationExtensions, normalizeExtension e = e := by
  obtain ⟨sources, isSource⟩ := h.sources
  obtain ⟨documents, isDocument⟩ := h.documents
  have parts : config.renormalized = config ↔
      extensionSet config.sourceExtensions = config.sourceExtensions ∧
        extensionSet config.documentationExtensions = config.documentationExtensions := by
    cases config
    simp [renormalized]
  rw [parts, List.forall_mem_append, isSource, isDocument, extensionSet_extensionSet_iff,
    extensionSet_extensionSet_iff]

theorem Stored.keptForm (h : config.Stored) :
    ∀ e ∈ config.sourceExtensions ++ config.documentationExtensions, KeptForm e := by
  obtain ⟨sources, isSource⟩ := h.sources
  obtain ⟨documents, isDocument⟩ := h.documents
  intro e mem
  rcases List.mem_append.mp mem with source | document
  · exact keptForm_of_mem (isSource ▸ source)
  · exact keptForm_of_mem (isDocument ▸ document)

/-- What was read can be written as a document.  Every such document, in whatever order it gives
its fields, is read as the same configuration with its extensions normalized once more; so it is
read as the same one exactly if no stored extension begins with white space.  Stored extensions
are in every other respect as they should be: each is nonempty and in lower case, with no dot at
its front and no white space at its end. -/
theorem ofInlineText_asFields (read : ofInlineText text = .ok config) :
    Document (write config.asFields) config.asFields ∧
      (∀ text' fields, fields.Perm config.asFields → Document text' fields →
        ofInlineText text' = .ok config.renormalized ∧
          (ofInlineText text' = .ok config ↔
            ∀ e ∈ config.sourceExtensions ++ config.documentationExtensions,
              ∀ c, e.toList.head? = some c → Blank.isBlank c = false)) ∧
      ∀ e ∈ config.sourceExtensions ++ config.documentationExtensions,
        KeptForm e ∧ (normalizeExtension e = e ↔
          ∀ c, e.toList.head? = some c → Blank.isBlank c = false) := by
  have stored := stored_of_read read
  refine ⟨stored.document, fun text' fields perm doc => ?_, fun e mem => ?_⟩
  · have again : ofInlineText text' = .ok config.renormalized := by
      rw [ofInlineText, ofText_of_document doc,
        Settings.gathered_eq_of_perm config.distinct_asFields perm, gathered_asFields,
        stored.config_asSettings]
      rfl
    refine ⟨again, ?_⟩
    rw [again, Except.ok.injEq, stored.renormalized_eq_iff]
    refine forall₂_congr fun e mem => ?_
    exact (stored.keptForm e mem).normalizeExtension_eq_self_iff
  · have kept := stored.keptForm e mem
    exact ⟨kept, kept.normalizeExtension_eq_self_iff⟩

/-- A blank between the dots of an extension and its letters is kept, and lost the next time. -/
theorem ofInlineText_asFields_blank :
    ofInlineText "source_extensions = [\". a\"]".toList =
        .ok { standard with sourceExtensions := [" a"] } ∧
      ofInlineText (write ({ standard with sourceExtensions := [" a"] } : Config).asFields) =
        .ok ({ standard with sourceExtensions := [" a"] } : Config).renormalized ∧
      ({ standard with sourceExtensions := [" a"] } : Config).renormalized.sourceExtensions =
        ["a"] := by
  have read : ofInlineText "source_extensions = [\". a\"]".toList =
      .ok { standard with sourceExtensions := [" a"] } :=
    toOption_eq_some_iff.mp (by decide +kernel)
  obtain ⟨doc, again, -⟩ := ofInlineText_asFields read
  exact ⟨read, (again _ _ (.refl _) doc).1, by decide +kernel⟩

end Config
end HiddenText
