import HiddenText.Proofs.Scan.Unlisted
import HiddenText.Proofs.Walk.SameShape

/-! # What another file changes

A file that is given other contents, or taken from the reader, changes what a scan tells of it and
nothing else: the same files are visited, the same failures counted, and the findings of all other
files are the same and stand in the same order around the place where the file's own finding
belongs (`scanTree_isolates`). -/
set_option autoImplicit false

namespace HiddenText

variable {fs fs' : FileSystem} {config : Config} {root canonical : Path} {start : Location}
  {names : List Name} {content content' : Bytes} {readable readable' : Bool}

theorem validateRoot_of_sameShape (h : fs.SameShape fs') (root : Path) :
    validateRoot fs root = validateRoot fs' root := by
  rw [validateRoot, validateRoot, h.canonical_eq]
  cases fs'.canonical root with
  | error cause => rfl
  | ok place =>
      have found := h.object_agrees true place.path
      simp only [h.openDirectory_eq, FileSystem.stat]
      generalize fs.object true place.path = reach at found ⊢
      generalize fs'.object true place.path = reach' at found ⊢
      cases found with
      | error same => rfl
      | ok found =>
          cases found with
          | mk place alike => cases alike <;> rfl

/-! ## Reading files after the change -/

section

variable (unfollowed : config.followLinks = false) (opened : fs.openDirectory root = .ok start)
  (there : fs.get? (start ++ names) = some (.file content readable))
include unfollowed opened there

theorem read_set_of_ne {path : Path} (met : path ∈ (Walk.ofRoot fs config root).files)
    (other : path ≠ root.descend names) :
    (fs.set (start ++ names) (.file content' readable')).read path = fs.read path := by
  obtain ⟨front, name, ⟨place, above, route, isFile⟩, rfl⟩ :=
    (Walk.mem_files_iff opened path).mp met
  obtain ⟨searchable, here⟩ := route.stat_eq unfollowed
  have shape := FileSystem.SameShape.of_set there content' readable'
  have here' := shape.stat_eq_directory_iff.mpr here
  rcases isFile with ⟨content'', readable'', found⟩ | ⟨followed, -⟩
  · have different : place ++ [name] ≠ start ++ names := by
      rw [route.place_eq unfollowed opened, List.append_assoc]
      intro same
      exact other (congrArg root.descend (List.append_cancel_left same))
    have found' := (FileSystem.get?_set_of_ne different (.file content' readable')).trans found
    rw [Path.descend_concat, FileSystem.read_entry here found,
      FileSystem.read_entry here' found']
  · rw [unfollowed] at followed
    cases followed

theorem text?_set_self (met : root.descend names ∈ (Walk.ofRoot fs config root).files)
    (spoiled : readable' = false ∨ Utf8.decode content' = none) :
    (fs.set (start ++ names) (.file content' readable')).text? (root.descend names) = none := by
  obtain ⟨front, name, ⟨place, above, route, -⟩, same⟩ :=
    (Walk.mem_files_iff opened _).mp met
  obtain rfl := Path.descend_injective root same
  obtain ⟨searchable, here⟩ := route.stat_eq unfollowed
  have shape := FileSystem.SameShape.of_set there content' readable'
  have here' := shape.stat_eq_directory_iff.mpr here
  have found : (fs.set (start ++ (front ++ [name])) (.file content' readable')).get?
      (place ++ [name]) = some (.file content' readable') := by
    rw [route.place_eq unfollowed opened, List.append_assoc]
    exact FileSystem.get?_set_self _
  rw [FileSystem.text?, Path.descend_concat, FileSystem.read_entry here' found]
  cases FileSystem.enterable searchable ((root.descend front).join name.bytes) name with
  | error cause => rfl
  | ok entered =>
      rcases spoiled with rfl | undecoded
      · rfl
      · cases readable' with
        | false => rfl
        | true => exact undecoded

end

/-! ## Buckets around one file -/

/-- Inspections that agree on all files but one come to buckets that differ at most in what stands
in the place of this file. -/
theorem exists_bucket_around {inspect inspect' : Path → Inspection} {files : List Path}
    (nodup : files.Nodup) {path : Path} {shown : String} {cls : FileClass}
    (same : ∀ other ∈ files, other ≠ path → inspect' other = inspect other)
    (named : ∀ finding, (inspect path).findingOf cls = some finding → finding.path = shown)
    (named' : ∀ finding, (inspect' path).findingOf cls = some finding → finding.path = shown) :
    ∃ before after own own',
      bucket cls ((files.map inspect).filterMap Inspection.finding?) =
        before ++ own.toList ++ after ∧
      bucket cls ((files.map inspect').filterMap Inspection.finding?) =
        before ++ own'.toList ++ after ∧
      before ++ after =
        bucket cls (((files.filter (· ≠ path)).map inspect).filterMap Inspection.finding?) ∧
      (∀ finding, own = some finding ↔ path ∈ files ∧ (inspect path).findingOf cls = some finding) ∧
      ∀ finding, own' = some finding ↔
        path ∈ files ∧ (inspect' path).findingOf cls = some finding := by
  by_cases met : path ∈ files
  · obtain ⟨front, back, rfl⟩ := List.append_of_mem met
    have absent : path ∉ front ++ back := (List.nodup_middle.mp nodup).notMem
    have beside : ∀ other ∈ front ++ back, other ≠ path := fun other known here =>
      absent (here ▸ known)
    have others : (front ++ path :: back).filter (· ≠ path) = front ++ back := by
      rw [List.filter_append, List.filter_cons_of_neg (by simp), ← List.filter_append,
        List.filter_eq_self]
      exact fun other known => decide_eq_true (beside other known)
    have parts : ∀ i : Path → Inspection,
        (front ++ path :: back).filterMap (Inspection.findingOf cls ∘ i) =
          front.filterMap (Inspection.findingOf cls ∘ i) ++ ((i path).findingOf cls).toList ++
            back.filterMap (Inspection.findingOf cls ∘ i) := by
      intro i
      rw [List.filterMap_append, List.filterMap_cons, List.append_assoc]
      cases found : (i path).findingOf cls <;> simp [found]
    have agree : ∀ other ∈ front ++ back,
        (Inspection.findingOf cls ∘ inspect') other =
          (Inspection.findingOf cls ∘ inspect) other := by
      intro other known
      have listed : other ∈ front ++ path :: back := by
        simp only [List.mem_append, List.mem_cons] at known ⊢
        tauto
      exact congrArg _ (same other listed (beside other known))
    obtain ⟨early, late⟩ := List.forall_mem_append.mp agree
    obtain ⟨before, after, -, around⟩ := Finding.exists_sortByPath_around shown
      (front.filterMap (Inspection.findingOf cls ∘ inspect))
      (back.filterMap (Inspection.findingOf cls ∘ inspect))
    refine ⟨before, after, (inspect path).findingOf cls, (inspect' path).findingOf cls,
      ?_, ?_, ?_, fun _ => (and_iff_right met).symm, fun _ => (and_iff_right met).symm⟩
    · rw [bucket_eq, List.filterMap_map, parts]
      exact around _ named
    · rw [bucket_eq, List.filterMap_map, parts, List.filterMap_congr early,
        List.filterMap_congr late]
      exact around _ named'
    · have absent := around none nofun
      simp only [Option.toList, List.append_nil] at absent
      rw [bucket_eq, List.filterMap_map, others, List.filterMap_append, absent]
  · have beside : ∀ other ∈ files, other ≠ path := fun other known here => met (here ▸ known)
    have others : files.filter (· ≠ path) = files :=
      List.filter_eq_self.mpr fun other known => decide_eq_true (beside other known)
    have unchanged : files.map inspect' = files.map inspect :=
      List.map_congr_left fun other known => same other known (beside other known)
    rw [others, unchanged]
    refine ⟨_, [], none, none, by simp, by simp, List.append_nil _, ?_, ?_⟩
    · intro finding
      simp [met]
    · intro finding
      simp [met]

/-! ## Scans before and after the change -/

theorem Outcome.findings_collect {cls : FileClass} (told : cls ≠ .ignored)
    (inspections : List Inspection) (errors : Nat) :
    (Outcome.collect inspections errors).findings cls =
      bucket cls (inspections.filterMap Inspection.finding?) := by
  cases cls with
  | source => rfl
  | documentation => rfl
  | ignored => exact absurd rfl told

/-- How many files are scanned or skipped depends on their paths only. -/
theorem Outcome.inspected_collect (fs fs' : FileSystem) (config : Config) (root : Path)
    (files : List Path) (errors errors' : Nat) :
    (Outcome.collect (files.map (Inspection.ofFile fs config root)) errors).stats.filesScanned +
        (Outcome.collect (files.map (Inspection.ofFile fs config root)) errors).stats.filesSkipped =
      (Outcome.collect (files.map (Inspection.ofFile fs' config root)) errors').stats.filesScanned +
        (Outcome.collect (files.map (Inspection.ofFile fs' config root))
          errors').stats.filesSkipped := by
  have ignored : (files.map (Inspection.ofFile fs config root)).countP (· = .ignored) =
      (files.map (Inspection.ofFile fs' config root)).countP (· = .ignored) := by
    rw [List.countP_map, List.countP_map]
    apply List.countP_congr
    intro path _
    simp only [Function.comp, decide_eq_true_eq, Inspection.ofFile_eq_ignored_iff rfl]
  have all := Inspection.length_eq_countP (files.map (Inspection.ofFile fs config root))
  have all' := Inspection.length_eq_countP (files.map (Inspection.ofFile fs' config root))
  rw [List.length_map] at all all'
  simp only [Outcome.collect, Outcome.ofFindings]
  omega

/-- A bucket holds a file's own finding, if it has one, between the findings of all other files. -/
def ListsAround (fs : FileSystem) (config : Config) (canonical : Path) (cls : FileClass)
    (path : Path) (before after : List Finding) (own : Option Finding) (bucket : List Finding) :
    Prop :=
  bucket = before ++ own.toList ++ after ∧
    (∀ finding, own = some finding ↔ Finds fs config canonical cls path finding) ∧
    Lists fs config canonical ((Walk.ofRoot fs config canonical).files.filter (· ≠ path)) cls
      (before ++ after)

theorem Inspection.path_of_findingOf {path : Path} {cls : FileClass} {finding : Finding}
    (found : (ofFile fs config root path).findingOf cls = some finding) :
    finding.path = Path.shownNames ((Path.stripPrefix? root path).getD path) := by
  rw [findingOf_eq_some_iff] at found
  obtain ⟨-, -, text, -, -, rfl⟩ := (finding?_ofFile_eq_some_iff rfl).mp found
  rfl

/-- Before and after the change a bucket holds the same findings of all other files. -/
theorem exists_listsAround (unfollowed : config.followLinks = false) {place : Location}
    (opened : fs.openDirectory place.path = .ok start)
    (there : fs.get? (start ++ names) = some (.file content readable))
    (changed : fs' = fs.set (start ++ names) (.file content' readable'))
    {cls : FileClass} (told : cls ≠ .ignored) :
    ∃ before after own own',
      ListsAround fs config place.path cls (place.path.descend names) before after own
        (bucket cls (((Walk.ofRoot fs config place.path).files.map
          (Inspection.ofFile fs config place.path)).filterMap Inspection.finding?)) ∧
      ListsAround fs' config place.path cls (place.path.descend names) before after own'
        (bucket cls (((Walk.ofRoot fs' config place.path).files.map
          (Inspection.ofFile fs' config place.path)).filterMap Inspection.finding?)) ∧
      (readable' = false ∨ Utf8.decode content' = none → own' = none) := by
  have shape : fs'.SameShape fs := changed ▸ .of_set there content' readable'
  have opened' : fs'.openDirectory place.path = .ok start :=
    (shape.openDirectory_eq place.path).trans opened
  have walked : Walk.ofRoot fs' config place.path = Walk.ofRoot fs config place.path :=
    Walk.ofRoot_of_sameShape shape config place.path
  have reads : ∀ path ∈ (Walk.ofRoot fs config place.path).files,
      path ≠ place.path.descend names → fs'.read path = fs.read path := by
    intro path met other
    rw [changed]
    exact read_set_of_ne unfollowed opened there met other
  have nodup : (Walk.ofRoot fs config place.path).files.Nodup := Walk.files_nodup opened
  obtain ⟨before, after, own, own', all, all', others, isOwn, isOwn'⟩ :=
    exists_bucket_around nodup
      (fun other met different =>
        Inspection.ofFile_eq_of_read rfl rfl (.inr (reads other met different)))
      (fun _ found => Inspection.path_of_findingOf found)
      (fun _ found => Inspection.path_of_findingOf found)
  have finds : ∀ finding, own = some finding ↔
      Finds fs config place.path cls (place.path.descend names) finding := by
    intro finding
    rw [isOwn, Inspection.findingOf_eq_some_iff]
    exact and_congr_right fun met => finding?_ofFile_iff_tells_of_mem opened met told
  have finds' : ∀ finding, own' = some finding ↔
      Finds fs' config place.path cls (place.path.descend names) finding := by
    intro finding
    rw [isOwn', Inspection.findingOf_eq_some_iff, Finds, walked]
    exact and_congr_right fun met =>
      finding?_ofFile_iff_tells_of_mem opened' (walked ▸ met) told
  have lists : Lists fs config place.path
      ((Walk.ofRoot fs config place.path).files.filter (· ≠ place.path.descend names)) cls
      (before ++ after) := by
    rw [others]
    exact lists_bucket_of_subset opened (nodup.filter _) List.filter_sublist.subset told
  refine ⟨before, after, own, own', ⟨all, finds, lists⟩, ⟨walked ▸ all', finds', ?_⟩, ?_⟩
  · rw [walked]
    apply lists.of_read
    intro path met
    obtain ⟨met, other⟩ := List.mem_filter.mp met
    exact reads path met (of_decide_eq_true other)
  · intro spoiled
    cases found : own' with
    | none => rfl
    | some finding =>
        obtain ⟨met, -, text, -, -, read, -⟩ := (finds' finding).mp found
        rw [walked] at met
        have silent := text?_set_self unfollowed opened there met spoiled
        rw [← changed, FileSystem.text?_eq_some_iff.mpr read] at silent
        cases silent

/-- Other contents of one file, or another permission to read it, change at most the file's own
finding.  All other files have the findings that they had, in the same order; as many files are
visited, as many of them scanned or skipped, and as many failures counted.  A file that may not be
read, or that is not UTF-8, has no finding; and a scan succeeds all the same, whatever threads it
has. -/
theorem scanTree_isolates (unfollowed : config.followLinks = false)
    (valid : validateRoot fs root = .ok canonical)
    (opened : fs.openDirectory canonical = .ok start)
    (there : fs.get? (start ++ names) = some (.file content readable))
    (changed : fs' = fs.set (start ++ names) (.file content' readable')) :
    ∃ outcome outcome', (scanTree fs config root).result = .ok outcome ∧
      (scanTree fs' config root).result = .ok outcome' ∧
      (∀ processors result, Scans fs' config processors root result →
        ∃ agreeing, result = .ok agreeing ∧ agreeing.Agrees outcome') ∧
      outcome'.stats.filesVisited = outcome.stats.filesVisited ∧
      outcome'.stats.traversalErrors = outcome.stats.traversalErrors ∧
      outcome'.stats.filesScanned + outcome'.stats.filesSkipped =
        outcome.stats.filesScanned + outcome.stats.filesSkipped ∧
      ∀ cls, cls ≠ .ignored →
        (∀ path finding, path ≠ canonical.descend names →
          (Finds fs' config canonical cls path finding ↔
            Finds fs config canonical cls path finding)) ∧
        ∃ before after own own',
          ListsAround fs config canonical cls (canonical.descend names) before after own
            (outcome.findings cls) ∧
          ListsAround fs' config canonical cls (canonical.descend names) before after own'
            (outcome'.findings cls) ∧
          (readable' = false ∨ Utf8.decode content' = none → own' = none) := by
  have shape : fs'.SameShape fs := changed ▸ .of_set there content' readable'
  have valid' := (validateRoot_of_sameShape shape root).trans valid
  have walked := Walk.ofRoot_of_sameShape shape config canonical
  have scanned' := scanTree_of_validateRoot config valid'
  obtain ⟨place, -, rfl, -⟩ := validateRoot_eq_ok_iff.mp valid
  refine ⟨_, _, scanTree_of_validateRoot config valid, scanned', ?_, ?_, ?_, ?_,
    fun cls told => ⟨?_, ?_⟩⟩
  · intro processors result scans
    have agrees := scans.agrees_scanTree
    rw [scanned'] at agrees
    cases agrees with
    | ok agrees => exact ⟨_, rfl, agrees⟩
  · rw [walked]
    simp only [Outcome.collect, Outcome.ofFindings, List.length_map]
  · rw [walked]
    rfl
  · rw [walked]
    apply Outcome.inspected_collect
  · intro path finding other
    rw [Finds, Finds, walked, changed]
    exact and_congr_right fun met =>
      tells_iff_of_read (read_set_of_ne unfollowed opened there met other)
  · rw [Outcome.findings_collect told, Outcome.findings_collect told]
    exact exists_listsAround unfollowed opened there changed told

open Walk.Sample Unlisted in
/-- A file that is no text any more leaves its bucket, and the others stay where they are. -/
theorem scanTree_isolates_spoiled :
    Config.standard.followLinks = false ∧
      validateRoot grove (Location.path [top]) = .ok (Location.path [top]) ∧
      grove.openDirectory (Location.path [top]) = .ok [top] ∧
      grove.get? ([top] ++ [leaf]) = some (.file (Utf8.encode text) true) ∧
      ∃ outcome outcome' before after,
        (scanTree grove .standard (Location.path [top])).result = .ok outcome ∧
        (scanTree (grove.set ([top] ++ [leaf]) (.file [0xFF] true)) .standard
          (Location.path [top])).result = .ok outcome' ∧
        outcome.blocking =
          before ++ [⟨String.ofList ['a', '.', 't', 's'], 2, ['\u202E']⟩] ++ after ∧
        outcome'.blocking = before ++ after ∧
        outcome'.stats.filesVisited = outcome.stats.filesVisited := by
  have unfollowed : Config.standard.followLinks = false := rfl
  have valid : validateRoot grove (Location.path [top]) = .ok (Location.path [top]) := rfl
  have opened : grove.openDirectory (Location.path [top]) = .ok [top] := rfl
  have there : grove.get? ([top] ++ [leaf]) = some (.file (Utf8.encode text) true) := rfl
  have met : (Location.path [top]).descend [leaf] ∈
      (Walk.ofRoot grove .standard (Location.path [top])).files :=
    (Walk.mem_files_iff opened _).mpr ⟨[], leaf, ⟨_, _, route_top, .inl ⟨_, _, rfl⟩⟩, rfl⟩
  have tells : Tells grove .standard (Location.path [top]) .source
      ((Location.path [top]).descend [leaf])
      ⟨String.ofList ['a', '.', 't', 's'], 2, ['\u202E']⟩ :=
    ⟨[leaf], text, rfl, by decide, rfl, ⟨'\u202E', by decide, by decide⟩, by decide⟩
  obtain ⟨outcome, outcome', scanned, scanned', -, visited, -, -, buckets⟩ :=
    @scanTree_isolates grove _ .standard _ _ [top] [leaf] _ [0xFF] _ true unfollowed valid opened
      there rfl
  obtain ⟨-, before, after, own, own', ⟨all, finds, -⟩, ⟨all', -⟩, spoiled⟩ :=
    buckets .source nofun
  rw [(finds _).mpr ⟨met, tells⟩] at all
  rw [spoiled (.inr (by decide)), Option.toList, List.append_nil] at all'
  exact ⟨unfollowed, valid, opened, there, outcome, outcome', before, after, scanned, scanned', all,
    all', visited⟩

end HiddenText
