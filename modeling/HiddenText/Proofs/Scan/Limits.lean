import HiddenText.Proofs.Report.Failures
import HiddenText.Proofs.Scan.Policy

/-! # What the limits of a report change

The cap on samples is asked for only when a sample is about to be kept, and the limit on listed
findings only when a report is written.  So a scan with a smaller cap tells of the same files, in
the same order and with the same counts, and shows the first of the samples that it would show with
a larger one; what it counts and whether it blocks is the same (`scanTree_cut`). -/
set_option autoImplicit false

namespace HiddenText

def Config.withLimits (config : Config) (sampleCap maxListed : Nat) : Config :=
  { config with sampleCap := sampleCap, maxListed := maxListed }

section

variable (config : Config) (sampleCap maxListed : Nat)

theorem Config.restricted_withLimits :
    (config.withLimits sampleCap maxListed).restricted = config.restricted := rfl

theorem Config.sampleCap_withLimits :
    (config.withLimits sampleCap maxListed).sampleCap = sampleCap := rfl

theorem Config.classify_withLimits (path : Path) :
    classify path (config.withLimits sampleCap maxListed) = classify path config := rfl

end

def Finding.cut (cap : Nat) (f : Finding) : Finding := { f with samples := f.samples.take cap }

theorem Finding.path_cut (cap : Nat) (f : Finding) : (f.cut cap).path = f.path := rfl

def Inspection.cut (cap : Nat) : Inspection → Inspection
  | .hit cls finding => .hit cls (finding.cut cap)
  | .ignored => .ignored
  | .clean => .clean
  | .unreadable path cause => .unreadable path cause
  | .notText path => .notText path

def Outcome.cut (cap : Nat) (o : Outcome) : Outcome :=
  { o with
    blocking := o.blocking.map (Finding.cut cap)
    advisory := o.advisory.map (Finding.cut cap) }

variable {fs : FileSystem} {root canonical : Path} {cap cap' : Nat}

/-! ## One file -/

theorem scanText_cut (fewer : cap ≤ cap') (path : String) (text : List Char)
    (set : RestrictedSet) :
    scanText path text set cap = (scanText path text set cap').map (Finding.cut cap) := by
  -- The count decides whether there is a finding, and the cap is not part of it.
  have counted : (Tally.ofText set cap text).occurrences =
      (Tally.ofText set cap' text).occurrences := rfl
  have shown : (Tally.ofText set cap text).samples =
      (Tally.ofText set cap' text).samples.take cap := by
    simp only [Tally.ofText, List.take_take, Nat.min_eq_left fewer]
  unfold scanText
  simp only [foldl_read, counted, shown]
  split
  · rfl
  · rfl

theorem scanFile_cut (fewer : cap ≤ cap') (path : Path) (shown : String) (set : RestrictedSet) :
    scanFile fs path shown set cap = match scanFile fs path shown set cap' with
      | .hit finding => .hit (finding.cut cap)
      | .clean => .clean
      | .unreadable cause => .unreadable cause
      | .notText => .notText := by
  unfold scanFile scanBytes
  cases fs.read path with
  | error cause => rfl
  | ok bytes =>
      simp only
      cases Utf8.decode bytes with
      | none => rfl
      | some text =>
          simp only [scanText_cut fewer]
          cases scanText shown text set cap' with
          | none => rfl
          | some finding => rfl

theorem Inspection.ofFile_cut (fewer : cap ≤ cap') (config : Config) (listed listed' : Nat)
    (root path : Path) :
    ofFile fs (config.withLimits cap listed) root path =
      (ofFile fs (config.withLimits cap' listed') root path).cut cap := by
  unfold ofFile
  simp only [Config.classify_withLimits, Config.restricted_withLimits,
    Config.sampleCap_withLimits, scanFile_cut fewer]
  cases classify ((Path.stripPrefix? root path).getD path) config with
  | ignored => rfl
  | source => cases scanFile fs path _ config.restricted cap' <;> rfl
  | documentation => cases scanFile fs path _ config.restricted cap' <;> rfl

/-! ## The files of a scan -/

namespace Walk

variable {config config' : Config}

theorem below_congr (links : config.followLinks = config'.followLinks)
    (names : config.ignoredNames = config'.ignoredNames) (ancestors : List Ancestor)
    (place : Location) (path : Path) :
    below fs config ancestors place path = below fs config' ancestors place path := by
  have visited : visit fs config = visit fs config' := by
    cases config
    cases config'
    cases links
    cases names
    rfl
  induction ancestors, place, path using below.induct fs config with
  | case1 ancestors place path ih =>
      rw [below_eq, below_eq]
      apply List.flatMap_congr
      intro name listed
      unfold atEntry
      rw [← visited]
      cases entered : visit fs config ancestors place name (path.join name.bytes) with
      | pass => rfl
      | tell event => rfl
      | enter next => exact ih name next entered

/-- Of a configuration, a walk asks for the names that are left out and for the links. -/
theorem ofRoot_congr (links : config.followLinks = config'.followLinks)
    (names : config.ignoredNames = config'.ignoredNames) (root : Path) :
    Walk.ofRoot fs config root = Walk.ofRoot fs config' root := by
  have directory : ∀ before,
      Walk.ofDirectory fs config root before = Walk.ofDirectory fs config' root before := by
    intro before
    unfold Walk.ofDirectory
    simp only [below_congr links names]
  unfold Walk.ofRoot
  simp only [links, directory]

end Walk

theorem Inspection.findingOf_cut (cls : FileClass) (i : Inspection) :
    (i.cut cap).findingOf cls = (i.findingOf cls).map (Finding.cut cap) := by
  cases i with
  | hit found finding =>
      simp only [cut, findingOf, finding?, Option.bind_some]
      split
      · rfl
      · rfl
  | ignored => rfl
  | clean => rfl
  | unreadable path cause => rfl
  | notText path => rfl

theorem bucket_cut (cls : FileClass) (inspections : List Inspection) :
    bucket cls ((inspections.map (Inspection.cut cap)).filterMap Inspection.finding?) =
      (bucket cls (inspections.filterMap Inspection.finding?)).map (Finding.cut cap) := by
  have findings : (inspections.map (Inspection.cut cap)).filterMap (Inspection.findingOf cls) =
      (inspections.filterMap (Inspection.findingOf cls)).map (Finding.cut cap) := by
    rw [List.filterMap_map, List.map_filterMap]
    congr 1
    funext i
    exact Inspection.findingOf_cut cls i
  rw [bucket_eq, bucket_eq, findings]
  exact Finding.sortByPath_map (Finding.path_cut cap) _

theorem Outcome.collect_cut (inspections : List Inspection) (errors : Nat) :
    collect (inspections.map (Inspection.cut cap)) errors =
      (collect inspections errors).cut cap := by
  have scanned : (Inspection.isScanned ∘ Inspection.cut cap) = Inspection.isScanned := by
    funext i
    cases i <;> rfl
  have skipped : (Inspection.isSkipped ∘ Inspection.cut cap) = Inspection.isSkipped := by
    funext i
    cases i <;> rfl
  simp only [collect, ofFindings, cut, bucket_cut, List.length_map, List.countP_map, scanned,
    skipped]

theorem Outcome.exitStatus_cut (o : Outcome) : (o.cut cap).exitStatus = o.exitStatus := by
  simp only [exitStatus, cut, List.map_eq_nil_iff]

theorem scanTree_withLimits (fewer : cap ≤ cap') (config : Config) (listed listed' : Nat)
    (valid : validateRoot fs root = .ok canonical) :
    ∃ outcome, (scanTree fs (config.withLimits cap' listed') root).result = .ok outcome ∧
      (scanTree fs (config.withLimits cap listed) root).result = .ok (outcome.cut cap) := by
  have walked : Walk.ofRoot fs (config.withLimits cap listed) canonical =
      Walk.ofRoot fs (config.withLimits cap' listed') canonical := by
    apply Walk.ofRoot_congr
    · rfl
    · rfl
  have inspected : Inspection.ofFile fs (config.withLimits cap listed) canonical =
      Inspection.cut cap ∘ Inspection.ofFile fs (config.withLimits cap' listed') canonical := by
    funext path
    exact Inspection.ofFile_cut fewer config listed listed' canonical path
  refine ⟨_, scanTree_of_validateRoot _ valid, ?_⟩
  rw [scanTree_of_validateRoot _ valid, walked, inspected, ← List.map_map, Outcome.collect_cut]

/-! ## Two scans with different limits -/

/-- Of two scans of a root whose configurations differ at most in how much is shown, the one with
the smaller cap has the findings of the other, each with the first of its samples.  Both count the
same, and every report of either of them that succeeds, in whichever format, ends with the same
status; on sinks that accept everything all of them succeed. -/
theorem scanTree_cut {config config' : Config}
    (limits : config' = config.withLimits config'.sampleCap config'.maxListed)
    (fewer : config.sampleCap ≤ config'.sampleCap)
    (valid : validateRoot fs root = .ok canonical) :
    ∃ outcome outcome', (scanTree fs config root).result = .ok outcome ∧
      (scanTree fs config' root).result = .ok outcome' ∧
      outcome.blocking = outcome'.blocking.map (Finding.cut config.sampleCap) ∧
      outcome.advisory = outcome'.advisory.map (Finding.cut config.sampleCap) ∧
      outcome.stats = outcome'.stats ∧ outcome.exitStatus = outcome'.exitStatus ∧
      (∀ format format' output output', output.Accepting → output'.Accepting →
        (Report.write outcome format config.maxListed output).2 = .ok outcome'.exitStatus ∧
          (Report.write outcome' format' config'.maxListed output').2 =
            .ok outcome'.exitStatus) ∧
      ∀ format format' output output' status status',
        (Report.write outcome format config.maxListed output).2 = .ok status →
          (Report.write outcome' format' config'.maxListed output').2 = .ok status' →
            status = status' := by
  obtain ⟨outcome, scanned', scanned⟩ :=
    scanTree_withLimits fewer config config.maxListed config'.maxListed valid
  rw [← limits] at scanned'
  have verdict : (outcome.cut config.sampleCap).exitStatus = outcome.exitStatus :=
    outcome.exitStatus_cut
  refine ⟨outcome.cut config.sampleCap, outcome, scanned, scanned', rfl, rfl, rfl, verdict, ?_, ?_⟩
  · intro format format' output output' accepting accepting'
    constructor
    · rw [← verdict]
      exact Report.write_of_accepting _ format _ accepting
    · exact Report.write_of_accepting _ format' _ accepting'
  · intro format format' output output' status status' written written'
    obtain ⟨rfl, -⟩ := Report.write_eq_ok_iff.mp written
    obtain ⟨rfl, -⟩ := Report.write_eq_ok_iff.mp written'
    exact verdict

def Config.hushed : Config := Walk.Sample.following.withLimits 0 0

open Walk.Sample in
/-- A file blocks, though no sample of it is shown and it is not listed. -/
theorem scanTree_cut_hushed :
    validateRoot tree (Location.path [top]) = .ok (Location.path [top]) ∧
      following = Config.hushed.withLimits following.sampleCap following.maxListed ∧
      Config.hushed.sampleCap ≤ following.sampleCap ∧ ∃ outcome outcome',
        (scanTree tree .hushed (Location.path [top])).result = .ok outcome ∧
        (scanTree tree following (Location.path [top])).result = .ok outcome' ∧
        outcome.blocking = outcome'.blocking.map (Finding.cut 0) ∧
        outcome.exitStatus = .blocking ∧
        (Report.write outcome .json 0 {}).2 = .ok .blocking := by
  have valid : validateRoot tree (Location.path [top]) = .ok (Location.path [top]) := rfl
  have fewer : Config.hushed.sampleCap ≤ following.sampleCap := Nat.zero_le _
  have accepting : ({} : Output).Accepting := by
    intro stream
    cases stream <;> exact ⟨rfl, rfl⟩
  obtain ⟨outcome, outcome', scanned, scanned', shorter, -, -, verdict, reports, -⟩ :=
    @scanTree_cut _ _ _ .hushed _ rfl fewer valid
  obtain ⟨found, scanned'', blocks⟩ := exists_blocking
  obtain rfl := Except.ok.inj (scanned'.symm.trans scanned'')
  have reported := (reports .json .json {} {} accepting accepting).1
  rw [blocks] at verdict reported
  exact ⟨valid, rfl, fewer, outcome, outcome', scanned, scanned', shorter, verdict, reported⟩

end HiddenText
