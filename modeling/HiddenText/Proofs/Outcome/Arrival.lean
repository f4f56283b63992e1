import HiddenText.Proofs.Lists
import HiddenText.Proofs.Outcome.Order

/-! # The order in which findings arrive

Findings are collected one by one, each in the list of its class, and sorted when all have come
(`Collector.finish_foldl_push`).  An outcome tells of the order in which they came no more than in
which order the findings of one class and one path did (`ofFindings_eq_iff`), and nothing at all if
no two findings of a class have the same path (`ofFindings_arrivals`). -/
set_option autoImplicit false

namespace HiddenText

def arrivals (cls : FileClass) (items : List (FileClass × Finding)) : List Finding :=
  (items.filter (·.1 = cls)).map Prod.snd

theorem arrivals_append (cls : FileClass) (items more : List (FileClass × Finding)) :
    arrivals cls (items ++ more) = arrivals cls items ++ arrivals cls more := by
  rw [arrivals, List.filter_append, List.map_append]
  rfl

theorem mem_arrivals_iff {cls : FileClass} {items : List (FileClass × Finding)}
    {finding : Finding} : finding ∈ arrivals cls items ↔ (cls, finding) ∈ items := by
  simp [arrivals]

theorem bucket_eq_sortByPath (cls : FileClass) (items : List (FileClass × Finding)) :
    bucket cls items = Finding.sortByPath (arrivals cls items) := by
  rw [bucket, arrivals]
  congr 1
  induction items with
  | nil => rfl
  | cons item items ih =>
      obtain ⟨other, finding⟩ := item
      by_cases same : other = cls
      · simp [same, ih]
      · simp [same, ih]

/-! ## Collecting -/

/-- The findings that have come so far, those of each class in the order in which they came. -/
structure Collector where
  blocking : List Finding := []
  advisory : List Finding := []

namespace Collector

def push (c : Collector) : FileClass × Finding → Collector
  | (.source, finding) => { c with blocking := c.blocking ++ [finding] }
  | (.documentation, finding) => { c with advisory := c.advisory ++ [finding] }
  | (.ignored, _) => c

def finish (c : Collector) (stats : ScanStats) : Outcome :=
  { blocking := Finding.sortByPath c.blocking
    advisory := Finding.sortByPath c.advisory
    stats := stats }

structure Holds (c : Collector) (items : List (FileClass × Finding)) : Prop where
  blocking : c.blocking = arrivals .source items
  advisory : c.advisory = arrivals .documentation items

theorem holds_nil : Holds {} [] := ⟨rfl, rfl⟩

theorem Holds.push {c : Collector} {items : List (FileClass × Finding)} (h : c.Holds items)
    (item : FileClass × Finding) : (c.push item).Holds (items ++ [item]) := by
  obtain ⟨cls, finding⟩ := item
  constructor
  · rw [arrivals_append, ← h.blocking]
    cases cls <;> simp [Collector.push, arrivals]
  · rw [arrivals_append, ← h.advisory]
    cases cls <;> simp [Collector.push, arrivals]

theorem Holds.foldl_push : ∀ (later : List (FileClass × Finding)) {c : Collector}
    {earlier : List (FileClass × Finding)}, c.Holds earlier →
      (later.foldl Collector.push c).Holds (earlier ++ later) := by
  intro later
  induction later with
  | nil =>
      intro c earlier h
      rwa [List.append_nil]
  | cons item later ih =>
      intro c earlier h
      have further := ih (h.push item)
      rwa [List.append_assoc] at further

theorem finish_foldl_push (items : List (FileClass × Finding)) (stats : ScanStats) :
    (items.foldl push {}).finish stats = Outcome.ofFindings items stats := by
  have h : (items.foldl push {}).Holds items := holds_nil.foldl_push items
  rw [finish, Outcome.ofFindings, h.blocking, h.advisory, bucket_eq_sortByPath,
    bucket_eq_sortByPath]

end Collector

/-! ## Sorting -/

/-- The findings that came, each as often as it did, in the order of their paths' bytes and those
of one path in the order in which they came. -/
structure StablySorted (came sorted : List Finding) : Prop where
  perm : sorted.Perm came
  ordered : sorted.Pairwise fun f g => f.pathBytes ≤ g.pathBytes
  tied : ∀ path : String, sorted.filter (·.path = path) = came.filter (·.path = path)

theorem stablySorted_iff {came sorted : List Finding} :
    StablySorted came sorted ↔ Finding.sortByPath came = sorted := by
  constructor
  · intro h
    apply Finding.eq_of_filter_path (Finding.sortByPath_pairwise came) h.ordered
    intro path
    rw [Finding.filter_sortByPath, h.tied]
  · rintro rfl
    exact ⟨Finding.sortByPath_perm came, Finding.sortByPath_pairwise came,
      fun path => Finding.filter_sortByPath path came⟩

/-! ## Outcomes -/

theorem Outcome.exitStatus_eq_blocking_iff (o : Outcome) :
    o.exitStatus = .blocking ↔ o.blocking ≠ [] := by
  rw [exitStatus]
  split
  · rename_i clean
    simp [clean]
  · rename_i found
    simp [found]

theorem exitStatus_ofFindings {items : List (FileClass × Finding)} {stats : ScanStats} :
    (Outcome.ofFindings items stats).exitStatus = .blocking ↔
      ∃ finding, (FileClass.source, finding) ∈ items := by
  have mem : ∀ finding, finding ∈ (Outcome.ofFindings items stats).blocking ↔
      (FileClass.source, finding) ∈ items := by
    intro finding
    rw [Outcome.ofFindings, bucket_eq_sortByPath, (Finding.sortByPath_perm _).mem_iff,
      mem_arrivals_iff]
  rw [Outcome.exitStatus_eq_blocking_iff]
  constructor
  · intro some
    obtain ⟨finding, known⟩ := List.exists_mem_of_ne_nil _ some
    exact ⟨finding, (mem finding).mp known⟩
  · rintro ⟨finding, came⟩
    exact List.ne_nil_of_mem ((mem finding).mpr came)

theorem ofFindings_eq_iff {items others : List (FileClass × Finding)} {stats : ScanStats} :
    Outcome.ofFindings items stats = Outcome.ofFindings others stats ↔
      ∀ cls, cls ≠ .ignored → ∀ path : String,
        (arrivals cls items).filter (·.path = path) =
          (arrivals cls others).filter (·.path = path) := by
  simp only [Outcome.ofFindings, Outcome.mk.injEq, and_true, bucket_eq_sortByPath,
    Finding.sortByPath_eq_iff]
  constructor
  · rintro ⟨source, documentation⟩ cls told
    cases cls with
    | source => exact source
    | documentation => exact documentation
    | ignored => exact absurd rfl told
  · intro same
    exact ⟨same .source (by decide), same .documentation (by decide)⟩

/-- Findings whose paths are distinct have no order of arrival that a path could show. -/
theorem filter_path_eq_of_perm {came other : List Finding} (perm : came.Perm other)
    (distinct : (came.map Finding.path).Nodup) (path : String) :
    came.filter (·.path = path) = other.filter (·.path = path) := by
  apply Lists.eq_of_perm_of_forall_eq (perm.filter _)
  intro f hf g hg
  simp only [List.mem_filter, decide_eq_true_eq] at hf hg
  exact List.inj_on_of_nodup_map distinct hf.1 hg.1 (hf.2.trans hg.2.symm)

/-- Each bucket is its class's findings, stably sorted by their paths' bytes.  Something blocks if
and only if a finding of a source file came, and goes on blocking whatever comes after it.  Other
findings come to the same outcome exactly if those of each class but the ignored and of each path
are the same, one after another; so they do in any other order if the paths in each class are
distinct. -/
theorem ofFindings_arrivals (items : List (FileClass × Finding)) :
    (items.foldl Collector.push {}).finish {} = Outcome.ofFindings items ∧
      (∀ sorted, (Outcome.ofFindings items).blocking = sorted ↔
        StablySorted (arrivals .source items) sorted) ∧
      (∀ sorted, (Outcome.ofFindings items).advisory = sorted ↔
        StablySorted (arrivals .documentation items) sorted) ∧
      ((Outcome.ofFindings items).exitStatus = .blocking ↔
        ∃ finding, (FileClass.source, finding) ∈ items) ∧
      (∀ more, (Outcome.ofFindings (items ++ more)).exitStatus = .blocking ↔
        (Outcome.ofFindings items).exitStatus = .blocking ∨
          (Outcome.ofFindings more).exitStatus = .blocking) ∧
      (∀ others, Outcome.ofFindings items = Outcome.ofFindings others ↔
        ∀ cls, cls ≠ .ignored → ∀ path : String,
          (arrivals cls items).filter (·.path = path) =
            (arrivals cls others).filter (·.path = path)) ∧
      ∀ others, items.Perm others →
        (∀ cls, cls ≠ .ignored → ((arrivals cls items).map Finding.path).Nodup) →
        Outcome.ofFindings items = Outcome.ofFindings others := by
  refine ⟨Collector.finish_foldl_push items {}, fun sorted => ?_, fun sorted => ?_,
    exitStatus_ofFindings, fun more => ?_, fun others => ofFindings_eq_iff, ?_⟩
  · rw [stablySorted_iff, ← bucket_eq_sortByPath]
    rfl
  · rw [stablySorted_iff, ← bucket_eq_sortByPath]
    rfl
  · simp only [exitStatus_ofFindings, List.mem_append, exists_or]
  · intro others perm distinct
    rw [ofFindings_eq_iff]
    intro cls told path
    exact filter_path_eq_of_perm ((perm.filter _).map _) (distinct cls told) path

/-- Two of these findings have one path, but not one class. -/
def crossed : List (FileClass × Finding) :=
  [(.source, ⟨"n.md", 2, ['\u202E']⟩), (.documentation, ⟨"n.md", 1, ['\u200B']⟩),
    (.source, ⟨"b.ts", 1, ['\u2066']⟩), (.ignored, ⟨"b.ts", 1, ['\uFEFF']⟩)]

theorem ofFindings_arrivals_crossed : crossed.Perm crossed.reverse ∧
    (∀ cls, cls ≠ .ignored → ((arrivals cls crossed).map Finding.path).Nodup) ∧
    Outcome.ofFindings crossed = Outcome.ofFindings crossed.reverse := by
  have distinct : ∀ cls, cls ≠ .ignored → ((arrivals cls crossed).map Finding.path).Nodup := by
    intro cls told
    cases cls <;> decide
  obtain ⟨-, -, -, -, -, -, same⟩ := ofFindings_arrivals crossed
  have turned : crossed.Perm crossed.reverse := (List.reverse_perm crossed).symm
  exact ⟨turned, distinct, same _ turned distinct⟩

end HiddenText
