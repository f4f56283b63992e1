import HiddenText.Outcome
import HiddenText.Proofs.Text.Utf8
import Mathlib.Data.List.Sort

/-! # The order of a bucket

A bucket is its findings in the order of their paths, each as often as it was found; findings of
one path stay in the order in which they came.  `sortByPath_eq_iff`: this is all that a bucket
tells of the order in which its findings came.  One finding more or less moves no other
(`exists_sortByPath_around`). -/
set_option autoImplicit false

namespace HiddenText

namespace Finding

def Precedes (f g : Finding) : Prop := f.pathBytes ≤ g.pathBytes

instance : DecidableRel Precedes := fun f g =>
  inferInstanceAs (Decidable (f.pathBytes ≤ g.pathBytes))

instance : Std.Total Precedes where
  total f g := List.le_total f.pathBytes g.pathBytes

instance : IsTrans Finding Precedes where
  trans _ _ _ h h' := List.le_trans h h'

theorem pathBytes_inj {f g : Finding} : f.pathBytes = g.pathBytes ↔ f.path = g.path := by
  constructor
  · intro h
    exact String.toList_inj.mp (Utf8.encode_injective h)
  · intro h
    rw [pathBytes, pathBytes, h]

theorem path_eq_of_precedes {f g : Finding} (h : Precedes f g) (h' : Precedes g f) :
    f.path = g.path :=
  pathBytes_inj.mp (List.le_antisymm h h')

theorem precedes_of_path_eq {f g : Finding} (h : f.path = g.path) : Precedes f g := by
  rw [Precedes, pathBytes_inj.mpr h]
  exact List.le_refl _

theorem insertByPath_eq (f : Finding) : ∀ findings : List Finding,
    insertByPath f findings = findings.orderedInsert Precedes f := by
  intro findings
  induction findings with
  | nil => rfl
  | cons g rest ih =>
      rw [insertByPath, List.orderedInsert_cons, ih]
      rfl

theorem sortByPath_eq : ∀ findings : List Finding,
    sortByPath findings = findings.insertionSort Precedes := by
  intro findings
  induction findings with
  | nil => rfl
  | cons f rest ih =>
      rw [List.insertionSort_cons, ← ih, ← insertByPath_eq]
      rfl

theorem sortByPath_perm (findings : List Finding) : (sortByPath findings).Perm findings := by
  rw [sortByPath_eq]
  exact List.perm_insertionSort _ _

theorem sortByPath_pairwise (findings : List Finding) :
    (sortByPath findings).Pairwise Precedes := by
  rw [sortByPath_eq]
  exact List.pairwise_insertionSort _ _

theorem filter_sortByPath (path : String) (findings : List Finding) :
    (sortByPath findings).filter (·.path = path) = findings.filter (·.path = path) := by
  have tied : (findings.filter (·.path = path)).Pairwise Precedes := by
    apply List.pairwise_of_forall_mem_list
    intro f hf g hg
    simp only [List.mem_filter, decide_eq_true_eq] at hf hg
    exact precedes_of_path_eq (hf.2.trans hg.2.symm)
  have sub : (findings.filter (·.path = path)).Sublist (sortByPath findings) := by
    rw [sortByPath_eq]
    exact List.sublist_insertionSort tied List.filter_sublist
  have sub' := sub.filter (·.path = path)
  rw [List.filter_filter] at sub'
  simp only [Bool.and_self] at sub'
  exact (sub'.eq_of_length ((sortByPath_perm findings).filter _).length_eq.symm).symm

theorem insertByPath_map {change : Finding → Finding} (keeps : ∀ f, (change f).path = f.path)
    (f : Finding) : ∀ findings : List Finding,
      insertByPath (change f) (findings.map change) = (insertByPath f findings).map change := by
  intro findings
  induction findings with
  | nil => rfl
  | cons g rest ih =>
      have bytes (h : Finding) : (change h).pathBytes = h.pathBytes := pathBytes_inj.mpr (keeps h)
      simp only [List.map_cons, insertByPath, bytes]
      split
      · rfl
      · rw [ih, List.map_cons]

/-- A change that leaves the paths alone may come before or after the sorting. -/
theorem sortByPath_map {change : Finding → Finding} (keeps : ∀ f, (change f).path = f.path) :
    ∀ findings : List Finding,
      sortByPath (findings.map change) = (sortByPath findings).map change := by
  intro findings
  induction findings with
  | nil => rfl
  | cons f rest ih =>
      have later : (rest.map change).foldr insertByPath [] =
          (rest.foldr insertByPath []).map change := ih
      simp only [sortByPath, List.map_cons, List.foldr_cons]
      rw [later]
      exact insertByPath_map keeps f _

/-- Lists in order that hold the same findings of every path, in the same order, are equal. -/
theorem eq_of_filter_path : ∀ {fs gs : List Finding}, fs.Pairwise Precedes →
    gs.Pairwise Precedes →
    (∀ path : String, fs.filter (·.path = path) = gs.filter (·.path = path)) → fs = gs := by
  intro fs
  induction fs with
  | nil =>
      intro gs _ _ same
      cases gs with
      | nil => rfl
      | cons g gs =>
          have := same g.path
          simp at this
  | cons f fs ih =>
      intro gs hfs hgs same
      have f_mem : f ∈ gs := by
        have : f ∈ gs.filter (·.path = f.path) := by simp [← same]
        exact List.mem_of_mem_filter this
      cases gs with
      | nil => cases f_mem
      | cons g gs =>
          have g_mem : g ∈ f :: fs := by
            have : g ∈ (f :: fs).filter (·.path = g.path) := by simp [same]
            exact List.mem_of_mem_filter this
          have fg : Precedes f g := by
            rcases List.mem_cons.mp g_mem with h | h
            · rw [h]
              exact precedes_of_path_eq rfl
            · exact List.rel_of_pairwise_cons hfs h
          have gf : Precedes g f := by
            rcases List.mem_cons.mp f_mem with h | h
            · rw [h]
              exact precedes_of_path_eq rfl
            · exact List.rel_of_pairwise_cons hgs h
          have tie : f.path = g.path := path_eq_of_precedes fg gf
          have head : f = g := by
            have := same g.path
            simp only [List.filter_cons, tie, decide_true, if_true, List.cons.injEq] at this
            exact this.1
          subst head
          congr 1
          apply ih hfs.of_cons hgs.of_cons
          intro path
          have := same path
          rw [List.filter_cons, List.filter_cons] at this
          split at this
          · exact (List.cons.inj this).2
          · exact this

/-- Two orders of arrival give the same bucket exactly when the findings of each path arrive in
the same order. -/
theorem sortByPath_eq_iff (fs gs : List Finding) : sortByPath fs = sortByPath gs ↔
    ∀ path : String, fs.filter (·.path = path) = gs.filter (·.path = path) := by
  constructor
  · intro h path
    rw [← filter_sortByPath, h, filter_sortByPath]
  · intro h
    apply eq_of_filter_path (sortByPath_pairwise fs) (sortByPath_pairwise gs)
    intro path
    rw [filter_sortByPath, filter_sortByPath, h]

/-! ## The place of one path -/

theorem insertByPath_append_of_mem {f g : Finding} {findings : List Finding} (known : g ∈ findings)
    (small : Precedes f g) (after : List Finding) :
    insertByPath f (findings ++ after) = insertByPath f findings ++ after := by
  induction findings with
  | nil => cases known
  | cons h rest ih =>
      rw [List.cons_append, insertByPath, insertByPath]
      by_cases here : f.pathBytes ≤ h.pathBytes
      · rw [if_pos here, if_pos here]
        rfl
      · rw [if_neg here, if_neg here]
        have later : g ∈ rest := by
          rcases List.mem_cons.mp known with same | later
          · exact absurd (same ▸ small) here
          · exact later
        rw [ih later, List.cons_append]

theorem insertByPath_append {f : Finding} {findings : List Finding}
    (large : ∀ g ∈ findings, ¬ Precedes f g) (after : List Finding) :
    insertByPath f (findings ++ after) = findings ++ insertByPath f after := by
  induction findings with
  | nil => rfl
  | cons g rest ih =>
      obtain ⟨here, later⟩ := List.forall_mem_cons.mp large
      have large : ¬ f.pathBytes ≤ g.pathBytes := here
      rw [List.cons_append, insertByPath, if_neg large, ih later, List.cons_append]

theorem insertByPath_of_precedes {f : Finding} : ∀ {findings : List Finding},
    (∀ g ∈ findings, Precedes f g) → insertByPath f findings = f :: findings := by
  intro findings small
  cases findings with
  | nil => rfl
  | cons g rest => exact if_pos (small g (List.mem_cons_self ..))

/-- Findings in order fall into those before a path and those from there on. -/
theorem exists_cut (path : String) : ∀ {findings : List Finding}, findings.Pairwise Precedes →
    ∃ before after, findings = before ++ after ∧
      (∀ g ∈ before, ¬ Utf8.ofString path ≤ g.pathBytes) ∧
      ∀ g ∈ after, Utf8.ofString path ≤ g.pathBytes := by
  intro findings
  induction findings with
  | nil =>
      intro _
      exact ⟨[], [], rfl, List.forall_mem_nil _, List.forall_mem_nil _⟩
  | cons g rest ih =>
      intro sorted
      obtain ⟨first, sorted⟩ := List.pairwise_cons.mp sorted
      by_cases small : Utf8.ofString path ≤ g.pathBytes
      · refine ⟨[], g :: rest, rfl, List.forall_mem_nil _, List.forall_mem_cons.mpr ⟨small, ?_⟩⟩
        intro h known
        exact List.le_trans small (first h known)
      · obtain ⟨before, after, rfl, early, late⟩ := ih sorted
        exact ⟨g :: before, after, rfl, List.forall_mem_cons.mpr ⟨small, early⟩, late⟩

/-- The place of a path in a bucket: what stands before it and what stands after it there does not
depend on the finding of this path, or on whether there is one. -/
theorem exists_sortByPath_around (path : String) (front back : List Finding) :
    ∃ before after, (∀ g ∈ after, Utf8.ofString path ≤ g.pathBytes) ∧
      ∀ own : Option Finding, (∀ f ∈ own, f.path = path) →
        sortByPath (front ++ own.toList ++ back) = before ++ own.toList ++ after := by
  induction front with
  | nil =>
      obtain ⟨before, after, split, early, late⟩ := exists_cut path (sortByPath_pairwise back)
      refine ⟨before, after, late, fun own here => ?_⟩
      cases own with
      | none => rw [List.nil_append, Option.toList, List.nil_append, List.append_nil, split]
      | some f =>
          obtain rfl := here f rfl
          show insertByPath f (sortByPath back) = _
          rw [split, insertByPath_append early, insertByPath_of_precedes late, Option.toList,
            List.append_assoc, List.singleton_append]
  | cons g front ih =>
      obtain ⟨before, after, late, around⟩ := ih
      have step : ∀ own : Option Finding, (∀ f ∈ own, f.path = path) →
          sortByPath (g :: front ++ own.toList ++ back) =
            insertByPath g (before ++ (own.toList ++ after)) := by
        intro own here
        rw [← List.append_assoc, ← around own here]
        rfl
      -- The finding is put among those before the path, right before it, or among those after it.
      by_cases early : ∃ h ∈ before, Precedes g h
      · obtain ⟨h, known, small⟩ := early
        refine ⟨insertByPath g before, after, late, fun own here => ?_⟩
        rw [step own here, insertByPath_append_of_mem known small, List.append_assoc]
      · have large : ∀ h ∈ before, ¬ Precedes g h := fun h known small => early ⟨h, known, small⟩
        by_cases small : g.pathBytes ≤ Utf8.ofString path
        · refine ⟨before ++ [g], after, late, fun own here => ?_⟩
          have first : ∀ h ∈ own.toList ++ after, Precedes g h := by
            intro h known
            rcases List.mem_append.mp known with isOwn | later
            · rw [← here h (Option.mem_toList.mp isOwn)] at small
              exact small
            · exact List.le_trans small (late h later)
          rw [step own here, insertByPath_append large, insertByPath_of_precedes first]
          simp only [List.append_assoc, List.cons_append, List.nil_append]
        · refine ⟨before, insertByPath g after, ?_, fun own here => ?_⟩
          · intro h known
            rw [insertByPath_eq, List.mem_orderedInsert] at known
            rcases known with rfl | known
            · exact (List.le_total _ _).resolve_right small
            · exact late h known
          · have last : ∀ h ∈ own.toList, ¬ Precedes g h := by
              intro h known tooSmall
              rw [← here h (Option.mem_toList.mp known)] at small
              exact small tooSmall
            rw [step own here, insertByPath_append large, insertByPath_append last,
              List.append_assoc]

end Finding
end HiddenText
