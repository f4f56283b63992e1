import HiddenText.Proofs.Walk.Route

/-! # The order of a walk

The entries of a directory come ascending by the bytes of their names, and all that lies below an
entry comes before the next one.  So the files of a walk ascend by the names that lead to them from
the root, which are compared one by one (`files_ascend`).  Written out, their paths need not
ascend: `a-b` would stand before `a/c`. -/
set_option autoImplicit false

namespace HiddenText

/-- Seen from a directory, the names on the way to `p` come before those on the way to `q`: they
are compared one by one, each by its bytes. -/
def Path.PrecedesBelow (directory p q : Path) : Prop :=
  ∃ names others : List Name, p = directory.descend names ∧ q = directory.descend others ∧
    names.map Name.bytes < others.map Name.bytes

namespace Path

variable {directory p q : Path}

theorem not_precedesBelow_self (directory p : Path) : ¬ PrecedesBelow directory p p := by
  rintro ⟨names, others, here, there, less⟩
  obtain rfl := descend_injective directory (here.symm.trans there)
  exact List.lt_irrefl _ less

theorem PrecedesBelow.of_join {name : Name} (h : PrecedesBelow (directory.join name.bytes) p q) :
    PrecedesBelow directory p q := by
  obtain ⟨names, others, rfl, rfl, less⟩ := h
  exact ⟨name :: names, name :: others, rfl, rfl, List.Lex.cons less⟩

theorem precedesBelow_of_lt {name other : Name} (less : name < other) (names others : List Name) :
    PrecedesBelow directory (directory.descend (name :: names))
      (directory.descend (other :: others)) :=
  ⟨name :: names, other :: others, rfl, rfl, List.Lex.rel less⟩

end Path

namespace Walk

variable {fs : FileSystem} {config : Config} {root : Path}

/-! ## Below a directory -/

theorem below_files_pairwise (ancestors : List Ancestor) (place : Location) (path : Path) :
    ((below fs config ancestors place path).filterMap Event.file?).Pairwise
      (Path.PrecedesBelow path) := by
  induction ancestors, place, path using below.induct fs config with
  | case1 ancestors place path ih =>
      rw [below_eq, List.filterMap_flatMap, List.pairwise_flatMap]
      constructor
      · intro name _
        rw [atEntry]
        cases visited : visit fs config ancestors place name (path.join name.bytes) with
        | pass => exact List.Pairwise.nil
        | tell event =>
            cases event with
            | file p => exact List.pairwise_singleton ..
            | _ => exact List.Pairwise.nil
        | enter next => exact (ih name next visited).imp Path.PrecedesBelow.of_join
      · refine (FileSystem.names_pairwise place).imp ?_
        intro name other less p met q met'
        obtain ⟨names, rfl⟩ := exists_descend_of_file (mem_filterMap_file?.mp met)
        obtain ⟨others, rfl⟩ := exists_descend_of_file (mem_filterMap_file?.mp met')
        exact Path.precedesBelow_of_lt less names others

/-! ## All files of a walk -/

theorem files_ofRoot_pairwise (fs : FileSystem) (config : Config) (root : Path) :
    (Walk.ofRoot fs config root).files.Pairwise (Path.PrecedesBelow root) := by
  cases opened : fs.openDirectory root with
  | ok start =>
      rw [files_ofRoot config opened]
      exact below_files_pairwise ..
  | error cause =>
      rw [files]
      rcases events_ofRoot_of_error config opened with nothing | file | special
      · rw [nothing]
        exact List.Pairwise.nil
      · rw [file]
        exact List.pairwise_singleton ..
      · rw [special]
        exact List.Pairwise.nil

/-! ## On the way -/

namespace State

variable {s t : State}

theorem met_take (config : Config) (s : State) (found : Found) :
    s.met <+: (take config s found).met := by
  cases found with
  | file path => exact List.prefix_append ..
  | special path => exact List.prefix_append ..
  | failure event cause depth =>
      cases depth with
      | zero => exact List.prefix_rfl
      | succ depth => exact List.prefix_append ..
  | directory path name depth =>
      rw [take]
      split
      · exact List.prefix_append ..
      · exact List.prefix_rfl

theorem met_step (first : s.step fs config = some t) : s.met <+: t.met := by
  simp only [step] at first
  split at first
  · cases first
  · split at first
    · cases first
      exact met_take config { s with root := none, cursor := _ } _
    · split at first
      · cases first
      · cases first
        exact List.prefix_rfl
      · rename_i cursor moved
        cases first
        exact met_take config { s with cursor := cursor } _

theorem met_after (s : State) (n : Nat) : s.met <+: (s.after fs config n).met := by
  have keeps : ∀ t u : State, s.met <+: t.met → t.step fs config = some u → s.met <+: u.met :=
    fun _ _ before first => before.trans (met_step first)
  exact after_of_step keeps n s List.prefix_rfl

theorem met_after_prefix (fs : FileSystem) (config : Config) (root : Path) (n : Nat) :
    ((start root).after fs config n).met <+: (Walk.ofRoot fs config root).events := by
  obtain ⟨t, leads, ended, all⟩ := endsWith_ofRoot fs config root
  obtain ⟨m, rfl⟩ := leads.exists_after
  have further := @met_after fs config ((start root).after fs config n) m
  rw [← after_add, Nat.add_comm, after_add, after_of_step_none ended] at further
  rw [← all]
  exact further

end State

/-- At every moment, the files that a walk has come upon ascend by the names that lead to them from
the root, whatever the root is and whatever the walk leaves out or fails on; so it never comes upon
a file twice.  A walk ends, and then these are all of its files. -/
theorem files_ascend (fs : FileSystem) (config : Config) (root : Path) :
    (∀ n, ((State.start root).after fs config n).walk.files.Pairwise (Path.PrecedesBelow root) ∧
      ((State.start root).after fs config n).walk.files.Nodup) ∧
    ∃ n, ((State.start root).after fs config n).step fs config = none ∧
      ((State.start root).after fs config n).walk = Walk.ofRoot fs config root := by
  constructor
  · intro n
    have files : ((State.start root).after fs config n).walk.files <+:
        (Walk.ofRoot fs config root).files :=
      (State.met_after_prefix fs config root n).filterMap Event.file?
    have ascending := (files_ofRoot_pairwise fs config root).sublist files.sublist
    refine ⟨ascending, ascending.imp ?_⟩
    rintro p q before rfl
    exact Path.not_precedesBelow_self root p before
  · obtain ⟨t, leads, ended, all⟩ := State.endsWith_ofRoot fs config root
    obtain ⟨n, rfl⟩ := leads.exists_after
    exact ⟨n, ended, all⟩

end Walk
end HiddenText
