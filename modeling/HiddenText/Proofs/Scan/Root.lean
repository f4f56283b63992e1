import HiddenText.Proofs.FileSystem.Canonical
import HiddenText.Proofs.Scan.Threads

/-! # The root decides

Whether a scan fails, and how, is decided by what the root leads to, whatever lies below it and
whatever the configuration says (`scan_fails_by_root`).  A directory is taken for none if its
canonical path does not lead to it, which can only be where the working directory's own path does
not.  Once the root has passed the check, a walk never meets an error there. -/
set_option autoImplicit false

namespace HiddenText

/-- A result tells what the root is: it cannot be resolved, or no directory that counts is at its
location, or one that cannot be listed; if one that can be listed is there, the result is no
failure. -/
structure RootDecides {α : Type} (fs : FileSystem) (root : Path) (counts : Location → Prop)
    (result : Except ScanError α) : Prop where
  notFound (path : Path) (cause : IoError) : result = .error (.rootNotFound path cause) ↔
    path = root ∧ fs.canonical root = .error cause
  notDirectory (path : Path) : result = .error (.rootNotDirectory path) ↔
    path = root ∧ ∃ place, fs.canonical root = .ok place ∧ ∀ listable searchable,
      fs.get? place = some (.directory listable searchable) → ¬ counts place
  unreadable (path : Path) (cause : IoError) : result = .error (.rootUnreadable path cause) ↔
    path = root ∧ cause = .permissionDenied ∧ ∃ place searchable, fs.canonical root = .ok place ∧
      fs.get? place = some (.directory false searchable) ∧ counts place
  passes : (∃ a, result = .ok a) ↔ ∃ place searchable, fs.canonical root = .ok place ∧
    fs.get? place = some (.directory true searchable) ∧ counts place

variable {fs : FileSystem} {root canonical : Path} {place : Location}
  {listable searchable : Bool}

/-! ## The check -/

theorem validateRoot_of_directory (resolved : fs.canonical root = .ok place)
    (here : fs.get? place = some (.directory listable searchable)) (direct : fs.Direct place) :
    fs.stat place.path = .ok (place, .directory listable searchable) ∧
      validateRoot fs root =
        if listable then .ok place.path else .error (.rootUnreadable root .permissionDenied) := by
  have found : fs.stat place.path = .ok (place, .directory listable searchable) :=
    direct.stat_eq_directory_iff.mpr ⟨rfl, here⟩
  refine ⟨found, ?_⟩
  rw [validateRoot, resolved]
  simp only [FileSystem.openDirectory, found]
  cases listable <;> rfl

theorem validateRoot_of_not_directory (resolved : fs.canonical root = .ok place)
    (known : fs.Direct place ∨ fs.Standing place)
    (other : ∀ listable searchable,
      fs.get? place = some (.directory listable searchable) → ¬ fs.Direct place) :
    validateRoot fs root = .error (.rootNotDirectory root) := by
  rw [validateRoot, resolved]
  simp only
  split
  · rename_i place' listable searchable found
    obtain ⟨direct, -, here⟩ := (FileSystem.stat_eq_directory_iff known).mp found
    exact absurd direct (other listable searchable here)
  · rfl

theorem rootDecides_validateRoot
    (known : ∀ place, fs.canonical root = .ok place → fs.Direct place ∨ fs.Standing place) :
    RootDecides fs root fs.Direct (validateRoot fs root) := by
  cases resolved : fs.canonical root with
  | error cause =>
      have refused : validateRoot fs root = .error (.rootNotFound root cause) := by
        rw [validateRoot, resolved]
      constructor <;> simp [refused, resolved, eq_comm]
  | ok place =>
      by_cases directory : ∃ listable searchable,
          fs.get? place = some (.directory listable searchable) ∧ fs.Direct place
      · obtain ⟨listable, searchable, here, direct⟩ := directory
        obtain ⟨-, checked⟩ := validateRoot_of_directory resolved here direct
        cases listable <;> constructor <;> simp [checked, resolved, here, direct, eq_comm]
      · have none : ∀ listable searchable,
            fs.get? place = some (.directory listable searchable) → ¬ fs.Direct place :=
          fun listable searchable here direct => directory ⟨listable, searchable, here, direct⟩
        have refused := validateRoot_of_not_directory resolved (known place resolved) none
        constructor
        · simp [refused, resolved]
        · intro path
          rw [refused, resolved]
          constructor
          · rintro ⟨⟩
            exact ⟨rfl, place, rfl, none⟩
          · rintro ⟨rfl, -⟩
            rfl
        · intro path cause
          rw [refused, resolved]
          refine iff_of_false (by simp) ?_
          rintro ⟨-, -, _, searchable, ⟨⟩, here, direct⟩
          exact none _ _ here direct
        · rw [refused, resolved]
          refine iff_of_false (by simp) ?_
          rintro ⟨_, searchable, ⟨⟩, here, direct⟩
          exact none _ _ here direct

namespace RootDecides

variable {α β : Type} {counts counts' : Location → Prop} {result : Except ScanError α}

theorem of_errors (h : RootDecides fs root counts result) {result' : Except ScanError β}
    (same : ∀ e, result' = .error e ↔ result = .error e) : RootDecides fs root counts result' where
  notFound path cause := (same _).trans (h.notFound path cause)
  notDirectory path := (same _).trans (h.notDirectory path)
  unreadable path cause := (same _).trans (h.unreadable path cause)
  passes := by
    rw [← h.passes]
    cases result with
    | error e =>
        rw [(same e).mpr rfl]
        exact ⟨nofun, nofun⟩
    | ok a =>
        cases result' with
        | error e => exact absurd ((same e).mp rfl) nofun
        | ok b => exact ⟨fun _ => ⟨a, rfl⟩, fun _ => ⟨b, rfl⟩⟩

/-- Only directories count, and only at the root's location. -/
theorem of_directories (h : RootDecides fs root counts result)
    (same : ∀ place listable searchable, fs.canonical root = .ok place →
      fs.get? place = some (.directory listable searchable) → (counts' place ↔ counts place)) :
    RootDecides fs root counts' result where
  notFound := h.notFound
  notDirectory path := by
    rw [h.notDirectory]
    refine and_congr_right fun _ => exists_congr fun place => and_congr_right fun resolved => ?_
    refine forall₃_congr fun listable searchable here => ?_
    rw [same place listable searchable resolved here]
  unreadable path cause := by
    rw [h.unreadable]
    refine and_congr_right fun _ => and_congr_right fun _ => exists₂_congr fun place _ => ?_
    refine and_congr_right fun resolved => and_congr_right fun here => ?_
    rw [same place _ _ resolved here]
  passes := by
    rw [h.passes]
    refine exists₂_congr fun place _ => and_congr_right fun resolved => ?_
    refine and_congr_right fun here => ?_
    rw [same place _ _ resolved here]

/-- Every directory counts exactly if the paths of the root's location lead to it. -/
theorem all_count_iff (h : RootDecides fs root fs.Direct result) :
    RootDecides fs root (fun _ => True) result ↔ ∀ place listable searchable,
      fs.canonical root = .ok place →
        fs.get? place = some (.directory listable searchable) → fs.Direct place := by
  constructor
  · intro all place listable searchable resolved here
    by_contra apart
    have refused : result = .error (.rootNotDirectory root) :=
      (h.notDirectory root).mpr ⟨rfl, place, resolved, fun _ _ _ => apart⟩
    obtain ⟨-, place', resolved', none⟩ := (all.notDirectory root).mp refused
    obtain rfl : place = place' := Except.ok.inj (resolved.symm.trans resolved')
    exact none listable searchable here trivial
  · intro straight
    exact h.of_directories fun place listable searchable resolved here =>
      iff_of_true trivial (straight place listable searchable resolved here)

end RootDecides

/-! ## The root during a walk -/

namespace Walk.State

variable {config : Config}

/-- A walk with an error at its root is over, so one that ends without has none on its way. -/
theorem rootError_after (h : (Walk.ofRoot fs config root).rootError = none) (n : Nat) :
    ((start root).after fs config n).rootError = none := by
  obtain ⟨t, leads, ended, all⟩ := endsWith_ofRoot fs config root
  obtain ⟨m, there⟩ := leads.exists_after
  have sound : t.rootError = none := by
    rw [← all] at h
    exact h
  cases erred : ((start root).after fs config n).rootError with
  | none => rfl
  | some cause =>
      have halted : ((start root).after fs config n).step fs config = none :=
        step_of_rootError erred
      have turned : ((start root).after fs config m).after fs config n =
          ((start root).after fs config n).after fs config m := by
        rw [← after_add, ← after_add, Nat.add_comm]
      rw [there, after_of_step_none ended, after_of_step_none halted] at turned
      rw [turned] at sound
      rw [sound] at erred
      cases erred

end Walk.State

/-! ## Scans -/

/-- Every scan of a file system comes to an end.  It reports the root as not found if the root
cannot be resolved, as no directory if something else is at its location, and as unreadable if a
directory is that cannot be listed; in every other case it succeeds, whatever lies below the root.
This is so if the path is absolute, or the working directory's path leads to it.  If it does not, a
directory that the root resolves to is still taken for none unless its canonical path leads to it;
that is the only exception.  A walk of a root that has passed the check meets no error at the
root. -/
theorem scan_fails_by_root (fs : FileSystem) (config : Config) (processors : Nat) (root : Path) :
    (∃ result, Scans fs config processors root result) ∧
      (∀ result, Scans fs config processors root result →
        root.isAbsolute = true ∨ fs.Direct fs.workingDirectory →
          RootDecides fs root (fun _ => True) result) ∧
      (∀ result, Scans fs config processors root result →
        root.isAbsolute = true ∨ fs.Standing fs.workingDirectory →
          RootDecides fs root fs.Direct result ∧
            (RootDecides fs root (fun _ => True) result ↔
              ∀ place listable searchable, fs.canonical root = .ok place →
                fs.get? place = some (.directory listable searchable) → fs.Direct place)) ∧
      ∀ canonical, validateRoot fs root = .ok canonical →
        ∀ n, ((Walk.State.start canonical).after fs config n).rootError = none := by
  have decided : ∀ result, Scans fs config processors root result →
      (∀ place, fs.canonical root = .ok place → fs.Direct place ∨ fs.Standing place) →
        RootDecides fs root fs.Direct result := by
    intro result scans known
    refine (rootDecides_validateRoot known).of_errors fun e => ?_
    rw [scans.agrees_scanTree.eq_error_iff, scanTree_result_eq_error_iff]
  refine ⟨⟨_, scans_scanTree fs config processors root⟩, ?_, ?_, ?_⟩
  · intro result scans straight
    have direct : ∀ place, fs.canonical root = .ok place → fs.Direct place :=
      fun place resolved => FileSystem.direct_of_canonical straight resolved
    have known := decided result scans fun place resolved => .inl (direct place resolved)
    have all := known.all_count_iff
    exact all.mpr fun place _ _ resolved _ => direct place resolved
  · intro result scans standing
    have known := decided result scans fun place => FileSystem.known_of_canonical standing
    exact ⟨known, known.all_count_iff⟩
  · intro canonical valid n
    exact Walk.State.rootError_after (rootError_of_validateRoot config valid) n

namespace Sample

open Walk.Sample

/-- The working directory can be listed and searched, but not the directory that it is in. -/
def barred : FileSystem where
  objects := [([top], .directory true false), ([top, kept], .directory true true)]
  workingDirectory := [top, kept]

theorem standing_barred : barred.Standing [top, kept] := by
  have above : barred.Standing ([] ++ [top]) := (FileSystem.standing_root rfl).entry rfl
  exact above.entry rfl

end Sample

open Walk.Sample Sample in
/-- The working directory is taken for no directory if its path does not lead to it, and for what it
is if the path does. -/
theorem scan_fails_by_root_barred :
    barred.canonical Path.dot = .ok [top, kept] ∧
      barred.get? [top, kept] = some (.directory true true) ∧
      (∀ result, Scans barred .standard 1 Path.dot result →
        result = .error (.rootNotDirectory Path.dot) ∧
          ¬ RootDecides barred Path.dot (fun _ => True) result) ∧
      (∀ result, Scans tree .standard 1 (Location.path [top]) result →
        ∃ outcome, result = .ok outcome) ∧
      ((Walk.State.start (Location.path [top])).after tree .standard 3).rootError = none := by
  have resolved : barred.canonical Path.dot = .ok [top, kept] := rfl
  have here : barred.get? [top, kept] = some (.directory true true) := rfl
  have apart : ¬ barred.Direct ([top] ++ [kept]) := FileSystem.not_direct_of_unsearchable rfl
  obtain ⟨-, -, decides, -⟩ := scan_fails_by_root barred .standard 1 Path.dot
  obtain ⟨-, passes, -, sound⟩ := scan_fails_by_root tree .standard 1 (Location.path [top])
  refine ⟨resolved, here, ?_, ?_, sound _ rfl 3⟩
  · intro result scans
    obtain ⟨decided, all⟩ := decides result scans (.inr standing_barred)
    refine ⟨(decided.notDirectory _).mpr ⟨rfl, _, resolved, fun _ _ _ => apart⟩, ?_⟩
    exact fun claimed => apart (all.mp claimed _ _ _ resolved here)
  · intro result scans
    exact (passes result scans (.inl rfl)).passes.mpr ⟨[top], true, rfl, rfl, trivial⟩

end HiddenText
