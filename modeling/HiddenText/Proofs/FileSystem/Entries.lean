import HiddenText.Proofs.FileSystem.Canonical

/-! # The entries of a directory by their paths

A path that leads to a directory goes on to the directory's entries, whatever links it went
through and however it is written: whether it may, is a matter of the directory's permission and of
the lengths of the path and of the entry's name (`enterable`), and of nothing else
(`object_entry`). -/
set_option autoImplicit false

namespace HiddenText.FileSystem

variable {fs : FileSystem} {place : Location} {path : Path} {name : Name}

/-! ## Going on -/

theorem advance_append (fs : FileSystem) : ∀ (segments rest : List Bytes) (start : Location),
    fs.advance start (segments ++ rest) = match fs.advance start segments with
      | .error cause => .error cause
      | .ok (.arrived found) => fs.advance found rest
      | .ok (.atLink directory name target more) =>
        .ok (.atLink directory name target (more ++ rest)) := by
  intro segments
  induction segments with
  | nil => intro rest start; rfl
  | cons segment segments ih =>
      intro rest start
      rw [List.cons_append, advance, advance]
      split
      · cases fs.checkDirectory start with
        | error cause => rfl
        | ok done => exact ih rest start
      · cases fs.checkSearchable start with
        | error cause => rfl
        | ok done =>
            simp only [bind, Except.bind]
            split
            · exact ih rest start
            · split
              · exact ih rest start.dropLast
              · cases fs.entry start segment with
                | error cause => rfl
                | ok found =>
                    obtain ⟨name, object⟩ := found
                    cases object with
                    | link target => rfl
                    | file content readable => exact ih rest _
                    | directory listable searchable => exact ih rest _
                    | pipe => exact ih rest _

theorem follow_congr {start start' : Location} {segments segments' : List Bytes}
    (same : fs.advance start segments = fs.advance start' segments') (final : Bool) (links : Nat) :
    fs.follow final links start segments = fs.follow final links start' segments' := by
  cases links with
  | zero => rw [follow, follow, same]
  | succ links => rw [follow, follow, same]

theorem follow_of_advance_arrived {start : Location} {segments : List Bytes}
    {result : Except IoError Location} (h : fs.advance start segments = result.map .arrived)
    (final : Bool) (links : Nat) : fs.follow final links start segments = result := by
  cases result <;> cases links <;> rw [follow, h] <;> rfl

/-- A path goes on from where its front leads, with the links that are left. -/
theorem exists_follow_append {links : Nat} {start : Location} {segments rest : List Bytes}
    (h : fs.follow true links start segments = .ok place) (more : rest ≠ []) (final : Bool) :
    ∃ left, fs.follow final links start (segments ++ rest) = fs.follow final left place rest := by
  fun_induction fs.follow true links start segments with
  | case1 links start segments cause reached =>
      cases h
  | case2 links start segments found reached =>
      cases h
      have joined := fs.advance_append segments rest start
      rw [reached] at joined
      exact ⟨links, follow_congr joined final links⟩
  | case3 links start segments directory name target behind reached last =>
      cases last.2
  | case4 start segments directory name target behind reached last =>
      cases h
  | case5 start segments directory name target behind reached last links next onward started ih =>
      -- The link stands before the rest, so it is followed either way.
      obtain ⟨left, further⟩ := ih h
      have joined := fs.advance_append segments rest start
      rw [reached] at joined
      refine ⟨left, ?_⟩
      rw [follow, joined]
      simp only [List.append_eq_nil_iff, more, and_false, false_and, if_false, started]
      rw [← further, List.append_assoc]

/-- A slash at the end of a path only asks for a directory. -/
theorem follow_of_trailing_slash {links : Nat} {start : Location} {front : List Bytes}
    (h : fs.follow true links start (front ++ [[]]) = .ok place) :
    fs.follow true links start front = .ok place := by
  have joined := fs.advance_append front [[]] start
  fun_induction fs.follow true links start front with
  | case1 links start front cause reached =>
      rw [reached] at joined
      rw [follow, joined] at h
      cases h
  | case2 links start front found reached =>
      rw [reached] at joined
      simp only [advance, if_true] at joined
      cases passes : fs.checkDirectory found with
      | error cause =>
          rw [passes] at joined
          rw [follow, joined] at h
          cases h
      | ok done =>
          rw [passes] at joined
          rw [follow, joined] at h
          exact h
  | case3 links start front directory name target behind reached last =>
      cases last.2
  | case4 start front directory name target behind reached last =>
      rw [reached] at joined
      rw [follow, joined] at h
      simp at h
  | case5 start front directory name target behind reached last links next onward started ih =>
      rw [reached] at joined
      rw [follow, joined] at h
      simp only [List.append_eq_nil_iff, List.cons_ne_nil, and_false, false_and, if_false,
        started] at h
      rw [← List.append_assoc] at h
      exact ih h (fs.advance_append _ _ _)

def startOfFront (base : Location) : List Bytes → Location × List Bytes
  | [] :: front => ([], front)
  | front => (base, front)

theorem startOf_of_concat {base : Location} {front : List Bytes} {last : Bytes} (some : front ≠ [])
    (split : Path.segments path = front ++ [last]) :
    startOf base path =
      ((startOfFront base front).1, (startOfFront base front).2 ++ [last]) := by
  rw [startOf, split]
  cases front with
  | nil => exact absurd rfl some
  | cons first more =>
      cases first with
      | nil => cases more <;> rfl
      | cons b first => rfl

theorem startOf_of_ne_nil {base : Location} (nonempty : path ≠ []) :
    startOf base path = startOfFront base (Path.segments path) := by
  have parted : Path.segments path ≠ [[]] := mt Path.segments_eq_singleton_nil_iff.mp nonempty
  rw [startOf]
  split
  · rename_i split
    rw [split]
    rfl
  · rename_i relative
    cases split : Path.segments path with
    | nil => rfl
    | cons first more =>
        cases first with
        | cons b first => rfl
        | nil =>
            cases more with
            | nil => exact absurd split parted
            | cons second more => exact absurd split (relative second more)

/-- The segments of a directory's path, up to a slash at its end, are followed on the way to each of
its entries. -/
theorem exists_startOf_join (nonempty : path ≠ []) (base : Location) (name : Name) :
    ∃ start front, (startOf base path = (start, front) ∨
        startOf base path = (start, front ++ [[]])) ∧
      startOf base (path.join name.bytes) = (start, front ++ [name.bytes]) := by
  have last : Path.segments name.bytes = [name.bytes] :=
    Path.segments_of_slash_notMem name.slash_notMem
  by_cases ends : path.getLast? = some Path.slash
  · obtain ⟨front, rfl⟩ := List.getLast?_eq_some_iff.mp ends
    have some := Path.segments_ne_nil front
    have split : Path.segments (front ++ [Path.slash]) = Path.segments front ++ [[]] :=
      Path.segments_append front []
    have joined : Path.segments (Path.join (front ++ [Path.slash]) name.bytes) =
        Path.segments front ++ [name.bytes] := by
      rw [Path.join, if_pos (Or.inr ends), List.append_assoc, List.singleton_append,
        Path.segments_append, last]
    exact ⟨_, _, .inr (startOf_of_concat some split), startOf_of_concat some joined⟩
  · have joined : Path.segments (path.join name.bytes) =
        Path.segments path ++ [name.bytes] := by
      rw [Path.join_of_isOpen ⟨nonempty, ends⟩, Path.segments_append, last]
    exact ⟨_, _, .inl (startOf_of_ne_nil nonempty),
      startOf_of_concat (Path.segments_ne_nil path) joined⟩

/-! ## One entry further -/

/-- Whether a path may be followed from a directory to an entry. -/
def enterable (searchable : Bool) (path : Path) (name : Name) : Except IoError Unit :=
  if pathLimit < path.length then .error .nameTooLong
  else if searchable = false then .error .permissionDenied
  else if nameLimit < name.bytes.length then .error .nameTooLong
  else .ok ()

theorem advance_entry {listable searchable : Bool} {object : Object}
    (here : fs.get? place = some (.directory listable searchable))
    (there : fs.get? (place ++ [name]) = some object) (plain : ∀ target, object ≠ .link target) :
    fs.advance place [name.bytes] = Except.map .arrived
      (if searchable = false then .error .permissionDenied
        else if nameLimit < name.bytes.length then .error .nameTooLong
        else .ok (place ++ [name])) := by
  obtain ⟨nonempty, notDot, notDotDot, -⟩ := name.isEntryName
  cases searchable with
  | false =>
      rw [advance, if_neg nonempty, checkSearchable, here]
      rfl
  | true =>
      by_cases long : nameLimit < name.bytes.length
      · rw [advance, if_neg nonempty, checkSearchable, here, if_neg notDot, if_neg notDotDot,
          entry, if_pos long, if_pos long]
        rfl
      · have enters : Enters fs place name object := ⟨⟨listable, here⟩, there, Nat.not_lt.mp long⟩
        rw [enters.advance, if_neg long]
        cases object with
        | link target => exact absurd rfl (plain target)
        | file content readable => rfl
        | directory listable searchable => rfl
        | pipe => rfl

theorem locate_entry {final : Bool} (located : fs.locate true path = .ok place) (name : Name) :
    ∃ links, fs.locate final (path.join name.bytes) =
      if pathLimit < (path.join name.bytes).length then .error .nameTooLong
      else fs.follow final links place [name.bytes] := by
  rw [locate] at located
  split at located
  · cases located
  · rename_i nonempty
    split at located
    · cases located
    · rename_i noZero
      split at located
      · cases located
      · obtain ⟨start, front, started, joined⟩ :=
          exists_startOf_join nonempty fs.workingDirectory name
        have followed : fs.follow true linkLimit start front = .ok place := by
          rcases started with started | started
          · rw [started] at located
            exact located
          · rw [started] at located
            exact follow_of_trailing_slash located
        obtain ⟨left, further⟩ :=
          exists_follow_append followed (List.cons_ne_nil name.bytes []) final
        have noZero' : (0 : UInt8) ∉ path.join name.bytes := by
          rw [Path.join_eq, List.mem_append, List.mem_append, not_or, not_or]
          refine ⟨⟨noZero, ?_⟩, name.isEntryName.2.2.2.2⟩
          rw [Path.separator]
          split <;> decide
        refine ⟨left, ?_⟩
        rw [locate, if_neg (Path.isOpen_join path name).1, if_neg noZero', joined]
        simp only [further]

theorem object_entry {listable searchable : Bool} {object : Object}
    (here : fs.stat path = .ok (place, .directory listable searchable))
    (there : fs.get? (place ++ [name]) = some object) (plain : ∀ target, object ≠ .link target)
    (final : Bool) :
    fs.object final (path.join name.bytes) =
      (enterable searchable (path.join name.bytes) name).map fun _ =>
        (place ++ [name], object) := by
  obtain ⟨located, found⟩ := object_eq_ok_iff.mp here
  obtain ⟨links, further⟩ := locate_entry located name
  have entered := follow_of_advance_arrived (advance_entry found there plain) final links
  rw [FileSystem.object, further, entered, enterable]
  split
  · rfl
  · split
    · rfl
    · split
      · rfl
      · simp [bind, Except.bind, there, Except.map]

theorem eq_of_object_entry {listable searchable : Bool} {object object' : Object}
    {found : Location} {final : Bool}
    (here : fs.stat path = .ok (place, .directory listable searchable))
    (there : fs.get? (place ++ [name]) = some object) (plain : ∀ target, object ≠ .link target)
    (reached : fs.object final (path.join name.bytes) = .ok (found, object')) :
    found = place ++ [name] ∧ object' = object := by
  rw [object_entry here there plain] at reached
  cases admitted : enterable searchable (path.join name.bytes) name with
  | error cause =>
      rw [admitted] at reached
      cases reached
  | ok done =>
      rw [admitted] at reached
      cases reached
      exact ⟨rfl, rfl⟩

section

variable {listable searchable : Bool}
  (here : fs.stat path = .ok (place, .directory listable searchable))
include here

theorem read_entry {content : Bytes} {readable : Bool}
    (there : fs.get? (place ++ [name]) = some (.file content readable)) :
    fs.read (path.join name.bytes) =
      (enterable searchable (path.join name.bytes) name).bind fun _ =>
        if readable then .ok content else .error .permissionDenied := by
  have found := object_entry here there nofun true
  rw [read, stat, found]
  cases enterable searchable (path.join name.bytes) name <;> rfl

theorem openDirectory_entry {listable' searchable' : Bool}
    (there : fs.get? (place ++ [name]) = some (.directory listable' searchable')) :
    fs.openDirectory (path.join name.bytes) =
      (enterable searchable (path.join name.bytes) name).bind fun _ =>
        if listable' then .ok (place ++ [name]) else .error .permissionDenied := by
  have found := object_entry here there nofun true
  rw [openDirectory, stat, found]
  cases enterable searchable (path.join name.bytes) name <;> rfl

end

end HiddenText.FileSystem
