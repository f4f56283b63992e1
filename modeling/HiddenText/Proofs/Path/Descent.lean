import HiddenText.FileSystem

/-! # Paths below a directory

`Path.descend` goes down from a directory, one name after the other.  What it adds to the
directory's path can be read off again (`descend_injective`), and `stripPrefix?` gives just that
back when the directory's path is canonical. -/
set_option autoImplicit false

namespace HiddenText

def Path.descend (path : Path) (names : List Name) : Path :=
  names.foldl (fun path name => path.join name.bytes) path

def Path.below (names : List Name) : Path := names.flatMap fun name => Path.slash :: name.bytes

/-- Names with a slash between each two: a path seen from the directory where they start. -/
def Path.relative (names : List Name) : Path := Path.ofSegments (names.map Name.bytes)

namespace Name

theorem bytes_injective : Function.Injective Name.bytes := by
  intro a b h
  cases a
  cases b
  cases h
  rfl

theorem bytes_ne_nil (n : Name) : n.bytes ≠ [] := n.isEntryName.1

theorem slash_notMem (n : Name) : Path.slash ∉ n.bytes := n.isEntryName.2.2.2.1

theorem component?_bytes (n : Name) : Path.component? n.bytes = some (.normal n.bytes) := by
  obtain ⟨nonempty, notDot, notDotDot, -⟩ := n.isEntryName
  simp [Path.component?, nonempty, notDot, notDotDot]

end Name

namespace Path

/-! ## Segments -/

theorem segments_cons_of_ne {b : UInt8} (h : b ≠ slash) {p : Path} {s : Bytes} {more : List Bytes}
    (split : segments p = s :: more) : segments (b :: p) = (b :: s) :: more := by
  rw [segments, if_neg h, split]

theorem segments_of_slash_notMem : ∀ {a : Bytes}, slash ∉ a → segments a = [a] := by
  intro a
  induction a with
  | nil => intro _; rfl
  | cons b a ih =>
      intro h
      rw [List.mem_cons, not_or] at h
      exact segments_cons_of_ne (Ne.symm h.1) (ih h.2)

theorem segments_ne_nil (p : Path) : segments p ≠ [] := by
  cases p with
  | nil => exact List.cons_ne_nil _ _
  | cons b rest =>
      rw [segments]
      split
      · exact List.cons_ne_nil _ _
      · split
        · exact List.cons_ne_nil _ _
        · exact List.cons_ne_nil _ _

theorem segments_append (a p : Path) :
    segments (a ++ slash :: p) = segments a ++ segments p := by
  induction a with
  | nil => simp [segments]
  | cons b a ih =>
      by_cases isSlash : b = slash
      · rw [List.cons_append, segments, if_pos isSlash, ih, segments, if_pos isSlash,
          List.cons_append]
      · cases split : segments a with
        | nil => exact absurd split (segments_ne_nil a)
        | cons first more =>
            rw [split] at ih
            rw [segments_cons_of_ne isSlash split, List.cons_append,
              segments_cons_of_ne isSlash ih]
            rfl

theorem segments_append_slash {a : Bytes} (h : slash ∉ a) (p : Path) :
    segments (a ++ slash :: p) = a :: segments p := by
  rw [segments_append, segments_of_slash_notMem h]
  rfl

theorem segments_eq_singleton_nil_iff {p : Path} : segments p = [[]] ↔ p = [] := by
  constructor
  · intro split
    cases p with
    | nil => rfl
    | cons b rest =>
        rw [segments] at split
        split at split
        · exact absurd (List.cons.inj split).2 (segments_ne_nil rest)
        · split at split
          · cases split
          · cases split
  · rintro rfl
    rfl

theorem slash_notMem_segments (p : Path) : ∀ s ∈ segments p, slash ∉ s := by
  induction p with
  | nil =>
      intro s known
      rw [List.mem_singleton.mp known]
      exact List.not_mem_nil
  | cons b rest ih =>
      by_cases isSlash : b = slash
      · rw [segments, if_pos isSlash]
        intro s known
        rcases List.mem_cons.mp known with rfl | known
        · exact List.not_mem_nil
        · exact ih s known
      · cases split : segments rest with
        | nil => exact absurd split (segments_ne_nil rest)
        | cons first more =>
            rw [split] at ih
            rw [segments_cons_of_ne isSlash split]
            intro s known
            rcases List.mem_cons.mp known with rfl | known
            · rw [List.mem_cons, not_or]
              exact ⟨Ne.symm isSlash, ih first (List.mem_cons_self ..)⟩
            · exact ih s (List.mem_cons_of_mem _ known)

theorem segments_of_isAbsolute {p : Path} (h : p.isAbsolute = true) :
    ∃ second more, segments p = [] :: second :: more := by
  cases p with
  | nil => cases h
  | cons b rest =>
      have isSlash : b = slash := by simpa [isAbsolute] using h
      rw [segments, if_pos isSlash]
      cases behind : segments rest with
      | nil => exact absurd behind (segments_ne_nil rest)
      | cons second more => exact ⟨second, more, rfl⟩

theorem segments_ofSegments : ∀ {ss : List Bytes}, ss ≠ [] → (∀ s ∈ ss, slash ∉ s) →
    segments (ofSegments ss) = ss := by
  intro ss
  induction ss with
  | nil => intro h; exact absurd rfl h
  | cons s ss ih =>
      intro _ h
      cases ss with
      | nil => exact segments_of_slash_notMem (h s (List.mem_cons_self ..))
      | cons t ss =>
          have tail := ih (List.cons_ne_nil _ _) fun u hu => h u (List.mem_cons_of_mem _ hu)
          rw [ofSegments, segments_append_slash (h s (List.mem_cons_self ..)), tail]
          exact List.cons_ne_nil _ _

theorem segments_relative {names : List Name} (h : names ≠ []) :
    segments (relative names) = names.map Name.bytes := by
  apply segments_ofSegments
  · simpa using h
  · intro s hs
    obtain ⟨name, -, rfl⟩ := List.mem_map.mp hs
    exact name.slash_notMem

theorem below_cons_eq (name : Name) (names : List Name) :
    below (name :: names) = slash :: relative (name :: names) := by
  induction names generalizing name with
  | nil => simp [below, relative, ofSegments]
  | cons next names ih =>
      have tail := ih next
      rw [below, List.flatMap_cons] at tail ⊢
      rw [List.flatMap_cons, tail]
      rfl

theorem relative_cons_eq (name : Name) (names : List Name) :
    relative (name :: names) = name.bytes ++ below names := by
  have h := below_cons_eq name names
  rw [below, List.flatMap_cons, List.cons_append] at h
  exact (List.cons.inj h).2.symm

theorem relative_cons_ne_nil (name : Name) (names : List Name) : relative (name :: names) ≠ [] := by
  rw [relative_cons_eq]
  exact fun h => name.bytes_ne_nil (List.append_eq_nil_iff.mp h).1

theorem segments_below (name : Name) (names : List Name) :
    segments (below (name :: names)) = [] :: (name :: names).map Name.bytes := by
  rw [below_cons_eq, segments, if_pos rfl, segments_relative (List.cons_ne_nil _ _)]

theorem relative_injective : Function.Injective relative := by
  intro names others h
  cases names with
  | nil =>
      cases others with
      | nil => rfl
      | cons other others => exact absurd h.symm (relative_cons_ne_nil other others)
  | cons name names =>
      cases others with
      | nil => exact absurd h (relative_cons_ne_nil name names)
      | cons other others =>
          have split := congrArg segments h
          rw [segments_relative (List.cons_ne_nil _ _), segments_relative (List.cons_ne_nil _ _)]
            at split
          exact (List.map_inj_right fun _ _ => @Name.bytes_injective _ _).mp split

/-! ## Going down -/

/-- Nothing needs to be put in before another name: the path is not empty and does not end in a
slash. -/
def IsOpen (p : Path) : Prop := p ≠ [] ∧ p.getLast? ≠ some slash

theorem isOpen_append_bytes (p : Path) (name : Name) : IsOpen (p ++ name.bytes) := by
  refine ⟨fun h => name.bytes_ne_nil (List.append_eq_nil_iff.mp h).2, fun h => ?_⟩
  cases last : name.bytes.getLast? with
  | none => exact name.bytes_ne_nil (List.getLast?_eq_none_iff.mp last)
  | some b =>
      rw [List.getLast?_append, last] at h
      cases h
      exact name.slash_notMem (List.mem_of_getLast? last)

theorem join_of_isOpen {p : Path} (h : IsOpen p) (name : Bytes) :
    p.join name = p ++ slash :: name := by
  rw [join, if_neg (not_or.mpr h)]

theorem isOpen_join (p : Path) (name : Name) : IsOpen (p.join name.bytes) := by
  rw [join]
  split
  · exact isOpen_append_bytes p name
  · have := isOpen_append_bytes (p ++ [slash]) name
    rwa [List.append_assoc] at this

theorem descend_cons (p : Path) (name : Name) (names : List Name) :
    p.descend (name :: names) = (p.join name.bytes).descend names := rfl

theorem descend_concat (p : Path) (names : List Name) (name : Name) :
    p.descend (names ++ [name]) = (p.descend names).join name.bytes := by
  simp [descend]

theorem descend_append (p : Path) (names more : List Name) :
    p.descend (names ++ more) = (p.descend names).descend more := by
  simp [descend]

theorem descend_of_isOpen : ∀ (names : List Name) {p : Path}, IsOpen p →
    p.descend names = p ++ below names := by
  intro names
  induction names with
  | nil => intro p _; simp [descend, below]
  | cons name names ih =>
      intro p h
      rw [descend_cons, ih (isOpen_join p name), join_of_isOpen h, List.append_assoc]
      rfl

def separator (p : Path) : Bytes := if p = [] ∨ p.getLast? = some slash then [] else [slash]

theorem join_eq (p : Path) (name : Bytes) : p.join name = p ++ separator p ++ name := by
  rw [join, separator]
  split
  · rw [List.append_nil]
  · rw [List.append_assoc]
    rfl

theorem descend_eq (p : Path) (name : Name) (names : List Name) :
    p.descend (name :: names) = p ++ (separator p ++ relative (name :: names)) := by
  rw [descend_cons, descend_of_isOpen names (isOpen_join p name), join_eq, relative_cons_eq]
  simp only [List.append_assoc]

theorem descend_injective (p : Path) : Function.Injective p.descend := by
  have longer : ∀ name names, p.descend (name :: names) ≠ p := by
    intro name names h
    rw [descend_eq] at h
    have nothing := List.append_cancel_left (h.trans (List.append_nil p).symm)
    exact relative_cons_ne_nil name names (List.append_eq_nil_iff.mp nothing).2
  intro names others h
  cases names with
  | nil =>
      cases others with
      | nil => rfl
      | cons other others => exact absurd h.symm (longer other others)
  | cons name names =>
      cases others with
      | nil => exact absurd h (longer name names)
      | cons other others =>
          rw [descend_eq, descend_eq] at h
          exact relative_injective (List.append_cancel_left (List.append_cancel_left h))

/-! ## Below a directory -/

def IsBelow (directory p : Path) : Prop := directory ++ [slash] <+: p

instance (directory p : Path) : Decidable (IsBelow directory p) :=
  inferInstanceAs (Decidable (_ <+: _))

theorem isOpen_descend (p : Path) {names : List Name} (h : names ≠ []) :
    IsOpen (p.descend names) := by
  rcases List.eq_nil_or_concat names with none | ⟨front, last, all⟩
  · exact absurd none h
  · rw [all, List.concat_eq_append, descend_concat]
    exact isOpen_join _ last

theorem isBelow_descend_iff (p : Path) {names others : List Name} (h : names ≠ []) :
    IsBelow (p.descend names) (p.descend others) ↔ ∃ name more, others = names ++ name :: more := by
  constructor
  · rintro ⟨rest, written⟩
    rw [List.append_assoc, List.singleton_append] at written
    cases names with
    | nil => exact absurd rfl h
    | cons first names =>
        cases others with
        | nil =>
            have longer := congrArg List.length written
            rw [descend_eq] at longer
            simp only [descend, List.foldl_nil, List.length_append, List.length_cons] at longer
            omega
        | cons other others =>
            rw [descend_eq, descend_eq, List.append_assoc, List.append_assoc] at written
            have relatives := List.append_cancel_left (List.append_cancel_left written)
            have split := congrArg segments relatives
            rw [segments_append, segments_relative (List.cons_ne_nil _ _),
              segments_relative (List.cons_ne_nil _ _)] at split
            obtain ⟨front, back, all, isFront, isBack⟩ := List.map_eq_append_iff.mp split.symm
            obtain rfl : front = first :: names :=
              (List.map_inj_right fun _ _ => @Name.bytes_injective _ _).mp isFront
            cases back with
            | nil => exact absurd isBack.symm (segments_ne_nil rest)
            | cons name more => exact ⟨name, more, all⟩
  · rintro ⟨name, more, rfl⟩
    rw [descend_append, descend_of_isOpen _ (isOpen_descend p h)]
    exact ⟨name.bytes ++ below more, by simp [below]⟩

/-! ## Components -/

theorem front_of_segments {p : Path} {s : Bytes} {more : List Bytes}
    (split : segments p = s :: more) (nonempty : s ≠ []) (notDot : s ≠ dot) :
    front p = (none, s :: more) := by
  cases s with
  | nil => exact absurd rfl nonempty
  | cons b s => simp [front, split, notDot]

theorem front_of_absolute {p : Path} {second : Bytes} {more : List Bytes}
    (split : segments p = [] :: second :: more) : front p = (some .root, second :: more) := by
  simp [front, split]

theorem filterMap_component? : ∀ names : List Name,
    (names.map Name.bytes).filterMap component? = names.map fun name => .normal name.bytes := by
  intro names
  induction names with
  | nil => rfl
  | cons name names ih =>
      rw [List.map_cons, List.filterMap_cons, name.component?_bytes, ih, List.map_cons]

theorem front_relative {names : List Name} (h : names ≠ []) :
    front (relative names) = (none, names.map Name.bytes) := by
  cases names with
  | nil => exact absurd rfl h
  | cons name names =>
      exact front_of_segments (segments_relative h) name.bytes_ne_nil name.isEntryName.2.1

theorem components_relative {names : List Name} (h : names ≠ []) :
    components (relative names) = names.map fun name => .normal name.bytes := by
  rw [components, front_relative h, filterMap_component?]
  rfl

theorem names_relative {names : List Name} (h : names ≠ []) :
    Path.names (relative names) = names.map Name.bytes := by
  rw [Path.names, components_relative h, List.filterMap_map, ← List.filterMap_eq_map]
  rfl

theorem dropComponents_names : ∀ place names : List Name,
    dropComponents place.length ((place ++ names).map Name.bytes) = names.map Name.bytes := by
  intro place
  induction place with
  | nil =>
      intro names
      cases names with
      | nil => rfl
      | cons name names => simp [dropComponents, name.component?_bytes]
  | cons next place ih =>
      intro names
      rw [List.length_cons, List.cons_append, List.map_cons, dropComponents,
        next.component?_bytes]
      exact ih names

theorem dropTrailing_names (names : List Name) :
    dropTrailing (names.map Name.bytes) = names.map Name.bytes := by
  rw [dropTrailing, ← List.map_reverse]
  cases last : names.reverse with
  | nil => simpa using last
  | cons name rest =>
      rw [List.map_cons, List.dropWhile_cons_of_neg (by simp [name.component?_bytes]),
        ← List.map_cons, ← last, ← List.map_reverse, List.reverse_reverse]

end Path

/-! ## Canonical paths -/

namespace Location

theorem path_of_ne_nil {place : Location} (h : place ≠ []) : place.path = Path.below place := by
  rw [Location.path, if_neg h]
  rfl

theorem join_path (place : Location) (name : Name) :
    place.path.join name.bytes = Location.path (place ++ [name]) := by
  rw [path_of_ne_nil (List.append_ne_nil_of_right_ne_nil _ (List.cons_ne_nil _ _))]
  cases place with
  | nil => simp [Location.path, Path.join, Path.below]
  | cons first place =>
      have isOpen : Path.IsOpen (Path.below (first :: place)) := by
        rcases List.eq_nil_or_concat (first :: place) with none | ⟨front, last, all⟩
        · cases none
        · have := Path.isOpen_append_bytes (Path.below front ++ [Path.slash]) last
          rw [all]
          simpa [Path.below] using this
      rw [path_of_ne_nil (List.cons_ne_nil _ _), Path.join_of_isOpen isOpen]
      simp [Path.below]

theorem descend_path (place : Location) : ∀ names : List Name,
    place.path.descend names = Location.path (place ++ names) := by
  intro names
  induction names generalizing place with
  | nil => simp [Path.descend]
  | cons name names ih =>
      rw [Path.descend_cons, join_path, ih, List.append_assoc]
      rfl

theorem front_path {place : Location} (h : place ≠ []) :
    Path.front place.path = (some .root, place.map Name.bytes) := by
  cases place with
  | nil => exact absurd rfl h
  | cons name place =>
      rw [path_of_ne_nil h]
      exact Path.front_of_absolute (Path.segments_below name place)

theorem components_path (place : Location) : Path.components place.path =
    .root :: place.map fun name => .normal name.bytes := by
  by_cases h : place = []
  · subst h
    rfl
  · rw [Path.components, front_path h, Path.filterMap_component?]
    rfl

end Location

/-- From a canonical directory, a path below it is seen as the names that lead there. -/
theorem Path.stripPrefix?_descend (place : Location) {names : List Name} (h : names ≠ []) :
    Path.stripPrefix? place.path (place.path.descend names) = some (Path.relative names) := by
  have nonempty : place ++ names ≠ [] := List.append_ne_nil_of_right_ne_nil _ h
  have isPrefix :
      Path.components place.path <+: Path.components (Location.path (place ++ names)) := by
    rw [Location.components_path, Location.components_path, List.map_append, ← List.cons_append]
    exact List.prefix_append _ _
  rw [Location.descend_path, Path.stripPrefix?, if_pos isPrefix, Location.front_path nonempty,
    Location.components_path]
  simp only [List.length_cons, List.length_map, Option.toList_some, List.length_nil,
    Nat.add_sub_cancel, Nat.add_one_ne_zero, if_false]
  rw [Path.dropComponents_names, Path.dropTrailing_names, Path.relative]

end HiddenText
