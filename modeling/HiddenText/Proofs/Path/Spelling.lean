import HiddenText.Proofs.Path.Descent
import Mathlib.Logic.Relation

/-! # Spellings of a path

A slash may be written several times or with a dot behind it, and at its end a path may go on with
a slash or with a slash and a dot.  Paths have the same components exactly if one is respelled into
the other in these ways (`respelled_iff`).  Only the first component can be other than what a
segment stands for, and that one is no name; so what stands before a slash and what stands behind
it have their names apart (`names_append`). -/
set_option autoImplicit false

namespace HiddenText.Path

/-! ## Where a path begins -/

theorem component?_eq_none_iff {s : Bytes} : component? s = none ↔ s = [] ∨ s = dot := by
  rw [component?]
  split
  · exact iff_of_true rfl ‹_›
  · split <;> exact iff_of_false (Option.some_ne_none _) ‹_›

/-- At the front stands nothing, the root, this directory, or a segment with a component. -/
theorem front_cases (p : Path) : p = [] ∨
    (∃ more, more ≠ [] ∧ segments p = [] :: more ∧ front p = (some .root, more)) ∨
    (∃ more, segments p = dot :: more ∧ front p = (some .here, more)) ∨
    ∃ s more, component? s ≠ none ∧ segments p = s :: more ∧ front p = (none, s :: more) := by
  cases split : segments p with
  | nil => exact absurd split (segments_ne_nil p)
  | cons s more =>
      cases s with
      | nil =>
          cases more with
          | nil => exact .inl (segments_eq_singleton_nil_iff.mp split)
          | cons second more =>
              exact .inr (.inl ⟨_, List.cons_ne_nil _ _, rfl, front_of_absolute split⟩)
      | cons b s =>
          by_cases isDot : b :: s = dot
          · refine .inr (.inr (.inl ⟨more, by rw [isDot], ?_⟩))
            rw [isDot] at split
            simp [front, split, dot]
          · refine .inr (.inr (.inr ⟨b :: s, more, ?_, rfl, ?_⟩))
            · rw [ne_eq, component?_eq_none_iff]
              exact not_or.mpr ⟨List.cons_ne_nil b s, isDot⟩
            · exact front_of_segments split (List.cons_ne_nil b s) isDot

theorem components_ne_nil {p : Path} (some : p ≠ []) : components p ≠ [] := by
  rcases front_cases p with none | ⟨more, -, -, begins⟩ | ⟨more, -, begins⟩ |
    ⟨s, more, stands, -, begins⟩
  · exact absurd none some
  · rw [components, begins]
    exact List.cons_ne_nil _ _
  · rw [components, begins]
    exact List.cons_ne_nil _ _
  · obtain ⟨c, is⟩ := Option.ne_none_iff_exists'.mp stands
    rw [components, begins, List.filterMap_cons_some is]
    exact List.cons_ne_nil _ _

/-- Where a path begins is settled before its first slash that is not its first byte. -/
theorem front_append {a : Path} (some : a ≠ []) (p : Path) :
    (front (a ++ slash :: p)).1 = (front a).1 := by
  have split := segments_append a p
  rcases front_cases a with none | ⟨more, further, before, begins⟩ | ⟨more, before, begins⟩ |
    ⟨s, more, stands, before, begins⟩
  · exact absurd none some
  · obtain ⟨second, more, rfl⟩ := List.exists_cons_of_ne_nil further
    rw [before] at split
    rw [front_of_absolute split, begins]
  · rw [before] at split
    rw [front, split, begins, dot]
    rfl
  · rw [before] at split
    rw [ne_eq, component?_eq_none_iff, not_or] at stands
    rw [front_of_segments split stands.1 stands.2, begins]

/-! ## What the segments stand for -/

/-- What the segments stand for, wherever they are: names and parents. -/
def moves (p : Path) : List Component := (segments p).filterMap component?

theorem moves_append (a p : Path) : moves (a ++ slash :: p) = moves a ++ moves p := by
  rw [moves, segments_append, List.filterMap_append, moves, moves]

theorem moves_slash (p : Path) : moves (slash :: p) = moves p := moves_append [] p

theorem moves_of_segment {s : Bytes} (whole : slash ∉ s) : moves s = (component? s).toList := by
  rw [moves, segments_of_slash_notMem whole]
  cases is : component? s with
  | none => rw [List.filterMap_cons_none is]; rfl
  | some c => rw [List.filterMap_cons_some is]; rfl

theorem filterMap_front (p : Path) : (front p).2.filterMap component? = moves p := by
  rw [moves]
  rcases front_cases p with rfl | ⟨more, -, split, begins⟩ | ⟨more, split, begins⟩ |
    ⟨s, more, -, split, begins⟩
  · rfl
  · rw [begins, split, List.filterMap_cons_none rfl]
  · rw [begins, split, List.filterMap_cons_none rfl]
  · rw [begins, split]

theorem components_eq (p : Path) : components p = (front p).1.toList ++ moves p := by
  rw [components, filterMap_front]

theorem components_append {a : Path} (some : a ≠ []) (p : Path) :
    components (a ++ slash :: p) = components a ++ moves p := by
  rw [components_eq, front_append some, moves_append, components_eq, List.append_assoc]

theorem components_slash (p : Path) : components (slash :: p) = .root :: moves p := by
  obtain ⟨second, more, split⟩ := segments_of_isAbsolute (p := slash :: p) rfl
  rw [components_eq, front_of_absolute split, moves_slash]
  rfl

/-- Behind a slash, only what the segments stand for counts. -/
theorem components_append_congr (a : Path) {p q : Path} (same : moves p = moves q) :
    components (a ++ slash :: p) = components (a ++ slash :: q) := by
  cases a with
  | nil => rw [List.nil_append, List.nil_append, components_slash, components_slash, same]
  | cons b a =>
      rw [components_append (List.cons_ne_nil b a), components_append (List.cons_ne_nil b a), same]

/-! ## Names -/

theorem name?_of_mem_front {p : Path} {c : Component} (first : (front p).1 = some c) :
    c.name? = none := by
  rcases front_cases p with rfl | ⟨more, -, -, begins⟩ | ⟨more, -, begins⟩ |
    ⟨s, more, -, -, begins⟩
  · cases first
  · rw [begins] at first
    cases first
    rfl
  · rw [begins] at first
    cases first
    rfl
  · rw [begins] at first
    cases first

theorem names_eq (p : Path) : names p = (moves p).filterMap Component.name? := by
  rw [names, components_eq, List.filterMap_append]
  cases first : (front p).1 with
  | none => rfl
  | some c =>
      rw [Option.toList_some, List.filterMap_cons_none (name?_of_mem_front first)]
      rfl

theorem names_append (a p : Path) : names (a ++ slash :: p) = names a ++ names p := by
  rw [names_eq, moves_append, List.filterMap_append, names_eq, names_eq]

theorem fileName?_eq (p : Path) : fileName? p = (moves p).getLast?.bind Component.name? := by
  rw [fileName?, components_eq, List.getLast?_append]
  cases (moves p).getLast? with
  | some c => rfl
  | none =>
      cases first : (front p).1 with
      | none => rfl
      | some c => exact name?_of_mem_front first

/-- A name at the end is the name of the whole path, whatever it is put behind. -/
theorem fileName?_append (a : Path) {p : Path} {name : Bytes} (named : fileName? p = some name) :
    fileName? (a ++ slash :: p) = some name := by
  rw [fileName?_eq] at named ⊢
  obtain ⟨c, last, isName⟩ := Option.bind_eq_some_iff.mp named
  rw [moves_append, List.getLast?_append, last]
  exact isName

/-- A segment that is a name.  To put in an empty one is only to double a slash. -/
def Ordinary (segment : Bytes) : Prop :=
  segment ≠ [] ∧ segment ≠ dot ∧ segment ≠ dotDot ∧ slash ∉ segment

instance (segment : Bytes) : Decidable (Ordinary segment) :=
  inferInstanceAs (Decidable (_ ∧ _ ∧ _ ∧ _))

theorem Ordinary.names_eq {segment : Bytes} (h : Ordinary segment) : names segment = [segment] := by
  obtain ⟨some, notDot, notDotDot, whole⟩ := h
  have is : component? segment = Option.some (.normal segment) := by
    rw [component?, if_neg (not_or.mpr ⟨some, notDot⟩), if_neg notDotDot]
  rw [Path.names_eq, moves_of_segment whole, is]
  rfl

/-! ## Respelling -/

/-- A path and the same path with one redundancy more. -/
inductive Respells : Path → Path → Prop
  | slashes (a b : Bytes) (n : Nat) :
      Respells (a ++ slash :: b) (a ++ (List.replicate (n + 1) slash ++ b))
  | here (a b : Bytes) : Respells (a ++ slash :: b) (a ++ slash :: (dot ++ slash :: b))
  | endSlash {p : Path} (some : p ≠ []) : Respells p (p ++ [slash])
  | endHere {p : Path} (some : p ≠ []) : Respells p (p ++ slash :: dot)

def Respelled : Path → Path → Prop := Relation.EqvGen Respells

theorem moves_replicate_slash (n : Nat) (p : Path) :
    moves (List.replicate n slash ++ p) = moves p := by
  induction n with
  | zero => rfl
  | succ n ih => rw [List.replicate_succ, List.cons_append, moves_slash, ih]

theorem Respells.components_eq {p q : Path} (h : Respells p q) : components p = components q := by
  cases h with
  | slashes a b n => exact components_append_congr a (moves_replicate_slash n b).symm
  | here a b => exact components_append_congr a (moves_append dot b).symm
  | endSlash some => exact ((components_append some []).trans (List.append_nil _)).symm
  | endHere some => exact ((components_append some dot).trans (List.append_nil _)).symm

theorem Respelled.components_eq {p q : Path} (h : Respelled p q) :
    components p = components q := by
  induction h with
  | rel p q step => exact step.components_eq
  | refl p => rfl
  | symm p q _ ih => exact ih.symm
  | trans p q r _ _ first second => exact first.trans second

namespace Respelled

theorem refl (p : Path) : Respelled p p := Relation.EqvGen.refl p

theorem symm {p q : Path} (h : Respelled p q) : Respelled q p := Relation.EqvGen.symm p q h

theorem trans {p q r : Path} (h : Respelled p q) (h' : Respelled q r) : Respelled p r :=
  Relation.EqvGen.trans p q r h h'

end Respelled

theorem Respells.respelled {p q : Path} (h : Respells p q) : Respelled p q :=
  Relation.EqvGen.rel p q h

theorem respelled_doubled (a b : Bytes) :
    Respelled (a ++ slash :: b) (a ++ slash :: slash :: b) := (Respells.slashes a b 1).respelled

/-- With something behind it, a redundancy at the end is one at the slash that follows. -/
theorem Respells.append {p q : Path} (h : Respells p q) (l : Bytes) :
    Respelled (p ++ slash :: l) (q ++ slash :: l) := by
  cases h with
  | slashes a b n =>
      have step := (Respells.slashes a (b ++ slash :: l) n).respelled
      simpa only [List.append_assoc, List.cons_append] using step
  | here a b =>
      have step := (Respells.here a (b ++ slash :: l)).respelled
      simpa only [List.append_assoc, List.cons_append] using step
  | endSlash =>
      have step := respelled_doubled p l
      simpa only [List.append_assoc, List.singleton_append] using step
  | endHere =>
      have step := (Respells.here p l).respelled
      simpa only [List.append_assoc, List.cons_append] using step

theorem Respelled.append {p q : Path} (h : Respelled p q) (l : Bytes) :
    Respelled (p ++ slash :: l) (q ++ slash :: l) := by
  induction h with
  | rel p q step => exact step.append l
  | refl p => exact .refl _
  | symm p q _ ih => exact ih.symm
  | trans p q r _ _ first second => exact first.trans second

/-- To join a name to a path that ends in a slash is to leave out one of two slashes. -/
theorem respelled_join {p : Path} (some : p ≠ []) (l : Bytes) :
    Respelled (p ++ slash :: l) (p.join l) := by
  by_cases isOpen : p.getLast? = Option.some slash
  · obtain ⟨a, rfl⟩ := List.getLast?_eq_some_iff.mp isOpen
    rw [join, if_pos (.inr isOpen), List.append_assoc, List.append_assoc]
    exact (respelled_doubled a l).symm
  · rw [join_of_isOpen ⟨some, isOpen⟩]
    exact .refl _

/-! ## One spelling for each list of components -/

def Component.bytes : Component → Bytes
  | .root => [slash]
  | .here => dot
  | .parent => dotDot
  | .normal name => name

def ofComponents (cs : List Component) : Path := cs.foldl (fun p c => p.join c.bytes) []

theorem ofComponents_concat (cs : List Component) (c : Component) :
    ofComponents (cs ++ [c]) = (ofComponents cs).join c.bytes := by
  rw [ofComponents, List.foldl_append, ofComponents, List.foldl_cons, List.foldl_nil]

theorem bytes_of_component? {s : Bytes} {c : Component} (is : component? s = some c) :
    c.bytes = s := by
  rw [component?] at is
  split at is
  · cases is
  · split at is
    · cases is
      exact ‹s = dotDot›.symm
    · cases is
      rfl

theorem exists_last_segment (p : Path) : slash ∉ p ∨
    ∃ a l, p = a ++ slash :: l ∧ slash ∉ l := by
  induction p with
  | nil => exact .inl List.not_mem_nil
  | cons b p ih =>
      rcases ih with whole | ⟨a, l, rfl, whole⟩
      · by_cases isSlash : b = slash
        · exact .inr ⟨[], p, by rw [isSlash]; rfl, whole⟩
        · exact .inl (List.not_mem_cons_of_ne_of_not_mem (Ne.symm isSlash) whole)
      · exact .inr ⟨b :: a, l, rfl, whole⟩

theorem respelled_end {a : Path} (some : a ≠ []) {l : Bytes} (nothing : component? l = none) :
    Respelled (a ++ slash :: l) a := by
  rcases component?_eq_none_iff.mp nothing with rfl | rfl
  · exact (Respells.endSlash some).respelled.symm
  · exact (Respells.endHere some).respelled.symm

theorem respelled_root {l : Bytes} (nothing : component? l = none) :
    Respelled (slash :: l) [slash] := by
  rcases component?_eq_none_iff.mp nothing with rfl | rfl
  · exact .refl _
  · have further := (Respells.endSlash (List.cons_ne_nil slash dot)).respelled
    exact further.trans (Respells.here [] []).respelled.symm

theorem ofComponents_of_segment {s : Bytes} (whole : slash ∉ s) :
    ofComponents (components s) = s := by
  cases is : component? s with
  | none => rcases component?_eq_none_iff.mp is with rfl | rfl <;> rfl
  | some c =>
      have stands : component? s ≠ none := is ▸ Option.some_ne_none c
      rw [ne_eq, component?_eq_none_iff, not_or] at stands
      rw [components, front_of_segments (segments_of_slash_notMem whole) stands.1 stands.2,
        List.filterMap_cons_some is]
      exact bytes_of_component? is

/-- Each path is a spelling of its components, joined.  The induction takes off its last segment. -/
theorem respelled_ofComponents (p : Path) : Respelled p (ofComponents (components p)) := by
  rcases exists_last_segment p with whole | ⟨a, l, split, whole⟩
  · rw [ofComponents_of_segment whole]
    exact .refl p
  · have shorter : a.length < p.length := by
      rw [split, List.length_append, List.length_cons]
      omega
    have before := respelled_ofComponents a
    have last := moves_of_segment whole
    rw [split]
    cases is : component? l with
    | none =>
        rw [is] at last
        by_cases none : a = []
        · rw [none, List.nil_append, components_slash, last]
          exact respelled_root is
        · rw [components_append none, last, Option.toList_none, List.append_nil]
          exact (respelled_end none is).trans before
    | some c =>
        rw [is] at last
        have written := bytes_of_component? is
        by_cases none : a = []
        · rw [none, List.nil_append, components_slash, last, ← written]
          exact .refl _
        · -- Joined to nothing, the segment would get no slash; but there is something before it.
          have some : ofComponents (components a) ≠ [] := by
            intro empty
            rw [empty] at before
            exact components_ne_nil none before.components_eq
          rw [components_append none, last, Option.toList_some, ofComponents_concat, written]
          exact (before.append l).trans (respelled_join some l)
termination_by p.length

theorem respelled_iff {p q : Path} : Respelled p q ↔ components p = components q := by
  constructor
  · exact Respelled.components_eq
  · intro same
    have left := respelled_ofComponents p
    rw [same] at left
    exact left.trans (respelled_ofComponents q).symm

end HiddenText.Path
