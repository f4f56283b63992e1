import HiddenText.Toml.Document
import Mathlib.Data.List.Nodup

/-! # What every document has

The table that a document makes has each key once, and its integers are of 64 bits
(`sound_of_parse`).  Readers are followed to what they may return; each line then keeps the tables
in that shape. -/
set_option autoImplicit false

namespace HiddenText.Toml

def Value.Fits : Value → Prop
  | .integer n => -0x8000000000000000 ≤ n ∧ n < 0x8000000000000000
  | _ => True

theorem Value.fits_table (form : Form) (entries : List (String × Value)) :
    (Value.table form entries).Fits := trivial

theorem Value.fits_tables (elements : List Value) : (Value.tables elements).Fits := trivial

structure Entries.Sound (entries : Entries) : Prop where
  fit : ∀ e ∈ entries, e.2.Fits
  distinct : (entries.map Prod.fst).Nodup

def Line.Fits : Line → Prop
  | .entry _ _ value => value.Fits
  | _ => True

namespace Reader

variable {α β : Type} {P : α → Prop} {Q : β → Prop} {r r' : Reader α}

/-! ## What a reader may return -/

def Only (P : α → Prop) (r : Reader α) : Prop :=
  ∀ text a rest, r text = some (a, rest) → P a

theorem only_pure {a : α} (h : P a) : Only P (pure a) := by
  intro text b rest read
  obtain ⟨rfl, -⟩ := Prod.mk.inj (Option.some.inj read)
  exact h

theorem only_failure : Only P failure := nofun

theorem Only.bind {f : α → Reader β} (h : Only P r) (h' : ∀ a, P a → Only Q (f a)) :
    Only Q (r >>= f) := by
  intro text b rest read
  obtain ⟨⟨a, between⟩, first, second⟩ := Option.bind_eq_some_iff.mp
    (show (r text).bind (fun p => f p.1 p.2) = some (b, rest) from read)
  exact h' a (h text a between first) between b rest second

/-- What is read first does not matter. -/
theorem only_bind {f : α → Reader β} (h : ∀ a, Only Q (f a)) : Only Q (r >>= f) :=
  Only.bind (P := fun _ => True) (fun _ _ _ _ => trivial) fun a _ => h a

theorem only_map {f : α → β} (h : ∀ a, Q (f a)) : Only Q (f <$> r) :=
  only_bind fun a => only_pure (h a)

theorem Only.orElse (h : Only P r) (h' : Only P r') : Only P (r <|> r') := by
  intro text a rest read
  have either : (r text).orElse (fun _ => r' text) = some (a, rest) := read
  cases first : r text with
  | none =>
      rw [first] at either
      exact h' text a rest either
  | some p =>
      rw [first] at either
      exact h text a rest (first.trans either)

theorem Only.seqLeft {s : Reader β} (h : Only P r) : Only P (r <* s) :=
  h.bind fun _ holds => only_bind fun _ => only_pure holds

theorem only_of_if {c : Prop} [Decidable c] (h : c → Only P r) (h' : ¬ c → Only P r') :
    Only P (if c then r else r') := by
  split
  case isTrue holds => exact h holds
  case isFalse fails => exact h' fails

theorem mem_gather (h : Only P r) (text : List Char) : ∀ a ∈ (gather r text).1, P a := by
  fun_induction gather r text with
  | case1 text none => exact List.forall_mem_nil _
  | case2 text a rest read less as rest' more ih =>
      rw [more] at ih
      exact List.forall_mem_cons.mpr ⟨h text a rest read, ih⟩
  | case3 text a rest read more => exact List.forall_mem_nil _

theorem Only.repeated (h : Only P r) : Only (fun as => ∀ a ∈ as, P a) (repeated r) := by
  intro text as rest read
  obtain rfl : (gather r text).1 = as := congrArg Prod.fst (Option.some.inj read)
  exact mem_gather h text

/-! ## Values -/

theorem only_inRange (n : Int) : Only Value.Fits (inRange n) :=
  only_of_if (fun within => only_pure within) fun _ => only_failure

theorem only_scalar : Only Value.Fits scalar := by
  have booleans : Only Value.Fits boolean :=
    (only_map fun _ => trivial).orElse (only_map fun _ => trivial)
  have moments : Only Value.Fits moment :=
    (only_bind fun _ => only_bind fun _ => only_pure trivial).orElse (only_map fun _ => trivial)
  have decimals : Only Value.Fits decimalFloat := by
    refine only_bind fun _ => only_bind fun _ => only_bind fun _ => ?_
    have ending : ∀ x, Only Value.Fits (if x = .infinite false then failure else pure (.float x)) :=
      fun _ => only_of_if (fun _ => only_failure) fun _ => only_pure trivial
    exact only_of_if (fun _ => only_bind fun _ => ending _) fun _ => only_bind fun _ => ending _
  have specials : Only Value.Fits specialFloat := only_bind fun _ =>
    (only_map fun _ => trivial).orElse (only_map fun _ => trivial)
  have based : ∀ marker base, Only Value.Fits (Reader.based marker base) := fun _ _ =>
    only_bind fun _ => only_bind fun _ => only_inRange _
  have integers : Only Value.Fits integer := (based _ _).orElse <| (based _ _).orElse <|
    (based _ _).orElse <| only_bind fun _ => only_bind fun _ => only_inRange _
  exact (only_map fun _ => trivial).orElse <| booleans.orElse <| moments.orElse <|
    (decimals.orElse specials).orElse integers

theorem only_value (depth : Nat) : Only Value.Fits (value depth) := by
  cases depth with
  | zero => exact only_scalar
  | succ depth =>
      have arrays : Only Value.Fits (array (value depth)) := by
        refine only_bind fun _ => only_bind fun items => ?_
        have closing : Only Value.Fits (do gap; char ']'; pure (.array items)) :=
          only_bind fun _ => only_bind fun _ => only_pure trivial
        exact only_of_if (fun _ => only_bind fun _ => closing) fun _ => closing
      have tables : Only Value.Fits (inlineTable (value depth)) := by
        refine only_bind fun _ => only_bind fun pairs => only_bind fun _ => only_bind fun _ => ?_
        dsimp only
        split
        · exact only_pure (Value.fits_table _ _)
        · exact only_failure
      exact only_scalar.orElse (arrays.orElse tables)

theorem only_line : Only Line.Fits line := by
  have pairs : Only (fun p => p.2.Fits) (pair (value nestingLimit)) :=
    only_bind fun _ => only_bind fun _ => only_bind fun _ =>
      (only_value _).bind fun _ fits => only_pure fits
  exact (only_map fun _ => trivial).orElse <| (only_map fun _ => trivial).orElse <|
    (only_bind fun _ => only_bind fun _ => only_bind fun _ => only_bind fun _ =>
      only_pure trivial).orElse <|
    (only_bind fun _ => only_bind fun _ => only_bind fun _ => only_bind fun _ =>
      only_pure trivial).orElse <|
      pairs.bind fun _ fits => only_bind fun _ => only_pure fits

theorem only_lines : Only (fun found => ∀ l ∈ found, l.Fits) lines :=
  only_bind fun _ => only_bind fun _ => only_line.seqLeft.repeated.bind fun _ fit =>
    only_bind fun _ => only_pure fit

end Reader

/-! ## Tables -/

namespace Entries

variable {entries entries' : Entries} {key : String} {v : Value}

theorem lookup_eq_none_iff : entries.lookup key = none ↔ key ∉ entries.map Prod.fst := by
  rw [List.lookup_eq_none_iff, List.mem_map, not_exists]
  refine forall_congr' fun e => ?_
  rw [not_and, bne_iff_ne, ne_comm]

theorem sound_nil : Sound [] := ⟨List.forall_mem_nil _, List.nodup_nil⟩

theorem Sound.append (h : entries.Sound) (new : entries.lookup key = none) (fits : v.Fits) :
    Sound (entries ++ [(key, v)]) := by
  refine ⟨List.forall_mem_append.mpr ⟨h.fit, List.forall_mem_singleton.mpr fits⟩, ?_⟩
  rw [List.map_append, List.map_singleton, List.nodup_append]
  refine ⟨h.distinct, List.nodup_singleton _, fun k mem k' mem' => ?_⟩
  obtain rfl := List.mem_singleton.mp mem'
  rintro rfl
  exact lookup_eq_none_iff.mp new mem

theorem mem_keys_put {k : String} : ∀ {entries : Entries},
    k ∈ (put key v entries).map Prod.fst → k = key ∨ k ∈ entries.map Prod.fst := by
  intro entries
  induction entries with
  | nil => simp [put]
  | cons e entries ih =>
      intro mem
      rw [put] at mem
      split at mem
      · exact .inr mem
      · rcases List.mem_cons.mp mem with first | later
        · exact .inr (first ▸ List.mem_cons_self ..)
        · exact (ih later).imp_right (List.mem_cons_of_mem _)

theorem Sound.put (fits : v.Fits) : ∀ {entries : Entries}, entries.Sound →
    Sound (put key v entries) := by
  intro entries
  induction entries with
  | nil => exact fun _ => ⟨List.forall_mem_singleton.mpr fits, List.nodup_singleton _⟩
  | cons e entries ih =>
      intro h
      obtain ⟨first, others⟩ := List.forall_mem_cons.mp h.fit
      obtain ⟨new, distinct⟩ := List.nodup_cons.mp h.distinct
      rw [Entries.put]
      split
      · exact ⟨List.forall_mem_cons.mpr ⟨fits, others⟩, h.distinct⟩
      case isFalse other =>
        have rest := ih ⟨others, distinct⟩
        refine ⟨List.forall_mem_cons.mpr ⟨first, rest.fit⟩, List.nodup_cons.mpr ⟨?_, rest.distinct⟩⟩
        exact fun mem => (mem_keys_put mem).elim other new

theorem Sound.erase (h : entries.Sound) : Sound (erase key entries) :=
  ⟨fun e mem => h.fit e (List.mem_filter.mp mem).1,
    (List.filter_sublist.map _).nodup h.distinct⟩

/-- Below the top there are tables all the way down; only a change of the top itself matters. -/
theorem Sound.update {α : Type} {dotted : Bool} {change : Form → Entries → Option (α × Entries)}
    (changes : ∀ form inner a inner', inner.Sound → change form inner = some (a, inner') →
      inner'.Sound) {path : List String} {form : Form} {a : α} (h : entries.Sound)
    (updated : update dotted change path form entries = some (a, entries')) : entries'.Sound := by
  cases path with
  | nil => exact changes form entries a entries' h updated
  | cons key path =>
      rw [Entries.update] at updated
      split at updated
      case h_1 new =>
        obtain ⟨⟨b, inner⟩, -, done⟩ := Option.bind_eq_some_iff.mp updated
        obtain ⟨-, rfl⟩ := Prod.mk.inj (Option.some.inj done)
        exact h.append new (Value.fits_table _ _)
      case h_2 =>
        split at updated
        · cases updated
        · obtain ⟨⟨b, inner⟩, -, done⟩ := Option.bind_eq_some_iff.mp updated
          obtain ⟨-, rfl⟩ := Prod.mk.inj (Option.some.inj done)
          exact h.put (Value.fits_table _ _)
      case h_3 =>
        split at updated
        · obtain ⟨⟨b, inner⟩, -, done⟩ := Option.bind_eq_some_iff.mp updated
          obtain ⟨-, rfl⟩ := Prod.mk.inj (Option.some.inj done)
          exact h.put (Value.fits_tables _)
        · cases updated
      case h_4 => cases updated

theorem Sound.add {path : List String} (h : entries.Sound) (fits : v.Fits)
    (added : entries.add path key v = some entries') : entries'.Sound := by
  obtain ⟨⟨u, result⟩, updated, done⟩ := Option.bind_eq_some_iff.mp added
  obtain rfl := Option.some.inj done
  refine h.update ?_ updated
  intro form inner a inner' h changed
  split at changed
  · cases changed
  · split at changed
    · cases changed
    case isFalse new =>
      obtain ⟨-, rfl⟩ := Prod.mk.inj (Option.some.inj changed)
      exact h.append (Option.not_isSome_iff_eq_none.mp new) fits

end Entries

/-! ## Gathering -/

/-- The complete tables are sound, and so is what is being read if it stays where it is. -/
structure Draft.Sound (d : Draft) : Prop where
  done : d.done.Sound
  current : d.target = .root → d.current.Sound

namespace Draft

variable {d d' : Draft} {entries : Entries}

theorem Sound.close (h : d.Sound) (closed : d.close = some entries) : entries.Sound := by
  rw [Draft.close] at closed
  split at closed
  case h_1 top =>
    obtain rfl := Option.some.inj closed
    exact h.current top
  case h_2 =>
    obtain ⟨⟨u, done⟩, updated, last⟩ := Option.bind_eq_some_iff.mp closed
    obtain rfl := Option.some.inj last
    refine h.done.update ?_ updated
    intro form inner a inner' h changed
    obtain ⟨-, rfl⟩ := Prod.mk.inj (Option.some.inj changed)
    exact h.put (Value.fits_table _ _)
  case h_3 =>
    obtain ⟨⟨u, done⟩, updated, last⟩ := Option.bind_eq_some_iff.mp closed
    obtain rfl := Option.some.inj last
    refine h.done.update ?_ updated
    intro form inner a inner' h changed
    split at changed
    · obtain ⟨-, rfl⟩ := Prod.mk.inj (Option.some.inj changed)
      exact h.put (Value.fits_tables _)
    · cases changed

theorem sound_openTable {path : List String} {key : String} (h : entries.Sound)
    (opened : openTable entries path key = some d) : d.Sound := by
  obtain ⟨⟨current, done⟩, updated, last⟩ := Option.bind_eq_some_iff.mp opened
  obtain rfl := Option.some.inj last
  refine ⟨h.update ?_ updated, nofun⟩
  intro form inner a inner' h changed
  split at changed
  · obtain ⟨-, rfl⟩ := Prod.mk.inj (Option.some.inj changed)
    exact h
  · obtain ⟨-, rfl⟩ := Prod.mk.inj (Option.some.inj changed)
    exact h.erase
  · cases changed

theorem sound_openElement {path : List String} {key : String} (h : entries.Sound)
    (opened : openElement entries path key = some d) : d.Sound := by
  obtain ⟨⟨u, done⟩, updated, last⟩ := Option.bind_eq_some_iff.mp opened
  obtain rfl := Option.some.inj last
  refine ⟨h.update ?_ updated, nofun⟩
  intro form inner a inner' h changed
  split at changed
  case h_1 new =>
    obtain ⟨-, rfl⟩ := Prod.mk.inj (Option.some.inj changed)
    exact h.append new (Value.fits_tables _)
  case h_2 =>
    obtain ⟨-, rfl⟩ := Prod.mk.inj (Option.some.inj changed)
    exact h
  case h_3 => cases changed

theorem Sound.add (h : d.Sound) {l : Line} (fits : l.Fits) (added : d.add l = some d') :
    d'.Sound := by
  cases l with
  | blank =>
      obtain rfl := Option.some.inj added
      exact h
  | entry path key v =>
      obtain ⟨current, placed, last⟩ := Option.bind_eq_some_iff.mp added
      obtain rfl := Option.some.inj last
      exact ⟨h.done, fun top => (h.current top).add fits placed⟩
  | header path key =>
      obtain ⟨done, closed, opened⟩ := Option.bind_eq_some_iff.mp added
      exact sound_openTable (h.close closed) opened
  | element path key =>
      obtain ⟨done, closed, opened⟩ := Option.bind_eq_some_iff.mp added
      exact sound_openElement (h.close closed) opened

theorem Sound.foldlM_add : ∀ {lines : List Line} {d : Draft}, (∀ l ∈ lines, l.Fits) → d.Sound →
    lines.foldlM Draft.add d = some d' → d'.Sound := by
  intro lines
  induction lines with
  | nil =>
      intro d _ h gathered
      obtain rfl := Option.some.inj gathered
      exact h
  | cons l lines ih =>
      intro d fit h gathered
      obtain ⟨first, others⟩ := List.forall_mem_cons.mp fit
      rw [List.foldlM_cons] at gathered
      obtain ⟨next, added, rest⟩ := Option.bind_eq_some_iff.mp gathered
      exact ih others (h.add first added) rest

end Draft

theorem sound_of_parse {text : List Char} {entries : Entries} (read : parse text = some entries) :
    entries.Sound := by
  obtain ⟨⟨lines, rest⟩, found, gathered⟩ := Option.bind_eq_some_iff.mp read
  obtain ⟨draft, folded, closed⟩ := Option.bind_eq_some_iff.mp gathered
  have start : Draft.Sound {} := ⟨Entries.sound_nil, fun _ => Entries.sound_nil⟩
  exact (start.foldlM_add (Reader.only_lines _ _ _ found) folded).close closed

end HiddenText.Toml
