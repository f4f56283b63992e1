import HiddenText.Config.Settings
import HiddenText.Proofs.Results
import HiddenText.Proofs.Toml.Written

/-! # Fields of a configuration document

A document that fits is a list of fields, each under a key of its own.  The settings hold under
each key what its field gives, wherever that field stands (`get_gathered_eq_some_iff`). -/
set_option autoImplicit false

namespace HiddenText

namespace Config

open Toml (Plain)

inductive Key
  | sourceExtensions
  | documentationExtensions
  | ignoredNames
  | restrictedRanges
  | allowedCodepoints
  | sampleCap
  | maxListed
  | followLinks
  | threads
  deriving DecidableEq, Repr

namespace Key

def name : Key → String
  | .sourceExtensions => "source_extensions"
  | .documentationExtensions => "doc_extensions"
  | .ignoredNames => "ignored_names"
  | .restrictedRanges => "restricted_ranges"
  | .allowedCodepoints => "allowed_codepoints"
  | .sampleCap => "sample_cap"
  | .maxListed => "max_listed"
  | .followLinks => "follow_links"
  | .threads => "threads"

def Content : Key → Type
  | .sourceExtensions | .documentationExtensions | .ignoredNames | .restrictedRanges
  | .allowedCodepoints => List String
  | .sampleCap | .maxListed | .threads => Nat
  | .followLinks => Bool

def read : (k : Key) → Toml.Value → Except Mismatch k.Content
  | .sourceExtensions | .documentationExtensions | .ignoredNames | .restrictedRanges
  | .allowedCodepoints => Settings.stringsOf
  | .sampleCap | .maxListed | .threads => Settings.countOf
  | .followLinks => Settings.booleanOf

def plain : (k : Key) → k.Content → Plain
  | .sourceExtensions, texts | .documentationExtensions, texts | .ignoredNames, texts
  | .restrictedRanges, texts | .allowedCodepoints, texts => .strings texts
  | .sampleCap, n | .maxListed, n | .threads, n => .count n
  | .followLinks, b => .truth b

theorem name_injective : Function.Injective name := by
  intro k k' same
  cases k <;> cases k' <;> first | rfl | exact absurd same (by decide)

theorem notMem_fieldNames {name : String} (unknown : ∀ k : Key, name ≠ k.name) :
    name ∉ fieldNames := by
  have names : fieldNames = [sourceExtensions, documentationExtensions, ignoredNames,
      restrictedRanges, allowedCodepoints, sampleCap, maxListed, followLinks,
      threads].map Key.name := rfl
  rw [names, List.mem_map]
  rintro ⟨k, -, rfl⟩
  exact unknown k rfl

theorem isBareKey_name (k : Key) : Toml.IsBareKey k.name := by
  cases k <;> exact ⟨by decide, List.all_eq_true.mp (by decide)⟩

end Key

structure Field where
  key : Key
  content : key.Content

namespace Field

def plain (f : Field) : Plain := f.key.plain f.content

def entry (f : Field) : String × Toml.Value := (f.key.name, f.plain.value)

def ReadFrom (f : Field) (e : String × Toml.Value) : Prop :=
  e.1 = f.key.name ∧ f.key.read e.2 = .ok f.content

end Field

def Given (fields : List Field) (k : Key) (content : k.Content) : Prop := ⟨k, content⟩ ∈ fields

/-- A document that gives these fields, each in the way that it asks for. -/
def Document (text : List Char) (fields : List Field) : Prop :=
  ∃ entries, Toml.parse text = some entries ∧ List.Forall₂ Field.ReadFrom fields entries

end Config

namespace Settings

open Config (Key Field Given Document)

def get (s : Settings) : (k : Key) → Option k.Content
  | .sourceExtensions => s.sourceExtensions
  | .documentationExtensions => s.documentationExtensions
  | .ignoredNames => s.ignoredNames
  | .restrictedRanges => s.restrictedRanges
  | .allowedCodepoints => s.allowedCodepoints
  | .sampleCap => s.sampleCap
  | .maxListed => s.maxListed
  | .followLinks => s.followLinks
  | .threads => s.threads

def give (s : Settings) : Field → Settings
  | ⟨.sourceExtensions, texts⟩ => { s with sourceExtensions := some texts }
  | ⟨.documentationExtensions, texts⟩ => { s with documentationExtensions := some texts }
  | ⟨.ignoredNames, texts⟩ => { s with ignoredNames := some texts }
  | ⟨.restrictedRanges, texts⟩ => { s with restrictedRanges := some texts }
  | ⟨.allowedCodepoints, texts⟩ => { s with allowedCodepoints := some texts }
  | ⟨.sampleCap, n⟩ => { s with sampleCap := some n }
  | ⟨.maxListed, n⟩ => { s with maxListed := some n }
  | ⟨.followLinks, b⟩ => { s with followLinks := some b }
  | ⟨.threads, n⟩ => { s with threads := some n }

def gathered (fields : List Field) : Settings := fields.foldl give {}

variable {s s' : Settings} {fields : List Field} {entries : Toml.Entries}

/-! ## One field -/

theorem get_give_self (s : Settings) (k : Key) (content : k.Content) :
    (s.give ⟨k, content⟩).get k = some content := by
  cases k <;> rfl

theorem get_give_other (s : Settings) {f : Field} {k : Key} (other : f.key ≠ k) :
    (s.give f).get k = s.get k := by
  obtain ⟨k', content⟩ := f
  cases k' <;> cases k <;> first | rfl | exact absurd rfl other

theorem eq_of_get_eq (same : ∀ k, s.get k = s'.get k) : s = s' := by
  cases s
  cases s'
  rw [mk.injEq]
  exact ⟨same .sourceExtensions, same .documentationExtensions, same .ignoredNames,
    same .restrictedRanges, same .allowedCodepoints, same .sampleCap, same .maxListed,
    same .followLinks, same .threads⟩

theorem take_of_key (s : Settings) (k : Key) (v : Toml.Value) :
    s.take (k.name, v) = (k.read v).map fun content => s.give ⟨k, content⟩ := by
  cases k <;> rfl

theorem take_of_unknown {name : String} (unknown : ∀ k : Key, name ≠ k.name) (s : Settings)
    (v : Toml.Value) : s.take (name, v) = .error (.unknownField name) := by
  rw [take.eq_def]
  split
  case h_10 same =>
    obtain ⟨rfl, -⟩ := Prod.mk.inj same
    rfl
  all_goals
    rename_i same
    obtain ⟨rfl, -⟩ := Prod.mk.inj same
    exact absurd (by decide) (Config.Key.notMem_fieldNames unknown)

theorem take_eq_ok_iff {e : String × Toml.Value} :
    s.take e = .ok s' ↔ ∃ f : Field, f.ReadFrom e ∧ s' = s.give f := by
  obtain ⟨name, v⟩ := e
  constructor
  · intro taken
    by_cases known : ∃ k : Key, name = k.name
    · obtain ⟨k, rfl⟩ := known
      rw [take_of_key, map_eq_ok_iff] at taken
      obtain ⟨content, read, rfl⟩ := taken
      exact ⟨⟨k, content⟩, ⟨rfl, read⟩, rfl⟩
    · rw [take_of_unknown (not_exists.mp known)] at taken
      cases taken
  · rintro ⟨⟨k, content⟩, ⟨named, read⟩, rfl⟩
    obtain rfl : name = k.name := named
    rw [take_of_key, map_eq_ok_iff]
    exact ⟨content, read, rfl⟩

/-! ## All fields -/

theorem foldlM_take_eq_ok_iff : ∀ {entries : Toml.Entries} {s : Settings},
    entries.foldlM take s = .ok s' ↔
      ∃ fields, List.Forall₂ Field.ReadFrom fields entries ∧ s' = fields.foldl give s := by
  intro entries
  induction entries with
  | nil =>
      intro s
      rw [List.foldlM_nil, pure_eq_ok_iff]
      simp [eq_comm]
  | cons e entries ih =>
      intro s
      rw [List.foldlM_cons, bind_eq_ok_iff]
      constructor
      · rintro ⟨between, taken, others⟩
        obtain ⟨f, first, rfl⟩ := take_eq_ok_iff.mp taken
        obtain ⟨fields, rest, rfl⟩ := ih.mp others
        exact ⟨f :: fields, .cons first rest, rfl⟩
      · rintro ⟨fields, read, rfl⟩
        cases read with
        | cons first rest =>
            exact ⟨_, take_eq_ok_iff.mpr ⟨_, first, rfl⟩, ih.mpr ⟨_, rest, rfl⟩⟩

theorem ofEntries_eq_ok_iff : ofEntries entries = .ok s ↔
    ∃ fields, List.Forall₂ Field.ReadFrom fields entries ∧ s = gathered fields :=
  foldlM_take_eq_ok_iff

theorem get_foldl_give_of_absent {k : Key} : ∀ {fields : List Field} {s : Settings},
    k ∉ fields.map Field.key → (fields.foldl give s).get k = s.get k := by
  intro fields
  induction fields with
  | nil => intro s _; rfl
  | cons f fields ih =>
      intro s absent
      rw [List.map_cons, List.mem_cons, not_or] at absent
      rw [List.foldl_cons, ih absent.2, get_give_other s (Ne.symm absent.1)]

theorem get_foldl_give_of_given {k : Key} {content : k.Content} : ∀ {fields : List Field}
    {s : Settings}, (fields.map Field.key).Nodup → Given fields k content →
    (fields.foldl give s).get k = some content := by
  intro fields
  induction fields with
  | nil => intro s _ given; cases given
  | cons f fields ih =>
      intro s distinct given
      obtain ⟨new, distinct⟩ := List.nodup_cons.mp distinct
      rw [List.foldl_cons]
      rcases List.mem_cons.mp given with rfl | later
      · rw [get_foldl_give_of_absent new, get_give_self]
      · exact ih distinct later

variable (distinct : (fields.map Field.key).Nodup)

include distinct

theorem get_gathered_eq_some_iff {k : Key} {content : k.Content} :
    (gathered fields).get k = some content ↔ Given fields k content := by
  constructor
  · intro held
    by_contra other
    by_cases known : k ∈ fields.map Field.key
    · obtain ⟨⟨k', content'⟩, mem, rfl⟩ := List.mem_map.mp known
      have held' := get_foldl_give_of_given distinct mem (s := {})
      obtain rfl := Option.some.inj (held'.symm.trans held)
      exact other mem
    · have held' : (gathered fields).get k = none := by
        rw [gathered, get_foldl_give_of_absent known]
        cases k <;> rfl
      rw [held'] at held
      cases held
  · exact get_foldl_give_of_given distinct

theorem get_gathered_eq_none_iff {k : Key} :
    (gathered fields).get k = none ↔ ∀ content, ¬ Given fields k content := by
  rw [Option.eq_none_iff_forall_ne_some]
  simp only [ne_eq, get_gathered_eq_some_iff distinct]

theorem gathered_eq_of_perm {fields' : List Field} (perm : fields'.Perm fields) :
    gathered fields' = gathered fields := by
  have distinct' := (perm.map Field.key).nodup_iff.mpr distinct
  refine eq_of_get_eq fun k => Option.ext fun content => ?_
  rw [get_gathered_eq_some_iff distinct', get_gathered_eq_some_iff distinct]
  exact perm.mem_iff

end Settings

namespace Config

open Toml (Plain)

variable {text : List Char} {fields : List Field}

theorem map_name_eq {entries : Toml.Entries} (read : List.Forall₂ Field.ReadFrom fields entries) :
    fields.map (fun f => f.key.name) = entries.map Prod.fst := by
  induction read with
  | nil => rfl
  | cons first _ ih => rw [List.map_cons, List.map_cons, ih, first.1]

/-- Each key stands once, since no document has a key twice. -/
theorem Document.distinct (h : Document text fields) : (fields.map Field.key).Nodup := by
  obtain ⟨entries, parsed, read⟩ := h
  have names := (Toml.sound_of_parse parsed).distinct
  rw [← map_name_eq read, ← Function.comp_def, ← List.map_map] at names
  exact names.of_map

theorem readFrom_entry (f : Field) : f.ReadFrom f.entry := by
  obtain ⟨k, content⟩ := f
  have strings : ∀ texts : List String,
      Settings.stringsOf (Plain.strings texts).value = .ok texts := by
    intro texts
    refine mapM_eq_ok_iff.mpr ?_
    rw [List.map_map]
    rfl
  refine ⟨rfl, ?_⟩
  cases k with
  | sourceExtensions | documentationExtensions | ignoredNames | restrictedRanges
  | allowedCodepoints => exact strings content
  | sampleCap | maxListed | threads | followLinks => rfl

def write (fields : List Field) : List Char :=
  Toml.write (fields.map fun f => (f.key.name, f.plain))

theorem document_write (distinct : (fields.map Field.key).Nodup)
    (fits : ∀ f ∈ fields, f.plain.Fits) : Document (write fields) fields := by
  have names : ((fields.map fun f => (f.key.name, f.plain)).map Prod.fst).Nodup := by
    rw [List.map_map]
    have named := distinct.map Key.name_injective
    rwa [List.map_map] at named
  have read := Toml.parse_write (List.forall_mem_map.mpr fun f _ => f.key.isBareKey_name)
    (List.forall_mem_map.mpr fits) names
  rw [List.map_map] at read
  refine ⟨_, read, ?_⟩
  rw [List.forall₂_map_right_iff, List.forall₂_same]
  exact fun f _ => readFrom_entry f

end Config
end HiddenText
