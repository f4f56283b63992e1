import HiddenText.Config
import HiddenText.Proofs.Ascending
import HiddenText.Proofs.Codepoint.Spelling
import HiddenText.Proofs.Text.LowerCase
import Mathlib.Data.Finset.Max
import Mathlib.Data.String.Basic

/-! # The form of kept extensions

A kept extension is not empty, is in lower case, does not begin with a dot and does not end with
white space (`keptForm_of_mem`).  It may begin with white space, since a dot before white space is
dropped after trimming; just then normalizing it once more gives another text, a shorter one
(`normalizeExtension_eq_self_iff`). -/
set_option autoImplicit false

namespace HiddenText

/-! ## Trimming -/

namespace Blank

theorem head?_trim {text : List Char} {c : Char} (first : (trim text).head? = some c) :
    isBlank c = false := by
  have front : trim text <+: text.dropWhile isBlank := by
    rw [trim, ← List.reverse_suffix, List.reverse_reverse]
    exact List.dropWhile_suffix _
  obtain ⟨after, whole⟩ := front
  have first' : (text.dropWhile isBlank).head? = some c := by
    rw [← whole, List.head?_append, first, Option.some_or]
  have kept := List.head?_dropWhile_not isBlank text
  rw [first'] at kept
  simpa using kept

theorem getLast?_trim {text : List Char} {c : Char} (last : (trim text).getLast? = some c) :
    isBlank c = false := by
  rw [trim, List.getLast?_reverse] at last
  have kept := List.head?_dropWhile_not isBlank (text.dropWhile isBlank).reverse
  rw [last] at kept
  simpa using kept

theorem trim_eq_self {text : List Char} (first : ∀ c, text.head? = some c → isBlank c = false)
    (last : ∀ c, text.getLast? = some c → isBlank c = false) : trim text = text := by
  have front : text.dropWhile isBlank = text := by
    cases text with
    | nil => rfl
    | cons c rest => exact List.dropWhile_cons_of_neg (by simp [first c rfl])
  have back : text.reverse.dropWhile isBlank = text.reverse := by
    cases turned : text.reverse with
    | nil => rfl
    | cons c rest =>
        have final : text.getLast? = some c := by rw [← List.head?_reverse, turned]; rfl
        exact List.dropWhile_cons_of_neg (by simp [last c final])
  rw [trim, front, back, List.reverse_reverse]

end Blank

namespace Config

/-! ## Normalizing -/

/-- What is left of an extension before it is put into lower case. -/
def bareText (extension : String) : List Char :=
  (Blank.trim extension.toList).dropWhile (· = '.')

theorem toList_normalizeExtension (extension : String) :
    (normalizeExtension extension).toList = LowerCase.ofText (bareText extension) :=
  String.toList_ofList

theorem bareText_suffix (extension : String) :
    bareText extension <:+ Blank.trim extension.toList := List.dropWhile_suffix _

theorem inert_dot : LowerCase.Inert '.' := by decide

structure KeptForm (extension : String) : Prop where
  nonempty : extension ≠ ""
  lowerCase : LowerCase.ofText extension.toList = extension.toList
  dotless : extension.toList.head? ≠ some '.'
  closed : ∀ c, extension.toList.getLast? = some c → Blank.isBlank c = false

theorem keptForm_normalizeExtension {extension : String}
    (nonempty : normalizeExtension extension ≠ "") : KeptForm (normalizeExtension extension) := by
  refine ⟨nonempty, ?_, ?_, ?_⟩
  · rw [toList_normalizeExtension, LowerCase.ofText_ofText]
  · intro dotted
    rw [toList_normalizeExtension] at dotted
    have first := LowerCase.head?_after dotted inert_dot
    have kept := List.head?_dropWhile_not (· = '.') (Blank.trim extension.toList)
    rw [bareText] at first
    rw [first] at kept
    simp at kept
  · intro c last
    rw [toList_normalizeExtension] at last
    by_contra blank
    rw [Bool.not_eq_false] at blank
    have last' := LowerCase.getLast?_after (.inr blank) last
    have final : (Blank.trim extension.toList).getLast? = some c := by
      obtain ⟨before, whole⟩ := bareText_suffix extension
      rw [← whole, List.getLast?_append, last', Option.some_or]
    rw [Blank.getLast?_trim final] at blank
    cases blank

theorem mem_nameSet_iff {name : String} {entries : List String} :
    name ∈ nameSet entries ↔ name ∈ entries ∧ name ≠ "" := by
  rw [nameSet, Ascending.mem_ofList, List.mem_filter, decide_eq_true_iff]

theorem mem_extensionSet_iff {extension : String} {entries : List String} :
    extension ∈ extensionSet entries ↔
      (∃ entry ∈ entries, normalizeExtension entry = extension) ∧ extension ≠ "" := by
  rw [extensionSet, mem_nameSet_iff, List.mem_map]

theorem keptForm_of_mem {extension : String} {entries : List String}
    (mem : extension ∈ extensionSet entries) : KeptForm extension := by
  obtain ⟨⟨entry, -, rfl⟩, nonempty⟩ := mem_extensionSet_iff.mp mem
  exact keptForm_normalizeExtension nonempty

/-! ## Normalizing once more -/

namespace KeptForm

variable {extension : String}

theorem settled (h : KeptForm extension) : ∀ c ∈ extension.toList, LowerCase.Settled c := by
  intro c mem
  rw [← h.lowerCase] at mem
  exact LowerCase.settled_of_mem_ofText mem

theorem bareText_sublist (extension : String) :
    (bareText extension).Sublist extension.toList := by
  obtain ⟨before, after, -, -, whole⟩ := Blank.exists_trim extension.toList
  have inner : (Blank.trim extension.toList) <:+: extension.toList :=
    ⟨before, after, whole.symm⟩
  exact (bareText_suffix extension).sublist.trans inner.sublist

theorem toList_normalizeExtension_eq (h : KeptForm extension) :
    (normalizeExtension extension).toList = bareText extension := by
  rw [toList_normalizeExtension]
  exact LowerCase.ofText_of_settled fun c mem =>
    h.settled c ((bareText_sublist extension).subset mem)

theorem length_normalizeExtension_lt (h : KeptForm extension)
    (changed : normalizeExtension extension ≠ extension) :
    (normalizeExtension extension).toList.length < extension.toList.length := by
  have cut := bareText_sublist extension
  rw [← h.toList_normalizeExtension_eq] at cut
  refine Nat.lt_of_le_of_ne cut.length_le fun same => changed ?_
  exact String.toList_inj.mp (cut.eq_of_length same)

theorem normalizeExtension_eq_self_iff (h : KeptForm extension) :
    normalizeExtension extension = extension ↔
      ∀ c, extension.toList.head? = some c → Blank.isBlank c = false := by
  rw [← String.toList_inj, h.toList_normalizeExtension_eq]
  constructor
  · intro same c first
    have suffix := bareText_suffix extension
    obtain ⟨before, after, -, -, whole⟩ := Blank.exists_trim extension.toList
    have long := suffix.length_le
    have total := congrArg List.length whole
    rw [same] at suffix long
    simp only [List.length_append] at total
    have uncut : extension.toList = Blank.trim extension.toList :=
      suffix.eq_of_length (by omega)
    rw [uncut] at first
    exact Blank.head?_trim first
  · intro first
    rw [bareText, Blank.trim_eq_self first h.closed]
    cases text : extension.toList with
    | nil => rfl
    | cons c rest =>
        refine List.dropWhile_cons_of_neg ?_
        have other := h.dotless
        rw [text, List.head?_cons, ne_eq, Option.some.injEq] at other
        simpa using other

end KeptForm

/-! ## Sets -/

theorem nameSet_eq_iff {entries entries' : List String} : nameSet entries = nameSet entries' ↔
    ∀ name, name ∈ nameSet entries ↔ name ∈ nameSet entries' := by
  constructor
  · intro same name
    rw [same]
  · intro same
    rw [nameSet, nameSet, Ascending.ofList_eq_iff]
    intro name
    have kept : ∀ es : List String, name ∈ es.filter (· ≠ "") ↔ name ∈ nameSet es :=
      fun es => (Ascending.mem_ofList name _).symm
    exact (kept entries).trans ((same name).trans (kept entries').symm)

theorem nameSet_nameSet (entries : List String) : nameSet (nameSet entries) = nameSet entries := by
  refine nameSet_eq_iff.mpr fun name => ?_
  rw [mem_nameSet_iff, mem_nameSet_iff, and_assoc, and_self]

/-- A set of extensions is normalized to itself exactly if none of them begins with white space.
Of those that do, one of the longest cannot come out again. -/
theorem extensionSet_extensionSet_iff (entries : List String) :
    extensionSet (extensionSet entries) = extensionSet entries ↔
      ∀ extension ∈ extensionSet entries, normalizeExtension extension = extension := by
  constructor
  · intro same
    by_contra broken
    push Not at broken
    obtain ⟨e, mem, changed⟩ := broken
    let changing := (extensionSet entries).toFinset.filter fun e => normalizeExtension e ≠ e
    have some : changing.Nonempty := ⟨e, by simp [changing, mem, changed]⟩
    obtain ⟨longest, known, most⟩ := changing.exists_max_image (·.toList.length) some
    obtain ⟨kept, alters⟩ : longest ∈ extensionSet entries ∧
        normalizeExtension longest ≠ longest := by simpa [changing] using known
    rw [← same] at kept
    obtain ⟨⟨source, kept', comes⟩, -⟩ := mem_extensionSet_iff.mp kept
    by_cases fixed : normalizeExtension source = source
    · rw [fixed] at comes
      exact alters (comes ▸ fixed)
    · have longer := (keptForm_of_mem kept').length_normalizeExtension_lt fixed
      rw [comes] at longer
      exact Nat.not_lt.mpr (most source (by simp [changing, kept', fixed])) longer
  · intro fixed
    refine nameSet_eq_iff.mpr fun extension => ?_
    rw [← extensionSet, ← extensionSet, mem_extensionSet_iff]
    constructor
    · rintro ⟨⟨entry, mem, rfl⟩, -⟩
      rwa [fixed entry mem]
    · intro mem
      exact ⟨⟨extension, mem, fixed extension mem⟩, (keptForm_of_mem mem).nonempty⟩

end Config
end HiddenText
