import HiddenText.Finding
import HiddenText.Proofs.Codepoint.RestrictedSet
import HiddenText.Proofs.Text.Utf8
import Mathlib.Data.Finset.Card
import Mathlib.Data.List.Induction

/-! # What a finding says of a text

The running tally of a text is its exact count of restricted characters, and the first of its
distinct restricted characters up to the cap; reading one more character keeps it so
(`read_ofText`).  So a finding tells just that of a text, and there is one exactly if there is
something to tell (`scanText_counts`). -/
set_option autoImplicit false

namespace HiddenText

/-! ## The tally of a text -/

def Tally.ofText (set : RestrictedSet) (cap : Nat) (text : List Char) : Tally :=
  { occurrences := text.countP (decide <| set.Restricts ·)
    samples := (text.filter (decide <| set.Restricts ·)).eraseDups.take cap }

theorem eraseDups_concat (cs : List Char) (c : Char) :
    (cs ++ [c]).eraseDups = if c ∈ cs then cs.eraseDups else cs.eraseDups ++ [c] := by
  rw [List.eraseDups_append]
  split
  · rename_i seen
    simp [List.removeAll, seen]
  · rename_i new
    simp [List.removeAll, new, List.eraseDups_cons]

/-- A bounded list of samples takes the next distinct character exactly while there is room. -/
theorem take_eraseDups_concat (cap : Nat) (cs : List Char) (c : Char) :
    (if (cs.eraseDups.take cap).length < cap ∧ c ∉ cs.eraseDups.take cap
      then cs.eraseDups.take cap ++ [c] else cs.eraseDups.take cap) =
      (cs ++ [c]).eraseDups.take cap := by
  rw [eraseDups_concat, List.length_take]
  by_cases full : cap ≤ cs.eraseDups.length
  · have kept : ¬ (min cap cs.eraseDups.length < cap ∧ c ∉ cs.eraseDups.take cap) := by
      omega
    rw [if_neg kept]
    split
    · rfl
    · rw [List.take_append_of_le_length full]
  · have all : cs.eraseDups.take cap = cs.eraseDups := List.take_of_length_le (by omega)
    rw [all]
    by_cases seen : c ∈ cs
    · rw [if_pos seen, if_neg (fun h => h.2 (List.mem_eraseDups.mpr seen)), all]
    · rw [if_neg seen, if_pos ⟨by omega, fun h => seen (List.mem_eraseDups.mp h)⟩]
      exact (List.take_of_length_le (by simp; omega)).symm

theorem read_ofText (set : RestrictedSet) (cap : Nat) (text : List Char) (c : Char) :
    Tally.read set cap (Tally.ofText set cap text) c = Tally.ofText set cap (text ++ [c]) := by
  rw [Tally.read]
  by_cases h : set.Restricts c
  · rw [if_pos ((set.contains_iff c).mpr h)]
    have counted : (text ++ [c]).countP (decide <| set.Restricts ·) =
        text.countP (decide <| set.Restricts ·) + 1 := by
      simp [h]
    have filtered : (text ++ [c]).filter (decide <| set.Restricts ·) =
        text.filter (decide <| set.Restricts ·) ++ [c] := by
      simp [h]
    rw [Tally.ofText, Tally.ofText, counted, filtered]
    exact congrArg (Tally.mk _) (take_eraseDups_concat cap _ c)
  · rw [if_neg (fun found => h ((set.contains_iff c).mp found))]
    simp [Tally.ofText, h]

theorem foldl_read_ofText (set : RestrictedSet) (cap : Nat) : ∀ rest text : List Char,
    rest.foldl (Tally.read set cap) (Tally.ofText set cap text) =
      Tally.ofText set cap (text ++ rest) := by
  intro rest
  induction rest with
  | nil => intro text; rw [List.append_nil]; rfl
  | cons c rest ih =>
      intro text
      rw [List.foldl_cons, read_ofText, ih, List.append_assoc]
      rfl

theorem foldl_read (set : RestrictedSet) (cap : Nat) (text : List Char) :
    text.foldl (Tally.read set cap) {} = Tally.ofText set cap text := by
  have := foldl_read_ofText set cap text []
  rwa [show Tally.ofText set cap [] = {} by simp [Tally.ofText]] at this

/-! ## Findings -/

/-- What a finding says of the text of a file: its path, the number of restricted characters, and
the first distinct ones in the order of their first appearance. -/
def Finding.ofText (path : String) (set : RestrictedSet) (cap : Nat) (text : List Char) : Finding :=
  { path := path
    occurrences := text.countP (decide <| set.Restricts ·)
    samples := (text.filter (decide <| set.Restricts ·)).eraseDups.take cap }

theorem scanText_eq_some_iff {path : String} {text : List Char} {set : RestrictedSet} {cap : Nat}
    {finding : Finding} :
    scanText path text set cap = some finding ↔
      (∃ c ∈ text, set.Restricts c) ∧ finding = .ofText path set cap text := by
  have clean : (Tally.ofText set cap text).occurrences = 0 ↔ ¬ ∃ c ∈ text, set.Restricts c := by
    simp [Tally.ofText]
  rw [scanText, foldl_read]
  by_cases h : ∃ c ∈ text, set.Restricts c
  · rw [if_neg fun zero => clean.mp zero h, Option.some.injEq]
    constructor
    · rintro rfl
      exact ⟨h, rfl⟩
    · rintro ⟨-, rfl⟩
      rfl
  · rw [if_pos (clean.mpr h)]
    simp [h]

theorem scanText_eq_none_iff {path : String} {text : List Char} {set : RestrictedSet} {cap : Nat} :
    scanText path text set cap = none ↔ ∀ c ∈ text, ¬ set.Restricts c := by
  constructor
  · intro silent c within restricted
    have told := scanText_eq_some_iff.mpr
      ⟨⟨c, within, restricted⟩, (rfl : _ = Finding.ofText path set cap text)⟩
    rw [silent] at told
    cases told
  · intro clean
    cases told : scanText path text set cap with
    | none => rfl
    | some finding =>
        obtain ⟨⟨c, within, restricted⟩, -⟩ := scanText_eq_some_iff.mp told
        exact absurd restricted (clean c within)

theorem scanBytes_eq_hit_iff {path : String} {bytes : Bytes} {set : RestrictedSet} {cap : Nat}
    {finding : Finding} :
    scanBytes path bytes set cap = .hit finding ↔
      ∃ text, bytes = Utf8.encode text ∧ (∃ c ∈ text, set.Restricts c) ∧
        finding = .ofText path set cap text := by
  simp only [← Utf8.decode_eq_some_iff]
  rw [scanBytes]
  cases Utf8.decode bytes with
  | none => simp
  | some text =>
      simp only [Option.some.injEq, exists_eq_left', ← scanText_eq_some_iff]
      cases scanText path text set cap <;> simp

/-! ## Counts and samples -/

theorem nodup_eraseDups (cs : List Char) : cs.eraseDups.Nodup := by
  induction cs using List.reverseRecOn with
  | nil => exact List.nodup_nil
  | append_singleton cs c ih =>
      rw [eraseDups_concat]
      split
      · exact ih
      · rename_i new
        rw [← List.concat_eq_append, List.nodup_concat]
        exact ⟨fun seen => new (List.mem_eraseDups.mp seen), ih⟩

/-- Without its repetitions a list is as long as the number of its different members. -/
theorem length_eraseDups (cs : List Char) : cs.eraseDups.length = cs.toFinset.card := by
  have same : cs.eraseDups.toFinset = cs.toFinset := by
    ext c
    rw [List.mem_toFinset, List.mem_toFinset, List.mem_eraseDups]
  rw [← same, List.toFinset_card_of_nodup (nodup_eraseDups cs)]

theorem decide_restricts (set : RestrictedSet) : (decide <| set.Restricts ·) = set.contains := by
  funext c
  rw [← Bool.coe_iff_coe, decide_eq_true_iff, set.contains_iff]

/-- A text is told of exactly if a character of it is in the set.  Then all characters that are in
the set are counted, and the samples are the first of them, later repetitions left out, as many as
the cap allows: different characters of the text, each restricted, and fewer than the cap only if
there are no more. -/
theorem scanText_counts (path : String) (text : List Char) (set : RestrictedSet) (cap : Nat) :
    (scanText path text set cap = none ↔ ∀ c ∈ text, set.contains c = false) ∧
      (∀ finding, scanText path text set cap = some finding ↔
        (∃ c ∈ text, set.contains c = true) ∧
          finding =
            { path := path
              occurrences := text.countP set.contains
              samples := (text.filter set.contains).eraseDups.take cap }) ∧
      ∀ finding, scanText path text set cap = some finding →
        finding.samples.Nodup ∧ (∀ c ∈ finding.samples, c ∈ text ∧ set.Restricts c) ∧
          finding.samples.length = min cap (text.filter set.contains).toFinset.card := by
  refine ⟨?_, ?_, ?_⟩
  · simp only [scanText_eq_none_iff, ← set.contains_iff, Bool.not_eq_true]
  · intro finding
    simp only [scanText_eq_some_iff, Finding.ofText, decide_restricts, set.contains_iff]
  · intro finding told
    obtain ⟨-, rfl⟩ := scanText_eq_some_iff.mp told
    rw [Finding.ofText, decide_restricts]
    refine ⟨(nodup_eraseDups _).sublist (List.take_sublist ..), ?_, ?_⟩
    · intro c sampled
      have found : c ∈ text.filter set.contains :=
        List.mem_eraseDups.mp (List.mem_of_mem_take sampled)
      obtain ⟨within, contained⟩ := List.mem_filter.mp found
      exact ⟨within, (set.contains_iff c).mp contained⟩
    · rw [List.length_take, length_eraseDups]

end HiddenText
