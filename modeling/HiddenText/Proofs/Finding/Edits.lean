import HiddenText.Proofs.Finding
import Mathlib.Data.List.Perm.Subperm

/-! # How a finding follows its text

Two texts are put one after the other, a character is put into a text, or characters are taken out
of it: what a scan tells then is told by what it told before (`scanText_append`, `scanText_insert`,
`scanText_allowing`).  Counts add up.  The samples are the beginning of the list of distinct
restricted characters, and what a cap has cut off from a piece is not needed for the beginning of
the whole (`take_eraseDups_append_take`). -/
set_option autoImplicit false

namespace HiddenText

/-! ## First appearances -/

theorem eraseDups_filter (p : Char → Bool) (cs : List Char) :
    (cs.filter p).eraseDups = cs.eraseDups.filter p := by
  induction cs using List.reverseRecOn with
  | nil => rfl
  | append_singleton cs c ih =>
      rw [List.filter_append, eraseDups_concat]
      by_cases kept : p c = true
      · rw [List.filter_singleton, kept, cond_true, eraseDups_concat, ih]
        simp only [List.mem_filter, kept, and_true]
        split
        · rfl
        · rw [List.filter_append, List.filter_singleton, kept, cond_true]
      · have dropped : [c].filter p = [] := List.filter_eq_nil_iff.mpr (by simpa using kept)
        rw [dropped, List.append_nil, ih]
        split
        · rfl
        · rw [List.filter_append, dropped, List.append_nil]

theorem eraseDups_of_nodup {cs : List Char} (once : cs.Nodup) : cs.eraseDups = cs := by
  induction cs using List.reverseRecOn with
  | nil => rfl
  | append_singleton cs c ih =>
      rw [← List.concat_eq_append, List.nodup_concat] at once
      rw [eraseDups_concat, if_neg once.1, ih once.2]

theorem eraseDups_append_eq (xs ys : List Char) :
    (xs ++ ys).eraseDups = xs.eraseDups ++ ys.eraseDups.filter (· ∉ xs) := by
  have rest : ys.removeAll xs = ys.filter (· ∉ xs) := by
    simp [List.removeAll]
  rw [List.eraseDups_append, rest, eraseDups_filter]

theorem eraseDups_prefix_append (xs ys : List Char) : xs.eraseDups <+: (xs ++ ys).eraseDups := by
  rw [eraseDups_append_eq]
  exact List.prefix_append _ _

theorem eraseDups_append_eraseDups (xs ys : List Char) :
    (xs.eraseDups ++ ys.eraseDups).eraseDups = (xs ++ ys).eraseDups := by
  rw [eraseDups_append_eq, eraseDups_append_eq, eraseDups_of_nodup (nodup_eraseDups xs),
    eraseDups_of_nodup (nodup_eraseDups ys)]
  simp only [List.mem_eraseDups]

/-- What is cut off from the first of two lists stands behind the cap in the whole. -/
theorem take_eraseDups_take_append (cap : Nat) {xs : List Char} (once : xs.Nodup)
    (ys : List Char) :
    (xs.take cap ++ ys).eraseDups.take cap = (xs ++ ys).eraseDups.take cap := by
  rcases Nat.le_total xs.length cap with short | long
  · rw [List.take_of_length_le short]
  · have cut : (xs.take cap).eraseDups = xs.take cap :=
      eraseDups_of_nodup (once.sublist (List.take_sublist ..))
    have length : (xs.take cap).length = cap := List.length_take_of_le long
    rw [eraseDups_append_eq, eraseDups_append_eq, cut, eraseDups_of_nodup once,
      List.take_append_of_le_length (Nat.le_of_eq length.symm), List.take_append_of_le_length long,
      List.take_take, Nat.min_self]

/-- What is cut off from the second of two lists is not asked for: the part that is left has as
many different characters as the cap allows. -/
theorem take_eraseDups_append_take (cap : Nat) (xs : List Char) {ys : List Char}
    (once : ys.Nodup) :
    (xs ++ ys.take cap).eraseDups.take cap = (xs ++ ys).eraseDups.take cap := by
  rcases Nat.le_total ys.length cap with short | long
  · rw [List.take_of_length_le short]
  · have shown : cap ≤ (xs ++ ys.take cap).eraseDups.length := by
      have known : ys.take cap ⊆ (xs ++ ys.take cap).eraseDups := fun c shown =>
        List.mem_eraseDups.mpr (List.mem_append_right xs shown)
      have fits := (List.subperm_of_subset (once.sublist (List.take_sublist ..)) known).length_le
      rwa [List.length_take_of_le long] at fits
    obtain ⟨rest, whole⟩ := eraseDups_prefix_append (xs ++ ys.take cap) (ys.drop cap)
    rw [List.append_assoc, List.take_append_drop] at whole
    rw [← whole, List.take_append_of_le_length shown]

/-- The first distinct characters of two lists are found among the first distinct ones of each. -/
theorem take_eraseDups_append (cap : Nat) (xs ys : List Char) :
    (xs.eraseDups.take cap ++ ys.eraseDups.take cap).eraseDups.take cap =
      (xs ++ ys).eraseDups.take cap := by
  rw [take_eraseDups_take_append cap (nodup_eraseDups xs),
    take_eraseDups_append_take cap _ (nodup_eraseDups ys), eraseDups_append_eraseDups]

theorem eraseDups_append_cons_of_mem {c : Char} {xs : List Char} (seen : c ∈ xs) (ys : List Char) :
    (xs ++ c :: ys).eraseDups = (xs ++ ys).eraseDups := by
  rw [eraseDups_append_eq, eraseDups_append_eq, ← eraseDups_filter, ← eraseDups_filter,
    List.filter_cons_of_neg (by simpa using seen)]

theorem eraseDups_append_cons_of_notMem {c : Char} {xs : List Char} (new : c ∉ xs)
    (ys : List Char) : (xs ++ c :: ys).eraseDups =
      xs.eraseDups ++ c :: (xs ++ ys).eraseDups.filter (fun d => d ∉ xs ∧ d ≠ c) := by
  have earlier : xs.eraseDups.filter (fun d => d ∉ xs ∧ d ≠ c) = [] := by
    simp +contextual [List.filter_eq_nil_iff]
  rw [eraseDups_append_eq, List.eraseDups_cons, List.filter_cons_of_pos (by simpa using new),
    eraseDups_filter, List.filter_filter, eraseDups_append_eq, List.filter_append, earlier,
    List.nil_append, List.filter_filter]
  congr 2
  apply List.filter_congr
  intro d _
  by_cases before : d ∈ xs
  · simp [before]
  · simp [before, beq_eq_decide]

/-! ## What a scan tells -/

namespace Finding

def countOf : Option Finding → Nat
  | none => 0
  | some finding => finding.occurrences

def samplesOf : Option Finding → List Char
  | none => []
  | some finding => finding.samples

end Finding

def RestrictedSet.distinctIn (set : RestrictedSet) (text : List Char) : List Char :=
  (text.filter set.contains).eraseDups

variable (path : String) (text : List Char) (set : RestrictedSet) (cap : Nat)

theorem scanText_eq :
    scanText path text set cap =
      if text.countP set.contains = 0 then none
      else some
        { path := path
          occurrences := text.countP set.contains
          samples := (set.distinctIn text).take cap } := by
  rw [scanText, foldl_read, Tally.ofText, decide_restricts]
  rfl

theorem countOf_scanText :
    Finding.countOf (scanText path text set cap) = text.countP set.contains := by
  rw [scanText_eq]
  split
  · rename_i clean
    exact clean.symm
  · rfl

theorem samplesOf_scanText :
    Finding.samplesOf (scanText path text set cap) = (set.distinctIn text).take cap := by
  rw [scanText_eq]
  split
  · rename_i clean
    rw [List.countP_eq_length_filter, List.length_eq_zero_iff] at clean
    rw [RestrictedSet.distinctIn, clean, List.eraseDups_nil, List.take_nil]
    rfl
  · rfl

theorem scanText_eq_none_iff_countP :
    scanText path text set cap = none ↔ text.countP set.contains = 0 := by
  rw [scanText_eq]
  split
  · rename_i clean
    exact iff_of_true rfl clean
  · rename_i found
    exact iff_of_false nofun found

/-- A scan sees the restricted characters of a text only. -/
theorem scanText_congr {text text' : List Char} {set set' : RestrictedSet}
    (same : text.filter set.contains = text'.filter set'.contains) :
    scanText path text set cap = scanText path text' set' cap := by
  rw [scanText_eq, scanText_eq, RestrictedSet.distinctIn, RestrictedSet.distinctIn,
    List.countP_eq_length_filter, List.countP_eq_length_filter, same]

theorem scanText_of_filter_eq_singleton {text : List Char} {set : RestrictedSet} {c : Char}
    (found : text.filter set.contains = [c]) :
    scanText path text set cap =
      some { path := path, occurrences := 1, samples := if cap = 0 then [] else [c] } := by
  have counted : text.countP set.contains = 1 := by
    rw [List.countP_eq_length_filter, found, List.length_singleton]
  rw [scanText_eq, counted, if_neg Nat.one_ne_zero, RestrictedSet.distinctIn, found,
    eraseDups_of_nodup (List.nodup_singleton c)]
  cases cap with
  | zero => rfl
  | succ cap => simp

/-! ## Two pieces -/

/-- Two texts one after the other are told of if one of them is.  The counts are added, and the
samples are the first different ones of both, as many as the cap allows, although each piece has
shown no more than that. -/
theorem scanText_append (first second : List Char) :
    scanText path (first ++ second) set cap =
      if scanText path first set cap = none ∧ scanText path second set cap = none then none
      else some
        { path := path
          occurrences := Finding.countOf (scanText path first set cap) +
            Finding.countOf (scanText path second set cap)
          samples := (Finding.samplesOf (scanText path first set cap) ++
            Finding.samplesOf (scanText path second set cap)).eraseDups.take cap } := by
  simp only [countOf_scanText, samplesOf_scanText, scanText_eq_none_iff_countP,
    ← Nat.add_eq_zero_iff, ← List.countP_append]
  rw [scanText_eq, RestrictedSet.distinctIn, RestrictedSet.distinctIn, RestrictedSet.distinctIn,
    take_eraseDups_append, List.filter_append]

/-! ## One character more -/

section

variable {set} {c : Char} (before after : List Char)

theorem filter_insert_of_contains (restricted : set.contains c = true) :
    (before ++ c :: after).filter set.contains =
      before.filter set.contains ++ c :: after.filter set.contains := by
  rw [List.filter_append, List.filter_cons_of_pos restricted]

theorem countP_insert_of_contains (restricted : set.contains c = true) :
    (before ++ c :: after).countP set.contains = (before ++ after).countP set.contains + 1 := by
  rw [List.countP_append, List.countP_cons_of_pos restricted, List.countP_append, Nat.add_assoc]

theorem distinctIn_insert_of_mem (restricted : set.contains c = true) (seen : c ∈ before) :
    set.distinctIn (before ++ c :: after) = set.distinctIn (before ++ after) := by
  have found : c ∈ before.filter set.contains := List.mem_filter.mpr ⟨seen, restricted⟩
  rw [RestrictedSet.distinctIn, filter_insert_of_contains before after restricted,
    eraseDups_append_cons_of_mem found, RestrictedSet.distinctIn, List.filter_append]

theorem distinctIn_insert_of_notMem (restricted : set.contains c = true) (new : c ∉ before) :
    set.distinctIn (before ++ c :: after) = set.distinctIn before ++
      c :: (set.distinctIn (before ++ after)).filter (fun d => d ∉ before ∧ d ≠ c) := by
  have unfound : c ∉ before.filter set.contains := fun found => new (List.mem_filter.mp found).1
  rw [RestrictedSet.distinctIn, filter_insert_of_contains before after restricted,
    eraseDups_append_cons_of_notMem unfound, ← List.filter_append]
  congr 2
  apply List.filter_congr
  intro d listed
  -- Among the restricted characters, those that were found before are those that stand before.
  obtain ⟨-, contained⟩ := List.mem_filter.mp (List.mem_eraseDups.mp listed)
  simp [contained]

theorem take_distinctIn_append (full : cap ≤ (set.distinctIn before).length) :
    (set.distinctIn (before ++ after)).take cap = (set.distinctIn before).take cap := by
  obtain ⟨rest, whole⟩ :=
    eraseDups_prefix_append (before.filter set.contains) (after.filter set.contains)
  rw [← List.filter_append] at whole
  rw [RestrictedSet.distinctIn, ← whole]
  exact List.take_append_of_le_length full

theorem take_distinctIn_insert (restricted : set.contains c = true) :
    (set.distinctIn (before ++ c :: after)).take cap =
      if c ∈ before ∨ cap ≤ (set.distinctIn before).length then
        (set.distinctIn (before ++ after)).take cap
      else (set.distinctIn before ++ c ::
        (set.distinctIn (before ++ after)).filter (fun d => d ∉ before ∧ d ≠ c)).take cap := by
  by_cases seen : c ∈ before
  · rw [if_pos (.inl seen), distinctIn_insert_of_mem before after restricted seen]
  · by_cases full : cap ≤ (set.distinctIn before).length
    · rw [if_pos (.inr full), take_distinctIn_append cap before _ full,
        take_distinctIn_append cap before _ full]
    · rw [if_neg (not_or.mpr ⟨seen, full⟩),
        distinctIn_insert_of_notMem before after restricted seen]

end

/-- A character put into a text changes what a scan tells only if it is restricted.  Then one
occurrence more is counted.  The samples stay if the character stands before or if the cap is
reached there; if not, it comes after the restricted characters that stand before, and the others
follow it in their order.  So one restricted character in a clean text is counted once, and it is
the one sample. -/
theorem scanText_insert (before after : List Char) (c : Char) :
    (scanText path (before ++ c :: after) set cap =
      if set.contains c then some
        { path := path
          occurrences := Finding.countOf (scanText path (before ++ after) set cap) + 1
          samples :=
            if c ∈ before ∨ cap ≤ (set.distinctIn before).length then
              Finding.samplesOf (scanText path (before ++ after) set cap)
            else (set.distinctIn before ++ c ::
              (set.distinctIn (before ++ after)).filter (fun d => d ∉ before ∧ d ≠ c)).take cap }
      else scanText path (before ++ after) set cap) ∧
      (scanText path (before ++ after) set cap = none → set.contains c = true →
        scanText path (before ++ c :: after) set cap =
          some { path := path, occurrences := 1, samples := if cap = 0 then [] else [c] }) := by
  constructor
  · by_cases restricted : set.contains c = true
    · rw [if_pos restricted, scanText_eq, countP_insert_of_contains before after restricted,
        if_neg (Nat.succ_ne_zero _), take_distinctIn_insert cap before after restricted,
        countOf_scanText, samplesOf_scanText]
    · rw [if_neg restricted]
      apply scanText_congr
      rw [List.filter_append, List.filter_cons_of_neg restricted, List.filter_append]
  · intro clean restricted
    rw [scanText_eq_none_iff_countP, List.countP_eq_length_filter, List.length_eq_zero_iff,
      List.filter_append, List.append_eq_nil_iff] at clean
    obtain ⟨silentBefore, silentAfter⟩ := clean
    apply scanText_of_filter_eq_singleton
    rw [filter_insert_of_contains before after restricted, silentBefore, silentAfter,
      List.nil_append]

/-- An override before a name, in a text without any. -/
theorem scanText_insert_override :
    scanText "f.ts" "const isAdmin = false;".toList .standard 8 = none ∧
      RestrictedSet.standard.contains '\u202E' = true ∧
      scanText "f.ts" ("const ".toList ++ '\u202E' :: "isAdmin = false;".toList) .standard 8 =
        some { path := "f.ts", occurrences := 1, samples := ['\u202E'] } := by
  have clean : scanText "f.ts" ("const ".toList ++ "isAdmin = false;".toList) .standard 8 = none :=
    by decide +kernel
  have restricted : RestrictedSet.standard.contains '\u202E' = true := by decide
  exact ⟨by decide +kernel, restricted, (scanText_insert ..).2 clean restricted⟩

/-! ## Some characters less -/

/-- Allowing codepoints is the same as taking them out of the text: the characters that are found
are those found before without the ones that have been allowed, in their order.  Allowing a
codepoint that is not restricted does nothing. -/
theorem scanText_allowing (calls : List Char) :
    scanText path text (calls.foldl RestrictedSet.allow set) cap =
        scanText path (text.filter (· ∉ calls)) set cap ∧
      (∀ c, (calls.foldl RestrictedSet.allow set).contains c = true ↔
        set.contains c = true ∧ c ∉ calls) ∧
      text.filter (calls.foldl RestrictedSet.allow set).contains =
        (text.filter set.contains).filter (· ∉ calls) ∧
      scanText path text (calls.foldl RestrictedSet.allow set) cap =
        scanText path text ((calls.filter set.contains).foldl RestrictedSet.allow set) cap := by
  have found : text.filter (calls.foldl RestrictedSet.allow set).contains =
      (text.filter set.contains).filter (· ∉ calls) := by
    rw [List.filter_filter]
    apply List.filter_congr
    intro c _
    rw [Bool.eq_iff_iff, RestrictedSet.contains_foldl_allow_iff, Bool.and_eq_true,
      decide_eq_true_iff, and_comm]
  refine ⟨?_, fun c => RestrictedSet.contains_foldl_allow_iff, found, ?_⟩
  · apply scanText_congr
    rw [found, List.filter_comm]
  · apply scanText_congr
    apply List.filter_congr
    intro c _
    rw [Bool.eq_iff_iff, RestrictedSet.contains_foldl_allow_iff,
      RestrictedSet.contains_foldl_allow_iff, List.mem_filter]
    tauto

end HiddenText
