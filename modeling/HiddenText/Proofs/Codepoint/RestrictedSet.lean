import HiddenText.Codepoint
import HiddenText.Proofs.Ascending

/-! # What a restricted set contains

The bound below the ranges only saves time: a codepoint is contained if and only if it lies in one
of the ranges and has not been allowed.  A set is made by listing ranges and then allowing
codepoints one by one, and it is the same set in whatever order and however often they are given
(`ofLists_canonical`). -/
set_option autoImplicit false

namespace HiddenText

/-! ## The order of ranges -/

namespace CodepointRange

variable {r s : CodepointRange}

theorem lt_iff : r < s ↔ r.first < s.first ∨ r.first = s.first ∧ r.last < s.last := Iff.rfl

instance : IsTrans CodepointRange (· < ·) where
  trans r s t h h' := by
    rw [lt_iff] at h h' ⊢
    rcases h with less | ⟨same, less⟩
    · rcases h' with less' | ⟨same', -⟩
      · exact .inl (Char.lt_trans less less')
      · exact .inl (same' ▸ less)
    · rcases h' with less' | ⟨same', less'⟩
      · exact .inl (same ▸ less')
      · exact .inr ⟨same.trans same', Char.lt_trans less less'⟩

instance : Std.Irrefl (fun r s : CodepointRange => r < s) where
  irrefl r h := by
    rcases lt_iff.mp h with less | ⟨-, less⟩
    · exact Char.lt_irrefl _ less
    · exact Char.lt_irrefl _ less

instance : Std.Trichotomous (fun r s : CodepointRange => r < s) where
  trichotomous r s h h' := by
    rw [lt_iff, not_or, not_and, Char.not_lt] at h h'
    have first : r.first = s.first := Char.le_antisymm h'.1 h.1
    have last : r.last = s.last :=
      Char.le_antisymm (Char.not_lt.mp (h'.2 first.symm)) (Char.not_lt.mp (h.2 first))
    cases r
    cases s
    cases first
    cases last
    rfl

end CodepointRange

namespace RestrictedSet

/-! ## Containing -/

def Restricts (s : RestrictedSet) (c : Char) : Prop :=
  (∃ r ∈ s.ranges, r.first ≤ c ∧ c ≤ r.last) ∧ c ∉ s.allowed

instance (s : RestrictedSet) (c : Char) : Decidable (s.Restricts c) :=
  inferInstanceAs (Decidable (_ ∧ _))

theorem floor_le_of_mem {s : RestrictedSet} {r : CodepointRange} {c : Char} (mem : r ∈ s.ranges)
    (first : r.first ≤ c) : s.floor ≤ c.toNat :=
  Nat.le_trans (s.floor_le r mem) first

theorem contains_iff (s : RestrictedSet) (c : Char) : s.contains c = true ↔ s.Restricts c := by
  have ranges : s.ranges.any (·.contains c) = true ↔
      ∃ r ∈ s.ranges, r.first ≤ c ∧ c ≤ r.last := by
    simp [CodepointRange.contains]
  rw [contains, Restricts, ← ranges]
  by_cases low : c.toNat < s.floor
  · rw [if_pos low]
    constructor
    · intro h
      cases h
    · rintro ⟨some, -⟩
      obtain ⟨r, mem, first, -⟩ := ranges.mp some
      have := floor_le_of_mem mem first
      omega
  · rw [if_neg low]
    simp

theorem contains_eq (s : RestrictedSet) (c : Char) :
    s.contains c = (s.ranges.any (·.contains c) && !s.allowed.contains c) := by
  rw [Bool.eq_iff_iff, contains_iff, Restricts]
  simp [CodepointRange.contains]

/-! ## Allowing -/

theorem ranges_allow (s : RestrictedSet) (c : Char) : (s.allow c).ranges = s.ranges := rfl

theorem floor_allow (s : RestrictedSet) (c : Char) : (s.allow c).floor = s.floor := rfl

theorem mem_allowed_allow {s : RestrictedSet} {c d : Char} :
    d ∈ (s.allow c).allowed ↔ d = c ∨ d ∈ s.allowed := Ascending.mem_insert d c s.allowed

theorem contains_allow_iff {s : RestrictedSet} {c d : Char} :
    (s.allow c).contains d = true ↔ s.contains d = true ∧ d ≠ c := by
  rw [contains_iff, contains_iff, Restricts, Restricts, ranges_allow, mem_allowed_allow, not_or]
  exact ⟨fun ⟨inRange, other, kept⟩ => ⟨⟨inRange, kept⟩, other⟩,
    fun ⟨⟨inRange, kept⟩, other⟩ => ⟨inRange, other, kept⟩⟩

/-- Allowing takes codepoints out of the set and does nothing else to it. -/
theorem contains_foldl_allow_iff {d : Char} : ∀ {calls : List Char} {s : RestrictedSet},
    (calls.foldl allow s).contains d = true ↔ s.contains d = true ∧ d ∉ calls := by
  intro calls
  induction calls with
  | nil => intro s; simp
  | cons c calls ih =>
      intro s
      rw [List.foldl_cons, ih, contains_allow_iff, List.mem_cons, not_or, and_assoc]

theorem mem_allowed_foldl_allow {d : Char} : ∀ {calls : List Char} {s : RestrictedSet},
    d ∈ (calls.foldl allow s).allowed ↔ d ∈ s.allowed ∨ d ∈ calls := by
  intro calls
  induction calls with
  | nil => intro s; simp
  | cons c calls ih =>
      intro s
      rw [List.foldl_cons, ih, mem_allowed_allow, List.mem_cons, or_assoc, or_left_comm]

theorem ranges_foldl_allow : ∀ (calls : List Char) (s : RestrictedSet),
    (calls.foldl allow s).ranges = s.ranges := by
  intro calls
  induction calls with
  | nil => intro s; rfl
  | cons c calls ih => intro s; rw [List.foldl_cons, ih, ranges_allow]

theorem floor_foldl_allow : ∀ (calls : List Char) (s : RestrictedSet),
    (calls.foldl allow s).floor = s.floor := by
  intro calls
  induction calls with
  | nil => intro s; rfl
  | cons c calls ih => intro s; rw [List.foldl_cons, ih, floor_allow]

/-! ## Sets made of lists -/

def ofLists (ranges : List CodepointRange) (calls : List Char) : RestrictedSet :=
  calls.foldl allow (ofRanges ranges)

variable (ranges : List CodepointRange) (calls : List Char)

theorem ranges_ofLists : (ofLists ranges calls).ranges = Ascending.ofList ranges :=
  ranges_foldl_allow calls (ofRanges ranges)

theorem floor_ofLists :
    (ofLists ranges calls).floor = leastFirst (ofLists ranges calls).ranges := by
  rw [ranges_ofLists]
  exact floor_foldl_allow calls (ofRanges ranges)

/-- The last codepoint that was allowed is the last to be put in its place. -/
theorem allowed_ofLists : (ofLists ranges calls).allowed = Ascending.ofList calls.reverse := by
  rw [ofLists, List.foldl_eq_foldr_reverse]
  induction calls.reverse with
  | nil => rfl
  | cons c calls ih =>
      rw [List.foldr_cons, allow, ih]
      rfl

theorem contains_ofRanges_iff (c : Char) :
    (ofRanges ranges).contains c = true ↔ ∃ r ∈ ranges, r.first ≤ c ∧ c ≤ r.last := by
  rw [contains_iff, Restricts]
  simp [ofRanges, Ascending.mem_ofList]

theorem eq_iff_of_floor_eq {s t : RestrictedSet} (least : s.floor = leastFirst s.ranges)
    (least' : t.floor = leastFirst t.ranges) :
    s = t ↔ s.ranges = t.ranges ∧ s.allowed = t.allowed := by
  constructor
  · rintro rfl
    exact ⟨rfl, rfl⟩
  · rintro ⟨ranges, allowed⟩
    have floor : s.floor = t.floor := by rw [least, least', ranges]
    cases s
    cases t
    cases ranges
    cases allowed
    cases floor
    rfl

theorem ofLists_eq_iff (ranges' : List CodepointRange) (calls' : List Char) :
    ofLists ranges calls = ofLists ranges' calls' ↔
      (∀ r, r ∈ ranges ↔ r ∈ ranges') ∧ ∀ c, c ∈ calls ↔ c ∈ calls' := by
  rw [eq_iff_of_floor_eq (floor_ofLists ..) (floor_ofLists ..), ranges_ofLists, ranges_ofLists,
    allowed_ofLists, allowed_ofLists, Ascending.ofList_eq_iff, Ascending.ofList_eq_iff]
  simp only [List.mem_reverse]

/-- A set made of ranges, with codepoints allowed after that, contains what lies in one of the
ranges and was never allowed, and the bound below its ranges changes no answer.  Other lists make
the same set exactly if they have the same members.  The set keeps each of its ranges once, in the
order of first and then of last codepoints. -/
theorem ofLists_canonical (ranges ranges' : List CodepointRange) (calls calls' : List Char) :
    (∀ c, (ofLists ranges calls).contains c = true ↔
        (∃ r ∈ ranges, r.first ≤ c ∧ c ≤ r.last) ∧ c ∉ calls) ∧
      (∀ c, (ofLists ranges calls).contains c =
        ((ofLists ranges calls).ranges.any (·.contains c) &&
          !(ofLists ranges calls).allowed.contains c)) ∧
      (ofLists ranges calls = ofLists ranges' calls' ↔
        (∀ r, r ∈ ranges ↔ r ∈ ranges') ∧ ∀ c, c ∈ calls ↔ c ∈ calls') ∧
      (ofLists ranges calls).ranges.Pairwise
        (fun r s => r.first < s.first ∨ r.first = s.first ∧ r.last < s.last) ∧
      ∀ r, r ∈ (ofLists ranges calls).ranges ↔ r ∈ ranges := by
  refine ⟨fun c => ?_, contains_eq _, ofLists_eq_iff .., ?_, fun r => ?_⟩
  · rw [ofLists, contains_foldl_allow_iff, contains_ofRanges_iff]
  · rw [ranges_ofLists]
    exact Ascending.ofList_pairwise ranges
  · rw [ranges_ofLists, Ascending.mem_ofList]

end RestrictedSet
end HiddenText
