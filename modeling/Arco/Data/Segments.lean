import Arco.Data.Text

/-! Texts as lists of segments.

A list of segments is written with the separator behind each of them. Written so, one list is a prefix of
another if and only if the texts are, provided that no segment holds the separator.
-/

namespace Segments

open Text List

variable {separator : Char}

def closed (separator : Char) (segments : List (List Char)) : List Char :=
  segments.flatMap (· ++ [separator])

/-- The segments of a text that are not empty. -/
def parts (separator : Char) (chars : List Char) : List (List Char) :=
  (splitChars separator chars).filter (· ≠ [])

def ended (separator : Char) (chars : List Char) : List Char :=
  if chars = [] ∨ chars.getLast? = some separator then chars else chars ++ [separator]

/-- Behind an empty segment come empty segments only. -/
def Gapless (separator : Char) (chars : List Char) : Prop :=
  (splitChars separator chars).Pairwise fun earlier later => earlier = [] → later = []

instance (separator : Char) (chars : List Char) : Decidable (Gapless separator chars) :=
  inferInstanceAs (Decidable (Pairwise _ _))

@[simp] theorem closed_nil : closed separator [] = [] := rfl

@[simp] theorem closed_cons (segment : List Char) (segments : List (List Char)) :
    closed separator (segment :: segments) = segment ++ separator :: closed separator segments := by
  simp [closed]

theorem closed_append (left right : List (List Char)) :
    closed separator (left ++ right) = closed separator left ++ closed separator right := by
  simp [closed]

theorem closed_replicate (n : Nat) : closed separator (replicate n []) = replicate n separator := by
  induction n with
  | zero => rfl
  | succ n ih => simp [replicate_succ, ih]

theorem splitChars_ne_nil (chars : List Char) : splitChars separator chars ≠ [] := by
  induction chars with
  | nil => simp [splitChars]
  | cons c rest ih =>
    unfold splitChars
    split
    · simp
    · split <;> simp

variable {chars segment : List Char} {segments left right : List (List Char)}

theorem not_mem_of_mem_splitChars (member : segment ∈ splitChars separator chars) : separator ∉ segment := by
  induction chars generalizing segment with
  | nil =>
    obtain rfl := mem_singleton.mp member
    simp
  | cons c rest ih =>
    rw [splitChars] at member
    split at member
    · obtain rfl | member := mem_cons.mp member
      · simp
      · exact ih member
    · rename_i other
      split at member
      · obtain rfl := mem_singleton.mp member
        simpa using Ne.symm other
      · rename_i first others isRest
        obtain rfl | member := mem_cons.mp member
        · simpa [Ne.symm other] using ih (isRest ▸ mem_cons_self)
        · exact ih (isRest ▸ mem_cons_of_mem _ member)

theorem closed_splitChars (chars : List Char) : closed separator (splitChars separator chars) = chars ++ [separator] := by
  induction chars with
  | nil => rfl
  | cons c rest ih =>
    rw [splitChars]
    split
    · rename_i same
      simp [same, ih]
    · split
      · rename_i isRest
        exact absurd isRest (splitChars_ne_nil rest)
      · rename_i first others isRest
        rw [isRest, closed_cons] at ih
        simp [ih]

theorem splitChars_closed (free : ∀ segment ∈ segments, separator ∉ segment) (rest : List Char) :
    splitChars separator (closed separator segments ++ rest) = segments ++ splitChars separator rest := by
  induction segments with
  | nil => rfl
  | cons segment segments ih =>
    have freeRest : ∀ segment ∈ segments, separator ∉ segment :=
      fun _ member => free _ (mem_cons_of_mem _ member)
    rw [closed_cons, append_assoc, cons_append, splitChars_append _ (free _ mem_cons_self), ih freeRest,
      cons_append]

theorem splitChars_concat (chars : List Char) :
    splitChars separator (chars ++ [separator]) = splitChars separator chars ++ [[]] := by
  have free : ∀ segment ∈ splitChars separator chars, separator ∉ segment := fun _ => not_mem_of_mem_splitChars
  have split := splitChars_closed free []
  rwa [append_nil, closed_splitChars] at split

section

variable (freeLeft : ∀ segment ∈ left, separator ∉ segment) (freeRight : ∀ segment ∈ right, separator ∉ segment)
include freeLeft freeRight

theorem closed_prefix_iff : closed separator left <+: closed separator right ↔ left <+: right := by
  constructor
  · rintro ⟨rest, same⟩
    -- The text of the right list is split into its segments and an empty one.
    have split := congrArg (splitChars separator) same
    have whole := splitChars_closed freeRight []
    rw [append_nil] at whole
    rw [splitChars_closed freeLeft, whole] at split
    refine prefix_of_prefix_length_le ⟨_, split⟩ (prefix_append _ _) ?_
    have lengths := congrArg length split
    have some : 0 < (splitChars separator rest).length := length_pos_iff.mpr (splitChars_ne_nil rest)
    simp only [length_append, splitChars, length_cons, length_nil] at lengths
    omega
  · rintro ⟨rest, rfl⟩
    exact ⟨_, (closed_append left rest).symm⟩

theorem closed_injective (same : closed separator left = closed separator right) : left = right := by
  have ahead := (closed_prefix_iff freeLeft freeRight).mp (same ▸ prefix_rfl)
  have behind := (closed_prefix_iff freeRight freeLeft).mp (same ▸ prefix_rfl)
  exact ahead.eq_of_length_le behind.length_le

end

theorem mem_parts :
    segment ∈ parts separator chars ↔ segment ∈ splitChars separator chars ∧ segment ≠ [] := by
  simp [parts]

theorem parts_closed (free : ∀ segment ∈ segments, separator ∉ segment)
    (filled : ∀ segment ∈ segments, segment ≠ []) (rest : List Char) :
    parts separator (closed separator segments ++ rest) = segments ++ parts separator rest := by
  rw [parts, splitChars_closed free, filter_append]
  congr 1
  exact filter_eq_self.mpr (by simpa using filled)

theorem parts_ended : parts separator (ended separator chars) = parts separator chars := by
  unfold ended
  split
  · rfl
  · simp [parts, splitChars_concat]

theorem splitChars_replicate (n : Nat) :
    splitChars separator (replicate n separator) = replicate (n + 1) [] := by
  induction n with
  | zero => rfl
  | succ n ih => rw [replicate_succ, splitChars, if_pos rfl, ih, ← replicate_succ]

theorem eq_replicate_of_parts_eq_nil (empty : parts separator chars = []) :
    chars = replicate chars.length separator := by
  have segments : splitChars separator chars = replicate (splitChars separator chars).length [] := by
    refine eq_replicate_iff.mpr ⟨rfl, fun segment member => ?_⟩
    by_contra filled
    exact ne_nil_of_mem (mem_parts.mpr ⟨member, filled⟩) empty
  have whole : closed separator (splitChars separator chars) = chars ++ [separator] := closed_splitChars chars
  rw [segments, closed_replicate] at whole
  refine eq_replicate_iff.mpr ⟨rfl, fun c member => ?_⟩
  exact eq_of_mem_replicate (whole ▸ mem_append_left _ member)

/-- A character that is not the separator stands in a segment. -/
theorem mem_parts_of_mem {c : Char} (member : c ∈ chars) (other : c ≠ separator) :
    ∃ segment ∈ parts separator chars, c ∈ segment := by
  have inside : c ∈ closed separator (splitChars separator chars) := by
    rw [closed_splitChars]
    exact mem_append_left _ member
  obtain ⟨segment, isSegment, inside⟩ := mem_flatMap.mp inside
  obtain inside | last := mem_append.mp inside
  · exact ⟨segment, mem_parts.mpr ⟨isSegment, ne_nil_of_mem inside⟩, inside⟩
  · exact absurd (mem_singleton.mp last) other

theorem mem_of_mem_parts {c : Char} (isSegment : segment ∈ parts separator chars) (inside : c ∈ segment)
    (other : c ≠ separator) : c ∈ chars := by
  have member : c ∈ closed separator (splitChars separator chars) :=
    mem_flatMap.mpr ⟨segment, (mem_parts.mp isSegment).1, mem_append_left _ inside⟩
  rw [closed_splitChars] at member
  obtain member | last := mem_append.mp member
  · exact member
  · exact absurd (mem_singleton.mp last) other

theorem intercalate_append (some : segments ≠ []) :
    [separator].intercalate segments ++ [separator] = closed separator segments := by
  induction segments with
  | nil => exact absurd rfl some
  | cons segment rest ih =>
    cases rest with
    | nil => simp
    | cons next rest =>
      rw [intercalate_cons_cons, closed_cons, ← ih (by simp)]
      simp

theorem splitChars_intercalate (some : segments ≠ []) (free : ∀ segment ∈ segments, separator ∉ segment) :
    splitChars separator ([separator].intercalate segments) = segments := by
  have split := splitChars_closed free []
  rw [append_nil, ← intercalate_append some, splitChars_concat] at split
  exact append_cancel_right split

theorem eq_append_replicate_of_pairwise (ordered : segments.Pairwise fun earlier later => earlier = [] → later = []) :
    ∃ n, segments = segments.filter (· ≠ []) ++ replicate n [] := by
  induction segments with
  | nil => exact ⟨0, rfl⟩
  | cons segment rest ih =>
    obtain ⟨first, ordered⟩ := pairwise_cons.mp ordered
    by_cases empty : segment = []
    · subst empty
      have allEmpty : ∀ later ∈ rest, later = [] := fun later member => first later member rfl
      refine ⟨rest.length + 1, ?_⟩
      have none : rest.filter (· ≠ []) = [] := filter_eq_nil_iff.mpr (by simpa using allEmpty)
      rw [filter_cons_of_neg (by simp), none, nil_append, replicate_succ]
      exact congrArg _ (eq_replicate_iff.mpr ⟨rfl, allEmpty⟩)
    · obtain ⟨n, isRest⟩ := ih ordered
      refine ⟨n, ?_⟩
      rw [filter_cons_of_pos (by simpa using empty), cons_append, ← isRest]

theorem pairwise_append_replicate (segments : List (List Char)) (filled : ∀ segment ∈ segments, segment ≠ []) (n : Nat) :
    (segments ++ replicate n []).Pairwise fun earlier later => earlier = [] → later = [] := by
  refine pairwise_append.mpr ⟨?_, ?_, ?_⟩
  · exact pairwise_of_forall_mem_list fun earlier member _ _ empty => absurd empty (filled _ member)
  · exact pairwise_of_forall_mem_list fun _ _ later member _ => eq_of_mem_replicate member
  · exact fun earlier member _ _ empty => absurd empty (filled _ member)

theorem nil_mem_splitChars (isEnded : chars = [] ∨ chars.getLast? = some separator) :
    [] ∈ splitChars separator chars := by
  obtain rfl | last := isEnded
  · exact mem_singleton_self _
  · obtain ⟨_, rfl⟩ := getLast?_eq_some_iff.mp last
    simp [splitChars_concat]

theorem splitChars_ended (chars : List Char) :
    splitChars separator chars <+: splitChars separator (ended separator chars) := by
  unfold ended
  split
  · exact prefix_rfl
  · exact ⟨_, (splitChars_concat chars).symm⟩

/-- The segments of a text stand at its start, each with one separator behind it, if and only if there is no gap. -/
theorem closed_parts_prefix_iff :
    closed separator (parts separator chars) <+: ended separator chars ↔ Gapless separator chars := by
  have free : ∀ segment ∈ parts separator chars, separator ∉ segment :=
    fun _ member => not_mem_of_mem_splitChars (mem_parts.mp member).1
  have filled : ∀ segment ∈ parts separator chars, segment ≠ [] := fun _ member => (mem_parts.mp member).2
  constructor
  · rintro ⟨rest, same⟩
    have split := congrArg (parts separator) same
    rw [parts_closed free filled, parts_ended, append_right_eq_self] at split
    rw [eq_replicate_of_parts_eq_nil split] at same
    have segments := splitChars_closed free (replicate rest.length separator)
    rw [same, splitChars_replicate] at segments
    refine Pairwise.sublist (splitChars_ended chars).sublist ?_
    exact segments ▸ pairwise_append_replicate _ filled _
  · intro gapless
    obtain ⟨n, segments⟩ := eq_append_replicate_of_pairwise gapless
    have whole : closed separator (splitChars separator chars) = chars ++ [separator] := closed_splitChars chars
    rw [segments, closed_append, closed_replicate] at whole
    unfold ended
    split
    · -- The last segment is empty, so that one separator can be left out.
      rename_i isEnded
      cases n with
      | zero =>
        have member := segments ▸ nil_mem_splitChars isEnded
        simp at member
      | succ n =>
        rw [replicate_succ', ← append_assoc] at whole
        exact ⟨_, append_cancel_right whole⟩
    · exact ⟨_, whole⟩

end Segments
