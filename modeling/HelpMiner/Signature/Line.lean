import HelpMiner.Signature.TypeName

/-! Normal form of a parameter line: no passing qualifiers, and one connector before each type. -/
namespace HelpMiner.Signature

/-- The qualifiers that say how a parameter is passed. -/
def qualifiers : List String := ["byval", "byref"]

/-- What follows a qualifier that stands as a word, with the blanks around it. -/
def afterQualifier? (inWord : Bool) (s : List Char) : Option (List Char) :=
  if inWord && !s.head?.any Text.isBlank then none
  else match qualifiers.findSome? fun q => afterWord? q.toList (s.dropWhile Text.isBlank) with
    | some rest => if atWordEnd rest then some (rest.dropWhile Text.isBlank) else none
    | none => none

theorem afterWord?_length_le {w s r : List Char} (h : afterWord? w s = some r) :
    r.length + w.length ≤ s.length := by
  induction w generalizing s with
  | nil => cases h; simp
  | cons l w ih =>
    cases s with
    | nil => cases h
    | cons c s =>
      unfold afterWord? at h
      split at h
      · have := ih h
        simp only [List.length_cons]
        omega
      · cases h

theorem dropBlank_length_le (s : List Char) : (s.dropWhile Text.isBlank).length ≤ s.length :=
  (List.dropWhile_suffix _).length_le

theorem qualifier_length_pos : ∀ q ∈ qualifiers, 0 < q.toList.length := by decide

theorem keywordStem_length_pos : ∀ k ∈ typeKeywords, 0 < (keywordStem k.1).length := by decide

theorem afterQualifier?_length_lt {b : Bool} {s r : List Char}
    (h : afterQualifier? b s = some r) : r.length < s.length := by
  have hs := dropBlank_length_le s
  unfold afterQualifier? at h
  split at h
  · cases h
  · split at h
    · rename_i rest hq
      split at h
      · cases h
        have hr := dropBlank_length_le rest
        obtain ⟨q, hq, hw⟩ := List.exists_of_findSome?_eq_some hq
        have hw := afterWord?_length_le hw
        have := qualifier_length_pos q hq
        omega
      · cases h
    · cases h

/-- Put a space for each qualifier with the blanks around it. -/
def stripQualifiers (inWord : Bool) (s : List Char) : List Char :=
  match _h : afterQualifier? inWord s with
  | some rest => ' ' :: stripQualifiers false rest
  | none =>
    match s with
    | [] => []
    | c :: rest => c :: stripQualifiers (Text.isWord c) rest
termination_by s.length
decreasing_by
  · exact afterQualifier?_length_lt _h
  · simp

/-- What follows the word `as` with blanks on both sides. -/
def afterAs? (s : List Char) : Option (List Char) :=
  match s with
  | [] => none
  | b :: rest =>
    if Text.isBlank b then
      match afterWord? ['a', 's'] (rest.dropWhile Text.isBlank) with
      | some (c :: t) => if Text.isBlank c then some (t.dropWhile Text.isBlank) else none
      | _ => none
    else none

/-- What follows an opening parenthesis with the blanks around it. -/
def afterOpening? (s : List Char) : Option (List Char) :=
  match s.dropWhile Text.isBlank with
  | '(' :: rest => some (rest.dropWhile Text.isBlank)
  | _ => none

/-- A type at the front: its text and what follows it. -/
def type? (s : List Char) : Option (List Char × List Char) :=
  (afterType? s).map fun rest => (s.take (s.length - rest.length), rest)

/-- A type after a connector of either spelling, and what follows it. -/
def connected? (s : List Char) : Option (List Char × List Char) :=
  match afterAs? s with
  | some t => type? t
  | none => (afterOpening? s).bind type?

theorem afterType?_length_lt {s r : List Char} (h : afterType? s = some r) :
    r.length < s.length := by
  unfold afterType? at h
  split at h
  · rename_i rest hk
    cases h
    obtain ⟨k, hk, hw⟩ := List.exists_of_findSome?_eq_some hk
    unfold afterKeyword? at hw
    have := keywordStem_length_pos k hk
    split at hw
    · rename_i heq
      have := afterWord?_length_le heq
      simp only [List.length_cons] at this
      split at hw
      · cases hw
        omega
      · cases hw
    · rename_i heq
      have := afterWord?_length_le heq
      split at hw
      · cases hw
        omega
      · cases hw
    · cases hw
  · have := afterWord?_length_le h
    simp only [recordLead] at this
    have : 0 < "T_".toList.length := by decide
    omega

theorem afterAs?_length_lt {s r : List Char} (h : afterAs? s = some r) :
    r.length < s.length := by
  unfold afterAs? at h
  split at h
  · cases h
  · rename_i b rest
    split at h
    · split at h
      · rename_i c t hw
        split at h
        · cases h
          have h₁ := afterWord?_length_le hw
          have h₂ := dropBlank_length_le t
          have h₃ := dropBlank_length_le rest
          simp only [List.length_cons] at *
          omega
        · cases h
      · cases h
    · cases h

theorem afterOpening?_length_lt {s r : List Char} (h : afterOpening? s = some r) :
    r.length < s.length := by
  have hs := dropBlank_length_le s
  unfold afterOpening? at h
  split at h
  · rename_i rest heq
    cases h
    have := dropBlank_length_le rest
    rw [heq] at hs
    simp only [List.length_cons] at hs
    omega
  · cases h

theorem type?_length_lt {s t r : List Char} (h : type? s = some (t, r)) :
    r.length < s.length := by
  obtain ⟨r', hr, he⟩ := Option.map_eq_some_iff.1 h
  simp only [Prod.mk.injEq] at he
  exact he.2 ▸ afterType?_length_lt hr

theorem connected?_length_lt {s t r : List Char} (h : connected? s = some (t, r)) :
    r.length < s.length := by
  unfold connected? at h
  split at h
  · rename_i u hu
    exact Nat.lt_trans (type?_length_lt h) (afterAs?_length_lt hu)
  · obtain ⟨u, hu, ht⟩ := Option.bind_eq_some_iff.1 h
    exact Nat.lt_trans (type?_length_lt ht) (afterOpening?_length_lt hu)

def connector : List Char := [' ', 'A', 's', ' ']

/-- Write every connector before a type in its one spelling. -/
def unifyConnectors (s : List Char) : List Char :=
  match _h : connected? s with
  | some (type, rest) => connector ++ type ++ unifyConnectors rest
  | none =>
    match s with
    | [] => []
    | c :: rest => c :: unifyConnectors rest
termination_by s.length
decreasing_by
  · exact connected?_length_lt _h
  · simp

def normalizeChars (line : List Char) : List Char :=
  Text.trim (unifyConnectors (stripQualifiers false line))

/-- The normal form of a line. -/
def normalizeLine (line : String) : String := String.ofList (normalizeChars line.toList)

end HelpMiner.Signature
