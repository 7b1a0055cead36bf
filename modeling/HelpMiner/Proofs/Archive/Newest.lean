import HelpMiner.Archive.Version
import HelpMiner.Proofs.Text.Digit

/-! The version in a path is the leftmost one, and the newest archive is the first of the greatest
version. -/
namespace HelpMiner.Archive

open Text (isDigit)

namespace Version

/-! ## The order of versions -/

/-- The parts of a version, in lexicographic order. -/
def rank (v : Version) : ℕ ×ₗ ℕ ×ₗ ℕ := toLex (v.major, toLex (v.minor, v.patch))

theorem before_iff {a b : Version} : a.before b = true ↔ a.rank < b.rank := by
  unfold before rank
  rw [Prod.Lex.toLex_lt_toLex, Prod.Lex.toLex_lt_toLex]
  simp

/-! ## Runs of digits -/

/-- A run of digits of any script. -/
structure IsRun (run : List Char) : Prop where
  ne_nil : run ≠ []
  digits : ∀ c ∈ run, isDigit c = true

/-- The number of a run: zero, unless it is a decimal number of 64 bits. -/
def number (run : List Char) : Nat :=
  if (∀ c ∈ run, c.isDigit = true) ∧ Nat.ofDigitChars 10 run 0 < 2 ^ 64 then
    Nat.ofDigitChars 10 run 0
  else 0

theorem IsRun.unsigned? {run : List Char} (h : IsRun run) :
    Text.unsigned? 10 run = Text.digitsFrom? 10 0 run := by
  have hplus : isDigit '+' = false := by decide
  unfold Text.unsigned?
  split
  · have hdigit := h.digits '+' List.mem_cons_self
    rw [hplus] at hdigit
    cases hdigit
  · rw [if_neg (by simpa using h.ne_nil)]

theorem part_eq_number {run : List Char} (h : IsRun run) : part run = number run := by
  have hpow : Nat.pow 2 64 = 2 ^ 64 := rfl
  unfold part number
  rw [h.unsigned?, hpow]
  by_cases hdecimal : ∀ c ∈ run, c.isDigit = true
  · rw [Text.digitsFrom?_decimal hdecimal]
    by_cases hsmall : Nat.ofDigitChars 10 run 0 < 2 ^ 64
    · rw [if_pos ⟨hdecimal, hsmall⟩, Option.filter_some, if_pos (decide_eq_true hsmall),
        Option.getD_some]
    · rw [if_neg fun hboth => hsmall hboth.2, Option.filter_some,
        if_neg (by simpa using hsmall), Option.getD_none]
  · have hnone : Text.digitsFrom? 10 0 run = none := by
      rw [Option.eq_none_iff_forall_ne_some]
      intro n hn
      apply hdecimal
      intro c hc
      obtain ⟨v, hv⟩ := Text.exists_digitValue? hn c hc
      exact Text.isDigit_of_digitValue? hv
    rw [hnone, if_neg fun hboth => hdecimal hboth.1]
    rfl

/-- A run is taken from the front of a text as a whole. -/
theorem digits?_eq_some_iff {s run rest : List Char} : digits? s = some (run, rest) ↔
    s = run ++ rest ∧ IsRun run ∧ ∀ c ∈ rest.head?, isDigit c = false := by
  unfold digits?
  constructor
  · intro h
    split at h
    · cases h
    · rename_i hne
      cases h
      refine ⟨List.takeWhile_append_dropWhile.symm, ⟨hne, fun c hc => ?_⟩, fun c hc => ?_⟩
      · exact List.mem_takeWhile_imp hc
      · have hnot := List.head?_dropWhile_not isDigit s
        rw [Option.mem_def.1 hc] at hnot
        exact Bool.eq_false_of_not_eq_true (by simpa using hnot)
  · rintro ⟨rfl, hrun, hrest⟩
    have htake : (run ++ rest).takeWhile isDigit = run := by
      rw [List.takeWhile_append_of_pos hrun.digits]
      cases rest with
      | nil => simp
      | cons c rest => simp [hrest c rfl]
    have hdrop : (run ++ rest).dropWhile isDigit = rest := by
      rw [List.dropWhile_append_of_pos hrun.digits]
      cases rest with
      | nil => rfl
      | cons c rest => simp [hrest c rfl]
    rw [htake, hdrop]
    split
    · exact absurd rfl hrun.ne_nil
    · rfl

theorem point?_eq_some_iff {s rest : List Char} : point? s = some rest ↔ s = '.' :: rest := by
  unfold point?
  split
  · simp
  · rename_i hpoint
    constructor
    · intro h
      cases h
    · rintro rfl
      exact absurd rfl (hpoint rest)

/-! ## The version in a text -/

/-- A text that begins with three runs of digits, with points between them. -/
inductive Leads : List Char → Version → Prop
  | intro {major minor patch back : List Char} (hmajor : IsRun major) (hminor : IsRun minor)
      (hpatch : IsRun patch) (hback : ∀ c ∈ back.head?, isDigit c = false) :
      Leads (major ++ '.' :: (minor ++ '.' :: (patch ++ back)))
        ⟨number major, number minor, number patch⟩

theorem atFront?_eq_some_iff {s : List Char} {v : Version} :
    atFront? s = some v ↔ Leads s v := by
  have hpoint : ∀ rest : List Char, ∀ c ∈ ('.' :: rest).head?, isDigit c = false := by
    intro rest c hc
    obtain rfl := Option.some.inj hc
    decide
  unfold atFront?
  simp only [Option.bind_eq_bind, Option.bind_eq_some_iff, Prod.exists, digits?_eq_some_iff,
    point?_eq_some_iff]
  constructor
  · rintro ⟨major, _, ⟨rfl, hmajor, -⟩, _, rfl, minor, _, ⟨rfl, hminor, -⟩, _, rfl, patch, back,
      ⟨rfl, hpatch, hback⟩, hv⟩
    obtain rfl := Option.some.inj hv
    rw [part_eq_number hmajor, part_eq_number hminor, part_eq_number hpatch]
    exact Leads.intro hmajor hminor hpatch hback
  · rintro @⟨major, minor, patch, back, hmajor, hminor, hpatch, hback⟩
    refine ⟨major, _, ⟨rfl, hmajor, hpoint _⟩, _, rfl, minor, _, ⟨rfl, hminor, hpoint _⟩, _,
      rfl, patch, back, ⟨rfl, hpatch, hback⟩, ?_⟩
    rw [part_eq_number hmajor, part_eq_number hminor, part_eq_number hpatch]

/-- A digit in front goes with the first run. -/
theorem Leads.cons {s : List Char} {v : Version} (h : Leads s v) {d : Char}
    (hd : isDigit d = true) : ∃ w, Leads (d :: s) w := by
  obtain @⟨major, minor, patch, back, hmajor, hminor, hpatch, hback⟩ := h
  have hlong : IsRun (d :: major) :=
    ⟨List.cons_ne_nil d major, List.forall_mem_cons.2 ⟨hd, hmajor.digits⟩⟩
  exact ⟨_, Leads.intro hlong hminor hpatch hback⟩

/-- After `front`, three runs of digits with points between them, each of them whole. -/
structure StandsAfter (front s : List Char) (v : Version) : Prop where
  leads : ∃ rest, s = front ++ rest ∧ Leads rest v
  whole : ∀ c ∈ front.getLast?, isDigit c = false

/-- The version that a text is read as: that of the leftmost place, or zero throughout. -/
inductive Reads (s : List Char) : Version → Prop
  | leftmost {front : List Char} {v : Version} (here : StandsAfter front s v)
      (first : ∀ other w, StandsAfter other s w → front.length ≤ other.length) : Reads s v
  | nowhere (none : ∀ front v, ¬ StandsAfter front s v) : Reads s ⟨0, 0, 0⟩

theorem find?_cons {c : Char} {rest : List Char} :
    find? (c :: rest) = (atFront? (c :: rest)).or (find? rest) := by
  rw [find?]
  cases atFront? (c :: rest) with
  | none => rfl
  | some v => rfl

theorem not_leads_of_find?_eq_none {s : List Char} (h : find? s = none) {front rest : List Char}
    (hs : s = front ++ rest) (v : Version) : ¬ Leads rest v := by
  induction s generalizing front with
  | nil =>
    obtain ⟨-, rfl⟩ := List.append_eq_nil_iff.1 hs.symm
    rw [← atFront?_eq_some_iff]
    nofun
  | cons c s ih =>
    rw [find?_cons, Option.or_eq_none_iff] at h
    cases front with
    | nil =>
      rw [← atFront?_eq_some_iff, ← List.nil_append rest, ← hs, h.1]
      nofun
    | cons d front => exact ih h.2 (List.cons.inj hs).2

/-- What is found leads a part of the text, and no longer part begins with a version. -/
theorem exists_of_find? {s : List Char} {v : Version} (h : find? s = some v) :
    ∃ front rest, s = front ++ rest ∧ Leads rest v ∧
      ∀ other more w, s = other ++ more → Leads more w → front.length ≤ other.length := by
  induction s with
  | nil => cases h
  | cons c s ih =>
    rw [find?_cons, Option.or_eq_some_iff] at h
    obtain hhere | ⟨hnone, hlater⟩ := h
    · exact ⟨[], c :: s, rfl, atFront?_eq_some_iff.1 hhere, fun _ _ _ _ _ => Nat.zero_le _⟩
    · obtain ⟨front, rest, rfl, hleads, hfirst⟩ := ih hlater
      refine ⟨c :: front, rest, rfl, hleads, fun other more w hs hmore => ?_⟩
      cases other with
      | nil =>
        obtain rfl : c :: (front ++ rest) = more := hs
        rw [← atFront?_eq_some_iff, hnone] at hmore
        cases hmore
      | cons d other => exact Nat.succ_le_succ (hfirst other more w (List.cons.inj hs).2 hmore)

theorem reads_find? (s : List Char) : Reads s ((find? s).getD ⟨0, 0, 0⟩) := by
  cases hf : find? s with
  | none =>
    refine Reads.nowhere fun front v h => ?_
    obtain ⟨rest, hs, hleads⟩ := h.leads
    exact not_leads_of_find?_eq_none hf hs v hleads
  | some v =>
    obtain ⟨front, rest, rfl, hleads, hfirst⟩ := exists_of_find? hf
    have hwhole : ∀ c ∈ front.getLast?, isDigit c = false := by
      -- Else a version would begin at the digit, one place earlier.
      intro c hc
      obtain ⟨init, rfl⟩ := List.getLast?_eq_some_iff.1 (Option.mem_def.1 hc)
      by_contra hdigit
      obtain ⟨w, hw⟩ := hleads.cons (Bool.eq_true_of_not_eq_false hdigit)
      have hle := hfirst init (c :: rest) w (by rw [List.append_assoc]; rfl) hw
      rw [List.length_append, List.length_singleton] at hle
      omega
    refine Reads.leftmost ⟨⟨rest, rfl, hleads⟩, hwhole⟩ fun other w h => ?_
    obtain ⟨more, hs, hmore⟩ := h.leads
    exact hfirst other more w hs hmore

theorem Reads.unique {s : List Char} {v w : Version} (hv : Reads s v) (hw : Reads s w) : v = w := by
  cases hv with
  | leftmost here first =>
    cases hw with
    | leftmost other least =>
      have hlength := Nat.le_antisymm (first _ _ other) (least _ _ here)
      obtain ⟨rest, hs, hleads⟩ := here.leads
      obtain ⟨more, hmore, hother⟩ := other.leads
      obtain ⟨-, rfl⟩ := List.append_inj (hs.symm.trans hmore) hlength
      rw [← atFront?_eq_some_iff] at hleads hother
      exact Option.some.inj (hleads.symm.trans hother)
    | nowhere none => exact absurd here (none _ _)
  | nowhere none =>
    cases hw with
    | leftmost other least => exact absurd other (none _ _)
    | nowhere => rfl

theorem ofPath_eq_iff {p : Path} {v : Version} : ofPath p = v ↔ Reads p.text.toList v := by
  have hreads : Reads p.text.toList (ofPath p) := reads_find? p.text.toList
  constructor
  · rintro rfl
    exact hreads
  · exact hreads.unique

end Version

/-! ## The newest of several archives -/

/-- The first of the archives of the greatest version. -/
def FirstNewest (ps : List Path) (p : Path) : Prop :=
  ∃ earlier others, ps = earlier ++ p :: others ∧
    (∀ q ∈ earlier, (Version.ofPath q).rank < (Version.ofPath p).rank) ∧
    ∀ q ∈ ps, ¬ (Version.ofPath p).rank < (Version.ofPath q).rank

theorem later_eq (a b : Path) : later a b =
    if (Version.ofPath a).rank < (Version.ofPath b).rank then b else a := by
  unfold later
  simp only [Version.before_iff]

theorem firstNewest_foldl (best : Path) (rest : List Path) :
    FirstNewest (best :: rest) (rest.foldl later best) := by
  -- The best so far stands for all that were seen: the rest is told for any start.
  induction rest generalizing best with
  | nil => exact ⟨[], [], rfl, by simp, by simp⟩
  | cons q rest ih =>
    rw [List.foldl_cons, later_eq]
    split
    · rename_i hlt
      obtain ⟨earlier, others, hsplit, hearlier, hmost⟩ := ih q
      have hbest := hlt.trans_le (not_lt.1 (hmost q List.mem_cons_self))
      refine ⟨best :: earlier, others, by rw [hsplit]; rfl, ?_, ?_⟩
      · exact List.forall_mem_cons.2 ⟨hbest, hearlier⟩
      · exact List.forall_mem_cons.2 ⟨hbest.not_gt, hmost⟩
    · rename_i hle
      obtain ⟨earlier, others, hsplit, hearlier, hmost⟩ := ih best
      have hq := (not_lt.1 hle).trans (not_lt.1 (hmost best List.mem_cons_self))
      have hall : ∀ x ∈ best :: q :: rest, ¬ (Version.ofPath (rest.foldl later best)).rank <
          (Version.ofPath x).rank := by
        obtain ⟨hfirst, hrest⟩ := List.forall_mem_cons.1 hmost
        exact List.forall_mem_cons.2 ⟨hfirst, List.forall_mem_cons.2 ⟨not_lt.2 hq, hrest⟩⟩
      cases earlier with
      | nil =>
        obtain ⟨hp, -⟩ := List.cons.inj hsplit
        rw [← hp] at hall ⊢
        exact ⟨[], q :: rest, rfl, by simp, hall⟩
      | cons first earlier =>
        obtain ⟨rfl, hrest⟩ := List.cons.inj hsplit
        obtain ⟨hbest, hearlier⟩ := List.forall_mem_cons.1 hearlier
        refine ⟨best :: q :: earlier, others, ?_, ?_, hall⟩
        · exact congrArg (best :: q :: ·) hrest
        · exact List.forall_mem_cons.2
            ⟨hbest, List.forall_mem_cons.2 ⟨(not_lt.1 hle).trans_lt hbest, hearlier⟩⟩

theorem FirstNewest.unique {ps : List Path} {p q : Path} (hp : FirstNewest ps p)
    (hq : FirstNewest ps q) : p = q := by
  obtain ⟨before, after, rfl, hbefore, hmost⟩ := hp
  obtain ⟨earlier, others, hsplit, hearlier, hleast⟩ := hq
  rw [List.append_eq_append_iff] at hsplit
  obtain ⟨between, rfl, htail⟩ | ⟨between, rfl, htail⟩ := hsplit
  · cases between with
    | nil => exact (List.cons.inj htail).1
    | cons first between =>
      obtain ⟨rfl, -⟩ := List.cons.inj htail
      have hlt := hearlier p (List.mem_append_right before List.mem_cons_self)
      exact absurd hlt (hmost q (by simp [htail]))
  · cases between with
    | nil => exact (List.cons.inj htail).1.symm
    | cons first between =>
      obtain ⟨rfl, -⟩ := List.cons.inj htail
      have hlt := hbefore q (List.mem_append_right earlier List.mem_cons_self)
      exact absurd hlt (hleast p (by simp))

theorem newest?_eq_none_iff {ps : List Path} : newest? ps = none ↔ ps = [] := by
  cases ps with
  | nil => exact iff_of_true rfl rfl
  | cons p rest => simp [newest?]

theorem newest?_eq_some_iff {ps : List Path} {p : Path} :
    newest? ps = some p ↔ FirstNewest ps p := by
  cases ps with
  | nil =>
    refine iff_of_false nofun ?_
    rintro ⟨earlier, others, hsplit, -⟩
    exact List.append_ne_nil_of_right_ne_nil earlier (List.cons_ne_nil p others) hsplit.symm
  | cons best rest =>
    have hnewest := firstNewest_foldl best rest
    change some (rest.foldl later best) = some p ↔ _
    rw [Option.some.injEq]
    constructor
    · rintro rfl
      exact hnewest
    · exact hnewest.unique

/-- Of several archives the first of the greatest version is chosen, and there is none to choose
only if there are no archives. The version of an archive is the leftmost one in its path. -/
theorem newest?_first_of_greatest (ps : List Path) :
    (newest? ps = none ↔ ps = []) ∧
    (∀ p, newest? ps = some p ↔ FirstNewest ps p) ∧
    ∀ p v, Version.ofPath p = v ↔ Version.Reads p.text.toList v :=
  ⟨newest?_eq_none_iff, fun _ => newest?_eq_some_iff, fun _ _ => Version.ofPath_eq_iff⟩

/-- Parts of a version that go on after a slash are no version, and the first of equal ones wins. -/
example : newest? [⟨"1.2/3.4.5"⟩, ⟨"03.04.5.6"⟩, ⟨"3.4"⟩] = some ⟨"1.2/3.4.5"⟩ := by decide

end HelpMiner.Archive
