import HelpMiner.Proofs.Document.Json.Parts
import HelpMiner.Proofs.Document.Stored

/-! JSON documents are read as the values they were written for. -/
namespace HelpMiner.Document.Json

/-! ## Single values -/

theorem readText_string (expected : String) {s : List Char} {t : String} {rest : List Char}
    (hs : skipSpace s = string t ++ rest) : readText expected s = .ok (t, rest) := by
  obtain ⟨hstring, hbody⟩ := stringBody_string t rest
  unfold readText
  rw [hs, hstring]
  simp only [hbody, Except.map, String.ofList_toList]

theorem readsAs_text (expected : String) (t : String) :
    ReadsAs (fun s => (readText expected s).map fun r => (Value.text r.1, r.2)) (.text t)
      (.text t) := by
  intro level s rest _ hs
  rw [value] at hs
  simp only [readText_string expected hs, Except.map]

theorem readsAs_bool (b : Bool) : ReadsAs readBool (.bool b) (.bool b) := by
  intro level s rest _ hs
  unfold readBool
  rw [hs]
  cases b <;> rfl

theorem readsAs_unsigned (type : String) {k : Nat} (hk : k < Nat.pow 2 64) :
    ReadsAs (readUnsigned type) (.nat k) (.nat k) := by
  intro level s rest hrest hs
  have hnumber := number_toDigits hk hrest
  obtain ⟨c, ds, hds, hc, -⟩ := Text.exists_toDigits_eq_cons k
  rw [value, hds, List.cons_append] at hs
  rw [hds, List.cons_append] at hnumber
  have hsign : c ≠ '-' := by
    rintro rfl
    exact absurd hc (by decide)
  simp [readUnsigned, hs, hc, hnumber, bind, Except.bind]

theorem readsAs_choice {names : List String} {t : String} (ht : t ∈ names) :
    ReadsAs (readChoice names) (.text t) (.text t) := by
  intro level s rest _ hs
  obtain ⟨hstring, hbody⟩ := stringBody_string t rest
  rw [value, hstring] at hs
  have hknown : known names t = .ok (.text t) := if_pos (List.contains_iff_mem.2 ht)
  simp [readChoice, hs, hbody, hknown, bind, Except.bind, pure, Except.pure]

theorem readsAs_pair (a b : String) : ReadsAs readPair (.texts [a, b]) (.texts [a, b]) := by
  intro level s rest _ hs
  have hlist : Value.texts [a, b] = .list [.text a, .text b] := rfl
  rw [hlist, value_list, List.cons_append] at hs
  have ha := readText_string "a string" (skipSpace_value (level + 1) (.text a)
    (itemsFrom level false [.text b] ++ rest))
  have hb := readText_string "a string" (skipSpace_value (level + 1) (.text b)
    (itemsFrom level false [] ++ rest))
  simp only [readPair, hs, nextItem_cons, bind, Except.bind, ha, hb, endList_nil, pure,
    Except.pure]

/-! ## Lists, maps and records -/

theorem readsAs_list {read : List Char → Except Problem (Value × List Char)}
    {ps : List (Value × Value)} (h : ∀ p ∈ ps, ReadsAs read p.1 p.2) :
    ReadsAs (fun s => match skipSpace s with
      | '[' :: rest => (allItems read (steps rest) true rest).map fun r => (Value.list r.1, r.2)
      | _ => .error (wrongType "a sequence" s))
      (.list (ps.map Prod.fst)) (.list (ps.map Prod.snd)) := by
  intro level s rest _ hs
  rw [value_list, List.cons_append] at hs
  have hfuel := length_lt_steps_itemsFrom level (ps.map Prod.fst) rest
  rw [List.length_map] at hfuel
  simp only [hs, allItems_itemsFrom h level rest hfuel true, Except.map]

theorem readsAs_table {expected : String} {check : String → Except Problem Unit} {read : Reader}
    {depth : Nat} {ps : List (String × Value × Value)} (hcheck : ∀ p ∈ ps, check p.1 = .ok ())
    (h : ∀ p ∈ ps, ReadsAs (read (depth - 1)) p.2.1 p.2.2) :
    ReadsAs (readTable expected check read depth) (.map (ps.map fun p => (p.1, p.2.1)))
      (.map (ps.map fun p => (p.1, p.2.2))) := by
  intro level s rest _ hs
  rw [value_map, List.cons_append] at hs
  have hfuel := length_lt_steps_membersFrom level (ps.map fun p => (p.1, p.2.1)) rest
  rw [List.length_map] at hfuel
  have hread : ∀ p ∈ ps, ∀ more, Followed more →
      ((check p.1).bind fun _ => (colon (':' :: ' ' :: (value (level + 1) p.2.1 ++ more))).bind
        (read (depth - 1))) = .ok (p.2.2, more) := by
    intro p hp more hmore
    simp only [hcheck p hp, Except.bind, colon_space]
    exact (h p hp).apply_space (level + 1) hmore
  have hmembers := @allMembers_membersFrom _
    (fun key s => (check key).bind fun _ => (colon s).bind (read (depth - 1))) ps level rest hread
    _ hfuel true
  simp only [readTable, hs, hmembers, Except.map]

theorem fill_found {fs : List Filled} (homitted : ∀ f ∈ fs, f.OmittedRight)
    {found : List (String × Value)} (h : ∀ f ∈ fs, f.FoundIn found) :
    fill found (fieldReaders (Filled.fields fs)) = .ok (Filled.results fs) := by
  induction fs with
  | nil => rfl
  | cons f fs ih =>
    rw [List.forall_mem_cons] at homitted h
    have hrest := ih homitted.2 h.2
    have hfind := h.1
    rw [Filled.FoundIn] at hfind
    simp only [Filled.fields, List.map_cons, Fields.ofList, fieldReaders, fill, hfind] at hrest ⊢
    cases hw : f.written with
    | some v => simp [hrest, Filled.results, bind, Except.bind, pure, Except.pure]
    | none =>
      rcases homitted.1 hw with hm | ⟨hm, hr⟩
      · simp [hm, hrest, Filled.results, bind, Except.bind, pure, Except.pure]
      · simp [hm, hr, hrest, Filled.results, bind, Except.bind, pure, Except.pure]

theorem fieldReaders_fields (fs : List Filled) :
    fieldReaders (Filled.fields fs) = fs.map fun f => ⟨f.name, f.missing, reader f.shape⟩ := by
  unfold Filled.fields
  induction fs with
  | nil => rfl
  | cons f fs ih => rw [List.map_cons, List.map_cons, ← ih]; rfl

theorem find?_fieldReaders {fs : List Filled} (hnames : (fs.map Filled.name).Nodup) {f : Filled}
    (hf : f ∈ fs) :
    (fieldReaders (Filled.fields fs)).find? (fun r => r.name == f.name) =
      some ⟨f.name, f.missing, reader f.shape⟩ := by
  rw [fieldReaders_fields]
  exact @Filled.find?_map _ FieldReader.name _ (fun _ => rfl) fs hnames f hf

/-- The members that are left of a record are read, given those before them. -/
theorem readMembers_membersFrom {closed : Bool} {depth : Nat} {fs : List Filled}
    (hnames : (fs.map Filled.name).Nodup) (homitted : ∀ f ∈ fs, f.OmittedRight)
    (h : ∀ f ∈ fs, ∀ v, f.written = some v → ReadsAs (reader f.shape (depth - 1)) v f.result)
    (level : Nat) (rest : List Char) {pre suf : List Filled} (hsplit : pre ++ suf = fs)
    {fuel : Nat} (hfuel : (Filled.members suf).length < fuel) (first : Bool) :
    readMembers closed (fieldReaders (Filled.fields fs)) depth fuel first (Filled.found pre)
      (membersFrom level first (Filled.members suf) ++ rest) =
      .ok (.map (Filled.results fs), rest) := by
  induction suf generalizing pre fuel first with
  | nil =>
    obtain ⟨fuel, rfl⟩ : ∃ n, fuel = n + 1 := ⟨fuel - 1, by omega⟩
    rw [List.append_nil] at hsplit
    have hfill := fill_found homitted fun f hf => Filled.foundIn_found hnames hf
    have hmembers : Filled.members [] = [] := rfl
    rw [hsplit, hmembers, readMembers, nextKey_nil]
    simp only [bind, Except.bind, hfill, endMap_nil, pure, Except.pure]
  | cons f suf ih =>
    -- Whether it is written or not, the field joins those before.
    have hsplit' : pre ++ [f] ++ suf = fs := by rw [← hsplit, List.append_assoc]; rfl
    have hf : f ∈ fs := by simp [← hsplit]
    cases hw : f.written with
    | none =>
      rw [Filled.members_cons_of_none hw] at hfuel ⊢
      rw [← Filled.found_concat_of_none hw]
      exact ih hsplit' hfuel first
    | some v =>
      rw [Filled.members_cons_of_some hw] at hfuel ⊢
      obtain ⟨fuel, rfl⟩ : ∃ n, fuel = n + 1 := ⟨fuel - 1, by omega⟩
      rw [List.length_cons, Nat.add_lt_add_iff_right] at hfuel
      have hreader := find?_fieldReaders hnames hf
      have hnew := Filled.any_found_eq_false (hsplit ▸ hnames)
      have hread := (h f hf v hw).apply_space (level + 1)
        (followed_membersFrom level (Filled.members suf) rest)
      have hrest := ih hsplit' hfuel false
      rw [Filled.found_concat_of_some hw] at hrest
      rw [readMembers, nextKey_cons]
      simp only [bind, Except.bind, stringBody_flatMap_escape, String.ofList_toList, hreader, hnew,
        colon_space, hread, Bool.false_eq_true, if_false]
      exact hrest

theorem readsAs_record {name : String} {closed : Bool} {depth : Nat} {fs : List Filled}
    (hnames : (fs.map Filled.name).Nodup) (homitted : ∀ f ∈ fs, f.OmittedRight)
    (h : ∀ f ∈ fs, ∀ v, f.written = some v → ReadsAs (reader f.shape (depth - 1)) v f.result) :
    ReadsAs (readRecord name closed (fieldReaders (Filled.fields fs)) depth)
      (.map (Filled.members fs)) (.map (Filled.results fs)) := by
  intro level s rest _ hs
  rw [value_map, List.cons_append] at hs
  have hfuel := length_lt_steps_membersFrom level (Filled.members fs) rest
  have hmembers := @readMembers_membersFrom closed depth fs hnames homitted h level rest [] fs rfl
    _ hfuel true
  simp only [readRecord, hs]
  exact hmembers

/-! ## Tagged values -/

theorem content_string {depth : Nat} (t : String) {s rest : List Char}
    (hs : skipSpace s = string t ++ rest) : content (depth + 1) s = .ok (.text t, rest) := by
  obtain ⟨hstring, hbody⟩ := stringBody_string t rest
  rw [hstring] at hs
  simp [content, hs, hbody, Except.map]

theorem readTagged_tag {tag : String} {variants : List Variant} {v : Variant}
    (hv : Variant.ofTag variants v.tag = .ok v) (depth fuel : Nat) (level : Nat)
    (ms : List (String × Value)) (rest : List Char) :
    readTagged tag variants depth (fuel + 1) true none []
      (membersFrom level true ((tag, .text v.tag) :: ms) ++ rest) =
      readTagged tag variants depth fuel false (some v) []
        (membersFrom level false ms ++ rest) := by
  have htext := readText_string "variant identifier" ((skipSpace_space _).trans
    (skipSpace_value (level + 1) (.text v.tag) (membersFrom level false ms ++ rest)))
  rw [readTagged, nextKey_cons]
  simp [bind, Except.bind, stringBody_flatMap_escape, colon_space, htext, hv, Except.mapError]

theorem readTagged_field {tag field : String} (hne : field ≠ tag) (variants : List Variant)
    (v : Variant) (t : String) (depth fuel : Nat) (level : Nat) (rest : List Char) :
    readTagged tag variants (depth + 2) (fuel + 1) false (some v) []
      (membersFrom level false [(field, .text t)] ++ rest) =
      readTagged tag variants (depth + 2) fuel false (some v) [(.text field, .text t)]
        (membersFrom level false [] ++ rest) := by
  have hcontent := @content_string depth t _ _ ((skipSpace_space _).trans
    (skipSpace_value (level + 1) (.text t) (membersFrom level false [] ++ rest)))
  rw [readTagged, nextKey_cons]
  simp [bind, Except.bind, stringBody_flatMap_escape, colon_space, hcontent, hne]

theorem readTagged_end (tag : String) (variants : List Variant) (v : Variant)
    (others : List (Content × Content)) (depth fuel : Nat) (level : Nat) (first : Bool)
    (rest : List Char) :
    readTagged tag variants depth (fuel + 1) first (some v) others
      (membersFrom level first [] ++ rest) = .ok (v, .map others, rest) := by
  rw [readTagged, nextKey_nil]
  simp only [bind, Except.bind, endMap_nil, pure, Except.pure]

theorem readsAs_variant {name tag : String} {variants : List Variant} {v : Variant}
    (hv : Variant.ofTag variants v.tag = .ok v) (hf : v.field = none) (depth : Nat) :
    ReadsAs (readVariant name tag variants depth) (v.value tag none) (v.value tag none) := by
  intro level s rest _ hs
  have hmap : v.value tag none = .map [(tag, .text v.tag)] := rfl
  rw [hmap, value_map, List.cons_append] at hs
  simp only [readVariant, hs, steps, readTagged_tag hv, readTagged_end, bind, Except.bind]
  simp [Variant.read, hf, Except.mapError, pure, Except.pure]

theorem readsAs_variantWith {name tag field : String} {variants : List Variant} {v : Variant}
    (hv : Variant.ofTag variants v.tag = .ok v) (hf : v.field = some field) (hne : field ≠ tag)
    (t : String) (depth : Nat) :
    ReadsAs (readVariant name tag variants (depth + 2)) (v.value tag (some (field, t)))
      (v.value tag (some (field, t))) := by
  intro level s rest _ hs
  have hmap : v.value tag (some (field, t)) = .map [(tag, .text v.tag), (field, .text t)] := rfl
  rw [hmap, value_map, List.cons_append] at hs
  obtain ⟨fuel, hfuel⟩ : ∃ n, steps (membersFrom level true [(tag, .text v.tag),
      (field, .text t)] ++ rest) = n + 3 := by
    have h := length_lt_steps_membersFrom level [(tag, .text v.tag), (field, .text t)] rest
    exact ⟨_, (Nat.sub_add_cancel h).symm⟩
  simp only [readVariant, hs, hfuel, readTagged_tag hv, readTagged_field hne, readTagged_end, bind,
    Except.bind]
  simp [Variant.read, hf, Content.fieldIn, Content.isField, Content.asText, Except.mapError, pure,
    Except.pure, bind, Except.bind]

/-! ## Documents -/

theorem checkKey_of_hasKey {key : Shape} {k : String} (h : key.HasKey k) :
    checkKey key k = .ok () := by
  cases key with
  | choice names =>
    have hk : k ∈ names := h
    simp [checkKey, known, hk, Except.map]
  | _ => rfl

/-- A value of a shape is read from its text as it is to be read. -/
theorem reader_stored {n : Nat} {shape : Shape} {v w : Value} (h : Stored n shape v w) :
    ∀ depth, n ≤ depth → ReadsAs (reader shape depth) v w := by
  induction h with
  | text t => exact fun depth _ => readsAs_text "a string" t
  | path t => exact fun depth _ => readsAs_text "path string" t
  | bool b => exact fun depth _ => readsAs_bool b
  | unsigned hk => exact fun depth _ => readsAs_unsigned _ hk
  | absent =>
    intro depth _ level s rest _ hs
    rw [reader, hs]
    rfl
  | @present n inner v w hv h ih =>
    intro depth hdepth level s rest hrest hs
    obtain ⟨c, more, hvalue, -, -, hn⟩ := value_eq_cons level v
    have hread := ih depth hdepth level s rest hrest hs
    rw [reader]
    split
    -- Only null begins with its first letter.
    · rename_i heq
      rw [hs, hvalue, List.cons_append] at heq
      exact absurd (List.cons.inj heq).1 (hn hv)
    · exact hread
  | list h ih =>
    intro depth hdepth
    exact readsAs_list fun p hp => ih p hp (depth - 1) (by omega)
  | textPair a b => exact fun depth _ => readsAs_pair a b
  | table hk h ih =>
    intro depth hdepth
    exact readsAs_table (fun p hp => checkKey_of_hasKey (hk p hp))
      fun p hp => ih p hp (depth - 1) (by omega)
  | sections ms =>
    intro depth _
    have htable := @readsAs_table "a mapping from section heading to section text" (fun _ => .ok ())
      (fun _ s => (readText "a string" s).map fun r => (.text r.1, r.2)) depth
      (ms.map fun m => (m.1, .text m.2, .text m.2)) (fun _ _ => rfl) (by
        intro p hp
        obtain ⟨m, -, rfl⟩ := List.mem_map.1 hp
        exact readsAs_text _ _)
    rw [List.map_map, List.map_map] at htable
    exact htable
  | choice ht => exact fun depth _ => readsAs_choice ht
  | @selector n read t u ht =>
    intro depth _ level s rest _ hs
    rw [value] at hs
    simp [reader, readText_string "a string" hs, ht, bind, Except.bind, pure, Except.pure]
  | record hnames h homitted ih =>
    intro depth hdepth
    exact readsAs_record hnames homitted fun f hf v hv => ih f hf v hv (depth - 1) (by omega)
  | variant hv hf => exact fun depth _ => readsAs_variant hv hf depth
  | variantWith hv hf hne t =>
    intro depth hdepth
    obtain ⟨depth, rfl⟩ : ∃ d, depth = d + 2 := ⟨depth - 2, by omega⟩
    exact readsAs_variantWith hv hf hne t depth

/-- A document is read as the value that it was written for. -/
theorem read_render {n : Nat} {shape : Shape} {v w : Value} (h : Stored n shape v w)
    (hn : n ≤ maxDepth) : read shape (render v) = .ok w := by
  have hread := (reader_stored h maxDepth hn).apply 0 ⟨'\n', [], rfl, Or.inr rfl⟩
  rw [read, render, String.toList_ofList, hread]
  rfl

end HelpMiner.Document.Json
