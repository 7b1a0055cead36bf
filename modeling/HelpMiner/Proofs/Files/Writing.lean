import HelpMiner.Proofs.Files.Action
import HelpMiner.Proofs.Files.Change

/-! Texts that are written and files that are removed one after another: what is there afterwards,
that all else stays as it was, and that to write once more changes nothing. -/
namespace HelpMiner.Action

open FileTree (KeepsDirs Same Grows)
open HelpMiner.Path (EndsInName)

/-! ## Directories on the way -/

section Way

variable {t u v : FileTree} {whole p : Path}

theorem makeDir_ok : runOn t (makeDir whole p) = (.ok (), u) ↔
    t.makeDir p = .ok u ∨ t.isDir p = true ∧ u = t := by
  unfold makeDir
  rw [runOn_change_ok]
  by_cases hd : t.isDir p = true
  · rw [FileTree.makeDir_of_isDir hd]
    simp [hd, eq_comm]
  · split
    · rename_i hm
      simp [hd, hm]
    · simp [hd]

theorem keeps_makeDir : Keeps Grows (makeDir whole p) := by
  apply Keeps.change Grows.refl
  intro t after h
  have hrun : runOn t (makeDir whole p) = (.ok (), after) := runOn_change_ok.2 h
  obtain hmade | ⟨-, rfl⟩ := makeDir_ok.1 hrun
  · exact Grows.makeDir hmade
  · exact Grows.refl after

theorem makeWay_succ {n : Nat} {parent : Path} (h : p.parent? = some parent) :
    makeWay whole (n + 1) p = get >>= fun now =>
      if now.makeDir p matches .error .notFound then
        makeWay whole n parent >>= fun _ => makeDir whole p
      else makeDir whole p := by
  rw [makeWay]
  split
  · rename_i hnone
    cases h.symm.trans hnone
  · rename_i other hother
    cases h.symm.trans hother
    rfl

theorem keeps_makeWay (n : Nat) : Keeps Grows (makeWay whole n p) := by
  induction n generalizing p with
  | zero => exact Keeps.pure Grows.refl ()
  | succ n ih =>
    cases hparent : p.parent? with
    | none =>
      rw [makeWay, hparent]
      exact Keeps.pure Grows.refl ()
    | some parent =>
      rw [makeWay_succ hparent]
      apply Keeps.bind (R := Grows) fun _ _ _ => Grows.trans
      · exact Grows.refl
      · intro now
        split
        · exact Keeps.bind (R := Grows) (fun _ _ _ => Grows.trans) ih fun _ => keeps_makeDir
        · exact keeps_makeDir

theorem isDir_of_makeDir (h : runOn t (makeDir whole p) = (.ok (), u)) : u.isDir p = true := by
  obtain hmade | ⟨hd, rfl⟩ := makeDir_ok.1 h
  · obtain ⟨place, hnone, rfl, hl, -⟩ := FileTree.makeDir_ok hmade
    have hne : place ≠ [] := FileTree.ne_root_of_at? (by rw [hnone]; nofun)
    exact FileTree.isDir_iff.2 ⟨place, hl, by rw [FileTree.at?_put hne, if_pos rfl]⟩
  · exact hd

/-- Where directories were made, they are not made again. -/
theorem makeWay_again {n : Nat} (h : runOn t (makeWay whole n p) = (.ok (), u))
    (hkeeps : KeepsDirs u v) : runOn v (makeWay whole n p) = (.ok (), v) := by
  cases n with
  | zero => rfl
  | succ n =>
    cases hparent : p.parent? with
    | none =>
      rw [makeWay, hparent]
      rfl
    | some parent =>
      rw [makeWay_succ hparent] at h ⊢
      have hd : u.isDir p = true := by
        obtain ⟨now, mid, -, h⟩ := exists_of_bind_ok h
        split at h
        · obtain ⟨-, mid, -, h⟩ := exists_of_bind_ok h
          exact isDir_of_makeDir h
        · exact isDir_of_makeDir h
      have hv := hkeeps.isDir hd
      have hagain : runOn v (makeDir whole p) = (.ok (), v) := makeDir_ok.2 (Or.inr ⟨hv, rfl⟩)
      rw [runOn_bind_ok (runOn_get v), FileTree.makeDir_of_isDir hv]
      exact hagain

end Way

/-! ## Files -/

section File

variable {t u v : FileTree} {p : Path} {text : String} {place : Place}

/-- Make the directories on the way to a file. -/
def makeParent (p : Path) : Action Unit :=
  match p.parent? with
  | some parent => makeDirs parent
  | none => pure ()

theorem writeText_eq : writeText p text =
    makeParent p >>= fun _ => change p fun t => t.write p text.toUTF8 := by
  unfold writeText writeBytes makeParent
  cases p.parent? with
  | none => rfl
  | some parent => rfl

theorem keeps_makeParent : Keeps Grows (makeParent p) := by
  unfold makeParent
  split
  · exact keeps_makeWay _
  · exact Keeps.pure Grows.refl ()

theorem grows_makeParent (h : runOn t (makeParent p) = (.ok (), u)) : Grows t u := by
  have hgrows := keeps_makeParent (p := p) t
  rwa [h] at hgrows

theorem makeParent_again (h : runOn t (makeParent p) = (.ok (), u)) (hkeeps : KeepsDirs u v) :
    runOn v (makeParent p) = (.ok (), v) := by
  unfold makeParent at h ⊢
  split
  · rename_i parent hparent
    rw [hparent] at h
    exact makeWay_again h hkeeps
  · rfl

/-- A text is written after the tree may have grown. -/
theorem writeText_ok (h : runOn t (writeText p text) = (.ok (), u)) : EndsInName p ∧
    ∃ mid place, runOn t (makeParent p) = (.ok (), mid) ∧ mid.locate p = .ok place ∧
      mid.at? place ≠ some .dir ∧ u = mid.put place (.file text.toUTF8) := by
  rw [writeText_eq] at h
  obtain ⟨_, mid, hroom, hwrite⟩ := exists_of_bind_ok h
  obtain ⟨hname, place, hl, ha, hu⟩ := FileTree.write_eq_ok.1 (runOn_change_ok.1 hwrite)
  exact ⟨hname, mid, place, hroom, hl, ha, hu⟩

theorem keepsDirs_writeText (h : runOn t (writeText p text) = (.ok (), u)) : KeepsDirs t u := by
  obtain ⟨-, mid, place, hroom, -, ha, rfl⟩ := writeText_ok h
  exact (grows_makeParent hroom).keepsDirs.trans (KeepsDirs.putFile ha _)

/-- A text that is where it is written is written again without a change. -/
theorem writeText_again (h : runOn t (writeText p text) = (.ok (), u)) (hkeeps : KeepsDirs u v)
    (hl : v.locate p = .ok place) (ha : v.at? place = some (.file text.toUTF8)) :
    ∃ w, runOn v (writeText p text) = (.ok (), w) ∧ Same v w := by
  obtain ⟨hname, mid, _, hroom, -, hfree, rfl⟩ := writeText_ok h
  have hput := KeepsDirs.putFile hfree text.toUTF8
  have hne : place ≠ [] := FileTree.ne_root_of_at? (by rw [ha]; nofun)
  refine ⟨v.put place (.file text.toUTF8), ?_, rfl, fun q => ?_⟩
  · rw [writeText_eq, runOn_bind_ok (makeParent_again hroom (hput.trans hkeeps)), runOn_change_ok,
      FileTree.write_eq_ok]
    exact ⟨hname, place, hl, by rw [ha]; nofun, rfl⟩
  · rw [FileTree.at?_put hne]
    by_cases hq : q = place
    · rw [if_pos hq, hq, ha]
    · rw [if_neg hq]

end File

/-! ## Lists of files -/

/-- Paths that, if they end in names, never lead to one place. -/
def Apart (p q : Path) : Prop := EndsInName p → EndsInName q →
  ∀ (t : FileTree) (place : Place), t.locate p = .ok place → t.locate q ≠ .ok place

/-- Paths that lead to one place in a tree. -/
def Meet (t : FileTree) (p q : Path) : Prop :=
  ∃ place, t.locate p = .ok place ∧ t.locate q = .ok place

theorem Apart.not_meet {p q : Path} (h : Apart p q) (hp : EndsInName p) (hq : EndsInName q)
    (t : FileTree) : ¬ Meet t p q := by
  rintro ⟨place, hl, hother⟩
  exact h hp hq t place hl hother

/-- Paths with different file names are apart. -/
theorem apart_of_fileName?_ne {p q : Path} (h : p.fileName? ≠ q.fileName?) : Apart p q := by
  intro hp hq t place hl hother
  obtain ⟨dir, m, -, hm, -, rfl⟩ := FileTree.exists_place_of_endsInName hp hl
  obtain ⟨next, n, -, hn, -, hplace⟩ := FileTree.exists_place_of_endsInName hq hother
  obtain rfl : m = n := FileTree.name_inj hplace
  exact h (hm.trans hn.symm)

/-- Different names in one directory are apart. -/
theorem apart_join {p : Path} {m n : String} (hm : '/' ∉ m.toList) (hn : '/' ∉ n.toList)
    (hne : m ≠ n) : Apart (p.join ⟨m⟩) (p.join ⟨n⟩) := by
  intro hp hq
  have hfile := Path.fileName?_join p (Path.EndsInName.isName p hm hp)
  have hother := Path.fileName?_join p (Path.EndsInName.isName p hn hq)
  refine apart_of_fileName?_ne ?_ hp hq
  rw [hfile, hother]
  exact fun h => hne (Option.some.inj h)

/-- Where files are written, the last of them is left, and the rest is as it was, apart from new
directories. -/
structure LastWrote (files : List (Path × String)) (t u : FileTree) : Prop where
  keepsDirs : KeepsDirs t u
  proper : t.Proper → u.Proper
  endsInName : ∀ e ∈ files, EndsInName e.1
  left : ∀ front e back, files = front ++ e :: back → ∃ place, u.locate e.1 = .ok place ∧
    ((∀ x ∈ back, u.locate x.1 ≠ .ok place) → u.at? place = some (.file e.2.toUTF8))
  at? : ∀ place, (∀ e ∈ files, u.locate e.1 ≠ .ok place) →
    u.at? place = t.at? place ∨ t.at? place = none ∧ u.at? place = some .dir

namespace LastWrote

variable {t mid u : FileTree} {e : Path × String} {rest : List (Path × String)}

theorem nil (t : FileTree) : LastWrote [] t t where
  keepsDirs := KeepsDirs.refl t
  proper := id
  endsInName := fun _ he => absurd he List.not_mem_nil
  left := fun _ _ _ h => absurd h.symm (List.append_ne_nil_of_right_ne_nil _ (List.cons_ne_nil _ _))
  at? := fun _ _ => Or.inl rfl

theorem one (h : runOn t (writeText e.1 e.2) = (.ok (), u)) : LastWrote [e] t u := by
  have hkeeps := keepsDirs_writeText h
  obtain ⟨hname, mid, place, hroom, hl, ha, rfl⟩ := writeText_ok h
  have hgrows := grows_makeParent hroom
  have hne := FileTree.ne_root_of_at? ha
  have hplace : (mid.put place (.file e.2.toUTF8)).locate e.1 = .ok place :=
    (KeepsDirs.putFile ha _).locate hl
  refine ⟨hkeeps, fun ht => ?_, ?_, ?_, fun q hq => ?_⟩
  · exact (hgrows.proper ht).put hne ((hgrows.proper ht).place hname hl) _
  · intro x hx
    rwa [List.mem_singleton.1 hx]
  · intro front x back hsplit
    have hx : x ∈ [e] := by
      rw [hsplit]
      exact List.mem_append_right front List.mem_cons_self
    rw [List.mem_singleton.1 hx]
    exact ⟨place, hplace, fun _ => by rw [FileTree.at?_put hne, if_pos rfl]⟩
  · have hother : q ≠ place := by
      rintro rfl
      exact hq e (List.mem_singleton_self e) hplace
    rw [FileTree.at?_put hne, if_neg hother]
    exact hgrows.at? q

theorem cons (hfirst : LastWrote [e] t mid) (hrest : LastWrote rest mid u) :
    LastWrote (e :: rest) t u := by
  refine ⟨hfirst.keepsDirs.trans hrest.keepsDirs, fun ht => hrest.proper (hfirst.proper ht),
    ?_, ?_, fun q hq => ?_⟩
  · intro x hx
    obtain rfl | hx := List.mem_cons.1 hx
    · exact hfirst.endsInName x (List.mem_singleton_self x)
    · exact hrest.endsInName x hx
  · intro front x back hsplit
    cases front with
    | nil =>
      obtain ⟨rfl, rfl⟩ := List.cons.inj hsplit
      obtain ⟨place, hl, ha⟩ := hfirst.left [] e [] rfl
      have hfile := ha fun _ hx => absurd hx List.not_mem_nil
      refine ⟨place, hrest.keepsDirs.locate hl, fun hlater => ?_⟩
      obtain hsame | ⟨hnone, -⟩ := hrest.at? place hlater
      · rw [hsame, hfile]
      · rw [hfile] at hnone
        cases hnone
    | cons first front => exact hrest.left front x back (List.cons.inj hsplit).2
  · have hstep : mid.at? q = t.at? q ∨ t.at? q = none ∧ mid.at? q = some .dir := by
      apply hfirst.at?
      intro x hx hl
      rw [List.mem_singleton.1 hx] at hl
      exact hq e List.mem_cons_self (hrest.keepsDirs.locate hl)
    obtain hsame | ⟨hnone, hdir⟩ := hstep
    · rw [← hsame]
      exact hrest.at? q fun x hx => hq x (List.mem_cons_of_mem e hx)
    · exact Or.inr ⟨hnone, hrest.keepsDirs.dir q hdir⟩

/-- A file is read as its text if no later one leads to its place. -/
theorem text {files : List (Path × String)} (h : LastWrote files t u)
    {front back : List (Path × String)} (hsplit : files = front ++ e :: back) {p : Path}
    (hp : Meet u p e.1) (hlater : ∀ x ∈ back, ¬ Meet u p x.1) : u.text p = .ok e.2 := by
  obtain ⟨place, hl, ha⟩ := h.left front e back hsplit
  obtain ⟨_, hlp, hle⟩ := hp
  obtain rfl := Except.ok.inj (hl.symm.trans hle)
  exact FileTree.text_of_file hlp (ha fun x hx hlx => hlater x hx ⟨place, hlp, hlx⟩)

theorem meet_self {files : List (Path × String)} (h : LastWrote files t u) (he : e ∈ files) :
    Meet u e.1 e.1 := by
  obtain ⟨front, back, hsplit⟩ := List.append_of_mem he
  obtain ⟨place, hl, -⟩ := h.left front e back hsplit
  exact ⟨place, hl, hl⟩

end LastWrote

/-- The files are there with their texts, and the rest is as it was, apart from new directories. -/
structure Wrote (files : List (Path × String)) (t u : FileTree) : Prop where
  keepsDirs : KeepsDirs t u
  proper : t.Proper → u.Proper
  endsInName : ∀ e ∈ files, EndsInName e.1
  content : ∀ e ∈ files, ∃ place, u.locate e.1 = .ok place ∧
    u.at? place = some (.file e.2.toUTF8)
  at? : ∀ place, (∀ e ∈ files, u.locate e.1 ≠ .ok place) →
    u.at? place = t.at? place ∨ t.at? place = none ∧ u.at? place = some .dir

/-- If no two paths lead to one place, no file is lost. -/
theorem LastWrote.wrote {files : List (Path × String)} {t u : FileTree} (h : LastWrote files t u)
    (hapart : files.Pairwise fun a b => Apart a.1 b.1) : Wrote files t u := by
  refine ⟨h.keepsDirs, h.proper, h.endsInName, fun e he => ?_, h.at?⟩
  obtain ⟨front, back, rfl⟩ := List.append_of_mem he
  obtain ⟨place, hl, ha⟩ := h.left front e back rfl
  have hback := (List.pairwise_cons.1 (List.pairwise_append.1 hapart).2.1).1
  refine ⟨place, hl, ha fun x hx => ?_⟩
  have hmem : x ∈ front ++ e :: back := List.mem_append_right front (List.mem_cons_of_mem e hx)
  exact hback x hx (h.endsInName e he) (h.endsInName x hmem) u place hl

section Run

variable {t u v : FileTree} {files : List (Path × String)}

theorem lastWrote_forM (h : runOn t (files.forM fun e => writeText e.1 e.2) = (.ok (), u)) :
    LastWrote files t u := by
  induction files generalizing t with
  | nil =>
    cases h
    exact LastWrote.nil _
  | cons e rest ih =>
    obtain ⟨mid, hfirst, hrest⟩ := exists_of_forM_cons_ok h
    exact (LastWrote.one hfirst).cons (ih hrest)

theorem wrote_forM (hapart : files.Pairwise fun a b => Apart a.1 b.1)
    (h : runOn t (files.forM fun e => writeText e.1 e.2) = (.ok (), u)) : Wrote files t u :=
  (lastWrote_forM h).wrote hapart

/-- Files that are there are written again without a change. -/
theorem forM_again (h : runOn t (files.forM fun e => writeText e.1 e.2) = (.ok (), u))
    (hkeeps : KeepsDirs u v)
    (hcontent : ∀ e ∈ files, ∃ place, v.locate e.1 = .ok place ∧
      v.at? place = some (.file e.2.toUTF8)) :
    ∃ w, runOn v (files.forM fun e => writeText e.1 e.2) = (.ok (), w) ∧ Same v w := by
  induction files generalizing t v with
  | nil => exact ⟨v, rfl, Same.refl v⟩
  | cons e rest ih =>
    obtain ⟨mid, hfirst, hrest⟩ := exists_of_forM_cons_ok h
    obtain ⟨place, hl, ha⟩ := hcontent e List.mem_cons_self
    obtain ⟨next, hnext, hsame⟩ :=
      writeText_again hfirst ((lastWrote_forM hrest).keepsDirs.trans hkeeps) hl ha
    obtain ⟨w, hw, hlast⟩ := ih hrest (hkeeps.trans hsame.keepsDirs) fun x hx => by
      obtain ⟨q, hq, hfile⟩ := hcontent x (List.mem_cons_of_mem e hx)
      exact ⟨q, by rw [hsame.locate, hq], by rw [hsame.at?, hfile]⟩
    refine ⟨w, ?_, hsame.trans hlast⟩
    change runOn v (writeText e.1 e.2 >>= fun _ => rest.forM fun e => writeText e.1 e.2) = _
    rw [runOn_bind_ok hnext, hw]

end Run

/-- Nothing is left where the paths lead, and the rest is as it was. -/
structure Cleared (paths : List Path) (t u : FileTree) : Prop where
  keepsDirs : KeepsDirs t u
  cleared : ∀ p ∈ paths, ∃ place, u.locate p = .ok place ∧ u.at? place = none
  at? : ∀ place, (∀ p ∈ paths, u.locate p ≠ .ok place) → u.at? place = t.at? place

namespace Cleared

variable {paths : List Path} {t u : FileTree} (h : Cleared paths t u)

include h

/-- What is left was there. -/
theorem at?_of_ne_none {place : Place} (hu : u.at? place ≠ none) : u.at? place = t.at? place := by
  apply h.at?
  intro p hp hl
  obtain ⟨other, hother, hnone⟩ := h.cleared p hp
  rw [hl] at hother
  rw [Except.ok.inj hother] at hu
  exact hu hnone

/-- The files that are left are those to which no path leads. -/
theorem file_iff {place : Place} {bytes : ByteArray} : u.at? place = some (.file bytes) ↔
    (∀ p ∈ paths, u.locate p ≠ .ok place) ∧ t.at? place = some (.file bytes) := by
  constructor
  · intro hu
    refine ⟨fun p hp hl => ?_, ?_⟩
    · obtain ⟨other, hother, hnone⟩ := h.cleared p hp
      rw [hl] at hother
      rw [← Except.ok.inj hother, hu] at hnone
      cases hnone
    · rw [← h.at?_of_ne_none (by rw [hu]; nofun), hu]
  · rintro ⟨hpaths, ht⟩
    rw [h.at? place hpaths, ht]

theorem keepsDirs_back : KeepsDirs u t := by
  refine ⟨h.keepsDirs.current.symm, fun place hd => ?_⟩
  rw [← h.at?_of_ne_none (by rw [hd]; nofun), hd]

end Cleared

theorem cleared_removeFile {t u : FileTree} {p : Path}
    (h : runOn t (removeFile p) = (.ok (), u)) : Cleared [p] t u := by
  obtain ⟨place, bytes, hl, ha, rfl⟩ := FileTree.removeFile_eq_ok.1 (runOn_change_ok.1 h)
  have hne : place ≠ [] := FileTree.ne_root_of_at? (by rw [ha]; nofun)
  have hkeeps : KeepsDirs t (t.without (· == place)) := by
    refine ⟨rfl, fun q hd => ?_⟩
    have hother : q ≠ place := by
      rintro rfl
      rw [ha] at hd
      cases hd
    rw [FileTree.at?_without hne, if_neg hother, hd]
  refine ⟨hkeeps, fun q hq => ?_, fun q hq => ?_⟩
  · rw [List.mem_singleton.1 hq]
    exact ⟨place, hkeeps.locate hl, by rw [FileTree.at?_without hne, if_pos rfl]⟩
  · have hother : q ≠ place := by
      rintro rfl
      exact hq p (List.mem_singleton_self p) (hkeeps.locate hl)
    rw [FileTree.at?_without hne, if_neg hother]

theorem cleared_forM {t u : FileTree} {paths : List Path}
    (h : runOn t (paths.forM removeFile) = (.ok (), u)) : Cleared paths t u := by
  induction paths generalizing t with
  | nil =>
    cases h
    exact ⟨KeepsDirs.refl _, fun p hp => absurd hp List.not_mem_nil, fun _ _ => rfl⟩
  | cons p rest ih =>
    obtain ⟨mid, hfirst, hrest⟩ := exists_of_forM_cons_ok h
    have hone := cleared_removeFile hfirst
    have hmore := ih hrest
    refine ⟨hone.keepsDirs.trans hmore.keepsDirs, fun q hq => ?_, fun place hplace => ?_⟩
    · obtain rfl | hq := List.mem_cons.1 hq
      · obtain ⟨place, hl, ha⟩ := hone.cleared q (List.mem_singleton_self q)
        refine ⟨place, hmore.keepsDirs.locate hl, ?_⟩
        by_cases hlater : ∀ x ∈ rest, u.locate x ≠ .ok place
        · rw [hmore.at? place hlater, ha]
        · -- A path further on may lead to the same place, where nothing is left either.
          push Not at hlater
          obtain ⟨x, hx, hlx⟩ := hlater
          obtain ⟨other, hother, hgone⟩ := hmore.cleared x hx
          rw [hlx] at hother
          rwa [Except.ok.inj hother]
      · exact hmore.cleared q hq
    · rw [hmore.at? place fun x hx => hplace x (List.mem_cons_of_mem p hx)]
      apply hone.at?
      intro x hx hl
      rw [List.mem_singleton.1 hx] at hl
      exact hplace p List.mem_cons_self (hmore.keepsDirs.locate hl)

end HelpMiner.Action
