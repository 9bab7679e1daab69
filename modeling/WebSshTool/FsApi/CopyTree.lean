import Mathlib.Data.Set.Card
import Mathlib.Data.Set.Finite.List
import WebSshTool.FsApi.CopyDir

/-!
# When a copy of a directory ends, and what it then is

A call that returns has made a copy, so what is left to ask is whether it
returns. It does when the destination is not around: the source is then as deep
after each entry as before, and one deeper than what the next call has to copy.

When the destination is the source or below it, the destination is listed on
the way, and so is every destination after that. Each call makes the next one,
and none of them returns.
-/

namespace WebSshTool.FsApi

open Files (Bytes Error)
open Inodes

variable {π ν : Type*} [DecidableEq ν] {os : Posix π ν} {v w u : Volume ν} {src dst : π}
  {d : Nat} {y : Slot ν} {p : ν × Entry} {entries : List (ν × Entry)}
  {recurse recurse' : Volume ν → π → π → Option (Volume ν × Except Error Unit)}
  {r : Volume ν × Except Error Unit}

/-! ## Fuel

A call that has returned on some fuel returns the same on more. -/

theorem copyOne_mono (h : ∀ v src dst r, recurse v src dst = some r →
      recurse' v src dst = some r) (hone : copyOne os recurse v src dst p = some r) :
    copyOne os recurse' v src dst p = some r := by
  unfold copyOne at hone ⊢
  split at hone
  · next hdir =>
      rw [if_pos hdir]
      exact h _ _ _ _ hone
  · next hdir =>
      rw [if_neg hdir]
      exact hone

theorem copyEntries_mono (h : ∀ v src dst r, recurse v src dst = some r →
      recurse' v src dst = some r) (hcopy : copyEntries os recurse v src dst entries = some r) :
    copyEntries os recurse' v src dst entries = some r := by
  induction entries generalizing v with
  | nil => exact hcopy
  | cons p entries ih =>
      rw [copyEntries] at hcopy ⊢
      cases hone : copyOne os recurse v src dst p with
      | none =>
          rw [hone] at hcopy
          exact absurd hcopy (by simp)
      | some t =>
          rw [copyOne_mono h hone]
          rw [hone] at hcopy
          obtain ⟨w, r'⟩ := t
          cases r' with
          | ok => exact ih hcopy
          | error e => exact hcopy

theorem copyDirAll_mono {fuel : Nat} (h : copyDirAll os fuel v src dst = some r) :
    ∀ more ≥ fuel, copyDirAll os more v src dst = some r := by
  induction fuel generalizing v src dst r with
  | zero => exact absurd h (by simp [copyDirAll])
  | succ fuel ih =>
      intro more hmore
      obtain ⟨more, rfl⟩ : ∃ n, more = n + 1 := ⟨more - 1, by omega⟩
      rw [copyDirAll] at h ⊢
      split
      · next e hcreate => simpa only [hcreate] using h
      · next w hcreate =>
          simp only [hcreate] at h
          split
          · next e hread => simpa only [hread] using h
          · next entries hread =>
              simp only [hread] at h
              exact copyEntries_mono (fun _ _ _ _ hr => ih hr more (by omega)) h

/-! ## The loop -/

theorem copyEntries_returns (hrecurse : Copies os recurse) (hv : v.Sound)
    (hsrc : os.stat v.entry src = some (.directory d)) (hdst : os.slot v.entry dst = some y)
    (hreturns : ∀ p entries w, Filled v d y (p :: entries) w →
      ∃ r, copyOne os recurse w src dst p = some r) :
    ∀ entries w, Filled v d y entries w →
      ∃ r, copyEntries os recurse w src dst entries = some r := by
  intro entries
  induction entries with
  | nil => exact fun w _ => ⟨_, rfl⟩
  | cons p entries ih =>
      intro w h
      obtain ⟨⟨u, r⟩, hone⟩ := hreturns p entries w h
      obtain ⟨rfl, hu⟩ := h.step hv hsrc hdst hrecurse hone
      rw [copyEntries, hone]
      exact ih u hu

theorem copyEntries_diverges (hrecurse : Copies os recurse) (hv : v.Sound)
    (hsrc : os.stat v.entry src = some (.directory d)) (hdst : os.slot v.entry dst = some y)
    (hdiverges : ∀ entries w, Filled v d y (p :: entries) w →
      copyOne os recurse w src dst p = none) :
    ∀ entries w, p ∈ entries → Filled v d y entries w →
      copyEntries os recurse w src dst entries = none := by
  intro entries
  induction entries with
  | nil => exact fun w hp => absurd hp (by simp)
  | cons q entries ih =>
      intro w hp h
      rw [copyEntries]
      cases hone : copyOne os recurse w src dst q with
      | none => rfl
      | some t =>
          obtain ⟨u, r⟩ := t
          obtain ⟨rfl, hu⟩ := h.step hv hsrc hdst hrecurse hone
          rcases List.mem_cons.mp hp with rfl | hp
          · rw [hdiverges entries w h] at hone
            exact absurd hone (by simp)
          · exact ih u hp hu

/-! ## The calls -/

/-- An entry that is no directory is dealt with in any case. -/
theorem copyOne_returns (hp : ∀ c, p.2 ≠ .directory c) :
    ∃ r, copyOne os recurse w src dst p = some r := by
  obtain ⟨name, e⟩ := p
  cases e with
  | directory c => exact absurd rfl (hp c)
  | file i => exact ⟨_, rfl⟩
  | special i => exact ⟨_, rfl⟩

/-- The source stays as deep as it was, so each call has less to copy. -/
theorem copyDirAll_returns {height : Nat} (hv : v.Sound)
    (hsrc : os.stat v.entry src = some (.directory d)) (hdst : os.slot v.entry dst = some y)
    (hfree : v.entry y = none) (hout : ¬ Below v.entry d y.1)
    (hheight : v.Height (.directory d) height) :
    ∃ r, copyDirAll os (height + 1) v src dst = some r := by
  induction height generalizing v src dst d y with
  | zero =>
      rw [copyDirAll_succ hv hsrc hdst hfree]
      refine copyEntries_returns (copyDirAll_copies 0) hv hsrc hdst ?_ _ _
        (Filled.start hv hdst hfree d)
      intro p entries w h
      have hheight' := h.filling.grown.source_height (Posix.stat_lt hv hsrc) hout hheight
      have hpos := hheight'.pos (h.filling.source p (.head _))
      exact absurd hpos (Nat.lt_irrefl 0)
  | succ height ih =>
      rw [copyDirAll_succ hv hsrc hdst hfree]
      refine copyEntries_returns (copyDirAll_copies (height + 1)) hv hsrc hdst ?_ _ _
        (Filled.start hv hdst hfree d)
      intro p entries w h
      by_cases hp : ∃ c, p.2 = .directory c
      · obtain ⟨name, e⟩ := p
        obtain ⟨c, rfl⟩ : ∃ c, e = .directory c := hp
        have hw := h.filling.grown.sound
        have hd : d < v.count := Posix.stat_lt hv hsrc
        have hentry : w.entry (d, name) = some (.directory c) := h.filling.source _ (.head _)
        obtain ⟨hsrc', hdst'⟩ := h.filling.stats hv hsrc hdst
        have hslot := os.slot_join _ _ _ name hsrc'
        have hheight' := h.filling.grown.source_height hd hout hheight
        exact ih hw (os.stat_slot _ _ _ _ hslot hentry (by simp))
          (os.slot_join _ _ _ name hdst') (h.filling.free _ (.head _))
          (fun hbelow => h.filling.grown.source_below hd hout (hbelow.head hentry))
          (hheight'.child hentry)
      · exact copyOne_returns fun c hc => hp ⟨c, hc⟩

/-- The new directory is there before the source is read. -/
theorem Filling.start_extends (h : Filling v d y entries w) (hv : v.Sound) :
    Extends (v.addDirectory y).entry w.entry := by
  intro x e hx
  by_cases hxy : x = y
  · rw [hxy] at hx ⊢
    rw [h.target, ← hx]
    exact (Volume.add_entry_self).symm
  · have hx : v.entry x = some e := (Volume.add_entry_of_ne hxy).symm.trans hx
    exact h.grown.extends hv x e hx

/-- A destination that is around is copied into itself. -/
theorem copyDirAll_diverges (fuel : Nat) (hv : v.Sound)
    (hsrc : os.stat v.entry src = some (.directory d)) (hdst : os.slot v.entry dst = some y)
    (hfree : v.entry y = none) (hin : Below v.entry d y.1) :
    copyDirAll os fuel v src dst = none := by
  induction fuel generalizing v src dst d y with
  | zero => rfl
  | succ fuel ih =>
      have hparent := os.slot_parent _ _ _ hdst
      have hgrown := grown_addDirectory hv hparent hfree
      have hnew : (v.addDirectory y).entry (y.1, y.2) = some (.directory v.count) :=
        Volume.add_entry_self
      have hin' : Below (v.addDirectory y).entry d v.count :=
        (hin.mono (hgrown.extends hv)).tail hnew
      rcases hin'.cases_head with heq | ⟨name, c, hentry, hbelow⟩
      · have hd : d < v.count := Posix.stat_lt hv hsrc
        exact absurd heq.symm (Nat.ne_of_lt hd)
      · rw [copyDirAll_succ hv hsrc hdst hfree]
        refine copyEntries_diverges (copyDirAll_copies fuel) hv hsrc hdst ?_ _ _
          (Posix.mem_entries hgrown.sound hentry) (Filled.start hv hdst hfree d)
        intro entries w h
        obtain ⟨hsrc', hdst'⟩ := h.filling.stats hv hsrc hdst
        have hslot := os.slot_join _ _ _ name hsrc'
        have hentry' : w.entry (d, name) = some (.directory c) := h.filling.source _ (.head _)
        exact ih h.filling.grown.sound (os.stat_slot _ _ _ _ hslot hentry' (by simp))
          (os.slot_join _ _ _ name hdst') (h.filling.free _ (.head _))
          (hbelow.mono (h.filling.start_extends hv))

/-! ## What has been made -/

/-- The directories that are in `w` and were not in `v`. -/
def Created (v w : Volume ν) : Set Nat :=
  {i | (∃ x, w.entry x = some (.directory i)) ∧ ¬ ∃ x, v.entry x = some (.directory i)}

/-- The directories of a tree, the one at its root among them, by their place. -/
def directories (v : Volume ν) (d : Nat) : Set (List ν) :=
  {names | ∃ c, find v.entry (.directory d) names = some (.directory c)}

omit [DecidableEq ν] in
theorem directories_of_seen {names : List ν} {c i : Nat}
    (hfind : find w.entry (.directory c) names = some (.directory i))
    (hlooks : Looks v d w c names) : names ∈ directories v d := by
  have hseen : w.seen (.directory c) names = some .directory := by
    rw [Volume.seen, hfind]
    rfl
  rw [hlooks.1, Volume.seen] at hseen
  obtain ⟨e, he, hnode⟩ := Option.bind_eq_some_iff.mp hseen
  cases e with
  | directory c => exact ⟨c, he⟩
  | file i => exact absurd hnode (by simp [Volume.node])
  | special i => exact absurd hnode (by simp [Volume.node])

omit [DecidableEq ν] in
/-- Each new directory is the copy of one. -/
theorem Copied.created_le (h : Copied v d y w) (hout : ¬ Below v.entry d y.1) :
    (Created v w).encard ≤ (directories v d).encard := by
  have hsub : Created v w ⊆ (fun names =>
      ((find w.entry (.directory v.count) names).map Entry.ino).getD 0) '' directories v d := by
    rintro i ⟨⟨x, hx⟩, hnew⟩
    have hi : v.count ≤ i := by
      rcases h.grown.fresh x _ hx with hold | ⟨hi, -⟩
      · exact absurd ⟨x, hold⟩ hnew
      · exact hi
    obtain ⟨e, names, he, hfind⟩ := h.grown.below x i hx hi
    rw [h.target] at he
    obtain rfl := Option.some.inj he
    refine ⟨names, directories_of_seen hfind (h.image hout names), ?_⟩
    simp only [hfind, Option.map_some, Option.getD_some, Entry.ino]
  exact (Set.encard_le_encard hsub).trans (Set.encard_image_le _ _)

/-! ## A small tree

Two names are enough. In directory `[false]` there are a file and a directory
with nothing in it. -/

abbrev smallPosix : Posix (List Bool) Bool := Posix.plain [false, true] (by decide) (by decide)

def smallTree : Volume Bool :=
  ((((Volume.empty Bool).addDirectory (0, false)).addFile (1, false)).write 2 0
    [0x61]).addDirectory (1, true)

theorem smallTree_entry (x : Slot Bool) :
    smallTree.entry x =
      if x = (1, true) then some (.directory 3)
      else if x = (1, false) then some (.file 2)
      else if x = (0, false) then some (.directory 1)
      else none := by
  simp only [smallTree, Volume.addDirectory, Volume.addFile, Volume.add, Volume.write,
    Volume.empty, Function.update_apply]

theorem smallTree_sound : smallTree.Sound := by
  have hempty : (Volume.empty Bool).Sound := by
    refine ⟨by decide, fun x e h => absurd h (by simp [Volume.empty]), fun d => ?_⟩
    exact Set.toFinite _
  have hdirectory := grown_addDirectory (y := (0, false)) hempty (.inl rfl) rfl
  have hfile := grown_addFile (y := (1, false)) hdirectory.sound (.inr ⟨(0, false), rfl⟩) rfl
  have hwritten := hfile.write (j := 2) (by decide) [0x61]
  exact (grown_addDirectory (y := (1, true)) hwritten.sound (.inr ⟨(0, false), rfl⟩) rfl).sound

theorem smallTree_finite : smallTree.FiniteTree 1 := by
  refine (List.finite_length_le Bool 1).subset ?_
  intro names hnames
  match names with
  | [] => exact Nat.zero_le 1
  | [_] => exact Nat.le_refl 1
  | first :: second :: names =>
      have hnone : find smallTree.entry (.directory 1) (first :: second :: names) = none := by
        cases first <;> cases second <;> rfl
      have hsome : (find smallTree.entry (.directory 1) (first :: second :: names)).isSome =
        true := hnames
      rw [hnone] at hsome
      exact absurd hsome (by simp)

/-! ## Termination -/

/-- `copy_dir_all` reaches a result, and has created no more directories than
there are in its source. -/
def Ends (os : Posix π ν) (v : Volume ν) (src dst : π) (d : Nat) : Prop :=
  ∃ fuel w r, copyDirAll os fuel v src dst = some (w, r) ∧
    (Created v w).encard ≤ (directories v d).encard

omit [DecidableEq ν] in
theorem created_self (v : Volume ν) : Created v v = ∅ :=
  Set.eq_empty_of_forall_notMem fun _ h => h.2 h.1

/-- The root has no slot, and in a slot that is taken nothing is made. -/
theorem copyDirAll_refused (os : Posix π ν) (v : Volume ν) (src : π) {dst : π}
    (h : ∀ y, os.slot v.entry dst = some y → v.entry y ≠ none) :
    ∃ e, copyDirAll os 1 v src dst = some (v, .error e) := by
  cases hdst : os.slot v.entry dst with
  | none => exact ⟨.notFound, by simp only [copyDirAll, atSlot, hdst]⟩
  | some y =>
      obtain ⟨e, he⟩ := Option.ne_none_iff_exists'.mp (h y hdst)
      exact ⟨.exists, by simp only [copyDirAll, atSlot, hdst, Volume.createDir, he]⟩

/-- A copy of a finite tree ends unless it is to go into that tree. -/
theorem copyDirAll_ends_iff (hv : v.Sound) (hsrc : os.stat v.entry src = some (.directory d))
    (hfinite : v.FiniteTree d) :
    Ends os v src dst d ↔
      ∀ y, os.slot v.entry dst = some y → v.entry y = none → ¬ Below v.entry d y.1 := by
  constructor
  · rintro ⟨fuel, w, r, hcopy, -⟩ y hdst hfree hin
    rw [copyDirAll_diverges fuel hv hsrc hdst hfree hin] at hcopy
    exact absurd hcopy (by simp)
  · intro hout
    by_cases htaken : ∀ y, os.slot v.entry dst = some y → v.entry y ≠ none
    · obtain ⟨e, he⟩ := copyDirAll_refused os v src htaken
      exact ⟨1, v, .error e, he, by simp [created_self]⟩
    · push Not at htaken
      obtain ⟨y, hdst, hfree⟩ := htaken
      have hy := hout y hdst hfree
      obtain ⟨height, hheight⟩ := hfinite.height
      obtain ⟨⟨w, r⟩, hcopy⟩ := copyDirAll_returns hv hsrc hdst hfree hy hheight
      obtain ⟨-, hcopied⟩ := copyDirAll_copies _ v src dst d y hv hsrc hdst hfree w r hcopy
      exact ⟨_, w, r, hcopy, hcopied.created_le hy⟩

/-- A copy to a free name beside the source. -/
theorem copyDirAll_ends_beside :
    Ends smallPosix smallTree [false] [true] 1 ↔
      ∀ y, smallPosix.slot smallTree.entry [true] = some y → smallTree.entry y = none →
        ¬ Below smallTree.entry 1 y.1 :=
  copyDirAll_ends_iff smallTree_sound rfl smallTree_finite

/-- A copy to a new name in the empty directory of the source. -/
theorem copyDirAll_into_itself :
    smallTree.Sound ∧ smallPosix.stat smallTree.entry [false] = some (.directory 1) ∧
      smallTree.FiniteTree 1 ∧ ¬ Ends smallPosix smallTree [false] [false, true, false] 1 := by
  refine ⟨smallTree_sound, rfl, smallTree_finite, ?_⟩
  rintro ⟨fuel, w, r, hcopy, -⟩
  have hbelow : Below smallTree.entry 1 3 := ⟨[true], rfl⟩
  have hsrc : smallPosix.stat smallTree.entry [false] = some (.directory 1) := rfl
  have hdst : smallPosix.slot smallTree.entry [false, true, false] = some (3, false) := rfl
  rw [copyDirAll_diverges fuel smallTree_sound hsrc hdst rfl hbelow] at hcopy
  exact absurd hcopy (by simp)

/-! ## Exactness -/

/-- In `w` slot `y` is a directory in which a reader gets to see what is in
directory `d` of `v`. That one is what it was, and so is everything outside. -/
structure Exact (v : Volume ν) (d : Nat) (y : Slot ν) (w : Volume ν) : Prop where
  copy : ∃ c, w.entry y = some (.directory c) ∧ (∀ names, Looks v d w c names) ∧
    ∀ x, x ≠ y → ¬ Below w.entry c x.1 → w.entry x = v.entry x
  source : ∀ names, find w.entry (.directory d) names = find v.entry (.directory d) names
  content : ∀ i < v.count, w.content i = v.content i

omit [DecidableEq ν] in
theorem Copied.exact (h : Copied v d y w) (hv : v.Sound) (hd : d < v.count)
    (hout : ¬ Below v.entry d y.1) : Exact v d y w where
  copy := by
    refine ⟨v.count, h.target, h.image hout, fun x hne hbelow => ?_⟩
    by_cases hx : x.1 < v.count
    · exact h.grown.others x hx hne
    · cases hw : w.entry x with
      | none =>
          cases hold : v.entry x with
          | none => rfl
          | some e => exact absurd (hv.inside_lt hold) hx
      | some e =>
          have hroot := hv.root
          rcases h.grown.sound.inside x e hw with h0 | ⟨z, hz⟩
          · exact absurd (h0 ▸ hroot) hx
          · obtain ⟨f, names, hf, hfind⟩ := h.grown.below z x.1 hz (Nat.not_lt.mp hx)
            rw [h.target] at hf
            obtain rfl := Option.some.inj hf
            exact absurd ⟨names, hfind⟩ hbelow
  source := h.grown.source_eq hd hout
  content := h.grown.content

/-- The call returns, on whatever fuel above some. -/
def Returns (os : Posix π ν) (v : Volume ν) (src dst : π) (w : Volume ν)
    (r : Except Error Unit) : Prop :=
  ∃ fuel, ∀ more ≥ fuel, fsCp os more v src dst = some (w, r)

/-- `fs_cp` of a finite directory tree: to a free slot outside it returns with
`Ok` and has made an exact copy. To one that is taken, and to a path without a slot of
its own such as the root, it fails and leaves everything as it was. -/
theorem fsCp_exact (hv : v.Sound) (hsrc : os.stat v.entry src = some (.directory d))
    (hfinite : v.FiniteTree d) :
    (∀ y, os.slot v.entry dst = some y → v.entry y = none → ¬ Below v.entry d y.1 →
      ∃ w, Returns os v src dst w (.ok ()) ∧ Exact v d y w) ∧
    ((∀ y, os.slot v.entry dst = some y → v.entry y ≠ none) →
      ∃ e, Returns os v src dst v (.error e)) := by
  have hfsCp : ∀ fuel, fsCp os fuel v src dst = copyDirAll os fuel v src dst := by
    intro fuel
    simp only [fsCp, hsrc]
  constructor
  · intro y hdst hfree hout
    obtain ⟨height, hheight⟩ := hfinite.height
    obtain ⟨⟨w, r⟩, hcopy⟩ := copyDirAll_returns hv hsrc hdst hfree hout hheight
    obtain ⟨rfl, hcopied⟩ := copyDirAll_copies _ v src dst d y hv hsrc hdst hfree w r hcopy
    refine ⟨w, ⟨height + 1, fun more hmore => ?_⟩,
      hcopied.exact hv (Posix.stat_lt hv hsrc) hout⟩
    rw [hfsCp]
    exact copyDirAll_mono hcopy more hmore
  · intro htaken
    obtain ⟨e, he⟩ := copyDirAll_refused os v src htaken
    exact ⟨e, 1, fun fuel hfuel => (hfsCp fuel).trans (copyDirAll_mono he fuel hfuel)⟩

/-- To a free name beside the source, to the source itself and to the root. -/
theorem fsCp_exact_beside :
    (∃ w, Returns smallPosix smallTree [false] [true] w (.ok ()) ∧
      Exact smallTree 1 (0, true) w) ∧
    (∃ e, Returns smallPosix smallTree [false] [false] smallTree (.error e)) ∧
    ∃ e, Returns smallPosix smallTree [false] [] smallTree (.error e) := by
  have hout : ¬ Below smallTree.entry 1 0 := by
    rintro ⟨names, hnames⟩
    rcases find_last hnames with heq | ⟨x, hx⟩
    · exact absurd heq (by decide)
    · rw [smallTree_entry] at hx
      repeat' split at hx
      all_goals exact absurd hx (by simp)
  have hsrc : smallPosix.stat smallTree.entry [false] = some (.directory 1) := rfl
  refine ⟨(fsCp_exact smallTree_sound hsrc smallTree_finite).1 (0, true) rfl rfl hout,
    (fsCp_exact smallTree_sound hsrc smallTree_finite).2 fun y hy => ?_,
    (fsCp_exact smallTree_sound hsrc smallTree_finite).2 fun y hy => ?_⟩
  · obtain rfl : (0, false) = y := Option.some.inj hy
    decide
  · cases hy

end WebSshTool.FsApi
