import WebSshTool.FsApi.Alone
import WebSshTool.FsApi.CopyDir

/-!
# A copy, operation by operation

`fsCp` makes a copy in one go. The request makes it in single operations, its
place in the tree kept on a stack. Alone and refused nothing it gets to what
`fsCp` returns: the calls of `copy_dir_all` that are still open are the stack,
and each of them comes back to the loop of the one below.
-/

namespace WebSshTool.FsApi

open Files (Bytes Error)
open Inodes

variable {π ν : Type*} [DecidableEq ν]

/-! ## Single operations -/

section

variable {os : Os π ν} {request : Request π} {init v w : Volume ν} {phase phase' : Phase π}
  {op : Op ν}

theorem Alone.leads_ok (h : perform os v request phase op = some (.ok (w, phase'))) :
    (Alone.machine os request init).Leads Alone.Willing (v, phase) (w, phase') := by
  have hen : (Alone.machine os request init).enabled (v, phase) (.perform op) := by
    simp [Alone.machine, Alone.Label.op, h]
  have hnext : (Alone.machine os request init).next (v, phase) (.perform op) = (w, phase') := by
    simp only [Alone.machine, Alone.next, h]
  exact hnext ▸ Machine.Leads.step hen trivial

theorem Alone.leads_error {e : Error} (h : perform os v request phase op = some (.error e)) :
    (Alone.machine os request init).Leads Alone.Willing (v, phase) (v, failed e phase op) := by
  have hen : (Alone.machine os request init).enabled (v, phase) (.perform op) := by
    simp [Alone.machine, Alone.Label.op, h]
  have hnext : (Alone.machine os request init).next (v, phase) (.perform op) =
      (v, failed e phase op) := by
    simp only [Alone.machine, Alone.next, h]
  exact hnext ▸ Machine.Leads.step hen trivial

omit [DecidableEq ν] in
theorem write_nothing (v : Volume ν) (j : Nat) : v.write j 0 [] = v := by
  simp [Volume.write, Files.writeAt_zero]

omit [DecidableEq ν] in
/-- Behind the end of what has been written there is nothing left to read. -/
theorem drop_written (v : Volume ν) (i j : Nat) :
    ((v.write j 0 (v.content i)).content i).drop (v.content i).length = [] := by
  by_cases hij : i = j
  · subst hij
    rw [Volume.write_content_self, Files.writeAt_zero]
    simp
  · rw [Volume.write_content_of_ne v hij, List.drop_length]

variable (os request init) in
/-- The loop of a copy, in one read and one write. -/
theorem Alone.leads_copied (v : Volume ν) (i j : Nat) (stack : Stack π) :
    (Alone.machine os request init).Leads Alone.Willing (v, .copying i j 0 [] stack)
      (v.write j 0 (v.content i), copied stack) := by
  cases hcontent : v.content i with
  | nil =>
      have hend : perform os v request (.copying i j 0 [] stack) (.read 1) =
          some (.ok (v, copied stack)) := by
        simp [perform, hcontent]
      rw [write_nothing]
      exact Alone.leads_ok hend
  | cons b bs =>
      have hread : perform os v request (.copying i j 0 [] stack) (.read (b :: bs).length) =
          some (.ok (v, .copying i j 0 (b :: bs) stack)) := by
        simp [perform, hcontent]
      have hwrite : perform os v request (.copying i j 0 (b :: bs) stack)
          (.write (b :: bs).length) =
          some (.ok (v.write j 0 (b :: bs), .copying i j (b :: bs).length [] stack)) := by
        simp [perform]
      have hend : perform os (v.write j 0 (b :: bs)) request
          (.copying i j (b :: bs).length [] stack) (.read 1) =
          some (.ok (v.write j 0 (b :: bs), copied stack)) := by
        have hdrop := drop_written v i j
        rw [hcontent] at hdrop
        simp only [perform, hdrop]
        simp
      exact ((Alone.leads_ok hread).trans (Alone.leads_ok hwrite)).trans (Alone.leads_ok hend)

end

/-! ## `copy_dir_all` -/

section

variable {os : Posix π ν} {request : Request π} {init v w u : Volume ν} {src dst : π}
  {d c : Nat} {x y : Slot ν} {p : ν × Entry} {entries : List (ν × Entry)}
  {recurse : Volume ν → π → π → Option (Volume ν × Except Error Unit)}
  {r : Except Error Unit}

/-- What comes of a call is what the operations of a request come to, whatever
calls are open. -/
def Steps (os : Posix π ν) (request : Request π) (init : Volume ν)
    (copy : Volume ν → π → π → Option (Volume ν × Except Error Unit)) : Prop :=
  ∀ v src dst x d y, v.Sound → os.slot v.entry src = some x →
    v.entry x = some (.directory d) → os.slot v.entry dst = some y → v.entry y = none →
      ∀ w r, copy v src dst = some (w, r) → ∀ stack,
        (Alone.machine os.toOs request init).Leads Alone.Willing
          (v, .creatingDir src dst stack) (w, copied stack)

omit [DecidableEq ν] in
theorem metadata_of_slot (hsrc : os.slot v.entry src = some x) {e : Entry}
    (he : v.entry x = some e) (hkind : ∀ i, e ≠ .special i) :
    metadata os.toOs v src = .ok e := by
  have hfollow : os.follow v.entry src = some x := by
    refine os.follow_slot _ _ _ hsrc fun i heq => ?_
    rw [he] at heq
    exact hkind i (Option.some.inj heq)
  simp [metadata, atSlot, hfollow, he]

/-- One entry more, and back in the loop. -/
theorem copyOne_leads (hrecurse : Steps os request init recurse) (hw : w.Sound)
    (hsrc : os.stat w.entry src = some (.directory d))
    (hdst : os.stat w.entry dst = some (.directory c))
    (hp : w.entry (d, p.1) = some p.2) (hfree : w.entry (c, p.1) = none)
    (h : copyOne os recurse w src dst p = some (u, r)) (stack : Stack π) :
    (Alone.machine os.toOs request init).Leads Alone.Willing (w, .listing src dst stack)
      (u, .listing src dst stack) := by
  obtain ⟨name, e⟩ := p
  have hfrom := os.slot_join _ _ _ name hsrc
  have hto := os.slot_join _ _ _ name hdst
  cases e with
  | directory i =>
      have hentry : perform os.toOs w request (.listing src dst stack) (.entry name true) =
          some (.ok (w, .creatingDir (os.join src name) (os.join dst name)
            ((src, dst) :: stack))) := rfl
      exact (Alone.leads_ok hentry).trans
        (hrecurse w _ _ _ i _ hw hfrom hp hto hfree u r h ((src, dst) :: stack))
  | file i =>
      obtain ⟨rfl, -⟩ := Prod.mk.inj (Option.some.inj
        ((congrArg some (copyEntry_file hsrc hdst hp hfree)).symm.trans h))
      have hi : i < w.count := w.bounded _ _ hp
      have hentry : perform os.toOs w request (.listing src dst stack) (.entry name false) =
          some (.ok (w, .openingEntry (os.join src name) (os.join dst name)
            ((src, dst) :: stack))) := rfl
      have hread : perform os.toOs w request (.openingEntry (os.join src name)
          (os.join dst name) ((src, dst) :: stack)) .openEntry =
          some (.ok (w, .openingTarget i (os.join dst name) ((src, dst) :: stack))) := by
        have hfollow := os.follow_slot _ _ _ hfrom (by simp [hp])
        simp [perform, atSlot, hfollow, Volume.openRead, hp, Except.map]
      have hcreate : perform os.toOs w request
          (.openingTarget i (os.join dst name) ((src, dst) :: stack)) .openTarget =
          some (.ok (w.addFile (c, name),
            .copying i w.count 0 [] ((src, dst) :: stack))) := by
        have hfollow := os.follow_slot _ _ _ hto (by simp [hfree])
        simp [perform, atSlot, hfollow, Volume.create, hfree, Except.map]
      have hcopied := Alone.leads_copied os.toOs request init (w.addFile (c, name)) i w.count
        ((src, dst) :: stack)
      have hcontent : (w.addFile (c, name)).content i = w.content i := Volume.add_content hi
      rw [hcontent] at hcopied
      exact (((Alone.leads_ok hentry).trans (Alone.leads_ok hread)).trans
        (Alone.leads_ok hcreate)).trans hcopied
  | special i =>
      obtain ⟨rfl, -⟩ := Prod.mk.inj (Option.some.inj h)
      exact .refl

theorem copyEntries_leads (hrecurse : Steps os request init recurse)
    (hcopies : Copies os recurse) (hv : v.Sound)
    (hsrc : os.stat v.entry src = some (.directory d)) (hdst : os.slot v.entry dst = some y)
    (stack : Stack π) :
    ∀ entries w, Filled v d y entries w →
      ∀ u r, copyEntries os recurse w src dst entries = some (u, r) →
        (Alone.machine os.toOs request init).Leads Alone.Willing (w, .listing src dst stack)
          (u, .listing src dst stack) := by
  intro entries
  induction entries with
  | nil =>
      intro w _ u r hcopy
      obtain ⟨rfl, -⟩ := Prod.mk.inj (Option.some.inj hcopy)
      exact .refl
  | cons p entries ih =>
      intro w h u r hcopy
      obtain ⟨hsrc', hdst'⟩ := h.filling.stats hv hsrc hdst
      have hone : ∀ u' r', copyOne os recurse w src dst p = some (u', r') →
          (Alone.machine os.toOs request init).Leads Alone.Willing
            (w, .listing src dst stack) (u', .listing src dst stack) :=
        fun u' r' h' => copyOne_leads hrecurse h.filling.grown.sound hsrc' hdst'
          (h.filling.source p (.head _)) (h.filling.free p (.head _)) h' stack
      rw [copyEntries] at hcopy
      split at hcopy
      · next w' heq =>
          exact (hone _ _ heq).trans
            (ih w' (h.step hv hsrc hdst hcopies heq).2 u r hcopy)
      · exact hone u r hcopy

/-- By induction on the fuel, which is on how deep the calls are nested. -/
theorem copyDirAll_steps (fuel : Nat) : Steps os request init (copyDirAll os fuel) := by
  induction fuel with
  | zero =>
      intro v src dst x d y _ _ _ _ _ w r h
      exact absurd h (by simp [copyDirAll])
  | succ fuel ih =>
      intro v src dst x d y hv hsrc hdir hdst hfree w r h stack
      have hstat := os.stat_slot _ _ _ _ hsrc hdir (by simp)
      rw [copyDirAll_succ hv hstat hdst hfree] at h
      have hextends :=
        (grown_addDirectory hv (os.slot_parent _ _ _ hdst) hfree).extends hv
      have hcreate : perform os.toOs v request (.creatingDir src dst stack) .createDir =
          some (.ok (v.addDirectory y, .readingDir src dst stack)) := by
        simp [perform, atSlot, hdst, Volume.createDir, hfree, Except.map]
      have hread : perform os.toOs (v.addDirectory y) request (.readingDir src dst stack)
          .readDir = some (.ok (v.addDirectory y, .listing src dst stack)) := by
        have hmeta := metadata_of_slot (Posix.slot_mono hextends hsrc)
          (hextends _ _ hdir) (by simp)
        simp [perform, hmeta, Except.bind, Entry.isDirectory]
      have hloop := copyEntries_leads ih (copyDirAll_copies fuel) hv hstat hdst stack _ _
        (Filled.start hv hdst hfree d) w r h
      have hend : perform os.toOs w request (.listing src dst stack) .endOfDir =
          some (.ok (w, copied stack)) := rfl
      exact (((Alone.leads_ok hcreate).trans (Alone.leads_ok hread)).trans hloop).trans
        (Alone.leads_ok hend)

end

/-! ## `fs_cp` -/

section

variable {os : Posix π ν} {v w : Volume ν} {src dst : π} {x : Slot ν} {e : Entry} {fuel : Nat}
  {r : Except Error Unit}

/-- Both opens, the destination first, and the loop. -/
theorem copyFile_leads (h : copyFile os v src dst = (w, r)) {init : Volume ν} :
    (Alone.machine os.toOs (.cp src dst) init).Leads Alone.Willing (v, .opening none none)
      (w, .done r) := by
  unfold copyFile at h
  cases hnew : atSlot os.slot v dst v.createNew with
  | error f =>
      rw [hnew] at h
      obtain ⟨rfl, rfl⟩ := Prod.mk.inj h
      have hdst : perform os.toOs v (.cp src dst) (.opening none none) .openDst =
          some (.ok (v, .opening (some (.error f)) none)) := by
        simp [perform, hnew, opened]
      have hsrc : perform os.toOs v (.cp src dst) (.opening (some (.error f)) none) .openSrc =
          some (.ok (v, .done (.error f))) := by
        simp [perform, opened]
      exact (Alone.leads_ok hdst).trans (Alone.leads_ok hsrc)
  | ok t =>
      obtain ⟨w', j⟩ := t
      rw [hnew] at h
      have hdst : perform os.toOs v (.cp src dst) (.opening none none) .openDst =
          some (.ok (w', .opening (some (.ok j)) none)) := by
        simp [perform, hnew, opened]
      refine (Alone.leads_ok hdst).trans ?_
      cases hopen : atSlot os.follow w' src w'.openRead with
      | error f =>
          simp only [hopen] at h
          obtain ⟨rfl, rfl⟩ := Prod.mk.inj h
          have hsrc : perform os.toOs w' (.cp src dst) (.opening (some (.ok j)) none) .openSrc =
              some (.ok (w', .done (.error f))) := by
            simp [perform, hopen, opened]
          exact Alone.leads_ok hsrc
      | ok i =>
          simp only [hopen] at h
          obtain ⟨rfl, rfl⟩ := Prod.mk.inj h
          have hsrc : perform os.toOs w' (.cp src dst) (.opening (some (.ok j)) none) .openSrc =
              some (.ok (w', .copying i j 0 [] [])) := by
            simp [perform, hopen, opened]
          exact (Alone.leads_ok hsrc).trans (Alone.leads_copied _ _ _ w' i j [])

/-- What `fs_cp` returns as one function is what the request gets to in single
operations, where its source is a file or a directory in some slot. -/
theorem fsCp_leads (hv : v.Sound) (hsrc : os.slot v.entry src = some x)
    (he : v.entry x = some e) (hkind : ∀ i, e ≠ .special i)
    (h : fsCp os fuel v src dst = some (w, r)) :
    (Alone.machine os.toOs (.cp src dst) v).Leads Alone.Willing (v, .called) (w, .done r) := by
  have hstat := os.stat_slot _ _ _ _ hsrc he hkind
  have hmeta : perform os.toOs v (.cp src dst) .called .metadata =
      some (.ok (v, cpOf src dst e)) := by
    simp [perform, metadata_of_slot hsrc he hkind, Except.map]
  refine (Alone.leads_ok hmeta).trans ?_
  simp only [fsCp, hstat] at h
  cases e with
  | special i => exact absurd rfl (hkind i)
  | file i => exact copyFile_leads (Option.some.inj h)
  | directory d =>
      cases hcreate : atSlot os.slot v dst v.createDir with
      | error f =>
          cases fuel with
          | zero => exact absurd h (by simp [copyDirAll])
          | succ fuel =>
              simp only [copyDirAll, hcreate] at h
              obtain ⟨rfl, rfl⟩ := Prod.mk.inj (Option.some.inj h)
              have hrefused : perform os.toOs v (.cp src dst) (.creatingDir src dst [])
                  .createDir = some (.error f) := by
                simp [perform, hcreate, Except.map]
              exact Alone.leads_error hrefused
      | ok v' =>
          obtain ⟨y, hdst, hfree⟩ : ∃ y, os.slot v.entry dst = some y ∧ v.entry y = none := by
            cases hdst : os.slot v.entry dst with
            | none => simp [atSlot, hdst] at hcreate
            | some y =>
                refine ⟨y, rfl, ?_⟩
                cases hy : v.entry y with
                | none => rfl
                | some f => simp [atSlot, hdst, Volume.createDir, hy] at hcreate
          obtain ⟨rfl, -⟩ := copyDirAll_copies fuel v src dst d y hv hstat hdst hfree w r h
          exact copyDirAll_steps fuel v src dst x d y hv hsrc he hdst hfree w _ h []

/-- And so it is one of the things that the request comes to among others. -/
theorem fsCp_reachable (hv : v.Sound) (hsrc : os.slot v.entry src = some x)
    (he : v.entry x = some e) (hkind : ∀ i, e ≠ .special i)
    (h : fsCp os fuel v src dst = some (w, r)) :
    ∃ creator, (machine os.toOs v).Reachable ⟨w, [(.cp src dst, .done r)], creator⟩ := by
  have halone : (Alone.machine os.toOs (.cp src dst) v).Reaches Alone.Willing (w, .done r) :=
    Machine.Reaches.init.leads (fsCp_leads hv hsrc he hkind h)
  exact Alone.reachable halone.reachable

end

end WebSshTool.FsApi
