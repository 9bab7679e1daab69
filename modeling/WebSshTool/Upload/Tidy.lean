import WebSshTool.Upload.Course

/-!
# Careful runs

A run comes to rest once nothing is in flight. It is to have left its file, if
it is completed, and otherwise nothing at all.

`Careful` lists the steps that are in the way of this, each by what it finds.
They are of four kinds. A file gets its name when the request that takes it
away again has been served. A temp file is lost to the browser, because the
XHR it would learn the path from ends without it. The system has something
against a write or an `fs.unlink`. The function returns with something in the
target that is not the file: an answer read as what it is not, a body broken
off, the end of a placeholder that was longer.

The invariant says who is to remove what is there. For the target it is the
guard, or an `fs.unlink` on its way; for the temp file the place where the
function waits.
-/

namespace WebSshTool.Upload.Controller

open Files (Bytes Error utf8 writeAt)
open Inodes

variable {ν : Type*}

/-- The name stands for a file with this content. -/
def Holds (volume : Volume ν) (slot : Slot ν) (bytes : Bytes) : Prop :=
  ∃ ino, volume.entry slot = some (.file ino) ∧ volume.content ino = bytes

/-- Nothing is in flight. -/
structure AtRest (s : State ν) : Prop where
  settled : s.phase = .settled
  writeFile : ∃ ok, s.writeFile = .answered ok
  post : s.post = .unsent ∨ s.IsOver
  unzip : s.Unzipped
  unlinkTemp : s.unlinkTemp ≠ .sent
  unlinkTarget : s.unlinkTarget ≠ .sent

/-- A completed upload has its file in place; one in error or cancelled has
nothing, neither there nor under the temporary name. -/
structure LeavesNothing (job : Job ν) (s : State ν) : Prop where
  completed : s.controller = .completed → Holds s.volume job.target job.content
  otherwise : s.controller = .error ∨ s.controller = .cancel →
    s.volume.entry job.target = none ∧ s.volume.entry job.temp = none

/-- A cancel does not come between the temp file and its removal: there is
none, or its `fs.unlink` is on the way or will be sent all the same. -/
def MayCancel (job : Job ν) (s : State ν) : Prop :=
  s.volume.entry job.temp = none ∨ s.unlinkTemp = .sent ∨ s.phase = .unzipping ∨
    s.phase = .posting ∧ s.aborted = true

/-- The steps that leave nothing behind. -/
def Careful (job : Job ν) (s : State ν) : Label → Prop
  | .cancel => s.controller ≠ .completed ∧ MayCancel job s
  | .close => s.controller = .completed ∨ MayCancel job s
  -- The value that a direct upload takes for its success comes from a handler
  -- that stored the whole body.
  | .load =>
      job.uploadCompress = false → s.controller = .running →
        s.post ≠ .ended (.stored false) ∧
          (s.post = .ended .misread → job.content = utf8 placeholder)
  | .error => s.volume.entry job.temp = none
  -- What `unzip` has written covers the placeholder.
  | .removed =>
      s.phase = .removing true → s.controller = .running →
        (utf8 placeholder).length ≤ job.content.length
  | .serve .createFile =>
      if job.uploadCompress then s.phase = .posting else s.unlinkTarget ≠ .answered
  | .serve .openTarget => s.unlinkTarget ≠ .answered
  | .serve .breakOff => job.uploadCompress = false
  | .refuse .writePlaceholder => False
  | .refuse .unlinkTarget => s.volume.entry job.target = none
  -- Of an upload that is being completed a temp file may stay.
  | .refuse .unlinkTemp =>
      s.volume.entry job.temp = none ∨ s.phase = .removing true ∧ s.controller = .running
  | _ => True

/-! ## The invariant of careful runs -/

/-- The placeholder, while the function waits for it. -/
def Placing (job : Job ν) (s : State ν) : Prop :=
  match s.writeFile with
  | .sent => s.volume.entry job.target = none
  | .created ino => s.volume.entry job.target = some (.file ino) ∧ s.volume.content ino = []
  | .answered true => Holds s.volume job.target (utf8 placeholder)
  | .answered false => s.volume.entry job.target = none

/-- What is in the target while the guard is up. -/
def Filled (job : Job ν) (s : State ν) (ino : Nat) : Prop :=
  if job.uploadCompress then
    match s.unzip with
    | .unsent | .sent => s.volume.content ino = utf8 placeholder
    | .opened src =>
        s.volume.content ino = utf8 placeholder ∧
          ∃ n, s.volume.content src = job.compressed.take n
    | .writing i offset rest ok =>
        i = ino ∧ ∃ n written, job.gunzip (job.compressed.take n) = (written ++ rest, ok) ∧
          offset = written.flatten.length ∧
          s.volume.content ino = writeAt (utf8 placeholder) 0 written.flatten
    | .answered true => s.volume.content ino = writeAt (utf8 placeholder) 0 job.content
    | .answered false => True
  else
    match s.post with
    | .unsent | .sent | .ended .misread => s.volume.content ino = utf8 placeholder
    | .created i offset =>
        i = ino ∧ offset ≤ job.content.length ∧ s.volume.content ino = job.content.take offset
    | .ended (.stored whole) =>
        ∃ offset, offset ≤ job.content.length ∧
          s.volume.content ino = job.content.take offset ∧
          (whole = true ↔ offset = job.content.length)
    | .ended .failed => True

/-- The temp file, until `unzip` has read it. -/
def Staged (job : Job ν) (s : State ν) : Prop :=
  match s.post with
  | .created ino offset =>
      s.volume.entry job.temp = some (.file ino) ∧
        s.volume.content ino = job.compressed.take offset ∧ offset ≤ job.compressed.length
  | .ended (.stored _) =>
      match s.unzip with
      | .unsent | .sent =>
          s.unlinkTemp = .unsent → ∃ n, Holds s.volume job.temp (job.compressed.take n)
      | _ => True
  | _ => True

/-- The POST may have made a temp file. -/
def Post.Held : Post → Prop
  | .created _ _ | .ended (.stored _) => True
  | _ => False

/-- The temp file is still to be removed, or does not matter any more. -/
def Kept (s : State ν) : Prop :=
  match s.phase with
  | .posting | .unzipping => True
  | .removing true => s.unlinkTemp = .sent ∨ s.controller = .running
  | _ => s.unlinkTemp = .sent ∨ s.controller = .completed

structure Tidy (job : Job ν) (s : State ν) : Prop where
  wired : Wired job s
  placing : ∀ compressed, s.phase = .starting compressed none → Placing job s
  target : s.volume.entry job.target ≠ none →
    s.fileGuard = true ∨ s.unlinkTarget = .sent ∨ s.controller = .completed ∨
      ∃ compressed, s.phase = .starting compressed none
  unlinked : s.unlinkTarget = .answered → s.volume.entry job.target = none
  temp : s.volume.entry job.temp ≠ none →
    job.uploadCompress = true ∧ s.post.Held ∧ Kept s
  handler : job.uploadCompress = true → ∀ ino offset, s.post = .created ino offset →
    s.phase = .posting
  filled : s.fileGuard = true →
    ∃ ino, s.volume.entry job.target = some (.file ino) ∧ Filled job s ino
  staged : job.uploadCompress = true → Staged job s
  apart : ∀ e, s.volume.entry job.target = some e →
    e.isFile = true ∧ s.volume.entry job.temp ≠ some e
  tempFile : ∀ e, s.volume.entry job.temp = some e → e.isFile = true
  completed : s.controller = .completed →
    s.unlinkTarget = .unsent ∧ Holds s.volume job.target job.content

section

variable {job : Job ν} {s s' : State ν}

/-- Before the POST is sent. -/
theorem Tidy.before (hwired : Wired job s) (hbefore : s.Before)
    (hplacing : ∀ compressed, s.phase = .starting compressed none → Placing job s)
    (htarget : s.volume.entry job.target ≠ none →
      s.fileGuard = true ∨ s.unlinkTarget = .sent ∨
        ∃ compressed, s.phase = .starting compressed none)
    (hunlinked : s.unlinkTarget = .answered → s.volume.entry job.target = none)
    (hholds : s.fileGuard = true → Holds s.volume job.target (utf8 placeholder))
    (hfree : s.volume.entry job.temp = none)
    (hfile : ∀ e, s.volume.entry job.target = some e → e.isFile = true)
    (hcompleted : s.controller ≠ .completed) : Tidy job s := by
  obtain ⟨hpost, hunzip, htemp⟩ := hbefore
  exact {
    wired := hwired
    placing := hplacing
    target := by grind
    unlinked := hunlinked
    temp := fun hthere => absurd hfree hthere
    handler := by grind
    filled := by
      intro hguard
      obtain ⟨ino, hentry, hcontent⟩ := hholds hguard
      refine ⟨ino, hentry, ?_⟩
      simp only [Filled, hpost, hunzip]
      grind
    staged := by
      intro _
      simp only [Staged, hpost]
    apart := fun e he => ⟨hfile e he, by simp [hfree]⟩
    tempFile := by grind
    completed := fun h => absurd h hcompleted }

theorem Tidy.init [DecidableEq ν] (job : Job ν) : Tidy job (machine job).init :=
  .before (.init job) ⟨rfl, rfl, rfl⟩ (fun _ _ => job.target_free)
    (fun h => absurd job.target_free h) (fun h => absurd h (by simp [machine]))
    (fun h => absurd h (by simp [machine])) job.temp_free
    (fun e h => absurd (job.target_free.symm.trans h) (by simp)) (by simp [machine])

theorem there_of_created {ino offset : Nat} (hstaged : Staged job s)
    (hpost : s.post = .created ino offset) : s.volume.entry job.temp ≠ none := by
  simp only [Staged, hpost] at hstaged
  simp [hstaged.1]

theorem Tidy.cancel (h : Tidy job s) (hc : s.controller ≠ .completed) (hm : MayCancel job s) :
    Tidy job s.cancel := by
  have hw := h.wired.cancel
  obtain ⟨hwired, hplacing, htarget, hunlinked, htemp, hhandler, hfilled, hstaged, hapart,
    htempFile, hcompleted⟩ := h
  rw [State.cancel_eq] at hw ⊢
  exact {
    wired := hw
    placing := by
      intro c hph
      simp only at hph
      split at hph
      · exact absurd hph (by simp)
      · exact hplacing c hph
    target := by grind
    unlinked := by grind
    temp := by
      intro hthere
      obtain ⟨hcompress, hheld, hkept⟩ := htemp hthere
      refine ⟨hcompress, hheld, ?_⟩
      rcases hm with hm | hm | hm | ⟨hm, haborted⟩
      · exact absurd hm hthere
      · have hne : s.phase ≠ .posting := by
          intro hp
          simp only [Wired, hp] at hwired
          grind
        grind [Kept]
      · grind [Kept]
      · grind [Kept]
    handler := by
      -- A handler that has its temp file only lets a cancel pass that aborts nothing.
      intro hcompress ino offset hpost
      have hp := hhandler hcompress ino offset hpost
      have hthere := there_of_created (hstaged hcompress) hpost
      rcases hm with hm | hm | hm | ⟨hm, haborted⟩
      · exact absurd hm hthere
      · simp only [Wired, hp] at hwired
        grind
      · grind
      · grind
    filled := by simp
    staged := hstaged
    apart := hapart
    tempFile := htempFile
    completed := by simp }

/-- Where the function gives up there is no temp file. -/
theorem Tidy.awaitRelease (h : Tidy job s) (hguard : s.Guarded) (hunzip : s.Unzipped)
    (hdiscarded : s.Discarded) (hplaced : s.writeFile = .answered true)
    (hfree : s.volume.entry job.temp = none) : Tidy job (s.awaitRelease false) := by
  have hw : Wired job (s.awaitRelease false) :=
    .awaitRelease hguard hunzip hdiscarded hplaced
  obtain ⟨hwired, hplacing, htarget, hunlinked, htemp, hhandler, hfilled, hstaged, hapart,
    htempFile, hcompleted⟩ := h
  rw [State.awaitRelease_eq] at hw ⊢
  exact {
    wired := hw
    placing := by
      intro c hph
      simp only at hph
      split at hph <;> exact absurd hph (by simp)
    target := by grind [Wired]
    unlinked := by grind
    temp := fun hthere => absurd hfree hthere
    handler := fun hcompress _ _ hpost =>
      absurd hfree (there_of_created (hstaged hcompress) hpost)
    filled := by simp
    staged := hstaged
    apart := hapart
    tempFile := htempFile
    completed := by grind }

/-- The first `await`. -/
theorem Tidy.started {compressed p : Option Bool} (hrun : s.Unsettled) (hbefore : s.Before)
    (hplaced : s.Placed p) (hplacing : p = none → Placing job s)
    (htarget : s.volume.entry job.target ≠ none →
      p = none ∨ s.fileGuard = true ∨ s.unlinkTarget = .sent)
    (hunlinked : s.unlinkTarget = .answered → s.volume.entry job.target = none)
    (hholds : s.fileGuard = true → Holds s.volume job.target (utf8 placeholder))
    (hfree : s.volume.entry job.temp = none)
    (hfile : ∀ e, s.volume.entry job.target = some e → e.isFile = true) :
    Tidy job (s.started compressed p) := by
  have hw : Wired job (s.started compressed p) := .started hrun hbefore hplaced
  refine s.started_elim (P := fun t => Wired job t → Tidy job t) compressed p ?_ ?_ ?_ ?_ ?_ hw
  · intro hp hw
    exact .before hw hbefore (by grind [Placing]) (by grind) hunlinked hholds hfree hfile
      (by grind)
  · intro hp hw
    exact .before hw hbefore (by grind) (by grind) hunlinked hholds hfree hfile (by grind)
  · intro hp hclosed
    rw [State.awaitRelease_eq]
    intro hw
    exact .before hw hbefore (by grind) (by grind) (by grind) (by grind) hfree hfile (by grind)
  · intro hp hopen
    rw [State.awaitRelease_eq]
    intro hw
    exact .before hw hbefore (by grind) (by grind) (by grind) (by grind) hfree hfile (by grind)
  · intro hp hopen hw
    exact .before hw hbefore (by grind) (by grind) hunlinked hholds hfree hfile (by grind)

theorem Tidy.uploaded {reply : Reply} (h : Tidy job s) (hphase : s.phase = .posting)
    (hpost : s.post = .ended reply)
    (hcareful : job.uploadCompress = false → s.controller = .running →
      reply ≠ .stored false ∧ (reply = .misread → job.content = utf8 placeholder)) :
    Tidy job (s.uploaded job reply) := by
  have hw := h.wired.uploaded hphase hpost
  have hwired := h.wired
  simp only [Wired, hphase] at hwired
  obtain ⟨hguard, -, hunzip, hunlink, hplaced⟩ := hwired
  by_cases hfailed : reply = .failed
  · subst hfailed
    refine h.awaitRelease hguard (.inl hunzip) (.inl hunlink) hplaced ?_
    by_contra hthere
    obtain ⟨-, hheld, -⟩ := h.temp hthere
    simp [hpost, Post.Held] at hheld
  obtain ⟨hwired, hplacing, htarget, hunlinked, htemp, hhandler, hfilled, hstaged, hapart,
    htempFile, hcompleted⟩ := h
  have huploaded : s.uploaded job reply = if job.uploadCompress then
        if s.isClosed then
          { s.releaseFileGuard with unlinkTemp := .sent, phase := .discarding s.fileGuard }
        else { s with unzip := .sent, phase := .unzipping }
      else { s with fileGuard := false }.settle true := by
    cases reply with
    | failed => exact absurd rfl hfailed
    | stored whole => rfl
    | misread => rfl
  rw [huploaded] at hw ⊢
  split at hw
  · next hcompress =>
      rw [if_pos hcompress]
      split at hw
      · next hclosed =>
          rw [if_pos hclosed]
          rw [State.releaseFileGuard_eq] at hw ⊢
          exact {
            wired := hw
            placing := by grind
            target := by grind
            unlinked := by grind
            temp := by grind [Kept]
            handler := by grind
            filled := by grind
            staged := by
              have := hstaged hcompress
              simp only [Staged, hpost, hunzip] at this ⊢
              grind
            apart := hapart
            tempFile := htempFile
            completed := by grind }
      · next hopen =>
          rw [if_neg hopen]
          exact {
            wired := hw
            placing := by grind
            target := by grind
            unlinked := by grind
            temp := by grind [Kept]
            handler := by grind
            filled := by
              intro hf
              obtain ⟨ino, hentry, hfill⟩ := hfilled hf
              refine ⟨ino, hentry, ?_⟩
              simp only [Filled, hcompress, hunzip, if_true] at hfill ⊢
              exact hfill
            staged := by
              have := hstaged hcompress
              simp only [Staged, hpost, hunzip] at this ⊢
              grind
            apart := hapart
            tempFile := htempFile
            completed := by grind }
  · next hdirect =>
      rw [if_neg hdirect]
      exact {
        wired := hw
        placing := by grind
        target := by grind
        unlinked := by grind
        temp := by grind [Kept]
        handler := by grind
        filled := by grind
        staged := by grind
        apart := hapart
        tempFile := htempFile
        completed := by
          intro hc
          have hrun : s.controller = .running ∧ s.fileGuard = true := by grind
          obtain ⟨ino, hentry, hfill⟩ := hfilled hrun.2
          obtain ⟨hwhole, hmisread⟩ := hcareful (by simpa using hdirect) hrun.1
          refine ⟨by grind, ino, hentry, ?_⟩
          simp only [Filled, hpost] at hfill
          cases reply with
          | failed => exact absurd rfl hfailed
          | misread =>
              rw [hmisread rfl]
              simp only [hdirect] at hfill
              exact hfill
          | stored whole =>
              simp only [hdirect] at hfill
              obtain ⟨offset, -, hcontent, hwhole'⟩ := hfill
              have hall : offset = job.content.length := by grind
              show s.volume.content ino = _
              rw [hcontent, hall, List.take_length] }

theorem Tidy.free (h : Tidy job s) (hheld : ¬ s.post.Held) :
    s.volume.entry job.temp = none := by
  by_contra hthere
  exact hheld (h.temp hthere).2.1

theorem Tidy.free_before (h : Tidy job s) (hbefore : s.Before) :
    s.volume.entry job.temp = none :=
  h.free (by simp [hbefore.1, Post.Held])

theorem Tidy.holds_before (h : Tidy job s) (hbefore : s.Before) (hguard : s.fileGuard = true) :
    Holds s.volume job.target (utf8 placeholder) := by
  obtain ⟨ino, hentry, hfill⟩ := h.filled hguard
  refine ⟨ino, hentry, ?_⟩
  simp only [Filled, hbefore.1, hbefore.2.1] at hfill
  grind

theorem Tidy.placed {compressed : Option Bool} {ok : Bool} (h : Tidy job s)
    (hphase : s.phase = .starting compressed none) (hwrite : s.writeFile = .answered ok) :
    Tidy job ({ s with fileGuard := ok || s.fileGuard }.started compressed (some ok)) := by
  have hwired := h.wired
  simp only [Wired, hphase] at hwired
  obtain ⟨hrun, hbefore, hguard, htarget⟩ := hwired
  have hplacing := h.placing _ hphase
  have hfree : s.volume.entry job.temp = none := h.free_before hbefore
  have hplaced : State.Placed { s with fileGuard := ok || s.fileGuard } (some ok) := by
    cases ok <;> grind
  refine .started hrun hbefore hplaced (fun hp => absurd hp (by simp)) ?_ h.unlinked ?_ hfree
    fun e he => (h.apart e he).1
  · intro hthere
    cases ok with
    | true => exact .inr (.inl rfl)
    | false =>
        simp only [Placing, hwrite] at hplacing
        exact absurd hplacing hthere
  · intro hup
    cases ok with
    | true =>
        simp only [Placing, hwrite] at hplacing
        exact hplacing
    | false =>
        simp only [hguard] at hup
        exact absurd hup (by simp)

theorem Tidy.removed (h : Tidy job s) (hphase : s.phase = .removing true)
    (htemp : s.unlinkTemp = .answered)
    (hcareful : s.controller = .running → (utf8 placeholder).length ≤ job.content.length)
    (hw : Wired job ({ s with fileGuard := false }.settle true)) :
    Tidy job ({ s with fileGuard := false }.settle true) := by
  have hwired := h.wired
  simp only [Wired, hphase] at hwired
  obtain ⟨hguard, hover, hunzip, -, hplaced, hcompress⟩ := hwired
  exact {
    wired := hw
    placing := by grind
    target := by grind [Tidy]
    unlinked := by grind [Tidy]
    temp := by
      have := h.temp
      grind [Kept]
    handler := by grind
    filled := by grind
    staged := by
      intro _
      have := h.staged hcompress
      simp only [Staged, hunzip] at this ⊢
      exact this
    apart := h.apart
    tempFile := h.tempFile
    completed := by
      intro hc
      have hrun : s.controller = .running ∧ s.fileGuard = true := by grind
      obtain ⟨ino, hentry, hfill⟩ := h.filled hrun.2
      refine ⟨by grind, ino, hentry, ?_⟩
      simp only [Filled, hcompress, hunzip, if_true] at hfill
      show s.volume.content ino = _
      rw [hfill]
      exact (Files.writeAt_zero_eq_iff _ _).mpr (hcareful hrun.1) }

/-- A careful step of the browser. -/
theorem Tidy.browser [DecidableEq ν] {l : Label} (h : Tidy job s) (hok : Careful job s l)
    (hserve : ∀ op, l ≠ .serve op) (hrefuse : ∀ op, l ≠ .refuse op)
    (hstep : step job s l = some s') : Tidy job s' := by
  have hw := h.wired.step hstep
  have hwired := h.wired
  cases moves_of_step hstep with
  | cancel => exact h.cancel hok.1 hok.2
  | close =>
      unfold State.close
      split
      · exact h
      · next hc => exact h.cancel hc (hok.resolve_left hc)
  | compressed hphase =>
      simp only [Wired, hphase] at hwired
      obtain ⟨hrun, hbefore, hplaced⟩ := hwired
      refine .started hrun hbefore hplaced ?_ ?_ h.unlinked (h.holds_before hbefore)
        (h.free_before hbefore) fun e he => (h.apart e he).1
      · exact fun hp => h.placing none (hp ▸ hphase)
      · have := h.target
        grind
  | placed hphase hwrite => exact h.placed hphase hwrite
  | token hphase =>
      simp only [Wired, hphase] at hwired
      obtain ⟨hguard, hbefore, hplaced⟩ := hwired
      have hfree := h.free_before hbefore
      exact {
        wired := hw
        placing := by grind
        target := by
          have := h.target
          grind
        unlinked := h.unlinked
        temp := fun hthere => absurd hfree hthere
        handler := by grind
        filled := by
          intro hup
          obtain ⟨ino, hentry, hfill⟩ := h.filled hup
          refine ⟨ino, hentry, ?_⟩
          simp only [Filled, hbefore.1, hbefore.2.1] at hfill ⊢
          exact hfill
        staged := fun _ => trivial
        apart := h.apart
        tempFile := h.tempFile
        completed := by grind }
  | tokenError hphase =>
      simp only [Wired, hphase] at hwired
      obtain ⟨hguard, hbefore, hplaced⟩ := hwired
      exact h.awaitRelease hguard (.inl hbefore.2.1) (.inl hbefore.2.2) hplaced
        (h.free_before hbefore)
  | load hphase hpost => 
      exact h.uploaded hphase hpost (by simpa [Careful, hpost] using hok)
  | error hphase =>
      simp only [Wired, hphase] at hwired
      obtain ⟨hguard, -, hunzip, hunlink, hplaced⟩ := hwired
      exact h.awaitRelease hguard (.inl hunzip) (.inl hunlink) hplaced hok
  | @unzipped ok hphase hunzip =>
      simp only [Wired, hphase] at hwired
      obtain ⟨hguard, hover, -, hunlink, hplaced, hcompress⟩ := hwired
      exact {
        wired := hw
        placing := by grind
        target := by
          have := h.target
          grind
        unlinked := h.unlinked
        temp := by
          have := h.temp
          grind [Kept]
        handler := by grind
        filled := h.filled
        staged := by
          intro _
          have := h.staged hcompress
          simp only [Staged, hunzip] at this ⊢
          exact this
        apart := h.apart
        tempFile := h.tempFile
        completed := by grind }
  | removed hphase htemp => exact h.removed hphase htemp (hok hphase) hw
  | removedError hphase htemp =>
      simp only [Wired, hphase] at hwired
      obtain ⟨hguard, hover, hunzip, -, hplaced, -⟩ := hwired
      refine h.awaitRelease hguard (.inr ⟨_, hunzip⟩) (.inr ⟨htemp, hover⟩) hplaced ?_
      by_contra hthere
      have := (h.temp hthere).2.2
      simp only [Kept, hphase] at this
      grind
  | discarded hphase htemp =>
      simp only [Wired, hphase] at hwired
      exact {
        wired := hw
        placing := by grind
        target := by
          have := h.target
          grind
        unlinked := h.unlinked
        temp := by
          have := h.temp
          grind [Kept]
        handler := by grind
        filled := h.filled
        staged := h.staged
        apart := h.apart
        tempFile := h.tempFile
        completed := by grind }
  | released hphase htarget =>
      simp only [Wired, hphase] at hwired
      exact {
        wired := hw
        placing := by grind
        target := fun hthere => absurd (h.unlinked htarget) hthere
        unlinked := h.unlinked
        temp := by
          have := h.temp
          grind [Kept]
        handler := by
          have := h.handler
          grind
        filled := h.filled
        staged := h.staged
        apart := h.apart
        tempFile := h.tempFile
        completed := by grind }
  | serve => exact absurd rfl (hserve _)
  | refuse => exact absurd rfl (hrefuse _)

end

end WebSshTool.Upload.Controller
