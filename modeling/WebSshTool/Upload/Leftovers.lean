import WebSshTool.Upload.TidyServer

/-!
# What an upload leaves behind

A step that is not careful leaves something for good: the target without
anybody to remove it, a temp file of which the browser will not learn or whose
`fs.unlink` is over, or a file that is not the one that was to be uploaded
under an upload that is completed. No step leads out of any of these, so a run
that comes to rest has come to rest well exactly where all its steps were
careful, and which step it was that was not can be read off the run.
-/

namespace WebSshTool.Upload.Controller

open Files (Bytes Error utf8 writeAt)
open Inodes

variable {ν : Type*} {job : Job ν} {s s' : State ν}

section

/-! ## What is left stays left -/

/-- Nobody has the duty to remove the target, or will have it. -/
structure Unwatched (s : State ν) : Prop where
  fileGuard : s.fileGuard = false
  unlinkTarget : s.unlinkTarget ≠ .sent
  placed : ∀ compressed, s.phase = .starting compressed none → s.writeFile = .answered false

/-- The target is there, in an upload that is lost, and stays. -/
structure TargetLeft (job : Job ν) (s : State ν) : Prop where
  there : s.volume.entry job.target ≠ none
  unwatched : Unwatched s
  lost : Lost s

/-- The `fs.unlink` of the temp file has been sent or never will be. -/
structure Abandoned (s : State ν) : Prop where
  unlinkTemp : s.unlinkTemp ≠ .sent
  past : match s.phase with
    | .posting => s.post = .ended .failed
    | .removing _ | .discarding _ | .releasing _ | .settled => True
    | _ => False

/-- The same for the temp file. -/
structure TempLeft (job : Job ν) (s : State ν) : Prop where
  there : s.volume.entry job.temp ≠ none
  abandoned : Abandoned s
  lost : Lost s

/-- It is completed, with something else in the target. -/
structure Spoilt (job : Job ν) (s : State ν) : Prop where
  settled : s.phase = .settled
  completed : s.controller = .completed
  there : s.volume.entry job.target ≠ none
  spoilt : ¬ Holds s.volume job.target job.content
  writeFile : ∃ ok, s.writeFile = .answered ok
  post : s.IsOver
  unzip : s.Unzipped
  unlink : s.unlinkTarget ≠ .sent

def Doomed (job : Job ν) (s : State ν) : Prop :=
  Wired job s ∧ (TargetLeft job s ∨ TempLeft job s ∨ Spoilt job s)

variable [DecidableEq ν]

omit [DecidableEq ν] in
theorem there_of_opened {volume : Volume ν} {slot x : Slot ν} {ino : Nat}
    (h : Volume.Opened s.volume slot volume ino) (hthere : s.volume.entry x ≠ none) :
    volume.entry x ≠ none := by
  by_cases hx : x = slot
  · rw [hx, h.entry]
    simp
  · rw [h.others x hx]
    exact hthere

theorem there_of_serve {op : Op} {x : Slot ν} (hserve : Serves job s op s')
    (hthere : s.volume.entry x ≠ none) (htarget : x = job.target → s.unlinkTarget ≠ .sent)
    (htemp : x = job.temp → s.unlinkTemp ≠ .sent) : s'.volume.entry x ≠ none := by
  cases hserve with
  | createPlaceholder hwrite hnew => exact there_of_opened (Volume.createNew_opened hnew).1 hthere
  | createFile hpost hcreate => exact there_of_opened (Volume.create_opened hcreate).1 hthere
  | openTarget hunzip hopen => exact there_of_opened (Volume.openWrite_opened hopen).1 hthere
  | unlinkTemp hsent =>
      have hne : x ≠ job.temp := fun hx => htemp hx hsent
      simpa only [unlinked_of_ne _ hne] using hthere
  | unlinkTarget hsent =>
      have hne : x ≠ job.target := fun hx => htarget hx hsent
      simpa only [unlinked_of_ne _ hne] using hthere
  | createPlaceholderError | writePlaceholder | createFileError | copy | leave | turnDown | breakOff
  | openSource | openSourceError | openTargetError | inflate | inflated | unlinkNull => exact hthere

omit [DecidableEq ν] in
theorem refuse_volume {op : Op} (hrefuse : Refuses s op s') : s'.volume = s.volume := by
  cases hrefuse <;> rfl

omit [DecidableEq ν] in
theorem started_volume (compressed p : Option Bool) :
    (s.started compressed p).volume = s.volume := by
  refine s.started_elim (P := fun t => t.volume = s.volume) compressed p ?_ ?_ ?_ ?_ ?_
  · exact fun _ => rfl
  · exact fun _ => rfl
  · exact fun _ _ => by rw [State.awaitRelease_eq]
  · exact fun _ _ => by rw [State.awaitRelease_eq]
  · exact fun _ _ => rfl

/-- The browser has no hand in the volume. -/
theorem there_of_step {l : Label} {x : Slot ν} (hstep : step job s l = some s')
    (hthere : s.volume.entry x ≠ none) (htarget : x = job.target → s.unlinkTarget ≠ .sent)
    (htemp : x = job.temp → s.unlinkTemp ≠ .sent) : s'.volume.entry x ≠ none := by
  cases moves_of_step hstep with
  | cancel =>
      rw [State.cancel_eq]
      exact hthere
  | close =>
      unfold State.close
      split
      · exact hthere
      · rw [State.cancel_eq]
        exact hthere
  | compressed | placed =>
      rw [started_volume]
      exact hthere
  | tokenError | error | removedError =>
      rw [State.awaitRelease_eq]
      exact hthere
  | @load reply =>
      cases reply with
      | failed =>
          rw [State.uploaded, State.awaitRelease_eq]
          exact hthere
      | stored | misread =>
          simp only [State.uploaded, State.releaseFileGuard_eq]
          grind
  | token | unzipped | removed | discarded | released => exact hthere
  | serve hserve => exact there_of_serve hserve hthere htarget htemp
  | refuse hrefuse =>
      rw [refuse_volume hrefuse]
      exact hthere

omit [DecidableEq ν] in
theorem Unwatched.awaitRelease {returns : Bool} (h : Unwatched s) :
    Unwatched (s.awaitRelease returns) := by
  obtain ⟨hguard, hunlink, -⟩ := h
  rw [State.awaitRelease_eq]
  constructor <;> grind

omit [DecidableEq ν] in
theorem Unwatched.cancel (h : Unwatched s) : Unwatched s.cancel := by
  obtain ⟨hguard, hunlink, hplaced⟩ := h
  rw [State.cancel_eq]
  constructor <;> grind

omit [DecidableEq ν] in
theorem Unwatched.started {compressed p : Option Bool} (hguard : s.fileGuard = false)
    (hunlink : s.unlinkTarget ≠ .sent) (hplaced : p = none → s.writeFile = .answered false) :
    Unwatched (s.started compressed p) := by
  refine s.started_elim compressed p ?_ ?_ ?_ ?_ ?_
  · exact fun _ => ⟨hguard, hunlink, by grind⟩
  · exact fun _ => ⟨hguard, hunlink, by grind⟩
  · intro hp hclosed
    rw [State.awaitRelease_eq]
    constructor <;> grind
  · intro hp hopen
    rw [State.awaitRelease_eq]
    constructor <;> grind
  · exact fun _ _ => ⟨hguard, hunlink, by grind⟩

omit [DecidableEq ν] in
theorem Unwatched.served (h : Unwatched s) (hs : Served s s') : Unwatched s' := by
  obtain ⟨hguard, hunlink, hplaced⟩ := h
  constructor
  · rw [hs.fileGuard, hguard]
  · rw [hs.unlinkTarget hunlink]
    exact hunlink
  · intro c hphase
    have hwrite := hplaced c (hs.phase ▸ hphase)
    rw [hs.writeFile _ hwrite, hwrite]

theorem Unwatched.step {l : Label} (h : Unwatched s) (hstep : step job s l = some s') :
    Unwatched s' := by
  cases moves_of_step hstep with
  | cancel => exact h.cancel
  | close =>
      unfold State.close
      split
      · exact h
      · exact h.cancel
  | compressed hphase =>
      refine .started h.fileGuard h.unlinkTarget ?_
      rintro rfl
      exact h.placed none hphase
  | @placed ok _ hphase hwrite =>
      refine .started ?_ h.unlinkTarget (fun hp => absurd hp (by simp))
      have hfalse := hwrite.symm.trans (h.placed _ hphase)
      simp at hfalse
      simp [hfalse, h.fileGuard]
  | tokenError | error | removedError => exact h.awaitRelease
  | @load reply =>
      cases reply with
      | failed => exact h.awaitRelease
      | stored | misread =>
          obtain ⟨hguard, hunlink, -⟩ := h
          simp only [State.uploaded, State.releaseFileGuard_eq]
          constructor <;> grind
  | token | unzipped | removed | discarded | released =>
      obtain ⟨hguard, hunlink, -⟩ := h
      constructor <;> grind
  | serve hserve => exact h.served (.serve hserve)
  | refuse hrefuse => exact h.served (.refuse hrefuse)

theorem TargetLeft.step {l : Label} (hw : Wired job s) (h : TargetLeft job s)
    (hstep : step job s l = some s') : TargetLeft job s' where
  there := there_of_step hstep h.there (fun _ => h.unwatched.unlinkTarget)
    fun hx => absurd hx job.temp_ne.symm
  unwatched := h.unwatched.step hstep
  lost := h.lost.step hw hstep

omit [DecidableEq ν] in
theorem Abandoned.awaitRelease {returns : Bool} (h : s.unlinkTemp ≠ .sent) :
    Abandoned (s.awaitRelease returns) := by
  rw [State.awaitRelease_eq]
  refine ⟨h, ?_⟩
  cases s.fileGuard <;> trivial

omit [DecidableEq ν] in
theorem Abandoned.cancel (h : Abandoned s) : Abandoned s.cancel := by
  obtain ⟨hunlink, hpast⟩ := h
  rw [State.cancel_eq]
  refine ⟨hunlink, ?_⟩
  by_cases hphase : s.phase = .posting ∧ s.aborted = false
  · simp only [if_pos hphase]
  · simp only [if_neg hphase]
    exact hpast

omit [DecidableEq ν] in
theorem Abandoned.served (h : Abandoned s) (hs : Served s s') : Abandoned s' := by
  obtain ⟨hunlink, hpast⟩ := h
  refine ⟨by rw [hs.unlinkTemp hunlink]; exact hunlink, ?_⟩
  rw [hs.phase]
  cases hphase : s.phase with
  | posting =>
      simp only [hphase] at hpast
      exact (hs.post_over _ hpast).trans hpast
  | starting | token | unzipping =>
      simp only [hphase] at hpast
  | removing | discarding | releasing | settled => trivial

theorem Abandoned.step {l : Label} (h : Abandoned s) (hstep : step job s l = some s') :
    Abandoned s' := by
  have hpast := h.past
  cases moves_of_step hstep with
  | cancel => exact h.cancel
  | close =>
      unfold State.close
      split
      · exact h
      · exact h.cancel
  | compressed hphase | placed hphase | token hphase | tokenError hphase | unzipped hphase =>
      simp only [hphase] at hpast
  | error | removedError => exact .awaitRelease h.unlinkTemp
  | load hphase hpost =>
      simp only [hphase, hpost] at hpast
      obtain rfl := Post.ended.inj hpast
      exact .awaitRelease h.unlinkTemp
  | removed | discarded | released => exact ⟨h.unlinkTemp, trivial⟩
  | serve hserve => exact h.served (.serve hserve)
  | refuse hrefuse => exact h.served (.refuse hrefuse)

theorem TempLeft.step {l : Label} (hw : Wired job s) (h : TempLeft job s)
    (hstep : step job s l = some s') : TempLeft job s' where
  there := there_of_step hstep h.there (fun hx => absurd hx job.temp_ne)
    fun _ => h.abandoned.unlinkTemp
  abandoned := h.abandoned.step hstep
  lost := h.lost.step hw hstep

omit [DecidableEq ν] in
theorem Spoilt.cancel (hw : Wired job s) (h : Spoilt job s) : TargetLeft job s.cancel := by
  simp only [Wired, h.settled] at hw
  obtain ⟨-, -, -, -, hguard, -⟩ := hw
  have hunwatched : Unwatched s := ⟨hguard, h.unlink, by simp [h.settled]⟩
  refine ⟨?_, hunwatched.cancel, .inr (.inl ?_)⟩
  · rw [State.cancel_eq]
    exact h.there
  · rw [State.cancel_eq]

/-- Nothing is written to the target any more. -/
theorem Spoilt.holds {op : Op} (h : Spoilt job s) (hserve : Serves job s op s') :
    s'.volume.entry job.target = s.volume.entry job.target ∧
      s'.volume.content = s.volume.content := by
  obtain ⟨hsettled, hcompleted, hthere, hspoilt, hwrite, hpost, hunzip, hunlink⟩ := h
  cases hserve with
  | unlinkTemp => exact ⟨unlinked_of_ne _ job.temp_ne.symm, unlinked_content ..⟩
  | createPlaceholder | writePlaceholder | createFile | copy | openTarget | inflate
  | unlinkTarget => grind
  | createPlaceholderError | createFileError | leave | turnDown | breakOff | openSource
  | openSourceError | openTargetError | inflated | unlinkNull => exact ⟨rfl, rfl⟩

omit [DecidableEq ν] in
theorem Spoilt.served (h : Spoilt job s) (hs : Served s s')
    (hentry : s'.volume.entry job.target = s.volume.entry job.target)
    (hcontent : s'.volume.content = s.volume.content) : Spoilt job s' := by
  obtain ⟨hsettled, hcompleted, hthere, hspoilt, ⟨ok, hwrite⟩, ⟨reply, hpost⟩, hunzip,
    hunlink⟩ := h
  exact {
    settled := hs.phase.trans hsettled
    completed := hs.controller.trans hcompleted
    there := hentry ▸ hthere
    spoilt := by
      simp only [Holds, hentry, hcontent]
      exact hspoilt
    writeFile := ⟨ok, (hs.writeFile ok hwrite).trans hwrite⟩
    post := ⟨reply, (hs.post_over reply hpost).trans hpost⟩
    unzip := by
      rcases hunzip with hunzip | ⟨b, hunzip⟩
      · exact .inl (hs.unzip_unsent.mpr hunzip)
      · exact .inr ⟨b, (hs.unzip_answered b hunzip).trans hunzip⟩
    unlink := by
      rw [hs.unlinkTarget hunlink]
      exact hunlink }

theorem Spoilt.step {l : Label} (hw : Wired job s) (h : Spoilt job s)
    (hstep : step job s l = some s') : TargetLeft job s' ∨ Spoilt job s' := by
  have hsettled := h.settled
  cases moves_of_step hstep with
  | cancel => exact .inl (h.cancel hw)
  | close =>
      unfold State.close
      split
      · exact .inr h
      · exact .inl (h.cancel hw)
  | compressed hphase | placed hphase | token hphase | tokenError hphase | load hphase
  | error hphase | unzipped hphase | removed hphase | removedError hphase | discarded hphase
  | released hphase => exact absurd (hsettled.symm.trans hphase) (by simp)
  | serve hserve =>
      obtain ⟨hentry, hcontent⟩ := h.holds hserve
      exact .inr (h.served (.serve hserve) hentry hcontent)
  | refuse hrefuse =>
      have hvolume := refuse_volume hrefuse
      exact .inr (h.served (.refuse hrefuse) (by rw [hvolume]) (by rw [hvolume]))

theorem Doomed.step {l : Label} (h : Doomed job s) (hstep : step job s l = some s') :
    Doomed job s' := by
  obtain ⟨hw, hdoom⟩ := h
  refine ⟨hw.step hstep, ?_⟩
  rcases hdoom with h | h | h
  · exact .inl (h.step hw hstep)
  · exact .inr (.inl (h.step hw hstep))
  · rcases h.step hw hstep with h | h
    · exact .inl h
    · exact .inr (.inr h)

omit [DecidableEq ν] in
theorem Doomed.leavesSomething (h : Doomed job s) (hrest : AtRest s) : ¬ LeavesNothing job s := by
  intro hnothing
  have hlost : Lost s → s.controller = .error ∨ s.controller = .cancel := by
    intro hlost
    simp only [Lost, hrest.settled] at hlost
    grind
  rcases h.2 with h | h | h
  · exact h.there (hnothing.otherwise (hlost h.lost)).1
  · exact h.there (hnothing.otherwise (hlost h.lost)).2
  · exact h.spoilt (hnothing.completed h.completed)

/-! ## Careless steps -/

omit [DecidableEq ν] in
theorem Tidy.lost (h : Tidy job s) (hunlink : s.unlinkTarget ≠ .unsent) : Lost s := by
  have hwired := h.wired
  have hcompleted : s.controller ≠ .completed := fun hc => hunlink (h.completed hc).1
  cases hphase : s.phase with
  | starting compressed p =>
      rcases p with _ | _ | _ <;> simp only [Wired, hphase] at hwired <;> grind [Lost]
  | settled =>
      simp only [Wired, hphase] at hwired
      cases hc : s.controller with
      | running => exact absurd hc hwired.1
      | completed => exact absurd hc hcompleted
      | error => exact .inl hc
      | cancel => exact .inr (.inl hc)
  | token | posting | unzipping | removing | discarding | releasing =>
      simp only [Wired, hphase] at hwired
      simp only [Lost, hphase]
      grind

omit [DecidableEq ν] in
theorem Tidy.cancel_completed (h : Tidy job s) (hc : s.controller = .completed) :
    TargetLeft job s.cancel := by
  obtain ⟨hunlink, ino, hentry, -⟩ := h.completed hc
  have hwired := h.wired
  have hsettled : s.phase = .settled := by
    cases hphase : s.phase with
    | starting | token | posting | unzipping | removing | discarding | releasing =>
        simp only [Wired, hphase] at hwired
        exfalso
        grind
    | settled => rfl
  simp only [Wired, hsettled] at hwired
  have hunwatched : Unwatched s := ⟨by grind, by grind, by grind⟩
  refine ⟨?_, hunwatched.cancel, .inr (.inl ?_)⟩
  · rw [State.cancel_eq, hentry]
    simp
  · rw [State.cancel_eq]

omit [DecidableEq ν] in
theorem Tidy.cancel_careless (h : Tidy job s) (hc : s.controller ≠ .completed)
    (hm : ¬ MayCancel job s) : TempLeft job s.cancel := by
  simp only [MayCancel, not_or, not_and] at hm
  obtain ⟨hthere, hsent, hphase, haborted⟩ := hm
  obtain ⟨-, hheld, hkept⟩ := h.temp hthere
  have hwired := h.wired
  rw [State.cancel_eq]
  refine ⟨hthere, ⟨hsent, ?_⟩, .inr (.inl rfl)⟩
  cases hp : s.phase with
  | posting =>
      rw [if_pos ⟨rfl, by simpa using haborted hp⟩]
      trivial
  | removing => trivial
  | unzipping => exact absurd hp hphase
  | starting | token | discarding | releasing | settled =>
      simp only [Kept, hp] at hkept
      grind

omit [DecidableEq ν] in
theorem Tidy.load_careless {reply : Reply} (h : Tidy job s) (hphase : s.phase = .posting)
    (hpost : s.post = .ended reply) (hok : ¬ Careful job s .load) :
    Spoilt job (s.uploaded job reply) := by
  have hwired := h.wired
  simp only [Wired, hphase] at hwired
  simp only [Careful] at hok
  have hdirect : job.uploadCompress = false := by grind
  have hrun : s.controller = .running := by grind
  have hguard : s.fileGuard = true := by grind
  obtain ⟨ino, hentry, hfill⟩ := h.filled hguard
  have hspoilt : s.volume.content ino ≠ job.content := by
    cases reply with
    | failed => grind
    | misread =>
        simp only [Filled, hdirect, hpost] at hfill
        grind
    | stored whole =>
        simp only [Filled, hdirect, hpost] at hfill
        obtain ⟨offset, hle, hcontent, hwhole⟩ := hfill
        intro heq
        have := congrArg List.length (hcontent.symm.trans heq)
        rw [List.length_take_of_le hle] at this
        grind
  have huploaded : s.uploaded job reply = { s with fileGuard := false }.settle true := by
    cases reply with
    | failed => grind
    | stored | misread => simp [State.uploaded, hdirect]
  rw [huploaded]
  exact {
    settled := rfl
    completed := by simp [State.settle, hrun]
    there := by
      show s.volume.entry job.target ≠ none
      simp [hentry]
    spoilt := by
      rintro ⟨i, hi, hcontent⟩
      have : i = ino := by
        have := hi.symm.trans hentry
        simpa using this
      exact hspoilt (this ▸ hcontent)
    writeFile := ⟨true, hwired.2.2.2.2⟩
    post := ⟨reply, hpost⟩
    unzip := .inl hwired.2.2.1
    unlink := by
      show s.unlinkTarget ≠ .sent
      grind }

omit [DecidableEq ν] in
/-- Another file that is shorter than the placeholder keeps its end. -/
theorem Tidy.removed_careless (h : Tidy job s) (hphase : s.phase = .removing true)
    (hok : ¬ Careful job s .removed) : Spoilt job ({ s with fileGuard := false }.settle true) := by
  have hwired := h.wired
  simp only [Wired, hphase] at hwired
  obtain ⟨hguard, hover, hunzip, -, hwrite, hcompress⟩ := hwired
  simp only [Careful] at hok
  have hrun : s.controller = .running := by grind
  have hup : s.fileGuard = true := by grind
  obtain ⟨ino, hentry, hfill⟩ := h.filled hup
  simp only [Filled, hcompress, hunzip, if_true] at hfill
  exact {
    settled := rfl
    completed := by simp [State.settle, hrun]
    there := by
      show s.volume.entry job.target ≠ none
      simp [hentry]
    spoilt := by
      rintro ⟨i, hi, hcontent⟩
      have hino : i = ino := by
        have := hi.symm.trans hentry
        simpa using this
      have hle := (Files.writeAt_zero_eq_iff _ _).mp (hfill.symm.trans (hino ▸ hcontent))
      grind
    writeFile := ⟨true, hwrite⟩
    post := hover
    unzip := .inr ⟨true, hunzip⟩
    unlink := by
      show s.unlinkTarget ≠ .sent
      grind }

omit [DecidableEq ν] in
theorem Tidy.error_careless (h : Tidy job s) (hphase : s.phase = .posting)
    (hthere : s.volume.entry job.temp ≠ none) : TempLeft job (s.awaitRelease false) := by
  have hwired := h.wired
  simp only [Wired, hphase] at hwired
  obtain ⟨hguard, -, -, hunlink, -⟩ := hwired
  refine ⟨?_, .awaitRelease (by simp [hunlink]), .awaitRelease (by grind)⟩
  rw [State.awaitRelease_eq]
  exact hthere

theorem Tidy.createFile_careless {volume : Volume ν} {ino : Nat} (h : Tidy job s)
    (hok : ¬ Careful job s (.serve .createFile)) (hpost : s.post = .sent)
    (hcreate : s.volume.create job.stored = .ok (volume, ino))
    (hs : Served s { s with volume, post := .created ino 0 }) :
    TargetLeft job { s with volume, post := .created ino 0 } ∨
      TempLeft job { s with volume, post := .created ino 0 } := by
  have hpending := h.wired.pending (by simp [hpost]) (by simp [State.IsOver, hpost])
  obtain ⟨hopened, -⟩ := Volume.create_opened hcreate
  cases hcompress : job.uploadCompress with
  | true =>
      have hphase : s.phase ≠ .posting := by simpa [Careful, hcompress] using hok
      obtain ⟨hpast, hguard, hunlink, -, hdiscarded⟩ :=
        hpending.resolve_left fun hp => hphase hp.1
      have hstored : job.stored = job.temp := by simp [Job.stored, hcompress]
      refine .inr ⟨?_, ⟨by grind, ?_⟩, (h.lost hunlink).served hs⟩
      · simp [← hstored, hopened.entry]
      · rcases hpast with ⟨returns, hp⟩ | hp <;> simp only [hp]
  | false =>
      have hunlink : s.unlinkTarget = .answered := by simpa [Careful, hcompress] using hok
      have hstored : job.stored = job.target := by simp [Job.stored, hcompress]
      refine .inl ⟨?_, ⟨by grind, by grind, by grind⟩, (h.lost (by simp [hunlink])).served hs⟩
      simp [← hstored, hopened.entry]

theorem Tidy.openTarget_careless {volume : Volume ν} {src : Nat} {unzip : UnzipCall} {ino : Nat}
    (h : Tidy job s) (hunlink : s.unlinkTarget = .answered) (hunzip : s.unzip = .opened src)
    (hopen : s.volume.openWrite job.target = .ok (volume, ino))
    (hs : Served s { s with volume, unzip }) : TargetLeft job { s with volume, unzip } := by
  obtain ⟨hphase, hguard, -⟩ := h.wired.unzipping (by simp [State.Unzipped, hunzip])
  obtain ⟨hopened, -⟩ := Volume.openWrite_opened hopen
  refine ⟨?_, ⟨by grind, by grind, by grind⟩, (h.lost (by simp [hunlink])).served hs⟩
  simp [hopened.entry]

omit [DecidableEq ν] in
theorem Tidy.breakOff_careless {ino offset : Nat} (h : Tidy job s)
    (hcompress : job.uploadCompress = true) (hpost : s.post = .created ino offset) :
    TempLeft job { s with post := .ended .failed } := by
  have hphase := h.handler hcompress ino offset hpost
  have hthere := there_of_created (h.staged hcompress) hpost
  have hwired := h.wired
  simp only [Wired, hphase] at hwired
  obtain ⟨-, -, -, hunlink, -⟩ := hwired
  refine ⟨hthere, ⟨by simp [hunlink], by simp only [hphase]⟩, ?_⟩
  simp [Lost, hphase]

omit [DecidableEq ν] in
theorem Tidy.writePlaceholder_careless {ino : Nat} (h : Tidy job s)
    (hwrite : s.writeFile = .created ino) :
    TargetLeft job { s with writeFile := .answered false } := by
  obtain ⟨compressed, hphase⟩ := h.wired.placing (by simp [hwrite])
  have hplacing := h.placing _ hphase
  simp only [Placing, hwrite] at hplacing
  have hwired := h.wired
  simp only [Wired, hphase] at hwired
  obtain ⟨-, -, hguard, hunlink⟩ := hwired
  refine ⟨by simp [hplacing.1], ⟨hguard, by simp [hunlink], by simp⟩, ?_⟩
  simp [Lost, hphase]

omit [DecidableEq ν] in
theorem Tidy.unlinkTarget_careless (h : Tidy job s) (hthere : s.volume.entry job.target ≠ none)
    (hsent : s.unlinkTarget = .sent) (hs : Served s { s with unlinkTarget := .answered }) :
    TargetLeft job { s with unlinkTarget := .answered } := by
  have hguard := h.wired.guard_down (by simp [hsent])
  have hlost := h.lost (by simp [hsent])
  have hwired := h.wired
  refine ⟨hthere, ⟨hguard, by simp, ?_⟩, hlost.served hs⟩
  intro compressed hphase
  simp only at hphase
  simp only [Wired, hphase] at hwired
  grind

omit [DecidableEq ν] in
theorem Tidy.unlinkTemp_careless (h : Tidy job s) (hthere : s.volume.entry job.temp ≠ none)
    (hrun : ¬ (s.phase = .removing true ∧ s.controller = .running)) (hsent : s.unlinkTemp = .sent)
    (hs : Served s { s with unlinkTemp := .answered }) :
    TempLeft job { s with unlinkTemp := .answered } := by
  have hwired := h.wired
  have hlost : Lost s := by
    cases hphase : s.phase with
    | removing unzipped =>
        simp only [Wired, hphase] at hwired
        simp only [Lost, hphase]
        cases unzipped <;> grind
    | discarding =>
        simp only [Wired, hphase] at hwired
        simp only [Lost, hphase]
        grind
    | starting | token | posting | unzipping | releasing | settled =>
        simp only [Wired, hphase] at hwired
        exfalso
        grind
  refine ⟨hthere, ⟨by simp, ?_⟩, hlost.served hs⟩
  cases hphase : s.phase with
  | removing | discarding | releasing | settled => trivial
  | starting | token | posting | unzipping =>
      simp only [Wired, hphase] at hwired
      exfalso
      grind

theorem Tidy.serve_careless {op : Op} (h : Tidy job s) (hok : ¬ Careful job s (.serve op))
    (hserve : Serves job s op s') : TargetLeft job s' ∨ TempLeft job s' := by
  have hs := Served.serve hserve
  cases hserve with
  | createFile hpost hcreate => exact h.createFile_careless hok hpost hcreate hs
  | createFileError hpost hcreate =>
      -- The name is free, so the creation does not fail.
      have hfree : s.volume.entry job.stored = none := by
        by_cases hcompress : job.uploadCompress = true
        · rw [Job.stored, if_pos hcompress]
          exact h.free (by simp [hpost, Post.Held])
        · rw [Job.stored, if_neg hcompress]
          exact h.unlinked (by simpa [Careful, hcompress] using hok)
      simp [Volume.create, hfree] at hcreate
  | breakOff hpost => exact .inr (h.breakOff_careless (by simpa [Careful] using hok) hpost)
  | openTarget hunzip hopen =>
      exact .inl (h.openTarget_careless (by simpa [Careful] using hok) hunzip hopen hs)
  | openTargetError hunzip hopen =>
      have hfree := h.unlinked (by simpa [Careful] using hok)
      simp [Volume.openWrite, hfree] at hopen
  | createPlaceholder | createPlaceholderError | writePlaceholder | copy | leave | turnDown
  | openSource | openSourceError | inflate | inflated | unlinkTemp | unlinkNull
  | unlinkTarget => exact absurd trivial hok

omit [DecidableEq ν] in
theorem Tidy.refuse_careless {op : Op} (h : Tidy job s) (hok : ¬ Careful job s (.refuse op))
    (hrefuse : Refuses s op s') : TargetLeft job s' ∨ TempLeft job s' := by
  have hs := Served.refuse hrefuse
  cases hrefuse with
  | writePlaceholder hwrite => exact .inl (h.writePlaceholder_careless hwrite)
  | unlinkTarget hsent => exact .inl (h.unlinkTarget_careless hok hsent hs)
  | unlinkTemp hsent =>
      simp only [Careful, not_or] at hok
      exact .inr (h.unlinkTemp_careless hok.1 hok.2 hsent hs)
  | createPlaceholder => exact absurd trivial hok
  | unzip hop =>
      rcases hop with rfl | rfl | rfl <;> exact absurd trivial hok

/-- The first careless step decides. -/
theorem Tidy.careless {l : Label} (h : Tidy job s) (hok : ¬ Careful job s l)
    (hstep : Controller.step job s l = some s') : Doomed job s' := by
  refine ⟨h.wired.step hstep, ?_⟩
  cases moves_of_step hstep with
  | cancel =>
      by_cases hc : s.controller = .completed
      · exact .inl (h.cancel_completed hc)
      · exact .inr (.inl (h.cancel_careless hc fun hm => hok ⟨hc, hm⟩))
  | close =>
      simp only [Careful, not_or] at hok
      rw [State.close, if_neg hok.1]
      exact .inr (.inl (h.cancel_careless hok.1 hok.2))
  | load hphase hpost => exact .inr (.inr (h.load_careless hphase hpost hok))
  | error hphase => exact .inr (.inl (h.error_careless hphase hok))
  | removed hphase => exact .inr (.inr (h.removed_careless hphase hok))
  | removedError hphase => simp [Careful, hphase] at hok
  | compressed | placed | token | tokenError | unzipped | discarded | released =>
      exact absurd trivial hok
  | serve hserve => exact (h.serve_careless hok hserve).imp_right .inl
  | refuse hrefuse => exact (h.refuse_careless hok hrefuse).imp_right .inl

theorem next_of_enabled {l : Label} (h : (machine job).enabled s l) :
    step job s l = some ((machine job).next s l) := by
  obtain ⟨s', hs'⟩ := Option.isSome_iff_exists.mp h
  simp only [machine, hs', Option.getD_some]

/-- A run that comes to rest has left nothing behind, in error or cancelled,
and has its file in place, completed, exactly where each of its steps was
careful. -/
theorem leaves_nothing_iff (job : Job ν) (ls : List Label)
    (hrun : (machine job).Path (fun _ _ => True) (machine job).init ls)
    (hrest : AtRest (ls.foldl (machine job).next (machine job).init)) :
    LeavesNothing job (ls.foldl (machine job).next (machine job).init) ↔
      (machine job).Path (Careful job) (machine job).init ls := by
  have hkeep : ∀ s l, Tidy job s → (machine job).enabled s l → Careful job s l →
      Tidy job ((machine job).next s l) :=
    fun s l h hen hok => h.step hok (next_of_enabled hen)
  have hbreak : ∀ s l, Tidy job s → (machine job).enabled s l → ¬ Careful job s l →
      Doomed job ((machine job).next s l) :=
    fun s l h hen hok => h.careless hok (next_of_enabled hen)
  have hdoomed : ∀ s l, Doomed job s → (machine job).enabled s l →
      Doomed job ((machine job).next s l) :=
    fun s l h hen => h.step (next_of_enabled hen)
  rcases Machine.path_or_doomed hkeep hbreak hdoomed _ (.init job) hrun with
    ⟨hpath, htidy⟩ | ⟨hpath, hdoom⟩
  · exact ⟨fun _ => hpath, fun _ => htidy.leavesNothing hrest⟩
  · exact ⟨fun h => absurd h (hdoom.leavesSomething hrest), fun h => absurd h hpath⟩

end

/-! ## Runs

A file of eighty times the letter a. -/

instance (job : Job ν) (s : State ν) : Decidable (MayCancel job s) := by
  unfold MayCancel
  infer_instance

instance (job : Job ν) (s : State ν) (l : Label) : Decidable (Careful job s l) := by
  cases l with
  | serve op => cases op <;> unfold Careful <;> infer_instance
  | refuse op => cases op <;> unfold Careful <;> infer_instance
  | _ => unfold Careful; infer_instance

instance (job : Job ν) [DecidableEq ν] (s : State ν) (l : Label) :
    Decidable ((machine job).enabled s l) :=
  inferInstanceAs (Decidable ((step job s l).isSome = true))

def letters : Bytes := List.replicate 80 97

/-- In gzip. -/
def lettersZipped : Bytes :=
  [31, 139, 8, 0, 0, 0, 0, 0, 0, 3, 75, 76, 164, 46, 0, 0, 125, 141, 153, 26, 80, 0, 0, 0]

def lettersJob (uploadCompress : Bool) : Job Bool where
  uploadCompress
  content := letters
  compressed := lettersZipped
  gunzip bytes := if bytes = lettersZipped then ([letters], true) else ([], false)
  volume := .empty Bool
  target := (0, true)
  temp := (0, false)
  gunzip_compressed := by simp
  gunzip_truncated n h := by
    rw [if_neg]
    intro heq
    have := congrArg List.length heq
    rw [List.length_take] at this
    omega
  target_free := rfl
  temp_free := rfl
  temp_ne := by simp

/-- A cancel while `unzip` is writing, in good time. -/
def unzipCanceled : List Label :=
  [.serve .createPlaceholder, .serve .writePlaceholder, .placed, .compressed true, .token true,
    .serve .createFile, .serve (.copy 20), .serve (.copy 4), .serve .leave, .load,
    .serve .openSource, .serve .openTarget, .cancel, .serve .inflate, .serve .unlinkTarget,
    .serve .inflate, .unzipped, .serve .unlinkTemp, .removed]

/-- The state a schedule leads to. -/
abbrev after (uploadCompress : Bool) (ls : List Label) : State Bool :=
  ls.foldl (machine (lettersJob uploadCompress)).next (machine (lettersJob uploadCompress)).init

theorem unzipCanceled_atRest : AtRest (after true unzipCanceled) where
  settled := by decide +kernel
  writeFile := ⟨true, by decide +kernel⟩
  post := .inr ⟨.stored true, by decide +kernel⟩
  unzip := .inr ⟨true, by decide +kernel⟩
  unlinkTemp := by decide +kernel
  unlinkTarget := by decide +kernel

theorem leaves_nothing_iff_unzipCanceled :
    LeavesNothing (lettersJob true) (after true unzipCanceled) :=
  (leaves_nothing_iff (lettersJob true) unzipCanceled (by decide +kernel)
    unzipCanceled_atRest).mpr (by decide +kernel)

/-- A cancel while `Auth.upload` waits for its token: the file is posted all
the same. -/
def tokenCanceled : List Label :=
  [.serve .createPlaceholder, .serve .writePlaceholder, .placed, .cancel, .serve .unlinkTarget,
    .token true, .serve .createFile, .serve (.copy 80), .serve .leave, .load]

/-- A cancel while the handler writes: the browser has no path to remove. -/
def postCanceled : List Label :=
  [.serve .createPlaceholder, .serve .writePlaceholder, .placed, .compressed true, .token true,
    .serve .createFile, .cancel, .serve .unlinkTarget, .serve .leave]

theorem upload_leaves_files :
    (∃ s, (machine (lettersJob false)).Reachable s ∧ AtRest s ∧
        ¬ LeavesNothing (lettersJob false) s) ∧
      ∃ s, (machine (lettersJob true)).Reachable s ∧ AtRest s ∧
        ¬ LeavesNothing (lettersJob true) s := by
  constructor
  · have hreached : (machine (lettersJob false)).Reachable (after false tokenCanceled) :=
      Machine.reaches_of_path (by decide +kernel)
    refine ⟨_, hreached, ⟨by decide +kernel, ⟨true, by decide +kernel⟩,
      .inr ⟨.stored true, by decide +kernel⟩, .inl (by decide +kernel), by decide +kernel,
      by decide +kernel⟩, ?_⟩
    intro h
    exact absurd (h.otherwise (by decide +kernel)).1 (by decide +kernel)
  · have hreached : (machine (lettersJob true)).Reachable (after true postCanceled) :=
      Machine.reaches_of_path (by decide +kernel)
    refine ⟨_, hreached, ⟨by decide +kernel, ⟨true, by decide +kernel⟩,
      .inr ⟨.stored false, by decide +kernel⟩, .inl (by decide +kernel), by decide +kernel,
      by decide +kernel⟩, ?_⟩
    intro h
    exact absurd (h.otherwise (by decide +kernel)).2 (by decide +kernel)

end WebSshTool.Upload.Controller
