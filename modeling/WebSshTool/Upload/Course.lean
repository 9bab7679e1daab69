import WebSshTool.Upload.Controller

/-!
# The course of an upload

What holds of an upload in every run, whatever the server and the user do.

Each place where the function waits goes with requests of its own: which have
been sent, which are answered. That a request is not sent twice, and that
behind the placeholder either the guard is up or a cancel has sent the
`fs.unlink` of the target, is read off there. A server step moves a request
on and touches nothing of the browser's, so it is described once for all.

An upload that is lost is one that will not be completed any more. It stays
lost, which the promise chain makes less obvious than it sounds: a function
that returns is `completed` unless something else came first.
-/

namespace WebSshTool.Upload.Controller

open Files (Bytes Error utf8)
open Inodes

variable {ν : Type*}

/-! ## What the steps of the browser come to -/

namespace State

variable (s : State ν) (returns : Bool)

theorem releaseFileGuard_eq : s.releaseFileGuard =
    { s with
      fileGuard := false
      unlinkTarget := if s.fileGuard then .sent else s.unlinkTarget } := by
  obtain ⟨controller, fileGuard, aborted, phase⟩ := s
  cases fileGuard <;> rfl

theorem awaitRelease_eq : s.awaitRelease returns =
    { s with
      fileGuard := false
      unlinkTarget := if s.fileGuard then .sent else s.unlinkTarget
      phase := if s.fileGuard then .releasing returns else .settled
      controller := if s.fileGuard then s.controller else (s.settle returns).controller } := by
  obtain ⟨controller, fileGuard, aborted, phase⟩ := s
  cases fileGuard <;> rfl

theorem cancel_eq : s.cancel =
    { s with
      controller := .cancel
      aborted := true
      fileGuard := false
      unlinkTarget := if s.fileGuard then .sent else s.unlinkTarget
      phase := if s.phase = .posting ∧ s.aborted = false then .settled else s.phase } := by
  unfold cancel
  simp only [releaseFileGuard_eq, awaitRelease_eq]
  split
  · rfl
  · rfl

/-- The ways on from the first `await`: it goes on waiting, the placeholder has
failed, the upload has been cancelled, the compression has failed, or the token
is next. -/
theorem started_elim {P : State ν → Prop} (compressed placeholder : Option Bool)
    (hwait : compressed = none ∨ placeholder = none →
      P { s with phase := .starting compressed placeholder })
    (hfailed : placeholder = some false → P (s.settle false))
    (hclosed : placeholder = some true → s.isClosed → P (s.awaitRelease true))
    (herror : placeholder = some true → ¬ s.isClosed → P (s.awaitRelease false))
    (htoken : placeholder = some true → ¬ s.isClosed → P { s with phase := .token }) :
    P (s.started compressed placeholder) := by
  cases compressed with
  | none => exact hwait (.inl rfl)
  | some compressed =>
      cases placeholder with
      | none => exact hwait (.inr rfl)
      | some placeholder =>
          simp only [started]
          grind

end State

/-! ## What a step starts from and leads to -/

/-- The operations of the server. -/
inductive Serves [DecidableEq ν] (job : Job ν) (s : State ν) : Op → State ν → Prop
  | createPlaceholder {volume : Volume ν} {ino : Nat} (hwrite : s.writeFile = .sent)
      (hnew : s.volume.createNew job.target = .ok (volume, ino)) :
      Serves job s .createPlaceholder { s with volume, writeFile := .created ino }
  | createPlaceholderError (hwrite : s.writeFile = .sent) :
      Serves job s .createPlaceholder { s with writeFile := .answered false }
  | writePlaceholder {ino : Nat} (hwrite : s.writeFile = .created ino) :
      Serves job s .writePlaceholder { s with
        volume := s.volume.write ino 0 (utf8 placeholder), writeFile := .answered true }
  | createFile {volume : Volume ν} {ino : Nat} (hpost : s.post = .sent)
      (hcreate : s.volume.create job.stored = .ok (volume, ino)) :
      Serves job s .createFile { s with volume, post := .created ino 0 }
  | createFileError {e : Error} (hpost : s.post = .sent)
      (hcreate : s.volume.create job.stored = .error e) :
      Serves job s .createFile { s with post := .ended .failed }
  | copy {n ino offset : Nat} (hpost : s.post = .created ino offset)
      (hn : offset + n ≤ job.posted.length) :
      Serves job s (.copy n) { s with
        volume := s.volume.write ino offset ((job.posted.drop offset).take n)
        post := .created ino (offset + n) }
  | leave {ino offset : Nat} (hpost : s.post = .created ino offset) :
      Serves job s .leave { s with post := .ended (.stored (offset = job.posted.length)) }
  | turnDown {misread : Bool} (hpost : s.post = .sent) :
      Serves job s (.turnDown misread)
        { s with post := .ended (if misread then .misread else .failed) }
  | breakOff {ino offset : Nat} (hpost : s.post = .created ino offset) :
      Serves job s .breakOff { s with post := .ended .failed }
  | openSource {whole : Bool} {src : Nat} (hunzip : s.unzip = .sent)
      (hpost : s.post = .ended (.stored whole))
      (hread : s.volume.openRead job.temp = .ok src) :
      Serves job s .openSource { s with unzip := .opened src }
  | openSourceError (hunzip : s.unzip = .sent) :
      Serves job s .openSource { s with unzip := .answered false }
  | openTarget {src ino : Nat} {volume : Volume ν} (hunzip : s.unzip = .opened src)
      (hopen : s.volume.openWrite job.target = .ok (volume, ino)) :
      Serves job s .openTarget { s with
        volume
        unzip := .writing ino 0 (job.gunzip (s.volume.content src)).1
          (job.gunzip (s.volume.content src)).2 }
  | openTargetError {src : Nat} {e : Error} (hunzip : s.unzip = .opened src)
      (hopen : s.volume.openWrite job.target = .error e) :
      Serves job s .openTarget { s with unzip := .answered false }
  | inflate {ino offset : Nat} {chunk : Bytes} {rest : List Bytes} {ok : Bool}
      (hunzip : s.unzip = .writing ino offset (chunk :: rest) ok) :
      Serves job s .inflate { s with
        volume := s.volume.write ino offset chunk
        unzip := .writing ino (offset + chunk.length) rest ok }
  | inflated {ino offset : Nat} {ok : Bool} (hunzip : s.unzip = .writing ino offset [] ok) :
      Serves job s .inflate { s with unzip := .answered ok }
  | unlinkTemp {whole : Bool} (hsent : s.unlinkTemp = .sent)
      (hpost : s.post = .ended (.stored whole)) :
      Serves job s .unlinkTemp
        { s with volume := unlinked s.volume job.temp, unlinkTemp := .answered }
  | unlinkNull (hsent : s.unlinkTemp = .sent)
      (hpost : ∀ whole, s.post ≠ .ended (.stored whole)) :
      Serves job s .unlinkTemp { s with unlinkTemp := .answered }
  | unlinkTarget (hsent : s.unlinkTarget = .sent) :
      Serves job s .unlinkTarget
        { s with volume := unlinked s.volume job.target, unlinkTarget := .answered }

theorem serves_of_serve [DecidableEq ν] {job : Job ν} {s s' : State ν} {op : Op}
    (h : serve job s op = some s') : Serves job s op s' := by
  unfold serve at h
  split at h
  · split at h
    · next hwrite =>
        split at h
        · next hnew => exact Option.some.inj h ▸ .createPlaceholder hwrite hnew
        · exact Option.some.inj h ▸ .createPlaceholderError hwrite
    · exact absurd h (by simp)
  · split at h
    · next hwrite => exact Option.some.inj h ▸ .writePlaceholder hwrite
    · exact absurd h (by simp)
  · split at h
    · next hpost =>
        split at h
        · next hcreate => exact Option.some.inj h ▸ .createFile hpost hcreate
        · next hcreate => exact Option.some.inj h ▸ .createFileError hpost hcreate
    · exact absurd h (by simp)
  · split at h
    · next hpost =>
        split at h
        · next hn => exact Option.some.inj h ▸ .copy hpost hn.2
        · exact absurd h (by simp)
    · exact absurd h (by simp)
  · split at h
    · next hpost => exact Option.some.inj h ▸ .leave hpost
    · exact absurd h (by simp)
  · split at h
    · next hpost => exact Option.some.inj h ▸ .turnDown hpost
    · exact absurd h (by simp)
  · split at h
    · next hpost => exact Option.some.inj h ▸ .breakOff hpost
    · exact absurd h (by simp)
  · split at h
    · next hunzip hpost =>
        split at h
        · next hread => exact Option.some.inj h ▸ .openSource hunzip hpost hread
        · exact Option.some.inj h ▸ .openSourceError hunzip
    · next hunzip _ => exact Option.some.inj h ▸ .openSourceError hunzip
    · exact absurd h (by simp)
  · split at h
    · next hunzip =>
        split at h
        · next hopen => exact Option.some.inj h ▸ .openTarget hunzip hopen
        · next hopen => exact Option.some.inj h ▸ .openTargetError hunzip hopen
    · exact absurd h (by simp)
  · split at h
    · next hunzip => exact Option.some.inj h ▸ .inflate hunzip
    · next hunzip => exact Option.some.inj h ▸ .inflated hunzip
    · exact absurd h (by simp)
  · split at h
    · next hsent hpost => exact Option.some.inj h ▸ .unlinkTemp hsent hpost
    · next hsent hpost => exact Option.some.inj h ▸ .unlinkNull hsent hpost
    · exact absurd h (by simp)
  · split at h
    · next hsent => exact Option.some.inj h ▸ .unlinkTarget hsent
    · exact absurd h (by simp)

/-- The operations that the system refuses. -/
inductive Refuses (s : State ν) : Op → State ν → Prop
  | createPlaceholder (hwrite : s.writeFile = .sent) :
      Refuses s .createPlaceholder { s with writeFile := .answered false }
  | writePlaceholder {ino : Nat} (hwrite : s.writeFile = .created ino) :
      Refuses s .writePlaceholder { s with writeFile := .answered false }
  | unzip {op : Op} (hop : op = .openSource ∨ op = .openTarget ∨ op = .inflate)
      (hunsent : s.unzip ≠ .unsent) (hanswered : ∀ ok, s.unzip ≠ .answered ok) :
      Refuses s op { s with unzip := .answered false }
  | unlinkTemp (hsent : s.unlinkTemp = .sent) :
      Refuses s .unlinkTemp { s with unlinkTemp := .answered }
  | unlinkTarget (hsent : s.unlinkTarget = .sent) :
      Refuses s .unlinkTarget { s with unlinkTarget := .answered }

theorem refuses_of_refuse {s s' : State ν} {op : Op} (h : refuse s op = some s') :
    Refuses s op s' := by
  unfold refuse at h
  split at h
  · split at h
    · next hwrite => exact Option.some.inj h ▸ .createPlaceholder hwrite
    · exact absurd h (by simp)
  · split at h
    · next hwrite => exact Option.some.inj h ▸ .writePlaceholder hwrite
    · exact absurd h (by simp)
  · split at h
    · next hunzip =>
        exact Option.some.inj h ▸ .unzip (.inl rfl) (by simp [hunzip]) (by simp [hunzip])
    · exact absurd h (by simp)
  · split at h
    · next hunzip =>
        exact Option.some.inj h ▸ .unzip (.inr (.inl rfl)) (by simp [hunzip]) (by simp [hunzip])
    · exact absurd h (by simp)
  · split at h
    · next hunzip =>
        exact Option.some.inj h ▸ .unzip (.inr (.inr rfl)) (by simp [hunzip]) (by simp [hunzip])
    · exact absurd h (by simp)
  · split at h
    · next hsent => exact Option.some.inj h ▸ .unlinkTemp hsent
    · exact absurd h (by simp)
  · split at h
    · next hsent => exact Option.some.inj h ▸ .unlinkTarget hsent
    · exact absurd h (by simp)
  · exact absurd h (by simp)

/-- All steps. -/
inductive Moves [DecidableEq ν] (job : Job ν) (s : State ν) : Label → State ν → Prop
  | cancel : Moves job s .cancel s.cancel
  | close : Moves job s .close s.close
  | compressed {ok : Bool} {placeholder : Option Bool}
      (hphase : s.phase = .starting none placeholder) :
      Moves job s (.compressed ok) (s.started (some ok) placeholder)
  | placed {ok : Bool} {compressed : Option Bool} (hphase : s.phase = .starting compressed none)
      (hwrite : s.writeFile = .answered ok) :
      Moves job s .placed
        ({ s with fileGuard := ok || s.fileGuard }.started compressed (some ok))
  | token (hphase : s.phase = .token) :
      Moves job s (.token true) { s with phase := .posting, post := .sent }
  | tokenError (hphase : s.phase = .token) : Moves job s (.token false) (s.awaitRelease false)
  | load {reply : Reply} (hphase : s.phase = .posting) (hpost : s.post = .ended reply) :
      Moves job s .load (s.uploaded job reply)
  | error (hphase : s.phase = .posting) : Moves job s .error (s.awaitRelease false)
  | unzipped {ok : Bool} (hphase : s.phase = .unzipping) (hunzip : s.unzip = .answered ok) :
      Moves job s .unzipped { s with unlinkTemp := .sent, phase := .removing ok }
  | removed (hphase : s.phase = .removing true) (htemp : s.unlinkTemp = .answered) :
      Moves job s .removed ({ s with fileGuard := false }.settle true)
  | removedError (hphase : s.phase = .removing false) (htemp : s.unlinkTemp = .answered) :
      Moves job s .removed (s.awaitRelease false)
  | discarded {releasing : Bool} (hphase : s.phase = .discarding releasing)
      (htemp : s.unlinkTemp = .answered) : Moves job s .discarded (s.settle true)
  | released {returns : Bool} (hphase : s.phase = .releasing returns)
      (htarget : s.unlinkTarget = .answered) : Moves job s .released (s.settle returns)
  | serve {op : Op} {s' : State ν} (hserve : Serves job s op s') : Moves job s (.serve op) s'
  | refuse {op : Op} {s' : State ν} (hrefuse : Refuses s op s') : Moves job s (.refuse op) s'

theorem moves_of_step [DecidableEq ν] {job : Job ν} {s s' : State ν} {l : Label}
    (h : step job s l = some s') : Moves job s l s' := by
  cases l with
  | cancel => exact Option.some.inj h ▸ .cancel
  | close => exact Option.some.inj h ▸ .close
  | compressed ok =>
      simp only [step] at h
      split at h
      · next hphase => exact Option.some.inj h ▸ .compressed hphase
      · exact absurd h (by simp)
  | placed =>
      simp only [step] at h
      split at h
      · next hphase hwrite => exact Option.some.inj h ▸ .placed hphase hwrite
      · exact absurd h (by simp)
  | token ok =>
      simp only [step] at h
      split at h
      · next hphase =>
          cases ok with
          | true => exact Option.some.inj h ▸ .token hphase
          | false => exact Option.some.inj h ▸ .tokenError hphase
      · exact absurd h (by simp)
  | load =>
      simp only [step] at h
      split at h
      · next hphase hpost => exact Option.some.inj h ▸ .load hphase hpost
      · exact absurd h (by simp)
  | error =>
      simp only [step] at h
      split at h
      · next hphase => exact Option.some.inj h ▸ .error hphase
      · exact absurd h (by simp)
  | unzipped =>
      simp only [step] at h
      split at h
      · next hphase hunzip => exact Option.some.inj h ▸ .unzipped hphase hunzip
      · exact absurd h (by simp)
  | removed =>
      simp only [step] at h
      split at h
      · next hphase htemp => exact Option.some.inj h ▸ .removed hphase htemp
      · next hphase htemp => exact Option.some.inj h ▸ .removedError hphase htemp
      · exact absurd h (by simp)
  | discarded =>
      simp only [step] at h
      split at h
      · next hphase htemp =>
          split at h
          · exact Option.some.inj h ▸ .discarded hphase htemp
          · exact absurd h (by simp)
      · exact absurd h (by simp)
  | released =>
      simp only [step] at h
      split at h
      · next hphase htarget => exact Option.some.inj h ▸ .released hphase htarget
      · exact absurd h (by simp)
  | serve op => exact .serve (serves_of_serve h)
  | refuse op => exact .refuse (refuses_of_refuse h)

/-! ## Which requests go with which wait -/

namespace State

variable (s : State ν)

/-- Not settled, so neither completed nor in error. -/
@[grind] def Unsettled : Prop := s.controller = .running ∨ s.controller = .cancel

/-- Neither the POST nor anything after it has been sent. -/
@[grind] def Before : Prop := s.post = .unsent ∧ s.unzip = .unsent ∧ s.unlinkTemp = .unsent

@[grind] def IsOver : Prop := ∃ reply, s.post = .ended reply

@[grind] def Unzipped : Prop := s.unzip = .unsent ∨ ∃ ok, s.unzip = .answered ok

@[grind] def Discarded : Prop := s.unlinkTemp = .unsent ∨ s.unlinkTemp = .answered ∧ s.IsOver

/-- Behind the placeholder: the guard is up, or a cancel has let it down. -/
@[grind] def Guarded : Prop :=
  if s.fileGuard then s.controller = .running ∧ s.unlinkTarget = .unsent
  else s.controller = .cancel ∧ s.unlinkTarget ≠ .unsent

/-- While the function waits for the compression too, a cancel may come first
and the guard go up behind it. -/
@[grind] def Placed : Option Bool → Prop
  | none => s.fileGuard = false ∧ s.unlinkTarget = .unsent
  | some false =>
      s.writeFile = .answered false ∧ s.fileGuard = false ∧ s.unlinkTarget = .unsent
  | some true =>
      s.writeFile = .answered true ∧
        if s.fileGuard then s.unlinkTarget = .unsent
        else s.controller = .cancel ∧ s.unlinkTarget ≠ .unsent

end State

/-- The requests of each phase. -/
def Wired (job : Job ν) (s : State ν) : Prop :=
  match s.phase with
  | .starting _ placeholder => s.Unsettled ∧ s.Before ∧ s.Placed placeholder
  | .token => s.Guarded ∧ s.Before ∧ s.writeFile = .answered true
  | .posting =>
      s.Guarded ∧ s.post ≠ .unsent ∧ s.unzip = .unsent ∧ s.unlinkTemp = .unsent ∧
        s.writeFile = .answered true
  | .unzipping =>
      s.Guarded ∧ s.IsOver ∧ s.unzip ≠ .unsent ∧ s.unlinkTemp = .unsent ∧
        s.writeFile = .answered true ∧ job.uploadCompress = true
  | .removing unzipped =>
      s.Guarded ∧ s.IsOver ∧ s.unzip = .answered unzipped ∧ s.unlinkTemp ≠ .unsent ∧
        s.writeFile = .answered true ∧ job.uploadCompress = true
  | .discarding releasing =>
      s.Guarded ∧ s.IsOver ∧ s.unzip = .unsent ∧ s.unlinkTemp ≠ .unsent ∧
        s.writeFile = .answered true ∧ job.uploadCompress = true ∧ s.fileGuard = false ∧
        releasing = false
  | .releasing returns =>
      s.Unsettled ∧ s.Unzipped ∧ s.Discarded ∧ s.writeFile = .answered true ∧
        s.fileGuard = false ∧ s.unlinkTarget ≠ .unsent ∧
        (returns = true → s.controller = .cancel)
  | .settled =>
      s.controller ≠ .running ∧ s.Unzipped ∧ s.Discarded ∧
        (∃ ok, s.writeFile = .answered ok) ∧ s.fileGuard = false ∧
        (s.unlinkTarget = .unsent → s.post = .unsent ∨ s.IsOver)

section

variable {job : Job ν} {s s' : State ν}

theorem Wired.init [DecidableEq ν] (job : Job ν) : Wired job (machine job).init :=
  ⟨.inl rfl, ⟨rfl, rfl, rfl⟩, rfl, rfl⟩

theorem Wired.cancel (h : Wired job s) : Wired job s.cancel := by
  rw [State.cancel_eq]
  cases hphase : s.phase with
  | starting compressed placeholder =>
      rcases placeholder with _ | _ | _ <;> simp only [Wired, hphase] at h ⊢ <;> grind
  | posting =>
      simp only [Wired, hphase] at h
      by_cases haborted : s.aborted = false
      · rw [if_pos ⟨rfl, haborted⟩]
        simp only [Wired]
        grind
      · rw [if_neg (by simp [haborted])]
        simp only [Wired]
        grind
  | token | unzipping | removing | discarding | releasing | settled =>
      simp only [Wired, hphase] at h ⊢
      grind

theorem Wired.close (h : Wired job s) : Wired job s.close := by
  unfold State.close
  split
  · exact h
  · exact h.cancel

theorem Wired.started {compressed placeholder : Option Bool} (hrun : s.Unsettled)
    (hbefore : s.Before) (hplaced : s.Placed placeholder) :
    Wired job (s.started compressed placeholder) := by
  refine s.started_elim compressed placeholder ?_ ?_ ?_ ?_ ?_
  · exact fun _ => ⟨hrun, hbefore, hplaced⟩
  · intro hp
    simp only [Wired, State.settle]
    grind
  · intro hp hclosed
    rw [State.awaitRelease_eq]
    simp only [Wired]
    grind
  · intro hp hopen
    rw [State.awaitRelease_eq]
    simp only [Wired]
    grind
  · intro hp hopen
    simp only [Wired]
    grind

/-- Where the function gives up, with the duty to remove the placeholder. -/
theorem Wired.awaitRelease (hguard : s.Guarded) (hunzip : s.Unzipped) (htemp : s.Discarded)
    (hplaced : s.writeFile = .answered true) : Wired job (s.awaitRelease false) := by
  rw [State.awaitRelease_eq]
  cases hfile : s.fileGuard with
  | true =>
      simp only [Wired, if_true]
      grind
  | false =>
      simp only [Wired, Bool.false_eq_true, if_false]
      grind

theorem Wired.uploaded {reply : Reply} (h : Wired job s) (hphase : s.phase = .posting)
    (hpost : s.post = .ended reply) : Wired job (s.uploaded job reply) := by
  simp only [Wired, hphase] at h
  obtain ⟨hguard, -, hunzip, htemp, hplaced⟩ := h
  have hread : Wired job
      (if job.uploadCompress then
        if s.isClosed then
          { s.releaseFileGuard with unlinkTemp := .sent, phase := .discarding s.fileGuard }
        else { s with unzip := .sent, phase := .unzipping }
      else { s with fileGuard := false }.settle true) := by
    split
    · next hcompress =>
        split
        · next hclosed =>
            rw [State.releaseFileGuard_eq]
            simp only [Wired]
            grind
        · next hopen =>
            simp only [Wired]
            grind
    · simp only [Wired, State.settle]
      grind
  cases reply with
  | stored whole => exact hread
  | misread => exact hread
  | failed => exact .awaitRelease hguard (.inl hunzip) (.inl htemp) hplaced

/-! ## Server steps -/

/-- What no step of the server does to the browser and its requests: it waits
for none, takes no answer back and answers only what was sent. -/
structure Served (s s' : State ν) : Prop where
  controller : s'.controller = s.controller
  fileGuard : s'.fileGuard = s.fileGuard
  aborted : s'.aborted = s.aborted
  phase : s'.phase = s.phase
  writeFile : ∀ ok, s.writeFile = .answered ok → s'.writeFile = s.writeFile
  post_unsent : s'.post = .unsent ↔ s.post = .unsent
  post_over : ∀ reply, s.post = .ended reply → s'.post = s.post
  unzip_unsent : s'.unzip = .unsent ↔ s.unzip = .unsent
  unzip_answered : ∀ ok, s.unzip = .answered ok → s'.unzip = s.unzip
  unlinkTemp : s.unlinkTemp ≠ .sent → s'.unlinkTemp = s.unlinkTemp
  unlinkTemp_sent : s.unlinkTemp = .sent → s'.unlinkTemp ≠ .unsent
  unlinkTarget : s.unlinkTarget ≠ .sent → s'.unlinkTarget = s.unlinkTarget
  unlinkTarget_sent : s.unlinkTarget = .sent → s'.unlinkTarget ≠ .unsent

theorem Served.serve [DecidableEq ν] {op : Op} (h : Serves job s op s') : Served s s' := by
  cases h <;> constructor <;> grind

theorem Served.refuse {op : Op} (h : Refuses s op s') : Served s s' := by
  cases h <;> constructor <;> grind

theorem Wired.served (h : Wired job s) (hs : Served s s') : Wired job s' := by
  obtain ⟨hcontroller, hguard, -, hphase, hwrite, hunsent, hover, hunzip, hanswered, htemp,
    htemp', htarget, htarget'⟩ := hs
  cases hp : s.phase with
  | starting compressed placeholder =>
      rcases placeholder with _ | _ | _ <;> simp only [Wired, hphase, hp] at h ⊢ <;> grind
  | token | posting | unzipping | removing | discarding | releasing | settled =>
      simp only [Wired, hphase, hp] at h ⊢
      grind

theorem Wired.step [DecidableEq ν] {l : Label} (h : Wired job s)
    (hstep : step job s l = some s') : Wired job s' := by
  cases moves_of_step hstep with
  | cancel => exact h.cancel
  | close => exact h.close
  | compressed hphase =>
      simp only [Wired, hphase] at h
      exact .started h.1 h.2.1 h.2.2
  | @placed ok _ hphase hwrite =>
      simp only [Wired, hphase] at h
      refine .started h.1 h.2.1 ?_
      cases ok <;> grind
  | token hphase =>
      simp only [Wired, hphase] at h ⊢
      grind
  | tokenError hphase =>
      simp only [Wired, hphase] at h
      exact .awaitRelease h.1 (.inl h.2.1.2.1) (.inl h.2.1.2.2) h.2.2
  | load hphase hpost => exact h.uploaded hphase hpost
  | error hphase =>
      simp only [Wired, hphase] at h
      exact .awaitRelease h.1 (.inl h.2.2.1) (.inl h.2.2.2.1) h.2.2.2.2
  | unzipped hphase hunzip =>
      simp only [Wired, hphase] at h ⊢
      grind
  | removed hphase =>
      simp only [Wired, hphase, State.settle] at h ⊢
      grind
  | removedError hphase htemp =>
      simp only [Wired, hphase] at h
      exact .awaitRelease h.1 (.inr ⟨_, h.2.2.1⟩) (.inr ⟨htemp, h.2.1⟩) h.2.2.2.2.1
  | discarded hphase =>
      simp only [Wired, hphase, State.settle] at h ⊢
      grind
  | released hphase =>
      simp only [Wired, hphase, State.settle] at h ⊢
      grind
  | serve hserve => exact h.served (.serve hserve)
  | refuse hrefuse => exact h.served (.refuse hrefuse)

/-! ## What a request tells of the phase -/

theorem Wired.placing (h : Wired job s) (hwrite : ∀ ok, s.writeFile ≠ .answered ok) :
    ∃ compressed, s.phase = .starting compressed none := by
  cases hphase : s.phase with
  | starting compressed p =>
      simp only [Wired, hphase] at h
      rcases p with _ | _ | _
      · exact ⟨_, rfl⟩
      · exact absurd h.2.2.1 (hwrite _)
      · exact absurd h.2.2.1 (hwrite _)
  | token | posting | unzipping | removing | discarding | releasing | settled =>
      simp only [Wired, hphase] at h
      exfalso
      grind

theorem Wired.guard_down (h : Wired job s) (hsent : s.unlinkTarget ≠ .unsent) :
    s.fileGuard = false := by
  cases hphase : s.phase with
  | starting compressed p =>
      rcases p with _ | _ | _ <;> simp only [Wired, hphase] at h <;> grind
  | token | posting | unzipping | removing | discarding | releasing | settled =>
      simp only [Wired, hphase] at h
      grind

/-- While the POST is on its way or with its handler, the target is of concern
only under the guard or under an `fs.unlink`. -/
theorem Wired.pending (h : Wired job s) (hpost : s.post ≠ .unsent) (hover : ¬ s.IsOver) :
    s.phase = .posting ∧ s.Guarded ∧ s.unzip = .unsent ∧ s.unlinkTemp = .unsent ∨
      ((∃ returns, s.phase = .releasing returns) ∨ s.phase = .settled) ∧
        s.fileGuard = false ∧ s.unlinkTarget ≠ .unsent ∧ s.Unzipped ∧ s.Discarded := by
  cases hphase : s.phase with
  | starting | token | unzipping | removing | discarding =>
      simp only [Wired, hphase] at h
      exfalso
      grind
  | posting | releasing | settled =>
      simp only [Wired, hphase] at h
      grind

theorem Wired.unzipping (h : Wired job s) (hsent : ¬ s.Unzipped) :
    s.phase = .unzipping ∧ s.Guarded ∧ s.IsOver ∧ s.unlinkTemp = .unsent ∧
      job.uploadCompress = true := by
  cases hphase : s.phase with
  | unzipping =>
      simp only [Wired, hphase] at h
      grind
  | starting | token | posting | removing | discarding | releasing | settled =>
      simp only [Wired, hphase] at h
      exfalso
      grind

/-! ## Lost -/

/-- It has come to an error or a cancel, or is on its way there. -/
def Lost (s : State ν) : Prop :=
  s.controller = .error ∨ s.controller = .cancel ∨
    match s.phase with
    | .starting _ _ => s.writeFile = .answered false
    | .posting => s.post = .ended .failed
    | .removing unzipped => unzipped = false
    | .releasing returns => returns = false
    | _ => False

theorem Lost.awaitRelease (h : s.Unsettled) : Lost (s.awaitRelease false) := by
  rw [State.awaitRelease_eq]
  simp only [Lost]
  grind

/-- A function that returns behind a cancel completes nothing. -/
theorem Lost.canceled {returns : Bool} (h : s.controller = .cancel) :
    Lost (s.settle returns) ∧ Lost (s.awaitRelease returns) := by
  refine ⟨.inr (.inl ?_), .inr (.inl ?_)⟩
  · simp [State.settle, h]
  · simp [State.awaitRelease_eq, State.settle, h]

theorem Lost.started {compressed placeholder : Option Bool} (hrun : s.Unsettled)
    (hplaced : s.Placed placeholder)
    (h : s.controller = .cancel ∨ s.writeFile = .answered false) :
    Lost (s.started compressed placeholder) := by
  refine s.started_elim compressed placeholder ?_ ?_ ?_ ?_ ?_
  · intro hp
    simp only [Lost]
    grind
  · intro hp
    simp only [Lost, State.settle]
    grind
  · exact fun _ hclosed => (Lost.canceled (hrun.resolve_left hclosed)).2
  · exact fun _ _ => .awaitRelease hrun
  · intro hp hopen
    exfalso
    grind

theorem Lost.served (h : Lost s) (hs : Served s s') : Lost s' := by
  obtain ⟨hcontroller, -, -, hphase, hwrite, -, hover, -⟩ := hs
  simp only [Lost, hcontroller, hphase] at h ⊢
  grind

/-- An upload that is lost stays lost. -/
theorem Lost.step [DecidableEq ν] {l : Label} (hw : Wired job s) (h : Lost s)
    (hstep : step job s l = some s') : Lost s' := by
  cases moves_of_step hstep with
  | cancel => exact .inr (.inl (by rw [State.cancel_eq]))
  | close =>
      unfold State.close
      split
      · exact h
      · exact .inr (.inl (by rw [State.cancel_eq]))
  | compressed hphase =>
      simp only [Wired, hphase] at hw
      simp only [Lost, hphase] at h
      exact .started hw.1 hw.2.2 (by grind)
  | @placed ok _ hphase hwrite =>
      simp only [Wired, hphase] at hw
      simp only [Lost, hphase] at h
      refine .started hw.1 ?_ (by grind)
      cases ok <;> grind
  | token hphase =>
      simp only [Lost, hphase] at h ⊢
      grind
  | tokenError hphase =>
      simp only [Wired, hphase] at hw
      exact .awaitRelease (by grind)
  | @load reply hphase hpost =>
      simp only [Wired, hphase] at hw
      simp only [Lost, hphase, hpost] at h
      have hrun : s.Unsettled := by grind
      cases reply with
      | failed => exact .awaitRelease hrun
      | stored whole =>
          simp only [State.uploaded, State.releaseFileGuard_eq]
          grind [Lost]
      | misread =>
          simp only [State.uploaded, State.releaseFileGuard_eq]
          grind [Lost]
  | error hphase =>
      simp only [Wired, hphase] at hw
      exact .awaitRelease (by grind)
  | unzipped hphase =>
      simp only [Lost, hphase] at h ⊢
      grind
  | removed hphase =>
      simp only [Lost, hphase, State.settle] at h ⊢
      grind
  | removedError hphase =>
      simp only [Wired, hphase] at hw
      exact .awaitRelease (by grind)
  | discarded hphase =>
      simp only [Wired, hphase] at hw
      exact (Lost.canceled (by grind)).1
  | released hphase =>
      simp only [Wired, hphase] at hw
      simp only [Lost, hphase, State.settle] at h ⊢
      grind
  | serve hserve => exact h.served (.serve hserve)
  | refuse hrefuse => exact h.served (.refuse hrefuse)

end

end WebSshTool.Upload.Controller
