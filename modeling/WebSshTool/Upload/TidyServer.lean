import WebSshTool.Upload.Tidy

/-!
# Careful steps of the server

Every request has its turn at any time, so what its steps find is said by the
invariant alone. Three of them give a file its name; the others write to a
file that has one, or to one that has lost it, and take a name away.
-/

namespace WebSshTool.Upload.Controller

open Files (Bytes Error utf8 writeAt)
open Inodes

section

variable {ν : Type*} {job : Job ν} {s s' : State ν}

/-! ## The placeholder -/

/-- The steps of `fs.writeFile`. -/
theorem Tidy.writing (h : Tidy job s) (hwrite : ∀ ok, s.writeFile ≠ .answered ok)
    (hs : Served s s') (hplacing : Placing job s')
    (hothers : ∀ x, x ≠ job.target → s'.volume.entry x = s.volume.entry x)
    (hfile : ∀ e, s'.volume.entry job.target = some e → e.isFile = true) : Tidy job s' := by
  obtain ⟨compressed, hphase⟩ := h.wired.placing hwrite
  have hw' := h.wired.served hs
  have hwired := h.wired
  simp only [Wired, hphase] at hwired
  obtain ⟨hrun, hbefore, hguard, htarget⟩ := hwired
  have hfree := h.free_before hbefore
  have hphase' : s'.phase = .starting compressed none := hs.phase.trans hphase
  have hw := hw'
  simp only [Wired, hphase'] at hw
  refine .before hw' hw.2.1 (fun _ _ => hplacing) (fun _ => .inr (.inr ⟨_, hphase'⟩)) ?_ ?_ ?_
    hfile ?_
  · grind
  · grind
  · rw [hothers _ job.temp_ne, hfree]
  · grind

theorem Tidy.notPlaced (h : Tidy job s) (hwrite : s.writeFile = .sent)
    (hs : Served s { s with writeFile := .answered false }) :
    Tidy job { s with writeFile := .answered false } := by
  obtain ⟨compressed, hphase⟩ := h.wired.placing (by simp [hwrite])
  have hplacing := h.placing _ hphase
  simp only [Placing, hwrite] at hplacing
  exact h.writing (by simp [hwrite]) hs hplacing (fun _ _ => rfl) fun e he => (h.apart e he).1

theorem Tidy.writePlaceholder {ino : Nat} (h : Tidy job s) (hwrite : s.writeFile = .created ino)
    (hs : Served s { s with
      volume := s.volume.write ino 0 (utf8 placeholder), writeFile := .answered true }) :
    Tidy job { s with
      volume := s.volume.write ino 0 (utf8 placeholder), writeFile := .answered true } := by
  obtain ⟨compressed, hphase⟩ := h.wired.placing (by simp [hwrite])
  have hplacing := h.placing _ hphase
  simp only [Placing, hwrite] at hplacing
  refine h.writing (by simp [hwrite]) hs ⟨ino, hplacing.1, ?_⟩ (fun _ _ => rfl)
    fun e he => (h.apart e he).1
  show Function.update _ _ _ _ = _
  rw [Function.update_self, hplacing.2, Files.writeAt_zero]
  simp

variable [DecidableEq ν]

theorem Tidy.createPlaceholder {volume : Volume ν} {ino : Nat} (h : Tidy job s)
    (hwrite : s.writeFile = .sent) (hnew : s.volume.createNew job.target = .ok (volume, ino))
    (hs : Served s { s with volume, writeFile := .created ino }) :
    Tidy job { s with volume, writeFile := .created ino } := by
  obtain ⟨hopened, hempty⟩ := Volume.createNew_opened hnew
  refine h.writing (by simp [hwrite]) hs ⟨hopened.entry, hempty⟩ hopened.others ?_
  intro e he
  obtain rfl := Option.some.inj (hopened.entry.symm.trans he)
  rfl

/-! ## The POST -/

omit [DecidableEq ν] in
/-- A step of the handler of the POST, up to its answer. -/
theorem Tidy.posts {volume : Volume ν} {post : Post} (h : Tidy job s)
    (hs : Served s { s with volume, post }) (hpost : s.post ≠ .unsent) (hover : ¬ s.IsOver)
    (hentry : volume.entry = s.volume.entry)
    (hheld : s.volume.entry job.temp ≠ none → post.Held)
    (hhandler : ∀ ino offset, post = .created ino offset → ∃ i o, s.post = .created i o)
    (hfilled : ∀ ino, s.volume.entry job.target = some (.file ino) → Filled job s ino →
      Filled job { s with volume, post } ino)
    (hstaged : job.uploadCompress = true → Staged job s → Staged job { s with volume, post }) :
    Tidy job { s with volume, post } := by
  have hpending := h.wired.pending hpost hover
  exact {
    wired := h.wired.served hs
    placing := by grind
    target := by simpa only [hentry] using h.target
    unlinked := by simpa only [hentry] using h.unlinked
    temp := by
      intro hthere
      simp only [hentry] at hthere
      have := h.temp hthere
      exact ⟨this.1, hheld hthere, this.2.2⟩
    handler := by
      intro hcompress ino offset hcreated
      obtain ⟨i, o, hcreated'⟩ := hhandler ino offset hcreated
      exact h.handler hcompress i o hcreated'
    filled := by
      intro hup
      obtain ⟨ino, htarget, hfill⟩ := h.filled hup
      exact ⟨ino, by simpa only [hentry] using htarget, hfilled ino htarget hfill⟩
    staged := fun hcompress => hstaged hcompress (h.staged hcompress)
    apart := by simpa only [hentry] using h.apart
    tempFile := by simpa only [hentry] using h.tempFile
    completed := by
      intro hc
      have := (h.completed hc).1
      grind }

omit [DecidableEq ν] in
/-- Another answer, with nothing created. -/
theorem Tidy.turnDown {reply : Reply} (h : Tidy job s) (hpost : s.post = .sent)
    (hreply : reply = .misread ∨ reply = .failed)
    (hs : Served s { s with post := .ended reply }) : Tidy job { s with post := .ended reply } := by
  have hfree := h.free (by simp [hpost, Post.Held])
  refine h.posts hs (by simp [hpost]) (by simp [State.IsOver, hpost]) rfl
    (fun hthere => absurd hfree hthere) (fun _ _ heq => absurd heq (by simp)) ?_ ?_
  · intro ino _ hfill
    simp only [Filled, hpost] at hfill ⊢
    rcases hreply with rfl | rfl
    · exact hfill
    · grind
  · intro _ _
    rcases hreply with rfl | rfl <;> trivial

theorem Tidy.createTemp {volume : Volume ν} {i : Nat} (h : Tidy job s)
    (hcompress : job.uploadCompress = true) (hphase : s.phase = .posting) (hpost : s.post = .sent)
    (hcreate : s.volume.create job.stored = .ok (volume, i))
    (hs : Served s { s with volume, post := .created i 0 }) :
    Tidy job { s with volume, post := .created i 0 } := by
  have hw := h.wired.served hs
  have hfree := h.free (by simp [hpost, Post.Held])
  have hwired := h.wired
  simp only [Wired, hphase] at hwired
  obtain ⟨hguard, -, hunzip, hunlink, -⟩ := hwired
  have hstored : job.stored = job.temp := by simp [Job.stored, hcompress]
  rw [hstored] at hcreate
  obtain ⟨hopened, hempty⟩ := Volume.create_opened hcreate
  have hnew : i = s.volume.count := by
    rcases hopened.origin with horigin | ⟨-, hino⟩
    · exact absurd (hfree.symm.trans horigin) (by simp)
    · exact hino
  have hsame := hopened.others job.target job.temp_ne.symm
  exact {
    wired := hw
    placing := by grind
    target := by
      intro hthere
      exact h.target (hsame ▸ hthere)
    unlinked := fun ht => hsame.trans (h.unlinked ht)
    temp := fun _ => ⟨hcompress, trivial, by simp [Kept, hphase]⟩
    handler := fun _ _ _ _ => hphase
    filled := by
      intro hup
      obtain ⟨ino, hentry, hfill⟩ := h.filled hup
      have hlt := s.volume.bounded _ _ hentry
      refine ⟨ino, hsame.trans hentry, ?_⟩
      simp only [Filled, hcompress, hunzip, if_true] at hfill ⊢
      rw [hopened.content ino hlt (hnew ▸ Nat.ne_of_lt hlt), hfill]
    staged := by
      intro _
      exact ⟨hopened.entry, by rw [hempty, List.take_zero], Nat.zero_le _⟩
    apart := by
      intro e he
      rw [hsame] at he
      refine ⟨(h.apart e he).1, ?_⟩
      rw [hopened.entry]
      intro heq
      obtain rfl := Option.some.inj heq
      exact absurd (s.volume.bounded _ _ he) (by simp [hnew, Entry.ino])
    tempFile := by
      intro e he
      obtain rfl := Option.some.inj (hopened.entry.symm.trans he)
      rfl
    completed := by grind }

theorem Tidy.createTarget {volume : Volume ν} {ino : Nat} (h : Tidy job s)
    (hdirect : job.uploadCompress = false) (hunlink : s.unlinkTarget ≠ .answered)
    (hpost : s.post = .sent) (hcreate : s.volume.create job.stored = .ok (volume, ino))
    (hs : Served s { s with volume, post := .created ino 0 }) :
    Tidy job { s with volume, post := .created ino 0 } := by
  have hw := h.wired.served hs
  have hfree := h.free (by simp [hpost, Post.Held])
  have hpending := h.wired.pending (by simp [hpost]) (by simp [State.IsOver, hpost])
  have hcompleted : s.controller ≠ .completed := by
    intro hc
    have := (h.completed hc).1
    grind
  have hstored : job.stored = job.target := by simp [Job.stored, hdirect]
  rw [hstored] at hcreate
  obtain ⟨hopened, hempty⟩ := Volume.create_opened hcreate
  have hsame := hopened.others job.temp job.temp_ne
  exact {
    wired := hw
    placing := by grind
    target := by
      cases ht : s.unlinkTarget with
      | answered => exact absurd ht hunlink
      | sent => exact fun _ => .inr (.inl rfl)
      | unsent => grind
    unlinked := fun ht => absurd ht hunlink
    temp := fun hthere => absurd (hsame.trans hfree) hthere
    handler := by grind
    filled := by
      intro _
      refine ⟨ino, hopened.entry, ?_⟩
      simp [Filled, hdirect, hempty]
    staged := by grind
    apart := by
      intro e he
      obtain rfl := Option.some.inj (hopened.entry.symm.trans he)
      exact ⟨rfl, by simp [hsame, hfree]⟩
    tempFile := by
      intro e he
      rw [hsame, hfree] at he
      exact absurd he (by simp)
    completed := fun hc => absurd hc hcompleted }

omit [DecidableEq ν] in
theorem Tidy.copy {n i offset : Nat} (h : Tidy job s) (hpost : s.post = .created i offset)
    (hn : offset + n ≤ job.posted.length)
    (hs : Served s { s with
      volume := s.volume.write i offset ((job.posted.drop offset).take n)
      post := .created i (offset + n) }) :
    Tidy job { s with
      volume := s.volume.write i offset ((job.posted.drop offset).take n)
      post := .created i (offset + n) } := by
  refine h.posts hs (by simp [hpost]) (by simp [State.IsOver, hpost]) rfl
    (fun _ => trivial) (fun _ _ _ => ⟨i, offset, hpost⟩) ?_ ?_
  · intro ino htarget hfill
    by_cases hcompress : job.uploadCompress = true
    · have htemp := h.staged hcompress
      simp only [Staged, hpost] at htemp
      have hne : ino ≠ i := by
        intro heq
        exact (h.apart _ htarget).2 (heq ▸ htemp.1)
      have hphase := h.handler hcompress i offset hpost
      have hwired := h.wired
      simp only [Wired, hphase] at hwired
      simp only [Filled, hcompress, hwired.2.2.1, if_true] at hfill ⊢
      rw [Volume.write_content_of_ne _ hne, hfill]
    · have hposted : job.posted = job.content := by simp [Job.posted, hcompress]
      simp only [Filled, hcompress, hpost] at hfill ⊢
      obtain ⟨rfl, hoffset, hcontent⟩ := hfill
      rw [hposted] at hn ⊢
      refine ⟨rfl, hn, ?_⟩
      rw [Volume.write_content_self, hcontent, Files.writeAt_take _ hoffset]
  · intro hcompress hthere
    have hposted : job.posted = job.compressed := by simp [Job.posted, hcompress]
    simp only [Staged, hpost] at hthere ⊢
    obtain ⟨htemp, hcontent, hoffset⟩ := hthere
    rw [hposted] at hn ⊢
    refine ⟨htemp, ?_, hn⟩
    rw [Volume.write_content_self, hcontent, Files.writeAt_take _ hoffset]

omit [DecidableEq ν] in
theorem Tidy.leave {i offset : Nat} (h : Tidy job s) (hpost : s.post = .created i offset)
    (hs : Served s { s with post := .ended (.stored (offset = job.posted.length)) }) :
    Tidy job { s with post := .ended (.stored (offset = job.posted.length)) } := by
  refine h.posts hs (by simp [hpost]) (by simp [State.IsOver, hpost]) rfl
    (fun _ => trivial) (fun _ _ heq => absurd heq (by simp)) ?_ ?_
  · intro ino _ hfill
    simp only [Filled, hpost] at hfill ⊢
    split
    · next hcompress =>
        rw [if_pos hcompress] at hfill
        exact hfill
    · next hdirect =>
        rw [if_neg hdirect] at hfill
        have hposted : job.posted = job.content := by simp [Job.posted, hdirect]
        exact ⟨offset, hfill.2.1, hfill.2.2, by simp [hposted]⟩
  · intro hcompress hthere
    have hphase := h.handler hcompress i offset hpost
    have hwired := h.wired
    simp only [Wired, hphase] at hwired
    simp only [Staged, hpost, hwired.2.2.1] at hthere ⊢
    exact fun _ => ⟨offset, i, hthere.1, hthere.2.1⟩

omit [DecidableEq ν] in
theorem Tidy.breakOff {i offset : Nat} (h : Tidy job s) (hdirect : job.uploadCompress = false)
    (hpost : s.post = .created i offset) (hs : Served s { s with post := .ended .failed }) :
    Tidy job { s with post := .ended .failed } := by
  refine h.posts hs (by simp [hpost]) (by simp [State.IsOver, hpost]) rfl ?_
    (fun _ _ heq => absurd heq (by simp)) ?_ ?_
  · intro hthere
    exact absurd (h.temp hthere).1 (by simp [hdirect])
  · intro ino _ _
    simp [Filled, hdirect]
  · exact fun hcompress => absurd hcompress (by simp [hdirect])

/-! ## `unzip` -/

omit [DecidableEq ν] in
/-- A step of `unzip` that opens nothing new. -/
theorem Tidy.unzips {volume : Volume ν} {unzip : UnzipCall} (h : Tidy job s)
    (hsent : ¬ s.Unzipped) (hs : Served s { s with volume, unzip })
    (hentry : volume.entry = s.volume.entry) (hunzip : unzip ≠ .unsent ∧ unzip ≠ .sent)
    (hfilled : job.uploadCompress = true → ∀ ino, Filled job s ino →
      Filled job { s with volume, unzip } ino) :
    Tidy job { s with volume, unzip } := by
  obtain ⟨hphase, hguard, ⟨reply, hover⟩, -, hcompress⟩ := h.wired.unzipping hsent
  exact {
    wired := h.wired.served hs
    placing := by grind
    target := by simpa only [hentry] using h.target
    unlinked := by simpa only [hentry] using h.unlinked
    temp := by simpa only [hentry, Kept] using h.temp
    handler := h.handler
    filled := by
      intro hup
      obtain ⟨ino, htarget, hfill⟩ := h.filled hup
      exact ⟨ino, by simpa only [hentry] using htarget, hfilled hcompress ino hfill⟩
    staged := by
      intro _
      simp only [Staged, hover]
      grind
    apart := by simpa only [hentry] using h.apart
    tempFile := by simpa only [hentry] using h.tempFile
    completed := by grind }

omit [DecidableEq ν] in
theorem Tidy.unzipFailed (h : Tidy job s) (hsent : ¬ s.Unzipped)
    (hs : Served s { s with unzip := .answered false }) :
    Tidy job { s with unzip := .answered false } :=
  h.unzips hsent hs rfl (by simp) fun hcompress ino _ => by simp [Filled, hcompress]

omit [DecidableEq ν] in
theorem Tidy.openSource {whole : Bool} {src : Nat} (h : Tidy job s) (hunzip : s.unzip = .sent)
    (hpost : s.post = .ended (.stored whole)) (hread : s.volume.openRead job.temp = .ok src)
    (hs : Served s { s with unzip := .opened src }) : Tidy job { s with unzip := .opened src } := by
  have hsent : ¬ s.Unzipped := by simp [State.Unzipped, hunzip]
  obtain ⟨-, -, -, htemp, -⟩ := h.wired.unzipping hsent
  refine h.unzips hsent hs rfl (by simp) fun hcompress ino hfill => ?_
  have hthere := h.staged hcompress
  simp only [Staged, hpost, hunzip] at hthere
  obtain ⟨n, j, htempEntry, hcontent⟩ := hthere htemp
  simp only [Volume.openRead, htempEntry] at hread
  obtain rfl := Except.ok.inj hread
  simp only [Filled, hcompress, hunzip, if_true] at hfill ⊢
  exact ⟨hfill, n, hcontent⟩

theorem Tidy.openTarget {volume : Volume ν} {src ino : Nat} (h : Tidy job s)
    (hunlink : s.unlinkTarget ≠ .answered) (hunzip : s.unzip = .opened src)
    (hopen : s.volume.openWrite job.target = .ok (volume, ino))
    (hs : Served s { s with
      volume
      unzip := .writing ino 0 (job.gunzip (s.volume.content src)).1
        (job.gunzip (s.volume.content src)).2 }) :
    Tidy job { s with
      volume
      unzip := .writing ino 0 (job.gunzip (s.volume.content src)).1
        (job.gunzip (s.volume.content src)).2 } := by
  have hw := h.wired.served hs
  have hsent : ¬ s.Unzipped := by simp [State.Unzipped, hunzip]
  obtain ⟨hphase, hguard, ⟨reply, hover⟩, htemp, hcompress⟩ := h.wired.unzipping hsent
  obtain ⟨hopened, hsame⟩ := Volume.openWrite_opened hopen
  have htempSame := hopened.others job.temp job.temp_ne
  exact {
    wired := hw
    placing := by grind
    target := by
      cases ht : s.unlinkTarget with
      | answered => exact absurd ht hunlink
      | sent => exact fun _ => .inr (.inl rfl)
      | unsent => grind
    unlinked := fun ht => absurd ht hunlink
    temp := by
      intro hthere
      exact h.temp (htempSame ▸ hthere)
    handler := h.handler
    filled := by
      intro hup
      obtain ⟨i, hentry, hfill⟩ := h.filled hup
      have hino : ino = i := by
        rcases hopened.origin with horigin | ⟨hnone, -⟩
        · grind
        · grind
      subst hino
      refine ⟨ino, hopened.entry, ?_⟩
      simp only [Filled, hcompress, hunzip, if_true] at hfill ⊢
      obtain ⟨hcontent, n, hsrc⟩ := hfill
      refine ⟨trivial, n, [], by rw [← hsrc]; rfl, rfl, ?_⟩
      rw [hsame hentry, hcontent, Files.writeAt_zero]
      rfl
    staged := by
      intro _
      simp only [Staged, hover]
      split <;> trivial
    apart := by
      intro e he
      obtain rfl := Option.some.inj (hopened.entry.symm.trans he)
      refine ⟨rfl, ?_⟩
      rw [htempSame]
      rcases hopened.origin with horigin | ⟨-, rfl⟩
      · exact (h.apart _ horigin).2
      · intro htemp
        exact absurd (s.volume.bounded _ _ htemp) (Nat.lt_irrefl _)
    tempFile := by
      intro e he
      exact h.tempFile e (htempSame ▸ he)
    completed := by grind }

omit [DecidableEq ν] in
theorem Tidy.inflate {i offset : Nat} {chunk : Bytes} {rest : List Bytes} {ok : Bool}
    (h : Tidy job s) (hunzip : s.unzip = .writing i offset (chunk :: rest) ok)
    (hs : Served s { s with
      volume := s.volume.write i offset chunk
      unzip := .writing i (offset + chunk.length) rest ok }) :
    Tidy job { s with
      volume := s.volume.write i offset chunk
      unzip := .writing i (offset + chunk.length) rest ok } := by
  refine h.unzips (by simp [State.Unzipped, hunzip]) hs rfl (by simp)
    fun hcompress ino hfill => ?_
  simp only [Filled, hcompress, hunzip, if_true] at hfill ⊢
  obtain ⟨rfl, n, written, hgunzip, hoffset, hcontent⟩ := hfill
  refine ⟨rfl, n, written ++ [chunk], by simp [hgunzip], by simp [hoffset], ?_⟩
  have hwrites : writeAt (writeAt (utf8 placeholder) 0 written.flatten)
      (0 + written.flatten.length) chunk =
      writeAt (utf8 placeholder) 0 (written.flatten ++ chunk) :=
    Files.writeAt_writeAt (Nat.zero_le _)
  rw [Volume.write_content_self, hcontent, hoffset]
  simpa using hwrites

omit [DecidableEq ν] in
theorem Tidy.inflated {i offset : Nat} {ok : Bool} (h : Tidy job s)
    (hunzip : s.unzip = .writing i offset [] ok)
    (hs : Served s { s with unzip := .answered ok }) :
    Tidy job { s with unzip := .answered ok } := by
  refine h.unzips (by simp [State.Unzipped, hunzip]) hs rfl (by simp)
    fun hcompress ino hfill => ?_
  simp only [Filled, hcompress, hunzip, if_true] at hfill ⊢
  obtain ⟨-, n, written, hgunzip, -, hcontent⟩ := hfill
  rw [List.append_nil] at hgunzip
  cases ok with
  | false => trivial
  | true =>
      -- What was cut off would not have been decoded without an error.
      have hall : job.compressed.length ≤ n := by
        by_contra hlt
        have := job.gunzip_truncated n (by omega)
        simp [hgunzip] at this
      rw [List.take_of_length_le hall] at hgunzip
      show s.volume.content ino = _
      rw [hcontent, ← job.gunzip_compressed.2, hgunzip]

/-! ## `fs.unlink` -/

theorem unlinked_entry {volume : Volume ν} {slot : Slot ν}
    (hfile : ∀ e, volume.entry slot = some e → e.isFile = true) :
    (unlinked volume slot).entry slot = none := by
  unfold unlinked Volume.removeFile
  cases he : volume.entry slot with
  | none => exact he
  | some e =>
      cases e with
      | file ino => exact Function.update_self ..
      | directory ino => exact absurd (hfile _ he) (by simp [Entry.isFile])
      | special ino => exact absurd (hfile _ he) (by simp [Entry.isFile])

theorem unlinked_of_ne (volume : Volume ν) {slot x : Slot ν} (h : x ≠ slot) :
    (unlinked volume slot).entry x = volume.entry x := by
  unfold unlinked Volume.removeFile
  cases he : volume.entry slot with
  | none => rfl
  | some e => cases e <;> first | rfl | exact Function.update_of_ne h ..

theorem unlinked_content (volume : Volume ν) (slot : Slot ν) :
    (unlinked volume slot).content = volume.content := by
  unfold unlinked Volume.removeFile
  cases he : volume.entry slot with
  | none => rfl
  | some e => cases e <;> rfl

omit [DecidableEq ν] in
theorem Tidy.not_created (h : Tidy job s) (hcompress : job.uploadCompress = true)
    (hsent : s.unlinkTemp = .sent) (ino offset : Nat) : s.post ≠ .created ino offset := by
  intro hpost
  have hphase := h.handler hcompress ino offset hpost
  have hwired := h.wired
  simp only [Wired, hphase] at hwired
  grind

omit [DecidableEq ν] in
/-- The `fs.unlink` of the temp file is answered, which is without effect only
where there is none or the upload is about to be completed. -/
theorem Tidy.unlinkedTemp {volume : Volume ν} (h : Tidy job s) (hsent : s.unlinkTemp = .sent)
    (hs : Served s { s with volume, unlinkTemp := .answered })
    (hothers : ∀ x, x ≠ job.temp → volume.entry x = s.volume.entry x)
    (htemp : volume.entry job.temp = none ∨ volume = s.volume ∧
      (s.volume.entry job.temp = none ∨ s.phase = .removing true ∧ s.controller = .running))
    (hcontent : volume.content = s.volume.content) :
    Tidy job { s with volume, unlinkTemp := .answered } := by
  have hw := h.wired.served hs
  have hsame := hothers job.target job.temp_ne.symm
  have hbefore : ¬ s.Before := by grind
  exact {
    wired := hw
    placing := by
      intro compressed hphase
      have hwired := h.wired
      simp only at hphase
      simp only [Wired, hphase] at hwired
      exact absurd hwired.2.1 hbefore
    target := by
      intro hthere
      exact h.target (hsame ▸ hthere)
    unlinked := fun ht => hsame.trans (h.unlinked ht)
    temp := by
      intro hthere
      rcases htemp with hnone | ⟨rfl, hnone | ⟨hphase, hrun⟩⟩
      · exact absurd hnone hthere
      · exact absurd hnone hthere
      · obtain ⟨hcompress, hheld, -⟩ := h.temp hthere
        exact ⟨hcompress, hheld, by simp [Kept, hphase, hrun]⟩
    handler := h.handler
    filled := by
      intro hup
      obtain ⟨ino, hentry, hfill⟩ := h.filled hup
      refine ⟨ino, hsame.trans hentry, ?_⟩
      simp only [Filled, hcontent] at hfill ⊢
      exact hfill
    staged := by
      intro hcompress
      have hcreated := h.not_created hcompress hsent
      simp only [Staged]
      grind
    apart := by
      intro e he
      simp only [hsame] at he
      refine ⟨(h.apart e he).1, ?_⟩
      rcases htemp with hnone | ⟨rfl, -⟩
      · simp [hnone]
      · exact (h.apart e he).2
    tempFile := by
      intro e he
      rcases htemp with hnone | ⟨rfl, -⟩
      · exact absurd (hnone.symm.trans he) (by simp)
      · exact h.tempFile e he
    completed := by
      intro hc
      obtain ⟨htarget, ino, hentry, hino⟩ := h.completed hc
      exact ⟨htarget, ino, hsame.trans hentry, by rw [hcontent, hino]⟩ }

omit [DecidableEq ν] in
theorem Tidy.unlinkedTarget {volume : Volume ν} (h : Tidy job s)
    (hsent : s.unlinkTarget = .sent)
    (hs : Served s { s with volume, unlinkTarget := .answered })
    (hothers : ∀ x, x ≠ job.target → volume.entry x = s.volume.entry x)
    (hnone : volume.entry job.target = none) (hcontent : volume.content = s.volume.content) :
    Tidy job { s with volume, unlinkTarget := .answered } := by
  have hw := h.wired.served hs
  have hsame := hothers job.temp job.temp_ne
  have hguard : s.fileGuard = false := h.wired.guard_down (by simp [hsent])
  exact {
    wired := hw
    placing := by
      intro compressed hphase
      have hwired := h.wired
      simp only at hphase
      simp only [Wired, hphase] at hwired
      grind
    target := fun hthere => absurd hnone hthere
    unlinked := fun _ => hnone
    temp := by
      intro hthere
      exact h.temp (hsame ▸ hthere)
    handler := h.handler
    filled := by grind
    staged := by
      intro hcompress
      have hthere := h.staged hcompress
      simp only [Staged, Holds, hcontent, hsame] at hthere ⊢
      exact hthere
    apart := fun e he => absurd (hnone.symm.trans he) (by simp)
    tempFile := by
      intro e he
      exact h.tempFile e (hsame ▸ he)
    completed := by
      intro hc
      have := (h.completed hc).1
      grind }

omit [DecidableEq ν] in
/-- Without a path nothing is unlinked, and there is nothing to unlink. -/
theorem Tidy.unlinkNull (h : Tidy job s) (hsent : s.unlinkTemp = .sent)
    (hpost : ∀ whole, s.post ≠ .ended (.stored whole))
    (hs : Served s { s with unlinkTemp := .answered }) :
    Tidy job { s with unlinkTemp := .answered } := by
  refine h.unlinkedTemp hsent hs (fun _ _ => rfl) (.inr ⟨rfl, .inl ?_⟩) rfl
  by_contra hthere
  obtain ⟨hcompress, hheld, -⟩ := h.temp hthere
  cases hp : s.post with
  | created ino offset => exact h.not_created hcompress hsent ino offset hp
  | unsent | sent => simp [hp, Post.Held] at hheld
  | ended reply =>
      cases reply with
      | stored whole => exact hpost whole hp
      | misread | failed => simp [hp, Post.Held] at hheld

/-! ## All of them -/

theorem Tidy.serve {op : Op} (h : Tidy job s) (hok : Careful job s (.serve op))
    (hserve : Serves job s op s') : Tidy job s' := by
  have hs := Served.serve hserve
  cases hserve with
  | createPlaceholder hwrite hnew => exact h.createPlaceholder hwrite hnew hs
  | createPlaceholderError hwrite => exact h.notPlaced hwrite hs
  | writePlaceholder hwrite => exact h.writePlaceholder hwrite hs
  | createFile hpost hcreate =>
      cases hcompress : job.uploadCompress with
      | true =>
          simp only [Careful, hcompress, if_true] at hok
          exact h.createTemp hcompress hok hpost hcreate hs
      | false =>
          simp only [Careful, hcompress] at hok
          exact h.createTarget hcompress (by simpa using hok) hpost hcreate hs
  | createFileError hpost hcreate => exact h.turnDown hpost (.inr rfl) hs
  | copy hpost hn => exact h.copy hpost hn hs
  | leave hpost => exact h.leave hpost hs
  | @turnDown misread hpost => exact h.turnDown hpost (by cases misread <;> simp) hs
  | breakOff hpost => exact h.breakOff hok hpost hs
  | openSource hunzip hpost hread => exact h.openSource hunzip hpost hread hs
  | openSourceError hunzip => exact h.unzipFailed (by simp [State.Unzipped, hunzip]) hs
  | openTarget hunzip hopen => exact h.openTarget hok hunzip hopen hs
  | openTargetError hunzip hopen => exact h.unzipFailed (by simp [State.Unzipped, hunzip]) hs
  | inflate hunzip => exact h.inflate hunzip hs
  | inflated hunzip => exact h.inflated hunzip hs
  | unlinkTemp hsent hpost =>
      exact h.unlinkedTemp hsent hs (fun x hx => unlinked_of_ne _ hx)
        (.inl (unlinked_entry h.tempFile)) (unlinked_content ..)
  | unlinkNull hsent hpost => exact h.unlinkNull hsent hpost hs
  | unlinkTarget hsent =>
      exact h.unlinkedTarget hsent hs (fun x hx => unlinked_of_ne _ hx)
        (unlinked_entry fun e he => (h.apart e he).1) (unlinked_content ..)

omit [DecidableEq ν] in
theorem Tidy.refuse {op : Op} (h : Tidy job s) (hok : Careful job s (.refuse op))
    (hrefuse : Refuses s op s') : Tidy job s' := by
  have hs := Served.refuse hrefuse
  cases hrefuse with
  | createPlaceholder hwrite => exact h.notPlaced hwrite hs
  | writePlaceholder => exact absurd hok id
  | unzip hop hunsent hanswered =>
      exact h.unzipFailed (by simp [State.Unzipped, hunsent, hanswered]) hs
  | unlinkTemp hsent => exact h.unlinkedTemp hsent hs (fun _ _ => rfl) (.inr ⟨rfl, hok⟩) rfl
  | unlinkTarget hsent => exact h.unlinkedTarget hsent hs (fun _ _ => rfl) hok rfl

theorem Tidy.step {l : Label} (h : Tidy job s) (hok : Careful job s l)
    (hstep : step job s l = some s') : Tidy job s' := by
  cases l with
  | serve op => exact h.serve hok (serves_of_serve hstep)
  | refuse op => exact h.refuse hok (refuses_of_refuse hstep)
  | cancel | close | compressed | placed | token | load | error | unzipped | removed | discarded
  | released => exact h.browser hok (by simp) (by simp) hstep

omit [DecidableEq ν] in
theorem Tidy.leavesNothing (h : Tidy job s) (hrest : AtRest s) : LeavesNothing job s where
  completed hc := (h.completed hc).2
  otherwise hc := by
    have hwired := h.wired
    simp only [Wired, hrest.settled] at hwired
    have hne : s.controller ≠ .completed := by grind
    refine ⟨?_, ?_⟩
    · by_contra hthere
      rcases h.target hthere with hup | hsent | hdone | ⟨compressed, hphase⟩
      · grind
      · exact hrest.unlinkTarget hsent
      · exact hne hdone
      · exact absurd (hphase.symm.trans hrest.settled) (by simp)
    · by_contra hthere
      have hkept := (h.temp hthere).2.2
      simp only [Kept, hrest.settled] at hkept
      exact hkept.elim hrest.unlinkTemp hne

end

end WebSshTool.Upload.Controller
