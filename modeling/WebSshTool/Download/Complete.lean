import WebSshTool.Download.Producers

/-!
# What the end of a download says

Whoever reads the stream takes an end without an error for the end of the
content. For a single file that is right: the loop leaves at the end of the
file or sends the error on, and a read that fails is the only thing that can
go wrong. For an archive it is right only as long as nothing goes wrong. No
operation on an archive ever sends an error, so a stream that breaks off looks
like one that is complete.

`download_honest_iff` says this of every download whose reader stays to the
end. The archive is left abstract: it is what the writer's operations write
when they do not fail, the central directory last.
-/

namespace WebSshTool.Download

open Files (Bytes)
open Paths (Path)
open Upload (Frame)

/-! ## What a download is to be -/

def payload : ResponseUnit → Bytes
  | .ok (.data bytes) => bytes
  | .ok .trailers | .error _ => []

def Channel.bytes (c : Channel) : Bytes := (c.units.map payload).flatten

/-- The stream ends without an error. -/
def Channel.Clean (c : Channel) : Prop := ∀ u ∈ c.units, u ≠ .error ()

/-- An error is sent, and the relay of the master passes it on. -/
def Channel.Aborted (c : Channel) : Prop :=
  .error () ∈ c.units ∧
    .error () ∈ (forwardBodyToSender c.units (.new none)).units

section

variable {σ : Type*} (z : Zip σ)

/-- What the writer writes of the chunks of an entry. -/
def Zip.chunks : σ → List Bytes → Bytes × σ
  | st, [] => ([], st)
  | st, chunk :: rest =>
      ((z.write st chunk).1.flatten ++ (Zip.chunks (z.write st chunk).2 rest).1,
        (Zip.chunks (z.write st chunk).2 rest).2)

/-- An entry, from its header to what stands behind its data. -/
def Zip.member (st : σ) (name : Path) (chunks : List Bytes) : Bytes × σ :=
  let started := z.entry st name
  let written := z.chunks started.2 chunks
  let flushed := z.flush written.2
  let finished := z.finish flushed.2
  (started.1.flatten ++ written.1 ++ flushed.1.flatten ++ finished.1.flatten, finished.2)

def Zip.members : σ → List (Path × List Bytes) → Bytes × σ
  | st, [] => ([], st)
  | st, (name, chunks) :: rest =>
      ((z.member st name chunks).1 ++ (Zip.members (z.member st name chunks).2 rest).1,
        (Zip.members (z.member st name chunks).2 rest).2)

/-- All entries and the central directory. -/
def Zip.archive (written : List (Path × List Bytes)) : Bytes :=
  (z.members z.new written).1 ++ (z.close (z.members z.new written).2).flatten

/-- A whole archive of files, whatever the chunks in which they are written. -/
def Zip.IsArchive (files : List (Path × Bytes)) (bytes : Bytes) : Prop :=
  ∃ written : List (Path × List Bytes),
    written.map (fun m => (m.1, m.2.flatten)) = files ∧ bytes = z.archive written

/-- The files a download puts into an archive. -/
def archived : List Target → List Member
  | [.directory _ _ walk] => internalZipDir none walk
  | list => list.flatMap Target.members

/-- All the bytes of what was asked for. -/
def Complete : List Target → Bytes → Prop
  | [.file _ file], bytes => bytes = file.source.content
  | list, bytes =>
      z.IsArchive ((archived list).map fun m => (m.name, m.source.content)) bytes

end

/-! ## What can go wrong -/

/-- The chunks in which a file is read to its end, unless a read fails. -/
def Source.chunksFrom (s : Source) (size : Nat) : Nat → Nat → Bytes → Option (List Bytes)
  | 0, _, _ => some []
  | fuel + 1, k, rest =>
      match s.read size k rest with
      | none => none
      | some [] => some []
      | some (b :: bs) =>
          (chunksFrom s size fuel (k + 1) (rest.drop (b :: bs).length)).map ((b :: bs) :: ·)

def Source.chunks (s : Source) (size : Nat) : Option (List Bytes) :=
  s.chunksFrom size (s.content.length + 1) 0 s.content

/-- None of the writes fails. -/
def Member.Written (m : Member) : Nat → List Bytes → Prop
  | _, [] => True
  | k, _ :: rest => m.writeFault k = none ∧ m.Written (k + 1) rest

/-- A file that can be opened and read to its end, and an entry that can be
started, written and closed. -/
def Member.Sound (m : Member) : Prop :=
  m.entryFault = none ∧ m.source.opens = true ∧
    (∃ chunks, m.source.chunks (1024 * 8) = some chunks ∧ m.Written 0 chunks) ∧
    m.flushFault = none ∧ m.finishFault = none

/-- Producing the content goes through. A directory that cannot be listed, a path that
cannot be looked at and a name that is no text are no failures here: what they hide is
not among the members. -/
def Sound (closeFault : Option Nat) : List Target → Prop
  | [.file _ file] => (file.source.chunks (1024 * 4)).isSome = true
  | list => (∀ m ∈ archived list, m.Sound) ∧ closeFault = none

/-- An end without an error is the end of the content, and an error that comes
up on the way is sent. -/
def Honest {σ : Type*} (z : Zip σ) (closeFault : Option Nat) (list : List Target)
    (c : Channel) : Prop :=
  (c.Clean → Complete z list c.bytes) ∧ (¬ Sound closeFault list → c.Aborted)

/-! ## Sending -/

theorem Channel.send_cases (c : Channel) (u : ResponseUnit) :
    c.send u = ({ c with units := c.units ++ [u] }, true) ∨
      c.send u = ({ c with refused := true }, false) := by
  unfold Channel.send
  split
  · exact .inr rfl
  · exact .inl rfl

/-- A receiver that stays takes everything. -/
theorem forwardBodyToSender_stays (fs : List ResponseUnit) (c : Channel)
    (h : c.patience = none) :
    forwardBodyToSender fs c = { c with units := c.units ++ fs } := by
  induction fs generalizing c with
  | nil => simp [forwardBodyToSender]
  | cons f fs ih =>
      have hsend : c.send f = ({ c with units := c.units ++ [f] }, true) := by
        unfold Channel.send
        rw [h, if_neg (by simp)]
      unfold forwardBodyToSender
      rw [hsend]
      simp only []
      rw [ih { c with units := c.units ++ [f] } h]
      simp

theorem Channel.aborted_iff (c : Channel) : c.Aborted ↔ .error () ∈ c.units := by
  unfold Channel.Aborted
  rw [forwardBodyToSender_stays _ _ rfl]
  simp [Channel.new]

/-- What has been added to a channel: data, and nothing else. -/
def Channel.Extends (c c' : Channel) (bytes : Bytes) : Prop :=
  ∃ data : List Bytes, c'.units = c.units ++ data.map (fun b => .ok (.data b)) ∧
    data.flatten = bytes

theorem Channel.Extends.refl (c : Channel) : c.Extends c [] := ⟨[], by simp⟩

theorem Channel.Extends.trans {c₁ c₂ c₃ : Channel} {a b : Bytes} (h : c₁.Extends c₂ a)
    (h' : c₂.Extends c₃ b) : c₁.Extends c₃ (a ++ b) := by
  obtain ⟨xs, hx, rfl⟩ := h
  obtain ⟨ys, hy, rfl⟩ := h'
  exact ⟨xs ++ ys, by rw [hy, hx]; simp, by simp⟩

theorem Channel.Extends.bytes {c c' : Channel} {bytes : Bytes} (h : c.Extends c' bytes) :
    c'.bytes = c.bytes ++ bytes := by
  obtain ⟨data, hunits, rfl⟩ := h
  have hpayload : (data.map fun b => (.ok (.data b) : ResponseUnit)).map payload = data := by
    rw [List.map_map]
    exact List.map_id _
  unfold Channel.bytes
  rw [hunits, List.map_append, List.flatten_append, hpayload]

theorem Channel.Extends.error_mem {c c' : Channel} {bytes : Bytes} (h : c.Extends c' bytes)
    (he : .error () ∈ c'.units) : .error () ∈ c.units := by
  obtain ⟨data, hunits, -⟩ := h
  rw [hunits] at he
  rcases List.mem_append.mp he with he | he
  · exact he
  · exact absurd he (by simp)

theorem Channel.extends_data (c : Channel) (b : Bytes) :
    c.Extends { c with units := c.units ++ [.ok (.data b)] } b :=
  ⟨[b], rfl, by simp⟩

/-! ## Reading -/

/-- What is read is what is left out of the rest. -/
theorem Source.read_eq {s : Source} {size k : Nat} {rest chunk : Bytes}
    (h : s.read size k rest = some chunk) : chunk ++ rest.drop chunk.length = rest := by
  obtain ⟨n, -, rfl⟩ := Option.map_eq_some_iff.mp h
  have hdrop : rest.drop (rest.take (min size (n + 1))).length =
      rest.drop (min size (n + 1)) := by
    rw [List.length_take]
    rcases Nat.le_total (min size (n + 1)) rest.length with hle | hle
    · rw [Nat.min_eq_left hle]
    · rw [Nat.min_eq_right hle, List.drop_length, List.drop_eq_nil_of_le hle]
  rw [hdrop, List.take_append_drop]

/-- Nothing is read only at the end. -/
theorem Source.read_nil {s : Source} {size k : Nat} {rest : Bytes} (hsize : 0 < size)
    (h : s.read size k rest = some []) : rest = [] := by
  obtain ⟨n, -, htake⟩ := Option.map_eq_some_iff.mp h
  rcases List.take_eq_nil_iff.mp htake with hzero | hrest
  · omega
  · exact hrest

theorem length_drop_lt {b : UInt8} {bs rest : Bytes} {fuel : Nat}
    (h : (b :: bs) ++ rest.drop (b :: bs).length = rest) (hfuel : rest.length < fuel + 1) :
    (rest.drop (b :: bs).length).length < fuel := by
  have hlen := congrArg List.length h
  simp only [List.length_append, List.length_cons] at hlen ⊢
  omega

/-- The chunks in which a file is read are its content. -/
theorem Source.flatten_chunksFrom {s : Source} {size : Nat} (hsize : 0 < size) {fuel : Nat} :
    ∀ {k : Nat} {rest : Bytes} {chunks : List Bytes}, rest.length < fuel →
      s.chunksFrom size fuel k rest = some chunks → chunks.flatten = rest := by
  induction fuel with
  | zero =>
      intro k rest chunks hfuel
      omega
  | succ fuel ih =>
      intro k rest chunks hfuel h
      unfold Source.chunksFrom at h
      split at h
      · exact absurd h (by simp)
      · next hread =>
          obtain rfl := Option.some.inj h
          rw [Source.read_nil hsize hread]
          rfl
      · next b bs hread =>
          have heq := Source.read_eq hread
          obtain ⟨later, hlater, rfl⟩ := Option.map_eq_some_iff.mp h
          rw [List.flatten_cons, ih (length_drop_lt heq hfuel) hlater]
          exact heq

/-- A file is sent to its end, or the error is. -/
theorem forwardFrom_spec {s : Source} {fuel : Nat} :
    ∀ {k : Nat} {rest : Bytes} {c : Channel}, rest.length < fuel →
      (forwardFrom s fuel k rest c).refused = false →
      ((s.chunksFrom (1024 * 4) fuel k rest).isSome = true →
        c.Extends (forwardFrom s fuel k rest c) rest) ∧
      (s.chunksFrom (1024 * 4) fuel k rest = none →
        .error () ∈ (forwardFrom s fuel k rest c).units) := by
  induction fuel with
  | zero =>
      intro k rest c hfuel
      omega
  | succ fuel ih =>
      intro k rest c hfuel hend
      unfold forwardFrom at hend ⊢
      unfold Source.chunksFrom
      cases hread : s.read (1024 * 4) k rest with
      | none =>
          simp only [hread] at hend ⊢
          refine ⟨fun h => absurd h (by simp), fun _ => ?_⟩
          rcases c.send_cases (.error ()) with hsend | hsend
          · rw [hsend]
            simp
          · rw [hsend] at hend
            exact absurd hend (by simp)
      | some chunk =>
          cases chunk with
          | nil =>
              simp only [hread] at hend ⊢
              refine ⟨fun _ => ?_, fun h => absurd h (by simp)⟩
              rw [Source.read_nil (by omega) hread]
              exact .refl c
          | cons b bs =>
              have heq := Source.read_eq hread
              simp only [hread] at hend ⊢
              rcases c.send_cases (.ok (.data (b :: bs))) with hsend | hsend
              · simp only [hsend] at hend ⊢
                obtain ⟨hsome, hnone⟩ := ih (length_drop_lt heq hfuel) hend
                constructor
                · intro h
                  rw [Option.isSome_map] at h
                  have hall := (c.extends_data (b :: bs)).trans (hsome h)
                  rwa [heq] at hall
                · intro h
                  exact hnone (Option.map_eq_none_iff.mp h)
              · simp only [hsend] at hend
                exact absurd hend (by simp)

/-! ## Writing an archive -/

section

variable {σ : Type*} {z : Zip σ}

/-- What an operation of the writer does whether it fails or not: it sends data
only, and a unit that was refused stays so. -/
def Writer.Quiet (w w' : Writer σ) : Prop :=
  (w.channel.refused = true → w'.channel.refused = true) ∧
    ∃ bytes, w.channel.Extends w'.channel bytes

theorem Writer.Quiet.refl (w : Writer σ) : w.Quiet w := ⟨fun h => h, [], .refl _⟩

theorem Writer.Quiet.trans {w₁ w₂ w₃ : Writer σ} (h : w₁.Quiet w₂) (h' : w₂.Quiet w₃) :
    w₁.Quiet w₃ := by
  obtain ⟨hrefused, a, ha⟩ := h
  obtain ⟨hrefused', b, hb⟩ := h'
  exact ⟨fun hr => hrefused' (hrefused hr), a ++ b, ha.trans hb⟩

theorem Writer.Quiet.open {w w' : Writer σ} (h : w.Quiet w')
    (hend : w'.channel.refused = false) : w.channel.refused = false := by
  by_contra hr
  rw [h.1 (by simpa using hr)] at hend
  exact absurd hend (by simp)

/-- An operation that has gone through: it has written `out`. -/
def Writer.Done (w : Writer σ) (r : Writer σ × Bool) (out : Bytes × σ) : Prop :=
  r.2 = true ∧ w.channel.Extends r.1.channel out.1 ∧ r.1.state = out.2

theorem Writer.emit_spec (w : Writer σ) (bufs : List Bytes) :
    w.Quiet (w.emit bufs).1 ∧
      ((w.emit bufs).1.channel.refused = false → w.Done (w.emit bufs) (bufs.flatten, w.state)) := by
  induction bufs generalizing w with
  | nil => exact ⟨.refl w, fun _ => ⟨rfl, .refl _, rfl⟩⟩
  | cons b bs ih =>
      unfold Writer.emit
      rcases w.channel.send_cases (.ok (.data b)) with hsend | hsend
      · simp only [hsend]
        have hstep := w.channel.extends_data b
        have hfirst : w.Quiet
            { w with channel := { w.channel with units := w.channel.units ++ [.ok (.data b)] } } :=
          ⟨fun h => h, b, hstep⟩
        obtain ⟨hquiet, hdone⟩ := ih
          { w with channel := { w.channel with units := w.channel.units ++ [.ok (.data b)] } }
        refine ⟨hfirst.trans hquiet, fun hend => ?_⟩
        obtain ⟨hok, hext, hstate⟩ := hdone hend
        exact ⟨hok, hstep.trans hext, hstate⟩
      · simp only [hsend]
        refine ⟨⟨fun _ => rfl, [], ⟨[], by simp⟩⟩, fun hend => ?_⟩
        exact absurd hend (by simp)

theorem Writer.perform_spec (w : Writer σ) (fault : Option Nat) (out : List Bytes × σ) :
    w.Quiet (w.perform fault out).1 ∧
      (fault = none → (w.perform fault out).1.channel.refused = false →
        w.Done (w.perform fault out) (out.1.flatten, out.2)) := by
  cases fault with
  | some written => exact ⟨(w.emit_spec _).1, fun h => absurd h (by simp)⟩
  | none =>
      obtain ⟨hquiet, hdone⟩ := w.emit_spec out.1
      unfold Writer.perform
      cases hemit : w.emit out.1 with
      | mk w' ok =>
          rw [hemit] at hquiet hdone
          cases ok with
          | true =>
              refine ⟨hquiet, fun _ hend => ?_⟩
              exact ⟨rfl, (hdone hend).2.1, rfl⟩
          | false =>
              refine ⟨hquiet, fun _ hend => ?_⟩
              exact absurd (hdone hend).1 (by simp)

theorem copyFrom_quiet (m : Member) (fuel : Nat) :
    ∀ (k : Nat) (rest : Bytes) (w : Writer σ), w.Quiet (copyFrom z m fuel k rest w).1 := by
  induction fuel with
  | zero =>
      intro k rest w
      exact .refl w
  | succ fuel ih =>
      intro k rest w
      unfold copyFrom
      split
      · exact .refl w
      · exact (w.perform_spec _ _).1
      · next b bs _ =>
          have hquiet := (w.perform_spec (m.writeFault k) (z.write w.state (b :: bs))).1
          split
          · next w' hperform =>
              rw [hperform] at hquiet
              exact hquiet.trans (ih _ _ _)
          · next w' hperform =>
              rw [hperform] at hquiet
              exact hquiet

/-- A copy in which no read and no write fails writes all the chunks. -/
theorem copyFrom_done {m : Member} (hflush : m.flushFault = none) {fuel : Nat} :
    ∀ {k : Nat} {rest : Bytes} {w : Writer σ} {chunks : List Bytes}, rest.length < fuel →
      m.source.chunksFrom (1024 * 8) fuel k rest = some chunks → m.Written k chunks →
      (copyFrom z m fuel k rest w).1.channel.refused = false →
      w.Done (copyFrom z m fuel k rest w)
        ((z.chunks w.state chunks).1 ++ (z.flush (z.chunks w.state chunks).2).1.flatten,
          (z.flush (z.chunks w.state chunks).2).2) := by
  induction fuel with
  | zero =>
      intro k rest w chunks hfuel
      omega
  | succ fuel ih =>
      intro k rest w chunks hfuel hchunks hwritten hend
      unfold Source.chunksFrom at hchunks
      unfold copyFrom at hend ⊢
      cases hread : m.source.read (1024 * 8) k rest with
      | none =>
          rw [hread] at hchunks
          exact absurd hchunks (by simp)
      | some chunk =>
          cases chunk with
          | nil =>
              simp only [hread] at hchunks hend ⊢
              obtain rfl := Option.some.inj hchunks
              exact (w.perform_spec _ _).2 hflush hend
          | cons b bs =>
              have heq := Source.read_eq hread
              simp only [hread] at hchunks hend ⊢
              obtain ⟨later, hlater, rfl⟩ := Option.map_eq_some_iff.mp hchunks
              obtain ⟨hfault, hwritten⟩ := hwritten
              obtain ⟨-, hdone⟩ := w.perform_spec (m.writeFault k) (z.write w.state (b :: bs))
              cases hperform : w.perform (m.writeFault k) (z.write w.state (b :: bs)) with
              | mk w' ok =>
                  rw [hperform] at hdone
                  cases ok with
                  | false =>
                      simp only [hperform] at hend
                      exact absurd (hdone hfault hend).1 (by simp)
                  | true =>
                      simp only [hperform] at hend ⊢
                      have hopen := (copyFrom_quiet (z := z) m _ _ _ w').open hend
                      obtain ⟨-, hext, hstate⟩ := hdone hfault hopen
                      simp only [] at hstate hext
                      obtain ⟨hok, hrest, hlast⟩ :=
                        ih (length_drop_lt heq hfuel) hlater hwritten hend
                      rw [hstate] at hrest hlast
                      refine ⟨hok, ?_, hlast⟩
                      have hall := hext.trans hrest
                      rwa [← List.append_assoc] at hall

theorem internalZipSingle_quiet (m : Member) (w : Writer σ) :
    w.Quiet (internalZipSingle z m w).1 := by
  have hentry := (w.perform_spec m.entryFault (z.entry w.state m.name)).1
  unfold internalZipSingle
  cases hperform : w.perform m.entryFault (z.entry w.state m.name) with
  | mk w₁ ok =>
      rw [hperform] at hentry
      cases ok with
      | false => exact hentry
      | true =>
          cases m.source.opens with
          | false => exact hentry
          | true =>
              have hcopy := copyFrom_quiet (z := z) m (m.source.content.length + 1) 0
                m.source.content w₁
              simp only []
              split
              · next w₂ hcopied =>
                  rw [hcopied] at hcopy
                  exact hentry.trans (hcopy.trans (w₂.perform_spec _ _).1)
              · next w₂ hcopied =>
                  rw [hcopied] at hcopy
                  exact hentry.trans hcopy

theorem internalZipSingle_done {m : Member} (hm : m.Sound) {w : Writer σ}
    (hend : (internalZipSingle z m w).1.channel.refused = false) :
    ∃ chunks, chunks.flatten = m.source.content ∧
      w.Done (internalZipSingle z m w) (z.member w.state m.name chunks) := by
  obtain ⟨hentry, hopens, ⟨chunks, hchunks, hwritten⟩, hflush, hfinish⟩ := hm
  refine ⟨chunks, Source.flatten_chunksFrom (by omega) (Nat.lt_succ_self _) hchunks, ?_⟩
  obtain ⟨-, hstarted⟩ := w.perform_spec m.entryFault (z.entry w.state m.name)
  unfold internalZipSingle at hend ⊢
  simp only [hopens] at hend ⊢
  cases hperform : w.perform m.entryFault (z.entry w.state m.name) with
  | mk w₁ ok =>
      rw [hperform] at hstarted
      simp only [hperform] at hend ⊢
      cases ok with
      | false => exact absurd (hstarted hentry hend).1 (by simp)
      | true =>
          simp only [] at hend ⊢
          have hcopy := copyFrom_quiet (z := z) m (m.source.content.length + 1) 0
            m.source.content w₁
          have hcopied := copyFrom_done (z := z) (w := w₁) hflush (Nat.lt_succ_self _)
            hchunks hwritten
          cases hrun : copyFrom z m (m.source.content.length + 1) 0 m.source.content w₁ with
          | mk w₂ ok =>
              rw [hrun] at hcopy hcopied
              simp only [hrun] at hend ⊢
              cases ok with
              | false =>
                  exact absurd (hcopied hend).1 (by simp)
              | true =>
                  simp only [] at hend ⊢
                  obtain ⟨hquiet, hfinished⟩ :=
                    w₂.perform_spec m.finishFault (z.finish w₂.state)
                  have hopen₂ := hquiet.open hend
                  obtain ⟨-, hext₁, hstate₁⟩ := hstarted hentry (hcopy.open hopen₂)
                  obtain ⟨-, hext₂, hstate₂⟩ := hcopied hopen₂
                  obtain ⟨hok, hext₃, hstate₃⟩ := hfinished hfinish hend
                  simp only [] at hstate₁ hstate₂ hext₁ hext₂
                  rw [hstate₁] at hext₂ hstate₂
                  rw [hstate₂] at hok hext₃ hstate₃ ⊢
                  refine ⟨hok, ?_, hstate₃⟩
                  have hall := hext₁.trans (hext₂.trans hext₃)
                  simp only [Zip.member, List.append_assoc] at hall ⊢
                  exact hall

theorem zipMembers_quiet (ms : List Member) (w : Writer σ) :
    w.Quiet (zipMembers z ms w).1 := by
  induction ms generalizing w with
  | nil => exact .refl w
  | cons m ms ih =>
      have hsingle := internalZipSingle_quiet (z := z) m w
      unfold zipMembers
      split
      · next w' hrun =>
          rw [hrun] at hsingle
          exact hsingle.trans (ih w')
      · next w' hrun =>
          rw [hrun] at hsingle
          exact hsingle

theorem zipMembers_done {ms : List Member} (hms : ∀ m ∈ ms, m.Sound) {w : Writer σ}
    (hend : (zipMembers z ms w).1.channel.refused = false) :
    ∃ written : List (Path × List Bytes),
      written.map (fun m => (m.1, m.2.flatten)) = ms.map (fun m => (m.name, m.source.content)) ∧
        w.Done (zipMembers z ms w) (z.members w.state written) := by
  induction ms generalizing w with
  | nil => exact ⟨[], rfl, rfl, .refl _, rfl⟩
  | cons m ms ih =>
      unfold zipMembers at hend ⊢
      have hsingle := internalZipSingle_done (z := z) (w := w) (hms m (.head _))
      cases hrun : internalZipSingle z m w with
      | mk w' ok =>
          rw [hrun] at hsingle
          simp only [hrun] at hend ⊢
          cases ok with
          | false =>
              obtain ⟨_, _, hdone⟩ := hsingle hend
              exact absurd hdone.1 (by simp)
          | true =>
              simp only [] at hend ⊢
              have hopen := (zipMembers_quiet (z := z) ms w').open hend
              obtain ⟨chunks, hchunks, -, hext, hstate⟩ := hsingle hopen
              obtain ⟨written, hwritten, hok, hrest, hlast⟩ :=
                ih (fun m' hm' => hms m' (.tail _ hm')) hend
              simp only [] at hstate hext
              rw [hstate] at hrest hlast
              refine ⟨(m.name, chunks) :: written, ?_, hok, hext.trans hrest, hlast⟩
              simp only [List.map_cons, hwritten, hchunks]

/-- No error is ever sent on the way of an archive. -/
theorem zipAll_clean (closeFault : Option Nat) (ms : List Member) (patience : Option Nat) :
    ∃ bytes, (Channel.new patience).Extends
      (zipAll z closeFault ms (.new patience)) bytes := by
  have hmembers := zipMembers_quiet (z := z) ms ⟨z.new, .new patience⟩
  unfold zipAll
  split
  · next w hrun =>
      rw [hrun] at hmembers
      exact (hmembers.trans (w.perform_spec closeFault (z.close w.state, w.state)).1).2
  · next w hrun =>
      rw [hrun] at hmembers
      exact hmembers.2

/-- An archive of sound files is written to its end. -/
theorem zipAll_done {ms : List Member} (hms : ∀ m ∈ ms, m.Sound) {patience : Option Nat}
    (hend : (zipAll z none ms (.new patience)).refused = false) :
    z.IsArchive (ms.map fun m => (m.name, m.source.content))
      (zipAll z none ms (.new patience)).bytes := by
  have hmembers := zipMembers_done (z := z) (w := ⟨z.new, .new patience⟩) hms
  unfold zipAll at hend ⊢
  cases hrun : zipMembers z ms ⟨z.new, .new patience⟩ with
  | mk w ok =>
      rw [hrun] at hmembers
      simp only [hrun] at hend ⊢
      cases ok with
      | false =>
          obtain ⟨_, _, hdone⟩ := hmembers hend
          exact absurd hdone.1 (by simp)
      | true =>
          simp only [] at hend ⊢
          obtain ⟨hquiet, hclosed⟩ := w.perform_spec none (z.close w.state, w.state)
          obtain ⟨written, hwritten, -, hext, hstate⟩ := hmembers (hquiet.open hend)
          obtain ⟨-, hlast, -⟩ := hclosed rfl hend
          simp only [] at hstate hext
          rw [hstate] at hlast ⊢
          exact ⟨written, hwritten, (hext.trans hlast).bytes⟩

/-- For an archive, to be honest is to have nothing to hide. -/
theorem zipAll_honest_iff {closeFault patience : Option Nat} {ms : List Member}
    (hend : (zipAll z closeFault ms (.new patience)).refused = false) :
    (((zipAll z closeFault ms (.new patience)).Clean →
        z.IsArchive (ms.map fun m => (m.name, m.source.content))
          (zipAll z closeFault ms (.new patience)).bytes) ∧
      (¬ ((∀ m ∈ ms, m.Sound) ∧ closeFault = none) →
        (zipAll z closeFault ms (.new patience)).Aborted)) ↔
    (∀ m ∈ ms, m.Sound) ∧ closeFault = none := by
  obtain ⟨bytes, hclean⟩ := zipAll_clean (z := z) closeFault ms patience
  constructor
  · intro h
    by_contra hno
    have herror := (Channel.aborted_iff _).mp (h.2 hno)
    exact absurd (hclean.error_mem herror) (by simp [Channel.new])
  · intro h
    obtain ⟨hms, rfl⟩ := h
    exact ⟨fun _ => zipAll_done hms hend, fun hno => absurd ⟨hms, rfl⟩ hno⟩

end

/-- A single file is always honest. -/
theorem forward_honest {s : Source} {patience : Option Nat}
    (hend : (forwardAsyncReadToSender s (.new patience)).refused = false) :
    ((forwardAsyncReadToSender s (.new patience)).Clean →
      (forwardAsyncReadToSender s (.new patience)).bytes = s.content) ∧
    (¬ (s.chunks (1024 * 4)).isSome = true →
      (forwardAsyncReadToSender s (.new patience)).Aborted) := by
  obtain ⟨hsome, hnone⟩ := forwardFrom_spec (Nat.lt_succ_self _) hend
  constructor
  · intro hclean
    cases hchunks : s.chunks (1024 * 4) with
    | none => exact absurd rfl (hclean _ (hnone hchunks))
    | some chunks =>
        have hext := hsome (by
          show (s.chunks (1024 * 4)).isSome = true
          rw [hchunks]
          rfl)
        exact hext.bytes
  · intro hfail
    refine (Channel.aborted_iff _).mpr (hnone ?_)
    exact Option.not_isSome_iff_eq_none.mp hfail

/-- Several paths are archived, whatever they lead to. -/
theorem several {σ : Type*} {z : Zip σ} (closeFault : Option Nat) (a b : Target)
    (rest : List Target) :
    archived (a :: b :: rest) = (a :: b :: rest).flatMap Target.members ∧
      Sound closeFault (a :: b :: rest) =
        ((∀ m ∈ archived (a :: b :: rest), m.Sound) ∧ closeFault = none) ∧
      Complete z (a :: b :: rest) = fun bytes => z.IsArchive
        ((archived (a :: b :: rest)).map fun m => (m.name, m.source.content)) bytes := by
  cases a <;> exact ⟨rfl, rfl, rfl⟩

/-- A download whose reader stays is honest if and only if it is one of a single
file or nothing goes wrong with it. -/
theorem download_honest_iff {σ : Type*} (z : Zip σ) (closeFault patience : Option Nat)
    {list : List Target} {c : Channel} (h : handleRequest z closeFault patience list = some c)
    (hend : c.refused = false) :
    Honest z closeFault list c ↔
      (∃ name m, list = [.file name m]) ∨ Sound closeFault list := by
  match list with
  | [] => exact absurd h (by simp [handleRequest])
  | [.file name m] =>
      have hc : forwardAsyncReadToSender m.source (.new patience) = c := by
        unfold handleRequest downloadSingle at h
        cases name with
        | none => exact absurd h (by simp)
        | some name =>
            simp only [] at h
            split at h
            · exact Option.some.inj h
            · exact absurd h (by simp)
      subst hc
      exact iff_of_true (forward_honest hend) (.inl ⟨name, m, rfl⟩)
  | [.directory path name walk] =>
      have hc : zipAll z closeFault (internalZipDir none walk) (.new patience) = c := by
        unfold handleRequest downloadSingle at h
        cases name with
        | none => exact absurd h (by simp)
        | some name => exact Option.some.inj h
      subst hc
      refine (zipAll_honest_iff hend).trans ⟨.inr, ?_⟩
      intro hsound
      rcases hsound with ⟨_, _, heq⟩ | hsound
      · exact absurd heq (by simp)
      · exact hsound
  | [.other] => exact absurd h (by simp [handleRequest, downloadSingle])
  | a :: b :: rest =>
      have hc : zipAll z closeFault ((a :: b :: rest).flatMap Target.members)
          (.new patience) = c := by
        unfold handleRequest at h
        exact Option.some.inj h
      subst hc
      have hiff := zipAll_honest_iff (z := z) hend
      obtain ⟨harchived, hsound, hcomplete⟩ := several (z := z) closeFault a b rest
      unfold Honest
      rw [hsound, hcomplete, harchived]
      refine hiff.trans ⟨fun h => .inr h, ?_⟩
      intro h
      rcases h with ⟨_, _, heq⟩ | h
      · exact absurd heq (by simp)
      · exact h

/-! ## A file that cannot be read -/

/-- A file of two bytes that can be read up to byte `n`. -/
def damaged (n : Nat) : Member where
  name := ['a']
  source := ⟨[0x61, 0x62], true, fun k => if k < n then some 0 else none⟩
  entryFault := none
  writeFault _ := none
  flushFault := none
  finishFault := none

/-- The header of a deflated entry, with its sizes left to the data descriptor.
No more of the writer is reached here. -/
def headers : Zip Unit where
  new := ()
  entry _ name :=
    ([[0x50, 0x4b, 0x03, 0x04],
      [0x14, 0, 0x08, 0, 0x08, 0, 0, 0, 0, 0, 0, 0, 0, 0, 0, 0, 0, 0, 0, 0, 0, 0,
        .ofNat name.length, 0, 0, 0],
      name.map fun c => .ofNat c.toNat], ())
  write _ _ := ([], ())
  flush _ := ([], ())
  finish _ := ([], ())
  close _ := []

theorem download_honest_iff_damaged :
    Honest headers none [.file (some ['a']) (damaged 1)]
      ⟨none, [.ok (.data [0x61]), .error ()], false⟩ :=
  (download_honest_iff headers none none rfl rfl).mpr (.inl ⟨_, _, rfl⟩)

/-- The directory with this file: its archive breaks off, and ends. -/
def damagedFolder : Target :=
  .directory ['d'] (some ['d']) [.entry (some ['a']) true (damaged 0)]

theorem download_truncated :
    ¬ ∀ (list : List Target) (c : Channel), handleRequest headers none none list = some c →
      c.refused = false → Honest headers none list c := by
  intro h
  obtain ⟨-, haborted⟩ := h [damagedFolder] _ rfl rfl
  have hno : ¬ Sound none [damagedFolder] := by
    intro hsound
    have hmember : { damaged 0 with name := ['a'] } ∈ archived [damagedFolder] := .head _
    obtain ⟨-, -, ⟨chunks, hchunks, -⟩, -, -⟩ := hsound.1 _ hmember
    have hnone : (damaged 0).source.chunks (1024 * 8) = none := by decide
    exact absurd (hnone.symm.trans hchunks) (by simp)
  have herror := (haborted hno).1
  exact absurd herror (by
    simp [zipDir, zipAll, zipMembers, internalZipSingle, internalZipDir, damaged, headers,
      copyFrom, Source.read, Writer.perform, Writer.emit, Channel.send, Channel.new])

end WebSshTool.Download
