import WebSshTool.Download.Complete

/-!
# Files that cannot be opened

An archive is to be as if the files that cannot be opened had not been listed.
But `internal_zip_single` starts the entry of a file while it opens it, and the
header of the entry is in the stream whether or not the file can be opened.
Nobody finishes such an entry, so that the writer never lists it.

What the writer does then is up to the library. All that is needed of it is
that what has been written before moves things on and changes nothing else:
two writers that have finished the same entries, the second of them further on
in its stream, write the same for the next entry, and the second one has no
shorter central directory. The runs with and without the file then go on in
step, and the one with it stays behind by the header it has written too much.
-/

namespace WebSshTool.Download

open Files (Bytes)
open Paths (Path)

/-- The files that can be opened. -/
def opened (ms : List Member) : List Member := ms.filter fun m => m.source.opens

/-- The archive goes on behind this file. -/
def Member.Passes (m : Member) : Prop :=
  m.source.opens = false ∨ m.entryFault ≠ Option.none ∨ m.Sound

/-- Of a file that is come to and cannot be opened not even the header is
begun. -/
def Unspoilt (ms : List Member) : Prop :=
  ∀ before m after, ms = before ++ m :: after → (∀ m' ∈ before, m'.Passes) →
    m.source.opens = false → m.entryFault = some 0

/-- What `idle` and `busy` relate has finished the same entries, and what comes
second is further on in the stream; `idle` between entries, `busy` in one. -/
structure Zip.Streams {σ : Type*} (z : Zip σ) (idle busy : σ → σ → Prop) : Prop where
  new : idle z.new z.new
  /-- A header is written at once, its signature first. -/
  signature : ∀ st name, ∃ b bs rest, (z.entry st name).1 = (b :: bs) :: rest
  entry : ∀ st st' name, idle st st' → (z.entry st' name).1 = (z.entry st name).1 ∧
    busy (z.entry st name).2 (z.entry st' name).2
  /-- An entry is recorded when it is finished, and not before. -/
  abandon : ∀ st st' name, idle st st' → idle st (z.entry st' name).2
  write : ∀ st st' bytes, busy st st' → (z.write st' bytes).1 = (z.write st bytes).1 ∧
    busy (z.write st bytes).2 (z.write st' bytes).2
  flush : ∀ st st', busy st st' → (z.flush st').1 = (z.flush st).1 ∧
    busy (z.flush st).2 (z.flush st').2
  finish : ∀ st st', busy st st' → (z.finish st').1 = (z.finish st).1 ∧
    idle (z.finish st).2 (z.finish st').2
  /-- What is further on has no shorter a central directory, wherever it breaks off. -/
  close : ∀ st st' n, idle st st' →
    ((z.close st).take n).flatten.length ≤ ((z.close st').take n).flatten.length

/-- The archive is as if only the files that can be opened had been listed,
whoever takes it. So it consists of them, if they can be read. -/
structure Undamaged {σ : Type*} (z : Zip σ) (closeFault : Option Nat)
    (ms : List Member) : Prop where
  same : ∀ patience, (zipAll z closeFault ms (.new patience)).bytes =
    (zipAll z closeFault (opened ms) (.new patience)).bytes
  complete : closeFault = none → (∀ m ∈ opened ms, m.Sound) →
    z.IsArchive ((opened ms).map fun m => (m.name, m.source.content))
      (zipAll z closeFault ms (.new none)).bytes

theorem unspoilt_cons {m : Member} {ms : List Member} :
    Unspoilt (m :: ms) ↔
      (m.source.opens = false → m.entryFault = some 0) ∧ (m.Passes → Unspoilt ms) := by
  constructor
  · intro h
    refine ⟨h [] m ms rfl (by simp), fun hm before m' after heq hbefore => ?_⟩
    refine h (m :: before) m' after (by rw [heq]; rfl) fun m'' hm'' => ?_
    rcases List.mem_cons.mp hm'' with rfl | hm''
    · exact hm
    · exact hbefore m'' hm''
  · rintro ⟨hm, hms⟩ before m' after heq hbefore
    cases before with
    | nil =>
        obtain ⟨rfl, -⟩ := List.cons.inj heq
        exact hm
    | cons m'' before =>
        obtain ⟨rfl, hrest⟩ := List.cons.inj heq
        exact hms (hbefore m (.head _)) before m' after hrest
          fun m₁ h₁ => hbefore m₁ (.tail _ h₁)

/-! ## What holds of a channel stays so -/

section

variable {σ : Type*} {z : Zip σ} {Q : Channel → Prop}

theorem Writer.emit_keeps (hQ : ∀ c b, Q c → Q (c.send (.ok (.data b))).1) {w : Writer σ}
    (h : Q w.channel) (bufs : List Bytes) : Q (w.emit bufs).1.channel := by
  induction bufs generalizing w with
  | nil => exact h
  | cons b bs ih =>
      unfold Writer.emit
      have hsend := hQ w.channel b h
      split
      · next channel heq =>
          rw [heq] at hsend
          exact ih (w := { w with channel }) hsend
      · next channel heq =>
          rw [heq] at hsend
          exact hsend

theorem Writer.perform_keeps (hQ : ∀ c b, Q c → Q (c.send (.ok (.data b))).1) {w : Writer σ}
    (h : Q w.channel) (fault : Option Nat) (out : List Bytes × σ) :
    Q (w.perform fault out).1.channel := by
  cases fault with
  | some written => exact w.emit_keeps hQ h _
  | none =>
      have hemit := w.emit_keeps hQ h out.1
      unfold Writer.perform
      cases heq : w.emit out.1 with
      | mk w' ok =>
          rw [heq] at hemit
          cases ok <;> exact hemit

theorem copyFrom_keeps (hQ : ∀ c b, Q c → Q (c.send (.ok (.data b))).1) (m : Member)
    (fuel : Nat) :
    ∀ (k : Nat) (rest : Bytes) (w : Writer σ), Q w.channel →
      Q (copyFrom z m fuel k rest w).1.channel := by
  induction fuel with
  | zero => exact fun _ _ _ h => h
  | succ fuel ih =>
      intro k rest w h
      unfold copyFrom
      split
      · exact h
      · exact w.perform_keeps hQ h _ _
      · next b bs _ =>
          have hwrite := w.perform_keeps hQ h (m.writeFault k) (z.write w.state (b :: bs))
          split
          · next w' heq =>
              rw [heq] at hwrite
              exact ih _ _ w' hwrite
          · next w' heq =>
              rw [heq] at hwrite
              exact hwrite

theorem internalZipSingle_keeps (hQ : ∀ c b, Q c → Q (c.send (.ok (.data b))).1)
    (m : Member) {w : Writer σ} (h : Q w.channel) :
    Q (internalZipSingle z m w).1.channel := by
  have hentry := w.perform_keeps hQ h m.entryFault (z.entry w.state m.name)
  unfold internalZipSingle
  cases hperform : w.perform m.entryFault (z.entry w.state m.name) with
  | mk w₁ ok =>
      rw [hperform] at hentry
      cases ok with
      | false => exact hentry
      | true =>
          cases m.source.opens with
          | false => exact hentry
          | true =>
              have hcopy := copyFrom_keeps (z := z) hQ m (m.source.content.length + 1) 0
                m.source.content w₁ hentry
              simp only []
              split
              · next w₂ hcopied =>
                  rw [hcopied] at hcopy
                  exact w₂.perform_keeps hQ hcopy _ _
              · next w₂ hcopied =>
                  rw [hcopied] at hcopy
                  exact hcopy

theorem zipMembers_keeps (hQ : ∀ c b, Q c → Q (c.send (.ok (.data b))).1)
    (ms : List Member) {w : Writer σ} (h : Q w.channel) :
    Q (zipMembers z ms w).1.channel := by
  induction ms generalizing w with
  | nil => exact h
  | cons m ms ih =>
      have hsingle := internalZipSingle_keeps (z := z) hQ m h
      unfold zipMembers
      split
      · next w' heq =>
          rw [heq] at hsingle
          exact ih hsingle
      · next w' heq =>
          rw [heq] at hsingle
          exact hsingle

theorem zipAll_keeps (hQ : ∀ c b, Q c → Q (c.send (.ok (.data b))).1)
    (closeFault : Option Nat) (ms : List Member) {c : Channel} (h : Q c) :
    Q (zipAll z closeFault ms c) := by
  have hmembers := zipMembers_keeps (z := z) (w := ⟨z.new, c⟩) hQ ms h
  unfold zipAll
  split
  · next w heq =>
      rw [heq] at hmembers
      exact w.perform_keeps hQ hmembers _ _
  · next w heq =>
      rw [heq] at hmembers
      exact hmembers

/-! ## Nothing is begun of what cannot be opened -/

/-- The receiver has taken these units, and takes no more. -/
def Channel.Taken (us : List ResponseUnit) (c : Channel) : Prop :=
  c.patience = some us.length ∧ c.units = us

theorem Channel.send_taken (us : List ResponseUnit) (c : Channel) (b : Bytes)
    (h : c.Taken us) : (c.send (.ok (.data b))).1.Taken us := by
  have hfull : c.patience = some c.units.length := by rw [h.2]; exact h.1
  unfold Channel.send
  rw [if_pos hfull]
  exact h

theorem Writer.emit_false {w : Writer σ} (bufs : List Bytes) (h : (w.emit bufs).2 = false) :
    ∃ us, (w.emit bufs).1.channel.Taken us := by
  induction bufs generalizing w with
  | nil => exact absurd h (by simp [Writer.emit])
  | cons b bs ih =>
      unfold Writer.emit at h ⊢
      by_cases hfull : w.channel.patience = some w.channel.units.length
      · have hsend : w.channel.send (.ok (.data b)) =
            ({ w.channel with refused := true }, false) := if_pos hfull
        rw [hsend]
        exact ⟨_, hfull, rfl⟩
      · have hsend : w.channel.send (.ok (.data b)) =
            ({ w.channel with units := w.channel.units ++ [.ok (.data b)] }, true) :=
          if_neg hfull
        rw [hsend] at h ⊢
        exact ih h

theorem Writer.perform_false {w : Writer σ} (out : List Bytes × σ)
    (h : (w.perform none out).2 = false) : ∃ us, (w.perform none out).1.channel.Taken us := by
  have hemit := w.emit_false out.1
  unfold Writer.perform at h ⊢
  cases heq : w.emit out.1 with
  | mk w' ok =>
      rw [heq] at hemit
      simp only [heq] at h ⊢
      cases ok with
      | true => exact absurd h (by simp)
      | false => exact hemit rfl

theorem Writer.perform_true {w : Writer σ} {fault : Option Nat} {out : List Bytes × σ}
    (h : (w.perform fault out).2 = true) : fault = none := by
  cases fault with
  | none => rfl
  | some written => exact absurd h (by simp [Writer.perform])

/-- A copy that goes through has read all there is. -/
theorem copyFrom_true {m : Member} {fuel : Nat} :
    ∀ {k : Nat} {rest : Bytes} {w : Writer σ}, rest.length < fuel →
      (copyFrom z m fuel k rest w).2 = true →
      (∃ chunks, m.source.chunksFrom (1024 * 8) fuel k rest = some chunks ∧
        m.Written k chunks) ∧ m.flushFault = none := by
  induction fuel with
  | zero =>
      intro k rest w hfuel
      omega
  | succ fuel ih =>
      intro k rest w hfuel h
      unfold copyFrom at h
      unfold Source.chunksFrom
      cases hread : m.source.read (1024 * 8) k rest with
      | none => simp [hread] at h
      | some chunk =>
          cases chunk with
          | nil =>
              simp only [hread] at h ⊢
              exact ⟨⟨[], rfl, trivial⟩, Writer.perform_true h⟩
          | cons b bs =>
              have heq := Source.read_eq hread
              simp only [hread] at h ⊢
              cases hperform : w.perform (m.writeFault k) (z.write w.state (b :: bs)) with
              | mk w' ok =>
                  rw [hperform] at h
                  cases ok with
                  | false => exact absurd h (by simp)
                  | true =>
                      have hfault : m.writeFault k = none :=
                        Writer.perform_true (by rw [hperform])
                      obtain ⟨⟨chunks, hchunks, hwritten⟩, hflush⟩ :=
                        ih (length_drop_lt heq hfuel) h
                      exact ⟨⟨(b :: bs) :: chunks, by rw [hchunks]; rfl, hfault, hwritten⟩,
                        hflush⟩

/-- An archive that goes on behind a file has the file, or passes over it, or
nobody takes it any more. -/
theorem internalZipSingle_true {m : Member} {w : Writer σ}
    (h : (internalZipSingle z m w).2 = true) :
    m.Passes ∨ ∃ us, (internalZipSingle z m w).1.channel.Taken us := by
  cases hopens : m.source.opens with
  | false => exact .inl (.inl hopens)
  | true =>
      cases hentry : m.entryFault with
      | some written => exact .inl (.inr (.inl (by rw [hentry]; nofun)))
      | none =>
          have hfull := w.perform_false (z.entry w.state m.name)
          unfold internalZipSingle at h ⊢
          rw [hentry, hopens] at h ⊢
          cases hperform : w.perform none (z.entry w.state m.name) with
          | mk w₁ ok =>
              rw [hperform] at h hfull
              cases ok with
              | false => exact .inr (hfull rfl)
              | true =>
                  simp only [] at h
                  cases hcopy : copyFrom z m (m.source.content.length + 1) 0
                      m.source.content w₁ with
                  | mk w₂ ok =>
                      rw [hcopy] at h
                      cases ok with
                      | false => exact absurd h (by simp)
                      | true =>
                          obtain ⟨hchunks, hflush⟩ := copyFrom_true (z := z) (m := m)
                            (w := w₁) (Nat.lt_succ_self _) (by rw [hcopy])
                          exact .inl (.inr (.inr ⟨hentry, hopens, hchunks, hflush,
                            Writer.perform_true h⟩))

/-- In step with the archive of the files that can be opened, or behind all
that is taken of the two. -/
theorem zipMembers_opened {ms : List Member} (h : Unspoilt ms) (w : Writer σ) :
    zipMembers z ms w = zipMembers z (opened ms) w ∨
      ∃ us, (zipMembers z ms w).1.channel.Taken us ∧
        (zipMembers z (opened ms) w).1.channel.Taken us := by
  induction ms generalizing w with
  | nil => exact .inl rfl
  | cons m ms ih =>
      obtain ⟨hm, hms⟩ := unspoilt_cons.mp h
      cases hopens : m.source.opens with
      | false =>
          have hskip : internalZipSingle z m w = (w, true) := by
            simp [internalZipSingle, hm hopens, Writer.perform, Writer.emit]
          have hopened : opened (m :: ms) = opened ms := List.filter_cons_of_neg (by simp [hopens])
          rw [hopened, zipMembers, hskip]
          exact ih (hms (.inl hopens)) w
      | true =>
          have hopened : opened (m :: ms) = m :: opened ms := List.filter_cons_of_pos hopens
          have htrue := internalZipSingle_true (z := z) (m := m) (w := w)
          rw [hopened, zipMembers, zipMembers]
          cases hrun : internalZipSingle z m w with
          | mk w' ok =>
              rw [hrun] at htrue
              cases ok with
              | false => exact .inl rfl
              | true =>
                  rcases htrue rfl with hpasses | ⟨us, hus⟩
                  · exact ih (hms hpasses) w'
                  · have hkeep := fun ms => zipMembers_keeps (z := z) (w := w')
                      (Channel.send_taken us) ms hus
                    exact .inr ⟨us, hkeep ms, hkeep (opened ms)⟩

theorem zipAll_opened {ms : List Member} (h : Unspoilt ms) (closeFault : Option Nat)
    (c : Channel) :
    (zipAll z closeFault ms c).units = (zipAll z closeFault (opened ms) c).units := by
  rcases zipMembers_opened (z := z) h ⟨z.new, c⟩ with heq | ⟨us, hms, hopened⟩
  · unfold zipAll
    rw [heq]
  · have hclose (ms : List Member) (hms : (zipMembers z ms ⟨z.new, c⟩).1.channel.Taken us) :
        (zipAll z closeFault ms c).units = us := by
      unfold zipAll
      split
      · next w hrun =>
          rw [hrun] at hms
          exact (w.perform_keeps (Channel.send_taken us) hms _ _).2
      · next w hrun =>
          rw [hrun] at hms
          exact hms.2
    rw [hclose ms hms, hclose _ hopened]

/-! ## A header too much -/

/-- The receiver is there to stay. -/
def Channel.Open (c : Channel) : Prop := c.patience = none ∧ c.refused = false

theorem Channel.send_open (c : Channel) (b : Bytes) (h : c.Open) :
    (c.send (.ok (.data b))).1.Open := by
  unfold Channel.send
  rw [if_neg (by rw [h.1]; nofun)]
  exact h

/-- The writer when the buffers have been sent. -/
def Writer.sent (w : Writer σ) (bufs : List Bytes) : Writer σ :=
  { w with channel := { w.channel with
      units := w.channel.units ++ bufs.map fun b => .ok (.data b) } }

theorem Writer.sent_bytes (w : Writer σ) (bufs : List Bytes) :
    (w.sent bufs).channel.bytes = w.channel.bytes ++ bufs.flatten :=
  Channel.Extends.bytes ⟨bufs, rfl, rfl⟩

theorem Writer.emit_open {w : Writer σ} (h : w.channel.Open) (bufs : List Bytes) :
    w.emit bufs = (w.sent bufs, true) := by
  induction bufs generalizing w with
  | nil => simp [Writer.emit, Writer.sent]
  | cons b bs ih =>
      have hsend : w.channel.send (.ok (.data b)) = ((w.sent [b]).channel, true) :=
        if_neg (by rw [h.1]; simp)
      unfold Writer.emit
      rw [hsend]
      simp only []
      rw [ih (w := { w with channel := (w.sent [b]).channel }) h]
      simp [Writer.sent]

/-- Two runs with receivers that stay, the second of which has written `d` bytes
more. -/
structure Level (rel : σ → σ → Prop) (d : Nat) (w w' : Writer σ) : Prop where
  state : rel w.state w'.state
  first : w.channel.Open
  second : w'.channel.Open
  bytes : w'.channel.bytes.length = w.channel.bytes.length + d

/-- Two operations that go the same way. -/
structure InStep (rel : σ → σ → Prop) (d : Nat) (r r' : Writer σ × Bool) : Prop where
  ok : r'.2 = r.2
  bytes : r'.1.channel.bytes.length = r.1.channel.bytes.length + d
  level : r.2 = true → Level rel d r.1 r'.1

theorem Level.sent {rel : σ → σ → Prop} {d : Nat} {w w' : Writer σ} (h : Level rel d w w')
    (bufs : List Bytes) : Level rel d (w.sent bufs) (w'.sent bufs) where
  state := h.state
  first := h.first
  second := h.second
  bytes := by
    rw [w.sent_bytes, w'.sent_bytes, List.length_append, List.length_append, h.bytes]
    omega

theorem Level.perform {rel rel' : σ → σ → Prop} {d : Nat} {w w' : Writer σ}
    (h : Level rel d w w') (fault : Option Nat) {out out' : List Bytes × σ}
    (hout : out'.1 = out.1) (hstate : rel' out.2 out'.2) :
    InStep rel' d (w.perform fault out) (w'.perform fault out') := by
  cases fault with
  | some written =>
      have hsent := h.sent (out.1.take written)
      simp only [Writer.perform, hout, Writer.emit_open h.first, Writer.emit_open h.second]
      exact ⟨rfl, hsent.bytes, fun hok => absurd hok Bool.false_ne_true⟩
  | none =>
      have hsent := h.sent out.1
      simp only [Writer.perform, hout, Writer.emit_open h.first, Writer.emit_open h.second]
      exact ⟨rfl, hsent.bytes, fun _ => ⟨hstate, h.first, h.second, hsent.bytes⟩⟩

section

variable {idle busy : σ → σ → Prop} (hz : z.Streams idle busy)

include hz

theorem Level.copyFrom {m : Member} {d : Nat} (fuel : Nat) :
    ∀ (k : Nat) (rest : Bytes) {w w' : Writer σ}, Level busy d w w' →
      InStep busy d (copyFrom z m fuel k rest w) (copyFrom z m fuel k rest w') := by
  induction fuel with
  | zero => exact fun _ _ _ _ h => ⟨rfl, h.bytes, fun _ => h⟩
  | succ fuel ih =>
      intro k rest w w' h
      unfold Download.copyFrom
      cases m.source.read (1024 * 8) k rest with
      | none => exact ⟨rfl, h.bytes, fun hok => absurd hok Bool.false_ne_true⟩
      | some chunk =>
          cases chunk with
          | nil =>
              obtain ⟨hout, hstate⟩ := hz.flush _ _ h.state
              exact h.perform m.flushFault hout hstate
          | cons b bs =>
              obtain ⟨hout, hstate⟩ := hz.write _ _ (b :: bs) h.state
              have hwrite := h.perform (m.writeFault k) hout hstate
              simp only []
              cases hrun : w.perform (m.writeFault k) (z.write w.state (b :: bs)) with
              | mk w₁ ok =>
                  cases hrun' : w'.perform (m.writeFault k) (z.write w'.state (b :: bs)) with
                  | mk w₁' ok' =>
                      rw [hrun, hrun'] at hwrite
                      obtain rfl : ok' = ok := hwrite.ok
                      cases ok' with
                      | false =>
                          exact ⟨rfl, hwrite.bytes, fun hok => absurd hok Bool.false_ne_true⟩
                      | true => exact ih _ _ (hwrite.level rfl)

/-- With a file that can be opened the two runs do the same. -/
theorem Level.single {m : Member} (hopens : m.source.opens = true) {d : Nat}
    {w w' : Writer σ} (h : Level idle d w w') :
    InStep idle d (internalZipSingle z m w) (internalZipSingle z m w') := by
  unfold internalZipSingle
  rw [hopens]
  cases hfault : m.entryFault with
  | some written =>
      obtain ⟨hout, -⟩ := hz.entry _ _ m.name h.state
      have hsent := h.sent ((z.entry w.state m.name).1.take written)
      simp only [Writer.perform, hout, Writer.emit_open h.first, Writer.emit_open h.second]
      exact ⟨rfl, hsent.bytes, fun _ => hsent⟩
  | none =>
      obtain ⟨hout, hstate⟩ := hz.entry _ _ m.name h.state
      have hentry := h.perform none hout hstate
      cases hrun : w.perform none (z.entry w.state m.name) with
      | mk w₁ ok =>
          cases hrun' : w'.perform none (z.entry w'.state m.name) with
          | mk w₁' ok' =>
              rw [hrun, hrun'] at hentry
              obtain rfl : ok' = ok := hentry.ok
              cases ok' with
              | false =>
                  rw [Writer.perform, Writer.emit_open h.first] at hrun
                  exact absurd (Prod.mk.inj hrun).2 (by simp)
              | true =>
                  have hcopy := Level.copyFrom hz (m := m) (m.source.content.length + 1)
                    0 m.source.content (hentry.level rfl)
                  simp only []
                  cases hcopied : Download.copyFrom z m (m.source.content.length + 1) 0
                      m.source.content w₁ with
                  | mk w₂ ok =>
                      cases hcopied' : Download.copyFrom z m (m.source.content.length + 1) 0
                          m.source.content w₁' with
                      | mk w₂' ok' =>
                          rw [hcopied, hcopied'] at hcopy
                          obtain rfl : ok' = ok := hcopy.ok
                          cases ok' with
                          | false =>
                              exact ⟨rfl, hcopy.bytes, fun hok => absurd hok Bool.false_ne_true⟩
                          | true =>
                              have hlevel := hcopy.level rfl
                              obtain ⟨hout, hstate⟩ := hz.finish _ _ hlevel.state
                              exact hlevel.perform m.finishFault hout hstate

/-- A file that cannot be opened leaves what it has begun of its header behind. -/
theorem Level.missing {m : Member} (hopens : m.source.opens = false) {d : Nat}
    {w w' : Writer σ} (h : Level idle d w w') :
    (internalZipSingle z m w').2 = true ∧
      ∃ d', d ≤ d' ∧ (m.entryFault ≠ some 0 → d < d') ∧
        Level idle d' w (internalZipSingle z m w').1 := by
  obtain ⟨b, bs, rest, hsig⟩ := hz.signature w'.state m.name
  unfold internalZipSingle
  rw [hopens]
  cases hfault : m.entryFault with
  | some written =>
      simp only [Writer.perform, Writer.emit_open h.second]
      refine ⟨trivial, d + ((z.entry w'.state m.name).1.take written).flatten.length,
        by omega, fun hw => ?_, h.state, h.first, h.second, ?_⟩
      · cases written with
        | zero => exact absurd rfl hw
        | succ n =>
            rw [hsig, List.take_succ_cons, List.flatten_cons, List.length_append,
              List.length_cons]
            omega
      · rw [w'.sent_bytes, List.length_append, h.bytes]
        omega
  | none =>
      simp only [Writer.perform, Writer.emit_open h.second]
      refine ⟨trivial, d + (z.entry w'.state m.name).1.flatten.length, by omega, fun _ => ?_,
        hz.abandon _ _ m.name h.state, h.first, h.second, ?_⟩
      · rw [hsig, List.flatten_cons, List.length_append, List.length_cons]
        omega
      · have hbytes := w'.sent_bytes (z.entry w'.state m.name).1
        simp only [Writer.sent] at hbytes ⊢
        rw [hbytes, List.length_append, h.bytes]
        omega

/-- So the run with such files stays behind the one without them, and never
catches up. -/
theorem Level.members (ms : List Member) {d : Nat} {w w' : Writer σ}
    (h : Level idle d w w') :
    ∃ d', d ≤ d' ∧ (¬ Unspoilt ms → d < d') ∧
      InStep idle d' (zipMembers z (opened ms) w) (zipMembers z ms w') := by
  induction ms generalizing d w w' with
  | nil =>
      refine ⟨d, Nat.le_refl d, fun hno => absurd ?_ hno, rfl, h.bytes, fun _ => h⟩
      intro before m after heq
      exact absurd heq (by simp)
  | cons m ms ih =>
      cases hopens : m.source.opens with
      | false =>
          have hopened : opened (m :: ms) = opened ms := List.filter_cons_of_neg (by simp [hopens])
          obtain ⟨hok, d₁, hd₁, hbegun, hlevel⟩ := h.missing hz hopens
          obtain ⟨d₂, hd₂, hspoilt, hstep⟩ := ih hlevel
          refine ⟨d₂, by omega, fun hno => ?_, ?_⟩
          · by_cases hfault : m.entryFault = some 0
            · have hrest : ¬ Unspoilt ms := fun hms =>
                hno (unspoilt_cons.mpr ⟨fun _ => hfault, fun _ => hms⟩)
              have := hspoilt hrest
              omega
            · have := hbegun hfault
              omega
          · rw [hopened, zipMembers]
            cases hrun : internalZipSingle z m w' with
            | mk w₁ ok =>
                rw [hrun] at hok hstep
                obtain rfl : ok = true := hok
                exact hstep
      | true =>
          have hopened : opened (m :: ms) = m :: opened ms := List.filter_cons_of_pos hopens
          have hsingle := h.single hz hopens
          have hkeep := internalZipSingle_keeps (z := z) Channel.send_open m h.second
          have hdone (hm : m.Sound) := internalZipSingle_done (z := z) hm hkeep.2
          rw [hopened, zipMembers, zipMembers]
          cases hrun : internalZipSingle z m w with
          | mk w₁ ok =>
              cases hrun' : internalZipSingle z m w' with
              | mk w₁' ok' =>
                  rw [hrun, hrun'] at hsingle
                  rw [hrun'] at hdone
                  obtain rfl : ok' = ok := hsingle.ok
                  cases ok' with
                  | true =>
                      obtain ⟨d', hd', hspoilt, hstep⟩ := ih (hsingle.level rfl)
                      refine ⟨d', hd', fun hno => hspoilt fun hms => ?_, hstep⟩
                      exact hno (unspoilt_cons.mpr
                        ⟨fun hc => absurd (hopens.symm.trans hc) (Ne.symm Bool.false_ne_true),
                          fun _ => hms⟩)
                  | false =>
                      -- What ends the archive is not passed.
                      refine ⟨d, Nat.le_refl d, fun hno => absurd ?_ hno, rfl, hsingle.bytes,
                        fun hok => absurd hok Bool.false_ne_true⟩
                      refine unspoilt_cons.mpr
                        ⟨fun hc => absurd (hopens.symm.trans hc) (Ne.symm Bool.false_ne_true),
                          fun hpasses => ?_⟩
                      rcases hpasses with hc | hfault | hm
                      · exact absurd (hopens.symm.trans hc) (Ne.symm Bool.false_ne_true)
                      · obtain ⟨n, hn⟩ := Option.ne_none_iff_exists'.mp hfault
                        rw [internalZipSingle, hn] at hrun'
                        simp [Writer.perform] at hrun'
                      · obtain ⟨_, -, hok, -⟩ := hdone hm
                        exact absurd hok Bool.false_ne_true

theorem zipAll_behind {ms : List Member} (h : ¬ Unspoilt ms) (closeFault : Option Nat) :
    (zipAll z closeFault (opened ms) (.new none)).bytes.length <
      (zipAll z closeFault ms (.new none)).bytes.length := by
  have hstart : Level idle 0 (⟨z.new, .new none⟩ : Writer σ) ⟨z.new, .new none⟩ :=
    ⟨hz.new, ⟨rfl, rfl⟩, ⟨rfl, rfl⟩, rfl⟩
  obtain ⟨d, -, hd, hstep⟩ := hstart.members hz ms
  have hd := hd h
  unfold zipAll
  cases hrun : zipMembers z (opened ms) ⟨z.new, .new none⟩ with
  | mk w ok =>
      cases hrun' : zipMembers z ms ⟨z.new, .new none⟩ with
      | mk w' ok' =>
          rw [hrun, hrun'] at hstep
          obtain rfl : ok' = ok := hstep.ok
          cases ok' with
          | false =>
              have := hstep.bytes
              simp only [] at this ⊢
              omega
          | true =>
              have hlevel := hstep.level rfl
              have hbytes : w'.channel.bytes.length = w.channel.bytes.length + d :=
                hlevel.bytes
              have hclose := fun n => hz.close w.state w'.state n hlevel.state
              cases closeFault with
              | some written =>
                  have := hclose written
                  simp only [Writer.perform, Writer.emit_open hlevel.first,
                    Writer.emit_open hlevel.second, Writer.sent_bytes, List.length_append]
                  omega
              | none =>
                  have := hclose (max (z.close w.state).length (z.close w'.state).length)
                  rw [List.take_of_length_le (by omega), List.take_of_length_le (by omega)] at this
                  simp only [Writer.perform, Writer.emit_open hlevel.first,
                    Writer.emit_open hlevel.second]
                  have hsent := w.sent_bytes (z.close w.state)
                  have hsent' := w'.sent_bytes (z.close w'.state)
                  simp only [Writer.sent] at hsent hsent' ⊢
                  rw [hsent, hsent', List.length_append, List.length_append]
                  omega

/-- An archive is as if the files that cannot be opened had not been listed if
and only if nothing has been begun of any of them that was come to. -/
theorem zipAll_undamaged_iff (closeFault : Option Nat) (ms : List Member) :
    Undamaged z closeFault ms ↔ Unspoilt ms := by
  constructor
  · intro h
    by_contra hno
    have := zipAll_behind hz hno closeFault
    rw [h.same none] at this
    omega
  · intro h
    have hsame (patience : Option Nat) : (zipAll z closeFault ms (.new patience)).bytes =
        (zipAll z closeFault (opened ms) (.new patience)).bytes := by
      unfold Channel.bytes
      rw [zipAll_opened h]
    refine ⟨hsame, ?_⟩
    rintro rfl hsound
    rw [hsame none]
    exact zipAll_done hsound
      (zipAll_keeps (z := z) Channel.send_open none (opened ms) ⟨rfl, rfl⟩).2

end

end

/-! ## A file that cannot be opened -/

def littleEndian : Nat → Nat → Bytes
  | 0, _ => []
  | size + 1, n => .ofNat n :: littleEndian size (n / 256)

theorem length_littleEndian (size n : Nat) : (littleEndian size n).length = size := by
  induction size generalizing n with
  | zero => rfl
  | succ size ih => exact congrArg (· + 1) (ih (n / 256))

/-- The header of an entry whose sizes are not known yet. -/
def localHeader (name : Path) : List Bytes :=
  [[0x50, 0x4b, 0x03, 0x04],
    [0x2d, 0, 0x08, 0x08, 0x08, 0, 0, 0, 0, 0, 0, 0, 0, 0, 0xff, 0xff, 0xff, 0xff,
      0xff, 0xff, 0xff, 0xff] ++ littleEndian 2 name.length ++ littleEndian 2 20,
    name.map fun c => .ofNat c.toNat,
    [0x01, 0, 0x10, 0] ++ List.replicate 16 0]

/-- The end of a central directory without entries. -/
def centralEnd : Nat × Bool → List Bytes
  | (offset, true) =>
      [[0x50, 0x4b, 0x06, 0x06], littleEndian 8 44 ++ [0x2d, 0, 0x2d, 0] ++
          List.replicate 32 0 ++ littleEndian 8 offset,
        [0x50, 0x4b, 0x06, 0x07], littleEndian 4 0 ++ littleEndian 8 offset ++ littleEndian 4 1,
        [0x50, 0x4b, 0x05, 0x06], List.replicate 12 0 ++ littleEndian 4 offset ++ [0, 0]]
  | (offset, false) =>
      [[0x50, 0x4b, 0x05, 0x06], List.replicate 12 0 ++ littleEndian 4 offset ++ [0, 0]]

/-- The writer as long as no entry is written to: how far it is in its stream,
and whether an entry has been started. -/
def streaming : Zip (Nat × Bool) where
  new := (0, false)
  entry st name := (localHeader name, (st.1 + (localHeader name).flatten.length, true))
  write st _ := ([], st)
  flush st := ([], st)
  finish st := ([], st)
  close st := centralEnd st

/-- Of two such writers the second has started an entry if the first has. -/
def started (st st' : Nat × Bool) : Prop := st.2 = true → st'.2 = true

theorem streaming_streams : streaming.Streams started started where
  new := id
  signature _ _ := ⟨_, _, _, rfl⟩
  entry _ _ _ _ := ⟨rfl, fun _ => rfl⟩
  abandon _ _ _ _ _ := rfl
  write _ _ _ h := ⟨rfl, h⟩
  flush _ _ h := ⟨rfl, h⟩
  finish _ _ h := ⟨rfl, h⟩
  close := by
    rintro ⟨o, b⟩ ⟨o', b'⟩ n h
    cases b with
    | false =>
        cases b' <;> rcases n with _ | _ | _ | _ | _ | _ | n <;>
          simp [streaming, centralEnd, length_littleEndian]
    | true =>
        obtain rfl : b' = true := h rfl
        rcases n with _ | _ | _ | _ | _ | _ | n <;>
          simp [streaming, centralEnd, length_littleEndian]

/-- A file that is there and may not be read. -/
def forbidden : Member := { damaged 0 with source := ⟨[0x61, 0x62], false, fun _ => some 0⟩ }

theorem zipAll_undamaged_iff_forbidden : ¬ Undamaged streaming none [forbidden] := by
  intro h
  have hunspoilt := (zipAll_undamaged_iff streaming_streams none [forbidden]).mp h
  exact absurd (hunspoilt [] forbidden [] rfl (by simp) rfl) nofun

/-- Its header is all there is in the archive. -/
theorem zipAll_damaged :
    ¬ ∀ (ms : List Member), Undamaged streaming none ms := by
  intro h
  have hsame := congrArg List.length ((h [forbidden]).same none)
  exact absurd hsame (by decide +kernel)

end WebSshTool.Download
