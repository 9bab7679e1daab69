import WebSshTool.Logging.FileLogger

/-!
# The log file

`run_file_logger` writes each message it receives to the log file. Where that
fails it opens the file again and writes once more, and where that fails too
the message goes to standard output and a flag is set. The next message that
is written at once is followed by a notice, which takes the flag back.

All of this goes by what `write_all` returns. `tokio::fs::File` hands a buffer
to another thread and reports an error at a later write, if there is one, so
what gets into the file and what is returned are two things here. A message
that gets lost behind an `Ok` is in neither place and no notice is ever about
it. Nothing is lost, and no notice is missing, exactly as long as what is
reported as written is there.
-/

namespace WebSshTool.Logging.LogFile

/-- What becomes of one `write_all`: how many bytes get into the file, and the
error it returns, as `Debug` shows it. -/
structure Write where
  stored : Nat
  error : Option String
  deriving DecidableEq, Repr

/-- One turn of the loop: the message received, and what becomes of the calls
that it may take. -/
structure Turn where
  message : String
  write : Write
  /-- `option.open` opens the file again. -/
  reopened : Bool
  rewrite : Write
  /-- The time of the notice. -/
  time : String
  notice : Write
  deriving DecidableEq, Repr

/-- What a turn sends out. Files are numbered as they are opened. -/
inductive Output where
  | message (file : Nat) (write : Write)
  | notice (file : Nat) (line : String) (write : Write)
  | stdout (text : String)
  | stderr (text : String)
  deriving DecidableEq, Repr

/-- What a turn has sent out for its message. -/
structure Pass where
  message : String
  outputs : List Output
  deriving DecidableEq, Repr

structure State where
  /-- The file that was opened last. -/
  file : Nat
  hasLostSomeLog : Bool
  passes : List Pass
  deriving DecidableEq, Repr

def lostNotice (time : String) : String :=
  time ++ " [ERROR] Some log messages have been lost. Please check out the lost messages in app " ++
    "stdio. \n"

def writeFailed (error : String) : String :=
  "Failed to write log to file (" ++ error ++ "). Trying reopen log file. \n"

def reopenFailed (error : String) : String :=
  "Failed to reopen log file and write log to file (" ++ error ++ "). Output log to stdio. \n"

/-- `eprintln!`, which is left out while the flag is set. -/
def State.complain (s : State) (text : String) : List Output :=
  if s.hasLostSomeLog then [] else [.stderr text]

def State.send (s : State) (t : Turn) (outputs : List Output) : State :=
  { s with passes := s.passes ++ [⟨t.message, outputs⟩] }

/-- `match option.open(&path).await`. -/
def State.reopen (s : State) (t : Turn) : State :=
  if t.reopened then { s with file := s.file + 1 } else s

/-- The body of the loop. -/
def next (s : State) (t : Turn) : State :=
  match t.write.error with
  | some e =>
      let tried := .message s.file t.write :: s.complain (writeFailed e)
      let s := s.reopen t
      let tried := tried ++ [.message s.file t.rewrite]
      match t.rewrite.error with
      | some e =>
          { s.send t (tried ++ s.complain (reopenFailed e) ++ [.stdout (t.message ++ "\n")]) with
            hasLostSomeLog := true }
      | none => s.send t tried
  | none =>
      let written := [.message s.file t.write]
      if s.hasLostSomeLog then
        { s.send t (written ++ [.notice s.file (lostNotice t.time) t.notice]) with
          hasLostSomeLog := t.notice.error.isSome }
      else s.send t written

def init : State where
  file := 0
  hasLostSomeLog := false
  passes := []

/-- The loop as a machine, one turn a step. -/
def machine : Machine State Turn := ⟨init, fun _ _ => True, next⟩

/-- What `run_file_logger` has come to behind these turns, or the message of
its panic. -/
def runFileLogger (opened : Except String Unit) (turns : List Turn) : Except String State :=
  match opened with
  | .error e => .error ("Failed to open log file. : " ++ e)
  | .ok _ => .ok (turns.foldl next init)

/-! ## The property and the condition -/

/-- All of the line is in the file. -/
def Write.Whole (w : Write) (line : String) : Prop := line.utf8ByteSize ≤ w.stored

instance (w : Write) (line : String) : Decidable (w.Whole line) :=
  inferInstanceAs (Decidable (_ ≤ _))

/-- The message is completely in the log file. -/
def Pass.InFile (p : Pass) : Prop := ∃ file w, .message file w ∈ p.outputs ∧ w.Whole p.message

/-- The message had to go to standard output. -/
def Pass.Printed (p : Pass) : Prop := .stdout (p.message ++ "\n") ∈ p.outputs

/-- A notice was successfully written to the log file. -/
def Pass.Noticed (p : Pass) : Prop :=
  ∃ file line w, .notice file line w ∈ p.outputs ∧ w.error = none ∧ w.Whole line

/-- A notice is behind each message that is on standard output. -/
def Covered (passes : List Pass) : Prop :=
  ∀ before p after, passes = before ++ p :: after → p.Printed → ∃ q ∈ after, q.Noticed

/-- Each message received is, in order, in the log file or on standard output,
and while the flag is down those on standard output are covered. -/
structure LosesNothing (received : List String) (s : State) : Prop where
  inOrder : s.passes.map Pass.message = received
  put : ∀ p ∈ s.passes, p.InFile ∨ p.Printed
  covered : s.hasLostSomeLog = false → Covered s.passes

/-- What `write_all` reports as written in this turn is in the file: for the
message by one of its two writes, and for the notice. -/
structure Turn.Honest (s : State) (t : Turn) : Prop where
  write : t.write.error = none → t.write.Whole t.message
  rewrite : t.write.error ≠ none → t.rewrite.error = none →
    t.write.Whole t.message ∨ t.rewrite.Whole t.message
  notice : t.write.error = none → s.hasLostSomeLog = true → t.notice.error = none →
    t.notice.Whole (lostNotice t.time)

/-! ## What a turn does -/

/-- How a turn deals with its message. -/
inductive Handled (s : State) (t : Turn) (p : Pass) (lost : Bool) : Prop
  | written (hwrite : t.write.error = none) (hbefore : s.hasLostSomeLog = false)
      (hfile : p.InFile ↔ t.write.Whole t.message) (hprinted : ¬ p.Printed)
      (hlost : lost = false)
  | noticed (hwrite : t.write.error = none) (hbefore : s.hasLostSomeLog = true)
      (hfile : p.InFile ↔ t.write.Whole t.message) (hprinted : ¬ p.Printed)
      (hnotice : p.Noticed ↔ t.notice.error = none ∧ t.notice.Whole (lostNotice t.time))
      (hlost : lost = t.notice.error.isSome)
  | rewritten (hwrite : t.write.error ≠ none) (hrewrite : t.rewrite.error = none)
      (hfile : p.InFile ↔ t.write.Whole t.message ∨ t.rewrite.Whole t.message)
      (hprinted : ¬ p.Printed) (hnotice : ¬ p.Noticed) (hlost : lost = s.hasLostSomeLog)
  | printed (hwrite : t.write.error ≠ none) (hrewrite : t.rewrite.error ≠ none)
      (hprinted : p.Printed) (hlost : lost = true)

theorem eq_of_mem_complain {s : State} {text : String} {o : Output}
    (ho : o ∈ s.complain text) : o = .stderr text := by
  unfold State.complain at ho
  split at ho
  · simp at ho
  · exact List.mem_singleton.mp ho

@[simp] theorem message_notMem_complain (s : State) (text : String) (file : Nat) (w : Write) :
    .message file w ∉ s.complain text :=
  fun h => Output.noConfusion (eq_of_mem_complain h)

@[simp] theorem notice_notMem_complain (s : State) (text : String) (file : Nat) (line : String)
    (w : Write) : .notice file line w ∉ s.complain text :=
  fun h => Output.noConfusion (eq_of_mem_complain h)

@[simp] theorem stdout_notMem_complain (s : State) (text line : String) :
    .stdout line ∉ s.complain text :=
  fun h => Output.noConfusion (eq_of_mem_complain h)

@[simp] theorem reopen_passes (s : State) (t : Turn) : (s.reopen t).passes = s.passes := by
  unfold State.reopen
  split <;> rfl

@[simp] theorem reopen_hasLostSomeLog (s : State) (t : Turn) :
    (s.reopen t).hasLostSomeLog = s.hasLostSomeLog := by
  unfold State.reopen
  split <;> rfl

theorem next_handled (s : State) (t : Turn) : ∃ p, (next s t).passes = s.passes ++ [p] ∧
    p.message = t.message ∧ Handled s t p (next s t).hasLostSomeLog := by
  cases hwrite : t.write.error with
  | none =>
      cases hlost : s.hasLostSomeLog with
      | false =>
          refine ⟨⟨t.message, [.message s.file t.write]⟩, by simp [next, hwrite, hlost, State.send],
            rfl, .written hwrite hlost ?_ ?_ (by simp [next, hwrite, hlost, State.send])⟩
          · simp [Pass.InFile]
          · simp [Pass.Printed]
      | true =>
          refine ⟨⟨t.message,
            [.message s.file t.write, .notice s.file (lostNotice t.time) t.notice]⟩,
            by simp [next, hwrite, hlost, State.send],
            rfl, .noticed hwrite hlost ?_ ?_ ?_ (by simp [next, hwrite, hlost])⟩
          · simp [Pass.InFile]
          · simp [Pass.Printed]
          · simp [Pass.Noticed]
  | some e =>
      have herror : t.write.error ≠ none := by simp [hwrite]
      cases hrewrite : t.rewrite.error with
      | none =>
          refine ⟨⟨t.message, .message s.file t.write :: s.complain (writeFailed e) ++
            [.message (s.reopen t).file t.rewrite]⟩,
            by simp [next, hwrite, hrewrite, State.send], rfl,
            .rewritten herror hrewrite ?_ ?_ ?_ (by simp [next, hwrite, hrewrite, State.send])⟩
          · constructor
            · rintro ⟨file, w, hw, hwhole⟩
              have hw : (file = s.file ∧ w = t.write) ∨
                  file = (s.reopen t).file ∧ w = t.rewrite := by simpa using hw
              rcases hw with ⟨-, rfl⟩ | ⟨-, rfl⟩
              · exact .inl hwhole
              · exact .inr hwhole
            · rintro (hwhole | hwhole)
              · exact ⟨_, _, List.mem_cons_self, hwhole⟩
              · exact ⟨_, _, List.mem_append_right _ (List.mem_singleton.mpr rfl), hwhole⟩
          · simp [Pass.Printed]
          · simp [Pass.Noticed]
      | some e' =>
          refine ⟨⟨t.message, .message s.file t.write :: s.complain (writeFailed e) ++
            [.message (s.reopen t).file t.rewrite] ++ (s.reopen t).complain (reopenFailed e') ++
              [.stdout (t.message ++ "\n")]⟩,
            by simp [next, hwrite, hrewrite, State.send], rfl,
            .printed herror (by simp [hrewrite]) ?_ (by simp [next, hwrite, hrewrite])⟩
          simp [Pass.Printed]

/-! ## Runs -/

theorem covered_concat {passes : List Pass} {p : Pass} :
    Covered (passes ++ [p]) ↔ ¬ p.Printed ∧ (Covered passes ∨ p.Noticed) := by
  constructor
  · intro h
    refine ⟨fun hprinted => ?_, or_iff_not_imp_right.mpr ?_⟩
    · obtain ⟨q, hq, -⟩ := h passes p [] rfl hprinted
      simp at hq
    · intro hnotice before q after hq hprinted
      obtain ⟨r, hr, hnoticed⟩ := h before q (after ++ [p]) (by simp [hq]) hprinted
      rcases List.mem_append.mp hr with hr | hr
      · exact ⟨r, hr, hnoticed⟩
      · rw [List.mem_singleton.mp hr] at hnoticed
        exact absurd hnoticed hnotice
  · rintro ⟨hprinted, h⟩ before q after hq hqprinted
    rcases Machine.concat_eq_append_cons.mp hq with ⟨-, rfl, -⟩ | ⟨rest, rfl, hpasses⟩
    · exact absurd hqprinted hprinted
    · rcases h with h | hnotice
      · obtain ⟨r, hr, hnoticed⟩ := h before q rest hpasses hqprinted
        exact ⟨r, List.mem_append_left _ hr, hnoticed⟩
      · exact ⟨p, by simp, hnotice⟩

/-- With the flag up there is a message that no notice is behind, whatever has
become of the writes. -/
def Flagged (s : State) : Prop := s.hasLostSomeLog = true → ¬ Covered s.passes

theorem init_flagged : Flagged init := fun h => absurd h (by simp [init])

theorem Flagged.next {s : State} (h : Flagged s) (t : Turn) : Flagged (next s t) := by
  obtain ⟨p, hpasses, -, hp⟩ := next_handled s t
  intro hlost hcovered
  rw [hpasses, covered_concat] at hcovered
  rw [hlost] at hp
  cases hp with
  | written _ _ _ _ hflag => exact absurd hflag (by simp)
  | noticed _ hbefore _ _ hnotice hflag =>
      rcases hcovered.2 with hcovered | hnoticed
      · exact h hbefore hcovered
      · rw [(hnotice.mp hnoticed).1] at hflag
        exact absurd hflag (by simp)
  | rewritten _ _ _ _ hnotice hflag => exact hcovered.2.elim (h hflag.symm) hnotice
  | printed _ _ hprinted _ => exact hcovered.1 hprinted

/-- The property without the order, which always holds. -/
structure Kept (s : State) : Prop where
  put : ∀ p ∈ s.passes, p.InFile ∨ p.Printed
  covered : s.hasLostSomeLog = false → Covered s.passes

theorem init_kept : Kept init where
  put p hp := absurd hp (by simp [init])
  covered _ before p after h := absurd h (by simp [init])

theorem kept_next_iff {s : State} (hs : Flagged s) (h : Kept s) (t : Turn) :
    Kept (next s t) ↔ t.Honest s := by
  obtain ⟨p, hpasses, hmessage, hp⟩ := next_handled s t
  have hnext : Kept (next s t) ↔ (p.InFile ∨ p.Printed) ∧
      ((next s t).hasLostSomeLog = false → ¬ p.Printed ∧ (Covered s.passes ∨ p.Noticed)) := by
    constructor
    · rintro ⟨hput, hcovered⟩
      rw [hpasses] at hput hcovered
      exact ⟨hput p (by simp), fun hlost => covered_concat.mp (hcovered hlost)⟩
    · rintro ⟨hput, hcovered⟩
      refine ⟨fun q hq => ?_, fun hlost => ?_⟩
      · rw [hpasses] at hq
        rcases List.mem_append.mp hq with hq | hq
        · exact h.put q hq
        · rwa [List.mem_singleton.mp hq]
      · rw [hpasses]
        exact covered_concat.mpr (hcovered hlost)
  rw [hnext]
  cases hp with
  | written hwrite hbefore hfile hprinted hlost =>
      constructor
      · rintro ⟨hput, -⟩
        exact ⟨fun _ => hfile.mp (hput.resolve_right hprinted),
          fun herror => absurd hwrite herror,
          fun _ htrue => absurd (hbefore.symm.trans htrue) (by simp)⟩
      · intro hhonest
        exact ⟨.inl (hfile.mpr (hhonest.write hwrite)),
          fun _ => ⟨hprinted, .inl (h.covered hbefore)⟩⟩
  | noticed hwrite hbefore hfile hprinted hnotice hlost =>
      have hdown : (next s t).hasLostSomeLog = false ↔ t.notice.error = none := by
        rw [hlost, Option.isSome_eq_false_iff, Option.isNone_iff_eq_none]
      rw [hdown]
      constructor
      · rintro ⟨hput, hcovered⟩
        refine ⟨fun _ => hfile.mp (hput.resolve_right hprinted),
          fun herror => absurd hwrite herror, fun _ _ hok => ?_⟩
        exact (hnotice.mp ((hcovered hok).2.resolve_left (hs hbefore))).2
      · intro hhonest
        exact ⟨.inl (hfile.mpr (hhonest.write hwrite)), fun hok => ⟨hprinted,
          .inr (hnotice.mpr ⟨hok, hhonest.notice hwrite hbefore hok⟩)⟩⟩
  | rewritten hwrite hrewrite hfile hprinted hnotice hlost =>
      constructor
      · rintro ⟨hput, -⟩
        exact ⟨fun hok => absurd hok hwrite,
          fun _ _ => hfile.mp (hput.resolve_right hprinted), fun hok => absurd hok hwrite⟩
      · intro hhonest
        refine ⟨.inl (hfile.mpr (hhonest.rewrite hwrite hrewrite)),
          fun hdown => ⟨hprinted, .inl ?_⟩⟩
        exact h.covered (hlost ▸ hdown)
  | printed hwrite hrewrite hprinted hlost =>
      refine iff_of_true ⟨.inr hprinted, fun hdown => ?_⟩
        ⟨fun hok => absurd hok hwrite, fun _ hok => absurd hok hrewrite,
          fun hok => absurd hok hwrite⟩
      exact absurd (hlost.symm.trans hdown) (by simp)

theorem passes_foldl (ts : List Turn) (s : State) :
    (ts.foldl next s).passes.map Pass.message =
      s.passes.map Pass.message ++ ts.map Turn.message := by
  induction ts generalizing s with
  | nil => simp
  | cons t ts ih =>
      obtain ⟨p, hpasses, hmessage, -⟩ := next_handled s t
      rw [List.foldl_cons, ih, hpasses, List.map_append, List.map_singleton, hmessage,
        List.append_assoc]
      rfl

theorem losesNothing_foldl_iff (ts : List Turn) :
    LosesNothing (ts.map Turn.message) (ts.foldl next init) ↔ Kept (ts.foldl next init) := by
  refine ⟨fun h => ⟨h.put, h.covered⟩, fun h => ⟨?_, h.put, h.covered⟩⟩
  rw [passes_foldl]
  rfl

theorem path_machine (s : State) (ts : List Turn) : machine.Path (fun _ _ => True) s ts := by
  induction ts generalizing s with
  | nil => trivial
  | cons t ts ih => exact ⟨⟨trivial, trivial⟩, ih _⟩

/-- Once the file has been opened, nothing is lost at any time of a run exactly
if in each of its turns what is reported as written is in the file. -/
theorem losesNothing_iff (ts : List Turn) :
    (∀ ts', ts' <+: ts → ∃ s, runFileLogger (.ok ()) ts' = .ok s ∧
      LosesNothing (ts'.map Turn.message) s) ↔
        machine.Path (fun s t => t.Honest s) init ts := by
  rw [← Machine.kept_iff_path (J := Flagged) (fun s t h => h.next t)
    (fun s t hs h => kept_next_iff hs h t) init init_flagged init_kept (path_machine init ts)]
  refine forall₂_congr fun ts' _ => ?_
  constructor
  · rintro ⟨s, hs, h⟩
    obtain rfl := Except.ok.inj hs
    exact (losesNothing_foldl_iff ts').mp h
  · intro h
    exact ⟨_, rfl, (losesNothing_foldl_iff ts').mpr h⟩

/-- The disk fills up: the write of the first message fails behind its `Ok`,
and the next `write_all` is told. -/
def fullDisk : List Turn :=
  [⟨"a\n", ⟨0, none⟩, false, ⟨0, none⟩, "", ⟨0, none⟩⟩,
    ⟨"b\n",
      ⟨0, some "Os \x7b code: 28, kind: StorageFull, message: \"No space left on device\" \x7d"⟩,
      true, ⟨2, none⟩, "", ⟨0, none⟩⟩]

theorem message_lost :
    (∃ s, runFileLogger (.ok ()) fullDisk = .ok s ∧ s.hasLostSomeLog = false ∧
      ∃ p ∈ s.passes, p.message = "a\n" ∧ ¬ p.InFile ∧ ¬ p.Printed) ∧
    ¬ ∀ ts, ∃ s, runFileLogger (.ok ()) ts = .ok s ∧ LosesNothing (ts.map Turn.message) s := by
  have hrun : ∃ s, runFileLogger (.ok ()) fullDisk = .ok s ∧ s.hasLostSomeLog = false ∧
      ∃ p ∈ s.passes, p.message = "a\n" ∧ ¬ p.InFile ∧ ¬ p.Printed := by
    refine ⟨_, rfl, rfl, ⟨"a\n", [.message 0 ⟨0, none⟩]⟩, List.mem_cons_self, rfl, ?_, ?_⟩
    · rintro ⟨file, w, hw, hwhole⟩
      obtain ⟨rfl, rfl⟩ := Output.message.inj (List.mem_singleton.mp hw)
      exact absurd hwhole (by decide)
    · simp [Pass.Printed]
  refine ⟨hrun, fun h => ?_⟩
  obtain ⟨s, hs, -, p, hp, -, hfile, hprinted⟩ := hrun
  obtain ⟨s', hs', hall⟩ := h fullDisk
  obtain rfl := Except.ok.inj (hs.symm.trans hs')
  exact (hall.put p hp).elim hfile hprinted

/-- Where a write is taken whenever the one before has been reported as failed,
as `tokio::fs::File` does with what fits its buffer, no message is printed and
no notice is due: the loop gets to its second `write_all` and no further. -/
theorem never_printed {ts : List Turn}
    (h : ∀ t ∈ ts, t.write.error ≠ none → t.rewrite.error = none) {s : State}
    (hlost : s.hasLostSomeLog = false) (hs : ∀ p ∈ s.passes, ¬ p.Printed) :
    (ts.foldl next s).hasLostSomeLog = false ∧ ∀ p ∈ (ts.foldl next s).passes, ¬ p.Printed := by
  induction ts generalizing s with
  | nil => exact ⟨hlost, hs⟩
  | cons t ts ih =>
      obtain ⟨p, hpasses, -, hp⟩ := next_handled s t
      have hstep : (next s t).hasLostSomeLog = false ∧ ¬ p.Printed := by
        cases hp with
        | written _ _ _ hprinted hflag => exact ⟨hflag, hprinted⟩
        | noticed _ hbefore => exact absurd (hlost.symm.trans hbefore) (by simp)
        | rewritten _ _ _ hprinted _ hflag => exact ⟨hflag.trans hlost, hprinted⟩
        | printed hwrite hrewrite => exact absurd (h t (by simp) hwrite) hrewrite
      refine ih (fun t' ht' => h t' (List.mem_cons_of_mem _ ht')) hstep.1 fun q hq => ?_
      rw [hpasses] at hq
      rcases List.mem_append.mp hq with hq | hq
      · exact hs q hq
      · rw [List.mem_singleton.mp hq]
        exact hstep.2

/-! ## The texts -/

def utf8 (line : String) : List UInt8 := line.toUTF8.data.toList

/-- What gets into the log file. -/
def Output.logged (message : String) : Output → List UInt8
  | .message _ w => (utf8 message).take w.stored
  | .notice _ line w => (utf8 line).take w.stored
  | .stdout _ | .stderr _ => []

def log (passes : List Pass) : List UInt8 :=
  passes.flatMap fun p => p.outputs.flatMap (Output.logged p.message)

theorem utf8_length (line : String) : (utf8 line).length = line.utf8ByteSize := by
  rw [← String.size_toByteArray]
  rfl

/-- A message that is in the file is there in one piece, behind what was there
for the messages before it and before what comes for those behind it. -/
theorem Pass.InFile.log {before after : List Pass} {p : Pass} (h : p.InFile) :
    ∃ a b, log (before ++ p :: after) =
      LogFile.log before ++ a ++ utf8 p.message ++ b ++ LogFile.log after := by
  obtain ⟨file, w, hw, hwhole⟩ := h
  obtain ⟨first, last, houtputs⟩ := List.append_of_mem hw
  refine ⟨first.flatMap (Output.logged p.message), last.flatMap (Output.logged p.message), ?_⟩
  have hlogged : Output.logged p.message (.message file w) = utf8 p.message :=
    List.take_of_length_le (by rw [utf8_length]; exact hwhole)
  simp only [LogFile.log, List.flatMap_append, List.flatMap_cons, houtputs, hlogged,
    List.append_assoc]

/-! ## The task

What the task of the file logger does with a line in one step, the loop does in
a turn. The line counts as written there unless it is printed. -/

instance (p : Pass) : Decidable p.Printed := inferInstanceAs (Decidable (_ ∈ _))

/-- The lines that count as written. -/
def unprinted (passes : List Pass) : List String :=
  (passes.filter fun p => !decide p.Printed).map Pass.message

/-- The message is taken as written. -/
def Turn.reported (t : Turn) : Bool := t.write.error.isNone || t.rewrite.error.isNone

theorem Handled.reported_iff {s : State} {t : Turn} {p : Pass} {lost : Bool}
    (h : Handled s t p lost) : t.reported = true ↔ ¬ p.Printed := by
  rw [Turn.reported, Bool.or_eq_true, Option.isNone_iff_eq_none, Option.isNone_iff_eq_none]
  cases h with
  | written hwrite _ _ hprinted => exact iff_of_true (.inl hwrite) hprinted
  | noticed hwrite _ _ hprinted => exact iff_of_true (.inl hwrite) hprinted
  | rewritten _ hrewrite _ hprinted => exact iff_of_true (.inr hrewrite) hprinted
  | printed hwrite hrewrite hprinted =>
      exact iff_of_false (not_or.mpr ⟨hwrite, hrewrite⟩) (not_not.mpr hprinted)

theorem unprinted_next (s : State) (t : Turn) : unprinted (next s t).passes =
    unprinted s.passes ++ if t.reported then [t.message] else [] := by
  obtain ⟨p, hpasses, hmessage, hp⟩ := next_handled s t
  rw [hpasses, unprinted, List.filter_append, List.map_append, ← hmessage]
  by_cases hprinted : p.Printed
  · rw [if_neg (fun h => hp.reported_iff.mp h hprinted)]
    simp [unprinted, hprinted]
  · rw [if_pos (hp.reported_iff.mpr hprinted)]
    simp [unprinted, hprinted]

theorem path_turns {n : Nat} (w : Fin n) (ts : List Turn) {s : State} {s' : Logging.State n}
    (htask : s'.task = .running w .receiving) (hqueue : s'.queue = ts.map Turn.message)
    (hfile : s'.file = unprinted s.passes) :
    let labels := ts.flatMap fun t =>
      [Logging.Label.receive w t.message, .written w t.message t.reported]
    (Logging.machine n).Path (fun _ _ => True) s' labels ∧
      (labels.foldl Logging.next s').file = unprinted (ts.foldl next s).passes := by
  induction ts generalizing s s' with
  | nil => exact ⟨trivial, hfile⟩
  | cons t ts ih =>
      intro labels
      obtain ⟨hpath, hend⟩ := @ih (next s t)
        (Logging.next (Logging.next s' (.receive w t.message))
          (.written w t.message t.reported)) rfl (by simp [Logging.next, hqueue]) (by
            rw [unprinted_next, ← hfile]
            cases t.reported <;> simp [Logging.next])
      refine ⟨⟨⟨⟨htask, by simp [hqueue]⟩, trivial⟩, ⟨⟨rfl, trivial⟩, hpath⟩⟩, hend⟩

/-- The task writes all it received where the file takes writes so. -/
theorem all_written {n : Nat} (w : Fin n) {ts : List Turn}
    (h : ∀ t ∈ ts, t.write.error ≠ none → t.rewrite.error = none) {s : Logging.State n}
    (htask : s.task = .running w .receiving) (hqueue : s.queue = ts.map Turn.message)
    (hfile : s.file = []) :
    ∃ labels, (Logging.machine n).Path (fun _ _ => True) s labels ∧
      (labels.foldl Logging.next s).file = ts.map Turn.message := by
  obtain ⟨hpath, hend⟩ := path_turns w ts htask hqueue (s := init) hfile
  refine ⟨_, hpath, hend.trans ?_⟩
  have hunprinted := (never_printed h (s := init) rfl (by simp [init])).2
  rw [unprinted, List.filter_eq_self.mpr fun p hp => by simpa using hunprinted p hp, passes_foldl]
  rfl

end WebSshTool.Logging.LogFile
