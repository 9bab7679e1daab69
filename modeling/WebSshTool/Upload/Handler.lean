import WebSshTool.Upload.Client

/-!
# The upload handler of the internal client

`upload::handle_request` creates the file, opens a `PUT /client` whose own
body is to carry the result, and copies the body of the response to it, which
is what the browser posts. The loop leaves at the end of the body, at an error
of the body and at an error of a write, and what comes after it is the same
for all three: the message that says where the file is. A file that could not
be created has its error message announced in the head, and nothing is sent.

Strings are their UTF-16 units, as the browser has them. Whatever the outside
world decides is in `Env`: whether the file may be opened, whether the master
answers, with which frames, and what becomes of each `write_all`. What is
stored and what is reported are two things there, since `tokio::fs::File`
hands a buffer to another thread and reports an error at a later write, if
there is one.
-/

namespace WebSshTool.Upload

open Json Files

/-- A frame of a body. -/
inductive Frame where
  | data (bytes : Bytes)
  | trailers
  deriving DecidableEq, Repr

/-- What `body.frame()` returns, one after the other, until it returns `None`. -/
abbrev Body := List (Except Unit Frame)

/-- What becomes of one `write_all`: the bytes that get into the file and
whether it returns `Ok`. -/
structure Write where
  stored : Nat
  ok : Bool

structure Env where
  /-- Why `File::create` fails, if the operating system has something against
  the path. -/
  refusal : Option Files.Error
  /-- `http_to_master` connects. -/
  connected : Bool
  /-- The body of the response to the PUT, unless `send_request` fails. -/
  response : Option Body
  writes : Nat → Write

inductive CallError where
  | noPaths
  | connect
  | sendRequest
  deriving DecidableEq, Repr

/-- The head of `PUT /client`. -/
structure Put where
  id : Nat
  peer : Text
  contentLength : Nat
  deriving DecidableEq, Repr

structure Outcome (π : Type*) where
  disk : Disk π
  put : Option Put
  /-- The one data frame sent as the body of the PUT. -/
  sent : Option Text
  reply : Except CallError Value

/-- `[dir]` or `[dir, filename]`. -/
def parseArguments : Value → Option (Text × Option Text)
  | .arr [.str dir] => some (dir, none)
  | .arr [.str dir, .str filename] => some (dir, some filename)
  | _ => none

def tempName (uuid : Text) : Text := uuid ++ ofString ".temp"

def successMessage (dir temp path : Text) : Text :=
  print (.obj [(ofString "destination", .str dir), (ofString "filename", .str temp),
    (ofString "path", .str path)])

def errorMessage (error : Text) : Text := print (.obj [(ofString "error", .str error)])

section

variable {π : Type*} [DecidableEq π]

/-- `tokio::fs::File::create`. -/
def openFile (env : Env) (disk : Disk π) (p : π) : Except Files.Error (Disk π) :=
  match env.refusal with
  | some e => .error e
  | none => create disk p

/-- The copy loop from write `n` on, with the file at `offset`. -/
def copyBody (writes : Nat → Write) (p : π) : Nat → Nat → Disk π → Body → Disk π
  | _, _, disk, [] => disk
  | _, _, disk, .error _ :: _ => disk
  | n, offset, disk, .ok .trailers :: rest => copyBody writes p n offset disk rest
  | n, offset, disk, .ok (.data bytes) :: rest =>
      let stored := bytes.take (writes n).stored
      let disk := write disk p offset stored
      if (writes n).ok then copyBody writes p (n + 1) (offset + stored.length) disk rest
      else disk

/-- `locate` resolves a path, `describe` is the `Debug` text of an I/O error
and `uuid` the one drawn for a file without a name. -/
def handleRequest (locate : Text → π) (describe : Files.Error → Text) (uuid : Text)
    (env : Env) (token : Text) (id : Nat) (argument : Value) (disk : Disk π) :
    Outcome π :=
  match parseArguments argument with
  | none => ⟨disk, none, none, .error .noPaths⟩
  | some (dir, filename) =>
      let temp := filename.getD (tempName uuid)
      let path := push dir temp
      let file := openFile env disk (locate path)
      let disk := match file with
        | .ok disk => disk
        | .error _ => disk
      if env.connected then
        let message := match file with
          | .ok _ => successMessage dir temp path
          | .error e => errorMessage (describe e)
        let put : Put := ⟨id, token, (utf8 message).length⟩
        match env.response with
        | none => ⟨disk, some put, none, .error .sendRequest⟩
        | some body =>
            match file with
            | .ok disk =>
                ⟨copyBody env.writes (locate path) 0 0 disk body, some put, some message,
                  .ok .null⟩
            | .error _ => ⟨disk, some put, none, .ok .null⟩
      else ⟨disk, none, none, .error .connect⟩

end

/-! ## What is stored -/

/-- The data of a body up to its end or its first error. -/
def dataOf : Body → Bytes
  | [] => []
  | .error _ :: _ => []
  | .ok .trailers :: rest => dataOf rest
  | .ok (.data bytes) :: rest => bytes ++ dataOf rest

/-- The body ends without an error and every write, from write `n` on,
succeeds: all its bytes get into the file and it returns `Ok`. -/
def Succeeds (writes : Nat → Write) : Nat → Body → Prop
  | _, [] => True
  | _, .error _ :: _ => False
  | n, .ok .trailers :: rest => Succeeds writes n rest
  | n, .ok (.data bytes) :: rest =>
      (writes n).ok = true ∧ bytes.length ≤ (writes n).stored ∧
        Succeeds writes (n + 1) rest

section

variable {π : Type*} [DecidableEq π]

/-- The copy loop touches nothing but its file. -/
theorem copyBody_of_ne (writes : Nat → Write) {p q : π} (hq : q ≠ p) (n offset : Nat)
    (disk : Disk π) (body : Body) :
    copyBody writes p n offset disk body q = disk q := by
  fun_induction copyBody writes p n offset disk body with
  | case1 | case2 => rfl
  | case3 n offset disk rest ih => exact ih
  | case4 n offset disk bytes rest stored disk' hok ih =>
      exact ih.trans (write_of_ne disk hq offset stored)
  | case5 n offset disk bytes rest stored disk' hok =>
      exact write_of_ne disk hq offset stored

theorem copyBody_of_succeeds (writes : Nat → Write) (p : π) (n : Nat) (disk : Disk π)
    (body : Body) (content : Bytes) (hfile : disk p = some (.file content))
    (h : Succeeds writes n body) :
    copyBody writes p n content.length disk body p =
      some (.file (content ++ dataOf body)) := by
  induction body generalizing n disk content with
  | nil => simpa [copyBody, dataOf] using hfile
  | cons item rest ih =>
      cases item with
      | error e => exact absurd h (by simp [Succeeds])
      | ok frame =>
          cases frame with
          | trailers => exact ih n disk content hfile h
          | data bytes =>
              obtain ⟨hok, hstored, hrest⟩ := h
              have htake : bytes.take (writes n).stored = bytes := List.take_of_length_le hstored
              have hwritten : write disk p content.length bytes p =
                  some (.file (content ++ bytes)) := by
                rw [write_file hfile, Function.update_self, writeAt_length]
              have := ih (n + 1) _ _ hwritten hrest
              rw [List.length_append] at this
              simp only [copyBody, htake, hok, if_true]
              rw [this, dataOf, List.append_assoc]

/-- Whatever is copied, the file stays one. -/
theorem copyBody_file (writes : Nat → Write) (p : π) (n offset : Nat) (disk : Disk π)
    (body : Body) (hfile : ∃ content, disk p = some (.file content)) :
    ∃ content, copyBody writes p n offset disk body p = some (.file content) := by
  have hwrite : ∀ (disk : Disk π) (offset : Nat) (bytes : Bytes),
      (∃ content, disk p = some (.file content)) →
        ∃ content, write disk p offset bytes p = some (.file content) := by
    rintro disk offset bytes ⟨content, hfile⟩
    exact ⟨writeAt content offset bytes, by rw [write_file hfile, Function.update_self]⟩
  fun_induction copyBody writes p n offset disk body with
  | case1 | case2 => exact hfile
  | case3 n offset disk rest ih => exact ih hfile
  | case4 n offset disk bytes rest stored disk' hok ih => exact ih (hwrite disk offset stored hfile)
  | case5 n offset disk bytes rest stored disk' hok => exact hwrite disk offset stored hfile

/-- The handler gets as far as the copy loop, for a file it created. -/
def Copies (locate : Text → π) (uuid : Text) (env : Env) (argument : Value)
    (disk : Disk π) (body : Body) : Prop :=
  ∃ dir filename, parseArguments argument = some (dir, filename) ∧
    (openFile env disk (locate (push dir (filename.getD (tempName uuid))))).isOk = true ∧
    env.connected = true ∧ env.response = some body

/-- What the browser is told is so: where the handler sends the success
message, the body ended without an error, every write succeeded and the file
holds the data of all its frames. -/
def Reliable (locate : Text → π) (describe : Files.Error → Text) (uuid : Text) (env : Env)
    (token : Text) (id : Nat) (argument : Value) (disk : Disk π) : Prop :=
  ∀ dir filename, parseArguments argument = some (dir, filename) →
    let temp := filename.getD (tempName uuid)
    let path := push dir temp
    let outcome := handleRequest locate describe uuid env token id argument disk
    outcome.sent = some (successMessage dir temp path) →
      ∃ body, env.response = some body ∧ Succeeds env.writes 0 body ∧
        outcome.disk (locate path) = some (.file (dataOf body))

theorem openFile_apply {env : Env} {disk disk' : Disk π} {p : π}
    (h : openFile env disk p = .ok disk') : disk' p = some (.file []) := by
  rw [openFile] at h
  split at h
  · exact absurd h (by simp)
  · exact create_apply h

theorem openFile_of_ne {env : Env} {disk disk' : Disk π} {p q : π}
    (h : openFile env disk p = .ok disk') (hq : q ≠ p) : disk' q = disk q := by
  rw [openFile] at h
  split at h
  · exact absurd h (by simp)
  · exact create_of_ne h hq

/-- A call with both arguments touches one path, and where that can be opened
leaves a file there. -/
theorem handleRequest_creates (locate : Text → π) (describe : Files.Error → Text) (uuid : Text)
    (env : Env) (token : Text) (id : Nat) (dir filename : Text) (disk : Disk π) :
    let path := push dir filename
    let outcome := handleRequest locate describe uuid env token id
      (.arr [.str dir, .str filename]) disk
    (∀ p, p ≠ locate path → outcome.disk p = disk p) ∧
      ∀ disk', openFile env disk (locate path) = .ok disk' →
        ∃ content, outcome.disk (locate path) = some (.file content) := by
  intro path outcome
  have hargs : parseArguments (.arr [.str dir, .str filename]) = some (dir, some filename) := rfl
  simp only [outcome, handleRequest, hargs, Option.getD_some]
  cases hfile : openFile env disk (locate path) with
  | error e =>
      refine ⟨fun p _ => ?_, fun disk' h => absurd h (by simp)⟩
      dsimp only
      split
      · split <;> rfl
      · rfl
  | ok opened =>
      have hcreated := openFile_apply hfile
      have hother := fun p => openFile_of_ne (q := p) hfile
      dsimp only
      split
      · split
        · exact ⟨hother, fun _ _ => ⟨[], hcreated⟩⟩
        · next body _ =>
            refine ⟨fun p hp => ?_, fun _ _ => copyBody_file _ _ _ _ _ _ ⟨[], hcreated⟩⟩
            exact (copyBody_of_ne _ hp _ _ _ _).trans (hother p hp)
      · exact ⟨hother, fun _ _ => ⟨[], hcreated⟩⟩

theorem succeeds_of_reliable {locate : Text → π} {describe : Files.Error → Text}
    {uuid : Text} {env : Env} {token : Text} {id : Nat} {argument : Value} {disk : Disk π}
    (h : Reliable locate describe uuid env token id argument disk) {body : Body}
    (hcopies : Copies locate uuid env argument disk body) : Succeeds env.writes 0 body := by
  obtain ⟨dir, filename, hargs, hopen, hconn, hresp⟩ := hcopies
  obtain ⟨disk', hdisk⟩ : ∃ disk', openFile env disk
      (locate (push dir (filename.getD (tempName uuid)))) = .ok disk' := by
    cases hfile : openFile env disk (locate (push dir (filename.getD (tempName uuid)))) with
    | ok disk' => exact ⟨disk', rfl⟩
    | error e =>
        rw [hfile] at hopen
        exact absurd hopen (by simp [Except.isOk, Except.toBool])
  obtain ⟨body', hresp', hsucc, -⟩ := h dir filename hargs
    (by simp [handleRequest, hargs, hdisk, hconn, hresp])
  rw [hresp] at hresp'
  exact Option.some.inj hresp' ▸ hsucc

theorem reliable_of_succeeds {locate : Text → π} {describe : Files.Error → Text}
    {uuid : Text} {env : Env} {token : Text} {id : Nat} {argument : Value} {disk : Disk π}
    (h : ∀ body, Copies locate uuid env argument disk body → Succeeds env.writes 0 body) :
    Reliable locate describe uuid env token id argument disk := by
  intro dir filename hargs temp path outcome hsent
  simp only [outcome, handleRequest, hargs] at hsent ⊢
  cases hfile : openFile env disk (locate path) with
  | error e =>
      -- The error message is computed but not sent.
      simp only [path, temp] at hfile
      simp only [hfile] at hsent
      revert hsent
      split
      · split <;> simp
      · simp
  | ok disk' =>
      have hopen := openFile_apply hfile
      simp only [path, temp] at hfile
      simp only [hfile] at hsent ⊢
      by_cases hconn : env.connected = true
      · cases hresp : env.response with
        | none => simp [hconn, hresp] at hsent
        | some body =>
            have hsucc := h body ⟨dir, filename, hargs, by rw [hfile]; rfl, hconn, hresp⟩
            refine ⟨body, rfl, hsucc, ?_⟩
            simp only [hconn, if_true]
            exact copyBody_of_succeeds env.writes (locate path) 0 disk' body [] hopen hsucc
      · simp [hconn] at hsent

/-- The success message is reliable exactly where there is no copy loop or the
loop leaves by the end of the body with every write behind it. -/
theorem upload_reliable_iff (locate : Text → π) (describe : Files.Error → Text)
    (uuid : Text) (env : Env) (token : Text) (id : Nat) (argument : Value) (disk : Disk π) :
    Reliable locate describe uuid env token id argument disk ↔
      ∀ body, Copies locate uuid env argument disk body → Succeeds env.writes 0 body :=
  ⟨fun h _ hcopies => succeeds_of_reliable h hcopies, reliable_of_succeeds⟩

/-- The browser goes away after half of the file. -/
def abortedEnv : Env where
  refusal := none
  connected := true
  response := some [.ok (.data [1, 2]), .error ()]
  writes _ := ⟨2, true⟩

theorem upload_not_reliable :
    ¬ Reliable id (fun _ => []) [] abortedEnv [] 0
      (.arr [.str (ofString "/tmp"), .str (ofString "f")]) (fun _ => none) := by
  intro h
  exact (succeeds_of_reliable h
    ⟨ofString "/tmp", some (ofString "f"), rfl, rfl, rfl, rfl⟩).2.2

end

end WebSshTool.Upload
