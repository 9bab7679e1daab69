import WebSshTool.Lib.JsonRoundTrip
import WebSshTool.Upload.Handler

/-!
# An upload and the placeholder under it

A run of `_upload` in which nothing fails, composed of the browser's side and
the handler of the internal client. Posting to the target truncates it, so a
direct upload leaves exactly the file. In compress mode the post goes to a
temp file and `unzip` writes over the placeholder without truncating: where
the file is shorter, the rest of the placeholder's text stays behind it.
-/

namespace WebSshTool.Upload

open Json Files

section

variable {π : Type*} [DecidableEq π]

/-- What `on_upload` passes on as the argument of the call. -/
def uploadArgument (dir : Text) (filename : Option Text) : Value :=
  match filename with
  | some filename => .arr [.str dir, .str filename]
  | none => .arr [.str dir]

/-- The POST, answered by the handler of the internal client. -/
def postTo (locate : Text → π) (describe : Files.Error → Text) (uuid : Text)
    (env : Bytes → Env) (token : Text) (id : Nat) (dest : Dest) : Post π :=
  fun filename data disk =>
    let outcome := handleRequest locate describe uuid (env data) token id
      (uploadArgument dest.path filename) disk
    (outcome.sent, outcome.disk)

/-- Nothing goes wrong on the way: the operating system and the master have no
objections, the posted bytes arrive in some frames and every write succeeds. -/
structure Smooth (env : Env) (posted : Bytes) : Prop where
  refusal : env.refusal = none
  connected : env.connected = true
  body : ∃ body, env.response = some body ∧ Succeeds env.writes 0 body ∧
    dataOf body = posted

/-- Where nothing goes wrong the handler stores what was posted and says so. -/
theorem handleRequest_smooth (locate : Text → π) (describe : Files.Error → Text)
    (uuid : Text) {env : Env} {posted : Bytes} (h : Smooth env posted) (token : Text)
    (id : Nat) (dir : Text) (filename : Option Text) (disk : Disk π)
    (hfile : disk (locate (push dir (filename.getD (tempName uuid)))) ≠ some .directory) :
    let temp := filename.getD (tempName uuid)
    let path := push dir temp
    let outcome := handleRequest locate describe uuid env token id
      (uploadArgument dir filename) disk
    outcome.sent = some (successMessage dir temp path) ∧
      outcome.disk (locate path) = some (.file posted) ∧
      ∀ p, p ≠ locate path → outcome.disk p = disk p := by
  intro temp path outcome
  obtain ⟨body, hresp, hsucc, hdata⟩ := h.body
  have hargs : parseArguments (uploadArgument dir filename) = some (dir, filename) := by
    cases filename <;> rfl
  have hdisk : openFile env disk (locate path) =
      .ok (Function.update disk (locate path) (some (.file []))) := by
    rw [openFile, h.refusal]
    exact create_ok hfile
  have hopen := openFile_apply hdisk
  simp only [path, temp] at hdisk
  simp only [outcome, handleRequest, hargs, hdisk, h.connected, hresp, if_true]
  refine ⟨rfl, ?_, fun p hp => ?_⟩
  · rw [← hdata]
    exact copyBody_of_succeeds env.writes (locate path) 0 _ body [] hopen hsucc
  · exact (copyBody_of_ne env.writes hp 0 0 _ body).trans (Function.update_of_ne hp ..)

/-- The browser reads the temp file's path off the success message. -/
theorem pathOf_successMessage (dir temp path : Text) :
    (parse (successMessage dir temp path)).bind pathOf = some (.str path) := by
  rw [successMessage, parse_print]
  simp [pathOf, Value.get?]

/-- Everything a run of `_upload` depends on. -/
structure Scene (π : Type*) where
  locate : Text → π
  describe : Files.Error → Text
  uuid : Text
  env : Bytes → Env
  token : Text
  id : Nat
  compress : Bytes → Option Bytes
  gunzip : Bytes → List Bytes × Bool
  dest : Dest
  name : Text
  content : Bytes
  disk : Disk π

namespace Scene

variable (x : Scene π)

def target : π := x.locate (push x.dest.path x.name)

def temp : π := x.locate (push x.dest.path (tempName x.uuid))

def post : Post π := postTo x.locate x.describe x.uuid x.env x.token x.id x.dest

def run (uploadCompress : Bool) : Run π :=
  upload x.locate x.compress x.gunzip x.post uploadCompress x.dest x.name x.content x.disk

/-- No failure and no other writer: every post goes through, gunzip undoes
gzip, and neither the target nor the temp file is there yet. -/
structure Undisturbed : Prop where
  smooth : ∀ data, Smooth (x.env data) data
  gzip : ∃ compressed, x.compress x.content = some compressed ∧
    (x.gunzip compressed).2 = true ∧ (x.gunzip compressed).1.flatten = x.content
  temp_ne : x.temp ≠ x.target
  target_free : x.disk x.target = none
  temp_free : x.disk x.temp = none

/-- The disk once the placeholder is there. -/
def placed : Disk π :=
  Function.update x.disk x.target (some (.file (utf8 placeholder)))

variable {x}

theorem fsWriteFile_placed (h : x.Undisturbed) :
    fsWriteFile x.locate (.arr [.arr (targetLike x.dest x.name), .str placeholder]) x.disk =
      .ok x.placed :=
  fsWriteFile_fresh placeholder (pathLikeToPath_targetLike x.dest x.name) h.target_free

/-- A direct upload over the placeholder leaves exactly the file. -/
theorem run_direct (h : x.Undisturbed) :
    (x.run false).state = .completed ∧
      (x.run false).disk x.target = some (.file x.content) ∧
      (x.run false).disk x.temp = none := by
  obtain ⟨hsent, hstored, hother⟩ := handleRequest_smooth x.locate x.describe x.uuid
    (h.smooth x.content) x.token x.id x.dest.path (some x.name) x.placed
    (by simp [placed, target])
  simp only [Option.getD_some] at hsent hstored hother
  simp only [run, upload, fsWriteFile_placed h, Bool.false_eq_true, if_false, uploadDirect,
    authUpload, post, postTo, hsent, successMessage, parse_print]
  refine ⟨trivial, hstored, ?_⟩
  exact (hother _ h.temp_ne).trans ((Function.update_of_ne h.temp_ne ..).trans h.temp_free)

/-- A compressed upload writes the file over the placeholder. -/
theorem run_compressed (h : x.Undisturbed) :
    (x.run true).state = .completed ∧
      (x.run true).disk x.target =
        some (.file (writeAt (utf8 placeholder) 0 x.content)) ∧
      (x.run true).disk x.temp = none := by
  obtain ⟨compressed, hcompress, hok, hflat⟩ := h.gzip
  have hfree : x.placed x.temp = none :=
    (Function.update_of_ne h.temp_ne ..).trans h.temp_free
  obtain ⟨hsent, hstored, hother⟩ := handleRequest_smooth x.locate x.describe x.uuid
    (h.smooth compressed) x.token x.id x.dest.path none x.placed
    (fun hdir => Option.some_ne_none _ (hdir.symm.trans hfree))
  simp only [Option.getD_none] at hsent hstored hother
  have hpath := pathOf_successMessage x.dest.path (tempName x.uuid)
    (push x.dest.path (tempName x.uuid))
  rw [successMessage, parse_print, Option.bind_some] at hpath
  obtain ⟨disk', hunzip, hdest, hrest⟩ := internalUnzip_over hstored
    ((hother x.target h.temp_ne.symm).trans (Function.update_self ..)) hok
  have hleft := fsUnlink_file ((hrest _ h.temp_ne).trans hstored)
  simp only [target] at hunzip
  simp only [run, upload, fsWriteFile_placed h, if_true, uploadCompressed, hcompress,
    authUpload, post, postTo, hsent, successMessage, parse_print, hpath, unzip,
    pathLikeToPath_targetLike, hunzip, hleft]
  refine ⟨trivial, ?_, Function.update_self ..⟩
  exact (Function.update_of_ne h.temp_ne.symm ..).trans (by rw [hdest, hflat])

/-- A run of `_upload` in which nothing fails completes and leaves no temp
file, and the target holds exactly the file if and only if it was uploaded
directly or is at least as long as the placeholder. -/
theorem upload_roundTrip_iff (h : x.Undisturbed) (uploadCompress : Bool) :
    (x.run uploadCompress).state = .completed ∧
      (x.run uploadCompress).disk x.temp = none ∧
      ((x.run uploadCompress).disk x.target = some (.file x.content) ↔
        uploadCompress = false ∨ (utf8 placeholder).length ≤ x.content.length) := by
  cases uploadCompress with
  | false =>
      obtain ⟨hstate, hstored, hleft⟩ := run_direct h
      exact ⟨hstate, hleft, iff_of_true hstored (.inl rfl)⟩
  | true =>
      obtain ⟨hstate, hstored, hleft⟩ := run_compressed h
      refine ⟨hstate, hleft, ?_⟩
      rw [hstored, Option.some.injEq, Node.file.injEq, writeAt_zero_eq_iff]
      simp

end Scene

/-- The body arrives in one frame. -/
def wholeEnv (data : Bytes) : Env where
  refusal := none
  connected := true
  response := some [.ok (.data data)]
  writes _ := ⟨data.length, true⟩

theorem wholeEnv_smooth (data : Bytes) : Smooth (wholeEnv data) data where
  refusal := rfl
  connected := rfl
  body := ⟨_, rfl, ⟨rfl, le_rfl, trivial⟩, List.append_nil data⟩

/-- One file to `/tmp` on an empty disk, with what gzip makes of it. -/
def oneFile (content compressed : Bytes) : Scene Text where
  locate t := t
  describe _ := []
  uuid := ofString "0"
  env := wholeEnv
  token := []
  id := 0
  compress _ := some compressed
  gunzip _ := ([content], true)
  dest := ⟨ofString "/tmp", []⟩
  name := ofString "f"
  content := content
  disk _ := none

theorem oneFile_undisturbed (content compressed : Bytes) :
    (oneFile content compressed).Undisturbed where
  smooth := wholeEnv_smooth
  gzip := ⟨compressed, rfl, rfl, List.append_nil content⟩
  temp_ne := show push (Dest.path ⟨ofString "/tmp", []⟩) (tempName (ofString "0")) ≠
    push (Dest.path ⟨ofString "/tmp", []⟩) (ofString "f") by decide
  target_free := rfl
  temp_free := rfl

/-- Eighty times the letter a. -/
def longFile : Scene Text := oneFile (List.replicate 80 97)
  [31, 139, 8, 0, 0, 0, 0, 0, 2, 3, 75, 76, 164, 46, 0, 0, 125, 141, 153, 26, 80, 0, 0, 0]

theorem longFile_undisturbed : longFile.Undisturbed := oneFile_undisturbed _ _

theorem upload_roundTrip_long :
    (longFile.run true).disk longFile.target = some (.file longFile.content) :=
  (Scene.upload_roundTrip_iff longFile_undisturbed true).2.2.mpr (.inr (by decide))

/-- The letters h and i. -/
def shortFile : Scene Text := oneFile [104, 105]
  [31, 139, 8, 0, 0, 0, 0, 0, 2, 3, 203, 200, 4, 0, 172, 42, 147, 216, 2, 0, 0, 0]

theorem shortFile_undisturbed : shortFile.Undisturbed := oneFile_undisturbed _ _

theorem upload_keeps_placeholder :
    (shortFile.run true).disk shortFile.target ≠ some (.file shortFile.content) := by
  have hstored := (Scene.run_compressed shortFile_undisturbed).2.1
  rw [hstored, Ne, Option.some.injEq, Node.file.injEq, writeAt_zero_eq_iff]
  decide

end

end WebSshTool.Upload
