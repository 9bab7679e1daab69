import WebSshTool.Settings.Storage

/-!
# The sign-in page

`Content` with the storage under it. What `_submit` sends is what is in the two
fields when it is called, and what it writes after the answer goes by what the
storage says then. The answer of the server is the choice of the label; a promise
may also stay pending, or be rejected, after which nothing is written.

A step is one of some tab, up to its next `await`. It sees its own page and its own
submissions, and the storage that is the same for all.
-/

namespace WebSshTool.Settings

open Json (Text)

/-- `Content` while it is mounted. -/
structure Page where
  username : Text
  password : Text
  /-- Signed in, and the form is gone. -/
  auth : Bool
  loading : Bool
  deriving DecidableEq, Repr

/-- A call of `_submit` that waits for its answer. -/
structure Submission where
  username : Text
  password : Text
  /-- The page that made it. -/
  page : Nat
  /-- It was made by `componentDidMount`. -/
  auto : Bool
  deriving DecidableEq, Repr

/-- What a tab sees. -/
structure State where
  storage : Storage
  page : Option Page
  /-- How many pages it has mounted. The last is `page`, if that is still there. -/
  pages : Nat
  submissions : List Submission
  /-- What the server has accepted so far. -/
  accepted : List (Text × Text)

inductive Answer where
  | ok | error | rejected
  deriving DecidableEq, Repr

inductive Label where
  | mount
  | unmount
  /-- The whole document goes, and with it whatever waits for an answer. -/
  | reload
  | username (value : Text)
  | password (value : Text)
  | toggleRemember
  | submit
  | answer (k : Nat) (a : Answer)
  | logout
  /-- A setting that is no business of this page. -/
  | other (key : Key) (value : Option Text)
  deriving DecidableEq, Repr

/-- The keys `Content` does not read. -/
def Key.isOther : Key → Bool
  | .rememberPassword | .sshUserName | .sshPassword => false
  | _ => true

namespace State

/-- The form is there. -/
def form (s : State) : Option Page := s.page.filter fun page => !page.auth

/-- What `constructor` puts into the fields. -/
def fields (s : Storage) : Page where
  username := s.sshUserName.getD []
  password := if s.rememberPassword then s.sshPassword.getD [] else []
  auth := false
  loading := false

/-- `_submit` up to its `await`. -/
def submit (s : State) (auto : Bool) : State :=
  match s.form with
  | some page =>
      { s with
        page := some { page with loading := true }
        submissions := s.submissions ++ [⟨page.username, page.password, s.pages, auto⟩] }
  | none => s

/-- `componentDidMount`. -/
def didMount (s : State) : State :=
  let s :=
    if s.storage.rememberPassword ∧ s.storage.sshUserName ≠ none ∧
        s.storage.sshPassword ≠ none then s.submit true
    else s
  if s.storage.rememberPassword then s
  else { s with storage := s.storage.setSshPassword none }

/-- What `setState` does, which is nothing once the page is gone. -/
def setState (s : State) (page : Nat) (f : Page → Page) : State :=
  if page = s.pages then { s with page := s.page.map f } else s

/-- `_submit` after its `await`. -/
def signedIn (s : State) (submission : Submission) : State :=
  let storage := s.storage.setSshUserName (some submission.username)
  let storage :=
    if storage.rememberPassword then storage.setSshPassword (some submission.password)
    else storage
  { s with
    storage
    accepted := s.accepted ++ [(submission.username, submission.password)] }.setState
      submission.page fun page => { page with auth := true, loading := false }

/-- The checkbox. -/
def toggle (s : Storage) : Storage :=
  if s.rememberPassword then (s.setRememberPassword false).setSshPassword none
  else s.setRememberPassword true

def enabled (s : State) : Label → Prop
  | .mount => s.page = none
  | .unmount => s.page ≠ none
  | .reload => True
  | .username _ | .password _ | .toggleRemember | .submit => s.form ≠ none
  | .answer k _ => k < s.submissions.length
  | .logout => s.page ≠ none ∧ s.form = none
  | .other key _ => key.isOther = true

def next (s : State) : Label → State
  | .mount =>
      { s with page := some (fields s.storage), pages := s.pages + 1 }.didMount
  | .unmount => { s with page := none }
  | .reload => { s with page := none, submissions := [] }
  | .username value => { s with page := s.page.map fun page => { page with username := value } }
  | .password value => { s with page := s.page.map fun page => { page with password := value } }
  | .toggleRemember => { s with storage := toggle s.storage }
  | .submit => s.submit false
  | .answer k a =>
      match s.submissions[k]? with
      | some submission =>
          let s := { s with submissions := s.submissions.eraseIdx k }
          match a with
          | .ok => s.signedIn submission
          | .error =>
              s.setState submission.page fun page => { page with loading := false }
          | .rejected => s
      | none => s
  | .logout => { s with storage := s.storage.setRememberPassword false }
  | .other key value => { s with storage := s.storage.stringKeyCallback key value }

end State

/-! ## The tabs -/

structure Tab where
  page : Option Page
  pages : Nat
  submissions : List Submission

structure Browser where
  storage : Storage
  tabs : Nat → Tab
  /-- What the server has accepted so far. -/
  accepted : List (Text × Text)

namespace Browser

def init : Browser := ⟨fun _ => none, fun _ => ⟨none, 0, []⟩, []⟩

def see (b : Browser) (t : Nat) : State :=
  ⟨b.storage, (b.tabs t).page, (b.tabs t).pages, (b.tabs t).submissions, b.accepted⟩

/-- The browser when tab `t` sees `s`. -/
def put (b : Browser) (t : Nat) (s : State) : Browser where
  storage := s.storage
  tabs := Function.update b.tabs t ⟨s.page, s.pages, s.submissions⟩
  accepted := s.accepted

def enabled (b : Browser) (l : Nat × Label) : Prop := (b.see l.1).enabled l.2

def next (b : Browser) (l : Nat × Label) : Browser := b.put l.1 ((b.see l.1).next l.2)

end Browser

def machine : Machine Browser (Nat × Label) := ⟨Browser.init, Browser.enabled, Browser.next⟩

instance (s : State) (l : Label) : Decidable (s.enabled l) := by
  cases l <;> unfold State.enabled <;> infer_instance

instance (b : Browser) (l : Nat × Label) : Decidable (machine.enabled b l) :=
  inferInstanceAs (Decidable ((b.see l.1).enabled l.2))

end WebSshTool.Settings
