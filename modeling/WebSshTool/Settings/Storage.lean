import WebSshTool.Lib.Json
import WebSshTool.Lib.Machine

/-!
# What the page keeps in the browser

`Settings.Service` reads and writes `localStorage` and has no state of its own: a
setting is what the storage holds when it is asked for. The sign-in page starts from
the name and the password that are kept there, and signs in with them by itself if it
is to remember the password.

An attempt outlives the page that made it. The answer may come after the connection
is gone and the next page is there, and then it still writes what it was asked to
remember. A setting is written whole or not at all. All tabs have the one storage, and
in each of them one page is mounted at a time.
-/

namespace WebSshTool.Settings

open Json (Text ofString)

inductive Key where
  | locale | rememberPassword | sshUserName | sshPassword | lastPath | darkMode | textDecode
  | quickCommands | layout
  deriving DecidableEq, Repr

/-- The name of the item. -/
def Key.name : Key → Text
  | .locale => ofString "locale"
  | .rememberPassword => ofString "remember-password"
  | .sshUserName => ofString "ssh-user-name"
  | .sshPassword => ofString "ssh-password"
  | .lastPath => ofString "last-path"
  | .darkMode => ofString "dark-mode"
  | .textDecode => ofString "text-decode"
  | .quickCommands => ofString "quick-commands"
  | .layout => ofString "layout"

theorem Key.name_injective : Function.Injective Key.name := by
  intro k k' h
  cases k <;> cases k' <;> first | rfl | exact absurd h (by decide)

/-- `localStorage`. -/
abbrev Storage := Text → Option Text

namespace Storage

def getItem (s : Storage) (key : Key) : Option Text := s key.name

def setItem (s : Storage) (key : Key) (value : Text) : Storage :=
  Function.update s key.name (some value)

def removeItem (s : Storage) (key : Key) : Storage := Function.update s key.name none

/-- `_boolKeyCallback`. -/
def boolKeyCallback (s : Storage) (key : Key) (newValue : Bool) : Storage :=
  if newValue then s.setItem key [] else s.removeItem key

/-- `_stringKeyCallback`, for which the empty text is no value either. -/
def stringKeyCallback (s : Storage) (key : Key) : Option Text → Storage
  | none | some [] => s.removeItem key
  | some (u :: us) => s.setItem key (u :: us)

def rememberPassword (s : Storage) : Bool := (s.getItem .rememberPassword).isSome

def setRememberPassword (s : Storage) (newValue : Bool) : Storage :=
  s.boolKeyCallback .rememberPassword newValue

def sshUserName (s : Storage) : Option Text := s.getItem .sshUserName

def setSshUserName (s : Storage) (newValue : Option Text) : Storage :=
  s.stringKeyCallback .sshUserName newValue

def sshPassword (s : Storage) : Option Text := s.getItem .sshPassword

def setSshPassword (s : Storage) (newValue : Option Text) : Storage :=
  s.stringKeyCallback .sshPassword newValue

/-- A text that is kept is not empty. -/
def kept (value : Option Text) : Option Text := value.filter (· ≠ [])

theorem getItem_setItem (s : Storage) (key key' : Key) (value : Text) :
    (s.setItem key value).getItem key' = if key' = key then some value else s.getItem key' := by
  simp only [getItem, setItem, Function.update_apply, Key.name_injective.eq_iff]

theorem getItem_removeItem (s : Storage) (key key' : Key) :
    (s.removeItem key).getItem key' = if key' = key then none else s.getItem key' := by
  simp only [getItem, removeItem, Function.update_apply, Key.name_injective.eq_iff]

theorem getItem_boolKeyCallback (s : Storage) (key key' : Key) (newValue : Bool) :
    (s.boolKeyCallback key newValue).getItem key' =
      if key' = key then (if newValue then some [] else none) else s.getItem key' := by
  unfold boolKeyCallback
  split
  · exact getItem_setItem ..
  · exact getItem_removeItem ..

theorem getItem_stringKeyCallback (s : Storage) (key key' : Key) (newValue : Option Text) :
    (s.stringKeyCallback key newValue).getItem key' =
      if key' = key then kept newValue else s.getItem key' := by
  unfold stringKeyCallback
  split
  · exact getItem_removeItem ..
  · exact getItem_removeItem ..
  · exact getItem_setItem ..

/-! ## What one setting makes of another -/

@[simp] theorem rememberPassword_setRememberPassword (s : Storage) (newValue : Bool) :
    (s.setRememberPassword newValue).rememberPassword = newValue := by
  cases newValue <;>
    simp [rememberPassword, setRememberPassword, getItem_boolKeyCallback]

@[simp] theorem sshUserName_setRememberPassword (s : Storage) (newValue : Bool) :
    (s.setRememberPassword newValue).sshUserName = s.sshUserName := by
  simp [sshUserName, setRememberPassword, getItem_boolKeyCallback]

@[simp] theorem sshPassword_setRememberPassword (s : Storage) (newValue : Bool) :
    (s.setRememberPassword newValue).sshPassword = s.sshPassword := by
  simp [sshPassword, setRememberPassword, getItem_boolKeyCallback]

@[simp] theorem rememberPassword_setSshUserName (s : Storage) (newValue : Option Text) :
    (s.setSshUserName newValue).rememberPassword = s.rememberPassword := by
  simp [rememberPassword, setSshUserName, getItem_stringKeyCallback]

@[simp] theorem sshUserName_setSshUserName (s : Storage) (newValue : Option Text) :
    (s.setSshUserName newValue).sshUserName = kept newValue := by
  simp [sshUserName, setSshUserName, getItem_stringKeyCallback]

@[simp] theorem sshPassword_setSshUserName (s : Storage) (newValue : Option Text) :
    (s.setSshUserName newValue).sshPassword = s.sshPassword := by
  simp [sshPassword, setSshUserName, getItem_stringKeyCallback]

@[simp] theorem rememberPassword_setSshPassword (s : Storage) (newValue : Option Text) :
    (s.setSshPassword newValue).rememberPassword = s.rememberPassword := by
  simp [rememberPassword, setSshPassword, getItem_stringKeyCallback]

@[simp] theorem sshUserName_setSshPassword (s : Storage) (newValue : Option Text) :
    (s.setSshPassword newValue).sshUserName = s.sshUserName := by
  simp [sshUserName, setSshPassword, getItem_stringKeyCallback]

theorem sshPassword_setSshPassword (s : Storage) (newValue : Option Text) :
    (s.setSshPassword newValue).sshPassword = kept newValue := by
  simp [sshPassword, setSshPassword, getItem_stringKeyCallback]

theorem sshPassword_remove (s : Storage) : (s.setSshPassword none).sshPassword = none :=
  sshPassword_setSshPassword s none

theorem of_kept {value : Option Text} {t : Text} (h : kept value = some t) : value = some t :=
  (Option.filter_eq_some_iff.mp h).1

end Storage

end WebSshTool.Settings
