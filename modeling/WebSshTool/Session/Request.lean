import WebSshTool.Lib.Json

/-!
# What a browser's request asks for

`build_response` looks at the members of a request in the order of their names
and acts on the first that is not called "internal". Two names it serves
itself, every other one is a call for the internal client.
-/

namespace WebSshTool.Session

open Json

inductive Call where
  | shell (argument : Value)
  | token
  | forward (key : Text) (argument : Value)
  | unknown

/-- The loop of `build_response`. -/
def Call.ofMembers : List (Text × Value) → Call
  | [] => .unknown
  | (key, value) :: rest =>
      if key = ofString "internal" then ofMembers rest
      else if key = ofString "shell" then .shell value
      else if key = ofString "token" then .token
      else .forward key value

def Call.ofRequest : Option Value → Call
  | some request => .ofMembers request.entries
  | none => .unknown

theorem Call.ofMembers_ne_internal {members : List (Text × Value)} {key : Text}
    {value : Value} (h : ofMembers members = .forward key value) :
    key ≠ ofString "internal" := by
  induction members with
  | nil => simp [ofMembers] at h
  | cons m rest ih =>
      rw [ofMembers] at h
      split at h
      · exact ih h
      · next hne =>
          split at h
          · simp at h
          · split at h
            · simp at h
            · obtain ⟨rfl, -⟩ : m.1 = key ∧ m.2 = value := by simpa using h
              exact hne

/-- A browser cannot make the call that is the server's own. -/
theorem Call.ofRequest_ne_internal {request : Option Value} {key : Text} {value : Value}
    (h : ofRequest request = .forward key value) : key ≠ ofString "internal" := by
  cases request with
  | none => simp [ofRequest] at h
  | some r => exact ofMembers_ne_internal h

end WebSshTool.Session
