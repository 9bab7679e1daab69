import WebSshTool.Watch.Listing
import WebSshTool.Watch.Navigation

/-!
# What a report says

The steps of a `MyWatcher` with the events they send. A report on a path is either what
`object_to_json` makes of it or an error, and both name the path, so that the browser knows
where it is; the event of `close` names nothing.
-/

namespace WebSshTool.Watch

open Json

variable {π ν : Type*}

/-! ## The reports of a step -/

/-- What a step sends, if the channel takes it. -/
def reportOf (s : State π) : Label π → Option (Report π)
  | .introduced ok described true | .reported _ ok described true =>
      some (bif ok && described then .data s.currentPath else .error s.currentPath)
  | .handled n described true =>
      some (bif n == .event && described then .data s.currentPath else .error s.currentPath)
  | .closeSent _ true => some .close
  | _ => none

theorem emit_emitted (s : State π) (described taken : Bool) :
    (s.emit described taken).emitted = s.emitted ++
      (bif taken then [bif described then .data s.currentPath else .error s.currentPath]
        else []) := by
  cases taken with
  | false => exact (List.append_nil _).symm
  | true => rfl

theorem next_emitted [DecidableEq π] (parent : π → Option π) (s : State π) (l : Label π) :
    (next parent s l).emitted = s.emitted ++ (reportOf s l).toList := by
  have hquiet : s.emitted = s.emitted ++ [] := (List.append_nil _).symm
  cases l with
  | introduced ok d taken | handled n d taken =>
      refine (emit_emitted ..).trans ?_
      cases taken <;> rfl
  | reported r ok d taken =>
      refine (emit_emitted ..).trans ?_
      cases taken <;> rfl
  | closeSent r taken =>
      cases taken with
      | false => exact hquiet
      | true => rfl
  | lock r act => exact (lock_keeps parent s r act).2.2.1.trans hquiet
  | unwatched r target => cases target <;> exact hquiet
  | notify | sent | opened | pop | stop | pollLock | request | answered => exact hquiet

/-! ## Their data -/

section

variable (fs : FileSystem π ν) (id err : Text)

/-- The `data` of the event: `fs` is the file system as it answers, and `err` is what was
reported where it was an error. `none` where there is no such event. -/
def Report.data? : Report π → Option Value
  | .data path =>
      ((handleOnChange fs ⟨id, path⟩).bind fun event => event.get? (ofString "data")).filter
        fun v => (v.get? (ofString "error")).isNone
  | .error path => (sendError fs ⟨id, path⟩ err).get? (ofString "data")
  | .close => some (.obj [(ofString "close", .obj [])])

end

/-- The data is about the path of the report, whose text may be missing. -/
def Tells (toStr : π → Option Text) : Report π → Value → Prop
  | .data path, v => v.get? (ofString "path") = (toStr path).map .str ∧
      v.get? (ofString "error") = none ∧ v.get? (ofString "close") = none
  | .error path, v => v.get? (ofString "path") = some ((toStr path).elim .null .str) ∧
      (∃ err, v.get? (ofString "error") = some (.str err)) ∧ v.get? (ofString "close") = none
  | .close, v => (v.get? (ofString "close")).isSome = true

section

variable {fs : FileSystem π ν}

variable (fs) in
/-- The members of the data of an error. -/
def errorFields (path : π) (err : Text) : List (Text × Option Value) :=
  [(ofString "path", some ((fs.pathToStr path).elim .null .str)),
    (ofString "error", some (.str err))]

theorem data_sendError (w : MyWatcher π) (err : Text) :
    (sendError fs w err).get? (ofString "data") =
      some (object (errorFields fs w.currentPath err)) :=
  get?_object (by simp only [List.map_cons, List.map_nil]; decide)
    (f := (ofString "data", some (object (errorFields fs w.currentPath err))))
    (by simp [errorFields])

variable (fs) in
theorem tells_error (path : π) (err : Text) :
    Tells fs.pathToStr (.error path) (object (errorFields fs path err)) := by
  have hnodup : ((errorFields fs path err).map Prod.fst).Nodup := by
    simp only [errorFields, List.map_cons, List.map_nil]
    decide
  refine ⟨get?_object hnodup (f := (ofString "path", _)) (List.mem_cons_self ..), ⟨err, ?_⟩, ?_⟩
  · exact get?_object hnodup (f := (ofString "error", _))
      (List.mem_cons_of_mem _ (List.mem_singleton_self _))
  · refine get?_object_absent hnodup ?_
    simp only [errorFields, List.map_cons, List.map_nil]
    decide

theorem tells_object {fileName : Option Text} {path : π} {entries : Option (List (Text × Value))}
    {v : Value} (h : objectToJson fs fileName path entries true = some (.ok v)) :
    Tells fs.pathToStr (.data path) v := by
  obtain ⟨data, created, accessed, modified, -, -, -, -, rfl⟩ := objectToJson_eq h
  have hnodup := nodup_fields fs fileName path entries true data created accessed modified
  refine ⟨?_, ?_, ?_⟩
  · exact get?_object hnodup (f := (ofString "path", (fs.pathToStr path).map .str))
      (by simp [fields])
  all_goals
    refine get?_object_absent hnodup ?_
    simp only [fields, List.map_cons, List.map_nil]
    decide

/-- What `handle_on_change` sends. -/
theorem handleOnChange_cases {w : MyWatcher π} {event : Value}
    (h : handleOnChange fs w = some event) :
    (∃ err, event = sendError fs w err) ∨ ∃ fileName entries v,
      objectToJson fs fileName w.currentPath entries true = some (.ok v) ∧
        event = sendJson w v := by
  have hsend : ∀ {fileName entries}, (objectToJson fs fileName w.currentPath entries true).map
      (send fs w) = some event → (∃ err, event = sendError fs w err) ∨ ∃ fileName entries v,
        objectToJson fs fileName w.currentPath entries true = some (.ok v) ∧
          event = sendJson w v := by
    intro fileName entries hsent
    obtain ⟨r, hr, rfl⟩ := Option.map_eq_some_iff.mp hsent
    cases r with
    | error err => exact .inl ⟨err, rfl⟩
    | ok v => exact .inr ⟨fileName, entries, v, hr, rfl⟩
  rw [handleOnChange_eq] at h
  split at h
  · exact .inl ⟨_, (Option.some.inj h).symm⟩
  · split at h
    · unfold handleDirOnChange at h
      split at h
      · exact .inl ⟨_, (Option.some.inj h).symm⟩
      · obtain ⟨ms, -, hrest⟩ := Option.bind_eq_some_iff.mp h
        exact hsend hrest
    · split at h
      · exact hsend h
      · exact .inl ⟨_, (Option.some.inj h).symm⟩

/-- A report says which path it is about. -/
theorem tells_data {r : Report π} {id err : Text} {v : Value} (h : r.data? fs id err = some v) :
    Tells fs.pathToStr r v := by
  cases r with
  | data path =>
      obtain ⟨hevent, hno⟩ := Option.filter_eq_some_iff.mp h
      obtain ⟨event, hevent, hdata⟩ := Option.bind_eq_some_iff.mp hevent
      rcases handleOnChange_cases hevent with ⟨err, rfl⟩ | ⟨fileName, entries, u, hu, rfl⟩
      · rw [data_sendError] at hdata
        obtain ⟨-, ⟨err', herr⟩, -⟩ := tells_error fs path err
        rw [← Option.some.inj hdata, herr] at hno
        cases hno
      · rw [data_sendJson] at hdata
        rw [← Option.some.inj hdata]
        exact tells_object hu
  | error path =>
      rw [Report.data?, data_sendError] at h
      rw [← Option.some.inj h]
      exact tells_error fs path err
  | close =>
      rw [← Option.some.inj h]
      rfl

end

end WebSshTool.Watch
