import WebSshTool.Settings.SignInPage

/-!
# Which passwords are kept

A password gets into the storage with an answer that accepts it, and only while the
box is ticked. It goes with the tick, with one exception: `logout` takes the tick
away and leaves the password, and it is the next page that removes it. That is one page
too late for a form that another tab shows meanwhile. Where no logout meets one, the
storage holds no password that is not to be remembered as long as there is a form
anywhere, and since the box can be ticked in a form alone, what a page signs in with by
itself is a name and a password that the server has accepted together.
-/

namespace WebSshTool.Settings

open Json (Text ofString)

/-! ## One tab -/

namespace State

variable {s : State} {l : Label} {others : Prop}

/-- What is kept, and what is sent unasked. Whether `others` show a form is not for this
tab to say. -/
structure Remembers (others : Prop) (s : State) : Prop where
  unticked : s.form ≠ none ∨ others → s.storage.rememberPassword = false →
    s.storage.sshPassword = none
  together : s.storage.rememberPassword = true → ∀ username password,
    s.storage.sshUserName = some username → s.storage.sshPassword = some password →
      (username, password) ∈ s.accepted
  auto : ∀ x ∈ s.submissions, x.auto = true → (x.username, x.password) ∈ s.accepted

/-- A step that writes nothing, sends nothing and shows no form that was not there. -/
theorem Remembers.frame (h : Remembers others s) {s' : State} (hstorage : s'.storage = s.storage)
    (haccepted : s'.accepted = s.accepted) (hform : s'.form ≠ none → s.form ≠ none)
    (hsubmissions : ∀ x ∈ s'.submissions, x ∈ s.submissions ∨ x.auto = false) :
    Remembers others s' where
  unticked hf := hstorage ▸ h.unticked (hf.imp_left hform)
  together := by
    rw [hstorage, haccepted]
    exact h.together
  auto x hx hauto := by
    rw [haccepted]
    exact h.auto x ((hsubmissions x hx).resolve_right (by simp [hauto])) hauto

theorem form_map (f : Page → Page) (hf : ∀ page, (f page).auth = page.auth) :
    ({ s with page := s.page.map f } : State).form ≠ none → s.form ≠ none := by
  simp only [form]
  cases s.page with
  | none => exact fun h => h
  | some page => simp [Option.filter_some, hf]

theorem form_setState (page : Nat) (f : Page → Page)
    (hf : ∀ page, (f page).auth = true ∨ (f page).auth = page.auth) :
    (s.setState page f).form ≠ none → s.form ≠ none := by
  unfold setState
  split
  · simp only [form]
    cases s.page with
    | none => exact fun h => h
    | some page =>
        rcases hf page with hp | hp <;> simp [Option.filter_some, hp]
  · exact fun h => h

theorem Remembers.setState (h : Remembers others s) (page : Nat) (f : Page → Page)
    (hf : ∀ page, (f page).auth = true ∨ (f page).auth = page.auth) :
    Remembers others (s.setState page f) := by
  have hform := form_setState (s := s) page f hf
  unfold State.setState at hform ⊢
  split at hform
  · next hpage =>
      rw [if_pos hpage]
      exact h.frame rfl rfl hform fun _ hx => .inl hx
  · next hpage => rwa [if_neg hpage]

theorem submit_cases (auto : Bool) : s.submit auto = s ∨
    ∃ page, s.form = some page ∧
      s.submit auto = { s with
        page := some { page with loading := true }
        submissions := s.submissions ++ [⟨page.username, page.password, s.pages, auto⟩] } := by
  unfold submit
  cases s.form with
  | none => exact .inl rfl
  | some page => exact .inr ⟨page, rfl, rfl⟩

theorem Remembers.submit (h : Remembers others s) : Remembers others (s.submit false) := by
  rcases submit_cases (s := s) false with hsame | ⟨page, hform, hnew⟩
  · rwa [hsame]
  · rw [hnew]
    refine h.frame rfl rfl (fun _ => by simp [hform]) fun x hx => ?_
    exact (List.mem_append.mp hx).imp_right fun hx => by rw [List.mem_singleton.mp hx]

/-- The page signs in with what it has just read from the storage. -/
theorem Remembers.mount (h : Remembers others s) : Remembers others (s.next .mount) := by
  simp only [State.next, didMount]
  by_cases hkept : s.storage.rememberPassword = true ∧ s.storage.sshUserName ≠ none ∧
      s.storage.sshPassword ≠ none
  · obtain ⟨hticked, husername, hpassword⟩ := hkept
    obtain ⟨username, husername⟩ := Option.ne_none_iff_exists'.mp husername
    obtain ⟨password, hpassword⟩ := Option.ne_none_iff_exists'.mp hpassword
    have hpair := h.together hticked _ _ husername hpassword
    simp only [hticked, husername, hpassword, ne_eq, reduceCtorEq, not_false_eq_true, and_self,
      if_true, State.submit, form, fields, Option.filter_some, Bool.not_false, Option.getD_some]
    exact {
      unticked := fun _ hf => absurd (hticked.symm.trans hf) (by simp)
      together := h.together
      auto := fun x hx hauto => by
        rcases List.mem_append.mp hx with hx | hx
        · exact h.auto x hx hauto
        · rw [List.mem_singleton.mp hx]
          exact hpair }
  · rw [if_neg hkept]
    rcases Bool.eq_false_or_eq_true s.storage.rememberPassword with hticked | hticked
    · rw [if_pos hticked]
      exact { h with unticked := fun _ hf => absurd (hticked.symm.trans hf) (by simp) }
    · rw [if_neg (by simp [hticked])]
      exact {
        unticked := fun _ _ => Storage.sshPassword_remove _
        together := fun hf => absurd hf (by simp [hticked])
        auto := h.auto }

/-- The answer is remembered by what the storage says now. -/
theorem Remembers.signedIn (h : Remembers others s) (x : Submission) :
    Remembers others (s.signedIn x) := by
  have hmem {pair : Text × Text} (hp : pair ∈ s.accepted) :
      pair ∈ s.accepted ++ [(x.username, x.password)] := List.mem_append_left _ hp
  have hnew : (x.username, x.password) ∈ s.accepted ++ [(x.username, x.password)] :=
    List.mem_append_right _ (List.mem_singleton_self _)
  refine Remembers.setState ?_ x.page _ fun _ => .inl rfl
  simp only [Storage.rememberPassword_setSshUserName]
  rcases Bool.eq_false_or_eq_true s.storage.rememberPassword with hticked | hticked
  · rw [if_pos hticked]
    exact {
      unticked := fun _ hf => absurd hf (by simp [hticked])
      together := fun _ username password hu hp => by
        simp only [Storage.sshUserName_setSshPassword, Storage.sshUserName_setSshUserName,
          Storage.sshPassword_setSshPassword] at hu hp
        obtain rfl := Option.some.inj (Storage.of_kept hu)
        obtain rfl := Option.some.inj (Storage.of_kept hp)
        exact hnew
      auto := fun y hy hauto => hmem (h.auto y hy hauto) }
  · rw [if_neg (by simp [hticked])]
    exact {
      unticked := fun hf _ => (Storage.sshPassword_setSshUserName ..).trans
        (h.unticked hf hticked)
      together := fun hf => absurd hf (by simp [hticked])
      auto := fun y hy hauto => hmem (h.auto y hy hauto) }

theorem Remembers.toggle (h : Remembers others s) (hform : s.form ≠ none) :
    Remembers others { s with storage := toggle s.storage } := by
  unfold State.toggle
  rcases Bool.eq_false_or_eq_true s.storage.rememberPassword with hticked | hticked
  · rw [if_pos hticked]
    exact {
      unticked := fun _ _ => Storage.sshPassword_remove _
      together := fun hf => absurd hf (by simp)
      auto := h.auto }
  · rw [if_neg (by simp [hticked])]
    have hnone := h.unticked (.inl hform) hticked
    exact {
      unticked := fun _ hf => absurd hf (by simp)
      together := fun _ _ _ _ hp => absurd hp (by simp [hnone])
      auto := h.auto }

/-- `logout` leaves the password where it is, but there is no form. -/
theorem Remembers.logout (h : Remembers others s) (hform : s.form = none) (hothers : ¬ others) :
    Remembers others { s with storage := s.storage.setRememberPassword false } where
  unticked hf := hf.elim (fun hf => absurd hform hf) fun ho => absurd ho hothers
  together hf := absurd hf (by simp)
  auto := h.auto

/-- A setting of other pages is none of this one's. -/
theorem getItem_other (storage : Storage) {key k : Key} (hkey : key.isOther = true)
    (hk : k.isOther = false) (value : Option Text) :
    (storage.stringKeyCallback key value).getItem k = storage.getItem k := by
  rw [Storage.getItem_stringKeyCallback, if_neg]
  rintro rfl
  exact absurd (hkey.symm.trans hk) (by simp)

theorem Remembers.other (h : Remembers others s) {key : Key} (hkey : key.isOther = true)
    (value : Option Text) :
    Remembers others { s with storage := s.storage.stringKeyCallback key value } := by
  have hremember : (s.storage.stringKeyCallback key value).rememberPassword =
      s.storage.rememberPassword :=
    congrArg Option.isSome (getItem_other s.storage (k := .rememberPassword) hkey rfl value)
  have husername : (s.storage.stringKeyCallback key value).sshUserName = s.storage.sshUserName :=
    getItem_other s.storage (k := .sshUserName) hkey rfl value
  have hpassword : (s.storage.stringKeyCallback key value).sshPassword = s.storage.sshPassword :=
    getItem_other s.storage (k := .sshPassword) hkey rfl value
  exact {
    unticked := fun hf hticked => hpassword.trans (h.unticked hf (hremember ▸ hticked))
    together := fun hticked username password hu hp =>
      h.together (hremember ▸ hticked) username password (husername ▸ hu) (hpassword ▸ hp)
    auto := h.auto }

theorem Remembers.answer (h : Remembers others s) (k : Nat) (a : Answer) :
    Remembers others (s.next (.answer k a)) := by
  simp only [State.next]
  split
  · next submission _ =>
      have hrest : Remembers others { s with submissions := s.submissions.eraseIdx k } :=
        h.frame rfl rfl (fun hf => hf) fun _ hx => .inl (List.mem_of_mem_eraseIdx hx)
      cases a with
      | ok => exact hrest.signedIn submission
      | error => exact hrest.setState _ _ fun _ => .inr rfl
      | rejected => exact hrest
  · exact h

theorem Remembers.next (h : Remembers others s) (hen : s.enabled l)
    (hlogout : l = .logout → ¬ others) : Remembers others (s.next l) := by
  cases l with
  | mount => exact h.mount
  | unmount => exact h.frame rfl rfl (fun hf => absurd rfl hf) fun _ hx => .inl hx
  | reload =>
      exact h.frame rfl rfl (fun hf => absurd rfl hf) fun _ hx => absurd hx List.not_mem_nil
  | username value | password value =>
      exact h.frame rfl rfl (form_map _ fun _ => rfl) fun _ hx => .inl hx
  | toggleRemember => exact h.toggle hen
  | submit => exact h.submit
  | answer k a => exact h.answer k a
  | logout => exact h.logout hen.2 (hlogout rfl)
  | other key value => exact h.other hen value

theorem submit_accepted (auto : Bool) : (s.submit auto).accepted = s.accepted := by
  rcases submit_cases (s := s) auto with hsame | ⟨page, -, hnew⟩
  · rw [hsame]
  · rw [hnew]

theorem setState_accepted (page : Nat) (f : Page → Page) :
    (s.setState page f).accepted = s.accepted := by
  unfold setState
  split <;> rfl

/-- What was accepted stays accepted. -/
theorem accepted_next (s : State) (l : Label) : s.accepted <+: (s.next l).accepted := by
  cases l with
  | mount =>
      simp only [State.next, didMount]
      split <;> split <;> simp [submit_accepted]
  | submit =>
      simp only [State.next, submit_accepted]
      exact List.prefix_rfl
  | answer k a =>
      simp only [State.next]
      split
      · cases a with
        | ok =>
            rw [signedIn, setState_accepted]
            exact List.prefix_append _ _
        | error =>
            rw [setState_accepted]
        | rejected => exact List.prefix_rfl
      · exact List.prefix_rfl
  | unmount | reload | username | password | toggleRemember | logout | other =>
      exact List.prefix_rfl

/-- The password that is stored is the old one, or none, or one just accepted. -/
theorem sshPassword_next (hen : s.enabled l) : (s.next l).storage.sshPassword = none ∨
    (s.next l).storage.sshPassword = s.storage.sshPassword ∨
      ∃ username password, (s.next l).storage.sshPassword = some password ∧
        (username, password) ∈ (s.next l).accepted := by
  have hsubmit : ∀ (s : State) auto, (s.submit auto).storage = s.storage := fun s auto => by
    rcases submit_cases (s := s) auto with hsame | ⟨page, -, hnew⟩
    · rw [hsame]
    · rw [hnew]
  cases l with
  | mount =>
      simp only [State.next, didMount]
      split <;> split
      · exact .inr (.inl (by rw [hsubmit]))
      · exact .inl (Storage.sshPassword_remove _)
      · exact .inr (.inl rfl)
      · exact .inl (Storage.sshPassword_remove _)
  | toggleRemember =>
      simp only [State.next, toggle]
      split
      · exact .inl (Storage.sshPassword_remove _)
      · exact .inr (.inl (Storage.sshPassword_setRememberPassword ..))
  | submit => exact .inr (.inl (by simp only [State.next, hsubmit]))
  | answer k a =>
      have hset : ∀ (s : State) page f, (s.setState page f).storage = s.storage :=
        fun s page f => by
          unfold setState
          split <;> rfl
      simp only [State.next]
      split
      · next submission _ =>
          cases a with
          | ok =>
              rw [signedIn, hset, setState_accepted]
              simp only []
              split
              · rw [Storage.sshPassword_setSshPassword]
                cases hkept : Storage.kept (some submission.password) with
                | none => exact .inl rfl
                | some password =>
                    obtain rfl := Option.some.inj (Storage.of_kept hkept)
                    exact .inr (.inr ⟨_, _, rfl,
                      List.mem_append_right _ (List.mem_singleton_self _)⟩)
              · exact .inr (.inl (Storage.sshPassword_setSshUserName ..))
          | error => exact .inr (.inl (by rw [hset]))
          | rejected => exact .inr (.inl rfl)
      · exact .inr (.inl rfl)
  | logout => exact .inr (.inl (Storage.sshPassword_setRememberPassword s.storage false))
  | other key value =>
      exact .inr (.inl (getItem_other s.storage (k := .sshPassword) hen rfl value))
  | unmount | reload | username | password => exact .inr (.inl rfl)

end State

/-! ## All of them -/

namespace Browser

variable {b : Browser}

/-- Tab `t` shows the form. -/
def HasForm (b : Browser) (t : Nat) : Prop := (b.see t).form ≠ none

/-- Nobody logs out while another tab shows the form. -/
def Alone (b : Browser) (l : Nat × Label) : Prop :=
  l.2 = .logout → ∀ t, t ≠ l.1 → ¬ b.HasForm t

/-- What is stored, and what was sent unasked. -/
structure Kept (b : Browser) : Prop where
  unticked : ∀ t, b.HasForm t → b.storage.rememberPassword = false →
    b.storage.sshPassword = none
  together : b.storage.rememberPassword = true → ∀ username password,
    b.storage.sshUserName = some username → b.storage.sshPassword = some password →
      (username, password) ∈ b.accepted
  auto : ∀ t, ∀ x ∈ (b.tabs t).submissions, x.auto = true →
    (x.username, x.password) ∈ b.accepted

theorem Kept.init : Kept init where
  unticked _ _ _ := rfl
  together _ _ _ h := absurd h (by simp [Browser.init, Storage.sshUserName, Storage.getItem])
  auto _ _ h := absurd h List.not_mem_nil

theorem see_put_self (b : Browser) (t : Nat) (s : State) : (b.put t s).see t = s := by
  simp only [see, put, Function.update_self]

theorem tabs_put_of_ne (b : Browser) {t u : Nat} (h : u ≠ t) (s : State) :
    (b.put t s).tabs u = b.tabs u :=
  Function.update_of_ne h ..

theorem hasForm_put_of_ne (b : Browser) {t u : Nat} (h : u ≠ t) (s : State) :
    (b.put t s).HasForm u ↔ b.HasForm u := by
  rw [HasForm, HasForm, State.form, State.form, see, see, tabs_put_of_ne b h]

/-- What all of them keep a tab keeps, with the others in view. -/
theorem Kept.remembers (h : Kept b) (t : Nat) :
    (b.see t).Remembers (∃ u, u ≠ t ∧ b.HasForm u) where
  unticked hf := by
    rcases hf with hf | ⟨u, -, hu⟩
    · exact h.unticked t hf
    · exact h.unticked u hu
  together := h.together
  auto := h.auto t

theorem Kept.next (h : Kept b) {l : Nat × Label} (hen : b.enabled l) (hok : b.Alone l) :
    Kept (b.next l) := by
  obtain ⟨t, l⟩ := l
  have hstep : ((b.see t).next l).Remembers (∃ u, u ≠ t ∧ b.HasForm u) :=
    (h.remembers t).next hen fun hl ⟨u, hne, hu⟩ => hok hl u hne hu
  refine ⟨fun u hu => hstep.unticked ?_, hstep.together, fun u x hx hauto => ?_⟩
  · by_cases hut : u = t
    · subst hut
      rw [HasForm, Browser.next, see_put_self] at hu
      exact .inl hu
    · exact .inr ⟨u, hut, (hasForm_put_of_ne b hut _).mp hu⟩
  · by_cases hut : u = t
    · subst hut
      have hx : x ∈ ((b.put u ((b.see u).next l)).see u).submissions := hx
      rw [see_put_self] at hx
      exact hstep.auto x hx hauto
    · rw [Browser.next, tabs_put_of_ne b hut] at hx
      exact (State.accepted_next (b.see t) l).subset (h.auto u x hx hauto)

/-- However many tabs there are, a password that is stored is one the server has accepted.
Where nobody logs out while another tab shows the form, none is stored while a form is
there and the box is not ticked, and what is remembered together, or sent unasked, was
accepted together. A logout beside another form leaves its password in view of it. -/
theorem password_kept (hs : machine.Reachable b) :
    (∀ password, b.storage.sshPassword = some password →
      ∃ username, (username, password) ∈ b.accepted) ∧
    (machine.Reaches Alone b → Kept b) ∧
    ∀ t u, u ≠ t → b.enabled (t, .logout) → b.HasForm u → b.storage.sshPassword ≠ none →
      ¬ Kept (b.next (t, .logout)) := by
  refine ⟨?_, fun h => ?_, fun t u hne _ hform hpassword hkept => ?_⟩
  · refine hs.invariant (M := machine) (I := fun b => ∀ password,
      b.storage.sshPassword = some password → ∃ username, (username, password) ∈ b.accepted)
      (fun password hp => absurd hp (by simp [machine, init, Storage.sshPassword, Storage.getItem]))
      fun b ⟨t, l⟩ _ h hen _ password hp => ?_
    rcases State.sshPassword_next (s := b.see t) hen with hnone | hsame | ⟨username, p, hnew, hmem⟩
    · exact absurd (hp.symm.trans hnone) (by simp)
    · obtain ⟨username, hmem⟩ := h password (hsame.symm.trans hp)
      exact ⟨username, (State.accepted_next (b.see t) l).subset hmem⟩
    · obtain rfl := Option.some.inj (hp.symm.trans hnew)
      exact ⟨username, hmem⟩
  · exact h.invariant (M := machine) (I := Kept) .init fun _ _ _ h hen hok => h.next hen hok
  · have hnone := hkept.unticked u ((hasForm_put_of_ne b hne _).mpr hform)
      (Storage.rememberPassword_setRememberPassword b.storage false)
    exact hpassword ((Storage.sshPassword_setRememberPassword b.storage false).symm.trans hnone)

/-- A sign-in that is remembered, a logout, and the page that comes after it. -/
def loggedOut : List (Nat × Label) :=
  [(0, .mount), (0, .username [0x61]), (0, .password [0x62]), (0, .toggleRemember), (0, .submit),
    (0, .answer 0 .ok), (0, .logout), (0, .unmount), (0, .mount)]

/-- There is only the one tab. -/
theorem reaches_loggedOut : machine.Reaches Alone (loggedOut.foldl machine.next machine.init) := by
  have hone : machine.Reaches (fun _ l => l.1 = 0) (loggedOut.foldl machine.next machine.init) :=
    Machine.reaches_of_path (M := machine) (by decide +kernel)
  refine (hone.invariant (M := machine) (I := fun b => machine.Reaches Alone b ∧
    ∀ t, t ≠ 0 → (b.tabs t).page = none) ⟨.init, fun _ _ => rfl⟩ ?_).1
  rintro b ⟨t, l⟩ _ ⟨h, hother⟩ hen rfl
  refine ⟨h.step hen fun _ u hu hform => hform ?_, fun u hu => ?_⟩
  · rw [State.form, see, hother u hu]
    rfl
  · have hsame : (machine.next b (0, l)).tabs u = b.tabs u := tabs_put_of_ne b hu _
    rw [hsame, hother u hu]

theorem password_kept_loggedOut : Kept (loggedOut.foldl machine.next machine.init) :=
  (password_kept reaches_loggedOut.reachable).2.1 reaches_loggedOut

/-- The password is there up to the next page. -/
example : ((loggedOut.take 8).foldl machine.next machine.init).storage.sshPassword = some [0x62] ∧
    (loggedOut.foldl machine.next machine.init).storage.sshPassword = none := by decide +kernel

end Browser

end WebSshTool.Settings
