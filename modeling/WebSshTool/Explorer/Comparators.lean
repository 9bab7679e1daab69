import WebSshTool.Explorer.Entries
import WebSshTool.Lib.WeakOrder

/-!
# How listings are sorted

The comparators of the file explorer and of its copy dialog. A text that is
absent compares equal to every text, since `<` is false of `undefined` both
ways. Where an entry lacks what the others are sorted by, being equal is then
not passed on from one pair to the next.

`comparators_consistent_iff` has what that comes to. Sorting by type goes wrong
where an entry without a type has a name between the names of two others whose
types are in the opposite order; sorting by date does where an entry without a
time is next to two that have different ones. The other two comparators are in
order for every listing.
-/

namespace WebSshTool.Explorer

open Json (Text)
open WeakOrder

inductive SortType where
  | alphabetically
  | date
  | type
  deriving DecidableEq, Repr

/-- `compare`. -/
def compare (a b : Option Text) : Int :=
  match a, b with
  | some a, some b => if a < b then -1 else if b < a then 1 else 0
  | _, _ => 0

/-- The loop of `stringReserveCompare`, from the last units on. -/
def reserveLoop (rest : Int) : Text → Text → Int
  | x :: xs, y :: ys => if x = y then reserveLoop rest xs ys else (x : Int) - y
  | [], _ | _ :: _, [] => rest

/-- `stringReserveCompare`. -/
def stringReserveCompare (a b : Text) : Int :=
  reserveLoop (a.length - b.length) a.reverse b.reverse

/-- What `sortArray` compares by. -/
def comparator : SortType → Entry → Entry → Int
  | .type, (key0, stats0), (key1, stats1) =>
      let res := compare (stats0.type.map FileType.text) (stats1.type.map FileType.text)
      if res = 0 then stringReserveCompare key0 key1 else res
  | .date, (_, stats0), (_, stats1) => compare stats0.modifiedTime stats1.modifiedTime
  | .alphabetically, (key0, _), (key1, _) => compare (some key0) (some key1)

def sortArray (array : List Entry) (sortType : SortType) : List Entry :=
  sort (comparator sortType) array

def startsWithDot (a : Text) : Bool := a.head? = some 0x2e

/-- `compare` of `CopyToDialog`. -/
def compareHidden (a b : Text) : Int :=
  if !startsWithDot a && startsWithDot b then -1
  else if startsWithDot a && !startsWithDot b then 1
  else if a < b then -1
  else if b < a then 1
  else 0

/-- What `CopyToDialog` sorts its entries by. -/
def copyToComparator (f s : Entry) : Int :=
  if f.2.type = some .directory ∧ s.2.type ≠ some .directory then -1
  else if f.2.type ≠ some .directory ∧ s.2.type = some .directory then 1
  else compareHidden f.1 s.1

/-! ## Texts -/

theorem compare_some_lt {a b : Text} : compare (some a) (some b) < 0 ↔ a < b := by
  simp only [compare]
  split
  · simp [*]
  · split <;> simp [*]

theorem compare_some_gt {a b : Text} : 0 < compare (some a) (some b) ↔ b < a := by
  simp only [compare]
  split
  · next hlt => simp [List.lt_asymm hlt]
  · split <;> simp [*]

/-- The last unit in which two texts differ decides, or the shorter one is first. -/
theorem reserveLoop_spec (rest : Int) (xs ys : Text)
    (hrest : rest = (xs.length : Int) - ys.length) :
    (reserveLoop rest xs ys < 0 ↔ xs < ys) ∧ (0 < reserveLoop rest xs ys ↔ ys < xs) := by
  fun_induction reserveLoop rest xs ys with
  | case1 x xs ys ih =>
      simpa [List.cons_lt_cons_iff] using ih (by simpa using hrest)
  | case2 x xs y ys hne =>
      have hne' : ¬ y = x := fun h => hne h.symm
      simp only [List.cons_lt_cons_iff, hne, hne', false_and, or_false]
      omega
  | case3 ys =>
      cases ys with
      | nil => simp [hrest]
      | cons y ys =>
          simp only [hrest, List.length_nil, List.length_cons, List.nil_lt_cons, List.not_lt_nil,
            iff_true, iff_false]
          omega
  | case4 x xs =>
      simp only [hrest, List.length_nil, List.length_cons, List.nil_lt_cons, List.not_lt_nil,
        iff_true, iff_false]
      omega

/-- The order of names read from their ends. -/
def ReserveBefore (a b : Text) : Prop := a.reverse < b.reverse

instance (a b : Text) : Decidable (ReserveBefore a b) :=
  inferInstanceAs (Decidable (_ < _))

theorem stringReserveCompare_lt {a b : Text} :
    stringReserveCompare a b < 0 ↔ ReserveBefore a b :=
  (reserveLoop_spec _ a.reverse b.reverse (by simp)).1

theorem stringReserveCompare_gt {a b : Text} :
    0 < stringReserveCompare a b ↔ ReserveBefore b a :=
  (reserveLoop_spec _ a.reverse b.reverse (by simp)).2

theorem reserveBefore_or {a b : Text} (h : a ≠ b) : ReserveBefore a b ∨ ReserveBefore b a := by
  rcases lt_trichotomy a.reverse b.reverse with hlt | heq | hgt
  · exact .inl hlt
  · exact absurd (List.reverse_inj.mp heq) h
  · exact .inr hgt

/-! ## By name and in the copy dialog -/

theorem strictWeak_alphabetically (xs : List Entry) :
    StrictWeak (comparator .alphabetically) xs :=
  .of_key Prod.fst (fun _ _ _ _ => compare_some_lt) fun _ _ _ _ => compare_some_gt

/-- Directories first, then what is not hidden, then by name. -/
def copyToKey (e : Entry) : Text :=
  (if e.2.type = some .directory then 0 else 1) :: (if startsWithDot e.1 then 1 else 0) :: e.1

theorem compareHidden_spec (a b : Text) :
    (compareHidden a b < 0 ↔
      (if startsWithDot a then 1 else 0) :: a < (if startsWithDot b then 1 else 0) :: b) ∧
    (0 < compareHidden a b ↔
      (if startsWithDot b then 1 else 0) :: b < (if startsWithDot a then 1 else 0) :: a) := by
  have hasymm : a < b → ¬ b < a := List.lt_asymm
  unfold compareHidden
  cases startsWithDot a <;> cases startsWithDot b <;>
    simp [List.cons_lt_cons_iff] <;> split <;> simp_all <;> split <;> simp_all

theorem strictWeak_copyTo (xs : List Entry) : StrictWeak copyToComparator xs := by
  refine .of_key copyToKey (fun a _ b _ => ?_) fun a _ b _ => ?_
  · have hname := (compareHidden_spec a.1 b.1).1
    unfold copyToComparator copyToKey
    rw [List.cons_lt_cons_iff, ← hname]
    by_cases ha : a.2.type = some .directory <;> by_cases hb : b.2.type = some .directory <;>
      simp [ha, hb]
  · have hname := (compareHidden_spec a.1 b.1).2
    unfold copyToComparator copyToKey
    rw [List.cons_lt_cons_iff, ← hname]
    by_cases ha : a.2.type = some .directory <;> by_cases hb : b.2.type = some .directory <;>
      simp [ha, hb]

/-! ## By date -/

/-- Some entry has no time, and two others have different ones. -/
def Gapped (xs : List Entry) : Prop :=
  ∃ u ∈ xs, ∃ a ∈ xs, ∃ b ∈ xs, u.2.modifiedTime = none ∧
    ∃ s t, a.2.modifiedTime = some s ∧ b.2.modifiedTime = some t ∧ s ≠ t

theorem comparator_date_some {a b : Entry} {s t : Text} (ha : a.2.modifiedTime = some s)
    (hb : b.2.modifiedTime = some t) : comparator .date a b = compare (some s) (some t) := by
  rw [← ha, ← hb]
  rfl

theorem comparator_date_none {a b : Entry}
    (h : a.2.modifiedTime = none ∨ b.2.modifiedTime = none) : comparator .date a b = 0 := by
  show compare a.2.modifiedTime b.2.modifiedTime = 0
  rcases h with h | h
  · rw [h]
    rfl
  · rw [h]
    cases a.2.modifiedTime <;> rfl

/-- Where every entry has its time. -/
theorem strictWeak_date {xs : List Entry} (h : ∀ e ∈ xs, e.2.modifiedTime ≠ none) :
    StrictWeak (comparator .date) xs := by
  have htime : ∀ e ∈ xs, e.2.modifiedTime = some (e.2.modifiedTime.getD []) := fun e he => by
    cases hm : e.2.modifiedTime with
    | none => exact absurd hm (h e he)
    | some t => rfl
  refine .of_key (fun e => e.2.modifiedTime.getD []) (fun a ha b hb => ?_) fun a ha b hb => ?_
  · rw [comparator_date_some (htime a ha) (htime b hb), compare_some_lt]
  · rw [comparator_date_some (htime a ha) (htime b hb), compare_some_gt]

theorem strictWeak_date_iff (xs : List Entry) :
    StrictWeak (comparator .date) xs ↔ ¬ Gapped xs := by
  constructor
  · rintro h ⟨u, hu, a, ha, b, hb, hnone, s, t, hs, ht, hne⟩
    -- Both are equal to the entry without a time, so they would be to each other.
    have htie := h.tie a ha u hu b hb (comparator_date_none (.inr hnone))
      (comparator_date_none (.inl hnone))
    rw [comparator_date_some hs ht] at htie
    have hlt := compare_some_lt (a := s) (b := t)
    have hgt := compare_some_gt (a := s) (b := t)
    rcases lt_trichotomy s t with h | h | h
    · have := hlt.mpr h
      omega
    · exact hne h
    · have := hgt.mpr h
      omega
  · intro h
    by_cases hall : ∀ e ∈ xs, e.2.modifiedTime ≠ none
    · exact strictWeak_date hall
    · -- Otherwise all that have a time have the same one.
      simp only [not_forall, not_not] at hall
      obtain ⟨u, hu, hnone⟩ := hall
      have hzero : ∀ a ∈ xs, ∀ b ∈ xs, comparator .date a b = 0 := by
        intro a ha b hb
        cases hs : a.2.modifiedTime with
        | none => exact comparator_date_none (.inl hs)
        | some s =>
            cases ht : b.2.modifiedTime with
            | none => exact comparator_date_none (.inr ht)
            | some t =>
                have heq : s = t := by
                  by_contra hne
                  exact h ⟨u, hu, a, ha, b, hb, hnone, s, t, hs, ht, hne⟩
                rw [comparator_date_some hs ht, heq]
                simp [compare]
      refine ⟨fun a ha b hb => ?_, fun a ha b hb d hd hab => ?_, fun a ha b hb d hd _ _ => ?_⟩
      · rw [hzero a ha b hb, hzero b hb a ha]
      · rw [hzero a ha b hb] at hab
        omega
      · exact hzero a ha d hd

/-! ## By type -/

/-- Both have a type, and their types decide. -/
def TypeBefore (a b : Entry) : Prop :=
  ∃ s t, a.2.type = some s ∧ b.2.type = some t ∧ s.text < t.text

/-- An entry without a type has a name between those of two others, whose types
are the other way round. -/
def Crossed (xs : List Entry) : Prop :=
  ∃ u ∈ xs, ∃ a ∈ xs, ∃ b ∈ xs, u.2.type = none ∧ TypeBefore a b ∧
    ReserveBefore b.1 u.1 ∧ ReserveBefore u.1 a.1

theorem compare_type_lt {a b : Entry} :
    compare (a.2.type.map FileType.text) (b.2.type.map FileType.text) < 0 ↔ TypeBefore a b := by
  unfold TypeBefore
  cases a.2.type <;> cases b.2.type <;> simp [compare]
  exact compare_some_lt

theorem compare_type_gt {a b : Entry} :
    0 < compare (a.2.type.map FileType.text) (b.2.type.map FileType.text) ↔ TypeBefore b a := by
  unfold TypeBefore
  cases a.2.type <;> cases b.2.type <;> simp [compare]
  exact compare_some_gt

theorem comparator_type_lt {a b : Entry} :
    comparator .type a b < 0 ↔ TypeBefore a b ∨ ¬ TypeBefore b a ∧ ReserveBefore a.1 b.1 := by
  have hlt := compare_type_lt (a := a) (b := b)
  have hgt := compare_type_gt (a := a) (b := b)
  rw [← hlt, ← hgt, ← stringReserveCompare_lt, comparator]
  split <;> omega

theorem comparator_type_gt {a b : Entry} :
    0 < comparator .type a b ↔ comparator .type b a < 0 := by
  rw [comparator_type_lt, ← compare_type_lt, ← compare_type_gt, ← stringReserveCompare_gt,
    comparator]
  have hba := (compare_type_lt (a := b) (b := a)).trans compare_type_gt.symm
  have hab := (compare_type_lt (a := a) (b := b)).trans compare_type_gt.symm
  split <;> omega

/-- Two entries of different names are never equal. -/
theorem comparator_type_ne_zero {a b : Entry} (h : a.1 ≠ b.1) : comparator .type a b ≠ 0 := by
  intro hzero
  have hlt := comparator_type_lt (a := a) (b := b)
  have hgt := (comparator_type_gt (a := a) (b := b)).trans comparator_type_lt
  simp only [hzero, Int.lt_irrefl, false_iff, not_or, not_and] at hlt hgt
  rcases reserveBefore_or h with hbefore | hbefore
  · exact hlt.2 hgt.1 hbefore
  · exact hgt.2 hlt.1 hbefore

/-- Three entries in a circle, two of which are in the order of their types. -/
theorem crossed_of_cycle {xs : List Entry} {a b d : Entry} (ha : a ∈ xs) (hb : b ∈ xs)
    (hd : d ∈ xs) (hab : TypeBefore a b) (hbd : comparator .type b d < 0)
    (hda : comparator .type d a < 0) : Crossed xs := by
  obtain ⟨s, t, hs, ht, hst⟩ := hab
  rw [comparator_type_lt] at hbd hda
  cases hu : d.2.type with
  | none =>
      have huntyped : ∀ {e}, ¬ TypeBefore e d ∧ ¬ TypeBefore d e := by
        simp [TypeBefore, hu]
      exact ⟨d, hd, a, ha, b, hb, hu, ⟨s, t, hs, ht, hst⟩,
        (hbd.resolve_left huntyped.1).2, (hda.resolve_left huntyped.2).2⟩
  | some r =>
      -- The types of three entries are in a line.
      have htr : t.text ≤ r.text := by
        rcases hbd with ⟨t', r', ht', hr', hlt⟩ | ⟨hnot, -⟩
        · rw [ht, Option.some.injEq] at ht'
          rw [hu, Option.some.injEq] at hr'
          subst ht' hr'
          exact le_of_lt hlt
        · exact not_lt.mp fun hlt => hnot ⟨r, t, hu, ht, hlt⟩
      have hrs : r.text ≤ s.text := by
        rcases hda with ⟨r', s', hr', hs', hlt⟩ | ⟨hnot, -⟩
        · rw [hu, Option.some.injEq] at hr'
          rw [hs, Option.some.injEq] at hs'
          subst hr' hs'
          exact le_of_lt hlt
        · exact not_lt.mp fun hlt => hnot ⟨s, r, hs, hu, hlt⟩
      exact absurd (lt_of_lt_of_le hst (le_trans htr hrs)) (lt_irrefl _)

theorem strictWeak_type_iff (l : Listing) :
    StrictWeak (comparator .type) l.entries ↔ ¬ Crossed l.entries := by
  constructor
  · rintro h ⟨u, hu, a, ha, b, hb, hnone, hab, hbu, hua⟩
    have huntyped : ∀ {e}, ¬ TypeBefore e u ∧ ¬ TypeBefore u e := by
      simp [TypeBefore, hnone]
    have hbefore := h.trans a ha b hb u hu (comparator_type_lt.mpr (.inl hab))
      (comparator_type_lt.mpr (.inr ⟨huntyped.2, hbu⟩))
    have hafter := comparator_type_gt.mpr
      (comparator_type_lt.mpr (.inr ⟨huntyped.1, hua⟩))
    omega
  · intro h
    have hname : ∀ a ∈ l.entries, ∀ b ∈ l.entries, comparator .type a b = 0 → a = b := by
      intro a ha b hb hzero
      refine List.inj_on_of_nodup_map l.nodup ha hb ?_
      by_contra hne
      exact comparator_type_ne_zero hne hzero
    refine ⟨fun a _ b _ => comparator_type_gt, fun a ha b hb d hd hab hbd => ?_,
      fun a ha b hb d hd hab hbd => ?_⟩
    · by_contra hnot
      have hda : comparator .type d a < 0 := by
        rcases Int.lt_or_eq_of_le (Int.not_lt.mp hnot) with hpos | hzero
        · exact comparator_type_gt.mp hpos
        · obtain rfl := hname a ha d hd hzero.symm
          have := comparator_type_gt.mpr hab
          omega
      -- Names alone make no circle, so two of the three are in the order of types.
      by_cases habType : TypeBefore a b
      · exact h (crossed_of_cycle ha hb hd habType hbd hda)
      · by_cases hbdType : TypeBefore b d
        · exact h (crossed_of_cycle hb hd ha hbdType hda hab)
        · by_cases hdaType : TypeBefore d a
          · exact h (crossed_of_cycle hd ha hb hdaType hab hbd)
          · have hab := (comparator_type_lt.mp hab).resolve_left habType
            have hbd := (comparator_type_lt.mp hbd).resolve_left hbdType
            have hda := (comparator_type_lt.mp hda).resolve_left hdaType
            exact List.lt_irrefl _ (List.lt_trans (List.lt_trans hab.2 hbd.2) hda.2)
    · rw [hname a ha b hb hab]
      exact hbd

/-! ## All four -/

/-- Every comparator sorts the entries of a listing into an order, and one that
does not depend on where they stood, if and only if no entry without a type is
crossed by two others and none without a time is next to different times. -/
theorem comparators_consistent_iff (l : Listing) :
    ((∀ sortType, Consistent (comparator sortType) l.entries) ∧
      Consistent copyToComparator l.entries) ↔
      ¬ Crossed l.entries ∧ ¬ Gapped l.entries := by
  simp only [StrictWeak.consistent_iff]
  constructor
  · rintro ⟨hsort, -⟩
    exact ⟨(strictWeak_type_iff l).mp (hsort .type),
      (strictWeak_date_iff l.entries).mp (hsort .date)⟩
  · rintro ⟨hcrossed, hgapped⟩
    refine ⟨fun sortType => ?_, strictWeak_copyTo _⟩
    cases sortType with
    | alphabetically => exact strictWeak_alphabetically _
    | date => exact (strictWeak_date_iff l.entries).mpr hgapped
    | type => exact (strictWeak_type_iff l).mpr hcrossed

/-- A directory, a file and a named pipe, whose name is between theirs. -/
theorem comparators_inconsistent :
    ¬ ∀ l : Listing, (∀ sortType, Consistent (comparator sortType) l.entries) ∧
      Consistent copyToComparator l.entries := by
  intro h
  have hcrossed := (strictWeak_type_iff
    ⟨[([0x63], ⟨some .directory, none⟩), ([0x61], ⟨some .file, none⟩), ([0x62], ⟨none, none⟩)],
      by decide⟩).mp ((h _).1 .type).strictWeak
  refine hcrossed ⟨([0x62], ⟨none, none⟩), by decide, ([0x63], ⟨some .directory, none⟩),
    by decide, ([0x61], ⟨some .file, none⟩), by decide, rfl, ⟨_, _, rfl, rfl, ?_⟩,
    by decide, by decide⟩
  decide

end WebSshTool.Explorer
