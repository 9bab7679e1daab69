import WebSshTool.Explorer.Comparators

/-!
# Sorting by date

The browser sorts by the texts the internal client has written, and these begin
with the day of the month. `chronological_iff` says for which listings this is
the order of time: those in which no two entries are told apart by their texts
the wrong way round. Within one month all are, so that a short listing may not
show it.
-/

namespace WebSshTool.Explorer

open Json (Text)
open WeakOrder
open Watch (SystemTime DateTime Chrono utc Metadata FileSystem systemTimeToString objectToJson
  objectToJson_eq fields nodup_fields)

/-- The entry has a time, and it is this one. -/
def Sent (chrono : Chrono) (e : Entry) (time : SystemTime) : Prop :=
  e.2.modifiedTime ≠ none ∧ e.2.modifiedTime = systemTimeToString chrono time

/-- By the day of the month, the abbreviation of the month, the year as it is
written and the time of the day. -/
def WrittenFirst (chrono : Chrono) (s t : SystemTime) : Prop :=
  ∃ d d', chrono.into s = some d ∧ chrono.into t = some d' ∧ d.WrittenBefore d'

/-- The result of a sort: the same entries, and no time before an earlier one. -/
def Chronological (time : Entry → SystemTime) (array sorted : List Entry) : Prop :=
  sorted.Perm array ∧ sorted.Pairwise fun e f => (time e).seconds ≤ (time f).seconds

/-! ## The order of time -/

section

variable {chrono : Chrono}

theorem writtenFirst_iff {s t : SystemTime} : WrittenFirst chrono s t ↔
    ∃ x y, systemTimeToString chrono s = some x ∧ systemTimeToString chrono t = some y ∧
      x < y := by
  simp only [WrittenFirst, systemTimeToString, Option.map_eq_some_iff]
  constructor
  · rintro ⟨d, d', hd, hd', hbefore⟩
    exact ⟨_, _, ⟨d, hd, rfl⟩, ⟨d', hd', rfl⟩, (chrono.text_lt_iff d d').mpr hbefore⟩
  · rintro ⟨x, y, ⟨d, hd, rfl⟩, ⟨d', hd', rfl⟩, hlt⟩
    exact ⟨d, d', hd, hd', (chrono.text_lt_iff d d').mp hlt⟩

variable {array : List Entry} {time : Entry → SystemTime}

theorem Sent.text {e : Entry} {s : SystemTime} (h : Sent chrono e s) :
    ∃ x, e.2.modifiedTime = some x ∧ systemTimeToString chrono s = some x := by
  obtain ⟨x, hx⟩ := Option.ne_none_iff_exists'.mp h.1
  exact ⟨x, hx, h.2 ▸ hx⟩

theorem comparator_date_lt {e f : Entry} {s t : SystemTime} (he : Sent chrono e s)
    (hf : Sent chrono f t) : comparator .date e f < 0 ↔
      WrittenFirst chrono s t := by
  obtain ⟨x, hx, hs⟩ := he.text
  obtain ⟨y, hy, ht⟩ := hf.text
  rw [comparator_date_some hx hy, compare_some_lt, writtenFirst_iff]
  simp [hs, ht]

/-- Of two times that differ one is written first. -/
theorem writtenFirst_or {e f : Entry} {s t : SystemTime} (he : Sent chrono e s)
    (hf : Sent chrono f t) (hne : s.seconds ≠ t.seconds) :
    WrittenFirst chrono s t ∨ WrittenFirst chrono t s := by
  obtain ⟨x, -, hs⟩ := he.text
  obtain ⟨y, -, ht⟩ := hf.text
  obtain ⟨d, hd, -⟩ := Option.map_eq_some_iff.mp hs
  obtain ⟨d', hd', -⟩ := Option.map_eq_some_iff.mp ht
  rw [← chrono.into_seconds hd, ← chrono.into_seconds hd'] at hne
  rcases DateTime.writtenBefore_or hne with hbefore | hbefore
  · exact .inl ⟨d, d', hd, hd', hbefore⟩
  · exact .inr ⟨d', d, hd', hd, hbefore⟩

theorem strictWeak_sent (hsent : ∀ e ∈ array, Sent chrono e (time e)) :
    StrictWeak (comparator .date) array :=
  strictWeak_date fun e he => (hsent e he).1

theorem chronological_of_writtenFirst (hsent : ∀ e ∈ array, Sent chrono e (time e))
    (h : ∀ e ∈ array, ∀ f ∈ array, (time e).seconds < (time f).seconds →
      WrittenFirst chrono (time e) (time f)) :
    Chronological time array (sortArray array .date) := by
  have hweak := strictWeak_sent hsent
  have hmem : ∀ {e}, e ∈ sortArray array .date → e ∈ array :=
    fun he => (sort_perm _ array).mem_iff.mp he
  refine ⟨sort_perm _ array, hweak.pairwise_sort.imp_of_mem fun {e f} he hf hle => ?_⟩
  by_contra hnot
  have hfirst := h f (hmem hf) e (hmem he) (Int.not_le.mp hnot)
  have hlt := (comparator_date_lt (hsent f (hmem hf)) (hsent e (hmem he))).mpr hfirst
  have := (hweak.antisymm e (hmem he) f (hmem hf)).mpr hlt
  omega

theorem writtenFirst_of_chronological (hsent : ∀ e ∈ array, Sent chrono e (time e))
    (h : Chronological time array (sortArray array .date)) {e f : Entry} (he : e ∈ array)
    (hf : f ∈ array) (hlt : (time e).seconds < (time f).seconds) :
    WrittenFirst chrono (time e) (time f) := by
  have hweak := strictWeak_sent hsent
  refine (writtenFirst_or (hsent e he) (hsent f hf) (by omega)).resolve_right fun hfirst => ?_
  have hbefore := (comparator_date_lt (hsent f hf) (hsent e he)).mpr hfirst
  have hafter := (hweak.antisymm e he f hf).mpr hbefore
  -- One of the two stands before the other, and neither may.
  have hpair := pairwise_or (hweak.pairwise_sort.and h.2)
    ((sort_perm _ array).mem_iff.mpr he) ((sort_perm _ array).mem_iff.mpr hf)
    fun heq => by rw [heq] at hlt; omega
  omega

end

/-- Sorted by date, the entries of a listing are in the order of their times if
and only if of any two times the earlier one is written first. -/
theorem chronological_iff (chrono : Chrono) (array : List Entry) (time : Entry → SystemTime)
    (hsent : ∀ e ∈ array, Sent chrono e (time e)) :
    Chronological time array (sortArray array .date) ↔
      ∀ e ∈ array, ∀ f ∈ array, (time e).seconds < (time f).seconds →
        WrittenFirst chrono (time e) (time f) :=
  ⟨fun h _ he _ hf => writtenFirst_of_chronological hsent h he hf,
    chronological_of_writtenFirst hsent⟩

/-- An entry with its time as the internal client writes it. -/
def stamped (name : Text) (time : SystemTime) : Entry :=
  (name, ⟨none, systemTimeToString utc time⟩)

/-- The first of January 2024, the second and the first of February, at midnight. -/
def january1 : SystemTime := ⟨1704067200, 0, Nat.zero_lt_succ _⟩

def january2 : SystemTime := ⟨1704153600, 0, Nat.zero_lt_succ _⟩

def february1 : SystemTime := ⟨1706745600, 0, Nat.zero_lt_succ _⟩

/-- The time of an entry that is called `a` and of any other. -/
def timeOf (s t : SystemTime) (e : Entry) : SystemTime := if e.1 = [0x61] then s else t

theorem sent_stamped {s t : SystemTime} (hs : systemTimeToString utc s ≠ none)
    (ht : systemTimeToString utc t ≠ none) :
    ∀ e ∈ [stamped [0x62] t, stamped [0x61] s], Sent utc e (timeOf s t e) := by
  intro e he
  rcases List.mem_cons.mp he with rfl | he
  · exact ⟨ht, rfl⟩
  · obtain rfl := List.mem_singleton.mp he
    exact ⟨hs, rfl⟩

theorem chronological_iff_january :
    Chronological (timeOf january1 january2)
      [stamped [0x62] january2, stamped [0x61] january1]
      (sortArray [stamped [0x62] january2, stamped [0x61] january1] .date) := by
  refine (chronological_iff utc _ _ (sent_stamped (by decide +kernel) (by decide +kernel))).mpr ?_
  have hfirst : WrittenFirst utc january1 january2 :=
    writtenFirst_iff.mpr ⟨_, _, rfl, rfl, by decide +kernel⟩
  intro e he f hf hlt
  simp only [List.mem_cons, List.not_mem_nil, or_false] at he hf
  rcases he with rfl | rfl <;> rcases hf with rfl | rfl
  · exact absurd hlt (by decide)
  · exact absurd hlt (by decide)
  · exact hfirst
  · exact absurd hlt (by decide)

/-- The first of February is put before the second of January. -/
theorem not_chronological :
    ¬ ∀ (array : List Entry) (time : Entry → SystemTime), (∀ e ∈ array, Sent utc e (time e)) →
      Chronological time array (sortArray array .date) := by
  intro h
  have hsent := sent_stamped (s := january2) (t := february1) (by decide +kernel)
    (by decide +kernel)
  have hfirst := writtenFirst_of_chronological hsent (h _ _ hsent)
    (e := stamped [0x61] january2) (f := stamped [0x62] february1) (by simp) (by simp)
    (by decide)
  obtain ⟨x, y, hx, hy, hlt⟩ := writtenFirst_iff.mp hfirst
  have htexts : ∀ x ∈ systemTimeToString utc january2, ∀ y ∈ systemTimeToString utc february1,
      ¬ x < y := by decide +kernel
  exact htexts x hx y hy hlt

/-! ## A listing of one month -/

section

variable {π ν : Type*} {fs : FileSystem π ν}

/-- An entry of an event, of a file that was last modified at this time. -/
def Listed (fs : FileSystem π ν) (e : Entry) (time : SystemTime) : Prop :=
  ∃ fileName path entries includeParent v data,
    objectToJson fs fileName path entries includeParent = some (.ok v) ∧ e.2 = lstatOf v ∧
      fs.metadata path = .ok data ∧ data.modified = some time

theorem Listed.sent {e : Entry} {time : SystemTime} (h : Listed fs e time) :
    Sent fs.chrono e time := by
  obtain ⟨fileName, path, entries, includeParent, v, data, hv, he, hdata, htime⟩ := h
  obtain ⟨data', created, accessed, modified, hdata', -, -, hmodified, rfl⟩ := objectToJson_eq hv
  obtain rfl := Except.ok.inj (hdata'.symm.trans hdata)
  rw [htime] at hmodified
  obtain ⟨text, htext, rfl⟩ := Option.map_eq_some_iff.mp hmodified
  have hget := Json.get?_object
    (nodup_fields fs fileName path entries includeParent data' created accessed (some text))
    (f := (Json.ofString "modifiedTime", some (.str text))) (by simp [fields])
  have hmember : e.2.modifiedTime = some text := by
    rw [he]
    simp only [lstatOf, textOf, hget]
  exact ⟨by simp [hmember], by rw [hmember, htext]⟩

/-- Within one month what the internal client lists is sorted as it should be. -/
theorem chronological_of_month {array : List Entry} {time : Entry → SystemTime}
    (hlisted : ∀ e ∈ array, Listed fs e (time e)) (y : Int) (m : Nat)
    (hmonth : ∀ e ∈ array, ∀ d, fs.chrono.into (time e) = some d →
      d.date.year = y ∧ d.date.month = m) :
    Chronological time array (sortArray array .date) := by
  have hsent : ∀ e ∈ array, Sent fs.chrono e (time e) := fun e he => (hlisted e he).sent
  refine chronological_of_writtenFirst hsent fun e he f hf hlt => ?_
  obtain ⟨x, -, hx⟩ := (hsent e he).text
  obtain ⟨z, -, hz⟩ := (hsent f hf).text
  obtain ⟨d, hd, -⟩ := Option.map_eq_some_iff.mp hx
  obtain ⟨d', hd', -⟩ := Option.map_eq_some_iff.mp hz
  obtain ⟨hyear, hmonth₁⟩ := hmonth e he d hd
  obtain ⟨hyear', hmonth₂⟩ := hmonth f hf d' hd'
  refine ⟨d, d', hd, hd', ?_⟩
  rw [DateTime.writtenBefore_iff_of_month (hyear.trans hyear'.symm)
    (hmonth₁.trans hmonth₂.symm), fs.chrono.into_seconds hd, fs.chrono.into_seconds hd']
  exact hlt

end

end WebSshTool.Explorer
