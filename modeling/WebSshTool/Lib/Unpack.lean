import WebSshTool.Lib.Files

/-!
# Extracting archives

An archive is extracted entry by entry. A place is the names that lead there.
The directories on the way to a file are made when they are missing; where a
file is in the way, or a directory is where the file should go, the entry is
skipped. An entry for a place that has a file replaces it.

What comes of it is a tree whatever the entries are, so two files can only both
be there when neither is on the way to the other. That is also enough.
-/

namespace WebSshTool.Files

variable {ν : Type*}

abbrev Extracted (ν : Type*) := Disk (List ν)

/-- The directory to extract into. -/
def emptyDirectory [DecidableEq ν] : Extracted ν := fun place =>
  if place = [] then some .directory else none

def fileAt (t : Extracted ν) (place : List ν) : Bool :=
  match t place with
  | some (.file _) => true
  | _ => false

section

variable [DecidableEq ν]

/-- A file cannot be put there. -/
def Blocked (t : Extracted ν) (place : List ν) : Prop :=
  t place = some .directory ∨ ∃ x ∈ place.inits, x ≠ place ∧ fileAt t x = true

instance (t : Extracted ν) (place : List ν) : Decidable (Blocked t place) := by
  unfold Blocked
  infer_instance

def put (t : Extracted ν) (place : List ν) (content : Bytes) : Extracted ν :=
  if Blocked t place then t
  else fun x =>
    if x = place then some (.file content)
    else if x <+: place then some .directory
    else t x

def unpackFrom (t : Extracted ν) (entries : List (List ν × Bytes)) : Extracted ν :=
  entries.foldl (fun t e => put t e.1 e.2) t

def unpack (entries : List (List ν × Bytes)) : Extracted ν := unpackFrom emptyDirectory entries

end

/-- Two entries that can both be extracted: neither is on the way to the other,
or they are the same. -/
def Apart (a b : List ν × Bytes) : Prop := ¬ a.1 <+: b.1 ∧ ¬ b.1 <+: a.1 ∨ a = b

theorem Apart.symm {a b : List ν × Bytes} (h : Apart a b) : Apart b a := by
  rcases h with ⟨hab, hba⟩ | rfl
  · exact .inl ⟨hba, hab⟩
  · exact .inr rfl

section

variable [DecidableEq ν] {t : Extracted ν} {place x y : List ν} {content : Bytes}
  {entries : List (List ν × Bytes)}

/-! ## A tree -/

/-- Whatever is there is in directories. -/
structure Treelike (t : Extracted ν) : Prop where
  root : t [] = some .directory
  parent : ∀ x y, x <+: y → x ≠ y → t y ≠ none → t x = some .directory

omit [DecidableEq ν] in
theorem fileAt_iff : fileAt t x = true ↔ ∃ content, t x = some (.file content) := by
  unfold fileAt
  split
  · next c h => simp [h]
  · next h =>
      constructor
      · exact fun hno => absurd hno (by simp)
      · intro ⟨c, hc⟩
        exact absurd hc (h c)

theorem put_of_blocked (h : Blocked t place) : put t place content = t := by
  rw [put, if_pos h]

theorem put_self (h : ¬ Blocked t place) : put t place content place = some (.file content) := by
  rw [put, if_neg h, if_pos rfl]

theorem put_on_way (h : ¬ Blocked t place) (hx : x <+: place) (hne : x ≠ place) :
    put t place content x = some .directory := by
  rw [put, if_neg h, if_neg hne, if_pos hx]

theorem put_elsewhere (hx : ¬ x <+: place) : put t place content x = t x := by
  by_cases h : Blocked t place
  · rw [put_of_blocked h]
  · have hne : x ≠ place := by
      intro heq
      exact hx (heq ▸ List.prefix_refl place)
    rw [put, if_neg h, if_neg hne, if_neg hx]

theorem Treelike.put (h : Treelike t) (place : List ν) (content : Bytes) :
    Treelike (put t place content) := by
  by_cases hblocked : Blocked t place
  · rwa [put_of_blocked hblocked]
  · have hne : [] ≠ place := by
      intro heq
      exact hblocked (.inl (heq ▸ h.root))
    refine ⟨put_on_way hblocked (List.nil_prefix) hne, fun x y hxy hne hy => ?_⟩
    by_cases hyp : y <+: place
    · refine put_on_way hblocked (hxy.trans hyp) fun heq => hne ?_
      rw [← heq] at hyp
      exact hxy.eq_of_length_le hyp.length_le
    · rw [put_elsewhere hyp] at hy
      have hx := h.parent x y hxy hne hy
      by_cases hxp : x <+: place
      · refine put_on_way hblocked hxp ?_
        intro heq
        rw [heq] at hx
        exact hblocked (.inl hx)
      · rw [put_elsewhere hxp, hx]

theorem unpack_treelike (entries : List (List ν × Bytes)) : Treelike (unpack entries) := by
  have hrun : ∀ entries (t : Extracted ν), Treelike t → Treelike (unpackFrom t entries) := by
    intro entries
    induction entries with
    | nil => exact fun t h => h
    | cons e entries ih => exact fun t h => ih _ (h.put e.1 e.2)
  refine hrun entries _ ⟨rfl, fun x y hxy hne hy => ?_⟩
  have hy' : y = [] := by
    by_contra hcons
    exact hy (if_neg hcons)
  subst hy'
  exact absurd (List.prefix_nil.mp hxy) hne

/-! ## What is extracted -/

/-- The files of the entries are there, the directories on the way to them, and
nothing else. -/
structure Holds (entries : List (List ν × Bytes)) (t : Extracted ν) : Prop where
  file : ∀ e ∈ entries, t e.1 = some (.file e.2)
  directory : ∀ x, (∀ e ∈ entries, e.1 ≠ x) → (x = [] ∨ ∃ e ∈ entries, x <+: e.1) →
    t x = some .directory
  nothing : ∀ x, x ≠ [] → (∀ e ∈ entries, ¬ x <+: e.1) → t x = none

theorem Holds.not_blocked (h : Holds entries t) {e : List ν × Bytes} (hne : e.1 ≠ [])
    (hapart : ∀ e' ∈ entries, Apart e' e) : ¬ Blocked t e.1 := by
  intro hblocked
  rcases hblocked with hdir | ⟨x, hx, hxe, hfile⟩
  · by_cases hsome : ∃ e' ∈ entries, e.1 <+: e'.1
    · obtain ⟨e', he', hprefix⟩ := hsome
      rcases hapart e' he' with ⟨-, hno⟩ | rfl
      · exact hno hprefix
      · rw [h.file e' he'] at hdir
        exact absurd hdir (by simp)
    · rw [h.nothing e.1 hne fun e' he' hp => hsome ⟨e', he', hp⟩] at hdir
      exact absurd hdir (by simp)
  · have hprefix := (List.mem_inits x e.1).mp hx
    obtain ⟨content, hcontent⟩ := fileAt_iff.mp hfile
    by_cases hmem : ∃ e' ∈ entries, e'.1 = x
    · obtain ⟨e', he', rfl⟩ := hmem
      rcases hapart e' he' with ⟨hno, -⟩ | rfl
      · exact hno hprefix
      · exact hxe rfl
    · have hnone : ∀ e' ∈ entries, e'.1 ≠ x := fun e' he' heq => hmem ⟨e', he', heq⟩
      by_cases hway : x = [] ∨ ∃ e' ∈ entries, x <+: e'.1
      · rw [h.directory x hnone hway] at hcontent
        exact absurd hcontent (by simp)
      · rw [h.nothing x (fun heq => hway (.inl heq)) fun e' he' hp =>
          hway (.inr ⟨e', he', hp⟩)] at hcontent
        exact absurd hcontent (by simp)

theorem Holds.put (h : Holds entries t) {e : List ν × Bytes} (hne : e.1 ≠ [])
    (hapart : ∀ e' ∈ entries, Apart e' e) : Holds (entries ++ [e]) (put t e.1 e.2) := by
  have hblocked := h.not_blocked hne hapart
  refine {
    file := ?_
    directory := ?_
    nothing := ?_ }
  · intro e' he'
    rcases List.mem_append.mp he' with he' | he'
    · rcases hapart e' he' with ⟨hno, -⟩ | rfl
      · rw [put_elsewhere hno, h.file e' he']
      · exact put_self hblocked
    · obtain rfl := List.mem_singleton.mp he'
      exact put_self hblocked
  · intro x hx hway
    have hxe : x ≠ e.1 := fun heq => hx e (by simp) heq.symm
    by_cases hprefix : x <+: e.1
    · exact put_on_way hblocked hprefix hxe
    · rw [put_elsewhere hprefix]
      refine h.directory x (fun e' he' => hx e' (by simp [he'])) ?_
      rcases hway with rfl | ⟨e', he', hp⟩
      · exact .inl rfl
      · rcases List.mem_append.mp he' with he' | he'
        · exact .inr ⟨e', he', hp⟩
        · obtain rfl := List.mem_singleton.mp he'
          exact absurd hp hprefix
  · intro x hx hno
    rw [put_elsewhere (hno e (by simp))]
    exact h.nothing x hx fun e' he' => hno e' (by simp [he'])

/-- Entries that are apart from each other are all extracted. -/
theorem unpack_holds (hne : ∀ e ∈ entries, e.1 ≠ []) (hapart : entries.Pairwise Apart) :
    Holds entries (unpack entries) := by
  have hrun : ∀ (todo done : List (List ν × Bytes)) (t : Extracted ν), Holds done t →
      (∀ e ∈ todo, e.1 ≠ []) → (done ++ todo).Pairwise Apart →
        Holds (done ++ todo) (unpackFrom t todo) := by
    intro todo
    induction todo with
    | nil =>
        intro done t h _ _
        rwa [List.append_nil]
    | cons e todo ih =>
        intro done t h hne hapart
        rw [List.append_cons] at hapart ⊢
        refine ih (done ++ [e]) _ (h.put (hne e (.head _)) ?_)
          (fun e' he' => hne e' (.tail _ he')) hapart
        intro e' he'
        have hdone := (List.pairwise_append.mp hapart).1
        exact (List.pairwise_append.mp hdone).2.2 e' he' e (by simp)
  refine hrun entries [] _ ?_ hne hapart
  exact {
    file := fun e he => absurd he (by simp)
    directory := fun x _ hway => by
      rcases hway with rfl | ⟨e, he, -⟩
      · rfl
      · exact absurd he (by simp)
    nothing := fun x hx _ => if_neg hx }

/-- Files that are all extracted are apart from each other. -/
theorem apart_of_unpack (h : ∀ e ∈ entries, unpack entries e.1 = some (.file e.2))
    {a b : List ν × Bytes} (ha : a ∈ entries) (hb : b ∈ entries) : Apart a b := by
  have htree := unpack_treelike entries
  have hway : ∀ a ∈ entries, ∀ b ∈ entries, a.1 <+: b.1 → a = b := by
    intro a ha b hb hprefix
    by_cases heq : a.1 = b.1
    · have hcontent := h a ha
      rw [heq, h b hb] at hcontent
      injection hcontent with hcontent
      injection hcontent with hcontent
      exact Prod.ext heq hcontent.symm
    · have hdir := htree.parent a.1 b.1 hprefix heq (by rw [h b hb]; simp)
      rw [h a ha] at hdir
      exact absurd hdir (by simp)
  by_cases hab : a.1 <+: b.1
  · exact .inr (hway a ha b hb hab)
  · by_cases hba : b.1 <+: a.1
    · exact .inr (hway b hb a ha hba).symm
    · exact .inl ⟨hab, hba⟩

end

end WebSshTool.Files
