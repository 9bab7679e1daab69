import Mathlib.Data.List.Basic
import Mathlib.Tactic.Common

/-!
# Paths as texts and what they come to

A path is a text; a slash separates its segments. Joining one path to another
is an operation on the texts: an absolute second path replaces the first.
Where a path leads is a list of names, found segment by segment from the
directory it starts in, with the root's parent being the root. This is the
lexical reading, in which every name is a directory and none is a link.

`foldl_walk` is the one fact about going up and down again: from any
directory, a relative path climbs some levels and comes down through some
names, and the two numbers depend on the path alone.
-/

namespace WebSshTool.Paths

abbrev Path := List Char

abbrev Name := List Char

def absolute (p : Path) : Prop := p.head? = some '/'

instance (p : Path) : Decidable (absolute p) :=
  inferInstanceAs (Decidable (_ = _))

def segments (p : Path) : List Name := p.splitOn '/'

/-- `PathBuf::join`. -/
def join (p q : Path) : Path :=
  if absolute q then q
  else if p = [] ∨ p.getLast? = some '/' then p ++ q
  else p ++ '/' :: q

/-- One segment, from the directory `dir`. -/
def walk (dir : List Name) (seg : Name) : List Name :=
  if seg = [] ∨ seg = ['.'] then dir
  else if seg = ['.', '.'] then dir.dropLast
  else dir ++ [seg]

/-- Where a path leads when the working directory is `cwd`. -/
def resolve (cwd : List Name) (p : Path) : List Name :=
  (segments p).foldl walk (if absolute p then [] else cwd)

/-- One segment of a relative path, as the levels it has climbed above its
start and the names it has come down since. -/
def climb (pos : Nat × List Name) (seg : Name) : Nat × List Name :=
  if seg = [] ∨ seg = ['.'] then pos
  else if seg = ['.', '.'] then
    if pos.2 = [] then (pos.1 + 1, []) else (pos.1, pos.2.dropLast)
  else (pos.1, pos.2 ++ [seg])

/-- The levels a relative path climbs in all and the names it ends below. -/
def relative (p : Path) : Nat × List Name := (segments p).foldl climb (0, [])

/-! ## Joined paths -/

theorem walk_nil (dir : List Name) : walk dir [] = dir := by simp [walk]

theorem resolve_join_absolute {cwd : List Name} {p q : Path} (h : absolute q) :
    resolve cwd (join p q) = resolve cwd q := by
  rw [join, if_pos h]

/-- A relative path appends its segments, in the place of the empty one behind a
last slash. -/
theorem segments_join {p q : Path} (hp : p ≠ []) (hq : ¬ absolute q) :
    ∃ pre, segments (join p q) = pre ++ segments q ∧
      (segments p = pre ∨ segments p = pre ++ [[]]) := by
  rw [join, if_neg hq]
  split
  · next h =>
      have hlast : p.getLast? = some '/' := h.resolve_left hp
      obtain ⟨p, rfl⟩ : ∃ p', p = p' ++ ['/'] :=
        ⟨p.dropLast, (List.dropLast_append_getLast? _ hlast).symm⟩
      refine ⟨segments p, ?_, .inr (List.splitOn_append_cons_self _ _)⟩
      rw [segments, List.append_assoc, List.singleton_append, List.splitOn_append_cons_self]
      rfl
  · exact ⟨segments p, List.splitOn_append_cons_self _ _, .inl rfl⟩

theorem absolute_join {p q : Path} (hp : p ≠ []) (hq : ¬ absolute q) :
    absolute (join p q) ↔ absolute p := by
  cases p with
  | nil => exact absurd rfl hp
  | cons c p =>
      rw [join, if_neg hq]
      split <;> simp [absolute]

/-- A relative path is walked from where the first path leads. -/
theorem resolve_join_relative {cwd : List Name} {p q : Path} (h : ¬ absolute q) :
    resolve cwd (join p q) = (segments q).foldl walk (resolve cwd p) := by
  by_cases hp : p = []
  · subst hp
    rw [join, if_neg h, if_pos (.inl rfl), List.nil_append, resolve, if_neg h]
    rfl
  · obtain ⟨pre, hjoin, hpre⟩ := segments_join hp h
    have hwalk : ∀ dir, (segments p).foldl walk dir = pre.foldl walk dir := by
      intro dir
      rcases hpre with hpre | hpre
      · rw [hpre]
      · rw [hpre, List.foldl_append, List.foldl_cons, List.foldl_nil, walk_nil]
    rw [resolve, resolve, hjoin, List.foldl_append, hwalk]
    simp only [absolute_join hp h]

/-! ## Going up and down -/

/-- What a walk comes to, from any directory, after climbing and coming down:
the directory loses as many names as were climbed and gains the others. -/
theorem foldl_walk (dir : List Name) (segs : List Name) (up : Nat)
    (down : List Name) :
    segs.foldl walk (dir.take (dir.length - up) ++ down) =
      dir.take (dir.length - (segs.foldl climb (up, down)).1) ++
        (segs.foldl climb (up, down)).2 := by
  induction segs generalizing up down with
  | nil => rfl
  | cons seg segs ih =>
      rw [List.foldl_cons, List.foldl_cons, walk, climb]
      split
      · exact ih up down
      · split
        · by_cases hdown : down = []
          · subst hdown
            have hup : min (min (dir.length - up) dir.length - 1)
                (dir.length - up) = dir.length - (up + 1) := by omega
            rw [if_pos rfl, List.append_nil, List.dropLast_eq_take, List.take_take,
              List.length_take, hup, ← ih (up + 1) [], List.append_nil]
          · rw [if_neg hdown, List.dropLast_append_of_ne_nil hdown]
            exact ih up down.dropLast
        · rw [List.append_assoc]
          exact ih up (down ++ [seg])

theorem foldl_walk_relative (dir : List Name) (p : Path) :
    (segments p).foldl walk dir =
      dir.take (dir.length - (relative p).1) ++ (relative p).2 := by
  have h := foldl_walk dir (segments p) 0 []
  rwa [Nat.sub_zero, List.take_length, List.append_nil] at h

/-- A relative path ends below the directory it starts in exactly when it
comes down again through the names it climbed out of. -/
theorem prefix_walk_iff (dir : List Name) (p : Path) :
    dir <+: (segments p).foldl walk dir ↔
      dir.drop (dir.length - (relative p).1) <+: (relative p).2 := by
  rw [foldl_walk_relative]
  generalize (relative p).1 = up
  generalize (relative p).2 = down
  have hsplit := List.take_append_drop (dir.length - up) dir
  constructor
  · intro h
    have h' : dir.take (dir.length - up) ++ dir.drop (dir.length - up) <+:
        dir.take (dir.length - up) ++ down := by rwa [hsplit]
    exact (List.prefix_append_right_inj _).mp h'
  · intro h
    have h' := (List.prefix_append_right_inj (dir.take (dir.length - up))).mpr h
    rwa [hsplit] at h'

/-! ## Paths of names -/

/-- A name that a directory can hold. -/
structure Proper (name : Name) : Prop where
  nonempty : name ≠ []
  self : name ≠ ['.']
  parent : name ≠ ['.', '.']
  slash : '/' ∉ name

instance (name : Name) : Decidable (Proper name) :=
  decidable_of_iff (name ≠ [] ∧ name ≠ ['.'] ∧ name ≠ ['.', '.'] ∧ '/' ∉ name)
    ⟨fun ⟨h, h', h'', h'''⟩ => ⟨h, h', h'', h'''⟩, fun h => ⟨h.1, h.2, h.3, h.4⟩⟩

/-- The path that goes through these names. -/
def text (names : List Name) : Path := ['/'].intercalate names

section

variable {names : List Name} {p q : Path}

theorem segments_text (hne : names ≠ []) (h : ∀ name ∈ names, Proper name) :
    segments (text names) = names :=
  List.splitOn_intercalate '/' (fun name hname => (h name hname).slash) hne

theorem text_inj {names' : List Name} (hne : names ≠ []) (hne' : names' ≠ [])
    (h : ∀ name ∈ names, Proper name) (h' : ∀ name ∈ names', Proper name)
    (heq : text names = text names') : names = names' := by
  rw [← segments_text hne h, heq, segments_text hne' h']

theorem segments_of_absolute (h : absolute p) : [] ∈ segments p := by
  obtain ⟨q, rfl⟩ : ∃ q, p = '/' :: q := by
    cases p with
    | nil => exact absurd h (by simp [absolute])
    | cons c q => exact ⟨q, by rw [show c = '/' from Option.some.inj h]⟩
  have hsplit : segments ([] ++ '/' :: q) = segments [] ++ segments q :=
    List.splitOn_append_cons_self _ _
  rw [List.nil_append] at hsplit
  rw [hsplit]
  exact List.mem_append_left _ (by decide)

theorem not_absolute_text (h : ∀ name ∈ names, Proper name) : ¬ absolute (text names) := by
  intro habs
  cases names with
  | nil => exact absurd habs (by decide)
  | cons name names =>
      have hmem := segments_of_absolute habs
      rw [segments_text (by simp) h] at hmem
      exact (h [] hmem).nonempty rfl

theorem walk_proper {name : Name} (h : Proper name) (dir : List Name) :
    walk dir name = dir ++ [name] := by
  have hself : ¬ (name = [] ∨ name = ['.']) := by
    rintro (h' | h')
    · exact h.nonempty h'
    · exact h.self h'
  rw [walk, if_neg hself, if_neg h.parent]

theorem foldl_walk_proper (h : ∀ name ∈ names, Proper name) (dir : List Name) :
    names.foldl walk dir = dir ++ names := by
  induction names generalizing dir with
  | nil => simp
  | cons name names ih =>
      rw [List.foldl_cons, walk_proper (h name (.head _)),
        ih (fun name hname => h name (.tail _ hname)), List.append_assoc]
      rfl

theorem foldl_walk_text (h : ∀ name ∈ names, Proper name) (dir : List Name) :
    (segments (text names)).foldl walk dir = dir ++ names := by
  cases names with
  | nil =>
      rw [List.append_nil]
      exact walk_nil dir
  | cons name names => rw [segments_text (by simp) h, foldl_walk_proper h]

theorem resolve_text (h : ∀ name ∈ names, Proper name) (cwd : List Name) :
    resolve cwd (text names) = cwd ++ names := by
  rw [resolve, if_neg (not_absolute_text h), foldl_walk_text h]

theorem resolve_join_text (h : ∀ name ∈ names, Proper name) (cwd : List Name) (p : Path) :
    resolve cwd (join p (text names)) = resolve cwd p ++ names := by
  rw [resolve_join_relative (not_absolute_text h), foldl_walk_text h]

/-- A name is a path. -/
theorem text_singleton (name : Name) : text [name] = name := by simp [text]

theorem segments_name {name : Name} (h : Proper name) : segments name = [name] := by
  have hnames : ∀ n ∈ [name], Proper n := fun n hn => List.mem_singleton.mp hn ▸ h
  have hsegs := segments_text (by simp) hnames
  rwa [text_singleton] at hsegs

theorem not_absolute_name {name : Name} (h : Proper name) : ¬ absolute name := by
  have hnames : ∀ n ∈ [name], Proper n := fun n hn => List.mem_singleton.mp hn ▸ h
  have habs := not_absolute_text hnames
  rwa [text_singleton] at habs

theorem resolve_name {name : Name} (h : Proper name) (cwd : List Name) :
    resolve cwd name = cwd ++ [name] := by
  have hnames : ∀ n ∈ [name], Proper n := fun n hn => List.mem_singleton.mp hn ▸ h
  have hresolve := resolve_text hnames cwd
  rwa [text_singleton] at hresolve

/-! ### Joined to another path -/

theorem mem_segments_join (hp : p ≠ []) (hq : ¬ absolute q) {seg : Name} (hseg : seg ≠ []) :
    seg ∈ segments (join p q) ↔ seg ∈ segments p ∨ seg ∈ segments q := by
  obtain ⟨pre, hjoin, hpre | hpre⟩ := segments_join hp hq
  · rw [hjoin, hpre, List.mem_append]
  · rw [hjoin, hpre, List.mem_append, List.mem_append, List.mem_singleton]
    simp [hseg]

theorem slash_mem_join (hp : p ≠ []) (hq : ¬ absolute q) : '/' ∈ join p q := by
  rw [join, if_neg hq]
  split
  · next h =>
      have hlast : p.getLast? = some '/' := h.resolve_left hp
      exact List.mem_append_left _ (List.mem_of_getLast? hlast)
  · simp

theorem join_inj {q' : Path} (hq : ¬ absolute q) (hq' : ¬ absolute q')
    (h : join p q = join p q') : q = q' := by
  rw [join, join, if_neg hq, if_neg hq'] at h
  split at h
  · exact List.append_cancel_left h
  · exact List.cons_inj_right _ |>.mp (List.append_cancel_left h)

/-! ### The last name -/

/-- `Path::file_name`. -/
def fileName (p : Path) : Option Name :=
  match ((segments p).filter fun seg => seg ≠ [] ∧ seg ≠ ['.']).getLast? with
  | some ['.', '.'] => none
  | last => last

/-- A segment ends where the next slash is. -/
theorem slash_notMem_segments {seg : Name} (h : seg ∈ segments p) : '/' ∉ seg := by
  have hlen : ∀ n (p : Path), p.length ≤ n → ∀ seg ∈ segments p, '/' ∉ seg := by
    intro n
    induction n with
    | zero =>
        intro p hp seg hseg
        obtain rfl := List.length_eq_zero_iff.mp (Nat.le_zero.mp hp)
        obtain rfl := List.mem_singleton.mp hseg
        simp
    | succ n ih =>
        intro p hp seg hseg
        by_cases hslash : '/' ∈ p
        · obtain ⟨first, rest, rfl, hfirst⟩ := List.eq_append_cons_of_mem hslash
          rw [segments, List.splitOn_append_cons_self_of_not_mem hfirst] at hseg
          rcases List.mem_cons.mp hseg with rfl | hseg
          · exact hfirst
          · refine ih rest ?_ seg hseg
            simp only [List.length_append, List.length_cons] at hp
            omega
        · rw [segments, List.splitOn_eq_singleton hslash] at hseg
          obtain rfl := List.mem_singleton.mp hseg
          exact hslash
  exact hlen p.length p (Nat.le_refl _) seg h

theorem fileName_proper {name : Name} (h : fileName p = some name) : Proper name := by
  unfold fileName at h
  split at h
  · exact absurd h (by simp)
  · next hup =>
      have hmem := List.mem_of_getLast? h
      obtain ⟨hseg, hkept⟩ := List.mem_filter.mp hmem
      have hkept : name ≠ [] ∧ name ≠ ['.'] := by simpa using hkept
      refine ⟨hkept.1, hkept.2, ?_, slash_notMem_segments hseg⟩
      rintro rfl
      exact hup h

end

end WebSshTool.Paths
