import GoOutline.Files.Disk
import Mathlib.Data.List.Basic

/-!
# What is written to a disk is there

Whether names lead somewhere depends only on where there are folders and where there are files. So
the operations are described by what they do to `Disk.kind?`.

* `Kind`, `Disk.kind?`: what there is at a place.
* `kind?_put`: one more file or folder changes what is at its place and nothing else.
* `walk_concat_eq_ok_iff`: the names that lead to a place.
* `makeFoldersFrom_eq_ok`: after the folders on the way have been made, they are there, and nothing
  else has changed.
* `Disk.IsWritable`: the paths that lead to where a file can be.
* `write_makeParents`, `readText_write`: a file can be written there, and its text is read back.
-/

namespace GoOutline.Files

/-! ### Kinds -/

/-- Files and folders. -/
inductive Kind where
  | file | folder
deriving DecidableEq

namespace FileTree

/-- Whether a tree is a file or a folder. -/
def kind : FileTree → Kind
  | file _ => .file
  | folder _ => .folder

/-- What there is at the end of a path of names. -/
def kind? (t : FileTree) (place : List String) : Option Kind := (t.get? place).map kind

variable {t new : FileTree} {name other : String} {place p : List String}

@[simp] theorem kind?_nil : t.kind? [] = some t.kind := rfl

theorem kind?_cons : t.kind? (name :: place) = (t.child? name).bind (·.kind? place) := by
  rw [kind?, get?]
  cases t.child? name <;> rfl

theorem exists_folder_of_kind (h : t.kind = .folder) : ∃ entries, t = folder entries := by
  cases t with
  | file text => nomatch h
  | folder entries => exact ⟨entries, rfl⟩

theorem child?_eq_none_of_kind (h : t.kind ≠ .folder) (name : String) : t.child? name = none := by
  cases t with
  | file text => rfl
  | folder entries => exact absurd rfl h

theorem lookup_filter_ne (entries : List (String × FileTree)) (h : other ≠ name) :
    (entries.filter (·.1 != name)).lookup other = entries.lookup other := by
  induction entries with
  | nil => rfl
  | cons entry entries ih =>
    obtain ⟨key, below⟩ := entry
    by_cases hkey : key = name
    · have hother : (other == key) = false := beq_false_of_ne (hkey ▸ h)
      rw [List.filter_cons_of_neg (by simp [hkey]), ih, List.lookup_cons, hother]
    · rw [List.filter_cons_of_pos (by simp [hkey]), List.lookup_cons, List.lookup_cons, ih]

theorem child?_withEntry (h : t.kind = .folder) (name other : String) (new : FileTree) :
    (t.withEntry name new).child? other = if other = name then some new else t.child? other := by
  obtain ⟨entries, rfl⟩ := exists_folder_of_kind h
  show ((name, new) :: entries.filter (·.1 != name)).lookup other = _
  by_cases hother : other = name
  · rw [if_pos hother, hother, List.lookup_cons_self]
  · rw [if_neg hother, List.lookup_cons, beq_false_of_ne hother]
    exact lookup_filter_ne entries hother

theorem kind_withEntry (t : FileTree) (name : String) (new : FileTree) :
    (t.withEntry name new).kind = t.kind := by
  cases t <;> rfl

theorem kind_of_child? {below : FileTree} (h : t.child? name = some below) : t.kind = .folder := by
  cases t with
  | file text => nomatch h
  | folder entries => rfl

/-! ### One more file or folder -/

theorem put_singleton : t.put [name] new = t.withEntry name new := by
  rw [put]
  cases t.child? name <;> rfl

/-- What is put somewhere is there. -/
theorem get?_put (h : t.kind? place = some .folder) :
    (t.put (place ++ [name]) new).get? (place ++ [name]) = some new := by
  induction place generalizing t with
  | nil =>
    have hkind : t.kind = .folder := Option.some.inj h
    rw [List.nil_append, put_singleton, get?, child?_withEntry hkind, if_pos rfl]
    rfl
  | cons first place ih =>
    rw [kind?_cons] at h
    obtain ⟨below, hbelow, hplace⟩ := Option.bind_eq_some_iff.mp h
    rw [List.cons_append, put, hbelow, get?, child?_withEntry (kind_of_child? hbelow), if_pos rfl]
    exact ih hplace

/-- Where there is no folder there is nothing below. -/
theorem kind?_below (h : t.kind? [name] ≠ some .folder) (other : String) (p : List String) :
    t.kind? (name :: other :: p) = none := by
  rw [kind?_cons] at h ⊢
  cases hbelow : t.child? name with
  | none => rfl
  | some below =>
    have hkind : below.kind ≠ .folder := fun hkind => h (by rw [hbelow, ← hkind]; rfl)
    rw [Option.bind_some, kind?_cons, child?_eq_none_of_kind hkind]
    rfl

/-- What is above something is a folder. -/
theorem kind?_of_concat {kind : Kind} (h : t.kind? (place ++ [name]) = some kind) :
    t.kind? place = some .folder := by
  induction place generalizing t with
  | nil =>
    rw [List.nil_append, kind?_cons] at h
    obtain ⟨below, hbelow, -⟩ := Option.bind_eq_some_iff.mp h
    exact congrArg some (kind_of_child? hbelow)
  | cons first place ih =>
    rw [List.cons_append, kind?_cons] at h
    obtain ⟨below, hbelow, hplace⟩ := Option.bind_eq_some_iff.mp h
    rw [kind?_cons, hbelow]
    exact ih hplace

/-- Something without entries changes what is at its place and nothing else. -/
theorem kind?_put (hplace : t.kind? place = some .folder) (hnew : ∀ name, new.child? name = none)
    (hold : t.kind? (place ++ [name]) ≠ some .folder) (p : List String) :
    (t.put (place ++ [name]) new).kind? p
      = if p = place ++ [name] then some new.kind else t.kind? p := by
  induction place generalizing t p with
  | nil =>
    have hkind : t.kind = .folder := Option.some.inj hplace
    rw [List.nil_append, put_singleton]
    cases p with
    | nil => rw [kind?_nil, kind?_nil, kind_withEntry, if_neg (List.cons_ne_nil _ _).symm]
    | cons other p =>
      rw [kind?_cons, child?_withEntry hkind]
      by_cases hother : other = name
      · subst hother
        rw [if_pos rfl, Option.bind_some]
        cases p with
        | nil => rw [if_pos rfl, kind?_nil]
        | cons below p => rw [if_neg (by simp), kind?_cons, hnew, kind?_below hold]; rfl
      · rw [if_neg hother, if_neg (by simp [hother]), kind?_cons]
  | cons first place ih =>
    rw [kind?_cons] at hplace
    obtain ⟨below, hbelow, hinner⟩ := Option.bind_eq_some_iff.mp hplace
    have hkind := kind_of_child? hbelow
    have hold' : below.kind? (place ++ [name]) ≠ some .folder := by
      rwa [List.cons_append, kind?_cons, hbelow] at hold
    rw [List.cons_append, put, hbelow]
    cases p with
    | nil => rw [kind?_nil, kind?_nil, kind_withEntry, if_neg (List.cons_ne_nil _ _).symm]
    | cons other p =>
      rw [kind?_cons, kind?_cons, child?_withEntry hkind]
      by_cases hother : other = first
      · subst hother
        rw [if_pos rfl, Option.bind_some, ih hinner hold' p, hbelow, Option.bind_some]
        simp only [List.cons.injEq, true_and]
      · rw [if_neg hother, if_neg (by simp [hother])]

end FileTree

/-! ### Along a path -/

namespace Disk

/-- What there is at a place. -/
def kind? (d : Disk) (place : List String) : Option Kind := d.root.kind? place

variable {d : Disk} {start names place : List String} {name : String}

theorem walk_cons (d : Disk) (place : List String) (name : String) (names : List String) :
    d.walk place (name :: names) = match d.kind? place with
      | none => .error .notFound
      | some .file => .error .notFolder
      | some .folder => d.walk (step place name) names := by
  rw [walk, kind?, FileTree.kind?]
  cases d.root.get? place with
  | none => rfl
  | some found => cases found <;> rfl

/-- The places that some names lead through, from the first to the last. -/
def places (start : List String) : List String → List (List String)
  | [] => [start]
  | name :: names => start :: places (step start name) names

theorem places_concat (start names : List String) (name : String) :
    places start (names ++ [name])
      = places start names ++ [step (names.foldl step start) name] := by
  induction names generalizing start with
  | nil => rfl
  | cons first names ih =>
    rw [List.cons_append, places, ih, places, List.cons_append, List.foldl_cons]

theorem first_mem_places (start names : List String) : start ∈ places start names := by
  cases names <;> exact List.mem_cons_self

theorem last_mem_places (start names : List String) :
    names.foldl step start ∈ places start names := by
  induction names generalizing start with
  | nil => exact List.mem_singleton_self start
  | cons first names ih => exact List.mem_cons_of_mem start (ih (step start first))

/-- Names lead somewhere if there are folders at all places before it. -/
theorem walk_concat_eq_ok_iff (d : Disk) (start names place : List String) (name : String) :
    d.walk start (names ++ [name]) = .ok place ↔
      (∀ p ∈ places start names, d.kind? p = some .folder) ∧
        place = step (names.foldl step start) name := by
  induction names generalizing start with
  | nil =>
    rw [List.nil_append, walk_cons, places]
    cases hkind : d.kind? start with
    | none => simp [hkind]
    | some kind =>
      cases kind with
      | file => simp [hkind]
      | folder => simp [hkind, walk, eq_comm]
  | cons first names ih =>
    rw [List.cons_append, walk_cons, places, List.forall_mem_cons, List.foldl_cons]
    cases hkind : d.kind? start with
    | none => simp
    | some kind =>
      cases kind with
      | file => simp
      | folder =>
        show d.walk (step start first) (names ++ [name]) = .ok place ↔ _
        rw [ih, and_assoc]
        exact ⟨fun h => ⟨rfl, h⟩, fun h => h.2⟩

/-- Where no file is in the way, only something missing can be. -/
theorem walk_concat_eq_error {start names : List String} (name : String)
    (hclear : ∀ p ∈ places start names, d.kind? p ≠ some .file) :
    d.walk start (names ++ [name]) = .error .notFound ∨
      ∀ p ∈ places start names, d.kind? p = some .folder := by
  induction names generalizing start with
  | nil =>
    rw [List.nil_append, walk_cons, places]
    have hstart := hclear start List.mem_cons_self
    cases hkind : d.kind? start with
    | none => exact .inl rfl
    | some kind =>
      cases kind with
      | file => exact absurd hkind hstart
      | folder => exact .inr (by simpa using hkind)
  | cons first names ih =>
    rw [List.cons_append, walk_cons, places]
    obtain ⟨hstart, hclear⟩ := List.forall_mem_cons.mp hclear
    cases hkind : d.kind? start with
    | none => exact .inl rfl
    | some kind =>
      cases kind with
      | file => exact absurd hkind hstart
      | folder => exact (ih hclear).imp id fun h => List.forall_mem_cons.mpr ⟨hkind, h⟩

/-! ### Making folders -/

theorem kind?_dropLast (h : d.kind? place = some .folder) :
    d.kind? place.dropLast = some .folder := by
  rcases List.eq_nil_or_concat place with rfl | ⟨init, name, rfl⟩
  · exact h
  · rw [List.concat_eq_append, List.dropLast_concat]
    exact FileTree.kind?_of_concat (List.concat_eq_append ▸ h)

/-- From a folder only a name can lead to a place where there is no folder. -/
theorem step_eq_concat (hplace : d.kind? place = some .folder)
    (hstep : d.kind? (step place name) ≠ some .folder) : step place name = place ++ [name] := by
  rw [step] at hstep ⊢
  split
  next hback =>
    rw [if_pos hback] at hstep
    exact absurd (kind?_dropLast hplace) hstep
  next => rfl

/-- A disk with something without entries at a place below a folder. -/
theorem kind?_put {new : FileTree} (hplace : d.kind? place = some .folder)
    (hnew : ∀ name, new.child? name = none) (hstep : d.kind? (step place name) ≠ some .folder)
    (p : List String) :
    ({ d with root := d.root.put (step place name) new } : Disk).kind? p
      = if p = step place name then some new.kind else d.kind? p := by
  have hconcat := step_eq_concat hplace hstep
  rw [hconcat] at hstep ⊢
  exact FileTree.kind?_put hplace hnew hstep p

theorem makeFolder_of_walk (h : d.walk start names = .ok place) :
    d.makeFolder start names
      = if (d.kind? place).isSome then .error .exists_
        else .ok { d with root := d.root.put place (.folder []) } := by
  rw [makeFolder, h, kind?, FileTree.kind?]
  show (pure place >>= _) = _
  rw [pure_bind]
  cases d.root.get? place <;> rfl

theorem leadsToFolder_of_walk (h : d.walk start names = .ok place) :
    d.leadsToFolder start names = decide (d.kind? place = some .folder) := by
  rw [leadsToFolder, h, kind?, FileTree.kind?]
  show (d.root.get? place).any FileTree.isFolder = _
  cases d.root.get? place with
  | none => rfl
  | some found => cases found <;> rfl

theorem ensureFolder_of_walk (h : d.walk start names = .ok place) :
    d.ensureFolder start names
      = if d.kind? place = none then .ok { d with root := d.root.put place (.folder []) }
        else if d.kind? place = some .folder then .ok d
        else .error .exists_ := by
  rw [ensureFolder, makeFolder_of_walk h, leadsToFolder_of_walk h]
  cases d.kind? place with
  | none => rfl
  | some kind => cases kind <;> rfl

/-- The last folder is made, or kept, if the others are there. -/
theorem ensureFolder_concat (hway : ∀ p ∈ places start names, d.kind? p = some .folder)
    (hlast : d.kind? (step (names.foldl step start) name) ≠ some .file) :
    ∃ d', d.ensureFolder start (names ++ [name]) = .ok d' ∧ d'.here = d.here ∧
      ∀ p, d'.kind? p
        = if p = step (names.foldl step start) name then some .folder else d.kind? p := by
  have hwalk := (walk_concat_eq_ok_iff d start names _ name).mpr ⟨hway, rfl⟩
  have hplace := hway _ (last_mem_places start names)
  rw [ensureFolder_of_walk hwalk]
  by_cases hnone : d.kind? (step (names.foldl step start) name) = none
  · rw [if_pos hnone]
    exact ⟨_, rfl, rfl, kind?_put hplace (fun _ => rfl) (by rw [hnone]; simp)⟩
  · have hfolder : d.kind? (step (names.foldl step start) name) = some .folder := by
      obtain ⟨kind, hkind⟩ := Option.ne_none_iff_exists'.mp hnone
      cases kind with
      | file => exact absurd hkind hlast
      | folder => exact hkind
    rw [if_neg hnone, if_pos hfolder]
    refine ⟨d, rfl, rfl, fun p => ?_⟩
    split
    next hp => rw [hp, hfolder]
    next => rfl

/-- **Folders on the way are made.** Afterwards there is a folder at each of the places, and nothing
else has changed. -/
theorem makeFoldersFrom_eq_ok (hstart : d.kind? start = some .folder)
    (hclear : ∀ p ∈ places start names.reverse, d.kind? p ≠ some .file) :
    ∃ d', makeFoldersFrom start names d = .ok d' ∧ d'.here = d.here ∧
      ∀ p, d'.kind? p = if p ∈ places start names.reverse then some .folder else d.kind? p := by
  induction names with
  | nil =>
    refine ⟨d, rfl, rfl, fun p => ?_⟩
    split
    next hp => rw [List.mem_singleton.mp hp, hstart]
    next => rfl
  | cons name names ih =>
    rw [List.reverse_cons, places_concat] at hclear ⊢
    obtain ⟨hclear, hlast⟩ := List.forall_mem_append.mp hclear
    have hlast := hlast _ (List.mem_singleton_self _)
    simp only [List.mem_append, List.mem_singleton]
    rw [makeFoldersFrom, List.reverse_cons]
    rcases walk_concat_eq_error name hclear with hmissing | hway
    · -- One of the folders is missing: all of them are made, and then the last one.
      obtain ⟨d₁, hmade, hhere, hkinds⟩ := ih hclear
      have hway : ∀ p ∈ places start names.reverse, d₁.kind? p = some .folder := fun p hp => by
        rw [hkinds, if_pos hp]
      have hlast₁ : d₁.kind? (step (names.reverse.foldl step start) name) ≠ some .file := by
        rw [hkinds]
        split
        · simp
        · exact hlast
      obtain ⟨d', hensured, hhere', hkinds'⟩ := ensureFolder_concat hway hlast₁
      refine ⟨d', ?_, hhere'.trans hhere, fun p => ?_⟩
      · rw [makeFolder, hmissing, hmade]
        exact hensured
      · rw [hkinds', hkinds]
        grind
    · have hwalk := (walk_concat_eq_ok_iff d start names.reverse _ name).mpr ⟨hway, rfl⟩
      obtain ⟨d', hensured, hhere, hkinds⟩ := ensureFolder_concat hway hlast
      refine ⟨d', ?_, hhere, fun p => ?_⟩
      · rw [makeFolder_of_walk hwalk]
        cases d.kind? (step (names.reverse.foldl step start) name) <;> exact hensured
      · rw [hkinds]
        grind

/-- What making folders can do to a disk: everything that was there is kept, and the folder in which
the way begins is not made. -/
structure Extends (start : List String) (d d' : Disk) : Prop where
  here : d'.here = d.here
  kept : ∀ p kind, d.kind? p = some kind → d'.kind? p = some kind
  start : d'.kind? start = some .folder → d.kind? start = some .folder

theorem Extends.refl (start : List String) (d : Disk) : Extends start d d :=
  ⟨rfl, fun _ _ => id, id⟩

theorem Extends.trans {d₁ d₂ : Disk} (h₁ : Extends start d d₁) (h₂ : Extends start d₁ d₂) :
    Extends start d d₂ :=
  ⟨h₂.here.trans h₁.here, fun p kind h => h₂.kept p kind (h₁.kept p kind h), fun h =>
    h₁.start (h₂.start h)⟩

theorem extends_of_ensureFolder {d' : Disk}
    (h : d.ensureFolder start (names ++ [name]) = .ok d') : Extends start d d' := by
  cases hwalk : d.walk start (names ++ [name]) with
  | error fault =>
    rw [ensureFolder, makeFolder, leadsToFolder, hwalk] at h
    nomatch h
  | ok place =>
    obtain ⟨hway, rfl⟩ := (walk_concat_eq_ok_iff d start names place name).mp hwalk
    have hstart := hway start (first_mem_places start names)
    have hplace := hway _ (last_mem_places start names)
    rw [ensureFolder_of_walk hwalk] at h
    split at h
    next hnone =>
      obtain rfl := Except.ok.inj h
      refine ⟨rfl, fun p kind hp => ?_, fun _ => hstart⟩
      rw [kind?_put hplace (fun _ => rfl) (by rw [hnone]; simp), if_neg, hp]
      rintro rfl
      rw [hnone] at hp
      nomatch hp
    next =>
      split at h
      · obtain rfl := Except.ok.inj h
        exact .refl start d
      · nomatch h

theorem extends_of_makeFoldersFrom {d' : Disk} (h : makeFoldersFrom start names d = .ok d') :
    Extends start d d' := by
  induction names generalizing d' with
  | nil =>
    obtain rfl := Except.ok.inj h
    exact .refl start d
  | cons name names ih =>
    rw [makeFoldersFrom, List.reverse_cons] at h
    split at h
    · cases hmade : makeFoldersFrom start names d with
      | error fault =>
        rw [hmade] at h
        nomatch h
      | ok d₁ =>
        rw [hmade] at h
        exact (ih hmade).trans (extends_of_ensureFolder h)
    · exact extends_of_ensureFolder h

/-! ### Writing and reading -/

/-- A path that can be that of a file has a last name. -/
theorem exists_pathNames {path : String} (h : namesFolder path = false) :
    path.isEmpty = false ∧ ∃ name, pathNames path = (pathNames path).dropLast ++ [name] := by
  refine ⟨?_, ?_⟩
  · rw [Bool.eq_false_iff]
    intro hempty
    rw [String.isEmpty_iff.mp hempty] at h
    exact absurd h (by decide)
  · have hnonempty : pathNames path ≠ [] := by
      rw [namesFolder] at h
      split at h
      next piece hlast =>
        rw [Bool.or_eq_false_iff] at h
        refine List.ne_nil_of_mem (List.mem_map_of_mem (List.mem_filter.mpr
          ⟨List.mem_of_getLast? hlast, ?_⟩))
        simp only [h.1, bne, h.2]
        rfl
      next => exact absurd h (by decide)
    exact ⟨_, (List.dropLast_concat_getLast hnonempty).symm⟩

/-- The place that a path leads to. -/
def goal (d : Disk) (path : String) : List String := (pathNames path).foldl step (d.start path)

/-- The places before it. -/
def way (d : Disk) (path : String) : List (List String) :=
  places (d.start path) (pathNames path).dropLast

section

variable {path text : String} {d' : Disk}

/-- Where a path leads depends only on the folder in which it begins. -/
theorem way_goal_of_here (h : d'.here = d.here) (path : String) :
    d'.way path = d.way path ∧ d'.goal path = d.goal path := by
  have hstart : d'.start path = d.start path := by rw [Disk.start, Disk.start, h]
  exact ⟨by rw [way, way, hstart], by rw [goal, goal, hstart]⟩

theorem goal_eq_step (hfile : namesFolder path = false) (d : Disk) :
    ∃ name, pathNames path = (pathNames path).dropLast ++ [name] ∧
      d.goal path = step ((pathNames path).dropLast.foldl step (d.start path)) name := by
  obtain ⟨-, name, hnames⟩ := exists_pathNames hfile
  refine ⟨name, hnames, ?_⟩
  rw [goal, hnames, List.foldl_append, List.dropLast_concat]
  rfl

theorem place_eq_ok_iff (hfile : namesFolder path = false) :
    d.place path = .ok place ↔
      (∀ p ∈ d.way path, d.kind? p = some .folder) ∧ place = d.goal path := by
  obtain ⟨name, hnames, hgoal⟩ := goal_eq_step hfile d
  rw [Disk.place, (exists_pathNames hfile).1, hgoal, way, ← walk_concat_eq_ok_iff, ← hnames]
  rfl

theorem write_of_place (h : d.place path = .ok place) :
    d.write path text =
      if d.kind? place = some .folder then .error .isFolder
      else if !namesFolder path then .ok { d with root := d.root.put place (.file (some text)) }
      else if !endsInDot path then .error .isFolder
      else .error (if (d.kind? place).isSome then .notFolder else .notFound) := by
  rw [write, h, kind?, FileTree.kind?]
  show (pure place >>= _) = _
  rw [pure_bind]
  cases d.root.get? place with
  | none => rfl
  | some found => cases found <;> rfl

/-- A file is written if there are folders on the way and none at the end. -/
theorem write_eq_ok_iff : d.write path text = .ok d' ↔
    namesFolder path = false ∧ (∀ p ∈ d.way path, d.kind? p = some .folder) ∧
      d.kind? (d.goal path) ≠ some .folder ∧
        d' = { d with root := d.root.put (d.goal path) (.file (some text)) } := by
  constructor
  · intro h
    cases hplace : d.place path with
    | error fault =>
      rw [write, hplace] at h
      nomatch h
    | ok place =>
      rw [write_of_place hplace] at h
      split at h
      next => nomatch h
      next hfolder =>
        split at h
        next hfile =>
          rw [Bool.not_eq_true'] at hfile
          obtain ⟨hway, rfl⟩ := (place_eq_ok_iff hfile).mp hplace
          exact ⟨hfile, hway, hfolder, (Except.ok.inj h).symm⟩
        next =>
          split at h
          · nomatch h
          · nomatch h
  · rintro ⟨hfile, hway, hgoal, rfl⟩
    have hplace := (place_eq_ok_iff hfile).mpr ⟨hway, rfl⟩
    rw [write_of_place hplace, if_neg hgoal, if_pos (by rw [hfile]; rfl)]

theorem find_of_place {content : Option String} (hfile : namesFolder path = false)
    (hplace : d.place path = .ok place) (hget : d.root.get? place = some (.file content)) :
    d.find path = .ok (.file content) := by
  rw [find, hplace]
  show (pure place >>= _) = _
  rw [pure_bind, hget, hfile]
  rfl

/-- **What has been written to a file is read from it.** -/
theorem readText_write (h : d.write path text = .ok d') : d'.readText path = .ok text := by
  obtain ⟨hfile, hway, hgoal, hd'⟩ := write_eq_ok_iff.mp h
  obtain ⟨name, -, hstep⟩ := goal_eq_step hfile d
  have hplace := hway _ (last_mem_places _ _)
  rw [hstep] at hgoal hd'
  obtain ⟨hsameway, hsame⟩ := way_goal_of_here (show d'.here = d.here by rw [hd']) path
  -- The folders on the way are still there, so the path leads to the same place.
  have hkinds : ∀ p ∈ d'.way path, d'.kind? p = some .folder := by
    rw [hsameway, hd']
    intro p hp
    have hne : p ≠ step ((pathNames path).dropLast.foldl step (d.start path)) name := fun heq =>
      hgoal (heq ▸ hway p hp)
    rw [kind?_put hplace (fun _ => rfl) hgoal, if_neg hne, hway p hp]
  have hget : d'.root.get? (d'.goal path) = some (.file (some text)) := by
    rw [hsame, hd', hstep, step_eq_concat hplace hgoal]
    exact FileTree.get?_put hplace
  have hlead := (place_eq_ok_iff hfile).mpr ⟨hkinds, rfl⟩
  rw [readText, find_of_place hfile hlead hget]
  rfl

end

/-! ### Writable paths -/

/-- The paths at which a file can be written. It need not be there yet, nor the folders on the way
to it. -/
structure IsWritable (d : Disk) (path : String) : Prop where
  /-- The path can be that of a file. -/
  isFile : namesFolder path = false
  start : d.kind? (d.start path) = some .folder
  /-- No file is in the way. -/
  clear : ∀ p ∈ d.way path, d.kind? p ≠ some .file
  /-- There is no folder at the end, nor is one made there. -/
  goal : d.kind? (d.goal path) ≠ some .folder ∧ d.goal path ∉ d.way path

/-- **A file can be written at a writable path** once the folders on the way have been made. -/
theorem write_makeParents {path : String} (h : d.IsWritable path) (text : String) :
    ∃ d₁ d₂, d.makeParents path = .ok d₁ ∧ d₁.write path text = .ok d₂ := by
  have hclear := h.clear
  rw [way, ← List.reverse_reverse (pathNames path).dropLast] at hclear
  obtain ⟨d₁, hmade, hhere, hkinds⟩ := makeFoldersFrom_eq_ok h.start hclear
  obtain ⟨hway, hgoal⟩ := way_goal_of_here hhere path
  rw [List.reverse_reverse, ← way] at hkinds
  refine ⟨d₁, _, hmade, write_eq_ok_iff.mpr ⟨h.isFile, fun p hp => ?_, ?_, rfl⟩⟩
  · rw [hkinds, if_pos (hway ▸ hp)]
  · rw [hgoal, hkinds, if_neg h.goal.2]
    exact h.goal.1

/-- At no other path can a file be written. -/
theorem isWritable_of_write {path text : String} {d₁ d₂ : Disk}
    (hmade : d.makeParents path = .ok d₁) (hwrite : d₁.write path text = .ok d₂) :
    d.IsWritable path := by
  have hextends := extends_of_makeFoldersFrom hmade
  obtain ⟨hfile, hfolders, hfree, -⟩ := write_eq_ok_iff.mp hwrite
  obtain ⟨hway, hgoal⟩ := way_goal_of_here hextends.here path
  rw [hway] at hfolders
  rw [hgoal] at hfree
  refine ⟨hfile, hextends.start (hfolders _ (first_mem_places _ _)), fun p hp hkind => ?_,
    fun hkind => ?_, fun hmem => ?_⟩
  · have hsame := hextends.kept p .file hkind
    rw [hfolders p hp] at hsame
    nomatch hsame
  · exact hfree (hextends.kept _ _ hkind)
  · exact hfree (hfolders _ hmem)

end Disk

end GoOutline.Files
