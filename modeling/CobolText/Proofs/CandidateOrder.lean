import CobolText.Proofs.Spellings

/-!
# The order of the candidates

The candidates for a copybook name are what the directories give one after the other, each path
where it comes first.  So one more search path only adds candidates behind those that are there, and
what an earlier directory gives is found before anything that only a later one gives.
-/

namespace CobolText

section Repetitions

variable {α : Type} [BEq α] [LawfulBEq α]

lemma nodup_eraseDups (xs : List α) : xs.eraseDups.Nodup := by
  match xs with
  | [] => simp
  | x :: xs =>
    rw [List.eraseDups_cons, List.nodup_cons]
    constructor
    · simp
    · exact nodup_eraseDups (xs.filter fun y => !y == x)
termination_by xs.length
decreasing_by
  exact Nat.lt_succ_of_le (List.length_filter_le ..)

/-- The first element with a property is the first one without repetitions. -/
lemma find?_eraseDups (f : α → Bool) (xs : List α) : xs.eraseDups.find? f = xs.find? f := by
  match xs with
  | [] => simp
  | x :: xs =>
    rw [List.eraseDups_cons, List.find?_cons, List.find?_cons, find?_eraseDups f, List.find?_filter]
    cases hx : f x with
    | true => rfl
    | false =>
      have hother : ∀ y, (decide ((!y == x) = true ∧ f y = true)) = f y := by
        intro y
        by_cases hy : y = x
        · simp [hy, hx]
        · simp [hy]
      simp only [hother]
termination_by xs.length
decreasing_by
  exact Nat.lt_succ_of_le (List.length_filter_le ..)

end Repetitions

variable {σ : Type} {files : FileAccess (StateM σ)} {fs fs' : σ}

/-- Whether a path leads to a file. -/
def FileAccess.there (files : FileAccess (StateM σ)) (fs : σ) (path : Path) : Bool :=
  ((files.isFile path).run fs).1

namespace SearchPlan

variable {p : SearchPlan} {name : String} {library : Option String}

/-- The subdirectories for a library come before the search path itself.  A library with an empty
name is no library. -/
lemma directoriesAt_eq (p : SearchPlan) (library : Option String) (base : Path) :
    p.directoriesAt library base =
      (if library.getD "" = "" then [] else (p.variants (library.getD "")).map base.child) ++
        [base] := by
  cases library with
  | none => rfl
  | some lib =>
    by_cases h : lib = ""
    · simp [directoriesAt, h]
    · simp [directoriesAt, h]

/-- The directories that are searched, in the order in which they are. -/
def directories (p : SearchPlan) (library : Option String) : List Path :=
  p.paths.flatMap (p.directoriesAt library)

/-- What directories give for a name, one directory after the other. -/
def given (p : SearchPlan) (name : String) (directories : List Path) : List Path :=
  directories.flatMap (p.candidatesIn name)

lemma relativeCandidates_eq (p : SearchPlan) (name : String) (library : Option String) :
    p.relativeCandidates name library = (p.given name (p.directories library)).eraseDups :=
  rfl

lemma candidates_eq_ok_iff {paths : List Path} :
    p.candidates name library = .ok paths ↔
      .unusable ∉ p.extensions ∧ p.relativeCandidates name library = paths := by
  unfold candidates
  by_cases h : .unusable ∈ p.extensions
  · simp [h]
  · simp [h]

lemma candidatesFor_of_relative (h : (Path.ofString name).isAbsolute = false) :
    p.candidatesFor name library = p.candidates name library := by
  rw [candidatesFor, h]
  rfl

/-- A name is extended by a text. -/
lemma exists_of_extend? {x : Extension} {extended : String} (h : extend? name x = some extended) :
    ∃ text, extended = name ++ text := by
  cases x with
  | ending text =>
    simp only [extend?] at h
    split at h
    · cases h
    · exact ⟨text, (Option.some.inj h).symm⟩
  | unset written => exact ⟨written, (Option.some.inj h).symm⟩
  | unusable => cases h

section Addition

/-- One more path changes nothing else, and stands last. -/
lemma addPath_eq (p : SearchPlan) (path : Path) :
    ∃ more, p.addPath path = { p with paths := p.paths ++ more } := by
  unfold addPath
  split
  · exact ⟨[], by rw [List.append_nil]⟩
  · exact ⟨[path], rfl⟩

lemma directories_append (p : SearchPlan) (library : Option String) (more : List Path) :
    ({ p with paths := p.paths ++ more } : SearchPlan).directories library =
      p.directories library ++ more.flatMap (p.directoriesAt library) :=
  List.flatMap_append

lemma given_append (p : SearchPlan) (name : String) (xs ys : List Path) :
    p.given name (xs ++ ys) = p.given name xs ++ p.given name ys :=
  List.flatMap_append

lemma relativeCandidates_addPath (p : SearchPlan) (path : Path) (name : String)
    (library : Option String) :
    p.relativeCandidates name library <+: (p.addPath path).relativeCandidates name library := by
  obtain ⟨more, hplan⟩ := p.addPath_eq path
  rw [hplan, relativeCandidates_eq, relativeCandidates_eq, directories_append]
  change _ <+: (p.given name _).eraseDups
  rw [given_append, List.eraseDups_append]
  exact List.prefix_append ..

lemma candidates_addPath {before : List Path} (path : Path)
    (h : p.candidates name library = .ok before) :
    ∃ after, (p.addPath path).candidates name library = .ok after ∧ before <+: after := by
  obtain ⟨husable, rfl⟩ := candidates_eq_ok_iff.mp h
  have hextensions : (p.addPath path).extensions = p.extensions := by
    obtain ⟨more, hplan⟩ := p.addPath_eq path
    rw [hplan]
  exact ⟨_, candidates_eq_ok_iff.mpr ⟨by rwa [hextensions], rfl⟩,
    p.relativeCandidates_addPath path name library⟩

/-- The candidates for an absolute name do not depend on the search paths. -/
lemma candidatesFor_addPath {before : List Path} (path : Path)
    (h : p.candidatesFor name library = .ok before) :
    ∃ after, (p.addPath path).candidatesFor name library = .ok after ∧ before <+: after := by
  cases habsolute : (Path.ofString name).isAbsolute with
  | true =>
    obtain ⟨more, hplan⟩ := p.addPath_eq path
    refine ⟨before, ?_, List.prefix_rfl⟩
    rw [← h, hplan, candidatesFor, candidatesFor, habsolute]
    rfl
  | false =>
    rw [candidatesFor_of_relative habsolute] at h ⊢
    exact candidates_addPath path h

end Addition

section Finding

variable {position : Option Position} {found : Path}

/-- The file of a copybook is the first candidate that is there. -/
lemma find_eq_ok_iff :
    (p.find files name library position).run fs = (.ok found, fs') ↔
      ∃ paths, p.candidatesFor name library = .ok paths ∧
        (firstFile? files paths).run fs = (some found, fs') := by
  unfold find
  cases hpaths : p.candidatesFor name library with
  | error fault =>
    constructor
    · intro hfound
      cases hfound
    · rintro ⟨paths, ⟨⟩, -⟩
  | ok paths =>
    simp only [Except.ok.injEq, exists_eq_left', access_bind_iff]
    constructor
    · rintro ⟨first, fs₁, hfirst, hend⟩
      cases first with
      | none => cases hend
      | some q =>
        obtain ⟨hq, rfl⟩ := Prod.mk.inj hend
        rw [hfirst, Except.ok.inj hq]
    · intro hfirst
      exact ⟨_, _, hfirst, rfl⟩

/-- A search that has found a file does not look at further candidates. -/
lemma firstFile?_append {xs : List Path} (ys : List Path)
    (h : (firstFile? files xs).run fs = (some found, fs')) :
    (firstFile? files (xs ++ ys)).run fs = (some found, fs') := by
  induction xs generalizing fs with
  | nil => cases h
  | cons x xs ih =>
    obtain ⟨here, fs₁, hhere, hrest⟩ := access_bind_iff.mp h
    refine access_bind_iff.mpr ⟨here, fs₁, hhere, ?_⟩
    cases here with
    | true => exact hrest
    | false => exact ih hrest

lemma mem_of_firstFile? {paths : List Path}
    (h : (firstFile? files paths).run fs = (some found, fs')) : found ∈ paths := by
  induction paths generalizing fs with
  | nil => cases h
  | cons path paths ih =>
    obtain ⟨here, fs₁, -, hrest⟩ := access_bind_iff.mp h
    cases here with
    | true =>
      obtain ⟨hfound, -⟩ := Prod.mk.inj hrest
      rw [← Option.some.inj hfound]
      exact List.mem_cons_self
    | false => exact List.mem_cons_of_mem _ (ih hrest)

lemma firstFile?_eq_find? (h : files.Unchanging fs) (paths : List Path) :
    (firstFile? files paths).run fs = (paths.find? (files.there fs), fs) := by
  induction paths with
  | nil => rfl
  | cons path paths ih =>
    have hhere : (files.isFile path).run fs = (files.there fs path, fs) :=
      Prod.ext rfl (h.isFile path)
    refine access_bind_iff.mpr ⟨_, _, hhere, ?_⟩
    rw [List.find?_cons]
    cases files.there fs path with
    | true => rfl
    | false => exact ih

lemma find_of_unchanging (h : files.Unchanging fs) :
    ((p.find files name library position).run fs).1 = .ok found ↔
      ∃ paths, p.candidatesFor name library = .ok paths ∧
        paths.find? (files.there fs) = some found := by
  have hrun : ((p.find files name library position).run fs).1 = .ok found ↔
      (p.find files name library position).run fs = (.ok found, fs) := by
    constructor
    · intro hfound
      exact Prod.ext hfound (h.find p name library position)
    · intro hfound
      rw [hfound]
  have hfirst : ∀ paths, (firstFile? files paths).run fs = (some found, fs) ↔
      paths.find? (files.there fs) = some found := by
    intro paths
    rw [firstFile?_eq_find? h]
    exact ⟨fun heq => (Prod.mk.inj heq).1, fun heq => by rw [heq]⟩
  rw [hrun, find_eq_ok_iff]
  simp only [hfirst]

/-- A relative name is looked for in one directory after the other. -/
lemma find_of_relative (h : files.Unchanging fs)
    (hrelative : (Path.ofString name).isAbsolute = false) (husable : .unusable ∉ p.extensions) :
    ((p.find files name library position).run fs).1 = .ok found ↔
      (p.given name (p.directories library)).find? (files.there fs) = some found := by
  rw [find_of_unchanging h, candidatesFor_of_relative hrelative]
  simp [candidates_eq_ok_iff, husable, relativeCandidates_eq, find?_eraseDups]

/-- Every directory gives the same for an absolute name. -/
lemma candidatesIn_of_absolute (h : (Path.ofString name).isAbsolute = true) (dir dir' : Path) :
    p.candidatesIn name dir = p.candidatesIn name dir' := by
  obtain ⟨rest, hname⟩ := Path.isAbsolute_ofString_iff.mp h
  unfold candidatesIn
  apply List.flatMap_congr
  intro variant hvariant
  have hspelled := respelled_of_mem_variants hvariant
  rw [hname] at hspelled
  obtain ⟨rest', hslash⟩ := hspelled.head_mark (.inl rfl)
  apply List.map_congr_left
  intro extended hextended
  obtain ⟨x, -, hx⟩ := List.mem_filterMap.mp hextended
  obtain ⟨text, rfl⟩ := exists_of_extend? hx
  have habsolute : (Path.ofString (variant ++ text)).isAbsolute = true :=
    Path.isAbsolute_ofString_iff.mpr ⟨rest' ++ text.toList, by simp [hslash]⟩
  rw [Path.child, Path.child, Path.join, Path.join, if_pos habsolute, if_pos habsolute]

/-- If there is a file among what the earlier directories give, nothing that only the later ones
give is found, and a relative name is found among what the earlier ones give. -/
def FindsEarlier (p : SearchPlan) (files : FileAccess (StateM σ)) (fs : σ) (name : String)
    (library : Option String) (position : Option Position) (earlier later : List Path) : Prop :=
  (∃ c ∈ p.given name earlier, files.there fs c = true) →
    (∀ found, ((p.find files name library position).run fs).1 = .ok found →
      found ∈ p.given name later → found ∈ p.given name earlier) ∧
    ((Path.ofString name).isAbsolute = false → .unusable ∉ p.extensions →
      ∃ found ∈ p.given name earlier,
        ((p.find files name library position).run fs).1 = .ok found)

lemma findsEarlier_of_absolute (h : (Path.ofString name).isAbsolute = true)
    (earlier later : List Path) : p.FindsEarlier files fs name library position earlier later := by
  rintro ⟨c, hc, -⟩
  refine ⟨fun found _ hlater => ?_, fun hrelative => ?_⟩
  · obtain ⟨dir, hdir, -⟩ := List.mem_flatMap.mp hc
    obtain ⟨dir', -, hfound⟩ := List.mem_flatMap.mp hlater
    rw [candidatesIn_of_absolute h dir' dir] at hfound
    exact List.mem_flatMap.mpr ⟨dir, hdir, hfound⟩
  · rw [h] at hrelative
    cases hrelative

lemma findsEarlier_of_relative (hfiles : files.Unchanging fs)
    (hrelative : (Path.ofString name).isAbsolute = false) {earlier later : List Path}
    (hsplit : p.directories library = earlier ++ later) :
    p.FindsEarlier files fs name library position earlier later := by
  rintro ⟨c, hc, hthere⟩
  have hsome : ((p.given name earlier).find? (files.there fs)).isSome = true :=
    List.find?_isSome.mpr ⟨c, hc, hthere⟩
  obtain ⟨first, hfirst⟩ := Option.isSome_iff_exists.mp hsome
  have hmem : first ∈ p.given name earlier := List.mem_of_find?_eq_some hfirst
  have hwhole : (p.given name (p.directories library)).find? (files.there fs) = some first := by
    rw [hsplit, given_append, List.find?_append, hfirst]
    rfl
  have husable : .unusable ∉ p.extensions →
      ((p.find files name library position).run fs).1 = .ok first := by
    intro husable
    exact (find_of_relative hfiles hrelative husable).mpr hwhole
  refine ⟨fun found hfound _ => ?_, fun _ h => ⟨first, hmem, husable h⟩⟩
  obtain ⟨paths, hpaths, -⟩ := (find_of_unchanging hfiles).mp hfound
  rw [candidatesFor_of_relative hrelative] at hpaths
  have hsame := husable (candidates_eq_ok_iff.mp hpaths).1
  rw [hfound] at hsame
  rwa [Except.ok.inj hsame]

end Finding

/-- One more search path only adds candidates behind those that are there, a copybook that is found
is still found in the same place, and earlier directories come before later ones: for each search
path the subdirectories for the library, and then the path itself. -/
theorem addPath_redirects_nothing (p : SearchPlan) (path : Path) (name : String)
    (library : Option String) :
    (∀ before, p.candidates name library = .ok before →
      ∃ after, (p.addPath path).candidates name library = .ok after ∧ before <+: after ∧
        before.Nodup ∧ after.Nodup) ∧
    (∀ (σ : Type) (files : FileAccess (StateM σ)) (fs fs' : σ) (position : Option Position)
      (found : Path), (p.find files name library position).run fs = (.ok found, fs') →
        ((p.addPath path).find files name library position).run fs = (.ok found, fs')) ∧
    (∀ base, p.directoriesAt library base =
      (if library.getD "" = "" then [] else (p.variants (library.getD "")).map base.child) ++
        [base]) ∧
    ∀ (σ : Type) (files : FileAccess (StateM σ)) (fs : σ) (position : Option Position)
      (earlier later : List Path), files.Unchanging fs →
        p.directories library = earlier ++ later →
          p.FindsEarlier files fs name library position earlier later := by
  refine ⟨fun before hbefore => ?_, fun σ files fs fs' position found hfound => ?_,
    p.directoriesAt_eq library, fun σ files fs position earlier later hfiles hsplit => ?_⟩
  · obtain ⟨after, hafter, hprefix⟩ := candidates_addPath path hbefore
    refine ⟨after, hafter, hprefix, ?_, ?_⟩
    · obtain ⟨-, rfl⟩ := candidates_eq_ok_iff.mp hbefore
      exact nodup_eraseDups _
    · obtain ⟨-, rfl⟩ := candidates_eq_ok_iff.mp hafter
      exact nodup_eraseDups _
  · obtain ⟨before, hbefore, hfirst⟩ := find_eq_ok_iff.mp hfound
    obtain ⟨after, hafter, more, rfl⟩ := candidatesFor_addPath path hbefore
    exact find_eq_ok_iff.mpr ⟨_, hafter, firstFile?_append more hfirst⟩
  · cases habsolute : (Path.ofString name).isAbsolute with
    | true => exact findsEarlier_of_absolute habsolute earlier later
    | false => exact findsEarlier_of_relative hfiles habsolute hsplit

section Sample

/-- A directory with a copybook and with a library that has one of the same name, and another
directory with one. -/
def threeBooks : FileAccess (StateM Unit) where
  workDir := ⟨1, []⟩
  isFile path := pure (path == ⟨0, ["a", "LIB", "BOOK.cpy"]⟩ || path == ⟨0, ["a", "BOOK"]⟩ ||
    path == ⟨0, ["b", "BOOK"]⟩)
  read _ := pure (.error .missing)

/-- A plan that looks into the first of them. -/
def onePath : SearchPlan :=
  ⟨[⟨0, ["a"]⟩], [.ending "", .ending ".cpy"], true⟩

lemma unchanging_threeBooks : threeBooks.Unchanging () :=
  ⟨fun _ => rfl, fun _ => rfl⟩

end Sample

/-- The copybook in the library is still found, although the plain name is there in its search path
and in the new one. -/
theorem addPath_redirects_nothing_books :
    onePath.candidates "BOOK" (some "LIB") =
      .ok [⟨0, ["a", "LIB", "BOOK"]⟩, ⟨0, ["a", "LIB", "BOOK.cpy"]⟩, ⟨0, ["a", "BOOK"]⟩,
        ⟨0, ["a", "BOOK.cpy"]⟩] ∧
    threeBooks.there () ⟨0, ["a", "BOOK"]⟩ = true ∧
    threeBooks.there () ⟨0, ["b", "BOOK"]⟩ = true ∧
    ((onePath.addPath ⟨0, ["b"]⟩).find threeBooks "BOOK" (some "LIB") none).run () =
      (.ok ⟨0, ["a", "LIB", "BOOK.cpy"]⟩, ()) ∧
    (onePath.addPath ⟨0, ["b"]⟩).directoriesAt (some "LIB") ⟨0, ["a"]⟩ =
      [⟨0, ["a", "LIB"]⟩, ⟨0, ["a"]⟩] ∧
    ∃ found ∈ (onePath.addPath ⟨0, ["b"]⟩).given "BOOK" [⟨0, ["a", "LIB"]⟩],
      (((onePath.addPath ⟨0, ["b"]⟩).find threeBooks "BOOK" (some "LIB") none).run ()).1 =
        .ok found := by
  have hbefore : onePath.candidates "BOOK" (some "LIB") =
      .ok [⟨0, ["a", "LIB", "BOOK"]⟩, ⟨0, ["a", "LIB", "BOOK.cpy"]⟩, ⟨0, ["a", "BOOK"]⟩,
        ⟨0, ["a", "BOOK.cpy"]⟩] := by
    decide +kernel
  have hrelative : (Path.ofString "BOOK").isAbsolute = false := by
    decide +kernel
  have hfound : (onePath.find threeBooks "BOOK" (some "LIB") none).run () =
      (.ok ⟨0, ["a", "LIB", "BOOK.cpy"]⟩, ()) :=
    find_eq_ok_iff.mpr ⟨_, (candidatesFor_of_relative hrelative).trans hbefore, rfl⟩
  have hgiven : ⟨0, ["a", "LIB", "BOOK.cpy"]⟩ ∈
      (onePath.addPath ⟨0, ["b"]⟩).given "BOOK" [⟨0, ["a", "LIB"]⟩] := by
    decide +kernel
  have hsplit : (onePath.addPath ⟨0, ["b"]⟩).directories (some "LIB") =
      [⟨0, ["a", "LIB"]⟩] ++ [⟨0, ["a"]⟩, ⟨0, ["b", "LIB"]⟩, ⟨0, ["b"]⟩] := by
    decide +kernel
  obtain ⟨-, hkept, -⟩ := addPath_redirects_nothing onePath ⟨0, ["b"]⟩ "BOOK" (some "LIB")
  obtain ⟨-, -, hlibrary, hearlier⟩ :=
    addPath_redirects_nothing (onePath.addPath ⟨0, ["b"]⟩) ⟨0, ["b"]⟩ "BOOK" (some "LIB")
  have hfirst := hearlier _ threeBooks () none _ _ unchanging_threeBooks hsplit
  exact ⟨hbefore, rfl, rfl, hkept _ threeBooks () () none _ hfound,
    (hlibrary ⟨0, ["a"]⟩).trans (by decide +kernel),
    (hfirst ⟨_, hgiven, rfl⟩).2 hrelative (by decide)⟩

end SearchPlan

end CobolText
