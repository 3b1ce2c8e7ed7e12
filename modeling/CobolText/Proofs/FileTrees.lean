import CobolText.Files.Directory
import CobolText.Files.Tree
import CobolText.Proofs.ReportedFaults

/-!
# Writing into a tree

Whatever is put in the place of something that is no directory leaves every walk as it was.  So a
directory that a path leads to stays where it is while files are written into it, and a file written
under one name is read back under that name, whatever is written under others.
-/

namespace CobolText

namespace Path

/-- Whether a text is the name of a file, a path of one component that leads downwards. -/
structure IsName (name : String) : Prop where
  ne_empty : name ≠ ""
  ne_dot : name ≠ "."
  ne_dots : name ≠ ".."
  no_slash : '/' ∉ name.toList

lemma isName_append {stem ending : String} (hstem : '/' ∉ stem.toList)
    (hending : '/' ∉ ending.toList) (hlong : 2 < ending.toList.length) :
    IsName (stem ++ ending) := by
  have hlength : 2 < (stem ++ ending).toList.length := by
    rw [String.toList_append, List.length_append]
    omega
  refine ⟨?_, ?_, ?_, ?_⟩
  · rintro heq
    simp [heq] at hlength
  · rintro heq
    simp [heq] at hlength
  · rintro heq
    simp [heq] at hlength
  · rw [String.toList_append, List.mem_append, not_or]
    exact ⟨hstem, hending⟩

lemma child_of_isName (dir : Path) {name : String} (h : IsName name) :
    dir.child name = ⟨dir.slashes, dir.parts ++ [name]⟩ := by
  rw [child, ofString_of_not_mem h.ne_empty h.ne_dot h.no_slash]
  rfl

lemma follow_of_isName (place : List String) {name : String} (h : IsName name) :
    follow place name = place ++ [name] := by
  simp [follow, h.ne_dots]

lemma not_mem_stem (s : String) : '/' ∉ (ofString s).stem.toList := by
  have hname : '/' ∉ (ofString s).name.toList := by
    rw [name]
    cases hlast : (ofString s).parts.getLast? with
    | none => simp
    | some part => exact (parts_ofString (List.mem_of_getLast? hlast)).2.2
  unfold stem
  dsimp only
  split
  · exact hname
  · rw [String.toList_ofList]
    intro hmem
    exact hname (List.mem_of_mem_take hmem)

end Path

namespace FileTree

variable {t t' : FileTree} {place other d : List String} {node : FileNode} {dir : Path}

lemma lookup_filter_ne (nodes : List (List String × FileNode)) (h : other ≠ place) :
    (nodes.filter fun n => n.1 != place).lookup other = nodes.lookup other := by
  induction nodes with
  | nil => rfl
  | cons n nodes ih =>
    obtain ⟨at_, node⟩ := n
    by_cases hat : at_ = place
    · subst hat
      simp [ih, List.lookup_cons, beq_eq_false_iff_ne.mpr h]
    · simp [ih, List.lookup_cons, hat]

lemma lookup_filter_self (nodes : List (List String × FileNode)) :
    (nodes.filter fun n => n.1 != place).lookup place = none := by
  rw [List.lookup_eq_none_iff]
  intro n hn
  simp only [List.mem_filter, bne_iff_ne] at hn
  simpa using Ne.symm hn.2

lemma node?_put_of_ne (h : other ≠ place) : (t.put place node).node? other = t.node? other := by
  simp [node?, put, List.lookup_append, lookup_filter_ne _ h, List.lookup_cons,
    beq_eq_false_iff_ne.mpr h]

lemma node?_put_self (h : t.node? place ≠ some .directory) :
    (t.put place node).node? place = some node := by
  have hworkDir : place.isPrefixOf t.workDir ≠ true := by
    intro hbegins
    exact h (if_pos hbegins)
  simp [node?, put, hworkDir, List.lookup_append, lookup_filter_self]

lemma directory_of_put {bytes : List UInt8} (hplace : t.node? place ≠ some .directory)
    (h : (t.put place (.file bytes)).node? other = some .directory) :
    t.node? other = some .directory := by
  by_cases hsame : other = place
  · subst hsame
    rw [node?_put_self hplace] at h
    cases h
  · rw [← h, node?_put_of_ne hsame]

/-- A walk only passes directories, so it goes on as before if something is put in another place. -/
lemma walk_put (hplace : t.node? place ≠ some .directory) {start stop parts : List String}
    (h : t.walk start parts = .ok stop) : (t.put place node).walk start parts = .ok stop := by
  induction parts generalizing start with
  | nil => exact h
  | cons part parts ih =>
    unfold walk at h ⊢
    cases hstart : t.node? start with
    | none => simp [hstart] at h
    | some found =>
      cases found with
      | file bytes => simp [hstart] at h
      | directory =>
        have hne : start ≠ place := by
          rintro rfl
          exact hplace hstart
        simp only [hstart] at h
        split at h
        · rename_i hnext
          have hnext' : ((t.put place node).node? (Path.follow start part)).isSome = true := by
            by_cases hsame : Path.follow start part = place
            · rw [hsame, node?_put_self hplace]
              rfl
            · rw [node?_put_of_ne hsame]
              exact hnext
          simp only [node?_put_of_ne hne, hstart, hnext', if_true]
          exact ih h
        · cases h

lemma walk_concat {start stop parts : List String} {part : String}
    (h : t.walk start parts = .ok stop) (hstop : t.node? stop = some .directory) :
    t.walk start (parts ++ [part]) =
      if (t.node? (Path.follow stop part)).isSome then .ok (Path.follow stop part)
      else .error .missing := by
  induction parts generalizing start with
  | nil =>
    obtain rfl := Except.ok.inj h
    simp only [List.nil_append, walk, hstop]
  | cons first parts ih =>
    rw [List.cons_append]
    unfold walk at h ⊢
    cases hstart : t.node? start with
    | none => simp [hstart] at h
    | some found =>
      cases found with
      | file bytes => simp [hstart] at h
      | directory =>
        simp only [hstart] at h ⊢
        split at h
        · rename_i hnext
          rw [if_pos hnext]
          exact ih h
        · cases h

/-- Whether a path leads to a directory at a place. -/
structure Opens (t : FileTree) (dir : Path) (d : List String) : Prop where
  locate_eq : t.locate dir = .ok d
  node_eq : t.node? d = some .directory

namespace Opens

lemma put (h : t.Opens dir d) (hplace : t.node? place ≠ some .directory) :
    (t.put place node).Opens dir d where
  locate_eq := walk_put hplace h.locate_eq
  node_eq := by
    rw [node?_put_of_ne]
    · exact h.node_eq
    · rintro rfl
      exact hplace h.node_eq

variable {name : String} (h : t.Opens dir d)

include h

lemma locate_child (hname : Path.IsName name) :
    t.locate (dir.child name) =
      if (t.node? (d ++ [name])).isSome then .ok (d ++ [name]) else .error .missing := by
  rw [Path.child_of_isName dir hname, ← Path.follow_of_isName d hname]
  exact walk_concat h.locate_eq h.node_eq

lemma locate_child_parent (hname : Path.IsName name) :
    t.locate (dir.child name).parent = .ok d := by
  have hparent : (dir.child name).parent = dir := by
    rw [Path.child_of_isName dir hname]
    simp [Path.parent]
  rw [hparent, h.locate_eq]

lemma read_child (hname : Path.IsName name) {bytes : List UInt8}
    (hnode : t.node? (d ++ [name]) = some (.file bytes)) :
    t.read (dir.child name) = .ok bytes := by
  have hlocate := h.locate_child hname
  simp only [hnode, Option.isSome_some, if_true] at hlocate
  simp only [read, hlocate, hnode]

/-- A file is written into a directory unless another directory is in its way. -/
lemma write_child (hname : Path.IsName name) (bytes : List UInt8) :
    t.write (dir.child name) bytes =
      if t.node? (d ++ [name]) = some .directory then .error .isDirectory
      else .ok (t.put (d ++ [name]) (.file bytes)) := by
  have hlocate := h.locate_child hname
  have hlast : (dir.child name).name = name := by
    rw [Path.child_of_isName dir hname]
    simp [Path.name]
  unfold write
  cases hnode : t.node? (d ++ [name]) with
  | none =>
    simp only [hnode, Option.isSome_none, Bool.false_eq_true, if_false] at hlocate
    simp [hlocate, h.locate_child_parent hname, h.node_eq, hlast, Path.follow_of_isName d hname]
  | some found =>
    simp only [hnode, Option.isSome_some, if_true] at hlocate
    simp [hlocate, hnode]

end Opens

section Directories

variable {p : Path}

lemma locate_of_parent (hparts : p.parts ≠ []) (hparent : t.Opens p.parent d) :
    t.locate p = if (t.node? (Path.follow d p.name)).isSome then .ok (Path.follow d p.name)
      else .error .missing := by
  have hsplit : p.parts = p.parent.parts ++ [p.name] := by
    rw [Path.parent, Path.name, List.getLast?_eq_some_getLast hparts, Option.getD_some,
      List.dropLast_append_getLast hparts]
  rw [locate, hsplit]
  exact walk_concat hparent.locate_eq hparent.node_eq

lemma opens_of_isDirectory (h : t.isDirectory p = true) : ∃ d, t.Opens p d := by
  simp only [isDirectory, nodeAt?, beq_iff_eq] at h
  split at h
  · rename_i d hlocate
    exact ⟨d, hlocate, h⟩
  · cases h

lemma opens_of_makeDirectory (h : t.makeDirectory p = .ok t') : ∃ d, t'.Opens p d := by
  unfold makeDirectory at h
  split at h
  · cases h
  · cases h
  · rename_i hlocate
    split at h
    · rename_i d hparent
      split at h
      · rename_i hdir
        obtain rfl := Except.ok.inj h
        have hparts : p.parts ≠ [] := by
          intro hnil
          simp [locate, hnil, walk] at hlocate
        have hopens : t.Opens p.parent d := ⟨hparent, hdir⟩
        -- The new place was free, or the path would have led there.
        have hfree : t.node? (Path.follow d p.name) = none := by
          rw [locate_of_parent hparts hopens] at hlocate
          split at hlocate
          · cases hlocate
          · rename_i hnone
            simpa using hnone
        have hplace : t.node? (Path.follow d p.name) ≠ some .directory := by
          rw [hfree]
          simp
        refine ⟨Path.follow d p.name, ?_, node?_put_self hplace⟩
        rw [locate_of_parent hparts (hopens.put hplace), node?_put_self hplace]
        rfl
      · cases h
    · cases h
    · cases h

variable (workDir : List String) (t)

lemma run_makeDirectory (p : Path) :
    ((store workDir).makeDirectory p).run t =
      match t.makeDirectory p with
      | .ok t' => (.ok (), t')
      | .error failure => (.error failure, t) := by
  have hrun : ((store workDir).makeDirectory p).run t =
      (match t.makeDirectory p with
        | .ok t' => (do set t'; return .ok () : StateM FileTree (Except MakeFailure Unit))
        | .error failure => return .error failure).run t := rfl
  rw [hrun]
  cases t.makeDirectory p <;> rfl

lemma run_write (p : Path) (bytes : List UInt8) :
    ((store workDir).write p bytes).run t =
      match t.write p bytes with
      | .ok t' => (.ok (), t')
      | .error failure => (.error failure, t) := by
  have hrun : ((store workDir).write p bytes).run t =
      (match t.write p bytes with
        | .ok t' => (do set t'; return .ok () : StateM FileTree (Except ReadFailure Unit))
        | .error failure => return .error failure).run t := rfl
  rw [hrun]
  cases t.write p bytes <;> rfl

variable {workDir t}

lemma opens_of_ensureDirectory (h : ((store workDir).ensureDirectory p).run t = (.ok (), t')) :
    ∃ d, t'.Opens p d := by
  obtain ⟨made, t₁, hmade, h⟩ := access_bind_iff.mp h
  rw [run_makeDirectory] at hmade
  cases hmake : t.makeDirectory p with
  | ok t₂ =>
    rw [hmake] at hmade
    obtain ⟨rfl, rfl⟩ := Prod.mk.inj hmade
    obtain ⟨-, rfl⟩ := access_pure_iff.mp h
    exact opens_of_makeDirectory hmake
  | error failure =>
    rw [hmake] at hmade
    obtain ⟨rfl, rfl⟩ := Prod.mk.inj hmade
    obtain ⟨found, t₂, hfound, h⟩ := access_bind_iff.mp h
    obtain ⟨rfl, rfl⟩ := Prod.mk.inj hfound
    split at h
    · rename_i hdir
      obtain ⟨-, rfl⟩ := access_pure_iff.mp h
      exact opens_of_isDirectory hdir
    · cases (access_pure_iff.mp h).1

/-- A directory that was made with all those above it can be written into. -/
lemma opens_of_makeLevels {levels : Nat}
    (h : ((store workDir).makeLevels levels p).run t = (.ok (), t')) : ∃ d, t'.Opens p d := by
  cases levels with
  | zero =>
    obtain ⟨made, t₁, hmade, h⟩ := access_bind_iff.mp h
    cases made with
    | ok _ =>
      obtain ⟨-, rfl⟩ := access_pure_iff.mp h
      exact opens_of_ensureDirectory hmade
    | error failure => cases (access_pure_iff.mp h).1
  | succ levels =>
    obtain ⟨made, t₁, hmade, h⟩ := access_bind_iff.mp h
    cases made with
    | ok _ =>
      obtain ⟨-, rfl⟩ := access_pure_iff.mp h
      exact opens_of_ensureDirectory hmade
    | error failure =>
      cases failure with
      | missing =>
        obtain ⟨above, t₂, -, h⟩ := access_bind_iff.mp h
        cases above with
        | ok _ =>
          obtain ⟨again, t₃, hagain, h⟩ := access_bind_iff.mp h
          cases again with
          | ok _ =>
            obtain ⟨-, rfl⟩ := access_pure_iff.mp h
            exact opens_of_ensureDirectory hagain
          | error failure => cases (access_pure_iff.mp h).1
        | error failure => cases (access_pure_iff.mp h).1
      | notDirectory => cases (access_pure_iff.mp h).1
      | alreadyThere => cases (access_pure_iff.mp h).1

end Directories

end FileTree

end CobolText
