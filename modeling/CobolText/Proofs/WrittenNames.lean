import CobolText.Proofs.CandidateOrder

/-!
# Names that are written with their extension

An extension that a name ends with is not put after it once more.  So such a name is tried as it is
written if and only if the empty extension is among those that are tried: without it every candidate
has something behind the name, and a file with the very name that is written is not found.
-/

namespace CobolText

namespace Text

/-- Whether a name ends with a text, without regard to case. -/
def EndsLike (name text : String) : Prop :=
  (lowerString text).toList <:+ (lowerString name).toList

/-- A suffix without a slash lies behind the last slash. -/
lemma suffix_of_startsBehind {front tail s : List Char} (hfront : StartsBehind front)
    (hs : '/' ∉ s) (h : s <:+ front ++ tail) : s <:+ tail := by
  rcases hfront with rfl | ⟨before, rfl⟩
  · exact h
  · rw [List.append_assoc] at h
    rcases Nat.lt_or_ge tail.length s.length with hlong | hshort
    · have hslash : ['/'] ++ tail <:+ s :=
        List.suffix_of_suffix_length_le (List.suffix_append ..) h hlong
      exact absurd (hslash.subset (by simp)) hs
    · have htail : tail <:+ before ++ (['/'] ++ tail) :=
        (List.suffix_append ['/'] tail).trans (List.suffix_append before _)
      exact List.suffix_of_suffix_length_le h htail hshort

/-- A name that ends with an extension has a last component. -/
lemma exists_last_of_endsLike {name text : String} (h : EndsLike name text) (hne : text ≠ "")
    (hslash : '/' ∉ text.toList) (hdot : text ≠ ".") :
    ∃ front tail, name.toList = front ++ tail ∧ StartsBehind front ∧ '/' ∉ tail ∧ tail ≠ [] ∧
      tail ≠ ['.'] := by
  obtain ⟨front, tail, hname, hfront, htail⟩ := exists_lastComponent name.toList
  have htext := respelled_lowerString text
  have hlower := respelled_lowerString name
  rw [hname] at hlower
  obtain ⟨u, v, huv, hu, hv⟩ := hlower.split
  have hsmall : '/' ∉ (lowerString text).toList :=
    mt (htext.mem_iff (.inl rfl)).mp hslash
  have hsuffix : (lowerString text).toList <:+ v := by
    rw [EndsLike, huv] at h
    exact suffix_of_startsBehind (hu.startsBehind hfront) hsmall h
  have hsmall_ne : (lowerString text).toList ≠ [] :=
    mt htext.eq_nil_iff.mp (mt String.toList_eq_nil_iff.mp hne)
  refine ⟨front, tail, hname, hfront, htail, ?_, ?_⟩
  · rintro rfl
    rw [hv.eq_nil_iff.mpr rfl] at hsuffix
    exact hsmall_ne (List.suffix_nil.mp hsuffix)
  · rintro rfl
    rw [hv.eq_of_mark (.inr rfl)] at hsuffix
    rcases List.suffix_cons_iff.mp hsuffix with hwhole | hnil
    · rw [hwhole] at htext
      exact hdot (String.toList_inj.mp (htext.eq_of_eq_mark (.inr rfl)))
    · exact hsmall_ne (List.suffix_nil.mp hnil)

end Text

open Text

/-- A spelling of a name with something behind it is longer in its last component. -/
lemma Path.child_append_ne {name variant text : String} {front tail : List Char}
    (hname : name.toList = front ++ tail) (hfront : StartsBehind front) (htail : '/' ∉ tail)
    (hne : tail ≠ []) (hdot : tail ≠ ['.']) (hspelled : Respelled name.toList variant.toList)
    (htext : text ≠ "") (hslash : '/' ∉ text.toList) (dir dir' : Path) :
    dir'.child (variant ++ text) ≠ dir.child name := by
  have hwritten : (ofString name).parts.getLast? = some (String.ofList tail) := by
    rw [← String.ofList_toList (s := name), hname]
    exact getLast?_parts hfront htail hne hdot
  rw [hname] at hspelled
  obtain ⟨u, v, huv, hu, hv⟩ := hspelled.split
  have hlonger : tail.length < (v ++ text.toList).length := by
    have hpiece := List.length_pos_of_ne_nil (mt String.toList_eq_nil_iff.mp htext)
    rw [List.length_append]
    have := hv.length_le
    omega
  have hshort := List.length_pos_of_ne_nil hne
  have hextended : (ofString (variant ++ text)).parts.getLast? =
      some (String.ofList (v ++ text.toList)) := by
    rw [← String.ofList_toList (s := variant ++ text), String.toList_append, huv, List.append_assoc]
    apply getLast?_parts (hu.startsBehind hfront)
    · rw [List.mem_append, not_or]
      exact ⟨mt (hv.mem_iff (.inl rfl)).mp htail, hslash⟩
    · exact List.ne_nil_of_length_pos (by omega)
    · intro heq
      rw [heq, List.length_singleton] at hlonger
      omega
  intro heq
  have hlast := getLast?_parts_child dir' hextended
  rw [heq, getLast?_parts_child dir hwritten] at hlast
  have hsame := congrArg String.toList (Option.some.inj hlast)
  rw [String.toList_ofList, String.toList_ofList] at hsame
  rw [hsame] at hlonger
  exact lt_irrefl _ hlonger

namespace SearchPlan

variable {p : SearchPlan} {texts : List String} {name : String} {library : Option String}
  {dir : Path}

/-- What is tried is a spelling of the name with an extension, below one of the directories. -/
lemma mem_relativeCandidates_iff {path : Path} : path ∈ p.relativeCandidates name library ↔
    ∃ d ∈ p.directories library, ∃ variant ∈ p.variants name, ∃ x ∈ p.extensions, ∃ extended,
      extend? variant x = some extended ∧ path = d.child extended := by
  simp only [relativeCandidates_eq, List.mem_eraseDups, given, candidatesIn, List.mem_flatMap,
    List.mem_map, List.mem_filterMap]
  constructor
  · rintro ⟨d, hd, variant, hvariant, extended, ⟨x, hx, hextended⟩, rfl⟩
    exact ⟨d, hd, variant, hvariant, x, hx, extended, hextended, rfl⟩
  · rintro ⟨d, hd, variant, hvariant, x, hx, extended, hextended, rfl⟩
    exact ⟨d, hd, variant, hvariant, extended, ⟨x, hx, hextended⟩, rfl⟩

lemma written_mem (hempty : .ending "" ∈ p.extensions) (hdir : dir ∈ p.directories library) :
    dir.child name ∈ p.relativeCandidates name library := by
  refine mem_relativeCandidates_iff.mpr
    ⟨dir, hdir, name, p.self_mem_variants name, .ending "", hempty, name, ?_, rfl⟩
  simp [extend?, hasExtension]

lemma written_not_mem (hextensions : p.extensions = texts.map .ending) (hempty : "" ∉ texts)
    (htexts : ∀ text ∈ texts, '/' ∉ text.toList ∧ text ≠ ".")
    (hends : ∃ text ∈ texts, EndsLike name text) :
    dir.child name ∉ p.relativeCandidates name library := by
  obtain ⟨text, htext, hends⟩ := hends
  have hne : text ≠ "" := fun heq => hempty (heq ▸ htext)
  obtain ⟨front, tail, hname, hfront, htail, hsome, hdot⟩ :=
    exists_last_of_endsLike hends hne (htexts text htext).1 (htexts text htext).2
  intro hmem
  obtain ⟨d, -, variant, hvariant, x, hx, extended, hextended, heq⟩ :=
    mem_relativeCandidates_iff.mp hmem
  rw [hextensions, List.mem_map] at hx
  obtain ⟨other, hother, rfl⟩ := hx
  simp only [extend?] at hextended
  split at hextended
  · cases hextended
  · obtain rfl := Option.some.inj hextended
    exact Path.child_append_ne hname hfront htail hsome hdot (respelled_of_mem_variants hvariant)
      (fun heq => hempty (heq ▸ hother)) (htexts other hother).1 dir d heq.symm

/-- Whether a search finds a path unless an earlier candidate is there. -/
def FindsFirst {σ : Type} (p : SearchPlan) (files : FileAccess (StateM σ)) (fs : σ) (name : String)
    (library : Option String) (position : Option Position) (path : Path) : Prop :=
  ∃ found earlier later, ((p.find files name library position).run fs).1 = .ok found ∧
    p.candidates name library = .ok (earlier ++ found :: later) ∧
    (∀ q ∈ earlier, files.there fs q = false) ∧ path ∈ found :: later

lemma findsFirst_of_mem {σ : Type} {files : FileAccess (StateM σ)} {fs : σ} {paths : List Path}
    {path : Path} (hfiles : files.Unchanging fs)
    (hrelative : (Path.ofString name).isAbsolute = false)
    (hpaths : p.candidates name library = .ok paths) (hmem : path ∈ paths)
    (hthere : files.there fs path = true) (position : Option Position) :
    p.FindsFirst files fs name library position path := by
  have hsome : (paths.find? (files.there fs)).isSome = true :=
    List.find?_isSome.mpr ⟨path, hmem, hthere⟩
  obtain ⟨found, hfound⟩ := Option.isSome_iff_exists.mp hsome
  obtain ⟨-, earlier, later, rfl, hearlier⟩ := List.find?_eq_some_iff_append.mp hfound
  have hnone : ∀ q ∈ earlier, files.there fs q = false := by
    intro q hq
    simpa using hearlier q hq
  refine ⟨found, earlier, later, ?_, hpaths, hnone, ?_⟩
  · exact (find_of_unchanging hfiles).mpr ⟨_, (candidatesFor_of_relative hrelative).trans hpaths,
      hfound⟩
  · rcases List.mem_append.mp hmem with hin | hin
    · rw [hnone path hin] at hthere
      cases hthere
    · exact hin

/-- A relative name that ends with one of the extensions is tried as it is written if and only if
the empty extension is one of them. -/
theorem written_name_tried (p : SearchPlan) (texts : List String) (name : String)
    (library : Option String) (hextensions : p.extensions = texts.map .ending)
    (hrelative : (Path.ofString name).isAbsolute = false)
    (hends : ∃ text ∈ texts, EndsLike name text) :
    ∃ tried, p.candidates name library = .ok tried ∧
      ("" ∈ texts → ∀ dir ∈ p.directories library, dir.child name ∈ tried ∧
        ∀ (σ : Type) (files : FileAccess (StateM σ)) (fs : σ) (position : Option Position),
          files.Unchanging fs → files.there fs (dir.child name) = true →
            p.FindsFirst files fs name library position (dir.child name)) ∧
      ("" ∉ texts → (∀ text ∈ texts, '/' ∉ text.toList ∧ text ≠ ".") →
        ∀ dir ∈ p.directories library, dir.child name ∉ tried ∧
          ∀ (σ : Type) (files : FileAccess (StateM σ)) (fs fs' : σ) (position : Option Position),
            (p.find files name library position).run fs ≠ (.ok (dir.child name), fs')) := by
  have husable : .unusable ∉ p.extensions := by
    simp [hextensions]
  have htried : p.candidates name library = .ok (p.relativeCandidates name library) :=
    candidates_eq_ok_iff.mpr ⟨husable, rfl⟩
  refine ⟨_, htried, fun hempty dir hdir => ?_, fun hempty htexts dir _ => ?_⟩
  · have hmem : dir.child name ∈ p.relativeCandidates name library :=
      written_mem (by rw [hextensions]; exact List.mem_map_of_mem hempty) hdir
    exact ⟨hmem, fun σ files fs position hfiles hthere =>
      findsFirst_of_mem hfiles hrelative htried hmem hthere position⟩
  · have hnot : dir.child name ∉ p.relativeCandidates name library :=
      written_not_mem hextensions hempty htexts hends
    refine ⟨hnot, fun σ files fs fs' position hfound => ?_⟩
    obtain ⟨paths, hpaths, hfirst⟩ := find_eq_ok_iff.mp hfound
    rw [candidatesFor_of_relative hrelative, htried] at hpaths
    obtain rfl := Except.ok.inj hpaths
    exact hnot (mem_of_firstFile? hfirst)

/-- With the standard extensions every name is tried as it is written. -/
example : "" ∈ standardExtensions := by decide

section Sample

/-- A directory with one copybook. -/
def oneBook : FileAccess (StateM Unit) where
  workDir := ⟨1, []⟩
  isFile path := pure (path == ⟨0, ["B.cpy"]⟩)
  read _ := pure (.error .missing)

def planOf (texts : List String) : SearchPlan :=
  ⟨[Path.here], texts.map .ending, false⟩

end Sample

/-- The copybook is there under the very name, and is found with the empty extension only. -/
theorem written_name_tried_book :
    oneBook.there () (Path.here.child "B.cpy") = true ∧
    (∀ position, ((planOf [".cpy"]).find oneBook "B.cpy" none position).run () ≠
      (.ok (Path.here.child "B.cpy"), ())) ∧
    ∀ position, (planOf ["", ".cpy"]).FindsFirst oneBook () "B.cpy" none position
      (Path.here.child "B.cpy") := by
  have hrelative : (Path.ofString "B.cpy").isAbsolute = false := by
    decide +kernel
  have hends : EndsLike "B.cpy" ".cpy" := by
    unfold EndsLike
    decide +kernel
  have hthere : oneBook.there () (Path.here.child "B.cpy") = true := by
    have hchild : Path.here.child "B.cpy" = ⟨0, ["B.cpy"]⟩ := by
      decide +kernel
    rw [hchild]
    rfl
  obtain ⟨_, -, -, hwithout⟩ := written_name_tried (planOf [".cpy"]) [".cpy"] "B.cpy" none rfl
    hrelative ⟨_, List.mem_singleton_self _, hends⟩
  obtain ⟨_, -, hwith, -⟩ := written_name_tried (planOf ["", ".cpy"]) ["", ".cpy"] "B.cpy" none rfl
    hrelative ⟨".cpy", by simp, hends⟩
  have hmissed := (hwithout (by decide) (by decide) Path.here (List.mem_singleton_self _)).2
  have hfound := (hwith (by decide) Path.here (List.mem_singleton_self _)).2
  exact ⟨hthere, fun position => hmissed _ oneBook () () position,
    fun position => hfound _ oneBook () position ⟨fun _ => rfl, fun _ => rfl⟩ hthere⟩

end SearchPlan

end CobolText
