import CobolText.Proofs.InclusionBounds
import CobolText.Proofs.WrittenLines

/-!
# Faults that are reported

Under options that a run can work with, every fault that the sources and the files can raise is
reported, but for one: the search refuses an absolute copybook name whose last component cannot be
extended.  If no extension holds a slash, these are the names of the root.
-/

namespace CobolText

section Names

/-- The components of a path that is read are not empty, no single dots, and hold no slash. -/
lemma Path.parts_ofString {s part : String} (h : part ∈ (Path.ofString s).parts) :
    part ≠ "" ∧ part ≠ "." ∧ '/' ∉ part.toList := by
  simp only [Path.ofString, List.mem_filter, List.mem_map, Bool.and_eq_true, bne_iff_ne] at h
  obtain ⟨⟨piece, hpiece, rfl⟩, hne, hdot⟩ := h
  refine ⟨hne, hdot, ?_⟩
  rw [String.toList_ofList]
  exact Text.not_mem_of_mem_splitOn hpiece

lemma Path.ofString_of_not_mem {s : String} (hne : s ≠ "") (hdot : s ≠ ".")
    (h : '/' ∉ s.toList) : Path.ofString s = ⟨0, [s]⟩ := by
  have hleading : (s.toList.takeWhile (· == '/')).length = 0 := by
    rw [List.length_eq_zero_iff, List.takeWhile_eq_nil_iff]
    intro hpos hslash
    exact h (by rw [← beq_iff_eq.mp hslash]; exact List.getElem_mem hpos)
  unfold Path.ofString
  rw [hleading, Text.splitOn_of_not_mem h]
  simp [hne, hdot]

/-- Every absolute path but the root can be extended. -/
lemma Path.withName?_eq_none_iff {s text : String} (hne : text ≠ "") (htext : '/' ∉ text.toList) :
    (Path.ofString s).withName? ((Path.ofString s).name ++ text) = none ↔
      (Path.ofString s).parts = [] := by
  constructor
  · intro h
    by_contra hparts
    have hlast : (Path.ofString s).name ∈ (Path.ofString s).parts := by
      rw [Path.name, List.getLast?_eq_some_getLast hparts]
      exact List.getLast_mem hparts
    obtain ⟨hname, -, hslash⟩ := Path.parts_ofString hlast
    have hlong : 2 ≤ ((Path.ofString s).name ++ text).toList.length := by
      rw [String.toList_append, List.length_append]
      have hleft := List.length_pos_of_ne_nil (mt String.toList_eq_nil_iff.mp hname)
      have hright := List.length_pos_of_ne_nil (mt String.toList_eq_nil_iff.mp hne)
      omega
    have hwhole : '/' ∉ ((Path.ofString s).name ++ text).toList := by
      rw [String.toList_append, List.mem_append, not_or]
      exact ⟨hslash, htext⟩
    have hread := Path.ofString_of_not_mem (by rintro heq; simp [heq] at hlong)
      (by rintro heq; simp [heq] at hlong) hwhole
    have hend : ((Path.ofString s).name ++ text).toList.getLast? ≠ some '/' := by
      intro heq
      exact hwhole (List.mem_of_getLast? heq)
    generalize (Path.ofString s).name ++ text = whole at h hread hend
    simp [Path.withName?, hread, hparts, hend, Path.isAbsolute] at h
  · intro h
    simp [Path.withName?, h]

end Names

namespace SearchPlan

/-- Whether the search refuses a name: it is absolute, and an extension cannot be put after its last
component. -/
def Refuses (p : SearchPlan) (name : String) : Prop :=
  (Path.ofString name).isAbsolute = true ∧ ∃ text, .ending text ∈ p.extensions ∧ text ≠ "" ∧
    (Path.ofString name).withName? ((Path.ofString name).name ++ text) = none

lemma bind_pure_eq_error_iff {α β : Type} {x : Except Fault α} {f : α → β} {fault : Fault} :
    (do return f (← x)) = Except.error fault ↔ x = .error fault := by
  cases x with
  | error e => simp only [bind, Except.bind, Except.error.injEq]
  | ok a =>
    constructor
    · rintro ⟨⟩
    · rintro ⟨⟩

/-- Steps one after the other fail with the fault of the first one that fails. -/
lemma mapM_eq_error {α β : Type} {f : α → Except Fault β} {xs : List α} {fault : Fault}
    (h : xs.mapM f = .error fault) : ∃ x ∈ xs, f x = .error fault := by
  induction xs with
  | nil => exact absurd h (by simp [pure, Except.pure])
  | cons x xs ih =>
    rw [List.mapM_cons] at h
    cases hx : f x with
    | error e =>
      rw [hx] at h
      obtain rfl := Except.error.inj h
      exact ⟨x, List.mem_cons_self .., hx⟩
    | ok b =>
      rw [hx] at h
      obtain ⟨y, hy, herror⟩ := ih (bind_pure_eq_error_iff.mp h)
      exact ⟨y, List.mem_cons_of_mem _ hy, herror⟩

lemma exists_mapM_eq_error {α β : Type} {f : α → Except Fault β} {xs : List α} {x : α}
    {fault : Fault} (hx : x ∈ xs) (h : f x = .error fault) : ∃ e, xs.mapM f = .error e := by
  induction xs with
  | nil => exact absurd hx (by simp)
  | cons y ys ih =>
    rw [List.mapM_cons]
    cases hy : f y with
    | error e => exact ⟨e, rfl⟩
    | ok b =>
      rcases List.mem_cons.mp hx with rfl | hx
      · rw [h] at hy
        cases hy
      · obtain ⟨e, he⟩ := ih hx
        exact ⟨e, bind_pure_eq_error_iff.mpr he⟩

lemma extendPath_eq_error {path : Path} {x : Extension} {fault : Fault}
    (h : extendPath path x = .error fault) :
    (x = .unusable ∧ fault = .badSetting .notUsable) ∨ (fault = .noFileName path ∧
      ∃ text, x = .ending text ∧ text ≠ "" ∧ path.withName? (path.name ++ text) = none) := by
  cases x with
  | unusable => exact .inl ⟨rfl, (Except.error.inj h).symm⟩
  | unset written => cases h
  | ending text =>
    right
    simp only [extendPath] at h
    split at h
    · cases h
    · rename_i hne
      split at h
      · cases h
      · rename_i hname
        exact ⟨(Except.error.inj h).symm, text, rfl, by simpa using hne, hname⟩

/-- A name without candidates gives a fault that is not reported. -/
lemma isReported_of_candidatesFor {p : SearchPlan} {name : String} {library : Option String}
    {fault : Fault} (h : p.candidatesFor name library = .error fault) :
    fault.isReported = false := by
  unfold candidatesFor at h
  by_cases habsolute : (Path.ofString name).isAbsolute = true
  · rw [if_pos habsolute] at h
    obtain ⟨x, -, hx⟩ := mapM_eq_error (bind_pure_eq_error_iff.mp h)
    rcases extendPath_eq_error hx with ⟨-, rfl⟩ | ⟨rfl, -⟩
    · rfl
    · rfl
  · rw [if_neg habsolute, candidates] at h
    split at h
    · obtain rfl := Except.error.inj h
      rfl
    · cases h

/-- The only names without candidates are those that the search refuses, if all extensions can be
used. -/
lemma candidatesFor_eq_error_iff {p : SearchPlan} (h : .unusable ∉ p.extensions) {name : String}
    {library : Option String} {fault : Fault} :
    p.candidatesFor name library = .error fault ↔
      p.Refuses name ∧ fault = .noFileName (Path.ofString name) := by
  have hextend : ∀ x ∈ p.extensions, ∀ e, extendPath (Path.ofString name) x = .error e →
      e = .noFileName (Path.ofString name) ∧ ∃ text, x = .ending text ∧ text ≠ "" ∧
        (Path.ofString name).withName? ((Path.ofString name).name ++ text) = none := by
    intro x hx e he
    rcases extendPath_eq_error he with ⟨rfl, -⟩ | hname
    · exact absurd hx h
    · exact hname
  unfold candidatesFor Refuses
  by_cases habsolute : (Path.ofString name).isAbsolute = true
  · rw [if_pos habsolute, bind_pure_eq_error_iff, and_iff_right habsolute]
    constructor
    · intro herror
      obtain ⟨x, hx, he⟩ := mapM_eq_error herror
      obtain ⟨rfl, text, rfl, hne, hname⟩ := hextend x hx fault he
      exact ⟨⟨text, hx, hne, hname⟩, rfl⟩
    · rintro ⟨⟨text, hmem, hne, hname⟩, rfl⟩
      have hfails : extendPath (Path.ofString name) (.ending text) =
          .error (.noFileName (Path.ofString name)) := by
        simp [extendPath, hne, hname]
      obtain ⟨e, he⟩ := exists_mapM_eq_error hmem hfails
      obtain ⟨x, hx, hxe⟩ := mapM_eq_error he
      rw [he, (hextend x hx e hxe).1]
  · have hfine : p.candidates name library = .ok (p.relativeCandidates name library) := by
      rw [candidates, if_neg]
      rw [List.contains_iff_mem]
      exact h
    rw [if_neg habsolute, hfine]
    simp [habsolute]

/-- If no extension holds a slash, the names that the search refuses are those of the root. -/
lemma refuses_iff {p : SearchPlan}
    (h : ∀ text, .ending text ∈ p.extensions → '/' ∉ text.toList) (name : String) :
    p.Refuses name ↔ ((Path.ofString name).isAbsolute = true ∧ (Path.ofString name).parts = []) ∧
      ∃ text, .ending text ∈ p.extensions ∧ text ≠ "" := by
  constructor
  · rintro ⟨habsolute, text, hmem, hne, hname⟩
    exact ⟨⟨habsolute, (Path.withName?_eq_none_iff hne (h text hmem)).mp hname⟩, text, hmem, hne⟩
  · rintro ⟨⟨habsolute, hparts⟩, text, hmem, hne⟩
    exact ⟨habsolute, text, hmem, hne, (Path.withName?_eq_none_iff hne (h text hmem)).mpr hparts⟩

/-- What can be wrong with a search: the name is refused, or there is no file. -/
lemma find_error {σ : Type} {files : FileAccess (StateM σ)} {p : SearchPlan} {name : String}
    {library : Option String} {position : Option Position} {fault : Fault} {fs fs' : σ}
    (h : (p.find files name library position).run fs = (.error fault, fs')) :
    p.candidatesFor name library = .error fault ∨
      ∃ paths, fault = .bookNotFound name library paths position := by
  unfold find at h
  cases hcandidates : p.candidatesFor name library with
  | error e =>
    rw [hcandidates] at h
    obtain rfl := Except.error.inj (access_pure_iff.mp h).1
    exact .inl rfl
  | ok paths =>
    rw [hcandidates] at h
    obtain ⟨found, fs₁, -, h⟩ := access_bind_iff.mp h
    cases found with
    | some path => exact absurd (access_pure_iff.mp h).1 (by simp)
    | none => exact .inr ⟨paths, Except.error.inj (access_pure_iff.mp h).1⟩

lemma find_of_candidatesFor {σ : Type} {files : FileAccess (StateM σ)} {p : SearchPlan}
    {name : String} {library : Option String} {fault : Fault}
    (h : p.candidatesFor name library = .error fault) (position : Option Position) (fs : σ) :
    (p.find files name library position).run fs = (.error fault, fs) := by
  unfold find
  rw [h]
  rfl

end SearchPlan

/-- Whether a setting names an encoding that is known. -/
def KnownEncoding (setting : Value) : Prop :=
  ∃ name e, encodingName? setting = some name ∧ Encoding.ofName? name = some e

section Reading

variable {σ : Type} {files : FileAccess (StateM σ)} {path : Path} {encoding : Value}
  {fault : Fault} {fs fs' : σ}

/-- Whether a fault tells that a file cannot be read or decoded. -/
def Fault.IsUnread (path : Path) (encoding : Value) (fault : Fault) : Prop :=
  (∃ failure, fault = .unreadable path failure) ∨
    ∃ offset, fault = .undecodable path encoding.render offset

/-- What can be wrong with reading a file, apart from its encoding. -/
lemma readText_error (h : (readText files path encoding).run fs = (.error fault, fs')) :
    fault.IsUnread path encoding ∨ (fault.isReported = false ∧ ¬KnownEncoding encoding) := by
  unfold readText at h
  cases hname : encodingName? encoding with
  | none =>
    rw [hname] at h
    obtain rfl := Except.error.inj (access_pure_iff.mp h).1
    exact .inr ⟨rfl, by rintro ⟨name, e, hsome, -⟩; simp [hname] at hsome⟩
  | some name =>
    rw [hname] at h
    obtain ⟨bytes, fs₁, -, h⟩ := access_bind_iff.mp h
    cases bytes with
    | error failure => exact .inl (.inl ⟨failure, Except.error.inj (access_pure_iff.mp h).1⟩)
    | ok bytes =>
      cases hencoding : Encoding.ofName? name with
      | none =>
        simp only [hencoding] at h
        obtain rfl := Except.error.inj (access_pure_iff.mp h).1
        refine .inr ⟨rfl, ?_⟩
        rintro ⟨name', e, hsome, hknown⟩
        rw [hname, Option.some.injEq] at hsome
        rw [← hsome, hencoding] at hknown
        exact absurd hknown (by simp)
      | some e =>
        simp only [hencoding] at h
        cases hdecoded : e.decode bytes with
        | error offset =>
          simp only [hdecoded] at h
          exact .inl (.inr ⟨offset, Except.error.inj (access_pure_iff.mp h).1⟩)
        | ok text =>
          simp only [hdecoded] at h
          exact absurd (access_pure_iff.mp h).1 (by simp)

lemma BookCache.load_error {c c' : BookCache}
    (h : (c.load files path encoding).run fs = ((.error fault, c'), fs')) :
    (readText files (Path.resolve files.workDir path) encoding).run fs = (.error fault, fs') := by
  unfold load at h
  cases hget : c.get? (Path.resolve files.workDir path) encoding with
  | some text =>
    simp only [hget] at h
    exact absurd (access_pure_iff.mp h).1 (by simp)
  | none =>
    simp only [hget] at h
    obtain ⟨result, fs₁, hread, h⟩ := access_bind_iff.mp h
    cases result with
    | ok text => exact absurd (access_pure_iff.mp h).1 (by simp)
    | error e =>
      obtain ⟨hpair, rfl⟩ := access_pure_iff.mp h
      rw [hread, Except.error.inj (Prod.mk.inj hpair).1]

end Reading

/-- Lines can be read unless the column options are not in order. -/
lemma SourceUnit.read_error {r : LineRules} {name : String} {text : List Char} {fault : Fault}
    (h : SourceUnit.read r name text = .error fault) :
    fault.isReported = false ∧ r.dialect.columnFault? r.format ≠ none := by
  have hread := SearchPlan.bind_pure_eq_error_iff.mp h
  unfold PhysicalLine.read at hread
  cases hcolumns : r.dialect.columnFault? r.format with
  | none =>
    rw [hcolumns] at hread
    cases hread
  | some e =>
    rw [hcolumns] at hread
    refine ⟨?_, by simp⟩
    dsimp only at hread
    split at hread
    · cases hread
    · obtain rfl := Except.error.inj hread
      unfold Dialect.columnFault? at hcolumns
      dsimp only at hcolumns
      split at hcolumns
      · cases hcolumns
      · rw [← Option.some.inj hcolumns]
        rfl

namespace Expansion

variable {σ : Type} {files : FileAccess (StateM σ)} {r : RunRules}

namespace Stage

/-- Whether the next item of a stage is a `COPY` directive whose name the search refuses. -/
def Refuses (r : RunRules) (s : Stage σ) (name : String) : Prop :=
  ∃ keyword clause stop items, s.items = .copy keyword clause stop :: items ∧
    clause.name = name ∧ r.plan.Refuses name

/-- Under options in order, a stage raises a fault that is not reported exactly if the search
refuses the name of the copybook. -/
lemma raises_unreported_iff (hencoding : KnownEncoding r.encoding)
    (hcolumns : r.dialect.columnFault? r.format = none)
    (hextensions : .unusable ∉ r.plan.extensions) {s : Stage σ} {fault : Fault} :
    (s.Raises files r fault ∧ fault.isReported = false) ↔
      ∃ name, s.Refuses r name ∧ fault = .noFileName (Path.ofString name) := by
  constructor
  · rintro ⟨hraises, hfault⟩
    cases hraises with
    | malformed item => cases hfault
    | circular finds same => cases hfault
    | tooDeep finds fresh deepest => cases hfault
    | search item missed =>
      rcases SearchPlan.find_error missed with hrefused | ⟨paths, rfl⟩
      · obtain ⟨hrefuses, rfl⟩ := (SearchPlan.candidatesFor_eq_error_iff hextensions).mp hrefused
        exact ⟨_, ⟨_, _, _, _, item, rfl, hrefuses⟩, rfl⟩
      · cases hfault
    | load finds fresh deeper unloaded =>
      rcases readText_error (BookCache.load_error unloaded) with
        (⟨failure, rfl⟩ | ⟨offset, rfl⟩) | ⟨-, hunknown⟩
      · cases hfault
      · cases hfault
      · exact absurd hencoding hunknown
    | read finds fresh deeper loaded unread =>
      exact absurd hcolumns (SourceUnit.read_error unread).2
  · rintro ⟨name, ⟨keyword, clause, stop, items, hitems, rfl, hrefuses⟩, rfl⟩
    have hnone : r.plan.candidatesFor clause.name clause.library =
        .error (.noFileName (Path.ofString clause.name)) :=
      (SearchPlan.candidatesFor_eq_error_iff hextensions).mpr ⟨hrefuses, rfl⟩
    exact ⟨.search hitems (SearchPlan.find_of_candidatesFor hnone _ _), rfl⟩

end Stage

end Expansion

namespace Session

open Expansion

variable {σ : Type}

/-- Options that a run can work with: an encoding that is known, column options in order, and
extensions that can stand after a name. -/
structure Valid (s : Session) : Prop where
  encoding : KnownEncoding s.options.encoding
  columns : s.options.dialect.columnFault? s.options.format = none
  extensions : .unusable ∉ s.plan.extensions

/-- Whether a run ends with a fault that is not reported exactly if it comes to a `COPY` directive
whose name the search refuses. -/
def UnreportedOnlyIfRefused (files : FileAccess (StateM σ)) (s : Session) (name : String)
    (path : Option Path) (text : List Char) (fs : σ) (result : Except Fault Preprocessed) : Prop :=
  ∀ fault, (result = .error fault ∧ fault.isReported = false) ↔
    ∃ stage book, s.Visits files name path text fs stage ∧
      stage.Refuses (s.options.runRules s.plan) book ∧ fault = .noFileName (Path.ofString book)

lemma run_unreported {files : FileAccess (StateM σ)} {s s' : Session} (hvalid : s.Valid)
    {name : String} {path : Option Path} {text : List Char} {fs fs' : σ} {outcome : Outcome}
    (h : (s.run files name path text).run fs = ((outcome, s'), fs')) :
    s.UnreportedOnlyIfRefused files name path text fs outcome.result := by
  intro fault
  have hraises : ∀ stage : Stage σ, (stage.Raises files (s.options.runRules s.plan) fault ∧
      fault.isReported = false) ↔ ∃ book, stage.Refuses (s.options.runRules s.plan) book ∧
        fault = .noFileName (Path.ofString book) :=
    fun stage => Stage.raises_unreported_iff hvalid.encoding hvalid.columns hvalid.extensions
  constructor
  · rintro ⟨herror, hfault⟩
    rcases (run_error_iff h).mp herror with hread | ⟨unit, hread, stage, hreached, hstage⟩
    · exact absurd hvalid.columns (SourceUnit.read_error hread).2
    · obtain ⟨book, hrefuses, hname⟩ := (hraises stage).mp ⟨hstage, hfault⟩
      exact ⟨stage, book, ⟨unit, hread, hreached⟩, hrefuses, hname⟩
  · rintro ⟨stage, book, hvisits, hrefuses, hname⟩
    obtain ⟨hstage, hfault⟩ := (hraises stage).mpr ⟨book, hrefuses, hname⟩
    exact ⟨hvisits.result_eq h hstage, hfault⟩

/-- Under options that a run can work with, and whatever the files hold, a run either gives a result
or ends with a fault that is reported, unless it comes to a `COPY` directive whose name the search
refuses; and these names are those of the root if no extension holds a slash. -/
theorem faults_reported_unless_refused {σ : Type} (files : FileAccess (StateM σ)) (s s' : Session)
    (hvalid : s.Valid) (fs fs' : σ) (outcome : Outcome) :
    (∀ name text, (s.processText files name text).run fs = ((outcome, s'), fs') →
      s.UnreportedOnlyIfRefused files name none text fs outcome.result) ∧
    (∀ path, (s.processFile files path).run fs = ((outcome, s'), fs') →
      (∃ fault, (readText files path s.options.encoding).run fs = (.error fault, fs') ∧
        outcome.result = .error fault ∧ fault.isReported = true) ∨
      ∃ text fs₁, (readText files path s.options.encoding).run fs = (.ok text, fs₁) ∧
        s.UnreportedOnlyIfRefused files path.render (some path) text fs₁ outcome.result) ∧
    ((∀ text, .ending text ∈ s.plan.extensions → '/' ∉ text.toList) → ∀ name,
      s.plan.Refuses name ↔
        ((Path.ofString name).isAbsolute = true ∧ (Path.ofString name).parts = []) ∧
        ∃ text, .ending text ∈ s.plan.extensions ∧ text ≠ "") := by
  refine ⟨fun name text h => run_unreported hvalid h, fun path h => ?_, SearchPlan.refuses_iff⟩
  obtain ⟨fault, hread, herror⟩ | ⟨text, fs₁, hread, hrun⟩ := processFile_cases h
  · left
    refine ⟨fault, hread, herror, ?_⟩
    rcases readText_error hread with (⟨failure, rfl⟩ | ⟨offset, rfl⟩) | ⟨-, hunknown⟩
    · rfl
    · rfl
    · exact absurd hvalid.encoding hunknown
  · exact .inr ⟨text, fs₁, hread, run_unreported hvalid hrun⟩

section Sample

/-- A `COPY` directive that names the root. -/
def rootText : List Char :=
  ['C', 'O', 'P', 'Y', ' ', '\x27', '/', '\x27', '.']

/-- A session in free format that looks for copybooks with the standard extensions. -/
def standardSession : Session where
  options := { Options.standard with format := .free }
  plan := ⟨[Path.here], SearchPlan.standardExtensions.map .ending, false⟩
  cache := BookCache.empty

abbrev standardRules : RunRules :=
  standardSession.options.runRules standardSession.plan

def rootWritten : TracedText :=
  LogicalLine.write .ansi85 .free [.sampleCode "main" 1 rootText]

def rootItem : Item :=
  .copy ⟨.word, ['C', 'O', 'P', 'Y'], 0⟩ ⟨"/", none, false, []⟩ 9

lemma standardSession_valid : standardSession.Valid where
  encoding := ⟨"utf-8", .utf8, rfl, by cbv⟩
  columns := by cbv
  extensions := by simp [standardSession]

set_option maxRecDepth 20000

lemma read_rootText :
    ∃ unit, SourceUnit.read standardRules.toLineRules "main" rootText = .ok unit ∧
      unit.written = rootWritten := by
  have hlogical : SourceUnit.logicalLines standardRules.toLineRules "main" rootText =
      [.sampleCode "main" 1 rootText] := by
    cbv
  apply SourceUnit.exists_read_of_no_keyword hlogical (by simp)
  rw [List.forall_mem_singleton]
  cbv

lemma root_refused : ∃ stage : Stage Unit,
    standardSession.Visits cyclicFiles "main" none rootText () stage ∧
      stage.Refuses standardRules "/" := by
  obtain ⟨unit, hread, hwritten⟩ := read_rootText
  have hitems : Item.ofText standardRules.dialect true rootWritten.text =
      [.kept 0 0, rootItem, .kept 9 10] := by
    cbv
  have hrefuses : standardRules.plan.Refuses "/" := by
    have hextension : ".cpy" ∈ SearchPlan.standardExtensions := by decide
    exact ⟨by cbv, ".cpy", List.mem_map_of_mem hextension, by decide, by cbv⟩
  have hentered : (standardSession.entry "main" none rootText unit ()).items =
      [.kept 0 0, rootItem, .kept 9 10] := by
    rw [← hitems, ← hwritten]
    rfl
  exact ⟨_, ⟨unit, hread, .single (.kept hentered)⟩, _, _, _, _, rfl, rfl, hrefuses⟩

end Sample

/-- A directive that names the root ends a run with a fault that is not reported. -/
theorem faults_reported_unless_refused_root :
    ∃ (outcome : Outcome) (s' : Session),
      (standardSession.processText cyclicFiles "main" rootText).run () = ((outcome, s'), ()) ∧
      standardSession.UnreportedOnlyIfRefused cyclicFiles "main" none rootText () outcome.result ∧
      outcome.result = .error (.noFileName ⟨1, []⟩) := by
  rcases hrun : (standardSession.processText cyclicFiles "main" rootText).run () with
    ⟨⟨outcome, s'⟩, fs⟩
  have hunreported := (faults_reported_unless_refused cyclicFiles standardSession s'
    standardSession_valid () fs outcome).1 "main" rootText hrun
  obtain ⟨stage, hvisits, hrefuses⟩ := root_refused
  have hresult := ((hunreported _).mpr ⟨stage, "/", hvisits, hrefuses, rfl⟩).1
  have hroot : Path.ofString "/" = ⟨1, []⟩ := by
    cbv
  rw [hroot] at hresult
  exact ⟨outcome, s', rfl, hunreported, hresult⟩

end Session

end CobolText
