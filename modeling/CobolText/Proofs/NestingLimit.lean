import CobolText.Proofs.SharedCache

/-!
# The limit on nesting

The limit on nesting is looked at when a copybook is found that is not being expanded yet, and
before it is loaded.  Up to the first copybook that is nested too deeply, a run does the same under
a higher limit.  So a run that the limit does not stop has the same outcome under every higher
limit.
-/

namespace CobolText

variable {σ : Type} {α β : Type} {files : FileAccess (StateM σ)} {fs : σ}

/-- Whether a fault says that copybooks are nested too deeply. -/
def Fault.IsTooDeep (fault : Fault) : Prop :=
  ∃ limit chain position, fault = .tooDeep limit chain position

/-- Whether a computation is stopped by its limit on nesting wherever it does not do the same as
another one. -/
def SameUnlessTooDeep (x y : Run (StateM σ) α) : Prop :=
  ∀ w, Run.outcome x w = Run.outcome y w ∨ ∃ fault, Fails x w fault ∧ fault.IsTooDeep

namespace SameUnlessTooDeep

lemma refl (x : Run (StateM σ) α) : SameUnlessTooDeep x x :=
  fun _ => .inl rfl

lemma bind {x y : Run (StateM σ) α} {f g : α → Run (StateM σ) β} (hx : SameUnlessTooDeep x y)
    (hf : ∀ a, SameUnlessTooDeep (f a) (g a)) : SameUnlessTooDeep (x >>= f) (y >>= g) := by
  intro w
  obtain hsame | ⟨fault, hfails, hdeep⟩ := hx w
  · rw [Run.outcome_bind, Run.outcome_bind, ← hsame]
    rcases hout : Run.outcome x w with ⟨⟨⟨e⟩ | ⟨a⟩, s⟩, fs⟩
    · exact .inl rfl
    · obtain hnext | ⟨fault, hfails, hdeep⟩ := hf a (s, fs)
      · exact .inl hnext
      · exact .inr ⟨fault, Fails.bind_iff.mpr (.inr ⟨a, (s, fs), hout, hfails⟩), hdeep⟩
  · exact .inr ⟨fault, Fails.bind_iff.mpr (.inl hfails), hdeep⟩

lemma adapt {x y : Run (StateM σ) α} (hx : SameUnlessTooDeep x y) (g : Halt → Halt)
    (hg : ∀ h, (g h).fault = h.fault) :
    SameUnlessTooDeep (ExceptT.adapt g x) (ExceptT.adapt g y) := by
  intro w
  obtain hsame | ⟨fault, hfails, hdeep⟩ := hx w
  · left
    rw [Run.outcome_adapt, Run.outcome_adapt, hsame]
  · exact .inr ⟨fault, (Fails.adapt_iff hg).mpr hfails, hdeep⟩

lemma foldlM {f g : β → α → Run (StateM σ) β} (hf : ∀ b a, SameUnlessTooDeep (f b a) (g b a))
    (items : List α) (b : β) : SameUnlessTooDeep (items.foldlM f b) (items.foldlM g b) := by
  induction items generalizing b with
  | nil => exact refl _
  | cons a items ih =>
    rw [List.foldlM_cons, List.foldlM_cons]
    exact (hf b a).bind ih

end SameUnlessTooDeep

namespace Expansion

variable {r : RunRules}

/-- Whether one way of expanding copybooks does what another one does until its limit stops it; if
it allows no further level, the limit stops it at once. -/
def GoesFurther (low high : Option (Expander (StateM σ))) : Prop :=
  ∀ e ∈ low, ∃ e' ∈ high, ∀ stack name text,
    SameUnlessTooDeep (e stack name text) (e' stack name text)

variable {low high : Option (Expander (StateM σ))}

/-- The checks that come before the limit have the same outcome on both sides, and so have those
that come after it if the limit is not reached. -/
lemma includeBook_sameUnlessTooDeep (h : GoesFurther low high) (depth : Value)
    (stack : List Inclusion) (clause : CopyClause) (position : Option Position) :
    SameUnlessTooDeep (includeBook files r low stack clause position)
      (includeBook files { r with depth } high stack clause position) := by
  unfold includeBook
  apply (SameUnlessTooDeep.refl _).bind
  intro found
  cases found with
  | error fault => exact .refl _
  | ok path =>
    dsimp only
    split
    · exact .refl _
    · cases low with
      | none =>
        intro w
        exact .inr ⟨_, haltAtStart_fails.mpr rfl, _, _, _, rfl⟩
      | some expand =>
        obtain ⟨expand', hhigh, hsame⟩ := h expand rfl
        obtain rfl : high = some expand' := hhigh
        apply (SameUnlessTooDeep.refl (loadBook files r path)).bind
        intro text
        exact (hsame _ path.render text).bind fun book => .refl _

lemma carryOut_sameUnlessTooDeep (h : GoesFurther low high) (depth : Value)
    (stack : List Inclusion) (t : TracedText) (p : Progress) (item : Item) :
    SameUnlessTooDeep (carryOut files r low stack t p item)
      (carryOut files { r with depth } high stack t p item) := by
  cases item with
  | kept start stop => exact .refl _
  | change effect => exact .refl _
  | malformed keyword defect => exact .refl _
  | copy keyword clause stop =>
    have hbook : SameUnlessTooDeep
        (includeBook files r low stack clause (directivePosition? t keyword))
        (includeBook files { r with depth } high stack clause (directivePosition? t keyword)) :=
      includeBook_sameUnlessTooDeep h depth stack clause _
    apply (hbook.adapt (Halt.inCopybook p) fun _ => rfl).bind
    exact fun book => .refl _

lemma expandUnit_eq (levels : Nat) (stack : List Inclusion) (unit : SourceUnit) :
    expandUnit files r levels stack unit = (do
      modify fun s => { s with diagnostics := s.diagnostics ++ unit.diagnostics }
      return (← expandDocument files r (below files r levels) stack unit.written).1) := by
  cases levels <;> rfl

lemma expandUnit_of_goesFurther {levels levels' : Nat} {depth : Value}
    (h : GoesFurther (below files r levels) (below files { r with depth } levels'))
    (stack : List Inclusion) (unit : SourceUnit) :
    SameUnlessTooDeep (expandUnit files r levels stack unit)
      (expandUnit files { r with depth } levels' stack unit) := by
  rw [expandUnit_eq, expandUnit_eq]
  apply (SameUnlessTooDeep.refl _).bind
  intro _
  refine SameUnlessTooDeep.bind (SameUnlessTooDeep.bind ?_ fun _ => .refl _) fun _ => .refl _
  apply SameUnlessTooDeep.foldlM
  exact carryOut_sameUnlessTooDeep h depth stack unit.written

/-- A unit is expanded in the same way if more levels of inclusion are allowed below it. -/
theorem expandUnit_sameUnlessTooDeep (depth : Value) {levels levels' : Nat} (hle : levels ≤ levels')
    (stack : List Inclusion) (unit : SourceUnit) :
    SameUnlessTooDeep (expandUnit files r levels stack unit)
      (expandUnit files { r with depth } levels' stack unit) := by
  induction levels generalizing levels' stack unit with
  | zero =>
    apply expandUnit_of_goesFurther
    intro e he
    cases he
  | succ levels ih =>
    obtain ⟨further, rfl⟩ : ∃ n, levels' = n + 1 := ⟨levels' - 1, by omega⟩
    apply expandUnit_of_goesFurther
    intro e he
    obtain rfl := Option.some.inj he
    refine ⟨_, rfl, fun inner name text => ?_⟩
    exact (SameUnlessTooDeep.refl (readUnit r name text)).bind (ih (by omega) inner)

end Expansion

namespace Options

variable {o o' : Options} {depth : Value}

lemma withDepth_eq_ok (h : o.withDepth depth = .ok o') : o' = { o with maxCopyDepth := depth } := by
  unfold withDepth at h
  cases hcount : depth.count? with
  | none => simp [hcount] at h
  | some n =>
    simp only [hcount] at h
    split at h
    · cases h
    · exact (Except.ok.inj h).symm

end Options

namespace Session

open Expansion

/-- Whether two calls come to the same end: the same outcome, and the same copybooks and files left
behind. -/
structure SameEnd (x y : (Outcome × Session) × σ) : Prop where
  outcome_eq : x.1.1 = y.1.1
  cache_eq : x.1.2.cache = y.1.2.cache
  files_eq : x.2 = y.2

variable {s s' : Session} {depth : Value}

lemma run_sameEnd (hcache : s.cache = s'.cache)
    (hrules : s'.options.runRules s'.plan = { s.options.runRules s.plan with depth })
    (hle : (s.options.runRules s.plan).maxDepth ≤ (s'.options.runRules s'.plan).maxDepth)
    (name : String) (path : Option Path) (text : List Char) :
    SameEnd ((s'.run files name path text).run fs) ((s.run files name path text).run fs) ∨
      ∃ fault, ((s.run files name path text).run fs).1.1.result = .error fault ∧
        fault.IsTooDeep := by
  cases hread : SourceUnit.read (s.options.runRules s.plan).toLineRules name text with
  | error fault =>
    have hread' : SourceUnit.read (s'.options.runRules s'.plan).toLineRules name text =
        .error fault := by
      rw [hrules, hread]
    left
    rw [run_eq_error rfl hread, run_eq_error rfl hread']
    exact ⟨rfl, hcache.symm, rfl⟩
  | ok unit =>
    have hread' : SourceUnit.read (s'.options.runRules s'.plan).toLineRules name text =
        .ok unit := by
      rw [hrules, hread]
    obtain hsame | ⟨fault, ⟨halt, hhalt, rfl⟩, hdeep⟩ := expandUnit_sameUnlessTooDeep depth hle
      [⟨name, none, path⟩] unit (⟨s.cache, []⟩, fs)
    · left
      have hexpansion : Run.outcome (expansion files (s.options.runRules s.plan) name path unit)
          (⟨s.cache, []⟩, fs) = Run.outcome (expansion files (s'.options.runRules s'.plan) name path
          unit) (⟨s'.cache, []⟩, fs) := by
        rw [expansion, expansion, hsame, hrules, hcache]
      rw [run_eq rfl hread rfl, run_eq rfl hread' rfl]
      simp only [Run.result, Run.after, hexpansion]
      exact ⟨rfl, rfl, rfl⟩
    · right
      refine ⟨halt.fault, ?_, hdeep⟩
      rw [run_eq rfl hread rfl]
      simp only [report, Run.result, expansion, hhalt]

lemma perform_sameEnd (hcache : s.cache = s'.cache)
    (hencoding : s.options.encoding = s'.options.encoding)
    (hrules : s'.options.runRules s'.plan = { s.options.runRules s.plan with depth })
    (hle : (s.options.runRules s.plan).maxDepth ≤ (s'.options.runRules s'.plan).maxDepth)
    (call : Call) :
    SameEnd ((s'.perform files call).run fs) ((s.perform files call).run fs) ∨
      ∃ fault, ((s.perform files call).run fs).1.1.result = .error fault ∧ fault.IsTooDeep := by
  cases call with
  | text name text => exact run_sameEnd hcache hrules hle name none text
  | file path =>
    rcases hread : (readText files path s.options.encoding).run fs with ⟨⟨fault⟩ | ⟨text⟩, fs'⟩
    · left
      rw [perform_file_error hread, perform_file_error (hencoding ▸ hread)]
      exact ⟨rfl, hcache.symm, rfl⟩
    · rw [perform_file hread, perform_file (hencoding ▸ hread)]
      exact run_sameEnd hcache hrules hle path.render (some path) text

/-- Under a higher limit on nesting, a call comes to the same end as under a lower one, be it a
result or a fault, unless the lower limit stops it.  So if only the higher limit lets it have a
result, the lower limit stops it. -/
theorem higher_limit {σ : Type} (files : FileAccess (StateM σ)) (fs : σ) (s : Session)
    {limit higher : Value} {o o' : Options} (hlow : s.options.withDepth limit = .ok o)
    (hhigh : s.options.withDepth higher = .ok o') {d d' : Int} (hd : limit.count? = some d)
    (hd' : higher.count? = some d') (hle : d ≤ d') (call : Call) :
    let low := (perform files { s with options := o } call).run fs
    let high := (perform files { s with options := o' } call).run fs
    ((∀ fault, low.1.1.result = .error fault → ¬fault.IsTooDeep) → SameEnd high low) ∧
      ∀ result fault, high.1.1.result = .ok result → low.1.1.result = .error fault →
        fault.IsTooDeep := by
  obtain rfl := Options.withDepth_eq_ok hlow
  obtain rfl := Options.withDepth_eq_ok hhigh
  intro low high
  have hmax : (({ s.options with maxCopyDepth := limit } : Options).runRules s.plan).maxDepth ≤
      (({ s.options with maxCopyDepth := higher } : Options).runRules s.plan).maxDepth := by
    simp only [RunRules.maxDepth, Options.runRules, hd, hd', Option.getD_some]
    omega
  let strict : Session := { s with options := { s.options with maxCopyDepth := limit } }
  let lenient : Session := { s with options := { s.options with maxCopyDepth := higher } }
  have hcache : strict.cache = lenient.cache := rfl
  have hends : SameEnd high low ∨ ∃ fault, low.1.1.result = .error fault ∧ fault.IsTooDeep :=
    perform_sameEnd hcache rfl rfl hmax call
  constructor
  · intro hnot
    obtain hsame | ⟨fault, hfault, hdeep⟩ := hends
    · exact hsame
    · exact absurd hdeep (hnot fault hfault)
  · intro result fault hresult hfault
    obtain hsame | ⟨fault', hfault', hdeep⟩ := hends
    · rw [hsame.outcome_eq, hfault] at hresult
      cases hresult
    · rw [hfault] at hfault'
      obtain rfl := Except.error.inj hfault'
      exact hdeep

section Sample

/-- A copybook `B` that includes a copybook `C`. -/
def chainFiles : FileAccess (StateM Unit) where
  workDir := ⟨1, []⟩
  isFile path := pure (path.parts = ["B"] || path.parts = ["C"])
  read path := pure (.ok (if path.parts = ["B"] then [67, 79, 80, 89, 32, 67, 46] else [65]))

/-- The session of the samples with copybooks nested at most so deep. -/
def limited (limit : Int) : Session :=
  { shallowSession with
    options := { shallowSession.options with maxCopyDepth := .number limit } }

abbrev limitedRules (limit : Int) : RunRules :=
  (limited limit).options.runRules (limited limit).plan

def chainText : List Char :=
  ['C', 'O', 'P', 'Y', ' ', 'C', '.']

def chainClause : CopyClause :=
  ⟨"C", none, false, []⟩

def mainInclusion : Inclusion :=
  ⟨"main", none, none⟩

def chainInclusion : Inclusion :=
  ⟨"B", none, some ⟨0, ["B"]⟩⟩

def chainLoaded : BookCache :=
  ⟨[⟨⟨1, ["B"]⟩, .text "latin-1", chainText⟩]⟩

set_option maxRecDepth 20000

lemma read_chainText :
    ∃ unit, SourceUnit.read shallowRules.toLineRules "B" chainText = .ok unit ∧
      unit.written = LogicalLine.write .ansi85 .free [.sampleCode "B" 1 chainText] := by
  have hlogical : SourceUnit.logicalLines shallowRules.toLineRules "B" chainText =
      [.sampleCode "B" 1 chainText] := by
    cbv
  apply SourceUnit.exists_read_of_no_keyword hlogical (by simp)
  rw [List.forall_mem_singleton]
  cbv

lemma read_chainEnd :
    ∃ unit, SourceUnit.read shallowRules.toLineRules "C" ['A'] = .ok unit ∧
      unit.written = LogicalLine.write .ansi85 .free [.sampleCode "C" 1 ['A']] := by
  have hlogical : SourceUnit.logicalLines shallowRules.toLineRules "C" ['A'] =
      [.sampleCode "C" 1 ['A']] := by
    cbv
  apply SourceUnit.exists_read_of_no_keyword hlogical (by simp)
  rw [List.forall_mem_singleton]
  cbv

lemma items_chain (options : Bool) :
    Item.ofText .ansi85 options
        (LogicalLine.write .ansi85 .free [.sampleCode "B" 1 chainText]).text =
      [.kept 0 0, .copy cyclicKeyword chainClause 7, .kept 7 8] := by
  have htext : (LogicalLine.write .ansi85 .free [.sampleCode "B" 1 chainText]).text =
      chainText ++ ['\n'] := by
    cbv
  rw [htext]
  cases options with
  | false => cbv
  | true => cbv

lemma find_chain (limit : Int) (position : Option Position) :
    ((limitedRules limit).plan.find chainFiles "B" none position).run () = (.ok ⟨0, ["B"]⟩, ()) ∧
      ((limitedRules limit).plan.find chainFiles "C" none position).run () =
        (.ok ⟨0, ["C"]⟩, ()) := by
  constructor <;> cbv

lemma load_chain (limit : Int) (diagnostics : List Diagnostic) :
    Returns (loadBook chainFiles (limitedRules limit) ⟨0, ["B"]⟩)
        (⟨BookCache.empty, diagnostics⟩, ()) chainText (⟨chainLoaded, diagnostics⟩, ()) ∧
      ∃ w, Returns (loadBook chainFiles (limitedRules limit) ⟨0, ["C"]⟩)
        (⟨chainLoaded, diagnostics⟩, ()) ['A'] w := by
  constructor
  · rw [Returns]
    cbv
  · refine ⟨(⟨⟨chainLoaded.books ++ [⟨⟨1, ["C"]⟩, .text "latin-1", ['A']⟩]⟩, diagnostics⟩, ()), ?_⟩
    rw [Returns]
    cbv

/-- A unit that holds a `COPY` directive and nothing else is expanded if its copybook is
included. -/
lemma exists_returns_of_included {r : RunRules} (hr : r.dialect = .ansi85) {levels : Nat}
    {stack : List Inclusion} {unit : SourceUnit} {clause : CopyClause}
    (hitems : ∀ options, Item.ofText .ansi85 options unit.written.text =
      [.kept 0 0, .copy cyclicKeyword clause 7, .kept 7 8])
    {w w' : World Unit} {book : TracedText}
    (h : Returns (includeBook chainFiles r (below chainFiles r levels) stack clause
      (directivePosition? unit.written cyclicKeyword)) (warned unit w) book w') :
    ∃ out, Returns (expandUnit chainFiles r levels stack unit) w out w' := by
  have hkept : ∀ (start stop : Nat) (p : Progress) (w : World Unit),
      Returns (carryOut chainFiles r (below chainFiles r levels) stack unit.written p
        (.kept start stop)) w (p.push [unit.written.cut start stop []]) w :=
    fun _ _ _ _ => Returns.pure_iff.mpr ⟨rfl, rfl⟩
  obtain ⟨p, hcopied⟩ : ∃ p, Returns (carryOut chainFiles r (below chainFiles r levels) stack
      unit.written (Progress.initial.push [unit.written.cut 0 0 []])
      (.copy cyclicKeyword clause 7)) (warned unit w) p w' :=
    ⟨_, copy_returns_iff.mpr ⟨_, h, rfl⟩⟩
  refine ⟨_, returns_expandUnit (p := p.push [unit.written.cut 7 8 []]) ?_⟩
  rw [hr, hitems]
  apply Returns.bind_iff.mpr
  refine ⟨_, _, hkept 0 0 _ _, Returns.bind_iff.mpr ⟨_, w', hcopied, ?_⟩⟩
  exact Returns.bind_iff.mpr ⟨_, w', hkept 7 8 _ _, Returns.pure_iff.mpr ⟨rfl, rfl⟩⟩

lemma chainEnd_expands {inner : SourceUnit}
    (h : inner.written = LogicalLine.write .ansi85 .free [.sampleCode "C" 1 ['A']])
    {stack : List Inclusion} (hstack : decide (stack.length ≤ 1) = false) (w : World Unit) :
    Returns (expandUnit chainFiles (limitedRules 2) 0 stack inner) w
      (Progress.initial.push [inner.written.cut 0 2 []]).finish (warned inner w) := by
  have hitems : Item.ofText (limitedRules 2).dialect false inner.written.text = [.kept 0 2] := by
    rw [h]
    cbv
  apply returns_expandUnit
  rw [hstack, hitems]
  apply Returns.bind_iff.mpr
  exact ⟨_, _, Returns.pure_iff.mpr ⟨rfl, rfl⟩, Returns.pure_iff.mpr ⟨rfl, rfl⟩⟩

lemma chain_expands {book : SourceUnit}
    (h : book.written = LogicalLine.write .ansi85 .free [.sampleCode "B" 1 chainText])
    (diagnostics : List Diagnostic) :
    ∃ out w', Returns
      (expandUnit chainFiles (limitedRules 2) 1 [mainInclusion, chainInclusion] book)
      (⟨chainLoaded, diagnostics⟩, ()) out w' := by
  have hfresh : (([mainInclusion, chainInclusion] : List Inclusion).any fun i =>
      i.sameUnit chainFiles.workDir ⟨"C", none, some ⟨0, ["C"]⟩⟩) = false := by
    cbv
  obtain ⟨inner, hinner, hwritten⟩ := read_chainEnd
  obtain ⟨w₁, hload⟩ := (load_chain 2 (diagnostics ++ book.diagnostics)).2
  obtain ⟨text, hincluded⟩ : ∃ text, Returns (includeBook chainFiles (limitedRules 2)
      (below chainFiles (limitedRules 2) 1) [mainInclusion, chainInclusion] chainClause
      (directivePosition? book.written cyclicKeyword))
      (warned book (⟨chainLoaded, diagnostics⟩, ())) text (warned inner w₁) :=
    ⟨_, returns_includeBook (find_chain 2 _).2 rfl hfresh hload hinner
      (chainEnd_expands hwritten rfl w₁)⟩
  have hitems : ∀ options, Item.ofText .ansi85 options book.written.text =
      [.kept 0 0, .copy cyclicKeyword chainClause 7, .kept 7 8] := by
    rw [h]
    exact items_chain
  obtain ⟨out, hout⟩ := exists_returns_of_included rfl hitems hincluded
  exact ⟨out, _, hout⟩

/-- With two levels the source and its copybooks are expanded. -/
lemma chain_performed :
    ∃ result diagnostics s', (perform chainFiles (limited 2) (.text "main" cyclicText)).run () =
      ((⟨.ok result, diagnostics⟩, s'), ()) := by
  have hfresh : (([mainInclusion] : List Inclusion).any fun i =>
      i.sameUnit chainFiles.workDir chainInclusion) = false := by
    cbv
  obtain ⟨unit, hread, hwritten⟩ := read_cyclicText "main"
  obtain ⟨book, hbook, hbookWritten⟩ := read_chainText
  obtain ⟨out, w', hout⟩ := chain_expands hbookWritten unit.diagnostics
  obtain ⟨text, hincluded⟩ : ∃ text, Returns (includeBook chainFiles (limitedRules 2)
      (below chainFiles (limitedRules 2) 2) [mainInclusion] cyclicClause
      (directivePosition? unit.written cyclicKeyword))
      (warned unit (⟨BookCache.empty, []⟩, ())) text w' :=
    ⟨_, returns_includeBook (find_chain 2 _).1 rfl hfresh (load_chain 2 _).1 hbook hout⟩
  have hitems : ∀ options, Item.ofText .ansi85 options unit.written.text =
      [.kept 0 0, .copy cyclicKeyword cyclicClause 7, .kept 7 8] := by
    rw [hwritten]
    exact items_cyclic "main"
  obtain ⟨whole, hwhole⟩ := exists_returns_of_included rfl hitems hincluded
  obtain ⟨state, fs⟩ := w'
  exact ⟨_, _, _, run_of_returns (s := limited 2) hread hwhole⟩

/-- With one level the second copybook is nested too deeply. -/
lemma chain_stopped {outcome : Outcome} {s' : Session}
    (h : (perform chainFiles (limited 1) (.text "main" cyclicText)).run () = ((outcome, s'), ())) :
    ∃ fault, outcome.result = .error fault := by
  obtain ⟨unit, hread, hwritten⟩ := read_cyclicText "main"
  obtain ⟨book, hbook, hbookWritten⟩ := read_chainText
  have hfresh : (([mainInclusion] : List Inclusion).any fun i =>
      i.sameUnit chainFiles.workDir chainInclusion) = false := by
    cbv
  have hfresh' : (([mainInclusion, chainInclusion] : List Inclusion).any fun i =>
      i.sameUnit chainFiles.workDir ⟨"C", none, some ⟨0, ["C"]⟩⟩) = false := by
    cbv
  have hmain := cyclic_reaches chainFiles (r := limitedRules 1) rfl hwritten 1 [mainInclusion]
    (⟨BookCache.empty, []⟩, ())
  have hbooked := hmain.tail (.book (find_chain 1 _).1 rfl hfresh (load_chain 1 _).1 hbook)
  have hitems : (Stage.enter (limitedRules 1) 0 [mainInclusion, chainInclusion] chainText book
      (⟨chainLoaded, unit.diagnostics⟩, ())).items =
      [.kept 0 0, .copy cyclicKeyword chainClause 7, .kept 7 8] := by
    rw [← items_chain false, ← hbookWritten]
    rfl
  have hvisits := hbooked.tail (.kept hitems)
  exact ⟨_, Visits.result_eq (s := limited 1) ⟨unit, hread, hvisits⟩ h
    (.tooDeep ⟨⟨_, _, rfl⟩, (find_chain 1 _).2⟩ hfresh' rfl)⟩

end Sample

/-- A copybook that is nested two deep is expanded if two levels are allowed, and with one level the
limit stops the run. -/
theorem higher_limit_chain :
    ∃ result fault,
      ((perform chainFiles (limited 2) (.text "main" cyclicText)).run ()).1.1.result = .ok result ∧
      ((perform chainFiles (limited 1) (.text "main" cyclicText)).run ()).1.1.result =
        .error fault ∧ fault.IsTooDeep := by
  obtain ⟨result, diagnostics, s', hhigh⟩ := chain_performed
  rcases hrun : (perform chainFiles (limited 1) (.text "main" cyclicText)).run () with
    ⟨⟨outcome, s''⟩, fs⟩
  obtain ⟨fault, hlow⟩ := chain_stopped hrun
  have hone : shallowSession.options.withDepth (.number 1) = .ok (limited 1).options := rfl
  have htwo : shallowSession.options.withDepth (.number 2) = .ok (limited 2).options := rfl
  have hlimit := (higher_limit chainFiles () shallowSession hone htwo rfl rfl (by decide)
    (.text "main" cyclicText)).2
  refine ⟨result, fault, by rw [hhigh], hlow, hlimit result fault ?_ ?_⟩
  · exact congrArg (fun x => x.1.1.result) hhigh
  · exact (congrArg (fun x => x.1.1.result) hrun).trans hlow

end Session

end CobolText
