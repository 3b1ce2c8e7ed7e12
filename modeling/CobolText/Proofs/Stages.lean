import CobolText.Proofs.CarriedText
import CobolText.Proofs.LineFidelity
import Mathlib.Logic.Relation

/-!
# The stages of a run

A run expands units inside one another.  A stage is the expansion of one unit at some point: what it
has put out, the items it still has to carry out, and the world around it.  From a stage a run goes
on by carrying out the next item, or it enters the copybook that the next item includes.  What holds
of the characters of every unit by itself, and outlasts exchange and inclusion, holds of the
expansion of a unit, however deeply its copybooks are nested.
-/

namespace CobolText

lemma SourceUnit.name_of_read {r : LineRules} {name : String} {text : List Char} {unit : SourceUnit}
    (h : SourceUnit.read r name text = .ok unit) : unit.name = name := by
  obtain ⟨physical, tooLong, -, rfl⟩ := SourceUnit.ofLines_of_read h
  rfl

lemma SourceUnit.read_name {r : LineRules} {name : String} {text : List Char} {unit : SourceUnit}
    (h : SourceUnit.read r name text = .ok unit) :
    SourceUnit.read r unit.name text = .ok unit := by
  rw [SourceUnit.name_of_read h]
  exact h

/-- Text that is kept ends in the document. -/
lemma Item.kept_stop_le {d : Dialect} {options : Bool} {text : List Char} {start stop : Nat}
    (h : .kept start stop ∈ Item.ofText d options text) : stop ≤ text.length := by
  rw [Passage.items_eq] at h
  obtain ⟨passage, hpassage, hitem⟩ := List.mem_filterMap.mp h
  have hkept : passage = .kept start stop := by
    cases passage <;> simp_all [Passage.item?]
  rw [hkept] at hpassage
  have hreads := Item.reads_stepsFrom d text options (Nat.zero_le _)
  exact (Passage.kept_bounds hreads (Nat.zero_le _) hpassage).2

namespace Expansion

variable {σ : Type}

/-- The expansion of one unit at some point of a run. -/
structure Stage (σ : Type) where
  /-- How many further levels of inclusion are allowed below the unit. -/
  levels : Nat
  /-- The units that are being expanded, this one last. -/
  stack : List Inclusion
  /-- The text that the unit was read from. -/
  text : List Char
  unit : SourceUnit
  progress : Progress
  /-- What is still to be carried out. -/
  items : List Item
  world : World σ

namespace Stage

/-- The stage at which a unit is entered: its warnings are given and nothing is carried out yet. -/
def enter (r : RunRules) (levels : Nat) (stack : List Inclusion) (text : List Char)
    (unit : SourceUnit) (w : World σ) : Stage σ where
  levels := levels
  stack := stack
  text := text
  unit := unit
  progress := Progress.initial
  items := Item.ofText r.dialect (stack.length ≤ 1) unit.written.text
  world := warned unit w

/-- How a run goes on from a stage: the next item is carried out, or the copybook of a directive is
found, read and entered. -/
inductive Next (files : FileAccess (StateM σ)) (r : RunRules) : Stage σ → Stage σ → Prop
  | item {levels : Nat} {stack : List Inclusion} {text : List Char} {unit : SourceUnit}
      {p p' : Progress} {item : Item} {items : List Item} {w w' : World σ}
      (carried : Returns (carryOut files r (below files r levels) stack unit.written p item)
        w p' w') :
      Next files r ⟨levels, stack, text, unit, p, item :: items, w⟩
        ⟨levels, stack, text, unit, p', items, w'⟩
  | book {levels : Nat} {stack : List Inclusion} {text source : List Char}
      {unit book : SourceUnit} {p : Progress} {keyword : Token} {clause : CopyClause} {stop : Nat}
      {items : List Item} {path : Path} {w w₁ w₂ : World σ}
      (found : (r.plan.find files clause.name clause.library
        (directivePosition? unit.written keyword)).run w.2 = (.ok path, w₁.2))
      (same : w₁.1 = w.1)
      (fresh : (stack.any fun i =>
        i.sameUnit files.workDir ⟨clause.name, clause.library, some path⟩) = false)
      (loaded : Returns (loadBook files r path) w₁ source w₂)
      (read : SourceUnit.read r.toLineRules path.render source = .ok book) :
      Next files r ⟨levels + 1, stack, text, unit, p, .copy keyword clause stop :: items, w⟩
        (enter r levels (stack ++ [⟨clause.name, clause.library, some path⟩]) source book w₂)

/-- Whether a run that stands at one stage may come to stand at another. -/
abbrev Reaches (files : FileAccess (StateM σ)) (r : RunRules) : Stage σ → Stage σ → Prop :=
  Relation.ReflTransGen (Next files r)

/-- Text that is kept waits from then on. -/
lemma Next.kept {files : FileAccess (StateM σ)} {r : RunRules} {s : Stage σ} {start stop : Nat}
    {items : List Item} (h : s.items = .kept start stop :: items) :
    Next files r s { s with
      progress := s.progress.push [s.unit.written.cut start stop []]
      items := items } := by
  obtain ⟨levels, stack, text, unit, p, _, w⟩ := s
  obtain rfl := h
  exact .item (Returns.pure_iff.mpr ⟨rfl, rfl⟩)

/-- Whether the unit of a stage is what its text is read as. -/
def IsRead (r : RunRules) (s : Stage σ) : Prop :=
  SourceUnit.read r.toLineRules s.unit.name s.text = .ok s.unit

/-- The items of the unit of a stage, be they carried out already or not. -/
def allItems (r : RunRules) (s : Stage σ) : List Item :=
  Item.ofText r.dialect (s.stack.length ≤ 1) s.unit.written.text

/-- Whether nothing of the unit of a stage is carried out yet. -/
def Entered (r : RunRules) (s : Stage σ) : Prop :=
  s.items = s.allItems r

/-- Whether a character of the unit of a stage stands in text that the directives of the unit
keep. -/
def Keeps (r : RunRules) (s : Stage σ) (x : TracedChar) : Prop :=
  ∃ start stop, .kept start stop ∈ s.allItems r ∧ x ∈ (s.unit.written.trace.take stop).drop start

lemma Keeps.mem {r : RunRules} {s : Stage σ} {x : TracedChar} (h : s.Keeps r x) :
    x ∈ s.unit.written.trace := by
  obtain ⟨start, stop, -, hx⟩ := h
  exact List.mem_of_mem_take (List.mem_of_mem_drop hx)

/-- Whether a run that stands at a stage comes to enter a unit at stage `b`, with the copybooks
`inner` around it. -/
structure Enters (files : FileAccess (StateM σ)) (r : RunRules) (s b : Stage σ)
    (inner : List Inclusion) : Prop where
  reached : s.Reaches files r b
  entered : b.Entered r
  isRead : b.IsRead r
  stack_eq : b.stack = s.stack ++ inner

/-- Whether a copybook is entered at stage `b` for a directive of the unit that is entered at stage
`s`. -/
structure Includes (files : FileAccess (StateM σ)) (r : RunRules) (s b : Stage σ) (name : String)
    (path : Path) : Prop where
  reached : Reaches files r s b
  entered : b.Entered r
  stack_eq : ∃ library, b.stack = s.stack ++ [⟨name, library, some path⟩]
  name_eq : b.unit.name = path.render
  isRead : b.IsRead r
  loaded : b.world.1.cache.get? (Path.resolve files.workDir path) r.encoding = some b.text

end Stage

/-- Whether a property of characters, told for the stage at which their unit is entered, is carried
through expansion: it holds of every unit by itself, outlasts exchange and inclusion, and is not
lost when further copybooks are read. -/
structure Carried (files : FileAccess (StateM σ)) (r : RunRules)
    (P : Stage σ → World σ → TracedChar → Prop) : Prop where
  hereditary : ∀ s w, Hereditary (P s w)
  grows : ∀ {s w w'}, w.1.cache.Within w'.1.cache → ∀ x, P s w x → P s w' x
  own : ∀ {s : Stage σ}, s.IsRead r → ∀ w x, s.Keeps r x → P s w x
  included : ∀ {s b : Stage σ} {name path}, s.Includes files r b name path →
    ∀ {w}, b.world.1.cache.Within w.1.cache → ∀ x, P b w x → P s w (x.within [name])

section Carried

variable {files : FileAccess (StateM σ)} {r : RunRules}

/-- A copybook that is included is entered, and what comes out of it is put under the rules of the
directive. -/
lemma includeBook_enters {levels : Nat} {stack : List Inclusion} {unit : SourceUnit} {p : Progress}
    {keyword : Token} {clause : CopyClause} {book : TracedText} {w w' : World σ}
    (h : Returns (includeBook files r (below files r levels) stack clause
      (directivePosition? unit.written keyword)) w book w') (text : List Char) (stop : Nat)
    (items : List Item) :
    ∃ inner path source bookUnit w₁ out, levels = inner + 1 ∧
      Stage.Next files r ⟨levels, stack, text, unit, p, .copy keyword clause stop :: items, w⟩
        (.enter r inner (stack ++ [⟨clause.name, clause.library, some path⟩]) source bookUnit w₁) ∧
      SourceUnit.read r.toLineRules path.render source = .ok bookUnit ∧
      w₁.1.cache.get? (Path.resolve files.workDir path) r.encoding = some source ∧
      w.1.cache.Within w₁.1.cache ∧
      Returns (expandUnit files r inner (stack ++ [⟨clause.name, clause.library, some path⟩])
        bookUnit) w₁ out w' ∧
      book = out.replace clause.rules := by
  obtain ⟨expandText, path, source, out, w₁, w₂, hsome, hstate, hfound, hfresh, hload, hinner,
    rfl⟩ := includeBook_returns h
  obtain ⟨hget, hgrows⟩ := loadBook_returns hload
  rw [hstate] at hgrows
  cases levels with
  | zero => simp [below] at hsome
  | succ inner =>
    obtain rfl := Option.some.inj hsome
    obtain ⟨bookUnit, w₃, hread, hexpand⟩ := Returns.bind_iff.mp hinner
    obtain ⟨hbook, rfl⟩ := readUnit_returns.mp hread
    exact ⟨inner, path, source, bookUnit, w₃, out, rfl, .book hfound hstate hfresh hload hbook,
      hbook, hget, hgrows, hexpand, rfl⟩

/-- Items that are carried out one after the other lead from stage to stage. -/
lemma foldlM_reaches {levels : Nat} {stack : List Inclusion} {unit : SourceUnit} {p q : Progress}
    {items : List Item} {w w' : World σ}
    (h : Returns (items.foldlM (carryOut files r (below files r levels) stack unit.written) p)
      w q w') (text : List Char) :
    Stage.Reaches files r ⟨levels, stack, text, unit, p, items, w⟩
      ⟨levels, stack, text, unit, q, [], w'⟩ := by
  induction items generalizing p w with
  | nil =>
    obtain ⟨rfl, rfl⟩ := Returns.pure_iff.mp h
    exact .refl
  | cons item items ih =>
    obtain ⟨p₁, w₁, hstep, h⟩ := Returns.bind_iff.mp h
    exact .head (.item hstep) (ih h)

/-- The expansion of a unit ends at a stage with nothing left to carry out, and gives what is put
out there. -/
lemma expandUnit_reaches {levels : Nat} {stack : List Inclusion} {unit : SourceUnit}
    {out : TracedText} {w w' : World σ}
    (h : Returns (expandUnit files r levels stack unit) w out w') (text : List Char) :
    ∃ last : Stage σ, (Stage.enter r levels stack text unit w).Reaches files r last ∧
      last.items = [] ∧ out = last.progress.finish := by
  obtain ⟨copies, h⟩ := expandUnit_returns h
  obtain ⟨p, hfold, hresult⟩ := expandDocument_returns h
  simp only [Prod.mk.injEq] at hresult
  exact ⟨_, foldlM_reaches hfold text, rfl, hresult.1⟩

variable {P : Stage σ → World σ → TracedChar → Prop}

variable (files r P) in
/-- Whether the expansion of units with `levels` further levels carries a property. -/
def CarriesAt (levels : Nat) : Prop :=
  ∀ (stack : List Inclusion) (text : List Char) (unit : SourceUnit) (w w' : World σ)
    (out : TracedText), SourceUnit.read r.toLineRules unit.name text = .ok unit →
    Returns (expandUnit files r levels stack unit) w out w' →
    w.1.cache.Within w'.1.cache ∧ out.WellFormed ∧
      ∀ x ∈ out.trace, P (.enter r levels stack text unit w) w' x

/-- A copybook that is included is well-formed, and its characters have the property of the unit
that includes it. -/
lemma includeBook_carries (hP : Carried files r P) {s : Stage σ} {levels : Nat}
    {stack : List Inclusion} {text : List Char} {unit : SourceUnit} {p : Progress}
    {keyword : Token} {clause : CopyClause} {stop : Nat} {items : List Item} {w w' : World σ}
    (hbelow : ∀ inner, levels = inner + 1 → CarriesAt files r P inner)
    (hreached : s.Reaches files r
      ⟨levels, stack, text, unit, p, .copy keyword clause stop :: items, w⟩)
    (hstack : s.stack = stack) {book : TracedText}
    (h : Returns (includeBook files r (below files r levels) stack clause
      (directivePosition? unit.written keyword)) w book w') :
    w.1.cache.Within w'.1.cache ∧ book.WellFormed ∧
      ∀ x ∈ book.trace, P s w' (x.within [clause.name]) := by
  obtain ⟨inner, path, source, bookUnit, w₁, out, hlevels, hnext, hread, hget, hgrows, hout, rfl⟩ :=
    includeBook_enters h text stop items
  have hname := SourceUnit.name_of_read hread
  have hisRead := SourceUnit.read_name hread
  obtain ⟨hgrows', hwell, hholds⟩ := hbelow inner hlevels _ source _ _ _ _ hisRead hout
  refine ⟨hgrows.trans hgrows', hwell.replace clause.rules, fun x hx => ?_⟩
  have hincludes : s.Includes files r (.enter r inner
      (stack ++ [⟨clause.name, clause.library, some path⟩]) source bookUnit w₁) clause.name path :=
    ⟨hreached.tail hnext, rfl, ⟨clause.library, by rw [hstack]; rfl⟩, hname, hisRead, hget⟩
  have hreplaced := TracedText.forall_trace_replace (hP.hereditary _ w') hwell hholds clause.rules
  exact hP.included hincludes hgrows' x (hreplaced x hx)

/-- What one item of a document adds has the property, if the copybooks below have it. -/
lemma carryOut_carries (hP : Carried files r P) {s : Stage σ} {levels : Nat}
    {stack : List Inclusion} {text : List Char} {unit : SourceUnit} {p p' : Progress}
    {item : Item} {items : List Item} {w w' : World σ}
    (hbelow : ∀ inner, levels = inner + 1 → CarriesAt files r P inner)
    (hreached : s.Reaches files r ⟨levels, stack, text, unit, p, item :: items, w⟩)
    (hstack : s.stack = stack) (hunit : s.unit = unit) (hread : s.IsRead r)
    (hwell : unit.written.WellFormed)
    (hitems : ∀ start stop, item = .kept start stop → .kept start stop ∈ s.allItems r)
    (hp : p.Carries (P s w))
    (h : Returns (carryOut files r (below files r levels) stack unit.written p item) w p' w') :
    w.1.cache.Within w'.1.cache ∧ p'.Carries (P s w') := by
  obtain ⟨start, stop, hitem, rfl, rfl⟩ | ⟨effect, -, rfl, rfl⟩ |
    ⟨keyword, clause, stop, book, rfl, hbook, rfl⟩ := carryOut_returns h
  · have hmem := hitems start stop hitem
    have hle : stop ≤ unit.written.text.length := by
      rw [← hunit]
      exact Item.kept_stop_le hmem
    refine ⟨BookCache.Within.refl _, hp.push ?_ ?_⟩
    · exact List.forall_mem_singleton.mpr (hwell.cut start hle [])
    · intro f hf
      have hown : ∀ x ∈ (unit.written.trace.take stop).drop start, P s w' (x.within []) := by
        intro x hx
        rw [TracedChar.within_nil]
        rw [← hunit] at hx
        exact hP.own hread w' x ⟨start, stop, hmem, hx⟩
      rw [List.mem_singleton.mp hf]
      exact TracedText.forall_trace_cut hwell hle hown
  · have hflush := hp.flush (hP.hereditary s _)
    exact ⟨BookCache.Within.refl _, hflush.wellFormed, hflush.holds⟩
  · obtain ⟨hgrows, hbookWell, hholds⟩ := includeBook_carries hP hbelow hreached hstack hbook
    have hpush := (hp.imp (hP.grows hgrows)).push
      (forall_splice (fun _ hlast => hbookWell.cut 0 hlast _) Fragment.wellFormed_synthetic)
      (forall_trace_splice (hP.hereditary s w') hbookWell hholds unit.written.text stop)
    exact ⟨hgrows, hpush.wellFormed, hpush.holds⟩

lemma foldlM_carries (hP : Carried files r P) {s : Stage σ} {levels : Nat}
    {stack : List Inclusion} {text : List Char} {unit : SourceUnit} {p q : Progress}
    {items : List Item} {w w' : World σ}
    (hbelow : ∀ inner, levels = inner + 1 → CarriesAt files r P inner)
    (hreached : s.Reaches files r ⟨levels, stack, text, unit, p, items, w⟩)
    (hstack : s.stack = stack) (hunit : s.unit = unit) (hread : s.IsRead r)
    (hwell : unit.written.WellFormed)
    (hitems : ∀ start stop, .kept start stop ∈ items → .kept start stop ∈ s.allItems r)
    (hp : p.Carries (P s w))
    (h : Returns (items.foldlM (carryOut files r (below files r levels) stack unit.written) p)
      w q w') :
    w.1.cache.Within w'.1.cache ∧ q.Carries (P s w') := by
  induction items generalizing p w with
  | nil =>
    obtain ⟨rfl, rfl⟩ := Returns.pure_iff.mp h
    exact ⟨BookCache.Within.refl _, hp⟩
  | cons item items ih =>
    obtain ⟨p₁, w₁, hstep, h⟩ := Returns.bind_iff.mp h
    obtain ⟨hgrows, hp₁⟩ := carryOut_carries hP hbelow hreached hstack hunit hread hwell
      (fun start stop hitem => hitems start stop (by simp [hitem])) hp hstep
    obtain ⟨hgrows', hq⟩ := ih (hreached.tail (.item hstep))
      (fun start stop hmem => hitems start stop (by simp [hmem])) hp₁ h
    exact ⟨hgrows.trans hgrows', hq⟩

/-- The expansion of a unit carries a property, if the copybooks below it do. -/
lemma carriesAt_of_below (hP : Carried files r P) {levels : Nat}
    (hbelow : ∀ inner, levels = inner + 1 → CarriesAt files r P inner) :
    CarriesAt files r P levels := by
  intro stack text unit w w' out hread h
  obtain ⟨copies, h⟩ := expandUnit_returns h
  obtain ⟨p, hfold, hresult⟩ := expandDocument_returns h
  obtain ⟨hgrows, hp⟩ := foldlM_carries hP (s := .enter r levels stack text unit w) hbelow .refl
    rfl rfl hread (SourceUnit.standsIn_written hread).1 (fun _ _ => id)
    Progress.carries_initial hfold
  simp only [Prod.mk.injEq] at hresult
  rw [hresult.1]
  exact ⟨hgrows, hp.finish (hP.hereditary _ _)⟩

/-- However deeply copybooks are nested, the expansion of a unit carries what its units have. -/
theorem expandUnit_carries (hP : Carried files r P) (levels : Nat) :
    CarriesAt files r P levels := by
  induction levels with
  | zero => exact carriesAt_of_below hP fun inner hinner => by omega
  | succ levels ih => exact carriesAt_of_below hP fun inner hinner => Nat.succ.inj hinner ▸ ih

end Carried

end Expansion

end CobolText
