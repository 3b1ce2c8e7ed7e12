import CobolText.Proofs.EntryUnits
import CobolText.Proofs.UncutMarks

/-!
# Text without a position

What comes out of a run without a position was made up: it is a space, a line feed, or part of a
whole mark that stands in front of a line of some unit.  All else has a position, and so has what
rules write, since rules only ever match from a character with a position on.

The proof follows a run through its stages.  The text that waits is composed at every stage: what is
kept of a unit is cut outside of marks, a copybook is put in whole or up to its last line feed, and
rules keep marks whole.
-/

namespace CobolText

/-- Whether an edit starts at a character with a position, and all that it writes has one. -/
structure Edit.Mapped (t : TracedText) (e : Edit) : Prop where
  start : ∃ position, t.map.positionAt? e.start = some position
  written : ∀ x ∈ (Fragment.replacement e.rule.replacement (t.map.extentAt? e.start)
    (t.map.positionAt? e.start)).trace, x.2.isSome = true

/-- Exactly the characters with an origin have a position. -/
lemma OriginMap.isSome_positionAt? (m : OriginMap) (offset : Int) :
    (m.positionAt? offset).isSome = (m.originAt? offset).isSome := by
  rw [positionAt?, originAt?, Option.isSome_map, Option.isSome_map]

namespace Composed

variable {α : Type} {M : List Char → List (Option α) → Prop} {as : List (Option α)}
  {t : TracedText}

/-- In a composed text, all edits start at characters with a position. -/
lemma mapped (h : Composed M as t.trace) (ht : t.WellFormed) {rules : List ReplacementRule}
    (hrules : ∀ rule ∈ rules, rule.Made) : ∀ e ∈ t.edits rules, e.Mapped t := by
  intro e he
  have horigin := ((TracedText.leftmost_edits ht rules).isFirst e he).isSome_originAt? hrules h
  constructor
  · rw [← Option.isSome_iff_exists, OriginMap.isSome_positionAt?]
    exact horigin
  · intro x hx
    rw [Fragment.trace_replacement] at hx
    obtain ⟨c, -, rfl⟩ := List.mem_map.mp hx
    rw [Option.isSome_map]
    exact horigin

/-- A composed copybook is composed where it is put in for a directive. -/
lemma spliced (h : Composed M as t.trace) (ht : t.WellFormed) (text : List Char) (stop : Nat)
    (name : String) :
    Composed M (Expansion.splicedSources text stop name t as)
      ((Expansion.splice text stop name t).flatMap Fragment.trace) := by
  obtain ⟨last, made, hsplice, hends, hmade⟩ := Expansion.splice_eq text stop name t
  have hlast : last ≤ t.text.length := by omega
  have htext := t.text_cut 0 hlast [name]
  have htrace := t.trace_cut ht.nonempty 0 hlast [name]
  rw [Nat.cast_zero, List.drop_zero] at htext htrace
  have houtside : ¬InsideMark t.trace last := by
    intro hinside
    obtain ⟨-, d, -, hat, -, -, hne⟩ := hinside.neighbours
    rcases hends with hall | ⟨-, hnewline⟩
    · have hlt := (List.getElem?_eq_some_iff.mp hat).1
      rw [TracedText.length_trace] at hlt
      omega
    · rw [← t.map_fst_trace, List.getElem?_map, hat] at hnewline
      exact hne (Option.some.inj hnewline)
  rw [Expansion.splicedSources, hsplice]
  dsimp only
  rw [List.flatMap_cons, htrace, htext, List.length_take, Nat.min_eq_left hlast]
  apply ((h.take houtside).within [name]).append
  have hline : ∀ line : List Char, (Fragment.synthetic line).trace = line.map fun c => (c, none) :=
    Fragment.trace_synthetic
  apply of_plain
  · simp [List.flatMap_map, List.length_flatMap, Fragment.synthetic, Function.comp_def]
  · intro x hx
    simp only [List.flatMap_map, hline, List.mem_flatMap, List.mem_map] at hx
    obtain ⟨line, hmem, c, hc, rfl⟩ := hx
    exact .inr (hmade line hmem c hc)

end Composed

namespace Expansion.Stage

variable {σ : Type} {files : FileAccess (StateM σ)} {r : RunRules}

/-- The text of a stage that waits for the rules in force. -/
abbrev waiting (s : Stage σ) : TracedText :=
  TracedText.assemble s.progress.pending.reverse

/-- Whether sources are the characters of a mark in front of a line of a unit that is entered. -/
def MarkFrom (files : FileAccess (StateM σ)) (r : RunRules) (s : Stage σ) (mark : List Char)
    (sources : List (Option (Source σ))) : Prop :=
  ∃ b inner offset, s.Enters files r b inner ∧ b.unit.MarkAt r.toLineRules mark offset ∧
    sources = (List.range' offset mark.length).map fun i => some ⟨b, i⟩

/-- Whether all edits that are made at a stage start at characters with a position: those of the
rules in force, and those that a `COPY` directive makes in its copybook. -/
structure RulesMapped (files : FileAccess (StateM σ)) (r : RunRules) (s : Stage σ) : Prop where
  waiting : ∀ e ∈ s.waiting.edits s.progress.levels.flatten, e.Mapped s.waiting
  included : ∀ {keyword clause stop items b path out},
    s.items = .copy keyword clause stop :: items → Next files r s b →
    b.stack = s.grown clause path → b.Completes files r out →
    ∀ e ∈ out.edits clause.rules, e.Mapped out

lemma composed_ownSources {s : Stage σ} (hentered : s.Entered r) (hread : s.IsRead r) :
    Composed (s.MarkFrom files r) s.ownSources s.unit.written.trace := by
  apply SourceUnit.composed_written hread
  intro mark offset hat
  exact ⟨s, [], offset, ⟨.refl, hentered, hread, (List.append_nil _).symm⟩, hat, rfl⟩

/-- The marks of a copybook are marks of a unit that is entered for the unit around it. -/
lemma MarkFrom.included {s b : Stage σ} {frames : List Inclusion} (hreached : s.Reaches files r b)
    (hstack : b.stack = s.stack ++ frames) {mark : List Char} {sources : List (Option (Source σ))}
    (h : b.MarkFrom files r mark sources) : s.MarkFrom files r mark sources := by
  obtain ⟨c, inner, offset, henters, hat, hsources⟩ := h
  refine ⟨c, frames ++ inner, offset, ⟨hreached.trans henters.reached, henters.entered,
    henters.isRead, ?_⟩, hat, hsources⟩
  rw [henters.stack_eq, hstack, List.append_assoc]

lemma CarriesOut.returns {s s' : Stage σ} {item : Item} (h : s.CarriesOut files r item s') :
    Returns (carryOut files r (below files r s.levels) s.stack s.unit.written s.progress item)
      s.world s'.progress s'.world ∧ s'.unit = s.unit ∧ s'.levels = s.levels := by
  obtain ⟨next, items_eq, stack_eq⟩ := h
  cases next with
  | book found same fresh loaded read => exact absurd stack_eq (by simp [enter])
  | item carried =>
    obtain ⟨rfl, -⟩ := List.cons.inj items_eq
    exact ⟨carried, rfl, rfl⟩

/-- A unit comes out well-formed. -/
lemma Completes.wellFormed {s : Stage σ} {out : TracedText} (h : s.Completes files r out)
    (hs : s.Sound r) : out.WellFormed := by
  obtain ⟨q, w, hfold, rfl⟩ := h
  have hlast := hs.reaches (foldlM_reaches hfold s.text)
  exact (hlast.carries.finish ⟨fun _ => trivial, fun _ _ => trivial⟩).1

lemma CarriesOut.completes {s s' : Stage σ} {item : Item} (h : s.CarriesOut files r item s')
    {out : TracedText} (hout : s.Completes files r out) : s'.Completes files r out := by
  obtain ⟨hreturns, hunit, hlevels⟩ := h.returns
  obtain ⟨q, w, hfold, hq⟩ := hout
  rw [h.items_eq] at hfold
  obtain ⟨p, w₁, hstep, hrest⟩ := Returns.bind_iff.mp hfold
  obtain ⟨rfl, rfl⟩ := hstep.unique hreturns
  refine ⟨q, w, ?_, hq⟩
  rw [hunit, hlevels, h.stack_eq]
  exact hrest

/-- From a stage a run goes on by carrying out the next item, or into the copybook of a `COPY`
directive. -/
lemma CarriesOut.next_cases {s s' b : Stage σ} {item : Item} (h : s.CarriesOut files r item s')
    (hnext : Next files r s b) :
    b = s' ∨ ∃ keyword clause stop path, item = .copy keyword clause stop ∧
      b.stack = s.grown clause path := by
  obtain ⟨next, items_eq, stack_eq⟩ := h
  cases hnext with
  | item carried =>
    left
    cases next with
    | book found same fresh loaded read => exact absurd stack_eq (by simp [enter])
    | item carried' =>
      obtain ⟨rfl, rfl⟩ := carried.unique carried'
      rfl
  | book found same fresh loaded read =>
    right
    exact ⟨_, _, _, _, (List.cons.inj items_eq).1.symm, rfl⟩

/-- Whether the text that waits at stage `s` of a unit, entered at stage `unit`, is composed, and
the rules in force look for words. -/
structure Composes (files : FileAccess (StateM σ)) (r : RunRules) (unit s : Stage σ)
    (xs : List (Option (Source σ))) : Prop where
  entered : unit.Entered r
  isRead : unit.IsRead r
  reached : unit.Reaches files r s
  unit_eq : s.unit = unit.unit
  stack_eq : s.stack = unit.stack
  sound : s.Sound r
  items : s.items ⊆ s.allItems r
  rules : ∀ rule ∈ s.progress.levels.flatten, rule.Made
  waiting : Composed (unit.MarkFrom files r) xs s.waiting.trace

namespace Composes

variable {unit s s' b : Stage σ} {xs : List (Option (Source σ))}

lemma entry {levels : Nat} {stack : List Inclusion} {text : List Char} {source : SourceUnit}
    {w : World σ} (h : SourceUnit.read r.toLineRules source.name text = .ok source) :
    Composes files r (enter r levels stack text source w) (enter r levels stack text source w) []
    where
  entered := rfl
  isRead := h
  reached := .refl
  unit_eq := rfl
  stack_eq := rfl
  sound := sound_enter h
  items _ := id
  rules := by simp [enter, Progress.initial]
  waiting := .nil

/-- A copybook that is entered starts with nothing that waits. -/
lemma book {clause : CopyClause} {path : Path} (hnext : Next files r s b)
    (hstack : b.stack = s.grown clause path) :
    Composes files r b b [] ∧ b.progress.finished = [] := by
  cases hnext with
  | item carried => exact absurd hstack (by simp [grown])
  | book found same fresh loaded read => exact ⟨entry (SourceUnit.read_name read), rfl⟩

/-- The rules that are in force put the text that waits out as a composed text. -/
lemma flushed (h : Composes files r unit s xs) :
    Composed (unit.MarkFrom files r) (s.flushedSources xs)
      (s.waiting.replace s.progress.levels.flatten).trace :=
  h.waiting.replace h.sound.carries.waiting.1 h.rules

lemma mapped (h : Composes files r unit s xs) :
    ∀ e ∈ s.waiting.edits s.progress.levels.flatten, e.Mapped s.waiting :=
  h.waiting.mapped h.sound.carries.waiting.1 h.rules

/-- What is left to show when an item is carried out. -/
lemma step (h : Composes files r unit s xs) {item : Item} (hc : s.CarriesOut files r item s')
    (hrules : ∀ rule ∈ s'.progress.levels.flatten, rule.Made) {ys : List (Option (Source σ))}
    (hwaiting : Composed (unit.MarkFrom files r) ys s'.waiting.trace) :
    Composes files r unit s' ys where
  entered := h.entered
  isRead := h.isRead
  reached := h.reached.tail hc.next
  unit_eq := hc.returns.2.1.trans h.unit_eq
  stack_eq := hc.stack_eq.trans h.stack_eq
  sound := h.sound.next hc.next
  items := Reaches.items_subset (.single hc.next) h.items
  rules := hrules
  waiting := hwaiting

lemma item_mem (h : Composes files r unit s xs) {item : Item}
    (hc : s.CarriesOut files r item s') : item ∈ s.allItems r := by
  apply h.items
  rw [hc.items_eq]
  exact List.mem_cons_self

lemma kept (h : Composes files r unit s xs) {start stop : Nat}
    (hc : s.CarriesOut files r (.kept start stop) s') :
    Composes files r unit s' (xs ++ (unit.ownSources.take stop).drop start) ∧
      s'.progress.finished = s.progress.finished := by
  obtain ⟨hprogress, -⟩ := Returns.pure_iff.mp hc.returns.1
  have hmem := h.item_mem hc
  have hstop := Item.kept_stop_le hmem
  obtain ⟨hfirst, hlast⟩ := SourceUnit.not_insideMark_of_kept h.sound.isRead hmem
  have hproper := s.unit.written.proper_cut start hstop []
  have hown : Composed (unit.MarkFrom files r) unit.ownSources unit.unit.written.trace :=
    composed_ownSources h.entered h.isRead
  rw [← h.unit_eq] at hown
  constructor
  · apply h.step hc
    · rw [hprogress]
      exact h.rules
    · rw [Stage.waiting, hprogress,
        h.sound.carries.proper.trace_push (List.forall_mem_singleton.mpr hproper),
        List.flatMap_singleton, s.unit.written.trace_cut h.sound.written.nonempty start hstop,
        TracedChar.within_nil, List.map_id]
      exact h.waiting.append (hown.slice hfirst hlast)
  · rw [hprogress]
    rfl

lemma change (h : Composes files r unit s xs) {effect : RuleChange}
    (hc : s.CarriesOut files r (.change effect) s') :
    Composes files r unit s' [] ∧ s'.progress.finished =
      s.progress.finished ++ (s.waiting.replace s.progress.levels.flatten).trace := by
  obtain ⟨hprogress, -⟩ := Returns.pure_iff.mp hc.returns.1
  obtain ⟨-, hlevels, hfinished, hassemble⟩ := h.sound.carries.proper.flush
  constructor
  · apply h.step hc
    · intro rule hrule
      rw [hprogress] at hrule
      rcases RuleChange.mem_apply hrule with hold | hnew
      · rw [hlevels] at hold
        exact h.rules rule hold
      · exact Item.made_of_mem (h.item_mem hc) rule hnew
    · have hempty := hassemble []
      rw [List.append_nil] at hempty
      rw [Stage.waiting, hprogress]
      change Composed _ [] (TracedText.assemble s.progress.flush.pending.reverse).trace
      rw [hempty]
      exact .nil
  · rw [hprogress]
    exact hfinished

/-- The copybook of a directive, as it comes out, is put into the place of the directive. -/
lemma copy_progress {keyword : Token} {clause : CopyClause} {stop : Nat} {path : Path}
    (hc : s.CarriesOut files r (.copy keyword clause stop) s') (hnext : Next files r s b)
    (hstack : b.stack = s.grown clause path) {out : TracedText} (hout : b.Completes files r out) :
    s'.progress = { s.progress.push (splice s.unit.written.text stop clause.name
      (out.replace clause.rules)) with copies := s.progress.copies + 1 } := by
  obtain ⟨book, hbook, hprogress⟩ := copy_returns_iff.mp hc.returns.1
  cases hnext with
  | item carried => exact absurd hstack (by simp [grown])
  | book found same fresh loaded read =>
    cases (List.cons.inj hc.items_eq).1
    obtain ⟨out', hexpand, rfl⟩ := returns_of_found hbook found same loaded read
    rw [hout.unique (completes_enter hexpand _)]
    exact hprogress

lemma copy (h : Composes files r unit s xs) {keyword : Token} {clause : CopyClause} {stop : Nat}
    {path : Path} (hc : s.CarriesOut files r (.copy keyword clause stop) s')
    (hnext : Next files r s b) (hstack : b.stack = s.grown clause path) {out : TracedText}
    (hout : b.Completes files r out) {zs : List (Option (Source σ))}
    (hzs : Composed (b.MarkFrom files r) zs out.trace) :
    Composes files r unit s' (xs ++ splicedSources s.unit.written.text stop clause.name
      (out.replace clause.rules) (Edit.sources zs 0 (out.edits clause.rules))) ∧
    s'.progress.finished = s.progress.finished ∧ ∀ e ∈ out.edits clause.rules, e.Mapped out := by
  have hprogress := copy_progress hc hnext hstack hout
  have hwell := hout.wellFormed (h.sound.next hnext)
  have hmade : ∀ rule ∈ clause.rules, rule.Made := Item.made_of_mem (h.item_mem hc)
  refine ⟨?_, by rw [hprogress]; rfl, hzs.mapped hwell hmade⟩
  apply h.step hc
  · rw [hprogress]
    exact h.rules
  · rw [Stage.waiting, hprogress, h.sound.carries.proper.trace_push (proper_splice _ _ _ _)]
    apply h.waiting.append
    have hbook := ((hzs.replace hwell hmade).spliced (hwell.replace _) s.unit.written.text stop
      clause.name)
    apply hbook.imp
    intro mark sources hmark
    apply hmark.included (h.reached.tail hnext)
    rw [hstack, grown, h.stack_eq]

end Composes

/-- Past an item that includes no copybook, a run makes no edits but those of later stages. -/
lemma CarriesOut.rulesMapped {s s' : Stage σ} {item : Item} (h : s.CarriesOut files r item s')
    (hplain : ∀ keyword clause stop, item ≠ .copy keyword clause stop)
    (hwaiting : ∀ e ∈ s.waiting.edits s.progress.levels.flatten, e.Mapped s.waiting)
    (hlater : ∀ b, s'.Reaches files r b → b.RulesMapped files r) :
    ∀ b, s.Reaches files r b → b.RulesMapped files r := by
  intro b hreached
  rcases hreached.cases_head with rfl | ⟨c, hnext, hrest⟩
  · refine ⟨hwaiting, fun hitems => ?_⟩
    rw [h.items_eq] at hitems
    exact absurd (List.cons.inj hitems).1 (hplain _ _ _)
  · rcases h.next_cases hnext with rfl | ⟨keyword, clause, stop, path, hitem, -⟩
    · exact hlater b hrest
    · exact absurd hitem (hplain _ _ _)

/-- Along a run, what comes out of a unit is composed, and all edits on the way start at characters
with a position. -/
theorem ReadFrom.composed {unit s : Stage σ} {xs ys : List (Option (Source σ))}
    (h : ReadFrom files r unit s xs ys) (hs : Composes files r unit s xs) {out : TracedText}
    (hout : s.Completes files r out) :
    (∃ rest, out.trace = s.progress.finished ++ rest ∧
      Composed (unit.MarkFrom files r) ys rest) ∧
    ∀ b, s.Reaches files r b → b.RulesMapped files r := by
  induction h generalizing out with
  | @done unit s xs items_eq =>
    constructor
    · obtain ⟨q, w, hfold, rfl⟩ := hout
      rw [items_eq] at hfold
      obtain ⟨rfl, -⟩ := Returns.pure_iff.mp hfold
      exact ⟨_, hs.sound.carries.proper.trace_finish, hs.flushed⟩
    · intro b hreached
      rcases hreached.cases_head with rfl | ⟨c, hnext, -⟩
      · refine ⟨hs.mapped, fun hitems => ?_⟩
        rw [items_eq] at hitems
        cases hitems
      · cases hnext <;> cases items_eq
  | kept carried rest ih =>
    obtain ⟨hs', hfinished⟩ := hs.kept carried
    obtain ⟨hcomposed, hmapped⟩ := ih hs' (carried.completes hout)
    rw [hfinished] at hcomposed
    exact ⟨hcomposed, carried.rulesMapped (by simp) hs.mapped hmapped⟩
  | change carried rest ih =>
    obtain ⟨hs', hfinished⟩ := hs.change carried
    obtain ⟨⟨last, htrace, hcomposed⟩, hmapped⟩ := ih hs' (carried.completes hout)
    rw [hfinished, List.append_assoc] at htrace
    exact ⟨⟨_, htrace, hs.flushed.append hcomposed⟩,
      carried.rulesMapped (by simp) hs.mapped hmapped⟩
  | copy carried entered stack_eq completed inner rest ihInner ih =>
    obtain ⟨hb, hnone⟩ := Composes.book entered stack_eq
    obtain ⟨⟨whole, hwhole, hbook⟩, hinner⟩ := ihInner hb completed
    rw [hnone, List.nil_append] at hwhole
    rw [← hwhole] at hbook
    obtain ⟨hs', hfinished, hedits⟩ := hs.copy carried entered stack_eq completed hbook
    obtain ⟨hcomposed, hmapped⟩ := ih hs' (carried.completes hout)
    rw [hfinished] at hcomposed
    refine ⟨hcomposed, fun c hreached => ?_⟩
    rcases hreached.cases_head with rfl | ⟨d, hnext, hlater⟩
    · refine ⟨hs.mapped, fun hitems hnext hstack hout' => ?_⟩
      cases (List.cons.inj (carried.items_eq.symm.trans hitems)).1
      obtain rfl := hnext.unique_of_grown entered hstack stack_eq
      rw [hout'.unique completed]
      exact hedits
    · rcases carried.next_cases hnext with rfl | ⟨keyword, clause, stop, path, -, hstack⟩
      · exact hmapped c hlater
      · obtain rfl := hnext.unique_of_grown entered hstack stack_eq
        exact hinner c hlater

end Expansion.Stage

namespace Session

open Expansion

variable {σ : Type}

/-- Whether an offset of the output of a run lies in a whole mark without positions, whose
characters are those of the mark of one line of a unit. -/
def InMark (files : FileAccess (StateM σ)) (r : RunRules) (entry : Stage σ) (output : TracedText)
    (sources : List (Option (Source σ))) (offset : Nat) : Prop :=
  ∃ mark ∈ commentMarks, ∃ first, first ≤ offset ∧ offset < first + mark.length ∧
    mark <+: output.text.drop first ∧
    (∀ i < mark.length, output.map.positionAt? (first + i : Nat) = none) ∧
    entry.MarkFrom files r mark ((sources.drop first).take mark.length)

/-- Whether what the output of a run holds without a position was made up, and all edits on the way
to it start at characters with a position. -/
def MadeUpOnly (files : FileAccess (StateM σ)) (s : Session) (name : String) (path : Option Path)
    (text : List Char) (fs : σ) (output : TracedText) : Prop :=
  ∃ unit sources, SourceUnit.read (s.options.runRules s.plan).toLineRules name text = .ok unit ∧
    (∀ xs, Stage.ReadFrom files (s.options.runRules s.plan) (s.entry name path text unit fs)
      (s.entry name path text unit fs) [] xs ↔ xs = sources) ∧
    sources.length = output.text.length ∧
    (∀ (offset : Nat) c, output.text[offset]? = some c → output.map.positionAt? offset = none →
      c = ' ' ∨ c = '\n' ∨ InMark files (s.options.runRules s.plan)
        (s.entry name path text unit fs) output sources offset) ∧
    ∀ stage, (s.entry name path text unit fs).Reaches files (s.options.runRules s.plan) stage →
      stage.RulesMapped files (s.options.runRules s.plan)

lemma run_madeUpOnly {files : FileAccess (StateM σ)} {s s' : Session} {name : String}
    {path : Option Path} {text : List Char} {fs fs' : σ} {outcome : Outcome}
    {result : Preprocessed} (h : (s.run files name path text).run fs = ((outcome, s'), fs'))
    (hok : outcome.result = .ok result) : s.MadeUpOnly files name path text fs result.output := by
  obtain ⟨unit, state, hunit, hreturns, -⟩ := run_ok h hok
  have hread := SourceUnit.read_name hunit
  obtain ⟨sources, hsources, hexplained⟩ := Stage.explainedAt _ _ text _ _ _ _ hread hreturns
  have hlength := hexplained.length_eq
  rw [TracedText.length_trace] at hlength
  obtain ⟨⟨rest, htrace, hcomposed⟩, hmapped⟩ :=
    hsources.composed (.entry hread) (Stage.completes_enter hreturns text)
  rw [show (Stage.enter _ _ _ text unit _).progress.finished = [] from rfl,
    List.nil_append] at htrace
  rw [← htrace] at hcomposed
  refine ⟨unit, sources, hunit, fun xs => ⟨fun hxs => hxs.unique hsources, ?_⟩, hlength, ?_,
    hmapped⟩
  · rintro rfl
    exact hsources
  · intro offset c hc hposition
    have horigin : result.output.map.originAt? offset = none := by
      rw [← Option.isNone_iff_eq_none, ← Option.not_isSome, ← OriginMap.isSome_positionAt?,
        hposition]
      rfl
    have hchar := result.output.getElem?_trace offset
    rw [hc, Option.map_some, horigin] at hchar
    rcases hcomposed.cases_at hchar with hsome | hspace | hnewline |
      ⟨mark, hmark, first, hat, hle, hlt, hfrom⟩
    · cases hsome
    · exact .inl hspace
    · exact .inr (.inl hnewline)
    · refine .inr (.inr ⟨mark, hmark, first, hle, hlt, ?_, ?_, hfrom⟩)
      · rw [← TracedText.map_fst_trace]
        exact hat.text
      · intro i hi
        have hunmapped := hat.getElem? (List.getElem?_eq_getElem hi)
        rw [TracedText.getElem?_trace] at hunmapped
        obtain ⟨d, -, hd⟩ := Option.map_eq_some_iff.mp hunmapped
        rw [← Option.isNone_iff_eq_none, ← Option.not_isSome, OriginMap.isSome_positionAt?,
          (Prod.mk.inj hd).2]
        rfl

/-- In every run that gives a result, what has no position is a space, a line feed or part of a
whole mark in front of a line, and no rule matches from a character without a position on. -/
theorem unmapped_made_up {σ : Type} (files : FileAccess (StateM σ)) (s s' : Session) (fs fs' : σ)
    (outcome : Outcome) (result : Preprocessed) (hok : outcome.result = .ok result) :
    (∀ name text, (s.processText files name text).run fs = ((outcome, s'), fs') →
      s.MadeUpOnly files name none text fs result.output) ∧
    ∀ path, (s.processFile files path).run fs = ((outcome, s'), fs') →
      ∃ text fs₁, (readText files path s.options.encoding).run fs = (.ok text, fs₁) ∧
        s.MadeUpOnly files path.render (some path) text fs₁ result.output := by
  constructor
  · intro name text h
    exact run_madeUpOnly h hok
  · intro path h
    obtain ⟨text, fs₁, hread, hrun⟩ := processFile_ok h hok
    exact ⟨text, fs₁, hread, run_madeUpOnly hrun hok⟩

/-- A rule that writes a mark, a word for it to match, and a comment entry. -/
def markRuleText : List Char :=
  ['R', 'E', 'P', 'L', 'A', 'C', 'E', ' ', '=', '=', 'X', '=', '=', ' ', 'B', 'Y', ' ',
    '=', '=', '*', '>', '=', '=', '.', '\n', 'X', '\n',
    'A', 'U', 'T', 'H', 'O', 'R', '.', ' ', 'D', '\n']

set_option maxRecDepth 20000 in
/-- The mark that the rule writes has a position, the mark of the comment entry has none. -/
theorem unmapped_made_up_markRule :
    ∃ (outcome : Outcome) (s' : Session) (result : Preprocessed),
      (freeSession.processText sampleFiles "main" markRuleText).run () = ((outcome, s'), ()) ∧
      outcome.result = .ok result ∧
      result.output.text = ['\n', '*', '>', '\n', 'A', 'U', 'T', 'H', 'O', 'R', '.', '\n',
        '*', '>', 'C', 'E', ' ', ' ', 'D', '\n'] ∧
      result.output.map.positionAt? 1 = some ⟨"main", 2, 1⟩ ∧
      result.output.map.positionAt? 12 = none ∧
      freeSession.MadeUpOnly sampleFiles "main" none markRuleText () result.output := by
  have houtput : (match ((freeSession.processText sampleFiles "main" markRuleText).run
      ()).1.1.result with
      | .ok result => some (result.output.text, result.output.map.positionAt? 1,
          result.output.map.positionAt? 12)
      | .error _ => none) =
        some (['\n', '*', '>', '\n', 'A', 'U', 'T', 'H', 'O', 'R', '.', '\n',
          '*', '>', 'C', 'E', ' ', ' ', 'D', '\n'], some ⟨"main", 2, 1⟩, none) := by
    cbv
  rcases hrun : (freeSession.processText sampleFiles "main" markRuleText).run () with
    ⟨⟨outcome, s'⟩, fs⟩
  rw [hrun] at houtput
  cases hok : outcome.result with
  | error fault => simp [hok] at houtput
  | ok result =>
    simp only [hok, Option.some.injEq, Prod.mk.injEq] at houtput
    obtain ⟨htext, hrule, hmark⟩ := houtput
    exact ⟨outcome, s', result, rfl, hok, htext, hrule, hmark,
      (unmapped_made_up sampleFiles freeSession s' () fs outcome result hok).1 "main" markRuleText
        hrun⟩

end Session

end CobolText
