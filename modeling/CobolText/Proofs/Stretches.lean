import CobolText.Proofs.DocumentScan
import CobolText.Proofs.LeftmostReplacement
import CobolText.Proofs.Runs

/-!
# Documents stretch by stretch

What the expansion of a document comes to, told without its cursors and its waiting text: the
document is divided into stretches by its `REPLACE` directives, each stretch is its own text with
the expansions of copybooks in the place of the `COPY` directives, and the rules in force there
are applied to it.  The rules depend on the `REPLACE` directives of the document alone, whatever
its copybooks hold.
-/

namespace CobolText

namespace Passage

/-- The change that a passage makes to the levels of rules. -/
def effect? : Passage → Option RuleChange
  | change _ effect _ => some effect
  | _ => none

/-- The rules in force in the stretches of a document, oldest level first: before its first
`REPLACE` directive, and behind each of them. -/
def rulesInForce (levels : List (List ReplacementRule)) (ps : List Passage) :
    List (List ReplacementRule) :=
  ((ps.filterMap effect?).scanl RuleChange.apply levels).map List.flatten

lemma rulesInForce_cons {levels : List (List ReplacementRule)} {p : Passage} (h : p.effect? = none)
    (ps : List Passage) : rulesInForce levels (p :: ps) = rulesInForce levels ps := by
  rw [rulesInForce, List.filterMap_cons_none h, rulesInForce]

lemma rulesInForce_change (levels : List (List ReplacementRule)) (keyword : Token)
    (effect : RuleChange) (stop : Nat) (ps : List Passage) :
    rulesInForce levels (change keyword effect stop :: ps) =
      levels.flatten :: rulesInForce (effect.apply levels) ps := by
  have heffects : (change keyword effect stop :: ps).filterMap effect? =
      effect :: ps.filterMap effect? := rfl
  rw [rulesInForce, heffects, List.scanl_cons]
  rfl

/-- How the rules in force follow from the `REPLACE` directives, and from nothing else in a
document. -/
structure LevelTable (inForce : List (List ReplacementRule) → List Passage →
    List (List ReplacementRule)) : Prop where
  done : ∀ levels, inForce levels [] = [levels.flatten]
  other : ∀ levels p ps, p.effect? = none → inForce levels (p :: ps) = inForce levels ps
  /-- A directive without a word for another effect has the only rules from then on. -/
  only : ∀ levels keyword rules stop ps,
    inForce levels (change keyword (.only rules) stop :: ps) = levels.flatten :: inForce [rules] ps
  also : ∀ levels keyword rules stop ps,
    inForce levels (change keyword (.also rules) stop :: ps) =
      levels.flatten :: inForce (levels ++ [rules]) ps
  /-- The last level is gone, if there is one. -/
  dropLast : ∀ levels keyword stop ps,
    inForce levels (change keyword .dropLast stop :: ps) =
      levels.flatten :: inForce levels.dropLast ps
  off : ∀ levels keyword stop ps,
    inForce levels (change keyword .off stop :: ps) = levels.flatten :: inForce [] ps

lemma levelTable_rulesInForce : LevelTable rulesInForce where
  done _ := rfl
  other _ _ ps h := rulesInForce_cons h ps
  only levels keyword rules stop ps := rulesInForce_change levels keyword (.only rules) stop ps
  also levels keyword rules stop ps := rulesInForce_change levels keyword (.also rules) stop ps
  dropLast levels keyword stop ps := rulesInForce_change levels keyword .dropLast stop ps
  off levels keyword stop ps := rulesInForce_change levels keyword .off stop ps

lemma Tile.stop_le {first last : Nat} {ps : List Passage} (h : Tile first ps last) {p : Passage}
    (hp : p ∈ ps) : p.stop ≤ last := by
  have hle : ∀ {first : Nat} {qs : List Passage}, Tile first qs last → first ≤ last := by
    intro first qs hq
    induction qs generalizing first with
    | nil => exact Nat.le_of_eq hq
    | cons q qs ih =>
      have := ih hq.2.2
      have := hq.1
      have := hq.2.1
      omega
  induction ps generalizing first with
  | nil => simp at hp
  | cons q qs ih =>
    rcases List.mem_cons.mp hp with rfl | hp
    · exact hle h.2.2
    · exact ih h.2.2 hp

end Passage

namespace Fragment

lemma empty_append (f : Fragment) : empty.append f = f := by
  simp [empty, append]

/-- Proper fragments without text add nothing. -/
lemma join_append_of_isEmpty {es fs : List Fragment} (hproper : ∀ f ∈ es, f.Proper)
    (hempty : es.flatMap (·.text) = []) : join (es ++ fs) = join fs := by
  induction es with
  | nil => rfl
  | cons e es ih =>
    rw [List.flatMap_cons, List.append_eq_nil_iff] at hempty
    have hextents : e.extents = [] := by
      rw [List.eq_nil_iff_forall_not_mem]
      intro x hx
      have := (hproper e (by simp)).bounds x hx
      simp only [hempty.1, List.length_nil] at this
      omega
    have he : e = empty := by
      rw [empty, ← hempty.1, ← hextents]
    rw [List.cons_append, join_cons, ih (fun f hf => hproper f (by simp [hf])) hempty.2, he,
      empty_append]

end Fragment

namespace TracedText

lemma trace_replace_of_isEmpty {t : TracedText} (ht : t.text = []) (rules : List ReplacementRule) :
    (t.replace rules).trace = [] := by
  have hedits : t.edits rules = [] := by
    rw [edits, ht, Edit.scan]
  rw [← List.length_eq_zero_iff, length_trace]
  unfold replace
  split
  · simp [ht]
  · simp [hedits, Edit.fragmentsFrom, ht, cut, Fragment.empty]

end TracedText

/-- The characters that rules make of fragments laid end to end. -/
def rendered (fs : List Fragment) (rules : List ReplacementRule) : List TracedChar :=
  ((TracedText.assemble fs).replace rules).trace

namespace Progress

/-- Fragments in the output and waiting that have proper extents. -/
structure Proper (p : Progress) : Prop where
  output : ∀ f ∈ p.output, f.Proper
  pending : ∀ f ∈ p.pending, f.Proper

/-- The characters in the output so far. -/
def finished (p : Progress) : List TracedChar :=
  p.output.reverse.flatMap Fragment.trace

lemma Proper.push {p : Progress} (hp : p.Proper) {fs : List Fragment}
    (hfs : ∀ f ∈ fs, f.Proper) : (p.push fs).Proper := by
  refine ⟨hp.output, fun f hf => ?_⟩
  rcases List.mem_append.mp hf with hf | hf
  · exact hfs f (List.mem_reverse.mp hf)
  · exact hp.pending f hf

lemma pending_push (p : Progress) (fs : List Fragment) :
    (p.push fs).pending.reverse = p.pending.reverse ++ fs := by
  simp [push]

/-- What waits goes through the rules in force into the output, and nothing waits behind. -/
lemma Proper.flush {p : Progress} (hp : p.Proper) :
    p.flush.Proper ∧ p.flush.levels = p.levels ∧
      p.flush.finished = p.finished ++ rendered p.pending.reverse p.levels.flatten ∧
      ∀ fs, TracedText.assemble (p.flush.pending.reverse ++ fs) = TracedText.assemble fs := by
  have hpending : ∀ f ∈ p.pending.reverse, f.Proper :=
    fun f hf => hp.pending f (List.mem_reverse.mp hf)
  unfold Progress.flush
  simp only
  split
  · rename_i hempty
    have htext : p.pending.reverse.flatMap (·.text) = [] := by simpa using hempty
    refine ⟨hp, rfl, ?_, fun fs => ?_⟩
    · rw [rendered, TracedText.trace_replace_of_isEmpty htext, List.append_nil]
    · rw [TracedText.assemble, TracedText.assemble, Fragment.join_append_of_isEmpty hpending htext]
  · have hreplaced := (TracedText.proper_assemble hpending).replace p.levels.flatten
    refine ⟨⟨?_, by simp⟩, rfl, ?_, fun fs => rfl⟩
    · intro f hf
      rcases List.mem_cons.mp hf with rfl | hf
      · exact TracedText.proper_whole _ _
      · exact hp.output f hf
    · rw [finished, List.reverse_cons, List.flatMap_append, List.flatMap_singleton,
        TracedText.trace_whole _ fun e he => (hreplaced e he).2.1]
      rfl

lemma Proper.trace_finish {p : Progress} (hp : p.Proper) :
    p.finish.trace = p.finished ++ rendered p.pending.reverse p.levels.flatten := by
  obtain ⟨hflush, -, hfinished, -⟩ := hp.flush
  rw [finish, TracedText.trace_assemble fun f hf => hflush.output f (List.mem_reverse.mp hf),
    ← hfinished]
  rfl

end Progress

namespace Expansion

variable {σ : Type}

/-- The stretches of a document from some passages on: the text that is kept, with the expansion of
every copybook in its place, divided at the `REPLACE` directives.  A statement that is left out
leaves nothing. -/
inductive Stretches (files : FileAccess (StateM σ)) (r : RunRules)
    (expand : Option (Expander (StateM σ))) (stack : List Inclusion) (t : TracedText) :
    World σ → List Passage → List (List Fragment) → World σ → Prop
  | done {w : World σ} : Stretches files r expand stack t w [] [[]] w
  | kept {start stop : Nat} {w w' : World σ} {ps : List Passage} {fs : List Fragment}
      {ss : List (List Fragment)}
      (rest : Stretches files r expand stack t w ps (fs :: ss) w') :
      Stretches files r expand stack t w (.kept start stop :: ps)
        ((t.cut start stop [] :: fs) :: ss) w'
  | removed {stop : Nat} {keyword : Token} {w w' : World σ} {ps : List Passage}
      {ss : List (List Fragment)}
      (rest : Stretches files r expand stack t w ps ss w') :
      Stretches files r expand stack t w (.removed keyword stop :: ps) ss w'
  | copy {stop : Nat} {keyword : Token} {clause : CopyClause} {w w₁ w' : World σ}
      {book : TracedText} {ps : List Passage} {fs : List Fragment} {ss : List (List Fragment)}
      (included : Returns (includeBook files r expand stack clause
        (directivePosition? t keyword)) w book w₁)
      (rest : Stretches files r expand stack t w₁ ps (fs :: ss) w') :
      Stretches files r expand stack t w (.copy keyword clause stop :: ps)
        ((splice t.text stop clause.name book ++ fs) :: ss) w'
  | change {stop : Nat} {keyword : Token} {effect : RuleChange} {w w' : World σ}
      {ps : List Passage} {ss : List (List Fragment)}
      (rest : Stretches files r expand stack t w ps ss w') :
      Stretches files r expand stack t w (.change keyword effect stop :: ps) ([] :: ss) w'

/-- What holds of the beginning of a copybook and of what is made up holds of all that is put into
the place of a directive. -/
lemma forall_splice {text : List Char} {stop : Nat} {name : String} {book : TracedText}
    {P : Fragment → Prop}
    (hcut : ∀ last : Nat, last ≤ book.text.length → P (book.cut 0 last [name]))
    (hsynthetic : ∀ made, P (Fragment.synthetic made)) : ∀ f ∈ splice text stop name book, P f := by
  unfold splice
  simp only
  split
  · intro f hf
    rw [List.mem_singleton.mp hf]
    apply hcut
    split <;> omega
  · intro f hf
    simp only [List.mem_cons, List.not_mem_nil, or_false] at hf
    rcases hf with rfl | rfl | rfl
    · exact hcut _ (Nat.le_refl _)
    · exact hsynthetic _
    · exact hsynthetic _

lemma proper_splice (text : List Char) (stop : Nat) (name : String) (book : TracedText) :
    ∀ f ∈ splice text stop name book, f.Proper :=
  forall_splice (fun _ h => book.proper_cut 0 h [name]) Fragment.proper_synthetic

section Document

variable {files : FileAccess (StateM σ)} {r : RunRules} {expand : Option (Expander (StateM σ))}
  {stack : List Inclusion} {t : TracedText} {w w' : World σ}

/-- Passages that are all carried out are stretches, and the finished text shows them. -/
lemma stretches_of_returns {ps : List Passage} {p q : Progress} (hp : p.Proper)
    (hstop : ∀ start stop, .kept start stop ∈ ps → stop ≤ t.text.length)
    (h : Returns ((ps.filterMap Passage.item?).foldlM (carryOut files r expand stack t) p) w q w') :
    ∃ first rest, Stretches files r expand stack t w ps (first :: rest) w' ∧
      q.finish.trace = p.finished ++ (List.zipWith rendered ((p.pending.reverse ++ first) :: rest)
        (Passage.rulesInForce p.levels ps)).flatten := by
  induction ps generalizing p w with
  | nil =>
    obtain ⟨rfl, rfl⟩ := Returns.pure_iff.mp h
    refine ⟨[], [], .done, ?_⟩
    rw [hp.trace_finish]
    simp [Passage.rulesInForce]
  | cons passage ps ih =>
    have hrest : ∀ start stop, .kept start stop ∈ ps → stop ≤ t.text.length :=
      fun start stop hmem => hstop start stop (List.mem_cons_of_mem _ hmem)
    cases passage with
    | kept start stop =>
      obtain ⟨p₁, w₁, hstep, h⟩ := Returns.bind_iff.mp h
      obtain ⟨rfl, rfl⟩ := Returns.pure_iff.mp hstep
      have hcut : ∀ f ∈ [t.cut start stop []], f.Proper := by
        intro f hf
        rw [List.mem_singleton.mp hf]
        exact t.proper_cut start (hstop start stop (by simp)) []
      obtain ⟨first, rest, hstretches, htrace⟩ := ih (hp.push hcut) hrest h
      refine ⟨t.cut start stop [] :: first, rest, .kept hstretches, ?_⟩
      rw [htrace, Passage.rulesInForce_cons rfl, Progress.pending_push, List.append_assoc]
      rfl
    | removed keyword stop =>
      obtain ⟨first, rest, hstretches, htrace⟩ := ih hp hrest h
      exact ⟨first, rest, .removed hstretches, htrace⟩
    | copy keyword clause stop =>
      obtain ⟨p₁, w₁, hstep, h⟩ := Returns.bind_iff.mp h
      obtain ⟨book, hbook, rfl⟩ := copy_returns_iff.mp hstep
      have hpush := hp.push (proper_splice t.text stop clause.name book)
      obtain ⟨first, rest, hstretches, htrace⟩ := ih (w := w₁)
        (p := { p.push (splice t.text stop clause.name book) with copies := p.copies + 1 })
        ⟨hpush.output, hpush.pending⟩ hrest h
      refine ⟨splice t.text stop clause.name book ++ first, rest, .copy hbook hstretches, ?_⟩
      change q.finish.trace = p.finished ++ (List.zipWith rendered
        (((p.push (splice t.text stop clause.name book)).pending.reverse ++ first) :: rest)
        (Passage.rulesInForce p.levels ps)).flatten at htrace
      rw [htrace, Passage.rulesInForce_cons rfl, Progress.pending_push, List.append_assoc]
    | change keyword effect stop =>
      obtain ⟨p₁, w₁, hstep, h⟩ := Returns.bind_iff.mp h
      obtain ⟨rfl, rfl⟩ := Returns.pure_iff.mp hstep
      obtain ⟨hflush, hlevels, hfinished, hassemble⟩ := hp.flush
      obtain ⟨first, rest, hstretches, htrace⟩ := ih (p := p.change effect)
        ⟨hflush.output, hflush.pending⟩ hrest h
      refine ⟨[], first :: rest, ?_, ?_⟩
      · exact .change hstretches
      · rw [htrace, Passage.rulesInForce_change, List.append_nil, List.zipWith_cons_cons,
          List.flatten_cons, ← List.append_assoc, ← hfinished]
        have hhead : ∀ rules, rendered ((p.change effect).pending.reverse ++ first) rules =
            rendered first rules := by
          intro rules
          rw [rendered, rendered, show (p.change effect).pending = p.flush.pending from rfl,
            hassemble]
        rw [show (p.change effect).levels = effect.apply p.flush.levels from rfl, hlevels]
        cases Passage.rulesInForce (effect.apply p.levels) ps with
        | nil => rfl
        | cons rules later =>
          rw [List.zipWith_cons_cons, List.zipWith_cons_cons, hhead]
          rfl
    | malformed keyword defect =>
      obtain ⟨p₁, w₁, hstep, h⟩ := Returns.bind_iff.mp h
      exact absurd hstep Returns.not_throw

lemma not_malformed_of_returns {items : List Item} {p q : Progress}
    (h : Returns (items.foldlM (carryOut files r expand stack t) p) w q w') (keyword : Token)
    (defect : Defect) : .malformed keyword defect ∉ items := by
  induction items generalizing p w with
  | nil => simp
  | cons item items ih =>
    obtain ⟨p₁, w₁, hstep, h⟩ := Returns.bind_iff.mp h
    intro hmem
    rcases List.mem_cons.mp hmem with rfl | hmem
    · exact absurd hstep Returns.not_throw
    · exact ih h hmem

/-- The passages of a document that is carried out lie end to end. -/
lemma tile_of_returns {options : Bool} {p q : Progress}
    (h : Returns ((Item.ofText r.dialect options t.text).foldlM (carryOut files r expand stack t) p)
      w q w') :
    Passage.Tile 0 (Passage.ofText r.dialect options t.text) t.text.length := by
  apply Passage.tile_ofSteps (Item.reads_stepsFrom r.dialect t.text options (Nat.zero_le _))
    (Nat.le_refl _)
  intro keyword defect hmem
  rw [Passage.items_eq] at h
  exact not_malformed_of_returns h keyword defect (List.mem_filterMap.mpr ⟨_, hmem, rfl⟩)

/-- There is one stretch before the first `REPLACE` directive and one behind each. -/
lemma Stretches.length_eq {ps : List Passage} {ss : List (List Fragment)}
    (h : Stretches files r expand stack t w ps ss w') (levels : List (List ReplacementRule)) :
    ss.length = (Passage.rulesInForce levels ps).length := by
  induction h generalizing levels with
  | done => simp [Passage.rulesInForce]
  | kept rest ih =>
    rw [Passage.rulesInForce_cons rfl, ← ih levels]
    rfl
  | removed rest ih =>
    rw [Passage.rulesInForce_cons rfl, ← ih levels]
  | copy included rest ih =>
    rw [Passage.rulesInForce_cons rfl, ← ih levels]
    rfl
  | change rest ih =>
    rw [Passage.rulesInForce_change, List.length_cons, List.length_cons, ih]

end Document

/-- The passages of a document.  Compiler options may only stand in the main source. -/
def passages (r : RunRules) (stack : List Inclusion) (t : TracedText) : List Passage :=
  Passage.ofText r.dialect (stack.length ≤ 1) t.text

/-- The expansion of a document against its reference: the passages of the document lie end to
end, and what comes out is, stretch by stretch, the text of the passages with the copybooks in it
under the rules that the `REPLACE` directives before the stretch leave in force.  What is kept is
kept as it is, and holds no directive and nothing that is left out. -/
theorem expandDocument_stretches {σ : Type} (files : FileAccess (StateM σ)) (r : RunRules)
    (expand : Option (Expander (StateM σ))) (stack : List Inclusion) (t : TracedText)
    (w w' : World σ) (out : TracedText) (copies : Nat)
    (h : Returns (expandDocument files r expand stack t) w (out, copies) w') :
    ∃ ss, Stretches files r expand stack t w (passages r stack t) ss w' ∧
      out.trace =
        (List.zipWith rendered ss (Passage.rulesInForce [] (passages r stack t))).flatten ∧
      Passage.LevelTable Passage.rulesInForce ∧
      ss.length = (Passage.rulesInForce [] (passages r stack t)).length ∧
      Passage.Tile 0 (passages r stack t) t.text.length ∧
      (∀ p ∈ passages r stack t, p.ReadAs r.dialect t.text) ∧
      ∀ start stop : Nat, .kept start stop ∈ passages r stack t →
        (t.cut start stop []).text = (t.text.take stop).drop start ∧
        ((∀ e ∈ t.extents, e.start < e.stop) →
          (t.cut start stop []).trace = (t.trace.take stop).drop start) ∧
        ∀ s ∈ Item.steps r.dialect (stack.length ≤ 1) t.text, start ≤ s.token.start →
          s.token.start < stop → Item.keyword? r.dialect t.text s.options s.token = none ∨
            Item.keyword? r.dialect t.text s.options s.token = some .exec := by
  obtain ⟨p, hfold, hresult⟩ := expandDocument_returns h
  have hreads := Item.reads_stepsFrom r.dialect t.text (stack.length ≤ 1) (Nat.zero_le _)
  have htile : Passage.Tile 0 (passages r stack t) t.text.length := tile_of_returns hfold
  have hstop : ∀ start stop, .kept start stop ∈ passages r stack t → stop ≤ t.text.length :=
    fun start stop hmem => htile.stop_le hmem
  rw [Passage.items_eq] at hfold
  obtain ⟨first, rest, hstretches, htrace⟩ :=
    stretches_of_returns ⟨by simp [Progress.initial], by simp [Progress.initial]⟩ hstop hfold
  simp only [Prod.mk.injEq] at hresult
  refine ⟨first :: rest, hstretches, ?_, Passage.levelTable_rulesInForce, hstretches.length_eq [],
    htile, Passage.readAs_ofSteps hreads,
    fun start stop hmem => ⟨?_, fun ht => ?_, fun s hs hfirst hlast => ?_⟩⟩
  · rw [hresult.1]
    exact htrace
  · exact t.text_cut start (hstop start stop hmem) []
  · rw [t.trace_cut ht start (hstop start stop hmem), TracedChar.within_nil, List.map_id]
  · obtain ⟨last, later, hkeep⟩ := Passage.keep_of_kept hreads hmem hs hfirst hlast
    exact Item.keyword?_of_keep ((hreads.next_of_mem s hs).2.symm.trans hkeep)

/-- Files that all hold the same text. -/
def sampleFiles : FileAccess (StateM Unit) where
  workDir := ⟨1, []⟩
  isFile _ := pure true
  read _ := pure (.ok [65, 32, 67])

/-- Standard rules of a run in free format. -/
def sampleRules : RunRules where
  format := .free
  dialect := .ansi85
  debugging := false
  plan := ⟨[Path.here], [.ending ""], true⟩
  encoding := .text "latin-1"
  depth := .number 3

/-- A rule that exchanges one letter. -/
def letterRule (letter replacement : Char) : ReplacementRule :=
  ⟨[letter], [replacement], false, ⟨[.anyCase [letter]], true⟩⟩

/-- A document of five stretches, the third with a copybook in it. -/
def sampleDocument : TracedText :=
  TracedText.assemble [Fragment.copied
    ("REPLACE A BY B. A REPLACE ALSO C BY D. A COPY X.\n" ++
      "REPLACE LAST OFF. A C REPLACE OFF. A").toList
    ⟨"main", 1, 1⟩ {}]

set_option maxRecDepth 40000 in
/-- Rules come into force behind their directive and reach into the copybook; the second level goes
before the first. -/
theorem expandDocument_stretches_sample :
    ∃ (out : TracedText) (w' : World Unit) (ss : List (List Fragment)),
      out.text = " B  B B D\n B C  A".toList ∧
      Stretches sampleFiles sampleRules (expander sampleFiles sampleRules []) [] sampleDocument
        (⟨BookCache.empty, []⟩, ()) (passages sampleRules [] sampleDocument) ss w' ∧
      ss.length = 5 ∧
      Passage.rulesInForce [] (passages sampleRules [] sampleDocument) =
        [[], [letterRule 'A' 'B'], [letterRule 'A' 'B', letterRule 'C' 'D'], [letterRule 'A' 'B'],
          []] ∧
      out.trace = (List.zipWith rendered ss
        (Passage.rulesInForce [] (passages sampleRules [] sampleDocument))).flatten := by
  have hok : (Run.outcome (expandDocument sampleFiles sampleRules
      (expander sampleFiles sampleRules []) [] sampleDocument)
      (⟨BookCache.empty, []⟩, ())).1.1.toOption.map (fun o => o.1.text) =
        some " B  B B D\n B C  A".toList := by
    cbv
  have hrules : Passage.rulesInForce [] (passages sampleRules [] sampleDocument) =
      [[], [letterRule 'A' 'B'], [letterRule 'A' 'B', letterRule 'C' 'D'], [letterRule 'A' 'B'],
        []] := by
    cbv
  rcases hrun : Run.outcome (expandDocument sampleFiles sampleRules
      (expander sampleFiles sampleRules []) [] sampleDocument) (⟨BookCache.empty, []⟩, ()) with
    ⟨⟨⟨e⟩ | ⟨out, copies⟩, s⟩, fs⟩
  · rw [hrun] at hok
    simp [Except.toOption] at hok
  · rw [hrun] at hok
    obtain ⟨ss, hss, htrace, -, hlength, -⟩ := expandDocument_stretches sampleFiles sampleRules
      (expander sampleFiles sampleRules []) [] sampleDocument (⟨BookCache.empty, []⟩, ()) (s, fs)
      out copies hrun
    rw [hrules] at hlength
    exact ⟨out, (s, fs), ss, Option.some.inj hok, hss, hlength, hrules, htrace⟩

end Expansion

end CobolText
