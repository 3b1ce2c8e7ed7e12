import CobolText.Proofs.CommentWords
import CobolText.Proofs.ReportedFaults

/-!
# The positions of faults

In front of the content of a line stand characters that come from no source: spaces, and the mark
of a comment.  A document is read past such a mark as it is read past a comment, so every keyword
that is acted on stands in a source.  Hence a fault that a directive raises has the position of the
keyword of the directive.  The only faults to be reported without one are those of a copybook that
cannot be read or decoded.
-/

namespace CobolText

section Shading

/-- Whether a character can be seen but comes from no source. -/
def TracedChar.isInserted (x : TracedChar) : Bool :=
  x.2.isNone && !Text.isBlank x.1

/-- A character as one of a comment if it is inserted, and as one of the program if not. -/
def TracedChar.shaded (x : TracedChar) : TracedChar :=
  (x.1, if x.isInserted then some ⟨⟨"", 0, 0⟩, { comment := true }⟩ else none)

lemma TracedChar.isComment_shaded (x : TracedChar) : x.shaded.isComment = x.isInserted := by
  unfold shaded
  split
  · rename_i h
    rw [h]
    rfl
  · rename_i h
    rw [Bool.not_eq_true] at h
    rw [h]
    rfl

lemma TracedChar.isInserted_of_isSome {x : TracedChar} (h : x.2.isSome = true) :
    x.isInserted = false := by
  rw [isInserted, ← Option.not_isSome, h]
  rfl

lemma map_fst_shaded (xs : List TracedChar) :
    (xs.map TracedChar.shaded).map (·.1) = xs.map (·.1) := by
  rw [List.map_map]
  rfl

lemma lineOf_shaded (xs : List TracedChar) :
    lineOf (xs.map TracedChar.shaded) = (lineOf xs).map TracedChar.shaded := by
  rw [lineOf, List.takeWhile_map]
  rfl

/-- What is inserted is guarded wherever nothing is inserted on the rest of the line. -/
lemma guarded_shaded {xs : List TracedChar} (h : ∀ x ∈ lineOf xs, x.2.isSome = true) :
    Guarded (xs.map TracedChar.shaded) := by
  rintro ⟨y, hy, hcomment⟩
  rw [lineOf_shaded] at hy
  obtain ⟨x, hx, rfl⟩ := List.mem_map.mp hy
  rw [TracedChar.isComment_shaded, TracedChar.isInserted_of_isSome (h x hx)] at hcomment
  exact absurd hcomment (by decide)

/-- Whether what is inserted into a text is guarded wherever a line starts, and nothing is inserted
behind a period. -/
structure Shaded (xs : List TracedChar) : Prop where
  guarded : Guarded (xs.map TracedChar.shaded)
  lines : GuardedLines (xs.map TracedChar.shaded)
  period : ∀ x ys, x.1 = '.' → x :: ys <:+ xs → ∀ y ∈ lineOf ys, y.2.isSome = true

lemma shaded_nil : Shaded [] where
  guarded := guarded_of_lineOf_eq_nil rfl
  lines := by
    intro x ys _ hsuffix
    simp at hsuffix
  period := by
    intro x ys _ hsuffix
    simp at hsuffix

lemma Shaded.line {front body rest : List TracedChar} (head : WrittenLine front body)
    (hbody : ∀ x ∈ body, x.2.isSome = true)
    (hmark : (∃ x ∈ front, x.isInserted = true) →
      Text.commentMark <+: Text.trimLeft ((front ++ body).map (·.1)))
    (tail : Shaded rest) : Shaded (front ++ body ++ ('\n', none) :: rest) where
  guarded := by
    rw [Guarded, lineOf_shaded, WrittenLine.lineOf_eq head.ne_newline, map_fst_shaded]
    rintro ⟨y, hy, hcomment⟩
    obtain ⟨x, hx, rfl⟩ := List.mem_map.mp hy
    rw [TracedChar.isComment_shaded] at hcomment
    rcases List.mem_append.mp hx with hx | hx
    · exact hmark ⟨x, hx, hcomment⟩
    · rw [TracedChar.isInserted_of_isSome (hbody x hx)] at hcomment
      exact absurd hcomment (by decide)
  lines := by
    rw [List.map_append, List.map_cons]
    apply guardedLines_line _ tail.guarded tail.lines
    intro y hy
    obtain ⟨x, hx, rfl⟩ := List.mem_map.mp hy
    exact head.ne_newline x hx
  period := by
    intro x ys hx hsuffix
    rcases head.mem_body_of_period hx hsuffix with hmem | hsuffix
    · exact fun y hy => hbody y (hmem y hy)
    · exact tail.period x ys hx hsuffix

end Shading

namespace LogicalLine

variable {d : Dialect} {format : SourceFormat} {file : String} {text : List Char}

/-- Only comments are marked. -/
lemma commented_of_marker {u : LogicalLine} (hu : u.ReadFrom d format file text) {debugging : Bool}
    (h : (u.mark debugging).marker ≠ []) :
    ((u.mark debugging).commented || (u.mark debugging).commentEntry) = true := by
  unfold mark at h ⊢
  split
  · rename_i hentry
    simp [hentry]
  · rename_i hentry
    rw [if_neg hentry] at h
    split
    · rfl
    · rename_i hout
      rw [if_neg hout] at h
      exact absurd hu.marker h

lemma shaded_mark {u : LogicalLine} (hu : u.ReadFrom d format file text) (debugging : Bool)
    (indent : Nat) {rest : List TracedChar} (hrest : Shaded rest) :
    Shaded (((u.mark debugging).fragments indent).flatMap Fragment.trace ++ rest) := by
  rw [trace_fragments, List.append_assoc]
  have hbody : ∀ x ∈ (u.mark debugging).body, x.2.isSome = true := by
    intro x hx
    obtain ⟨o, horigin, -⟩ := exists_origin_of_mem_body hx
    simp [horigin]
  apply Shaded.line (writtenLine_mark hu debugging indent) hbody _ hrest
  rintro ⟨x, hx, hinserted⟩
  rw [trimLeft_written]
  apply commentMark_prefix_of_mark hu debugging
  apply commented_of_marker hu
  -- A character that can be seen is none of the spaces.
  intro hnil
  rw [hnil, List.append_nil] at hx
  obtain ⟨c, hc, rfl⟩ := List.mem_map.mp hx
  rw [List.eq_of_mem_replicate hc] at hinserted
  exact absurd hinserted (by decide)

end LogicalLine

lemma SourceUnit.shaded {r : LineRules} {name : String} {text : List Char} {unit : SourceUnit}
    (h : SourceUnit.read r name text = .ok unit) : Shaded unit.written.trace := by
  obtain ⟨hwritten, hlines⟩ := SourceUnit.lines_of_read h
  rw [hwritten, LogicalLine.trace_write]
  generalize unit.lines = lines at hlines
  induction lines with
  | nil => exact shaded_nil
  | cons l lines ih =>
    obtain ⟨u, hu, rfl⟩ := hlines l (by simp)
    rw [List.flatMap_cons]
    exact LogicalLine.shaded_mark hu r.debugging _ (ih fun v hv => hlines v (by simp [hv]))

section Scan

/-- A word does not start with a blank. -/
lemma Token.not_isBlank_of_word {pos : Nat} {s rest : List Char} {t : Token}
    (h : Token.next? false pos s = some (t, rest)) (hword : t.kind = .word) :
    ∀ c ∈ s.head?, Text.isBlank c = false := by
  cases s with
  | nil => simp
  | cons c cs =>
    simp only [Token.next?, Option.some.injEq, Prod.mk.injEq] at h
    obtain ⟨rfl, -⟩ := h
    simp only [List.head?_cons, Option.mem_def, Option.some.injEq, forall_eq']
    rcases Lexer.measure_cases c cs with ⟨-, hm⟩ | ⟨-, hm⟩ | ⟨-, hblank, -⟩ | ⟨-, -, -, hkind⟩
    · simp [hm] at hword
    · simp [hm] at hword
    · exact hblank
    · exact absurd hword hkind

/-- The keyword that a fault of an item points at; text that is kept and a change of rules that can
be read raise none. -/
def Item.opening? : Item → Option Token
  | .copy keyword _ _ | .malformed keyword _ => some keyword
  | .kept _ _ | .change _ => none

/-- Whether a token is read as a directive or block that a fault points at. -/
def Item.Reading.opens : Item.Reading → Bool
  | .copy _ _ | .malformed _ => true
  | .keep _ _ | .remove _ | .change _ _ => false

/-- Whether a token of a text is the keyword of a directive or of a block of another language. -/
structure Item.Opens (d : Dialect) (text : List Char) (keyword : Token) : Prop where
  found : keyword.FoundIn text
  taken : ∃ options k, Item.keyword? d text options keyword = some k ∧
    k ∈ [Item.Keyword.exec, .copy, .replace]

variable {d : Dialect} {text : List Char} {options : Bool} {steps : List Item.Step}
  {xs : List TracedChar}

lemma Item.keyword?_of_opens {t : Token} {rest : List Char}
    (h : (Item.readToken d text options t rest).opens = true) :
    ∃ k, Item.keyword? d text options t = some k ∧ k ∈ [Item.Keyword.exec, .copy, .replace] := by
  rw [Item.readToken_eq] at h
  cases hk : Item.keyword? d text options t with
  | none => simp [hk, Item.Reading.opens] at h
  | some k =>
    refine ⟨k, rfl, ?_⟩
    cases k with
    | listing => simp [hk, Item.readStatement, Item.Reading.opens] at h
    | option => simp [hk, Item.readStatement, Item.Reading.opens] at h
    | _ => simp

/-- What is inserted stays guarded from step to step: plain tokens pass it as they pass comments,
and behind a directive there is nothing to guard. -/
lemma Shaded.step (hxs : Shaded xs) (htext : xs.map (·.1) = text) {pos stop : Nat} {t : Token}
    (h : Guarded ((xs.map TracedChar.shaded).drop pos))
    (hnext : Token.next? false pos (text.drop pos) = some (t, text.drop t.stop))
    (hstop : (Item.readToken d text options t (text.drop t.stop)).stop? = some stop) :
    Guarded ((xs.map TracedChar.shaded).drop stop) := by
  have hshaded := (map_fst_shaded xs).trans htext
  have hfound := (Token.foundIn_of_next? hnext).1
  cases hdirective : (Item.readToken d text options t (text.drop t.stop)).directiveStop? with
  | none =>
    have hpassed := (guarded_stop_of_next? hshaded hxs.lines h hnext).1
    exact guarded_stop_of_readToken hshaded hxs.lines hfound hpassed hstop hdirective
  | some last =>
    have hlast : some last = some stop :=
      (Item.Reading.stop?_of_directiveStop? hdirective).symm.trans hstop
    rw [← Option.some.inj hlast, ← List.map_drop]
    obtain ⟨x, hdot, hsuffix⟩ :=
      suffix_of_endsAt htext (Item.endsAt_of_directiveStop? hfound hdirective)
    exact guarded_shaded (hxs.period x _ hdot hsuffix)

/-- At every step what is inserted is guarded. -/
lemma Shaded.guarded_of_reads (hxs : Shaded xs) (htext : xs.map (·.1) = text)
    (h : Item.Reads d text options 0 steps) :
    ∀ s ∈ steps, Guarded ((xs.map TracedChar.shaded).drop s.token.start) := by
  apply h.holds_at_steps (P := fun pos => Guarded ((xs.map TracedChar.shaded).drop pos))
    hxs.guarded
  intro s hs hstart stop hstop
  obtain ⟨hnext, hreading⟩ := h.next_of_mem s hs
  rw [hreading] at hstop
  exact hxs.step htext hstart hnext hstop

/-- Every keyword that is acted on comes from a source. -/
lemma Shaded.isSome_of_reads (hxs : Shaded xs) (htext : xs.map (·.1) = text)
    (h : Item.Reads d text options 0 steps) :
    ∀ s ∈ steps, Item.keyword? d text s.options s.token ≠ none →
      ∀ x ∈ xs[s.token.start]?, x.2.isSome = true := by
  intro s hs hkeyword x hx
  obtain ⟨k, hk⟩ := Option.ne_none_iff_exists'.mp hkeyword
  have hword := (Item.keyword?_eq_some hk).1
  have hnext := (h.next_of_mem s hs).1
  have hshaded := (map_fst_shaded xs).trans htext
  -- The keyword is a word that is not guarded, so it starts with nothing inserted; nor is it blank.
  have hplain := (guarded_stop_of_next? hshaded hxs.lines
    (hxs.guarded_of_reads htext h s hs) hnext).2 hword x.shaded
    (by rw [List.getElem?_map, Option.mem_def.mp hx]; rfl)
  have hblank := Token.not_isBlank_of_word hnext hword x.1
    (by rw [List.head?_drop, ← htext, List.getElem?_map, Option.mem_def.mp hx]; rfl)
  rw [TracedChar.isComment_shaded, TracedChar.isInserted, hblank] at hplain
  simpa using hplain

/-- The steps that passages come from: a directive is read where its keyword stands. -/
lemma Passage.exists_step_of_mem {start pos : Nat} {p : Passage} {item : Item} {keyword : Token}
    (h : p ∈ Passage.ofSteps start pos steps) (hitem : p.item? = some item)
    (hopening : item.opening? = some keyword) :
    ∃ s ∈ steps, s.token = keyword ∧ s.reading.opens = true := by
  -- The passage is that of the first step or of a later one.
  have hlater : ∀ {s : Item.Step} {steps : List Item.Step},
      (∃ u ∈ steps, u.token = keyword ∧ u.reading.opens = true) →
      ∃ u ∈ s :: steps, u.token = keyword ∧ u.reading.opens = true := by
    rintro s steps ⟨u, hu, hread⟩
    exact ⟨u, List.mem_cons_of_mem s hu, hread⟩
  have hkept : ∀ first last, p ≠ .kept first last := by
    rintro first last rfl
    obtain rfl := Option.some.inj hitem
    cases hopening
  induction steps generalizing start pos with
  | nil => exact absurd (List.mem_singleton.mp h) (hkept _ _)
  | cons s steps ih =>
    unfold Passage.ofSteps at h
    cases hreading : s.reading with
    | keep stop later =>
      simp only [hreading] at h
      exact hlater (ih h)
    | remove stop =>
      simp only [hreading, List.mem_cons, hkept, false_or] at h
      rcases h with rfl | h
      · cases hitem
      · exact hlater (ih h)
    | copy clause stop =>
      simp only [hreading, List.mem_cons, hkept, false_or] at h
      rcases h with rfl | h
      · obtain rfl := Option.some.inj hitem
        exact ⟨s, List.mem_cons_self, Option.some.inj hopening, by rw [hreading]; rfl⟩
      · exact hlater (ih h)
    | change effect stop =>
      simp only [hreading, List.mem_cons, hkept, false_or] at h
      rcases h with rfl | h
      · obtain rfl := Option.some.inj hitem
        cases hopening
      · exact hlater (ih h)
    | malformed defect =>
      simp only [hreading] at h
      obtain rfl : p = malformed s.token defect := by
        split at h <;> simpa [hkept] using h
      obtain rfl := Option.some.inj hitem
      exact ⟨s, List.mem_cons_self, Option.some.inj hopening, by rw [hreading]; rfl⟩

end Scan

/-- A character with an origin has the position of its origin. -/
lemma TracedText.positionAt?_of_trace {t : TracedText} {offset : Nat} {c : Char} {o : Origin}
    (h : t.trace[offset]? = some (c, some o)) : t.map.positionAt? offset = some o.position := by
  rw [getElem?_trace] at h
  obtain ⟨d, -, hd⟩ := Option.map_eq_some_iff.mp h
  obtain ⟨e, he, rfl⟩ := Option.map_eq_some_iff.mp (Prod.mk.inj hd).2
  rw [OriginMap.positionAt?, he]
  rfl

/-- A directive opens with a keyword whose first character comes from a source. -/
lemma SourceUnit.opens_of_mem {r : LineRules} {name : String} {text : List Char}
    {unit : SourceUnit} (h : SourceUnit.read r name text = .ok unit) {options : Bool} {item : Item}
    {keyword : Token} (hitem : item ∈ Item.ofText r.dialect options unit.written.text)
    (hopening : item.opening? = some keyword) :
    Item.Opens r.dialect unit.written.text keyword ∧
      ∃ c o, unit.written.trace[keyword.start]? = some (c, some o) ∧ Text.isBlank c = false := by
  rw [Passage.items_eq] at hitem
  obtain ⟨p, hp, hpassage⟩ := List.mem_filterMap.mp hitem
  obtain ⟨s, hs, rfl, hopens⟩ := Passage.exists_step_of_mem hp hpassage hopening
  have hreads := Item.reads_stepsFrom r.dialect unit.written.text options (Nat.zero_le _)
  rw [List.drop_zero, ← Item.steps] at hreads
  obtain ⟨hnext, hreading⟩ := hreads.next_of_mem s hs
  rw [hreading] at hopens
  obtain ⟨k, hk, hkind⟩ := Item.keyword?_of_opens hopens
  have hfound := (Token.foundIn_of_next? hnext).1
  refine ⟨⟨hfound, s.options, k, hk, hkind⟩, ?_⟩
  have hsome :=
    (SourceUnit.shaded h).isSome_of_reads unit.written.map_fst_trace hreads s hs (by simp [hk])
  have hbounds := hfound.bounds
  have hchar := List.getElem?_eq_getElem (show s.token.start < unit.written.text.length by omega)
  have htrace := unit.written.getElem?_trace s.token.start
  rw [hchar, Option.map_some] at htrace
  have horigin := hsome _ htrace
  obtain ⟨o, ho⟩ := Option.isSome_iff_exists.mp horigin
  rw [show unit.written.map.originAt? s.token.start = some o from ho] at htrace
  refine ⟨_, o, htrace, Token.not_isBlank_of_word hnext (Item.keyword?_eq_some hk).1 _ ?_⟩
  rw [List.head?_drop]
  exact hchar

/-- A directive has the position of its keyword. -/
lemma SourceUnit.exists_position {r : LineRules} {name : String} {text : List Char}
    {unit : SourceUnit} (h : SourceUnit.read r name text = .ok unit) {options : Bool} {item : Item}
    {keyword : Token} (hitem : item ∈ Item.ofText r.dialect options unit.written.text)
    (hopening : item.opening? = some keyword) :
    ∃ position, unit.written.map.positionAt? keyword.start = some position := by
  obtain ⟨-, c, o, htrace, -⟩ := SourceUnit.opens_of_mem h hitem hopening
  exact ⟨o.position, TracedText.positionAt?_of_trace htrace⟩

namespace Expansion.Stage

variable {σ : Type} {files : FileAccess (StateM σ)} {r : RunRules}

/-- Whether the next item of a stage is a directive that starts with a keyword. -/
def StartsWith (s : Stage σ) (keyword : Token) : Prop :=
  ∃ item items, s.items = item :: items ∧ item.opening? = some keyword

lemma Finds.startsWith {s : Stage σ} {keyword : Token} {clause : CopyClause} {path : Path} {fs : σ}
    (h : s.Finds files r keyword clause path fs) : s.StartsWith keyword := by
  obtain ⟨stop, items, hitems⟩ := h.item
  exact ⟨_, items, hitems, rfl⟩

/-- Whether the next item of a stage is a `COPY` directive whose copybook is found and may be
entered, but cannot be read or decoded. -/
def CannotRead (files : FileAccess (StateM σ)) (r : RunRules) (s : Stage σ) (fault : Fault) :
    Prop :=
  ∃ keyword clause path fs cache fs', s.Finds files r keyword clause path fs ∧
    s.repeats files clause path = false ∧ s.levels ≠ 0 ∧
    (s.world.1.cache.load files path r.encoding).run fs = ((.error fault, cache), fs') ∧
    fault.IsUnread (Path.resolve files.workDir path) r.encoding

/-- What a stage can raise: a fault at the position of the directive that comes next, one that tells
that the copybook cannot be read, or one that is not reported. -/
lemma Raises.kinds {s : Stage σ} {fault : Fault} (h : s.Raises files r fault) :
    (∃ keyword, s.StartsWith keyword ∧
      fault.position? = directivePosition? s.unit.written keyword) ∨
    s.CannotRead files r fault ∨ fault.isReported = false := by
  cases h with
  | malformed item => exact .inl ⟨_, ⟨_, _, item, rfl⟩, rfl⟩
  | search item missed =>
    rcases SearchPlan.find_error missed with hrefused | ⟨paths, rfl⟩
    · exact .inr (.inr (SearchPlan.isReported_of_candidatesFor hrefused))
    · exact .inl ⟨_, ⟨_, _, item, rfl⟩, rfl⟩
  | circular finds same => exact .inl ⟨_, finds.startsWith, rfl⟩
  | tooDeep finds fresh deepest => exact .inl ⟨_, finds.startsWith, rfl⟩
  | load finds fresh deeper unloaded =>
    rcases readText_error (BookCache.load_error unloaded) with hunread | ⟨hfault, -⟩
    · exact .inr (.inl ⟨_, _, _, _, _, _, finds, fresh, deeper, unloaded, hunread⟩)
    · exact .inr (.inr hfault)
  | read finds fresh deeper loaded unread => exact .inr (.inr (SourceUnit.read_error unread).1)

/-- What is still to be carried out at a stage are items of its unit. -/
lemma Reaches.items_subset {s b : Stage σ} (h : s.Reaches files r b)
    (hs : s.items ⊆ s.allItems r) : b.items ⊆ b.allItems r := by
  induction h with
  | refl => exact hs
  | tail _ hnext ih =>
    cases hnext with
    | item carried => exact fun item hitem => ih (List.mem_cons_of_mem _ hitem)
    | book found same fresh loaded read => exact fun _ => id

end Expansion.Stage

namespace Session

open Expansion

variable {σ : Type}

/-- Every directive that a run comes to has the position of its keyword. -/
lemma Visits.exists_position {files : FileAccess (StateM σ)} {s : Session} {name : String}
    {path : Option Path} {text : List Char} {fs : σ} {stage : Stage σ} {keyword : Token}
    (h : s.Visits files name path text fs stage) (hstarts : stage.StartsWith keyword) :
    ∃ position, stage.unit.written.map.positionAt? keyword.start = some position := by
  obtain ⟨unit, hread, hreached⟩ := h
  obtain ⟨item, items, hitems, hopening⟩ := hstarts
  have hsound := (Stage.sound_enter (SourceUnit.read_name hread)).reaches hreached
  have hsubset := Stage.Reaches.items_subset hreached (List.Subset.refl _)
  have hmem : item ∈ stage.items := by
    rw [hitems]
    exact List.mem_cons_self
  exact SourceUnit.exists_position hsound.isRead (hsubset hmem) hopening

/-- Whether the faults of a run that ended with `result` have positions, save for those of copybooks
that cannot be read. -/
structure PositionedUnlessUnread (files : FileAccess (StateM σ)) (s : Session) (name : String)
    (path : Option Path) (text : List Char) (fs : σ) (result : Except Fault Preprocessed) :
    Prop where
  /-- A fault that is reported has the position of the keyword of the directive that raised it,
  unless it tells that the copybook of the directive cannot be read. -/
  positioned : ∀ fault, result = .error fault → fault.isReported = true →
    ∃ stage, s.Visits files name path text fs stage ∧
      stage.Raises files (s.options.runRules s.plan) fault ∧
      ((∃ keyword position, stage.StartsWith keyword ∧
        stage.unit.written.map.positionAt? keyword.start = some position ∧
        fault.position? = some position) ∨
      stage.CannotRead files (s.options.runRules s.plan) fault)
  /-- A run that comes to a copybook that cannot be read ends with a fault without a position. -/
  unread : ∀ stage fault, s.Visits files name path text fs stage →
    stage.CannotRead files (s.options.runRules s.plan) fault →
    result = .error fault ∧ fault.isReported = true ∧ fault.position? = none

lemma run_positioned {files : FileAccess (StateM σ)} {s s' : Session} {name : String}
    {path : Option Path} {text : List Char} {fs fs' : σ} {outcome : Outcome}
    (h : (s.run files name path text).run fs = ((outcome, s'), fs')) :
    s.PositionedUnlessUnread files name path text fs outcome.result where
  positioned fault herror hreported := by
    rcases (run_error_iff h).mp herror with hread | ⟨unit, hread, stage, hreached, hraises⟩
    · simp [(SourceUnit.read_error hread).1] at hreported
    · have hvisits : s.Visits files name path text fs stage := ⟨unit, hread, hreached⟩
      refine ⟨stage, hvisits, hraises, ?_⟩
      rcases hraises.kinds with ⟨keyword, hstarts, hposition⟩ | hunread | hunreported
      · obtain ⟨position, hat⟩ := hvisits.exists_position hstarts
        refine .inl ⟨keyword, position, hstarts, hat, ?_⟩
        rw [hposition, directivePosition?, hat]
        rfl
      · exact .inr hunread
      · simp [hunreported] at hreported
  unread stage fault hvisits hunread := by
    obtain ⟨keyword, clause, file, fs₁, cache, fs₂, hfinds, hfresh, hdeeper, hload, hfault⟩ :=
      hunread
    refine ⟨hvisits.result_eq h (.load hfinds hfresh hdeeper hload), ?_⟩
    rcases hfault with ⟨failure, rfl⟩ | ⟨offset, rfl⟩
    · exact ⟨rfl, rfl⟩
    · exact ⟨rfl, rfl⟩

/-- Whatever the files hold, every fault that a run reports while it expands has the position of the
keyword of a directive, except that a copybook that cannot be read or decoded is always reported
without a position. -/
theorem fault_positions {σ : Type} (files : FileAccess (StateM σ)) (s s' : Session) (fs fs' : σ)
    (outcome : Outcome) :
    (∀ name text, (s.processText files name text).run fs = ((outcome, s'), fs') →
      s.PositionedUnlessUnread files name none text fs outcome.result) ∧
    ∀ path, (s.processFile files path).run fs = ((outcome, s'), fs') →
      (∃ fault, (readText files path s.options.encoding).run fs = (.error fault, fs') ∧
        outcome.result = .error fault) ∨
      ∃ text fs₁, (readText files path s.options.encoding).run fs = (.ok text, fs₁) ∧
        s.PositionedUnlessUnread files path.render (some path) text fs₁ outcome.result := by
  constructor
  · intro name text h
    exact run_positioned h
  · intro path h
    obtain hfault | ⟨text, fs₁, hread, hrun⟩ := processFile_cases h
    · exact .inl hfault
    · exact .inr ⟨text, fs₁, hread, run_positioned hrun⟩

section Sample

/-- Files that hold a byte which starts no character. -/
def garbledFiles : FileAccess (StateM Unit) where
  workDir := ⟨1, []⟩
  isFile _ := pure true
  read _ := pure (.ok [255])

/-- A session in free format that takes files to be in UTF-8. -/
def decodingSession : Session :=
  { shallowSession with
    options := { shallowSession.options with encoding := .text "utf-8" } }

abbrev decodingRules : RunRules :=
  decodingSession.options.runRules decodingSession.plan

def garbledFault : Fault :=
  .undecodable ⟨1, ["B"]⟩ "utf-8" 0

set_option maxRecDepth 20000

lemma garbled_unread : ∃ stage : Stage Unit,
    decodingSession.Visits garbledFiles "main" none cyclicText () stage ∧
      stage.CannotRead garbledFiles decodingRules garbledFault := by
  obtain ⟨unit, hread, hwritten⟩ := read_cyclicText "main"
  have hdialect : decodingRules.dialect = .ansi85 := rfl
  have hreached := cyclic_reaches garbledFiles hdialect hwritten 3 [⟨"main", none, none⟩]
    (⟨BookCache.empty, []⟩, ())
  have hfound : ∀ position, (decodingRules.plan.find garbledFiles "B" none position).run () =
      (.ok ⟨0, ["B"]⟩, ()) := by
    intro position
    cbv
  have hload : (BookCache.empty.load garbledFiles ⟨0, ["B"]⟩ decodingRules.encoding).run () =
      ((.error garbledFault, BookCache.empty), ()) := by
    cbv
  refine ⟨_, ⟨unit, hread, hreached⟩, cyclicKeyword, cyclicClause, ⟨0, ["B"]⟩, (), BookCache.empty,
    (), ⟨⟨7, _, rfl⟩, hfound _⟩, ?_, ?_, hload, ?_⟩
  · cbv
  · simp [cyclicStage]
  · exact .inr ⟨0, rfl⟩

end Sample

/-- A copybook that cannot be decoded ends a run with a fault without a position. -/
theorem fault_positions_garbled :
    ∃ (outcome : Outcome) (s' : Session),
      (decodingSession.processText garbledFiles "main" cyclicText).run () = ((outcome, s'), ()) ∧
      decodingSession.PositionedUnlessUnread garbledFiles "main" none cyclicText () outcome.result ∧
      outcome.result = .error (.undecodable ⟨1, ["B"]⟩ "utf-8" 0) ∧
      (Fault.undecodable ⟨1, ["B"]⟩ "utf-8" 0).position? = none := by
  rcases hrun : (decodingSession.processText garbledFiles "main" cyclicText).run () with
    ⟨⟨outcome, s'⟩, fs⟩
  have hpositioned := (fault_positions garbledFiles decodingSession s' () fs outcome).1 "main"
    cyclicText hrun
  obtain ⟨stage, hvisits, hunread⟩ := garbled_unread
  obtain ⟨hresult, -, hposition⟩ := hpositioned.unread stage garbledFault hvisits hunread
  exact ⟨outcome, s', rfl, hpositioned, hresult, hposition⟩

end Session

end CobolText
