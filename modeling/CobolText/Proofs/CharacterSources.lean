import CobolText.Proofs.CommentSurvival
import CobolText.Proofs.FailedRuns

/-!
# The sources of characters

Every character that comes out of a unit was read from some unit, or was written by a rule in the
place of such a character, or was made up.  `ReadFrom` follows a run and tells for each place of the
output which unit and which character of it that was: text that is kept stands for itself, what a
rule writes stands for the first character it takes the place of, and what comes out of a copybook
is put into the place of its directive.
-/

namespace CobolText

/-- What stands in the places of a text after edits: what a rule writes stands for the first
character it takes the place of. -/
def Edit.sources {α : Type} (xs : List (Option α)) (pos : Nat) : List Edit → List (Option α)
  | [] => xs.drop pos
  | e :: es => (xs.take e.start).drop pos ++ e.rule.replacement.map (fun _ => xs[e.start]?.join) ++
      sources xs e.stop es

namespace TracedText

variable {α : Type} {Q : Option α → TracedChar → Prop}

/-- A relation of sources to characters that holds of what is made up, and passes on to what a rule
writes in the place of a character. -/
structure PassedOn (Q : Option α → TracedChar → Prop) : Prop where
  made : ∀ c, Q none (c, none)
  replaced : ∀ {a d o}, Q a (d, o) → ∀ c, Q a (c, o.map Origin.replaced)

/-- What a rule writes is related to the source of the first character it takes the place of. -/
lemma PassedOn.written (hQ : PassedOn Q) {t : TracedText} (ht : t.WellFormed)
    {xs : List (Option α)} (h : List.Forall₂ Q xs t.trace) (i : Nat) (c : Char) :
    Q xs[i]?.join (c, (t.map.originAt? i).map Origin.replaced) := by
  by_cases hi : i < t.text.length
  · have hsource : i < xs.length := by
      rw [h.length_eq, length_trace]
      exact hi
    have hx : i < t.trace.length := by
      rw [length_trace]
      exact hi
    have hrelated : Q xs[i] t.trace[i] := h.get hsource hx
    have hchar : t.trace[i] = (t.text[i], t.map.originAt? i) := by
      have hget := t.getElem?_trace i
      rw [List.getElem?_eq_getElem hx, List.getElem?_eq_getElem hi] at hget
      exact Option.some.inj hget
    rw [List.getElem?_eq_getElem hsource, Option.join_some]
    rw [hchar] at hrelated
    exact hQ.replaced hrelated c
  · have horigin : t.map.originAt? i = none := by
      by_contra hne
      obtain ⟨o, ho⟩ := Option.ne_none_iff_exists'.mp hne
      rw [OriginMap.originAt?_eq] at ho
      obtain ⟨e, he, -⟩ := Option.map_eq_some_iff.mp ho
      obtain ⟨hmem, -, hcovers⟩ := Extent.covers_of_at? he
      have hstop := (ht.proper e hmem).2.2
      omega
    have hsource : xs[i]? = none := by
      apply List.getElem?_eq_none
      rw [h.length_eq, length_trace]
      omega
    rw [horigin, hsource]
    exact hQ.made c

lemma forall₂_rewritten (hQ : PassedOn Q) {t : TracedText} (ht : t.WellFormed)
    {xs : List (Option α)} (h : List.Forall₂ Q xs t.trace) (pos : Nat) (es : List Edit) :
    List.Forall₂ Q (Edit.sources xs pos es) (Edit.rewritten t pos es) := by
  induction es generalizing pos with
  | nil => exact List.forall₂_drop pos h
  | cons e es ih =>
    have hkept := List.forall₂_drop pos (List.forall₂_take e.start h)
    have hwritten : List.Forall₂ Q (e.rule.replacement.map fun _ => xs[e.start]?.join)
        (e.rule.replacement.map fun c => (c, (t.map.originAt? e.start).map Origin.replaced)) := by
      rw [List.forall₂_map_left_iff, List.forall₂_map_right_iff, List.forall₂_same]
      intro c _
      exact hQ.written ht h e.start c
    exact List.rel_append (List.rel_append hkept hwritten) (ih e.stop)

/-- Replacement keeps the relation. -/
lemma forall₂_replace (hQ : PassedOn Q) {t : TracedText} (ht : t.WellFormed)
    {xs : List (Option α)} (h : List.Forall₂ Q xs t.trace) (rules : List ReplacementRule) :
    List.Forall₂ Q (Edit.sources xs 0 (t.edits rules)) (t.replace rules).trace := by
  rw [trace_replace ht]
  exact forall₂_rewritten hQ ht h 0 _

end TracedText

namespace Progress

lemma Carries.proper {P : TracedChar → Prop} {p : Progress} (h : p.Carries P) : p.Proper where
  output f hf := (h.wellFormed f (List.mem_append_left _ hf)).proper
  pending f hf := (h.wellFormed f (List.mem_append_right _ hf)).proper

/-- Text that is added waits behind what waits already. -/
lemma Proper.trace_push {p : Progress} (hp : p.Proper) {fs : List Fragment}
    (hfs : ∀ f ∈ fs, f.Proper) :
    (TracedText.assemble (p.push fs).pending.reverse).trace =
      (TracedText.assemble p.pending.reverse).trace ++ fs.flatMap Fragment.trace := by
  have hpending : ∀ f ∈ p.pending.reverse, f.Proper :=
    fun f hf => hp.pending f (List.mem_reverse.mp hf)
  rw [pending_push, TracedText.trace_assemble hpending, TracedText.trace_assemble,
    List.flatMap_append]
  exact List.forall_mem_append.mpr ⟨hpending, hfs⟩

end Progress

namespace Expansion

variable {α : Type}

/-- What stands in the places of the text that is put in for a directive: the copybook up to the
end of its last line, and perhaps some text that is made up. -/
def splicedSources (text : List Char) (stop : Nat) (name : String) (book : TracedText)
    (xs : List (Option α)) : List (Option α) :=
  match splice text stop name book with
  | [] => []
  | first :: made => xs.take first.text.length ++ (made.flatMap Fragment.text).map fun _ => none

/-- A copybook is put in up to its end or up to the line feed there, and what is made up behind it
is a line feed and spaces. -/
lemma splice_eq (text : List Char) (stop : Nat) (name : String) (book : TracedText) :
    ∃ (last : Nat) (made : List (List Char)),
      splice text stop name book = book.cut 0 last [name] :: made.map Fragment.synthetic ∧
      (last = book.text.length ∨ last + 1 = book.text.length ∧ book.text[last]? = some '\n') ∧
      ∀ line ∈ made, ∀ c ∈ line, c = ' ' ∨ c = '\n' := by
  have hspaces : ∀ n, ∀ c ∈ Text.spaces n, c = ' ' ∨ c = '\n' :=
    fun n c hc => .inl (List.eq_of_mem_replicate hc)
  unfold splice
  dsimp only
  split
  · refine ⟨_, [], rfl, ?_, by simp⟩
    split
    · rename_i hends
      rw [beq_iff_eq, List.getLast?_eq_getElem?] at hends
      have hlt := (List.getElem?_eq_some_iff.mp hends).1
      exact .inr ⟨by omega, hends⟩
    · exact .inl rfl
  · refine ⟨_, [_, _], rfl, .inl rfl, ?_⟩
    simp only [List.forall_mem_cons, List.not_mem_nil, false_implies, implies_true, and_true]
    exact ⟨by split <;> simp, hspaces _⟩

lemma forall₂_spliced {Q Q' : Option α → TracedChar → Prop} {book : TracedText}
    (hbook : book.WellFormed) {name : String} (hmade : ∀ c, Q' none (c, none))
    (hwithin : ∀ a x, Q a x → Q' a (x.within [name])) {xs : List (Option α)}
    (h : List.Forall₂ Q xs book.trace) (text : List Char) (stop : Nat) :
    List.Forall₂ Q' (splicedSources text stop name book xs)
      ((splice text stop name book).flatMap Fragment.trace) := by
  obtain ⟨last, made, hsplice, hends, -⟩ := splice_eq text stop name book
  have hlast : last ≤ book.text.length := by omega
  have htext := book.text_cut 0 hlast [name]
  have htrace := book.trace_cut hbook.nonempty 0 hlast [name]
  rw [Nat.cast_zero, List.drop_zero] at htext htrace
  rw [splicedSources, hsplice]
  dsimp only
  rw [List.flatMap_cons, htrace, htext, List.length_take, Nat.min_eq_left hlast]
  apply List.rel_append
  · rw [List.forall₂_map_right_iff]
    exact (List.forall₂_take last h).imp fun a x => hwithin a x
  · clear hsplice
    induction made with
    | nil => exact .nil
    | cons line made ih =>
      rw [List.map_cons, List.flatMap_cons, List.flatMap_cons, List.map_append,
        Fragment.trace_synthetic]
      apply List.rel_append _ ih
      rw [List.forall₂_map_left_iff, List.forall₂_map_right_iff]
      exact List.forall₂_same.mpr fun c _ => hmade c

variable {σ : Type} {files : FileAccess (StateM σ)} {r : RunRules}

/-- A character of a unit: the stage at which the unit is entered, and the offset of the character
in the text of the unit. -/
structure Source (σ : Type) where
  stage : Stage σ
  offset : Nat

namespace Stage

/-- The characters of the unit of a stage, one after the other. -/
def ownSources (s : Stage σ) : List (Option (Source σ)) :=
  (List.range s.unit.written.text.length).map fun i => some ⟨s, i⟩

/-- What stands in the places of the waiting text after it has gone through the rules in force. -/
def flushedSources (s : Stage σ) (xs : List (Option (Source σ))) : List (Option (Source σ)) :=
  Edit.sources xs 0
    ((TracedText.assemble s.progress.pending.reverse).edits s.progress.levels.flatten)

/-- Whether a run at a stage carries out the next item, and then stands at `s'`. -/
structure CarriesOut (files : FileAccess (StateM σ)) (r : RunRules) (s : Stage σ) (item : Item)
    (s' : Stage σ) : Prop where
  next : Next files r s s'
  items_eq : s.items = item :: s'.items
  stack_eq : s'.stack = s.stack

/-- Where the characters were read that a run puts out from a stage on, given the stage `unit` at
which the unit was entered, and where those in the waiting text were read. -/
inductive ReadFrom (files : FileAccess (StateM σ)) (r : RunRules) :
    Stage σ → Stage σ → List (Option (Source σ)) → List (Option (Source σ)) → Prop
  | done {unit s : Stage σ} {xs : List (Option (Source σ))} (items_eq : s.items = []) :
      ReadFrom files r unit s xs (s.flushedSources xs)
  | kept {unit s s' : Stage σ} {xs ys : List (Option (Source σ))} {start stop : Nat}
      (carried : s.CarriesOut files r (.kept start stop) s')
      (rest : ReadFrom files r unit s' (xs ++ (unit.ownSources.take stop).drop start) ys) :
      ReadFrom files r unit s xs ys
  | change {unit s s' : Stage σ} {xs ys : List (Option (Source σ))} {effect : RuleChange}
      (carried : s.CarriesOut files r (.change effect) s') (rest : ReadFrom files r unit s' [] ys) :
      ReadFrom files r unit s xs (s.flushedSources xs ++ ys)
  | copy {unit s s' b : Stage σ} {xs ys zs : List (Option (Source σ))} {keyword : Token}
      {clause : CopyClause} {stop : Nat} {path : Path} {out : TracedText}
      (carried : s.CarriesOut files r (.copy keyword clause stop) s') (entered : Next files r s b)
      (stack_eq : b.stack = s.grown clause path) (completed : b.Completes files r out)
      (inner : ReadFrom files r b b [] zs)
      (rest : ReadFrom files r unit s' (xs ++ splicedSources s.unit.written.text stop clause.name
        (out.replace clause.rules) (Edit.sources zs 0 (out.edits clause.rules))) ys) :
      ReadFrom files r unit s xs ys

/-- Whether a character that comes out of the unit entered at `s` is what its source says: a
character of a unit that is entered for it, seen through the copybooks around that unit, or what a
rule wrote in the place of such a character. -/
def Explains (files : FileAccess (StateM σ)) (r : RunRules) (s : Stage σ) :
    Option (Source σ) → TracedChar → Prop
  | none, x => x.2 = none
  | some source, x => ∃ inner c o, s.Enters files r source.stage inner ∧
      source.stage.unit.written.trace[source.offset]? = some (c, o) ∧
      (x = TracedChar.within (inner.map Inclusion.name) (c, o) ∨
        x.2 = (TracedChar.within (inner.map Inclusion.name) (c, o)).2.map Origin.replaced)

lemma passedOn_explains (s : Stage σ) : TracedText.PassedOn (s.Explains files r) where
  made _ := rfl
  replaced := by
    intro a d o h c
    cases a with
    | none =>
      obtain rfl : o = none := h
      rfl
    | some source =>
      obtain ⟨inner, c', o', henters, hget, hx⟩ := h
      refine ⟨inner, c', o', henters, hget, .inr ?_⟩
      rcases hx with hx | hx
      · rw [← hx]
      · dsimp only at hx ⊢
        rw [hx, Option.map_map]
        rfl

/-- What comes out of a copybook comes out of the unit that includes it, seen through the
copybook. -/
lemma Explains.included {s b : Stage σ} {name : String} {path : Path}
    (hbook : s.Includes files r b name path) {a : Option (Source σ)} {x : TracedChar}
    (h : b.Explains files r a x) : s.Explains files r a (x.within [name]) := by
  cases a with
  | none =>
    have hnone : x.2 = none := h
    simp only [Explains, TracedChar.within, hnone, Option.map_none]
  | some source =>
    obtain ⟨inner, c, o, henters, hget, hx⟩ := h
    obtain ⟨library, hstack⟩ := hbook.stack_eq
    refine ⟨⟨name, library, some path⟩ :: inner, c, o,
      ⟨hbook.reached.trans henters.reached, henters.entered, henters.isRead, ?_⟩, hget, ?_⟩
    · rw [henters.stack_eq, hstack, List.append_assoc]
      rfl
    · rcases hx with rfl | hx
      · left
        exact TracedChar.within_within _ _ _
      · right
        rw [TracedChar.within, hx]
        cases o with
        | none => rfl
        | some o => rfl

/-- Every character of a unit is its own source. -/
lemma forall₂_ownSources {s : Stage σ} (hentered : s.Entered r) (hread : s.IsRead r) :
    List.Forall₂ (s.Explains files r) s.ownSources s.unit.written.trace := by
  rw [List.forall₂_iff_get]
  refine ⟨by simp [ownSources], ?_⟩
  intro i hi hx
  have hlt : i < s.unit.written.text.length := by simpa [ownSources] using hi
  simp only [ownSources, List.get_eq_getElem, List.getElem_map, List.getElem_range]
  refine ⟨[], _, _, ⟨.refl, hentered, hread, (List.append_nil _).symm⟩,
    List.getElem?_eq_getElem hx, .inl ?_⟩
  rw [List.map_nil, TracedChar.within_nil]
  rfl

lemma CarriesOut.unique {s s₁ s₂ : Stage σ} {item₁ item₂ : Item}
    (h₁ : s.CarriesOut files r item₁ s₁) (h₂ : s.CarriesOut files r item₂ s₂) :
    item₁ = item₂ ∧ s₁ = s₂ := by
  obtain ⟨next₁, items₁, stack₁⟩ := h₁
  obtain ⟨next₂, items₂, stack₂⟩ := h₂
  cases next₁ with
  | book found same fresh loaded read => exact absurd stack₁ (by simp [enter])
  | item carried₁ =>
    cases next₂ with
    | book found same fresh loaded read => exact absurd stack₂ (by simp [enter])
    | item carried₂ =>
      obtain ⟨rfl, rfl⟩ := carried₁.unique carried₂
      exact ⟨(List.cons.inj items₁).1.symm.trans (List.cons.inj items₂).1, rfl⟩

/-- A run enters at most one copybook from a stage. -/
lemma Next.unique_of_grown {s b₁ b₂ : Stage σ} {clause₁ clause₂ : CopyClause} {path₁ path₂ : Path}
    (h₁ : Next files r s b₁) (h₂ : Next files r s b₂) (hstack₁ : b₁.stack = s.grown clause₁ path₁)
    (hstack₂ : b₂.stack = s.grown clause₂ path₂) : b₁ = b₂ := by
  cases h₁ with
  | item carried => exact absurd hstack₁ (by simp [grown])
  | @book _ _ _ _ _ _ _ _ _ _ _ _ _ w₁ w₁' found₁ same₁ fresh₁ loaded₁ read₁ =>
    cases h₂ with
    | item carried => exact absurd hstack₂ (by simp [grown])
    | @book _ _ _ _ _ _ _ _ _ _ _ _ _ w₂ w₂' found₂ same₂ fresh₂ loaded₂ read₂ =>
      rw [found₁, Prod.mk.injEq, Except.ok.injEq] at found₂
      obtain ⟨rfl, hfiles⟩ := found₂
      obtain rfl : w₁ = w₂ := Prod.ext (same₁.trans same₂.symm) hfiles
      obtain ⟨rfl, rfl⟩ := loaded₁.unique loaded₂
      rw [read₁, Except.ok.injEq] at read₂
      rw [read₂]

/-- Where characters were read is settled by the run. -/
lemma ReadFrom.unique {unit s : Stage σ} {xs ys ys' : List (Option (Source σ))}
    (h : ReadFrom files r unit s xs ys) (h' : ReadFrom files r unit s xs ys') : ys = ys' := by
  induction h generalizing ys' with
  | done items_eq =>
    cases h' with
    | done => rfl
    | kept carried => exact absurd (items_eq.symm.trans carried.items_eq) (by simp)
    | change carried => exact absurd (items_eq.symm.trans carried.items_eq) (by simp)
    | copy carried => exact absurd (items_eq.symm.trans carried.items_eq) (by simp)
  | kept carried rest ih =>
    cases h' with
    | done items_eq => exact absurd (items_eq.symm.trans carried.items_eq) (by simp)
    | kept carried' rest' =>
      obtain ⟨hitem, rfl⟩ := carried.unique carried'
      cases hitem
      exact ih rest'
    | change carried' => exact absurd (carried.unique carried').1 (by simp)
    | copy carried' => exact absurd (carried.unique carried').1 (by simp)
  | change carried rest ih =>
    cases h' with
    | done items_eq => exact absurd (items_eq.symm.trans carried.items_eq) (by simp)
    | kept carried' => exact absurd (carried.unique carried').1 (by simp)
    | change carried' rest' =>
      obtain ⟨-, rfl⟩ := carried.unique carried'
      rw [ih rest']
    | copy carried' => exact absurd (carried.unique carried').1 (by simp)
  | copy carried entered stack_eq completed inner rest ihInner ih =>
    cases h' with
    | done items_eq => exact absurd (items_eq.symm.trans carried.items_eq) (by simp)
    | kept carried' => exact absurd (carried.unique carried').1 (by simp)
    | change carried' => exact absurd (carried.unique carried').1 (by simp)
    | copy carried' entered' stack_eq' completed' inner' rest' =>
      obtain ⟨hitem, rfl⟩ := carried.unique carried'
      cases hitem
      obtain rfl := entered.unique_of_grown entered' stack_eq stack_eq'
      obtain rfl := completed.unique completed'
      rw [← ihInner inner'] at rest'
      exact ih rest'

variable (files r) in
/-- Whether what comes out of units with `levels` further levels is explained by where it was
read. -/
def ExplainedAt (levels : Nat) : Prop :=
  ∀ (stack : List Inclusion) (text : List Char) (unit : SourceUnit) (w w' : World σ)
    (out : TracedText), SourceUnit.read r.toLineRules unit.name text = .ok unit →
    Returns (expandUnit files r levels stack unit) w out w' →
    ∃ ys, ReadFrom files r (enter r levels stack text unit w) (enter r levels stack text unit w) []
      ys ∧ List.Forall₂ ((enter r levels stack text unit w).Explains files r) ys out.trace

/-- What is put in for a directive is explained by where the text of the copybook was read. -/
lemma copy_explained {levels : Nat} {stack : List Inclusion} {text : List Char}
    {source : SourceUnit} {p p' : Progress} {keyword : Token} {clause : CopyClause} {stop : Nat}
    {items : List Item} {w w' : World σ} {unit : Stage σ}
    (hbelow : ∀ inner, levels = inner + 1 → ExplainedAt files r inner)
    (hreached : unit.Reaches files r
      ⟨levels, stack, text, source, p, .copy keyword clause stop :: items, w⟩)
    (hstack : unit.stack = stack)
    (h : Returns (carryOut files r (below files r levels) stack source.written p
      (.copy keyword clause stop)) w p' w') :
    ∃ (b : Stage σ) (path : Path) (out : TracedText) (zs : List (Option (Source σ))),
      Next files r ⟨levels, stack, text, source, p, .copy keyword clause stop :: items, w⟩ b ∧
      b.stack = stack ++ [⟨clause.name, clause.library, some path⟩] ∧ b.Completes files r out ∧
      ReadFrom files r b b [] zs ∧
      p' = { p.push (splice source.written.text stop clause.name (out.replace clause.rules)) with
        copies := p.copies + 1 } ∧
      List.Forall₂ (unit.Explains files r)
        (splicedSources source.written.text stop clause.name (out.replace clause.rules)
          (Edit.sources zs 0 (out.edits clause.rules)))
        ((splice source.written.text stop clause.name (out.replace clause.rules)).flatMap
          Fragment.trace) := by
  obtain ⟨book, hbook, rfl⟩ := copy_returns_iff.mp h
  obtain ⟨inner, path, bookText, bookUnit, w₂, out, hlevels, hnext, hread, hget, -, hout, rfl⟩ :=
    includeBook_enters hbook text stop items
  have hisRead := SourceUnit.read_name hread
  obtain ⟨zs, hzs, hexplained⟩ := hbelow inner hlevels _ bookText _ _ _ _ hisRead hout
  have hwell := (expandUnit_carries carried_true inner _ bookText _ _ _ _ hisRead hout).2.1
  have hincludes : unit.Includes files r
      (enter r inner (stack ++ [⟨clause.name, clause.library, some path⟩]) bookText bookUnit w₂)
      clause.name path :=
    ⟨hreached.tail hnext, rfl, ⟨clause.library, by rw [hstack]; rfl⟩,
      SourceUnit.name_of_read hread, hisRead, hget⟩
  refine ⟨_, path, out, zs, hnext, rfl, completes_enter hout bookText, hzs, rfl, ?_⟩
  have hreplaced := TracedText.forall₂_replace (passedOn_explains _) hwell hexplained clause.rules
  apply forall₂_spliced (hwell.replace _) (fun _ => rfl) _ hreplaced
  intro a x hx
  exact hx.included hincludes

/-- What is kept of a unit is explained by where the unit was read. -/
lemma kept_explained {s unit : Stage σ} (hentered : unit.Entered r) (hread : unit.IsRead r)
    (hunit : unit.unit = s.unit) (hs : s.Sound r) {start stop : Nat} {items : List Item}
    (hitems : s.items = .kept start stop :: items) {xs : List (Option (Source σ))}
    (hxs : List.Forall₂ (unit.Explains files r) xs
      (TracedText.assemble s.progress.pending.reverse).trace) :
    List.Forall₂ (unit.Explains files r) (xs ++ (unit.ownSources.take stop).drop start)
      (TracedText.assemble
        (s.progress.push [s.unit.written.cut start stop []]).pending.reverse).trace := by
  have hstop : stop ≤ s.unit.written.text.length :=
    Item.kept_stop_le (hs.kept start stop (by simp [hitems]))
  have hproper := s.unit.written.proper_cut start hstop []
  have hown : List.Forall₂ (unit.Explains files r) unit.ownSources unit.unit.written.trace :=
    forall₂_ownSources hentered hread
  rw [hunit] at hown
  rw [hs.carries.proper.trace_push (List.forall_mem_singleton.mpr hproper),
    List.flatMap_singleton, s.unit.written.trace_cut hs.written.nonempty start hstop,
    TracedChar.within_nil, List.map_id]
  exact List.rel_append hxs (List.forall₂_drop _ (List.forall₂_take _ hown))

/-- Along the items of a unit, what is put out is explained by where it was read. -/
lemma foldlM_explained {levels : Nat} {stack : List Inclusion} {text : List Char}
    {source : SourceUnit} {p q : Progress} {items : List Item} {w w' : World σ} {unit : Stage σ}
    (hbelow : ∀ inner, levels = inner + 1 → ExplainedAt files r inner)
    (hentered : unit.Entered r) (hread : unit.IsRead r)
    (hreached : unit.Reaches files r ⟨levels, stack, text, source, p, items, w⟩)
    (hstack : unit.stack = stack) (hunit : unit.unit = source)
    (hs : Sound r ⟨levels, stack, text, source, p, items, w⟩) {xs : List (Option (Source σ))}
    (hxs : List.Forall₂ (unit.Explains files r) xs
      (TracedText.assemble p.pending.reverse).trace)
    (h : Returns (items.foldlM (carryOut files r (below files r levels) stack source.written) p)
      w q w') :
    ∃ ys rest, ReadFrom files r unit ⟨levels, stack, text, source, p, items, w⟩ xs ys ∧
      q.finish.trace = p.finished ++ rest ∧ List.Forall₂ (unit.Explains files r) ys rest := by
  induction items generalizing p w xs with
  | nil =>
    obtain ⟨rfl, rfl⟩ := Returns.pure_iff.mp h
    refine ⟨_, _, .done rfl, hs.carries.proper.trace_finish, ?_⟩
    exact TracedText.forall₂_replace (passedOn_explains unit) hs.carries.waiting.1 hxs _
  | cons item items ih =>
    obtain ⟨p₁, w₁, hstep, h⟩ := Returns.bind_iff.mp h
    have hs₁ := hs.next (.item hstep)
    have hcarried : CarriesOut files r ⟨levels, stack, text, source, p, item :: items, w⟩ item
        ⟨levels, stack, text, source, p₁, items, w₁⟩ := ⟨.item hstep, rfl, rfl⟩
    cases item with
    | kept start stop =>
      obtain ⟨rfl, rfl⟩ := Returns.pure_iff.mp hstep
      have hwaits := kept_explained hentered hread hunit hs rfl hxs
      obtain ⟨ys, rest, hys, htrace, hrest⟩ := ih (hreached.tail (.item hstep)) hs₁ hwaits h
      exact ⟨ys, rest, .kept hcarried hys, htrace, hrest⟩
    | change effect =>
      obtain ⟨rfl, rfl⟩ := Returns.pure_iff.mp hstep
      obtain ⟨-, -, hfinished, hassemble⟩ := hs.carries.proper.flush
      have hflushed := TracedText.forall₂_replace (passedOn_explains unit) hs.carries.waiting.1 hxs
        p.levels.flatten
      have hwaits : List.Forall₂ (unit.Explains files r) []
          (TracedText.assemble (p.change effect).pending.reverse).trace := by
        have hempty := hassemble []
        rw [List.append_nil] at hempty
        rw [show (p.change effect).pending = p.flush.pending from rfl, hempty]
        exact .nil
      obtain ⟨ys, rest, hys, htrace, hrest⟩ := ih (hreached.tail (.item hstep)) hs₁ hwaits h
      refine ⟨_, _, .change hcarried hys, ?_, List.rel_append hflushed hrest⟩
      rw [htrace, show (p.change effect).finished = p.flush.finished from rfl, hfinished,
        List.append_assoc]
      rfl
    | malformed keyword defect => exact absurd hstep Returns.not_throw
    | copy keyword clause stop =>
      obtain ⟨b, path, out, zs, hentered, hgrown, hcompletes, hzs, rfl, hspliced⟩ :=
        copy_explained hbelow hreached hstack hstep
      have hwaits : List.Forall₂ (unit.Explains files r)
          (xs ++ splicedSources source.written.text stop clause.name (out.replace clause.rules)
            (Edit.sources zs 0 (out.edits clause.rules)))
          (TracedText.assemble (p.push (splice source.written.text stop clause.name
            (out.replace clause.rules))).pending.reverse).trace := by
        rw [hs.carries.proper.trace_push (proper_splice _ _ _ _)]
        exact List.rel_append hxs hspliced
      obtain ⟨ys, rest, hys, htrace, hrest⟩ := ih (hreached.tail (.item hstep)) hs₁ hwaits h
      exact ⟨ys, rest, .copy hcarried hentered hgrown hcompletes hzs hys, htrace, hrest⟩

lemma explainedAt_of_below {levels : Nat}
    (hbelow : ∀ inner, levels = inner + 1 → ExplainedAt files r inner) :
    ExplainedAt files r levels := by
  intro stack text unit w w' out hread h
  obtain ⟨copies, h⟩ := expandUnit_returns h
  obtain ⟨q, hfold, hresult⟩ := expandDocument_returns h
  have hentered : (enter r levels stack text unit w).Entered r := rfl
  have hwaits : List.Forall₂ ((enter r levels stack text unit w).Explains files r) []
      (TracedText.assemble Progress.initial.pending.reverse).trace := .nil
  obtain ⟨ys, rest, hys, htrace, hrest⟩ := foldlM_explained hbelow hentered hread .refl rfl rfl
    (sound_enter hread) hwaits hfold
  refine ⟨ys, hys, ?_⟩
  rw [(Prod.mk.inj hresult).1, htrace]
  exact hrest

/-- However deeply copybooks are nested, every character that comes out of a unit is explained by
where it was read. -/
theorem explainedAt (levels : Nat) : ExplainedAt files r levels := by
  induction levels with
  | zero => exact explainedAt_of_below fun inner hinner => absurd hinner (by omega)
  | succ levels ih => exact explainedAt_of_below fun inner hinner => Nat.succ.inj hinner ▸ ih

end Stage

end Expansion

end CobolText
