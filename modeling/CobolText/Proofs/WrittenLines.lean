import CobolText.Proofs.GuardedComments
import CobolText.Proofs.LineBreaks

/-!
# The lines of a unit as they are written out

Every logical line is written as one line of text: characters without an origin in front, then the
content, all of which is a comment or none of it, then a line feed.  On a line that is a comment a
comment mark comes first.  So the comments of a unit are guarded wherever a line starts, and behind
a period either all or nothing of the rest of a line is a comment.
-/

namespace CobolText

/-- Whether a line can be written out as `front` and then `body`. -/
structure WrittenLine (front body : List TracedChar) : Prop where
  plain : ∀ x ∈ front, x.isComment = false ∧ x.1 ≠ '\n' ∧ x.1 ≠ '.'
  newline : ∀ x ∈ body, x.1 ≠ '\n'
  uniform : (∃ x ∈ body, x.isComment = true) → ∀ x ∈ body, x.isComment = true
  guarded : (∃ x ∈ body, x.isComment = true) →
    Text.commentMark <+: Text.trimLeft ((front ++ body).map (·.1))

/-- Whether a text is made up of lines that are written out. -/
inductive WrittenText : List TracedChar → Prop
  | nil : WrittenText []
  | line {front body rest : List TracedChar} (head : WrittenLine front body)
      (tail : WrittenText rest) : WrittenText (front ++ body ++ ('\n', none) :: rest)

lemma suffix_append_cases {x : TracedChar} {ys l r : List TracedChar} (h : x :: ys <:+ l ++ r) :
    (∃ zs, x :: zs <:+ l ∧ ys = zs ++ r) ∨ x :: ys <:+ r := by
  induction l with
  | nil => exact .inr h
  | cons a l ih =>
    rcases List.suffix_cons_iff.mp h with h | h
    · obtain ⟨rfl, rfl⟩ := List.cons.inj h
      exact .inl ⟨l, List.suffix_refl _, rfl⟩
    · rcases ih h with ⟨zs, hzs, rfl⟩ | h
      · exact .inl ⟨zs, hzs.trans (List.suffix_cons a l), rfl⟩
      · exact .inr h

/-- A line and what follows it have their comments guarded if what follows has. -/
lemma guardedLines_line {line rest : List TracedChar} {o : Option Origin}
    (hline : ∀ x ∈ line, x.1 ≠ '\n') (hrest : Guarded rest) (hlines : GuardedLines rest) :
    GuardedLines (line ++ ('\n', o) :: rest) := by
  intro x ys hx hsuffix
  rcases suffix_append_cases hsuffix with ⟨zs, hzs, -⟩ | hsuffix
  · exact absurd hx (hline x (hzs.subset (by simp)))
  · rcases List.suffix_cons_iff.mp hsuffix with heq | hsuffix
    · rw [(List.cons.inj heq).2]
      exact hrest
    · exact hlines x ys hx hsuffix

namespace WrittenLine

variable {front body : List TracedChar}

lemma ne_newline (h : WrittenLine front body) : ∀ x ∈ front ++ body, x.1 ≠ '\n' := by
  intro x hx
  rcases List.mem_append.mp hx with hx | hx
  · exact (h.plain x hx).2.1
  · exact h.newline x hx

lemma lineOf_eq {xs : List TracedChar} (h : ∀ x ∈ xs, x.1 ≠ '\n') (rest : List TracedChar) :
    lineOf (xs ++ ('\n', none) :: rest) = xs := by
  rw [lineOf_append h]
  simp [lineOf]

/-- Behind a period that is on the line there is nothing but content. -/
lemma mem_body_of_period (h : WrittenLine front body) {x : TracedChar}
    {ys rest : List TracedChar} (hx : x.1 = '.')
    (hsuffix : x :: ys <:+ front ++ body ++ ('\n', none) :: rest) :
    (∀ y ∈ lineOf ys, y ∈ body) ∨ x :: ys <:+ rest := by
  rcases suffix_append_cases hsuffix with ⟨zs, hzs, rfl⟩ | hsuffix
  · left
    have hbody : x :: zs <:+ body := by
      rcases suffix_append_cases hzs with ⟨us, hus, -⟩ | hbody
      · exact absurd hx (h.plain x (hus.subset (by simp))).2.2
      · exact hbody
    have hmem : ∀ y ∈ zs, y ∈ body := fun y hy => hbody.subset (List.mem_cons_of_mem x hy)
    rw [lineOf_eq fun y hy => h.newline y (hmem y hy)]
    exact hmem
  · right
    rcases List.suffix_cons_iff.mp hsuffix with heq | hsuffix
    · rw [(List.cons.inj heq).1] at hx
      exact absurd hx (by decide)
    · exact hsuffix

end WrittenLine

namespace WrittenText

variable {xs : List TracedChar}

lemma guarded (h : WrittenText xs) : Guarded xs := by
  cases h with
  | nil => exact guarded_of_lineOf_eq_nil rfl
  | line head tail =>
    rw [Guarded, WrittenLine.lineOf_eq head.ne_newline]
    rintro ⟨x, hx, hcomment⟩
    apply head.guarded
    rcases List.mem_append.mp hx with hx | hx
    · simp [(head.plain x hx).1] at hcomment
    · exact ⟨x, hx, hcomment⟩

lemma guardedLines (h : WrittenText xs) : GuardedLines xs := by
  induction h with
  | nil =>
    intro x ys _ hsuffix
    simp at hsuffix
  | line head tail ih => exact guardedLines_line head.ne_newline tail.guarded ih

/-- The end of a line belongs to no comment. -/
lemma not_isComment_newline (h : WrittenText xs) {x : TracedChar} (hx : x ∈ xs)
    (hnewline : x.1 = '\n') : x.isComment = false := by
  induction h with
  | nil => simp at hx
  | line head tail ih =>
    rcases List.mem_append.mp hx with hx | hx
    · exact absurd hnewline (head.ne_newline x hx)
    · rcases List.mem_cons.mp hx with rfl | hx
      · rfl
      · exact ih hx

/-- If a line holds a comment behind a period, it holds nothing else behind it. -/
lemma isComment_of_period (h : WrittenText xs) {x : TracedChar} {ys : List TracedChar}
    (hx : x.1 = '.') (hsuffix : x :: ys <:+ xs) (hsome : ∃ y ∈ lineOf ys, y.isComment = true) :
    ∀ y ∈ lineOf ys, y.isComment = true := by
  induction h with
  | nil => simp at hsuffix
  | @line front body rest head tail ih =>
    rcases head.mem_body_of_period hx hsuffix with hbody | hsuffix
    · obtain ⟨y, hy, hcomment⟩ := hsome
      exact fun z hz => head.uniform ⟨y, hbody y hy, hcomment⟩ z (hbody z hz)
    · exact ih hsuffix

end WrittenText

namespace Text

lemma not_mem_of_mem_splitOn {sep : Char} {s piece : List Char} (h : piece ∈ splitOn sep s) :
    sep ∉ piece := by
  induction s generalizing piece with
  | nil =>
    rw [List.mem_singleton.mp h]
    simp
  | cons c s ih =>
    rw [splitOn_cons] at h
    unfold splitStep at h
    split at h
    · rcases List.mem_cons.mp h with rfl | h
      · simp
      · exact ih h
    · rename_i hc
      have hne : sep ≠ c := by
        rintro rfl
        simp at hc
      split at h
      · rw [List.mem_singleton.mp h]
        simpa using hne
      · rename_i first rest hsplit
        rw [hsplit] at ih
        rcases List.mem_cons.mp h with rfl | h
        · simp [hne, ih (List.mem_cons_self ..)]
        · exact ih (List.mem_cons_of_mem _ h)

end Text

namespace LogicalLine

variable {d : Dialect} {format : SourceFormat} {file : String} {text : List Char}

lemma newline_not_mem_segment {s : Segment} (h : s.ReadFrom d format file text) :
    '\n' ∉ s.text := by
  intro hmem
  obtain ⟨i, hi⟩ := List.mem_iff_getElem?.mp hmem
  rcases h.standsAt i '\n' hi with ⟨-, -, hraw⟩ | ⟨-, hspace⟩
  · exact (Text.unbroken_of_lineAt? h.source.1).2 (List.mem_of_getElem? hraw)
  · exact absurd hspace (by decide)

/-- The characters of a line that have an origin. -/
def body (l : LogicalLine) : List TracedChar :=
  l.segmentFragments.flatMap Fragment.trace

lemma text_segmentFragment (l : LogicalLine) (s : Segment) (continued : Bool) :
    (l.segmentFragment s continued).text = s.text := by
  unfold segmentFragment Fragment.copied
  split
  · rename_i hempty
    rw [List.isEmpty_iff.mp hempty]
    rfl
  · rfl

lemma map_body (l : LogicalLine) : l.body.map (·.1) = l.content := by
  rw [body, List.map_flatMap]
  simp only [Fragment.map_fst_trace, content, segmentFragments]
  split
  · rename_i hsegments
    rw [hsegments]
    rfl
  · rename_i s rest hsegments
    rw [hsegments, List.flatMap_cons, List.flatMap_cons, text_segmentFragment, List.flatMap_map]
    simp only [text_segmentFragment]

/-- All of the content of a line has an origin, and is a comment if the line is one. -/
lemma exists_origin_of_mem_body {l : LogicalLine} {x : TracedChar} (hx : x ∈ l.body) :
    ∃ o, x.2 = some o ∧ o.isComment = (l.commented || l.commentEntry) := by
  obtain ⟨f, hf, hx⟩ := List.mem_flatMap.mp hx
  obtain ⟨s, -, continued, rfl⟩ := mem_segmentFragments hf
  rw [segmentFragment, Fragment.trace_copied _ _ rfl, List.mem_mapIdx] at hx
  obtain ⟨i, hi, rfl⟩ := hx
  exact ⟨_, rfl, rfl⟩

lemma isComment_body {l : LogicalLine} {x : TracedChar} (hx : x ∈ l.body) :
    x.isComment = (l.commented || l.commentEntry) := by
  obtain ⟨o, horigin, hcomment⟩ := exists_origin_of_mem_body hx
  rw [TracedChar.isComment, horigin]
  exact hcomment

lemma trace_fragments (indent : Nat) (l : LogicalLine) :
    (l.fragments indent).flatMap Fragment.trace =
      (Text.spaces indent ++ l.marker).map (fun c => (c, none)) ++ l.body ++ [('\n', none)] := by
  rw [fragments, List.flatMap_cons, List.flatMap_append, Fragment.trace_synthetic,
    List.flatMap_singleton, Fragment.trace_synthetic, ← List.append_assoc]
  rfl

/-- Without the spaces in front, a line is its marker and its content. -/
lemma trimLeft_written (indent : Nat) (l : LogicalLine) :
    Text.trimLeft (((Text.spaces indent ++ l.marker).map (fun c => ((c, none) : TracedChar)) ++
      l.body).map (·.1)) = Text.trimLeft (l.marker ++ l.content) := by
  have hspaces : ∀ c ∈ Text.spaces indent, Text.isBlank c = true := by
    intro c hc
    rw [List.eq_of_mem_replicate hc]
    rfl
  have hfront : ((Text.spaces indent ++ l.marker).map fun c => ((c, none) : TracedChar)).map
      (·.1) = Text.spaces indent ++ l.marker := by
    rw [List.map_map]
    exact List.map_id _
  rw [List.map_append, hfront, map_body, List.append_assoc, Text.trimLeft,
    List.dropWhile_append_of_pos hspaces]
  rfl

/-- A comment has a mark in front, or it brings its mark along. -/
lemma commentMark_prefix_of_mark {u : LogicalLine} (hu : u.ReadFrom d format file text)
    (debugging : Bool)
    (hcomment : ((u.mark debugging).commented || (u.mark debugging).commentEntry) = true) :
    Text.commentMark <+:
      Text.trimLeft ((u.mark debugging).marker ++ (u.mark debugging).content) := by
  have hcontent : (u.mark debugging).content = u.content := by
    rw [content, content, segments_mark]
  rw [hcontent]
  unfold mark at hcomment ⊢
  split
  · exact ⟨_, rfl⟩
  · rename_i hentry
    rw [if_neg hentry] at hcomment
    split
    · rename_i hout
      simp only
      split
      · rename_i htagged
        exact List.isPrefixOf_iff_prefix.mp htagged
      · exact ⟨_, rfl⟩
    · rename_i hout
      rw [if_neg hout, hu.commented] at hcomment
      exact absurd hcomment hentry

lemma marker_of_mark {u : LogicalLine} (hu : u.ReadFrom d format file text) (debugging : Bool) :
    ∀ c ∈ (u.mark debugging).marker, c ≠ '\n' ∧ c ≠ '.' := by
  unfold mark
  split
  · simp [entryMark]
  · split
    · simp only
      split
      · simp
      · simp [Text.commentMark]
    · rw [hu.marker]
      simp

lemma writtenLine_mark {u : LogicalLine} (hu : u.ReadFrom d format file text) (debugging : Bool)
    (indent : Nat) :
    WrittenLine ((Text.spaces indent ++ (u.mark debugging).marker).map fun c => (c, none))
      (u.mark debugging).body := by
  constructor
  · intro x hx
    obtain ⟨c, hc, rfl⟩ := List.mem_map.mp hx
    refine ⟨rfl, ?_⟩
    rcases List.mem_append.mp hc with hc | hc
    · rw [List.eq_of_mem_replicate hc]
      decide
    · exact marker_of_mark hu debugging c hc
  · intro x hx hnewline
    have hmem : x.1 ∈ (u.mark debugging).body.map (·.1) := List.mem_map_of_mem hx
    rw [map_body, content, segments_mark, hnewline] at hmem
    obtain ⟨s, hs, hmem⟩ := List.mem_flatMap.mp hmem
    exact newline_not_mem_segment (hu.segments s hs) hmem
  · rintro ⟨x, hx, hcomment⟩ y hy
    rw [isComment_body hx] at hcomment
    rw [isComment_body hy, hcomment]
  · rintro ⟨x, hx, hcomment⟩
    rw [isComment_body hx] at hcomment
    rw [trimLeft_written]
    exact commentMark_prefix_of_mark hu debugging hcomment

end LogicalLine

lemma SourceUnit.writtenText {r : LineRules} {name : String} {text : List Char}
    {unit : SourceUnit} (h : SourceUnit.read r name text = .ok unit) :
    WrittenText unit.written.trace := by
  obtain ⟨hwritten, hlines⟩ := SourceUnit.lines_of_read h
  rw [hwritten, LogicalLine.trace_write]
  generalize unit.lines = lines at hlines
  induction lines with
  | nil => exact .nil
  | cons l lines ih =>
    obtain ⟨u, hu, rfl⟩ := hlines l (by simp)
    rw [List.flatMap_cons, LogicalLine.trace_fragments, List.append_assoc]
    exact .line (LogicalLine.writtenLine_mark hu r.debugging _)
      (ih fun v hv => hlines v (by simp [hv]))

end CobolText
