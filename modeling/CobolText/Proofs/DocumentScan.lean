import CobolText.Directive.Item
import CobolText.Proofs.Tiling

/-!
# The reading of a document step by step

A document is read from token to token: each step looks at the token where the reading stands and
goes on where the statement that the token starts comes to an end.  The steps never leave the text,
and the passages they make up (text that is kept, statements that are left out and directives) lie
end to end.  A directive ends just behind a period.
-/

namespace CobolText

namespace Token

/-- Whether a token is one that is found in a text where it says. -/
def FoundIn (text : List Char) (t : Token) : Prop :=
  ∃ pseudo rest, next? pseudo t.start (text.drop t.start) = some (t, rest)

lemma foundIn_of_next? {pseudo : Bool} {pos : Nat} {text rest : List Char} {t : Token}
    (h : next? pseudo pos (text.drop pos) = some (t, rest)) :
    t.FoundIn text ∧ t.start = pos ∧ rest = text.drop t.stop := by
  have hstart := (next?_eq_some h).1
  refine ⟨⟨pseudo, rest, ?_⟩, hstart, (drop_stop_of_next? h).1⟩
  rw [hstart]
  exact h

lemma FoundIn.bounds {text : List Char} {t : Token} (h : t.FoundIn text) :
    t.start < t.stop ∧ t.stop ≤ text.length := by
  obtain ⟨pseudo, rest, h⟩ := h
  have hpos := (next?_eq_some h).2.1
  exact ⟨by rw [stop]; omega, (drop_stop_of_next? h).2⟩

/-- The characters of a token are those of the text. -/
lemma FoundIn.getElem? {text : List Char} {t : Token} (h : t.FoundIn text) {i : Nat}
    (hi : i < t.text.length) : text[t.start + i]? = t.text[i]? := by
  obtain ⟨pseudo, rest, h⟩ := h
  rw [← List.getElem?_drop, ← (next?_eq_some h).2.2, List.getElem?_append_left hi]

lemma text_of_period {pseudo : Bool} {pos : Nat} {s rest : List Char} {t : Token}
    (h : next? pseudo pos s = some (t, rest)) (hk : t.kind = .period) : t.text = ['.'] := by
  cases s with
  | nil => simp [next?] at h
  | cons c cs =>
    simp only [next?, Option.some.injEq, Prod.mk.injEq] at h
    obtain ⟨rfl, -⟩ := h
    simp only [Lexer.measure] at hk ⊢
    repeat' split at hk
    all_goals simp_all

lemma FoundIn.period {text : List Char} {t : Token} (h : t.FoundIn text) (hk : t.kind = .period) :
    text[t.stop - 1]? = some '.' := by
  obtain ⟨pseudo, rest, hnext⟩ := id h
  have htext := text_of_period hnext hk
  have hchar := h.getElem? (show 0 < t.text.length by simp [htext])
  rw [stop, htext]
  simpa [htext] using hchar

lemma nextSignificant?_eq_some {pseudo : Bool} {pos : Nat} {text rest : List Char} {t : Token}
    (h : nextSignificant? pseudo pos (text.drop pos) = some (t, rest)) :
    t.FoundIn text ∧ pos ≤ t.start ∧ rest = text.drop t.stop := by
  generalize hs : text.drop pos = s at h
  fun_induction nextSignificant? pseudo pos s with
  | case1 => simp at h
  | case2 pos s u urest hnext hblank ih =>
    rw [← hs] at hnext
    obtain ⟨hfound, hstart, hrest⟩ := foundIn_of_next? hnext
    obtain ⟨h1, h2, h3⟩ := ih hrest.symm h
    have := hfound.bounds
    exact ⟨h1, by omega, h3⟩
  | case3 pos s u urest hnext hblank =>
    rw [← hs] at hnext
    simp only [Option.some.injEq, Prod.mk.injEq] at h
    obtain ⟨rfl, rfl⟩ := h
    obtain ⟨hfound, hstart, hrest⟩ := foundIn_of_next? hnext
    exact ⟨hfound, by omega, hrest⟩

end Token

namespace Directive

/-- Whether a sentence that goes on after `pos` ends at `stop`, just behind a period. -/
structure EndsAt (text : List Char) (pos stop : Nat) : Prop where
  after : pos < stop
  inside : stop ≤ text.length
  period : text[stop - 1]? = some '.'

lemma mem_sentence {pos : Nat} {text : List Char} {t : Token}
    (h : t ∈ sentence pos (text.drop pos)) : t.FoundIn text ∧ pos ≤ t.start := by
  generalize hs : text.drop pos = s at h
  fun_induction sentence pos s with
  | case1 => simp at h
  | case2 pos s u rest hnext hblank ih =>
    rw [← hs] at hnext
    obtain ⟨hfound, hstart, hrest⟩ := Token.foundIn_of_next? hnext
    obtain ⟨h1, h2⟩ := ih hrest.symm h
    have := hfound.bounds
    exact ⟨h1, by omega⟩
  | case3 pos s u rest hnext hblank hperiod =>
    rw [← hs] at hnext
    obtain ⟨hfound, hstart, -⟩ := Token.foundIn_of_next? hnext
    rw [List.mem_singleton.mp h]
    exact ⟨hfound, by omega⟩
  | case4 pos s u rest hnext hblank hperiod ih =>
    rw [← hs] at hnext
    obtain ⟨hfound, hstart, hrest⟩ := Token.foundIn_of_next? hnext
    rcases List.mem_cons.mp h with rfl | h
    · exact ⟨hfound, by omega⟩
    · obtain ⟨h1, h2⟩ := ih hrest.symm h
      have := hfound.bounds
      exact ⟨h1, by omega⟩

/-- Whether a directive read from tokens ends with one that is a period. -/
def ClosedBy (ts : List Token) (stop : Nat) : Prop :=
  ∃ t ∈ ts, t.kind = .period ∧ t.stop = stop

lemma ClosedBy.cons {ts : List Token} {stop : Nat} (h : ClosedBy ts stop) (t : Token) :
    ClosedBy (t :: ts) stop := by
  obtain ⟨u, hu, h⟩ := h
  exact ⟨u, List.mem_cons_of_mem t hu, h⟩

/-- A directive whose tokens form a sentence ends with the sentence. -/
lemma ClosedBy.endsAt {pos stop : Nat} {text : List Char}
    (h : ClosedBy (sentence pos (text.drop pos)) stop) : EndsAt text pos stop := by
  obtain ⟨t, ht, hkind, rfl⟩ := h
  obtain ⟨hfound, hle⟩ := mem_sentence ht
  have hbounds := hfound.bounds
  exact ⟨by omega, hbounds.2, hfound.period hkind⟩

lemma pairs_closedBy {ts : List Token} {rs : List ReplacementRule} {stop : Nat}
    (h : pairs ts = .ok (rs, stop)) : ClosedBy ts stop := by
  fun_induction pairs ts generalizing rs stop with
  | case2 t ts hperiod =>
    simp only [Except.ok.injEq, Prod.mk.injEq] at h
    exact ⟨t, by simp, by simpa using hperiod, h.2⟩
  | case10 =>
    rename_i t _ _ _ b _ _ r ts _ _ _ _ _ _ _ _ hpairs ih
    simp only [Except.ok.injEq, Prod.mk.injEq] at h
    rw [← h.2]
    exact (((ih hpairs).cons r).cons b).cons t
  | _ => simp_all

lemma rules_closedBy {ts : List Token} {rs : List ReplacementRule} {stop : Nat}
    (h : rules ts = .ok (rs, stop)) : ClosedBy ts stop := by
  unfold rules at h
  split at h
  · simp at h
  · exact pairs_closedBy h

lemma closing_closedBy {change effect : RuleChange} {ts : List Token} {stop : Nat}
    (h : closing change ts = .ok (effect, stop)) : ClosedBy ts stop := by
  cases ts with
  | nil => simp [closing] at h
  | cons t ts =>
    simp only [closing] at h
    split at h
    · rename_i hperiod
      simp only [Except.ok.injEq, Prod.mk.injEq] at h
      exact ⟨t, by simp, by simpa using hperiod, h.2⟩
    · simp at h

lemma copyTail_closedBy {name : String} {library : Option String} {ts : List Token}
    {clause : CopyClause} {stop : Nat} (h : copyTail name library ts = .ok (clause, stop)) :
    ClosedBy ts stop := by
  have hdrop : ∀ us, ClosedBy us stop →
      us = (if ts.head?.any fun t => t.isWord ["SUPPRESS"] then ts.drop 1 else ts) →
      ClosedBy ts stop := by
    rintro us ⟨u, hu, hclosed⟩ rfl
    refine ⟨u, ?_, hclosed⟩
    split at hu
    · exact List.mem_of_mem_drop hu
    · exact hu
  unfold copyTail at h
  simp only at h
  split at h
  · simp at h
  · rename_i t us hus
    apply hdrop (t :: us) _ hus.symm
    split at h
    · split at h
      · rename_i rs last hrules
        simp only [Except.ok.injEq, Prod.mk.injEq] at h
        rw [← h.2]
        exact (rules_closedBy hrules).cons t
      · simp at h
    · split at h
      · rename_i hperiod
        simp only [Except.ok.injEq, Prod.mk.injEq] at h
        exact ⟨t, by simp, by simpa using hperiod, h.2⟩
      · simp at h

lemma map_ok_eq_ok {α β : Type} {x : Except Defect α} {f : α → β} {b : β}
    (h : x.map f = .ok b) : ∃ a, x = .ok a ∧ f a = b := by
  cases x with
  | error e => simp [Except.map] at h
  | ok a => exact ⟨a, rfl, Except.ok.inj h⟩

lemma ruleChange_endsAt {pos stop : Nat} {text : List Char} {effect : RuleChange}
    (h : ruleChange pos (text.drop pos) = .ok (effect, stop)) : EndsAt text pos stop := by
  apply ClosedBy.endsAt
  unfold ruleChange at h
  split at h
  · simp at h
  · rename_i t ts hsentence
    rw [hsentence]
    split at h
    · obtain ⟨⟨rs, last⟩, hrules, heq⟩ := map_ok_eq_ok h
      simp only [Prod.mk.injEq] at heq
      rw [← heq.2]
      exact (rules_closedBy hrules).cons t
    · split at h
      · exact (closing_closedBy h).cons t
      · split at h
        · split at h
          · simp at h
          · rename_i o us
            split at h
            · exact ((closing_closedBy h).cons o).cons t
            · simp at h
        · obtain ⟨⟨rs, last⟩, hrules, heq⟩ := map_ok_eq_ok h
          simp only [Prod.mk.injEq] at heq
          rw [← heq.2]
          exact rules_closedBy hrules

lemma EndsAt.of_le {text : List Char} {pos after stop : Nat} (h : EndsAt text after stop)
    (hle : pos ≤ after) : EndsAt text pos stop :=
  ⟨by have := h.after; omega, h.inside, h.period⟩

lemma copyClause_endsAt {pos stop : Nat} {text : List Char} {clause : CopyClause}
    (h : copyClause pos (text.drop pos) = .ok (clause, stop)) : EndsAt text pos stop := by
  unfold copyClause at h
  split at h
  · simp at h
  · rename_i t rest hname
    obtain ⟨hfound, hle, rfl⟩ := Token.nextSignificant?_eq_some hname
    have hbounds := hfound.bounds
    refine EndsAt.of_le ?_ (show pos ≤ t.stop by omega)
    split at h
    · simp at h
    · unfold copyAfterName at h
      simp only at h
      split at h
      · simp at h
      · rename_i u us hsentence
        split at h
        · have hmem : u ∈ sentence t.stop (text.drop t.stop) := by simp [hsentence]
          have hu := mem_sentence hmem
          have hubounds := hu.1.bounds
          rw [List.drop_drop, show t.stop + (u.stop - t.stop) = u.stop by omega] at h
          split at h
          · simp at h
          · rename_i l lrest hlibrary
            obtain ⟨hlfound, hlle, rfl⟩ := Token.nextSignificant?_eq_some hlibrary
            have hlbounds := hlfound.bounds
            split at h
            · simp at h
            · exact (copyTail_closedBy h).endsAt.of_le (by omega)
        · exact (copyTail_closedBy h).endsAt

end Directive

namespace Item

lemma endOfExec?_bounds {pos stop : Nat} {text : List Char}
    (h : endOfExec? pos (text.drop pos) = some stop) : pos < stop ∧ stop ≤ text.length := by
  generalize hs : text.drop pos = s at h
  fun_induction endOfExec? pos s with
  | case1 => simp at h
  | case2 pos s t rest hnext hword =>
    rw [← hs] at hnext
    obtain ⟨hfound, hstart, -⟩ := Token.foundIn_of_next? hnext
    have := hfound.bounds
    have := Option.some.inj h
    omega
  | case3 pos s t rest hnext hword ih =>
    rw [← hs] at hnext
    obtain ⟨hfound, hstart, hrest⟩ := Token.foundIn_of_next? hnext
    have := hfound.bounds
    have := ih hrest.symm h
    omega

lemma pastOptional_bounds (kind : TokenKind) {pos : Nat} {text : List Char}
    (hpos : pos ≤ text.length) :
    pos ≤ pastOptional kind pos (text.drop pos) ∧
      pastOptional kind pos (text.drop pos) ≤ text.length := by
  unfold pastOptional
  split
  · rename_i t rest hnext
    obtain ⟨hfound, hle, -⟩ := Token.nextSignificant?_eq_some hnext
    have := hfound.bounds
    split <;> omega
  · omega

lemma endOfListing_bounds {keyword : Token} {text : List Char} (h : keyword.stop ≤ text.length) :
    keyword.stop ≤ endOfListing keyword (text.drop keyword.stop) ∧
      endOfListing keyword (text.drop keyword.stop) ≤ text.length := by
  unfold endOfListing
  simp only
  have htitle := pastOptional_bounds .literal h
  split
  · rw [List.drop_drop, Nat.add_sub_cancel' htitle.1]
    have := pastOptional_bounds .period htitle.2
    omega
  · rw [Nat.sub_self, List.drop_zero]
    exact pastOptional_bounds .period h

namespace Reading

/-- Where the reading goes on, if it does. -/
def stop? : Reading → Option Nat
  | keep stop _ | remove stop | copy _ stop | change _ stop => some stop
  | malformed _ => none

/-- Where a `COPY` or `REPLACE` directive stops. -/
def directiveStop? : Reading → Option Nat
  | copy _ stop | change _ stop => some stop
  | _ => none

/-- Where a statement ends that is not kept as it is. -/
def cutStop? : Reading → Option Nat
  | remove stop | copy _ stop | change _ stop => some stop
  | keep _ _ | malformed _ => none

/-- Whether compiler options may still follow. -/
def optionsAfter (options : Bool) : Reading → Bool
  | keep _ later => later
  | _ => options

lemma stop?_of_directiveStop? {reading : Reading} {stop : Nat}
    (h : reading.directiveStop? = some stop) : reading.stop? = some stop := by
  cases reading with
  | copy clause last => exact h
  | change effect last => exact h
  | _ => simp [directiveStop?] at h

lemma stop?_of_cutStop? {reading : Reading} {stop : Nat} (h : reading.cutStop? = some stop) :
    reading.stop? = some stop := by
  cases reading with
  | keep last later => cases h
  | malformed defect => cases h
  | _ => exact h

end Reading

/-- What a token may be taken for. -/
inductive Keyword where
  | exec
  | copy
  | replace
  | listing
  | option
deriving DecidableEq, Repr

/-- The keyword that a token is taken for, if any; `options` tells whether compiler options may
stand here. -/
def keyword? (d : Dialect) (text : List Char) (options : Bool) (t : Token) : Option Keyword :=
  if t.kind != .word || t.upper == "DIVISION" then none
  else if t.upper == "EXEC" || t.upper == "EXECUTE" then some .exec
  else if d.copyKeywords.contains t.upper then some .copy
  else if d.isReplaceKeyword t.upper then some .replace
  else if !startsLine text t.start then none
  else if d.listingKeywords.contains t.upper then some .listing
  else if options && d.compilerOptionKeywords.contains t.upper then some .option
  else none

lemma keyword?_eq_some {d : Dialect} {text : List Char} {options : Bool} {t : Token} {k : Keyword}
    (h : keyword? d text options t = some k) :
    t.kind = .word ∧ match k with
      | .exec => t.upper = "EXEC" ∨ t.upper = "EXECUTE"
      | .copy => t.upper ∈ d.copyKeywords
      | .replace => d.isReplaceKeyword t.upper = true
      | .listing => t.upper ∈ d.listingKeywords ∧ startsLine text t.start = true
      | .option => t.upper ∈ d.compilerOptionKeywords ∧ startsLine text t.start = true := by
  unfold keyword? at h
  split at h
  · simp at h
  rename_i hword
  have hkind : t.kind = .word := by
    by_contra hne
    simp [hne] at hword
  refine ⟨hkind, ?_⟩
  split at h
  · rename_i hexec
    obtain rfl := Option.some.inj h
    simpa using hexec
  split at h
  · rename_i hcopy
    obtain rfl := Option.some.inj h
    simpa using hcopy
  split at h
  · rename_i hreplace
    obtain rfl := Option.some.inj h
    exact hreplace
  split at h
  · simp at h
  rename_i hstarts
  simp only [Bool.not_eq_true', Bool.not_eq_false] at hstarts
  split at h
  · rename_i hlisting
    obtain rfl := Option.some.inj h
    exact ⟨by simpa using hlisting, hstarts⟩
  split at h
  · rename_i hoption
    obtain rfl := Option.some.inj h
    simp only [Bool.and_eq_true, List.contains_iff_mem] at hoption
    exact ⟨hoption.2, hstarts⟩
  · simp at h

/-- The statement that a keyword starts, where `rest` follows the keyword. -/
def readStatement (t : Token) (rest : List Char) (options : Bool) : Keyword → Reading
  | .exec =>
    match endOfExec? t.stop rest with
    | some stop => .keep stop options
    | none => .malformed .missingEndExec
  | .copy =>
    match Directive.copyClause t.stop rest with
    | .ok (clause, stop) => .copy clause stop
    | .error defect => .malformed defect
  | .replace =>
    match Directive.ruleChange t.stop rest with
    | .ok (effect, stop) => .change effect stop
    | .error defect => .malformed defect
  | .listing => .remove (endOfListing t rest)
  | .option => .remove (t.stop + (rest.takeWhile (· != '\n')).length)

section ReadToken

variable (d : Dialect) (text rest : List Char) (options : Bool) (t : Token)

/-- A token is read as the keyword it is taken for, and any other token is kept. -/
lemma readToken_eq :
    readToken d text options t rest =
      match keyword? d text options t with
      | some k => readStatement t rest options k
      | none => .keep t.stop (options && !(t.kind == .word && t.upper == "DIVISION")) := by
  by_cases hkind : t.kind = .word
  swap
  · simp [readToken, keyword?, hkind]
  by_cases hdivision : t.upper = "DIVISION"
  · simp [readToken, keyword?, hkind, hdivision]
  by_cases hexec : t.upper = "EXEC" ∨ t.upper = "EXECUTE"
  · cases h : endOfExec? t.stop rest <;>
      simp [readToken, keyword?, hkind, hdivision, hexec, readStatement, h]
  by_cases hcopy : t.upper ∈ d.copyKeywords
  · cases h : Directive.copyClause t.stop rest <;>
      simp [readToken, keyword?, hkind, hdivision, hexec, hcopy, readStatement, h]
  by_cases hreplace : d.isReplaceKeyword t.upper = true
  · cases h : Directive.ruleChange t.stop rest <;>
      simp [readToken, keyword?, hkind, hdivision, hexec, hcopy, hreplace, readStatement, h]
  by_cases hstarts : startsLine text t.start = true
  swap
  · simp [readToken, keyword?, hkind, hdivision, hexec, hcopy, hreplace, hstarts]
  by_cases hlisting : t.upper ∈ d.listingKeywords
  · simp [readToken, keyword?, hkind, hdivision, hexec, hcopy, hreplace, hstarts, hlisting,
      readStatement]
  by_cases hoption : options = true ∧ t.upper ∈ d.compilerOptionKeywords
  · simp [readToken, keyword?, hkind, hdivision, hexec, hcopy, hreplace, hstarts, hlisting, hoption,
      readStatement]
  · simp [readToken, keyword?, hkind, hdivision, hexec, hcopy, hreplace, hstarts, hlisting, hoption]

/-- What is not kept as it is stands behind a keyword. -/
lemma keyword?_ne_none (h : ∀ stop later, readToken d text options t rest ≠ .keep stop later) :
    keyword? d text options t ≠ none := by
  intro hk
  rw [readToken_eq, hk] at h
  exact h _ _ rfl

variable {d text rest options t}

/-- What is kept is at most an `EXEC` block. -/
lemma keyword?_of_keep {stop : Nat} {later : Bool}
    (h : readToken d text options t rest = .keep stop later) :
    keyword? d text options t = none ∨ keyword? d text options t = some .exec := by
  rw [readToken_eq] at h
  cases hk : keyword? d text options t with
  | none => exact .inl rfl
  | some k =>
    cases k with
    | exec => exact .inr rfl
    | copy | replace =>
      simp only [hk, readStatement] at h
      split at h <;> cases h
    | listing | option => simp [hk, readStatement] at h

lemma stop_bounds (ht : t.FoundIn text) {stop : Nat}
    (h : (readToken d text options t (text.drop t.stop)).stop? = some stop) :
    t.stop ≤ stop ∧ stop ≤ text.length := by
  have hbounds := ht.bounds
  rw [readToken_eq] at h
  split at h
  · rename_i k hk
    cases k with
    | exec =>
      simp only [readStatement] at h
      split at h
      · rename_i last hlast
        have := endOfExec?_bounds hlast
        have := Option.some.inj h
        omega
      · simp [Reading.stop?] at h
    | copy =>
      simp only [readStatement] at h
      split at h
      · rename_i clause last hclause
        have hends := Directive.copyClause_endsAt hclause
        rw [← Option.some.inj h]
        exact ⟨Nat.le_of_lt hends.after, hends.inside⟩
      · simp [Reading.stop?] at h
    | replace =>
      simp only [readStatement] at h
      split at h
      · rename_i effect last heffect
        have hends := Directive.ruleChange_endsAt heffect
        rw [← Option.some.inj h]
        exact ⟨Nat.le_of_lt hends.after, hends.inside⟩
      · simp [Reading.stop?] at h
    | listing =>
      rw [← Option.some.inj h]
      exact endOfListing_bounds hbounds.2
    | option =>
      have hlen := (List.takeWhile_sublist (· != '\n') (l := text.drop t.stop)).length_le
      rw [List.length_drop] at hlen
      rw [← Option.some.inj h]
      omega
  · rw [← Option.some.inj h]
    exact ⟨Nat.le_refl _, hbounds.2⟩

end ReadToken

/-- A token at which the reading of a document stands, and what is read there. -/
structure Step where
  token : Token
  /-- Whether compiler options may stand at the token. -/
  options : Bool
  reading : Reading

/-- The steps by which a document is read from `pos` on, where `s` is its text there. -/
def stepsFrom (d : Dialect) (text : List Char) (options : Bool) (pos : Nat) (s : List Char) :
    List Step :=
  match _h : Token.next? false pos s with
  | none => []
  | some (t, rest) =>
    let reading := readToken d text options t rest
    match reading.stop? with
    | some stop =>
      ⟨t, options, reading⟩ ::
        stepsFrom d text (reading.optionsAfter options) stop (rest.drop (stop - t.stop))
    | none => [⟨t, options, reading⟩]
termination_by s.length
decreasing_by
  have := Token.length_lt_of_next? _h
  simp only [List.length_drop]
  omega

lemma stepsFrom_of_next? {d : Dialect} {text : List Char} {options : Bool} {pos : Nat}
    {s rest : List Char} {t : Token} (h : Token.next? false pos s = some (t, rest)) :
    stepsFrom d text options pos s =
      match (readToken d text options t rest).stop? with
      | some stop => ⟨t, options, readToken d text options t rest⟩ ::
          stepsFrom d text ((readToken d text options t rest).optionsAfter options) stop
            (rest.drop (stop - t.stop))
      | none => [⟨t, options, readToken d text options t rest⟩] := by
  rw [stepsFrom]
  split
  · simp_all
  · rename_i u urest hnext
    rw [h, Option.some.injEq, Prod.mk.injEq] at hnext
    obtain ⟨rfl, rfl⟩ := hnext
    rfl

/-- The steps by which a document is read. -/
def steps (d : Dialect) (options : Bool) (text : List Char) : List Step :=
  stepsFrom d text options 0 text

/-- Whether steps read a document from `pos` on: each at the token where the one before it goes
on, up to the end of the text or to a directive that cannot be read. -/
inductive Reads (d : Dialect) (text : List Char) : Bool → Nat → List Step → Prop
  | done {options : Bool} : Reads d text options text.length []
  | step {options : Bool} {pos stop : Nat} {t : Token} {steps : List Step}
      (next : Token.next? false pos (text.drop pos) = some (t, text.drop t.stop))
      (goesOn : (readToken d text options t (text.drop t.stop)).stop? = some stop)
      (rest : Reads d text
        ((readToken d text options t (text.drop t.stop)).optionsAfter options) stop steps) :
      Reads d text options pos
        (⟨t, options, readToken d text options t (text.drop t.stop)⟩ :: steps)
  | stuck {options : Bool} {pos : Nat} {t : Token} {defect : Defect}
      (next : Token.next? false pos (text.drop pos) = some (t, text.drop t.stop))
      (malformed : readToken d text options t (text.drop t.stop) = .malformed defect) :
      Reads d text options pos [⟨t, options, .malformed defect⟩]

lemma reads_stepsFrom (d : Dialect) (text : List Char) (options : Bool) {pos : Nat}
    (hpos : pos ≤ text.length) :
    Reads d text options pos (stepsFrom d text options pos (text.drop pos)) := by
  generalize hs : text.drop pos = s
  fun_induction stepsFrom d text options pos s with
  | case1 options pos s hnext =>
    have hnil : s = [] := by
      by_contra hne
      obtain ⟨t, rest, h⟩ := Token.next?_isSome false pos hne
      simp [h] at hnext
    have hlen := congrArg List.length (hs.trans hnil)
    rw [List.length_drop, List.length_nil] at hlen
    rw [show pos = text.length by omega]
    exact .done
  | case2 options pos s t rest hnext reading stop hstop ih =>
    rw [← hs] at hnext
    obtain ⟨hfound, -, rfl⟩ := Token.foundIn_of_next? hnext
    have hbounds := stop_bounds hfound hstop
    refine .step hnext hstop (ih hbounds.2 ?_)
    rw [List.drop_drop, Nat.add_sub_cancel' hbounds.1]
  | case3 options pos s t rest hnext reading hstop =>
    rw [← hs] at hnext
    obtain ⟨-, -, rfl⟩ := Token.foundIn_of_next? hnext
    cases hreading : readToken d text options t (text.drop t.stop) with
    | malformed defect =>
      have heq : reading = .malformed defect := hreading
      rw [heq]
      exact .stuck hnext hreading
    | _ => simp [reading, hreading, Reading.stop?] at hstop

section Reads

variable {d : Dialect} {text : List Char} {options : Bool} {pos : Nat} {steps : List Step}

/-- Every step reads the token it stands at. -/
lemma Reads.next_of_mem (h : Reads d text options pos steps) :
    ∀ s ∈ steps, Token.next? false s.token.start (text.drop s.token.start) =
        some (s.token, text.drop s.token.stop) ∧
      s.reading = readToken d text s.options s.token (text.drop s.token.stop) := by
  induction h with
  | done => simp
  | step next goesOn rest ih =>
    refine List.forall_mem_cons.mpr ⟨⟨?_, rfl⟩, ih⟩
    rw [(Token.next?_eq_some next).1]
    exact next
  | stuck next malformed =>
    refine List.forall_mem_singleton.mpr ⟨?_, malformed.symm⟩
    rw [(Token.next?_eq_some next).1]
    exact next

/-- What holds where the reading starts and is kept by every step holds at every step. -/
lemma Reads.holds_at_steps {P : Nat → Prop} (h : Reads d text options pos steps) (hpos : P pos)
    (hkeeps : ∀ s ∈ steps, P s.token.start → ∀ stop, s.reading.stop? = some stop → P stop) :
    ∀ s ∈ steps, P s.token.start := by
  induction h with
  | done => simp
  | step next goesOn rest ih =>
    rw [List.forall_mem_cons] at hkeeps ⊢
    rw [(Token.next?_eq_some next).1] at hkeeps ⊢
    exact ⟨hpos, ih (hkeeps.1 hpos _ goesOn) hkeeps.2⟩
  | stuck next malformed =>
    rw [List.forall_mem_singleton, (Token.next?_eq_some next).1]
    exact hpos

/-- Reading only goes forward. -/
lemma Reads.le_start (h : Reads d text options pos steps) : ∀ s ∈ steps, pos ≤ s.token.start := by
  have hnext := h.next_of_mem
  apply h.holds_at_steps (Nat.le_refl pos)
  intro s hs hpos stop hstop
  obtain ⟨htoken, hreading⟩ := hnext s hs
  have hfound := (Token.foundIn_of_next? htoken).1
  have hbounds := hfound.bounds
  rw [hreading] at hstop
  have := (stop_bounds hfound hstop).1
  omega

end Reads

end Item

/-- A part of a document and where it lies. -/
inductive Passage where
  /-- Text that is kept. -/
  | kept (start stop : Nat)
  /-- A statement that is left out. -/
  | removed (keyword : Token) (stop : Nat)
  | copy (keyword : Token) (clause : CopyClause) (stop : Nat)
  | change (keyword : Token) (effect : RuleChange) (stop : Nat)
  | malformed (keyword : Token) (defect : Defect)

namespace Passage

/-- Where a passage starts. -/
def start : Passage → Nat
  | kept start _ => start
  | removed keyword _ | copy keyword _ _ | change keyword _ _ | malformed keyword _ => keyword.start

/-- Where a passage stops. -/
def stop : Passage → Nat
  | kept _ stop | removed _ stop | copy _ _ stop | change _ _ stop => stop
  | malformed keyword _ => keyword.stop

/-- The item that stands for a passage; there is none for what is left out. -/
def item? : Passage → Option Item
  | kept start stop => some (.kept start stop)
  | removed _ _ => none
  | copy keyword clause stop => some (.copy keyword clause stop)
  | change _ effect _ => some (.change effect)
  | malformed keyword defect => some (.malformed keyword defect)

/-- The passages that steps from `pos` on make up, where the text from `start` on is kept so
far. -/
def ofSteps (start pos : Nat) : List Item.Step → List Passage
  | [] => [kept start pos]
  | s :: steps =>
    match s.reading with
    | .keep stop _ => ofSteps start stop steps
    | .remove stop => kept start s.token.start :: removed s.token stop :: ofSteps stop stop steps
    | .copy clause stop =>
      kept start s.token.start :: copy s.token clause stop :: ofSteps stop stop steps
    | .change effect stop =>
      kept start s.token.start :: change s.token effect stop :: ofSteps stop stop steps
    | .malformed defect =>
      if defect == .missingEndExec then [malformed s.token defect]
      else [kept start s.token.start, malformed s.token defect]

/-- The passages of a document. -/
def ofText (d : Dialect) (options : Bool) (text : List Char) : List Passage :=
  ofSteps 0 0 (Item.steps d options text)

/-- Whether passages lie end to end from `first` to `last`. -/
def Tile (first : Nat) : List Passage → Nat → Prop
  | [], last => first = last
  | p :: ps, last => p.start = first ∧ p.start ≤ p.stop ∧ Tile p.stop ps last

/-- What makes the text of a passage what it is: a directive is read from its keyword through its
period, and a statement that is left out starts its line with one of the keywords for that. -/
def ReadAs (d : Dialect) (text : List Char) : Passage → Prop
  | kept _ _ => True
  | removed keyword stop => keyword.FoundIn text ∧ keyword.kind = .word ∧
      (keyword.upper ∈ d.listingKeywords ∧
          stop = Item.endOfListing keyword (text.drop keyword.stop) ∨
        keyword.upper ∈ d.compilerOptionKeywords ∧
          stop = keyword.stop + ((text.drop keyword.stop).takeWhile (· != '\n')).length) ∧
      Item.startsLine text keyword.start = true
  | copy keyword clause stop => keyword.FoundIn text ∧ keyword.kind = .word ∧
      keyword.upper ∈ d.copyKeywords ∧
      Directive.copyClause keyword.stop (text.drop keyword.stop) = .ok (clause, stop) ∧
      Directive.EndsAt text keyword.stop stop
  | change keyword effect stop => keyword.FoundIn text ∧ keyword.kind = .word ∧
      d.isReplaceKeyword keyword.upper = true ∧
      Directive.ruleChange keyword.stop (text.drop keyword.stop) = .ok (effect, stop) ∧
      Directive.EndsAt text keyword.stop stop
  | malformed _ _ => True

lemma mem_ofSteps_malformed {start pos : Nat} {t : Token} {options : Bool} {defect : Defect}
    {p : Passage} (h : p ∈ ofSteps start pos [⟨t, options, .malformed defect⟩]) :
    p = kept start t.start ∨ p = malformed t defect := by
  simp only [ofSteps] at h
  split at h
  · exact .inr (List.mem_singleton.mp h)
  · simpa using h

lemma eq_of_kept_mem_malformed {start pos first last : Nat} {t : Token} {options : Bool}
    {defect : Defect} (h : kept first last ∈ ofSteps start pos [⟨t, options, .malformed defect⟩]) :
    first = start ∧ last = t.start := by
  rcases mem_ofSteps_malformed h with heq | heq
  · exact ⟨(kept.inj heq).1, (kept.inj heq).2⟩
  · cases heq

lemma malformed_mem_ofSteps (start pos : Nat) (t : Token) (options : Bool) (defect : Defect) :
    malformed t defect ∈ ofSteps start pos [⟨t, options, .malformed defect⟩] := by
  simp only [ofSteps]
  split <;> simp

lemma itemsFrom_eq (d : Dialect) (text : List Char) (options : Bool) (start pos : Nat)
    (s : List Char) :
    Item.itemsFrom d text options start pos s =
      (ofSteps start pos (Item.stepsFrom d text options pos s)).filterMap item? := by
  fun_induction Item.itemsFrom d text options start pos s with
  | case1 options start pos s hnext =>
    rw [Item.stepsFrom]
    split
    · rfl
    · simp_all
  | case2 options start pos s t rest hnext stop later hread ih =>
    rw [Item.stepsFrom_of_next? hnext, hread, ih]
    rfl
  | case3 options start pos s t rest hnext stop hread ih =>
    rw [Item.stepsFrom_of_next? hnext, hread, ih]
    rfl
  | case4 options start pos s t rest hnext clause stop hread ih =>
    rw [Item.stepsFrom_of_next? hnext, hread, ih]
    rfl
  | case5 options start pos s t rest hnext effect stop hread ih =>
    rw [Item.stepsFrom_of_next? hnext, hread, ih]
    rfl
  | case6 options start pos s t rest hnext defect hread =>
    rw [Item.stepsFrom_of_next? hnext, hread]
    simp only [Item.lastItems, Item.Reading.stop?, ofSteps]
    split <;> rfl

/-- The items of a document are its passages without those that are left out. -/
lemma items_eq (d : Dialect) (options : Bool) (text : List Char) :
    Item.ofText d options text = (ofText d options text).filterMap item? :=
  itemsFrom_eq d text options 0 0 text

/-- Steps that read a document make up passages that lie end to end. -/
lemma tile_ofSteps {d : Dialect} {text : List Char} {options : Bool} {start pos : Nat}
    {steps : List Item.Step} (h : Item.Reads d text options pos steps) (hle : start ≤ pos)
    (hok : ∀ keyword defect, malformed keyword defect ∉ ofSteps start pos steps) :
    Tile start (ofSteps start pos steps) text.length := by
  induction h generalizing start with
  | done => exact ⟨rfl, hle, rfl⟩
  | @step options pos stop t steps next goesOn rest ih =>
    obtain ⟨hfound, hstart, -⟩ := Token.foundIn_of_next? next
    have hbounds := hfound.bounds
    have hstop := Item.stop_bounds hfound goesOn
    -- A statement that is not kept has the text before it in front.
    have hstatement : ∀ p : Passage, p.start = t.start → p.stop = stop →
        ofSteps start pos (⟨t, options, Item.readToken d text options t (text.drop t.stop)⟩ :: steps)
          = kept start t.start :: p :: ofSteps stop stop steps →
        Tile start (kept start t.start :: p :: ofSteps stop stop steps) text.length := by
      intro p h1 h2 heq
      refine ⟨rfl, by simp only [Passage.start, Passage.stop]; omega, h1, by omega, ?_⟩
      rw [h2]
      refine ih (Nat.le_refl _) fun keyword defect hmem => hok keyword defect ?_
      rw [heq]
      exact List.mem_cons_of_mem _ (List.mem_cons_of_mem _ hmem)
    cases hread : Item.readToken d text options t (text.drop t.stop) with
    | keep last later =>
      rw [hread] at goesOn hok
      obtain rfl := Option.some.inj goesOn
      exact ih (by omega) hok
    | remove last =>
      rw [hread] at goesOn hstatement
      obtain rfl := Option.some.inj goesOn
      exact hstatement (removed t last) rfl rfl rfl
    | copy clause last =>
      rw [hread] at goesOn hstatement
      obtain rfl := Option.some.inj goesOn
      exact hstatement (copy t clause last) rfl rfl rfl
    | change effect last =>
      rw [hread] at goesOn hstatement
      obtain rfl := Option.some.inj goesOn
      exact hstatement (change t effect last) rfl rfl rfl
    | malformed defect =>
      rw [hread] at goesOn
      simp [Item.Reading.stop?] at goesOn
  | @stuck options pos t defect next hmalformed =>
    exact absurd (malformed_mem_ofSteps start pos t options defect) (hok t defect)

lemma readAs_of_readToken (d : Dialect) {text : List Char} (options : Bool) {t : Token}
    (ht : t.FoundIn text) :
    match Item.readToken d text options t (text.drop t.stop) with
    | .remove stop => (removed t stop).ReadAs d text
    | .copy clause stop => (copy t clause stop).ReadAs d text
    | .change effect stop => (change t effect stop).ReadAs d text
    | _ => True := by
  rw [Item.readToken_eq]
  cases hk : Item.keyword? d text options t with
  | none => trivial
  | some k =>
    obtain ⟨hkind, hword⟩ := Item.keyword?_eq_some hk
    cases k with
    | exec =>
      simp only [Item.readStatement]
      cases Item.endOfExec? t.stop (text.drop t.stop) <;> trivial
    | copy =>
      simp only [Item.readStatement]
      cases hclause : Directive.copyClause t.stop (text.drop t.stop) with
      | error defect => trivial
      | ok result => exact ⟨ht, hkind, hword, hclause, Directive.copyClause_endsAt hclause⟩
    | replace =>
      simp only [Item.readStatement]
      cases heffect : Directive.ruleChange t.stop (text.drop t.stop) with
      | error defect => trivial
      | ok result => exact ⟨ht, hkind, hword, heffect, Directive.ruleChange_endsAt heffect⟩
    | listing => exact ⟨ht, hkind, .inl ⟨hword.1, rfl⟩, hword.2⟩
    | option => exact ⟨ht, hkind, .inr ⟨hword.1, rfl⟩, hword.2⟩

lemma readAs_ofSteps {d : Dialect} {text : List Char} {options : Bool} {start pos : Nat}
    {steps : List Item.Step} (h : Item.Reads d text options pos steps) :
    ∀ p ∈ ofSteps start pos steps, p.ReadAs d text := by
  induction h generalizing start with
  | done =>
    intro p hp
    rw [List.mem_singleton.mp hp]
    trivial
  | @step options pos stop t steps next goesOn rest ih =>
    have hread := readAs_of_readToken d options (Token.foundIn_of_next? next).1
    simp only [ofSteps]
    generalize Item.readToken d text options t (text.drop t.stop) = reading at goesOn hread
    intro p hp
    cases reading with
    | keep last later =>
      obtain rfl := Option.some.inj goesOn
      exact ih p hp
    | malformed defect => simp [Item.Reading.stop?] at goesOn
    | _ =>
      obtain rfl := Option.some.inj goesOn
      simp only [List.mem_cons] at hp
      rcases hp with rfl | rfl | hp
      · trivial
      · exact hread
      · exact ih p hp
  | stuck next hmalformed =>
    intro p hp
    rcases mem_ofSteps_malformed hp with rfl | rfl <;> trivial

/-- Text that is kept lies between the ends of the text and of statements. -/
lemma kept_cuts {d : Dialect} {text : List Char} {options : Bool} {steps : List Item.Step}
    {P : Nat → Prop} {pos : Nat} (h : Item.Reads d text options pos steps)
    (hend : P text.length)
    (hstarts : ∀ s ∈ steps, Item.keyword? d text s.options s.token ≠ none → P s.token.start)
    (hstops : ∀ s ∈ steps, ∀ stop, s.reading.cutStop? = some stop → P stop)
    {start first last : Nat} (hstart : P start)
    (hmem : kept first last ∈ ofSteps start pos steps) : P first ∧ P last := by
  induction h generalizing start with
  | done =>
    simp only [ofSteps, List.mem_singleton, kept.injEq] at hmem
    rw [hmem.1, hmem.2]
    exact ⟨hstart, hend⟩
  | @step options pos stop t steps next goesOn rest ih =>
    rw [List.forall_mem_cons] at hstarts hstops
    obtain ⟨hkeyword, hstarts⟩ := hstarts
    obtain ⟨hstop, hstops⟩ := hstops
    have hcut := Item.keyword?_ne_none d text (text.drop t.stop) options t
    simp only [ofSteps] at hmem
    generalize Item.readToken d text options t (text.drop t.stop) = reading
      at goesOn hmem hcut hstop
    cases reading with
    | keep stop' later =>
      obtain rfl := Option.some.inj goesOn
      exact ih hstarts hstops hstart hmem
    | malformed defect => simp [Item.Reading.stop?] at goesOn
    | _ =>
      obtain rfl := Option.some.inj goesOn
      simp only [List.mem_cons, kept.injEq, reduceCtorEq, false_or] at hmem
      rcases hmem with ⟨rfl, rfl⟩ | hmem
      · exact ⟨hstart, hkeyword (hcut (by simp))⟩
      · exact ih hstarts hstops (hstop _ rfl) hmem
  | @stuck options pos t defect next hmalformed =>
    obtain ⟨rfl, rfl⟩ := eq_of_kept_mem_malformed hmem
    have hkeyword : Item.keyword? d text options t ≠ none :=
      Item.keyword?_ne_none d text (text.drop t.stop) options t (by simp [hmalformed])
    exact ⟨hstart, hstarts _ (List.mem_singleton_self _) hkeyword⟩

/-- Text that is kept lies behind where reading starts, and in the text. -/
lemma kept_bounds {d : Dialect} {text : List Char} {options : Bool} {pos : Nat}
    {steps : List Item.Step} (h : Item.Reads d text options pos steps) (hpos : pos ≤ text.length)
    {first last : Nat} (hmem : kept first last ∈ ofSteps pos pos steps) :
    pos ≤ first ∧ last ≤ text.length := by
  have hnext := h.next_of_mem
  have hstart := h.le_start
  have hcuts := kept_cuts (P := fun n => pos ≤ n ∧ n ≤ text.length) h ⟨hpos, Nat.le_refl _⟩ ?_ ?_
    ⟨Nat.le_refl _, hpos⟩ hmem
  · exact ⟨hcuts.1.1, hcuts.2.2⟩
  · intro s hs _
    have hbounds := (Token.foundIn_of_next? (hnext s hs).1).1.bounds
    have := hstart s hs
    omega
  · intro s hs stop hcut
    obtain ⟨htoken, hreading⟩ := hnext s hs
    have hfound := (Token.foundIn_of_next? htoken).1
    have hstop := Item.Reading.stop?_of_cutStop? hcut
    rw [hreading] at hstop
    have hbounds := Item.stop_bounds hfound hstop
    have := hfound.bounds
    have := hstart s hs
    omega

/-- Whatever is read inside of text that is kept is kept. -/
lemma keep_of_kept {d : Dialect} {text : List Char} {options : Bool} {start pos : Nat}
    {steps : List Item.Step} (h : Item.Reads d text options pos steps) {first last : Nat}
    (hmem : kept first last ∈ ofSteps start pos steps) {s : Item.Step} (hs : s ∈ steps)
    (hfirst : first ≤ s.token.start) (hlast : s.token.start < last) :
    ∃ stop later, s.reading = .keep stop later := by
  induction h generalizing start with
  | done => simp at hs
  | @step options pos stop t steps next goesOn rest ih =>
    have hfound := (Token.foundIn_of_next? next).1
    have hbounds := hfound.bounds
    have hstop := Item.stop_bounds hfound goesOn
    have hlater := rest.le_start
    simp only [ofSteps] at hmem
    generalize Item.readToken d text options t (text.drop t.stop) = reading
      at goesOn hmem hs rest ih hlater
    cases reading with
    | keep stop' later =>
      obtain rfl := Option.some.inj goesOn
      rcases List.mem_cons.mp hs with rfl | hs
      · exact ⟨_, _, rfl⟩
      · exact ih hmem hs
    | malformed defect => simp [Item.Reading.stop?] at goesOn
    | _ =>
      obtain rfl := Option.some.inj goesOn
      simp only [List.mem_cons, kept.injEq, reduceCtorEq, false_or] at hmem
      rcases hmem with ⟨-, rfl⟩ | hmem
      · -- The text in front of a statement ends where the statement starts.
        rcases List.mem_cons.mp hs with rfl | hs
        · simp at hlast
        · have := hlater s hs
          omega
      · rcases List.mem_cons.mp hs with rfl | hs
        · have := (kept_bounds rest hstop.2 hmem).1
          simp only at hfirst
          omega
        · exact ih hmem hs
  | @stuck options pos t defect next hmalformed =>
    rw [List.mem_singleton.mp hs, (eq_of_kept_mem_malformed hmem).2] at hlast
    simp at hlast

end Passage

end CobolText
