import CobolText.Proofs.FailedRuns

/-!
# The grammar of directives

What the reader of directives accepts, told without the reader: a directive is a beginning of the
tokens that follow its keyword, blanks left out.  The names of a copybook and of its library are
looked for among plain tokens, everything else among tokens that may be pseudo-text.  Reading
accepts exactly these beginnings, and a unit is not expanded beyond a directive that has none.
-/

namespace CobolText

namespace Token

/-- The tokens with a meaning from an offset of a text on. -/
def meaningful (pseudo : Bool) (text : List Char) (pos : Nat) : List Token :=
  (tokens pseudo pos (text.drop pos)).filter fun t => !t.isBlank

lemma filter_tokens (pseudo : Bool) (pos : Nat) (s : List Char) :
    ((tokens pseudo pos s).filter fun t => !t.isBlank) =
      match nextSignificant? pseudo pos s with
      | none => []
      | some (t, rest) => t :: (tokens pseudo t.stop rest).filter fun t => !t.isBlank := by
  fun_induction nextSignificant? pseudo pos s with
  | case1 pos s hnext => simp [tokens_eq, hnext]
  | case2 pos s t rest hnext hblank ih =>
    rw [tokens_eq, hnext]
    simpa [hblank] using ih
  | case3 pos s t rest hnext hblank =>
    rw [tokens_eq, hnext]
    simp [hblank]

section Meaningful

variable {pseudo : Bool} {text : List Char} {pos : Nat} {t : Token} {ts : List Token}

lemma cons_prefix_meaningful :
    t :: ts <+: meaningful pseudo text pos ↔
      nextSignificant? pseudo pos (text.drop pos) = some (t, text.drop t.stop) ∧
        ts <+: meaningful pseudo text t.stop := by
  rw [meaningful, filter_tokens]
  cases hnext : nextSignificant? pseudo pos (text.drop pos) with
  | none => simp
  | some found =>
    obtain ⟨u, rest⟩ := found
    obtain ⟨-, -, rfl⟩ := nextSignificant?_eq_some hnext
    simp only [List.cons_prefix_cons, Option.some.injEq, Prod.mk.injEq]
    constructor
    · rintro ⟨rfl, hts⟩
      exact ⟨⟨rfl, rfl⟩, hts⟩
    · rintro ⟨⟨rfl, -⟩, hts⟩
      exact ⟨rfl, hts⟩

lemma singleton_prefix_meaningful :
    [t] <+: meaningful pseudo text pos ↔
      nextSignificant? pseudo pos (text.drop pos) = some (t, text.drop t.stop) := by
  simp [cons_prefix_meaningful]

lemma drop_stop_of_begins (h : [t] <+: meaningful pseudo text pos) :
    (text.drop pos).drop (t.stop - pos) = text.drop t.stop := by
  obtain ⟨-, hle, -⟩ := nextSignificant?_eq_some (singleton_prefix_meaningful.mp h)
  rw [List.drop_drop, stop]
  congr 1
  omega

end Meaningful

lemma isWord_iff {t : Token} {words : List String} :
    t.isWord words = true ↔ t.kind = .word ∧ t.upper ∈ words := by
  simp [isWord]

end Token

namespace WordPattern

/-- The pattern that a text with words stands for. -/
def ofWords (text : List Char) : WordPattern :=
  ⟨partsFrom false false (Token.tokens false 0 text),
    ((Text.trim text).take 1).any Text.isAlphanumeric⟩

lemma partsFrom_eq_nil_iff (started gap : Bool) (ts : List Token) :
    partsFrom started gap ts = [] ↔ ∀ t ∈ ts, t.isBlank = true := by
  induction ts generalizing started gap with
  | nil => simp [partsFrom]
  | cons t ts ih =>
    rw [partsFrom]
    split
    · rename_i hblank
      simp [ih, hblank]
    · rename_i hblank
      split <;> simp [hblank]

lemma ofText?_eq_some_iff {text : List Char} {words : WordPattern} :
    ofText? text = some words ↔
      (∃ t ∈ Token.tokens false 0 text, t.isBlank = false) ∧ words = ofWords text := by
  have hwords : (∃ t ∈ Token.tokens false 0 text, t.isBlank = false) ↔
      (partsFrom false false (Token.tokens false 0 text)).isEmpty = false := by
    rw [← Bool.not_eq_true, List.isEmpty_iff, partsFrom_eq_nil_iff]
    simp
  rw [hwords, ofText?]
  cases (partsFrom false false (Token.tokens false 0 text)).isEmpty with
  | false => simp [ofWords, eq_comm]
  | true => simp

end WordPattern

namespace Directive

open Token

/-! ### What a directive is made of -/

/-- Whether a token stands for a name. -/
def IsName (t : Token) (name : String) : Prop :=
  (t.kind = .word ∧ name = String.ofList t.text) ∨
    (t.kind = .literal ∧ name = String.ofList t.literalValue)

/-- Whether a token is an operand with the given text; `pseudo` tells whether it is pseudo-text. -/
def IsOperand (t : Token) (text : List Char) (pseudo : Bool) : Prop :=
  (t.kind = .pseudoText ∧ text = Text.trim t.pseudoTextValue ∧ pseudo = true) ∨
    ((t.kind = .word ∨ t.kind = .literal) ∧ text = t.text ∧ pseudo = false)

/-- Whether three tokens are two operands with `BY` between them that make up a rule. -/
structure IsPair (p b r : Token) (rule : ReplacementRule) : Prop where
  pattern : IsOperand p rule.pattern rule.pseudoText
  between : b.isWord ["BY"] = true
  replacement : ∃ pseudo, IsOperand r rule.replacement pseudo
  hasWord : ∃ t ∈ tokens false 0 rule.pattern, t.isBlank = false
  words : rule.words = .ofWords rule.pattern

/-- Whether tokens are pairs of operands and a period that ends at `stop`. -/
inductive ArePairs : List Token → List ReplacementRule → Nat → Prop
  | closed {c : Token} (period : c.kind = .period) : ArePairs [c] [] c.stop
  | pair {p b r : Token} {ts : List Token} {rule : ReplacementRule} {rules : List ReplacementRule}
      {stop : Nat} (first : IsPair p b r rule) (others : ArePairs ts rules stop) :
      ArePairs (p :: b :: r :: ts) (rule :: rules) stop

/-- Whether tokens are what may follow the names of a `COPY` directive and `SUPPRESS`. -/
inductive IsTail : List Token → List ReplacementRule → Nat → Prop
  | closed {c : Token} (period : c.kind = .period) : IsTail [c] [] c.stop
  | replacing {k : Token} {ts : List Token} {rules : List ReplacementRule} {stop : Nat}
      (keyword : k.isWord ["REPLACING"] = true) (pairs : ArePairs ts rules stop)
      (some_pair : rules ≠ []) : IsTail (k :: ts) rules stop

/-- Whether tokens are what may follow the names of a `COPY` directive. -/
inductive IsEnding : List Token → Bool → List ReplacementRule → Nat → Prop
  | plain {ts : List Token} {rules : List ReplacementRule} {stop : Nat}
      (tail : IsTail ts rules stop) : IsEnding ts false rules stop
  | suppress {k : Token} {ts : List Token} {rules : List ReplacementRule} {stop : Nat}
      (keyword : k.isWord ["SUPPRESS"] = true) (tail : IsTail ts rules stop) :
      IsEnding (k :: ts) true rules stop

/-- Whether a text has the rest of a `COPY` directive from `pos` up to `stop`. -/
inductive IsCopy (text : List Char) (pos : Nat) : CopyClause → Nat → Prop
  | unqualified {n : Token} {ts : List Token} {name : String} {suppress : Bool}
      {rules : List ReplacementRule} {stop : Nat}
      (book : [n] <+: meaningful false text pos) (book_name : IsName n name)
      (after : ts <+: meaningful true text n.stop) (ending : IsEnding ts suppress rules stop) :
      IsCopy text pos ⟨name, none, suppress, rules⟩ stop
  | qualified {n k l : Token} {ts : List Token} {name library : String} {suppress : Bool}
      {rules : List ReplacementRule} {stop : Nat}
      (book : [n] <+: meaningful false text pos) (book_name : IsName n name)
      (between : [k] <+: meaningful true text n.stop) (keyword : k.isWord ["OF", "IN"] = true)
      (holder : [l] <+: meaningful false text k.stop) (library_name : IsName l library)
      (after : ts <+: meaningful true text l.stop) (ending : IsEnding ts suppress rules stop) :
      IsCopy text pos ⟨name, some library, suppress, rules⟩ stop

/-- Whether tokens are the rest of a `REPLACE` directive that ends at `stop`. -/
inductive AreChange : List Token → RuleChange → Nat → Prop
  | off {o c : Token} (keyword : o.isWord ["OFF"] = true) (period : c.kind = .period) :
      AreChange [o, c] .off c.stop
  | dropLast {l o c : Token} (first : l.isWord ["LAST"] = true) (keyword : o.isWord ["OFF"] = true)
      (period : c.kind = .period) : AreChange [l, o, c] .dropLast c.stop
  | also {k : Token} {ts : List Token} {rules : List ReplacementRule} {stop : Nat}
      (keyword : k.isWord ["ALSO"] = true) (pairs : ArePairs ts rules stop)
      (some_pair : rules ≠ []) : AreChange (k :: ts) (.also rules) stop
  | only {t : Token} {ts : List Token} {rules : List ReplacementRule} {stop : Nat}
      (operand : t.isWord ["ALSO", "LAST", "OFF"] = false)
      (pairs : ArePairs (t :: ts) rules stop) (some_pair : rules ≠ []) :
      AreChange (t :: ts) (.only rules) stop

/-- Whether the last of some tokens is a period, and no other one is. -/
inductive Closed : List Token → Prop
  | period {c : Token} (period : c.kind = .period) : Closed [c]
  | cons {t : Token} {ts : List Token} (inner : t.kind ≠ .period) (rest : Closed ts) :
      Closed (t :: ts)

lemma sentence_eq (pos : Nat) (s : List Char) :
    sentence pos s = match nextSignificant? true pos s with
      | none => []
      | some (t, rest) => if t.kind == .period then [t] else t :: sentence t.stop rest := by
  fun_induction nextSignificant? true pos s with
  | case1 pos s hnext =>
    rw [sentence]
    split <;> simp_all
  | case2 pos s t rest hnext hblank ih =>
    rw [sentence]
    split <;> simp_all
  | case3 pos s t rest hnext hblank =>
    rw [sentence]
    split <;> simp_all

/-- A sentence is made of the tokens with a meaning, and goes on behind every one of them that is no
period. -/
lemma cons_prefix_sentence {text : List Char} {pos : Nat} {t : Token} {ts : List Token} :
    t :: ts <+: sentence pos (text.drop pos) ↔
      [t] <+: meaningful true text pos ∧
        if t.kind = .period then ts = [] else ts <+: sentence t.stop (text.drop t.stop) := by
  rw [sentence_eq, singleton_prefix_meaningful]
  cases hnext : nextSignificant? true pos (text.drop pos) with
  | none => simp
  | some found =>
    obtain ⟨u, rest⟩ := found
    obtain ⟨-, -, rfl⟩ := nextSignificant?_eq_some hnext
    by_cases hu : u.kind = .period
    · simp only [hu, beq_self_eq_true, if_true, List.cons_prefix_cons, List.prefix_nil]
      grind
    · simp only [beq_iff_eq, hu, if_false, List.cons_prefix_cons]
      grind

lemma singleton_prefix_sentence {text : List Char} {pos : Nat} {t : Token} :
    [t] <+: sentence pos (text.drop pos) ↔ [t] <+: meaningful true text pos := by
  rw [cons_prefix_sentence]
  simp

lemma Closed.prefix_sentence_iff {ts : List Token} (h : Closed ts) {text : List Char} {pos : Nat} :
    ts <+: sentence pos (text.drop pos) ↔ ts <+: meaningful true text pos := by
  induction h generalizing pos with
  | period hperiod => rw [cons_prefix_sentence, if_pos hperiod, and_iff_left rfl]
  | cons hinner hclosed ih =>
    rw [cons_prefix_sentence, if_neg hinner, ih, singleton_prefix_meaningful,
      cons_prefix_meaningful]

/-! ### Operands -/

lemma isName_iff {t : Token} {name : String} : nameOf? t = some name ↔ IsName t name := by
  unfold nameOf? IsName
  cases t.kind <;> simp [eq_comm]

lemma isOperand_iff {t : Token} {text : List Char} {pseudo : Bool} :
    operand? t = some (text, pseudo) ↔ IsOperand t text pseudo := by
  unfold operand? IsOperand
  cases t.kind <;> simp [eq_comm]

lemma IsOperand.not_period {t : Token} {text : List Char} {pseudo : Bool}
    (h : IsOperand t text pseudo) : t.kind ≠ .period := by
  rcases h with ⟨hkind, -⟩ | ⟨hkind | hkind, -⟩ <;> simp [hkind]

lemma not_period_of_isWord {t : Token} {words : List String} (h : t.isWord words = true) :
    t.kind ≠ .period := by
  simp [(isWord_iff.mp h).1]

lemma make?_eq_some_iff {pattern replacement : List Char} {pseudo : Bool} {rule : ReplacementRule} :
    ReplacementRule.make? pattern replacement pseudo = some rule ↔
      rule.pattern = pattern ∧ rule.replacement = replacement ∧ rule.pseudoText = pseudo ∧
        (∃ t ∈ tokens false 0 rule.pattern, t.isBlank = false) ∧
        rule.words = .ofWords rule.pattern := by
  obtain ⟨p, r, b, words⟩ := rule
  simp only [ReplacementRule.make?, Option.map_eq_some_iff, WordPattern.ofText?_eq_some_iff,
    ReplacementRule.mk.injEq]
  constructor
  · rintro ⟨words, ⟨hword, rfl⟩, rfl, rfl, rfl, rfl⟩
    exact ⟨rfl, rfl, rfl, hword, rfl⟩
  · rintro ⟨rfl, rfl, rfl, hword, rfl⟩
    exact ⟨_, ⟨hword, rfl⟩, rfl, rfl, rfl, rfl⟩

lemma ArePairs.isClosed {ts : List Token} {rules : List ReplacementRule} {stop : Nat}
    (h : ArePairs ts rules stop) : Closed ts := by
  induction h with
  | closed hperiod => exact .period hperiod
  | pair first _ ih =>
    obtain ⟨_, hreplacement⟩ := first.replacement
    apply Closed.cons first.pattern.not_period
    apply Closed.cons (not_period_of_isWord first.between)
    exact .cons hreplacement.not_period ih

/-- Two operands with `BY` between them are read as a rule. -/
lemma pairs_cons {p b r : Token} {ts : List Token} {rule : ReplacementRule}
    (h : IsPair p b r rule) :
    pairs (p :: b :: r :: ts) =
      (pairs ts).map fun (rules, stop) => (rule :: rules, stop) := by
  obtain ⟨_, hreplacement⟩ := h.replacement
  have hmake : ReplacementRule.make? rule.pattern rule.replacement rule.pseudoText = some rule :=
    make?_eq_some_iff.mpr ⟨rfl, rfl, rfl, h.hasWord, h.words⟩
  rw [pairs.eq_def]
  simp only [beq_iff_eq, h.pattern.not_period, if_false, isOperand_iff.mpr h.pattern,
    h.between, Bool.not_true, Bool.false_eq_true, hreplacement.not_period,
    isOperand_iff.mpr hreplacement, hmake]
  cases pairs ts <;> rfl

lemma pairs_eq_ok_iff {ts : List Token} {rules : List ReplacementRule} {stop : Nat} :
    pairs ts = .ok (rules, stop) ↔ ∃ us, us <+: ts ∧ ArePairs us rules stop := by
  constructor
  · intro h
    fun_induction pairs ts generalizing rules stop with
    | case2 t ts hperiod =>
      simp only [Except.ok.injEq, Prod.mk.injEq] at h
      obtain ⟨rfl, rfl⟩ := h
      exact ⟨[t], by simp, .closed (by simpa using hperiod)⟩
    | case10 =>
      rename_i t _ pattern pseudo b hpattern hby r ts _ replacement flag hreplacement rule hmake rs
        last hpairs ih
      simp only [Except.ok.injEq, Prod.mk.injEq] at h
      obtain ⟨rfl, rfl⟩ := h
      obtain ⟨us, hprefix, harepairs⟩ := ih hpairs
      obtain ⟨rfl, rfl, rfl, hword, hwords⟩ := make?_eq_some_iff.mp hmake
      refine ⟨t :: b :: r :: us, ?_, .pair ⟨?_, ?_, ?_, hword, hwords⟩ harepairs⟩
      · simpa only [List.prefix_cons_inj] using hprefix
      · exact isOperand_iff.mp hpattern
      · simpa using hby
      · exact ⟨flag, isOperand_iff.mp hreplacement⟩
    | _ => simp_all
  · rintro ⟨us, ⟨rest, rfl⟩, h⟩
    induction h with
    | closed hperiod =>
      rw [List.singleton_append, pairs.eq_def]
      simp [hperiod]
    | pair first _ ih =>
      rw [List.cons_append, List.cons_append, List.cons_append, pairs_cons first, ih]
      rfl

lemma rules_eq_ok_iff {ts : List Token} {rs : List ReplacementRule} {stop : Nat} :
    rules ts = .ok (rs, stop) ↔ (∃ us, us <+: ts ∧ ArePairs us rs stop) ∧ rs ≠ [] := by
  rw [← pairs_eq_ok_iff, rules]
  cases hpairs : pairs ts with
  | error e => simp
  | ok result =>
    obtain ⟨found, last⟩ := result
    cases found with
    | nil =>
      simp only [reduceCtorEq, false_iff, Except.ok.injEq, Prod.mk.injEq]
      grind
    | cons rule others =>
      simp only [Except.ok.injEq, Prod.mk.injEq]
      grind

/-! ### `COPY` -/

lemma IsTail.isClosed {ts : List Token} {rules : List ReplacementRule} {stop : Nat}
    (h : IsTail ts rules stop) : Closed ts := by
  cases h with
  | closed hperiod => exact .period hperiod
  | replacing hkeyword hpairs _ => exact .cons (not_period_of_isWord hkeyword) hpairs.isClosed

lemma IsEnding.isClosed {ts : List Token} {suppress : Bool} {rules : List ReplacementRule}
    {stop : Nat} (h : IsEnding ts suppress rules stop) : Closed ts := by
  cases h with
  | plain htail => exact htail.isClosed
  | suppress hkeyword htail => exact .cons (not_period_of_isWord hkeyword) htail.isClosed

/-- Reads what follows `SUPPRESS`, or the names if it is left out. -/
def tail (name : String) (library : Option String) (suppress : Bool) :
    List Token → Except Defect (CopyClause × Nat)
  | [] => .error .missingPeriod
  | t :: ts =>
    if t.isWord ["REPLACING"] then
      match rules ts with
      | .ok (rules, stop) => .ok (⟨name, library, suppress, rules⟩, stop)
      | .error e => .error e
    else if t.kind == .period then .ok (⟨name, library, suppress, []⟩, t.stop)
    else .error (.unexpected t.text)

section Tail

variable {name : String} {library : Option String} {suppress : Bool} {ts : List Token}
  {clause : CopyClause} {stop : Nat}

lemma copyTail_eq (name : String) (library : Option String) (ts : List Token) :
    copyTail name library ts =
      match ts with
      | [] => .error .missingPeriod
      | t :: us =>
        if t.isWord ["SUPPRESS"] then tail name library true us
        else tail name library false (t :: us) := by
  cases ts with
  | nil => rfl
  | cons t us =>
    by_cases hsuppress : t.isWord ["SUPPRESS"] = true
    · simp only [copyTail, List.head?_cons, Option.any_some, hsuppress, if_true,
        List.drop_succ_cons, List.drop_zero]
      cases us <;> rfl
    · simp only [copyTail, List.head?_cons, Option.any_some, hsuppress, Bool.false_eq_true,
        if_false]
      rfl

lemma tail_eq_ok_iff :
    tail name library suppress ts = .ok (clause, stop) ↔
      ∃ us rules, us <+: ts ∧ IsTail us rules stop ∧ clause = ⟨name, library, suppress, rules⟩ := by
  constructor
  · intro h
    unfold tail at h
    split at h
    · cases h
    rename_i t ts
    split at h
    · rename_i hreplacing
      split at h
      · rename_i rs last hrules
        simp only [Except.ok.injEq, Prod.mk.injEq] at h
        obtain ⟨rfl, rfl⟩ := h
        obtain ⟨⟨us, hprefix, hpairs⟩, hsome⟩ := rules_eq_ok_iff.mp hrules
        refine ⟨t :: us, rs, ?_, .replacing hreplacing hpairs hsome, rfl⟩
        exact List.cons_prefix_cons.mpr ⟨rfl, hprefix⟩
      · cases h
    split at h
    · rename_i hperiod
      simp only [Except.ok.injEq, Prod.mk.injEq] at h
      obtain ⟨rfl, rfl⟩ := h
      exact ⟨[t], [], by simp, .closed (by simpa using hperiod), rfl⟩
    · cases h
  · rintro ⟨_, rs, ⟨rest, rfl⟩, htail, rfl⟩
    cases htail with
    | @closed c hperiod =>
      have hword : c.isWord ["REPLACING"] = false := by
        rw [Bool.eq_false_iff]
        exact fun hword => not_period_of_isWord hword hperiod
      simp [tail, hword, hperiod]
    | replacing hkeyword hpairs hsome =>
      have hrules := rules_eq_ok_iff.mpr ⟨⟨_, List.prefix_append _ rest, hpairs⟩, hsome⟩
      simp [tail, hkeyword, hrules]

/-- The rest of a directive behind `SUPPRESS` does not start with that word. -/
lemma IsTail.not_suppress {t : Token} {rules : List ReplacementRule}
    (h : IsTail (t :: ts) rules stop) : ¬t.isWord ["SUPPRESS"] = true := by
  intro hsuppress
  cases h with
  | closed hperiod => exact not_period_of_isWord hsuppress hperiod
  | replacing hkeyword _ _ =>
    have hupper := (isWord_iff.mp hsuppress).2
    have hother := (isWord_iff.mp hkeyword).2
    simp_all

lemma copyTail_eq_ok_iff :
    copyTail name library ts = .ok (clause, stop) ↔
      ∃ us suppress rules, us <+: ts ∧ IsEnding us suppress rules stop ∧
        clause = ⟨name, library, suppress, rules⟩ := by
  rw [copyTail_eq]
  constructor
  · intro h
    split at h
    · cases h
    rename_i t us
    split at h
    · rename_i hsuppress
      obtain ⟨vs, rs, hprefix, htail, rfl⟩ := tail_eq_ok_iff.mp h
      exact ⟨t :: vs, true, rs, List.cons_prefix_cons.mpr ⟨rfl, hprefix⟩,
        .suppress hsuppress htail, rfl⟩
    · obtain ⟨vs, rs, hprefix, htail, rfl⟩ := tail_eq_ok_iff.mp h
      exact ⟨vs, false, rs, hprefix, .plain htail, rfl⟩
  · rintro ⟨us, suppress, rs, ⟨rest, rfl⟩, hending, rfl⟩
    cases hending with
    | plain htail =>
      have hread : tail name library false (us ++ rest) = .ok (⟨name, library, false, rs⟩, stop) :=
        tail_eq_ok_iff.mpr ⟨us, rs, List.prefix_append us rest, htail, rfl⟩
      cases us with
      | nil => cases htail
      | cons t us => simpa [htail.not_suppress] using hread
    | @suppress k us _ _ hkeyword htail =>
      have hread : tail name library true (us ++ rest) = .ok (⟨name, library, true, rs⟩, stop) :=
        tail_eq_ok_iff.mpr ⟨us, rs, List.prefix_append us rest, htail, rfl⟩
      simpa [hkeyword] using hread

end Tail

/-- What follows the names does not start with a word that introduces a library. -/
lemma IsEnding.not_library {t : Token} {ts : List Token} {suppress : Bool}
    {rules : List ReplacementRule} {stop : Nat} (h : IsEnding (t :: ts) suppress rules stop) :
    ¬t.isWord ["OF", "IN"] = true := by
  intro hlibrary
  have hupper := (isWord_iff.mp hlibrary).2
  cases h with
  | plain htail =>
    cases htail with
    | closed hperiod => exact not_period_of_isWord hlibrary hperiod
    | replacing hkeyword _ _ =>
      have hother := (isWord_iff.mp hkeyword).2
      simp_all
  | suppress hkeyword _ =>
    have hother := (isWord_iff.mp hkeyword).2
    simp_all

section Statement

variable {text : List Char} {pos stop : Nat}

/-- The ending of a directive is read from the sentence that it stands in. -/
lemma copyTail_sentence {name : String} {library : Option String} {clause : CopyClause} :
    copyTail name library (sentence pos (text.drop pos)) = .ok (clause, stop) ↔
      ∃ us suppress rules, us <+: meaningful true text pos ∧ IsEnding us suppress rules stop ∧
        clause = ⟨name, library, suppress, rules⟩ := by
  rw [copyTail_eq_ok_iff]
  constructor
  · rintro ⟨us, suppress, rs, hprefix, hending, hclause⟩
    exact ⟨us, suppress, rs, hending.isClosed.prefix_sentence_iff.mp hprefix, hending, hclause⟩
  · rintro ⟨us, suppress, rs, hprefix, hending, hclause⟩
    exact ⟨us, suppress, rs, hending.isClosed.prefix_sentence_iff.mpr hprefix, hending, hclause⟩

/-- What follows the name of a copybook is its library with an ending, or an ending alone. -/
lemma copyAfterName_eq_ok_iff {name : String} {clause : CopyClause} :
    copyAfterName name pos (text.drop pos) = .ok (clause, stop) ↔
      (∃ us suppress rules, us <+: meaningful true text pos ∧ IsEnding us suppress rules stop ∧
        clause = ⟨name, none, suppress, rules⟩) ∨
      ∃ k l library us suppress rules, [k] <+: meaningful true text pos ∧
        k.isWord ["OF", "IN"] = true ∧ [l] <+: meaningful false text k.stop ∧ IsName l library ∧
        us <+: meaningful true text l.stop ∧ IsEnding us suppress rules stop ∧
        clause = ⟨name, some library, suppress, rules⟩ := by
  constructor
  · intro h
    unfold copyAfterName at h
    simp only at h
    split at h
    · cases h
    rename_i k ts hsentence
    split at h
    · rename_i hkeyword
      right
      have hbetween : [k] <+: meaningful true text pos := by
        rw [← singleton_prefix_sentence, hsentence]
        exact List.prefix_append [k] ts
      rw [drop_stop_of_begins hbetween] at h
      split at h
      · cases h
      rename_i l rest hholder
      obtain ⟨-, -, rfl⟩ := nextSignificant?_eq_some hholder
      split at h
      · cases h
      rename_i library hlibrary
      obtain ⟨us, suppress, rs, hafter, hending, rfl⟩ := copyTail_sentence.mp h
      exact ⟨k, l, library, us, suppress, rs, hbetween, hkeyword,
        singleton_prefix_meaningful.mpr hholder, isName_iff.mp hlibrary, hafter, hending, rfl⟩
    · left
      exact copyTail_sentence.mp h
  · rintro (⟨us, suppress, rs, hafter, hending, rfl⟩ |
      ⟨k, l, library, us, suppress, rs, hbetween, hkeyword, hholder, hlibrary, hafter, hending,
        rfl⟩)
    · have hread : copyTail name none (sentence pos (text.drop pos)) = .ok (_, stop) :=
        copyTail_sentence.mpr ⟨us, suppress, rs, hafter, hending, rfl⟩
      obtain ⟨rest, hsentence⟩ := hending.isClosed.prefix_sentence_iff.mpr hafter
      cases us with
      | nil => cases hending.isClosed
      | cons t us =>
        rw [← hsentence, List.cons_append] at hread
        rw [copyAfterName, ← hsentence, List.cons_append]
        simp only [if_neg hending.not_library]
        exact hread
    · obtain ⟨rest, hsentence⟩ := singleton_prefix_sentence.mpr hbetween
      rw [copyAfterName, ← hsentence, List.singleton_append]
      simp only [if_pos hkeyword, drop_stop_of_begins hbetween,
        singleton_prefix_meaningful.mp hholder, isName_iff.mpr hlibrary]
      exact copyTail_sentence.mpr ⟨us, suppress, rs, hafter, hending, rfl⟩

theorem copyClause_eq_ok_iff {clause : CopyClause} :
    copyClause pos (text.drop pos) = .ok (clause, stop) ↔ IsCopy text pos clause stop := by
  unfold copyClause
  constructor
  · intro h
    split at h
    · cases h
    rename_i n rest hbook
    obtain ⟨-, -, rfl⟩ := nextSignificant?_eq_some hbook
    have hbook := singleton_prefix_meaningful.mpr hbook
    split at h
    · cases h
    rename_i name hname
    have hname := isName_iff.mp hname
    rcases copyAfterName_eq_ok_iff.mp h with
      ⟨us, suppress, rs, hafter, hending, rfl⟩ |
      ⟨k, l, library, us, suppress, rs, hbetween, hkeyword, hholder, hlibrary, hafter, hending, rfl⟩
    · exact .unqualified hbook hname hafter hending
    · exact .qualified hbook hname hbetween hkeyword hholder hlibrary hafter hending
  · rintro (⟨hbook, hname, hafter, hending⟩ |
      ⟨hbook, hname, hbetween, hkeyword, hholder, hlibrary, hafter, hending⟩)
    · rw [singleton_prefix_meaningful.mp hbook]
      simp only [isName_iff.mpr hname]
      exact copyAfterName_eq_ok_iff.mpr (.inl ⟨_, _, _, hafter, hending, rfl⟩)
    · rw [singleton_prefix_meaningful.mp hbook]
      simp only [isName_iff.mpr hname]
      exact copyAfterName_eq_ok_iff.mpr
        (.inr ⟨_, _, _, _, _, _, hbetween, hkeyword, hholder, hlibrary, hafter, hending, rfl⟩)

lemma AreChange.isClosed {ts : List Token} {effect : RuleChange} (h : AreChange ts effect stop) :
    Closed ts := by
  cases h with
  | off hkeyword hperiod => exact .cons (not_period_of_isWord hkeyword) (.period hperiod)
  | dropLast hfirst hkeyword hperiod =>
    exact .cons (not_period_of_isWord hfirst)
      (.cons (not_period_of_isWord hkeyword) (.period hperiod))
  | also hkeyword hpairs _ => exact .cons (not_period_of_isWord hkeyword) hpairs.isClosed
  | only _ hpairs _ => exact hpairs.isClosed

end Statement

/-! ### Defects

A directive lacks no `END-EXEC`. -/

end Directive

namespace Item

end Item

namespace Expansion

open Directive

variable {σ : Type} {files : FileAccess (StateM σ)} {r : RunRules}

namespace Stage

/-- Whether what is left of the unit of a stage is read from the token of a step on, where text is
kept from `start` up to that token. -/
structure StandsAt (r : RunRules) (s : Stage σ) (step : Item.Step) (start : Nat) : Prop where
  mem : step ∈ Item.steps r.dialect (s.stack.length ≤ 1) s.unit.written.text
  items_eq : s.items = Item.itemsFrom r.dialect s.unit.written.text step.options start
    step.token.start (s.unit.written.text.drop step.token.start)

variable {s : Stage σ} {step : Item.Step} {start : Nat}

lemma StandsAt.next (h : s.StandsAt r step start) :
    Token.next? false step.token.start (s.unit.written.text.drop step.token.start) =
      some (step.token, s.unit.written.text.drop step.token.stop) := by
  have hreads := Item.reads_stepsFrom r.dialect s.unit.written.text (s.stack.length ≤ 1)
    (Nat.zero_le _)
  exact (hreads.next_of_mem step h.mem).1

/-- A unit that is just entered is stood at its first token. -/
lemma Entered.standsAt (h : s.Entered r) {t : Token} {rest : List Char}
    (hnext : Token.next? false 0 s.unit.written.text = some (t, rest)) :
    ∃ reading, s.StandsAt r ⟨t, s.stack.length ≤ 1, reading⟩ 0 := by
  have hstart : t.start = 0 := (Token.next?_eq_some hnext).1
  refine ⟨Item.readToken r.dialect s.unit.written.text (s.stack.length ≤ 1) t rest, ?_, ?_⟩
  · rw [Item.steps, Item.stepsFrom_of_next? hnext]
    split <;> exact List.mem_cons_self
  · rw [h, allItems, Item.ofText, hstart]
    rfl

end Stage

end Expansion

end CobolText
