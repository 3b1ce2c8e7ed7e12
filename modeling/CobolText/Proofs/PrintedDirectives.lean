import CobolText.Proofs.DirectiveGrammar

/-!
# Printed directives

A `COPY` directive that is written out, with its names between apostrophes and its operands as
pseudo-text, is read as what was written, wherever it stands in a text.
-/

namespace CobolText

namespace Printed

/-- A name between apostrophes, with its apostrophes doubled. -/
def literal (name : String) : List Char :=
  '\'' :: ((name.toList.flatMap fun c => if c = '\'' then [c, c] else [c]) ++ ['\''])

/-- A text between the delimiters of pseudo-text. -/
def pseudoText (text : List Char) : List Char :=
  '=' :: ('=' :: text ++ ['=', '='])

def library : Option String → List Char
  | none => []
  | some name => ' ' :: 'O' :: 'F' :: ' ' :: literal name

def suppress : Bool → List Char
  | false => []
  | true => [' ', 'S', 'U', 'P', 'P', 'R', 'E', 'S', 'S']

def pair (x : List Char × List Char) : List Char :=
  ' ' :: (pseudoText x.1 ++ ' ' :: 'B' :: 'Y' :: ' ' :: pseudoText x.2)

def replacing : List (List Char × List Char) → List Char
  | [] => []
  | x :: xs =>
    ' ' :: 'R' :: 'E' :: 'P' :: 'L' :: 'A' :: 'C' :: 'I' :: 'N' :: 'G' :: (x :: xs).flatMap pair

/-- A directive with the given names and pairs of operands. -/
def copy (name : String) (lib : Option String) (quiet : Bool)
    (pairs : List (List Char × List Char)) : List Char :=
  'C' :: 'O' :: 'P' :: 'Y' :: ' ' ::
    (literal name ++ (library lib ++ (suppress quiet ++ (replacing pairs ++ ['.']))))

/-- Whether a text can be told from its delimiters: it is trimmed, and the closing delimiter is
found at its end. -/
structure IsOperand (text : List Char) : Prop where
  trimmed : Text.trim text = text
  closed_at_end : ¬['=', '='] <:+: text ++ ['=']

/-- Whether a pair of texts is fit for a rule. -/
structure IsPair (x : List Char × List Char) : Prop where
  pattern : IsOperand x.1
  replacement : IsOperand x.2
  hasWord : ∃ t ∈ Token.tokens false 0 x.1, t.isBlank = false

/-- The rule that a pair of texts stands for. -/
def rule (x : List Char × List Char) : ReplacementRule :=
  ⟨x.1, x.2, true, .ofWords x.1⟩

end Printed

namespace Lexer

/-- Pseudo-text ends where its own text does, if no delimiter is found before. -/
lemma throughPair?_append {text : List Char} (h : ¬['=', '='] <:+: text ++ ['='])
    (rest : List Char) : throughPair? (text ++ '=' :: '=' :: rest) = some (text.length + 2) := by
  induction text with
  | nil => rfl
  | cons a text ih =>
    have hlater : ¬['=', '='] <:+: text ++ ['='] := fun hin =>
      h (hin.trans (List.suffix_cons a _).isInfix)
    -- The delimiter would be found here if it were the next two characters.
    obtain ⟨b, after, hnext, hne⟩ : ∃ b after, text ++ '=' :: '=' :: rest = b :: after ∧
        (a == '=' && b == '=') = false := by
      cases text with
      | nil =>
        refine ⟨'=', _, rfl, ?_⟩
        by_contra ha
        simp_all
      | cons b text =>
        refine ⟨b, _, rfl, ?_⟩
        by_contra hab
        simp only [Bool.not_eq_false, Bool.and_eq_true, beq_iff_eq] at hab
        obtain ⟨rfl, rfl⟩ := hab
        exact h ⟨[], text ++ ['='], by simp⟩
    have hread := ih hlater
    rw [List.cons_append, hnext, throughPair?, hne]
    rw [hnext] at hread
    simp [hread]

/-- A literal ends at the apostrophe that closes it. -/
lemma literalRest_doubled {name rest : List Char} (hname : '\n' ∉ name)
    (hrest : rest.head? ≠ some '\'') :
    literalRest '\'' ((name.flatMap fun c => if c = '\'' then [c, c] else [c]) ++ '\'' :: rest) =
      (name.flatMap fun c => if c = '\'' then [c, c] else [c]).length + 1 := by
  induction name with
  | nil =>
    cases rest with
    | nil => rfl
    | cons d ds => simp_all [literalRest]
  | cons c name ih =>
    rw [List.mem_cons, not_or] at hname
    have hread := ih hname.2
    rw [List.flatMap_cons]
    by_cases hc : c = '\''
    · rw [if_pos hc, hc]
      simp only [List.cons_append, List.nil_append, List.length_cons]
      rw [literalRest]
      simp [hread]
      omega
    · rw [if_neg hc]
      simp only [List.cons_append, List.nil_append, List.length_cons]
      rw [literalRest.eq_def]
      simp [hc, Ne.symm hname.1, hread]
      omega

lemma wordRest_append {word : List Char} (hword : ∀ c ∈ word, isWordChar c = true)
    (rest : List Char) : wordRest (word ++ rest) = word.length + wordRest rest := by
  induction word with
  | nil => simp
  | cons c word ih =>
    rw [List.forall_mem_cons] at hword
    rw [List.cons_append, wordRest.eq_def]
    simp only [hword.1, if_true, ih hword.2, List.length_cons]
    omega

variable {pseudo : Bool}

lemma measure_apostrophe (cs : List Char) :
    measure pseudo '\'' cs = (.literal, literalRest '\'' cs) := by
  cases pseudo <;> cases cs <;> rfl

lemma measure_period (cs : List Char) : measure pseudo '.' cs = (.period, 0) := by
  cases pseudo <;> cases cs <;> rfl

lemma measure_space (cs : List Char) :
    measure pseudo ' ' cs = (.whitespace, (cs.takeWhile isSpace).length) := by
  cases pseudo <;> cases cs <;> rfl

lemma measure_word {c : Char} (hc : isWordChar c = true) (hletter : isLiteralLetter c = false)
    (cs : List Char) : measure pseudo c cs = (.word, wordRest cs) := by
  have hne : ∀ {d}, isWordChar d = false → c ≠ d := by
    rintro d hd rfl
    simp [hc] at hd
  have hpseudo : (if pseudo then pseudoText? c cs else none) = none := by
    have hequals : c ≠ '=' := hne (by decide)
    cases pseudo <;> cases cs <;> simp [pseudoText?, hequals]
  have hcomment : comment? c cs = none := by
    have hstar : c ≠ '*' := hne (by decide)
    simp [comment?, Text.commentMark, List.isPrefixOf, Ne.symm hstar]
  have hquote : Text.isQuote c = false := by
    have h1 : c ≠ '\x27' := hne (by decide)
    have h2 : c ≠ '\x22' := hne (by decide)
    simp [Text.isQuote, h1, h2]
  simp only [measure, hpseudo, hcomment, literal?, hquote, hletter, word?, hc, Bool.false_eq_true,
    if_false, if_true]

/-- Pseudo-text stands between two pairs of equals signs. -/
lemma measure_pseudoText {text : List Char} (h : ¬['=', '='] <:+: text ++ ['='])
    (rest : List Char) :
    measure true '=' ('=' :: (text ++ '=' :: '=' :: rest)) = (.pseudoText, text.length + 3) := by
  simp [measure, pseudoText?, throughPair?_append h]

end Lexer

namespace Token

open Lexer

variable {pseudo : Bool} {pos : Nat} {s rest : List Char} {t : Token}

lemma nextSignificant?_eq (pseudo : Bool) (pos : Nat) (s : List Char) :
    nextSignificant? pseudo pos s = match next? pseudo pos s with
      | none => none
      | some (t, rest) =>
        if t.isBlank then nextSignificant? pseudo t.stop rest else some (t, rest) := by
  rw [nextSignificant?]
  split <;> rename_i h <;> simp [h]

/-- A space before a token is passed over. -/
lemma nextSignificant?_space {c : Char} {cs : List Char} (hc : isSpace c = false)
    (h : next? pseudo (pos + 1) (c :: cs) = some (t, rest)) (ht : t.isBlank = false) :
    nextSignificant? pseudo pos (' ' :: c :: cs) = some (t, rest) := by
  have hspace : next? pseudo pos (' ' :: c :: cs) = some (⟨.whitespace, [' '], pos⟩, c :: cs) := by
    simp [next?, measure_space, hc]
  rw [nextSignificant?_eq, hspace]
  simp only [isBlank, beq_self_eq_true, Bool.true_or, if_true]
  rw [stop, List.length_singleton, nextSignificant?_eq, h]
  simp [ht]

lemma next?_of_measure {kind : TokenKind} {c : Char} {word : List Char}
    (h : measure pseudo c (word ++ rest) = (kind, word.length)) :
    next? pseudo pos (c :: (word ++ rest)) = some (⟨kind, c :: word, pos⟩, rest) := by
  simp [next?, h]

lemma nextSignificant?_period :
    nextSignificant? pseudo pos ('.' :: rest) = some (⟨.period, ['.'], pos⟩, rest) := by
  have hnext : next? pseudo pos ('.' :: rest) = some (⟨.period, ['.'], pos⟩, rest) := by
    simp [next?, measure_period]
  rw [nextSignificant?_eq, hnext]
  rfl

lemma nextSignificant?_word (c : Char) (word : List Char) (hc : isWordChar c = true)
    (hletter : isLiteralLetter c = false) (hspace : isSpace c = false)
    (hword : word.all isWordChar = true) (hrest : wordRest rest = 0) :
    nextSignificant? pseudo pos (' ' :: c :: (word ++ rest)) =
      some (⟨.word, c :: word, pos + 1⟩, rest) := by
  apply nextSignificant?_space hspace
  · apply next?_of_measure
    rw [measure_word hc hletter, wordRest_append (List.all_eq_true.mp hword), hrest, Nat.add_zero]
  · rfl

lemma nextSignificant?_literal {name : String} (hname : '\n' ∉ name.toList)
    (hrest : rest.head? ≠ some '\'') :
    nextSignificant? pseudo pos (' ' :: (Printed.literal name ++ rest)) =
      some (⟨.literal, Printed.literal name, pos + 1⟩, rest) := by
  rw [Printed.literal, List.cons_append]
  apply nextSignificant?_space (by decide)
  · apply next?_of_measure
    rw [measure_apostrophe, List.append_assoc, List.singleton_append,
      literalRest_doubled hname hrest, List.length_append, List.length_singleton]
  · rfl

lemma nextSignificant?_pseudoText {text : List Char} (h : Printed.IsOperand text) :
    nextSignificant? true pos (' ' :: (Printed.pseudoText text ++ rest)) =
      some (⟨.pseudoText, Printed.pseudoText text, pos + 1⟩, rest) := by
  rw [Printed.pseudoText, List.cons_append]
  apply nextSignificant?_space (by decide)
  · apply next?_of_measure
    have hdelimited : '=' :: text ++ ['=', '='] ++ rest = '=' :: (text ++ '=' :: '=' :: rest) := by
      simp
    rw [hdelimited, measure_pseudoText h.closed_at_end]
    simp
  · rfl

lemma undouble_doubled (name : List Char) :
    undouble '\'' (name.flatMap fun c => if c = '\'' then [c, c] else [c]) = name := by
  induction name with
  | nil => rfl
  | cons c name ih =>
    have hother : c ≠ '\'' → ∀ cs, undouble '\'' (c :: cs) = c :: undouble '\'' cs := by
      intro hc cs
      cases cs <;> simp [undouble, hc]
    rw [List.flatMap_cons]
    by_cases hc : c = '\''
    · rw [if_pos hc, hc]
      simp [undouble, ih]
    · rw [if_neg hc, List.singleton_append, hother hc, ih]

/-- A name that is printed is the value of its literal. -/
lemma literalValue_literal (name : String) (pos : Nat) :
    literalValue ⟨.literal, Printed.literal name, pos⟩ = name.toList := by
  have hletter : ["X", "N", "G", "Z"].contains
      (String.ofList (Text.upper ((Printed.literal name).take 1))) = false := rfl
  rw [literalValue, hletter, if_neg Bool.false_ne_true]
  simp [Printed.literal, undouble_doubled]

lemma pseudoTextValue_pseudoText (text : List Char) (pos : Nat) :
    pseudoTextValue ⟨.pseudoText, Printed.pseudoText text, pos⟩ = text := by
  simp [pseudoTextValue, Printed.pseudoText]

end Token

namespace Directive

open Token Lexer

variable {pos : Nat}

lemma sentence_cons {s rest : List Char} {t : Token}
    (h : nextSignificant? true pos s = some (t, rest)) (ht : t.kind ≠ .period) :
    sentence pos s = t :: sentence t.stop rest := by
  rw [sentence_eq, h]
  simp [ht]

lemma sentence_period (rest : List Char) :
    sentence pos ('.' :: rest) = [⟨.period, ['.'], pos⟩] := by
  rw [sentence_eq, nextSignificant?_period]
  rfl

lemma isOperand_pseudoText {text : List Char} (h : Printed.IsOperand text) :
    IsOperand ⟨.pseudoText, Printed.pseudoText text, pos⟩ text true := by
  left
  rw [pseudoTextValue_pseudoText, h.trimmed]
  exact ⟨rfl, rfl, rfl⟩

lemma isPair_printed {x : List Char × List Char} (h : Printed.IsPair x) (p b r : Nat) :
    IsPair ⟨.pseudoText, Printed.pseudoText x.1, p⟩ ⟨.word, ['B', 'Y'], b⟩
      ⟨.pseudoText, Printed.pseudoText x.2, r⟩ (Printed.rule x) where
  pattern := isOperand_pseudoText h.pattern
  between := by cbv
  replacement := ⟨true, isOperand_pseudoText h.replacement⟩
  hasWord := h.hasWord
  words := rfl

/-- Printed pairs are read as the rules that they stand for. -/
lemma arePairs_printed {pairs : List (List Char × List Char)}
    (h : ∀ x ∈ pairs, Printed.IsPair x) (after : List Char) {stop : Nat}
    (hstop : stop = pos + (pairs.flatMap Printed.pair).length + 1) :
    ArePairs (sentence pos (pairs.flatMap Printed.pair ++ '.' :: after)) (pairs.map Printed.rule)
      stop := by
  induction pairs generalizing pos with
  | nil =>
    rw [List.flatMap_nil, List.nil_append, sentence_period, hstop]
    exact .closed rfl
  | cons x pairs ih =>
    rw [List.forall_mem_cons] at h
    have htext : (x :: pairs).flatMap Printed.pair ++ '.' :: after =
        ' ' :: (Printed.pseudoText x.1 ++ ' ' :: 'B' :: (['Y'] ++
          ' ' :: (Printed.pseudoText x.2 ++ (pairs.flatMap Printed.pair ++ '.' :: after)))) := by
      simp [Printed.pair]
    rw [htext, sentence_cons (nextSignificant?_pseudoText h.1.pattern) (by simp),
      sentence_cons (nextSignificant?_word 'B' ['Y'] rfl rfl rfl rfl rfl) (by simp),
      sentence_cons (nextSignificant?_pseudoText h.1.replacement) (by simp)]
    refine .pair (isPair_printed h.1 _ _ _) (ih h.2 ?_)
    rw [hstop]
    simp only [List.flatMap_cons, List.length_append, Token.stop, Printed.pair, List.length_cons,
      List.length_nil]
    omega

lemma isTail_printed {pairs : List (List Char × List Char)} (h : ∀ x ∈ pairs, Printed.IsPair x)
    (after : List Char) {stop : Nat} (hstop : stop = pos + (Printed.replacing pairs).length + 1) :
    IsTail (sentence pos (Printed.replacing pairs ++ '.' :: after)) (pairs.map Printed.rule)
      stop := by
  cases pairs with
  | nil =>
    rw [Printed.replacing, List.nil_append, sentence_period, hstop]
    exact .closed rfl
  | cons x pairs =>
    have htext : Printed.replacing (x :: pairs) ++ '.' :: after =
        ' ' :: 'R' :: (['E', 'P', 'L', 'A', 'C', 'I', 'N', 'G'] ++
          ((x :: pairs).flatMap Printed.pair ++ '.' :: after)) := by
      simp [Printed.replacing]
    rw [htext, sentence_cons (nextSignificant?_word 'R' ['E', 'P', 'L', 'A', 'C', 'I', 'N', 'G']
      rfl rfl rfl rfl rfl) (by simp)]
    refine .replacing (by cbv) (arePairs_printed h after ?_) (by simp)
    rw [hstop]
    simp only [Printed.replacing, Token.stop, List.length_cons, List.length_nil]
    omega

/-- A word ends in front of what follows `SUPPRESS`. -/
lemma wordRest_printed (pairs : List (List Char × List Char)) {after : List Char}
    (hafter : after = [] ∨ after.head? = some '\n') :
    wordRest (Printed.replacing pairs ++ '.' :: after) = 0 := by
  cases pairs with
  | cons x xs => rfl
  | nil =>
    obtain rfl | hline := hafter
    · rfl
    · obtain ⟨rest, rfl⟩ := List.head?_eq_some_iff.mp hline
      rfl

lemma isEnding_printed {pairs : List (List Char × List Char)} (h : ∀ x ∈ pairs, Printed.IsPair x)
    (quiet : Bool) {after : List Char} (hafter : after = [] ∨ after.head? = some '\n') {stop : Nat}
    (hstop : stop = pos + (Printed.suppress quiet).length + (Printed.replacing pairs).length + 1) :
    IsEnding (sentence pos (Printed.suppress quiet ++ (Printed.replacing pairs ++ '.' :: after)))
      quiet (pairs.map Printed.rule) stop := by
  cases quiet with
  | false => exact .plain (isTail_printed h after hstop)
  | true =>
    have htext : Printed.suppress true ++ (Printed.replacing pairs ++ '.' :: after) =
        ' ' :: 'S' :: (['U', 'P', 'P', 'R', 'E', 'S', 'S'] ++
          (Printed.replacing pairs ++ '.' :: after)) := rfl
    rw [htext, sentence_cons (nextSignificant?_word 'S' ['U', 'P', 'P', 'R', 'E', 'S', 'S']
      rfl rfl rfl rfl (wordRest_printed pairs hafter)) (by simp)]
    refine .suppress (by cbv) (isTail_printed h after ?_)
    rw [hstop]
    simp only [Printed.suppress, Token.stop, List.length_cons, List.length_nil]

/-- What comes next in a text, and what is left of the text behind it. -/
lemma begins_of_next (pseudo : Bool) {text s rest : List Char} (hs : s = text.drop pos) {t : Token}
    (h : nextSignificant? pseudo pos s = some (t, rest)) :
    [t] <+: meaningful pseudo text pos ∧ rest = text.drop t.stop := by
  rw [hs] at h
  obtain ⟨-, -, rfl⟩ := nextSignificant?_eq_some h
  exact ⟨singleton_prefix_meaningful.mpr h, rfl⟩

section Copy

variable {pairs : List (List Char × List Char)} {quiet : Bool} {text after : List Char} {stop : Nat}

lemma exists_ending_printed (h : ∀ x ∈ pairs, Printed.IsPair x)
    (hafter : after = [] ∨ after.head? = some '\n')
    (htext : Printed.suppress quiet ++ (Printed.replacing pairs ++ '.' :: after) = text.drop pos)
    (hstop : stop = pos + (Printed.suppress quiet).length + (Printed.replacing pairs).length + 1) :
    ∃ ts, ts <+: meaningful true text pos ∧ IsEnding ts quiet (pairs.map Printed.rule) stop := by
  have hending := isEnding_printed h quiet hafter hstop
  rw [htext] at hending
  exact ⟨_, hending.isClosed.prefix_sentence_iff.mp (List.prefix_refl _), hending⟩

lemma isName_literal (name : String) (start : Nat) :
    IsName ⟨.literal, Printed.literal name, start⟩ name := by
  right
  simp [literalValue_literal]

lemma isCopy_printed {name : String} {lib : Option String} (hname : '\n' ∉ name.toList)
    (hlib : ∀ holder ∈ lib, '\n' ∉ holder.toList) (hpairs : ∀ x ∈ pairs, Printed.IsPair x)
    (hafter : after = [] ∨ after.head? = some '\n')
    (htext : ' ' :: (Printed.literal name ++ (Printed.library lib ++ (Printed.suppress quiet ++
      (Printed.replacing pairs ++ '.' :: after)))) = text.drop pos)
    (hstop : stop + 4 = pos + (Printed.copy name lib quiet pairs).length) :
    IsCopy text pos ⟨name, lib, quiet, pairs.map Printed.rule⟩ stop := by
  have hquote : (Printed.suppress quiet ++ (Printed.replacing pairs ++ '.' :: after)).head? ≠
      some '\'' := by
    cases quiet <;> cases pairs <;> simp [Printed.suppress, Printed.replacing]
  cases lib with
  | none =>
    obtain ⟨hbook, hrest⟩ := begins_of_next false htext (nextSignificant?_literal hname hquote)
    obtain ⟨ts, hts, hending⟩ := exists_ending_printed hpairs hafter hrest rfl
    convert IsCopy.unqualified hbook (isName_literal name _) hts hending using 1
    simp only [Printed.copy, Printed.library, Token.stop, List.length_append, List.length_cons,
      List.length_nil] at hstop ⊢
    omega
  | some holder =>
    have hquote' : (Printed.library (some holder) ++ (Printed.suppress quiet ++
        (Printed.replacing pairs ++ '.' :: after))).head? ≠ some '\'' := by
      simp [Printed.library]
    obtain ⟨hbook, hrest⟩ := begins_of_next false htext (nextSignificant?_literal hname hquote')
    obtain ⟨hof, hrest⟩ := begins_of_next true hrest
      (nextSignificant?_word 'O' ['F'] rfl rfl rfl rfl rfl)
    have hkeyword : ∀ start, (⟨.word, ['O', 'F'], start⟩ : Token).isWord ["OF", "IN"] = true := by
      intro start
      cbv
    obtain ⟨hholder, hrest⟩ := begins_of_next false hrest
      (nextSignificant?_literal (hlib holder rfl) hquote)
    obtain ⟨ts, hts, hending⟩ := exists_ending_printed hpairs hafter hrest rfl
    convert IsCopy.qualified hbook (isName_literal name _) hof (hkeyword _) hholder
      (isName_literal holder _) hts hending using 1
    simp only [Printed.copy, Printed.library, Token.stop, List.length_append, List.length_cons,
      List.length_nil] at hstop ⊢
    omega

end Copy

/-- A directive that is printed somewhere in a text, at the end of a line, is read as what was
printed. -/
theorem printed_copy_read (name : String) (lib : Option String) (quiet : Bool)
    (pairs : List (List Char × List Char)) (before after : List Char) (hname : '\n' ∉ name.toList)
    (hlib : ∀ holder ∈ lib, '\n' ∉ holder.toList) (hpairs : ∀ x ∈ pairs, Printed.IsPair x)
    (hafter : after = [] ∨ after.head? = some '\n') :
    let text := before ++ (Printed.copy name lib quiet pairs ++ after)
    (∀ x ∈ pairs, ReplacementRule.make? x.1 x.2 true = some (Printed.rule x)) ∧
      ∃ keyword, Token.at? false text before.length = some keyword ∧
        keyword.isWord ["COPY"] = true ∧
        copyClause keyword.stop (text.drop keyword.stop) =
          .ok (⟨name, lib, quiet, pairs.map Printed.rule⟩,
            before.length + (Printed.copy name lib quiet pairs).length) := by
  intro text
  refine ⟨fun x hx => make?_eq_some_iff.mpr ⟨rfl, rfl, rfl, (hpairs x hx).hasWord, rfl⟩, ?_⟩
  have hcopy : text.drop before.length = 'C' :: (['O', 'P', 'Y'] ++ (' ' :: (Printed.literal name ++
      (Printed.library lib ++ (Printed.suppress quiet ++
        (Printed.replacing pairs ++ '.' :: after)))))) := by
    simp [text, Printed.copy]
  have hkeyword : next? false before.length (text.drop before.length) =
      some (⟨.word, ['C', 'O', 'P', 'Y'], before.length⟩, ' ' :: (Printed.literal name ++
        (Printed.library lib ++ (Printed.suppress quiet ++
          (Printed.replacing pairs ++ '.' :: after))))) := by
    rw [hcopy]
    apply next?_of_measure
    rw [measure_word rfl rfl, wordRest_append (List.all_eq_true.mp rfl)]
    rfl
  obtain ⟨-, -, hrest⟩ := foundIn_of_next? hkeyword
  refine ⟨⟨.word, ['C', 'O', 'P', 'Y'], before.length⟩, by rw [Token.at?, hkeyword]; rfl, by cbv,
    copyClause_eq_ok_iff.mpr (isCopy_printed hname hlib hpairs hafter hrest ?_)⟩
  simp only [Token.stop, List.length_cons, List.length_nil]
  omega

/-- Two pairs with an equals sign at the start and inside of their texts, and one of them empty. -/
def samplePairs : List (List Char × List Char) :=
  [(['=', 'X'], []), (['Y', ' ', 'Z'], ['a', '=', 'b'])]

set_option maxRecDepth 20000 in
/-- The apostrophe in the name stands for itself, and the period is followed by the end of the
line. -/
theorem printed_copy_read_sample :
    let printed := Printed.copy "A'B" (some "L") true samplePairs
    String.ofList printed =
        "COPY 'A''B' OF 'L' SUPPRESS REPLACING ===X== BY ==== ==Y Z== BY ==a=b==." ∧
      ∃ keyword, Token.at? false ([' '] ++ (printed ++ ['\n', '.'])) 1 = some keyword ∧
        copyClause keyword.stop (([' '] ++ (printed ++ ['\n', '.'])).drop keyword.stop) =
          .ok (⟨"A'B", some "L", true, samplePairs.map Printed.rule⟩, 73) := by
  have hwords : ∀ x ∈ samplePairs, ∃ t ∈ Token.tokens false 0 x.1, t.isBlank = false := by
    have hany : (samplePairs.all fun x => (Token.tokens false 0 x.1).any fun t => !t.isBlank) =
        true := by
      cbv
    simpa [List.all_eq_true, List.any_eq_true] using hany
  have hdelimited : ∀ x ∈ samplePairs, (Text.trim x.1 = x.1 ∧ Text.trim x.2 = x.2) ∧
      ¬['=', '='] <:+: x.1 ++ ['='] ∧ ¬['=', '='] <:+: x.2 ++ ['='] := by
    decide
  have hpairs : ∀ x ∈ samplePairs, Printed.IsPair x := by
    intro x hx
    obtain ⟨⟨htrim, htrim'⟩, hclosed, hclosed'⟩ := hdelimited x hx
    exact ⟨⟨htrim, hclosed⟩, ⟨htrim', hclosed'⟩, hwords x hx⟩
  obtain ⟨-, keyword, hat, -, hread⟩ := printed_copy_read "A'B" (some "L") true samplePairs [' ']
    ['\n', '.'] (by decide) (by decide) hpairs (.inr rfl)
  exact ⟨by decide, keyword, hat, hread⟩

end Directive

end CobolText
