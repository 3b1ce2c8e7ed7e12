import CobolText.Format
import CobolText.Value

/-!
# Dialects

What a compiler vendor's conventions add to a source format: which indicator characters mean
what, where the right margin is, which paragraphs hold comment entries and which directives
there are.
-/

namespace CobolText

/-- The conventions of a vendor.  Options with a single value are kept as they are set and are
interpreted only where they are used. -/
structure Dialect where
  name : Value
  commentIndicators : List Key
  pageEjectIndicators : List Key
  continuationIndicators : List Key
  debugIndicators : List Key
  directiveIndicators : List Key
  /-- The last content column of a line in fixed format. -/
  rightMargin : Value
  /-- The longest physical line; what goes beyond it is dropped. -/
  maxLineWidth : Value
  /-- Whether a comment may start anywhere in a line. -/
  floatingComments : Value
  /-- Paragraphs that are followed by a comment entry. -/
  commentEntryTriggers : List String
  /-- Paragraphs that end a comment entry, besides any division header. -/
  commentEntryTerminators : List String
  copyKeywords : List String
  replaceKeyword : Value
  /-- Statements that only steer the listing. -/
  listingKeywords : List String
  /-- Statements with compiler options, which may precede the first division. -/
  compilerOptionKeywords : List String
  caseSensitiveCopybooks : Value
  /-- Whether a literal that goes on in the next line keeps its blanks up to the right margin. -/
  padContinuedLiterals : Value
deriving DecidableEq, Repr

namespace Dialect

/-- Paragraphs with comment entries in every dialect. -/
def standardTriggers : List String :=
  ["AUTHOR", "INSTALLATION", "DATE-WRITTEN", "DATE-COMPILED", "SECURITY"]

/-- The paragraphs of the identification division. -/
def identificationParagraphs : List String :=
  ["PROGRAM-ID", "AUTHOR", "INSTALLATION", "DATE-WRITTEN", "DATE-COMPILED", "SECURITY", "REMARKS"]

/-- The 1985 standard. -/
def ansi85 : Dialect where
  name := .text "ANSI85"
  commentIndicators := ["*"]
  pageEjectIndicators := ["/"]
  continuationIndicators := ["-"]
  debugIndicators := ["D", "d"]
  directiveIndicators := []
  rightMargin := .number 72
  maxLineWidth := .number 80
  floatingComments := .flag false
  commentEntryTriggers := standardTriggers
  commentEntryTerminators := identificationParagraphs
  copyKeywords := ["COPY"]
  replaceKeyword := .text "REPLACE"
  listingKeywords := ["EJECT", "SKIP1", "SKIP2", "SKIP3", "TITLE"]
  compilerOptionKeywords := ["CBL", "PROCESS"]
  caseSensitiveCopybooks := .flag false
  padContinuedLiterals := .flag true

/-- The conventions of workstation compilers. -/
def mf : Dialect :=
  { ansi85 with
    name := .text "MF"
    directiveIndicators := ["$"]
    maxLineWidth := .number 256
    floatingComments := .flag true
    commentEntryTriggers := standardTriggers ++ ["REMARKS"]
    compilerOptionKeywords := [] }

/-- The conventions of the older mainframe compilers. -/
def osvs : Dialect :=
  { ansi85 with
    name := .text "OSVS"
    commentEntryTriggers := standardTriggers ++ ["REMARKS"] }

/-- All dialects. -/
def all : List Dialect :=
  [ansi85, mf, osvs]

/-- The dialect of a given name; case and blanks around it do not matter, and no name means the
standard. -/
def ofName (given : String) : Except Fault Dialect :=
  if given == "" then .ok ansi85
  else
    let wanted := Text.upperString (Text.trimString given)
    match all.find? fun d => d.name == .text wanted with
    | some d => .ok d
    | none => .error (.unknownDialect given)

/-- The columns of a format under this dialect. -/
def layout (d : Dialect) : SourceFormat → ColumnLayout
  | .fixed => ⟨6, 1, d.rightMargin⟩
  | .variableLength => ⟨6, 1, .null⟩
  | .tandem => ⟨0, 1, .null⟩
  | .free => ⟨0, 0, .null⟩

/-- The greatest width of a line. -/
def lineWidth (d : Dialect) : Int :=
  d.maxLineWidth.count?.getD 0

/-- What is wrong with the column options that lines of a format are read by: the greatest width
must be a number, and so must the right margin unless there is none. -/
def columnFault? (d : Dialect) (format : SourceFormat) : Option Fault :=
  let margin := (d.layout format).rightMargin
  if d.maxLineWidth.count?.isSome && (margin == .null || margin.count?.isSome) then none
  else some (.badSetting .notUsable)

/-- The setting that says whether comments may start anywhere in a line of the format: the
option if it is set, and otherwise whether the format is free. -/
def floatingSetting (d : Dialect) (format : SourceFormat) : Value :=
  if d.floatingComments.isSet then d.floatingComments else .flag (format == .free)

/-- Whether comments may start anywhere in a line of the format. -/
def hasFloatingComments (d : Dialect) (format : SourceFormat) : Bool :=
  (d.floatingSetting format).isSet

/-- Whether a word introduces a document-wide replacement. -/
def isReplaceKeyword (d : Dialect) (word : String) : Bool :=
  d.replaceKeyword == .text word

/-- The value of an option that takes a set of indicators. -/
def indicatorSet (value : Value) : Except Fault (List Key) :=
  match value.items? with
  | some items =>
    match items.mapM Key.ofValue? with
    | some keys => .ok (Key.distinct keys)
    | none => .error (.badSetting .notUsable)
  | none => .error (.badSetting .notItems)

/-- The value of an option that takes keywords, which are in capitals. -/
def keywordList (value : Value) : Except Fault (List String) :=
  match value.items? with
  | some items => .ok (items.map fun i => Text.upperString i.render)
  | none => .error (.badSetting .notItems)

/-- The option that a key names, if it is text.  `self` names none: it stands for the dialect
that is changed. -/
def optionName? : Key → Option String
  | .text name => if name == "self" then none else some name
  | _ => none

/-- The dialect with one option changed. -/
def withOption (d : Dialect) (key : String) (value : Value) : Except Fault Dialect :=
  match key with
  | "name" => return { d with name := value }
  | "comment_indicators" => return { d with commentIndicators := ← indicatorSet value }
  | "page_eject_indicators" => return { d with pageEjectIndicators := ← indicatorSet value }
  | "continuation_indicators" => return { d with continuationIndicators := ← indicatorSet value }
  | "debug_indicators" => return { d with debugIndicators := ← indicatorSet value }
  | "directive_indicators" => return { d with directiveIndicators := ← indicatorSet value }
  | "right_margin" => return { d with rightMargin := value }
  | "max_line_width" => return { d with maxLineWidth := value }
  | "floating_comments" => return { d with floatingComments := value }
  | "comment_entry_triggers" => return { d with commentEntryTriggers := ← keywordList value }
  | "comment_entry_terminators" =>
    return { d with commentEntryTerminators := ← keywordList value }
  | "copy_keywords" => return { d with copyKeywords := ← keywordList value }
  | "replace_keyword" => return { d with replaceKeyword := value }
  | "listing_keywords" => return { d with listingKeywords := ← keywordList value }
  | "compiler_option_keywords" =>
    return { d with compilerOptionKeywords := ← keywordList value }
  | "case_sensitive_copybooks" => return { d with caseSensitiveCopybooks := value }
  | "pad_continued_literals" => return { d with padContinuedLiterals := value }
  | _ => .error (.unknownDialectOption key)

/-- The dialect with options changed one after the other, if all of them have names. -/
def withOptions (d : Dialect) (options : List (Key × Value)) : Except Fault Dialect :=
  match options.mapM fun o => (optionName? o.1).map fun name => (name, o.2) with
  | some named => named.foldlM (fun d o => d.withOption o.1 o.2) d
  | none => .error (.badSetting .notUsable)

end Dialect

end CobolText
