import CobolText.CommandLine.Batch
import CobolText.CommandLine.Locate

/-!
# Running a command line

A command line is read to a request, which is then carried out.
-/

namespace CobolText.CommandLine

/-- The name and version of the program. -/
def versionText : String :=
  "cobol-preprocess 0.1.0\n"

/-- How the program is used. -/
def helpText : String :=
  "usage: cobol-preprocess [preprocess] [OPTION]... SOURCE...\n" ++
  "       cobol-preprocess locate [OPTION]... SOURCE LINE [COLUMN]\n" ++
  "\n" ++
  "Preprocess COBOL sources: normalize their lines and expand COPY and REPLACE directives,\n" ++
  "or locate the origin of a place in the preprocessed text.\n" ++
  "\n" ++
  "  -o, --output-dir DIR       write results to files in DIR\n" ++
  "      --source-map           write origin reports too\n" ++
  "  -j, --jobs N               number of sources worked on at a time\n" ++
  "      --format FORMAT        fixed, variable, tandem or free\n" ++
  "      --dialect DIALECT      ANSI85, MF or OSVS\n" ++
  "      --encoding ENCODING    encoding of sources and copybooks\n" ++
  "      --debugging-mode       keep debugging lines as code\n" ++
  "  -c, --copybook-path PATH   look for copybooks in PATH (may be repeated)\n" ++
  "      --config FILE          configuration file\n" ++
  "  -V, --verbose              show all messages\n" ++
  "  -q, --quiet                show errors only\n" ++
  "  -h, --help                 show this help\n" ++
  "      --version              show the version\n"

/-- The exit code of a command line that makes no sense. -/
def misuseCode : Nat :=
  2

variable {m : Type → Type} [Monad m]

/-- Carries out a request. -/
def Request.run (files : FileStore m) (clock : Clock m) (r : Request) : m Transcript := do
  match ← Config.load files.toFileAccess r.general.config with
  | .error fault => return Transcript.abort fault
  | .ok config =>
    match LogLevel.threshold config r.general with
    | .error fault => return Transcript.abort fault
    | .ok threshold =>
      let transcript ← match r with
        | .batch request => request.run files clock
        | .locate request => request.run files
      return transcript.above threshold

/-- Runs a command line. -/
def execute (files : FileStore m) (clock : Clock m) (args : List String) : m Transcript :=
  match Request.ofArguments args with
  | .error .help => return Transcript.exit [.printed helpText] 0
  | .error .version => return Transcript.exit [.printed versionText] 0
  | .error .misuse => return Transcript.exit [] misuseCode
  | .ok request => request.run files clock

end CobolText.CommandLine
