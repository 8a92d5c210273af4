import WikiDocs.FileConversion

/-!
The command line: its options, and what a run prints, answers and changes.
Arguments are read from left to right, and the first one that is wrong, or that
asks for the version or for help, decides.
-/

namespace WikiDocs.CommandLine

inductive Setting where
  | input
  | output
  | firstTitle
  | imagePrefix
  | renderer
  deriving DecidableEq

inductive Flag where
  | debug
  | noExpandNewlines
  | strictLatin1
  | report
  deriving DecidableEq

/-- What an option name stands for. -/
inductive Name where
  | setting (setting : Setting)
  | flag (flag : Flag)
  | version
  | help

def longName? (name : Text) : Option Name :=
  match String.ofList name with
  | "input" => some (.setting .input)
  | "output" => some (.setting .output)
  | "first-title" => some (.setting .firstTitle)
  | "image-prefix" => some (.setting .imagePrefix)
  | "renderer" => some (.setting .renderer)
  | "debug" => some (.flag .debug)
  | "no-expand-newlines" => some (.flag .noExpandNewlines)
  | "strict-latin1" => some (.flag .strictLatin1)
  | "report" => some (.flag .report)
  | "version" => some .version
  | "help" => some .help
  | _ => none

def shortName? : Char → Option Name
  | 'i' => some (.setting .input)
  | 'o' => some (.setting .output)
  | 'V' => some .version
  | 'h' => some .help
  | _ => none

structure Given where
  settings : List (Setting × String) := []
  flags : List Flag := []

/-- Why reading the arguments ends before their end. -/
inductive Stop where
  | usage
  | version
  | help
  deriving DecidableEq

namespace Given

def value? (given : Given) (setting : Setting) : Option String := given.settings.lookup setting

/-- Whether a setting takes an empty value; a path is never empty. -/
def takesEmpty : Setting → Bool
  | .input | .output => false
  | .firstTitle | .imagePrefix | .renderer => true

/-- Gives a setting its value; once only. -/
def set (given : Given) (setting : Setting) (value : String) : Except Stop Given :=
  if (given.value? setting).isSome || (value.isEmpty && !takesEmpty setting) then .error .usage
  else .ok { given with settings := (setting, value) :: given.settings }

def raise (given : Given) (flag : Flag) : Except Stop Given :=
  if flag ∈ given.flags then .error .usage
  else .ok { given with flags := flag :: given.flags }

end Given

/-- The value after an equals sign, if there is one, and the text before it. -/
def splitValue (s : Text) : Text × Option Text :=
  match s.dropWhile (· != '=') with
  | [] => (s, none)
  | _ :: value => (s.takeWhile (· != '='), some value)

inductive Effect where
  | given (given : Given)
  /-- The setting takes the next argument as its value. -/
  | awaits (setting : Setting)
  | noMore

/-- Reads a long option, without its hyphens. -/
def readLong (given : Given) (s : Text) : Except Stop Effect :=
  let (name, value) := splitValue s
  match longName? name, value with
  | some (.setting setting), some value => .given <$> given.set setting (String.ofList value)
  | some (.setting setting), none => .ok (.awaits setting)
  | some (.flag flag), none => .given <$> given.raise flag
  | some .version, none => .error .version
  | some .help, none => .error .help
  | _, _ => .error .usage

/-- Reads short options, without their hyphen. An equals sign before a value is passed over. -/
def readShort (given : Given) : Text → Except Stop Effect
  | [] => .ok (.given given)
  | c :: s =>
    match shortName? c with
    | some (.setting setting) =>
      match s with
      | [] => .ok (.awaits setting)
      | '=' :: value => .given <$> given.set setting (String.ofList value)
      | value => .given <$> given.set setting (String.ofList value)
    | some (.flag flag) => do readShort (← given.raise flag) s
    | some .version => .error .version
    | some .help => .error .help
    | none => .error .usage

/-- Reads an argument where an option has to stand. A hyphen alone is no option. -/
def readOption (given : Given) (argument : Text) : Except Stop Effect :=
  match argument with
  | ['-', '-'] => .ok .noMore
  | '-' :: '-' :: s => readLong given s
  | '-' :: c :: s => readShort given (c :: s)
  | _ => .error .usage

/-- Whether an argument is an option and so cannot be a value of its own. -/
def isOption : Text → Bool
  | '-' :: _ :: _ => true
  | _ => false

/-- Reads the arguments; `awaiting` is the setting whose value comes next. -/
def readArguments (given : Given) (awaiting : Option Setting) : List String → Except Stop Given
  | [] => if awaiting.isSome then .error .usage else .ok given
  | argument :: arguments =>
    match awaiting with
    | some setting =>
      if isOption argument.toList then .error .usage
      else do readArguments (← given.set setting argument) none arguments
    | none => do
      match ← readOption given argument.toList with
      | .given given => readArguments given none arguments
      | .awaits setting => readArguments given (some setting) arguments
      | .noMore => if arguments.isEmpty then .ok given else .error .usage

structure Request where
  input : String
  output : String
  options : Options
  /-- Whether the summary is printed as JSON. -/
  report : Bool
  deriving DecidableEq

/-- The options of a conversion that the arguments ask for. The renderer may also be named by
the environment. -/
def optionsOf (given : Given) (renderer : Option String) : Options :=
  let defaults : Options := {}
  { expandEscapes := !given.flags.contains .noExpandNewlines
    imageDirectory := (given.value? .imagePrefix).getD defaults.imageDirectory
    renderCommand := ((given.value? .renderer).or renderer).getD defaults.renderCommand
    firstTitle := given.value? .firstTitle
    strictLatin1 := given.flags.contains .strictLatin1
    traceTokens := given.flags.contains .debug }

/-- What the arguments ask for; input and output have to be given. -/
def request (arguments : List String) (renderer : Option String) : Except Stop Request := do
  let given ← readArguments {} none arguments
  match given.value? .input, given.value? .output with
  | some input, some output =>
    .ok
      { input
        output
        options := optionsOf given renderer
        report := given.flags.contains .report }
  | _, _ => .error .usage

def versionText : String := "wiki2rst 0.1.0\n"

def usageText : String := "Usage: wiki2rst [OPTIONS] --input <FILE> --output <DIR>\n"

def helpText : String :=
  "Convert a pandoc wiki export into reStructuredText documents\n\n" ++ usageText ++
  "\nOptions:\n" ++
  "  -i, --input <FILE>           Input file\n" ++
  "  -o, --output <DIR>           Output directory (must exist)\n" ++
  "      --debug                  Trace every token match on stderr\n" ++
  "      --first-title <NAME>     " ++
    "Title of the document receiving text before the first page break\n" ++
  "      --image-prefix <PREFIX>  Prefix for image paths [default: images/]\n" ++
  "      --renderer <CMD>         " ++
    "Renderer command written to the build script [default: rst2html.py]\n" ++
  "      --no-expand-newlines     Keep literal \\n escapes instead of expanding them\n" ++
  "      --strict-latin1          Fail on characters that cannot be written as Latin-1\n" ++
  "      --report                 Print the conversion summary as JSON\n" ++
  "  -h, --help                   Print help\n" ++
  "  -V, --version                Print version\n"

def reportText (request : Request) (summary : Summary) : String :=
  if request.report then summary.toJson.pretty 0 ++ "\n" else summary.words request.output

def errorText (e : Error) : String := "Error: " ++ e.message ++ "\n"

structure Ending where
  code : Nat
  stdout : String := ""
  stderr : String := ""
  deriving DecidableEq

/-- How the program ends where reading the arguments does. -/
def Ending.ofStop : Stop → Ending
  | .usage => { code := 2, stderr := usageText }
  | .version => { code := 0, stdout := versionText }
  | .help => { code := 0, stdout := helpText }

/-- How the program ends after a conversion. -/
def Ending.ofAnswer (request : Request) : Except Error Summary → Ending
  | .ok summary => { code := 0, stdout := reportText request summary }
  | .error e => { code := 1, stderr := errorText e }

def run (tree : FileTree) (arguments : List String) (renderer : Option String) :
    FileTree × Ending :=
  match request arguments renderer with
  | .error stop => (tree, .ofStop stop)
  | .ok request =>
    let o := convertFile tree request.options request.input request.output
    (o.state, .ofAnswer request o.answer)

end WikiDocs.CommandLine
