/-!
# Arguments of the command

The command has three subcommands, each with the files it reads and a few options. Options may stand
before, between and after the files; those of one letter may be written together, and a lone pair of
hyphens ends them.
-/

namespace LinProg

/-- How a result is written. -/
inductive Format where
  /-- A report for people. -/
  | pretty
  /-- A JSON document. -/
  | json
deriving Repr, DecidableEq

/-- The format with a given name. -/
def Format.ofName? : String → Option Format
  | "pretty" => some .pretty
  | "json" => some .json
  | _ => none

/-- What the command is asked to do. -/
inductive Command where
  /-- Solve a problem, with or without a list of its pivots. -/
  | solve (file : String) (format : Format) (trace : Bool)
  /-- Solve a problem with its required whole values. -/
  | integer (file : String) (format : Format)
  /-- Solve a problem, revise it and solve it again. -/
  | update (problem request : String) (format : Format)
deriving Repr, DecidableEq

/-- What a list of arguments asks for. -/
inductive Invocation where
  /-- The description of the arguments. -/
  | help
  /-- A command. -/
  | perform (command : Command)
deriving Repr, DecidableEq

namespace Command

/-- The names of the subcommands. -/
inductive Verb where
  | solve
  | integer
  | update
deriving Repr, DecidableEq

/-- The subcommand with a given name. -/
def Verb.ofName? : String → Option Verb
  | "solve" => some .solve
  | "integer" => some .integer
  | "update" => some .update
  | _ => none

/-- The number of files a subcommand reads. -/
def Verb.fileCount : Verb → Nat
  | .update => 2
  | _ => 1

/-- The options and files found so far. -/
structure Options where
  /-- The format, if it is given. -/
  format : Option Format := none
  /-- Whether pivots are to be listed. -/
  trace : Bool := false
  /-- Whether more messages are asked for. -/
  verbose : Bool := false
  /-- Whether fewer messages are asked for. -/
  quiet : Bool := false
  /-- The files. -/
  files : List String := []
deriving Repr, DecidableEq

namespace Options

/-- Options that ask for more and for fewer messages at once contradict each other. -/
def isConsistent (o : Options) : Bool := !(o.verbose && o.quiet)

/-- The options with a format, which can be given once. -/
def withFormat? (o : Options) (name : String) : Option Options :=
  match o.format, Format.ofName? name with
  | none, some format => some { o with format := some format }
  | _, _ => none

/-- The options with the list of pivots, which can be asked for once and when solving. -/
def withTrace? (o : Options) (verb : Option Verb) : Option Options :=
  if verb = some .solve ∧ !o.trace then some { o with trace := true } else none

/-- The options with one more file, if the subcommand reads so many; a file has a name. -/
def withFile? (o : Options) (verb : Verb) (file : String) : Option Options :=
  if file ≠ "" ∧ o.files.length < verb.fileCount then some { o with files := o.files ++ [file] }
  else none

end Options

/-- What follows from an argument that holds options. -/
inductive Effect where
  /-- The options with what the argument adds. -/
  | options (o : Options)
  /-- The next argument is the format. -/
  | formatNext (o : Options)
  /-- The description of the arguments is asked for. -/
  | help

/-- The effect of options of one letter that are written together; a format takes the rest of the
argument, with or without an equality sign, or the next argument. Before the subcommand only the
options for messages are known. -/
def letters (verb : Option Verb) : List Char → Options → Option Effect
  | [], o => some (.options o)
  | 'v' :: rest, o => letters verb rest { o with verbose := true }
  | 'q' :: rest, o => letters verb rest { o with quiet := true }
  | 'h' :: _, _ => some .help
  | 't' :: rest, o => (o.withTrace? verb).bind (letters verb rest)
  | 'f' :: rest, o =>
    if verb.isNone then none
    else
      match rest with
      | [] => some (.formatNext o)
      | '=' :: name => (o.withFormat? (String.ofList name)).map .options
      | name => (o.withFormat? (String.ofList name)).map .options
  | _, _ => none

/-- The effect of an option with a name and perhaps a value. -/
def named (verb : Option Verb) (name : List Char) (value : Option (List Char)) (o : Options) :
    Option Effect :=
  match String.ofList name, value with
  | "verbose", none => some (.options { o with verbose := true })
  | "quiet", none => some (.options { o with quiet := true })
  | "help", none => some .help
  | "trace", none => (o.withTrace? verb).map .options
  | "format", none => if verb.isNone then none else some (.formatNext o)
  | "format", some format =>
    if verb.isNone then none else (o.withFormat? (String.ofList format)).map .options
  | _, _ => none

/-- The kinds of arguments. -/
inductive Argument where
  /-- A pair of hyphens. -/
  | endOfOptions
  /-- An option with a name and perhaps a value. -/
  | named (name : List Char) (value : Option (List Char))
  /-- Options of one letter. -/
  | letters (letters : List Char)
  /-- A file or a subcommand. -/
  | word (text : String)

/-- The kind of an argument. A lone hyphen is a word. -/
def Argument.ofText (text : String) : Argument :=
  match text.toList with
  | ['-', '-'] => .endOfOptions
  | '-' :: '-' :: rest =>
    let name := rest.takeWhile (· != '=')
    match rest.dropWhile (· != '=') with
    | _ :: value => .named name (some value)
    | [] => .named name none
  | ['-'] => .word text
  | '-' :: rest => .letters rest
  | _ => .word text

/-- Whether an argument can be the value of an option. -/
def Argument.isValue : Argument → Bool
  | .word _ => true
  | _ => false

/-- The result of reading the arguments of a subcommand. -/
inductive Reading where
  /-- The description of the arguments is asked for. -/
  | help
  /-- All arguments have been read. -/
  | options (o : Options)

/-- Files after the end of the options. -/
def readFiles (verb : Verb) : List String → Options → Option Options
  | [], o => some o
  | file :: rest, o => (o.withFile? verb file).bind (readFiles verb rest)

/-- Reads the arguments of a subcommand. -/
def readArguments (verb : Verb) : List String → Options → Option Reading
  | [], o => some (.options o)
  | text :: rest, o =>
    let effect :=
      match Argument.ofText text with
      | .endOfOptions => none
      | .word file => (o.withFile? verb file).map Effect.options
      | .letters found => letters (some verb) found o
      | .named name value => named (some verb) name value o
    match Argument.ofText text, effect with
    | .endOfOptions, _ => (readFiles verb rest o).map .options
    | _, none => none
    | _, some .help => some .help
    | _, some (.options found) => readArguments verb rest found
    | _, some (.formatNext found) =>
      match rest with
      | value :: further =>
        if (Argument.ofText value).isValue then
          match found.withFormat? value with
          | some complete => readArguments verb further complete
          | none => none
        else none
      | [] => none

/-- The command that a subcommand with its options and files stands for. -/
def ofOptions? (verb : Verb) (o : Options) : Option Command :=
  let format := o.format.getD .pretty
  if !o.isConsistent then none
  else
    match verb, o.files with
    | .solve, [file] => some (.solve file format o.trace)
    | .integer, [file] => some (.integer file format)
    | .update, [problem, request] => some (.update problem request format)
    | _, _ => none

/-- The invocation for a word that should name a subcommand, with the arguments after it. -/
def ofVerb? (name : String) (rest : List String) : Option Invocation :=
  match Verb.ofName? name with
  | some verb =>
    match readArguments verb rest {} with
    | some .help => some .help
    | some (.options o) => (ofOptions? verb o).map .perform
    | none => none
  | none =>
    if name = "help" then
      match rest with
      | [] => some .help
      | [topic] => if topic = "help" ∨ (Verb.ofName? topic).isSome then some .help else none
      | _ => none
    else none

/-- The invocation that a list of arguments asks for, after the options that stand before the
subcommand. -/
def parseAfter : List String → Options → Option Invocation
  | [], _ => none
  | text :: rest, o =>
    match Argument.ofText text with
    | .endOfOptions => none
    | .word name =>
      match ofVerb? name rest with
      | some .help => some .help
      | found => if o.isConsistent then found else none
    | .letters found => step rest (letters none found o)
    | .named name value => step rest (named none name value o)
where
  /-- Goes on after an argument with options. -/
  step (rest : List String) : Option Effect → Option Invocation
    | some .help => some .help
    | some (.options o) => parseAfter rest o
    | _ => none

/-- The invocation that a list of arguments asks for, if they are well-formed. -/
def parse? (arguments : List String) : Option Invocation := parseAfter arguments {}

/-- The files that a command reads, in order. -/
def files : Command → List String
  | .solve file _ _ => [file]
  | .integer file _ => [file]
  | .update problem request _ => [problem, request]

end Command

end LinProg
