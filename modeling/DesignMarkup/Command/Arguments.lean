import DesignMarkup.Text.Quoted

/-!
# Arguments

The command line takes a link, a directory that may be left out, and options. A first
look tells options from other arguments; then they are taken from left to right. Link
and directory are taken together, as soon as the first of them comes up. Behind two
dashes that stand alone nothing is an option.
-/

namespace DesignMarkup.Command

/-! ## Options -/

inductive Flag
  | help
  | token
  | noEffects
  | noAutoLayout
  | noFlexbox
deriving DecidableEq, Repr

namespace Flag

def spellings : List (String × Flag) :=
  [("-h", help), ("--help", help), ("--token", token), ("--no-effects", noEffects),
   ("--no-auto-layout", noAutoLayout), ("--no-flexbox", noFlexbox)]

def title : Flag → String
  | help => "-h/--help"
  | token => "--token"
  | noEffects => "--no-effects"
  | noAutoLayout => "--no-auto-layout"
  | noFlexbox => "--no-flexbox"

end Flag

structure OptionUse where
  flag : Flag
  /-- The option was given by a letter behind one dash. -/
  short : Bool
  /-- The text attached to the option. -/
  attached : Option (List Char)
deriving DecidableEq, Repr

/-- What an argument is at first look. -/
inductive ArgumentKind
  | plain
  | separator
  | option (use : OptionUse)
  /-- It looks like an option and is none. -/
  | unknown
deriving DecidableEq, Repr

inductive UsageFault
  | ambiguous (argument : String) (candidates : List String)
  | missingValue (flag : Flag)
  | unwantedValue (flag : Flag) (value : List Char)
  | missingLink
  | unrecognized (arguments : List String)
deriving DecidableEq, Repr

def UsageFault.message : UsageFault → String
  | ambiguous argument candidates =>
    "ambiguous option: " ++ argument ++ " could match " ++ ", ".intercalate candidates
  | missingValue flag => "argument " ++ flag.title ++ ": expected one argument"
  | unwantedValue flag value =>
    "argument " ++ flag.title ++ ": ignored explicit argument "
      ++ String.ofList (Text.quoted value)
  | missingLink => "the following arguments are required: figma_url"
  | unrecognized arguments => "unrecognized arguments: " ++ " ".intercalate arguments

/-! ## First look -/

def dropLineBreak (s : List Char) : List Char := if s.getLast? = some '\n' then s.dropLast else s

/-- The text is a negative number, with or without a point; a line break may follow. -/
def isNegativeNumber (s : List Char) : Bool :=
  let isDigit := fun c => (Text.decimalDigit? c).isSome
  match dropLineBreak s with
  | '-' :: rest =>
    match rest.dropWhile isDigit with
    | [] => !rest.isEmpty
    | '.' :: more => !more.isEmpty && more.all isDigit
    | _ => false
  | _ => false

def flagOf? (spelling : List Char) : Option Flag := Flag.spellings.lookup (String.ofList spelling)

def splitEquals (s : List Char) : List Char × Option (List Char) :=
  (s.takeWhile (· != '='), if s.contains '=' then some ((s.dropWhile (· != '=')).drop 1) else none)

/-- The long spellings that begin with a text. -/
def completions (start : List Char) : List (String × Flag) :=
  Flag.spellings.filter fun f => start.isPrefixOf f.1.toList

def classifyOther (s : List Char) : ArgumentKind :=
  if isNegativeNumber s || s.contains ' ' then .plain else .unknown

/-- What a shortened option, or a letter with a text attached, is. -/
def classifyShortened (s : List Char) : Except UsageFault ArgumentKind :=
  match s with
  | '-' :: '-' :: _ =>
    let (start, value) := splitEquals s
    match completions start with
    | [] => .ok (classifyOther s)
    | [(_, flag)] => .ok (.option { flag := flag, short := false, attached := value })
    | several => .error (.ambiguous (String.ofList s) (several.map (·.1)))
  | '-' :: letter :: rest =>
    match flagOf? ['-', letter] with
    | some flag => .ok (.option { flag := flag, short := true, attached := some rest })
    | none => .ok (classifyOther s)
  | _ => .ok .plain

/-- What an argument before two dashes that stand alone is. -/
def classify (s : List Char) : Except UsageFault ArgumentKind :=
  match s with
  | '-' :: next :: _ =>
    let short := next != '-'
    -- A spelling in full comes before one with a value behind it, and both before a shortened one.
    match flagOf? s with
    | some flag => .ok (.option { flag := flag, short := short, attached := none })
    | none =>
      match splitEquals s with
      | (spelling, some value) =>
        match flagOf? spelling with
        | some flag => .ok (.option { flag := flag, short := short, attached := some value })
        | none => classifyShortened s
      | _ => classifyShortened s
  | _ => .ok .plain

abbrev Argument := String × ArgumentKind

def classifyAll : List String → Except UsageFault (List Argument)
  | [] => .ok []
  | s :: rest =>
    if s == "--" then .ok ((s, .separator) :: rest.map (·, .plain))
    else do
      let kind ← classify s.toList
      let more ← classifyAll rest
      pure ((s, kind) :: more)

/-! ## Taking arguments -/

structure Arguments where
  link : String
  directory : String
  token : Option String
  noEffects : Bool
  noAutoLayout : Bool
  noFlexbox : Bool
deriving DecidableEq, Repr

/-- What was taken so far. Link and directory are absent until they are taken. -/
structure Taken where
  places : Option (String × String)
  token : Option String
  noEffects : Bool
  noAutoLayout : Bool
  noFlexbox : Bool
  extras : List String
deriving DecidableEq, Repr

namespace Taken

def nothing : Taken :=
  { places := none, token := none, noEffects := false, noAutoLayout := false
    noFlexbox := false, extras := [] }

def aside (t : Taken) (arguments : List String) : Taken := { t with extras := t.extras ++ arguments }

def switch (t : Taken) : Flag → Taken
  | .noEffects => { t with noEffects := true }
  | .noAutoLayout => { t with noAutoLayout := true }
  | .noFlexbox => { t with noFlexbox := true }
  | _ => t

end Taken

inductive Stop
  | help
  | fault (f : UsageFault)
deriving DecidableEq, Repr

def defaultDirectory : String := "."

/-- What is unwanted behind a help letter in one argument: nothing where only help letters
follow, else all from the first other character on. -/
def unwantedAfterHelp? : List Char → Option (List Char)
  | [] => none
  | c :: rest => if c == 'h' then unwantedAfterHelp? rest else some (c :: rest)

def takeSwitch (t : Taken) (use : OptionUse) : Except Stop Taken :=
  match use.attached with
  | none => if use.flag = .help then .error .help else .ok (t.switch use.flag)
  | some value =>
    if use.short && !value.isEmpty then
      match unwantedAfterHelp? value with
      | some unwanted => .error (.fault (.unwantedValue use.flag unwanted))
      | none => .error .help
    else .error (.fault (.unwantedValue use.flag value))

/-- The token that an attached text is; two dashes alone count as none. -/
def attachedToken (value : List Char) : Option String :=
  if value = ['-', '-'] then none else some (String.ofList value)

/-- The link and the directory from arguments in a group each. The first two dashes that
stand alone in a group are dropped. -/
def placesOf (linkGroup directoryGroup : List String) : Option (String × String) :=
  (linkGroup.erase "--").head?.map fun link =>
    (link, (directoryGroup.erase "--").head?.getD defaultDirectory)

/-- The arguments of a group: dashes that stand alone, one other argument, and dashes again. -/
def splitGroup (arguments : List Argument) : List Argument × List Argument :=
  let isSeparator := fun a : Argument => a.2 == .separator
  let before := arguments.takeWhile isSeparator
  match arguments.dropWhile isSeparator with
  | (s, .plain) :: rest =>
    (before ++ (s, .plain) :: rest.takeWhile isSeparator, rest.dropWhile isSeparator)
  | rest => (before, rest)

def isFilled (group : List Argument) : Bool := group.any (·.2 == .plain)

/-- Takes link and directory from the front of arguments, if a link is there, and gives
the rest. -/
def takePlaces (t : Taken) (arguments : List Argument) : Taken × List Argument :=
  if t.places.isSome then (t, arguments)
  else
    let (first, rest) := splitGroup arguments
    if isFilled first then
      let (second, rest') := splitGroup rest
      ({ t with places := placesOf (first.map (·.1)) (second.map (·.1)) }, rest')
    else (t, arguments)

def isOption (a : Argument) : Bool :=
  match a.2 with
  | .option _ => true
  | .unknown => true
  | _ => false

/-- Takes arguments from left to right; `fuel` bounds their number. -/
def takeAll : Nat → Taken → List Argument → Except Stop Taken
  | 0, t, _ => .ok t
  | _, t, [] => .ok t
  | fuel + 1, t, (s, kind) :: rest =>
    match kind with
    | .unknown => takeAll fuel (t.aside [s]) rest
    | .option use =>
      if use.flag = .token then
        match use.attached, rest with
        | some value, _ => takeAll fuel { t with token := attachedToken value } rest
        | none, (value, .plain) :: rest' => takeAll fuel { t with token := some value } rest'
        | none, _ => .error (.fault (.missingValue .token))
      else do takeAll fuel (← takeSwitch t use) rest
    | _ =>
      -- All up to the next option is looked at together; a link alone takes no directory later.
      let here := ((s, kind) :: rest).takeWhile (!isOption ·)
      let later := ((s, kind) :: rest).dropWhile (!isOption ·)
      let (t', left) := takePlaces t here
      takeAll fuel (t'.aside (left.map (·.1))) later

def readArguments (arguments : List String) : Except Stop Arguments := do
  let classified ← (classifyAll arguments).mapError Stop.fault
  let taken ← takeAll (classified.length + 1) Taken.nothing classified
  match taken.places with
  | none => .error (.fault .missingLink)
  | some (link, directory) =>
    if taken.extras.isEmpty then
      pure { link := link, directory := directory, token := taken.token
             noEffects := taken.noEffects, noAutoLayout := taken.noAutoLayout
             noFlexbox := taken.noFlexbox }
    else .error (.fault (.unrecognized taken.extras))

/-! ## What is told about it -/

def usage : String :=
  "usage: figma-to-html [-h] [--token TOKEN] [--no-effects] [--no-auto-layout]\n"
    ++ "                     [--no-flexbox]\n"
    ++ "                     figma_url [output_dir]\n"

def helpText : String :=
  usage ++ "\nConvert a Figma frame to HTML and CSS\n\n"
    ++ "positional arguments:\n"
    ++ "  figma_url         Figma file or frame link\n"
    ++ "  output_dir        Output directory (default: .)\n\n"
    ++ "options:\n"
    ++ "  -h, --help        show this help message and exit\n"
    ++ "  --token TOKEN     Figma access token (default: $FIGMA_ACCESS_TOKEN)\n"
    ++ "  --no-effects      Skip shadows and blurs\n"
    ++ "  --no-auto-layout  Treat auto-layout frames as plain boxes\n"
    ++ "  --no-flexbox      Do not emit flexbox declarations\n\n"
    ++ "To get your access token:\n"
    ++ "  Figma Settings > Account > Personal Access Tokens\n"
    ++ "The link may point at a file or at a single frame (node-id=...).\n"

def complaint (f : UsageFault) : String := usage ++ "figma-to-html: error: " ++ f.message ++ "\n"

end DesignMarkup.Command
