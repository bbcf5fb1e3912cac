import ThemeRender.Store.Path
/-!
The words of a command line. Options stand before or after the command word, in their long form
(`--theme DIR`, `--theme=DIR`) or in their short form (`-t DIR`, `-tDIR`, `-t=DIR`), and short forms
without a value may share a dash. After `--` there are no options.
-/

namespace ThemeRender.Command

inductive Switch where
  | theme
  | config
  | verbose
  | layout
  | locals
  | fragment
deriving DecidableEq, Repr

namespace Switch

def all : List Switch := [.theme, .config, .verbose, .layout, .locals, .fragment]

def long : Switch → String
  | .theme => "theme"
  | .config => "config"
  | .verbose => "verbose"
  | .layout => "layout"
  | .locals => "locals"
  | .fragment => "partial"

def short? : Switch → Option Char
  | .theme => some 't'
  | .config => some 'c'
  | .verbose => some 'v'
  | .layout => some 'l'
  | .locals | .fragment => none

def takesValue : Switch → Bool
  | .verbose | .fragment => false
  | _ => true

def takesPath : Switch → Bool
  | .theme | .config | .locals => true
  | _ => false

/-- Whether the switch may stand on either side of the command word. -/
def isGlobal : Switch → Bool
  | .theme | .config | .verbose => true
  | _ => false

end Switch

inductive UsageError where
  | unknownOption (word : String)
  | missingValue (switch : Switch)
  | strayValue (switch : Switch)
  | repeated (switch : Switch)
  | strayWord (word : String)
  | missingCommand
  | unknownCommand (word : String)
  | missingView
deriving DecidableEq, Repr

def UsageError.message : UsageError → String
  | .unknownOption word => s!"unexpected argument '{word}' found"
  | .missingValue switch => s!"a value is required for '--{switch.long}' but none was supplied"
  | .strayValue switch => s!"unexpected value for '--{switch.long}'"
  | .repeated switch => s!"the argument '--{switch.long}' cannot be used multiple times"
  | .strayWord word => s!"unexpected argument '{word}' found"
  | .missingCommand => "a command is required"
  | .unknownCommand word => s!"unrecognized subcommand '{word}'"
  | .missingView => "the name of a view is required"

inductive CommandWord where
  | render
  | check
deriving DecidableEq, Repr

def CommandWord.ofString? : String → Option CommandWord
  | "render" => some .render
  | "check" => some .check
  | _ => none

structure Progress where
  command? : Option CommandWord
  /-- Switches before the command word, and after it. -/
  before : List (Switch × String)
  after : List (Switch × String)
  words : List String
  /-- The switch whose value the next word is. -/
  pending? : Option Switch
  /-- Whether `--` was read. -/
  wordsOnly : Bool

namespace Progress

def empty : Progress := ⟨none, [], [], [], none, false⟩

def allows (progress : Progress) (switch : Switch) : Bool :=
  switch.isGlobal || progress.command? == some .render

def give (progress : Progress) (switch : Switch) (value : String) : Except UsageError Progress :=
  if switch.takesPath ∧ value.isEmpty then .error (.missingValue switch)
  else
    match progress.command? with
    | none =>
        if (progress.before.lookup switch).isSome then .error (.repeated switch)
        else .ok { progress with before := (switch, value) :: progress.before, pending? := none }
    | some _ =>
        if (progress.after.lookup switch).isSome then .error (.repeated switch)
        else .ok { progress with after := (switch, value) :: progress.after, pending? := none }

def switch? (progress : Progress) (names : Switch → Bool) : Option Switch :=
  (Switch.all.filter progress.allows).find? names

/-- A word that starts with two dashes. -/
def addLong (progress : Progress) (word : String) (name : List Char) :
    Except UsageError Progress :=
  let (name, value?) :=
    match Text.cut? ['='] name with
    | some (name, value) => (name, some (String.ofList value))
    | none => (name, none)
  match progress.switch? (·.long.toList == name), value? with
  | none, _ => .error (.unknownOption word)
  | some switch, some value =>
      if switch.takesValue then progress.give switch value else .error (.strayValue switch)
  | some switch, none =>
      if switch.takesValue then .ok { progress with pending? := some switch }
      else progress.give switch ""

/-- The letters after a single dash. -/
def addShort (progress : Progress) (word : String) : List Char → Except UsageError Progress
  | [] => .ok progress
  | letter :: rest =>
      match progress.switch? (·.short? == some letter) with
      | none => .error (.unknownOption word)
      | some switch =>
          if switch.takesValue then
            match rest with
            | [] => .ok { progress with pending? := some switch }
            | '=' :: value => progress.give switch (String.ofList value)
            | value => progress.give switch (String.ofList value)
          else do
            let progress ← progress.give switch ""
            progress.addShort word rest

def addWord (progress : Progress) (word : String) : Except UsageError Progress :=
  match progress.command? with
  | some .render =>
      if progress.words.isEmpty then .ok { progress with words := [word] }
      else .error (.strayWord word)
  | some .check => .error (.strayWord word)
  | none =>
      if progress.wordsOnly then .error (.strayWord word)
      else
        match CommandWord.ofString? word with
        | some command => .ok { progress with command? := some command }
        | none => .error (.unknownCommand word)

def add (progress : Progress) (word : String) : Except UsageError Progress :=
  let dashed := word.toList.head? == some '-' && word != "-"
  match progress.pending? with
  | some switch => if dashed then .error (.missingValue switch) else progress.give switch word
  | none =>
      if progress.wordsOnly || !dashed then progress.addWord word
      else if word = "--" then .ok { progress with wordsOnly := true }
      else
        match word.toList with
        | '-' :: '-' :: name => progress.addLong word name
        | letters => progress.addShort word letters.tail

/-- The value of a switch; after the command word counts more than before it. -/
def value? (progress : Progress) (switch : Switch) : Option String :=
  progress.after.lookup switch <|> progress.before.lookup switch

def path? (progress : Progress) (switch : Switch) : Option Path :=
  (progress.value? switch).map Path.ofString

end Progress

inductive Task where
  | render (view : String) (layout? : Option String) (locals? : Option Path) (fragment : Bool)
  | check
deriving DecidableEq, Repr

structure Request where
  theme? : Option Path
  config? : Option Path
  verbose : Bool
  task : Task
deriving DecidableEq, Repr

def Progress.task (progress : Progress) : Except UsageError Task :=
  match progress.pending?, progress.command?, progress.words with
  | some switch, _, _ => .error (.missingValue switch)
  | none, none, _ => .error .missingCommand
  | none, some .check, _ => .ok .check
  | none, some .render, [] => .error .missingView
  | none, some .render, view :: _ =>
      .ok (.render view (progress.value? .layout) (progress.path? .locals)
        (progress.value? .fragment).isSome)

def Request.ofWords (words : List String) : Except UsageError Request := do
  let progress ← words.foldlM Progress.add Progress.empty
  return {
    theme? := progress.path? .theme
    config? := progress.path? .config
    verbose := (progress.value? .verbose).isSome
    task := ← progress.task }

end ThemeRender.Command
