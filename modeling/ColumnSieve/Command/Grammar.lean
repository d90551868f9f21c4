/-!
# The grammar of a command line

A command line consists of options, operands and the names of commands.  An option has a long
name, often a short one, and may take a value: `--name value`, `--name=value`, `-n value`,
`-nvalue` and `-n=value` say the same.  Short options without a value can share a dash.  Behind
`--` everything is an operand.

* `OptionSpec`  — an option that a command knows;
* `Item`        — one thing that a command line says;
* `readOptions` — what a command line says, in order.
-/

namespace ColumnSieve.Command

structure OptionSpec (κ : Type) where
  key : κ
  short : Option Char
  long : String
  takesValue : Bool

/-- One thing that a command line says. -/
inductive Item (κ : Type) where
  | flag (key : κ)
  | value (key : κ) (text : String)
  | operand (text : String)
  /-- A command, with all that stands behind its name. -/
  | command (name : String) (arguments : List String)
  /-- Something that the grammar does not allow; what follows it has no meaning. -/
  | wrong
  deriving DecidableEq, Repr

variable {κ : Type}

/-- Short options behind one dash, and the option that still waits for its value. -/
def readShort (options : List (OptionSpec κ)) : List Char → List (Item κ) × Option κ
  | [] => ([], none)
  | c :: rest =>
    match options.find? fun option => option.short == some c with
    | none => ([.wrong], none)
    | some option =>
      if option.takesValue then
        match rest with
        | [] => ([], some option.key)
        | '=' :: text => ([.value option.key (String.ofList text)], none)
        | text => ([.value option.key (String.ofList text)], none)
      else
        let (items, waiting) := readShort options rest
        (.flag option.key :: items, waiting)

/-- A long option, without its dashes.  Only its full name will do. -/
def readLong (options : List (OptionSpec κ)) (text : List Char) : List (Item κ) × Option κ :=
  let name := String.ofList (text.takeWhile (· ≠ '='))
  match options.find? fun option => option.long == name with
  | none => ([.wrong], none)
  | some option =>
    match option.takesValue, text.dropWhile (· ≠ '=') with
    | true, [] => ([], some option.key)
    | true, _ :: value => ([.value option.key (String.ofList value)], none)
    | false, [] => ([.flag option.key], none)
    | false, _ :: _ => ([.wrong], none)

/-- Reads arguments, given the option that waits for its value.  A value that stands apart must
not look like an option; a dash alone does not. -/
def readOptions (options : List (OptionSpec κ)) (commands : List String) :
    Option κ → List String → List (Item κ)
  | none, [] => []
  | some _, [] => [.wrong]
  | waiting, argument :: arguments =>
    match waiting, argument.toList with
    | some _, '-' :: _ :: _ => [.wrong]
    | some key, _ => .value key argument :: readOptions options commands none arguments
    | none, ['-', '-'] => arguments.map .operand
    | none, '-' :: '-' :: text =>
      let (items, waiting) := readLong options text
      items ++ readOptions options commands waiting arguments
    | none, '-' :: c :: text =>
      let (items, waiting) := readShort options (c :: text)
      items ++ readOptions options commands waiting arguments
    | none, _ =>
      if commands.contains argument then [.command argument arguments]
      else .operand argument :: readOptions options commands none arguments

end ColumnSieve.Command
