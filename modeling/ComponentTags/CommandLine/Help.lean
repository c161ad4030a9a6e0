import ComponentTags.CommandLine.Invocation

/-!
What the program tells of itself: its commands and options, and why it stopped reading its arguments.
-/

namespace ComponentTags.CommandLine

def OptionRule.usage (rule : OptionRule) : String :=
  (match rule.letter with
    | some letter => "-" ++ String.singleton letter ++ ", "
    | none => "    ")
  ++ "--" ++ rule.name
  ++ match rule.kind with
    | .path => " <PATH>"
    | .choice texts => " <" ++ joinTexts "|" texts ++ ">"
    | _ => ""

def CommandRule.usage (rule : CommandRule) : List String :=
  ["Usage: " ++ rule.name ++ " [OPTIONS]"
    ++ (if rule.needsOperands then " <PATH|GLOB>..." else "")
    ++ if rule.commands.isEmpty then "" else " <COMMAND>"]
  ++ rule.commands.map (fun command => "  " ++ command.name)
  ++ rule.options.map fun option => "  " ++ option.usage

def Stop.text : Stop → String
  | help | helpInstead => joinTexts "\n" Invocation.programRule.usage
  | version => Invocation.programRule.name ++ " 0.3.2"
  | commandMissing => "error: a command is missing"
  | commandUnknown => "error: there is no such command"
  | argumentUnknown => "error: there is no such argument"
  | valueInvalid => "error: an option needs a value that it allows"
  | valueUnneeded => "error: an option takes no value"
  | conflict => "error: options exclude each other, or one was given twice"
  | operandMissing => "error: a path or a pattern is missing"

end ComponentTags.CommandLine
