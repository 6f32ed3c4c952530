/-
  The commands of the program.  A request is what a list of arguments asks for: a run of one
  command, the version, help, or nothing that could be done.
-/
import Schemata.Schema.Basic

namespace Schemata

/-- A command with its operands and options. -/
inductive Command where
  /-- Writes the statements of a document in their canonical form. -/
  | format (file : String) (table : Option String)
  /-- Shows the schema of a document. -/
  | inspect (file : String) (yaml : Bool)
  /-- Writes the statements of a schema file. -/
  | generate (file : String) (table : Option String)
deriving DecidableEq, Repr

/-- The file that a command reads; `-` stands for the standard input. -/
def Command.file : Command → String
  | format file _ | inspect file _ | generate file _ => file

/-- A command with the options that stand before it. -/
structure Invocation where
  verbose : Bool
  command : Command
deriving DecidableEq, Repr

/-- What some arguments ask for. -/
inductive Request where
  | run (invocation : Invocation)
  | version
  | help
  /-- The arguments are not those of a request. -/
  | misuse
deriving DecidableEq, Repr

/-- The line that tells the version. -/
def versionLine : String := "schemasync 0.4.1\n"

/-- The text of the help. -/
def helpText : String :=
  "usage: schemasync [-h] [--version] [--verbose] COMMAND ...\n\n" ++
  "  format FILE [--table KEY]     write the statements of a document in canonical form\n" ++
  "  inspect FILE [--yaml]         show the schema of a document\n" ++
  "  generate FILE [--table KEY]   write the statements of a schema file\n\n" ++
  "A FILE of - is the standard input.\n"

end Schemata
