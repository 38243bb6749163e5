import DocShell.CommandLine.Arguments

namespace DocShell.CommandLine

/-! # The manual

What the program tells those who ask for help, and those whose command line makes no
sense. Nothing in a run depends on these texts. -/

structure Manual where
  help : Topic → String
  complaint : (arguments : List String) → String

namespace Manual

def table (title : String) (rows : List (String × String)) : String :=
  let width := rows.foldl (fun width (name, _) => max width name.length) 0
  let row := fun (name, purpose) =>
    "  " ++ name ++ String.ofList (.replicate (width + 2 - name.length) ' ') ++ purpose ++ "\n"
  "\n" ++ title ++ ":\n" ++ String.join (rows.map row)

def page (purpose usage : String) (tables : List String) : String :=
  purpose ++ "\n\nUsage: ejson " ++ usage ++ "\n" ++ String.join tables

def purpose : Task → String
  | .encode => "Encode canonical Extended JSON as shell text"
  | .decode => "Decode shell text to canonical Extended JSON"
  | .command => "Translate a db.<collection>.<operation>(...) chain into a database command"

def helpPurpose : String := "Print this message or the help of the given subcommand(s)"

def verboseRow : String × String :=
  ("    --verbose", "Log codec activity to stderr at debug level")

def helpRow : String × String := ("-h, --help", "Print help")

def rows (task : Task) : List (String × String) :=
  let files :=
    [("-i, --input <INPUT>", "Input file (reads from stdin if omitted)"),
      ("-o, --output <OUTPUT>", "Output file (writes to stdout if omitted)")]
  let layout := match task with
    | .encode =>
        [("    --indent <INDENT>",
          "Spaces per nesting level; 0 prints a single line [default: 2]")]
    | .decode => []
    | .command =>
        [("    --shell", "Print the command as shell text instead of Extended JSON"),
          ("    --indent <INDENT>", "Spaces per nesting level for --shell output [default: 2]")]
  files ++ layout ++ [verboseRow, helpRow]

def standard : Manual where
  help
    | .program =>
        page "Mongo shell syntax ⇄ canonical Extended JSON" "[OPTIONS] <COMMAND>"
          [table "Commands"
            (Task.all.map (fun task => (task.name, purpose task)) ++ [("help", helpPurpose)]),
          table "Options" [verboseRow, helpRow, ("-V, --version", "Print version")]]
    | .task task =>
        page (purpose task) (task.name ++ " [OPTIONS]") [table "Options" (rows task)]
    | .help =>
        page helpPurpose "help [COMMAND]..."
          [table "Arguments" [("[COMMAND]...", "Print help for the subcommand(s)")]]
  complaint _ := "Usage: ejson [OPTIONS] <COMMAND>\n\nFor more information, try '--help'.\n"

end Manual

end DocShell.CommandLine
