import ColumnSieve.Command.Arguments

/-!
# Help

What the program prints about itself.
-/

namespace ColumnSieve.Command

def versionText : String := "msplit 0.1.0\n"

def programUsage : String :=
"Select columns of a table with queries over metadata tables

Usage: msplit [OPTIONS] <COMMAND>

Commands:
  split    Extract the columns selected by metadata queries [aliases: s]
  explain  Show how metadata queries are parsed [aliases: e]
  help     Print this message or the help of the given subcommand(s)

Options:
      --config <CONFIG>  Config file (default: $METASPLIT_CONFIG or the platform config dir)
  -v, --verbose          Log debug details
  -q, --quiet            Only log warnings and errors
  -h, --help             Print help
  -V, --version          Print version
"

def splitUsage : String :=
"Extract the columns selected by metadata queries

Usage: msplit split [OPTIONS] --meta <QUERIES> <INPUT> <OUTPUT>

Arguments:
  <INPUT>   Table to take columns from
  <OUTPUT>  Where to write the selected columns

Options:
  -m, --meta <QUERIES>
          Metadata query: <path>@<id-column><clauses>, e.g. meta.csv@id?group=a&batch!=[1,2]
      --config <CONFIG>
          Config file (default: $METASPLIT_CONFIG or the platform config dir)
      --ignore-missing
          Skip selected identifiers missing from the input instead of failing
  -v, --verbose
          Log debug details
  -d, --delimiter <DELIMITER>
          Delimiter of the input table (default from config, usually ',')
  -q, --quiet
          Only log warnings and errors
      --metadata-delimiter <METADATA_DELIMITER>
          Delimiter of the metadata tables
  -a, --always-include <ALWAYS_INCLUDE>
          Column to extract regardless of the queries (repeatable)
      --cross-source-mode <CROSS_SOURCE_MODE>
          Combine queries: union (any query) or intersect (every query)
      --intersect
          Shortcut for --cross-source-mode intersect
      --xsv <XSV>
          Program used to read and project tables
  -n, --dry-run
          Show the selected columns without extracting them
  -h, --help
          Print help
"

def explainUsage : String :=
"Show how metadata queries are parsed

Usage: msplit explain [OPTIONS] <QUERIES>...

Arguments:
  <QUERIES>...  Metadata queries to parse

Options:
      --config <CONFIG>  Config file (default: $METASPLIT_CONFIG or the platform config dir)
  -f, --format <FORMAT>  Output format: table, json [default: table]
  -v, --verbose          Log debug details
  -q, --quiet            Only log warnings and errors
  -h, --help             Print help
"

def helpUsage : String :=
"Print this message or the help of the given subcommand(s)

Usage: msplit help [COMMAND]

Arguments:
  [COMMAND]  Print help for the subcommand
"

/-- How a command is used, or the program if none is named. -/
def usage : Option Name → String
  | none => programUsage
  | some .split => splitUsage
  | some .explain => explainUsage
  | some .help => helpUsage

end ColumnSieve.Command
