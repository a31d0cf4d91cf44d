/-!
The texts that describe the command line to its users.
-/

namespace LogScript.CommandLine

/-- What a help text is about. -/
inductive Topic where
  | program
  | tokenize
  | complete
  | format
  | catalog
  | help
  deriving DecidableEq, Repr

def versionText : String :=
  "wp-lang-tools 0.2.0\n"

def Topic.text : Topic → String
  | .program =>
    "Highlighting and completion for WPL and OML\n\n" ++
    "Usage: wp-lang-tools [OPTIONS] <COMMAND>\n\n" ++
    "Commands:\n" ++
    "  tokenize  Print the token stream of a file\n" ++
    "  complete  Print the completion result for a cursor position as JSON\n" ++
    "  format    Print a WPL or OML file reformatted\n" ++
    "  catalog   Print a completion catalog as JSON\n" ++
    "  help      Print this message or the help of the given subcommand(s)\n\n" ++
    "Options:\n" ++
    "      --no-color               Disable ANSI colors in log output\n" ++
    "      --log-level <LOG_LEVEL>  Log level (otherwise RUST_LOG, default \"info\")\n" ++
    "  -h, --help                   Print help\n" ++
    "  -V, --version                Print version\n"
  | .tokenize =>
    "Print the token stream of a file\n\n" ++
    "Usage: wp-lang-tools tokenize [OPTIONS] <FILE>\n\n" ++
    "Arguments:\n" ++
    "  <FILE>  \n\n" ++
    "Options:\n" ++
    "  -l, --language <LANGUAGE>  wpl, oml, json or plain [default: wpl]\n" ++
    "      --json                 Emit JSON instead of one token per line\n" ++
    "      --all                  Include unstyled tokens\n" ++
    "  -h, --help                 Print help\n"
  | .complete =>
    "Print the completion result for a cursor position as JSON\n\n" ++
    "Usage: wp-lang-tools complete [OPTIONS] --offset <OFFSET> <FILE>\n\n" ++
    "Arguments:\n" ++
    "  <FILE>  \n\n" ++
    "Options:\n" ++
    "      --offset <OFFSET>      Cursor position as a char offset\n" ++
    "      --explicit             Force a result even with no identifier before the cursor\n" ++
    "  -l, --language <LANGUAGE>  [default: wpl]\n" ++
    "      --locale <LOCALE>      [default: zh-CN]\n" ++
    "  -h, --help                 Print help\n"
  | .format =>
    "Print a WPL or OML file reformatted\n\n" ++
    "Usage: wp-lang-tools format [OPTIONS] <FILE>\n\n" ++
    "Arguments:\n" ++
    "  <FILE>  \n\n" ++
    "Options:\n" ++
    "  -l, --language <LANGUAGE>  [default: wpl]\n" ++
    "  -h, --help                 Print help\n"
  | .catalog =>
    "Print a completion catalog as JSON\n\n" ++
    "Usage: wp-lang-tools catalog [OPTIONS]\n\n" ++
    "Options:\n" ++
    "  -l, --language <LANGUAGE>  [default: wpl]\n" ++
    "      --locale <LOCALE>      [default: zh-CN]\n" ++
    "  -h, --help                 Print help\n"
  | .help =>
    "Print this message or the help of the given subcommand(s)\n\n" ++
    "Usage: wp-lang-tools help [COMMAND]...\n\n" ++
    "Arguments:\n" ++
    "  [COMMAND]...  Print help for the subcommand(s)\n"

end LogScript.CommandLine
