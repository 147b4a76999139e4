import Brainfuck.Text.Column

/-!
The usage texts. Each is printed with an empty line after it.
-/

namespace Brainfuck.CommandLine.Usage

open Text

def top (program : String) : String :=
  unlines
    [ "Usage:",
      s!"  {program} run   [OPTIONS] \"<code>\"        # Evaluate Brainfuck code (args are concatenated)",
      s!"  {program} run   [OPTIONS] --file <PATH>   # Evaluate Brainfuck code loaded from file",
      s!"  {program} check \"<code>\" | --file <PATH>  # Check that brackets are balanced",
      s!"  {program} repl  [--bare|--editor]         # Start a Brainfuck REPL (read-eval-print loop)",
      "",
      "With no subcommand, starts the REPL.",
      s!"Run \"{program} <subcommand> --help\" for more info.",
      "" ]

def run (program : String) : String :=
  unlines
    [ "Usage:",
      s!"  {program} run [OPTIONS] \"<code>\"     # options go before the code",
      s!"  {program} run [OPTIONS] --file <PATH>",
      "",
      "Options:",
      "  --file,  -f <PATH>   Read Brainfuck code from PATH instead of positional \"<code>\"",
      "  --input, -i <TEXT>   Text consumed by ','",
      "  --input-file <PATH>  Read the text consumed by ',' from PATH",
      "  --tape-size <N>      Circular tape of N cells (0 = unbounded, the default)",
      "  --loop-max <N>       Reserved; stored but not enforced",
      "  --max-steps <N>      Abort after N executed instructions",
      "  --timeout <MS>       Abort after MS milliseconds of wall-clock time",
      "  --debug, -d          Print a step-by-step table of operations while executing",
      "  --help,  -h          Show this help",
      "",
      "Notes:",
      "- Without --input or --input-file, piped stdin is used as input.",
      "- Reading past the end of the input (`,`) is an error.",
      "- Characters outside of Brainfuck's ><+-.,[] are ignored.",
      "",
      "Examples:",
      "- Load Brainfuck code from a file:",
      s!"    {program} run --file ./program.bf",
      "- Echo two characters:",
      s!"    {program} run --input hi \",.,.\"",
      "" ]

def check (program : String) : String :=
  unlines
    [ "Usage:",
      s!"  {program} check \"<code>\"",
      s!"  {program} check --file <PATH>",
      "",
      "Options:",
      "  --file,  -f <PATH>  Read Brainfuck code from PATH instead of positional \"<code>\"",
      "  --help,  -h         Show this help",
      "",
      "Description:",
      "  Checks that every '[' has a matching ']' and prints \"ok\", or points at the",
      "  first unmatched bracket and exits with status 1.",
      "" ]

def repl (program : String) : String :=
  unlines
    [ "Usage:",
      s!"  {program} repl   # Start a Brainfuck REPL (read-eval-print loop)",
      "",
      "Options:",
      "  --help,   -h        Show this help",
      "  --bare              Force non-interactive bare mode",
      "  --editor            Force interactive editor mode (errors if stdin is not a TTY)",
      "",
      "Description:",
      "  Starts a REPL where you can enter Brainfuck code and execute it live.",
      "",
      "Notes:",
      "    - A line holding only '!' ends the program; the text after it is the input for ','.",
      "    - Ctrl+D executes the current buffer on *nix/macOS.",
      "    - Ctrl+Z and Enter will execute the current buffer on Windows.",
      "    - Ctrl+C exits the REPL immediately.",
      "    - The REPL will print a newline after each execution for readability.",
      "    - Each execution starts with a fresh tape, head and input.",
      "    - The REPL will exit after a single execution if the environment variable `BF_REPL_ONCE` is set to `1`.",
      "    - Mode selection:",
      "        * Flags: --bare|--editor override environment and auto-detection.",
      "        * Env: BF_REPL_MODE=bare|editor overrides auto-detection.",
      "        * Auto-detect: if stdin is a TTY, starts in interactive editor mode; otherwise, bare mode.",
      "        * Prompts/banners suppressed if stderr is not a TTY.",
      "" ]

def runner (program : String) : String :=
  unlines
    [ "Usage:",
      s!"  {program} [--debug|-d] \"<code>\"   # Run Brainfuck code (args are concatenated)",
      "",
      "Options:",
      "  --debug, -d   Print a step-by-step table of operations while executing",
      "  --help,  -h   Show this help",
      "",
      "Notes:",
      "- Input (`,`) reads from the whole of piped stdin; a terminal stdin is empty input.",
      "- Running past the end of the input is an error.",
      "- Characters outside of Brainfuck's ><+-.,[] are ignored.",
      "" ]

end Brainfuck.CommandLine.Usage
