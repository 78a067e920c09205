import Perdure.CommandLine.Arguments

/-!
# Help texts

What is told about the program and its commands.  A page says what its topic is for and how it is
called, and lists what can be given.  The entries of a list stand in two columns; where that would
break a text over lines, and on the full page of a topic that has more to tell than its summary,
each text stands below its entry.

## Main definitions

* `HelpPage` — the parts of a page.
* `HelpTopic.page` — the page of a topic.
* `HelpPage.lines` — a page, line by line.
-/

namespace Perdure

/-- How the entries of a page are laid out. -/
inductive HelpLayout where
  /-- Each text beside its entry. -/
  | columns
  /-- Each text below its entry. -/
  | below
  /-- Each text below its entry, and blank lines between the entries. -/
  | spaced
deriving DecidableEq, Repr

/-- What can be given, and what it is for. -/
structure HelpEntry where
  term : String
  text : String
deriving DecidableEq, Repr

/-- A page of help. -/
structure HelpPage where
  /-- What the topic is for, by paragraphs. -/
  about : List String
  /-- How it is called. -/
  usage : String
  /-- Lists of entries under their titles. -/
  lists : List (String × List HelpEntry)
  layout : HelpLayout := .columns
deriving DecidableEq, Repr

namespace HelpLayout

/-- The lines of entries in two columns, the first one so many characters wide. -/
def columnLines (width : Nat) (entries : List HelpEntry) : List String :=
  entries.map fun e => "  " ++ e.term ++ String.ofList (List.replicate (width - e.term.length) ' ')
    ++ "  " ++ e.text

/-- The lines of entries. -/
def lines (layout : HelpLayout) (entries : List HelpEntry) : List String :=
  let below := entries.map fun e => ["  " ++ e.term, "          " ++ e.text]
  match layout with
  | .columns => columnLines ((entries.map (·.term.length)).foldl max 0) entries
  | .below => below.flatten
  | .spaced => (below.intersperse [""]).flatten

end HelpLayout

/-- A page, line by line. -/
def HelpPage.lines (p : HelpPage) : List String :=
  p.about.intersperse "" ++ ["", "Usage: " ++ p.usage]
    ++ p.lists.flatMap fun l => ["", l.1 ++ ":"] ++ p.layout.lines l.2

namespace HelpTopic

/-- The option that all commands have. -/
def dataFolderEntry : HelpEntry :=
  ⟨"    --data-dir <DATA_DIR>", "Path to the data directory (default: ~/.tidewater)"⟩

/-- The option by which help is asked for, with a word about other help. -/
def helpEntry (more : String) : HelpEntry := ⟨"-h, --help", "Print help" ++ more⟩

/-- What the program does with a topic. -/
def summary : HelpTopic → String
  | .program => "Tidewater - a durable workflow engine"
  | .serve => "Run the engine and deploy what appears in <data-dir>/deploy"
  | .start => "Start one instance of a deployed process and print its id"
  | .migrate => "Bring the stored state of running instances up to date"
  | .help => "Print this message or the help of the given subcommand(s)"

/-- The page of a topic, in full or as a summary. -/
def page (topic : HelpTopic) (full : Bool) : HelpPage :=
  match topic with
  | .program =>
    { about := [summary .program]
      usage := "tidewater [OPTIONS] [COMMAND]"
      lists :=
        [("Commands", [⟨"serve", summary .serve⟩, ⟨"start", summary .start⟩,
            ⟨"migrate", summary .migrate⟩, ⟨"help", summary .help⟩]),
         ("Options", [dataFolderEntry, helpEntry "", ⟨"-V, --version", "Print version"⟩])] }
  | .serve =>
    { about := [summary .serve]
      usage := "tidewater serve [OPTIONS]"
      lists :=
        [("Options",
          [dataFolderEntry,
           ⟨"    --poll-interval-ms <POLL_INTERVAL_MS>",
            "Milliseconds between two polls of the deploy directory [default: 3000]"⟩,
           ⟨"    --workers <WORKERS>",
            "Reductions allowed to run at the same time [default: 8]"⟩,
           ⟨"    --retry-failed-deployments",
            "Retry a failed deployment on the next poll instead of giving up"⟩,
           helpEntry ""])]
      layout := .below }
  | .start =>
    { about := summary .start ::
        if full then ["An instance left waiting on a timer is picked up by the next `serve`."]
        else []
      usage := "tidewater start [OPTIONS] <PROCESS_ID>"
      lists :=
        [("Arguments",
          [⟨"<PROCESS_ID>", "Id of a process from a deployment in <data-dir>/deploy"⟩]),
         ("Options",
          [dataFolderEntry,
           helpEntry (if full then " (see a summary with '-h')" else " (see more with '--help')")])]
      layout := if full then .spaced else .columns }
  | .migrate =>
    { about := [summary .migrate]
      usage := "tidewater migrate [OPTIONS]"
      lists := [("Options", [dataFolderEntry, helpEntry ""])] }
  | .help =>
    { about := [summary .help]
      usage := "tidewater help [COMMAND]..."
      lists := [("Arguments", [⟨"[COMMAND]...", "Print help for the subcommand(s)"⟩])] }

end HelpTopic

end Perdure
