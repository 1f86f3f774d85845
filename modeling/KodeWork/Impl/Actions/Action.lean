import KodeWork.Impl.Host
import KodeWork.Impl.History.Commands

/-!
# Actions and their command lines

`Action` of `kodework-domain` with `validate_action` and `classify_danger`,
`action_requires_confirmation` of `kodework-core`, and what
`kodework-core/src/session/run.rs` makes of an action for the remote shell:
`build_action_command`, `build_run_script` and the lines that are sent.

The columns of a project that no modelled function reads (its name, directory and
runtime) are left out.
-/

namespace KW.Actions

structure ActionId where
  uuid : Nat
deriving DecidableEq, Repr

structure ProjectId where
  uuid : Nat
deriving DecidableEq, Repr

inductive DangerLevel
  | safe
  | review
  | dangerous
deriving DecidableEq, Repr

inductive ConfirmationPolicy
  | never
  | onDangerous
  | always
deriving DecidableEq, Repr

structure Project where
  id : ProjectId
  hostId : HostId
deriving DecidableEq, Repr

structure Action where
  id : ActionId
  projectId : ProjectId
  name : Text
  command : Text
  mode : ActionMode
  cwd : Option Text
  timeoutMs : Option Nat
  /-- As declared; `classifyDanger` is what counts. -/
  dangerLevel : DangerLevel
  confirmation : ConfirmationPolicy
  /-- In the order of its keys. -/
  env : List (Text × Text)
deriving DecidableEq, Repr

/-! ## Texts -/

/-- `trim()`. -/
def trim (t : Text) : Text := (t.dropWhile Text.isWhitespace).rdropWhile Text.isWhitespace

/-- `split_whitespace()`. -/
def splitWhitespace (t : Text) : List Text := (t.splitOnP Text.isWhitespace).filter fun w => !w.isEmpty

/-- `to_ascii_lowercase()`. -/
def toAsciiLowercase (t : Text) : Text := t.map Char.toLower

/-- `join(separator)`. -/
def join (separator : Text) (parts : List Text) : Text := separator.intercalate parts

/-! ## Danger -/

/-- `tokens[index + 1..].iter().take(4)` has an option with the letter. -/
def hasFlag (letter : Char) (tokens : List Text) : Bool :=
  (tokens.take 4).any fun flag => Text.startsWith flag ['-'] && flag.any (· == letter)

def rmRecursiveForce (tokens : List Text) : Bool :=
  tokens.tails.any fun
    | [] => false
    | token :: rest => token == "rm".toList && hasFlag 'r' rest && hasFlag 'f' rest

def pipeToShell (command : Text) : Bool :=
  ["| sh", "|sh", "| bash", "|bash", "| zsh", "|zsh", "| fish", "|fish", "| python", "|python", "| perl",
    "|perl"].any fun suffix => Text.contains command suffix.toList

def containsShellComposition (command : Text) : Bool :=
  command.any fun c =>
    ['\r', '\n', ';', '|', '&', '>', '<', Char.ofNat 0x60, '$', '\\', '(', ')', '\x7b', '\x7d'].contains c

/-- What makes a command dangerous wherever it stands in it. -/
def dangerousPhrases : List String :=
  ["git reset --hard", "git clean -fd", "git clean -xdf", "mkfs", "shutdown", "reboot", "poweroff",
    "deploy-prod", "terraform destroy", "kubectl delete", "helm uninstall", "docker system prune",
    "docker volume prune", "git push --force", ":()\x7b :|:& \x7d;:"]

def reviewPhrases : List String := ["sudo ", "chmod ", "chown ", "systemctl ", "kill "]

def clearlyObservational : List String :=
  ["pwd", "whoami", "id", "date", "uname", "hostname", "git status", "git diff", "git log", "ls", "ll",
    "cat", "head", "tail", "echo", "printf", "which", "command -v", "tmux ls"]

def classifyDanger (command : Text) : DangerLevel :=
  let lowered := toAsciiLowercase command
  let normalized := toAsciiLowercase (join [' '] (splitWhitespace command))
  let contains (phrase : String) : Bool := Text.contains normalized phrase.toList
  let dangerous :=
    rmRecursiveForce (normalized.splitOn ' ') || dangerousPhrases.any contains ||
      (contains "find " && contains " -delete") || (contains "curl " && pipeToShell normalized) ||
      (contains "wget " && pipeToShell normalized) ||
      (Text.contains lowered "dd if=".toList && Text.contains lowered " of=/dev/".toList)
  if dangerous then .dangerous
  else if containsShellComposition command then .review
  else if reviewPhrases.any contains then .review
  else if clearlyObservational.any fun phrase =>
      normalized == phrase.toList || Text.startsWith normalized (phrase.toList ++ [' ']) then .safe
  else .review

/-! ## Checks -/

/-- The cases of `DomainError` that `validate_action` gives. -/
inductive ActionError
  | emptyField (field : Text)
  | emptyCommand
  | invalidRemotePath
deriving DecidableEq, Repr

def ActionError.message : ActionError → Text
  | .emptyField field => (DomainError.emptyField field).message
  | .emptyCommand => "action command must not be empty".toList
  | .invalidRemotePath => DomainError.invalidRemotePath.message

def validateAction (action : Action) : Except ActionError Unit :=
  if Text.isBlank action.name then .error (.emptyField "action.name".toList)
  else if Text.isBlank action.command then .error .emptyCommand
  else if action.cwd.any fun cwd => !(validateRemotePath cwd).isOk then .error .invalidRemotePath
  else .ok ()

def actionRequiresConfirmation (action : Action) : Bool :=
  match action.confirmation with
  | .always => true
  | .onDangerous | .never => classifyDanger action.command != .safe

/-! ## Command lines -/

/-- `shell_quote`. -/
def shellQuote (value : Text) : Except Text Text :=
  if value.any fun c => c == '\x00' || c == '\n' || c == '\r' then
    .error "字段包含不允许的控制字符".toList
  else .ok (['\''] ++ (value.flatMap fun c => if c = '\'' then "'\\''".toList else [c]) ++ ['\''])

def validEnvKey : Text → Bool
  | [] => false
  | first :: rest => (first == '_' || first.isAlpha) && rest.all fun c => c == '_' || c.isAlphanum

def shellCd (path : Text) : Except Text Text :=
  match validateRemotePath path with
  | .error error => .error error.message
  | .ok () =>
    if Text.startsWith path ['~', '/'] then
      (shellQuote (path.drop 2)).map fun quoted => "cd -- \"$HOME\" && cd -- ".toList ++ quoted
    else if path = ['~'] then .ok "cd -- \"$HOME\"".toList
    else (shellQuote path).map fun quoted => "cd -- ".toList ++ quoted

/-- One assignment of the environment. -/
def envPart (entry : Text × Text) : Except Text Text :=
  if validEnvKey entry.1 then (shellQuote entry.2).map fun quoted => entry.1 ++ '=' :: quoted
  else .error ("环境变量名无效: ".toList ++ entry.1)

def buildActionCommand (action : Action) : Except Text Text := do
  let env ← action.env.mapM envPart
  let cd ←
    match action.cwd with
    | none => .ok []
    | some cwd => (shellCd cwd).map fun cd => [cd]
  .ok (trim (join " && ".toList (env ++ cd ++ [action.command])))

def buildRunScript (command runKey : Text) : Except Text Text :=
  (shellQuote command).map fun quotedCommand =>
    "umask 077 || exit 125; base=\"$HOME/.cache/kodework/runs/".toList ++ runKey ++
    ("\"; if ! mkdir -p -- \"$base\"; then exit 125; fi; started_tmp=\"$base/started_at_s.tmp.$$\"; " ++
      "if ! date +%s > \"$started_tmp\" || ! mv -f -- \"$started_tmp\" \"$base/started_at_s\"; " ++
      "then rm -f -- \"$started_tmp\"; exit 125; fi; sh -lc ").toList ++ quotedCommand ++
    ("; code=$?; finished_tmp=\"$base/finished_at_s.tmp.$$\"; exit_tmp=\"$base/exit_code.tmp.$$\"; " ++
      "if ! date +%s > \"$finished_tmp\" || ! mv -f -- \"$finished_tmp\" \"$base/finished_at_s\"; " ++
      "then rm -f -- \"$finished_tmp\" \"$exit_tmp\"; exit 125; fi; " ++
      "if ! printf '%s\\n' \"$code\" > \"$exit_tmp\" || ! mv -f -- \"$exit_tmp\" \"$base/exit_code\"; " ++
      "then rm -f -- \"$exit_tmp\"; exit 125; fi; exit \"$code\"").toList

/-- What is sent to the remote side for an action. -/
inductive CommandLine
  /-- typed into the first pane -/
  | pane (line : Text)
  /-- run over an exec channel -/
  | exec (line : Text) (timeoutMs : Nat)
deriving DecidableEq, Repr

/-- `DEFAULT_COMMAND_TIMEOUT`. -/
def defaultCommandTimeoutMs : Nat := 30000

/-- The refusal of an action that is not confirmed. -/
def confirmationRequired : Text := "该动作需要确认后才能运行".toList

/-- `run_action_with_id` up to the call that sends the line; `fresh` is the id it draws
if it is given none. -/
def commandLine (action : Action) (confirmed : Bool) (run : Option RunId) (fresh : RunId) :
    Except Text CommandLine := do
  if actionRequiresConfirmation action && !confirmed then throw confirmationRequired
  let command ← buildActionCommand action
  let key := (History.runKey (run.getD fresh)).toList
  match action.mode with
  | .interactive => .ok (.pane (command ++ ['\r']))
  | .quick => do
    let script ← buildRunScript command key
    .ok (.exec script (action.timeoutMs.getD defaultCommandTimeoutMs))
  | .background => do
    let script ← buildRunScript command key
    let quoted ← shellQuote script
    .ok (.exec ("tmux new-session -d -s kodework-run-".toList ++ key ++ " -- sh -lc ".toList ++ quoted)
      defaultCommandTimeoutMs)

end KW.Actions
