import KernelReach.Command.Table

/-!
# Scripts for shells

A script makes a shell ask the program how a command goes on while it is being typed.
-/

namespace KernelReach

open Command (lines)

/-- The script for a shell. The choices are shown with what they are for, where the shell can do
    that, unless they are to be plain. -/
def Shell.script (plain : Bool) : Shell → String
  | bash => lines [
    "# bash completion for kernelscan",
    "",
    "__kernelscan_complete()",
    "\x7b",
    "    local out",
    "    out=$(\"$1\" __completeNoDesc \"$\x7bCOMP_WORDS[@]:1:COMP_CWORD\x7d\" 2>/dev/null)",
    "    mapfile -t COMPREPLY < <(head -n -1 <<< \"$out\")",
    "\x7d",
    "",
    "complete -o default -F __kernelscan_complete kernelscan",
    ""]
  | fish => lines [
    "# fish completion for kernelscan",
    "",
    "function __kernelscan_complete",
    "    set -l words (commandline -opc) (commandline -ct)",
    "    $words[1] " ++ request ++ " $words[2..-1] 2>/dev/null | string match -v ':*'",
    "end",
    "",
    "complete -c kernelscan -a '(__kernelscan_complete)'",
    ""]
  | powershell => lines [
    "# powershell completion for kernelscan",
    "",
    "Register-ArgumentCompleter -Native -CommandName kernelscan -ScriptBlock \x7b",
    "    param($word, $typed, $position)",
    "    $words = @($typed.CommandElements | Select-Object -Skip 1)",
    "    $words = @($words | ForEach-Object \x7b \"$_\" \x7d)",
    "    if (-not $word) \x7b $words += '' \x7d",
    "    & kernelscan __completeNoDesc @words 2>$null | Where-Object \x7b $_ -notlike ':*' \x7d",
    "\x7d",
    ""]
  | zsh => lines [
    "#compdef kernelscan",
    "",
    "_kernelscan()",
    "\x7b",
    "    local -a choices",
    "    choices=(\"$\x7b(@f)$($words[1] " ++ request
      ++ " \"$\x7b(@)words[2,CURRENT]\x7d\" 2>/dev/null)\x7d\")",
    "    choices=(\"$\x7b(@)choices[1,-2]//$'\\t'/:\x7d\")",
    "    _describe 'command' choices",
    "\x7d",
    "",
    "compdef _kernelscan kernelscan",
    ""]
where
  /-- The command that tells the choices. -/
  request : String := if plain then "__completeNoDesc" else "__complete"

end KernelReach
