import KubeWaf.Lib.GoStrings

/-!
# Blank lines

`convert/yaml_sanitize.go`: the converter keeps runs of blank lines short, so that the YAML it
writes passes the linter.
-/

namespace KubeWaf.Seclang

open Lib

def maxYAMLEmptyLines : ℕ := 2

/-- The loop of `CollapseEmptyLines`, with the length of the run of blank lines before. -/
def collapseRuns (maxEmpty : ℕ) : ℕ → List (List Char) → List (List Char)
  | _, [] => []
  | emptyRun, line :: lines =>
    if line.all Go.isSpace then
      if emptyRun + 1 ≤ maxEmpty then [] :: collapseRuns maxEmpty (emptyRun + 1) lines
      else collapseRuns maxEmpty (emptyRun + 1) lines
    else line :: collapseRuns maxEmpty 0 lines

def collapseEmptyLines (s : List Char) (maxEmpty : ℕ) : List Char :=
  let out := (collapseRuns maxEmpty 0 ((Go.lineFeeds s).splitOn '\n')).rdropWhile List.isEmpty
  if out.isEmpty then [] else List.intercalate ['\n'] out ++ ['\n']

def sanitizeRuleComment (s : String) : String :=
  String.ofList ((collapseEmptyLines s.toList maxYAMLEmptyLines).rdropWhile (· == '\n'))

example : sanitizeRuleComment "a\r\n\n \n\n\nb\n\n" = "a\n\n\nb" := by decide

end KubeWaf.Seclang
