import Checkup.Project.Manifest
import Checkup.Project.Stats
import Checkup.Project.TsConfig
import Checkup.Rule.Basic
import Checkup.Source.Directive
import Checkup.Source.File
import Checkup.Source.Path

/-!
# Surveys

A survey counts what a project consists of.

* `ProjectStats.ofProject`: the statistics of a project.
* `statsFindings`: what they give reason to report.
-/

namespace Checkup

/-- A file is very long. -/
def oversizedFile : RuleInfo where
  id := "stats-oversized-file"
  title := "Oversized file"
  impact := .low
  severity := .bestPractice
  description := "Very long source files are hard to review and usually mix several concerns."
  referenceUrl := "https://react.dev/learn/thinking-in-react"

/-- Most components run in the browser. -/
def clientHeavy : RuleInfo where
  id := "stats-client-heavy"
  title := "Mostly client components"
  impact := .medium
  severity := .info
  description := "Most components opt out of server rendering, which grows the client bundle."
  referenceUrl := "https://nextjs.org/docs/app/building-your-application/rendering/composition-patterns"

/-- The part of components in the browser above which a project is reported. -/
def clientHeavyRatio : Float := 0.6

/-- The statistics of a project with the given files, in which more lines than `limit` are too many. -/
def ProjectStats.ofProject (files : List SourceFile) (manifest : Option Manifest) (tsConfig : Option TsConfig)
    (limit : Nat) : ProjectStats :=
  let components := files.filter fun f => Path.isJsx f.path
  { reactVersion := manifest.bind fun m => m.versionOf "react"
    nextVersion := manifest.bind fun m => m.versionOf "next"
    usesNext := manifest.any Manifest.usesNext
    totalFiles := files.length
    clientComponents := components.countP fun f => isClientFile f.content
    serverComponents := components.countP fun f => !isClientFile f.content
    oversizedFiles := (files.filter fun f => limit < f.lineCount).map fun f => ⟨f.path, f.lineCount⟩
    typescriptStrict := tsConfig.any TsConfig.isStrict
    jsx := tsConfig.bind TsConfig.jsx
    target := tsConfig.bind TsConfig.target }

/-- The finding about a file with more lines than `limit`. -/
def oversizedFinding (limit : Nat) (f : OversizedFile) : Finding :=
  oversizedFile.fileFinding f.path s!"{f.lines} lines (limit {limit})"
    "Split it into smaller components or modules"

/-- The finding about a project of which the given part of the components runs in the browser. -/
def clientHeavyFinding (s : ProjectStats) (ratio : Float) : Finding :=
  let percent := Decimal.fixedText (ratio * 100) 0
  clientHeavy.fileFinding ""
    s!"{percent}% of components are client components ({s.clientComponents} of {s.components})"
    "Push \"use client\" down to the interactive leaves of the tree"

/-- What the statistics give reason to report. -/
def statsFindings (s : ProjectStats) (limit : Nat) : List Finding :=
  s.oversizedFiles.map (oversizedFinding limit) ++
    match s.clientRatio with
    | some ratio => if s.usesNext && clientHeavyRatio < ratio then [clientHeavyFinding s ratio] else []
    | none => []

end Checkup
