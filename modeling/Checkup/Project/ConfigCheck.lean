import Checkup.Pattern.Class
import Checkup.Project.Folder
import Checkup.Project.TsConfig
import Checkup.Rule.Basic

/-!
# Checks of the configuration

Findings about the settings of a project: those of the compiler, and those in the configuration of Next.js.

* `tsConfigFindings`, `nextConfigFindings`: the findings about one file.
* `configFindings`: the findings about all of them.
-/

namespace Checkup

open Pattern

/-- Compiler: the strict checks are off. -/
def strictOff : RuleInfo where
  id := "config-ts-strict"
  title := "TypeScript strict mode is off"
  impact := .medium
  severity := .bestPractice
  description := "Without strict mode, null checks and implicit any go unchecked."
  referenceUrl := "https://www.typescriptlang.org/tsconfig#strict"

/-- Compiler: markup is compiled the old way. -/
def classicJsx : RuleInfo where
  id := "config-jsx-classic"
  title := "Classic JSX runtime"
  impact := .low
  severity := .bestPractice
  description := "The classic runtime needs React in scope in every file; the automatic runtime does not."
  referenceUrl := "https://legacy.reactjs.org/blog/2020/09/22/introducing-the-new-jsx-transform.html"

/-- Compiler: the output is for engines of long ago. -/
def legacyTarget : RuleInfo where
  id := "config-legacy-target"
  title := "Legacy compile target"
  impact := .mediumHigh
  severity := .performance
  description := "ES3/ES5 output down-levels every modern feature and bloats the bundle."
  referenceUrl := "https://www.typescriptlang.org/tsconfig#target"

/-- Next.js: the strict mode of React is off. -/
def reactStrictModeOff : RuleInfo where
  id := "config-next-strict-mode"
  title := "React strict mode disabled"
  impact := .medium
  severity := .bestPractice
  description := "Strict mode surfaces unsafe effects and deprecated APIs during development."
  referenceUrl := "https://nextjs.org/docs/app/api-reference/next-config-js/reactStrictMode"

/-- Next.js: images are served as they are. -/
def unoptimizedImages : RuleInfo where
  id := "config-next-unoptimized-images"
  title := "Image optimization disabled"
  impact := .high
  severity := .performance
  description := "Unoptimized images ship at full size and in their original format."
  referenceUrl := "https://nextjs.org/docs/app/api-reference/components/image#unoptimized"

/-- A finding if the condition holds. -/
def findingIf (condition : Bool) (f : Finding) : List Finding := if condition then [f] else []

/-- The targets for engines of long ago, in lower case. -/
def legacyTargets : List Text := ["es3".toList, "es5".toList]

/-- The findings about the compiler options. -/
def tsConfigFindings (c : TsConfig) : List Finding :=
  let target := c.target.getD ""
  findingIf (!c.isStrict)
      (strictOff.fileFinding TsConfig.fileName "compilerOptions.strict is not enabled" "Set \"strict\": true") ++
    findingIf (c.jsx == some "react")
      (classicJsx.fileFinding TsConfig.fileName "compilerOptions.jsx is \"react\" (classic runtime)"
        "Use \"react-jsx\", or \"preserve\" in Next.js projects") ++
    findingIf (legacyTargets.contains (Text.toLowerAscii target.toList))
      (legacyTarget.fileFinding TsConfig.fileName s!"compilerOptions.target is {target}" "Target ES2017 or later")

/-- A name that is set to a value. -/
def setting (name value : String) : Pattern :=
  seqAll [wordBoundary, lit name, blanks, lit ":", blanks, lit value, wordBoundary]

/-- The findings about a configuration of Next.js. -/
def nextConfigFindings (name : String) (content : Text) : List Finding :=
  findingIf ((setting "reactStrictMode" "false").occurs content)
      (reactStrictModeOff.fileFinding name "reactStrictMode is set to false" "Remove the override or set it to true") ++
    findingIf ((setting "unoptimized" "true").occurs content)
      (unoptimizedImages.fileFinding name "images.unoptimized is set to true"
        "Let next/image optimize, or configure a loader for static exports")

/-- The names that the configuration of Next.js may have. -/
def nextConfigNames : List String :=
  ["next.config.js", "next.config.mjs", "next.config.cjs", "next.config.ts", "next.config.mts"]

/-- The findings about the settings of the project in a directory. A configuration of Next.js that is no text is
passed over. -/
def configFindings (f : Folder) (root : String) (c : Option TsConfig) : List Finding :=
  (c.map tsConfigFindings).getD [] ++
    nextConfigNames.flatMap fun name =>
      match (f.fileAt? (joinPath root name)).bind Utf8.text? with
      | some content => nextConfigFindings name content
      | none => []

end Checkup
