import Checkup.Rule.Await
import Checkup.Rule.Boundary
import Checkup.Rule.Bundle
import Checkup.Rule.Composition
import Checkup.Rule.Iteration
import Checkup.Rule.Rendering
import Checkup.Rule.Rerender
import Checkup.Rule.Route

/-!
# All rules

`builtinRules` lists the rules in the order in which they look at a file.
-/

namespace Checkup

/-- The rules, in order. -/
def builtinRules (tables : RuleTables) : List Rule := [
  asyncParallel, asyncWaterfall, awaitInLoop, deferAwait,
  heavyImport tables, barrelImport tables, lodashFull,
  unauthenticatedAction tables, secretInClient, serverImportInClient tables, inlineActionInClient,
  derivedState, functionalSetState, lazyStateInit, effectWithoutDependencies, inlineContextValue, indexKey,
  fetchInEffect,
  browserApi tables, nondeterministic tables, numericConditional, rawImage, rawAnchor, dangerousHtml,
  booleanProps tables, nestedComponent, tooManyProps,
  indexMaps, setLookups, structuredClone, noConsole, combineIterations,
  clientPage, metadataInClient, pagesRouter, redirectInTry]

/-- The rules but those with one of the ids. -/
def withoutRules (rules : List Rule) (ids : List String) : List Rule :=
  rules.filter fun r => !ids.contains r.info.id

/-- The rule with the id. -/
def findRule? (rules : List Rule) (id : String) : Option Rule := rules.find? fun r => r.info.id == id

end Checkup
