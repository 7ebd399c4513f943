import Checkup.Rule.Basic
import Checkup.Source.Directive
import Checkup.Source.Import
import Checkup.Source.Path

/-!
# Rules about routes

Pages and layouts that run in the browser, and functions of the router in places where they do not work.
-/

namespace Checkup

open Pattern

/-! ## Pages in the browser -/

/-- Whether the file is a page or a layout of a route. -/
def Path.isRouteEntry (path : String) : Bool :=
  let stem := Text.firstPiece (· == '.') (fileName path.toList)
  inDirectory path "app" && (stem == "page".toList || stem == "layout".toList)

/-- Describes `clientPage`. -/
def clientPageInfo : RuleInfo where
  id := "next-client-page"
  title := "Page or layout marked \"use client\""
  impact := .high
  severity := .bestPractice
  description :=
    "Making a whole route a client component ships its entire tree to the browser and gives up server rendering."
  referenceUrl := "https://nextjs.org/docs/app/building-your-application/rendering/client-components"

/-- Reports pages and layouts that run in the browser. -/
def clientPage : Rule := clientPageInfo.rule [] fun path content =>
  match Path.isRouteEntry path, findDirective content with
  | true, some (.client, line) =>
    [{ line := line
       column := 1
       message := s!"`{String.ofList (Path.fileName path.toList)}` is a client component"
       help := "Keep the route a server component and move the interactive part into a small client child" }]
  | _, _ => []

/-- An export of the data about a page. -/
def metadataExport : Pattern :=
  seqAll [lineStart, blanks, lit "export", gap,
    alt (seqAll [lit "const", gap, lit "metadata", wordBoundary])
      (seqAll [opt (lit "async" ++ gap), lit "function", gap, lit "generateMetadata", wordBoundary])]

/-- Describes `metadataInClient`. -/
def metadataInClientInfo : RuleInfo where
  id := "next-metadata-client"
  title := "Metadata exported from a client component"
  impact := .high
  severity := .critical
  description :=
    "Next.js ignores metadata and generateMetadata in client components, so the page ships without its title and tags."
  referenceUrl := "https://nextjs.org/docs/app/building-your-application/optimizing/metadata"

/-- Reports data about a page in files that run in the browser. -/
def metadataInClient : Rule := metadataInClientInfo.rule [["etadata"]] fun _ content =>
  if !isClientFile content then []
  else
    (metadataExport.findAll content).map fun m =>
      Spot.atOffset content m.inkStart "metadata export in a \"use client\" file is ignored"
        "Move the metadata export into a server page or layout"

/-! ## The router -/

/-- Describes `pagesRouter`. -/
def pagesRouterInfo : RuleInfo where
  id := "next-router-app-dir"
  title := "next/router used in the App Router"
  impact := .high
  severity := .critical
  description := "next/router only works in the Pages Router; under app/ it throws at runtime."
  referenceUrl :=
    "https://nextjs.org/docs/app/api-reference/functions/use-router#migrating-from-nextrouter"

/-- Reports imports of the other router. -/
def pagesRouter : Rule := pagesRouterInfo.rule [["next/router"]] fun path content =>
  if !Path.inDirectory path "app" then []
  else
    ((imports content).filter fun r => r.specifier == "next/router".toList).map fun r =>
      Spot.atOffset content r.offset "`next/router` imported under app/"
        "Import `useRouter`, `usePathname` or `useSearchParams` from `next/navigation`"

/-- The start of a `try` block. -/
def tryStart : Pattern := seqAll [wordBoundary, lit "try", blanks, lit "\x7b"]

/-- A call that leaves the page by an exception. Group 1 is its name. -/
def navigationCall : Pattern :=
  seqAll [wordBoundary, group 1 (anyOf [lit "redirect", lit "notFound", lit "permanentRedirect"]), blanks, lit "("]

/-- The calls in `try` blocks that leave the page: offset and name. A call in nested blocks is listed once for each. -/
def navigationsInTry (content : Text) : List (Nat × Text) :=
  (tryStart.findAll content).flatMap fun m =>
    match Text.blockEnd content (m.stop - 1) with
    | none => []
    | some close =>
      (navigationCall.findAll (Text.slice content m.stop close)).filterMap fun call =>
        (call.group? 1).map fun name => (m.stop + call.start, name.text)

/-- The list without the pairs whose number has come before. -/
def firstOfEach {α : Type} (seen : List Nat) : List (Nat × α) → List (Nat × α)
  | [] => []
  | (n, x) :: rest => if seen.contains n then firstOfEach seen rest else (n, x) :: firstOfEach (n :: seen) rest

/-- Describes `redirectInTry`. -/
def redirectInTryInfo : RuleInfo where
  id := "next-redirect-in-try"
  title := "redirect() inside try"
  impact := .medium
  severity := .bestPractice
  description :=
    "redirect() and notFound() throw a special error; a surrounding catch swallows it and the navigation never happens."
  referenceUrl := "https://nextjs.org/docs/app/api-reference/functions/redirect"

/-- Reports calls in `try` blocks that leave the page. -/
def redirectInTry : Rule := redirectInTryInfo.rule [["try"]] fun _ content =>
  Spot.sort <| (firstOfEach [] (navigationsInTry content)).map fun (offset, name) =>
    Spot.atOffset content offset s!"`{String.ofList name}()` is called inside a try block"
      "Call it after the try/catch, or rethrow with `unstable_rethrow(error)` in the catch"

end Checkup
