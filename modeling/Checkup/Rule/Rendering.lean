import Checkup.Rule.Basic
import Checkup.Rule.Tables
import Checkup.Source.Line
import Checkup.Source.Path
import Checkup.Source.ReturnBlock
import Checkup.Text.Lowercase

/-!
# Rules about rendering

Markup that differs between server and browser, shows what it should not, or bypasses what the framework offers.
-/

namespace Checkup

open Pattern

/-- The lines of returned markup that are no comments, with their numbers. -/
def markupLines (content : Text) : List (Nat × Text) :=
  (returnedLines (numberedLines content)).filter fun (_, line) => !isCommentLine line

/-! ## Values that differ between server and browser -/

/-- A name (group 1) whose member is read and that is no member itself. -/
def memberAccess : Pattern :=
  seqAll [alt textStart (one fun c => !c.isDotted), group 1 name, lit "."]

/-- Describes `browserApi`. -/
def browserApiInfo : RuleInfo where
  id := "rendering-hydration-browser-api"
  title := "Browser API used during render"
  impact := .medium
  severity := .critical
  description :=
    "window, document and storage do not exist during server rendering and cause hydration mismatches."
  referenceUrl := "https://nextjs.org/docs/messages/react-hydration-error"

/-- Reports objects of the browser that are read while markup is rendered. -/
def browserApi (tables : RuleTables) : Rule := browserApiInfo.rule [["return"]] fun _ content =>
  if tables.hasMountGuard content then []
  else
    (markupLines content).flatMap fun (n, line) => (memberAccess.findAll line).filterMap fun m => do
      let object ← m.group? 1
      let global := String.ofList object.text
      if tables.browserGlobals.contains global then
        some <| Spot.inLine n object.start s!"`{global}` is read while rendering JSX"
          "Read browser APIs in useEffect, or render this part only after mount"
      else none

/-- An expression with another value each time. -/
def changingValue : Pattern :=
  anyOf [
    seqAll [wordBoundary, lit "new Date(", blanks, lit ")"],
    seqAll [wordBoundary, lit "Date.now(", blanks, lit ")"],
    seqAll [wordBoundary, lit "Math.random(", blanks, lit ")"]]

/-- Describes `nondeterministic`. -/
def nondeterministicInfo : RuleInfo where
  id := "rendering-hydration-nondeterministic"
  title := "Non-deterministic value rendered"
  impact := .medium
  severity := .performance
  description := "Dates and random numbers differ between the server render and hydration."
  referenceUrl := "https://nextjs.org/docs/messages/react-hydration-error"

/-- Reports expressions in markup with another value each time. -/
def nondeterministic (tables : RuleTables) : Rule := nondeterministicInfo.rule [] fun _ content =>
  if Text.has content "suppressHydrationWarning" || tables.hasMountGuard content then []
  else
    (markupLines content).flatMap fun (n, line) => (changingValue.findAll line).map fun m =>
      Spot.inLine n m.start
        s!"`{String.ofList m.text}` renders a different value on the server and the client"
        "Compute it in an effect after mount, or add suppressHydrationWarning if the mismatch is intended"

/-! ## Numbers as conditions -/

/-- Markup under a condition that is a name (group 1). -/
def conditionalMarkup : Pattern :=
  seqAll [lit "\x7b", blanks, group 1 (many1 Char.isDotted), blanks, lit "&&", blanks, opt (lit "(" ++ blanks), lit "<"]

/-- Whether the name is that of a number. -/
def looksNumeric (operand : Text) : Bool :=
  let name := Text.lastPiece (· == '.') operand
  [".length", ".size"].any (fun tail => Text.endsWith tail.toList operand) ||
    ["count", "total", "length", "size", "amount", "num"].contains (String.ofList name) ||
    ["Count", "Total", "Length"].any (fun tail => Text.endsWith tail.toList name) ||
    (Text.after? "num".toList name).any fun rest => rest.head?.any Char.isUpper

/-- Describes `numericConditional`. -/
def numericConditionalInfo : RuleInfo where
  id := "rendering-conditional-render"
  title := "Numeric && in JSX"
  impact := .low
  severity := .bestPractice
  description := "`\x7bcount && <X/>\x7d` renders a literal 0 when count is zero."
  referenceUrl := "https://react.dev/learn/conditional-rendering#logical-and-operator-"

/-- Reports markup under a condition that is a number. -/
def numericConditional : Rule := numericConditionalInfo.rule [["&&"]] fun _ content =>
  (conditionalMarkup.findAll content).filterMap fun m => do
    let operand ← m.group? 1
    if looksNumeric operand.text then
      let name := String.ofList operand.text
      some <| Spot.atOffset content m.start s!"`{name} && ...` renders 0 when `{name}` is zero"
        s!"Compare explicitly: `\x7b{name} > 0 && ...\x7d` or use a ternary"
    else none

/-! ## Elements that the framework replaces -/

/-- The start of an image element. -/
def imageStart : Pattern := lit "<img" ++ wordBoundary

/-- Describes `rawImage`. -/
def rawImageInfo : RuleInfo where
  id := "rendering-next-image"
  title := "Raw <img> instead of next/image"
  impact := .high
  severity := .performance
  description := "next/image handles sizing, lazy loading and modern formats."
  referenceUrl := "https://nextjs.org/docs/app/api-reference/components/image"

/-- Reports plain image elements. Mails need them. -/
def rawImage : Rule := rawImageInfo.rule [["<img"]] fun path content =>
  if !Path.isJsx path || Path.inDirectory path "emails" then []
  else
    (codeLines content).flatMap fun (n, line) => (imageStart.findAll line).map fun m =>
      Spot.inLine n m.start "raw `<img>` element" "Use `<Image>` from next/image"

/-- A plain link to a page of the same site. -/
def internalAnchor : Pattern :=
  seqAll [lit "<a", one Char.isBlank, few (· != '>'), wordBoundary, lit "href=", quote, lit "/",
    opt (one (butNot ['/', '\"', '\'']) ++ many (butNot ['\"', '\''])), quote]

/-- Describes `rawAnchor`. -/
def rawAnchorInfo : RuleInfo where
  id := "rendering-next-link"
  title := "Internal link without next/link"
  impact := .medium
  severity := .bestPractice
  description := "Plain anchors to internal routes trigger full page loads and skip prefetching."
  referenceUrl := "https://nextjs.org/docs/app/api-reference/components/link"

/-- Reports plain links to pages of the same site. -/
def rawAnchor : Rule := rawAnchorInfo.rule [["<a"]] fun _ content =>
  (internalAnchor.findAll content).map fun m =>
    Spot.atOffset content m.start "internal route linked with a plain `<a>`"
      "Use `<Link href=\"...\">` from next/link"

/-! ## Markup from texts -/

/-- Describes `dangerousHtml`. -/
def dangerousHtmlInfo : RuleInfo where
  id := "security-dangerous-html"
  title := "dangerouslySetInnerHTML without sanitizing"
  impact := .high
  severity := .critical
  description := "Injecting unsanitized HTML opens the page to XSS."
  referenceUrl :=
    "https://react.dev/reference/react-dom/components/common#dangerously-setting-the-inner-html"

/-- Whether the file cleans markup, or writes data as a script. -/
def cleansMarkup (content : Text) : Bool :=
  Text.has content "DOMPurify" || Text.has (Text.toLower content) "sanitize" || Text.has content "JSON.stringify("

/-- Reports markup that is made from a text in a file that does not clean markup. -/
def dangerousHtml : Rule := dangerousHtmlInfo.rule [["dangerouslySetInnerHTML"]] fun _ content =>
  if cleansMarkup content then []
  else
    (Text.indexes "dangerouslySetInnerHTML".toList content).map fun offset =>
      Spot.atOffset content offset "HTML injected with dangerouslySetInnerHTML is not sanitized"
        "Sanitize the markup first, e.g. `DOMPurify.sanitize(html)`"

end Checkup
