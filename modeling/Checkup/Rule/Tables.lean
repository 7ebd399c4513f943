import Checkup.Text.Identifier

/-!
# Tables of the rules

The names that rules look for. Entries of the package tables may end in a star, see `packageMatches`.
-/

namespace Checkup

/-- The names that rules look for. -/
structure RuleTables where
  /-- packages worth loading only when they are needed -/
  heavyPackages : List String
  /-- packages whose entry exports everything again -/
  barrelPackages : List String
  /-- first words of the names of functions that change data -/
  mutationVerbs : List String
  /-- texts that count as a check of the caller -/
  authTokens : List String
  /-- objects that only a browser has -/
  browserGlobals : List String
  /-- names that show that a component waits until it is mounted -/
  mountGuards : List String
  /-- first words of the names of flags -/
  booleanPrefixes : List String
  /-- modules that only a server has -/
  serverOnlyModules : List String

namespace RuleTables

/-- The tables that hold unless others are given. -/
def standard : RuleTables where
  heavyPackages := [
    "monaco-editor", "@monaco-editor/react", "react-quill", "@tiptap/react", "draft-js", "slate-react", "codemirror",
    "@uiw/react-codemirror", "recharts", "chart.js", "react-chartjs-2", "highcharts", "echarts", "echarts-for-react",
    "d3", "plotly.js", "react-plotly.js", "@nivo/*", "framer-motion", "lottie-react", "lottie-web", "gsap", "three",
    "@react-three/fiber", "mapbox-gl", "react-map-gl", "leaflet", "react-leaflet", "@react-google-maps/api",
    "pdfjs-dist", "react-pdf", "xlsx"]
  barrelPackages := [
    "lucide-react", "@mui/material", "@mui/icons-material", "react-icons/*", "@tabler/icons-react",
    "@heroicons/react/*", "date-fns", "lodash", "rxjs", "@radix-ui/react-icons", "react-bootstrap", "antd"]
  mutationVerbs := [
    "create", "update", "delete", "remove", "add", "set", "save", "edit", "insert", "upsert", "destroy", "submit",
    "publish", "archive", "patch", "post", "put", "upload", "invite", "approve", "reject", "cancel", "reset",
    "change", "toggle", "assign", "transfer", "grant", "revoke"]
  authTokens := [
    "auth(", "getSession", "getServerSession", "currentUser", "getUser", "requireAuth", "requireUser",
    "verifySession", "validateRequest", "getAuth", "clerkClient", "session", "unauthorized", "checkPermission",
    "assertAuthenticated", "withAuth"]
  browserGlobals := [
    "window", "document", "localStorage", "sessionStorage", "navigator"]
  mountGuards := [
    "isMounted", "mounted", "hasMounted", "isClient", "useIsClient", "useMounted", "useHydrated", "isHydrated",
    "typeof window"]
  booleanPrefixes := [
    "is", "has", "show", "hide", "enable", "disable", "with"]
  serverOnlyModules := [
    "next/headers", "server-only", "fs", "node:fs", "fs/promises", "child_process", "node:child_process", "crypto",
    "@prisma/client", "path", "os", "net"]

/-- Whether the content shows that a component waits until it is mounted. A guard with a blank in it may stand
anywhere, any other has to be a whole identifier. -/
def hasMountGuard (tables : RuleTables) (content : Text) : Bool :=
  tables.mountGuards.any fun guard =>
    if guard.toList.contains ' ' then Text.occurs guard.toList content else Text.mentions content guard.toList

end RuleTables

end Checkup
