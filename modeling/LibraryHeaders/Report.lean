import LibraryHeaders.Json.Printer
import LibraryHeaders.Resolution

/-!
# Reports

A resolved header set as text, one header a line, or as a JSON document.
-/

namespace LibraryHeaders.Report

/-- The line of a header: class and path with a tab between them, and a mark for each flag. -/
def line (h : Header) : String :=
  h.visibility.name ++ "\t" ++ h.path.text ++
    (if h.isUmbrella then " [umbrella]" else "") ++
    (if h.isExtra then " [extra]" else "") ++
    (if h.isExcluded then " [excluded]" else "") ++ "\n"

/-- One line a header; excluded headers only on request. -/
def text (r : Resolution) (withExcluded : Bool) : String :=
  String.join ((if withExcluded then r.headers else r.included).map line)

/-- The name of a header is left out where it has none. -/
def headerJson (h : Header) : Json.Value :=
  .object ([("path", .string h.path.text), ("visibility", .string h.visibility.name)] ++
    (h.includeName.map fun n => ("include_name", Json.Value.string n)).toList ++
    [("is_extra", .bool h.isExtra), ("is_excluded", .bool h.isExcluded),
      ("is_umbrella", .bool h.isUmbrella)])

def warningJson (w : Warning) : Json.Value :=
  .object [("kind", .string "glob_did_not_match"), ("pattern", .string w.pattern),
    ("class", .string w.visibility.name)]

def document (r : Resolution) (framework : Option String) : Json.Value :=
  .object [("framework", (framework.map Json.Value.string).getD .null),
    ("headers", .list (r.headers.map headerJson)),
    ("warnings", .list (r.warnings.map warningJson))]

def json (r : Resolution) (framework : Option String) : String := (document r framework).pretty

end LibraryHeaders.Report
