import Ambient.Api.Basic
import Ambient.Json.Printer
import Ambient.Text.Blank
import Ambient.Text.Lines
import Ambient.Text.Replace

/-!
# Documentation comments

The comment above a declaration: free text first, then one tag for each fact. The sequence that
ends a comment is broken up wherever a line contains it.
-/

namespace Ambient

open Api

/-- A comment: lines of free text, and tags. -/
structure Comment where
  body : List String
  tags : List String
deriving DecidableEq, Repr, Inhabited

namespace Comment

/-- A comment that says nothing. -/
def empty : Comment := ⟨[], []⟩

/-- Whether the comment says nothing. -/
def isEmpty (c : Comment) : Bool := c.body.isEmpty && c.tags.isEmpty

/-- The lines of a text without the blanks they end in. -/
def textLines (text : String) : List String := (Text.lines text).map Text.trimEnd

/-- The first line of a text without the blanks around it. -/
def firstLine (text : String) : String := Text.trim ((Text.lines text).headD "")

/-- Adds a note to free text, after an empty line unless it is the first. -/
def addNote (body : List String) (note : String) : List String :=
  (if body.isEmpty then [] else body ++ [""]) ++ textLines note

/-- The tag of a notice. -/
def noticeTag (tag : String) (notice : Notice) : String :=
  let since := match notice.since with
    | some version => " (since " ++ version ++ ")"
    | none => ""
  let text := match notice.text with
    | some text => " " ++ firstLine text
    | none => ""
  tag ++ since ++ text

/-- The comment for the documentation of a symbol. -/
def ofDoc (doc : Doc) : Comment where
  body := doc.notes.foldl addNote ((doc.description.map textLines).getD [])
  tags :=
    (doc.since.map fun version => "@since " ++ version).toList
      ++ (doc.deprecation.map (noticeTag "@deprecated")).toList
      ++ (doc.experimental.map (noticeTag "@experimental")).toList

/-- The tag of a parameter at a path. -/
def parameterTag (path : String) (info : ParameterInfo) : String :=
  let label := match info.default with
    | some value => "[" ++ path ++ "=" ++ value.render ++ "]"
    | none => if info.isOptional then "[" ++ path ++ "]" else path
  match info.description with
  | some description => "@param " ++ label ++ " " ++ firstLine description
  | none => "@param " ++ label

mutual

/-- The tags of a parameter and of the entries of its option object; `path` is what stands in
front of its name. -/
def parameterTags (path : String) : Parameter → List String
  | .mk info type =>
    let here := path ++ info.name
    parameterTag here info :: typeTags here type

/-- The tags of the entries of an option object. -/
def typeTags (path : String) : ParameterType → List String
  | .shape entries => entryTags (path ++ ".") entries
  | _ => []

/-- The tags of a list of entries. -/
def entryTags (path : String) : List (String × Parameter) → List String
  | [] => []
  | (_, entry) :: rest => parameterTags path entry ++ entryTags path rest

end

/-- The tag of the value a function returns, if that is described. -/
def returnTag (o : Outcome) : Option String :=
  o.description.map fun description => "@returns " ++ firstLine description

/-- The tag of an error a function throws. -/
def throwTag (typeName : DeclaredType → String) (o : Outcome) : String :=
  let type := match o.type with
    | some type => " \x7b" ++ typeName type ++ "\x7d"
    | none => ""
  let description := match o.description with
    | some description => " " ++ firstLine description
    | none => ""
  "@throws" ++ type ++ description

/-- The comment for a function: its documentation, parameters, result and errors, and whether it
overrides; `typeName` writes the types of errors. -/
def ofFunction (typeName : DeclaredType → String) (f : Function) : Comment :=
  let doc := ofDoc f.doc
  { doc with tags :=
      doc.tags ++ f.parameters.flatMap (parameterTags "")
        ++ (f.returns.bind returnTag).toList
        ++ f.throws.map (throwTag typeName)
        ++ (if f.overwrites then ["@override"] else []) }

/-- A line inside the comment. -/
def line (text : String) : String :=
  if text.isEmpty then " *" else " * " ++ Text.replace text "*/" "*\\/"

/-- The lines of the comment, or none if it says nothing. -/
def lines (c : Comment) : List String :=
  if c.isEmpty then []
  else
    let separator := if c.body.isEmpty || c.tags.isEmpty then [] else [" *"]
    ["/**"] ++ c.body.map line ++ separator ++ c.tags.map line ++ [" */"]

end Comment

end Ambient
