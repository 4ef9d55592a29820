import Ambient.Tool.Shell.Token

/-!
# Reading scripts

The grammar of the shell: lists of pipelines, structures, and simple commands. A script is read one
line at a time, so that a command can run before what follows it is known to be right.
-/

namespace Ambient.Tool.Shell

/-- Refuses a token, naming what was expected in its place, if that is a single thing. -/
def unexpected {α : Type} (found : Token) (expected : Option Token) : Reader α :=
  Reader.refuse (found.name ++ " unexpected"
    ++ match expected with
      | some token => " (expecting " ++ token.name ++ ")"
      | none => "")

/-- Whether a token ends the list of commands before it. -/
def Token.endsList : Token → Bool
  | .finish | .closing | .endCase => true
  | .keyword k => [Keyword.do, .done, .elif, .else, .esac, .fi, .then, .end].contains k
  | _ => false

/-- A word that starts with a name and an equals sign, as an assignment. -/
def assignment? : Word → Option (Raw × Word)
  | .text chars false :: rest =>
    let name := chars.takeWhile isNamePart
    match chars.dropWhile isNamePart with
    | '=' :: value =>
      if isName name then
        some (name, if value.isEmpty then rest else .text value false :: rest)
      else none
    | _ => none
  | _ => none

/-- What a list of commands ends with: the end of a line, or a token that is put back. A list that
has to hold a command refuses a token that ends it at once. -/
inductive Extent where
  | line
  | block
  | blockOrNothing
deriving DecidableEq, Repr, Inhabited

/-- Takes the target of a redirection. -/
def target (nested : Bool → Reader (List Command)) (descriptor : Nat) (sign : Sign) :
    Reader Redirection := do
  let isDocument := sign matches .document _
  match ← nextToken nested { isMark := isDocument } with
  | .word parts isQuoted =>
    match sign with
    | .file opening => return .file descriptor opening parts
    | .copy isOutput => return .copy descriptor isOutput parts
    | .document stripsTabs =>
      let cursor ← get
      let awaited : Awaited :=
        ⟨cursor.count, (literal? parts).getD [], isQuoted, stripsTabs⟩
      set { cursor with count := cursor.count + 1, awaited := cursor.awaited ++ [awaited] }
      return .document descriptor cursor.count
  | token => unexpected token none

/-- Takes redirections; the bound is on the number of characters. A keyword can only stand in the
place of the first one. -/
def redirections (nested : Bool → Reader (List Command)) :
    Nat → Demand → Reader (List Redirection)
  | 0, _ => return []
  | bound + 1, demand => do
    match ← nextToken nested demand with
    | .redirection descriptor sign =>
      let first ← target nested descriptor sign
      return first :: (← redirections nested bound .plain)
    | token =>
      pushBack token
      return []

/-- Takes words up to another token, which is answered with them. -/
def words (nested : Bool → Reader (List Command)) : Nat → Reader (List Word × Token)
  | 0 => return ([], .finish)
  | bound + 1 => do
    match ← nextToken nested .plain with
    | .word parts _ =>
      let (rest, token) ← words nested bound
      return (parts :: rest, token)
    | token => return ([], token)

/-- Takes a token that has to be a given keyword. -/
def expect (nested : Bool → Reader (List Command)) (demand : Demand) (keyword : Keyword) :
    Reader Unit := do
  match ← nextToken nested demand with
  | .keyword k => if k = keyword then return else unexpected (.keyword k) (some (.keyword keyword))
  | token => unexpected token (some (.keyword keyword))

/-- What has been read of a simple command. -/
structure Simple where
  assignments : List (Raw × Word)
  words : List Word
  redirections : List Redirection

/-- The commands in a row as one. -/
def Command.ofList : List Command → Command
  | [command] => command
  | commands => .sequence commands

mutual

/-- Reads a script inside a word, up to its closing parenthesis or to the end of the text. -/
def nestedScript : Nat → Bool → Reader (List Command)
  | 0, _ => Reader.refuse "too deep"
  | bound + 1, isClosed => do
    let outer ← get
    set { outer with pushed := none, awaited := [], document := none }
    let body ← list bound .blockOrNothing
    if isClosed then
      match ← nextToken (nestedScript bound) .plain with
      | .closing => pure ()
      | token => unexpected token (some .closing)
    modify fun inner =>
      { inner with pushed := none, awaited := outer.awaited, document := outer.document }
    return [body]

/-- Reads a list of commands. -/
def list : Nat → Extent → Reader Command
  | 0, _ => Reader.refuse "too deep"
  | bound + 1, extent => return .ofList (← listFrom bound extent true)

/-- Reads the commands of a list; `isFirst` says whether none has been read. -/
def listFrom : Nat → Extent → Bool → Reader (List Command)
  | 0, _, _ => Reader.refuse "too deep"
  | bound + 1, extent, isFirst => do
    let nested := nestedScript bound
    let isLine := extent = .line
    match ← nextToken nested (if isLine then .command else .further) with
    | .newline =>
      readDocuments nested
      return []
    | .finish =>
      readDocuments nested
      pushBack .finish
      return []
    | token =>
      pushBack token
      if (!isFirst || extent = .blockOrNothing) && token.endsList then
        if isLine then unexpected token none
        return []
      let first ← conditional bound
      match ← nextToken nested .plain with
      | .background => return .background first :: (← listFrom bound extent false)
      | .semicolon => return first :: (← listFrom bound extent false)
      | .newline =>
        pushBack .newline
        return first :: (← listFrom bound extent false)
      | .finish =>
        readDocuments nested
        pushBack .finish
        return [first]
      | token =>
        if isLine then unexpected token none
        pushBack token
        return [first]

/-- Reads pipelines that are joined by conditions. -/
def conditional : Nat → Reader Command
  | 0 => Reader.refuse "too deep"
  | bound + 1 => do conditionalFrom bound (← pipeline bound .plain)

/-- Reads what is joined to a pipeline. -/
def conditionalFrom : Nat → Command → Reader Command
  | 0, _ => Reader.refuse "too deep"
  | bound + 1, first => do
    match ← nextToken (nestedScript bound) .plain with
    | .and => conditionalFrom bound (.both first (← pipeline bound .further))
    | .or => conditionalFrom bound (.either first (← pipeline bound .further))
    | token =>
      pushBack token
      return first

/-- Reads a pipeline. -/
def pipeline : Nat → Demand → Reader Command
  | 0, _ => Reader.refuse "too deep"
  | bound + 1, demand => do
    let nested := nestedScript bound
    match ← nextToken nested demand with
    | .keyword .not => return .negated (← piped bound (← command bound .command))
    | token =>
      pushBack token
      piped bound (← command bound .plain)

/-- Reads what the output of a command goes to. -/
def piped : Nat → Command → Reader Command
  | 0, _ => Reader.refuse "too deep"
  | bound + 1, first => do
    match ← pipedFrom bound with
    | [] => return first
    | rest => return .pipeline (first :: rest)

/-- Reads the further commands of a pipeline. -/
def pipedFrom : Nat → Reader (List Command)
  | 0 => Reader.refuse "too deep"
  | bound + 1 => do
    match ← nextToken (nestedScript bound) .plain with
    | .pipe =>
      let next ← command bound .further
      return next :: (← pipedFrom bound)
    | token =>
      pushBack token
      return []

/-- Reads a command. -/
def command : Nat → Demand → Reader Command
  | 0, _ => Reader.refuse "too deep"
  | bound + 1, demand => do
    let nested := nestedScript bound
    let token ← nextToken nested demand
    let line := (← get).line
    match token with
    | .keyword .if =>
      let body ← branches bound
      expect nested .plain .fi
      followed bound line body
    | .keyword .while =>
      let test ← list bound .block
      expect nested .plain .do
      let body ← list bound .block
      expect nested .plain .done
      followed bound line (.loop false test body)
    | .keyword .until =>
      let test ← list bound .block
      expect nested .plain .do
      let body ← list bound .block
      expect nested .plain .done
      followed bound line (.loop true test body)
    | .keyword .for =>
      let name ← match ← nextToken nested .plain with
        | .word parts false =>
          match literal? parts with
          | some name =>
            if isName name then pure name else Reader.refuse "Bad for loop variable"
          | none => Reader.refuse "Bad for loop variable"
        | _ => Reader.refuse "Bad for loop variable"
      let all : List Word ← match ← nextToken nested .further with
        | .keyword .in => do
          let (all, token) ← words nested (← get).room
          match token with
          | .newline | .semicolon => pure all
          | token => unexpected token none
        | .semicolon => pure [[Part.parameter ['@'] .value true]]
        | token => do
          pushBack token
          pure [[Part.parameter ['@'] .value true]]
      expect nested .further .do
      let body ← list bound .block
      expect nested .plain .done
      followed bound line (.each line name all body)
    | .keyword .case =>
      match ← nextToken nested .plain with
      | .word parts _ =>
        expect nested .further .in
        followed bound line (.choice line parts (← cases bound))
      | token => unexpected token (some (.word [] false))
    | .opening =>
      let body ← list bound .block
      match ← nextToken nested .plain with
      | .closing => followed bound line (.subshell line body [])
      | token => unexpected token (some .closing)
    | .keyword .begin =>
      let body ← list bound .block
      expect nested .plain .end
      followed bound line body
    | .word .. | .redirection .. =>
      pushBack token
      simple bound line ⟨[], [], []⟩ true
    | token => unexpected token none

/-- Reads the parts of a condition after its first keyword, up to the last one. -/
def branches : Nat → Reader Command
  | 0 => Reader.refuse "too deep"
  | bound + 1 => do
    let nested := nestedScript bound
    let test ← list bound .block
    expect nested .plain .then
    let body ← list bound .block
    match ← nextToken nested .plain with
    | .keyword .elif => return .branch test body (← branches bound)
    | .keyword .else => return .branch test body (← list bound .block)
    | token =>
      pushBack token
      return .branch test body .nothing

/-- Reads the cases of a choice, with the keyword that ends them. -/
def cases : Nat → Reader (List (List Word × Command))
  | 0 => Reader.refuse "too deep"
  | bound + 1 => do
    let nested := nestedScript bound
    match ← nextToken nested .pattern with
    | .keyword .esac => return []
    | token =>
      let first ← match token with
        | .opening => nextToken nested .plain
        | token => pure token
      let patterns ← patternsFrom bound first
      let body ← list bound .blockOrNothing
      match ← nextToken nested .pattern with
      | .keyword .esac => return [(patterns, body)]
      | .endCase => return (patterns, body) :: (← cases bound)
      | token => unexpected token (some .endCase)

/-- Reads the patterns of a case from the first one on. -/
def patternsFrom : Nat → Token → Reader (List Word)
  | 0, _ => Reader.refuse "too deep"
  | bound + 1, token => do
    let nested := nestedScript bound
    let pattern : Word := match token with
      | .word parts _ => parts
      | .keyword k =>
        [.text (((Keyword.all.find? fun entry => entry.2 == k).map Prod.fst).getD "").toList false]
      | _ => []
    match ← nextToken nested .plain with
    | .pipe => return pattern :: (← patternsFrom bound (← nextToken nested .plain))
    | .closing => return [pattern]
    | token => unexpected token (some .closing)

/-- Reads the redirections behind a structure. -/
def followed : Nat → Nat → Command → Reader Command
  | 0, _, _ => Reader.refuse "too deep"
  | bound + 1, line, body => do
    match ← redirections (nestedScript bound) (← get).room .command with
    | [] => return body
    | all =>
      match body with
      | .subshell line inner [] => return .subshell line inner all
      | body => return .redirected line body all

/-- Reads a simple command, or the definition of a function. Assignments come first. -/
def simple : Nat → Nat → Simple → Bool → Reader Command
  | 0, _, _, _ => Reader.refuse "too deep"
  | bound + 1, line, s, admitsAssignment => do
    let nested := nestedScript bound
    let done : Command := .simple line s.assignments s.words s.redirections
    match ← nextToken nested (if admitsAssignment then .name else .plain) with
    | .word parts _ =>
      match admitsAssignment, assignment? parts with
      | true, some pair =>
        simple bound line { s with assignments := s.assignments ++ [pair] } true
      | _, _ => simple bound line { s with words := s.words ++ [parts] } false
    | .redirection descriptor sign =>
      let first ← target nested descriptor sign
      simple bound line { s with redirections := s.redirections ++ [first] } admitsAssignment
    | .opening =>
      match s.assignments, s.words, s.redirections with
      | [], [name], [] =>
        match ← nextToken nested .plain with
        | .closing =>
          match name with
          | [.text written false] =>
            if isName written ∧ !specialNames.contains (String.ofList written) then
              return .define written (← command bound .further)
            else Reader.refuse "Bad function name"
          | _ => Reader.refuse "Bad function name"
        | token => unexpected token (some .closing)
      | _, _, _ =>
        pushBack .opening
        return done
    | token =>
      pushBack token
      return done

end

/-- Where the reading of a script starts. -/
def Cursor.start (text : Raw) : Cursor := ⟨text, 1, none, [], [], 0, none, [], [], false⟩

/-- Whether nothing is left of a script. -/
def Cursor.isFinished (cursor : Cursor) : Bool :=
  cursor.rest.isEmpty && (cursor.pushed matches none | some .finish)

/-- Reads a text that is expanded as if it stood in quotes, such as the sign in front of commands
that are shown. -/
def signParts (count : Nat) (text : Raw) : Except Complaint Word := do
  let reader := parts (nestedScript (16 * text.length + 64)) (2 * text.length + 2) .document 0
  let ((word, _), _) ← reader.run { Cursor.start text with count := count }
  return word

/-- Reads the commands of the next line of a script. Documents are numbered from `count` on. -/
def nextLine (aliases : List (Raw × Raw)) (count : Nat) (cursor : Cursor) :
    Except Complaint (Command × Cursor) :=
  let cursor :=
    { cursor with pushed := none, documents := [], count := count, aliases := aliases }
  (list (16 * cursor.room + 64) .line).run cursor

end Ambient.Tool.Shell
