import OnDemandCss.Compiler.Basic
import OnDemandCss.Text.Search

/-!
# A miniature compiler

It knows three components and a few utilities, each with any value, and cuts `@layer` blocks out of
style sheets. That is enough to run an engine.
-/
namespace OnDemandCss.Miniature

def utilityStems : List String :=
  ["p", "px", "py", "m", "mx", "my", "mt", "w", "h", "text", "bg", "gap"]

def components : List String := ["btn", "card", "badge"]

def isSpecial (c : Char) : Bool := ":!/.[]()%#,".toList.contains c

def escape : List Char → List Char
  | [] => []
  | c :: cs => if isSpecial c then '\\' :: c :: escape cs else c :: escape cs

def escapeSelector (token : String) : String := .ofList (escape token.toList)

/-! ### Class tokens -/

/-- The variants before the last colon, each behind a colon, and what follows the last colon. -/
def splitVariants (token : List Char) : List Char × List Char :=
  let utility := (token.reverse.takeWhile (· ≠ ':')).reverse
  match token.reverse.dropWhile (· ≠ ':') with
  | [] => ([], utility)
  | _ :: variants => ((Text.split (· = ':') variants.reverse).flatMap (':' :: ·), utility)

/-- The layer of a utility: a component, or a known stem with a value behind a dash. -/
def layerOf? (utility : List Char) : Option Layer :=
  if components.contains (.ofList utility) then some .components
  else
    match utility.dropWhile (· ≠ '-') with
    | _ :: _ :: _ =>
      let stem := utility.takeWhile (· ≠ '-')
      if utilityStems.contains (.ofList stem) then some .utilities else none
    | _ => none

/-- The rule of a class token. A mark `!` before the utility makes it important. -/
def compileToken (token : String) : Option StyleNode :=
  let (pseudo, marked) := splitVariants token.toList
  let (bang, utility) := match marked with
    | '!' :: rest => (" !important", rest)
    | rest => ("", rest)
  (layerOf? utility).map fun l =>
    ⟨l, "." ++ escapeSelector token ++ .ofList pseudo ++ " \x7b --" ++ .ofList utility ++ ": 1" ++
      bang ++ "; \x7d"⟩

def interpret (text : String) : Interpretation :=
  let compiled := (Text.words text).filterMap fun t => (compileToken t).map (t, ·)
  ⟨compiled.map (·.1), compiled.map (·.2)⟩

/-! ### Preflight -/

def withoutClosers : List Char → List Char
  | '>' :: '/' :: rest => withoutClosers rest
  | rest => rest

def markupName (piece : String) : String :=
  .ofList (withoutClosers (piece.toList.dropWhile (· = '<')).reverse).reverse

def resetRule (name : String) : StyleNode := ⟨.base, name ++ " \x7b margin: 0; \x7d"⟩

def globalRule : StyleNode := ⟨.base, "*, ::before, ::after \x7b box-sizing: border-box; \x7d"⟩

def preflight (r : PreflightRequest) : List StyleNode :=
  let base := match r.markup with
    | some markup => (Text.words markup).map fun piece => resetRule (markupName piece)
    | none => [resetRule "*"]
  (if r.includeGlobal then [globalRule] else []) ++ (if r.includeBase then base else [])

/-! ### Style sheets -/

/-- The text up to the brace that closes a block, and what follows it; `depth` blocks inside it are
open. -/
def blockBody? : (depth : Nat) → List Char → Option (List Char × List Char)
  | _, [] => none
  | depth, c :: cs =>
    let deeper (d : Nat) := (blockBody? d cs).map fun (body, rest) => (c :: body, rest)
    if c = '\x7b' then deeper (depth + 1)
    else if c = '\x7d' then
      match depth with
      | 0 => some ([], cs)
      | depth + 1 => deeper depth
    else deeper depth

def splitBlocks : (fuel : Nat) → List Char → Except SheetFault (List StyleNode × List Char)
  | 0, cs => .ok ([], cs)
  | fuel + 1, cs =>
    match Text.cut? "@layer".toList cs with
    | none => .ok ([], cs)
    | some (before, header) =>
      match header.dropWhile (· ≠ '\x7b') with
      | [] => .error .missingBrace
      | _ :: block =>
        match Layer.read (.ofList (header.takeWhile (· ≠ '\x7b'))) with
        | .error e => .error (.unknownLayer e)
        | .ok l =>
          match blockBody? 0 block with
          | none => .error .unclosedBlock
          | some (body, rest) =>
            let body := Text.trim body
            (splitBlocks fuel rest).map fun (nodes, residual) =>
              (if body.isEmpty then nodes else ⟨l, .ofList body⟩ :: nodes, before ++ residual)

def splitSheet (css id : String) : Except CompileError SplitSheet :=
  match splitBlocks (css.length + 1) css.toList with
  | .error fault => .error (.transform id fault)
  | .ok (nodes, residual) => .ok ⟨nodes, .ofList (Text.trim residual)⟩

/-! ### Output -/

def render (nodes : List StyleNode) (o : RenderOptions) : String :=
  let rules := nodes.map (·.css)
  "\n".intercalate (if o.sort then rules.mergeSort fun a b => decide (a ≤ b) else rules)

def completions : List String := components ++ utilityStems.map (· ++ "-")

end OnDemandCss.Miniature
