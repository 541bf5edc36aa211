import OnDemandCss.Engine.Initialization
import OnDemandCss.VariantGroup

/-!
# Taking in sources

Tokens found in a text are queued for the compiler. The layer blocks of a style sheet are stored as
they are.
-/
namespace OnDemandCss

namespace Cache

def isUnchanged (c : Cache) (id : Option String) (f : Fingerprint) : Bool :=
  match id with
  | some id => c.fingerprints.isUnchanged id f
  | none => false

/-- Queues what was found in a source, and tells whether any of it was new. Tags are left alone
where one preflight would cover all of them but preflights are disabled. -/
def take (c : Cache) (p : PreflightConfig) (found : Extracted) (id : Option String)
    (f : Fingerprint) : Cache × Bool :=
  let (registry, newClass) := c.registry.addClasses found.classes
  let (registry, newTag) :=
    if p.enabled || !p.includeAll then registry.addTags found.tags else (registry, false)
  let fingerprints := match id with
    | some id => c.fingerprints.record id f
    | none => c.fingerprints
  ({ c with registry, fingerprints }, newClass || newTag)

def storeSheet (c : Cache) (id : String) (nodes : List StyleNode) : Cache :=
  { c with layers := c.layers.update nodes (.source id) .replace }

end Cache

namespace Activity

/-- The code with all transformers applied; they work on sources with an identifier only. -/
def transformed (ts : List Transformer) (code : String) : Option String → Activity String
  | some id => orFail .extraction (Transformer.applyAll ts code id)
  | none => return code

def tokensOf (xs : List Extractor) (code : String) (id : Option String) : Activity Extracted :=
  match xs.find? (·.accepts id) with
  | some x => .ask (.extract x code id) (orFail .extraction)
  | none => return .ofCode code

/-- Extracts the tokens of a text and tells whether any was new. A source whose text has not changed
is skipped. -/
def extractFile (o : EngineOptions) (turns : Nat) (code : String) (id : Option String)
    (group : Bool) : Activity Bool := do
  let s ← session turns
  let f : Fingerprint := ⟨.ofText code, group && s.config.transformGroups⟩
  if (← engine).cache.isUnchanged id f then return false
  let code := if f.grouped then expandGroups code else code
  let found ← tokensOf o.extractors (← transformed o.transformers code id) id
  .step
    (fun e => { e with cache := (e.cache.take s.config.preflight found id f).1 })
    fun e => .done (e.cache.take s.config.preflight found id f).2

/-- Stores the layer blocks of a style sheet, in place of what it contributed before, and gives the
rest of the sheet. -/
def transformCss (turns : Nat) (css id : String) : Activity String := do
  let s ← session turns
  let sheet ← orFail .compile (← request (.splitSheet s.compiler css id))
  changeCache (·.storeSheet id sheet.nodes)
  return sheet.residual

end Activity

end OnDemandCss
