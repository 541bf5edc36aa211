import OnDemandCss.Config.Basic

/-!
# Settings as written

Settings come as lists in the order of the file. `Settings.resolve` normalizes them and refuses
those that contradict each other.
-/
namespace OnDemandCss

structure ScanSettings where
  enabled : Bool := true
  runOnStartup : Bool := true
  dirs : List String := ["src"]
  includes : List String := []
  excludes : List String := ["node_modules", ".git"]
  textExtensions : List String :=
    ["html", "vue", "svelte", "jsx", "tsx", "js", "ts", "md", "mdx", "pug", "astro"]
  styleExtensions : List String :=
    ["css", "postcss", "pcss", "scss", "sass", "less", "styl", "stylus"]

structure PreflightSettings where
  enabled : Bool := true
  includeAll : Bool := false
  includeBase : Bool := true
  includeGlobal : Bool := true
  includePlugin : Bool := true
  safelist : List String := ["html", "body", "div"]
  blocklist : List String := []
  aliases : AliasTable := .ofList [("router-link", "a"), ("nuxt-link", "a")] compare

structure Settings where
  scan : ScanSettings := {}
  preflight : PreflightSettings := {}
  safelist : List String := []
  blocklist : List String := []
  transformGroups : Bool := true
  sortUtilities : Bool := false
  vendorPrefixes : Bool := true

/-- An extension in lowercase, without blanks around it or dots in front of it. -/
def bareExtension (e : String) : String :=
  .ofList (Text.lowercase ((Text.trim e.toList).dropWhile (· = '.')))

def extensionSet (es : List String) : TokenSet :=
  .ofList ((es.map bareExtension).filter (· ≠ ""))

/-- Names in kebab case. Of several names that become one, the last in order has its tag kept. -/
def normalAliases (aliases : AliasTable) : AliasTable :=
  aliases.toList.foldl
    (fun t (name, tag) =>
      t.insert (kebabCase name) (.ofList (Text.lowercase (Text.trim tag.toList)))) ∅

def ScanSettings.normalize (s : ScanSettings) : ScanConfig where
  enabled := s.enabled
  runOnStartup := s.runOnStartup
  dirs := s.dirs
  includes := s.includes
  excludes := s.excludes
  textExtensions := extensionSet s.textExtensions
  styleExtensions := extensionSet s.styleExtensions

def PreflightSettings.normalize (s : PreflightSettings) : PreflightConfig where
  enabled := s.enabled
  includeAll := s.includeAll
  includeBase := s.includeBase
  includeGlobal := s.includeGlobal
  includePlugin := s.includePlugin
  safelist := .ofList (s.safelist.map kebabCase)
  blocklist := .ofList (s.blocklist.map kebabCase)
  aliases := normalAliases s.aliases

def Settings.normalize (s : Settings) : Config where
  scan := s.scan.normalize
  preflight := s.preflight.normalize
  safelist := .ofList s.safelist
  blocklist := .ofList s.blocklist
  transformGroups := s.transformGroups
  sortUtilities := s.sortUtilities
  vendorPrefixes := s.vendorPrefixes

def Config.fault? (c : Config) : Option ConfigError :=
  match c.safelist.firstShared? c.blocklist with
  | some token => some (.conflict token .classes)
  | none =>
  match c.preflight.safelist.firstShared? c.preflight.blocklist with
  | some tag => some (.conflict tag .preflight)
  | none =>
  match c.preflight.aliases.toList.find? (·.2 = "") with
  | some (name, _) => some (.invalid (.emptyAliasTarget name))
  | none =>
  if c.scan.enabled ∧ c.scan.textExtensions.isEmpty then some (.invalid .noTextExtension)
  else (c.scan.textExtensions.firstShared? c.scan.styleExtensions).map
    fun e => .invalid (.sharedExtension e)

def Settings.resolve (s : Settings) : Except ConfigError Config :=
  match s.normalize.fault? with
  | some e => .error e
  | none => .ok s.normalize

def Config.default : Config := ({} : Settings).normalize

end OnDemandCss
