import OnDemandCss.KebabCase
import OnDemandCss.TokenSet
import Std.Data.ExtTreeMap

/-!
# Configuration

What the engine runs by: resolved settings, with lists as sets, bare lowercase extensions and
kebab-case tags.
-/
namespace OnDemandCss

abbrev AliasTable := Std.ExtTreeMap String String compare

structure ScanConfig where
  enabled : Bool
  runOnStartup : Bool
  dirs : List String
  includes : List String
  excludes : List String
  textExtensions : TokenSet
  styleExtensions : TokenSet

structure PreflightConfig where
  enabled : Bool
  includeAll : Bool
  includeBase : Bool
  includeGlobal : Bool
  includePlugin : Bool
  safelist : TokenSet
  blocklist : TokenSet
  aliases : AliasTable

structure Config where
  scan : ScanConfig
  preflight : PreflightConfig
  safelist : TokenSet
  blocklist : TokenSet
  transformGroups : Bool
  sortUtilities : Bool
  vendorPrefixes : Bool

def PreflightConfig.resolveAlias (p : PreflightConfig) (name : String) : Option String :=
  p.aliases[kebabCase name]?

inductive ListSection where
  | classes
  | preflight
deriving DecidableEq, Repr

def ListSection.name : ListSection → String
  | classes => "classes"
  | preflight => "preflight"

inductive InvalidSetting where
  | emptyAliasTarget (name : String)
  | noTextExtension
  | sharedExtension (extension : String)
  | other (text : String)
deriving DecidableEq, Repr

def InvalidSetting.message : InvalidSetting → String
  | emptyAliasTarget name => "preflight alias '" ++ name ++ "' has an empty target tag"
  | noTextExtension => "scan is enabled but scan.file_extensions is empty"
  | sharedExtension e => "extension '" ++ e ++ "' is listed as both a text and a style source"
  | other text => text

inductive ConfigError where
  | unreadable (path reason : String)
  | malformed
  | conflict (token : String) (list : ListSection)
  | invalid (setting : InvalidSetting)
deriving DecidableEq, Repr

def ConfigError.message : ConfigError → String
  | unreadable path reason => "failed to read " ++ path ++ ": " ++ reason
  | malformed => "failed to parse strata.toml"
  | conflict token list => "'" ++ token ++ "' is both safelisted and blocklisted in " ++ list.name
  | invalid setting => "invalid configuration: " ++ setting.message

end OnDemandCss
