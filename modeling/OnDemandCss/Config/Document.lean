import OnDemandCss.Config.Settings
import OnDemandCss.Toml.Document

/-!
# Configuration documents

Settings are read from a TOML document. Every key may be missing and unknown keys do not matter,
but a known key with a value of the wrong kind spoils the document.
-/
namespace OnDemandCss

namespace Toml

/-- The key under which a date-time shows its text where a table is asked for. -/
def datetimeKey : String := "$__toml_private_datetime"

def Value.entries? : Value → Option Entries
  | table entries => some entries
  | datetime text => some [(datetimeKey, string text)]
  | _ => none

/-- A table by keys. An array gives the values of the listed keys in order. -/
def Value.section? (keys : List String) : Value → Option Entries
  | array items => some (keys.zip items)
  | v => v.entries?

def Value.boolean? : Value → Option Bool
  | boolean b => some b
  | _ => none

def Value.string? : Value → Option String
  | string s => some s
  | _ => none

def Value.strings? : Value → Option (List String)
  | array items => items.mapM string?
  | _ => none

/-- Tokens are written in one string or in several; blanks separate them. -/
def Value.tokens? : Value → Option (List String)
  | string s => some (Text.words s)
  | v => v.strings?.map (·.flatMap Text.words)

def Value.aliases? (v : Value) : Option AliasTable := do
  let pairs ← (← v.entries?).mapM fun (name, tag) => tag.string?.map (name, ·)
  return .ofList pairs compare

def field {α : Type} (entries : Entries) (key : String) (read : Value → Option α) (default : α) :
    Option α :=
  match entries.lookup key with
  | none => some default
  | some v => read v

end Toml

open Toml (Entries Value field)

def ScanSettings.keys : List String :=
  ["enabled", "run_on_startup", "dirs", "include", "exclude", "file_extensions", "style_extensions"]

def ScanSettings.ofValue? (v : Value) : Option ScanSettings := do
  let es ← v.section? keys
  let d : ScanSettings := {}
  return {
    enabled := ← field es "enabled" Value.boolean? d.enabled
    runOnStartup := ← field es "run_on_startup" Value.boolean? d.runOnStartup
    dirs := ← field es "dirs" Value.strings? d.dirs
    includes := ← field es "include" Value.strings? d.includes
    excludes := ← field es "exclude" Value.strings? d.excludes
    textExtensions := ← field es "file_extensions" Value.strings? d.textExtensions
    styleExtensions := ← field es "style_extensions" Value.strings? d.styleExtensions }

def PreflightSettings.keys : List String :=
  ["enabled", "include_all", "include_base", "include_global", "include_plugin", "safelist",
    "blocklist", "alias"]

def PreflightSettings.ofValue? (v : Value) : Option PreflightSettings := do
  let es ← v.section? keys
  let d : PreflightSettings := {}
  return {
    enabled := ← field es "enabled" Value.boolean? d.enabled
    includeAll := ← field es "include_all" Value.boolean? d.includeAll
    includeBase := ← field es "include_base" Value.boolean? d.includeBase
    includeGlobal := ← field es "include_global" Value.boolean? d.includeGlobal
    includePlugin := ← field es "include_plugin" Value.boolean? d.includePlugin
    safelist := ← field es "safelist" Value.tokens? d.safelist
    blocklist := ← field es "blocklist" Value.tokens? d.blocklist
    aliases := ← field es "alias" Value.aliases? d.aliases }

def Settings.ofEntries? (es : Entries) : Option Settings := do
  let d : Settings := {}
  return {
    scan := ← field es "scan" ScanSettings.ofValue? d.scan
    preflight := ← field es "preflight" PreflightSettings.ofValue? d.preflight
    safelist := ← field es "safelist" Value.tokens? d.safelist
    blocklist := ← field es "blocklist" Value.tokens? d.blocklist
    transformGroups := ← field es "transform_groups" Value.boolean? d.transformGroups
    sortUtilities := ← field es "sort_utilities" Value.boolean? d.sortUtilities
    vendorPrefixes := ← field es "prefixer" Value.boolean? d.vendorPrefixes }

def Config.ofText (text : String) : Except ConfigError Config :=
  match (Toml.document? text).bind Settings.ofEntries? with
  | none => .error .malformed
  | some s => s.resolve

end OnDemandCss
