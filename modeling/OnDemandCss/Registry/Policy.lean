import OnDemandCss.Config.Basic
import OnDemandCss.HtmlTag

/-!
# Registry policies

The rules by which a registry takes or refuses tokens.
-/
namespace OnDemandCss

def htmlTagSet : TokenSet := .ofList htmlTags

structure Policy where
  blocklist : TokenSet := ∅
  safelist : TokenSet := ∅
  tagBlocklist : TokenSet := ∅
  tagSafelist : TokenSet := ∅
  tagAliases : AliasTable := ∅

namespace Policy

def ofConfig (c : Config) : Policy where
  blocklist := c.blocklist
  safelist := c.safelist
  tagBlocklist := c.preflight.blocklist
  tagSafelist := c.preflight.safelist
  tagAliases := c.preflight.aliases

def aliasOf (p : Policy) (name : String) : Option String := p.tagAliases[kebabCase name]?

/-- What a safelisted name asks for: a known tag that is not blocked. -/
def safeTag? (p : Policy) (name : String) : Option String :=
  (if htmlTagSet.contains name then some name else p.aliasOf name).filter
    fun tag => htmlTagSet.contains tag && !p.tagBlocklist.contains tag

def safelistedTags (p : Policy) : TokenSet := .ofList (p.tagSafelist.toList.filterMap p.safeTag?)

end Policy

end OnDemandCss
