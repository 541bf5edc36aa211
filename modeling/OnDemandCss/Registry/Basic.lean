import OnDemandCss.Registry.Policy

/-!
# Token registry

A class token is pending until the compiler has seen it, and then generated or rejected. A tag is
available until a source uses it, pending until its preflight is made, and then generated.
-/
namespace OnDemandCss

structure ClassTokens where
  pending : TokenSet := ∅
  generated : TokenSet := ∅
  rejected : TokenSet := ∅

structure TagTokens where
  available : TokenSet := ∅
  pending : TokenSet := ∅
  generated : TokenSet := ∅

/-- No tag is available before the first soft reset. -/
structure Registry where
  policy : Policy := {}
  classes : ClassTokens := {}
  tags : TagTokens := {}

namespace ClassTokens

def knows (s : ClassTokens) (t : String) : Bool :=
  s.pending.contains t || s.generated.contains t || s.rejected.contains t

def request (s : ClassTokens) (t : String) : ClassTokens :=
  { s with pending := s.pending.insert t }

def complete (succeeded : List String) (s : ClassTokens) (t : String) : ClassTokens :=
  if s.pending.contains t then
    let s := { s with pending := s.pending.erase t }
    if succeeded.contains t then { s with generated := s.generated.insert t }
    else { s with rejected := s.rejected.insert t }
  else s

end ClassTokens

namespace TagTokens

def request (s : TagTokens) (tag : String) : TagTokens :=
  { s with available := s.available.erase tag, pending := s.pending.insert tag }

def complete (s : TagTokens) (tag : String) : TagTokens :=
  if s.pending.contains tag then
    { s with pending := s.pending.erase tag, generated := s.generated.insert tag }
  else s

def all (s : TagTokens) : TokenSet := s.available ∪ s.pending ∪ s.generated

end TagTokens

namespace Registry

def ofPolicy (p : Policy) : Registry := { policy := p }

/-- Tokens that are known already are not filtered again before the next reset. -/
def setPolicy (r : Registry) (p : Policy) : Registry := { r with policy := p }

def wantsClass (r : Registry) (t : String) : Bool :=
  t ≠ "" && !r.classes.knows t && !r.policy.blocklist.contains t

def addClass (r : Registry) (t : String) : Registry :=
  if r.wantsClass t then { r with classes := r.classes.request t } else r

def addClasses (r : Registry) (ts : List String) : Registry × Bool :=
  ts.foldl (fun (r, changed) t => (r.addClass t, changed || r.wantsClass t)) (r, false)

/-- The available tag that a name in a source asks for: itself, or else what it is an alias of. -/
def requestedTag? (r : Registry) (name : String) : Option String :=
  (if r.tags.available.contains name then some name else r.policy.aliasOf name).filter
    fun tag => !r.policy.tagBlocklist.contains tag && !r.tags.pending.contains tag &&
      r.tags.available.contains tag

def addTag (r : Registry) (name : String) : Registry :=
  match r.requestedTag? name with
  | some tag => { r with tags := r.tags.request tag }
  | none => r

def addTags (r : Registry) (names : List String) : Registry × Bool :=
  names.foldl (fun (r, changed) t => (r.addTag t, changed || (r.requestedTag? t).isSome)) (r, false)

/-- Starts over. A full reset forgets what was in use; a soft one queues it again, as far as the
policy allows, and makes all other tags available. The safelists are queued in both. -/
def reset (r : Registry) (full : Bool) : Registry :=
  let p := r.policy
  let usedClasses : TokenSet :=
    if full then ∅
    else (r.classes.pending ∪ r.classes.generated ∪ r.classes.rejected).filter
      (! p.blocklist.contains ·)
  let usedTags : TokenSet :=
    if full then ∅
    else (r.tags.pending ∪ r.tags.generated).filter (! p.tagBlocklist.contains ·)
  let pendingTags := usedTags ∪ p.safelistedTags
  { policy := p
    classes := { pending := usedClasses ∪ p.safelist.filter (! p.blocklist.contains ·) }
    tags :=
      { available :=
          if full then ∅
          else htmlTagSet.filter fun t => !p.tagBlocklist.contains t && !pendingTags.contains t
        pending := pendingTags } }

/-- Records the outcome of compiling `submitted`. Tokens queued since stay pending. -/
def completeClasses (r : Registry) (submitted succeeded : List String) : Registry :=
  { r with classes := submitted.foldl (ClassTokens.complete succeeded) r.classes }

def completeTags (r : Registry) (handled : List String) : Registry :=
  { r with tags := handled.foldl TagTokens.complete r.tags }

def hasPending (r : Registry) : Bool := !r.classes.pending.isEmpty || !r.tags.pending.isEmpty

end Registry

end OnDemandCss
