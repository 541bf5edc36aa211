import OnDemandCss.Compiler.Miniature
import OnDemandCss.FileTree.Project
import OnDemandCss.Rehearsal.Script

/-!
# The scripted host

It takes configurations from a list, compiles with the miniature compiler, keeps its sources in
memory or in a project, and records what it is asked. With a project, the configuration is that of
the project, no request about a source is recorded, and nothing interferes with discoveries and
reads.
-/
namespace OnDemandCss

inductive Sources where
  | none
  | memory (files : Std.ExtTreeMap String String compare) (ghosts : List String)
  | project (p : Project)

namespace Sources

def isNone : Sources → Bool
  | none => true
  | _ => false

def isProject : Sources → Bool
  | project _ => true
  | _ => false

def writeFile (s : Sources) (id text : String) : Sources :=
  match s with
  | none => none
  | memory files ghosts => memory (files.insert id text) ghosts
  | project p => project { p with tree := p.tree.writeFile id text.toUTF8 }

def setGhosts (s : Sources) (ids : List String) : Sources :=
  match s with
  | memory files _ => memory files ids
  | s => s

def discover (s : Sources) (c : Config) : Except SourceError (List String) :=
  match s with
  | none => .ok []
  | memory files ghosts => .ok (files.keys ++ ghosts)
  | project p => p.discover c.scan

def read (s : Sources) (id : String) : Except SourceError String :=
  match s with
  | none => .error (.unknown id)
  | memory files _ =>
    match files[id]? with
    | some text => .ok text
    | Option.none => .error (.unknown id)
  | project p => p.read id

end Sources

inductive Resolution where
  | document (text : String)
  | invalid (message : String)

def Resolution.resolve : Resolution → Except ConfigError Config
  | document text => Config.ofText text
  | invalid message => .error (.invalid (.other message))

inductive Event where
  | resolve (index : Nat)
  | notice (n : Notice)
  | interpret (compiler : Nat) (text : String)
  | preflight (compiler : Nat) (request : PreflightRequest)
  | transform (compiler : Nat) (id : String)
  | render (compiler : Nat) (layer : Layer) (nodes : Nat) (options : RenderOptions)
  | completions (compiler : Nat)
  | extract (extractor code : String) (id : Option String)
  | discover (ids : List String)
  | read (id : String)
  | nested (call : HostCall) (outcomes : List Outcome)

structure WorkCount where
  constructed : Nat := 0
  interpret : Nat := 0
  preflight : Nat := 0
  render : Nat := 0
  reads : Nat := 0
  discoveries : Nat := 0

/-- The events come newest first. -/
structure Host where
  resolutions : List Resolution
  sources : Sources
  failing : List (HostCall × String) := []
  interludes : List (HostCall × List Step) := []
  resolved : Nat := 0
  done : WorkCount := {}
  events : List Event := []

namespace Host

def record (h : Host) (e : Event) : Host := { h with events := e :: h.events }

def setFailing (h : Host) (call : HostCall) (message : Option String) : Host :=
  let others := h.failing.filter (·.1 ≠ call)
  { h with failing := (message.map (call, ·)).toList ++ others }

def queue (h : Host) (call : HostCall) (steps : List Step) : Host :=
  { h with interludes := h.interludes ++ [(call, steps)] }

def nextInterlude? (h : Host) (call : HostCall) : Option (List Step × Host) :=
  (h.interludes.find? (·.1 = call)).map fun (_, steps) =>
    (steps, { h with interludes := h.interludes.eraseP (·.1 = call) })

def callOf? (h : Host) : Request → Option HostCall
  | .resolve => some .resolve
  | .interpret .. => some .interpret
  | .preflight .. => some .preflight
  | .splitSheet .. => some .transform
  | .completions _ => some .completions
  | .extract .. => some .extract
  | .discover _ => if h.sources.isProject then none else some .discover
  | .read _ => if h.sources.isProject then none else some .read
  | .construct _ | .render .. | .notify _ => none

/-- Records a request. A discovery is recorded later, with its result. -/
def announce (h : Host) : Request → Host
  | .resolve => { h with resolved := h.resolved + 1 }.record (.resolve h.resolved)
  | .interpret compiler text => h.record (.interpret compiler text)
  | .preflight compiler request => h.record (.preflight compiler request)
  | .splitSheet compiler _ id =>
    if h.sources.isProject then h else h.record (.transform compiler id)
  | .completions compiler => h.record (.completions compiler)
  | .render compiler l nodes options => h.record (.render compiler l nodes.length options)
  | .extract x code id => h.record (.extract x.name code id)
  | .read id => if h.sources.isProject then h else h.record (.read id)
  | .notify n => h.record (.notice n)
  | .construct _ | .discover _ => h

/-- Whether other steps may go on before the answer comes. The configuration and the sources of a
project have to be looked up, all else is at hand. -/
def takesTime (h : Host) : Request → Bool
  | .resolve | .discover _ => h.sources.isProject
  | _ => false

/-- The configuration of the resolution with this index. The last one in the list stays. -/
def resolve (h : Host) (index : Nat) : Except ConfigError Config :=
  match h.sources with
  | .project p => p.config
  | _ =>
    match h.resolutions[min index (h.resolutions.length - 1)]? with
    | some r => r.resolve
    | none => .ok .default

def unlessFailing {ε α : Type} (h : Host) (call : HostCall) (wrap : String → ε)
    (count : WorkCount → WorkCount) (result : Except ε α) : Host × Except ε α :=
  match h.failing.lookup call with
  | some message => (h, .error (wrap message))
  | none => ({ h with done := count h.done }, result)

def discover (h : Host) (c : Config) : Host × Except SourceError (List String) :=
  if h.sources.isProject then (h, h.sources.discover c)
  else
    match h.unlessFailing .discover .discovery
        (fun n => { n with discoveries := n.discoveries + 1 }) (h.sources.discover c) with
    | (h, .ok ids) => (h.record (.discover ids), .ok ids)
    | (h, .error e) => (h, .error e)

def read (h : Host) (id : String) : Host × Except SourceError String :=
  (if h.sources.isProject then h
    else { h with done := { h.done with reads := h.done.reads + 1 } },
    h.sources.read id)

def serve (h : Host) (index : Nat) : (q : Request) → Host × q.Reply
  | .resolve => (h, h.resolve index)
  | .construct _ =>
    h.unlessFailing .construct .construct (fun n => { n with constructed := n.constructed + 1 })
      (.ok h.done.constructed)
  | .interpret _ text =>
    h.unlessFailing .interpret .interpret (fun n => { n with interpret := n.interpret + 1 })
      (.ok (Miniature.interpret text))
  | .preflight _ request =>
    h.unlessFailing .preflight .preflight (fun n => { n with preflight := n.preflight + 1 })
      (.ok (Miniature.preflight request))
  | .splitSheet _ css id =>
    h.unlessFailing .transform (fun message => .transform id (.other message)) (fun n => n)
      (Miniature.splitSheet css id)
  | .completions _ =>
    h.unlessFailing .completions .interpret (fun n => n) (.ok Miniature.completions)
  | .render _ _ nodes options =>
    ({ h with done := { h.done with render := h.done.render + 1 } },
      Miniature.render nodes options)
  | .extract x code id => (h, x.extract code id)
  | .discover c => h.discover c
  | .read id => h.read id
  | .notify _ => (h, ())

end Host

end OnDemandCss
