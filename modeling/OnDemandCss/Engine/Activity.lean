import OnDemandCss.Engine.Basic

/-!
# Activities

An activity is an operation of an engine under way: what is left to do until it is done. It
changes the engine in steps, asks its host for what it cannot do itself, and waits for other
activities. Between two questions that the host may take its time over nothing else runs; while
the host takes its time, other activities may change the engine.
-/
namespace OnDemandCss

/-- What a host is told and need not answer. -/
inductive Notice where
  | initialized (config : Config)
  | configError (e : ConfigError)
  | beforeGenerate (pending : TokenSnapshot)
  | generated (generated : TokenSnapshot)

inductive Request where
  | resolve
  | construct (config : Config)
  | interpret (compiler : Nat) (text : String)
  | preflight (compiler : Nat) (request : PreflightRequest)
  | splitSheet (compiler : Nat) (css id : String)
  | completions (compiler : Nat)
  | render (compiler : Nat) (layer : Layer) (nodes : List StyleNode) (options : RenderOptions)
  | extract (extractor : Extractor) (code : String) (id : Option String)
  | discover (config : Config)
  | read (id : String)
  | notify (notice : Notice)

namespace Request

abbrev Reply : Request → Type
  | resolve => Except ConfigError Config
  | construct _ => Except CompileError Nat
  | interpret .. => Except CompileError Interpretation
  | preflight .. => Except CompileError (List StyleNode)
  | splitSheet .. => Except CompileError SplitSheet
  | completions _ => Except CompileError (List String)
  | render .. => String
  | extract .. => Except ExtractionError Extracted
  | discover _ => Except SourceError (List String)
  | read _ => Except SourceError String
  | notify _ => Unit

/-- Whether other activities may run before the answer comes. -/
def suspends : Request → Bool
  | construct _ | render .. | notify _ => false
  | _ => true

end Request

/-- `stall` is for an activity whose retries are used up. A step hands on the engine as it was
before the change. -/
inductive Activity (α : Type) where
  | done (a : α)
  | fail (e : EngineError)
  | stall
  | step (change : Engine → Engine) (next : Engine → Activity α)
  | ask (q : Request) (next : q.Reply → Activity α)
  | wait (gate : Gate) (next : Activity α)

namespace Activity

variable {α β : Type}

def bind (t : Activity α) (f : α → Activity β) : Activity β :=
  match t with
  | done a => f a
  | fail e => fail e
  | stall => stall
  | step change next => step change fun e => (next e).bind f
  | ask q next => ask q fun r => (next r).bind f
  | wait gate next => wait gate (next.bind f)

instance : Monad Activity where
  pure := done
  bind := bind

def attempt : Activity α → Activity (Except EngineError α)
  | done a => done (.ok a)
  | fail e => done (.error e)
  | stall => stall
  | step change next => step change fun e => (next e).attempt
  | ask q next => ask q fun r => (next r).attempt
  | wait gate next => wait gate next.attempt

def ofExcept : Except EngineError α → Activity α
  | .ok a => done a
  | .error e => fail e

def orFail {ε : Type} (wrap : ε → EngineError) : Except ε α → Activity α
  | .ok a => done a
  | .error e => fail (wrap e)

def engine : Activity Engine := step id done

def change (f : Engine → Engine) : Activity Unit := step f fun _ => done ()

def request (q : Request) : Activity q.Reply := ask q done

def notify (n : Notice) : Activity Unit := request (.notify n)

def await (gate : Gate) : Activity Unit := wait gate (done ())

def changeCache (f : Cache → Cache) : Activity Unit := change fun e => { e with cache := f e.cache }

/-- Changes the cache if it still belongs to an initialization, and tells whether it does. -/
def commit (generation : Nat) (f : Cache → Cache) : Activity Bool :=
  step
    (fun e => if e.cache.generation = generation then { e with cache := f e.cache } else e)
    fun e => done (e.cache.generation = generation)

end Activity

end OnDemandCss
