import WhileLang.Sink
import WhileLang.Step

/-! Machines reduce a node step by step, count the steps, stop at a budget and
trace every state they pass through. Expressions and statements are the two
kinds of node; an expression never changes its environment. -/

namespace WhileLang

/-- What a machine needs to know of the nodes that it reduces. -/
class Node (ν : Type) where
  reducible : ν → Bool
  step : Env → ν → Outcome ν
  /-- The text of a state in a trace. -/
  line : Env → ν → String

instance : Node Expr where
  reducible := Expr.reducible
  step env e := ⟨e.step env, env⟩
  line _ e := e.text

instance : Node Stmt where
  reducible := Stmt.reducible
  step := Stmt.step
  line env s := s.text ++ " " ++ env.text

/-- Why a step or a run ends early. -/
inductive Stop where
  | fault (f : Fault)
  /-- The sink did not take a whole line. -/
  | sinkFull
  | limit (n : UInt64)
  deriving DecidableEq

def Stop.message : Stop → String
  | fault f => f.message
  | sinkFull => "trace sink failed: failed to write whole buffer"
  | limit n => "step limit of " ++ Text.ofNat n.toNat ++ " exceeded"

/-- How far a machine may go; no limit unless one is given. -/
structure Config where
  stepLimit : Option UInt64
  deriving DecidableEq

/-- The steps are counted in a machine word, which wraps around. -/
structure Machine (ν : Type) where
  node : ν
  env : Env
  config : Config
  steps : UInt64

namespace Machine

variable {ν : Type} [Node ν]

def start (node : ν) (env : Env) (config : Config) : Machine ν := ⟨node, env, config, 0⟩

def reducible (m : Machine ν) : Bool := Node.reducible m.node

/-- One line of the trace, with its newline. -/
def line (m : Machine ν) : String := Node.line m.env m.node ++ "\n"

/-- The limit that allows no further step, if there is one. -/
def exhausted? (m : Machine ν) : Option UInt64 :=
  m.config.stepLimit.filter fun n => decide (n ≤ m.steps)

/-- The budget comes before the reduction; only a successful step counts. -/
def step (m : Machine ν) : Machine ν × Except Stop Unit :=
  match m.exhausted? with
  | some n => (m, .error (.limit n))
  | none =>
    match Node.step m.env m.node with
    | ⟨.ok node, env⟩ => (⟨node, env, m.config, m.steps + 1⟩, .ok ())
    | ⟨.error f, env⟩ => (⟨m.node, env, m.config, m.steps⟩, .error (.fault f))

/-- How a run ended: where the machine stands, what was traced, and the result. -/
structure Ran (ν : Type) where
  machine : Machine ν
  sink : Sink
  result : Except Stop Unit

/-- Writes the line of each state, then steps on, until the node is finished. Each state
spends one unit of fuel; `none` says that the fuel ran out. -/
def run : Nat → Machine ν → Sink → Option (Ran ν)
  | 0, _, _ => none
  | fuel + 1, m, sink =>
    match sink.write m.line with
    | (sink, false) => some ⟨m, sink, .error .sinkFull⟩
    | (sink, true) =>
      if m.reducible then
        match m.step with
        | (m', .ok ()) => run fuel m' sink
        | (m', .error stop) => some ⟨m', sink, .error stop⟩
      else some ⟨m, sink, .ok ()⟩

end Machine

end WhileLang
