import ServiceDirectory.Store.Request

/-! # Progress of tasks

A task is in one of finitely many kinds of stages and acts on a state that it may share with others.
`Progress` is what it can do next in a stage: wait for somebody else, change the state and move to
another stage, put a request to the store and go on with the answer, end with a result, or break
down. Everything between two requests takes place at once.
-/

namespace ServiceDirectory

/-- The next step of a task on a state in `σ`, with stages in `τ` and results in `ρ`. -/
inductive Progress (σ τ ρ : Type)
  | wait
  | move (state : σ) (next : τ)
  /-- Goes on with the answer to a request. If there is none yet, `otherwise` is what to do
  instead of waiting. -/
  | ask (q : Request) (go : q.Answer → σ → σ × τ) (otherwise : Option (σ × τ))
  | done (state : σ) (result : ρ)
  | crash

namespace Progress

variable {σ τ ρ τ' ρ' : Type}

/-- A task that is a part of another: its stages are stages of the whole, and what follows its end
is up to the whole. -/
def within (p : Progress σ τ ρ) (stage : τ → τ') (rest : σ → ρ → Progress σ τ' ρ') :
    Progress σ τ' ρ' :=
  match p with
  | wait => .wait
  | move s t => .move s (stage t)
  | ask q go otherwise =>
    .ask q (fun a s => let (s, t) := go a s; (s, stage t))
      (otherwise.map fun (s, t) => (s, stage t))
  | done s r => rest s r
  | crash => .crash

/-- Asks, and goes on with the answer whatever the state has become meanwhile. -/
def query (q : Request) (next : q.Answer → τ) : Progress σ τ ρ :=
  .ask q (fun a s => (s, next a)) none

end Progress

end ServiceDirectory
