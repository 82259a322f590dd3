import Asl.Analysis

/-!
# Sessions

A session drives one set of tables by single operations and whole passes in any order.
Every step leaves tables behind and an answer, which is a fault if the step met one;
the session goes on from the tables as they are then.
-/

namespace Asl

namespace Session

inductive Step where
  /-- Changes nothing. -/
  | look
  | newScope (name : String)
  | enter (scope : ScopeId)
  | leave
  | declare (name : String) (binding : Binding)
  | setSignature (signature : Option Ty)
  | put (node : NodeId) (fact : Fact)
  | record (diagnostic : Diagnostic)
  | register (program : Program)
  | check (config : Config) (program : Program)
  /-- Runs steps with a scope active, to the end or up to the first that meets a fault. -/
  | within (scope : ScopeId) (body : List Step) (stop : Bool)

inductive Answer where
  | done
  | fault (fault : Fault)
  | scope (scope : Option ScopeId)
  | count (found : Nat)
deriving DecidableEq

inductive Outcome where
  | single (answer : Answer) (tables : Tables)
  | nested (body : List Outcome) (tables : Tables)

namespace Outcome

/-- The tables as a step leaves them. -/
def tables : Outcome → Tables
  | single _ t => t
  | nested _ t => t

/-- A nest of steps that was entered has not failed, whatever became of its steps. -/
def isFault : Outcome → Bool
  | single (.fault _) _ => true
  | _ => false

/-- The outcome of a pass, under a reading of what it gives. -/
def ofPass (pass : Pass α) (answer : α → Answer) (t : Tables) : Outcome :=
  match pass t with
  | .ok a t => single (answer a) t
  | .error fault t => single (.fault fault) t

end Outcome

mutual
def Step.run : Step → Tables → Outcome
  | .look, t => .single .done t
  | .newScope name, t => .ofPass (Pass.newScope name) (fun id => .scope (some id)) t
  | .enter scope, t => .ofPass (Pass.enter scope) (fun _ => .done) t
  | .leave, t => .single (.scope t.symbols.innermost?) t.leave
  | .declare name binding, t => .ofPass (Pass.declare name binding) (fun _ => .done) t
  | .setSignature signature, t => .ofPass (Pass.setSignature signature) (fun _ => .done) t
  | .put node fact, t => .ofPass (Pass.put node fact) (fun _ => .done) t
  | .record diagnostic, t => .ofPass (Pass.report [diagnostic]) (fun _ => .done) t
  | .register program, t => .ofPass (registerProgram program) (fun _ => .done) t
  | .check config program, t => .ofPass (checkProgram config program) .count t
  | .within scope body stop, t =>
      match Pass.enter scope t with
      | .ok _ t =>
          let (outcomes, t) := runSteps stop body t
          .nested outcomes t.leave
      | .error fault t => .single (.fault fault) t
def runSteps (stop : Bool) : List Step → Tables → List Outcome × Tables
  | [], t => ([], t)
  | step :: rest, t =>
      let outcome := step.run t
      if stop && outcome.isFault then ([outcome], outcome.tables)
      else
        let (outcomes, t) := runSteps stop rest outcome.tables
        (outcome :: outcomes, t)
end

/-- The outcomes of a session that starts from empty tables. -/
def run (steps : List Step) : List Outcome := (runSteps false steps {}).1

end Session

end Asl
