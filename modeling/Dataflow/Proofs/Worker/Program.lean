import Dataflow.Worker.Channel

/-! Programs that have nothing more to ask of the world, and what a program is bound to do and to
return before it next asks. Neither depends on what becomes of the result afterwards. -/
namespace Dataflow

variable {τ M ε α β : Type}

namespace Program

/-- What a program is bound to do before it next looks at the world. -/
def effects : Program τ M ε α → List (Effect M)
  | perform effect next => effect :: (next ()).effects
  | finish _ | fail _ | claim _ _ _ | take _ _ | drain _ _ | meet _ => []

/-- What a program will return if it never looks at the world again. -/
def outcome? : Program τ M ε α → Option α
  | perform _ next => (next ()).outcome?
  | finish result => some result
  | fail _ | claim _ _ _ | take _ _ | drain _ _ | meet _ => none

/-- The program never looks at the world again. -/
def Straight : Program τ M ε α → Prop
  | perform _ next => (next ()).Straight
  | finish _ | fail _ => True
  | claim _ _ _ | take _ _ | drain _ _ | meet _ => False

def script (effects : List (Effect M)) (rest : Program τ M ε α) : Program τ M ε α :=
  (performAll effects).andThen fun _ => rest

theorem script_append (first second : List (Effect M)) (rest : Program τ M ε α) :
    script (first ++ second) rest = script first (script second rest) := by
  induction first with
  | nil => rfl
  | cons effect first ih => exact congrArg (fun rest => perform effect fun _ => rest) ih

/-- What follows a script follows its last act. -/
theorem andThen_script (effects : List (Effect M)) (rest : Program τ M ε α)
    (next : α → Program τ M ε β) :
    (script effects rest).andThen next = script effects (rest.andThen next) := by
  induction effects with
  | nil => rfl
  | cons effect effects ih => exact congrArg (fun rest => perform effect fun _ => rest) ih

/-- A script performs its effects before anything else. -/
theorem effects_script (effects : List (Effect M)) (rest : Program τ M ε α) :
    (script effects rest).effects = effects ++ rest.effects := by
  induction effects with
  | nil => rfl
  | cons effect effects ih => exact congrArg (effect :: ·) ih

/-- A script leaves the result to what follows. -/
theorem outcome?_script (effects : List (Effect M)) (rest : Program τ M ε α) :
    (script effects rest).outcome? = rest.outcome? := by
  induction effects with
  | nil => rfl
  | cons effect effects ih => exact ih

/-- A script asks nothing of the world. -/
theorem straight_script (effects : List (Effect M)) {rest : Program τ M ε α} (h : rest.Straight) :
    (script effects rest).Straight := by
  induction effects with
  | nil => exact h
  | cons effect effects ih => exact ih

/-- Changing the result of a program changes nothing of what it does. -/
theorem effects_map (f : α → β) (program : Program τ M ε α) :
    (f <$> program).effects = program.effects := by
  induction program with
  | perform effect next ih => exact congrArg (effect :: ·) (ih ())
  | _ => rfl

theorem outcome?_map (f : α → β) (program : Program τ M ε α) :
    (f <$> program).outcome? = program.outcome?.map f := by
  induction program with
  | perform effect next ih => exact ih ()
  | _ => rfl

theorem straight_map (f : α → β) {program : Program τ M ε α} (h : program.Straight) :
    (f <$> program).Straight := by
  induction program with
  | perform effect next ih => exact ih () h
  | finish result => trivial
  | fail error => trivial
  | claim channel kind next => exact h.elim
  | take channel next => exact h.elim
  | drain channel next => exact h.elim
  | meet next => exact h.elim

end Program

namespace World

variable [DecidableEq τ]

/-- What follows effects finds all of them performed. -/
theorem run_script (worker : Nat) (effects : List (Effect M)) (rest : Program τ M ε α)
    (world : World τ M) :
    World.run worker (Program.script effects rest) world =
      World.run worker rest (effects.foldl (World.perform · worker) world) := by
  induction effects generalizing world with
  | nil => rfl
  | cons effect effects ih => exact ih (world.perform worker effect)

/-- What follows a program that returns goes on from where the program has ended. -/
theorem run_andThen {worker : Nat} {program : Program τ M ε α} {world world' : World τ M}
    {result : α} (h : World.run worker program world = (.returned result, world'))
    (next : α → Program τ M ε β) :
    World.run worker (program.andThen next) world = World.run worker (next result) world' := by
  induction program generalizing world with
  | finish result =>
      cases h
      rfl
  | fail error => cases h
  | perform effect next ih => exact ih () h
  | claim channel kind next ih => exact ih _ h
  | take channel next ih => exact ih _ h
  | drain channel next ih => exact ih _ h
  | meet next ih => cases h

/-- A program that returns does so whatever then becomes of its result. -/
theorem run_map (f : α → β) {worker : Nat} {program : Program τ M ε α} {world world' : World τ M}
    {result : α} (h : World.run worker program world = (.returned result, world')) :
    World.run worker (f <$> program) world = (.returned (f result), world') :=
  run_andThen h fun result => .finish (f result)

end World

end Dataflow
