/-!
Launching a group of threads one after the other. The first launch that fails ends the launching.
-/

namespace Dataflow

/-- How far a launching has come. A launch fails with an `ε` and gives a `θ` otherwise. -/
structure Launch (ε θ : Type) where
  /-- The launches asked for, in order. -/
  asked : List Nat := []
  /-- The threads that were launched, in order. -/
  threads : List θ := []
  fault : Option ε := none

namespace Launch

variable {ε θ : Type}

/-- Asks for the next launch, unless one has failed. -/
def next (start : Nat → Except ε θ) (launch : Launch ε θ) : Launch ε θ :=
  match launch.fault with
  | some _ => launch
  | none =>
    let index := launch.asked.length
    match start index with
    | .ok thread =>
      { launch with asked := launch.asked ++ [index], threads := launch.threads ++ [thread] }
    | .error error => { launch with asked := launch.asked ++ [index], fault := some error }

/-- Asks for `count` more launches, up to the first that fails. -/
def go (start : Nat → Except ε θ) : (count : Nat) → Launch ε θ → Launch ε θ
  | 0, launch => launch
  | count + 1, launch =>
    match (launch.next start).fault with
    | none => go start count (launch.next start)
    | some _ => launch.next start

def all (count : Nat) (start : Nat → Except ε θ) : Launch ε θ := go start count {}

end Launch

/-- A thread as its owner sees it. -/
structure Thread where
  /-- Whether it has still to be waited for. A thread that was never given work need not be. -/
  joinable : Bool
  deriving DecidableEq

def awaitAll (threads : List Thread) : List Thread := threads.map fun _ => { joinable := false }

end Dataflow
