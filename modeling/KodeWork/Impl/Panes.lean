import KodeWork.Impl.Resources

/-!
# Panes that are being opened

`open_pty` awaits three answers of the server: to the channel it opens, to
`request_pty` and to `request_shell`. The channel has its number from the first on,
and events of it may arrive before `open_pane` knows it. This module adds that
number to the calls of `Impl.Resources`: `confirmed` is the channel that was opened
for the call `i`, while it awaits the other two answers.
-/

namespace KW.Session

structure Panes where
  resources : Resources
  confirmed : Nat → Option Nat

inductive PaneAction
  | base (a : ResourceAction)
  /-- the channel of `open_pty` is open -/
  | confirm (i channel : Nat)
deriving DecidableEq, Repr

namespace Panes

/-- `open_pty` returns the channel that was opened for it. -/
def answers (s : Panes) : ResourceAction → Bool
  | .step i (.opened channel) => s.confirmed i == some channel
  | _ => true

def confirm (s : Panes) (i channel : Nat) : Option Panes :=
  match s.resources.calls i with
  | some (.openPty _) =>
    if s.confirmed i = none then
      some { s with confirmed := Function.update s.confirmed i (some channel) }
    else none
  | _ => none

end Panes

def paneStep (s : Panes) : PaneAction → Option Panes
  | .base a =>
    if s.answers a then (resourceStep s.resources a).map fun t => { s with resources := t } else none
  | .confirm i channel => s.confirm i channel

def paneMachine : Machine Panes PaneAction := ⟨paneStep⟩

def InitialPanes (s : Panes) : Prop := InitialResources s.resources ∧ ∀ i, s.confirmed i = none

end KW.Session
