import ShellTranscript.Event
import ShellTranscript.Sampler.Basic
import ShellTranscript.Scope
import ShellTranscript.Transcript.Basic

-- The recorder writes the transcript. It opens a block when a command starts, replaces the block's
-- output by every new snapshot while the command runs, and closes it when the command finishes. While
-- a full-screen program has the terminal, recording is suspended.
namespace ShellTranscript

inductive RecorderState where
  | idle
  | running
  | suspended
deriving DecidableEq, Repr

-- What the view is asked to scroll to.
inductive ScrollRequest where
  | caretCenterDown
  | bottom
deriving DecidableEq, Repr

-- A disposed viewport shows nothing any more.
structure Viewport where
  caret : Nat := 0
  scroll : Option ScrollRequest := none
  disposed : Bool := false
deriving DecidableEq, Repr

-- What closing the scope of a running block does.
inductive ScopeEffect where
  | stopListening (id : Nat)
  | uninstallRouter (router : Text) (block : Nat)
  | note (label : Text)
deriving DecidableEq, Repr

-- What the recorder did to the world outside: routers of input were installed for a block and taken
-- away again, and labelled things were run.
inductive JournalEntry where
  | routerInstalled (router : Text) (block : Nat)
  | routerUninstalled (router : Text) (block : Nat)
  | ran (label : Text)
deriving DecidableEq, Repr

def JournalEntry.label? : JournalEntry → Option Text
  | ran label => some label
  | _ => none

-- `epoch` is the one that the open block takes snapshots from. Scopes are known by their place in
-- the list; `scope` is the one of the running block.
structure Recorder where
  transcript : Transcript := {}
  state : RecorderState := .idle
  epoch : Option Nat := none
  viewport : Viewport := {}
  terminated : Bool := false
  router : Option Text := none
  scopes : List (Scope ScopeEffect) := []
  scope : Option Nat := none
  journal : List JournalEntry := []
deriving Repr

-- The recorder is the one kind of listener that a sampler in a session has.
inductive Relay where
  | recorder
deriving DecidableEq, Repr

-- What the recorder shares with those who tell it of changes.
structure Stage where
  terminal : Terminal
  sampler : Sampler Relay := {}
  mailbox : Mailbox := {}
deriving Repr

namespace Stage

-- A poll posts the new content once for every listener of the sampler.
def poll (s : Stage) : Stage × Bool :=
  match s.sampler.sample s.terminal with
  | none => (s, false)
  | some output =>
    let mailbox := s.sampler.listeners.members.foldl
      (fun mailbox _ => mailbox.postEvent (.outputChanged output)) s.mailbox
    ({ s with sampler := s.sampler.send output, mailbox }, true)

end Stage

-- A recorder at work.
structure Desk where
  stage : Stage
  recorder : Recorder := {}
deriving Repr

-- The end of an operation: the state after it, and why it was refused if it was.
inductive Outcome (σ : Type) where
  | done (s : σ)
  | refused (reason : Refusal) (s : σ)
deriving Repr

namespace Outcome

variable {σ τ : Type}

def state : Outcome σ → σ
  | done s => s
  | refused _ s => s

def refusal? : Outcome σ → Option Refusal
  | done _ => none
  | refused reason _ => some reason

def andThen (o : Outcome σ) (next : σ → Outcome σ) : Outcome σ :=
  match o with
  | done s => next s
  | refused reason s => refused reason s

-- An operation that meets an offset that is not in the document has not happened.
def restoring (before : σ) : Outcome σ → Outcome σ
  | refused .badOffset _ => refused .badOffset before
  | o => o

end Outcome

namespace Desk

def transcript (d : Desk) : Transcript := d.recorder.transcript

def withTranscript (d : Desk) (t : Transcript) : Desk :=
  { d with recorder := { d.recorder with transcript := t } }

def modifyRecorder (d : Desk) (f : Recorder → Recorder) : Desk :=
  { d with recorder := f d.recorder }

def note (d : Desk) (entry : JournalEntry) : Desk :=
  d.modifyRecorder fun r => { r with journal := r.journal ++ [entry] }

-- The journal since it was last taken.
def takeJournal (d : Desk) : List JournalEntry × Desk :=
  (d.recorder.journal, d.modifyRecorder fun r => { r with journal := [] })

def activeId? (d : Desk) : Option Nat := d.transcript.activeBlock?.map Block.id

def performEffect (d : Desk) : ScopeEffect → Desk
  | .stopListening id =>
    { d with stage := { d.stage with sampler :=
        { d.stage.sampler with listeners := (d.stage.sampler.listeners.remove id).1 } } }
  | .uninstallRouter router block => d.note (.routerUninstalled router block)
  | .note label => d.note (.ran label)

-- Changes a scope and carries out what that sets off.
def withScope (d : Desk) (index : Nat)
    (change : Scope ScopeEffect → Scope ScopeEffect × List ScopeEffect) : Desk :=
  match d.recorder.scopes[index]? with
  | none => d
  | some scope =>
    let (scope, effects) := change scope
    let d := d.modifyRecorder fun r => { r with scopes := r.scopes.set index scope }
    effects.foldl performEffect d

def closeScope (d : Desk) (index : Nat) : Desk := d.withScope index Scope.close

-- Registers something to run when the running block's scope closes.
def deferNote (d : Desk) (label : Text) : Desk × Bool :=
  match d.recorder.scope with
  | none => (d, false)
  | some index => (d.withScope index fun s => s.register (.once (.note label)), true)

-- The running block's scope is closed and no longer the current one.
def closeCurrentScope (d : Desk) : Desk :=
  match d.recorder.scope with
  | none => d
  | some index => (d.modifyRecorder fun r => { r with scope := none }).closeScope index

-- Listens to the sampler and installs the router for a block, until the new scope closes.
def openScope (d : Desk) (block : Nat) : Desk :=
  let d := d.closeCurrentScope
  let index := d.recorder.scopes.length
  let (listeners, id) := d.stage.sampler.listeners.add .recorder
  let d := { d with stage := { d.stage with sampler := { d.stage.sampler with listeners } } }
  let d := d.modifyRecorder fun r =>
    { r with scopes := r.scopes ++ [({} : Scope ScopeEffect)], scope := some index }
  let d := d.withScope index fun s => s.register (.once (.stopListening id))
  match d.recorder.router with
  | none => d
  | some router =>
    (d.note (.routerInstalled router block)).withScope index fun s =>
      s.register (.once (.uninstallRouter router block))

end Desk

end ShellTranscript
