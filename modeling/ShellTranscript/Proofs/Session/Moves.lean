import Mathlib.Tactic.Common
import ShellTranscript.Proofs.Session.Chunks
import ShellTranscript.Proofs.Session.Delivery
import ShellTranscript.Proofs.Session.Lifecycle

-- A read, one move at a time. What a reading does to the terminal and to the mailbox falls into moves
-- between which anyone else may come in; a read in one piece is all of its moves.
namespace ShellTranscript

open Signal

inductive Move where
  | print (bytes : List UInt8)
  | reset
  | tell (happening : Happening)
  | takeReplies
deriving DecidableEq, Repr

namespace Move

-- What is left of a terminal.
def terminal (t : Terminal) : Move → Terminal
  | print bytes => t.write bytes
  | reset => t.clearAll
  | tell _ => t
  | takeReplies => t.takeReplies.2

-- What is told is read off the terminal at that moment.
def event? (t : Terminal) : Move → Option Event
  | tell happening => some (Notice.event ⟨happening, t⟩)
  | _ => none

-- What moves tell one after the other.
def told (t : Terminal) : List Move → List Event
  | [] => []
  | move :: moves => (move.event? t).toList ++ told (move.terminal t) moves

def terminalAfter (t : Terminal) (moves : List Move) : Terminal := moves.foldl terminal t

theorem told_append (t : Terminal) (front back : List Move) :
    told t (front ++ back) = told t front ++ told (terminalAfter t front) back := by
  induction front generalizing t with
  | nil => rfl
  | cons move front ih =>
    rw [List.cons_append, told, told, ih, List.append_assoc]
    rfl

theorem terminalAfter_append (t : Terminal) (front back : List Move) :
    terminalAfter t (front ++ back) = terminalAfter (terminalAfter t front) back :=
  List.foldl_append

-- Resets alone begin a new epoch.
theorem epoch_terminalAfter (t : Terminal) (moves : List Move) :
    (terminalAfter t moves).epoch = t.epoch + moves.count .reset := by
  induction moves generalizing t with
  | nil => rfl
  | cons move moves ih =>
    rw [terminalAfter, List.foldl_cons, ← terminalAfter, ih, List.count_cons]
    cases move with
    | print bytes => simp [terminal, t.write_epoch bytes]
    | reset =>
      have hreset : (Move.reset.terminal t).epoch = t.epoch + 1 := rfl
      simp only [hreset, beq_self_eq_true, if_true]
      omega
    | tell happening => rfl
    | takeReplies => rfl

end Move

def Stage.perform (s : Stage) (move : Move) : Stage :=
  { s with
    terminal := move.terminal s.terminal
    mailbox := (move.event? s.terminal).elim s.mailbox s.mailbox.postEvent }

theorem Stage.foldl_perform {s : Stage} (h : s.mailbox.isClosed = false) (moves : List Move) :
    moves.foldl perform s =
      { s with
        terminal := Move.terminalAfter s.terminal moves
        mailbox := s.mailbox.postAll (Move.told s.terminal moves) } := by
  induction moves generalizing s with
  | nil => simp [Move.terminalAfter, Move.told, Mailbox.postAll_nil]
  | cons move moves ih =>
    have hbox : (s.perform move).mailbox = s.mailbox.postAll (move.event? s.terminal).toList := by
      simp only [perform]
      cases move.event? s.terminal with
      | none => exact s.mailbox.postAll_nil.symm
      | some e => exact Mailbox.postEvent_eq h e
    have hopen : (s.perform move).mailbox.isClosed = false := by
      rw [hbox]
      exact h
    rw [List.foldl_cons, ih hopen, hbox, Mailbox.postAll_postAll]
    rfl

-- A command has started after the terminal was reset, and has finished before it is reset.
def Happening.moves : Happening → List Move
  | .started command prompt => [.reset, .tell (.started command prompt)]
  | .finished exitCode => [.tell (.finished exitCode), .reset]
  | .cleared => [.tell .cleared]
  | .alternateChanged enabled => [.tell (.alternateChanged enabled)]

def Notice.moves (n : Notice) : List Move := n.happening.moves

namespace Reading

-- The moves of acting on what was decoded of a read.
def followMoves (r : Reading) (printed : Nat) (bytes : List UInt8) :
    List (Located ShellNotice) → List Move
  | [] => [.print bytes]
  | (stop, notice) :: rest =>
    let piece := bytes.take (stop - printed)
    let acted := (r.print piece).act notice
    .print piece :: acted.2.flatMap Notice.moves ++
      acted.1.followMoves stop (bytes.drop (stop - printed)) rest

def moves (r : Reading) (bytes : List UInt8) : List Move :=
  let (decoder, found) := r.decoder.feed bytes
  { r with decoder }.followMoves 0 bytes found ++ [.takeReplies]

def movesAll (r : Reading) : List (List UInt8) → List Move
  | [] => []
  | chunk :: chunks => r.moves chunk ++ (r.read chunk).1.movesAll chunks

-- Moves that take the terminal of one reading to that of another and tell these notices.
structure Performs (r : Reading) (moves : List Move) (r' : Reading) (notices : List Notice) :
    Prop where
  terminal : Move.terminalAfter r.terminal moves = r'.terminal
  told : Move.told r.terminal moves = notices.map Notice.event

section Moves

variable {r r' r'' : Reading} {moves more : List Move} {notices later : List Notice}

theorem performs_print (r : Reading) (bytes : List UInt8) :
    r.Performs [.print bytes] (r.print bytes) [] := ⟨rfl, rfl⟩

theorem Performs.append (h : r.Performs moves r' notices) (h' : r'.Performs more r'' later) :
    r.Performs (moves ++ more) r'' (notices ++ later) := by
  refine ⟨?_, ?_⟩
  · rw [Move.terminalAfter_append, h.terminal, h'.terminal]
  · rw [Move.told_append, h.terminal, h.told, h'.told, List.map_append]

theorem performs_finishCommand (r : Reading) (exitCode : Int) :
    r.Performs ((r.finishCommand exitCode).2.flatMap Notice.moves)
      (r.finishCommand exitCode).1 (r.finishCommand exitCode).2 := by
  unfold finishCommand
  split <;> exact ⟨rfl, rfl⟩

theorem performs_startCommand (r : Reading) :
    r.Performs (r.startCommand.2.flatMap Notice.moves) r.startCommand.1 r.startCommand.2 := by
  unfold startCommand finishCommand
  cases hrunning : r.isRunning <;> exact ⟨rfl, rfl⟩

theorem performs_act (r : Reading) (notice : ShellNotice) :
    r.Performs ((r.act notice).2.flatMap Notice.moves) (r.act notice).1 (r.act notice).2 := by
  cases notice with
  | commandExecuted => exact r.performs_startCommand
  | commandFinished exitCode => exact r.performs_finishCommand exitCode
  | _ => exact ⟨rfl, rfl⟩

theorem performs_follow (r : Reading) (printed : Nat) (bytes : List UInt8)
    (found : List (Located ShellNotice)) :
    r.Performs (r.followMoves printed bytes found) (r.follow printed bytes found).1
      (r.follow printed bytes found).2 := by
  induction found generalizing r printed bytes with
  | nil => exact r.performs_print bytes
  | cons first rest ih =>
    obtain ⟨stop, notice⟩ := first
    have hacted := (r.performs_print (bytes.take (stop - printed))).append (performs_act _ notice)
    exact hacted.append (ih _ stop (bytes.drop (stop - printed)))

theorem performs_read (r : Reading) (bytes : List UInt8) :
    r.Performs (r.moves bytes) (r.read bytes).1 (r.read bytes).2.1 := by
  have hfollowed := performs_follow { r with decoder := (r.decoder.feed bytes).1 } 0 bytes
    (r.decoder.feed bytes).2
  have hterminal : (r.read bytes).1.terminal =
      ({ r with decoder := (r.decoder.feed bytes).1 }.follow 0 bytes
        (r.decoder.feed bytes).2).1.terminal.takeReplies.2 := by
    simp only [read, reconcile]
    split <;> rfl
  refine ⟨?_, ?_⟩
  · rw [hterminal, moves, Move.terminalAfter_append]
    exact congrArg (fun t => t.takeReplies.2) hfollowed.terminal
  · rw [moves, Move.told_append]
    exact (List.append_nil _).trans hfollowed.told

theorem performs_readAll (r : Reading) (chunks : List (List UInt8)) :
    r.Performs (r.movesAll chunks) (r.readAll chunks).1 (r.readAll chunks).2 := by
  induction chunks generalizing r with
  | nil => exact ⟨rfl, rfl⟩
  | cons chunk chunks ih => exact (r.performs_read chunk).append (ih _)

end Moves

-- From one reading to another by these moves. In between, the other parts of a session may do
-- anything but reset the terminal.
inductive Makes : Reading → List Move → Reading → Prop where
  | done (r : Reading) : Makes r [] r
  | read {r r' : Reading} {moves : List Move} (chunk : List UInt8) :
      Makes (r.read chunk).1 moves r' → Makes r (r.moves chunk ++ moves) r'
  | meanwhile {r r₁ r' : Reading} {moves : List Move} :
      r.Undisturbed r₁ → Makes r₁ moves r' → Makes r moves r'

theorem makes_movesAll (r : Reading) (chunks : List (List UInt8)) :
    r.Makes (r.movesAll chunks) (r.readAll chunks).1 := by
  induction chunks generalizing r with
  | nil => exact .done r
  | cons chunk chunks ih => exact .read chunk (ih (r.read chunk).1)

end Reading

-- A start is told right after a reset.
def Move.StartsReset (moves : List Move) : Prop :=
  ∀ (place : Nat) (command prompt : Option Text),
    moves[place]? = some (.tell (.started command prompt)) →
    ∃ before, place = before + 1 ∧ moves[before]? = some .reset

namespace Reading

section StartsReset

variable {moves more : List Move}

theorem startsReset_append (h : Move.StartsReset moves) (hmore : Move.StartsReset more) :
    Move.StartsReset (moves ++ more) := by
  intro place command prompt htell
  by_cases hplace : place < moves.length
  · rw [List.getElem?_append_left hplace] at htell
    obtain ⟨before, rfl, hreset⟩ := h place command prompt htell
    exact ⟨before, rfl, by rw [List.getElem?_append_left (by omega), hreset]⟩
  · rw [List.getElem?_append_right (by omega)] at htell
    obtain ⟨before, hbefore, hreset⟩ := hmore _ command prompt htell
    refine ⟨moves.length + before, by omega, ?_⟩
    rw [List.getElem?_append_right (by omega), Nat.add_sub_cancel_left, hreset]

theorem startsReset_of_silent (h : ∀ command prompt, .tell (.started command prompt) ∉ moves) :
    Move.StartsReset moves := fun _ command prompt htell =>
  absurd (List.mem_of_getElem? htell) (h command prompt)

theorem startsReset_notices (notices : List Notice) :
    Move.StartsReset (notices.flatMap Notice.moves) := by
  induction notices with
  | nil => exact startsReset_of_silent (by simp)
  | cons n notices ih =>
    refine startsReset_append ?_ ih
    obtain ⟨happening, terminal⟩ := n
    cases happening with
    | started command prompt =>
      intro place command' prompt' htell
      match place with
      | 0 => cases htell
      | 1 => exact ⟨0, rfl, rfl⟩
      | place + 2 => cases htell
    | _ => exact startsReset_of_silent (by simp [Notice.moves, Happening.moves])

theorem startsReset_followMoves (r : Reading) (printed : Nat) (bytes : List UInt8)
    (found : List (Located ShellNotice)) :
    Move.StartsReset (r.followMoves printed bytes found) := by
  induction found generalizing r printed bytes with
  | nil => exact startsReset_of_silent (by simp [followMoves])
  | cons first rest ih =>
    obtain ⟨stop, notice⟩ := first
    have hprint : Move.StartsReset [.print (bytes.take (stop - printed))] :=
      startsReset_of_silent (by simp)
    exact startsReset_append (startsReset_append hprint (startsReset_notices _)) (ih _ _ _)

theorem Makes.startsReset {r r' : Reading} (h : r.Makes moves r') : Move.StartsReset moves := by
  induction h with
  | done r => exact startsReset_of_silent (by simp)
  | read chunk _ ih =>
    refine startsReset_append (startsReset_append (startsReset_followMoves _ _ _ _) ?_) ih
    exact startsReset_of_silent (by simp)
  | meanwhile _ _ ih => exact ih

theorem startsReset_of_prefix (h : Move.StartsReset more) (hmoves : moves <+: more) :
    Move.StartsReset moves := by
  obtain ⟨rest, rfl⟩ := hmoves
  intro place command prompt htell
  have hplace := (List.getElem?_eq_some_iff.mp htell).1
  obtain ⟨before, rfl, hreset⟩ := h place command prompt (by
    rw [List.getElem?_append_left hplace, htell])
  exact ⟨before, rfl, by rwa [List.getElem?_append_left (by omega)] at hreset⟩

end StartsReset

end Reading

-- A session reads as its moves are performed.
theorem Session.Relays.stage_read {s : Session} (h : s.Relays) (connector : Nat)
    (bytes : List UInt8) :
    (s.read connector bytes).stage = (s.reading.moves bytes).foldl Stage.perform s.stage := by
  obtain ⟨hreading, hmailbox, hsampler, -⟩ := h.posts_read connector bytes
  obtain ⟨hterminal, htold⟩ := s.reading.performs_read bytes
  have hstage : (s.read connector bytes).stage =
      { terminal := (s.reading.read bytes).1.terminal
        sampler := s.sampler
        mailbox := s.mailbox.postAll ((s.reading.read bytes).2.1.map Notice.event) } := by
    rw [Session.stage, Session.terminal, hreading, hmailbox, hsampler]
  rw [hstage, Stage.foldl_perform h.mailbox, ← hterminal, ← htold]
  rfl

end ShellTranscript
