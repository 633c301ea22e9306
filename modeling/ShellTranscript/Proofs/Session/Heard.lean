import Mathlib.Tactic.Common
import ShellTranscript.Proofs.Session.Chunks
import ShellTranscript.Proofs.Signal.Announced

-- Reading up to the next notice: the bytes before it are only printed, and then it is acted on. A
-- stream in which nothing is reported and no start breaks off a command is unambiguous.
namespace ShellTranscript

open Signal

theorem ShellDecoder.told_eq_nil_append {d : ShellDecoder} {front back : List UInt8}
    (h : d.told (front ++ back) = []) : d.told front = [] ∧ (d.feed front).1.told back = [] := by
  rw [told_append] at h
  exact List.append_eq_nil_iff.mp h

namespace Reading

theorem after_silent {r : Reading} {bytes : List UInt8} (h : r.decoder.told bytes = []) :
    (r.print bytes).Alike (r.after bytes) ∧
      (r.after bytes).decoder = (r.decoder.feed bytes).1 ∧ (r.readBytes bytes).2 = [] := by
  induction bytes generalizing r with
  | nil => exact ⟨.refl r, rfl, rfl⟩
  | cons b bytes ih =>
    rw [ShellDecoder.told_cons] at h
    obtain ⟨hstep, hlater⟩ := List.append_eq_nil_iff.mp h
    obtain ⟨hread, hnotices⟩ := read_byte_nil hstep
    have hdecoder : (r.read [b]).1.decoder = (r.decoder.step b).1 := by
      rw [hread, finishRead_decoder]
      rfl
    obtain ⟨halike, hafter, hnone⟩ := ih (r := (r.read [b]).1) (by rwa [hdecoder])
    have hprinted : (r.print [b]).Alike (r.hearing b) := ⟨.refl _, rfl, rfl, rfl⟩
    have hfirst : (r.print [b]).Alike (r.read [b]).1 := by
      rw [hread]
      exact hprinted.trans (alike_finishRead _)
    rw [after_cons, readBytes_cons, hnotices, hnone]
    refine ⟨?_, ?_, rfl⟩
    · exact (r.alike_print_append [b] bytes).symm.trans ((hfirst.print bytes).trans halike)
    · rw [hafter, hdecoder, ShellDecoder.feed_cons]

-- The reading that acts on what the last byte completes.
def heard (r : Reading) (quiet : List UInt8) (b : UInt8) : Reading :=
  { r with decoder := ((r.decoder.feed quiet).1.step b).1 }.print (quiet ++ [b])

section Heard

variable {r : Reading} {quiet : List UInt8} {b : UInt8} {notice : ShellNotice}

theorem after_heard (h : r.decoder.Hears quiet b notice) :
    ((r.heard quiet b).act notice).1.Alike (r.after (quiet ++ [b])) ∧
      (r.after (quiet ++ [b])).decoder = ((r.heard quiet b).act notice).1.decoder ∧
      (r.readBytes (quiet ++ [b])).2.map Notice.event =
        ((r.heard quiet b).act notice).2.map Notice.event := by
  obtain ⟨halike, hdecoder, hnone⟩ := after_silent h.silent
  have htells := h.tells
  rw [← hdecoder] at htells
  obtain ⟨hread, hnotices⟩ := read_byte_single htells
  have hheard : (r.heard quiet b).Alike ((r.after quiet).hearing b) := by
    have hprinted := (r.alike_print_append quiet [b]).symm.trans (halike.print [b])
    exact ⟨hprinted.terminal, hprinted.prompt, hprinted.isRunning, hprinted.sentCommand⟩
  have hsame : ((r.after quiet).hearing b).decoder = (r.heard quiet b).decoder := by
    show ((r.after quiet).decoder.step b).1 = ((r.decoder.feed quiet).1.step b).1
    rw [hdecoder]
  have hevents := hheard.act_events notice
    (fun _ => by rw [nextCommand, nextCommand, hheard.unreportedCommand, hsame])
    (fun _ _ => by rw [brokenExit, brokenExit, hsame])
  have hafter : r.after (quiet ++ [b]) = (((r.after quiet).hearing b).act notice).1.finishRead := by
    rw [after_append]
    exact hread
  have hlist : (r.readBytes (quiet ++ [b])).2 = (((r.after quiet).hearing b).act notice).2 := by
    rw [readBytes_append, hnone]
    show [] ++ (((r.after quiet).read [b]).2.1 ++ []) = _
    rw [hnotices, List.append_nil, List.nil_append]
  rw [hafter, hlist, hevents]
  refine ⟨((hheard.act notice).1).trans (alike_finishRead _), ?_, rfl⟩
  rw [finishRead_decoder, act_decoder, act_decoder, hsame]

end Heard

-- Nothing is reported, and a command starts only when none is running.
def Calm (r : Reading) (stream : List UInt8) : Prop :=
  ∀ front b back notice, stream = front ++ b :: back →
    ((r.after front).decoder.step b).2 = [notice] →
      (∀ line, notice ≠ .commandLine line) ∧
        (notice = .commandExecuted → (r.after front).isRunning = false)

theorem Calm.tail {r : Reading} {b : UInt8} {stream : List UInt8} (h : r.Calm (b :: stream)) :
    (r.read [b]).1.Calm stream := by
  intro front c back notice hstream hstep
  rw [← after_cons] at hstep ⊢
  exact h (b :: front) c back notice (by rw [hstream, List.cons_append]) hstep

theorem Calm.drop {r : Reading} {front back : List UInt8} (h : r.Calm (front ++ back)) :
    (r.after front).Calm back := by
  induction front generalizing r with
  | nil => exact h
  | cons b front ih => exact ih h.tail

theorem Calm.unreported {r : Reading} {front back : List UInt8} (h : r.Calm (front ++ back))
    (hreported : r.decoder.shell.reportedCommand = none) :
    (r.after front).decoder.shell.reportedCommand = none := by
  induction front generalizing r with
  | nil => exact hreported
  | cons b front ih =>
    refine ih h.tail ?_
    rcases r.decoder.step_eq_nil_or b with hstep | ⟨notice, hstep⟩
    · rw [(read_byte_nil hstep).1, finishRead_decoder, hearing_shell, hstep]
      exact hreported
    · obtain ⟨hline, -⟩ := h [] b (front ++ back) notice rfl hstep
      have hheard : (r.hearing b).decoder.shell.reportedCommand = none := by
        rw [hearing_shell, hstep]
        cases notice with
        | commandLine line => exact absurd rfl (hline line)
        | _ => exact hreported
      rw [(read_byte_single hstep).1, finishRead_decoder, act_decoder]
      split
      · rfl
      · exact hheard

-- What is told later is what single steps tell.
theorem Calm.not_mem_told {r : Reading} {b : UInt8} {back : List UInt8} (h : r.Calm (b :: back))
    (line : Text) : .commandLine line ∉ (r.hearing b).decoder.told back := by
  intro hmem
  obtain ⟨front, c, rest, rfl, hstep⟩ := ShellDecoder.exists_step_of_mem_told hmem
  have hheard : (r.hearing b).decoder.InStep (r.read [b]).1.decoder := r.read_inStep b
  have hlater := (hheard.feed front).trans ((r.read [b]).1.after_inStep front)
  rw [← (hlater.step c).2] at hstep
  exact (h.tail front c rest _ rfl hstep).1 line rfl

theorem Calm.unambiguous {r : Reading} {stream : List UInt8} (h : r.Calm stream)
    (hreported : r.decoder.shell.reportedCommand = none) : r.Unambiguous stream := by
  intro front b back hstream hstart
  subst hstream
  have hidle := (h front b back _ rfl hstart).2 rfl
  have hrest : (r.after front).Calm (b :: back) := h.drop
  have hlater := hrest.not_mem_told
  refine ⟨⟨fun line hmem => absurd hmem (hlater line), fun hrunning => ?_⟩, ?_⟩
  · have hbusy : (r.after front).isRunning = true := hrunning
    rw [hidle] at hbusy
    cases hbusy
  · intro middle c rest hback hnext
    subst hback
    rw [List.append_cons, ← List.append_assoc] at h
    have hnone := h.unreported hreported
    rw [after_append] at hnone
    rw [nextCommand, hearing_shell, hnext]
    show _ = (((r.after (front ++ [b])).after middle).decoder.shell.reportedCommand <|> _)
    rw [hnone]
    rfl

-- A notice and what follows it.
theorem calm_of_hears {r : Reading} {quiet rest : List UInt8} {b : UInt8} {notice : ShellNotice}
    (h : r.decoder.Hears quiet b notice) (hline : ∀ line, notice ≠ .commandLine line)
    (hidle : notice = .commandExecuted → r.isRunning = false)
    (hrest : (r.after (quiet ++ [b])).Calm rest) : r.Calm (quiet ++ [b] ++ rest) := by
  obtain ⟨halike, hdecoder, -⟩ := after_silent h.silent
  have hhere : ∀ other, ((r.after quiet).decoder.step b).2 = [other] →
      (∀ line, other ≠ .commandLine line) ∧
        (other = .commandExecuted → (r.after quiet).isRunning = false) := by
    intro other hstep
    rw [hdecoder, h.tells] at hstep
    obtain rfl := List.singleton_inj.mp hstep
    exact ⟨hline, fun hstart => halike.isRunning.trans (hidle hstart)⟩
  intro front c back other hstream hstep
  rw [List.append_assoc, List.append_eq_append_iff] at hstream
  rcases hstream with ⟨middle, rfl, hsecond⟩ | ⟨middle, rfl, hsecond⟩
  · cases middle with
    | nil =>
      obtain ⟨rfl, -⟩ := List.cons.inj hsecond
      rw [List.append_nil] at hstep ⊢
      exact hhere other hstep
    | cons d middle =>
      obtain ⟨rfl, rfl⟩ := List.cons.inj hsecond
      rw [List.append_cons, after_append] at hstep ⊢
      exact hrest middle c back other rfl hstep
  · cases middle with
    | nil =>
      obtain ⟨rfl, -⟩ := List.cons.inj hsecond
      rw [List.append_nil] at hhere
      exact hhere other hstep
    | cons d middle =>
      -- inside the quiet part nothing is told
      obtain ⟨rfl, -⟩ := List.cons.inj hsecond
      obtain ⟨hfront, hlater⟩ := ShellDecoder.told_eq_nil_append h.silent
      rw [ShellDecoder.told_cons] at hlater
      rw [(after_silent hfront).2.1, (List.append_eq_nil_iff.mp hlater).1] at hstep
      cases hstep

end Reading

end ShellTranscript
