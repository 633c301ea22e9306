import Mathlib.Data.List.Nodup
import Mathlib.Tactic.Common
import ShellTranscript.Proofs.Scope.Ledger

-- What becomes of the actions of a scope. None of them runs before the scope is closed. Then each
-- runs once, those that were registered until then one after the other, the newest first, and
-- whatever is registered later as soon as it is registered. No call fails, whatever the actions call
-- meanwhile.
namespace ShellTranscript.Scope

variable {ε : Type}

namespace Entry

def registered? : Entry ε → Option (Nat × Teardown ε)
  | registered number action => some (number, action)
  | _ => none

def isRun : Entry ε → Bool
  | begun _ | effect (some _) _ | ended _ => true
  | _ => false

def concerns (numbers : List Nat) : Entry ε → Bool
  | begun number | effect (some number) _ | ended number => numbers.contains number
  | _ => false

end Entry

def registeredIn (entries : List (Entry ε)) : List (Nat × Teardown ε) :=
  entries.filterMap Entry.registered?

-- What is noted about an action that runs from its beginning to its end.
def course (action : Nat × Teardown ε) : List (Entry ε) :=
  .begun action.1 :: (action.2.ownEffects.map (.effect (some action.1)) ++ [.ended action.1])

-- What is noted about actions that run one after the other.
def inTurn (actions : List (Nat × Teardown ε)) : List (Entry ε) := actions.flatMap course

theorem registeredIn_append (entries more : List (Entry ε)) :
    registeredIn (entries ++ more) = registeredIn entries ++ registeredIn more :=
  List.filterMap_append

theorem filter_concerns_isRun (numbers : List Nat) (entries : List (Entry ε)) :
    (entries.filter Entry.isRun).filter (Entry.concerns numbers) =
      entries.filter (Entry.concerns numbers) := by
  rw [List.filter_filter]
  apply List.filter_congr
  intro entry _
  cases entry with
  | effect owner e => cases owner <;> simp [Entry.concerns, Entry.isRun]
  | _ => simp [Entry.concerns, Entry.isRun]

theorem mem_course {entry : Entry ε} {action : Nat × Teardown ε} : entry ∈ course action ↔
    entry = .begun action.1 ∨ (∃ e ∈ action.2.ownEffects, .effect (some action.1) e = entry) ∨
      entry = .ended action.1 := by
  simp [course]

theorem isRun_of_mem_course {entry : Entry ε} {action : Nat × Teardown ε}
    (h : entry ∈ course action) : entry.isRun = true := by
  rcases mem_course.mp h with rfl | ⟨e, -, rfl⟩ | rfl <;> rfl

theorem concerns_of_mem_course {entry : Entry ε} {action : Nat × Teardown ε}
    (h : entry ∈ course action) (numbers : List Nat) :
    entry.concerns numbers = numbers.contains action.1 := by
  rcases mem_course.mp h with rfl | ⟨e, -, rfl⟩ | rfl <;> rfl

theorem filter_concerns_course {numbers : List Nat} {action : Nat × Teardown ε}
    (h : action.1 ∉ numbers) : (course action).filter (Entry.concerns numbers) = [] := by
  rw [List.filter_eq_nil_iff]
  intro entry hentry
  rw [concerns_of_mem_course hentry, List.contains_iff_mem]
  exact h

theorem filter_isRun_course (action : Nat × Teardown ε) :
    (course action).filter Entry.isRun = course action :=
  List.filter_eq_self.mpr fun _ => isRun_of_mem_course

theorem filter_isRun_inTurn (actions : List (Nat × Teardown ε)) :
    (inTurn actions).filter Entry.isRun = inTurn actions := by
  simp only [inTurn, List.filter_flatMap, filter_isRun_course]

theorem filter_concerns_inTurn {actions : List (Nat × Teardown ε)} {numbers : List Nat}
    (h : ∀ action ∈ actions, action.1 ∈ numbers) :
    (inTurn actions).filter (Entry.concerns numbers) = inTurn actions := by
  rw [List.filter_eq_self]
  intro entry hentry
  obtain ⟨action, haction, hentry⟩ := List.mem_flatMap.mp hentry
  rw [concerns_of_mem_course hentry, List.contains_iff_mem]
  exact h action haction

theorem perm_inTurn {actions actions' : List (Nat × Teardown ε)} (h : actions.Perm actions') :
    (inTurn actions).Perm (inTurn actions') := h.flatMap_right _

-- One more action runs, whenever that is.
theorem perm_inTurn_concat {front back : List (Entry ε)} {actions : List (Nat × Teardown ε)}
    (h : (front ++ back).Perm (inTurn actions)) (action : Nat × Teardown ε) :
    (front ++ (course action ++ back)).Perm (inTurn (actions ++ [action])) := by
  have hlast : inTurn (actions ++ [action]) = inTurn actions ++ course action := by
    rw [inTurn, List.flatMap_append, List.flatMap_singleton]
    rfl
  rw [hlast]
  refine .trans ?_ (h.append_right _)
  rw [List.append_assoc]
  exact List.perm_append_comm.append_left front

theorem due_ofKept (kept : List (Nat × Teardown ε)) :
    (kept.map Work.ofKept).flatMap Work.due = inTurn kept := List.flatMap_map ..

namespace Ledger

variable {l l' : Ledger ε}

-- The state is borrowed by the call that is at work, if that is inside, and by nobody else.
structure Lends (l : Ledger ε) : Prop where
  borrowed : l.isBorrowed = l.work.any Work.isInside
  single : l.work.tail.any Work.isInside = false

theorem Lends.exists_turn (h : l.Lends) (hwork : l.work ≠ []) :
    ∃ l', l.step = some l' ∧ l.Turn l' := by
  obtain ⟨hborrowed, hsingle⟩ := h
  refine Ledger.exists_turn hwork fun w hw houtside => ?_
  obtain ⟨rest, hl⟩ := List.head?_eq_some_iff.mp hw
  rw [hl, List.tail_cons] at hsingle
  rw [hborrowed, hl, List.any_cons, houtside, hsingle, Bool.false_or]

theorem any_isInside_ofKept (kept : List (Nat × Teardown ε)) :
    (kept.map Work.ofKept).any Work.isInside = false := by
  rw [List.any_eq_false]
  intro w hw
  obtain ⟨entry, -, rfl⟩ := List.mem_map.mp hw
  exact Bool.false_ne_true

theorem Lends.turn (h : l.Lends) (hturn : l.Turn l') : l'.Lends := by
  obtain ⟨hborrowed, hsingle⟩ := h
  cases hturn with
  | begins hwork | effect hwork =>
    rw [hwork] at hborrowed hsingle
    exact ⟨hborrowed, hsingle⟩
  | @ends _ rest hwork =>
    rw [hwork] at hborrowed hsingle
    refine ⟨hborrowed, ?_⟩
    cases rest with
    | nil => rfl
    | cons w rest => exact (Bool.or_eq_false_iff.mp hsingle).2
  | entersRegister hwork _ | entersClose hwork _ =>
    rw [hwork] at hsingle
    exact ⟨rfl, hsingle⟩
  | registers hwork _ | leaves hwork _ | runs hwork _ =>
    rw [hwork] at hsingle
    exact ⟨hsingle.symm, hsingle⟩
  | @closes owner left rest hwork _ =>
    rw [hwork] at hsingle
    have hnone : (l.kept.reverse.map Work.ofKept ++ Work.doing owner left :: rest).any Work.isInside =
        false := by
      rw [List.any_append, any_isInside_ofKept, Bool.false_or]
      exact hsingle
    refine ⟨hnone.symm, ?_⟩
    rw [List.any_eq_false] at hnone ⊢
    exact fun w hw => hnone w (List.mem_of_mem_tail hw)

-- All entries, if nothing more is registered.
def forecast (l : Ledger ε) : List (Entry ε) := l.entries ++ l.work.flatMap Work.due

-- The actions that have run, run, or will run with the work there is.
def released (l : Ledger ε) : List (Nat × Teardown ε) :=
  if l.isClosed then registeredIn l.entries else []

-- Before the scope is closed. The actions wait in the order of their registration.
structure Waits (l : Ledger ε) : Prop where
  isOpen : l.isClosed = false
  kept : l.kept = registeredIn l.entries
  unclosed : .closed ∉ l.entries

-- From the time when the scope is closed. Those who waited run one after the other.
structure Empties (l : Ledger ε) (before after : List (Entry ε)) : Prop where
  isClosed : l.isClosed = true
  entries : l.entries = before ++ .closed :: after
  once : .closed ∉ before ∧ .closed ∉ after
  notBefore : before.filter Entry.isRun = []
  newestFirst : (after ++ l.work.flatMap Work.due).filter
    (Entry.concerns ((registeredIn before).map Prod.fst)) = inTurn (registeredIn before).reverse

structure Sound (l : Ledger ε) : Prop where
  lends : l.Lends
  numbered : (registeredIn l.entries).map Prod.fst = List.range l.next
  runs : (l.forecast.filter Entry.isRun).Perm (inTurn l.released)
  phase : l.Waits ∨ ∃ before after, l.Empties before after

-- A step that notes what was foreseen, if anything.
structure Foreseen (l l' : Ledger ε) (news : List (Entry ε)) : Prop where
  isClosed : l'.isClosed = l.isClosed
  kept : l'.kept = l.kept
  next : l'.next = l.next
  entries : l'.entries = l.entries ++ news
  unclosed : .closed ∉ news
  unregistered : registeredIn news = []
  due : news ++ l'.work.flatMap Work.due = l.work.flatMap Work.due

theorem Sound.foresee (h : l.Sound) (hlends : l'.Lends) {news : List (Entry ε)}
    (hnews : l.Foreseen l' news) : l'.Sound := by
  have hforecast : l'.forecast = l.forecast := by
    rw [forecast, forecast, hnews.entries, List.append_assoc, hnews.due]
  have hregistered : registeredIn l'.entries = registeredIn l.entries := by
    rw [hnews.entries, registeredIn_append, hnews.unregistered, List.append_nil]
  refine ⟨hlends, ?_, ?_, ?_⟩
  · rw [hregistered, h.numbered, hnews.next]
  · rw [hforecast, released, hnews.isClosed, hregistered]
    exact h.runs
  · rcases h.phase with hwaits | ⟨before, after, hempties⟩
    · left
      refine ⟨hnews.isClosed.trans hwaits.isOpen, ?_, ?_⟩
      · rw [hnews.kept, hregistered, hwaits.kept]
      · rw [hnews.entries, List.mem_append]
        exact not_or.mpr ⟨hwaits.unclosed, hnews.unclosed⟩
    · right
      refine ⟨before, after ++ news, hnews.isClosed.trans hempties.isClosed, ?_,
        ⟨hempties.once.1, ?_⟩, hempties.notBefore, ?_⟩
      · rw [hnews.entries, hempties.entries, List.append_assoc, List.cons_append]
      · rw [List.mem_append]
        exact not_or.mpr ⟨hempties.once.2, hnews.unclosed⟩
      · rw [List.append_assoc, hnews.due, hempties.newestFirst]

theorem registeredIn_concat (entries : List (Entry ε)) (number : Nat) (action : Teardown ε) :
    registeredIn (entries ++ [.registered number action]) =
      registeredIn entries ++ [(number, action)] := registeredIn_append _ _

theorem Sound.numbered_succ (h : l.Sound) (action : Teardown ε) :
    (registeredIn (l.entries ++ [.registered l.next action])).map Prod.fst =
      List.range (l.next + 1) := by
  rw [registeredIn_concat, List.map_append, h.numbered, List.range_succ]
  rfl

-- No entry is about an action that is not registered yet.
theorem Sound.next_notMem (h : l.Sound) {before after : List (Entry ε)}
    (hentries : l.entries = before ++ .closed :: after) :
    l.next ∉ (registeredIn before).map Prod.fst := by
  intro hmem
  have hall := h.numbered
  rw [hentries, registeredIn_append, List.map_append] at hall
  have hless := hall ▸ List.mem_append_left _ hmem
  exact Nat.lt_irrefl _ (List.mem_range.mp hless)

-- A registration with an open scope.
theorem Sound.keep (h : l.Sound) (hlends : l'.Lends) {action : Teardown ε}
    (hopen : l.isClosed = false) (hsame : l'.isClosed = l.isClosed)
    (hkept : l'.kept = l.kept ++ [(l.next, action)])
    (hentries : l'.entries = l.entries ++ [.registered l.next action])
    (hnext : l'.next = l.next + 1)
    (hdue : l'.work.flatMap Work.due = l.work.flatMap Work.due) : l'.Sound := by
  rcases h.phase with hwaits | ⟨before, after, hempties⟩
  · refine ⟨hlends, ?_, ?_, .inl ⟨hsame.trans hopen, ?_, ?_⟩⟩
    · rw [hentries, hnext, h.numbered_succ]
    · have hruns := h.runs
      rw [released, hopen, forecast, List.filter_append] at hruns
      rw [released, hsame, hopen, forecast, hentries, hdue, List.filter_append, List.filter_append]
      rwa [List.filter_cons_of_neg Bool.false_ne_true, List.filter_nil, List.append_nil]
    · rw [hkept, hentries, registeredIn_concat, hwaits.kept]
    · simpa [hentries] using hwaits.unclosed
  · rw [hempties.isClosed] at hopen
    cases hopen

-- A registration with a closed scope. The action runs next.
theorem Sound.release (h : l.Sound) (hlends : l'.Lends) {action : Teardown ε}
    (hclosed : l.isClosed = true) (hsame : l'.isClosed = l.isClosed)
    (hentries : l'.entries = l.entries ++ [.registered l.next action])
    (hnext : l'.next = l.next + 1)
    (hdue : l'.work.flatMap Work.due = course (l.next, action) ++ l.work.flatMap Work.due) :
    l'.Sound := by
  rcases h.phase with hwaits | ⟨before, after, hempties⟩
  · rw [hwaits.isOpen] at hclosed
    cases hclosed
  · refine ⟨hlends, ?_, ?_, .inr ⟨before, after ++ [.registered l.next action],
      hsame.trans hclosed, ?_, ⟨hempties.once.1, ?_⟩, hempties.notBefore, ?_⟩⟩
    · rw [hentries, hnext, h.numbered_succ]
    · have hruns := h.runs
      rw [released, hclosed, if_pos rfl, forecast, List.filter_append] at hruns
      rw [released, hsame, hclosed, if_pos rfl, forecast, hentries, hdue, registeredIn_concat,
        List.filter_append, List.filter_append, List.filter_append, filter_isRun_course,
        List.append_assoc]
      exact perm_inTurn_concat hruns (l.next, action)
    · rw [hentries, hempties.entries, List.append_assoc]
      rfl
    · simpa using hempties.once.2
    · -- The action that runs now is none of those that waited.
      have hnew : (course (l.next, action)).filter
          (Entry.concerns ((registeredIn before).map Prod.fst)) = [] :=
        filter_concerns_course (h.next_notMem hempties.entries)
      rw [← hempties.newestFirst, hdue, List.append_assoc, List.filter_append, List.filter_append,
        List.filter_append, List.filter_append, hnew]
      rfl

-- The first close. Those who waited run next.
theorem Sound.empty (h : l.Sound) (hlends : l'.Lends) (hopen : l.isClosed = false)
    (hclosed : l'.isClosed = true) (hentries : l'.entries = l.entries ++ [.closed])
    (hnext : l'.next = l.next)
    (hdue : l'.work.flatMap Work.due = inTurn l.kept.reverse ++ l.work.flatMap Work.due) :
    l'.Sound := by
  rcases h.phase with hwaits | ⟨before, after, hempties⟩
  · have hnone : l.forecast.filter Entry.isRun = [] := by
      have hruns := h.runs
      rw [released, hopen] at hruns
      exact hruns.eq_nil
    rw [forecast, List.filter_append, List.append_eq_nil_iff] at hnone
    obtain ⟨hquiet, hrest⟩ := hnone
    have hregistered : registeredIn l'.entries = registeredIn l.entries := by
      rw [hentries, registeredIn_append]
      exact List.append_nil _
    rw [hwaits.kept] at hdue
    refine ⟨hlends, ?_, ?_, .inr ⟨l.entries, [], hclosed, hentries,
      ⟨hwaits.unclosed, List.not_mem_nil⟩, hquiet, ?_⟩⟩
    · rw [hregistered, hnext, h.numbered]
    · rw [forecast, released, hclosed, if_pos rfl, hregistered, hentries, hdue, List.filter_append,
        List.filter_append, List.filter_append, hquiet, hrest, filter_isRun_inTurn, List.append_nil]
      exact perm_inTurn (List.reverse_perm _)
    · have hthose : ∀ action ∈ (registeredIn l.entries).reverse,
          action.1 ∈ (registeredIn l.entries).map Prod.fst := fun action haction =>
        List.mem_map_of_mem (List.mem_reverse.mp haction)
      rw [List.nil_append, hdue, List.filter_append, filter_concerns_inTurn hthose,
        ← filter_concerns_isRun _ (List.flatMap _ _), hrest]
      exact List.append_nil _
  · rw [hempties.isClosed] at hopen
    cases hopen

theorem Sound.turn (h : l.Sound) (hturn : l.Turn l') : l'.Sound := by
  have hlends := h.lends.turn hturn
  cases hturn with
  | begins hwork | effect hwork =>
    refine h.foresee hlends ⟨rfl, rfl, rfl, rfl, ?_, rfl, ?_⟩
    · simp
    · rw [hwork]
      rfl
  | @ends owner _ hwork =>
    refine h.foresee hlends ⟨rfl, rfl, rfl, rfl, ?_, ?_, ?_⟩
    · cases owner <;> simp
    · cases owner <;> rfl
    · rw [hwork]
      rfl
  | entersRegister hwork _ | entersClose hwork _ | leaves hwork _ =>
    refine h.foresee hlends
      ⟨rfl, rfl, rfl, (List.append_nil _).symm, List.not_mem_nil, rfl, ?_⟩
    rw [hwork]
    rfl
  | registers hwork hopen =>
    refine h.keep hlends hopen rfl rfl rfl rfl ?_
    rw [hwork]
    rfl
  | runs hwork hclosed =>
    refine h.release hlends hclosed rfl rfl rfl ?_
    rw [hwork]
    rfl
  | closes hwork hopen =>
    refine h.empty hlends hopen rfl rfl rfl ?_
    rw [List.flatMap_append, due_ofKept, hwork]
    rfl

theorem run_of_idle (n : Nat) (h : l.work = []) : l.run n = some l := by
  induction n with
  | zero => rfl
  | succ n ih =>
    have hstep : l.step = some l := by rw [step, h]
    rw [run, hstep, Option.bind_some, ih]

-- Within these steps all work is done, and no call has failed.
theorem Sound.run {n : Nat} (h : l.Sound) (hn : l.measure ≤ n) :
    ∃ l', l.run n = some l' ∧ l'.Sound ∧ l'.work = [] ∧
      ∃ m, l'.scopeRun = l.scopeRun.iterate m := by
  induction n generalizing l with
  | zero =>
    by_cases hidle : l.work = []
    · exact ⟨l, rfl, h, hidle, 0, rfl⟩
    · obtain ⟨l', -, hturn⟩ := h.lends.exists_turn hidle
      have hless := hturn.measure_lt
      omega
  | succ n ih =>
    by_cases hidle : l.work = []
    · exact ⟨l, run_of_idle _ hidle, h, hidle, 0, rfl⟩
    · obtain ⟨l₁, hstep, hturn⟩ := h.lends.exists_turn hidle
      have hless := hturn.measure_lt
      obtain ⟨l', hrun, hsound, hdone, m, hm⟩ := ih (h.turn hturn) (by omega)
      refine ⟨l', ?_, hsound, hdone, ?_⟩
      · rw [Ledger.run, hstep, Option.bind_some, hrun]
      · rcases hturn.scopeRun with hsame | hnext
        · exact ⟨m, hsame ▸ hm⟩
        · refine ⟨m + 1, ?_⟩
          rw [hm, hnext]
          rfl

-- A call from outside comes to what it comes to in the scope.
theorem Sound.serve (h : l.Sound) (hidle : l.work = []) (c : Call ε) :
    ∃ l', l.serve c = some l' ∧ l'.Sound ∧ l'.work = [] ∧ l'.scope = (l.scope.serve c).1 ∧
      l'.effects = l.effects ++ (l.scope.serve c).2 := by
  let called : Ledger ε := { l with work := .doing none c.teardown :: l.work }
  have hfree : l.isBorrowed = false := by
    rw [h.lends.borrowed, hidle]
    rfl
  have hnothing : l.Foreseen called [] :=
    ⟨rfl, rfl, rfl, (List.append_nil _).symm, List.not_mem_nil, rfl, by cases c <;> rfl⟩
  have hcalled : called.Sound := by
    refine h.foresee ⟨?_, ?_⟩ hnothing
    · show l.isBorrowed = (Work.doing none c.teardown :: l.work).any Work.isInside
      rw [hfree, hidle]
      rfl
    · show l.work.any Work.isInside = false
      rw [hidle]
      rfl
  obtain ⟨l', hrun, hsound, hdone, m, hm⟩ := hcalled.run (Nat.le_refl _)
  let alone : Run ε := { scope := l.scope, agenda := [c.teardown] }
  have hstart : called.scopeRun = alone.behind l.effects := by
    simp only [scopeRun, called, hidle, alone, Run.behind, List.append_nil]
    rfl
  rw [hstart, Run.iterate_behind] at hm
  have hagenda : (alone.iterate m).agenda = [] := by
    have hsame := congrArg Run.agenda hm
    rw [scopeRun, hdone] at hsame
    exact hsame.symm
  have hserved := serve_eq l.scope c
  rw [perform_of_done hagenda] at hserved
  refine ⟨l', hrun, hsound, hdone, ?_, ?_⟩
  · rw [hserved]
    exact congrArg Run.scope hm
  · rw [hserved]
    exact congrArg Run.effects hm

theorem Sound.serveAll (h : l.Sound) (hidle : l.work = []) (calls : List (Call ε)) :
    ∃ l', l.serveAll calls = some l' ∧ l'.Sound ∧ l'.work = [] ∧
      l'.scope = (l.scope.serveAll calls).1 ∧
      l'.effects = l.effects ++ (l.scope.serveAll calls).2 := by
  induction calls generalizing l with
  | nil => exact ⟨l, rfl, h, hidle, rfl, (List.append_nil _).symm⟩
  | cons c calls ih =>
    obtain ⟨l₁, hserve, hsound, hdone, hscope, heffects⟩ := h.serve hidle c
    obtain ⟨l', hserveAll, hsound', hdone', hscope', heffects'⟩ := ih hsound hdone
    refine ⟨l', ?_, hsound', hdone', ?_, ?_⟩
    · rw [Ledger.serveAll, List.foldlM_cons, hserve]
      exact hserveAll
    · rw [hscope', hscope]
      rfl
    · rw [heffects', heffects, hscope, List.append_assoc]
      rfl

theorem sound_new : Sound ({} : Ledger ε) where
  lends := ⟨rfl, rfl⟩
  numbered := rfl
  runs := .refl _
  phase := .inl ⟨rfl, rfl, List.not_mem_nil⟩

-- What the entries of a scope say when no call is at work. Every registration has a number of its own.
-- The entries about actions that run are a beginning and an end for each of them, if the scope is
-- closed, and otherwise there are none.
structure Orderly (l : Ledger ε) : Prop where
  numbered : (registeredIn l.entries).map Prod.fst = List.range l.next
  once : (l.entries.filter Entry.isRun).Perm
    (inTurn (if l.isClosed then registeredIn l.entries else []))
  notBefore : ∀ before after, l.entries = before ++ .closed :: after → before.filter Entry.isRun = []
  newestFirst : ∀ before after, l.entries = before ++ .closed :: after →
    after.filter (Entry.concerns ((registeredIn before).map Prod.fst)) =
      inTurn (registeredIn before).reverse

theorem Sound.orderly (h : l.Sound) (hidle : l.work = []) : l.Orderly := by
  have hsplit : ∀ before after, l.entries = before ++ .closed :: after → l.Empties before after := by
    intro before after hentries
    rcases h.phase with hwaits | ⟨before', after', hempties⟩
    · have hmem : .closed ∈ l.entries := by rw [hentries]; simp
      exact absurd hmem hwaits.unclosed
    · have hboth := hempties.entries.symm.trans hentries
      obtain ⟨rfl, -, rfl⟩ :=
        (List.append_cons_inj_of_notMem hempties.once.1 hempties.once.2).mp hboth
      exact hempties
  refine ⟨h.numbered, ?_, fun before after hentries => (hsplit before after hentries).notBefore, ?_⟩
  · have hruns := h.runs
    rw [forecast, hidle, List.flatMap_nil, List.append_nil] at hruns
    exact hruns
  · intro before after hentries
    have hnewest := (hsplit before after hentries).newestFirst
    rwa [hidle, List.flatMap_nil, List.append_nil] at hnewest

end Ledger

theorem isClosed_serve (s : Scope ε) (c : Call ε) :
    (s.serve c).1.isClosed = true ↔ s.isClosed = true ∨ c = .close := by
  cases c with
  | close => simp [serve, isClosed_close]
  | register action =>
    cases hclosed : s.isClosed with
    | true => simp [serve, register, isClosed_perform hclosed]
    | false => simp [serve, register_of_isOpen hclosed, hclosed]

theorem isClosed_serveAll (s : Scope ε) (calls : List (Call ε)) :
    (s.serveAll calls).1.isClosed = true ↔ s.isClosed = true ∨ .close ∈ calls := by
  induction calls generalizing s with
  | nil => simp [serveAll]
  | cons c calls ih =>
    have hlater := ih (s.serve c).1
    rw [isClosed_serve, or_assoc, eq_comm (a := c), ← List.mem_cons] at hlater
    exact hlater

-- Whatever is called from outside and by the actions, no call fails, and every call from outside
-- returns. By then no action has run if the scope was not closed, and otherwise each one has, once.
theorem every_action_runs_once (calls : List (Call ε)) :
    ∃ l : Ledger ε, Ledger.serveAll {} calls = some l ∧ l.work = [] ∧
      serveAll {} calls = (l.scope, l.effects) ∧ (l.isClosed = true ↔ .close ∈ calls) ∧
        l.Orderly := by
  obtain ⟨l, hserve, hsound, hidle, hscope, heffects⟩ := Ledger.sound_new.serveAll rfl calls
  have hclosed : l.isClosed = true ↔ .close ∈ calls := by
    have hnew : (Ledger.scope ({} : Ledger ε)).isClosed = false := rfl
    rw [← show l.scope.isClosed = l.isClosed from rfl, hscope, isClosed_serveAll, hnew]
    simp
  exact ⟨l, hserve, hidle, Prod.ext hscope.symm heffects.symm, hclosed, hsound.orderly hidle⟩

-- The action that runs first registers another one, and the other action closes the scope again.
example :
    (Ledger.serveAll {} [.register (.close (.once 1)), .register (.defer (.once 2) (.once 3)),
      .close]).map Ledger.effects = some [2, 3, 1] := by decide

end ShellTranscript.Scope
