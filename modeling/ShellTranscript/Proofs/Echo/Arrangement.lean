import Mathlib.Data.List.Chain
import Mathlib.Data.List.Nodup
import Mathlib.Tactic.Common
import ShellTranscript.Echo.Predictor
import ShellTranscript.Settings

-- The list of predictions. Whatever is typed, checked or cleared, in any order, the list shows first
-- what was confirmed, then what is pending or what was dropped, and what is pending stands in
-- adjacent columns.
namespace ShellTranscript

open EchoPredictor

namespace Prediction

-- A prediction at a later time. Only a pending one changes, and only in its state.
def Becomes (q q' : Prediction) : Prop :=
  q' = { q with state := q'.state } ∧ (q.isPending = false → q' = q)

theorem Becomes.refl (q : Prediction) : q.Becomes q := ⟨rfl, fun _ => rfl⟩

theorem Becomes.token {q q' : Prediction} (h : q.Becomes q') : q'.token = q.token := by
  rw [h.1]

theorem Becomes.trans {q q' q'' : Prediction} (h : q.Becomes q') (h' : q'.Becomes q'') :
    q.Becomes q'' := by
  refine ⟨?_, fun hsettled => ?_⟩
  · rw [h'.1, h.1]
  · obtain rfl := h.2 hsettled
    exact h'.2 hsettled

theorem becomes_of_isPending {q : Prediction} (h : q.isPending = true) (state : PredictionState) :
    q.Becomes { q with state } := by
  refine ⟨rfl, fun hsettled => ?_⟩
  rw [h] at hsettled
  cases hsettled

theorem becomes_drop (q : Prediction) : q.Becomes q.drop := by
  unfold drop
  split
  · rename_i hpending
    exact becomes_of_isPending hpending .invalidated
  · exact .refl q

theorem isPending_drop (q : Prediction) : q.drop.isPending = false := by
  by_cases h : q.state = .pending <;> simp [drop, isPending, h]

theorem isPending_iff (q : Prediction) : q.isPending = true ↔ q.state = .pending := by
  simp [isPending]

-- First what was confirmed, then what is pending or what was dropped.
def Phased (l : List Prediction) : Prop := ∃ confirmed rest, l = confirmed ++ rest ∧
  (∀ q ∈ confirmed, q.state = .confirmed) ∧
    ((∀ q ∈ rest, q.state = .pending) ∨ ∀ q ∈ rest, q.state = .invalidated)

-- Every prediction stands right behind the one before.
def Successive (l : List Prediction) : Prop := l.IsChain fun a b => b.column = a.column + 1

theorem phased_of_pending {l : List Prediction} (h : ∀ q ∈ l, q.state = .pending) : Phased l :=
  ⟨[], l, rfl, by simp, .inl h⟩

theorem phased_of_invalidated {l : List Prediction} (h : ∀ q ∈ l, q.state = .invalidated) :
    Phased l :=
  ⟨[], l, rfl, by simp, .inr h⟩

theorem Phased.append {l front : List Prediction} (h : Phased l)
    (hfront : ∀ q ∈ front, q.state = .confirmed) : Phased (front ++ l) := by
  obtain ⟨confirmed, rest, rfl, hconfirmed, hrest⟩ := h
  refine ⟨front ++ confirmed, rest, (List.append_assoc ..).symm, fun q hq => ?_, hrest⟩
  rcases List.mem_append.mp hq with hq | hq
  · exact hfront q hq
  · exact hconfirmed q hq

theorem filter_isPending_of_pending {l : List Prediction} (h : ∀ q ∈ l, q.state = .pending) :
    l.filter isPending = l :=
  List.filter_eq_self.mpr fun q hq => (isPending_iff q).mpr (h q hq)

theorem filter_isPending_of_settled {l : List Prediction} (h : ∀ q ∈ l, q.isPending = false) :
    l.filter isPending = [] := by
  rw [List.filter_eq_nil_iff]
  intro q hq
  simp [h q hq]

theorem Successive.column_lt {q : Prediction} {rest : List Prediction}
    (h : Successive (q :: rest)) : ∀ r ∈ rest, q.column < r.column := by
  induction rest generalizing q with
  | nil => simp
  | cons first rest ih =>
    obtain ⟨hnext, hrest⟩ := List.isChain_cons_cons.mp h
    intro r hr
    rcases List.mem_cons.mp hr with rfl | hr
    · omega
    · have hlt := ih hrest r hr
      omega

-- The row shows the character, in a column that is written.
def Echoed (row : Text) (cursor : Nat) (q : Prediction) : Prop :=
  q.column < cursor ∧ row[q.column]? = some q.char

-- The row shows something else there.
def Mistaken (row : Text) (cursor : Nat) (q : Prediction) : Prop :=
  q.column < cursor ∧ row[q.column]? ≠ some q.char

def confirm (q : Prediction) : Prediction := { q with state := .confirmed }

theorem drop_of_isPending {q : Prediction} (h : q.isPending = true) :
    q.drop = { q with state := .invalidated } := if_pos h

theorem drop_of_settled {q : Prediction} (h : q.isPending = false) : q.drop = q := by
  simp [drop, h]

-- Where each stands behind the one before, a row shows some of the first, and the next one is not
-- reached or is wrong.
theorem Successive.exists_echoed_append {l : List Prediction} (h : Successive l) (row : Text)
    (cursor : Nat) : ∃ good rest, l = good ++ rest ∧ (∀ q ∈ good, q.Echoed row cursor) ∧
      ((∀ q ∈ rest, cursor ≤ q.column) ∨
        ∃ wrong later, rest = wrong :: later ∧ wrong.Mistaken row cursor) := by
  induction l with
  | nil => exact ⟨[], [], rfl, by simp, .inl (by simp)⟩
  | cons q l ih =>
    by_cases hahead : cursor ≤ q.column
    · refine ⟨[], q :: l, rfl, by simp, .inl fun r hr => ?_⟩
      rcases List.mem_cons.mp hr with rfl | hr
      · exact hahead
      · exact Nat.le_of_lt (Nat.lt_of_le_of_lt hahead (h.column_lt r hr))
    have hbehind : q.column < cursor := Nat.lt_of_not_le hahead
    by_cases hmatch : row[q.column]? = some q.char
    · obtain ⟨good, rest, rfl, hgood, hrest⟩ := ih h.tail
      refine ⟨q :: good, rest, rfl, fun r hr => ?_, hrest⟩
      rcases List.mem_cons.mp hr with rfl | hr
      · exact ⟨hbehind, hmatch⟩
      · exact hgood r hr
    · exact ⟨[], q :: l, rfl, by simp, .inr ⟨q, l, rfl, hbehind, hmatch⟩⟩

end Prediction

namespace EchoPredictor

open Prediction

section Check

variable {row : Text} {cursor : Nat} {broken : Bool} {l : List Prediction}

theorem map_eq_self {f : Prediction → Prediction} (h : ∀ q ∈ l, f q = q) : l.map f = l :=
  (List.map_congr_left h).trans l.map_id

theorem map_token_drop (l : List Prediction) :
    (l.map Prediction.drop).map Prediction.token = l.map Prediction.token := by
  rw [List.map_map]
  apply List.map_congr_left
  intro q _
  exact (becomes_drop q).token

theorem phased_drop (h : Phased l) : Phased (l.map Prediction.drop) := by
  obtain ⟨confirmed, rest, rfl, hconfirmed, hrest⟩ := h
  have hsame : confirmed.map Prediction.drop = confirmed :=
    map_eq_self fun q hq => drop_of_settled (by simp [isPending, hconfirmed q hq])
  rw [List.map_append, hsame]
  refine (phased_of_invalidated fun q hq => ?_).append hconfirmed
  obtain ⟨r, hr, rfl⟩ := List.mem_map.mp hq
  rcases hrest with hpending | hdropped
  · simp [Prediction.drop, isPending, hpending r hr]
  · simp [Prediction.drop, isPending, hdropped r hr]

-- A check changes nothing but states.
theorem map_check {α : Type} {f : Prediction → α}
    (hf : ∀ (q : Prediction) (state : PredictionState), f { q with state } = f q) (row : Text)
    (cursor : Nat) (broken : Bool) (l : List Prediction) :
    (check row cursor broken l).map f = l.map f := by
  induction l generalizing broken with
  | nil => rfl
  | cons q rest ih =>
    unfold check
    split_ifs <;> simp only [List.map_cons, ih, hf]

theorem exists_becomes_of_mem_check {q' : Prediction} (h : q' ∈ check row cursor broken l) :
    ∃ q ∈ l, q.Becomes q' := by
  induction l generalizing broken with
  | nil => simp [check] at h
  | cons q rest ih =>
    have hlater : ∀ broken, q' ∈ check row cursor broken rest → ∃ r ∈ q :: rest, r.Becomes q' := by
      intro broken hmem
      obtain ⟨r, hr, hbecomes⟩ := ih hmem
      exact ⟨r, List.mem_cons_of_mem q hr, hbecomes⟩
    unfold check at h
    by_cases hpending : q.isPending = true
    · simp only [hpending, Bool.not_true, Bool.false_eq_true, if_false] at h
      split_ifs at h <;> rcases List.mem_cons.mp h with rfl | hmem
      · exact ⟨q, List.mem_cons_self, becomes_of_isPending hpending _⟩
      · exact hlater _ hmem
      · exact ⟨q', List.mem_cons_self, .refl q'⟩
      · exact hlater _ hmem
      · exact ⟨q, List.mem_cons_self, becomes_of_isPending hpending _⟩
      · exact hlater _ hmem
      · exact ⟨q, List.mem_cons_self, becomes_of_isPending hpending _⟩
      · exact hlater _ hmem
    · simp only [hpending, Bool.not_false, if_true] at h
      rcases List.mem_cons.mp h with rfl | hmem
      · exact ⟨q', List.mem_cons_self, .refl q'⟩
      · exact hlater _ hmem

-- What is settled is passed over.
theorem check_append_of_settled (row : Text) (cursor : Nat) (broken : Bool)
    (rest : List Prediction) (hsettled : ∀ q ∈ l, q.isPending = false) :
    check row cursor broken (l ++ rest) = l ++ check row cursor broken rest := by
  induction l with
  | nil => rfl
  | cons q l ih =>
    have hq := hsettled q List.mem_cons_self
    rw [List.cons_append, check, if_pos (by simp [hq]),
      ih fun r hr => hsettled r (List.mem_cons_of_mem q hr), List.cons_append]

theorem check_of_settled (row : Text) (cursor : Nat) (broken : Bool)
    (hsettled : ∀ q ∈ l, q.isPending = false) : check row cursor broken l = l := by
  have hnone := check_append_of_settled row cursor broken [] hsettled
  rwa [List.append_nil, check, List.append_nil] at hnone

-- Columns that are not yet written say nothing.
theorem check_of_ahead (h : ∀ q ∈ l, cursor ≤ q.column) : check row cursor false l = l := by
  induction l with
  | nil => rfl
  | cons q l ih =>
    have hq := h q List.mem_cons_self
    have hrest := ih fun r hr => h r (List.mem_cons_of_mem q hr)
    unfold check
    simp only [Bool.false_eq_true, if_false, ge_iff_le, hq, if_true, hrest, ite_self]

-- After one that is wrong nothing is expected any more.
theorem check_broken (row : Text) (cursor : Nat) (l : List Prediction) :
    check row cursor true l = l.map Prediction.drop := by
  induction l with
  | nil => rfl
  | cons q l ih =>
    rw [check, List.map_cons, ih, Prediction.drop]
    cases q.isPending <;> simp

theorem check_of_mistaken {wrong : Prediction} (hpending : wrong.isPending = true)
    (hwrong : wrong.Mistaken row cursor) (later : List Prediction) :
    check row cursor false (wrong :: later) = (wrong :: later).map Prediction.drop := by
  have hbehind : ¬ wrong.column ≥ cursor := Nat.not_le_of_lt hwrong.1
  rw [check, List.map_cons, drop_of_isPending hpending, ← check_broken row cursor later]
  simp [hpending, hbehind, hwrong.2]

theorem check_append_of_echoed (hpending : ∀ q ∈ l, q.state = .pending)
    (hechoed : ∀ q ∈ l, q.Echoed row cursor) (rest : List Prediction) :
    check row cursor false (l ++ rest) = l.map confirm ++ check row cursor false rest := by
  induction l with
  | nil => rfl
  | cons q l ih =>
    obtain ⟨hcolumn, hmatch⟩ := hechoed q List.mem_cons_self
    have hq : q.isPending = true := (isPending_iff q).mpr (hpending q List.mem_cons_self)
    have hbehind : ¬ q.column ≥ cursor := Nat.not_le_of_lt hcolumn
    rw [List.cons_append, check, ih (fun r hr => hpending r (List.mem_cons_of_mem q hr))
      fun r hr => hechoed r (List.mem_cons_of_mem q hr)]
    simp [hq, hbehind, hmatch, confirm]

-- Pending predictions are confirmed from the left on, up to one that is not reached or is wrong.
theorem check_pending (row : Text) (cursor : Nat) (hpending : ∀ q ∈ l, q.state = .pending)
    (hsuccessive : Successive l) :
    Phased (check row cursor false l) ∧ (check row cursor false l).filter isPending <:+ l := by
  obtain ⟨good, rest, rfl, hgood, hrest⟩ := hsuccessive.exists_echoed_append row cursor
  obtain ⟨hgoodPending, hrestPending⟩ := List.forall_mem_append.mp hpending
  have hconfirmed : ∀ q ∈ good.map confirm, q.state = .confirmed := by simp [confirm]
  have hsettled : (good.map confirm).filter isPending = [] :=
    filter_isPending_of_settled fun q hq => by simp [isPending, hconfirmed q hq]
  rw [check_append_of_echoed hgoodPending hgood, List.filter_append, hsettled, List.nil_append]
  rcases hrest with hahead | ⟨wrong, later, rfl, hwrong⟩
  · rw [check_of_ahead hahead, filter_isPending_of_pending hrestPending]
    exact ⟨(phased_of_pending hrestPending).append hconfirmed, List.suffix_append good rest⟩
  · have hwrongPending := (isPending_iff wrong).mpr (hrestPending wrong List.mem_cons_self)
    rw [check_of_mistaken hwrongPending hwrong, filter_isPending_of_settled (by simp [isPending_drop])]
    exact ⟨(phased_drop (phased_of_pending hrestPending)).append hconfirmed, List.nil_suffix⟩

theorem phased_check (row : Text) (cursor : Nat) (h : Phased l)
    (hsuccessive : Successive (l.filter isPending)) :
    Phased (check row cursor false l) ∧
      (check row cursor false l).filter isPending <:+ l.filter isPending := by
  obtain ⟨confirmed, rest, rfl, hconfirmed, hrest⟩ := h
  have hsettled : ∀ q ∈ confirmed, q.isPending = false := fun q hq => by
    simp [isPending, hconfirmed q hq]
  rw [List.filter_append, filter_isPending_of_settled hsettled, List.nil_append] at hsuccessive
  rw [check_append_of_settled row cursor false rest hsettled, List.filter_append, List.filter_append,
    filter_isPending_of_settled hsettled, List.nil_append, List.nil_append]
  rcases hrest with hpending | hdropped
  · rw [filter_isPending_of_pending hpending] at hsuccessive ⊢
    obtain ⟨hphased, hsuffix⟩ := check_pending row cursor hpending hsuccessive
    exact ⟨hphased.append hconfirmed, hsuffix⟩
  · have hdone : ∀ q ∈ rest, q.isPending = false := fun q hq => by simp [isPending, hdropped q hq]
    rw [check_of_settled row cursor false hdone]
    exact ⟨(phased_of_invalidated hdropped).append hconfirmed, List.suffix_refl _⟩

end Check

section Predict

variable {token column now : Nat} {typed : Text} {q : Prediction}

theorem successive_predict (token column now : Nat) (typed : Text) :
    Successive (predict token column now typed) ∧
      ∀ q ∈ (predict token column now typed).head?, q.column = column := by
  induction typed generalizing token column with
  | nil => simp [predict, Successive]
  | cons c rest ih =>
    obtain ⟨hsuccessive, hhead⟩ := ih (token + 1) (column + 1)
    refine ⟨List.isChain_cons.mpr ⟨fun q hq => ?_, hsuccessive⟩, by simp [predict]⟩
    exact hhead q hq

theorem of_mem_predict (h : q ∈ predict token column now typed) :
    q.state = .pending ∧ q.createdAt = now ∧ token ≤ q.token ∧ q.token < token + typed.length := by
  induction typed generalizing token column with
  | nil => simp [predict] at h
  | cons c rest ih =>
    rcases List.mem_cons.mp h with rfl | hmem
    · simp
    · obtain ⟨hstate, hcreated, hge, hlt⟩ := ih hmem
      refine ⟨hstate, hcreated, by omega, ?_⟩
      simp only [List.length_cons]
      omega

theorem predict_ne_nil (h : typed ≠ []) : predict token column now typed ≠ [] := by
  cases typed with
  | nil => exact absurd rfl h
  | cons => simp [predict]

theorem pairwise_predict (token column now : Nat) (typed : Text) :
    (predict token column now typed).Pairwise fun a b => a.token < b.token := by
  induction typed generalizing token column with
  | nil => simp [predict]
  | cons c rest ih =>
    refine List.pairwise_cons.mpr ⟨fun q hq => ?_, ih (token + 1) (column + 1)⟩
    have hge := (of_mem_predict hq).2.2.1
    simp only
    omega

end Predict

-- Text that just prints. Any other may move the cursor in other ways.
def Prints (typed : Text) : Prop := typed ≠ [] ∧ ∀ c ∈ typed, Text.isControl c = false

theorem prints_iff (typed : Text) :
    Prints typed ↔ ¬ (typed.isEmpty || typed.any Text.isControl) = true := by
  simp [Prints]

instance (typed : Text) : Decidable (Prints typed) := decidable_of_iff' _ (prints_iff typed)

inductive Step where
  | type (typed : Text) (cursor : Nat)
  | reconcile (row : Text) (cursor : Nat)
  | expire
  | clear
  | resize
  | switchScreen
  | changeCommand
  | prune

-- Where the cursor may jump, nothing is expected any more.
def Step.run (now : Nat) (p : EchoPredictor) : Step → EchoPredictor
  | type typed cursor => (p.type typed cursor now).2
  | reconcile row cursor => p.reconcile row cursor
  | expire => (p.expire now).2
  | clear | resize | switchScreen | changeCommand => p.clear
  | prune => p.prune

-- The predictor of a session that was just opened.
def start (settings : EchoSettings) : EchoPredictor :=
  .new settings.enabled settings.quietPeriod settings.longestWait

-- The predictor after operations, each with its time.
def play (p : EchoPredictor) (history : List (Nat × Step)) : EchoPredictor :=
  history.foldl (fun p call => call.2.run call.1 p) p

-- What holds of the predictions at every time.
structure Arranged (p : EchoPredictor) : Prop where
  ascending : (p.predictions.map Prediction.token).Pairwise (· < ·)
  below : ∀ token ∈ p.predictions.map Prediction.token, token < p.nextToken
  phased : Phased p.predictions
  successive : Successive p.overlay

section Steps

variable {p p' : EchoPredictor}

theorem hasPending_iff (p : EchoPredictor) : p.hasPending = true ↔ p.overlay ≠ [] := by
  simp [hasPending, overlay, List.filter_eq_nil_iff]

theorem pending_of_mem_overlay {q : Prediction} (h : q ∈ p.overlay) : q.state = .pending :=
  (isPending_iff q).mp (List.mem_filter.mp h).2

theorem overlay_clear (p : EchoPredictor) : p.clear.overlay = [] := by
  apply filter_isPending_of_settled
  intro q hq
  obtain ⟨r, -, rfl⟩ := List.mem_map.mp hq
  exact isPending_drop r

-- As long as only old tokens are left, they are in order.
theorem Arranged.thin (h : p.Arranged)
    (htokens : (p'.predictions.map Prediction.token).Sublist (p.predictions.map Prediction.token))
    (hnext : p'.nextToken = p.nextToken) (hphased : Phased p'.predictions)
    (hsuccessive : Successive p'.overlay) : p'.Arranged where
  ascending := h.ascending.sublist htokens
  below token htoken := hnext ▸ h.below token (htokens.subset htoken)
  phased := hphased
  successive := hsuccessive

theorem arranged_start (settings : EchoSettings) : (start settings).Arranged := by
  have hnone : (start settings).predictions = [] := rfl
  exact ⟨.nil, by simp [hnone], phased_of_pending (by simp [hnone]), .nil⟩

-- No two predictions of a list have one token.
theorem Arranged.eq_of_token (h : p.Arranged) {q r : Prediction} (hq : q ∈ p.predictions)
    (hr : r ∈ p.predictions) (htoken : q.token = r.token) : q = r := by
  have hnodup : (p.predictions.map Prediction.token).Nodup := h.ascending.imp Nat.ne_of_lt
  exact List.inj_on_of_nodup_map hnodup hq hr htoken

theorem Arranged.clear (h : p.Arranged) : p.clear.Arranged := by
  have htokens : p.clear.predictions.map Prediction.token = p.predictions.map Prediction.token :=
    map_token_drop p.predictions
  refine h.thin (htokens ▸ List.Sublist.refl _) rfl (phased_drop h.phased) ?_
  rw [overlay_clear]
  exact .nil

theorem overlay_prune (p : EchoPredictor) : p.prune.overlay = p.overlay := by
  simp [prune, overlay]

theorem Arranged.prune (h : p.Arranged) : p.prune.Arranged := by
  have hpending : ∀ q ∈ p.prune.predictions, q.state = .pending := fun _ hq =>
    pending_of_mem_overlay hq
  refine h.thin (List.filter_sublist.map _) rfl (phased_of_pending hpending) ?_
  rw [overlay_prune]
  exact h.successive

-- A check stops the timer when it leaves nothing pending.
theorem reconcile_eq (p : EchoPredictor) (row : Text) (cursor : Nat) :
    p.reconcile row cursor = { p with
      predictions := check row cursor false p.predictions
      timer := if (check row cursor false p.predictions).any isPending then p.timer
        else p.timer.stop } := by
  unfold EchoPredictor.reconcile
  dsimp only
  split
  · rename_i hpending
    have hany : (check row cursor false p.predictions).any isPending = true := hpending
    rw [if_pos hany]
  · rename_i hnone
    have hall : ¬ (check row cursor false p.predictions).any isPending = true := hnone
    rw [if_neg hall]

theorem predictions_reconcile (p : EchoPredictor) (row : Text) (cursor : Nat) :
    (p.reconcile row cursor).predictions = check row cursor false p.predictions := by
  rw [reconcile_eq]

theorem timer_reconcile_of_pending {row : Text} {cursor : Nat}
    (h : (p.reconcile row cursor).overlay ≠ []) : (p.reconcile row cursor).timer = p.timer := by
  rw [← hasPending_iff, hasPending, predictions_reconcile] at h
  rw [reconcile_eq]
  exact if_pos h

theorem timer_reconcile_of_resting {row : Text} {cursor : Nat}
    (h : (p.reconcile row cursor).overlay = []) : (p.reconcile row cursor).timer = p.timer.stop := by
  have hnone : ¬ (check row cursor false p.predictions).any isPending = true := by
    rw [← predictions_reconcile, ← hasPending, hasPending_iff]
    exact not_not.mpr h
  rw [reconcile_eq]
  exact if_neg hnone

theorem Arranged.overlay_reconcile (h : p.Arranged) (row : Text) (cursor : Nat) :
    (p.reconcile row cursor).overlay <:+ p.overlay := by
  rw [overlay, predictions_reconcile]
  exact (phased_check row cursor h.phased h.successive).2

theorem Arranged.reconcile (h : p.Arranged) (row : Text) (cursor : Nat) :
    (p.reconcile row cursor).Arranged := by
  have hnext : (p.reconcile row cursor).nextToken = p.nextToken := by rw [reconcile_eq]
  refine h.thin ?_ hnext ?_ (h.successive.suffix (h.overlay_reconcile row cursor))
  · rw [predictions_reconcile, map_check fun _ _ => rfl]
  · rw [predictions_reconcile]
    exact (phased_check row cursor h.phased h.successive).1

-- The column of the next typed character: right behind what is pending, or at the cursor.
def nextColumn (p : EchoPredictor) (cursor : Nat) : Nat :=
  match p.overlay.getLast? with
  | some last => last.column + 1
  | none => cursor

-- The predictor after text that prints was typed.
def extend (p : EchoPredictor) (column now : Nat) (typed : Text) : EchoPredictor :=
  { p with
    predictions := p.overlay ++ predict p.nextToken column now typed
    nextToken := p.nextToken + typed.length
    timer := p.timer.schedule now }

theorem type_cases (p : EchoPredictor) (typed : Text) (cursor now : Nat) :
    (p.enabled = false ∧ (p.type typed cursor now).2 = p) ∨
      (¬ Prints typed ∧ (p.type typed cursor now).2 = p.clear) ∨
      (p.enabled = true ∧ Prints typed ∧
        (p.type typed cursor now).2 = p.extend (p.nextColumn cursor) now typed) := by
  unfold EchoPredictor.type
  split
  · rename_i hdisabled
    exact .inl ⟨by simpa using hdisabled, rfl⟩
  rename_i henabled
  split
  · rename_i hmoves
    exact .inr (.inl ⟨fun hprints => (prints_iff typed).mp hprints hmoves, rfl⟩)
  · rename_i hprints
    exact .inr (.inr ⟨by simpa using henabled, (prints_iff typed).mpr hprints, rfl⟩)

theorem successive_extend (hsuccessive : Successive p.overlay) (cursor : Nat) (typed : Text) :
    Successive (p.extend (p.nextColumn cursor) now typed).predictions := by
  obtain ⟨hadded, hhead⟩ := successive_predict p.nextToken (p.nextColumn cursor) now typed
  refine List.isChain_append.mpr ⟨hsuccessive, hadded, fun last hlast q hq => ?_⟩
  rw [hhead q hq, nextColumn, Option.mem_def.mp hlast]

theorem pending_extend (p : EchoPredictor) (column now : Nat) (typed : Text) :
    ∀ q ∈ (p.extend column now typed).predictions, q.state = .pending := by
  intro q hq
  rcases List.mem_append.mp hq with hq | hq
  · exact pending_of_mem_overlay hq
  · exact (of_mem_predict hq).1

theorem overlay_extend (p : EchoPredictor) (column now : Nat) (typed : Text) :
    (p.extend column now typed).overlay =
      p.overlay ++ predict p.nextToken column now typed :=
  filter_isPending_of_pending (p.pending_extend column now typed)

theorem Arranged.extend (h : p.Arranged) (cursor now : Nat) (typed : Text) :
    (p.extend (p.nextColumn cursor) now typed).Arranged := by
  have hbelow : ∀ q ∈ p.overlay, q.token < p.nextToken := fun q hq =>
    h.below q.token (List.mem_map_of_mem (List.mem_filter.mp hq).1)
  refine ⟨?_, ?_, phased_of_pending (p.pending_extend _ _ _), ?_⟩
  · refine List.pairwise_map.mpr (List.pairwise_append.mpr ⟨?_, pairwise_predict _ _ _ _, ?_⟩)
    · exact (List.pairwise_map.mp h.ascending).filter _
    · intro q hq r hr
      exact Nat.lt_of_lt_of_le (hbelow q hq) (of_mem_predict hr).2.2.1
  · intro token htoken
    obtain ⟨q, hq, rfl⟩ := List.mem_map.mp htoken
    rcases List.mem_append.mp hq with hq | hq
    · exact Nat.lt_add_right typed.length (hbelow q hq)
    · exact (of_mem_predict hq).2.2.2
  · rw [overlay_extend]
    exact successive_extend h.successive cursor typed

theorem Arranged.run (h : p.Arranged) (now : Nat) (s : Step) : (s.run now p).Arranged := by
  cases s with
  | type typed cursor =>
    simp only [Step.run]
    rcases p.type_cases typed cursor now with ⟨-, hsame⟩ | ⟨-, hclear⟩ | ⟨-, -, hextend⟩
    · rwa [hsame]
    · rw [hclear]
      exact h.clear
    · rw [hextend]
      exact h.extend cursor now typed
  | reconcile row cursor => exact h.reconcile row cursor
  | expire =>
    simp only [Step.run, EchoPredictor.expire]
    split
    · exact h.clear
    · exact h
  | resize | switchScreen | changeCommand | clear => exact h.clear
  | prune => exact h.prune

theorem Arranged.play (h : p.Arranged) (history : List (Nat × Step)) :
    (p.play history).Arranged := by
  induction history generalizing p with
  | nil => exact h
  | cons call history ih => exact ih (h.run call.1 call.2)

end Steps

end EchoPredictor

end ShellTranscript
